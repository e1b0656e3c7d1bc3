import Mathlib

/-!
# Programs over a signature of calls

A program is a finite tree: it either returns a value or issues a call and continues with the
reply. Nothing is said here about what a call does; that is the business of a handler
(`Exec.lean`) or of the other programs running next to this one (`Pool.lean`).

`After p tr q` follows one branch of the tree: `p` has issued the calls of `tr`, received the
replies recorded there, and `q` is what is left of it.
-/

namespace Lib

/-- The calls a program can issue, and the type of the reply to each of them. -/
structure Sig where
  Call : Type
  Reply : Call → Type

/-- A program: a finite tree that branches on the replies it gets. -/
inductive Prog (S : Sig) (α : Type) : Type
  | done (a : α)
  | call (c : S.Call) (k : S.Reply c → Prog S α)

/-- A call together with the reply it got. -/
structure Event (S : Sig) where
  call : S.Call
  reply : S.Reply call

theorem append_eq_append_cons_cases {β : Type*} {a b xs ys : List β} {x : β}
    (h : a ++ b = xs ++ x :: ys) :
    (∃ zs, a = xs ++ x :: zs ∧ ys = zs ++ b) ∨ ∃ zs, xs = a ++ zs ∧ b = zs ++ x :: ys := by
  rcases List.append_eq_append_iff.mp h with ⟨zs, rfl, rfl⟩ | ⟨zs, rfl, hrest⟩
  · exact .inr ⟨zs, rfl, rfl⟩
  · cases zs with
    | nil => exact .inr ⟨[], by simp, hrest.symm⟩
    | cons z zs =>
      obtain ⟨rfl, rfl⟩ := List.cons_eq_cons.mp hrest
      exact .inl ⟨zs, rfl, rfl⟩

namespace Prog

variable {S : Sig} {α β γ : Type}

/-- Run `p`, then continue with its value. -/
def bind : Prog S α → (α → Prog S β) → Prog S β
  | .done a, f => f a
  | .call c k, f => .call c fun r => (k r).bind f

instance : Monad (Prog S) where
  pure := .done
  bind := Prog.bind

/-- Issue one call and return its reply. -/
def invoke (c : S.Call) : Prog S (S.Reply c) := .call c .done

@[simp] theorem pure_eq (a : α) : (pure a : Prog S α) = .done a := rfl

@[simp] theorem done_bind (a : α) (f : α → Prog S β) : (Prog.done a >>= f) = f a := rfl

@[simp] theorem call_bind (c : S.Call) (k : S.Reply c → Prog S α) (f : α → Prog S β) :
    (Prog.call c k >>= f) = .call c fun r => k r >>= f := rfl

@[simp] theorem invoke_bind (c : S.Call) (f : S.Reply c → Prog S β) :
    (invoke c >>= f) = .call c f := rfl

theorem bind_done (p : Prog S α) : (p >>= Prog.done) = p := by
  induction p with
  | done a => rfl
  | call c k ih =>
    rw [call_bind]
    exact congrArg _ (funext ih)

theorem bind_assoc (p : Prog S α) (f : α → Prog S β) (g : β → Prog S γ) :
    (p >>= f >>= g) = p >>= fun a => f a >>= g := by
  induction p with
  | done a => rfl
  | call c k ih =>
    simp only [call_bind]
    exact congrArg _ (funext ih)

instance : LawfulMonad (Prog S) := LawfulMonad.mk' _
  (fun p => bind_done p)
  (fun _ _ => rfl)
  (fun p f g => bind_assoc p f g)

/-! ## Following one branch -/

/-- `p` has issued the calls of `tr` with the replies recorded there, and `q` remains. -/
inductive After : Prog S α → List (Event S) → Prog S α → Prop
  | nil (p : Prog S α) : After p [] p
  | cons {c : S.Call} {k : S.Reply c → Prog S α} {q : Prog S α} {tr : List (Event S)}
      (r : S.Reply c) (h : After (k r) tr q) : After (.call c k) (⟨c, r⟩ :: tr) q

theorem after_nil_iff {p q : Prog S α} : After p [] q ↔ q = p := by
  constructor
  · rintro ⟨⟩
    rfl
  · rintro rfl
    exact .nil _

@[simp] theorem after_done_iff {a : α} {tr : List (Event S)} {q : Prog S α} :
    After (.done a) tr q ↔ tr = [] ∧ q = .done a := by
  constructor
  · rintro ⟨⟩
    exact ⟨rfl, rfl⟩
  · rintro ⟨rfl, rfl⟩
    exact .nil _

theorem after_call_iff {c : S.Call} {k : S.Reply c → Prog S α} {tr : List (Event S)}
    {q : Prog S α} :
    After (.call c k) tr q ↔
      (tr = [] ∧ q = .call c k) ∨ ∃ r tr', tr = ⟨c, r⟩ :: tr' ∧ After (k r) tr' q := by
  constructor
  · intro h
    cases h with
    | nil => exact .inl ⟨rfl, rfl⟩
    | cons r h => exact .inr ⟨r, _, rfl, h⟩
  · rintro (⟨rfl, rfl⟩ | ⟨r, tr', rfl, h⟩)
    · exact .nil _
    · exact .cons r h

@[simp] theorem after_call_done_iff {c : S.Call} {k : S.Reply c → Prog S α} {tr : List (Event S)}
    {a : α} :
    After (.call c k) tr (.done a) ↔ ∃ r tr', tr = ⟨c, r⟩ :: tr' ∧ After (k r) tr' (.done a) := by
  simp [after_call_iff]

theorem after_invoke_iff {c : S.Call} {f : S.Reply c → Prog S α} {tr : List (Event S)}
    {q : Prog S α} :
    After (invoke c >>= f) tr q ↔
      (tr = [] ∧ q = invoke c >>= f) ∨ ∃ r tr', tr = ⟨c, r⟩ :: tr' ∧ After (f r) tr' q :=
  after_call_iff

theorem after_invoke_done_iff {c : S.Call} {f : S.Reply c → Prog S α} {tr : List (Event S)} {a : α} :
    After (invoke c >>= f) tr (.done a) ↔ ∃ r tr', tr = ⟨c, r⟩ :: tr' ∧ After (f r) tr' (.done a) :=
  after_call_done_iff

/-- The last event of a branch is the first call, or lies behind it. -/
theorem after_invoke_snoc {c : S.Call} {f : S.Reply c → Prog S α} {tr : List (Event S)}
    {ev : Event S} {q : Prog S α} (h : After (invoke c >>= f) (tr ++ [ev]) q) :
    (tr = [] ∧ ev.call = c) ∨ ∃ r tr', tr = ⟨c, r⟩ :: tr' ∧ After (f r) (tr' ++ [ev]) q := by
  rcases after_call_iff.mp h with ⟨hnil, -⟩ | ⟨r, tr', heq, hrest⟩
  · simp at hnil
  · cases tr with
    | nil =>
      obtain ⟨rfl, -⟩ := List.cons_eq_cons.mp heq
      exact .inl ⟨rfl, rfl⟩
    | cons x tr =>
      obtain ⟨rfl, rfl⟩ := List.cons_eq_cons.mp heq
      exact .inr ⟨r, tr, rfl, hrest⟩

theorem After.trans {p q q' : Prog S α} {tr tr' : List (Event S)} (h : After p tr q)
    (h' : After q tr' q') : After p (tr ++ tr') q' := by
  induction h with
  | nil => exact h'
  | cons r _ ih => exact .cons r (ih h')

theorem after_append_iff {p q : Prog S α} {tr tr' : List (Event S)} :
    After p (tr ++ tr') q ↔ ∃ p', After p tr p' ∧ After p' tr' q := by
  constructor
  · intro h
    induction tr generalizing p with
    | nil => exact ⟨p, .nil p, h⟩
    | cons ev tr ih =>
      cases h with
      | cons r h =>
        obtain ⟨p', h₁, h₂⟩ := ih h
        exact ⟨p', .cons r h₁, h₂⟩
  · rintro ⟨p', h₁, h₂⟩
    exact h₁.trans h₂

/-- A branch of `p >>= f` stops inside `p`, or finishes `p` and goes on in `f`. -/
theorem after_bind_iff {p : Prog S α} {f : α → Prog S β} {tr : List (Event S)} {q : Prog S β} :
    After (p >>= f) tr q ↔
      (∃ p', After p tr p' ∧ q = p' >>= f) ∨
        ∃ a tr₁ tr₂, tr = tr₁ ++ tr₂ ∧ After p tr₁ (.done a) ∧ After (f a) tr₂ q := by
  induction p generalizing tr with
  | done a =>
    constructor
    · intro h
      exact .inr ⟨a, [], tr, rfl, .nil _, h⟩
    · rintro (⟨p', h, rfl⟩ | ⟨b, tr₁, tr₂, rfl, h, h'⟩)
      · obtain ⟨rfl, rfl⟩ := after_done_iff.mp h
        exact .nil _
      · obtain ⟨rfl, hb⟩ := after_done_iff.mp h
        cases hb
        exact h'
  | call c k ih =>
    rw [call_bind, after_call_iff]
    constructor
    · rintro (⟨rfl, rfl⟩ | ⟨r, tr', rfl, h⟩)
      · exact .inl ⟨_, .nil _, rfl⟩
      · rcases (ih r).mp h with ⟨p', hp, rfl⟩ | ⟨a, tr₁, tr₂, rfl, hp, hf⟩
        · exact .inl ⟨p', .cons r hp, rfl⟩
        · exact .inr ⟨a, _ :: tr₁, tr₂, rfl, .cons r hp, hf⟩
    · rintro (⟨p', hp, rfl⟩ | ⟨a, tr₁, tr₂, rfl, hp, hf⟩)
      · rcases after_call_iff.mp hp with ⟨rfl, rfl⟩ | ⟨r, tr', rfl, hk⟩
        · exact .inl ⟨rfl, rfl⟩
        · exact .inr ⟨r, tr', rfl, (ih r).mpr (.inl ⟨p', hk, rfl⟩)⟩
      · obtain ⟨r, tr', rfl, hk⟩ := after_call_done_iff.mp hp
        exact .inr ⟨r, _, rfl, (ih r).mpr (.inr ⟨a, tr', tr₂, rfl, hk, hf⟩)⟩

/-- A branch of `p >>= f` stops at a call of `p`, or finishes `p` and goes on in `f`. -/
theorem after_bind_cases {p : Prog S α} {f : α → Prog S β} {tr : List (Event S)} {q : Prog S β}
    (h : After (p >>= f) tr q) :
    (∃ c k, After p tr (.call c k) ∧ q = .call c fun r => k r >>= f) ∨
      ∃ a tr₁ tr₂, tr = tr₁ ++ tr₂ ∧ After p tr₁ (.done a) ∧ After (f a) tr₂ q := by
  rcases after_bind_iff.mp h with ⟨p', hp, hq⟩ | h
  · cases p' with
    | done a => exact .inr ⟨a, tr, [], (List.append_nil tr).symm, hp, hq ▸ .nil _⟩
    | call c k => exact .inl ⟨c, k, hp, hq⟩
  · exact .inr h

/-- The last event of a branch of `p >>= f` is one of `p`, or one of `f` after `p` has returned. -/
theorem after_bind_snoc {p : Prog S α} {f : α → Prog S β} {tr : List (Event S)} {ev : Event S}
    {q : Prog S β} (h : After (p >>= f) (tr ++ [ev]) q) :
    (∃ p', After p (tr ++ [ev]) p') ∨
      ∃ a tr₁ tr₂, tr = tr₁ ++ tr₂ ∧ After p tr₁ (.done a) ∧ After (f a) (tr₂ ++ [ev]) q := by
  rcases after_bind_iff.mp h with ⟨p', hp, -⟩ | ⟨a, tr₁, tr₂, heq, hp, hf⟩
  · exact .inl ⟨p', hp⟩
  · rcases List.eq_nil_or_concat tr₂ with rfl | ⟨tr₂, ev', rfl⟩
    · rw [List.append_nil] at heq
      exact .inl ⟨.done a, heq ▸ hp⟩
    · rw [List.concat_eq_append, ← List.append_assoc] at heq
      obtain ⟨rfl, hev⟩ := List.append_inj' heq rfl
      cases hev
      rw [List.concat_eq_append] at hf
      exact .inr ⟨a, tr₁, tr₂, rfl, hp, hf⟩

/-- A finished branch of `p >>= f` splits at the value of `p`. -/
theorem after_bind_done_iff {p : Prog S α} {f : α → Prog S β} {tr : List (Event S)} {b : β} :
    After (p >>= f) tr (.done b) ↔
      ∃ a tr₁ tr₂, tr = tr₁ ++ tr₂ ∧ After p tr₁ (.done a) ∧ After (f a) tr₂ (.done b) := by
  rw [after_bind_iff]
  constructor
  · rintro (⟨p', hp, hq⟩ | h)
    · cases p' with
      | done a => exact ⟨a, tr, [], (List.append_nil tr).symm, hp, by rw [hq]; exact .nil _⟩
      | call c k => cases hq
    · exact h
  · exact .inr

/-! ## Calls a program may issue -/

/-- Every call on every branch of the program satisfies `P`. -/
def All (P : S.Call → Prop) : Prog S α → Prop
  | .done _ => True
  | .call c k => P c ∧ ∀ r, (k r).All P

@[simp] theorem all_done {P : S.Call → Prop} {a : α} : (Prog.done a : Prog S α).All P := trivial

@[simp] theorem all_call {P : S.Call → Prop} {c : S.Call} {k : S.Reply c → Prog S α} :
    (Prog.call c k).All P ↔ P c ∧ ∀ r, (k r).All P := Iff.rfl

theorem all_invoke_bind {P : S.Call → Prop} {c : S.Call} {f : S.Reply c → Prog S α} :
    (invoke c >>= f).All P ↔ P c ∧ ∀ r, (f r).All P := Iff.rfl

theorem All.bind {P : S.Call → Prop} {p : Prog S α} {f : α → Prog S β} (hp : p.All P)
    (hf : ∀ a, (f a).All P) : (p >>= f).All P := by
  induction p with
  | done a => exact hf a
  | call c k ih => exact ⟨hp.1, fun r => ih r (hp.2 r)⟩

theorem All.mono {P Q : S.Call → Prop} {p : Prog S α} (hp : p.All P) (h : ∀ c, P c → Q c) :
    p.All Q := by
  induction p with
  | done a => trivial
  | call c k ih => exact ⟨h c hp.1, fun r => ih r (hp.2 r)⟩

/-- Every value the program can return satisfies `Q`. -/
def Ends (Q : α → Prop) : Prog S α → Prop
  | .done a => Q a
  | .call _ k => ∀ r, (k r).Ends Q

theorem ends_true (p : Prog S α) : p.Ends fun _ => True := by
  induction p with
  | done a => trivial
  | call c k ih => exact ih

theorem Ends.mono {Q R : α → Prop} {p : Prog S α} (hp : p.Ends Q) (h : ∀ a, Q a → R a) : p.Ends R := by
  induction p with
  | done a => exact h a hp
  | call c k ih => exact fun r => ih r (hp r)

theorem ends_invoke_bind {Q : α → Prop} {c : S.Call} {f : S.Reply c → Prog S α} :
    (invoke c >>= f).Ends Q ↔ ∀ r, (f r).Ends Q := Iff.rfl

theorem Ends.bind {Q : α → Prop} {R : β → Prop} {p : Prog S α} {f : α → Prog S β} (hp : p.Ends Q)
    (hf : ∀ a, Q a → (f a).Ends R) : (p >>= f).Ends R := by
  induction p with
  | done a => exact hf a hp
  | call c k ih => exact fun r => ih r (hp r)

theorem Ends.of_after {Q : α → Prop} {p : Prog S α} {tr : List (Event S)} {a : α} (hp : p.Ends Q)
    (h : After p tr (.done a)) : Q a := by
  induction tr generalizing p with
  | nil =>
    obtain rfl := after_nil_iff.mp h
    exact hp
  | cons ev tr ih =>
    cases h with
    | cons r h => exact ih (hp r) h

theorem All.bind_ends {P : S.Call → Prop} {Q : α → Prop} {p : Prog S α} {f : α → Prog S β}
    (hp : p.All P) (hq : p.Ends Q) (hf : ∀ a, Q a → (f a).All P) : (p >>= f).All P := by
  induction p with
  | done a => exact hf a hq
  | call c k ih => exact ⟨hp.1, fun r => ih r (hp.2 r) (hq r)⟩

theorem All.of_mem {P : S.Call → Prop} {p q : Prog S α} {tr : List (Event S)} (hp : p.All P)
    (h : After p tr q) : ∀ ev ∈ tr, P ev.call := by
  induction h with
  | nil => simp
  | cons r _ ih =>
    intro ev hev
    rcases List.mem_cons.mp hev with rfl | hev
    · exact hp.1
    · exact ih (hp.2 r) ev hev

end Prog

end Lib
