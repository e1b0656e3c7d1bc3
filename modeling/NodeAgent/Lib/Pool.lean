import NodeAgent.Lib.Exec

/-!
# Programs running next to each other

A pool is a list of programs that share a world. One of them at a time makes its next call, in any
order; the trace records who made it. What a program of the pool sees is a branch of its own tree
(`Interleave.after`), and the world replays the calls of all of them in the order of the trace.
-/

namespace Lib

variable {S : Sig} {E W α : Type}

/-- An event of a pool: the number of the program, and its call with the reply. -/
abbrev Tagged (S : Sig) := ℕ × Event S

/-! ## Interleavings -/

/-- The programs `ts` have made the calls of `tr`, and `ts'` is what is left of them. -/
inductive Interleave : List (Prog S α) → List (Tagged S) → List (Prog S α) → Prop
  | nil (ts : List (Prog S α)) : Interleave ts [] ts
  | cons {ts ts' : List (Prog S α)} {i : ℕ} {c : S.Call} {k : S.Reply c → Prog S α}
      {tr : List (Tagged S)} (hi : ts[i]? = some (.call c k)) (r : S.Reply c)
      (h : Interleave (ts.set i (k r)) tr ts') : Interleave ts ((i, ⟨c, r⟩) :: tr) ts'

/-- The events of program `i`. -/
def eventsOf (i : ℕ) (tr : List (Tagged S)) : List (Event S) :=
  tr.filterMap fun x => if x.1 = i then some x.2 else none

@[simp] theorem eventsOf_nil (i : ℕ) : eventsOf i ([] : List (Tagged S)) = [] := rfl

theorem eventsOf_cons (i : ℕ) (x : Tagged S) (tr : List (Tagged S)) :
    eventsOf i (x :: tr) = if x.1 = i then x.2 :: eventsOf i tr else eventsOf i tr := by
  unfold eventsOf
  rw [List.filterMap_cons]
  split_ifs <;> rfl

@[simp] theorem eventsOf_append (i : ℕ) (tr tr' : List (Tagged S)) :
    eventsOf i (tr ++ tr') = eventsOf i tr ++ eventsOf i tr' := List.filterMap_append

@[simp] theorem eventsOf_cons_self (i : ℕ) (ev : Event S) (tr : List (Tagged S)) :
    eventsOf i ((i, ev) :: tr) = ev :: eventsOf i tr := by
  rw [eventsOf_cons, if_pos rfl]

theorem eventsOf_cons_of_ne {i j : ℕ} (h : i ≠ j) (ev : Event S) (tr : List (Tagged S)) :
    eventsOf j ((i, ev) :: tr) = eventsOf j tr := by
  rw [eventsOf_cons, if_neg h]

theorem mem_eventsOf {i : ℕ} {tr : List (Tagged S)} {ev : Event S} :
    ev ∈ eventsOf i tr ↔ (i, ev) ∈ tr := by
  unfold eventsOf
  rw [List.mem_filterMap]
  constructor
  · rintro ⟨⟨j, ev'⟩, hmem, h⟩
    split_ifs at h with hj
    cases h
    cases hj
    exact hmem
  · intro h
    exact ⟨(i, ev), h, if_pos rfl⟩

/-- Where a program makes a call, the trace can be cut. -/
theorem exists_of_eventsOf_eq {i : ℕ} {tr : List (Tagged S)} {xs ys : List (Event S)} {ev : Event S}
    (h : eventsOf i tr = xs ++ ev :: ys) :
    ∃ a b, tr = a ++ (i, ev) :: b ∧ eventsOf i a = xs ∧ eventsOf i b = ys := by
  induction tr generalizing xs with
  | nil => simp at h
  | cons x tr ih =>
    obtain ⟨j, ev'⟩ := x
    by_cases hj : j = i
    · subst hj
      rw [eventsOf_cons_self] at h
      cases xs with
      | nil =>
        obtain ⟨rfl, hys⟩ := List.cons_eq_cons.mp h
        exact ⟨[], tr, rfl, rfl, hys⟩
      | cons x xs =>
        obtain ⟨rfl, hrest⟩ := List.cons_eq_cons.mp h
        obtain ⟨a, b, rfl, ha, hb⟩ := ih hrest
        exact ⟨(j, ev') :: a, b, rfl, by rw [eventsOf_cons_self, ha], hb⟩
    · rw [eventsOf_cons_of_ne hj] at h
      obtain ⟨a, b, rfl, ha, hb⟩ := ih h
      exact ⟨(j, ev') :: a, b, rfl, by rw [eventsOf_cons_of_ne hj, ha], hb⟩

theorem exists_cuts_of_eventsOf_eq {i : ℕ} {tr : List (Tagged S)} {xs ys zs : List (Event S)}
    {ev ev' : Event S} (h : eventsOf i tr = xs ++ ev :: (ys ++ ev' :: zs)) :
    ∃ a b c, tr = a ++ (i, ev) :: (b ++ (i, ev') :: c) ∧
      eventsOf i a = xs ∧ eventsOf i b = ys ∧ eventsOf i c = zs := by
  obtain ⟨a, r, rfl, ha, hr⟩ := exists_of_eventsOf_eq h
  obtain ⟨b, c, rfl, hb, hc⟩ := exists_of_eventsOf_eq hr
  exact ⟨a, b, c, rfl, ha, hb, hc⟩

/-! ## The order of events -/

/-- An event with `f` comes before one with `g`. -/
def before (f g : Event S → Bool) : List (Event S) → Bool
  | [] => false
  | ev :: tr => (f ev && tr.any g) || before f g tr

theorem before_eq_false {f g : Event S → Bool} {tr : List (Event S)} (h : tr.any g = false) :
    before f g tr = false := by
  induction tr with
  | nil => rfl
  | cons ev tr ih =>
    rw [List.any_cons, Bool.or_eq_false_iff] at h
    rw [before, h.2, ih h.2, Bool.and_false, Bool.or_false]

/-- The only event with `f` is in the middle. -/
theorem before_of_unique_left {f g : Event S → Bool} {a b : List (Event S)} {ev : Event S}
    (ha : a.any f = false) (hev : f ev = true) (hb : b.any f = false) :
    before f g (a ++ ev :: b) = b.any g := by
  have hnone : ∀ l : List (Event S), l.any f = false → before f g l = false := by
    intro l hl
    induction l with
    | nil => rfl
    | cons x l ih =>
      rw [List.any_cons, Bool.or_eq_false_iff] at hl
      rw [before, hl.1, ih hl.2, Bool.false_and, Bool.or_false]
  induction a with
  | nil => rw [List.nil_append, before, hev, hnone b hb, Bool.true_and, Bool.or_false]
  | cons x a ih =>
    rw [List.any_cons, Bool.or_eq_false_iff] at ha
    rw [List.cons_append, before, ha.1, ih ha.2, Bool.false_and, Bool.false_or]

/-- The only event with `g` is in the middle. -/
theorem before_of_unique_right {f g : Event S → Bool} {a b : List (Event S)} {ev : Event S}
    (hev : g ev = true) (hb : b.any g = false) :
    before f g (a ++ ev :: b) = a.any f := by
  induction a with
  | nil => rw [List.nil_append, before, hb, before_eq_false hb, Bool.and_false]; rfl
  | cons x a ih =>
    have hany : (a ++ ev :: b).any g = true := by simp [hev]
    rw [List.cons_append, before, hany, ih, Bool.and_true, List.any_cons]

/-- There is no element with `f`, or a last one. -/
theorem any_eq_false_or_last {β : Type*} (f : β → Bool) (l : List β) :
    l.any f = false ∨ ∃ a x b, l = a ++ x :: b ∧ f x = true ∧ b.any f = false := by
  induction l with
  | nil => exact .inl rfl
  | cons x l ih =>
    rcases ih with hno | ⟨a, y, b, rfl, hy, hb⟩
    · cases hx : f x with
      | false => exact .inl (by rw [List.any_cons, hx, hno]; rfl)
      | true => exact .inr ⟨[], x, l, rfl, hx, hno⟩
    · exact .inr ⟨x :: a, y, b, rfl, hy, hb⟩

theorem interleave_append {ts ts' : List (Prog S α)} {tr tr' : List (Tagged S)} :
    Interleave ts (tr ++ tr') ts' ↔ ∃ us, Interleave ts tr us ∧ Interleave us tr' ts' := by
  constructor
  · intro h
    induction tr generalizing ts with
    | nil => exact ⟨ts, .nil ts, h⟩
    | cons x tr ih =>
      cases h with
      | cons hi r h =>
        obtain ⟨us, h₁, h₂⟩ := ih h
        exact ⟨us, .cons hi r h₁, h₂⟩
  · rintro ⟨us, h₁, h₂⟩
    induction h₁ with
    | nil ts => exact h₂
    | cons hi r _ ih => exact .cons hi r (ih h₂)

/-- What a program of the pool does is a branch of its own tree. -/
theorem Interleave.after {ts ts' : List (Prog S α)} {tr : List (Tagged S)}
    (h : Interleave ts tr ts') {i : ℕ} {p : Prog S α} (hp : ts[i]? = some p) :
    ∃ q, ts'[i]? = some q ∧ p.After (eventsOf i tr) q := by
  induction h generalizing p with
  | nil ts => exact ⟨p, hp, .nil p⟩
  | @cons ts ts' j c k tr hj r _ ih =>
    by_cases hij : j = i
    · subst hij
      rw [hj] at hp
      cases hp
      have hlt : j < ts.length := (List.getElem?_eq_some_iff.mp hj).1
      obtain ⟨q, hq, hafter⟩ := ih (List.getElem?_set_self hlt)
      rw [eventsOf_cons_self]
      exact ⟨q, hq, .cons r hafter⟩
    · rw [eventsOf_cons_of_ne hij]
      apply ih
      rw [List.getElem?_set_ne hij]
      exact hp

theorem Interleave.length_eq {ts ts' : List (Prog S α)} {tr : List (Tagged S)} (h : Interleave ts tr ts') :
    ts'.length = ts.length := by
  induction h with
  | nil ts => rfl
  | cons hi r _ ih => rw [ih, List.length_set]

theorem Interleave.done {ts ts' : List (Prog S α)} {tr : List (Tagged S)} (h : Interleave ts tr ts')
    {i : ℕ} {a : α} (hi : ts[i]? = some (.done a)) : ts'[i]? = some (.done a) := by
  obtain ⟨q, hq, hafter⟩ := h.after hi
  generalize eventsOf i tr = evs at hafter
  cases hafter
  exact hq

theorem Interleave.lt_of_mem {ts ts' : List (Prog S α)} {tr : List (Tagged S)}
    (h : Interleave ts tr ts') {i : ℕ} {ev : Event S} (hev : (i, ev) ∈ tr) : i < ts.length := by
  induction h with
  | nil ts => cases hev
  | @cons ts ts' j c k tr hj r _ ih =>
    rcases List.mem_cons.mp hev with heq | hev
    · cases heq
      exact (List.getElem?_eq_some_iff.mp hj).1
    · rw [← List.length_set]
      exact ih hev

/-! ## Runs of a pool -/

section Pool

variable (H : Handler S E W) (A : E → Prop)

/-- The pool `ts` takes the world `w` to `w'` through the events `tr`, and `ts'` is left of it. -/
def Pool (ts : List (Prog S α)) (w : W) (tr : List (Tagged S)) (ts' : List (Prog S α)) (w' : W) :
    Prop :=
  Interleave ts tr ts' ∧ Steps H A w (tr.map Prod.snd) w'

variable {H A}

theorem pool_cons {ts ts' : List (Prog S α)} {w w' : W} {i : ℕ} {c : S.Call}
    {k : S.Reply c → Prog S α} {e : E} {tr : List (Tagged S)} (hi : ts[i]? = some (.call c k))
    (he : A e)
    (h : Pool H A (ts.set i (k (H.exec c e w).1)) (H.exec c e w).2 tr ts' w') :
    Pool H A ts w ((i, ⟨c, (H.exec c e w).1⟩) :: tr) ts' w' :=
  ⟨.cons hi _ h.1, e, he, rfl, h.2⟩

theorem pool_append {ts ts' : List (Prog S α)} {w w' : W} {tr tr' : List (Tagged S)} :
    Pool H A ts w (tr ++ tr') ts' w' ↔
      ∃ us w₁, Pool H A ts w tr us w₁ ∧ Pool H A us w₁ tr' ts' w' := by
  unfold Pool
  rw [List.map_append, steps_append, interleave_append]
  constructor
  · rintro ⟨⟨us, hi, hi'⟩, w₁, hs, hs'⟩
    exact ⟨us, w₁, ⟨hi, hs⟩, hi', hs'⟩
  · rintro ⟨us, w₁, ⟨hi, hs⟩, hi', hs'⟩
    exact ⟨⟨us, hi, hi'⟩, w₁, hs, hs'⟩

theorem interleave_of_after {ts : List (Prog S α)} {i : ℕ} {p q : Prog S α} {tr : List (Event S)}
    (hi : ts[i]? = some p) (h : p.After tr q) :
    Interleave ts (tr.map (Prod.mk i)) (ts.set i q) := by
  induction h generalizing ts with
  | nil p =>
    obtain ⟨hlt, rfl⟩ := List.getElem?_eq_some_iff.mp hi
    rw [List.set_getElem_self]
    exact .nil ts
  | cons r _ ih =>
    have hlt := (List.getElem?_eq_some_iff.mp hi).1
    refine .cons hi r ?_
    have hrest := ih (List.getElem?_set_self hlt)
    rwa [List.set_set] at hrest

theorem pool_of_after {ts : List (Prog S α)} {i : ℕ} {p q : Prog S α} {w w' : W}
    {tr : List (Event S)} (hi : ts[i]? = some p) (h : p.After tr q) (hs : Steps H A w tr w') :
    Pool H A ts w (tr.map (Prod.mk i)) (ts.set i q) w' := by
  refine ⟨interleave_of_after hi h, ?_⟩
  rw [List.map_map]
  exact (List.map_id tr).symm ▸ hs

end Pool

/-! ## Replaying a schedule -/

/-- The value of a program that has returned. -/
def Prog.value? : Prog S α → Option α
  | .done a => some a
  | .call _ _ => none

theorem Prog.eq_done_of_value? {p : Prog S α} {a : α} (h : p.value? = some a) : p = .done a := by
  cases p with
  | done b =>
    cases h
    rfl
  | call c k => cases h

theorem getElem?_eq_done {ts : List (Prog S α)} {i : ℕ} {a : α}
    (h : ts[i]?.bind Prog.value? = some a) : ts[i]? = some (.done a) := by
  obtain ⟨p, hp, ha⟩ := Option.bind_eq_some_iff.mp h
  rw [hp, Prog.eq_done_of_value? ha]

/-- Run the pool by a schedule: who moves next, and what the environment chooses then. A program that
has returned is passed over. -/
def schedule (H : Handler S E W) : List (Prog S α) → List (ℕ × E) → W →
    List (Tagged S) × List (Prog S α) × W
  | ts, [], w => ([], ts, w)
  | ts, (i, e) :: sched, w =>
    match ts[i]? with
    | some (.call c k) =>
      let o := H.exec c e w
      let rest := schedule H (ts.set i (k o.1)) sched o.2
      ((i, ⟨c, o.1⟩) :: rest.1, rest.2)
    | _ => schedule H ts sched w

theorem pool_schedule {H : Handler S E W} {A : E → Prop} {ts : List (Prog S α)}
    (sched : List (ℕ × E)) (he : ∀ x ∈ sched, A x.2) (w : W) :
    Pool H A ts w (schedule H ts sched w).1 (schedule H ts sched w).2.1
      (schedule H ts sched w).2.2 := by
  induction sched generalizing ts w with
  | nil => exact ⟨.nil ts, rfl⟩
  | cons x sched ih =>
    obtain ⟨i, e⟩ := x
    have hrest : ∀ x ∈ sched, A x.2 := fun x hx => he x (List.mem_cons_of_mem _ hx)
    rw [schedule]
    split
    · next c k hi => exact pool_cons hi (he _ List.mem_cons_self) (ih hrest _)
    · exact ih hrest w

end Lib
