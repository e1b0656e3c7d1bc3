import NodeAgent.Lib.Pool

/-!
# Programs that follow a protocol

A protocol is an automaton over events: it says which events are allowed in a state and where they
lead. A program follows it if every branch of its tree does. In a pool each program has a state of its
own, which its own events determine, whatever the others do in between.
-/

namespace Lib

variable {S T : Sig} {X α β : Type}

/-- Which events are allowed in a state, and the state after each. -/
structure Protocol (S : Sig) (X : Type) where
  ok : X → Event S → Prop
  next : X → Event S → X

namespace Protocol

variable (P : Protocol S X)

/-- The state after some events. -/
def state (x : X) (tr : List (Event S)) : X := tr.foldl P.next x

/-- Every branch of the program is allowed from the state `x` on, and ends with `Q`. -/
def Follows (Q : X → α → Prop) : X → Prog S α → Prop
  | x, .done a => Q x a
  | x, .call c k => ∀ r, P.ok x ⟨c, r⟩ ∧ Follows Q (P.next x ⟨c, r⟩) (k r)

variable {P} {Q : X → α → Prop} {R : X → β → Prop} {x : X} {p q : Prog S α} {tr : List (Event S)}

theorem state_append (tr tr' : List (Event S)) : P.state x (tr ++ tr') = P.state (P.state x tr) tr' :=
  List.foldl_append

@[simp] theorem state_snoc (tr : List (Event S)) (ev : Event S) :
    P.state x (tr ++ [ev]) = P.next (P.state x tr) ev := by
  rw [state_append]
  rfl

theorem follows_invoke {c : S.Call} {f : S.Reply c → Prog S α} :
    P.Follows Q x (Prog.invoke c >>= f) ↔
      ∀ r, P.ok x ⟨c, r⟩ ∧ P.Follows Q (P.next x ⟨c, r⟩) (f r) := Iff.rfl

theorem Follows.bind {f : α → Prog S β} (hp : P.Follows Q x p)
    (hf : ∀ y a, Q y a → P.Follows R y (f a)) : P.Follows R x (p >>= f) := by
  induction p generalizing x with
  | done a => exact hf x a hp
  | call c k ih => exact fun r => ⟨(hp r).1, ih r (hp r).2⟩

theorem Follows.mono {Q' : X → α → Prop} (hp : P.Follows Q x p) (h : ∀ y a, Q y a → Q' y a) :
    P.Follows Q' x p := by
  induction p generalizing x with
  | done a => exact h x a hp
  | call c k ih => exact fun r => ⟨(hp r).1, ih r (hp r).2⟩

theorem follows_of_all {C : S.Call → Prop} {E : α → Prop} (hp : p.All C) (he : p.Ends E)
    (h : ∀ ev, C ev.call → P.ok x ev ∧ P.next x ev = x) :
    P.Follows (fun y a => y = x ∧ E a) x p := by
  induction p with
  | done a => exact ⟨rfl, he⟩
  | call c k ih =>
    intro r
    obtain ⟨hok, hnext⟩ := h ⟨c, r⟩ hp.1
    rw [hnext]
    exact ⟨hok, ih r (hp.2 r) (he r)⟩

theorem Follows.after (hp : P.Follows Q x p) (h : p.After tr q) : P.Follows Q (P.state x tr) q := by
  induction h generalizing x with
  | nil p => exact hp
  | cons r _ ih => exact ih (hp r).2

theorem Follows.ok {tr' : List (Event S)} {ev : Event S} (hp : P.Follows Q x p)
    (h : p.After (tr ++ ev :: tr') q) : P.ok (P.state x tr) ev := by
  obtain ⟨p', h₁, h₂⟩ := Prog.after_append_iff.mp h
  have hp' := hp.after h₁
  cases h₂ with
  | cons r _ => exact (hp' r).1

theorem Follows.invariant {I : X → Prop} (hp : P.Follows Q x p) (h : p.After tr q) (hx : I x)
    (hstep : ∀ x ev, P.ok x ev → I x → I (P.next x ev)) : I (P.state x tr) := by
  induction h generalizing x with
  | nil p => exact hx
  | cons r _ ih => exact ih (hp r).2 (hstep _ _ (hp r).1 hx)

theorem Follows.holds {E W : Type} {H : Handler S E W} {A : E → Prop} {J : X → W → Prop} {w w' : W}
    (hp : P.Follows Q x p) (h : p.After tr q) (hs : Steps H A w tr w') (hw : J x w)
    (hstep : ∀ x ev e w, A e → P.ok x ev → (H.exec ev.call e w).1 = ev.reply → J x w →
      J (P.next x ev) (H.exec ev.call e w).2) : J (P.state x tr) w' := by
  induction h generalizing x w with
  | nil p =>
    rw [steps_nil.mp hs]
    exact hw
  | cons r _ ih =>
    obtain ⟨e, he, hr, hs⟩ := steps_cons.mp hs
    exact ih (hp r).2 hs (hstep _ _ e w he (hp r).1 hr hw)

section Pool

variable {ts ts' : List (Prog S α)} {start : ℕ → X} {Q : ℕ → X → α → Prop}
  (hts : ∀ i p, ts[i]? = some p → P.Follows (Q i) (start i) p)

include hts

theorem ok_of_interleave {pre post : List (Tagged S)} {i : ℕ} {ev : Event S}
    (h : Interleave ts (pre ++ (i, ev) :: post) ts') : P.ok (P.state (start i) (eventsOf i pre)) ev := by
  have hlt : i < ts.length := h.lt_of_mem (List.mem_append_right _ List.mem_cons_self)
  have hp : ts[i]? = some ts[i] := List.getElem?_eq_getElem hlt
  obtain ⟨q, -, hafter⟩ := h.after hp
  rw [eventsOf_append, eventsOf_cons_self] at hafter
  exact (hts i _ hp).ok hafter

/-- What allowed events keep holds in the state of every program. -/
theorem state_of_interleave {I : X → Prop} (hstart : ∀ i, I (start i))
    (hstep : ∀ x ev, P.ok x ev → I x → I (P.next x ev)) {tr : List (Tagged S)}
    (h : Interleave ts tr ts') (i : ℕ) : I (P.state (start i) (eventsOf i tr)) := by
  induction tr using List.reverseRecOn generalizing ts' with
  | nil => exact hstart i
  | append_singleton tr x ih =>
    obtain ⟨j, ev⟩ := x
    obtain ⟨us, hus, -⟩ := interleave_append.mp h
    rw [eventsOf_append, eventsOf_cons]
    split_ifs with hj
    · cases hj
      rw [eventsOf_nil, state_snoc]
      exact hstep _ _ (ok_of_interleave hts h) (ih hus)
    · rw [eventsOf_nil, List.append_nil]
      exact ih hus

theorem end_of_interleave {tr : List (Tagged S)} {i : ℕ} {p : Prog S α} {a : α} (hp : ts[i]? = some p)
    (h : Interleave ts tr ts') (hi : ts'[i]? = some (.done a)) :
    Q i (P.state (start i) (eventsOf i tr)) a := by
  obtain ⟨q, hq, hafter⟩ := h.after hp
  rw [hi] at hq
  cases hq
  exact (hts i p hp).after hafter

end Pool

end Protocol

/-! ## What holds along a run of a pool -/

/-- A relation between the events so far and the world, kept by every event of the run. -/
theorem Pool.history {E W : Type} {H : Handler S E W} {A : E → Prop} {I : List (Tagged S) → W → Prop}
    {ts ts' : List (Prog S α)} {w w' : W} {tr : List (Tagged S)} (h : Pool H A ts w tr ts' w')
    (hw : I [] w)
    (hstep : ∀ pre i ev post e v, tr = pre ++ (i, ev) :: post → A e →
      (H.exec ev.call e v).1 = ev.reply → I pre v → I (pre ++ [(i, ev)]) (H.exec ev.call e v).2) :
    I tr w' := by
  have hs := h.2
  clear h
  induction tr generalizing I w with
  | nil =>
    rw [steps_nil.mp hs]
    exact hw
  | cons x tr ih =>
    obtain ⟨i, ev⟩ := x
    obtain ⟨e, he, hr, hs⟩ := steps_cons.mp hs
    -- the relation for the rest of the run has this event in its past
    refine ih (I := fun pre => I ((i, ev) :: pre)) (hstep [] i ev tr e w rfl he hr hw) ?_ hs
    exact fun pre j ev' post e' v heq => hstep ((i, ev) :: pre) j ev' post e' v (by rw [heq]; rfl)

/-! ## Programs of a part of the signature -/

namespace Prog

/-- A program over other calls, each of which is one of `T`. -/
def lift (f : S.Call → T.Call) (g : (c : S.Call) → T.Reply (f c) → S.Reply c) : Prog S α → Prog T α
  | .done a => .done a
  | .call c k => .call (f c) fun r => lift f g (k (g c r))

variable {f : S.Call → T.Call} {g : (c : S.Call) → T.Reply (f c) → S.Reply c}

theorem lift_all {C : T.Call → Prop} (h : ∀ c, C (f c)) (p : Prog S α) : (p.lift f g).All C := by
  induction p with
  | done a => trivial
  | call c k ih => exact ⟨h c, fun r => ih (g c r)⟩

theorem Ends.lift {E : α → Prop} {p : Prog S α} (h : p.Ends E) : (p.lift f g).Ends E := by
  induction p with
  | done a => exact h
  | call c k ih => exact fun r => ih (g c r) (h (g c r))

end Prog

end Lib
