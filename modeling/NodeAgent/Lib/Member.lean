import NodeAgent.Lib.Group
import NodeAgent.Lib.Pool

/-!
# One member of a group

A group that succeeds has run each of its members to the end. Seen from one member, the trace of the
group is its own trace with calls of the others in between (`group_member`), and so is the trace of a pool
(`mixed_eventsOf`); and if those leave a part of the world alone, that part goes only through the member's
own calls (`Mixed.sees`).
-/

namespace Lib

variable {S : Sig}

/-! ## A trace with other calls in between -/

/-- `mine` with other calls, which satisfy `P`, in between. -/
inductive Mixed (P : S.Call → Prop) : List (Event S) → List (Event S) → Prop
  | nil : Mixed P [] []
  | own (ev : Event S) {mine tr : List (Event S)} (h : Mixed P mine tr) : Mixed P (ev :: mine) (ev :: tr)
  | other {ev : Event S} (hev : P ev.call) {mine tr : List (Event S)} (h : Mixed P mine tr) :
      Mixed P mine (ev :: tr)

namespace Mixed

variable {P : S.Call → Prop} {mine tr tr' : List (Event S)}

theorem append_others (h : Mixed P mine tr) (htr : ∀ ev ∈ tr', P ev.call) : Mixed P mine (tr ++ tr') := by
  induction h with
  | nil =>
    induction tr' with
    | nil => exact .nil
    | cons ev tr' ih =>
      obtain ⟨hev, htr⟩ := List.forall_mem_cons.mp htr
      exact .other hev (ih htr)
  | own ev _ ih => exact .own ev ih
  | other hev _ ih => exact .other hev ih

theorem others_append (htr : ∀ ev ∈ tr', P ev.call) (h : Mixed P mine tr) : Mixed P mine (tr' ++ tr) := by
  induction tr' with
  | nil => exact h
  | cons ev tr' ih =>
    obtain ⟨hev, htr⟩ := List.forall_mem_cons.mp htr
    exact .other hev (ih htr)

theorem own_append (h : Mixed P mine tr) (tr' : List (Event S)) : Mixed P (tr' ++ mine) (tr' ++ tr) := by
  induction tr' with
  | nil => exact h
  | cons ev tr' ih => exact .own ev ih

theorem refl (tr : List (Event S)) : Mixed P tr tr := by
  induction tr with
  | nil => exact .nil
  | cons ev tr ih => exact .own ev ih

theorem trans {mine' : List (Event S)} (h : Mixed P mine' mine) (h' : Mixed P mine tr) :
    Mixed P mine' tr := by
  induction h' generalizing mine' with
  | nil => exact h
  | own ev _ ih =>
    cases h with
    | own _ h => exact .own ev (ih h)
    | other hev h => exact .other hev (ih h)
  | other hev _ ih => exact .other hev (ih h)

theorem mem (h : Mixed P mine tr) {ev : Event S} (hev : ev ∈ mine) : ev ∈ tr := by
  induction h with
  | nil => exact hev
  | own ev' _ ih =>
    rcases List.mem_cons.mp hev with rfl | hev
    · exact List.mem_cons_self
    · exact List.mem_cons_of_mem _ (ih hev)
  | other _ _ ih => exact List.mem_cons_of_mem _ (ih hev)

theorem filterMap_eq {β : Type*} {g : Event S → Option β} (h : Mixed P mine tr)
    (hg : ∀ ev : Event S, P ev.call → g ev = none) : tr.filterMap g = mine.filterMap g := by
  induction h with
  | nil => rfl
  | own ev _ ih => rw [List.filterMap_cons, List.filterMap_cons, ih]
  | other hev _ ih => rw [List.filterMap_cons_none (hg _ hev), ih]

end Mixed

/-- Seen from a program of a pool. -/
theorem mixed_eventsOf {P : S.Call → Prop} {i : ℕ} {tr : List (Tagged S)}
    (h : ∀ j ev, (j, ev) ∈ tr → j ≠ i → P ev.call) : Mixed P (eventsOf i tr) (tr.map Prod.snd) := by
  induction tr with
  | nil => exact .nil
  | cons x tr ih =>
    obtain ⟨j, ev⟩ := x
    have hrest := ih fun j' ev' hmem => h j' ev' (List.mem_cons_of_mem _ hmem)
    by_cases hj : j = i
    · subst hj
      rw [eventsOf_cons_self]
      exact .own ev hrest
    · rw [eventsOf_cons_of_ne hj]
      exact .other (h j ev List.mem_cons_self hj) hrest

/-! ## The part of the world that a trace sees -/

section Sees

variable {E W X : Type} (H : Handler S E W) (A : E → Prop) (f : W → X)

/-- The events take the part `f` of the world from `x` to `x'`, whatever becomes of the rest. -/
def Sees (x : X) : List (Event S) → X → Prop
  | [], x' => x' = x
  | ev :: tr, x' => ∃ e w, A e ∧ f w = x ∧ (H.exec ev.call e w).1 = ev.reply ∧
      Sees (f (H.exec ev.call e w).2) tr x'

variable {H A f}

theorem sees_append {x x' : X} {tr tr' : List (Event S)} :
    Sees H A f x (tr ++ tr') x' ↔ ∃ y, Sees H A f x tr y ∧ Sees H A f y tr' x' := by
  induction tr generalizing x with
  | nil =>
    constructor
    · exact fun h => ⟨x, rfl, h⟩
    · rintro ⟨y, rfl, h⟩
      exact h
  | cons ev tr ih =>
    constructor
    · rintro ⟨e, w, he, hw, hr, h⟩
      obtain ⟨y, h₁, h₂⟩ := ih.mp h
      exact ⟨y, ⟨e, w, he, hw, hr, h₁⟩, h₂⟩
    · rintro ⟨y, ⟨e, w, he, hw, hr, h₁⟩, h₂⟩
      exact ⟨e, w, he, hw, hr, ih.mpr ⟨y, h₁, h₂⟩⟩

/-- Calls that leave `f` alone can be left out. -/
theorem Mixed.sees {P : S.Call → Prop} {mine tr : List (Event S)} {w w' : W} (h : Mixed P mine tr)
    (hP : ∀ c e w, P c → f (H.exec c e w).2 = f w) (hs : Steps H A w tr w') :
    Sees H A f (f w) mine (f w') := by
  induction h generalizing w with
  | nil =>
    rw [steps_nil.mp hs]
    exact rfl
  | own ev _ ih =>
    obtain ⟨e, he, hr, hs⟩ := steps_cons.mp hs
    exact ⟨e, w, he, rfl, hr, ih hs⟩
  | @other ev hev _ _ _ ih =>
    obtain ⟨e, he, hr, hs⟩ := steps_cons.mp hs
    rw [← hP ev.call e w hev]
    exact ih hs

theorem Steps.sees {tr : List (Event S)} {w w' : W} (h : Steps H A w tr w') :
    Sees H A f (f w) tr (f w') :=
  (Mixed.refl (P := fun _ => False) tr).sees (fun _ _ _ h => h.elim) h

end Sees

/-! ## Members -/

namespace Prog

variable {ε α : Type} {P : S.Call → Prop}

theorem getElem?_of_take {β : Type*} {l : List β} {n i : ℕ} {x : β} (h : (l.take n)[i]? = some x) :
    l[i]? = some x := by
  rw [List.getElem?_take] at h
  split_ifs at h
  exact h

/-- The place of a member once another has left. -/
theorem getElem?_eraseIdx_of_ne {β : Type*} {Q : β → Prop} {l : List β} {i k : ℕ} {x : β} (hki : k ≠ i)
    (hi : l[i]? = some x) (hothers : ∀ (j : ℕ) u, j ≠ i → l[j]? = some u → Q u) :
    ∃ i' : ℕ, (l.eraseIdx k)[i']? = some x ∧ ∀ (j : ℕ) u, j ≠ i' → (l.eraseIdx k)[j]? = some u → Q u := by
  rcases Nat.lt_or_gt_of_ne hki with hlt | hlt
  · obtain ⟨i, rfl⟩ := Nat.exists_eq_succ_of_ne_zero (Nat.ne_zero_of_lt hlt)
    refine ⟨i, ?_, fun j u hj hu => ?_⟩
    · rw [List.getElem?_eraseIdx, if_neg (by omega)]
      exact hi
    · rw [List.getElem?_eraseIdx] at hu
      split_ifs at hu
      · exact hothers j u (by omega) hu
      · exact hothers (j + 1) u (by omega) hu
  · refine ⟨i, ?_, fun j u hj hu => ?_⟩
    · rw [List.getElem?_eraseIdx, if_pos hlt]
      exact hi
    · rw [List.getElem?_eraseIdx] at hu
      split_ifs at hu
      · exact hothers j u (by omega) hu
      · exact hothers (j + 1) u (by omega) hu

/-- If the group has succeeded, the member has. -/
def Finished (q : Prog S (Except ε (List α))) (t : Prog S (Except ε α)) : Prop :=
  ∀ as, q = .done (.ok as) → ∃ a, t = .done (.ok a)

/-- What is done with the results of the rest makes no calls, and does not undo a failure. -/
theorem after_rest {p : Prog S (Except ε (List α))}
    {f : Except ε (List α) → Prog S (Except ε (List α))} {tr : List (Event S)}
    {q : Prog S (Except ε (List α))} (h : (p >>= f).After tr q)
    (herr : ∀ err, f (.error err) = .done (.error err))
    (hok : ∀ as, ∃ as', f (.ok as) = .done (.ok as')) :
    ∃ q', p.After tr q' ∧ ∀ t : Prog S (Except ε α), Finished q' t → Finished q t := by
  rcases after_bind_cases h with ⟨c, k, h₁, rfl⟩ | ⟨r, tr₁, tr₂, rfl, h₁, h₂⟩
  · exact ⟨_, h₁, fun _ _ as hq => by cases hq⟩
  · cases r with
    | error err =>
      rw [herr] at h₂
      obtain ⟨rfl, rfl⟩ := after_done_iff.mp h₂
      exact ⟨_, by rwa [List.append_nil], fun _ _ as hq => by cases hq⟩
    | ok as =>
      obtain ⟨as', has⟩ := hok as
      rw [has] at h₂
      obtain ⟨rfl, rfl⟩ := after_done_iff.mp h₂
      exact ⟨_, by rwa [List.append_nil], fun _ hfin _ _ => hfin as rfl⟩

theorem inOrder_member {ts : List (Prog S (Except ε α))} {i : ℕ} {t : Prog S (Except ε α)}
    {tr : List (Event S)} {q : Prog S (Except ε (List α))} (hi : ts[i]? = some t)
    (hothers : ∀ j u, j ≠ i → ts[j]? = some u → u.All P) (h : (inOrder ts).After tr q) :
    ∃ mine t', t.After mine t' ∧ Mixed P mine tr ∧ Finished q t' := by
  induction ts generalizing i tr q with
  | nil => cases hi
  | cons u ts ih =>
    cases i with
    | zero =>
      cases hi
      have hrest : (inOrder ts).All P := inOrder_all fun v hv => by
        obtain ⟨j, hj⟩ := List.getElem?_of_mem hv
        exact hothers (j + 1) v (Nat.succ_ne_zero j) hj
      rcases after_bind_cases h with ⟨c, k, h₁, rfl⟩ | ⟨r, tr₁, tr₂, rfl, h₁, h₂⟩
      · exact ⟨tr, _, h₁, .refl tr, fun as hq => by cases hq⟩
      · refine ⟨tr₁, .done r, h₁, (Mixed.refl tr₁).append_others ?_, ?_⟩
        · cases r with
          | error err =>
            obtain ⟨rfl, -⟩ := after_done_iff.mp h₂
            simp
          | ok a => exact (hrest.bind fun r => by cases r <;> trivial).of_mem h₂
        · rintro as rfl
          cases r with
          | error err =>
            obtain ⟨-, heq⟩ := after_done_iff.mp h₂
            cases heq
          | ok a => exact ⟨a, rfl⟩
    | succ i =>
      have hfirst : u.All P := hothers 0 u (Nat.succ_ne_zero i).symm rfl
      have hothers' : ∀ j v, j ≠ i → ts[j]? = some v → v.All P := fun j v hj hv =>
        hothers (j + 1) v (fun heq => hj (Nat.succ.inj heq)) hv
      rcases after_bind_cases h with ⟨c, k, h₁, rfl⟩ | ⟨r, tr₁, tr₂, rfl, h₁, h₂⟩
      · exact ⟨[], t, .nil t, Mixed.nil.append_others (hfirst.of_mem h₁), fun as hq => by cases hq⟩
      · cases r with
        | error err =>
          obtain ⟨rfl, rfl⟩ := after_done_iff.mp h₂
          rw [List.append_nil]
          exact ⟨[], t, .nil t, Mixed.nil.append_others (hfirst.of_mem h₁), fun as hq => by cases hq⟩
        | ok a =>
          obtain ⟨q', h₃, hq'⟩ := after_rest h₂ (fun _ => rfl) fun as => ⟨a :: as, rfl⟩
          obtain ⟨mine, t', hmine, hmixed, hfin⟩ := ih hi hothers' h₃
          exact ⟨mine, t', hmine, hmixed.others_append (hfirst.of_mem h₁), hq' t' hfin⟩

/-- Seen from a member, the trace of a group is its own with calls of the others in between. -/
theorem group_member {limit : ℕ} {sched : List ℕ} {ts : List (Prog S (Except ε α))} {i : ℕ}
    {t : Prog S (Except ε α)} {tr : List (Event S)} {q : Prog S (Except ε (List α))}
    (hi : ts[i]? = some t) (hothers : ∀ j u, j ≠ i → ts[j]? = some u → u.All P)
    (h : (group limit sched ts).After tr q) :
    ∃ mine t', t.After mine t' ∧ Mixed P mine tr ∧ Finished q t' := by
  induction sched generalizing i ts t tr q with
  | nil => exact inOrder_member hi hothers h
  | cons k sched ih =>
    rw [group] at h
    split at h
    · exact ih hi hothers h
    · obtain ⟨rfl, rfl⟩ := after_done_iff.mp h
      exact ⟨[], t, .nil t, .nil, fun as hq => by cases hq⟩
    · rename_i a hget
      have hk : ts[k]? = some (.done (.ok a)) := getElem?_of_take hget
      obtain ⟨q', h', hq'⟩ := after_rest h (fun _ => rfl) fun as => ⟨a :: as, rfl⟩
      by_cases hki : k = i
      · -- the member has returned, and the rest of the trace is the others'
        subst hki
        rw [hk] at hi
        cases hi
        refine ⟨[], _, .nil _, Mixed.nil.append_others ((group_all fun u hu => ?_).of_mem h'),
          fun _ _ => ⟨a, rfl⟩⟩
        obtain ⟨j, hj, hu⟩ := List.mem_eraseIdx_iff_getElem?.mp hu
        exact hothers j u hj hu
      · -- another one has returned, and the member may have moved up
        obtain ⟨i', hi', hothers'⟩ := getElem?_eraseIdx_of_ne hki hi hothers
        obtain ⟨mine, t', hmine, hmixed, hfin⟩ := ih hi' hothers' h'
        exact ⟨mine, t', hmine, hmixed, hq' t' hfin⟩
    · rename_i c f hget
      have hk : ts[k]? = some (.call c f) := getElem?_of_take hget
      have hlt := (List.getElem?_eq_some_iff.mp hk).1
      rcases after_call_iff.mp h with ⟨rfl, rfl⟩ | ⟨r, tr', rfl, h'⟩
      · exact ⟨[], t, .nil t, .nil, fun as hq => by cases hq⟩
      · by_cases hki : k = i
        · subst hki
          rw [hk] at hi
          cases hi
          obtain ⟨mine, t', hmine, hmixed, hfin⟩ := ih (List.getElem?_set_self hlt) (fun j u hj hu => by
            rw [List.getElem?_set_ne (Ne.symm hj)] at hu
            exact hothers j u hj hu) h'
          exact ⟨_, t', .cons r hmine, .own _ hmixed, hfin⟩
        · obtain ⟨hc, hf⟩ := hothers k _ hki hk
          rw [← List.getElem?_set_ne hki] at hi
          obtain ⟨mine, t', hmine, hmixed, hfin⟩ := ih hi (fun j u hj hu => by
            by_cases hkj : k = j
            · subst hkj
              rw [List.getElem?_set_self hlt] at hu
              cases hu
              exact hf r
            · rw [List.getElem?_set_ne hkj] at hu
              exact hothers j u hj hu) h'
          exact ⟨mine, t', hmine, .other hc hmixed, hfin⟩

end Prog

end Lib
