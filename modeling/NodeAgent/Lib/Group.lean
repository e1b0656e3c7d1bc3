import NodeAgent.Lib.Prog

/-!
# Bounded groups of programs

A group runs programs side by side inside one program: at most `limit` of them at a time, in the order
they were started, interleaved call by call as a schedule says. The first failure to be noticed ends
the group; what the others would still have done is cut off. A schedule that runs out is continued by
running what is left in order, so a group always finishes.
-/

namespace Lib.Prog

variable {S : Sig} {ε α : Type}

/-- Run the programs one after another until one fails. -/
def inOrder : List (Prog S (Except ε α)) → Prog S (Except ε (List α))
  | [] => return .ok []
  | t :: ts => do
    match ← t with
    | .error err => return .error err
    | .ok a =>
      match ← inOrder ts with
      | .error err => return .error err
      | .ok as => return .ok (a :: as)

/-- Run the programs as a group; a number in the schedule picks one of those that are running. -/
def group (limit : ℕ) : List ℕ → List (Prog S (Except ε α)) → Prog S (Except ε (List α))
  | [], ts => inOrder ts
  | i :: sched, ts =>
    match (ts.take limit)[i]? with
    | none => group limit sched ts
    | some (.done (.error err)) => return .error err
    | some (.done (.ok a)) => do
      match ← group limit sched (ts.eraseIdx i) with
      | .error err => return .error err
      | .ok as => return .ok (a :: as)
    | some (.call c k) => .call c fun r => group limit sched (ts.set i (k r))

theorem inOrder_all {P : S.Call → Prop} {ts : List (Prog S (Except ε α))} (h : ∀ t ∈ ts, t.All P) :
    (inOrder ts).All P := by
  induction ts with
  | nil => trivial
  | cons t ts ih =>
    refine (h t List.mem_cons_self).bind fun r => ?_
    cases r with
    | error err => trivial
    | ok a =>
      refine (ih fun t' ht' => h t' (List.mem_cons_of_mem _ ht')).bind fun r => ?_
      cases r <;> trivial

/-- A group makes no calls but those of its members. -/
theorem group_all {P : S.Call → Prop} {limit : ℕ} {sched : List ℕ}
    {ts : List (Prog S (Except ε α))} (h : ∀ t ∈ ts, t.All P) : (group limit sched ts).All P := by
  induction sched generalizing ts with
  | nil => exact inOrder_all h
  | cons i sched ih =>
    rw [group]
    split
    · exact ih h
    · trivial
    · refine (ih fun t ht => h t (List.mem_of_mem_eraseIdx ht)).bind fun r => ?_
      cases r <;> trivial
    · rename_i c k hget
      have hmem : Prog.call c k ∈ ts := List.mem_of_mem_take (List.mem_of_getElem? hget)
      obtain ⟨hc, hk⟩ := h _ hmem
      refine ⟨hc, fun r => ih fun t ht => ?_⟩
      rcases List.mem_or_eq_of_mem_set ht with ht | rfl
      · exact h t ht
      · exact hk r

/-! ## What the members add up to -/

section Sum

/-- What the calls of a program are worth when it ends well, after `n` from calls before, is what its result
is worth. -/
def Earns (f : Event S → ℕ) (g : α → ℕ) (t : Prog S (Except ε α)) (n : ℕ) : Prop :=
  ∀ tr a, t.After tr (.done (.ok a)) → n + (tr.map f).sum = g a

variable {f : Event S → ℕ} {g : α → ℕ} {l : List (Prog S (Except ε α) × ℕ)} {tr : List (Event S)}
  {as : List α}

theorem inOrder_sum (hl : ∀ x ∈ l, Earns f g x.1 x.2)
    (h : (inOrder (l.map Prod.fst)).After tr (.done (.ok as))) :
    (l.map Prod.snd).sum + (tr.map f).sum = (as.map g).sum := by
  induction l generalizing tr as with
  | nil =>
    obtain ⟨rfl, heq⟩ := after_done_iff.mp h
    cases heq
    rfl
  | cons x l ih =>
    obtain ⟨r, tr₁, tr₂, rfl, h₁, h₂⟩ := after_bind_done_iff.mp h
    cases r with
    | error err => cases (after_done_iff.mp h₂).2
    | ok a =>
      obtain ⟨r, tr₃, tr₄, rfl, h₃, h₄⟩ := after_bind_done_iff.mp h₂
      cases r with
      | error err => cases (after_done_iff.mp h₄).2
      | ok as' =>
        obtain ⟨rfl, heq⟩ := after_done_iff.mp h₄
        cases heq
        have hx := hl x List.mem_cons_self tr₁ a h₁
        have hrest := ih (fun y hy => hl y (List.mem_cons_of_mem _ hy)) h₃
        simp only [List.map_cons, List.sum_cons, List.map_append, List.sum_append, List.append_nil]
        omega

theorem pick {limit i : ℕ} {t : Prog S (Except ε α)} (h : ((l.map Prod.fst).take limit)[i]? = some t) :
    ∃ x ∈ l, x.1 = t ∧ i < l.length ∧ l.Perm (x :: l.eraseIdx i) := by
  obtain ⟨hi, heq⟩ := List.getElem?_eq_some_iff.mp h
  have hi' : i < l.length := by
    rw [List.length_take, List.length_map] at hi
    omega
  refine ⟨l[i], List.getElem_mem hi', ?_, hi', (List.getElem_cons_eraseIdx_perm hi').symm⟩
  rw [← heq, List.getElem_take, List.getElem_map]

theorem group_sum_from {limit : ℕ} {sched : List ℕ} (hl : ∀ x ∈ l, Earns f g x.1 x.2)
    (h : (group limit sched (l.map Prod.fst)).After tr (.done (.ok as))) :
    (l.map Prod.snd).sum + (tr.map f).sum = (as.map g).sum := by
  induction sched generalizing l tr as with
  | nil => exact inOrder_sum hl h
  | cons i sched ih =>
    rw [group] at h
    split at h
    · exact ih hl h
    · cases (after_done_iff.mp h).2
    · rename_i a hget
      obtain ⟨x, hx, hfst, -, hperm⟩ := pick hget
      obtain ⟨r, tr₁, tr₂, rfl, h₁, h₂⟩ := after_bind_done_iff.mp h
      cases r with
      | error err => cases (after_done_iff.mp h₂).2
      | ok as' =>
        obtain ⟨rfl, heq⟩ := after_done_iff.mp h₂
        cases heq
        have hdone : x.2 + 0 = g a := hl x hx [] a (after_nil_iff.mpr hfst.symm)
        have hrest := ih (fun y hy => hl y (List.mem_of_mem_eraseIdx hy))
          (by rwa [← List.eraseIdx_map])
        have hsum := (hperm.map Prod.snd).sum_eq
        simp only [List.map_cons, List.sum_cons, List.append_nil] at hsum ⊢
        omega
    · rename_i c k hget
      obtain ⟨x, hx, hfst, hi, hperm⟩ := pick hget
      obtain ⟨r, tr₁, rfl, h₁⟩ := after_call_done_iff.mp h
      have hset : ∀ y ∈ l.set i (k r, x.2 + f ⟨c, r⟩), Earns f g y.1 y.2 := by
        intro y hy
        rcases List.mem_or_eq_of_mem_set hy with hy | rfl
        · exact hl y hy
        · intro tr' a h'
          have hx' := hl x hx (⟨c, r⟩ :: tr') a (hfst ▸ .cons r h')
          rw [List.map_cons, List.sum_cons] at hx'
          show x.2 + f ⟨c, r⟩ + _ = _
          omega
      have hrest := ih hset (by rwa [List.map_set])
      have hsum := (hperm.map Prod.snd).sum_eq
      have hsum' := ((List.set_perm_cons_eraseIdx hi (k r, x.2 + f ⟨c, r⟩)).map Prod.snd).sum_eq
      simp only [List.map_cons, List.sum_cons] at hsum hsum' hrest ⊢
      omega

theorem group_sum {limit : ℕ} {sched : List ℕ} {ts : List (Prog S (Except ε α))}
    (hts : ∀ t ∈ ts, Earns f g t 0) (h : (group limit sched ts).After tr (.done (.ok as))) :
    (tr.map f).sum = (as.map g).sum := by
  have hfst : (ts.map fun t => (t, 0)).map Prod.fst = ts := by simp [Function.comp_def]
  have hsum : ((ts.map fun t => (t, 0)).map Prod.snd).sum + (tr.map f).sum = (as.map g).sum := by
    refine group_sum_from (fun x hx => ?_) (hfst.symm ▸ h)
    obtain ⟨t, ht, rfl⟩ := List.mem_map.mp hx
    exact hts t ht
  have hsnd : ((ts.map fun t => (t, 0)).map Prod.snd).sum = 0 := by simp [Function.comp_def]
  rwa [hsnd, Nat.zero_add] at hsum

end Sum

end Lib.Prog
