import NodeAgent.Lib.Member

/-!
# Items spread over workers

A worker handles its items one after the other. Items are spread over workers that run next to each
other, such that all items of a kind go to one of them. Seen from the kind, this is one worker handling
only those items (`forEach_mixed`, `shards_mixed`); so what a worker does to the part of the world that
belongs to the kind is the same with one worker or with many (`shards_agree`).
-/

namespace Lib

variable {S : Sig} {ι α : Type}

/-! ## One worker -/

namespace Prog

/-- One item after the other. -/
def forEach (prog : ι → Prog S α) : List ι → Prog S (List α)
  | [] => return []
  | x :: xs => do
    let a ← prog x
    let as ← forEach prog xs
    return a :: as

variable {prog : ι → Prog S α} {P : S.Call → Prop} {tr : List (Event S)}

theorem forEach_all {xs : List ι} (h : ∀ x ∈ xs, (prog x).All P) : (forEach prog xs).All P := by
  induction xs with
  | nil => trivial
  | cons x xs ih =>
    obtain ⟨hx, hxs⟩ := List.forall_mem_cons.mp h
    exact hx.bind fun a => (ih hxs).bind fun as => trivial

theorem after_forEach_cons {x : ι} {xs : List ι} {r : List α}
    (h : (forEach prog (x :: xs)).After tr (.done r)) :
    ∃ a as tr₁ tr₂, tr = tr₁ ++ tr₂ ∧ (prog x).After tr₁ (.done a) ∧
      (forEach prog xs).After tr₂ (.done as) := by
  obtain ⟨a, tr₁, tr₂, rfl, h₁, h₂⟩ := after_bind_done_iff.mp h
  obtain ⟨as, tr₃, tr₄, rfl, h₃, h₄⟩ := after_bind_done_iff.mp h₂
  obtain ⟨rfl, -⟩ := after_done_iff.mp h₄
  exact ⟨a, as, tr₁, tr₃, by rw [List.append_nil], h₁, h₃⟩

theorem after_forEach_of_cons {x : ι} {xs : List ι} {a : α} {as : List α} {tr' : List (Event S)}
    (h : (prog x).After tr (.done a)) (h' : (forEach prog xs).After tr' (.done as)) :
    (forEach prog (x :: xs)).After (tr ++ tr') (.done (a :: as)) := by
  refine after_bind_done_iff.mpr ⟨a, tr, tr', rfl, h, ?_⟩
  exact after_bind_done_iff.mpr ⟨as, tr', [], (List.append_nil _).symm, h', .nil _⟩

/-- A worker seen from the items with `q`. -/
theorem forEach_mixed {q : ι → Bool} {xs : List ι} {r : List α}
    (hothers : ∀ x ∈ xs, q x = false → (prog x).All P)
    (h : (forEach prog xs).After tr (.done r)) :
    ∃ mine r', (forEach prog (xs.filter q)).After mine (.done r') ∧ Mixed P mine tr := by
  induction xs generalizing tr r with
  | nil =>
    obtain ⟨rfl, -⟩ := after_done_iff.mp h
    exact ⟨[], [], .nil _, .nil⟩
  | cons x xs ih =>
    obtain ⟨a, as, tr₁, tr₂, rfl, h₁, h₂⟩ := after_forEach_cons h
    obtain ⟨hx, hxs⟩ := List.forall_mem_cons.mp hothers
    obtain ⟨mine, r', hmine, hmixed⟩ := ih hxs h₂
    cases hq : q x with
    | true =>
      rw [List.filter_cons_of_pos hq]
      exact ⟨tr₁ ++ mine, a :: r', after_forEach_of_cons h₁ hmine, hmixed.own_append tr₁⟩
    | false =>
      rw [List.filter_cons_of_neg (by simp [hq])]
      exact ⟨mine, r', hmine, hmixed.others_append ((hx hq).of_mem h₁)⟩

end Prog

/-! ## Many workers -/

/-- The items spread over `n` workers. -/
def shards (n : ℕ) (shard : ι → ℕ) (prog : ι → Prog S α) (xs : List ι) : List (Prog S (List α)) :=
  (List.range n).map fun i => Prog.forEach prog (xs.filter fun x => shard x = i)

/-- Every program of the pool has returned. -/
def AllDone (ts : List (Prog S α)) : Prop := ∀ t ∈ ts, ∃ a, t = .done a

theorem allDone_of_value? {ts : List (Prog S α)} (h : ts.all fun t => t.value?.isSome) : AllDone ts := by
  intro t ht
  obtain ⟨a, ha⟩ := Option.isSome_iff_exists.mp (List.all_eq_true.mp h t ht)
  exact ⟨a, Prog.eq_done_of_value? ha⟩

section Shards

variable {n : ℕ} {shard : ι → ℕ} {prog : ι → Prog S α} {xs : List ι} {ts : List (Prog S (List α))}
  {tr : List (Tagged S)} {P : S.Call → Prop} {q : ι → Bool} {i : ℕ}

theorem getElem?_shards (hi : i < n) : (shards n shard prog xs)[i]? =
    some (Prog.forEach prog (xs.filter fun x => shard x = i)) := by
  rw [shards, List.getElem?_map, List.getElem?_range hi]
  rfl

/-- The workers seen from the items with `q`, which all go to worker `i`. -/
theorem shards_mixed (hi : i < n) (hq : ∀ x ∈ xs, q x = true → shard x = i)
    (hothers : ∀ x ∈ xs, q x = false → (prog x).All P)
    (h : Interleave (shards n shard prog xs) tr ts) (hdone : AllDone ts) :
    ∃ mine r, (Prog.forEach prog (xs.filter q)).After mine (.done r) ∧
      Mixed P mine (tr.map Prod.snd) := by
  obtain ⟨t, ht, hafter⟩ := h.after (getElem?_shards hi)
  obtain ⟨r, rfl⟩ := hdone t (List.mem_of_getElem? ht)
  obtain ⟨mine, r', hmine, hmixed⟩ := Prog.forEach_mixed (P := P) (q := q)
    (fun x hx => hothers x (List.mem_of_mem_filter hx)) hafter
  have hfilter : (xs.filter fun x => shard x = i).filter q = xs.filter q := by
    rw [List.filter_filter]
    refine List.filter_congr fun x hx => ?_
    cases hqx : q x with
    | false => rfl
    | true => simp [hq x hx hqx]
  rw [hfilter] at hmine
  refine ⟨mine, r', hmine, hmixed.trans (mixed_eventsOf fun j ev hev hj => ?_)⟩
  -- the other workers have no item with `q`
  have hjn : j < n := by simpa [shards] using h.lt_of_mem hev
  obtain ⟨u, -, hu⟩ := h.after (getElem?_shards hjn)
  refine (Prog.forEach_all fun x hx => ?_).of_mem hu ev (mem_eventsOf.mpr hev)
  obtain ⟨hx, hshard⟩ := List.mem_filter.mp hx
  refine hothers x hx (Bool.eq_false_iff.mpr fun hqx => hj ?_)
  rw [← of_decide_eq_true hshard, hq x hx hqx]

end Shards

/-! ## One worker or many -/

section Agree

variable {E W X β : Type} {H : Handler S E W} {A : E → Prop} {prog : ι → Prog S α}
  {f : W → X} {R : X → X → Prop} {G : Event S → Prop} {g : Event S → Option β}

/-- What an item makes of the part `f` of the world and of what `g` sees of its events is determined up to
`R`, as long as its events satisfy `G`. -/
def Determines (H : Handler S E W) (A : E → Prop) (f : W → X) (R : X → X → Prop) (G : Event S → Prop)
    (g : Event S → Option β) (p : Prog S α) : Prop :=
  ∀ x x' y y' tr tr' a a', R x x' → p.After tr (.done a) → p.After tr' (.done a') →
    (∀ ev ∈ tr, G ev) → (∀ ev ∈ tr', G ev) → Sees H A f x tr y → Sees H A f x' tr' y' →
    R y y' ∧ tr.filterMap g = tr'.filterMap g

theorem Determines.forEach {xs : List ι} (h : ∀ x ∈ xs, Determines H A f R G g (prog x)) :
    Determines H A f R G g (Prog.forEach prog xs) := by
  induction xs with
  | nil =>
    intro x x' y y' tr tr' a a' hR h₁ h₂ _ _ hs hs'
    obtain ⟨rfl, -⟩ := Prog.after_done_iff.mp h₁
    obtain ⟨rfl, -⟩ := Prog.after_done_iff.mp h₂
    rw [show y = x from hs, show y' = x' from hs']
    exact ⟨hR, rfl⟩
  | cons item xs ih =>
    intro x x' y y' tr tr' a a' hR h₁ h₂ hG hG' hs hs'
    obtain ⟨hitem, hxs⟩ := List.forall_mem_cons.mp h
    obtain ⟨b, bs, t₁, t₂, rfl, hb, hbs⟩ := Prog.after_forEach_cons h₁
    obtain ⟨b', bs', t₁', t₂', rfl, hb', hbs'⟩ := Prog.after_forEach_cons h₂
    obtain ⟨z, hz, hrest⟩ := sees_append.mp hs
    obtain ⟨z', hz', hrest'⟩ := sees_append.mp hs'
    obtain ⟨hG₁, hG₂⟩ := List.forall_mem_append.mp hG
    obtain ⟨hG₁', hG₂'⟩ := List.forall_mem_append.mp hG'
    obtain ⟨hRz, hg⟩ := hitem _ _ _ _ _ _ _ _ hR hb hb' hG₁ hG₁' hz hz'
    obtain ⟨hRy, hg'⟩ := ih hxs _ _ _ _ _ _ _ _ hRz hbs hbs' hG₂ hG₂' hrest hrest'
    exact ⟨hRy, by rw [List.filterMap_append, List.filterMap_append, hg, hg']⟩

/-- Many workers and one worker make the same of the part `f` of the world, and `g` sees the same. -/
theorem shards_agree {n : ℕ} {shard : ι → ℕ} {xs : List ι} {ts : List (Prog S (List α))}
    {tr : List (Tagged S)} {tr' : List (Event S)} {P : S.Call → Prop} {q : ι → Bool} {i : ℕ}
    {w w₁ w₂ : W} {r : List α} (hP : ∀ c e w, P c → f (H.exec c e w).2 = f w)
    (hg : ∀ ev : Event S, P ev.call → g ev = none) (hrefl : R (f w) (f w))
    (hi : i < n) (hq : ∀ x ∈ xs, q x = true → shard x = i)
    (hothers : ∀ x ∈ xs, q x = false → (prog x).All P)
    (hdet : ∀ x ∈ xs, q x = true → Determines H A f R G g (prog x))
    (h : Pool H A (shards n shard prog xs) w tr ts w₁) (hdone : AllDone ts)
    (hG : ∀ x ∈ tr, G x.2) (h' : Run H A (Prog.forEach prog xs) w tr' r w₂)
    (hG' : ∀ ev ∈ tr', G ev) :
    R (f w₁) (f w₂) ∧ (tr.map Prod.snd).filterMap g = tr'.filterMap g := by
  obtain ⟨mine, r₁, hmine, hmixed⟩ := shards_mixed hi hq hothers h.1 hdone
  obtain ⟨mine', r₂, hmine', hmixed'⟩ := Prog.forEach_mixed hothers h'.1
  have hitems : Determines H A f R G g (Prog.forEach prog (xs.filter q)) := by
    refine .forEach fun x hx => ?_
    obtain ⟨hx, hqx⟩ := List.mem_filter.mp hx
    exact hdet x hx hqx
  rw [hmixed.filterMap_eq hg, hmixed'.filterMap_eq hg]
  refine hitems _ _ _ _ _ _ _ _ hrefl hmine hmine' (fun ev hev => ?_)
    (fun ev hev => hG' ev (hmixed'.mem hev)) (hmixed.sees hP h.2) (hmixed'.sees hP h'.2)
  obtain ⟨x, hx, rfl⟩ := List.mem_map.mp (hmixed.mem hev)
  exact hG x hx

end Agree

end Lib
