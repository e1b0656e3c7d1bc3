import NodeAgent.Backends
import NodeAgent.Lib.Since
import NodeAgent.Lib.Slice

/-!
# The registry over its calls

`internal/app/backends/registry.go` keeps a map and a slice in step by hand. `Raw` is the struct as
it stands, with nothing said about its fields, and it refines `Registry`, whose type has the
invariant. What the registry holds is then told from its calls alone: which ids are registered, with
what spec, and since which call.
-/

namespace NodeAgent

open Lib

namespace Registry

/-- A call that changes the registry. -/
inductive Op
  | upsert (spec : BackendSpec)
  | remove (id : BackendID)
  deriving DecidableEq, Repr

/-- The id a call is about. -/
def Op.id : Op → BackendID
  | .upsert spec => spec.id
  | .remove id => id

/-- The struct, as the source has it. -/
structure Raw where
  specs : GoMap BackendSpec
  order : Slice BackendID

namespace Raw

/-- `NewRegistry`. -/
def new : Raw where
  specs := ∅
  order := .empty

-- How much spare room the runtime leaves in a new array.
variable (grow : ℕ → ℕ → ℕ)

/-- `Upsert`. -/
def upsert (r : Raw) (spec : BackendSpec) : Raw × Bool :=
  if spec.id = "" then (r, false)
  else if spec.id ∈ r.specs then ({ r with specs := r.specs.insert spec.id spec }, false)
  else
    ({ specs := r.specs.insert spec.id spec
       order := r.order.append grow [spec.id] }, true)

/-- `Registry.Get`. -/
def get (r : Raw) (id : BackendID) : Option BackendSpec := r.specs[id]?

/-- `Registry.All`, which walks the slice of ids. -/
def all (r : Raw) : List BackendSpec := r.order.toList.map fun id => r.specs[id]?.getD {}

/-- `Remove`; the loop stops at the first place that has the id. -/
def remove (r : Raw) (id : BackendID) : Raw × Bool :=
  if id ∈ r.specs then
    ({ specs := r.specs.erase id
       order :=
        match r.order.toList.idxOf? id with
        | none => r.order
        | some i => r.order.deleteAt grow i }, true)
  else (r, false)

/-- `Registry.Len`. -/
def len (r : Raw) : ℕ := r.specs.size

/-- An operation on the slice and the map. -/
def step (r : Raw) : Op → Raw
  | .upsert spec => (r.upsert grow spec).1
  | .remove id => (r.remove grow id).1

/-- A new registry after some calls. -/
def after (ops : List Op) : Raw := ops.foldl (step grow) new

end Raw

/-- The same operation on the list without repetitions. -/
def step (reg : Registry) : Op → Registry
  | .upsert spec => (reg.upsert spec).1
  | .remove id => (reg.remove id).1

/-- The same calls on the registry with its invariant. -/
def after (ops : List Op) : Registry := ops.foldl step new

/-! ## The calls alone -/

/-- The call upserts the id. -/
def Op.Upserts (id : BackendID) (op : Op) : Prop := ∃ spec, op = .upsert spec ∧ spec.id = id

/-- The id was upserted, and not removed since. -/
def Registered (ops : List Op) (id : BackendID) : Prop :=
  id ≠ "" ∧ Since (fun _ op => op.Upserts id) (· ≠ .remove id) ops

/-- The spec was upserted, and no later call is about its id. -/
def Latest (ops : List Op) (s : BackendSpec) : Prop :=
  s.id ≠ "" ∧ Since (fun _ op => op = .upsert s) (·.id ≠ s.id) ops

/-- The id is registered since the `n`-th call: that call upserts it while it is not registered, and
it was not removed since. -/
def EnteredAt (ops : List Op) (id : BackendID) (n : ℕ) : Prop :=
  Since (fun pre op => op.Upserts id ∧ ¬ Registered pre id ∧ pre.length = n) (· ≠ .remove id) ops

/-- Each id is registered since exactly one call, and the first id since an earlier one. -/
def Earlier (ops : List Op) (id id' : BackendID) : Prop :=
  ∃ n n', (∀ m, EnteredAt ops id m ↔ m = n) ∧ (∀ m, EnteredAt ops id' m ↔ m = n') ∧ n < n'

section History

variable {ops : List Op} {op : Op} {id id' : BackendID} {s : BackendSpec} {n : ℕ}

theorem registered_snoc : Registered (ops ++ [op]) id ↔
    (id ≠ "" ∧ op.Upserts id) ∨ (Registered ops id ∧ op ≠ .remove id) := by
  unfold Registered
  rw [since_snoc, and_or_left, and_assoc]

theorem latest_snoc :
    Latest (ops ++ [op]) s ↔ (s.id ≠ "" ∧ op = .upsert s) ∨ (Latest ops s ∧ op.id ≠ s.id) := by
  unfold Latest
  rw [since_snoc, and_or_left, and_assoc]

theorem enteredAt_snoc : EnteredAt (ops ++ [op]) id n ↔
    (op.Upserts id ∧ ¬ Registered ops id ∧ ops.length = n) ∨
      (EnteredAt ops id n ∧ op ≠ .remove id) :=
  since_snoc

theorem EnteredAt.registered (h : EnteredAt ops id n) (hne : id ≠ "") : Registered ops id := by
  obtain ⟨pre, op, post, heq, hop, hkeep⟩ := h
  exact ⟨hne, pre, op, post, heq, hop.1, hkeep⟩

theorem EnteredAt.lt (h : EnteredAt ops id n) : n < ops.length := by
  obtain ⟨pre, op, post, rfl, ⟨-, -, rfl⟩, -⟩ := h
  simp

theorem enteredAt_snoc_of_registered (h : Registered ops id) :
    EnteredAt (ops ++ [op]) id n ↔ EnteredAt ops id n ∧ op ≠ .remove id := by
  rw [enteredAt_snoc]
  exact or_iff_right fun hnew => hnew.2.1 h

theorem enteredAt_snoc_of_not_registered (hnot : ¬ Registered ops id) (hne : id ≠ "")
    (hop : op.Upserts id) : EnteredAt (ops ++ [op]) id n ↔ n = ops.length := by
  rw [enteredAt_snoc]
  constructor
  · rintro (⟨-, -, hn⟩ | ⟨hn, -⟩)
    · exact hn.symm
    · exact absurd (hn.registered hne) hnot
  · rintro rfl
    exact .inl ⟨hop, hnot, rfl⟩

/-- The registered ids are those that have a latest spec. -/
theorem registered_iff_latest : Registered ops id ↔ ∃ s, s.id = id ∧ Latest ops s := by
  induction ops using List.reverseRecOn with
  | nil => simp [Registered, Latest]
  | append_singleton ops op ih =>
    simp only [registered_snoc, latest_snoc]
    constructor
    · rintro (⟨hne, s, rfl, rfl⟩ | ⟨hreg, hop⟩)
      · exact ⟨s, rfl, .inl ⟨hne, rfl⟩⟩
      · obtain ⟨s, rfl, hs⟩ := ih.mp hreg
        by_cases hid : op.id = s.id
        · cases op with
          | upsert s' => exact ⟨s', hid, .inl ⟨fun he => hs.1 (hid.symm.trans he), rfl⟩⟩
          | remove x => exact absurd (congrArg Op.remove hid) hop
        · exact ⟨s, rfl, .inr ⟨hs, hid⟩⟩
    · rintro ⟨s, rfl, ⟨hne, rfl⟩ | ⟨hs, hid⟩⟩
      · exact .inl ⟨hne, s, rfl, rfl⟩
      · refine .inr ⟨ih.mpr ⟨s, rfl, hs⟩, ?_⟩
        rintro rfl
        exact hid rfl

/-- A registered id is so since exactly one call. -/
theorem Registered.enteredAt (h : Registered ops id) : ∃ n, ∀ m, EnteredAt ops id m ↔ m = n := by
  induction ops using List.reverseRecOn with
  | nil => exact absurd h.2 not_since_nil
  | append_singleton ops op ih =>
    by_cases hreg : Registered ops id
    · obtain ⟨n, hn⟩ := ih hreg
      have hop : op ≠ .remove id := by
        rcases registered_snoc.mp h with ⟨-, spec, rfl, -⟩ | ⟨-, hop⟩
        · exact Op.noConfusion
        · exact hop
      refine ⟨n, fun m => ?_⟩
      rw [enteredAt_snoc_of_registered hreg, and_iff_left hop]
      exact hn m
    · have hop : op.Upserts id := by
        rcases registered_snoc.mp h with ⟨-, hop⟩ | ⟨hreg', -⟩
        · exact hop
        · exact absurd hreg' hreg
      exact ⟨ops.length, fun m => enteredAt_snoc_of_not_registered hreg h.1 hop⟩

theorem Earlier.snoc (h : Earlier ops id id') (hreg : Registered ops id)
    (hreg' : Registered ops id') (hop : op ≠ .remove id) (hop' : op ≠ .remove id') :
    Earlier (ops ++ [op]) id id' := by
  obtain ⟨n, n', hn, hn', hlt⟩ := h
  refine ⟨n, n', fun m => ?_, fun m => ?_, hlt⟩
  · rw [enteredAt_snoc_of_registered hreg, and_iff_left hop]
    exact hn m
  · rw [enteredAt_snoc_of_registered hreg', and_iff_left hop']
    exact hn' m

theorem earlier_new (hreg : Registered ops id) (hnot : ¬ Registered ops s.id) (hne : s.id ≠ "") :
    Earlier (ops ++ [.upsert s]) id s.id := by
  obtain ⟨n, hn⟩ := hreg.enteredAt
  refine ⟨n, ops.length, fun m => ?_, fun m => ?_, ((hn n).mpr rfl).lt⟩
  · rw [enteredAt_snoc_of_registered hreg, and_iff_left Op.noConfusion]
    exact hn m
  · exact enteredAt_snoc_of_not_registered hnot hne ⟨s, rfl, rfl⟩

end History

/-! ## The registry with its invariant -/

section Invariant

variable {ops : List Op} {op : Op} {id : BackendID} {s : BackendSpec}

theorem after_snoc : after (ops ++ [op]) = (after ops).step op := List.foldl_concat ..

theorem upsert_of_empty (reg : Registry) (h : s.id = "") : reg.upsert s = (reg, false) := dif_pos h

theorem order_upsert (reg : Registry) (s : BackendSpec) : (reg.upsert s).1.order =
    if s.id = "" ∨ s.id ∈ reg.order then reg.order else reg.order ++ [s.id] := by
  have hmem := reg.mem_order s.id
  unfold upsert
  split_ifs <;> first | rfl | tauto

theorem upsert_added (reg : Registry) (s : BackendSpec) :
    (reg.upsert s).2 = true ↔ s.id ≠ "" ∧ s.id ∉ reg.specs := by
  unfold upsert
  split_ifs <;> simp_all

theorem order_remove (reg : Registry) (x : BackendID) :
    (reg.remove x).1.order = reg.order.filter (· ≠ x) := by
  have herase : (reg.remove x).1.order = reg.order.erase x := by
    unfold remove
    split_ifs with hx
    · rfl
    · exact (List.erase_of_not_mem fun h => hx ((reg.mem_order x).mp h)).symm
  rw [herase, reg.nodup.erase_eq_filter]
  exact List.filter_congr fun id _ => by simp [bne, beq_eq_decide]

/-- `Remove` leaves the others in `All` as they were. -/
theorem all_remove (reg : Registry) (x : BackendID) :
    (reg.remove x).1.all = reg.all.filter (·.id ≠ x) := by
  unfold all
  rw [order_remove, List.filter_map]
  have hsame : reg.order.filter ((fun s => decide (s.id ≠ x)) ∘ fun id => reg.specs[id]?.getD {}) =
      reg.order.filter (· ≠ x) :=
    List.filter_congr fun id h => by rw [Function.comp_apply, reg.id_getD h]
  rw [hsame]
  refine List.map_congr_left fun id h => ?_
  have hne : id ≠ x := of_decide_eq_true (List.mem_filter.mp h).2
  have hget := reg.get_remove x id
  rw [if_neg hne] at hget
  exact congrArg (Option.getD · {}) hget

/-- `Len` is the length of `All`. -/
theorem size_specs (reg : Registry) : reg.specs.size = reg.all.length := by
  have hperm : reg.specs.keys.Perm reg.order :=
    (List.perm_ext_iff_of_nodup Std.ExtTreeMap.nodup_keys reg.nodup).mpr fun id => by
      rw [Std.ExtTreeMap.mem_keys, reg.mem_order]
  rw [← Std.ExtTreeMap.length_keys, hperm.length_eq, ← reg.map_id_all, List.length_map]

theorem get_step_of_ne (reg : Registry) (h : op.id ≠ id) : (reg.step op).get id = reg.get id := by
  cases op with
  | upsert s =>
    change (reg.upsert s).1.get id = reg.get id
    by_cases hne : s.id = ""
    · rw [upsert_of_empty _ hne]
    · exact (reg.get_upsert hne id).trans (if_neg (Ne.symm h))
  | remove x => exact (reg.get_remove x id).trans (if_neg (Ne.symm h))

/-- What is stored is the latest spec of its id. -/
theorem get_after : (after ops).get s.id = some s ↔ Latest ops s := by
  induction ops using List.reverseRecOn with
  | nil => simp [Latest, after, new, get]
  | append_singleton ops op ih =>
    rw [after_snoc, latest_snoc]
    by_cases hid : op.id = s.id
    · rw [or_iff_left fun h => h.2 hid]
      cases op with
      | upsert s' =>
        by_cases hne : s.id = ""
        · have hnone : ((after ops).step (.upsert s')).get s.id ≠ some s := fun h =>
            get_isSome_ne _ (Option.isSome_of_eq_some h) hne
          exact iff_of_false hnone fun h => h.1 hne
        · have hs' : s'.id ≠ "" := fun he => hne (hid.symm.trans he)
          have hget : ((after ops).step (.upsert s')).get s.id = some s' :=
            (get_upsert _ hs' _).trans (if_pos hid.symm)
          rw [hget]
          simp [hne]
      | remove x =>
        have hget : ((after ops).step (.remove x)).get s.id = none :=
          (get_remove _ x _).trans (if_pos hid.symm)
        rw [hget]
        simp
    · rw [get_step_of_ne _ hid, ih, and_iff_left hid]
      exact (or_iff_right fun h => hid (congrArg Op.id h.2)).symm

theorem mem_order_after : id ∈ (after ops).order ↔ Registered ops id := by
  rw [mem_order_iff, registered_iff_latest, Option.isSome_iff_exists]
  constructor
  · rintro ⟨s, hs⟩
    obtain rfl := (after ops).keyed id s hs
    exact ⟨s, rfl, get_after.mp hs⟩
  · rintro ⟨s, rfl, hs⟩
    exact ⟨s, get_after.mpr hs⟩

theorem pairwise_order_after : (after ops).order.Pairwise (Earlier ops) := by
  induction ops using List.reverseRecOn with
  | nil => exact List.Pairwise.nil
  | append_singleton ops op ih =>
    have hreg : ∀ {id}, id ∈ (after ops).order → Registered ops id := mem_order_after.mp
    rw [after_snoc]
    cases op with
    | upsert s =>
      have hold : (after ops).order.Pairwise (Earlier (ops ++ [.upsert s])) :=
        ih.imp_of_mem fun hid hid' h =>
          h.snoc (hreg hid) (hreg hid') Op.noConfusion Op.noConfusion
      change ((after ops).upsert s).1.order.Pairwise _
      rw [order_upsert]
      split_ifs with hs
      · exact hold
      · rw [not_or, mem_order_after] at hs
        refine List.pairwise_append.mpr ⟨hold, List.pairwise_singleton .., ?_⟩
        intro id hid id' hid'
        rw [List.mem_singleton.mp hid']
        exact earlier_new (hreg hid) hs.2 hs.1
    | remove x =>
      change ((after ops).remove x).1.order.Pairwise _
      rw [order_remove]
      refine (ih.filter _).imp_of_mem fun hid hid' h => ?_
      rw [List.mem_filter, decide_eq_true_eq] at hid hid'
      refine h.snoc (hreg hid.1) (hreg hid'.1) ?_ ?_
      · rintro ⟨⟩
        exact hid.2 rfl
      · rintro ⟨⟩
        exact hid'.2 rfl

end Invariant

/-! ## The struct refines it -/

namespace Raw

/-- The struct stands for the registry. -/
structure Refines (r : Raw) (reg : Registry) : Prop where
  specs : r.specs = reg.specs
  order : r.order.toList = reg.order

section Refinement

variable {grow : ℕ → ℕ → ℕ} {r : Raw} {reg : Registry}

theorem Refines.get (h : r.Refines reg) (id : BackendID) : r.get id = reg.get id := by
  unfold Raw.get Registry.get
  rw [h.specs]

theorem Refines.all (h : r.Refines reg) : r.all = reg.all := by
  unfold Raw.all Registry.all
  rw [h.specs, h.order]

theorem Refines.upsert (h : r.Refines reg) (s : BackendSpec) :
    (r.upsert grow s).1.Refines (reg.upsert s).1 ∧ (r.upsert grow s).2 = (reg.upsert s).2 := by
  unfold Raw.upsert Registry.upsert
  rw [h.specs]
  split_ifs
  · exact ⟨h, rfl⟩
  · exact ⟨⟨rfl, h.order⟩, rfl⟩
  · refine ⟨⟨rfl, ?_⟩, rfl⟩
    rw [Slice.toList_append, h.order]

theorem toList_remove_loop (order : Slice BackendID) (id : BackendID) :
    (match order.toList.idxOf? id with
      | none => order
      | some i => order.deleteAt grow i).toList = order.toList.erase id := by
  rw [List.erase_eq_eraseIdx]
  cases hi : order.toList.idxOf? id with
  | none => rfl
  | some i =>
    obtain ⟨hlt, -⟩ := List.idxOf?_eq_some_iff.mp hi
    exact Slice.toList_deleteAt (order.length_toList ▸ hlt)

theorem Refines.remove (h : r.Refines reg) (id : BackendID) :
    (r.remove grow id).1.Refines (reg.remove id).1 ∧ (r.remove grow id).2 = (reg.remove id).2 := by
  unfold Raw.remove Registry.remove
  rw [h.specs]
  split_ifs
  · refine ⟨⟨rfl, ?_⟩, rfl⟩
    exact (toList_remove_loop r.order id).trans (by rw [h.order])
  · exact ⟨h, rfl⟩

theorem Refines.step (h : r.Refines reg) (op : Op) : (r.step grow op).Refines (reg.step op) := by
  cases op with
  | upsert s => exact (h.upsert s).1
  | remove id => exact (h.remove id).1

theorem refines_after (grow : ℕ → ℕ → ℕ) (ops : List Op) :
    (Raw.after grow ops).Refines (Registry.after ops) := by
  induction ops using List.reverseRecOn with
  | nil => exact ⟨rfl, rfl⟩
  | append_singleton ops op ih =>
    unfold Raw.after Registry.after
    rw [List.foldl_concat, List.foldl_concat]
    exact ih.step op

end Refinement

/-- What the struct is after some calls, told from the calls alone. -/
structure Keeps (grow : ℕ → ℕ → ℕ) (ops : List Op) (r : Raw) : Prop where
  /-- The order lists each key of the map once, and nothing else. -/
  count_order : ∀ id, r.order.toList.count id = if id ∈ r.specs then 1 else 0
  mem_specs : ∀ id, id ∈ r.specs ↔ Registered ops id
  get_eq_some : ∀ id s, r.get id = some s ↔ s.id = id ∧ Latest ops s
  mem_all : ∀ s, s ∈ r.all ↔ Latest ops s
  count_all : ∀ id, (r.all.map BackendSpec.id).count id = if id ∈ r.specs then 1 else 0
  pairwise_all : r.all.Pairwise fun s s' => Earlier ops s.id s'.id
  len_eq : r.len = r.all.length
  upsert_added : ∀ s, (r.upsert grow s).2 = true ↔ s.id ≠ "" ∧ s.id ∉ r.specs
  removed : ∀ id, (r.remove grow id).2 = true ↔ id ∈ r.specs
  order_remove : ∀ id, (r.remove grow id).1.order.toList = r.order.toList.filter (· ≠ id)
  all_remove : ∀ id, (r.remove grow id).1.all = r.all.filter (·.id ≠ id)

theorem keeps_after (grow : ℕ → ℕ → ℕ) (ops : List Op) : Keeps grow ops (after grow ops) := by
  have h := refines_after grow ops
  have hcount : ∀ id, (Registry.after ops).order.count id =
      if id ∈ (after grow ops).specs then 1 else 0 := fun id => by
    rw [h.specs]
    split_ifs with hid
    · exact List.count_eq_one_of_mem (Registry.after ops).nodup
        (((Registry.after ops).mem_order id).mpr hid)
    · exact List.count_eq_zero_of_not_mem fun hmem =>
        hid (((Registry.after ops).mem_order id).mp hmem)
  exact {
    count_order := by
      rw [h.order]
      exact hcount
    mem_specs := fun id => by
      rw [h.specs, ← (Registry.after ops).mem_order]
      exact mem_order_after
    get_eq_some := fun id s => by
      rw [h.get]
      constructor
      · intro hs
        obtain rfl := (Registry.after ops).keyed id s hs
        exact ⟨rfl, get_after.mp hs⟩
      · rintro ⟨rfl, hs⟩
        exact get_after.mpr hs
    mem_all := fun s => by
      rw [h.all, Registry.mem_all]
      exact get_after
    count_all := by
      rw [h.all, map_id_all]
      exact hcount
    pairwise_all := by
      rw [h.all, ← List.pairwise_map, map_id_all]
      exact pairwise_order_after
    len_eq := by
      rw [h.all, len, h.specs]
      exact size_specs _
    upsert_added := fun s => by
      rw [(h.upsert s).2, Registry.upsert_added, h.specs]
    removed := fun id => by
      unfold remove
      split_ifs with hid <;> simp [hid]
    order_remove := fun id => by
      rw [(h.remove id).1.order, Registry.order_remove, h.order]
    all_remove := fun id => by
      rw [(h.remove id).1.all, Registry.all_remove, h.all] }

-- An id that comes back goes to the end.
example : ((after (fun _ n => n) [.upsert { id := "a" }, .upsert { id := "b" }, .remove "a",
    .upsert { id := "a" }]).all.map BackendSpec.id) = ["b", "a"] := by decide +kernel

end Raw

end Registry

end NodeAgent
