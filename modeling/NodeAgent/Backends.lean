import NodeAgent.EntryProxy

/-!
# The backend registry

`internal/app/backends/registry.go`. The representation invariant (the order lists every key of the
map once, every spec is stored under its own id, no id is empty) is part of the type.
-/

namespace NodeAgent

/-- `singboxgen.RealitySpec`. -/
structure RealitySpec where
  enabled : Bool := false
  serverName : String := ""
  publicKey : String := ""
  shortIDs : List String := []
  handshake : String := ""
  deriving DecidableEq, Repr, Inhabited

/-- `singboxgen.BackendSpec`: how a backend is reached. -/
structure BackendSpec where
  id : BackendID := ""
  name : String := ""
  address : String := ""
  port : ℕ := 0
  serverName : String := ""
  reality : RealitySpec := {}
  transport : TransportKind := .unset
  deriving DecidableEq, Repr, Inhabited

/-- `backends.Registry`: the specs by id, and the ids in the order in which they came. -/
structure Registry where
  specs : GoMap BackendSpec
  order : List BackendID
  nodup : order.Nodup
  mem_order : ∀ id, id ∈ order ↔ id ∈ specs
  keyed : ∀ (id : BackendID) (s : BackendSpec), specs[id]? = some s → s.id = id
  id_ne : ∀ id ∈ order, id ≠ ""

namespace Registry

/-- `NewRegistry`. -/
def new : Registry where
  specs := ∅
  order := []
  nodup := List.nodup_nil
  mem_order := by simp
  keyed := by simp
  id_ne := by simp

instance : Inhabited Registry := ⟨new⟩

/-- `Registry.Get`. -/
def get (r : Registry) (id : BackendID) : Option BackendSpec := r.specs[id]?

/-- `Registry.All`, in the order of insertion. -/
def all (r : Registry) : List BackendSpec := r.order.map fun id => r.specs[id]?.getD {}

theorem keyed_insert (r : Registry) (spec : BackendSpec) (id : BackendID) (s : BackendSpec)
    (h : (r.specs.insert spec.id spec)[id]? = some s) : s.id = id := by
  rw [GoMap.getElem?_insert] at h
  split_ifs at h with he
  · cases h
    exact he.symm
  · exact r.keyed id s h

/-- `Upsert`; the second component tells whether the id was new. -/
def upsert (r : Registry) (spec : BackendSpec) : Registry × Bool :=
  if hne : spec.id = "" then (r, false)
  else if hmem : spec.id ∈ r.specs then
    ({ specs := r.specs.insert spec.id spec
       order := r.order
       nodup := r.nodup
       mem_order := fun id => by
        rw [r.mem_order, GoMap.mem_insert]
        exact ⟨.inr, fun h => h.elim (fun h => h ▸ hmem) fun h => h⟩
       keyed := r.keyed_insert spec
       id_ne := r.id_ne }, false)
  else
    ({ specs := r.specs.insert spec.id spec
       order := r.order ++ [spec.id]
       nodup := by
        rw [← List.concat_eq_append, List.nodup_concat]
        exact ⟨fun h => hmem ((r.mem_order _).mp h), r.nodup⟩
       mem_order := fun id => by
        rw [List.mem_append, List.mem_singleton, r.mem_order, GoMap.mem_insert, or_comm]
       keyed := r.keyed_insert spec
       id_ne := fun id hid => by
        rcases List.mem_append.mp hid with hid | hid
        · exact r.id_ne id hid
        · rw [List.mem_singleton.mp hid]
          exact hne }, true)

/-- `Remove`; the second component tells whether the id was there. -/
def remove (r : Registry) (id : BackendID) : Registry × Bool :=
  if id ∈ r.specs then
    ({ specs := r.specs.erase id
       order := r.order.erase id
       nodup := r.nodup.erase id
       mem_order := fun x => by
        rw [r.nodup.mem_erase_iff, r.mem_order, GoMap.mem_erase]
       keyed := fun x s h => by
        rw [GoMap.getElem?_erase] at h
        split_ifs at h
        exact r.keyed x s h
       id_ne := fun x hx => r.id_ne x (List.mem_of_mem_erase hx) }, true)
  else (r, false)

/-- A new registry after the given upserts. -/
def ofSpecs (specs : List BackendSpec) : Registry :=
  specs.foldl (fun r spec => (r.upsert spec).1) new

theorem mem_order_iff (r : Registry) (id : BackendID) : id ∈ r.order ↔ (r.get id).isSome := by
  rw [r.mem_order, get, Std.ExtTreeMap.mem_iff_isSome_getElem?]

theorem get_isSome_ne (r : Registry) {id : BackendID} (h : (r.get id).isSome) : id ≠ "" :=
  r.id_ne id ((r.mem_order_iff id).mpr h)

theorem get_upsert (r : Registry) {spec : BackendSpec} (hne : spec.id ≠ "") (id : BackendID) :
    (r.upsert spec).1.get id = if id = spec.id then some spec else r.get id := by
  have hspecs : (r.upsert spec).1.specs = r.specs.insert spec.id spec := by
    unfold upsert
    rw [dif_neg hne]
    split_ifs <;> rfl
  rw [get, hspecs]
  exact GoMap.getElem?_insert ..

theorem get_remove (r : Registry) (x id : BackendID) :
    (r.remove x).1.get id = if id = x then none else r.get id := by
  unfold remove get
  split_ifs with hx hid hid
  · rw [GoMap.getElem?_erase, if_pos hid]
  · rw [GoMap.getElem?_erase, if_neg hid]
  · rw [hid]
    exact Std.ExtTreeMap.getElem?_eq_none hx
  · rfl

theorem id_getD (r : Registry) {id : BackendID} (hid : id ∈ r.order) :
    (r.specs[id]?.getD {}).id = id := by
  obtain ⟨s, hs⟩ := Option.isSome_iff_exists.mp ((r.mem_order_iff id).mp hid)
  rw [show r.specs[id]? = some s from hs]
  exact r.keyed id s hs

/-- The ids listed by `All` are the order. -/
theorem map_id_all (r : Registry) : r.all.map BackendSpec.id = r.order := by
  unfold all
  rw [List.map_map]
  exact (List.map_congr_left fun id hid => r.id_getD hid).trans (List.map_id _)

/-- `Get` finds exactly the ids that `All` lists. -/
theorem mem_map_id_all (r : Registry) (id : BackendID) :
    id ∈ r.all.map BackendSpec.id ↔ (r.get id).isSome := by
  rw [map_id_all, mem_order_iff]

/-- `All` lists what `Get` finds. -/
theorem mem_all (r : Registry) (s : BackendSpec) : s ∈ r.all ↔ r.get s.id = some s := by
  unfold all
  rw [List.mem_map]
  constructor
  · rintro ⟨id, hid, rfl⟩
    obtain ⟨s, hs⟩ := Option.isSome_iff_exists.mp ((r.mem_order_iff id).mp hid)
    have hget : r.specs[id]? = some s := hs
    rw [hget, Option.getD_some, r.keyed id s hget]
    exact hs
  · intro hs
    have hget : r.specs[s.id]? = some s := hs
    exact ⟨s.id, (r.mem_order_iff _).mpr (by rw [hs]; rfl), by rw [hget]; rfl⟩

/-- What `SyncBackends` pushes to the proxy. -/
def entryBackends (r : Registry) : List EntryBackend :=
  r.all.map fun b => { id := b.id, address := b.address, port := b.port }

theorem mem_map_id_entryBackends (r : Registry) (id : BackendID) :
    id ∈ r.entryBackends.map EntryBackend.id ↔ (r.get id).isSome := by
  rw [← mem_map_id_all, entryBackends, List.map_map]
  rfl

end Registry

end NodeAgent
