import NodeAgent.Domain

/-!
# Placements by id

A map from ids to placements, each under its own id: the badger store, and the overlays that the
render coalescer has collected.
-/

namespace NodeAgent

/-- Every record lies under its own id. -/
structure Store where
  recs : GoMap Placement
  keyed : ∀ (k : String) (p : Placement), recs[k]? = some p → p.id = k

namespace Store

def empty : Store := ⟨∅, by simp⟩

instance : Inhabited Store := ⟨empty⟩

/-- The placement under an id, if there is one. -/
def get (s : Store) (id : PlacementID) : Option Placement := s.recs[id]?

/-- The placement goes under its own id. -/
def put (s : Store) (p : Placement) : Store where
  recs := s.recs.insert p.id p
  keyed k q h := by
    rw [GoMap.getElem?_insert] at h
    split_ifs at h with he
    · cases h
      exact he.symm
    · exact s.keyed k q h

def delete (s : Store) (id : PlacementID) : Store where
  recs := s.recs.erase id
  keyed k q h := by
    rw [GoMap.getElem?_erase] at h
    split_ifs at h
    exact s.keyed k q h

/-- The records in the order of their ids. -/
def list (s : Store) : List Placement := s.recs.toList.map Prod.snd

@[simp] theorem get_empty (id : PlacementID) : empty.get id = none := by simp [get, empty]

theorem get_put (s : Store) (p : Placement) (id : PlacementID) :
    (s.put p).get id = if id = p.id then some p else s.get id :=
  GoMap.getElem?_insert s.recs p.id id p

@[simp] theorem get_put_self (s : Store) (p : Placement) : (s.put p).get p.id = some p := by
  rw [get_put, if_pos rfl]

theorem get_put_of_ne (s : Store) (p : Placement) {id : PlacementID} (h : id ≠ p.id) :
    (s.put p).get id = s.get id := by
  rw [get_put, if_neg h]

theorem get_delete (s : Store) (x id : PlacementID) :
    (s.delete x).get id = if id = x then none else s.get id :=
  GoMap.getElem?_erase s.recs x id

theorem ext_get {s s' : Store} (h : ∀ id, s.get id = s'.get id) : s = s' := by
  obtain ⟨recs, keyed⟩ := s
  obtain ⟨recs', keyed'⟩ := s'
  obtain rfl : recs = recs' := Std.ExtTreeMap.ext_getElem? fun {id} => h id
  rfl

theorem id_of_get {s : Store} {id : PlacementID} {p : Placement} (h : s.get id = some p) :
    p.id = id := s.keyed id p h

theorem mem_list {s : Store} {p : Placement} : p ∈ s.list ↔ s.get p.id = some p := by
  unfold list get
  rw [List.mem_map]
  constructor
  · rintro ⟨⟨k, q⟩, hmem, rfl⟩
    have hq := Std.ExtTreeMap.mem_toList_iff_getElem?_eq_some.mp hmem
    rw [s.keyed k q hq]
    exact hq
  · intro h
    exact ⟨(p.id, p), Std.ExtTreeMap.mem_toList_iff_getElem?_eq_some.mpr h, rfl⟩

theorem mem_list_of_get {s : Store} {id : PlacementID} {p : Placement} (h : s.get id = some p) :
    p ∈ s.list := by
  rw [mem_list, id_of_get h]
  exact h

theorem get_of_mem_list {s : Store} {id : PlacementID} {p : Placement} (h : p ∈ s.list)
    (hid : p.id = id) : s.get id = some p := by
  rw [← hid]
  exact mem_list.mp h

theorem pairwise_list (s : Store) : s.list.Pairwise fun p q => p.id < q.id := by
  unfold list
  rw [List.pairwise_map]
  refine (Std.ExtTreeMap.ordered_keys_toList (t := s.recs)).imp_of_mem fun {x y} hx hy hlt => ?_
  have hidx := s.keyed _ _ (Std.ExtTreeMap.mem_toList_iff_getElem?_eq_some.mp hx)
  have hidy := s.keyed _ _ (Std.ExtTreeMap.mem_toList_iff_getElem?_eq_some.mp hy)
  rw [hidx, hidy]
  exact compare_lt_iff_lt.mp hlt

/-- Some record has `P`: the one under the given id or another one. -/
theorem exists_mem_list_iff (s : Store) (id : PlacementID) (P : Placement → Prop) :
    (∃ p ∈ s.list, P p) ↔
      (∃ e, s.get id = some e ∧ P e) ∨ ∃ p ∈ s.list, p.id ≠ id ∧ P p := by
  constructor
  · rintro ⟨p, hp, h⟩
    by_cases hid : p.id = id
    · exact .inl ⟨p, get_of_mem_list hp hid, h⟩
    · exact .inr ⟨p, hp, hid, h⟩
  · rintro (⟨e, he, h⟩ | ⟨p, hp, -, h⟩)
    · exact ⟨e, mem_list_of_get he, h⟩
    · exact ⟨p, hp, h⟩

theorem exists_mem_list_put (s : Store) (d : Placement) (P : Placement → Prop) :
    (∃ p ∈ (s.put d).list, P p) ↔ P d ∨ ∃ p ∈ s.list, p.id ≠ d.id ∧ P p := by
  rw [exists_mem_list_iff _ d.id, get_put_self]
  refine or_congr (by simp) (exists_congr fun p => ?_)
  simp only [mem_list]
  refine ⟨fun ⟨hp, hid, h⟩ => ⟨?_, hid, h⟩, fun ⟨hp, hid, h⟩ => ⟨?_, hid, h⟩⟩
  · rwa [get_put_of_ne _ _ hid] at hp
  · rwa [get_put_of_ne _ _ hid]

end Store

end NodeAgent
