import Mathlib

/-!
# Tables in a key-value store

A store has byte strings under byte strings. A table lies in it: it has a key for every name, and what
lies there stands for a value. What a table holds is a map from names to values; a write to the table is
an update of the map, and a write elsewhere leaves the map alone. In a store that is sorted, the keys that
begin with a text lie together, so a walk from the text on finds them all.
-/

namespace Lib

/-! ## Lexicographic order -/

section Lex

variable {α : Type*} [Ord α]

theorem compare_cons_cons (a b : α) (as bs : List α) :
    compare (a :: as) (b :: bs) = (compare a b).then (compare as bs) :=
  List.compareLex_cons_cons

theorem compare_nil_cons (b : α) (bs : List α) : compare [] (b :: bs) = .lt :=
  List.compareLex_nil_cons

variable [Std.LawfulEqOrd α] {p k k' : List α}

theorem compare_ne_lt_of_isPrefix (h : p <+: k) : compare k p ≠ .lt := by
  induction p generalizing k with
  | nil =>
    cases k with
    | nil => simp
    | cons b k => simp [compare, List.compareLex]
  | cons a p ih =>
    obtain ⟨rest, rfl⟩ := h
    rw [List.cons_append, compare_cons_cons, Std.ReflOrd.compare_self]
    exact ih (List.prefix_append p rest)

/-- Between a text and a key that begins with it there are only such keys. -/
theorem isPrefix_of_between (hle : compare k p ≠ .lt) (hlt : compare k k' = .lt) (h : p <+: k') :
    p <+: k := by
  induction p generalizing k k' with
  | nil => exact List.nil_prefix
  | cons a p ih =>
    obtain ⟨rest, rfl⟩ := h
    cases k with
    | nil => exact absurd (compare_nil_cons a p) hle
    | cons b k =>
      rw [List.cons_append, compare_cons_cons] at hlt
      rw [compare_cons_cons] at hle
      obtain hba | hba | hba : compare b a = .lt ∨ compare b a = .eq ∨ compare b a = .gt := by
        cases compare b a <;> simp
      · rw [hba] at hle
        exact absurd rfl hle
      · obtain rfl := Std.LawfulEqOrd.eq_of_compare hba
        rw [hba] at hle hlt
        exact List.cons_prefix_cons.mpr ⟨rfl, ih hle hlt (List.prefix_append p rest)⟩
      · rw [hba] at hlt
        cases hlt

end Lex

namespace Keyspace

abbrev Bytes := List UInt8

/-- What is asked of a store. A walk visits every key with a text in front once. -/
class KV (DB : Type*) where
  empty : DB
  get : DB → Bytes → Option Bytes
  set : DB → Bytes → Bytes → DB
  delete : DB → Bytes → DB
  walk : DB → Bytes → List (Bytes × Bytes)
  get_empty : ∀ k, get empty k = none
  get_set : ∀ db k v x, get (set db k v) x = if x = k then some v else get db x
  get_delete : ∀ db k x, get (delete db k) x = if x = k then none else get db x
  mem_walk : ∀ {db p k v}, (k, v) ∈ walk db p ↔ get db k = some v ∧ p <+: k
  nodup_walk : ∀ db p, ((walk db p).map Prod.fst).Nodup

/-! ## A sorted store -/

/-- A store that keeps its keys in lexicographic order. -/
abbrev Db := Std.ExtTreeMap Bytes Bytes compare

/-- The records from `p` on as long as their keys begin with `p`. -/
def scan (p : Bytes) (db : Db) : List (Bytes × Bytes) :=
  (db.toList.dropWhile fun kv => compare kv.1 p == .lt).takeWhile fun kv => p.isPrefixOf kv.1

section Scan

variable {p : Bytes} {l : List (Bytes × Bytes)}

theorem takeWhile_eq_filter (hle : ∀ kv ∈ l, compare kv.1 p ≠ .lt)
    (hl : l.Pairwise fun x y => compare x.1 y.1 = .lt) :
    (l.takeWhile fun kv => p.isPrefixOf kv.1) = l.filter fun kv => p.isPrefixOf kv.1 := by
  induction l with
  | nil => rfl
  | cons x l ih =>
    obtain ⟨hx, hl⟩ := List.pairwise_cons.mp hl
    obtain ⟨hlex, hle⟩ := List.forall_mem_cons.mp hle
    by_cases h : p.isPrefixOf x.1
    · rw [List.takeWhile_cons, List.filter_cons, if_pos h, if_pos h, ih hle hl]
    · rw [List.takeWhile_cons, List.filter_cons, if_neg h, if_neg h, eq_comm,
        List.filter_eq_nil_iff]
      intro y hy hpre
      -- a later key that begins with the text would take this one along
      refine h (List.isPrefixOf_iff_prefix.mpr ?_)
      exact isPrefix_of_between hlex (hx y hy) (List.isPrefixOf_iff_prefix.mp hpre)

theorem scan_eq_filter (p : Bytes) (db : Db) :
    scan p db = db.toList.filter fun kv => p.isPrefixOf kv.1 := by
  have hl := Std.ExtTreeMap.ordered_keys_toList (t := db)
  unfold scan
  generalize db.toList = l at hl ⊢
  induction l with
  | nil => rfl
  | cons x l ih =>
    obtain ⟨hx, hl'⟩ := List.pairwise_cons.mp hl
    by_cases h : compare x.1 p = .lt
    · have hpre : ¬ p.isPrefixOf x.1 :=
        fun hpre => compare_ne_lt_of_isPrefix (List.isPrefixOf_iff_prefix.mp hpre) h
      rw [List.dropWhile_cons, List.filter_cons, if_pos (beq_iff_eq.mpr h), if_neg hpre, ih hl']
    · rw [List.dropWhile_cons, if_neg (mt beq_iff_eq.mp h)]
      refine takeWhile_eq_filter (List.forall_mem_cons.mpr ⟨h, fun y hy hlt => ?_⟩) hl
      exact h (Std.TransCmp.lt_trans (hx y hy) hlt)

theorem mem_scan {db : Db} {k v : Bytes} :
    (k, v) ∈ scan p db ↔ db[k]? = some v ∧ p <+: k := by
  rw [scan_eq_filter, List.mem_filter, Std.ExtTreeMap.mem_toList_iff_getElem?_eq_some,
    List.isPrefixOf_iff_prefix]

theorem pairwise_scan (p : Bytes) (db : Db) :
    (scan p db).Pairwise fun x y => compare x.1 y.1 = .lt := by
  rw [scan_eq_filter]
  exact Std.ExtTreeMap.ordered_keys_toList.filter _

instance : KV Db where
  empty := ∅
  get db k := db[k]?
  set := Std.ExtTreeMap.insert
  delete := Std.ExtTreeMap.erase
  walk db p := scan p db
  get_empty k := by simp
  get_set db k v x := by
    rw [Std.ExtTreeMap.getElem?_insert]
    simp only [Std.LawfulEqCmp.compare_eq_iff_eq, eq_comm (a := x)]
  get_delete db k x := by
    rw [Std.ExtTreeMap.getElem?_erase]
    simp only [Std.LawfulEqCmp.compare_eq_iff_eq, eq_comm (a := x)]
  mem_walk := mem_scan
  nodup_walk db p := by
    refine List.pairwise_map.mpr ((pairwise_scan p db).imp fun {x y} hlt heq => ?_)
    rw [heq, Std.ReflOrd.compare_self] at hlt
    cases hlt

end Scan

/-! ## Tables -/

/-- A part of the store, with a key for every name. -/
structure Table (K V : Type*) where
  key : K → Bytes
  /-- The bytes that a value is read from. -/
  Stands : Bytes → V → Prop
  injective : Function.Injective key

section Table

variable {K V DB : Type*} [KV DB] {T : Table K V} {db : DB} {m : K → Option V}

/-- The store has the values of the map under the keys of their names. -/
def Table.Holds (T : Table K V) (db : DB) (m : K → Option V) : Prop :=
  ∀ n, Option.Rel T.Stands (KV.get db (T.key n)) (m n)

theorem Table.Holds.value_of_get (h : T.Holds db m) {n : K} {bytes : Bytes}
    (hget : KV.get db (T.key n) = some bytes) : ∃ v, m n = some v ∧ T.Stands bytes v := by
  have hrel := h n
  rw [hget] at hrel
  cases hm : m n with
  | none =>
    rw [hm] at hrel
    cases hrel
  | some v =>
    rw [hm] at hrel
    obtain ⟨hv⟩ := hrel
    exact ⟨v, rfl, hv⟩

theorem Table.Holds.get_of_value (h : T.Holds db m) {n : K} {v : V} (hm : m n = some v) :
    ∃ bytes, KV.get db (T.key n) = some bytes ∧ T.Stands bytes v := by
  have hrel := h n
  rw [hm] at hrel
  cases hget : KV.get db (T.key n) with
  | none =>
    rw [hget] at hrel
    cases hrel
  | some bytes =>
    rw [hget] at hrel
    obtain ⟨hv⟩ := hrel
    exact ⟨bytes, rfl, hv⟩

theorem Table.Holds.set [DecidableEq K] (h : T.Holds db m) {n : K} {v : V} {bytes : Bytes}
    (hv : T.Stands bytes v) {m' : K → Option V} (hm : ∀ x, m' x = if x = n then some v else m x) :
    T.Holds (KV.set db (T.key n) bytes) m' := by
  intro x
  rw [KV.get_set, hm x]
  by_cases hx : x = n
  · rw [if_pos (congrArg T.key hx), if_pos hx]
    exact .some hv
  · rw [if_neg fun heq => hx (T.injective heq), if_neg hx]
    exact h x

theorem Table.Holds.delete [DecidableEq K] (h : T.Holds db m) {n : K} {m' : K → Option V}
    (hm : ∀ x, m' x = if x = n then none else m x) : T.Holds (KV.delete db (T.key n)) m' := by
  intro x
  rw [KV.get_delete, hm x]
  by_cases hx : x = n
  · rw [if_pos (congrArg T.key hx), if_pos hx]
    exact .none
  · rw [if_neg fun heq => hx (T.injective heq), if_neg hx]
    exact h x

theorem Table.Holds.set_other (h : T.Holds db m) {k : Bytes} (hk : ∀ n, T.key n ≠ k)
    (v : Bytes) : T.Holds (KV.set db k v) m := by
  intro n
  rw [KV.get_set, if_neg (hk n)]
  exact h n

theorem Table.Holds.delete_other (h : T.Holds db m) {k : Bytes} (hk : ∀ n, T.key n ≠ k) :
    T.Holds (KV.delete db k) m := by
  intro n
  rw [KV.get_delete, if_neg (hk n)]
  exact h n

theorem Table.Holds.empty : T.Holds (KV.empty : DB) fun _ => none := by
  intro n
  rw [KV.get_empty]
  exact .none

end Table

end Keyspace

end Lib
