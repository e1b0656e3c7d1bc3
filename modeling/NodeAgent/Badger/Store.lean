import NodeAgent.Badger.Wire
import NodeAgent.Lib.Keyspace
import NodeAgent.Store

/-!
# The store

`internal/adapters/badger`: placements, cursors and the identity of the node as bytes in one
key-value store, each under keys of its own. Whatever calls are made, and whichever of them fail,
the answers are those of three maps that know nothing of bytes. The database, and what makes bytes of a
message, are any that keep to the laws that are asked of them.
-/

namespace NodeAgent.Badger

open Lib.Protowire Lib.Keyspace Protobuf

/-! ## Keys and numbers -/

/-- The placements lie under this prefix, the cursors under the next, and the identity under one key. -/
def prefixPlacement : String := "p/"

def prefixCursor : String := "c/"

def keyIdentityName : String := "i/self"

/-- `keyPlacement` of `keys.go`. -/
def keyPlacement (id : PlacementID) : Bytes := utf8 prefixPlacement ++ utf8 id

/-- `keyCursor` of `keys.go`. -/
def keyCursor (name : String) : Bytes := utf8 prefixCursor ++ utf8 name

/-- The lowest `n` bytes of a number, the highest first. -/
def bigEndian : ℕ → ℕ → Bytes
  | 0, _ => []
  | n + 1, v => bigEndian n (v / 256) ++ [UInt8.ofNat (v % 256)]

/-- `binary.BigEndian.PutUint64` into eight bytes. -/
def encodeUint64 (v : ℕ) : Bytes := bigEndian 8 v

/-- A value of another length is none of the store's. -/
def decodeUint64 (b : Bytes) : Option ℕ :=
  if b.length ≠ 8 then none else some (b.foldl (fun acc x => acc * 256 + x.toNat) 0)

/-! ## Calls -/

/-- What the outside says during a call: `ctx.Err()` each time it is asked, and the error of `db.View` or
`db.Update` that is not one of the function they are given. -/
structure Env where
  ctx : ℕ → Option GoError := fun _ => none
  db : Option GoError := none

/-- A read: `ctx.Err()` comes first, and an error of the transaction gets the name of the call. -/
def view {α : Type} (e : Env) (what : String) (txn : Except GoError α) : Except GoError α :=
  match e.ctx 0 with
  | some err => .error err
  | none =>
    match e.db with
    | some err => .error (.wrap what err)
    | none => txn.mapError (.wrap what)

/-- A key that is not there is no error. -/
def readItem {α : Type} (read : Bytes → Except GoError α) : Option Bytes → Except GoError (Option α)
  | none => .ok none
  | some data => (read data).map some

/-- What `GetCursor` makes of the bytes under a cursor's key. -/
def readCursor (name : String) (data : Bytes) : Except GoError ℕ :=
  match decodeUint64 data with
  | some v => .ok v
  | none => .error (.new ("badger: cursor " ++ quote name ++ " has invalid encoding (len=" ++
      toString data.length ++ ")"))

section Calls

variable [Timestamps] [Proto Agentv1.StoredPlacement] [Proto Agentv1.StoredIdentity]

/-- `unmarshalPlacement` with the bytes. -/
def readPlacement (data : Bytes) : Except GoError Placement :=
  match Proto.unmarshal (M := Agentv1.StoredPlacement) data with
  | .ok pb => .ok (unmarshalPlacement pb)
  | .error err => .error (.wrap "unmarshal stored placement" err)

/-- `unmarshalIdentity` with the bytes. -/
def readIdentity (data : Bytes) : Except GoError NodeIdentity :=
  match Proto.unmarshal (M := Agentv1.StoredIdentity) data with
  | .ok pb => .ok (unmarshalIdentity pb)
  | .error err => .error (.wrap "unmarshal stored identity" err)

/-- The walk over the records. `k` counts how often `ctx.Err()` has been asked. -/
def collect (ctx : ℕ → Option GoError) :
    ℕ → List Placement → List (Bytes × Bytes) → Except GoError (List Placement)
  | _, out, [] => .ok out
  | k, out, (_, val) :: rest =>
    match ctx k with
    | some err => .error err
    | none =>
      match readPlacement val with
      | .error err => .error err
      | .ok p => collect ctx (k + 1) (out ++ [p]) rest

variable {DB : Type} [KV DB]

/-- `ctx.Err()` before a write. -/
def unlessDone (e : Env) (db : DB) (k : Except GoError Unit × DB) : Except GoError Unit × DB :=
  match e.ctx 0 with
  | some err => (.error err, db)
  | none => k

/-- `db.Update`. An error of the transaction undoes it. -/
def update (e : Env) (what : String) (db : DB) (txn : DB → DB) : Except GoError Unit × DB :=
  match e.db with
  | some err => (.error (.wrap what err), db)
  | none => (.ok (), txn db)

/-- A write of the bytes of a message, if it has some. -/
def updateWith (e : Env) (marshalling putting : String) (db : DB) (data : Except GoError Bytes)
    (txn : Bytes → DB → DB) : Except GoError Unit × DB :=
  match data with
  | .error err => (.error (.wrap marshalling err), db)
  | .ok data => update e putting db (txn data)

/-- `Store.GetPlacement`; a placement that is not there is found to be absent, without an error. -/
def getPlacement (e : Env) (db : DB) (id : PlacementID) : Except GoError (Option Placement) :=
  view e ("badger: get placement " ++ id) (readItem readPlacement (KV.get db (keyPlacement id)))

/-- `Store.PutPlacement`: the message is marshalled before the transaction begins. -/
def putPlacement (e : Env) (db : DB) (p : Placement) : Except GoError Unit × DB :=
  unlessDone e db <|
    updateWith e ("badger: marshal placement " ++ p.id) ("badger: put placement " ++ p.id) db
      (Proto.marshal (marshalPlacement p)) fun data db => KV.set db (keyPlacement p.id) data

/-- `Store.DeletePlacement`; an absent key may be deleted too. -/
def deletePlacement (e : Env) (db : DB) (id : PlacementID) : Except GoError Unit × DB :=
  unlessDone e db <|
    update e ("badger: delete placement " ++ id) db fun db => KV.delete db (keyPlacement id)

/-- `Store.ListPlacements`: the iterator from the prefix on, while it is valid for the prefix. -/
def listPlacements (e : Env) (db : DB) : Except GoError (List Placement) :=
  view e "badger: list placements" (collect e.ctx 1 [] (KV.walk db (utf8 prefixPlacement)))

/-- `Store.GetCursor`; a cursor that is not there reads as 0. -/
def getCursor (e : Env) (db : DB) (name : String) : Except GoError ℕ :=
  view e ("badger: get cursor " ++ name)
    ((readItem (readCursor name) (KV.get db (keyCursor name))).map fun seq => seq.getD 0)

/-- `Store.PutCursor`. -/
def putCursor (e : Env) (db : DB) (name : String) (seq : ℕ) : Except GoError Unit × DB :=
  unlessDone e db <|
    update e ("badger: put cursor " ++ name) db fun db => KV.set db (keyCursor name) (encodeUint64 seq)

/-- `Store.GetIdentity`. -/
def getIdentity (e : Env) (db : DB) : Except GoError (Option NodeIdentity) :=
  view e "badger: get identity" (readItem readIdentity (KV.get db (utf8 keyIdentityName)))

/-- `Store.PutIdentity`. -/
def putIdentity (e : Env) (db : DB) (id : NodeIdentity) : Except GoError Unit × DB :=
  unlessDone e db <|
    updateWith e "badger: marshal identity" "badger: put identity" db
      (Proto.marshal (marshalIdentity id)) fun data db => KV.set db (utf8 keyIdentityName) data

end Calls

/-- The calls that the ports make on the store. -/
inductive Call
  | getPlacement (id : PlacementID)
  | putPlacement (p : Placement)
  | deletePlacement (id : PlacementID)
  | listPlacements
  | getCursor (name : String)
  | putCursor (name : String) (seq : ℕ)
  | getIdentity
  | putIdentity (id : NodeIdentity)
  deriving DecidableEq, Repr

/-- What they return, if they return no error. -/
inductive Reply
  | done
  | placement (p : Option Placement)
  | placements (ps : List Placement)
  | cursor (seq : ℕ)
  | identity (id : Option NodeIdentity)
  deriving DecidableEq, Repr

section Session

variable {DB : Type}

def done : Except GoError Unit × DB → Except GoError Reply × DB
  | (r, db) => (r.map fun _ => .done, db)

variable [Timestamps] [Proto Agentv1.StoredPlacement] [Proto Agentv1.StoredIdentity] [KV DB]

/-- A call on the store. -/
def exec (e : Env) (db : DB) : Call → Except GoError Reply × DB
  | .getPlacement id => ((getPlacement e db id).map .placement, db)
  | .putPlacement p => done (putPlacement e db p)
  | .deletePlacement id => done (deletePlacement e db id)
  | .listPlacements => ((listPlacements e db).map .placements, db)
  | .getCursor name => ((getCursor e db name).map .cursor, db)
  | .putCursor name seq => done (putCursor e db name seq)
  | .getIdentity => ((getIdentity e db).map .identity, db)
  | .putIdentity id => done (putIdentity e db id)

/-- The answers to calls that are made one after the other. -/
def session : List (Env × Call) → DB → List (Except GoError Reply) × DB
  | [], db => ([], db)
  | (e, c) :: rest, db =>
    let (r, db) := exec e db c
    let (rs, db) := session rest db
    (r :: rs, db)

end Session

/-! ## What the store is for -/

/-- A placement as it comes back: of the protocol only `vless` is kept. -/
def normal (p : Placement) : Placement :=
  { p with protocol := if p.protocol = protocolVLESS then protocolVLESS else "" }

/-- Three maps that know nothing of keys and bytes. -/
structure Kept where
  placements : Store := .empty
  cursors : GoMap ℕ := ∅
  identity : Option NodeIdentity := none

/-- A call on the maps, which cannot fail. -/
def Kept.perform (k : Kept) : Call → Reply × Kept
  | .getPlacement id => (.placement (k.placements.get id), k)
  | .putPlacement p => (.done, { k with placements := k.placements.put (normal p) })
  | .deletePlacement id => (.done, { k with placements := k.placements.delete id })
  | .listPlacements => (.placements k.placements.list, k)
  | .getCursor name => (.cursor (k.cursors[name]?.getD 0), k)
  | .putCursor name seq => (.done, { k with cursors := k.cursors.insert name seq })
  | .getIdentity => (.identity k.identity, k)
  | .putIdentity id => (.done, { k with identity := some id })

/-- The order of a list is not fixed. -/
def Reply.Same : Reply → Reply → Prop
  | .placements ps, .placements qs => ps.Perm qs
  | r, s => r = s

theorem Reply.Same.refl (r : Reply) : r.Same r := by
  cases r <;> first | rfl | exact List.Perm.refl _

section Answers

variable [Timestamps] [Proto Agentv1.StoredPlacement] [Proto Agentv1.StoredIdentity]

/-- The record of the call cannot be written. -/
def Call.Unwritable (err : GoError) : Call → Prop
  | .putPlacement p => Proto.marshal (marshalPlacement p) = .error err
  | .putIdentity id => Proto.marshal (marshalIdentity id) = .error err
  | _ => False

/-- Why a call may fail: the database, the context, or a record that cannot be written. -/
def Env.Causes (e : Env) (c : Call) (cause : GoError) : Prop :=
  e.db = some cause ∨ (∃ n, e.ctx n = some cause) ∨ c.Unwritable cause

/-- The error is such a cause, as it came or with the name of the call. -/
def Env.Reports (e : Env) (c : Call) (err : GoError) : Prop :=
  ∃ cause, e.Causes c cause ∧ (err = cause ∨ ∃ what, err = .wrap what cause)

/-- The answers are those of the maps. A call that fails does so for one of the causes, and leaves the
maps as they are. -/
inductive Kept.Answers : Kept → List (Env × Call) → List (Except GoError Reply) → Kept → Prop
  | nil {k : Kept} : Answers k [] [] k
  | failed {k k' : Kept} {e : Env} {c : Call} {err : GoError} {calls : List (Env × Call)}
      {rs : List (Except GoError Reply)} (herr : e.Reports c err) (hrest : Answers k calls rs k') :
      Answers k ((e, c) :: calls) (.error err :: rs) k'
  | done {k k' : Kept} {e : Env} {c : Call} {r : Reply} {calls : List (Env × Call)}
      {rs : List (Except GoError Reply)} (hr : r.Same (k.perform c).1)
      (hrest : Answers (k.perform c).2 calls rs k') :
      Answers k ((e, c) :: calls) (.ok r :: rs) k'

end Answers

/-! ## Tables -/

theorem foldl_bigEndian (n v : ℕ) :
    (bigEndian n v).foldl (fun acc x => acc * 256 + x.toNat) 0 = v % 256 ^ n := by
  induction n generalizing v with
  | zero => simp [bigEndian, Nat.mod_one]
  | succ n ih =>
    have hbyte : (UInt8.ofNat (v % 256)).toNat = v % 256 :=
      UInt8.toNat_ofNat_of_lt' (Nat.mod_lt v (by decide))
    rw [bigEndian, List.foldl_append, ih, List.foldl_cons, List.foldl_nil, hbyte, pow_succ',
      Nat.mod_mul]
    ring

theorem length_bigEndian (n v : ℕ) : (bigEndian n v).length = n := by
  induction n generalizing v with
  | zero => rfl
  | succ n ih => rw [bigEndian, List.length_append, ih, List.length_singleton]

theorem decodeUint64_encodeUint64 {v : ℕ} (h : v < 2 ^ 64) :
    decodeUint64 (encodeUint64 v) = some v := by
  rw [decodeUint64, encodeUint64, if_neg (not_not.mpr (length_bigEndian 8 v)), foldl_bigEndian,
    Nat.mod_eq_of_lt (h.trans_le (by decide))]

theorem keyPlacement_injective : Function.Injective keyPlacement :=
  fun _ _ h => utf8_injective (List.append_cancel_left h)

theorem keyCursor_injective : Function.Injective keyCursor :=
  fun _ _ h => utf8_injective (List.append_cancel_left h)

theorem utf8_prefixPlacement : utf8 prefixPlacement = [112, 47] := by decide

theorem utf8_prefixCursor : utf8 prefixCursor = [99, 47] := by decide

theorem utf8_keyIdentityName : utf8 keyIdentityName = [105, 47, 115, 101, 108, 102] := by decide

section Tables

variable [Timestamps]

/-- The placements as a table of the database. -/
def placementTable [Proto Agentv1.StoredPlacement] : Table PlacementID Placement where
  key := keyPlacement
  Stands data p := readPlacement data = .ok p
  injective := keyPlacement_injective

/-- The cursors as a table of the database. -/
def cursorTable : Table String ℕ where
  key := keyCursor
  Stands data seq := decodeUint64 data = some seq
  injective := keyCursor_injective

/-- The identity as a table with one row. -/
def identityTable [Proto Agentv1.StoredIdentity] : Table Unit NodeIdentity where
  key _ := utf8 keyIdentityName
  Stands data id := readIdentity data = .ok id
  injective := Function.injective_of_subsingleton _

end Tables

theorem head?_keyPlacement (id : PlacementID) : (keyPlacement id).head? = some 112 := by
  rw [keyPlacement, utf8_prefixPlacement]
  rfl

theorem head?_keyCursor (name : String) : (keyCursor name).head? = some 99 := by
  rw [keyCursor, utf8_prefixCursor]
  rfl

theorem head?_keyIdentityName : (utf8 keyIdentityName).head? = some 105 := by
  rw [utf8_keyIdentityName]
  rfl

theorem head?_of_prefixPlacement {k : Bytes} (h : utf8 prefixPlacement <+: k) :
    k.head? = some 112 := by
  obtain ⟨rest, rfl⟩ := h
  rw [utf8_prefixPlacement]
  rfl

theorem ne_of_head? {x y : Bytes} {a b : UInt8} (hx : x.head? = some a) (hy : y.head? = some b)
    (hne : a ≠ b) : x ≠ y := by
  rintro rfl
  exact hne (Option.some.inj (hx.symm.trans hy))

theorem placement_ne_cursor (id : PlacementID) (name : String) : keyPlacement id ≠ keyCursor name :=
  ne_of_head? (head?_keyPlacement id) (head?_keyCursor name) (by decide)

theorem placement_ne_identity (id : PlacementID) : keyPlacement id ≠ utf8 keyIdentityName :=
  ne_of_head? (head?_keyPlacement id) head?_keyIdentityName (by decide)

theorem cursor_ne_identity (name : String) : keyCursor name ≠ utf8 keyIdentityName :=
  ne_of_head? (head?_keyCursor name) head?_keyIdentityName (by decide)

/-! ## Refinement -/

/-- A cursor is a `uint64`. -/
def Call.Typed : Call → Prop
  | .putCursor _ seq => seq < 2 ^ 64
  | _ => True

theorem readItem_rel {α : Type} {R : Bytes → α → Prop} {read : Bytes → Except GoError α}
    (hread : ∀ data a, R data a → read data = .ok a) {x : Option Bytes} {y : Option α}
    (h : Option.Rel R x y) : readItem read x = .ok y := by
  cases h with
  | none => rfl
  | some h =>
    rw [readItem, hread _ _ h]
    rfl

theorem readCursor_of_decodeUint64 {name : String} {data : Bytes} {seq : ℕ}
    (h : decodeUint64 data = some seq) : readCursor name data = .ok seq := by
  rw [readCursor, h]

section Placement

variable [Timestamps] [Proto Agentv1.StoredPlacement]

theorem readPlacement_marshal {p : Placement} {data : Bytes}
    (h : Proto.marshal (marshalPlacement p) = .ok data) : readPlacement data = .ok (normal p) := by
  rw [readPlacement, Proto.unmarshal_marshal h]
  exact congrArg Except.ok (unmarshal_marshal p)

theorem collect_ok (ctx : ℕ → Option GoError) {read : Bytes → Placement}
    {items : List (Bytes × Bytes)} (hread : ∀ kv ∈ items, readPlacement kv.2 = .ok (read kv.2))
    (n : ℕ) (out : List Placement) :
    collect ctx n out items = .ok (out ++ items.map fun kv => read kv.2) ∨
      ∃ i err, ctx i = some err ∧ collect ctx n out items = .error err := by
  induction items generalizing n out with
  | nil => exact .inl (by simp [collect])
  | cons kv items ih =>
    obtain ⟨hkv, hitems⟩ := List.forall_mem_cons.mp hread
    rcases hctx : ctx n with _ | err
    · simp only [collect, hctx, hkv]
      rcases ih hitems (n + 1) (out ++ [read kv.2]) with h | h
      · exact .inl (by rw [h, List.map_cons, List.append_assoc, List.singleton_append])
      · exact .inr h
    · exact .inr ⟨n, err, hctx, by simp only [collect, hctx]⟩

end Placement

theorem readIdentity_marshal [Timestamps] [Proto Agentv1.StoredIdentity] {id : NodeIdentity}
    {data : Bytes}
    (h : Proto.marshal (marshalIdentity id) = .ok data) : readIdentity data = .ok id := by
  rw [readIdentity, Proto.unmarshal_marshal h]
  exact congrArg Except.ok (unmarshal_marshalIdentity id)

section Refines

variable [Timestamps] [Proto Agentv1.StoredPlacement] [Proto Agentv1.StoredIdentity] {DB : Type} [KV DB]

/-- The database holds the three maps, and nothing else under the prefix of the placements. -/
structure Refines (db : DB) (k : Kept) : Prop where
  placements : placementTable.Holds db k.placements.get
  cursors : cursorTable.Holds db fun name => k.cursors[name]?
  identity : identityTable.Holds db fun _ => k.identity
  keys : ∀ (x v : Bytes), KV.get db x = some v → utf8 prefixPlacement <+: x → ∃ id, x = keyPlacement id

variable {db : DB} {k : Kept} {e : Env}

theorem refines_empty : Refines (KV.empty : DB) {} where
  placements n := by
    rw [Store.get_empty]
    exact Table.Holds.empty n
  cursors n := by
    simp only [Std.ExtTreeMap.getElem?_empty]
    exact Table.Holds.empty n
  identity := Table.Holds.empty
  keys x v h := by
    rw [KV.get_empty] at h
    cases h

theorem Refines.readPlacement (h : Refines db k) (id : PlacementID) :
    readItem Badger.readPlacement (KV.get db (keyPlacement id)) = .ok (k.placements.get id) :=
  readItem_rel (fun _ _ hread => hread) (h.placements id)

theorem Refines.readCursor (h : Refines db k) (name : String) :
    readItem (Badger.readCursor name) (KV.get db (keyCursor name)) = .ok k.cursors[name]? :=
  readItem_rel (fun _ _ hseq => readCursor_of_decodeUint64 hseq) (h.cursors name)

theorem Refines.readIdentity (h : Refines db k) :
    readItem Badger.readIdentity (KV.get db (utf8 keyIdentityName)) = .ok k.identity :=
  readItem_rel (fun _ _ hread => hread) (h.identity ())

/-! ## The walk -/

/-- What the walk comes to is what lies under the keys of the placements. -/
theorem Refines.of_mem_walk (h : Refines db k) {x v : Bytes}
    (hmem : (x, v) ∈ KV.walk db (utf8 prefixPlacement)) :
    ∃ p ∈ k.placements.list, x = keyPlacement p.id ∧ Badger.readPlacement v = .ok p := by
  obtain ⟨hv, hx⟩ := KV.mem_walk.mp hmem
  obtain ⟨id, rfl⟩ := h.keys x v hv hx
  obtain ⟨p, hp, hread⟩ := h.placements.value_of_get hv
  rw [← Store.id_of_get hp]
  exact ⟨p, Store.mem_list_of_get hp, rfl, hread⟩

theorem Refines.mem_walk (h : Refines db k) {p : Placement} (hp : p ∈ k.placements.list) :
    ∃ v, (keyPlacement p.id, v) ∈ KV.walk db (utf8 prefixPlacement) ∧
      Badger.readPlacement v = .ok p := by
  obtain ⟨v, hv, hread⟩ := h.placements.get_of_value (Store.mem_list.mp hp)
  exact ⟨v, KV.mem_walk.mpr ⟨hv, List.prefix_append _ _⟩, hread⟩

theorem Refines.perm_walk (h : Refines db k) :
    ∃ read : Bytes → Placement,
      (∀ kv ∈ KV.walk db (utf8 prefixPlacement), Badger.readPlacement kv.2 = .ok (read kv.2)) ∧
        ((KV.walk db (utf8 prefixPlacement)).map fun kv => read kv.2).Perm k.placements.list := by
  -- every value is that of one placement, which is the one that is read
  let read : Bytes → Placement := fun data => ((Badger.readPlacement data).toOption).getD default
  have hget : ∀ {v : Bytes} {p : Placement}, Badger.readPlacement v = .ok p → read v = p := by
    intro v p hv
    simp only [read, hv]
    rfl
  refine ⟨read, fun kv hkv => ?_, ?_⟩
  · obtain ⟨p, -, -, hread⟩ := h.of_mem_walk hkv
    rw [hread, hget hread]
  · have hnodup : ((KV.walk db (utf8 prefixPlacement)).map fun kv => read kv.2).Nodup := by
      have hkeys := List.pairwise_map.mp (KV.nodup_walk db (utf8 prefixPlacement))
      refine List.pairwise_map.mpr (hkeys.imp_of_mem fun {x y} hx hy hne heq => hne ?_)
      obtain ⟨p, -, hkey, hread⟩ := h.of_mem_walk hx
      obtain ⟨q, -, hkey', hread'⟩ := h.of_mem_walk hy
      rw [hget hread, hget hread'] at heq
      rw [hkey, hkey', heq]
    have hnodup' : k.placements.list.Nodup := by
      refine k.placements.pairwise_list.imp fun {p q} hlt heq => ?_
      rw [heq] at hlt
      exact lt_irrefl q.id hlt
    refine (List.perm_ext_iff_of_nodup hnodup hnodup').mpr fun p => ?_
    rw [List.mem_map]
    constructor
    · rintro ⟨kv, hkv, rfl⟩
      obtain ⟨p, hp, -, hread⟩ := h.of_mem_walk hkv
      rwa [hget hread]
    · intro hp
      obtain ⟨v, hmem, hread⟩ := h.mem_walk hp
      exact ⟨_, hmem, hget hread⟩

/-! ## Calls keep the refinement -/

/-- A call has the answer of the maps, or it fails for one of the causes and changes nothing. -/
def Simulates (e : Env) (db : DB) (k : Kept) (c : Call) (out : Except GoError Reply × DB) : Prop :=
  (∃ r db', out = (.ok r, db') ∧ r.Same (k.perform c).1 ∧ Refines db' (k.perform c).2) ∨
    ∃ err, out = (.error err, db) ∧ e.Reports c err

variable {c : Call}

theorem reports_ctx {n : ℕ} {err : GoError} (h : e.ctx n = some err) : e.Reports c err :=
  ⟨err, .inr (.inl ⟨n, h⟩), .inl rfl⟩

theorem reports_wrap {cause : GoError} (what : String) (h : e.Causes c cause) :
    e.Reports c (.wrap what cause) :=
  ⟨cause, h, .inr ⟨what, rfl⟩⟩

theorem view_cases (c : Call) {α : Type} (what : String) (txn : Except GoError α) :
    view e what txn = txn.mapError (.wrap what) ∨
      ∃ err, view e what txn = .error err ∧ e.Reports c err := by
  unfold view
  rcases hctx : e.ctx 0 with _ | err
  · rcases hdb : e.db with _ | err
    · exact .inl rfl
    · exact .inr ⟨_, rfl, reports_wrap what (.inl hdb)⟩
  · exact .inr ⟨err, rfl, reports_ctx hctx⟩

theorem simulates_read {α : Type} {a : α} {mk : α → Reply} {what : String}
    {txn : Except GoError α} (h : Refines db k) (htxn : txn = .ok a)
    (hperform : k.perform c = (mk a, k)) : Simulates e db k c ((view e what txn).map mk, db) := by
  subst htxn
  rcases view_cases (e := e) c what (.ok a : Except GoError α) with hview | ⟨err, hview, herr⟩
  · refine .inl ⟨mk a, db, by rw [hview]; rfl, ?_, ?_⟩
    · rw [hperform]
      exact .refl _
    · rw [hperform]
      exact h
  · exact .inr ⟨err, by rw [hview]; rfl, herr⟩

theorem simulates_unlessDone {out : Except GoError Unit × DB} (h : Simulates e db k c (done out)) :
    Simulates e db k c (done (unlessDone e db out)) := by
  unfold unlessDone
  rcases hctx : e.ctx 0 with _ | err
  · exact h
  · exact .inr ⟨err, rfl, reports_ctx hctx⟩

theorem simulates_update {what : String} {txn : DB → DB}
    (hperform : (k.perform c).1 = .done) (h : Refines (txn db) (k.perform c).2) :
    Simulates e db k c (done (update e what db txn)) := by
  unfold update
  rcases hdb : e.db with _ | err
  · exact .inl ⟨.done, txn db, rfl, by rw [hperform]; rfl, h⟩
  · exact .inr ⟨_, rfl, reports_wrap what (.inl hdb)⟩

theorem simulates_updateWith {marshalling putting : String} {data : Except GoError Bytes}
    {txn : Bytes → DB → DB} (hperform : (k.perform c).1 = .done)
    (herr : ∀ err, data = .error err → c.Unwritable err)
    (h : ∀ bytes, data = .ok bytes → Refines (txn bytes db) (k.perform c).2) :
    Simulates e db k c (done (updateWith e marshalling putting db data txn)) := by
  unfold updateWith
  cases data with
  | error err => exact .inr ⟨_, rfl, reports_wrap marshalling (.inr (.inr (herr err rfl)))⟩
  | ok bytes => exact simulates_update hperform (h bytes rfl)

theorem simulates_listPlacements (h : Refines db k) :
    Simulates e db k .listPlacements (exec e db .listPlacements) := by
  obtain ⟨read, hread, hperm⟩ := h.perm_walk
  unfold exec listPlacements
  rcases view_cases (e := e) .listPlacements "badger: list placements"
    (collect e.ctx 1 [] (KV.walk db (utf8 prefixPlacement))) with hview | ⟨err, hview, herr⟩
  · rw [hview]
    rcases collect_ok e.ctx hread 1 [] with hok | ⟨i, err, hctx, hfail⟩
    · rw [hok]
      exact .inl ⟨_, db, rfl, hperm, h⟩
    · rw [hfail]
      exact .inr ⟨_, rfl, reports_wrap _ (.inr (.inl ⟨i, hctx⟩))⟩
  · rw [hview]
    exact .inr ⟨err, rfl, herr⟩

theorem Refines.putPlacement (h : Refines db k) {p : Placement} {data : Bytes}
    (hdata : Proto.marshal (marshalPlacement p) = .ok data) :
    Refines (KV.set db (keyPlacement p.id) data) (k.perform (.putPlacement p)).2 where
  placements :=
    h.placements.set (n := p.id) (v := normal p) (readPlacement_marshal hdata)
      fun id => Store.get_put _ _ id
  cursors := h.cursors.set_other (fun name => (placement_ne_cursor p.id name).symm) _
  identity := h.identity.set_other (fun _ => (placement_ne_identity p.id).symm) _
  keys x v hx hpre := by
    rw [KV.get_set] at hx
    split_ifs at hx with hkey
    · exact ⟨p.id, hkey⟩
    · exact h.keys x v hx hpre

theorem Refines.deletePlacement (h : Refines db k) (id : PlacementID) :
    Refines (KV.delete db (keyPlacement id)) (k.perform (.deletePlacement id)).2 where
  placements := h.placements.delete (n := id) fun x => Store.get_delete _ _ x
  cursors := h.cursors.delete_other fun name => (placement_ne_cursor id name).symm
  identity := h.identity.delete_other fun _ => (placement_ne_identity id).symm
  keys x v hx hpre := by
    rw [KV.get_delete] at hx
    split_ifs at hx
    exact h.keys x v hx hpre

theorem Refines.putCursor (h : Refines db k) (name : String) {seq : ℕ} (hseq : seq < 2 ^ 64) :
    Refines (KV.set db (keyCursor name) (encodeUint64 seq)) (k.perform (.putCursor name seq)).2 where
  placements := h.placements.set_other (fun id => placement_ne_cursor id name) _
  cursors :=
    h.cursors.set (n := name) (v := seq) (decodeUint64_encodeUint64 hseq)
      fun x => GoMap.getElem?_insert _ _ _ _
  identity := h.identity.set_other (fun _ => (cursor_ne_identity name).symm) _
  keys x v hx hpre := by
    rw [KV.get_set] at hx
    split_ifs at hx with hkey
    · exact absurd hkey
        (ne_of_head? (head?_of_prefixPlacement hpre) (head?_keyCursor name) (by decide))
    · exact h.keys x v hx hpre

theorem Refines.putIdentity (h : Refines db k) {id : NodeIdentity} {data : Bytes}
    (hdata : Proto.marshal (marshalIdentity id) = .ok data) :
    Refines (KV.set db (utf8 keyIdentityName) data) (k.perform (.putIdentity id)).2 where
  placements := h.placements.set_other (fun x => placement_ne_identity x) _
  cursors := h.cursors.set_other (fun name => cursor_ne_identity name) _
  identity := h.identity.set (n := ()) (v := id) (readIdentity_marshal hdata) fun _ => rfl
  keys x v hx hpre := by
    rw [KV.get_set] at hx
    split_ifs at hx with hkey
    · exact absurd hkey
        (ne_of_head? (head?_of_prefixPlacement hpre) head?_keyIdentityName (by decide))
    · exact h.keys x v hx hpre

theorem Refines.exec (h : Refines db k) {c : Call} (hc : c.Typed) (e : Env) :
    Simulates e db k c (exec e db c) := by
  cases c with
  | getPlacement id => exact simulates_read h (h.readPlacement id) rfl
  | putPlacement p =>
    exact simulates_unlessDone (simulates_updateWith rfl (fun _ herr => herr)
      fun _ hdata => h.putPlacement hdata)
  | deletePlacement id => exact simulates_unlessDone (simulates_update rfl (h.deletePlacement id))
  | listPlacements => exact simulates_listPlacements h
  | getCursor name =>
    exact simulates_read h (congrArg (Except.map fun seq => seq.getD 0) (h.readCursor name)) rfl
  | putCursor name seq => exact simulates_unlessDone (simulates_update rfl (h.putCursor name hc))
  | getIdentity => exact simulates_read h h.readIdentity rfl
  | putIdentity id =>
    exact simulates_unlessDone (simulates_updateWith rfl (fun _ herr => herr)
      fun _ hdata => h.putIdentity hdata)

theorem Refines.session {calls : List (Env × Call)} (h : Refines db k)
    (hcalls : ∀ c ∈ calls, c.2.Typed) :
    ∃ k', k.Answers calls (session calls db).1 k' ∧ Refines (session calls db).2 k' := by
  induction calls generalizing db k with
  | nil => exact ⟨k, .nil, h⟩
  | cons c calls ih =>
    obtain ⟨e, c⟩ := c
    obtain ⟨hc, hcalls⟩ := List.forall_mem_cons.mp hcalls
    rcases h.exec hc e with ⟨r, db', hout, hr, h'⟩ | ⟨err, hout, herr⟩
    · obtain ⟨k', hanswers, hrefines⟩ := ih h' hcalls
      rw [Badger.session, hout]
      exact ⟨k', .done hr hanswers, hrefines⟩
    · obtain ⟨k', hanswers, hrefines⟩ := ih h hcalls
      rw [Badger.session, hout]
      exact ⟨k', .failed herr hanswers, hrefines⟩

/-- Whatever calls are made on a fresh store, and whichever of them fail, the answers are those of
the maps, in which a placement is kept without a protocol that is not `vless`. -/
theorem store_keeps_records {calls : List (Env × Call)} (h : ∀ c ∈ calls, c.2.Typed) :
    ∃ k, Kept.Answers {} calls (Badger.session calls (KV.empty : DB)).1 k := by
  have hempty : Refines (KV.empty : DB) {} := refines_empty
  obtain ⟨k, hanswers, -⟩ := hempty.session h
  exact ⟨k, hanswers⟩

end Refines

section Fixed

open scoped Eval

/-- A placement with a protocol that is not kept. -/
def trojan : Placement := { id := "a", opVersion := 7, protocol := "trojan", updatedAt := 5 }

/-- A placement and a cursor of one name, and a write that fails. -/
def writes : List (Env × Call) :=
  [({}, .putPlacement trojan), ({}, .putCursor "a" 9),
    ({ db := some (.new "disk full") }, .putCursor "a" 10),
    ({}, .getPlacement "a"), ({}, .getCursor "a"), ({}, .listPlacements)]

theorem typed_writes : ∀ c ∈ writes, c.2.Typed := by
  simp [writes, Call.Typed]

theorem Reply.Same.eq {r s : Reply} (h : r.Same s)
    (hs : ∀ ps, s = .placements ps → ∃ p, ps = [p]) : r = s := by
  cases s with
  | placements ps =>
    obtain ⟨p, rfl⟩ := hs ps rfl
    cases r with
    | placements qs => rw [List.perm_singleton.mp h]
    | _ => cases h
  | _ => cases r <;> exact h

theorem Kept.Answers.ok {k k' : Kept} {c : Call} {calls : List (Env × Call)}
    {rs : List (Except GoError Reply)} (h : k.Answers (({}, c) :: calls) rs k')
    (hc : ∀ err, ¬ c.Unwritable err) :
    ∃ r rs', rs = .ok r :: rs' ∧ r.Same (k.perform c).1 ∧ (k.perform c).2.Answers calls rs' k' := by
  cases h with
  | failed herr _ =>
    obtain ⟨cause, hcause | ⟨n, hctx⟩ | hwrite, -⟩ := herr
    · cases hcause
    · cases hctx
    · exact absurd hwrite (hc cause)
  | done hr hrest => exact ⟨_, _, rfl, hr, hrest⟩

theorem writable_trojan (err : GoError) : ¬ (Call.putPlacement trojan).Unwritable err := by
  have hfits : (marshalPlacement trojan).Fits := by decide
  intro h
  have h' : (if (marshalPlacement trojan).Fits then .ok (marshalPlacement trojan).marshal
      else .error (.new "proto: message does not fit") : Except GoError Bytes) = .error err := h
  rw [if_pos hfits] at h'
  cases h'

theorem store_keeps_records_writes :
    (∀ c ∈ writes, c.2.Typed) ∧
      (session writes (KV.empty : Db)).1 =
        [.ok .done, .ok .done, .error (.wrap "badger: put cursor a" (.new "disk full")),
          .ok (.placement (some { trojan with protocol := "" })), .ok (.cursor 9),
          .ok (.placements [{ trojan with protocol := "" }])] := by
  refine ⟨typed_writes, ?_⟩
  obtain ⟨k, h⟩ : ∃ k, Kept.Answers {} writes (session writes (KV.empty : Db)).1 k :=
    store_keeps_records typed_writes
  have hthird : ((session writes (KV.empty : Db)).1)[2]? =
      some (.error (.wrap "badger: put cursor a" (.new "disk full"))) := rfl
  generalize (session writes (KV.empty : Db)).1 = rs at h hthird ⊢
  obtain ⟨r₁, rs₁, rfl, hr₁, h₁⟩ := h.ok writable_trojan
  obtain ⟨r₂, rs₂, rfl, hr₂, h₂⟩ := h₁.ok fun _ hw => hw
  cases h₂ with
  | done _ _ => cases hthird
  | failed _ h₃ =>
    cases hthird
    obtain ⟨r₄, rs₄, rfl, hr₄, h₄⟩ := h₃.ok fun _ hw => hw
    obtain ⟨r₅, rs₅, rfl, hr₅, h₅⟩ := h₄.ok fun _ hw => hw
    obtain ⟨r₆, rs₆, rfl, hr₆, h₆⟩ := h₅.ok fun _ hw => hw
    cases h₆
    have hlist : (Store.empty.put (normal trojan)).list = [{ trojan with protocol := "" }] := by
      decide +kernel
    have hone : ∀ ps, Reply.placements (Store.empty.put (normal trojan)).list = .placements ps →
        ∃ p, ps = [p] := by
      rintro ps ⟨⟩
      exact ⟨_, hlist⟩
    rw [hr₁.eq (by intro _ hps; cases hps), hr₂.eq (by intro _ hps; cases hps),
      hr₄.eq (by intro _ hps; cases hps), hr₅.eq (by intro _ hps; cases hps), hr₆.eq hone]
    decide +kernel

end Fixed

end NodeAgent.Badger
