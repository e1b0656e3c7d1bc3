import NodeAgent.Badger.Codec
import NodeAgent.Lib.Protomsg

/-!
# The bytes of stored records

`proto.Marshal` and `proto.Unmarshal` of the messages of `stored.proto`: a placement and the identity
of the node, by the wire format. A record whose numbers and times fit the fields of its message is read
from its bytes as it was written, so the two are such a pair as the store needs.
-/

namespace NodeAgent.Badger

open Lib.Protowire Protobuf

/-! ## Timestamps -/

section Timestamp

/-- The fields of `google.protobuf.Timestamp`. -/
def timestampFields (ts : Timestamp) : List Field :=
  uintField 1 (ofInt64 ts.seconds) ++ uintField 2 (ofInt64 ts.nanos)

def marshalTimestamp (ts : Timestamp) : List UInt8 := (timestampFields ts).flatMap Field.encode

def unmarshalTimestamp (data : List UInt8) : Option Timestamp :=
  (parse data).map fun fs =>
    { seconds := toInt64 (getUint 1 fs), nanos := toInt32 (getUint 2 fs) }

/-- A field that may be absent. -/
def unmarshalOptTimestamp : Option (List UInt8) → Option (Option Timestamp)
  | none => some none
  | some data => (unmarshalTimestamp data).map some

/-- `int64` seconds and `int32` nanoseconds. -/
def TimestampFits (ts : Timestamp) : Prop :=
  (-2 ^ 63 ≤ ts.seconds ∧ ts.seconds < 2 ^ 63) ∧ -2 ^ 31 ≤ ts.nanos ∧ ts.nanos < 2 ^ 31

instance (ts : Timestamp) : Decidable (TimestampFits ts) := inferInstanceAs (Decidable (_ ∧ _))

variable {ts : Timestamp}

theorem valid_timestampFields : ∀ f ∈ timestampFields ts, f.Valid :=
  List.forall_mem_append.mpr ⟨valid_uintField (by decide) (ofInt64_lt _),
    valid_uintField (by decide) (ofInt64_lt _)⟩

theorem unmarshal_marshalTimestamp (h : TimestampFits ts) :
    unmarshalTimestamp (marshalTimestamp ts) = some ts := by
  obtain ⟨⟨hslo, hshi⟩, hnlo, hnhi⟩ := h
  have hseconds : getUint 1 (timestampFields ts) = ofInt64 ts.seconds :=
    getUint_of_varints (by simp [timestampFields])
  have hnanos : getUint 2 (timestampFields ts) = ofInt64 ts.nanos :=
    getUint_of_varints (by simp [timestampFields])
  rw [unmarshalTimestamp, marshalTimestamp, parse_encode valid_timestampFields, Option.map_some,
    hseconds, hnanos, toInt64_ofInt64 hslo hshi, toInt32_ofInt64 hnlo hnhi]

theorem length_encode_uintField {number x : ℕ} (hnumber : ValidNumber number) (hx : x < 2 ^ 64) :
    ((uintField number x).flatMap Field.encode).length ≤ 20 := by
  have hkey : number * 8 < 128 ^ 10 := by
    have hlt := hnumber.2
    omega
  unfold uintField
  split_ifs with h
  · simp
  · rw [List.flatMap_singleton, Field.encode, List.length_append]
    exact add_le_add (length_putUvarint (n := 9) hkey)
      (length_putUvarint (n := 9) (hx.trans (by decide)))

theorem length_marshalTimestamp (ts : Timestamp) : (marshalTimestamp ts).length < 2 ^ 64 := by
  have hseconds := length_encode_uintField (show ValidNumber 1 by decide) (ofInt64_lt ts.seconds)
  have hnanos := length_encode_uintField (show ValidNumber 2 by decide) (ofInt64_lt ts.nanos)
  rw [marshalTimestamp, timestampFields, List.flatMap_append, List.length_append]
  omega

theorem unmarshalOptTimestamp_map {t : Option Timestamp} (h : ∀ ts ∈ t, TimestampFits ts) :
    unmarshalOptTimestamp (t.map marshalTimestamp) = some t := by
  cases t with
  | none => rfl
  | some ts =>
    rw [Option.map_some, unmarshalOptTimestamp, unmarshal_marshalTimestamp (h ts rfl),
      Option.map_some]

end Timestamp

/-! ## Enumerations -/

namespace Agentv1

/-- The numbers that the enumerations of `stored.proto` have on the wire. -/
def DesiredState.number : DesiredState → ℕ
  | .unspecified => 0
  | .active => 1
  | .inactive => 2

/-- A number that the tables do not have reads as the unspecified one. -/
def DesiredState.ofNumber : ℤ → DesiredState
  | 1 => .active
  | 2 => .inactive
  | _ => .unspecified

def AppliedState.number : AppliedState → ℕ
  | .unspecified => 0
  | .pending => 1
  | .applied => 2
  | .error => 3

def AppliedState.ofNumber : ℤ → AppliedState
  | 1 => .pending
  | 2 => .applied
  | 3 => .error
  | _ => .unspecified

def TransportKind.number : TransportKind → ℕ
  | .unspecified => 0
  | .ws => 1
  | .xhttp => 2
  | .tcp => 3
  | .reality => 4

def TransportKind.ofNumber : ℤ → TransportKind
  | 1 => .ws
  | 2 => .xhttp
  | 3 => .tcp
  | 4 => .reality
  | _ => .unspecified

def Protocol.number : Protocol → ℕ
  | .unspecified => 0
  | .vless => 1

def Protocol.ofNumber : ℤ → Protocol
  | 1 => .vless
  | _ => .unspecified

/-! ## Placements -/

namespace StoredPlacement

/-- The fields of the message, by their numbers in `stored.proto`. -/
def fields (pb : StoredPlacement) : List Field :=
  strField 1 pb.id ++ strField 2 pb.keyID ++ strField 3 pb.clientID ++ strField 4 pb.nodeID ++
    strField 5 pb.backendNodeID ++ uintField 6 pb.opVersion ++
    uintField 7 pb.desiredState.number ++ uintField 8 pb.appliedState.number ++
    uintField 9 pb.transport.number ++ uintField 10 pb.protocol.number ++
    uintField 11 pb.isRevoked.toNat ++ msgField 12 (pb.validUntil.map marshalTimestamp) ++
    msgField 13 (pb.updatedAt.map marshalTimestamp) ++
    msgField 14 (pb.lastAppliedAt.map marshalTimestamp) ++ strField 15 pb.entryOverrideTag

@[irreducible] def marshal (pb : StoredPlacement) : List UInt8 := pb.fields.flatMap Field.encode

/-- A message whose parts cannot be read is rejected as a whole. -/
def unmarshal (data : List UInt8) : Option StoredPlacement := do
  let fs ← parse data
  return {
    id := ← getStr 1 fs
    keyID := ← getStr 2 fs
    clientID := ← getStr 3 fs
    nodeID := ← getStr 4 fs
    backendNodeID := ← getStr 5 fs
    opVersion := getUint 6 fs
    desiredState := .ofNumber (toInt32 (getUint 7 fs))
    appliedState := .ofNumber (toInt32 (getUint 8 fs))
    transport := .ofNumber (toInt32 (getUint 9 fs))
    protocol := .ofNumber (toInt32 (getUint 10 fs))
    isRevoked := getUint 11 fs != 0
    validUntil := ← unmarshalOptTimestamp (getMsg 12 fs)
    updatedAt := ← unmarshalOptTimestamp (getMsg 13 fs)
    lastAppliedAt := ← unmarshalOptTimestamp (getMsg 14 fs)
    entryOverrideTag := ← getStr 15 fs }

/-- The numbers and times are those of the message's types, and the texts have a length. -/
structure Fits (pb : StoredPlacement) : Prop where
  texts : ∀ s ∈ [pb.id, pb.keyID, pb.clientID, pb.nodeID, pb.backendNodeID, pb.entryOverrideTag],
    (utf8 s).length < 2 ^ 64
  opVersion : pb.opVersion < 2 ^ 64
  times : ∀ t ∈ [pb.validUntil, pb.updatedAt, pb.lastAppliedAt], ∀ ts ∈ t, TimestampFits ts

variable {pb : StoredPlacement}

instance (pb : StoredPlacement) : Decidable pb.Fits :=
  decidable_of_iff (_ ∧ _ ∧ _) ⟨fun h => ⟨h.1, h.2.1, h.2.2⟩, fun h => ⟨h.texts, h.opVersion, h.times⟩⟩

theorem valid_fields (h : pb.Fits) : ∀ f ∈ pb.fields, f.Valid := by
  have htext : ∀ {number : ℕ} {s : String}, ValidNumber number →
      s ∈ [pb.id, pb.keyID, pb.clientID, pb.nodeID, pb.backendNodeID, pb.entryOverrideTag] →
      ∀ f ∈ strField number s, f.Valid := fun hnumber hs => valid_strField hnumber (h.texts _ hs)
  have htime : ∀ {number : ℕ} {t : Option Timestamp}, ValidNumber number →
      ∀ f ∈ msgField number (t.map marshalTimestamp), f.Valid := by
    refine fun hnumber => valid_msgField hnumber fun bytes hbytes => ?_
    obtain ⟨ts, -, rfl⟩ := Option.mem_map.mp hbytes
    exact length_marshalTimestamp ts
  have hdesired : pb.desiredState.number < 2 ^ 64 := by cases pb.desiredState <;> decide
  have happlied : pb.appliedState.number < 2 ^ 64 := by cases pb.appliedState <;> decide
  have htransport : pb.transport.number < 2 ^ 64 := by cases pb.transport <;> decide
  have hprotocol : pb.protocol.number < 2 ^ 64 := by cases pb.protocol <;> decide
  have hrevoked : pb.isRevoked.toNat < 2 ^ 64 := by cases pb.isRevoked <;> decide
  unfold fields
  simp only [List.forall_mem_append]
  exact ⟨⟨⟨⟨⟨⟨⟨⟨⟨⟨⟨⟨⟨⟨htext (by decide) (by simp), htext (by decide) (by simp)⟩,
    htext (by decide) (by simp)⟩, htext (by decide) (by simp)⟩, htext (by decide) (by simp)⟩,
    valid_uintField (by decide) h.opVersion⟩, valid_uintField (by decide) hdesired⟩,
    valid_uintField (by decide) happlied⟩, valid_uintField (by decide) htransport⟩,
    valid_uintField (by decide) hprotocol⟩, valid_uintField (by decide) hrevoked⟩,
    htime (by decide)⟩, htime (by decide)⟩, htime (by decide)⟩, htext (by decide) (by simp)⟩

theorem getStr_fields (pb : StoredPlacement) :
    getStr 1 pb.fields = some pb.id ∧ getStr 2 pb.fields = some pb.keyID ∧
      getStr 3 pb.fields = some pb.clientID ∧ getStr 4 pb.fields = some pb.nodeID ∧
      getStr 5 pb.fields = some pb.backendNodeID ∧ getStr 15 pb.fields = some pb.entryOverrideTag := by
  refine ⟨?_, ?_, ?_, ?_, ?_, ?_⟩ <;> exact getStr_of_lens (by simp [fields])

theorem getUint_fields (pb : StoredPlacement) :
    getUint 6 pb.fields = pb.opVersion ∧ getUint 7 pb.fields = pb.desiredState.number ∧
      getUint 8 pb.fields = pb.appliedState.number ∧ getUint 9 pb.fields = pb.transport.number ∧
      getUint 10 pb.fields = pb.protocol.number ∧ getUint 11 pb.fields = pb.isRevoked.toNat := by
  refine ⟨?_, ?_, ?_, ?_, ?_, ?_⟩ <;> exact getUint_of_varints (by simp [fields])

theorem getMsg_fields (pb : StoredPlacement) :
    getMsg 12 pb.fields = pb.validUntil.map marshalTimestamp ∧
      getMsg 13 pb.fields = pb.updatedAt.map marshalTimestamp ∧
      getMsg 14 pb.fields = pb.lastAppliedAt.map marshalTimestamp := by
  refine ⟨?_, ?_, ?_⟩ <;> exact getMsg_of_lens (by simp [fields])

theorem unmarshal_marshal (h : pb.Fits) : unmarshal pb.marshal = some pb := by
  obtain ⟨hid, hkey, hclient, hnode, hbackend, htag⟩ := getStr_fields pb
  obtain ⟨hversion, hdesired, happlied, htransport, hprotocol, hrevoked⟩ := getUint_fields pb
  obtain ⟨huntil, hupdated, hlast⟩ := getMsg_fields pb
  have htime : ∀ t ∈ [pb.validUntil, pb.updatedAt, pb.lastAppliedAt],
      unmarshalOptTimestamp (t.map marshalTimestamp) = some t :=
    fun t ht => unmarshalOptTimestamp_map (h.times t ht)
  have hdesired' : DesiredState.ofNumber (toInt32 pb.desiredState.number) = pb.desiredState := by
    cases pb.desiredState <;> rfl
  have happlied' : AppliedState.ofNumber (toInt32 pb.appliedState.number) = pb.appliedState := by
    cases pb.appliedState <;> rfl
  have htransport' : TransportKind.ofNumber (toInt32 pb.transport.number) = pb.transport := by
    cases pb.transport <;> rfl
  have hprotocol' : Protocol.ofNumber (toInt32 pb.protocol.number) = pb.protocol := by
    cases pb.protocol <;> rfl
  have hrevoked' : (pb.isRevoked.toNat != 0) = pb.isRevoked := by
    cases pb.isRevoked <;> rfl
  unfold unmarshal marshal
  rw [parse_encode (valid_fields h)]
  simp only [Option.bind_eq_bind, Option.bind_some, Option.pure_def, hid, hkey, hclient, hnode,
    hbackend, htag, hversion, hdesired, happlied, htransport, hprotocol, hrevoked, huntil, hupdated,
    hlast, htime _ (List.mem_cons_self ..), htime _ (List.mem_cons_of_mem _ (List.mem_cons_self ..)),
    htime pb.lastAppliedAt (by simp), hdesired', happlied', htransport', hprotocol', hrevoked']

end StoredPlacement

/-! ## The identity -/

namespace StoredIdentity

/-- The fields of the message, by their numbers in `stored.proto`. -/
def fields (pb : StoredIdentity) : List Field :=
  strField 1 pb.nodeID ++ strField 2 pb.agentInstanceID ++ strField 3 pb.authToken ++
    msgField 4 (pb.bootstrappedAt.map marshalTimestamp)

@[irreducible] def marshal (pb : StoredIdentity) : List UInt8 := pb.fields.flatMap Field.encode

def unmarshal (data : List UInt8) : Option StoredIdentity := do
  let fs ← parse data
  return {
    nodeID := ← getStr 1 fs
    agentInstanceID := ← getStr 2 fs
    authToken := ← getStr 3 fs
    bootstrappedAt := ← unmarshalOptTimestamp (getMsg 4 fs) }

/-- The time is that of the message's type, and the texts have a length. -/
structure Fits (pb : StoredIdentity) : Prop where
  texts : ∀ s ∈ [pb.nodeID, pb.agentInstanceID, pb.authToken], (utf8 s).length < 2 ^ 64
  time : ∀ ts ∈ pb.bootstrappedAt, TimestampFits ts

variable {pb : StoredIdentity}

instance (pb : StoredIdentity) : Decidable pb.Fits :=
  decidable_of_iff (_ ∧ _) ⟨fun h => ⟨h.1, h.2⟩, fun h => ⟨h.texts, h.time⟩⟩

theorem valid_fields (h : pb.Fits) : ∀ f ∈ pb.fields, f.Valid := by
  have htext : ∀ {number : ℕ} {s : String}, ValidNumber number →
      s ∈ [pb.nodeID, pb.agentInstanceID, pb.authToken] → ∀ f ∈ strField number s, f.Valid :=
    fun hnumber hs => valid_strField hnumber (h.texts _ hs)
  have htime : ∀ f ∈ msgField 4 (pb.bootstrappedAt.map marshalTimestamp), f.Valid := by
    refine valid_msgField (by decide) fun bytes hbytes => ?_
    obtain ⟨ts, -, rfl⟩ := Option.mem_map.mp hbytes
    exact length_marshalTimestamp ts
  unfold fields
  simp only [List.forall_mem_append]
  exact ⟨⟨⟨htext (by decide) (by simp), htext (by decide) (by simp)⟩,
    htext (by decide) (by simp)⟩, htime⟩

theorem unmarshal_marshal (h : pb.Fits) : unmarshal pb.marshal = some pb := by
  have hnode : getStr 1 pb.fields = some pb.nodeID := getStr_of_lens (by simp [fields])
  have hagent : getStr 2 pb.fields = some pb.agentInstanceID := getStr_of_lens (by simp [fields])
  have htoken : getStr 3 pb.fields = some pb.authToken := getStr_of_lens (by simp [fields])
  have htime : getMsg 4 pb.fields = pb.bootstrappedAt.map marshalTimestamp :=
    getMsg_of_lens (by simp [fields])
  unfold unmarshal marshal
  rw [parse_encode (valid_fields h)]
  simp only [Option.bind_eq_bind, Option.bind_some, Option.pure_def, hnode, hagent, htoken, htime,
    unmarshalOptTimestamp_map h.time]

end StoredIdentity

end Agentv1

end NodeAgent.Badger

/-! ## The two calls -/

namespace NodeAgent.Eval

open Protobuf Badger

/-- A message is written if it fits the types of its fields. -/
@[reducible] def wire {M : Type} {Fits : M → Prop} [DecidablePred Fits]
    {marshal : M → List UInt8} {unmarshal : List UInt8 → Option M}
    (h : ∀ m, Fits m → unmarshal (marshal m) = some m) : Proto M where
  marshal m := if Fits m then .ok (marshal m) else .error (.new "proto: message does not fit")
  unmarshal data :=
    match unmarshal data with
    | some m => .ok m
    | none => .error (.new "proto: cannot parse invalid wire-format data")
  unmarshal_marshal {m data} hm := by
    split_ifs at hm with hfits
    cases hm
    rw [h m hfits]

scoped instance placementWire : Proto Agentv1.StoredPlacement :=
  wire fun _ => Agentv1.StoredPlacement.unmarshal_marshal

scoped instance identityWire : Proto Agentv1.StoredIdentity :=
  wire fun _ => Agentv1.StoredIdentity.unmarshal_marshal

end NodeAgent.Eval
