import NodeAgent.Domain

/-!
# Protobuf values

What the hand-written encoders have in common: timestamps, strings that are absent when empty, and the
two calls that make bytes of a message and a message of bytes.
-/

namespace NodeAgent

namespace Protobuf

/-- `timestamppb.Timestamp`: the time since the Unix epoch. -/
structure Timestamp where
  seconds : ℤ
  nanos : ℤ
  deriving DecidableEq, Repr

/-- `timestamppb.New` and `AsTime`, of which one undoes the other. -/
class Timestamps where
  new : Time → Timestamp
  asTime : Timestamp → Time
  asTime_new : ∀ t, asTime (new t) = t

/-- `proto.Marshal` and `proto.Unmarshal` of a message. What can be written is read as it was. -/
class Proto (M : Type) where
  marshal : M → Except GoError (List UInt8)
  unmarshal : List UInt8 → Except GoError M
  unmarshal_marshal : ∀ {m : M} {data : List UInt8}, marshal m = .ok data → unmarshal data = .ok m

end Protobuf

namespace Eval

/-- The seconds from Go's zero time to the Unix epoch. -/
def unixEpoch : ℤ := 62135596800

/-- The pair by division, with which fixed inputs are evaluated. -/
scoped instance timestamps : Protobuf.Timestamps where
  new t := ⟨t / 1000000000 - unixEpoch, t % 1000000000⟩
  asTime ts := (ts.seconds + unixEpoch) * 1000000000 + ts.nanos
  asTime_new t := by
    rw [Int.sub_add_cancel]
    exact Int.ediv_mul_add_emod t 1000000000

end Eval

namespace Protobuf

section Time

variable [Timestamps]

/-- The zero time is absent. -/
def timeToProto (t : Time) : Option Timestamp := if t = 0 then none else some (Timestamps.new t)

def timeFromProto : Option Timestamp → Time
  | none => 0
  | some ts => Timestamps.asTime ts

@[simp] theorem timeFromProto_timeToProto (t : Time) : timeFromProto (timeToProto t) = t := by
  unfold timeToProto
  split_ifs with h
  · exact h.symm
  · exact Timestamps.asTime_new t

end Time

/-- An optional string that is set only if there is something to say; the getter of an absent one returns
the empty string. -/
def stringToProto (s : String) : Option String := if s = "" then none else some s

@[simp] theorem getD_stringToProto (s : String) : (stringToProto s).getD "" = s := by
  unfold stringToProto
  split_ifs with h
  · exact h.symm
  · rfl

end Protobuf

end NodeAgent
