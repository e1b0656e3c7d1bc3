import Mathlib

/-!
# Domain types

The pure types of the agent: identifiers, placements and their states, commands, reports, the flip
plan, and Go's error values as far as the code looks at them.
-/

namespace NodeAgent

abbrev PlacementID := String
abbrev KeyID := String
abbrev ClientID := String
abbrev NodeID := String
abbrev BackendID := String

/-- `uint64` in the source; it is only ever compared. -/
abbrev OpVersion := ℕ

/-- An instant, in nanoseconds from Go's zero time. -/
abbrev Time := ℤ

/-- `map[string]V`. Where the source ranges over a map, the order is an argument of the model. -/
abbrev GoMap (V : Type) := Std.ExtTreeMap String V compare

namespace GoMap

variable {V : Type} (m : GoMap V) (k x : String) (v : V)

theorem getElem?_insert : (m.insert k v)[x]? = if x = k then some v else m[x]? := by
  rw [Std.ExtTreeMap.getElem?_insert]
  by_cases h : x = k
  · simp [h]
  · simp [h, Ne.symm h]

theorem getElem?_erase : (m.erase k)[x]? = if x = k then none else m[x]? := by
  rw [Std.ExtTreeMap.getElem?_erase]
  by_cases h : x = k
  · simp [h]
  · simp [h, Ne.symm h]

theorem mem_insert : x ∈ m.insert k v ↔ x = k ∨ x ∈ m := by
  rw [Std.ExtTreeMap.mem_insert, Std.LawfulEqCmp.compare_eq_iff_eq, eq_comm]

theorem mem_erase : x ∈ m.erase k ↔ x ≠ k ∧ x ∈ m := by
  rw [Std.ExtTreeMap.mem_erase, ne_eq, Std.LawfulEqCmp.compare_eq_iff_eq, ne_comm]

end GoMap

/-! ## Errors -/

/-- A Go error: a text, a sentinel, or another error with text put in front of it (`%w`). -/
inductive GoError
  | new (msg : String)
  | wrap (context : String) (cause : GoError)
  | drainTimeout
  deriving DecidableEq, Repr, Inhabited

/-- `err.Error()`. -/
def GoError.message : GoError → String
  | .new msg => msg
  | .wrap context cause => context ++ ": " ++ cause.message
  | .drainTimeout => "drain timeout exceeded"

/-- `errors.Is(err, domain.ErrDrainTimeout)`. -/
def GoError.isDrainTimeout : GoError → Bool
  | .new _ => false
  | .wrap _ cause => cause.isDrainTimeout
  | .drainTimeout => true

/-! ## Text and hashes -/

/-- `strconv.IsPrint` on Latin-1; every rune beyond is taken to be printable. -/
def isPrint (n : ℕ) : Bool := (0x20 ≤ n && n < 0x7f) || (0xa1 ≤ n && n ≠ 0xad)

/-- The last digits of a number in base 16. -/
def lowerHex (width n : ℕ) : String :=
  String.ofList ((List.range width).reverse.map fun i => Nat.digitChar (n / 16 ^ i % 16))

/-- A rune between quotes. -/
def escapeRune (c : Char) : String :=
  match c.toNat with
  | 7 => "\\a"
  | 8 => "\\b"
  | 9 => "\\t"
  | 10 => "\\n"
  | 11 => "\\v"
  | 12 => "\\f"
  | 13 => "\\r"
  | 34 => "\\\""
  | 92 => "\\\\"
  | n =>
    if isPrint n then c.toString
    else if n < 0x20 ∨ n = 0x7f then "\\x" ++ lowerHex 2 n
    else "\\u" ++ lowerHex 4 n

/-- Go's `%q`. -/
def quote (s : String) : String := "\"" ++ String.join (s.toList.map escapeRune) ++ "\""

/-- `fnv.New64a`, over the bytes written. -/
def fnv64a (bytes : List UInt8) : UInt64 :=
  bytes.foldl (fun h b => (h ^^^ b.toUInt64) * 1099511628211) 14695981039346656037

/-! ## Placements -/

/-- The empty string is a value of its own: it is what a zero `Placement` carries. -/
inductive DesiredState
  | unset
  | active
  | inactive
  deriving DecidableEq, Repr, Inhabited

/-- `DesiredState.Valid`. -/
def DesiredState.valid : DesiredState → Bool
  | .active | .inactive => true
  | .unset => false

/-- How the last attempt on a placement ended; empty before the first one. -/
inductive AppliedState
  | unset
  | pending
  | ok
  | error
  deriving DecidableEq, Repr, Inhabited

/-- `AppliedState.Valid`. -/
def AppliedState.valid : AppliedState → Bool
  | .pending | .ok | .error => true
  | .unset => false

/-- The status that a report carries. -/
inductive ReportStatus
  | applied
  | pending
  | error
  | skippedStale
  | skippedIdempotent
  deriving DecidableEq, Repr, Inhabited

/-- `domain.TransportKind`, with the empty string as a value. -/
inductive TransportKind
  | unset
  | tcp
  | ws
  | xhttp
  | reality
  deriving DecidableEq, Repr, Inhabited

/-- `TransportKind.Valid`. -/
def TransportKind.valid : TransportKind → Bool
  | .tcp | .ws | .xhttp | .reality => true
  | .unset => false

/-- What the control plane wants of one key on one node. The defaults are Go's zero values. -/
structure Placement where
  id : PlacementID := ""
  keyID : KeyID := ""
  clientID : ClientID := ""
  nodeID : NodeID := ""
  backendNodeID : BackendID := ""
  desired : DesiredState := .unset
  applied : AppliedState := .unset
  opVersion : OpVersion := 0
  protocol : String := ""
  transport : TransportKind := .unset
  isRevoked : Bool := false
  validUntil : Time := 0
  updatedAt : Time := 0
  lastAppliedAt : Time := 0
  entryOverrideTag : String := ""
  deriving DecidableEq, Repr, Inhabited

/-- Desired active and not revoked: the client is to be served through this placement. -/
def Placement.live (p : Placement) : Bool := p.desired == .active && !p.isRevoked

theorem Placement.live_iff {p : Placement} :
    p.live = true ↔ p.desired = .active ∧ p.isRevoked = false := by
  simp [Placement.live]

/-- The record a writer stores: the command's placement with its outcome and a time stamp. -/
def Placement.stamp (p : Placement) (applied : AppliedState) (at_ : Time) : Placement :=
  { p with applied := applied, lastAppliedAt := at_ }

section Stamp

variable (p : Placement) (a : AppliedState) (t : Time)

@[simp] theorem Placement.stamp_id : (p.stamp a t).id = p.id := rfl
@[simp] theorem Placement.stamp_clientID : (p.stamp a t).clientID = p.clientID := rfl
@[simp] theorem Placement.stamp_backend : (p.stamp a t).backendNodeID = p.backendNodeID := rfl
@[simp] theorem Placement.stamp_desired : (p.stamp a t).desired = p.desired := rfl
@[simp] theorem Placement.stamp_applied : (p.stamp a t).applied = a := rfl
@[simp] theorem Placement.stamp_opVersion : (p.stamp a t).opVersion = p.opVersion := rfl
@[simp] theorem Placement.stamp_transport : (p.stamp a t).transport = p.transport := rfl
@[simp] theorem Placement.stamp_isRevoked : (p.stamp a t).isRevoked = p.isRevoked := rfl
@[simp] theorem Placement.stamp_live : (p.stamp a t).live = p.live := rfl

end Stamp

/-! ## Commands and reports -/

/-- `domain.PlacementCommand`. -/
structure PlacementCommand where
  eventID : String
  nodeID : NodeID
  emittedAt : Time := 0
  snapshotID : String := ""
  snapshotComplete : Bool := false
  placement : Placement
  deriving DecidableEq, Repr, Inhabited

/-- What `UnmarshalPlacementCommandEvent` checks and sets: a command has its ids, an `op_version`
of at least one and a valid desired state, and says nothing about the outcome. -/
def PlacementCommand.Accepted (c : PlacementCommand) : Prop :=
  c.eventID ≠ "" ∧ c.placement.id ≠ "" ∧ c.nodeID ≠ "" ∧ c.placement.nodeID = c.nodeID ∧
    1 ≤ c.placement.opVersion ∧ c.placement.desired.valid = true ∧
    c.placement.applied = .unset ∧ c.placement.lastAppliedAt = 0

instance (c : PlacementCommand) : Decidable c.Accepted := by
  unfold PlacementCommand.Accepted
  infer_instance

/-- A command as the decoder lets it through. -/
abbrev Command := {c : PlacementCommand // c.Accepted}

/-- The placement a command carries. -/
def Command.placement (c : Command) : Placement := c.val.placement

/-- A command that carries the given placement. -/
def Command.carrying (p : Placement)
    (h : PlacementCommand.Accepted { eventID := "e", nodeID := p.nodeID, placement := p } := by decide) :
    Command :=
  ⟨_, h⟩

theorem Command.id_ne (c : Command) : c.placement.id ≠ "" := c.property.2.1

theorem Command.one_le_opVersion (c : Command) : 1 ≤ c.placement.opVersion :=
  c.property.2.2.2.2.1

/-- `domain.PlacementReport`. -/
structure PlacementReport where
  placementID : PlacementID
  nodeID : NodeID
  opVersion : OpVersion
  appliedState : AppliedState
  status : ReportStatus
  retryable : Bool := false
  err : String := ""
  appliedAt : Time := 0
  deriving DecidableEq, Repr, Inhabited

/-- `domain.NodeIdentity`, which a node gets at its first start. -/
structure NodeIdentity where
  nodeID : NodeID := ""
  agentInstanceID : String := ""
  authToken : String := ""
  bootstrappedAt : Time := 0
  deriving DecidableEq, Repr, Inhabited

/-! ## Flips -/

/-- The states of a flip; the zero value is none of the named ones. -/
inductive FlipState
  | unset
  | steady
  | announced
  | warming
  | swap
  | cooling
  | cool
  deriving DecidableEq, Repr, Inhabited

/-- `domain.FlipPlan`: a placement on its way from one backend to another. -/
structure FlipPlan where
  placementID : PlacementID
  oldBackend : BackendID
  newBackend : BackendID
  state : FlipState := .unset
  startedAt : Time := 0
  drainTimeout : ℕ
  opVersion : OpVersion
  desired : Placement
  deriving DecidableEq, Repr, Inhabited

/-- `FlipPlan.Next`. -/
def FlipPlan.next (p : FlipPlan) : FlipState :=
  match p.state with
  | .steady => .announced
  | .announced => .warming
  | .warming => .swap
  | .swap => .cooling
  | .cooling => .cool
  | .cool => .steady
  | .unset => .steady

end NodeAgent
