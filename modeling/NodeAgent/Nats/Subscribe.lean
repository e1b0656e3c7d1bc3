import NodeAgent.Jsonv1
import NodeAgent.Lib.Shard

/-!
# The consumers of a subscription

`internal/adapters/nats/subscribe.go`: the goroutines that handle the messages of a durable consumer, given
the messages in the order of their delivery. A channel of a shard keeps this order, so a worker of the
shard handles the messages of the shard one after the other.
-/

namespace NodeAgent.Nats

open Lib

/-- What a handler reads of a `ports.Msg`. -/
structure Msg where
  data : Jsonv1.CommandData
  seq : UInt64

/-- What is called for a message; an error asks for redelivery. -/
abbrev MsgHandler := Msg → Go Err

/-- The options of a subscription. -/
structure SubscribeOpts where
  maxConcurrent : ℤ := 0
  shardKey : Option (Msg → UInt64) := none

/-- `WithConcurrency`. -/
def withConcurrency (workers : ℤ) (key : Msg → UInt64) : SubscribeOpts where
  maxConcurrent := workers
  shardKey := some key

/-- What the bus is told about a message. -/
inductive Settled
  | ack
  | nak
  deriving DecidableEq, Repr

/-- The handler's result settles the message. -/
def invokeHandler (handler : MsgHandler) (m : Msg) : Go Settled := do
  match ← handler m with
  | some _ => return .nak
  | none => return .ack

/-- The worker that a message goes to. -/
def shardIndex (m : Msg) (keyFn : Option (Msg → UInt64)) (n : ℕ) : ℕ :=
  if n ≤ 1 then 0
  else
    let key := match keyFn with
      | some f => f m
      | none => m.seq
    (key % UInt64.ofNat n).toNat

/-- The loop of one goroutine. -/
def serve (handler : MsgHandler) (msgs : List Msg) : Go (List Settled) :=
  Prog.forEach (invokeHandler handler) msgs

/-- One goroutine takes all messages. -/
def consumeSerial (handler : MsgHandler) (msgs : List Msg) : List (Go (List Settled)) :=
  [serve handler msgs]

/-- Each worker takes the messages of its shard, in the order in which they came. -/
def consumeSharded (handler : MsgHandler) (cfg : SubscribeOpts) (msgs : List Msg) :
    List (Go (List Settled)) :=
  let n := cfg.maxConcurrent.toNat
  shards n (fun m => shardIndex m cfg.shardKey n) (invokeHandler handler) msgs

/-- The goroutines that `Subscribe` starts. -/
def subscribe (handler : MsgHandler) (opts : SubscribeOpts) (msgs : List Msg) :
    List (Go (List Settled)) :=
  let cfg := if opts.maxConcurrent < 1 then { opts with maxConcurrent := 1 } else opts
  if cfg.maxConcurrent = 1 then consumeSerial handler msgs else consumeSharded handler cfg msgs

variable {handler : MsgHandler} {m : Msg}

theorem invokeHandler_all {P : Call → Prop} (h : (handler m).All P) : (invokeHandler handler m).All P :=
  h.bind fun r => by cases r <;> trivial

theorem after_invokeHandler {tr : List GoEvent} {s : Settled}
    (h : (invokeHandler handler m).After tr (.done s)) : ∃ r, (handler m).After tr (.done r) := by
  obtain ⟨r, tr₁, tr₂, rfl, h₁, h₂⟩ := Prog.after_bind_done_iff.mp h
  obtain rfl : tr₂ = [] := by
    cases r <;> exact (Prog.after_done_iff.mp h₂).1
  exact ⟨r, by rwa [List.append_nil]⟩

end NodeAgent.Nats
