import NodeAgent.Ports

/-!
# Executors

What the applier hands a command to. The calls an executor can make while it applies `d` are part of
the type: it reads and writes the store only at the id of `d`, writes (or submits) nothing but `d`
marked as applied, deletes nothing and publishes nothing.
-/

namespace NodeAgent

open Lib

/-- The calls an executor may make while it applies `d`. -/
def ExecutorCall (d : Placement) : Call → Prop
  | .getPlacement id => id = d.id
  | .putPlacement p => ∃ t, p = d.stamp .ok t
  | .submit overlay => ∀ p, overlay = some p → ∃ t, p = d.stamp .ok t
  | .deletePlacement _ => False
  | .publish _ => False
  | .receive _ => False
  | .answer _ _ => False
  | .trackSeen _ _ => False
  | .takeSeen => False
  | .storeCompleted => False
  | .count _ _ => False
  | .restart _ => False
  | .storeEpoch _ => False
  | _ => True

/-- `Apply` takes the placement, the stored record and whether there is one; it returns whether a
failure may be retried, and the failure. -/
structure Executor where
  apply : (desired existing : Placement) → (found : Bool) → Go (Bool × Err)
  calls : ∀ d e found, (apply d e found).All (ExecutorCall d)

end NodeAgent
