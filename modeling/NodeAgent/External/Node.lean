import NodeAgent.Applier
import NodeAgent.Backends.Listener
import NodeAgent.External.Loop
import NodeAgent.Snapshot.Consumer

/-!
# A node with an external sing-box

The events that change such a node: commands, snapshot chunks, upstream changes. Commands and chunks are
handled next to the coalescer's loop; an upstream change is between two of them.
-/

namespace NodeAgent

open Lib RenderCoalescer

namespace EntryActions

theorem rebuildFromStore_calls [Lowering] (a : EntryActions) :
    a.rebuildFromStore.All Snapshot.RebuildCall := by
  unfold rebuildFromStore rebuild
  split_ifs
  · refine (coalesce_all (P := Snapshot.RebuildCall) rfl (fun _ => trivial) a.polls).bind fun r => ?_
    cases r <;> trivial
  · exact renderAndReload_all trivial trivial (fun _ => trivial) trivial _ _ _ _

/-- The rebuilder of a node with an external sing-box. -/
def rebuilder [Lowering] (a : EntryActions) : Snapshot.Rebuilder :=
  ⟨a.rebuildFromStore, a.rebuildFromStore_calls⟩

end EntryActions

namespace External

/-- A report that a command has failed. -/
def reportsError : GoEvent → Bool
  | ⟨.publish (.applyResult _ report), _⟩ => report.status = .error
  | _ => false

/-- What the delivery of a chunk comes to. -/
def chunkOutcome : Snapshot.Result → Go Err
  | .returned err => return err
  | .panicked => return some (.new "assignment to entry in nil map")

/-- The states of a node that starts with an empty store and an empty registry and has handled messages
without a failure. Between two of them the coalescer is idle. -/
inductive Reachable [Lowering] [Sum256] (a : EntryActions) (l : Listener) (opts : FlipExecutorOptions) :
    Registry → World → Prop
  | start (w : World) (store : w.store = .empty) (queue : w.queue = []) : Reachable a l opts .new w
  | command {reg : Registry} {w w' : World} (maxBatch rounds : ℕ) (last : Option Digest)
      (msg : Except GoError Command) (trs : List (Tagged ports)) (ts' : List (Go Err))
      (before : Reachable a l opts reg w)
      (run : Pool world (Env.Allowed false) (nextToLoop { a with reg := reg }
        (Applier.handle l.nodeID (EntryActions.flipExecutor { a with reg := reg } opts).executor msg)
        maxBatch rounds last) w trs ts' w')
      (done : ts'[0]? = some (.done none))
      (succeeds : (trs.map Prod.snd).any reportsError = false) (idle : w'.queue = []) :
      Reachable a l opts reg w'
  | chunk {reg : Registry} {w w' : World} (maxBatch rounds : ℕ) (last : Option Digest)
      (sched : List ℕ) (msg : Except GoError Jsonv1.SnapshotChunk) (trs : List (Tagged ports))
      (ts' : List (Go Err)) (before : Reachable a l opts reg w)
      (run : Pool world (Env.Allowed false) (nextToLoop { a with reg := reg }
        (Snapshot.handle l.nodeID (EntryActions.rebuilder { a with reg := reg }) sched msg >>=
          chunkOutcome) maxBatch rounds last) w trs ts' w')
      (done : ts'[0]? = some (.done none)) (idle : w'.queue = []) : Reachable a l opts reg w'
  | upstream {reg : Registry} {w : World} (msg : Except GoError Jsonv1.UpstreamChange)
      (before : Reachable a l opts reg w) (done : (l.handle msg reg).1 = none) :
      Reachable a l opts (l.handle msg reg).2 w

end External

end NodeAgent
