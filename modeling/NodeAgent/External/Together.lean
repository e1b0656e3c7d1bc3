import NodeAgent.Executor.FlushSpec
import NodeAgent.External.Selector

/-!
# File, running config and store

Flushes one after the other, each with the hash that the one before has left. A flush that returns nil has
loaded what it rendered, or has found it to be what was loaded last. In the second case it leaves the file
alone, so the file is what it rendered unless another file has been written since and could not be loaded.
-/

namespace NodeAgent.RenderCoalescer

open Lib Singboxgen

/-! ## sing-box, byte for byte -/

/-- What sing-box has of the agent: the file, the running config, and whether the file was written after
the last reload that succeeded. -/
structure Disk where
  file : Option Rendered := none
  running : Option Rendered := none
  unloaded : Bool := false
  deriving DecidableEq

def Disk.step (d : Disk) : GoEvent → Disk
  | ⟨.writeConfig data, none⟩ => { d with file := some data, unloaded := true }
  | ⟨.reload, none⟩ => { d with running := d.file, unloaded := false }
  | _ => d

/-- The files after the events. -/
def Disk.after (d : Disk) (tr : List GoEvent) : Disk := tr.foldl Disk.step d

/-- A call that is not about the config. -/
def Aside : Call → Prop
  | .writeConfig _ => False
  | .reload => False
  | _ => True

section Disk

variable {d : Disk} {tr tr' : List GoEvent}

theorem Disk.after_append : d.after (tr ++ tr') = (d.after tr).after tr' := List.foldl_append

theorem Disk.step_aside {ev : GoEvent} (h : Aside ev.call) : d.step ev = d := by
  obtain ⟨c, r⟩ := ev
  cases c with
  | writeConfig data => exact h.elim
  | reload => exact h.elim
  | _ => rfl

theorem Disk.after_aside (h : ∀ ev ∈ tr, Aside ev.call) : d.after tr = d := by
  induction tr with
  | nil => rfl
  | cons ev tr ih =>
    obtain ⟨hev, htr⟩ := List.forall_mem_cons.mp h
    rw [Disk.after, List.foldl_cons, Disk.step_aside hev]
    exact ih htr

theorem ReadCall.aside {c : Call} (h : ReadCall c) : Aside c := by
  cases c <;> trivial

theorem persistAll_aside {overlays : Store} {tr : List GoEvent} {err : Err}
    (h : (persistAll overlays).After tr (.done err)) : ∀ ev ∈ tr, Aside ev.call := by
  refine Prog.All.of_mem (P := Aside) (Prog.all_invoke_bind.mpr ⟨trivial, fun order => ?_⟩) h
  exact persistOverlays_all fun _ _ _ => trivial

/-- The world holds the same, as JSON. -/
def Disk.Matches (d : Disk) (s : SingBox) : Prop :=
  (∀ data, d.file = some data → s.file = .json data.toJson) ∧
    ∀ data, d.running = some data → s.running = .json data.toJson

theorem singbox_aside {c : Call} (h : Aside c) (e : Env) (w : World) :
    (World.exec c e w).2.singbox.file = w.singbox.file ∧
      (World.exec c e w).2.singbox.running = w.singbox.running := by
  let view (v : World) := (v.singbox.file, v.singbox.running)
  have hproxy : ∀ x, view (w.ofProxy x).2 = view w := fun x => by cases x <;> rfl
  suffices hview : view (World.exec c e w).2 = view w from Prod.mk.injEq _ _ _ _ ▸ hview
  cases c with
  | writeConfig data => exact h.elim
  | reload => exact h.elim
  | submit overlay => simp only [World.exec]; split <;> rfl
  | receive timer => simp only [World.exec]; split <;> (try split_ifs) <;> (try split) <;> rfl
  | _ => first | rfl | exact e.guarded_keeps view rfl | exact e.guarded_keeps view (hproxy _)

theorem Disk.Matches.step {ev : GoEvent} {e : Env} {w : World} (h : d.Matches w.singbox)
    (hr : (World.exec ev.call e w).1 = ev.reply) :
    (d.step ev).Matches (World.exec ev.call e w).2.singbox := by
  by_cases haside : Aside ev.call
  · obtain ⟨hfile, hrunning⟩ := singbox_aside haside e w
    rw [Disk.step_aside haside]
    exact ⟨fun data hd => hfile.trans (h.1 data hd), fun data hd => hrunning.trans (h.2 data hd)⟩
  · obtain ⟨c, r⟩ := ev
    obtain ⟨fail, _, _, _, _, _, _⟩ := e
    cases c with
    | writeConfig data =>
      cases fail with
      | some msg =>
        cases hr
        exact h
      | none =>
        cases hr
        exact ⟨fun data' hd => by cases hd; rfl, h.2⟩
    | reload =>
      cases fail with
      | some msg =>
        cases hr
        exact h
      | none =>
        cases hr
        exact ⟨h.1, h.1⟩
    | _ => exact absurd trivial haside

theorem Disk.Matches.steps {A : Env → Prop} {w w' : World} (h : d.Matches w.singbox)
    (hs : Steps world A w tr w') : (d.after tr).Matches w'.singbox := by
  induction tr generalizing d w with
  | nil =>
    rw [steps_nil.mp hs]
    exact h
  | cons ev tr ih =>
    obtain ⟨e, -, hr, hs⟩ := steps_cons.mp hs
    exact ih (h.step hr) hs

end Disk

/-! ## A sequence of flushes -/

/-- One call of `flushBatch`. The registry that the actions read may differ from call to call. -/
structure Flush where
  a : EntryActions
  overlays : Store
  /-- the hash that the coalescer has before -/
  last : Option Digest
  before : World
  trace : List GoEvent
  err : Err
  /-- the hash that it has after -/
  hash : Option Digest
  after : World

/-- The events of the flushes. -/
def history (fs : List Flush) : List GoEvent := fs.flatMap Flush.trace

section Flush

variable [Lowering]

/-- The file that the flush renders, if it gets there. -/
def Flush.made (f : Flush) : Option Rendered := rendered f.a f.overlays f.trace

/-- File and running config are the bytes that the flush has rendered, and its overlays are stored. -/
def Together (d : Disk) (f : Flush) : Prop :=
  ∃ data, f.made = some data ∧
    d.file = some data ∧ d.running = some data ∧
    f.after.singbox.file = .json data.toJson ∧ f.after.singbox.running = .json data.toJson ∧
    ∀ id p, f.overlays.get id = some p → f.after.store.get id = some p

variable [Sum256]

/-- Flushes one after the other; in between, only the store may change. -/
inductive Flushes (A : Env → Prop) : Option Digest → SingBox → List Flush → Prop
  | nil (last : Option Digest) (s : SingBox) : Flushes A last s []
  | cons {f : Flush} {fs : List Flush}
      (run : Run world A (flushBatch f.a f.overlays f.last) f.before f.trace (f.err, f.hash) f.after)
      (rest : Flushes A f.hash f.after.singbox fs) : Flushes A f.last f.before.singbox (f :: fs)

/-- No two files that the flushes render have one hash. -/
def NoCollision (fs : List Flush) : Prop :=
  ∀ f ∈ fs, ∀ g ∈ fs, f.made.map sum256 = g.made.map sum256 → f.made = g.made

instance (fs : List Flush) : Decidable (NoCollision fs) :=
  inferInstanceAs (Decidable (∀ f ∈ fs, ∀ g ∈ fs, _))

/-- The hash is that of the running config; the file is another one just if it is not loaded. -/
structure Remembers (last : Option Digest) (d : Disk) : Prop where
  running : d.running.map sum256 = last
  file : d.file = d.running ↔ d.unloaded = false

/-- The running config was rendered by one of the flushes. -/
def Disk.RunsOneOf (d : Disk) (fs : List Flush) : Prop :=
  ∀ data, d.running = some data → ∃ f ∈ fs, f.made = some data

variable {A : Env → Prop} {a : EntryActions} {overlays : Store} {last : Option Digest}
  {tr : List GoEvent} {out : Err × Option Digest} {d : Disk}

/-- What a flush leaves on the disk. -/
theorem Remembers.flush (h : Remembers last d) (hf : Flushed a overlays last tr out) :
    Remembers out.2 (d.after tr) := by
  cases hf with
  | unrendered reads err =>
    rw [Disk.after_aside fun ev hev => (reads ev hev).aside]
    exact h
  | skipped pre reads made same stores =>
    rw [Disk.after_append, Disk.after_aside fun ev hev => (reads ev hev).aside,
      Disk.after_aside (persistAll_aside stores)]
    exact h
  | unwritten pre reads fail err =>
    rw [Disk.after_append, Disk.after_aside fun ev hev => (reads ev hev).aside]
    exact h
  | @unloaded pre data reads other fail err =>
    rw [Disk.after_append, Disk.after_aside fun ev hev => (reads ev hev).aside]
    refine ⟨h.running, iff_of_false (fun heq => other ?_) (by simp [Disk.after, Disk.step])⟩
    -- the file that was written is not the running config: their hashes differ
    have hsame : d.running = some data := heq.symm
    rw [← h.running, hsame]
    rfl
  | @loaded pre tail data err reads made other stores =>
    rw [Disk.after_append, Disk.after_aside fun ev hev => (reads ev hev).aside]
    show Remembers _ (Disk.after { d with file := some data, running := some data, unloaded := false } tail)
    rw [Disk.after_aside (persistAll_aside stores)]
    exact ⟨rfl, iff_of_true rfl rfl⟩

/-- A flush leaves the running config, or loads what it has rendered. -/
theorem Flushed.running (hf : Flushed a overlays last tr out) :
    (d.after tr).running = d.running ∨ (d.after tr).running = rendered a overlays tr := by
  cases hf with
  | unrendered reads err => exact .inl (by rw [Disk.after_aside fun ev hev => (reads ev hev).aside])
  | skipped pre reads made same stores =>
    refine .inl ?_
    rw [Disk.after_append, Disk.after_aside fun ev hev => (reads ev hev).aside,
      Disk.after_aside (persistAll_aside stores)]
  | unwritten pre reads fail err =>
    refine .inl ?_
    rw [Disk.after_append, Disk.after_aside fun ev hev => (reads ev hev).aside]
    rfl
  | unloaded pre reads other fail err =>
    refine .inl ?_
    rw [Disk.after_append, Disk.after_aside fun ev hev => (reads ev hev).aside]
    rfl
  | @loaded pre tail data err reads made other stores =>
    rw [made, Disk.after_append, Disk.after_aside fun ev hev => (reads ev hev).aside]
    refine .inr ?_
    show (Disk.after { d with file := some data, running := some data, unloaded := false } tail).running = _
    rw [Disk.after_aside (persistAll_aside stores)]

/-- A flush that has returned nil has rendered; it has loaded this, or left the disk as it was. -/
theorem Flushed.of_nil (hf : Flushed a overlays last tr out) (hnil : out.1 = none) :
    ∃ data, rendered a overlays tr = some data ∧
      ((last = some (sum256 data) ∧ d.after tr = d) ∨
        (last ≠ some (sum256 data) ∧ (d.after tr).file = some data ∧ (d.after tr).running = some data)) := by
  cases hf with
  | unrendered reads err => cases hnil
  | @skipped pre tail data err reads made same stores =>
    refine ⟨data, made, .inl ⟨same, ?_⟩⟩
    rw [Disk.after_append, Disk.after_aside fun ev hev => (reads ev hev).aside,
      Disk.after_aside (persistAll_aside stores)]
  | unwritten pre reads fail err => cases hnil
  | unloaded pre reads other fail err => cases hnil
  | @loaded pre tail data err reads made other stores =>
    have hdisk : d.after (pre ++ ⟨.writeConfig data, none⟩ :: ⟨.reload, none⟩ :: tail) =
        { file := some data, running := some data, unloaded := false } := by
      rw [Disk.after_append, Disk.after_aside fun ev hev => (reads ev hev).aside]
      show Disk.after { d with file := some data, running := some data, unloaded := false } tail = _
      rw [Disk.after_aside (persistAll_aside stores)]
    exact ⟨data, made, .inr ⟨other, by rw [hdisk], by rw [hdisk]⟩⟩

/-- One flush that has returned nil, with a hash that tells what it renders from the running config. -/
theorem together_iff {f : Flush} (h : Remembers f.last d) (hm : d.Matches f.before.singbox)
    (hsum : ∀ data, d.running.map sum256 = some (sum256 data) → f.made = some data → d.running = some data)
    (hrun : Run world A (flushBatch f.a f.overlays f.last) f.before f.trace (f.err, f.hash) f.after)
    (hnil : f.err = none) :
    Together (d.after f.trace) f ↔ (f.made.map sum256 = f.last → d.unloaded = false) := by
  have hf := after_flush hrun.1
  have hmatch := hm.steps hrun.2
  have hstored : ∀ id p, f.overlays.get id = some p → f.after.store.get id = some p := by
    intro id p hget
    have hrec := sees_written (hrun.2.sees (f := record id))
    rw [hf.written_of_nil hnil id, hget] at hrec
    exact hrec
  obtain ⟨data, hmade, hcases⟩ := hf.of_nil (d := d) hnil
  change f.made = some data at hmade
  -- the running config always is what was rendered
  have hrunning : (d.after f.trace).running = some data := by
    rcases hcases with ⟨hsame, hdisk⟩ | ⟨-, -, hloaded⟩
    · rw [hdisk]
      exact hsum data (h.running.trans hsame) hmade
    · exact hloaded
  have hiff : Together (d.after f.trace) f ↔ (d.after f.trace).file = some data := by
    constructor
    · rintro ⟨data', hmade', hfile, -⟩
      rw [hmade] at hmade'
      cases hmade'
      exact hfile
    · exact fun hfile =>
        ⟨data, hmade, hfile, hrunning, hmatch.1 data hfile, hmatch.2 data hrunning, hstored⟩
  rw [hiff, hmade]
  rcases hcases with ⟨hsame, hdisk⟩ | ⟨hother, hfile, -⟩
  · rw [hdisk] at hrunning ⊢
    rw [← hrunning, h.file, hrunning, hsame]
    exact ⟨fun hu _ => hu, fun hu => hu rfl⟩
  · exact iff_of_true hfile fun heq => absurd heq.symm hother

end Flush

section Flushes

variable [Lowering] [Sum256] {A : Env → Prop} {last : Option Digest} {s : SingBox} {fs all : List Flush}

theorem flushes_iff {d : Disk} (h : Flushes A last s fs) (hd : Remembers last d) (hm : d.Matches s)
    (hall : NoCollision all) (hsub : fs ⊆ all) (hruns : d.RunsOneOf all) :
    ∀ pre f post, fs = pre ++ f :: post → f.err = none →
      (Together (d.after (history pre ++ f.trace)) f ↔
        (f.made.map sum256 = f.last → (d.after (history pre)).unloaded = false)) := by
  induction h generalizing d with
  | nil => intro pre f post hsplit; simp at hsplit
  | @cons g fs run rest ih =>
    obtain ⟨hg, hfs⟩ := List.cons_subset.mp hsub
    intro pre f post hsplit hnil
    cases pre with
    | nil =>
      obtain ⟨rfl, -⟩ := List.cons_eq_cons.mp hsplit
      refine together_iff hd hm (fun data hhash hmade => ?_) run hnil
      obtain ⟨r, hr, -⟩ := Option.map_eq_some_iff.mp hhash
      obtain ⟨g', hg', hmade'⟩ := hruns r hr
      rw [hr, ← hmade', ← hmade]
      refine hall g' hg' g hg ?_
      rw [hmade', ← hr, hhash, hmade]
      rfl
    | cons g' pre =>
      obtain ⟨rfl, hrest⟩ := List.cons_eq_cons.mp hsplit
      have hruns' : (d.after g.trace).RunsOneOf all := by
        intro data hdata
        rcases (after_flush run.1).running (d := d) with hkept | hloaded
        · exact hruns data (hkept.symm.trans hdata)
        · exact ⟨g, hg, hloaded.symm.trans hdata⟩
      have hnext := ih (hd.flush (after_flush run.1)) (hm.steps run.2) hfs hruns' pre f post hrest hnil
      rw [← Disk.after_append, ← Disk.after_append, ← List.append_assoc] at hnext
      exact hnext

/-- From the start, whatever the file is then, and as long as no two of the files that are rendered have one
hash: every flush that returns nil has left file, running config and store together just if none of those
that render what was loaded last comes when another file is written but not loaded. -/
theorem flush_together_iff (h : Flushes A none s fs) (hsum : NoCollision fs) :
    (∀ pre f post, fs = pre ++ f :: post → f.err = none →
        Together (Disk.after {} (history pre ++ f.trace)) f) ↔
      ∀ pre f post, fs = pre ++ f :: post → f.err = none →
        f.made.map sum256 = f.last → (Disk.after {} (history pre)).unloaded = false := by
  have hiff := flushes_iff h (d := {}) ⟨rfl, iff_of_true rfl rfl⟩ ⟨nofun, nofun⟩ hsum
    (List.Subset.refl fs) nofun
  constructor
  · exact fun hall pre f post hsplit hnil => (hiff pre f post hsplit hnil).mp (hall pre f post hsplit hnil)
  · exact fun hall pre f post hsplit hnil => (hiff pre f post hsplit hnil).mpr (hall pre f post hsplit hnil)

end Flushes

section Fixed

open Eval

/-! ## After a reload that failed -/

/-- The flushes of the given actions and overlays, each with the choices made during it. -/
def replayFlushes : List (EntryActions × Store × List Env) → Option Digest → World → List Flush
  | [], _, _ => []
  | (a, overlays, es) :: rest, last, w =>
    let o := replay world (flushBatch a overlays last) es w
    { a := a, overlays := overlays, last := last, before := w, trace := o.1, err := o.2.1.1,
      hash := o.2.1.2, after := o.2.2 } :: replayFlushes rest o.2.1.2 o.2.2

theorem flushes_replay (xs : List (EntryActions × Store × List Env)) (last : Option Digest) (w : World) :
    Flushes (Env.Allowed true) last w.singbox (replayFlushes xs last w) := by
  induction xs generalizing last w with
  | nil => exact .nil last w.singbox
  | cons x xs ih =>
    obtain ⟨a, overlays, es⟩ := x
    exact .cons (f := ⟨a, overlays, last, w, _, _, _, _⟩)
      (run_replay (Env.allowed_default _) es (fun e _ => Env.allowed_true e) w) (ih _ _)

/-- One overlay. -/
def moved : Store := Store.empty.put (External.homedAt "p" "n1")

/-- A flush, one that brings the overlay and cannot reload, and the overlay again. -/
def loadedAgain : List Flush :=
  replayFlushes [(External.twoBackends, .empty, []),
    (External.twoBackends, moved, [{}, {}, {}, { fail := some "status=503" }]),
    (External.twoBackends, moved, [])] none {}

theorem flush_together_loaded_again :
    loadedAgain.map (fun f => f.err.isNone) = [true, false, true] ∧
      ∀ pre f post, loadedAgain = pre ++ f :: post → f.err = none →
        Together (Disk.after {} (history pre ++ f.trace)) f := by
  refine ⟨by decide +kernel, (flush_together_iff (flushes_replay _ none {}) (by decide +kernel)).mpr
    fun pre f post hsplit => ?_⟩
  rcases pre with _ | ⟨a, _ | ⟨b, _ | ⟨c, pre⟩⟩⟩
  · intro _ _
    rfl
  · obtain ⟨rfl, hsecond⟩ := List.cons_eq_cons.mp hsplit
    obtain ⟨rfl, -⟩ := List.cons_eq_cons.mp hsecond
    intro hnil
    exact absurd hnil (by decide +kernel)
  · obtain ⟨rfl, hsecond⟩ := List.cons_eq_cons.mp hsplit
    obtain ⟨rfl, hthird⟩ := List.cons_eq_cons.mp hsecond
    obtain ⟨rfl, -⟩ := List.cons_eq_cons.mp hthird
    intro _ heq
    exact absurd heq (by decide +kernel)
  · exact absurd (congrArg List.length hsplit) (by simp [replayFlushes])

/-- A flush, one that brings the overlay and cannot reload, and one without the overlay. -/
def takenBack : List Flush :=
  replayFlushes [(External.twoBackends, .empty, []),
    (External.twoBackends, moved, [{}, {}, {}, { fail := some "status=503" }]),
    (External.twoBackends, .empty, [])] none {}

theorem flush_leaves_other_file :
    ∃ s fs, Flushes (Env.Allowed true) none s fs ∧ NoCollision fs ∧ ∃ pre f post data,
      fs = pre ++ f :: post ∧ f.err = none ∧ f.made = some data ∧
      f.after.singbox.running = .json data.toJson ∧ f.after.singbox.file ≠ .json data.toJson := by
  refine ⟨_, takenBack, flushes_replay _ none {}, by decide +kernel, takenBack.take 2, _, [], _, rfl, ?_,
    rfl, ?_, ?_⟩
  · decide +kernel
  · decide +kernel
  · decide +kernel

end Fixed

end NodeAgent.RenderCoalescer
