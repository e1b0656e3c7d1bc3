import NodeAgent.External.Loop

/-!
# When the coalescer reloads

The loop of the coalescer as it serves requests that bring no overlay, with no base file: it reloads only
when a listing renders to something else than the file it wrote last, and it answers a request with
success only when the listing rendered to that file or was reloaded.
-/

namespace NodeAgent.RenderCoalescer

open Lib Singboxgen

variable {a : EntryActions} {tr : List GoEvent}

/-- A listing that renders. -/
def Listed [Lowering] (a : EntryActions) (tr : List GoEvent) (cfg : SingBoxConfig) : Prop :=
  ∃ ps, (⟨.listPlacements, .ok ps⟩ : GoEvent) ∈ tr ∧ build (a.nodeState ps) = .ok cfg

/-- sing-box was told to reload. -/
def Reloads (tr : List GoEvent) : Prop := ∃ ev ∈ tr, ev.call = .reload

/-- No request that is received brings an overlay. -/
def Plain (tr : List GoEvent) : Prop :=
  ∀ timer req, (⟨.receive timer, .request req⟩ : GoEvent) ∈ tr → req.overlay = none

theorem Listed.mono [Lowering] {tr' : List GoEvent} {cfg : SingBoxConfig} (h : Listed a tr cfg)
    (hsub : tr ⊆ tr') : Listed a tr' cfg :=
  h.imp fun _ hps => ⟨hsub hps.1, hps.2⟩

theorem Reloads.mono {tr' : List GoEvent} (h : Reloads tr) (hsub : tr ⊆ tr') : Reloads tr' :=
  h.imp fun _ hev => ⟨hsub hev.1, hev.2⟩

theorem Plain.mono {tr' : List GoEvent} (h : Plain tr') (hsub : tr ⊆ tr') : Plain tr :=
  fun timer req hmem => h timer req (hsub hmem)

theorem not_reloads_of_all {α : Type} {p q : Go α} (hp : p.All fun c : Call => c ≠ .reload)
    (h : p.After tr q) : ¬ Reloads tr :=
  fun ⟨ev, hev, hc⟩ => hp.of_mem h ev hev hc

/-! ## One flush -/

section Flush

variable {last : Option Digest}

theorem withOverlays_empty (ps : List Placement) (order : List PlacementID) :
    withOverlays .empty ps order = ps := by
  have hnil : order.filterMap Store.empty.get = [] := by
    rw [List.filterMap_eq_nil_iff]
    exact fun id _ => Store.get_empty id
  unfold withOverlays
  rw [hnil]
  rfl

theorem renderFromState_built [Lowering] (hpath : a.configPath = "") (state : NodeState) :
    a.renderFromState state = .done ((build state).map .built) := by
  unfold EntryActions.renderFromState
  rw [if_pos hpath]
  rfl

/-- What a flush without overlays does once it has a file to write. -/
def flushRendered [Sum256] (last : Option Digest) (data : Rendered) : Go (Err × Option Digest) :=
  if last = some (sum256 data) then do
    let order ← port (.rangeOrder Store.empty.recs.keys)
    return (← persistOverlays .empty order.val, last)
  else do
    match ← port (.writeConfig data) with
    | some err => return (some (.wrap "coalescer: write config" err), last)
    | none =>
      match ← port .reload with
      | some err => return (some (.wrap "coalescer: reload" err), last)
      | none =>
        let order ← port (.rangeOrder Store.empty.recs.keys)
        return (← persistOverlays .empty order.val, some (sum256 data))

/-- A flush without overlays lists, renders and goes on with the file. -/
theorem after_flushBatch [Lowering] [Sum256] (hpath : a.configPath = "") {q : Go (Err × Option Digest)}
    (h : (flushBatch a .empty last).After tr q) :
    (¬ Reloads tr ∧ ∀ out, q = .done out → out.2 = last ∧ out.1 ≠ none) ∨
      ∃ ps order cfg tr', tr = ⟨.listPlacements, .ok ps⟩ ::
          ⟨.rangeOrder Store.empty.recs.keys, order⟩ :: tr' ∧
        build (a.nodeState ps) = .ok cfg ∧ (flushRendered last (.built cfg)).After tr' q := by
  have hcall : ∀ {c : Call} {k : Reply c → Go (Err × Option Digest)} {out : Err × Option Digest},
      (port c >>= k) ≠ .done out := fun h => by cases h
  rcases Prog.after_invoke_iff.mp h with ⟨rfl, rfl⟩ | ⟨r, tr₁, rfl, h₁⟩
  · exact .inl ⟨by simp [Reloads], fun out hout => absurd hout hcall⟩
  · cases r with
    | error err =>
      obtain ⟨rfl, rfl⟩ := Prog.after_done_iff.mp h₁
      refine .inl ⟨by simp [Reloads], fun out hout => ?_⟩
      cases hout
      exact ⟨rfl, Option.some_ne_none _⟩
    | ok ps =>
      rcases Prog.after_invoke_iff.mp h₁ with ⟨rfl, rfl⟩ | ⟨order, tr₂, rfl, h₂⟩
      · exact .inl ⟨by simp [Reloads], fun out hout => absurd hout hcall⟩
      · rw [withOverlays_empty, renderFromState_built hpath] at h₂
        cases hb : build (a.nodeState ps) with
        | error err =>
          rw [hb] at h₂
          obtain ⟨rfl, rfl⟩ := Prog.after_done_iff.mp h₂
          refine .inl ⟨by simp [Reloads], fun out hout => ?_⟩
          cases hout
          exact ⟨rfl, Option.some_ne_none _⟩
        | ok cfg =>
          rw [hb] at h₂
          exact .inr ⟨ps, order, cfg, tr₂, rfl, hb, h₂⟩

theorem persistOverlays_empty_all (order : List PlacementID) {P : Call → Prop} :
    (persistOverlays .empty order).All P :=
  persistOverlays_all fun id p hp => by simp at hp

theorem flushRendered_same_all [Sum256] {data : Rendered} :
    (flushRendered (some (sum256 data)) data).All fun c : Call => c ≠ .reload := by
  unfold flushRendered
  rw [if_pos rfl]
  refine Prog.all_invoke_bind.mpr ⟨(fun h => by cases h), fun order => ?_⟩
  exact (persistOverlays_empty_all _).bind fun _ => trivial

theorem flushRendered_same_ends [Sum256] {data : Rendered} :
    (flushRendered (some (sum256 data)) data).Ends fun out => out.2 = some (sum256 data) := by
  unfold flushRendered
  rw [if_pos rfl]
  refine Prog.ends_invoke_bind.mpr fun order => ?_
  exact Prog.Ends.bind (Prog.ends_true _) fun _ _ => rfl

/-- A file that differs from the last one is written and reloaded, or the flush fails. -/
theorem flushRendered_other [Sum256] {data : Rendered} (hne : last ≠ some (sum256 data))
    {out : Err × Option Digest} (h : (flushRendered last data).After tr (.done out)) :
    (out.2 = last ∧ out.1 ≠ none) ∨ Reloads tr := by
  unfold flushRendered at h
  rw [if_neg hne] at h
  obtain ⟨r, tr₁, rfl, h₁⟩ := Prog.after_invoke_done_iff.mp h
  cases r with
  | some err =>
    obtain ⟨-, hout⟩ := Prog.after_done_iff.mp h₁
    cases hout
    exact .inl ⟨rfl, Option.some_ne_none _⟩
  | none =>
    obtain ⟨r, tr₂, rfl, -⟩ := Prog.after_invoke_done_iff.mp h₁
    exact .inr ⟨_, List.mem_cons_of_mem _ List.mem_cons_self, rfl⟩

theorem flushBatch_reloads [Lowering] [Sum256] (hpath : a.configPath = "") {q : Go (Err × Option Digest)}
    (h : (flushBatch a .empty last).After tr q) (hr : Reloads tr) :
    ∃ cfg, Listed a tr cfg ∧ last ≠ some (sum256 (.built cfg)) := by
  rcases after_flushBatch hpath h with ⟨hno, -⟩ | ⟨ps, order, cfg, tr', rfl, hb, hrest⟩
  · exact absurd hr hno
  · refine ⟨cfg, ⟨ps, List.mem_cons_self, hb⟩, ?_⟩
    rintro rfl
    refine not_reloads_of_all flushRendered_same_all hrest ?_
    obtain ⟨ev, hev, hc⟩ := hr
    rcases List.mem_cons.mp hev with rfl | hev
    · cases hc
    · rcases List.mem_cons.mp hev with rfl | hev
      · cases hc
      · exact ⟨ev, hev, hc⟩

/-- A flush that returns has kept the hash or reloaded; one that succeeds has rendered a listing to the
file written last or reloaded. -/
theorem flushBatch_done [Lowering] [Sum256] (hpath : a.configPath = "") {out : Err × Option Digest}
    (h : (flushBatch a .empty last).After tr (.done out)) :
    (out.2 = last ∨ Reloads tr) ∧
      (out.1 = none → ∃ cfg, Listed a tr cfg ∧ (last = some (sum256 (.built cfg)) ∨ Reloads tr)) := by
  rcases after_flushBatch hpath h with ⟨-, hend⟩ | ⟨ps, order, cfg, tr', rfl, hb, hrest⟩
  · obtain ⟨hlast, herr⟩ := hend out rfl
    exact ⟨.inl hlast, fun hnone => absurd hnone herr⟩
  · have hlisted : Listed a (⟨.listPlacements, .ok ps⟩ ::
        ⟨.rangeOrder Store.empty.recs.keys, order⟩ :: tr') cfg := ⟨ps, List.mem_cons_self, hb⟩
    have hsub : tr' ⊆ ⟨.listPlacements, .ok ps⟩ ::
        ⟨.rangeOrder Store.empty.recs.keys, order⟩ :: tr' :=
      List.subset_cons_of_subset _ (List.subset_cons_self _ _)
    by_cases hsame : last = some (sum256 (.built cfg))
    · subst hsame
      exact ⟨.inl (flushRendered_same_ends.of_after hrest), fun _ => ⟨cfg, hlisted, .inl rfl⟩⟩
    · rcases flushRendered_other hsame hrest with ⟨hlast, herr⟩ | hr
      · exact ⟨.inl hlast, fun hnone => absurd hnone herr⟩
      · exact ⟨.inr (hr.mono hsub), fun _ => ⟨cfg, hlisted, .inr (hr.mono hsub)⟩⟩

end Flush

/-! ## The flush of a batch -/

section Batch

variable {b : Batch}

/-- A request has been answered with success. -/
def Succeeds (tr : List GoEvent) : Prop := ∃ ev ∈ tr, ∃ ticket, ev.call = .answer ticket none

theorem not_reloads_answerAll {err : Err} {reqs : List RenderReq} {q : Go Unit}
    (h : (answerAll err reqs).After tr q) : ¬ Reloads tr :=
  not_reloads_of_all (answerAll_all (fun _ _ h => by cases h) err reqs) h

theorem eq_none_of_answerAll {err : Err} {reqs : List RenderReq} {q : Go Unit}
    (h : (answerAll err reqs).After tr q) (hs : Succeeds tr) : err = none := by
  obtain ⟨ev, hev, ticket, hc⟩ := hs
  obtain ⟨ticket', hc'⟩ := (answerAll_calls err reqs).of_mem h ev hev
  rw [hc] at hc'
  cases hc'
  rfl

theorem flushRendered_all [Sum256] {P : Call → Prop} (hrange : ∀ ids, P (.rangeOrder ids))
    (hwrite : ∀ data, P (.writeConfig data)) (hreload : P .reload) (last : Option Digest)
    (data : Rendered) : (flushRendered last data).All P := by
  unfold flushRendered
  split_ifs
  · exact Prog.all_invoke_bind.mpr ⟨hrange _, fun order =>
      (persistOverlays_empty_all _).bind fun _ => trivial⟩
  · refine Prog.all_invoke_bind.mpr ⟨hwrite _, fun r => ?_⟩
    cases r with
    | some err => trivial
    | none =>
      refine Prog.all_invoke_bind.mpr ⟨hreload, fun r => ?_⟩
      cases r with
      | some err => trivial
      | none =>
        exact Prog.all_invoke_bind.mpr ⟨hrange _, fun order =>
          (persistOverlays_empty_all _).bind fun _ => trivial⟩

theorem not_succeeds_flushBatch [Lowering] [Sum256] (hpath : a.configPath = "") {last : Option Digest}
    {q : Go (Err × Option Digest)} (h : (flushBatch a .empty last).After tr q) : ¬ Succeeds tr := by
  have hall : (flushBatch a .empty last).All fun c : Call => ∀ ticket err, c ≠ .answer ticket err := by
    refine Prog.all_invoke_bind.mpr ⟨(fun _ _ h => by cases h), fun r => ?_⟩
    cases r with
    | error err => trivial
    | ok ps =>
      refine Prog.all_invoke_bind.mpr ⟨(fun _ _ h => by cases h), fun order => ?_⟩
      rw [withOverlays_empty, renderFromState_built hpath]
      cases build (a.nodeState ps) with
      | error err => trivial
      | ok cfg =>
        exact flushRendered_all (fun _ _ _ h => by cases h) (fun _ _ _ h => by cases h)
          (fun _ _ h => by cases h) last (.built cfg)
  rintro ⟨ev, hev, ticket, hc⟩
  exact hall.of_mem h ev hev ticket none hc

/-- The parts of a flush: nothing yet, the flush proper, or the answers after it. -/
theorem after_doFlush [Lowering] [Sum256] (hb : b.overlays = .empty) {q : Go Batch}
    (h : (doFlush a b).After tr q) :
    tr = [] ∨ (∃ p', (flushBatch a .empty b.lastHash).After tr p') ∨
      ∃ out tr₁ tr₂ q', tr = tr₁ ++ tr₂ ∧ (flushBatch a .empty b.lastHash).After tr₁ (.done out) ∧
        (answerAll out.1 b.pending).After tr₂ q' := by
  unfold doFlush at h
  split_ifs at h
  · exact .inl (Prog.after_done_iff.mp h).1
  · rw [hb] at h
    rcases Prog.after_bind_iff.mp h with ⟨p', hp, -⟩ | ⟨out, tr₁, tr₂, rfl, hp, hrest⟩
    · exact .inr (.inl ⟨p', hp⟩)
    · rcases Prog.after_bind_iff.mp hrest with ⟨q', hq, -⟩ | ⟨_, tr₃, tr₄, rfl, hq, hend⟩
      · exact .inr (.inr ⟨out, tr₁, tr₂, q', rfl, hp, hq⟩)
      · obtain ⟨rfl, -⟩ := Prog.after_done_iff.mp hend
        rw [List.append_nil]
        exact .inr (.inr ⟨out, tr₁, tr₃, _, rfl, hp, hq⟩)

theorem doFlush_done [Lowering] [Sum256] (hpath : a.configPath = "") (hb : b.overlays = .empty) {b' : Batch}
    (h : (doFlush a b).After tr (.done b')) :
    b'.overlays = .empty ∧ (b'.lastHash = b.lastHash ∨ Reloads tr) := by
  unfold doFlush at h
  split_ifs at h
  · obtain ⟨-, heq⟩ := Prog.after_done_iff.mp h
    cases heq
    exact ⟨hb, .inl rfl⟩
  · rw [hb] at h
    obtain ⟨out, tr₁, tr₂, rfl, hp, hrest⟩ := Prog.after_bind_done_iff.mp h
    obtain ⟨_, tr₃, tr₄, rfl, -, hend⟩ := Prog.after_bind_done_iff.mp hrest
    obtain ⟨-, heq⟩ := Prog.after_done_iff.mp hend
    cases heq
    refine ⟨rfl, (flushBatch_done hpath hp).1.imp_right fun hr => ?_⟩
    exact hr.mono (List.subset_append_left _ _)

theorem doFlush_reloads [Lowering] [Sum256] (hpath : a.configPath = "") (hb : b.overlays = .empty)
    {q : Go Batch} (h : (doFlush a b).After tr q) (hr : Reloads tr) :
    ∃ cfg, Listed a tr cfg ∧ b.lastHash ≠ some (sum256 (.built cfg)) := by
  rcases after_doFlush hb h with rfl | ⟨p', hp⟩ | ⟨out, tr₁, tr₂, q', rfl, hp, hq⟩
  · simp [Reloads] at hr
  · exact flushBatch_reloads hpath hp hr
  · have hr₁ : Reloads tr₁ := by
      obtain ⟨ev, hev, hc⟩ := hr
      rcases List.mem_append.mp hev with hev | hev
      · exact ⟨ev, hev, hc⟩
      · exact absurd ⟨ev, hev, hc⟩ (not_reloads_answerAll hq)
    obtain ⟨cfg, hlisted, hne⟩ := flushBatch_reloads hpath hp hr₁
    exact ⟨cfg, hlisted.mono (List.subset_append_left _ _), hne⟩

theorem doFlush_succeeds [Lowering] [Sum256] (hpath : a.configPath = "") (hb : b.overlays = .empty)
    {q : Go Batch} (h : (doFlush a b).After tr q) (hs : Succeeds tr) :
    ∃ cfg, Listed a tr cfg ∧ (b.lastHash = some (sum256 (.built cfg)) ∨ Reloads tr) := by
  rcases after_doFlush hb h with rfl | ⟨p', hp⟩ | ⟨out, tr₁, tr₂, q', rfl, hp, hq⟩
  · simp [Succeeds] at hs
  · exact absurd hs (not_succeeds_flushBatch hpath hp)
  · have hs₂ : Succeeds tr₂ := by
      obtain ⟨ev, hev, hc⟩ := hs
      rcases List.mem_append.mp hev with hev | hev
      · exact absurd ⟨ev, hev, hc⟩ (not_succeeds_flushBatch hpath hp)
      · exact ⟨ev, hev, hc⟩
    obtain ⟨cfg, hlisted, hor⟩ := (flushBatch_done hpath hp).2 (eq_none_of_answerAll hq hs₂)
    have hsub : tr₁ ⊆ tr₁ ++ tr₂ := List.subset_append_left _ _
    exact ⟨cfg, hlisted.mono hsub, hor.imp_right fun hr => hr.mono hsub⟩

end Batch

/-! ## The loop -/

section Run

variable {maxBatch : ℕ} {b : Batch} {q : Go Err}

theorem overlays_add (hb : b.overlays = .empty) {req : RenderReq} (hreq : req.overlay = none) :
    (b.add req).overlays = .empty := by
  unfold Batch.add
  rw [hreq]
  exact hb

/-- What a flush and all that the loop does after it can show, the loop shows from the start. The
invariant is that there are no overlays and that the hash is the first one until a reload. -/
theorem run_cases [Lowering] [Sum256] {Q : Option Digest → List GoEvent → Prop} (hpath : a.configPath = "")
    (hnil : ∀ last, Q last [])
    (hskip : ∀ last c r tr, c ≠ .reload → (∀ ticket, c ≠ .answer ticket none) → Q last tr →
      Q last (⟨c, r⟩ :: tr))
    (hanswers : ∀ last err reqs q' tr, (answerAll (some err) reqs).After tr q' → Q last tr)
    (hflush : ∀ b : Batch, ∀ q' tr, b.overlays = .empty → (doFlush a b).After tr q' →
      Q b.lastHash tr)
    (happend : ∀ b b' : Batch, ∀ tr tr', b.overlays = .empty → (doFlush a b).After tr (.done b') →
      Q b'.lastHash tr' → Q b.lastHash (tr ++ tr'))
    {rounds : ℕ} (h : (run a maxBatch rounds b).After tr q) (hb : b.overlays = .empty)
    (hplain : Plain tr) : Q b.lastHash tr := by
  induction rounds generalizing b tr with
  | zero =>
    obtain ⟨rfl, -⟩ := Prog.after_done_iff.mp h
    exact hnil _
  | succ n ih =>
    have hloop : ∀ {b : Batch} {tr : List GoEvent}, (doFlush a b >>= run a maxBatch n).After tr q →
        b.overlays = .empty → Plain tr → Q b.lastHash tr := by
      intro b tr h hb hplain
      rcases Prog.after_bind_iff.mp h with ⟨p', hp, -⟩ | ⟨b', tr₁, tr₂, rfl, hp, hrest⟩
      · exact hflush b p' tr hb hp
      · have hb' := (doFlush_done hpath hb hp).1
        exact happend b b' tr₁ tr₂ hb hp (ih hrest hb' (hplain.mono (List.subset_append_right _ _)))
    rcases Prog.after_invoke_iff.mp h with ⟨rfl, -⟩ | ⟨r, tr', rfl, hrest⟩
    · exact hnil _
    · have hplain' : Plain tr' := hplain.mono (List.subset_cons_self _ _)
      refine hskip _ _ _ _ (fun h => by cases h) (fun _ h => by cases h) ?_
      cases r with
      | request req =>
        have hadd := overlays_add hb (hplain _ _ List.mem_cons_self)
        dsimp only at hrest
        split_ifs at hrest
        · have hQ := hloop hrest hadd hplain'
          exact hQ
        · have hQ := ih hrest hadd hplain'
          exact hQ
      | flushTimer => exact hloop hrest hb hplain'
      | cancelled err =>
        rcases Prog.after_bind_iff.mp hrest with ⟨q', hq, -⟩ | ⟨_, tr₁, tr₂, rfl, hq, hend⟩
        · exact hanswers _ _ _ _ _ hq
        · obtain ⟨rfl, -⟩ := Prog.after_done_iff.mp hend
          rw [List.append_nil]
          exact hanswers _ _ _ _ _ hq
      | idle => exact ih hrest hb hplain'

/-- A reload of the loop comes from a listing that renders to something else than the file it started
with. -/
theorem run_reloads [Lowering] [Sum256] (hpath : a.configPath = "") {rounds : ℕ}
    (h : (run a maxBatch rounds b).After tr q) (hb : b.overlays = .empty) (hplain : Plain tr) :
    Reloads tr → ∃ cfg, Listed a tr cfg ∧ b.lastHash ≠ some (sum256 (.built cfg)) := by
  refine run_cases
    (Q := fun last tr => Reloads tr → ∃ cfg, Listed a tr cfg ∧ last ≠ some (sum256 (.built cfg)))
    hpath ?_ ?_ ?_ ?_ ?_ h hb hplain
  · intro last hr
    simp [Reloads] at hr
  · intro last c r tr hc _ hQ hr
    obtain ⟨ev, hev, hev'⟩ := hr
    rcases List.mem_cons.mp hev with rfl | hev
    · exact absurd hev' hc
    · obtain ⟨cfg, hlisted, hne⟩ := hQ ⟨ev, hev, hev'⟩
      exact ⟨cfg, hlisted.mono (List.subset_cons_self _ _), hne⟩
  · intro last err reqs q' tr hq hr
    exact absurd hr (not_reloads_answerAll hq)
  · intro b q' tr hb hq hr
    exact doFlush_reloads hpath hb hq hr
  · intro b b' tr tr' hb hp hQ hr
    by_cases hr₁ : Reloads tr
    · obtain ⟨cfg, hlisted, hne⟩ := doFlush_reloads hpath hb hp hr₁
      exact ⟨cfg, hlisted.mono (List.subset_append_left _ _), hne⟩
    · have hsame := (doFlush_done hpath hb hp).2.resolve_right hr₁
      have hr₂ : Reloads tr' := by
        obtain ⟨ev, hev, hc⟩ := hr
        rcases List.mem_append.mp hev with hev | hev
        · exact absurd ⟨ev, hev, hc⟩ hr₁
        · exact ⟨ev, hev, hc⟩
      obtain ⟨cfg, hlisted, hne⟩ := hQ hr₂
      rw [hsame] at hne
      exact ⟨cfg, hlisted.mono (List.subset_append_right _ _), hne⟩

/-- A request is answered with success only if some listing rendered to the file that the loop started
with, or there was a reload. -/
theorem run_succeeds [Lowering] [Sum256] (hpath : a.configPath = "") {rounds : ℕ}
    (h : (run a maxBatch rounds b).After tr q) (hb : b.overlays = .empty) (hplain : Plain tr) :
    Succeeds tr → ∃ cfg, Listed a tr cfg ∧ (b.lastHash = some (sum256 (.built cfg)) ∨ Reloads tr) := by
  refine run_cases
    (Q := fun last tr =>
      Succeeds tr → ∃ cfg, Listed a tr cfg ∧ (last = some (sum256 (.built cfg)) ∨ Reloads tr))
    hpath ?_ ?_ ?_ ?_ ?_ h hb hplain
  · intro last hs
    simp [Succeeds] at hs
  · intro last c r tr _ hc hQ hs
    obtain ⟨ev, hev, ticket, hev'⟩ := hs
    rcases List.mem_cons.mp hev with rfl | hev
    · exact absurd hev' (hc ticket)
    · obtain ⟨cfg, hlisted, hor⟩ := hQ ⟨ev, hev, ticket, hev'⟩
      have hsub := List.subset_cons_self (⟨c, r⟩ : GoEvent) tr
      exact ⟨cfg, hlisted.mono hsub, hor.imp_right fun hr => hr.mono hsub⟩
  · intro last err reqs q' tr hq hs
    exact absurd (eq_none_of_answerAll hq hs) (Option.some_ne_none _)
  · intro b q' tr hb hq hs
    exact doFlush_succeeds hpath hb hq hs
  · intro b b' tr tr' hb hp hQ hs
    have hleft : tr ⊆ tr ++ tr' := List.subset_append_left _ _
    have hright : tr' ⊆ tr ++ tr' := List.subset_append_right _ _
    by_cases hs₁ : Succeeds tr
    · obtain ⟨cfg, hlisted, hor⟩ := doFlush_succeeds hpath hb hp hs₁
      exact ⟨cfg, hlisted.mono hleft, hor.imp_right fun hr => hr.mono hleft⟩
    · have hs₂ : Succeeds tr' := by
        obtain ⟨ev, hev, hc⟩ := hs
        rcases List.mem_append.mp hev with hev | hev
        · exact absurd ⟨ev, hev, hc⟩ hs₁
        · exact ⟨ev, hev, hc⟩
      obtain ⟨cfg, hlisted, hor⟩ := hQ hs₂
      refine ⟨cfg, hlisted.mono hright, ?_⟩
      rcases (doFlush_done hpath hb hp).2 with hsame | hr
      · rw [hsame] at hor
        exact hor.imp_right fun hr => hr.mono hright
      · exact .inr (hr.mono hleft)

/-- With nothing pending the loop lists only after it has received a request. -/
theorem run_listing_received [Lowering] [Sum256] {rounds : ℕ} {ev : GoEvent}
    (h : (run a maxBatch rounds b).After (tr ++ [ev]) q) (hb : b.pending = [])
    (hev : ev.call = .listPlacements) :
    ∃ timer req, (⟨.receive timer, .request req⟩ : GoEvent) ∈ tr := by
  induction rounds generalizing b tr with
  | zero =>
    obtain ⟨hnil, -⟩ := Prog.after_done_iff.mp h
    simp at hnil
  | succ n ih =>
    rcases Prog.after_invoke_snoc h with ⟨-, hc⟩ | ⟨r, tr', rfl, hrest⟩
    · rw [hev] at hc
      cases hc
    · have hlater : (∃ timer req, (⟨.receive timer, .request req⟩ : GoEvent) ∈ tr') →
          ∃ timer req, (⟨.receive timer, .request req⟩ : GoEvent) ∈ ⟨.receive b.timer, r⟩ :: tr' :=
        fun ⟨timer, req, hmem⟩ => ⟨timer, req, List.mem_cons_of_mem _ hmem⟩
      cases r with
      | request req => exact ⟨_, _, List.mem_cons_self⟩
      | flushTimer =>
        have hskip : doFlush a b = .done b := by
          unfold doFlush
          rw [if_pos hb]
          rfl
        dsimp only at hrest
        rw [hskip] at hrest
        exact hlater (ih hrest hb)
      | cancelled err =>
        have hall : (do answerAll (some err) b.pending; return some err : Go Err).All
            fun c : Call => ∃ ticket e, c = .answer ticket e :=
          (answerAll_all (fun t e => ⟨t, e, rfl⟩) (some err) b.pending).bind fun _ => trivial
        obtain ⟨ticket, e, hc⟩ := hall.of_mem hrest ev (by simp)
        rw [hev] at hc
        cases hc
      | idle => exact hlater (ih hrest hb)

end Run

end NodeAgent.RenderCoalescer
