import NodeAgent.Lib.Prog

/-!
# Running programs against a world

A handler says what each call does to a world `W`. What the world does not determine (a call that
fails, a clock reading) is an argument of type `E`, chosen by the environment; a predicate on `E`
restricts those choices, for instance to the ones without failures.

* `Steps` replays a list of events on a world, whoever issued them;
* `Run` is a finished run of one program: a branch of its tree whose events the world replays;
* `wp` is the weakest precondition of a program, `Session` a sequence of runs one after another.
-/

namespace Lib

/-- What a call replies and does to the world, given the choice `e` of the environment. -/
structure Handler (S : Sig) (E W : Type) where
  exec : (c : S.Call) → (e : E) → W → S.Reply c × W

variable {S : Sig} {E W α β : Type}

section Steps

variable (H : Handler S E W) (A : E → Prop)

/-- The world `w` replays the events of `tr`, with choices satisfying `A`, and ends as `w'`. -/
def Steps (w : W) : List (Event S) → W → Prop
  | [], w' => w' = w
  | ev :: tr, w' =>
    ∃ e, A e ∧ (H.exec ev.call e w).1 = ev.reply ∧ Steps (H.exec ev.call e w).2 tr w'

variable {H A}

@[simp] theorem steps_nil {w w' : W} : Steps H A w [] w' ↔ w' = w := Iff.rfl

theorem steps_cons {w w' : W} {ev : Event S} {tr : List (Event S)} :
    Steps H A w (ev :: tr) w' ↔
      ∃ e, A e ∧ (H.exec ev.call e w).1 = ev.reply ∧ Steps H A (H.exec ev.call e w).2 tr w' :=
  Iff.rfl

theorem steps_append {w w' : W} {tr tr' : List (Event S)} :
    Steps H A w (tr ++ tr') w' ↔ ∃ w₁, Steps H A w tr w₁ ∧ Steps H A w₁ tr' w' := by
  induction tr generalizing w with
  | nil => simp
  | cons ev tr ih =>
    simp only [List.cons_append, steps_cons, ih]
    constructor
    · rintro ⟨e, he, hr, w₁, h₁, h₂⟩
      exact ⟨w₁, ⟨e, he, hr, h₁⟩, h₂⟩
    · rintro ⟨w₁, ⟨e, he, hr, h₁⟩, h₂⟩
      exact ⟨e, he, hr, w₁, h₁, h₂⟩

theorem Steps.invariant {I : W → Prop} {w w' : W} {tr : List (Event S)} (h : Steps H A w tr w')
    (hstep : ∀ ev ∈ tr, ∀ e w, A e → (H.exec ev.call e w).1 = ev.reply → I w →
      I (H.exec ev.call e w).2) (hw : I w) : I w' := by
  induction tr generalizing w with
  | nil =>
    rw [steps_nil.mp h]
    exact hw
  | cons ev tr ih =>
    obtain ⟨e, he, hr, h⟩ := steps_cons.mp h
    exact ih h (fun ev' hev' => hstep ev' (List.mem_cons_of_mem _ hev'))
      (hstep ev List.mem_cons_self e w he hr hw)

theorem Steps.split_mem {w w' : W} {tr : List (Event S)} (h : Steps H A w tr w') {ev : Event S}
    (hev : ev ∈ tr) :
    ∃ tr₁ tr₂ w₁ e, tr = tr₁ ++ ev :: tr₂ ∧ Steps H A w tr₁ w₁ ∧ A e ∧
      (H.exec ev.call e w₁).1 = ev.reply ∧ Steps H A (H.exec ev.call e w₁).2 tr₂ w' := by
  obtain ⟨tr₁, tr₂, rfl⟩ := List.append_of_mem hev
  obtain ⟨w₁, h₁, e, he, hr, h₂⟩ := steps_append.mp h
  exact ⟨tr₁, tr₂, w₁, e, rfl, h₁, he, hr, h₂⟩

end Steps

/-! ## Runs of one program -/

section Run

variable (H : Handler S E W) (A : E → Prop)

/-- A finished run: `p` takes the world `w` to `w'` through the events `tr` and returns `a`. -/
def Run (p : Prog S α) (w : W) (tr : List (Event S)) (a : α) (w' : W) : Prop :=
  p.After tr (.done a) ∧ Steps H A w tr w'

variable {H A}

@[simp] theorem run_done {a b : α} {w w' : W} {tr : List (Event S)} :
    Run H A (.done a) w tr b w' ↔ tr = [] ∧ b = a ∧ w' = w := by
  simp only [Run, Prog.after_done_iff, Prog.done.injEq]
  constructor
  · rintro ⟨⟨rfl, rfl⟩, h⟩
    exact ⟨rfl, rfl, h⟩
  · rintro ⟨rfl, rfl, rfl⟩
    exact ⟨⟨rfl, rfl⟩, rfl⟩

theorem run_call {c : S.Call} {k : S.Reply c → Prog S α} {w w' : W} {tr : List (Event S)} {a : α} :
    Run H A (.call c k) w tr a w' ↔
      ∃ e tr', A e ∧ tr = ⟨c, (H.exec c e w).1⟩ :: tr' ∧
        Run H A (k (H.exec c e w).1) (H.exec c e w).2 tr' a w' := by
  simp only [Run, Prog.after_call_done_iff]
  constructor
  · rintro ⟨⟨r, tr', rfl, h⟩, e, he, hr, hs⟩
    obtain rfl : (H.exec c e w).1 = r := hr
    exact ⟨e, tr', he, rfl, h, hs⟩
  · rintro ⟨e, tr', he, rfl, h, hs⟩
    exact ⟨⟨_, tr', rfl, h⟩, e, he, rfl, hs⟩

theorem run_bind {p : Prog S α} {f : α → Prog S β} {w w' : W} {tr : List (Event S)} {b : β} :
    Run H A (p >>= f) w tr b w' ↔
      ∃ a tr₁ tr₂ w₁, tr = tr₁ ++ tr₂ ∧ Run H A p w tr₁ a w₁ ∧ Run H A (f a) w₁ tr₂ b w' := by
  simp only [Run, Prog.after_bind_done_iff]
  constructor
  · rintro ⟨⟨a, tr₁, tr₂, rfl, hp, hf⟩, hs⟩
    obtain ⟨w₁, h₁, h₂⟩ := steps_append.mp hs
    exact ⟨a, tr₁, tr₂, w₁, rfl, ⟨hp, h₁⟩, hf, h₂⟩
  · rintro ⟨a, tr₁, tr₂, w₁, rfl, ⟨hp, h₁⟩, hf, h₂⟩
    exact ⟨⟨a, tr₁, tr₂, rfl, hp, hf⟩, steps_append.mpr ⟨w₁, h₁, h₂⟩⟩

theorem Run.world_eq {P : S.Call → Prop} {p : Prog S α} {w w' : W} {tr : List (Event S)} {a : α}
    (h : Run H A p w tr a w') (hp : p.All P) (hP : ∀ c e w, P c → (H.exec c e w).2 = w) :
    w' = w := by
  have hall := hp.of_mem h.1
  refine h.2.invariant (I := fun v => v = w) (fun ev hev e v _ _ hv => ?_) rfl
  rw [hP ev.call e v (hall ev hev), hv]

end Run

/-! ## Weakest preconditions -/

section Wp

variable (H : Handler S E W) (A : E → Prop)

/-- However the environment chooses, the run of the program from `w` ends with `Q` of its events,
its value and the world it leaves. -/
def wp : Prog S α → (List (Event S) → α → W → Prop) → W → Prop
  | .done a, Q, w => Q [] a w
  | .call c k, Q, w => ∀ e, A e →
    wp (k (H.exec c e w).1) (fun tr => Q (⟨c, (H.exec c e w).1⟩ :: tr)) (H.exec c e w).2

variable {H A}

@[simp] theorem wp_done {a : α} {Q : List (Event S) → α → W → Prop} {w : W} :
    wp H A (.done a) Q w ↔ Q [] a w := Iff.rfl

theorem wp_call {c : S.Call} {k : S.Reply c → Prog S α} {Q : List (Event S) → α → W → Prop}
    {w : W} :
    wp H A (.call c k) Q w ↔ ∀ e, A e →
      wp H A (k (H.exec c e w).1) (fun tr => Q (⟨c, (H.exec c e w).1⟩ :: tr)) (H.exec c e w).2 :=
  Iff.rfl

/-- The weakest precondition speaks about exactly the finished runs. -/
theorem wp_iff_run {p : Prog S α} {Q : List (Event S) → α → W → Prop} {w : W} :
    wp H A p Q w ↔ ∀ tr a w', Run H A p w tr a w' → Q tr a w' := by
  induction p generalizing Q w with
  | done b =>
    constructor
    · intro h tr a w' hr
      obtain ⟨rfl, rfl, rfl⟩ := run_done.mp hr
      exact h
    · intro h
      exact h [] b w (run_done.mpr ⟨rfl, rfl, rfl⟩)
  | call c k ih =>
    rw [wp_call]
    constructor
    · intro h tr a w' hr
      obtain ⟨e, tr', he, rfl, hk⟩ := run_call.mp hr
      exact (ih _).mp (h e he) tr' a w' hk
    · intro h e he
      exact (ih _).mpr fun tr a w' hr => h _ a w' (run_call.mpr ⟨e, tr, he, rfl, hr⟩)

theorem wp_bind {p : Prog S α} {f : α → Prog S β} {Q : List (Event S) → β → W → Prop} {w : W} :
    wp H A (p >>= f) Q w ↔
      wp H A p (fun tr a w' => wp H A (f a) (fun tr' => Q (tr ++ tr')) w') w := by
  induction p generalizing Q w with
  | done a => rfl
  | call c k ih =>
    rw [Prog.call_bind, wp_call, wp_call]
    exact forall₂_congr fun e _ => ih _

theorem wp_mono {p : Prog S α} {Q Q' : List (Event S) → α → W → Prop} {w : W}
    (h : wp H A p Q w) (hQ : ∀ tr a w', Q tr a w' → Q' tr a w') : wp H A p Q' w :=
  wp_iff_run.mpr fun tr a w' hr => hQ tr a w' (wp_iff_run.mp h tr a w' hr)

end Wp

/-! ## Replaying a run from a list of choices -/

section Replay

variable [Inhabited E]

/-- The run of `p` under the given choices of the environment; where they end it chooses the
default. -/
def replay (H : Handler S E W) : Prog S α → List E → W → List (Event S) × α × W
  | .done a, _, w => ([], a, w)
  | .call c k, es, w =>
    let o := H.exec c (es.headD default) w
    let rest := replay H (k o.1) es.tail o.2
    (⟨c, o.1⟩ :: rest.1, rest.2)

theorem run_replay {H : Handler S E W} {A : E → Prop} (hd : A default) {p : Prog S α}
    (es : List E) (hes : ∀ e ∈ es, A e) (w : W) :
    Run H A p w (replay H p es w).1 (replay H p es w).2.1 (replay H p es w).2.2 := by
  induction p generalizing es w with
  | done a => exact run_done.mpr ⟨rfl, rfl, rfl⟩
  | call c k ih =>
    refine run_call.mpr ⟨(es.headD default), _, ?_, rfl, ih _ _ (fun e he => hes e ?_) _⟩
    · cases es with
      | nil => exact hd
      | cons e es => exact hes e List.mem_cons_self
    · exact List.mem_of_mem_tail he

end Replay

/-! ## Sessions -/

section Session

variable {ι : Type}

/-- One run in a session: its input, the world before, the events, the value, the world after. -/
structure Turn (S : Sig) (W ι α : Type) where
  input : ι
  before : W
  trace : List (Event S)
  value : α
  after : W

variable (H : Handler S E W) (A : E → Prop) (prog : ι → Prog S α)

/-- Programs run one after another, each from the world the last one left. -/
inductive Session : W → List (Turn S W ι α) → W → Prop
  | nil (w : W) : Session w [] w
  | cons {w w' : W} {t : Turn S W ι α} {ts : List (Turn S W ι α)} (hw : t.before = w)
      (hrun : Run H A (prog t.input) w t.trace t.value t.after) (hts : Session t.after ts w') :
      Session w (t :: ts) w'

variable {H A prog}

/-- An invariant kept by every turn that meets the condition `C` holds before each of them. -/
theorem Session.invariant {I : W → Prop} {C : Turn S W ι α → Prop} {w w' : W}
    {ts : List (Turn S W ι α)} (h : Session H A prog w ts w') (hw : I w) (hC : ∀ t ∈ ts, C t)
    (hstep : ∀ t, Run H A (prog t.input) t.before t.trace t.value t.after → I t.before → C t →
      I t.after) :
    I w' ∧ ∀ t ∈ ts, I t.before ∧ I t.after ∧
      Run H A (prog t.input) t.before t.trace t.value t.after := by
  induction h with
  | nil w => exact ⟨hw, by simp⟩
  | cons hb hrun _ ih =>
    subst hb
    have hI := hstep _ hrun hw (hC _ List.mem_cons_self)
    obtain ⟨hw', hts⟩ := ih hI fun t ht => hC t (List.mem_cons_of_mem _ ht)
    refine ⟨hw', fun t ht => ?_⟩
    rcases List.mem_cons.mp ht with rfl | ht
    · exact ⟨hw, hI, hrun⟩
    · exact hts t ht

/-- If, from a world with `I`, a turn keeps `I` exactly when it meets `C`, then `I` holds after every
turn of a session exactly when every turn meets `C`. -/
theorem Session.forall_after_iff {I : W → Prop} {C : Turn S W ι α → Prop} {w w' : W}
    {ts : List (Turn S W ι α)} (h : Session H A prog w ts w') (hw : I w)
    (hstep : ∀ t ∈ ts, I t.before → (I t.after ↔ C t)) :
    (∀ t ∈ ts, I t.after) ↔ ∀ t ∈ ts, C t := by
  induction h with
  | nil w => simp
  | @cons w w' t ts hb _ _ ih =>
    subst hb
    have ht : I t.after ↔ C t := hstep t List.mem_cons_self hw
    rw [List.forall_mem_cons, List.forall_mem_cons, ← ht]
    refine and_congr_right fun hI => ih hI fun t' ht' => hstep t' (List.mem_cons_of_mem _ ht')

/-- A relation between the turns so far and the world, kept by every turn, holds before each. -/
theorem Session.history {I : List (Turn S W ι α) → W → Prop} {w w' : W}
    {ts : List (Turn S W ι α)} (h : Session H A prog w ts w') (hw : I [] w)
    (hstep : ∀ pre t post, ts = pre ++ t :: post →
      Run H A (prog t.input) t.before t.trace t.value t.after → I pre t.before →
      I (pre ++ [t]) t.after) :
    ∀ pre t post, ts = pre ++ t :: post →
      I pre t.before ∧ Run H A (prog t.input) t.before t.trace t.value t.after := by
  induction h generalizing I with
  | nil w => exact fun pre t post h => absurd h (by simp)
  | @cons w w' t ts hb hrun _ ih =>
    subst hb
    intro pre u post hsplit
    cases pre with
    | nil =>
      obtain ⟨rfl, -⟩ := List.cons_eq_cons.mp hsplit
      exact ⟨hw, hrun⟩
    | cons v pre =>
      obtain ⟨rfl, hrest⟩ := List.cons_eq_cons.mp hsplit
      -- the relation for the rest of the session has this turn in its past
      refine ih (I := fun pre => I (t :: pre)) (hstep [] t ts rfl hrun hw) ?_ pre u post hrest
      exact fun pre' u' post' h' => hstep (t :: pre') u' post' (by rw [h', List.cons_append])

/-- The session of the given inputs, each with the choices made during its run. -/
def replaySession [Inhabited E] (H : Handler S E W) (prog : ι → Prog S α) :
    List (ι × List E) → W → List (Turn S W ι α) × W
  | [], w => ([], w)
  | (i, es) :: rest, w =>
    let o := replay H (prog i) es w
    let r := replaySession H prog rest o.2.2
    (⟨i, w, o.1, o.2.1, o.2.2⟩ :: r.1, r.2)

theorem session_replay [Inhabited E] {H : Handler S E W} {A : E → Prop} {prog : ι → Prog S α}
    (hd : A default) (xs : List (ι × List E)) (hes : ∀ x ∈ xs, ∀ e ∈ x.2, A e) (w : W) :
    Session H A prog w (replaySession H prog xs w).1 (replaySession H prog xs w).2 := by
  induction xs generalizing w with
  | nil => exact .nil w
  | cons x xs ih =>
    obtain ⟨i, es⟩ := x
    refine .cons rfl (run_replay hd es (hes _ List.mem_cons_self) w) (ih ?_ _)
    exact fun x hx => hes x (List.mem_cons_of_mem _ hx)

theorem Session.run_of_mem {w w' : W} {ts : List (Turn S W ι α)} (h : Session H A prog w ts w')
    {t : Turn S W ι α} (ht : t ∈ ts) :
    Run H A (prog t.input) t.before t.trace t.value t.after :=
  ((h.invariant (I := fun _ => True) (C := fun _ => True) trivial (fun _ _ => trivial)
    (fun _ _ _ _ => trivial)).2 t ht).2.2

end Session

end Lib
