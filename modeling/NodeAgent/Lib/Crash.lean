import NodeAgent.Lib.Exec

/-!
# Processes that may stop at any call

A process is started again and again. Each time its program is cut short at some call, or returns, and the
world is left as it is then; a loss of power may change it further. `Safe` is what holds at every moment of a
run, and `Boots` a sequence of starts.
-/

namespace Lib

variable {S : Sig} {E W α β : Type}

/-! ## Every moment of a run -/

section Safe

variable (H : Handler S E W) (A : E → Prop)

/-- From `w` on, `K` holds at every moment of the program, and `Q` when it returns. -/
def Safe (K : W → Prop) (Q : α → W → Prop) : Prog S α → W → Prop
  | .done a, w => K w ∧ Q a w
  | .call c k, w => K w ∧ ∀ e, A e → Safe K Q (k (H.exec c e w).1) (H.exec c e w).2

variable {H A} {K : W → Prop} {Q : α → W → Prop} {R : β → W → Prop} {p q : Prog S α} {w w' : W}
  {tr : List (Event S)}

theorem safe_invoke {c : S.Call} {f : S.Reply c → Prog S α} :
    Safe H A K Q (Prog.invoke c >>= f) w ↔
      K w ∧ ∀ e, A e → Safe H A K Q (f (H.exec c e w).1) (H.exec c e w).2 := Iff.rfl

theorem Safe.bind {f : α → Prog S β} (hp : Safe H A K Q p w)
    (hf : ∀ a v, K v → Q a v → Safe H A K R (f a) v) : Safe H A K R (p >>= f) w := by
  induction p generalizing w with
  | done a => exact hf a w hp.1 hp.2
  | call c k ih => exact ⟨hp.1, fun e he => ih _ (hp.2 e he)⟩

theorem Safe.imp {K' : W → Prop} {Q' : α → W → Prop} (hp : Safe H A K Q p w)
    (hK : ∀ v, K v → K' v) (hQ : ∀ a v, K v → Q a v → Q' a v) : Safe H A K' Q' p w := by
  induction p generalizing w with
  | done a => exact ⟨hK w hp.1, hQ a w hp.1 hp.2⟩
  | call c k ih => exact ⟨hK w hp.1, fun e he => ih _ (hp.2 e he)⟩

/-- The rest of the program is safe where it is cut. -/
theorem Safe.after (hp : Safe H A K Q p w) (h : p.After tr q) (hs : Steps H A w tr w') :
    Safe H A K Q q w' := by
  induction h generalizing w with
  | nil p =>
    rw [steps_nil.mp hs]
    exact hp
  | cons r _ ih =>
    obtain ⟨e, he, hr, hs⟩ := steps_cons.mp hs
    have hrest := hp.2 e he
    dsimp only at hr
    rw [hr] at hrest
    exact ih hrest hs

theorem Safe.keeps (h : Safe H A K Q p w) : K w := by
  cases p with
  | done a => exact h.1
  | call c k => exact h.1

end Safe

/-! ## Starts -/

section Boots

variable {ι : Type}

/-- One start: its input, how far the program came, and the world that the next start finds. -/
structure Boot (S : Sig) (W ι α : Type) where
  input : ι
  before : W
  trace : List (Event S)
  rest : Prog S α
  after : W

variable (H : Handler S E W) (A : E → Prop) (lose : W → W → Prop) (prog : ι → Prog S α)

/-- The program of each start is cut short anywhere, or returns; then power may be lost. -/
inductive Boots : W → List (Boot S W ι α) → W → Prop
  | nil (w : W) : Boots w [] w
  | cons {w v w' : W} {b : Boot S W ι α} {bs : List (Boot S W ι α)} (hw : b.before = w)
      (hafter : (prog b.input).After b.trace b.rest) (hsteps : Steps H A w b.trace v)
      (hlose : b.after = v ∨ lose v b.after) (hbs : Boots b.after bs w') : Boots w (b :: bs) w'

variable {H A lose prog}

theorem Boots.keeps {K : W → Prop} {C : ι → Prop} {w w' : W} {bs : List (Boot S W ι α)}
    (h : Boots H A lose prog w bs w') (hw : K w) (hC : ∀ b ∈ bs, C b.input)
    (hrun : ∀ i w tr q w', C i → K w → (prog i).After tr q → Steps H A w tr w' → K w')
    (hlose : ∀ w w', lose w w' → K w → K w') : K w' := by
  induction h with
  | nil w => exact hw
  | @cons w v w' b bs hb hafter hsteps hafterwards _ ih =>
    obtain ⟨hCb, hC⟩ := List.forall_mem_cons.mp hC
    have hv := hrun b.input w b.trace b.rest v hCb hw hafter hsteps
    refine ih ?_ hC
    rcases hafterwards with heq | hloss
    · rw [heq]
      exact hv
    · exact hlose v b.after hloss hv

theorem boots_append {w w' : W} {bs bs' : List (Boot S W ι α)} :
    Boots H A lose prog w (bs ++ bs') w' ↔
      ∃ v, Boots H A lose prog w bs v ∧ Boots H A lose prog v bs' w' := by
  induction bs generalizing w with
  | nil =>
    refine ⟨fun h => ⟨w, .nil w, h⟩, ?_⟩
    rintro ⟨v, h, h'⟩
    cases h
    exact h'
  | cons b bs ih =>
    constructor
    · rintro (_ | ⟨hw, hafter, hsteps, hlose, hbs⟩)
      obtain ⟨v, h, h'⟩ := ih.mp hbs
      exact ⟨v, .cons hw hafter hsteps hlose h, h'⟩
    · rintro ⟨v, (_ | ⟨hw, hafter, hsteps, hlose, hbs⟩), h'⟩
      exact .cons hw hafter hsteps hlose (ih.mpr ⟨v, hbs, h'⟩)

/-- What every start keeps holds before each of them. -/
theorem Boots.before {K : W → Prop} {w w' : W} {bs : List (Boot S W ι α)}
    (h : Boots H A lose prog w bs w') (hw : K w)
    (hrun : ∀ i w tr q w', K w → (prog i).After tr q → Steps H A w tr w' → K w')
    (hlose : ∀ w w', lose w w' → K w → K w') {b : Boot S W ι α} (hb : b ∈ bs) :
    K b.before ∧ (prog b.input).After b.trace b.rest ∧ ∃ v, Steps H A b.before b.trace v := by
  obtain ⟨pre, post, rfl⟩ := List.append_of_mem hb
  obtain ⟨v, hpre, hpost⟩ := boots_append.mp h
  have hv := hpre.keeps (C := fun _ => True) hw (fun _ _ => trivial)
    (fun i w tr q w' _ => hrun i w tr q w') hlose
  cases hpost with
  | cons hbefore hafter hsteps _ _ =>
    rw [hbefore]
    exact ⟨hv, hafter, _, hsteps⟩

/-- Starts that all return, under the given choices of the environment. -/
def replayBoots [Inhabited E] (H : Handler S E W) (prog : ι → Prog S α) :
    List (ι × List E) → W → List (Boot S W ι α) × W
  | [], w => ([], w)
  | (input, es) :: rest, w =>
    let o := replay H (prog input) es w
    let bs := replayBoots H prog rest o.2.2
    (⟨input, w, o.1, .done o.2.1, o.2.2⟩ :: bs.1, bs.2)

theorem boots_replay [Inhabited E] (l : List (ι × List E)) (w : W) :
    Boots H (fun _ => True) lose prog w (replayBoots H prog l w).1 (replayBoots H prog l w).2 := by
  induction l generalizing w with
  | nil => exact .nil w
  | cons x l ih =>
    obtain ⟨hafter, hsteps⟩ := run_replay (A := fun _ => True) trivial x.2 (fun _ _ => trivial) w
    exact .cons rfl hafter hsteps (.inl rfl) (ih _)

end Boots

end Lib
