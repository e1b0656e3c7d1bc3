import NodeAgent.Backends.Listener
import NodeAgent.Lib.Since

/-!
# What the listener leaves in the registry

The builder refuses a node's whole configuration if a single backend has no address. The decoder lets a
message through that has none: of the fields of an upstream only the id is required. The registry is told by
the last message on each backend, and so is whether the builder accepts it.
-/

namespace NodeAgent

open Jsonv1 Singboxgen Lib

namespace Listener

variable (l : Listener)

/-- The registry after some messages, from an empty one. -/
def registryAfter (msgs : List UpstreamChangedDTO) : Registry :=
  msgs.foldl (fun reg dto => (l.handle (unmarshalUpstreamChanged dto) reg).2) .new

/-- The message is accepted, for this node and about the backend. -/
def Concerns (id : BackendID) (dto : UpstreamChangedDTO) : Prop :=
  dto.upstreamNodeID = id ∧ id ≠ "" ∧ dto.nodeID = l.nodeID

instance (id : BackendID) (dto : UpstreamChangedDTO) : Decidable (l.Concerns id dto) := by
  unfold Concerns
  infer_instance

/-- One of the three addresses is given. -/
def Addressed (dto : UpstreamChangedDTO) : Prop :=
  dto.upstreamInternalWgIP.getD "" ≠ "" ∨ dto.upstreamRealityIP.getD "" ≠ "" ∨
    dto.upstreamPublicHost ≠ ""

/-- The backend was registered by this message, and no later one is about it. -/
def Registered (msgs : List UpstreamChangedDTO) (dto : UpstreamChangedDTO) : Prop :=
  ∃ pre post, msgs = pre ++ dto :: post ∧ l.Concerns dto.upstreamNodeID dto ∧ dto.removed = false ∧
    ∀ later ∈ post, ¬ l.Concerns dto.upstreamNodeID later

/-- The spec that a message registers. -/
def specOf (dto : UpstreamChangedDTO) : BackendSpec where
  id := dto.upstreamNodeID
  name := dto.upstreamName
  address :=
    let addr := dto.upstreamInternalWgIP.getD ""
    let addr := if addr = "" then dto.upstreamRealityIP.getD "" else addr
    if addr = "" then dto.upstreamPublicHost else addr
  port := l.port
  serverName := dto.upstreamPublicHost
  transport := l.transport

section Messages

variable {l} {msgs : List UpstreamChangedDTO} {dto : UpstreamChangedDTO} {id : BackendID}

theorem address_specOf : (l.specOf dto).address ≠ "" ↔ Addressed dto := by
  unfold specOf Addressed
  dsimp only
  split_ifs <;> simp_all

/-- A message that is accepted and for this node removes the backend or registers it. -/
theorem handle_eq (reg : Registry) (dto : UpstreamChangedDTO) :
    (l.handle (unmarshalUpstreamChanged dto) reg).2 =
      if l.Concerns dto.upstreamNodeID dto then
        if dto.removed then (reg.remove dto.upstreamNodeID).1 else (reg.upsert (l.specOf dto)).1
      else reg := by
  unfold unmarshalUpstreamChanged Concerns
  by_cases hne : dto.upstreamNodeID = ""
  · simp [hne, handle]
  · by_cases hnode : dto.nodeID = l.nodeID
    · simp only [hne, hnode, handle, if_false, ne_eq, not_true_eq_false, not_false_eq_true, and_self,
        if_true]
      split_ifs <;> rfl
    · simp [hne, hnode, handle]

/-- What a message does to the entry of a backend. -/
theorem get_handle (reg : Registry) (dto : UpstreamChangedDTO) (id : BackendID) :
    (l.handle (unmarshalUpstreamChanged dto) reg).2.get id =
      if l.Concerns id dto then if dto.removed then none else some (l.specOf dto) else reg.get id := by
  rw [handle_eq]
  by_cases hid : dto.upstreamNodeID = id
  · subst hid
    by_cases hown : l.Concerns dto.upstreamNodeID dto
    · rw [if_pos hown, if_pos hown]
      split_ifs
      · exact (reg.get_remove _ _).trans (if_pos rfl)
      · have hne : (l.specOf dto).id ≠ "" := hown.2.1
        exact (reg.get_upsert hne _).trans (if_pos rfl)
    · rw [if_neg hown, if_neg hown]
  · have hnot : ¬ l.Concerns id dto := fun h => hid h.1
    rw [if_neg hnot]
    split_ifs with hown hrem
    · exact (reg.get_remove _ _).trans (if_neg (Ne.symm hid))
    · have hne : (l.specOf dto).id ≠ "" := hown.2.1
      exact (reg.get_upsert hne _).trans (if_neg (Ne.symm hid))
    · rfl

theorem registered_iff_since : l.Registered msgs dto ↔
    Since (fun _ m => dto = m ∧ l.Concerns m.upstreamNodeID m ∧ m.removed = false)
      (fun later => ¬ l.Concerns dto.upstreamNodeID later) msgs := by
  constructor
  · rintro ⟨pre, post, heq, hown, hrem, hlater⟩
    exact ⟨pre, dto, post, heq, ⟨rfl, hown, hrem⟩, hlater⟩
  · rintro ⟨pre, _, post, heq, ⟨rfl, hown, hrem⟩, hlater⟩
    exact ⟨pre, post, heq, hown, hrem, hlater⟩

theorem registered_snoc {last : UpstreamChangedDTO} : l.Registered (msgs ++ [last]) dto ↔
    (l.Registered msgs dto ∧ ¬ l.Concerns dto.upstreamNodeID last) ∨
      (dto = last ∧ l.Concerns last.upstreamNodeID last ∧ last.removed = false) := by
  rw [registered_iff_since, registered_iff_since, since_snoc]
  exact or_comm

/-- The registry has what the last message on each backend has registered. -/
theorem get_registryAfter {s : BackendSpec} : (l.registryAfter msgs).get id = some s ↔
    ∃ dto, l.Registered msgs dto ∧ dto.upstreamNodeID = id ∧ s = l.specOf dto := by
  induction msgs using List.reverseRecOn with
  | nil =>
    have hnone : (l.registryAfter []).get id = none := by simp [registryAfter, Registry.new, Registry.get]
    rw [hnone]
    simp [Registered]
  | append_singleton msgs last ih =>
    rw [registryAfter, List.foldl_append]
    change (l.handle (unmarshalUpstreamChanged last) (l.registryAfter msgs)).2.get id = some s ↔ _
    rw [get_handle]
    simp only [registered_snoc]
    by_cases hlast : l.Concerns id last
    · rw [if_pos hlast]
      obtain ⟨rfl, hne, hnode⟩ := hlast
      constructor
      · intro h
        split_ifs at h with hrem
        cases h
        exact ⟨last, .inr ⟨rfl, ⟨rfl, hne, hnode⟩, by simpa using hrem⟩, rfl, rfl⟩
      · rintro ⟨dto, (⟨-, hno⟩ | ⟨rfl, -, hrem⟩), hid, rfl⟩
        · rw [hid] at hno
          exact absurd ⟨rfl, hne, hnode⟩ hno
        · rw [if_neg (by simp [hrem])]
    · rw [if_neg hlast, ih]
      constructor
      · rintro ⟨dto, hreg, rfl, rfl⟩
        exact ⟨dto, .inl ⟨hreg, hlast⟩, rfl, rfl⟩
      · rintro ⟨dto, (⟨hreg, -⟩ | ⟨rfl, hown, -⟩), rfl, rfl⟩
        · exact ⟨dto, hreg, rfl, rfl⟩
        · exact absurd hown hlast

/-- The builder accepts the registry exactly if the last message on each backend that is registered has an
address; the other checks never fail. -/
theorem registry_renderable_iff (l : Listener) (msgs : List UpstreamChangedDTO) :
    (∃ ids, validateBackends [] (l.registryAfter msgs).all = .ok ids) ↔
      ∀ dto, l.Registered msgs dto → Addressed dto := by
  rw [validateBackends_ok_iff, Registry.map_id_all]
  constructor
  · rintro ⟨hall, -⟩ dto hreg
    have hget := get_registryAfter.mpr ⟨dto, hreg, rfl, rfl⟩
    exact address_specOf.mp (hall _ ((Registry.mem_all _ _).mpr hget)).2.1
  · intro hall
    refine ⟨fun s hs => ?_, (l.registryAfter msgs).nodup, fun _ _ => List.not_mem_nil⟩
    obtain ⟨dto, hreg, hid, heq⟩ := get_registryAfter.mp ((Registry.mem_all _ _).mp hs)
    have hown : l.Concerns dto.upstreamNodeID dto := hreg.choose_spec.choose_spec.2.1
    subst heq
    exact ⟨hown.2.1, address_specOf.mpr (hall dto hreg), l.port_ne⟩

end Messages

/-- A listener of node `n`. -/
def onPort8443 : Listener where
  nodeID := "n"
  port := 8443
  port_ne := by decide

/-- An upstream with its id and nothing else. -/
def idOnly : UpstreamChangedDTO where
  nodeID := "n"
  upstreamNodeID := "b"

/-- The message is accepted, and with its backend no configuration can be built. -/
theorem registry_not_renderable : (∃ change, unmarshalUpstreamChanged idOnly = .ok change) ∧
    (onPort8443.registryAfter [idOnly]).all = [onPort8443.specOf idOnly] ∧
    validateBackends [] (onPort8443.registryAfter [idOnly]).all =
      .error (.new "singboxgen: backend b requires address+port") :=
  ⟨⟨_, rfl⟩, by decide +kernel, by decide +kernel⟩

end Listener

end NodeAgent
