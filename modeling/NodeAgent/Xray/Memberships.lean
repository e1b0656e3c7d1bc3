import NodeAgent.Xray.Client

/-!
# What adding a user leaves behind

`AddUser` adds the user to the inbound of its transport and to the mirror. An inbound that has the
user already is answered by removing the user everywhere and adding it again to that one inbound.
-/

namespace NodeAgent.Xray

open Lib

/-! ## Users of an inbound -/

namespace Server

variable (s : Server) (tag t : String) (u d : ClientID)

theorem has_set (flow : String) :
    (s.set tag u (some flow)).Has t d ↔ (t = tag ∧ d = u) ∨ s.Has t d := by
  unfold Has set
  split_ifs with h
  · simp [h]
  · simp [h]

theorem has_without (tags : List String) :
    (s.without tags u).Has t d ↔ s.Has t d ∧ ¬ (t ∈ tags ∧ d = u) := by
  unfold Has without
  split_ifs with h
  · simp [h]
  · simp [h]

theorem set_none_of_not_has (h : ¬ s.Has tag u) : s.set tag u none = s := by
  funext t d
  unfold set
  split_ifs with heq
  · obtain ⟨rfl, rfl⟩ := heq
    exact (Option.not_isSome_iff_eq_none.mp h).symm
  · rfl

theorem without_cons (tags : List String) :
    (s.set tag u none).without tags u = s.without (tag :: tags) u := by
  funext t d
  unfold set without
  by_cases hd : d = u
  · by_cases ht : t ∈ tags
    · simp [hd, ht]
    · by_cases heq : t = tag <;> simp [hd, ht, heq]
  · simp [hd]

theorem without_congr {tags tags' : List String} (h : ∀ t, t ∈ tags ↔ t ∈ tags') :
    s.without tags u = s.without tags' u := by
  funext t d
  unfold without
  simp only [h]

/-- The user is put into the inbound; if it was there, it is first removed from all of `tags`. -/
def readd (tags : List String) (flow : String) : Server :=
  (if s.Has tag u then s.without tags u else s).set tag u (some flow)

theorem has_readd (tags : List String) (flow : String) :
    (s.readd tag u tags flow).Has t d ↔
      (t = tag ∧ d = u) ∨ (s.Has t d ∧ ¬ (s.Has tag u ∧ t ∈ tags ∧ d = u)) := by
  unfold readd
  rw [has_set]
  split_ifs with h
  · rw [has_without]
    simp [h]
  · simp [h]

end Server

/-! ## The tags of a client -/

theorem mem_foldl_addTag {l out : List String} {t : String} :
    t ∈ l.foldl addTag out ↔ t ∈ out ∨ (t ≠ "" ∧ t ∈ l) := by
  induction l generalizing out with
  | nil => simp
  | cons tag l ih =>
    have hadd : t ∈ addTag out tag ↔ t ∈ out ∨ (t ≠ "" ∧ t = tag) := by
      unfold addTag
      split_ifs with h
      · constructor
        · exact .inl
        · rintro (ht | ⟨hne, rfl⟩)
          · exact ht
          · exact h.resolve_left hne
      · rw [not_or] at h
        rw [List.mem_append, List.mem_singleton]
        constructor
        · rintro (ht | rfl)
          · exact .inl ht
          · exact .inr ⟨h.1, rfl⟩
        · rintro (ht | ⟨-, rfl⟩)
          · exact .inl ht
          · exact .inr rfl
    rw [List.foldl_cons, ih, hadd, List.mem_cons]
    tauto

namespace Client

variable {c : Client} {s : Server} {u : ClientID}

/-- The tags that `RemoveUser` goes through. -/
def knownTags (c : Client) : List String := c.allKnownTags c.tagByXport

theorem mem_allKnownTags {order : List (TransportKind × String)} {t : String} :
    t ∈ c.allKnownTags order ↔
      t ≠ "" ∧ (t = c.inboundTag ∨ t ∈ order.map Prod.snd ∨ t = c.mirrorTag) := by
  unfold allKnownTags
  rw [mem_foldl_addTag]
  simp

theorem mem_allKnownTags_perm {order : List (TransportKind × String)} (h : order.Perm c.tagByXport)
    (t : String) : t ∈ c.allKnownTags order ↔ t ∈ c.knownTags := by
  unfold knownTags
  rw [mem_allKnownTags, mem_allKnownTags, (h.map Prod.snd).mem_iff]

theorem tagFor_mem {t : TransportKind} (h : c.tagFor t ≠ "") : c.tagFor t ∈ c.knownTags := by
  unfold knownTags
  rw [mem_allKnownTags]
  refine ⟨h, ?_⟩
  unfold tagFor
  cases hl : c.tagByXport.lookup t with
  | none => exact .inl rfl
  | some tag =>
    dsimp only
    split_ifs with hne
    · refine .inr (.inl (List.mem_map.mpr ⟨(t, tag), ?_, rfl⟩))
      obtain ⟨l₁, l₂, heq, -⟩ := List.lookup_eq_some_iff.mp hl
      rw [heq]
      simp
    · exact .inl rfl

theorem mirrorTag_mem (h : c.mirrorTag ≠ "") : c.mirrorTag ∈ c.knownTags :=
  mem_allKnownTags.mpr ⟨h, .inr (.inr rfl)⟩

/-! ## What the calls of the client do -/

/-- Whatever the order of the map, the program ends with `Q` of its result and the server. -/
abbrev Ensures {α : Type} (p : XGo α) (Q : α → Server → Prop) (s : Server) : Prop :=
  wp server (fun _ => True) p (fun _ => Q) s

section Rules

variable {α : Type} {tag email flow : String} {k : Err → XGo α} {Q : α → Server → Prop}

theorem ensures_add
    (hthere : s.Has tag email →
      Ensures (k (some (.new ("User " ++ email ++ " already exists.")))) Q s)
    (hnew : ¬ s.Has tag email → Ensures (k none) Q (s.set tag email (some flow))) :
    Ensures (alterInbound tag (.add email flow) >>= k) Q s := by
  intro order _
  show wp server _ (k (Server.exec (.alterInbound tag (.add email flow)) order s).1) _
    (Server.exec (.alterInbound tag (.add email flow)) order s).2
  by_cases h : s.Has tag email
  · rw [Server.exec, if_pos h]
    exact hthere h
  · rw [Server.exec, if_neg h]
    exact hnew h

theorem ensures_remove
    (hthere : s.Has tag email → Ensures (k none) Q (s.set tag email none))
    (hgone : ¬ s.Has tag email →
      Ensures (k (some (.new ("User " ++ email ++ " not found.")))) Q s) :
    Ensures (alterInbound tag (.remove email) >>= k) Q s := by
  intro order _
  show wp server _ (k (Server.exec (.alterInbound tag (.remove email)) order s).1) _
    (Server.exec (.alterInbound tag (.remove email)) order s).2
  by_cases h : s.Has tag email
  · rw [Server.exec, if_pos h]
    exact hthere h
  · rw [Server.exec, if_neg h]
    exact hgone h

end Rules

theorem ensures_removeFrom (tags : List String) (removed : Bool) (lastErr : Err) :
    Ensures (removeFrom u tags removed lastErr) (fun r s' =>
      s' = s.without tags u ∧ ((removed = true ∨ ∃ t ∈ tags, s.Has t u) → r = none)) s := by
  induction tags generalizing s removed lastErr with
  | nil =>
    refine ⟨?_, ?_⟩
    · funext t d
      simp [Server.without]
    · rintro (h | ⟨t, ht, -⟩)
      · rw [if_pos h]
      · cases ht
  | cons tag tags ih =>
    refine ensures_remove (fun h => ?_) fun h => ?_
    · refine wp_mono (ih true lastErr) fun _ r s' hr => ⟨?_, fun _ => hr.2 (.inl rfl)⟩
      rw [hr.1, Server.without_cons]
    · refine wp_mono (ih removed _) fun _ r s' hr => ⟨?_, fun hrem => hr.2 ?_⟩
      · rw [hr.1, ← Server.without_cons, Server.set_none_of_not_has _ _ _ h]
      · refine hrem.imp_right ?_
        rintro ⟨t, ht, hhas⟩
        rcases List.mem_cons.mp ht with rfl | ht
        · exact absurd hhas h
        · exact ⟨t, ht, hhas⟩

/-- A user that is in one of the known inbounds is removed from all of them. -/
theorem ensures_removeUser {tag : String} (hu : u ≠ "") (htag : tag ∈ c.knownTags)
    (h : s.Has tag u) :
    Ensures (c.removeUser u) (fun r s' => r = none ∧ s' = s.without c.knownTags u) s := by
  unfold removeUser
  rw [if_neg hu]
  refine fun order _ => ?_
  have hmem := mem_allKnownTags_perm (order c.tagByXport).property
  show wp server _ (if c.allKnownTags (order c.tagByXport).val = [] then _ else _) _ _
  rw [if_neg (List.ne_nil_of_mem ((hmem tag).mpr htag))]
  refine wp_mono (ensures_removeFrom _ false none) fun _ r s' hr => ⟨?_, ?_⟩
  · exact hr.2 (.inr ⟨tag, (hmem tag).mpr htag, h⟩)
  · rw [hr.1]
    exact Server.without_congr _ _ hmem

theorem isAlreadyExistsError_add (email : String) :
    isAlreadyExistsError (.new ("User " ++ email ++ " already exists.")) = true := by
  unfold isAlreadyExistsError GoError.message
  rw [decide_eq_true_eq, String.toList_append]
  exact List.IsInfix.trans (by decide : "already exists".toList <:+: " already exists.".toList)
    (List.suffix_append _ _).isInfix

theorem ensures_addUserToTag {tag flow : String} (hu : u ≠ "") (htag : tag ∈ c.knownTags) :
    Ensures (c.addUserToTag u tag (.add u flow))
      (fun r s' => r = none ∧ s' = s.readd tag u c.knownTags flow) s := by
  refine ensures_add (fun h => ?_) fun h => ?_
  · rw [Server.readd, if_pos h]
    simp only [isAlreadyExistsError_add, Bool.true_eq_false, if_false]
    refine wp_bind.mpr (wp_mono (ensures_removeUser hu htag h) ?_)
    rintro _ r s₁ ⟨rfl, rfl⟩
    refine ensures_add (fun hhas => ?_) fun _ => ⟨rfl, rfl⟩
    -- it has just been removed there
    exact absurd ⟨htag, rfl⟩ ((Server.has_without _ _ _ _ _).mp hhas).2
  · rw [Server.readd, if_neg h]
    exact ⟨rfl, rfl⟩

/-- What `AddUser` makes of the server when it returns nil. -/
def added (c : Client) (user : XrayUser) (s : Server) : Server :=
  let s₁ := s.readd (c.tagFor user.transport) user.clientID c.knownTags (vlessFlowFor user.transport)
  if c.mirrorTag ≠ "" ∧ c.mirrorTag ≠ c.tagFor user.transport then
    s₁.readd c.mirrorTag user.clientID c.knownTags ""
  else s₁

/-- A user with a tag is added. -/
theorem ensures_addUser_ok {user : XrayUser} (hu : user.clientID ≠ "") (hvalid : user.transport.valid = true)
    (htag : c.tagFor user.transport ≠ "") :
    Ensures (c.addUser user) (fun r s' => r = none ∧ s' = c.added user s) s := by
  unfold addUser
  dsimp only
  rw [if_neg hu, if_neg (by simp [hvalid]), if_neg htag]
  refine wp_bind.mpr (wp_mono (ensures_addUserToTag hu (tagFor_mem htag)) ?_)
  rintro _ r s₁ ⟨rfl, rfl⟩
  dsimp only
  split_ifs with hmirror
  · refine wp_mono (ensures_addUserToTag hu (mirrorTag_mem hmirror.1)) fun _ r s₂ h => ⟨h.1, ?_⟩
    rw [h.2, added, if_pos hmirror]
  · refine ⟨rfl, ?_⟩
    rw [added, if_neg hmirror]

theorem ensures_addUser (user : XrayUser) : Ensures (c.addUser user) (fun r s' => r = none →
    c.tagFor user.transport ≠ "" ∧ s' = c.added user s) s := by
  by_cases hok : user.clientID ≠ "" ∧ user.transport.valid = true ∧ c.tagFor user.transport ≠ ""
  · exact wp_mono (ensures_addUser_ok hok.1 hok.2.1 hok.2.2) fun _ r s' h _ => ⟨hok.2.2, h.2⟩
  · unfold addUser
    dsimp only
    split_ifs with hu hvalid htag
    · exact fun h => by cases h
    · exact fun h => by cases h
    · exact fun h => by cases h
    · exact absurd ⟨hu, by simpa using hvalid, htag⟩ hok
    · exact absurd ⟨hu, by simpa using hvalid, htag⟩ hok

/-! ## Both memberships -/

/-- When `AddUser` returns nil, the user is in its inbound and in the mirror and no other user is
touched, unless the user was in the mirror but not in its inbound: then adding it to the mirror removes
it from the inbound again. -/
theorem addUser_memberships_iff {c : Client} {s s' : Server} {user : XrayUser}
    {tr : List (Event handlerService)}
    (h : Run server (fun _ => True) (c.addUser user) s tr none s') :
    (s'.Has (c.tagFor user.transport) user.clientID ∧
      (c.mirrorTag ≠ "" → s'.Has c.mirrorTag user.clientID) ∧
      ∀ tag v, v ≠ user.clientID → (s'.Has tag v ↔ s.Has tag v)) ↔
    (c.mirrorTag ≠ "" → c.mirrorTag ≠ c.tagFor user.transport → s.Has c.mirrorTag user.clientID →
      s.Has (c.tagFor user.transport) user.clientID) := by
  obtain ⟨htag, rfl⟩ := wp_iff_run.mp (ensures_addUser user) _ _ _ h rfl
  have hmem := tagFor_mem htag
  unfold added
  by_cases hmirror : c.mirrorTag ≠ "" ∧ c.mirrorTag ≠ c.tagFor user.transport
  · have hmem' := mirrorTag_mem hmirror.1
    have hne := hmirror.2
    rw [if_pos hmirror]
    have h₁ := fun t d => s.has_readd (c.tagFor user.transport) t user.clientID d c.knownTags
      (vlessFlowFor user.transport)
    generalize s.readd _ _ _ _ = s₁ at h₁
    have h₂ := fun t d => s₁.has_readd c.mirrorTag t user.clientID d c.knownTags ""
    generalize s₁.readd _ _ _ _ = s₂ at h₂
    constructor
    · rintro ⟨hin, -, -⟩ _ _ hthere
      by_contra hnot
      rcases (h₂ _ _).mp hin with ⟨heq, -⟩ | ⟨-, hkept⟩
      · exact hne heq.symm
      · exact hkept ⟨(h₁ _ _).mpr (.inr ⟨hthere, fun hh => hnot hh.1⟩), hmem, rfl⟩
    · intro himp
      have hin₁ : s₁.Has (c.tagFor user.transport) user.clientID := (h₁ _ _).mpr (.inl ⟨rfl, rfl⟩)
      have hout₁ : ¬ s₁.Has c.mirrorTag user.clientID := by
        intro hin
        rcases (h₁ _ _).mp hin with ⟨heq, -⟩ | ⟨hthere, hkept⟩
        · exact hne heq
        · exact hkept ⟨himp hmirror.1 hne hthere, hmem', rfl⟩
      refine ⟨(h₂ _ _).mpr (.inr ⟨hin₁, fun hh => hout₁ hh.1⟩),
        fun _ => (h₂ _ _).mpr (.inl ⟨rfl, rfl⟩), fun tag v hv => ?_⟩
      rw [h₂, h₁]
      simp [hv]
  · have hsame : c.mirrorTag ≠ "" → c.mirrorTag = c.tagFor user.transport := fun hm =>
      not_not.mp fun hne => hmirror ⟨hm, hne⟩
    rw [if_neg hmirror]
    constructor
    · intro _ hm hne
      exact absurd (hsame hm) hne
    · intro _
      have hin := (s.has_readd (c.tagFor user.transport) (c.tagFor user.transport) user.clientID
        user.clientID c.knownTags (vlessFlowFor user.transport)).mpr (.inl ⟨rfl, rfl⟩)
      refine ⟨hin, fun hm => ?_, fun tag v hv => ?_⟩
      · rw [hsame hm]
        exact hin
      · rw [Server.has_readd]
        simp [hv]

/-- A tag for every transport and a mirror. -/
def mirrored : Client where
  inboundTag := "in"
  tagByXport := []
  mirrorTag := "mirror"
  nodup := by decide
  tag_ne := by decide

def noUsers : Server := fun _ _ => none

theorem addUser_memberships_new : ∃ tr s',
    Run server (fun _ => True) (mirrored.addUser ⟨"c", .ws⟩) noUsers tr none s' ∧
      s'.Has "in" "c" ∧ s'.Has "mirror" "c" := by
  have hrun := run_replay (H := server) (A := fun _ => True) trivial (p := mirrored.addUser ⟨"c", .ws⟩)
    [] (by simp) noUsers
  have hboth := (addUser_memberships_iff hrun).mpr fun _ _ h => absurd h (by decide)
  exact ⟨_, _, hrun, hboth.1, hboth.2.1 (by decide)⟩

/-- After a partial loss only the mirror has the user. -/
def onlyMirror : Server := fun tag _ => if tag = "mirror" then some "" else none

theorem addUser_loses_inbound : ∃ tr s',
    Run server (fun _ => True) (mirrored.addUser ⟨"c", .ws⟩) onlyMirror tr none s' ∧
      mirrored.tagFor .ws = "in" ∧ ¬ s'.Has "in" "c" ∧ s'.Has "mirror" "c" := by
  have hrun := run_replay (H := server) (A := fun _ => True) trivial (p := mirrored.addUser ⟨"c", .ws⟩)
    [] (by simp) onlyMirror
  exact ⟨_, _, hrun, rfl, by decide, by decide⟩

end Client

end NodeAgent.Xray
