import NodeAgent.Xray.Memberships

/-!
# What removing a user leaves behind

`RemoveUser` goes through all known inbounds and returns nil as soon as one of them has removed the user.
Here a call may also fail for a reason of its own, and then it changes nothing; to the loop this looks
like a user that is not there.
-/

namespace NodeAgent.Xray

open Lib

/-! ## A server that can fail -/

/-- What the environment chooses for one call. -/
structure Choice where
  fail : Err := none
  order : Order := default

instance : Inhabited Choice := ⟨{}⟩

def Server.execFaulty : (c : HandlerCall) → Choice → Server → HandlerReply c × Server
  | .alterInbound tag op, e, s =>
    match e.fail with
    | some err => (some err, s)
    | none => Server.exec (.alterInbound tag op) e.order s
  | .rangeTags tags, e, s => Server.exec (.rangeTags tags) e.order s

def faulty : Handler handlerService Choice Server where
  exec := Server.execFaulty

/-- The inbound has answered a call with an error. -/
def Refused (tr : List (Event handlerService)) (tag : String) : Prop :=
  ∃ op err, (⟨.alterInbound tag op, some err⟩ : Event handlerService) ∈ tr

section Refused

variable {tr : List (Event handlerService)} {tag t : String} {op : Operation}

theorem refused_cons_some {err : GoError} :
    Refused (⟨.alterInbound tag op, some err⟩ :: tr) t ↔ t = tag ∨ Refused tr t := by
  constructor
  · rintro ⟨op', err', hmem⟩
    rcases List.mem_cons.mp hmem with heq | hmem
    · cases heq
      exact .inl rfl
    · exact .inr ⟨op', err', hmem⟩
  · rintro (rfl | ⟨op', err', hmem⟩)
    · exact ⟨op, err, List.mem_cons_self⟩
    · exact ⟨op', err', List.mem_cons_of_mem _ hmem⟩

theorem refused_cons_of_ne {ev : Event handlerService}
    (h : ∀ tag op err, ev ≠ ⟨.alterInbound tag op, some err⟩) : Refused (ev :: tr) t ↔ Refused tr t := by
  constructor
  · rintro ⟨op', err', hmem⟩
    exact ⟨op', err', (List.mem_cons.mp hmem).resolve_left fun heq => h t op' err' heq.symm⟩
  · rintro ⟨op', err', hmem⟩
    exact ⟨op', err', List.mem_cons_of_mem _ hmem⟩

theorem refused_cons_none : Refused (⟨.alterInbound tag op, none⟩ :: tr) t ↔ Refused tr t :=
  refused_cons_of_ne fun _ _ _ h => by cases h

theorem refused_cons_range {tags : List (TransportKind × String)} {order : HandlerReply (.rangeTags tags)} :
    Refused (⟨.rangeTags tags, order⟩ :: tr) t ↔ Refused tr t :=
  refused_cons_of_ne fun _ _ _ h => by cases h

end Refused

/-! ## The loop -/

theorem nodup_foldl_addTag {l out : List String} (h : out.Nodup) : (l.foldl addTag out).Nodup := by
  induction l generalizing out with
  | nil => exact h
  | cons tag l ih =>
    refine ih ?_
    unfold addTag
    split_ifs with hskip
    · exact h
    · rw [not_or] at hskip
      exact List.nodup_append_comm.mp (List.nodup_cons.mpr ⟨hskip.2, h⟩)

/-- The effect of going through `tags`, with the answers in `tr`. -/
structure Swept (u : ClientID) (tags : List String) (s s' : Server) (tr : List (Event handlerService)) :
    Prop where
  frame : ∀ t v, t ∉ tags ∨ v ≠ u → s' t v = s t v
  left : ∀ t ∈ tags, s'.Has t u ↔ s.Has t u ∧ Refused tr t
  asked : ∀ t, Refused tr t → t ∈ tags

section Loop

variable {s s' : Server} {u : ClientID} {tag : String} {tags : List String}
  {tr : List (Event handlerService)}

/-- An inbound that refuses is as it was. -/
theorem Swept.refused {err : GoError} (h : Swept u tags s s' tr) (htag : tag ∉ tags) :
    Swept u (tag :: tags) s s' (⟨.alterInbound tag (.remove u), some err⟩ :: tr) where
  frame t v hout := h.frame t v (hout.imp_left fun hmem ht => hmem (List.mem_cons_of_mem _ ht))
  left t ht := by
    rw [refused_cons_some]
    by_cases heq : t = tag
    · subst heq
      unfold Server.Has
      rw [h.frame t u (.inl htag)]
      simp
    · rw [h.left t ((List.mem_cons.mp ht).resolve_left heq)]
      simp [heq]
  asked t ht := List.mem_cons.mpr ((refused_cons_some.mp ht).imp_right (h.asked t))

/-- An inbound that does not refuse has lost the user. -/
theorem Swept.removed (h : Swept u tags (s.set tag u none) s' tr) (htag : tag ∉ tags) :
    Swept u (tag :: tags) s s' (⟨.alterInbound tag (.remove u), none⟩ :: tr) where
  frame t v hout := by
    rw [h.frame t v (hout.imp_left fun hmem ht => hmem (List.mem_cons_of_mem _ ht))]
    refine if_neg ?_
    rintro ⟨rfl, rfl⟩
    exact hout.elim (fun hmem => hmem List.mem_cons_self) fun hne => hne rfl
  left t ht := by
    rw [refused_cons_none]
    by_cases heq : t = tag
    · subst heq
      have hgone : ¬ s'.Has t u := by
        unfold Server.Has
        rw [h.frame t u (.inl htag), Server.set, if_pos ⟨rfl, rfl⟩]
        decide
      exact iff_of_false hgone fun hh => htag (h.asked t hh.2)
    · rw [h.left t ((List.mem_cons.mp ht).resolve_left heq)]
      unfold Server.Has Server.set
      rw [if_neg fun hh => heq hh.1]
  asked t ht := List.mem_cons_of_mem _ (h.asked t (refused_cons_none.mp ht))

/-- A removal is refused, whatever the reason, or takes place. -/
theorem wp_remove {α : Type} {k : Err → XGo α} {Q : List (Event handlerService) → α → Server → Prop}
    (hfail : ∀ err, wp faulty (fun _ => True) (k (some err))
      (fun tr => Q (⟨.alterInbound tag (.remove u), some err⟩ :: tr)) s)
    (hdone : s.Has tag u → wp faulty (fun _ => True) (k none)
      (fun tr => Q (⟨.alterInbound tag (.remove u), none⟩ :: tr)) (s.set tag u none)) :
    wp faulty (fun _ => True) (alterInbound tag (.remove u) >>= k) Q s := by
  rintro ⟨fail, order⟩ _
  cases fail with
  | some err => exact hfail err
  | none =>
    show wp faulty _ (k (Server.exec (.alterInbound tag (.remove u)) order s).1)
      (fun tr => Q (⟨.alterInbound tag (.remove u),
        (Server.exec (.alterInbound tag (.remove u)) order s).1⟩ :: tr))
      (Server.exec (.alterInbound tag (.remove u)) order s).2
    by_cases h : s.Has tag u
    · rw [Server.exec, if_pos h]
      exact hdone h
    · rw [Server.exec, if_neg h]
      exact hfail _

/-- The loop returns nil if a call has removed the user, or if it has not gone through any tag and has no
error from before. -/
theorem wp_removeFrom (hnodup : tags.Nodup) (removed : Bool) (lastErr : Err) :
    wp faulty (fun _ => True) (removeFrom u tags removed lastErr) (fun tr r s' =>
      Swept u tags s s' tr ∧ (r = none ↔ removed = true ∨ (lastErr = none ∧ tags = []) ∨
        ∃ t ∈ tags, s.Has t u ∧ ¬ Refused tr t)) s := by
  induction tags generalizing s removed lastErr with
  | nil =>
    refine ⟨⟨fun _ _ _ => rfl, by simp, ?_⟩, ?_⟩
    · rintro t ⟨op, err, hmem⟩
      cases hmem
    · cases removed <;> simp
  | cons tag tags ih =>
    obtain ⟨htag, hnodup⟩ := List.nodup_cons.mp hnodup
    have hother : ∀ t ∈ tags, t ≠ tag := by
      rintro t ht rfl
      exact htag ht
    refine wp_remove (fun err => ?_) fun hthere => ?_
    · refine wp_mono (ih hnodup removed _) fun tr r s' h => ⟨h.1.refused htag, ?_⟩
      rw [h.2]
      refine or_congr_right ?_
      simp only [reduceCtorEq, false_and, and_false, false_or, refused_cons_some, List.mem_cons,
        exists_eq_or_imp, true_or, not_true_eq_false]
      refine exists_congr fun t => and_congr_right fun ht => ?_
      simp [hother t ht]
    · refine wp_mono (ih hnodup true lastErr) fun tr r s' h => ⟨h.1.removed htag, ?_⟩
      refine iff_of_true (h.2.mpr (.inl rfl)) (.inr (.inr ⟨tag, List.mem_cons_self, hthere, ?_⟩))
      rw [refused_cons_none]
      exact fun hr => htag (h.1.asked tag hr)

end Loop

/-! ## The call -/

namespace Client

variable {c : Client} {s : Server} {u : ClientID}

theorem wp_removeUser (hu : u ≠ "") (htags : c.knownTags ≠ []) :
    wp faulty (fun _ => True) (c.removeUser u) (fun tr r s' => Swept u c.knownTags s s' tr ∧
      (r = none ↔ ∃ t ∈ c.knownTags, s.Has t u ∧ ¬ Refused tr t)) s := by
  unfold removeUser
  rw [if_neg hu]
  rintro ⟨fail, order⟩ _
  have hmem := mem_allKnownTags_perm (order c.tagByXport).property
  have hne : c.allKnownTags (order c.tagByXport).val ≠ [] := by
    obtain ⟨t, ht⟩ := List.exists_mem_of_ne_nil _ htags
    exact List.ne_nil_of_mem ((hmem t).mpr ht)
  show wp faulty _ (if c.allKnownTags (order c.tagByXport).val = [] then _ else _) _ _
  rw [if_neg hne]
  have hnodup : (c.allKnownTags (order c.tagByXport).val).Nodup := nodup_foldl_addTag List.nodup_nil
  refine wp_mono (wp_removeFrom hnodup false none) fun tr r s' h => ?_
  obtain ⟨⟨hframe, hleft, hasked⟩, hr⟩ := h
  simp only [hmem, hne, and_false, false_or, Bool.false_eq_true] at hframe hleft hasked hr
  refine ⟨⟨hframe, ?_, ?_⟩, ?_⟩
  · simp only [refused_cons_range]
    exact hleft
  · simp only [refused_cons_range]
    exact hasked
  · simp only [refused_cons_range]
    exact hr

/-- `RemoveUser` returns nil just if the user is in no known inbound afterwards, exactly when the user was
in one of them before and the failures hit all or none of those. No other user is touched. -/
theorem removeUser_everywhere_iff {s' : Server} {tr : List (Event handlerService)} {r : Err}
    (hu : u ≠ "") (htags : c.knownTags ≠ [])
    (h : Run faulty (fun _ => True) (c.removeUser u) s tr r s') :
    ((r = none ↔ ∀ t ∈ c.knownTags, ¬ s'.Has t u) ↔
      (∃ t ∈ c.knownTags, s.Has t u) ∧
        ((∀ t ∈ c.knownTags, s.Has t u → Refused tr t) ∨
          ∀ t ∈ c.knownTags, s.Has t u → ¬ Refused tr t)) ∧
      ∀ t v, v ≠ u → s' t v = s t v := by
  obtain ⟨hswept, hr⟩ := wp_iff_run.mp (wp_removeUser hu htags) _ _ _ h
  refine ⟨?_, fun t v hv => hswept.frame t v (.inr hv)⟩
  have hgone : (∀ t ∈ c.knownTags, ¬ s'.Has t u) ↔
      ∀ t ∈ c.knownTags, s.Has t u → ¬ Refused tr t := by
    refine forall₂_congr fun t ht => ?_
    rw [hswept.left t ht, not_and]
  have hkept : (∀ t ∈ c.knownTags, s.Has t u → Refused tr t) ↔
      ¬ ∃ t ∈ c.knownTags, s.Has t u ∧ ¬ Refused tr t := by
    push Not
    rfl
  rw [hgone, hr, hkept]
  constructor
  · intro hiff
    by_cases hex : ∃ t ∈ c.knownTags, s.Has t u ∧ ¬ Refused tr t
    · obtain ⟨t, ht, hhas, -⟩ := id hex
      exact ⟨⟨t, ht, hhas⟩, .inr (hiff.mp hex)⟩
    · refine ⟨?_, .inl hex⟩
      -- nowhere before would be nowhere afterwards, and the loop returns an error then
      by_contra hnone
      exact hex (hiff.mpr fun t ht hhas => absurd ⟨t, ht, hhas⟩ hnone)
  · rintro ⟨⟨t, ht, hhas⟩, hall | hnone⟩
    · refine iff_of_false hall fun hno => hall ⟨t, ht, hhas, hno t ht hhas⟩
    · exact iff_of_true ⟨t, ht, hhas, hnone t ht hhas⟩ hnone

/-- The user is in both inbounds of `mirrored`. -/
def inBoth : Server := fun tag _ => if tag = "in" ∨ tag = "mirror" then some "" else none

/-- The removal of the user of `inBoth` under some choices. -/
def removal (es : List Choice) (s : Server) : List (Event handlerService) × Err × Server :=
  replay faulty (mirrored.removeUser "c") es s

theorem run_removal (es : List Choice) (s : Server) : Run faulty (fun _ => True)
    (mirrored.removeUser "c") s (removal es s).1 (removal es s).2.1 (removal es s).2.2 :=
  run_replay trivial es (fun _ _ => trivial) s

theorem removeUser_everywhere_no_failure :
    ((removal [] inBoth).2.1 = none ↔
      ∀ t ∈ mirrored.knownTags, ¬ (removal [] inBoth).2.2.Has t "c") := by
  refine (removeUser_everywhere_iff (by decide) (by decide) (run_removal [] inBoth)).1.mpr
    ⟨by decide, .inr fun t ht _ => ?_⟩
  rintro ⟨op, err, hmem⟩
  rcases List.mem_cons.mp hmem with heq | hmem
  · cases heq
  rcases List.mem_cons.mp hmem with heq | hmem
  · cases heq
  rcases List.mem_cons.mp hmem with heq | hmem
  · cases heq
  cases hmem

/-- Nil although the mirror has kept the user, and an error although no inbound has it. -/
theorem removeUser_result_misleads :
    (∃ tr s', Run faulty (fun _ => True) (mirrored.removeUser "c") inBoth tr none s' ∧
      "mirror" ∈ mirrored.knownTags ∧ s'.Has "mirror" "c") ∧
    ∃ tr r s', Run faulty (fun _ => True) (mirrored.removeUser "c") noUsers tr r s' ∧ r ≠ none ∧
      ∀ t ∈ mirrored.knownTags, ¬ s'.Has t "c" :=
  ⟨⟨_, _, run_removal [{}, {}, { fail := some (.new "deadline exceeded") }] inBoth, by decide, by decide⟩,
    ⟨_, _, _, run_removal [] noUsers, by decide, by decide⟩⟩

end Client

end NodeAgent.Xray
