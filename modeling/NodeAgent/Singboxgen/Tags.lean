import NodeAgent.Singboxgen

/-!
# Reading a per-user outbound tag

`ParsePerUserOutboundTag` splits a tag at its dashes. The dash separates the client from the backend and
also occurs in both, so the reading rests on counting: eleven parts, five of them the client's. Ids need
not be UUIDs for that, nor ASCII. Of the mapping to lower case only one thing matters, that it neither
makes a dash nor takes one away. A tag made of two UUIDs gives back the client and the backend, in lower
case.
-/

namespace NodeAgent.Singboxgen

/-- `strings.Split(s, "-")`. -/
def dashSplit (s : String) : List (List Char) := s.toList.splitOn '-'

/-- `strings.Join(parts, "-")`. -/
def dashJoin (parts : List (List Char)) : String := String.ofList (['-'].intercalate parts)

def perUserOutboundTagPrefix : String := "b-"

/-- `strings.HasPrefix(tag, PerUserOutboundTagPrefix)`. -/
def hasTagPrefix (tag : String) : Bool :=
  (perUserOutboundTagPrefix.toList).isPrefixOf tag.toList

/-- The client and the backend of a tag of the form `b-<client_uuid>-<backend_uuid>`. -/
def parsePerUserOutboundTag (tag : String) : Option (String × String) :=
  if hasTagPrefix tag = false then none
  else
    let parts := dashSplit tag
    if parts.length ≠ 11 then none
    else some (dashJoin ((parts.take 6).drop 1), dashJoin ((parts.take 11).drop 6))

/-- The dashes of an id. -/
def dashes (s : String) : ℕ := s.toList.count '-'

theorem dashes_toLower [Lowering] (s : String) : dashes (toLower s) = dashes s := by
  unfold dashes toLower
  rw [String.toList_ofList, List.count, List.countP_map]
  refine List.countP_congr fun c _ => ?_
  simpa using Lowering.dash c

/-! ## Parts -/

theorem dashJoin_dashSplit (s : String) : dashJoin (dashSplit s) = s := by
  unfold dashJoin dashSplit
  rw [List.intercalate_splitOn, String.ofList_toList]

theorem dashSplit_dashJoin {parts : List (List Char)} (h : ∀ p ∈ parts, '-' ∉ p)
    (hne : parts ≠ []) : dashSplit (dashJoin parts) = parts := by
  unfold dashJoin dashSplit
  rw [String.toList_ofList, List.splitOn_intercalate _ h hne]

/-- What is between the dashes has none, and there is one more part than there are dashes. -/
theorem dashSplit_spec (s : String) :
    (∀ p ∈ dashSplit s, '-' ∉ p) ∧ (dashSplit s).length = dashes s + 1 := by
  have hlist : ∀ xs : List Char,
      (∀ p ∈ xs.splitOn '-', '-' ∉ p) ∧ (xs.splitOn '-').length = xs.count '-' + 1 := by
    intro xs
    induction xs with
    | nil => simp
    | cons x xs ih =>
      obtain ⟨hno, hlen⟩ := ih
      rw [List.splitOn] at hno hlen ⊢
      rw [List.splitOnP_cons_eq_if_modifyHead, List.count_cons]
      by_cases hx : x = '-'
      · subst hx
        simpa [hlen] using hno
      · cases hsplit : xs.splitOnP (· == '-') with
        | nil => exact absurd hsplit (List.splitOnP_ne_nil _ _)
        | cons p ps =>
          rw [hsplit] at hno hlen
          rw [List.forall_mem_cons] at hno
          rw [if_neg (by simpa using hx), List.modifyHead_cons, List.forall_mem_cons]
          refine ⟨⟨?_, hno.2⟩, ?_⟩
          · rw [List.mem_cons, not_or]
            exact ⟨Ne.symm hx, hno.1⟩
          · simpa [hx] using hlen
  exact hlist s.toList

theorem length_dashSplit (s : String) : (dashSplit s).length = dashes s + 1 := (dashSplit_spec s).2

theorem dashSplit_append (x y : String) : dashSplit (x ++ "-" ++ y) = dashSplit x ++ dashSplit y := by
  unfold dashSplit
  rw [String.toList_append, String.toList_append, List.append_assoc]
  exact List.splitOnP_append_cons _ _ rfl

theorem dashJoin_append {ps qs : List (List Char)} (hp : ps ≠ []) (hq : qs ≠ []) :
    dashJoin (ps ++ qs) = dashJoin ps ++ "-" ++ dashJoin qs := by
  have hlist : ['-'].intercalate (ps ++ qs) =
      ['-'].intercalate ps ++ ['-'] ++ ['-'].intercalate qs := by
    obtain ⟨q, qs, rfl⟩ := List.exists_cons_of_ne_nil hq
    induction ps with
    | nil => exact absurd rfl hp
    | cons p ps ih =>
      cases ps with
      | nil => simp [List.intercalate_cons_cons]
      | cons p' ps =>
        rw [List.cons_append, List.cons_append, List.intercalate_cons_cons, ← List.cons_append,
          ih (List.cons_ne_nil _ _), List.intercalate_cons_cons]
        simp only [List.append_assoc]
  unfold dashJoin
  rw [hlist, String.ofList_append, String.ofList_append]

theorem hasTagPrefix_iff {tag : String} : hasTagPrefix tag = true ↔ ∃ s, tag = "b-" ++ s := by
  unfold hasTagPrefix perUserOutboundTagPrefix
  rw [List.isPrefixOf_iff_prefix]
  constructor
  · rintro ⟨t, ht⟩
    refine ⟨String.ofList t, ?_⟩
    rw [← String.toList_inj, ← ht, String.toList_append, String.toList_ofList (l := t)]
  · rintro ⟨s, rfl⟩
    exact ⟨s.toList, (String.toList_append ..).symm⟩

/-- A tag is read by its parts: a `b`, five of the client and five of the backend. -/
theorem parse_eq_some_iff {tag c b : String} : parsePerUserOutboundTag tag = some (c, b) ↔
    tag = "b-" ++ c ++ "-" ++ b ∧ dashes c = 4 ∧ dashes b = 4 := by
  constructor
  · intro h
    unfold parsePerUserOutboundTag at h
    dsimp only at h
    split_ifs at h with hstart hlen
    obtain ⟨s, rfl⟩ := hasTagPrefix_iff.mp (by simpa using hstart)
    have hparts : dashSplit ("b-" ++ s) = ['b'] :: dashSplit s := dashSplit_append "b" s
    have hten : (dashSplit s).length = 10 := by
      rw [hparts] at hlen
      simpa using hlen
    rw [hparts] at h
    simp only [List.take_succ_cons, List.drop_succ_cons, List.drop_zero, Option.some.injEq,
      Prod.mk.injEq] at h
    obtain ⟨rfl, rfl⟩ := h
    rw [List.take_of_length_le hten.le]
    -- the parts of the two halves are those of the tag
    have hsplit : ∀ ps : List (List Char), ps.Sublist (dashSplit s) → ps.length = 5 →
        dashes (dashJoin ps) = 4 := by
      intro ps hsub hfive
      have hback : dashSplit (dashJoin ps) = ps :=
        dashSplit_dashJoin (fun p hp => (dashSplit_spec s).1 p (hsub.subset hp)) fun hnil => by
          rw [hnil] at hfive
          cases hfive
      have hcount := length_dashSplit (dashJoin ps)
      rw [hback, hfive] at hcount
      omega
    have hfirst : ((dashSplit s).take 5).length = 5 := by simp [hten]
    have hsecond : ((dashSplit s).drop 5).length = 5 := by simp [hten]
    refine ⟨?_, hsplit _ (List.take_sublist _ _) hfirst, hsplit _ (List.drop_sublist _ _) hsecond⟩
    rw [String.append_assoc, String.append_assoc, String.append_right_inj, ← String.append_assoc,
      ← dashJoin_append (List.ne_nil_of_length_eq_add_one hfirst)
        (List.ne_nil_of_length_eq_add_one hsecond), List.take_append_drop, dashJoin_dashSplit]
  · rintro ⟨rfl, hc, hb⟩
    have hparts : dashSplit ("b-" ++ c ++ "-" ++ b) = ['b'] :: (dashSplit c ++ dashSplit b) := by
      rw [dashSplit_append]
      exact congrArg (· ++ dashSplit b) (dashSplit_append "b" c)
    have hclen : (dashSplit c).length = 5 := by rw [length_dashSplit, hc]
    have hblen : (dashSplit b).length = 5 := by rw [length_dashSplit, hb]
    have hstart : hasTagPrefix ("b-" ++ c ++ "-" ++ b) = true :=
      hasTagPrefix_iff.mpr ⟨c ++ "-" ++ b, by rw [String.append_assoc, String.append_assoc,
        String.append_assoc]⟩
    unfold parsePerUserOutboundTag
    dsimp only
    rw [if_neg (by simp [hstart]), hparts, if_neg (by simp [hclen, hblen])]
    simp only [List.take_succ_cons, List.drop_succ_cons, List.drop_zero]
    rw [List.take_left' hclen, List.take_of_length_le (by simp [hclen, hblen]), List.drop_left' hclen,
      dashJoin_dashSplit, dashJoin_dashSplit]

/-- A tag of the form that has another number of dashes is not read. -/
theorem parse_eq_none_of_dashes {c b : String} (h : dashes c + dashes b ≠ 8) :
    parsePerUserOutboundTag ("b-" ++ c ++ "-" ++ b) = none := by
  rw [Option.eq_none_iff_forall_ne_some]
  rintro ⟨c', b'⟩ hparse
  obtain ⟨htag, hc', hb'⟩ := parse_eq_some_iff.mp hparse
  have hlen := congrArg (fun tag => (dashSplit tag).length) htag
  simp only [dashSplit_append, List.length_append, length_dashSplit] at hlen
  have hb : ∀ s, dashes ("b-" ++ s) = dashes s + 1 := by
    intro s
    unfold dashes
    rw [String.toList_append, List.count_append]
    exact Nat.add_comm _ _
  rw [hb, hb] at hlen
  omega

/-! ## Encoding and decoding -/

/-- What is encoded is what is decoded, in lower case; only such tags are accepted, no two pairs share one,
and ids whose dashes do not come to eight make a tag that is not accepted. -/
theorem per_user_tag_decodes [Lowering] :
    (∀ c b, dashes c = 4 → dashes b = 4 →
      parsePerUserOutboundTag (perUserOutboundTagFor c b) = some (toLower c, toLower b)) ∧
    (∀ tag c b, parsePerUserOutboundTag tag = some (c, b) → tag = "b-" ++ c ++ "-" ++ b) ∧
    (∀ c b c' b', dashes c = 4 → dashes b = 4 → dashes c' = 4 → dashes b' = 4 → toLower c = c →
      toLower b = b → toLower c' = c' → toLower b' = b' →
      perUserOutboundTagFor c b = perUserOutboundTagFor c' b' → c = c' ∧ b = b') ∧
    ∀ c b, dashes c + dashes b ≠ 8 → parsePerUserOutboundTag (perUserOutboundTagFor c b) = none := by
  have hdecodes : ∀ c b, dashes c = 4 → dashes b = 4 →
      parsePerUserOutboundTag (perUserOutboundTagFor c b) = some (toLower c, toLower b) := by
    intro c b hc hb
    refine parse_eq_some_iff.mpr ⟨rfl, ?_, ?_⟩
    · rw [dashes_toLower, hc]
    · rw [dashes_toLower, hb]
  refine ⟨hdecodes, fun tag c b h => (parse_eq_some_iff.mp h).1, ?_, fun c b h => ?_⟩
  · intro c b c' b' hc hb hc' hb' lc lb lc' lb' htag
    have hread := hdecodes c b hc hb
    rw [htag, hdecodes c' b' hc' hb', lc, lb, lc', lb'] at hread
    obtain ⟨hclient, hbackend⟩ := Prod.mk.inj (Option.some.inj hread)
    exact ⟨hclient.symm, hbackend.symm⟩
  · refine parse_eq_none_of_dashes ?_
    rw [dashes_toLower, dashes_toLower]
    exact h

section Fixed

open Eval

/-- Ids with four dashes that are no UUIDs, and ids with too few. -/
theorem per_user_tag_decodes_short :
    parsePerUserOutboundTag (perUserOutboundTagFor "A-1--2-3" "B----") =
        some (toLower "A-1--2-3", toLower "B----") ∧
      parsePerUserOutboundTag (perUserOutboundTagFor "A-1" "B") = none := by
  obtain ⟨hdecodes, -, -, hrejects⟩ := per_user_tag_decodes
  exact ⟨hdecodes _ _ (by decide +kernel) (by decide +kernel), hrejects _ _ (by decide +kernel)⟩

end Fixed

/-! ## UUIDs -/

def hexDigits : List Char :=
  ['0', '1', '2', '3', '4', '5', '6', '7', '8', '9', 'a', 'b', 'c', 'd', 'e', 'f',
   'A', 'B', 'C', 'D', 'E', 'F']

def isHex (c : Char) : Bool := c ∈ hexDigits

/-- Five groups of 8, 4, 4, 4 and 12 hexadecimal digits. -/
def UuidShaped (s : String) : Prop :=
  (dashSplit s).map List.length = [8, 4, 4, 4, 12] ∧ ∀ p ∈ dashSplit s, ∀ c ∈ p, isHex c = true

instance (s : String) : Decidable (UuidShaped s) := by
  unfold UuidShaped
  infer_instance

/-- Lower case goes part by part. -/
theorem toLower_dashJoin [Lowering] (parts : List (List Char)) :
    toLower (dashJoin parts) = dashJoin (parts.map (List.map Lowering.rune)) := by
  have hlist : (['-'].intercalate parts).map Lowering.rune =
      ['-'].intercalate (parts.map (List.map Lowering.rune)) := by
    induction parts with
    | nil => rfl
    | cons p parts ih =>
      cases parts with
      | nil => simp [List.intercalate]
      | cons q parts =>
        rw [List.map_cons, List.map_cons, List.intercalate_cons_cons, List.intercalate_cons_cons,
          List.map_append, List.map_append, ih, List.map_singleton, (Lowering.dash '-').mpr rfl]
        rfl
  unfold toLower dashJoin
  rw [String.toList_ofList, hlist]

theorem uuidShaped_dashJoin {parts : List (List Char)}
    (hlen : parts.map List.length = [8, 4, 4, 4, 12]) (hhex : ∀ p ∈ parts, ∀ c ∈ p, isHex c = true) :
    UuidShaped (dashJoin parts) := by
  have hno : ∀ p ∈ parts, '-' ∉ p := fun p hp hmem => absurd (hhex p hp _ hmem) (by decide)
  have hne : parts ≠ [] := by
    rintro rfl
    cases hlen
  unfold UuidShaped
  rw [dashSplit_dashJoin hno hne]
  exact ⟨hlen, hhex⟩

/-- The groups of a UUID in lower case. -/
def uuidParts [Lowering] (s : String) : List (List Char) :=
  (dashSplit s).map (List.map Lowering.rune)

section Uuid

variable [Lowering] {s c b : String}

theorem dashJoin_uuidParts (s : String) : dashJoin (uuidParts s) = toLower s := by
  unfold uuidParts
  rw [← toLower_dashJoin, dashJoin_dashSplit]

theorem length_uuidParts (h : UuidShaped s) : (uuidParts s).map List.length = [8, 4, 4, 4, 12] := by
  unfold uuidParts
  rw [List.map_map]
  have hlen : List.length ∘ List.map Lowering.rune = List.length := by
    funext p
    exact List.length_map _
  rw [hlen]
  exact h.1

theorem exists_uuidParts (h : UuidShaped s) : ∃ p₁ p₂ p₃ p₄ p₅, uuidParts s = [p₁, p₂, p₃, p₄, p₅] ∧
    p₁.length = 8 ∧ p₂.length = 4 ∧ p₃.length = 4 ∧ p₄.length = 4 ∧ p₅.length = 12 := by
  have hlen := length_uuidParts h
  match hparts : uuidParts s with
  | [p₁, p₂, p₃, p₄, p₅] =>
    rw [hparts] at hlen
    simp only [List.map_cons, List.map_nil, List.cons.injEq, and_true] at hlen
    exact ⟨p₁, p₂, p₃, p₄, p₅, rfl, hlen⟩
  | [] | [_] | [_, _] | [_, _, _] | [_, _, _, _] | _ :: _ :: _ :: _ :: _ :: _ :: _ =>
    rw [hparts] at hlen
    simp at hlen

theorem length_toLower (h : UuidShaped s) : (toLower s).toList.length = 36 := by
  obtain ⟨p₁, p₂, p₃, p₄, p₅, hparts, h₁, h₂, h₃, h₄, h₅⟩ := exists_uuidParts h
  rw [← dashJoin_uuidParts, hparts, dashJoin, String.toList_ofList]
  simp [List.intercalate, h₁, h₂, h₃, h₄, h₅]

theorem UuidShaped.dashes_toLower (h : UuidShaped s) : dashes (toLower s) = 4 := by
  have hlen : (dashSplit s).length = 5 := by
    rw [← List.length_map List.length, h.1]
    rfl
  rw [length_dashSplit] at hlen
  rw [Singboxgen.dashes_toLower]
  exact Nat.succ.inj hlen

theorem hasTagPrefix_perUserOutboundTagFor (c b : String) :
    hasTagPrefix (perUserOutboundTagFor c b) = true := by
  refine hasTagPrefix_iff.mpr ⟨toLower c ++ "-" ++ toLower b, ?_⟩
  unfold perUserOutboundTagFor
  rw [String.append_assoc, String.append_assoc, String.append_assoc]

theorem parse_perUserOutboundTagFor (hc : UuidShaped c) (hb : UuidShaped b) :
    parsePerUserOutboundTag (perUserOutboundTagFor c b) = some (toLower c, toLower b) :=
  parse_eq_some_iff.mpr ⟨rfl, hc.dashes_toLower, hb.dashes_toLower⟩

/-- The end of a tag tells the backend. -/
theorem suffix_perUserOutboundTagFor_iff {b' : String} (hb : UuidShaped b) (hb' : UuidShaped b') :
    ("-" ++ toLower b').toList <:+ (perUserOutboundTagFor c b).toList ↔ toLower b' = toLower b := by
  have htag : (perUserOutboundTagFor c b).toList =
      ("b-" ++ toLower c).toList ++ ("-" ++ toLower b).toList := by
    unfold perUserOutboundTagFor
    rw [← String.toList_append, String.append_assoc]
  rw [htag]
  constructor
  · rintro ⟨l, hl⟩
    have hlen : ("-" ++ toLower b').toList.length = ("-" ++ toLower b).toList.length := by
      rw [String.toList_append, String.toList_append, List.length_append, List.length_append,
        length_toLower hb, length_toLower hb']
    have heq := (List.append_inj' hl hlen).2
    rw [String.toList_append, String.toList_append, List.append_cancel_left_eq] at heq
    exact String.toList_inj.mp heq
  · intro h
    rw [h]
    exact List.suffix_append _ _

end Uuid

end NodeAgent.Singboxgen
