import NodeAgent.Lib.Search
import NodeAgent.Ports

/-!
# The counters of the users

`internal/adapters/xray/stats.go`: xray names a counter by the user and the link it is about, and
the client takes the two out of the name again. Strings are Go's, lists of bytes.
-/

namespace NodeAgent.Xray

open Lib

/-- The bytes of an ASCII text. -/
def ascii (s : String) : List UInt8 := s.toList.map Char.toUInt8

def userStatPrefix : List UInt8 := ascii "user>>>"

def userStatTrafficSep : List UInt8 := ascii ">>>traffic>>>"

/-- A counter of the stats service. -/
structure Stat where
  name : List UInt8
  value : ℤ
  deriving DecidableEq, Repr

/-- A counter of one user. -/
structure UserStat where
  clientID : List UInt8
  link : List UInt8
  value : ℤ
  deriving DecidableEq, Repr

/-- `parseUserStatName`: the client and the link of the name of a counter. -/
def parseUserStatName (name : List UInt8) : List UInt8 × List UInt8 :=
  if ¬ userStatPrefix <+: name then ([], [])
  else
    let rest := name.drop userStatPrefix.length
    match index userStatTrafficSep rest with
    | none => ([], [])
    | some idx =>
      if idx = 0 then ([], [])
      else (rest.take idx, rest.drop (idx + userStatTrafficSep.length))

/-- The loop of `QueryUserStats`. -/
def userStats (stats : List Stat) : List UserStat :=
  stats.filterMap fun s =>
    let (clientID, link) := parseUserStatName s.name
    if clientID = [] ∨ link = [] then none else some ⟨clientID, link, s.value⟩

/-- `QueryUserStats`, given whether there is a connection and what the stats service answers. -/
def queryUserStats (connected : Bool) (resp : Except GoError (List Stat)) :
    Except GoError (List UserStat) :=
  if ¬ connected then .error (.new "xray: not initialized")
  else
    match resp with
    | .error err => .error (.wrap "xray: QueryStats" err)
    | .ok stats => .ok (userStats stats)

/-! ## Names -/

/-- The name that xray gives to a user's counter. -/
def statName (clientID link : List UInt8) : List UInt8 :=
  ascii "user>>>" ++ clientID ++ ascii ">>>traffic>>>" ++ link

section Names

variable {name c l : List UInt8}

theorem userStatTrafficSep_eq :
    userStatTrafficSep = List.replicate 3 '>'.toUInt8 ++ 't'.toUInt8 :: ascii "raffic>>>" := by
  decide

theorem parseUserStatName_append (rest : List UInt8) : parseUserStatName (userStatPrefix ++ rest) =
    match index userStatTrafficSep rest with
    | none => ([], [])
    | some idx =>
      if idx = 0 then ([], [])
      else (rest.take idx, rest.drop (idx + userStatTrafficSep.length)) := by
  unfold parseUserStatName
  rw [if_neg (not_not.mpr (List.prefix_append _ _)), List.drop_left]

theorem parse_statName (hne : c ≠ []) (hrun : ¬ ascii ">>>" <:+: c) :
    parseUserStatName (statName c l) = (c, l) := by
  have hindex : index userStatTrafficSep (c ++ (userStatTrafficSep ++ l)) = some c.length := by
    rw [userStatTrafficSep_eq]
    exact index_append (by decide) hrun
  have hname : statName c l = userStatPrefix ++ (c ++ (userStatTrafficSep ++ l)) := by
    simp only [statName, userStatPrefix, userStatTrafficSep, List.append_assoc]
  have hpos : c.length ≠ 0 := List.length_eq_zero_iff.not.mpr hne
  rw [hname, parseUserStatName_append, hindex]
  dsimp only
  rw [if_neg hpos, List.take_left, ← List.drop_drop, List.drop_left, List.drop_left]

/-- A name that is read as a user's is the name of what was read. -/
theorem eq_statName_of_parse (h : parseUserStatName name = (c, l)) (hne : c ≠ []) :
    name = statName c l ∧ ¬ userStatTrafficSep <:+: c := by
  by_cases hstart : userStatPrefix <+: name
  · obtain ⟨rest, rfl⟩ := hstart
    rw [parseUserStatName_append] at h
    cases hindex : index userStatTrafficSep rest with
    | none =>
      rw [hindex] at h
      cases h
      exact absurd rfl hne
    | some idx =>
      rw [hindex] at h
      dsimp only at h
      split_ifs at h
      · cases h
        exact absurd rfl hne
      · cases h
        refine ⟨?_, not_infix_take_of_index (by decide) hindex⟩
        have hrest := eq_append_of_index hindex
        simp only [statName, userStatPrefix, List.append_assoc]
        exact congrArg _ hrest
  · unfold parseUserStatName at h
    rw [if_pos hstart] at h
    cases h
    exact absurd rfl hne

/-- Reading a name takes back what was put into it, and nothing else is read as a user's. -/
theorem parseUserStatName_statName :
    (∀ id link : List UInt8, id ≠ [] → ¬ ascii ">>>" <:+: id →
      parseUserStatName (ascii "user>>>" ++ id ++ ascii ">>>traffic>>>" ++ link) = (id, link)) ∧
    ∀ name c l : List UInt8, parseUserStatName name = (c, l) → c ≠ [] →
      name = ascii "user>>>" ++ c ++ ascii ">>>traffic>>>" ++ l ∧
        ¬ ascii ">>>traffic>>>" <:+: c :=
  ⟨fun _ _ hne hrun => parse_statName hne hrun, fun _ _ _ h hne => eq_statName_of_parse h hne⟩

theorem parseUserStatName_statName_run :
    parseUserStatName
        (ascii "user>>>" ++ ascii "a>b>>" ++ ascii ">>>traffic>>>" ++ ascii "uplink") =
          (ascii "a>b>>", ascii "uplink") ∧
      ascii "user>>>c>>>d>>>traffic>>>down>>>traffic>>>link" =
        ascii "user>>>" ++ ascii "c>>>d" ++ ascii ">>>traffic>>>" ++ ascii "down>>>traffic>>>link" ∧
      ¬ ascii ">>>traffic>>>" <:+: ascii "c>>>d" :=
  ⟨parseUserStatName_statName.1 _ _ (by decide) (by decide),
    parseUserStatName_statName.2 _ _ _ (by decide) (by decide)⟩

end Names

/-! ## Answers -/

theorem mem_of_mem_userStats {stats : List Stat} {u : UserStat} (h : u ∈ userStats stats) :
    ⟨statName u.clientID u.link, u.value⟩ ∈ stats := by
  obtain ⟨s, hs, hu⟩ := List.mem_filterMap.mp h
  obtain ⟨c, l, hparse⟩ : ∃ c l, parseUserStatName s.name = (c, l) := ⟨_, _, rfl⟩
  rw [hparse] at hu
  dsimp only at hu
  split_ifs at hu with hempty
  cases hu
  obtain ⟨hname, -⟩ := eq_statName_of_parse hparse fun h => hempty (.inl h)
  exact hname ▸ hs

/-- The counters of users whose ids do not have the separator's run come back as they are. -/
theorem queryUserStats_statName (us : List UserStat)
    (h : ∀ u ∈ us, u.clientID ≠ [] ∧ ¬ ascii ">>>" <:+: u.clientID ∧ u.link ≠ []) :
    queryUserStats true (.ok (us.map fun u => ⟨statName u.clientID u.link, u.value⟩)) = .ok us := by
  have hrow : ∀ u ∈ us, (let (clientID, link) := parseUserStatName (statName u.clientID u.link)
      if clientID = [] ∨ link = [] then none else some (⟨clientID, link, u.value⟩ : UserStat)) =
        some u := fun u hu => by
    obtain ⟨hid, hrun, hlink⟩ := h u hu
    rw [parse_statName hid hrun]
    simp [hid, hlink]
  change Except.ok (userStats _) = _
  unfold userStats
  rw [List.filterMap_map]
  exact congrArg Except.ok ((List.filterMap_congr hrow).trans (List.filterMap_some))

end NodeAgent.Xray
