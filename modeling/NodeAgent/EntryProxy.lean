import NodeAgent.Domain

/-!
# The embedded entry proxy

`internal/entryproxy/proxy.go`: the maps behind the proxy's lock, the calls of its control surface,
and the choice of backends for a new connection. A call is one atomic step, as in the source, where
each of them holds the lock for its whole body.
-/

namespace NodeAgent

/-- `ports.EntryBackend`. -/
structure EntryBackend where
  id : String
  address : String
  port : ℕ
  deriving DecidableEq, Repr, Inhabited

/-- `backendHealth` of `proxy.go`: failures in a row, and until when the backend counts as unhealthy. -/
structure BackendHealth where
  fails : ℕ := 0
  unhealthyUntil : Time := 0
  deriving DecidableEq, Repr, Inhabited

/-- The maps under the proxy's lock; a backend lies under its own id, and no user is nameless. -/
structure Proxy where
  /-- client id to flow -/
  users : GoMap String := ∅
  backends : GoMap EntryBackend := ∅
  /-- client id to eligible backend ids -/
  route : GoMap (List String) := ∅
  health : GoMap BackendHealth := ∅
  keyed : ∀ (id : String) (be : EntryBackend), backends[id]? = some be → be.id = id := by simp
  named : "" ∉ users := by simp

/-- The maps of a proxy that `New` has made. -/
def Proxy.new : Proxy := {}

instance : Inhabited Proxy := ⟨.new⟩

namespace Proxy

/-- `p.route[clientID]`; a missing entry reads as the empty slice. -/
def routeOf (p : Proxy) (clientID : String) : List String := p.route[clientID]?.getD []

/-! ## The control surface -/

/-- `Proxy.AddUser`. -/
def addUser (p : Proxy) (clientID flow : String) : Except GoError Proxy :=
  if h : clientID = "" then .error (.new "entryproxy: empty clientID")
  else .ok { p with
    users := p.users.insert clientID flow
    named := by
      rw [GoMap.mem_insert]
      exact not_or_intro (Ne.symm h) p.named }

/-- `Proxy.RemoveUser`, which forgets the routes as well. -/
def removeUser (p : Proxy) (clientID : String) : Proxy :=
  { p with
    users := p.users.erase clientID
    route := p.route.erase clientID
    named := fun h => p.named (Std.ExtTreeMap.mem_of_mem_erase h) }

/-- `Proxy.SelectBackend`: the backend is appended to the user's list. -/
def selectBackend (p : Proxy) (clientID backendID : String) : Except GoError Proxy :=
  if backendID ∈ p.backends then
    if backendID ∈ p.routeOf clientID then .ok p
    else .ok { p with route := p.route.insert clientID (p.routeOf clientID ++ [backendID]) }
  else .error (.new ("entryproxy: unknown backend " ++ backendID))

/-- The loop of `SetUserBackends`: drop the empty id and every repetition. -/
def distinctIDs (seen : List String) : List String → List String
  | [] => []
  | id :: ids =>
    if id = "" ∨ id ∈ seen then distinctIDs seen ids
    else id :: distinctIDs (id :: seen) ids

/-- `Proxy.SetUserBackends`: the user's list is replaced. -/
def setUserBackends (p : Proxy) (clientID : String) (backendIDs : List String) :
    Except GoError Proxy :=
  if clientID = "" then .error (.new "entryproxy: empty clientID")
  else .ok { p with route := p.route.insert clientID (distinctIDs [] backendIDs) }

theorem keyed_foldl_insert (specs : List EntryBackend) (m : GoMap EntryBackend)
    (hm : ∀ (id : String) (be : EntryBackend), m[id]? = some be → be.id = id) (id : String)
    (be : EntryBackend)
    (h : (specs.foldl (fun next s => next.insert s.id s) m)[id]? = some be) : be.id = id := by
  induction specs generalizing m with
  | nil => exact hm id be h
  | cons s specs ih =>
    refine ih (m.insert s.id s) (fun id be h => ?_) h
    rw [GoMap.getElem?_insert] at h
    split_ifs at h with he
    · cases h
      exact he.symm
    · exact hm id be h

/-- `Proxy.SetBackends`. -/
def setBackends (p : Proxy) (specs : List EntryBackend) : Proxy :=
  { p with
    backends := specs.foldl (fun next s => next.insert s.id s) ∅
    keyed := keyed_foldl_insert specs ∅ (by simp) }

/-! ## Health and the choice for a new connection -/

/-- The failures in a row that make a backend unhealthy. -/
def backendFailThreshold : ℕ := 2

/-- 30 seconds. -/
def backendUnhealthyCooldown : Time := 30 * 1000000000

/-- `Proxy.markBackendFailure`. -/
def markBackendFailure (p : Proxy) (id : String) (now : Time) : Proxy :=
  let h := p.health[id]?.getD {}
  let fails := h.fails + 1
  let unhealthyUntil :=
    if fails ≥ backendFailThreshold then now + backendUnhealthyCooldown else h.unhealthyUntil
  { p with health := p.health.insert id ⟨fails, unhealthyUntil⟩ }

/-- `Proxy.markBackendSuccess`; a backend without a record gets none. -/
def markBackendSuccess (p : Proxy) (id : String) : Proxy :=
  match p.health[id]? with
  | none => p
  | some _ => { p with health := p.health.insert id {} }

/-- The score of rendezvous hashing: the hash of backend, client and destination. -/
def hrwScore (backendID clientID destHost : String) : UInt64 :=
  fnv64a (backendID.toUTF8.toList ++ [0] ++ clientID.toUTF8.toList ++ [0] ++
    destHost.toUTF8.toList)

/-- A candidate of `connBackends`. -/
structure Cand where
  be : EntryBackend
  score : UInt64
  healthy : Bool

/-- The comparison handed to `sort.Slice`. -/
def Cand.less (a b : Cand) : Bool :=
  if a.healthy ≠ b.healthy then a.healthy else decide (b.score < a.score)

/-- The known backends among a client's eligible ones, with score and health. -/
def cands (p : Proxy) (clientID destHost : String) (now : Time) : List Cand :=
  (p.routeOf clientID).filterMap fun id =>
    p.backends[id]?.map fun be =>
      { be := be
        score := hrwScore id clientID destHost
        healthy := match p.health[id]? with
          | none => true
          | some h => decide (¬ now < h.unhealthyUntil) }

/-- `Proxy.connBackends`: the backends in the order in which a connection tries them. -/
def connBackends (p : Proxy) (clientID destHost : String) (now : Time) : List EntryBackend :=
  ((p.cands clientID destHost now).insertionSort fun a b => b.less a = false).map Cand.be

/-! ## What the calls do to the maps -/

@[simp]
theorem new_users : new.users = ∅ := rfl

@[simp]
theorem new_route : new.route = ∅ := rfl

theorem mem_users_removeUser {p : Proxy} {c x : String} :
    x ∈ (p.removeUser c).users ↔ x ≠ c ∧ x ∈ p.users := by
  unfold removeUser
  rw [GoMap.mem_erase]

@[simp] theorem removeUser_backends {p : Proxy} {c : String} :
    (p.removeUser c).backends = p.backends := rfl

theorem routeOf_removeUser {p : Proxy} {c x : String} :
    (p.removeUser c).routeOf x = if x = c then [] else p.routeOf x := by
  unfold routeOf removeUser
  rw [GoMap.getElem?_erase]
  split_ifs <;> rfl

/-- A successful `AddUser` adds the client and touches nothing but the user map. -/
theorem addUser_ok {p p' : Proxy} {c f : String} (h : p.addUser c f = .ok p') :
    c ≠ "" ∧ (∀ x, x ∈ p'.users ↔ x = c ∨ x ∈ p.users) ∧ p'.backends = p.backends ∧
      p'.route = p.route := by
  unfold addUser at h
  split_ifs at h with hc
  cases h
  refine ⟨hc, fun x => ?_, rfl, rfl⟩
  rw [GoMap.mem_insert]

/-- `AddUser` only rejects the empty client id. -/
theorem addUser_error {p : Proxy} {c f : String} {err : GoError} (h : p.addUser c f = .error err) :
    c = "" ∧ ∃ msg, err = .new msg := by
  unfold addUser at h
  split_ifs at h with hc
  cases h
  exact ⟨hc, _, rfl⟩

/-- A successful `SelectBackend` puts a known backend into the client's set and no other. -/
theorem selectBackend_ok {p p' : Proxy} {c b : String} (h : p.selectBackend c b = .ok p') :
    b ∈ p.backends ∧ p'.users = p.users ∧ p'.backends = p.backends ∧
      ∀ x d, d ∈ p'.routeOf x ↔ d ∈ p.routeOf x ∨ (x = c ∧ d = b) := by
  unfold selectBackend at h
  by_cases hb : b ∈ p.backends
  · rw [if_pos hb] at h
    refine ⟨hb, ?_⟩
    by_cases hr : b ∈ p.routeOf c
    · rw [if_pos hr] at h
      cases h
      refine ⟨rfl, rfl, fun x d => ⟨.inl, ?_⟩⟩
      rintro (hd | ⟨rfl, rfl⟩)
      · exact hd
      · exact hr
    · rw [if_neg hr] at h
      cases h
      refine ⟨rfl, rfl, fun x d => ?_⟩
      unfold routeOf
      rw [GoMap.getElem?_insert]
      by_cases hx : x = c
      · subst hx
        simp
      · simp [hx]
  · rw [if_neg hb] at h
    cases h

/-- `SelectBackend` only rejects a backend the proxy does not know. -/
theorem selectBackend_error {p : Proxy} {c b : String} {err : GoError}
    (h : p.selectBackend c b = .error err) : b ∉ p.backends ∧ ∃ msg, err = .new msg := by
  unfold selectBackend at h
  split_ifs at h with hb
  cases h
  exact ⟨hb, _, rfl⟩

theorem mem_distinctIDs {seen ids : List String} {x : String} :
    x ∈ distinctIDs seen ids ↔ x ∈ ids ∧ x ≠ "" ∧ x ∉ seen := by
  induction ids generalizing seen with
  | nil => simp [distinctIDs]
  | cons id ids ih =>
    unfold distinctIDs
    split_ifs with h
    · rw [ih, List.mem_cons]
      constructor
      · rintro ⟨hx, hn, hs⟩
        exact ⟨.inr hx, hn, hs⟩
      · rintro ⟨rfl | hx, hn, hs⟩
        · rcases h with h | h
          · exact absurd h hn
          · exact absurd h hs
        · exact ⟨hx, hn, hs⟩
    · rw [not_or] at h
      rw [List.mem_cons, ih, List.mem_cons, List.mem_cons, not_or]
      constructor
      · rintro (rfl | ⟨hx, hn, -, hs⟩)
        · exact ⟨.inl rfl, h.1, h.2⟩
        · exact ⟨.inr hx, hn, hs⟩
      · rintro ⟨rfl | hx, hn, hs⟩
        · exact .inl rfl
        · by_cases hxi : x = id
          · exact .inl hxi
          · exact .inr ⟨hx, hn, hxi, hs⟩

/-- A successful `SetUserBackends` makes the client's set that of the given ids. -/
theorem setUserBackends_ok {p p' : Proxy} {c : String} {ids : List String}
    (h : p.setUserBackends c ids = .ok p') :
    p'.users = p.users ∧ p'.backends = p.backends ∧
      (∀ x, x ∈ p'.route ↔ x = c ∨ x ∈ p.route) ∧
      (∀ x, x ≠ c → p'.routeOf x = p.routeOf x) ∧
      ∀ d, d ∈ p'.routeOf c ↔ d ∈ ids ∧ d ≠ "" := by
  unfold setUserBackends at h
  by_cases hc : c = ""
  · rw [if_pos hc] at h
    cases h
  · rw [if_neg hc] at h
    cases h
    refine ⟨rfl, rfl, fun x => ?_, fun x hx => ?_, fun d => ?_⟩
    · rw [GoMap.mem_insert]
    · simp [routeOf, GoMap.getElem?_insert, hx]
    · simp [routeOf, mem_distinctIDs]

theorem mem_foldl_insert_backends {specs : List EntryBackend} {m : GoMap EntryBackend}
    {x : String} :
    x ∈ specs.foldl (fun next s => next.insert s.id s) m ↔ x ∈ specs.map EntryBackend.id ∨ x ∈ m := by
  induction specs generalizing m with
  | nil => simp
  | cons s specs ih =>
    rw [List.foldl_cons, ih, List.map_cons, List.mem_cons, GoMap.mem_insert]
    constructor
    · rintro (h | rfl | h)
      · exact .inl (.inr h)
      · exact .inl (.inl rfl)
      · exact .inr h
    · rintro ((rfl | h) | h)
      · exact .inr (.inl rfl)
      · exact .inl h
      · exact .inr (.inr h)

/-- After `SetBackends` the proxy knows exactly the backends it was given. -/
theorem mem_backends_setBackends {p : Proxy} {specs : List EntryBackend} {x : String} :
    x ∈ (p.setBackends specs).backends ↔ x ∈ specs.map EntryBackend.id := by
  unfold setBackends
  rw [mem_foldl_insert_backends]
  simp

@[simp] theorem setBackends_users {p : Proxy} {specs : List EntryBackend} :
    (p.setBackends specs).users = p.users := rfl

@[simp] theorem setBackends_route {p : Proxy} {specs : List EntryBackend} :
    (p.setBackends specs).route = p.route := rfl

@[simp] theorem setBackends_routeOf {p : Proxy} {specs : List EntryBackend} {c : String} :
    (p.setBackends specs).routeOf c = p.routeOf c := rfl

theorem mem_connBackends {p : Proxy} {c dest : String} {now : Time} {be : EntryBackend} :
    be ∈ p.connBackends c dest now ↔ be.id ∈ p.routeOf c ∧ p.backends[be.id]? = some be := by
  unfold connBackends cands
  rw [List.mem_map]
  simp only [List.mem_insertionSort, List.mem_filterMap, Option.map_eq_some_iff]
  constructor
  · rintro ⟨_, ⟨id, hid, be, hbe, rfl⟩, rfl⟩
    rw [p.keyed id be hbe]
    exact ⟨hid, hbe⟩
  · rintro ⟨hid, hbe⟩
    exact ⟨_, ⟨be.id, hid, be, hbe, rfl⟩, rfl⟩

end Proxy

end NodeAgent
