import NodeAgent.Domain
import NodeAgent.Lib.Base64
import NodeAgent.Lib.Crash
import NodeAgent.Lib.FileSys

/-!
# The private key of the node

`New` of `internal/adapters/wg/manager.go` reads the key of the node, or makes one and writes it to a
temporary file that it renames. The public key is what the other nodes know the node by, so a key that was
once in use has to be found again at every later start.
-/

namespace NodeAgent.Wg

open Lib Lib.FileSys

/-! ## Writing a file -/

/-- `os.WriteFile` -/
def writeFile (p : Path) (data : List UInt8) : Prog files (Option FileErr) := do
  match ← sys (.openTrunc p) with
  | .error err => return some err
  | .ok fd =>
    let err : Option FileErr ← sys (.write fd data)
    let err' : Option FileErr ← sys (.close fd)
    return err.or err'

section Write

variable {fs : Fs} {A : FileEnv → Prop}

/-- A file that was opened is empty. -/
theorem openTrunc_ok {p : Path} {e : FileEnv} {fd : ℕ} (h : (exec (.openTrunc p) e fs).1 = .ok fd) :
    (exec (.openTrunc p) e fs).2.dir p = some fd ∧
      (exec (.openTrunc p) e fs).2.inodes[fd]? = some {} := by
  rcases hfail : e.fail with _ | msg
  · rcases hdir : fs.dir p with _ | i
    · simp only [exec, hfail, hdir] at h ⊢
      cases h
      exact ⟨Function.update_self _ _ _, List.getElem?_concat_length⟩
    · simp only [exec, hfail, hdir] at h ⊢
      cases h
      refine ⟨hdir, ?_⟩
      rw [Fs.modify, List.getElem?_modify, List.getElem?_eq_getElem (fs.dir_lt p fd hdir)]
      exact congrArg some (if_pos rfl)
  · simp only [exec, hfail] at h
    cases h

/-- What `os.WriteFile` leaves under the name if it succeeds. -/
theorem writeFile_returns (p : Path) (data : List UInt8) :
    Safe fsys A (fun _ => True)
      (fun r fs' => r = none → fs'.content p = some data) (writeFile p data) fs := by
  refine safe_invoke.mpr ⟨trivial, fun e _ => ?_⟩
  rcases hopen : (exec (.openTrunc p) e fs).1 with err | fd
  · simp only [fsys, hopen]
    exact ⟨trivial, fun h => nomatch h⟩
  · simp only [fsys, hopen]
    obtain ⟨hdir, hempty⟩ := openTrunc_ok hopen
    refine safe_invoke.mpr ⟨trivial, fun e' _ => ?_⟩
    rcases hfail : e'.fail with _ | msg
    · simp only [exec, hfail]
      refine safe_invoke.mpr ⟨trivial, fun e'' _ => ⟨trivial, fun _ => ?_⟩⟩
      exact Fs.content_modify_self hdir hempty (append data)
    · simp only [exec, hfail]
      exact ⟨trivial, fun e'' _ => ⟨trivial, fun h => nomatch h⟩⟩

end Write

/-! ## Keys -/

/-- `wgtypes.Key` -/
structure Key where
  data : List UInt8
  length_eq : data.length = 32
  deriving DecidableEq, Repr

def isBlank (c : UInt8) : Bool := c = 10 ∨ c = 13 ∨ c = 32

/-- `trimNewline`: line ends and blanks at the end are dropped. -/
def trimNewline (b : List UInt8) : List UInt8 := b.rdropWhile isBlank

/-- How a key is written, by `Key.String` and `ParseKey` of the package `wgtypes`: what is written is read
again, and does not end in a blank. -/
class KeyText where
  string : Key → List UInt8
  parseKey : List UInt8 → Option Key
  parseKey_string : ∀ k, parseKey (string k) = some k
  last_string : ∀ k, ∀ c ∈ (string k).getLast?, isBlank c = false

export KeyText (parseKey parseKey_string)

section Text

variable [KeyText]

abbrev Key.string (k : Key) : List UInt8 := KeyText.string k

theorem trimNewline_string (k : Key) : trimNewline k.string = k.string := by
  refine List.rdropWhile_eq_self_iff.mpr fun hne => ?_
  rw [KeyText.last_string k _ (List.getLast_mem_getLast? hne)]
  decide

/-! ## Loading the key -/

/-- The part of `loadOrGenerateKey` that makes a key; `generated` is what `GeneratePrivateKey` returns. -/
def generateKey (path : Path) (generated : Except GoError Key) : Prog files (Except GoError Key) :=
  match generated with
  | .error err => return .error (.wrap "wg: generate key" err)
  | .ok key => do
    let tmp : Path := ⟨path.dir, path.base ++ ".tmp"⟩
    match ← writeFile tmp key.string with
    | some err => return .error (.wrap "wg: write key" (.new err.text))
    | none =>
      match ← sys (.rename tmp path) with
      | some err => return .error (.wrap "wg: rename key" (.new err.text))
      | none => return .ok key

/-- `LoadOrGenerateKey`: the key of the file, or a new one that is written before it is used. -/
def loadOrGenerateKey (path : Path) (generated : Except GoError Key) :
    Prog files (Except GoError Key) := do
  match ← sys (.readFile path) with
  | .ok data =>
    match parseKey (trimNewline data) with
    | some key => return .ok key
    | none => generateKey path generated
  | .error .notExist => generateKey path generated
  | .error err => return .error (.wrap "wg: read key" (.new err.text))

/-- `wg.Manager`: the interface, the directory of the key, and the key. -/
structure Manager where
  iface : String
  keyDir : String
  priv : Key
  deriving DecidableEq, Repr

def defaultInterface : String := "wg0"

def privateKeyFile : String := "wg-private.key"

def keyPath (keyDir : String) : Path := ⟨keyDir, privateKeyFile⟩

/-- `New`, with what the generator of keys returns if it is asked. -/
def new (iface keyDir : String) (generated : Except GoError Key) : Prog files (Except GoError Manager) :=
  let iface := if iface = "" then defaultInterface else iface
  if keyDir = "" then return .error (.new "wg: keyDir required")
  else do
    match ← sys (.mkdirAll keyDir) with
    | some err => return .error (.wrap "wg: mkdir keyDir" (.new err.text))
    | none =>
      match ← loadOrGenerateKey (keyPath keyDir) generated with
      | .error err => return .error err
      | .ok priv => return .ok { iface := iface, keyDir := keyDir, priv := priv }

/-! ## Every later start -/

/-- The key file holds this key. -/
def Known (keyDir : String) (k : Key) (fs : Fs) : Prop :=
  ∃ data, fs.content (keyPath keyDir) = some data ∧ parseKey (trimNewline data) = some k

section Starts

variable {keyDir : String} {k : Key} {fs : Fs} {A : FileEnv → Prop} {generated : Except GoError Key}

theorem load_known (h : Known keyDir k fs) :
    Safe fsys A (Known keyDir k) (fun r _ => ∀ key, r = .ok key → key = k)
      (loadOrGenerateKey (keyPath keyDir) generated) fs := by
  obtain ⟨data, hdata, hparse⟩ := h
  have hknown : Known keyDir k fs := ⟨data, hdata, hparse⟩
  refine safe_invoke.mpr ⟨hknown, fun e _ => ?_⟩
  rcases hfail : e.fail with _ | msg
  · simp only [fsys, exec, hfail, hdata, hparse]
    exact ⟨hknown, fun key h => (Except.ok.inj h).symm⟩
  · simp only [fsys, exec, hfail]
    exact ⟨hknown, fun key h => nomatch h⟩

theorem generateKey_returns :
    Safe fsys A (fun _ => True) (fun r fs' => ∀ key, r = .ok key → Known keyDir key fs')
      (generateKey (keyPath keyDir) generated) fs := by
  cases generated with
  | error err => exact ⟨trivial, fun key h => nomatch h⟩
  | ok key =>
    refine (writeFile_returns _ key.string).bind fun r v _ hv => ?_
    cases r with
    | some err => exact ⟨trivial, fun key h => nomatch h⟩
    | none =>
      have hcontent := hv rfl
      refine safe_invoke.mpr ⟨trivial, fun e _ => ?_⟩
      obtain ⟨i, hi⟩ := Option.ne_none_iff_exists'.mp (Fs.dir_ne_none_of_content hcontent)
      rcases hfail : e.fail with _ | msg
      · simp only [fsys, exec, hfail, hi]
        refine ⟨trivial, fun key' h => ⟨key.string, ?_, ?_⟩⟩
        · exact (Fs.content_rename_self _ _).trans hcontent
        · cases h
          rw [trimNewline_string, parseKey_string]
      · simp only [fsys, exec, hfail]
        exact ⟨trivial, fun key h => nomatch h⟩

/-- A key that is returned is in the file. -/
theorem load_returns :
    Safe fsys A (fun _ => True) (fun r fs' => ∀ key, r = .ok key → Known keyDir key fs')
      (loadOrGenerateKey (keyPath keyDir) generated) fs := by
  refine safe_invoke.mpr ⟨trivial, fun e _ => ?_⟩
  rcases hfail : e.fail with _ | msg
  · rcases hdata : fs.content (keyPath keyDir) with _ | data
    · simp only [fsys, exec, hfail, hdata]
      exact generateKey_returns
    · simp only [fsys, exec, hfail, hdata]
      rcases hparse : parseKey (trimNewline data) with _ | key
      · exact generateKey_returns
      · refine ⟨trivial, fun key' h => ⟨data, hdata, ?_⟩⟩
        cases h
        exact hparse
  · simp only [fsys, exec, hfail]
    exact ⟨trivial, fun key h => nomatch h⟩

/-- Whatever `New` does with the key goes through `loadOrGenerateKey`. -/
theorem new_safe {K : Fs → Prop} {Q : Key → Fs → Prop} (iface : String) (hK : K fs)
    (hload : Safe fsys A K (fun r fs' => ∀ key, r = .ok key → Q key fs')
      (loadOrGenerateKey (keyPath keyDir) generated) fs) :
    Safe fsys A K (fun r fs' => ∀ m, r = .ok m → Q m.priv fs') (new iface keyDir generated) fs := by
  unfold new
  dsimp only
  by_cases hdir : keyDir = ""
  · rw [if_pos hdir]
    exact ⟨hK, fun m h => nomatch h⟩
  · rw [if_neg hdir]
    refine safe_invoke.mpr ⟨hK, fun e _ => ?_⟩
    rcases hfail : e.fail with _ | msg
    · simp only [fsys, exec, hfail, Option.map_none]
      refine hload.bind fun r v hv hr => ?_
      cases r with
      | error err => exact ⟨hv, fun m h => nomatch h⟩
      | ok priv =>
        refine ⟨hv, fun m h => ?_⟩
        cases h
        exact hr priv rfl
    · simp only [fsys, exec, hfail, Option.map_some]
      exact ⟨hK, fun m h => nomatch h⟩

/-- However often the node is started, and wherever a start stops: once a start has returned with a key,
every later start that returns with one returns with the same. -/
theorem key_is_found_again {iface : String} {fs' : Fs}
    {pre post : List (Boot files Fs (Except GoError Key) (Except GoError Manager))}
    {b b' : Boot files Fs (Except GoError Key) (Except GoError Manager)} {m m' : Manager}
    (h : Boots fsys A (fun _ _ => False) (new iface keyDir) fs (pre ++ b :: post) fs')
    (hb : b.rest = .done (.ok m)) (hmem : b' ∈ post) (hb' : b'.rest = .done (.ok m')) :
    m'.priv = m.priv := by
  obtain ⟨v, -, hrest⟩ := boots_append.mp h
  cases hrest with
  | cons hbefore hafter hsteps hlose hpost =>
    have hknown : Known keyDir m.priv b.after := by
      have hdone := (new_safe iface trivial load_returns).after hafter hsteps
      rw [hb] at hdone
      rw [hlose.elim id False.elim]
      exact hdone.2 m rfl
    obtain ⟨hknown', hafter', w, hsteps'⟩ := hpost.before hknown
      (fun i w tr q w' hw hafter hsteps =>
        ((new_safe iface hw (load_known hw)).after hafter hsteps).keeps)
      (fun _ _ hno => hno.elim) hmem
    have hdone := (new_safe iface hknown' (load_known hknown')).after hafter' hsteps'
    rw [hb'] at hdone
    exact hdone.2 m' rfl

end Starts

end Text

section Sample

/-- Keys in base64, as `wgtypes` writes them. -/
local instance base64 : KeyText where
  string k := Base64.encode k.data
  parseKey s := (Base64.decode s).bind fun data => if h : data.length = 32 then some ⟨data, h⟩ else none
  parseKey_string k := by rw [Base64.decode_encode, Option.bind_some, dif_pos k.length_eq]
  last_string k c hc := by
    obtain ⟨hlf, hcr, hblank⟩ := Base64.not_blank_of_mem_encode (List.mem_of_getLast? hc)
    unfold isBlank
    simp [hlf, hcr, hblank]

def sampleKey (c : UInt8) : Key := ⟨List.replicate 32 c, List.length_replicate⟩

/-- A first start, and a second one whose generator would return another key. -/
def startWith (c : UInt8) : Fs → List FileEvent × Except GoError Manager × Fs :=
  replay fsys (new "" "/var/lib/node" (.ok (sampleKey c))) []

def bootWith (c : UInt8) (fs : Fs) : Boot files Fs (Except GoError Key) (Except GoError Manager) :=
  ⟨.ok (sampleKey c), fs, (startWith c fs).1, .done (startWith c fs).2.1, (startWith c fs).2.2⟩

theorem run_startWith (c : UInt8) (fs : Fs) :
    Run fsys (fun _ => True) (new "" "/var/lib/node" (.ok (sampleKey c))) fs (startWith c fs).1
      (startWith c fs).2.1 (startWith c fs).2.2 :=
  run_replay trivial [] (fun _ _ => trivial) fs

theorem key_is_found_again_second : ∃ m', (startWith 2 (startWith 1 {}).2.2).2.1 = .ok m' ∧
    m'.priv = sampleKey 1 := by
  have hfirst : (startWith 1 {}).2.1 = .ok ⟨"wg0", "/var/lib/node", sampleKey 1⟩ := by rfl
  obtain ⟨m', hsecond⟩ : ∃ m', (startWith 2 (startWith 1 {}).2.2).2.1 = .ok m' :=
    ⟨⟨"wg0", "/var/lib/node", sampleKey 1⟩, by rfl⟩
  have hboots : Boots fsys (fun _ => True) (fun _ _ => False) (new "" "/var/lib/node") {}
      ([] ++ [bootWith 1 {}, bootWith 2 (startWith 1 {}).2.2]) (startWith 2 (startWith 1 {}).2.2).2.2 :=
    .cons rfl (run_startWith 1 {}).1 (run_startWith 1 {}).2 (.inl rfl)
      (.cons rfl (run_startWith 2 _).1 (run_startWith 2 _).2 (.inl rfl) (.nil _))
  exact ⟨m', hsecond, key_is_found_again hboots (congrArg Prog.done hfirst) List.mem_cons_self
    (congrArg Prog.done hsecond)⟩

end Sample

end NodeAgent.Wg
