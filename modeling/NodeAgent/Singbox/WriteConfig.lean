import NodeAgent.Domain
import NodeAgent.Lib.Crash
import NodeAgent.Lib.FileSys
import NodeAgent.Lib.Typestate

/-!
# Writing the configuration of sing-box

`WriteConfig` of `internal/adapters/singbox/config.go` writes a temporary file next to the configuration,
syncs it, and renames it over the old one. sing-box reads the configuration whenever it is restarted or
told to, so the file must be whole at any moment, and after a crash.
-/

namespace NodeAgent.Singbox

open Lib Lib.FileSys

def pathString (p : Path) : String := p.dir ++ "/" ++ p.base

/-- The pattern of the temporary file is `.sing-box-cfg-*.tmp`. -/
def tempBefore : String := ".sing-box-cfg-"

def tempAfter : String := ".tmp"

/-- `ctxErr` is what `ctx.Err` returns at the beginning. -/
def writeConfig (configPath : Path) (ctxErr : Option GoError) (raw : List UInt8) :
    Prog files (Option GoError) :=
  match ctxErr with
  | some err => return some err
  | none =>
    if raw.length = 0 then return some (.new "singbox: empty config")
    else do
      let dir := configPath.dir
      match ← sys (.mkdirAll dir) with
      | some err => return some (.wrap ("singbox: mkdir " ++ dir) (.new err.text))
      | none =>
        match ← sys (.createTemp dir tempBefore tempAfter) with
        | .error err => return some (.wrap "singbox: create tmp" (.new err.text))
        | .ok (fd, tmpPath) =>
          match ← sys (.write fd raw) with
          | some err =>
            let _ ← sys (.close fd)
            let _ ← sys (.remove tmpPath)
            return some (.wrap "singbox: write tmp" (.new err.text))
          | none =>
            match ← sys (.sync fd) with
            | some err =>
              let _ ← sys (.close fd)
              let _ ← sys (.remove tmpPath)
              return some (.wrap "singbox: fsync tmp" (.new err.text))
            | none =>
              match ← sys (.close fd) with
              | some err =>
                let _ ← sys (.remove tmpPath)
                return some (.wrap "singbox: close tmp" (.new err.text))
              | none =>
                match ← sys (.rename tmpPath configPath) with
                | some err =>
                  let _ ← sys (.remove tmpPath)
                  return some (.wrap ("singbox: rename to " ++ pathString configPath) (.new err.text))
                | none =>
                  match ← sys (.openDir dir) with
                  | some _ => return none
                  | none =>
                    let _ ← sys (.syncDir dir)
                    return none

/-! ## The protocol of a write -/

/-- What the temporary file holds. -/
inductive Temp
  | empty
  | full
  | synced
  | spoiled
  deriving DecidableEq, Repr

/-- The inode is in the state that the stage says. -/
def Temp.Holds (raw : List UInt8) : Temp → Inode → Prop
  | .empty, x => x.data = []
  | .full, x => x.data = raw
  | .synced, x => x = ⟨raw, true⟩
  | .spoiled, _ => True

/-- How far a write has come. -/
structure Stage where
  /-- the temporary file: its inode, its name, and what it holds -/
  temp : Option (ℕ × Path × Temp) := none
  /-- the inode that was renamed over the configuration -/
  moved : Option ℕ := none
  /-- the directory was synced after that -/
  durable : Bool := false
  /-- the temporary file could not be removed -/
  kept : Bool := false
  deriving DecidableEq, Repr

def Stage.spoil (st : Stage) : Stage :=
  { st with temp := st.temp.map fun (fd, p, _) => (fd, p, .spoiled) }

/-- The order of the calls of a write, with what each leaves behind. -/
def writing (configPath : Path) (raw : List UInt8) : Protocol files Stage where
  ok st
    | ⟨.createTemp dir before after, _⟩ => dir = configPath.dir ∧ before = tempBefore ∧
      after = tempAfter ∧ st = {}
    | ⟨.write fd bytes, _⟩ => bytes = raw ∧ ∃ p, st.temp = some (fd, p, .empty)
    | ⟨.sync fd, _⟩ => ∃ p, st.temp = some (fd, p, .full)
    | ⟨.rename p q, _⟩ => q = configPath ∧ ∃ fd, st.temp = some (fd, p, .synced)
    | ⟨.remove p, _⟩ => ∃ fd s, st.temp = some (fd, p, s)
    | ⟨.openTrunc _, _⟩ => False
    | ⟨.syncDir dir, _⟩ => dir = configPath.dir ∧ st.temp = none
    | _ => True
  next st
    | ⟨.createTemp _ _ _, .ok (fd, p)⟩ => { st with temp := some (fd, p, .empty) }
    | ⟨.write fd _, none⟩ => { st with temp := st.temp.map fun t => (fd, t.2.1, .full) }
    | ⟨.write _ _, some _⟩ => st.spoil
    | ⟨.sync fd, none⟩ => { st with temp := st.temp.map fun t => (fd, t.2.1, .synced) }
    | ⟨.rename _ _, none⟩ => { st with temp := none, moved := st.temp.map Prod.fst }
    | ⟨.remove _, none⟩ => { st with temp := none }
    | ⟨.remove _, some _⟩ => { st with kept := true }
    | ⟨.syncDir _, none⟩ => { st with durable := true }
    | _ => st

section Follows

variable {configPath : Path} {raw : List UInt8} {st : Stage} {fd : ℕ} {p : Path} {t : Temp}

/-- A write that returns nil has renamed, one that returns an error has not, and has tried to clean up. -/
def Stage.Result (st : Stage) (r : Option GoError) : Prop :=
  st.moved.isSome = r.isNone ∧ (st.temp = none ∨ st.kept = true)

theorem remove_follows (htemp : st.temp = some (fd, p, t)) (hmoved : st.moved = none) (err : GoError) :
    (writing configPath raw).Follows Stage.Result st (do
      let _ ← sys (.remove p)
      return some err) := by
  intro r
  refine ⟨⟨fd, t, htemp⟩, ?_⟩
  cases r with
  | none => exact ⟨congrArg Option.isSome hmoved, .inl rfl⟩
  | some e => exact ⟨congrArg Option.isSome hmoved, .inr rfl⟩

theorem writeConfig_follows (ctxErr : Option GoError) :
    (writing configPath raw).Follows Stage.Result {} (writeConfig configPath ctxErr raw) := by
  have hnothing : ∀ err, Stage.Result {} (some err) := fun err => ⟨rfl, .inl rfl⟩
  cases ctxErr with
  | some err => exact hnothing err
  | none =>
    unfold writeConfig
    dsimp only
    split_ifs
    · exact hnothing _
    · refine Protocol.follows_invoke.mpr fun r => ⟨trivial, ?_⟩
      cases r with
      | some err => exact hnothing _
      | none =>
        refine Protocol.follows_invoke.mpr fun r => ⟨⟨rfl, rfl, rfl, rfl⟩, ?_⟩
        cases r with
        | error err => exact hnothing _
        | ok file =>
          obtain ⟨fd, p⟩ := file
          refine Protocol.follows_invoke.mpr fun r => ⟨⟨rfl, p, rfl⟩, ?_⟩
          cases r with
          | some err => exact fun _ => ⟨trivial, remove_follows rfl rfl _⟩
          | none =>
            refine Protocol.follows_invoke.mpr fun r => ⟨⟨p, rfl⟩, ?_⟩
            cases r with
            | some err => exact fun _ => ⟨trivial, remove_follows rfl rfl _⟩
            | none =>
              refine Protocol.follows_invoke.mpr fun r => ⟨trivial, ?_⟩
              cases r with
              | some err => exact remove_follows rfl rfl _
              | none =>
                refine Protocol.follows_invoke.mpr fun r => ⟨⟨rfl, fd, rfl⟩, ?_⟩
                cases r with
                | some err => exact remove_follows rfl rfl _
                | none =>
                  refine Protocol.follows_invoke.mpr fun r => ⟨trivial, ?_⟩
                  cases r with
                  | some err => exact ⟨rfl, .inl rfl⟩
                  | none =>
                    intro r
                    refine ⟨⟨rfl, rfl⟩, ?_⟩
                    cases r with
                    | none => exact ⟨rfl, .inl rfl⟩
                    | some err => exact ⟨rfl, .inl rfl⟩

end Follows

/-! ## The files during a write -/

/-- How the files differ from those at the beginning. -/
structure Agrees (configPath : Path) (raw : List UInt8) (fs₀ : Fs) (st : Stage) (fs : Fs) : Prop where
  others : ∀ q, q ≠ configPath → (∀ fd t, st.temp ≠ some (fd, q, t)) → fs.dir q = fs₀.dir q
  size : fs₀.inodes.length ≤ fs.inodes.length
  old : ∀ (i : ℕ) (x : Inode), fs₀.inodes[i]? = some x → fs.inodes[i]? = some x
  temp : ∀ fd p t, st.temp = some (fd, p, t) → p ≠ configPath ∧ fs₀.dir p = none ∧ fs.dir p = some fd ∧
    fs₀.inodes.length ≤ fd ∧ ∃ x, fs.inodes[fd]? = some x ∧ t.Holds raw x
  single : st.temp ≠ none → st.moved = none ∧ st.durable = false
  config : st.moved = none → fs.dir configPath = fs₀.dir configPath
  moved : ∀ fd, st.moved = some fd → fs.dir configPath = some fd ∧ fs.inodes[fd]? = some ⟨raw, true⟩
  disk : st.durable = false → fs.disk configPath = fs₀.disk configPath
  durable : st.durable = true → fs.disk configPath = fs.dir configPath

section Agrees

variable {configPath : Path} {raw : List UInt8} {fs₀ fs : Fs} {st : Stage} {ev : FileEvent} {e : FileEnv}

theorem agrees_refl (configPath : Path) (raw : List UInt8) (fs : Fs) :
    Agrees configPath raw fs {} fs where
  others _ _ _ := rfl
  size := le_rfl
  old _ _ h := h
  temp _ _ _ h := nomatch h
  single h := absurd rfl h
  config _ := rfl
  moved _ h := nomatch h
  disk _ := rfl
  durable h := nomatch h

theorem Agrees.create (h : Agrees configPath raw fs₀ {} fs) {p : Path} (hp : p ≠ configPath)
    (hnew : fs.dir p = none) :
    Agrees configPath raw fs₀ { temp := some (fs.inodes.length, p, .empty) } (fs.create p) where
  others q hq hne := by
    have hqp : q ≠ p := fun heq => hne _ _ (by rw [heq])
    exact (Function.update_of_ne hqp _ _).trans (h.others q hq nofun)
  size := by
    rw [Fs.create, List.length_append]
    exact Nat.le_succ_of_le h.size
  old i x hx := by
    have hi := h.old i x hx
    exact (List.getElem?_append_left (List.getElem?_eq_some_iff.mp hi).1).trans hi
  temp fd q t heq := by
    cases heq
    exact ⟨hp, (h.others p hp nofun).symm.trans hnew, Function.update_self _ _ _, h.size, {},
      List.getElem?_concat_length, rfl⟩
  single _ := ⟨rfl, rfl⟩
  config _ := (Function.update_of_ne hp.symm _ _).trans (h.config rfl)
  moved _ hm := nomatch hm
  disk _ := h.disk rfl
  durable hd := nomatch hd

section Temp

variable {fd : ℕ} {p : Path} {t t' : Temp}

theorem Agrees.modify (h : Agrees configPath raw fs₀ st fs) (htemp : st.temp = some (fd, p, t))
    (f : Inode → Inode) (hf : ∀ x, t.Holds raw x → t'.Holds raw (f x)) :
    Agrees configPath raw fs₀ { st with temp := some (fd, p, t') } (fs.modify fd f) := by
  obtain ⟨hp, hnew, hdir, hle, x, hx, hholds⟩ := h.temp fd p t htemp
  obtain ⟨hmoved, hdurable⟩ := h.single (by rw [htemp]; nofun)
  exact {
    others := fun q hq hne => h.others q hq fun fd' t' heq => by
      rw [htemp] at heq
      cases heq
      exact hne fd _ rfl
    size := h.size.trans_eq (List.length_modify _ _ _).symm
    old := fun i x hx => by
      have hlt := (List.getElem?_eq_some_iff.mp hx).1
      rw [Fs.modify, List.getElem?_modify, h.old i x hx]
      exact congrArg some (if_neg (by omega))
    temp := fun fd' q s heq => by
      cases heq
      refine ⟨hp, hnew, hdir, hle, f x, ?_, hf x hholds⟩
      rw [Fs.modify, List.getElem?_modify, hx]
      exact congrArg some (if_pos rfl)
    single := fun _ => ⟨hmoved, hdurable⟩
    config := h.config
    moved := fun fd' hfd' => nomatch hmoved.symm.trans hfd'
    disk := h.disk
    durable := h.durable }

theorem Agrees.rename (h : Agrees configPath raw fs₀ st fs) (htemp : st.temp = some (fd, p, .synced)) :
    Agrees configPath raw fs₀ { st with temp := none, moved := some fd } (fs.rename p configPath) := by
  obtain ⟨hp, hnew, hdir, hle, x, hx, rfl⟩ := h.temp fd p .synced htemp
  obtain ⟨hmoved, hdurable⟩ := h.single (by rw [htemp]; nofun)
  exact {
    others := fun q hq _ => by
      show (if q = configPath then _ else if q = p then none else fs.dir q) = _
      rw [if_neg hq]
      split_ifs with hqp
      · rw [hqp, hnew]
      · refine h.others q hq fun fd' t' heq => hqp ?_
        rw [htemp] at heq
        cases heq
        rfl
    size := h.size
    old := h.old
    temp := fun _ _ _ heq => nomatch heq
    single := fun hne => absurd rfl hne
    config := fun hno => nomatch hno
    moved := fun fd' heq => by
      cases heq
      exact ⟨(if_pos rfl).trans hdir, hx⟩
    disk := fun _ => h.disk hdurable
    durable := fun hd => nomatch hdurable.symm.trans hd }

theorem Agrees.remove (h : Agrees configPath raw fs₀ st fs) (htemp : st.temp = some (fd, p, t)) :
    Agrees configPath raw fs₀ { st with temp := none } (fs.remove p) := by
  obtain ⟨hp, hnew, -⟩ := h.temp fd p t htemp
  obtain ⟨hmoved, hdurable⟩ := h.single (by rw [htemp]; nofun)
  exact {
    others := fun q hq _ => by
      show (if q = p then none else fs.dir q) = _
      split_ifs with hqp
      · rw [hqp, hnew]
      · refine h.others q hq fun fd' t' heq => hqp ?_
        rw [htemp] at heq
        cases heq
        rfl
    size := h.size
    old := h.old
    temp := fun _ _ _ heq => nomatch heq
    single := fun hne => absurd rfl hne
    config := fun _ => (if_neg hp.symm).trans (h.config hmoved)
    moved := fun fd' heq => nomatch hmoved.symm.trans heq
    disk := h.disk
    durable := fun hd => nomatch hdurable.symm.trans hd }

end Temp

theorem Agrees.syncDir (h : Agrees configPath raw fs₀ st fs) (htemp : st.temp = none) :
    Agrees configPath raw fs₀ { st with durable := true } (fs.syncDir configPath.dir) where
  others := h.others
  size := h.size
  old := h.old
  temp := h.temp
  single hne := absurd htemp hne
  config := h.config
  moved := h.moved
  disk hd := nomatch hd
  durable _ := if_pos rfl

/-- Every allowed call takes the files where the protocol goes. -/
theorem Agrees.step (hname : ∀ n, tempPath configPath.dir tempBefore tempAfter n ≠ configPath)
    (hok : (writing configPath raw).ok st ev) (hr : (exec ev.call e fs).1 = ev.reply)
    (h : Agrees configPath raw fs₀ st fs) :
    Agrees configPath raw fs₀ ((writing configPath raw).next st ev) (exec ev.call e fs).2 := by
  obtain ⟨c, r⟩ := ev
  dsimp only at hr
  subst hr
  cases c with
  | mkdirAll dir => exact h
  | readFile p =>
    rw [exec]
    split
    · exact h
    · split <;> exact h
  | createTemp dir before after =>
    obtain ⟨rfl, rfl, rfl, rfl⟩ := hok
    rcases hfail : e.fail with _ | msg
    · rcases hdir : fs.dir (tempPath configPath.dir tempBefore tempAfter e.n) with _ | i
      · simp only [exec, hfail, hdir]
        exact h.create (hname e.n) hdir
      · simp only [exec, hfail, hdir]
        exact h
    · simp only [exec, hfail]
      exact h
  | openTrunc p => cases hok
  | write fd bytes =>
    obtain ⟨rfl, p, htemp⟩ := hok
    rcases hfail : e.fail with _ | msg
    · simp only [exec, hfail, writing, htemp, Option.map_some]
      refine h.modify htemp (append bytes) fun x hx => ?_
      show x.data ++ bytes = bytes
      rw [show x.data = [] from hx, List.nil_append]
    · simp only [exec, hfail, writing, Stage.spoil, htemp, Option.map_some]
      exact h.modify htemp (append (bytes.take e.n)) fun _ _ => trivial
  | sync fd =>
    obtain ⟨p, htemp⟩ := hok
    rcases hfail : e.fail with _ | msg
    · simp only [exec, hfail, writing, htemp, Option.map_some]
      refine h.modify htemp (fun x => { x with stable := true }) fun x hx => ?_
      show Inode.mk x.data true = ⟨raw, true⟩
      rw [show x.data = raw from hx]
    · simp only [exec, hfail]
      exact h
  | close fd => exact h
  | rename p q =>
    obtain ⟨rfl, fd, htemp⟩ := hok
    have hdir := (h.temp fd p .synced htemp).2.2.1
    rcases hfail : e.fail with _ | msg
    · simp only [exec, hfail, hdir, writing, htemp, Option.map_some]
      exact h.rename htemp
    · simp only [exec, hfail]
      exact h
  | remove p =>
    obtain ⟨fd, t, htemp⟩ := hok
    have hdir := (h.temp fd p t htemp).2.2.1
    rcases hfail : e.fail with _ | msg
    · simp only [exec, hfail, hdir]
      exact h.remove htemp
    · simp only [exec, hfail]
      exact ⟨h.others, h.size, h.old, h.temp, h.single, h.config, h.moved, h.disk, h.durable⟩
  | openDir dir => exact h
  | syncDir dir =>
    obtain ⟨rfl, htemp⟩ := hok
    rcases hfail : e.fail with _ | msg
    · simp only [exec, hfail]
      exact h.syncDir htemp
    · simp only [exec, hfail]
      exact h

end Agrees

/-! ## The configuration at any moment -/

/-- What a loss of power may leave. -/
def Loss (fs fs' : Fs) : Prop := ∃ keep lost, fs' = fs.powerLoss keep lost

/-- `WriteConfig` called with this context and these bytes. -/
def writes (configPath : Path) (input : Option GoError × List UInt8) : Prog files (Option GoError) :=
  writeConfig configPath input.1 input.2

/-- The configuration is one of the whole ones, wherever it is found, and it is found. -/
structure Whole (P : List UInt8 → Prop) (configPath : Path) (fs : Fs) : Prop where
  intact : Intact P configPath fs
  found : fs.dir configPath ≠ none ∧ fs.disk configPath ≠ none

section Runs

variable {configPath : Path} {raw : List UInt8} {ctxErr : Option GoError} {P : List UInt8 → Prop}
  {fs fs' : Fs} {tr : List FileEvent} {q : Prog files (Option GoError)} {A : FileEnv → Prop}

theorem agrees_of_steps (hname : ∀ n, tempPath configPath.dir tempBefore tempAfter n ≠ configPath)
    (hafter : (writeConfig configPath ctxErr raw).After tr q) (hsteps : Steps fsys A fs tr fs') :
    Agrees configPath raw fs ((writing configPath raw).state {} tr) fs' :=
  (writeConfig_follows ctxErr).holds hafter hsteps (agrees_refl configPath raw fs)
    fun _ _ _ _ _ hok hr h => h.step hname hok hr

/-- The entry of the configuration, in memory and on the disk, is an old one or the new one. -/
theorem Agrees.entry {fs₀ : Fs} {st : Stage} (h : Agrees configPath raw fs₀ st fs) {i : ℕ}
    (hi : fs.dir configPath = some i ∨ fs.disk configPath = some i) :
    fs₀.dir configPath = some i ∨ fs₀.disk configPath = some i ∨
      fs.inodes[i]? = some ⟨raw, true⟩ := by
  have hdir : fs.dir configPath = some i →
      fs₀.dir configPath = some i ∨ fs₀.disk configPath = some i ∨
        fs.inodes[i]? = some ⟨raw, true⟩ := by
    intro hi
    cases hmoved : st.moved with
    | none => exact .inl ((h.config hmoved).symm.trans hi)
    | some fd =>
      obtain ⟨hfd, hx⟩ := h.moved fd hmoved
      cases hfd.symm.trans hi
      exact .inr (.inr hx)
  rcases hi with hi | hi
  · exact hdir hi
  · cases hdurable : st.durable with
    | false => exact .inr (.inl ((h.disk hdurable).symm.trans hi))
    | true => exact hdir ((h.durable hdurable).symm.trans hi)

theorem whole_of_steps (hname : ∀ n, tempPath configPath.dir tempBefore tempAfter n ≠ configPath)
    (hraw : P raw) (hfs : Whole P configPath fs)
    (hafter : (writeConfig configPath ctxErr raw).After tr q) (hsteps : Steps fsys A fs tr fs') :
    Whole P configPath fs' := by
  have h := agrees_of_steps hname hafter hsteps
  refine ⟨fun i hi => ?_, ?_⟩
  · have hold : fs.dir configPath = some i ∨ fs.disk configPath = some i →
        ∃ x, fs'.inodes[i]? = some x ∧ x.stable = true ∧ P x.data := by
      intro hi
      obtain ⟨x, hx, hstable, hP⟩ := hfs.intact i hi
      exact ⟨x, h.old i x hx, hstable, hP⟩
    rcases h.entry hi with hi | hi | hx
    · exact hold (.inl hi)
    · exact hold (.inr hi)
    · exact ⟨⟨raw, true⟩, hx, rfl, hraw⟩
  · have hdir : fs'.dir configPath ≠ none := by
      cases hmoved : ((writing configPath raw).state {} tr).moved with
      | none =>
        rw [h.config hmoved]
        exact hfs.found.1
      | some fd =>
        rw [(h.moved fd hmoved).1]
        nofun
    refine ⟨hdir, ?_⟩
    cases hdurable : ((writing configPath raw).state {} tr).durable with
    | false =>
      rw [h.disk hdurable]
      exact hfs.found.2
    | true =>
      rw [h.durable hdurable]
      exact hdir

theorem Whole.loss (h : Whole P configPath fs) (hloss : Loss fs fs') : Whole P configPath fs' := by
  obtain ⟨keep, lost, rfl⟩ := hloss
  refine ⟨h.intact.powerLoss keep lost, ?_⟩
  have hfound : (if keep configPath then fs.dir configPath else fs.disk configPath) ≠ none := by
    split_ifs
    · exact h.found.1
    · exact h.found.2
  exact ⟨hfound, hfound⟩

theorem Whole.content (h : Whole P configPath fs) : ∃ data, fs.content configPath = some data ∧ P data := by
  obtain ⟨i, hi⟩ := Option.ne_none_iff_exists'.mp h.found.1
  obtain ⟨x, hx, -, hP⟩ := h.intact i (.inl hi)
  refine ⟨x.data, ?_, hP⟩
  rw [Fs.content, hi]
  exact congrArg (Option.map Inode.data) hx

theorem steps_of_empty (hafter : (writeConfig configPath ctxErr []).After tr q)
    (hsteps : Steps fsys A fs tr fs') : fs' = fs := by
  obtain ⟨err, hdone⟩ : ∃ err, writeConfig configPath ctxErr [] = .done (some err) := by
    cases ctxErr with
    | some err => exact ⟨err, rfl⟩
    | none => exact ⟨_, rfl⟩
  rw [hdone, Prog.after_done_iff] at hafter
  rw [hafter.1] at hsteps
  exact steps_nil.mp hsteps

/-- However often the configuration is written, wherever a process stops on the way, and whenever power is
lost: the file is there, and it is what it was at first or the whole of a configuration that was passed to a
write, and not empty. -/
theorem config_file_is_whole (hname : ∀ n, tempPath configPath.dir tempBefore tempAfter n ≠ configPath)
    {boots : List (Boot files Fs (Option GoError × List UInt8) (Option GoError))}
    (hfs : Whole (fun data => fs.content configPath = some data) configPath fs)
    (h : Boots fsys A Loss (writes configPath) fs boots fs') :
    ∃ data, fs'.content configPath = some data ∧
      (fs.content configPath = some data ∨ ∃ b ∈ boots, data = b.input.2 ∧ data ≠ []) := by
  refine Whole.content (h.keeps (C := fun input => ∃ b ∈ boots, input.2 = b.input.2) ?_ ?_ ?_ ?_)
  · refine ⟨fun i hi => ?_, hfs.found⟩
    obtain ⟨x, hx, hstable, hP⟩ := hfs.intact i hi
    exact ⟨x, hx, hstable, .inl hP⟩
  · exact fun b hb => ⟨b, hb, rfl⟩
  · rintro ⟨ctxErr, raw⟩ v tr q v' ⟨b, hb, hinput⟩ hv hafter hsteps
    by_cases hraw : raw = []
    · subst hraw
      rw [steps_of_empty hafter hsteps]
      exact hv
    · exact whole_of_steps hname (.inr ⟨b, hb, hinput, hraw⟩) hv hafter hsteps
  · exact fun v v' hloss hv => hv.loss hloss

section Sample

def samplePath : Path := ⟨"/etc/sing-box", "config.json"⟩

theorem samplePath_ne_temp (n : ℕ) : tempPath samplePath.dir tempBefore tempAfter n ≠ samplePath := by
  intro h
  have hbase := congrArg (fun p : Path => p.base.toList.head?) h
  simp [tempPath, samplePath, tempBefore] at hbase

/-- An old configuration, safely on the disk. -/
def oldFiles : Fs where
  inodes := [⟨[1, 2], true⟩]
  dir p := if p = samplePath then some 0 else none
  disk p := if p = samplePath then some 0 else none
  dir_lt p i h := by
    split_ifs at h
    cases h
    decide
  disk_lt p i h := by
    split_ifs at h
    cases h
    decide

theorem whole_oldFiles :
    Whole (fun data => oldFiles.content samplePath = some data) samplePath oldFiles := by
  refine ⟨fun i hi => ?_, by decide, by decide⟩
  have hi : i = 0 := by
    rcases hi with hi | hi
    · exact (Option.some.inj hi).symm
    · exact (Option.some.inj hi).symm
  subst hi
  exact ⟨⟨[1, 2], true⟩, rfl, rfl, by decide⟩

/-- A write whose sync fails and whose file cannot be removed. -/
def failedWrite : List FileEvent × Option GoError × Fs :=
  replay fsys (writes samplePath (none, [7, 8, 9]))
    [{}, {}, {}, { fail := some "no space left on device" }, {}, { fail := some "read-only" }] oldFiles

/-- After it power is lost, and the bytes that were not synced with it. -/
def afterLoss : Fs := failedWrite.2.2.powerLoss (fun _ => false) fun _ => []

theorem config_file_is_whole_afterLoss : afterLoss.content samplePath = some [1, 2] ∧
    ∃ data, afterLoss.content samplePath = some data ∧
      (oldFiles.content samplePath = some data ∨ data = [7, 8, 9]) := by
  refine ⟨by decide +kernel, ?_⟩
  have hrun : Run fsys (fun _ => True) (writes samplePath (none, [7, 8, 9])) oldFiles failedWrite.1
      failedWrite.2.1 failedWrite.2.2 := run_replay trivial _ (fun _ _ => trivial) oldFiles
  obtain ⟨data, hdata, hold | ⟨b, hb, heq, -⟩⟩ :=
    config_file_is_whole samplePath_ne_temp whole_oldFiles
      (.cons (b := ⟨(none, [7, 8, 9]), oldFiles, failedWrite.1, .done failedWrite.2.1, afterLoss⟩) rfl
        hrun.1 hrun.2 (.inr ⟨_, _, rfl⟩) (.nil _))
  · exact ⟨data, hdata, .inl hold⟩
  · rw [List.mem_singleton.mp hb] at heq
    exact ⟨data, hdata, .inr heq⟩

end Sample

/-! ## What a write returns -/

theorem kept_of_state (h : ((writing configPath raw).state {} tr).kept = true) :
    ∃ p err, (⟨.remove p, some err⟩ : FileEvent) ∈ tr := by
  induction tr using List.reverseRecOn with
  | nil => cases h
  | append_singleton tr ev ih =>
    have hearlier : ((writing configPath raw).state {} tr).kept = true →
        ∃ p err, (⟨.remove p, some err⟩ : FileEvent) ∈ tr ++ [ev] := by
      intro h
      obtain ⟨p, err, hmem⟩ := ih h
      exact ⟨p, err, List.mem_append_left _ hmem⟩
    rw [Protocol.state_snoc] at h
    obtain ⟨c, r⟩ := ev
    cases c with
    | remove p =>
      cases r with
      | none => exact hearlier h
      | some err => exact ⟨p, err, by simp⟩
    | createTemp dir before after => cases r <;> exact hearlier h
    | openTrunc p => exact hearlier h
    | readFile p => exact hearlier h
    | _ => cases r <;> exact hearlier h

theorem durable_of_mem (h : (⟨.syncDir configPath.dir, none⟩ : FileEvent) ∈ tr) :
    ((writing configPath raw).state {} tr).durable = true := by
  induction tr using List.reverseRecOn with
  | nil => cases h
  | append_singleton tr ev ih =>
    rw [Protocol.state_snoc]
    rcases List.mem_append.mp h with h | h
    · have hdurable := ih h
      obtain ⟨c, r⟩ := ev
      cases c with
      | createTemp dir before after => cases r <;> exact hdurable
      | openTrunc p => exact hdurable
      | readFile p => exact hdurable
      | syncDir dir =>
        cases r with
        | none => rfl
        | some err => exact hdurable
      | _ => cases r <;> exact hdurable
    · rw [← List.mem_singleton.mp h]
      rfl

theorem Agrees.content_eq {fs₀ : Fs} {st : Stage} (h : Agrees configPath raw fs₀ st fs) {p : Path}
    (hdir : fs.dir p = fs₀.dir p) : fs.content p = fs₀.content p := by
  rw [Fs.content, Fs.content, hdir]
  cases hi : fs₀.dir p with
  | none => rfl
  | some i =>
    have hlt := fs₀.dir_lt p i hi
    show fs.inodes[i]?.map _ = fs₀.inodes[i]?.map _
    rw [List.getElem?_eq_getElem hlt, h.old i _ (List.getElem?_eq_getElem hlt)]

/-- A write that returns nil has put exactly its bytes in place, and if the directory was synced they are
there after a loss of power too. A write that returns an error has left the configuration as it was. Unless
the temporary file could not be removed, no other file has changed, appeared or gone. -/
theorem write_config_result (hname : ∀ n, tempPath configPath.dir tempBefore tempAfter n ≠ configPath)
    {r : Option GoError} (h : Run fsys A (writeConfig configPath ctxErr raw) fs tr r fs') :
    (r = none → fs'.content configPath = some raw ∧
      ((⟨.syncDir configPath.dir, none⟩ : FileEvent) ∈ tr →
        ∀ keep lost, (fs'.powerLoss keep lost).content configPath = some raw)) ∧
    (r ≠ none → fs'.content configPath = fs.content configPath) ∧
    ((∀ p err, (⟨.remove p, some err⟩ : FileEvent) ∉ tr) →
      ∀ p, p ≠ configPath → fs'.content p = fs.content p) := by
  have hagrees := agrees_of_steps hname h.1 h.2
  obtain ⟨hmoved, htemp⟩ : Stage.Result _ r := (writeConfig_follows ctxErr).after h.1
  refine ⟨fun hr => ?_, fun hr => ?_, fun hremoved p hp => ?_⟩
  · rw [hr] at hmoved
    obtain ⟨fd, hfd⟩ := Option.isSome_iff_exists.mp hmoved
    obtain ⟨hdir, hx⟩ := hagrees.moved fd hfd
    refine ⟨?_, fun hsynced keep lost => ?_⟩
    · rw [Fs.content, hdir]
      exact congrArg (Option.map Inode.data) hx
    · have hdisk := hagrees.durable (durable_of_mem hsynced)
      have hentry : (fs'.powerLoss keep lost).dir configPath = some fd := by
        show (if keep configPath then fs'.dir configPath else fs'.disk configPath) = some fd
        rw [hdisk, hdir, ite_self]
      rw [Fs.content, hentry]
      show ((fs'.inodes.mapIdx _)[fd]?).map _ = _
      rw [List.getElem?_mapIdx, hx]
      rfl
  · refine hagrees.content_eq (hagrees.config ?_)
    cases hr' : r with
    | none => exact absurd hr' hr
    | some err =>
      rw [hr'] at hmoved
      exact Option.isSome_eq_false_iff.mp hmoved |> Option.isNone_iff_eq_none.mp
  · refine hagrees.content_eq (hagrees.others p hp ?_)
    rcases htemp with hnone | hkept
    · intro fd t ht
      rw [hnone] at ht
      cases ht
    · obtain ⟨p', err, hmem⟩ := kept_of_state hkept
      exact absurd hmem (hremoved p' err)

/-- A write in which nothing fails. -/
def goodWrite : List FileEvent × Option GoError × Fs :=
  replay fsys (writes samplePath (none, [7, 8, 9])) [] oldFiles

theorem write_config_result_goodWrite :
    (goodWrite.2.1 = none ∧ (⟨.syncDir samplePath.dir, none⟩ : FileEvent) ∈ goodWrite.1 ∧
      goodWrite.2.2.content samplePath = some [7, 8, 9] ∧
      ∀ keep lost, (goodWrite.2.2.powerLoss keep lost).content samplePath = some [7, 8, 9]) ∧
    failedWrite.2.1 ≠ none ∧ failedWrite.2.2.content samplePath = oldFiles.content samplePath := by
  have hgood : Run fsys (fun _ => True) (writes samplePath (none, [7, 8, 9])) oldFiles goodWrite.1
      goodWrite.2.1 goodWrite.2.2 := run_replay trivial _ (fun _ _ => trivial) oldFiles
  have hfailed : Run fsys (fun _ => True) (writes samplePath (none, [7, 8, 9])) oldFiles failedWrite.1
      failedWrite.2.1 failedWrite.2.2 := run_replay trivial _ (fun _ _ => trivial) oldFiles
  have hok : goodWrite.2.1 = none := by decide +kernel
  have hsynced : (⟨.syncDir samplePath.dir, none⟩ : FileEvent) ∈ goodWrite.1 :=
    List.mem_of_getLast? rfl
  have herr : failedWrite.2.1 ≠ none := by decide +kernel
  obtain ⟨hcontent, hdurable⟩ := (write_config_result samplePath_ne_temp hgood).1 hok
  exact ⟨⟨hok, hsynced, hcontent, hdurable hsynced⟩, herr,
    (write_config_result samplePath_ne_temp hfailed).2.1 herr⟩

end Runs

end NodeAgent.Singbox
