import NodeAgent.Lib.Exec

/-!
# Files and crashes

A directory entry names an inode, and an inode holds bytes. Processes see the entries and bytes as they
are in memory. The disk may be behind: what an inode holds is certain to be there only once it was synced,
and an entry only once its directory was. When power is lost, each entry is found as it was in memory or as
it was on the disk, and bytes that were not synced may be anything.

A file is intact (`Intact`) if every entry under which it can be found names synced bytes with a given
property; this is what writing a temporary file and renaming it keeps.
-/

namespace Lib.FileSys

/-! ## The state -/

/-- A file by its directory and its name. -/
structure Path where
  dir : String
  base : String
  deriving DecidableEq, Repr

/-- The bytes of a file, and whether a loss of power leaves them as they are. -/
structure Inode where
  data : List UInt8 := []
  /-- the bytes have reached the disk -/
  stable : Bool := false
  deriving DecidableEq, Repr

/-- The files: what the directories say, and what they say on disk. -/
structure Fs where
  inodes : List Inode := []
  /-- the entries, as processes see them -/
  dir : Path → Option ℕ := fun _ => none
  /-- the entries on the disk -/
  disk : Path → Option ℕ := fun _ => none
  dir_lt : ∀ p i, dir p = some i → i < inodes.length := by simp
  disk_lt : ∀ p i, disk p = some i → i < inodes.length := by simp

namespace Fs

variable (fs : Fs)

/-- What a process reads. -/
def content (p : Path) : Option (List UInt8) := (fs.dir p).bind fun i => fs.inodes[i]?.map Inode.data

/-- A new empty file. -/
def create (p : Path) : Fs where
  inodes := fs.inodes ++ [{}]
  dir := Function.update fs.dir p (some fs.inodes.length)
  disk := fs.disk
  dir_lt q i h := by
    rw [List.length_append]
    by_cases hq : q = p
    · rw [hq, Function.update_self] at h
      cases h
      exact Nat.lt_succ_self _
    · rw [Function.update_of_ne hq] at h
      exact Nat.lt_succ_of_lt (fs.dir_lt q i h)
  disk_lt q i h := by
    rw [List.length_append]
    exact Nat.lt_succ_of_lt (fs.disk_lt q i h)

def modify (i : ℕ) (f : Inode → Inode) : Fs where
  inodes := fs.inodes.modify i f
  dir := fs.dir
  disk := fs.disk
  dir_lt p j h := by
    rw [List.length_modify]
    exact fs.dir_lt p j h
  disk_lt p j h := by
    rw [List.length_modify]
    exact fs.disk_lt p j h

def rename (p q : Path) : Fs :=
  { fs with
    dir := fun r => if r = q then fs.dir p else if r = p then none else fs.dir r
    dir_lt := fun r i h => by
      split_ifs at h
      · exact fs.dir_lt p i h
      · exact fs.dir_lt r i h }

def remove (p : Path) : Fs :=
  { fs with
    dir := fun r => if r = p then none else fs.dir r
    dir_lt := fun r i h => by
      split_ifs at h
      exact fs.dir_lt r i h }

def syncDir (d : String) : Fs :=
  { fs with
    disk := fun p => if p.dir = d then fs.dir p else fs.disk p
    disk_lt := fun p i h => by
      split_ifs at h
      · exact fs.dir_lt p i h
      · exact fs.disk_lt p i h }

/-- What is found after a loss of power: of an entry the one in memory or the one on the disk, and anything
for bytes that were not synced. -/
def powerLoss (keep : Path → Bool) (lost : ℕ → List UInt8) : Fs where
  inodes := fs.inodes.mapIdx fun i x => if x.stable then x else { data := lost i, stable := true }
  dir p := if keep p then fs.dir p else fs.disk p
  disk p := if keep p then fs.dir p else fs.disk p
  dir_lt p i h := by
    rw [List.length_mapIdx]
    split_ifs at h
    · exact fs.dir_lt p i h
    · exact fs.disk_lt p i h
  disk_lt p i h := by
    rw [List.length_mapIdx]
    split_ifs at h
    · exact fs.dir_lt p i h
    · exact fs.disk_lt p i h

variable {fs}

theorem content_modify_self {p : Path} {i : ℕ} {x : Inode} (hi : fs.dir p = some i)
    (hx : fs.inodes[i]? = some x) (f : Inode → Inode) : (fs.modify i f).content p = some (f x).data := by
  have hentry : (fs.modify i f).dir p = some i := hi
  rw [content, hentry, Option.bind_some, modify, List.getElem?_modify, hx]
  exact congrArg (fun y : Inode => some y.data) (if_pos rfl)

theorem content_rename_self (p q : Path) : (fs.rename p q).content q = fs.content p := by
  have hentry : (fs.rename p q).dir q = fs.dir p := if_pos rfl
  rw [content, hentry]
  rfl

theorem dir_ne_none_of_content {p : Path} {data : List UInt8} (h : fs.content p = some data) :
    fs.dir p ≠ none := by
  intro hnone
  rw [content, hnone] at h
  cases h

end Fs

/-! ## Calls -/

/-- The errors of the calls. -/
inductive FileErr
  | exist
  | notExist
  | other (msg : String)
  deriving DecidableEq, Repr

/-- The calls of `os` on files. -/
inductive FileCall
  | mkdirAll (dir : String)
  | readFile (p : Path)
  /-- a new file, whose name has something random between the two parts -/
  | createTemp (dir before after : String)
  /-- open for writing, created or truncated -/
  | openTrunc (p : Path)
  | write (fd : ℕ) (bytes : List UInt8)
  | sync (fd : ℕ)
  | close (fd : ℕ)
  | rename (p q : Path)
  | remove (p : Path)
  | openDir (dir : String)
  | syncDir (dir : String)

abbrev FileReply : FileCall → Type
  | .readFile _ => Except FileErr (List UInt8)
  | .createTemp _ _ _ => Except FileErr (ℕ × Path)
  | .openTrunc _ => Except FileErr ℕ
  | _ => Option FileErr

/-- The programs that work on files. -/
abbrev files : Sig where
  Call := FileCall
  Reply := FileReply

abbrev FileEvent := Event files

abbrev sys (c : FileCall) : Prog files (FileReply c) := Prog.invoke (S := files) c

/-- What the environment chooses for one call. -/
structure FileEnv where
  fail : Option String := none
  /-- how much a failing write has written, or what is random in a name -/
  n : ℕ := 0

instance : Inhabited FileEnv := ⟨{}⟩

/-- The names that `os.CreateTemp` makes from a pattern. -/
def tempPath (dir before after : String) (n : ℕ) : Path := ⟨dir, before ++ toString n ++ after⟩

def FileErr.text : FileErr → String
  | .exist => "file exists"
  | .notExist => "no such file or directory"
  | .other msg => msg

/-- Bytes that are written are not on disk before they are synced. -/
def append (bytes : List UInt8) (x : Inode) : Inode := { data := x.data ++ bytes, stable := false }

/-- A call that fails as the environment says leaves everything as it was, but for a write. -/
def exec : (c : FileCall) → FileEnv → Fs → FileReply c × Fs
  | .mkdirAll _, e, fs => (e.fail.map .other, fs)
  | .readFile p, e, fs =>
    match e.fail with
    | some msg => (.error (.other msg), fs)
    | none =>
      match fs.content p with
      | none => (.error .notExist, fs)
      | some data => (.ok data, fs)
  | .createTemp dir before after, e, fs =>
    match e.fail with
    | some msg => (.error (.other msg), fs)
    | none =>
      let p := tempPath dir before after e.n
      match fs.dir p with
      | some _ => (.error .exist, fs)
      | none => (.ok (fs.inodes.length, p), fs.create p)
  | .openTrunc p, e, fs =>
    match e.fail with
    | some msg => (.error (.other msg), fs)
    | none =>
      match fs.dir p with
      | some i => (.ok i, fs.modify i fun _ => {})
      | none => (.ok fs.inodes.length, fs.create p)
  | .write fd bytes, e, fs =>
    match e.fail with
    | some msg => (some (.other msg), fs.modify fd (append (bytes.take e.n)))
    | none => (none, fs.modify fd (append bytes))
  | .sync fd, e, fs =>
    match e.fail with
    | some msg => (some (.other msg), fs)
    | none => (none, fs.modify fd fun x => { x with stable := true })
  | .close _, e, fs => (e.fail.map .other, fs)
  | .rename p q, e, fs =>
    match e.fail with
    | some msg => (some (.other msg), fs)
    | none =>
      match fs.dir p with
      | none => (some .notExist, fs)
      | some _ => (none, fs.rename p q)
  | .remove p, e, fs =>
    match e.fail with
    | some msg => (some (.other msg), fs)
    | none =>
      match fs.dir p with
      | none => (some .notExist, fs)
      | some _ => (none, fs.remove p)
  | .openDir _, e, fs => (e.fail.map .other, fs)
  | .syncDir dir, e, fs =>
    match e.fail with
    | some msg => (some (.other msg), fs)
    | none => (none, fs.syncDir dir)

/-- The files as the environment of a program. -/
def fsys : Handler files FileEnv Fs where
  exec := exec

/-! ## Files that are whole -/

/-- Every entry under which the file may be found names synced bytes with the property. -/
def Intact (P : List UInt8 → Prop) (p : Path) (fs : Fs) : Prop :=
  ∀ i, fs.dir p = some i ∨ fs.disk p = some i →
    ∃ x, fs.inodes[i]? = some x ∧ x.stable = true ∧ P x.data

section Intact

variable {P : List UInt8 → Prop} {p : Path} {fs : Fs}

theorem Intact.powerLoss (h : Intact P p fs) (keep : Path → Bool) (lost : ℕ → List UInt8) :
    Intact P p (fs.powerLoss keep lost) := by
  intro i hi
  have hentry : fs.dir p = some i ∨ fs.disk p = some i := by
    have hi : (if keep p then fs.dir p else fs.disk p) = some i := hi.elim id id
    split_ifs at hi
    · exact .inl hi
    · exact .inr hi
  obtain ⟨x, hx, hstable, hP⟩ := h i hentry
  refine ⟨x, ?_, hstable, hP⟩
  show (fs.inodes.mapIdx _)[i]? = some x
  rw [List.getElem?_mapIdx, hx, Option.map_some, if_pos hstable]

end Intact

end Lib.FileSys
