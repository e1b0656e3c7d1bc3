import NodeAgent.Domain
import NodeAgent.Lib.Typestate

/-!
# Splicing a client and a backend

`relay` of `internal/entryproxy/proxy.go`: one goroutine copies from the client to the backend, one back,
and a third waits for both and closes the connections. A direction that ends closes only the writing half
of its destination, if the connection has such a thing, so that the other direction goes on.

The goroutines follow a protocol (`splice`), in which each has at most one chunk of bytes in its hands.
-/

namespace NodeAgent.Relay

open Lib

/-! ## The goroutines -/

/-- The two connections that are spliced. -/
inductive End
  | client
  | backend
  deriving DecidableEq, Repr

def End.other : End → End
  | .client => .backend
  | .backend => .client

@[simp] theorem End.other_other (e : End) : e.other.other = e := by cases e <;> rfl

/-- How a read ends without bytes. -/
inductive ReadErr
  | eof
  | failed (err : GoError)
  deriving DecidableEq, Repr

/-- What a relay asks of the connections. -/
inductive Call
  | read (src : End)
  | write (dst : End) (bytes : List UInt8)
  /-- `stat.up.Add` for the backend, `stat.down.Add` for the client -/
  | count (dst : End) (n : ℕ)
  | closeWrite (dst : End)
  | close (e : End)
  /-- whether this is the first `once.Do` -/
  | once
  | done
  /-- `wg.Wait`; it returns only when the answer is true -/
  | wait

abbrev Reply : Call → Type
  | .read _ => List UInt8 × Option ReadErr
  | .write _ _ => ℕ × Option GoError
  | .count _ _ => Unit
  | .closeWrite _ => Option GoError
  | .close _ => Unit
  | .once => Bool
  | .done => Unit
  | .wait => Bool

/-- The programs of a relay. -/
abbrev splicing : Sig where
  Call := Call
  Reply := Reply

abbrev SpliceEvent := Event splicing

abbrev port (c : Call) : Prog splicing (Reply c) := Prog.invoke (S := splicing) c

/-- `countingWriter.Write` -/
def countingWrite (dst : End) (bytes : List UInt8) : Prog splicing (ℕ × Option GoError) := do
  let (n, err) ← port (.write dst bytes)
  if n > 0 then port (.count dst n)
  return (n, err)

/-- Nothing is written if nothing was read. -/
def writeChunk (dst : End) (bytes : List UInt8) : Prog splicing (ℕ × Option GoError) :=
  if bytes = [] then return (0, none) else countingWrite dst bytes

/-- `io.CopyBuffer`: copying ends with the source, with an error, and with a short write. -/
def copyBuffer (dst src : End) : ℕ → Prog splicing Unit
  | 0 => return ()
  | rounds + 1 => do
    let (bytes, rerr) ← port (.read src)
    let (nw, werr) ← writeChunk dst bytes
    if werr ≠ none ∨ nw ≠ bytes.length then return ()
    else
      match rerr with
      | some _ => return ()
      | none => copyBuffer dst src rounds

/-- Both connections are closed. -/
def closeBoth : Prog splicing Unit := do
  port (.close .client)
  port (.close .backend)

/-- The closure `cp`; `half` says which connections have a `CloseWrite`. -/
def cp (half : End → Bool) (rounds : ℕ) (dst src : End) : Prog splicing Unit := do
  copyBuffer dst src rounds
  if half dst then
    let _ ← port (.closeWrite dst)
    port .done
  else
    if ← port .once then
      closeBoth
      port .done
    else port .done

/-- The goroutine of `relay` itself: it waits for both directions, and closes both connections. -/
def waitAndClose : Prog splicing Unit := do
  let _ ← port .wait
  closeBoth

/-- `relay` of `proxy.go`: a goroutine for each direction, and the one that waits. -/
def relay (half : End → Bool) (rounds : ℕ) : List (Prog splicing Unit) :=
  [cp half rounds .backend .client, cp half rounds .client .backend, waitAndClose]

/-- The goroutine that writes to an end. -/
def End.writer : End → ℕ
  | .backend => 0
  | .client => 1

/-! ## The connections -/

/-- A connection: what is still to be read from it, what was written to it, and what is closed. -/
structure Side where
  /-- what the peer has sent, or will send, and was not read -/
  incoming : List UInt8
  /-- what the peer was sent -/
  outgoing : List UInt8 := []
  writeClosed : Bool := false
  closed : Bool := false

/-- Both connections, and the bytes that the relay has counted. -/
structure Wire where
  client : Side
  backend : Side
  /-- `stat.up` -/
  up : UInt64 := 0
  /-- `stat.down` -/
  down : UInt64 := 0
  once : Bool := false
  /-- the goroutines that `wg` waits for -/
  running : ℕ := 2

namespace Wire

def side (w : Wire) : End → Side
  | .client => w.client
  | .backend => w.backend

def setSide (w : Wire) : End → Side → Wire
  | .client, s => { w with client := s }
  | .backend, s => { w with backend := s }

/-- The bytes that were counted on their way to an end. -/
def counted (w : Wire) : End → UInt64
  | .backend => w.up
  | .client => w.down

def addCounted (w : Wire) : End → ℕ → Wire
  | .backend, n => { w with up := w.up + UInt64.ofNat n }
  | .client, n => { w with down := w.down + UInt64.ofNat n }

section Fields

variable {w : Wire} {e : End} {s : Side} {n : ℕ}

theorem side_setSide (d : End) : (w.setSide d s).side e = if e = d then s else w.side e := by
  cases d <;> cases e <;> rfl

theorem field_setSide {β : Type} (f : Side → β) {d : End} (h : f s = f (w.side d)) :
    f ((w.setSide d s).side e) = f (w.side e) := by
  rw [side_setSide]
  split_ifs with hd
  · rw [h, hd]
  · rfl

@[simp] theorem counted_setSide (d : End) : (w.setSide d s).counted e = w.counted e := by
  cases d <;> cases e <;> rfl

@[simp] theorem running_setSide (d : End) : (w.setSide d s).running = w.running := by
  cases d <;> rfl

@[simp] theorem side_addCounted (d : End) : (w.addCounted d n).side e = w.side e := by
  cases d <;> cases e <;> rfl

theorem counted_addCounted (d : End) :
    (w.addCounted d n).counted e = if e = d then w.counted e + UInt64.ofNat n else w.counted e := by
  cases d <;> cases e <;> rfl

@[simp] theorem running_addCounted (d : End) : (w.addCounted d n).running = w.running := by
  cases d <;> rfl

end Fields

end Wire

/-- What the environment chooses for one call. -/
structure SpliceEnv where
  n : ℕ := 0
  fail : Option GoError := none
  /-- the end is reported with the last bytes, not after them -/
  eofWithData : Bool := false

instance : Inhabited SpliceEnv := ⟨{}⟩

/-- `net.ErrClosed` -/
def errClosed : GoError := .new "use of closed network connection"

/-- The length of the pooled buffers. -/
def bufLen : ℕ := 32 * 1024

/-- A read takes something, unless the stream is at its end or fails. -/
def readFrom (s : Side) (e : SpliceEnv) : (List UInt8 × Option ReadErr) × Side :=
  if s.closed then (([], some (.failed errClosed)), s)
  else
    match e.fail with
    | some err =>
      let k := min e.n bufLen
      ((s.incoming.take k, some (.failed err)), { s with incoming := s.incoming.drop k })
    | none =>
      let k := min (e.n + 1) bufLen
      let rest := s.incoming.drop k
      ((s.incoming.take k, if rest = [] ∧ (e.eofWithData ∨ s.incoming = []) then some .eof else none),
        { s with incoming := rest })

/-- A write that fails may have written a part. -/
def writeTo (s : Side) (bytes : List UInt8) (e : SpliceEnv) : (ℕ × Option GoError) × Side :=
  if s.closed ∨ s.writeClosed then ((0, some errClosed), s)
  else
    match e.fail with
    | some err =>
      let k := min e.n bytes.length
      ((k, some err), { s with outgoing := s.outgoing ++ bytes.take k })
    | none => ((bytes.length, none), { s with outgoing := s.outgoing ++ bytes })

theorem readFrom_frame (s : Side) (e : SpliceEnv) : (readFrom s e).2.outgoing = s.outgoing ∧
    (readFrom s e).2.writeClosed = s.writeClosed ∧ (readFrom s e).2.closed = s.closed := by
  unfold readFrom
  split_ifs
  · exact ⟨rfl, rfl, rfl⟩
  · cases e.fail <;> exact ⟨rfl, rfl, rfl⟩

theorem writeTo_frame (s : Side) (bytes : List UInt8) (e : SpliceEnv) :
    (writeTo s bytes e).2.incoming = s.incoming ∧
    (writeTo s bytes e).2.writeClosed = s.writeClosed ∧ (writeTo s bytes e).2.closed = s.closed := by
  unfold writeTo
  split_ifs
  · exact ⟨rfl, rfl, rfl⟩
  · cases e.fail <;> exact ⟨rfl, rfl, rfl⟩

theorem readFrom_open {s : Side} {e : SpliceEnv} (hopen : s.closed = false) (hfail : e.fail = none) :
    (readFrom s e).1.2 = none ∨ (readFrom s e).1.2 = some .eof := by
  rw [readFrom, if_neg (by simp [hopen]), hfail]
  dsimp only
  split_ifs
  · exact .inr rfl
  · exact .inl rfl

theorem writeTo_open {s : Side} {e : SpliceEnv} (hopen : s.closed = false)
    (hhalf : s.writeClosed = false) (hfail : e.fail = none) (bytes : List UInt8) :
    (writeTo s bytes e).1 = (bytes.length, none) := by
  rw [writeTo, if_neg (by simp [hopen, hhalf]), hfail]

/-- What a call does to the connections. -/
def exec : (c : Call) → SpliceEnv → Wire → Reply c × Wire
  | .read src, e, w => ((readFrom (w.side src) e).1, w.setSide src (readFrom (w.side src) e).2)
  | .write dst bytes, e, w =>
    ((writeTo (w.side dst) bytes e).1, w.setSide dst (writeTo (w.side dst) bytes e).2)
  | .count dst n, _, w => ((), w.addCounted dst n)
  | .closeWrite dst, e, w =>
    if (w.side dst).closed then (some errClosed, w)
    else (e.fail, w.setSide dst { w.side dst with writeClosed := true })
  | .close d, _, w => ((), w.setSide d { w.side d with closed := true })
  | .once, _, w => (!w.once, { w with once := true })
  | .done, _, w => ((), { w with running := w.running - 1 })
  | .wait, _, w => (w.running = 0, w)

/-- The connections as the environment of a relay. -/
def wire : Handler splicing SpliceEnv Wire where
  exec := exec

/-! ## The protocol of the goroutines -/

/-- Where a goroutine is. -/
structure Phase where
  /-- the end that it writes to; none for the one that waits -/
  role : Option End
  /-- read, and not written -/
  pending : List UInt8 := []
  /-- written, and not counted -/
  uncounted : ℕ := 0
  reads : ℕ := 0
  /-- the source has ended -/
  last : Bool := false
  /-- a read or a write has failed -/
  broken : Bool := false
  /-- the destination was half closed -/
  shut : Bool := false
  /-- `Done` was called, or `Wait` has returned -/
  ended : Bool := false
  closes : List End := []

/-- Nothing is on its way through the goroutine. -/
structure Phase.Clear (ph : Phase) : Prop where
  pending : ph.pending = []
  uncounted : ph.uncounted = 0
  ended : ph.ended = false

/-- The copying has come to its end. -/
def Phase.Through (rounds : ℕ) (ph : Phase) : Prop :=
  ph.last = true ∨ ph.broken = true ∨ rounds ≤ ph.reads

/-- The protocol of one direction. -/
def splice (half : End → Bool) (rounds : ℕ) : Protocol splicing Phase where
  ok ph
    | ⟨.read src, _⟩ =>
      ph.role = some src.other ∧ ph.Clear ∧ ph.last = false ∧ ph.broken = false ∧ ph.shut = false
    | ⟨.write dst bytes, _⟩ => ph.role = some dst ∧ bytes = ph.pending ∧ ph.uncounted = 0 ∧
      ph.ended = false ∧ ph.shut = false
    | ⟨.count dst n, _⟩ => ph.role = some dst ∧ n = ph.uncounted ∧ ph.ended = false
    | ⟨.closeWrite dst, _⟩ => ph.role = some dst ∧ ph.Clear
    | ⟨.close _, _⟩ => (ph.role = none ∧ ph.ended = true) ∨ ∃ dst, ph.role = some dst ∧ half dst = false
    | ⟨.once, _⟩ => ∃ dst, ph.role = some dst ∧ half dst = false
    | ⟨.done, _⟩ => (∃ dst, ph.role = some dst) ∧ ph.Clear ∧ ph.Through rounds
    | ⟨.wait, _⟩ => ph.role = none
  next ph
    | ⟨.read _, r⟩ => { ph with
      pending := r.1
      reads := ph.reads + 1
      last := r.2 = some .eof
      broken := r.2 ≠ none ∧ r.2 ≠ some .eof }
    | ⟨.write _ bytes, r⟩ => { ph with
      pending := []
      uncounted := r.1
      broken := ph.broken || decide (r.2 ≠ none ∨ r.1 ≠ bytes.length) }
    | ⟨.count _ _, _⟩ => { ph with uncounted := 0 }
    | ⟨.closeWrite _, _⟩ => { ph with shut := true }
    | ⟨.close e, _⟩ => { ph with closes := e :: ph.closes }
    | ⟨.once, _⟩ => ph
    | ⟨.done, _⟩ => { ph with ended := true }
    | ⟨.wait, _⟩ => { ph with ended := true }

/-- Where the goroutines start. -/
def start (i : ℕ) : Phase := { role := [End.backend, End.client][i]? }

def phase (half : End → Bool) (rounds i : ℕ) (tr : List (Tagged splicing)) : Phase :=
  (splice half rounds).state (start i) (eventsOf i tr)

section Follows

variable {half : End → Bool} {rounds : ℕ} {dst src : End} {ph : Phase}

/-- Ready for the next read. -/
structure Phase.Idle (dst : End) (ph : Phase) : Prop extends ph.Clear where
  role : ph.role = some dst
  last : ph.last = false
  broken : ph.broken = false
  shut : ph.shut = false

/-- The copying is over. -/
structure Phase.Copied (dst : End) (rounds : ℕ) (ph : Phase) : Prop extends ph.Clear where
  role : ph.role = some dst
  through : ph.Through rounds
  shut : ph.shut = false

/-- What a write with this outcome leaves behind once it is counted. -/
def Phase.written (ph : Phase) (r : ℕ × Option GoError) : Phase :=
  { ph with
    pending := []
    uncounted := 0
    broken := ph.broken || decide (r.2 ≠ none ∨ r.1 ≠ ph.pending.length) }

theorem countingWrite_follows (hrole : ph.role = some dst) (huncounted : ph.uncounted = 0)
    (hended : ph.ended = false) (hshut : ph.shut = false) :
    (splice half rounds).Follows (fun y r => y = ph.written r) ph (countingWrite dst ph.pending) := by
  refine Protocol.follows_invoke.mpr fun r => ⟨⟨hrole, rfl, huncounted, hended, hshut⟩, ?_⟩
  obtain ⟨n, err⟩ := r
  dsimp only
  by_cases hn : n > 0
  · rw [if_pos hn]
    exact Protocol.follows_invoke.mpr fun _ => ⟨⟨hrole, rfl, hended⟩, rfl⟩
  · rw [if_neg hn]
    obtain rfl : n = 0 := by omega
    rfl

theorem writeChunk_follows (ph : Phase) (hrole : ph.role = some dst) (huncounted : ph.uncounted = 0)
    (hended : ph.ended = false) (hshut : ph.shut = false) :
    (splice half rounds).Follows (fun y r => y = ph.written r) ph (writeChunk dst ph.pending) := by
  unfold writeChunk
  split_ifs with hpending
  · show ph = ph.written (0, none)
    obtain ⟨role, pending, uncounted, reads, last, broken, shut, ended, closes⟩ := ph
    simp_all [Phase.written]
  · exact countingWrite_follows hrole huncounted hended hshut

/-- By induction on the rounds that are left; each one goes from one read to the next, or to the end. -/
theorem copyBuffer_follows (fuel : ℕ) (hidle : ph.Idle dst) (hreads : ph.reads + fuel = rounds) :
    (splice half rounds).Follows (fun y _ => y.Copied dst rounds) ph (copyBuffer dst dst.other fuel) := by
  induction fuel generalizing ph with
  | zero => exact ⟨hidle.toClear, hidle.role, .inr (.inr hreads.ge), hidle.shut⟩
  | succ fuel ih =>
    refine Protocol.follows_invoke.mpr fun r => ⟨⟨by rw [End.other_other]; exact hidle.role,
      hidle.toClear, hidle.last, hidle.broken, hidle.shut⟩, ?_⟩
    obtain ⟨bytes, rerr⟩ := r
    refine (writeChunk_follows ((splice half rounds).next ph ⟨.read dst.other, (bytes, rerr)⟩)
      hidle.role hidle.uncounted hidle.ended hidle.shut).bind ?_
    rintro z ⟨nw, werr⟩ rfl
    have hclear : (Phase.written ((splice half rounds).next ph ⟨.read dst.other, (bytes, rerr)⟩)
      (nw, werr)).Clear := ⟨rfl, rfl, hidle.ended⟩
    dsimp only
    by_cases hbad : werr ≠ none ∨ nw ≠ bytes.length
    · rw [if_pos hbad]
      refine ⟨hclear, hidle.role, .inr (.inl ?_), hidle.shut⟩
      exact Bool.or_eq_true_iff.mpr (.inr (decide_eq_true hbad))
    · rw [if_neg hbad]
      cases rerr with
      | some err =>
        refine ⟨hclear, hidle.role, ?_, hidle.shut⟩
        cases err with
        | eof => exact .inl rfl
        | failed err => exact .inr (.inl rfl)
      | none =>
        refine ih ⟨hclear, hidle.role, rfl, ?_, hidle.shut⟩ ?_
        · exact Bool.or_eq_false_iff.mpr ⟨rfl, decide_eq_false hbad⟩
        · show ph.reads + 1 + fuel = rounds
          omega

theorem closeBoth_follows (hclose : (ph.role = none ∧ ph.ended = true) ∨
      ∃ dst, ph.role = some dst ∧ half dst = false) :
    (splice half rounds).Follows (fun y _ => y = { ph with closes := .backend :: .client :: ph.closes })
      ph closeBoth :=
  fun _ => ⟨hclose, fun _ => ⟨hclose, rfl⟩⟩

theorem cp_follows (dst : End) : (splice half rounds).Follows (fun y _ => y.ended = true)
    { role := some dst } (cp half rounds dst dst.other) := by
  refine (copyBuffer_follows rounds ⟨⟨rfl, rfl, rfl⟩, rfl, rfl, rfl, rfl⟩ (Nat.zero_add _)).bind ?_
  intro y _ hy
  by_cases hhalf : half dst = true
  · rw [if_pos hhalf]
    exact fun _ => ⟨⟨hy.role, hy.toClear⟩, fun _ => ⟨⟨⟨dst, hy.role⟩, ⟨hy.pending, hy.uncounted, hy.ended⟩,
      hy.through⟩, rfl⟩⟩
  · rw [if_neg hhalf]
    have hno : half dst = false := Bool.eq_false_iff.mpr hhalf
    refine Protocol.follows_invoke.mpr fun first => ⟨⟨dst, hy.role, hno⟩, ?_⟩
    cases first with
    | false => exact fun _ => ⟨⟨⟨dst, hy.role⟩, hy.toClear, hy.through⟩, rfl⟩
    | true =>
      refine (closeBoth_follows (.inr ⟨dst, hy.role, hno⟩)).bind ?_
      rintro z _ rfl
      exact fun _ => ⟨⟨⟨dst, hy.role⟩, ⟨hy.pending, hy.uncounted, hy.ended⟩, hy.through⟩, rfl⟩

theorem waitAndClose_follows : (splice half rounds).Follows (fun y _ => y.closes = [.backend, .client])
    { role := none } waitAndClose := by
  refine Protocol.follows_invoke.mpr fun _ => ⟨rfl, ?_⟩
  exact (closeBoth_follows (.inl ⟨rfl, rfl⟩)).mono fun y _ hy => by rw [hy]; rfl

/-- What each goroutine has done when it returns. -/
def Returned (i : ℕ) (ph : Phase) : Prop :=
  if i < 2 then ph.ended = true else ph.closes = [.backend, .client]

theorem relay_follows (i : ℕ) (p : Prog splicing Unit) (hp : (relay half rounds)[i]? = some p) :
    (splice half rounds).Follows (fun y _ => Returned i y) (start i) p := by
  match i with
  | 0 =>
    cases hp
    exact cp_follows .backend
  | 1 =>
    cases hp
    exact cp_follows .client
  | 2 =>
    cases hp
    exact waitAndClose_follows
  | i + 3 => cases hp

end Follows

/-! ## The bytes on their way to one end -/

/-- What was sent towards an end is what the end was sent, what is pending, and what was not read. A read
or a write that fails loses the rest. -/
structure Flow (sent : List UInt8) (ph : Phase) (incoming outgoing : List UInt8) (counted : UInt64) :
    Prop where
  part : outgoing ++ ph.pending <+: sent
  whole : ph.broken = false → sent = outgoing ++ ph.pending ++ incoming
  last : ph.last = true → ph.broken = false → incoming = []
  reads : ph.broken = false → ph.reads + incoming.length ≤ sent.length + ph.last.toNat
  counted : counted + UInt64.ofNat ph.uncounted = UInt64.ofNat outgoing.length

section Flow

variable {half : End → Bool} {rounds : ℕ} {sent incoming outgoing : List UInt8} {ph : Phase}
  {counted : UInt64} {s : Side} {e : SpliceEnv} {d : End}

theorem Flow.of_broken (hbroken : ph.broken = true) (hpart : outgoing ++ ph.pending <+: sent)
    (hcounted : counted + UInt64.ofNat ph.uncounted = UInt64.ofNat outgoing.length) :
    Flow sent ph incoming outgoing counted := by
  have hno : ph.broken ≠ false := by rw [hbroken]; decide
  exact ⟨hpart, fun h => absurd h hno, fun _ h => absurd h hno, fun h => absurd h hno, hcounted⟩

theorem Flow.read (h : Flow sent ph s.incoming outgoing counted) (hclear : ph.Clear)
    (hlast : ph.last = false) (hbroken : ph.broken = false) :
    Flow sent ((splice half rounds).next ph ⟨.read d, (readFrom s e).1⟩) (readFrom s e).2.incoming
      outgoing counted := by
  have hwhole := h.whole hbroken
  have hreads := h.reads hbroken
  rw [hclear.pending, List.append_nil] at hwhole
  rw [hlast] at hreads
  unfold readFrom
  split_ifs with hclosed
  · refine .of_broken rfl ?_ h.counted
    show outgoing ++ [] <+: sent
    rw [hwhole, List.append_nil]
    exact List.prefix_append _ _
  · cases e.fail with
    | some err =>
      refine .of_broken rfl ?_ h.counted
      rw [hwhole]
      exact (List.prefix_append_right_inj _).mpr (List.take_prefix _ _)
    | none =>
      have hk : 1 ≤ min (e.n + 1) bufLen := le_min (by omega) (by decide)
      have hlen := List.length_drop (i := min (e.n + 1) bufLen) (l := s.incoming)
      have hpart : outgoing ++ s.incoming.take (min (e.n + 1) bufLen) <+: sent := by
        rw [hwhole]
        exact (List.prefix_append_right_inj _).mpr (List.take_prefix _ _)
      have hsplit : sent = outgoing ++ s.incoming.take (min (e.n + 1) bufLen) ++
          s.incoming.drop (min (e.n + 1) bufLen) := by
        rw [List.append_assoc, List.take_append_drop]
        exact hwhole
      dsimp only
      split_ifs with heof
      · refine ⟨hpart, fun _ => hsplit, fun _ _ => heof.1, fun _ => ?_, h.counted⟩
        show ph.reads + 1 + (s.incoming.drop _).length ≤ sent.length + 1
        rw [hlen]
        change ph.reads + s.incoming.length ≤ sent.length + 0 at hreads
        omega
      · refine ⟨hpart, fun _ => hsplit, nofun, fun _ => ?_, h.counted⟩
        -- the end would have been reported, so there was something to take
        have hne : s.incoming ≠ [] := fun hnil => heof ⟨by rw [hnil, List.drop_nil], .inr hnil⟩
        have hpos := List.length_pos_iff.mpr hne
        show ph.reads + 1 + (s.incoming.drop _).length ≤ sent.length + 0
        rw [hlen]
        change ph.reads + s.incoming.length ≤ sent.length + 0 at hreads
        omega

theorem Flow.write {bytes : List UInt8} (h : Flow sent ph incoming s.outgoing counted)
    (hbytes : bytes = ph.pending) (huncounted : ph.uncounted = 0) :
    Flow sent ((splice half rounds).next ph ⟨.write d bytes, (writeTo s bytes e).1⟩) incoming
      (writeTo s bytes e).2.outgoing counted := by
  have hcounted : counted = UInt64.ofNat s.outgoing.length := by
    rw [← h.counted, huncounted]
    exact (UInt64.add_zero _).symm
  subst hbytes
  unfold writeTo
  split_ifs with hclosed
  · refine .of_broken ?_ ?_ ?_
    · simp [splice]
    · show s.outgoing ++ [] <+: sent
      rw [List.append_nil]
      exact (List.prefix_append _ _).trans h.part
    · rw [hcounted]
      exact UInt64.add_zero _
  · cases e.fail with
    | some err =>
      refine .of_broken ?_ ?_ ?_
      · simp [splice]
      · show s.outgoing ++ ph.pending.take _ ++ [] <+: sent
        rw [List.append_nil]
        exact ((List.prefix_append_right_inj _).mpr (List.take_prefix _ _)).trans h.part
      · show counted + UInt64.ofNat (min e.n ph.pending.length) =
          UInt64.ofNat (s.outgoing ++ ph.pending.take _).length
        rw [hcounted, List.length_append, List.length_take, min_assoc, min_self, UInt64.ofNat_add]
    | none =>
      have hkept : (ph.broken || decide ((none : Option GoError) ≠ none ∨
          ph.pending.length ≠ ph.pending.length)) = ph.broken := by simp
      refine ⟨?_, fun hb => ?_, fun hlast hb => ?_, fun hb => ?_, ?_⟩
      · show s.outgoing ++ ph.pending ++ [] <+: sent
        rw [List.append_nil]
        exact h.part
      · show sent = s.outgoing ++ ph.pending ++ [] ++ incoming
        rw [List.append_nil]
        exact h.whole (hkept.symm.trans hb)
      · exact h.last hlast (hkept.symm.trans hb)
      · exact h.reads (hkept.symm.trans hb)
      · show counted + UInt64.ofNat ph.pending.length = UInt64.ofNat (s.outgoing ++ ph.pending).length
        rw [hcounted, List.length_append, UInt64.ofNat_add]

theorem Flow.count (h : Flow sent ph incoming outgoing counted) {n : ℕ} (hn : n = ph.uncounted) :
    Flow sent ((splice half rounds).next ph ⟨.count d n, ()⟩) incoming outgoing
      (counted + UInt64.ofNat n) := by
  refine ⟨h.part, h.whole, h.last, h.reads, ?_⟩
  rw [hn, h.counted]
  exact UInt64.add_zero _

end Flow

end NodeAgent.Relay
