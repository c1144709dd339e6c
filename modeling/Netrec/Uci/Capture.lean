import Netrec.CLib.Blocks
import Netrec.Netlink.Message
import Netrec.Uci.Sources

/-!
# Capturing a live dump

`db_load_live` runs `uci show` in a child process, collects what the child prints through a pipe,
waits for it and reads the text as a dump. The parent and the child run beside each other: the
child writes as much as the pipe has room for and ends on its own or by a signal at any time, the
parent reads as much as is there and as its buffer has room for, and each waits for the other. A
schedule is a list of their actions. The system calls of the parent may fail, and `read` may be
interrupted.

The child is taken from the moment its descriptors are in place. A child whose `dup2` or `execvp`
fails is one that prints nothing and exits with 127. The command is a single process: nobody else
holds the pipe open, and `SIGPIPE` has its default action in it.

## Main definitions

* `Capture`: the parent, the pipe and the child
* `Capture.main`: the steps of `db_load_live`, with `run_capture` and `read_all_fd`
* `Capture.step`, `Capture.exec`: schedules
* `Capture.Outline`, `Capture.Inv`: what holds at each phase
* `Capture.due`: a bound on the steps left

## Main results

* `Capture.exec_inv`: the invariant of all schedules
* `dbLoadLive_loads`: in every schedule the dump that is read is all that the child has printed, or
  the load fails, and nothing is kept
* `dbLoadLive_ends`: no schedule is stuck before the load returns, and none goes on for ever
-/

namespace Netrec

open CLib

/-! ## The state -/

/-- A child process: not there yet, running, ended, and waited for. It has ended with an exit
status, or by a signal. -/
inductive ChildState
  | unborn
  | running
  | ended (status : Option Nat)
  | reaped (status : Option Nat)
  deriving DecidableEq

/-- Where `db_load_live` stands: `run_capture` up to `fork`, `read_all_fd`, the rest of
`run_capture`, and `db_load_buf`. -/
inductive Capture.Phase
  | pipe
  | fork
  | closeWrite
  | malloc
  | grow
  | read
  | closeRead
  | waitpid
  | loadBuf
  | returned
  deriving DecidableEq

/-- The parent, the pipe and the child. Of the child there is the text that it has yet to print, of
the pipe its contents and the parent's two descriptors, `0` for reading and `1` for writing. The
buffer of `read_all_fd` is the block `tmp` of `cap` bytes that begins with `got`; `buf` is the
pointer that `run_capture` hands on. The last three record what has happened: the calls that have
failed, how often `read` was interrupted, and whether a byte was stored outside the buffer. -/
structure Capture where
  phase : Capture.Phase := .pipe
  child : ChildState := .unborn
  todo : CStr
  queue : CStr := []
  fds : Ledger := {}
  blocks : Ledger := {}
  tmp : Nat := 0
  cap : Nat := 0
  got : CStr := []
  buf : Option Nat := none
  rc : Int := 0
  db : UciDb := .empty
  failures : List Capture.Phase := []
  interrupts : Nat := 0
  overrun : Bool := false

namespace Capture

/-- The parent goes on. -/
def goto (c : Capture) (phase : Phase) : Capture := { c with phase }

/-- The call of this phase has failed. -/
def failed (c : Capture) (rc : Int) : Capture := { c with rc, failures := c.phase :: c.failures }

/-- `close`. -/
def close (c : Capture) (fd : Nat) : Capture := { c with fds := c.fds.release (some fd) }

/-- `free(tmp)`. -/
def freeTmp (c : Capture) : Capture := { c with blocks := c.blocks.release (some c.tmp) }

/-- `free(*buf)` and `*buf = NULL`. -/
def freeBuf (c : Capture) : Capture := { c with blocks := c.blocks.release c.buf, buf := none }

/-- Somebody has the pipe open for writing. -/
def HasWriter (c : Capture) : Prop := 1 ∈ c.fds.live ∨ c.child = .running

instance (c : Capture) : Decidable c.HasWriter := inferInstanceAs (Decidable (_ ∨ _))

/-! ## The parent -/

/-- `pipe`. -/
def pipeStep (c : Capture) : Option ℕ+ → Capture
  | none => { c with fds := (c.fds.acquire 1).acquire 0, phase := .fork }
  | some e => (c.failed (-e)).goto .returned

/-- `fork`. -/
def forkStep (c : Capture) : Option ℕ+ → Capture
  | none => { c with child := .running, phase := .closeWrite }
  | some e => (((c.failed (-e)).close 0).close 1).goto .returned

/-- The allocation of `read_all_fd`. -/
def mallocStep (c : Capture) : Option ℕ+ → Capture
  | none =>
    { c with blocks := c.blocks.acquire 0, tmp := 0, cap := 4096, got := [], phase := .grow }
  | some _ => (c.failed (-Errno.ENOMEM.code)).goto .closeRead

/-- The buffer is full but for one byte, and `read_all_fd` doubles it. -/
def reallocStep (c : Capture) : Option ℕ+ → Capture
  | none =>
    { c with
      blocks := (c.blocks.release (some c.tmp)).acquire (c.tmp + 1)
      tmp := c.tmp + 1
      cap := c.cap * 2
      phase := .read }
  | some _ => (c.freeTmp.failed (-Errno.ENOMEM.code)).goto .closeRead

/-- The top of the loop of `read_all_fd`. -/
def growStep (c : Capture) (fails : Option ℕ+) : Capture :=
  if c.got.length + 1 ≥ c.cap then c.reallocStep fails else c.goto .read

/-- The end of `read_all_fd`. -/
def terminate (c : Capture) : Capture :=
  { c with
    blocks := c.blocks.use [c.tmp]
    overrun := c.overrun || c.cap ≤ c.got.length
    buf := some c.tmp
    phase := .closeRead }

/-- `read` has stored `n` bytes behind those that are there. -/
def receive (c : Capture) (n : Nat) : Capture :=
  { c with
    blocks := c.blocks.use [c.tmp]
    overrun := c.overrun || c.cap < c.got.length + n
    got := c.got ++ c.queue.take n
    queue := c.queue.drop n
    phase := .grow }

/-- `read`, of `n` bytes when it does not fail. Nothing is read when nothing is asked for, or when
the pipe is empty and nobody can write to it. -/
def readStep (c : Capture) (n : Nat) : Option ℕ+ → Option Capture
  | some e =>
    if e = EINTR then some { c with interrupts := c.interrupts + 1, phase := .grow }
    else some ((c.freeTmp.failed (-e)).goto .closeRead)
  | none =>
    let c := { c with fds := c.fds.use [0] }
    let size := c.cap - c.got.length - 1
    if size = 0 ∨ (c.queue = [] ∧ ¬ c.HasWriter) then some c.terminate
    -- an empty pipe makes the parent wait
    else if 1 ≤ n ∧ n ≤ size ∧ n ≤ c.queue.length then some (c.receive n)
    else none

/-- The end of `run_capture`, when the child has ended. -/
def reapStep (c : Capture) (status : Option Nat) : Capture :=
  let c := { c with child := .reaped status }
  if c.rc ≠ 0 then c.freeBuf.goto .returned
  else if status ≠ some 0 then { c.freeBuf with rc := -Errno.EINVAL.code, phase := .returned }
  else c.goto .loadBuf

/-- `waitpid`. -/
def waitStep (c : Capture) : Option ℕ+ → Option Capture
  | some e => some ((c.freeBuf.failed (-e)).goto .returned)
  | none =>
    match c.child with
    | .ended status => some (c.reapStep status)
    -- the parent waits
    | _ => none

/-- `db_load_buf` and `free(buf)`. -/
def loadStep (c : Capture) : Capture :=
  let c := { c with blocks := c.blocks.use c.buf.toList }
  (match dbLoadBuf c.got .empty with
    | .ok db => { c.freeBuf with rc := 0, db }
    | .error e => { c.freeBuf with rc := -e.code }).goto .returned

/-- One step of the parent. When the call in it fails, `fails` is the `errno`; `n` is the number of
bytes that `read` gives. `none` when the parent waits or has returned. -/
def main (c : Capture) (fails : Option ℕ+) (n : Nat) : Option Capture :=
  match c.phase with
  | .pipe => some (c.pipeStep fails)
  | .fork => some (c.forkStep fails)
  | .closeWrite => some ((c.close 1).goto .malloc)
  | .malloc => some (c.mallocStep fails)
  | .grow => some (c.growStep fails)
  | .read => c.readStep n fails
  | .closeRead => some ((c.close 0).goto .waitpid)
  | .waitpid => c.waitStep fails
  | .loadBuf => some c.loadStep
  | .returned => none

/-! ## The child -/

/-- The child writes `n` bytes. A pipe that nobody reads from ends it with a signal, and a full one
makes it wait. -/
def write (room : ℕ+) (c : Capture) (n : Nat) : Option Capture :=
  if c.child = .running ∧ 1 ≤ n ∧ n ≤ c.todo.length then
    if 0 ∈ c.fds.live then
      if c.queue.length + n ≤ room then
        some { c with queue := c.queue ++ c.todo.take n, todo := c.todo.drop n }
      else none
    else some { c with child := .ended none }
  else none

/-- The child exits when it has printed everything. -/
def exit (status : Nat) (c : Capture) : Option Capture :=
  if c.child = .running ∧ c.todo = [] then some { c with child := .ended (some status) } else none

/-- A signal ends the child. -/
def kill (c : Capture) : Option Capture :=
  if c.child = .running then some { c with child := .ended none } else none

/-! ## Schedules -/

/-- An action of a schedule. -/
inductive Act
  | main (fails : Option ℕ+) (n : Nat)
  | write (n : Nat)
  | exit
  | kill
  deriving DecidableEq

/-- One action, with a pipe that takes `room` bytes and a child that exits with `status`. -/
def step (room : ℕ+) (status : Nat) (c : Capture) : Act → Option Capture
  | .main fails n => c.main fails n
  | .write n => c.write room n
  | .exit => c.exit status
  | .kill => c.kill

/-- A schedule, from the call of `db_load_live` with a command that prints `out`. -/
def exec (room : ℕ+) (status : Nat) (out : CStr) (acts : List Act) : Option Capture :=
  acts.foldlM (step room status) { todo := out }

/-! ## The invariant -/

/-- The descriptors that are open. -/
def Phase.ends : Phase → List Nat
  | .fork | .closeWrite => [0, 1]
  | .malloc | .grow | .read | .closeRead => [0]
  | _ => []

/-- The blocks that are in use: the buffer, under one name or the other. -/
def held (c : Capture) : List Nat :=
  match c.phase with
  | .grow | .read => [c.tmp]
  | _ => c.buf.toList

/-- Nothing has failed, and there is no result yet. -/
def Clean (c : Capture) : Prop := c.rc = 0 ∧ c.failures = [] ∧ c.buf = none

/-- The child has been started and not been waited for. -/
def Born (c : Capture) : Prop := c.child = .running ∨ ∃ status, c.child = .ended status

/-- `read_all_fd` has returned everything that the child has written. -/
def Complete (c : Capture) : Prop :=
  c.rc = 0 ∧ c.failures = [] ∧ c.buf = some c.tmp ∧ c.queue = [] ∧ c.child ≠ .running

/-- A call has failed, and there is no result. -/
def Aborted (c : Capture) : Prop := c.rc < 0 ∧ c.failures ≠ [] ∧ c.buf = none

/-- The child has been waited for, unless a call failed that this rests on. -/
def Reaped (c : Capture) : Prop :=
  (∃ status, c.child = .reaped status) ∨
    Phase.pipe ∈ c.failures ∨ Phase.fork ∈ c.failures ∨ Phase.waitpid ∈ c.failures

/-- The result is that of reading the text as a live dump. -/
def Loaded (out : CStr) (c : Capture) : Prop :=
  match UciSource.load (.live (.ok out)) with
  | .ok db => c.rc = 0 ∧ c.db = db
  | .error e => c.rc = -e.code

/-- What holds at each phase. -/
def Outline (out : CStr) (c : Capture) : Prop :=
  match c.phase with
  | .pipe | .fork => c.Clean ∧ c.child = .unborn ∧ c.got = []
  | .closeWrite | .malloc => c.Clean ∧ c.Born ∧ c.got = []
  | .grow => c.Clean ∧ c.Born ∧ c.got.length < c.cap
  -- room for a byte, and for the terminator behind it
  | .read => c.Clean ∧ c.Born ∧ c.got.length + 1 < c.cap
  | .closeRead | .waitpid => (c.Complete ∨ c.Aborted) ∧ c.Born
  | .loadBuf => c.Complete ∧ c.child = .reaped (some 0)
  | .returned =>
    c.buf = none ∧ c.Reaped ∧
      if c.failures = [] ∧ c.child = .reaped (some 0) then c.Loaded out else c.rc < 0

/-- What holds in every schedule of a command that prints `out` and exits with `status`: nothing is
used that is not there, no byte is lost or moved, and a child that has exited has written
everything. -/
structure Inv (status : Nat) (out : CStr) (c : Capture) : Prop where
  inside : c.overrun = false
  fds : c.fds = ⟨c.phase.ends, false⟩
  blocks : c.blocks = ⟨c.held, false⟩
  text : c.got ++ c.queue ++ c.todo = out
  exited : ∀ s, c.child = .ended (some s) ∨ c.child = .reaped (some s) → s = status ∧ c.todo = []
  outline : c.Outline out

theorem inv_start (status : Nat) (out : CStr) : Inv status out { todo := out } where
  inside := rfl
  fds := rfl
  blocks := rfl
  text := rfl
  exited := by simp
  outline := by simp [Outline, Clean]

variable {room : ℕ+} {status n : Nat} {out : CStr} {c c' : Capture} {fails : Option ℕ+}

/-! ## The child keeps the invariant -/

/-- **A running child** may write and end without the parent noticing: from the end of the pipe on
nobody relies on what it does. -/
theorem Outline.child (h : c.Outline out) (hrun : c.child = .running) {child : ChildState}
    (hchild : child = .running ∨ ∃ s, child = .ended s) (queue todo : CStr) :
    Outline out { c with child, queue, todo } := by
  have hborn : Born { c with child, queue, todo } := hchild
  have hnot : ∀ s, child ≠ .reaped s := by
    rintro s rfl
    simp at hchild
  unfold Outline at h ⊢
  cases hp : c.phase <;> simp only [hp] at h ⊢
  case pipe | fork => simp [hrun] at h
  case closeWrite | malloc | grow | read => exact ⟨h.1, hborn, h.2.2⟩
  case closeRead | waitpid =>
    rcases h.1 with hc | ha
    · exact absurd hrun hc.2.2.2.2
    · exact ⟨.inr ha, hborn⟩
  case loadBuf => simp [hrun] at h
  case returned =>
    obtain ⟨hbuf, hreaped, hrc⟩ := h
    -- the child was left behind
    have hfail : c.failures ≠ [] := by
      rintro hnil
      rcases hreaped with ⟨s, hs⟩ | hf
      · simp [hrun] at hs
      · simp [hnil] at hf
    refine ⟨hbuf, .inr ?_, ?_⟩
    · rcases hreaped with ⟨s, hs⟩ | hf
      · simp [hrun] at hs
      · exact hf
    · simpa [hfail] using hrc

theorem Inv.write (h : c.Inv status out) (hw : c.write room n = some c') : c'.Inv status out := by
  simp only [Capture.write, Option.ite_none_right_eq_some] at hw
  obtain ⟨⟨hrun, -, hn⟩, hw⟩ := hw
  split_ifs at hw with hend hroom
  · obtain rfl := Option.some.inj hw
    refine ⟨h.inside, h.fds, h.blocks, ?_, by simp [hrun],
      h.outline.child hrun (.inl hrun) _ _⟩
    calc c.got ++ (c.queue ++ c.todo.take n) ++ c.todo.drop n
        = c.got ++ c.queue ++ (c.todo.take n ++ c.todo.drop n) := by simp only [List.append_assoc]
      _ = out := by rw [List.take_append_drop, h.text]
  · -- `SIGPIPE`
    obtain rfl := Option.some.inj hw
    exact ⟨h.inside, h.fds, h.blocks, h.text, by simp,
      h.outline.child hrun (.inr ⟨none, rfl⟩) c.queue c.todo⟩

theorem Inv.exit (h : c.Inv status out) (he : c.exit status = some c') : c'.Inv status out := by
  simp only [Capture.exit, Option.ite_none_right_eq_some, Option.some.injEq] at he
  obtain ⟨⟨hrun, htodo⟩, rfl⟩ := he
  refine ⟨h.inside, h.fds, h.blocks, h.text, ?_,
    h.outline.child hrun (.inr ⟨some status, rfl⟩) c.queue c.todo⟩
  rintro s (hs | hs)
  · simp only [ChildState.ended.injEq, Option.some.injEq] at hs
    exact ⟨hs.symm, htodo⟩
  · cases hs

theorem Inv.kill (h : c.Inv status out) (hk : c.kill = some c') : c'.Inv status out := by
  simp only [Capture.kill, Option.ite_none_right_eq_some, Option.some.injEq] at hk
  obtain ⟨hrun, rfl⟩ := hk
  exact ⟨h.inside, h.fds, h.blocks, h.text, by simp,
    h.outline.child hrun (.inr ⟨none, rfl⟩) c.queue c.todo⟩

/-! ## The parent keeps the invariant -/

theorem Inv.pipe (h : c.Inv status out) (hp : c.phase = .pipe) :
    (c.pipeStep fails).Inv status out := by
  obtain ⟨hin, hfds, hblocks, htext, hex, hout⟩ := h
  simp only [Outline, hp] at hout
  obtain ⟨⟨hrc, hfail, hbuf⟩, hchild, hgot⟩ := hout
  simp only [hp, held, hbuf, Phase.ends, Option.toList_none] at hfds hblocks
  cases fails with
  | none =>
    exact ⟨hin, by simp [pipeStep, hfds, Ledger.acquire, Phase.ends],
      by simp [pipeStep, hblocks, held, hbuf], htext, hex, ⟨⟨hrc, hfail, hbuf⟩, hchild, hgot⟩⟩
  | some e =>
    refine ⟨hin, by simp [pipeStep, goto, failed, hfds, Phase.ends],
      by simp [pipeStep, goto, failed, hblocks, held, hbuf], htext, hex, hbuf, .inr (.inl ?_), ?_⟩
    · simp [pipeStep, goto, failed, hp]
    · simp [pipeStep, goto, failed]

theorem Inv.fork (h : c.Inv status out) (hp : c.phase = .fork) :
    (c.forkStep fails).Inv status out := by
  obtain ⟨hin, hfds, hblocks, htext, hex, hout⟩ := h
  simp only [Outline, hp] at hout
  obtain ⟨⟨hrc, hfail, hbuf⟩, hchild, hgot⟩ := hout
  simp only [hp, held, hbuf, Phase.ends, Option.toList_none] at hfds hblocks
  cases fails with
  | none =>
    exact ⟨hin, by simp [forkStep, hfds, Phase.ends], by simp [forkStep, hblocks, held, hbuf],
      htext, by simp [forkStep], ⟨⟨hrc, hfail, hbuf⟩, .inl rfl, hgot⟩⟩
  | some e =>
    refine ⟨hin, by simp [forkStep, goto, close, failed, hfds, Ledger.release, Phase.ends],
      by simp [forkStep, goto, close, failed, hblocks, held, hbuf], htext, hex, hbuf,
      .inr (.inr (.inl ?_)), ?_⟩
    · simp [forkStep, goto, close, failed, hp]
    · simp [forkStep, goto, close, failed]

theorem Inv.closeWrite (h : c.Inv status out) (hp : c.phase = .closeWrite) :
    ((c.close 1).goto .malloc).Inv status out := by
  obtain ⟨hin, hfds, hblocks, htext, hex, hout⟩ := h
  simp only [Outline, hp] at hout
  simp only [hp, held, Phase.ends] at hfds hblocks
  exact ⟨hin, by simp [goto, close, hfds, Ledger.release, Phase.ends], hblocks, htext, hex, hout⟩

/-- `read_all_fd` fails with its buffer given back. -/
theorem Inv.abort (h : c.Inv status out) (hends : c.phase.ends = [0]) (hbuf : c.buf = none)
    (hborn : c.Born) {rc : Int} (hrc : rc < 0) {blocks : Ledger} (hblocks : blocks = ⟨[], false⟩) :
    Inv status out ((({ c with blocks } : Capture).failed rc).goto .closeRead) where
  inside := h.inside
  fds := by rw [goto, failed, h.fds, hends, Phase.ends]
  blocks := by simp [goto, failed, held, hblocks, hbuf]
  text := h.text
  exited := h.exited
  outline := ⟨.inr ⟨hrc, by simp [goto, failed], hbuf⟩, hborn⟩

theorem Inv.malloc (h : c.Inv status out) (hp : c.phase = .malloc) :
    (c.mallocStep fails).Inv status out := by
  have hout := h.outline
  have hblocks := h.blocks
  simp only [Outline, hp] at hout
  obtain ⟨⟨hrc, hfail, hbuf⟩, hborn, hgot⟩ := hout
  simp only [hp, held, hbuf, Option.toList_none] at hblocks
  cases fails with
  | none =>
    refine ⟨h.inside, ?_, ?_, ?_, h.exited, ⟨hrc, hfail, hbuf⟩, hborn, by simp [mallocStep]⟩
    · simp [mallocStep, h.fds, hp, Phase.ends]
    · simp [mallocStep, hblocks, held, Ledger.acquire]
    · simpa [mallocStep, hgot] using h.text
  | some e => exact h.abort (by simp [hp, Phase.ends]) hbuf hborn (by decide) hblocks

/-- The buffer is given back by its first name. -/
theorem freeTmp_blocks (hblocks : c.blocks = ⟨[c.tmp], false⟩) :
    c.freeTmp.blocks = ⟨[], false⟩ := by
  simp [freeTmp, hblocks, Ledger.release]

theorem Inv.grow (h : c.Inv status out) (hp : c.phase = .grow) :
    (c.growStep fails).Inv status out := by
  have hblocks : c.blocks = ⟨[c.tmp], false⟩ := by simp [h.blocks, held, hp]
  have hout := h.outline
  simp only [Outline, hp] at hout
  obtain ⟨⟨hrc, hfail, hbuf⟩, hborn, hlen⟩ := hout
  have hfds : c.fds = ⟨[0], false⟩ := by simp [h.fds, hp, Phase.ends]
  unfold growStep
  split_ifs with hfull
  · cases fails with
    | none =>
      refine ⟨h.inside, hfds, ?_, h.text, h.exited, ⟨hrc, hfail, hbuf⟩, hborn, ?_⟩
      · simp [reallocStep, hblocks, held, Ledger.release, Ledger.acquire]
      · show c.got.length + 1 < c.cap * 2
        omega
    | some e =>
      exact h.abort (by simp [hp, Phase.ends]) hbuf hborn (by decide) (freeTmp_blocks hblocks)
  · refine ⟨h.inside, hfds, ?_, h.text, h.exited, ⟨hrc, hfail, hbuf⟩, hborn, ?_⟩
    · simp [goto, hblocks, held]
    · exact not_le.mp hfull

/-- The end of the pipe has been reached. -/
theorem Inv.terminate (h : c.Inv status out) (hp : c.phase = .read) (hqueue : c.queue = [])
    (hw : ¬ c.HasWriter) : c.terminate.Inv status out := by
  have hout := h.outline
  simp only [Outline, hp] at hout
  obtain ⟨⟨hrc, hfail, -⟩, hborn, hlen⟩ := hout
  refine ⟨?_, ?_, ?_, h.text, h.exited,
    .inl ⟨hrc, hfail, rfl, hqueue, fun hrun => hw (.inr hrun)⟩, hborn⟩
  · simp only [Capture.terminate, h.inside, Bool.false_or, decide_eq_false_iff_not]
    omega
  · simp [Capture.terminate, h.fds, hp, Phase.ends]
  · simp [Capture.terminate, h.blocks, hp, held, Ledger.use]

/-- `read` gives some bytes. -/
theorem Inv.receive (h : c.Inv status out) (hp : c.phase = .read)
    (hn : n ≤ c.cap - c.got.length - 1) : (c.receive n).Inv status out := by
  have hout := h.outline
  simp only [Outline, hp] at hout
  obtain ⟨hclean, hborn, hlen⟩ := hout
  refine ⟨?_, ?_, ?_, ?_, h.exited, hclean, hborn, ?_⟩
  · simp only [Capture.receive, h.inside, Bool.false_or, decide_eq_false_iff_not]
    omega
  · simp [Capture.receive, h.fds, hp, Phase.ends]
  · simp [Capture.receive, h.blocks, hp, held, Ledger.use]
  · calc c.got ++ c.queue.take n ++ c.queue.drop n ++ c.todo
        = c.got ++ (c.queue.take n ++ c.queue.drop n) ++ c.todo := by simp only [List.append_assoc]
      _ = out := by rw [List.take_append_drop, h.text]
  · simp only [Capture.receive, List.length_append, List.length_take]
    omega

theorem Inv.read (h : c.Inv status out) (hp : c.phase = .read)
    (hr : c.readStep n fails = some c') : c'.Inv status out := by
  have hblocks : c.blocks = ⟨[c.tmp], false⟩ := by simp [h.blocks, held, hp]
  have hfds : c.fds = ⟨[0], false⟩ := by simp [h.fds, hp, Phase.ends]
  have hout := h.outline
  simp only [Outline, hp] at hout
  obtain ⟨⟨hrc, hfail, hbuf⟩, hborn, hlen⟩ := hout
  cases fails with
  | some e =>
    simp only [readStep] at hr
    split_ifs at hr with he
    · obtain rfl := Option.some.inj hr
      refine ⟨h.inside, hfds, ?_, h.text, h.exited, ⟨hrc, hfail, hbuf⟩, hborn, ?_⟩
      · simp [hblocks, held]
      · exact Nat.lt_of_succ_lt hlen
    · obtain rfl := Option.some.inj hr
      exact h.abort (by simp [hp, Phase.ends]) hbuf hborn (by simp) (freeTmp_blocks hblocks)
  | none =>
    have huse : ({ c with fds := c.fds.use [0] } : Capture) = c := by
      rw [show c.fds.use [0] = c.fds by simp [hfds, Ledger.use]]
    simp only [readStep, huse] at hr
    -- there is room for a byte, so only the end of the pipe ends the loop
    have hsize : c.cap - c.got.length - 1 ≠ 0 := by omega
    simp only [hsize, false_or] at hr
    split_ifs at hr with hend hn
    · obtain rfl := Option.some.inj hr
      exact h.terminate hp hend.1 hend.2
    · obtain rfl := Option.some.inj hr
      exact h.receive hp hn.2.1

theorem Inv.closeRead (h : c.Inv status out) (hp : c.phase = .closeRead) :
    ((c.close 0).goto .waitpid).Inv status out := by
  obtain ⟨hin, hfds, hblocks, htext, hex, hout⟩ := h
  simp only [Outline, hp] at hout
  simp only [hp, held, Phase.ends] at hfds hblocks
  exact ⟨hin, by simp [goto, close, hfds, Ledger.release, Phase.ends], hblocks, htext, hex, hout⟩

/-- The buffer is given back by its last name. -/
theorem freeBuf_blocks (hblocks : c.blocks = ⟨c.buf.toList, false⟩) :
    c.freeBuf.blocks = ⟨[], false⟩ := by
  cases hb : c.buf <;> simp [freeBuf, hblocks, hb, Ledger.release]

theorem Inv.wait (h : c.Inv status out) (hp : c.phase = .waitpid)
    (hw : c.waitStep fails = some c') : c'.Inv status out := by
  have hblocks : c.blocks = ⟨c.buf.toList, false⟩ := by simp [h.blocks, held, hp]
  have hfds : c.fds = ⟨[], false⟩ := by simp [h.fds, hp, Phase.ends]
  have hfree := freeBuf_blocks hblocks
  have hout := h.outline
  simp only [Outline, hp] at hout
  obtain ⟨hdone, hborn⟩ := hout
  cases fails with
  | some e =>
    obtain rfl := Option.some.inj hw
    refine ⟨h.inside, hfds, hfree, h.text, h.exited, rfl, .inr (.inr (.inr ?_)), ?_⟩
    · simp [goto, failed, freeBuf, hp]
    · simp [goto, failed]
  | none =>
    rcases hborn with hrun | ⟨s, hs⟩
    · simp [waitStep, hrun] at hw
    simp only [waitStep, hs, Option.some.injEq] at hw
    subst hw
    have hex : ∀ s', ChildState.reaped s = .ended (some s') ∨
        ChildState.reaped s = .reaped (some s') → s' = status ∧ c.todo = [] := by
      intro s' hs'
      refine h.exited s' (.inl ?_)
      rw [hs]
      simpa using hs'
    unfold reapStep
    dsimp only
    rcases hdone with ⟨hrc, hfail, hbuf, hqueue, -⟩ | ⟨hrc, hfail, hbuf⟩
    · -- everything has been read, and the status decides
      rw [if_neg (not_not.mpr hrc)]
      by_cases hzero : s = some 0
      · rw [if_neg (not_not.mpr hzero)]
        refine ⟨h.inside, hfds, ?_, h.text, hex, ⟨hrc, hfail, hbuf, hqueue, by simp [goto]⟩, ?_⟩
        · simp [goto, hblocks, held]
        · simp [goto, hzero]
      · rw [if_pos hzero]
        refine ⟨h.inside, hfds, hfree, h.text, hex, rfl, .inl ⟨s, rfl⟩, ?_⟩
        simp [freeBuf, hzero, Errno.code]
    · rw [if_pos hrc.ne]
      refine ⟨h.inside, hfds, hfree, h.text, hex, rfl, .inl ⟨s, rfl⟩, ?_⟩
      simp [goto, freeBuf, hfail, hrc]

theorem Inv.load (h : c.Inv status out) (hp : c.phase = .loadBuf) :
    c.loadStep.Inv status out := by
  have hblocks : c.blocks = ⟨c.buf.toList, false⟩ := by simp [h.blocks, held, hp]
  have hfds : c.fds = ⟨[], false⟩ := by simp [h.fds, hp, Phase.ends]
  have hfree := freeBuf_blocks hblocks
  have hout := h.outline
  simp only [Outline, hp] at hout
  obtain ⟨⟨hrc, hfail, hbuf, hqueue, -⟩, hchild⟩ := hout
  -- the child has exited, and nothing is left in the pipe
  have htext : c.got = out := by
    simpa [hqueue, (h.exited 0 (.inr hchild)).2] using h.text
  have huse : ({ c with blocks := c.blocks.use c.buf.toList } : Capture) = c := by
    rw [show c.blocks.use c.buf.toList = c.blocks by simp [hblocks, Ledger.use]]
  simp only [loadStep, huse]
  cases hl : dbLoadBuf c.got .empty with
  | ok db =>
    refine ⟨h.inside, hfds, hfree, h.text, h.exited, rfl, .inl ⟨_, hchild⟩, ?_⟩
    simp [goto, freeBuf, hfail, hchild, Loaded, UciSource.load, ← htext, hl]
  | error e =>
    refine ⟨h.inside, hfds, hfree, h.text, h.exited, rfl, .inl ⟨_, hchild⟩, ?_⟩
    simp [goto, freeBuf, hfail, hchild, Loaded, UciSource.load, ← htext, hl]

theorem Inv.main (h : c.Inv status out) (hm : c.main fails n = some c') : c'.Inv status out := by
  unfold Capture.main at hm
  cases hp : c.phase <;> simp only [hp, Option.some.injEq, reduceCtorEq] at hm
  case pipe => exact hm ▸ h.pipe hp
  case fork => exact hm ▸ h.fork hp
  case closeWrite => exact hm ▸ h.closeWrite hp
  case malloc => exact hm ▸ h.malloc hp
  case grow => exact hm ▸ h.grow hp
  case read => exact h.read hp hm
  case closeRead => exact hm ▸ h.closeRead hp
  case waitpid => exact h.wait hp hm
  case loadBuf => exact hm ▸ h.load hp

/-- **Every action keeps the invariant.** -/
theorem Inv.step {a : Act} (h : c.Inv status out) (hs : c.step room status a = some c') :
    c'.Inv status out := by
  cases a with
  | main fails n => exact h.main hs
  | write n => exact h.write hs
  | exit => exact h.exit hs
  | kill => exact h.kill hs

/-- **The invariant of all schedules.** -/
theorem exec_inv {acts : List Act} (h : exec room status out acts = some c) :
    c.Inv status out :=
  foldlM_option_invariant (fun _ _ _ hst hs => hst.step hs) (inv_start status out) h

/-! ## The steps left -/

/-- The parent's steps that are left from this phase on, those of the loop of `read_all_fd`
aside. -/
def Phase.left : Phase → Nat
  | .returned => 0
  | .loadBuf => 1
  | .waitpid => 2
  | .closeRead => 3
  | .read => 4
  | .grow => 5
  | .malloc => 6
  | .closeWrite => 7
  | .fork => 8
  | .pipe => 9

/-- The start and the end of a child. -/
def childLeft : ChildState → Nat
  | .unborn => 2
  | .running => 1
  | _ => 0

/-- What is left of a schedule: a byte is written, and read in a round of the loop of two steps. -/
def due (c : Capture) : Nat :=
  4 * c.todo.length + 3 * c.queue.length + childLeft c.child + c.phase.left

/-- A `read` brings the end nearer, unless it is interrupted. -/
theorem readStep_due (hp : c.phase = .read) (hr : c.readStep n fails = some c') :
    c'.due + 1 + 2 * c.interrupts ≤ c.due + 2 * c'.interrupts := by
  cases fails with
  | some e =>
    simp only [readStep] at hr
    split_ifs at hr with he
    · obtain rfl := Option.some.inj hr
      simp only [due, hp, Phase.left]
      omega
    · obtain rfl := Option.some.inj hr
      simp only [due, goto, failed, freeTmp, hp, Phase.left]
      omega
  | none =>
    simp only [readStep] at hr
    split_ifs at hr with hend hn
    · obtain rfl := Option.some.inj hr
      simp only [due, Capture.terminate, hp, Phase.left]
      omega
    · obtain rfl := Option.some.inj hr
      simp only [due, Capture.receive, hp, Phase.left, List.length_drop]
      omega

theorem waitStep_due (hp : c.phase = .waitpid) (hw : c.waitStep fails = some c') :
    c'.due + 1 + 2 * c.interrupts ≤ c.due + 2 * c'.interrupts := by
  cases fails with
  | some e =>
    obtain rfl := Option.some.inj hw
    simp only [due, goto, failed, freeBuf, hp, Phase.left]
    omega
  | none =>
    simp only [waitStep] at hw
    cases hc : c.child <;> simp only [hc, Option.some.injEq, reduceCtorEq] at hw
    subst hw
    unfold reapStep
    dsimp only
    split_ifs <;> simp only [due, goto, freeBuf, hc, hp, childLeft, Phase.left] <;> omega

theorem Inv.main_due (h : c.Inv status out) (hm : c.main fails n = some c') :
    c'.due + 1 + 2 * c.interrupts ≤ c.due + 2 * c'.interrupts := by
  have hout := h.outline
  unfold Capture.main at hm
  unfold Outline at hout
  cases hp : c.phase <;> simp only [hp, Option.some.injEq, reduceCtorEq] at hm hout
  case read => exact readStep_due hp hm
  case waitpid => exact waitStep_due hp hm
  case fork =>
    subst hm
    cases fails <;>
      simp only [forkStep, due, goto, close, failed, hout.2.1, hp, childLeft, Phase.left] <;> omega
  case grow =>
    subst hm
    unfold growStep
    split_ifs
    · cases fails <;>
        simp only [reallocStep, due, goto, failed, freeTmp, hp, Phase.left] <;> omega
    · simp only [due, goto, hp, Phase.left]
      omega
  case loadBuf =>
    subst hm
    unfold loadStep
    dsimp only
    split <;> simp only [due, goto, freeBuf, hp, Phase.left] <;> omega
  case pipe | malloc =>
    subst hm
    cases fails <;>
      simp only [pipeStep, mallocStep, due, goto, failed, hp, Phase.left] <;> omega
  case closeWrite | closeRead =>
    subst hm
    simp only [due, goto, close, hp, Phase.left]
    omega

/-- **Every action brings the end nearer**, an interrupted `read` aside. -/
theorem Inv.step_due {a : Act} (h : c.Inv status out) (hs : c.step room status a = some c') :
    c'.due + 1 + 2 * c.interrupts ≤ c.due + 2 * c'.interrupts := by
  cases a with
  | main fails n => exact h.main_due hs
  | write n =>
    simp only [Capture.step, Capture.write, Option.ite_none_right_eq_some] at hs
    obtain ⟨⟨hrun, hpos, hn⟩, hs⟩ := hs
    split_ifs at hs
    · obtain rfl := Option.some.inj hs
      simp only [due, List.length_append, List.length_take, List.length_drop]
      omega
    · obtain rfl := Option.some.inj hs
      simp only [due, hrun, childLeft]
      omega
  | exit =>
    simp only [Capture.step, Capture.exit, Option.ite_none_right_eq_some, Option.some.injEq] at hs
    obtain ⟨⟨hrun, -⟩, rfl⟩ := hs
    simp only [due, hrun, childLeft]
    omega
  | kill =>
    simp only [Capture.step, Capture.kill, Option.ite_none_right_eq_some, Option.some.injEq] at hs
    obtain ⟨hrun, rfl⟩ := hs
    simp only [due, hrun, childLeft]
    omega

/-! ## Who can go on -/

/-- An action in which nothing fails. -/
def Act.calm : Act → Bool
  | .main fails _ => fails = none
  | .kill => false
  | _ => true

/-- A running child can go on, unless it waits for the parent to empty the pipe. -/
theorem child_enabled (hrun : c.child = .running) (hroom : 0 ∈ c.fds.live → c.queue = []) :
    ∃ a : Act, a.calm = true ∧ (c.step room status a).isSome = true := by
  by_cases htodo : c.todo = []
  · exact ⟨.exit, rfl, by simp [Capture.step, Capture.exit, hrun, htodo]⟩
  · refine ⟨.write 1, rfl, ?_⟩
    have hlen : 1 ≤ c.todo.length := List.length_pos_iff.mpr htodo
    simp only [Capture.step, Capture.write, hrun, hlen, le_refl, and_self, if_true]
    split_ifs with hend hfull
    · rfl
    · have hpos := room.pos
      rw [hroom hend, List.length_nil] at hfull
      omega
    · rfl

/-- **No deadlock**: the parent waits for a child that can go on. -/
theorem Inv.enabled (h : c.Inv status out) (hp : c.phase ≠ .returned) :
    ∃ a : Act, a.calm = true ∧ (c.step room status a).isSome = true := by
  have hout := h.outline
  have hfds := h.fds
  unfold Outline at hout
  cases hph : c.phase <;> simp only [hph, Phase.ends] at hout hfds
  case returned => exact absurd hph hp
  case read =>
    obtain ⟨-, hborn, hlen⟩ := hout
    have hsize : c.cap - c.got.length - 1 ≠ 0 := by omega
    by_cases hqueue : c.queue = []
    · rcases hborn with hrun | ⟨s, hs⟩
      · exact child_enabled hrun fun _ => hqueue
      · -- nobody is left to write: the end of the pipe
        refine ⟨.main none 0, rfl, ?_⟩
        simp [Capture.step, Capture.main, hph, readStep, hqueue, HasWriter, hfds, hs, Ledger.use]
    · refine ⟨.main none 1, rfl, ?_⟩
      have hpos : 1 ≤ c.queue.length := List.length_pos_iff.mpr hqueue
      have hone : 1 ≤ c.cap - c.got.length - 1 := by omega
      simp [Capture.step, Capture.main, hph, readStep, hqueue, hsize, hpos, hone]
  case waitpid =>
    rcases hout.2 with hrun | ⟨s, hs⟩
    · exact child_enabled hrun fun hmem => by simp [hfds] at hmem
    · exact ⟨.main none 0, rfl, by simp [Capture.step, Capture.main, hph, waitStep, hs]⟩
  all_goals exact ⟨.main none 0, rfl, by simp [Capture.step, Capture.main, hph]⟩

end Capture

/-! ## Loading a live dump -/

section Main

open Capture

variable {room : ℕ+} {status : Nat} {out : CStr} {acts : List Capture.Act} {c : Capture}

/-- **A live dump is read whole or not at all.** However the writes of `uci show` and the reads of
`db_load_live` fall together, and whatever fails: when `db_load_live` returns, both ends of the pipe
are closed and its memory is given back, nothing has been freed or closed twice or written outside
the buffer, and the child has been waited for unless `pipe`, `fork` or `waitpid` failed. If no call
failed and the command exited with 0, the result is that of reading everything the command has
printed; otherwise an error is returned. -/
theorem dbLoadLive_loads (h : exec room status out acts = some c) (hret : c.phase = .returned) :
    c.fds = {} ∧ c.blocks = {} ∧ c.overrun = false ∧ c.Reaped ∧
    (c.failures = [] → c.child = .reaped (some 0) → status = 0 ∧ c.Loaded out) ∧
    (c.failures ≠ [] ∨ c.child ≠ .reaped (some 0) → c.rc < 0) := by
  have hinv := exec_inv h
  have hout := hinv.outline
  simp only [Outline, hret] at hout
  obtain ⟨hbuf, hreaped, hrc⟩ := hout
  refine ⟨?_, ?_, hinv.inside, hreaped, ?_, ?_⟩
  · simp [hinv.fds, hret, Phase.ends]
  · simp [hinv.blocks, held, hret, hbuf]
  · intro hfail hchild
    rw [if_pos ⟨hfail, hchild⟩] at hrc
    exact ⟨(hinv.exited 0 (.inr hchild)).1.symm, hrc⟩
  · intro hbad
    rwa [if_neg (by tauto)] at hrc

/-- What `uci show network` prints for a section. -/
def lanShow : CStr := "network.lan=interface\n".toList

/-- The dump is printed and read in two parts; the parent is interrupted once, and has to wait for
the second part and for the end of the child. -/
def lanReads : List Capture.Act :=
  [.main none 0, .main none 0, .write 16, .main none 0, .main none 0, .main none 0,
    .main (some EINTR) 0, .main none 0, .main none 16, .main none 0, .write 6, .main none 6,
    .main none 0, .exit, .main none 0, .main none 0, .main none 0, .main none 0]

theorem lanShow_loads : ∃ c, exec 16 0 lanShow lanReads = some c ∧ c.phase = .returned ∧
    c.fds = {} ∧ c.blocks = {} ∧ c.Loaded lanShow ∧ c.db.val.length = 1 := by
  have h := @dbLoadLive_loads 16 0 lanShow lanReads _ rfl rfl
  obtain ⟨hfds, hblocks, -, -, hload, -⟩ := h
  exact ⟨_, rfl, rfl, hfds, hblocks, (hload rfl rfl).2, rfl⟩

/-- **A live load ends.** Every schedule is bounded by the length of the output and the number of
times that `read` is interrupted, and until `db_load_live` has returned the parent or the child can
go on without a failure. -/
theorem dbLoadLive_ends (h : exec room status out acts = some c) :
    acts.length ≤ 4 * out.length + 11 + 2 * c.interrupts ∧
    (c.phase ≠ .returned → ∃ a : Capture.Act, a.calm = true ∧
      (c.step room status a).isSome = true) := by
  refine ⟨?_, (exec_inv h).enabled⟩
  -- the length of the schedule is paid for by what was due at the start
  have hrun : c.Inv status out ∧ acts.length + c.due ≤ 4 * out.length + 11 + 2 * c.interrupts := by
    refine foldlM_option_run (Q := fun acts c =>
      c.Inv status out ∧ acts.length + c.due ≤ 4 * out.length + 11 + 2 * c.interrupts)
      ⟨inv_start status out, by simp [due, childLeft, Phase.left]⟩ ?_ h
    rintro acts a c₁ c₂ ⟨hinv, hle⟩ hs
    refine ⟨hinv.step hs, ?_⟩
    have hdue := hinv.step_due hs
    rw [List.length_append, List.length_singleton]
    omega
  omega

theorem lanShow_ends : ∃ c, exec 16 0 lanShow (lanReads.take 10) = some c ∧ c.phase ≠ .returned ∧
    (lanReads.take 10).length ≤ 4 * lanShow.length + 11 + 2 * c.interrupts ∧
    ∃ a : Capture.Act, a.calm = true ∧ (c.step 16 0 a).isSome = true := by
  have h := @dbLoadLive_ends 16 0 lanShow (lanReads.take 10) _ rfl
  have hne : Phase.read ≠ Phase.returned := by simp
  exact ⟨_, rfl, hne, h.1, h.2 hne⟩

end Main

end Netrec
