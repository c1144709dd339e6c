import Netrec.CLib.Chain

/-!
# The watch loop

The loop of `netrec_watch_loop` as one thread, `netrec_watch_stop` as another, and wake-ups from
anywhere, over the wake pipe and the stop flag they share. A schedule is a list of actions, each of
which is one step of a thread. Beside the program's state a history records what the properties of
a schedule are about: the runs started, the wake-ups, and the stop call.

## Main definitions

* `Pc`, `Watch`: the program counter of the loop and the shared state
* `Pc.Armed`: the loop is between a drain and the next start of a run
* `Watch.loop`, `Watch.stopStep`, `Watch.wake`: the steps of the threads
* `Watch.step`, `Watch.exec`: schedules
* `Watch.Inv`: the invariant of all schedules

## Main results

* `Watch.step_inv`, `Watch.exec_inv`: the invariant is kept
* `stop_heeded`: when a stop request is heeded
* `wakes_answered`: wake-ups are answered and runs are accounted for
-/

namespace Netrec

open CLib

/-! ## The threads -/

/-- Where the thread of the loop stands; the first steps set it up. -/
inductive Pc
  | start
  | signals
  | nlmon
  | subscribe
  | firstWake
  | test
  | poll
  | drain
  | drained
  | debounce
  | redrain
  | redrained
  | settled
  | launch
  | running
  | exited
  deriving DecidableEq

/-- The set-up of the loop. -/
def Pc.Setup : Pc → Bool
  | .start | .signals | .nlmon | .subscribe | .firstWake => true
  | _ => false

/-- Between the start of a drain and the start of the run that follows it. -/
def Pc.Armed : Pc → Bool
  | .drain | .drained | .debounce | .redrain | .redrained | .settled | .launch => true
  | _ => false

/-- The thread that calls `netrec_watch_stop`. -/
inductive Stopper
  | idle
  | flagged
  | returned
  deriving DecidableEq

/-- What has happened: the initial wake-up, the runs started, the wake-ups after the initial one, a
wake-up since the last start of a run, a stop flag stored after the loop reset it, and the runs
started since the stop call returned. -/
structure History where
  woken : Bool := false
  runs : Nat := 0
  wakes : Nat := 0
  pending : Bool := false
  late : Bool := false
  runsAfterStop : Nat := 0
  deriving DecidableEq

/-- The state of a `struct netrec_watch` and its threads: the bytes in the wake pipe and the flag
`stop`. -/
structure Watch where
  pc : Pc := .start
  stopper : Stopper := .idle
  stop : Bool := false
  pipe : Nat := 0
  hist : History := {}
  deriving DecidableEq

namespace Watch

/-- The loop goes on. -/
def goto (w : Watch) (pc : Pc) : Watch := { w with pc }

/-- `wake_watch`: a write to a full pipe is dropped. -/
def wake (cap : ℕ+) (w : Watch) : Watch :=
  { w with
    pipe := if w.pipe < cap then w.pipe + 1 else w.pipe
    hist := { w.hist with
      pending := true
      wakes := if w.hist.woken then w.hist.wakes + 1 else w.hist.wakes } }

/-- The initial wake-up. -/
def wakeFirst (cap : ℕ+) (w : Watch) : Watch :=
  let w := w.wake cap
  { w with hist := { w.hist with woken := true } }

/-- One successful `read` of `watch_drain`, of up to 128 bytes. -/
def read (w : Watch) : Watch := { w with pipe := w.pipe - 128 }

/-- The start of `netrec_run_once`. -/
def startRun (w : Watch) : Watch :=
  { w with
    hist := { w.hist with
      runs := w.hist.runs + 1
      pending := false
      runsAfterStop :=
        if w.stopper = .returned then w.hist.runsAfterStop + 1 else w.hist.runsAfterStop } }

/-- One step of `netrec_watch_loop`; `fails` is whether the system call made in it fails. `none`
when the thread is blocked or the step makes no such call. -/
def loop (cap : ℕ+) (w : Watch) (fails : Bool) : Option Watch :=
  match w.pc, fails with
  | .start, false => some { w with pc := .signals, stop := false }
  | .signals, false => some (w.goto .nlmon)
  | .signals, true => some (w.goto .exited)
  | .nlmon, false => some (w.goto .subscribe)
  | .nlmon, true => some (w.goto .exited)
  | .subscribe, false => some (w.goto .firstWake)
  | .subscribe, true => some (w.goto .exited)
  | .firstWake, false => some ((w.wakeFirst cap).goto .test)
  | .test, false => some (w.goto (if w.stop then .exited else .poll))
  -- the poll without a timeout returns only when there is something to read
  | .poll, false => if 0 < w.pipe then some (w.goto .drain) else none
  | .poll, true => some (w.goto .exited)
  | .drain, false =>
    some (if 0 < w.pipe then w.read else w.goto .drained)
  | .drain, true => some (w.goto .drained)
  | .drained, false => some (w.goto (if w.stop then .exited else .debounce))
  | .debounce, false => some (w.goto (if 0 < w.pipe then .redrain else .settled))
  | .debounce, true => some { w with pc := .settled, stop := true }
  | .redrain, false =>
    some (if 0 < w.pipe then w.read else w.goto .redrained)
  | .redrain, true => some (w.goto .redrained)
  | .redrained, false => some (w.goto (if w.stop then .settled else .debounce))
  | .settled, false => some (w.goto (if w.stop then .exited else .launch))
  | .launch, false => some (w.startRun.goto .running)
  | .running, false => some (w.goto .test)
  | _, _ => none

/-- One step of `netrec_watch_stop`: the flag and the wake-up are separate. -/
def stopStep (cap : ℕ+) (w : Watch) : Option Watch :=
  match w.stopper with
  | .idle =>
    some { w with
      stopper := .flagged
      stop := true
      hist := { w.hist with late := w.pc ≠ .start } }
  | .flagged => some { w.wake cap with stopper := .returned }
  | .returned => none

/-- An action of a schedule. -/
inductive Act
  | loop (fails : Bool)
  | stop
  | wake

/-- One action. -/
def step (cap : ℕ+) (w : Watch) : Act → Option Watch
  | .loop fails => w.loop cap fails
  | .stop => w.stopStep cap
  | .wake => some (w.wake cap)

/-- A schedule, from the state `netrec_watch_open` returns. -/
def exec (cap : ℕ+) (acts : List Act) : Option Watch := acts.foldlM (step cap) {}

/-! ## The invariant -/

/-- The runs that can still start without another wake-up. -/
def due (w : Watch) : Nat :=
  match w.pc with
  | .start | .signals | .nlmon | .subscribe | .firstWake => 1
  | .test | .poll | .running => if 0 < w.pipe then 1 else 0
  | .drain | .drained | .debounce | .redrain | .redrained => 1
  | .settled => if w.stop then 0 else if 0 < w.pipe then 2 else 1
  | .launch => if 0 < w.pipe then 2 else 1
  | .exited => 0

/-- What holds in every schedule. -/
structure Inv (w : Watch) : Prop where
  woken : w.hist.woken = true ∨ Pc.Setup w.pc ∨ w.pc = .exited
  due : w.hist.runs + w.due ≤ 1 + w.hist.wakes
  pending : w.pc ≠ .exited → w.hist.pending = true → 0 < w.pipe ∨ Pc.Armed w.pc
  late : w.hist.late = true → w.stop = true ∧ w.pc ≠ .start
  fresh : w.stopper ≠ .returned → w.hist.runsAfterStop = 0
  returned : w.hist.late = true → w.stopper = .returned →
    (w.pc = .poll → 0 < w.pipe) ∧ w.hist.runsAfterStop + (if w.pc = .launch then 1 else 0) ≤ 1

theorem inv_init : Inv {} := by
  constructor <;> simp [Pc.Setup, Watch.due]

theorem wake_pipe (cap : ℕ+) (w : Watch) : 0 < (w.wake cap).pipe := by
  have := cap.pos
  simp only [wake]
  split <;> omega

/-- A wake-up allows at most one more run. -/
theorem wake_due (cap : ℕ+) (w : Watch) : (w.wake cap).due ≤ w.due + 1 := by
  have hpipe := wake_pipe cap w
  simp only [due, hpipe, if_true]
  have hpc : (w.wake cap).pc = w.pc := rfl
  have hstop : (w.wake cap).stop = w.stop := rfl
  rw [hpc, hstop]
  cases w.pc <;> simp only <;> (try split_ifs) <;> omega

theorem wake_due_setup {cap : ℕ+} {w : Watch} (h : Pc.Setup w.pc ∨ w.pc = .exited) :
    (w.wake cap).due = w.due := by
  have hpc : (w.wake cap).pc = w.pc := rfl
  unfold due
  rw [hpc]
  cases hw : w.pc <;> simp_all [Pc.Setup]

theorem wake_inv {cap : ℕ+} {w : Watch} (h : w.Inv) : (w.wake cap).Inv where
  woken := h.woken
  due := by
    have hdue := h.due
    cases hw : w.hist.woken with
    | true =>
      have := wake_due cap w
      simp only [wake, hw, if_true] at this ⊢
      omega
    | false =>
      have := @wake_due_setup cap w (h.woken.resolve_left (by simp [hw]))
      rw [this]
      simpa [wake, hw] using hdue
  pending _ _ := .inl (wake_pipe cap w)
  late := h.late
  fresh := h.fresh
  returned hl hr := ⟨fun _ => wake_pipe cap w, (h.returned hl hr).2⟩

/-- Going on keeps the invariant when no run becomes due, wake-ups stay answered, and a stop request
is seen before the loop waits or starts a run. -/
theorem goto_inv {w : Watch} {pc : Pc} (h : w.Inv) (hpc : w.pc ≠ .exited)
    (hsetup : Pc.Setup w.pc → Pc.Setup pc) (hdue : (w.goto pc).due ≤ w.due)
    (harmed : Pc.Armed w.pc → Pc.Armed pc) (hstop : pc = .poll ∨ pc = .launch → w.stop = false)
    (hstart : pc ≠ .start) : (w.goto pc).Inv where
  woken := h.woken.imp_right fun hw => .inl (hsetup (hw.resolve_right hpc))
  due := le_trans (Nat.add_le_add_left hdue _) h.due
  pending _ hp := (h.pending hpc hp).imp_right harmed
  late hl := ⟨(h.late hl).1, hstart⟩
  fresh := h.fresh
  returned hl hr := by
    have hset : w.stop = true := (h.late hl).1
    have hne : pc ≠ .poll ∧ pc ≠ .launch := by
      constructor <;> rintro rfl <;> simp [hset] at hstop
    have hold := (h.returned hl hr).2
    refine ⟨fun e => absurd e hne.1, ?_⟩
    simp only [goto, hne.2, if_false]
    omega

theorem exit_inv {w : Watch} (h : w.Inv) : (w.goto .exited).Inv where
  woken := .inr (.inr rfl)
  due := le_trans (Nat.add_le_add_left (Nat.zero_le _) _) h.due
  pending hne := absurd rfl hne
  late hl := ⟨(h.late hl).1, by simp [goto]⟩
  fresh := h.fresh
  returned hl hr := by
    have hold := (h.returned hl hr).2
    refine ⟨by simp [goto], ?_⟩
    simp only [goto, reduceCtorEq, if_false]
    omega

/-- Reading from the pipe. -/
theorem read_inv {w : Watch} (h : w.Inv) (hpc : w.pc = .drain ∨ w.pc = .redrain) (n : Nat) :
    ({ w with pipe := n } : Watch).Inv where
  woken := h.woken
  due := by
    have hdue := h.due
    rcases hpc with hpc | hpc <;> simpa [due, hpc] using hdue
  pending _ _ := .inr (by rcases hpc with hpc | hpc <;> simp [hpc, Pc.Armed])
  late := h.late
  fresh := h.fresh
  returned hl hr := ⟨by rcases hpc with hpc | hpc <;> simp [hpc], (h.returned hl hr).2⟩

theorem reset_inv {w : Watch} (h : w.Inv) (hpc : w.pc = .start) :
    ({ w with pc := .signals, stop := false } : Watch).Inv where
  woken := .inr (.inl rfl)
  due := by simpa [due, hpc] using h.due
  pending _ hp := (h.pending (by simp [hpc]) hp).imp_right (by simp [hpc, Pc.Armed])
  late hl := absurd hpc (h.late hl).2
  fresh := h.fresh
  returned hl := absurd hpc (h.late hl).2

theorem debounce_error_inv {w : Watch} (h : w.Inv) (hpc : w.pc = .debounce) :
    ({ w with pc := .settled, stop := true } : Watch).Inv where
  woken := h.woken.imp_right (by simp [hpc, Pc.Setup])
  due := by
    have hdue := h.due
    simp only [due, hpc, if_true] at hdue ⊢
    omega
  pending _ _ := .inr rfl
  late hl := ⟨rfl, by simp⟩
  fresh := h.fresh
  returned hl hr := by
    have hold := (h.returned hl hr).2
    exact ⟨by simp, by simpa [hpc] using hold⟩

theorem wakeFirst_inv {cap : ℕ+} {w : Watch} (h : w.Inv) (hpc : w.pc = .firstWake) :
    ((w.wakeFirst cap).goto .test).Inv where
  woken := .inl rfl
  due := by
    have hdue := (@wake_inv cap w h).due
    have hpc' : (w.wake cap).pc = .firstWake := hpc
    simp only [due, hpc'] at hdue
    simpa only [due, goto, wakeFirst, wake_pipe cap w, if_true] using hdue
  pending _ _ := .inl (wake_pipe cap w)
  late hl := ⟨(h.late hl).1, by simp [goto]⟩
  fresh := h.fresh
  returned hl hr := by
    have hold := (h.returned hl hr).2
    exact ⟨by simp [goto], by simpa [goto, wakeFirst, wake, hpc] using hold⟩

theorem startRun_inv {w : Watch} (h : w.Inv) (hpc : w.pc = .launch) :
    (w.startRun.goto .running).Inv where
  woken := h.woken.imp_right (by simp [hpc, Pc.Setup])
  due := by
    have hdue := h.due
    by_cases hp : 0 < w.pipe
    all_goals
      simp only [due, hpc, hp, if_true, if_false] at hdue
      simp only [due, goto, startRun, hp, if_true, if_false]
      omega
  pending _ hp := by simp [goto, startRun] at hp
  late hl := ⟨(h.late hl).1, by simp [goto]⟩
  fresh hr := by
    have hr' : w.stopper ≠ .returned := hr
    simpa [goto, startRun, hr'] using h.fresh hr'
  returned hl hr := by
    have hold := (h.returned hl hr).2
    have hr' : w.stopper = .returned := hr
    refine ⟨by simp [goto], ?_⟩
    simp only [hpc, if_true] at hold
    simpa [goto, startRun, hr'] using hold

/-- **A step of the loop keeps the invariant.** -/
theorem loop_inv {cap : ℕ+} {w w' : Watch} {fails : Bool} (h : w.Inv)
    (hs : w.loop cap fails = some w') : w'.Inv := by
  cases hpc : w.pc <;> cases fails <;>
    simp only [loop, hpc, Option.some.injEq, reduceCtorEq, Option.ite_none_right_eq_some] at hs
  case start.false =>
    subst hs
    exact reset_inv h hpc
  case poll.false =>
    obtain ⟨hp, rfl⟩ := hs
    exact goto_inv h (by simp [hpc]) (by simp [hpc, Pc.Setup]) (by simp [due, goto, hpc, hp])
      (fun _ => rfl) (by simp) (by simp)
  all_goals subst hs
  case firstWake.false => exact wakeFirst_inv h hpc
  case launch.false => exact startRun_inv h hpc
  case debounce.true => exact debounce_error_inv h hpc
  case signals.true | nlmon.true | subscribe.true | poll.true => exact exit_inv h
  case drain.false =>
    split
    · exact read_inv h (.inl hpc) _
    · exact goto_inv h (by simp [hpc]) (by simp [hpc, Pc.Setup]) (by simp [due, goto, hpc])
        (fun _ => rfl) (by simp) (by simp)
  case redrain.false =>
    split
    · exact read_inv h (.inr hpc) _
    · exact goto_inv h (by simp [hpc]) (by simp [hpc, Pc.Setup]) (by simp [due, goto, hpc])
        (fun _ => rfl) (by simp) (by simp)
  case test.false | drained.false | settled.false =>
    split
    · exact exit_inv h
    · rename_i hstop
      exact goto_inv h (by simp [hpc]) (by simp [hpc, Pc.Setup]) (by simp [due, goto, hpc, hstop])
        (by simp [hpc, Pc.Armed]) (by simp [hstop]) (by simp)
  case debounce.false =>
    split
    · exact goto_inv h (by simp [hpc]) (by simp [hpc, Pc.Setup]) (by simp [due, goto, hpc])
        (fun _ => rfl) (by simp) (by simp)
    · rename_i hp
      refine goto_inv h (by simp [hpc]) (by simp [hpc, Pc.Setup]) ?_ (fun _ => rfl) (by simp)
        (by simp)
      simp only [due, goto, hpc, hp, if_false]
      split <;> omega
  case redrained.false =>
    split
    · rename_i hstop
      exact goto_inv h (by simp [hpc]) (by simp [hpc, Pc.Setup]) (by simp [due, goto, hpc, hstop])
        (fun _ => rfl) (by simp) (by simp)
    · exact goto_inv h (by simp [hpc]) (by simp [hpc, Pc.Setup]) (by simp [due, goto, hpc])
        (fun _ => rfl) (by simp) (by simp)
  case running.false =>
    have hdue : (w.goto .test).due = w.due := by
      simp only [due, goto, hpc]
      rfl
    exact goto_inv h (by simp [hpc]) (by simp [hpc, Pc.Setup]) hdue.le (by simp [hpc, Pc.Armed])
      (by simp) (by simp)
  -- the set-up and a failed read
  all_goals
    exact goto_inv h (by simp [hpc]) (by simp [hpc, Pc.Setup]) (by simp [due, goto, hpc])
      (by simp [hpc, Pc.Armed]) (by simp) (by simp)

theorem stopStep_inv {cap : ℕ+} {w w' : Watch} (h : w.Inv) (hs : w.stopStep cap = some w') :
    w'.Inv := by
  unfold stopStep at hs
  cases hst : w.stopper with
  | idle =>
    simp only [hst, Option.some.injEq] at hs
    subst hs
    refine ⟨h.woken, le_trans (Nat.add_le_add_left ?_ _) h.due, h.pending, ?_, ?_, by simp⟩
    · simp only [due]
      cases w.pc <;> simp only [if_true] <;> (try split_ifs) <;> omega
    · intro hl
      exact ⟨rfl, by simpa using hl⟩
    · exact fun _ => h.fresh (by simp [hst])
  | flagged =>
    simp only [hst, Option.some.injEq] at hs
    subst hs
    have hw := @wake_inv cap w h
    have hfresh : (w.wake cap).hist.runsAfterStop = 0 := h.fresh (by simp [hst])
    refine ⟨hw.woken, hw.due, hw.pending, hw.late, by simp, fun _ _ => ⟨fun _ => wake_pipe cap w, ?_⟩⟩
    simp only [hfresh]
    split <;> omega
  | returned => simp [hst] at hs

/-- **Every schedule keeps the invariant.** -/
theorem exec_inv {cap : ℕ+} {acts : List Act} {w : Watch} (h : exec cap acts = some w) : w.Inv := by
  refine foldlM_option_invariant (fun st a st' hst hs => ?_) inv_init h
  cases a with
  | loop fails => exact loop_inv hst hs
  | stop => exact stopStep_inv hst hs
  | wake =>
    cases hs
    exact wake_inv hst

end Watch

/-! ## Stopping -/

/-- **A stop request is heeded** when its flag is stored after the loop has reset it: once
`netrec_watch_stop` has returned, at most one more run starts, and the loop does not wait on an
empty pipe. -/
theorem stop_heeded {cap : ℕ+} {acts : List Watch.Act} {w : Watch}
    (h : Watch.exec cap acts = some w) (hlate : w.hist.late = true)
    (hret : w.stopper = .returned) :
    w.hist.runsAfterStop ≤ 1 ∧ ¬ (w.pc = .poll ∧ w.pipe = 0) := by
  obtain ⟨hpoll, hruns⟩ := (Watch.exec_inv h).returned hlate hret
  refine ⟨by omega, fun ⟨hpc, hpipe⟩ => ?_⟩
  have := hpoll hpc
  omega

/-- The actions of a loop that starts, runs once and waits. -/
def firstRun : List Watch.Act := List.replicate 15 (.loop false)

theorem stop_heeded_waiting : ∃ w, Watch.exec 4 (firstRun ++ [.stop, .stop]) = some w ∧
    w.hist.runsAfterStop ≤ 1 ∧ ¬ (w.pc = .poll ∧ w.pipe = 0) :=
  ⟨_, rfl, @stop_heeded 4 (firstRun ++ [.stop, .stop]) _ rfl rfl rfl⟩

theorem stop_forgotten : ∃ w, Watch.exec 4 (.stop :: .stop :: firstRun) = some w ∧
    w.stopper = .returned ∧ w.hist.late = false ∧ w.stop = false ∧ w.hist.runsAfterStop = 1 ∧
      w.pc = .poll ∧ w.pipe = 0 :=
  ⟨_, rfl, rfl, rfl, rfl, rfl, rfl, rfl⟩

/-! ## Wake-ups -/

/-- **Wake-ups are answered and runs are accounted for.** While the loop has not exited, a wake-up
that no start of a run has followed is still in the pipe, or the loop has begun to drain it and will
start a run; and there are no more runs than wake-ups. -/
theorem wakes_answered {cap : ℕ+} {acts : List Watch.Act} {w : Watch}
    (h : Watch.exec cap acts = some w) :
    (w.pc ≠ .exited → w.hist.pending = true → 0 < w.pipe ∨ Pc.Armed w.pc) ∧
      w.hist.runs ≤ 1 + w.hist.wakes := by
  have hinv := Watch.exec_inv h
  exact ⟨hinv.pending, le_trans (Nat.le_add_right _ _) hinv.due⟩

theorem wakes_answered_waiting : ∃ w, Watch.exec 4 (firstRun ++ [.wake]) = some w ∧
    w.hist.pending = true ∧ 0 < w.pipe ∧ w.hist.runs ≤ 1 + w.hist.wakes := by
  have h := @wakes_answered 4 (firstRun ++ [.wake]) _ rfl
  exact ⟨_, rfl, rfl, (h.1 (by decide) rfl).resolve_right (by decide), h.2⟩

end Netrec
