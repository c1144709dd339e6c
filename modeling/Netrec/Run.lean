import Netrec.Uci.Serialize
import Netrec.Verify.Checks

/-!
# One run

A run loads the desired states, takes the lock when it is to apply changes, verifies every state
against one snapshot and, after commands have been executed, verifies once more against a second
snapshot. What the kernel, the lock and the executed children do are parameters. A run is described
by the commands it plans: which of them are executed, with which results, and what that means for
the value it returns.

## Main definitions

* `runVerifySet`, `runSet`, `netrecRunOnce`: the source's functions
* `Cmd.argv`: the argument vector a command is executed with, if it can be executed
* `execRcs`: the results of the commands of a plan
* `setPlan`: the commands of a set over a snapshot
* `printed`, `Line.cmd?`: the lines a call prints, and the command of an `ACT` line

## Main results

* `replay_spec`: what a list of events does in either mode
* `verifySet_spec`: what the loop over the states does
* `runSet_reports_failure_iff`: when a failed command is reported
* `runVerifySet_executes`: applying executes what a dry run prints
-/

namespace Netrec

open CLib

/-! ## The source's functions -/

/-- The loop of `run_verify_set`: `diff` and `*act_fail` so far. -/
def verifySet (rs : RealState) (apply : Bool) :
    List DesiredState → Int → Bool → Sys → Int × Bool × Sys
  | [], diff, actFail, sys => (diff, actFail, sys)
  | ds :: rest, diff, actFail, sys =>
    let (rc, actFail, sys) := verifyState ds rs apply actFail sys
    if rc < 0 then (rc, actFail, sys) else verifySet rs apply rest (diff + rc) actFail sys

/-- `run_verify_set`: its value, `*act_fail` and the surroundings; `real` is the outcome of
`load_real`. -/
def runVerifySet (real : Except Int RealState) (set : DesiredSet) (apply actFail : Bool)
    (sys : Sys) : Int × Bool × Sys :=
  match real with
  | .error rc => (rc, actFail, sys)
  | .ok rs => verifySet rs apply set.val 0 false sys

/-- What a run meets: the outcome of `apply_lock` and of the two calls of `load_real`. -/
structure RunEnv where
  lock : Except Errno Unit
  real₁ : Except Int RealState
  real₂ : Except Int RealState

/-- `netrec_run_once` after the second snapshot is due. -/
def postVerify (set : DesiredSet) (env : RunEnv) (actFail : Bool) (sys : Sys) : Int × Sys :=
  let (diff, actFail, sys) := runVerifySet env.real₂ set false actFail (sys.print .postVerify)
  if diff < 0 then (diff, sys)
  else if diff ≠ 0 ∨ actFail then (1, sys)
  else (0, sys)

/-- `netrec_run_once` with a loaded set. -/
def runSet (set : DesiredSet) (apply : Bool) (env : RunEnv) (sys : Sys) : Int × Sys :=
  if apply then
    match env.lock with
    | .error e => (-e.code, sys)
    | .ok () =>
      let (diff, actFail, sys) := runVerifySet env.real₁ set true false sys
      if diff < 0 ∨ actFail then (if diff < 0 then diff else 1, sys)
      else if diff = 0 then (0, sys)
      else postVerify set env actFail sys
  else
    let (diff, _, sys) := runVerifySet env.real₁ set false false sys
    (if diff > 0 then 1 else diff, sys)

/-- `struct netrec_run_cfg`: the source, the files its paths name and the mode; `yaml` is `none`
without a `cfg_path`. -/
structure RunCfg where
  source : CStr
  yaml : Option (Except Errno CStr)
  network : UciSource
  wireless : UciSource
  apply : Bool

/-- `load_desired_set`. -/
def loadDesiredSet (cfg : RunCfg) : Except Errno DesiredSet :=
  if cfg.source = "yaml".toList then
    match cfg.yaml with
    | none => .error .EINVAL
    | some file => file >>= yamlLoadDesiredSet
  else if cfg.source = "uci".toList then uciLoadDesiredSet cfg.network cfg.wireless
  else .error .EINVAL

/-- `netrec_run_once`. -/
def netrecRunOnce (cfg : RunCfg) (env : RunEnv) (sys : Sys) : Int × Sys :=
  match loadDesiredSet cfg with
  | .error e => (-e.code, sys)
  | .ok set => runSet set cfg.apply env sys

/-! ## Executing commands -/

/-- The argument vector a command is executed with: its words, of which there must be between one
and 31. -/
def Cmd.argv (c : Cmd) : Option (List CStr) :=
  if words c.text ≠ [] ∧ (words c.text).length < 32 then some (words c.text) else none

/-- What `cmd_exec` returns for a command that cannot be executed. -/
def Cmd.splitError (c : Cmd) : Int :=
  if words c.text = [] then -Errno.EINVAL.code else -Errno.E2BIG.code

/-- The commands of a plan that `act` hands to `cmd_exec`, with what it returns, after `n` calls of
`fork`. -/
def execRcs (children : Nat → Child) : Nat → List Cmd → List (Cmd × Int)
  | _, [] => []
  | n, c :: cs =>
    if c.IsComment then execRcs children n cs
    else if c.argv.isSome then (c, (children n).rc) :: execRcs children (n + 1) cs
    else (c, c.splitError) :: execRcs children n cs

/-- The argument vectors of the commands of a plan that are executed. -/
def executed (cs : List Cmd) : List (List CStr) :=
  (cs.filter fun c => ¬ c.IsComment).filterMap Cmd.argv

/-- The command of an `ACT` line. -/
def Line.cmd? : Line → Option Cmd
  | .act c => some c
  | _ => none

/-- An `APPLY_FAIL` or `APPLY_OK` line. -/
def Line.isResult : Line → Bool
  | .applyFail _ _ | .applyOk _ => true
  | _ => false

/-- What `act` prints for a command after executing it. -/
def resultLine (r : Cmd × Int) : Line :=
  if r.2 ≠ 0 then .applyFail r.2 r.1.text else .applyOk r.1.text

theorem Cmd.splitError_ne_zero (c : Cmd) : c.splitError ≠ 0 := by
  unfold Cmd.splitError
  split <;> decide

theorem cmdExec_text {c : Cmd} (hc : ¬ c.IsComment) (sys : Sys) :
    cmdExec c.text sys =
      match c.argv with
      | some argv => ((sys.children sys.forks.length).rc, { sys with forks := sys.forks ++ [argv] })
      | none => (c.splitError, sys) := by
  have htake : c.text.take 255 = c.text := by simp [Cmd.text]
  have hhead : ¬ c.text.head? = some '#' := hc
  unfold cmdExec cmdSplit Cmd.argv Cmd.splitError
  rw [if_neg hhead, htake]
  by_cases hlen : (words c.text).length + 1 > 32
  · have hne : words c.text ≠ [] := by
      intro h
      simp [h] at hlen
    have hnot : ¬ (words c.text ≠ [] ∧ (words c.text).length < 32) := by
      rintro ⟨-, h⟩
      omega
    simp only [if_pos hlen, if_neg hnot, if_neg hne]
  · simp only [if_neg hlen]
    cases hw : words c.text with
    | nil => simp
    | cons w ws =>
      have hlt : (w :: ws).length < 32 := by
        rw [← hw]
        omega
      simp only [ne_eq, reduceCtorEq, not_false_eq_true, hlt, and_self, if_true]

theorem execRcs_append (children : Nat → Child) (n : Nat) (cs cs' : List Cmd) :
    execRcs children n (cs ++ cs') =
      execRcs children n cs ++ execRcs children (n + (executed cs).length) cs' := by
  induction cs generalizing n with
  | nil => rfl
  | cons c cs ih =>
    simp only [List.cons_append, execRcs]
    by_cases hc : c.IsComment
    · simp [hc, ih, executed]
    · cases ha : c.argv with
      | none => simp [hc, ha, ih, executed]
      | some argv =>
        have hlen : (executed (c :: cs)).length = (executed cs).length + 1 := by
          simp [executed, hc, ha]
        simp only [hc, if_false, Option.isSome_some, if_true, ih, List.cons_append, hlen]
        rw [Nat.add_assoc, Nat.add_comm 1]

/-- A command that cannot be split gets its error. -/
theorem mem_execRcs_of_argv_none {children : Nat → Child} {n : Nat} {cs : List Cmd} {c : Cmd}
    (hmem : c ∈ cs) (hc : ¬ c.IsComment) (ha : c.argv = none) :
    (c, c.splitError) ∈ execRcs children n cs := by
  obtain ⟨cs₁, cs₂, rfl⟩ := List.append_of_mem hmem
  rw [execRcs_append, execRcs, if_neg hc, ha]
  exact List.mem_append_right _ List.mem_cons_self

/-- Some command of the plan fails, after `n` calls of `fork`. -/
def anyFails (children : Nat → Child) (n : Nat) (cs : List Cmd) : Bool :=
  (execRcs children n cs).any fun r => r.2 ≠ 0

theorem executed_append (cs cs' : List Cmd) : executed (cs ++ cs') = executed cs ++ executed cs' := by
  simp [executed]

theorem anyFails_append (children : Nat → Child) (n : Nat) (cs cs' : List Cmd) :
    anyFails children n (cs ++ cs') =
      (anyFails children n cs || anyFails children (n + (executed cs).length) cs') := by
  simp [anyFails, execRcs_append]

/-- What planning the commands `cs` does to the surroundings: in either mode they are printed, and
when changes are to be applied they are executed and their results printed. -/
structure Planned (apply : Bool) (cs : List Cmd) (sys sys' : Sys) : Prop where
  children : sys'.children = sys.children
  forks : sys'.forks = sys.forks ++ if apply then executed cs else []
  out : ∃ lines, sys'.out = sys.out ++ lines ∧ lines.filterMap Line.cmd? = cs ∧
    lines.filter Line.isResult =
      if apply then (execRcs sys.children sys.forks.length cs).map resultLine else []

theorem Planned.nil (apply : Bool) (sys : Sys) : Planned apply [] sys sys where
  children := rfl
  forks := by simp [executed]
  out := ⟨[], by simp [execRcs]⟩

theorem Planned.print (apply : Bool) (sys : Sys) {l : Line} (hl : l.cmd? = none)
    (hr : l.isResult = false) : Planned apply [] sys (sys.print l) where
  children := rfl
  forks := by simp [executed, Sys.print]
  out := ⟨[l], rfl, by simp [hl], by simp [hr, execRcs]⟩

theorem Planned.length_forks {cs : List Cmd} {sys sys' : Sys} (h : Planned true cs sys sys') :
    sys'.forks.length = sys.forks.length + (executed cs).length := by
  simp [h.forks]

theorem Planned.trans {apply : Bool} {cs cs' : List Cmd} {sys sys' sys'' : Sys}
    (h : Planned apply cs sys sys') (h' : Planned apply cs' sys' sys'') :
    Planned apply (cs ++ cs') sys sys'' where
  children := h'.children.trans h.children
  forks := by
    rw [h'.forks, h.forks, executed_append]
    cases apply <;> simp
  out := by
    obtain ⟨lines, ho, hc, hr⟩ := h.out
    obtain ⟨lines', ho', hc', hr'⟩ := h'.out
    refine ⟨lines ++ lines', by rw [ho', ho, List.append_assoc], by simp [hc, hc'], ?_⟩
    rw [List.filter_append, hr, hr']
    cases apply with
    | false => rfl
    | true =>
      simp only [if_true]
      rw [h.children, h.length_forks, ← List.map_append, ← execRcs_append]

theorem act_of_skip {ctx : VCtx} {c : Cmd} (h : !ctx.apply ∨ c.IsComment) :
    ctx.act c = ctx.print (.act c) :=
  if_pos h

theorem act_of_exec {ctx : VCtx} {c : Cmd} (ha : ctx.apply = true) (hc : ¬ c.IsComment) :
    ctx.act c =
      let (rc, sys) := cmdExec c.text (ctx.sys.print (.act c))
      if rc ≠ 0 then { ctx with actFail := true, sys := sys.print (.applyFail rc c.text) }
      else { ctx with sys := sys.print (.applyOk c.text) } :=
  if_neg (by simpa [VCtx.print, ha] using hc)

/-- The effect of `act`. -/
theorem act_spec (ctx : VCtx) (c : Cmd) :
    (ctx.act c).apply = ctx.apply ∧ Planned ctx.apply [c] ctx.sys (ctx.act c).sys ∧
      (ctx.act c).actFail = (ctx.actFail ||
        (ctx.apply && anyFails ctx.sys.children ctx.sys.forks.length [c])) := by
  by_cases hskip : !ctx.apply ∨ c.IsComment
  · rw [act_of_skip hskip]
    refine ⟨rfl, ⟨rfl, ?_, [.act c], rfl, rfl, ?_⟩, ?_⟩
    · rcases hskip with h | h <;> simp_all [VCtx.print, Sys.print, executed]
    · rcases hskip with h | h <;> simp_all [Line.isResult, execRcs]
    · rcases hskip with h | h <;> simp_all [VCtx.print, anyFails, execRcs]
  · obtain ⟨ha, hc⟩ : ctx.apply = true ∧ ¬ c.IsComment := by simpa using hskip
    rw [act_of_exec ha hc, cmdExec_text hc]
    cases hargv : c.argv with
    | none =>
      have hexec : executed [c] = [] := by simp [executed, hc, hargv]
      have hfail : anyFails ctx.sys.children ctx.sys.forks.length [c] = true := by
        simp [anyFails, execRcs, hc, hargv, c.splitError_ne_zero]
      simp only [c.splitError_ne_zero, ne_eq, not_false_eq_true, if_true, hfail, ha, Bool.and_self,
        Bool.or_true, and_true, true_and]
      refine ⟨rfl, by simp [Sys.print, hexec],
        [.act c, .applyFail c.splitError c.text], by simp [Sys.print], rfl, ?_⟩
      simp [Line.isResult, execRcs, hc, hargv, resultLine, c.splitError_ne_zero]
    | some argv =>
      have hexec : executed [c] = [argv] := by simp [executed, hc, hargv]
      have hfail : anyFails ctx.sys.children ctx.sys.forks.length [c] =
          decide ((ctx.sys.children ctx.sys.forks.length).rc ≠ 0) := by
        simp [anyFails, execRcs, hc, hargv]
      rw [hfail]
      by_cases hrc : (ctx.sys.children ctx.sys.forks.length).rc = 0
      · simp only [Sys.print, hrc, ne_eq, not_true_eq_false, if_false, ha, decide_false,
          Bool.and_false, Bool.or_false, and_true, true_and]
        refine ⟨rfl, by simp [hexec], [.act c, .applyOk c.text], by simp, rfl, ?_⟩
        simp [Line.isResult, execRcs, hc, hargv, resultLine, hrc]
      · simp only [Sys.print, hrc, ne_eq, not_false_eq_true, if_true, ha, decide_true,
          Bool.and_self, Bool.or_true, and_true, true_and]
        refine ⟨rfl, by simp [hexec],
          [.act c, .applyFail (ctx.sys.children ctx.sys.forks.length).rc c.text], by simp, rfl, ?_⟩
        simp [Line.isResult, execRcs, hc, hargv, resultLine, hrc]

/-- The commands of a list of events. -/
def cmds (log : List Event) : List Cmd :=
  log.filterMap fun
    | .act c => some c
    | _ => none

theorem cmds_cons (e : Event) (log : List Event) : cmds (e :: log) = cmds [e] ++ cmds log := by
  cases e <;> rfl

theorem event_spec (e : Event) (ctx : VCtx) :
    (e.run ctx).apply = ctx.apply ∧ Planned ctx.apply (cmds [e]) ctx.sys (e.run ctx).sys ∧
      (e.run ctx).actFail = (ctx.actFail ||
        (ctx.apply && anyFails ctx.sys.children ctx.sys.forks.length (cmds [e]))) := by
  cases e with
  | ok text =>
    exact ⟨rfl, .print _ _ rfl rfl, by simp [Event.run, VCtx.print, cmds, anyFails, execRcs]⟩
  | miss text =>
    exact ⟨rfl, .print _ _ rfl rfl, by simp [Event.run, VCtx.print, cmds, anyFails, execRcs]⟩
  | act c => exact act_spec ctx c

/-- **What a list of events does**, in either mode. -/
theorem replay_spec (log : List Event) (ctx : VCtx) :
    Planned ctx.apply (cmds log) ctx.sys (replay log ctx).sys ∧
      (replay log ctx).actFail = (ctx.actFail ||
        (ctx.apply && anyFails ctx.sys.children ctx.sys.forks.length (cmds log))) := by
  induction log generalizing ctx with
  | nil => exact ⟨.nil _ _, by simp [cmds, anyFails, execRcs]⟩
  | cons e log ih =>
    obtain ⟨hp, hf⟩ := ih (e.run ctx)
    obtain ⟨ha₁, hp₁, hf₁⟩ := event_spec e ctx
    rw [ha₁] at hp hf
    rw [replay_cons, cmds_cons]
    refine ⟨hp₁.trans hp, ?_⟩
    rw [hf, hf₁, anyFails_append, hp₁.children]
    cases hap : ctx.apply with
    | false => simp
    | true =>
      rw [hap] at hp₁
      simp [hp₁.length_forks, Bool.or_assoc]

/-! ## Verifying a set -/

/-- The commands of a set over a snapshot. -/
def setPlan (l : List DesiredState) (rs : RealState) : List Cmd := l.flatMap fun ds => plan ds rs

/-- The difference `verify_state` returns. -/
def stateDiff (ds : DesiredState) (rs : RealState) : Int :=
  match Scenario.ofName ds.scenario with
  | none => 1
  | some scn => (verifyScenario ds rs scn).value

theorem stateDiff_nonneg (ds : DesiredState) (rs : RealState) : 0 ≤ stateDiff ds rs := by
  unfold stateDiff
  split
  · decide
  · exact Int.natCast_nonneg _

/-- `verify_state` knows the scenario. -/
def DesiredState.Supported (ds : DesiredState) : Prop := (Scenario.ofName ds.scenario).isSome

instance (ds : DesiredState) : Decidable ds.Supported := inferInstanceAs (Decidable (_ = true))

/-- What `verify_state` returns and does. -/
theorem verifyState_spec (ds : DesiredState) (rs : RealState) (apply actFail : Bool) (sys : Sys) :
    (verifyState ds rs apply actFail sys).1 = stateDiff ds rs ∧
      (verifyState ds rs apply actFail sys).2.1 =
        (if ds.Supported then
          apply && anyFails sys.children sys.forks.length (plan ds rs) else actFail) ∧
      Planned apply (plan ds rs) sys (verifyState ds rs apply actFail sys).2.2 := by
  cases hs : Scenario.ofName ds.scenario with
  | none =>
    have hsup : ¬ ds.Supported := by simp [DesiredState.Supported, hs]
    simp only [verifyState, stateDiff, plan, hs, if_neg hsup, true_and]
    exact .nil _ _
  | some scn =>
    have hsup : ds.Supported := by simp [DesiredState.Supported, hs]
    obtain ⟨hp, hf⟩ := replay_spec (verifyScenario ds rs scn).log { apply, actFail := false, sys }
    rw [Bool.false_or] at hf
    simp only [verifyState, stateDiff, plan, hs, if_pos hsup, (verifyScenario ds rs scn).run_eq,
      true_and]
    exact ⟨hf, hp⟩

/-- What the loop over the states returns and does, `*act_fail` apart. -/
theorem verifySet_spec (rs : RealState) (apply : Bool) (l : List DesiredState) (diff : Int)
    (actFail : Bool) (sys : Sys) :
    (verifySet rs apply l diff actFail sys).1 = diff + (l.map fun ds => stateDiff ds rs).sum ∧
      Planned apply (setPlan l rs) sys (verifySet rs apply l diff actFail sys).2.2 := by
  induction l generalizing diff actFail sys with
  | nil => exact ⟨by simp [verifySet], .nil _ _⟩
  | cons ds l ih =>
    obtain ⟨hrc, -, hp⟩ := verifyState_spec ds rs apply actFail sys
    have hnn : ¬ (verifyState ds rs apply actFail sys).1 < 0 := by
      rw [hrc]
      exact not_lt.mpr (stateDiff_nonneg ds rs)
    obtain ⟨hd, hp'⟩ := ih (diff + (verifyState ds rs apply actFail sys).1)
      (verifyState ds rs apply actFail sys).2.1 (verifyState ds rs apply actFail sys).2.2
    simp only [verifySet, if_neg hnn]
    refine ⟨?_, hp.trans hp'⟩
    rw [hd, hrc, List.map_cons, List.sum_cons, Int.add_assoc]

/-- A command of the last state with a supported scenario fails. -/
def LastFails (l : List DesiredState) (rs : RealState) (sys : Sys) : Prop :=
  ∃ pre ds post, l = pre ++ ds :: post ∧ ds.Supported ∧ (∀ d ∈ post, ¬ d.Supported) ∧
    anyFails sys.children (sys.forks.length + (executed (setPlan pre rs)).length) (plan ds rs)

theorem lastFails_cons {ds : DesiredState} {l : List DesiredState} {rs : RealState}
    {sys sys' : Sys} (h : Planned true (plan ds rs) sys sys') :
    LastFails (ds :: l) rs sys ↔ LastFails l rs sys' ∨ (ds.Supported ∧ (∀ d ∈ l, ¬ d.Supported) ∧
      anyFails sys.children sys.forks.length (plan ds rs)) := by
  constructor
  · rintro ⟨pre, d, post, he, hs, hpost, hf⟩
    cases pre with
    | nil =>
      obtain ⟨rfl, rfl⟩ := List.cons.inj he
      exact .inr ⟨hs, hpost, by simpa [setPlan, executed] using hf⟩
    | cons d' pre =>
      obtain ⟨rfl, rfl⟩ := List.cons.inj he
      refine .inl ⟨pre, d, post, rfl, hs, hpost, ?_⟩
      rw [h.children, h.length_forks, Nat.add_assoc, ← List.length_append, ← executed_append]
      exact hf
  · rintro (⟨pre, d, post, rfl, hs, hpost, hf⟩ | ⟨hs, hl, hf⟩)
    · refine ⟨ds :: pre, d, post, rfl, hs, hpost, ?_⟩
      rw [h.children, h.length_forks, Nat.add_assoc, ← List.length_append,
        ← executed_append] at hf
      exact hf
    · exact ⟨[], ds, l, rfl, hs, hl, by simpa [setPlan, executed] using hf⟩

/-- **What `*act_fail` holds after the loop**: whether a command of the last supported state has
failed. -/
theorem verifySet_actFail_iff (rs : RealState) (l : List DesiredState) (diff : Int)
    (actFail : Bool) (sys : Sys) :
    (verifySet rs true l diff actFail sys).2.1 = true ↔
      LastFails l rs sys ∨ (actFail = true ∧ ∀ d ∈ l, ¬ d.Supported) := by
  induction l generalizing diff actFail sys with
  | nil => simp [verifySet, LastFails]
  | cons ds l ih =>
    obtain ⟨hrc, haf, hp⟩ := verifyState_spec ds rs true actFail sys
    have hnn : ¬ (verifyState ds rs true actFail sys).1 < 0 := by
      rw [hrc]
      exact not_lt.mpr (stateDiff_nonneg ds rs)
    simp only [verifySet, if_neg hnn]
    rw [ih, lastFails_cons hp, haf, List.forall_mem_cons]
    by_cases hs : ds.Supported
    · rw [if_pos hs]
      simp only [hs, Bool.true_and, true_and, not_true_eq_false, false_and, and_false, or_false]
      tauto
    · rw [if_neg hs]
      simp only [hs, false_and, or_false, not_false_eq_true, true_and]

/-! ## Failed commands -/

theorem runRc_ne_zero (diff : Int) : (if diff < 0 then diff else 1) ≠ 0 := by
  split_ifs <;> omega

/-- **Exactly when a failed command is reported**: `run_verify_set` leaves `*act_fail` set, and the
run returns non-zero, after any failure unless all failures are in states before the last supported
one. -/
theorem runSet_reports_failure_iff (set : DesiredSet) (rs : RealState) (real₂ : Except Int RealState)
    (sys : Sys) (actFail : Bool) :
    (anyFails sys.children sys.forks.length (setPlan set.val rs) →
      (runVerifySet (.ok rs) set true actFail sys).2.1 = true ∧
      ∀ cfg, loadDesiredSet cfg = .ok set → cfg.apply = true →
        (netrecRunOnce cfg ⟨.ok (), .ok rs, real₂⟩ sys).1 ≠ 0) ↔
    (¬ anyFails sys.children sys.forks.length (setPlan set.val rs) ∨ LastFails set.val rs sys) := by
  have hiff := verifySet_actFail_iff rs set.val 0 false sys
  simp only [Bool.false_eq_true, false_and, or_false] at hiff
  constructor
  · intro h
    by_cases hf : anyFails sys.children sys.forks.length (setPlan set.val rs)
    · exact .inr (hiff.mp (h hf).1)
    · exact .inl hf
  · intro h hf
    have hlast := h.resolve_left (not_not.mpr hf)
    have haf := hiff.mpr hlast
    refine ⟨haf, fun cfg hcfg ha => ?_⟩
    rw [netrecRunOnce, hcfg]
    simp only [runSet, ha, if_true, runVerifySet, haf, or_true]
    exact runRc_ne_zero _

/-- A state that only wants its uplink up. -/
def uplinkState (ifname : CStr) : DesiredState :=
  { DesiredState.zero with scenario := cpy _ "only_uplink".toList, upIfname := cpy _ ifname }

/-- Two uplinks of which the first is down. -/
def twoUplinks : DesiredSet := ⟨[uplinkState "eth0".toList, uplinkState "eth1".toList], by decide⟩

/-- A snapshot with the two uplinks, the first one up or down. -/
def twoUplinksReal (flags : UInt32) : RealState where
  ifaces :=
    [{ name := cpy _ "eth0".toList, kind := .empty, ifindex := 1, flags, master := 0 },
      { name := cpy _ "eth1".toList, kind := .empty, ifindex := 2, flags := 1, master := 0 }]
  addr4 := []
  route4 := []
  dns4 := []
  vxlan := []
  vlan := []

/-- Surroundings in which every child exits with the given code. -/
def Sys.exiting (code : UInt8) : Sys := ⟨fun _ => .exited code, [], []⟩

theorem twoUplinks_not_reported :
    anyFails (Sys.exiting 2).children 0 (setPlan twoUplinks.val (twoUplinksReal 0)) ∧
      (runVerifySet (.ok (twoUplinksReal 0)) twoUplinks true false (.exiting 2)).2.1 = false ∧
      (runSet twoUplinks true ⟨.ok (), .ok (twoUplinksReal 0), .ok (twoUplinksReal 1)⟩
        (.exiting 2)).1 = 0 := by
  decide +kernel

/-! ## Dry run and apply -/

theorem runVerifySet_planned (real : Except Int RealState) (set : DesiredSet) (apply actFail : Bool)
    (sys : Sys) : ∃ cs, (∀ rs, real = .ok rs → cs = setPlan set.val rs) ∧
      Planned apply cs sys (runVerifySet real set apply actFail sys).2.2 := by
  cases real with
  | error rc => exact ⟨[], by simp, .nil _ _⟩
  | ok rs =>
    refine ⟨setPlan set.val rs, ?_, (verifySet_spec rs apply set.val 0 false sys).2⟩
    rintro _ ⟨⟩
    rfl

/-- The lines that one call prints. -/
def printed (sys sys' : Sys) : List Line := sys'.out.drop sys.out.length

theorem Planned.printed_cmds {apply : Bool} {cs : List Cmd} {sys sys' : Sys}
    (h : Planned apply cs sys sys') : (printed sys sys').filterMap Line.cmd? = cs := by
  obtain ⟨lines, ho, hc, -⟩ := h.out
  rw [printed, ho, List.drop_left, hc]

theorem Planned.printed_results {cs : List Cmd} {sys sys' : Sys} (h : Planned true cs sys sys') :
    (printed sys sys').filter Line.isResult =
      (execRcs sys.children sys.forks.length cs).map resultLine := by
  obtain ⟨lines, ho, -, hr⟩ := h.out
  rw [printed, ho, List.drop_left, hr, if_pos rfl]

theorem Planned.forks_dry {cs : List Cmd} {sys sys' : Sys} (h : Planned false cs sys sys') :
    sys'.forks = sys.forks := by
  simpa using h.forks

theorem postVerify_forks (set : DesiredSet) (env : RunEnv) (actFail : Bool) (sys : Sys) :
    (postVerify set env actFail sys).2.forks = sys.forks := by
  obtain ⟨cs, -, hp⟩ := runVerifySet_planned env.real₂ set false actFail (sys.print .postVerify)
  have hf : (postVerify set env actFail sys).2 =
      (runVerifySet env.real₂ set false actFail (sys.print .postVerify)).2.2 := by
    unfold postVerify
    simp only
    split_ifs <;> rfl
  rw [hf, hp.forks_dry]
  rfl

/-- **Applying executes what a dry run prints.** The commands that an apply executes are the words
of the `ACT` lines a dry run prints over the same snapshot, in order, without comments and without
lines of no word or more than 31, which it reports by `APPLY_FAIL`; both return the same difference.
A dry run executes nothing, and neither does the second pass of an apply. -/
theorem runVerifySet_executes (real : Except Int RealState) (set : DesiredSet)
    (actFail actFail' : Bool) (sys : Sys) :
    (runVerifySet real set true actFail sys).2.2.forks = sys.forks ++ executed
        ((printed sys (runVerifySet real set false actFail' sys).2.2).filterMap Line.cmd?) ∧
      (∀ c ∈ (printed sys (runVerifySet real set false actFail' sys).2.2).filterMap Line.cmd?,
        ¬ c.IsComment → c.argv = none →
        .applyFail c.splitError c.text ∈
          printed sys (runVerifySet real set true actFail sys).2.2) ∧
      (runVerifySet real set true actFail sys).1 = (runVerifySet real set false actFail' sys).1 ∧
      (∀ env, (runSet set false env sys).2.forks = sys.forks) ∧
      ∀ env, env.lock = .ok () → (runSet set true env sys).2.forks =
        (runVerifySet env.real₁ set true false sys).2.2.forks := by
  refine ⟨?_, ?_, ?_, fun env => ?_, fun env hlock => ?_⟩
  · cases real with
    | error rc => simp [runVerifySet, printed, executed]
    | ok rs =>
      have happ := (verifySet_spec rs true set.val 0 false sys).2
      have hdry := (verifySet_spec rs false set.val 0 false sys).2
      rw [runVerifySet, runVerifySet, hdry.printed_cmds, happ.forks, if_pos rfl]
  · cases real with
    | error rc => simp [runVerifySet, printed]
    | ok rs =>
      have happ := (verifySet_spec rs true set.val 0 false sys).2
      have hdry := (verifySet_spec rs false set.val 0 false sys).2
      rw [runVerifySet, hdry.printed_cmds]
      intro c hmem hc ha
      have hres : resultLine (c, c.splitError) ∈
          (printed sys (verifySet rs true set.val 0 false sys).2.2).filter Line.isResult := by
        rw [happ.printed_results]
        exact List.mem_map_of_mem (mem_execRcs_of_argv_none hmem hc ha)
      rw [resultLine, if_pos c.splitError_ne_zero] at hres
      exact List.mem_of_mem_filter hres
  · cases real with
    | error rc => rfl
    | ok rs =>
      rw [runVerifySet, runVerifySet, (verifySet_spec rs true set.val 0 false sys).1,
        (verifySet_spec rs false set.val 0 false sys).1]
  · obtain ⟨cs, -, hp⟩ := runVerifySet_planned env.real₁ set false false sys
    exact hp.forks_dry
  · simp only [runSet, if_true, hlock]
    split_ifs
    · rfl
    · rfl
    · rfl
    · exact postVerify_forks set env _ _

/-- A bridge whose DHCP command has 32 words. -/
def longDhcp : DesiredState :=
  { DesiredState.zero with
    scenario := cpy _ "uplink_bridge".toList
    brName := cpy _ "br0".toList
    brAddrMode := .dhcp
    brDhcpCmd := cpy _ "a a a a a a a a a a a a a a a a a a a a a a a a a a a a a a a a".toList
    upIfname := cpy _ "eth0".toList }

/-- A snapshot in which only the DHCP address is missing. -/
def longDhcpReal : RealState where
  ifaces :=
    [{ name := cpy _ "br0".toList, kind := cpy _ "bridge".toList, ifindex := 1, flags := 1,
       master := 0 },
      { name := cpy _ "eth0".toList, kind := .empty, ifindex := 2, flags := 1, master := 1 }]
  addr4 := []
  route4 := []
  dns4 := []
  vxlan := []
  vlan := []

theorem longDhcp_not_executed :
    ((printed (.exiting 0) (runVerifySet (.ok longDhcpReal) ⟨[longDhcp], by decide⟩ false false
      (.exiting 0)).2.2).filterMap Line.cmd?).map (fun c => decide c.IsComment) = [false] ∧
    (runVerifySet (.ok longDhcpReal) ⟨[longDhcp], by decide⟩ true false
      (.exiting 0)).2.2.forks = [] := by
  decide +kernel

end Netrec
