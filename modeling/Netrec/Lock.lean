import Netrec.CLib.Sections
import Netrec.Run

/-!
# Concurrent runs

Several processes of the program at once, on one system. A run looks at the system, executes
commands on it and looks again; what looking and executing do is a parameter, and both may take many
steps. An apply asks for `/tmp/netrec.lock` before it looks and keeps it until its descriptor is
closed; without the lock it returns at once. A dry run never asks. So the applies of any number of
processes have the effect, and return the values, that they have and return one after the other.

The lock is given back when a process closes its descriptor. The descriptor is closed in executed
commands, so that a command that goes on in the background does not keep it.

## Main definitions

* `execAll`: the children of a run
* `applyProg`, `dryProg`, `runTask`: `netrec_run_once` as steps on a shared system
* `meets`: what an apply meets when nobody disturbs it

## Main results

* `applyProg_run`: an apply as one step is the run of the sequential model
* `netrecRunOnce_serial`: concurrent applies are serial
-/

namespace Netrec

open CLib

/-! ## A run in steps -/

section System

variable {W : Type} (look : Prog W (Except Int RealState)) (exec : List CStr → Prog W Child)

/-- The children that a run forks for these argument vectors, one after the other. -/
def execAll : List (List CStr) → Prog W (List Child)
  | [] => pure []
  | argv :: argvs => do
    let c ← exec argv
    let cs ← execAll argvs
    pure (c :: cs)

/-- The surroundings of a process whose children end like this. -/
def Sys.ending (cs : List Child) : Sys := ⟨fun n => cs.getD n .other, [], []⟩

/-- What an apply executes over a snapshot. -/
def toExecute (set : DesiredSet) : Except Int RealState → List (List CStr)
  | .error _ => []
  | .ok rs => executed (setPlan set.val rs)

/-- `netrec_run_once` with a loaded set, from the lock to the close of its descriptor. -/
def applyProg (set : DesiredSet) : Prog W Int := do
  let real₁ ← look
  let cs ← execAll exec (toExecute set real₁)
  let (diff, actFail, sys) := runVerifySet real₁ set true false (.ending cs)
  if diff < 0 ∨ actFail then pure (if diff < 0 then diff else 1)
  else if diff = 0 then pure 0
  else
    let real₂ ← look
    pure (postVerify set ⟨.ok (), real₁, real₂⟩ actFail sys).1

/-- `netrec_run_once` with a loaded set and without `apply`. -/
def dryProg (set : DesiredSet) : Prog W Int := do
  let real ← look
  pure (runSet set false ⟨.ok (), real, real⟩ (.ending [])).1

/-- `netrec_run_once`: only an apply with a set to apply asks for the lock. -/
def runTask (cfg : RunCfg) : Task W Int :=
  match loadDesiredSet cfg with
  | .error e => ⟨false, pure (-e.code)⟩
  | .ok set => if cfg.apply then ⟨true, applyProg look exec set⟩ else ⟨false, dryProg look set⟩

/-- What an apply meets when nobody disturbs it: the snapshots, the ends of its children, and the
system it leaves. -/
def meets (cfg : RunCfg) (w : W) : RunEnv × Sys × W :=
  let real₁ := (look.run w).1
  let argvs := (loadDesiredSet cfg).toOption.elim [] (toExecute · real₁)
  let (cs, w') := (execAll exec argvs).run w
  (⟨.ok (), real₁, (look.run w').1⟩, .ending cs, w')

/-- The system after these applies have run one after the other. -/
def serially {ι : Type} (cfgs : ι → RunCfg) (w₀ : W) (l : List ι) : W :=
  l.foldl (fun w i => (meets look exec (cfgs i) w).2.2) w₀

variable {look exec}

/-- What an apply with the lock forks. -/
theorem runSet_forks {set : DesiredSet} {env : RunEnv} (hlock : env.lock = .ok ())
    {cs : List Child} :
    (runSet set true env (.ending cs)).2.forks = toExecute set env.real₁ := by
  have hforks : (runVerifySet env.real₁ set true false (.ending cs)).2.2.forks =
      toExecute set env.real₁ := by
    cases hreal : env.real₁ with
    | error rc => rfl
    | ok rs =>
      rw [runVerifySet, (verifySet_spec rs true set.val 0 false _).2.forks, if_pos rfl]
      rfl
  simp only [runSet, hlock, if_true]
  split_ifs
  · exact hforks
  · exact hforks
  · exact hforks
  · rw [postVerify_forks, hforks]

/-- **An apply as one step** is a run of the sequential model, with the snapshots and the children
it meets, and executes what that run executes. -/
theorem applyProg_run (hlook : look.ReadOnly) {cfg : RunCfg} {set : DesiredSet}
    (hset : loadDesiredSet cfg = .ok set) (ha : cfg.apply = true) (w : W) :
    (applyProg look exec set).run w =
        ((netrecRunOnce cfg (meets look exec cfg w).1 (meets look exec cfg w).2.1).1,
          (meets look exec cfg w).2.2) ∧
      (netrecRunOnce cfg (meets look exec cfg w).1 (meets look exec cfg w).2.1).2.forks =
        toExecute set (meets look exec cfg w).1.real₁ := by
  have hmeets : meets look exec cfg w =
      (⟨.ok (), (look.run w).1,
          (look.run ((execAll exec (toExecute set (look.run w).1)).run w).2).1⟩,
        .ending ((execAll exec (toExecute set (look.run w).1)).run w).1,
        ((execAll exec (toExecute set (look.run w).1)).run w).2) := by
    simp [meets, hset, Except.toOption]
  have hrun : netrecRunOnce cfg = runSet set true := by
    funext env sys
    rw [netrecRunOnce, hset, ha]
  rw [hmeets, hrun]
  refine ⟨?_, ?_⟩
  · simp only [applyProg, Prog.run_bind, hlook.run_snd, runSet, if_true]
    split_ifs
    · rfl
    · rfl
    · rfl
    · simp only [Prog.run_bind, hlook.run_snd, Prog.run_pure]
  · rw [runSet_forks rfl]

theorem runTask_exclusive {cfg : RunCfg} (h : (runTask look exec cfg).exclusive = true) :
    ∃ set, loadDesiredSet cfg = .ok set ∧ cfg.apply = true ∧
      (runTask look exec cfg).prog = applyProg look exec set := by
  unfold runTask at h ⊢
  split
  case h_1 e hset => simp [hset] at h
  case h_2 set hset =>
    simp only [hset] at h
    split at h
    case isTrue ha => exact ⟨set, hset, ha, by simp [ha]⟩
    case isFalse => simp at h

theorem runTask_readOnly (hlook : look.ReadOnly) {cfg : RunCfg}
    (h : (runTask look exec cfg).exclusive = false) : (runTask look exec cfg).prog.ReadOnly := by
  unfold runTask at h ⊢
  split
  case h_1 => exact .ret _
  case h_2 set hset =>
    simp only [hset] at h
    split at h
    · simp at h
    · rename_i ha
      simp only [ha]
      exact hlook.bind fun _ => .ret _

/-! ## Several runs at once -/

/-- **Concurrent applies are serial.** Take any number of processes, each with its configuration,
and any schedule of their steps on one system. The applies that get the lock do so once each, and
the system is, whenever nobody has the lock, the one that they leave when they run one after the
other in this order. Each of them returns what the sequential model returns in that order, and
executes the same commands. An apply that does not get the lock has returned an error, and neither
it nor a dry run has changed anything. -/
theorem netrecRunOnce_serial {ι : Type} [DecidableEq ι] (hlook : look.ReadOnly)
    {cfgs : ι → RunCfg} {w₀ : W} {acts : List (Pool.Act ι Int)} {pool : Pool ι W Int}
    (h : Pool.exec (fun i => runTask look exec (cfgs i)) (-Errno.EAGAIN.code) (· < 0) w₀ acts =
      some pool) :
    pool.order.Nodup ∧
    (pool.holder = none → pool.shared = serially look exec cfgs w₀ pool.order) ∧
    (∀ pre i post, pool.order = pre ++ i :: post → pool.holder ≠ some i →
      ∃ env sys w set, meets look exec (cfgs i) (serially look exec cfgs w₀ pre) = (env, sys, w) ∧
        loadDesiredSet (cfgs i) = .ok set ∧
        pool.procs i = .returned (netrecRunOnce (cfgs i) env sys).1 ∧
        (netrecRunOnce (cfgs i) env sys).2.forks = toExecute set env.real₁) ∧
    (∀ i, (runTask look exec (cfgs i)).exclusive = true → i ∉ pool.order →
      pool.procs i = .idle ∨ ∃ rc < 0, pool.procs i = .returned rc) := by
  have hs := Pool.exec_serial (fun i hi => runTask_readOnly hlook hi) h
  have hafter : ∀ l : List ι, (∀ i ∈ l, (runTask look exec (cfgs i)).exclusive = true) →
      Pool.after (fun i => runTask look exec (cfgs i)) w₀ l = serially look exec cfgs w₀ l := by
    intro l hl
    refine List.foldl_ext _ _ _ fun w i hi => ?_
    obtain ⟨set, hset, ha, hprog⟩ := runTask_exclusive (hl i hi)
    rw [hprog, (applyProg_run hlook hset ha w).1]
  refine ⟨hs.nodup, fun hfree => ?_, fun pre i post ho hi => ?_, fun i he hi => ?_⟩
  · rw [hs.free hfree, hafter _ fun i hi => (hs.entered i hi).1]
  · have hmem : ∀ j ∈ pre ++ i :: post, (runTask look exec (cfgs j)).exclusive = true :=
      fun j hj => (hs.entered j (ho ▸ hj)).1
    obtain ⟨set, hset, ha, hprog⟩ := runTask_exclusive (hmem i (by simp))
    have hleft := hs.left pre i post ho hi
    rw [hafter pre fun j hj => hmem j (by simp [hj])] at hleft
    obtain ⟨hrun, hforks⟩ := @applyProg_run _ look exec hlook _ _ hset ha
      (serially look exec cfgs w₀ pre)
    generalize meets look exec (cfgs i) (serially look exec cfgs w₀ pre) = m at hrun hforks
    exact ⟨m.1, m.2.1, m.2.2, set, rfl, hset, by rw [hleft, hprog, hrun], hforks⟩
  · refine (hs.refused i he hi).imp_right ?_
    rintro ⟨rc, hrc, rfl | hneg⟩
    · exact ⟨_, by decide, hrc⟩
    · exact ⟨rc, by simpa using hneg, hrc⟩

end System

/-- A configuration that wants an uplink up. -/
def uplinkCfg (ifname : String) : RunCfg where
  source := "yaml".toList
  yaml := some (.ok ("scenario = only_uplink\nuplink.ifname = ".toList ++ ifname.toList))
  network := .file (.error .ENOENT)
  wireless := .file (.error .ENOENT)
  apply := true

/-- A system whose first uplink is up or down, and on which every command brings it up. -/
def upLook : Prog Bool (Except Int RealState) :=
  .act id fun up => .ret (.ok (twoUplinksReal (if up then 1 else 0)))

/-- Any command. -/
def upExec (_ : List CStr) : Prog Bool Child := .act (fun _ => true) fun _ => .ret (.exited 0)

/-- Three applies. The second starts while the first one has the lock and is refused; the first one
looks, executes a command, looks again and returns; then the third starts, as a repetition of the
second, gets the lock, looks and returns. -/
def threeApplies : List (Pool.Act (Fin 3) Int) :=
  [.start 0, .go 0, .start 1, .go 0, .go 0, .go 0, .start 2, .go 2, .go 2]

/-- Their configurations. -/
def threeCfgs (i : Fin 3) : RunCfg := uplinkCfg (if i = 0 then "eth0" else "eth1")

/-- What is left of the three applies. -/
def threeApplied : Option (Pool (Fin 3) Bool Int) :=
  Pool.exec (fun i => runTask upLook upExec (threeCfgs i)) (-Errno.EAGAIN.code) (· < 0) false
    threeApplies

theorem threeApplies_serial : ∃ pool, threeApplied = some pool ∧ pool.order = [0, 2] ∧
    pool.shared = serially upLook upExec threeCfgs false [0, 2] ∧
    (∃ env sys, pool.procs 0 = .returned (netrecRunOnce (threeCfgs 0) env sys).1) ∧
    (∃ env sys, pool.procs 2 = .returned (netrecRunOnce (threeCfgs 2) env sys).1) ∧
    (pool.procs 1 = .idle ∨ ∃ rc < 0, pool.procs 1 = .returned rc) := by
  have hsome : threeApplied.isSome := by decide +kernel
  have horder : threeApplied.map Pool.order = some [0, 2] := by decide +kernel
  have hholder : threeApplied.map Pool.holder = some none := by decide +kernel
  have hexcl : (runTask upLook upExec (threeCfgs 1)).exclusive = true := by decide +kernel
  obtain ⟨pool, h⟩ := Option.isSome_iff_exists.mp hsome
  rw [h, Option.map_some, Option.some.injEq] at horder hholder
  obtain ⟨-, hfree, hleft, hrefused⟩ :=
    @netrecRunOnce_serial Bool upLook upExec (Fin 3) _ (.act fun _ => .ret _) threeCfgs _ _ _ h
  obtain ⟨env₀, sys₀, -, -, -, -, hret₀, -⟩ := hleft [] 0 [2] horder (by simp [hholder])
  obtain ⟨env₂, sys₂, -, -, -, -, hret₂, -⟩ := hleft [0] 2 [] horder (by simp [hholder])
  exact ⟨pool, h, horder, horder ▸ hfree hholder, ⟨env₀, sys₀, hret₀⟩, ⟨env₂, sys₂, hret₂⟩,
    hrefused 1 hexcl (by simp [horder])⟩

end Netrec
