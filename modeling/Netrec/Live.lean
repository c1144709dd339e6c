import Netrec.Netlink.Describe
import Netrec.Resolv
import Netrec.Run

/-!
# A run on a live system

`load_real` takes a snapshot from a netlink socket and from `/etc/resolv.conf`. On a system whose
kernel answers, the snapshot is the state of that system, so the value that a run returns is a
statement about the system and not about the messages it has received: a dry run returns zero
exactly if every desired state is met, and an apply that returns zero has seen all of them met, at
the first look or at the second. A system that outgrows the tables is refused at either look. The
name servers of a system are those that the loader meets in its `resolv.conf`, which it reads in
pieces of 255 bytes; they are those of its lines where no line is broken by that.

## Main definitions

* `loadReal`: the source's function
* `ConfOf`: the `resolv.conf` of a system with given name servers
* `Sees`: a snapshot that was taken of a system
* `DesiredState.Met`: a desired state that a system is in

## Main results

* `loadReal_answers`: what `load_real` returns on a live system
* `stateDiff_eq_zero_iff`: the verifier counts no difference exactly for a state that is met
* `netrecRunOnce_live`: what the value of a run says about the system
-/

namespace Netrec

open CLib

/-! ## Taking a snapshot -/

/-- `load_real`: nothing while a dump still waits for messages. The tables are given up when one of
the two parts fails. -/
def loadReal (sock : NlSocket) (conf : Option CStr) : Option (Except Int RealState) :=
  match nlLoadState sock with
  | .waiting _ => none
  | .returned rc rs =>
    if rc ≠ 0 then some (.error rc)
    else
      let (rc, rs) := rsLoadResolvConf rs conf
      if rc ≠ 0 then some (.error rc) else some (.ok rs)

/-- A `resolv.conf` without `NUL` bytes in whose pieces the given name servers are met, or no
file. -/
def ConfOf (dns : List UInt32) : Option CStr → Prop
  | none => dns = []
  | some text => '\x00' ∉ text ∧ metServers (text.splitOn '\n') = dns

/-- The state of a system fits the tables of a snapshot. -/
def Kernel.Sized (k : Kernel) : Prop := k.snapshot.Fits ∧ k.dns.length ≤ NR_DNS4_MAX

/-- Where no line is broken, the name servers are those of the lines. -/
theorem confOf_servers {text : CStr} (hn : '\x00' ∉ text)
    (h : ∀ l ∈ text.splitOn '\n', Unbroken l) : ConfOf (servers text) (some text) := by
  refine ⟨hn, ?_⟩
  rw [metServers, servers, List.filterMap_eq_flatMap_toList]
  exact List.flatMap_congr h

/-- **The name servers of a system.** -/
theorem rsLoadResolvConf_confOf {dns : List UInt32} {conf : Option CStr} (h : ConfOf dns conf)
    (rs : RealState) :
    (dns.length ≤ NR_DNS4_MAX → rsLoadResolvConf rs conf = (0, { rs with dns4 := dns })) ∧
      (¬ dns.length ≤ NR_DNS4_MAX →
        (rsLoadResolvConf rs conf).1 = -(Errno.ENOSPC.code : Int)) := by
  cases conf with
  | none =>
    obtain rfl : dns = [] := h
    exact ⟨fun _ => rfl, fun hno => absurd (Nat.zero_le _) hno⟩
  | some text =>
    obtain ⟨hn, rfl⟩ := h
    rw [rsLoadResolvConf_eq rs hn]
    exact ⟨fun hle => if_pos hle, fun hno => by rw [if_neg hno]⟩

/-- **The snapshot of a live system**, which is refused when it does not fit the tables. -/
theorem loadReal_answers {sock : NlSocket} {conf : Option CStr} {k : Kernel} (h : Answers sock k)
    (hconf : ConfOf k.dns conf) :
    (k.Sized → loadReal sock conf = some (.ok k.snapshot)) ∧
      (¬ k.Sized → loadReal sock conf = some (.error (-(Errno.ENOSPC.code : Int)))) := by
  have hends := h.ends
  have hfits : ({ k.snapshot with dns4 := [] } : RealState).Fits ↔ k.snapshot.Fits :=
    ⟨fun hf => ⟨hf.ifaces, hf.addr4, hf.route4, hf.vxlan, hf.vlan⟩,
      fun hf => ⟨hf.ifaces, hf.addr4, hf.route4, hf.vxlan, hf.vlan⟩⟩
  obtain ⟨hfew, hmany⟩ := rsLoadResolvConf_confOf hconf { k.snapshot with dns4 := [] }
  unfold loadReal Kernel.Sized
  by_cases hf : k.snapshot.Fits
  · rw [hends.fits (hfits.mpr hf)]
    simp only [ne_eq, not_true_eq_false, if_false, hf, true_and]
    refine ⟨fun hdns => ?_, fun hdns => ?_⟩
    · rw [hfew hdns]
      simp [Kernel.snapshot]
    · rw [hmany hdns, if_pos (by decide)]
  · obtain ⟨rs, hrs⟩ := DumpEnd.exists_of_rc (hends.full (mt hfits.mp hf))
    rw [hrs]
    exact ⟨fun hs => absurd hs.1 hf, fun _ => if_pos (by decide)⟩

/-- A snapshot, or the failure to take one, of a system in a given state. -/
def Sees (real : Except Int RealState) (k : Kernel) : Prop :=
  ∃ sock conf, Answers sock k ∧ ConfOf k.dns conf ∧ loadReal sock conf = some real

theorem Sees.eq_ok {real : Except Int RealState} {k : Kernel} (h : Sees real k) (hk : k.Sized) :
    real = .ok k.snapshot := by
  obtain ⟨sock, conf, hans, hconf, hreal⟩ := h
  exact Option.some.inj (hreal.symm.trans ((loadReal_answers hans hconf).1 hk))

theorem Sees.eq_error {real : Except Int RealState} {k : Kernel} (h : Sees real k)
    (hk : ¬ k.Sized) : real = .error (-(Errno.ENOSPC.code : Int)) := by
  obtain ⟨sock, conf, hans, hconf, hreal⟩ := h
  exact Option.some.inj (hreal.symm.trans ((loadReal_answers hans hconf).2 hk))

/-! ## What is met -/

/-- The system is in the desired state: the scenario is known, and the system is as it and the
routes say. -/
def DesiredState.Met (ds : DesiredState) (rs : RealState) : Prop :=
  ∃ scn, Scenario.ofName ds.scenario = some scn ∧ Conforms ds rs scn ∧
    ∀ rt ∈ ds.routes.val, RouteOk rs rt

/-- **No difference** is counted exactly for a state that is met. -/
theorem stateDiff_eq_zero_iff {ds : DesiredState} {rs : RealState} (hc : PosIndexes rs) :
    stateDiff ds rs = 0 ↔ ds.Met rs := by
  unfold stateDiff DesiredState.Met
  cases hs : Scenario.ofName ds.scenario with
  | none => simp
  | some scn =>
    have hvalue := @verifyScenario_value_eq_zero ds rs hc scn
    simp only [Int.natCast_eq_zero, hvalue, Option.some.injEq, exists_eq_left']

/-- The differences of a set sum up to zero exactly if all its states are met. -/
theorem sum_stateDiff_eq_zero_iff {l : List DesiredState} {rs : RealState} (hc : PosIndexes rs) :
    0 ≤ (l.map fun ds => stateDiff ds rs).sum ∧
      ((l.map fun ds => stateDiff ds rs).sum = 0 ↔ ∀ ds ∈ l, ds.Met rs) := by
  induction l with
  | nil => simp
  | cons ds l ih =>
    obtain ⟨hnn, hiff⟩ := ih
    have hd := stateDiff_nonneg ds rs
    rw [List.map_cons, List.sum_cons, List.forall_mem_cons, ← hiff, ← stateDiff_eq_zero_iff hc]
    omega

/-- A verification without applying leaves no failure behind. -/
theorem verifySet_actFail_dry (rs : RealState) (l : List DesiredState) (diff : Int) (sys : Sys) :
    (verifySet rs false l diff false sys).2.1 = false := by
  induction l generalizing diff sys with
  | nil => rfl
  | cons ds l ih =>
    obtain ⟨-, haf, -⟩ := verifyState_spec ds rs false false sys
    have hfail : (verifyState ds rs false false sys).2.1 = false := by
      rw [haf]
      split_ifs <;> rfl
    simp only [verifySet, hfail]
    split_ifs
    · rfl
    · exact ih _ _

/-! ## What a run says -/

section Run

variable {set : DesiredSet} {k₁ k₂ : Kernel} {env : RunEnv}

/-- **A dry run** returns zero exactly if the system is in every desired state, and else one. -/
theorem runSet_dry_live (h₁ : env.real₁ = .ok k₁.snapshot) (sys : Sys) :
    ((runSet set false env sys).1 = 0 ↔ ∀ ds ∈ set.val, ds.Met k₁.snapshot) ∧
      ((runSet set false env sys).1 = 0 ∨ (runSet set false env sys).1 = 1) := by
  obtain ⟨hnn, hiff⟩ := @sum_stateDiff_eq_zero_iff set.val _ k₁.posIndexes_snapshot
  have hdiff := (verifySet_spec k₁.snapshot false set.val 0 false sys).1
  rw [Int.zero_add] at hdiff
  rw [← hiff]
  simp only [runSet, h₁, runVerifySet, Bool.false_eq_true, if_false, hdiff]
  split_ifs <;> omega

/-- **The second look**, at a system that fits the tables or not. -/
theorem postVerify_live (h₂ : Sees env.real₂ k₂) (sys : Sys) :
    (k₂.Sized → ((postVerify set env false sys).1 = 0 ↔ ∀ ds ∈ set.val, ds.Met k₂.snapshot) ∧
      ((postVerify set env false sys).1 = 0 ∨ (postVerify set env false sys).1 = 1)) ∧
    (¬ k₂.Sized → (postVerify set env false sys).1 = -(Errno.ENOSPC.code : Int)) := by
  refine ⟨fun hk₂ => ?_, fun hk₂ => ?_⟩
  · obtain ⟨hnn, hiff⟩ := @sum_stateDiff_eq_zero_iff set.val _ k₂.posIndexes_snapshot
    have hdiff := (verifySet_spec k₂.snapshot false set.val 0 false (sys.print .postVerify)).1
    have hfail := verifySet_actFail_dry k₂.snapshot set.val 0 (sys.print .postVerify)
    rw [Int.zero_add] at hdiff
    rw [← hiff]
    simp only [postVerify, h₂.eq_ok hk₂, runVerifySet, hdiff, hfail, Bool.false_eq_true, or_false]
    split_ifs <;> omega
  · have hneg : -(Errno.ENOSPC.code : Int) < 0 := by decide
    simp only [postVerify, h₂.eq_error hk₂, runVerifySet, if_pos hneg]

/-- **The first look of an apply that got the lock**: a failure in the last state ends it, no
difference ends it, and otherwise the second look decides. -/
theorem runSet_apply_cases (hlock : env.lock = .ok ()) (h₁ : env.real₁ = .ok k₁.snapshot)
    (sys : Sys) :
    (LastFails set.val k₁.snapshot sys → (runSet set true env sys).1 = 1) ∧
    (¬ LastFails set.val k₁.snapshot sys →
      ((∀ ds ∈ set.val, ds.Met k₁.snapshot) → (runSet set true env sys).1 = 0) ∧
      ((¬ ∀ ds ∈ set.val, ds.Met k₁.snapshot) →
        ∃ sys', (runSet set true env sys).1 = (postVerify set env false sys').1)) := by
  obtain ⟨hnn, hiff⟩ := @sum_stateDiff_eq_zero_iff set.val _ k₁.posIndexes_snapshot
  have hdiff := (verifySet_spec k₁.snapshot true set.val 0 false sys).1
  have hfail := verifySet_actFail_iff k₁.snapshot set.val 0 false sys
  rw [Int.zero_add] at hdiff
  simp only [Bool.false_eq_true, false_and, or_false] at hfail
  rw [← hiff, ← hfail]
  simp only [runSet, hlock, h₁, runVerifySet, if_true, hdiff]
  refine ⟨fun hf => ?_, fun hf => ⟨fun hz => ?_, fun hz => ?_⟩⟩
  · rw [if_pos (.inr hf), if_neg (not_lt.mpr hnn)]
  · rw [if_neg (by simp [hf, hz]), if_pos hz]
  · refine ⟨(verifySet k₁.snapshot true set.val 0 false sys).2.2, ?_⟩
    rw [if_neg (not_or.mpr ⟨not_lt.mpr hnn, hf⟩), if_neg hz, Bool.eq_false_iff.mpr hf]

/-- **An apply that got the lock** returns zero exactly if no command of the last state has failed
and the system was in every desired state at the first look or at the second, `-ENOSPC` exactly if
the system had outgrown the tables when the second look was due, and else one. -/
theorem runSet_apply_live (hlock : env.lock = .ok ()) (h₁ : env.real₁ = .ok k₁.snapshot)
    (h₂ : Sees env.real₂ k₂) (sys : Sys) :
    ((runSet set true env sys).1 = 0 ↔ ¬ LastFails set.val k₁.snapshot sys ∧
      ((∀ ds ∈ set.val, ds.Met k₁.snapshot) ∨
        (k₂.Sized ∧ ∀ ds ∈ set.val, ds.Met k₂.snapshot))) ∧
    ((runSet set true env sys).1 = -(Errno.ENOSPC.code : Int) ↔
      ¬ LastFails set.val k₁.snapshot sys ∧ (¬ ∀ ds ∈ set.val, ds.Met k₁.snapshot) ∧ ¬ k₂.Sized) ∧
    ((runSet set true env sys).1 = 0 ∨ (runSet set true env sys).1 = 1 ∨
      (runSet set true env sys).1 = -(Errno.ENOSPC.code : Int)) := by
  have hcode : -(Errno.ENOSPC.code : Int) = -28 := rfl
  obtain ⟨hfails, hgoes⟩ := @runSet_apply_cases set k₁ env hlock h₁ sys
  by_cases hf : LastFails set.val k₁.snapshot sys
  · simp [hfails hf, hf, hcode]
  obtain ⟨hmet, hlook⟩ := hgoes hf
  -- nothing to do at the first look: there is no second one
  by_cases hm : ∀ ds ∈ set.val, ds.Met k₁.snapshot
  · rw [hmet hm, hcode]
    exact ⟨⟨fun _ => ⟨hf, .inl hm⟩, fun _ => rfl⟩, ⟨by simp, fun h => absurd hm h.2.1⟩, .inl rfl⟩
  -- the value is that of the second look
  obtain ⟨sys', hpost⟩ := hlook hm
  rw [hpost]
  obtain ⟨hsized, hfull⟩ := @postVerify_live set k₂ env h₂ sys'
  by_cases hk₂ : k₂.Sized
  · obtain ⟨hzero, hrc⟩ := hsized hk₂
    refine ⟨⟨fun h => ⟨hf, .inr ⟨hk₂, hzero.mp h⟩⟩, fun h => hzero.mpr (h.2.resolve_left hm).2⟩,
      ⟨fun h => ?_, fun h => absurd hk₂ h.2.2⟩, hrc.imp_right .inl⟩
    omega
  · rw [hfull hk₂, hcode]
    exact ⟨⟨by simp, fun h => absurd (h.2.resolve_left hm).1 hk₂⟩, ⟨fun _ => ⟨hf, hm, hk₂⟩,
      fun _ => rfl⟩, .inr (.inr rfl)⟩

/-- **What the value of a run says about the system.** A dry run returns zero exactly if every
desired state is met, and else one. An apply that gets the lock returns zero exactly if no command
of the last state has failed and every desired state was met when it looked first or when it looked
again, at a system that still fits the tables; so zero is never returned for a system on which a
desired state was not met at any look. It returns `-ENOSPC` exactly if a second look was due and the
system had outgrown the tables. A system that does not fit them at first is refused before anything
is executed, and so is an apply that does not get the lock. -/
theorem netrecRunOnce_live {cfg : RunCfg} (hset : loadDesiredSet cfg = .ok set)
    (h₁ : Sees env.real₁ k₁) (sys : Sys) :
    (cfg.apply = false → k₁.Sized →
      ((netrecRunOnce cfg env sys).1 = 0 ↔ ∀ ds ∈ set.val, ds.Met k₁.snapshot) ∧
      ((netrecRunOnce cfg env sys).1 = 0 ∨ (netrecRunOnce cfg env sys).1 = 1)) ∧
    (cfg.apply = true → env.lock = .ok () → k₁.Sized → ∀ k₂, Sees env.real₂ k₂ →
      ((netrecRunOnce cfg env sys).1 = 0 ↔ ¬ LastFails set.val k₁.snapshot sys ∧
        ((∀ ds ∈ set.val, ds.Met k₁.snapshot) ∨
          (k₂.Sized ∧ ∀ ds ∈ set.val, ds.Met k₂.snapshot))) ∧
      ((netrecRunOnce cfg env sys).1 = -(Errno.ENOSPC.code : Int) ↔
        ¬ LastFails set.val k₁.snapshot sys ∧ (¬ ∀ ds ∈ set.val, ds.Met k₁.snapshot) ∧
          ¬ k₂.Sized) ∧
      ((netrecRunOnce cfg env sys).1 = 0 ∨ (netrecRunOnce cfg env sys).1 = 1 ∨
        (netrecRunOnce cfg env sys).1 = -(Errno.ENOSPC.code : Int))) ∧
    (¬ k₁.Sized → (cfg.apply = true → env.lock = .ok ()) →
      netrecRunOnce cfg env sys = (-(Errno.ENOSPC.code : Int), sys)) ∧
    (cfg.apply = true → ∀ e, env.lock = .error e →
      netrecRunOnce cfg env sys = (-(e.code : Int), sys)) := by
  rw [netrecRunOnce, hset]
  refine ⟨fun ha hk₁ => ?_, fun ha hlock hk₁ k₂ h₂ => ?_, fun hk₁ hlock => ?_, fun ha e hlock => ?_⟩
  · simp only [ha]
    exact runSet_dry_live (h₁.eq_ok hk₁) sys
  · simp only [ha]
    exact runSet_apply_live hlock (h₁.eq_ok hk₁) h₂ sys
  · have hreal := h₁.eq_error hk₁
    have hneg : -(Errno.ENOSPC.code : Int) < 0 := by decide
    cases ha : cfg.apply with
    | false =>
      simp only [runSet, hreal, runVerifySet, Bool.false_eq_true, if_false]
      rw [if_neg (by omega)]
    | true => simp only [runSet, hreal, runVerifySet, hlock ha, hneg, if_true, true_or]
  · simp only [ha, runSet, hlock, if_true]

end Run

/-- A configuration that wants the card of `smallKernel` up. -/
def cardCfg : RunCfg where
  source := "yaml".toList
  yaml := some (.ok (unlines ["scenario = only_uplink", "uplink.ifname = eth0"]))
  network := .file (.error .ENOENT)
  wireless := .file (.error .ENOENT)
  apply := true

/-- A run that looks at it twice. -/
def cardEnv : RunEnv := ⟨.ok (), .ok smallKernel.snapshot, .ok smallKernel.snapshot⟩

/-- A `resolv.conf` without a name server. -/
def noServers : CStr := unlines ["# none", "search lan"]

theorem cardCfg_live : ∃ set, loadDesiredSet cardCfg = .ok set ∧ smallKernel.Sized ∧
    Sees cardEnv.real₁ smallKernel ∧
    ((netrecRunOnce cardCfg cardEnv (.exiting 0)).1 = 0 ↔
      ¬ LastFails set.val smallKernel.snapshot (.exiting 0) ∧
        ((∀ ds ∈ set.val, ds.Met smallKernel.snapshot) ∨
          (smallKernel.Sized ∧ ∀ ds ∈ set.val, ds.Met smallKernel.snapshot))) := by
  have hload : (loadDesiredSet cardCfg).toOption.isSome := by decide +kernel
  have hsized : smallKernel.Sized :=
    ⟨by constructor <;> decide +kernel, by decide⟩
  have hshort : (noServers.splitOn '\n').all fun l => l.length ≤ 255 := by decide
  have hconf : ConfOf smallKernel.dns (some noServers) :=
    confOf_servers (by decide) fun l hl =>
      unbroken_of_length_le (of_decide_eq_true (List.all_eq_true.mp hshort l hl))
  have hsees : Sees cardEnv.real₁ smallKernel :=
    ⟨smallSocket, some noServers, smallSocket_answers, hconf,
      (loadReal_answers smallSocket_answers hconf).1 hsized⟩
  cases hset : loadDesiredSet cardCfg with
  | error e => simp [hset, Except.toOption] at hload
  | ok set =>
    exact ⟨set, rfl, hsized, hsees,
      ((netrecRunOnce_live hset hsees (.exiting 0)).2.1 rfl rfl hsized smallKernel hsees).1⟩

end Netrec
