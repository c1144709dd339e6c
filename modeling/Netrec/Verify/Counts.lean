import Netrec.Run
import Netrec.Verify.Plan

/-!
# Differences, misses and commands

Every check returns a number of differences, prints a `MISS` line for what it misses, and emits
commands. The three are kept in step by hand: numbers are added up, and commands are emitted apart
from the lines. In every check but two a difference comes with a line and with a command; the two
are `check_iface_exists`, whose callers emit the command, and `check_iface_up` of an interface that
is not there, which happens only to a device without an interface.

## Main definitions

* `Verify.misses`: the number of `MISS` lines of a computation
* `InStep`: the differences are the lines, and there are commands when there are differences

## Main results

* `verifyScenario_inStep`: every scenario is in step
* `verifyState_inStep`: what `verify_state` returns and what it prints
-/

namespace Netrec

open CLib

/-! ## Counting lines -/

/-- The event prints a `MISS` line. -/
def Event.isMiss : Event → Bool
  | .miss _ => true
  | _ => false

/-- A `MISS` line. -/
def Line.isMiss : Line → Bool
  | .miss _ => true
  | _ => false

namespace Verify

variable {α β : Type}

/-- The number of `MISS` lines of a computation. -/
def misses (m : Verify α) : Nat := m.log.countP Event.isMiss

@[simp ↓] theorem misses_pure (a : α) : (pure a : Verify α).misses = 0 := rfl

@[simp ↓] theorem misses_bind (m : Verify α) (f : α → Verify β) :
    (m >>= f).misses = m.misses + (f m.value).misses :=
  List.countP_append

@[simp ↓] theorem misses_ite (c : Prop) [Decidable c] (m m' : Verify α) :
    (if c then m else m').misses = if c then m.misses else m'.misses :=
  apply_ite misses c m m'

end Verify

@[simp ↓] theorem misses_ok (fmt : String) (args : List CStr) : (ok fmt args).misses = 0 := rfl

@[simp ↓] theorem misses_miss (fmt : String) (args : List CStr) : (miss fmt args).misses = 1 := rfl

@[simp ↓] theorem misses_act (c : Cmd) : (act c).misses = 0 := rfl

/-! ## Checks in step -/

/-- A computation that finds `diff` differences prints as many `MISS` lines, and emits commands
exactly when there are differences. -/
structure InStep {α : Type} (diff : Nat) (m : Verify α) : Prop where
  misses : m.misses = diff
  acts : m.acts = [] ↔ diff = 0

/-- Nothing is missing. -/
theorem inStep_return : InStep 0 (return 0 : Verify Nat) := ⟨rfl, by simp⟩

theorem inStep_ok (fmt : String) (args : List CStr) :
    InStep 0 (do ok fmt args; return 0 : Verify Nat) := ⟨rfl, by simp⟩

/-- Something is missing, and one command is emitted for it. -/
theorem inStep_miss (fmt : String) (args : List CStr) (c : Cmd) :
    InStep 1 (do miss fmt args; act c; return 1 : Verify Nat) := ⟨rfl, by simp⟩

/-- The differences of a loop add up. -/
theorem sumDiff_inStep {α : Type} {f : α → Verify Nat} {as : List α}
    (h : ∀ a ∈ as, InStep (f a).value (f a)) : InStep (sumDiff f as).value (sumDiff f as) := by
  induction as with
  | nil => exact inStep_return
  | cons a as ih =>
    have ha := h a List.mem_cons_self
    have has := ih fun b hb => h b (List.mem_cons_of_mem _ hb)
    constructor
    · simp [sumDiff, ha.misses, has.misses]
    · simp only [sumDiff, Verify.acts_bind, Verify.acts_pure, Verify.value_bind, Verify.value_pure,
        List.append_eq_nil_iff, ha.acts, has.acts, Nat.add_eq_zero_iff, and_true]

section Checks

variable {ds : DesiredState} {rs : RealState}

theorem checkBridge_inStep : InStep (checkBridge ds rs).value (checkBridge ds rs) := by
  unfold checkBridge
  split
  · split
    · split <;> constructor <;> simp
    · constructor <;> simp
  · constructor <;> simp

theorem checkBridgeAddr_inStep :
    InStep (checkBridgeAddr ds rs).value (checkBridgeAddr ds rs) := by
  unfold checkBridgeAddr
  split
  · exact inStep_return
  · split
    · exact inStep_ok _ _
    · cases substIface 256 ds.brName 0 ds.brDhcpCmd with
      | none => exact inStep_miss _ _ _
      | some cmd => exact inStep_miss _ _ _
  · split
    · exact inStep_miss _ _ _
    · split
      · exact inStep_ok _ _
      · exact inStep_miss _ _ _

theorem checkBridgeGateway_inStep :
    InStep (checkBridgeGateway ds rs).value (checkBridgeGateway ds rs) := by
  unfold checkBridgeGateway
  split
  · exact inStep_return
  · split
    · exact inStep_miss _ _ _
    · split
      · exact inStep_ok _ _
      · exact inStep_miss _ _ _

theorem checkOneDns_inStep {dns : AddrStr} :
    InStep (checkOneDns ds rs dns).value (checkOneDns ds rs dns) := by
  unfold checkOneDns
  split
  · exact inStep_miss _ _ _
  · split
    · exact inStep_ok _ _
    · exact inStep_miss _ _ _

theorem checkWgPeerRoute_inStep :
    InStep (checkWgPeerRoute ds rs).value (checkWgPeerRoute ds rs) := by
  unfold checkWgPeerRoute
  split
  · exact inStep_miss _ _ _
  · split
    · exact inStep_ok _ _
    · exact inStep_miss _ _ _

theorem checkOneRoute_inStep {rt : DesiredRoute4} :
    InStep (checkOneRoute rs rt).value (checkOneRoute rs rt) := by
  unfold checkOneRoute
  split
  · exact inStep_miss _ _ _
  · split
    · exact inStep_miss _ _ _
    · split <;> split
      · exact inStep_ok _ _
      · exact inStep_ok _ _
      · exact inStep_miss _ _ _
      · exact inStep_miss _ _ _

/-- The interface is there: otherwise a difference comes without a command. -/
theorem checkIfaceUp_inStep (name : IfName) {i : Option Iface} (h : i.isSome) :
    InStep (checkIfaceUp name i).value (checkIfaceUp name i) := by
  obtain ⟨i, rfl⟩ := Option.isSome_iff_exists.mp h
  simp only [checkIfaceUp]
  split
  · exact inStep_ok _ _
  · exact inStep_miss _ _ _

theorem checkMaster_inStep {name br : IfName} {i : Option Iface} :
    InStep (checkMaster name i br rs).value (checkMaster name i br rs) := by
  unfold checkMaster
  split
  · exact inStep_return
  · split
    · exact inStep_ok _ _
    · exact inStep_miss _ _ _

theorem verifyOnlyUplink_inStep :
    InStep (verifyOnlyUplink ds rs).value (verifyOnlyUplink ds rs) := by
  cases h : rsFindIface rs ds.upIfname with
  | none => exact ⟨by simp [verifyOnlyUplink, checkIfaceExists, h],
      by simp [verifyOnlyUplink, checkIfaceExists, h]⟩
  | some up =>
    have hup := checkIfaceUp_inStep ds.upIfname (i := some up) rfl
    exact ⟨by simp [verifyOnlyUplink, checkIfaceExists, h, hup.misses],
      by simp [verifyOnlyUplink, checkIfaceExists, h, hup.acts]⟩

theorem checkOnePort_inStep {port : IfName} :
    InStep (checkOnePort ds rs port).value (checkOnePort ds rs port) := by
  cases h : rsFindIface rs port with
  | none => exact ⟨by simp [checkOnePort, checkIfaceExists, h],
      by simp [checkOnePort, checkIfaceExists, h]⟩
  | some i =>
    have hup := checkIfaceUp_inStep port (i := some i) rfl
    have hmaster := @checkMaster_inStep rs port ds.brName (some i)
    exact ⟨by simp [checkOnePort, checkIfaceExists, h, hup.misses, hmaster.misses],
      by simp [checkOnePort, checkIfaceExists, h, hup.acts, hmaster.acts]⟩

theorem verifyBridge_inStep : InStep (verifyBridge ds rs).value (verifyBridge ds rs) := by
  have hbr := @checkBridge_inStep ds rs
  have haddr := @checkBridgeAddr_inStep ds rs
  have hgw := @checkBridgeGateway_inStep ds rs
  have hdns : InStep (checkBridgeDns ds rs).value (checkBridgeDns ds rs) :=
    sumDiff_inStep fun dns _ => checkOneDns_inStep
  constructor
  · simp [verifyBridge, hbr.misses, haddr.misses, hgw.misses, hdns.misses, Nat.add_assoc]
  · simp [verifyBridge, hbr.acts, haddr.acts, hgw.acts, hdns.acts, and_assoc]

theorem checkWg_inStep : InStep (checkWg ds rs).value (checkWg ds rs) := by
  unfold checkWg
  split
  · rename_i wg _
    have hup := checkIfaceUp_inStep ds.wgIfname (i := some wg) rfl
    exact ⟨by simp [hup.misses], by simp [hup.acts]⟩
  · exact inStep_miss _ _ _

theorem checkAttr_misses (good : Bool) (fmt : String) (args : List CStr) :
    (checkAttr good fmt args).misses = (checkAttr good fmt args).value := by
  cases good <;> rfl

theorem actAddVxlan_misses : (actAddVxlan ds).misses = 0 := by
  unfold actAddVxlan
  split <;> rfl

/-- The attributes of a VLAN: it is created again when one of them differs, and only its up flag is
left to differ otherwise. -/
theorem checkVlanAttrs_inStep {i : Option Iface} {v : Option Vlan} (h : v.isSome → i.isSome) :
    InStep (checkVlanAttrs ds rs i v).value.1 (checkVlanAttrs ds rs i v) := by
  unfold checkVlanAttrs
  cases v with
  | none => cases i <;> exact ⟨by simp [actAddVlan], by simp [actAddVlan]⟩
  | some v =>
    have hup := checkIfaceUp_inStep ds.vlanIfname (h rfl)
    by_cases hid : v.id = some ds.vlanId <;>
      cases hlink : (rsFindIface rs ds.vlanLink).any fun link => v.link = some link.ifindex <;>
        constructor <;>
          simp [checkAttr_misses, checkAttr_value, checkAttr_acts, hid, hlink, hup.misses, hup.acts,
            actAddVlan]

theorem checkVxlanDev_misses {vx : Vxlan} :
    (checkVxlanDev ds rs vx).misses = (checkVxlanDev ds rs vx).value := by
  unfold checkVxlanDev
  split
  · rfl
  · exact checkAttr_misses _ _ _

theorem checkVxlanRemote_misses {vx : Vxlan} :
    (checkVxlanRemote ds vx).misses = (checkVxlanRemote ds vx).value.1 := by
  unfold checkVxlanRemote
  split
  · rfl
  · simp [checkAttr_misses]

/-- The attributes of a VXLAN, likewise; a malformed remote address is a difference with a comment
for a command. -/
theorem checkVxlanAttrs_inStep {i : Option Iface} {v : Option Vxlan} (h : v.isSome → i.isSome) :
    InStep (checkVxlanAttrs ds rs i v).value.1 (checkVxlanAttrs ds rs i v) := by
  unfold checkVxlanAttrs
  cases v with
  | none =>
    cases i <;> exact ⟨by simp [actAddVxlan_misses], by simp [actAddVxlan_acts]⟩
  | some v =>
    have hup := checkIfaceUp_inStep ds.vxIfname (h rfl)
    constructor
    · simp only [Verify.misses_bind, Verify.value_bind, misses_ok, checkAttr_misses,
        checkVxlanRemote_misses, checkVxlanDev_misses]
      split <;> simp [actAddVxlan_misses, hup.misses, Nat.add_assoc]
    · unfold checkVxlanRemote
      cases parseIp4 ds.vxRemote with
      | none =>
        by_cases hvni : v.vni = some ds.vxVni <;>
          by_cases hdev : (checkVxlanDev ds rs v).value = 0 <;>
            simp [checkAttr_value, checkAttr_acts, checkVxlanDev_acts, hvni, hdev, actAddVxlan_acts]
      | some remote =>
        by_cases hvni : v.vni = some ds.vxVni <;> by_cases hrem : v.remote = some remote <;>
          by_cases hdev : (checkVxlanDev ds rs v).value = 0 <;>
            simp [checkAttr_value, checkAttr_acts, checkVxlanDev_acts, hvni, hrem, hdev, hup.acts,
              actAddVxlan_acts]

/-! ## Scenarios in step -/

theorem checkBridgePorts_inStep :
    InStep (checkBridgePorts ds rs).value (checkBridgePorts ds rs) :=
  sumDiff_inStep fun _ _ => checkOnePort_inStep

theorem verifyUplinkBridge_inStep :
    InStep (verifyUplinkBridge ds rs).value (verifyUplinkBridge ds rs) := by
  have hbr := @verifyBridge_inStep ds rs
  have hup := @verifyOnlyUplink_inStep ds rs
  have hmaster := @checkMaster_inStep rs ds.upIfname ds.brName (rsFindIface rs ds.upIfname)
  have hports := @checkBridgePorts_inStep ds rs
  constructor
  · simp [verifyUplinkBridge, hbr.misses, hup.misses, hmaster.misses, hports.misses, Nat.add_assoc]
  · simp [verifyUplinkBridge, hbr.acts, hup.acts, hmaster.acts, hports.acts, and_assoc]

theorem verifyVlanBridge_inStep (hc : DevicesListed rs) :
    InStep (verifyVlanBridge ds rs).value (verifyVlanBridge ds rs) := by
  have hbr := @verifyBridge_inStep ds rs
  have hup := @verifyOnlyUplink_inStep ds rs
  have hports := @checkBridgePorts_inStep ds rs
  have hattrs := @checkVlanAttrs_inStep ds rs (rsFindIface rs ds.vlanIfname) _
    hc.rsFindIface_of_vlan
  have hmaster := @checkMaster_inStep rs ds.vlanIfname ds.vlanBridge (rsFindIface rs ds.vlanIfname)
  unfold verifyVlanBridge
  constructor
  · simp only [Verify.misses_bind, Verify.value_bind, hbr.misses, hup.misses, hports.misses,
      hattrs.misses]
    split <;> simp [hmaster.misses, Nat.add_assoc]
  · simp only [Verify.acts_bind, Verify.value_bind, List.append_eq_nil_iff, hbr.acts, hup.acts,
      hports.acts, hattrs.acts]
    split <;> simp [hmaster.acts, and_assoc]

theorem verifyWgVxlanBridge_inStep (hc : DevicesListed rs) :
    InStep (verifyWgVxlanBridge ds rs).value (verifyWgVxlanBridge ds rs) := by
  have hbr := @verifyBridge_inStep ds rs
  have hup : InStep (if ds.upIfname.val ≠ [] then verifyOnlyUplink ds rs else return 0).value
      (if ds.upIfname.val ≠ [] then verifyOnlyUplink ds rs else return 0) := by
    split
    · exact verifyOnlyUplink_inStep
    · exact inStep_return
  have hports := @checkBridgePorts_inStep ds rs
  have hpeer := @checkWgPeerRoute_inStep ds rs
  have hwg := @checkWg_inStep ds rs
  have hattrs := @checkVxlanAttrs_inStep ds rs (rsFindIface rs ds.vxIfname) _
    hc.rsFindIface_of_vxlan
  have hmaster := @checkMaster_inStep rs ds.vxIfname ds.vxBridge (rsFindIface rs ds.vxIfname)
  unfold verifyWgVxlanBridge
  generalize (if ds.upIfname.val ≠ [] then verifyOnlyUplink ds rs else return 0) = up at hup ⊢
  constructor
  · simp only [Verify.misses_bind, Verify.value_bind, hbr.misses, hup.misses, hports.misses,
      hpeer.misses, hwg.misses, hattrs.misses]
    split <;> simp [hmaster.misses, Nat.add_assoc]
  · simp only [Verify.acts_bind, Verify.value_bind, List.append_eq_nil_iff, hbr.acts, hup.acts,
      hports.acts, hpeer.acts, hwg.acts, hattrs.acts]
    split <;> simp [hmaster.acts, and_assoc]

/-- **A scenario is in step.** -/
theorem verifyScenario_inStep (hc : DevicesListed rs) (scn : Scenario) :
    InStep (verifyScenario ds rs scn).value (verifyScenario ds rs scn) := by
  have hscn : InStep (scn.verify ds rs).value (scn.verify ds rs) := by
    cases scn with
    | onlyUplink => exact verifyOnlyUplink_inStep
    | uplinkBridge => exact verifyUplinkBridge_inStep
    | vlanBridge => exact verifyVlanBridge_inStep hc
    | wgVxlanBridge => exact verifyWgVxlanBridge_inStep hc
  have hroutes : InStep (checkRoutes ds rs).value (checkRoutes ds rs) :=
    sumDiff_inStep fun _ _ => checkOneRoute_inStep
  constructor
  · simp [verifyScenario, hscn.misses, hroutes.misses]
  · simp [verifyScenario, hscn.acts, hroutes.acts]

end Checks

/-! ## Printed lines -/

/-- Executing a command prints no `MISS` line. -/
theorem act_misses (ctx : VCtx) (c : Cmd) :
    ∃ lines, (ctx.act c).sys.out = ctx.sys.out ++ lines ∧ lines.countP Line.isMiss = 0 := by
  by_cases hskip : !ctx.apply ∨ c.IsComment
  · rw [act_of_skip hskip]
    exact ⟨[.act c], rfl, rfl⟩
  · obtain ⟨ha, hc⟩ : ctx.apply = true ∧ ¬ c.IsComment := by simpa using hskip
    rw [act_of_exec ha hc, cmdExec_text hc]
    cases c.argv with
    | none =>
      exact ⟨[.act c, .applyFail c.splitError c.text], by simp [c.splitError_ne_zero, Sys.print], rfl⟩
    | some argv =>
      by_cases hrc : (ctx.sys.children ctx.sys.forks.length).rc = 0
      · exact ⟨[.act c, .applyOk c.text], by simp [hrc, Sys.print], rfl⟩
      · exact ⟨[.act c, .applyFail (ctx.sys.children ctx.sys.forks.length).rc c.text],
          by simp [hrc, Sys.print], rfl⟩

theorem event_misses (e : Event) (ctx : VCtx) : ∃ lines,
    (e.run ctx).sys.out = ctx.sys.out ++ lines ∧
      lines.countP Line.isMiss = [e].countP Event.isMiss := by
  cases e with
  | ok text => exact ⟨[.ok text], rfl, rfl⟩
  | miss text => exact ⟨[.miss text], rfl, rfl⟩
  | act c => exact act_misses ctx c

/-- The `MISS` lines that a list of events prints. -/
theorem replay_misses (log : List Event) (ctx : VCtx) : ∃ lines,
    (replay log ctx).sys.out = ctx.sys.out ++ lines ∧
      lines.countP Line.isMiss = log.countP Event.isMiss := by
  induction log generalizing ctx with
  | nil => exact ⟨[], (List.append_nil _).symm, rfl⟩
  | cons e log ih =>
    obtain ⟨lines, hout, hcount⟩ := event_misses e ctx
    obtain ⟨lines', hout', hcount'⟩ := ih (e.run ctx)
    refine ⟨lines ++ lines', ?_, ?_⟩
    · rw [replay_cons, hout', hout, List.append_assoc]
    · rw [List.countP_append, hcount, hcount', ← List.countP_append]
      rfl

/-- **What `verify_state` returns agrees with what it prints.** The number it returns is the number
of `MISS` lines, and it is 0 exactly when no `ACT` line is printed; then no command is executed. -/
theorem verifyState_inStep (ds : DesiredState) (rs : RealState) (scn : Scenario)
    (hs : Scenario.ofName ds.scenario = some scn) (hc : DevicesListed rs) (apply actFail : Bool)
    (sys : Sys) :
    let diff := (verifyState ds rs apply actFail sys).1
    let sys' := (verifyState ds rs apply actFail sys).2.2
    diff = (printed sys sys').countP Line.isMiss ∧
      (diff = 0 ↔ (printed sys sys').filterMap Line.cmd? = []) ∧
      (diff = 0 → sys'.forks = sys.forks) := by
  intro diff sys'
  have hstep := @verifyScenario_inStep ds rs hc scn
  obtain ⟨-, -, hplanned⟩ := verifyState_spec ds rs apply actFail sys
  have hdiff : diff = (verifyScenario ds rs scn).value := verifyState_fst hs apply actFail sys
  have hplan : plan ds rs = (verifyScenario ds rs scn).acts := by simp only [plan, hs]
  have hzero : diff = 0 ↔ plan ds rs = [] := by
    rw [hdiff, hplan, hstep.acts, Int.natCast_eq_zero]
  refine ⟨?_, ?_, fun h => ?_⟩
  · obtain ⟨lines, hout, hcount⟩ :=
      replay_misses (verifyScenario ds rs scn).log { apply, actFail := false, sys }
    have hsys : sys' =
        (replay (verifyScenario ds rs scn).log { apply, actFail := false, sys }).sys := by
      simp only [sys', verifyState, hs, (verifyScenario ds rs scn).run_eq]
    rw [hdiff, printed, hsys, hout, List.drop_left, hcount, ← hstep.misses]
    rfl
  · rw [hplanned.printed_cmds]
    exact hzero
  · rw [hplanned.forks, hzero.mp h]
    cases apply <;> simp [executed]

/-- A snapshot in which the bridge of `vlanState` is down and has no address, and the VLAN is
missing. -/
def bareSnapshot : RealState where
  ifaces := [
    { name := cpy 16 "eth0".toList, kind := .empty, ifindex := 2, flags := 1, master := 0 },
    { name := cpy 16 "br0".toList, kind := cpy 16 "bridge".toList, ifindex := 3, flags := 0,
      master := 0 }]
  addr4 := []
  route4 := []
  dns4 := []
  vxlan := []
  vlan := []

theorem bareSnapshot_inStep :
    (verifyState vlanState bareSnapshot true false (.exiting 1)).1 = 3 ∧
      (printed (.exiting 1) (verifyState vlanState bareSnapshot true false (.exiting 1)).2.2).countP
        Line.isMiss = 3 ∧
      (printed (.exiting 1) (verifyState vlanState bareSnapshot true false
        (.exiting 1)).2.2).filterMap Line.cmd? ≠ [] := by
  have h3 : (verifyState vlanState bareSnapshot true false (.exiting 1)).1 = 3 := by decide
  obtain ⟨hcount, hacts, -⟩ := verifyState_inStep vlanState bareSnapshot .vlanBridge (by decide)
    (by decide) true false (.exiting 1)
  refine ⟨h3, Int.ofNat_inj.mp (hcount.symm.trans h3), fun hnil => ?_⟩
  exact absurd (h3.symm.trans (hacts.mpr hnil)) (by decide)

end Netrec
