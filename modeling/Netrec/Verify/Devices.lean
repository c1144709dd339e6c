import Netrec.Verify.Repair

/-!
# Devices that a plan creates and deletes

Three properties of the commands that create and delete devices. A device that is created should be
set up later in the plan; the WireGuard interface is not. A device is deleted only because of its
kind or of an attribute that cannot be changed, and then it is created again at once. Whether it can
be created again is not looked at before it is deleted: the remote address of a VXLAN may be
malformed, and the parent of a VLAN may be missing.

## Main definitions

* `SetUpLater`: every device that is created is set up later
* `Scenario.Mismatch`: why a device is deleted
* `Recreatable`: a device that is deleted can be created again

## Main results

* `plan_setUpLater_iff`: when a plan sets up the devices it creates
* `plan_linkDel`: a plan deletes a device only to replace it
* `plan_recreatable_iff`: when a plan can create again what it deletes
-/

namespace Netrec

open CLib

variable {ds : DesiredState} {rs : RealState}

/-- Routes create and delete nothing. -/
theorem routes_quiet : ∀ c ∈ ds.routes.val.flatMap (routeActs rs), c.life = none :=
  List.forall_mem_flatMap.mpr fun _ _ c hc => (quiet_routeActs c hc).1

theorem linkDel_notMem_routes {x : IfName} :
    .linkDel x ∉ ds.routes.val.flatMap (routeActs rs) := by
  intro hx
  simpa [Cmd.life] using routes_quiet _ hx

/-! ## Created devices are set up -/

/-- Every device that is created is set up later. -/
def SetUpLater (cs : List Cmd) : Prop :=
  ForallSuffix (fun c rest => ∀ dev ∈ c.creates, .linkUp dev ∈ rest) cs

theorem SetUpLater.append {cs cs' : List Cmd} (h : SetUpLater cs) (h' : SetUpLater cs') :
    SetUpLater (cs ++ cs') :=
  ForallSuffix.append (fun _ _ _ hc dev hdev => List.mem_append_left _ (hc dev hdev)) h h'

theorem setUpLater_of_life {cs : List Cmd} (h : ∀ c ∈ cs, c.life = none) : SetUpLater cs := by
  refine forallSuffix_of_forall fun c hc l dev hdev => ?_
  rw [Cmd.creates_eq_none_of_life (h c hc)] at hdev
  cases hdev

theorem Quiet.setUpLater {dev : IfName} {cs : List Cmd} (h : Quiet rs dev cs) : SetUpLater cs :=
  setUpLater_of_life fun c hc => (h c hc).1

theorem bridgeActs_setUpLater : SetUpLater (bridgeActs ds rs) := by
  unfold bridgeActs
  split
  · simp [SetUpLater, forallSuffix_cons, forallSuffix_nil, Cmd.creates]
  · split
    · exact (@quiet_upActs rs ds.brName ds.brName).setUpLater
    · simp [SetUpLater, forallSuffix_cons, forallSuffix_nil, Cmd.creates]

theorem recreate_setUpLater {old : Bool} {add : Cmd} {dev br : IfName}
    (h : add.creates = some dev) : SetUpLater (recreate old add dev br) := by
  have hdel : (Cmd.linkDel dev).creates = none := rfl
  have hup : (Cmd.linkUp dev).creates = none := rfl
  have hmaster : (Cmd.setMaster dev br).creates = none := rfl
  cases old <;>
    simp [recreate, SetUpLater, forallSuffix_cons, forallSuffix_nil, h, hdel, hup, hmaster]

theorem vlanActs_setUpLater : SetUpLater (vlanActs ds rs) := by
  unfold vlanActs
  split
  · exact (quiet_upActs.append quiet_masterActs).setUpLater
  · exact recreate_setUpLater rfl

theorem vxlanActs_setUpLater : SetUpLater (vxlanActs ds rs) := by
  unfold vxlanActs
  refine (@quiet_vxRemoteActs ds rs ds.vxIfname).setUpLater.append ?_
  split
  · exact (quiet_upActs.append quiet_masterActs).setUpLater
  · exact recreate_setUpLater rfl

/-- The VXLAN is set up when it is created; when it is kept, it exists. -/
theorem linkUp_mem_vxlanActs {dev : IfName} (ha : Absent rs dev) :
    .linkUp dev ∈ vxlanActs ds rs ↔ ds.vxIfname = dev ∧ vxlanKept ds rs = false := by
  have hremote : .linkUp dev ∉ vxRemoteActs ds rs := by
    unfold vxRemoteActs
    split <;> simp
  have hup : .linkUp dev ∉ upActs rs ds.vxIfname := by
    unfold upActs
    split_ifs with h
    · rintro hmem
      obtain rfl := Cmd.linkUp.inj (List.mem_singleton.mp hmem)
      rw [ha] at h
      cases h
    · exact List.not_mem_nil
  have hmaster : .linkUp dev ∉ masterActs rs ds.vxIfname ds.vxBridge := by
    unfold masterActs
    split <;> simp
  have hrecreate : ∀ old, .linkUp dev ∈ recreate old (addVxlanCmd ds) ds.vxIfname ds.vxBridge ↔
      ds.vxIfname = dev := by
    intro old
    cases old <;> simp [recreate, addVxlanCmd, @eq_comm _ dev]
  unfold vxlanActs
  cases vxlanKept ds rs with
  | true => simp [hremote, hup, hmaster]
  | false => simp [hremote, hrecreate]

/-- When a plan sets up the devices it creates: the WireGuard interface exists, or it goes by the
name of the VXLAN, which is created and set up after it. -/
def CreationsSetUp (ds : DesiredState) (rs : RealState) : Scenario → Prop
  | .wgVxlanBridge =>
    Absent rs ds.wgIfname → ds.vxIfname = ds.wgIfname ∧ vxlanKept ds rs = false
  | _ => True

/-- The WireGuard interface is not set up where it is created. -/
theorem wgActs_setUpLater {cs : List Cmd} (hcs : SetUpLater cs) : SetUpLater (wgActs ds rs ++ cs) ↔
    (Absent rs ds.wgIfname → .linkUp ds.wgIfname ∈ cs) := by
  unfold wgActs
  by_cases ha : Absent rs ds.wgIfname
  · have hnone : (rsFindIface rs ds.wgIfname).isNone := Option.isNone_iff_eq_none.mpr ha
    rw [if_pos hnone, SetUpLater, List.singleton_append, forallSuffix_cons]
    simp only [Cmd.creates, Option.mem_some_iff, forall_eq', ha, true_implies]
    exact and_iff_left hcs
  · have hsome : ¬ (rsFindIface rs ds.wgIfname).isNone :=
      fun hnone => ha (Option.isNone_iff_eq_none.mp hnone)
    rw [if_neg hsome]
    have hup := (@quiet_upActs rs ds.wgIfname ds.wgIfname).setUpLater
    exact iff_of_true (hup.append hcs) fun ha' => absurd ha' ha

/-- **When a plan sets up the devices it creates.** -/
theorem plan_setUpLater_iff (ds : DesiredState) (rs : RealState) : SetUpLater (plan ds rs) ↔
    ∀ scn, Scenario.ofName ds.scenario = some scn → CreationsSetUp ds rs scn := by
  have hroutes : SetUpLater (ds.routes.val.flatMap (routeActs rs)) :=
    setUpLater_of_life routes_quiet
  have hbridge : SetUpLater (bridgePart ds rs) :=
    bridgeActs_setUpLater.append quiet_bridgeRest.setUpLater
  have hup : SetUpLater (uplinkActs ds rs) := (@quiet_uplinkActs ds rs ds.upIfname).setUpLater
  have hports := (@quiet_ports ds rs).setUpLater
  cases hs : Scenario.ofName ds.scenario with
  | none => simp [plan_of_unsupported hs, SetUpLater, forallSuffix_nil]
  | some scn =>
    rw [plan_eq hs]
    simp only [Option.some.injEq, forall_eq']
    cases scn with
    | onlyUplink => exact iff_of_true (hup.append hroutes) trivial
    | uplinkBridge =>
      have hmaster := (@quiet_masterActs rs ds.upIfname ds.brName).setUpLater
      exact iff_of_true ((hbridge.append (hup.append (hmaster.append hports))).append hroutes) trivial
    | vlanBridge =>
      exact iff_of_true
        ((hbridge.append (hup.append (hports.append vlanActs_setUpLater))).append hroutes) trivial
    | wgVxlanBridge =>
      have hup' := (@quiet_anyUplink ds rs ds.upIfname).setUpLater
      -- only the commands from the WireGuard interface on matter
      have hbefore := hbridge.append (hup'.append (hports.append
        (@quiet_peerRouteActs ds rs).setUpLater))
      have hafter := (@vxlanActs_setUpLater ds rs).append hroutes
      have hplan : Scenario.acts ds rs .wgVxlanBridge ++ ds.routes.val.flatMap (routeActs rs) =
          (bridgePart ds rs ++ ((if ds.upIfname.val ≠ [] then uplinkActs ds rs else []) ++
            (ds.brPorts.val.flatMap (portActs ds rs) ++ peerRouteActs ds rs))) ++
          (wgActs ds rs ++ (vxlanActs ds rs ++ ds.routes.val.flatMap (routeActs rs))) := by
        simp only [Scenario.acts, List.append_assoc]
      have hroute : ∀ dev, .linkUp dev ∉ ds.routes.val.flatMap (routeActs rs) := by
        intro dev hmem
        obtain ⟨rt, -, hmem⟩ := List.mem_flatMap.mp hmem
        have hne : ∀ c ∈ routeActs rs rt, c ≠ .linkUp dev := by
          apply routeActs_all <;> simp
        exact hne _ hmem rfl
      rw [hplan]
      have hwg : SetUpLater (wgActs ds rs ++
          (vxlanActs ds rs ++ ds.routes.val.flatMap (routeActs rs))) ↔
            CreationsSetUp ds rs .wgVxlanBridge := by
        rw [wgActs_setUpLater hafter]
        refine forall_congr' fun ha => ?_
        simp only [List.mem_append, hroute, or_false, linkUp_mem_vxlanActs ha]
      rw [← hwg]
      exact ⟨fun h => (forallSuffix_append.mp h).2, fun h => hbefore.append h⟩

theorem wgRouteState_not_setUpLater :
    (yamlLoadDesiredSet wgRouteText).map Subtype.val = .ok [wgRouteState] ∧
      .addWireguard wgRouteState.wgIfname ∈ plan wgRouteState .zero ∧
      .linkUp wgRouteState.wgIfname ∉ plan wgRouteState .zero ∧
      ¬ SetUpLater (plan wgRouteState .zero) := by
  have hadd : .addWireguard wgRouteState.wgIfname ∈ plan wgRouteState .zero := by decide +kernel
  have hup : .linkUp wgRouteState.wgIfname ∉ plan wgRouteState .zero := by decide +kernel
  refine ⟨wgRouteText_loaded, hadd, hup, fun h => hup ?_⟩
  obtain ⟨pre, post, hplan⟩ := List.append_of_mem hadd
  have hlater := h pre _ post hplan wgRouteState.wgIfname rfl
  rw [hplan]
  exact List.mem_append_right _ (List.mem_cons_of_mem _ hlater)

/-! ## Deleted devices are replaced -/

/-- Every device that is deleted is created again by the next command. -/
def ReplacedAtOnce (cs : List Cmd) : Prop :=
  ForallSuffix (fun c rest => ∀ x, c = .linkDel x → ∃ add ∈ rest.head?, add.creates = some x) cs

theorem ReplacedAtOnce.append {cs cs' : List Cmd} (h : ReplacedAtOnce cs)
    (h' : ReplacedAtOnce cs') : ReplacedAtOnce (cs ++ cs') := by
  refine ForallSuffix.append (fun c l l' hc x hx => ?_) h h'
  obtain ⟨add, hadd, hcreates⟩ := hc x hx
  exact ⟨add, by rw [List.head?_append, Option.mem_def.mp hadd]; rfl, hcreates⟩

theorem replacedAtOnce_of_life {cs : List Cmd} (h : ∀ c ∈ cs, c.life = none) :
    ReplacedAtOnce cs := by
  rintro l c l' rfl x rfl
  simpa [Cmd.life] using h (.linkDel x) (by simp)

theorem Quiet.replacedAtOnce {dev : IfName} {cs : List Cmd} (h : Quiet rs dev cs) :
    ReplacedAtOnce cs :=
  replacedAtOnce_of_life fun c hc => (h c hc).1

theorem bridgeActs_replacedAtOnce : ReplacedAtOnce (bridgeActs ds rs) := by
  unfold bridgeActs
  split
  · simp [ReplacedAtOnce, forallSuffix_cons, forallSuffix_nil]
  · split
    · exact (@quiet_upActs rs ds.brName ds.brName).replacedAtOnce
    · simp [ReplacedAtOnce, forallSuffix_cons, forallSuffix_nil, Cmd.creates]

theorem recreate_replacedAtOnce {old : Bool} {add : Cmd} {dev br : IfName}
    (h : add.creates = some dev) : ReplacedAtOnce (recreate old add dev br) := by
  have hadd : ∀ x, add ≠ .linkDel x := by
    rintro x rfl
    cases h
  cases old <;> simp [recreate, ReplacedAtOnce, forallSuffix_cons, forallSuffix_nil, h, hadd]

theorem wgActs_replacedAtOnce : ReplacedAtOnce (wgActs ds rs) := by
  unfold wgActs
  split
  · simp [ReplacedAtOnce, forallSuffix_cons, forallSuffix_nil]
  · exact (@quiet_upActs rs ds.wgIfname ds.wgIfname).replacedAtOnce

theorem vlanActs_replacedAtOnce : ReplacedAtOnce (vlanActs ds rs) := by
  unfold vlanActs
  split
  · exact (quiet_upActs.append quiet_masterActs).replacedAtOnce
  · exact recreate_replacedAtOnce rfl

theorem vxlanActs_replacedAtOnce : ReplacedAtOnce (vxlanActs ds rs) := by
  unfold vxlanActs
  refine (@quiet_vxRemoteActs ds rs ds.vxIfname).replacedAtOnce.append ?_
  split
  · exact (quiet_upActs.append quiet_masterActs).replacedAtOnce
  · exact recreate_replacedAtOnce rfl

/-- The name of the VLAN belongs to an interface that is no VLAN, or to a VLAN with another id or
another parent. -/
def VlanMismatch (ds : DesiredState) (rs : RealState) : Prop :=
  (rsFindIface rs ds.vlanIfname).isSome ∧
    ∀ vl, rsFindVlan rs ds.vlanIfname = some vl →
      vl.id ≠ some ds.vlanId ∨
        ∀ link, rsFindIface rs ds.vlanLink = some link → vl.link ≠ some link.ifindex

/-- The name of the VXLAN belongs to an interface that is no VXLAN, or to a VXLAN with another VNI,
another remote address or, if one is configured, another parent. -/
def VxlanMismatch (ds : DesiredState) (rs : RealState) : Prop :=
  (rsFindIface rs ds.vxIfname).isSome ∧
    ∀ vx, rsFindVxlan rs ds.vxIfname = some vx →
      vx.vni ≠ some ds.vxVni ∨
        (∃ remote, parseIp4 ds.vxRemote = some remote ∧ vx.remote ≠ some remote) ∨
        ds.vxDev.val ≠ [] ∧
          ∀ dev, rsFindIface rs ds.vxDev = some dev → vx.link ≠ some dev.ifindex

/-- Why the plan of a scenario deletes `x`: it is the name of the bridge and belongs to another kind
of interface, or it is the name of the VLAN or the VXLAN and belongs to another kind of interface or
to one with another immutable attribute. -/
def Scenario.Mismatch (ds : DesiredState) (rs : RealState) (x : IfName) : Scenario → Prop
  | .onlyUplink => False
  | .uplinkBridge => x = ds.brName ∧ BridgeDeleted ds rs
  | .vlanBridge => x = ds.brName ∧ BridgeDeleted ds rs ∨ x = ds.vlanIfname ∧ VlanMismatch ds rs
  | .wgVxlanBridge => x = ds.brName ∧ BridgeDeleted ds rs ∨ x = ds.vxIfname ∧ VxlanMismatch ds rs

/-- What is deleted exists. -/
theorem Scenario.Mismatch.isSome {scn : Scenario} {x : IfName} (h : scn.Mismatch ds rs x) :
    (rsFindIface rs x).isSome := by
  have hbridge : x = ds.brName ∧ BridgeDeleted ds rs → (rsFindIface rs x).isSome := by
    rintro ⟨rfl, br, hbr, -⟩
    rw [hbr]
    rfl
  cases scn with
  | onlyUplink => cases h
  | uplinkBridge => exact hbridge h
  | vlanBridge =>
    obtain h | ⟨rfl, h, -⟩ := h
    · exact hbridge h
    · exact h
  | wgVxlanBridge =>
    obtain h | ⟨rfl, h, -⟩ := h
    · exact hbridge h
    · exact h

theorem vlanKept_eq_false : vlanKept ds rs = false ↔
    ∀ vl, rsFindVlan rs ds.vlanIfname = some vl → vl.id ≠ some ds.vlanId ∨
      ∀ link, rsFindIface rs ds.vlanLink = some link → vl.link ≠ some link.ifindex := by
  unfold vlanKept
  cases rsFindVlan rs ds.vlanIfname with
  | none => simp
  | some vl =>
    by_cases hid : vl.id = some ds.vlanId <;> cases rsFindIface rs ds.vlanLink <;> simp [hid]

theorem vxlanKept_eq_false : vxlanKept ds rs = false ↔
    ∀ vx, rsFindVxlan rs ds.vxIfname = some vx → vx.vni ≠ some ds.vxVni ∨
      (∃ remote, parseIp4 ds.vxRemote = some remote ∧ vx.remote ≠ some remote) ∨
      ds.vxDev.val ≠ [] ∧
        ∀ dev, rsFindIface rs ds.vxDev = some dev → vx.link ≠ some dev.ifindex := by
  unfold vxlanKept
  cases rsFindVxlan rs ds.vxIfname with
  | none => simp
  | some vx =>
    have hremote : ((parseIp4 ds.vxRemote).all fun remote => vx.remote = some remote) = false ↔
        ∃ remote, parseIp4 ds.vxRemote = some remote ∧ vx.remote ≠ some remote := by
      cases parseIp4 ds.vxRemote <;> simp
    have hdev : (decide (ds.vxDev.val = []) ||
        (rsFindIface rs ds.vxDev).any fun dev => vx.link = some dev.ifindex) = false ↔
        ds.vxDev.val ≠ [] ∧
          ∀ dev, rsFindIface rs ds.vxDev = some dev → vx.link ≠ some dev.ifindex := by
      cases rsFindIface rs ds.vxDev <;> simp
    rw [Option.any_some, Bool.and_eq_false_iff, Bool.and_eq_false_iff, hremote, hdev,
      decide_eq_false_iff_not, or_assoc]
    simp only [Option.some.injEq, forall_eq', ne_eq]

theorem linkDel_mem_bridgeActs {x : IfName} :
    .linkDel x ∈ bridgeActs ds rs ↔ x = ds.brName ∧ BridgeDeleted ds rs := by
  have hup : .linkDel x ∉ upActs rs ds.brName :=
    (@quiet_upActs rs ds.brName ds.brName).linkDel_notMem
  unfold bridgeActs BridgeDeleted
  cases rsFindIface rs ds.brName with
  | none => simp
  | some br => cases hb : br.isBridge <;> simp [hb, hup]

theorem linkDel_mem_recreate {old : Bool} {add : Cmd} {dev br x : IfName}
    (h : add.creates = some dev) :
    .linkDel x ∈ recreate old add dev br ↔ x = dev ∧ old = true := by
  have hadd : .linkDel x ≠ add := by
    rintro rfl
    cases h
  cases old <;> simp [recreate, hadd]

theorem linkDel_mem_vlanActs (hc : DevicesListed rs) {x : IfName} :
    .linkDel x ∈ vlanActs ds rs ↔ x = ds.vlanIfname ∧ VlanMismatch ds rs := by
  have hkept : .linkDel x ∉ upActs rs ds.vlanIfname ++ masterActs rs ds.vlanIfname ds.vlanBridge :=
    (quiet_upActs.append quiet_masterActs).linkDel_notMem
  have hold : ((rsFindIface rs ds.vlanIfname).isSome || (rsFindVlan rs ds.vlanIfname).isSome) =
      (rsFindIface rs ds.vlanIfname).isSome := by
    rw [Bool.or_eq_left_iff_imp]
    exact hc.rsFindIface_of_vlan
  unfold vlanActs VlanMismatch
  rw [← vlanKept_eq_false, hold]
  cases vlanKept ds rs with
  | true => simpa using hkept
  | false => simpa using @linkDel_mem_recreate _ (.addVlan ds.vlanLink ds.vlanIfname ds.vlanId) _ _ x rfl

theorem linkDel_mem_vxlanActs (hc : DevicesListed rs) {x : IfName} :
    .linkDel x ∈ vxlanActs ds rs ↔ x = ds.vxIfname ∧ VxlanMismatch ds rs := by
  have hremote : .linkDel x ∉ vxRemoteActs ds rs :=
    (@quiet_vxRemoteActs ds rs ds.vxIfname).linkDel_notMem
  have hkept : .linkDel x ∉ upActs rs ds.vxIfname ++ masterActs rs ds.vxIfname ds.vxBridge :=
    (quiet_upActs.append quiet_masterActs).linkDel_notMem
  have hold : ((rsFindIface rs ds.vxIfname).isSome || (rsFindVxlan rs ds.vxIfname).isSome) =
      (rsFindIface rs ds.vxIfname).isSome := by
    rw [Bool.or_eq_left_iff_imp]
    exact hc.rsFindIface_of_vxlan
  unfold vxlanActs VxlanMismatch
  rw [← vxlanKept_eq_false, hold, List.mem_append, or_iff_right hremote]
  cases vxlanKept ds rs with
  | true => simpa using hkept
  | false => simpa using @linkDel_mem_recreate _ (addVxlanCmd ds) _ _ x rfl

/-- **A plan deletes a device exactly because of a mismatch.** -/
theorem linkDel_mem_plan {scn : Scenario} (hs : Scenario.ofName ds.scenario = some scn)
    (hc : DevicesListed rs) {x : IfName} : .linkDel x ∈ plan ds rs ↔ scn.Mismatch ds rs x := by
  have hbridge : .linkDel x ∈ bridgePart ds rs ↔ x = ds.brName ∧ BridgeDeleted ds rs := by
    rw [bridgePart_eq, List.mem_append, or_iff_left quiet_bridgeRest.linkDel_notMem]
    exact linkDel_mem_bridgeActs
  have hup : .linkDel x ∉ uplinkActs ds rs :=
    (@quiet_uplinkActs ds rs ds.upIfname).linkDel_notMem
  have hports := (@quiet_ports ds rs).linkDel_notMem (x := x)
  rw [plan_eq hs, List.mem_append, or_iff_left linkDel_notMem_routes]
  cases scn with
  | onlyUplink => exact iff_of_false hup id
  | uplinkBridge =>
    have hmaster : .linkDel x ∉ masterActs rs ds.upIfname ds.brName :=
      quiet_masterActs.linkDel_notMem
    simp only [Scenario.acts, List.mem_append, hup, hmaster, hports, or_false, hbridge]
    rfl
  | vlanBridge =>
    simp only [Scenario.acts, List.mem_append, hup, hports, false_or, hbridge,
      linkDel_mem_vlanActs hc]
    rfl
  | wgVxlanBridge =>
    have hup' := (@quiet_anyUplink ds rs ds.upIfname).linkDel_notMem (x := x)
    have hpeer : .linkDel x ∉ peerRouteActs ds rs := quiet_peerRouteActs.linkDel_notMem
    have hwg : .linkDel x ∉ wgActs ds rs := linkDel_notMem_wgActs
    simp only [Scenario.acts, List.mem_append, hup', hports, hpeer, hwg, false_or, hbridge,
      linkDel_mem_vxlanActs hc]
    rfl

theorem plan_replacedAtOnce {ds : DesiredState} {rs : RealState} :
    ReplacedAtOnce (plan ds rs) := by
  have hroutes : ReplacedAtOnce (ds.routes.val.flatMap (routeActs rs)) :=
    replacedAtOnce_of_life routes_quiet
  have hbridge : ReplacedAtOnce (bridgePart ds rs) :=
    bridgeActs_replacedAtOnce.append quiet_bridgeRest.replacedAtOnce
  have hup : ReplacedAtOnce (uplinkActs ds rs) :=
    (@quiet_uplinkActs ds rs ds.upIfname).replacedAtOnce
  have hports := (@quiet_ports ds rs).replacedAtOnce
  cases hs : Scenario.ofName ds.scenario with
  | none =>
    rw [plan_of_unsupported hs]
    exact forallSuffix_nil
  | some scn =>
    rw [plan_eq hs]
    refine ReplacedAtOnce.append ?_ hroutes
    cases scn with
    | onlyUplink => exact hup
    | uplinkBridge =>
      exact hbridge.append (hup.append (quiet_masterActs.replacedAtOnce.append hports))
    | vlanBridge => exact hbridge.append (hup.append (hports.append vlanActs_replacedAtOnce))
    | wgVxlanBridge =>
      have hup' := (@quiet_anyUplink ds rs ds.upIfname).replacedAtOnce
      exact hbridge.append (hup'.append (hports.append (quiet_peerRouteActs.replacedAtOnce.append
        (wgActs_replacedAtOnce.append vxlanActs_replacedAtOnce))))

/-- **A plan deletes a device only to replace it.** The device exists in the snapshot, its kind or
an immutable attribute differs from what is asked for, and the next command creates it again.
Nothing else plays a part, such as whether it is up, its master, its addresses and its routes. -/
theorem plan_linkDel (ds : DesiredState) (rs : RealState) (scn : Scenario)
    (hs : Scenario.ofName ds.scenario = some scn) (hc : DevicesListed rs) :
    (∀ pre x post, plan ds rs = pre ++ .linkDel x :: post →
      (rsFindIface rs x).isSome ∧ scn.Mismatch ds rs x ∧
        ∃ add post', post = add :: post' ∧ add.creates = some x) ∧
    ∀ x, .linkDel x ∈ plan ds rs ↔ scn.Mismatch ds rs x := by
  refine ⟨fun pre x post h => ?_, fun x => linkDel_mem_plan hs hc⟩
  have hmis : scn.Mismatch ds rs x := (linkDel_mem_plan hs hc).mp (by simp [h])
  refine ⟨hmis.isSome, hmis, ?_⟩
  obtain ⟨add, hadd, hcreates⟩ := plan_replacedAtOnce pre _ post h x rfl
  obtain ⟨post', rfl⟩ := List.head?_eq_some_iff.mp hadd
  exact ⟨add, post', rfl, hcreates⟩

/-- A snapshot in which `vx0` is a VXLAN with the VNI 8. -/
def vx0Snapshot : RealState :=
  { RealState.zero with
    ifaces := [{ name := cpy _ "vx0".toList, kind := cpy _ "vxlan".toList, ifindex := 1, flags := 1,
                 master := 0 }]
    vxlan := [{ ifindex := 1, ifname := cpy _ "vx0".toList, vni := some 8,
                remote := some 0x0a090002, link := none }] }

theorem vx0Snapshot_linkDel :
    .linkDel wgRouteState.vxIfname ∈ plan wgRouteState vx0Snapshot ∧
      Scenario.wgVxlanBridge.Mismatch wgRouteState vx0Snapshot wgRouteState.vxIfname := by
  have hdel : .linkDel wgRouteState.vxIfname ∈ plan wgRouteState vx0Snapshot := by decide +kernel
  have hplan := plan_linkDel wgRouteState vx0Snapshot .wgVxlanBridge (by decide) (by decide)
  exact ⟨hdel, (hplan.2 _).mp hdel⟩

/-! ## Deleted devices can be created again -/

/-- The VXLAN can be created again: its remote address is one, and its parent, if one is configured,
exists or has been created by the commands before. -/
def VxlanRecreatable (ds : DesiredState) (rs : RealState) (before : List Cmd) : Prop :=
  (parseIp4 ds.vxRemote).isSome ∧
    (ds.vxDev.val = [] ∨ ¬ Absent rs ds.vxDev ∨ ds.vxDev ∈ before.filterMap Cmd.creates)

/-- The VLAN can be created again: its parent exists or has been created by the commands before. -/
def VlanRecreatable (ds : DesiredState) (rs : RealState) (before : List Cmd) : Prop :=
  ¬ Absent rs ds.vlanLink ∨ ds.vlanLink ∈ before.filterMap Cmd.creates

/-- The VLAN or VXLAN of a scenario is deleted only where it can be created again. -/
def Scenario.Recreatable (ds : DesiredState) (rs : RealState) (cs : List Cmd) : Scenario → Prop
  | .vlanBridge =>
    ForallPrefix (fun before c => c = .linkDel ds.vlanIfname → VlanRecreatable ds rs before) cs
  | .wgVxlanBridge =>
    ForallPrefix (fun before c => c = .linkDel ds.vxIfname → VxlanRecreatable ds rs before) cs
  | _ => True

section Deletions

variable {dev : IfName} {p : List Cmd → Prop}

theorem forallPrefix_of_notMem {cs : List Cmd} (h : .linkDel dev ∉ cs) :
    ForallPrefix (fun before c => c = .linkDel dev → p before) cs := by
  refine forallPrefix_of_forall fun c hc l heq => ?_
  rw [heq] at hc
  exact absurd hc h

/-- Commands without the deletion do not matter, apart from coming before it. -/
theorem forallPrefix_skip {cs cs' : List Cmd} (h : .linkDel dev ∉ cs) :
    ForallPrefix (fun before c => c = .linkDel dev → p before) (cs ++ cs') ↔
      ForallPrefix (fun before c => c = .linkDel dev → p (cs ++ before)) cs' := by
  rw [forallPrefix_append, and_iff_right (forallPrefix_of_notMem h)]

/-- The bridge is deleted before anything is created. -/
theorem forallPrefix_bridgeActs {cs : List Cmd} :
    ForallPrefix (fun before c => c = .linkDel dev → p before) (bridgeActs ds rs ++ cs) ↔
      (BridgeDeleted ds rs → ds.brName = dev → p []) ∧
        ForallPrefix (fun before c => c = .linkDel dev → p (bridgeActs ds rs ++ before)) cs := by
  rw [forallPrefix_append]
  refine and_congr_left fun _ => ?_
  have hmem := @linkDel_mem_bridgeActs ds rs dev
  by_cases hdel : BridgeDeleted ds rs
  · obtain ⟨br, hbr, hkind⟩ := hdel
    have hacts : bridgeActs ds rs =
        [.linkDel ds.brName, .addBridge ds.brName, .linkUp ds.brName] := by
      simp [bridgeActs, hbr, hkind]
    have hrest : .linkDel dev ∉ [Cmd.addBridge ds.brName, .linkUp ds.brName] := by simp
    rw [hacts, forallPrefix_cons, and_iff_left (forallPrefix_of_notMem hrest)]
    simp only [Cmd.linkDel.injEq]
    exact ⟨fun h _ => h, fun h => h ⟨br, hbr, hkind⟩⟩
  · refine iff_of_true (forallPrefix_of_notMem fun h => hdel (hmem.mp h).2) fun h => absurd h hdel

theorem forallPrefix_recreate {old : Bool} {add : Cmd} {br : IfName} {cs : List Cmd}
    (h : add.creates = some dev) (hcs : .linkDel dev ∉ cs) :
    ForallPrefix (fun before c => c = .linkDel dev → p before) (recreate old add dev br ++ cs) ↔
      (old = true → p []) := by
  have hrest : .linkDel dev ∉ [add, .linkUp dev, .setMaster dev br] ++ cs := by
    intro hmem
    obtain hmem | hmem := List.mem_append.mp hmem
    · exact Bool.false_ne_true ((@linkDel_mem_recreate false add dev br dev h).mp hmem).2
    · exact hcs hmem
  cases old with
  | false => exact iff_of_true (forallPrefix_of_notMem hrest) (by simp)
  | true =>
    have hcons : recreate true add dev br ++ cs =
      .linkDel dev :: ([add, .linkUp dev, .setMaster dev br] ++ cs) := rfl
    rw [hcons, forallPrefix_cons, and_iff_left (forallPrefix_of_notMem hrest)]
    simp

theorem forallPrefix_vlanActs {cs : List Cmd} (hcs : .linkDel ds.vlanIfname ∉ cs) :
    ForallPrefix (fun before c => c = .linkDel ds.vlanIfname → p before) (vlanActs ds rs ++ cs) ↔
      (vlanKept ds rs = false →
        (rsFindIface rs ds.vlanIfname).isSome || (rsFindVlan rs ds.vlanIfname).isSome → p []) := by
  unfold vlanActs
  cases vlanKept ds rs with
  | true =>
    have hkept : .linkDel ds.vlanIfname ∉
        upActs rs ds.vlanIfname ++ masterActs rs ds.vlanIfname ds.vlanBridge :=
      (quiet_upActs.append quiet_masterActs).linkDel_notMem
    refine iff_of_true (forallPrefix_of_notMem fun hmem => ?_) (by simp)
    exact (List.mem_append.mp hmem).elim hkept hcs
  | false =>
    simp only [Bool.false_eq_true, if_false, true_implies]
    exact forallPrefix_recreate rfl hcs

theorem forallPrefix_vxlanActs {cs : List Cmd} (hcs : .linkDel ds.vxIfname ∉ cs) :
    ForallPrefix (fun before c => c = .linkDel ds.vxIfname → p before) (vxlanActs ds rs ++ cs) ↔
      (vxlanKept ds rs = false →
        (rsFindIface rs ds.vxIfname).isSome || (rsFindVxlan rs ds.vxIfname).isSome →
        p (vxRemoteActs ds rs)) := by
  have hremote : .linkDel ds.vxIfname ∉ vxRemoteActs ds rs :=
    (@quiet_vxRemoteActs ds rs ds.vxIfname).linkDel_notMem
  unfold vxlanActs
  rw [List.append_assoc, forallPrefix_skip hremote]
  cases vxlanKept ds rs with
  | true =>
    have hkept : .linkDel ds.vxIfname ∉
        upActs rs ds.vxIfname ++ masterActs rs ds.vxIfname ds.vxBridge :=
      (quiet_upActs.append quiet_masterActs).linkDel_notMem
    refine iff_of_true (forallPrefix_of_notMem fun hmem => ?_) (by simp)
    exact (List.mem_append.mp hmem).elim hkept hcs
  | false =>
    simp only [Bool.false_eq_true, if_false, true_implies]
    rw [forallPrefix_recreate (p := fun before => p (vxRemoteActs ds rs ++ before)) rfl hcs,
      List.append_nil]

end Deletions

theorem mem_bridgeActs_creates {x : IfName} (ha : Absent rs x) :
    x ∈ (bridgeActs ds rs).filterMap Cmd.creates ↔ x = ds.brName := by
  rw [creates_eq_of_life bridgeActs_life, bridgeCreations]
  cases h : rsFindIface rs ds.brName with
  | none => simp
  | some br =>
    have hx : x ≠ ds.brName := by
      rintro rfl
      rw [ha] at h
      cases h
    cases hb : br.isBridge <;> simp [hb, hx]

/-- When the plan of a scenario deletes its VLAN or VXLAN only where it can be created again. If the
bridge goes by the name of the device, the device is deleted before anything is created; otherwise
the bridge and, for a VXLAN, the WireGuard interface have been created. -/
def DeletionsRecreatable (ds : DesiredState) (rs : RealState) : Scenario → Prop
  | .vlanBridge =>
    (BridgeDeleted ds rs → ds.brName = ds.vlanIfname → ¬ Absent rs ds.vlanLink) ∧
    (vlanKept ds rs = false →
      (rsFindIface rs ds.vlanIfname).isSome || (rsFindVlan rs ds.vlanIfname).isSome →
      ¬ Absent rs ds.vlanLink ∨ ds.vlanLink = ds.brName)
  | .wgVxlanBridge =>
    (BridgeDeleted ds rs → ds.brName = ds.vxIfname →
      (parseIp4 ds.vxRemote).isSome ∧ (ds.vxDev.val = [] ∨ ¬ Absent rs ds.vxDev)) ∧
    (vxlanKept ds rs = false →
      (rsFindIface rs ds.vxIfname).isSome || (rsFindVxlan rs ds.vxIfname).isSome →
      (parseIp4 ds.vxRemote).isSome ∧ (ds.vxDev.val = [] ∨ ¬ Absent rs ds.vxDev ∨
        ds.vxDev = ds.brName ∨ ds.vxDev = ds.wgIfname))
  | _ => True

theorem vlanBridge_recreatable :
    Scenario.vlanBridge.Recreatable ds rs (Scenario.acts ds rs .vlanBridge ++
      ds.routes.val.flatMap (routeActs rs)) ↔ DeletionsRecreatable ds rs .vlanBridge := by
  rw [Scenario.Recreatable, acts_vlanBridge, List.append_assoc, List.append_assoc,
    forallPrefix_bridgeActs, forallPrefix_skip quiet_vlanMiddle.linkDel_notMem,
    forallPrefix_vlanActs linkDel_notMem_routes, DeletionsRecreatable]
  refine and_congr (forall₂_congr fun _ _ => ?_) (forall₂_congr fun _ _ => ?_)
  · simp [VlanRecreatable]
  · rw [VlanRecreatable, List.append_nil, List.filterMap_append,
      quiet_vlanMiddle.filterMap_creates, List.append_nil]
    by_cases ha : Absent rs ds.vlanLink
    · rw [mem_bridgeActs_creates ha]
    · exact iff_of_true (.inl ha) (.inl ha)

theorem wgVxlanBridge_recreatable :
    Scenario.wgVxlanBridge.Recreatable ds rs (Scenario.acts ds rs .wgVxlanBridge ++
      ds.routes.val.flatMap (routeActs rs)) ↔ DeletionsRecreatable ds rs .wgVxlanBridge := by
  rw [Scenario.Recreatable, acts_wgVxlanBridge]
  simp only [List.append_assoc _ _ (ds.routes.val.flatMap (routeActs rs))]
  rw [forallPrefix_bridgeActs, forallPrefix_skip quiet_wgMiddle.linkDel_notMem,
    forallPrefix_skip quiet_peerRouteActs.linkDel_notMem,
    forallPrefix_skip linkDel_notMem_wgActs, forallPrefix_vxlanActs linkDel_notMem_routes,
    DeletionsRecreatable]
  refine and_congr (forall₂_congr fun _ _ => ?_) (forall₂_congr fun _ _ => ?_)
  · simp [VxlanRecreatable]
  · rw [VxlanRecreatable, List.filterMap_append, List.filterMap_append,
      quiet_wgMiddle.filterMap_creates, List.filterMap_append, quiet_peerRouteActs.filterMap_creates, List.filterMap_append,
      (@quiet_vxRemoteActs ds rs ds.vxIfname).filterMap_creates, List.append_nil, List.nil_append,
      List.nil_append, List.mem_append, mem_wgActs_creates]
    refine and_congr_right fun _ => or_congr_right ?_
    by_cases ha : Absent rs ds.vxDev
    · rw [mem_bridgeActs_creates ha]
      refine or_congr_right (or_congr_right (and_iff_right_of_imp fun h => ?_))
      rwa [← h]
    · exact iff_of_true (.inl ha) (.inl ha)

/-- **When a plan can create again what it deletes.** -/
theorem plan_recreatable_iff (ds : DesiredState) (rs : RealState) :
    (∀ scn, Scenario.ofName ds.scenario = some scn → scn.Recreatable ds rs (plan ds rs)) ↔
      ∀ scn, Scenario.ofName ds.scenario = some scn → DeletionsRecreatable ds rs scn := by
  refine forall₂_congr fun scn hs => ?_
  rw [plan_eq hs]
  cases scn with
  | onlyUplink => exact Iff.rfl
  | uplinkBridge => exact Iff.rfl
  | vlanBridge => exact vlanBridge_recreatable
  | wgVxlanBridge => exact wgVxlanBridge_recreatable

/-- A VXLAN whose remote address lacks a component. -/
def badRemoteText : CStr := unlines [
  "scenario = wg_vxlan_bridge", "bridge.name = br0", "wg.ifname = wg0", "wg.peer_ip = 10.9.0.2",
  "wg.route_dev = eth0", "vxlan.ifname = vx0", "vxlan.vni = 7", "vxlan.remote = 10.9.2",
  "vxlan.bridge = br0"]

/-- The state that `badRemoteText` describes. -/
def badRemoteState : DesiredState :=
  { wgRouteState with
    wgRouteDev := cpy _ "eth0".toList
    vxRemote := cpy _ "10.9.2".toList }

/-- A VLAN on an uplink. -/
def vlanText : CStr := unlines [
  "scenario = vlan_bridge", "bridge.name = br0", "uplink.ifname = eth0", "vlan.ifname = vl0",
  "vlan.id = 5"]

/-- The state that `vlanText` describes. -/
def vl0State : DesiredState :=
  { DesiredState.zero with
    scenario := cpy _ "vlan_bridge".toList
    brName := cpy _ "br0".toList
    upIfname := cpy _ "eth0".toList
    vlanIfname := cpy _ "vl0".toList
    vlanId := 5
    vlanLink := cpy _ "eth0".toList
    vlanBridge := cpy _ "br0".toList }

/-- A snapshot in which `vl0` is a VLAN, and its parent is not there. -/
def vl0Snapshot : RealState :=
  { RealState.zero with
    ifaces := [{ name := cpy _ "vl0".toList, kind := cpy _ "vlan".toList, ifindex := 1, flags := 1,
                 master := 0 }]
    vlan := [{ ifindex := 1, ifname := cpy _ "vl0".toList, id := some 5, link := some 9 }] }

/-- A VXLAN with another VNI is deleted although its remote address is malformed, and a VLAN is
deleted because its parent is missing. -/
theorem vx0_vl0_not_recreatable :
    ((yamlLoadDesiredSet badRemoteText).map Subtype.val = .ok [badRemoteState] ∧
      (plan badRemoteState vx0Snapshot).map Cmd.text = [
        "ip link add br0 type bridge".toList,
        "ip link set br0 up".toList,
        "ip route replace 10.9.0.2/32 dev eth0".toList,
        "ip link add wg0 type wireguard".toList,
        "# bad yaml vxlan.remote 10.9.2".toList,
        "ip link del vx0".toList,
        "ip link add vx0 type vxlan id 7 remote 10.9.2".toList,
        "ip link set vx0 up".toList,
        "ip link set vx0 master br0".toList] ∧
      ¬ Scenario.wgVxlanBridge.Recreatable badRemoteState vx0Snapshot
        (plan badRemoteState vx0Snapshot)) ∧
    (yamlLoadDesiredSet vlanText).map Subtype.val = .ok [vl0State] ∧
      (plan vl0State vl0Snapshot).map Cmd.text = [
        "ip link add br0 type bridge".toList,
        "ip link set br0 up".toList,
        "# provide uplink iface eth0".toList,
        "ip link del vl0".toList,
        "ip link add link eth0 name vl0 type vlan id 5".toList,
        "ip link set vl0 up".toList,
        "ip link set vl0 master br0".toList] ∧
      ¬ Scenario.vlanBridge.Recreatable vl0State vl0Snapshot (plan vl0State vl0Snapshot) := by
  refine ⟨⟨by decide +kernel, by decide +kernel, fun h => ?_⟩, by decide +kernel,
    by decide +kernel, fun h => ?_⟩
  · have hdel : .linkDel badRemoteState.vxIfname ∈ plan badRemoteState vx0Snapshot := by
      decide +kernel
    obtain ⟨pre, post, hplan⟩ := List.append_of_mem hdel
    have hremote := (h pre _ post hplan rfl).1
    exact absurd hremote (by decide)
  · -- nothing that the plan creates is the parent
    have hdel : .linkDel vl0State.vlanIfname ∈ plan vl0State vl0Snapshot := by decide +kernel
    have hnot : vl0State.vlanLink ∉ (plan vl0State vl0Snapshot).filterMap Cmd.creates := by
      decide +kernel
    obtain ⟨pre, post, hplan⟩ := List.append_of_mem hdel
    obtain hpresent | hcreated := h pre _ post hplan rfl
    · exact hpresent (by decide)
    · refine hnot ?_
      rw [hplan, List.filterMap_append]
      exact List.mem_append_left _ hcreated

end Netrec
