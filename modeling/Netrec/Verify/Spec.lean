import Netrec.Verify.Checks

/-!
# What the verifier decides

The state a configuration describes, stated without the verifier: which interfaces exist and are
up, who their masters are, which addresses and routes they carry, and which attributes a VLAN or a
VXLAN has. The verifier finds no difference exactly when the snapshot is in that state. Each check
is characterised on its own; a check that is skipped after an earlier one failed is accounted for
by the difference of the earlier one.

## Main definitions

* `IsUp`, `HasMaster`, `HasAddr`, `HasRoute`: facts about an interface of the snapshot
* `BridgeOk`, `VlanOk`, `WgOk`, `VxlanOk`, `RouteOk`: the parts of a configuration
* `Conforms`: the state a scenario describes
* `PosIndexes`: interface indexes are positive

## Main results

* `verifyScenario_value_eq_zero`: a scenario has no difference exactly when the snapshot conforms
* `verifyState_eq_zero_iff`: the same for `verify_state`
-/

namespace Netrec

open CLib

/-! ## Facts about the snapshot -/

/-- The interface `name` exists and is up. -/
def IsUp (rs : RealState) (name : IfName) : Prop :=
  ∃ i, rsFindIface rs name = some i ∧ i.isUp

/-- The interfaces `name` and `br` exist and the second is the master of the first. -/
def HasMaster (rs : RealState) (name br : IfName) : Prop :=
  ∃ i b, rsFindIface rs name = some i ∧ rsFindIface rs br = some b ∧ i.master = b.ifindex

/-- The interface `name` exists and carries the address `addr/plen`. -/
def HasAddr (rs : RealState) (name : IfName) (addr : UInt32) (plen : Int) : Prop :=
  ∃ i, rsFindIface rs name = some i ∧ ⟨i.ifindex, addr, plen⟩ ∈ rs.addr4

/-- The interface `name` exists and carries some address. -/
def HasAnyAddr (rs : RealState) (name : IfName) : Prop :=
  ∃ i, rsFindIface rs name = some i ∧ ∃ a ∈ rs.addr4, a.ifindex = i.ifindex

/-- The interface `dev` exists and the route to `dst/plen` over it has exactly the gateway
`via`. -/
def HasRoute (rs : RealState) (dst : UInt32) (plen : Int) (via : Option UInt32) (dev : IfName) :
    Prop :=
  ∃ i, rsFindIface rs dev = some i ∧ ∃ r ∈ rs.route4,
    r.oif = i.ifindex ∧ r.plen = plen ∧ r.dst = dst ∧
      if r.hasGw then via = some r.gw else via = none

/-- Interface indexes are positive. -/
def PosIndexes (rs : RealState) : Prop := ∀ i ∈ rs.ifaces, 0 < i.ifindex

instance (rs : RealState) : Decidable (PosIndexes rs) :=
  inferInstanceAs (Decidable (∀ i ∈ rs.ifaces, _))

/-! ## The parts of a configuration -/

/-- The bridge with its address, gateway, name servers and ports. -/
structure BridgeOk (ds : DesiredState) (rs : RealState) : Prop where
  bridge : ∃ br, rsFindIface rs ds.brName = some br ∧ br.isBridge ∧ br.isUp
  static : ds.brAddrMode = .static →
    ∃ addr plen, parseAddrPrefix ds.brAddr = some (addr, plen) ∧ HasAddr rs ds.brName addr plen
  dhcp : ds.brAddrMode = .dhcp → HasAnyAddr rs ds.brName
  gateway : ds.brGateway.val ≠ [] →
    ∃ gw, parseIp4 ds.brGateway = some gw ∧ HasRoute rs 0 0 (some gw) ds.brName
  dns : ∀ d ∈ ds.brDns.val, ∃ addr, parseIp4 d = some addr ∧ addr ∈ rs.dns4
  ports : ∀ p ∈ ds.brPorts.val, IsUp rs p ∧ HasMaster rs p ds.brName

/-- The VLAN exists with its id and its parent. -/
def VlanAttrs (ds : DesiredState) (rs : RealState) : Prop :=
  ∃ vl link, rsFindVlan rs ds.vlanIfname = some vl ∧ vl.id = some ds.vlanId ∧
    rsFindIface rs ds.vlanLink = some link ∧ vl.link = some link.ifindex

/-- The VLAN with its immutable attributes, up and in its bridge. -/
structure VlanOk (ds : DesiredState) (rs : RealState) : Prop where
  attrs : VlanAttrs ds rs
  up : IsUp rs ds.vlanIfname
  master : HasMaster rs ds.vlanIfname ds.vlanBridge

/-- The WireGuard interface and the host route to its peer. -/
structure WgOk (ds : DesiredState) (rs : RealState) : Prop where
  route : ∃ ip, parseIp4 ds.wgPeerIp = some ip ∧ HasRoute rs ip 32 none ds.wgRouteDev
  up : IsUp rs ds.wgIfname

/-- The VXLAN exists with its VNI, its remote address and, if one is configured, its parent. -/
def VxlanAttrs (ds : DesiredState) (rs : RealState) : Prop :=
  ∃ vx remote, rsFindVxlan rs ds.vxIfname = some vx ∧ vx.vni = some ds.vxVni ∧
    parseIp4 ds.vxRemote = some remote ∧ vx.remote = some remote ∧
    (ds.vxDev.val ≠ [] → ∃ dev, rsFindIface rs ds.vxDev = some dev ∧ vx.link = some dev.ifindex)

/-- The VXLAN with its immutable attributes, up and in its bridge. -/
structure VxlanOk (ds : DesiredState) (rs : RealState) : Prop where
  attrs : VxlanAttrs ds rs
  up : IsUp rs ds.vxIfname
  master : HasMaster rs ds.vxIfname ds.vxBridge

/-- A desired route is well formed and present with exactly its gateway. -/
def RouteOk (rs : RealState) (rt : DesiredRoute4) : Prop :=
  ∃ dst plen, parseAddrPrefix rt.dst = some (dst, plen) ∧
    if rt.hasVia then ∃ gw, parseIp4 rt.via = some gw ∧ HasRoute rs dst plen (some gw) rt.dev
    else HasRoute rs dst plen none rt.dev

/-- The state a scenario describes, apart from the routes. -/
def Conforms (ds : DesiredState) (rs : RealState) : Scenario → Prop
  | .onlyUplink => IsUp rs ds.upIfname
  | .uplinkBridge => BridgeOk ds rs ∧ IsUp rs ds.upIfname ∧ HasMaster rs ds.upIfname ds.brName
  | .vlanBridge => BridgeOk ds rs ∧ IsUp rs ds.upIfname ∧ VlanOk ds rs
  | .wgVxlanBridge =>
    BridgeOk ds rs ∧ (ds.upIfname.val ≠ [] → IsUp rs ds.upIfname) ∧ WgOk ds rs ∧ VxlanOk ds rs

/-! ## Searches -/

variable {ds : DesiredState} {rs : RealState}

theorem addrExists_iff {ifindex : Int} {addr : UInt32} {plen : Int} :
    addrExists rs ifindex addr plen ↔ ⟨ifindex, addr, plen⟩ ∈ rs.addr4 := by
  simp only [addrExists, List.any_eq_true, Bool.and_eq_true, decide_eq_true_eq]
  constructor
  · rintro ⟨⟨_, _, _⟩, ha, ⟨rfl, rfl⟩, rfl⟩
    exact ha
  · intro ha
    exact ⟨_, ha, ⟨rfl, rfl⟩, rfl⟩

theorem addrAnyExists_iff {ifindex : Int} :
    addrAnyExists rs ifindex ↔ ∃ a ∈ rs.addr4, a.ifindex = ifindex := by
  simp [addrAnyExists]

theorem rsDns4Exists_iff {addr : UInt32} : rsDns4Exists rs addr ↔ addr ∈ rs.dns4 := by
  simp [rsDns4Exists]

/-- The gateway argument of `route_exact`, as an option. -/
theorem routeExact_iff {dst : UInt32} {plen oif : Int} {gw : UInt32} {hasGw : Bool}
    (h : 0 < oif) : routeExact rs dst plen oif gw hasGw ↔ ∃ r ∈ rs.route4,
      r.oif = oif ∧ r.plen = plen ∧ r.dst = dst ∧
        if r.hasGw then (if hasGw then some gw else none) = some r.gw
        else (if hasGw then some gw else none) = none := by
  have h0 : ¬ oif ≤ 0 := by omega
  simp only [routeExact, h0, if_false, List.any_eq_true, Bool.and_eq_true, decide_eq_true_eq,
    and_assoc]
  refine exists_congr fun r => and_congr_right fun _ => and_congr_right fun _ =>
    and_congr_right fun _ => and_congr_right fun _ => ?_
  cases hasGw <;> cases r.hasGw <;> simp [eq_comm]

theorem hasRoute_iff (hc : PosIndexes rs) {dst : UInt32} {plen : Int} {gw : UInt32} {hasGw : Bool}
    {dev : IfName} :
    ((rsFindIface rs dev).any fun i => routeExact rs dst plen i.ifindex gw hasGw) ↔
      HasRoute rs dst plen (if hasGw then some gw else none) dev := by
  unfold HasRoute
  cases h : rsFindIface rs dev with
  | none => simp
  | some i => simp [routeExact_iff (hc i (rsFindIface_mem h))]

theorem hasAddr_iff {name : IfName} {addr : UInt32} {plen : Int} :
    ((rsFindIface rs name).any fun i => addrExists rs i.ifindex addr plen) ↔
      HasAddr rs name addr plen := by
  unfold HasAddr
  cases h : rsFindIface rs name <;> simp [addrExists_iff]

theorem hasAnyAddr_iff {name : IfName} :
    ((rsFindIface rs name).any fun i => addrAnyExists rs i.ifindex) ↔ HasAnyAddr rs name := by
  unfold HasAnyAddr
  cases h : rsFindIface rs name <;> simp [addrAnyExists_iff]

theorem IsUp.ne_none {name : IfName} (h : IsUp rs name) : rsFindIface rs name ≠ none := by
  obtain ⟨i, hi, -⟩ := h
  simp [hi]

/-! ## One check at a time -/

theorem checkBridge_value_eq_zero : (checkBridge ds rs).value = 0 ↔
    ∃ br, rsFindIface rs ds.brName = some br ∧ br.isBridge ∧ br.isUp := by
  unfold checkBridge
  cases h : rsFindIface rs ds.brName with
  | none => simp
  | some br => cases hb : br.isBridge <;> simp [hb]

theorem checkBridgeAddr_value_eq_zero : (checkBridgeAddr ds rs).value = 0 ↔
    (ds.brAddrMode = .static → ∃ addr plen, parseAddrPrefix ds.brAddr = some (addr, plen) ∧
      HasAddr rs ds.brName addr plen) ∧
    (ds.brAddrMode = .dhcp → HasAnyAddr rs ds.brName) := by
  unfold checkBridgeAddr
  cases hm : ds.brAddrMode with
  | none => simp
  | dhcp => cases substIface 256 ds.brName 0 ds.brDhcpCmd <;> simp [hasAnyAddr_iff]
  | static =>
    rcases hp : parseAddrPrefix ds.brAddr with _ | ⟨addr, plen⟩ <;> simp [hasAddr_iff]

theorem checkBridgeGateway_value_eq_zero (hc : PosIndexes rs) :
    (checkBridgeGateway ds rs).value = 0 ↔ (ds.brGateway.val ≠ [] →
      ∃ gw, parseIp4 ds.brGateway = some gw ∧ HasRoute rs 0 0 (some gw) ds.brName) := by
  unfold checkBridgeGateway
  cases hp : parseIp4 ds.brGateway <;> simp [hasRoute_iff hc]

theorem checkOneDns_value_eq_zero {dns : AddrStr} : (checkOneDns ds rs dns).value = 0 ↔
    ∃ addr, parseIp4 dns = some addr ∧ addr ∈ rs.dns4 := by
  unfold checkOneDns
  cases hp : parseIp4 dns <;> simp [rsDns4Exists_iff]

theorem checkWgPeerRoute_value_eq_zero (hc : PosIndexes rs) :
    (checkWgPeerRoute ds rs).value = 0 ↔
      ∃ ip, parseIp4 ds.wgPeerIp = some ip ∧ HasRoute rs ip 32 none ds.wgRouteDev := by
  unfold checkWgPeerRoute
  cases hp : parseIp4 ds.wgPeerIp <;> simp [hasRoute_iff hc]

theorem checkOneRoute_value_eq_zero (hc : PosIndexes rs) {rt : DesiredRoute4} :
    (checkOneRoute rs rt).value = 0 ↔ RouteOk rs rt := by
  unfold checkOneRoute RouteOk parseVia
  rcases hp : parseAddrPrefix rt.dst with _ | ⟨dst, plen⟩
  · simp
  · cases hv : rt.hasVia with
    | false => simp [hasRoute_iff hc]
    | true => cases hg : parseIp4 rt.via <;> simp [hasRoute_iff hc]

theorem checkIfaceUp_value_eq_zero {name : IfName} :
    (checkIfaceUp name (rsFindIface rs name)).value = 0 ↔ IsUp rs name := by
  unfold checkIfaceUp IsUp
  cases h : rsFindIface rs name <;> simp

theorem checkMaster_value_eq_zero {name br : IfName} :
    (checkMaster name (rsFindIface rs name) br rs).value = 0 ↔
      (rsFindIface rs name ≠ none → HasMaster rs name br) := by
  unfold checkMaster HasMaster
  cases h : rsFindIface rs name <;> cases hb : rsFindIface rs br <;> simp

theorem checkIfaceExists_value_eq_zero {tag : String} {name : IfName} :
    (checkIfaceExists tag name (rsFindIface rs name)).value = 0 ↔
      rsFindIface rs name ≠ none := by
  simp [checkIfaceExists, ← Option.isSome_iff_ne_none]

theorem checkOnePort_value_eq_zero {name : IfName} : (checkOnePort ds rs name).value = 0 ↔
    IsUp rs name ∧ HasMaster rs name ds.brName := by
  unfold checkOnePort
  by_cases h : rsFindIface rs name = none
  · have : ¬ IsUp rs name := fun hu => hu.ne_none h
    simp_all [checkIfaceExists]
  · simp [h, checkIfaceExists_value_eq_zero, checkIfaceUp_value_eq_zero,
      checkMaster_value_eq_zero]

theorem verifyOnlyUplink_value_eq_zero :
    (verifyOnlyUplink ds rs).value = 0 ↔ IsUp rs ds.upIfname := by
  unfold verifyOnlyUplink
  by_cases h : rsFindIface rs ds.upIfname = none
  · have : ¬ IsUp rs ds.upIfname := fun hu => hu.ne_none h
    simp_all [checkIfaceExists]
  · simp [h, checkIfaceExists_value_eq_zero, checkIfaceUp_value_eq_zero]

theorem checkAttr_value (good : Bool) (fmt : String) (args : List CStr) :
    (checkAttr good fmt args).value = if good then 0 else 1 := by
  cases good <;> rfl

/-- The attribute check of a VLAN: the attributes match and only the up flag counts, or there is a
difference already. -/
theorem checkVlanAttrs_value (ds : DesiredState) (rs : RealState) (vlIf : Option Iface) :
    VlanAttrs ds rs ∧ (checkVlanAttrs ds rs vlIf (rsFindVlan rs ds.vlanIfname)).value =
        ((checkIfaceUp ds.vlanIfname vlIf).value, false) ∨
      ¬ VlanAttrs ds rs ∧
        (checkVlanAttrs ds rs vlIf (rsFindVlan rs ds.vlanIfname)).value.1 ≠ 0 := by
  unfold checkVlanAttrs VlanAttrs
  cases rsFindVlan rs ds.vlanIfname with
  | none => simp
  | some v =>
    by_cases hid : v.id = some ds.vlanId
    · cases hl : rsFindIface rs ds.vlanLink with
      | none => simp [checkAttr_value, hid]
      | some link =>
        by_cases hk : v.link = some link.ifindex <;> simp [checkAttr_value, hid, hk]
    · simp [checkAttr_value, hid]

theorem checkVxlanDev_value_eq_zero {vx : Vxlan} : (checkVxlanDev ds rs vx).value = 0 ↔
    (ds.vxDev.val ≠ [] →
      ∃ dev, rsFindIface rs ds.vxDev = some dev ∧ vx.link = some dev.ifindex) := by
  unfold checkVxlanDev
  cases h : rsFindIface rs ds.vxDev <;> simp [checkAttr_value]

/-- The attribute check of a VXLAN: the attributes match and only the up flag counts, or there is a
difference already. -/
theorem checkVxlanAttrs_value (ds : DesiredState) (rs : RealState) (vxIf : Option Iface) :
    VxlanAttrs ds rs ∧ (checkVxlanAttrs ds rs vxIf (rsFindVxlan rs ds.vxIfname)).value =
        ((checkIfaceUp ds.vxIfname vxIf).value, false) ∨
      ¬ VxlanAttrs ds rs ∧
        (checkVxlanAttrs ds rs vxIf (rsFindVxlan rs ds.vxIfname)).value.1 ≠ 0 := by
  unfold checkVxlanAttrs checkVxlanRemote VxlanAttrs
  cases rsFindVxlan rs ds.vxIfname with
  | none => simp
  | some v =>
    simp only [← checkVxlanDev_value_eq_zero]
    by_cases hvni : v.vni = some ds.vxVni
    · by_cases hd : (checkVxlanDev ds rs v).value = 0
      · cases hr : parseIp4 ds.vxRemote with
        | none => simp [checkAttr_value, hvni, hd]
        | some remote =>
          by_cases hrem : v.remote = some remote <;> simp [checkAttr_value, hvni, hrem, hd]
      · cases hr : parseIp4 ds.vxRemote with
        | none => simp [checkAttr_value, hvni, hd]
        | some remote => simp [checkAttr_value, hvni, hd]
    · simp [checkAttr_value, hvni]

theorem checkWg_value_eq_zero : (checkWg ds rs).value = 0 ↔ IsUp rs ds.wgIfname := by
  unfold checkWg
  cases h : rsFindIface rs ds.wgIfname with
  | none => simp [IsUp, h]
  | some wg => simp [← h, checkIfaceUp_value_eq_zero]

/-! ## Scenarios -/

theorem verifyBridge_value_eq_zero (hc : PosIndexes rs) :
    (verifyBridge ds rs).value = 0 ∧ (checkBridgePorts ds rs).value = 0 ↔ BridgeOk ds rs := by
  simp only [verifyBridge, Verify.value_bind, Verify.value_pure, Nat.add_eq_zero_iff, checkBridgeDns,
    checkBridgePorts, sumDiff_value_eq_zero, checkBridge_value_eq_zero,
    checkBridgeAddr_value_eq_zero, checkBridgeGateway_value_eq_zero hc, checkOneDns_value_eq_zero,
    checkOnePort_value_eq_zero]
  exact ⟨fun ⟨⟨⟨⟨h₁, h₂, h₃⟩, h₄⟩, h₅⟩, h₆⟩ => ⟨h₁, h₂, h₃, h₄, h₅, h₆⟩,
    fun h => ⟨⟨⟨⟨h.bridge, h.static, h.dhcp⟩, h.gateway⟩, h.dns⟩, h.ports⟩⟩

theorem verifyUplinkBridge_value_eq_zero (hc : PosIndexes rs) :
    (verifyUplinkBridge ds rs).value = 0 ↔ Conforms ds rs .uplinkBridge := by
  simp only [verifyUplinkBridge, Verify.value_bind, Verify.value_pure, Nat.add_eq_zero_iff, Conforms,
    ← verifyBridge_value_eq_zero hc, verifyOnlyUplink_value_eq_zero, checkMaster_value_eq_zero]
  exact ⟨fun ⟨⟨⟨h₁, h₂⟩, h₃⟩, h₄⟩ => ⟨⟨h₁, h₄⟩, h₂, h₃ h₂.ne_none⟩,
    fun ⟨⟨h₁, h₄⟩, h₂, h₃⟩ => ⟨⟨⟨h₁, h₂⟩, fun _ => h₃⟩, h₄⟩⟩

theorem verifyVlanBridge_value_eq_zero (hc : PosIndexes rs) :
    (verifyVlanBridge ds rs).value = 0 ↔ Conforms ds rs .vlanBridge := by
  simp only [verifyVlanBridge, Verify.value_bind, Conforms, ← verifyBridge_value_eq_zero hc,
    ← verifyOnlyUplink_value_eq_zero]
  rcases checkVlanAttrs_value ds rs (rsFindIface rs ds.vlanIfname) with ⟨ha, hv⟩ | ⟨ha, hv⟩
  · simp only [hv, Verify.value_pure, Verify.value_bind, Bool.false_eq_true, if_false,
      Nat.add_eq_zero_iff, checkIfaceUp_value_eq_zero, checkMaster_value_eq_zero]
    exact ⟨fun ⟨⟨⟨⟨h₁, h₂⟩, h₃⟩, h₄⟩, h₅⟩ => ⟨⟨h₁, h₃⟩, h₂, ha, h₄, h₅ h₄.ne_none⟩,
      fun ⟨⟨h₁, h₃⟩, h₂, h⟩ => ⟨⟨⟨⟨h₁, h₂⟩, h₃⟩, h.up⟩, fun _ => h.master⟩⟩
  · have hno : ¬ VlanOk ds rs := fun h => ha h.attrs
    simp only [Verify.value_ite, Verify.value_bind, Verify.value_pure, hno, and_false, iff_false]
    split <;> omega

theorem verifyWgVxlanBridge_value_eq_zero (hc : PosIndexes rs) :
    (verifyWgVxlanBridge ds rs).value = 0 ↔ Conforms ds rs .wgVxlanBridge := by
  have hup : (if ds.upIfname.val ≠ [] then verifyOnlyUplink ds rs else pure 0).value = 0 ↔
      (ds.upIfname.val ≠ [] → IsUp rs ds.upIfname) := by
    by_cases h : ds.upIfname.val = [] <;> simp [h, verifyOnlyUplink_value_eq_zero]
  simp only [verifyWgVxlanBridge, Verify.value_bind, Conforms, ← verifyBridge_value_eq_zero hc,
    ← hup]
  rcases checkVxlanAttrs_value ds rs (rsFindIface rs ds.vxIfname) with ⟨ha, hv⟩ | ⟨ha, hv⟩
  · simp only [hv, Verify.value_pure, Verify.value_bind, Bool.false_eq_true, if_false,
      Nat.add_eq_zero_iff, checkIfaceUp_value_eq_zero, checkMaster_value_eq_zero,
      checkWgPeerRoute_value_eq_zero hc, checkWg_value_eq_zero]
    exact ⟨fun ⟨⟨⟨⟨⟨⟨h₁, h₂⟩, h₃⟩, h₄⟩, h₅⟩, h₆⟩, h₇⟩ =>
        ⟨⟨h₁, h₃⟩, h₂, ⟨h₄, h₅⟩, ha, h₆, h₇ h₆.ne_none⟩,
      fun ⟨⟨h₁, h₃⟩, h₂, hw, h⟩ =>
        ⟨⟨⟨⟨⟨⟨h₁, h₂⟩, h₃⟩, hw.route⟩, hw.up⟩, h.up⟩, fun _ => h.master⟩⟩
  · have hno : ¬ VxlanOk ds rs := fun h => ha h.attrs
    simp only [Verify.value_ite, Verify.value_bind, Verify.value_pure, hno, and_false, iff_false]
    split <;> omega

/-- **A scenario has no difference exactly when the snapshot is in the state it describes.** -/
theorem verifyScenario_value_eq_zero (hc : PosIndexes rs) (scn : Scenario) :
    (verifyScenario ds rs scn).value = 0 ↔
      Conforms ds rs scn ∧ ∀ rt ∈ ds.routes.val, RouteOk rs rt := by
  have hs : (scn.verify ds rs).value = 0 ↔ Conforms ds rs scn := by
    cases scn with
    | onlyUplink => exact verifyOnlyUplink_value_eq_zero
    | uplinkBridge => exact verifyUplinkBridge_value_eq_zero hc
    | vlanBridge => exact verifyVlanBridge_value_eq_zero hc
    | wgVxlanBridge => exact verifyWgVxlanBridge_value_eq_zero hc
  simp only [verifyScenario, Verify.value_bind, Verify.value_pure, Nat.add_eq_zero_iff, hs,
    checkRoutes, sumDiff_value_eq_zero, checkOneRoute_value_eq_zero hc]

theorem verifyState_fst {scn : Scenario} (hs : Scenario.ofName ds.scenario = some scn)
    (apply actFail : Bool) (sys : Sys) :
    (verifyState ds rs apply actFail sys).1 = (verifyScenario ds rs scn).value := by
  simp only [verifyState, hs, (verifyScenario ds rs scn).run_eq]

/-- **The verifier is sound and complete**: `verify_state` returns 0 exactly when the snapshot is in
the state the configuration describes. An entry of the VLAN or VXLAN table without an interface
needs no assumption, since the check of its up flag counts it as a difference. -/
theorem verifyState_eq_zero_iff {scn : Scenario} (hs : Scenario.ofName ds.scenario = some scn)
    (hc : PosIndexes rs) (actFail : Bool) (sys : Sys) :
    (verifyState ds rs false actFail sys).1 = 0 ↔
      Conforms ds rs scn ∧ ∀ rt ∈ ds.routes.val, RouteOk rs rt := by
  rw [verifyState_fst hs, Int.natCast_eq_zero, verifyScenario_value_eq_zero hc]

/-- A VLAN in a bridge, as a configuration. -/
def vlanState : DesiredState :=
  { DesiredState.zero with
    scenario := cpy 32 "vlan_bridge".toList
    brName := cpy 16 "br0".toList
    brAddrMode := .static
    brAddr := cpy 32 "10.0.0.1/24".toList
    upIfname := cpy 16 "eth0".toList
    vlanIfname := cpy 16 "eth0.5".toList
    vlanId := 5
    vlanLink := cpy 16 "eth0".toList
    vlanBridge := cpy 16 "br0".toList }

/-- A snapshot in the state `vlanState` describes. -/
def vlanSnapshot : RealState where
  ifaces := [
    { name := cpy 16 "eth0".toList, kind := .empty, ifindex := 2, flags := 1, master := 0 },
    { name := cpy 16 "br0".toList, kind := cpy 16 "bridge".toList, ifindex := 3, flags := 1,
      master := 0 },
    { name := cpy 16 "eth0.5".toList, kind := cpy 16 "vlan".toList, ifindex := 4, flags := 1,
      master := 3, link := some 2 }]
  addr4 := [⟨3, 0x0a000001, 24⟩]
  route4 := []
  dns4 := []
  vxlan := []
  vlan := [⟨cpy 16 "eth0.5".toList, 4, some 5, some 2⟩]

theorem vlanSnapshot_conforms :
    (verifyState vlanState vlanSnapshot false false ⟨fun _ => .other, [], []⟩).1 = 0 ∧
      Conforms vlanState vlanSnapshot .vlanBridge := by
  have h0 : (verifyState vlanState vlanSnapshot false false ⟨fun _ => .other, [], []⟩).1 = 0 := by
    decide
  exact ⟨h0, ((verifyState_eq_zero_iff (by decide) (by decide) false _).mp h0).1⟩

end Netrec
