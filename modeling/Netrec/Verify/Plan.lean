import Netrec.Verify.Spec

/-!
# Repair plans

The commands a scenario emits, written out: a fixed sequence of parts, each a function of one piece
of the configuration and of the snapshot. A device is recreated when an immutable attribute
differs, and deleted first when it is known under its name. Everything about plans is proved from
this form.

## Main definitions

* `vlanKept`, `vxlanKept`: the device need not be created again
* `recreate`: the commands that create a VLAN or VXLAN
* `bridgeActs`, ..., `routeActs`: the commands of the parts
* `Scenario.acts`: the commands of a scenario, without the routes

## Main results

* `plan_eq`: the plan of a supported state
* `upActs_all`, ..., `routeActs_all`: which commands a part can have
-/

namespace Netrec

open CLib

/-! ## The parts of a plan -/

variable (ds : DesiredState) (rs : RealState)

/-- Setting an existing interface up. -/
def upActs (name : IfName) : List Cmd :=
  if (rsFindIface rs name).any fun i => !i.isUp then [.linkUp name] else []

/-- Enslaving an existing interface. -/
def masterActs (name br : IfName) : List Cmd :=
  if (rsFindIface rs name).any fun i => !(rsFindIface rs br).any fun b => i.master = b.ifindex then
    [.setMaster name br]
  else []

/-- The bridge itself. -/
def bridgeActs : List Cmd :=
  match rsFindIface rs ds.brName with
  | none => [.addBridge ds.brName, .linkUp ds.brName]
  | some br =>
    if br.isBridge then upActs rs ds.brName
    else [.linkDel ds.brName, .addBridge ds.brName, .linkUp ds.brName]

/-- Its address. -/
def addrActs : List Cmd :=
  match ds.brAddrMode with
  | .none => []
  | .dhcp =>
    if (rsFindIface rs ds.brName).any fun br => addrAnyExists rs br.ifindex then []
    else
      match substIface 256 ds.brName 0 ds.brDhcpCmd with
      | none => [.comment "# bad yaml bridge.dhcp_cmd too long" []]
      | some cmd => [.dhcp ds.brName cmd]
  | .static =>
    match parseAddrPrefix ds.brAddr with
    | none => [.comment "# bad yaml bridge.addr %s" [ds.brAddr]]
    | some (addr, plen) =>
      if (rsFindIface rs ds.brName).any fun br => addrExists rs br.ifindex addr plen then []
      else [.addrAdd ds.brAddr ds.brName]

/-- Its default route. -/
def gatewayActs : List Cmd :=
  if ds.brGateway.val = [] then []
  else
    match parseIp4 ds.brGateway with
    | none => [.comment "# bad yaml bridge.gateway %s" [ds.brGateway]]
    | some gw =>
      if (rsFindIface rs ds.brName).any fun br => routeExact rs 0 0 br.ifindex gw true then []
      else [.routeReplace defaultDst (some ds.brGateway) ds.brName]

/-- One name server. -/
def dnsActs (dns : AddrStr) : List Cmd :=
  match parseIp4 dns with
  | none => [.comment "# bad yaml bridge.dns %s" [dns]]
  | some addr =>
    if rsDns4Exists rs addr then [] else [.comment "# set dns %s dev %s" [dns, ds.brName]]

/-- The uplink. -/
def uplinkActs : List Cmd :=
  if (rsFindIface rs ds.upIfname).isNone then
    [.comment "# provide uplink iface %s" [ds.upIfname]]
  else upActs rs ds.upIfname

/-- One port. -/
def portActs (name : IfName) : List Cmd :=
  if (rsFindIface rs name).isNone then [.comment "# provide bridge port iface %s" [name]]
  else upActs rs name ++ masterActs rs name ds.brName

/-- The host route to the WireGuard peer. -/
def peerRouteActs : List Cmd :=
  match parseIp4 ds.wgPeerIp with
  | none => [.comment "# bad yaml wg.peer_ip %s" [ds.wgPeerIp]]
  | some ip =>
    if (rsFindIface rs ds.wgRouteDev).any fun dev => routeExact rs ip 32 dev.ifindex 0 false then []
    else [.routeReplace (hostDst ds.wgPeerIp) none ds.wgRouteDev]

/-- The WireGuard interface. -/
def wgActs : List Cmd :=
  if (rsFindIface rs ds.wgIfname).isNone then [.addWireguard ds.wgIfname]
  else upActs rs ds.wgIfname

/-- Creating a device, after deleting what goes by its name. -/
def recreate (old : Bool) (add : Cmd) (dev br : IfName) : List Cmd :=
  (if old then [.linkDel dev] else []) ++ [add, .linkUp dev, .setMaster dev br]

/-- The VLAN exists with its id and its parent. -/
def vlanKept : Bool :=
  (rsFindVlan rs ds.vlanIfname).any fun vl =>
    vl.id = some ds.vlanId &&
      (rsFindIface rs ds.vlanLink).any fun link => vl.link = some link.ifindex

/-- The VLAN. -/
def vlanActs : List Cmd :=
  if vlanKept ds rs then
    upActs rs ds.vlanIfname ++ masterActs rs ds.vlanIfname ds.vlanBridge
  else
    recreate ((rsFindIface rs ds.vlanIfname).isSome || (rsFindVlan rs ds.vlanIfname).isSome)
      (.addVlan ds.vlanLink ds.vlanIfname ds.vlanId) ds.vlanIfname ds.vlanBridge

/-- The command that creates the VXLAN. -/
def addVxlanCmd : Cmd :=
  .addVxlan ds.vxIfname ds.vxVni ds.vxRemote (if ds.vxDev.val ≠ [] then some ds.vxDev else none)

/-- The VXLAN exists with its VNI, its remote address, unless that is malformed, and its parent, if
one is configured. -/
def vxlanKept : Bool :=
  (rsFindVxlan rs ds.vxIfname).any fun vx =>
    vx.vni = some ds.vxVni && (parseIp4 ds.vxRemote).all (fun remote => vx.remote = some remote) &&
      (ds.vxDev.val = [] || (rsFindIface rs ds.vxDev).any fun dev => vx.link = some dev.ifindex)

/-- The complaint about a malformed remote address of an existing VXLAN. -/
def vxRemoteActs : List Cmd :=
  if (rsFindVxlan rs ds.vxIfname).isSome ∧ parseIp4 ds.vxRemote = none then
    [.comment "# bad yaml vxlan.remote %s" [ds.vxRemote]]
  else []

/-- The VXLAN. -/
def vxlanActs : List Cmd :=
  vxRemoteActs ds rs ++
    if vxlanKept ds rs then upActs rs ds.vxIfname ++ masterActs rs ds.vxIfname ds.vxBridge
    else
      recreate ((rsFindIface rs ds.vxIfname).isSome || (rsFindVxlan rs ds.vxIfname).isSome)
        (addVxlanCmd ds) ds.vxIfname ds.vxBridge

/-- One route. -/
def routeActs (rt : DesiredRoute4) : List Cmd :=
  match parseAddrPrefix rt.dst with
  | none => [.comment "# bad yaml route.dst %s" [rt.dst]]
  | some (dst, plen) =>
    match parseVia rt with
    | none => [.comment "# bad yaml route.via %s" [rt.via]]
    | some via =>
      if (rsFindIface rs rt.dev).any fun dev =>
          routeExact rs dst plen dev.ifindex via rt.hasVia then []
      else [.routeReplace rt.dst (if rt.hasVia then some rt.via else none) rt.dev]

/-! ## Plans -/

/-- The part with which every bridge scenario starts. -/
def bridgePart : List Cmd :=
  bridgeActs ds rs ++ (addrActs ds rs ++ (gatewayActs ds rs ++ ds.brDns.val.flatMap (dnsActs ds rs)))

/-- The commands of a scenario, without the routes. -/
def Scenario.acts : Scenario → List Cmd
  | .onlyUplink => uplinkActs ds rs
  | .uplinkBridge =>
    bridgePart ds rs ++ (uplinkActs ds rs ++ (masterActs rs ds.upIfname ds.brName ++
      ds.brPorts.val.flatMap (portActs ds rs)))
  | .vlanBridge =>
    bridgePart ds rs ++ (uplinkActs ds rs ++ (ds.brPorts.val.flatMap (portActs ds rs) ++
      vlanActs ds rs))
  | .wgVxlanBridge =>
    bridgePart ds rs ++ ((if ds.upIfname.val ≠ [] then uplinkActs ds rs else []) ++
      (ds.brPorts.val.flatMap (portActs ds rs) ++ (peerRouteActs ds rs ++ (wgActs ds rs ++
        vxlanActs ds rs))))

/-! ## The checks emit their parts -/

variable {ds rs}

theorem checkIfaceUp_acts {name : IfName} :
    (checkIfaceUp name (rsFindIface rs name)).acts = upActs rs name := by
  unfold checkIfaceUp upActs
  cases rsFindIface rs name with
  | none => rfl
  | some i => cases h : i.isUp <;> simp [h]

theorem checkMaster_acts {name br : IfName} :
    (checkMaster name (rsFindIface rs name) br rs).acts = masterActs rs name br := by
  unfold checkMaster masterActs
  cases rsFindIface rs name with
  | none => rfl
  | some i =>
    cases h : (rsFindIface rs br).any fun b => i.master = b.ifindex <;> simp [h]

theorem checkIfaceExists_acts {tag : String} {name : IfName} {i : Option Iface} :
    (checkIfaceExists tag name i).acts = [] := by
  cases i <;> rfl

theorem checkBridge_acts : (checkBridge ds rs).acts = bridgeActs ds rs := by
  unfold checkBridge bridgeActs upActs
  cases h : rsFindIface rs ds.brName with
  | none => rfl
  | some br => cases hb : br.isBridge <;> cases hu : br.isUp <;> simp [hb, hu]

theorem checkBridgeAddr_acts : (checkBridgeAddr ds rs).acts = addrActs ds rs := by
  unfold checkBridgeAddr addrActs
  cases ds.brAddrMode with
  | none => rfl
  | dhcp => cases substIface 256 ds.brName 0 ds.brDhcpCmd <;> simp
  | static => rcases parseAddrPrefix ds.brAddr with _ | ⟨addr, plen⟩ <;> simp

theorem checkBridgeGateway_acts : (checkBridgeGateway ds rs).acts = gatewayActs ds rs := by
  unfold checkBridgeGateway gatewayActs
  cases parseIp4 ds.brGateway <;> simp

theorem checkOneDns_acts {dns : AddrStr} : (checkOneDns ds rs dns).acts = dnsActs ds rs dns := by
  unfold checkOneDns dnsActs
  cases parseIp4 dns <;> simp

theorem verifyBridge_acts : (verifyBridge ds rs).acts = bridgePart ds rs := by
  simp [verifyBridge, bridgePart, checkBridge_acts, checkBridgeAddr_acts, checkBridgeGateway_acts,
    checkBridgeDns, checkOneDns_acts]

theorem verifyOnlyUplink_acts : (verifyOnlyUplink ds rs).acts = uplinkActs ds rs := by
  simp [verifyOnlyUplink, uplinkActs, checkIfaceExists_acts, checkIfaceUp_acts]

theorem checkOnePort_acts {name : IfName} :
    (checkOnePort ds rs name).acts = portActs ds rs name := by
  simp [checkOnePort, portActs, checkIfaceExists_acts, checkIfaceUp_acts, checkMaster_acts]

theorem checkWgPeerRoute_acts : (checkWgPeerRoute ds rs).acts = peerRouteActs ds rs := by
  unfold checkWgPeerRoute peerRouteActs
  cases parseIp4 ds.wgPeerIp <;> simp

theorem checkWg_acts : (checkWg ds rs).acts = wgActs ds rs := by
  unfold checkWg wgActs
  cases h : rsFindIface rs ds.wgIfname with
  | none => rfl
  | some wg => simp [h, ← checkIfaceUp_acts]

theorem checkOneRoute_acts {rt : DesiredRoute4} :
    (checkOneRoute rs rt).acts = routeActs rs rt := by
  unfold checkOneRoute routeActs
  rcases parseAddrPrefix rt.dst with _ | ⟨dst, plen⟩
  · rfl
  · cases parseVia rt with
    | none => rfl
    | some via => cases rt.hasVia <;> simp

theorem checkAttr_acts (good : Bool) (fmt : String) (args : List CStr) :
    (checkAttr good fmt args).acts = [] := by
  cases good <;> rfl

theorem actAddVxlan_acts : (actAddVxlan ds).acts = [addVxlanCmd ds] := by
  unfold actAddVxlan addVxlanCmd
  by_cases h : ds.vxDev.val = [] <;> simp [h]

/-- The attribute check of a VLAN: its second result says whether the VLAN was created again, and
then its master was set with it. -/
theorem checkVlanAttrs_spec {vlIf : Option Iface} (h : vlIf = rsFindIface rs ds.vlanIfname) :
    (checkVlanAttrs ds rs vlIf (rsFindVlan rs ds.vlanIfname)).value.2 = !vlanKept ds rs ∧
      (checkVlanAttrs ds rs vlIf (rsFindVlan rs ds.vlanIfname)).acts ++
        (if vlanKept ds rs then masterActs rs ds.vlanIfname ds.vlanBridge else []) =
          vlanActs ds rs := by
  unfold checkVlanAttrs vlanActs vlanKept recreate
  subst h
  cases hv : rsFindVlan rs ds.vlanIfname with
  | none => cases rsFindIface rs ds.vlanIfname <;> simp [actAddVlan]
  | some v =>
    by_cases hid : v.id = some ds.vlanId
    · cases hl : (rsFindIface rs ds.vlanLink).any fun link => v.link = some link.ifindex <;>
        simp [checkAttr_acts, checkAttr_value, hid, hl, checkIfaceUp_acts, actAddVlan]
    · simp [checkAttr_acts, checkAttr_value, hid, actAddVlan]

theorem checkVxlanDev_acts {vx : Vxlan} : (checkVxlanDev ds rs vx).acts = [] := by
  unfold checkVxlanDev
  split <;> simp [checkAttr_acts]

/-- The attribute check of a VXLAN, likewise. -/
theorem checkVxlanAttrs_spec {vxIf : Option Iface} (h : vxIf = rsFindIface rs ds.vxIfname) :
    (checkVxlanAttrs ds rs vxIf (rsFindVxlan rs ds.vxIfname)).value.2 = !vxlanKept ds rs ∧
      (checkVxlanAttrs ds rs vxIf (rsFindVxlan rs ds.vxIfname)).acts ++
        (if vxlanKept ds rs then masterActs rs ds.vxIfname ds.vxBridge else []) =
          vxlanActs ds rs := by
  unfold checkVxlanAttrs checkVxlanRemote vxlanActs vxRemoteActs vxlanKept recreate
  subst h
  cases hv : rsFindVxlan rs ds.vxIfname with
  | none => cases rsFindIface rs ds.vxIfname <;> simp [actAddVxlan_acts]
  | some v =>
    have hdev : (ds.vxDev.val = [] || (rsFindIface rs ds.vxDev).any fun dev =>
        v.link = some dev.ifindex) = decide ((checkVxlanDev ds rs v).value = 0) := by
      unfold checkVxlanDev
      by_cases hd : ds.vxDev.val = [] <;> simp [hd, checkAttr_value]
    cases hr : parseIp4 ds.vxRemote with
    | none =>
      by_cases hvni : v.vni = some ds.vxVni <;> by_cases hd : (checkVxlanDev ds rs v).value = 0 <;>
        simp [checkAttr_acts, checkAttr_value, checkVxlanDev_acts, hvni, hdev, hd,
          checkIfaceUp_acts, actAddVxlan_acts]
    | some remote =>
      by_cases hvni : v.vni = some ds.vxVni <;> by_cases hrem : v.remote = some remote <;>
        by_cases hd : (checkVxlanDev ds rs v).value = 0 <;>
          simp [checkAttr_acts, checkAttr_value, checkVxlanDev_acts, hvni, hrem, hdev, hd,
            checkIfaceUp_acts, actAddVxlan_acts]

/-! ## Plans of scenarios -/

theorem verifyVlanBridge_acts :
    (verifyVlanBridge ds rs).acts = Scenario.acts ds rs .vlanBridge := by
  obtain ⟨hv, ha⟩ := @checkVlanAttrs_spec ds rs _ rfl
  simp only [verifyVlanBridge, Scenario.acts, Verify.acts_bind, Verify.acts_ite, Verify.acts_pure,
    verifyBridge_acts, verifyOnlyUplink_acts, checkBridgePorts, sumDiff_acts, checkOnePort_acts,
    checkMaster_acts, hv, ← ha, List.append_nil]
  cases vlanKept ds rs <;> simp

theorem verifyWgVxlanBridge_acts :
    (verifyWgVxlanBridge ds rs).acts = Scenario.acts ds rs .wgVxlanBridge := by
  obtain ⟨hv, ha⟩ := @checkVxlanAttrs_spec ds rs _ rfl
  simp only [verifyWgVxlanBridge, Scenario.acts, Verify.acts_bind, Verify.acts_ite,
    Verify.acts_pure, verifyBridge_acts, verifyOnlyUplink_acts, checkBridgePorts, sumDiff_acts,
    checkOnePort_acts, checkWgPeerRoute_acts, checkWg_acts, checkMaster_acts, hv, ← ha,
    List.append_nil]
  cases vxlanKept ds rs <;> simp

theorem Scenario.verify_acts (scn : Scenario) : (scn.verify ds rs).acts = scn.acts ds rs := by
  cases scn with
  | onlyUplink => exact verifyOnlyUplink_acts
  | uplinkBridge =>
    simp [Scenario.verify, verifyUplinkBridge, Scenario.acts, verifyBridge_acts,
      verifyOnlyUplink_acts, checkMaster_acts, checkBridgePorts, checkOnePort_acts]
  | vlanBridge => exact verifyVlanBridge_acts
  | wgVxlanBridge => exact verifyWgVxlanBridge_acts

/-- **The plan of a state** is the commands of its scenario followed by those of its routes. -/
theorem plan_eq {scn : Scenario} (hs : Scenario.ofName ds.scenario = some scn) :
    plan ds rs = scn.acts ds rs ++ ds.routes.val.flatMap (routeActs rs) := by
  simp [plan, hs, verifyScenario, Scenario.verify_acts, checkRoutes, checkOneRoute_acts]

theorem plan_of_unsupported (hs : Scenario.ofName ds.scenario = none) : plan ds rs = [] := by
  simp [plan, hs]

/-! ## Which commands a part can have -/

section All

variable {P : Cmd → Prop}

theorem upActs_all {name : IfName} (hup : P (.linkUp name)) : ∀ c ∈ upActs rs name, P c := by
  unfold upActs
  split_ifs
  · exact List.forall_mem_singleton.mpr hup
  · exact fun c hc => (by cases hc)

theorem masterActs_all {name br : IfName} (hmaster : P (.setMaster name br)) :
    ∀ c ∈ masterActs rs name br, P c := by
  unfold masterActs
  split_ifs
  · exact List.forall_mem_singleton.mpr hmaster
  · exact fun c hc => (by cases hc)

theorem bridgeActs_all (hup : P (.linkUp ds.brName)) (hadd : P (.addBridge ds.brName))
    (hdel : (rsFindIface rs ds.brName).any (fun br => !br.isBridge) → P (.linkDel ds.brName)) :
    ∀ c ∈ bridgeActs ds rs, P c := by
  unfold bridgeActs
  split
  · simpa using ⟨hadd, hup⟩
  · rename_i br hbr
    split_ifs with hkind
    · exact upActs_all hup
    · have hdel' := hdel (by simpa [hbr] using hkind)
      simpa using ⟨hdel', hadd, hup⟩

theorem addrActs_all
    (hlong : substIface 256 ds.brName 0 ds.brDhcpCmd = none →
      P (.comment "# bad yaml bridge.dhcp_cmd too long" []))
    (hdhcp : ∀ text, substIface 256 ds.brName 0 ds.brDhcpCmd = some text →
      P (.dhcp ds.brName text))
    (hbad : P (.comment "# bad yaml bridge.addr %s" [ds.brAddr]))
    (hadd : ds.brAddrMode = .static → (parseAddrPrefix ds.brAddr).isSome →
      P (.addrAdd ds.brAddr ds.brName)) : ∀ c ∈ addrActs ds rs, P c := by
  unfold addrActs
  split
  · exact fun c hc => (by cases hc)
  · split_ifs
    · exact fun c hc => (by cases hc)
    · split
      · rename_i htext
        exact List.forall_mem_singleton.mpr (hlong htext)
      · rename_i htext
        exact List.forall_mem_singleton.mpr (hdhcp _ htext)
  · rename_i hmode
    split
    · exact List.forall_mem_singleton.mpr hbad
    · rename_i hparse
      split_ifs
      · exact fun c hc => (by cases hc)
      · exact List.forall_mem_singleton.mpr (hadd hmode (by rw [hparse]; rfl))

theorem gatewayActs_all (hbad : P (.comment "# bad yaml bridge.gateway %s" [ds.brGateway]))
    (hroute : (parseIp4 ds.brGateway).isSome →
      P (.routeReplace defaultDst (some ds.brGateway) ds.brName)) :
    ∀ c ∈ gatewayActs ds rs, P c := by
  unfold gatewayActs
  split_ifs
  · exact fun c hc => (by cases hc)
  · split
    · exact List.forall_mem_singleton.mpr hbad
    · rename_i hparse
      split_ifs
      · exact fun c hc => (by cases hc)
      · exact List.forall_mem_singleton.mpr (hroute (by rw [hparse]; rfl))

theorem dnsActs_all {dns : AddrStr} (hbad : P (.comment "# bad yaml bridge.dns %s" [dns]))
    (hset : P (.comment "# set dns %s dev %s" [dns, ds.brName])) :
    ∀ c ∈ dnsActs ds rs dns, P c := by
  unfold dnsActs
  split
  · exact List.forall_mem_singleton.mpr hbad
  · split_ifs
    · exact fun c hc => (by cases hc)
    · exact List.forall_mem_singleton.mpr hset

theorem uplinkActs_all (hmissing : P (.comment "# provide uplink iface %s" [ds.upIfname]))
    (hup : P (.linkUp ds.upIfname)) : ∀ c ∈ uplinkActs ds rs, P c := by
  unfold uplinkActs
  split_ifs
  · exact List.forall_mem_singleton.mpr hmissing
  · exact upActs_all hup

theorem portActs_all {port : IfName}
    (hmissing : P (.comment "# provide bridge port iface %s" [port])) (hup : P (.linkUp port))
    (hmaster : P (.setMaster port ds.brName)) : ∀ c ∈ portActs ds rs port, P c := by
  unfold portActs
  split_ifs
  · exact List.forall_mem_singleton.mpr hmissing
  · exact List.forall_mem_append.mpr ⟨upActs_all hup, masterActs_all hmaster⟩

theorem peerRouteActs_all (hbad : P (.comment "# bad yaml wg.peer_ip %s" [ds.wgPeerIp]))
    (hroute : (parseIp4 ds.wgPeerIp).isSome →
      P (.routeReplace (hostDst ds.wgPeerIp) none ds.wgRouteDev)) :
    ∀ c ∈ peerRouteActs ds rs, P c := by
  unfold peerRouteActs
  split
  · exact List.forall_mem_singleton.mpr hbad
  · rename_i hparse
    split_ifs
    · exact fun c hc => (by cases hc)
    · exact List.forall_mem_singleton.mpr (hroute (by rw [hparse]; rfl))

theorem wgActs_all (hadd : P (.addWireguard ds.wgIfname)) (hup : P (.linkUp ds.wgIfname)) :
    ∀ c ∈ wgActs ds rs, P c := by
  unfold wgActs
  split_ifs
  · exact List.forall_mem_singleton.mpr hadd
  · exact upActs_all hup

theorem recreate_all {old : Bool} {add : Cmd} {dev br : IfName} (hadd : P add)
    (hup : P (.linkUp dev)) (hmaster : P (.setMaster dev br)) (hdel : old → P (.linkDel dev)) :
    ∀ c ∈ recreate old add dev br, P c := by
  unfold recreate
  cases old with
  | false => simpa using ⟨hadd, hup, hmaster⟩
  | true => simpa using ⟨hdel rfl, hadd, hup, hmaster⟩

theorem vlanActs_all (hadd : P (.addVlan ds.vlanLink ds.vlanIfname ds.vlanId))
    (hup : P (.linkUp ds.vlanIfname)) (hmaster : P (.setMaster ds.vlanIfname ds.vlanBridge))
    (hdel : vlanKept ds rs = false →
      (rsFindIface rs ds.vlanIfname).isSome || (rsFindVlan rs ds.vlanIfname).isSome →
      P (.linkDel ds.vlanIfname)) : ∀ c ∈ vlanActs ds rs, P c := by
  unfold vlanActs
  split_ifs with hkept
  · exact List.forall_mem_append.mpr ⟨upActs_all hup, masterActs_all hmaster⟩
  · exact recreate_all hadd hup hmaster (hdel (by simpa using hkept))

theorem vxlanActs_all (hbad : P (.comment "# bad yaml vxlan.remote %s" [ds.vxRemote]))
    (hadd : P (addVxlanCmd ds)) (hup : P (.linkUp ds.vxIfname))
    (hmaster : P (.setMaster ds.vxIfname ds.vxBridge))
    (hdel : vxlanKept ds rs = false →
      (rsFindIface rs ds.vxIfname).isSome || (rsFindVxlan rs ds.vxIfname).isSome →
      P (.linkDel ds.vxIfname)) : ∀ c ∈ vxlanActs ds rs, P c := by
  unfold vxlanActs vxRemoteActs
  refine List.forall_mem_append.mpr ⟨?_, ?_⟩
  · split_ifs
    · exact List.forall_mem_singleton.mpr hbad
    · exact fun c hc => (by cases hc)
  · split_ifs with hkept
    · exact List.forall_mem_append.mpr ⟨upActs_all hup, masterActs_all hmaster⟩
    · exact recreate_all hadd hup hmaster (hdel (by simpa using hkept))

theorem routeActs_all {rt : DesiredRoute4}
    (hdst : P (.comment "# bad yaml route.dst %s" [rt.dst]))
    (hvia : P (.comment "# bad yaml route.via %s" [rt.via]))
    (hroute : (parseAddrPrefix rt.dst).isSome → (parseVia rt).isSome →
      P (.routeReplace rt.dst (if rt.hasVia then some rt.via else none) rt.dev)) :
    ∀ c ∈ routeActs rs rt, P c := by
  unfold routeActs
  split
  · exact List.forall_mem_singleton.mpr hdst
  · rename_i hparse
    split
    · exact List.forall_mem_singleton.mpr hvia
    · rename_i hparseVia
      split
      · exact fun c hc => (by cases hc)
      · exact List.forall_mem_singleton.mpr
          (hroute (by rw [hparse]; rfl) (by rw [hparseVia]; rfl))

end All

/-! ## Which commands a state can have -/

/-- The calls of `act` in the verifier, with the fields they print. -/
inductive Emits (ds : DesiredState) : Cmd → Prop
  | linkUp (dev : IfName) : Emits ds (.linkUp dev)
  | linkDel (dev : IfName) : Emits ds (.linkDel dev)
  | setMaster (dev br : IfName) : Emits ds (.setMaster dev br)
  | addBridge : Emits ds (.addBridge ds.brName)
  | addWireguard : Emits ds (.addWireguard ds.wgIfname)
  | addVxlan : Emits ds (addVxlanCmd ds)
  | addVlan : Emits ds (.addVlan ds.vlanLink ds.vlanIfname ds.vlanId)
  | addrAdd : Emits ds (.addrAdd ds.brAddr ds.brName)
  | gateway : Emits ds (.routeReplace defaultDst (some ds.brGateway) ds.brName)
  | peerRoute : Emits ds (.routeReplace (hostDst ds.wgPeerIp) none ds.wgRouteDev)
  | route (rt : DesiredRoute4) (via : Option AddrStr) : Emits ds (.routeReplace rt.dst via rt.dev)
  | dhcp (text : CStr) (h : substIface 256 ds.brName 0 ds.brDhcpCmd = some text) :
    Emits ds (.dhcp ds.brName text)
  | dhcpTooLong (h : substIface 256 ds.brName 0 ds.brDhcpCmd = none) :
    Emits ds (.comment "# bad yaml bridge.dhcp_cmd too long" [])
  | badAddr : Emits ds (.comment "# bad yaml bridge.addr %s" [ds.brAddr])
  | badGateway : Emits ds (.comment "# bad yaml bridge.gateway %s" [ds.brGateway])
  | badDns (dns : AddrStr) : Emits ds (.comment "# bad yaml bridge.dns %s" [dns])
  | setDns (dns : AddrStr) : Emits ds (.comment "# set dns %s dev %s" [dns, ds.brName])
  | provideUplink : Emits ds (.comment "# provide uplink iface %s" [ds.upIfname])
  | providePort (port : IfName) : Emits ds (.comment "# provide bridge port iface %s" [port])
  | badPeer : Emits ds (.comment "# bad yaml wg.peer_ip %s" [ds.wgPeerIp])
  | badRemote : Emits ds (.comment "# bad yaml vxlan.remote %s" [ds.vxRemote])
  | badDst (rt : DesiredRoute4) : Emits ds (.comment "# bad yaml route.dst %s" [rt.dst])
  | badVia (rt : DesiredRoute4) : Emits ds (.comment "# bad yaml route.via %s" [rt.via])

theorem bridgePart_emits : ∀ c ∈ bridgePart ds rs, Emits ds c := by
  refine List.forall_mem_append.mpr
    ⟨bridgeActs_all (.linkUp _) .addBridge fun _ => .linkDel _, ?_⟩
  refine List.forall_mem_append.mpr
    ⟨addrActs_all .dhcpTooLong .dhcp .badAddr fun _ _ => .addrAdd, ?_⟩
  refine List.forall_mem_append.mpr ⟨gatewayActs_all .badGateway fun _ => .gateway, ?_⟩
  exact List.forall_mem_flatMap.mpr fun dns _ => dnsActs_all (.badDns dns) (.setDns dns)

/-- **The commands of a plan are calls of `act`.** -/
theorem plan_emits : ∀ c ∈ plan ds rs, Emits ds c := by
  have huplink : ∀ c ∈ uplinkActs ds rs, Emits ds c := uplinkActs_all .provideUplink (.linkUp _)
  have hports : ∀ c ∈ ds.brPorts.val.flatMap (portActs ds rs), Emits ds c :=
    List.forall_mem_flatMap.mpr fun port _ =>
      portActs_all (.providePort port) (.linkUp _) (.setMaster _ _)
  have hroutes : ∀ c ∈ ds.routes.val.flatMap (routeActs rs), Emits ds c :=
    List.forall_mem_flatMap.mpr fun rt _ =>
      routeActs_all (.badDst rt) (.badVia rt) fun _ _ => .route rt _
  cases hs : Scenario.ofName ds.scenario with
  | none => simp [plan_of_unsupported hs]
  | some scn =>
    rw [plan_eq hs]
    refine List.forall_mem_append.mpr ⟨?_, hroutes⟩
    cases scn with
    | onlyUplink => exact huplink
    | uplinkBridge =>
      simp only [Scenario.acts, List.forall_mem_append]
      exact ⟨bridgePart_emits, huplink, masterActs_all (.setMaster _ _), hports⟩
    | vlanBridge =>
      simp only [Scenario.acts, List.forall_mem_append]
      exact ⟨bridgePart_emits, huplink, hports,
        vlanActs_all .addVlan (.linkUp _) (.setMaster _ _) fun _ _ => .linkDel _⟩
    | wgVxlanBridge =>
      simp only [Scenario.acts, List.forall_mem_append]
      refine ⟨bridgePart_emits, ?_, hports, peerRouteActs_all .badPeer fun _ => .peerRoute,
        wgActs_all .addWireguard (.linkUp _),
        vxlanActs_all .badRemote .addVxlan (.linkUp _) (.setMaster _ _) fun _ _ => .linkDel _⟩
      split_ifs
      · exact huplink
      · exact fun c hc => (by cases hc)

end Netrec
