import Netrec.Verify.Command

/-!
# The verifier

The checks of the verifier, in the order and with the messages of the source. Each one compares a
part of the desired state with the snapshot, prints `OK` or `MISS`, emits the commands that repair
a difference, and returns the number of differences. `verifyState` dispatches on the scenario and
then checks the routes.

## Main definitions

* `parseAddrPrefix`, `parseIp4`: addresses of the configuration
* `routeExact`, `addrExists`, `addrAnyExists`: searches in the snapshot
* `substIface`: expansion of `$iface` in the DHCP command
* `checkBridge`, ..., `checkVlanAttrs`: the checks
* `verifyOnlyUplink`, `verifyUplinkBridge`, `verifyVlanBridge`, `verifyWgVxlanBridge`: the
  scenarios
* `verifyScenario`: a scenario followed by its routes
* `plan`: the commands of a state over a snapshot
* `verifyState`: `verify_state`, with its effects
-/

namespace Netrec

open CLib

/-! ## Addresses and searches -/

/-- `parse_addr_prefix`. -/
def parseAddrPrefix (s : CStr) : Option (UInt32 × Int) :=
  if s = [] then none
  else
    match splitAtChar '/' (s.take 63) with
    | none => none
    | some (buf, p) =>
      match inetPton buf with
      | none => none
      | some addr =>
        let (v, rest, erange) := strtol 10 p
        if erange ∨ rest ≠ [] ∨ v < 0 ∨ v > 32 then none else some (addr, v)

/-- `parse_ip4`. -/
def parseIp4 (s : CStr) : Option UInt32 := inetPton s

/-- `route_exact`. -/
def routeExact (rs : RealState) (dst : UInt32) (plen oif : Int) (gw : UInt32) (hasGw : Bool) :
    Bool :=
  if oif ≤ 0 then false
  else
    rs.route4.any fun r =>
      r.oif = oif && r.plen = plen && r.dst = dst &&
        (if hasGw then r.hasGw && r.gw = gw else !r.hasGw)

/-- `addr_exists`. -/
def addrExists (rs : RealState) (ifindex : Int) (addr : UInt32) (plen : Int) : Bool :=
  rs.addr4.any fun a => a.ifindex = ifindex && a.plen = plen && a.addr = addr

/-- `addr_any_exists`. -/
def addrAnyExists (rs : RealState) (ifindex : Int) : Bool :=
  rs.addr4.any fun a => a.ifindex = ifindex

/-- The loop of `subst_iface` with `n` bytes written so far; `none` when the buffer is too
small. -/
def substIface (sz : Nat) (ifname : CStr) : Nat → CStr → Option CStr
  | _, [] => some []
  | n, '$' :: 'i' :: 'f' :: 'a' :: 'c' :: 'e' :: src =>
    if n + ifname.length ≥ sz then none
    else (substIface sz ifname (n + ifname.length) src).map (ifname ++ ·)
  | n, c :: src =>
    if n + 1 ≥ sz then none else (substIface sz ifname (n + 1) src).map (c :: ·)

/-! ## The bridge -/

/-- `check_bridge`. -/
def checkBridge (ds : DesiredState) (rs : RealState) : Verify Nat :=
  match rsFindIface rs ds.brName with
  | some br =>
    if br.isBridge then do
      ok "bridge %s exists" [ds.brName]
      if br.isUp then
        ok "bridge %s up" [ds.brName]
        return 0
      else
        miss "bridge %s up" [ds.brName]
        act (.linkUp ds.brName)
        return 1
    else do
      miss "bridge %s type bridge" [ds.brName]
      act (.linkDel ds.brName)
      act (.addBridge ds.brName)
      act (.linkUp ds.brName)
      return 1
  | none => do
    miss "bridge %s exists" [ds.brName]
    act (.addBridge ds.brName)
    act (.linkUp ds.brName)
    return 1

/-- `check_bridge_addr`. -/
def checkBridgeAddr (ds : DesiredState) (rs : RealState) : Verify Nat :=
  match ds.brAddrMode with
  | .none => return 0
  | .dhcp =>
    if (rsFindIface rs ds.brName).any fun br => addrAnyExists rs br.ifindex then do
      ok "dhcp addr dev %s" [ds.brName]
      return 0
    else do
      miss "dhcp addr dev %s" [ds.brName]
      match substIface 256 ds.brName 0 ds.brDhcpCmd with
      | none =>
        act (.comment "# bad yaml bridge.dhcp_cmd too long" [])
        return 1
      | some cmd =>
        act (.dhcp ds.brName cmd)
        return 1
  | .static =>
    match parseAddrPrefix ds.brAddr with
    | none => do
      miss "addr %s dev %s" [ds.brAddr, ds.brName]
      act (.comment "# bad yaml bridge.addr %s" [ds.brAddr])
      return 1
    | some (addr, plen) =>
      if (rsFindIface rs ds.brName).any fun br => addrExists rs br.ifindex addr plen then do
        ok "addr %s dev %s" [ds.brAddr, ds.brName]
        return 0
      else do
        miss "addr %s dev %s" [ds.brAddr, ds.brName]
        act (.addrAdd ds.brAddr ds.brName)
        return 1

/-- The destination of the default route. -/
def defaultDst : CStr := "0.0.0.0/0".toList

/-- `check_bridge_gateway`. -/
def checkBridgeGateway (ds : DesiredState) (rs : RealState) : Verify Nat :=
  if ds.brGateway.val = [] then return 0
  else
    match parseIp4 ds.brGateway with
    | none => do
      miss "gateway %s dev %s" [ds.brGateway, ds.brName]
      act (.comment "# bad yaml bridge.gateway %s" [ds.brGateway])
      return 1
    | some gw =>
      if (rsFindIface rs ds.brName).any fun br => routeExact rs 0 0 br.ifindex gw true then do
        ok "gateway %s dev %s" [ds.brGateway, ds.brName]
        return 0
      else do
        miss "gateway %s dev %s" [ds.brGateway, ds.brName]
        act (.routeReplace defaultDst (some ds.brGateway) ds.brName)
        return 1

/-- The loop body of `check_bridge_dns`. -/
def checkOneDns (ds : DesiredState) (rs : RealState) (dns : AddrStr) : Verify Nat :=
  match parseIp4 dns with
  | none => do
    miss "dns %s dev %s" [dns, ds.brName]
    act (.comment "# bad yaml bridge.dns %s" [dns])
    return 1
  | some addr =>
    if rsDns4Exists rs addr then do
      ok "dns %s dev %s" [dns, ds.brName]
      return 0
    else do
      miss "dns %s dev %s" [dns, ds.brName]
      act (.comment "# set dns %s dev %s" [dns, ds.brName])
      return 1

/-- `check_bridge_dns`. -/
def checkBridgeDns (ds : DesiredState) (rs : RealState) : Verify Nat :=
  sumDiff (checkOneDns ds rs) ds.brDns.val

/-! ## Routes -/

/-- The destination of a host route. -/
def hostDst (ip : CStr) : CStr := ip ++ "/32".toList

/-- `check_wg_peer_route`. -/
def checkWgPeerRoute (ds : DesiredState) (rs : RealState) : Verify Nat :=
  match parseIp4 ds.wgPeerIp with
  | none => do
    miss "route %s/32 dev %s" [ds.wgPeerIp, ds.wgRouteDev]
    act (.comment "# bad yaml wg.peer_ip %s" [ds.wgPeerIp])
    return 1
  | some ip =>
    if (rsFindIface rs ds.wgRouteDev).any fun dev => routeExact rs ip 32 dev.ifindex 0 false then do
      ok "route %s/32 dev %s" [ds.wgPeerIp, ds.wgRouteDev]
      return 0
    else do
      miss "route %s/32 dev %s" [ds.wgPeerIp, ds.wgRouteDev]
      act (.routeReplace (hostDst ds.wgPeerIp) none ds.wgRouteDev)
      return 1

/-- `via` as `check_one_route` parses it: `0` without a gateway, `none` for a malformed one. -/
def parseVia (rt : DesiredRoute4) : Option UInt32 :=
  if rt.hasVia then parseIp4 rt.via else some 0

/-- `check_one_route`. -/
def checkOneRoute (rs : RealState) (rt : DesiredRoute4) : Verify Nat :=
  match parseAddrPrefix rt.dst with
  | none => do
    miss "route %s dev %s" [rt.dst, rt.dev]
    act (.comment "# bad yaml route.dst %s" [rt.dst])
    return 1
  | some (dst, plen) =>
    match parseVia rt with
    | none => do
      miss "route %s via %s dev %s" [rt.dst, rt.via, rt.dev]
      act (.comment "# bad yaml route.via %s" [rt.via])
      return 1
    | some via =>
      if (rsFindIface rs rt.dev).any fun dev =>
          routeExact rs dst plen dev.ifindex via rt.hasVia then
        if rt.hasVia then do
          ok "route %s via %s dev %s" [rt.dst, rt.via, rt.dev]
          return 0
        else do
          ok "route %s dev %s" [rt.dst, rt.dev]
          return 0
      else
        if rt.hasVia then do
          miss "route %s via %s dev %s" [rt.dst, rt.via, rt.dev]
          act (.routeReplace rt.dst (some rt.via) rt.dev)
          return 1
        else do
          miss "route %s dev %s" [rt.dst, rt.dev]
          act (.routeReplace rt.dst none rt.dev)
          return 1

/-- `check_routes`. -/
def checkRoutes (ds : DesiredState) (rs : RealState) : Verify Nat :=
  sumDiff (checkOneRoute rs) ds.routes.val

/-! ## Interfaces -/

/-- `check_iface_exists`. -/
def checkIfaceExists (tag : String) (name : IfName) (iface : Option Iface) : Verify Nat :=
  if iface.isSome then do
    ok "%s %s exists" [tag.toList, name]
    return 0
  else do
    miss "%s %s exists" [tag.toList, name]
    return 1

/-- `check_iface_up`. -/
def checkIfaceUp (name : IfName) (iface : Option Iface) : Verify Nat :=
  match iface with
  | none => do
    miss "iface %s" [name]
    return 1
  | some iface =>
    if iface.isUp then do
      ok "iface %s up" [name]
      return 0
    else do
      miss "iface %s up" [name]
      act (.linkUp name)
      return 1

/-- `check_master`. -/
def checkMaster (ifname : IfName) (iface : Option Iface) (brName : IfName) (rs : RealState) :
    Verify Nat :=
  match iface with
  | none => return 0
  | some iface =>
    if (rsFindIface rs brName).any fun br => iface.master = br.ifindex then do
      ok "iface %s master %s" [ifname, brName]
      return 0
    else do
      miss "iface %s master %s" [ifname, brName]
      act (.setMaster ifname brName)
      return 1

/-- The loop body of `check_bridge_ports`. -/
def checkOnePort (ds : DesiredState) (rs : RealState) (name : IfName) : Verify Nat := do
  let port := rsFindIface rs name
  let d₁ ← checkIfaceExists "bridge-port" name port
  if port.isNone then
    act (.comment "# provide bridge port iface %s" [name])
    return d₁
  else
    let d₂ ← checkIfaceUp name port
    let d₃ ← checkMaster name port ds.brName rs
    return d₁ + d₂ + d₃

/-- `check_bridge_ports`. -/
def checkBridgePorts (ds : DesiredState) (rs : RealState) : Verify Nat :=
  sumDiff (checkOnePort ds rs) ds.brPorts.val

/-! ## VXLAN and VLAN -/

/-- An attribute that is immutable: `OK` or `MISS`, and one difference in the second case. -/
def checkAttr (good : Bool) (fmt : String) (args : List CStr) : Verify Nat :=
  if good then do
    ok fmt args
    return 0
  else do
    miss fmt args
    return 1

/-- `act_add_vxlan`. -/
def actAddVxlan (ds : DesiredState) : Verify Unit :=
  if ds.vxDev.val ≠ [] then act (.addVxlan ds.vxIfname ds.vxVni ds.vxRemote (some ds.vxDev))
  else act (.addVxlan ds.vxIfname ds.vxVni ds.vxRemote none)

/-- The remote address of `check_vxlan_attrs`: the difference, and whether to recreate. A malformed
address is a difference that recreating cannot repair. -/
def checkVxlanRemote (ds : DesiredState) (vx : Vxlan) : Verify (Nat × Bool) :=
  match parseIp4 ds.vxRemote with
  | none => do
    miss "vxlan %s remote %s" [ds.vxIfname, ds.vxRemote]
    act (.comment "# bad yaml vxlan.remote %s" [ds.vxRemote])
    return (1, false)
  | some remote => do
    let d ← checkAttr (vx.remote = some remote) "vxlan %s remote %s" [ds.vxIfname, ds.vxRemote]
    return (d, d ≠ 0)

/-- The parent of `check_vxlan_attrs`, checked only when it is configured. -/
def checkVxlanDev (ds : DesiredState) (rs : RealState) (vx : Vxlan) : Verify Nat :=
  if ds.vxDev.val = [] then return 0
  else
    checkAttr ((rsFindIface rs ds.vxDev).any fun dev => vx.link = some dev.ifindex)
      "vxlan %s dev %s" [ds.vxIfname, ds.vxDev]

/-- `check_vxlan_attrs`: the differences, and `*recreate`. -/
def checkVxlanAttrs (ds : DesiredState) (rs : RealState) (vxIf : Option Iface)
    (vx : Option Vxlan) : Verify (Nat × Bool) :=
  match vx with
  | none => do
    (if vxIf.isSome then do
      miss "iface %s type vxlan" [ds.vxIfname]
      act (.linkDel ds.vxIfname)
    else
      miss "iface %s" [ds.vxIfname])
    actAddVxlan ds
    act (.linkUp ds.vxIfname)
    act (.setMaster ds.vxIfname ds.vxBridge)
    return (1, true)
  | some vx => do
    ok "iface %s exists" [ds.vxIfname]
    let d₁ ← checkAttr (vx.vni = some ds.vxVni) "vxlan %s vni %u"
      [ds.vxIfname, dec ds.vxVni.toNat]
    let (d₂, r₂) ← checkVxlanRemote ds vx
    let d₃ ← checkVxlanDev ds rs vx
    if d₁ ≠ 0 ∨ r₂ ∨ d₃ ≠ 0 then
      act (.linkDel ds.vxIfname)
      actAddVxlan ds
      act (.linkUp ds.vxIfname)
      act (.setMaster ds.vxIfname ds.vxBridge)
      return (d₁ + d₂ + d₃, true)
    else
      let d₄ ← checkIfaceUp ds.vxIfname vxIf
      return (d₁ + d₂ + d₃ + d₄, false)

/-- `act_add_vlan`. -/
def actAddVlan (ds : DesiredState) : Verify Unit :=
  act (.addVlan ds.vlanLink ds.vlanIfname ds.vlanId)

/-- `check_vlan_attrs`: the differences, and `*recreate`. -/
def checkVlanAttrs (ds : DesiredState) (rs : RealState) (vlIf : Option Iface)
    (vl : Option Vlan) : Verify (Nat × Bool) :=
  match vl with
  | none => do
    (if vlIf.isSome then do
      miss "iface %s type vlan" [ds.vlanIfname]
      act (.linkDel ds.vlanIfname)
    else
      miss "iface %s" [ds.vlanIfname])
    actAddVlan ds
    act (.linkUp ds.vlanIfname)
    act (.setMaster ds.vlanIfname ds.vlanBridge)
    return (1, true)
  | some vl => do
    ok "iface %s exists" [ds.vlanIfname]
    let d₁ ← checkAttr (vl.id = some ds.vlanId) "vlan %s id %u"
      [ds.vlanIfname, dec ds.vlanId.toNat]
    let d₂ ← checkAttr ((rsFindIface rs ds.vlanLink).any fun link => vl.link = some link.ifindex)
      "vlan %s link %s" [ds.vlanIfname, ds.vlanLink]
    if d₁ ≠ 0 ∨ d₂ ≠ 0 then
      act (.linkDel ds.vlanIfname)
      actAddVlan ds
      act (.linkUp ds.vlanIfname)
      act (.setMaster ds.vlanIfname ds.vlanBridge)
      return (d₁ + d₂, true)
    else
      let d₃ ← checkIfaceUp ds.vlanIfname vlIf
      return (d₁ + d₂ + d₃, false)

/-! ## Scenarios -/

/-- `verify_only_uplink`. -/
def verifyOnlyUplink (ds : DesiredState) (rs : RealState) : Verify Nat := do
  let up := rsFindIface rs ds.upIfname
  let d₁ ← checkIfaceExists "uplink" ds.upIfname up
  if up.isNone then
    act (.comment "# provide uplink iface %s" [ds.upIfname])
    return d₁
  else
    let d₂ ← checkIfaceUp ds.upIfname up
    return d₁ + d₂

/-- The checks of the bridge itself, with which every bridge scenario starts. -/
def verifyBridge (ds : DesiredState) (rs : RealState) : Verify Nat := do
  let d₁ ← checkBridge ds rs
  let d₂ ← checkBridgeAddr ds rs
  let d₃ ← checkBridgeGateway ds rs
  let d₄ ← checkBridgeDns ds rs
  return d₁ + d₂ + d₃ + d₄

/-- `verify_uplink_bridge`. -/
def verifyUplinkBridge (ds : DesiredState) (rs : RealState) : Verify Nat := do
  let d₁ ← verifyBridge ds rs
  let d₂ ← verifyOnlyUplink ds rs
  let d₃ ← checkMaster ds.upIfname (rsFindIface rs ds.upIfname) ds.brName rs
  let d₄ ← checkBridgePorts ds rs
  return d₁ + d₂ + d₃ + d₄

/-- `verify_vlan_bridge`. -/
def verifyVlanBridge (ds : DesiredState) (rs : RealState) : Verify Nat := do
  let d₁ ← verifyBridge ds rs
  let d₂ ← verifyOnlyUplink ds rs
  let d₃ ← checkBridgePorts ds rs
  let vlIf := rsFindIface rs ds.vlanIfname
  let vl := rsFindVlan rs ds.vlanIfname
  let (d₄, recreate) ← checkVlanAttrs ds rs vlIf vl
  if recreate then
    return d₁ + d₂ + d₃ + d₄
  else
    let d₅ ← checkMaster ds.vlanIfname vlIf ds.vlanBridge rs
    return d₁ + d₂ + d₃ + d₄ + d₅

/-- The WireGuard interface of `verify_wg_vxlan_bridge`. -/
def checkWg (ds : DesiredState) (rs : RealState) : Verify Nat :=
  match rsFindIface rs ds.wgIfname with
  | some wg => do
    ok "iface %s exists" [ds.wgIfname]
    checkIfaceUp ds.wgIfname (some wg)
  | none => do
    miss "iface %s" [ds.wgIfname]
    act (.addWireguard ds.wgIfname)
    return 1

/-- `verify_wg_vxlan_bridge`. -/
def verifyWgVxlanBridge (ds : DesiredState) (rs : RealState) : Verify Nat := do
  let d₁ ← verifyBridge ds rs
  let d₂ ← (if ds.upIfname.val ≠ [] then verifyOnlyUplink ds rs else return 0)
  let d₃ ← checkBridgePorts ds rs
  let d₄ ← checkWgPeerRoute ds rs
  let d₅ ← checkWg ds rs
  let vxIf := rsFindIface rs ds.vxIfname
  let vx := rsFindVxlan rs ds.vxIfname
  let (d₆, recreate) ← checkVxlanAttrs ds rs vxIf vx
  if recreate then
    return d₁ + d₂ + d₃ + d₄ + d₅ + d₆
  else
    let d₇ ← checkMaster ds.vxIfname vxIf ds.vxBridge rs
    return d₁ + d₂ + d₃ + d₄ + d₅ + d₆ + d₇

/-- The dispatch of `verify_state`. -/
def Scenario.verify (ds : DesiredState) (rs : RealState) : Scenario → Verify Nat
  | .onlyUplink => verifyOnlyUplink ds rs
  | .uplinkBridge => verifyUplinkBridge ds rs
  | .vlanBridge => verifyVlanBridge ds rs
  | .wgVxlanBridge => verifyWgVxlanBridge ds rs

/-- A scenario followed by the routes. -/
def verifyScenario (ds : DesiredState) (rs : RealState) (scn : Scenario) : Verify Nat := do
  let d₁ ← scn.verify ds rs
  let d₂ ← checkRoutes ds rs
  return d₁ + d₂

/-- `verify_state(ds, rs, apply, act_fail)`: the differences, `*act_fail`, which an unsupported
scenario leaves as it is, and the surroundings afterwards. -/
def verifyState (ds : DesiredState) (rs : RealState) (apply actFail : Bool) (sys : Sys) :
    Int × Bool × Sys :=
  match Scenario.ofName ds.scenario with
  | none => (1, actFail, sys)
  | some scn =>
    let (diff, ctx) := (verifyScenario ds rs scn).run { apply, actFail := false, sys }
    (diff, ctx.actFail, ctx.sys)

/-- The commands `verify_state` emits, in order. -/
def plan (ds : DesiredState) (rs : RealState) : List Cmd :=
  match Scenario.ofName ds.scenario with
  | none => []
  | some scn => (verifyScenario ds rs scn).acts

end Netrec
