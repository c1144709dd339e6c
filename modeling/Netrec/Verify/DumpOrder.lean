import Netrec.CLib.Search
import Netrec.Verify.Spec

/-!
# The order of the dumps

The kernel promises no order for the entries of a dump. A check looks at a snapshot through three
searches by name, which stop at the first entry that matches, and through searches that ask only
whether an entry exists. When the names in a table are distinct, none of them depends on the order
of the entries, and two snapshots with the same entries are reported in the same way.

## Main definitions

* `SameEntries`: two snapshots with the same entries in each table
* `DistinctNames`: no two interfaces, VXLANs or VLANs of a snapshot have the same name
* `SameSearches`: two snapshots that no check can tell apart

## Main results

* `SameEntries.sameSearches`: the searches do not depend on the order
* `verifyState_dumpOrder`: what `verify_state` prints, executes and returns does not depend on it
-/

namespace Netrec

open CLib

/-! ## Snapshots that look the same -/

/-- The tables of the two snapshots are permutations of each other. -/
structure SameEntries (rs rs' : RealState) : Prop where
  ifaces : rs.ifaces.Perm rs'.ifaces
  addr4 : rs.addr4.Perm rs'.addr4
  route4 : rs.route4.Perm rs'.route4
  dns4 : rs.dns4.Perm rs'.dns4
  vxlan : rs.vxlan.Perm rs'.vxlan
  vlan : rs.vlan.Perm rs'.vlan

/-- Names are distinct within each of the tables that are searched by name. -/
structure DistinctNames (rs : RealState) : Prop where
  ifaces : (rs.ifaces.map fun i => i.name).Nodup
  vxlan : (rs.vxlan.map fun v => v.ifname).Nodup
  vlan : (rs.vlan.map fun v => v.ifname).Nodup

/-- Two snapshots that answer every search of `verify_state` in the same way. -/
structure SameSearches (rs rs' : RealState) : Prop where
  iface : rsFindIface rs = rsFindIface rs'
  vxlan : rsFindVxlan rs = rsFindVxlan rs'
  vlan : rsFindVlan rs = rsFindVlan rs'
  addr : addrExists rs = addrExists rs'
  addrAny : addrAnyExists rs = addrAnyExists rs'
  route : routeExact rs = routeExact rs'
  dns : rsDns4Exists rs = rsDns4Exists rs'

/-- **Searches do not depend on the order of the entries.** -/
theorem SameEntries.sameSearches {rs rs' : RealState} (h : SameEntries rs rs')
    (hd : DistinctNames rs) : SameSearches rs rs' where
  iface := funext (find?_key_perm h.ifaces hd.ifaces)
  vxlan := funext (find?_key_perm h.vxlan hd.vxlan)
  vlan := funext (find?_key_perm h.vlan hd.vlan)
  addr := by
    funext ifindex addr plen
    exact h.addr4.any_eq
  addrAny := by
    funext ifindex
    exact h.addr4.any_eq
  route := by
    funext dst plen oif gw hasGw
    simp only [routeExact, h.route4.any_eq]
  dns := by
    funext addr
    exact h.dns4.any_eq

/-! ## Checks that see the same -/

namespace SameSearches

variable {ds : DesiredState} {rs rs' : RealState}

theorem checkBridge_eq (h : SameSearches rs rs') : checkBridge ds rs = checkBridge ds rs' := by
  simp only [checkBridge, h.iface]

theorem checkBridgeAddr_eq (h : SameSearches rs rs') :
    checkBridgeAddr ds rs = checkBridgeAddr ds rs' := by
  simp only [checkBridgeAddr, h.iface, h.addr, h.addrAny]

theorem checkBridgeGateway_eq (h : SameSearches rs rs') :
    checkBridgeGateway ds rs = checkBridgeGateway ds rs' := by
  simp only [checkBridgeGateway, h.iface, h.route]

theorem checkBridgeDns_eq (h : SameSearches rs rs') :
    checkBridgeDns ds rs = checkBridgeDns ds rs' := by
  have hone : checkOneDns ds rs = checkOneDns ds rs' := by
    funext dns
    simp only [checkOneDns, h.dns]
  simp only [checkBridgeDns, hone]

theorem verifyBridge_eq (h : SameSearches rs rs') : verifyBridge ds rs = verifyBridge ds rs' := by
  simp only [verifyBridge, h.checkBridge_eq, h.checkBridgeAddr_eq, h.checkBridgeGateway_eq,
    h.checkBridgeDns_eq]

theorem checkWgPeerRoute_eq (h : SameSearches rs rs') :
    checkWgPeerRoute ds rs = checkWgPeerRoute ds rs' := by
  simp only [checkWgPeerRoute, h.iface, h.route]

theorem checkRoutes_eq (h : SameSearches rs rs') : checkRoutes ds rs = checkRoutes ds rs' := by
  have hone : checkOneRoute rs = checkOneRoute rs' := by
    funext rt
    simp only [checkOneRoute, h.iface, h.route]
  simp only [checkRoutes, hone]

theorem checkMaster_eq (h : SameSearches rs rs') (name br : IfName) (i : Option Iface) :
    checkMaster name i br rs = checkMaster name i br rs' := by
  simp only [checkMaster, h.iface]

theorem checkBridgePorts_eq (h : SameSearches rs rs') :
    checkBridgePorts ds rs = checkBridgePorts ds rs' := by
  have hone : checkOnePort ds rs = checkOnePort ds rs' := by
    funext name
    simp only [checkOnePort, h.iface, h.checkMaster_eq]
  simp only [checkBridgePorts, hone]

theorem verifyOnlyUplink_eq (h : SameSearches rs rs') :
    verifyOnlyUplink ds rs = verifyOnlyUplink ds rs' := by
  simp only [verifyOnlyUplink, h.iface]

theorem checkWg_eq (h : SameSearches rs rs') : checkWg ds rs = checkWg ds rs' := by
  simp only [checkWg, h.iface]

theorem checkVxlanAttrs_eq (h : SameSearches rs rs') (i : Option Iface) (vx : Option Vxlan) :
    checkVxlanAttrs ds rs i vx = checkVxlanAttrs ds rs' i vx := by
  simp only [checkVxlanAttrs, checkVxlanDev, h.iface]

theorem checkVlanAttrs_eq (h : SameSearches rs rs') (i : Option Iface) (vl : Option Vlan) :
    checkVlanAttrs ds rs i vl = checkVlanAttrs ds rs' i vl := by
  simp only [checkVlanAttrs, h.iface]

/-- **A scenario is reported in the same way for snapshots that look the same.** -/
theorem verifyScenario_eq (h : SameSearches rs rs') (scn : Scenario) :
    verifyScenario ds rs scn = verifyScenario ds rs' scn := by
  have hscn : scn.verify ds rs = scn.verify ds rs' := by
    cases scn with
    | onlyUplink => exact h.verifyOnlyUplink_eq
    | uplinkBridge =>
      simp only [Scenario.verify, verifyUplinkBridge, h.verifyBridge_eq, h.verifyOnlyUplink_eq,
        h.iface, h.checkMaster_eq, h.checkBridgePorts_eq]
    | vlanBridge =>
      simp only [Scenario.verify, verifyVlanBridge, h.verifyBridge_eq, h.verifyOnlyUplink_eq,
        h.checkBridgePorts_eq, h.iface, h.vlan, h.checkVlanAttrs_eq, h.checkMaster_eq]
    | wgVxlanBridge =>
      simp only [Scenario.verify, verifyWgVxlanBridge, h.verifyBridge_eq, h.verifyOnlyUplink_eq,
        h.checkBridgePorts_eq, h.checkWgPeerRoute_eq, h.checkWg_eq, h.iface, h.vxlan,
        h.checkVxlanAttrs_eq, h.checkMaster_eq]
  simp only [verifyScenario, hscn, h.checkRoutes_eq]

end SameSearches

/-- **The order of a dump does not matter.** Two snapshots with the same entries, and distinct
names, are reported with the same lines, repaired with the same commands and given the same number
of differences. -/
theorem verifyState_dumpOrder (ds : DesiredState) (rs rs' : RealState) (h : SameEntries rs rs')
    (hd : DistinctNames rs) (apply actFail : Bool) (sys : Sys) :
    verifyState ds rs apply actFail sys = verifyState ds rs' apply actFail sys := by
  have hsame := h.sameSearches hd
  unfold verifyState
  cases Scenario.ofName ds.scenario with
  | none => rfl
  | some scn => simp only [hsame.verifyScenario_eq]

/-- `vlanSnapshot` with its interfaces dumped in the opposite order. -/
def reversedSnapshot : RealState :=
  { vlanSnapshot with ifaces := vlanSnapshot.ifaces.reverse }

theorem reversedSnapshot_dumpOrder :
    reversedSnapshot ≠ vlanSnapshot ∧
      verifyState vlanState vlanSnapshot false false ⟨fun _ => .other, [], []⟩ =
        verifyState vlanState reversedSnapshot false false ⟨fun _ => .other, [], []⟩ := by
  refine ⟨by decide, verifyState_dumpOrder _ _ _ ?_ ?_ _ _ _⟩
  · exact ⟨(List.reverse_perm _).symm, .refl _, .refl _, .refl _, .refl _, .refl _⟩
  · exact ⟨by decide, by decide, by decide⟩

end Netrec
