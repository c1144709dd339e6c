import Netrec.Verify.Creation

/-!
# Repairing what a plan deletes

Deleting a device takes its addresses, its routes and, if it is a bridge, the membership of its
ports with it. Every check after the deletion still looks at the snapshot from before it, so a
requirement that was met there is not established again. What a plan establishes is computed part by
part: the requirements that the snapshot does not meet, and the bridge of a device that is created
again.

## Main definitions

* `Req`, `Req.holds`: a requirement, and whether a snapshot meets it
* `Cmd.establishes`: the requirement a command establishes
* `Scenario.reqs`, `routeReqs`, `requirements`: the requirements of a state
* `RepairsDeletions`: a plan establishes again what it deletes
* `RepairsAll`: when it does

## Main results

* `plan_repairsDeletions_iff`: when a plan repairs what it deletes
-/

namespace Netrec

open CLib

/-! ## Requirements -/

/-- Something a state asks of the system: an address, a route, or a port of a bridge. -/
inductive Req
  | addr (dev : IfName) (addr : UInt32) (plen : Int)
  | route (dst : UInt32) (plen : Int) (via : Option UInt32) (dev : IfName)
  | member (dev br : IfName)
  deriving DecidableEq

/-- The snapshot meets a requirement, as the checks decide it. -/
def Req.holds (rs : RealState) : Req → Bool
  | .addr dev a plen => (rsFindIface rs dev).any fun i => addrExists rs i.ifindex a plen
  | .route dst plen via dev =>
    (rsFindIface rs dev).any fun i => routeExact rs dst plen i.ifindex (via.getD 0) via.isSome
  | .member dev br =>
    (rsFindIface rs dev).any fun i => (rsFindIface rs br).any fun b => i.master = b.ifindex

/-- Deleting the device `x` takes the requirement with it. -/
def Req.LostWith (x : IfName) : Req → Prop
  | .addr dev _ _ => dev = x
  | .route _ _ _ dev => dev = x
  | .member _ br => br = x

instance (x : IfName) : DecidablePred (Req.LostWith x) := fun r => by
  cases r <;> exact inferInstanceAs (Decidable (_ = _))

/-- The gateway of a route command, if it is well formed. -/
def parseGateway : Option AddrStr → Option (Option UInt32)
  | none => some none
  | some via => (parseIp4 via).map some

/-- The requirement a command establishes. -/
def Cmd.establishes : Cmd → Option Req
  | .addrAdd addr dev => (parseAddrPrefix addr).map fun a => .addr dev a.1 a.2
  | .routeReplace dst via dev => do
    let d ← parseAddrPrefix dst
    let gw ← parseGateway via
    return .route d.1 d.2 gw dev
  | .setMaster dev br => some (.member dev br)
  | _ => none

section Requirements

variable (ds : DesiredState) (rs : RealState)

/-- The static address of the bridge. -/
def addrReq : Option Req :=
  if ds.brAddrMode = .static then
    (parseAddrPrefix ds.brAddr).map fun a => .addr ds.brName a.1 a.2
  else none

/-- The gateway of the bridge. -/
def gatewayReq : Option Req :=
  if ds.brGateway.val = [] then none
  else (parseIp4 ds.brGateway).map fun gw => .route 0 0 (some gw) ds.brName

/-- The membership of an existing interface. -/
def memberReq (br name : IfName) : Option Req :=
  if (rsFindIface rs name).isSome then some (.member name br) else none

/-- The host route to the WireGuard peer. -/
def peerRouteReq : Option Req :=
  (parseIp4 ds.wgPeerIp).map fun ip => .route ip 32 none ds.wgRouteDev

/-- A desired route. -/
def routeReq (rt : DesiredRoute4) : Option Req := do
  let d ← parseAddrPrefix rt.dst
  let via ← parseVia rt
  return .route d.1 d.2 (if rt.hasVia then some via else none) rt.dev

/-- The ports of the bridge that exist. -/
def portReqs : List Req := ds.brPorts.val.filterMap (memberReq rs ds.brName)

/-- The requirements of a scenario, without the routes. -/
def Scenario.reqs : Scenario → List Req
  | .onlyUplink => []
  | .uplinkBridge =>
    (addrReq ds).toList ++ ((gatewayReq ds).toList ++
      ((memberReq rs ds.brName ds.upIfname).toList ++ portReqs ds rs))
  | .vlanBridge => (addrReq ds).toList ++ ((gatewayReq ds).toList ++ portReqs ds rs)
  | .wgVxlanBridge =>
    (addrReq ds).toList ++ ((gatewayReq ds).toList ++ (portReqs ds rs ++ (peerRouteReq ds).toList))

/-- The desired routes. -/
def routeReqs : List Req := ds.routes.val.filterMap routeReq

/-- The requirements of a state that deleting a device can take away. -/
def requirements : List Req :=
  match Scenario.ofName ds.scenario with
  | none => []
  | some scn => scn.reqs ds rs ++ routeReqs ds

end Requirements

/-- After the deletion of `x`, the commands `cs` create it again and then establish every
requirement that was lost with it. -/
def Repaired (reqs : List Req) (x : IfName) (cs : List Cmd) : Prop :=
  ∀ r ∈ reqs, r.LostWith x →
    ∃ l c l', cs = l ++ c :: l' ∧ c.creates = some x ∧ ∃ e ∈ l', e.establishes = some r

/-- Every deletion of a plan is repaired by what follows it. -/
def RepairsDeletions (reqs : List Req) (cs : List Cmd) : Prop :=
  ForallSuffix (fun c rest => ∀ x, c = .linkDel x → Repaired reqs x rest) cs

/-! ## What a plan establishes -/

variable {ds : DesiredState} {rs : RealState}

/-- The requirements that the snapshot does not meet. -/
abbrev unmet (rs : RealState) (reqs : List Req) : List Req := reqs.filter fun r => !r.holds rs

theorem upActs_establishes {name : IfName} :
    (upActs rs name).filterMap Cmd.establishes = [] := by
  unfold upActs
  split <;> rfl

theorem masterActs_establishes {name br : IfName} :
    (masterActs rs name br).filterMap Cmd.establishes = unmet rs (memberReq rs br name).toList := by
  unfold masterActs memberReq
  cases h : rsFindIface rs name with
  | none => rfl
  | some i =>
    cases hm : (rsFindIface rs br).any fun b => i.master = b.ifindex <;>
      simp [hm, h, Req.holds, Cmd.establishes]

theorem bridgeActs_establishes : (bridgeActs ds rs).filterMap Cmd.establishes = [] := by
  unfold bridgeActs
  split
  · rfl
  · split
    · exact upActs_establishes
    · rfl

theorem addrActs_establishes :
    (addrActs ds rs).filterMap Cmd.establishes = unmet rs (addrReq ds).toList := by
  unfold addrActs addrReq
  cases ds.brAddrMode with
  | none => rfl
  | dhcp =>
    simp only
    split
    · rfl
    · split <;> rfl
  | static =>
    cases hp : parseAddrPrefix ds.brAddr with
    | none => rfl
    | some a =>
      obtain ⟨addr, plen⟩ := a
      cases hh : (rsFindIface rs ds.brName).any fun br => addrExists rs br.ifindex addr plen <;>
        simp [hh, Req.holds, Cmd.establishes, hp]

theorem defaultDst_parse : parseAddrPrefix defaultDst = some (0, 0) := by decide

theorem gatewayActs_establishes :
    (gatewayActs ds rs).filterMap Cmd.establishes = unmet rs (gatewayReq ds).toList := by
  unfold gatewayActs gatewayReq
  by_cases hn : ds.brGateway.val = []
  · simp [hn]
  · cases hp : parseIp4 ds.brGateway with
    | none => simp [hn, Cmd.establishes]
    | some gw =>
      cases hh : (rsFindIface rs ds.brName).any fun br => routeExact rs 0 0 br.ifindex gw true <;>
        simp [hn, hh, Req.holds, Cmd.establishes, defaultDst_parse, parseGateway, hp]

theorem dnsActs_establishes {dns : AddrStr} :
    (dnsActs ds rs dns).filterMap Cmd.establishes = [] := by
  unfold dnsActs
  split
  · rfl
  · split <;> rfl

theorem bridgePart_establishes : (bridgePart ds rs).filterMap Cmd.establishes =
    unmet rs ((addrReq ds).toList ++ (gatewayReq ds).toList) := by
  simp [bridgePart, bridgeActs_establishes, addrActs_establishes, gatewayActs_establishes,
    List.filterMap_flatMap, dnsActs_establishes]

theorem uplinkActs_establishes : (uplinkActs ds rs).filterMap Cmd.establishes = [] := by
  unfold uplinkActs
  split
  · rfl
  · exact upActs_establishes

theorem portActs_establishes {name : IfName} : (portActs ds rs name).filterMap Cmd.establishes =
    unmet rs (memberReq rs ds.brName name).toList := by
  unfold portActs
  split
  · simp_all [memberReq, Cmd.establishes]
  · simp [upActs_establishes, masterActs_establishes]

theorem unmet_filterMap {α : Type} (f : α → Option Req) (as : List α) :
    (as.flatMap fun a => unmet rs (f a).toList) = unmet rs (as.filterMap f) := by
  rw [unmet, List.filterMap_eq_flatMap_toList, List.filter_flatMap]

theorem ports_establishes :
    (ds.brPorts.val.flatMap (portActs ds rs)).filterMap Cmd.establishes =
      unmet rs (portReqs ds rs) := by
  simp only [List.filterMap_flatMap, portActs_establishes, portReqs, unmet_filterMap]

/-- A host route is parsed as it was meant. -/
theorem hostDst_parse {ip : AddrStr} {a : UInt32} (h : parseIp4 ip = some a) :
    parseAddrPrefix (hostDst ip) = some (a, 32) := by
  have hslash : '/' ∉ ip.val := fun hm => by
    have := inetPton_chars h hm
    revert this
    decide
  have hlen : ip.val.length < 16 := ip.length_lt
  have htake : (hostDst ip).take 63 = ip.val ++ '/' :: "32".toList := by
    rw [List.take_of_length_le (by simp [hostDst]; omega)]
    rfl
  have hne : hostDst ip ≠ [] := by simp [hostDst]
  have hlong : strtol 10 "32".toList = (32, [], false) := by decide
  rw [parseAddrPrefix, if_neg hne, htake, splitAtChar_append _ hslash]
  have hp : inetPton ip.val = some a := h
  simp only [hp, hlong]
  simp

theorem peerRouteActs_establishes : (peerRouteActs ds rs).filterMap Cmd.establishes =
    unmet rs (peerRouteReq ds).toList := by
  unfold peerRouteActs peerRouteReq
  cases hp : parseIp4 ds.wgPeerIp with
  | none => rfl
  | some ip =>
    cases hh : (rsFindIface rs ds.wgRouteDev).any fun dev =>
        routeExact rs ip 32 dev.ifindex 0 false <;>
      simp [hh, Req.holds, Cmd.establishes, hostDst_parse hp, parseGateway]

theorem routeActs_establishes {rt : DesiredRoute4} :
    (routeActs rs rt).filterMap Cmd.establishes = unmet rs (routeReq rt).toList := by
  unfold routeActs routeReq
  cases hp : parseAddrPrefix rt.dst with
  | none => rfl
  | some d =>
    obtain ⟨dst, plen⟩ := d
    cases hv : parseVia rt with
    | none => rfl
    | some via =>
      have hgw : parseGateway (if rt.hasVia then some rt.via else none) =
          some (if rt.hasVia then some via else none) := by
        unfold parseVia at hv
        cases hg : rt.hasVia <;> simp_all [parseGateway]
      have hex : ∀ i : Iface, routeExact rs dst plen i.ifindex
          ((if rt.hasVia then some via else none).getD 0)
          (if rt.hasVia then some via else none).isSome =
            routeExact rs dst plen i.ifindex via rt.hasVia := by
        intro i
        cases hg : rt.hasVia <;> simp [routeExact]
      cases hh : (rsFindIface rs rt.dev).any fun dev =>
          routeExact rs dst plen dev.ifindex via rt.hasVia <;>
        simp [hh, Req.holds, hex, Cmd.establishes, hp, hgw]

theorem routes_establishes : (ds.routes.val.flatMap (routeActs rs)).filterMap Cmd.establishes =
    unmet rs (routeReqs ds) := by
  simp only [List.filterMap_flatMap, routeActs_establishes, routeReqs, unmet_filterMap]

theorem recreate_establishes {old : Bool} {add : Cmd} {dev br : IfName}
    (h : add.establishes = none) :
    (recreate old add dev br).filterMap Cmd.establishes = [.member dev br] := by
  have hdel : (Cmd.linkDel dev).establishes = none := rfl
  have hup : (Cmd.linkUp dev).establishes = none := rfl
  have hmaster : (Cmd.setMaster dev br).establishes = some (.member dev br) := rfl
  cases old <;> simp [recreate, h, hdel, hup, hmaster]

theorem wgActs_establishes : (wgActs ds rs).filterMap Cmd.establishes = [] := by
  unfold wgActs
  split
  · rfl
  · exact upActs_establishes

/-- What putting a device into its bridge establishes, when the device may be created again. -/
def enslaved (rs : RealState) (kept : Bool) (dev br : IfName) : List Req :=
  if kept then unmet rs (memberReq rs br dev).toList else [.member dev br]

theorem vlanActs_establishes : (vlanActs ds rs).filterMap Cmd.establishes =
    enslaved rs (vlanKept ds rs) ds.vlanIfname ds.vlanBridge := by
  unfold vlanActs enslaved
  split
  · rw [List.filterMap_append, upActs_establishes, masterActs_establishes, List.nil_append]
  · exact recreate_establishes rfl

theorem vxlanActs_establishes : (vxlanActs ds rs).filterMap Cmd.establishes =
    enslaved rs (vxlanKept ds rs) ds.vxIfname ds.vxBridge := by
  have hr : (vxRemoteActs ds rs).filterMap Cmd.establishes = [] := by
    unfold vxRemoteActs
    split <;> rfl
  unfold vxlanActs enslaved
  rw [List.filterMap_append, hr, List.nil_append]
  split
  · rw [List.filterMap_append, upActs_establishes, masterActs_establishes, List.nil_append]
  · exact recreate_establishes rfl

/-- The device that a scenario puts into its bridge last, and whether it is kept. -/
def Scenario.enslaves (ds : DesiredState) (rs : RealState) : Scenario → List Req
  | .onlyUplink => []
  | .uplinkBridge => []
  | .vlanBridge => enslaved rs (vlanKept ds rs) ds.vlanIfname ds.vlanBridge
  | .wgVxlanBridge => enslaved rs (vxlanKept ds rs) ds.vxIfname ds.vxBridge

/-- **What a plan establishes**: what the snapshot does not meet, and the bridge of a device that is
created again. -/
theorem scenario_establishes (scn : Scenario) : (scn.acts ds rs).filterMap Cmd.establishes =
    unmet rs (scn.reqs ds rs) ++ scn.enslaves ds rs := by
  have hup : (if ds.upIfname.val ≠ [] then uplinkActs ds rs else []).filterMap Cmd.establishes =
      [] := by
    split
    · exact uplinkActs_establishes
    · rfl
  cases scn <;>
    simp only [Scenario.acts, Scenario.reqs, Scenario.enslaves, List.filterMap_append, unmet,
      List.filter_append, bridgePart_establishes, uplinkActs_establishes, masterActs_establishes,
      ports_establishes, vlanActs_establishes, peerRouteActs_establishes, wgActs_establishes,
      vxlanActs_establishes, hup, List.append_assoc, List.append_nil, List.nil_append,
      List.filter_nil]

/-! ## Deletions -/

theorem repaired_cons {reqs : List Req} {x : IfName} {c : Cmd} {cs : List Cmd}
    (hc : c.creates = some x) : Repaired reqs x (c :: cs) ↔
      ∀ r ∈ reqs, r.LostWith x → r ∈ cs.filterMap Cmd.establishes := by
  refine forall₂_congr fun r _ => forall_congr' fun _ => ?_
  rw [List.mem_filterMap]
  constructor
  · rintro ⟨l, d, l', he, -, e, he', hr⟩
    refine ⟨e, ?_, hr⟩
    cases l with
    | nil =>
      obtain ⟨rfl, rfl⟩ := List.cons.inj he
      exact he'
    | cons d' l =>
      obtain ⟨rfl, rfl⟩ := List.cons.inj he
      exact List.mem_append_right _ (List.mem_cons_of_mem _ he')
  · rintro ⟨e, he, hr⟩
    exact ⟨[], c, cs, rfl, hc, e, he, hr⟩

/-- A deletion that is directly followed by the creation of the device. -/
theorem repairsDeletions_linkDel {reqs : List Req} {x : IfName} {c : Cmd} {cs : List Cmd}
    (hc : c.creates = some x) : RepairsDeletions reqs (.linkDel x :: c :: cs) ↔
      (∀ r ∈ reqs, r.LostWith x → r ∈ cs.filterMap Cmd.establishes) ∧
        RepairsDeletions reqs (c :: cs) := by
  rw [RepairsDeletions, forallSuffix_cons, ← repaired_cons hc]
  simp only [Cmd.linkDel.injEq, forall_eq']
  rfl

/-- Commands that delete nothing. -/
theorem repairsDeletions_append {reqs : List Req} {cs cs' : List Cmd} (h : ∀ x, .linkDel x ∉ cs) :
    RepairsDeletions reqs (cs ++ cs') ↔ RepairsDeletions reqs cs' := by
  rw [RepairsDeletions, forallSuffix_append, and_iff_right]
  · rfl
  · rintro l c l' rfl x rfl
    exact absurd (by simp) (h x)

theorem Quiet.linkDel_notMem {dev x : IfName} {cs : List Cmd} (h : Quiet rs dev cs) :
    .linkDel x ∉ cs := by
  intro hx
  simpa [Cmd.life] using (h _ hx).1

theorem linkDel_notMem_wgActs {x : IfName} : .linkDel x ∉ wgActs ds rs := by
  intro hx
  have hne : ∀ c ∈ wgActs ds rs, c ≠ .linkDel x := wgActs_all (by simp) (by simp)
  exact hne _ hx rfl

/-- The snapshot has the bridge as another kind of interface. -/
def BridgeDeleted (ds : DesiredState) (rs : RealState) : Prop :=
  ∃ br, rsFindIface rs ds.brName = some br ∧ br.isBridge = false

theorem bridgeActs_repairs {reqs : List Req} {cs : List Cmd} :
    RepairsDeletions reqs (bridgeActs ds rs ++ cs) ↔
      (BridgeDeleted ds rs → ∀ r ∈ reqs, r.LostWith ds.brName → r ∈ cs.filterMap Cmd.establishes) ∧
        RepairsDeletions reqs cs := by
  have hadd : ∀ x, Cmd.linkDel x ∉ [Cmd.addBridge ds.brName, .linkUp ds.brName] := by simp
  have hskip : RepairsDeletions reqs (.addBridge ds.brName :: .linkUp ds.brName :: cs) ↔
    RepairsDeletions reqs cs := repairsDeletions_append hadd
  unfold bridgeActs BridgeDeleted
  cases h : rsFindIface rs ds.brName with
  | none => simp [hskip]
  | some br =>
    cases hb : br.isBridge with
    | true =>
      have hup : ∀ x, Cmd.linkDel x ∉ upActs rs ds.brName :=
        fun x => (@quiet_upActs rs ds.brName ds.brName).linkDel_notMem
      simp [hb, repairsDeletions_append hup]
    | false =>
      have hest : (Cmd.linkUp ds.brName :: cs).filterMap Cmd.establishes =
        cs.filterMap Cmd.establishes := rfl
      have hdel := @repairsDeletions_linkDel reqs ds.brName (.addBridge ds.brName)
        (.linkUp ds.brName :: cs) rfl
      rw [hest, hskip] at hdel
      simpa [hb] using hdel

theorem recreate_repairs {reqs : List Req} {old : Bool} {add : Cmd} {dev br : IfName}
    {cs : List Cmd} (h : add.creates = some dev) :
    RepairsDeletions reqs (recreate old add dev br ++ cs) ↔
      (old = true → ∀ r ∈ reqs, r.LostWith dev →
        r = .member dev br ∨ r ∈ cs.filterMap Cmd.establishes) ∧ RepairsDeletions reqs cs := by
  have hadd : ∀ x, Cmd.linkDel x ∉ [add, .linkUp dev, .setMaster dev br] := by
    intro x hx
    simp only [List.mem_cons, reduceCtorEq, List.not_mem_nil, or_false] at hx
    simp [← hx, Cmd.creates] at h
  have hskip : RepairsDeletions reqs (add :: .linkUp dev :: .setMaster dev br :: cs) ↔
    RepairsDeletions reqs cs := repairsDeletions_append hadd
  cases old with
  | false => simp [recreate, hskip]
  | true =>
    have hest : (Cmd.linkUp dev :: .setMaster dev br :: cs).filterMap Cmd.establishes =
      .member dev br :: cs.filterMap Cmd.establishes := rfl
    have hdel := @repairsDeletions_linkDel reqs dev add (.linkUp dev :: .setMaster dev br :: cs) h
    rw [hest, hskip] at hdel
    simpa [recreate] using hdel

/-! ## Plans -/

theorem vlanActs_repairs {reqs : List Req} {cs : List Cmd} :
    RepairsDeletions reqs (vlanActs ds rs ++ cs) ↔
      (vlanKept ds rs = false →
        (rsFindIface rs ds.vlanIfname).isSome || (rsFindVlan rs ds.vlanIfname).isSome →
        ∀ r ∈ reqs, r.LostWith ds.vlanIfname →
          r = .member ds.vlanIfname ds.vlanBridge ∨ r ∈ cs.filterMap Cmd.establishes) ∧
        RepairsDeletions reqs cs := by
  unfold vlanActs
  cases vlanKept ds rs with
  | true =>
    have hq : Quiet rs _ (upActs rs ds.vlanIfname ++ masterActs rs ds.vlanIfname ds.vlanBridge) :=
      quiet_upActs.append quiet_masterActs
    simp only [if_true, repairsDeletions_append fun x => hq.linkDel_notMem, reduceCtorEq,
      false_implies, true_and]
  | false =>
    simp only [Bool.false_eq_true, if_false, true_implies]
    exact recreate_repairs rfl

theorem vxlanActs_repairs {reqs : List Req} {cs : List Cmd} :
    RepairsDeletions reqs (vxlanActs ds rs ++ cs) ↔
      (vxlanKept ds rs = false →
        (rsFindIface rs ds.vxIfname).isSome || (rsFindVxlan rs ds.vxIfname).isSome →
        ∀ r ∈ reqs, r.LostWith ds.vxIfname →
          r = .member ds.vxIfname ds.vxBridge ∨ r ∈ cs.filterMap Cmd.establishes) ∧
        RepairsDeletions reqs cs := by
  have hr : ∀ x, .linkDel x ∉ vxRemoteActs ds rs :=
    fun x => (@quiet_vxRemoteActs ds rs ds.vxIfname).linkDel_notMem
  unfold vxlanActs
  rw [List.append_assoc, repairsDeletions_append hr]
  cases vxlanKept ds rs with
  | true =>
    have hq : Quiet rs _ (upActs rs ds.vxIfname ++ masterActs rs ds.vxIfname ds.vxBridge) :=
      quiet_upActs.append quiet_masterActs
    simp only [if_true, repairsDeletions_append fun x => hq.linkDel_notMem, reduceCtorEq,
      false_implies, true_and]
  | false =>
    simp only [Bool.false_eq_true, if_false, true_implies]
    exact recreate_repairs rfl

/-- The membership of a device that a scenario creates again. -/
def Scenario.recreated (ds : DesiredState) (rs : RealState) : Scenario → List Req
  | .onlyUplink => []
  | .uplinkBridge => []
  | .vlanBridge => if vlanKept ds rs then [] else [.member ds.vlanIfname ds.vlanBridge]
  | .wgVxlanBridge => if vxlanKept ds rs then [] else [.member ds.vxIfname ds.vxBridge]

/-- When the deletion of the bridge is repaired: the snapshot does not meet the requirements that
are lost with it, or they are the membership of a device that is created again. -/
def BridgeRepaired (ds : DesiredState) (rs : RealState) (scn : Scenario) : Prop :=
  BridgeDeleted ds rs → ∀ r ∈ requirements ds rs, r.LostWith ds.brName →
    r.holds rs = false ∨ r ∈ scn.recreated ds rs

/-- When the deletion of a VLAN or VXLAN is repaired: only routes, which the snapshot does not have,
and its own membership are lost with it. -/
def DeviceRepaired (ds : DesiredState) (rs : RealState) (dev br : IfName) : Prop :=
  ∀ r ∈ requirements ds rs, r.LostWith dev →
    r = .member dev br ∨ (r ∈ routeReqs ds ∧ r.holds rs = false)

/-- When the plan of a scenario repairs what it deletes. -/
def RepairsAll (ds : DesiredState) (rs : RealState) : Scenario → Prop
  | .onlyUplink => True
  | .uplinkBridge => BridgeRepaired ds rs .uplinkBridge
  | .vlanBridge =>
    BridgeRepaired ds rs .vlanBridge ∧
      (vlanKept ds rs = false →
        (rsFindIface rs ds.vlanIfname).isSome || (rsFindVlan rs ds.vlanIfname).isSome →
        DeviceRepaired ds rs ds.vlanIfname ds.vlanBridge)
  | .wgVxlanBridge =>
    BridgeRepaired ds rs .wgVxlanBridge ∧
      (vxlanKept ds rs = false →
        (rsFindIface rs ds.vxIfname).isSome || (rsFindVxlan rs ds.vxIfname).isSome →
        DeviceRepaired ds rs ds.vxIfname ds.vxBridge)

theorem mem_unmet {r : Req} {reqs : List Req} :
    r ∈ unmet rs reqs ↔ r ∈ reqs ∧ r.holds rs = false := by
  simp [unmet]

theorem mem_enslaved {kept : Bool} {dev br : IfName} {r : Req} :
    r ∈ enslaved rs kept dev br →
      r.holds rs = false ∨ r ∈ if kept then [] else [Req.member dev br] := by
  cases kept with
  | true => exact fun h => .inl (mem_unmet.mp h).2
  | false => exact .inr

theorem enslaved_of_recreated {kept : Bool} {dev br : IfName} {r : Req}
    (h : r ∈ if kept then [] else [Req.member dev br]) : r ∈ enslaved rs kept dev br := by
  cases kept with
  | true => exact absurd h (by simp)
  | false => exact h

theorem mem_enslaves {scn : Scenario} {r : Req} (h : r ∈ scn.enslaves ds rs) :
    r.holds rs = false ∨ r ∈ scn.recreated ds rs := by
  cases scn with
  | onlyUplink => exact absurd h (by simp [Scenario.enslaves])
  | uplinkBridge => exact absurd h (by simp [Scenario.enslaves])
  | vlanBridge => exact mem_enslaved h
  | wgVxlanBridge => exact mem_enslaved h

theorem recreated_subset {scn : Scenario} {r : Req} (h : r ∈ scn.recreated ds rs) :
    r ∈ scn.enslaves ds rs := by
  cases scn with
  | onlyUplink => exact h
  | uplinkBridge => exact h
  | vlanBridge => exact enslaved_of_recreated h
  | wgVxlanBridge => exact enslaved_of_recreated h

/-- A bridge scenario repairs the deletion of its bridge with what it establishes. -/
theorem scenario_repairs {scn : Scenario} (hs : Scenario.ofName ds.scenario = some scn)
    {cs : List Cmd} (h : scn.acts ds rs = bridgeActs ds rs ++ cs) :
    RepairsDeletions (requirements ds rs) (plan ds rs) ↔ BridgeRepaired ds rs scn ∧
      RepairsDeletions (requirements ds rs) (cs ++ ds.routes.val.flatMap (routeActs rs)) := by
  have hest : (cs ++ ds.routes.val.flatMap (routeActs rs)).filterMap Cmd.establishes =
      unmet rs (scn.reqs ds rs) ++ scn.enslaves ds rs ++ unmet rs (routeReqs ds) := by
    rw [← scenario_establishes, h, List.filterMap_append, List.filterMap_append,
      bridgeActs_establishes, routes_establishes, List.nil_append]
  rw [plan_eq hs, h, List.append_assoc, bridgeActs_repairs, hest]
  refine and_congr_left fun _ => forall_congr' fun _ => forall₂_congr fun r hr =>
    forall_congr' fun _ => ?_
  simp only [requirements, hs, List.mem_append] at hr
  simp only [List.mem_append, mem_unmet]
  constructor
  · rintro ((hr | hr) | hr)
    · exact .inl hr.2
    · exact mem_enslaves hr
    · exact .inl hr.2
  · rintro (hn | hrec)
    · exact hr.elim (fun h => .inl (.inl ⟨h, hn⟩)) fun h => .inr ⟨h, hn⟩
    · exact .inl (.inr (recreated_subset hrec))

theorem routes_repairs {reqs : List Req} :
    RepairsDeletions reqs (ds.routes.val.flatMap (routeActs rs)) := by
  rintro l c l' he x rfl
  have hx : .linkDel x ∈ ds.routes.val.flatMap (routeActs rs) := by simp [he]
  obtain ⟨rt, -, hx⟩ := List.mem_flatMap.mp hx
  exact absurd hx quiet_routeActs.linkDel_notMem

theorem mem_routes_establishes {r : Req} :
    r ∈ (ds.routes.val.flatMap (routeActs rs)).filterMap Cmd.establishes ↔
      r ∈ routeReqs ds ∧ r.holds rs = false := by
  rw [routes_establishes, mem_unmet]

theorem uplinkBridge_repairs (hs : Scenario.ofName ds.scenario = some .uplinkBridge) :
    RepairsDeletions (requirements ds rs) (plan ds rs) ↔ RepairsAll ds rs .uplinkBridge := by
  have hup : Quiet rs ds.brName (uplinkActs ds rs) := quiet_uplinkActs
  have hq := quiet_bridgeRest.append (hup.append
    ((@quiet_masterActs rs ds.upIfname ds.brName).append quiet_ports))
  rw [scenario_repairs hs (by simp only [Scenario.acts, bridgePart_eq, List.append_assoc]; rfl),
    repairsDeletions_append fun x => hq.linkDel_notMem]
  exact and_iff_left routes_repairs

theorem vlanBridge_repairs (hs : Scenario.ofName ds.scenario = some .vlanBridge) :
    RepairsDeletions (requirements ds rs) (plan ds rs) ↔ RepairsAll ds rs .vlanBridge := by
  rw [scenario_repairs hs acts_vlanBridge, List.append_assoc,
    repairsDeletions_append fun x => quiet_vlanMiddle.linkDel_notMem, vlanActs_repairs]
  simp only [mem_routes_establishes, routes_repairs, and_true]
  rfl

theorem wgVxlanBridge_repairs (hs : Scenario.ofName ds.scenario = some .wgVxlanBridge) :
    RepairsDeletions (requirements ds rs) (plan ds rs) ↔ RepairsAll ds rs .wgVxlanBridge := by
  rw [scenario_repairs hs acts_wgVxlanBridge, List.append_assoc,
    repairsDeletions_append fun x => quiet_wgMiddle.linkDel_notMem, List.append_assoc,
    repairsDeletions_append fun x => quiet_peerRouteActs.linkDel_notMem, List.append_assoc,
    repairsDeletions_append fun x => linkDel_notMem_wgActs, vxlanActs_repairs]
  simp only [mem_routes_establishes, routes_repairs, and_true]
  rfl

/-- **When a plan repairs what it deletes.** -/
theorem plan_repairsDeletions_iff (ds : DesiredState) (rs : RealState) :
    RepairsDeletions (requirements ds rs) (plan ds rs) ↔
      ∀ scn, Scenario.ofName ds.scenario = some scn → RepairsAll ds rs scn := by
  cases hs : Scenario.ofName ds.scenario with
  | none => simp [plan_of_unsupported hs, RepairsDeletions, forallSuffix_nil]
  | some scn =>
    simp only [Option.some.injEq, forall_eq']
    cases scn with
    | onlyUplink =>
      have hup : Quiet rs ds.brName (uplinkActs ds rs) := quiet_uplinkActs
      rw [plan_eq hs, Scenario.acts, repairsDeletions_append fun x => hup.linkDel_notMem]
      exact iff_of_true routes_repairs trivial
    | uplinkBridge => exact uplinkBridge_repairs hs
    | vlanBridge => exact vlanBridge_repairs hs
    | wgVxlanBridge => exact wgVxlanBridge_repairs hs

/-- A bridge with an address. -/
def addressedBridge : DesiredState :=
  { DesiredState.zero with
    scenario := cpy _ "uplink_bridge".toList
    brName := cpy _ "br0".toList
    brAddrMode := .static
    brAddr := cpy _ "10.0.0.1/24".toList
    upIfname := cpy _ "eth0".toList }

/-- A snapshot in which `br0` carries the address but is not a bridge. -/
def addressedDummy : RealState where
  ifaces :=
    [{ name := cpy _ "br0".toList, kind := cpy _ "dummy".toList, ifindex := 1, flags := 1,
       master := 0 },
      { name := cpy _ "eth0".toList, kind := .empty, ifindex := 2, flags := 1, master := 0 }]
  addr4 := [⟨1, 0x0a000001, 24⟩]
  route4 := []
  dns4 := []
  vxlan := []
  vlan := []

theorem addressedDummy_not_repaired :
    (plan addressedBridge addressedDummy).map Cmd.text = [
        "ip link del br0".toList,
        "ip link add br0 type bridge".toList,
        "ip link set br0 up".toList,
        "ip link set eth0 master br0".toList] ∧
      ¬ RepairsDeletions (requirements addressedBridge addressedDummy)
        (plan addressedBridge addressedDummy) := by
  refine ⟨by decide +kernel, fun h => ?_⟩
  have hplan : plan addressedBridge addressedDummy =
      [.linkDel (cpy _ "br0".toList), .addBridge (cpy _ "br0".toList),
        .linkUp (cpy _ "br0".toList), .setMaster (cpy _ "eth0".toList) (cpy _ "br0".toList)] := by
    decide +kernel
  rw [hplan, repairsDeletions_linkDel rfl] at h
  have hr := h.1 (.addr (cpy _ "br0".toList) 0x0a000001 24) (by decide +kernel) rfl
  exact absurd hr (by decide +kernel)

end Netrec
