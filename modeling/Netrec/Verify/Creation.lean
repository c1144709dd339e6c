import Netrec.CLib.Lifetime
import Netrec.Run
import Netrec.Verify.Plan

/-!
# Creating devices

When a plan mentions a device that it has yet to create, and when the plans of several states over
one snapshot create a device twice. Only the bridge, the WireGuard interface, the VLAN and the VXLAN
are created, each at one place of the plan, and everything else a plan mentions before that place is
the bridge, an interface of the snapshot, or the device of the peer route.

## Main definitions

* `Cmd.creates`, `Cmd.names`, `Cmd.life`: the devices of a command
* `CreatesInOrder`: when a plan creates devices before mentioning them
* `creations`: the devices a state creates

## Main results

* `plan_inOrder_iff`: when the plan of a state creates devices before mentioning them
* `runVerifySet_addsOnce_iff`: when a set creates no device twice
-/

namespace Netrec

open CLib

/-- The device a command creates. -/
def Cmd.creates : Cmd → Option IfName
  | .addBridge dev => some dev
  | .addWireguard dev => some dev
  | .addVxlan dev _ _ _ => some dev
  | .addVlan _ dev _ => some dev
  | _ => none

/-- The devices a command names. -/
def Cmd.names : Cmd → List IfName
  | .linkUp dev => [dev]
  | .linkDel dev => [dev]
  | .addBridge dev => [dev]
  | .addWireguard dev => [dev]
  | .addVxlan dev _ _ parent => dev :: parent.toList
  | .addVlan link dev _ => [link, dev]
  | .setMaster dev br => [dev, br]
  | .addrAdd _ dev => [dev]
  | .routeReplace _ _ dev => [dev]
  | .dhcp dev _ => [dev]
  | .comment _ _ => []

/-- The creation or deletion a command stands for. -/
def Cmd.life : Cmd → Option (Life IfName)
  | .linkDel dev => some (.del dev)
  | c => c.creates.map .add

theorem Cmd.creates_eq_none_of_life {c : Cmd} (h : c.life = none) : c.creates = none := by
  cases c <;> simp_all [Cmd.life, Cmd.creates]

variable {ds : DesiredState} {rs : RealState}

/-- A device that the snapshot does not have. -/
def Absent (rs : RealState) (dev : IfName) : Prop := rsFindIface rs dev = none

instance (rs : RealState) : DecidablePred (Absent rs) :=
  fun dev => inferInstanceAs (Decidable (rsFindIface rs dev = none))

/-! ## Parts that create nothing -/

/-- Commands that create and delete nothing and that name only `dev` and interfaces of the
snapshot. -/
def Quiet (rs : RealState) (dev : IfName) (cs : List Cmd) : Prop :=
  ∀ c ∈ cs, c.life = none ∧ ∀ x ∈ c.names, x = dev ∨ ¬ Absent rs x

theorem Quiet.nil {dev : IfName} : Quiet rs dev [] := by
  intro c hc
  simp at hc

theorem Quiet.append {dev : IfName} {cs cs' : List Cmd} (h : Quiet rs dev cs)
    (h' : Quiet rs dev cs') : Quiet rs dev (cs ++ cs') := by
  intro c hc
  exact (List.mem_append.mp hc).elim (h c) (h' c)

theorem Quiet.flatMap {α : Type} {dev : IfName} {f : α → List Cmd} {as : List α}
    (h : ∀ a ∈ as, Quiet rs dev (f a)) : Quiet rs dev (as.flatMap f) := by
  intro c hc
  obtain ⟨a, ha, hc⟩ := List.mem_flatMap.mp hc
  exact h a ha c hc

theorem Quiet.filterMap_life {dev : IfName} {cs : List Cmd} (h : Quiet rs dev cs) :
    cs.filterMap Cmd.life = [] :=
  List.filterMap_eq_nil_iff.mpr fun c hc => (h c hc).1

theorem Quiet.filterMap_creates {dev : IfName} {cs : List Cmd} (h : Quiet rs dev cs) :
    cs.filterMap Cmd.creates = [] :=
  List.filterMap_eq_nil_iff.mpr fun c hc => Cmd.creates_eq_none_of_life (h c hc).1

theorem Quiet.eq_of_absent {dev x : IfName} {cs : List Cmd} (h : Quiet rs dev cs)
    (hx : x ∈ cs.flatMap Cmd.names) (ha : Absent rs x) : x = dev := by
  obtain ⟨c, hc, hx⟩ := List.mem_flatMap.mp hx
  exact ((h c hc).2 x hx).resolve_right (not_not.mpr ha)

theorem quiet_comment {dev : IfName} {fmt : String} {args : List CStr} :
    Quiet rs dev [.comment fmt args] := by
  simp [Quiet, Cmd.life, Cmd.creates, Cmd.names]

theorem quiet_upActs {dev name : IfName} : Quiet rs dev (upActs rs name) := by
  unfold upActs
  cases h : rsFindIface rs name with
  | none => exact .nil
  | some i =>
    split
    · simp [Quiet, Cmd.life, Cmd.creates, Cmd.names, Absent, h]
    · exact .nil

theorem quiet_masterActs {name br : IfName} : Quiet rs br (masterActs rs name br) := by
  unfold masterActs
  cases h : rsFindIface rs name with
  | none => exact .nil
  | some i =>
    split
    · simp [Quiet, Cmd.life, Cmd.creates, Cmd.names, Absent, h]
    · exact .nil

theorem quiet_addrActs : Quiet rs ds.brName (addrActs ds rs) := by
  apply addrActs_all
  · exact fun _ => quiet_comment _ List.mem_cons_self
  · simp [Cmd.life, Cmd.creates, Cmd.names]
  · exact quiet_comment _ List.mem_cons_self
  · simp [Cmd.life, Cmd.creates, Cmd.names]

theorem quiet_gatewayActs : Quiet rs ds.brName (gatewayActs ds rs) := by
  apply gatewayActs_all
  · exact quiet_comment _ List.mem_cons_self
  · simp [Cmd.life, Cmd.creates, Cmd.names]

theorem quiet_dnsActs {dns : AddrStr} : Quiet rs ds.brName (dnsActs ds rs dns) :=
  dnsActs_all (quiet_comment _ List.mem_cons_self) (quiet_comment _ List.mem_cons_self)

theorem quiet_uplinkActs {dev : IfName} : Quiet rs dev (uplinkActs ds rs) := by
  unfold uplinkActs
  split
  · exact quiet_comment
  · exact quiet_upActs

theorem quiet_portActs {name : IfName} : Quiet rs ds.brName (portActs ds rs name) := by
  unfold portActs
  split
  · exact quiet_comment
  · exact quiet_upActs.append quiet_masterActs

theorem quiet_peerRouteActs : Quiet rs ds.wgRouteDev (peerRouteActs ds rs) := by
  apply peerRouteActs_all
  · exact quiet_comment _ List.mem_cons_self
  · simp [Cmd.life, Cmd.creates, Cmd.names]

theorem quiet_routeActs {rt : DesiredRoute4} : Quiet rs rt.dev (routeActs rs rt) := by
  apply routeActs_all
  · exact quiet_comment _ List.mem_cons_self
  · exact quiet_comment _ List.mem_cons_self
  · simp [Cmd.life, Cmd.creates, Cmd.names]

theorem quiet_vxRemoteActs {dev : IfName} : Quiet rs dev (vxRemoteActs ds rs) := by
  unfold vxRemoteActs
  split
  · exact quiet_comment
  · exact .nil

/-! ## The devices of a plan -/

/-- What a bridge scenario does to its bridge, apart from creating it. -/
def bridgeRest (ds : DesiredState) (rs : RealState) : List Cmd :=
  addrActs ds rs ++ (gatewayActs ds rs ++ ds.brDns.val.flatMap (dnsActs ds rs))

theorem bridgePart_eq : bridgePart ds rs = bridgeActs ds rs ++ bridgeRest ds rs := rfl

theorem quiet_bridgeRest : Quiet rs ds.brName (bridgeRest ds rs) :=
  quiet_addrActs.append (quiet_gatewayActs.append (.flatMap fun _ _ => quiet_dnsActs))

theorem quiet_ports : Quiet rs ds.brName (ds.brPorts.val.flatMap (portActs ds rs)) :=
  .flatMap fun _ _ => quiet_portActs

theorem quiet_anyUplink {dev : IfName} :
    Quiet rs dev (if ds.upIfname.val ≠ [] then uplinkActs ds rs else []) := by
  split
  · exact quiet_uplinkActs
  · exact .nil

/-- What a VLAN in a bridge asks for between the bridge and the VLAN. -/
theorem quiet_vlanMiddle : Quiet rs ds.brName (bridgeRest ds rs ++
    (uplinkActs ds rs ++ ds.brPorts.val.flatMap (portActs ds rs))) :=
  quiet_bridgeRest.append (.append quiet_uplinkActs quiet_ports)

/-- What a VXLAN over WireGuard asks for between the bridge and the peer route. -/
theorem quiet_wgMiddle : Quiet rs ds.brName (bridgeRest ds rs ++
    ((if ds.upIfname.val ≠ [] then uplinkActs ds rs else []) ++
      ds.brPorts.val.flatMap (portActs ds rs))) :=
  quiet_bridgeRest.append (.append quiet_anyUplink quiet_ports)

theorem acts_vlanBridge : Scenario.acts ds rs .vlanBridge =
    bridgeActs ds rs ++ ((bridgeRest ds rs ++
      (uplinkActs ds rs ++ ds.brPorts.val.flatMap (portActs ds rs))) ++ vlanActs ds rs) := by
  simp only [Scenario.acts, bridgePart_eq, List.append_assoc]

theorem acts_wgVxlanBridge : Scenario.acts ds rs .wgVxlanBridge =
    bridgeActs ds rs ++ ((bridgeRest ds rs ++
      ((if ds.upIfname.val ≠ [] then uplinkActs ds rs else []) ++
        ds.brPorts.val.flatMap (portActs ds rs))) ++
      (peerRouteActs ds rs ++ (wgActs ds rs ++ vxlanActs ds rs))) := by
  simp only [Scenario.acts, bridgePart_eq, List.append_assoc]

theorem routes_life : (ds.routes.val.flatMap (routeActs rs)).filterMap Cmd.life = [] := by
  rw [List.filterMap_flatMap, List.flatMap_eq_nil_iff]
  exact fun rt _ => quiet_routeActs.filterMap_life

/-- The bridge, if it is created. -/
def bridgeCreations (ds : DesiredState) (rs : RealState) : List (Creation IfName) :=
  match rsFindIface rs ds.brName with
  | none => [⟨ds.brName, false⟩]
  | some br => if br.isBridge then [] else [⟨ds.brName, true⟩]

/-- The WireGuard interface, if it is created. -/
def wgCreations (ds : DesiredState) (rs : RealState) : List (Creation IfName) :=
  if Absent rs ds.wgIfname then [⟨ds.wgIfname, false⟩] else []

/-- The VLAN, if it is created. -/
def vlanCreations (ds : DesiredState) (rs : RealState) : List (Creation IfName) :=
  if vlanKept ds rs then []
  else [⟨ds.vlanIfname,
    (rsFindIface rs ds.vlanIfname).isSome || (rsFindVlan rs ds.vlanIfname).isSome⟩]

/-- The VXLAN, if it is created. -/
def vxlanCreations (ds : DesiredState) (rs : RealState) : List (Creation IfName) :=
  if vxlanKept ds rs then []
  else [⟨ds.vxIfname,
    (rsFindIface rs ds.vxIfname).isSome || (rsFindVxlan rs ds.vxIfname).isSome⟩]

/-- The devices a state creates, in order. -/
def creations (rs : RealState) (ds : DesiredState) : List (Creation IfName) :=
  match Scenario.ofName ds.scenario with
  | none => []
  | some .onlyUplink => []
  | some .uplinkBridge => bridgeCreations ds rs
  | some .vlanBridge => bridgeCreations ds rs ++ vlanCreations ds rs
  | some .wgVxlanBridge => bridgeCreations ds rs ++ (wgCreations ds rs ++ vxlanCreations ds rs)

theorem bridgeActs_life :
    (bridgeActs ds rs).filterMap Cmd.life = (bridgeCreations ds rs).flatMap Creation.lives := by
  unfold bridgeActs bridgeCreations
  cases rsFindIface rs ds.brName with
  | none => rfl
  | some br =>
    have hup : (upActs rs ds.brName).filterMap Cmd.life = [] :=
      (@quiet_upActs rs ds.brName ds.brName).filterMap_life
    cases hb : br.isBridge <;> simp [hb, hup, Cmd.life, Cmd.creates, Creation.lives]

theorem wgActs_life :
    (wgActs ds rs).filterMap Cmd.life = (wgCreations ds rs).flatMap Creation.lives := by
  have hup : (upActs rs ds.wgIfname).filterMap Cmd.life = [] :=
    (@quiet_upActs rs ds.wgIfname ds.wgIfname).filterMap_life
  unfold wgActs wgCreations Absent
  by_cases h : rsFindIface rs ds.wgIfname = none <;>
    simp [h, hup, Cmd.life, Cmd.creates, Creation.lives]

theorem recreate_life {old : Bool} {add : Cmd} {dev br : IfName} (h : add.life = some (.add dev)) :
    (recreate old add dev br).filterMap Cmd.life = Creation.lives ⟨dev, old⟩ := by
  have hdel : (Cmd.linkDel dev).life = some (.del dev) := rfl
  have hup : (Cmd.linkUp dev).life = none := rfl
  have hmaster : (Cmd.setMaster dev br).life = none := rfl
  cases old <;> simp [recreate, h, hdel, hup, hmaster, Creation.lives]

theorem vlanActs_life :
    (vlanActs ds rs).filterMap Cmd.life = (vlanCreations ds rs).flatMap Creation.lives := by
  unfold vlanActs vlanCreations
  split
  · exact (quiet_upActs.append quiet_masterActs).filterMap_life
  · rw [recreate_life rfl, List.flatMap_singleton]

theorem vxlanActs_life :
    (vxlanActs ds rs).filterMap Cmd.life = (vxlanCreations ds rs).flatMap Creation.lives := by
  have hr : (vxRemoteActs ds rs).filterMap Cmd.life = [] :=
    (@quiet_vxRemoteActs ds rs ds.vxIfname).filterMap_life
  unfold vxlanActs vxlanCreations
  rw [List.filterMap_append, hr]
  split
  · exact (quiet_upActs.append quiet_masterActs).filterMap_life
  · rw [recreate_life rfl, List.flatMap_singleton, List.nil_append]

/-- An uplink is neither created nor deleted. -/
theorem uplink_life : (uplinkActs ds rs).filterMap Cmd.life = [] :=
  (@quiet_uplinkActs ds rs ds.upIfname).filterMap_life

/-- **The creations and deletions of a plan.** -/
theorem plan_life :
    (plan ds rs).filterMap Cmd.life = (creations rs ds).flatMap Creation.lives := by
  cases hs : Scenario.ofName ds.scenario with
  | none => simp [plan_of_unsupported hs, creations, hs]
  | some scn =>
    have hup := (@quiet_anyUplink ds rs ds.upIfname).filterMap_life
    rw [plan_eq hs, List.filterMap_append, routes_life, List.append_nil]
    cases scn <;>
      simp only [Scenario.acts, creations, hs, bridgePart_eq, List.filterMap_append,
        bridgeActs_life, quiet_bridgeRest.filterMap_life, uplink_life, quiet_ports.filterMap_life,
        quiet_masterActs.filterMap_life, quiet_peerRouteActs.filterMap_life, vlanActs_life,
        wgActs_life, vxlanActs_life, hup, List.append_nil, List.nil_append, List.flatMap_append,
        List.flatMap_nil]

/-! ## Creation before use -/

/-- Every command that creates an absent device comes before all other commands that name it. -/
abbrev InOrder (rs : RealState) (cs : List Cmd) : Prop :=
  CreatedFirst Cmd.creates Cmd.names (Absent rs) cs

theorem creates_eq_of_life {cs : List Cmd} {us : List (Creation IfName)}
    (h : cs.filterMap Cmd.life = us.flatMap Creation.lives) :
    cs.filterMap Cmd.creates = us.map Creation.name := by
  have hadd : Cmd.creates = fun c => c.life.bind Life.added? := by
    funext c
    cases c <;> rfl
  rw [hadd, ← List.filterMap_filterMap, h, Creation.filterMap_lives]

theorem routes_creates : (ds.routes.val.flatMap (routeActs rs)).filterMap Cmd.creates = [] :=
  @creates_eq_of_life _ [] routes_life

/-- Commands that create nothing, before commands that do not create the device they name. -/
theorem Quiet.inOrder_append {dev : IfName} {cs cs' : List Cmd} (h : Quiet rs dev cs)
    (hdev : ∀ x ∈ cs'.filterMap Cmd.creates, Absent rs x → x ≠ dev) :
    InOrder rs (cs ++ cs') ↔ InOrder rs cs' := by
  rw [InOrder, createdFirst_append]
  refine ⟨fun h' => h'.2.1, fun h' => ⟨.of_creates_nothing h.filterMap_creates, h', ?_⟩⟩
  exact fun x hx ha hn => hdev x hx ha (h.eq_of_absent hn ha)

/-- Commands in order, followed by others, when they name the absent devices that satisfy `p`. -/
theorem inOrder_append_iff {cs cs' : List Cmd} {p : IfName → Prop} (h : InOrder rs cs)
    (hp : ∀ x, Absent rs x → (x ∈ cs.flatMap Cmd.names ↔ p x)) : InOrder rs (cs ++ cs') ↔
      InOrder rs cs' ∧ ∀ x ∈ cs'.filterMap Cmd.creates, Absent rs x → ¬ p x := by
  rw [InOrder, createdFirst_append]
  simp only [h, true_and]
  exact and_congr_right fun _ => forall₂_congr fun x _ => forall_congr' fun ha =>
    not_congr (hp x ha)

theorem bridgeActs_inOrder : InOrder rs (bridgeActs ds rs) := by
  unfold bridgeActs
  cases h : rsFindIface rs ds.brName with
  | none => simp [InOrder, Cmd.creates, CreatedFirst]
  | some br =>
    simp only
    split
    · exact .of_creates_nothing (@quiet_upActs rs ds.brName ds.brName).filterMap_creates
    · simp [InOrder, Cmd.creates, Cmd.names, Absent, h, CreatedFirst]

theorem bridgeActs_names {x : IfName} (ha : Absent rs x) :
    x ∈ (bridgeActs ds rs).flatMap Cmd.names ↔ x = ds.brName := by
  unfold bridgeActs
  cases h : rsFindIface rs ds.brName with
  | none => simp [Cmd.names]
  | some br =>
    have hx : x ≠ ds.brName := by
      rintro rfl
      exact absurd ha (by simp [Absent, h])
    simp only [hx, iff_false]
    split
    · exact fun hn => hx ((@quiet_upActs rs ds.brName ds.brName).eq_of_absent hn ha)
    · simpa [Cmd.names] using hx

theorem wgActs_inOrder : InOrder rs (wgActs ds rs) := by
  unfold wgActs
  split
  · exact List.pairwise_singleton _ _
  · exact .of_creates_nothing (@quiet_upActs rs ds.wgIfname ds.wgIfname).filterMap_creates

theorem wgActs_names {x : IfName} (ha : Absent rs x) :
    x ∈ (wgActs ds rs).flatMap Cmd.names ↔ x = ds.wgIfname := by
  unfold wgActs
  cases h : rsFindIface rs ds.wgIfname with
  | none => simp [Cmd.names]
  | some wg =>
    have hx : x ≠ ds.wgIfname := by
      rintro rfl
      exact absurd ha (by simp [Absent, h])
    simp only [hx, iff_false, Option.isNone_some, Bool.false_eq_true, if_false]
    exact fun hn => hx ((@quiet_upActs rs ds.wgIfname ds.wgIfname).eq_of_absent hn ha)

/-- The peer route names an absent device unless the address of the peer is malformed. -/
theorem peerRouteActs_names {x : IfName} (ha : Absent rs x) :
    x ∈ (peerRouteActs ds rs).flatMap Cmd.names ↔
      x = ds.wgRouteDev ∧ (parseIp4 ds.wgPeerIp).isSome := by
  unfold peerRouteActs
  cases parseIp4 ds.wgPeerIp with
  | none => simp [Cmd.names]
  | some ip =>
    by_cases hx : x = ds.wgRouteDev
    · subst hx
      have hnone : rsFindIface rs ds.wgRouteDev = none := ha
      simp [hnone, Cmd.names]
    · simp only [hx, false_and, iff_false]
      split
      · simp
      · simpa [Cmd.names] using hx

/-- An absent device is created before it is named unless an entry of its own table makes the plan
delete it first. -/
theorem recreate_inOrder {α : Type} {entry : Option α} {add : Cmd} {dev br : IfName}
    (h : add.creates = some dev) :
    InOrder rs (recreate ((rsFindIface rs dev).isSome || entry.isSome) add dev br) ↔
      (Absent rs dev → entry = none) := by
  have hup : (Cmd.linkUp dev).creates = none := rfl
  have hmaster : (Cmd.setMaster dev br).creates = none := rfl
  have hdel : (Cmd.linkDel dev).names = [dev] := rfl
  unfold Absent
  cases hi : rsFindIface rs dev <;> cases entry <;>
    simp [recreate, InOrder, h, hup, hmaster, hdel, CreatedFirst, Absent, hi]

theorem vlanActs_inOrder : InOrder rs (vlanActs ds rs) ↔
    (vlanKept ds rs = false → Absent rs ds.vlanIfname → rsFindVlan rs ds.vlanIfname = none) := by
  unfold vlanActs
  cases vlanKept ds rs with
  | true =>
    have hq : Quiet rs _ (upActs rs ds.vlanIfname ++ masterActs rs ds.vlanIfname ds.vlanBridge) :=
      quiet_upActs.append quiet_masterActs
    simpa using CreatedFirst.of_creates_nothing hq.filterMap_creates
  | false => 
    simpa using
      @recreate_inOrder rs _ _ (.addVlan ds.vlanLink ds.vlanIfname ds.vlanId) _ _ rfl

theorem vxlanActs_inOrder : InOrder rs (vxlanActs ds rs) ↔
    (vxlanKept ds rs = false → Absent rs ds.vxIfname → rsFindVxlan rs ds.vxIfname = none) := by
  have hr : InOrder rs (vxRemoteActs ds rs) :=
    .of_creates_nothing (@quiet_vxRemoteActs ds rs ds.vxIfname).filterMap_creates
  have hn : (vxRemoteActs ds rs).flatMap Cmd.names = [] := by
    unfold vxRemoteActs
    split <;> rfl
  unfold vxlanActs
  rw [inOrder_append_iff hr fun x _ => show _ ↔ False by simp [hn]]
  simp only [not_false_eq_true, implies_true, and_true]
  cases vxlanKept ds rs with
  | true =>
    have hq : Quiet rs _ (upActs rs ds.vxIfname ++ masterActs rs ds.vxIfname ds.vxBridge) :=
      quiet_upActs.append quiet_masterActs
    simpa using CreatedFirst.of_creates_nothing hq.filterMap_creates
  | false => simpa using @recreate_inOrder rs _ _ (addVxlanCmd ds) _ _ rfl

/-- When the plan of a scenario creates every absent device before it names it: the VLAN is not the
bridge, the WireGuard interface is neither the bridge nor the device of the peer route, and the
VXLAN is none of these; and none of them has left an entry in its table. -/
def CreatesInOrder (ds : DesiredState) (rs : RealState) : Scenario → Prop
  | .onlyUplink => True
  | .uplinkBridge => True
  | .vlanBridge =>
    vlanKept ds rs = false → Absent rs ds.vlanIfname →
      ds.vlanIfname ≠ ds.brName ∧ rsFindVlan rs ds.vlanIfname = none
  | .wgVxlanBridge =>
    (Absent rs ds.wgIfname → ds.wgIfname ≠ ds.brName ∧
      ¬ (ds.wgIfname = ds.wgRouteDev ∧ (parseIp4 ds.wgPeerIp).isSome)) ∧
    (vxlanKept ds rs = false → Absent rs ds.vxIfname → ds.vxIfname ≠ ds.brName ∧
      ¬ (ds.vxIfname = ds.wgRouteDev ∧ (parseIp4 ds.wgPeerIp).isSome) ∧
      ds.vxIfname ≠ ds.wgIfname ∧ rsFindVxlan rs ds.vxIfname = none)

theorem mem_vlanActs_creates {x : IfName} : x ∈ (vlanActs ds rs).filterMap Cmd.creates ↔
    vlanKept ds rs = false ∧ x = ds.vlanIfname := by
  rw [creates_eq_of_life vlanActs_life, vlanCreations]
  cases vlanKept ds rs <;> simp

theorem mem_vxlanActs_creates {x : IfName} : x ∈ (vxlanActs ds rs).filterMap Cmd.creates ↔
    vxlanKept ds rs = false ∧ x = ds.vxIfname := by
  rw [creates_eq_of_life vxlanActs_life, vxlanCreations]
  cases vxlanKept ds rs <;> simp

theorem mem_wgActs_creates {x : IfName} : x ∈ (wgActs ds rs).filterMap Cmd.creates ↔
    Absent rs ds.wgIfname ∧ x = ds.wgIfname := by
  rw [creates_eq_of_life wgActs_life, wgCreations]
  by_cases h : Absent rs ds.wgIfname <;> simp [h]

/-- The part of a bridge scenario up to its ports names the bridge and creates nothing else. -/
theorem bridge_inOrder {q cs : List Cmd} (hq : Quiet rs ds.brName q) :
    InOrder rs (bridgeActs ds rs ++ (q ++ cs)) ↔
      InOrder rs cs ∧ ∀ x ∈ cs.filterMap Cmd.creates, Absent rs x → x ≠ ds.brName := by
  rw [inOrder_append_iff bridgeActs_inOrder fun x ha => bridgeActs_names ha,
    List.filterMap_append, hq.filterMap_creates, List.nil_append]
  exact and_congr_left fun hdev => hq.inOrder_append hdev

/-- Routes come last. -/
theorem inOrder_routes {cs : List Cmd} :
    InOrder rs (cs ++ ds.routes.val.flatMap (routeActs rs)) ↔ InOrder rs cs := by
  rw [InOrder, createdFirst_append, routes_creates]
  exact ⟨And.left, fun h => ⟨h, .of_creates_nothing routes_creates, by simp⟩⟩

theorem uplinkBridge_inOrder : InOrder rs (Scenario.acts ds rs .uplinkBridge) := by
  have hup : Quiet rs ds.brName (uplinkActs ds rs) := quiet_uplinkActs
  have hq := quiet_bridgeRest.append (hup.append
    ((@quiet_masterActs rs ds.upIfname ds.brName).append quiet_ports))
  have h := (@bridge_inOrder ds rs _ [] hq).mpr ⟨.nil, by simp⟩
  simpa only [Scenario.acts, bridgePart_eq, List.append_assoc, List.append_nil] using h

theorem vlanBridge_inOrder :
    InOrder rs (Scenario.acts ds rs .vlanBridge) ↔ CreatesInOrder ds rs .vlanBridge := by
  rw [acts_vlanBridge, bridge_inOrder quiet_vlanMiddle]
  simp only [mem_vlanActs_creates, vlanActs_inOrder, CreatesInOrder]
  constructor
  · rintro ⟨htable, hbr⟩ hk ha
    exact ⟨hbr _ ⟨hk, rfl⟩ ha, htable hk ha⟩
  · intro h
    refine ⟨fun hk ha => (h hk ha).2, ?_⟩
    rintro x ⟨hk, rfl⟩ ha
    exact (h hk ha).1

theorem wgVxlanBridge_inOrder :
    InOrder rs (Scenario.acts ds rs .wgVxlanBridge) ↔ CreatesInOrder ds rs .wgVxlanBridge := by
  have hpeer : InOrder rs (peerRouteActs ds rs) :=
    .of_creates_nothing quiet_peerRouteActs.filterMap_creates
  rw [acts_wgVxlanBridge, bridge_inOrder quiet_wgMiddle,
    inOrder_append_iff hpeer fun x ha => peerRouteActs_names ha,
    inOrder_append_iff wgActs_inOrder fun x ha => wgActs_names ha]
  simp only [List.filterMap_append, List.mem_append, or_imp, forall_and,
    quiet_peerRouteActs.filterMap_creates, List.nil_append, mem_wgActs_creates,
    mem_vxlanActs_creates, vxlanActs_inOrder, and_imp, forall_eq_apply_imp_iff]
  rw [CreatesInOrder]
  constructor
  · rintro ⟨⟨⟨htable, hne⟩, hwg, hvx⟩, hbr, hbr'⟩
    exact ⟨fun ha => ⟨hbr ha ha, hwg ha ha⟩,
      fun hk ha => ⟨hbr' hk ha, hvx hk ha, hne hk ha, htable hk ha⟩⟩
  · rintro ⟨hwg, hvx⟩
    exact ⟨⟨⟨fun hk ha => (hvx hk ha).2.2.2, fun hk ha => (hvx hk ha).2.2.1⟩,
      fun _ ha => (hwg ha).2, fun hk ha => (hvx hk ha).2.1⟩,
      fun _ ha => (hwg ha).1, fun hk ha => (hvx hk ha).1⟩

/-- **When a plan creates devices before it names them.** -/
theorem plan_inOrder_iff (ds : DesiredState) (rs : RealState) : InOrder rs (plan ds rs) ↔
    ∀ scn, Scenario.ofName ds.scenario = some scn → CreatesInOrder ds rs scn := by
  cases hs : Scenario.ofName ds.scenario with
  | none => simp [plan_of_unsupported hs, InOrder, CreatedFirst]
  | some scn =>
    rw [plan_eq hs, inOrder_routes]
    simp only [Option.some.injEq, forall_eq']
    cases scn with
    | onlyUplink =>
      exact iff_of_true
        (.of_creates_nothing (@quiet_uplinkActs ds rs ds.upIfname).filterMap_creates) trivial
    | uplinkBridge => exact iff_of_true uplinkBridge_inOrder trivial
    | vlanBridge => exact vlanBridge_inOrder
    | wgVxlanBridge => exact wgVxlanBridge_inOrder

/-- A VXLAN over WireGuard whose peer is reached through the WireGuard interface itself. -/
def wgRouteText : CStr := unlines [
  "scenario = wg_vxlan_bridge", "bridge.name = br0", "wg.ifname = wg0", "wg.peer_ip = 10.9.0.2",
  "wg.route_dev = wg0", "vxlan.ifname = vx0", "vxlan.vni = 7", "vxlan.remote = 10.9.0.2",
  "vxlan.bridge = br0"]

/-- The state that `wgRouteText` describes. -/
def wgRouteState : DesiredState :=
  { DesiredState.zero with
    scenario := cpy _ "wg_vxlan_bridge".toList
    brName := cpy _ "br0".toList
    wgIfname := cpy _ "wg0".toList
    wgPeerIp := cpy _ "10.9.0.2".toList
    wgRouteDev := cpy _ "wg0".toList
    vxIfname := cpy _ "vx0".toList
    vxVni := 7
    vxRemote := cpy _ "10.9.0.2".toList
    vxBridge := cpy _ "br0".toList }

/-- A snapshot without interfaces. -/
def emptyReal : RealState := ⟨[], [], [], [], [], []⟩

theorem wgRouteText_loaded :
    (yamlLoadDesiredSet wgRouteText).map Subtype.val = .ok [wgRouteState] := by
  decide +kernel

theorem wgRouteState_not_inOrder :
    (yamlLoadDesiredSet wgRouteText).map Subtype.val = .ok [wgRouteState] ∧
      Absent emptyReal wgRouteState.wgIfname ∧
      (plan wgRouteState emptyReal).map Cmd.text = [
        "ip link add br0 type bridge".toList,
        "ip link set br0 up".toList,
        "ip route replace 10.9.0.2/32 dev wg0".toList,
        "ip link add wg0 type wireguard".toList,
        "ip link add vx0 type vxlan id 7 remote 10.9.0.2".toList,
        "ip link set vx0 up".toList,
        "ip link set vx0 master br0".toList] ∧
      ¬ InOrder emptyReal (plan wgRouteState emptyReal) :=
  ⟨wgRouteText_loaded, by decide +kernel⟩

/-! ## Creation once -/

theorem setPlan_life (l : List DesiredState) (rs : RealState) :
    (setPlan l rs).filterMap Cmd.life = (l.flatMap (creations rs)).flatMap Creation.lives := by
  simp only [setPlan, List.filterMap_flatMap, List.flatMap_assoc, plan_life]

/-- **When the plans of a set create no device twice.** Among the commands that `run_verify_set`
prints over one snapshot, two creations of a device have a deletion between them exactly when every
creation after the first is one that deletes the device first. -/
theorem runVerifySet_addsOnce_iff (set : DesiredSet) (rs : RealState) (apply actFail : Bool)
    (sys : Sys) :
    AddsOnce Cmd.life
      ((printed sys (runVerifySet (.ok rs) set apply actFail sys).2.2).filterMap Line.cmd?) ↔
    (set.val.flatMap (creations rs)).Pairwise Creation.After := by
  have hplan := (verifySet_spec rs apply set.val 0 false sys).2
  rw [runVerifySet, hplan.printed_cmds]
  exact addsOnce_iff_pairwise (setPlan_life set.val rs)

/-- Two VXLANs over one WireGuard interface. -/
def sharedWgText : CStr := unlines [
  "state.a.scenario = wg_vxlan_bridge", "state.a.bridge.name = br0", "state.a.wg.ifname = wg0",
  "state.a.wg.peer_ip = 10.9.0.2", "state.a.wg.route_dev = eth0", "state.a.vxlan.ifname = vx0",
  "state.a.vxlan.vni = 7", "state.a.vxlan.remote = 10.9.0.2", "state.a.vxlan.bridge = br0",
  "state.b.scenario = wg_vxlan_bridge", "state.b.bridge.name = br1", "state.b.wg.ifname = wg0",
  "state.b.wg.peer_ip = 10.9.0.2", "state.b.wg.route_dev = eth0", "state.b.vxlan.ifname = vx1",
  "state.b.vxlan.vni = 8", "state.b.vxlan.remote = 10.9.0.2", "state.b.vxlan.bridge = br1"]

theorem sharedWg_added_twice : ∃ set, yamlLoadDesiredSet sharedWgText = .ok set ∧
    ¬ AddsOnce Cmd.life ((printed (.exiting 0)
      (runVerifySet (.ok emptyReal) set false false (.exiting 0)).2.2).filterMap Line.cmd?) := by
  have h : (do
      let set ← yamlLoadDesiredSet sharedWgText
      let out := (runVerifySet (.ok emptyReal) set false false (.exiting 0)).2.2
      return decide (AddsOnce Cmd.life ((printed (.exiting 0) out).filterMap Line.cmd?))) =
        .ok false := by decide +kernel
  simp only [bind_eq_ok, pure_eq_ok] at h
  obtain ⟨set, hset, hdec⟩ := h
  exact ⟨set, hset, of_decide_eq_false (Except.ok.inj hdec)⟩

end Netrec
