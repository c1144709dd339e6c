import Netrec.Yaml.Fields

/-!
# The configurations the loader accepts

The rules a configuration has to follow, stated on the tree and section by section: which fields
are required, which are optional, and how they depend on each other. The loader accepts a
well-formed tree exactly when it follows them. The loader compares the copies it has stored, and
a rule that compares two names says so.

## Main definitions

* `scenarioNames`: the names of the scenarios
* `ModeRule`: the address mode of a bridge and the fields it needs or forbids
* `BridgeRule`, `UplinkRule`, `VlanRule`, `WgVxlanRule`, `RoutesRule`: the rules of a section
* `ScenarioRule`, `Documented`: the rules of a scenario and of a state

## Main results

* `loadState_isOk_iff`: the loader accepts exactly the documented configurations
-/

namespace Netrec

open CLib

/-! ## The rules -/

/-- The names of the scenarios. -/
def scenarioNames : List (CStr × Scenario) := [
  ("only_uplink".toList, .onlyUplink), ("only_uplink_iface".toList, .onlyUplink),
  ("uplink_bridge".toList, .uplinkBridge), ("uplink_in_bridge".toList, .uplinkBridge),
  ("vlan_bridge".toList, .vlanBridge), ("vlan_in_bridge".toList, .vlanBridge),
  ("wg_vxlan_bridge".toList, .wgVxlanBridge)]

/-- The address mode of a bridge: by default static when there is an address, otherwise as named,
with the fields the mode needs and without those it forbids. -/
inductive ModeRule : (mode addr dhcpCmd : CStr) → AddrMode → Prop
  | addr {addr cmd : CStr} (h : addr ≠ []) : ModeRule [] addr cmd .static
  | noAddr {cmd : CStr} : ModeRule [] [] cmd .none
  | static {addr cmd : CStr} (h : addr ≠ []) : ModeRule "static".toList addr cmd .static
  | dhcp {cmd : CStr} (h : cmd ≠ []) : ModeRule "dhcp".toList [] cmd .dhcp
  | none {cmd : CStr} : ModeRule "none".toList [] cmd .none

/-- The rules of `bridge`; `name` is the name of the bridge. -/
def BridgeRule (root : CfgNode) (name : CStr) : Prop :=
  ∃ br, IsSection root "bridge".toList br ∧ HasStr br "name".toList name ∧
    ∃ addr gateway mode cmd dns ports addrMode,
      OptStr br "addr".toList addr ∧ OptStr br "gateway".toList gateway ∧
      OptArr br "dns".toList dns ∧ dns.length ≤ NR_DES_DNS4_MAX ∧
      OptStr br "addr_mode".toList mode ∧ OptStr br "dhcp_cmd".toList cmd ∧
      OptArr br "ports".toList ports ∧ ports.length ≤ NR_BR_PORT_MAX ∧
      ModeRule mode addr cmd addrMode ∧ (gateway ≠ [] ∨ dns ≠ [] → addrMode = .static)

/-- The rules of `uplink`; `up` is the name of the uplink. -/
def UplinkRule (root : CfgNode) (up : CStr) : Prop :=
  ∃ n, IsSection root "uplink".toList n ∧ HasStr n "ifname".toList up

/-- The rules of `vlan`. A link or bridge that is given is the uplink `up` or the bridge `br`, as
they are stored. -/
def VlanRule (root : CfgNode) (up br : IfName) : Prop :=
  ∃ vl, IsSection root "vlan".toList vl ∧ (∃ s, HasStr vl "ifname".toList s) ∧
    (∃ s v, HasStr vl "id".toList s ∧ parseU32Str s = .ok v) ∧
    (∃ s, OptStr vl "link".toList s ∧ (s = [] ∨ cpy IFNAMSIZ s = up)) ∧
    ∃ s, OptStr vl "bridge".toList s ∧ (s = [] ∨ cpy IFNAMSIZ s = br)

/-- The rules of `wg` and `vxlan`. A device that is given is the WireGuard interface, and the
bridge is `br`, as they are stored. -/
def WgVxlanRule (root : CfgNode) (br : IfName) : Prop :=
  ∃ wg vx wgIfname, IsSection root "wg".toList wg ∧ IsSection root "vxlan".toList vx ∧
    HasStr wg "ifname".toList wgIfname ∧ (∃ s, HasStr wg "peer_ip".toList s) ∧
    (∃ s, HasStr wg "route_dev".toList s) ∧ (∃ s, HasStr vx "ifname".toList s) ∧
    (∃ s v, HasStr vx "vni".toList s ∧ parseU32Str s = .ok v) ∧
    (∃ s, HasStr vx "remote".toList s) ∧
    (∃ s, OptStr vx "dev".toList s ∧ (s = [] ∨ cpy IFNAMSIZ s = cpy IFNAMSIZ wgIfname)) ∧
    ∃ s, HasStr vx "bridge".toList s ∧ cpy IFNAMSIZ s = br

/-- The rules of one route. -/
def RouteRule (it : CfgNode) : Prop :=
  it.type = .obj ∧ (∃ s, HasStr it "dst".toList s) ∧ (∃ s, HasStr it "dev".toList s) ∧
    ∃ s, OptStr it "via".toList s

/-- The rules of `routes`. -/
def RoutesRule (root : CfgNode) : Prop :=
  cfgChild root "routes".toList = none ∨ ∃ n, IsSection root "routes".toList n ∧
    n.child.length ≤ NR_DES_ROUTE4_MAX ∧ ∀ it ∈ n.child, RouteRule it

/-- The rules of the sections a scenario reads. -/
def ScenarioRule (root : CfgNode) : Scenario → Prop
  | .onlyUplink => ∃ up, UplinkRule root up
  | .uplinkBridge => (∃ name, BridgeRule root name) ∧ ∃ up, UplinkRule root up
  | .vlanBridge => ∃ name up, BridgeRule root name ∧ UplinkRule root up ∧
      VlanRule root (cpy IFNAMSIZ up) (cpy IFNAMSIZ name)
  | .wgVxlanBridge => ∃ name, BridgeRule root name ∧
      (cfgChild root "uplink".toList ≠ none → ∃ up, UplinkRule root up) ∧
      WgVxlanRule root (cpy IFNAMSIZ name)

/-- The documented configurations of one state. -/
def Documented (root : CfgNode) : Prop :=
  ∃ s scn, HasStr root "scenario".toList s ∧ (s, scn) ∈ scenarioNames ∧
    ScenarioRule root scn ∧ RoutesRule root

/-! ## Sections -/

theorem ofName_eq_some_iff {s : CStr} {scn : Scenario} :
    Scenario.ofName s = some scn ↔ (s, scn) ∈ scenarioNames := by
  constructor
  · intro h
    unfold Scenario.ofName at h
    split_ifs at h with h₁ h₂ h₃ h₄ <;> obtain rfl := Option.some.inj h
    · rcases h₁ with rfl | rfl <;> simp [scenarioNames]
    · rcases h₂ with rfl | rfl <;> simp [scenarioNames]
    · rcases h₃ with rfl | rfl <;> simp [scenarioNames]
    · simp [scenarioNames, h₄]
  · intro h
    have hall : ∀ p ∈ scenarioNames, Scenario.ofName p.1 = some p.2 := by decide
    exact hall _ h

/-- A cut string is a shorter string when that one fits with room to spare. -/
theorem cpy_eq_iff {sz : Nat} [NeZero sz] {s t : CStr} (hs : '\x00' ∉ s)
    (ht : t.length < sz - 1) : (cpy sz s).val = t ↔ s = t := by
  rw [cpy_eq_take hs]
  constructor
  · intro h
    have hl := congrArg List.length h
    rw [List.length_take] at hl
    rw [← h, List.take_of_length_le (by omega)]
  · rintro rfl
    exact List.take_of_length_le (by omega)

theorem cpy_eq_nil_iff {sz : Nat} [NeZero sz] {s : CStr} (hs : '\x00' ∉ s) (hsz : 1 < sz) :
    (cpy sz s).val = [] ↔ s = [] :=
  cpy_eq_iff hs (by simp only [List.length_nil]; omega)

theorem loadAddrMode_iff {mode addr cmd : CStr} {m : AddrMode} :
    loadAddrMode mode addr cmd = .ok m ↔ ModeRule mode addr cmd m := by
  constructor
  · intro h
    unfold loadAddrMode at h
    split_ifs at h with h₁ h₂ h₃ h₄ h₅ h₆ h₇ h₈ h₉ <;> obtain rfl := Except.ok.inj h
    · exact h₁ ▸ .addr h₂
    · exact h₁ ▸ not_not.mp h₂ ▸ .noAddr
    · exact h₃ ▸ .static h₄
    · exact h₅ ▸ not_not.mp h₆ ▸ .dhcp h₇
    · exact h₈ ▸ not_not.mp h₉ ▸ .none
  · rintro (h | _ | h | h | _)
    · simp [loadAddrMode, h]
    · simp [loadAddrMode]
    · simp [loadAddrMode, h]
    · simp [loadAddrMode, h]
    · simp [loadAddrMode]

/-- The mode rule does not see the cut of its fields. -/
theorem modeRule_cpy {mode addr cmd : CStr} {m : AddrMode} (hm : '\x00' ∉ mode)
    (ha : '\x00' ∉ addr) (hc : '\x00' ∉ cmd) :
    ModeRule (cpy 16 mode).val (cpy 32 addr).val (cpy 128 cmd).val m ↔
      ModeRule mode addr cmd m := by
  simp only [← loadAddrMode_iff, loadAddrMode, ne_eq, cpy_eq_nil_iff hm (by decide : 1 < 16),
    cpy_eq_nil_iff ha (by decide : 1 < 32), cpy_eq_nil_iff hc (by decide : 1 < 128),
    cpy_eq_iff hm (by decide : "static".toList.length < 16 - 1),
    cpy_eq_iff hm (by decide : "dhcp".toList.length < 16 - 1),
    cpy_eq_iff hm (by decide : "none".toList.length < 16 - 1)]

section Rules

variable {root : CfgNode} {d : Nat}

theorem loadBridge_isOk_iff (hw : root.Wf d) (ds : DesiredState) (b : IfName) :
    (∃ ds', loadBridge root ds = .ok ds' ∧ ds'.brName = b) ↔
      ∃ name, BridgeRule root name ∧ cpy IFNAMSIZ name = b := by
  constructor
  · rintro ⟨ds', h, rfl⟩
    simp only [loadBridge, bind_eq_ok, reject_eq_ok, pure_eq_ok, getSection_iff, getStr_req,
      getStr_opt, loadAddrMode_iff] at h
    obtain ⟨br, hbr, _, ⟨name, hname, rfl⟩, _, ⟨addr, haddr, rfl⟩, _, ⟨gw, hgw, rfl⟩, dnsTab, hdns,
      _, ⟨mode, hmode, rfl⟩, _, ⟨cmd, hcmd, rfl⟩, m, hm, -, hgs, -, hds, portTab, hports, h⟩ := h
    obtain ⟨dns, hdns, hdl, hdt⟩ := getStrArr_eq_ok hdns
    obtain ⟨ports, hports, hpl, -⟩ := getStrArr_eq_ok hports
    have hwb := hbr.wf hw
    rw [← Except.ok.inj h]
    refine ⟨name, ⟨br, hbr, hname, addr, gw, mode, cmd, dns, ports, m, haddr, hgw, hdns, hdl,
      hmode, hcmd, hports, hpl, (modeRule_cpy (hmode.nul_notMem hwb) (haddr.nul_notMem hwb)
        (hcmd.nul_notMem hwb)).mp hm, ?_⟩, rfl⟩
    rintro (hne | hne) <;> by_contra hs
    · exact hgs ⟨fun h0 => hne ((cpy_eq_nil_iff (hgw.nul_notMem hwb) (by decide)).mp h0), hs⟩
    · exact hds ⟨by rw [hdt]; simpa using hne, hs⟩
  · rintro ⟨name, ⟨br, hbr, hname, addr, gw, mode, cmd, dns, ports, m, haddr, hgw, hdns, hdl, hmode,
      hcmd, hports, hpl, hm, hstatic⟩, rfl⟩
    have hwb := hbr.wf hw
    obtain ⟨dnsTab, hdt⟩ := @getStrArr_isOk br "dns".toList INET_ADDRSTRLEN _ _ hwb _ hdns _ hdl
    obtain ⟨portTab, hpt⟩ := @getStrArr_isOk br "ports".toList IFNAMSIZ _ _ hwb _ hports _ hpl
    obtain ⟨dns', hdns', -, hval⟩ := getStrArr_eq_ok hdt
    obtain rfl := hdns.unique hdns'
    simp only [loadBridge, bind_eq_ok, reject_eq_ok, pure_eq_ok, getSection_iff, getStr_req,
      getStr_opt, loadAddrMode_iff]
    refine ⟨_, ⟨br, hbr, _, ⟨name, hname, rfl⟩, _, ⟨addr, haddr, rfl⟩, _, ⟨gw, hgw, rfl⟩, dnsTab, hdt,
      _, ⟨mode, hmode, rfl⟩, _, ⟨cmd, hcmd, rfl⟩, m,
      (modeRule_cpy (hmode.nul_notMem hwb) (haddr.nul_notMem hwb) (hcmd.nul_notMem hwb)).mpr hm,
      (), ?_, (), ?_, portTab, hpt, rfl⟩, rfl⟩
    · rintro ⟨hne, hs⟩
      refine hs (hstatic (.inl fun h0 => hne ?_))
      exact (cpy_eq_nil_iff (hgw.nul_notMem hwb) (by decide)).mpr h0
    · rintro ⟨hne, hs⟩
      refine hs (hstatic (.inr fun h0 => hne ?_))
      rw [hval, h0, List.map_nil]

theorem loadUplink_isOk_iff (ds : DesiredState) (u : IfName) :
    (∃ ds', loadUplink root ds = .ok ds' ∧ ds'.upIfname = u) ↔
      ∃ up, UplinkRule root up ∧ cpy IFNAMSIZ up = u := by
  simp only [loadUplink, bind_eq_ok, pure_eq_ok, getSection_iff, getStr_req]
  constructor
  · rintro ⟨ds', ⟨n, hn, _, ⟨up, hup, rfl⟩, h⟩, rfl⟩
    rw [← Except.ok.inj h]
    exact ⟨up, ⟨n, hn, hup⟩, rfl⟩
  · rintro ⟨up, ⟨n, hn, hup⟩, rfl⟩
    exact ⟨_, ⟨n, hn, _, ⟨up, hup, rfl⟩, rfl⟩, rfl⟩

/-- A name that is empty or the stored one passes the check of the default, and no other does. -/
theorem default_eq_iff {s : CStr} {b : IfName} (hs : '\x00' ∉ s) :
    (if (cpy IFNAMSIZ s).val = [] then cpy IFNAMSIZ b.val else cpy IFNAMSIZ s).val = b.val ↔
      s = [] ∨ cpy IFNAMSIZ s = b := by
  by_cases h : s = []
  · simp [h]
  · have hne : (cpy IFNAMSIZ s).val ≠ [] := fun h0 => h ((cpy_eq_nil_iff hs (by decide)).mp h0)
    rw [if_neg hne, CBuf.val_inj]
    simp [h]

theorem loadVlan_isOk_iff (hw : root.Wf d) (ds : DesiredState) :
    (∃ ds', loadVlan root ds = .ok ds') ↔ VlanRule root ds.upIfname ds.brName := by
  simp only [loadVlan, bind_eq_ok, reject_eq_ok, pure_eq_ok, getSection_iff, getStr_req, getStr_opt,
    getU32_iff, not_not]
  constructor
  · rintro ⟨ds', vl, hvl, _, ⟨name, hname, rfl⟩, v, ⟨id, hid, hv⟩, _, ⟨link, hlink, rfl⟩, _,
      ⟨bridge, hbridge, rfl⟩, -, hl, -, hb, -⟩
    have hwv := hvl.wf hw
    exact ⟨vl, hvl, ⟨name, hname⟩, ⟨id, v, hid, hv⟩,
      ⟨link, hlink, (default_eq_iff (hlink.nul_notMem hwv)).mp hl⟩,
      ⟨bridge, hbridge, (default_eq_iff (hbridge.nul_notMem hwv)).mp hb⟩⟩
  · rintro ⟨vl, hvl, ⟨name, hname⟩, ⟨id, v, hid, hv⟩, ⟨link, hlink, hl⟩, ⟨bridge, hbridge, hb⟩⟩
    have hwv := hvl.wf hw
    exact ⟨_, vl, hvl, _, ⟨name, hname, rfl⟩, v, ⟨id, hid, hv⟩, _, ⟨link, hlink, rfl⟩, _,
      ⟨bridge, hbridge, rfl⟩, (), (default_eq_iff (hlink.nul_notMem hwv)).mpr hl, (),
      (default_eq_iff (hbridge.nul_notMem hwv)).mpr hb, rfl⟩

theorem loadWgVxlan_isOk_iff (hw : root.Wf d) (ds : DesiredState) :
    (∃ ds', loadWgVxlan root ds = .ok ds') ↔ WgVxlanRule root ds.brName := by
  simp only [loadWgVxlan, bind_eq_ok, reject_eq_ok, pure_eq_ok, getSection_iff, getStr_req,
    getStr_opt, getU32_iff, not_not, CBuf.val_inj]
  constructor
  · rintro ⟨ds', wg, hwg, vx, hvx, _, ⟨wgIfname, hwi, rfl⟩, _, ⟨peer, hpeer, rfl⟩, _,
      ⟨rdev, hrdev, rfl⟩, _, ⟨ifname, hifname, rfl⟩, v, ⟨vni, hvni, hv⟩, _, ⟨remote, hremote, rfl⟩,
      _, ⟨dev, hdev, rfl⟩, _, ⟨bridge, hbridge, rfl⟩, -, hd, -, hb, -⟩
    refine ⟨wg, vx, wgIfname, hwg, hvx, hwi, ⟨peer, hpeer⟩, ⟨rdev, hrdev⟩, ⟨ifname, hifname⟩,
      ⟨vni, v, hvni, hv⟩, ⟨remote, hremote⟩, ⟨dev, hdev, ?_⟩, ⟨bridge, hbridge, hb⟩⟩
    by_cases h0 : dev = []
    · exact .inl h0
    · refine .inr (by_contra fun hne => hd ⟨fun hnil => h0 ?_, CBuf.val_inj.not.mpr hne⟩)
      exact (cpy_eq_nil_iff (hdev.nul_notMem (hvx.wf hw)) (by decide)).mp hnil
  · rintro ⟨wg, vx, wgIfname, hwg, hvx, hwi, ⟨peer, hpeer⟩, ⟨rdev, hrdev⟩, ⟨ifname, hifname⟩,
      ⟨vni, v, hvni, hv⟩, ⟨remote, hremote⟩, ⟨dev, hdev, hd⟩, ⟨bridge, hbridge, hb⟩⟩
    refine ⟨_, wg, hwg, vx, hvx, _, ⟨wgIfname, hwi, rfl⟩, _, ⟨peer, hpeer, rfl⟩, _,
      ⟨rdev, hrdev, rfl⟩, _, ⟨ifname, hifname, rfl⟩, v, ⟨vni, hvni, hv⟩, _, ⟨remote, hremote, rfl⟩,
      _, ⟨dev, hdev, rfl⟩, _, ⟨bridge, hbridge, rfl⟩, (), ?_, (), hb, rfl⟩
    rintro ⟨hne, hneq⟩
    obtain rfl | hd := hd
    · exact hne (by simp)
    · exact hneq (CBuf.val_inj.mpr hd)

theorem loadRoute_isOk_iff {it : CfgNode} :
    (it.type = .obj ∧ ∃ rt, loadRoute it = .ok rt) ↔ RouteRule it := by
  simp only [loadRoute, bind_eq_ok, pure_eq_ok, getStr_req, getStr_opt, RouteRule]
  constructor
  · rintro ⟨ht, rt, _, ⟨dst, hdst, rfl⟩, _, ⟨dev, hdev, rfl⟩, _, ⟨via, hvia, rfl⟩, -⟩
    exact ⟨ht, ⟨dst, hdst⟩, ⟨dev, hdev⟩, ⟨via, hvia⟩⟩
  · rintro ⟨ht, ⟨dst, hdst⟩, ⟨dev, hdev⟩, ⟨via, hvia⟩⟩
    exact ⟨ht, _, _, ⟨dst, hdst, rfl⟩, _, ⟨dev, hdev, rfl⟩, _, ⟨via, hvia, rfl⟩, rfl⟩

theorem loadRoutes_isOk_iff (ds : DesiredState) :
    (∃ ds', loadRoutes root ds = .ok ds') ↔ RoutesRule root := by
  unfold loadRoutes RoutesRule IsSection
  cases hc : cfgChild root "routes".toList with
  | none => simp
  | some n =>
    by_cases ht : n.type = .obj
    · have hall : (∃ t, collect .obj loadRoute NR_DES_ROUTE4_MAX n.child = .ok t) ↔
          n.child.length ≤ NR_DES_ROUTE4_MAX ∧ ∀ it ∈ n.child, RouteRule it := by
        simp only [collect_isOk, loadRoute_isOk_iff]
      simp only [ht, ne_eq, not_true_eq_false, if_false, bind_eq_ok, pure_eq_ok, reduceCtorEq,
        false_or, Option.some.injEq, and_assoc, exists_eq_left', true_and, ← hall]
      constructor
      · rintro ⟨ds', t, h, -⟩
        exact ⟨t, h⟩
      · rintro ⟨t, h⟩
        exact ⟨_, t, h, rfl⟩
    · simp only [ht, ne_eq, not_false_eq_true, if_true, reduceCtorEq, exists_false, false_or,
        Option.some.injEq, false_iff]
      rintro ⟨m, ⟨rfl, h⟩, -⟩
      exact ht h

/-! ## States -/

theorem loadScenario_isOk_iff (hw : root.Wf d) (ds : DesiredState) (scn : Scenario) :
    (∃ ds', loadScenario root ds scn = .ok ds') ↔ ScenarioRule root scn := by
  -- what a section stores is all the next one needs to know about it
  have hbridge : ∀ {a}, loadBridge root ds = .ok a →
      ∃ name, BridgeRule root name ∧ cpy IFNAMSIZ name = a.brName :=
    fun h => (loadBridge_isOk_iff hw ds _).mp ⟨_, h, rfl⟩
  have huplink : ∀ {a b}, loadUplink root a = .ok b →
      ∃ up, UplinkRule root up ∧ cpy IFNAMSIZ up = b.upIfname :=
    fun h => (loadUplink_isOk_iff _ _).mp ⟨_, h, rfl⟩
  cases scn with
  | onlyUplink =>
    constructor
    · rintro ⟨ds', h⟩
      obtain ⟨up, hup, -⟩ := huplink h
      exact ⟨up, hup⟩
    · rintro ⟨up, hup⟩
      obtain ⟨ds', h, -⟩ := (loadUplink_isOk_iff ds _).mpr ⟨up, hup, rfl⟩
      exact ⟨ds', h⟩
  | uplinkBridge =>
    simp only [loadScenario, bind_eq_ok]
    constructor
    · rintro ⟨b, a, ha, hb⟩
      obtain ⟨name, hname, -⟩ := hbridge ha
      obtain ⟨up, hup, -⟩ := huplink hb
      exact ⟨⟨name, hname⟩, up, hup⟩
    · rintro ⟨⟨name, hname⟩, up, hup⟩
      obtain ⟨a, ha, -⟩ := (loadBridge_isOk_iff hw ds _).mpr ⟨name, hname, rfl⟩
      obtain ⟨b, hb, -⟩ := (loadUplink_isOk_iff a _).mpr ⟨up, hup, rfl⟩
      exact ⟨b, a, ha, hb⟩
  | vlanBridge =>
    simp only [loadScenario, bind_eq_ok]
    constructor
    · rintro ⟨c, b, ⟨a, ha, hb⟩, hc⟩
      obtain ⟨name, hname, hna⟩ := hbridge ha
      obtain ⟨up, hup, hub⟩ := huplink hb
      obtain ⟨u, rfl⟩ := loadUplink_eq_ok hb
      have hvlan := (loadVlan_isOk_iff hw _).mp ⟨c, hc⟩
      rw [← hub] at hvlan
      exact ⟨name, up, hname, hup, hna ▸ hvlan⟩
    · rintro ⟨name, up, hname, hup, hvlan⟩
      obtain ⟨a, ha, hna⟩ := (loadBridge_isOk_iff hw ds _).mpr ⟨name, hname, rfl⟩
      obtain ⟨b, hb, hub⟩ := (loadUplink_isOk_iff a _).mpr ⟨up, hup, rfl⟩
      obtain ⟨u, rfl⟩ := loadUplink_eq_ok hb
      rw [← hub, ← hna] at hvlan
      obtain ⟨c, hc⟩ := (loadVlan_isOk_iff hw { a with upIfname := u }).mpr hvlan
      exact ⟨c, _, ⟨a, ha, hb⟩, hc⟩
  | wgVxlanBridge =>
    simp only [loadScenario, bind_eq_ok]
    constructor
    · rintro ⟨c, a, ha, h⟩
      obtain ⟨name, hname, hna⟩ := hbridge ha
      cases hc : cfgChild root "uplink".toList with
      | none =>
        simp only [hc, Option.isSome_none, Bool.false_eq_true, if_false, ok_bind] at h
        have hwg := (loadWgVxlan_isOk_iff hw _).mp ⟨c, h⟩
        exact ⟨name, hname, fun hne => absurd hc hne, hna ▸ hwg⟩
      | some n =>
        simp only [hc, Option.isSome_some, if_true, bind_eq_ok] at h
        obtain ⟨b, hb, h⟩ := h
        obtain ⟨up, hup, -⟩ := huplink hb
        obtain ⟨u, rfl⟩ := loadUplink_eq_ok hb
        have hwg := (loadWgVxlan_isOk_iff hw _).mp ⟨c, h⟩
        exact ⟨name, hname, fun _ => ⟨up, hup⟩, hna ▸ hwg⟩
    · rintro ⟨name, hname, hup, hwg⟩
      obtain ⟨a, ha, hna⟩ := (loadBridge_isOk_iff hw ds _).mpr ⟨name, hname, rfl⟩
      rw [← hna] at hwg
      cases hc : cfgChild root "uplink".toList with
      | none =>
        obtain ⟨c, h⟩ := (loadWgVxlan_isOk_iff hw a).mpr hwg
        exact ⟨c, a, ha, h⟩
      | some n =>
        obtain ⟨up, hup⟩ := hup (hc ▸ Option.some_ne_none n)
        obtain ⟨b, hb, -⟩ := (loadUplink_isOk_iff a _).mpr ⟨up, hup, rfl⟩
        obtain ⟨u, rfl⟩ := loadUplink_eq_ok hb
        obtain ⟨c, h⟩ := (loadWgVxlan_isOk_iff hw { a with upIfname := u }).mpr hwg
        refine ⟨c, a, ha, ?_⟩
        simp only [Option.isSome_some, if_true, hb, ok_bind]
        exact h

/-- **The loader accepts exactly the documented configurations.** -/
theorem loadState_isOk_iff (hw : root.Wf d) :
    (∃ ds, loadState root = .ok ds) ↔ Documented root := by
  -- a name that is cut does not become the name of a scenario
  have hname : ∀ {s scn}, HasStr root "scenario".toList s →
      (Scenario.ofName (cpy 32 s).val = some scn ↔ (s, scn) ∈ scenarioNames) := by
    intro s scn hs
    rw [← ofName_eq_some_iff]
    have hnul := hs.nul_notMem hw
    constructor <;> intro h <;> have hl := length_of_ofName h
    · have hfull : s = (cpy 32 s).val := (cpy_eq_iff hnul (show _ < 32 - 1 by omega)).mp rfl
      rwa [← hfull] at h
    · rw [cpy_of_fits hnul (by omega)]
      exact h
  simp only [loadState, bind_eq_ok, getStr_req]
  constructor
  · rintro ⟨ds, _, ⟨s, hs, rfl⟩, h⟩
    cases hn : Scenario.ofName (cpy 32 s).val with
    | none => simp [hn] at h
    | some scn =>
      simp only [hn, bind_eq_ok] at h
      obtain ⟨ds₁, h₁, h⟩ := h
      exact ⟨s, scn, hs, (hname hs).mp hn, (loadScenario_isOk_iff hw _ scn).mp ⟨ds₁, h₁⟩,
        (loadRoutes_isOk_iff ds₁).mp ⟨ds, h⟩⟩
  · rintro ⟨s, scn, hs, hn, hscn, hroutes⟩
    have hn := (hname hs).mpr hn
    obtain ⟨ds₁, h₁⟩ := (loadScenario_isOk_iff hw
      { DesiredState.zero with scenario := cpy 32 s } scn).mpr hscn
    obtain ⟨ds, h⟩ := (loadRoutes_isOk_iff ds₁).mpr hroutes
    refine ⟨ds, _, ⟨s, hs, rfl⟩, ?_⟩
    simp only [hn, bind_eq_ok]
    exact ⟨ds₁, h₁, h⟩

end Rules

theorem bridgeText_documented : ∃ root, cfgLoad bridgeText = .ok root ∧
    root.Wf CFG_PATH_DEPTH_MAX ∧ Documented root := by
  have h : (cfgLoad bridgeText).map (fun root => (loadState root).toOption.isSome) = .ok true := by
    decide +kernel
  cases hroot : cfgLoad bridgeText with
  | error e => simp [hroot, Except.map] at h
  | ok root =>
    rw [hroot] at h
    cases hds : loadState root with
    | error e => simp [hds, Except.map, Except.toOption] at h
    | ok ds =>
      have hw := (cfgLoad_wf hroot).wf
      exact ⟨root, rfl, hw, (loadState_isOk_iff hw).mp ⟨ds, hds⟩⟩

end Netrec
