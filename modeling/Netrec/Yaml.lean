import Netrec.Cfg.Text

/-!
# The loader

The loader reads desired states from a configuration tree: either one state at the root or one
below each child of `state`. Every field is copied into a fixed-size buffer; sections that the
scenario does not use are not read and stay zero. A loaded state therefore has a fixed shape, which
`DesiredState.Loaded` records.

## Main definitions

* `getStr`, `getU32`, `getStrArr`: reading one field
* `loadBridge`, `loadUplink`, `loadVlan`, `loadWgVxlan`, `loadRoutes`: reading one section
* `loadState`, `loadSet`, `yamlLoadDesiredSet`: reading a state, a tree and a file
* `DesiredState.Loaded`: the shape of a loaded state

## Main results

* `loadState_loaded`: what the loader returns has this shape
* `yamlLoadDesiredSet_loaded`: so have all states of a file
-/

namespace Netrec

open CLib

/-! ## Fields -/

/-- `if (c) return -e;` -/
def reject (c : Prop) [Decidable c] (e : Errno) : Except Errno Unit :=
  if c then .error e else .ok ()

/-- `parse_u32_str`. -/
def parseU32Str (s : CStr) : Except Errno UInt32 :=
  if s = [] then .error .EINVAL
  else
    let (v, rest, erange) := strtoul 0 s
    if erange ∨ rest ≠ [] ∨ v ≥ 2 ^ 32 then .error .EINVAL else .ok (UInt32.ofNat v)

/-- `get_str`. -/
def getStr (obj : CfgNode) (key : CStr) (sz : Nat) [NeZero sz] (req : Bool) :
    Except Errno (CBuf sz) :=
  match cfgChild obj key with
  | none => if !req then .ok .empty else .error .EINVAL
  | some node =>
    if node.type ≠ .str then .error .EINVAL else .ok (cpy sz (node.val.getD []))

/-- `get_u32`. -/
def getU32 (obj : CfgNode) (key : CStr) : Except Errno UInt32 :=
  match cfgChild obj key with
  | none => .error .EINVAL
  | some node => if node.type ≠ .str then .error .EINVAL else parseU32Str (node.val.getD [])

/-- The loop over a chain that all list readers share: every item is of kind `type`, there are at
most `max`, and each is read by `f`. -/
def collect {α : Type} (type : CfgType) (f : CfgNode → Except Errno α) :
    (max : Nat) → List CfgNode → Except Errno (Table max α)
  | _, [] => .ok .empty
  | 0, it :: _ => if it.type ≠ type then .error .EINVAL else .error .E2BIG
  | max + 1, it :: its => do
    reject (it.type ≠ type) .EINVAL
    let a ← f it
    let as ← collect type f max its
    return ⟨a :: as.val, Nat.succ_le_succ as.property⟩

/-- `get_str_arr` and `get_dns_arr`: at most `max` strings, each cut to a `char[sz]`. -/
def getStrArr (obj : CfgNode) (key : CStr) (sz : Nat) [NeZero sz] (max : Nat) :
    Except Errno (Table max (CBuf sz)) :=
  match cfgChild obj key with
  | none => .ok .empty
  | some arr =>
    if arr.type ≠ .arr then .error .EINVAL
    else collect .str (fun it => .ok (cpy sz (it.val.getD []))) max arr.child

/-- A required section: `!node || cfg_type(node) != CFG_OBJ` is an error. -/
def getSection (root : CfgNode) (key : CStr) : Except Errno CfgNode :=
  match cfgChild root key with
  | none => .error .EINVAL
  | some node => if node.type ≠ .obj then .error .EINVAL else .ok node

/-! ## Sections -/

/-- The loop body of `load_routes`. -/
def loadRoute (it : CfgNode) : Except Errno DesiredRoute4 := do
  let dst ← getStr it "dst".toList 32 true
  let dev ← getStr it "dev".toList IFNAMSIZ true
  let via ← getStr it "via".toList INET_ADDRSTRLEN false
  return { dst, dev, via, hasVia := via.val ≠ [] }

/-- `load_routes`. -/
def loadRoutes (root : CfgNode) (ds : DesiredState) : Except Errno DesiredState :=
  match cfgChild root "routes".toList with
  | none => .ok { ds with routes := .empty }
  | some node =>
    if node.type ≠ .obj then .error .EINVAL
    else do
      let routes ← collect .obj loadRoute NR_DES_ROUTE4_MAX node.child
      return { ds with routes }

/-- The address mode of `load_bridge`, and the fields each mode needs or forbids. -/
def loadAddrMode (mode addr dhcpCmd : CStr) : Except Errno AddrMode :=
  if mode = [] then .ok (if addr ≠ [] then .static else .none)
  else if mode = "static".toList then
    if addr = [] then .error .EINVAL else .ok .static
  else if mode = "dhcp".toList then
    if addr ≠ [] then .error .EINVAL
    else if dhcpCmd = [] then .error .EINVAL
    else .ok .dhcp
  else if mode = "none".toList then
    if addr ≠ [] then .error .EINVAL else .ok .none
  else .error .EINVAL

/-- `load_bridge`. -/
def loadBridge (root : CfgNode) (ds : DesiredState) : Except Errno DesiredState := do
  let br ← getSection root "bridge".toList
  let brName ← getStr br "name".toList IFNAMSIZ true
  let brAddr ← getStr br "addr".toList 32 false
  let brGateway ← getStr br "gateway".toList INET_ADDRSTRLEN false
  let brDns ← getStrArr br "dns".toList INET_ADDRSTRLEN NR_DES_DNS4_MAX
  let mode ← getStr br "addr_mode".toList 16 false
  let brDhcpCmd ← getStr br "dhcp_cmd".toList 128 false
  let brAddrMode ← loadAddrMode mode brAddr brDhcpCmd
  reject (brGateway.val ≠ [] ∧ brAddrMode ≠ .static) .EINVAL
  reject (brDns.val ≠ [] ∧ brAddrMode ≠ .static) .EINVAL
  let brPorts ← getStrArr br "ports".toList IFNAMSIZ NR_BR_PORT_MAX
  return { ds with brName, brAddr, brGateway, brDns, brDhcpCmd, brAddrMode, brPorts }

/-- `load_uplink`. -/
def loadUplink (root : CfgNode) (ds : DesiredState) : Except Errno DesiredState := do
  let up ← getSection root "uplink".toList
  let upIfname ← getStr up "ifname".toList IFNAMSIZ true
  return { ds with upIfname }

/-- `load_vlan`. -/
def loadVlan (root : CfgNode) (ds : DesiredState) : Except Errno DesiredState := do
  let vl ← getSection root "vlan".toList
  let vlanIfname ← getStr vl "ifname".toList IFNAMSIZ true
  let vlanId ← getU32 vl "id".toList
  let link ← getStr vl "link".toList IFNAMSIZ false
  let bridge ← getStr vl "bridge".toList IFNAMSIZ false
  let vlanLink := if link.val = [] then cpy IFNAMSIZ ds.upIfname else link
  let vlanBridge := if bridge.val = [] then cpy IFNAMSIZ ds.brName else bridge
  reject (vlanLink.val ≠ ds.upIfname.val) .EINVAL
  reject (vlanBridge.val ≠ ds.brName.val) .EINVAL
  return { ds with vlanIfname, vlanId, vlanLink, vlanBridge }

/-- `load_wg_vxlan`. -/
def loadWgVxlan (root : CfgNode) (ds : DesiredState) : Except Errno DesiredState := do
  let wg ← getSection root "wg".toList
  let vx ← getSection root "vxlan".toList
  let wgIfname ← getStr wg "ifname".toList IFNAMSIZ true
  let wgPeerIp ← getStr wg "peer_ip".toList INET_ADDRSTRLEN true
  let wgRouteDev ← getStr wg "route_dev".toList IFNAMSIZ true
  let vxIfname ← getStr vx "ifname".toList IFNAMSIZ true
  let vxVni ← getU32 vx "vni".toList
  let vxRemote ← getStr vx "remote".toList INET_ADDRSTRLEN true
  let vxDev ← getStr vx "dev".toList IFNAMSIZ false
  let vxBridge ← getStr vx "bridge".toList IFNAMSIZ true
  reject (vxDev.val ≠ [] ∧ vxDev.val ≠ wgIfname.val) .EINVAL
  reject (vxBridge.val ≠ ds.brName.val) .EINVAL
  return { ds with wgIfname, wgPeerIp, wgRouteDev, vxIfname, vxVni, vxRemote, vxDev, vxBridge }

/-! ## States -/

/-- The dispatch of `load_state`. -/
def loadScenario (root : CfgNode) (ds : DesiredState) : Scenario → Except Errno DesiredState
  | .onlyUplink => loadUplink root ds
  | .uplinkBridge => loadBridge root ds >>= loadUplink root
  | .vlanBridge => loadBridge root ds >>= loadUplink root >>= loadVlan root
  | .wgVxlanBridge => do
    let ds ← loadBridge root ds
    let ds ← if (cfgChild root "uplink".toList).isSome then loadUplink root ds else .ok ds
    loadWgVxlan root ds

/-- `load_state`. -/
def loadState (root : CfgNode) : Except Errno DesiredState := do
  let scenario ← getStr root "scenario".toList 32 true
  match Scenario.ofName scenario with
  | none => .error .EINVAL
  | some scn => loadScenario root { DesiredState.zero with scenario } scn >>= loadRoutes root

/-- `yaml_load_desired_set` after the file has been read. -/
def loadSet (root : CfgNode) : Except Errno DesiredSet :=
  if (cfgChild root "scenario".toList).isSome then do
    let ds ← loadState root
    return ⟨[ds], by simp⟩
  else do
    let states ← getSection root "state".toList
    let set ← collect .obj loadState NR_DES_STATE_MAX states.child
    reject (set.val = []) .EINVAL
    return set

/-- `yaml_load_desired_set` of a file with the given content. -/
def yamlLoadDesiredSet (text : CStr) : Except Errno DesiredSet := cfgLoad text >>= loadSet

/-! ## The shape of a loaded state -/

@[simp] theorem reject_eq_ok {c : Prop} [Decidable c] {e : Errno} {u : Unit} :
    reject c e = .ok u ↔ ¬ c := by
  unfold reject
  split <;> simp_all

/-- The shape of a desired state: sections that its scenario does not use are zero, an address,
gateway or name server belongs to the static mode, and a VLAN is linked to the uplink and the
bridge. -/
structure DesiredState.Loaded (ds : DesiredState) (scn : Scenario) : Prop where
  scenario : Scenario.ofName ds.scenario = some scn
  noBridge : scn = .onlyUplink →
    ds.brName = .empty ∧ ds.brAddrMode = .none ∧ ds.brPorts = .empty
  notStatic : ds.brAddrMode ≠ .static →
    ds.brAddr = .empty ∧ ds.brGateway = .empty ∧ ds.brDns = .empty
  noVlan : scn ≠ .vlanBridge →
    ds.vlanIfname = .empty ∧ ds.vlanId = 0 ∧ ds.vlanLink = .empty ∧ ds.vlanBridge = .empty
  vlan : scn = .vlanBridge → ds.vlanLink = ds.upIfname ∧ ds.vlanBridge = ds.brName
  noWgVxlan : scn ≠ .wgVxlanBridge →
    ds.wgIfname = .empty ∧ ds.wgPeerIp = .empty ∧ ds.wgRouteDev = .empty ∧ ds.vxIfname = .empty ∧
      ds.vxVni = 0 ∧ ds.vxRemote = .empty ∧ ds.vxDev = .empty ∧ ds.vxBridge = .empty
  via : ∀ rt ∈ ds.routes.val, rt.hasVia = (rt.via.val ≠ [] : Bool)

/-- A list reader reads every item of the chain. -/
theorem collect_eq_ok {α : Type} {type : CfgType} {f : CfgNode → Except Errno α} {max : Nat}
    {its : List CfgNode} {t : Table max α} (h : collect type f max its = .ok t) :
    List.Forall₂ (fun it a => f it = .ok a) its t.val := by
  induction its generalizing max with
  | nil =>
    cases max <;> cases h <;> exact .nil
  | cons it its ih =>
    cases max with
    | zero =>
      rw [collect] at h
      split at h <;> cases h
    | succ max =>
      simp only [collect, bind_eq_ok, pure_eq_ok] at h
      obtain ⟨-, -, a, ha, as, has, h⟩ := h
      rw [← Except.ok.inj h]
      exact .cons ha (ih has)

theorem collect_forall {α : Type} {P : α → Prop} {type : CfgType} {f : CfgNode → Except Errno α}
    (hf : ∀ it a, f it = .ok a → P a) {max : Nat} {its : List CfgNode} {t : Table max α}
    (h : collect type f max its = .ok t) : ∀ a ∈ t.val, P a := by
  have hall := collect_eq_ok h
  clear h
  generalize t.val = as at hall
  induction hall with
  | nil => simp
  | cons ha _ ih => exact List.forall_mem_cons.mpr ⟨hf _ _ ha, ih⟩

theorem loadAddrMode_addr {mode addr cmd : CStr} {m : AddrMode}
    (h : loadAddrMode mode addr cmd = .ok m) (hm : m ≠ .static) : addr = [] := by
  unfold loadAddrMode at h
  split_ifs at h <;> simp_all

theorem loadBridge_eq_ok {root : CfgNode} {ds ds' : DesiredState}
    (h : loadBridge root ds = .ok ds') :
    ∃ brName brAddr brGateway brDns brDhcpCmd brAddrMode brPorts,
      ds' = { ds with brName, brAddr, brGateway, brDns, brDhcpCmd, brAddrMode, brPorts } ∧
      (brAddrMode ≠ .static → brAddr = .empty ∧ brGateway = .empty ∧ brDns = .empty) := by
  simp only [loadBridge, bind_eq_ok, reject_eq_ok, pure_eq_ok] at h
  obtain ⟨br, -, name, -, addr, -, gw, -, dns, -, mode, -, cmd, -, m, hm, -, hgw, -, hdns, ports, -,
    h⟩ := h
  refine ⟨name, addr, gw, dns, cmd, m, ports, (Except.ok.inj h).symm, fun hs => ⟨?_, ?_, ?_⟩⟩
  · exact CBuf.val_eq_nil_iff.mp (loadAddrMode_addr hm hs)
  · by_contra hne
    exact hgw ⟨fun h0 => hne (CBuf.val_eq_nil_iff.mp h0), hs⟩
  · by_contra hne
    exact hdns ⟨fun h0 => hne (Subtype.ext h0), hs⟩

theorem loadUplink_eq_ok {root : CfgNode} {ds ds' : DesiredState}
    (h : loadUplink root ds = .ok ds') : ∃ upIfname, ds' = { ds with upIfname } := by
  simp only [loadUplink, bind_eq_ok, pure_eq_ok] at h
  obtain ⟨up, -, name, -, h⟩ := h
  exact ⟨name, (Except.ok.inj h).symm⟩

theorem loadVlan_eq_ok {root : CfgNode} {ds ds' : DesiredState} (h : loadVlan root ds = .ok ds') :
    ∃ vlanIfname vlanId, ds' = { ds with
      vlanIfname, vlanId, vlanLink := ds.upIfname, vlanBridge := ds.brName } := by
  simp only [loadVlan, bind_eq_ok, reject_eq_ok, pure_eq_ok, not_not] at h
  obtain ⟨vl, -, name, -, id, -, link, -, bridge, -, -, hl, -, hb, h⟩ := h
  refine ⟨name, id, ?_⟩
  rw [← Except.ok.inj h, CBuf.ext hl, CBuf.ext hb]

theorem loadWgVxlan_eq_ok {root : CfgNode} {ds ds' : DesiredState}
    (h : loadWgVxlan root ds = .ok ds') :
    ∃ wgIfname wgPeerIp wgRouteDev vxIfname vxVni vxRemote vxDev, ds' = { ds with
      wgIfname, wgPeerIp, wgRouteDev, vxIfname, vxVni, vxRemote, vxDev, vxBridge := ds.brName } ∧
      (vxDev = .empty ∨ vxDev = wgIfname) := by
  simp only [loadWgVxlan, bind_eq_ok, reject_eq_ok, pure_eq_ok] at h
  obtain ⟨wg, -, vx, -, wgIfname, -, peer, -, dev, -, vxIfname, -, vni, -, remote, -, vxDev, -,
    bridge, -, -, hd, -, hb, h⟩ := h
  refine ⟨wgIfname, peer, dev, vxIfname, vni, remote, vxDev, ?_, ?_⟩
  · rw [← Except.ok.inj h, CBuf.ext (not_not.mp hb)]
  · rw [← CBuf.val_eq_nil_iff, ← CBuf.val_inj]
    tauto

theorem loadRoute_via {it : CfgNode} {rt : DesiredRoute4} (h : loadRoute it = .ok rt) :
    rt.hasVia = (rt.via.val ≠ [] : Bool) := by
  simp only [loadRoute, bind_eq_ok, pure_eq_ok] at h
  obtain ⟨dst, -, dev, -, via, -, h⟩ := h
  rw [← Except.ok.inj h]

theorem loadRoutes_eq_ok {root : CfgNode} {ds ds' : DesiredState}
    (h : loadRoutes root ds = .ok ds') : ∃ routes, ds' = { ds with routes } ∧
      ∀ rt ∈ routes.val, rt.hasVia = (rt.via.val ≠ [] : Bool) := by
  unfold loadRoutes at h
  split at h
  · exact ⟨.empty, (Except.ok.inj h).symm, by simp⟩
  · split at h
    · cases h
    · simp only [bind_eq_ok, pure_eq_ok] at h
      obtain ⟨routes, hr, h⟩ := h
      exact ⟨routes, (Except.ok.inj h).symm, collect_forall (fun _ _ => loadRoute_via) hr⟩

/-- **What the loader returns has the shape of its scenario.** -/
theorem loadState_loaded {root : CfgNode} {ds : DesiredState} (h : loadState root = .ok ds) :
    ∃ scn, ds.Loaded scn := by
  simp only [loadState, bind_eq_ok] at h
  obtain ⟨scenario, -, h⟩ := h
  split at h
  · cases h
  · rename_i scn hs
    refine ⟨scn, ?_⟩
    rw [bind_eq_ok] at h
    obtain ⟨ds₁, h₁, h⟩ := h
    obtain ⟨routes, rfl, hvia⟩ := loadRoutes_eq_ok h
    cases scn with
    | onlyUplink =>
      obtain ⟨up, rfl⟩ := loadUplink_eq_ok h₁
      exact ⟨hs, by simp [DesiredState.zero], by simp [DesiredState.zero],
        by simp [DesiredState.zero], by simp, by simp [DesiredState.zero], hvia⟩
    | uplinkBridge =>
      simp only [loadScenario, bind_eq_ok] at h₁
      obtain ⟨_, hb, h₁⟩ := h₁
      obtain ⟨_, _, _, _, _, _, _, rfl, hstatic⟩ := loadBridge_eq_ok hb
      obtain ⟨up, rfl⟩ := loadUplink_eq_ok h₁
      exact ⟨hs, by simp, hstatic, by simp [DesiredState.zero], by simp,
        by simp [DesiredState.zero], hvia⟩
    | vlanBridge =>
      simp only [loadScenario, bind_eq_ok] at h₁
      obtain ⟨_, ⟨_, hb, hu⟩, h₁⟩ := h₁
      obtain ⟨_, _, _, _, _, _, _, rfl, hstatic⟩ := loadBridge_eq_ok hb
      obtain ⟨up, rfl⟩ := loadUplink_eq_ok hu
      obtain ⟨_, _, rfl⟩ := loadVlan_eq_ok h₁
      exact ⟨hs, by simp, hstatic, by simp, fun _ => ⟨rfl, rfl⟩, by simp [DesiredState.zero], hvia⟩
    | wgVxlanBridge =>
      simp only [loadScenario, bind_eq_ok] at h₁
      obtain ⟨_, hb, h₁⟩ := h₁
      obtain ⟨_, _, _, _, _, _, _, rfl, hstatic⟩ := loadBridge_eq_ok hb
      split at h₁ <;> rw [bind_eq_ok] at h₁ <;> obtain ⟨_, hu, h₁⟩ := h₁
      · obtain ⟨up, rfl⟩ := loadUplink_eq_ok hu
        obtain ⟨_, _, _, _, _, _, _, rfl, -⟩ := loadWgVxlan_eq_ok h₁
        exact ⟨hs, by simp, hstatic, by simp [DesiredState.zero], by simp, by simp, hvia⟩
      · obtain rfl := Except.ok.inj hu
        obtain ⟨_, _, _, _, _, _, _, rfl, -⟩ := loadWgVxlan_eq_ok h₁
        exact ⟨hs, by simp, hstatic, by simp [DesiredState.zero], by simp, by simp, hvia⟩

theorem yamlLoadDesiredSet_loaded {text : CStr} {set : DesiredSet}
    (h : yamlLoadDesiredSet text = .ok set) : ∀ ds ∈ set.val, ∃ scn, ds.Loaded scn := by
  simp only [yamlLoadDesiredSet, bind_eq_ok] at h
  obtain ⟨root, -, h⟩ := h
  unfold loadSet at h
  split at h
  · simp only [bind_eq_ok, pure_eq_ok] at h
    obtain ⟨ds, hds, h⟩ := h
    rw [← Except.ok.inj h]
    exact List.forall_mem_singleton.mpr (loadState_loaded hds)
  · simp only [bind_eq_ok, pure_eq_ok] at h
    obtain ⟨states, -, set', hset, -, -, h⟩ := h
    rw [← Except.ok.inj h]
    exact collect_forall (fun _ _ => loadState_loaded) hset

end Netrec
