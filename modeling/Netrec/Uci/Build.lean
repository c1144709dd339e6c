import Netrec.Uci.Db
import Netrec.Yaml

/-!
# Desired states from UCI

Every bridge device of the network dump gives one desired state: an uplink in a bridge when the
interface bound to it is static or DHCP, a VXLAN over WireGuard when it has no protocol. Built
states have the shape of loaded ones, and their bridge is named.

## Main definitions

* `maskToPrefix`, `splitIpList`: netmasks and address lists
* `addBridgePort`, `addDevicePorts`, `addWirelessPorts`: the members of a bridge
* `findIfaceByDevice`, `findWgForRemote`: the sections a bridge refers to
* `buildUplinkBridge`, `buildWgVxlanBridge`, `uciBuildDesiredSet`: the states

## Main results

* `uciBuildDesiredSet_built`: every built state has the shape of a loaded state and a named bridge
-/

namespace Netrec

open CLib

/-! ## Netmasks and address lists -/

/-- The first loop of `mask_to_prefix`, with `n` bits left: no bit is set after a clear one. -/
def maskContiguous (v : UInt32) : Nat → Bool → Bool
  | 0, _ => true
  | n + 1, zeroSeen =>
    if v &&& (1 <<< UInt32.ofNat n) ≠ 0 then
      if zeroSeen then false else maskContiguous v n zeroSeen
    else maskContiguous v n true

/-- The second loop of `mask_to_prefix`: the leading ones of `v`, at most `n`. -/
def leadingOnes : Nat → UInt32 → Nat
  | 0, _ => 0
  | n + 1, v => if v &&& 0x80000000 ≠ 0 then 1 + leadingOnes n (v <<< 1) else 0

/-- `mask_to_prefix`. -/
def maskToPrefix (mask : CStr) : Except Errno Nat :=
  match inetPton mask with
  | none => .error .EINVAL
  | some v => if !maskContiguous v 32 false then .error .EINVAL else .ok (leadingOnes 32 v)

/-- The loop body of `split_ip_list`. -/
def addIp {max : Nat} (t : Table max AddrStr) (word : CStr) : Except Errno (Table max AddrStr) :=
  if h : t.val.length < max then .ok ⟨t.val ++ [cpy _ word], by simpa using h⟩ else .error .E2BIG

/-- `split_ip_list`. -/
def splitIpList (src : Option CStr) (max : Nat) : Except Errno (Table max AddrStr) :=
  match src with
  | none => .ok .empty
  | some src => foldWords 32 addIp src .empty

/-! ## Members of a bridge -/

/-- `add_bridge_port`. -/
def addBridgePort (ds : DesiredState) (ifname : CStr) : Except Errno DesiredState :=
  if ifname = [] then .ok ds
  else if ds.upIfname.val ≠ [] ∧ ds.upIfname.val = ifname then .ok ds
  else if ds.vxIfname.val ≠ [] ∧ ds.vxIfname.val = ifname then .ok ds
  else if ds.brPorts.val.any fun p => p.val = ifname then .ok ds
  else if h : ds.brPorts.val.length < NR_BR_PORT_MAX then
    .ok { ds with brPorts := ⟨ds.brPorts.val ++ [cpy _ ifname], by simpa using h⟩ }
  else .error .E2BIG

/-- The loop body of `add_wireless_ports`. -/
def addWirelessPort (wifi : UciDb) (netName : CStr) (ds : DesiredState) (it : UciItem) :
    Except Errno DesiredState :=
  let get := dbGet wifi "wireless".toList it.sect
  if !it.isSect "wireless".toList "wifi-iface".toList then .ok ds
  else if (get "disabled".toList).any (· ≠ "0".toList) then .ok ds
  else if !(get "network".toList).any (valueHasToken · netName) then .ok ds
  else
    match get "ifname".toList with
    | none => .ok ds
    | some ifname => addBridgePort ds ifname

/-- `add_wireless_ports`. -/
def addWirelessPorts (wifi : UciDb) (netName : CStr) (ds : DesiredState) :
    Except Errno DesiredState :=
  wifi.val.foldlM (addWirelessPort wifi netName) ds

/-- The loop body of `add_device_ports`; the flag is `skip_first && first`. -/
def addDevicePort (st : Bool × DesiredState) (word : CStr) : Except Errno (Bool × DesiredState) :=
  if st.1 then .ok (false, st.2)
  else do
    let ds ← addBridgePort st.2 word
    return (false, ds)

/-- `add_device_ports`. -/
def addDevicePorts (ports : Option CStr) (ds : DesiredState) (skipFirst : Bool) :
    Except Errno DesiredState :=
  match ports with
  | none => .ok ds
  | some ports => do
    let st ← foldWords IFNAMSIZ addDevicePort ports (skipFirst, ds)
    return st.2

/-- `first_device_port`. -/
def firstDevicePort (ports : Option CStr) : Except Errno IfName :=
  match ports with
  | none => .error .ENOENT
  | some ports =>
    match nextWord IFNAMSIZ ports with
    | .error e => .error e
    | .ok none => .error .ENOENT
    | .ok (some (word, _)) => .ok (cpy _ word)

/-! ## Sections a bridge refers to -/

/-- `db_get` of an option of the network package. -/
def netGet (net : UciDb) (sect opt : CStr) : Option CStr := dbGet net "network".toList sect opt

/-- `find_iface_by_device`: the first interface section bound to the bridge that has a protocol. -/
def findIfaceByDevice (net : UciDb) (brName : CStr) : Option CStr :=
  (net.val.find? fun it =>
    it.isSect "network".toList "interface".toList &&
      netGet net it.sect "device".toList = some brName &&
      (netGet net it.sect "proto".toList).any (· ≠ [])).map fun it => it.sect.val

/-- The first loop of `find_wg_for_remote`: a WireGuard peer section that allows the address. -/
def isWgPeerFor (net : UciDb) (remote : CStr) (it : UciItem) : Bool :=
  it.isType && it.pkg.val = "network".toList && "wireguard_".toList.isPrefixOf it.val.val &&
    (netGet net it.sect "allowed_ips".toList).any fun ips =>
      valueHasToken ips (cpy 32 (remote ++ "/32".toList)) || valueHasToken ips remote

/-- The second loop of `find_wg_for_remote`: a WireGuard interface section. -/
def isWgIface (net : UciDb) (it : UciItem) : Bool :=
  it.isSect "network".toList "interface".toList &&
    netGet net it.sect "proto".toList = some "wireguard".toList

/-- `find_wg_for_remote`. -/
def findWgForRemote (net : UciDb) (remote : CStr) : Except Errno IfName :=
  match net.val.find? (isWgPeerFor net remote) with
  | some it => .ok (cpy _ (it.val.val.drop 10))
  | none =>
    match net.val.filter (isWgIface net) with
    | [it] => .ok (cpy _ it.sect.val)
    | _ => .error .EINVAL

/-! ## States -/

/-- The static branch of `fill_bridge_proto`. -/
def fillBridgeStatic (net : UciDb) (ifSect : CStr) (ds : DesiredState) :
    Except Errno DesiredState :=
  match netGet net ifSect "ipaddr".toList, netGet net ifSect "netmask".toList with
  | some ipaddr, some mask => do
    let plen ← maskToPrefix mask
    let brDns ← splitIpList (netGet net ifSect "dns".toList) NR_DES_DNS4_MAX
    return { ds with
      brAddrMode := .static
      brAddr := cpy _ (ipaddr ++ '/' :: dec plen)
      brGateway := (netGet net ifSect "gateway".toList).elim ds.brGateway (cpy _)
      brDns }
  | _, _ => .error .EINVAL

/-- `fill_bridge_proto`. -/
def fillBridgeProto (net : UciDb) (ifSect : CStr) (ds : DesiredState) :
    Except Errno DesiredState :=
  match netGet net ifSect "proto".toList with
  | none => .error .EINVAL
  | some proto =>
    if proto = "static".toList then fillBridgeStatic net ifSect ds
    else if proto = "dhcp".toList then
      .ok { ds with brAddrMode := .dhcp, brDhcpCmd := cpy _ "udhcpc -i $iface -q -n".toList }
    else if proto = "none".toList then .ok { ds with brAddrMode := .none }
    else .error .EINVAL

/-- `build_uplink_bridge`, after `add_state`. -/
def buildUplinkBridge (net wifi : UciDb) (devSect ifSect brName : CStr) :
    Except Errno DesiredState := do
  let ds ← fillBridgeProto net ifSect { DesiredState.zero with
    scenario := cpy _ "uplink_bridge".toList, brName := cpy _ brName }
  let ports := netGet net devSect "ports".toList
  let upIfname ← firstDevicePort ports
  let ds ← addDevicePorts ports { ds with upIfname } true
  addWirelessPorts wifi ifSect ds

/-- The VXLAN section of `build_wg_vxlan_bridge`: the VNI and the peer address. -/
def vxlanSection (net : UciDb) (vxIfname : CStr) : Except Errno (UInt32 × CStr) :=
  if netGet net vxIfname "proto".toList ≠ some "vxlan".toList then .error .EINVAL
  else
    match netGet net vxIfname "vid".toList, netGet net vxIfname "peeraddr".toList with
    | some vid, some peeraddr => do
      let vni ← parseU32Str vid
      return (vni, peeraddr)
    | _, _ => .error .EINVAL

/-- `build_wg_vxlan_bridge`, after `add_state`. -/
def buildWgVxlanBridge (net wifi : UciDb) (devSect ifSect brName : CStr) :
    Except Errno DesiredState := do
  let ports := netGet net devSect "ports".toList
  let vxIfname ← firstDevicePort ports
  let (vxVni, peeraddr) ← vxlanSection net vxIfname
  let wgIfname ← findWgForRemote net peeraddr
  let ds ← addDevicePorts ports { DesiredState.zero with
    scenario := cpy _ "wg_vxlan_bridge".toList
    brName := cpy _ brName
    wgIfname := cpy _ wgIfname.val
    wgPeerIp := cpy _ peeraddr
    wgRouteDev := cpy _ wgIfname.val
    vxIfname
    vxVni
    vxRemote := cpy _ peeraddr
    vxBridge := cpy _ brName } true
  addWirelessPorts wifi ifSect ds

/-- The state of one bridge device of `uci_build_desired_set`, after `add_state`. -/
def buildState (net wifi : UciDb) (devSect ifSect brName proto : CStr) :
    Except Errno DesiredState :=
  if proto = "static".toList ∨ proto = "dhcp".toList then
    buildUplinkBridge net wifi devSect ifSect brName
  else buildWgVxlanBridge net wifi devSect ifSect brName

/-- `add_state`: the next entry of the set, filled in by `build`. -/
def addState (set : DesiredSet) (build : Except Errno DesiredState) : Except Errno DesiredSet :=
  if h : set.val.length < NR_DES_STATE_MAX then do
    let ds ← build
    return ⟨set.val ++ [ds], by simpa using h⟩
  else .error .E2BIG

/-- The loop body of `uci_build_desired_set`. -/
def buildRound (net wifi : UciDb) (set : DesiredSet) (it : UciItem) : Except Errno DesiredSet :=
  if !it.isSect "network".toList "device".toList then .ok set
  else if netGet net it.sect "type".toList ≠ some "bridge".toList then .ok set
  else
    match netGet net it.sect "name".toList with
    | none => .error .EINVAL
    | some brName =>
      if brName = [] then .error .EINVAL
      else
        match findIfaceByDevice net brName with
        | none => .error .EINVAL
        | some ifSect =>
          match netGet net ifSect "proto".toList with
          | none => .error .EINVAL
          | some proto =>
            if proto ≠ "static".toList ∧ proto ≠ "dhcp".toList ∧ proto ≠ "none".toList then
              .error .EINVAL
            else addState set (buildState net wifi it.sect ifSect brName proto)

/-- `uci_build_desired_set`. -/
def uciBuildDesiredSet (network wireless : UciSource) : Except Errno DesiredSet := do
  let net ← network.load
  let wifi ← wireless.load
  let set ← net.val.foldlM (buildRound net wifi) .empty
  reject (set.val = []) .EINVAL
  return set

/-! ## The shape of a built state -/

theorem foldWords_invariant {σ : Type} {P : σ → Prop} {sz : Nat} {f : σ → CStr → Except Errno σ}
    (hf : ∀ st w st', P st → f st w = .ok st' → P st') {src : CStr} {st st' : σ} (hst : P st)
    (h : foldWords sz f src st = .ok st') : P st' := by
  unfold foldWords at h
  generalize src.length = n at h
  induction n generalizing src st with
  | zero =>
    rw [← Except.ok.inj h]
    exact hst
  | succ n ih =>
    rw [foldWordsLoop] at h
    split at h
    · cases h
    · rw [← Except.ok.inj h]
      exact hst
    · rw [bind_eq_ok] at h
      obtain ⟨st₁, h₁, h⟩ := h
      exact ih (hf _ _ _ hst h₁) h

/-- Adding members changes nothing but the ports. -/
def PortsOnly (ds ds' : DesiredState) : Prop := ∃ brPorts, ds' = { ds with brPorts }

theorem PortsOnly.trans {ds ds' ds'' : DesiredState} (h : PortsOnly ds ds')
    (h' : PortsOnly ds' ds'') : PortsOnly ds ds'' := by
  obtain ⟨_, rfl⟩ := h
  obtain ⟨p, rfl⟩ := h'
  exact ⟨p, rfl⟩

theorem addBridgePort_portsOnly {ds ds' : DesiredState} {ifname : CStr}
    (h : addBridgePort ds ifname = .ok ds') : PortsOnly ds ds' := by
  unfold addBridgePort at h
  split_ifs at h
  all_goals
    rw [← Except.ok.inj h]
    exact ⟨_, rfl⟩

theorem addDevicePorts_portsOnly {ports : Option CStr} {ds ds' : DesiredState} {skip : Bool}
    (h : addDevicePorts ports ds skip = .ok ds') : PortsOnly ds ds' := by
  unfold addDevicePorts at h
  split at h
  · rw [← Except.ok.inj h]
    exact ⟨_, rfl⟩
  · rw [bind_eq_ok] at h
    obtain ⟨st, hst, h⟩ := h
    rw [← Except.ok.inj h]
    refine foldWords_invariant (P := fun st => PortsOnly ds st.2) ?_ ⟨_, rfl⟩ hst
    intro st w st' hp hw
    unfold addDevicePort at hw
    split at hw
    · rwa [← Except.ok.inj hw]
    · rw [bind_eq_ok] at hw
      obtain ⟨ds₁, h₁, hw⟩ := hw
      rw [← Except.ok.inj hw]
      exact hp.trans (addBridgePort_portsOnly h₁)

theorem addWirelessPorts_portsOnly {wifi : UciDb} {netName : CStr} {ds ds' : DesiredState}
    (h : addWirelessPorts wifi netName ds = .ok ds') : PortsOnly ds ds' := by
  refine foldlM_invariant (P := PortsOnly ds) ?_ ⟨_, rfl⟩ h
  intro st it _ st' hp hw
  simp only [addWirelessPort] at hw
  split_ifs at hw
  any_goals rwa [← Except.ok.inj hw]
  split at hw
  · rwa [← Except.ok.inj hw]
  · exact hp.trans (addBridgePort_portsOnly hw)

/-- Filling in the protocol changes only the addressing fields, and an address, gateway or name
server belongs to the static mode. -/
theorem fillBridgeProto_eq_ok {net : UciDb} {ifSect : CStr} {ds ds' : DesiredState}
    (h : fillBridgeProto net ifSect ds = .ok ds') :
    ∃ brAddrMode brAddr brGateway brDns brDhcpCmd,
      ds' = { ds with brAddrMode, brAddr, brGateway, brDns, brDhcpCmd } ∧
      (brAddrMode ≠ .static → brAddr = ds.brAddr ∧ brGateway = ds.brGateway ∧ brDns = ds.brDns) := by
  unfold fillBridgeProto at h
  split at h
  · cases h
  · split_ifs at h
    · unfold fillBridgeStatic at h
      split at h
      · simp only [bind_eq_ok] at h
        obtain ⟨plen, -, dns, -, h⟩ := h
        exact ⟨_, _, _, _, _, (Except.ok.inj h).symm, fun hs => absurd rfl hs⟩
      · cases h
    · exact ⟨_, _, _, _, _, (Except.ok.inj h).symm, fun _ => ⟨rfl, rfl, rfl⟩⟩
    · exact ⟨_, _, _, _, _, (Except.ok.inj h).symm, fun _ => ⟨rfl, rfl, rfl⟩⟩

/-- The shape of a built state: that of a loaded state, with a named bridge. -/
def DesiredState.Built (ds : DesiredState) : Prop :=
  ∃ scn, ds.Loaded scn ∧ scn ≠ .onlyUplink ∧ ds.brName.val ≠ []

theorem ofName_uplinkBridge :
    Scenario.ofName (cpy 32 "uplink_bridge".toList).val = some .uplinkBridge := by decide

theorem ofName_wgVxlanBridge :
    Scenario.ofName (cpy 32 "wg_vxlan_bridge".toList).val = some .wgVxlanBridge := by decide

theorem buildUplinkBridge_built {net wifi : UciDb} {devSect ifSect brName : CStr}
    {ds : DesiredState} (hn : (cpy IFNAMSIZ brName).val ≠ [])
    (h : buildUplinkBridge net wifi devSect ifSect brName = .ok ds) : ds.Built := by
  simp only [buildUplinkBridge, bind_eq_ok] at h
  obtain ⟨ds₁, h₁, up, -, ds₂, h₂, h₃⟩ := h
  obtain ⟨mode, addr, gw, dns, cmd, rfl, hstatic⟩ := fillBridgeProto_eq_ok h₁
  obtain ⟨ports, rfl⟩ := (addDevicePorts_portsOnly h₂).trans (addWirelessPorts_portsOnly h₃)
  exact ⟨.uplinkBridge, ⟨ofName_uplinkBridge, by simp, hstatic, by simp [DesiredState.zero], by simp,
    by simp [DesiredState.zero], by simp [DesiredState.zero]⟩, by simp, hn⟩

theorem buildWgVxlanBridge_built {net wifi : UciDb} {devSect ifSect brName : CStr}
    {ds : DesiredState} (hn : (cpy IFNAMSIZ brName).val ≠ [])
    (h : buildWgVxlanBridge net wifi devSect ifSect brName = .ok ds) : ds.Built := by
  simp only [buildWgVxlanBridge, bind_eq_ok] at h
  obtain ⟨vx, -, ⟨vni, peer⟩, -, wg, -, ds₂, h₂, h₃⟩ := h
  obtain ⟨ports, rfl⟩ := (addDevicePorts_portsOnly h₂).trans (addWirelessPorts_portsOnly h₃)
  exact ⟨.wgVxlanBridge, ⟨ofName_wgVxlanBridge, by simp, by simp [DesiredState.zero],
    by simp [DesiredState.zero], by simp, by simp, by simp [DesiredState.zero]⟩, by simp, hn⟩

theorem dbGet_nul_notMem {db : UciDb} {pkg sect opt v : CStr} (h : dbGet db pkg sect opt = some v) :
    '\x00' ∉ v := by
  simp only [dbGet, Option.map_eq_some_iff] at h
  obtain ⟨it, -, rfl⟩ := h
  exact it.val.nul_notMem

theorem addState_eq_ok {set set' : DesiredSet} {build : Except Errno DesiredState}
    (h : addState set build = .ok set') : ∃ ds, build = .ok ds ∧ set'.val = set.val ++ [ds] := by
  unfold addState at h
  split at h
  · rw [bind_eq_ok] at h
    obtain ⟨ds, hds, h⟩ := h
    exact ⟨ds, hds, by rw [← Except.ok.inj h]⟩
  · cases h

/-- **Every built state has the shape of a loaded state and a named bridge.** -/
theorem uciBuildDesiredSet_built {network wireless : UciSource} {set : DesiredSet}
    (h : uciBuildDesiredSet network wireless = .ok set) : ∀ ds ∈ set.val, ds.Built := by
  simp only [uciBuildDesiredSet, bind_eq_ok] at h
  obtain ⟨net, -, wifi, -, set', hset, -, -, h⟩ := h
  rw [← Except.ok.inj h]
  refine foldlM_invariant (P := fun s => ∀ ds ∈ s.val, ds.Built) ?_ (by simp) hset
  intro s it _ s' hs hr
  unfold buildRound at hr
  split_ifs at hr
  any_goals rwa [← Except.ok.inj hr]
  split at hr
  · cases hr
  · rename_i brName hname
    split_ifs at hr with hne
    split at hr
    · cases hr
    · split at hr
      · cases hr
      · split_ifs at hr
        obtain ⟨ds, hds, he⟩ := addState_eq_ok hr
        have hn : (cpy IFNAMSIZ brName).val ≠ [] :=
          cpy_ne_nil (dbGet_nul_notMem hname) hne (by decide)
        rw [he]
        refine List.forall_mem_append.mpr ⟨hs, List.forall_mem_singleton.mpr ?_⟩
        unfold buildState at hds
        split_ifs at hds
        · exact buildUplinkBridge_built hn hds
        · exact buildWgVxlanBridge_built hn hds

end Netrec
