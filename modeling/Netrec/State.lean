import Netrec.CLib.Numeric

/-!
# Desired and real state

The two sides the verifier compares: the desired state of one scenario, a flat record of
fixed-size fields, and the snapshot of the kernel, six tables filled from the rtnetlink dumps and
`/etc/resolv.conf`. Lookups in the snapshot are linear searches for the first match.

## Main definitions

* `Errno`: the error codes the program returns, negated
* `DesiredState`, `DesiredSet`: what the configuration asks for
* `Scenario`, `Scenario.ofName`: the four scenarios and the names they go by
* `RealState`: the snapshot
* `rsFindIface`, `rsFindVxlan`, `rsFindVlan`, `rsDns4Exists`: lookups in the snapshot
* `DevicesListed`: the tables of a snapshot agree
-/

namespace Netrec

open CLib

/-! ## Error codes -/

/-- The `errno` values the program returns negated. -/
inductive Errno
  | ENOENT | EIO | E2BIG | EAGAIN | ENOMEM | EACCES | EINVAL | ENOTDIR | EISDIR | ENOSPC
  | EOPNOTSUPP
  deriving DecidableEq, Repr

/-- The Linux value of an `errno`. -/
def Errno.code : Errno → Nat
  | ENOENT => 2
  | EIO => 5
  | E2BIG => 7
  | EAGAIN => 11
  | ENOMEM => 12
  | EACCES => 13
  | EINVAL => 22
  | ENOTDIR => 20
  | EISDIR => 21
  | ENOSPC => 28
  | EOPNOTSUPP => 95

theorem Errno.code_pos (e : Errno) : 0 < e.code := by
  cases e <;> decide

/-! ## Desired state -/

/-- `IFNAMSIZ`. -/
abbrev IFNAMSIZ : Nat := 16

/-- `INET_ADDRSTRLEN`. -/
abbrev INET_ADDRSTRLEN : Nat := 16

/-- `NR_BR_PORT_MAX`. -/
abbrev NR_BR_PORT_MAX : Nat := 32

/-- `NR_DES_ROUTE4_MAX`. -/
abbrev NR_DES_ROUTE4_MAX : Nat := 64

/-- `NR_DES_DNS4_MAX`. -/
abbrev NR_DES_DNS4_MAX : Nat := 4

/-- `NR_DES_STATE_MAX`. -/
abbrev NR_DES_STATE_MAX : Nat := 16

/-- An interface name field. -/
abbrev IfName := CBuf IFNAMSIZ

/-- A dotted-quad address field. -/
abbrev AddrStr := CBuf INET_ADDRSTRLEN

/-- `enum addr_mode`. -/
inductive AddrMode
  | none
  | static
  | dhcp
  deriving DecidableEq, Repr

/-- `struct desired_route4`. -/
structure DesiredRoute4 where
  dst : CBuf 32
  via : AddrStr
  dev : IfName
  hasVia : Bool
  deriving DecidableEq

/-- `struct desired_state`: the fields of one scenario. -/
structure DesiredState where
  scenario : CBuf 32
  brName : IfName
  brAddrMode : AddrMode
  brAddr : CBuf 32
  brGateway : AddrStr
  brDns : Table NR_DES_DNS4_MAX AddrStr
  brDhcpCmd : CBuf 128
  brPorts : Table NR_BR_PORT_MAX IfName
  upIfname : IfName
  vlanIfname : IfName
  vlanId : UInt32
  vlanLink : IfName
  vlanBridge : IfName
  wgIfname : IfName
  wgPeerIp : AddrStr
  wgRouteDev : IfName
  vxIfname : IfName
  vxVni : UInt32
  vxRemote : AddrStr
  vxDev : IfName
  vxBridge : IfName
  routes : Table NR_DES_ROUTE4_MAX DesiredRoute4
  deriving DecidableEq

/-- `memset(ds, 0, sizeof(*ds))`. -/
def DesiredState.zero : DesiredState where
  scenario := .empty
  brName := .empty
  brAddrMode := .none
  brAddr := .empty
  brGateway := .empty
  brDns := .empty
  brDhcpCmd := .empty
  brPorts := .empty
  upIfname := .empty
  vlanIfname := .empty
  vlanId := 0
  vlanLink := .empty
  vlanBridge := .empty
  wgIfname := .empty
  wgPeerIp := .empty
  wgRouteDev := .empty
  vxIfname := .empty
  vxVni := 0
  vxRemote := .empty
  vxDev := .empty
  vxBridge := .empty
  routes := .empty

instance : Inhabited DesiredState := ⟨.zero⟩

/-- `struct desired_set`. -/
abbrev DesiredSet := Table NR_DES_STATE_MAX DesiredState

/-- The scenarios. -/
inductive Scenario
  | onlyUplink
  | uplinkBridge
  | vlanBridge
  | wgVxlanBridge
  deriving DecidableEq, Repr

/-- The dispatch by name shared by the loader and the verifier; `none` for an unsupported name. -/
def Scenario.ofName (s : CStr) : Option Scenario :=
  if s = "only_uplink".toList ∨ s = "only_uplink_iface".toList then some .onlyUplink
  else if s = "uplink_bridge".toList ∨ s = "uplink_in_bridge".toList then some .uplinkBridge
  else if s = "vlan_bridge".toList ∨ s = "vlan_in_bridge".toList then some .vlanBridge
  else if s = "wg_vxlan_bridge".toList then some .wgVxlanBridge
  else none

/-! ## Real state -/

/-- `IFF_UP`. -/
def IFF_UP : UInt32 := 1

/-- `struct iface`; an attribute is `none` when its `has_` flag is clear. -/
structure Iface where
  name : IfName
  kind : CBuf 16
  ifindex : Int
  flags : UInt32
  carrier : Option UInt8 := none
  master : Int
  link : Option Int := none
  deriving DecidableEq

/-- `iface->flags & IFF_UP`. -/
def Iface.isUp (i : Iface) : Bool := i.flags &&& IFF_UP != 0

/-- `!strcmp(iface->kind, "bridge")`. -/
def Iface.isBridge (i : Iface) : Bool := i.kind.val = "bridge".toList

/-- `struct addr4`. -/
structure Addr4 where
  ifindex : Int
  addr : UInt32
  plen : Int
  deriving DecidableEq

/-- `struct route4`. -/
structure Route4 where
  dst : UInt32
  plen : Int
  gw : UInt32
  hasGw : Bool
  oif : Int
  deriving DecidableEq

/-- `struct vxlan`; an attribute is `none` when its `has_` flag is clear. -/
structure Vxlan where
  ifname : IfName
  ifindex : Int
  vni : Option UInt32
  remote : Option UInt32
  link : Option Int
  deriving DecidableEq

/-- `struct vlan`; an attribute is `none` when its `has_` flag is clear. -/
structure Vlan where
  ifname : IfName
  ifindex : Int
  id : Option UInt32
  link : Option Int
  deriving DecidableEq

/-- `struct real_state`: the kernel snapshot. -/
structure RealState where
  ifaces : List Iface
  addr4 : List Addr4
  route4 : List Route4
  dns4 : List UInt32
  vxlan : List Vxlan
  vlan : List Vlan
  deriving DecidableEq

/-- `memset(rs, 0, sizeof(*rs))`. -/
def RealState.zero : RealState := ⟨[], [], [], [], [], []⟩

/-- `rs_find_iface`. -/
def rsFindIface (rs : RealState) (name : IfName) : Option Iface :=
  rs.ifaces.find? fun i => i.name = name

/-- `rs_find_vxlan`. -/
def rsFindVxlan (rs : RealState) (name : IfName) : Option Vxlan :=
  rs.vxlan.find? fun v => v.ifname = name

/-- `rs_find_vlan`. -/
def rsFindVlan (rs : RealState) (name : IfName) : Option Vlan :=
  rs.vlan.find? fun v => v.ifname = name

/-- `rs_dns4_exists`. -/
def rsDns4Exists (rs : RealState) (addr : UInt32) : Bool := rs.dns4.any fun a => a = addr

theorem rsFindIface_mem {rs : RealState} {name : IfName} {i : Iface}
    (h : rsFindIface rs name = some i) : i ∈ rs.ifaces :=
  List.mem_of_find?_eq_some h

theorem rsFindVxlan_name {rs : RealState} {name : IfName} {v : Vxlan}
    (h : rsFindVxlan rs name = some v) : v.ifname = name := by
  simpa using List.find?_some h

theorem rsFindVxlan_mem {rs : RealState} {name : IfName} {v : Vxlan}
    (h : rsFindVxlan rs name = some v) : v ∈ rs.vxlan :=
  List.mem_of_find?_eq_some h

theorem rsFindVlan_name {rs : RealState} {name : IfName} {v : Vlan}
    (h : rsFindVlan rs name = some v) : v.ifname = name := by
  simpa using List.find?_some h

theorem rsFindVlan_mem {rs : RealState} {name : IfName} {v : Vlan}
    (h : rsFindVlan rs name = some v) : v ∈ rs.vlan :=
  List.mem_of_find?_eq_some h

/-- Every VXLAN and every VLAN of the snapshot has an interface of its name. -/
structure DevicesListed (rs : RealState) : Prop where
  vxlan : ∀ v ∈ rs.vxlan, ∃ i ∈ rs.ifaces, i.name = v.ifname
  vlan : ∀ v ∈ rs.vlan, ∃ i ∈ rs.ifaces, i.name = v.ifname

instance (rs : RealState) : Decidable (DevicesListed rs) :=
  decidable_of_iff ((∀ v ∈ rs.vxlan, ∃ i ∈ rs.ifaces, i.name = v.ifname) ∧
    ∀ v ∈ rs.vlan, ∃ i ∈ rs.ifaces, i.name = v.ifname)
    ⟨fun h => ⟨h.1, h.2⟩, fun h => ⟨h.vxlan, h.vlan⟩⟩

/-- **A VXLAN that is found has an interface.** -/
theorem DevicesListed.rsFindIface_of_vxlan {rs : RealState} (h : DevicesListed rs) {name : IfName}
    (hv : (rsFindVxlan rs name).isSome) : (rsFindIface rs name).isSome := by
  obtain ⟨v, hv⟩ := Option.isSome_iff_exists.mp hv
  obtain ⟨i, hi, hname⟩ := h.vxlan v (rsFindVxlan_mem hv)
  rw [rsFindVxlan_name hv] at hname
  exact List.find?_isSome.mpr ⟨i, hi, decide_eq_true hname⟩

/-- **A VLAN that is found has an interface.** -/
theorem DevicesListed.rsFindIface_of_vlan {rs : RealState} (h : DevicesListed rs) {name : IfName}
    (hv : (rsFindVlan rs name).isSome) : (rsFindIface rs name).isSome := by
  obtain ⟨v, hv⟩ := Option.isSome_iff_exists.mp hv
  obtain ⟨i, hi, hname⟩ := h.vlan v (rsFindVlan_mem hv)
  rw [rsFindVlan_name hv] at hname
  exact List.find?_isSome.mpr ⟨i, hi, decide_eq_true hname⟩

end Netrec
