import Netrec.CLib.Chain
import Netrec.CLib.Records
import Netrec.State

/-!
# The kernel snapshot

The snapshot is filled from three rtnetlink dumps: links, addresses and routes. The answer to a
request arrives in datagrams of netlink messages; a message has a header, a fixed part that depends
on its type, and attributes, some of which hold attributes in turn. Every message of the dump that
is asked for adds entries to the tables of the snapshot, up to their size. A message is looked at
in the buffer it was received in, so a name that has no terminator runs on into whatever the buffer
holds behind it. Numbers are little-endian; IPv4 addresses are kept in host byte order.

The socket is a parameter: what `sendto` and `recv` return, and what the buffers of the three dumps
hold before anything is received.

## Main definitions

* `parseRtattr`: a table of attributes by type
* `parseLinkMsg`, `parseAddrMsg`, `parseRouteMsg`: what a message adds
* `recvDump`: the messages of one dump, up to the one that ends it
* `nlLoadState`: the three dumps
-/

namespace Netrec

open CLib

/-! ## Messages and attributes -/

/-- `struct nlmsghdr`, `NLMSG_OK` and `NLMSG_NEXT`. -/
def nlmsg : RecFormat := ⟨16, 4, by decide, by decide⟩

/-- `struct rtattr`, `RTA_OK` and `RTA_NEXT`. -/
def rtattr : RecFormat := ⟨4, 2, by decide, by decide⟩

/-- `nh->nlmsg_len`. -/
def nlmsgLen (nh : Bytes) : Nat := nlmsg.len nh

/-- `nh->nlmsg_type`. -/
def nlmsgType (nh : Bytes) : Nat := leNat 2 (nh.drop 4)

/-- `nh->nlmsg_flags`. -/
def nlmsgFlags (nh : Bytes) : Nat := leNat 2 (nh.drop 6)

/-- `nh->nlmsg_seq`. -/
def nlmsgSeq (nh : Bytes) : Nat := leNat 4 (nh.drop 8)

/-- `NLMSG_DATA(nh)`. -/
def nlmsgData (nh : Bytes) : Bytes := nh.drop 16

/-- `rta->rta_type & NLA_TYPE_MASK`. -/
def rtaType (rta : Bytes) : Nat := leNat 2 (rta.drop 2) % 2 ^ 14

/-- `RTA_PAYLOAD(rta)`. -/
def rtaPayload (rta : Bytes) : Int := rtattr.len rta - 4

/-- `RTA_DATA(rta)`. -/
def rtaData (rta : Bytes) : Bytes := rta.drop 4

/-- The attributes of a message by their type. -/
abbrev AttrTable := Nat → Option Bytes

/-- The loop body of `parse_rtattr`: the last attribute of a type stays. -/
def setRtattr (max : Nat) (tb : AttrTable) (rta : Bytes) : AttrTable :=
  if rtaType rta ≤ max then Function.update tb (rtaType rta) (some rta) else tb

/-- `parse_rtattr`. -/
def parseRtattr (max : Nat) (rta : Bytes) (len : Int) : AttrTable :=
  (rtattr.records rta len).1.foldl (setRtattr max) fun _ => none

/-- The data of an attribute that has at least `n` bytes of it. -/
def attrData (n : Int) (attr : Option Bytes) : Option Bytes :=
  attr.bind fun rta => if n ≤ rtaPayload rta then some (rtaData rta) else none

/-- An attribute that is a number of `n` bytes. -/
def attrNat (n : Nat) (attr : Option Bytes) : Option Nat := (attrData n attr).map (leNat n)

/-- An attribute that is an interface index. -/
def attrIndex (attr : Option Bytes) : Option Int := (attrNat 4 attr).map s32

/-- An attribute that is an IPv4 address. -/
def attrIp4 (attr : Option Bytes) : Option UInt32 :=
  (attrData 4 attr).map fun p => UInt32.ofNat (beNat 4 p)

/-! ## Constants of the kernel headers -/

abbrev NLMSG_ERROR : Nat := 2
abbrev NLMSG_DONE : Nat := 3
abbrev RTM_NEWLINK : Nat := 16
abbrev RTM_NEWADDR : Nat := 20
abbrev RTM_NEWROUTE : Nat := 24

abbrev IFLA_IFNAME : Nat := 3
abbrev IFLA_LINK : Nat := 5
abbrev IFLA_MASTER : Nat := 10
abbrev IFLA_LINKINFO : Nat := 18
abbrev IFLA_CARRIER : Nat := 33
abbrev IFLA_MAX : Nat := 65
abbrev IFLA_INFO_KIND : Nat := 1
abbrev IFLA_INFO_DATA : Nat := 2
abbrev IFLA_INFO_MAX : Nat := 5
abbrev IFLA_VXLAN_ID : Nat := 1
abbrev IFLA_VXLAN_GROUP : Nat := 2
abbrev IFLA_VXLAN_LINK : Nat := 3
abbrev IFLA_VXLAN_MAX : Nat := 33
abbrev IFLA_VLAN_ID : Nat := 1
abbrev IFLA_VLAN_MAX : Nat := 5

abbrev IFA_ADDRESS : Nat := 1
abbrev IFA_LOCAL : Nat := 2
abbrev IFA_MAX : Nat := 11

abbrev RTA_DST : Nat := 1
abbrev RTA_OIF : Nat := 4
abbrev RTA_GATEWAY : Nat := 5
abbrev RTA_TABLE : Nat := 15
abbrev RTA_MAX : Nat := 30

abbrev AF_INET : Nat := 2
abbrev RTN_UNICAST : Nat := 1
abbrev RTN_LOCAL : Nat := 2
abbrev RT_TABLE_MAIN : Nat := 254

/-! ## Entries of the tables -/

/-- `NR_IFACE_MAX`. -/
abbrev NR_IFACE_MAX : Nat := 2048

/-- `NR_ADDR4_MAX`. -/
abbrev NR_ADDR4_MAX : Nat := 8192

/-- `NR_ROUTE4_MAX`. -/
abbrev NR_ROUTE4_MAX : Nat := 32768

/-- `NR_VXLAN_MAX`. -/
abbrev NR_VXLAN_MAX : Nat := 1024

/-- `NR_VLAN_MAX`. -/
abbrev NR_VLAN_MAX : Nat := 4096

/-- A `return` before the dump is complete: the code, and the tables at that point. -/
structure Stop where
  rc : Int
  rs : RealState
  deriving DecidableEq

/-- What fills a table and its count: nothing without an entry, an error when the table is full. -/
def tableAdd {α : Type} (rs : RealState) (table : List α) (max : Nat) (put : List α → RealState) :
    Option α → Except Stop RealState
  | none => .ok rs
  | some entry =>
    if table.length ≥ max then .error ⟨-Errno.ENOSPC.code, rs⟩ else .ok (put (table ++ [entry]))

/-- The attributes of `IFLA_LINKINFO`. -/
def linkInfo (tb : AttrTable) : Option AttrTable :=
  (tb IFLA_LINKINFO).map fun info => parseRtattr IFLA_INFO_MAX (rtaData info) (rtaPayload info)

/-- The attribute `IFLA_INFO_KIND`. -/
def infoKind (tb : AttrTable) : Option Bytes := (linkInfo tb).bind fun li => li IFLA_INFO_KIND

/-- `link_kind`. -/
def linkKind (tb : AttrTable) : CBuf 16 :=
  match infoKind tb with
  | none => .empty
  | some kind => cpy 16 (chars (rtaData kind))

/-- The `IFLA_INFO_DATA` of a link of the given kind. -/
def infoData (tb : AttrTable) (kind : CStr) : Option Bytes :=
  (infoKind tb).bind fun k =>
    if cstr (chars (rtaData k)) = kind then (linkInfo tb).bind fun li => li IFLA_INFO_DATA else none

/-- `ifi->ifi_index`. -/
def ifiIndex (ifi : Bytes) : Int := s32 (leNat 4 (ifi.drop 4))

/-- The entry that `add_iface` fills in. -/
def ifaceEntry (ifi : Bytes) (tb : AttrTable) : Option Iface :=
  (tb IFLA_IFNAME).map fun name =>
    { name := cpy IFNAMSIZ (chars (rtaData name))
      kind := linkKind tb
      ifindex := ifiIndex ifi
      flags := UInt32.ofNat (leNat 4 (ifi.drop 8))
      carrier := (attrNat 1 (tb IFLA_CARRIER)).map UInt8.ofNat
      master := (attrIndex (tb IFLA_MASTER)).getD 0
      link := attrIndex (tb IFLA_LINK) }

/-- `add_iface`. -/
def addIface (rs : RealState) (ifi : Bytes) (tb : AttrTable) : Except Stop RealState :=
  tableAdd rs rs.ifaces NR_IFACE_MAX (fun ifaces => { rs with ifaces }) (ifaceEntry ifi tb)

/-- The entry that `add_vxlan` fills in. -/
def vxlanEntry (ifi : Bytes) (tb : AttrTable) : Option Vxlan := do
  let name ← tb IFLA_IFNAME
  let data ← infoData tb "vxlan".toList
  let vx := parseRtattr IFLA_VXLAN_MAX (rtaData data) (rtaPayload data)
  return {
    ifname := cpy IFNAMSIZ (chars (rtaData name))
    ifindex := ifiIndex ifi
    vni := (attrNat 4 (vx IFLA_VXLAN_ID)).map UInt32.ofNat
    remote := attrIp4 (vx IFLA_VXLAN_GROUP)
    link := attrIndex (vx IFLA_VXLAN_LINK) }

/-- `add_vxlan`. -/
def addVxlan (rs : RealState) (ifi : Bytes) (tb : AttrTable) : Except Stop RealState :=
  tableAdd rs rs.vxlan NR_VXLAN_MAX (fun vxlan => { rs with vxlan }) (vxlanEntry ifi tb)

/-- The entry that `add_vlan` fills in; the parent is an attribute of the link itself. -/
def vlanEntry (ifi : Bytes) (tb : AttrTable) : Option Vlan := do
  let name ← tb IFLA_IFNAME
  let data ← infoData tb "vlan".toList
  let vl := parseRtattr IFLA_VLAN_MAX (rtaData data) (rtaPayload data)
  return {
    ifname := cpy IFNAMSIZ (chars (rtaData name))
    ifindex := ifiIndex ifi
    id := (attrNat 2 (vl IFLA_VLAN_ID)).map UInt32.ofNat
    link := attrIndex (tb IFLA_LINK) }

/-- `add_vlan`. -/
def addVlan (rs : RealState) (ifi : Bytes) (tb : AttrTable) : Except Stop RealState :=
  tableAdd rs rs.vlan NR_VLAN_MAX (fun vlan => { rs with vlan }) (vlanEntry ifi tb)

/-- The attributes of a message after a fixed part of `size` bytes. -/
def msgAttrs (max size : Nat) (nh : Bytes) : AttrTable :=
  parseRtattr max ((nlmsgData nh).drop size) (nlmsgLen nh - (16 + size))

/-- `parse_link_msg`. -/
def parseLinkMsg (rs : RealState) (nh : Bytes) : Except Stop RealState :=
  if nlmsgLen nh < 16 + 16 then .error ⟨-Errno.EIO.code, rs⟩
  else do
    let ifi := nlmsgData nh
    let tb := msgAttrs IFLA_MAX 16 nh
    let rs ← addIface rs ifi tb
    let rs ← addVxlan rs ifi tb
    addVlan rs ifi tb

/-- The entry that `parse_addr_msg` fills in: `IFA_LOCAL` goes before `IFA_ADDRESS`. -/
def addrEntry (nh : Bytes) : Option Addr4 :=
  let ifa := nlmsgData nh
  let tb := msgAttrs IFA_MAX 8 nh
  if leNat 1 ifa ≠ AF_INET then none
  else
    (attrIp4 ((tb IFA_LOCAL).or (tb IFA_ADDRESS))).map fun addr =>
      { ifindex := s32 (leNat 4 (ifa.drop 4)), addr, plen := leNat 1 (ifa.drop 1) }

/-- `parse_addr_msg`. -/
def parseAddrMsg (rs : RealState) (nh : Bytes) : Except Stop RealState :=
  if nlmsgLen nh < 16 + 8 then .error ⟨-Errno.EIO.code, rs⟩
  else tableAdd rs rs.addr4 NR_ADDR4_MAX (fun addr4 => { rs with addr4 }) (addrEntry nh)

/-- `route_table`. -/
def routeTable (rtm : Bytes) (tb : AttrTable) : Int :=
  match attrIndex (tb RTA_TABLE) with
  | some table => table
  | none => leNat 1 (rtm.drop 4)

/-- The entry that `parse_route_msg` fills in. -/
def routeEntry (nh : Bytes) : Option Route4 :=
  let rtm := nlmsgData nh
  let tb := msgAttrs RTA_MAX 12 nh
  if leNat 1 rtm ≠ AF_INET then none
  else if leNat 1 (rtm.drop 7) ≠ RTN_UNICAST ∧ leNat 1 (rtm.drop 7) ≠ RTN_LOCAL then none
  else if routeTable rtm tb ≠ RT_TABLE_MAIN then none
  else some {
    dst := (attrIp4 (tb RTA_DST)).getD 0
    plen := leNat 1 (rtm.drop 1)
    gw := (attrIp4 (tb RTA_GATEWAY)).getD 0
    hasGw := (attrIp4 (tb RTA_GATEWAY)).isSome
    oif := (attrIndex (tb RTA_OIF)).getD 0 }

/-- `parse_route_msg`. -/
def parseRouteMsg (rs : RealState) (nh : Bytes) : Except Stop RealState :=
  if nlmsgLen nh < 16 + 12 then .error ⟨-Errno.EIO.code, rs⟩
  else tableAdd rs rs.route4 NR_ROUTE4_MAX (fun route4 => { rs with route4 }) (routeEntry nh)

/-! ## A dump -/

/-- `nl_err`. -/
def nlErr (nh : Bytes) : Int :=
  if nlmsgLen nh < 16 + 20 then -Errno.EIO.code else s32 (leNat 4 (nlmsgData nh))

/-- The `switch` of `recv_dump` over the type of the dump. -/
def parseMsg (type : Nat) (rs : RealState) (nh : Bytes) : Except Stop RealState :=
  if type = RTM_NEWLINK then parseLinkMsg rs nh
  else if type = RTM_NEWADDR then parseAddrMsg rs nh
  else if type = RTM_NEWROUTE then parseRouteMsg rs nh
  else .error ⟨-Errno.EINVAL.code, rs⟩

/-- One message in the inner loop of `recv_dump`. -/
def recvMsg (seq type : Nat) (rs : RealState) (nh : Bytes) : Except Stop RealState :=
  if nlmsgSeq nh ≠ seq then .ok rs
  else if nlmsgType nh = NLMSG_DONE then .error ⟨0, rs⟩
  else if nlmsgType nh = NLMSG_ERROR then .error ⟨nlErr nh, rs⟩
  else if nlmsgType nh ≠ type then .ok rs
  else parseMsg type rs nh

/-- The inner loop of `recv_dump` over the messages of a datagram; no bytes may be left behind. -/
def recvMsgs (seq type : Nat) (rs : RealState) (msgs : List Bytes) (rem : Int) :
    Except Stop RealState := do
  let rs ← msgs.foldlM (recvMsg seq type) rs
  if rem ≠ 0 then .error ⟨-Errno.EIO.code, rs⟩ else .ok rs

/-- `EINTR`. -/
abbrev EINTR : ℕ+ := 4

/-- The size of the receive buffer. -/
abbrev NL_BUF_SZ : Nat := 16384

/-- What a call of `recv` returns. -/
inductive RecvEvent
  | data (bytes : Bytes)
  | fail (errno : ℕ+)

/-- How far a dump has come: it waits for more, or it has returned. -/
inductive DumpEnd
  | waiting (rs : RealState)
  | returned (rc : Int) (rs : RealState)
  deriving DecidableEq

/-- The code of a dump that has returned. -/
def DumpEnd.rc : DumpEnd → Option Int
  | waiting _ => none
  | returned rc _ => some rc

theorem DumpEnd.exists_of_rc {d : DumpEnd} {rc : Int} (h : d.rc = some rc) :
    ∃ rs, d = .returned rc rs := by
  cases d with
  | waiting rs => cases h
  | returned rc' rs => exact ⟨rs, by rw [Option.some.inj h]⟩

/-- A datagram in the receive buffer, over what it held before; a longer one is cut. -/
def recvInto (d buf : Bytes) : Bytes := d.take NL_BUF_SZ ++ buf.drop (d.take NL_BUF_SZ).length

/-- `recv_dump`, with the results of `recv` in order and the buffer before each of them. -/
def recvDump (seq type : Nat) : List RecvEvent → Bytes → RealState → DumpEnd
  | [], _, rs => .waiting rs
  | .fail errno :: evs, buf, rs =>
    if errno = EINTR then recvDump seq type evs buf rs else .returned (-errno) rs
  | .data d :: evs, buf, rs =>
    let len := (d.take NL_BUF_SZ).length
    if len = 0 then .returned (-Errno.EIO.code) rs
    else
      let buf := recvInto d buf
      let (msgs, rem) := nlmsg.records buf len
      match recvMsgs seq type rs msgs rem with
      | .error stop => .returned stop.rc stop.rs
      | .ok rs => recvDump seq type evs buf rs

/-! ## The snapshot -/

/-- The netlink socket: an error when it cannot be opened, what `sendto` and `recv` return for the
request with a given sequence number, and what the receive buffer of its dump starts with. -/
structure NlSocket where
  openError : Option ℕ+
  sent : Nat → Except ℕ+ Nat
  received : Nat → List RecvEvent
  buf : Nat → Bytes

/-- `nl_send`, for a request with a body of the given length. -/
def nlSend (sent : Except ℕ+ Nat) (bodyLen : Nat) : Int :=
  if align4 (16 + bodyLen) > 256 then -Errno.EINVAL.code
  else
    match sent with
    | .error errno => -errno
    | .ok n => if n ≠ 16 + bodyLen then -Errno.EIO.code else 0

/-- A request and the dump that answers it. -/
def NlSocket.dump (sock : NlSocket) (seq bodyLen type : Nat) (rs : RealState) : DumpEnd :=
  if nlSend (sock.sent seq) bodyLen ≠ 0 then .returned (nlSend (sock.sent seq) bodyLen) rs
  else recvDump seq type (sock.received seq) (sock.buf seq) rs

/-- `dump_links`. -/
def dumpLinks (sock : NlSocket) (rs : RealState) : DumpEnd := sock.dump 1 1 RTM_NEWLINK rs

/-- `dump_addr4`. -/
def dumpAddr4 (sock : NlSocket) (rs : RealState) : DumpEnd := sock.dump 2 8 RTM_NEWADDR rs

/-- `dump_route4`. -/
def dumpRoute4 (sock : NlSocket) (rs : RealState) : DumpEnd := sock.dump 3 12 RTM_NEWROUTE rs

/-- The next dump, after one that has returned zero. -/
def DumpEnd.andThen (d : DumpEnd) (next : RealState → DumpEnd) : DumpEnd :=
  match d with
  | .waiting rs => .waiting rs
  | .returned rc rs => if rc ≠ 0 then .returned rc rs else next rs

/-- `nl_load_state`. -/
def nlLoadState (sock : NlSocket) : DumpEnd :=
  match sock.openError with
  | some errno => .returned (-errno) .zero
  | none => ((dumpLinks sock .zero).andThen (dumpAddr4 sock)).andThen (dumpRoute4 sock)

end Netrec
