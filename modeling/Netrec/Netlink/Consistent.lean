import Netrec.Netlink.Dump
import Netrec.Verify.Checks

/-!
# The tables of a snapshot agree

The tables of a snapshot are filled one entry at a time: a link message adds its interface first,
then a VXLAN or a VLAN. At every point every VXLAN and every VLAN has its interface, and no table is
fuller than it can be; a table that is full makes the dump fail. The verifier looks up a VXLAN and
its interface separately, and relies on finding the second when it has found the first.

## Main definitions

* `Consistent`: what holds of the tables
* `NlStep`: one entry more, or one message less to look at
* `Processing`: the tables at some point while messages are read

## Main results

* `Processing.consistent`: the tables agree at every point
* `nlLoadState_processing`: the tables are never in any other state
* `Consistent.foundWhereUsed`: the interface of a device is found where the device is
-/

namespace Netrec

open CLib

/-- Every VXLAN and every VLAN has its interface, and all tables are within their bounds. -/
structure Consistent (rs : RealState) : Prop where
  vxlan : ∀ v ∈ rs.vxlan, ∃ i ∈ rs.ifaces,
    i.ifindex = v.ifindex ∧ i.name = v.ifname ∧ i.kind.val = "vxlan".toList
  vlan : ∀ v ∈ rs.vlan, ∃ i ∈ rs.ifaces,
    i.ifindex = v.ifindex ∧ i.name = v.ifname ∧ i.kind.val = "vlan".toList
  ifaces_le : rs.ifaces.length ≤ NR_IFACE_MAX
  addr4_le : rs.addr4.length ≤ NR_ADDR4_MAX
  route4_le : rs.route4.length ≤ NR_ROUTE4_MAX
  vxlan_le : rs.vxlan.length ≤ NR_VXLAN_MAX
  vlan_le : rs.vlan.length ≤ NR_VLAN_MAX

/-! ## Entry by entry -/

/-- Where the processing of messages stands: between two messages, or in a link message whose
interface, or interface and VXLAN, have been added. -/
inductive Stage
  | idle
  | ifaceDone (nh : Bytes)
  | vxlanDone (nh : Bytes)

/-- One step of the processing. -/
inductive NlStep : RealState × Stage → RealState × Stage → Prop
  | iface {rs rs' nh} (h : addIface rs (nlmsgData nh) (msgAttrs IFLA_MAX 16 nh) = .ok rs') :
    NlStep (rs, .idle) (rs', .ifaceDone nh)
  | vxlan {rs rs' nh} (h : addVxlan rs (nlmsgData nh) (msgAttrs IFLA_MAX 16 nh) = .ok rs') :
    NlStep (rs, .ifaceDone nh) (rs', .vxlanDone nh)
  | vlan {rs rs' nh} (h : addVlan rs (nlmsgData nh) (msgAttrs IFLA_MAX 16 nh) = .ok rs') :
    NlStep (rs, .vxlanDone nh) (rs', .idle)
  | addr {rs rs' nh} (h : parseAddrMsg rs nh = .ok rs') : NlStep (rs, .idle) (rs', .idle)
  | route {rs rs' nh} (h : parseRouteMsg rs nh = .ok rs') : NlStep (rs, .idle) (rs', .idle)

/-- A state of the tables while messages are read, from the empty tables on. -/
def Processing (s : RealState × Stage) : Prop := Relation.ReflTransGen NlStep (.zero, .idle) s

/-! ## What a link message adds -/

section Entries

variable {ifi : Bytes} {tb : AttrTable}

/-- The kind of a link with link data of that kind. -/
theorem linkKind_of_infoData {kind : CStr} {data : Bytes} (hlen : kind.length < 16)
    (h : infoData tb kind = some data) : (linkKind tb).val = kind := by
  unfold infoData at h
  obtain ⟨k, hk, h⟩ := Option.bind_eq_some_iff.mp h
  split_ifs at h with hkind
  unfold linkKind
  rw [hk]
  show (cstr (chars (rtaData k))).take (16 - 1) = kind
  rw [hkind]
  exact List.take_of_length_le (Nat.le_of_lt_succ hlen)

theorem vxlanEntry_iface {v : Vxlan} (h : vxlanEntry ifi tb = some v) : ∃ i,
    ifaceEntry ifi tb = some i ∧ i.ifindex = v.ifindex ∧ i.name = v.ifname ∧
      i.kind.val = "vxlan".toList := by
  unfold vxlanEntry at h
  obtain ⟨name, hname, h⟩ := Option.bind_eq_some_iff.mp h
  obtain ⟨data, hdata, h⟩ := Option.bind_eq_some_iff.mp h
  obtain rfl := Option.some.inj h
  unfold ifaceEntry
  rw [hname]
  exact ⟨_, rfl, rfl, rfl, linkKind_of_infoData (by decide) hdata⟩

theorem vlanEntry_iface {v : Vlan} (h : vlanEntry ifi tb = some v) : ∃ i,
    ifaceEntry ifi tb = some i ∧ i.ifindex = v.ifindex ∧ i.name = v.ifname ∧
      i.kind.val = "vlan".toList := by
  unfold vlanEntry at h
  obtain ⟨name, hname, h⟩ := Option.bind_eq_some_iff.mp h
  obtain ⟨data, hdata, h⟩ := Option.bind_eq_some_iff.mp h
  obtain rfl := Option.some.inj h
  unfold ifaceEntry
  rw [hname]
  exact ⟨_, rfl, rfl, rfl, linkKind_of_infoData (by decide) hdata⟩

end Entries

theorem length_append_toList_le {α : Type} {l : List α} {entry : Option α} {max : Nat}
    (h : l.length ≤ max) (hroom : entry.isSome → l.length < max) :
    (l ++ entry.toList).length ≤ max := by
  cases entry with
  | none => simpa using h
  | some e =>
    have := hroom rfl
    simpa using this

/-! ## The invariant -/

/-- The interface of the message that is being read is there once it has been added. -/
def Stage.Added (rs : RealState) : Stage → Prop
  | idle => True
  | ifaceDone nh | vxlanDone nh =>
    ∀ i, ifaceEntry (nlmsgData nh) (msgAttrs IFLA_MAX 16 nh) = some i → i ∈ rs.ifaces

/-- **One step keeps the tables in agreement.** -/
theorem NlStep.consistent {s s' : RealState × Stage} (h : NlStep s s')
    (hs : Consistent s.1 ∧ s.2.Added s.1) : Consistent s'.1 ∧ s'.2.Added s'.1 := by
  obtain ⟨hc, hadded⟩ := hs
  cases h with
  | iface h =>
    obtain ⟨rfl, hroom⟩ := addIface_eq_ok h
    -- more interfaces do not hurt the devices that have one
    refine ⟨{ hc with
      vxlan := fun v hv => ?_
      vlan := fun v hv => ?_
      ifaces_le := length_append_toList_le hc.ifaces_le hroom }, fun i hi => ?_⟩
    · obtain ⟨i, hi, hrest⟩ := hc.vxlan v hv
      exact ⟨i, List.mem_append_left _ hi, hrest⟩
    · obtain ⟨i, hi, hrest⟩ := hc.vlan v hv
      exact ⟨i, List.mem_append_left _ hi, hrest⟩
    · rw [hi]
      exact List.mem_append_right _ List.mem_cons_self
  | vxlan h =>
    obtain ⟨rfl, hroom⟩ := addVxlan_eq_ok h
    refine ⟨{ hc with
      vxlan := fun v hv => ?_
      vxlan_le := length_append_toList_le hc.vxlan_le hroom }, hadded⟩
    obtain hv | hv := List.mem_append.mp hv
    · exact hc.vxlan v hv
    · obtain ⟨i, hi, hrest⟩ := vxlanEntry_iface (Option.mem_toList.mp hv)
      exact ⟨i, hadded i hi, hrest⟩
  | vlan h =>
    obtain ⟨rfl, hroom⟩ := addVlan_eq_ok h
    refine ⟨{ hc with
      vlan := fun v hv => ?_
      vlan_le := length_append_toList_le hc.vlan_le hroom }, trivial⟩
    obtain hv | hv := List.mem_append.mp hv
    · exact hc.vlan v hv
    · obtain ⟨i, hi, hrest⟩ := vlanEntry_iface (Option.mem_toList.mp hv)
      exact ⟨i, hadded i hi, hrest⟩
  | addr h =>
    obtain ⟨rfl, hroom⟩ := parseAddrMsg_eq_ok h
    exact ⟨{ hc with addr4_le := length_append_toList_le hc.addr4_le hroom }, trivial⟩
  | route h =>
    obtain ⟨rfl, hroom⟩ := parseRouteMsg_eq_ok h
    exact ⟨{ hc with route4_le := length_append_toList_le hc.route4_le hroom }, trivial⟩

theorem Consistent.zero : Consistent .zero := by
  constructor <;> simp [RealState.zero]

/-- **The tables agree at every point of the processing.** -/
theorem Processing.consistent {s : RealState × Stage} (h : Processing s) : Consistent s.1 := by
  have key : Consistent s.1 ∧ s.2.Added s.1 := by
    induction h with
    | refl => exact ⟨.zero, trivial⟩
    | tail _ hstep ih => exact hstep.consistent ih
  exact key.1

/-! ## The code takes these steps -/

section Code

variable {seq type : Nat} {rs : RealState}

theorem parseMsg_processing (type : Nat) (h : Processing (rs, .idle)) (nh : Bytes) :
    (∀ rs', parseMsg type rs nh = .ok rs' → Processing (rs', .idle)) ∧
    ∀ stop, parseMsg type rs nh = .error stop → ∃ stage, Processing (stop.rs, stage) := by
  unfold parseMsg
  split_ifs
  · refine ⟨fun rs' hok => ?_, fun stop herr => ?_⟩
    · obtain ⟨rs₁, rs₂, hi, hx, hl⟩ := parseLinkMsg_eq_ok hok
      exact ((h.tail (.iface hi)).tail (.vxlan hx)).tail (.vlan hl)
    · -- a table that is full leaves the tables as the earlier steps have made them
      obtain rfl | hi | ⟨rs₁, hi, hx | ⟨rs₂, hx, hl⟩⟩ := parseLinkMsg_eq_error herr
      · exact ⟨_, h⟩
      · rw [(tableAdd_eq_error hi).1]
        exact ⟨_, h⟩
      · rw [(tableAdd_eq_error hx).1]
        exact ⟨_, h.tail (.iface hi)⟩
      · rw [(tableAdd_eq_error hl).1]
        exact ⟨_, (h.tail (.iface hi)).tail (.vxlan hx)⟩
  · refine ⟨fun rs' hok => h.tail (.addr hok), fun stop herr => ⟨.idle, ?_⟩⟩
    unfold parseAddrMsg at herr
    split_ifs at herr
    · rwa [← Except.error.inj herr]
    · rwa [(tableAdd_eq_error herr).1]
  · refine ⟨fun rs' hok => h.tail (.route hok), fun stop herr => ⟨.idle, ?_⟩⟩
    unfold parseRouteMsg at herr
    split_ifs at herr
    · rwa [← Except.error.inj herr]
    · rwa [(tableAdd_eq_error herr).1]
  · exact ⟨fun rs' hok => (nomatch hok), fun stop herr => ⟨.idle, Except.error.inj herr ▸ h⟩⟩

/-- The states that a `return` can leave: between two messages when it reports success. -/
def Stop.Reached (stop : Stop) : Prop :=
  (∃ stage, Processing (stop.rs, stage)) ∧ (stop.rc = 0 → Processing (stop.rs, .idle))

theorem recvMsg_processing (seq type : Nat) (h : Processing (rs, .idle)) (nh : Bytes) :
    (∀ rs', recvMsg seq type rs nh = .ok rs' → Processing (rs', .idle)) ∧
    ∀ stop, recvMsg seq type rs nh = .error stop → stop.Reached := by
  by_cases hends : EndsDump seq nh
  · obtain hd | he := hends
    · rw [recvMsg_done hd]
      exact ⟨fun rs' hok => (nomatch hok),
        fun stop herr => Except.error.inj herr ▸ ⟨⟨_, h⟩, fun _ => h⟩⟩
    · rw [recvMsg_error he]
      exact ⟨fun rs' hok => (nomatch hok),
        fun stop herr => Except.error.inj herr ▸ ⟨⟨_, h⟩, fun _ => h⟩⟩
  · rw [recvMsg_of_not_ends hends]
    split_ifs
    · obtain ⟨hok, herr⟩ := parseMsg_processing type h nh
      exact ⟨hok, fun stop hstop =>
        ⟨herr stop hstop, fun hrc => absurd hrc (parseMsg_rc_ne_zero hstop)⟩⟩
    · exact ⟨fun rs' hok => Except.ok.inj hok ▸ h, fun stop herr => (nomatch herr)⟩

/-- **The messages of a datagram**, or the first ones of them. -/
theorem foldlM_recvMsg_processing (seq type : Nat) (h : Processing (rs, .idle))
    (msgs : List Bytes) :
    (∀ rs', msgs.foldlM (recvMsg seq type) rs = .ok rs' → Processing (rs', .idle)) ∧
    ∀ stop, msgs.foldlM (recvMsg seq type) rs = .error stop → stop.Reached := by
  induction msgs generalizing rs with
  | nil => exact ⟨fun rs' hok => Except.ok.inj hok ▸ h, fun stop herr => (nomatch herr)⟩
  | cons nh msgs ih =>
    obtain ⟨hok, herr⟩ := recvMsg_processing seq type h nh
    rw [List.foldlM_cons]
    cases hmsg : recvMsg seq type rs nh with
    | error s =>
      exact ⟨fun rs' hfold => (nomatch hfold),
        fun stop hfold => Except.error.inj hfold ▸ herr s hmsg⟩
    | ok rs₁ => exact ih (hok rs₁ hmsg)

/-- Where a dump can be when it waits, and what it can leave when it returns. -/
def DumpEnd.Reached : DumpEnd → Prop
  | waiting rs => Processing (rs, .idle)
  | returned rc rs => Stop.Reached ⟨rc, rs⟩

theorem Stop.reached_idle (h : Processing (rs, .idle)) (rc : Int) : Stop.Reached ⟨rc, rs⟩ :=
  ⟨⟨_, h⟩, fun _ => h⟩

theorem recvDump_processing (seq type : Nat) (h : Processing (rs, .idle)) (evs : List RecvEvent)
    (buf : Bytes) : (recvDump seq type evs buf rs).Reached := by
  induction evs generalizing buf rs with
  | nil => exact h
  | cons ev evs ih =>
    cases ev with
    | fail errno =>
      rw [recvDump]
      split_ifs
      · exact ih h buf
      · exact Stop.reached_idle h _
    | data d =>
      rw [recvDump]
      simp only
      split_ifs
      · exact Stop.reached_idle h _
      · obtain ⟨hok, herr⟩ := foldlM_recvMsg_processing seq type h
          (nlmsg.records (recvInto d buf) (d.take NL_BUF_SZ).length).1
        unfold recvMsgs
        cases hfold : (nlmsg.records (recvInto d buf) (d.take NL_BUF_SZ).length).1.foldlM
            (recvMsg seq type) rs with
        | error stop => exact herr stop hfold
        | ok rs₁ =>
          rw [ok_bind]
          split_ifs
          · exact Stop.reached_idle (hok rs₁ hfold) _
          · exact ih (hok rs₁ hfold) _

theorem NlSocket.dump_processing (sock : NlSocket) (seq bodyLen type : Nat)
    (h : Processing (rs, .idle)) : (sock.dump seq bodyLen type rs).Reached := by
  unfold NlSocket.dump
  split_ifs
  · exact Stop.reached_idle h _
  · exact recvDump_processing seq type h _ _

theorem DumpEnd.Reached.andThen {d : DumpEnd} {next : RealState → DumpEnd} (hd : d.Reached)
    (hnext : ∀ rs, Processing (rs, .idle) → (next rs).Reached) : (d.andThen next).Reached := by
  cases d with
  | waiting rs => exact hd
  | returned rc rs =>
    rw [DumpEnd.andThen]
    split_ifs with hrc
    · exact hd
    · exact hnext rs (hd.2 (not_not.mp hrc))

/-- **The tables are never in any other state**: what `nl_load_state` leaves, or has so far. -/
theorem nlLoadState_processing (sock : NlSocket) : (nlLoadState sock).Reached := by
  have hzero : Processing (.zero, .idle) := Relation.ReflTransGen.refl
  unfold nlLoadState
  split
  · exact Stop.reached_idle hzero _
  · exact ((sock.dump_processing 1 1 RTM_NEWLINK hzero).andThen
      fun rs h => sock.dump_processing 2 8 RTM_NEWADDR h).andThen
      fun rs h => sock.dump_processing 3 12 RTM_NEWROUTE h

end Code

/-! ## Lookups -/

section Lookups

variable {rs : RealState} (h : Consistent rs)

include h

theorem Consistent.devicesListed : DevicesListed rs where
  vxlan v hv := by
    obtain ⟨i, hi, -, hname, -⟩ := h.vxlan v hv
    exact ⟨i, hi, hname⟩
  vlan v hv := by
    obtain ⟨i, hi, -, hname, -⟩ := h.vlan v hv
    exact ⟨i, hi, hname⟩

omit h in
/-- A VXLAN that is not found is created. -/
theorem checkVxlanAttrs_recreate (ds : DesiredState) (vxIf : Option Iface) :
    (checkVxlanAttrs ds rs vxIf none).value.2 = true := by
  cases vxIf <;> rfl

omit h in
/-- A VLAN that is not found is created. -/
theorem checkVlanAttrs_recreate (ds : DesiredState) (vlIf : Option Iface) :
    (checkVlanAttrs ds rs vlIf none).value.2 = true := by
  cases vlIf <;> rfl

end Lookups

/-- The calls of `check_iface_up` and `check_master` for a device pass its interface: where the
device is found, and where it is not to be created again. -/
structure FoundWhereUsed (ds : DesiredState) (rs : RealState) : Prop where
  vxlan_up : (rsFindVxlan rs ds.vxIfname).isSome → (rsFindIface rs ds.vxIfname).isSome
  vlan_up : (rsFindVlan rs ds.vlanIfname).isSome → (rsFindIface rs ds.vlanIfname).isSome
  vxlan_master : (checkVxlanAttrs ds rs (rsFindIface rs ds.vxIfname)
    (rsFindVxlan rs ds.vxIfname)).value.2 = false → (rsFindIface rs ds.vxIfname).isSome
  vlan_master : (checkVlanAttrs ds rs (rsFindIface rs ds.vlanIfname)
    (rsFindVlan rs ds.vlanIfname)).value.2 = false → (rsFindIface rs ds.vlanIfname).isSome

theorem Consistent.foundWhereUsed {rs : RealState} (h : Consistent rs) (ds : DesiredState) :
    FoundWhereUsed ds rs where
  vxlan_up := h.devicesListed.rsFindIface_of_vxlan
  vlan_up := h.devicesListed.rsFindIface_of_vlan
  vxlan_master hr := by
    cases hv : rsFindVxlan rs ds.vxIfname with
    | none =>
      rw [hv, checkVxlanAttrs_recreate] at hr
      cases hr
    | some v => exact h.devicesListed.rsFindIface_of_vxlan (hv ▸ rfl)
  vlan_master hr := by
    cases hv : rsFindVlan rs ds.vlanIfname with
    | none =>
      rw [hv, checkVlanAttrs_recreate] at hr
      cases hr
    | some v => exact h.devicesListed.rsFindIface_of_vlan (hv ▸ rfl)

/-- **The tables of a snapshot agree at every point of the processing.** The code goes through no
other states, whatever the kernel sends; a message that does not fit is an error, and all others add
their entries; the lookups of the verifier find the interface of every device that they find. -/
theorem snapshot_consistent :
    (∀ rs stage, Processing (rs, stage) →
      Consistent rs ∧ ∀ ds, FoundWhereUsed ds rs) ∧
    (∀ seq type rs, Processing (rs, .idle) → ∀ msgs : List Bytes,
      (∀ rs', msgs.foldlM (recvMsg seq type) rs = .ok rs' → Processing (rs', .idle)) ∧
      ∀ stop, msgs.foldlM (recvMsg seq type) rs = .error stop →
        ∃ stage, Processing (stop.rs, stage)) ∧
    (∀ sock, (nlLoadState sock).Reached) ∧
    ∀ rs nh, (∃ rs', parseMsg (nlmsgType nh) rs nh = .ok rs' ∧ Grown [nh] rs rs') ∨
      ∃ stop, parseMsg (nlmsgType nh) rs nh = .error stop ∧ stop.rc ≠ 0 := by
  refine ⟨fun rs stage h => ⟨h.consistent, h.consistent.foundWhereUsed⟩, fun seq type rs h msgs => ?_,
    nlLoadState_processing, fun rs nh => ?_⟩
  · obtain ⟨hok, herr⟩ := foldlM_recvMsg_processing seq type h msgs
    exact ⟨hok, fun stop hstop => (herr stop hstop).1⟩
  · cases hparse : parseMsg (nlmsgType nh) rs nh with
    | error stop => exact .inr ⟨stop, rfl, parseMsg_rc_ne_zero hparse⟩
    | ok rs' => exact .inl ⟨rs', rfl, parseMsg_grown rfl hparse⟩

/-- `vx0`, a VXLAN with its link data. -/
def vx0Link : NlMsg where
  bytes := msgBytes RTM_NEWLINK 2 1 (linkBytes 7 1 ++
    attrBytes IFLA_IFNAME [118, 120, 48, 0] ++
    attrBytes IFLA_LINKINFO (
      attrBytes IFLA_INFO_KIND [118, 120, 108, 97, 110, 0] ++ [0, 0] ++
      attrBytes IFLA_INFO_DATA (attrBytes IFLA_VXLAN_ID (leBytes 4 100))))
  isFrame := by decide +kernel

theorem vx0Link_consistent : ∃ rs stage, Processing (rs, stage) ∧ rs.vxlan.length = 1 ∧
    Consistent rs := by
  obtain ⟨rs, h⟩ : ∃ rs, parseMsg RTM_NEWLINK .zero vx0Link.bytes = .ok rs :=
    exists_eq_ok (by decide +kernel)
  have hlen : (parseMsg RTM_NEWLINK .zero vx0Link.bytes).map (fun rs => rs.vxlan.length) = .ok 1 := by
    decide +kernel
  have hproc : Processing (rs, .idle) :=
    (parseMsg_processing RTM_NEWLINK Relation.ReflTransGen.refl vx0Link.bytes).1 rs h
  rw [h] at hlen
  exact ⟨rs, .idle, hproc, Except.ok.inj hlen, (snapshot_consistent.1 rs .idle hproc).1⟩

end Netrec
