import Netrec.Uci.Whole

/-!
# The exact members of a bridge

What the members of a bridge should be is a list of names that the whole values of the two dumps
give: the words of `ports` behind the first, then the names of the wireless interfaces that are
enabled and belong to the network, each once and without the device the bridge is built on. The
build has this list, or refuses it when it is longer than 32, exactly if the first 255 bytes of the
values, which are all that is stored, give the same list.

## Main definitions

* `membersOf`: the names of a list, each once
* `listedFirst`, `listedMembers`: the device and the members that the values of the dumps give
* `MembersExact`: the build has these members
* `MembersKept`: the first 255 bytes give the same members

## Main results

* `members_eq_membersOf`: what adding names one by one gives
* `foldlM_addBridgePort_eq`: what the build does with a list of names
* `membersExact_iff`: the dumps whose bridges have exact members
-/

namespace Netrec

open CLib

/-! ## Lists of names -/

/-- The names of a list in order, each once, without the empty name and without `first`. -/
def membersOf (first : CStr) (names : List CStr) : List CStr :=
  (names.filter fun w => w ≠ [] ∧ w ≠ first).eraseDups

/-- **What adding names one by one gives.** -/
theorem members_eq_membersOf (first : CStr) (names : List CStr) :
    members first names = membersOf first names := by
  -- on the last name, which is the one that is added last
  induction names using List.reverseRecOn with
  | nil => rfl
  | append_singleton names w ih =>
    have hstep : members first (names ++ [w]) = addMember first (members first names) w := by
      rw [members, List.foldl_append]
      rfl
    have hmem : w ∈ members first names ↔ w ∈ names.filter fun w => w ≠ [] ∧ w ≠ first := by
      rw [mem_members_iff, List.mem_filter, decide_eq_true_eq]
    rw [hstep, addMember, membersOf, List.filter_append, List.eraseDups_append, ← membersOf, ← ih]
    by_cases hw : w ≠ [] ∧ w ≠ first
    · rw [List.filter_cons_of_pos (by simpa using hw), List.filter_nil]
      by_cases hin : w ∈ members first names
      · rw [if_pos (.inr (.inr hin)), List.removeAll, List.filter_cons_of_neg (by
          simpa [-List.mem_filter] using hmem.mp hin)]
        simp
      · rw [if_neg (by simp [hw.1, hw.2, hin]), List.removeAll, List.filter_cons_of_pos (by
          simpa [-List.mem_filter] using mt hmem.mpr hin)]
        rfl
    · rw [List.filter_cons_of_neg (by simpa using hw)]
      have hskip : w = [] ∨ w = first ∨ w ∈ members first names := by tauto
      rw [if_pos hskip]
      simp [List.removeAll]

theorem length_foldl_addMember (first : CStr) (ps ws : List CStr) :
    ps.length ≤ (ws.foldl (addMember first) ps).length := by
  induction ws generalizing ps with
  | nil => exact le_rfl
  | cons w ws ih =>
    refine le_trans ?_ (ih (addMember first ps w))
    unfold addMember
    split_ifs
    · exact le_rfl
    · simp

/-! ## Adding names -/

/-- A new name is refused when the table is full. -/
theorem addBridgePort_eq_error {ds : DesiredState} {first w : CStr} {e : Errno}
    (hb : BuiltOn ds first) (h : addBridgePort ds w = .error e) :
    e = .E2BIG ∧ ¬ (w = [] ∨ w = first ∨ w ∈ ds.portNames) ∧
      NR_BR_PORT_MAX ≤ ds.portNames.length := by
  have hnew : ¬ (w = [] ∨ w = first ∨ w ∈ ds.portNames) := by
    intro hskip
    rw [addBridgePort_of_skip hb hskip] at h
    cases h
  unfold addBridgePort at h
  split_ifs at h with _ _ _ _ hroom
  refine ⟨(Except.error.inj h).symm, hnew, ?_⟩
  rw [DesiredState.portNames, List.length_map]
  exact Nat.le_of_not_lt hroom

/-- **What the build does with a list of names**: it has their members, or there are too many. -/
theorem foldlM_addBridgePort_eq {ds : DesiredState} {first : CStr} {ws : List CStr}
    (hb : BuiltOn ds first) (hn : ∀ w ∈ ws, '\x00' ∉ w) (hl : ∀ w ∈ ws, w.length < IFNAMSIZ) :
    (∃ ds', ws.foldlM addBridgePort ds = .ok ds' ∧ PortsOnly ds ds' ∧
      ds'.portNames = ws.foldl (addMember first) ds.portNames ∧
      ds'.portNames.length ≤ NR_BR_PORT_MAX) ∨
    (ws.foldlM addBridgePort ds = .error .E2BIG ∧
      NR_BR_PORT_MAX < (ws.foldl (addMember first) ds.portNames).length) := by
  cases h : ws.foldlM addBridgePort ds with
  | ok ds' =>
    refine .inl ⟨ds', rfl, foldlM_portsOnly h, foldlM_addBridgePort_names hb hn hl h, ?_⟩
    rw [DesiredState.portNames, List.length_map]
    exact ds'.brPorts.property
  | error e =>
    right
    -- on the names, up to the one that is refused
    induction ws generalizing ds with
    | nil => cases h
    | cons w ws ih =>
      rw [List.forall_mem_cons] at hn hl
      rw [List.foldl_cons]
      rw [List.foldlM_cons] at h
      cases h₁ : addBridgePort ds w with
      | error e' =>
        rw [h₁, error_bind] at h
        obtain ⟨rfl, hnew, hfull⟩ := addBridgePort_eq_error hb h₁
        refine ⟨congrArg Except.error (Except.error.inj h).symm, ?_⟩
        refine lt_of_lt_of_le ?_ (length_foldl_addMember first _ ws)
        rw [addMember, if_neg hnew, List.length_append, List.length_singleton]
        omega
      | ok ds₁ =>
        rw [h₁, ok_bind] at h
        rw [← addBridgePort_names hb hn.1 hl.1 h₁]
        exact ih (hb.portsOnly (addBridgePort_portsOnly h₁)) hn.2 hl.2 h

/-- The loop over `ports` adds all words but the first, when all of them fit. -/
theorem addDevicePorts_eq {ports : CStr} (ds : DesiredState)
    (hl : ∀ w ∈ words ports, w.length < IFNAMSIZ) :
    addDevicePorts (some ports) ds true = (words ports).tail.foldlM addBridgePort ds := by
  cases h : (words ports).tail.foldlM addBridgePort ds with
  | ok ds' => exact addDevicePorts_eq_ok_iff.mpr ⟨hl, h⟩
  | error e =>
    have key : ∀ (ws : List CStr) (ds : DesiredState), (∀ w ∈ ws, w.length < IFNAMSIZ) →
        ws.foldlM portRound (false, ds) =
          ws.foldlM addBridgePort ds >>= fun ds => .ok (false, ds) := by
      intro ws
      induction ws with
      | nil => exact fun ds _ => rfl
      | cons w ws ih =>
        intro ds hl
        rw [List.forall_mem_cons] at hl
        have hround : portRound (false, ds) w =
            addBridgePort ds w >>= fun ds => .ok (false, ds) := if_neg (Nat.not_lt.mpr hl.1)
        simp only [List.foldlM_cons, hround, bind_assoc, ok_bind, ih _ hl.2]
    have hfold : addDevicePorts (some ports) ds true =
        (words ports).foldlM portRound (true, ds) >>= fun st => .ok st.2 := by
      simp only [addDevicePorts, foldWords_eq]
      rfl
    rw [hfold]
    cases hw : words ports with
    | nil =>
      rw [hw] at h
      cases h
    | cons w ws =>
      rw [hw, List.forall_mem_cons] at hl
      rw [hw, List.tail_cons] at h
      have hround : portRound (true, ds) w = .ok (false, ds) := if_neg (Nat.not_lt.mpr hl.1)
      rw [List.foldlM_cons, hround, ok_bind, key ws ds hl.2, h]
      rfl

/-! ## The steps before the members -/

section Base

variable {net wifi : UciDb} {dev ifSect brName proto : CStr} {ds : DesiredState}

/-- The device that a state of a protocol is built on: the uplink or the VXLAN. -/
def DesiredState.device (proto : CStr) (ds : DesiredState) : CStr :=
  if proto = "static".toList ∨ proto = "dhcp".toList then ds.upIfname.val else ds.vxIfname.val

/-- `build_uplink_bridge` and `build_wg_vxlan_bridge` up to `add_device_ports`. -/
def bridgeBase (net : UciDb) (dev ifSect brName proto : CStr) : Except Errno DesiredState :=
  if proto = "static".toList ∨ proto = "dhcp".toList then do
    let ds ← fillBridgeProto net ifSect (uplinkBase brName)
    let upIfname ← firstDevicePort (netGet net dev "ports".toList)
    return { ds with upIfname }
  else do
    let vxIfname ← firstDevicePort (netGet net dev "ports".toList)
    let vx ← vxlanSection net vxIfname
    let wgIfname ← findWgForRemote net vx.2
    return wgVxlanBase brName vx.2 wgIfname vx.1 vxIfname

/-- A state is built up to its members, and then its members are added. -/
theorem buildState_eq_bridgeBase : buildState net wifi dev ifSect brName proto =
    bridgeBase net dev ifSect brName proto >>= fun ds =>
      addDevicePorts (netGet net dev "ports".toList) ds true >>= addWirelessPorts wifi ifSect := by
  rw [buildState, bridgeBase]
  split_ifs
  · simp only [buildUplinkBridge, bind_assoc, pure_eq_ok, ok_bind]
    rfl
  · simp only [buildWgVxlanBridge, bind_assoc, pure_eq_ok, ok_bind]
    rfl

/-- The device a bridge is built on is the first word of `ports`. -/
theorem firstDevicePort_eq_ok {b : IfName}
    (h : firstDevicePort (netGet net dev "ports".toList) = .ok b) :
    ∃ ports first ws, netGet net dev "ports".toList = some ports ∧ words ports = first :: ws ∧
      b.val = first := by
  cases hports : netGet net dev "ports".toList with
  | none =>
    rw [hports] at h
    cases h
  | some ports =>
    rw [hports, firstDevicePort_eq] at h
    cases hw : words ports with
    | nil =>
      rw [hw] at h
      cases h
    | cons first ws =>
      simp only [hw] at h
      split_ifs at h with hlen
      have hnul : '\x00' ∉ first := fun hc =>
        dbGet_nul_notMem hports (mem_of_mem_words (hw ▸ List.mem_cons_self) hc)
      refine ⟨ports, first, ws, rfl, hw, ?_⟩
      rw [← Except.ok.inj h, cpy_of_fits hnul (by omega)]

/-- **What members are added to**: a state without any, built on the first word of `ports`. -/
theorem bridgeBase_eq_ok (h : bridgeBase net dev ifSect brName proto = .ok ds) :
    ∃ ports first ws, netGet net dev "ports".toList = some ports ∧ words ports = first :: ws ∧
      BuiltOn ds first ∧ ds.device proto = first ∧ ds.portNames = [] := by
  unfold bridgeBase at h
  split_ifs at h with hproto
  · simp only [bind_eq_ok] at h
    obtain ⟨ds₁, hfill, up, hup, h⟩ := h
    obtain ⟨ports, first, ws, hports, hw, hfirst⟩ := firstDevicePort_eq_ok hup
    obtain ⟨mode, addr, gw, dns, cmd, rfl, -⟩ := fillBridgeProto_eq_ok hfill
    obtain rfl := Except.ok.inj h
    refine ⟨ports, first, ws, hports, hw, .inl ⟨hfirst, rfl⟩, ?_, rfl⟩
    rw [DesiredState.device, if_pos hproto]
    exact hfirst
  · simp only [bind_eq_ok] at h
    obtain ⟨vx, hvx, sect, -, wg, -, h⟩ := h
    obtain ⟨ports, first, ws, hports, hw, hfirst⟩ := firstDevicePort_eq_ok hvx
    obtain rfl := Except.ok.inj h
    refine ⟨ports, first, ws, hports, hw, .inr ⟨hfirst, rfl⟩, ?_, rfl⟩
    rw [DesiredState.device, if_neg hproto]
    exact hfirst

theorem DesiredState.device_portsOnly {ds ds' : DesiredState} (h : PortsOnly ds ds') :
    ds'.device proto = ds.device proto := by
  obtain ⟨ports, rfl⟩ := h
  rfl

/-- **A build whose names fit** has the members of its names, or refuses them when there are more
than 32. -/
theorem buildState_members {ports first : CStr} {ws : List CStr}
    (hbase : bridgeBase net dev ifSect brName proto = .ok ds)
    (hports : netGet net dev "ports".toList = some ports) (hw : words ports = first :: ws)
    (hl : ∀ w ∈ first :: ws, w.length < IFNAMSIZ)
    (hwifi : ∀ w ∈ wifi.val.filterMap (wifiPort wifi ifSect), w.length < IFNAMSIZ) :
    (∃ ds', buildState net wifi dev ifSect brName proto = .ok ds' ∧ ds'.device proto = first ∧
      ds'.portNames = membersOf first (ws ++ wifi.val.filterMap (wifiPort wifi ifSect)) ∧
      ds'.portNames.length ≤ NR_BR_PORT_MAX) ∨
    (buildState net wifi dev ifSect brName proto = .error .E2BIG ∧
      NR_BR_PORT_MAX <
        (membersOf first (ws ++ wifi.val.filterMap (wifiPort wifi ifSect))).length) := by
  obtain ⟨ports', first', ws', hports', hw', hon, hdev, hempty⟩ := bridgeBase_eq_ok hbase
  obtain rfl := Option.some.inj (hports.symm.trans hports')
  obtain ⟨rfl, rfl⟩ := List.cons.inj (hw.symm.trans hw')
  -- both loops together add one list of names
  have hbuild : buildState net wifi dev ifSect brName proto =
      (ws ++ wifi.val.filterMap (wifiPort wifi ifSect)).foldlM addBridgePort ds := by
    rw [buildState_eq_bridgeBase, hbase, ok_bind, hports, addDevicePorts_eq ds (hw ▸ hl), hw,
      List.tail_cons, List.foldlM_append]
    exact bind_congr fun ds => addWirelessPorts_eq wifi ifSect ds
  have hnul : ∀ w ∈ ws ++ wifi.val.filterMap (wifiPort wifi ifSect), '\x00' ∉ w := by
    refine List.forall_mem_append.mpr ⟨fun w hmem hc => ?_, fun w hmem => ?_⟩
    · exact dbGet_nul_notMem hports
        (mem_of_mem_words (hw ▸ List.mem_cons_of_mem first hmem) hc)
    · obtain ⟨it, -, hit⟩ := List.mem_filterMap.mp hmem
      unfold wifiPort at hit
      split_ifs at hit
      exact dbGet_nul_notMem hit
  have hfit : ∀ w ∈ ws ++ wifi.val.filterMap (wifiPort wifi ifSect), w.length < IFNAMSIZ :=
    List.forall_mem_append.mpr ⟨fun w hmem => hl w (List.mem_cons_of_mem first hmem), hwifi⟩
  have hmembers : (ws ++ wifi.val.filterMap (wifiPort wifi ifSect)).foldl (addMember first)
      ds.portNames = membersOf first (ws ++ wifi.val.filterMap (wifiPort wifi ifSect)) := by
    rw [hempty]
    exact members_eq_membersOf first _
  rw [hbuild, ← hmembers]
  obtain ⟨ds', hok, honly, hnames, hmax⟩ | herr := foldlM_addBridgePort_eq hon hnul hfit
  · exact .inl ⟨ds', hok, (DesiredState.device_portsOnly honly).trans hdev, hnames, hmax⟩
  · exact .inr herr

end Base

/-! ## The members that the dumps give -/

section Listed

variable (cut : CStr → CStr) (net wifi : DumpData) (dev ifSect : CStr)

/-- The words of the option `ports`, as far as `cut` leaves its value. -/
def portWords : List CStr := words (cut (wholeNet net dev "ports".toList))

/-- Whether an entry begins a wireless interface of the network: its option `disabled` is absent or
`0`, and its option `network` has the network as a word. -/
def wifiUses (e : UciEntry) : Bool :=
  e.isType && e.pkg = "wireless".toList && e.val = "wifi-iface".toList &&
    (wifi.whole "wireless".toList e.sect "disabled".toList).all (· = "0".toList) &&
    (wifi.whole "wireless".toList e.sect "network".toList).any fun v =>
      (words (cut v)).contains ifSect

/-- The name of a wireless interface of the network. -/
def wifiIfname (e : UciEntry) : Option CStr :=
  if wifiUses cut wifi ifSect e then wifi.whole "wireless".toList e.sect "ifname".toList else none

/-- The device a bridge is to be built on. -/
def listedFirst : CStr := (portWords cut net dev).headD []

/-- The members a bridge is to have. -/
def listedMembers : List CStr :=
  membersOf (listedFirst cut net dev)
    ((portWords cut net dev).tail ++ wifi.entries.filterMap (wifiIfname cut wifi ifSect))

/-- The part of a value that is stored. -/
def stored (v : CStr) : CStr := v.take (UCI_VAL_SZ - 1)

/-- The stored parts of `ports` and `network` give the device and the members that their whole
values give, or both give too many. -/
def MembersKept : Prop :=
  (listedFirst stored net dev = listedFirst id net dev ∧
    listedMembers stored net wifi dev ifSect = listedMembers id net wifi dev ifSect) ∨
  (NR_BR_PORT_MAX < (listedMembers stored net wifi dev ifSect).length ∧
    NR_BR_PORT_MAX < (listedMembers id net wifi dev ifSect).length)

/-- The build of a bridge has exact members: when it succeeds it has the device and the members that
the whole values give, and when the steps before succeed it fails with `E2BIG` exactly if there are
more than 32. -/
def MembersExact (brName proto : CStr) : Prop :=
  (∀ ds, buildState net.db wifi.db dev ifSect brName proto = .ok ds →
    ds.device proto = listedFirst id net dev ∧
      ds.portNames = listedMembers id net wifi dev ifSect) ∧
  ∀ ds, bridgeBase net.db dev ifSect brName proto = .ok ds →
    (buildState net.db wifi.db dev ifSect brName proto = .error .E2BIG ↔
      NR_BR_PORT_MAX < (listedMembers id net wifi dev ifSect).length)

end Listed

section Exact

variable {net wifi : UciDump} {dev ifSect brName proto : CStr}

theorem stored_length_lt (v : CStr) : (stored v).length < UCI_VAL_SZ := by
  rw [stored, List.length_take]
  exact Nat.lt_of_le_of_lt (Nat.min_le_left _ _) (by decide)

theorem stored_of_length_lt {v : CStr} (h : v.length < UCI_VAL_SZ) : stored v = v :=
  List.take_of_length_le (by omega)

/-- A value is stored as a short text only if it is this text. -/
theorem stored_eq_iff {v w : CStr} (h : w.length + 1 < UCI_VAL_SZ) : stored v = w ↔ v = w := by
  constructor
  · intro hv
    have hlen := congrArg List.length hv
    rw [stored, List.length_take] at hlen
    rwa [stored_of_length_lt (by omega)] at hv
  · rintro rfl
    exact stored_of_length_lt (by omega)

/-- Whether an interface is a member is decided on stored values. -/
theorem wifiMember_eq {e : UciEntry} (he : e.Ok) :
    wifiMember wifi.db ifSect e.item = wifiUses stored wifi.toDumpData ifSect e := by
  have htype : e.item.isSect "wireless".toList "wifi-iface".toList =
      (e.isType && e.pkg = "wireless".toList && e.val = "wifi-iface".toList) := by
    rw [UciItem.isSect, he.item_pkg, he.item_val]
    exact congrArg _ (decide_eq_decide.mpr (stored_eq_iff (by decide)))
  have hon : (!(dbGet wifi.db "wireless".toList e.item.sect.val "disabled".toList).any
        (· ≠ "0".toList)) =
      (wifi.whole "wireless".toList e.sect "disabled".toList).all (· = "0".toList) := by
    rw [he.item_sect, wifi.get_eq]
    cases wifi.whole "wireless".toList e.sect "disabled".toList with
    | none => rfl
    | some v =>
      rw [Option.map_some, Option.any_some, Option.all_some, ← decide_not, decide_eq_decide,
        not_not]
      exact stored_eq_iff (by decide)
  have huses : (dbGet wifi.db "wireless".toList e.item.sect.val "network".toList).any
        (valueHasToken · ifSect) =
      (wifi.whole "wireless".toList e.sect "network".toList).any fun v =>
        (words (stored v)).contains ifSect := by
    rw [he.item_sect, wifi.get_eq]
    cases wifi.whole "wireless".toList e.sect "network".toList with
    | none => rfl
    | some v =>
      rw [Option.map_some, Option.any_some, Option.any_some, List.contains_eq_mem]
      exact valueHasToken_eq ifSect (stored_length_lt v)
  rw [wifiMember, htype, hon, huses, wifiUses]

/-- The wireless names of the table are those that the stored values give. -/
theorem filterMap_wifiPort_eq
    (hifname : ∀ sect, ∀ v ∈ wifi.whole "wireless".toList sect "ifname".toList,
      v.length < IFNAMSIZ) :
    wifi.db.val.filterMap (wifiPort wifi.db ifSect) =
      wifi.entries.filterMap (wifiIfname stored wifi.toDumpData ifSect) := by
  rw [wifi.db_eq, List.filterMap_map]
  refine List.filterMap_congr fun e he => ?_
  have hok := wifi.ok e he
  have hname : dbGet wifi.db "wireless".toList e.sect "ifname".toList =
      wifi.whole "wireless".toList e.sect "ifname".toList := by
    rw [wifi.get_eq]
    cases hv : wifi.whole "wireless".toList e.sect "ifname".toList with
    | none => rfl
    | some v =>
      have hlen := hifname e.sect v hv
      exact congrArg some (stored_of_length_lt (hlen.trans (by decide)))
  rw [Function.comp_apply, wifiPort, wifiIfname, hok.item_sect, hname]
  rw [wifiMember_eq hok]

/-- The stored words of `ports` are no longer than the whole ones. -/
theorem length_portWords_stored
    (hports : ∀ w ∈ portWords id net.toDumpData dev, w.length < IFNAMSIZ) :
    ∀ w ∈ portWords stored net.toDumpData dev, w.length < IFNAMSIZ := by
  intro w hw
  obtain ⟨v, hv, hwv⟩ := exists_word_of_take hw
  exact lt_of_le_of_lt hwv.length_le (hports v hv)

/-- Short values are stored whole. -/
theorem membersKept_of_length_lt
    (hports : (wholeNet net.toDumpData dev "ports".toList).length < UCI_VAL_SZ)
    (hnetwork : ∀ sect, ∀ v ∈ wifi.whole "wireless".toList sect "network".toList,
      v.length < UCI_VAL_SZ) :
    MembersKept net.toDumpData wifi.toDumpData dev ifSect := by
  have hwords : portWords stored net.toDumpData dev = portWords id net.toDumpData dev := by
    rw [portWords, portWords, stored_of_length_lt hports, id]
  have hnames : ∀ e, wifiIfname stored wifi.toDumpData ifSect e =
      wifiIfname id wifi.toDumpData ifSect e := by
    intro e
    have huses : wifiUses stored wifi.toDumpData ifSect e =
        wifiUses id wifi.toDumpData ifSect e := by
      unfold wifiUses
      cases hv : wifi.whole "wireless".toList e.sect "network".toList with
      | none => rfl
      | some v =>
        rw [Option.any_some, Option.any_some, stored_of_length_lt (hnetwork e.sect v hv), id]
    rw [wifiIfname, wifiIfname, huses]
  have hfirst : listedFirst stored net.toDumpData dev = listedFirst id net.toDumpData dev := by
    rw [listedFirst, listedFirst, hwords]
  refine .inl ⟨hfirst, ?_⟩
  rw [listedMembers, listedMembers, hfirst, hwords, List.filterMap_congr fun e _ => hnames e]

/-- **A build whose names fit**, in terms of the stored values. -/
theorem buildState_listed {ds : DesiredState}
    (hports : ∀ w ∈ portWords id net.toDumpData dev, w.length < IFNAMSIZ)
    (hifname : ∀ sect, ∀ v ∈ wifi.whole "wireless".toList sect "ifname".toList,
      v.length < IFNAMSIZ)
    (hbase : bridgeBase net.db dev ifSect brName proto = .ok ds) :
    (∃ ds', buildState net.db wifi.db dev ifSect brName proto = .ok ds' ∧
      ds'.device proto = listedFirst stored net.toDumpData dev ∧
      ds'.portNames = listedMembers stored net.toDumpData wifi.toDumpData dev ifSect ∧
      ds'.portNames.length ≤ NR_BR_PORT_MAX) ∨
    (buildState net.db wifi.db dev ifSect brName proto = .error .E2BIG ∧
      NR_BR_PORT_MAX <
        (listedMembers stored net.toDumpData wifi.toDumpData dev ifSect).length) := by
  obtain ⟨ports, first, ws, hget, hw, -, -, -⟩ := bridgeBase_eq_ok hbase
  have hwords : portWords stored net.toDumpData dev = first :: ws := by
    rw [portWords, stored, ← (netGet_eq_some hget).1, hw]
  -- a word that is cut is a prefix of a whole one, so it fits too
  have hfit : ∀ w ∈ first :: ws, w.length < IFNAMSIZ := hwords ▸ length_portWords_stored hports
  have hwifi : ∀ w ∈ wifi.db.val.filterMap (wifiPort wifi.db ifSect), w.length < IFNAMSIZ := by
    intro w hmem
    rw [filterMap_wifiPort_eq hifname] at hmem
    obtain ⟨e, -, he⟩ := List.mem_filterMap.mp hmem
    unfold wifiIfname at he
    split_ifs at he
    exact hifname e.sect w he
  have hmembers := buildState_members hbase hget hw hfit hwifi
  rw [filterMap_wifiPort_eq hifname] at hmembers
  rwa [listedMembers, listedFirst, hwords]

/-- When the steps before the members succeed, the members are exact if they are kept. -/
theorem membersExact_iff_kept {ds : DesiredState}
    (hports : ∀ w ∈ portWords id net.toDumpData dev, w.length < IFNAMSIZ)
    (hifname : ∀ sect, ∀ v ∈ wifi.whole "wireless".toList sect "ifname".toList,
      v.length < IFNAMSIZ)
    (hbase : bridgeBase net.db dev ifSect brName proto = .ok ds) :
    MembersExact net.toDumpData wifi.toDumpData dev ifSect brName proto ↔
      MembersKept net.toDumpData wifi.toDumpData dev ifSect := by
  obtain ⟨ds', hok, hdev, hnames, hmax⟩ | ⟨herr, hmany⟩ := buildState_listed hports hifname hbase
  · -- the build succeeds, with the stored members
    rw [hnames] at hmax
    constructor
    · intro h
      obtain ⟨hdev', hnames'⟩ := h.1 ds' hok
      exact .inl ⟨hdev.symm.trans hdev', hnames.symm.trans hnames'⟩
    · rintro (⟨hfirst, hmembers⟩ | ⟨hmany, -⟩)
      · refine ⟨fun ds₁ h₁ => ?_, fun _ _ => iff_of_false ?_ ?_⟩
        · obtain rfl := Except.ok.inj (hok.symm.trans h₁)
          exact ⟨hdev.trans hfirst, hnames.trans hmembers⟩
        · rw [hok]
          exact fun h => by cases h
        · rw [← hmembers]
          exact Nat.not_lt.mpr hmax
      · exact absurd hmany (Nat.not_lt.mpr hmax)
  · -- the build refuses the stored members
    constructor
    · exact fun h => .inr ⟨hmany, (h.2 ds hbase).mp herr⟩
    · intro h
      have hwhole : NR_BR_PORT_MAX <
          (listedMembers id net.toDumpData wifi.toDumpData dev ifSect).length := by
        obtain ⟨-, hmembers⟩ | ⟨-, hwhole⟩ := h
        · exact hmembers ▸ hmany
        · exact hwhole
      refine ⟨fun ds₁ h₁ => ?_, fun _ _ => iff_of_true herr hwhole⟩
      rw [herr] at h₁
      cases h₁

/-- **The dumps whose bridges have exact members.** When all names have at most 15 bytes, these are
the dumps whose stored values give the same members as the whole ones, and so all dumps whose
values `ports` and `network` have at most 255 bytes. -/
theorem membersExact_iff (net wifi : UciDump) (dev ifSect brName proto : CStr)
    (hports : ∀ w ∈ portWords id net.toDumpData dev, w.length < IFNAMSIZ)
    (hifname : ∀ sect, ∀ v ∈ wifi.whole "wireless".toList sect "ifname".toList,
      v.length < IFNAMSIZ) :
    (MembersExact net.toDumpData wifi.toDumpData dev ifSect brName proto ↔
      ((∃ ds, bridgeBase net.db dev ifSect brName proto = .ok ds) →
        MembersKept net.toDumpData wifi.toDumpData dev ifSect)) ∧
    ((wholeNet net.toDumpData dev "ports".toList).length < UCI_VAL_SZ →
      (∀ sect, ∀ v ∈ wifi.whole "wireless".toList sect "network".toList,
        v.length < UCI_VAL_SZ) →
      MembersExact net.toDumpData wifi.toDumpData dev ifSect brName proto) := by
  have hiff : MembersExact net.toDumpData wifi.toDumpData dev ifSect brName proto ↔
      ((∃ ds, bridgeBase net.db dev ifSect brName proto = .ok ds) →
        MembersKept net.toDumpData wifi.toDumpData dev ifSect) := by
    by_cases hbase : ∃ ds, bridgeBase net.db dev ifSect brName proto = .ok ds
    · obtain ⟨ds, hds⟩ := hbase
      rw [membersExact_iff_kept hports hifname hds]
      exact ⟨fun h _ => h, fun h => h ⟨ds, hds⟩⟩
    · -- nothing is built, so there is nothing to be exact about
      refine iff_of_true ⟨fun ds h => absurd ?_ hbase, fun ds h => absurd ⟨ds, h⟩ hbase⟩
        fun h => absurd h hbase
      rw [buildState_eq_bridgeBase, bind_eq_ok] at h
      exact ⟨h.choose, h.choose_spec.1⟩
  exact ⟨hiff, fun hlen hnetwork => hiff.mpr fun _ => membersKept_of_length_lt hlen hnetwork⟩

end Exact

/-- A value of an option is that of an entry. -/
theorem DumpData.exists_of_whole {d : DumpData} {pkg sect opt v : CStr}
    (h : d.whole pkg sect opt = some v) : ∃ e ∈ d.entries, e.val = v := by
  obtain ⟨e, he, hv⟩ := Option.map_eq_some_iff.mp h
  exact ⟨e, List.mem_reverse.mp (List.mem_of_find?_eq_some he), hv⟩

/-- A bridge with a port that is named twice. -/
def apDump : CStr := onePortDump ++ unlines ["network.d1.ports='eth0 eth1 eth0 eth1'"]

/-- A wireless interface of its network, and one that is disabled. -/
def apWifiDump : CStr := unlines [
  "wireless.w0=wifi-iface", "wireless.w0.network='lan'", "wireless.w0.ifname='wlan0'",
  "wireless.w1=wifi-iface", "wireless.w1.network='lan'", "wireless.w1.ifname='wlan1'",
  "wireless.w1.disabled='1'"]

theorem apDump_exact : ∃ net wifi : UciDump, (UciSource.file (.ok apDump)).Gives net ∧
    (UciSource.file (.ok apWifiDump)).Gives wifi ∧
    listedMembers id net.toDumpData wifi.toDumpData "d1".toList "lan".toList =
      ["eth1".toList, "wlan0".toList] ∧
    MembersExact net.toDumpData wifi.toDumpData "d1".toList "lan".toList "br-lan".toList
      "dhcp".toList := by
  obtain ⟨netDb, hnet⟩ : ∃ db, (UciSource.file (.ok apDump)).load = .ok db :=
    exists_eq_ok (by decide +kernel)
  obtain ⟨wifiDb, hwifi⟩ : ∃ db, (UciSource.file (.ok apWifiDump)).load = .ok db :=
    exists_eq_ok (by decide +kernel)
  obtain ⟨net, hn, -⟩ := exists_gives hnet
  obtain ⟨wifi, hw, -⟩ := exists_gives hwifi
  have hvalues : (do
      let es ← (UciSource.file (.ok apDump)).dump
      let db ← (UciSource.file (.ok apDump)).load
      let es' ← (UciSource.file (.ok apWifiDump)).dump
      let db' ← (UciSource.file (.ok apWifiDump)).load
      return decide (listedMembers id ⟨db, es⟩ ⟨db', es'⟩ "d1".toList "lan".toList =
          ["eth1".toList, "wlan0".toList] ∧
        (wholeNet ⟨db, es⟩ "d1".toList "ports".toList).length < UCI_VAL_SZ ∧
        (portWords id ⟨db, es⟩ "d1".toList).all (fun w => w.length < IFNAMSIZ) ∧
        es'.all fun e => e.val.length < IFNAMSIZ)) = Except.ok true := by decide +kernel
  simp only [hn.1, hn.2, hw.1, hw.2, ok_bind, pure_eq_ok, Except.ok.injEq, decide_eq_true_eq]
    at hvalues
  obtain ⟨hlist, hlen, hports, hshort⟩ := hvalues
  have hval : ∀ {sect opt v : CStr}, wifi.whole "wireless".toList sect opt = some v →
      v.length < IFNAMSIZ := by
    intro sect opt v hv
    obtain ⟨e, he, rfl⟩ := DumpData.exists_of_whole hv
    exact of_decide_eq_true (List.all_eq_true.mp hshort e he)
  have hexact := membersExact_iff net wifi "d1".toList "lan".toList "br-lan".toList "dhcp".toList
    (fun w hmem => of_decide_eq_true (List.all_eq_true.mp hports w hmem)) fun sect v hv => hval hv
  exact ⟨net, wifi, hn, hw, hlist,
    hexact.2 hlen fun sect v hv => (hval hv).trans (by decide)⟩

/-- Seventeen ports with names of 15 bytes. -/
def switchPorts : List CStr := (List.range 17).map fun i => "switch0-port-".toList ++ dec (i + 10)

/-- A bridge with an uplink and these ports. -/
def switchDump : CStr :=
  onePortDump ++ "network.d1.ports='eth0 ".toList ++ List.intercalate [' '] switchPorts ++
    "'\n".toList

/-- The list of ports is cut inside a name, and the last port is lost. -/
theorem switchDump_cut :
    switchPorts.Nodup ∧ (switchPorts.all fun w => w.length < IFNAMSIZ) ∧
      (uciBuildDesiredSet (.file (.ok switchDump)) (.file (.ok []))).map (fun set =>
        set.val.map fun ds => (ds.upIfname.val, ds.portNames)) =
          .ok [("eth0".toList, switchPorts.take 15 ++ ["switch0-po".toList])] := by
  decide +kernel

end Netrec
