import Netrec.Uci.Members
import Netrec.Uci.Order
import Netrec.Yaml.Fields

/-!
# Values that are cut on the way from UCI

A value of a dump is cut in several places: at 255 bytes when it is stored, and again at the size of
the field it ends up in. Words of lists are cut or refused, depending on the list. The strings that
a state should have are those that whole values give; the state that is built has them exactly when
all of them fit and the first 255 bytes of `ports` and `dns` have all the words of these lists.

## Main definitions

* `wholeStrings`: the strings that the whole values of a dump give a bridge
* `Strings.Agree`: the same strings, with ports and name servers in any order
* `Kept`: nothing is lost

## Main results

* `agree_iff_kept`: the strings of a built state agree with the whole values when nothing is lost
* `built_agree_iff`: the same for all states of a set
-/

namespace Netrec

open CLib

/-! ## Whole values -/

section Whole

variable (net wifi : DumpData)

/-- The whole value of an option of the network dump; empty when it is not given. -/
def wholeNet (sect opt : CStr) : CStr := (net.whole "network".toList sect opt).getD []

/-- The interface section of a bridge device. -/
def bridgeIface (dev : CStr) : CStr :=
  ((netGet net.db dev "name".toList).bind (findIfaceByDevice net.db)).getD []

/-- The whole names of the wireless interfaces of a network. -/
def wifiNames (ifSect : CStr) : List CStr :=
  wifi.entries.filterMap fun e =>
    if wifiMember wifi.db ifSect e.item then wifi.whole "wireless".toList e.sect "ifname".toList
    else none

/-- The address of a static interface, with the length of its netmask. -/
def wholeAddr (ifSect : CStr) : CStr :=
  wholeNet net ifSect "ipaddr".toList ++ '/' ::
    dec ((maskToPrefix (wholeNet net ifSect "netmask".toList)).toOption.getD 0)

/-- The name of the WireGuard interface that `find_wg_for_remote` finds. -/
def wholeWg (remote : CStr) : CStr :=
  match net.entries.find? fun e => isWgPeerFor net.db remote e.item with
  | some e => e.val.drop 10
  | none =>
    match net.entries.filter fun e => isWgIface net.db e.item with
    | [e] => e.sect
    | _ => []

/-- The device a bridge is built on: the first word of `ports`. -/
def wholeFirst (dev : CStr) : CStr := (words (wholeNet net dev "ports".toList)).headD []

/-- The members of a bridge: the other words and the wireless names. -/
def wholePorts (dev : CStr) : List CStr :=
  members (wholeFirst net dev) ((words (wholeNet net dev "ports".toList)).tail ++
    wifiNames wifi (bridgeIface net dev))

/-- The strings of a bridge whose interface is static. -/
def staticStrings (dev : CStr) : Strings :=
  { (uplinkBase []).strings with
    brName := wholeNet net dev "name".toList
    brAddr := wholeAddr net (bridgeIface net dev)
    brGateway := wholeNet net (bridgeIface net dev) "gateway".toList
    brDns := words (wholeNet net (bridgeIface net dev) "dns".toList)
    brPorts := wholePorts net wifi dev
    upIfname := wholeFirst net dev }

/-- The strings of a bridge with a DHCP client. -/
def dhcpStrings (dev : CStr) : Strings :=
  { (dhcpBase []).strings with
    brName := wholeNet net dev "name".toList
    brPorts := wholePorts net wifi dev
    upIfname := wholeFirst net dev }

/-- The strings of a bridge with a VXLAN over WireGuard. -/
def tunnelStrings (dev : CStr) : Strings :=
  let peeraddr := wholeNet net (wholeFirst net dev) "peeraddr".toList
  let wgIfname := wholeWg net (peeraddr.take (UCI_VAL_SZ - 1))
  { (wgVxlanBase [] [] .empty 0 .empty).strings with
    brName := wholeNet net dev "name".toList
    brPorts := wholePorts net wifi dev
    wgIfname
    wgPeerIp := peeraddr
    wgRouteDev := wgIfname
    vxIfname := wholeFirst net dev
    vxRemote := peeraddr
    vxBridge := wholeNet net dev "name".toList }

/-- The strings that the whole values of the dumps give a bridge device. -/
def wholeStrings (dev : CStr) : Strings :=
  let proto := wholeNet net (bridgeIface net dev) "proto".toList
  if proto = "static".toList then staticStrings net wifi dev
  else if proto = "dhcp".toList then dhcpStrings net wifi dev
  else tunnelStrings net wifi dev

/-- The first 255 bytes of a list have the words of the whole list, besides those in `names`. -/
def WordsKept (list : CStr) (names : List CStr) : Prop :=
  (∀ w ∈ words (list.take (UCI_VAL_SZ - 1)), w ∈ words list ∨ w ∈ names) ∧
    ∀ w ∈ words list, w ∈ words (list.take (UCI_VAL_SZ - 1)) ∨ w ∈ names

/-- Nothing of a bridge is lost: all strings fit their fields, and the first 255 bytes of the
options `ports` and `dns` have all their words, with the same word first in `ports`. -/
def Kept (dev : CStr) : Prop :=
  let ifSect := bridgeIface net dev
  let ports := wholeNet net dev "ports".toList
  (wholeStrings net wifi dev).Fits ∧
    (words (ports.take (UCI_VAL_SZ - 1))).head? = (words ports).head? ∧
    WordsKept ports (wifiNames wifi ifSect) ∧
    (wholeNet net ifSect "proto".toList = "static".toList →
      WordsKept (wholeNet net ifSect "dns".toList) [])

end Whole

/-- The same strings, with ports and name servers in any order. -/
def Strings.Agree (st st' : Strings) : Prop :=
  { st with brDns := [], brPorts := [] } = { st' with brDns := [], brPorts := [] } ∧
    (∀ w, w ∈ st.brDns ↔ w ∈ st'.brDns) ∧ ∀ w, w ∈ st.brPorts ↔ w ∈ st'.brPorts

/-! ## Agreement -/

theorem DesiredState.strings_fits (ds : DesiredState) : ds.strings.Fits where
  scenario := ds.scenario.length_lt
  brName := ds.brName.length_lt
  brAddr := ds.brAddr.length_lt
  brGateway := ds.brGateway.length_lt
  brDns := by
    intro s hs
    obtain ⟨b, -, rfl⟩ := List.mem_map.mp hs
    exact b.length_lt
  brDhcpCmd := ds.brDhcpCmd.length_lt
  brPorts := by
    intro s hs
    obtain ⟨b, -, rfl⟩ := List.mem_map.mp hs
    exact b.length_lt
  upIfname := ds.upIfname.length_lt
  vlanIfname := ds.vlanIfname.length_lt
  vlanLink := ds.vlanLink.length_lt
  vlanBridge := ds.vlanBridge.length_lt
  wgIfname := ds.wgIfname.length_lt
  wgPeerIp := ds.wgPeerIp.length_lt
  wgRouteDev := ds.wgRouteDev.length_lt
  vxIfname := ds.vxIfname.length_lt
  vxRemote := ds.vxRemote.length_lt
  vxDev := ds.vxDev.length_lt
  vxBridge := ds.vxBridge.length_lt
  routes := by
    intro rt hrt
    obtain ⟨r, -, rfl⟩ := List.mem_map.mp hrt
    exact ⟨r.dst.length_lt, r.dev.length_lt, r.via.length_lt⟩

theorem Strings.Agree.fits {st st' : Strings} (h : st.Agree st') (hfit : st.Fits) : st'.Fits := by
  obtain ⟨heq, hdns, hports⟩ := h
  have herased : Strings.Fits { st' with brDns := [], brPorts := [] } := by
    rw [← heq]
    exact { hfit with brDns := by simp, brPorts := by simp }
  exact { herased with
    brDns := fun w hw => hfit.brDns w ((hdns w).mpr hw)
    brPorts := fun w hw => hfit.brPorts w ((hports w).mpr hw) }

/-- A state whose ports and name servers come from lists that may have been cut, and whose other
strings are the whole ones, cut to their fields. -/
theorem agree_iff {stored whole : Strings} {first : CStr} {ws ws' names dns dns' : List CStr}
    (hfit : stored.Fits) (hfirst : first.length < IFNAMSIZ)
    (hrest : { stored with brDns := [], brPorts := [] } =
      { whole.cut with brDns := [], brPorts := [] })
    (hports : (∀ w ∈ names, w.length < IFNAMSIZ) → stored.brPorts = members first (ws' ++ names))
    (hwhole : whole.brPorts = members first (ws ++ names)) (hne : ∀ w ∈ ws', w ≠ [])
    (hne' : ∀ w ∈ ws, w ≠ []) (hdns : stored.brDns = dns'.map (List.take (INET_ADDRSTRLEN - 1)))
    (hwholeDns : whole.brDns = dns) (hpre : ∀ w ∈ dns', ∃ v ∈ dns, w <+: v) :
    stored.Agree whole ↔ whole.Fits ∧
      ((∀ w ∈ first :: ws', w ∈ first :: ws ∨ w ∈ names) ∧
        ∀ w ∈ first :: ws, w ∈ first :: ws' ∨ w ∈ names) ∧
      (∀ w ∈ dns', w ∈ dns) ∧ ∀ w ∈ dns, w ∈ dns' := by
  -- names that fit are added whole, and words of name servers that fit are copied whole
  have hnames : whole.Fits → ∀ w ∈ names, w.length < IFNAMSIZ := by
    intro hf w hw
    by_cases hskip : w = [] ∨ w = first
    · obtain rfl | rfl := hskip
      · decide
      · exact hfirst
    · rw [not_or] at hskip
      refine hf.brPorts w ?_
      rw [hwhole]
      exact mem_members_iff.mpr ⟨List.mem_append_right _ hw, hskip⟩
  have hcopied : whole.Fits → stored.brDns = dns' := by
    intro hf
    rw [hdns]
    refine (List.map_congr_left fun w hw => ?_).trans (List.map_id _)
    obtain ⟨v, hv, hwv⟩ := hpre w hw
    have hlen : v.length < INET_ADDRSTRLEN := hf.brDns v (hwholeDns ▸ hv)
    exact List.take_of_length_le (hwv.length_le.trans (Nat.le_sub_one_of_lt hlen))
  constructor
  · intro h
    have hf := h.fits hfit
    have hp := hports (hnames hf)
    obtain ⟨-, hd, hports'⟩ := h
    rw [hp, hwhole] at hports'
    rw [hcopied hf, hwholeDns] at hd
    refine ⟨hf, ⟨fun w hw => ?_, fun w hw => ?_⟩, fun w hw => (hd w).mp hw, fun w hw => (hd w).mpr hw⟩
    · obtain rfl | hw := List.mem_cons.mp hw
      · exact .inl List.mem_cons_self
      by_cases he : w = first
      · exact .inl (he ▸ List.mem_cons_self)
      obtain ⟨hmem, -⟩ := mem_members_iff.mp ((hports' w).mp
        (mem_members_iff.mpr ⟨List.mem_append_left _ hw, hne w hw, he⟩))
      exact (List.mem_append.mp hmem).imp_left (List.mem_cons_of_mem first)
    · obtain rfl | hw := List.mem_cons.mp hw
      · exact .inl List.mem_cons_self
      by_cases he : w = first
      · exact .inl (he ▸ List.mem_cons_self)
      obtain ⟨hmem, -⟩ := mem_members_iff.mp ((hports' w).mpr
        (mem_members_iff.mpr ⟨List.mem_append_left _ hw, hne' w hw, he⟩))
      exact (List.mem_append.mp hmem).imp_left (List.mem_cons_of_mem first)
  · rintro ⟨hf, ⟨h₁, h₂⟩, hd₁, hd₂⟩
    refine ⟨?_, fun w => ?_, fun w => ?_⟩
    · rw [hrest, Strings.cut_eq_self_iff.mpr hf]
    · rw [hcopied hf, hwholeDns]
      exact ⟨hd₁ w, hd₂ w⟩
    · rw [hports (hnames hf), hwhole, mem_members_iff, mem_members_iff]
      have key : ∀ {as bs : List CStr}, (∀ w ∈ first :: as, w ∈ first :: bs ∨ w ∈ names) →
          w ∈ as ++ names ∧ w ≠ [] ∧ w ≠ first → w ∈ bs ++ names ∧ w ≠ [] ∧ w ≠ first := by
        rintro as bs hsub ⟨hmem, hnil, he⟩
        refine ⟨List.mem_append.mpr ?_, hnil, he⟩
        obtain hw | hw := List.mem_append.mp hmem
        · exact (hsub w (List.mem_cons_of_mem first hw)).imp_left fun h =>
            (List.mem_cons.mp h).resolve_left he
        · exact .inr hw
      exact ⟨key h₁, key h₂⟩

/-! ## Stored values -/

section Stored

variable {net wifi : UciDump}

/-- A stored value is the first 255 bytes of the whole one. -/
theorem netGet_eq_some {sect opt v : CStr} (h : netGet net.db sect opt = some v) :
    v = (wholeNet net.toDumpData sect opt).take (UCI_VAL_SZ - 1) ∧
      '\x00' ∉ wholeNet net.toDumpData sect opt := by
  rw [netGet, net.get_eq, Option.map_eq_some_iff] at h
  obtain ⟨v', hv', rfl⟩ := h
  rw [wholeNet, hv', Option.getD_some]
  exact ⟨rfl, net.whole_nul_notMem hv'⟩

theorem netGet_eq_none {sect opt : CStr} (h : netGet net.db sect opt = none) :
    wholeNet net.toDumpData sect opt = [] := by
  rw [netGet, net.get_eq, Option.map_eq_none_iff] at h
  rw [wholeNet, h, Option.getD_none]

/-- A stored value that is shorter than its field is the whole value. -/
theorem wholeNet_of_short {sect opt v : CStr} (h : netGet net.db sect opt = some v)
    (hl : v.length < UCI_VAL_SZ - 1) : wholeNet net.toDumpData sect opt = v := by
  obtain ⟨rfl, -⟩ := netGet_eq_some h
  rw [List.length_take] at hl
  rw [List.take_of_length_le (by omega)]

/-- A value that is cut twice is cut once, to the smaller size. -/
theorem cpy_netGet {sect opt v : CStr} (h : netGet net.db sect opt = some v) {sz : Nat} [NeZero sz]
    (hsz : sz ≤ UCI_VAL_SZ) :
    (cpy sz v).val = (wholeNet net.toDumpData sect opt).take (sz - 1) := by
  obtain ⟨rfl, hn⟩ := netGet_eq_some h
  rw [cpy_eq_take fun hc => hn (List.mem_of_mem_take hc), List.take_take, Nat.min_eq_left (by omega)]

/-- The wireless names, as they are stored. -/
theorem wifiPorts_eq (ifSect : CStr) :
    wifi.db.val.filterMap (wifiPort wifi.db ifSect) =
      (wifiNames wifi.toDumpData ifSect).map fun v => v.take (UCI_VAL_SZ - 1) := by
  rw [wifi.db_eq, List.filterMap_map, wifiNames, List.map_filterMap]
  refine List.filterMap_congr fun e he => ?_
  rw [Function.comp_apply, wifiPort, (wifi.ok e he).item_sect]
  split_ifs
  · exact wifi.get_eq _ _ _
  · rfl

theorem nul_notMem_wifiNames {ifSect w : CStr} (hw : w ∈ wifiNames wifi.toDumpData ifSect) :
    '\x00' ∉ w := by
  obtain ⟨e, -, he⟩ := List.mem_filterMap.mp hw
  split_ifs at he
  exact wifi.whole_nul_notMem he

/-- The ports of a state that is built: those of the words that are stored and of the wireless
names, if these fit. -/
theorem portNames_of_addsMembers {ifSect first : CStr} {ws : List CStr}
    {base : IfName → DesiredState} {ds : DesiredState}
    (hbase : BuiltOn (base (cpy _ first)) first) (hempty : (base (cpy _ first)).portNames = [])
    (hlen : ∀ w ∈ first :: ws, w.length < IFNAMSIZ) (hnul : ∀ w ∈ ws, '\x00' ∉ w)
    (h : (ws ++ wifi.db.val.filterMap (wifiPort wifi.db ifSect)).foldlM addBridgePort
      (base (cpy _ first)) = .ok ds)
    (hnames : ∀ w ∈ wifiNames wifi.toDumpData ifSect, w.length < IFNAMSIZ) :
    ds.portNames = members first (ws ++ wifiNames wifi.toDumpData ifSect) := by
  have hcut : (wifiNames wifi.toDumpData ifSect).map (fun v => v.take (UCI_VAL_SZ - 1)) =
      wifiNames wifi.toDumpData ifSect := by
    refine (List.map_congr_left fun w hw => ?_).trans (List.map_id _)
    exact List.take_of_length_le ((hnames w hw).le.trans (by decide))
  rw [wifiPorts_eq, hcut] at h
  rw [foldlM_addBridgePort_names hbase ?_ ?_ h, hempty]
  · rfl
  · refine List.forall_mem_append.mpr ⟨hnul, fun w hw => nul_notMem_wifiNames hw⟩
  · exact List.forall_mem_append.mpr ⟨fun w hw => hlen w (List.mem_cons_of_mem first hw), hnames⟩

/-- The list of name servers, as it is stored. -/
theorem splitIpList_eq_ok {sect : CStr} {max : Nat} {t : Table max AddrStr}
    (h : splitIpList (netGet net.db sect "dns".toList) max = .ok t) :
    t.val.map CBuf.val = (words ((wholeNet net.toDumpData sect "dns".toList).take
      (UCI_VAL_SZ - 1))).map (List.take (INET_ADDRSTRLEN - 1)) := by
  cases hget : netGet net.db sect "dns".toList with
  | none =>
    rw [hget] at h
    rw [netGet_eq_none hget, ← Except.ok.inj h, List.take_nil, words_nil]
    rfl
  | some v =>
    obtain ⟨hv, hn⟩ := netGet_eq_some hget
    rw [hget, splitIpList, foldWords_eq] at h
    rw [← hv]
    have hnul : ∀ w ∈ words v, '\x00' ∉ w := fun w hw hc =>
      hn (List.mem_of_mem_take (hv ▸ mem_of_mem_words hw hc))
    -- every round appends its word
    have key : ∀ (ws : List CStr) (t₀ : Table max AddrStr), (∀ w ∈ ws, '\x00' ∉ w) →
        ws.foldlM (fun st w => if w.length + 1 > 32 then .error .E2BIG else addIp st w) t₀ = .ok t →
        t.val.map CBuf.val =
          t₀.val.map CBuf.val ++ ws.map (List.take (INET_ADDRSTRLEN - 1)) := by
      intro ws
      induction ws with
      | nil =>
        intro t₀ _ h
        rw [Except.ok.inj h, List.map_nil, List.append_nil]
      | cons w ws ih =>
        intro t₀ hws h
        rw [List.forall_mem_cons] at hws
        rw [List.foldlM_cons, bind_eq_ok] at h
        obtain ⟨t₁, h₁, h⟩ := h
        split_ifs at h₁
        unfold addIp at h₁
        split_ifs at h₁
        rw [ih t₁ hws.2 h, ← Except.ok.inj h₁]
        simp [cpy_eq_take hws.1]
    exact key (words v) .empty hnul h

theorem exists_word_of_take {list w : CStr} (hw : w ∈ words (list.take (UCI_VAL_SZ - 1))) :
    ∃ v ∈ words list, w <+: v := by
  obtain ⟨v, hv, hwv⟩ := @exists_word_append _ _ (list.drop (UCI_VAL_SZ - 1)) hw
  rw [List.take_append_drop] at hv
  exact ⟨v, hv, hwv⟩

/-- A state that is built on the first word of the stored list of ports. -/
theorem agree_iff_of_words {dev first dns : CStr} {ws : List CStr} {ds : DesiredState}
    {whole : Strings}
    (hwords : words ((wholeNet net.toDumpData dev "ports".toList).take (UCI_VAL_SZ - 1)) =
      first :: ws)
    (hlen : ∀ w ∈ first :: ws, w.length < IFNAMSIZ)
    (hfirst : ds.strings.Agree whole → first = wholeFirst net.toDumpData dev)
    (hrest : wholeFirst net.toDumpData dev = first →
      { ds.strings with brDns := [], brPorts := [] } =
        { whole.cut with brDns := [], brPorts := [] })
    (hports : (∀ w ∈ wifiNames wifi.toDumpData (bridgeIface net.toDumpData dev),
        w.length < IFNAMSIZ) →
      ds.portNames = members first (ws ++
        wifiNames wifi.toDumpData (bridgeIface net.toDumpData dev)))
    (hwhole : whole.brPorts = wholePorts net.toDumpData wifi.toDumpData dev)
    (hdns : ds.strings.brDns = (words (dns.take (UCI_VAL_SZ - 1))).map
      (List.take (INET_ADDRSTRLEN - 1)))
    (hwholeDns : whole.brDns = words dns) :
    ds.strings.Agree whole ↔ whole.Fits ∧
      (words ((wholeNet net.toDumpData dev "ports".toList).take (UCI_VAL_SZ - 1))).head? =
        (words (wholeNet net.toDumpData dev "ports".toList)).head? ∧
      WordsKept (wholeNet net.toDumpData dev "ports".toList)
        (wifiNames wifi.toDumpData (bridgeIface net.toDumpData dev)) ∧ WordsKept dns [] := by
  have hword : ∀ w ∈ first :: ws, w ≠ [] := fun w hw => (isWord_of_mem_words (hwords ▸ hw)).ne_nil
  -- in both directions the first word of the whole list is the one that is stored
  have hmain : ∀ ws₀, words (wholeNet net.toDumpData dev "ports".toList) = first :: ws₀ →
      (ds.strings.Agree whole ↔ whole.Fits ∧
        (words ((wholeNet net.toDumpData dev "ports".toList).take (UCI_VAL_SZ - 1))).head? =
          (words (wholeNet net.toDumpData dev "ports".toList)).head? ∧
        WordsKept (wholeNet net.toDumpData dev "ports".toList)
          (wifiNames wifi.toDumpData (bridgeIface net.toDumpData dev)) ∧ WordsKept dns []) := by
    intro ws₀ hws₀
    have hf : wholeFirst net.toDumpData dev = first := by rw [wholeFirst, hws₀]; rfl
    have hp : whole.brPorts = members first (ws₀ ++
        wifiNames wifi.toDumpData (bridgeIface net.toDumpData dev)) := by
      rw [hwhole, wholePorts, hf, hws₀, List.tail_cons]
    rw [agree_iff ds.strings_fits (hlen first List.mem_cons_self) (hrest hf) hports hp
      (fun w hw => hword w (List.mem_cons_of_mem first hw))
      (fun w hw => (isWord_of_mem_words (hws₀ ▸ List.mem_cons_of_mem first hw)).ne_nil) hdns
      hwholeDns fun w hw => exists_word_of_take hw]
    simp only [WordsKept, hwords, hws₀, List.head?_cons, true_and, List.not_mem_nil, or_false]
  constructor
  · intro h
    have hf := hfirst h
    cases hws₀ : words (wholeNet net.toDumpData dev "ports".toList) with
    | nil =>
      rw [wholeFirst, hws₀] at hf
      exact absurd hf (hword first List.mem_cons_self)
    | cons w ws₀ =>
      rw [wholeFirst, hws₀, List.headD_cons] at hf
      rw [← hws₀]
      exact (hmain ws₀ (hf ▸ hws₀)).mp h
  · intro h
    have hhead := h.2.1
    rw [hwords, List.head?_cons] at hhead
    obtain ⟨ws₀, hws₀⟩ := List.head?_eq_some_iff.mp hhead.symm
    exact (hmain ws₀ hws₀).mpr h

end Stored

/-! ## The three kinds of states -/

section Cases

variable {net wifi : UciDump} {dev ifSect brName : CStr} {ds : DesiredState}

/-- Text in front of other text may be cut first, when the result is shorter. -/
theorem take_take_append {n m : Nat} (h : n ≤ m) (a b : CStr) :
    (a.take m ++ b).take n = (a ++ b).take n := by
  rw [List.take_append, List.take_append, List.take_take, Nat.min_eq_left h, List.length_take]
  obtain hm | hm := Nat.le_total m a.length
  · rw [Nat.min_eq_left hm, Nat.sub_eq_zero_of_le h, Nat.sub_eq_zero_of_le (h.trans hm)]
  · rw [Nat.min_eq_right hm]

/-- The netmask that gives the length of the prefix was not cut. -/
theorem maskToPrefix_whole {mask : CStr} {plen : Nat}
    (hget : netGet net.db ifSect "netmask".toList = some mask)
    (h : maskToPrefix mask = .ok plen) :
    (maskToPrefix (wholeNet net.toDumpData ifSect "netmask".toList)).toOption.getD 0 = plen := by
  have hlen : mask.length ≤ 15 := by
    unfold maskToPrefix at h
    cases haddr : inetPton mask with
    | none => simp [haddr] at h
    | some a => exact inetPton_length haddr
  rw [wholeNet_of_short hget (hlen.trans_lt (by decide)), h]
  rfl

/-- What a static interface stores. -/
theorem fillBridgeStatic_strings {ds₁ : DesiredState}
    (h : fillBridgeStatic net.db ifSect (uplinkBase brName) = .ok ds₁) :
    ds₁.strings = { (uplinkBase brName).strings with
      brAddr := (wholeAddr net.toDumpData ifSect).take 31
      brGateway := (wholeNet net.toDumpData ifSect "gateway".toList).take (INET_ADDRSTRLEN - 1)
      brDns := (words ((wholeNet net.toDumpData ifSect "dns".toList).take
        (UCI_VAL_SZ - 1))).map (List.take (INET_ADDRSTRLEN - 1)) } := by
  unfold fillBridgeStatic at h
  split at h
  · rename_i ipaddr mask hip hmask
    simp only [bind_eq_ok, pure_eq_ok] at h
    obtain ⟨plen, hplen, dns, hdns, h⟩ := h
    have haddr : (cpy 32 (ipaddr ++ '/' :: dec plen)).val =
        (wholeAddr net.toDumpData ifSect).take 31 := by
      obtain ⟨rfl, hn⟩ := netGet_eq_some hip
      rw [wholeAddr, maskToPrefix_whole hmask hplen, ← take_take_append (by decide : 31 ≤ 255)]
      refine cpy_eq_take ?_
      simp only [List.mem_append, List.mem_cons, not_or]
      refine ⟨fun hc => hn (List.mem_of_mem_take hc), by decide, fun hc => ?_⟩
      exact absurd (isDigit_of_mem_dec hc) (by decide)
    have hgw : ((netGet net.db ifSect "gateway".toList).elim (uplinkBase brName).brGateway
        (cpy INET_ADDRSTRLEN)).val =
        (wholeNet net.toDumpData ifSect "gateway".toList).take (INET_ADDRSTRLEN - 1) := by
      cases hget : netGet net.db ifSect "gateway".toList with
      | none =>
        rw [netGet_eq_none hget]
        rfl
      | some gw => exact cpy_netGet hget (by decide)
    rw [← haddr, ← hgw, ← splitIpList_eq_ok hdns, ← Except.ok.inj h]
    rfl
  · cases h

/-- A state that is built on an uplink. -/
theorem uplink_agree_iff {ds₁ : DesiredState} {whole : Strings} {dns : CStr}
    (hif : bridgeIface net.toDumpData dev = ifSect)
    (h : AddsMembers net.db wifi.db dev ifSect (fun upIfname => { ds₁ with upIfname }) ds)
    (hvx : ds₁.vxIfname.val = []) (hempty : ds₁.portNames = [])
    (hrest : { ds₁.strings with upIfname := [], brDns := [], brPorts := [] } =
      { whole.cut with upIfname := [], brDns := [], brPorts := [] })
    (hdns : ds₁.strings.brDns = (words (dns.take (UCI_VAL_SZ - 1))).map
      (List.take (INET_ADDRSTRLEN - 1)))
    (hup : whole.upIfname = wholeFirst net.toDumpData dev)
    (hports : whole.brPorts = wholePorts net.toDumpData wifi.toDumpData dev)
    (hwholeDns : whole.brDns = words dns) :
    ds.strings.Agree whole ↔ whole.Fits ∧
      (words ((wholeNet net.toDumpData dev "ports".toList).take (UCI_VAL_SZ - 1))).head? =
        (words (wholeNet net.toDumpData dev "ports".toList)).head? ∧
      WordsKept (wholeNet net.toDumpData dev "ports".toList)
        (wifiNames wifi.toDumpData (bridgeIface net.toDumpData dev)) ∧ WordsKept dns [] := by
  obtain ⟨ports, first, ws, hget, hwords, hlen, hfold⟩ := h
  obtain ⟨rfl, hpn⟩ := netGet_eq_some hget
  have hnul : ∀ w ∈ first :: ws, '\x00' ∉ w := fun w hw hc =>
    hpn (List.mem_of_mem_take (mem_of_mem_words (hwords ▸ hw) hc))
  have hfirst := cpy_of_fits (hnul first List.mem_cons_self) (hlen first List.mem_cons_self)
  have hds : ds.strings = { ds₁.strings with
      upIfname := (cpy IFNAMSIZ first).val, brPorts := ds.portNames } := by
    obtain ⟨ps, rfl⟩ := foldlM_portsOnly hfold
    rfl
  rw [hfirst] at hds
  refine agree_iff_of_words hwords hlen (fun hA => ?_) (fun hf => ?_) ?_ hports ?_ hwholeDns
  · have := congrArg Strings.upIfname hA.1
    rw [hds] at this
    exact this.trans hup
  · have hcut : whole.cut.upIfname = first := by
      show whole.upIfname.take (IFNAMSIZ - 1) = first
      rw [hup, hf]
      exact List.take_of_length_le (Nat.le_sub_one_of_lt (hlen first List.mem_cons_self))
    have := congrArg (fun st : Strings => { st with upIfname := first }) hrest
    rw [hds, ← hcut]
    rw [← hcut] at this
    exact this
  · rw [hif]
    exact @portNames_of_addsMembers wifi ifSect first ws (fun upIfname => { ds₁ with upIfname }) ds
      (.inl ⟨hfirst, hvx⟩) hempty hlen (fun w hw => hnul w (List.mem_cons_of_mem first hw)) hfold
  · rw [hds]
    exact hdns

/-- An uplink in a static bridge. -/
theorem static_agree_iff (hif : bridgeIface net.toDumpData dev = ifSect)
    (hname : netGet net.db dev "name".toList = some brName) {ds₁ : DesiredState}
    (hfill : fillBridgeStatic net.db ifSect (uplinkBase brName) = .ok ds₁)
    (h : AddsMembers net.db wifi.db dev ifSect (fun upIfname => { ds₁ with upIfname }) ds) :
    ds.strings.Agree (staticStrings net.toDumpData wifi.toDumpData dev) ↔
      (staticStrings net.toDumpData wifi.toDumpData dev).Fits ∧
      (words ((wholeNet net.toDumpData dev "ports".toList).take (UCI_VAL_SZ - 1))).head? =
        (words (wholeNet net.toDumpData dev "ports".toList)).head? ∧
      WordsKept (wholeNet net.toDumpData dev "ports".toList)
        (wifiNames wifi.toDumpData (bridgeIface net.toDumpData dev)) ∧
      WordsKept (wholeNet net.toDumpData (bridgeIface net.toDumpData dev) "dns".toList) [] := by
  have hst := fillBridgeStatic_strings hfill
  have hbase : (uplinkBase brName).strings = { (uplinkBase []).strings with
      brName := (wholeNet net.toDumpData dev "name".toList).take (IFNAMSIZ - 1) } := by
    rw [← cpy_netGet hname (by decide : IFNAMSIZ ≤ UCI_VAL_SZ)]
    rfl
  rw [hbase, ← hif] at hst
  refine uplink_agree_iff hif h (congrArg Strings.vxIfname hst) (congrArg Strings.brPorts hst) ?_
    (congrArg Strings.brDns hst) rfl rfl rfl
  have hcut : (uplinkBase []).strings.cut = (uplinkBase []).strings :=
    Strings.cut_eq_self_iff.mpr (uplinkBase []).strings_fits
  rw [hst]
  nth_rewrite 1 [← hcut]
  rfl

/-- An uplink in a bridge with a DHCP client. -/
theorem dhcp_agree_iff (hif : bridgeIface net.toDumpData dev = ifSect)
    (hname : netGet net.db dev "name".toList = some brName)
    (h : AddsMembers net.db wifi.db dev ifSect (fun upIfname => { dhcpBase brName with upIfname })
      ds) :
    ds.strings.Agree (dhcpStrings net.toDumpData wifi.toDumpData dev) ↔
      (dhcpStrings net.toDumpData wifi.toDumpData dev).Fits ∧
      (words ((wholeNet net.toDumpData dev "ports".toList).take (UCI_VAL_SZ - 1))).head? =
        (words (wholeNet net.toDumpData dev "ports".toList)).head? ∧
      WordsKept (wholeNet net.toDumpData dev "ports".toList)
        (wifiNames wifi.toDumpData (bridgeIface net.toDumpData dev)) ∧ WordsKept [] [] := by
  have hbase : (dhcpBase brName).strings = { (dhcpBase []).strings with
      brName := (wholeNet net.toDumpData dev "name".toList).take (IFNAMSIZ - 1) } := by
    rw [← cpy_netGet hname (by decide : IFNAMSIZ ≤ UCI_VAL_SZ)]
    rfl
  refine uplink_agree_iff hif h rfl rfl ?_ ?_ rfl rfl ?_
  · have hcut : (dhcpBase []).strings.cut = (dhcpBase []).strings :=
      Strings.cut_eq_self_iff.mpr (dhcpBase []).strings_fits
    rw [hbase]
    nth_rewrite 1 [← hcut]
    rfl
  · rw [List.take_nil, words_nil]
    rfl
  · rw [words_nil]
    rfl

/-- The name of the WireGuard interface, as it is stored. -/
theorem findWgForRemote_eq_ok {remote : CStr} {wg : IfName}
    (h : findWgForRemote net.db remote = .ok wg) :
    wg.val = (wholeWg net.toDumpData remote).take (IFNAMSIZ - 1) := by
  rw [findWgForRemote, net.db_eq, List.find?_map, List.filter_map] at h
  unfold wholeWg
  cases hfind : net.entries.find? fun e => isWgPeerFor net.db remote e.item with
  | some e =>
    have hok := net.ok e (List.mem_of_find?_eq_some hfind)
    simp only [Function.comp_def, hfind, Option.map_some] at h
    rw [← Except.ok.inj h, hok.item_val, List.drop_take, cpy_eq_take, List.take_take]
    · rfl
    · exact fun hc => hok.val (List.mem_of_mem_drop (List.mem_of_mem_take hc))
  | none =>
    simp only [Function.comp_def, hfind, Option.map_none] at h
    match hfilter : net.entries.filter fun e => isWgIface net.db e.item with
    | [] => simp [hfilter] at h
    | [e] =>
      have hmem : e ∈ net.entries :=
        (List.mem_filter.mp (hfilter ▸ List.mem_singleton_self e)).1
      have hok := net.ok e hmem
      simp only [hfilter, List.map_cons, List.map_nil] at h
      rw [← Except.ok.inj h, hok.item_sect, cpy_eq_take hok.sect]
      simp only [hfilter]
    | e :: e' :: es => simp [hfilter] at h

theorem vxlanSection_eq_ok {sect peeraddr : CStr} {vni : UInt32}
    (h : vxlanSection net.db sect = .ok (vni, peeraddr)) :
    netGet net.db sect "peeraddr".toList = some peeraddr := by
  unfold vxlanSection at h
  split_ifs at h
  split at h
  · rename_i vid peer hvid hpeer
    simp only [bind_eq_ok, pure_eq_ok] at h
    obtain ⟨v, -, h⟩ := h
    rw [hpeer, (Prod.mk.inj (Except.ok.inj h)).2]
  · cases h

/-- A VXLAN over WireGuard. -/
theorem tunnel_agree_iff (hif : bridgeIface net.toDumpData dev = ifSect)
    (hname : netGet net.db dev "name".toList = some brName)
    (h : buildWgVxlanBridge net.db wifi.db dev ifSect brName = .ok ds) :
    ds.strings.Agree (tunnelStrings net.toDumpData wifi.toDumpData dev) ↔
      (tunnelStrings net.toDumpData wifi.toDumpData dev).Fits ∧
      (words ((wholeNet net.toDumpData dev "ports".toList).take (UCI_VAL_SZ - 1))).head? =
        (words (wholeNet net.toDumpData dev "ports".toList)).head? ∧
      WordsKept (wholeNet net.toDumpData dev "ports".toList)
        (wifiNames wifi.toDumpData (bridgeIface net.toDumpData dev)) ∧ WordsKept [] [] := by
  obtain ⟨vx, hvx, vni, peer, wg, hvxs, hwg, ports, first, ws, hget, hwords, hlen, hfold⟩ :=
    buildWgVxlanBridge_eq_ok_iff.mp h
  obtain ⟨rfl, hpn⟩ := netGet_eq_some hget
  have hnul : ∀ w ∈ first :: ws, '\x00' ∉ w := fun w hw hc =>
    hpn (List.mem_of_mem_take (mem_of_mem_words (hwords ▸ hw) hc))
  have hfirst := cpy_of_fits (hnul first List.mem_cons_self) (hlen first List.mem_cons_self)
  have hvx' : vx.val = first := by
    have hl := hlen first List.mem_cons_self
    rw [hget, firstDevicePort_eq, hwords] at hvx
    simp only [Nat.not_lt.mpr hl, if_false, Except.ok.injEq] at hvx
    rw [← hvx, hfirst]
  have hpeer := vxlanSection_eq_ok hvxs
  rw [hvx'] at hpeer
  have hds : ds.strings = { (wgVxlanBase [] [] .empty 0 .empty).strings with
      brName := (cpy IFNAMSIZ brName).val
      brPorts := ds.portNames
      wgIfname := (cpy IFNAMSIZ wg.val).val
      wgPeerIp := (cpy INET_ADDRSTRLEN peer).val
      wgRouteDev := (cpy IFNAMSIZ wg.val).val
      vxIfname := (cpy IFNAMSIZ first).val
      vxRemote := (cpy INET_ADDRSTRLEN peer).val
      vxBridge := (cpy IFNAMSIZ brName).val } := by
    obtain ⟨ps, rfl⟩ := foldlM_portsOnly hfold
    rfl
  refine agree_iff_of_words hwords hlen (fun hA => ?_) (fun hf => ?_) ?_ rfl ?_ ?_
  · have := congrArg Strings.vxIfname hA.1
    rw [hds] at this
    exact hfirst.symm.trans this
  · subst hf
    have hcut : (wgVxlanBase [] [] .empty 0 .empty).strings.cut =
        (wgVxlanBase [] [] .empty 0 .empty).strings :=
      Strings.cut_eq_self_iff.mpr (wgVxlanBase [] [] .empty 0 .empty).strings_fits
    have hwg' := findWgForRemote_eq_ok hwg
    rw [(netGet_eq_some hpeer).1] at hwg'
    rw [hds, cpy_val, hwg', cpy_netGet hname (by decide), cpy_netGet hpeer (by decide),
      cpy_eq_take (hnul _ List.mem_cons_self)]
    nth_rewrite 1 [← hcut]
    rfl
  · rw [hif]
    exact @portNames_of_addsMembers wifi ifSect first ws (wgVxlanBase brName peer wg vni) ds
      (.inr ⟨hfirst, rfl⟩) rfl hlen (fun w hw => hnul w (List.mem_cons_of_mem first hw)) hfold
  · rw [hds, List.take_nil, words_nil]
    rfl
  · rw [words_nil]
    rfl

/-- **What is built agrees with the whole values exactly when nothing is lost.** -/
theorem agree_iff_kept {proto : CStr} (hname : netGet net.db dev "name".toList = some brName)
    (hiface : findIfaceByDevice net.db brName = some ifSect)
    (hproto : netGet net.db ifSect "proto".toList = some proto)
    (hkind : proto = "static".toList ∨ proto = "dhcp".toList ∨ proto = "none".toList)
    (h : buildState net.db wifi.db dev ifSect brName proto = .ok ds) :
    ds.strings.Agree (wholeStrings net.toDumpData wifi.toDumpData dev) ↔
      Kept net.toDumpData wifi.toDumpData dev := by
  have hif : bridgeIface net.toDumpData dev = ifSect := by
    rw [bridgeIface, hname, Option.bind_some, hiface, Option.getD_some]
  have hshort : proto.length < UCI_VAL_SZ - 1 := by
    obtain rfl | rfl | rfl := hkind <;> decide
  have hwhole := wholeNet_of_short hproto hshort
  have hempty : WordsKept [] [] := by
    unfold WordsKept
    rw [List.take_nil, words_nil]
    simp
  unfold buildState at h
  unfold Kept wholeStrings
  simp only [hif, hwhole]
  obtain rfl | rfl | rfl := hkind
  · rw [if_pos (.inl rfl), buildUplinkBridge_eq_ok_iff] at h
    obtain ⟨ds₁, hfill, h⟩ := h
    have hfill' : fillBridgeStatic net.db ifSect (uplinkBase brName) = .ok ds₁ := by
      simpa only [fillBridgeProto, hproto, if_true] using hfill
    have := static_agree_iff hif hname hfill' h
    rw [hif] at this
    simpa only [if_true, true_implies] using this
  · rw [if_pos (.inr rfl), buildUplinkBridge_eq_ok_iff] at h
    obtain ⟨ds₁, hfill, h⟩ := h
    have hne : "dhcp".toList ≠ "static".toList := by decide
    have hds₁ : dhcpBase brName = ds₁ := by
      simp only [fillBridgeProto, hproto, hne, if_false, if_true] at hfill
      exact Except.ok.inj hfill
    subst hds₁
    have := dhcp_agree_iff hif hname h
    rw [hif] at this
    simpa only [hne, if_false, if_true, false_implies, hempty, and_true] using this
  · have hne : "none".toList ≠ "static".toList := by decide
    have hne' : "none".toList ≠ "dhcp".toList := by decide
    rw [if_neg (not_or.mpr ⟨hne, hne'⟩)] at h
    have := tunnel_agree_iff hif hname h
    rw [hif] at this
    simpa only [hne, hne', if_false, false_implies, hempty, and_true] using this

end Cases

/-! ## All bridges of a dump -/

/-- The section type of a bridge device. -/
def isBridge (net : UciDb) (it : UciItem) : Bool :=
  it.isSect "network".toList "device".toList &&
    netGet net it.sect "type".toList = some "bridge".toList

/-- The bridge devices of a dump. -/
def bridges (net : DumpData) : List UciEntry := net.entries.filter fun e => isBridge net.db e.item

/-- The loop of `uci_build_desired_set` reaches `buildState` for a device, and this gives `ds`. -/
def BuiltFrom (net wifi : UciDb) (dev : CStr) (ds : DesiredState) : Prop :=
  ∃ brName ifSect proto, netGet net dev "name".toList = some brName ∧
    findIfaceByDevice net brName = some ifSect ∧ netGet net ifSect "proto".toList = some proto ∧
    (proto = "static".toList ∨ proto = "dhcp".toList ∨ proto = "none".toList) ∧
    buildState net wifi dev ifSect brName proto = .ok ds

theorem buildRound_eq_ok {net wifi : UciDb} {set set' : DesiredSet} {it : UciItem}
    (h : buildRound net wifi set it = .ok set') :
    (isBridge net it = false ∧ set'.val = set.val) ∨
      (isBridge net it = true ∧ ∃ ds, BuiltFrom net wifi it.sect ds ∧ set'.val = set.val ++ [ds]) := by
  unfold buildRound at h
  unfold isBridge
  cases hsect : it.isSect "network".toList "device".toList with
  | false =>
    rw [hsect] at h
    exact .inl ⟨rfl, by rw [← Except.ok.inj h]⟩
  | true =>
    rw [hsect] at h
    by_cases htype : netGet net it.sect "type".toList = some "bridge".toList
    · -- a bridge: every look-up has to succeed
      refine .inr ⟨decide_eq_true htype, ?_⟩
      simp only [Bool.not_true, Bool.false_eq_true, if_false, htype, ne_eq, not_true] at h
      split at h
      · cases h
      · rename_i brName hname
        split_ifs at h
        split at h
        · cases h
        · rename_i ifSect hif
          split at h
          · cases h
          · rename_i proto hproto
            split_ifs at h with hkind
            obtain ⟨ds, hds, hset⟩ := addState_eq_ok h
            have hkind' : proto = "static".toList ∨ proto = "dhcp".toList ∨
                proto = "none".toList := by tauto
            exact ⟨ds, ⟨brName, ifSect, proto, hname, hif, hproto, hkind', hds⟩, hset⟩
    · refine .inl ⟨decide_eq_false htype, ?_⟩
      simp only [Bool.not_true, Bool.false_eq_true, if_false, ne_eq, htype, not_false_eq_true,
        if_true] at h
      rw [← Except.ok.inj h]

/-- **Every bridge device gives one state, in the order of the dump.** -/
theorem foldlM_buildRound {net wifi : UciDb} {its : List UciItem} {set set' : DesiredSet}
    (h : its.foldlM (buildRound net wifi) set = .ok set') :
    ∃ dss, set'.val = set.val ++ dss ∧
      List.Forall₂ (fun it ds => BuiltFrom net wifi it.sect ds) (its.filter (isBridge net)) dss := by
  induction its generalizing set with
  | nil => exact ⟨[], by rw [← Except.ok.inj h, List.append_nil], .nil⟩
  | cons it its ih =>
    rw [List.foldlM_cons, bind_eq_ok] at h
    obtain ⟨set₁, hround, h⟩ := h
    obtain ⟨dss, hset, hall⟩ := ih h
    obtain ⟨hb, hset₁⟩ | ⟨hb, ds, hds, hset₁⟩ := buildRound_eq_ok hround
    · rw [List.filter_cons_of_neg (by simp [hb])]
      exact ⟨dss, by rw [hset, hset₁], hall⟩
    · rw [List.filter_cons_of_pos hb]
      exact ⟨ds :: dss, by simp [hset, hset₁], .cons hds hall⟩

/-- **The states of a set agree with the whole values exactly when nothing is lost.** -/
theorem built_agree_iff {network wireless : UciSource} {set : DesiredSet}
    (h : uciBuildDesiredSet network wireless = .ok set) :
    ∃ net wifi : UciDump, network.Gives net ∧ wireless.Gives wifi ∧
      (List.Forall₂ (fun e ds =>
          ds.strings.Agree (wholeStrings net.toDumpData wifi.toDumpData e.sect))
          (bridges net.toDumpData) set.val ↔
        ∀ e ∈ bridges net.toDumpData, Kept net.toDumpData wifi.toDumpData e.sect) := by
  simp only [uciBuildDesiredSet, bind_eq_ok] at h
  obtain ⟨netDb, hnet, wifiDb, hwifi, set', hset, -, -, h⟩ := h
  obtain rfl := Except.ok.inj h
  obtain ⟨net, hgn, rfl⟩ := exists_gives hnet
  obtain ⟨wifi, hgw, rfl⟩ := exists_gives hwifi
  obtain ⟨dss, hval, hall⟩ := foldlM_buildRound hset
  refine ⟨net, wifi, hgn, hgw, ?_⟩
  rw [net.db_eq, List.filter_map, List.forall₂_map_left_iff] at hall
  rw [hval]
  refine forall₂_iff_of_left hall fun e ds he hds => ?_
  obtain ⟨brName, ifSect, proto, hname, hif, hproto, hkind, hds⟩ := hds
  have hsect := (net.ok e (List.mem_filter.mp he).1).item_sect
  rw [hsect] at hname hds
  exact agree_iff_kept hname hif hproto hkind hds

instance (list : CStr) (names : List CStr) : Decidable (WordsKept list names) :=
  inferInstanceAs (Decidable (_ ∧ _))

instance (net wifi : DumpData) (dev : CStr) : Decidable (Kept net wifi dev) :=
  inferInstanceAs (Decidable (_ ∧ _ ∧ _ ∧ (_ → _)))

theorem dhcpDump_agrees : ∃ set,
    uciBuildDesiredSet (.file (.ok dhcpDump)) (.file (.ok [])) = .ok set ∧
    ∃ net wifi : UciDump, (UciSource.file (.ok dhcpDump)).Gives net ∧
      (UciSource.file (.ok [])).Gives wifi ∧
      List.Forall₂ (fun e ds =>
        ds.strings.Agree (wholeStrings net.toDumpData wifi.toDumpData e.sect))
        (bridges net.toDumpData) set.val := by
  obtain ⟨set, hset⟩ : ∃ set,
      uciBuildDesiredSet (.file (.ok dhcpDump)) (.file (.ok [])) = .ok set :=
    exists_eq_ok (by decide +kernel)
  obtain ⟨net, wifi, hn, hw, hiff⟩ := built_agree_iff hset
  have hkept : (do
      let es ← (UciSource.file (.ok dhcpDump)).dump
      let db ← (UciSource.file (.ok dhcpDump)).load
      let es' ← (UciSource.file (.ok [])).dump
      let db' ← (UciSource.file (.ok [])).load
      return decide (∀ e ∈ bridges ⟨db, es⟩, Kept ⟨db, es⟩ ⟨db', es'⟩ e.sect)) =
        Except.ok true := by decide +kernel
  simp only [hn.1, hn.2, hw.1, hw.2, ok_bind, pure_eq_ok, Except.ok.injEq, decide_eq_true_eq]
    at hkept
  exact ⟨set, hset, net, wifi, hn, hw, hiff.mpr hkept⟩

/-- A bridge whose name has sixteen bytes. -/
def longNameDump : CStr := unlines [
  "network.lan=interface", "network.lan.device='br-guest-network'", "network.lan.proto='dhcp'",
  "network.d1=device", "network.d1.type='bridge'", "network.d1.name='br-guest-network'",
  "network.d1.ports='eth0'"]

theorem longNameDump_cut :
    (uciBuildDesiredSet (.file (.ok longNameDump)) (.file (.ok []))).map (fun set =>
      set.val.map fun ds => ds.brName.val) = .ok ["br-guest-networ".toList] := by
  decide +kernel

end Netrec
