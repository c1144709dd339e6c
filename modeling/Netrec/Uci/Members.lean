import Netrec.Uci.Entries

/-!
# The members of a bridge

The first word of the option `ports` names the device a bridge is built on: its uplink, or the
VXLAN. The other words and the wireless interfaces of the network become members, each once. Words
are separated by blanks and nothing else: of the quotes that `uci show` prints around the items of
a list only the outermost two are removed, so a list is decoded when it has one item.

## Main definitions

* `addMember`, `members`: the members that a list of names gives
* `wifiPort`: the name a wireless interface adds
* `listLine`: the line of a list option

## Main results

* `addDevicePorts_eq_ok_iff`, `addWirelessPorts_eq`: the members as folds over lists of names
* `foldlM_addBridgePort_names`: the names that end up as ports
* `listPorts_iff`: the lists that are decoded
-/

namespace Netrec

open CLib

/-! ## Members -/

/-- What `add_bridge_port` does to the list of ports of a bridge that is built on `first`. -/
def addMember (first : CStr) (ps : List CStr) (w : CStr) : List CStr :=
  if w = [] ∨ w = first ∨ w ∈ ps then ps else ps ++ [w]

/-- The members that a list of names gives a bridge that is built on `first`. -/
def members (first : CStr) (ws : List CStr) : List CStr := ws.foldl (addMember first) []

/-- The names of the ports of a state. -/
def DesiredState.portNames (ds : DesiredState) : List CStr := ds.brPorts.val.map CBuf.val

/-- The bridge of a state is built on the device `first`, its uplink or its VXLAN. -/
def BuiltOn (ds : DesiredState) (first : CStr) : Prop :=
  (ds.upIfname.val = first ∧ ds.vxIfname.val = []) ∨ (ds.vxIfname.val = first ∧ ds.upIfname.val = [])

theorem mem_members_iff {first w : CStr} {ws : List CStr} :
    w ∈ members first ws ↔ w ∈ ws ∧ w ≠ [] ∧ w ≠ first := by
  have key : ∀ ws ps : List CStr, w ∈ ws.foldl (addMember first) ps ↔
      w ∈ ps ∨ (w ∈ ws ∧ w ≠ [] ∧ w ≠ first) := by
    intro ws
    induction ws with
    | nil => simp
    | cons v ws ih =>
      intro ps
      rw [List.foldl_cons, ih, addMember]
      split_ifs with hskip
      · simp only [List.mem_cons]
        constructor
        · rintro (h | ⟨hmem, hne⟩)
          · exact .inl h
          · exact .inr ⟨.inr hmem, hne⟩
        · rintro (h | ⟨rfl | hmem, hne⟩)
          · exact .inl h
          · exact .inl ((hskip.resolve_left hne.1).resolve_left hne.2)
          · exact .inr ⟨hmem, hne⟩
      · simp only [not_or] at hskip
        simp only [List.mem_append, List.mem_cons, List.not_mem_nil, or_false]
        constructor
        · rintro ((h | rfl) | ⟨hmem, hne⟩)
          · exact .inl h
          · exact .inr ⟨.inl rfl, hskip.1, hskip.2.1⟩
          · exact .inr ⟨.inr hmem, hne⟩
        · rintro (h | ⟨rfl | hmem, hne⟩)
          · exact .inl (.inl h)
          · exact .inl (.inr rfl)
          · exact .inr ⟨hmem, hne⟩
  rw [members, key]
  simp

/-- A name that is there already is not added again. -/
theorem addBridgePort_of_skip {ds : DesiredState} {first w : CStr} (hb : BuiltOn ds first)
    (hskip : w = [] ∨ w = first ∨ w ∈ ds.portNames) : addBridgePort ds w = .ok ds := by
  unfold addBridgePort
  by_cases hnil : w = []
  · rw [if_pos hnil]
  rw [if_neg hnil]
  obtain hfirst | hmem := hskip.resolve_left hnil
  · obtain ⟨hu, -⟩ | ⟨hv, -⟩ := hb
    · rw [if_pos ⟨hu ▸ hfirst ▸ hnil, hu.trans hfirst.symm⟩]
    · have hvx : ds.vxIfname.val ≠ [] ∧ ds.vxIfname.val = w :=
        ⟨hv ▸ hfirst ▸ hnil, hv.trans hfirst.symm⟩
      rw [if_pos hvx, ite_self]
  · have hany : ds.brPorts.val.any fun p => p.val = w := by
      simpa [DesiredState.portNames] using hmem
    rw [if_pos hany, ite_self, ite_self]

/-- A new name is added at the end, if there is room. -/
theorem addBridgePort_of_new {ds ds' : DesiredState} {first w : CStr} (hb : BuiltOn ds first)
    (hnew : ¬ (w = [] ∨ w = first ∨ w ∈ ds.portNames)) (h : addBridgePort ds w = .ok ds') :
    ds'.portNames = ds.portNames ++ [(cpy IFNAMSIZ w).val] := by
  simp only [not_or] at hnew
  obtain ⟨hnil, hfirst, hmem⟩ := hnew
  have hup : ¬ (ds.upIfname.val ≠ [] ∧ ds.upIfname.val = w) := by
    rintro ⟨hne, he⟩
    obtain ⟨hu, -⟩ | ⟨-, hu⟩ := hb
    · exact hfirst (he.symm.trans hu)
    · exact hne hu
  have hvx : ¬ (ds.vxIfname.val ≠ [] ∧ ds.vxIfname.val = w) := by
    rintro ⟨hne, he⟩
    obtain ⟨-, hv⟩ | ⟨hv, -⟩ := hb
    · exact hne hv
    · exact hfirst (he.symm.trans hv)
  have hany : ¬ ds.brPorts.val.any fun p => p.val = w := by
    simpa [DesiredState.portNames] using hmem
  unfold addBridgePort at h
  rw [if_neg hnil, if_neg hup, if_neg hvx, if_neg hany] at h
  split_ifs at h
  rw [← Except.ok.inj h]
  simp [DesiredState.portNames]

/-- A name that fits is added as a member. -/
theorem addBridgePort_names {ds ds' : DesiredState} {first w : CStr} (hb : BuiltOn ds first)
    (hn : '\x00' ∉ w) (hl : w.length < IFNAMSIZ) (h : addBridgePort ds w = .ok ds') :
    ds'.portNames = addMember first ds.portNames w := by
  unfold addMember
  split_ifs with hskip
  · rw [addBridgePort_of_skip hb hskip] at h
    rw [Except.ok.inj h]
  · rw [addBridgePort_of_new hb hskip h, cpy_of_fits hn hl]

theorem BuiltOn.portsOnly {ds ds' : DesiredState} {first : CStr} (hb : BuiltOn ds first)
    (h : PortsOnly ds ds') : BuiltOn ds' first := by
  obtain ⟨ports, rfl⟩ := h
  exact hb

theorem foldlM_portsOnly {ds ds' : DesiredState} {ws : List CStr}
    (h : ws.foldlM addBridgePort ds = .ok ds') : PortsOnly ds ds' :=
  foldlM_invariant (fun _ _ _ _ hp hs => hp.trans (addBridgePort_portsOnly hs)) ⟨_, rfl⟩ h

/-- **The names that end up as ports.** -/
theorem foldlM_addBridgePort_names {ds ds' : DesiredState} {first : CStr} {ws : List CStr}
    (hb : BuiltOn ds first) (hn : ∀ w ∈ ws, '\x00' ∉ w) (hl : ∀ w ∈ ws, w.length < IFNAMSIZ)
    (h : ws.foldlM addBridgePort ds = .ok ds') :
    ds'.portNames = ws.foldl (addMember first) ds.portNames := by
  induction ws generalizing ds with
  | nil => rw [← Except.ok.inj h, List.foldl_nil]
  | cons w ws ih =>
    rw [List.foldlM_cons, bind_eq_ok] at h
    obtain ⟨ds₁, h₁, h⟩ := h
    rw [List.forall_mem_cons] at hn hl
    rw [List.foldl_cons, ← addBridgePort_names hb hn.1 hl.1 h₁]
    exact ih (hb.portsOnly (addBridgePort_portsOnly h₁)) hn.2 hl.2 h

/-! ## The two loops -/

/-- One round of the loop over `ports`. -/
def portRound (st : Bool × DesiredState) (w : CStr) : Except Errno (Bool × DesiredState) :=
  if w.length + 1 > IFNAMSIZ then .error .E2BIG else addDevicePort st w

/-- After the first word every word is added. -/
theorem foldlM_portRound {ws : List CStr} {ds : DesiredState} {st : Bool × DesiredState} :
    ws.foldlM portRound (false, ds) = .ok st ↔
      (∀ w ∈ ws, w.length < IFNAMSIZ) ∧ st.1 = false ∧ ws.foldlM addBridgePort ds = .ok st.2 := by
  induction ws generalizing ds with
  | nil =>
    simp only [List.foldlM_nil, pure_eq_ok, Except.ok.injEq, List.not_mem_nil, false_implies,
      implies_true, true_and]
    exact ⟨fun h => h ▸ ⟨rfl, rfl⟩, fun h => Prod.ext h.1.symm h.2⟩
  | cons w ws ih =>
    rw [List.foldlM_cons, List.foldlM_cons, List.forall_mem_cons]
    by_cases hlen : w.length < IFNAMSIZ
    · have hround : portRound (false, ds) w =
          addBridgePort ds w >>= fun ds => .ok (false, ds) := if_neg (Nat.not_lt.mpr hlen)
      simp only [hround, bind_assoc, ok_bind, bind_eq_ok, ih, hlen, true_and]
      constructor
      · rintro ⟨ds₁, h₁, hl, hf, h⟩
        exact ⟨hl, hf, ds₁, h₁, h⟩
      · rintro ⟨hl, hf, ds₁, h₁, h⟩
        exact ⟨ds₁, h₁, hl, hf, h⟩
    · have hround : portRound (false, ds) w = .error .E2BIG := if_pos (Nat.lt_of_not_le hlen)
      simp [hround, hlen]

/-- **The loop over `ports` adds all words but the first, and all have to fit.** -/
theorem addDevicePorts_eq_ok_iff {ports : CStr} {ds ds' : DesiredState} :
    addDevicePorts (some ports) ds true = .ok ds' ↔
      (∀ w ∈ words ports, w.length < IFNAMSIZ) ∧
        (words ports).tail.foldlM addBridgePort ds = .ok ds' := by
  have hfold : addDevicePorts (some ports) ds true =
      (words ports).foldlM portRound (true, ds) >>= fun st => .ok st.2 := by
    simp only [addDevicePorts, foldWords_eq]
    rfl
  rw [hfold]
  cases words ports with
  | nil => simp
  | cons w ws =>
    rw [List.foldlM_cons, List.tail_cons, List.forall_mem_cons]
    by_cases hlen : w.length < IFNAMSIZ
    · have hround : portRound (true, ds) w = .ok (false, ds) := if_neg (Nat.not_lt.mpr hlen)
      simp only [hround, ok_bind, bind_eq_ok, foldlM_portRound, hlen, true_and, Except.ok.injEq]
      constructor
      · rintro ⟨st, ⟨hl, -, h⟩, rfl⟩
        exact ⟨hl, h⟩
      · rintro ⟨hl, h⟩
        exact ⟨(false, ds'), ⟨hl, rfl, h⟩, rfl⟩
    · have hround : portRound (true, ds) w = .error .E2BIG := if_pos (Nat.lt_of_not_le hlen)
      simp [hround, hlen]

/-- Whether an item is a wireless interface of the network that is not disabled. -/
def wifiMember (wifi : UciDb) (netName : CStr) (it : UciItem) : Bool :=
  it.isSect "wireless".toList "wifi-iface".toList &&
    !(dbGet wifi "wireless".toList it.sect "disabled".toList).any (· ≠ "0".toList) &&
    (dbGet wifi "wireless".toList it.sect "network".toList).any (valueHasToken · netName)

/-- The name that an item of the wireless dump adds. -/
def wifiPort (wifi : UciDb) (netName : CStr) (it : UciItem) : Option CStr :=
  if wifiMember wifi netName it then dbGet wifi "wireless".toList it.sect "ifname".toList else none

/-- **The loop over the wireless dump adds the names of the interfaces.** -/
theorem addWirelessPorts_eq (wifi : UciDb) (netName : CStr) (ds : DesiredState) :
    addWirelessPorts wifi netName ds =
      (wifi.val.filterMap (wifiPort wifi netName)).foldlM addBridgePort ds := by
  have hbody : ∀ ds it, addWirelessPort wifi netName ds it =
      (wifiPort wifi netName it).elim (.ok ds) (addBridgePort ds) := by
    intro ds it
    simp only [addWirelessPort]
    by_cases hm : wifiMember wifi netName it
    · rw [wifiPort, if_pos hm]
      simp only [wifiMember, Bool.and_eq_true, Bool.not_eq_true'] at hm
      obtain ⟨⟨hsect, hon⟩, hnet⟩ := hm
      cases dbGet wifi "wireless".toList it.sect "ifname".toList <;>
        simp only [hsect, hon, hnet, Bool.not_true, Bool.false_eq_true, if_false, Option.elim_none,
          Option.elim_some]
    · rw [wifiPort, if_neg hm]
      -- the item is left out by one of the three tests
      split_ifs with hsect hon hnet
      · rfl
      · rfl
      · rfl
      · refine absurd ?_ hm
        simp only [wifiMember, Bool.and_eq_true, Bool.not_eq_true']
        simp only [Bool.not_eq_true', Bool.not_eq_false, Bool.not_eq_true] at hsect hon hnet
        exact ⟨⟨hsect, hon⟩, hnet⟩
  unfold addWirelessPorts
  induction wifi.val generalizing ds with
  | nil => rfl
  | cons it its ih =>
    rw [List.foldlM_cons, hbody]
    cases hport : wifiPort wifi netName it with
    | none => rw [List.filterMap_cons_none hport, Option.elim_none, ok_bind, ih]
    | some ifname =>
      rw [List.filterMap_cons_some hport, List.foldlM_cons]
      exact bind_congr ih

/-! ## Building a state -/

section Build

variable {net wifi : UciDb} {devSect ifSect brName : CStr} {ds : DesiredState}

/-- The words of `ports` and the wireless names, added to a state that is built on the first
word. -/
def AddsMembers (net wifi : UciDb) (devSect ifSect : CStr) (base : IfName → DesiredState)
    (ds : DesiredState) : Prop :=
  ∃ ports first ws, netGet net devSect "ports".toList = some ports ∧ words ports = first :: ws ∧
    (∀ w ∈ first :: ws, w.length < IFNAMSIZ) ∧
    (ws ++ wifi.val.filterMap (wifiPort wifi ifSect)).foldlM addBridgePort (base (cpy _ first)) =
      .ok ds

theorem addsMembers_iff {base : IfName → DesiredState} {ports : Option CStr}
    (hports : netGet net devSect "ports".toList = ports) :
    (∃ first, firstDevicePort ports = .ok first ∧ ∃ ds₂,
      addDevicePorts ports (base first) true = .ok ds₂ ∧ addWirelessPorts wifi ifSect ds₂ = .ok ds) ↔
    AddsMembers net wifi devSect ifSect base ds := by
  unfold AddsMembers
  rw [hports]
  cases ports with
  | none => simp [firstDevicePort]
  | some ports =>
    simp only [firstDevicePort_eq, addDevicePorts_eq_ok_iff, addWirelessPorts_eq, List.foldlM_append,
      bind_eq_ok, Option.some.injEq, exists_and_left, exists_eq_left']
    cases hws : words ports with
    | nil => simp
    | cons w ws =>
      by_cases hlen : w.length + 1 > IFNAMSIZ
      · simp only [hlen, if_true, reduceCtorEq, false_and, exists_false, List.cons.injEq, false_iff]
        rintro ⟨_, _, ⟨rfl, rfl⟩, hl, -⟩
        exact absurd (hl w List.mem_cons_self) (by omega)
      · simp only [hlen, if_false, Except.ok.injEq, List.tail_cons, List.cons.injEq]
        constructor
        · rintro ⟨_, rfl, ds₂, ⟨hl, h₂⟩, h⟩
          exact ⟨w, ws, ⟨rfl, rfl⟩, hl, ds₂, h₂, h⟩
        · rintro ⟨_, _, ⟨rfl, rfl⟩, hl, ds₂, h₂, h⟩
          exact ⟨_, rfl, ds₂, ⟨hl, h₂⟩, h⟩

/-- The state that `build_uplink_bridge` starts from. -/
def uplinkBase (brName : CStr) : DesiredState :=
  { DesiredState.zero with scenario := cpy _ "uplink_bridge".toList, brName := cpy _ brName }

/-- The same with a DHCP client. -/
def dhcpBase (brName : CStr) : DesiredState :=
  { uplinkBase brName with
    brAddrMode := .dhcp, brDhcpCmd := cpy _ "udhcpc -i $iface -q -n".toList }

/-- **How an uplink in a bridge is built.** -/
theorem buildUplinkBridge_eq_ok_iff :
    buildUplinkBridge net wifi devSect ifSect brName = .ok ds ↔
      ∃ ds₁, fillBridgeProto net ifSect (uplinkBase brName) = .ok ds₁ ∧
        AddsMembers net wifi devSect ifSect (fun upIfname => { ds₁ with upIfname }) ds := by
  simp only [← addsMembers_iff rfl, buildUplinkBridge, bind_eq_ok]
  rfl

/-- The state that `build_wg_vxlan_bridge` adds members to. -/
def wgVxlanBase (brName peeraddr : CStr) (wgIfname : IfName) (vxVni : UInt32) (vxIfname : IfName) :
    DesiredState :=
  { DesiredState.zero with
    scenario := cpy _ "wg_vxlan_bridge".toList
    brName := cpy _ brName
    wgIfname := cpy _ wgIfname.val
    wgPeerIp := cpy _ peeraddr
    wgRouteDev := cpy _ wgIfname.val
    vxIfname
    vxVni
    vxRemote := cpy _ peeraddr
    vxBridge := cpy _ brName }

/-- **How a VXLAN over WireGuard is built.** -/
theorem buildWgVxlanBridge_eq_ok_iff :
    buildWgVxlanBridge net wifi devSect ifSect brName = .ok ds ↔
      ∃ vxIfname, firstDevicePort (netGet net devSect "ports".toList) = .ok vxIfname ∧
        ∃ vxVni peeraddr wgIfname, vxlanSection net vxIfname = .ok (vxVni, peeraddr) ∧
          findWgForRemote net peeraddr = .ok wgIfname ∧
          AddsMembers net wifi devSect ifSect (wgVxlanBase brName peeraddr wgIfname vxVni) ds := by
  simp only [← addsMembers_iff rfl, buildWgVxlanBridge, bind_eq_ok, Prod.exists]
  constructor
  · rintro ⟨vx, hvx, vni, peer, hvxs, wg, hwg, ds₂, h₂, h⟩
    exact ⟨vx, hvx, vni, peer, wg, hvxs, hwg, vx, hvx, ds₂, h₂, h⟩
  · rintro ⟨vx, hvx, vni, peer, wg, hvxs, hwg, vx', hvx', ds₂, h₂, h⟩
    obtain rfl := Except.ok.inj (hvx.symm.trans hvx')
    exact ⟨vx, hvx, vni, peer, hvxs, wg, hwg, ds₂, h₂, h⟩

end Build

/-! ## List options -/

/-- An item of a list option, in single quotes. -/
def quoted (w : CStr) : CStr := '\x27' :: w ++ ['\x27']

/-- The value of a list option as `uci show` prints it: the items in quotes, with a blank between
them. -/
def listValue (ws : List CStr) : CStr := List.intercalate [' '] (ws.map quoted)

/-- The line that gives the list option `ports` of a section. -/
def listLine (sect : CStr) (ws : List CStr) : CStr :=
  "network".toList ++ '.' :: (sect ++ '.' :: "ports".toList) ++ '=' :: listValue ws

/-- An item: one to 15 bytes, without blanks and quotes, and without the bytes that no line has. -/
structure IsItem (w : CStr) : Prop where
  ne_nil : w ≠ []
  length : w.length < IFNAMSIZ
  chars : ∀ c ∈ w, isBlank c = false ∧ c ≠ '\x27' ∧ c ≠ '\x00'

/-- The name of a section: without the bytes that end it, and it fits its field. -/
structure IsSectName (sect : CStr) : Prop where
  length : sect.length < UCI_SECT_SZ
  chars : ∀ c ∈ sect, c ≠ '.' ∧ c ≠ '=' ∧ c ≠ '\x00'

/-- A list value is a quote, the items with what stands between them, and a quote. -/
theorem listValue_cons (w : CStr) (ws : List CStr) : listValue (w :: ws) =
    '\x27' :: (w ++ ws.flatMap fun v => '\x27' :: ' ' :: '\x27' :: v) ++ ['\x27'] := by
  induction ws generalizing w with
  | nil => simp [listValue, quoted]
  | cons v ws ih =>
    have ih := ih v
    simp only [listValue, List.map_cons] at ih ⊢
    rw [List.intercalate_cons_cons, ih]
    simp [quoted]

/-- The value without the outermost quotes. -/
theorem stripQuotes_listValue (w : CStr) (ws : List CStr) :
    stripQuotes (listValue (w :: ws)) =
      w ++ ws.flatMap fun v => '\x27' :: ' ' :: '\x27' :: v := by
  rw [listValue_cons, stripQuotes, if_pos]
  · rw [List.cons_append, List.tail_cons, List.dropLast_concat]
  · exact ⟨by rw [List.length_append, List.length_cons]; simp, rfl, List.getLast?_concat⟩

/-- The first word of a list value still has a quote, unless there is only one item. -/
theorem words_stripQuotes_listValue {w : CStr} (hw : IsItem w) (ws : List CStr) :
    (ws = [] ∧ words (stripQuotes (listValue (w :: ws))) = [w]) ∨
      (ws ≠ [] ∧ ∃ vs, words (stripQuotes (listValue (w :: ws))) = (w ++ ['\x27']) :: vs) := by
  rw [stripQuotes_listValue]
  cases ws with
  | nil =>
    refine .inl ⟨rfl, ?_⟩
    rw [List.flatMap_nil, List.append_nil]
    exact (IsWord.mk hw.ne_nil fun c hc => (hw.chars c hc).1).words_eq
  | cons v ws =>
    refine .inr ⟨List.cons_ne_nil v ws, ?_⟩
    have hword : IsWord (w ++ ['\x27']) := by
      refine ⟨by simp, fun c hc => ?_⟩
      obtain hc | hc := List.mem_append.mp hc
      · exact (hw.chars c hc).1
      · rw [List.mem_singleton.mp hc]
        rfl
    refine ⟨words ('\x27' :: v ++ ws.flatMap fun v => '\x27' :: ' ' :: '\x27' :: v), ?_⟩
    rw [← hword.words_append _ (show isBlank ' ' from rfl)]
    simp

/-- What the line of an option stores. -/
theorem lineEntry_option {pkg sect opt rhs : CStr} (hpkg : ∀ c ∈ pkg, c ≠ '.' ∧ c ≠ '=')
    (hsect : ∀ c ∈ sect, c ≠ '.' ∧ c ≠ '=') (hopt : '=' ∉ opt) (hpl : pkg.length < UCI_PKG_SZ)
    (hsl : sect.length < UCI_SECT_SZ) (hol : opt.length < UCI_OPT_SZ)
    (htrim : trimEol (pkg ++ '.' :: (sect ++ '.' :: opt) ++ '=' :: rhs) =
      pkg ++ '.' :: (sect ++ '.' :: opt) ++ '=' :: rhs) :
    lineEntry (pkg ++ '.' :: (sect ++ '.' :: opt) ++ '=' :: rhs) =
      .ok (some ⟨pkg, sect, opt, stripQuotes (rhs.dropWhile isBlank), false⟩) := by
  have hkey : '=' ∉ pkg ++ '.' :: (sect ++ '.' :: opt) := by
    simp only [List.mem_append, List.mem_cons, not_or]
    exact ⟨fun hc => (hpkg _ hc).2 rfl, by decide, fun hc => (hsect _ hc).2 rfl, by decide, hopt⟩
  have hne : pkg ++ '.' :: (sect ++ '.' :: opt) ++ '=' :: rhs ≠ [] := by simp
  have hdot := splitAtChar_append (sect ++ '.' :: opt) fun hc => (hpkg _ hc).1 rfl
  have hdot2 := splitAtChar_append opt fun hc => (hsect _ hc).1 rfl
  simp only [lineEntry, htrim, hne, if_false, splitAtChar_append rhs hkey, hdot, hdot2]
  rw [if_neg (Nat.not_lt.mpr hpl), if_neg (Nat.not_lt.mpr hsl), if_neg (Nat.not_lt.mpr hol)]

/-- The entry of a list of ports. -/
def listEntry (sect : CStr) (ws : List CStr) : UciEntry :=
  ⟨"network".toList, sect, "ports".toList, stripQuotes (listValue ws), false⟩

theorem lineEntry_listLine {sect : CStr} (hs : IsSectName sect) (w : CStr) (ws : List CStr) :
    lineEntry (listLine sect (w :: ws)) = .ok (some (listEntry sect (w :: ws))) := by
  have htrim : trimEol (listLine sect (w :: ws)) = listLine sect (w :: ws) := by
    have hend : ∃ l, listLine sect (w :: ws) = l ++ ['\x27'] := by
      unfold listLine
      rw [listValue_cons]
      generalize "network".toList ++ '.' :: (sect ++ '.' :: "ports".toList) = key
      generalize (w ++ ws.flatMap fun v => '\x27' :: ' ' :: '\x27' :: v) = items
      exact ⟨key ++ '=' :: '\x27' :: items, by simp⟩
    obtain ⟨l, hl⟩ := hend
    rw [hl]
    exact trimEol_append_self (by decide) (by decide)
  have hquote : (listValue (w :: ws)).dropWhile isBlank = listValue (w :: ws) := by
    rw [listValue_cons]
    rfl
  have hpkg : ∀ c ∈ "network".toList, c ≠ '.' ∧ c ≠ '=' := fun c hc => by
    simpa using List.all_eq_true.mp
      (by decide : "network".toList.all (fun c => c ≠ '.' ∧ c ≠ '=')) c hc
  have hline := @lineEntry_option "network".toList sect "ports".toList (listValue (w :: ws))
    hpkg (fun c hc => ⟨(hs.chars c hc).1, (hs.chars c hc).2.1⟩) (by decide) (by decide)
    hs.length (by decide) htrim
  rw [hquote] at hline
  exact hline

section Lists

variable {db db' net wifi : UciDb} {sect ifSect brName proto w : CStr} {ws : List CStr}
  {later : List UciItem}

theorem listEntry_ok (hs : IsSectName sect) (hw : ∀ v ∈ w :: ws, IsItem v) :
    (listEntry sect (w :: ws)).Ok where
  fit := ⟨(by decide : "network".toList.length < 16), hs.length,
    (by decide : "ports".toList.length < 64)⟩
  pkg := (by decide : '\x00' ∉ "network".toList)
  sect := fun hc => (hs.chars _ hc).2.2 rfl
  opt := (by decide : '\x00' ∉ "ports".toList)
  val := by
    show '\x00' ∉ stripQuotes (listValue (w :: ws))
    rw [stripQuotes_listValue]
    simp only [List.mem_append, List.mem_flatMap, List.mem_cons, not_or, not_exists, not_and]
    refine ⟨fun hc => ((hw w List.mem_cons_self).chars _ hc).2.2 rfl, fun v hv => ?_⟩
    exact ⟨by decide, by decide, by decide,
      fun hc => ((hw v (List.mem_cons_of_mem w hv)).chars _ hc).2.2 rfl⟩

/-- The lookup of a list option that was loaded and not given again. -/
theorem netGet_listLine (hs : IsSectName sect) (hw : ∀ v ∈ w :: ws, IsItem v)
    (hval : (stripQuotes (listValue (w :: ws))).length < UCI_VAL_SZ)
    (hload : dbLoadLine db (listLine sect (w :: ws)) = .ok db') (hnet : net.val = db'.val ++ later)
    (hlater : ∀ it ∈ later, it.isOpt "network".toList sect "ports".toList = false) :
    netGet net sect "ports".toList = some (stripQuotes (listValue (w :: ws))) := by
  rw [dbLoadLine_eq_addEntry, lineEntry_listLine hs, ok_bind] at hload
  obtain ⟨-, hdb⟩ := addEntry_eq_ok_iff.mp hload
  have hok := listEntry_ok hs hw
  have hlen : (stripQuotes (listValue (w :: ws))).length ≤ UCI_VAL_SZ - 1 :=
    Nat.le_sub_one_of_lt hval
  have hopt : (listEntry sect (w :: ws)).item.isOpt "network".toList sect "ports".toList := by
    rw [hok.isOpt_item]
    unfold UciEntry.isOpt listEntry
    generalize "network".toList = pkg, "ports".toList = opt
    simp
  have hfind : net.val.reverse.find? (UciItem.isOpt "network".toList sect "ports".toList) =
      some (listEntry sect (w :: ws)).item := by
    have hnone : later.reverse.find? (UciItem.isOpt "network".toList sect "ports".toList) = none :=
      List.find?_eq_none.mpr fun it hit => by simpa using hlater it (List.mem_reverse.mp hit)
    rw [hnet, hdb, List.reverse_append, List.find?_append, hnone, Option.none_or,
      List.reverse_append]
    exact List.find?_cons_of_pos hopt
  rw [netGet, dbGet, hfind, Option.map_some, hok.item_val]
  exact congrArg some (List.take_of_length_le hlen)

/-- **The lists that are decoded.** A bridge is built from the items of its list of ports, with the
first as its uplink and the others as its members, exactly when there are no others. -/
theorem listPorts_iff {ds₁ : DesiredState} (hs : IsSectName sect) (hw : ∀ v ∈ w :: ws, IsItem v)
    (hval : (stripQuotes (listValue (w :: ws))).length < UCI_VAL_SZ)
    (hload : dbLoadLine db (listLine sect (w :: ws)) = .ok db') (hnet : net.val = db'.val ++ later)
    (hlater : ∀ it ∈ later, it.isOpt "network".toList sect "ports".toList = false)
    (hwifi : ∀ it ∈ wifi.val, it.isSect "wireless".toList "wifi-iface".toList = false)
    (hproto : proto = "static".toList ∨ proto = "dhcp".toList)
    (hfill : fillBridgeProto net ifSect (uplinkBase brName) = .ok ds₁) :
    (∃ ds, buildState net wifi sect ifSect brName proto = .ok ds ∧ ds.upIfname.val = w ∧
      ds.portNames = ws) ↔ ws = [] := by
  have hports := netGet_listLine hs hw hval hload hnet hlater
  have hitem := hw w List.mem_cons_self
  have hnul : '\x00' ∉ w := fun hc => (hitem.chars _ hc).2.2 rfl
  have hnowifi : wifi.val.filterMap (wifiPort wifi ifSect) = [] := by
    refine List.filterMap_eq_nil_iff.mpr fun it hit => ?_
    rw [wifiPort, wifiMember, hwifi it hit, Bool.false_and, Bool.false_and]
    rfl
  have hempty : ds₁.portNames = [] := by
    obtain ⟨mode, addr, gw, dns, cmd, rfl, -⟩ := fillBridgeProto_eq_ok hfill
    rfl
  rw [buildState, if_pos hproto]
  obtain ⟨rfl, hwords⟩ | ⟨hne, vs, hwords⟩ := words_stripQuotes_listValue hitem ws
  · -- one item: it is the only word
    refine iff_of_true ⟨{ ds₁ with upIfname := cpy _ w }, buildUplinkBridge_eq_ok_iff.mpr
      ⟨ds₁, hfill, _, w, [], hports, hwords, ?_, ?_⟩, ?_, hempty⟩ rfl
    · exact List.forall_mem_singleton.mpr hitem.length
    · rw [hnowifi]
      rfl
    · exact cpy_of_fits hnul hitem.length
  · -- more items: the first word ends in a quote
    refine iff_of_false ?_ hne
    rintro ⟨ds, h, hup, -⟩
    obtain ⟨ds₂, -, ports, first, rest, hp, hf, hl, h⟩ := buildUplinkBridge_eq_ok_iff.mp h
    obtain rfl := Option.some.inj (hports.symm.trans hp)
    obtain ⟨rfl, rfl⟩ := List.cons.inj (hwords.symm.trans hf)
    have hfirst := hl _ List.mem_cons_self
    have hkeep : ds.upIfname = cpy _ (w ++ ['\x27']) := by
      obtain ⟨ps, rfl⟩ := foldlM_portsOnly h
      rfl
    rw [hkeep, cpy_of_fits (by simpa using hnul) hfirst] at hup
    simpa using congrArg List.length hup

end Lists

/-- A bridge with one port. -/
def onePortDump : CStr := unlines [
  "network.lan=interface", "network.lan.device='br-lan'", "network.lan.proto='dhcp'",
  "network.d1=device", "network.d1.type='bridge'", "network.d1.name='br-lan'"]

theorem onePort_decoded : ∃ db net : UciDb, dbLoadFile onePortDump .empty = .ok db ∧
    dbLoadLine db (listLine "d1".toList ["eth0".toList]) = .ok net ∧
    ∃ ds, buildState net .empty "d1".toList "lan".toList "br-lan".toList "dhcp".toList = .ok ds ∧
      ds.upIfname.val = "eth0".toList ∧ ds.portNames = [] := by
  obtain ⟨ds₁, h⟩ : ∃ ds₁, (do
      let db ← dbLoadFile onePortDump .empty
      let net ← dbLoadLine db (listLine "d1".toList ["eth0".toList])
      fillBridgeProto net "lan".toList (uplinkBase "br-lan".toList)) = .ok ds₁ :=
    exists_eq_ok (by decide +kernel)
  simp only [bind_eq_ok] at h
  obtain ⟨db, hdb, net, hnet, hfill⟩ := h
  have hsect : IsSectName "d1".toList :=
    ⟨by decide, fun c hc => by simpa using List.all_eq_true.mp (by decide :
      "d1".toList.all (fun c => c ≠ '.' ∧ c ≠ '=' ∧ c ≠ '\x00')) c hc⟩
  have hitem : IsItem "eth0".toList :=
    ⟨by decide, by decide, fun c hc => by simpa using List.all_eq_true.mp (by decide :
      "eth0".toList.all (fun c => isBlank c = false ∧ c ≠ '\x27' ∧ c ≠ '\x00')) c hc⟩
  exact ⟨db, net, hdb, hnet, (listPorts_iff hsect (List.forall_mem_singleton.mpr hitem)
    (by decide +kernel) hnet (List.append_nil _).symm (by simp) (by simp) (.inr rfl) hfill).mpr rfl⟩

/-- Two ports, as `uci show` prints them. -/
def twoPortsDump : CStr :=
  onePortDump ++ listLine "d1".toList ["eth0".toList, "eth1".toList]

theorem twoPorts_quoted :
    (uciBuildDesiredSet (.file (.ok twoPortsDump)) (.file (.ok []))).map (fun set =>
      set.val.map fun ds => (ds.upIfname.val, ds.portNames)) =
        .ok [("eth0'".toList, ["'eth1".toList])] := by
  decide +kernel

end Netrec
