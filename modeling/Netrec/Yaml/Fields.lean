import Netrec.Cfg.Meaning
import Netrec.Yaml

/-!
# The fields the loader reads

What each reader of the loader accepts and returns, in terms of the tree: a required string, an
optional one, a number, an array of strings and a section. Every string is cut to the buffer it is
copied into, so the strings of a loaded state are the values at the paths of the configuration, cut
to the sizes of their fields. A value that does not fit is cut without an error.

## Main definitions

* `HasStr`, `OptStr`, `OptArr`: a string, an optional string and an optional array below a node
* `valueAt`, `entriesAt`: the full value, or the full values of an array, at a path
* `Strings`, `DesiredState.strings`, `sourceStrings`: the strings of a state, as stored and as the
  configuration has them
* `Strings.Fits`: every string fits its field

## Main results

* `loadState_strings`: the stored strings are the full values, cut to their fields
* `stored_iff_fits`: they are the full values exactly when all of them fit
-/

namespace Netrec

open CLib

/-! ## Fields -/

/-- The node has a child of that name which is the string `s`. -/
def HasStr (obj : CfgNode) (key s : CStr) : Prop :=
  ∃ n, cfgChild obj key = some n ∧ n.type = .str ∧ n.val.getD [] = s

/-- The child of that name is the string `s`, or absent with `s` empty. -/
def OptStr (obj : CfgNode) (key s : CStr) : Prop :=
  HasStr obj key s ∨ (cfgChild obj key = none ∧ s = [])

/-- The child of that name is an array of the strings `vs`, or absent with `vs` empty. -/
def OptArr (obj : CfgNode) (key : CStr) (vs : List CStr) : Prop :=
  (∃ n, cfgChild obj key = some n ∧ n.type = .arr ∧ (n.child.map fun c => c.val.getD []) = vs) ∨
    (cfgChild obj key = none ∧ vs = [])

/-- The node has a child of that name which is an object. -/
def IsSection (root : CfgNode) (key : CStr) (n : CfgNode) : Prop :=
  cfgChild root key = some n ∧ n.type = .obj

section Fields

variable {obj root n : CfgNode} {key s : CStr} {sz : Nat} [NeZero sz] {b : CBuf sz} {d : Nat}

theorem HasStr.nul_notMem (hw : obj.Wf d) (h : HasStr obj key s) : '\x00' ∉ s := by
  obtain ⟨n, hn, ht, rfl⟩ := h
  cases hw.child_wf (objFind_mem hn).2.1 with
  | str hv => exact hv
  | arr _ _ _ => cases ht
  | obj _ _ _ _ => cases ht

theorem OptStr.nul_notMem (hw : obj.Wf d) (h : OptStr obj key s) : '\x00' ∉ s := by
  obtain h | ⟨-, rfl⟩ := h
  · exact h.nul_notMem hw
  · simp

theorem getStr_req : getStr obj key sz true = .ok b ↔ ∃ s, HasStr obj key s ∧ cpy sz s = b := by
  unfold getStr HasStr
  cases cfgChild obj key with
  | none => simp
  | some n => by_cases ht : n.type = .str <;> simp [ht]

theorem getStr_opt : getStr obj key sz false = .ok b ↔ ∃ s, OptStr obj key s ∧ cpy sz s = b := by
  unfold getStr OptStr HasStr
  cases cfgChild obj key with
  | none => simp
  | some n => by_cases ht : n.type = .str <;> simp [ht]

theorem getU32_iff {v : UInt32} :
    getU32 obj key = .ok v ↔ ∃ s, HasStr obj key s ∧ parseU32Str s = .ok v := by
  unfold getU32 HasStr
  cases cfgChild obj key with
  | none => simp
  | some n => by_cases ht : n.type = .str <;> simp [ht]

theorem getSection_iff : getSection root key = .ok n ↔ IsSection root key n := by
  unfold getSection IsSection
  cases cfgChild root key with
  | none => simp
  | some m =>
    by_cases ht : m.type = .obj
    · simp only [ht, ne_eq, not_true_eq_false, if_false, Except.ok.injEq, Option.some.injEq]
      exact ⟨fun h => ⟨h, h ▸ ht⟩, fun h => h.1⟩
    · simp only [ht, ne_eq, not_false_eq_true, if_true, reduceCtorEq, Option.some.injEq, false_iff]
      rintro ⟨rfl, h⟩
      exact ht h

theorem IsSection.wf (hw : root.Wf d) (h : IsSection root key n) : n.Wf (d - 1) :=
  hw.child_wf (objFind_mem h.1).2.1

/-- A list reader succeeds when all items are of the right kind, can be read and are not too many.
-/
theorem collect_isOk {α : Type} {type : CfgType} {f : CfgNode → Except Errno α} {max : Nat}
    {its : List CfgNode} :
    (∃ t, collect type f max its = .ok t) ↔
      its.length ≤ max ∧ ∀ it ∈ its, it.type = type ∧ ∃ a, f it = .ok a := by
  induction its generalizing max with
  | nil => cases max <;> simp [collect]
  | cons it its ih =>
    cases max with
    | zero =>
      refine iff_of_false ?_ (by simp)
      rintro ⟨t, ht⟩
      rw [collect] at ht
      split at ht <;> cases ht
    | succ max =>
      have ih' := @ih max
      simp only [collect, bind_eq_ok, reject_eq_ok, pure_eq_ok, not_not, List.length_cons,
        Nat.add_le_add_iff_right, List.forall_mem_cons]
      constructor
      · rintro ⟨t, -, htype, a, ha, as, has, -⟩
        obtain ⟨hl, hall⟩ := ih'.mp ⟨as, has⟩
        exact ⟨hl, ⟨htype, a, ha⟩, hall⟩
      · rintro ⟨hl, ⟨htype, a, ha⟩, hall⟩
        obtain ⟨as, has⟩ := ih'.mpr ⟨hl, hall⟩
        exact ⟨_, (), htype, a, ha, as, has, rfl⟩

theorem getStrArr_eq_ok {max : Nat} {t : Table max (CBuf sz)} (h : getStrArr obj key sz max = .ok t) :
    ∃ vs, OptArr obj key vs ∧ vs.length ≤ max ∧ t.val = vs.map (cpy sz) := by
  unfold getStrArr at h
  cases hc : cfgChild obj key with
  | none =>
    rw [hc] at h
    obtain rfl := Except.ok.inj h
    exact ⟨[], .inr ⟨hc, rfl⟩, by simp, rfl⟩
  | some arr =>
    rw [hc] at h
    simp only at h
    split_ifs at h with ht
    have hall := collect_eq_ok h
    have hval : t.val = (arr.child.map fun c => c.val.getD []).map (cpy sz) := by
      clear h hc
      generalize t.val = as, arr.child = its at hall
      induction hall with
      | nil => rfl
      | cons ha _ ih => rw [List.map_cons, List.map_cons, ← ih, ← Except.ok.inj ha]
    refine ⟨_, .inl ⟨arr, hc, not_not.mp ht, rfl⟩, ?_, hval⟩
    have hlen := congrArg List.length hval
    rw [List.length_map] at hlen
    exact hlen ▸ t.property

/-- In a well-formed tree the entries of an array are strings. -/
theorem getStrArr_isOk (hw : obj.Wf d) {vs : List CStr} (h : OptArr obj key vs) {max : Nat}
    (hl : vs.length ≤ max) : ∃ t : Table max (CBuf sz), getStrArr obj key sz max = .ok t := by
  unfold getStrArr
  obtain ⟨arr, hc, ht, rfl⟩ | ⟨hc, rfl⟩ := h
  · simp only [hc, ht, ne_eq, not_true_eq_false, if_false]
    rw [List.length_map] at hl
    exact collect_isOk.mpr ⟨hl, fun it hit =>
      ⟨(hw.child_wf (objFind_mem hc).2.1).entry ht hit, _, rfl⟩⟩
  · simp only [hc]
    exact ⟨_, rfl⟩

theorem OptArr.unique {vs vs' : List CStr} (h : OptArr obj key vs) (h' : OptArr obj key vs') :
    vs = vs' := by
  obtain ⟨n, hn, -, rfl⟩ | ⟨h, rfl⟩ := h <;> obtain ⟨n', hn', -, rfl⟩ | ⟨h', rfl⟩ := h'
  · rw [Option.some.inj (hn.symm.trans hn')]
  · simp [hn] at h'
  · simp [hn'] at h
  · rfl

end Fields

/-! ## Values at paths -/

/-- The full string at a path; empty when there is none. -/
def valueAt (root : CfgNode) (path : CStr) : CStr :=
  match cfgGetStr root path with
  | .ok s => s
  | .error _ => []

/-- The full strings of the array at a path; none when there is no array. -/
def entriesAt (root : CfgNode) (path : CStr) : List CStr :=
  match cfgGetNode root path with
  | .ok n => n.child.map fun c => c.val.getD []
  | .error _ => []

section Values

variable {root n : CfgNode} {path sec key s : CStr} {vs : List CStr} {d : Nat}

/-- Walks stay inside well-formed trees. -/
theorem walkGet_wf (hw : root.Wf d) {toks : List Tok} (h : walkGet toks root = .ok n) :
    ∃ d', n.Wf d' := by
  induction toks generalizing root d with
  | nil =>
    obtain rfl := Except.ok.inj h
    exact ⟨d, hw⟩
  | cons t toks ih =>
    cases t with
    | append => cases h
    | key k =>
      obtain ⟨b, hb, hw'⟩ := walkGet_key.mp h
      exact ih (hw.child_wf (objFind_mem hb).2.1) hw'
    | index i =>
      obtain ⟨-, j, -, b, hb, hw'⟩ := walkGet_index.mp h
      exact ih (hw.child_wf (List.mem_of_getElem? hb)) hw'

theorem nul_notMem_val (hw : n.Wf d) : '\x00' ∉ n.val.getD [] := by
  cases hw with
  | str hv => exact hv
  | arr _ _ _ => simp
  | obj _ _ _ _ => simp

theorem nul_notMem_entriesAt (hw : root.Wf d) (path : CStr) :
    ∀ s ∈ entriesAt root path, '\x00' ∉ s := by
  unfold entriesAt
  cases h : cfgGetNode root path with
  | error e => simp
  | ok n =>
    rw [cfgGetNode_eq, bind_eq_ok] at h
    obtain ⟨toks, -, hn⟩ := h
    obtain ⟨d', hw'⟩ := walkGet_wf hw hn
    simp only [List.mem_map, forall_exists_index, and_imp, forall_apply_eq_imp_iff₂]
    exact fun c hc => nul_notMem_val (hw'.child_wf hc)

/-- The string of a field of a node. -/
theorem valueAt_key (hp : parsePath CFG_PATH_DEPTH_MAX path = .ok [.key key])
    (h : OptStr root key s) : valueAt root path = s := by
  simp only [valueAt, cfgGetStr, cfgGetNode_eq, hp, ok_bind]
  obtain ⟨n, hn, ht, rfl⟩ | ⟨hn, rfl⟩ := h
  · have hw : walkGet [.key key] root = .ok n := walkGet_key.mpr ⟨n, hn, rfl⟩
    simp [hw, ht]
  · simp only [walkGet, show objFind root key = none from hn]
    split_ifs <;> rfl

/-- The string of a field of a section. -/
theorem valueAt_field (hp : parsePath CFG_PATH_DEPTH_MAX path = .ok [.key sec, .key key])
    (hs : IsSection root sec n) (h : OptStr n key s) : valueAt root path = s := by
  have hroot := (objFind_mem hs.1).1
  simp only [valueAt, cfgGetStr, cfgGetNode_eq, hp, ok_bind]
  obtain ⟨m, hm, ht, rfl⟩ | ⟨hm, rfl⟩ := h
  · have hw : walkGet [.key sec, .key key] root = .ok m :=
      walkGet_key.mpr ⟨n, hs.1, walkGet_key.mpr ⟨m, hm, rfl⟩⟩
    simp [hw, ht]
  · simp only [walkGet, hroot, show objFind root sec = some n from hs.1, hs.2,
      show objFind n key = none from hm]
    rfl

/-- A field of a section that is missing. -/
theorem valueAt_of_none (hp : parsePath CFG_PATH_DEPTH_MAX path = .ok [.key sec, .key key])
    (hs : cfgChild root sec = none) : valueAt root path = [] := by
  simp only [valueAt, cfgGetStr, cfgGetNode_eq, hp, ok_bind, walkGet,
    show objFind root sec = none from hs]
  split_ifs <;> rfl

theorem entriesAt_field (hp : parsePath CFG_PATH_DEPTH_MAX path = .ok [.key sec, .key key])
    (hs : IsSection root sec n) (h : OptArr n key vs) : entriesAt root path = vs := by
  have hroot := (objFind_mem hs.1).1
  simp only [entriesAt, cfgGetNode_eq, hp, ok_bind]
  obtain ⟨m, hm, ht, rfl⟩ | ⟨hm, rfl⟩ := h
  · have hw : walkGet [.key sec, .key key] root = .ok m :=
      walkGet_key.mpr ⟨n, hs.1, walkGet_key.mpr ⟨m, hm, rfl⟩⟩
    simp [hw]
  · simp only [walkGet, hroot, show objFind root sec = some n from hs.1, hs.2,
      show objFind n key = none from hm]
    rfl

end Values

/-! ## The strings of a state -/

/-- The strings of a desired state. -/
structure Strings where
  scenario : CStr
  brName : CStr
  brAddr : CStr
  brGateway : CStr
  brDns : List CStr
  brDhcpCmd : CStr
  brPorts : List CStr
  upIfname : CStr
  vlanIfname : CStr
  vlanLink : CStr
  vlanBridge : CStr
  wgIfname : CStr
  wgPeerIp : CStr
  wgRouteDev : CStr
  vxIfname : CStr
  vxRemote : CStr
  vxDev : CStr
  vxBridge : CStr
  routes : List (CStr × CStr × CStr)

/-- The strings a state stores. -/
def DesiredState.strings (ds : DesiredState) : Strings where
  scenario := ds.scenario
  brName := ds.brName
  brAddr := ds.brAddr
  brGateway := ds.brGateway
  brDns := ds.brDns.val.map CBuf.val
  brDhcpCmd := ds.brDhcpCmd
  brPorts := ds.brPorts.val.map CBuf.val
  upIfname := ds.upIfname
  vlanIfname := ds.vlanIfname
  vlanLink := ds.vlanLink
  vlanBridge := ds.vlanBridge
  wgIfname := ds.wgIfname
  wgPeerIp := ds.wgPeerIp
  wgRouteDev := ds.wgRouteDev
  vxIfname := ds.vxIfname
  vxRemote := ds.vxRemote
  vxDev := ds.vxDev
  vxBridge := ds.vxBridge
  routes := ds.routes.val.map fun rt => (rt.dst.val, rt.dev.val, rt.via.val)

namespace Strings

/-- No string. -/
def empty : Strings := DesiredState.zero.strings

/-- A function of the size of the field and the string, applied to every string. -/
def map (f : Nat → CStr → CStr) (st : Strings) : Strings where
  scenario := f 32 st.scenario
  brName := f IFNAMSIZ st.brName
  brAddr := f 32 st.brAddr
  brGateway := f INET_ADDRSTRLEN st.brGateway
  brDns := st.brDns.map (f INET_ADDRSTRLEN)
  brDhcpCmd := f 128 st.brDhcpCmd
  brPorts := st.brPorts.map (f IFNAMSIZ)
  upIfname := f IFNAMSIZ st.upIfname
  vlanIfname := f IFNAMSIZ st.vlanIfname
  vlanLink := f IFNAMSIZ st.vlanLink
  vlanBridge := f IFNAMSIZ st.vlanBridge
  wgIfname := f IFNAMSIZ st.wgIfname
  wgPeerIp := f INET_ADDRSTRLEN st.wgPeerIp
  wgRouteDev := f IFNAMSIZ st.wgRouteDev
  vxIfname := f IFNAMSIZ st.vxIfname
  vxRemote := f INET_ADDRSTRLEN st.vxRemote
  vxDev := f IFNAMSIZ st.vxDev
  vxBridge := f IFNAMSIZ st.vxBridge
  routes := st.routes.map fun rt => (f 32 rt.1, f IFNAMSIZ rt.2.1, f INET_ADDRSTRLEN rt.2.2)

/-- A property of the size of the field and the string that every string has. -/
@[mk_iff] structure All (P : Nat → CStr → Prop) (st : Strings) : Prop where
  scenario : P 32 st.scenario
  brName : P IFNAMSIZ st.brName
  brAddr : P 32 st.brAddr
  brGateway : P INET_ADDRSTRLEN st.brGateway
  brDns : ∀ s ∈ st.brDns, P INET_ADDRSTRLEN s
  brDhcpCmd : P 128 st.brDhcpCmd
  brPorts : ∀ s ∈ st.brPorts, P IFNAMSIZ s
  upIfname : P IFNAMSIZ st.upIfname
  vlanIfname : P IFNAMSIZ st.vlanIfname
  vlanLink : P IFNAMSIZ st.vlanLink
  vlanBridge : P IFNAMSIZ st.vlanBridge
  wgIfname : P IFNAMSIZ st.wgIfname
  wgPeerIp : P INET_ADDRSTRLEN st.wgPeerIp
  wgRouteDev : P IFNAMSIZ st.wgRouteDev
  vxIfname : P IFNAMSIZ st.vxIfname
  vxRemote : P INET_ADDRSTRLEN st.vxRemote
  vxDev : P IFNAMSIZ st.vxDev
  vxBridge : P IFNAMSIZ st.vxBridge
  routes : ∀ rt ∈ st.routes, P 32 rt.1 ∧ P IFNAMSIZ rt.2.1 ∧ P INET_ADDRSTRLEN rt.2.2

/-- Every string fits its field, with the byte that ends it. -/
def Fits (st : Strings) : Prop := st.All fun sz s => s.length < sz

instance (P : Nat → CStr → Prop) [∀ sz s, Decidable (P sz s)] (st : Strings) :
    Decidable (st.All P) :=
  decidable_of_iff' _ (all_iff P st)

instance (st : Strings) : Decidable st.Fits := inferInstanceAs (Decidable (st.All _))

/-- Every string, cut to its field. -/
def cut (st : Strings) : Strings := st.map fun sz s => s.take (sz - 1)

theorem map_eq_self_iff {f : Nat → CStr → CStr} {st : Strings} :
    st.map f = st ↔ st.All fun sz s => f sz s = s := by
  constructor
  · intro h
    have hdns : st.brDns.map (f INET_ADDRSTRLEN) = st.brDns := congrArg brDns h
    have hports : st.brPorts.map (f IFNAMSIZ) = st.brPorts := congrArg brPorts h
    have hroutes : (st.map f).routes = st.routes := congrArg routes h
    exact {
      scenario := congrArg scenario h
      brName := congrArg brName h
      brAddr := congrArg brAddr h
      brGateway := congrArg brGateway h
      brDns := by simpa using List.map_inj_left.mp (hdns.trans (List.map_id _).symm)
      brDhcpCmd := congrArg brDhcpCmd h
      brPorts := by simpa using List.map_inj_left.mp (hports.trans (List.map_id _).symm)
      upIfname := congrArg upIfname h
      vlanIfname := congrArg vlanIfname h
      vlanLink := congrArg vlanLink h
      vlanBridge := congrArg vlanBridge h
      wgIfname := congrArg wgIfname h
      wgPeerIp := congrArg wgPeerIp h
      wgRouteDev := congrArg wgRouteDev h
      vxIfname := congrArg vxIfname h
      vxRemote := congrArg vxRemote h
      vxDev := congrArg vxDev h
      vxBridge := congrArg vxBridge h
      routes := by
        intro rt hrt
        have := List.map_inj_left.mp (hroutes.trans (List.map_id _).symm) rt hrt
        simpa [Prod.ext_iff] using this }
  · intro h
    have hdns : st.brDns.map (f INET_ADDRSTRLEN) = st.brDns := by
      simpa using List.map_congr_left h.brDns
    have hports : st.brPorts.map (f IFNAMSIZ) = st.brPorts := by
      simpa using List.map_congr_left h.brPorts
    have hroutes : (st.map f).routes = st.routes := by
      refine (List.map_congr_left fun rt hrt => ?_).trans (List.map_id _)
      obtain ⟨h1, h2, h3⟩ := h.routes rt hrt
      rw [h1, h2, h3]
      rfl
    cases st
    simp only [map, mk.injEq] at *
    exact ⟨h.scenario, h.brName, h.brAddr, h.brGateway, hdns, h.brDhcpCmd, hports, h.upIfname,
      h.vlanIfname, h.vlanLink, h.vlanBridge, h.wgIfname, h.wgPeerIp, h.wgRouteDev, h.vxIfname,
      h.vxRemote, h.vxDev, h.vxBridge, hroutes⟩

theorem All.imp {P Q : Nat → CStr → Prop} {st : Strings} (h : st.All P)
    (hPQ : ∀ sz s, 0 < sz → P sz s → Q sz s) : st.All Q where
  scenario := hPQ _ _ (by decide) h.scenario
  brName := hPQ _ _ (by decide) h.brName
  brAddr := hPQ _ _ (by decide) h.brAddr
  brGateway := hPQ _ _ (by decide) h.brGateway
  brDns := fun s hs => hPQ _ _ (by decide) (h.brDns s hs)
  brDhcpCmd := hPQ _ _ (by decide) h.brDhcpCmd
  brPorts := fun s hs => hPQ _ _ (by decide) (h.brPorts s hs)
  upIfname := hPQ _ _ (by decide) h.upIfname
  vlanIfname := hPQ _ _ (by decide) h.vlanIfname
  vlanLink := hPQ _ _ (by decide) h.vlanLink
  vlanBridge := hPQ _ _ (by decide) h.vlanBridge
  wgIfname := hPQ _ _ (by decide) h.wgIfname
  wgPeerIp := hPQ _ _ (by decide) h.wgPeerIp
  wgRouteDev := hPQ _ _ (by decide) h.wgRouteDev
  vxIfname := hPQ _ _ (by decide) h.vxIfname
  vxRemote := hPQ _ _ (by decide) h.vxRemote
  vxDev := hPQ _ _ (by decide) h.vxDev
  vxBridge := hPQ _ _ (by decide) h.vxBridge
  routes := fun rt hrt =>
    have ⟨h1, h2, h3⟩ := h.routes rt hrt
    ⟨hPQ _ _ (by decide) h1, hPQ _ _ (by decide) h2, hPQ _ _ (by decide) h3⟩

/-- Cutting changes nothing exactly when every string fits. -/
theorem cut_eq_self_iff {st : Strings} : st.cut = st ↔ st.Fits := by
  refine map_eq_self_iff.trans ⟨fun h => ?_, fun h => ?_⟩
  · refine h.imp fun sz s hsz hs => ?_
    have := congrArg List.length hs
    rw [List.length_take] at this
    omega
  · exact h.imp fun sz s _ hs => List.take_of_length_le (by omega)

end Strings

/-! ## The strings of the configuration -/

/-- The strings of `bridge`. -/
def bridgeStrings (root : CfgNode) (st : Strings) : Strings :=
  { st with
    brName := valueAt root "bridge.name".toList
    brAddr := valueAt root "bridge.addr".toList
    brGateway := valueAt root "bridge.gateway".toList
    brDns := entriesAt root "bridge.dns".toList
    brDhcpCmd := valueAt root "bridge.dhcp_cmd".toList
    brPorts := entriesAt root "bridge.ports".toList }

/-- The strings of `uplink`. -/
def uplinkStrings (root : CfgNode) (st : Strings) : Strings :=
  { st with upIfname := valueAt root "uplink.ifname".toList }

/-- The strings of `vlan`; an empty link or bridge stands for the uplink or the bridge. -/
def vlanStrings (root : CfgNode) (st : Strings) : Strings :=
  let link := valueAt root "vlan.link".toList
  let bridge := valueAt root "vlan.bridge".toList
  { st with
    vlanIfname := valueAt root "vlan.ifname".toList
    vlanLink := if link = [] then st.upIfname else link
    vlanBridge := if bridge = [] then st.brName else bridge }

/-- The strings of `wg` and `vxlan`. -/
def wgVxlanStrings (root : CfgNode) (st : Strings) : Strings :=
  { st with
    wgIfname := valueAt root "wg.ifname".toList
    wgPeerIp := valueAt root "wg.peer_ip".toList
    wgRouteDev := valueAt root "wg.route_dev".toList
    vxIfname := valueAt root "vxlan.ifname".toList
    vxRemote := valueAt root "vxlan.remote".toList
    vxDev := valueAt root "vxlan.dev".toList
    vxBridge := valueAt root "vxlan.bridge".toList }

/-- The strings of the children of `routes`. -/
def routeStrings (root : CfgNode) (st : Strings) : Strings :=
  { st with
    routes := match cfgChild root "routes".toList with
      | none => []
      | some node => node.child.map fun it =>
        (valueAt it "dst".toList, valueAt it "dev".toList, valueAt it "via".toList) }

/-- The sections a scenario reads. -/
def scenarioStrings (root : CfgNode) (st : Strings) : Scenario → Strings
  | .onlyUplink => uplinkStrings root st
  | .uplinkBridge => uplinkStrings root (bridgeStrings root st)
  | .vlanBridge => vlanStrings root (uplinkStrings root (bridgeStrings root st))
  | .wgVxlanBridge => wgVxlanStrings root (uplinkStrings root (bridgeStrings root st))

/-- The full strings of the configuration of one state. -/
def sourceStrings (root : CfgNode) : Strings :=
  let scenario := valueAt root "scenario".toList
  match Scenario.ofName scenario with
  | none => .empty
  | some scn => routeStrings root (scenarioStrings root { Strings.empty with scenario } scn)

/-- The nodes of the states of a configuration: the root, or the children of `state`. -/
def stateNodes (root : CfgNode) : List CfgNode :=
  if (cfgChild root "scenario".toList).isSome then [root]
  else match cfgChild root "state".toList with
    | none => []
    | some states => states.child

/-! ## What the loader stores -/

theorem cpy_eq_take {sz : Nat} [NeZero sz] {s : CStr} (hn : '\x00' ∉ s) :
    (cpy sz s).val = s.take (sz - 1) := by
  simp only [cpy, cstr_eq_self hn]

section Stored

variable {root : CfgNode} {ds ds' : DesiredState} {st : Strings} {d : Nat}

/-- A field is a copy of the text that the node has, required or not. -/
theorem getStr_eq_ok {n : CfgNode} {key : CStr} {sz : Nat} [NeZero sz] {req : Bool} {b : CBuf sz}
    (h : getStr n key sz req = .ok b) : ∃ s, OptStr n key s ∧ cpy sz s = b := by
  cases req with
  | false => exact getStr_opt.mp h
  | true =>
    obtain ⟨s, hs, rfl⟩ := getStr_req.mp h
    exact ⟨s, .inl hs, rfl⟩

/-- A field of a section, as it is stored and as the configuration has it. -/
theorem getStr_stored (path : CStr) {n : CfgNode} {sec key : CStr} {sz : Nat} [NeZero sz]
    {req : Bool} {b : CBuf sz} (hw : root.Wf d) (hs : IsSection root sec n)
    (h : getStr n key sz req = .ok b)
    (hp : parsePath CFG_PATH_DEPTH_MAX path = .ok [.key sec, .key key]) :
    b.val = (valueAt root path).take (sz - 1) := by
  obtain ⟨s, hs', rfl⟩ := getStr_eq_ok h
  rw [valueAt_field hp hs hs', cpy_eq_take (hs'.nul_notMem (hs.wf hw))]

/-- A field of the node itself. -/
theorem getStr_stored_top (path : CStr) {key : CStr} {sz : Nat} [NeZero sz] {req : Bool} {b : CBuf sz}
    (hw : root.Wf d) (h : getStr root key sz req = .ok b)
    (hp : parsePath CFG_PATH_DEPTH_MAX path = .ok [.key key]) :
    b.val = (valueAt root path).take (sz - 1) := by
  obtain ⟨s, hs, rfl⟩ := getStr_eq_ok h
  rw [valueAt_key hp hs, cpy_eq_take (hs.nul_notMem hw)]

theorem getStrArr_stored (path : CStr) {n : CfgNode} {sec key : CStr} {sz max : Nat} [NeZero sz]
    {t : Table max (CBuf sz)} (hw : root.Wf d) (hs : IsSection root sec n)
    (h : getStrArr n key sz max = .ok t)
    (hp : parsePath CFG_PATH_DEPTH_MAX path = .ok [.key sec, .key key]) :
    t.val.map CBuf.val = (entriesAt root path).map fun s => s.take (sz - 1) := by
  obtain ⟨vs, hvs, -, ht⟩ := getStrArr_eq_ok h
  have he := entriesAt_field hp hs hvs
  rw [ht, he, List.map_map]
  exact List.map_congr_left fun s hs' => cpy_eq_take (nul_notMem_entriesAt hw path s (he ▸ hs'))

theorem loadBridge_strings (hw : root.Wf d) (h : loadBridge root ds = .ok ds')
    (hst : ds.strings = st.cut) : ds'.strings = (bridgeStrings root st).cut := by
  simp only [loadBridge, bind_eq_ok, reject_eq_ok, pure_eq_ok, getSection_iff] at h
  obtain ⟨br, hbr, name, hname, addr, haddr, gw, hgw, dns, hdns, mode, -, cmd, hcmd, m, -, -, -, -,
    -, ports, hports, h⟩ := h
  have e : ds'.strings = { ds.strings with
      brName := name.val, brAddr := addr.val, brGateway := gw.val
      brDns := dns.val.map CBuf.val, brDhcpCmd := cmd.val, brPorts := ports.val.map CBuf.val } := by
    rw [← Except.ok.inj h]
    rfl
  rw [e, hst, getStr_stored "bridge.name".toList hw hbr hname rfl,
    getStr_stored "bridge.addr".toList hw hbr haddr rfl,
    getStr_stored "bridge.gateway".toList hw hbr hgw rfl,
    getStrArr_stored "bridge.dns".toList hw hbr hdns rfl,
    getStr_stored "bridge.dhcp_cmd".toList hw hbr hcmd rfl,
    getStrArr_stored "bridge.ports".toList hw hbr hports rfl]
  rfl

theorem loadUplink_strings (hw : root.Wf d) (h : loadUplink root ds = .ok ds')
    (hst : ds.strings = st.cut) : ds'.strings = (uplinkStrings root st).cut := by
  simp only [loadUplink, bind_eq_ok, pure_eq_ok, getSection_iff] at h
  obtain ⟨up, hup, name, hname, h⟩ := h
  have e : ds'.strings = { ds.strings with upIfname := name.val } := by
    rw [← Except.ok.inj h]
    rfl
  rw [e, hst, getStr_stored "uplink.ifname".toList hw hup hname rfl]
  rfl

/-- An empty name stands for the default, before and after the cut. -/
theorem default_stored {v w : CStr} {b b' : IfName} (hb : b.val = v.take (IFNAMSIZ - 1))
    (hb' : b'.val = w.take (IFNAMSIZ - 1)) :
    (if b.val = [] then cpy IFNAMSIZ b'.val else b).val =
      (if v = [] then w else v).take (IFNAMSIZ - 1) := by
  by_cases hv : v = []
  · rw [if_pos hv, if_pos (by rw [hb, hv]; rfl), cpy_val, hb']
  · rw [if_neg hv, if_neg, hb]
    rw [hb, List.take_eq_nil_iff]
    exact fun h => h.elim (by decide) hv

theorem loadVlan_strings (hw : root.Wf d) (h : loadVlan root ds = .ok ds')
    (hst : ds.strings = st.cut) : ds'.strings = (vlanStrings root st).cut := by
  simp only [loadVlan, bind_eq_ok, reject_eq_ok, pure_eq_ok, getSection_iff] at h
  obtain ⟨vl, hvl, name, hname, id, -, link, hlink, bridge, hbridge, -, -, -, -, h⟩ := h
  have e : ds'.strings = { ds.strings with
      vlanIfname := name.val
      vlanLink := (if link.val = [] then cpy IFNAMSIZ ds.upIfname.val else link).val
      vlanBridge := (if bridge.val = [] then cpy IFNAMSIZ ds.brName.val else bridge).val } := by
    rw [← Except.ok.inj h]
    rfl
  rw [e, hst, getStr_stored "vlan.ifname".toList hw hvl hname rfl,
    default_stored (getStr_stored "vlan.link".toList hw hvl hlink rfl)
      (congrArg Strings.upIfname hst),
    default_stored (getStr_stored "vlan.bridge".toList hw hvl hbridge rfl)
      (congrArg Strings.brName hst)]
  rfl

theorem loadWgVxlan_strings (hw : root.Wf d) (h : loadWgVxlan root ds = .ok ds')
    (hst : ds.strings = st.cut) : ds'.strings = (wgVxlanStrings root st).cut := by
  simp only [loadWgVxlan, bind_eq_ok, reject_eq_ok, pure_eq_ok, getSection_iff] at h
  obtain ⟨wg, hwg, vx, hvx, wgIfname, hwi, peer, hpeer, dev, hdev, vxIfname, hvi, vni, -, remote,
    hremote, vxDev, hvd, bridge, hbridge, -, -, -, -, h⟩ := h
  have e : ds'.strings = { ds.strings with
      wgIfname := wgIfname.val, wgPeerIp := peer.val, wgRouteDev := dev.val
      vxIfname := vxIfname.val, vxRemote := remote.val, vxDev := vxDev.val
      vxBridge := bridge.val } := by
    rw [← Except.ok.inj h]
    rfl
  rw [e, hst, getStr_stored "wg.ifname".toList hw hwg hwi rfl,
    getStr_stored "wg.peer_ip".toList hw hwg hpeer rfl,
    getStr_stored "wg.route_dev".toList hw hwg hdev rfl,
    getStr_stored "vxlan.ifname".toList hw hvx hvi rfl,
    getStr_stored "vxlan.remote".toList hw hvx hremote rfl,
    getStr_stored "vxlan.dev".toList hw hvx hvd rfl,
    getStr_stored "vxlan.bridge".toList hw hvx hbridge rfl]
  rfl

/-- The strings of one route. -/
theorem loadRoute_strings {it : CfgNode} {rt : DesiredRoute4} (hw : it.Wf d)
    (h : loadRoute it = .ok rt) :
    (rt.dst.val, rt.dev.val, rt.via.val) =
      ((valueAt it "dst".toList).take 31, (valueAt it "dev".toList).take (IFNAMSIZ - 1),
        (valueAt it "via".toList).take (INET_ADDRSTRLEN - 1)) := by
  simp only [loadRoute, bind_eq_ok, pure_eq_ok] at h
  obtain ⟨dst, hdst, dev, hdev, via, hvia, h⟩ := h
  rw [← Except.ok.inj h]
  exact Prod.ext (getStr_stored_top _ hw hdst rfl)
    (Prod.ext (getStr_stored_top _ hw hdev rfl)
      (getStr_stored_top _ hw hvia rfl))

theorem loadRoutes_strings (hw : root.Wf d) (h : loadRoutes root ds = .ok ds')
    (hst : ds.strings = st.cut) : ds'.strings = (routeStrings root st).cut := by
  unfold loadRoutes at h
  cases hc : cfgChild root "routes".toList with
  | none =>
    rw [hc] at h
    have e : ds'.strings = { ds.strings with routes := [] } := by
      rw [← Except.ok.inj h]
      rfl
    rw [e, hst, routeStrings, hc]
    rfl
  | some node =>
    simp only [hc] at h
    split_ifs at h
    simp only [bind_eq_ok, pure_eq_ok] at h
    obtain ⟨routes, hroutes, h⟩ := h
    have e : ds'.strings = { ds.strings with
        routes := routes.val.map fun rt => (rt.dst.val, rt.dev.val, rt.via.val) } := by
      rw [← Except.ok.inj h]
      rfl
    -- route by route, along the chain that was read
    have hall := collect_eq_ok hroutes
    have hnode := hw.child_wf (objFind_mem hc).2.1
    have hwf : ∀ it ∈ node.child, it.Wf (d - 1 - 1) := fun it hit => hnode.child_wf hit
    have heq : (routes.val.map fun rt => (rt.dst.val, rt.dev.val, rt.via.val)) =
        node.child.map fun it => ((valueAt it "dst".toList).take 31,
          (valueAt it "dev".toList).take (IFNAMSIZ - 1),
          (valueAt it "via".toList).take (INET_ADDRSTRLEN - 1)) := by
      clear h e hroutes hc
      generalize routes.val = rts, node.child = its at hall hwf
      induction hall with
      | nil => rfl
      | cons ha _ ih =>
        rw [List.map_cons, List.map_cons, loadRoute_strings (hwf _ (by simp)) ha,
          ih fun it hit => hwf it (List.mem_cons_of_mem _ hit)]
    rw [e, hst, heq, routeStrings, hc]
    simp only [Strings.cut, Strings.map, List.map_map]
    rfl

theorem loadScenario_strings (hw : root.Wf d) {scn : Scenario}
    (h : loadScenario root ds scn = .ok ds') (hst : ds.strings = st.cut)
    (hup : st.upIfname = []) : ds'.strings = (scenarioStrings root st scn).cut := by
  cases scn with
  | onlyUplink => exact loadUplink_strings hw h hst
  | uplinkBridge =>
    rw [loadScenario, bind_eq_ok] at h
    obtain ⟨ds₁, h₁, h⟩ := h
    exact loadUplink_strings hw h (loadBridge_strings hw h₁ hst)
  | vlanBridge =>
    simp only [loadScenario, bind_eq_ok] at h
    obtain ⟨ds₂, ⟨ds₁, h₁, h₂⟩, h⟩ := h
    exact loadVlan_strings hw h (loadUplink_strings hw h₂ (loadBridge_strings hw h₁ hst))
  | wgVxlanBridge =>
    simp only [loadScenario, bind_eq_ok] at h
    obtain ⟨ds₁, h₁, h⟩ := h
    have hb := loadBridge_strings hw h₁ hst
    cases hc : cfgChild root "uplink".toList with
    | some up =>
      simp only [hc, Option.isSome_some, if_true, bind_eq_ok] at h
      obtain ⟨ds₂, h₂, h⟩ := h
      exact loadWgVxlan_strings hw h (loadUplink_strings hw h₂ hb)
    | none =>
      -- without the section the name stays empty, as the value at its path is
      simp only [hc, Option.isSome_none, Bool.false_eq_true, if_false, ok_bind] at h
      have hu : uplinkStrings root (bridgeStrings root st) = bridgeStrings root st := by
        have hpath : parsePath CFG_PATH_DEPTH_MAX "uplink.ifname".toList =
            .ok [.key "uplink".toList, .key "ifname".toList] := rfl
        rw [uplinkStrings, valueAt_of_none hpath hc, ← hup]
        rfl
      rw [scenarioStrings, hu]
      exact loadWgVxlan_strings hw h hb

theorem length_of_ofName {s : CStr} {scn : Scenario} (h : Scenario.ofName s = some scn) :
    s.length ≤ 17 := by
  unfold Scenario.ofName at h
  split_ifs at h with h₁ h₂ h₃ h₄
  · rcases h₁ with rfl | rfl <;> decide
  · rcases h₂ with rfl | rfl <;> decide
  · rcases h₃ with rfl | rfl <;> decide
  · rw [h₄]
    decide

/-- **The strings of a loaded state are those of the configuration, cut to their fields.** -/
theorem loadState_strings (hw : root.Wf d) (h : loadState root = .ok ds) :
    ds.strings = (sourceStrings root).cut := by
  simp only [loadState, bind_eq_ok] at h
  obtain ⟨scenario, hscn, h⟩ := h
  have hs := getStr_stored_top "scenario".toList hw hscn rfl
  cases hn : Scenario.ofName scenario.val with
  | none => simp [hn] at h
  | some scn =>
    -- the names of the scenarios are shorter than the field, so this one was not cut
    have hfull : valueAt root "scenario".toList = scenario.val := by
      have hl := length_of_ofName hn
      rw [hs, List.length_take] at hl
      rw [hs, List.take_of_length_le (by omega)]
    simp only [hn, bind_eq_ok] at h
    obtain ⟨ds₁, h₁, h⟩ := h
    have h0 : ({ DesiredState.zero with scenario } : DesiredState).strings =
        ({ Strings.empty with scenario := scenario.val } : Strings).cut := by
      have hl : scenario.val.take (32 - 1) = scenario.val :=
        List.take_of_length_le (Nat.le_sub_one_of_lt scenario.length_lt)
      simp only [Strings.cut, Strings.map, hl]
      rfl
    have := loadRoutes_strings hw h (loadScenario_strings hw h₁ h0 rfl)
    simp only [sourceStrings, hfull, hn]
    exact this

end Stored

/-- The states of a set, each beside the node it was loaded from. -/
theorem loadSet_eq_ok {root : CfgNode} {set : DesiredSet} (h : loadSet root = .ok set) :
    List.Forall₂ (fun node ds => loadState node = .ok ds) (stateNodes root) set.val := by
  unfold loadSet at h
  unfold stateNodes
  split_ifs at h ⊢ with hc
  · simp only [bind_eq_ok, pure_eq_ok] at h
    obtain ⟨ds, hds, h⟩ := h
    rw [← Except.ok.inj h]
    exact .cons hds .nil
  · simp only [bind_eq_ok, pure_eq_ok, getSection_iff] at h
    obtain ⟨states, hstates, set', hset, -, -, h⟩ := h
    rw [← Except.ok.inj h, hstates.1]
    exact collect_eq_ok hset

theorem stateNodes_wf {root : CfgNode} {d : Nat} (hw : root.Wf d) :
    ∀ node ∈ stateNodes root, ∃ d', node.Wf d' := by
  unfold stateNodes
  split_ifs with hc
  · exact List.forall_mem_singleton.mpr ⟨d, hw⟩
  · cases hs : cfgChild root "state".toList with
    | none => simp
    | some states =>
      exact fun node hnode => ⟨_, (hw.child_wf (objFind_mem hs).2.1).child_wf hnode⟩

/-- **When the loader stores the full strings.** The strings of a file that loads are those of the
configuration exactly when all of them fit their fields. -/
theorem stored_iff_fits {text : CStr} {set : DesiredSet} (h : yamlLoadDesiredSet text = .ok set) :
    ∃ root, cfgLoad text = .ok root ∧
      (List.Forall₂ (fun node ds => ds.strings = sourceStrings node) (stateNodes root) set.val ↔
        ∀ node ∈ stateNodes root, (sourceStrings node).Fits) := by
  rw [yamlLoadDesiredSet, bind_eq_ok] at h
  obtain ⟨root, hroot, h⟩ := h
  refine ⟨root, hroot, ?_⟩
  have hall := loadSet_eq_ok h
  have hwf := stateNodes_wf (cfgLoad_wf hroot).1
  generalize stateNodes root = nodes, set.val = states at hall hwf ⊢
  induction hall with
  | nil => simp
  | @cons node ds nodes states hds _ ih =>
    obtain ⟨d, hw⟩ := hwf node (by simp)
    have hnode : ds.strings = sourceStrings node ↔ (sourceStrings node).Fits := by
      rw [loadState_strings hw hds, Strings.cut_eq_self_iff]
    have hrest := ih fun n hn => hwf n (List.mem_cons_of_mem _ hn)
    rw [List.forall₂_cons, List.forall_mem_cons]
    exact and_congr hnode hrest

/-- An uplink in a bridge. -/
def bridgeText : CStr := unlines [
  "scenario = uplink_bridge", "bridge.name = br0", "bridge.addr = 10.0.0.1/24",
  "uplink.ifname = eth0"]

theorem bridgeText_stored : ∃ set root, yamlLoadDesiredSet bridgeText = .ok set ∧
    cfgLoad bridgeText = .ok root ∧
    List.Forall₂ (fun node ds => ds.strings = sourceStrings node) (stateNodes root) set.val := by
  have hload : (yamlLoadDesiredSet bridgeText).toOption.isSome := by decide +kernel
  cases hset : yamlLoadDesiredSet bridgeText with
  | error e => simp [hset, Except.toOption] at hload
  | ok set =>
    obtain ⟨root, hroot, hiff⟩ := stored_iff_fits hset
    have hfits : (cfgLoad bridgeText).map (fun root =>
        decide (∀ node ∈ stateNodes root, (sourceStrings node).Fits)) = .ok true := by
      decide +kernel
    rw [hroot] at hfits
    exact ⟨set, root, rfl, hroot, hiff.mpr (of_decide_eq_true (Except.ok.inj hfits))⟩

/-- An uplink in a bridge whose name is too long. -/
def longNameText : CStr := unlines [
  "scenario = uplink_bridge", "bridge.name = br-guest-network-2", "uplink.ifname = eth0"]

/-- The file loads, with another name for the bridge. -/
theorem longName_cut :
    (cfgLoad longNameText).map (fun root =>
      (stateNodes root).map fun node => (sourceStrings node).brName) =
        .ok ["br-guest-network-2".toList] ∧
    (yamlLoadDesiredSet longNameText).map (fun set =>
      set.val.map fun ds => ds.strings.brName) = .ok ["br-guest-networ".toList] := by
  decide +kernel

end Netrec
