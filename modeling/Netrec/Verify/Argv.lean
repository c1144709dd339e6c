import Netrec.CLib.Words
import Netrec.Verify.Plan
import Netrec.Yaml.Fields

/-!
# Commands as argument vectors

A command is printed into one string and split at blanks again before it is executed. A field that
is not one word, because it is empty or has a blank in it, becomes no argument or several. Nothing
in front of the verifier keeps such fields out; addresses are checked where they are used, but a
prefix length may have blanks in front of it.

## Main definitions

* `Cmd.template`: the arguments that a command is meant to have
* `Cmd.SplitsRight`: these are the arguments it is executed with
* `DesiredState.ArgWords`: the fields that end up in commands are words

## Main results

* `Cmd.splitsRight_iff`: a command is split right when its arguments are words
* `plan_splitsRight_iff`: all commands of a state are, when its fields are words
-/

namespace Netrec

open CLib

/-! ## Templates -/

/-- The arguments of a command: the words of its template, with one argument for each field.
Comments are not executed, and the DHCP command is the user's own. -/
def Cmd.template : Cmd → Option (List CStr)
  | linkUp dev => some ["ip".toList, "link".toList, "set".toList, dev, "up".toList]
  | linkDel dev => some ["ip".toList, "link".toList, "del".toList, dev]
  | addBridge dev =>
    some ["ip".toList, "link".toList, "add".toList, dev, "type".toList, "bridge".toList]
  | addWireguard dev =>
    some ["ip".toList, "link".toList, "add".toList, dev, "type".toList, "wireguard".toList]
  | addVxlan dev vni remote (some parent) =>
    some ["ip".toList, "link".toList, "add".toList, dev, "type".toList, "vxlan".toList,
      "id".toList, dec vni.toNat, "remote".toList, remote, "dev".toList, parent]
  | addVxlan dev vni remote none =>
    some ["ip".toList, "link".toList, "add".toList, dev, "type".toList, "vxlan".toList,
      "id".toList, dec vni.toNat, "remote".toList, remote]
  | addVlan link dev id =>
    some ["ip".toList, "link".toList, "add".toList, "link".toList, link, "name".toList, dev,
      "type".toList, "vlan".toList, "id".toList, dec id.toNat]
  | setMaster dev br => some ["ip".toList, "link".toList, "set".toList, dev, "master".toList, br]
  | addrAdd addr dev => some ["ip".toList, "addr".toList, "add".toList, addr, "dev".toList, dev]
  | routeReplace dst (some via) dev =>
    some ["ip".toList, "route".toList, "replace".toList, dst, "via".toList, via, "dev".toList, dev]
  | routeReplace dst none dev =>
    some ["ip".toList, "route".toList, "replace".toList, dst, "dev".toList, dev]
  | dhcp _ _ => none
  | comment _ _ => none

/-- The command is split into the arguments it is meant to have. -/
def Cmd.SplitsRight (c : Cmd) : Prop := ∀ argv ∈ c.template, cmdSplit 32 c.text = .ok argv

instance (c : Cmd) : Decidable c.SplitsRight :=
  inferInstanceAs (Decidable (∀ argv ∈ c.template, _))

/-- The text of a command is its arguments with blanks between them. -/
theorem Cmd.render_eq {c : Cmd} {argv : List CStr} (h : c.template = some argv) :
    c.render = [' '].intercalate argv := by
  cases c with
  | addVxlan dev vni remote parent =>
    cases parent <;> obtain rfl := Option.some.inj h <;>
      simp [Cmd.render, sprintf, List.intercalate_cons_cons]
  | routeReplace dst via dev =>
    cases via <;> obtain rfl := Option.some.inj h <;>
      simp [Cmd.render, sprintf, List.intercalate_cons_cons]
  | dhcp dev text => cases h
  | comment fmt args => cases h
  | _ =>
    obtain rfl := Option.some.inj h
    simp [Cmd.render, sprintf, List.intercalate_cons_cons]

theorem dec_isWord (n : Nat) : IsWord (dec n) := by
  refine ⟨dec_ne_nil n, fun c hc => ?_⟩
  have hdigit := isDigit_of_mem_dec hc
  by_contra hblank
  rw [Bool.not_eq_false] at hblank
  simp only [isBlank, Bool.or_eq_true, decide_eq_true_eq] at hblank
  obtain rfl | rfl := hblank <;> exact absurd hdigit (by decide)

theorem dec_length_le (n : UInt32) : (dec n.toNat).length ≤ 10 := by
  refine (Nat.length_toDigits_le_iff (by decide) (by decide)).mpr ?_
  have := n.toNat_lt
  omega

theorem ifName_length_lt (name : IfName) : name.val.length < 16 := name.length_lt

theorem addrStr_length_lt (addr : AddrStr) : addr.val.length < 16 := addr.length_lt

/-- The destination of a route fits the field it comes from. -/
def Cmd.DstFits : Cmd → Prop
  | routeReplace dst _ _ => dst.length < 32
  | _ => True

/-- The text of a command with a template fits the buffer. -/
theorem Cmd.render_length {c : Cmd} {argv : List CStr} (h : c.template = some argv)
    (hdst : c.DstFits) : c.render.length ≤ 255 := by
  cases c with
  | addVxlan dev vni remote parent =>
    have := ifName_length_lt dev
    have := addrStr_length_lt remote
    have := dec_length_le vni
    cases parent with
    | none =>
      simp [Cmd.render, sprintf]
      omega
    | some parent =>
      have := ifName_length_lt parent
      simp [Cmd.render, sprintf]
      omega
  | routeReplace dst via dev =>
    have := ifName_length_lt dev
    have hdst' : dst.length < 32 := hdst
    cases via with
    | none =>
      simp [Cmd.render, sprintf]
      omega
    | some via =>
      have := addrStr_length_lt via
      simp [Cmd.render, sprintf]
      omega
  | addVlan link dev id =>
    have := ifName_length_lt link
    have := ifName_length_lt dev
    have := dec_length_le id
    simp [Cmd.render, sprintf]
    omega
  | setMaster dev br =>
    have := ifName_length_lt dev
    have := ifName_length_lt br
    simp [Cmd.render, sprintf]
    omega
  | addrAdd addr dev =>
    have := addr.length_lt
    have := ifName_length_lt dev
    simp [Cmd.render, sprintf]
    omega
  | linkUp dev | linkDel dev | addBridge dev | addWireguard dev =>
    have := ifName_length_lt dev
    simp [Cmd.render, sprintf]
    omega
  | dhcp dev text => cases h
  | comment fmt args => cases h

theorem Cmd.template_length {c : Cmd} {argv : List CStr} (h : c.template = some argv) :
    argv.length < 32 := by
  cases c with
  | addVxlan dev vni remote parent =>
    cases parent <;> obtain rfl := Option.some.inj h <;> simp
  | routeReplace dst via dev =>
    cases via <;> obtain rfl := Option.some.inj h <;> simp
  | dhcp dev text => cases h
  | comment fmt args => cases h
  | _ =>
    obtain rfl := Option.some.inj h
    simp

/-- The arguments of a command are words. -/
def Cmd.WordArgs (c : Cmd) : Prop := ∀ argv ∈ c.template, ∀ w ∈ argv, IsWord w

/-- **A command is split right exactly when its arguments are words.** -/
theorem Cmd.splitsRight_iff {c : Cmd} (hdst : c.DstFits) : c.SplitsRight ↔ c.WordArgs := by
  refine forall₂_congr fun argv h => ?_
  have htext : c.text = [' '].intercalate argv := by
    rw [Cmd.text, List.take_of_length_le (Cmd.render_length h hdst), Cmd.render_eq h]
  have hlen := Cmd.template_length h
  rw [← words_intercalate_iff, htext]
  unfold cmdSplit
  constructor
  · intro hsplit
    split_ifs at hsplit
    exact Except.ok.inj hsplit
  · intro hwords
    rw [hwords, if_neg (by omega)]

section WordArgs

variable {dev br link parent : IfName} {vni id : UInt32} {remote via : AddrStr} {addr : CBuf 32}

@[simp] theorem wordArgs_linkUp : (Cmd.linkUp dev).WordArgs ↔ IsWord dev := by
  simp +decide [Cmd.WordArgs, Cmd.template]

@[simp] theorem wordArgs_linkDel : (Cmd.linkDel dev).WordArgs ↔ IsWord dev := by
  simp +decide [Cmd.WordArgs, Cmd.template]

@[simp] theorem wordArgs_addBridge : (Cmd.addBridge dev).WordArgs ↔ IsWord dev := by
  simp +decide [Cmd.WordArgs, Cmd.template]

@[simp] theorem wordArgs_addWireguard : (Cmd.addWireguard dev).WordArgs ↔ IsWord dev := by
  simp +decide [Cmd.WordArgs, Cmd.template]

@[simp] theorem wordArgs_addVxlan {p : Option IfName} : (Cmd.addVxlan dev vni remote p).WordArgs ↔
    IsWord dev ∧ IsWord remote ∧ ∀ parent ∈ p, IsWord parent := by
  cases p <;> simp +decide [Cmd.WordArgs, Cmd.template, dec_isWord]

@[simp] theorem wordArgs_addVlan :
    (Cmd.addVlan link dev id).WordArgs ↔ IsWord link ∧ IsWord dev := by
  simp +decide [Cmd.WordArgs, Cmd.template, dec_isWord]

@[simp] theorem wordArgs_setMaster : (Cmd.setMaster dev br).WordArgs ↔ IsWord dev ∧ IsWord br := by
  simp +decide [Cmd.WordArgs, Cmd.template]

@[simp] theorem wordArgs_addrAdd : (Cmd.addrAdd addr dev).WordArgs ↔ IsWord addr ∧ IsWord dev := by
  simp +decide [Cmd.WordArgs, Cmd.template]

@[simp] theorem wordArgs_routeReplace {dst : CStr} {v : Option AddrStr} :
    (Cmd.routeReplace dst v dev).WordArgs ↔
      IsWord dst ∧ (∀ via ∈ v, IsWord via) ∧ IsWord dev := by
  cases v <;> simp +decide [Cmd.WordArgs, Cmd.template]

@[simp] theorem wordArgs_dhcp {text : CStr} : (Cmd.dhcp dev text).WordArgs := nofun

@[simp] theorem wordArgs_comment {fmt : String} {args : List CStr} :
    (Cmd.comment fmt args).WordArgs := nofun

end WordArgs

/-! ## Fields -/

/-- The fields of the bridge and its ports that end up in commands are words. -/
def DesiredState.BridgeWords (ds : DesiredState) : Prop :=
  IsWord ds.brName ∧
    (ds.brAddrMode = .static → (parseAddrPrefix ds.brAddr).isSome → IsWord ds.brAddr) ∧
    ∀ port ∈ ds.brPorts.val, IsWord port

/-- The fields of a scenario that end up in commands are words. -/
def Scenario.ArgWords (ds : DesiredState) : Scenario → Prop
  | .onlyUplink => IsWord ds.upIfname
  | .uplinkBridge => ds.BridgeWords ∧ IsWord ds.upIfname
  | .vlanBridge =>
    ds.BridgeWords ∧ IsWord ds.upIfname ∧ IsWord ds.vlanIfname ∧ IsWord ds.vlanLink ∧
      IsWord ds.vlanBridge
  | .wgVxlanBridge =>
    ds.BridgeWords ∧ (ds.upIfname.val ≠ [] → IsWord ds.upIfname) ∧
      ((parseIp4 ds.wgPeerIp).isSome → IsWord ds.wgRouteDev) ∧ IsWord ds.wgIfname ∧
      IsWord ds.vxIfname ∧ IsWord ds.vxRemote ∧ (ds.vxDev.val ≠ [] → IsWord ds.vxDev) ∧
      IsWord ds.vxBridge

/-- The fields of a route that is used are words. -/
def DesiredRoute4.ArgWords (rt : DesiredRoute4) : Prop :=
  (parseAddrPrefix rt.dst).isSome → (parseVia rt).isSome → IsWord rt.dst ∧ IsWord rt.dev

/-- The fields that end up in commands are words. -/
def DesiredState.ArgWords (ds : DesiredState) : Prop :=
  match Scenario.ofName ds.scenario with
  | none => True
  | some scn => scn.ArgWords ds ∧ ∀ rt ∈ ds.routes.val, rt.ArgWords

/-! ## Parts of a plan -/

/-- A part of a plan has word arguments over every snapshot. -/
def AllWords (part : RealState → List Cmd) : Prop := ∀ rs, ∀ c ∈ part rs, c.WordArgs

theorem allWords_append {p q : RealState → List Cmd} :
    AllWords (fun rs => p rs ++ q rs) ↔ AllWords p ∧ AllWords q := by
  simp only [AllWords, List.forall_mem_append, forall_and]

theorem allWords_flatMap {α : Type} {l : List α} {f : RealState → α → List Cmd} :
    AllWords (fun rs => l.flatMap (f rs)) ↔ ∀ a ∈ l, AllWords fun rs => f rs a := by
  simp only [AllWords, List.mem_flatMap]
  exact ⟨fun h a ha rs c hc => h rs c ⟨a, ha, hc⟩, fun h rs c ⟨a, ha, hc⟩ => h a ha rs c hc⟩

/-- A snapshot with one interface, which is down and has no master. -/
def soleIface (name : IfName) : RealState :=
  { RealState.zero with
    ifaces := [{ name, kind := .empty, ifindex := 1, flags := 0, master := 0 }] }

theorem rsFindIface_soleIface (name other : IfName) :
    rsFindIface (soleIface name) other =
      if name = other then some { name, kind := .empty, ifindex := 1, flags := 0, master := 0 }
      else none := by
  simp only [rsFindIface, soleIface, List.find?_cons, List.find?_nil]
  by_cases h : name = other <;> simp [h]

@[simp] theorem rsFindIface_zero (name : IfName) : rsFindIface .zero name = none := rfl

@[simp] theorem rsFindVlan_zero (name : IfName) : rsFindVlan .zero name = none := rfl

@[simp] theorem rsFindVxlan_zero (name : IfName) : rsFindVxlan .zero name = none := rfl

theorem inetPton_isWord {s : CStr} {a : UInt32} (h : inetPton s = some a) : IsWord s := by
  refine ⟨?_, fun c hc => ?_⟩
  · rintro rfl
    cases h
  · by_contra hblank
    rw [Bool.not_eq_false] at hblank
    simp only [isBlank, Bool.or_eq_true, decide_eq_true_eq] at hblank
    have hchar := inetPton_chars h hc
    obtain rfl | rfl := hblank <;> exact absurd hchar (by decide)

theorem parseIp4_isWord {s : CStr} (h : (parseIp4 s).isSome) : IsWord s := by
  obtain ⟨a, ha⟩ := Option.isSome_iff_exists.mp h
  exact inetPton_isWord ha

section Parts

variable {ds : DesiredState}

theorem upActs_words {name : IfName} : AllWords (fun rs => upActs rs name) ↔ IsWord name := by
  refine ⟨fun h => ?_, fun h rs => upActs_all (wordArgs_linkUp.mpr h)⟩
  have hup : upActs (soleIface name) name = [.linkUp name] := by
    rw [upActs, rsFindIface_soleIface, if_pos rfl]
    simp [Iface.isUp]
  exact wordArgs_linkUp.mp (h (soleIface name) _ (by simp [hup]))

theorem masterActs_words {name br : IfName} :
    AllWords (fun rs => masterActs rs name br) ↔ IsWord name ∧ IsWord br := by
  refine ⟨fun h => ?_, fun h rs => masterActs_all (wordArgs_setMaster.mpr h)⟩
  have hmaster : masterActs (soleIface name) name br = [.setMaster name br] := by
    rw [masterActs, rsFindIface_soleIface, rsFindIface_soleIface, if_pos rfl]
    by_cases hbr : name = br <;> simp [hbr]
  exact wordArgs_setMaster.mp (h (soleIface name) _ (by simp [hmaster]))

theorem bridgeActs_words : AllWords (bridgeActs ds) ↔ IsWord ds.brName := by
  refine ⟨fun h => ?_, fun h rs => ?_⟩
  · exact wordArgs_addBridge.mp (h .zero (.addBridge ds.brName) List.mem_cons_self)
  · exact bridgeActs_all (wordArgs_linkUp.mpr h) (wordArgs_addBridge.mpr h)
      fun _ => wordArgs_linkDel.mpr h

theorem addrActs_words (hbr : IsWord ds.brName) : AllWords (addrActs ds) ↔
    (ds.brAddrMode = .static → (parseAddrPrefix ds.brAddr).isSome → IsWord ds.brAddr) := by
  refine ⟨fun h hmode hparse => ?_, fun h rs => ?_⟩
  · obtain ⟨ap, hap⟩ := Option.isSome_iff_exists.mp hparse
    have hmem : .addrAdd ds.brAddr ds.brName ∈ addrActs ds .zero := by simp [addrActs, hmode, hap]
    exact (wordArgs_addrAdd.mp (h .zero _ hmem)).1
  · exact addrActs_all (fun _ => wordArgs_comment) (fun _ _ => wordArgs_dhcp) wordArgs_comment
      fun hmode hparse => wordArgs_addrAdd.mpr ⟨h hmode hparse, hbr⟩

theorem gatewayActs_words (hbr : IsWord ds.brName) : AllWords (gatewayActs ds) := by
  refine fun rs => gatewayActs_all wordArgs_comment fun hgw => ?_
  exact wordArgs_routeReplace.mpr ⟨by decide, by simpa using parseIp4_isWord hgw, hbr⟩

theorem dnsActs_words {dns : AddrStr} : AllWords (fun rs => dnsActs ds rs dns) :=
  fun _ => dnsActs_all wordArgs_comment wordArgs_comment

theorem uplinkActs_words : AllWords (uplinkActs ds) ↔ IsWord ds.upIfname := by
  rw [← upActs_words]
  refine forall_congr' fun rs => ?_
  unfold uplinkActs
  split
  · -- an interface that is not there is not set up
    rename_i hnone
    have hup : upActs rs ds.upIfname = [] := by
      rw [upActs, Option.isNone_iff_eq_none.mp hnone]
      rfl
    simp [hup]
  · rfl

theorem portActs_words {port : IfName} (hbr : IsWord ds.brName) :
    AllWords (fun rs => portActs ds rs port) ↔ IsWord port := by
  have hiff : AllWords (fun rs => portActs ds rs port) ↔
      AllWords fun rs => upActs rs port ++ masterActs rs port ds.brName := by
    refine forall_congr' fun rs => ?_
    show (∀ c ∈ portActs ds rs port, c.WordArgs) ↔ _
    unfold portActs
    split
    · rename_i hnone
      rw [Option.isNone_iff_eq_none] at hnone
      simp [upActs, masterActs, hnone]
    · rfl
  rw [hiff, allWords_append, upActs_words, masterActs_words]
  tauto

theorem hostDst_isWord {ip : CStr} (h : IsWord ip) : IsWord (hostDst ip) := by
  refine ⟨by simp [hostDst], fun c hc => ?_⟩
  obtain hc | hc := List.mem_append.mp hc
  · exact h.not_blank c hc
  · exact (by decide : IsWord "/32".toList).not_blank c hc

theorem peerRouteActs_words : AllWords (peerRouteActs ds) ↔
    ((parseIp4 ds.wgPeerIp).isSome → IsWord ds.wgRouteDev) := by
  refine ⟨fun h hip => ?_, fun h rs => ?_⟩
  · obtain ⟨ip, hparse⟩ := Option.isSome_iff_exists.mp hip
    have hmem : .routeReplace (hostDst ds.wgPeerIp) none ds.wgRouteDev ∈ peerRouteActs ds .zero := by
      simp [peerRouteActs, hparse]
    exact (wordArgs_routeReplace.mp (h .zero _ hmem)).2.2
  · refine peerRouteActs_all wordArgs_comment fun hip => ?_
    exact wordArgs_routeReplace.mpr ⟨hostDst_isWord (parseIp4_isWord hip), by simp, h hip⟩

theorem wgActs_words : AllWords (wgActs ds) ↔ IsWord ds.wgIfname := by
  refine ⟨fun h => ?_, fun h rs => ?_⟩
  · exact wordArgs_addWireguard.mp (h .zero (.addWireguard ds.wgIfname) List.mem_cons_self)
  · exact wgActs_all (wordArgs_addWireguard.mpr h) (wordArgs_linkUp.mpr h)

theorem vlanActs_words : AllWords (vlanActs ds) ↔
    IsWord ds.vlanIfname ∧ IsWord ds.vlanLink ∧ IsWord ds.vlanBridge := by
  constructor
  · intro h
    -- with nothing there, the VLAN is created
    have hadd := wordArgs_addVlan.mp (h .zero (.addVlan ds.vlanLink ds.vlanIfname ds.vlanId)
      (by simp [vlanActs, vlanKept, recreate]))
    have hmaster := wordArgs_setMaster.mp
      (h .zero (.setMaster ds.vlanIfname ds.vlanBridge) (by simp [vlanActs, vlanKept, recreate]))
    exact ⟨hadd.2, hadd.1, hmaster.2⟩
  · rintro ⟨hdev, hlink, hbr⟩ rs
    exact vlanActs_all (wordArgs_addVlan.mpr ⟨hlink, hdev⟩) (wordArgs_linkUp.mpr hdev)
      (wordArgs_setMaster.mpr ⟨hdev, hbr⟩) fun _ _ => wordArgs_linkDel.mpr hdev

theorem addVxlanCmd_words : (addVxlanCmd ds).WordArgs ↔
    IsWord ds.vxIfname ∧ IsWord ds.vxRemote ∧ (ds.vxDev.val ≠ [] → IsWord ds.vxDev) := by
  unfold addVxlanCmd
  rw [wordArgs_addVxlan]
  by_cases hdev : ds.vxDev.val = [] <;> simp [hdev]

theorem vxlanActs_words : AllWords (vxlanActs ds) ↔
    IsWord ds.vxIfname ∧ IsWord ds.vxRemote ∧ (ds.vxDev.val ≠ [] → IsWord ds.vxDev) ∧
      IsWord ds.vxBridge := by
  constructor
  · intro h
    have hadd := addVxlanCmd_words.mp
      (h .zero (addVxlanCmd ds) (by simp [vxlanActs, vxlanKept, recreate]))
    have hmaster := wordArgs_setMaster.mp
      (h .zero (.setMaster ds.vxIfname ds.vxBridge) (by simp [vxlanActs, vxlanKept, recreate]))
    exact ⟨hadd.1, hadd.2.1, hadd.2.2, hmaster.2⟩
  · rintro ⟨hif, hremote, hdev, hbr⟩ rs
    exact vxlanActs_all wordArgs_comment
      (addVxlanCmd_words.mpr ⟨hif, hremote, hdev⟩) (wordArgs_linkUp.mpr hif)
      (wordArgs_setMaster.mpr ⟨hif, hbr⟩) fun _ _ => wordArgs_linkDel.mpr hif

/-- A gateway that is given has been read as an address. -/
theorem parseVia_isWord {rt : DesiredRoute4} (h : (parseVia rt).isSome) :
    ∀ via ∈ (if rt.hasVia then some rt.via else none), IsWord via.val := by
  unfold parseVia at h
  cases hhas : rt.hasVia with
  | false => simp
  | true =>
    rw [hhas, if_pos rfl] at h
    simpa using parseIp4_isWord h

theorem routeActs_words {rt : DesiredRoute4} :
    AllWords (fun rs => routeActs rs rt) ↔ rt.ArgWords := by
  refine ⟨fun h hdst hvia => ?_, fun h rs => ?_⟩
  · obtain ⟨dp, hdp⟩ := Option.isSome_iff_exists.mp hdst
    obtain ⟨v, hv⟩ := Option.isSome_iff_exists.mp hvia
    have hmem : .routeReplace rt.dst (if rt.hasVia then some rt.via else none) rt.dev ∈
        routeActs .zero rt := by
      simp [routeActs, hdp, hv]
    obtain ⟨hdst', -, hdev⟩ := wordArgs_routeReplace.mp (h .zero _ hmem)
    exact ⟨hdst', hdev⟩
  · refine routeActs_all wordArgs_comment wordArgs_comment fun hdst hvia => ?_
    exact wordArgs_routeReplace.mpr
      ⟨(h hdst hvia).1, parseVia_isWord hvia, (h hdst hvia).2⟩

end Parts

/-! ## Plans -/

theorem bridgePart_words {ds : DesiredState} (hbr : IsWord ds.brName) :
    AllWords (bridgePart ds) ↔
      (ds.brAddrMode = .static → (parseAddrPrefix ds.brAddr).isSome → IsWord ds.brAddr) := by
  have hdns : AllWords fun rs => ds.brDns.val.flatMap (dnsActs ds rs) :=
    allWords_flatMap.mpr fun dns _ => dnsActs_words
  unfold bridgePart
  rw [allWords_append, allWords_append, allWords_append, bridgeActs_words, addrActs_words hbr]
  exact ⟨fun h => h.2.1, fun h => ⟨hbr, h, gatewayActs_words hbr, hdns⟩⟩

theorem bridgeWords_iff {ds : DesiredState} :
    (AllWords (bridgePart ds) ∧ AllWords fun rs => ds.brPorts.val.flatMap (portActs ds rs)) ↔
      ds.BridgeWords := by
  unfold DesiredState.BridgeWords
  constructor
  · rintro ⟨hpart, hports⟩
    have hbr : IsWord ds.brName := bridgeActs_words.mp (allWords_append.mp hpart).1
    refine ⟨hbr, (bridgePart_words hbr).mp hpart, fun port hp => ?_⟩
    exact (portActs_words hbr).mp (allWords_flatMap.mp hports port hp)
  · rintro ⟨hbr, haddr, hports⟩
    exact ⟨(bridgePart_words hbr).mpr haddr,
      allWords_flatMap.mpr fun port hp => (portActs_words hbr).mpr (hports port hp)⟩

theorem uplinkPart_words {ds : DesiredState} :
    AllWords (fun rs => if ds.upIfname.val ≠ [] then uplinkActs ds rs else []) ↔
      (ds.upIfname.val ≠ [] → IsWord ds.upIfname) := by
  by_cases hup : ds.upIfname.val = []
  · simp [hup, AllWords]
  · simp only [hup, ne_eq, not_false_eq_true, if_true, true_implies]
    exact uplinkActs_words

/-- **The commands of a scenario have word arguments** over every snapshot exactly when the fields
in them are words. -/
theorem Scenario.acts_words {ds : DesiredState} (scn : Scenario) :
    AllWords (fun rs => scn.acts ds rs) ↔ scn.ArgWords ds := by
  cases scn with
  | onlyUplink => exact uplinkActs_words
  | uplinkBridge =>
    simp only [Scenario.acts, Scenario.ArgWords, ← bridgeWords_iff, allWords_append,
      uplinkActs_words, masterActs_words]
    constructor
    · rintro ⟨hb, hu, -, hp⟩
      exact ⟨⟨hb, hp⟩, hu⟩
    · rintro ⟨⟨hb, hp⟩, hu⟩
      exact ⟨hb, hu, ⟨hu, bridgeActs_words.mp (allWords_append.mp hb).1⟩, hp⟩
  | vlanBridge =>
    simp only [Scenario.acts, Scenario.ArgWords, ← bridgeWords_iff, allWords_append,
      uplinkActs_words, vlanActs_words]
    tauto
  | wgVxlanBridge =>
    simp only [Scenario.acts, Scenario.ArgWords, ← bridgeWords_iff, allWords_append,
      uplinkPart_words, peerRouteActs_words, wgActs_words, vxlanActs_words]
    tauto

/-- Destinations of routes are short: one of the route section is bounded by its field, and the
address of a peer has a prefix length of two digits put behind it. -/
theorem plan_dstFits {ds : DesiredState} {rs : RealState} : ∀ c ∈ plan ds rs, c.DstFits := by
  intro c hc
  cases plan_emits c hc with
  | gateway => exact (by decide : defaultDst.length < 32)
  | peerRoute =>
    have hip := addrStr_length_lt ds.wgPeerIp
    have hslash : (hostDst ds.wgPeerIp).length = ds.wgPeerIp.val.length + 3 := List.length_append
    show (hostDst ds.wgPeerIp).length < 32
    omega
  | route rt via => exact rt.dst.length_lt
  | _ => trivial

/-- **When the commands of a state are split right.** Over every snapshot, every command of the plan
is executed with the arguments of its template exactly when the fields that end up in commands are
words. -/
theorem plan_splitsRight_iff (ds : DesiredState) :
    (∀ rs, ∀ c ∈ plan ds rs, c.SplitsRight) ↔ ds.ArgWords := by
  have hwords : (∀ rs, ∀ c ∈ plan ds rs, c.SplitsRight) ↔ AllWords (plan ds) :=
    forall_congr' fun rs => forall₂_congr fun c hc => Cmd.splitsRight_iff (plan_dstFits c hc)
  rw [hwords]
  unfold DesiredState.ArgWords
  cases hs : Scenario.ofName ds.scenario with
  | none => simp [AllWords, plan_of_unsupported hs]
  | some scn =>
    have hplan : plan ds = fun rs => scn.acts ds rs ++ ds.routes.val.flatMap (routeActs rs) :=
      funext fun rs => plan_eq hs
    rw [hplan, allWords_append, allWords_flatMap, Scenario.acts_words]
    simp only [routeActs_words]

/-- A bridge with a blank in its name. -/
def blankNameText : CStr := unlines [
  "scenario = uplink_bridge", "bridge.name = br0 up", "uplink.ifname = eth0"]

/-- The state that `blankNameText` describes. -/
def blankNameState : DesiredState :=
  { DesiredState.zero with
    scenario := cpy _ "uplink_bridge".toList
    brName := cpy _ "br0 up".toList
    upIfname := cpy _ "eth0".toList }

theorem blankNameState_not_splitsRight :
    (yamlLoadDesiredSet blankNameText).map Subtype.val = .ok [blankNameState] ∧
      .addBridge blankNameState.brName ∈ plan blankNameState .zero ∧
      (Cmd.addBridge blankNameState.brName).template = some ["ip".toList, "link".toList,
        "add".toList, "br0 up".toList, "type".toList, "bridge".toList] ∧
      cmdSplit 32 (Cmd.addBridge blankNameState.brName).text = .ok ["ip".toList, "link".toList,
        "add".toList, "br0".toList, "up".toList, "type".toList, "bridge".toList] ∧
      ¬ (Cmd.addBridge blankNameState.brName).SplitsRight := by
  decide +kernel

end Netrec
