import Netrec.Verify.Argv

/-!
# The DHCP command and the length of commands

The user's DHCP command is a template in which `$iface` stands for the bridge. It is expanded into a
buffer of 256 bytes with a check before each copy, printed like every other command, and split at
blanks. Since `$iface` has no blank in it, and neither has a name that is one word, splitting the
expanded text is expanding the words of the template. Every other command is short because its
fields are.

## Main definitions

* `expandIface`: the template with the name in place of every `$iface`, without a bound

## Main results

* `substIface_eq`: the bounded expansion is the unbounded one, or an error when that does not fit
* `words_expandIface`: the words of an expanded template
* `substIface_argv`: the arguments that a DHCP command is executed with
* `plan_not_cut`: no command is cut
-/

namespace Netrec

open CLib

/-! ## Expanding a template -/

/-- The template with `ifname` in place of every `$iface`, from left to right; what is put in is not
looked at again. -/
def expandIface (ifname : CStr) : CStr → CStr
  | [] => []
  | '$' :: 'i' :: 'f' :: 'a' :: 'c' :: 'e' :: src => ifname ++ expandIface ifname src
  | c :: src => c :: expandIface ifname src

/-- `key` of `subst_iface`. -/
def ifaceKey : CStr := "$iface".toList

variable {ifname : CStr}

@[simp] theorem expandIface_nil : expandIface ifname [] = [] := rfl

theorem expandIface_key (src : CStr) :
    expandIface ifname (ifaceKey ++ src) = ifname ++ expandIface ifname src := rfl

theorem substIface_key (sz n : Nat) (src : CStr) :
    substIface sz ifname n (ifaceKey ++ src) =
      if n + ifname.length ≥ sz then none
      else (substIface sz ifname (n + ifname.length) src).map (ifname ++ ·) := rfl

theorem expandIface_cons {c : Char} {src : CStr} (h : ¬ ifaceKey <+: c :: src) :
    expandIface ifname (c :: src) = c :: expandIface ifname src := by
  rw [expandIface]
  rintro rest rfl rfl
  exact h ⟨rest, rfl⟩

theorem substIface_cons {c : Char} {src : CStr} (h : ¬ ifaceKey <+: c :: src) (sz n : Nat) :
    substIface sz ifname n (c :: src) =
      if n + 1 ≥ sz then none else (substIface sz ifname (n + 1) src).map (c :: ·) := by
  rw [substIface]
  rintro rest rfl rfl
  exact h ⟨rest, rfl⟩

/-- A template is read one `$iface` or one other byte at a time. -/
theorem template_induction {P : CStr → Prop} (hnil : P [])
    (hkey : ∀ src, P src → P (ifaceKey ++ src))
    (hcons : ∀ c src, ¬ ifaceKey <+: c :: src → P src → P (c :: src)) (src : CStr) : P src := by
  induction hn : src.length using Nat.strong_induction_on generalizing src with
  | _ n ih =>
    by_cases hpre : ifaceKey <+: src
    · obtain ⟨rest, rfl⟩ := hpre
      have hlt : rest.length < n := by
        rw [← hn, List.length_append]
        exact Nat.lt_add_of_pos_left (by decide)
      exact hkey rest (ih rest.length hlt rest rfl)
    · cases src with
      | nil => exact hnil
      | cons c src => exact hcons c src hpre (ih src.length (by simp [← hn]) src rfl)

/-- **The bounded expansion** is the unbounded one if it fits behind the `n` bytes written so far,
and an error otherwise. -/
theorem substIface_eq {sz n : Nat} (hn : n < sz) (src : CStr) :
    substIface sz ifname n src =
      if n + (expandIface ifname src).length < sz then some (expandIface ifname src) else none := by
  induction src using template_induction generalizing n with
  | hnil => simp [substIface, hn]
  | hkey src ih =>
    rw [substIface_key, expandIface_key, List.length_append, ← Nat.add_assoc]
    split_ifs with hfull hfits hfits
    · omega
    · rfl
    · rw [ih (by omega), if_pos hfits, Option.map_some]
    · rw [ih (by omega), if_neg hfits, Option.map_none]
  | hcons c src hpre ih =>
    rw [substIface_cons hpre, expandIface_cons hpre, List.length_cons]
    split_ifs with hfull hfits hfits
    · omega
    · rfl
    · rw [ih (by omega), if_pos (by omega), Option.map_some]
    · rw [ih (by omega), if_neg (by omega), Option.map_none]

/-! ## The words of an expanded template -/

/-- A blank is not part of `$iface`, so the two sides of it are expanded on their own. -/
theorem expandIface_append_blank {c : Char} (hc : isBlank c) (a b : CStr) :
    expandIface ifname (a ++ c :: b) = expandIface ifname a ++ c :: expandIface ifname b := by
  have hkey : c ∉ ifaceKey := by
    intro hmem
    have hword : IsWord ifaceKey := by decide
    simp [hword.not_blank c hmem] at hc
  induction a using template_induction with
  | hnil =>
    refine expandIface_cons fun hpre => hkey ?_
    obtain ⟨rest, hrest⟩ := hpre
    cases hrest
    decide
  | hkey a ih => rw [List.append_assoc, expandIface_key, ih, expandIface_key, List.append_assoc]
  | hcons d a hpre ih =>
    have hpre' : ¬ ifaceKey <+: d :: (a ++ c :: b) :=
      fun h => hpre (prefix_of_prefix_append_cons (a := d :: a) h hkey)
    rw [List.cons_append, expandIface_cons hpre', ih, expandIface_cons hpre, List.cons_append]

theorem mem_expandIface {c : Char} {src : CStr} (h : c ∈ expandIface ifname src) :
    c ∈ src ∨ c ∈ ifname := by
  induction src using template_induction with
  | hnil => simp at h
  | hkey src ih =>
    rw [expandIface_key, List.mem_append] at h
    obtain h | h := h
    · exact .inr h
    · exact (ih h).imp_left (List.mem_append_right _)
  | hcons d src hpre ih =>
    rw [expandIface_cons hpre, List.mem_cons] at h
    obtain rfl | h := h
    · exact .inl List.mem_cons_self
    · exact (ih h).imp_left (List.mem_cons_of_mem _)

theorem expandIface_isWord {w : CStr} (hname : IsWord ifname) (hw : IsWord w) :
    IsWord (expandIface ifname w) := by
  refine ⟨?_, fun c hc => ?_⟩
  · have hne := hw.ne_nil
    induction w using template_induction with
    | hnil => exact absurd rfl hne
    | hkey src _ => simp [expandIface_key, hname.ne_nil]
    | hcons c src hpre _ => simp [expandIface_cons hpre]
  · obtain hc | hc := mem_expandIface hc
    · exact hw.not_blank c hc
    · exact hname.not_blank c hc

/-- **Splitting commutes with expanding**: the words of the expanded template are the words of the
template, each expanded. -/
theorem words_expandIface (hname : IsWord ifname) (src : CStr) :
    words (expandIface ifname src) = (words src).map (expandIface ifname) := by
  induction hn : src.length using Nat.strong_induction_on generalizing src with
  | _ n ih =>
    by_cases hblank : ∃ c ∈ src, isBlank c
    · obtain ⟨c, hc, hblank⟩ := hblank
      obtain ⟨a, b, rfl⟩ := List.append_of_mem hc
      rw [List.length_append, List.length_cons] at hn
      rw [expandIface_append_blank hblank, words_append_blank _ _ hblank,
        words_append_blank _ _ hblank, List.map_append, ih a.length (by omega) a rfl,
        ih b.length (by omega) b rfl]
    · cases src with
      | nil => simp
      | cons c src =>
        have hword : IsWord (c :: src) := ⟨by simp, fun d hd => by
          by_contra hd'
          exact hblank ⟨d, hd, by simpa using hd'⟩⟩
        rw [hword.words_eq, (expandIface_isWord hname hword).words_eq, List.map_singleton]

/-! ## Executing the DHCP command -/

/-- **The DHCP command.** Expanding a template fails exactly when the expanded text does not fit 255
bytes. Otherwise the text is complete, and unless it is a comment it is executed with the words of
the template, each expanded, if there are between 1 and 31 of them; otherwise nothing is executed.
-/
theorem substIface_argv (src ifname : CStr) (hname : IsWord ifname) (sys : Sys) :
    (substIface 256 ifname 0 src = none ↔ 255 < (expandIface ifname src).length) ∧
      ∀ cmd, substIface 256 ifname 0 src = some cmd →
        cmd = expandIface ifname src ∧
          (cmd.head? ≠ some '#' →
            (1 ≤ (words src).length ∧ (words src).length ≤ 31 →
              cmdExec cmd sys = ((sys.children sys.forks.length).rc,
                { sys with forks := sys.forks ++ [(words src).map (expandIface ifname)] })) ∧
            ((words src).length = 0 ∨ 31 < (words src).length →
              (cmdExec cmd sys).1 < 0 ∧ (cmdExec cmd sys).2 = sys)) := by
  have hsubst := @substIface_eq ifname 256 0 (by decide) src
  rw [Nat.zero_add] at hsubst
  refine ⟨?_, fun cmd hcmd => ?_⟩
  · rw [hsubst]
    split_ifs with hlen
    · simp; omega
    · simp; omega
  · rw [hsubst] at hcmd
    split_ifs at hcmd with hlen
    obtain rfl := Option.some.inj hcmd
    refine ⟨rfl, fun hhash => ?_⟩
    have htake : (expandIface ifname src).take 255 = expandIface ifname src :=
      List.take_of_length_le (by omega)
    unfold cmdExec cmdSplit
    rw [if_neg hhash, htake, words_expandIface hname, List.length_map]
    refine ⟨fun hwords => ?_, fun hwords => ?_⟩
    · rw [if_neg (by omega)]
      cases hw : words src with
      | nil => simp [hw] at hwords
      | cons w ws => rfl
    · obtain hzero | hmany := hwords
      · rw [List.length_eq_zero_iff.mp hzero]
        exact ⟨(by decide : (-Errno.EINVAL.code : Int) < 0), rfl⟩
      · rw [if_pos (by omega)]
        exact ⟨(by decide : (-Errno.E2BIG.code : Int) < 0), rfl⟩

/-- `udhcpc -n -i $iface` on `br0`. -/
theorem substIface_argv_udhcpc :
    IsWord "br0".toList ∧
      (cmdExec "udhcpc -n -i br0".toList ⟨fun _ => .exited 0, [], []⟩).2.forks =
        [["udhcpc".toList, "-n".toList, "-i".toList, "br0".toList]] := by
  have hword : IsWord "br0".toList := by decide
  obtain ⟨-, hrun⟩ := substIface_argv "udhcpc -n -i $iface".toList "br0".toList hword
    ⟨fun _ => .exited 0, [], []⟩
  obtain ⟨-, hexec⟩ := hrun "udhcpc -n -i br0".toList (by decide)
  refine ⟨hword, ?_⟩
  rw [(hexec (by decide)).1 (by decide)]
  decide

/-! ## The length of commands -/

/-- A command that `act` is called with fits the buffer it is printed into. -/
theorem Emits.render_length {ds : DesiredState} {c : Cmd} (h : Emits ds c) (hdst : c.DstFits) :
    c.render.length ≤ 255 := by
  have hbr := ifName_length_lt ds.brName
  cases h with
  | dhcp text htext =>
    have hsubst := @substIface_eq ds.brName.val 256 0 (by decide) ds.brDhcpCmd.val
    rw [htext] at hsubst
    split_ifs at hsubst with hlen
    rw [Option.some.inj hsubst]
    show (expandIface ds.brName ds.brDhcpCmd).length ≤ 255
    omega
  | dhcpTooLong _ => decide
  | badAddr =>
    have := ds.brAddr.length_lt
    simp [Cmd.render, sprintf]
    omega
  | badGateway =>
    have := addrStr_length_lt ds.brGateway
    simp [Cmd.render, sprintf]
    omega
  | badDns dns | setDns dns =>
    have := addrStr_length_lt dns
    simp [Cmd.render, sprintf]
    omega
  | provideUplink =>
    have := ifName_length_lt ds.upIfname
    simp [Cmd.render, sprintf]
    omega
  | providePort port =>
    have := ifName_length_lt port
    simp [Cmd.render, sprintf]
    omega
  | badPeer =>
    have := addrStr_length_lt ds.wgPeerIp
    simp [Cmd.render, sprintf]
    omega
  | badRemote =>
    have := addrStr_length_lt ds.vxRemote
    simp [Cmd.render, sprintf]
    omega
  | badDst rt =>
    have := rt.dst.length_lt
    simp [Cmd.render, sprintf]
    omega
  | badVia rt =>
    have := addrStr_length_lt rt.via
    simp [Cmd.render, sprintf]
    omega
  | addVxlan =>
    unfold addVxlanCmd at hdst ⊢
    split_ifs at hdst ⊢ <;> exact Cmd.render_length rfl hdst
  | route rt via => cases via <;> exact Cmd.render_length rfl hdst
  | _ => exact Cmd.render_length rfl hdst

/-- What is done for the address of a bridge that is configured by DHCP and has none. -/
theorem checkBridgeAddr_dhcp {ds : DesiredState} {rs : RealState} (hmode : ds.brAddrMode = .dhcp)
    (hmiss : (checkBridgeAddr ds rs).value ≠ 0) :
    (checkBridgeAddr ds rs).acts =
      if (expandIface ds.brName ds.brDhcpCmd).length ≤ 255 then
        [.dhcp ds.brName (expandIface ds.brName ds.brDhcpCmd)]
      else [.comment "# bad yaml bridge.dhcp_cmd too long" []] := by
  have hsubst := @substIface_eq ds.brName.val 256 0 (by decide) ds.brDhcpCmd.val
  unfold checkBridgeAddr at hmiss ⊢
  rw [hmode] at hmiss ⊢
  simp only at hmiss ⊢
  split_ifs at hmiss ⊢ with hany hlen hlen
  · simp at hmiss
  · simp at hmiss
  · rw [hsubst, if_pos (by omega)]
    rfl
  · rw [hsubst, if_neg (by omega)]
    rfl

/-- **No command is cut.** Every command that `act` is called with fits the 255 bytes of its buffer,
and so is printed and executed as a whole. The DHCP command is the complete expansion of its
template, or the comment that says that this is too long. -/
theorem plan_not_cut (ds : DesiredState) (rs : RealState) :
    (∀ c ∈ plan ds rs,
      c.render.length ≤ 255 ∧ c.text = c.render ∧ c.text.take 255 = c.render) ∧
    (ds.brAddrMode = .dhcp → (checkBridgeAddr ds rs).value ≠ 0 →
      (checkBridgeAddr ds rs).acts =
        if (expandIface ds.brName ds.brDhcpCmd).length ≤ 255 then
          [.dhcp ds.brName (expandIface ds.brName ds.brDhcpCmd)]
        else [.comment "# bad yaml bridge.dhcp_cmd too long" []]) := by
  refine ⟨fun c hc => ?_, checkBridgeAddr_dhcp⟩
  have hlen := (plan_emits c hc).render_length (plan_dstFits c hc)
  have htext : c.text = c.render := List.take_of_length_le hlen
  exact ⟨hlen, htext, by rw [htext]; exact htext⟩

/-- A template that fits its field, but not the buffer once it is expanded. -/
def longDhcpState : DesiredState :=
  { DesiredState.zero with
    scenario := cpy _ "uplink_bridge".toList
    brName := cpy _ "br-lan-upstairs".toList
    brAddrMode := .dhcp
    brDhcpCmd := cpy _ (List.replicate 21 ifaceKey).flatten
    upIfname := cpy _ "eth0".toList }

theorem longDhcpState_not_cut :
    longDhcpState.brDhcpCmd.val.length = 126 ∧
      (checkBridgeAddr longDhcpState .zero).acts =
        [.comment "# bad yaml bridge.dhcp_cmd too long" []] ∧
      (Cmd.addBridge longDhcpState.brName).text = (Cmd.addBridge longDhcpState.brName).render := by
  obtain ⟨hall, hdhcp⟩ := plan_not_cut longDhcpState .zero
  have hlen : ¬ (expandIface longDhcpState.brName longDhcpState.brDhcpCmd).length ≤ 255 := by
    decide +kernel
  refine ⟨by decide +kernel, ?_, ?_⟩
  · rw [hdhcp rfl (by decide), if_neg hlen]
  · exact (hall (.addBridge longDhcpState.brName) (by decide)).2.1

end Netrec
