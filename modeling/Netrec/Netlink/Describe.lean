import Netrec.Kernel
import Netrec.Netlink.Attributes

/-!
# What the kernel tells about itself

The kernel answers the three requests of `nl_load_state` with messages that describe its links,
addresses and routes. A description is a list of attributes that has, among others and in any order,
those the program reads, written as the kernel writes them: names with a terminator, numbers in the
byte order of the machine, addresses in network order, the attributes of a kind of link inside those
of the link. Between the messages that describe something there may be others, of another dump, of
another family or of another routing table, and `recv` may be interrupted.

The tables that are filled from such answers are the snapshot of the kernel. So what the verifier
compares with the desired state is the state of the kernel, as long as it fits the tables; a kernel
with more links, addresses or routes than that is refused as a whole.

## Main definitions

* `payload?`: the payload of the last attribute of a type
* `Describes`, `DescribesKind`: attributes that describe a link
* `LinkMsg`, `AddrMsg`, `RouteMsg`: messages that describe a link, an address or a route
* `Tells`: the messages of a dump and the entries they describe
* `Answers`: a socket on which a kernel answers

## Main results

* `parseRtattr_payload`: the table of encoded attributes holds their payloads
* `ifaceEntry_of_describes`, `vxlanEntry_of_describes`, `vlanEntry_of_describes`: what a description
  of a link is read as
* `nlLoadState_answers`: the snapshot that `nl_load_state` takes is the one of the kernel
-/

namespace Netrec

open CLib

/-! ## Numbers in messages -/

/-- An `int` in the byte order of the machine. -/
def intBytes (i : Int) : Bytes := leBytes 4 (i % 2 ^ 32).toNat

/-- An IPv4 address in network byte order. -/
def ip4Bytes (a : UInt32) : Bytes := (leBytes 4 a.toNat).reverse

/-- The values of an `int`. -/
def IsS32 (i : Int) : Prop := -2 ^ 31 ≤ i ∧ i < 2 ^ 31

instance (i : Int) : Decidable (IsS32 i) := inferInstanceAs (Decidable (_ ∧ _))

theorem length_intBytes (i : Int) : (intBytes i).length = 4 := length_leBytes 4 _

theorem length_ip4Bytes (a : UInt32) : (ip4Bytes a).length = 4 := by
  rw [ip4Bytes, List.length_reverse, length_leBytes]

theorem s32_intBytes {i : Int} (h : IsS32 i) (t : Bytes) : s32 (leNat 4 (intBytes i ++ t)) = i := by
  obtain ⟨hlo, hhi⟩ := h
  rw [intBytes, leNat_leBytes, s32]
  split_ifs <;> omega

theorem beNat_ip4Bytes (a : UInt32) (t : Bytes) : beNat 4 (ip4Bytes a ++ t) = a.toNat := by
  have hlt := a.toNat_lt
  have hbytes : ip4Bytes a = [UInt8.ofNat (a.toNat / 256 / 256 / 256),
      UInt8.ofNat (a.toNat / 256 / 256), UInt8.ofNat (a.toNat / 256), UInt8.ofNat a.toNat] := rfl
  rw [beNat, List.take_left' (length_ip4Bytes a), hbytes]
  simp only [List.foldl_cons, List.foldl_nil, UInt8.toNat_ofNat']
  omega

/-! ## Attributes and their payloads -/

/-- The payload of the last attribute of a type, which is the one that a table keeps. -/
def payload? (as : List Attr) (k : Nat) : Option Bytes :=
  (as.reverse.find? fun a => a.key = k).map Attr.payload

/-- An attribute in memory with the given payload. -/
def Carries (rta p : Bytes) : Prop := rtaPayload rta = p.length ∧ p <+: rtaData rta

theorem Attr.carries (a : Attr) (t : Bytes) : Carries (a.bytes ++ t) a.payload := by
  refine ⟨a.rtaPayload_bytes t, ?_⟩
  have h := a.rtaData_bytes t
  rw [← h]
  exact List.take_prefix _ _

/-- **The table of encoded attributes holds their payloads**, whatever follows them in memory. -/
theorem parseRtattr_payload {max k : Nat} (hk : k ≤ max) (as : List Attr) (t : Bytes) :
    Option.Rel Carries (parseRtattr max (encodeAttrs as ++ t) (encodeAttrs as).length k)
      (payload? as k) := by
  unfold payload?
  cases hfind : as.reverse.find? fun a => a.key = k with
  | none =>
    have hnone : ∀ a ∈ as, a.key ≠ k := by simpa using hfind
    rw [parseRtattr_absent hnone]
    exact .none
  | some a =>
    obtain ⟨ha, l₁, l₂, hsplit, hl₁⟩ := List.find?_eq_some_iff_append.mp hfind
    obtain rfl : a.key = k := by simpa using ha
    have has : as = l₂.reverse ++ a :: l₁.reverse := by
      rw [← List.reverse_reverse as, hsplit]
      simp
    rw [has, parseRtattr_last hk fun b hb => by simpa using hl₁ b (List.mem_reverse.mp hb)]
    rw [encodeAttrs, List.map_cons, List.flatten_cons, List.append_assoc]
    exact .some (a.carries _)

section Entries

variable {e : Option Bytes} {p : Bytes}

theorem eq_none_of_rel (h : Option.Rel Carries e none) : e = none := by
  cases h
  rfl

theorem exists_of_rel (h : Option.Rel Carries e (some p)) :
    ∃ rta, e = some rta ∧ Carries rta p := by
  cases h with
  | some h => exact ⟨_, rfl, h⟩

/-- The data of an entry that carries a payload. -/
theorem attrData_of_carries (h : Option.Rel Carries e (some p)) {n : Nat} (hn : n ≤ p.length) :
    ∃ t, attrData n e = some (p ++ t) := by
  obtain ⟨rta, rfl, hlen, t, ht⟩ := exists_of_rel h
  refine ⟨t, ?_⟩
  rw [attrData, Option.bind_some, hlen, if_pos (by omega), ht]

theorem attrData_of_absent (h : Option.Rel Carries e none) (n : Int) : attrData n e = none := by
  rw [eq_none_of_rel h]
  rfl

theorem attrNat_leBytes {n v : Nat} (h : Option.Rel Carries e (some (leBytes n v))) :
    attrNat n e = some (v % 256 ^ n) := by
  obtain ⟨t, ht⟩ := attrData_of_carries h (length_leBytes n v).ge
  rw [attrNat, ht, Option.map_some, leNat_leBytes]

theorem attrIndex_intBytes {i : Int} (hi : IsS32 i) (h : Option.Rel Carries e (some (intBytes i))) :
    attrIndex e = some i := by
  obtain ⟨t, ht⟩ := attrData_of_carries h (length_intBytes i).ge
  have hnat : attrNat 4 e = some (leNat 4 (intBytes i ++ t)) := by
    rw [attrNat, ht, Option.map_some]
  rw [attrIndex, hnat, Option.map_some, s32_intBytes hi]

theorem attrIp4_ip4Bytes {a : UInt32} (h : Option.Rel Carries e (some (ip4Bytes a))) :
    attrIp4 e = some a := by
  obtain ⟨t, ht⟩ := attrData_of_carries h (length_ip4Bytes a).ge
  have hdata : attrData 4 e = some (ip4Bytes a ++ t) := ht
  rw [attrIp4, hdata, Option.map_some, beNat_ip4Bytes, UInt32.ofNat_toNat]

theorem attrNat_of_absent (h : Option.Rel Carries e none) (n : Nat) : attrNat n e = none := by
  rw [attrNat, attrData_of_absent h, Option.map_none]

theorem attrIndex_of_absent (h : Option.Rel Carries e none) : attrIndex e = none := by
  rw [attrIndex, attrNat_of_absent h, Option.map_none]

theorem attrIp4_of_absent (h : Option.Rel Carries e none) : attrIp4 e = none := by
  rw [attrIp4, attrData_of_absent h, Option.map_none]

/-- An optional `int`. -/
theorem attrIndex_map {i : Option Int} (hi : ∀ x ∈ i, IsS32 x)
    (h : Option.Rel Carries e (i.map intBytes)) : attrIndex e = i := by
  cases i with
  | none => exact attrIndex_of_absent h
  | some x => exact attrIndex_intBytes (hi x rfl) h

/-- An optional number of at most four bytes. -/
theorem attrNat_map {n : Nat} {v : Option UInt32} (hv : ∀ x ∈ v, x.toNat < 256 ^ n)
    (h : Option.Rel Carries e (v.map fun x => leBytes n x.toNat)) :
    (attrNat n e).map UInt32.ofNat = v := by
  cases v with
  | none => rw [attrNat_of_absent h, Option.map_none]
  | some x =>
    rw [attrNat_leBytes h, Option.map_some, Nat.mod_eq_of_lt (hv x rfl), UInt32.ofNat_toNat]

/-- An optional address. -/
theorem attrIp4_map {a : Option UInt32} (h : Option.Rel Carries e (a.map ip4Bytes)) :
    attrIp4 e = a := by
  cases a with
  | none => exact attrIp4_of_absent h
  | some x => exact attrIp4_ip4Bytes h

end Entries

/-- The attributes inside an attribute. -/
theorem nested_payload {rta : Bytes} {as : List Attr} (h : Carries rta (encodeAttrs as))
    {max k : Nat} (hk : k ≤ max) :
    Option.Rel Carries (parseRtattr max (rtaData rta) (rtaPayload rta) k) (payload? as k) := by
  obtain ⟨hlen, t, ht⟩ := h
  rw [hlen, ← ht]
  exact parseRtattr_payload hk as t

/-- A payload that is a terminated string. -/
def CarriesName (p : Option Bytes) (s : CStr) : Prop := ∃ b, chars b = s ∧ p = some (b ++ [0])

/-- The string of an entry that spells one. -/
theorem CarriesName.cstr {e p : Option Bytes} {s : CStr} (h : CarriesName p s) (hs : '\x00' ∉ s)
    (hrel : Option.Rel Carries e p) :
    ∃ rta, e = some rta ∧ cstr (chars (rtaData rta)) = s ∧ 0 ∈ rtaData rta := by
  obtain ⟨b, hb, rfl⟩ := h
  obtain ⟨rta, rfl, -, t, ht⟩ := exists_of_rel hrel
  have hmem : (0 : UInt8) ∈ b ++ [0] := by simp
  refine ⟨rta, rfl, ?_, by rw [← ht]; exact List.mem_append_left t hmem⟩
  have hchars : chars (b ++ [0]) = s ++ ['\x00'] := by
    rw [chars, List.map_append, ← hb]
    rfl
  rw [← ht, cstr_chars_append hmem, hchars, CLib.cstr,
    List.takeWhile_append_of_pos fun c hc => by
      simp only [bne_iff_ne, ne_eq]
      rintro rfl
      exact hs hc]
  simp

/-- A field filled from memory that holds its string. -/
theorem cpy_of_cstr {sz : Nat} [NeZero sz] {s : CStr} {b : CBuf sz} (h : CLib.cstr s = b.val) :
    cpy sz s = b := by
  refine CBuf.ext ?_
  have := b.length_lt
  show (CLib.cstr s).take (sz - 1) = b.val
  rw [h, List.take_of_length_le (by omega)]

/-! ## Links -/

/-- The attributes of a kind of link. -/
def DescribesData (info : Option (List Attr)) (kind : CStr) : LinkData → Prop
  | .other => kind ≠ "vlan".toList ∧ kind ≠ "vxlan".toList ∨
    (info.bind fun li => payload? li IFLA_INFO_DATA) = none
  | .vlan id => kind = "vlan".toList ∧ ∃ as,
    (info.bind fun li => payload? li IFLA_INFO_DATA) = some (encodeAttrs as) ∧
      (payload? as IFLA_VLAN_ID = id.map fun v => leBytes 2 v.toNat) ∧ ∀ v ∈ id, v.toNat < 2 ^ 16
  | .vxlan vni remote link => kind = "vxlan".toList ∧ ∃ as,
    (info.bind fun li => payload? li IFLA_INFO_DATA) = some (encodeAttrs as) ∧
      (payload? as IFLA_VXLAN_ID = vni.map fun v => leBytes 4 v.toNat) ∧
      payload? as IFLA_VXLAN_GROUP = remote.map ip4Bytes ∧
      payload? as IFLA_VXLAN_LINK = link.map intBytes ∧ ∀ i ∈ link, IsS32 i

/-- The attributes inside `IFLA_LINKINFO`: a physical link has none, or none that names a kind. -/
structure DescribesKind (info : Option (List Attr)) (l : Link) : Prop where
  kind : l.kind.val = [] ∧ (info.bind fun li => payload? li IFLA_INFO_KIND) = none ∨
    CarriesName (info.bind fun li => payload? li IFLA_INFO_KIND) l.kind.val
  data : DescribesData info l.kind.val l.data

/-- The attributes of a link. -/
structure Describes (as : List Attr) (l : Link) : Prop where
  name : CarriesName (payload? as IFLA_IFNAME) l.name.val
  carrier : payload? as IFLA_CARRIER = l.carrier.map fun c => [c]
  master : payload? as IFLA_MASTER = if l.master = 0 then none else some (intBytes l.master)
  link : payload? as IFLA_LINK = l.link.map intBytes
  info : ∃ info : Option (List Attr), payload? as IFLA_LINKINFO = info.map encodeAttrs ∧
    DescribesKind info l
  isS32 : IsS32 l.master ∧ ∀ i ∈ l.link, IsS32 i

section Link

variable {as : List Attr} {l : Link} {tb : AttrTable}

/-- A table with the payloads of some attributes. -/
def AttrTable.Reads (tb : AttrTable) (max : Nat) (as : List Attr) : Prop :=
  ∀ k ≤ max, Option.Rel Carries (tb k) (payload? as k)

/-- What is known about the attributes inside `IFLA_LINKINFO`. -/
theorem linkInfo_of_reads (h : tb.Reads IFLA_MAX as) {info : Option (List Attr)}
    (hinfo : payload? as IFLA_LINKINFO = info.map encodeAttrs) {k : Nat} (hk : k ≤ IFLA_INFO_MAX) :
    Option.Rel Carries ((linkInfo tb).bind fun li => li k) (info.bind fun li => payload? li k) := by
  have hrel := h IFLA_LINKINFO (by decide)
  rw [hinfo] at hrel
  cases info with
  | none =>
    rw [linkInfo, eq_none_of_rel hrel]
    exact .none
  | some li =>
    obtain ⟨rta, hrta, hc⟩ := exists_of_rel hrel
    rw [linkInfo, hrta]
    exact nested_payload hc hk

variable {info : Option (List Attr)}

/-- **The kind of a link** is read as the kernel has it. -/
theorem linkKind_of_describes (h : tb.Reads IFLA_MAX as)
    (hinfo : payload? as IFLA_LINKINFO = info.map encodeAttrs) (hd : DescribesKind info l) :
    linkKind tb = l.kind ∧ ∀ kind ∈ infoKind tb, 0 ∈ rtaData kind := by
  have hrel : Option.Rel Carries (infoKind tb) _ := linkInfo_of_reads h hinfo (by decide)
  unfold linkKind
  obtain ⟨hempty, habs⟩ | hspell := hd.kind
  · rw [habs] at hrel
    rw [eq_none_of_rel hrel]
    exact ⟨CBuf.ext hempty.symm, by simp⟩
  · obtain ⟨rta, hrta, hstr, hterm⟩ := hspell.cstr l.kind.nul_notMem hrel
    rw [hrta]
    refine ⟨cpy_of_cstr hstr, ?_⟩
    rintro kind ⟨⟩
    exact hterm

/-- The data of a link is looked at when the link is of the kind that is asked for. -/
theorem infoData_of_describes (h : tb.Reads IFLA_MAX as)
    (hinfo : payload? as IFLA_LINKINFO = info.map encodeAttrs) (hd : DescribesKind info l)
    {kind : CStr} (hne : kind ≠ []) :
    (l.kind.val ≠ kind → infoData tb kind = none) ∧
      (l.kind.val = kind → Option.Rel Carries (infoData tb kind)
        (info.bind fun li => payload? li IFLA_INFO_DATA)) := by
  have hrel : Option.Rel Carries (infoKind tb) _ := linkInfo_of_reads h hinfo (by decide)
  unfold infoData
  obtain ⟨hempty, habs⟩ | hspell := hd.kind
  · -- without a kind there is no data to look at
    rw [habs] at hrel
    rw [eq_none_of_rel hrel]
    exact ⟨fun _ => rfl, fun he => absurd (he.symm.trans hempty) hne⟩
  · obtain ⟨rta, hrta, hstr, -⟩ := hspell.cstr l.kind.nul_notMem hrel
    rw [hrta, Option.bind_some, hstr]
    refine ⟨fun hk => if_neg hk, fun hk => ?_⟩
    rw [if_pos hk]
    exact linkInfo_of_reads h hinfo (by decide)

/-- The kind of link that data belongs to. -/
def LinkData.kind : LinkData → CStr
  | .other => []
  | .vlan _ => "vlan".toList
  | .vxlan _ _ _ => "vxlan".toList

/-- **The data of a VLAN or a VXLAN**, and of no other link. -/
theorem infoData_of_data (h : tb.Reads IFLA_MAX as)
    (hinfo : payload? as IFLA_LINKINFO = info.map encodeAttrs) (hd : DescribesKind info l)
    {kind : CStr} (hkind : kind = "vlan".toList ∨ kind = "vxlan".toList) :
    (l.data.kind ≠ kind → infoData tb kind = none) ∧
      (l.data.kind = kind → Option.Rel Carries (infoData tb kind)
        (info.bind fun li => payload? li IFLA_INFO_DATA)) := by
  have hne : kind ≠ [] := by rcases hkind with rfl | rfl <;> decide
  obtain ⟨hother, hsame⟩ := infoData_of_describes h hinfo hd hne
  have hdata := hd.data
  by_cases hl : l.kind.val = kind
  · refine ⟨fun hdk => ?_, fun _ => hsame hl⟩
    have hrel := hsame hl
    cases hld : l.data with
    | other =>
      rw [hld] at hdata
      have habs := hdata.resolve_left fun hno => by
        rcases hkind with rfl | rfl
        · exact hno.1 hl
        · exact hno.2 hl
      rw [habs] at hrel
      exact eq_none_of_rel hrel
    | vlan id =>
      rw [hld] at hdata hdk
      exact absurd (hdata.1.symm.trans hl) hdk
    | vxlan vni remote link =>
      rw [hld] at hdata hdk
      exact absurd (hdata.1.symm.trans hl) hdk
  · refine ⟨fun _ => hother hl, fun hdk => absurd ?_ hl⟩
    cases hld : l.data with
    | other =>
      rw [hld] at hdk
      exact absurd hdk.symm hne
    | vlan id =>
      rw [hld] at hdata hdk
      exact hdata.1.trans hdk
    | vxlan vni remote link =>
      rw [hld] at hdata hdk
      exact hdata.1.trans hdk

variable {ifi : Bytes}

/-- The name of a link is read as the kernel has it. -/
theorem ifname_of_describes (h : tb.Reads IFLA_MAX as) (hd : Describes as l) :
    ∃ name, tb IFLA_IFNAME = some name ∧ cpy IFNAMSIZ (chars (rtaData name)) = l.name ∧
      0 ∈ rtaData name := by
  obtain ⟨name, hname, hstr, hterm⟩ :=
    hd.name.cstr l.name.nul_notMem (h IFLA_IFNAME (by decide))
  exact ⟨name, hname, cpy_of_cstr hstr, hterm⟩

theorem terminated_of_describes (h : tb.Reads IFLA_MAX as) (hd : Describes as l) :
    tb.Terminated := by
  obtain ⟨name, hname, -, hterm⟩ := ifname_of_describes h hd
  obtain ⟨info, hinfo, hk⟩ := hd.info
  refine ⟨?_, (linkKind_of_describes h hinfo hk).2⟩
  rw [hname]
  rintro _ ⟨⟩
  exact hterm

/-- **The interface** that a description is read as. -/
theorem ifaceEntry_of_describes (h : tb.Reads IFLA_MAX as) (hd : Describes as l)
    (hidx : ifiIndex ifi = l.ifindex) (hflags : UInt32.ofNat (leNat 4 (ifi.drop 8)) = l.flags) :
    ifaceEntry ifi tb = some l.toIface := by
  obtain ⟨name, hname, hcpy, -⟩ := ifname_of_describes h hd
  obtain ⟨info, hinfo, hk⟩ := hd.info
  have hcarrier : (attrNat 1 (tb IFLA_CARRIER)).map UInt8.ofNat = l.carrier := by
    have hrel := h IFLA_CARRIER (by decide)
    rw [hd.carrier] at hrel
    cases hc : l.carrier with
    | none =>
      rw [hc] at hrel
      rw [attrNat_of_absent hrel, Option.map_none]
    | some c =>
      rw [hc] at hrel
      obtain ⟨t, ht⟩ := attrData_of_carries hrel (n := 1) (by simp)
      rw [attrNat, ht]
      simp [leNat]
  have hmaster : (attrIndex (tb IFLA_MASTER)).getD 0 = l.master := by
    have hrel := h IFLA_MASTER (by decide)
    rw [hd.master] at hrel
    split_ifs at hrel with hm
    · rw [attrIndex_of_absent hrel, hm, Option.getD_none]
    · rw [attrIndex_intBytes hd.isS32.1 hrel, Option.getD_some]
  have hlink : attrIndex (tb IFLA_LINK) = l.link := by
    have hrel := h IFLA_LINK (by decide)
    rw [hd.link] at hrel
    exact attrIndex_map hd.isS32.2 hrel
  rw [ifaceEntry, hname, Option.map_some, hcpy, (linkKind_of_describes h hinfo hk).1, hidx, hflags,
    hcarrier, hmaster, hlink]

/-- **The VXLAN** that a description is read as. -/
theorem vxlanEntry_of_describes (h : tb.Reads IFLA_MAX as) (hd : Describes as l)
    (hidx : ifiIndex ifi = l.ifindex) : vxlanEntry ifi tb = l.vxlanEntry := by
  obtain ⟨name, hname, hcpy, -⟩ := ifname_of_describes h hd
  obtain ⟨info, hinfo, hk⟩ := hd.info
  obtain ⟨hother, hsame⟩ := infoData_of_data h hinfo hk (.inr rfl)
  cases hl : l.data with
  | other =>
    rw [hl] at hother
    simp only [vxlanEntry, hname, hother (by decide), Link.vxlanEntry, hl, Option.bind_eq_bind,
      Option.bind_some, Option.bind_none]
  | vlan id =>
    rw [hl] at hother
    have hne : (LinkData.vlan id).kind ≠ "vxlan".toList := show "vlan".toList ≠ _ by decide
    simp only [vxlanEntry, hname, hother hne, Link.vxlanEntry, hl, Option.bind_eq_bind,
      Option.bind_some, Option.bind_none]
  | vxlan vni remote link =>
    have hdata := hk.data
    rw [hl] at hdata hsame
    obtain ⟨-, as', hpay, hvni, hgroup, hlink, hint⟩ := hdata
    have hrel := hsame rfl
    rw [hpay] at hrel
    obtain ⟨data, hentry, hc⟩ := exists_of_rel hrel
    have hsub : ∀ k ≤ IFLA_VXLAN_MAX, Option.Rel Carries
        (parseRtattr IFLA_VXLAN_MAX (rtaData data) (rtaPayload data) k) (payload? as' k) :=
      fun k hkm => nested_payload hc hkm
    have hvni' := @attrNat_map _ 4 vni (fun v _ => v.toNat_lt)
      (hvni ▸ hsub IFLA_VXLAN_ID (by decide))
    have hgroup' := attrIp4_map (hgroup ▸ hsub IFLA_VXLAN_GROUP (by decide))
    have hlink' := attrIndex_map hint (hlink ▸ hsub IFLA_VXLAN_LINK (by decide))
    simp only [vxlanEntry, hname, hentry, Option.bind_eq_bind, Option.bind_some, hcpy, hidx, hvni',
      hgroup', hlink', Link.vxlanEntry, hl, Option.pure_def]

/-- **The VLAN** that a description is read as. -/
theorem vlanEntry_of_describes (h : tb.Reads IFLA_MAX as) (hd : Describes as l)
    (hidx : ifiIndex ifi = l.ifindex) : vlanEntry ifi tb = l.vlanEntry := by
  obtain ⟨name, hname, hcpy, -⟩ := ifname_of_describes h hd
  obtain ⟨info, hinfo, hk⟩ := hd.info
  obtain ⟨hother, hsame⟩ := infoData_of_data h hinfo hk (.inl rfl)
  cases hl : l.data with
  | other =>
    rw [hl] at hother
    simp only [vlanEntry, hname, hother (by decide), Link.vlanEntry, hl, Option.bind_eq_bind,
      Option.bind_some, Option.bind_none]
  | vxlan vni remote link =>
    rw [hl] at hother
    have hne : (LinkData.vxlan vni remote link).kind ≠ "vlan".toList :=
      show "vxlan".toList ≠ _ by decide
    simp only [vlanEntry, hname, hother hne, Link.vlanEntry, hl, Option.bind_eq_bind,
      Option.bind_some, Option.bind_none]
  | vlan id =>
    have hdata := hk.data
    rw [hl] at hdata hsame
    obtain ⟨-, as', hpay, hid, hlt⟩ := hdata
    have hrel := hsame rfl
    rw [hpay] at hrel
    obtain ⟨data, hentry, hc⟩ := exists_of_rel hrel
    have hid' := @attrNat_map _ 2 id hlt
      (hid ▸ nested_payload hc (show IFLA_VLAN_ID ≤ IFLA_VLAN_MAX by decide))
    have hlink := attrIndex_map hd.isS32.2 (hd.link ▸ h IFLA_LINK (by decide))
    simp only [vlanEntry, hname, hentry, Option.bind_eq_bind, Option.bind_some, hcpy, hidx, hid',
      hlink, Link.vlanEntry, hl, Option.pure_def]

end Link

/-! ## Messages -/

/-- The attributes of a message behind its fixed part. -/
theorem msgAttrs_reads {m : NlMsg} {hdr : Bytes} {as : List Attr} {size : Nat}
    (hdata : nlmsgData m.bytes = hdr ++ encodeAttrs as) (hsize : hdr.length = size) (max : Nat) :
    (msgAttrs max size m.bytes).Reads max as := by
  intro k hk
  have hlen : (nlmsgLen m.bytes : Int) - (16 + size) = (encodeAttrs as).length := by
    have h := m.nlmsgData_length
    have := m.inBounds.hdr_le
    rw [hdata, List.length_append, hsize] at h
    rw [m.nlmsgLen_bytes]
    omega
  have hread := parseRtattr_payload hk as []
  rw [List.append_nil] at hread
  rw [msgAttrs, hlen, hdata, List.drop_left' hsize]
  exact hread

/-- A message that describes a link. -/
structure LinkMsg (seq : Nat) (m : NlMsg) (l : Link) : Prop where
  ofDump : OfDump seq RTM_NEWLINK m.bytes
  isS32 : IsS32 l.ifindex
  body : ∃ pre post as, pre.length = 4 ∧ post.length = 4 ∧
    nlmsgData m.bytes =
      pre ++ (intBytes l.ifindex ++ (leBytes 4 l.flags.toNat ++ post)) ++ encodeAttrs as ∧
    Describes as l

/-- A message that describes an address. The address of the link itself is `IFA_LOCAL`; it is left
out when there is no other one at the far end. -/
structure AddrMsg (seq : Nat) (m : NlMsg) (a : Addr4) : Prop where
  ofDump : OfDump seq RTM_NEWADDR m.bytes
  isS32 : IsS32 a.ifindex
  plen : 0 ≤ a.plen ∧ a.plen < 256
  body : ∃ post as, post.length = 2 ∧
    nlmsgData m.bytes =
      (2 :: UInt8.ofNat a.plen.toNat :: (post ++ intBytes a.ifindex)) ++ encodeAttrs as ∧
    (payload? as IFA_LOCAL = some (ip4Bytes a.addr) ∨
      payload? as IFA_LOCAL = none ∧ payload? as IFA_ADDRESS = some (ip4Bytes a.addr))

/-- A message of another address family. -/
structure OtherAddrMsg (seq : Nat) (m : NlMsg) : Prop where
  ofDump : OfDump seq RTM_NEWADDR m.bytes
  body : ∃ family rest, family ≠ 2 ∧ 7 ≤ rest.length ∧ nlmsgData m.bytes = family :: rest

/-- The number of the table of a route message: the attribute goes before the header. -/
def TableIs (as : List Attr) (table : UInt8) (n : Int) : Prop :=
  payload? as RTA_TABLE = some (intBytes n) ∧ IsS32 n ∨
    payload? as RTA_TABLE = none ∧ (table.toNat : Int) = n

/-- A message that describes a route of the main table. A default route has no destination, a route
to a neighbour no gateway and one over several links no link. -/
structure RouteMsg (seq : Nat) (m : NlMsg) (r : Route4) : Prop where
  ofDump : OfDump seq RTM_NEWROUTE m.bytes
  isS32 : IsS32 r.oif
  plen : 0 ≤ r.plen ∧ r.plen < 256
  body : ∃ srcLen tos table protocol scope type flags as, flags.length = 4 ∧
    nlmsgData m.bytes = (2 :: UInt8.ofNat r.plen.toNat :: srcLen :: tos :: table :: protocol ::
      scope :: type :: flags) ++ encodeAttrs as ∧
    (type = 1 ∨ type = 2) ∧ TableIs as table 254 ∧
    (payload? as RTA_DST = some (ip4Bytes r.dst) ∨ payload? as RTA_DST = none ∧ r.dst = 0) ∧
    (r.hasGw = true ∧ payload? as RTA_GATEWAY = some (ip4Bytes r.gw) ∨
      r.hasGw = false ∧ r.gw = 0 ∧ payload? as RTA_GATEWAY = none) ∧
    (payload? as RTA_OIF = some (intBytes r.oif) ∨ payload? as RTA_OIF = none ∧ r.oif = 0)

/-- A message about a route that is not kept: of another family, of another type, or of another
table. -/
structure OtherRouteMsg (seq : Nat) (m : NlMsg) : Prop where
  ofDump : OfDump seq RTM_NEWROUTE m.bytes
  body : ∃ family dstLen srcLen tos table protocol scope type flags as n, flags.length = 4 ∧
    nlmsgData m.bytes = (family :: dstLen :: srcLen :: tos :: table :: protocol :: scope :: type ::
      flags) ++ encodeAttrs as ∧ TableIs as table n ∧
    (family ≠ 2 ∨ type ≠ 1 ∧ type ≠ 2 ∨ n ≠ 254)

section Messages

variable {seq : Nat} {m : NlMsg}

theorem length_of_data {n : Nat} (h : n ≤ (nlmsgData m.bytes).length) :
    ¬ nlmsgLen m.bytes < 16 + n := by
  have := m.nlmsgData_length
  have := m.inBounds.hdr_le
  rw [m.nlmsgLen_bytes]
  omega

/-- **A message about a link** adds its interface and, if it is one, its VXLAN or VLAN. -/
theorem LinkMsg.parse {l : Link} (h : LinkMsg seq m l) (rs : RealState) :
    parseLinkMsg rs m.bytes = (do
      let rs ← tableAdd rs rs.ifaces NR_IFACE_MAX (fun ifaces => { rs with ifaces })
        (some l.toIface)
      let rs ← tableAdd rs rs.vxlan NR_VXLAN_MAX (fun vxlan => { rs with vxlan }) l.vxlanEntry
      tableAdd rs rs.vlan NR_VLAN_MAX (fun vlan => { rs with vlan }) l.vlanEntry) := by
  obtain ⟨pre, post, as, hpre, hpost, hdata, hd⟩ := h.body
  have hreads : (msgAttrs IFLA_MAX 16 m.bytes).Reads IFLA_MAX as :=
    msgAttrs_reads hdata (by simp [length_intBytes, length_leBytes, hpre, hpost]) _
  have hidx : ifiIndex (nlmsgData m.bytes) = l.ifindex := by
    rw [ifiIndex, hdata, List.append_assoc, List.drop_left' hpre, List.append_assoc]
    exact s32_intBytes h.isS32 _
  have hflags : UInt32.ofNat (leNat 4 ((nlmsgData m.bytes).drop 8)) = l.flags := by
    have hdrop : (nlmsgData m.bytes).drop 8 =
        leBytes 4 l.flags.toNat ++ (post ++ encodeAttrs as) := by
      rw [hdata, ← List.append_assoc pre, List.append_assoc (pre ++ _),
        List.drop_left' (by simp [length_intBytes, hpre]), List.append_assoc]
    rw [hdrop, leNat_leBytes, Nat.mod_eq_of_lt (show _ < 256 ^ 4 from l.flags.toNat_lt),
      UInt32.ofNat_toNat]
  have hlen : 16 ≤ (nlmsgData m.bytes).length := by
    simp [hdata, length_intBytes, length_leBytes, hpre, hpost]
    omega
  rw [parseLinkMsg, if_neg (length_of_data hlen)]
  simp only [addIface, addVxlan, addVlan, ifaceEntry_of_describes hreads hd hidx hflags,
    vxlanEntry_of_describes hreads hd hidx, vlanEntry_of_describes hreads hd hidx]

theorem LinkMsg.terminated {l : Link} (h : LinkMsg seq m l) : m.Terminated := by
  obtain ⟨pre, post, as, hpre, hpost, hdata, hd⟩ := h.body
  exact terminated_of_describes (msgAttrs_reads hdata
    (by simp [length_intBytes, length_leBytes, hpre, hpost]) IFLA_MAX) hd

/-- **A message about an address** adds it. -/
theorem AddrMsg.parse {a : Addr4} (h : AddrMsg seq m a) (rs : RealState) :
    parseAddrMsg rs m.bytes =
      tableAdd rs rs.addr4 NR_ADDR4_MAX (fun addr4 => { rs with addr4 }) (some a) := by
  obtain ⟨post, as, hpost, hdata, hlocal⟩ := h.body
  have hreads : (msgAttrs IFA_MAX 8 m.bytes).Reads IFA_MAX as :=
    msgAttrs_reads hdata (by simp [length_intBytes, hpost]) _
  have hlen : 8 ≤ (nlmsgData m.bytes).length := by
    simp [hdata, length_intBytes, hpost]
    omega
  have haddr : attrIp4 ((msgAttrs IFA_MAX 8 m.bytes IFA_LOCAL).or
      (msgAttrs IFA_MAX 8 m.bytes IFA_ADDRESS)) = some a.addr := by
    have hrel := hreads IFA_LOCAL (by decide)
    obtain hl | ⟨hl, ha⟩ := hlocal
    · rw [hl] at hrel
      obtain ⟨rta, hrta, -⟩ := exists_of_rel hrel
      rw [hrta] at hrel ⊢
      exact attrIp4_ip4Bytes hrel
    · rw [hl] at hrel
      rw [eq_none_of_rel hrel, Option.none_or]
      exact attrIp4_ip4Bytes (ha ▸ hreads IFA_ADDRESS (by decide))
  have hfamily : leNat 1 (nlmsgData m.bytes) = AF_INET := by
    rw [hdata]
    rfl
  have hplen : (leNat 1 ((nlmsgData m.bytes).drop 1) : Int) = a.plen := by
    obtain ⟨hlo, hhi⟩ := h.plen
    rw [hdata]
    simp [leNat]
    omega
  have hidx : s32 (leNat 4 ((nlmsgData m.bytes).drop 4)) = a.ifindex := by
    have hdrop : (nlmsgData m.bytes).drop 4 = intBytes a.ifindex ++ encodeAttrs as := by
      rw [hdata]
      simp only [List.cons_append, List.drop_succ_cons, List.append_assoc]
      exact List.drop_left' hpost
    rw [hdrop, s32_intBytes h.isS32]
  have hentry : addrEntry m.bytes = some a := by
    simp only [addrEntry, hfamily, ne_eq, not_true_eq_false, if_false, haddr, Option.map_some, hidx,
      hplen]
  rw [parseAddrMsg, if_neg (length_of_data hlen), hentry]

theorem OtherAddrMsg.parse (h : OtherAddrMsg seq m) (rs : RealState) :
    parseAddrMsg rs m.bytes = .ok rs := by
  obtain ⟨family, rest, hne, hrest, hdata⟩ := h.body
  have hlen : 8 ≤ (nlmsgData m.bytes).length := by
    rw [hdata, List.length_cons]
    omega
  have hfamily : leNat 1 (nlmsgData m.bytes) ≠ AF_INET := by
    rw [hdata]
    simp only [leNat, List.headD_cons, Nat.mul_zero, Nat.add_zero]
    exact fun he => hne (UInt8.toNat_inj.mp he)
  have hentry : addrEntry m.bytes = none := if_pos hfamily
  rw [parseAddrMsg, if_neg (length_of_data hlen), hentry]
  rfl

/-- The table that is read from a message. -/
theorem routeTable_of_tableIs {tb : AttrTable} {as : List Attr} (hreads : tb.Reads RTA_MAX as)
    {table : UInt8} {n : Int} (ht : TableIs as table n) {rtm : Bytes}
    (hrtm : leNat 1 (rtm.drop 4) = table.toNat) : routeTable rtm tb = n := by
  have hrel := hreads RTA_TABLE (by decide)
  unfold routeTable
  obtain ⟨hp, hn⟩ | ⟨hp, hn⟩ := ht
  · rw [attrIndex_intBytes hn (hp ▸ hrel)]
  · rw [attrIndex_of_absent (hp ▸ hrel), hrtm, ← hn]

/-- **A message about a route** of the main table adds it. -/
theorem RouteMsg.parse {r : Route4} (h : RouteMsg seq m r) (rs : RealState) :
    parseRouteMsg rs m.bytes =
      tableAdd rs rs.route4 NR_ROUTE4_MAX (fun route4 => { rs with route4 }) (some r) := by
  obtain ⟨srcLen, tos, table, protocol, scope, type, flags, as, hf, hdata, htype, htable, hdst, hgw,
    hoif⟩ := h.body
  have hreads : (msgAttrs RTA_MAX 12 m.bytes).Reads RTA_MAX as :=
    msgAttrs_reads hdata (by simp [hf]) _
  have hlen : 12 ≤ (nlmsgData m.bytes).length := by
    simp [hdata, hf]
  have hfamily : leNat 1 (nlmsgData m.bytes) = AF_INET := by
    rw [hdata]
    rfl
  have hplen : (leNat 1 ((nlmsgData m.bytes).drop 1) : Int) = r.plen := by
    obtain ⟨hlo, hhi⟩ := h.plen
    rw [hdata]
    simp [leNat]
    omega
  have htab : routeTable (nlmsgData m.bytes) (msgAttrs RTA_MAX 12 m.bytes) = RT_TABLE_MAIN :=
    routeTable_of_tableIs hreads htable (by rw [hdata]; rfl)
  have htype' : ¬ (leNat 1 ((nlmsgData m.bytes).drop 7) ≠ RTN_UNICAST ∧
      leNat 1 ((nlmsgData m.bytes).drop 7) ≠ RTN_LOCAL) := by
    rw [hdata]
    rcases htype with rfl | rfl <;> simp [leNat]
  have hdst' : (attrIp4 (msgAttrs RTA_MAX 12 m.bytes RTA_DST)).getD 0 = r.dst := by
    have hrel := hreads RTA_DST (by decide)
    obtain hp | ⟨hp, hz⟩ := hdst
    · rw [attrIp4_ip4Bytes (hp ▸ hrel), Option.getD_some]
    · rw [attrIp4_of_absent (hp ▸ hrel), hz, Option.getD_none]
  have hgw' : (attrIp4 (msgAttrs RTA_MAX 12 m.bytes RTA_GATEWAY)).getD 0 = r.gw ∧
      (attrIp4 (msgAttrs RTA_MAX 12 m.bytes RTA_GATEWAY)).isSome = r.hasGw := by
    have hrel := hreads RTA_GATEWAY (by decide)
    obtain ⟨hg, hp⟩ | ⟨hg, hz, hp⟩ := hgw
    · rw [attrIp4_ip4Bytes (hp ▸ hrel), hg]
      exact ⟨rfl, rfl⟩
    · rw [attrIp4_of_absent (hp ▸ hrel), hg, hz]
      exact ⟨rfl, rfl⟩
  have hoif' : (attrIndex (msgAttrs RTA_MAX 12 m.bytes RTA_OIF)).getD 0 = r.oif := by
    have hrel := hreads RTA_OIF (by decide)
    obtain hp | ⟨hp, hz⟩ := hoif
    · rw [attrIndex_intBytes h.isS32 (hp ▸ hrel), Option.getD_some]
    · rw [attrIndex_of_absent (hp ▸ hrel), hz, Option.getD_none]
  have hentry : routeEntry m.bytes = some r := by
    simp only [routeEntry, hfamily, ne_eq, not_true_eq_false, if_false, htab]
    rw [if_neg htype', hdst', hgw'.1, hgw'.2, hoif', hplen]
  rw [parseRouteMsg, if_neg (length_of_data hlen), hentry]

theorem OtherRouteMsg.parse (h : OtherRouteMsg seq m) (rs : RealState) :
    parseRouteMsg rs m.bytes = .ok rs := by
  obtain ⟨family, dstLen, srcLen, tos, table, protocol, scope, type, flags, as, n, hf, hdata,
    htable, hother⟩ := h.body
  have hreads : (msgAttrs RTA_MAX 12 m.bytes).Reads RTA_MAX as :=
    msgAttrs_reads hdata (by simp [hf]) _
  have hlen : 12 ≤ (nlmsgData m.bytes).length := by
    simp [hdata, hf]
  have htab : routeTable (nlmsgData m.bytes) (msgAttrs RTA_MAX 12 m.bytes) = n :=
    routeTable_of_tableIs hreads htable (by rw [hdata]; rfl)
  have hfamily : leNat 1 (nlmsgData m.bytes) = family.toNat := by
    rw [hdata]
    rfl
  have htype : leNat 1 ((nlmsgData m.bytes).drop 7) = type.toNat := by
    rw [hdata]
    rfl
  have hentry : routeEntry m.bytes = none := by
    simp only [routeEntry, hfamily, htype, htab]
    obtain hne | ⟨h1, h2⟩ | hne := hother
    · have hne' : family.toNat ≠ AF_INET := fun he => hne (UInt8.toNat_inj.mp he)
      rw [if_pos hne']
    · have hne : type.toNat ≠ RTN_UNICAST ∧ type.toNat ≠ RTN_LOCAL :=
        ⟨fun he => h1 (UInt8.toNat_inj.mp he), fun he => h2 (UInt8.toNat_inj.mp he)⟩
      rw [if_pos hne, ite_self]
    · have hne' : n ≠ (RT_TABLE_MAIN : Nat) := hne
      rw [if_pos hne', ite_self, ite_self]
  rw [parseRouteMsg, if_neg (length_of_data hlen), hentry]
  rfl

end Messages

/-! ## Tables that are filled -/

/-- The entries of a snapshot fit the tables. -/
structure RealState.Fits (rs : RealState) : Prop where
  ifaces : rs.ifaces.length ≤ NR_IFACE_MAX
  addr4 : rs.addr4.length ≤ NR_ADDR4_MAX
  route4 : rs.route4.length ≤ NR_ROUTE4_MAX
  vxlan : rs.vxlan.length ≤ NR_VXLAN_MAX
  vlan : rs.vlan.length ≤ NR_VLAN_MAX

/-- What comes of filling the tables: they are as they should be, or that is too much for them. -/
structure Fills (r : Except Stop RealState) (rs : RealState) : Prop where
  fits : rs.Fits → r = .ok rs
  full : ¬ rs.Fits → ∃ stop, r = .error stop ∧ stop.rc = -Errno.ENOSPC.code

/-- One part after the other; what is too much for the first part stays too much. -/
theorem Fills.bind {r : Except Stop RealState} {f : RealState → Except Stop RealState}
    {rs rs' : RealState} (h : Fills r rs) (hf : rs.Fits → Fills (f rs) rs')
    (hmono : rs'.Fits → rs.Fits) : Fills (r >>= f) rs' := by
  by_cases hrs : rs.Fits
  · rw [h.fits hrs, ok_bind]
    exact hf hrs
  · refine ⟨fun h' => absurd (hmono h') hrs, fun _ => ?_⟩
    obtain ⟨stop, hr, hrc⟩ := h.full hrs
    exact ⟨stop, by rw [hr, error_bind], hrc⟩

/-- **Adding one entry**, where the tables fit exactly if the one that it goes to does. -/
theorem fills_tableAdd {α : Type} {rs : RealState} {table : List α} {max : Nat}
    {put : List α → RealState} {entry : Option α} (hput : put table = rs) (hrs : rs.Fits)
    (hfits : ∀ t, (put t).Fits ↔ t.length ≤ max) :
    Fills (tableAdd rs table max put entry) (put (table ++ entry.toList)) := by
  cases entry with
  | none =>
    rw [Option.toList_none, List.append_nil, hput]
    exact ⟨fun _ => rfl, fun hno => absurd hrs hno⟩
  | some e =>
    have hlen : (table ++ (some e).toList).length = table.length + 1 := by simp
    refine ⟨fun h => ?_, fun h => ?_⟩
    · rw [hfits, hlen] at h
      rw [tableAdd, if_neg (by omega), Option.toList_some]
    · rw [hfits, hlen] at h
      rw [tableAdd, if_pos (by omega)]
      exact ⟨_, rfl, rfl⟩

/-- The snapshot with the entries of one more link. -/
def RealState.addLink (rs : RealState) (l : Link) : RealState :=
  { rs with
    ifaces := rs.ifaces ++ [l.toIface]
    vxlan := rs.vxlan ++ l.vxlanEntry.toList
    vlan := rs.vlan ++ l.vlanEntry.toList }

/-- The snapshot with one more address. -/
def RealState.addAddr (rs : RealState) (a : Addr4) : RealState :=
  { rs with addr4 := rs.addr4 ++ [a] }

/-- The snapshot with one more route. -/
def RealState.addRoute (rs : RealState) (r : Route4) : RealState :=
  { rs with route4 := rs.route4 ++ [r] }

section Filling

variable {rs : RealState} {seq : Nat} {m : NlMsg}

theorem fits_of_append {α : Type} {l l' : List α} {n : Nat} (h : (l ++ l').length ≤ n) :
    l.length ≤ n := by
  rw [List.length_append] at h
  omega

theorem RealState.Fits.of_addLink {l : Link} (h : (rs.addLink l).Fits) : rs.Fits :=
  ⟨fits_of_append h.ifaces, h.addr4, h.route4, fits_of_append h.vxlan, fits_of_append h.vlan⟩

theorem RealState.Fits.of_addAddr {a : Addr4} (h : (rs.addAddr a).Fits) : rs.Fits :=
  ⟨h.ifaces, fits_of_append h.addr4, h.route4, h.vxlan, h.vlan⟩

theorem RealState.Fits.of_addRoute {r : Route4} (h : (rs.addRoute r).Fits) : rs.Fits :=
  ⟨h.ifaces, h.addr4, fits_of_append h.route4, h.vxlan, h.vlan⟩

/-- A message of the dump is parsed. -/
theorem recvMsg_ofDump {type : Nat} (h : OfDump seq type m.bytes)
    (htype : type ≠ NLMSG_DONE ∧ type ≠ NLMSG_ERROR) (rs : RealState) :
    recvMsg seq type rs m.bytes = parseMsg type rs m.bytes := by
  have hends : ¬ EndsDump seq m.bytes := by
    rintro (hd | he)
    · exact htype.1 (h.2.symm.trans hd.2)
    · exact htype.2 (h.2.symm.trans he.2)
  rw [recvMsg_of_not_ends hends, if_pos h]

theorem LinkMsg.fills {l : Link} (h : LinkMsg seq m l) (hrs : rs.Fits) :
    Fills (recvMsg seq RTM_NEWLINK rs m.bytes) (rs.addLink l) := by
  rw [recvMsg_ofDump h.ofDump (by decide)]
  show Fills (parseLinkMsg rs m.bytes) _
  rw [h.parse]
  refine .bind (fills_tableAdd rfl hrs fun t => ?_) (fun h₁ => .bind
    (fills_tableAdd rfl h₁ fun t => ?_) (fun h₂ => fills_tableAdd rfl h₂ fun t => ?_) fun h₃ => ?_)
    fun h₃ => ?_
  · exact ⟨fun hf => hf.ifaces, fun ht => ⟨ht, hrs.addr4, hrs.route4, hrs.vxlan, hrs.vlan⟩⟩
  · exact ⟨fun hf => hf.vxlan, fun ht => ⟨h₁.ifaces, hrs.addr4, hrs.route4, ht, hrs.vlan⟩⟩
  · exact ⟨fun hf => hf.vlan, fun ht => ⟨h₁.ifaces, hrs.addr4, hrs.route4, h₂.vxlan, ht⟩⟩
  · exact ⟨h₃.ifaces, h₃.addr4, h₃.route4, h₃.vxlan, fits_of_append h₃.vlan⟩
  · exact ⟨h₃.ifaces, h₃.addr4, h₃.route4, fits_of_append h₃.vxlan, fits_of_append h₃.vlan⟩

theorem AddrMsg.fills {a : Addr4} (h : AddrMsg seq m a) (hrs : rs.Fits) :
    Fills (recvMsg seq RTM_NEWADDR rs m.bytes) (rs.addAddr a) := by
  rw [recvMsg_ofDump h.ofDump (by decide)]
  show Fills (parseAddrMsg rs m.bytes) _
  rw [h.parse]
  exact fills_tableAdd rfl hrs fun t =>
    ⟨fun hf => hf.addr4, fun ht => ⟨hrs.ifaces, ht, hrs.route4, hrs.vxlan, hrs.vlan⟩⟩

theorem RouteMsg.fills {r : Route4} (h : RouteMsg seq m r) (hrs : rs.Fits) :
    Fills (recvMsg seq RTM_NEWROUTE rs m.bytes) (rs.addRoute r) := by
  rw [recvMsg_ofDump h.ofDump (by decide)]
  show Fills (parseRouteMsg rs m.bytes) _
  rw [h.parse]
  exact fills_tableAdd rfl hrs fun t =>
    ⟨fun hf => hf.route4, fun ht => ⟨hrs.ifaces, hrs.addr4, ht, hrs.vxlan, hrs.vlan⟩⟩

theorem OtherAddrMsg.recv (h : OtherAddrMsg seq m) (rs : RealState) :
    recvMsg seq RTM_NEWADDR rs m.bytes = .ok rs := by
  rw [recvMsg_ofDump h.ofDump (by decide)]
  exact h.parse rs

theorem OtherRouteMsg.recv (h : OtherRouteMsg seq m) (rs : RealState) :
    recvMsg seq RTM_NEWROUTE rs m.bytes = .ok rs := by
  rw [recvMsg_ofDump h.ofDump (by decide)]
  exact h.parse rs

end Filling

/-! ## Dumps -/

/-- The messages of a dump: one for each entry, in their order, and others that do not count. -/
inductive Tells {α : Type} (P : NlMsg → α → Prop) (Q : NlMsg → Prop) : List NlMsg → List α → Prop
  | nil : Tells P Q [] []
  | entry {m : NlMsg} {a : α} {ms : List NlMsg} {as : List α} (h : P m a) (hs : Tells P Q ms as) :
    Tells P Q (m :: ms) (a :: as)
  | other {m : NlMsg} {ms : List NlMsg} {as : List α} (h : Q m) (hs : Tells P Q ms as) :
    Tells P Q (m :: ms) as

section Tells

variable {α : Type} {P : NlMsg → α → Prop} {Q : NlMsg → Prop} {msgs : List NlMsg} {as : List α}

theorem Tells.forall {R : NlMsg → Prop} (h : Tells P Q msgs as) (hP : ∀ m a, P m a → R m)
    (hQ : ∀ m, Q m → R m) : ∀ m ∈ msgs, R m := by
  induction h with
  | nil => simp
  | entry h _ ih => exact List.forall_mem_cons.mpr ⟨hP _ _ h, ih⟩
  | other h _ ih => exact List.forall_mem_cons.mpr ⟨hQ _ h, ih⟩

/-- **The messages of a dump fill the tables with what they tell.** -/
theorem Tells.fills {add : RealState → α → RealState} {seq type : Nat} (h : Tells P Q msgs as)
    (hP : ∀ rs m a, RealState.Fits rs → P m a → Fills (recvMsg seq type rs m.bytes) (add rs a))
    (hQ : ∀ rs m, Q m → recvMsg seq type rs m.bytes = .ok rs)
    (hmono : ∀ rs a, (add rs a).Fits → rs.Fits) {rs : RealState} (hrs : rs.Fits) :
    Fills ((msgs.map NlMsg.bytes).foldlM (recvMsg seq type) rs) (as.foldl add rs) := by
  have hgrow : ∀ (as : List α) (rs : RealState), (as.foldl add rs).Fits → rs.Fits := by
    intro as
    induction as with
    | nil => exact fun _ h => h
    | cons a as ih => exact fun rs h => hmono rs a (ih _ h)
  induction h generalizing rs with
  | nil => exact ⟨fun _ => rfl, fun hno => absurd hrs hno⟩
  | @entry m a ms as h _ ih =>
    rw [List.map_cons, List.foldlM_cons, List.foldl_cons]
    exact (hP rs m a hrs h).bind ih (hgrow as _)
  | @other m ms as h _ ih =>
    rw [List.map_cons, List.foldlM_cons, hQ rs m h, ok_bind]
    exact ih hrs

end Tells

/-- A call of `recv` that was interrupted. -/
def RecvEvent.interrupted : RecvEvent → Bool
  | .data _ => false
  | .fail errno => errno = EINTR

theorem recvDump_interrupted (seq type : Nat) (evs : List RecvEvent) (buf : Bytes)
    (rs : RealState) :
    recvDump seq type (evs.filter fun ev => !ev.interrupted) buf rs =
      recvDump seq type evs buf rs := by
  induction evs generalizing buf rs with
  | nil => rfl
  | cons ev evs ih =>
    cases ev with
    | fail errno =>
      by_cases he : errno = EINTR
      · rw [List.filter_cons_of_neg (by simp [RecvEvent.interrupted, he]), recvDump, if_pos he, ih]
      · rw [List.filter_cons_of_pos (by simp [RecvEvent.interrupted, he]), recvDump, recvDump,
          if_neg he, if_neg he]
    | data d =>
      rw [List.filter_cons_of_pos (by simp [RecvEvent.interrupted]), recvDump, recvDump]
      simp only [ih]

/-- What the socket receives for a request: the messages of the dump and the one that ends it, in
datagrams that fit the buffer. -/
structure DumpOf {α : Type} (evs : List RecvEvent) (seq : Nat) (P : NlMsg → α → Prop)
    (Q : NlMsg → Prop) (entries : List α) : Prop where
  packed : ∃ groups msgs done,
    (evs.filter fun ev => !ev.interrupted) = groups.map datagram ∧
    IsPacking groups (msgs ++ [done]) ∧ Tells P Q msgs entries ∧ OfDump seq NLMSG_DONE done.bytes

/-- How dumps end: with the tables filled, or because that is too much for them. -/
structure Ends (d : DumpEnd) (rs : RealState) : Prop where
  fits : rs.Fits → d = .returned 0 rs
  full : ¬ rs.Fits → d.rc = some (-(Errno.ENOSPC.code : Int))

/-- One dump after the other. -/
theorem Ends.andThen {d : DumpEnd} {next : RealState → DumpEnd} {rs rs' : RealState}
    (h : Ends d rs) (hnext : rs.Fits → Ends (next rs) rs') (hmono : rs'.Fits → rs.Fits) :
    Ends (d.andThen next) rs' := by
  by_cases hrs : rs.Fits
  · rw [h.fits hrs, DumpEnd.andThen, if_neg (by simp)]
    exact hnext hrs
  · refine ⟨fun h' => absurd (hmono h') hrs, fun _ => ?_⟩
    obtain ⟨rs₁, hd⟩ := DumpEnd.exists_of_rc (h.full hrs)
    rw [hd, DumpEnd.andThen, if_pos (by decide)]
    rfl

/-- **A dump** ends with the tables filled, or because that is too much for them. -/
theorem DumpOf.ends {α : Type} {evs : List RecvEvent} {seq type : Nat} {P : NlMsg → α → Prop}
    {Q : NlMsg → Prop} {entries : List α} {add : RealState → α → RealState}
    (h : DumpOf evs seq P Q entries)
    (hP : ∀ rs m a, RealState.Fits rs → P m a → Fills (recvMsg seq type rs m.bytes) (add rs a))
    (hQ : ∀ rs m, Q m → recvMsg seq type rs m.bytes = .ok rs)
    (hmono : ∀ rs a, (add rs a).Fits → rs.Fits)
    (hterm : ∀ m, (∃ a, P m a) ∨ Q m → OfDump seq type m.bytes → type = RTM_NEWLINK → m.Terminated)
    {rs : RealState} (hrs : rs.Fits) (buf : Bytes) :
    Ends (recvDump seq type evs buf rs) (entries.foldl add rs) := by
  obtain ⟨groups, msgs, done, hevs, hpack, htells, hdone⟩ := h.packed
  have hnames : NamesTerminated seq type (msgs ++ [done]) := by
    refine List.forall_mem_append.mpr ⟨htells.forall (fun m a ha => hterm m (.inl ⟨a, ha⟩))
      fun m hm => hterm m (.inr hm), fun m hm hof htype => ?_⟩
    rw [List.mem_singleton.mp hm] at hof
    exact absurd (hdone.2.symm.trans (hof.2.trans htype)) (by decide)
  have hfill := htells.fills hP hQ hmono hrs
  rw [← recvDump_interrupted, hevs, recvDump_eq_dumpMsgs hpack hnames, dumpMsgs, List.map_append,
    List.foldlM_append]
  refine ⟨fun hfits => ?_, fun hfull => ?_⟩
  · rw [hfill.fits hfits, ok_bind, List.map_singleton, foldlM_singleton, recvMsg_done hdone]
  · obtain ⟨stop, hstop, hrc⟩ := hfill.full hfull
    rw [hstop, error_bind]
    exact congrArg some hrc

/-! ## The snapshot -/

/-- A socket on which a kernel answers the three requests. Between the messages of a dump there may
be any that are not of the dump and do not end it. -/
structure Answers (sock : NlSocket) (k : Kernel) : Prop where
  opened : sock.openError = none
  sent : sock.sent 1 = .ok 17 ∧ sock.sent 2 = .ok 24 ∧ sock.sent 3 = .ok 28
  links : DumpOf (sock.received 1) 1 (LinkMsg 1)
    (fun m => ¬ ConcernsDump 1 RTM_NEWLINK m.bytes) k.links
  addrs : DumpOf (sock.received 2) 2 (AddrMsg 2)
    (fun m => ¬ ConcernsDump 2 RTM_NEWADDR m.bytes ∨ OtherAddrMsg 2 m) k.addrs
  routes : DumpOf (sock.received 3) 3 (RouteMsg 3)
    (fun m => ¬ ConcernsDump 3 RTM_NEWROUTE m.bytes ∨ OtherRouteMsg 3 m) k.routes

section Snapshot

variable {sock : NlSocket} {k : Kernel}

theorem fits_zero : RealState.Fits .zero := by
  constructor <;> simp [RealState.zero]

theorem foldl_addLink (ls : List Link) (rs : RealState) :
    ls.foldl RealState.addLink rs = { rs with
      ifaces := rs.ifaces ++ ls.map Link.toIface
      vxlan := rs.vxlan ++ ls.filterMap Link.vxlanEntry
      vlan := rs.vlan ++ ls.filterMap Link.vlanEntry } := by
  induction ls generalizing rs with
  | nil => simp
  | cons l ls ih =>
    have hx : (l :: ls).filterMap Link.vxlanEntry =
        l.vxlanEntry.toList ++ ls.filterMap Link.vxlanEntry := by
      cases h : l.vxlanEntry <;> simp [h]
    have hv : (l :: ls).filterMap Link.vlanEntry =
        l.vlanEntry.toList ++ ls.filterMap Link.vlanEntry := by
      cases h : l.vlanEntry <;> simp [h]
    rw [List.foldl_cons, ih, hx, hv]
    simp [RealState.addLink]

theorem foldl_addAddr (l : List Addr4) (rs : RealState) :
    l.foldl RealState.addAddr rs = { rs with addr4 := rs.addr4 ++ l } := by
  induction l generalizing rs with
  | nil => simp
  | cons a l ih =>
    rw [List.foldl_cons, ih]
    simp [RealState.addAddr]

theorem foldl_addRoute (l : List Route4) (rs : RealState) :
    l.foldl RealState.addRoute rs = { rs with route4 := rs.route4 ++ l } := by
  induction l generalizing rs with
  | nil => simp
  | cons r l ih =>
    rw [List.foldl_cons, ih]
    simp [RealState.addRoute]

/-- A request that was sent whole is answered by its dump. -/
theorem NlSocket.dump_of_sent {seq bodyLen : Nat} (h : sock.sent seq = .ok (16 + bodyLen))
    (hlen : align4 (16 + bodyLen) ≤ 256) (type : Nat) (rs : RealState) :
    sock.dump seq bodyLen type rs = recvDump seq type (sock.received seq) (sock.buf seq) rs := by
  have hsend : nlSend (sock.sent seq) bodyLen = 0 := by
    simp only [nlSend, h, ne_eq, not_true_eq_false, if_false]
    exact if_neg (by omega)
  rw [NlSocket.dump, hsend, if_neg (by simp)]

theorem Answers.dumpLinks (h : Answers sock k) {rs : RealState} (hrs : rs.Fits) :
    Ends (dumpLinks sock rs) (k.links.foldl RealState.addLink rs) := by
  rw [Netrec.dumpLinks, NlSocket.dump_of_sent h.sent.1 (by decide)]
  refine h.links.ends (fun rs m l hf hm => hm.fills hf)
    (fun rs m hm => recvMsg_of_not_concerns hm rs)
    (fun _ _ => RealState.Fits.of_addLink) (fun m hm hof _ => ?_) hrs _
  obtain ⟨l, hl⟩ | hno := hm
  · exact hl.terminated
  · exact absurd (.inr hof) hno

theorem Answers.dumpAddr4 (h : Answers sock k) {rs : RealState} (hrs : rs.Fits) :
    Ends (dumpAddr4 sock rs) (k.addrs.foldl RealState.addAddr rs) := by
  rw [Netrec.dumpAddr4, NlSocket.dump_of_sent h.sent.2.1 (by decide)]
  exact h.addrs.ends (fun rs m a hf hm => hm.fills hf)
    (fun rs m hm => hm.elim (fun hno => recvMsg_of_not_concerns hno rs) fun ho => ho.recv rs)
    (fun _ _ => RealState.Fits.of_addAddr) (fun _ _ _ htype => absurd htype (by decide)) hrs _

theorem Answers.dumpRoute4 (h : Answers sock k) {rs : RealState} (hrs : rs.Fits) :
    Ends (dumpRoute4 sock rs) (k.routes.foldl RealState.addRoute rs) := by
  rw [Netrec.dumpRoute4, NlSocket.dump_of_sent h.sent.2.2 (by decide)]
  exact h.routes.ends (fun rs m r hf hm => hm.fills hf)
    (fun rs m hm => hm.elim (fun hno => recvMsg_of_not_concerns hno rs) fun ho => ho.recv rs)
    (fun _ _ => RealState.Fits.of_addRoute) (fun _ _ _ htype => absurd htype (by decide)) hrs _

/-- The three dumps fill the tables with the snapshot of the kernel. -/
theorem Answers.ends (h : Answers sock k) :
    Ends (nlLoadState sock) { k.snapshot with dns4 := [] } := by
  have hsnap : k.routes.foldl RealState.addRoute (k.addrs.foldl RealState.addAddr
      (k.links.foldl RealState.addLink .zero)) = { k.snapshot with dns4 := [] } := by
    rw [foldl_addRoute, foldl_addAddr, foldl_addLink]
    simp [Kernel.snapshot, RealState.zero]
  simp only [nlLoadState, h.opened]
  rw [← hsnap]
  refine .andThen (.andThen (h.dumpLinks fits_zero) h.dumpAddr4 fun hf => ?_) h.dumpRoute4
    fun hf => ?_
  · rw [foldl_addAddr] at hf
    exact ⟨hf.ifaces, fits_of_append hf.addr4, hf.route4, hf.vxlan, hf.vlan⟩
  · rw [foldl_addRoute] at hf
    exact ⟨hf.ifaces, hf.addr4, fits_of_append hf.route4, hf.vxlan, hf.vlan⟩

/-- **The snapshot is the kernel's.** Whatever else the messages carry, in whatever datagrams they
come and however often `recv` is interrupted, `nl_load_state` returns the links, addresses and
routes of the kernel in their order; a kernel that has more of them than the tables hold is refused
with `ENOSPC`. -/
theorem nlLoadState_answers (h : Answers sock k) :
    (k.snapshot.Fits → nlLoadState sock = .returned 0 { k.snapshot with dns4 := [] }) ∧
      (¬ k.snapshot.Fits → (nlLoadState sock).rc = some (-(Errno.ENOSPC.code : Int))) := by
  have hfits : ({ k.snapshot with dns4 := [] } : RealState).Fits ↔ k.snapshot.Fits :=
    ⟨fun hf => ⟨hf.ifaces, hf.addr4, hf.route4, hf.vxlan, hf.vlan⟩,
      fun hf => ⟨hf.ifaces, hf.addr4, hf.route4, hf.vxlan, hf.vlan⟩⟩
  exact ⟨fun hf => h.ends.fits (hfits.mpr hf), fun hf => h.ends.full (mt hfits.mp hf)⟩

end Snapshot

/-! ## A kernel that answers -/

/-- A network card. -/
def cardLink : Link :=
  { Kernel.newLink (cpy _ "eth0".toList) "" 2 none .other with flags := 1, carrier := some 1 }

/-- A VLAN on it. -/
def tagLink : Link := Kernel.newLink (cpy _ "eth0.5".toList) "vlan" 4 (some 2) (.vlan (some 5))

/-- A kernel with a VLAN on its only card, an address and a default route. -/
def smallKernel : Kernel where
  links := [cardLink, tagLink]
  addrs := [⟨2, 0x0a000001, 24⟩]
  routes := [⟨0, 0, 0x0a0000fe, true, 2⟩]
  dns := []
  names := by decide
  indexes := by decide
  pos := by decide

/-- The attributes of the card: its name and its carrier, and its MTU behind them. -/
def cardAttrs : List Attr := [
  ⟨IFLA_IFNAME, [101, 116, 104, 48, 0], by decide, by decide⟩,
  ⟨IFLA_CARRIER, [1], by decide, by decide⟩, ⟨4, leBytes 4 1500, by decide, by decide⟩]

/-- The attributes of the VLAN, with its number inside those of its kind. -/
def vlanAttrs : List Attr := [
  ⟨IFLA_IFNAME, [101, 116, 104, 48, 46, 53, 0], by decide, by decide⟩,
  ⟨IFLA_LINK, intBytes 2, by decide, by decide⟩,
  ⟨IFLA_LINKINFO, encodeAttrs [⟨IFLA_INFO_KIND, [118, 108, 97, 110, 0], by decide, by decide⟩,
    ⟨IFLA_INFO_DATA, encodeAttrs [⟨IFLA_VLAN_ID, leBytes 2 5, by decide, by decide⟩], by decide,
      by decide⟩], by decide, by decide +kernel⟩]

/-- The message about the card. -/
def cardMsg : NlMsg where
  bytes := msgBytes RTM_NEWLINK 2 1 (linkBytes 2 1 ++ encodeAttrs cardAttrs)
  isFrame := by decide +kernel

/-- The message about the VLAN. -/
def vlanMsg : NlMsg where
  bytes := msgBytes RTM_NEWLINK 2 1 (linkBytes 4 0 ++ encodeAttrs vlanAttrs)
  isFrame := by decide +kernel

/-- A notification that comes in between. -/
def noticeMsg : NlMsg where
  bytes := msgBytes RTM_NEWADDR 0 0 (leBytes 4 0)
  isFrame := by decide +kernel

/-- The message about the address. -/
def addrMsg : NlMsg where
  bytes := msgBytes RTM_NEWADDR 2 2 ([2, 24, 0, 0] ++ leBytes 4 2 ++
    encodeAttrs [⟨IFA_LOCAL, ip4Bytes 0x0a000001, by decide, by decide⟩])
  isFrame := by decide +kernel

/-- The message about the default route. -/
def routeMsg : NlMsg where
  bytes := msgBytes RTM_NEWROUTE 2 3 ([2, 0, 0, 0, 254, 3, 0, 1] ++ leBytes 4 0 ++
    encodeAttrs [⟨RTA_GATEWAY, ip4Bytes 0x0a0000fe, by decide, by decide⟩,
      ⟨RTA_OIF, intBytes 2, by decide, by decide⟩])
  isFrame := by decide +kernel

/-- The end of a dump. -/
def endMsg (seq : Nat) : NlMsg where
  bytes := msgBytes NLMSG_DONE 2 seq (leBytes 4 0)
  isFrame := ⟨by simp [msgBytes, length_leBytes, nlmsg], by
    simp only [nlmsg, RecFormat.len, msgBytes, List.append_assoc, leNat_leBytes]
    simp [length_leBytes], by simp [msgBytes, length_leBytes]⟩

/-- The socket on which it answers. -/
def smallSocket : NlSocket where
  openError := none
  sent seq := .ok (if seq = 1 then 17 else if seq = 2 then 24 else 28)
  received seq :=
    if seq = 1 then [datagram [cardMsg, noticeMsg], .fail EINTR, datagram [vlanMsg, endMsg 1]]
    else if seq = 2 then [datagram [addrMsg], datagram [endMsg 2]]
    else [datagram [routeMsg, endMsg 3]]
  buf _ := []

theorem cardMsg_describes : LinkMsg 1 cardMsg cardLink where
  ofDump := by decide +kernel
  isS32 := by decide +kernel
  body := ⟨leBytes 4 0, leBytes 4 0, cardAttrs, rfl, rfl, by decide +kernel,
    { name := ⟨[101, 116, 104, 48], by decide +kernel, by decide +kernel⟩
      carrier := by decide +kernel
      master := by decide +kernel
      link := by decide +kernel
      info := ⟨none, by decide +kernel, .inl (by decide +kernel), .inl (by decide +kernel)⟩
      isS32 := by decide +kernel }⟩

theorem vlanMsg_describes : LinkMsg 1 vlanMsg tagLink where
  ofDump := by decide +kernel
  isS32 := by decide +kernel
  body := ⟨leBytes 4 0, leBytes 4 0, vlanAttrs, rfl, rfl, by decide +kernel,
    { name := ⟨[101, 116, 104, 48, 46, 53], by decide +kernel, by decide +kernel⟩
      carrier := by decide +kernel
      master := by decide +kernel
      link := by decide +kernel
      info := ⟨some [⟨IFLA_INFO_KIND, [118, 108, 97, 110, 0], by decide, by decide⟩,
          ⟨IFLA_INFO_DATA, encodeAttrs [⟨IFLA_VLAN_ID, leBytes 2 5, by decide, by decide⟩],
            by decide, by decide⟩], by decide +kernel,
        .inr ⟨[118, 108, 97, 110], by decide +kernel, by decide +kernel⟩,
        by decide +kernel, [⟨IFLA_VLAN_ID, leBytes 2 5, by decide, by decide⟩], by decide +kernel,
        by decide +kernel, by rintro _ ⟨⟩; decide⟩
      isS32 := by decide +kernel }⟩

theorem smallSocket_answers : Answers smallSocket smallKernel where
  opened := rfl
  sent := ⟨rfl, rfl, rfl⟩
  links := ⟨[[cardMsg, noticeMsg], [vlanMsg, endMsg 1]], [cardMsg, noticeMsg, vlanMsg], endMsg 1,
    rfl, ⟨rfl, by simp, by decide +kernel⟩,
    .entry cardMsg_describes (.other (by decide +kernel) (.entry vlanMsg_describes .nil)),
    by decide +kernel⟩
  addrs := ⟨[[addrMsg], [endMsg 2]], [addrMsg], endMsg 2, rfl, ⟨rfl, by simp, by decide +kernel⟩,
    .entry ⟨by decide +kernel, by decide +kernel, by decide +kernel,
      [0, 0], [⟨IFA_LOCAL, ip4Bytes 0x0a000001, by decide, by decide⟩], rfl, by decide +kernel,
      .inl (by decide +kernel)⟩ .nil, by decide +kernel⟩
  routes := ⟨[[routeMsg, endMsg 3]], [routeMsg], endMsg 3, rfl, ⟨rfl, by simp, by decide +kernel⟩,
    .entry ⟨by decide +kernel, by decide +kernel, by decide +kernel, 0, 0, 254, 3, 0, 1,
      leBytes 4 0, [⟨RTA_GATEWAY, ip4Bytes 0x0a0000fe, by decide, by decide⟩,
        ⟨RTA_OIF, intBytes 2, by decide, by decide⟩], rfl, by decide +kernel, .inl rfl,
      .inr (by decide +kernel), .inr (by decide +kernel), .inl (by decide +kernel),
      .inl (by decide +kernel)⟩ .nil, by decide +kernel⟩

theorem smallKernel_loaded : smallKernel.snapshot.Fits ∧
    nlLoadState smallSocket = .returned 0 { smallKernel.snapshot with dns4 := [] } := by
  have hfits : smallKernel.snapshot.Fits := by constructor <;> decide +kernel
  exact ⟨hfits, (nlLoadState_answers smallSocket_answers).1 hfits⟩

end Netrec
