import Netrec.Netlink.Message

/-!
# Dumps and how they are packed

A message is processed in the buffer it arrived in, together with everything that follows it there.
What it adds to the tables depends on the message alone, as long as the names in it are terminated;
the result of a dump is then a function of the sequence of its messages, whatever datagrams they
came in, and a dump that succeeds has added exactly the entries of the messages that belong to it.

## Main definitions

* `NlMsg`: a message with its length right, of a size that is a multiple of four
* `NlMsg.Terminated`: the names in a link message end inside it
* `IsPacking`: messages in datagrams that fit the receive buffer
* `Grown`: the tables after the entries of some messages have been added
* `EntriesExact`: which messages have entries, in terms of their fields and attributes

## Main results

* `recvMsg_append`: a message is processed alone
* `recvDump_packed`: the result of a dump is the fold over its messages
-/

namespace Netrec

open CLib

/-! ## Attributes inside a message -/

/-- An attribute whose header and data are there. -/
def InBounds (rta : Bytes) : Prop := 4 ≤ rtattr.len rta ∧ rtattr.len rta ≤ rta.length

namespace AttrTable

/-- All attributes of the table are there. -/
def Inside (tb : AttrTable) : Prop := ∀ k rta, tb k = some rta → InBounds rta

/-- The same attributes in a longer memory. -/
def append (tb : AttrTable) (t : Bytes) : AttrTable := fun k => (tb k).map (· ++ t)

end AttrTable

theorem InBounds.len_append {rta : Bytes} (h : InBounds rta) (t : Bytes) :
    rtattr.len (rta ++ t) = rtattr.len rta :=
  RecFormat.len_append (h.1.trans h.2) t

theorem rtaType_append {rta : Bytes} (h : InBounds rta) (t : Bytes) :
    rtaType (rta ++ t) = rtaType rta := by
  unfold rtaType
  rw [leNat_drop_append (h.1.trans h.2)]

theorem rtaPayload_append {rta : Bytes} (h : InBounds rta) (t : Bytes) :
    rtaPayload (rta ++ t) = rtaPayload rta := by
  unfold rtaPayload
  rw [h.len_append]

theorem rtaData_append {rta : Bytes} (h : InBounds rta) (t : Bytes) :
    rtaData (rta ++ t) = rtaData rta ++ t :=
  List.drop_append_of_le_length (h.1.trans h.2)

theorem rtaPayload_le {rta : Bytes} (h : InBounds rta) : rtaPayload rta ≤ (rtaData rta).length := by
  unfold rtaPayload rtaData
  rw [List.length_drop]
  have := h.1
  have := h.2
  omega

theorem setRtattr_append {max : Nat} {tb : AttrTable} {rta : Bytes} (h : InBounds rta) (t : Bytes) :
    setRtattr max (tb.append t) (rta ++ t) = (setRtattr max tb rta).append t := by
  unfold setRtattr
  rw [rtaType_append h]
  split
  · funext k
    by_cases hk : k = rtaType rta
    · subst hk
      simp [AttrTable.append]
    · simp [AttrTable.append, hk]
  · rfl

/-- **The attributes of a message do not depend on what follows it.** -/
theorem parseRtattr_append {max : Nat} {p : Bytes} {len : Int} (h : len ≤ p.length) (t : Bytes) :
    parseRtattr max (p ++ t) len = (parseRtattr max p len).append t := by
  have key : ∀ (l : List Bytes) (tb : AttrTable), (∀ rta ∈ l, InBounds rta) →
      (l.map (· ++ t)).foldl (setRtattr max) (tb.append t) =
        (l.foldl (setRtattr max) tb).append t := by
    intro l
    induction l with
    | nil => exact fun _ _ => rfl
    | cons rta l ih =>
      intro tb hl
      rw [List.map_cons, List.foldl_cons, List.foldl_cons, setRtattr_append (hl rta (by simp)),
        ih _ fun r hr => hl r (List.mem_cons_of_mem _ hr)]
  unfold parseRtattr
  rw [RecFormat.records_append h]
  exact key _ (fun _ => none) fun rta hrta => RecFormat.mem_records (F := rtattr) h hrta

/-- **What is in the table** are records of the right type that the loop has visited. -/
theorem parseRtattr_eq_some {max k : Nat} {p rta : Bytes} {len : Int} (h : parseRtattr max p len k = some rta) :
    k ≤ max ∧ rtaType rta = k ∧ rta ∈ (rtattr.records p len).1 := by
  revert k rta
  refine List.foldlRecOn (motive := fun tb : AttrTable => ∀ {k : Nat} {rta : Bytes}, tb k = some rta →
    k ≤ max ∧ rtaType rta = k ∧ rta ∈ (rtattr.records p len).1) _ _ (fun h => by cases h) ?_
  intro tb htb rta hrta k r hk
  unfold setRtattr at hk
  split_ifs at hk with hmax
  · by_cases hkt : k = rtaType rta
    · subst hkt
      rw [Function.update_self] at hk
      obtain rfl := Option.some.inj hk
      exact ⟨hmax, rfl, hrta⟩
    · rw [Function.update_of_ne hkt] at hk
      exact htb hk
  · exact htb hk

/-- The attributes of a message lie inside it. -/
theorem parseRtattr_inside (max : Nat) {p : Bytes} {len : Int} (h : len ≤ p.length) :
    (parseRtattr max p len).Inside :=
  fun _ _ hk => RecFormat.mem_records h (parseRtattr_eq_some hk).2.2

section Table

variable {tb : AttrTable} (htb : tb.Inside) (t : Bytes)

include htb

theorem attrData_append (n : Int) (k : Nat) :
    attrData n (tb.append t k) = (attrData n (tb k)).map (· ++ t) := by
  unfold AttrTable.append attrData
  cases hk : tb k with
  | none => rfl
  | some rta =>
    have hin := htb k rta hk
    simp only [Option.map_some, Option.bind_some]
    rw [rtaPayload_append hin, rtaData_append hin]
    split <;> rfl

omit t in
theorem attrData_length {n : Int} {k : Nat} {p : Bytes} (h : attrData n (tb k) = some p) :
    n ≤ p.length := by
  unfold attrData at h
  obtain ⟨rta, hk, h⟩ := Option.bind_eq_some_iff.mp h
  split at h
  · rename_i hn
    rw [← Option.some.inj h]
    exact hn.trans (rtaPayload_le (htb k rta hk))
  · cases h

theorem attrNat_append (n k : Nat) : attrNat n (tb.append t k) = attrNat n (tb k) := by
  unfold attrNat
  rw [attrData_append htb, Option.map_map]
  cases hk : attrData n (tb k) with
  | none => rfl
  | some p =>
    have := attrData_length htb hk
    exact congrArg some (leNat_append (by omega) t)

theorem attrIndex_append (k : Nat) : attrIndex (tb.append t k) = attrIndex (tb k) := by
  unfold attrIndex
  rw [attrNat_append htb]

theorem attrIp4_append (k : Nat) : attrIp4 (tb.append t k) = attrIp4 (tb k) := by
  unfold attrIp4
  rw [attrData_append htb, Option.map_map]
  cases hk : attrData 4 (tb k) with
  | none => rfl
  | some p =>
    have := attrData_length htb hk
    have hbe := beNat_drop_append (n := 4) (k := 0) (p := p) (by omega) t
    rw [List.drop_zero, List.drop_zero] at hbe
    exact congrArg (some ∘ UInt32.ofNat) hbe

/-! ## Link messages -/

theorem linkInfo_append : linkInfo (tb.append t) = (linkInfo tb).map (·.append t) := by
  unfold linkInfo AttrTable.append
  cases hk : tb IFLA_LINKINFO with
  | none => rfl
  | some info =>
    have hin := htb _ info hk
    simp only [Option.map_some]
    rw [rtaPayload_append hin, rtaData_append hin, parseRtattr_append (rtaPayload_le hin)]
    rfl

omit t in
theorem linkInfo_inside {li : AttrTable} (h : linkInfo tb = some li) : li.Inside := by
  unfold linkInfo at h
  obtain ⟨info, hk, rfl⟩ := Option.map_eq_some_iff.mp h
  exact parseRtattr_inside _ (rtaPayload_le (htb _ info hk))

theorem infoKind_append : infoKind (tb.append t) = (infoKind tb).map (· ++ t) := by
  unfold infoKind
  rw [linkInfo_append htb]
  cases linkInfo tb <;> rfl

omit t in
theorem infoKind_inside {kind : Bytes} (h : infoKind tb = some kind) : InBounds kind := by
  unfold infoKind at h
  obtain ⟨li, hli, h⟩ := Option.bind_eq_some_iff.mp h
  exact linkInfo_inside htb hli _ kind h

end Table

/-- The names in the attributes of a link end before the message does. -/
def AttrTable.Terminated (tb : AttrTable) : Prop :=
  (∀ name ∈ tb IFLA_IFNAME, 0 ∈ rtaData name) ∧ ∀ kind ∈ infoKind tb, 0 ∈ rtaData kind

instance (tb : AttrTable) : Decidable tb.Terminated := inferInstanceAs (Decidable (_ ∧ _))

section Link

variable {tb : AttrTable} (htb : tb.Inside) (hterm : tb.Terminated) (t : Bytes)

include htb hterm

theorem linkKind_append : linkKind (tb.append t) = linkKind tb := by
  unfold linkKind
  rw [infoKind_append htb]
  cases hk : infoKind tb with
  | none => rfl
  | some kind =>
    refine CBuf.ext ?_
    simp only [Option.map_some, cpy]
    rw [rtaData_append (infoKind_inside htb hk), cstr_chars_append (hterm.2 kind hk)]

theorem infoData_append (kind : CStr) :
    infoData (tb.append t) kind = (infoData tb kind).map (· ++ t) := by
  unfold infoData
  rw [infoKind_append htb, linkInfo_append htb]
  cases hk : infoKind tb with
  | none => rfl
  | some k =>
    simp only [Option.map_some, Option.bind_some]
    rw [rtaData_append (infoKind_inside htb hk), cstr_chars_append (hterm.2 k hk)]
    split
    · cases linkInfo tb <;> rfl
    · rfl

omit hterm t in
theorem infoData_inside {kind : CStr} {data : Bytes} (h : infoData tb kind = some data) :
    InBounds data := by
  unfold infoData at h
  obtain ⟨k, -, h⟩ := Option.bind_eq_some_iff.mp h
  split at h
  · obtain ⟨li, hli, h⟩ := Option.bind_eq_some_iff.mp h
    exact linkInfo_inside htb hli _ data h
  · cases h

theorem ifname_append {name : Bytes} (h : tb IFLA_IFNAME = some name) :
    cpy IFNAMSIZ (chars (rtaData (name ++ t))) = cpy IFNAMSIZ (chars (rtaData name)) := by
  refine CBuf.ext ?_
  simp only [cpy]
  rw [rtaData_append (htb _ name h), cstr_chars_append (hterm.1 name h)]

variable {ifi : Bytes} (hifi : 12 ≤ ifi.length)

include hifi

theorem ifaceEntry_append : ifaceEntry (ifi ++ t) (tb.append t) = ifaceEntry ifi tb := by
  unfold ifaceEntry ifiIndex
  rw [linkKind_append htb hterm, attrNat_append htb, attrIndex_append htb, attrIndex_append htb,
    leNat_drop_append (by omega), leNat_drop_append (by omega)]
  unfold AttrTable.append
  cases hk : tb IFLA_IFNAME with
  | none => rfl
  | some name =>
    simp only [Option.map_some]
    rw [ifname_append htb hterm t hk]

theorem vxlanEntry_append : vxlanEntry (ifi ++ t) (tb.append t) = vxlanEntry ifi tb := by
  unfold vxlanEntry ifiIndex
  rw [infoData_append htb hterm, leNat_drop_append (by omega)]
  unfold AttrTable.append
  cases hk : tb IFLA_IFNAME with
  | none => rfl
  | some name =>
    cases hd : infoData tb "vxlan".toList with
    | none => rfl
    | some data =>
      have hin := infoData_inside htb hd
      have hvx := parseRtattr_inside IFLA_VXLAN_MAX (rtaPayload_le hin)
      simp only [Option.map_some, Option.bind_eq_bind, Option.bind_some]
      rw [rtaPayload_append hin, rtaData_append hin, parseRtattr_append (rtaPayload_le hin),
        attrNat_append hvx, attrIp4_append hvx, attrIndex_append hvx, ifname_append htb hterm t hk]

theorem vlanEntry_append : vlanEntry (ifi ++ t) (tb.append t) = vlanEntry ifi tb := by
  unfold vlanEntry ifiIndex
  rw [infoData_append htb hterm, leNat_drop_append (by omega), attrIndex_append htb]
  unfold AttrTable.append
  cases hk : tb IFLA_IFNAME with
  | none => rfl
  | some name =>
    cases hd : infoData tb "vlan".toList with
    | none => rfl
    | some data =>
      have hin := infoData_inside htb hd
      have hvl := parseRtattr_inside IFLA_VLAN_MAX (rtaPayload_le hin)
      simp only [Option.map_some, Option.bind_eq_bind, Option.bind_some]
      rw [rtaPayload_append hin, rtaData_append hin, parseRtattr_append (rtaPayload_le hin),
        attrNat_append hvl, ifname_append htb hterm t hk]

end Link

/-! ## Messages -/

/-- A message of the dump with the given sequence number and type. -/
def OfDump (seq type : Nat) (nh : Bytes) : Prop := nlmsgSeq nh = seq ∧ nlmsgType nh = type

/-- A message that ends a dump. -/
def EndsDump (seq : Nat) (nh : Bytes) : Prop :=
  OfDump seq NLMSG_DONE nh ∨ OfDump seq NLMSG_ERROR nh

instance (seq type : Nat) (nh : Bytes) : Decidable (OfDump seq type nh) :=
  inferInstanceAs (Decidable (_ ∧ _))

instance (seq : Nat) (nh : Bytes) : Decidable (EndsDump seq nh) :=
  inferInstanceAs (Decidable (_ ∨ _))

theorem recvMsg_done {seq type : Nat} {nh : Bytes} (hd : OfDump seq NLMSG_DONE nh)
    (rs : RealState) : recvMsg seq type rs nh = .error ⟨0, rs⟩ := by
  unfold recvMsg
  rw [if_neg (not_not.mpr hd.1), if_pos hd.2]

theorem recvMsg_error {seq type : Nat} {nh : Bytes} (he : OfDump seq NLMSG_ERROR nh)
    (rs : RealState) : recvMsg seq type rs nh = .error ⟨nlErr nh, rs⟩ := by
  have hne : nlmsgType nh ≠ NLMSG_DONE := by
    rw [he.2]
    decide
  unfold recvMsg
  rw [if_neg (not_not.mpr he.1), if_neg hne, if_pos he.2]

theorem recvMsg_of_not_ends {seq type : Nat} {nh : Bytes} (h : ¬ EndsDump seq nh)
    (rs : RealState) :
    recvMsg seq type rs nh = if OfDump seq type nh then parseMsg type rs nh else .ok rs := by
  unfold recvMsg
  by_cases hseq : nlmsgSeq nh = seq
  · have hdone : nlmsgType nh ≠ NLMSG_DONE := fun hd => h (.inl ⟨hseq, hd⟩)
    have herr : nlmsgType nh ≠ NLMSG_ERROR := fun he => h (.inr ⟨hseq, he⟩)
    rw [if_neg (not_not.mpr hseq), if_neg hdone, if_neg herr]
    by_cases htype : nlmsgType nh = type
    · rw [if_neg (not_not.mpr htype), if_pos ⟨hseq, htype⟩]
    · rw [if_pos htype, if_neg fun hof => htype hof.2]
  · rw [if_pos hseq, if_neg fun hof => hseq hof.1]

/-- A message whose header and body are there. -/
def MsgInBounds (nh : Bytes) : Prop := 16 ≤ nlmsgLen nh ∧ nlmsgLen nh ≤ nh.length

namespace MsgInBounds

variable {nh : Bytes} (h : MsgInBounds nh) (t : Bytes)

include h

omit t in
theorem hdr_le : 16 ≤ nh.length := h.1.trans h.2

theorem nlmsgLen_append : nlmsgLen (nh ++ t) = nlmsgLen nh := RecFormat.len_append h.hdr_le t

theorem nlmsgType_append : nlmsgType (nh ++ t) = nlmsgType nh := by
  have := h.hdr_le
  exact leNat_drop_append (by omega) t

theorem nlmsgSeq_append : nlmsgSeq (nh ++ t) = nlmsgSeq nh := by
  have := h.hdr_le
  exact leNat_drop_append (by omega) t

theorem nlmsgData_append : nlmsgData (nh ++ t) = nlmsgData nh ++ t :=
  List.drop_append_of_le_length h.hdr_le

theorem nlErr_append : nlErr (nh ++ t) = nlErr nh := by
  have := h.2
  have hlen : (nlmsgData nh).length = nh.length - 16 := List.length_drop
  unfold nlErr
  rw [h.nlmsgLen_append, h.nlmsgData_append]
  split
  · rfl
  · rw [leNat_append (by omega)]

end MsgInBounds

/-- A netlink message of a size that is a multiple of four. -/
structure NlMsg where
  bytes : Bytes
  isFrame : nlmsg.IsFrame bytes

namespace NlMsg

variable (m : NlMsg)

@[simp] theorem nlmsgLen_bytes : nlmsgLen m.bytes = m.bytes.length := m.isFrame.2.1

theorem inBounds : MsgInBounds m.bytes := ⟨m.nlmsgLen_bytes ▸ m.isFrame.1, m.nlmsgLen_bytes.le⟩

theorem nlmsgLen_append (t : Bytes) : nlmsgLen (m.bytes ++ t) = m.bytes.length := by
  rw [m.inBounds.nlmsgLen_append, m.nlmsgLen_bytes]

theorem nlmsgData_length : (nlmsgData m.bytes).length = m.bytes.length - 16 := List.length_drop

variable {m}

theorem msgAttrs_len_le {size : Nat} (h : 16 + size ≤ m.bytes.length) :
    ((nlmsgLen m.bytes : Int) - (16 + size : Nat)) ≤ ((nlmsgData m.bytes).drop size).length := by
  rw [m.nlmsgLen_bytes, List.length_drop, m.nlmsgData_length]
  omega

theorem msgAttrs_append {max size : Nat} (h : 16 + size ≤ m.bytes.length) (t : Bytes) :
    msgAttrs max size (m.bytes ++ t) = (msgAttrs max size m.bytes).append t := by
  have := m.nlmsgData_length
  unfold msgAttrs
  rw [m.nlmsgLen_append, m.inBounds.nlmsgData_append, List.drop_append_of_le_length (by omega),
    ← m.nlmsgLen_bytes]
  exact parseRtattr_append (msgAttrs_len_le h) t

theorem msgAttrs_inside (max : Nat) {size : Nat} (h : 16 + size ≤ m.bytes.length) :
    (msgAttrs max size m.bytes).Inside :=
  parseRtattr_inside max (msgAttrs_len_le h)

theorem addrEntry_append (h : 16 + 8 ≤ m.bytes.length) (t : Bytes) :
    addrEntry (m.bytes ++ t) = addrEntry m.bytes := by
  have := m.nlmsgData_length
  have hin := msgAttrs_inside IFA_MAX h
  unfold addrEntry
  simp only [m.inBounds.nlmsgData_append, msgAttrs_append h]
  have hor : (((msgAttrs IFA_MAX 8 m.bytes).append t IFA_LOCAL).or
      ((msgAttrs IFA_MAX 8 m.bytes).append t IFA_ADDRESS)) =
        (if (msgAttrs IFA_MAX 8 m.bytes IFA_LOCAL).isSome then
          (msgAttrs IFA_MAX 8 m.bytes).append t IFA_LOCAL
        else (msgAttrs IFA_MAX 8 m.bytes).append t IFA_ADDRESS) := by
    unfold AttrTable.append
    cases msgAttrs IFA_MAX 8 m.bytes IFA_LOCAL <;> rfl
  rw [hor, leNat_append (by omega), leNat_drop_append (by omega), leNat_drop_append (by omega)]
  cases hl : msgAttrs IFA_MAX 8 m.bytes IFA_LOCAL with
  | none => simp [attrIp4_append hin]
  | some local' => simp [attrIp4_append hin, hl]

theorem routeEntry_append (h : 16 + 12 ≤ m.bytes.length) (t : Bytes) :
    routeEntry (m.bytes ++ t) = routeEntry m.bytes := by
  have := m.nlmsgData_length
  have hin := msgAttrs_inside RTA_MAX h
  unfold routeEntry routeTable
  simp only [m.inBounds.nlmsgData_append, msgAttrs_append h, attrIndex_append hin, attrIp4_append hin]
  rw [leNat_append (by omega), leNat_drop_append (by omega), leNat_drop_append (by omega),
    leNat_drop_append (by omega)]

variable (m) in
/-- The names in a link message end inside it. -/
def Terminated : Prop := (msgAttrs IFLA_MAX 16 m.bytes).Terminated

instance : Decidable m.Terminated := inferInstanceAs (Decidable (AttrTable.Terminated _))

theorem parseLinkMsg_append {rs : RealState} (hterm : m.Terminated) (t : Bytes) :
    parseLinkMsg rs (m.bytes ++ t) = parseLinkMsg rs m.bytes := by
  unfold parseLinkMsg
  rw [m.nlmsgLen_append, m.nlmsgLen_bytes]
  split
  · rfl
  · rename_i hlen
    have h : 16 + 16 ≤ m.bytes.length := by omega
    have hifi : 12 ≤ (nlmsgData m.bytes).length := by
      rw [m.nlmsgData_length]
      omega
    have hin := msgAttrs_inside IFLA_MAX h
    have hi : ∀ rs, addIface rs (nlmsgData m.bytes ++ t) ((msgAttrs IFLA_MAX 16 m.bytes).append t) =
        addIface rs (nlmsgData m.bytes) (msgAttrs IFLA_MAX 16 m.bytes) := fun rs => by
      rw [addIface, ifaceEntry_append hin hterm t hifi, addIface]
    have hx : ∀ rs, addVxlan rs (nlmsgData m.bytes ++ t) ((msgAttrs IFLA_MAX 16 m.bytes).append t) =
        addVxlan rs (nlmsgData m.bytes) (msgAttrs IFLA_MAX 16 m.bytes) := fun rs => by
      rw [addVxlan, vxlanEntry_append hin hterm t hifi, addVxlan]
    have hl : ∀ rs, addVlan rs (nlmsgData m.bytes ++ t) ((msgAttrs IFLA_MAX 16 m.bytes).append t) =
        addVlan rs (nlmsgData m.bytes) (msgAttrs IFLA_MAX 16 m.bytes) := fun rs => by
      rw [addVlan, vlanEntry_append hin hterm t hifi, addVlan]
    simp only [m.inBounds.nlmsgData_append, msgAttrs_append h, hi, hx, hl]

/-- **A message is processed alone.** What it adds does not depend on the bytes behind it. -/
theorem recvMsg_append {seq type : Nat} {rs : RealState}
    (hterm : OfDump seq type m.bytes → type = RTM_NEWLINK → m.Terminated) (t : Bytes) :
    recvMsg seq type rs (m.bytes ++ t) = recvMsg seq type rs m.bytes := by
  unfold recvMsg
  rw [m.inBounds.nlmsgSeq_append, m.inBounds.nlmsgType_append, m.inBounds.nlErr_append]
  split
  · rfl
  rename_i hseq
  split
  · rfl
  split
  · rfl
  split
  · rfl
  rename_i htype
  simp only [ne_eq, not_not] at hseq htype
  unfold parseMsg
  split
  · rename_i hlink
    exact parseLinkMsg_append (hterm ⟨hseq, htype⟩ hlink) t
  split
  · unfold parseAddrMsg
    rw [m.nlmsgLen_append, m.nlmsgLen_bytes]
    split
    · rfl
    · rw [addrEntry_append (by omega)]
  split
  · unfold parseRouteMsg
    rw [m.nlmsgLen_append, m.nlmsgLen_bytes]
    split
    · rfl
    · rw [routeEntry_append (by omega)]
  · rfl

end NlMsg

/-! ## Datagrams -/

/-- Messages in one datagram. -/
def datagram (g : List NlMsg) : RecvEvent := .data (g.map NlMsg.bytes).flatten

/-- Messages in datagrams that are not empty and fit the receive buffer. -/
structure IsPacking (groups : List (List NlMsg)) (msgs : List NlMsg) : Prop where
  flatten : groups.flatten = msgs
  nonempty : ∀ g ∈ groups, g ≠ []
  fits : ∀ g ∈ groups, (g.map NlMsg.bytes).flatten.length ≤ NL_BUF_SZ

/-- The messages of a dump, one after the other. -/
def dumpMsgs (seq type : Nat) (msgs : List NlMsg) (rs : RealState) : DumpEnd :=
  match (msgs.map NlMsg.bytes).foldlM (recvMsg seq type) rs with
  | .error stop => .returned stop.rc stop.rs
  | .ok rs => .waiting rs

section Packing

variable {seq type : Nat}

/-- The names in the messages of a link dump are terminated. -/
def NamesTerminated (seq type : Nat) (msgs : List NlMsg) : Prop :=
  ∀ m ∈ msgs, OfDump seq type m.bytes → type = RTM_NEWLINK → m.Terminated

/-- The messages of a datagram are processed as if each stood alone. -/
theorem foldlM_recvMsg_records {g : List NlMsg} (hterm : NamesTerminated seq type g)
    {ps : List Bytes} (hps : List.Forall₂ (· <+: ·) (g.map NlMsg.bytes) ps) (rs : RealState) :
    ps.foldlM (recvMsg seq type) rs = (g.map NlMsg.bytes).foldlM (recvMsg seq type) rs := by
  induction g generalizing ps rs with
  | nil =>
    cases hps
    rfl
  | cons m g ih =>
    obtain ⟨hm, hg⟩ := List.forall_mem_cons.mp hterm
    obtain ⟨p, ps, ⟨t, rfl⟩, hps', rfl⟩ := List.forall₂_cons_left_iff.mp hps
    rw [List.map_cons, List.foldlM_cons, List.foldlM_cons, NlMsg.recvMsg_append hm]
    exact bind_congr fun rs => ih hg hps' rs

theorem flatten_bytes_ne_nil {g : List NlMsg} (h : g ≠ []) : (g.map NlMsg.bytes).flatten ≠ [] := by
  obtain ⟨m, g, rfl⟩ := List.exists_cons_of_ne_nil h
  intro hnil
  have := m.inBounds.hdr_le
  rw [List.map_cons, List.flatten_cons, List.append_eq_nil_iff] at hnil
  rw [hnil.1] at this
  exact absurd this (by decide)

/-- **A dump is a fold over its messages**, whatever datagrams they came in. -/
theorem recvDump_eq_dumpMsgs {groups : List (List NlMsg)} {msgs : List NlMsg}
    (hp : IsPacking groups msgs) (hterm : NamesTerminated seq type msgs) (buf : Bytes)
    (rs : RealState) :
    recvDump seq type (groups.map datagram) buf rs = dumpMsgs seq type msgs rs := by
  obtain ⟨rfl, hne, hfits⟩ := hp
  induction groups generalizing buf rs with
  | nil => rfl
  | cons g groups ih =>
    obtain ⟨hg, hne⟩ := List.forall_mem_cons.mp hne
    obtain ⟨hgf, hfits⟩ := List.forall_mem_cons.mp hfits
    have hd : (g.map NlMsg.bytes).flatten.take NL_BUF_SZ = (g.map NlMsg.bytes).flatten :=
      List.take_of_length_le hgf
    have hlen : (g.map NlMsg.bytes).flatten.length ≠ 0 :=
      mt List.length_eq_zero_iff.mp (flatten_bytes_ne_nil hg)
    have hframes : ∀ b ∈ g.map NlMsg.bytes, nlmsg.IsFrame b := by
      intro b hb
      obtain ⟨m, -, rfl⟩ := List.mem_map.mp hb
      exact m.isFrame
    obtain ⟨hterm₁, hterm₂⟩ := List.forall_mem_append.mp hterm
    obtain ⟨ps, hrec, hps⟩ :=
      RecFormat.records_flatten hframes (buf.drop (g.map NlMsg.bytes).flatten.length)
    have hfold := foldlM_recvMsg_records hterm₁ hps rs
    rw [List.map_cons, datagram, recvDump]
    simp only [recvInto, hd, hlen, if_false, hrec]
    unfold dumpMsgs recvMsgs
    rw [hfold, List.flatten_cons, List.map_append, List.foldlM_append]
    cases (g.map NlMsg.bytes).foldlM (recvMsg seq type) rs with
    | error stop => rfl
    | ok rs₁ => exact ih _ rs₁ hne hfits hterm₂

/-! ## Messages of other dumps -/

/-- A message that a dump looks at: its own messages and those that end it. -/
def ConcernsDump (seq type : Nat) (nh : Bytes) : Prop := EndsDump seq nh ∨ OfDump seq type nh

instance (seq type : Nat) (nh : Bytes) : Decidable (ConcernsDump seq type nh) :=
  inferInstanceAs (Decidable (_ ∨ _))

theorem recvMsg_of_not_concerns {nh : Bytes} (h : ¬ ConcernsDump seq type nh) (rs : RealState) :
    recvMsg seq type rs nh = .ok rs := by
  obtain ⟨hends, hof⟩ := not_or.mp h
  rw [recvMsg_of_not_ends hends, if_neg hof]

theorem dumpMsgs_filter (msgs : List NlMsg) (rs : RealState) :
    dumpMsgs seq type (msgs.filter fun m => ConcernsDump seq type m.bytes) rs =
      dumpMsgs seq type msgs rs := by
  unfold dumpMsgs
  rw [List.foldlM_map, List.foldlM_map, foldlM_filter]
  exact fun rs m hm => recvMsg_of_not_concerns (of_decide_eq_false hm) rs

end Packing

/-! ## What a dump adds -/

section Entries

variable (nh : Bytes)

/-- The interface of a link message: one when it carries `IFLA_IFNAME`. -/
def msgIface : Option Iface :=
  if nlmsgType nh = RTM_NEWLINK then ifaceEntry (nlmsgData nh) (msgAttrs IFLA_MAX 16 nh) else none

/-- The VXLAN of a link message: one when a named link is of this kind and has link data. -/
def msgVxlan : Option Vxlan :=
  if nlmsgType nh = RTM_NEWLINK then vxlanEntry (nlmsgData nh) (msgAttrs IFLA_MAX 16 nh) else none

/-- The VLAN of a link message: one when a named link is of this kind and has link data. -/
def msgVlan : Option Vlan :=
  if nlmsgType nh = RTM_NEWLINK then vlanEntry (nlmsgData nh) (msgAttrs IFLA_MAX 16 nh) else none

/-- The address of an address message. -/
def msgAddr4 : Option Addr4 := if nlmsgType nh = RTM_NEWADDR then addrEntry nh else none

/-- The route of a route message. -/
def msgRoute4 : Option Route4 := if nlmsgType nh = RTM_NEWROUTE then routeEntry nh else none

end Entries

/-! ## Which messages have an entry -/

/-- The attributes inside an attribute. -/
def nestedAttrs (rta : Bytes) : List Bytes := (rtattr.records (rtaData rta) (rtaPayload rta)).1

/-- The last attribute of a type. -/
def lastAttr (k : Nat) (attrs : List Bytes) : Option Bytes := attrs.reverse.find? (rtaType · = k)

section Conditions

variable (nh : Bytes)

/-- The attributes of a message behind a fixed part of `size` bytes. -/
def attrsOf (size : Nat) : List Bytes :=
  (rtattr.records ((nlmsgData nh).drop size) (nlmsgLen nh - (16 + size))).1

/-- A link message that carries `IFLA_IFNAME`. -/
def NamedLink : Prop :=
  nlmsgType nh = RTM_NEWLINK ∧ ∃ rta ∈ attrsOf nh 16, rtaType rta = IFLA_IFNAME

/-- A named link of a kind, with data of this kind. -/
def LinkOfKind (kind : CStr) : Prop :=
  NamedLink nh ∧ ∃ info ∈ lastAttr IFLA_LINKINFO (attrsOf nh 16),
    (∃ k ∈ lastAttr IFLA_INFO_KIND (nestedAttrs info), cstr (chars (rtaData k)) = kind) ∧
      ∃ rta ∈ nestedAttrs info, rtaType rta = IFLA_INFO_DATA

/-- An IPv4 address message: `IFA_LOCAL`, or `IFA_ADDRESS` where there is none, has four bytes. -/
def InetAddr : Prop :=
  nlmsgType nh = RTM_NEWADDR ∧ leNat 1 (nlmsgData nh) = AF_INET ∧
    ∃ rta ∈ (lastAttr IFA_LOCAL (attrsOf nh 8)).or (lastAttr IFA_ADDRESS (attrsOf nh 8)),
      4 ≤ rtaPayload rta

/-- The table of a route: `RTA_TABLE` if it has four bytes, `rtm_table` otherwise. -/
def tableOf : Nat :=
  match (lastAttr RTA_TABLE (attrsOf nh 12)).filter fun rta => 4 ≤ rtaPayload rta with
  | some rta => leNat 4 (rtaData rta)
  | none => leNat 1 ((nlmsgData nh).drop 4)

/-- A message of an IPv4 route, unicast or local, in the main table. -/
def MainRoute : Prop :=
  nlmsgType nh = RTM_NEWROUTE ∧ leNat 1 (nlmsgData nh) = AF_INET ∧
    (leNat 1 ((nlmsgData nh).drop 7) = RTN_UNICAST ∨ leNat 1 ((nlmsgData nh).drop 7) = RTN_LOCAL) ∧
    tableOf nh = RT_TABLE_MAIN

/-- A message has an entry for a table exactly when it is of the kind the table is about. -/
structure EntriesExact : Prop where
  iface : (msgIface nh).isSome ↔ NamedLink nh
  vxlan : (msgVxlan nh).isSome ↔ LinkOfKind nh "vxlan".toList
  vlan : (msgVlan nh).isSome ↔ LinkOfKind nh "vlan".toList
  addr4 : (msgAddr4 nh).isSome ↔ InetAddr nh
  route4 : (msgRoute4 nh).isSome ↔ MainRoute nh

end Conditions

theorem lastAttr_isSome_iff {k : Nat} {attrs : List Bytes} :
    (lastAttr k attrs).isSome ↔ ∃ rta ∈ attrs, rtaType rta = k := by
  simp [lastAttr, List.find?_isSome]

/-- **The table of attributes keeps the last one of each type.** -/
theorem parseRtattr_eq_lastAttr {max k : Nat} (hk : k ≤ max) (p : Bytes) (len : Int) :
    parseRtattr max p len k = lastAttr k (rtattr.records p len).1 := by
  unfold parseRtattr
  generalize (rtattr.records p len).1 = attrs
  -- from the end of the list, where the attribute stands that `parse_rtattr` stores last
  induction attrs using List.reverseRecOn with
  | nil => rfl
  | append_singleton attrs rta ih =>
    rw [List.foldl_append, List.foldl_cons, List.foldl_nil, setRtattr, lastAttr,
      List.reverse_append, List.reverse_singleton, List.singleton_append, List.find?_cons]
    by_cases hrta : rtaType rta = k
    · simp [hrta, hk]
    · have hne : k ≠ rtaType rta := Ne.symm hrta
      rw [← lastAttr, ← ih]
      split_ifs <;> simp [hrta, hne]

theorem msgAttrs_eq_lastAttr (max : Nat) {size k : Nat} (hk : k ≤ max) (nh : Bytes) :
    msgAttrs max size nh k = lastAttr k (attrsOf nh size) :=
  parseRtattr_eq_lastAttr hk _ _

theorem infoData_isSome_iff {tb : AttrTable} {kind : CStr} :
    (infoData tb kind).isSome ↔ ∃ info ∈ tb IFLA_LINKINFO,
      (∃ k ∈ lastAttr IFLA_INFO_KIND (nestedAttrs info), cstr (chars (rtaData k)) = kind) ∧
        ∃ rta ∈ nestedAttrs info, rtaType rta = IFLA_INFO_DATA := by
  have hkind (info : Bytes) : parseRtattr IFLA_INFO_MAX (rtaData info) (rtaPayload info)
      IFLA_INFO_KIND = lastAttr IFLA_INFO_KIND (nestedAttrs info) :=
    parseRtattr_eq_lastAttr (by decide) _ _
  have hdata (info : Bytes) : parseRtattr IFLA_INFO_MAX (rtaData info) (rtaPayload info)
      IFLA_INFO_DATA = lastAttr IFLA_INFO_DATA (nestedAttrs info) :=
    parseRtattr_eq_lastAttr (by decide) _ _
  cases hinfo : tb IFLA_LINKINFO with
  | none => simp [infoData, infoKind, linkInfo, hinfo]
  | some info =>
    cases hk : lastAttr IFLA_INFO_KIND (nestedAttrs info) with
    | none => simp [infoData, infoKind, linkInfo, hinfo, hkind, hk]
    | some k =>
      by_cases hc : cstr (chars (rtaData k)) = kind <;>
        simp [infoData, infoKind, linkInfo, hinfo, hkind, hdata, hk, hc, lastAttr_isSome_iff]

theorem isSome_bind_bind {α β γ : Type} {x : Option α} {y : Option β} {f : α → β → γ} :
    (x.bind fun a => y.bind fun b => some (f a b)).isSome ↔ x.isSome ∧ y.isSome := by
  cases x <;> cases y <;> simp

theorem vxlanEntry_isSome_iff (ifi : Bytes) {tb : AttrTable} :
    (vxlanEntry ifi tb).isSome ↔ (tb IFLA_IFNAME).isSome ∧ (infoData tb "vxlan".toList).isSome :=
  isSome_bind_bind

theorem vlanEntry_isSome_iff (ifi : Bytes) {tb : AttrTable} :
    (vlanEntry ifi tb).isSome ↔ (tb IFLA_IFNAME).isSome ∧ (infoData tb "vlan".toList).isSome :=
  isSome_bind_bind

/-- A named link of the kind has its link data. -/
theorem linkOfKind_iff (nh : Bytes) (kind : CStr) :
    LinkOfKind nh kind ↔ nlmsgType nh = RTM_NEWLINK ∧
      (msgAttrs IFLA_MAX 16 nh IFLA_IFNAME).isSome ∧
      (infoData (msgAttrs IFLA_MAX 16 nh) kind).isSome := by
  rw [infoData_isSome_iff, msgAttrs_eq_lastAttr _ (by decide), msgAttrs_eq_lastAttr _ (by decide),
    lastAttr_isSome_iff, LinkOfKind, NamedLink, and_assoc]

theorem attrIp4_isSome_iff {attr : Option Bytes} :
    (attrIp4 attr).isSome ↔ ∃ rta ∈ attr, 4 ≤ rtaPayload rta := by
  cases attr with
  | none => simp [attrIp4, attrData]
  | some rta => by_cases h : 4 ≤ rtaPayload rta <;> simp [attrIp4, attrData, h]

/-- `route_table` is the main table when the message says so. -/
theorem routeTable_eq_main_iff (nh : Bytes) :
    routeTable (nlmsgData nh) (msgAttrs RTA_MAX 12 nh) = RT_TABLE_MAIN ↔
      tableOf nh = RT_TABLE_MAIN := by
  unfold routeTable tableOf
  rw [msgAttrs_eq_lastAttr _ (by decide)]
  cases lastAttr RTA_TABLE (attrsOf nh 12) with
  | none => exact Nat.cast_inj
  | some rta =>
    by_cases h : 4 ≤ rtaPayload rta
    · have hindex : attrIndex (some rta) = some (s32 (leNat 4 (rtaData rta))) := by
        simp [attrIndex, attrNat, attrData, h]
      have hfilter : (some rta).filter (fun rta => decide (4 ≤ rtaPayload rta)) = some rta := by
        simp [Option.filter, h]
      rw [hindex, hfilter]
      -- the code keeps the table in an `int`; the main table is no negative number
      exact s32_eq_natCast_iff (leNat_lt 4 (rtaData rta)) (by decide)
    · have hindex : attrIndex (some rta) = none := by
        simp [attrIndex, attrNat, attrData, h]
      have hfilter : (some rta).filter (fun rta => decide (4 ≤ rtaPayload rta)) = none := by
        simp [Option.filter, h]
      rw [hindex, hfilter]
      exact Nat.cast_inj

/-- **A message has exactly the entries it is of a kind for.** -/
theorem entriesExact (nh : Bytes) : EntriesExact nh where
  iface := by
    unfold msgIface NamedLink
    rw [← lastAttr_isSome_iff, ← msgAttrs_eq_lastAttr IFLA_MAX (by decide)]
    split_ifs with h <;> simp [ifaceEntry, h]
  vxlan := by
    rw [linkOfKind_iff, msgVxlan, ← vxlanEntry_isSome_iff (nlmsgData nh)]
    split_ifs with h <;> simp [h]
  vlan := by
    rw [linkOfKind_iff, msgVlan, ← vlanEntry_isSome_iff (nlmsgData nh)]
    split_ifs with h <;> simp [h]
  addr4 := by
    unfold msgAddr4 InetAddr
    rw [← attrIp4_isSome_iff, ← msgAttrs_eq_lastAttr IFA_MAX (by decide),
      ← msgAttrs_eq_lastAttr IFA_MAX (by decide)]
    simp only [addrEntry]
    split_ifs with h hinet <;> simp_all
  route4 := by
    unfold msgRoute4 MainRoute
    rw [← routeTable_eq_main_iff]
    simp only [routeEntry]
    split_ifs with h hinet htype htable <;> simp_all
    tauto

/-- The tables have grown by the entries of `msgs`, in order; nothing else has changed. -/
structure Grown (msgs : List Bytes) (rs rs' : RealState) : Prop where
  ifaces : rs'.ifaces = rs.ifaces ++ msgs.filterMap msgIface
  vxlan : rs'.vxlan = rs.vxlan ++ msgs.filterMap msgVxlan
  vlan : rs'.vlan = rs.vlan ++ msgs.filterMap msgVlan
  addr4 : rs'.addr4 = rs.addr4 ++ msgs.filterMap msgAddr4
  route4 : rs'.route4 = rs.route4 ++ msgs.filterMap msgRoute4
  dns4 : rs'.dns4 = rs.dns4

theorem Grown.refl (rs : RealState) : Grown [] rs rs := by
  constructor <;> simp

theorem Grown.trans {msgs msgs' : List Bytes} {rs rs₁ rs₂ : RealState} (h : Grown msgs rs rs₁)
    (h' : Grown msgs' rs₁ rs₂) : Grown (msgs ++ msgs') rs rs₂ where
  ifaces := by rw [h'.ifaces, h.ifaces, List.filterMap_append, List.append_assoc]
  vxlan := by rw [h'.vxlan, h.vxlan, List.filterMap_append, List.append_assoc]
  vlan := by rw [h'.vlan, h.vlan, List.filterMap_append, List.append_assoc]
  addr4 := by rw [h'.addr4, h.addr4, List.filterMap_append, List.append_assoc]
  route4 := by rw [h'.route4, h.route4, List.filterMap_append, List.append_assoc]
  dns4 := h'.dns4.trans h.dns4

/-- **An entry is added to a table**, when there is room. -/
theorem tableAdd_eq_ok {α : Type} {rs rs' : RealState} {table : List α} {max : Nat}
    {put : List α → RealState} {entry : Option α}
    (h : tableAdd rs table max put entry = .ok rs') (hput : put table = rs) :
    rs' = put (table ++ entry.toList) ∧ (entry.isSome → table.length < max) := by
  cases entry with
  | none =>
    rw [Option.toList_none, List.append_nil, hput]
    exact ⟨(Except.ok.inj h).symm, fun h => nomatch h⟩
  | some e =>
    rw [tableAdd] at h
    split_ifs at h with hfull
    exact ⟨(Except.ok.inj h).symm, fun _ => Nat.lt_of_not_le hfull⟩

/-- **An entry for which there is no room is an error.** -/
theorem tableAdd_eq_error {α : Type} {rs : RealState} {table : List α} {max : Nat}
    {put : List α → RealState} {entry : Option α} {stop : Stop}
    (h : tableAdd rs table max put entry = .error stop) :
    stop = ⟨-Errno.ENOSPC.code, rs⟩ ∧ entry.isSome ∧ max ≤ table.length := by
  cases entry with
  | none => cases h
  | some e =>
    rw [tableAdd] at h
    split_ifs at h with hfull
    exact ⟨(Except.error.inj h).symm, rfl, hfull⟩

section Adds

variable {rs rs' : RealState} {ifi : Bytes} {tb : AttrTable}

theorem addIface_eq_ok (h : addIface rs ifi tb = .ok rs') :
    rs' = { rs with ifaces := rs.ifaces ++ (ifaceEntry ifi tb).toList } ∧
      ((ifaceEntry ifi tb).isSome → rs.ifaces.length < NR_IFACE_MAX) :=
  tableAdd_eq_ok h rfl

theorem addVxlan_eq_ok (h : addVxlan rs ifi tb = .ok rs') :
    rs' = { rs with vxlan := rs.vxlan ++ (vxlanEntry ifi tb).toList } ∧
      ((vxlanEntry ifi tb).isSome → rs.vxlan.length < NR_VXLAN_MAX) :=
  tableAdd_eq_ok h rfl

theorem addVlan_eq_ok (h : addVlan rs ifi tb = .ok rs') :
    rs' = { rs with vlan := rs.vlan ++ (vlanEntry ifi tb).toList } ∧
      ((vlanEntry ifi tb).isSome → rs.vlan.length < NR_VLAN_MAX) :=
  tableAdd_eq_ok h rfl

theorem parseAddrMsg_eq_ok {nh : Bytes} (h : parseAddrMsg rs nh = .ok rs') :
    rs' = { rs with addr4 := rs.addr4 ++ (addrEntry nh).toList } ∧
      ((addrEntry nh).isSome → rs.addr4.length < NR_ADDR4_MAX) := by
  unfold parseAddrMsg at h
  split_ifs at h
  exact tableAdd_eq_ok h rfl

theorem parseRouteMsg_eq_ok {nh : Bytes} (h : parseRouteMsg rs nh = .ok rs') :
    rs' = { rs with route4 := rs.route4 ++ (routeEntry nh).toList } ∧
      ((routeEntry nh).isSome → rs.route4.length < NR_ROUTE4_MAX) := by
  unfold parseRouteMsg at h
  split_ifs at h
  exact tableAdd_eq_ok h rfl

/-- **A link message** adds the interface first, then the VXLAN and the VLAN. -/
theorem parseLinkMsg_eq_ok {nh : Bytes} (h : parseLinkMsg rs nh = .ok rs') :
    ∃ rs₁ rs₂, addIface rs (nlmsgData nh) (msgAttrs IFLA_MAX 16 nh) = .ok rs₁ ∧
      addVxlan rs₁ (nlmsgData nh) (msgAttrs IFLA_MAX 16 nh) = .ok rs₂ ∧
      addVlan rs₂ (nlmsgData nh) (msgAttrs IFLA_MAX 16 nh) = .ok rs' := by
  unfold parseLinkMsg at h
  split_ifs at h
  simp only [bind_eq_ok] at h
  obtain ⟨rs₁, hi, rs₂, hx, hl⟩ := h
  exact ⟨rs₁, rs₂, hi, hx, hl⟩

/-- A link message stops at its length or at the first table that is full. -/
theorem parseLinkMsg_eq_error {nh : Bytes} {stop : Stop} (h : parseLinkMsg rs nh = .error stop) :
    stop = ⟨-Errno.EIO.code, rs⟩ ∨
    addIface rs (nlmsgData nh) (msgAttrs IFLA_MAX 16 nh) = .error stop ∨
    ∃ rs₁, addIface rs (nlmsgData nh) (msgAttrs IFLA_MAX 16 nh) = .ok rs₁ ∧
      (addVxlan rs₁ (nlmsgData nh) (msgAttrs IFLA_MAX 16 nh) = .error stop ∨
      ∃ rs₂, addVxlan rs₁ (nlmsgData nh) (msgAttrs IFLA_MAX 16 nh) = .ok rs₂ ∧
        addVlan rs₂ (nlmsgData nh) (msgAttrs IFLA_MAX 16 nh) = .error stop) := by
  unfold parseLinkMsg at h
  split_ifs at h
  · exact .inl (Except.error.inj h).symm
  · cases hi : addIface rs (nlmsgData nh) (msgAttrs IFLA_MAX 16 nh) with
    | error s =>
      simp only [hi, error_bind] at h
      exact .inr (.inl h)
    | ok rs₁ =>
      simp only [hi, ok_bind] at h
      cases hx : addVxlan rs₁ (nlmsgData nh) (msgAttrs IFLA_MAX 16 nh) with
      | error s =>
        simp only [hx, error_bind] at h
        exact .inr (.inr ⟨rs₁, rfl, .inl (hx.trans h)⟩)
      | ok rs₂ =>
        simp only [hx, ok_bind] at h
        exact .inr (.inr ⟨rs₁, rfl, .inr ⟨rs₂, hx, h⟩⟩)

end Adds

theorem filterMap_singleton {α β : Type} (f : α → Option β) (a : α) :
    [a].filterMap f = (f a).toList := by
  cases h : f a <;> simp [h]

/-- **One message adds its entries.** -/
theorem parseMsg_grown {type : Nat} {nh : Bytes} (htype : nlmsgType nh = type)
    {rs rs' : RealState} (h : parseMsg type rs nh = .ok rs') : Grown [nh] rs rs' := by
  unfold parseMsg at h
  split_ifs at h with h₁ h₂ h₃
  · obtain ⟨rs₁, rs₂, hi, hx, hl⟩ := parseLinkMsg_eq_ok h
    obtain ⟨rfl, -⟩ := addIface_eq_ok hi
    obtain ⟨rfl, -⟩ := addVxlan_eq_ok hx
    obtain ⟨rfl, -⟩ := addVlan_eq_ok hl
    have htype' := htype.trans h₁
    constructor <;>
      simp [filterMap_singleton, msgIface, msgVxlan, msgVlan, msgAddr4, msgRoute4, htype']
  · obtain ⟨rfl, -⟩ := parseAddrMsg_eq_ok h
    have htype' := htype.trans h₂
    constructor <;>
      simp [filterMap_singleton, msgIface, msgVxlan, msgVlan, msgAddr4, msgRoute4, htype']
  · obtain ⟨rfl, -⟩ := parseRouteMsg_eq_ok h
    have htype' := htype.trans h₃
    constructor <;>
      simp [filterMap_singleton, msgIface, msgVxlan, msgVlan, msgAddr4, msgRoute4, htype']

theorem tableAdd_rc_ne_zero {α : Type} {rs : RealState} {table : List α} {max : Nat}
    {put : List α → RealState} {entry : Option α} {stop : Stop}
    (h : tableAdd rs table max put entry = .error stop) : stop.rc ≠ 0 := by
  rw [(tableAdd_eq_error h).1]
  show -(Errno.ENOSPC.code : Int) ≠ 0
  decide

/-- **A message that cannot be stored gives an error.** -/
theorem parseMsg_rc_ne_zero {type : Nat} {nh : Bytes} {rs : RealState} {stop : Stop}
    (h : parseMsg type rs nh = .error stop) : stop.rc ≠ 0 := by
  have hshort : ∀ e : Errno, (-(e.code : Int)) ≠ 0 := fun e => by
    have := e.code_pos
    omega
  unfold parseMsg at h
  split_ifs at h
  · obtain rfl | hi | ⟨rs₁, -, hx | ⟨rs₂, -, hl⟩⟩ := parseLinkMsg_eq_error h
    · exact hshort _
    · exact tableAdd_rc_ne_zero hi
    · exact tableAdd_rc_ne_zero hx
    · exact tableAdd_rc_ne_zero hl
  · unfold parseAddrMsg at h
    split_ifs at h
    · exact Except.error.inj h ▸ hshort _
    · exact tableAdd_rc_ne_zero h
  · unfold parseRouteMsg at h
    split_ifs at h
    · exact Except.error.inj h ▸ hshort _
    · exact tableAdd_rc_ne_zero h
  · exact Except.error.inj h ▸ hshort _

section Growth

variable {seq type : Nat}

/-- **The messages before the end of a dump** add their entries, or stop it with an error. -/
theorem foldlM_recvMsg_grown (type : Nat) (rs : RealState) {pre : List Bytes}
    (hpre : ∀ m ∈ pre, ¬ EndsDump seq m) :
    (∃ rs', pre.foldlM (recvMsg seq type) rs = .ok rs' ∧
      Grown (pre.filter fun m => OfDump seq type m) rs rs') ∨
    ∃ stop, pre.foldlM (recvMsg seq type) rs = .error stop ∧ stop.rc ≠ 0 := by
  induction pre generalizing rs with
  | nil => exact .inl ⟨rs, rfl, .refl rs⟩
  | cons m pre ih =>
    obtain ⟨hm, hpre⟩ := List.forall_mem_cons.mp hpre
    rw [List.foldlM_cons, recvMsg_of_not_ends hm]
    by_cases hof : OfDump seq type m
    · rw [if_pos hof, List.filter_cons_of_pos (by simpa using hof)]
      cases hparse : parseMsg type rs m with
      | error stop => exact .inr ⟨stop, rfl, parseMsg_rc_ne_zero hparse⟩
      | ok rs₁ =>
        rw [ok_bind]
        refine (ih rs₁ hpre).imp_left ?_
        rintro ⟨rs', hfold, hgrown⟩
        exact ⟨rs', hfold, (parseMsg_grown hof.2 hparse).trans hgrown⟩
    · rw [if_neg hof, List.filter_cons_of_neg (by simpa using hof), ok_bind]
      exact ih rs hpre

/-- **A dump that succeeds at its end** has added the entries of all its messages. -/
theorem dumpMsgs_grown {pre post : List NlMsg} {d : NlMsg} {rs rs' : RealState}
    (hpre : ∀ m ∈ pre, ¬ EndsDump seq m.bytes) (hd : OfDump seq NLMSG_DONE d.bytes)
    (h : dumpMsgs seq type (pre ++ d :: post) rs = .returned 0 rs') :
    Grown ((pre.map NlMsg.bytes).filter fun nh => OfDump seq type nh) rs rs' := by
  unfold dumpMsgs at h
  rw [List.map_append, List.map_cons, List.foldlM_append] at h
  obtain ⟨rs₁, hfold, hgrown⟩ | ⟨stop, hfold, hrc⟩ :=
    foldlM_recvMsg_grown type rs (List.forall_mem_map.mpr hpre)
  · simp only [hfold, ok_bind, List.foldlM_cons, recvMsg_done hd, error_bind] at h
    rw [← (DumpEnd.returned.inj h).2]
    exact hgrown
  · simp only [hfold, error_bind] at h
    exact absurd (DumpEnd.returned.inj h).1 hrc

/-- **The result of a dump does not depend on how it is packed.** For messages whose names are
terminated, all packings give the same code and the same tables, messages of other dumps do not
count, and a dump that succeeds has added exactly the entries of its own messages: an interface for
each named link, a VXLAN or VLAN for those of this kind with link data, an address for each IPv4
address of four bytes, and a route for each IPv4 unicast or local route of the main table. -/
theorem recvDump_packed (type : Nat) {msgs : List NlMsg} {groups : List (List NlMsg)}
    (hp : IsPacking groups msgs) (hterm : NamesTerminated seq type msgs) (buf : Bytes)
    (rs : RealState) :
    (∀ groups' buf', IsPacking groups' msgs →
      recvDump seq type (groups'.map datagram) buf' rs =
        recvDump seq type (groups.map datagram) buf rs) ∧
    (∀ groups' buf', IsPacking groups' (msgs.filter fun m => ConcernsDump seq type m.bytes) →
      recvDump seq type (groups'.map datagram) buf' rs =
        recvDump seq type (groups.map datagram) buf rs) ∧
    ∀ pre d post rs', msgs = pre ++ d :: post → (∀ m ∈ pre, ¬ EndsDump seq m.bytes) →
      OfDump seq NLMSG_DONE d.bytes →
      recvDump seq type (groups.map datagram) buf rs = .returned 0 rs' →
      Grown ((pre.map NlMsg.bytes).filter fun nh => OfDump seq type nh) rs rs' ∧
        ∀ m ∈ pre, EntriesExact m.bytes := by
  refine ⟨fun groups' buf' hp' => ?_, fun groups' buf' hp' => ?_, ?_⟩
  · rw [recvDump_eq_dumpMsgs hp hterm, recvDump_eq_dumpMsgs hp' hterm]
  · have hterm' : NamesTerminated seq type (msgs.filter fun m => ConcernsDump seq type m.bytes) :=
      fun m hm => hterm m (List.mem_filter.mp hm).1
    rw [recvDump_eq_dumpMsgs hp hterm, recvDump_eq_dumpMsgs hp' hterm', dumpMsgs_filter]
  · rintro pre d post rs' rfl hpre hd h
    rw [recvDump_eq_dumpMsgs hp hterm] at h
    exact ⟨dumpMsgs_grown hpre hd h, fun m _ => entriesExact m.bytes⟩

end Growth

/-! ## Examples -/

/-- A number in little-endian bytes. -/
def leBytes : Nat → Nat → Bytes
  | 0, _ => []
  | n + 1, v => UInt8.ofNat v :: leBytes n (v / 256)

/-- An attribute without padding. -/
def attrBytes (type : Nat) (payload : Bytes) : Bytes :=
  leBytes 2 (4 + payload.length) ++ leBytes 2 type ++ payload

/-- A message. -/
def msgBytes (type flags seq : Nat) (payload : Bytes) : Bytes :=
  leBytes 4 (16 + payload.length) ++ leBytes 2 type ++ leBytes 2 flags ++ leBytes 4 seq ++
    leBytes 4 0 ++ payload

/-- The fixed part of a link message. -/
def linkBytes (index flags : Nat) : Bytes :=
  leBytes 4 0 ++ leBytes 4 index ++ leBytes 4 flags ++ leBytes 4 0

/-- `eth0`, with a terminator and padding. -/
def eth0Link : NlMsg where
  bytes := msgBytes RTM_NEWLINK 2 1 (linkBytes 2 1 ++ attrBytes IFLA_IFNAME [101, 116, 104, 48, 0] ++
    [0, 0, 0])
  isFrame := by decide +kernel

/-- `eth0`, without a terminator. -/
def eth0Open : NlMsg where
  bytes := msgBytes RTM_NEWLINK 2 1 (linkBytes 2 1 ++ attrBytes IFLA_IFNAME [101, 116, 104, 48])
  isFrame := by decide +kernel

/-- The end of the first dump. -/
def doneMsg : NlMsg where
  bytes := msgBytes NLMSG_DONE 2 1 (leBytes 4 0)
  isFrame := by decide +kernel

theorem eth0Link_packed :
    recvDump 1 RTM_NEWLINK ([[eth0Link], [doneMsg]].map datagram) [] .zero =
      recvDump 1 RTM_NEWLINK ([[eth0Link, doneMsg]].map datagram) [] .zero ∧
    ∃ rs', recvDump 1 RTM_NEWLINK ([[eth0Link, doneMsg]].map datagram) [] .zero = .returned 0 rs' ∧
      Grown [eth0Link.bytes] .zero rs' ∧ NamedLink eth0Link.bytes := by
  have hp : IsPacking [[eth0Link, doneMsg]] [eth0Link, doneMsg] :=
    ⟨rfl, by simp, by decide +kernel⟩
  have hp' : IsPacking [[eth0Link], [doneMsg]] [eth0Link, doneMsg] :=
    ⟨rfl, by simp, by decide +kernel⟩
  have hterm : NamesTerminated 1 RTM_NEWLINK [eth0Link, doneMsg] := by
    have hall : ∀ m ∈ [eth0Link, doneMsg], m.Terminated := by decide +kernel
    exact fun m hm _ _ => hall m hm
  obtain ⟨hsame, -, hgrown⟩ := recvDump_packed RTM_NEWLINK hp hterm [] .zero
  obtain ⟨rs', hrs'⟩ : ∃ rs', recvDump 1 RTM_NEWLINK ([[eth0Link, doneMsg]].map datagram) [] .zero =
      .returned 0 rs' :=
    DumpEnd.exists_of_rc (by decide +kernel)
  obtain ⟨hgrown, hexact⟩ :=
    hgrown [eth0Link] doneMsg [] rs' rfl (by decide +kernel) (by decide +kernel) hrs'
  exact ⟨hsame _ [] hp', rs', hrs', hgrown,
    (hexact eth0Link List.mem_cons_self).iface.mp (by decide +kernel)⟩

/-- A name without a terminator goes on with the length of the next message. -/
theorem eth0Open_packed : IsPacking [[eth0Open, doneMsg]] [eth0Open, doneMsg] ∧
    IsPacking [[eth0Open], [doneMsg]] [eth0Open, doneMsg] ∧
    recvDump 1 RTM_NEWLINK ([[eth0Open], [doneMsg]].map datagram) (.replicate NL_BUF_SZ 0) .zero ≠
      recvDump 1 RTM_NEWLINK ([[eth0Open, doneMsg]].map datagram) (.replicate NL_BUF_SZ 0) .zero :=
  ⟨⟨rfl, by simp, by decide +kernel⟩, ⟨rfl, by simp, by decide +kernel⟩, by decide +kernel⟩

end Netrec
