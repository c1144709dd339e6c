import Netrec.Netlink.Dump

/-!
# Dumps that are incomplete or inconsistent

The kernel ends a dump with `NLMSG_DONE`, which carries a status, and flags messages with
`NLM_F_DUMP_INTR` when the tables changed while they were read. The receive loop looks at neither:
any `NLMSG_DONE` ends a dump with success, and so does an `NLMSG_ERROR` that carries the error zero.
A snapshot that is returned is complete exactly when none of the three has happened.

## Main definitions

* `receivedMsgs`: the messages in the datagrams of a dump
* `CompleteDump`: a dump that the kernel has ended with success, and not flagged
* `Undisturbed`: nothing happened on the way that the receive loop does not look at

## Main results

* `recvDump_returned_zero`: how a dump succeeds
* `nlLoadState_complete_iff`: when a snapshot is complete
-/

namespace Netrec

open CLib

/-- The messages in the datagrams of a dump. -/
def receivedMsgs (evs : List RecvEvent) : List Bytes :=
  evs.flatMap fun
    | .data d => (nlmsg.records (d.take NL_BUF_SZ) (d.take NL_BUF_SZ).length).1
    | .fail _ => []

/-- `NLM_F_DUMP_INTR` is set. -/
def DumpIntr (nh : Bytes) : Prop := nlmsgFlags nh &&& 0x10 ≠ 0

instance (nh : Bytes) : Decidable (DumpIntr nh) := inferInstanceAs (Decidable (_ ≠ _))

/-- The status that an `NLMSG_DONE` carries. -/
def doneStatus (nh : Bytes) : Option Int :=
  if nlmsgLen nh < 16 + 4 then none else some (s32 (leNat 4 (nlmsgData nh)))

/-- The dump ends with an `NLMSG_DONE` of status zero, before any error, and no message of it is
flagged. -/
def CompleteDump (seq : Nat) (msgs : List Bytes) : Prop :=
  ∃ pre d post, msgs = pre ++ d :: post ∧ (∀ m ∈ pre, ¬ EndsDump seq m) ∧
    OfDump seq NLMSG_DONE d ∧ doneStatus d = some 0 ∧
    ∀ m ∈ pre ++ [d], nlmsgSeq m = seq → ¬ DumpIntr m

/-- The messages up to the one that ends the dump. -/
def upToEnd (seq : Nat) : List Bytes → List Bytes
  | [] => []
  | m :: msgs => if EndsDump seq m then [m] else m :: upToEnd seq msgs

/-- Up to its end, no message of the dump is flagged, is an `NLMSG_DONE` with another status than
zero or is an `NLMSG_ERROR` with the error zero. -/
def Undisturbed (seq : Nat) (msgs : List Bytes) : Prop :=
  ∀ m ∈ upToEnd seq msgs, nlmsgSeq m = seq →
    ¬ DumpIntr m ∧ (nlmsgType m = NLMSG_DONE → doneStatus m = some 0) ∧
      (nlmsgType m = NLMSG_ERROR → nlErr m ≠ 0)

instance (seq : Nat) (msgs : List Bytes) : Decidable (Undisturbed seq msgs) :=
  inferInstanceAs (Decidable (∀ m ∈ upToEnd seq msgs, _))

section Dump

variable {seq type : Nat}

theorem upToEnd_append {pre post : List Bytes} {d : Bytes} (hpre : ∀ m ∈ pre, ¬ EndsDump seq m)
    (hd : EndsDump seq d) : upToEnd seq (pre ++ d :: post) = pre ++ [d] := by
  induction pre with
  | nil => exact if_pos hd
  | cons m pre ih =>
    obtain ⟨hm, hpre⟩ := List.forall_mem_cons.mp hpre
    rw [List.cons_append, upToEnd, if_neg hm, ih hpre, List.cons_append]

/-- A complete dump is not disturbed. -/
theorem CompleteDump.undisturbed {msgs : List Bytes} (h : CompleteDump seq msgs) :
    Undisturbed seq msgs := by
  obtain ⟨pre, d, post, rfl, hpre, hd, hstatus, hflags⟩ := h
  intro m hm hseq
  rw [upToEnd_append hpre (.inl hd)] at hm
  refine ⟨hflags m hm hseq, fun hdone => ?_, fun herr => ?_⟩
  · obtain hm | hm := List.mem_append.mp hm
    · exact absurd (.inl ⟨hseq, hdone⟩) (hpre m hm)
    · rw [List.mem_singleton.mp hm, hstatus]
  · obtain hm | hm := List.mem_append.mp hm
    · exact absurd (.inr ⟨hseq, herr⟩) (hpre m hm)
    · rw [List.mem_singleton.mp hm, hd.2] at herr
      cases herr

theorem ofDump_append_iff {nh : Bytes} (h : MsgInBounds nh) (t : Bytes) :
    OfDump seq type (nh ++ t) ↔ OfDump seq type nh := by
  unfold OfDump
  rw [h.nlmsgSeq_append, h.nlmsgType_append]

theorem endsDump_append_iff {nh : Bytes} (h : MsgInBounds nh) (t : Bytes) :
    EndsDump seq (nh ++ t) ↔ EndsDump seq nh :=
  or_congr (ofDump_append_iff h t) (ofDump_append_iff h t)

/-- The end of a dump that is a success for the receive loop. -/
def GoodEnd (seq : Nat) (d : Bytes) : Prop :=
  OfDump seq NLMSG_DONE d ∨ (OfDump seq NLMSG_ERROR d ∧ nlErr d = 0)

/-- **The messages of one datagram** go by without an end, or the first end decides. -/
theorem foldlM_recvMsg_end (seq type : Nat) {ps : List Bytes} (hps : ∀ p ∈ ps, MsgInBounds p) (t : Bytes)
    (rs : RealState) :
    (∀ rs', (ps.map (· ++ t)).foldlM (recvMsg seq type) rs = .ok rs' →
      ∀ p ∈ ps, ¬ EndsDump seq p) ∧
    ∀ rs', (ps.map (· ++ t)).foldlM (recvMsg seq type) rs = .error ⟨0, rs'⟩ →
      ∃ pre d post, ps = pre ++ d :: post ∧ (∀ m ∈ pre, ¬ EndsDump seq m) ∧ GoodEnd seq d := by
  induction ps generalizing rs with
  | nil => exact ⟨fun _ _ p hp => (by simp at hp), fun rs' h => (nomatch h)⟩
  | cons p ps ih =>
    obtain ⟨hp, hps⟩ := List.forall_mem_cons.mp hps
    rw [List.map_cons, List.foldlM_cons]
    by_cases hends : EndsDump seq p
    · -- the loop stops here, with the code of this message
      refine ⟨fun rs' h => ?_, fun rs' h => ⟨[], p, ps, rfl, by simp, ?_⟩⟩
      · obtain hd | he := hends
        · rw [recvMsg_done ((ofDump_append_iff hp t).mpr hd)] at h
          cases h
        · rw [recvMsg_error ((ofDump_append_iff hp t).mpr he)] at h
          cases h
      · obtain hd | he := hends
        · exact .inl hd
        · rw [recvMsg_error ((ofDump_append_iff hp t).mpr he), error_bind, hp.nlErr_append] at h
          exact .inr ⟨he, congrArg Stop.rc (Except.error.inj h)⟩
    · cases hmsg : recvMsg seq type rs (p ++ t) with
      | error stop =>
        refine ⟨fun rs' h => (nomatch h), fun rs' h => ?_⟩
        rw [error_bind, Except.error.injEq] at h
        rw [recvMsg_of_not_ends (mt (endsDump_append_iff hp t).mp hends)] at hmsg
        split_ifs at hmsg
        exact absurd (congrArg Stop.rc h) (parseMsg_rc_ne_zero hmsg)
      | ok rs₁ =>
        rw [ok_bind]
        obtain ⟨hok, hstop⟩ := ih hps rs₁
        refine ⟨fun rs' h => List.forall_mem_cons.mpr ⟨hends, hok rs' h⟩, fun rs' h => ?_⟩
        obtain ⟨pre, d, post, rfl, hpre, hd⟩ := hstop rs' h
        exact ⟨p :: pre, d, post, rfl, List.forall_mem_cons.mpr ⟨hends, hpre⟩, hd⟩

/-- One datagram of a dump, with the bytes that are left in the buffer behind it. -/
theorem recvDump_data (d buf : Bytes) (evs : List RecvEvent) (rs : RealState) :
    recvDump seq type (.data d :: evs) buf rs =
      if (d.take NL_BUF_SZ).length = 0 then .returned (-Errno.EIO.code) rs
      else
        match recvMsgs seq type rs
          ((nlmsg.records (d.take NL_BUF_SZ) (d.take NL_BUF_SZ).length).1.map
            (· ++ buf.drop (d.take NL_BUF_SZ).length))
          (nlmsg.records (d.take NL_BUF_SZ) (d.take NL_BUF_SZ).length).2 with
        | .error stop => .returned stop.rc stop.rs
        | .ok rs => recvDump seq type evs (recvInto d buf) rs := by
  have hrec : nlmsg.records (recvInto d buf) (d.take NL_BUF_SZ).length = _ :=
    RecFormat.records_append le_rfl (buf.drop (d.take NL_BUF_SZ).length)
  show (if (d.take NL_BUF_SZ).length = 0 then DumpEnd.returned (-Errno.EIO.code) rs
    else
      match recvMsgs seq type rs (nlmsg.records (recvInto d buf) (d.take NL_BUF_SZ).length).1
        (nlmsg.records (recvInto d buf) (d.take NL_BUF_SZ).length).2 with
      | .error stop => .returned stop.rc stop.rs
      | .ok rs => recvDump seq type evs (recvInto d buf) rs) = _
  rw [hrec]

/-- **The messages of one datagram** go by without an end, or the first end decides. -/
theorem recvMsgs_end (seq type : Nat) {ps : List Bytes} (hps : ∀ p ∈ ps, MsgInBounds p)
    (t : Bytes) (rem : Int) (rs : RealState) :
    (∀ rs', recvMsgs seq type rs (ps.map (· ++ t)) rem = .ok rs' → ∀ p ∈ ps, ¬ EndsDump seq p) ∧
    ∀ stop, recvMsgs seq type rs (ps.map (· ++ t)) rem = .error stop → stop.rc = 0 →
      ∃ pre d post, ps = pre ++ d :: post ∧ (∀ m ∈ pre, ¬ EndsDump seq m) ∧ GoodEnd seq d := by
  obtain ⟨hok, hstop⟩ := foldlM_recvMsg_end seq type hps t rs
  unfold recvMsgs
  cases hfold : (ps.map (· ++ t)).foldlM (recvMsg seq type) rs with
  | error s =>
    refine ⟨fun rs' h => (nomatch h), fun stop h hrc => hstop s.rs ?_⟩
    rw [hfold, Except.error.inj h, ← hrc]
  | ok rs₁ =>
    refine ⟨fun rs' _ => hok rs₁ hfold, fun stop h hrc => ?_⟩
    rw [ok_bind] at h
    split_ifs at h
    rw [← Except.error.inj h] at hrc
    cases hrc

/-- **How a dump succeeds**: the first message that ends it is an `NLMSG_DONE`, or an `NLMSG_ERROR`
with the error zero. -/
theorem recvDump_returned_zero {evs : List RecvEvent} {buf : Bytes} {rs rs' : RealState}
    (h : recvDump seq type evs buf rs = .returned 0 rs') :
    ∃ pre d post, receivedMsgs evs = pre ++ d :: post ∧ (∀ m ∈ pre, ¬ EndsDump seq m) ∧
      GoodEnd seq d := by
  induction evs generalizing buf rs with
  | nil => cases h
  | cons ev evs ih =>
    have hneg : ∀ e : Errno, -(e.code : Int) ≠ 0 := fun e => by
      have := e.code_pos
      omega
    cases ev with
    | fail errno =>
      rw [recvDump] at h
      split_ifs at h
      · exact ih h
      · have hpos := errno.pos
        have hrc := (DumpEnd.returned.inj h).1
        omega
    | data d =>
      have hrec : receivedMsgs (.data d :: evs) =
          (nlmsg.records (d.take NL_BUF_SZ) (d.take NL_BUF_SZ).length).1 ++ receivedMsgs evs :=
        List.flatMap_cons
      rw [hrec]
      rw [recvDump_data] at h
      split_ifs at h with hnil
      · exact absurd (DumpEnd.returned.inj h).1 (hneg _)
      · have hin : ∀ p ∈ (nlmsg.records (d.take NL_BUF_SZ) (d.take NL_BUF_SZ).length).1,
            MsgInBounds p := fun p hp => RecFormat.mem_records (F := nlmsg) le_rfl hp
        obtain ⟨hok, hstop⟩ := recvMsgs_end seq type hin (buf.drop (d.take NL_BUF_SZ).length) _ rs
        split at h
        · rename_i stop hmsgs
          obtain ⟨pre, e, post, hsplit, hpre, he⟩ :=
            hstop stop hmsgs (DumpEnd.returned.inj h).1
          exact ⟨pre, e, post ++ receivedMsgs evs, by rw [hsplit, List.append_assoc]; rfl, hpre, he⟩
        · rename_i rs₁ hmsgs
          obtain ⟨pre, e, post, hsplit, hpre, he⟩ := ih h
          refine ⟨_ ++ pre, e, post, by rw [hsplit, List.append_assoc], ?_, he⟩
          exact List.forall_mem_append.mpr ⟨hok rs₁ hmsgs, hpre⟩

/-- **A dump that succeeds is complete exactly when nothing has disturbed it.** -/
theorem completeDump_iff {evs : List RecvEvent} {buf : Bytes} {rs rs' : RealState}
    (h : recvDump seq type evs buf rs = .returned 0 rs') :
    CompleteDump seq (receivedMsgs evs) ↔ Undisturbed seq (receivedMsgs evs) := by
  refine ⟨CompleteDump.undisturbed, fun hu => ?_⟩
  obtain ⟨pre, d, post, hsplit, hpre, hd⟩ := recvDump_returned_zero h
  have hends : EndsDump seq d := hd.imp_right And.left
  unfold Undisturbed at hu
  rw [hsplit, upToEnd_append hpre hends] at hu
  have hmem : d ∈ pre ++ [d] := List.mem_append_right pre List.mem_cons_self
  have hdone : OfDump seq NLMSG_DONE d := hd.resolve_right fun ⟨he, hzero⟩ =>
    (hu d hmem he.1).2.2 he.2 hzero
  exact ⟨pre, d, post, hsplit, hpre, hdone, (hu d hmem hdone.1).2.1 hdone.2,
    fun m hm hseq => (hu m hm hseq).1⟩

end Dump

/-! ## The snapshot -/

theorem DumpEnd.andThen_eq_returned_zero {d : DumpEnd} {next : RealState → DumpEnd}
    {rs : RealState} (h : d.andThen next = .returned 0 rs) :
    ∃ rs₁, d = .returned 0 rs₁ ∧ next rs₁ = .returned 0 rs := by
  cases d with
  | waiting rs₁ => cases h
  | returned rc rs₁ =>
    rw [DumpEnd.andThen] at h
    split_ifs at h with hrc
    · exact absurd (DumpEnd.returned.inj h).1 hrc
    · rw [not_not] at hrc
      exact ⟨rs₁, by rw [hrc], h⟩

theorem NlSocket.dump_eq_returned_zero {sock : NlSocket} {seq bodyLen type : Nat}
    {rs rs' : RealState} (h : sock.dump seq bodyLen type rs = .returned 0 rs') :
    recvDump seq type (sock.received seq) (sock.buf seq) rs = .returned 0 rs' := by
  unfold NlSocket.dump at h
  split_ifs at h with hrc
  · exact absurd (DumpEnd.returned.inj h).1 hrc
  · exact h

/-- **How a snapshot is returned**: all three dumps succeed. -/
theorem nlLoadState_returned_zero {sock : NlSocket} {rs : RealState}
    (h : nlLoadState sock = .returned 0 rs) : ∀ seq ∈ [1, 2, 3], ∃ type rs₀ rs₁,
      recvDump seq type (sock.received seq) (sock.buf seq) rs₀ = .returned 0 rs₁ := by
  unfold nlLoadState at h
  cases hopen : sock.openError with
  | some errno =>
    rw [hopen] at h
    have hpos := errno.pos
    have hrc := (DumpEnd.returned.inj h).1
    omega
  | none =>
    simp only [hopen] at h
    obtain ⟨rs₂, h₂, h₃⟩ := DumpEnd.andThen_eq_returned_zero h
    obtain ⟨rs₁, h₁, h₂⟩ := DumpEnd.andThen_eq_returned_zero h₂
    simp only [List.forall_mem_cons, List.not_mem_nil, false_implies, implies_true, and_true]
    exact ⟨⟨_, _, _, NlSocket.dump_eq_returned_zero h₁⟩,
      ⟨_, _, _, NlSocket.dump_eq_returned_zero h₂⟩, ⟨_, _, _, NlSocket.dump_eq_returned_zero h₃⟩⟩

/-- **A snapshot that is returned** comes from three complete dumps exactly when nothing has
disturbed them. -/
theorem nlLoadState_complete_iff {sock : NlSocket} {rs : RealState}
    (h : nlLoadState sock = .returned 0 rs) :
    (∀ seq ∈ [1, 2, 3], CompleteDump seq (receivedMsgs (sock.received seq))) ↔
      ∀ seq ∈ [1, 2, 3], Undisturbed seq (receivedMsgs (sock.received seq)) := by
  have hdumps := nlLoadState_returned_zero h
  refine forall₂_congr fun seq hseq => ?_
  obtain ⟨type, rs₀, rs₁, hdump⟩ := hdumps seq hseq
  exact completeDump_iff hdump

/-- An `NLMSG_DONE`. -/
def doneBytes (flags seq : Nat) (status : Bytes) : Bytes := msgBytes NLMSG_DONE flags seq status

/-- A kernel that answers the first request with one datagram and has nothing for the others. -/
def linksSocket (d : Bytes) : NlSocket where
  openError := none
  sent seq := .ok (16 + if seq = 1 then 1 else if seq = 2 then 8 else 12)
  received seq := [.data (if seq = 1 then d else doneBytes 2 seq (leBytes 4 0))]
  buf _ := .replicate NL_BUF_SZ 0

theorem linksSocket_complete :
    (nlLoadState (linksSocket (eth0Link.bytes ++ doneMsg.bytes))).rc = some 0 ∧
      ∀ seq ∈ [1, 2, 3], CompleteDump seq
        (receivedMsgs ((linksSocket (eth0Link.bytes ++ doneMsg.bytes)).received seq)) := by
  have hrc : (nlLoadState (linksSocket (eth0Link.bytes ++ doneMsg.bytes))).rc = some 0 := by
    decide +kernel
  obtain ⟨rs, h⟩ := DumpEnd.exists_of_rc hrc
  exact ⟨hrc, (nlLoadState_complete_iff h).mpr (by decide +kernel)⟩

/-- Dumps of the links that are not complete: one that was interrupted, one that ends with the
status `-ENOMEM`, and one that ends with an acknowledgement. -/
def badLinks : List Bytes := [
  msgBytes RTM_NEWLINK 0x12 1 (linkBytes 2 1 ++ attrBytes IFLA_IFNAME [101, 116, 104, 48, 0] ++
    [0, 0, 0]) ++ doneBytes 0x12 1 (leBytes 4 0),
  doneBytes 2 1 (leBytes 4 (2 ^ 32 - 12)),
  msgBytes NLMSG_ERROR 0 1 (leBytes 4 0 ++ msgBytes 18 0x301 1 [])]

theorem badLinks_loaded : badLinks ≠ [] ∧
    ∀ d ∈ badLinks, (nlLoadState (linksSocket d)).rc = some 0 ∧
      ¬ CompleteDump 1 (receivedMsgs ((linksSocket d).received 1)) := by
  have hload : ∀ d ∈ badLinks, (nlLoadState (linksSocket d)).rc = some 0 := by decide +kernel
  have hbad : ∀ d ∈ badLinks,
      ¬ Undisturbed 1 (receivedMsgs ((linksSocket d).received 1)) := by decide +kernel
  exact ⟨nofun, fun d hd => ⟨hload d hd, fun h => hbad d hd h.undisturbed⟩⟩

end Netrec
