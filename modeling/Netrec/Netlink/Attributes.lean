import Netrec.Netlink.Dump

/-!
# Encoding and parsing attributes

A list of attributes is written as records, each padded to a multiple of four bytes. Parsing it
finds them all, and the table keeps for every type the last one. On any other bytes the loop stops
at the first record that does not fit; what it has recorded by then lies in the bytes it was given.

## Main definitions

* `Attr`, `encodeAttrs`: attributes, and the bytes they are written as
* `Attr.key`: the entry of the table that an attribute goes to

## Main results

* `parseRtattr_last`, `parseRtattr_absent`: the entries of the table
* `parseRtattr_exact`: parsing inverts encoding, and is safe on any bytes
-/

namespace Netrec

open CLib

/-! ## Encoding -/

/-- An attribute that has an encoding: its type and its length fit 16 bits. -/
structure Attr where
  type : Nat
  payload : Bytes
  type_lt : type < 2 ^ 16
  length_lt : 4 + payload.length < 2 ^ 16

/-- The type without the flags in its two top bits. -/
def Attr.key (a : Attr) : Nat := a.type % 2 ^ 14

/-- The header and the payload, padded to a multiple of four bytes. -/
def Attr.bytes (a : Attr) : Bytes :=
  attrBytes a.type a.payload ++
    .replicate (align4 (4 + a.payload.length) - (4 + a.payload.length)) 0

/-- Attributes, one after the other. -/
def encodeAttrs (as : List Attr) : Bytes := (as.map Attr.bytes).flatten

theorem leNat_leBytes (n v : Nat) (t : Bytes) : leNat n (leBytes n v ++ t) = v % 256 ^ n := by
  induction n generalizing v with
  | zero => simp [leNat, Nat.mod_one]
  | succ n ih =>
    have hmod : v % 256 ^ (n + 1) = v % 256 + 256 * (v / 256 % 256 ^ n) := by
      rw [Nat.pow_succ', Nat.mod_mul]
    rw [leBytes, List.cons_append, leNat, List.headD_cons, List.tail_cons, ih, UInt8.toNat_ofNat',
      hmod]

theorem length_leBytes (n v : Nat) : (leBytes n v).length = n := by
  induction n generalizing v with
  | zero => rfl
  | succ n ih => rw [leBytes, List.length_cons, ih]

namespace Attr

variable (a : Attr) (t : Bytes)

theorem length_attrBytes (type : Nat) (payload : Bytes) :
    (attrBytes type payload).length = 4 + payload.length := by
  rw [attrBytes, List.length_append, List.length_append, length_leBytes, length_leBytes]

theorem length_bytes : a.bytes.length = align4 (4 + a.payload.length) := by
  have := le_align4 (4 + a.payload.length)
  rw [bytes, List.length_append, length_attrBytes, List.length_replicate]
  omega

theorem len_bytes : rtattr.len (a.bytes ++ t) = 4 + a.payload.length := by
  show leNat 2 _ = _
  rw [bytes, attrBytes, List.append_assoc, List.append_assoc, List.append_assoc, leNat_leBytes,
    Nat.mod_eq_of_lt (show _ < 256 ^ 2 from a.length_lt)]

theorem rtaType_bytes : rtaType (a.bytes ++ t) = a.key := by
  have hdrop : (a.bytes ++ t).drop 2 = leBytes 2 a.type ++ (a.payload ++ (.replicate
      (align4 (4 + a.payload.length) - (4 + a.payload.length)) 0 ++ t)) := by
    rw [bytes, attrBytes]
    simp only [List.append_assoc]
    exact List.drop_left' (length_leBytes 2 _)
  rw [rtaType, hdrop, leNat_leBytes, Nat.mod_eq_of_lt (show _ < 256 ^ 2 from a.type_lt), key]

theorem rtaPayload_bytes : rtaPayload (a.bytes ++ t) = a.payload.length := by
  rw [rtaPayload, len_bytes]
  omega

theorem rtaData_bytes : (rtaData (a.bytes ++ t)).take a.payload.length = a.payload := by
  have hdrop : rtaData (a.bytes ++ t) = a.payload ++ (.replicate
      (align4 (4 + a.payload.length) - (4 + a.payload.length)) 0 ++ t) := by
    rw [rtaData, bytes, attrBytes]
    simp only [List.append_assoc]
    rw [← List.append_assoc]
    exact List.drop_left' (by rw [List.length_append, length_leBytes, length_leBytes])
  rw [hdrop, List.take_left]

theorem padded_bytes : rtattr.Padded a.bytes := by
  have hlen := a.len_bytes []
  rw [List.append_nil] at hlen
  have := le_align4 (4 + a.payload.length)
  unfold RecFormat.Padded
  rw [hlen, length_bytes]
  exact ⟨Nat.le_add_right 4 _, this, rfl⟩

end Attr

/-! ## The table -/

section Table

variable {max k : Nat} {tb : AttrTable}

/-- Attributes of other types leave an entry as it is. -/
theorem foldl_setRtattr_of_ne {l : List Bytes} (h : ∀ rta ∈ l, rtaType rta ≠ k) :
    l.foldl (setRtattr max) tb k = tb k := by
  induction l generalizing tb with
  | nil => rfl
  | cons rta l ih =>
    obtain ⟨hrta, hl⟩ := List.forall_mem_cons.mp h
    rw [List.foldl_cons, ih hl, setRtattr]
    split_ifs
    · exact Function.update_of_ne (Ne.symm hrta) _ _
    · rfl

/-- The last attribute of a type stays. -/
theorem foldl_setRtattr_last {l l' : List Bytes} {rta : Bytes} (hk : k ≤ max)
    (hrta : rtaType rta = k)
    (h : ∀ r ∈ l', rtaType r ≠ k) :
    (l ++ rta :: l').foldl (setRtattr max) tb k = some rta := by
  rw [List.foldl_append, List.foldl_cons, foldl_setRtattr_of_ne h, setRtattr, hrta, if_pos hk,
    Function.update_self]

end Table

/-! ## Parsing what was encoded -/

theorem parseRtattr_encodeAttrs (max : Nat) (as : List Attr) (t : Bytes) :
    parseRtattr max (encodeAttrs as ++ t) (encodeAttrs as).length =
      (RecFormat.starts t (as.map Attr.bytes)).foldl (setRtattr max) fun _ => none := by
  have hpadded : ∀ m ∈ as.map Attr.bytes, rtattr.Padded m := by
    intro m hm
    obtain ⟨a, -, rfl⟩ := List.mem_map.mp hm
    exact a.padded_bytes
  rw [parseRtattr, encodeAttrs, RecFormat.records_packed hpadded]

/-- What starts in the encoding has the type of one of the attributes. -/
theorem rtaType_of_mem_starts {as : List Attr} {t rta : Bytes}
    (h : rta ∈ RecFormat.starts t (as.map Attr.bytes)) : ∃ a ∈ as, rtaType rta = a.key := by
  obtain ⟨m, hm, rest, rfl⟩ := RecFormat.mem_starts h
  obtain ⟨a, ha, rfl⟩ := List.mem_map.mp hm
  exact ⟨a, ha, a.rtaType_bytes rest⟩

/-- The table has the last attribute of a type. -/
theorem parseRtattr_last {max : Nat} {pre post : List Attr} {a : Attr} (ha : a.key ≤ max)
    (hpost : ∀ b ∈ post, b.key ≠ a.key) (t : Bytes) :
    parseRtattr max (encodeAttrs (pre ++ a :: post) ++ t) (encodeAttrs (pre ++ a :: post)).length
      a.key = some (encodeAttrs (a :: post) ++ t) := by
  have hsplit : RecFormat.starts t ((pre ++ a :: post).map Attr.bytes) =
      RecFormat.starts (encodeAttrs (a :: post) ++ t) (pre.map Attr.bytes) ++
        (encodeAttrs (a :: post) ++ t) :: RecFormat.starts t (post.map Attr.bytes) := by
    rw [List.map_append, RecFormat.starts_append, List.map_cons, RecFormat.starts, encodeAttrs,
      List.map_cons, List.flatten_cons, List.append_assoc]
  rw [parseRtattr_encodeAttrs, hsplit]
  refine foldl_setRtattr_last ha ?_ fun r hr => ?_
  · rw [encodeAttrs, List.map_cons, List.flatten_cons, List.append_assoc]
    exact a.rtaType_bytes _
  · obtain ⟨b, hb, htype⟩ := rtaType_of_mem_starts hr
    rw [htype]
    exact hpost b hb

/-- The table has nothing for a type that is not there. -/
theorem parseRtattr_absent {max k : Nat} {as : List Attr} (h : ∀ a ∈ as, a.key ≠ k) (t : Bytes) :
    parseRtattr max (encodeAttrs as ++ t) (encodeAttrs as).length k = none := by
  rw [parseRtattr_encodeAttrs]
  refine foldl_setRtattr_of_ne fun r hr => ?_
  obtain ⟨a, ha, htype⟩ := rtaType_of_mem_starts hr
  rw [htype]
  exact h a ha

/-- **Parsing attributes inverts encoding them, and is safe on any bytes.** For encoded attributes
the table has, under each type up to `max`, the last attribute of that type, with its payload, and
nothing for a type that is not there. For any memory and any length the loop ends by itself, no type
beyond `max` is recorded, and the header and the payload of what is recorded lie in the first `len`
bytes. -/
theorem parseRtattr_exact (max : Nat) :
    (∀ (pre post : List Attr) (a : Attr) (t : Bytes), a.key ≤ max → (∀ b ∈ post, b.key ≠ a.key) →
      ∃ rta, parseRtattr max (encodeAttrs (pre ++ a :: post) ++ t)
          (encodeAttrs (pre ++ a :: post)).length a.key = some rta ∧
        rta = (encodeAttrs (pre ++ a :: post) ++ t).drop (encodeAttrs pre).length ∧
        rtaType rta = a.key ∧ rtaPayload rta = a.payload.length ∧
        (rtaData rta).take a.payload.length = a.payload) ∧
    (∀ (as : List Attr) (t : Bytes) (k : Nat), (∀ a ∈ as, a.key ≠ k) →
      parseRtattr max (encodeAttrs as ++ t) (encodeAttrs as).length k = none) ∧
    ∀ (p : Bytes) (len : Int),
      (∃ n ≤ len.toNat,
        (∀ i < n, rtattr.Ok (rtattr.next^[i] (p, len)).1 (rtattr.next^[i] (p, len)).2) ∧
        ¬ rtattr.Ok (rtattr.next^[n] (p, len)).1 (rtattr.next^[n] (p, len)).2 ∧
        (rtattr.records p len).1 = (List.range n).map fun i => (rtattr.next^[i] (p, len)).1) ∧
      ∀ k rta, parseRtattr max p len k = some rta →
        k ≤ max ∧ ∃ off : Nat, rta = p.drop off ∧ 4 ≤ rtattr.len rta ∧
          off + rtattr.len rta ≤ len := by
  refine ⟨fun pre post a t ha hpost => ?_, fun as t k h => parseRtattr_absent h t,
    fun p len => ⟨RecFormat.records_run p len, fun k rta h => ?_⟩⟩
  · have hbytes : encodeAttrs (a :: post) ++ t = a.bytes ++ (encodeAttrs post ++ t) := by
      rw [encodeAttrs, List.map_cons, List.flatten_cons, List.append_assoc]
      rfl
    refine ⟨encodeAttrs (a :: post) ++ t, parseRtattr_last ha hpost t, ?_, ?_, ?_, ?_⟩
    · rw [encodeAttrs, encodeAttrs, encodeAttrs, List.map_append, List.flatten_append,
        List.append_assoc, List.drop_left]
    · rw [hbytes, Attr.rtaType_bytes]
    · rw [hbytes, Attr.rtaPayload_bytes]
    · rw [hbytes, Attr.rtaData_bytes]
  · obtain ⟨hk, -, hmem⟩ := parseRtattr_eq_some h
    exact ⟨hk, RecFormat.mem_records_offset hmem⟩

/-- Two values for one type, the second with a flag in its type: the second one stays. -/
theorem parseRtattr_exact_twice :
    parseRtattr 5 (attrBytes 3 [7] ++ [0, 0, 0] ++ attrBytes 0x8003 [9] ++ [0, 0, 0]) 16 3 =
      some (attrBytes 0x8003 [9] ++ [0, 0, 0]) := by
  obtain ⟨hlast, -, -⟩ := parseRtattr_exact 5
  obtain ⟨rta, hrta, hdrop, -⟩ := hlast [⟨3, [7], by decide, by decide⟩] []
    ⟨0x8003, [9], by decide, by decide⟩ [] (by decide) (by simp)
  rw [hdrop] at hrta
  exact hrta

end Netrec
