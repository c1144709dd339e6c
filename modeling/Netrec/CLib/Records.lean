import Netrec.CLib.CString

/-!
# Length-prefixed records in memory

A pointer into a buffer is the memory from there on, as a list of bytes; what follows the buffer
belongs to it, so that a read past the end of an object finds whatever happens to be there. A
buffer of records is walked by a loop that stops at the first record whose header or length does
not fit in the bytes left; a record is followed by the next one at a multiple of four bytes.

## Main definitions

* `Bytes`, `leNat`, `beNat`, `s32`, `chars`: memory, and the numbers and texts read from it
* `RecFormat`: where the length of a record stands
* `RecFormat.records`: the records that the loop visits, and the bytes left when it stops
* `RecFormat.Padded`, `RecFormat.IsFrame`: one record with its padding, and one that needs none

## Main results

* `leNat_drop_append`: a number inside an object does not depend on what follows it
* `RecFormat.records_append`, `RecFormat.mem_records`: the records of a buffer do not depend on what
  follows it, and lie inside it
* `RecFormat.records_run`, `RecFormat.mem_records_offset`: the loop ends by itself and stays within
  the bytes it is given
* `RecFormat.records_packed`: records that are packed into a buffer are visited one by one
-/

namespace CLib

/-- Memory from an address on. -/
abbrev Bytes := List UInt8

/-- The unsigned little-endian number in the first `n` bytes. -/
def leNat : Nat → Bytes → Nat
  | 0, _ => 0
  | n + 1, p => (p.headD 0).toNat + 256 * leNat n p.tail

/-- The unsigned big-endian number in the first `n` bytes. -/
def beNat (n : Nat) (p : Bytes) : Nat := (p.take n).foldl (fun v b => 256 * v + b.toNat) 0

/-- The value of 32 bits as an `int`. -/
def s32 (n : Nat) : Int := if n < 2 ^ 31 then n else n - 2 ^ 32

/-- Memory as text; the string ends at the first `NUL`. -/
def chars (p : Bytes) : CStr := p.map fun b => Char.ofNat b.toNat

theorem leNat_lt (n : Nat) (p : Bytes) : leNat n p < 256 ^ n := by
  induction n generalizing p with
  | zero => exact Nat.one_pos
  | succ n ih =>
    have hhead := (p.headD 0).toNat_lt
    have htail := ih p.tail
    rw [leNat, Nat.pow_succ]
    omega

theorem s32_eq_natCast_iff {n v : Nat} (hn : n < 2 ^ 32) (hv : v < 2 ^ 31) :
    s32 n = v ↔ n = v := by
  unfold s32
  split_ifs <;> omega

theorem leNat_append {n : Nat} {p : Bytes} (h : n ≤ p.length) (t : Bytes) :
    leNat n (p ++ t) = leNat n p := by
  induction n generalizing p with
  | zero => rfl
  | succ n ih =>
    cases p with
    | nil => simp at h
    | cons b p => simp only [List.cons_append, leNat, List.headD_cons, List.tail_cons,
        ih (Nat.le_of_succ_le_succ h)]

/-- **A number inside an object does not depend on what follows it.** -/
theorem leNat_drop_append {n k : Nat} {p : Bytes} (h : k + n ≤ p.length) (t : Bytes) :
    leNat n ((p ++ t).drop k) = leNat n (p.drop k) := by
  rw [List.drop_append_of_le_length (by omega), leNat_append (by rw [List.length_drop]; omega)]

theorem beNat_drop_append {n k : Nat} {p : Bytes} (h : k + n ≤ p.length) (t : Bytes) :
    beNat n ((p ++ t).drop k) = beNat n (p.drop k) := by
  rw [beNat, List.drop_append_of_le_length (by omega),
    List.take_append_of_le_length (by rw [List.length_drop]; omega), beNat]

/-- A string that ends inside an object does not depend on what follows it. -/
theorem cstr_chars_append {p : Bytes} (h : 0 ∈ p) (t : Bytes) :
    cstr (chars (p ++ t)) = cstr (chars p) := by
  induction p with
  | nil => simp at h
  | cons b p ih =>
    by_cases hb : b = 0
    · subst hb
      rfl
    · have hp : 0 ∈ p := (List.mem_cons.mp h).resolve_left (Ne.symm hb)
      have := ih hp
      simp only [cstr, chars, List.cons_append, List.map_cons, List.takeWhile_cons] at this ⊢
      rw [this]

/-! ## The loop over records -/

/-- Records start with their length, header included, in `lenSize` bytes. -/
structure RecFormat where
  hdr : Nat
  lenSize : Nat
  lenSize_le : lenSize ≤ hdr
  hdr_pos : 0 < hdr

/-- The next multiple of four. -/
def align4 (n : Nat) : Nat := (n + 3) / 4 * 4

theorem le_align4 (n : Nat) : n ≤ align4 n := by
  unfold align4
  omega

theorem align4_eq_self {n : Nat} (h : 4 ∣ n) : align4 n = n := by
  unfold align4
  omega

namespace RecFormat

variable (F : RecFormat)

/-- The length of the record at `p`. -/
def len (p : Bytes) : Nat := leNat F.lenSize p

/-- The header and the length of the record at `p` fit in the `rem` bytes left. -/
def Ok (p : Bytes) (rem : Int) : Prop := (F.hdr : Int) ≤ rem ∧ F.hdr ≤ F.len p ∧ F.len p ≤ rem

instance (p : Bytes) (rem : Int) : Decidable (F.Ok p rem) := inferInstanceAs (Decidable (_ ∧ _ ∧ _))

/-- At most `n` rounds of the loop. -/
def walk : Nat → Bytes → Int → List Bytes × Int
  | 0, _, rem => ([], rem)
  | n + 1, p, rem =>
    if F.Ok p rem then
      let next := walk n (p.drop (align4 (F.len p))) (rem - align4 (F.len p))
      (p :: next.1, next.2)
    else ([], rem)

/-- The records that the loop visits in the next `rem` bytes, and what is left of them when it
stops. -/
def records (p : Bytes) (rem : Int) : List Bytes × Int := F.walk rem.toNat p rem

variable {F}

theorem Ok.len_pos {p : Bytes} {rem : Int} (h : F.Ok p rem) : 0 < F.len p :=
  F.hdr_pos.trans_le h.2.1

/-- More rounds than there are bytes change nothing. -/
theorem walk_eq_records {n : Nat} {p : Bytes} {rem : Int} (h : rem.toNat ≤ n) :
    F.walk n p rem = F.records p rem := by
  have key : ∀ n m p rem, Int.toNat rem ≤ n → Int.toNat rem ≤ m →
      F.walk n p rem = F.walk m p rem := by
    intro n
    induction n with
    | zero =>
      intro m p rem hn _
      -- nothing is left, so the other loop stops at once
      have hnot : ¬ F.Ok p rem := fun hok => by
        have := hok.len_pos
        have := hok.2.2
        omega
      cases m with
      | zero => rfl
      | succ m => rw [walk, walk, if_neg hnot]
    | succ n ih =>
      intro m p rem hn hm
      by_cases hok : F.Ok p rem
      · have := hok.len_pos
        have := hok.2.2
        have := le_align4 (F.len p)
        cases m with
        | zero => omega
        | succ m => rw [walk, walk, if_pos hok, if_pos hok, ih m _ _ (by omega) (by omega)]
      · cases m with
        | zero => rw [walk, walk, if_neg hok]
        | succ m => rw [walk, walk, if_neg hok, if_neg hok]
  exact key n _ p rem h le_rfl

theorem records_of_ok {p : Bytes} {rem : Int} (h : F.Ok p rem) :
    F.records p rem =
      (p :: (F.records (p.drop (align4 (F.len p))) (rem - align4 (F.len p))).1,
        (F.records (p.drop (align4 (F.len p))) (rem - align4 (F.len p))).2) := by
  have := h.len_pos
  have := h.2.2
  have := le_align4 (F.len p)
  obtain ⟨n, hn⟩ : ∃ n, rem.toNat = n + 1 := ⟨rem.toNat - 1, by omega⟩
  rw [records, hn, walk, if_pos h, walk_eq_records (by omega)]

theorem records_of_not_ok {p : Bytes} {rem : Int} (h : ¬ F.Ok p rem) :
    F.records p rem = ([], rem) := by
  unfold records
  cases rem.toNat with
  | zero => rfl
  | succ n => rw [walk, if_neg h]

/-- **The loop, round by round.** -/
theorem records_induction {P : Bytes → Int → Prop}
    (stop : ∀ p rem, ¬ F.Ok p rem → P p rem)
    (next : ∀ p rem, F.Ok p rem → P (p.drop (align4 (F.len p))) (rem - align4 (F.len p)) → P p rem)
    (p : Bytes) (rem : Int) : P p rem := by
  generalize hn : rem.toNat = n
  induction n using Nat.strong_induction_on generalizing p rem with
  | _ n ih =>
    by_cases hok : F.Ok p rem
    · have := hok.len_pos
      have := hok.2.2
      have := le_align4 (F.len p)
      exact next p rem hok (ih _ (by omega) _ _ rfl)
    · exact stop p rem hok

theorem len_append {p : Bytes} (h : F.hdr ≤ p.length) (t : Bytes) : F.len (p ++ t) = F.len p :=
  leNat_append (F.lenSize_le.trans h) t

theorem ok_append_iff {p : Bytes} {rem : Int} (h : rem ≤ p.length) (t : Bytes) :
    F.Ok (p ++ t) rem ↔ F.Ok p rem := by
  unfold Ok
  refine and_congr_right fun hhdr => ?_
  rw [len_append (by omega)]

/-- **The records of a buffer do not depend on what follows it.** -/
theorem records_append {p : Bytes} {rem : Int} (h : rem ≤ p.length) (t : Bytes) :
    F.records (p ++ t) rem = ((F.records p rem).1.map (· ++ t), (F.records p rem).2) := by
  induction p, rem using F.records_induction with
  | stop p rem hok =>
    rw [records_of_not_ok hok, records_of_not_ok (mt (ok_append_iff h t).mp hok)]
    rfl
  | next p rem hok ih =>
    have hlen : F.len (p ++ t) = F.len p := len_append (by have := hok.1; omega) t
    rw [records_of_ok hok, records_of_ok ((ok_append_iff h t).mpr hok), hlen]
    by_cases hle : align4 (F.len p) ≤ p.length
    · rw [List.drop_append_of_le_length hle, ih (by rw [List.length_drop]; omega)]
      rfl
    · -- the padding of the last record is missing: nothing is left for another one
      have hneg : ∀ q, ¬ F.Ok q (rem - align4 (F.len p)) := fun q hq => by
        have := hq.1
        omega
      rw [records_of_not_ok (hneg _), records_of_not_ok (hneg _)]
      rfl

/-- **The records of a buffer lie inside it.** -/
theorem mem_records {p q : Bytes} {rem : Int} (h : rem ≤ p.length) (hq : q ∈ (F.records p rem).1) :
    F.hdr ≤ F.len q ∧ F.len q ≤ q.length := by
  induction p, rem using F.records_induction with
  | stop p rem hok =>
    rw [records_of_not_ok hok] at hq
    cases hq
  | next p rem hok ih =>
    rw [records_of_ok hok] at hq
    obtain rfl | hq := List.mem_cons.mp hq
    · exact ⟨hok.2.1, by have := hok.2.2; omega⟩
    · refine ih ?_ hq
      rw [List.length_drop]
      omega

/-- A record that the loop visits starts at some offset and ends within the bytes that the loop was
given, whatever memory there is. -/
theorem mem_records_offset {p q : Bytes} {rem : Int} (hq : q ∈ (F.records p rem).1) :
    ∃ off : Nat, q = p.drop off ∧ F.hdr ≤ F.len q ∧ off + F.len q ≤ rem := by
  induction p, rem using F.records_induction with
  | stop p rem hok =>
    rw [records_of_not_ok hok] at hq
    cases hq
  | next p rem hok ih =>
    rw [records_of_ok hok] at hq
    obtain rfl | hq := List.mem_cons.mp hq
    · exact ⟨0, rfl, hok.2.1, by simpa using hok.2.2⟩
    · obtain ⟨off, hdrop, hhdr, hle⟩ := ih hq
      refine ⟨align4 (F.len p) + off, by rw [hdrop, List.drop_drop], hhdr, ?_⟩
      push_cast
      omega

variable (F) in
/-- One round of the loop: the pointer and the bytes left. -/
def next (st : Bytes × Int) : Bytes × Int :=
  (st.1.drop (align4 (F.len st.1)), st.2 - align4 (F.len st.1))

/-- **The loop ends by itself**, after at most as many rounds as there are bytes: the next record
does not fit any more, and the ones before it have been visited in order. -/
theorem records_run (p : Bytes) (rem : Int) :
    ∃ n ≤ rem.toNat, (∀ i < n, F.Ok (F.next^[i] (p, rem)).1 (F.next^[i] (p, rem)).2) ∧
      ¬ F.Ok (F.next^[n] (p, rem)).1 (F.next^[n] (p, rem)).2 ∧
      (F.records p rem).1 = (List.range n).map fun i => (F.next^[i] (p, rem)).1 := by
  induction p, rem using F.records_induction with
  | stop p rem hok =>
    exact ⟨0, Nat.zero_le _, by simp, hok, by rw [records_of_not_ok hok]; rfl⟩
  | next p rem hok ih =>
    obtain ⟨n, hn, hall, hstop, hrec⟩ := ih
    have := hok.len_pos
    have := hok.2.2
    have := le_align4 (F.len p)
    refine ⟨n + 1, by omega, fun i hi => ?_, hstop, ?_⟩
    · cases i with
      | zero => exact hok
      | succ i => exact hall i (by omega)
    · rw [records_of_ok hok, hrec, List.range_succ_eq_map, List.map_cons, List.map_map]
      rfl

/-! ## Packed records -/

variable (F) in
/-- One record with its padding. -/
def Padded (m : Bytes) : Prop := F.hdr ≤ F.len m ∧ F.len m ≤ m.length ∧ m.length = align4 (F.len m)

/-- The places where records that are packed into a buffer start. -/
def starts (t : Bytes) : List Bytes → List Bytes
  | [] => []
  | m :: ms => (m ++ (ms.flatten ++ t)) :: starts t ms

theorem starts_append (t : Bytes) (ms ms' : List Bytes) :
    starts t (ms ++ ms') = starts (ms'.flatten ++ t) ms ++ starts t ms' := by
  induction ms with
  | nil => rfl
  | cons m ms ih =>
    rw [List.cons_append, starts, ih, starts, List.flatten_append, List.append_assoc,
      List.cons_append]

theorem mem_starts {t q : Bytes} {ms : List Bytes} (h : q ∈ starts t ms) :
    ∃ m ∈ ms, m <+: q := by
  induction ms with
  | nil => cases h
  | cons m ms ih =>
    obtain rfl | h := List.mem_cons.mp h
    · exact ⟨m, List.mem_cons_self, List.prefix_append _ _⟩
    · obtain ⟨m', hm', hpre⟩ := ih h
      exact ⟨m', List.mem_cons_of_mem _ hm', hpre⟩

/-- **Packed records are visited one by one.** -/
theorem records_packed {ms : List Bytes} (h : ∀ m ∈ ms, F.Padded m) (t : Bytes) :
    F.records (ms.flatten ++ t) ms.flatten.length = (starts t ms, 0) := by
  induction ms with
  | nil =>
    refine records_of_not_ok fun hok => ?_
    have hle : (F.hdr : Int) ≤ 0 := hok.1
    have := F.hdr_pos
    omega
  | cons m ms ih =>
    obtain ⟨⟨hhdr, hfits, hpad⟩, hms⟩ := List.forall_mem_cons.mp h
    have hlen : F.len (m ++ (ms.flatten ++ t)) = F.len m := len_append (hhdr.trans hfits) _
    have hok : F.Ok (m ++ (ms.flatten ++ t)) (m :: ms).flatten.length := by
      unfold Ok
      rw [hlen, List.flatten_cons, List.length_append]
      omega
    have hrest : ((m :: ms).flatten.length : Int) - m.length = ms.flatten.length := by
      rw [List.flatten_cons, List.length_append]
      omega
    rw [List.flatten_cons, List.append_assoc] at *
    rw [records_of_ok hok, hlen, ← hpad, List.drop_left, hrest, ih hms]
    rfl

variable (F) in
/-- One record, with its length right and no padding. -/
def IsFrame (m : Bytes) : Prop := F.hdr ≤ m.length ∧ F.len m = m.length ∧ 4 ∣ m.length

instance (m : Bytes) : Decidable (F.IsFrame m) := inferInstanceAs (Decidable (_ ∧ _ ∧ _))

theorem IsFrame.padded {m : Bytes} (h : F.IsFrame m) : F.Padded m := by
  obtain ⟨hhdr, hlen, hdvd⟩ := h
  unfold Padded
  rw [hlen, align4_eq_self hdvd]
  exact ⟨hhdr, le_rfl, rfl⟩

theorem forall₂_starts (t : Bytes) (ms : List Bytes) :
    List.Forall₂ (· <+: ·) ms (starts t ms) := by
  induction ms with
  | nil => exact .nil
  | cons m ms ih => exact .cons (List.prefix_append _ _) ih

/-- So are frames. -/
theorem records_flatten {ms : List Bytes} (h : ∀ m ∈ ms, F.IsFrame m) (t : Bytes) :
    ∃ ps, F.records (ms.flatten ++ t) ms.flatten.length = (ps, 0) ∧
      List.Forall₂ (· <+: ·) ms ps :=
  ⟨starts t ms, records_packed (fun m hm => (h m hm).padded) t, forall₂_starts t ms⟩

end RecFormat

end CLib
