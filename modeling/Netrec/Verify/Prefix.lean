import Netrec.CLib.Literals
import Netrec.Verify.Spec

/-!
# Addresses with a prefix length

`parse_addr_prefix` splits at the first slash and leaves the two sides to `inet_pton` and `strtol`.
It checks that `strtol` has read to the end, but not that it has read a digit, and it does not look
at what `strtol` skips. A prefix length that is missing counts as 0, and one may have white space or
a sign in front of it.

## Main definitions

* `AddrPrefix s addr plen`: the address and the prefix length, as they should be written
* `LoosePrefix`: the texts of a prefix length that are accepted and should not be

## Main results

* `parseAddrPrefix_iff`: what is accepted
* `parseAddrPrefix_exact_iff`: when that is what should be
-/

namespace Netrec

open CLib

/-- `A/P` with a dotted quad and a decimal number of at most 32. -/
def AddrPrefix (s : CStr) (addr : UInt32) (plen : Int) : Prop :=
  ∃ a p, s = a ++ '/' :: p ∧ inetPton a = some addr ∧ p ≠ [] ∧ (∀ c ∈ p, isDigit c) ∧
    digitsVal 10 p ≤ 32 ∧ plen = digitsVal 10 p

/-- A prefix length as `strtol` reads it: white space and a sign may stand in front of it, but a
negative one is out of range. -/
def ReadsPrefix (front p : CStr) (plen : Int) : Prop :=
  ∃ neg ds m, p = front ++ ds ∧ Lead neg front ∧ DigitsOf 10 ds m ∧ m ≤ 32 ∧ (neg = true → m = 0) ∧
    plen = (m : Int)

/-- Nothing at all, or a number with something in front of it. -/
def LoosePrefix (p : CStr) : Prop :=
  p = [] ∨ ∃ front plen, front ≠ [] ∧ ReadsPrefix front p plen

/-! ## What is accepted -/

theorem exists_readsPrefix_iff {p : CStr} {plen : Int} :
    (∃ front, ReadsPrefix front p plen) ↔
      ∃ neg m, readNumeral 10 p = some (neg, m, []) ∧ m ≤ 32 ∧ (neg = true → m = 0) ∧
        plen = (m : Int) := by
  simp only [readNumeral_ten_iff]
  constructor
  · rintro ⟨front, neg, ds, m, hp, hlead, hds, hm⟩
    exact ⟨neg, m, ⟨front, ds, hp, hlead, hds⟩, hm⟩
  · rintro ⟨neg, m, ⟨front, ds, hp, hlead, hds⟩, hm⟩
    exact ⟨front, neg, ds, m, hp, hlead, hds, hm⟩

/-- The checks behind `strtol`: a text without a number is accepted if it is empty. -/
theorem strtol_prefix_iff {p : CStr} {plen : Int} :
    ¬ ((strtol 10 p).2.2 = true ∨ (strtol 10 p).2.1 ≠ [] ∨ (strtol 10 p).1 < 0 ∨
        (strtol 10 p).1 > 32) ∧ (strtol 10 p).1 = plen ↔
      p = [] ∧ plen = 0 ∨ ∃ front, ReadsPrefix front p plen := by
  rw [exists_readsPrefix_iff]
  cases hread : readNumeral 10 p with
  | none =>
    have hval : strtol 10 p = (0, p, false) := by simp only [strtol, hread]
    rw [hval]
    simp [eq_comm]
  | some r =>
    obtain ⟨neg, m, rest⟩ := r
    have hne : p ≠ [] := by
      rintro rfl
      cases hread
    simp only [strtol, hread, hne, false_and, false_or, Option.some.injEq, Prod.mk.injEq]
    cases neg with
    | false =>
      simp only [Bool.false_eq_true, if_false]
      split_ifs with hbig
      · refine iff_of_false (by simp) ?_
        rintro ⟨neg', m', ⟨-, rfl, -⟩, hm, -⟩
        omega
      · constructor
        · rintro ⟨hcond, rfl⟩
          simp only [false_or, not_or, not_not] at hcond
          exact ⟨false, m, ⟨rfl, rfl, hcond.1⟩, by omega, by simp, rfl⟩
        · rintro ⟨neg', m', ⟨-, rfl, rfl⟩, hm, -, rfl⟩
          simp
          omega
    | true =>
      simp only [if_true]
      split_ifs with hbig
      · refine iff_of_false (by simp) ?_
        rintro ⟨neg', m', ⟨rfl, rfl, -⟩, hm, -⟩
        omega
      · -- a minus sign leaves only zero
        constructor
        · rintro ⟨hcond, rfl⟩
          simp only [false_or, not_or, not_not] at hcond
          exact ⟨true, m, ⟨rfl, rfl, hcond.1⟩, by omega, fun _ => by omega, by omega⟩
        · rintro ⟨neg', m', ⟨rfl, rfl, rfl⟩, hm, hneg, rfl⟩
          simp [hneg rfl]

/-- A slash is not part of an address, so the split at the first slash finds the address. -/
theorem slash_notMem {a : CStr} {addr : UInt32} (h : inetPton a = some addr) : '/' ∉ a := by
  intro hmem
  have hchar := inetPton_chars h hmem
  exact absurd hchar (by decide)

/-- **What `parse_addr_prefix` accepts.** -/
theorem parseAddrPrefix_iff {s : CStr} (hs : s.length ≤ 63) {addr : UInt32} {plen : Int} :
    parseAddrPrefix s = some (addr, plen) ↔
      ∃ a p, s = a ++ '/' :: p ∧ inetPton a = some addr ∧
        (p = [] ∧ plen = 0 ∨ ∃ front, ReadsPrefix front p plen) := by
  simp only [← strtol_prefix_iff]
  unfold parseAddrPrefix
  rw [List.take_of_length_le hs]
  constructor
  · intro h
    split_ifs at h with hnil
    split at h
    · cases h
    · rename_i a p hsplit
      split at h
      · cases h
      · rename_i addr' ha
        simp only [Option.ite_none_left_eq_some, Option.some.injEq, Prod.mk.injEq] at h
        obtain ⟨hcond, rfl, hv⟩ := h
        exact ⟨a, p, splitAtChar_eq_some hsplit, ha, hcond, hv⟩
  · rintro ⟨a, p, rfl, ha, hcond, hv⟩
    rw [if_neg (by simp), splitAtChar_append p (slash_notMem ha)]
    simp only [ha]
    rw [if_neg hcond, hv]

/-! ## What should be accepted -/

/-- A number with nothing in front of it is how a prefix length should be written. -/
theorem readsPrefix_nil_iff {p : CStr} {plen : Int} :
    ReadsPrefix [] p plen ↔
      p ≠ [] ∧ (∀ c ∈ p, isDigit c) ∧ digitsVal 10 p ≤ 32 ∧ plen = digitsVal 10 p := by
  constructor
  · rintro ⟨neg, ds, m, rfl, -, ⟨hne, hall, rfl⟩, hm, -, rfl⟩
    exact ⟨hne, fun c hc => digitVal_lt_ten_iff.mp (hall c hc), hm, rfl⟩
  · rintro ⟨hne, hall, hm, rfl⟩
    exact ⟨false, p, _, rfl, lead_nil, ⟨hne, fun c hc => digitVal_lt_ten (hall c hc), rfl⟩, hm,
      by simp, rfl⟩

/-- The same text is not also a number with something in front of it. -/
theorem LoosePrefix.not_digits {p : CStr} (h : LoosePrefix p) :
    ¬ (p ≠ [] ∧ ∀ c ∈ p, isDigit c) := by
  rintro ⟨hne, hall⟩
  obtain rfl | ⟨front, plen, hfront, neg, ds, m, rfl, hlead, -⟩ := h
  · exact hne rfl
  · obtain ⟨c, front, rfl⟩ := List.exists_cons_of_ne_nil hfront
    have hc := hall c (by simp)
    rw [hlead.head_not_digit c rfl] at hc
    cases hc

/-- **When the prefix parser is exact.** For a text of at most 63 bytes, exactly what should be
accepted is accepted, unless an address is followed by an empty prefix length or by one with white
space or a sign in front of it. -/
theorem parseAddrPrefix_exact_iff (s : CStr) (hs : s.length ≤ 63) :
    (∀ addr plen, parseAddrPrefix s = some (addr, plen) ↔ AddrPrefix s addr plen) ↔
      ∀ a p, s = a ++ '/' :: p → (inetPton a).isSome → ¬ LoosePrefix p := by
  have hstrict : ∀ {addr plen}, AddrPrefix s addr plen ↔
      ∃ a p, s = a ++ '/' :: p ∧ inetPton a = some addr ∧ ReadsPrefix [] p plen := by
    simp only [AddrPrefix, readsPrefix_nil_iff, implies_true]
  constructor
  · rintro hexact a p rfl ha hloose
    obtain ⟨addr, ha⟩ := Option.isSome_iff_exists.mp ha
    have haccept : ∃ plen, parseAddrPrefix (a ++ '/' :: p) = some (addr, plen) := by
      obtain rfl | ⟨front, plen, -, hp⟩ := hloose
      · exact ⟨0, (parseAddrPrefix_iff hs).mpr ⟨a, [], rfl, ha, .inl ⟨rfl, rfl⟩⟩⟩
      · exact ⟨plen, (parseAddrPrefix_iff hs).mpr ⟨a, p, rfl, ha, .inr ⟨front, hp⟩⟩⟩
    obtain ⟨plen, hplen⟩ := haccept
    obtain ⟨a', p', he, ha', hne, hall, -⟩ := (hexact addr plen).mp hplen
    -- both splits are at the first slash
    have hsplit := splitAtChar_append p (slash_notMem ha)
    rw [he, splitAtChar_append p' (slash_notMem ha')] at hsplit
    obtain ⟨rfl, rfl⟩ : a' = a ∧ p' = p := by simpa using hsplit
    exact hloose.not_digits ⟨hne, hall⟩
  · intro hloose addr plen
    rw [parseAddrPrefix_iff hs, hstrict]
    refine exists₂_congr fun a p => and_congr_right fun hsplit => and_congr_right fun ha => ?_
    have hp := hloose a p hsplit (by simp [ha])
    constructor
    · rintro (⟨rfl, -⟩ | ⟨front, hfront⟩)
      · exact absurd (.inl rfl) hp
      · by_cases hnil : front = []
        · rwa [← hnil]
        · exact absurd (.inr ⟨front, plen, hnil, hfront⟩) hp
    · exact fun h => .inr ⟨[], h⟩

/-- `10.0.0.1/24` is read as it should be. -/
theorem parseAddrPrefix_exact_24 :
    parseAddrPrefix "10.0.0.1/24".toList = some (0x0a000001, 24) ∧
      AddrPrefix "10.0.0.1/24".toList 0x0a000001 24 := by
  have hread : parseAddrPrefix "10.0.0.1/24".toList = some (0x0a000001, 24) := by decide
  refine ⟨hread, ((parseAddrPrefix_exact_iff _ (by decide)).mpr ?_ _ _).mp hread⟩
  intro a p hsplit ha hloose
  obtain ⟨addr, ha⟩ := Option.isSome_iff_exists.mp ha
  have hparts := splitAtChar_append p (slash_notMem ha)
  rw [← hsplit] at hparts
  obtain rfl : "24".toList = p := (Prod.mk.inj (Option.some.inj hparts)).2
  exact hloose.not_digits ⟨by decide, by simpa using List.all_eq_true.mp (by decide :
    "24".toList.all isDigit)⟩

/-- A prefix length may have a sign. -/
theorem parseAddrPrefix_plus :
    parseAddrPrefix "10.0.0.1/+24".toList = some (0x0a000001, 24) ∧
      ¬ AddrPrefix "10.0.0.1/+24".toList 0x0a000001 24 := by
  refine ⟨by decide, ?_⟩
  rintro ⟨a, p, hsplit, ha, -, hall, -⟩
  have hparts := splitAtChar_append p (slash_notMem ha)
  rw [← hsplit] at hparts
  obtain rfl : "+24".toList = p := (Prod.mk.inj (Option.some.inj hparts)).2
  exact absurd (hall '+' (by decide)) (by decide)

end Netrec
