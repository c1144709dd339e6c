import Netrec.CLib.Literals
import Netrec.Yaml

/-!
# Integer fields

`parse_u32_str` reads VLAN ids and VNIs, from configuration files and from UCI. It lets `strtoul`
read an integer constant and checks the value against 32 bits. But `strtoul` takes a sign, and a
minus sign negates the value in the unsigned type: a constant just below `2^64` comes out small.

## Main definitions

* `ReadsU32 neg m`: the value of a constant `m` behind a sign passes the check
* `Denotes front s n`: the text is the integer constant `n`, with only `front` in front of it

## Main results

* `parseU32Str_iff`: what is accepted
* `parseU32Str_denotes_iff`: when what is accepted is an integer constant
-/

namespace Netrec

open CLib

/-! ## What is accepted -/

/-- What `strtoul` makes of the constant `m` behind a sign fits 32 bits: `m` itself does, or it is
close enough to `2^64` for its negation to do. -/
def ReadsU32 : Bool → Nat → Prop
  | false, m => m < 2 ^ 32
  | true, m => m = 0 ∨ 2 ^ 64 - 2 ^ 32 < m ∧ m < 2 ^ 64

theorem readsU32_iff {neg : Bool} {m : Nat} :
    ReadsU32 neg m ↔ m ≤ ulongMax ∧ (if neg then (2 ^ 64 - m) % 2 ^ 64 else m) < 2 ^ 32 := by
  unfold ulongMax
  cases neg with
  | false =>
    simp only [ReadsU32, Bool.false_eq_true, if_false]
    omega
  | true =>
    simp only [ReadsU32, if_true]
    omega

/-- **What `parse_u32_str` accepts.** -/
theorem parseU32Str_iff {s : CStr} {n : UInt32} :
    parseU32Str s = .ok n ↔
      ∃ neg p lit m, s = p ++ lit ∧ Lead neg p ∧ Literal lit m ∧ ReadsU32 neg m ∧
        n.toNat = if neg then (2 ^ 64 - m) % 2 ^ 64 else m := by
  have hsplit : (∃ neg p lit m, s = p ++ lit ∧ Lead neg p ∧ Literal lit m ∧ ReadsU32 neg m ∧
        n.toNat = if neg then (2 ^ 64 - m) % 2 ^ 64 else m) ↔
      ∃ neg m, readNumeral 0 s = some (neg, m, []) ∧ ReadsU32 neg m ∧
        n.toNat = if neg then (2 ^ 64 - m) % 2 ^ 64 else m := by
    simp only [readNumeral_zero_iff]
    constructor
    · rintro ⟨neg, p, lit, m, hs, hp, hlit, hval⟩
      exact ⟨neg, m, ⟨p, lit, hs, hp, hlit⟩, hval⟩
    · rintro ⟨neg, m, ⟨p, lit, hs, hp, hlit⟩, hval⟩
      exact ⟨neg, p, lit, m, hs, hp, hlit, hval⟩
  rw [hsplit, parseU32Str]
  cases hread : readNumeral 0 s with
  | none => by_cases hs : s = [] <;> simp [strtoul, hread, hs]
  | some r =>
    obtain ⟨neg, m, rest⟩ := r
    have hne : s ≠ [] := by
      rintro rfl
      cases hread
    simp only [if_neg hne, strtoul, hread, Option.some.injEq, Prod.mk.injEq, readsU32_iff]
    by_cases hbig : ulongMax < m
    · simp only [if_pos hbig, true_or, if_true]
      refine iff_of_false (by simp) ?_
      rintro ⟨neg', m', ⟨-, rfl, -⟩, hm, -⟩
      omega
    · simp only [if_neg hbig, Bool.false_eq_true, false_or]
      generalize hv : (if neg = true then (2 ^ 64 - m) % 2 ^ 64 else m) = v
      constructor
      · intro h
        split_ifs at h with hcond
        obtain ⟨hrest, hlt⟩ : rest = [] ∧ v < 2 ^ 32 := by simpa [not_or] using hcond
        refine ⟨neg, m, ⟨rfl, rfl, hrest⟩, ⟨by omega, by rwa [hv]⟩, ?_⟩
        rw [hv, ← Except.ok.inj h, UInt32.toNat_ofNat', Nat.mod_eq_of_lt hlt]
      · rintro ⟨neg', m', ⟨rfl, rfl, rfl⟩, ⟨-, hlt⟩, hn⟩
        rw [hv] at hlt hn
        rw [if_neg (by simpa using hlt), ← hn, UInt32.ofNat_toNat]

/-! ## What should be accepted -/

/-- The text is the integer constant `n`, with nothing in front of it but what `front` allows. -/
def Denotes (front : CStr → Prop) (s : CStr) (n : Nat) : Prop :=
  ∃ p lit, s = p ++ lit ∧ front p ∧ Literal lit n

/-- No value is made up: what is accepted is denoted, and what denotes a negative number or one that
does not fit is not accepted. -/
def NeverWraps (front : CStr → Prop) (s : CStr) : Prop :=
  (∀ n, parseU32Str s = .ok n → Denotes front s n.toNat) ∧
    ∀ neg p lit m, s = p ++ lit → Lead neg p → Literal lit m →
      (neg = true ∧ 0 < m ∨ 2 ^ 32 ≤ m) → ∀ n, parseU32Str s ≠ .ok n

/-- A text is read in one way. -/
theorem lead_literal_unique {neg neg' : Bool} {p p' lit lit' : CStr} {m m' : Nat} (hp : Lead neg p)
    (hp' : Lead neg' p') (hlit : Literal lit m) (hlit' : Literal lit' m')
    (he : p ++ lit = p' ++ lit') : neg = neg' ∧ p = p' ∧ m = m' := by
  obtain ⟨c, t, rfl, hc⟩ := hlit.head
  obtain ⟨c', t', rfl, hc'⟩ := hlit'.head
  obtain ⟨hneg, hpp, ht⟩ := hp.unique hp' hc hc' he
  rw [literal_iff] at hlit hlit'
  rw [ht] at hlit
  exact ⟨hneg, hpp, hlit.2.2.symm.trans hlit'.2.2⟩

/-- Nothing is made up when what is accepted has only allowed things in front of it. -/
theorem neverWraps_iff {front : CStr → Prop} (hfront : ∀ p, front p → Lead false p) {s : CStr} :
    NeverWraps front s ↔
      ∀ neg p lit m, s = p ++ lit → Lead neg p → Literal lit m → ReadsU32 neg m → front p := by
  constructor
  · rintro ⟨hdenotes, -⟩ neg p lit m hs hp hlit hreads
    have hlt := (readsU32_iff.mp hreads).2
    have hok : parseU32Str s = .ok (UInt32.ofNat (if neg then (2 ^ 64 - m) % 2 ^ 64 else m)) := by
      refine parseU32Str_iff.mpr ⟨neg, p, lit, m, hs, hp, hlit, hreads, ?_⟩
      rw [UInt32.toNat_ofNat', Nat.mod_eq_of_lt hlt]
    obtain ⟨p', lit', hs', hp', hlit'⟩ := hdenotes _ hok
    obtain ⟨-, rfl, -⟩ := lead_literal_unique hp (hfront p' hp') hlit hlit' (hs.symm.trans hs')
    exact hp'
  · intro h
    refine ⟨fun n hn => ?_, fun neg p lit m hs hp hlit hbad n hn => ?_⟩
    · obtain ⟨neg, p, lit, m, hs, hp, hlit, hreads, hval⟩ := parseU32Str_iff.mp hn
      have hp' := h neg p lit m hs hp hlit hreads
      obtain ⟨rfl, -, -⟩ := lead_literal_unique hp (hfront p hp') hlit hlit rfl
      exact ⟨p, lit, hs, hp', by rw [hval]; exact hlit⟩
    · obtain ⟨neg', p', lit', m', hs', hp', hlit', hreads, -⟩ := parseU32Str_iff.mp hn
      obtain ⟨rfl, rfl, rfl⟩ := lead_literal_unique hp' hp hlit' hlit (hs'.symm.trans hs)
      have hfp := h neg' p' lit m' hs hp hlit hreads
      obtain ⟨rfl, -, -⟩ := lead_literal_unique hp (hfront p' hfp) hlit hlit rfl
      simp only [ReadsU32, Bool.false_eq_true, false_and, false_or] at hreads hbad
      omega

/-- **When an integer field never wraps.** Taken as a bare integer constant, a text is never misread
unless white space or a sign stands in front of a constant that passes the check. If white space and
a plus sign are taken as part of a constant, what is left is a minus sign in front of 0, or of a
constant that is negated to a small value. -/
theorem parseU32Str_denotes_iff (s : CStr) :
    (NeverWraps (· = []) s ↔
      ∀ neg p lit m, s = p ++ lit → Lead neg p → Literal lit m → p ≠ [] → ¬ ReadsU32 neg m) ∧
    (NeverWraps (Lead false) s ↔
      ∀ p lit m, s = p ++ lit → Lead true p → Literal lit m → ¬ ReadsU32 true m) := by
  refine ⟨?_, ?_⟩
  · rw [neverWraps_iff (by rintro p rfl; exact lead_nil)]
    refine forall₄_congr fun neg p lit m => ?_
    refine forall_congr' fun _ => forall_congr' fun _ => forall_congr' fun _ => ?_
    exact ⟨fun h hne hr => hne (h hr), fun h hr => by_contra fun hne => h hne hr⟩
  · rw [neverWraps_iff fun _ hp => hp]
    constructor
    · intro h p lit m hs hp hlit hr
      have hp' := h true p lit m hs hp hlit hr
      cases (lead_literal_unique hp hp' hlit hlit rfl).1
    · intro h neg p lit m hs hp hlit hr
      cases neg with
      | false => exact hp
      | true => exact absurd hr (h p lit m hs hp hlit)

/-- `-18446744073709551615` is accepted as 1, and is no integer constant in either way. -/
theorem parseU32Str_wraps :
    parseU32Str "-18446744073709551615".toList = .ok 1 ∧
      ¬ NeverWraps (· = []) "-18446744073709551615".toList ∧
      ¬ NeverWraps (Lead false) "-18446744073709551615".toList := by
  have hlit : Literal "18446744073709551615".toList 18446744073709551615 := by
    have hval : digitsVal 10 "18446744073709551615".toList = 18446744073709551615 := by decide
    rw [← hval]
    exact .decimal (by decide) (List.all_eq_true.mp (by decide :
      "18446744073709551615".toList.all isDigit))
  have hlead : Lead true ['-'] := @Lead.minus [] (by simp)
  have hreads : ReadsU32 true 18446744073709551615 := .inr (by decide)
  have hok : parseU32Str "-18446744073709551615".toList = .ok 1 :=
    parseU32Str_iff.mpr ⟨true, ['-'], _, _, rfl, hlead, hlit, hreads, by decide⟩
  refine ⟨hok, fun h => ?_, fun h => ?_⟩
  · exact h.2 true ['-'] _ _ rfl hlead hlit (.inl (by decide)) 1 hok
  · exact h.2 true ['-'] _ _ rfl hlead hlit (.inl (by decide)) 1 hok

end Netrec
