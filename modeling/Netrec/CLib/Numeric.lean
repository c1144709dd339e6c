import Netrec.CLib.CString

/-!
# Reading numbers and IPv4 addresses

`strtol` and `strtoul` with a 64-bit `long`, and `inet_pton` for `AF_INET`, as the C standard and
POSIX describe them: leading white space, an optional sign, a base prefix and the longest run of
digits for the first two; four decimal octets without leading zeros for the third.

## Main definitions

* `strtoul base s`, `strtol base s`: the value, the unread rest and whether `errno` is `ERANGE`
* `inetPton s`: the address in host byte order

## Main results

* `strtoul_dec`: `strtoul` with base 0 reads back a printed decimal numeral
-/

namespace CLib

/-! ## `strtol` and `strtoul` -/

/-- The value of a digit in the bases up to 36; `36` for any other byte. -/
def digitVal (c : Char) : Nat :=
  if isDigit c then c.toNat - '0'.toNat
  else if 'a' ≤ c ∧ c ≤ 'z' then c.toNat - 'a'.toNat + 10
  else if 'A' ≤ c ∧ c ≤ 'Z' then c.toNat - 'A'.toNat + 10
  else 36

/-- The value of a run of digits. -/
def digitsVal (base : Nat) (ds : CStr) : Nat := ds.foldl (fun n c => base * n + digitVal c) 0

/-- An optional sign. -/
def readSign : CStr → Bool × CStr
  | [] => (false, [])
  | c :: s => if c = '-' then (true, s) else if c = '+' then (false, s) else (false, c :: s)

/-- The base of a numeral read with base 0, and the numeral without its `0x` prefix. -/
def readBase : CStr → Nat × CStr
  | c :: x :: d :: s =>
    if c = '0' then
      if (x = 'x' ∨ x = 'X') ∧ digitVal d < 16 then (16, d :: s) else (8, c :: x :: d :: s)
    else (10, c :: x :: d :: s)
  | c :: s => if c = '0' then (8, c :: s) else (10, c :: s)
  | [] => (10, [])

/-- Sign, magnitude and rest of the numeral at the start of `s`; `none` without a digit. -/
def readNumeral (base : Nat) (s : CStr) : Option (Bool × Nat × CStr) :=
  let (neg, t) := readSign (s.dropWhile isSpace)
  let (b, t) := if base = 0 then readBase t else (base, t)
  let ds := t.takeWhile fun c => digitVal c < b
  if ds = [] then none else some (neg, digitsVal b ds, t.drop ds.length)

/-- `ULONG_MAX`. -/
def ulongMax : Nat := 2 ^ 64 - 1

/-- `strtoul(s, &end, base)`: the value, `end`, and whether `errno` is set to `ERANGE`. A negative
numeral is negated in the unsigned type. -/
def strtoul (base : Nat) (s : CStr) : Nat × CStr × Bool :=
  match readNumeral base s with
  | none => (0, s, false)
  | some (neg, m, rest) =>
    if ulongMax < m then (ulongMax, rest, true)
    else (if neg then (2 ^ 64 - m) % 2 ^ 64 else m, rest, false)

/-- `strtol(s, &end, base)`: the value, `end`, and whether `errno` is set to `ERANGE`. -/
def strtol (base : Nat) (s : CStr) : Int × CStr × Bool :=
  match readNumeral base s with
  | none => (0, s, false)
  | some (neg, m, rest) =>
    if neg then if 2 ^ 63 < m then (-2 ^ 63, rest, true) else (-(m : Int), rest, false)
    else if 2 ^ 63 - 1 < m then (2 ^ 63 - 1, rest, true) else ((m : Int), rest, false)

theorem digitVal_lt_ten {c : Char} (h : isDigit c) : digitVal c < 10 := by
  have h9 : c ≤ '9' := by simp [isDigit] at h; exact h.2
  have : c.toNat ≤ '9'.toNat := h9
  simp only [digitVal, h, if_true]
  have : '9'.toNat = '0'.toNat + 9 := by decide
  omega

theorem digitsVal_dec (n : Nat) : digitsVal 10 (dec n) = n := by
  have h : ∀ (ds : CStr) (m : Nat), (∀ c ∈ ds, isDigit c) →
      ds.foldl (fun n c => 10 * n + digitVal c) m = Nat.ofDigitChars 10 ds m := by
    intro ds
    induction ds with
    | nil => simp
    | cons c ds ih =>
      intro m hds
      rw [List.foldl_cons, ih _ fun d hd => hds d (List.mem_cons_of_mem c hd),
        Nat.ofDigitChars_cons, digitVal, if_pos (hds c List.mem_cons_self)]
  exact (h _ 0 fun c hc => isDigit_of_mem_dec hc).trans Nat.ofDigitChars_ten_toDigits

/-- A printed numeral starts with `0` only when it is `0`. -/
theorem dec_head (n : Nat) : n = 0 ∧ dec n = ['0'] ∨
    ∃ c s, dec n = c :: s ∧ isDigit c ∧ c ≠ '0' := by
  induction n using Nat.strong_induction_on with
  | _ n ih =>
    rcases Nat.lt_or_ge n 10 with h | h
    · rcases Nat.eq_zero_or_pos n with rfl | hp
      · exact Or.inl ⟨rfl, rfl⟩
      · refine Or.inr ⟨n.digitChar, [], Nat.toDigits_of_lt_base h, ?_⟩
        interval_cases n <;> decide
    · have hd : dec n = dec (n / 10) ++ [(n % 10).digitChar] :=
        Nat.toDigits_of_base_le (by omega) h
      rcases ih (n / 10) (by omega) with ⟨h0, -⟩ | ⟨c, s, hs, hc⟩
      · omega
      · exact Or.inr ⟨c, s ++ [(n % 10).digitChar], by rw [hd, hs]; rfl, hc⟩

theorem not_isSpace_of_isDigit {c : Char} (h : isDigit c) : isSpace c = false := by
  by_contra hs
  simp only [Bool.not_eq_false, isSpace, Bool.or_eq_true, decide_eq_true_eq] at hs
  rcases hs with ((((rfl | rfl) | rfl) | rfl) | rfl) | rfl <;> revert h <;> decide

theorem readSign_of_isDigit {c : Char} (s : CStr) (h : isDigit c) :
    readSign (c :: s) = (false, c :: s) := by
  have h₁ : c ≠ '-' := by rintro rfl; revert h; decide
  have h₂ : c ≠ '+' := by rintro rfl; revert h; decide
  simp [readSign, h₁, h₂]

theorem readBase_of_ne_zero {c : Char} (s : CStr) (h : c ≠ '0') :
    readBase (c :: s) = (10, c :: s) := by
  rcases s with _ | ⟨x, _ | ⟨d, s⟩⟩ <;> simp [readBase, h]

theorem readNumeral_dec (n : Nat) : readNumeral 0 (dec n) = some (false, n, []) := by
  rcases dec_head n with ⟨rfl, h⟩ | ⟨c, s, h, hc, h0⟩
  · rw [h]
    decide
  · have hall : ∀ d ∈ c :: s, isDigit d := fun d hd => isDigit_of_mem_dec (n := n) (h ▸ hd)
    have ht : (c :: s).takeWhile (fun d => decide (digitVal d < 10)) = c :: s :=
      List.takeWhile_eq_self_iff.mpr fun d hd => by simpa using digitVal_lt_ten (hall d hd)
    have hv : digitsVal 10 (c :: s) = n := h ▸ digitsVal_dec n
    simp only [readNumeral, h, List.dropWhile_cons_of_neg
      (by simp [not_isSpace_of_isDigit hc] : ¬ isSpace c = true), readSign_of_isDigit s hc,
      if_true, readBase_of_ne_zero s h0, ht, hv]
    simp

/-- **Printed numerals are read back**, with nothing left and no range error. -/
theorem strtoul_dec {n : Nat} (hn : n < 2 ^ 64) : strtoul 0 (dec n) = (n, [], false) := by
  have h : ¬ ulongMax < n := by
    unfold ulongMax
    omega
  simp [strtoul, readNumeral_dec, h]

theorem digitVal_lt_ten_iff {c : Char} : digitVal c < 10 ↔ isDigit c := by
  refine ⟨fun h => ?_, digitVal_lt_ten⟩
  unfold digitVal at h
  split_ifs at h with hd
  · exact hd
  · omega
  · omega
  · omega

/-- A sign as text. -/
def signText (neg : Bool) : CStr := if neg then ['-'] else []

/-- A numeral of base 10 ends where its digits end. -/
theorem readNumeral_digits (neg : Bool) {ds rest : CStr} (hne : ds ≠ []) (hd : ∀ c ∈ ds, isDigit c)
    (hr : ∀ c ∈ rest.head?, isDigit c = false) :
    readNumeral 10 (signText neg ++ ds ++ rest) = some (neg, digitsVal 10 ds, rest) := by
  have hdigit : (fun c => decide (digitVal c < 10)) = isDigit := by
    funext c
    simp [digitVal_lt_ten_iff]
  obtain ⟨c, ds, rfl⟩ := List.exists_cons_of_ne_nil hne
  have hc : isDigit c := hd c List.mem_cons_self
  have hsign : readSign ((signText neg ++ (c :: ds) ++ rest).dropWhile isSpace) =
      (neg, c :: ds ++ rest) := by
    cases neg with
    | true =>
      have hminus : isSpace '-' = false := by decide
      simp [signText, hminus, readSign]
    | false =>
      simp only [signText, Bool.false_eq_true, if_false, List.nil_append, List.cons_append]
      rw [List.dropWhile_cons_of_neg (by simp [not_isSpace_of_isDigit hc]),
        readSign_of_isDigit _ hc]
  have htake : (c :: ds ++ rest).takeWhile isDigit = c :: ds := by
    rw [List.takeWhile_append_of_pos hd]
    cases rest with
    | nil => simp
    | cons r rest => simp [hr r (by simp)]
  simp only [readNumeral, hsign, OfNat.ofNat_ne_zero, if_false, hdigit, htake]
  simp

/-! ## `inet_pton` -/

/-- One decimal octet: one to three digits, no leading zero, at most 255. -/
def readOctet (s : CStr) : Option (Nat × CStr) :=
  let ds := s.takeWhile isDigit
  let v := digitsVal 10 ds
  if ds = [] ∨ (1 < ds.length ∧ ds.head? = some '0') ∨ 255 < v then none
  else some (v, s.drop ds.length)

/-- The octets of a dotted quad, the next one followed by `n` more. -/
def readOctets : Nat → CStr → Option (List Nat)
  | 0, s => do
    let (v, rest) ← readOctet s
    if rest = [] then some [v] else none
  | n + 1, s => do
    let (v, rest) ← readOctet s
    match rest with
    | c :: rest => if c = '.' then (readOctets n rest).map (v :: ·) else none
    | [] => none

/-- `inet_pton(AF_INET, s, &addr)`: the address, in host byte order; `none` when it does not
return 1. -/
def inetPton (s : CStr) : Option UInt32 :=
  (readOctets 3 s).map fun os => UInt32.ofNat (os.foldl (fun n o => 256 * n + o) 0)

theorem readOctet_chars {s rest : CStr} {v : Nat} (h : readOctet s = some (v, rest)) {c : Char}
    (hc : c ∈ s) : isDigit c ∨ c ∈ rest := by
  unfold readOctet at h
  simp only [Option.ite_none_left_eq_some, Option.some.injEq, Prod.mk.injEq] at h
  obtain ⟨-, -, rfl⟩ := h
  rw [← List.take_append_drop (s.takeWhile isDigit).length s] at hc
  refine (List.mem_append.mp hc).imp_left fun hc => ?_
  rw [← List.prefix_iff_eq_take.mp (List.takeWhile_prefix isDigit)] at hc
  exact List.mem_takeWhile_imp hc

theorem readOctets_chars {n : Nat} {s : CStr} {os : List Nat} (h : readOctets n s = some os)
    {c : Char} (hc : c ∈ s) : isDigit c ∨ c = '.' := by
  induction n generalizing s os with
  | zero =>
    simp only [readOctets, Option.bind_eq_bind, Option.bind_eq_some_iff] at h
    obtain ⟨⟨v, rest⟩, hv, hr⟩ := h
    simp only [Option.ite_none_right_eq_some] at hr
    refine (readOctet_chars hv hc).imp_right fun hc => ?_
    simp [hr.1] at hc
  | succ n ih =>
    simp only [readOctets, Option.bind_eq_bind, Option.bind_eq_some_iff] at h
    obtain ⟨⟨v, rest⟩, hv, hr⟩ := h
    cases rest with
    | nil => simp at hr
    | cons d rest =>
      simp only [Option.ite_none_right_eq_some, Option.map_eq_some_iff] at hr
      obtain ⟨rfl, os, hos, -⟩ := hr
      rcases readOctet_chars hv hc with hc | hc
      · exact .inl hc
      · exact (List.mem_cons.mp hc).elim .inr (ih hos)

/-- An address consists of digits and dots. -/
theorem inetPton_chars {s : CStr} {a : UInt32} (h : inetPton s = some a) {c : Char} (hc : c ∈ s) :
    isDigit c ∨ c = '.' := by
  obtain ⟨os, hos, -⟩ := Option.map_eq_some_iff.mp h
  exact readOctets_chars hos hc

theorem le_foldl_digits (ds : CStr) (n : Nat) :
    n ≤ ds.foldl (fun n c => 10 * n + digitVal c) n := by
  induction ds generalizing n with
  | nil => exact le_rfl
  | cons c ds ih =>
    have hstep : n ≤ 10 * n + digitVal c := by omega
    exact hstep.trans (ih _)

/-- An octet has at most three digits. -/
theorem readOctet_length {s rest : CStr} {v : Nat} (h : readOctet s = some (v, rest)) :
    s.length ≤ rest.length + 3 := by
  simp only [readOctet, Option.ite_none_left_eq_some, Option.some.injEq, Prod.mk.injEq, not_or,
    not_and] at h
  obtain ⟨⟨hne, hzero, hval⟩, -, rfl⟩ := h
  have hle : (s.takeWhile isDigit).length ≤ s.length := (List.takeWhile_prefix _).length_le
  rw [List.length_drop]
  suffices (s.takeWhile isDigit).length ≤ 3 by omega
  -- four digits without a leading zero are a number of at least 1000
  by_contra hlen
  match hds : s.takeWhile isDigit, hne with
  | c :: [], _ => simp [hds] at hlen
  | c :: d :: [], _ => simp [hds] at hlen
  | c :: d :: e :: [], _ => simp [hds] at hlen
  | c :: d :: e :: f :: ds, _ =>
    rw [hds] at hzero hval
    have hdigit : isDigit c := List.mem_takeWhile_imp (hds ▸ List.mem_cons_self)
    have hc : c ≠ '0' := fun hc => hzero (by simp) (by simp [hc])
    have hpos : 1 ≤ digitVal c := by
      rw [digitVal, if_pos hdigit]
      have h0 : '0' ≤ c := by
        simp only [isDigit, Bool.and_eq_true, decide_eq_true_eq] at hdigit
        exact hdigit.1
      have hlt : '0'.toNat < c.toNat := by
        refine lt_of_le_of_ne h0 fun he => hc ?_
        exact (Char.toNat_inj.mp he).symm
      omega
    have hfold := le_foldl_digits ds
      (10 * (10 * (10 * (10 * 0 + digitVal c) + digitVal d) + digitVal e) + digitVal f)
    have hsum : digitsVal 10 (c :: d :: e :: f :: ds) = ds.foldl (fun n c => 10 * n + digitVal c)
      (10 * (10 * (10 * (10 * 0 + digitVal c) + digitVal d) + digitVal e) + digitVal f) := rfl
    omega

theorem readOctets_length {n : Nat} {s : CStr} {os : List Nat} (h : readOctets n s = some os) :
    s.length ≤ 4 * n + 3 := by
  induction n generalizing s os with
  | zero =>
    simp only [readOctets, Option.bind_eq_bind, Option.bind_eq_some_iff] at h
    obtain ⟨⟨v, rest⟩, hv, hr⟩ := h
    simp only [Option.ite_none_right_eq_some] at hr
    have := readOctet_length hv
    simpa [hr.1] using this
  | succ n ih =>
    simp only [readOctets, Option.bind_eq_bind, Option.bind_eq_some_iff] at h
    obtain ⟨⟨v, rest⟩, hv, hr⟩ := h
    have hlen := readOctet_length hv
    cases rest with
    | nil => simp at hr
    | cons c rest =>
      simp only [Option.ite_none_right_eq_some, Option.map_eq_some_iff] at hr
      obtain ⟨-, os', hos, -⟩ := hr
      have := ih hos
      rw [List.length_cons] at hlen
      omega

/-- An address that is read has at most 15 bytes. -/
theorem inetPton_length {s : CStr} {a : UInt32} (h : inetPton s = some a) : s.length ≤ 15 := by
  obtain ⟨os, hos, -⟩ := Option.map_eq_some_iff.mp h
  exact readOctets_length hos

example : inetPton "10.10.10.254".toList = some 0x0a0a0afe := by decide

end CLib
