import Netrec.CLib.Numeric

/-!
# Texts of numbers and addresses

`strtol` and `strtoul` skip white space and take a sign before they read digits, and with base 0 the
digits are an integer constant of C. A caller that requires the whole text to be read accepts
exactly the texts of this form. An address has a text that `inet_pton` reads back.

## Main definitions

* `Lead neg p`: white space and an optional sign
* `Literal lit m`: a decimal, octal or hexadecimal integer constant
* `dotted a`: the text of an address

## Main results

* `readNumeral_ten_iff`, `readNumeral_zero_iff`: the texts that are read to their end
* `Lead.unique`: a text has one such reading
* `inetPton_dotted`: the text of an address is read back
-/

namespace CLib

/-! ## White space and signs -/

/-- White space and an optional sign, which says whether the number is negated. -/
inductive Lead : Bool → CStr → Prop
  | blank {ws : CStr} (h : ∀ c ∈ ws, isSpace c) : Lead false ws
  | plus {ws : CStr} (h : ∀ c ∈ ws, isSpace c) : Lead false (ws ++ ['+'])
  | minus {ws : CStr} (h : ∀ c ∈ ws, isSpace c) : Lead true (ws ++ ['-'])

theorem lead_nil : Lead false [] := .blank (by simp)

/-- Every text starts with what is skipped. -/
theorem exists_lead (s : CStr) :
    ∃ neg p t, s = p ++ t ∧ Lead neg p ∧ readSign (s.dropWhile isSpace) = (neg, t) := by
  have hs : s = s.takeWhile isSpace ++ s.dropWhile isSpace := List.takeWhile_append_dropWhile.symm
  have hws : ∀ c ∈ s.takeWhile isSpace, isSpace c := fun c hc => List.mem_takeWhile_imp hc
  cases hd : s.dropWhile isSpace with
  | nil => exact ⟨false, _, [], by rw [← hd, ← hs], .blank hws, rfl⟩
  | cons c t =>
    rw [hd] at hs
    by_cases hminus : c = '-'
    · subst hminus
      exact ⟨true, _, t, hs.trans (List.append_cons _ _ _), .minus hws, by simp [readSign]⟩
    · by_cases hplus : c = '+'
      · subst hplus
        exact ⟨false, _, t, hs.trans (List.append_cons _ _ _), .plus hws, by simp [readSign]⟩
      · exact ⟨false, _, c :: t, hs, .blank hws, by simp [readSign, hminus, hplus]⟩

/-- Digits behind it are not skipped. -/
theorem Lead.readSign_append {neg : Bool} {p : CStr} (h : Lead neg p) {c : Char} (hc : isDigit c)
    (t : CStr) : readSign ((p ++ c :: t).dropWhile isSpace) = (neg, c :: t) := by
  cases h with
  | blank hws =>
    rw [List.dropWhile_append_of_pos hws,
      List.dropWhile_cons_of_neg (by simp [not_isSpace_of_isDigit hc]), readSign_of_isDigit t hc]
  | plus hws => simp [List.dropWhile_append_of_pos hws, readSign, (by decide : isSpace '+' = false)]
  | minus hws =>
    simp [List.dropWhile_append_of_pos hws, readSign, (by decide : isSpace '-' = false)]

/-- **A text has one reading**: where the digits start is determined. -/
theorem Lead.unique {neg neg' : Bool} {p p' t t' : CStr} {c c' : Char} (h : Lead neg p)
    (h' : Lead neg' p') (hc : isDigit c) (hc' : isDigit c') (he : p ++ c :: t = p' ++ c' :: t') :
    neg = neg' ∧ p = p' ∧ c :: t = c' :: t' := by
  have hread := h.readSign_append hc t
  rw [he, h'.readSign_append hc' t'] at hread
  obtain ⟨rfl, ht⟩ := Prod.mk.inj hread
  rw [ht] at he
  exact ⟨rfl, List.append_cancel_right he, ht.symm⟩

/-- It does not start with a digit. -/
theorem Lead.head_not_digit {neg : Bool} {p : CStr} (h : Lead neg p) :
    ∀ c ∈ p.head?, isDigit c = false := by
  have hspace : ∀ c, isSpace c → isDigit c = false := by
    intro c hs
    by_contra hd
    rw [not_isSpace_of_isDigit (by simpa using hd)] at hs
    cases hs
  cases h with
  | blank hws =>
    intro c hc
    exact hspace c (hws c (List.mem_of_mem_head? hc))
  | @plus ws hws =>
    cases ws with
    | nil => simp; decide
    | cons d ws => simpa using hspace d (hws d List.mem_cons_self)
  | @minus ws hws =>
    cases ws with
    | nil => simp; decide
    | cons d ws => simpa using hspace d (hws d List.mem_cons_self)

/-! ## Digits -/

/-- The text consists of digits of base `b`, with value `m`. -/
def DigitsOf (b : Nat) (t : CStr) (m : Nat) : Prop :=
  t ≠ [] ∧ (∀ c ∈ t, digitVal c < b) ∧ digitsVal b t = m

/-- A run goes to the end exactly when there is nothing else. -/
theorem drop_takeWhile_eq_nil {p : Char → Bool} {t : CStr} :
    t.drop (t.takeWhile p).length = [] ↔ ∀ c ∈ t, p c := by
  have hdrop := @List.drop_left _ (t.takeWhile p) (t.dropWhile p)
  rw [List.takeWhile_append_dropWhile] at hdrop
  rw [hdrop, List.dropWhile_eq_nil_iff]

/-- The digits of base `b` at the start of a text are the whole text. -/
theorem digitsOf_iff {b : Nat} {t : CStr} {m : Nat} :
    t.takeWhile (fun c => digitVal c < b) ≠ [] ∧
        digitsVal b (t.takeWhile fun c => digitVal c < b) = m ∧
        t.drop (t.takeWhile fun c => digitVal c < b).length = [] ↔
      DigitsOf b t m := by
  simp only [drop_takeWhile_eq_nil, decide_eq_true_eq, DigitsOf]
  by_cases hall : ∀ c ∈ t, digitVal c < b
  · rw [List.takeWhile_eq_self_iff.mpr (by simpa using hall)]
    tauto
  · tauto

/-- What is behind the sign is read to the end. -/
theorem readNumeral_eq_some_iff {base : Nat} {s t : CStr} {neg neg' : Bool} {m : Nat}
    (ht : readSign (s.dropWhile isSpace) = (neg', t)) :
    readNumeral base s = some (neg, m, []) ↔
      neg' = neg ∧ DigitsOf (if base = 0 then readBase t else (base, t)).1
        (if base = 0 then readBase t else (base, t)).2 m := by
  rw [← digitsOf_iff]
  simp only [readNumeral, ht, Option.ite_none_left_eq_some, Option.some.injEq, Prod.mk.injEq]
  tauto

/-- **A decimal number that is read to the end.** -/
theorem readNumeral_ten_iff {s : CStr} {neg : Bool} {m : Nat} :
    readNumeral 10 s = some (neg, m, []) ↔
      ∃ p ds, s = p ++ ds ∧ Lead neg p ∧ DigitsOf 10 ds m := by
  constructor
  · intro h
    obtain ⟨neg', p, t, hs, hp, ht⟩ := exists_lead s
    obtain ⟨rfl, hds⟩ := (readNumeral_eq_some_iff ht).mp h
    exact ⟨p, t, hs, hp, hds⟩
  · rintro ⟨p, ds, rfl, hp, hds⟩
    obtain ⟨c, ds, rfl⟩ := List.exists_cons_of_ne_nil hds.1
    have hc : isDigit c := digitVal_lt_ten_iff.mp (hds.2.1 c List.mem_cons_self)
    exact (readNumeral_eq_some_iff (hp.readSign_append hc ds)).mpr ⟨rfl, hds⟩

/-! ## Integer constants -/

/-- A decimal, octal or hexadecimal integer constant and its value. -/
inductive Literal : CStr → Nat → Prop
  | decimal {c : Char} {ds : CStr} (hc : c ≠ '0') (h : ∀ d ∈ c :: ds, isDigit d) :
    Literal (c :: ds) (digitsVal 10 (c :: ds))
  | octal {ds : CStr} (h : ∀ d ∈ '0' :: ds, digitVal d < 8) :
    Literal ('0' :: ds) (digitsVal 8 ('0' :: ds))
  | hex {x : Char} {ds : CStr} (hx : x = 'x' ∨ x = 'X') (hne : ds ≠ [])
    (h : ∀ d ∈ ds, digitVal d < 16) : Literal ('0' :: x :: ds) (digitsVal 16 ds)

/-- An integer constant starts with a digit. -/
theorem Literal.head {lit : CStr} {m : Nat} (h : Literal lit m) :
    ∃ c t, lit = c :: t ∧ isDigit c := by
  cases h with
  | decimal _ h => exact ⟨_, _, rfl, h _ List.mem_cons_self⟩
  | octal _ => exact ⟨_, _, rfl, by decide⟩
  | hex _ _ _ => exact ⟨_, _, rfl, by decide⟩

/-- The base of an integer constant and its digits. -/
theorem literal_iff {t : CStr} {m : Nat} :
    Literal t m ↔ DigitsOf (readBase t).1 (readBase t).2 m := by
  by_cases hhex : ∃ x d s, t = '0' :: x :: d :: s ∧ (x = 'x' ∨ x = 'X') ∧ digitVal d < 16
  · obtain ⟨x, d, s, rfl, hx, hd⟩ := hhex
    have hbase : readBase ('0' :: x :: d :: s) = (16, d :: s) := by simp [readBase, hx, hd]
    rw [hbase]
    constructor
    · intro h
      cases h with
      | decimal hc _ => exact absurd rfl hc
      | octal h =>
        have hval := h x (by simp)
        obtain rfl | rfl := hx <;> exact absurd hval (by decide)
      | hex _ hne h => exact ⟨hne, h, rfl⟩
    · rintro ⟨hne, hall, rfl⟩
      exact .hex hx hne hall
  · cases t with
    | nil => exact iff_of_false (by intro h; cases h) fun h => h.1 rfl
    | cons c s =>
      by_cases hc : c = '0'
      · subst hc
        have hbase : readBase ('0' :: s) = (8, '0' :: s) := by
          rcases s with _ | ⟨x, _ | ⟨d, s⟩⟩
          · rfl
          · rfl
          · rw [readBase, if_pos rfl, if_neg fun h => hhex ⟨x, d, s, rfl, h⟩]
        rw [hbase]
        constructor
        · intro h
          cases h with
          | decimal hc _ => exact absurd rfl hc
          | octal h => exact ⟨by simp, h, rfl⟩
          | @hex x ds hx hne h =>
            obtain ⟨d, ds, rfl⟩ := List.exists_cons_of_ne_nil hne
            exact absurd ⟨x, d, ds, rfl, hx, h d List.mem_cons_self⟩ hhex
        · rintro ⟨-, hall, rfl⟩
          exact .octal hall
      · rw [readBase_of_ne_zero s hc]
        constructor
        · intro h
          cases h with
          | decimal _ h => exact ⟨by simp, fun d hd => digitVal_lt_ten (h d hd), rfl⟩
          | octal _ => exact absurd rfl hc
          | hex _ _ _ => exact absurd rfl hc
        · rintro ⟨-, hall, rfl⟩
          exact .decimal hc fun d hd => digitVal_lt_ten_iff.mp (hall d hd)

/-- **An integer constant that is read to the end.** -/
theorem readNumeral_zero_iff {s : CStr} {neg : Bool} {m : Nat} :
    readNumeral 0 s = some (neg, m, []) ↔
      ∃ p lit, s = p ++ lit ∧ Lead neg p ∧ Literal lit m := by
  constructor
  · intro h
    obtain ⟨neg', p, t, hs, hp, ht⟩ := exists_lead s
    obtain ⟨rfl, hds⟩ := (readNumeral_eq_some_iff ht).mp h
    exact ⟨p, t, hs, hp, literal_iff.mpr hds⟩
  · rintro ⟨p, lit, rfl, hp, hlit⟩
    obtain ⟨c, t, rfl, hc⟩ := hlit.head
    exact (readNumeral_eq_some_iff (hp.readSign_append hc t)).mpr ⟨rfl, literal_iff.mp hlit⟩

/-! ## Addresses -/

/-- The text of an address. -/
def dotted (a : UInt32) : CStr :=
  dec (a.toNat / 2 ^ 24) ++ '.' :: (dec (a.toNat / 2 ^ 16 % 256) ++
    '.' :: (dec (a.toNat / 2 ^ 8 % 256) ++ '.' :: dec (a.toNat % 256)))

/-- A printed octet is read back. -/
theorem readOctet_dec {n : Nat} (hn : n < 256) {rest : CStr}
    (hr : ∀ c ∈ rest.head?, isDigit c = false) : readOctet (dec n ++ rest) = some (n, rest) := by
  have htake : (dec n ++ rest).takeWhile isDigit = dec n := by
    rw [List.takeWhile_append_of_pos fun c hc => isDigit_of_mem_dec hc]
    cases rest with
    | nil => simp
    | cons c rest => simp [hr c rfl]
  have hzero : ¬ (1 < (dec n).length ∧ (dec n).head? = some '0') := by
    obtain ⟨-, h⟩ | ⟨c, s, h, -, hc⟩ := dec_head n
    · simp [h]
    · simp [h, hc]
  have hcond : ¬ (dec n = [] ∨ (1 < (dec n).length ∧ (dec n).head? = some '0') ∨ 255 < n) := by
    rw [not_or, not_or]
    exact ⟨dec_ne_nil n, hzero, by omega⟩
  unfold readOctet
  simp only [htake, digitsVal_dec, if_neg hcond, List.drop_left]

theorem readOctets_dec_dot {n k : Nat} (hn : n < 256) (rest : CStr) :
    readOctets (k + 1) (dec n ++ '.' :: rest) = (readOctets k rest).map (n :: ·) := by
  rw [readOctets, readOctet_dec hn (by simp; decide)]
  rfl

theorem readOctets_dec {n : Nat} (hn : n < 256) : readOctets 0 (dec n) = some [n] := by
  have hread := @readOctet_dec _ hn [] (by simp)
  rw [List.append_nil] at hread
  rw [readOctets, hread]
  rfl

/-- **The text of an address is read back.** -/
theorem inetPton_dotted (a : UInt32) : inetPton (dotted a) = some a := by
  have ha := a.toNat_lt
  rw [inetPton, dotted, readOctets_dec_dot (by omega), readOctets_dec_dot (by omega),
    readOctets_dec_dot (by omega), readOctets_dec (by omega)]
  refine congrArg some (UInt32.toNat_inj.mp ?_)
  simp only [List.foldl_cons, List.foldl_nil, UInt32.toNat_ofNat']
  omega

end CLib
