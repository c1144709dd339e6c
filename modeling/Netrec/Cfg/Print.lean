import Netrec.Cfg.Grammar

/-!
# Printing and reading paths

A path has one reading. Its tokens determine its text, except that the index zero may be written
with a minus sign; and the tokens of a printed path are the ones that were printed. A numeral
without leading zeros is determined by its value, which is what makes the text of an index unique.

## Main definitions

* `IsPathText m s`: a key and fewer than `m` further steps, or nothing
* `Tok.InRange`: a token that has a text
* `dropNegZero`: the text with `[0]` for `[-0]`

## Main results

* `IsNumeral.dec_digitsVal`: a numeral is what its value is printed as
* `parsePath_grammar`: the paths that are accepted, and their readings
-/

namespace Netrec

open CLib

/-! ## Numerals -/

theorem digitsVal_concat (ds : CStr) (c : Char) :
    digitsVal 10 (ds ++ [c]) = 10 * digitsVal 10 ds + digitVal c := by
  simp [digitsVal]

theorem digitChar_digitVal {c : Char} (h : isDigit c) : (digitVal c).digitChar = c := by
  have hlt := digitVal_lt_ten h
  have hc : c = Char.ofNat ('0'.toNat + digitVal c) := by
    simp only [isDigit, Bool.and_eq_true, decide_eq_true_eq] at h
    have h0 : '0'.toNat ≤ c.toNat := h.1
    rw [digitVal, if_pos (by simpa [isDigit] using h), Nat.add_sub_cancel' h0, Char.ofNat_toNat]
  rw [hc]
  generalize digitVal c = n at hlt
  interval_cases n <;> decide

/-- **A numeral without leading zeros is what its value is printed as.** -/
theorem IsNumeral.dec_digitsVal {ds : CStr} (h : IsNumeral ds) : dec (digitsVal 10 ds) = ds := by
  induction ds using List.reverseRecOn with
  | nil => exact absurd rfl h.ne_nil
  | append_singleton ds c ih =>
    have hc : isDigit c := h.digits c (by simp)
    have hlt := digitVal_lt_ten hc
    rw [digitsVal_concat]
    cases ds with
    | nil =>
      have hzero : 10 * digitsVal 10 [] + digitVal c = digitVal c := by simp [digitsVal]
      rw [hzero, dec, Nat.toDigits_of_lt_base hlt, digitChar_digitVal hc, List.nil_append]
    | cons d ds =>
      have hd : d ≠ '0' := by
        rintro rfl
        simpa using h.zero rfl
      have hnum : IsNumeral (d :: ds) :=
        ⟨by simp, fun e he => h.digits e (List.mem_append_left _ he),
          fun he => absurd he (by simpa)⟩
      have hdec := ih hnum
      -- the digits in front of the last one are not all zero
      have hpos : 0 < digitsVal 10 (d :: ds) := by
        rw [Nat.pos_iff_ne_zero]
        intro hzero
        rw [hzero] at hdec
        cases hdec
        exact hd rfl
      have hsplit := Nat.toDigits_of_base_le (b := 10) (by omega)
        (by omega : 10 ≤ 10 * digitsVal 10 (d :: ds) + digitVal c)
      rw [dec, hsplit, (by omega : (10 * digitsVal 10 (d :: ds) + digitVal c) / 10 =
        digitsVal 10 (d :: ds)), (by omega : (10 * digitsVal 10 (d :: ds) + digitVal c) % 10 =
        digitVal c), digitChar_digitVal hc]
      exact congrArg (· ++ [c]) hdec

theorem isNumeral_dec (n : Nat) : IsNumeral (dec n) := by
  refine ⟨dec_ne_nil n, fun c hc => isDigit_of_mem_dec hc, fun hzero => ?_⟩
  obtain ⟨-, hdec⟩ | ⟨c, s, hdec, -, hc⟩ := dec_head n
  · rw [hdec]
    rfl
  · rw [hdec] at hzero
    exact absurd (Option.some.inj hzero) hc

/-! ## Tokens and their texts -/

/-- A token that respects the limits of the parser. -/
def Tok.InRange : Tok → Prop
  | .key k => IsKey k
  | .index i => IsInt i
  | .append => True

/-- The text with `[0]` in place of every `[-0]`. -/
def dropNegZero : CStr → CStr
  | [] => []
  | '[' :: '-' :: '0' :: ']' :: s => '[' :: '0' :: ']' :: dropNegZero s
  | c :: s => c :: dropNegZero s

/-- The printed token is one of its texts. -/
theorem Tok.InRange.tokText_print {t : Tok} (h : t.InRange) : TokText t t.print := by
  cases t with
  | key k => exact .key h
  | append => exact .append
  | index i =>
    have hi : signed (decide (i < 0)) (digitsVal 10 (dec i.natAbs)) = i := by
      rw [digitsVal_dec, signed]
      split_ifs with hneg <;> simp at hneg <;> omega
    have htext := TokText.index (decide (i < 0)) (isNumeral_dec i.natAbs) (by rw [hi]; exact h)
    rw [hi] at htext
    simpa [Tok.print, signText] using htext

theorem dropNegZero_append {a : CStr} (h : '[' ∉ a) (b : CStr) :
    dropNegZero (a ++ b) = a ++ dropNegZero b := by
  induction a with
  | nil => rfl
  | cons c a ih =>
    obtain ⟨hc, ha⟩ : '[' ≠ c ∧ '[' ∉ a := by simpa using h
    rw [List.cons_append, dropNegZero, ih ha, List.cons_append]
    rintro s rfl
    exact absurd rfl hc

section Index

variable {ds : CStr}

theorem print_index_pos (h : IsNumeral ds) :
    (Tok.index (signed false (digitsVal 10 ds))).print = '[' :: (ds ++ [']']) := by
  have hpos : ¬ (digitsVal 10 ds : Int) < 0 := by omega
  simp [Tok.print, signed, hpos, h.dec_digitsVal]

theorem print_index_neg (h : IsNumeral ds) (hzero : ds ≠ ['0']) :
    (Tok.index (signed true (digitsVal 10 ds))).print = '[' :: '-' :: (ds ++ [']']) := by
  have hpos : 0 < digitsVal 10 ds := by
    rw [Nat.pos_iff_ne_zero]
    intro h0
    exact hzero (by rw [← h.dec_digitsVal, h0]; rfl)
  simp [Tok.print, signed, hpos, h.dec_digitsVal]

theorem bracket_notMem (h : IsNumeral ds) : '[' ∉ ds ++ [']'] := by
  intro hmem
  obtain hmem | hmem := List.mem_append.mp hmem
  · exact absurd (h.digits '[' hmem) (by decide)
  · simp at hmem

theorem dropNegZero_index_pos (h : IsNumeral ds) (rest : CStr) :
    dropNegZero ('[' :: (ds ++ [']'] ++ rest)) = '[' :: (ds ++ [']'] ++ dropNegZero rest) := by
  rw [dropNegZero, dropNegZero_append (bracket_notMem h)]
  rintro s - hs
  -- a numeral does not start with a minus sign
  obtain ⟨d, ds, rfl⟩ := List.exists_cons_of_ne_nil h.ne_nil
  obtain ⟨rfl, -⟩ := List.cons.inj hs
  exact absurd (h.digits '-' (by simp)) (by decide)

theorem dropNegZero_index_neg (h : IsNumeral ds) (hzero : ds ≠ ['0']) (rest : CStr) :
    dropNegZero ('[' :: '-' :: (ds ++ [']'] ++ rest)) =
      '[' :: '-' :: (ds ++ [']'] ++ dropNegZero rest) := by
  have hminus : '[' ∉ '-' :: (ds ++ [']']) := by
    rw [List.mem_cons, not_or]
    exact ⟨by decide, bracket_notMem h⟩
  rw [dropNegZero, ← List.cons_append, dropNegZero_append hminus, List.cons_append]
  rintro s - hs
  -- a numeral that starts with a zero is that zero
  obtain ⟨d, ds, rfl⟩ := List.exists_cons_of_ne_nil h.ne_nil
  obtain ⟨rfl, -⟩ := List.cons.inj (List.cons.inj hs).2
  have htail : ds = [] := h.zero rfl
  exact hzero (by rw [htail])

end Index

/-- The text of a step in front of others: what is printed for it, if `[-0]` is not. -/
theorem TokText.dropNegZero_append {t : Tok} {u : CStr} (h : TokText t u) (rest : CStr) :
    dropNegZero (u ++ rest) = t.print ++ dropNegZero rest := by
  cases h with
  | @key k hk =>
    refine Netrec.dropNegZero_append ?_ rest
    rw [List.mem_cons, not_or]
    exact ⟨by decide, fun hmem => absurd (hk.all '[' hmem) (by decide)⟩
  | append => rfl
  | @index ds neg hn hi =>
    cases neg with
    | false =>
      rw [print_index_pos hn]
      exact dropNegZero_index_pos hn rest
    | true =>
      by_cases hzero : ds = ['0']
      · subst hzero
        rfl
      · rw [print_index_neg hn hzero]
        exact dropNegZero_index_neg hn hzero rest

theorem Spells.flatMap_print {toks : List Tok} {text : CStr} (h : Spells toks text) :
    toks.flatMap Tok.print = dropNegZero text := by
  induction toks generalizing text with
  | nil =>
    rw [spells_nil.mp h]
    rfl
  | cons t toks ih =>
    obtain ⟨u, rest, hu, hrest, rfl⟩ := spells_cons.mp h
    rw [List.flatMap_cons, ih hrest, hu.dropNegZero_append]

theorem spells_print {toks : List Tok} (h : ∀ t ∈ toks, t.InRange) :
    Spells toks (toks.flatMap Tok.print) := by
  induction toks with
  | nil => exact spells_nil.mpr rfl
  | cons t toks ih =>
    obtain ⟨ht, htoks⟩ := List.forall_mem_cons.mp h
    exact spells_cons.mpr ⟨_, _, ht.tokText_print, ih htoks, rfl⟩

/-! ## Paths -/

/-- The texts of a path: nothing, or a key and fewer than `m` steps behind it. -/
def IsPathText (m : Nat) (s : CStr) : Prop :=
  s = [] ∨ ∃ (k : CStr) (us : List CStr),
    IsKey k ∧ us.length < m ∧ (∀ u ∈ us, ∃ t, TokText t u) ∧ s = k ++ us.flatten

/-- Each of the texts is a step of its own. -/
theorem forall_tokText_iff {us : List CStr} :
    (∀ u ∈ us, ∃ t, TokText t u) ↔ ∃ toks, List.Forall₂ TokText toks us := by
  induction us with
  | nil => exact ⟨fun _ => ⟨[], .nil⟩, fun _ => by simp⟩
  | cons u us ih =>
    rw [List.forall_mem_cons, ih]
    constructor
    · rintro ⟨⟨t, ht⟩, toks, htoks⟩
      exact ⟨t :: toks, .cons ht htoks⟩
    · rintro ⟨toks, htoks⟩
      obtain ⟨t, toks, ht, htoks', rfl⟩ := List.forall₂_cons_right_iff.mp htoks
      exact ⟨⟨t, ht⟩, toks, htoks'⟩

theorem exists_parsePath_iff {m : Nat} {s : CStr} :
    (∃ toks, parsePath m s = .ok toks) ↔ IsPathText m s := by
  unfold IsPathText
  simp only [parsePath_iff, forall_tokText_iff]
  constructor
  · rintro ⟨toks, hlen, ⟨rfl, -⟩ | ⟨-, hs⟩⟩
    · exact .inl rfl
    · cases toks with
      | nil => cases spells_nil.mp hs
      | cons t toks =>
        obtain ⟨u, rest, hu, ⟨us, hus, rfl⟩, he⟩ := spells_cons.mp hs
        cases hu with
        | @key k hk =>
          refine .inr ⟨k, us, hk, ?_, ⟨toks, hus⟩, by simpa using he⟩
          rw [← hus.length_eq]
          simpa using hlen
        | append => simp at he
        | index neg hn hi => simp at he
  · rintro (rfl | ⟨k, us, hk, hlen, ⟨toks, hus⟩, rfl⟩)
    · exact ⟨[], Nat.zero_le m, .inl ⟨rfl, rfl⟩⟩
    · refine ⟨.key k :: toks, ?_, .inr ⟨by simp [hk.ne_nil], ?_⟩⟩
      · rw [List.length_cons, hus.length_eq]
        exact hlen
      · exact spells_cons.mpr ⟨_, us.flatten, .key hk, ⟨us, hus, rfl⟩, rfl⟩

/-- What is printed for the tokens of a path is the path. -/
theorem printPath_of_parsePath {m : Nat} {s : CStr} {toks : List Tok}
    (h : parsePath m s = .ok toks) : printPath toks = dropNegZero s := by
  obtain ⟨-, ⟨rfl, rfl⟩ | ⟨-, hs⟩⟩ := parsePath_iff.mp h
  · rfl
  · have hdot : dropNegZero ('.' :: s) = '.' :: dropNegZero s :=
      dropNegZero_append (a := ['.']) (by simp) s
    rw [printPath, hs.flatMap_print, hdot, List.tail_cons]

/-- A printed path is read back. -/
theorem parsePath_of_printPath {m : Nat} {k : CStr} {toks : List Tok} (hk : IsKey k)
    (htoks : ∀ t ∈ toks, t.InRange) (hlen : toks.length < m) :
    parsePath m (printPath (.key k :: toks)) = .ok (.key k :: toks) := by
  refine parsePath_iff.mpr ⟨by simpa using hlen, .inr ⟨?_, ?_⟩⟩
  · simp [printPath_key_cons, hk.ne_nil]
  · exact spells_print (List.forall_mem_cons.mpr ⟨hk, htoks⟩)

/-- **The path parser accepts exactly its grammar and reads it in one way.** A text is accepted when
it is empty or a key with at most 63 further steps; the tokens of an accepted text print as that
text, up to `[-0]`; and tokens that start with a key and respect the limits are read back from what
is printed for them. -/
theorem parsePath_grammar :
    (∀ s, (∃ toks, parsePath 64 s = .ok toks) ↔ IsPathText 64 s) ∧
      (∀ s toks, parsePath 64 s = .ok toks → printPath toks = dropNegZero s) ∧
      ∀ k toks, IsKey k → (∀ t ∈ toks, t.InRange) → toks.length < 64 →
        parsePath 64 (printPath (.key k :: toks)) = .ok (.key k :: toks) :=
  ⟨fun _ => exists_parsePath_iff, fun _ _ => printPath_of_parsePath,
    fun _ _ => parsePath_of_printPath⟩

/-- `bridge.dns[-0]` is read, and printed as `bridge.dns[0]`, which is read as the same tokens. -/
theorem parsePath_grammar_dns :
    parsePath 64 "bridge.dns[-0]".toList =
        .ok [.key "bridge".toList, .key "dns".toList, .index 0] ∧
      printPath [.key "bridge".toList, .key "dns".toList, .index 0] = "bridge.dns[0]".toList ∧
      parsePath 64 "bridge.dns[0]".toList =
        .ok [.key "bridge".toList, .key "dns".toList, .index 0] := by
  obtain ⟨-, hprint, hread⟩ := parsePath_grammar
  have hparse : parsePath 64 "bridge.dns[-0]".toList =
      .ok [.key "bridge".toList, .key "dns".toList, .index 0] := rfl
  have htoks : ∀ t ∈ [Tok.key "dns".toList, .index 0], t.InRange := by
    refine List.forall_mem_cons.mpr ⟨?_, List.forall_mem_singleton.mpr ?_⟩
    · exact (by decide : IsKey "dns".toList)
    · exact (by decide : IsInt 0)
  exact ⟨hparse, hprint _ _ hparse, hread "bridge".toList _ (by decide) htoks (by decide)⟩

end Netrec
