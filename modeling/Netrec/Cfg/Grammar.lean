import Netrec.Cfg.Path

/-!
# The grammar of configuration paths

The path parser reads the language its tests describe: a key, followed by `.key`, `[index]` and
`[]` steps, where an index is a decimal numeral without leading zeros and with an optional minus
sign. A path is the concatenation of the texts of its steps, so a path followed by one more step is
read as its own tokens and that step.

## Main definitions

* `IsNumeral`, `TokText`: the numerals of an index, and the texts of a step
* `Spells toks text`: the text is the texts of the tokens, one after the other

## Main results

* `parseTok_iff`, `parsePath_iff`: the parser reads exactly its grammar
* `parsePath_concat_iff`: the tokens of a path and one more step
-/

namespace Netrec

open CLib

/-- A decimal numeral without leading zeros. -/
structure IsNumeral (ds : CStr) : Prop where
  ne_nil : ds ≠ []
  digits : ∀ c ∈ ds, isDigit c
  zero : ds.head? = some '0' → ds.tail = []

/-- A number with its sign. -/
def signed (neg : Bool) (n : Nat) : Int := if neg then -(n : Int) else n

/-- The values of an `int`. -/
def IsInt (i : Int) : Prop := -2 ^ 31 ≤ i ∧ i ≤ 2 ^ 31 - 1

instance (i : Int) : Decidable (IsInt i) := inferInstanceAs (Decidable (_ ∧ _))

/-- The texts of a step. -/
inductive TokText : Tok → CStr → Prop
  | key {k : CStr} (hk : IsKey k) : TokText (.key k) ('.' :: k)
  | append : TokText .append ['[', ']']
  | index {ds : CStr} (neg : Bool) (h : IsNumeral ds) (hi : IsInt (signed neg (digitsVal 10 ds))) :
    TokText (.index (signed neg (digitsVal 10 ds))) ('[' :: (signText neg ++ ds ++ [']']))

/-! ## One step -/

theorem strtol_digits (neg : Bool) {ds rest : CStr} (hne : ds ≠ []) (hd : ∀ c ∈ ds, isDigit c)
    (hr : ∀ c ∈ rest.head?, isDigit c = false) (hi : IsInt (signed neg (digitsVal 10 ds))) :
    strtol 10 (signText neg ++ ds ++ rest) = (signed neg (digitsVal 10 ds), rest, false) := by
  obtain ⟨hlo, hhi⟩ := hi
  simp only [strtol, readNumeral_digits neg hne hd hr]
  cases neg with
  | true =>
    simp only [signed, if_true] at hlo hhi ⊢
    rw [if_neg (by omega)]
  | false =>
    simp only [signed, Bool.false_eq_true, if_false] at hlo hhi ⊢
    rw [if_neg (by omega)]

/-- A numeral that no `int` holds is out of range for `strtol` or for the check behind it. -/
theorem strtol_out (neg : Bool) {ds rest : CStr} (hne : ds ≠ []) (hd : ∀ c ∈ ds, isDigit c)
    (hr : ∀ c ∈ rest.head?, isDigit c = false) (hi : ¬ IsInt (signed neg (digitsVal 10 ds))) :
    (strtol 10 (signText neg ++ ds ++ rest)).2.2 ∨
      ¬ IsInt (strtol 10 (signText neg ++ ds ++ rest)).1 := by
  simp only [strtol, readNumeral_digits neg hne hd hr]
  split_ifs with h₁ h₂ h₃
  · exact .inl rfl
  · exact .inr (by simpa [signed, h₁] using hi)
  · exact .inl rfl
  · exact .inr (by simpa [signed, h₁] using hi)

/-- The sign and the digits at the start of a text. -/
theorem exists_span (s : CStr) :
    ∃ neg ds rest, s = signText neg ++ ds ++ rest ∧ (∀ c ∈ ds, isDigit c) ∧
      (∀ c ∈ rest.head?, isDigit c = false) ∧
      (if s.head? = some '-' then s.tail else s) = ds ++ rest := by
  have hspan : ∀ p : CStr, p = p.takeWhile isDigit ++ p.dropWhile isDigit :=
    fun p => List.takeWhile_append_dropWhile.symm
  have hrest : ∀ p : CStr, ∀ c ∈ (p.dropWhile isDigit).head?, isDigit c = false := by
    intro p c hc
    have hhead := List.head?_dropWhile_not isDigit p
    rwa [Option.mem_def.mp hc] at hhead
  by_cases h : s.head? = some '-'
  · obtain ⟨p, rfl⟩ : ∃ p, s = '-' :: p := by
      cases s with
      | nil => simp at h
      | cons c p => exact ⟨p, by simpa using h⟩
    exact ⟨true, p.takeWhile isDigit, p.dropWhile isDigit, by simp [signText, ← hspan p],
      fun c hc => List.mem_takeWhile_imp hc, hrest p, by simp [← hspan p]⟩
  · exact ⟨false, s.takeWhile isDigit, s.dropWhile isDigit, by simp [signText, ← hspan s],
      fun c hc => List.mem_takeWhile_imp hc, hrest s, by simp [h, ← hspan s]⟩

theorem head?_append_any {ds rest : CStr} (hd : ∀ c ∈ ds, isDigit c)
    (hr : ∀ c ∈ rest.head?, isDigit c = false) :
    (ds ++ rest).head?.any isDigit = true ↔ ds ≠ [] := by
  cases ds with
  | cons c ds => simp [hd c]
  | nil =>
    cases rest with
    | nil => simp
    | cons r rest => simpa using hr r

/-- `parse_index_tok` on a sign, digits and what follows them. -/
theorem parseIndex_span (neg : Bool) {ds r : CStr} (hne : ds ≠ []) (hd : ∀ c ∈ ds, isDigit c)
    (hr : ∀ c ∈ r.head?, isDigit c = false) {tok : Tok} {rest : CStr} :
    parseIndex (signText neg ++ ds ++ r) = .ok (tok, rest) ↔
      IsNumeral ds ∧ IsInt (signed neg (digitsVal 10 ds)) ∧
        tok = .index (signed neg (digitsVal 10 ds)) ∧ r = ']' :: rest := by
  have hp : (if (signText neg ++ ds ++ r).head? = some '-' then (signText neg ++ ds ++ r).tail
      else signText neg ++ ds ++ r) = ds ++ r := by
    obtain ⟨c, ds, rfl⟩ := List.exists_cons_of_ne_nil hne
    cases neg with
    | true => simp [signText]
    | false =>
      have hc : c ≠ '-' := by
        rintro rfl
        exact absurd (hd '-' (by simp)) (by decide)
      simp [signText, hc]
  have hany : (ds ++ r).head?.any isDigit = true := (head?_append_any hd hr).mpr hne
  have hzero : (ds ++ r).head? = some '0' ∧ (ds ++ r).tail.head?.any isDigit = true ↔
      ¬ (ds.head? = some '0' → ds.tail = []) := by
    obtain ⟨c, ds, rfl⟩ := List.exists_cons_of_ne_nil hne
    have htail := head?_append_any (fun d h => hd d (List.mem_cons_of_mem c h)) hr
    simp only [List.cons_append, List.head?_cons, List.tail_cons, htail, Classical.not_imp]
  have hend : r ≠ signText neg ++ ds ++ r := by
    intro he
    have := congrArg List.length he
    have := List.length_pos_iff.mpr hne
    simp only [List.length_append] at *
    omega
  unfold parseIndex
  simp only [hp, hany, hzero, Bool.not_true, Bool.false_eq_true, if_false]
  by_cases hz : ds.head? = some '0' → ds.tail = []
  · rw [if_neg (not_not.mpr hz)]
    by_cases hi : IsInt (signed neg (digitsVal 10 ds))
    · have hnum : IsNumeral ds := ⟨hne, hd, hz⟩
      have hlo : ¬ signed neg (digitsVal 10 ds) < -2 ^ 31 := not_lt.mpr hi.1
      have hhi : ¬ signed neg (digitsVal 10 ds) > 2 ^ 31 - 1 := not_lt.mpr hi.2
      simp only [strtol_digits neg hne hd hr hi, hend, hlo, hhi, hnum, hi, true_and, or_false,
        false_or, Bool.false_eq_true]
      cases r with
      | nil => simp
      | cons c r =>
        by_cases hc : c = ']'
        · simp [hc, eq_comm]
        · simp [hc]
    · -- the value is reported as out of range, or is
      have hout := strtol_out neg hne hd hr hi
      refine iff_of_false ?_ fun h => hi h.2.1
      rw [if_pos]
      · simp
      · rcases hout with h | h
        · exact .inl h
        · simp only [IsInt, not_and_or, not_le] at h
          exact .inr (.inr (.inr h))
  · rw [if_pos hz]
    exact iff_of_false (by simp) fun h => hz h.1.zero

/-- `parse_index_tok` reads the numerals of an `int`. -/
theorem parseIndex_iff {s rest : CStr} {tok : Tok} :
    parseIndex s = .ok (tok, rest) ↔
      ∃ neg ds, IsNumeral ds ∧ IsInt (signed neg (digitsVal 10 ds)) ∧
        tok = .index (signed neg (digitsVal 10 ds)) ∧ s = signText neg ++ ds ++ ']' :: rest := by
  constructor
  · intro h
    obtain ⟨neg, ds, r, hs, hd, hr, hp⟩ := exists_span s
    have hne : ds ≠ [] := by
      intro he
      have hany : ¬ ((ds ++ r).head?.any isDigit = true) := by
        rw [head?_append_any hd hr]
        exact not_not.mpr he
      simp only [parseIndex, hp, Bool.eq_false_iff.mpr hany, Bool.not_false, if_true] at h
      cases h
    rw [hs, parseIndex_span neg hne hd hr] at h
    obtain ⟨hnum, hi, htok, rfl⟩ := h
    exact ⟨neg, ds, hnum, hi, htok, hs⟩
  · rintro ⟨neg, ds, hnum, hi, rfl, rfl⟩
    have hr : ∀ c ∈ (']' :: rest).head?, isDigit c = false := by simp; decide
    exact (parseIndex_span neg hnum.ne_nil hnum.digits hr).mpr ⟨hnum, hi, rfl, rfl⟩

/-- A step that is a key ends where the key ends. -/
def KeyEnds (tok : Tok) (rest : CStr) : Prop :=
  (∃ k, tok = .key k) → ∀ c ∈ rest.head?, isKeyChar c = false

theorem parseKeyTok_iff {s rest : CStr} {tok : Tok} :
    parseKeyTok s = .ok (tok, rest) ↔
      ∃ k, IsKey k ∧ tok = .key k ∧ s = k ++ rest ∧ ∀ c ∈ rest.head?, isKeyChar c = false := by
  constructor
  · intro h
    obtain ⟨k, rfl, hk⟩ := parseKeyTok_eq_ok h
    simp only [parseKeyTok] at h
    split_ifs at h
    obtain ⟨rfl, rfl⟩ : s.takeWhile isKeyChar = k ∧ s.dropWhile isKeyChar = rest := by simpa using h
    refine ⟨_, hk, rfl, List.takeWhile_append_dropWhile.symm, fun c hc => ?_⟩
    have hhead := List.head?_dropWhile_not isKeyChar s
    rwa [Option.mem_def.mp hc] at hhead
  · rintro ⟨k, hk, rfl, rfl, hr⟩
    exact parseKeyTok_append hk hr

theorem parseIndexTok_iff {p rest : CStr} {tok : Tok} :
    parseIndexTok ('[' :: p) = .ok (tok, rest) ↔
      ∃ u, TokText tok u ∧ '[' :: p = u ++ rest ∧ ∀ k, tok ≠ .key k := by
  by_cases hp : p.head? = some ']'
  · obtain ⟨p, rfl⟩ : ∃ p', p = ']' :: p' := ⟨p.tail, (List.cons_head?_tail hp).symm⟩
    constructor
    · intro h
      obtain ⟨rfl, rfl⟩ : Tok.append = tok ∧ p = rest := by simpa [parseIndexTok] using h
      exact ⟨_, .append, rfl, by simp⟩
    · rintro ⟨u, hu, hs, hk⟩
      cases hu with
      | key _ => exact absurd rfl (hk _)
      | append =>
        obtain rfl : p = rest := by simpa using hs
        rfl
      | index neg h hi =>
        -- a numeral does not start with a bracket
        obtain ⟨c, ds, rfl⟩ := List.exists_cons_of_ne_nil h.ne_nil
        cases neg with
        | true => simp [signText] at hs
        | false =>
          obtain ⟨rfl, -⟩ : ']' = c ∧ p = ds ++ ([']'] ++ rest) := by simpa [signText] using hs
          exact absurd (h.digits ']' List.mem_cons_self) (by decide)
  · have hidx : parseIndexTok ('[' :: p) = parseIndex p := by
      cases p with
      | nil => rfl
      | cons c p =>
        have hc : c ≠ ']' := by simpa using hp
        unfold parseIndexTok
        split
        · simp_all
        · simp_all
        · simp_all
    rw [hidx, parseIndex_iff]
    constructor
    · rintro ⟨neg, ds, hnum, hi, rfl, rfl⟩
      exact ⟨_, .index neg hnum hi, by simp, by simp⟩
    · rintro ⟨u, hu, hs, hk⟩
      cases hu with
      | key _ => exact absurd rfl (hk _)
      | append => simp_all
      | index neg h hi => exact ⟨neg, _, h, hi, rfl, by simpa using hs⟩

/-- **One round of the parser reads one step.** -/
theorem parseTok_iff {s rest : CStr} {tok : Tok} :
    parseTok s = .ok (tok, rest) ↔ ∃ u, TokText tok u ∧ s = u ++ rest ∧ KeyEnds tok rest := by
  by_cases hdot : s.head? = some '.'
  · obtain ⟨p, rfl⟩ : ∃ p, s = '.' :: p := ⟨s.tail, (List.cons_head?_tail hdot).symm⟩
    have htok : parseTok ('.' :: p) = parseKeyTok p := by simp [parseTok]
    rw [htok, parseKeyTok_iff]
    constructor
    · rintro ⟨k, hk, rfl, rfl, hr⟩
      exact ⟨_, .key hk, rfl, fun _ => hr⟩
    · rintro ⟨u, hu, hs, hr⟩
      cases hu with
      | key hk => exact ⟨_, hk, rfl, by simpa using hs, hr ⟨_, rfl⟩⟩
      | append => simp at hs
      | index neg h hi => simp at hs
  · by_cases hbr : s.head? = some '['
    · obtain ⟨p, rfl⟩ : ∃ p, s = '[' :: p := ⟨s.tail, (List.cons_head?_tail hbr).symm⟩
      have htok : parseTok ('[' :: p) = parseIndexTok ('[' :: p) := by simp [parseTok]
      rw [htok, parseIndexTok_iff]
      refine exists_congr fun u => and_congr_right fun hu => and_congr_right fun hs => ?_
      cases hu with
      | key hk => simp at hs
      | append => simp [KeyEnds]
      | index neg h hi => simp [KeyEnds]
    · refine iff_of_false (by simp [parseTok, hdot, hbr]) ?_
      rintro ⟨u, hu, rfl, -⟩
      cases hu with
      | key hk => simp at hdot
      | append => simp at hbr
      | index neg h hi => simp at hbr

/-! ## Whole paths -/

/-- The text is made of the texts of the tokens, one after the other. -/
def Spells (toks : List Tok) (text : CStr) : Prop :=
  ∃ us, List.Forall₂ TokText toks us ∧ text = us.flatten

theorem spells_nil {text : CStr} : Spells [] text ↔ text = [] := by simp [Spells]

theorem spells_cons {t : Tok} {toks : List Tok} {text : CStr} :
    Spells (t :: toks) text ↔ ∃ u rest, TokText t u ∧ Spells toks rest ∧ text = u ++ rest := by
  constructor
  · rintro ⟨us, hus, rfl⟩
    obtain ⟨u, us, hu, hus', rfl⟩ := List.forall₂_cons_left_iff.mp hus
    exact ⟨u, us.flatten, hu, ⟨us, hus', rfl⟩, rfl⟩
  · rintro ⟨u, rest, hu, ⟨us, hus, rfl⟩, rfl⟩
    exact ⟨u :: us, .cons hu hus, rfl⟩

theorem spells_concat {t : Tok} {toks : List Tok} {text : CStr} :
    Spells (toks ++ [t]) text ↔ ∃ a u, Spells toks a ∧ TokText t u ∧ text = a ++ u := by
  induction toks generalizing text with
  | nil => simp [spells_cons, spells_nil]
  | cons t' toks ih =>
    rw [List.cons_append, spells_cons]
    constructor
    · rintro ⟨u', rest, hu', hrest, rfl⟩
      obtain ⟨a, u, ha, hu, rfl⟩ := ih.mp hrest
      exact ⟨u' ++ a, u, spells_cons.mpr ⟨u', a, hu', ha, rfl⟩, hu, by simp⟩
    · rintro ⟨a, u, ha, hu, rfl⟩
      obtain ⟨u', rest, hu', hrest, rfl⟩ := spells_cons.mp ha
      exact ⟨u', rest ++ u, hu', ih.mpr ⟨rest, u, hrest, hu, rfl⟩, by simp⟩

/-- A step starts with a byte that no key has. -/
theorem TokText.head {t : Tok} {u : CStr} (h : TokText t u) :
    ∃ c u', u = c :: u' ∧ isKeyChar c = false := by
  cases h with
  | key _ => exact ⟨_, _, rfl, by decide⟩
  | append => exact ⟨_, _, rfl, by decide⟩
  | index _ _ _ => exact ⟨_, _, rfl, by decide⟩

theorem Spells.head {toks : List Tok} {text : CStr} (h : Spells toks text) :
    ∀ c ∈ text.head?, isKeyChar c = false := by
  cases toks with
  | nil => simp [spells_nil.mp h]
  | cons t toks =>
    obtain ⟨u, rest, hu, -, rfl⟩ := spells_cons.mp h
    obtain ⟨c, u', rfl, hc⟩ := hu.head
    simpa using hc

/-- The loop of the parser reads the steps that have room. -/
theorem parseToks_iff {n : Nat} {s : CStr} {toks : List Tok} :
    parseToks n s = .ok toks ↔ toks.length ≤ n ∧ Spells toks s := by
  induction n generalizing s toks with
  | zero =>
    cases s with
    | nil =>
      cases toks with
      | nil => simp [parseToks, spells_nil]
      | cons t toks => simp [parseToks]
    | cons c s =>
      refine iff_of_false (by simp [parseToks]) ?_
      rintro ⟨hl, hs⟩
      rw [List.length_eq_zero_iff.mp (Nat.le_zero.mp hl), spells_nil] at hs
      cases hs
  | succ n ih =>
    cases s with
    | nil =>
      cases toks with
      | nil => simp [parseToks, spells_nil]
      | cons t toks =>
        refine iff_of_false (by simp [parseToks]) ?_
        rintro ⟨-, hs⟩
        obtain ⟨u, rest, hu, -, he⟩ := spells_cons.mp hs
        obtain ⟨c, u', rfl, -⟩ := hu.head
        cases he
    | cons c s =>
      simp only [parseToks, bind_eq_ok, pure_eq_ok]
      constructor
      · rintro ⟨⟨tok, rest⟩, htok, toks', htoks, he⟩
        obtain rfl : tok :: toks' = toks := by simpa using he
        obtain ⟨u, hu, hs, -⟩ := parseTok_iff.mp htok
        obtain ⟨hl, hrest⟩ := ih.mp htoks
        exact ⟨by simpa using hl, spells_cons.mpr ⟨u, rest, hu, hrest, hs⟩⟩
      · rintro ⟨hl, hs⟩
        cases toks with
        | nil => simp [spells_nil] at hs
        | cons t toks =>
          obtain ⟨u, rest, hu, hrest, he⟩ := spells_cons.mp hs
          exact ⟨(t, rest), parseTok_iff.mpr ⟨u, hu, he, fun _ => hrest.head⟩, toks,
            ih.mpr ⟨by simpa using hl, hrest⟩, rfl⟩

theorem parsePath_eq {path : CStr} (hp : path ≠ []) (m : Nat) :
    parsePath m path = parseToks m ('.' :: path) := by
  rw [parsePath, if_neg hp]
  cases m with
  | zero => rfl
  | succ m => simp [parseToks, parseTok]

/-- **The path parser reads exactly its grammar**: the first key is written without its dot. -/
theorem parsePath_iff {m : Nat} {path : CStr} {toks : List Tok} :
    parsePath m path = .ok toks ↔
      toks.length ≤ m ∧ (path = [] ∧ toks = [] ∨ path ≠ [] ∧ Spells toks ('.' :: path)) := by
  by_cases hp : path = []
  · subst hp
    have hnil : parsePath m [] = .ok [] := rfl
    rw [hnil]
    constructor
    · rintro ⟨⟩
      simp
    · rintro ⟨-, ⟨-, rfl⟩ | ⟨hne, -⟩⟩
      · rfl
      · exact absurd rfl hne
  · rw [parsePath_eq hp, parseToks_iff]
    simp [hp]

/-! ## A path and one more step -/

theorem not_spells_dot (toks : List Tok) : ¬ Spells toks ['.'] := by
  intro h
  cases toks with
  | nil => cases spells_nil.mp h
  | cons t toks =>
    obtain ⟨u, rest, hu, -, he⟩ := spells_cons.mp h
    cases hu with
    | key hk =>
      obtain ⟨hk', -⟩ : _ = [] ∧ rest = [] := by simpa using he
      exact hk.ne_nil hk'
    | append => simp at he
    | index neg hn hi => simp at he

/-- **A path and one more step**: the texts of a step may be written behind any path. -/
theorem parsePath_concat_iff {m : Nat} {p : CStr} {qt : List Tok} {t : Tok} (hne : qt ≠ []) :
    parsePath m p = .ok (qt ++ [t]) ↔
      ∃ q u, parsePath m q = .ok qt ∧ qt.length < m ∧ TokText t u ∧ p = q ++ u := by
  simp only [parsePath_iff, List.append_eq_nil_iff, hne, false_and, and_false, false_or,
    List.length_append, List.length_singleton, spells_concat]
  constructor
  · rintro ⟨hl, hp, a, u, ha, hu, he⟩
    obtain ⟨t', qt, rfl⟩ := List.exists_cons_of_ne_nil hne
    obtain ⟨u', rest, hu', hrest, rfl⟩ := spells_cons.mp ha
    obtain ⟨c, u', rfl, -⟩ := hu'.head
    obtain ⟨rfl, rfl⟩ : '.' = c ∧ p = u' ++ (rest ++ u) := by simpa using he
    refine ⟨u' ++ rest, u, ⟨by omega, fun hq => ?_, ha⟩, by omega, hu, by simp⟩
    simp only [List.cons_append, hq] at ha
    exact not_spells_dot _ ha
  · rintro ⟨q, u, ⟨-, hq, ha⟩, hl, hu, rfl⟩
    exact ⟨by omega, by simp [hq], _, u, ha, hu, rfl⟩

/-- What ends in `[]` is a path followed by an append. -/
theorem parsePath_append_iff {m : Nat} {q : CStr} {toks : List Tok} :
    parsePath m (q ++ ['[', ']']) = .ok toks ↔
      ∃ qt, parsePath m q = .ok qt ∧ qt ≠ [] ∧ qt.length < m ∧ toks = qt ++ [.append] := by
  constructor
  · intro h
    rcases List.eq_nil_or_concat toks with rfl | ⟨qt, t, rfl⟩
    · simp [parsePath_iff, spells_nil] at h
    · rw [List.concat_eq_append] at h ⊢
      by_cases hqt : qt = []
      · -- a single key has no bracket
        subst hqt
        obtain ⟨-, h | ⟨-, hs⟩⟩ := parsePath_iff.mp h
        · simp at h
        · obtain ⟨u, rest, hu, hrest, he⟩ := spells_cons.mp hs
          obtain rfl := spells_nil.mp hrest
          cases hu with
          | key hk =>
            obtain rfl : q ++ ['[', ']'] = _ := by simpa using he
            exact absurd (hk.all '[' (by simp)) (by decide)
          | append => simp at he
          | index neg hn hi => simp at he
      · obtain ⟨q', u, hq', hl, hu, he⟩ := (parsePath_concat_iff hqt).mp h
        -- only an append ends in both brackets
        cases hu with
        | append =>
          obtain rfl : q = q' := by simpa using he
          exact ⟨qt, hq', hqt, hl, rfl⟩
        | @key k hk =>
          obtain ⟨k', c, rfl⟩ := (List.eq_nil_or_concat k).resolve_left hk.ne_nil
          have he' : (q ++ ['[']) ++ [']'] = (q' ++ '.' :: k') ++ [c] := by simpa using he
          obtain rfl : ']' = c := by simpa using (List.append_inj' he' rfl).2
          exact absurd (hk.all ']' (by simp)) (by decide)
        | @index ds neg hn hi =>
          obtain ⟨ds', c, rfl⟩ := (List.eq_nil_or_concat ds).resolve_left hn.ne_nil
          have he' : q ++ ['[', ']'] = (q' ++ '[' :: (signText neg ++ ds')) ++ [c, ']'] := by
            simpa using he
          obtain rfl : '[' = c := by simpa using (List.append_inj' he' rfl).2
          exact absurd (hn.digits '[' (by simp)) (by decide)
  · rintro ⟨qt, hq, hqt, hl, rfl⟩
    exact (parsePath_concat_iff hqt).mpr ⟨q, _, hq, hl, .append, rfl⟩

/-- The index of the last entry. -/
theorem tokText_last : TokText (.index (-1)) "[-1]".toList := by
  have h : IsNumeral ['1'] := ⟨by simp, List.forall_mem_singleton.mpr (by decide), by decide⟩
  exact .index true h (by decide)

/-- A path that ends in an append is written with `[]` at its end. -/
theorem exists_of_parsePath_append {m : Nat} {p : CStr} {qt : List Tok}
    (h : parsePath m p = .ok (qt ++ [.append])) : ∃ q, p = q ++ ['[', ']'] := by
  by_cases hqt : qt = []
  · subst hqt
    obtain ⟨-, h | ⟨-, hs⟩⟩ := parsePath_iff.mp h
    · simp at h
    · obtain ⟨u, rest, hu, hrest, he⟩ := spells_cons.mp hs
      cases hu
      simp at he
  · obtain ⟨q, u, -, -, hu, rfl⟩ := (parsePath_concat_iff hqt).mp h
    cases hu
    exact ⟨q, rfl⟩

/-- A path that ends in a step has a shorter path in front of it. -/
theorem exists_parsePath_of_concat {m : Nat} {p : CStr} {qt : List Tok} {t : Tok}
    (h : parsePath m p = .ok (qt ++ [t])) : ∃ q, parsePath m q = .ok qt := by
  by_cases hqt : qt = []
  · exact ⟨[], hqt ▸ rfl⟩
  · obtain ⟨q, -, hq, -⟩ := (parsePath_concat_iff hqt).mp h
    exact ⟨q, hq⟩

end Netrec
