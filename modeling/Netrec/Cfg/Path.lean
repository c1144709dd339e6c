import Netrec.CLib.Chain
import Netrec.State

/-!
# Configuration paths

A path of the configuration tree is a key followed by `.key`, `[index]` and `[]` steps. The parser
reads a path into at most `CFG_PATH_DEPTH_MAX` tokens; a configuration file may use only keys and
one final `[]`. Printing the tokens of such a path gives a text that the parser reads back.

## Main definitions

* `Tok`, `parsePath`: tokens and the path parser
* `pathFileOk`: the paths a configuration file may use
* `IsKey`, `FileToks`: well-formed keys, and the token lists of a configuration file
* `printPath`: the text of a token list

## Main results

* `parsePath_eq_ok`: what the parser returns
* `parsePath_printPath`, `pathFileOk_printPath`: printed file paths are read back
-/

namespace Netrec

open CLib

/-! ## The parser -/

/-- `CFG_PATH_SEG_MAX`. -/
abbrev CFG_PATH_SEG_MAX : Nat := 128

/-- `CFG_PATH_DEPTH_MAX`. -/
abbrev CFG_PATH_DEPTH_MAX : Nat := 64

/-- `struct cfg_tok`. -/
inductive Tok
  | key (key : CStr)
  | index (idx : Int)
  | append
  deriving DecidableEq

/-- `is_key_start`. -/
def isKeyStart (c : Char) : Bool := isAlpha c || c = '_'

/-- `is_key_char`. -/
def isKeyChar (c : Char) : Bool := isAlnum c || c = '_'

/-- `parse_key_tok`: the token and the unread rest. -/
def parseKeyTok (src : CStr) : Except Errno (Tok × CStr) :=
  if !src.head?.any isKeyStart then .error .EINVAL
  else
    let key := src.takeWhile isKeyChar
    if key.length ≥ CFG_PATH_SEG_MAX then .error .E2BIG
    else .ok (.key key, src.dropWhile isKeyChar)

/-- The number of `parse_index_tok`, after `[`. -/
def parseIndex (digits : CStr) : Except Errno (Tok × CStr) :=
  let p := if digits.head? = some '-' then digits.tail else digits
  if !p.head?.any isDigit then .error .EINVAL
  else if p.head? = some '0' ∧ p.tail.head?.any isDigit then .error .EINVAL
  else
    let (idx, rest, erange) := strtol 10 digits
    if erange ∨ rest = digits ∨ rest.head? ≠ some ']' ∨ idx < -2 ^ 31 ∨ idx > 2 ^ 31 - 1 then
      .error .EINVAL
    else .ok (.index idx, rest.tail)

/-- `parse_index_tok`: the token and the unread rest. -/
def parseIndexTok : CStr → Except Errno (Tok × CStr)
  | '[' :: ']' :: rest => .ok (.append, rest)
  | '[' :: digits => parseIndex digits
  | _ => .error .EINVAL

/-- One round of the loop of `parse_path`: `.key`, `[index]` or `[]`. -/
def parseTok (p : CStr) : Except Errno (Tok × CStr) :=
  if p.head? = some '.' then parseKeyTok p.tail
  else if p.head? = some '[' then parseIndexTok p
  else .error .EINVAL

/-- The loop of `parse_path`, with room for `n` tokens. -/
def parseToks : Nat → CStr → Except Errno (List Tok)
  | _, [] => .ok []
  | 0, _ :: _ => .error .E2BIG
  | n + 1, c :: p => do
    let (tok, rest) ← parseTok (c :: p)
    let toks ← parseToks n rest
    return tok :: toks

/-- `parse_path`. -/
def parsePath (max : Nat) (path : CStr) : Except Errno (List Tok) :=
  if path = [] then .ok []
  else if max = 0 then .error .E2BIG
  else do
    let (tok, rest) ← parseKeyTok path
    let toks ← parseToks (max - 1) rest
    return tok :: toks

/-- The loop of `path_file_ok`: no index, and `[]` only at the end. -/
def toksFileOk : List Tok → Except Errno Unit
  | [] => .ok ()
  | .index _ :: _ => .error .EINVAL
  | .append :: toks => if toks ≠ [] then .error .EINVAL else .ok ()
  | .key _ :: toks => toksFileOk toks

/-- `path_file_ok`. -/
def pathFileOk (path : CStr) : Except Errno Unit := do
  toksFileOk (← parsePath CFG_PATH_DEPTH_MAX path)

/-! ## What the parser returns -/

/-- A key: `[A-Za-z_][A-Za-z0-9_]*`, shorter than the key buffer. -/
structure IsKey (k : CStr) : Prop where
  head : k.head?.any isKeyStart
  all : ∀ c ∈ k, isKeyChar c
  length_lt : k.length < CFG_PATH_SEG_MAX

instance (k : CStr) : Decidable (IsKey k) :=
  decidable_of_iff (k.head?.any isKeyStart ∧ k.all isKeyChar ∧ k.length < CFG_PATH_SEG_MAX)
    ⟨fun ⟨h, a, l⟩ => ⟨h, List.all_eq_true.mp a, l⟩,
      fun h => ⟨h.head, List.all_eq_true.mpr h.all, h.length_lt⟩⟩

theorem isKeyChar_of_isKeyStart {c : Char} (h : isKeyStart c) : isKeyChar c := by
  simp only [isKeyStart, isKeyChar, isAlnum, Bool.or_eq_true, decide_eq_true_eq] at h ⊢
  tauto

theorem IsKey.ne_nil {k : CStr} (h : IsKey k) : k ≠ [] := by
  rintro rfl
  simpa using h.head

theorem parseKeyTok_eq_ok {s rest : CStr} {tok : Tok} (h : parseKeyTok s = .ok (tok, rest)) :
    ∃ k, tok = .key k ∧ IsKey k := by
  simp only [parseKeyTok] at h
  split at h
  · cases h
  · rename_i hs
    split at h
    · cases h
    · rename_i hl
      obtain ⟨rfl, -⟩ : Tok.key (s.takeWhile isKeyChar) = tok ∧ _ := by simpa using h
      refine ⟨_, rfl, ?_, fun c hc => List.mem_takeWhile_imp hc, by omega⟩
      cases s with
      | nil => simp at hs
      | cons c s =>
        have hc : isKeyStart c := by simpa using hs
        simp [isKeyChar_of_isKeyStart hc, hc]

theorem parseIndex_eq_ok {s rest : CStr} {tok : Tok} (h : parseIndex s = .ok (tok, rest)) :
    ∃ i, tok = .index i := by
  simp only [parseIndex] at h
  repeat' split at h
  all_goals cases h
  all_goals exact ⟨_, rfl⟩

theorem parseIndexTok_eq_ok {s rest : CStr} {tok : Tok} (h : parseIndexTok s = .ok (tok, rest)) :
    tok = .append ∨ ∃ i, tok = .index i := by
  unfold parseIndexTok at h
  split at h
  · exact Or.inl (by simpa using (congrArg Prod.fst (Except.ok.inj h)).symm)
  · exact Or.inr (parseIndex_eq_ok h)
  · cases h

/-- A token whose key, if it is one, is well formed. -/
def Tok.Valid : Tok → Prop
  | .key k => IsKey k
  | .index _ => True
  | .append => True

theorem parseTok_eq_ok {s rest : CStr} {tok : Tok} (h : parseTok s = .ok (tok, rest)) :
    tok.Valid := by
  unfold parseTok at h
  split at h
  · obtain ⟨k, rfl, hk⟩ := parseKeyTok_eq_ok h
    exact hk
  · split at h
    · rcases parseIndexTok_eq_ok h with rfl | ⟨i, rfl⟩ <;> trivial
    · cases h

theorem parseToks_eq_ok {n : Nat} {s : CStr} {toks : List Tok} (h : parseToks n s = .ok toks) :
    toks.length ≤ n ∧ ∀ t ∈ toks, t.Valid := by
  induction n generalizing s toks with
  | zero =>
    cases s with
    | nil => cases h; simp
    | cons c s => cases h
  | succ n ih =>
    cases s with
    | nil => cases h; simp
    | cons c s =>
      simp only [parseToks, bind_eq_ok] at h
      obtain ⟨⟨tok, rest⟩, ht, toks', hts, he⟩ := h
      obtain rfl : tok :: toks' = toks := by simpa using he
      obtain ⟨hl, hall⟩ := ih hts
      exact ⟨by simpa using hl, by simpa using ⟨parseTok_eq_ok ht, hall⟩⟩

/-- **What the parser returns**: at most `max` tokens, with well-formed keys. -/
theorem parsePath_eq_ok {max : Nat} {path : CStr} {toks : List Tok}
    (h : parsePath max path = .ok toks) : toks.length ≤ max ∧ ∀ t ∈ toks, t.Valid := by
  simp only [parsePath] at h
  split at h
  · cases h; simp
  · split at h
    · cases h
    · rw [bind_eq_ok] at h
      obtain ⟨⟨tok, rest⟩, ht, h⟩ := h
      rw [bind_eq_ok] at h
      obtain ⟨toks', hts, he⟩ := h
      obtain rfl : tok :: toks' = toks := by simpa using he
      obtain ⟨k, rfl, hk⟩ := parseKeyTok_eq_ok ht
      obtain ⟨hl, hall⟩ := parseToks_eq_ok hts
      exact ⟨by simp; omega, by simpa using ⟨hk, hall⟩⟩

/-! ## Printing -/

/-- The text of a step. -/
def Tok.print : Tok → CStr
  | .key k => '.' :: k
  | .index i => '[' :: ((if i < 0 then ['-'] else []) ++ dec i.natAbs ++ [']'])
  | .append => ['[', ']']

/-- The text of a path: its steps, without the dot in front of the first key. -/
def printPath (toks : List Tok) : CStr := (toks.flatMap Tok.print).tail

@[simp] theorem printPath_nil : printPath [] = [] := rfl

theorem printPath_key_cons (k : CStr) (toks : List Tok) :
    printPath (.key k :: toks) = k ++ toks.flatMap Tok.print := rfl

/-- The token lists a configuration file may use, in either position: keys and then possibly one
`[]`. -/
inductive FileToks : List Tok → Prop
  | nil : FileToks []
  | append : FileToks [.append]
  | key {k : CStr} {toks : List Tok} : IsKey k → FileToks toks → FileToks (.key k :: toks)

theorem parseKeyTok_append {k rest : CStr} (hk : IsKey k)
    (hr : ∀ c ∈ rest.head?, isKeyChar c = false) :
    parseKeyTok (k ++ rest) = .ok (.key k, rest) := by
  have ht : (k ++ rest).takeWhile isKeyChar = k := by
    rw [List.takeWhile_append_of_pos hk.all]
    cases rest with
    | nil => simp
    | cons c rest => simp [hr c (by simp)]
  have hd : (k ++ rest).dropWhile isKeyChar = rest := by
    rw [List.dropWhile_append_of_pos hk.all]
    cases rest with
    | nil => simp
    | cons c rest => simp [hr c (by simp)]
  have hl : ¬ k.length ≥ CFG_PATH_SEG_MAX := by
    have := hk.length_lt
    omega
  have hh : ((k ++ rest).head?.any isKeyStart) = true := by
    obtain ⟨c, k, rfl⟩ := List.exists_cons_of_ne_nil hk.ne_nil
    simpa using hk.head
  simp only [parseKeyTok, hh, ht, hd, Bool.not_true, Bool.false_eq_true, if_false, if_neg hl]

/-- A printed step never continues the key in front of it. -/
theorem FileToks.head_print {toks : List Tok} (h : FileToks toks) :
    ∀ c ∈ (toks.flatMap Tok.print).head?, isKeyChar c = false := by
  cases h with
  | nil => simp
  | append => simp [Tok.print]; decide
  | key _ _ => simp [Tok.print]; decide

theorem parseToks_print {n : Nat} {toks : List Tok} (h : FileToks toks) (hn : toks.length ≤ n) :
    parseToks n (toks.flatMap Tok.print) = .ok toks := by
  induction h generalizing n with
  | nil => cases n <;> rfl
  | append =>
    obtain ⟨n, rfl⟩ : ∃ m, n = m + 1 := ⟨n - 1, by simp at hn; omega⟩
    cases n <;> rfl
  | @key k toks hk hts ih =>
    obtain ⟨n, rfl⟩ : ∃ m, n = m + 1 := ⟨n - 1, by simp at hn; omega⟩
    have hkey : parseTok ('.' :: (k ++ toks.flatMap Tok.print)) =
        .ok (.key k, toks.flatMap Tok.print) := by
      simp [parseTok, parseKeyTok_append hk hts.head_print]
    simp only [List.flatMap_cons, Tok.print, List.cons_append, parseToks, hkey, ok_bind,
      ih (by simpa using hn), pure_eq_ok]

/-- **Printed file paths are read back.** -/
theorem parsePath_printPath {m : Nat} {k : CStr} {toks : List Tok}
    (h : FileToks (.key k :: toks)) (hn : toks.length < m) :
    parsePath m (printPath (.key k :: toks)) = .ok (.key k :: toks) := by
  cases h with
  | key hk hts =>
    have hne : k ++ toks.flatMap Tok.print ≠ [] := by simp [hk.ne_nil]
    have hm : m ≠ 0 := by omega
    simp only [printPath_key_cons, parsePath, if_neg hne, if_neg hm,
      parseKeyTok_append hk hts.head_print, ok_bind,
      parseToks_print hts (n := m - 1) (by omega), pure_eq_ok]

theorem FileToks.valid {toks : List Tok} (h : FileToks toks) : ∀ t ∈ toks, t.Valid := by
  induction h with
  | nil => simp
  | append => simp [Tok.Valid]
  | key hk _ ih => exact List.forall_mem_cons.mpr ⟨hk, ih⟩

theorem FileToks.toksFileOk {toks : List Tok} (h : FileToks toks) : toksFileOk toks = .ok () := by
  induction h with
  | nil => rfl
  | append => rfl
  | key _ _ ih => exact ih

theorem pathFileOk_printPath {k : CStr} {toks : List Tok} (h : FileToks (.key k :: toks))
    (hn : toks.length < CFG_PATH_DEPTH_MAX) : pathFileOk (printPath (.key k :: toks)) = .ok () := by
  rw [pathFileOk, parsePath_printPath h hn]
  exact h.toksFileOk

/-- The bytes of a printed file path. -/
theorem FileToks.mem_print {toks : List Tok} (h : FileToks toks) :
    ∀ c ∈ toks.flatMap Tok.print, isKeyChar c ∨ c = '.' ∨ c = '[' ∨ c = ']' := by
  induction h with
  | nil => simp
  | append => simp [Tok.print]
  | key hk _ ih =>
    intro c hc
    simp only [List.flatMap_cons, Tok.print, List.cons_append, List.mem_cons, List.mem_append] at hc
    rcases hc with rfl | hc | hc
    · simp
    · exact Or.inl (hk.all c hc)
    · exact ih c hc

end Netrec
