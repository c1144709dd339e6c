import Mathlib.Data.List.DropRight
import Mathlib.Data.List.TakeWhile
import Mathlib.Tactic

/-!
# C strings and fixed-size buffers

A C string is the list of its bytes before the terminator; the byte `b` is written as the
character with code `b`. A `char[sz]` field is a buffer `CBuf sz`: at most `sz - 1` bytes, none of
them `NUL`, so that a field that overflows or is unterminated cannot be built. Formatted printing,
the blank-trimming idioms and the character classes of the C locale are the ones the program
uses.

## Main definitions

* `CStr`, `cstr`: byte strings, and the C string a byte buffer holds
* `CBuf sz`, `cpy`: fixed-size fields, and the truncating copy into one
* `Table n α`: an array of at most `n` entries with its count
* `sprintf`, `dec`: formatted printing and decimal numerals
* `isBlank`, `isSpace`, `isDigit`, `isAlpha`, `isAlnum`: character classes of the C locale
* `trim`: a string without its leading and trailing blanks
* `splitAtChar`: the string before and after the first occurrence of a byte
* `words`: the blank-separated words of a string

## Main results

* `cpy_val`: copying a field into a field of the same size keeps it
* `cpy_of_fits`: a `NUL`-free string that fits is copied whole
* `trim_eq_self`, `splitAtChar_append`: trimming and splitting a string built from its parts
-/

namespace CLib

/-- A byte string. -/
abbrev CStr := List Char

/-- The C string a buffer holds: its bytes before the first `NUL`. -/
def cstr (s : CStr) : CStr := s.takeWhile (· != '\x00')

theorem nul_notMem_cstr (s : CStr) : '\x00' ∉ cstr s := by
  intro h
  simpa using List.mem_takeWhile_imp h

theorem cstr_eq_self {s : CStr} (h : '\x00' ∉ s) : cstr s = s := by
  refine List.takeWhile_eq_self_iff.mpr fun c hc => ?_
  simp only [bne_iff_ne, ne_eq]
  rintro rfl
  exact h hc

/-! ## Fixed-size buffers -/

/-- A `char[sz]` field holding a C string. -/
structure CBuf (sz : Nat) where
  val : CStr
  length_lt : val.length < sz
  nul_notMem : '\x00' ∉ val
  deriving DecidableEq

namespace CBuf

variable {sz : Nat}

instance : CoeOut (CBuf sz) CStr := ⟨val⟩

@[ext] theorem ext {a b : CBuf sz} (h : a.val = b.val) : a = b := by
  cases a
  cases b
  cases h
  rfl

theorem val_inj {a b : CBuf sz} : a.val = b.val ↔ a = b :=
  ⟨ext, fun h => h ▸ rfl⟩

/-- The zeroed field. -/
def empty [NeZero sz] : CBuf sz := ⟨[], Nat.pos_of_neZero sz, by simp⟩

@[simp] theorem empty_val [NeZero sz] : (empty : CBuf sz).val = [] := rfl

instance [NeZero sz] : Inhabited (CBuf sz) := ⟨empty⟩

theorem val_eq_nil_iff [NeZero sz] {a : CBuf sz} : a.val = [] ↔ a = empty := by
  rw [← val_inj, empty_val]

end CBuf

-- the sizes of the fields in use, as constants that a definition can name
instance neZero_16 : NeZero 16 := ⟨by decide⟩
instance neZero_32 : NeZero 32 := ⟨by decide⟩
instance neZero_64 : NeZero 64 := ⟨by decide⟩
instance neZero_128 : NeZero 128 := ⟨by decide⟩
instance neZero_256 : NeZero 256 := ⟨by decide⟩

/-- `snprintf(dst, sz, "%s", src)`: the C string of `src`, cut to `sz - 1` bytes. -/
def cpy (sz : Nat) [NeZero sz] (src : CStr) : CBuf sz where
  val := (cstr src).take (sz - 1)
  length_lt := by
    have := Nat.pos_of_neZero sz
    simp only [List.length_take]
    omega
  nul_notMem h := nul_notMem_cstr src (List.mem_of_mem_take h)

/-- A `NUL`-free string that fits is copied whole. -/
theorem cpy_of_fits {sz : Nat} [NeZero sz] {s : CStr} (hn : '\x00' ∉ s) (hl : s.length < sz) :
    (cpy sz s).val = s := by
  simp only [cpy, cstr_eq_self hn]
  exact List.take_of_length_le (by omega)

theorem mem_of_mem_cpy {sz : Nat} [NeZero sz] {s : CStr} {c : Char} (h : c ∈ (cpy sz s).val) :
    c ∈ s :=
  (List.takeWhile_prefix _).subset (List.mem_of_mem_take h)

@[simp] theorem cpy_val {sz : Nat} [NeZero sz] (b : CBuf sz) : cpy sz b.val = b :=
  CBuf.ext (cpy_of_fits b.nul_notMem b.length_lt)

@[simp] theorem cpy_nil {sz : Nat} [NeZero sz] : cpy sz [] = CBuf.empty :=
  CBuf.ext (by simp [cpy, cstr])

theorem cpy_ne_nil {sz : Nat} [NeZero sz] {s : CStr} (hn : '\x00' ∉ s) (hs : s ≠ [])
    (hsz : 2 ≤ sz) : (cpy sz s).val ≠ [] := by
  simp only [cpy, cstr_eq_self hn, ne_eq, List.take_eq_nil_iff]
  rintro (h | h)
  · omega
  · exact hs h

/-- An array of at most `n` entries together with its count. -/
abbrev Table (n : Nat) (α : Type) := {l : List α // l.length ≤ n}

/-- The array with no entry in use. -/
def Table.empty {n : Nat} {α : Type} : Table n α := ⟨[], Nat.zero_le n⟩

@[simp] theorem Table.empty_val {n : Nat} {α : Type} : (Table.empty : Table n α).val = [] := rfl

/-! ## Character classes of the C locale -/

/-- `' '` or `'\t'`. -/
def isBlank (c : Char) : Bool := c = ' ' || c = '\t'

/-- `isspace` in the C locale. -/
def isSpace (c : Char) : Bool :=
  c = ' ' || c = '\t' || c = '\n' || c = '\x0b' || c = '\x0c' || c = '\r'

/-- `isdigit`. -/
def isDigit (c : Char) : Bool := '0' ≤ c && c ≤ '9'

/-- `isalpha` in the C locale. -/
def isAlpha (c : Char) : Bool := ('A' ≤ c && c ≤ 'Z') || ('a' ≤ c && c ≤ 'z')

/-- `isalnum` in the C locale. -/
def isAlnum (c : Char) : Bool := isAlpha c || isDigit c

/-! ## Printing -/

/-- `%u` and, on non-negative values, `%d`. -/
def dec (n : Nat) : CStr := Nat.toDigits 10 n

theorem isDigit_of_mem_dec {n : Nat} {c : Char} (h : c ∈ dec n) : isDigit c :=
  Nat.isDigit_of_mem_toDigits (by omega) (by omega) h

theorem dec_ne_nil (n : Nat) : dec n ≠ [] := Nat.toDigits_ne_nil

/-- `sprintf(fmt, args...)`: each conversion of `fmt` is replaced by the text of its argument. -/
def sprintf : CStr → List CStr → CStr
  | [], _ => []
  | [c], _ => [c]
  | c :: d :: fmt, args =>
    if c = '%' then args.headD [] ++ sprintf fmt args.tail else c :: sprintf (d :: fmt) args

/-! ## Trimming and splitting -/

/-- The string without its leading and trailing blanks. -/
def trim (s : CStr) : CStr := (s.dropWhile isBlank).rdropWhile isBlank

/-- A string that neither starts nor ends with a blank is its own trimming. -/
theorem trim_eq_self {s : CStr} (hh : ∀ c, s.head? = some c → isBlank c = false)
    (hl : ∀ c, s.getLast? = some c → isBlank c = false) : trim s = s := by
  unfold trim
  have h : s.dropWhile isBlank = s := by
    cases s with
    | nil => rfl
    | cons c s => simp [hh c rfl]
  rw [h, List.rdropWhile_eq_self_iff]
  intro hne
  simp [hl _ (List.getLast?_eq_some_getLast hne)]

theorem trim_nil : trim [] = [] := rfl

theorem mem_of_mem_trim {s : CStr} {c : Char} (h : c ∈ trim s) : c ∈ s :=
  (List.dropWhile_suffix _).subset ((List.rdropWhile_prefix _ _).subset h)

theorem trim_cons_blank {c : Char} (s : CStr) (h : isBlank c) : trim (c :: s) = trim s := by
  unfold trim
  rw [List.dropWhile_cons_of_pos h]

theorem trim_append_blank {c : Char} (s : CStr) (h : isBlank c)
    (hs : ∃ d ∈ s, isBlank d = false) : trim (s ++ [c]) = trim s := by
  unfold trim
  have hne : s.dropWhile isBlank ≠ [] := by
    obtain ⟨d, hd, hb⟩ := hs
    intro he
    have := List.dropWhile_eq_nil_iff.mp he d hd
    simp [hb] at this
  rw [List.dropWhile_append, if_neg (by simpa using hne), List.rdropWhile_concat_pos _ _ _ h]

/-- The blank-separated words of a string. -/
def words (s : CStr) : List CStr := (s.splitOnP isBlank).filter (· ≠ [])

/-- `strchr`: the string before and after the first `c`, if there is one. -/
def splitAtChar (c : Char) : CStr → Option (CStr × CStr)
  | [] => none
  | d :: s =>
    if d = c then some ([], s) else (splitAtChar c s).map fun p => (d :: p.1, p.2)

theorem splitAtChar_append {c : Char} {s : CStr} (t : CStr) (h : c ∉ s) :
    splitAtChar c (s ++ c :: t) = some (s, t) := by
  induction s with
  | nil => simp [splitAtChar]
  | cons d s ih =>
    have hd : d ≠ c := fun e => h (e ▸ List.mem_cons_self)
    simp [splitAtChar, hd, ih fun hs => h (List.mem_cons_of_mem d hs)]

theorem splitAtChar_eq_some {c : Char} {s l r : CStr} (h : splitAtChar c s = some (l, r)) :
    s = l ++ c :: r := by
  induction s generalizing l with
  | nil => simp [splitAtChar] at h
  | cons d s ih =>
    rw [splitAtChar] at h
    split_ifs at h with hd
    · obtain ⟨rfl, rfl⟩ : [] = l ∧ s = r := by simpa using h
      simp [hd]
    · obtain ⟨⟨l', r'⟩, h', he⟩ := Option.map_eq_some_iff.mp h
      obtain ⟨rfl, rfl⟩ : d :: l' = l ∧ r' = r := by simpa using he
      simp [ih h']

theorem notMem_of_splitAtChar {c : Char} {s l r : CStr} (h : splitAtChar c s = some (l, r)) :
    c ∉ l := by
  induction s generalizing l with
  | nil => simp [splitAtChar] at h
  | cons d s ih =>
    rw [splitAtChar] at h
    split_ifs at h with hd
    · obtain ⟨rfl, -⟩ : [] = l ∧ s = r := by simpa using h
      exact List.not_mem_nil
    · obtain ⟨⟨l', r'⟩, h', he⟩ := Option.map_eq_some_iff.mp h
      obtain ⟨rfl, rfl⟩ : d :: l' = l ∧ r' = r := by simpa using he
      simp [ih h', Ne.symm hd]

theorem splitAtChar_eq_none {c : Char} {s : CStr} : splitAtChar c s = none ↔ c ∉ s := by
  induction s with
  | nil => simp [splitAtChar]
  | cons d s ih =>
    rw [splitAtChar]
    split_ifs with hd
    · simp [hd]
    · simp [ih, Ne.symm hd]

end CLib
