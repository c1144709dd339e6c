import Netrec.CLib.Chain
import Netrec.CLib.Lines
import Netrec.State

/-!
# UCI dumps

The output of `uci show` is a list of lines `package.section=type` and
`package.section.option=value`. It is read either from a file or from the captured output of the
command, into a bounded table of items with fixed-size fields. Lookups return the last value
given to an option.

## Main definitions

* `UciItem`, `UciDb`: the table
* `stripQuotes`, `nextWord`, `valueHasToken`: values and their words
* `dbLoadLine`, `dbLoadFile`, `dbLoadBuf`, `UciSource.load`: reading a dump
* `dbGet`: looking up an option
-/

namespace Netrec

open CLib

/-- `NR_UCI_ITEM_MAX`. -/
abbrev NR_UCI_ITEM_MAX : Nat := 1024

/-- `UCI_PKG_SZ`. -/
abbrev UCI_PKG_SZ : Nat := 16

/-- `UCI_SECT_SZ`. -/
abbrev UCI_SECT_SZ : Nat := 64

/-- `UCI_OPT_SZ`. -/
abbrev UCI_OPT_SZ : Nat := 64

/-- `UCI_VAL_SZ`. -/
abbrev UCI_VAL_SZ : Nat := 256

/-- `struct uci_item`. -/
structure UciItem where
  pkg : CBuf UCI_PKG_SZ
  sect : CBuf UCI_SECT_SZ
  opt : CBuf UCI_OPT_SZ
  val : CBuf UCI_VAL_SZ
  isType : Bool
  deriving DecidableEq

/-- `struct uci_db`. -/
abbrev UciDb := Table NR_UCI_ITEM_MAX UciItem

/-! ## Values -/

/-- `strip_quotes`. -/
def stripQuotes (s : CStr) : CStr :=
  if s.length ≥ 2 ∧ s.head? = some '\x27' ∧ s.getLast? = some '\x27' then s.tail.dropLast else s

/-- `next_word`: the next blank-separated word and the rest; `none` at the end. -/
def nextWord (sz : Nat) (src : CStr) : Except Errno (Option (CStr × CStr)) :=
  let s := src.dropWhile isBlank
  if s = [] then .ok none
  else
    let word := s.takeWhile fun c => !isBlank c
    if word.length + 1 > sz then .error .E2BIG
    else .ok (some (word, s.drop word.length))

/-- The loop of `value_has_token`, for at most `n` words. -/
def hasTokenLoop (token : CStr) : Nat → CStr → Bool
  | 0, _ => false
  | n + 1, p =>
    match nextWord UCI_VAL_SZ p with
    | .ok (some (word, rest)) => word = token || hasTokenLoop token n rest
    | _ => false

/-- `value_has_token`; a value has no more words than bytes. -/
def valueHasToken (val token : CStr) : Bool := hasTokenLoop token val.length val

/-- A loop `while (next_word(&p, word, sizeof(word)) > 0)` that works on each word, for at most `n`
words. -/
def foldWordsLoop {σ : Type} (sz : Nat) (f : σ → CStr → Except Errno σ) :
    Nat → CStr → σ → Except Errno σ
  | 0, _, st => .ok st
  | n + 1, p, st =>
    match nextWord sz p with
    | .error e => .error e
    | .ok none => .ok st
    | .ok (some (word, rest)) => do
      let st ← f st word
      foldWordsLoop sz f n rest st

/-- The same loop over all words of a value. -/
def foldWords {σ : Type} (sz : Nat) (f : σ → CStr → Except Errno σ) (src : CStr) (st : σ) :
    Except Errno σ :=
  foldWordsLoop sz f src.length src st

/-! ## Reading a dump -/

/-- `db_add`. -/
def dbAdd (db : UciDb) (pkg sect opt val : CStr) (isType : Bool) : Except Errno UciDb :=
  if h : db.val.length < NR_UCI_ITEM_MAX then
    .ok ⟨db.val ++ [⟨cpy _ pkg, cpy _ sect, cpy _ opt, cpy _ val, isType⟩], by simpa using h⟩
  else .error .E2BIG

/-- `db_load_line`. -/
def dbLoadLine (db : UciDb) (line : CStr) : Except Errno UciDb :=
  let line := trimEol line
  if line = [] then .ok db
  else
    match splitAtChar '=' line with
    | none => .error .EINVAL
    | some (lhs, rhs) =>
      match splitAtChar '.' lhs with
      | none => .error .EINVAL
      | some (pkg, rest) =>
        let val := stripQuotes (rhs.dropWhile isBlank)
        if pkg.length + 1 > UCI_PKG_SZ then .error .E2BIG
        else
          match splitAtChar '.' rest with
          | some (sect, opt) =>
            if sect.length + 1 > UCI_SECT_SZ then .error .E2BIG
            else if opt.length + 1 > UCI_OPT_SZ then .error .E2BIG
            else dbAdd db pkg sect opt val false
          | none =>
            if rest.length + 1 > UCI_SECT_SZ then .error .E2BIG
            else dbAdd db pkg rest [] val true

/-- One round of the loop of `db_load_file`. -/
def dbLoadRound (db : UciDb) (l : CStr × Bool) : Except Errno UciDb :=
  if '\n' ∉ l.1 ∧ !l.2 then .error .E2BIG else dbLoadLine db l.1

/-- `db_load_file` of a file with the given content. -/
def dbLoadFile (text : CStr) (db : UciDb) : Except Errno UciDb :=
  (fgetsAll 1024 text).foldlM dbLoadRound db

/-- The text after an end of line: `\r`, `\n` or both. -/
def skipEol (s : CStr) : CStr :=
  let s := if s.head? = some '\r' then s.tail else s
  if s.head? = some '\n' then s.tail else s

/-- The loop of `db_load_buf`, for at most `n` lines. -/
def dbLoadBufLoop : Nat → CStr → UciDb → Except Errno UciDb
  | 0, _, db => .ok db
  | n + 1, s, db =>
    if s = [] then .ok db
    else
      let line := s.takeWhile fun c => c ≠ '\n' ∧ c ≠ '\r'
      if line.length + 1 > 1024 then .error .E2BIG
      else do
        let db ← dbLoadLine db line
        dbLoadBufLoop n (skipEol (s.drop line.length)) db

/-- `db_load_buf`; every round consumes a byte. -/
def dbLoadBuf (buf : CStr) (db : UciDb) : Except Errno UciDb :=
  dbLoadBufLoop (cstr buf).length (cstr buf) db

/-- Where a dump comes from: a file, or the captured output of `uci show`; opening the file or
running the command may fail. -/
inductive UciSource
  | file (content : Except Errno CStr)
  | live (output : Except Errno CStr)

/-- `db_load_file` or `db_load_live`, into an empty table. -/
def UciSource.load : UciSource → Except Errno UciDb
  | file content => do
    let text ← content
    dbLoadFile text .empty
  | live output => do
    let buf ← output
    dbLoadBuf buf .empty

/-! ## Lookups -/

/-- Whether an item gives the option `opt` of a section. -/
def UciItem.isOpt (pkg sect opt : CStr) (it : UciItem) : Bool :=
  !it.isType && it.pkg.val = pkg && it.sect.val = sect && it.opt.val = opt

/-- `db_get`: the last value given to an option. -/
def dbGet (db : UciDb) (pkg sect opt : CStr) : Option CStr :=
  (db.val.reverse.find? (UciItem.isOpt pkg sect opt)).map fun it => it.val.val

/-- Whether an item is a section of the given type. -/
def UciItem.isSect (pkg type : CStr) (it : UciItem) : Bool :=
  it.isType && it.pkg.val = pkg && it.val.val = type

end Netrec
