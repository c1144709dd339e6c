import Netrec.CLib.Lines
import Netrec.Cfg.Tree

/-!
# Configuration files

A configuration file is a list of assignments `path = value`, one a line. Dumping writes one line
for each string of the tree, its value quoted; loading reads line by line and writes each
assignment into the tree. A file made of assignments, printed as the dumper prints them, is loaded
as the sequence of writes it stands for.

## Main definitions

* `quote`, `unquote`: quoted values
* `dumpNode`, `cfgDumpFile`: the dumper
* `parseValue`, `loadLine`, `cfgLoad`: the loader
* `Assign`, `assignText`, `setAll`: assignments, their text and the writes they stand for

## Main results

* `unquote_quote`: quoted values are read back
* `loadLine_line`: a printed assignment is a write
* `cfgLoad_assignText`: a printed file is a sequence of writes
-/

namespace Netrec

open CLib

/-! ## Dumping -/

/-- How `quote` writes a byte. -/
def escape (c : Char) : CStr :=
  if c = '\\' ∨ c = '"' then ['\\', c]
  else if c = '\n' then ['\\', 'n']
  else if c = '\t' then ['\\', 't']
  else [c]

/-- `quote`. -/
def quote (s : CStr) : CStr := '"' :: (s.flatMap escape ++ ['"'])

/-- A line of the dump, without its newline. -/
def assignLine (path val : CStr) : CStr := path ++ ' ' :: '=' :: ' ' :: quote val

/-- The array loop of `dump_node`. -/
def dumpArr (path : CStr) : List CfgNode → Except Errno CStr
  | [] => .ok []
  | c :: cs =>
    if c.type ≠ .str then .error .EOPNOTSUPP
    else do
      let rest ← dumpArr path cs
      return assignLine (path ++ ['[', ']']) (c.val.getD []) ++ '\n' :: rest

/-- The path of a child. -/
def childPath (path name : CStr) : CStr := if path = [] then name else path ++ '.' :: name

mutual

/-- `dump_node` with a path buffer of `sz` bytes: the text it writes. -/
def dumpNode (sz : Nat) (path : CStr) : CfgNode → Except Errno CStr
  | ⟨.str, _, val, _⟩ => .ok (assignLine path (val.getD []) ++ ['\n'])
  | ⟨.arr, _, _, cs⟩ => dumpArr path cs
  | ⟨.obj, _, _, cs⟩ => dumpObj sz path cs

/-- The object loop of `dump_node`. -/
def dumpObj (sz : Nat) (path : CStr) : List CfgNode → Except Errno CStr
  | [] => .ok []
  | c :: cs =>
    if (childPath path (c.name.getD [])).length ≥ sz then .error .E2BIG
    else do
      let text ← dumpNode sz (childPath path (c.name.getD [])) c
      let rest ← dumpObj sz path cs
      return text ++ rest

end

/-- `cfg_dump_file`: the text it writes. -/
def cfgDumpFile (cfg : CfgNode) : Except Errno CStr := dumpNode 512 [] cfg

/-! ## Loading -/

/-- The byte an escape stands for. -/
def unescape (c : Char) : Char := if c = 'n' then '\n' else if c = 't' then '\t' else c

/-- The loop of `parse_value` after the opening quote: the value and the text behind the closing
quote. -/
def unquote : CStr → Except Errno (CStr × CStr)
  | [] => .error .EINVAL
  | c :: src =>
    if c = '"' then .ok ([], src)
    else if c = '\\' then
      match src with
      | [] => .error .EINVAL
      | e :: src => do
        let (val, rest) ← unquote src
        return (unescape e :: val, rest)
    else do
      let (val, rest) ← unquote src
      return (c :: val, rest)

/-- `parse_value`. -/
def parseValue (src : CStr) : Except Errno CStr :=
  let src := trim src
  if src = [] then .ok []
  else if src.head? ≠ some '"' then .ok (trim (src.takeWhile (· ≠ '#')))
  else do
    let (val, rest) ← unquote src.tail
    if trim rest ≠ [] ∧ (trim rest).head? ≠ some '#' then .error .EINVAL else .ok val

/-- `load_line`; the tree of a failed load is freed. -/
def loadLine (cfg : CfgNode) (line : CStr) : Except Errno CfgNode :=
  let key := trim line
  if key = [] ∨ key.head? = some '#' then .ok cfg
  else
    match splitAtChar '=' key with
    | none => .error .EINVAL
    | some (key, eq) =>
      if trim key = [] then .error .EINVAL
      else do
        pathFileOk (trim key)
        let val ← parseValue (trim eq)
        match cfgSetStr cfg (trim key) val with
        | (none, cfg) => .ok cfg
        | (some e, _) => .error e

/-- One round of the loop of `cfg_load`: the line buffer, and whether `fgets` has hit the end. -/
def loadRound (cfg : CfgNode) (l : CStr × Bool) : Except Errno CfgNode :=
  if '\n' ∉ l.1 ∧ !l.2 then .error .E2BIG else loadLine cfg (trimEol l.1)

/-- `cfg_load` of a file with the given content. -/
def cfgLoad (text : CStr) : Except Errno CfgNode :=
  (fgetsAll 4096 text).foldlM loadRound cfgInit

/-! ## Quoted values -/

theorem unquote_escape (c : Char) (s : CStr) :
    unquote (escape c ++ s) = do
      let (val, rest) ← unquote s
      return (c :: val, rest) := by
  by_cases h₁ : c = '\\' ∨ c = '"'
  · have hu : unescape c = c := by rcases h₁ with rfl | rfl <;> decide
    simp [escape, h₁, unquote, hu]
  · obtain ⟨hb, hq⟩ := not_or.mp h₁
    by_cases h₂ : c = '\n'
    · subst h₂
      rfl
    · by_cases h₃ : c = '\t'
      · subst h₃
        rfl
      · rw [escape, if_neg h₁, if_neg h₂, if_neg h₃, List.singleton_append, unquote.eq_def]
        simp [hb, hq]

/-- **Quoted values are read back.** -/
theorem unquote_quote (s rest : CStr) : unquote ((quote s).tail ++ rest) = .ok (s, rest) := by
  unfold quote
  induction s with
  | nil => rw [unquote.eq_def]; simp
  | cons c s ih =>
    simp only [List.tail_cons, List.append_assoc] at ih
    simp only [List.tail_cons, List.flatMap_cons, List.append_assoc]
    rw [unquote_escape, ih]
    rfl

theorem newline_notMem_escape (c : Char) : '\n' ∉ escape c := by
  unfold escape
  split_ifs with h₁ h₂ h₃
  · rcases h₁ with rfl | rfl <;> decide
  · decide
  · decide
  · simpa using Ne.symm h₂

theorem nul_notMem_escape {c : Char} (h : c ≠ '\x00') : '\x00' ∉ escape c := by
  unfold escape
  split_ifs with h₁ h₂ h₃
  · rcases h₁ with rfl | rfl <;> decide
  · decide
  · decide
  · simpa using Ne.symm h

theorem newline_notMem_quote (s : CStr) : '\n' ∉ quote s := by
  simp [quote, newline_notMem_escape]

theorem nul_notMem_quote {s : CStr} (h : '\x00' ∉ s) : '\x00' ∉ quote s := by
  have : ∀ c ∈ s, '\x00' ∉ escape c := fun c hc =>
    nul_notMem_escape fun e => h (e ▸ hc)
  simpa [quote] using this

/-- Each byte takes at most two in a quoted value. -/
theorem length_quote_le (s : CStr) : (quote s).length ≤ 2 * s.length + 2 := by
  have h : ∀ c, (escape c).length ≤ 2 := fun c => by
    unfold escape
    split_ifs <;> simp
  have : (s.flatMap escape).length ≤ 2 * s.length := by
    induction s with
    | nil => simp
    | cons c s ih =>
      have := h c
      simp only [List.flatMap_cons, List.length_append, List.length_cons]
      omega
  simp only [quote, List.length_cons, List.length_append, List.length_nil]
  omega

theorem head?_quote (s : CStr) : (quote s).head? = some '"' := rfl

theorem getLast?_quote (s : CStr) : (quote s).getLast? = some '"' := by
  rw [quote, ← List.cons_append, List.getLast?_concat]

theorem trim_quote (s : CStr) : trim (quote s) = quote s := by
  refine trim_eq_self (fun c hc => ?_) fun c hc => ?_
  · rw [← Option.some.inj ((head?_quote s).symm.trans hc)]
    decide
  · rw [← Option.some.inj ((getLast?_quote s).symm.trans hc)]
    decide

theorem parseValue_quote (s : CStr) : parseValue (quote s) = .ok s := by
  have hu := unquote_quote s []
  rw [List.append_nil] at hu
  have hne : quote s ≠ [] := by simp [quote]
  simp only [parseValue, trim_quote, if_neg hne, head?_quote, ne_eq, not_true_eq_false, if_false,
    hu, ok_bind, trim_nil, false_and]

/-! ## Printed files -/

/-- An assignment: the tokens of its path and its value. -/
abbrev Assign := List Tok × CStr

/-- An assignment that a file can hold. -/
structure Assign.Printable (a : Assign) : Prop where
  key : ∃ k toks, a.1 = .key k :: toks
  file : FileToks a.1
  length_le : a.1.length ≤ CFG_PATH_DEPTH_MAX
  nul_notMem : '\x00' ∉ a.2

/-- The line of an assignment. -/
def Assign.line (a : Assign) : CStr := assignLine (printPath a.1) a.2

/-- The text of a list of assignments. -/
def assignText (as : List Assign) : CStr := as.flatMap fun a => a.line ++ ['\n']

/-- The write an assignment stands for. -/
def setAssign (cfg : CfgNode) (a : Assign) : Except Errno CfgNode :=
  match setToks a.2 a.1 cfg with
  | (none, cfg) => .ok cfg
  | (some e, _) => .error e

/-- The writes a list of assignments stands for. -/
def setAll (as : List Assign) (cfg : CfgNode) : Except Errno CfgNode := as.foldlM setAssign cfg

@[simp] theorem setAll_nil (cfg : CfgNode) : setAll [] cfg = .ok cfg := rfl

@[simp] theorem setAll_cons (a : Assign) (as : List Assign) (cfg : CfgNode) :
    setAll (a :: as) cfg = setAssign cfg a >>= setAll as := rfl

theorem setAll_append (as as' : List Assign) (cfg : CfgNode) :
    setAll (as ++ as') cfg = setAll as cfg >>= setAll as' :=
  List.foldlM_append

/-- The bytes of a path are none of those with a meaning in a line. -/
theorem path_byte {toks : List Tok} (h : FileToks toks) {c : Char} (hc : c ∈ printPath toks) :
    isBlank c = false ∧ c ≠ '=' ∧ c ≠ '#' ∧ c ≠ '\n' ∧ c ≠ '\x00' := by
  have hb := h.mem_print c (List.mem_of_mem_tail hc)
  refine ⟨?_, ?_, ?_, ?_, ?_⟩
  · by_contra hs
    rw [Bool.not_eq_false, isBlank, Bool.or_eq_true, decide_eq_true_eq, decide_eq_true_eq] at hs
    rcases hs with rfl | rfl <;> revert hb <;> decide
  all_goals
    rintro rfl
    revert hb
    decide

theorem Assign.Printable.printPath_ne_nil {a : Assign} (h : a.Printable) : printPath a.1 ≠ [] := by
  obtain ⟨k, toks, hk⟩ := h.key
  have hf := h.file
  rw [hk] at hf ⊢
  cases hf with
  | key hk' _ => simp [printPath_key_cons, hk'.ne_nil]

/-- **A printed assignment is a write.** -/
theorem loadLine_line {a : Assign} (h : a.Printable) (cfg : CfgNode) :
    loadLine cfg a.line = setAssign cfg a := by
  obtain ⟨c, p, hp⟩ := List.exists_cons_of_ne_nil h.printPath_ne_nil
  have hbyte := fun d (hd : d ∈ c :: p) => path_byte h.file (hp ▸ hd)
  have hline : a.line = (c :: p) ++ ' ' :: '=' :: ' ' :: quote a.2 := by
    rw [Assign.line, assignLine, hp]
  have htrim : trim a.line = a.line := by
    refine trim_eq_self (fun d hd => ?_) fun d hd => ?_
    · rw [hline, List.cons_append, List.head?_cons] at hd
      exact (hbyte d (by simp [← Option.some.inj hd])).1
    · rw [hline] at hd
      have : ((c :: p) ++ ' ' :: '=' :: ' ' :: quote a.2).getLast? = some '"' := by
        simp [List.getLast?_append, List.getLast?_cons, getLast?_quote]
      rw [← Option.some.inj (this.symm.trans hd)]
      decide
  have hsplit : splitAtChar '=' a.line = some (c :: p ++ [' '], ' ' :: quote a.2) := by
    rw [hline, show (c :: p) ++ ' ' :: '=' :: ' ' :: quote a.2 =
      (c :: p ++ [' ']) ++ '=' :: (' ' :: quote a.2) by simp]
    refine splitAtChar_append _ fun hm => ?_
    rcases List.mem_append.mp hm with hm | hm
    · exact (hbyte _ hm).2.1 rfl
    · simp at hm
  have hkey : trim (c :: p ++ [' ']) = c :: p := by
    rw [trim_append_blank _ (by decide) ⟨c, by simp, (hbyte c (by simp)).1⟩]
    refine trim_eq_self (fun d hd => ?_) fun d hd => ?_
    · exact (hbyte d (List.mem_of_mem_head? hd)).1
    · exact (hbyte d (List.mem_of_mem_getLast? hd)).1
  have hval : trim (' ' :: quote a.2) = quote a.2 := by
    rw [trim_cons_blank _ (by decide), trim_quote]
  have hne : ¬ (a.line = [] ∨ a.line.head? = some '#') := by
    rw [hline]
    simpa using (hbyte c (by simp)).2.2.1
  obtain ⟨k, toks, hk⟩ := h.key
  have hfile := h.file
  have hlen := h.length_le
  rw [hk] at hfile hlen hp
  simp only [List.length_cons] at hlen
  have hok := pathFileOk_printPath hfile (by omega)
  have hparse := parsePath_printPath hfile (m := CFG_PATH_DEPTH_MAX) (by omega)
  rw [hp] at hok hparse
  simp only [loadLine, htrim, if_neg hne, hsplit, hkey, hval, reduceCtorEq, if_false, hok, ok_bind,
    parseValue_quote, cfgSetStr, hparse, setAssign, hk]

theorem Assign.Printable.line_bytes {a : Assign} (h : a.Printable) :
    '\n' ∉ a.line ∧ '\x00' ∉ a.line := by
  have hp : ∀ c ∈ printPath a.1, c ≠ '\n' ∧ c ≠ '\x00' := fun c hc => (path_byte h.file hc).2.2.2
  have hq := newline_notMem_quote a.2
  have hn := nul_notMem_quote h.nul_notMem
  simp only [Assign.line, assignLine, List.mem_append, List.mem_cons, not_or]
  exact ⟨⟨fun hm => (hp _ hm).1 rfl, by decide, by decide, by decide, hq⟩,
    fun hm => (hp _ hm).2 rfl, by decide, by decide, by decide, hn⟩

theorem getLast?_line (a : Assign) : a.line.getLast? = some '"' := by
  simp [Assign.line, assignLine, List.getLast?_append, List.getLast?_cons, getLast?_quote]

theorem loadRound_line {a : Assign} (h : a.Printable) (cfg : CfgNode) :
    loadRound cfg (a.line ++ ['\n'], false) = setAssign cfg a := by
  have ht : trimEol (a.line ++ ['\n']) = a.line := by
    refine trimEol_line fun c hc => ?_
    rw [← Option.some.inj ((getLast?_line a).symm.trans hc)]
    decide
  simp [loadRound, ht, loadLine_line h]

/-- **A printed file is a sequence of writes.** -/
theorem cfgLoad_assignText {as : List Assign} (h : ∀ a ∈ as, a.Printable)
    (hl : ∀ a ∈ as, a.line.length + 1 ≤ 4095) : cfgLoad (assignText as) = setAll as cfgInit := by
  have hlines : ∀ l ∈ as.map Assign.line, '\n' ∉ l ∧ '\x00' ∉ l ∧ l.length + 2 ≤ 4096 := by
    intro l hm
    obtain ⟨a, ha, rfl⟩ := List.mem_map.mp hm
    obtain ⟨hn, h0⟩ := (h a ha).line_bytes
    have := hl a ha
    exact ⟨hn, h0, by omega⟩
  have hread : fgetsAll 4096 (assignText as) = as.map fun a => (a.line ++ ['\n'], false) := by
    simpa [assignText, List.flatMap_map, Function.comp_def] using fgetsAll_lines hlines
  rw [cfgLoad, hread, List.foldlM_map]
  -- every round of the loop is the write of its assignment
  clear hread hlines hl
  generalize cfgInit = cfg
  induction as generalizing cfg with
  | nil => rfl
  | cons a as ih =>
    simp only [List.foldlM_cons, loadRound_line (h a List.mem_cons_self), setAll_cons]
    exact congrArg _ (funext (ih fun b hb => h b (List.mem_cons_of_mem a hb)))

end Netrec
