import Netrec.Uci.Db

/-!
# The two ways to read a dump

A dump is read from a file with `fgets`, or from the captured output of `uci show` with a loop
of its own. Both hand lines to `db_load_line`, but they cut the text differently: the file loop
ends a line at `\n` only and has room for 1022 bytes in front of it, carriage returns included;
the buffer loop also ends a line at `\r` and has room for 1023 bytes. Each loop is first written
as a fold over the `\n`-lines of the text. The folds agree on clean lines, and on a text with any
other line the two readers never succeed with the same table.

## Main definitions

* `fileLine`, `bufLine`: what one loop or the other does with a line
* `CleanLine`, `CleanDump`: short lines with carriage returns at their ends only
* `EntryLine`, `Refused`: the form of a line, and the texts that a reader refuses

## Main results

* `dbLoadFile_eq`, `dbLoadBuf_eq`: both readers as folds over the lines
* `dbLoadFile_eq_none_iff`, `dbLoadBuf_eq_none_iff`: the texts they refuse
* `dbLoad_agree_iff`: the texts on which the readers agree
-/

namespace Netrec

open CLib

/-! ## The readers as folds over lines -/

/-- What `db_load_file` does with one line of the text. -/
def fileLine (db : UciDb) (l : CStr) : Except Errno UciDb :=
  if l.length ≥ 1023 then .error .E2BIG else dbLoadLine db l

/-- What `db_load_buf` does with one line of the text. -/
def bufLine (db : UciDb) (l : CStr) : Except Errno UciDb :=
  if l.length + 1 > 1024 then .error .E2BIG else dbLoadLine db l

/-- What `db_load_buf` does with the text up to a newline. -/
def bufLines (db : UciDb) (l : CStr) : Except Errno UciDb := (l.splitOn '\r').foldlM bufLine db

theorem dbLoadLine_trimEol (db : UciDb) {l l' : CStr} (h : trimEol l = trimEol l') :
    dbLoadLine db l = dbLoadLine db l' := by
  simp only [dbLoadLine, h]

@[simp] theorem dbLoadLine_nil (db : UciDb) : dbLoadLine db [] = .ok db := rfl

@[simp] theorem fileLine_nil (db : UciDb) : fileLine db [] = .ok db := rfl

@[simp] theorem bufLine_nil (db : UciDb) : bufLine db [] = .ok db := rfl

/-- **`db_load_file` is a loop over the lines of the file.** -/
theorem dbLoadFile_eq {t : CStr} (hn : '\x00' ∉ t) (db : UciDb) :
    dbLoadFile t db = (t.splitOn '\n').foldlM fileLine db := by
  have hround : dbLoadRound = lineRound .E2BIG dbLoadLine := rfl
  have hline : fileLine =
      fun db l => if 1024 ≤ l.length + 1 then .error .E2BIG else dbLoadLine db l := by
    funext db l
    simp [fileLine]
  rw [dbLoadFile, hround, hline]
  exact foldlM_fgetsAll (by omega) hn dbLoadLine_nil
    (fun db l => dbLoadLine_trimEol db (trimEol_append (.inl rfl))) db

/-- The bytes at which `db_load_buf` ends a line. -/
def isEol (c : Char) : Bool := c == '\n' || c == '\r'

/-- One round of the loop of `db_load_buf`. -/
theorem dbLoadBufLoop_round {n : Nat} {line rest : CStr} (db : UciDb)
    (hline : ∀ c ∈ line, isEol c = false) (hrest : ∀ c, rest.head? = some c → isEol c)
    (hne : line ++ rest ≠ []) :
    dbLoadBufLoop (n + 1) (line ++ rest) db =
      bufLine db line >>= dbLoadBufLoop n (skipEol rest) := by
  have hdef : (fun c : Char => decide (c ≠ '\n' ∧ c ≠ '\r')) = fun c => !isEol c := by
    funext c
    rw [Bool.eq_iff_iff]
    simp [isEol]
  have hnil : rest.takeWhile (fun c => !isEol c) = [] := by
    cases rest with
    | nil => rfl
    | cons c rest => simp [hrest c rfl]
  have htake : (line ++ rest).takeWhile (fun c => !isEol c) = line := by
    rw [List.takeWhile_append_of_pos fun c hc => by simp [hline c hc], hnil, List.append_nil]
  rw [dbLoadBufLoop, if_neg hne, hdef]
  simp only [htake, List.drop_left, bufLine]
  split_ifs <;> rfl

/-- The loop of `db_load_buf` sees the pieces between ends of line; the empty piece inside a
`\r\n` changes nothing. -/
theorem dbLoadBufLoop_eq {n : Nat} {s : CStr} (hn : s.length ≤ n) (db : UciDb) :
    dbLoadBufLoop n s db = (s.splitOnP isEol).foldlM bufLine db := by
  induction n generalizing s db with
  | zero =>
    rw [List.length_eq_zero_iff.mp (Nat.le_zero.mp hn)]
    rfl
  | succ n ih =>
    by_cases hs : s = []
    · subst hs
      rfl
    · obtain ⟨line, rest, rfl, hline, hrest⟩ : ∃ line rest, s = line ++ rest ∧
          (∀ c ∈ line, isEol c = false) ∧ ∀ c, rest.head? = some c → isEol c :=
        ⟨s.takeWhile fun c => !isEol c, s.dropWhile fun c => !isEol c,
          List.takeWhile_append_dropWhile.symm,
          fun c hc => by simpa using List.mem_takeWhile_imp hc, fun c hc => by
            have := List.head?_dropWhile_not (fun c => !isEol c) s
            simpa [hc] using this⟩
      rw [dbLoadBufLoop_round db hline hrest hs]
      cases rest with
      | nil =>
        rw [List.append_nil, List.splitOnP_eq_singleton hline, foldlM_singleton]
        cases bufLine db line with
        | error e => rfl
        | ok db' => cases n <;> rfl
      | cons c rest =>
        have hc : isEol c := hrest c rfl
        have hlen : rest.length ≤ n := by
          simp only [List.length_append, List.length_cons] at hn
          omega
        rw [List.splitOnP_append_cons line rest hc, List.splitOnP_eq_singleton hline,
          List.singleton_append, List.foldlM_cons]
        congr 1
        funext db'
        -- after the line, `\n`, `\r` or `\r\n` is passed over
        by_cases hcr : c = '\r' ∧ rest.head? = some '\n'
        · obtain ⟨rfl, hhead⟩ := hcr
          obtain ⟨rest, rfl⟩ := List.head?_eq_some_iff.mp hhead
          have hpiece : ('\n' :: rest).splitOnP isEol = [] :: rest.splitOnP isEol := by
            rw [List.splitOnP_cons_eq_if_modifyHead, if_pos (by rfl)]
          rw [hpiece, List.foldlM_cons, bufLine_nil, ok_bind]
          exact ih (s := rest) (Nat.le_of_succ_le hlen) db'
        · have hskip : skipEol (c :: rest) = rest := by
            simp only [isEol, Bool.or_eq_true, beq_iff_eq] at hc
            obtain rfl | rfl := hc
            · rfl
            · have hhead : rest.head? ≠ some '\n' := fun h => hcr ⟨rfl, h⟩
              simp [skipEol, hhead]
          rw [hskip]
          exact ih hlen db'

/-- The pieces `db_load_buf` sees: every line, cut once more at its carriage returns. -/
def pieces (t : CStr) : List CStr := (t.splitOn '\n').flatMap fun l => l.splitOn '\r'

theorem splitOnP_isEol (t : CStr) : t.splitOnP isEol = pieces t := splitOnP_or _ _ t

theorem dbLoadBuf_eq_pieces {t : CStr} (hn : '\x00' ∉ t) (db : UciDb) :
    dbLoadBuf t db = (pieces t).foldlM bufLine db := by
  rw [dbLoadBuf, cstr_eq_self hn, dbLoadBufLoop_eq le_rfl, splitOnP_isEol]

/-- **`db_load_buf` is a loop over the lines of the output.** -/
theorem dbLoadBuf_eq {t : CStr} (hn : '\x00' ∉ t) (db : UciDb) :
    dbLoadBuf t db = (t.splitOn '\n').foldlM bufLines db := by
  rw [dbLoadBuf_eq_pieces hn, pieces]
  generalize t.splitOn '\n' = ls
  induction ls generalizing db with
  | nil => rfl
  | cons l ls ih =>
    rw [List.flatMap_cons, List.foldlM_append, List.foldlM_cons]
    exact bind_congr ih

/-! ## Clean lines -/

/-- A line that both loops read the same way: with its carriage returns it fits `fgets`, and they
are all at its end. -/
def CleanLine (l : CStr) : Prop := l.length < 1023 ∧ '\r' ∉ trimEol l

instance (l : CStr) : Decidable (CleanLine l) := inferInstanceAs (Decidable (_ ∧ _))

/-- A dump of clean lines. -/
def CleanDump (t : CStr) : Prop := ∀ l ∈ t.splitOn '\n', CleanLine l

instance (t : CStr) : Decidable (CleanDump t) :=
  inferInstanceAs (Decidable (∀ l ∈ t.splitOn '\n', CleanLine l))

/-- Carriage returns at the end of a line only add empty pieces. -/
theorem bufLines_eq {l : CStr} (hl : '\n' ∉ l) (hr : '\r' ∉ trimEol l) (db : UciDb) :
    bufLines db l = bufLine db (trimEol l) := by
  unfold bufLines
  induction l using List.reverseRecOn with
  | nil => rfl
  | append_singleton l c ih =>
    have hc : c ≠ '\n' := fun e => hl (by simp [e])
    by_cases hcr : c = '\r'
    · subst hcr
      rw [trimEol_append (.inr rfl)] at hr ⊢
      have hpieces : (l ++ ['\r']).splitOn '\r' = l.splitOn '\r' ++ [[]] :=
        List.splitOnP_append_cons l [] rfl
      rw [hpieces, List.foldlM_append, ih (fun h => hl (List.mem_append_left _ h)) hr]
      cases bufLine db (trimEol l) <;> rfl
    · rw [trimEol_append_self hc hcr] at hr ⊢
      rw [splitOn_eq_singleton hr, foldlM_singleton]

theorem trimEol_trimEol (l : CStr) : trimEol (trimEol l) = trimEol l :=
  List.rdropWhile_idempotent _ l

theorem length_trimEol_le (l : CStr) : (trimEol l).length ≤ l.length :=
  (List.rdropWhile_prefix _ l).length_le

theorem fileLine_eq_bufLines {l : CStr} (hl : '\n' ∉ l) (h : CleanLine l) (db : UciDb) :
    fileLine db l = bufLines db l := by
  have hlen := length_trimEol_le l
  rw [bufLines_eq hl h.2, fileLine, if_neg (by have := h.1; omega), bufLine,
    if_neg (by have := h.1; omega)]
  exact dbLoadLine_trimEol db (trimEol_trimEol l).symm

/-- On a clean dump the readers agree. -/
theorem dbLoadFile_eq_dbLoadBuf {t : CStr} (hn : '\x00' ∉ t) (h : CleanDump t) (db : UciDb) :
    dbLoadFile t db = dbLoadBuf t db := by
  rw [dbLoadFile_eq hn, dbLoadBuf_eq hn]
  have hl : ∀ l ∈ t.splitOn '\n', ∀ db, fileLine db l = bufLines db l :=
    fun l hl => fileLine_eq_bufLines (notMem_of_mem_splitOn hl) (h l hl)
  generalize t.splitOn '\n' = ls at hl
  induction ls generalizing db with
  | nil => rfl
  | cons l ls ih =>
    rw [List.foldlM_cons, List.foldlM_cons, hl l List.mem_cons_self]
    exact bind_congr fun db' => ih db' fun l' hl' => hl l' (List.mem_cons_of_mem l hl')

/-! ## What a line gives -/

/-- What a line gives before it is stored: its names and its whole value. -/
structure UciEntry where
  pkg : CStr
  sect : CStr
  opt : CStr
  val : CStr
  isType : Bool
  deriving DecidableEq

namespace UciEntry

/-- The item that stores an entry. -/
def item (e : UciEntry) : UciItem := ⟨cpy _ e.pkg, cpy _ e.sect, cpy _ e.opt, cpy _ e.val, e.isType⟩

/-- The text in front of the `=`. -/
def key (e : UciEntry) : CStr := e.pkg ++ '.' :: e.sect ++ if e.isType then [] else '.' :: e.opt

/-- The names of an entry fit their fields. -/
def NamesFit (e : UciEntry) : Prop :=
  e.pkg.length < UCI_PKG_SZ ∧ e.sect.length < UCI_SECT_SZ ∧ e.opt.length < UCI_OPT_SZ

end UciEntry

/-- The entry of a line, if it is not empty. -/
def lineEntry (line : CStr) : Except Errno (Option UciEntry) :=
  let line := trimEol line
  if line = [] then .ok none
  else
    match splitAtChar '=' line with
    | none => .error .EINVAL
    | some (lhs, rhs) =>
      match splitAtChar '.' lhs with
      | none => .error .EINVAL
      | some (pkg, rest) =>
        let val := stripQuotes (rhs.dropWhile isBlank)
        if pkg.length + 1 > UCI_PKG_SZ then .error .E2BIG
        else
          match splitAtChar '.' rest with
          | some (sect, opt) =>
            if sect.length + 1 > UCI_SECT_SZ then .error .E2BIG
            else if opt.length + 1 > UCI_OPT_SZ then .error .E2BIG
            else .ok (some ⟨pkg, sect, opt, val, false⟩)
          | none =>
            if rest.length + 1 > UCI_SECT_SZ then .error .E2BIG
            else .ok (some ⟨pkg, rest, [], val, true⟩)

/-- `db_load_line` stores the entry of the line. -/
theorem dbLoadLine_eq (db : UciDb) (l : CStr) :
    dbLoadLine db l = lineEntry l >>= fun
      | none => .ok db
      | some e => dbAdd db e.pkg e.sect e.opt e.val e.isType := by
  simp only [dbLoadLine, lineEntry]
  by_cases hl : trimEol l = []
  · simp [hl]
  simp only [hl, if_false]
  cases splitAtChar '=' (trimEol l) with
  | none => rfl
  | some p =>
    cases hdot : splitAtChar '.' p.1 with
    | none => simp [hdot]
    | some q =>
      cases hdot2 : splitAtChar '.' q.2 <;> simp only [hdot, hdot2] <;> split_ifs <;> rfl

/-- The line of an entry is its key, an equals sign and its value, with blanks in front and quotes
around it; its names fit their fields, and a section has no option. -/
def EntryOf (line : CStr) (e : UciEntry) : Prop :=
  e.NamesFit ∧ (e.isType → e.opt = []) ∧
    ∃ rhs, line = e.key ++ '=' :: rhs ∧ e.val = stripQuotes (rhs.dropWhile isBlank)

/-- Where a line is cut: its key ends at the first `=`, its package and its section end at the
first `.` of what is left. -/
def UciEntry.Cut (e : UciEntry) : Prop := '=' ∉ e.key ∧ '.' ∉ e.pkg ∧ '.' ∉ e.sect

/-- A line `package.section=type` or `package.section.option=value` whose names fit. -/
def EntryLine (line : CStr) : Prop := ∃ e : UciEntry, EntryOf line e ∧ e.Cut

/-- Only an empty line has no entry. -/
theorem lineEntry_eq_ok {l : CStr} {o : Option UciEntry} (h : lineEntry l = .ok o) :
    (trimEol l = [] ∧ o = none) ∨ ∃ e, o = some e ∧ EntryOf (trimEol l) e ∧ e.Cut := by
  simp only [lineEntry] at h
  by_cases hl : trimEol l = []
  · rw [if_pos hl] at h
    exact .inl ⟨hl, (Except.ok.inj h).symm⟩
  rw [if_neg hl] at h
  right
  cases heq : splitAtChar '=' (trimEol l) with
  | none => simp [heq] at h
  | some p =>
    cases hdot : splitAtChar '.' p.1 with
    | none => simp [heq, hdot] at h
    | some q =>
      have hline := splitAtChar_eq_some heq
      have hlhs := splitAtChar_eq_some hdot
      have hkey := notMem_of_splitAtChar heq
      rw [hlhs] at hkey
      have hpkg' := notMem_of_splitAtChar hdot
      cases hdot2 : splitAtChar '.' q.2 with
      | none =>
        simp only [heq, hdot, hdot2] at h
        split_ifs at h with hpkg hsect
        refine ⟨_, (Except.ok.inj h).symm,
          ⟨⟨Nat.le_of_not_lt hpkg, Nat.le_of_not_lt hsect, by simp⟩, fun _ => rfl, p.2, ?_, rfl⟩,
          by simpa [UciEntry.key] using hkey, hpkg', splitAtChar_eq_none.mp hdot2⟩
        simp [hline, hlhs, UciEntry.key]
      | some r =>
        have hrest := splitAtChar_eq_some hdot2
        rw [hrest] at hkey
        simp only [heq, hdot, hdot2] at h
        split_ifs at h with hpkg hsect hopt
        refine ⟨_, (Except.ok.inj h).symm, ⟨⟨Nat.le_of_not_lt hpkg, Nat.le_of_not_lt hsect,
          Nat.le_of_not_lt hopt⟩, fun he => Bool.noConfusion he, p.2, ?_, rfl⟩,
          by simpa [UciEntry.key] using hkey, hpkg', notMem_of_splitAtChar hdot2⟩
        simp [hline, hlhs, hrest, UciEntry.key]

/-- A line of that form is read. -/
theorem exists_lineEntry {l : CStr} (h : EntryLine (trimEol l)) :
    ∃ e, lineEntry l = .ok (some e) := by
  obtain ⟨e, ⟨⟨hpkg, hsect, hopt⟩, -, rhs, hline, -⟩, hkey, hpkg', hsect'⟩ := h
  have hne : trimEol l ≠ [] := by simp [hline]
  have heq : splitAtChar '=' (trimEol l) = some (e.key, rhs) := hline ▸ splitAtChar_append rhs hkey
  have hfits : ¬ e.pkg.length + 1 > UCI_PKG_SZ ∧ ¬ e.sect.length + 1 > UCI_SECT_SZ ∧
      ¬ e.opt.length + 1 > UCI_OPT_SZ :=
    ⟨Nat.not_lt_of_le hpkg, Nat.not_lt_of_le hsect, Nat.not_lt_of_le hopt⟩
  -- a section has one dot in its key, an option has two
  cases htype : e.isType with
  | true =>
    have hdot : splitAtChar '.' e.key = some (e.pkg, e.sect) := by
      simpa [UciEntry.key, htype] using splitAtChar_append e.sect hpkg'
    exact ⟨⟨e.pkg, e.sect, [], stripQuotes (rhs.dropWhile isBlank), true⟩,
      by simp only [lineEntry, hne, heq, hdot, splitAtChar_eq_none.mpr hsect', hfits, if_false]⟩
  | false =>
    have hdot : splitAtChar '.' e.key = some (e.pkg, e.sect ++ '.' :: e.opt) := by
      simpa [UciEntry.key, htype] using splitAtChar_append (e.sect ++ '.' :: e.opt) hpkg'
    exact ⟨⟨e.pkg, e.sect, e.opt, stripQuotes (rhs.dropWhile isBlank), false⟩,
      by simp only [lineEntry, hne, heq, hdot, splitAtChar_append e.opt hsect', hfits, if_false]⟩

/-- `db_add` appends one item. -/
theorem dbAdd_eq_ok {db db' : UciDb} {e : UciEntry}
    (h : dbAdd db e.pkg e.sect e.opt e.val e.isType = .ok db') : db'.val = db.val ++ [e.item] := by
  unfold dbAdd at h
  split_ifs at h
  exact congrArg Subtype.val (Except.ok.inj h).symm

/-- A line that is read is empty or adds the item of its entry. -/
theorem dbLoadLine_eq_ok {db db' : UciDb} {l : CStr} (h : dbLoadLine db l = .ok db') :
    (trimEol l = [] ∧ db' = db) ∨
      ∃ e, lineEntry l = .ok (some e) ∧ EntryOf (trimEol l) e ∧ db'.val = db.val ++ [e.item] := by
  rw [dbLoadLine_eq, bind_eq_ok] at h
  obtain ⟨o, ho, h⟩ := h
  obtain ⟨hl, rfl⟩ | ⟨e, rfl, he, -⟩ := lineEntry_eq_ok ho
  · exact .inl ⟨hl, (Except.ok.inj h).symm⟩
  · exact .inr ⟨e, ho, he, dbAdd_eq_ok h⟩

/-! ## Lines that are not clean -/

/-- The items of a table are those of the entries of the given lines, the empty ones left out. -/
def ItemsOf (ls : List CStr) (its : List UciItem) : Prop :=
  ∃ es : List UciEntry, its = es.map UciEntry.item ∧
    List.Forall₂ EntryOf ((ls.map trimEol).filter fun l => !l.isEmpty) es

theorem ItemsOf.cons_of_eq_nil {l : CStr} {ls : List CStr} {its : List UciItem}
    (hl : trimEol l = []) (h : ItemsOf ls its) : ItemsOf (l :: ls) its := by
  obtain ⟨es, hits, hes⟩ := h
  exact ⟨es, hits, by simpa [hl] using hes⟩

theorem ItemsOf.cons {l : CStr} {ls : List CStr} {e : UciEntry} {its : List UciItem}
    (he : EntryOf (trimEol l) e) (h : ItemsOf ls its) : ItemsOf (l :: ls) (e.item :: its) := by
  obtain ⟨es, rfl, hes⟩ := h
  have hne : trimEol l ≠ [] := by
    obtain ⟨-, -, rhs, hline, -⟩ := he
    simp [hline]
  exact ⟨e :: es, rfl, by simpa [hne] using ⟨he, hes⟩⟩

/-- A loop that reads lines adds the items of their entries. -/
theorem foldlM_itemsOf {f : UciDb → CStr → Except Errno UciDb}
    (hf : ∀ {db l db'}, f db l = .ok db' → dbLoadLine db l = .ok db') {ls : List CStr}
    {db db' : UciDb} (h : ls.foldlM f db = .ok db') :
    ∃ its, db'.val = db.val ++ its ∧ ItemsOf ls its := by
  induction ls generalizing db with
  | nil =>
    obtain rfl := Except.ok.inj h
    exact ⟨[], by simp, [], rfl, .nil⟩
  | cons l ls ih =>
    rw [List.foldlM_cons, bind_eq_ok] at h
    obtain ⟨db₁, h₁, h⟩ := h
    obtain ⟨its, hits, hls⟩ := ih h
    obtain ⟨hl, rfl⟩ | ⟨e, -, he, hdb⟩ := dbLoadLine_eq_ok (hf h₁)
    · exact ⟨its, hits, hls.cons_of_eq_nil hl⟩
    · exact ⟨e.item :: its, by simp [hits, hdb], hls.cons he⟩

theorem dbLoadLine_of_fileLine {db db' : UciDb} {l : CStr} (h : fileLine db l = .ok db') :
    l.length < 1023 ∧ dbLoadLine db l = .ok db' := by
  unfold fileLine at h
  split_ifs at h with hlen
  exact ⟨Nat.lt_of_not_le hlen, h⟩

theorem dbLoadLine_of_bufLine {db db' : UciDb} {l : CStr} (h : bufLine db l = .ok db') :
    dbLoadLine db l = .ok db' := by
  unfold bufLine at h
  split_ifs at h
  exact h

/-- A file that is read has no line of 1023 bytes. -/
theorem forall_lt_of_foldlM_fileLine {ls : List CStr} {db db' : UciDb}
    (h : ls.foldlM fileLine db = .ok db') : ∀ l ∈ ls, l.length < 1023 := by
  induction ls generalizing db with
  | nil => simp
  | cons l ls ih =>
    rw [List.foldlM_cons, bind_eq_ok] at h
    obtain ⟨db₁, h₁, h⟩ := h
    exact List.forall_mem_cons.mpr ⟨(dbLoadLine_of_fileLine h₁).1, ih h⟩

/-- The bytes of an item. -/
def UciItem.chars (it : UciItem) : CStr := it.pkg.val ++ it.sect.val ++ it.opt.val ++ it.val.val

theorem mem_of_mem_stripQuotes {s : CStr} {c : Char} (h : c ∈ stripQuotes s) : c ∈ s := by
  unfold stripQuotes at h
  split_ifs at h
  · exact List.mem_of_mem_tail (List.mem_of_mem_dropLast h)
  · exact h

/-- An item holds no byte that its line does not have. -/
theorem mem_line_of_mem_chars {line : CStr} {e : UciEntry} (h : EntryOf line e) {c : Char}
    (hc : c ∈ e.item.chars) : c ∈ line := by
  obtain ⟨-, hopt, rhs, rfl, hval⟩ := h
  simp only [UciItem.chars, UciEntry.item, List.mem_append] at hc
  obtain ((hc | hc) | hc) | hc := hc
  · have := mem_of_mem_cpy hc
    simp [UciEntry.key, this]
  · have := mem_of_mem_cpy hc
    simp [UciEntry.key, this]
  · have hmem := mem_of_mem_cpy hc
    cases htype : e.isType with
    | true => simp [hopt htype] at hmem
    | false => simp [UciEntry.key, htype, hmem]
  · have := mem_of_mem_stripQuotes (hval ▸ mem_of_mem_cpy hc)
    simp [(List.dropWhile_suffix _).subset this]

/-- The names of a `NUL`-free line are stored whole. -/
theorem mem_chars_of_mem_key {line : CStr} {e : UciEntry} (h : EntryOf line e)
    (hn : '\x00' ∉ line) {c : Char} (hc : c ∈ e.key) : c = '.' ∨ c ∈ e.item.chars := by
  obtain ⟨⟨hpkg, hsect, hopt⟩, -, rhs, rfl, -⟩ := h
  have hkey : '\x00' ∉ e.key := fun h => hn (List.mem_append_left _ h)
  simp only [UciEntry.key, List.mem_append, List.mem_cons, not_or] at hkey hc
  have hpkg' := cpy_of_fits hkey.1.1 hpkg
  have hsect' := cpy_of_fits hkey.1.2.2 hsect
  simp only [UciItem.chars, UciEntry.item, hpkg', hsect', List.mem_append]
  obtain (hc | hc | hc) | hc := hc
  · simp [hc]
  · simp [hc]
  · simp [hc]
  · cases htype : e.isType with
    | true => simp [htype] at hc
    | false =>
      simp only [htype, Bool.false_eq_true, if_false, List.mem_cons, not_or] at hc hkey
      rw [cpy_of_fits hkey.2.2 hopt]
      obtain hc | hc := hc <;> simp [hc]

/-- Items, one for each line that is not empty. -/
theorem ItemsOf.length {ls : List CStr} {its : List UciItem} (h : ItemsOf ls its) :
    its.length = (ls.flatMap fun l => [trimEol l]).countP fun l => !l.isEmpty := by
  obtain ⟨es, rfl, hes⟩ := h
  rw [List.length_map, ← hes.length_eq, List.countP_eq_length_filter, ← List.map_eq_flatMap]

theorem ItemsOf.exists_entry {ls : List CStr} {its : List UciItem} (h : ItemsOf ls its) {l : CStr}
    (hl : l ∈ ls) (hne : trimEol l ≠ []) : ∃ e : UciEntry, EntryOf (trimEol l) e ∧ e.item ∈ its := by
  obtain ⟨es, rfl, hes⟩ := h
  have hmem : trimEol l ∈ (ls.map trimEol).filter fun l => !l.isEmpty := by
    simpa [hne] using ⟨l, hl, rfl⟩
  obtain ⟨e, he, hle⟩ := exists_of_forall₂ hes hmem
  exact ⟨e, hle, List.mem_map_of_mem he⟩

theorem ItemsOf.exists_line {ls : List CStr} {its : List UciItem} (h : ItemsOf ls its)
    {it : UciItem} (hit : it ∈ its) : ∃ l ∈ ls, ∃ e : UciEntry, EntryOf (trimEol l) e ∧ e.item = it := by
  obtain ⟨es, rfl, hes⟩ := h
  obtain ⟨e, he, rfl⟩ := List.mem_map.mp hit
  obtain ⟨l', hl', hle⟩ := exists_of_forall₂ hes.flip he
  obtain ⟨l, hl, rfl⟩ := List.mem_map.mp (List.mem_of_mem_filter hl')
  exact ⟨l, hl, e, hle, rfl⟩

theorem not_isEol_of_mem_piece {t p : CStr} (h : p ∈ pieces t) {c : Char} (hc : c ∈ p) :
    isEol c = false := by
  rw [← splitOnP_isEol] at h
  exact (mem_of_mem_splitOnP h c hc).2

theorem trimEol_piece {t p : CStr} (h : p ∈ pieces t) : trimEol p = p := by
  unfold trimEol
  rw [List.rdropWhile_eq_self_iff]
  intro hne
  simpa [isEol] using not_isEol_of_mem_piece h (List.getLast_mem hne)

/-- A line that is not empty has a piece that is not empty. -/
theorem countP_trimEol_le (l : CStr) :
    ([trimEol l].countP fun p => !p.isEmpty) ≤ (l.splitOn '\r').countP fun p => !p.isEmpty := by
  by_cases hl : trimEol l = []
  · simp [hl]
  · have hlast := (trimEol_getLast hl).2
    have hmem := (List.rdropWhile_prefix _ l).subset (List.getLast_mem hl)
    have hone : ([trimEol l].countP fun p => !p.isEmpty) = 1 := by simp [hl]
    rw [hone]
    exact one_le_countP_splitOnP ⟨_, hmem, by simpa using hlast⟩

/-- When the two readers add the same items, no line has two pieces that are not empty. -/
theorem countP_splitOn_le_one {t : CStr} {its : List UciItem} (hf : ItemsOf (t.splitOn '\n') its)
    (hb : ItemsOf (pieces t) its) {l : CStr} (hl : l ∈ t.splitOn '\n') :
    ((l.splitOn '\r').countP fun p => !p.isEmpty) ≤ 1 := by
  have hpieces : ((pieces t).flatMap fun p => [trimEol p]) = pieces t := by
    rw [← List.map_eq_flatMap]
    exact (List.map_congr_left fun p hp => trimEol_piece hp).trans (List.map_id _)
  have hlen := hf.length.symm.trans hb.length
  rw [hpieces, pieces, List.countP_flatMap, List.countP_flatMap] at hlen
  by_contra hlt
  refine absurd hlen (Nat.ne_of_lt (List.sum_lt_sum _ _ (fun l _ => countP_trimEol_le l)
    ⟨l, hl, lt_of_le_of_lt ?_ (Nat.lt_of_not_le hlt)⟩))
  exact List.countP_le_length

/-- A carriage return between two other bytes makes two pieces that are not empty. -/
theorem two_le_countP_splitOn {l₁ l₂ : CStr} {c d : Char} (hc : c ∈ l₁) (hc' : c ≠ '\r')
    (hd : d ∈ l₂) (hd' : d ≠ '\r') :
    2 ≤ ((l₁ ++ '\r' :: l₂).splitOn '\r').countP fun p => !p.isEmpty := by
  have hsplit : (l₁ ++ '\r' :: l₂).splitOn '\r' = l₁.splitOn '\r' ++ l₂.splitOn '\r' :=
    List.splitOnP_append_cons l₁ l₂ rfl
  rw [hsplit, List.countP_append]
  exact Nat.add_le_add (one_le_countP_splitOnP ⟨c, hc, by simpa using hc'⟩)
    (one_le_countP_splitOnP ⟨d, hd, by simpa using hd'⟩)

/-- A carriage return in the value of a line, with something behind it, makes two pieces. -/
theorem two_le_countP_of_mem_value {l key rhs : CStr} (hl : trimEol l = key ++ '=' :: rhs)
    (hr : '\r' ∈ rhs) : 2 ≤ (l.splitOn '\r').countP fun p => !p.isEmpty := by
  obtain ⟨r₁, r₂, rfl, -⟩ := List.eq_append_cons_of_mem hr
  have hne : trimEol l ≠ [] := by simp [hl]
  have hlast := (trimEol_getLast hne).2
  have hr₂ : r₂ ≠ [] := by
    rintro rfl
    simp [hl] at hlast
  have hd : (trimEol l).getLast hne ∈ r₂ := by
    simp only [hl]
    rw [List.getLast_append_of_ne_nil _ (by simp), List.getLast_cons (by simp),
      List.getLast_append_of_ne_nil _ (by simp), List.getLast_cons hr₂]
    exact List.getLast_mem hr₂
  obtain ⟨eol, hsplit⟩ : ∃ eol, l = (key ++ '=' :: r₁) ++ '\r' :: (r₂ ++ eol) := by
    obtain ⟨eol, heol⟩ : trimEol l <+: l := List.rdropWhile_prefix _ l
    rw [hl] at heol
    exact ⟨eol, by rw [← heol]; simp⟩
  rw [hsplit]
  exact two_le_countP_splitOn (c := '=') (by simp) (by decide) (List.mem_append_left _ hd) hlast

/-- **Texts with other lines.** When both readers succeed with the same table, every line is
clean. -/
theorem cleanDump_of_eq_ok {t : CStr} {db : UciDb} (hn : '\x00' ∉ t)
    (hf : dbLoadFile t .empty = .ok db) (hb : dbLoadBuf t .empty = .ok db) : CleanDump t := by
  rw [dbLoadFile_eq hn] at hf
  rw [dbLoadBuf_eq_pieces hn] at hb
  obtain ⟨its, hits, hfile⟩ := foldlM_itemsOf (fun h => (dbLoadLine_of_fileLine h).2) hf
  obtain ⟨its', hits', hbuf⟩ := foldlM_itemsOf dbLoadLine_of_bufLine hb
  obtain rfl : its' = its := by
    rw [hits] at hits'
    exact (List.append_cancel_left hits').symm
  intro l hl
  refine ⟨forall_lt_of_foldlM_fileLine hf l hl, fun hr => ?_⟩
  have hnl : '\x00' ∉ trimEol l := fun h =>
    hn (mem_of_mem_splitOnP hl _ ((List.rdropWhile_prefix _ l).subset h)).1
  obtain ⟨e, he, hmem⟩ := hfile.exists_entry hl (List.ne_nil_of_mem hr)
  -- the buffer loop never stores a carriage return, so there is none in the name
  have hchars : '\r' ∉ e.item.chars := by
    obtain ⟨p, hp, e', he', heq⟩ := hbuf.exists_line hmem
    intro hc
    rw [← heq] at hc
    have hmem := mem_line_of_mem_chars he' hc
    rw [trimEol_piece hp] at hmem
    exact absurd (not_isEol_of_mem_piece hp hmem) (by decide)
  have hkey : '\r' ∉ e.key := fun h => by
    obtain h | h := mem_chars_of_mem_key he hnl h
    · exact absurd h (by decide)
    · exact hchars h
  obtain ⟨-, -, rhs, hline, -⟩ := he
  have hrhs : '\r' ∈ rhs := by
    rw [hline] at hr
    simpa [hkey] using hr
  have htwo := two_le_countP_of_mem_value hline hrhs
  have hone := countP_splitOn_le_one hfile hbuf hl
  omega

/-! ## Texts that are refused -/

/-- The lines a reader refuses: one has no room in its buffer, one is neither empty nor an entry, or
there are more entries than items. -/
def Refused (room : Nat) (ls : List CStr) : Prop :=
  (∃ l ∈ ls, room < l.length) ∨ (∃ l ∈ ls, trimEol l ≠ [] ∧ ¬ EntryLine (trimEol l)) ∨
    NR_UCI_ITEM_MAX < ls.countP fun l => !(trimEol l).isEmpty

theorem exists_dbLoadLine_iff {db : UciDb} {l : CStr} :
    (∃ db', dbLoadLine db l = .ok db') ↔
      trimEol l = [] ∨ (EntryLine (trimEol l) ∧ db.val.length < NR_UCI_ITEM_MAX) := by
  constructor
  · rintro ⟨db', h⟩
    rw [dbLoadLine_eq, bind_eq_ok] at h
    obtain ⟨o, ho, h⟩ := h
    obtain ⟨hl, -⟩ | ⟨e, rfl, he⟩ := lineEntry_eq_ok ho
    · exact .inl hl
    · simp only [dbAdd] at h
      split_ifs at h with hroom
      exact .inr ⟨⟨e, he⟩, hroom⟩
  · rintro (hl | ⟨hl, hroom⟩)
    · have hnil : trimEol l = trimEol [] := hl
      exact ⟨db, dbLoadLine_trimEol db hnil⟩
    · obtain ⟨e, he⟩ := exists_lineEntry hl
      rw [dbLoadLine_eq, he]
      exact ⟨_, dif_pos hroom⟩

/-- A line that is read adds an item unless it is empty. -/
theorem length_dbLoadLine {db db' : UciDb} {l : CStr} (h : dbLoadLine db l = .ok db') :
    db'.val.length = db.val.length + [l].countP fun l => !(trimEol l).isEmpty := by
  obtain ⟨hl, rfl⟩ | ⟨e, -, ⟨-, -, rhs, hline, -⟩, hdb⟩ := dbLoadLine_eq_ok h
  · simp [hl]
  · simp [hdb, hline]

/-- A loop reads its lines when each of them can be read and their entries fit the table. -/
theorem exists_foldlM_iff {f : UciDb → CStr → Except Errno UciDb} {room : Nat}
    (hf : ∀ db l, f db l = if room < l.length then .error .E2BIG else dbLoadLine db l)
    {ls : List CStr} {db : UciDb} :
    (∃ db', ls.foldlM f db = .ok db') ↔
      (∀ l ∈ ls, l.length ≤ room ∧ (trimEol l ≠ [] → EntryLine (trimEol l))) ∧
        db.val.length + (ls.countP fun l => !(trimEol l).isEmpty) ≤ NR_UCI_ITEM_MAX := by
  induction ls generalizing db with
  | nil => simpa using db.2
  | cons l ls ih =>
    have hcount : (([l] ++ ls).countP fun l => !(trimEol l).isEmpty) =
        ([l].countP fun l => !(trimEol l).isEmpty) + ls.countP fun l => !(trimEol l).isEmpty :=
      List.countP_append
    have hstep : (∃ db', (l :: ls).foldlM f db = .ok db') ↔
        ∃ db₁, f db l = .ok db₁ ∧ ∃ db', ls.foldlM f db₁ = .ok db' := by
      simp only [List.foldlM_cons, bind_eq_ok]
      tauto
    rw [hstep, List.forall_mem_cons, ← List.singleton_append, hcount, hf]
    -- the rest is read into the table that the first line leaves, which has its entry more
    constructor
    · rintro ⟨db₁, h₁, h⟩
      obtain ⟨hls, hfits⟩ := ih.mp h
      split_ifs at h₁ with hlen
      rw [length_dbLoadLine h₁] at hfits
      refine ⟨⟨⟨Nat.le_of_not_lt hlen, fun hne => ?_⟩, hls⟩, by omega⟩
      exact ((exists_dbLoadLine_iff.mp ⟨db₁, h₁⟩).resolve_left hne).1
    · rintro ⟨⟨⟨hlen, hl⟩, hls⟩, hfits⟩
      obtain ⟨db₁, h₁⟩ : ∃ db', dbLoadLine db l = .ok db' := by
        refine exists_dbLoadLine_iff.mpr (or_iff_not_imp_left.mpr fun hne => ⟨hl hne, ?_⟩)
        have hone : ([l].countP fun l => !(trimEol l).isEmpty) = 1 := by simp [hne]
        omega
      refine ⟨db₁, by rw [if_neg (Nat.not_lt_of_le hlen), h₁], ih.mpr ⟨hls, ?_⟩⟩
      rw [length_dbLoadLine h₁]
      omega

theorem toOption_foldlM_eq_none_iff {f : UciDb → CStr → Except Errno UciDb} {room : Nat}
    (hf : ∀ db l, f db l = if room < l.length then .error .E2BIG else dbLoadLine db l)
    {ls : List CStr} : (ls.foldlM f .empty).toOption = none ↔ Refused room ls := by
  have hok : (ls.foldlM f .empty).toOption = none ↔ ¬ ∃ db, ls.foldlM f .empty = .ok db := by
    cases ls.foldlM f .empty <;> simp [Except.toOption]
  have hempty : (Table.empty : UciDb).val.length = 0 := rfl
  rw [hok, exists_foldlM_iff hf, hempty, Nat.zero_add, not_and_or, Refused, ← or_assoc]
  refine or_congr ?_ Nat.not_le
  simp only [not_forall, not_and_or, Nat.not_le, exists_prop, and_or_left, exists_or]

/-- The texts `db_load_file` refuses. -/
theorem dbLoadFile_eq_none_iff {t : CStr} (hn : '\x00' ∉ t) :
    (dbLoadFile t .empty).toOption = none ↔ Refused 1022 (t.splitOn '\n') := by
  rw [dbLoadFile_eq hn]
  exact toOption_foldlM_eq_none_iff fun _ _ => rfl

/-- The texts `db_load_buf` refuses. -/
theorem dbLoadBuf_eq_none_iff {t : CStr} (hn : '\x00' ∉ t) :
    (dbLoadBuf t .empty).toOption = none ↔ Refused 1023 (pieces t) := by
  rw [dbLoadBuf_eq_pieces hn]
  refine toOption_foldlM_eq_none_iff fun db l => ?_
  simp only [bufLine, gt_iff_lt, Nat.lt_succ_iff, Nat.succ_le_iff]

/-- **The two readers of a dump agree on a text exactly when it is clean, or it has something that
each of them refuses**: a line without room in the buffer, one that is no entry, or an entry too
many. -/
theorem dbLoad_agree_iff {t : CStr} (hn : '\x00' ∉ t) :
    (dbLoadFile t .empty).toOption = (dbLoadBuf t .empty).toOption ↔
      CleanDump t ∨ (Refused 1022 (t.splitOn '\n') ∧ Refused 1023 (pieces t)) := by
  rw [← dbLoadFile_eq_none_iff hn, ← dbLoadBuf_eq_none_iff hn]
  constructor
  · intro h
    cases hf : dbLoadFile t .empty with
    | error e => exact .inr ⟨rfl, by rw [← h, hf]; rfl⟩
    | ok db =>
      cases hb : dbLoadBuf t .empty with
      | error e => simp [hf, hb, Except.toOption] at h
      | ok db' =>
        obtain rfl : db = db' := by simpa [hf, hb, Except.toOption] using h
        exact .inl (cleanDump_of_eq_ok hn hf hb)
  · rintro (h | ⟨hf, hb⟩)
    · rw [dbLoadFile_eq_dbLoadBuf hn h]
    · rw [hf, hb]

/-- A dump of two sections. -/
def lanDump : CStr :=
  unlines ["network.lan=interface", "network.lan.ipaddr='10.0.0.1'\r", "network.wan=interface"]

theorem lanDump_agree :
    '\x00' ∉ lanDump ∧
      (dbLoadFile lanDump .empty).toOption = (dbLoadBuf lanDump .empty).toOption :=
  ⟨by decide +kernel, (dbLoad_agree_iff (by decide +kernel)).mpr (.inl (by decide +kernel))⟩

/-- A dump with a carriage return inside a quoted value. -/
def crDump : CStr := unlines ["network.lan=interface", "network.lan.ipaddr='10.0.0.1\r'"]

/-- A dump with one line of 1023 bytes. -/
def longDump : CStr := "network.lan.x=".toList ++ List.replicate 1009 'a'

/-- Only the file reader accepts the one, and only the other reader the other. -/
theorem dumps_disagree :
    ('\x00' ∉ crDump ∧ (dbLoadFile crDump .empty).toOption ≠ none ∧
      (dbLoadBuf crDump .empty).toOption = none) ∧
    '\x00' ∉ longDump ∧ (dbLoadFile longDump .empty).toOption = none ∧
      (dbLoadBuf longDump .empty).toOption ≠ none := by
  decide +kernel

end Netrec
