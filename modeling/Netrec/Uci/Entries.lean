import Mathlib.Data.List.ReduceOption
import Netrec.CLib.Words
import Netrec.Uci.Build
import Netrec.Uci.Sources

/-!
# Dumps as lists of entries

A dump that is read gives one entry for each line that is not empty, with its whole value. The
table stores the entries with their values cut to 255 bytes; their names are never cut. Loops over
the words of a value are folds over the list of its words.

## Main definitions

* `UciSource.dump`: the entries of a dump
* `UciDump`: a table together with the entries it stores
* `DumpData.whole`: the whole value of an option

## Main results

* `load_eq_ok_iff`: a table stores the entries of its dump
* `UciDump.get_eq`: a lookup finds the whole value, cut to 255 bytes
* `foldWords_eq`: a loop over words as a fold
-/

namespace Netrec

open CLib

/-! ## Entries -/

namespace UciEntry

/-- The names of an entry fit their fields, and there is no `NUL` in it. -/
structure Ok (e : UciEntry) : Prop where
  fit : e.NamesFit
  pkg : '\x00' ∉ e.pkg
  sect : '\x00' ∉ e.sect
  opt : '\x00' ∉ e.opt
  val : '\x00' ∉ e.val

variable {e : UciEntry}

theorem Ok.item_pkg (h : e.Ok) : e.item.pkg.val = e.pkg := cpy_of_fits h.pkg h.fit.1

theorem Ok.item_sect (h : e.Ok) : e.item.sect.val = e.sect := cpy_of_fits h.sect h.fit.2.1

theorem Ok.item_opt (h : e.Ok) : e.item.opt.val = e.opt := cpy_of_fits h.opt h.fit.2.2

theorem Ok.item_val (h : e.Ok) : e.item.val.val = e.val.take (UCI_VAL_SZ - 1) := by
  simp only [item, cpy, cstr_eq_self h.val]

/-- Whether an entry gives the option `opt` of a section. -/
def isOpt (pkg sect opt : CStr) (e : UciEntry) : Bool :=
  !e.isType && e.pkg = pkg && e.sect = sect && e.opt = opt

theorem Ok.isOpt_item (h : e.Ok) (pkg sect opt : CStr) :
    e.item.isOpt pkg sect opt = e.isOpt pkg sect opt := by
  simp only [UciItem.isOpt, isOpt, h.item_pkg, h.item_sect, h.item_opt]
  rfl

end UciEntry

theorem EntryOf.ok {line : CStr} {e : UciEntry} (h : EntryOf line e) (hn : '\x00' ∉ line) :
    e.Ok := by
  obtain ⟨hfit, hopt, rhs, rfl, hval⟩ := h
  simp only [UciEntry.key, List.mem_append, List.mem_cons, not_or] at hn
  obtain ⟨⟨⟨hpkg, -, hsect⟩, hkey⟩, -, hrhs⟩ := hn
  refine ⟨hfit, hpkg, hsect, ?_, fun hc => hrhs ?_⟩
  · cases htype : e.isType with
    | true => simp [hopt htype]
    | false =>
      rw [htype] at hkey
      exact fun hc => hkey (List.mem_cons_of_mem _ hc)
  · exact (List.dropWhile_suffix _).subset (mem_of_mem_stripQuotes (hval ▸ hc))

theorem lineEntry_ok {l : CStr} {e : UciEntry} (h : lineEntry l = .ok (some e))
    (hn : '\x00' ∉ l) : e.Ok := by
  obtain ⟨-, h⟩ | ⟨e', he, h, -⟩ := lineEntry_eq_ok h
  · cases h
  · obtain rfl := Option.some.inj he
    exact h.ok fun hc => hn ((List.rdropWhile_prefix _ _).subset hc)

/-! ## Dumps -/

/-- Storing what a line gives. -/
def addEntry (db : UciDb) : Option UciEntry → Except Errno UciDb
  | none => .ok db
  | some e => dbAdd db e.pkg e.sect e.opt e.val e.isType

theorem addEntry_eq_ok_iff {db db' : UciDb} {o : Option UciEntry} :
    addEntry db o = .ok db' ↔ db.val.length + o.toList.length ≤ NR_UCI_ITEM_MAX ∧
      db'.val = db.val ++ o.toList.map UciEntry.item := by
  cases o with
  | none =>
    simp only [addEntry, Option.toList_none, List.length_nil, List.map_nil, List.append_nil,
      Except.ok.injEq]
    exact ⟨fun h => ⟨db.property, h ▸ rfl⟩, fun h => Subtype.ext h.2.symm⟩
  | some e =>
    simp only [addEntry, dbAdd, Option.toList_some, List.length_singleton, List.map_singleton]
    split_ifs with hlen
    · simp only [Except.ok.injEq]
      exact ⟨fun h => ⟨hlen, h ▸ rfl⟩, fun h => Subtype.ext h.2.symm⟩
    · exact ⟨fun h => absurd h (by simp), fun h => absurd h.1 hlen⟩

/-- A loop that stores what its lines give succeeds when all lines can be read and the table has
room for their entries. -/
theorem foldlM_addEntry {α : Type} {f : UciDb → α → Except Errno UciDb}
    {g : α → Except Errno (Option UciEntry)} (hf : ∀ db a, f db a = g a >>= addEntry db)
    {l : List α} {db db' : UciDb} :
    l.foldlM f db = .ok db' ↔ ∃ os, l.mapM g = .ok os ∧
      db.val.length + os.reduceOption.length ≤ NR_UCI_ITEM_MAX ∧
      db'.val = db.val ++ os.reduceOption.map UciEntry.item := by
  induction l generalizing db with
  | nil =>
    constructor
    · intro h
      obtain rfl := Except.ok.inj h
      exact ⟨[], rfl, by simpa using db.property, by simp⟩
    · rintro ⟨os, hos, -, h⟩
      obtain rfl := Except.ok.inj hos
      exact congrArg Except.ok (Subtype.ext (by simpa using h.symm))
  | cons a l ih =>
    have hreduce : ∀ o (os : List (Option UciEntry)),
        (o :: os).reduceOption = o.toList ++ os.reduceOption := by
      intro o os
      cases o <;> rfl
    rw [List.foldlM_cons, List.mapM_cons, hf]
    constructor
    · intro h
      simp only [bind_eq_ok, ih] at h
      obtain ⟨db₁, ⟨o, ho, hadd⟩, os, hos, hlen, hdb⟩ := h
      obtain ⟨-, hdb₁⟩ := addEntry_eq_ok_iff.mp hadd
      refine ⟨o :: os, by simp [ho, hos], ?_, ?_⟩
      · rw [hreduce, List.length_append, ← Nat.add_assoc]
        simpa [hdb₁] using hlen
      · rw [hdb, hdb₁, hreduce, List.map_append, List.append_assoc]
    · rintro ⟨_, hos, hlen, hdb⟩
      simp only [bind_eq_ok, pure_eq_ok, Except.ok.injEq] at hos
      obtain ⟨o, ho, os, hos, rfl⟩ := hos
      rw [hreduce, List.length_append, ← Nat.add_assoc] at hlen
      rw [hreduce, List.map_append, ← List.append_assoc] at hdb
      have hroom : db.val.length + o.toList.length ≤ NR_UCI_ITEM_MAX := by omega
      simp only [bind_eq_ok, ih]
      refine ⟨⟨db.val ++ o.toList.map UciEntry.item, by simpa using hroom⟩,
        ⟨o, ho, addEntry_eq_ok_iff.mpr ⟨hroom, rfl⟩⟩, os, hos, by simpa using hlen, hdb⟩

/-- What `db_load_file` takes from one call of `fgets`. -/
def fileEntry (l : CStr × Bool) : Except Errno (Option UciEntry) :=
  if '\n' ∉ l.1 ∧ !l.2 then .error .E2BIG else lineEntry l.1

/-- What `db_load_buf` takes from one line. -/
def bufEntry (l : CStr) : Except Errno (Option UciEntry) :=
  if l.length + 1 > 1024 then .error .E2BIG else lineEntry l

/-- The entries of a dump. -/
def UciSource.dump : UciSource → Except Errno (List UciEntry)
  | file content => do
    let text ← content
    let os ← (fgetsAll 1024 text).mapM fileEntry
    return os.reduceOption
  | live output => do
    let buf ← output
    let os ← (pieces (cstr buf)).mapM bufEntry
    return os.reduceOption

theorem dbLoadLine_eq_addEntry (db : UciDb) (l : CStr) :
    dbLoadLine db l = lineEntry l >>= addEntry db := by
  rw [dbLoadLine_eq]
  refine bind_congr fun o => ?_
  cases o <;> rfl

theorem dbLoadRound_eq (db : UciDb) (l : CStr × Bool) :
    dbLoadRound db l = fileEntry l >>= addEntry db := by
  unfold dbLoadRound fileEntry
  split_ifs
  · rfl
  · exact dbLoadLine_eq_addEntry db l.1

theorem bufLine_eq (db : UciDb) (l : CStr) : bufLine db l = bufEntry l >>= addEntry db := by
  unfold bufLine bufEntry
  split_ifs
  · rfl
  · exact dbLoadLine_eq_addEntry db l

/-- **A table stores the entries of its dump.** -/
theorem load_eq_ok_iff {src : UciSource} {db : UciDb} :
    src.load = .ok db ↔ ∃ es, src.dump = .ok es ∧ es.length ≤ NR_UCI_ITEM_MAX ∧
      db.val = es.map UciEntry.item := by
  have key : ∀ {α : Type} {f : UciDb → α → Except Errno UciDb}
      {g : α → Except Errno (Option UciEntry)}, (∀ db a, f db a = g a >>= addEntry db) →
      ∀ l : List α, l.foldlM f .empty = .ok db ↔
        ∃ es, (l.mapM g >>= fun os => .ok os.reduceOption) = .ok es ∧
          es.length ≤ NR_UCI_ITEM_MAX ∧ db.val = es.map UciEntry.item := by
    intro α f g hf l
    rw [foldlM_addEntry hf]
    simp only [bind_eq_ok, Table.empty_val, List.length_nil, Nat.zero_add, List.nil_append,
      Except.ok.injEq]
    constructor
    · rintro ⟨os, hos, hlen, hdb⟩
      exact ⟨_, ⟨os, hos, rfl⟩, hlen, hdb⟩
    · rintro ⟨_, ⟨os, hos, rfl⟩, hlen, hdb⟩
      exact ⟨os, hos, hlen, hdb⟩
  cases src with
  | file content =>
    cases content with
    | error e => simp [UciSource.load, UciSource.dump]
    | ok text => exact key dbLoadRound_eq _
  | live output =>
    cases output with
    | error e => simp [UciSource.load, UciSource.dump]
    | ok buf =>
      have hcstr : cstr (cstr buf) = cstr buf := cstr_eq_self (nul_notMem_cstr buf)
      have hload : UciSource.load (.live (.ok buf)) = (pieces (cstr buf)).foldlM bufLine .empty := by
        rw [← dbLoadBuf_eq_pieces (nul_notMem_cstr buf)]
        simp only [UciSource.load, ok_bind, dbLoadBuf, hcstr]
      rw [hload]
      exact key bufLine_eq _

/-- The entries of a dump are those of lines without `NUL`. -/
theorem mem_dump {src : UciSource} {es : List UciEntry} (h : src.dump = .ok es) {e : UciEntry}
    (he : e ∈ es) : ∃ l, '\x00' ∉ l ∧ lineEntry l = .ok (some e) := by
  have key : ∀ {α : Type} {g : α → Except Errno (Option UciEntry)} {l : List α},
      (∀ a ∈ l, ∀ o, g a = .ok o → ∃ l, '\x00' ∉ l ∧ lineEntry l = .ok o) →
      (l.mapM g >>= fun os => .ok os.reduceOption) = .ok es →
      ∃ l, '\x00' ∉ l ∧ lineEntry l = .ok (some e) := by
    intro α g l hg h
    rw [bind_eq_ok] at h
    obtain ⟨os, hos, h⟩ := h
    obtain rfl := Except.ok.inj h
    have hall := mapM_eq_ok.mp hos
    obtain ⟨a, ha, hR⟩ := exists_of_forall₂ hall.flip (List.reduceOption_mem_iff.mp he)
    exact hg a ha _ hR
  cases src with
  | file content =>
    simp only [UciSource.dump, bind_eq_ok] at h
    obtain ⟨text, -, h⟩ := h
    refine key (fun l hl o ho => ?_) (bind_eq_ok.mpr h)
    unfold fileEntry at ho
    split_ifs at ho
    exact ⟨l.1, nul_notMem_fgetsAll hl, ho⟩
  | live output =>
    simp only [UciSource.dump, bind_eq_ok] at h
    obtain ⟨buf, -, h⟩ := h
    refine key (fun l hl o ho => ?_) (bind_eq_ok.mpr h)
    unfold bufEntry at ho
    split_ifs at ho
    refine ⟨l, fun hc => nul_notMem_cstr buf ?_, ho⟩
    rw [← splitOnP_isEol] at hl
    exact (mem_of_mem_splitOnP hl _ hc).1

/-- A table and a list of entries. -/
structure DumpData where
  db : UciDb
  entries : List UciEntry

/-- A table together with the entries it stores. -/
structure UciDump extends DumpData where
  db_eq : db.val = entries.map UciEntry.item
  ok : ∀ e ∈ entries, e.Ok

/-- The dump that was read from a source. -/
def UciSource.Gives (src : UciSource) (d : UciDump) : Prop :=
  src.dump = .ok d.entries ∧ src.load = .ok d.db

theorem exists_gives {src : UciSource} {db : UciDb} (h : src.load = .ok db) :
    ∃ d : UciDump, src.Gives d ∧ d.db = db := by
  obtain ⟨es, hes, -, hdb⟩ := load_eq_ok_iff.mp h
  refine ⟨⟨⟨db, es⟩, hdb, fun e he => ?_⟩, ⟨hes, h⟩, rfl⟩
  obtain ⟨l, hl, he⟩ := mem_dump hes he
  exact lineEntry_ok he hl

/-! ## Lookups -/

/-- The whole value of an option: the last one given. -/
def DumpData.whole (d : DumpData) (pkg sect opt : CStr) : Option CStr :=
  (d.entries.reverse.find? (UciEntry.isOpt pkg sect opt)).map UciEntry.val

namespace UciDump

variable (d : UciDump)

/-- **A lookup finds the whole value, cut to 255 bytes.** -/
theorem get_eq (pkg sect opt : CStr) :
    dbGet d.db pkg sect opt = (d.whole pkg sect opt).map fun v => v.take (UCI_VAL_SZ - 1) := by
  have hfind : ∀ es : List UciEntry, (∀ e ∈ es, e.Ok) →
      (es.map UciEntry.item).find? (UciItem.isOpt pkg sect opt) =
        (es.find? (UciEntry.isOpt pkg sect opt)).map UciEntry.item := by
    intro es hes
    rw [List.find?_map]
    congr 1
    refine List.find?_congr fun e he => ?_
    exact (hes e he).isOpt_item pkg sect opt
  rw [dbGet, d.db_eq, ← List.map_reverse,
    hfind _ fun e he => d.ok e (List.mem_reverse.mp he), DumpData.whole, Option.map_map,
    Option.map_map]
  cases hf : d.entries.reverse.find? (UciEntry.isOpt pkg sect opt) with
  | none => rfl
  | some e =>
    have he := d.ok e (List.mem_reverse.mp (List.mem_of_find?_eq_some hf))
    simp only [Option.map_some, Function.comp_apply, he.item_val]

theorem whole_nul_notMem {pkg sect opt v : CStr} (h : d.whole pkg sect opt = some v) :
    '\x00' ∉ v := by
  obtain ⟨e, he, rfl⟩ := Option.map_eq_some_iff.mp h
  exact (d.ok e (List.mem_reverse.mp (List.mem_of_find?_eq_some he))).val

end UciDump

/-! ## Words -/

/-- **The next word is the first of the words, if it fits.** -/
theorem nextWord_eq (sz : Nat) (src : CStr) :
    match words src with
    | [] => nextWord sz src = .ok none
    | w :: ws => if w.length + 1 > sz then nextWord sz src = .error .E2BIG
        else ∃ rest, nextWord sz src = .ok (some (w, rest)) ∧ words rest = ws ∧
          rest.length < src.length := by
  cases hs : src.dropWhile isBlank with
  | nil =>
    rw [← words_dropWhile src, hs, words_nil]
    simp only [nextWord, hs, if_true]
  | cons c a =>
    obtain ⟨hword, hws⟩ := words_scan hs
    rw [hws]
    simp only [nextWord, hs, reduceCtorEq, if_false]
    split_ifs with hlen
    · rfl
    · have hdrop : (c :: a).drop ((c :: a).takeWhile fun d => !isBlank d).length =
          (c :: a).dropWhile fun d => !isBlank d := by
        nth_rewrite 2 [← @List.takeWhile_append_dropWhile _ (fun d => !isBlank d) (c :: a)]
        exact List.drop_left
      refine ⟨_, rfl, by rw [hdrop], ?_⟩
      have hle : (c :: a).length ≤ src.length := hs ▸ (List.dropWhile_suffix _).length_le
      have hpos := List.length_pos_iff.mpr hword.ne_nil
      have hcons : 0 < (c :: a).length := Nat.zero_lt_succ _
      rw [List.length_drop]
      omega

/-- **A loop over the words of a value is a fold over the list of its words.** -/
theorem foldWords_eq {σ : Type} (sz : Nat) (f : σ → CStr → Except Errno σ) (src : CStr) (st : σ) :
    foldWords sz f src st = (words src).foldlM (fun st w =>
      if w.length + 1 > sz then .error .E2BIG else f st w) st := by
  have key : ∀ n, ∀ src : CStr, src.length ≤ n → ∀ st, foldWordsLoop sz f n src st =
      (words src).foldlM (fun st w => if w.length + 1 > sz then .error .E2BIG else f st w) st := by
    intro n
    induction n with
    | zero =>
      intro src hn st
      obtain rfl := List.length_eq_zero_iff.mp (Nat.le_zero.mp hn)
      simp [foldWordsLoop]
    | succ n ih =>
      intro src hn st
      have hnext := nextWord_eq sz src
      cases hw : words src with
      | nil =>
        simp only [hw] at hnext
        simp [foldWordsLoop, hnext]
      | cons w ws =>
        simp only [hw] at hnext
        rw [List.foldlM_cons]
        split_ifs at hnext with hlen
        · simp [foldWordsLoop, hnext, hlen]
        · obtain ⟨rest, hnext, hrest, hlt⟩ := hnext
          simp only [foldWordsLoop, hnext, hlen, if_false]
          refine bind_congr fun st' => ?_
          rw [ih rest (by omega) st', hrest]
  exact key _ _ le_rfl st

/-- **A token of a value is one of its words.** -/
theorem valueHasToken_eq {val : CStr} (token : CStr) (h : val.length < UCI_VAL_SZ) :
    valueHasToken val token = decide (token ∈ words val) := by
  have key : ∀ n, ∀ src : CStr, src.length ≤ n → src.length < UCI_VAL_SZ →
      hasTokenLoop token n src = decide (token ∈ words src) := by
    intro n
    induction n with
    | zero =>
      intro src hn _
      obtain rfl := List.length_eq_zero_iff.mp (Nat.le_zero.mp hn)
      simp [hasTokenLoop]
    | succ n ih =>
      intro src hn hsz
      have hnext := nextWord_eq UCI_VAL_SZ src
      cases hw : words src with
      | nil =>
        simp only [hw] at hnext
        simp [hasTokenLoop, hnext]
      | cons w ws =>
        have hlen : w.length ≤ src.length := length_le_of_mem_words (hw ▸ List.mem_cons_self)
        simp only [hw] at hnext
        rw [if_neg (by omega)] at hnext
        obtain ⟨rest, hnext, hrest, hlt⟩ := hnext
        simp only [hasTokenLoop, hnext, ih rest (by omega) (by omega), hrest, List.mem_cons,
          Bool.decide_or, eq_comm]
  exact key _ _ le_rfl h

theorem firstDevicePort_eq (ports : CStr) : firstDevicePort (some ports) =
    match words ports with
    | [] => .error .ENOENT
    | w :: _ => if w.length + 1 > IFNAMSIZ then .error .E2BIG else .ok (cpy _ w) := by
  have hnext := nextWord_eq IFNAMSIZ ports
  cases hw : words ports with
  | nil =>
    simp only [hw] at hnext
    simp [firstDevicePort, hnext]
  | cons w ws =>
    simp only [hw] at hnext
    split_ifs at hnext with hlen
    · simp [firstDevicePort, hnext, hlen]
    · obtain ⟨rest, hnext, -⟩ := hnext
      simp only [firstDevicePort, hnext, hlen, if_false]

end Netrec
