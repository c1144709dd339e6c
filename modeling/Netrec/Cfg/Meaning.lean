import Netrec.Cfg.RoundTrip
import Netrec.Cfg.Writes

/-!
# What a configuration file means

A file whose lines are well formed is a list of assignments. Loading it writes them one after the
other, and may fail at any of them. Whether it fails does not depend on their order: the load
succeeds exactly when no path is used in two roles, as a string, as an array or as an object, and
the tree then holds the last value given to each string and all values given to each array.

## Main definitions

* `lineAssign`: the assignment of a line
* `WfLine`, `fileAssigns`: well-formed lines, and the assignments of a file
* `Assign.entry`, `fileEntries`: an assignment as a write of the store

## Main results

* `cfgLoad_eq_setAll`: loading a file writes its assignments
* `setAll_iff_runs`: writing assignments is writing to the store
* `cfgLoad_meaning`: when a file is loaded, and what the tree then holds
-/

namespace Netrec

open CLib

/-! ## The assignments of a file -/

/-- The assignment of a line, if it is neither blank nor a comment. -/
def lineAssign (line : CStr) : Except Errno (Option Assign) :=
  let key := trim line
  if key = [] ∨ key.head? = some '#' then .ok none
  else
    match splitAtChar '=' key with
    | none => .error .EINVAL
    | some (key, eq) =>
      if trim key = [] then .error .EINVAL
      else do
        pathFileOk (trim key)
        let val ← parseValue (trim eq)
        let toks ← parsePath CFG_PATH_DEPTH_MAX (trim key)
        return some (toks, val)

/-- A path that a file may use is parsed. -/
theorem pathFileOk_eq_ok {path : CStr} (h : pathFileOk path = .ok ()) :
    ∃ toks, parsePath CFG_PATH_DEPTH_MAX path = .ok toks ∧ toksFileOk toks = .ok () := by
  rwa [pathFileOk, bind_eq_ok] at h

/-- **A line that is read is written.** -/
theorem loadLine_eq (cfg : CfgNode) (line : CStr) :
    loadLine cfg line = lineAssign line >>= fun
      | none => .ok cfg
      | some a => setAssign cfg a := by
  simp only [loadLine, lineAssign]
  split_ifs with hkey
  · rfl
  · cases splitAtChar '=' (trim line) with
    | none => rfl
    | some p =>
      simp only
      split_ifs with hempty
      · rfl
      · cases hok : pathFileOk (trim p.1) with
        | error e => rfl
        | ok u =>
          obtain ⟨toks, htoks, -⟩ := pathFileOk_eq_ok hok
          cases parseValue (trim p.2) with
          | error e => rfl
          | ok val => simp [cfgSetStr, htoks, setAssign]

/-- A well-formed line: a C string that is blank, a comment, or an assignment with a path a file
may use and a value that parses. -/
def WfLine (l : CStr) : Prop := '\x00' ∉ l ∧ ∃ o, lineAssign (trimEol l) = .ok o

instance (l : CStr) : Decidable (WfLine l) :=
  decidable_of_iff ('\x00' ∉ l ∧ (lineAssign (trimEol l)).toOption.isSome) <|
    and_congr_right fun _ => by cases lineAssign (trimEol l) <;> simp [Except.toOption]

/-- The assignments of a file, in order. -/
def fileAssigns (text : CStr) : List Assign :=
  (text.splitOn '\n').filterMap fun l => (lineAssign (trimEol l)).toOption.join

/-- **Loading a file writes its assignments.** -/
theorem cfgLoad_eq_setAll {text : CStr} (hfit : LinesFit 4095 text)
    (hwf : ∀ l ∈ text.splitOn '\n', WfLine l) :
    cfgLoad text = setAll (fileAssigns text) cfgInit := by
  have hn : '\x00' ∉ text := fun h => by
    obtain ⟨l, hl, hmem⟩ := exists_mem_splitOnP (p := (· == '\n')) h (by decide)
    exact (hwf l hl).1 hmem
  have hround : loadRound = lineRound .E2BIG fun cfg l => loadLine cfg (trimEol l) := rfl
  rw [cfgLoad, hround, foldlM_fgetsAll (by omega) hn (fun _ => rfl)
    (fun cfg l => by rw [trimEol_append (.inl rfl)]), fileAssigns]
  unfold LinesFit at hfit
  generalize text.splitOn '\n' = ls at hfit hwf
  generalize cfgInit = cfg
  induction ls generalizing cfg with
  | nil => rfl
  | cons l ls ih =>
    have ih' := ih (fun m hm => hfit m (List.mem_cons_of_mem l hm))
      fun m hm => hwf m (List.mem_cons_of_mem l hm)
    have hlen := hfit l List.mem_cons_self
    obtain ⟨-, o, ho⟩ := hwf l List.mem_cons_self
    rw [List.foldlM_cons, if_neg (by omega), loadLine_eq, ho, ok_bind]
    cases o with
    | none =>
      rw [List.filterMap_cons_none (by simp [ho, Except.toOption])]
      exact ih' cfg
    | some a =>
      rw [List.filterMap_cons_some (b := a) (by simp [ho, Except.toOption]), setAll_cons]
      exact bind_congr ih'

/-! ## Assignments that a file can hold -/

theorem fileToks_of_toksFileOk {toks : List Tok} (hv : ∀ t ∈ toks, t.Valid)
    (h : toksFileOk toks = .ok ()) : FileToks toks := by
  induction toks with
  | nil => exact .nil
  | cons t toks ih =>
    cases t with
    | index i => cases h
    | append =>
      simp only [toksFileOk, ne_eq] at h
      split_ifs at h with hne
      rw [hne]
      exact .append
    | key k =>
      exact .key (hv _ List.mem_cons_self) (ih (fun t ht => hv t (List.mem_cons_of_mem _ ht)) h)

/-- A path starts with a key. -/
theorem parsePath_head {m : Nat} {path : CStr} {toks : List Tok} (hne : path ≠ [])
    (h : parsePath m path = .ok toks) : ∃ k rest, toks = .key k :: rest := by
  simp only [parsePath, if_neg hne] at h
  split_ifs at h with hm
  simp only [bind_eq_ok] at h
  obtain ⟨⟨tok, rest⟩, ht, toks', -, he⟩ := h
  obtain ⟨k, rfl, -⟩ := parseKeyTok_eq_ok ht
  exact ⟨k, toks', (Except.ok.inj he).symm⟩

theorem nul_notMem_unquote {s val rest : CStr} (hn : '\x00' ∉ s)
    (h : unquote s = .ok (val, rest)) : '\x00' ∉ val := by
  fun_induction unquote s generalizing val rest with
  | case1 => cases h
  | case2 src =>
    cases h
    simp
  | case3 => cases h
  | case4 e src _ ih =>
    obtain ⟨⟨val', rest'⟩, hu, he⟩ := bind_eq_ok.mp h
    obtain ⟨rfl, -⟩ : unescape e :: val' = val ∧ rest' = rest := by simpa using he
    simp only [List.mem_cons, not_or] at hn ⊢
    refine ⟨?_, ih hn.2.2 hu⟩
    unfold unescape
    split_ifs
    · decide
    · decide
    · exact hn.2.1
  | case5 c src hq hb ih =>
    obtain ⟨⟨val', rest'⟩, hu, he⟩ := bind_eq_ok.mp h
    obtain ⟨rfl, -⟩ : c :: val' = val ∧ rest' = rest := by simpa using he
    simp only [List.mem_cons, not_or] at hn ⊢
    exact ⟨hn.1, ih hn.2 hu⟩

theorem nul_notMem_parseValue {src val : CStr} (hn : '\x00' ∉ src)
    (h : parseValue src = .ok val) : '\x00' ∉ val := by
  have htrim : '\x00' ∉ trim src := fun hm => hn (mem_of_mem_trim hm)
  simp only [parseValue] at h
  split_ifs at h with h₁ h₂
  · cases h
    simp
  · rw [← Except.ok.inj h]
    exact fun hm => htrim ((List.takeWhile_prefix _).subset (mem_of_mem_trim hm))
  · obtain ⟨⟨val', rest⟩, hu, he⟩ := bind_eq_ok.mp h
    simp only at he
    split_ifs at he
    rw [← Except.ok.inj he]
    exact nul_notMem_unquote (fun hm => htrim (List.mem_of_mem_tail hm)) hu

/-- The assignment of a line can stand in a file. -/
theorem lineAssign_printable {line : CStr} {a : Assign} (hn : '\x00' ∉ line)
    (h : lineAssign line = .ok (some a)) : a.Printable := by
  simp only [lineAssign] at h
  split_ifs at h with hkey
  · cases h
  cases hs : splitAtChar '=' (trim line) with
  | none => simp [hs] at h
  | some p =>
    rw [hs] at h
    simp only at h
    split_ifs at h with hempty
    simp only [bind_eq_ok] at h
    obtain ⟨⟨⟩, hok, val, hval, toks, htoks, he⟩ := h
    obtain rfl := Option.some.inj (Except.ok.inj he)
    obtain ⟨hlen, hvalid⟩ := parsePath_eq_ok htoks
    obtain ⟨toks', htoks', hfile⟩ := pathFileOk_eq_ok hok
    obtain rfl := Except.ok.inj (htoks'.symm.trans htoks)
    have hp : '\x00' ∉ p.2 := fun hm => by
      have hline := splitAtChar_eq_some hs
      exact hn (mem_of_mem_trim (by rw [hline]; simp [hm]))
    exact ⟨parsePath_head hempty htoks, fileToks_of_toksFileOk hvalid hfile, hlen,
      nul_notMem_parseValue (fun hm => hp (mem_of_mem_trim hm)) hval⟩

theorem fileAssigns_printable {text : CStr} (hwf : ∀ l ∈ text.splitOn '\n', WfLine l) :
    ∀ a ∈ fileAssigns text, a.Printable := by
  intro a ha
  obtain ⟨l, hl, hla⟩ := List.mem_filterMap.mp ha
  obtain ⟨hn, o, ho⟩ := hwf l hl
  rw [ho] at hla
  obtain rfl : o = some a := by simpa [Except.toOption] using hla
  exact lineAssign_printable (fun h => hn ((List.rdropWhile_prefix _ l).subset h)) ho

/-- **A tree that is loaded from a file is well formed**, whatever the file contains. -/
theorem cfgLoad_wf {text : CStr} {cfg : CfgNode} (h : cfgLoad text = .ok cfg) : WfRoot cfg := by
  refine foldlM_invariant (fun cfg l hl cfg' hw hstep => ?_) wfRoot_cfgInit h
  unfold loadRound at hstep
  split_ifs at hstep
  simp only [loadLine] at hstep
  split_ifs at hstep
  · rwa [← Except.ok.inj hstep]
  · cases hs : splitAtChar '=' (trim (trimEol l.1)) with
    | none => simp [hs] at hstep
    | some p =>
      rw [hs] at hstep
      simp only at hstep
      split_ifs at hstep
      simp only [bind_eq_ok] at hstep
      obtain ⟨-, -, val, hval, hset⟩ := hstep
      -- the value is part of the line, which is a C string
      have hline : '\x00' ∉ trim (trimEol l.1) := fun hm =>
        nul_notMem_fgetsAll hl ((List.rdropWhile_prefix _ l.1).subset (mem_of_mem_trim hm))
      have hp : '\x00' ∉ p.2 := fun hm => hline (by rw [splitAtChar_eq_some hs]; simp [hm])
      have hwf := hw.cfgSetStr (trim p.1)
        (nul_notMem_parseValue (fun hm => hp (mem_of_mem_trim hm)) hval)
      split at hset
      · rename_i heq
        rw [heq] at hwf
        rwa [← Except.ok.inj hset]
      · cases hset

/-! ## Writing assignments -/

/-- An assignment as a write of the store. -/
def Assign.entry (a : Assign) : Entry CStr CStr where
  path := a.1.filterMap fun
    | .key k => some k
    | _ => none
  app := a.1.getLast? = some .append
  val := a.2

/-- The address and the last step of a path of a file. -/
theorem FileToks.splitToks_eq {toks : List Tok} (h : FileToks toks) (v : CStr) :
    toks = [] ∨
      splitToks toks = some ((Assign.entry (toks, v)).path, (Assign.entry (toks, v)).leaf) := by
  induction h with
  | nil => exact .inl rfl
  | append => exact .inr rfl
  | @key k toks _ _ ih =>
    right
    obtain rfl | ih := ih
    · rfl
    · have hne : toks ≠ [] := by
        rintro rfl
        cases ih
      rw [splitToks_key_cons k hne, ih]
      simp [Assign.entry, Entry.leaf, List.getLast?_cons, List.getLast?_eq_some_getLast hne]

theorem Assign.Printable.splitToks_eq {a : Assign} (h : a.Printable) :
    splitToks a.1 = some (a.entry.path, a.entry.leaf) := by
  obtain ⟨k, toks, hk⟩ := h.key
  exact (h.file.splitToks_eq a.2).resolve_left (by simp [hk])

theorem Assign.Printable.path_ne_nil {a : Assign} (h : a.Printable) : a.entry.path ≠ [] := by
  obtain ⟨k, toks, hk⟩ := h.key
  simp [Assign.entry, hk]

/-- The writes of a file. -/
def fileEntries (text : CStr) : List (Entry CStr CStr) := (fileAssigns text).map Assign.entry

/-- One write of an assignment to a well-formed tree. -/
theorem setAssign_iff {a : Assign} (h : a.Printable) {cfg : CfgNode} (hw : WfRoot cfg) :
    (∀ cfg', setAssign cfg a = .ok cfg' → WfRoot cfg' ∧ ∃ c, cfg.look.Clear a.entry.path ∧
      a.entry.leaf.apply a.entry.val (cfg.look a.entry.path) = some c ∧
      cfg'.look = cfg.look.put a.entry.path c) ∧
    ∀ c, cfg.look.Clear a.entry.path →
      a.entry.leaf.apply a.entry.val (cfg.look a.entry.path) = some c →
      ∃ cfg', setAssign cfg a = .ok cfg' := by
  obtain ⟨hok, hrun⟩ := writesStore hw.wf a.2 a.1
  have hkeep : WfRoot (setToks a.2 a.1 cfg).2 :=
    hw.keeps (keeps_setToks h.nul_notMem h.length_le h.file.valid)
  rcases hset : setToks a.2 a.1 cfg with ⟨_ | e, cfg'⟩
  · -- the walk succeeds
    have hstep : setAssign cfg a = .ok cfg' := by simp [setAssign, hset]
    rw [hset] at hok hkeep
    refine ⟨fun cfg'' hc => ?_, fun _ _ _ => ⟨cfg', hstep⟩⟩
    obtain rfl := Except.ok.inj (hstep.symm.trans hc)
    obtain ⟨p, leaf, c, hs, hclear, happ⟩ := hok rfl
    obtain ⟨rfl, rfl⟩ : a.entry.path = p ∧ a.entry.leaf = leaf := by
      simpa using h.splitToks_eq.symm.trans hs
    have hlook := (hrun _ _ c hs hclear happ).2
    rw [hset] at hlook
    exact ⟨hkeep, c, hclear, happ, hlook⟩
  · have hstep : setAssign cfg a = .error e := by simp [setAssign, hset]
    refine ⟨fun cfg'' hc => (by cases hstep.symm.trans hc), fun c hclear happ => ?_⟩
    have hrc := (hrun _ _ c h.splitToks_eq hclear happ).1
    rw [hset] at hrc
    cases hrc

/-- **Writing assignments is writing to the store.** -/
theorem setAll_iff_runs {as : List Assign} (has : ∀ a ∈ as, a.Printable) :
    (∀ cfg, setAll as cfgInit = .ok cfg →
      WfRoot cfg ∧ Store.Runs (as.map Assign.entry) cfg.look) ∧
    ∀ s, Store.Runs (as.map Assign.entry) s → ∃ cfg, setAll as cfgInit = .ok cfg := by
  induction as using List.reverseRecOn with
  | nil =>
    refine ⟨fun cfg h => ?_, fun _ _ => ⟨cfgInit, rfl⟩⟩
    obtain rfl := Except.ok.inj h
    have hinit : cfgInit.look = Store.init := by
      funext p
      cases p with
      | nil => rfl
      | cons k p => exact look_nodeNew _ _ (by simp)
    exact ⟨wfRoot_cfgInit, hinit ▸ .nil⟩
  | append_singleton as a ih =>
    have ha : a.Printable := has a (by simp)
    obtain ⟨hruns, hok⟩ := ih fun b hb => has b (List.mem_append_left _ hb)
    rw [setAll_append, List.map_append, List.map_singleton]
    constructor
    · intro cfg h
      obtain ⟨cfg₀, h₀, h⟩ := bind_eq_ok.mp h
      obtain ⟨hw, hrun⟩ := hruns cfg₀ h₀
      have hstep : setAssign cfg₀ a = .ok cfg := by
        rw [setAll_cons] at h
        obtain ⟨cfg', h', he⟩ := bind_eq_ok.mp h
        rwa [← Except.ok.inj he]
      obtain ⟨hw', c, hclear, happ, hlook⟩ := (setAssign_iff ha hw).1 cfg hstep
      exact ⟨hw', Store.runs_concat.mpr ⟨_, c, hrun, hclear, happ, hlook⟩⟩
    · intro s h
      obtain ⟨s₀, c, hrun, hclear, happ, -⟩ := Store.runs_concat.mp h
      obtain ⟨cfg₀, h₀⟩ := hok s₀ hrun
      obtain ⟨hw, hrun₀⟩ := hruns cfg₀ h₀
      -- the writes determine the store
      obtain rfl : cfg₀.look = s₀ := by
        have hne : ∀ w ∈ as.map Assign.entry, w.path ≠ [] := by
          intro w hw
          obtain ⟨b, hb, rfl⟩ := List.mem_map.mp hw
          exact (has b (List.mem_append_left _ hb)).path_ne_nil
        rw [((runs_iff hne).mp hrun₀).2, ((runs_iff hne).mp hrun).2]
      obtain ⟨cfg, hstep⟩ := (setAssign_iff ha hw).2 c hclear happ
      exact ⟨cfg, by simp [h₀, hstep]⟩

/-! ## The strings of a tree -/

theorem objFind_of_mem {d : Nat} {n c : CfgNode} {k : CStr} (h : n.Wf d) (ht : n.type = .obj)
    (hc : c ∈ n.child) (hk : c.name = some k) : objFind n k = some c := by
  rw [objFind, if_neg (not_not.mpr ht), h.find?_hasName ht hc hk]

/-- Every string of a tree is at an address or an entry of the array there. -/
theorem mem_assigns {d : Nat} {n : CfgNode} (h : n.Wf d) {a : Assign} (ha : a ∈ assigns n) :
    ∃ p : List CStr, (a.1 = p.map .key ∧ n.look p = some (.str a.2)) ∨
      (a.1 = p.map .key ++ [.append] ∧ ∃ vs, n.look p = some (.arr vs) ∧ a.2 ∈ vs) := by
  induction h generalizing a with
  | @str d name v hv =>
    rw [assigns, List.mem_singleton] at ha
    subst ha
    exact ⟨[], .inl ⟨rfl, rfl⟩⟩
  | @arr d name cs hd hn hc _ =>
    rw [assigns, List.mem_map] at ha
    obtain ⟨c, hm, rfl⟩ := ha
    exact ⟨[], .inr ⟨rfl, _, rfl, List.mem_map_of_mem hm⟩⟩
  | @obj d name cs hd hn hnd hc ih =>
    rw [assigns] at ha
    obtain ⟨c, hm, b, hb, rfl⟩ := mem_assignsAll.mp ha
    obtain ⟨k, hk, -⟩ := hn c hm
    have hfind : objFind ⟨.obj, name, none, cs⟩ k = some c :=
      objFind_of_mem (.obj hd hn hnd hc) rfl hm hk
    obtain ⟨p, hp⟩ := ih c hm hb
    refine ⟨k :: p, ?_⟩
    simpa [under, hk, CfgNode.look_cons, hfind] using hp

/-! ## The meaning of a file -/

/-- What a tree holds after the writes `es`: the last value written to each string, all values
appended to each array, and no other string. -/
structure Holds (cfg : CfgNode) (es : List (Entry CStr CStr)) : Prop where
  str : ∀ path p v, parsePath CFG_PATH_DEPTH_MAX path = .ok (p.map .key) →
    (valuesAt es false p).getLast? = some v → cfgGetStr cfg path = .ok v
  arr : ∀ path p, parsePath CFG_PATH_DEPTH_MAX path = .ok (p.map .key) → HasRole es p .arr →
    ∃ node, cfgGetNode cfg path = .ok node ∧ node.type = .arr ∧
      (node.child.map fun c => c.val.getD []) = valuesAt es true p
  only : ∀ toks v, (toks, v) ∈ assigns cfg → ∃ p : List CStr,
    (toks = p.map .key ∧ (valuesAt es false p).getLast? = some v) ∨
      (toks = p.map .key ++ [.append] ∧ v ∈ valuesAt es true p)

theorem holds_of_look {cfg : CfgNode} (hw : WfRoot cfg) {es : List (Entry CStr CStr)}
    (hne : ∀ w ∈ es, w.path ≠ []) (hcons : Consistent es) (hlook : cfg.look = meaning es) :
    Holds cfg es where
  str path p v hp hv := by
    have hp' : p ≠ [] := by
      rintro rfl
      obtain ⟨w, hw, hpath, -⟩ : HasRole es [] .str :=
        (@valuesAt_ne_nil _ _ _ es false []).mp fun h => by simp [h] at hv
      exact hne w hw hpath
    refine (cfgGetStr_iff hw hp).mpr ⟨p, .plain, ?_, ?_⟩
    · simpa [leafToks] using @splitToks_append p .plain fun _ => hp'
    · rw [hlook, meaning_eq_str.mpr hv]
      rfl
  arr path p hp hr := by
    have hstr : ¬ HasRole es p .str := fun hs => Role.noConfusion (hcons p _ _ hs hr)
    have hcell : cfg.look p = some (.arr (valuesAt es true p)) := by
      rw [hlook, meaning_arr hstr hr]
    obtain ⟨node, hnode, hc⟩ := Option.map_eq_some_iff.mp hcell
    refine ⟨node, ?_, cell_eq_arr.mp hc⟩
    rw [cfgGetNode_eq, hp, ok_bind, walkGet_keys, hnode]
  only toks v ha := by
    obtain ⟨p, ⟨htoks, hp⟩ | ⟨htoks, vs, hp, hv⟩⟩ := mem_assigns hw.wf ha
    · rw [hlook] at hp
      exact ⟨p, .inl ⟨htoks, meaning_eq_str.mp hp⟩⟩
    · rw [hlook] at hp
      exact ⟨p, .inr ⟨htoks, valuesAt_of_meaning_arr hp ▸ hv⟩⟩

/-- **What a configuration file means.** A file of well-formed lines that fit the buffer is loaded
exactly when no path is used in two roles, and the tree then holds the values of its lines. -/
theorem cfgLoad_meaning {text : CStr} (hfit : LinesFit 4095 text)
    (hwf : ∀ l ∈ text.splitOn '\n', WfLine l) :
    ((∃ cfg, cfgLoad text = .ok cfg) ↔ Consistent (fileEntries text)) ∧
      ∀ cfg, cfgLoad text = .ok cfg → Holds cfg (fileEntries text) := by
  have has := fileAssigns_printable hwf
  have hne : ∀ w ∈ fileEntries text, w.path ≠ [] := by
    intro w hw
    obtain ⟨a, ha, rfl⟩ := List.mem_map.mp hw
    exact (has a ha).path_ne_nil
  obtain ⟨hruns, hok⟩ := setAll_iff_runs has
  rw [cfgLoad_eq_setAll hfit hwf]
  refine ⟨⟨fun ⟨cfg, h⟩ => ((runs_iff hne).mp (hruns cfg h).2).1,
    fun h => hok _ ((runs_iff hne).mpr ⟨h, rfl⟩)⟩, fun cfg h => ?_⟩
  obtain ⟨hw, hrun⟩ := hruns cfg h
  obtain ⟨hcons, hlook⟩ := (runs_iff hne).mp hrun
  exact holds_of_look hw hne hcons hlook

/-- A file with a comment, an array and a string written twice. -/
def meaningText : CStr := unlines [
  "# lan", "bridge.name = br0", "bridge.ports[] = eth0", "", "bridge.ports[] = \"eth1\" # second",
  "bridge.name = br1"]

theorem meaningText_holds :
    Consistent (fileEntries meaningText) ∧ ∃ cfg, cfgLoad meaningText = .ok cfg ∧
      cfgGetStr cfg "bridge.name".toList = .ok "br1".toList := by
  obtain ⟨hiff, hholds⟩ := @cfgLoad_meaning meaningText (by decide +kernel) (by decide +kernel)
  obtain ⟨cfg, hload⟩ : ∃ cfg, cfgLoad meaningText = .ok cfg := by
    have hsome : (cfgLoad meaningText).toOption.isSome := by decide +kernel
    cases h : cfgLoad meaningText with
    | ok cfg => exact ⟨cfg, rfl⟩
    | error e => simp [h, Except.toOption] at hsome
  exact ⟨hiff.mp ⟨cfg, hload⟩, cfg, hload, (hholds cfg hload).str _
    ["bridge".toList, "name".toList] _ (by decide +kernel) (by decide +kernel)⟩

end Netrec
