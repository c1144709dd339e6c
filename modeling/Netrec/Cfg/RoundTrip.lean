import Netrec.Cfg.Text

/-!
# Dumping and loading a tree

The dump of a tree is the list of its assignments, one for each string, in the order of the tree.
Writing these assignments into an empty tree builds the tree again, without its empty objects and
arrays: the first assignment below an object creates it, and each later one finds it at the end of
the chain. So a dumped tree is loaded back up to its empty parts, and dumps to the same text.

## Main definitions

* `assigns n`: the assignments of the strings below a node, relative to it
* `prune n`: the node without the empty objects and arrays below it

## Main results

* `dumpNode_eq_assignText`: the dump is the text of the assignments
* `setAll_assigns`: writing the assignments of a node builds it, pruned
* `cfgLoad_cfgDumpFile`: the round trip
-/

namespace Netrec

open CLib

/-! ## Assignments and pruning -/

/-- An assignment relative to a child, relative to its object. -/
def under (k : CStr) (a : Assign) : Assign := (.key k :: a.1, a.2)

mutual

/-- The assignments of the strings below a node, relative to it. -/
def assigns : CfgNode → List Assign
  | ⟨.str, _, val, _⟩ => [([], val.getD [])]
  | ⟨.arr, _, _, cs⟩ => cs.map fun c => ([.append], c.val.getD [])
  | ⟨.obj, _, _, cs⟩ => assignsAll cs

/-- The assignments below the children of an object. -/
def assignsAll : List CfgNode → List Assign
  | [] => []
  | c :: cs => (assigns c).map (under (c.name.getD [])) ++ assignsAll cs

end

mutual

/-- The node without the empty objects and arrays below it. -/
def prune : CfgNode → CfgNode
  | ⟨type, name, val, cs⟩ => ⟨type, name, val, pruneAll cs⟩

/-- The chain without its empty objects and arrays, each node pruned. -/
def pruneAll : List CfgNode → List CfgNode
  | [] => []
  | c :: cs =>
    if c.type ≠ .str ∧ (prune c).child = [] then pruneAll cs else prune c :: pruneAll cs

end

@[simp] theorem prune_type (n : CfgNode) : (prune n).type = n.type := by
  cases n
  rfl

@[simp] theorem prune_name (n : CfgNode) : (prune n).name = n.name := by
  cases n
  rfl

theorem prune_str {n : CfgNode} {d : Nat} (h : n.Wf d) (ht : n.type = .str) : prune n = n := by
  cases h with
  | str _ => rfl
  | arr _ _ _ => cases ht
  | obj _ _ _ _ => cases ht

/-- A chain of strings has nothing to prune. -/
theorem pruneAll_strs {d : Nat} {cs : List CfgNode} (h : ∀ c ∈ cs, c.Wf d ∧ c.type = .str) :
    pruneAll cs = cs := by
  induction cs with
  | nil => rfl
  | cons c cs ih =>
    obtain ⟨hw, ht⟩ := h c List.mem_cons_self
    simp [pruneAll, ht, prune_str hw ht, ih fun b hb => h b (List.mem_cons_of_mem c hb)]

/-- A node without children has no assignments below it. -/
theorem assigns_of_child_nil {n : CfgNode} (ht : n.type ≠ .str) (hc : n.child = []) :
    assigns n = [] := by
  obtain ⟨_ | _ | _, name, val, cs⟩ := n
  · obtain rfl : cs = [] := hc
    rfl
  · obtain rfl : cs = [] := hc
    rfl
  · exact absurd rfl ht

theorem mem_assignsAll {cs : List CfgNode} {a : Assign} :
    a ∈ assignsAll cs ↔ ∃ c ∈ cs, ∃ b ∈ assigns c, under (c.name.getD []) b = a := by
  induction cs with
  | nil => simp [assignsAll]
  | cons c cs ih => simp [assignsAll, ih]

/-- Pruning keeps the assignments. -/
theorem assigns_prune {d : Nat} {n : CfgNode} (h : n.Wf d) : assigns (prune n) = assigns n := by
  induction h with
  | str _ => rfl
  | arr hd hn hc _ =>
    rw [prune, pruneAll_strs fun c hm => ⟨hc c hm, (hn c hm).2⟩]
  | @obj d name cs hd hn hnd hc ih =>
    rw [prune, assigns, assigns]
    clear hd hn hnd hc
    induction cs with
    | nil => rfl
    | cons c cs ihc =>
      have hrest := ihc fun b hb => ih b (List.mem_cons_of_mem c hb)
      have hhead := ih c List.mem_cons_self
      rw [pruneAll]
      split
      · rename_i hp
        rw [hrest, assignsAll, ← hhead,
          assigns_of_child_nil (by simpa using hp.1) hp.2, List.map_nil, List.nil_append]
      · rw [assignsAll, assignsAll, hrest, hhead, prune_name]

/-- The assignments of a well-shaped node can stand in a file. -/
theorem assigns_printable {d : Nat} {n : CfgNode} (h : n.Wf d) {a : Assign} (ha : a ∈ assigns n) :
    FileToks a.1 ∧ a.1.length ≤ d ∧ '\x00' ∉ a.2 ∧
      (n.type ≠ .str → ∃ t toks, a.1 = t :: toks ∧ wantType t = n.type) := by
  induction h generalizing a with
  | str hv =>
    rw [assigns, List.mem_singleton] at ha
    subst ha
    exact ⟨.nil, Nat.zero_le _, hv, fun h => absurd rfl h⟩
  | arr hd hn hc _ =>
    rw [assigns, List.mem_map] at ha
    obtain ⟨c, hm, rfl⟩ := ha
    have hpos := hd (List.ne_nil_of_mem hm)
    refine ⟨.append, hpos, ?_, fun _ => ⟨_, _, rfl, rfl⟩⟩
    have hs := (hn c hm).2
    cases hc c hm with
    | str hv => exact hv
    | arr _ _ _ => cases hs
    | obj _ _ _ _ => cases hs
  | @obj d name cs hd hn hnd hc ih =>
    rw [assigns] at ha
    obtain ⟨c, hm, b, hb, rfl⟩ := mem_assignsAll.mp ha
    obtain ⟨k, hk, hkey⟩ := hn c hm
    obtain ⟨hf, hl, hv, -⟩ := ih c hm hb
    have hpos := hd (List.ne_nil_of_mem hm)
    refine ⟨?_, ?_, hv, fun _ => ⟨_, _, rfl, rfl⟩⟩
    · rw [hk]
      exact .key hkey hf
    · simp only [under, List.length_cons]
      omega

/-! ## Writing the assignments of a tree -/

section Writing

variable {nm : Option CStr} {vl : Option CStr} {k : CStr} {l : List CfgNode}

/-- A write below the last child, entered by its name. -/
theorem setAssign_under_last {c : CfgNode} (hl : ∀ b ∈ l, hasName k b = false)
    (hc : c.name = some k) {a : Assign} (ha : ∃ t toks, a.1 = t :: toks ∧ wantType t = c.type) :
    setAssign ⟨.obj, nm, vl, l ++ [c]⟩ (under k a) =
      (setAssign c a).map fun c' => ⟨.obj, nm, vl, l ++ [c']⟩ := by
  obtain ⟨toks, v⟩ := a
  obtain ⟨t, toks, rfl, ht⟩ := ha
  have hk : hasName k c := by simp [hasName, hc]
  simp only [setAssign, under, setToks, enterKey, onFirst_append_of_forall_not [] hl hk, ht]
  rcases setToks v (t :: toks) c with ⟨_ | e, c'⟩ <;> simp [Except.map]

/-- Writes below the last child. -/
theorem setAll_under_last {c : CfgNode} (hl : ∀ b ∈ l, hasName k b = false)
    (hc : c.name = some k) {as : List Assign}
    (has : ∀ a ∈ as, ∃ t toks, a.1 = t :: toks ∧ wantType t = c.type) :
    setAll (as.map (under k)) ⟨.obj, nm, vl, l ++ [c]⟩ =
      (setAll as c).map fun c' => ⟨.obj, nm, vl, l ++ [c']⟩ := by
  induction as generalizing c with
  | nil => rfl
  | cons a as ih =>
    rw [List.map_cons, setAll_cons, setAll_cons,
      setAssign_under_last hl hc (has a List.mem_cons_self)]
    have hframe := setToks_name_type a.2 a.1 c
    rcases hset : setToks a.2 a.1 c with ⟨_ | e, c'⟩
    · rw [hset] at hframe
      have hstep : setAssign c a = .ok c' := by simp [setAssign, hset]
      simp only [hstep, Except.map, ok_bind]
      exact ih (hframe.1.trans hc) fun b hb => by
        rw [hframe.2]
        exact has b (List.mem_cons_of_mem a hb)
    · have hstep : setAssign c a = .error e := by simp [setAssign, hset]
      simp [hstep, Except.map]

/-- **The first write below a new name creates the child**, and the others find it. -/
theorem setAll_under_new (hl : ∀ b ∈ l, hasName k b = false) {as : List Assign} (hne : as ≠ [])
    {ty : CfgType} (has : ∀ a ∈ as, ∃ t toks, a.1 = t :: toks ∧ wantType t = ty) :
    setAll (as.map (under k)) ⟨.obj, nm, vl, l⟩ =
      (setAll as (nodeNew ty (some k))).map fun c' => ⟨.obj, nm, vl, l ++ [c']⟩ := by
  obtain ⟨a, as, rfl⟩ := List.exists_cons_of_ne_nil hne
  obtain ⟨t, toks, hat, rfl⟩ := has a List.mem_cons_self
  -- the first write does in the new child what it would do in an empty one at the end
  have hfirst : setAssign ⟨.obj, nm, vl, l⟩ (under k a) =
      setAssign ⟨.obj, nm, vl, l ++ [nodeNew (wantType t) (some k)]⟩ (under k a) := by
    rw [setAssign_under_last hl rfl ⟨t, toks, hat, rfl⟩]
    obtain ⟨p, v⟩ := a
    obtain rfl : p = t :: toks := hat
    simp only [setAssign, under, setToks, enterKey, onFirst_eq_none.mpr hl]
    rcases setToks v (t :: toks) (nodeNew (wantType t) (some k)) with ⟨_ | e, c'⟩ <;>
      simp [Except.map, childAdd]
  rw [← setAll_under_last hl rfl has, List.map_cons, setAll_cons, setAll_cons, hfirst]

/-- An entry of an array, from its shape. -/
theorem CfgNode.Wf.eq_str {d : Nat} {c : CfgNode} (h : c.Wf d) (ht : c.type = .str) :
    c = ⟨.str, c.name, some (c.val.getD []), []⟩ := by
  cases h with
  | str _ => rfl
  | arr _ _ _ => cases ht
  | obj _ _ _ _ => cases ht

/-- Appending the entries of an array. -/
theorem setAll_appends {d : Nat} {cs : List CfgNode}
    (h : ∀ c ∈ cs, (c.name = none ∧ c.type = .str) ∧ c.Wf d) :
    setAll (cs.map fun c => ([.append], c.val.getD [])) ⟨.arr, nm, vl, l⟩ =
      .ok ⟨.arr, nm, vl, l ++ cs⟩ := by
  induction cs generalizing l with
  | nil => simp
  | cons c cs ih =>
    obtain ⟨⟨hn, ht⟩, hw⟩ := h c List.mem_cons_self
    have hc := hw.eq_str ht
    rw [hn] at hc
    have hstep : setAssign ⟨.arr, nm, vl, l⟩ ([.append], c.val.getD []) =
        .ok ⟨.arr, nm, vl, l ++ [c]⟩ := by
      conv_rhs => rw [hc]
      rfl
    rw [List.map_cons, setAll_cons, hstep, ok_bind,
      ih fun b hb => h b (List.mem_cons_of_mem c hb)]
    simp

theorem pruneAll_cons (c : CfgNode) (cs : List CfgNode) :
    pruneAll (c :: cs) = pruneAll [c] ++ pruneAll cs := by
  simp only [pruneAll]
  split <;> simp

/-- Writing the assignments of one child builds it, pruned, at the end of the chain. -/
theorem setAll_child {d : Nat} {c : CfgNode} (hw : c.Wf d) (hk : c.name = some k)
    (hl : ∀ b ∈ l, hasName k b = false)
    (ih : c.type ≠ .str → setAll (assigns c) { c with child := [] } = .ok (prune c)) :
    setAll ((assigns c).map (under k)) ⟨.obj, nm, vl, l⟩ =
      .ok ⟨.obj, nm, vl, l ++ pruneAll [c]⟩ := by
  by_cases hts : c.type = .str
  · have hc := hw.eq_str hts
    rw [hk] at hc
    rw [pruneAll_strs (d := d) (by simpa using ⟨hw, hts⟩), hc]
    simp [assigns, under, setAssign, setToks, setStrPlain, onFirst_eq_none.mpr hl, childAdd,
      nodeNew]
  · have hih := ih hts
    by_cases ha : assigns c = []
    · have hempty : (prune c).child = [] := by
        rw [ha, setAll_nil] at hih
        rw [← Except.ok.inj hih]
      simp [ha, pruneAll, hts, hempty]
    · have hchild : (prune c).child ≠ [] := fun he => ha <| by
        rw [← assigns_prune hw, assigns_of_child_nil (by simpa using hts) he]
      have hblank : nodeNew c.type (some k) = { c with child := [] } := by
        rw [← hk]
        cases hw with
        | str _ => exact absurd rfl hts
        | arr _ _ _ => rfl
        | obj _ _ _ _ => rfl
      rw [setAll_under_new hl ha fun a hm => (assigns_printable hw hm).2.2.2 hts, hblank, hih]
      simp [Except.map, pruneAll, hchild]

/-- **Writing the assignments of a node builds it, pruned**, from the node without children. -/
theorem setAll_assigns {d : Nat} {n : CfgNode} (h : n.Wf d) (ht : n.type ≠ .str) :
    setAll (assigns n) { n with child := [] } = .ok (prune n) := by
  induction h with
  | str _ => exact absurd rfl ht
  | arr hd hn hc _ =>
    rw [assigns, setAll_appends fun c hm => ⟨hn c hm, hc c hm⟩, prune,
      pruneAll_strs fun c hm => ⟨hc c hm, (hn c hm).2⟩, List.nil_append]
  | @obj d name cs hd hn hnd hc ih =>
    -- `done` holds the children built so far; no name in it comes again
    have key : ∀ done : List CfgNode, (∀ b ∈ done, ∀ c ∈ cs, b.name ≠ c.name) →
        setAll (assignsAll cs) ⟨.obj, name, none, done⟩ =
          .ok ⟨.obj, name, none, done ++ pruneAll cs⟩ := by
      clear hd ht
      induction cs with
      | nil => simp [assignsAll, pruneAll]
      | cons c cs ihc =>
        intro done hdone
        obtain ⟨hnotin, hnd⟩ := List.nodup_cons.mp hnd
        obtain ⟨k, hk, -⟩ := hn c List.mem_cons_self
        have hnew : ∀ b ∈ done, hasName k b = false := fun b hb => by
          simpa [hasName, hk] using hdone b hb c List.mem_cons_self
        have hnext : ∀ b ∈ done ++ pruneAll [c], ∀ c' ∈ cs, b.name ≠ c'.name := by
          intro b hb c' hc'
          rcases List.mem_append.mp hb with hb | hb
          · exact hdone b hb c' (List.mem_cons_of_mem c hc')
          · obtain rfl : b = prune c := by
              by_cases hp : c.type ≠ .str ∧ (prune c).child = [] <;> simp_all [pruneAll]
            rw [prune_name]
            exact fun e => hnotin (e ▸ List.mem_map_of_mem hc')
        rw [assignsAll, setAll_append, hk, Option.getD_some,
          setAll_child (hc c List.mem_cons_self) hk hnew (ih c List.mem_cons_self), ok_bind,
          ihc (fun b hb => hn b (List.mem_cons_of_mem c hb)) hnd
            (fun b hb => hc b (List.mem_cons_of_mem c hb))
            (fun b hb => ih b (List.mem_cons_of_mem c hb)) _ hnext,
          List.append_assoc, ← pruneAll_cons]
    rw [assigns, prune]
    exact key [] (by simp)

end Writing

/-! ## The dump -/

section Dump

variable {sz : Nat} {ks : List CStr}

/-- An assignment relative to a node, relative to the root. -/
def below (ks : List CStr) (a : Assign) : Assign := (ks.map Tok.key ++ a.1, a.2)

theorem below_under (k : CStr) : below ks ∘ under k = below (ks ++ [k]) := by
  funext a
  simp [below, under]

theorem printPath_keys_ne_nil (hne : ks ≠ []) (hks : ∀ k ∈ ks, IsKey k) :
    printPath (ks.map .key) ≠ [] := by
  obtain ⟨k, ks, rfl⟩ := List.exists_cons_of_ne_nil hne
  simp [printPath_key_cons, (hks k List.mem_cons_self).ne_nil]

theorem printPath_keys_append (hne : ks ≠ []) (toks : List Tok) :
    printPath (ks.map .key ++ toks) = printPath (ks.map .key) ++ toks.flatMap Tok.print := by
  obtain ⟨k, ks, rfl⟩ := List.exists_cons_of_ne_nil hne
  simp [printPath_key_cons]

theorem childPath_printPath (hks : ∀ k ∈ ks, IsKey k) (k : CStr) :
    childPath (printPath (ks.map .key)) k = printPath ((ks ++ [k]).map .key) := by
  unfold childPath
  by_cases hne : ks = []
  · subst hne
    simp [printPath, Tok.print]
  · rw [if_neg (printPath_keys_ne_nil hne hks), List.map_append, printPath_keys_append hne]
    simp [Tok.print]

@[simp] theorem assignText_append (as as' : List Assign) :
    assignText (as ++ as') = assignText as ++ assignText as' :=
  List.flatMap_append

theorem dumpArr_eq_assignText (hne : ks ≠ []) {cs : List CfgNode} {text : CStr}
    (h : dumpArr (printPath (ks.map .key)) cs = .ok text) :
    text = assignText (cs.map fun c => below ks ([.append], c.val.getD [])) := by
  induction cs generalizing text with
  | nil =>
    cases h
    rfl
  | cons c cs ih =>
    simp only [dumpArr] at h
    split at h
    · cases h
    · rw [bind_eq_ok] at h
      obtain ⟨rest, hrest, h⟩ := h
      rw [← Except.ok.inj h, ih hrest]
      simp [assignText, Assign.line, below, printPath_keys_append hne, Tok.print]

/-- **The dump is the text of the assignments.** -/
theorem dumpNode_eq_assignText {d : Nat} {n : CfgNode} (hw : n.Wf d) (hks : ∀ k ∈ ks, IsKey k)
    (hroot : ks ≠ [] ∨ n.type = .obj) {text : CStr}
    (h : dumpNode sz (printPath (ks.map .key)) n = .ok text) :
    text = assignText ((assigns n).map (below ks)) := by
  induction hw generalizing ks text with
  | str _ =>
    rw [← Except.ok.inj h]
    simp [assigns, assignText, Assign.line, below]
  | arr _ _ _ _ =>
    have hne := hroot.resolve_right (by simp)
    simpa [assigns, Function.comp_def] using dumpArr_eq_assignText hne h
  | @obj d name cs hd hn hnd hc ih =>
    rw [dumpNode] at h
    rw [assigns]
    clear hd hnd hc hroot
    induction cs generalizing text with
    | nil =>
      cases h
      rfl
    | cons c cs ihc =>
      obtain ⟨k, hk, hkey⟩ := hn c List.mem_cons_self
      rw [dumpObj, hk, Option.getD_some, childPath_printPath hks] at h
      split at h
      · cases h
      · simp only [bind_eq_ok] at h
        obtain ⟨t, ht, ts, hts, h⟩ := h
        have hks' : ∀ k' ∈ ks ++ [k], IsKey k' :=
          List.forall_mem_append.mpr ⟨hks, List.forall_mem_singleton.mpr hkey⟩
        rw [← Except.ok.inj h, ih c List.mem_cons_self hks' (by simp) ht,
          ihc (fun b hb => hn b (List.mem_cons_of_mem c hb))
            (fun b hb => ih b (List.mem_cons_of_mem c hb)) hts, assignsAll, hk]
        simp [below_under]

/-- Pruning a tree does not change its dump. -/
theorem dumpNode_prune {d : Nat} {n : CfgNode} (hw : n.Wf d) {path text : CStr}
    (h : dumpNode sz path n = .ok text) : dumpNode sz path (prune n) = .ok text := by
  induction hw generalizing path text with
  | str _ => exact h
  | arr _ hn hc _ => rwa [prune, pruneAll_strs fun c hm => ⟨hc c hm, (hn c hm).2⟩]
  | @obj d name cs hd hn hnd hc ih =>
    rw [dumpNode] at h
    rw [prune, dumpNode]
    clear hd hn hnd hc
    induction cs generalizing text with
    | nil => exact h
    | cons c cs ihc =>
      rw [dumpObj] at h
      split at h
      · cases h
      · rename_i hlen
        simp only [bind_eq_ok] at h
        obtain ⟨t, ht, ts, hts, h⟩ := h
        have hc' := ih c List.mem_cons_self ht
        have hrest := ihc (fun b hb => ih b (List.mem_cons_of_mem c hb)) hts
        rw [pruneAll]
        split
        · -- an empty object or array writes nothing
          rename_i hp
          obtain rfl : t = [] := by
            rcases hpc : prune c with ⟨_ | _ | _, nm, vl, cs'⟩
            all_goals
              rw [hpc] at hc'
              have htype : (prune c).type ≠ .str := by simpa using hp.1
              obtain rfl : cs' = [] := by simpa [hpc] using hp.2
              first
                | exact (Except.ok.inj hc').symm
                | exact absurd (by rw [hpc]) htype
          rw [hrest, ← Except.ok.inj h, List.nil_append]
        · rw [dumpObj, prune_name, if_neg hlen, hc', ok_bind, hrest]
          exact h

end Dump

/-! ## The round trip -/

theorem WfRoot.assigns_printable {cfg : CfgNode} (h : WfRoot cfg) :
    ∀ a ∈ assigns cfg, a.Printable := by
  intro a ha
  obtain ⟨hf, hl, hv, hw⟩ := Netrec.assigns_printable h.wf ha
  obtain ⟨t, toks, hat, ht⟩ := hw (by simp [h.type])
  refine ⟨?_, hf, hl, hv⟩
  rw [h.type] at ht
  cases t with
  | key k => exact ⟨k, toks, hat⟩
  | index _ => cases ht
  | append => cases ht

theorem WfRoot.dump_eq {cfg : CfgNode} (h : WfRoot cfg) {text : CStr}
    (hd : cfgDumpFile cfg = .ok text) : text = assignText (assigns cfg) := by
  have hb : below [] = id := by
    funext a
    rfl
  have hd' : dumpNode 512 (printPath (([] : List CStr).map .key)) cfg = .ok text := hd
  simpa [hb] using dumpNode_eq_assignText h.wf (by simp) (Or.inr h.type) hd'

/-- Loading the assignments of a tree builds the tree, pruned. -/
theorem WfRoot.load_assigns {cfg : CfgNode} (h : WfRoot cfg)
    (hl : ∀ a ∈ assigns cfg, a.line.length + 1 ≤ 4095) :
    cfgLoad (assignText (assigns cfg)) = .ok (prune cfg) := by
  have hinit : cfgInit = { cfg with child := [] } := by
    obtain ⟨hw, hn, ht⟩ := h
    cases hw with
    | str _ => cases ht
    | arr _ _ _ => cases ht
    | obj _ _ _ _ =>
      cases hn
      rfl
  rw [cfgLoad_assignText h.assigns_printable hl, hinit, setAll_assigns h.wf (by simp [h.type])]

/-- **The round trip**: a tree built by any calls of `cfg_set_str` and `cfg_del` is loaded back
from its dump, without its empty objects and arrays, and dumps to the same text again. -/
theorem cfgLoad_cfgDumpFile {ops : List CfgOp} (hv : ∀ op ∈ ops, op.NulFree) {text : CStr}
    (hd : cfgDumpFile (CfgOp.run ops) = .ok text) (hl : LinesFit 4095 text) :
    cfgLoad text = .ok (prune (CfgOp.run ops)) ∧
      cfgDumpFile (prune (CfgOp.run ops)) = .ok text := by
  have hw := CfgOp.run_wf hv
  refine ⟨?_, dumpNode_prune hw.wf hd⟩
  obtain rfl := hw.dump_eq hd
  have hprint := hw.assigns_printable
  have hfit : LinesFit 4095 (((assigns (CfgOp.run ops)).map Assign.line).flatMap
      fun l => l ++ ['\n']) := by
    simpa [List.flatMap_map, assignText] using hl
  refine hw.load_assigns fun a ha => hfit.of_mem ?_ _ (List.mem_map_of_mem ha)
  rintro l hm
  obtain ⟨b, hb, rfl⟩ := List.mem_map.mp hm
  exact (hprint b hb).line_bytes.1

/-- Calls that leave an empty array behind and a value with every byte that is escaped. -/
def sampleOps : List CfgOp :=
  [.set "a.b[]".toList "x\\\"\n\t #=".toList, .set "c[0]".toList "lost".toList,
    .set "a.d".toList [], .del "a.d".toList]

/-- The dump of `sampleOps`. -/
def sampleText : CStr := "a.b[] = \"x\\\\\\\"\\n\\t #=\"\n".toList

theorem cfgLoad_sampleText : cfgDumpFile (CfgOp.run sampleOps) = .ok sampleText ∧
    cfgLoad sampleText = .ok (prune (CfgOp.run sampleOps)) := by
  have hd : cfgDumpFile (CfgOp.run sampleOps) = .ok sampleText := by decide
  exact ⟨hd, (cfgLoad_cfgDumpFile (by decide) hd (by decide)).1⟩

end Netrec
