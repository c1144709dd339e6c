import Netrec.Cfg.Path

/-!
# The configuration tree

A node is an object, an array or a string; its children form a chain. Writing and deleting walk
down from the root along the tokens of a path and work on the node they reach. A write creates the
objects and arrays it passes through, and leaves them behind when it then fails.

## Main definitions

* `CfgNode`, `cfgInit`: nodes, and the empty tree
* `objFind`, `arrIdx`: looking up a child
* `cfgSetStr`, `cfgDel`: writing and deleting, with the code they return and the tree they leave
* `CfgNode.Wf d`: the shape of the nodes that a run of writes and deletions can build, `d` steps of
  a path being left below the node

## Main results

* `keeps_setToks`, `keeps_delToks`: one operation keeps the shape, whether it succeeds or fails
* `CfgOp.run_wf`: every tree that operations build from the empty one has it
-/

namespace Netrec

open CLib

/-! ## Nodes -/

/-- `enum cfg_type`. -/
inductive CfgType
  | obj
  | arr
  | str
  deriving DecidableEq, Repr

/-- `struct cfg_node`; `child` is the chain from `child` to `tail`, `n_child` its length. -/
structure CfgNode where
  type : CfgType
  name : Option CStr
  val : Option CStr
  child : List CfgNode

mutual

/-- Whether two nodes are equal. -/
def CfgNode.beq : CfgNode → CfgNode → Bool
  | ⟨t, n, v, cs⟩, ⟨t', n', v', cs'⟩ => t = t' && n = n' && v = v' && CfgNode.beqAll cs cs'

/-- Whether two chains are equal. -/
def CfgNode.beqAll : List CfgNode → List CfgNode → Bool
  | [], [] => true
  | c :: cs, c' :: cs' => CfgNode.beq c c' && CfgNode.beqAll cs cs'
  | _, _ => false

end

mutual

theorem CfgNode.beq_iff : ∀ n n' : CfgNode, n.beq n' ↔ n = n'
  | ⟨t, n, v, cs⟩, ⟨t', n', v', cs'⟩ => by
    simp [CfgNode.beq, CfgNode.beqAll_iff cs cs', and_assoc]

theorem CfgNode.beqAll_iff : ∀ cs cs' : List CfgNode, CfgNode.beqAll cs cs' ↔ cs = cs'
  | [], [] => by simp [CfgNode.beqAll]
  | [], _ :: _ => by simp [CfgNode.beqAll]
  | _ :: _, [] => by simp [CfgNode.beqAll]
  | c :: cs, c' :: cs' => by
    simp [CfgNode.beqAll, CfgNode.beq_iff c c', CfgNode.beqAll_iff cs cs']

end

instance : DecidableEq CfgNode := fun n n' => decidable_of_iff _ (CfgNode.beq_iff n n')

theorem with_child_self {n : CfgNode} {cs : List CfgNode} (h : n.child = cs) :
    { n with child := cs } = n := by
  obtain ⟨type, name, val, child⟩ := n
  exact h ▸ rfl

/-- `node_new`. -/
def nodeNew (type : CfgType) (name : Option CStr) : CfgNode := ⟨type, name, none, []⟩

/-- `cfg_init`: the root of the empty tree. -/
def cfgInit : CfgNode := nodeNew .obj none

/-- `child_add`. -/
def childAdd (parent node : CfgNode) : CfgNode := { parent with child := parent.child ++ [node] }

/-- The test of `obj_find`. -/
def hasName (name : CStr) (node : CfgNode) : Bool := node.name = some name

/-- `obj_find`. -/
def objFind (obj : CfgNode) (name : CStr) : Option CfgNode :=
  if obj.type ≠ .obj then none else obj.child.find? (hasName name)

/-- `arr_idx`: the position a possibly negative index stands for. -/
def arrIdx (arr : CfgNode) (idx : Int) : Except Errno Nat :=
  if arr.type ≠ .arr then .error .ENOTDIR
  else if 0 ≤ idx then
    if idx ≥ arr.child.length then .error .ENOENT else .ok idx.toNat
  else if arr.child.length + idx < 0 then .error .ENOENT
  else .ok (arr.child.length + idx).toNat

/-- `cfg_child`. -/
abbrev cfgChild := objFind

/-! ## Writing and deleting -/

/-- The code an operation returns: `none` for 0, otherwise the error, negated. -/
abbrev Rc := Option Errno

/-- `set_str_plain`. -/
def setStrPlain (parent : CfgNode) (name val : CStr) : Rc × CfgNode :=
  let set (node : CfgNode) : Rc × CfgNode :=
    if node.type ≠ .str then (some .EISDIR, node) else (none, { node with val := some val })
  match onFirst (hasName name) set parent.child with
  | none => (none, childAdd parent { nodeNew .str (some name) with val := some val })
  | some (rc, child) => (rc, { parent with child })

/-- `set_arr_append`. -/
def setArrAppend (arr : CfgNode) (val : CStr) : Rc × CfgNode :=
  if arr.type ≠ .arr then (some .ENOTDIR, arr)
  else (none, childAdd arr { nodeNew .str none with val := some val })

/-- `set_arr_idx`. -/
def setArrIdx (arr : CfgNode) (idx : Int) (val : CStr) : Rc × CfgNode :=
  let set (node : CfgNode) : Rc × CfgNode :=
    if node.type ≠ .str then (some .ENOENT, node) else (none, { node with val := some val })
  if arr.type ≠ .arr then (some .ENOTDIR, arr)
  else
    match arrIdx arr idx with
    | .error _ => (some .ENOENT, arr)
    | .ok i =>
      match onNth set i arr.child with
      | none => (some .ENOENT, arr)
      | some (rc, child) => (rc, { arr with child })

/-- `del_arr`. -/
def delArr (arr : CfgNode) (idx : Int) : Rc × CfgNode :=
  match arrIdx arr idx with
  | .error _ => (some .ENOENT, arr)
  | .ok i =>
    if arr.child.length ≤ i then (some .ENOENT, arr)
    else (none, { arr with child := arr.child.eraseIdx i })

/-- `del_plain`. -/
def delPlain (parent : CfgNode) (name : CStr) : Rc × CfgNode :=
  if parent.child.any (hasName name) then
    (none, { parent with child := parent.child.eraseP (hasName name) })
  else (some .ENOENT, parent)

/-- The step of both walks at an index: work on the entry it stands for. -/
def atIndex (cur : CfgNode) (idx : Int) (f : CfgNode → Rc × CfgNode) : Rc × CfgNode :=
  if cur.type ≠ .arr then (some .ENOTDIR, cur)
  else
    match arrIdx cur idx with
    | .error e => (some e, cur)
    | .ok i =>
      match onNth f i cur.child with
      | none => (some .ENOENT, cur)
      | some (rc, child) => (rc, { cur with child })

/-- The kind of node the step in front of `tok` needs. -/
def wantType : Tok → CfgType
  | .key _ => .obj
  | _ => .arr

/-- The step of `cfg_set_str` at a key that is not the last token: the child of that name, created
when it is missing. -/
def enterKey (cur : CfgNode) (name : CStr) (want : CfgType) (f : CfgNode → Rc × CfgNode) :
    Rc × CfgNode :=
  let enter (child : CfgNode) : Rc × CfgNode :=
    if child.type ≠ want then (some .ENOTDIR, child) else f child
  if cur.type ≠ .obj then (some .ENOTDIR, cur)
  else
    match onFirst (hasName name) enter cur.child with
    | none =>
      let (rc, child) := f (nodeNew want (some name))
      (rc, childAdd cur child)
    | some (rc, child) => (rc, { cur with child })

/-- The walk of `cfg_set_str`. -/
def setToks (val : CStr) : List Tok → CfgNode → Rc × CfgNode
  | [], cur => (some .EINVAL, cur)
  | [.key k], cur =>
    if cur.type ≠ .obj then (some .ENOTDIR, cur) else setStrPlain cur k val
  | [.append], cur => setArrAppend cur val
  | [.index i], cur => setArrIdx cur i val
  | .append :: _ :: _, cur => (some .EINVAL, cur)
  | .index i :: t :: toks, cur => atIndex cur i (setToks val (t :: toks))
  | .key k :: t :: toks, cur => enterKey cur k (wantType t) (setToks val (t :: toks))

/-- The walk of `cfg_del`. -/
def delToks : List Tok → CfgNode → Rc × CfgNode
  | [], cur => (some .EINVAL, cur)
  | [.append], cur => (some .EINVAL, cur)
  | [.index i], cur => delArr cur i
  | [.key k], cur => if cur.type ≠ .obj then (some .ENOTDIR, cur) else delPlain cur k
  | .append :: _ :: _, cur => (some .EINVAL, cur)
  | .index i :: t :: toks, cur => atIndex cur i (delToks (t :: toks))
  | .key k :: t :: toks, cur =>
    if cur.type ≠ .obj then (some .ENOTDIR, cur)
    else
      match onFirst (hasName k) (delToks (t :: toks)) cur.child with
      | none => (some .ENOENT, cur)
      | some (rc, child) => (rc, { cur with child })

/-- `cfg_set_str`: the code it returns and the tree it leaves. -/
def cfgSetStr (cfg : CfgNode) (path val : CStr) : Rc × CfgNode :=
  match parsePath CFG_PATH_DEPTH_MAX path with
  | .error e => (some e, cfg)
  | .ok toks => setToks val toks cfg

/-- `cfg_del`: the code it returns and the tree it leaves. -/
def cfgDel (cfg : CfgNode) (path : CStr) : Rc × CfgNode :=
  match parsePath CFG_PATH_DEPTH_MAX path with
  | .error e => (some e, cfg)
  | .ok toks => delToks toks cfg

/-- A write keeps the name and the kind of the node it starts from. -/
theorem setToks_name_type (v : CStr) (toks : List Tok) (n : CfgNode) :
    (setToks v toks n).2.name = n.name ∧ (setToks v toks n).2.type = n.type := by
  fun_cases setToks v toks n
  all_goals try dsimp only [setStrPlain, setArrAppend, setArrIdx, atIndex, enterKey]
  all_goals repeat' split
  all_goals exact ⟨rfl, rfl⟩

theorem delToks_name_type (toks : List Tok) (n : CfgNode) :
    (delToks toks n).2.name = n.name ∧ (delToks toks n).2.type = n.type := by
  fun_cases delToks toks n
  all_goals try dsimp only [delArr, delPlain, atIndex]
  all_goals repeat' split
  all_goals exact ⟨rfl, rfl⟩

/-! ## The shape of a tree -/

/-- The shape of a node below which a path may take `d` more steps: strings have a value and no
children, the entries of an array are unnamed strings, and the children of an object have distinct
well-formed names. -/
inductive CfgNode.Wf : Nat → CfgNode → Prop
  | str {d : Nat} {name : Option CStr} {v : CStr} (hv : '\x00' ∉ v) :
    Wf d ⟨.str, name, some v, []⟩
  | arr {d : Nat} {name : Option CStr} {cs : List CfgNode} (hd : cs ≠ [] → 0 < d)
    (hn : ∀ c ∈ cs, c.name = none ∧ c.type = .str) (hc : ∀ c ∈ cs, Wf (d - 1) c) :
    Wf d ⟨.arr, name, none, cs⟩
  | obj {d : Nat} {name : Option CStr} {cs : List CfgNode} (hd : cs ≠ [] → 0 < d)
    (hn : ∀ c ∈ cs, ∃ k, c.name = some k ∧ IsKey k) (hnd : (cs.map CfgNode.name).Nodup)
    (hc : ∀ c ∈ cs, Wf (d - 1) c) : Wf d ⟨.obj, name, none, cs⟩

namespace CfgNode

variable {d : Nat} {n a a' : CfgNode} {l₁ l₂ cs : List CfgNode}

theorem Wf.child_wf (h : Wf d n) {c : CfgNode} (hc : c ∈ n.child) : Wf (d - 1) c := by
  cases h with
  | str _ => simp at hc
  | arr _ _ h => exact h c hc
  | obj _ _ _ h => exact h c hc

theorem Wf.names (h : Wf d n) (ht : n.type = .obj) :
    (n.child.map CfgNode.name).Nodup ∧ ∀ c ∈ n.child, ∃ k, c.name = some k ∧ IsKey k := by
  cases h with
  | str _ => cases ht
  | arr _ _ _ => cases ht
  | obj _ hn hnd _ => exact ⟨hnd, hn⟩

theorem Wf.entries (h : Wf d n) (ht : n.type = .arr) :
    ∀ c ∈ n.child, c.name = none ∧ c.type = .str := by
  cases h with
  | str _ => cases ht
  | obj _ _ _ _ => cases ht
  | arr _ hn _ => exact hn

theorem Wf.child_eq_nil (h : Wf d n) (ht : n.type = .str) : n.child = [] := by
  cases h with
  | str _ => rfl
  | arr _ _ _ => cases ht
  | obj _ _ _ _ => cases ht

theorem Wf.nodeNew {want : CfgType} (hw : want ≠ .str) (name : Option CStr) :
    Wf d (nodeNew want name) := by
  cases want with
  | obj => exact .obj (by simp) (by simp) (by simp) (by simp)
  | arr => exact .arr (by simp) (by simp) (by simp)
  | str => exact absurd rfl hw

/-- The only child of a name is the one that is found. -/
theorem Wf.find?_hasName (h : Wf d n) (ht : n.type = .obj) {c : CfgNode} (hc : c ∈ n.child)
    {k : CStr} (hk : c.name = some k) : n.child.find? (hasName k) = some c := by
  obtain ⟨hnd, -⟩ := h.names ht
  generalize n.child = cs at hnd hc
  induction cs with
  | nil => simp at hc
  | cons b cs ih =>
    rw [List.map_cons, List.nodup_cons] at hnd
    obtain rfl | hc := List.mem_cons.mp hc
    · rw [List.find?_cons_of_pos (by simp [hasName, hk])]
    · have hne : b.name ≠ some k := fun hb => hnd.1 (List.mem_map.mpr ⟨c, hc, hk.trans hb.symm⟩)
      rw [List.find?_cons_of_neg (by simpa [hasName] using hne)]
      exact ih hnd.2 hc

/-- Any part of the chain may be taken out. -/
theorem Wf.sublist (h : Wf d n) (hs : cs.Sublist n.child) : Wf d { n with child := cs } := by
  cases h with
  | str hv =>
    rw [List.sublist_nil.mp hs]
    exact .str hv
  | arr hd hn hc =>
    refine .arr (fun hne => hd ?_) (fun c m => hn c (hs.subset m)) fun c m => hc c (hs.subset m)
    rintro rfl
    exact hne (List.sublist_nil.mp hs)
  | obj hd hn hnd hc =>
    refine .obj (fun hne => hd ?_) (fun c m => hn c (hs.subset m)) (hnd.sublist (hs.map _))
      fun c m => hc c (hs.subset m)
    rintro rfl
    exact hne (List.sublist_nil.mp hs)

/-- A child may be replaced by one of the same name and kind. -/
theorem Wf.replace (h : Wf d n) (hs : n.child = l₁ ++ a :: l₂) (hn : a'.name = a.name)
    (ht : a'.type = a.type) (ha : Wf (d - 1) a') : Wf d { n with child := l₁ ++ a' :: l₂ } := by
  have hmem : ∀ c ∈ l₁ ++ a' :: l₂, c = a' ∨ c ∈ n.child := by
    intro c hc
    rw [hs]
    simp only [List.mem_append, List.mem_cons] at hc ⊢
    tauto
  have hmap : (l₁ ++ a' :: l₂).map CfgNode.name = n.child.map CfgNode.name := by
    rw [hs]
    simp [hn]
  have hpos : n.child ≠ [] := by simp [hs]
  have ham : a ∈ n.child := by simp [hs]
  cases h with
  | str hv => simp at hpos
  | arr hd hn' hc =>
    refine .arr (fun _ => hd hpos) (fun c m => ?_) fun c m => ?_
    · rcases hmem c m with rfl | m
      · rw [hn, ht]
        exact hn' a ham
      · exact hn' c m
    · rcases hmem c m with rfl | m
      · exact ha
      · exact hc c m
  | obj hd hn' hnd hc =>
    refine .obj (fun _ => hd hpos) (fun c m => ?_) (by rwa [hmap]) fun c m => ?_
    · rcases hmem c m with rfl | m
      · rw [hn]
        exact hn' a ham
      · exact hn' c m
    · rcases hmem c m with rfl | m
      · exact ha
      · exact hc c m

/-- A new name may be added to an object. -/
theorem Wf.childAdd_obj (h : Wf d n) (ht : n.type = .obj) (hd : 0 < d) {k : CStr} (hk : IsKey k)
    (hnew : ∀ c ∈ n.child, hasName k c = false) (hn : a.name = some k) (ha : Wf (d - 1) a) :
    Wf d (childAdd n a) := by
  cases h with
  | str _ => cases ht
  | arr _ _ _ => cases ht
  | @obj _ name cs _ hn' hnd hc =>
    refine .obj (fun _ => hd) (fun c m => ?_) ?_ fun c m => ?_
    · rcases List.mem_append.mp m with m | m
      · exact hn' c m
      · rw [List.mem_singleton.mp m]
        exact ⟨k, hn, hk⟩
    · rw [List.map_append, List.map_singleton, List.nodup_append]
      refine ⟨hnd, List.nodup_singleton _, fun x hx y hy => ?_⟩
      obtain ⟨c, hc, rfl⟩ := List.mem_map.mp hx
      rw [List.mem_singleton.mp hy, hn]
      simpa [hasName] using hnew c hc
    · rcases List.mem_append.mp m with m | m
      · exact hc c m
      · rw [List.mem_singleton.mp m]
        exact ha

/-- An unnamed string may be added to an array. -/
theorem Wf.childAdd_arr (h : Wf d n) (ht : n.type = .arr) (hd : 0 < d) (hn : a.name = none)
    (ha : a.type = .str) (hw : Wf (d - 1) a) : Wf d (childAdd n a) := by
  cases h with
  | str _ => cases ht
  | obj _ _ _ _ => cases ht
  | @arr _ name cs _ hn' hc =>
    refine .arr (fun _ => hd) (fun c m => ?_) fun c m => ?_
    · rcases List.mem_append.mp m with m | m
      · exact hn' c m
      · rw [List.mem_singleton.mp m]
        exact ⟨hn, ha⟩
    · rcases List.mem_append.mp m with m | m
      · exact hc c m
      · rw [List.mem_singleton.mp m]
        exact hw

/-- The value of a string may be replaced. -/
theorem Wf.setVal (h : Wf d n) (ht : n.type = .str) {v : CStr} (hv : '\x00' ∉ v) :
    Wf d { n with val := some v } := by
  cases h with
  | str _ => exact .str hv
  | arr _ _ _ => cases ht
  | obj _ _ _ _ => cases ht

end CfgNode

/-! ## Operations keep the shape -/

/-- An operation keeps the shape of the nodes at depth `d`, and their name and kind. -/
def Keeps (d : Nat) (f : CfgNode → Rc × CfgNode) : Prop :=
  ∀ n, n.Wf d → (f n).2.Wf d ∧ (f n).2.name = n.name ∧ (f n).2.type = n.type

section Keeps

variable {d : Nat} {n : CfgNode} {f : CfgNode → Rc × CfgNode} {k v : CStr} {rc : Rc}
  {cs : List CfgNode}

theorem Keeps.onFirst (hf : Keeps (d - 1) f) (h : n.Wf d) {p : CfgNode → Bool}
    (ho : onFirst p f n.child = some (rc, cs)) : CfgNode.Wf d { n with child := cs } := by
  obtain ⟨l₁, a, l₂, hs, -, -, -, rfl⟩ := onFirst_eq_some ho
  obtain ⟨hw, hn, ht⟩ := hf a (h.child_wf (by simp [hs]))
  exact h.replace hs hn ht hw

theorem Keeps.onNth (hf : Keeps (d - 1) f) (h : n.Wf d) {i : Nat}
    (ho : onNth f i n.child = some (rc, cs)) : CfgNode.Wf d { n with child := cs } := by
  obtain ⟨l₁, a, l₂, hs, -, -, rfl⟩ := onNth_eq_some ho
  obtain ⟨hw, hn, ht⟩ := hf a (h.child_wf (by simp [hs]))
  exact h.replace hs hn ht hw

theorem keeps_setVal (hv : '\x00' ∉ v) (e : Errno) : Keeps d fun node =>
    if node.type ≠ .str then (some e, node) else (none, { node with val := some v }) := by
  intro n h
  by_cases ht : n.type = .str
  · simpa [ht] using h.setVal ht hv
  · simpa [ht] using h

theorem keeps_setStrPlain (hd : 0 < d) (hk : IsKey k) (hv : '\x00' ∉ v) (h : n.Wf d)
    (ht : n.type = .obj) : (setStrPlain n k v).2.Wf d ∧ (setStrPlain n k v).2.name = n.name ∧
      (setStrPlain n k v).2.type = n.type := by
  simp only [setStrPlain]
  split
  · rename_i ho
    exact ⟨h.childAdd_obj ht hd hk (onFirst_eq_none.mp ho) rfl (.str hv), rfl, rfl⟩
  · rename_i ho
    exact ⟨(keeps_setVal hv _).onFirst h ho, rfl, rfl⟩

theorem keeps_setArrAppend (hd : 0 < d) (hv : '\x00' ∉ v) :
    Keeps d fun n => setArrAppend n v := by
  intro n h
  by_cases ht : n.type = .arr
  · simp only [setArrAppend, ht, ne_eq, not_true_eq_false, if_false]
    exact ⟨h.childAdd_arr ht hd rfl rfl (.str hv), rfl, ht⟩
  · simpa [setArrAppend, ht] using h

theorem keeps_setArrIdx (hv : '\x00' ∉ v) (i : Int) : Keeps d fun n => setArrIdx n i v := by
  intro n h
  simp only [setArrIdx]
  split
  · exact ⟨h, rfl, rfl⟩
  · split
    · exact ⟨h, rfl, rfl⟩
    · split
      · exact ⟨h, rfl, rfl⟩
      · rename_i ho
        exact ⟨(keeps_setVal hv _).onNth h ho, rfl, rfl⟩

theorem keeps_atIndex (hf : Keeps (d - 1) f) (i : Int) : Keeps d fun n => atIndex n i f := by
  intro n h
  simp only [atIndex]
  split
  · exact ⟨h, rfl, rfl⟩
  · split
    · exact ⟨h, rfl, rfl⟩
    · split
      · exact ⟨h, rfl, rfl⟩
      · rename_i ho
        exact ⟨hf.onNth h ho, rfl, rfl⟩

theorem keeps_enterKey (hd : 0 < d) (hk : IsKey k) {want : CfgType} (hw : want ≠ .str)
    (hf : Keeps (d - 1) f) : Keeps d fun n => enterKey n k want f := by
  intro n h
  simp only [enterKey]
  split
  · exact ⟨h, rfl, rfl⟩
  · rename_i ht
    rw [not_not] at ht
    split
    · rename_i ho
      obtain ⟨hwf, hn, -⟩ := hf (nodeNew want (some k)) (.nodeNew hw _)
      exact ⟨h.childAdd_obj ht hd hk (onFirst_eq_none.mp ho) hn hwf, rfl, rfl⟩
    · rename_i ho
      refine ⟨Keeps.onFirst (fun c hc => ?_) h ho, rfl, rfl⟩
      split
      · exact ⟨hc, rfl, rfl⟩
      · exact hf c hc

theorem wantType_ne_str (t : Tok) : wantType t ≠ .str := by
  cases t <;> simp [wantType]

/-- **A write keeps the shape of the tree**, whether it succeeds or fails. -/
theorem keeps_setToks {toks : List Tok} (hv : '\x00' ∉ v) (hl : toks.length ≤ d)
    (hk : ∀ t ∈ toks, t.Valid) : Keeps d (setToks v toks) := by
  induction toks generalizing d with
  | nil => exact fun n h => ⟨h, rfl, rfl⟩
  | cons tok toks ih =>
    have hd : 0 < d := by
      simp at hl
      omega
    have htok : tok.Valid := hk tok List.mem_cons_self
    cases toks with
    | nil =>
      cases tok with
      | key k =>
        intro n h
        by_cases ht : n.type = .obj
        · simpa [setToks, ht] using keeps_setStrPlain hd htok hv h ht
        · simpa [setToks, ht] using h
      | index i => exact keeps_setArrIdx hv i
      | append => exact keeps_setArrAppend hd hv
    | cons t toks =>
      have ih' : Keeps (d - 1) (setToks v (t :: toks)) :=
        ih (by simp at hl ⊢; omega) fun t' h => hk t' (List.mem_cons_of_mem tok h)
      cases tok with
      | key k => exact keeps_enterKey hd htok (wantType_ne_str t) ih'
      | index i => exact keeps_atIndex ih' i
      | append => exact fun n h => ⟨h, rfl, rfl⟩

theorem keeps_delArr (i : Int) : Keeps d fun n => delArr n i := by
  intro n h
  simp only [delArr]
  split
  · exact ⟨h, rfl, rfl⟩
  · split
    · exact ⟨h, rfl, rfl⟩
    · exact ⟨h.sublist (List.eraseIdx_sublist _ _), rfl, rfl⟩

theorem keeps_delPlain (k : CStr) : Keeps d fun n => delPlain n k := by
  intro n h
  simp only [delPlain]
  split
  · exact ⟨h.sublist (List.eraseP_sublist), rfl, rfl⟩
  · exact ⟨h, rfl, rfl⟩

/-- **A deletion keeps the shape of the tree**, whether it succeeds or fails. -/
theorem keeps_delToks (toks : List Tok) : Keeps d (delToks toks) := by
  induction toks generalizing d with
  | nil => exact fun n h => ⟨h, rfl, rfl⟩
  | cons tok toks ih =>
    cases toks with
    | nil =>
      cases tok with
      | key k =>
        intro n h
        by_cases ht : n.type = .obj
        · simpa [delToks, ht] using keeps_delPlain k n h
        · simpa [delToks, ht] using h
      | index i => exact keeps_delArr i
      | append => exact fun n h => ⟨h, rfl, rfl⟩
    | cons t toks =>
      cases tok with
      | key k =>
        intro n h
        simp only [delToks]
        split
        · exact ⟨h, rfl, rfl⟩
        · split
          · exact ⟨h, rfl, rfl⟩
          · rename_i ho
            exact ⟨ih.onFirst h ho, rfl, rfl⟩
      | index i => exact keeps_atIndex ih i
      | append => exact fun n h => ⟨h, rfl, rfl⟩

end Keeps

/-! ## Runs -/

/-- A call of `cfg_set_str` or `cfg_del`. -/
inductive CfgOp
  | set (path val : CStr)
  | del (path : CStr)

/-- The tree a call leaves. -/
def CfgOp.apply (cfg : CfgNode) : CfgOp → CfgNode
  | set path val => (cfgSetStr cfg path val).2
  | del path => (cfgDel cfg path).2

/-- The values of a call are C strings. -/
def CfgOp.NulFree : CfgOp → Prop
  | set _ val => '\x00' ∉ val
  | del _ => True

instance : (op : CfgOp) → Decidable op.NulFree
  | .set _ val => inferInstanceAs (Decidable ('\x00' ∉ val))
  | .del _ => inferInstanceAs (Decidable True)

/-- The tree a sequence of calls builds from the empty one. -/
def CfgOp.run (ops : List CfgOp) : CfgNode := ops.foldl CfgOp.apply cfgInit

/-- The shape of a whole tree. -/
structure WfRoot (cfg : CfgNode) : Prop where
  wf : cfg.Wf CFG_PATH_DEPTH_MAX
  name : cfg.name = none
  type : cfg.type = .obj

theorem wfRoot_cfgInit : WfRoot cfgInit := ⟨.nodeNew (by simp) _, rfl, rfl⟩

theorem WfRoot.keeps {cfg : CfgNode} (h : WfRoot cfg) {f : CfgNode → Rc × CfgNode}
    (hf : Keeps CFG_PATH_DEPTH_MAX f) : WfRoot (f cfg).2 := by
  obtain ⟨hw, hn, ht⟩ := hf cfg h.wf
  exact ⟨hw, hn.trans h.name, ht.trans h.type⟩

theorem WfRoot.cfgSetStr {cfg : CfgNode} (h : WfRoot cfg) (path : CStr) {val : CStr}
    (hv : '\x00' ∉ val) : WfRoot (cfgSetStr cfg path val).2 := by
  unfold Netrec.cfgSetStr
  split
  · exact h
  · rename_i hp
    obtain ⟨hl, hk⟩ := parsePath_eq_ok hp
    exact h.keeps (keeps_setToks hv hl hk)

theorem WfRoot.cfgDel {cfg : CfgNode} (h : WfRoot cfg) (path : CStr) : WfRoot (cfgDel cfg path).2 := by
  unfold Netrec.cfgDel
  split
  · exact h
  · exact h.keeps (keeps_delToks _)

/-- **Every tree that writes and deletions build has the shape.** -/
theorem CfgOp.run_wf {ops : List CfgOp} (hv : ∀ op ∈ ops, op.NulFree) : WfRoot (CfgOp.run ops) := by
  have key : ∀ cfg, WfRoot cfg → WfRoot (ops.foldl CfgOp.apply cfg) := by
    induction ops with
    | nil => exact fun _ h => h
    | cons op ops ih =>
      intro cfg h
      refine ih (fun o ho => hv o (List.mem_cons_of_mem op ho)) _ ?_
      cases op with
      | set path val => exact h.cfgSetStr path (hv _ List.mem_cons_self)
      | del path => exact h.cfgDel path
  exact key cfgInit wfRoot_cfgInit

end Netrec
