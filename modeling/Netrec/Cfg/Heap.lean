import Netrec.CLib.Heap
import Netrec.Cfg.Text
import Netrec.Cfg.Writes

/-!
# The configuration tree in memory

`cfg.c` keeps the tree as nodes that point to their first and last child and to their next sibling
and count their children. Here its operations are modelled on a heap of such nodes. They do what the
operations on trees do, so that a run on the heap represents the same run on trees, and every
pointer and counter is right in every state a run can reach.

## Main definitions

* `NodeData`: the fields of `struct cfg_node` that are not pointers
* `Ptr.cfgInit`, `Ptr.cfgSetStr`, `Ptr.cfgDel`: the calls of `cfg.c` on the heap
* `Refines F f`: an operation on the heap does what an operation on trees does
* `TreeInv`: the representation invariant

## Main results

* `refines_setToks`, `refines_delToks`: the walks on the heap refine those on trees
* `run_represents`: a run on the heap represents the run on trees
* `tree_invariant`: the representation invariant holds in every reachable state
-/

namespace Netrec

open CLib

/-- The type, the name and the value of a `struct cfg_node`. -/
structure NodeData where
  type : CfgType
  name : Option CStr
  val : Option CStr

/-- The memory of a configuration. -/
abbrev CfgHeap := Heap NodeData

namespace Ptr

/-! ## The operations -/

/-- The type of a node. -/
def type (h : CfgHeap) (a : Nat) : CfgType := (h.cells a).data.type

/-- The name of a node. -/
def name (h : CfgHeap) (a : Nat) : Option CStr := (h.cells a).data.name

/-- `node_new`. -/
def nodeNew (h : CfgHeap) (type : CfgType) (name : Option CStr) : Nat × CfgHeap :=
  h.alloc ⟨type, name, none⟩

/-- `node->val = copy`. -/
def setVal (h : CfgHeap) (node : Nat) (val : CStr) : CfgHeap :=
  h.modify node fun c => { c with data := { c.data with val := some val } }

/-- `obj_find`. -/
def objFind (h : CfgHeap) (obj : Nat) (k : CStr) : Option Nat :=
  if type h obj ≠ .obj then none else (h.chain obj).find? fun c => name h c = some k

/-- `arr_idx`. -/
def arrIdx (h : CfgHeap) (arr : Nat) (idx : Int) : Except Errno Nat :=
  if type h arr ≠ .arr then .error .ENOTDIR
  else if 0 ≤ idx then
    if idx ≥ (h.cells arr).count then .error .ENOENT else .ok idx.toNat
  else if (h.cells arr).count + idx < 0 then .error .ENOENT
  else .ok ((h.cells arr).count + idx).toNat

/-- `arr_nth`. -/
def arrNth (h : CfgHeap) (arr idx : Nat) : Option Nat := (h.chain arr)[idx]?

/-- `set_str_plain`. -/
def setStrPlain (h : CfgHeap) (parent : Nat) (k val : CStr) : Rc × CfgHeap :=
  match objFind h parent k with
  | none =>
    let (node, h) := nodeNew h .str (some k)
    (none, setVal (h.childAdd parent node) node val)
  | some node => if type h node ≠ .str then (some .EISDIR, h) else (none, setVal h node val)

/-- `set_arr_append`. -/
def setArrAppend (h : CfgHeap) (arr : Nat) (val : CStr) : Rc × CfgHeap :=
  if type h arr ≠ .arr then (some .ENOTDIR, h)
  else
    let (node, h) := nodeNew h .str none
    (none, (setVal h node val).childAdd arr node)

/-- `set_arr_idx`. -/
def setArrIdx (h : CfgHeap) (arr : Nat) (idx : Int) (val : CStr) : Rc × CfgHeap :=
  if type h arr ≠ .arr then (some .ENOTDIR, h)
  else if idx ≥ 0 ∧ idx = (h.cells arr).count then (some .ENOENT, h)
  else
    match arrIdx h arr idx with
    | .error _ => (some .ENOENT, h)
    | .ok i =>
      match arrNth h arr i with
      | none => (some .ENOENT, h)
      | some node => if type h node ≠ .str then (some .ENOENT, h) else (none, setVal h node val)

/-- `del_arr`. The node taken out is not used again. -/
def delArr (h : CfgHeap) (arr : Nat) (idx : Int) : Rc × CfgHeap :=
  if type h arr ≠ .arr then (some .ENOENT, h)
  else
    match arrIdx h arr idx with
    | .error _ => (some .ENOENT, h)
    | .ok n =>
      match Heap.seek (fun i _ => i = n) 0 none (h.chain arr) with
      | none => (some .ENOENT, h)
      | some (prev, node) => (none, h.unlink arr prev node)

/-- `del_plain`. The node taken out is not used again. -/
def delPlain (h : CfgHeap) (parent : Nat) (k : CStr) : Rc × CfgHeap :=
  match Heap.seek (fun _ c => name h c = some k) 0 none (h.chain parent) with
  | none => (some .ENOENT, h)
  | some (prev, node) => (none, h.unlink parent prev node)

/-- The step of both walks at an index. -/
def atIndex (h : CfgHeap) (cur : Nat) (idx : Int) (f : CfgHeap → Nat → Rc × CfgHeap) :
    Rc × CfgHeap :=
  if type h cur ≠ .arr then (some .ENOTDIR, h)
  else
    match arrIdx h cur idx with
    | .error e => (some e, h)
    | .ok i =>
      match arrNth h cur i with
      | none => (some .ENOENT, h)
      | some child => f h child

/-- The step of `cfg_set_str` at a key that is not the last token. -/
def enterKey (h : CfgHeap) (cur : Nat) (k : CStr) (want : CfgType)
    (f : CfgHeap → Nat → Rc × CfgHeap) : Rc × CfgHeap :=
  if type h cur ≠ .obj then (some .ENOTDIR, h)
  else
    match objFind h cur k with
    | none =>
      let (child, h) := nodeNew h want (some k)
      f (h.childAdd cur child) child
    | some child => if type h child ≠ want then (some .ENOTDIR, h) else f h child

/-- The walk of `cfg_set_str`. -/
def setToks (val : CStr) : List Tok → CfgHeap → Nat → Rc × CfgHeap
  | [], h, _ => (some .EINVAL, h)
  | [.key k], h, cur => if type h cur ≠ .obj then (some .ENOTDIR, h) else setStrPlain h cur k val
  | [.append], h, cur => setArrAppend h cur val
  | [.index i], h, cur => setArrIdx h cur i val
  | .append :: _ :: _, h, _ => (some .EINVAL, h)
  | .index i :: t :: toks, h, cur => atIndex h cur i (setToks val (t :: toks))
  | .key k :: t :: toks, h, cur => enterKey h cur k (wantType t) (setToks val (t :: toks))

/-- The walk of `cfg_del`. -/
def delToks : List Tok → CfgHeap → Nat → Rc × CfgHeap
  | [], h, _ => (some .EINVAL, h)
  | [.append], h, _ => (some .EINVAL, h)
  | [.index i], h, cur => delArr h cur i
  | [.key k], h, cur => if type h cur ≠ .obj then (some .ENOTDIR, h) else delPlain h cur k
  | .append :: _ :: _, h, _ => (some .EINVAL, h)
  | .index i :: t :: toks, h, cur => atIndex h cur i (delToks (t :: toks))
  | .key k :: t :: toks, h, cur =>
    if type h cur ≠ .obj then (some .ENOTDIR, h)
    else
      match objFind h cur k with
      | none => (some .ENOENT, h)
      | some child => delToks (t :: toks) h child

/-- The root node, which is part of `struct cfg`. -/
def root : Nat := 0

/-- `cfg_init`. -/
def cfgInit : CfgHeap where
  cells _ := ⟨⟨.obj, none, none⟩, none, none, none, 0⟩
  fresh := 1
  fault := false

/-- `cfg_set_str`. -/
def cfgSetStr (h : CfgHeap) (path val : CStr) : Rc × CfgHeap :=
  match parsePath CFG_PATH_DEPTH_MAX path with
  | .error e => (some e, h)
  | .ok toks => setToks val toks h root

/-- `cfg_del`. -/
def cfgDel (h : CfgHeap) (path : CStr) : Rc × CfgHeap :=
  match parsePath CFG_PATH_DEPTH_MAX path with
  | .error e => (some e, h)
  | .ok toks => delToks toks h root

/-- The memory a call leaves. -/
def apply (h : CfgHeap) : CfgOp → CfgHeap
  | .set path val => (cfgSetStr h path val).2
  | .del path => (cfgDel h path).2

/-- The memory after a sequence of calls on an empty configuration. -/
def run (ops : List CfgOp) : CfgHeap := ops.foldl apply cfgInit

end Ptr

/-! ## Refinement -/

mutual

/-- The tree that a tree in memory stands for. -/
def node : HTree NodeData → CfgNode
  | ⟨_, d, cs⟩ => ⟨d.type, d.name, d.val, nodes cs⟩

/-- The trees that a list of trees in memory stands for. -/
def nodes : List (HTree NodeData) → List CfgNode
  | [] => []
  | c :: cs => node c :: nodes cs

end

theorem nodes_eq (cs : List (HTree NodeData)) : nodes cs = cs.map node := by
  induction cs with
  | nil => simp [nodes]
  | cons c cs ih => simp [nodes, ih]

theorem node_eq (t : HTree NodeData) :
    node t = ⟨t.data.type, t.data.name, t.data.val, t.child.map node⟩ := by
  obtain ⟨a, d, cs⟩ := t
  rw [node, nodes_eq]

/-- An operation on the heap does to a tree in memory what an operation on trees does. -/
def Refines (F : CfgHeap → Nat → Rc × CfgHeap) (f : CfgNode → Rc × CfgNode) : Prop :=
  ∀ h t, Good h t → ∃ t', (F h t.addr).1 = (f (node t)).1 ∧ node t' = (f (node t)).2 ∧
    Step h (F h t.addr).2 t t'

section Lookup

variable {h : CfgHeap} {t : HTree NodeData} {k : CStr}

theorem node_child (t : HTree NodeData) : (node t).child = t.child.map node := by rw [node_eq]

theorem type_eq (hg : Good h t) : Ptr.type h t.addr = (node t).type := by
  rw [Ptr.type, hg.holds.data, node_eq]

theorem name_eq (hg : Good h t) : Ptr.name h t.addr = (node t).name := by
  rw [Ptr.name, hg.holds.data, node_eq]

/-- A node with other children. -/
theorem node_with_child (t : HTree NodeData) (cs : List (HTree NodeData)) :
    node { t with child := cs } = { node t with child := cs.map node } := by
  rw [node_eq, node_eq]

theorem node_split {l₁ l₂ : List (HTree NodeData)} {c : HTree NodeData}
    (hs : t.child = l₁ ++ c :: l₂) : (node t).child = l₁.map node ++ node c :: l₂.map node := by
  rw [node_child, hs]
  simp

/-- The test of the loops over names, on the heap and on trees. -/
theorem name_test (hg : Good h t) {c : HTree NodeData} (hc : c ∈ t.child) :
    decide (Ptr.name h c.addr = some k) = hasName k (node c) := by
  rw [name_eq (hg.child hc), hasName]

/-- `obj_find` finds no child of that name, or the first one. -/
theorem objFind_cases (hg : Good h t) (ht : (node t).type = .obj) (k : CStr) :
    (Ptr.objFind h t.addr k = none ∧ objFind (node t) k = none) ∨
    ∃ l₁ c l₂, t.child = l₁ ++ c :: l₂ ∧ (∀ b ∈ l₁.map node, hasName k b = false) ∧
      hasName k (node c) ∧ Ptr.objFind h t.addr k = some c.addr := by
  have hfind : Ptr.objFind h t.addr k =
      (t.child.map HTree.addr).find? fun c => Ptr.name h c = some k := by
    rw [Ptr.objFind, type_eq hg, if_neg (not_not.mpr ht), hg.chain_eq]
  rw [hfind, List.find?_map]
  cases hf : t.child.find? ((fun c => decide (Ptr.name h c = some k)) ∘ HTree.addr) with
  | none =>
    refine .inl ⟨rfl, (objFind_eq_none_iff ht).mpr fun b hb => ?_⟩
    rw [node_child] at hb
    obtain ⟨c, hc, rfl⟩ := List.mem_map.mp hb
    rw [← name_test hg hc]
    simpa using List.find?_eq_none.mp hf c hc
  | some c =>
    obtain ⟨hc, l₁, l₂, hs, hl⟩ := List.find?_eq_some_iff_append.mp hf
    refine .inr ⟨l₁, c, l₂, hs, fun b hb => ?_, ?_, rfl⟩
    · obtain ⟨b, hbl, rfl⟩ := List.mem_map.mp hb
      rw [← name_test hg (by simp [hs, hbl])]
      simpa using hl b hbl
    · rw [← name_test hg (by simp [hs])]
      simpa using hc

theorem arrIdx_node (hg : Good h t) (i : Int) : Ptr.arrIdx h t.addr i = arrIdx (node t) i := by
  have hlen : (node t).child.length = t.child.length := by rw [node_child, List.length_map]
  rw [Ptr.arrIdx, arrIdx, type_eq hg, hg.holds.count, hlen]

/-- The entry at a position that is in range. -/
theorem arrNth_split (hg : Good h t) {i : Int} {j : Nat} (hi : arrIdx (node t) i = .ok j) :
    ∃ l₁ c l₂, t.child = l₁ ++ c :: l₂ ∧ l₁.length = j ∧ Ptr.arrNth h t.addr j = some c.addr := by
  have hj : j < t.child.length := by
    have hlen : (node t).child.length = t.child.length := by rw [node_child, List.length_map]
    rw [arrIdx_eq] at hi
    split_ifs at hi
    cases hp : position (node t).child.length i with
    | none => simp [hp] at hi
    | some m =>
      obtain rfl : m = j := by simpa [hp] using hi
      have := position_lt hp
      omega
  refine ⟨t.child.take j, t.child[j], t.child.drop (j + 1), by simp, by simp; omega, ?_⟩
  rw [Ptr.arrNth, hg.chain_eq, List.getElem?_map, List.getElem?_eq_getElem hj, Option.map_some]

end Lookup

section Refinement

variable {F : CfgHeap → Nat → Rc × CfgHeap} {f : CfgNode → Rc × CfgNode}

/-- An operation that fails at once. -/
theorem refines_error (e : Errno) : Refines (fun h _ => (some e, h)) fun n => (some e, n) :=
  fun _ t hg => ⟨t, rfl, rfl, .refl hg⟩

/-- What an operation does to a child it does to the tree around it. -/
theorem Refines.child (hF : Refines F f) {h : CfgHeap} {t c : HTree NodeData}
    {l₁ l₂ : List (HTree NodeData)} (hg : Good h t) (hs : t.child = l₁ ++ c :: l₂) :
    ∃ t', (F h c.addr).1 = (f (node c)).1 ∧
      node t' = { node t with child := l₁.map node ++ (f (node c)).2 :: l₂.map node } ∧
      Step h (F h c.addr).2 t t' := by
  obtain ⟨c', hrc, hnode, hstep⟩ := hF h c (hg.child (by simp [hs]))
  refine ⟨{ t with child := l₁ ++ c' :: l₂ }, hrc, ?_, hstep.lift hg hs⟩
  rw [node_with_child, List.map_append, List.map_cons, hnode]

/-- A check of the type of the node in front of an operation. -/
theorem Refines.guard {want : CfgType} {e : Errno}
    (hF : ∀ h t, Good h t → (node t).type = want → ∃ t', (F h t.addr).1 = (f (node t)).1 ∧
      node t' = (f (node t)).2 ∧ Step h (F h t.addr).2 t t') :
    Refines (fun h a => if Ptr.type h a ≠ want then (some e, h) else F h a)
      fun n => if n.type ≠ want then (some e, n) else f n := by
  intro h t hg
  by_cases ht : (node t).type = want
  · simp only [type_eq hg, ht, ne_eq, not_true_eq_false, if_false]
    exact hF h t hg ht
  · refine ⟨t, ?_, ?_, ?_⟩
    · simp [type_eq hg, ht]
    · simp [ht]
    · simpa [type_eq hg, ht] using .refl hg

/-- `node->val = copy`. -/
theorem refines_setVal (v : CStr) :
    Refines (fun h a => (none, Ptr.setVal h a v)) fun n => (none, { n with val := some v }) := by
  intro h t hg
  have hset : Ptr.setVal h t.addr v =
      h.modify t.addr fun c => { c with data := { t.data with val := some v } } := by
    simp only [Ptr.setVal, Heap.modify, hg.holds.data]
  refine ⟨{ t with data := { t.data with val := some v } }, rfl, ?_, ?_⟩
  · rw [node_eq, node_eq]
  · show Step h (Ptr.setVal h t.addr v) t _
    rw [hset]
    exact modify_data_step hg _

/-- `node->val = copy` on a node that has to be a string. -/
theorem refines_setStr (v : CStr) (e : Errno) :
    Refines (fun h a => if Ptr.type h a ≠ .str then (some e, h) else (none, Ptr.setVal h a v))
      fun n => if n.type ≠ .str then (some e, n) else (none, { n with val := some v }) :=
  .guard fun h t hg _ => refines_setVal v h t hg

/-- A new child at the end. -/
theorem nodeNew_step {h : CfgHeap} {t : HTree NodeData} (hg : Good h t) (type : CfgType)
    (name : Option CStr) :
    Step h ((Ptr.nodeNew h type name).2.childAdd t.addr h.fresh) t
      { t with child := t.child ++ [⟨h.fresh, ⟨type, name, none⟩, []⟩] } :=
  childAdd_step hg (fun _ ha => if_neg ha) (if_pos rfl) rfl rfl

/-- An operation on a new child, which is added first. -/
theorem Refines.newChild (hF : Refines F f) {h : CfgHeap} {t : HTree NodeData} (hg : Good h t)
    (type : CfgType) (name : Option CStr) :
    ∃ t', (F ((Ptr.nodeNew h type name).2.childAdd t.addr h.fresh) h.fresh).1 =
        (f (nodeNew type name)).1 ∧
      node t' = childAdd (node t) (f (nodeNew type name)).2 ∧
      Step h (F ((Ptr.nodeNew h type name).2.childAdd t.addr h.fresh) h.fresh).2 t t' := by
  have hadd := nodeNew_step hg type name
  obtain ⟨t', hrc, hnode, hstep⟩ := @Refines.child _ _ hF _ _ _ t.child [] hadd.good rfl
  have hnew : node ⟨h.fresh, ⟨type, name, none⟩, []⟩ = nodeNew type name := by
    rw [node_eq]
    rfl
  rw [hnew] at hrc hnode
  refine ⟨t', hrc, ?_, hadd.trans hstep⟩
  rw [hnode, node_with_child, childAdd, node_child]
  rfl

theorem setStrPlain_of_split {n c : CfgNode} {k : CStr} {l₁ l₂ : List CfgNode}
    (hs : n.child = l₁ ++ c :: l₂) (hl : ∀ b ∈ l₁, hasName k b = false) (hc : hasName k c)
    (v : CStr) :
    setStrPlain n k v =
      ((if c.type ≠ .str then (some .EISDIR, c) else (none, { c with val := some v }) :
          Rc × CfgNode).1,
        { n with child := l₁ ++ (if c.type ≠ .str then (some .EISDIR, c)
          else (none, { c with val := some v }) : Rc × CfgNode).2 :: l₂ }) := by
  simp only [setStrPlain, hs, onFirst_append_of_forall_not _ hl hc]

theorem setStrPlain_of_none {n : CfgNode} {k : CStr} (hl : ∀ b ∈ n.child, hasName k b = false)
    (v : CStr) :
    setStrPlain n k v = (none, childAdd n { nodeNew .str (some k) with val := some v }) := by
  simp only [setStrPlain, onFirst_eq_none.mpr hl]

theorem refines_setStrPlain (k v : CStr) :
    Refines (fun h a => if Ptr.type h a ≠ .obj then (some .ENOTDIR, h)
        else Ptr.setStrPlain h a k v)
      fun n => if n.type ≠ .obj then (some .ENOTDIR, n) else setStrPlain n k v := by
  refine .guard fun h t hg ht => ?_
  obtain ⟨hnone, hnone'⟩ | ⟨l₁, c, l₂, hs, hl, hc, hsome⟩ := objFind_cases hg ht k
  · obtain ⟨t', hrc, hnode, hstep⟩ := (refines_setVal v).newChild hg .str (some k)
    rw [setStrPlain_of_none ((objFind_eq_none_iff ht).mp hnone')]
    simp only [Ptr.setStrPlain, hnone]
    exact ⟨t', trivial, hnode, hstep⟩
  · obtain ⟨t', hrc, hnode, hstep⟩ := (refines_setStr v .EISDIR).child hg hs
    rw [setStrPlain_of_split (node_split hs) hl hc]
    simp only [Ptr.setStrPlain, hsome]
    exact ⟨t', hrc, hnode, hstep⟩

theorem refines_setArrAppend (v : CStr) :
    Refines (fun h a => Ptr.setArrAppend h a v) fun n => setArrAppend n v := by
  refine .guard fun h t hg ht => ?_
  have hstep : Step h ((Ptr.setVal (Ptr.nodeNew h .str none).2 h.fresh v).childAdd t.addr h.fresh) t
      { t with child := t.child ++ [⟨h.fresh, ⟨.str, none, some v⟩, []⟩] } := by
    refine childAdd_step hg (fun a ha => ?_) ?_ rfl rfl
    · rw [Ptr.setVal, Heap.modify_of_ne _ _ _ ha]
      exact if_neg ha
    · rw [Ptr.setVal, Heap.modify_self]
      simp [Ptr.nodeNew, Heap.alloc]
  refine ⟨_, rfl, ?_, hstep⟩
  rw [node_with_child, childAdd, node_child, List.map_append, List.map_singleton, node_eq ⟨_, _, _⟩]
  rfl

/-- The step of a walk at an index. -/
theorem Refines.atIndex (hF : Refines F f) (i : Int) :
    Refines (fun h a => Ptr.atIndex h a i F) fun n => atIndex n i f := by
  refine .guard fun h t hg ht => ?_
  rw [arrIdx_node hg]
  cases hi : arrIdx (node t) i with
  | error e => exact ⟨t, rfl, rfl, .refl hg⟩
  | ok j =>
    obtain ⟨l₁, c, l₂, hs, hlen, hnth⟩ := arrNth_split hg hi
    obtain ⟨t', hrc, hnode, hstep⟩ := hF.child hg hs
    have honNth : onNth f j (node t).child = some ((f (node c)).1,
        l₁.map node ++ (f (node c)).2 :: l₂.map node) := by
      rw [node_split hs, onNth_append (by simpa using hlen)]
    simp only [hnth, honNth]
    exact ⟨t', hrc, hnode, hstep⟩

theorem refines_setArrIdx (i : Int) (v : CStr) :
    Refines (fun h a => Ptr.setArrIdx h a i v) fun n => setArrIdx n i v := by
  refine .guard fun h t hg ht => ?_
  rw [arrIdx_node hg]
  cases hi : arrIdx (node t) i with
  | error e =>
    refine ⟨t, ?_, rfl, ?_⟩
    · split_ifs <;> rfl
    · split_ifs <;> exact .refl hg
  | ok j =>
    obtain ⟨l₁, c, l₂, hs, hlen, hnth⟩ := arrNth_split hg hi
    obtain ⟨t', hrc, hnode, hstep⟩ := (refines_setStr v .ENOENT).child hg hs
    -- the index behind the last entry is out of range anyway
    have hend : ¬ (i ≥ 0 ∧ i = (h.cells t.addr).count) := by
      rintro ⟨h0, hn⟩
      rw [hg.holds.count] at hn
      have hlen' : (node t).child.length = t.child.length := by rw [node_child, List.length_map]
      rw [arrIdx, if_neg (not_not.mpr ht), if_pos h0, if_pos (by omega)] at hi
      cases hi
    rw [if_neg hend]
    simp only [hnth, node_split hs]
    rw [onNth_append (by simpa using hlen)]
    exact ⟨t', hrc, hnode, hstep⟩

/-- The step of `cfg_set_str` at a key that is not the last token. -/
theorem Refines.enterKey (hF : Refines F f) (k : CStr) (want : CfgType) :
    Refines (fun h a => Ptr.enterKey h a k want F) fun n => enterKey n k want f := by
  intro h t hg
  by_cases ht : (node t).type = .obj
  · simp only [Ptr.enterKey, type_eq hg, ht, ne_eq, not_true_eq_false, if_false]
    obtain ⟨hnone, hnone'⟩ | ⟨l₁, c, l₂, hs, hl, hc, hsome⟩ := objFind_cases hg ht k
    · obtain ⟨t', hrc, hnode, hstep⟩ := hF.newChild hg want (some k)
      rw [enterKey_of_none ht hnone']
      simp only [hnone]
      exact ⟨t', hrc, hnode, hstep⟩
    · have hgc := hg.child (c := c) (by simp [hs])
      rw [enterKey_of_split ht (node_split hs) hl hc]
      simp only [hsome, type_eq hgc]
      by_cases htc : (node c).type = want
      · obtain ⟨t', hrc, hnode, hstep⟩ := hF.child hg hs
        simp only [htc, ne_eq, not_true_eq_false, if_false]
        exact ⟨t', hrc, hnode, hstep⟩
      · simp only [htc, ne_eq, not_false_eq_true, if_true]
        exact ⟨t, trivial, rfl, .refl hg⟩
  · have hp : Ptr.enterKey h t.addr k want F = (some .ENOTDIR, h) := by
      rw [Ptr.enterKey, type_eq hg, if_pos ht]
    have hn : Netrec.enterKey (node t) k want f = (some .ENOTDIR, node t) := by
      rw [Netrec.enterKey, if_pos ht]
    simp only [hp, hn]
    exact ⟨t, trivial, rfl, .refl hg⟩

/-- A child is taken out. -/
theorem unlink_refines {h : CfgHeap} {t c : HTree NodeData} {l₁ l₂ : List (HTree NodeData)}
    (hg : Good h t) (hs : t.child = l₁ ++ c :: l₂) :
    ∃ t', node t' = { node t with child := l₁.map node ++ l₂.map node } ∧
      Step h (h.unlink t.addr (l₁.map HTree.addr).getLast? c.addr) t t' :=
  ⟨_, by rw [node_with_child, List.map_append], unlink_step hg hs⟩

theorem refines_delArr (i : Int) :
    Refines (fun h a => Ptr.delArr h a i) fun n => delArr n i := by
  intro h t hg
  by_cases ht : (node t).type = .arr
  · cases hi : arrIdx (node t) i with
    | error e =>
      have hp : Ptr.delArr h t.addr i = (some .ENOENT, h) := by
        simp only [Ptr.delArr, type_eq hg, ht, ne_eq, not_true_eq_false, if_false, arrIdx_node hg, hi]
      have hn : delArr (node t) i = (some .ENOENT, node t) := by simp only [delArr, hi]
      simp only [hp, hn]
      exact ⟨t, trivial, rfl, .refl hg⟩
    | ok j =>
      obtain ⟨l₁, c, l₂, hs, hlen, -⟩ := arrNth_split hg hi
      have hseek : Heap.seek (fun i _ => decide (i = j)) 0 none (h.chain t.addr) =
          some ((l₁.map HTree.addr).getLast?, c.addr) := by
        rw [hg.chain_eq, hs, List.map_append, List.map_cons, Heap.seek_append]
        · simp
        · intro m a ha
          have hm : m < (l₁.map HTree.addr).length := (List.getElem?_eq_some_iff.mp ha).1
          simp at hm ⊢
          omega
        · simpa using hlen
      have hp : Ptr.delArr h t.addr i =
          (none, h.unlink t.addr (l₁.map HTree.addr).getLast? c.addr) := by
        simp only [Ptr.delArr, type_eq hg, ht, ne_eq, not_true_eq_false, if_false, arrIdx_node hg,
          hi, hseek]
      have hlt : ¬ (node t).child.length ≤ j := by
        rw [node_split hs]
        simp
        omega
      have herase : (node t).child.eraseIdx j = l₁.map node ++ l₂.map node := by
        rw [node_split hs, List.eraseIdx_append_of_length_le (by simp [hlen])]
        simp [hlen]
      have hn : delArr (node t) i =
          (none, { node t with child := l₁.map node ++ l₂.map node }) := by
        simp only [delArr, hi, if_neg hlt, herase]
      obtain ⟨t', hnode, hstep⟩ := unlink_refines hg hs
      simp only [hp, hn]
      exact ⟨t', trivial, hnode, hstep⟩
  · have hp : Ptr.delArr h t.addr i = (some .ENOENT, h) := by
      rw [Ptr.delArr, type_eq hg, if_pos ht]
    have hn : delArr (node t) i = (some .ENOENT, node t) := by
      simp [delArr, arrIdx_eq, ht]
    simp only [hp, hn]
    exact ⟨t, trivial, rfl, .refl hg⟩

theorem refines_delPlain (k : CStr) :
    Refines (fun h a => Ptr.delPlain h a k) fun n => delPlain n k := by
  intro h t hg
  cases hf : t.child.find? fun c => hasName k (node c) with
  | none =>
    have hno : ∀ c ∈ t.child, hasName k (node c) = false := by simpa using hf
    have hp : Ptr.delPlain h t.addr k = (some .ENOENT, h) := by
      rw [Ptr.delPlain, hg.chain_eq, Heap.seek_eq_none]
      intro j a ha
      obtain ⟨c, hc, rfl⟩ := List.mem_map.mp (List.mem_of_getElem? ha)
      rw [name_test hg hc, hno c hc]
    have hany : (node t).child.any (hasName k) = false := by
      rw [node_child]
      simpa using hno
    have hn : delPlain (node t) k = (some .ENOENT, node t) := by
      rw [delPlain, if_neg (by simp [hany])]
    simp only [hp, hn]
    exact ⟨t, trivial, rfl, .refl hg⟩
  | some c =>
    obtain ⟨hc, l₁, l₂, hs, hl⟩ := List.find?_eq_some_iff_append.mp hf
    have hp : Ptr.delPlain h t.addr k =
        (none, h.unlink t.addr (l₁.map HTree.addr).getLast? c.addr) := by
      rw [Ptr.delPlain, hg.chain_eq, hs, List.map_append, List.map_cons, Heap.seek_append]
      · simp
      · intro j a ha
        obtain ⟨b, hb, rfl⟩ := List.mem_map.mp (List.mem_of_getElem? ha)
        rw [name_test hg (by simp [hs, hb])]
        simpa using hl b hb
      · rw [name_test hg (by simp [hs])]
        exact hc
    have herase : (node t).child.eraseP (hasName k) = l₁.map node ++ l₂.map node := by
      rw [node_split hs, List.eraseP_append_right _ (by simpa using hl), List.eraseP_cons_of_pos hc]
    have hany : (node t).child.any (hasName k) = true := by
      rw [node_split hs]
      simp [hc]
    have hn : delPlain (node t) k =
        (none, { node t with child := l₁.map node ++ l₂.map node }) := by
      rw [delPlain, if_pos hany, herase]
    obtain ⟨t', hnode, hstep⟩ := unlink_refines hg hs
    simp only [hp, hn]
    exact ⟨t', trivial, hnode, hstep⟩

/-- **The walk of `cfg_set_str` on the heap refines the walk on trees.** -/
theorem refines_setToks (v : CStr) (toks : List Tok) : Refines (Ptr.setToks v toks) (setToks v toks) := by
  induction toks with
  | nil => exact refines_error .EINVAL
  | cons t toks ih =>
    cases toks with
    | nil =>
      cases t with
      | key k => exact refines_setStrPlain k v
      | append => exact refines_setArrAppend v
      | index i => exact refines_setArrIdx i v
    | cons t' toks =>
      cases t with
      | key k => exact ih.enterKey k (wantType t')
      | append => exact refines_error .EINVAL
      | index i => exact ih.atIndex i

/-- **The walk of `cfg_del` on the heap refines the walk on trees.** -/
theorem refines_delToks (toks : List Tok) : Refines (Ptr.delToks toks) (delToks toks) := by
  induction toks with
  | nil => exact refines_error .EINVAL
  | cons t toks ih =>
    cases toks with
    | nil =>
      cases t with
      | key k => exact .guard fun h t hg _ => refines_delPlain k h t hg
      | append => exact refines_error .EINVAL
      | index i => exact refines_delArr i
    | cons t' toks =>
      cases t with
      | append => exact refines_error .EINVAL
      | index i => exact ih.atIndex i
      | key k =>
        refine .guard fun h t hg ht => ?_
        obtain ⟨hnone, hnone'⟩ | ⟨l₁, c, l₂, hs, hl, hc, hsome⟩ := objFind_cases hg ht k
        · simp only [hnone, onFirst_eq_none.mpr ((objFind_eq_none_iff ht).mp hnone')]
          exact ⟨t, trivial, rfl, .refl hg⟩
        · obtain ⟨t', hrc, hnode, hstep⟩ := ih.child hg hs
          simp only [hsome, node_split hs, onFirst_append_of_forall_not _ hl hc]
          exact ⟨t', hrc, hnode, hstep⟩

end Refinement

/-! ## Runs -/

/-- The heap holds the tree at the root, and nothing has gone wrong. -/
def Represents (h : CfgHeap) (cfg : CfgNode) : Prop :=
  h.fault = false ∧ ∃ t, t.addr = Ptr.root ∧ Good h t ∧ node t = cfg

theorem represents_cfgInit : Represents Ptr.cfgInit cfgInit := by
  refine ⟨rfl, ⟨Ptr.root, ⟨.obj, none, none⟩, []⟩, rfl, ⟨?_, ?_, ?_⟩, ?_⟩
  · exact .mk rfl rfl rfl rfl trivial (by simp)
  · simp [HTree.addrs, HTree.addrsAll]
  · simp [HTree.addrs, HTree.addrsAll, Ptr.root, Ptr.cfgInit]
  · rw [node_eq]
    rfl

/-- A walk from the root returns the same code as on trees and leaves what it leaves on trees. -/
theorem Represents.walk {h : CfgHeap} {cfg : CfgNode} (hr : Represents h cfg)
    {F : CfgHeap → Nat → Rc × CfgHeap} {f : CfgNode → Rc × CfgNode} (hF : Refines F f) :
    (F h Ptr.root).1 = (f cfg).1 ∧ Represents (F h Ptr.root).2 (f cfg).2 := by
  obtain ⟨hfault, t, ht, hg, rfl⟩ := hr
  obtain ⟨t', hrc, hnode, hstep⟩ := hF h t hg
  rw [ht] at hrc hstep
  exact ⟨hrc, hstep.fault.trans hfault, t', hstep.addr.trans ht, hstep.good, hnode⟩

/-- One call. -/
theorem Represents.apply {h : CfgHeap} {cfg : CfgNode} (hr : Represents h cfg) (op : CfgOp) :
    Represents (Ptr.apply h op) (CfgOp.apply cfg op) := by
  cases op with
  | set path val =>
    simp only [Ptr.apply, CfgOp.apply, Ptr.cfgSetStr, cfgSetStr]
    cases parsePath CFG_PATH_DEPTH_MAX path with
    | error e => exact hr
    | ok toks => exact (hr.walk (refines_setToks val toks)).2
  | del path =>
    simp only [Ptr.apply, CfgOp.apply, Ptr.cfgDel, cfgDel]
    cases parsePath CFG_PATH_DEPTH_MAX path with
    | error e => exact hr
    | ok toks => exact (hr.walk (refines_delToks toks)).2

/-- **A run on the heap represents the run on trees.** -/
theorem run_represents (ops : List CfgOp) : Represents (Ptr.run ops) (CfgOp.run ops) := by
  have key : ∀ h cfg, Represents h cfg →
      Represents (ops.foldl Ptr.apply h) (ops.foldl CfgOp.apply cfg) := by
    induction ops with
    | nil => exact fun _ _ hr => hr
    | cons op ops ih => exact fun h cfg hr => ih _ _ (hr.apply op)
  exact key _ _ represents_cfgInit

/-! ## The representation invariant -/

namespace Ptr

/-- Following `next` from a pointer visits the nodes of the list and then ends. -/
inductive IsChain (h : CfgHeap) : Option Nat → List Nat → Prop
  | nil : IsChain h none []
  | cons {a : Nat} {l : List Nat} (hl : IsChain h (h.cells a).next l) : IsChain h (some a) (a :: l)

/-- The nodes of the tree: the root and the children of nodes. -/
inductive Reach (h : CfgHeap) : Nat → Prop
  | root : Reach h root
  | child {a c : Nat} {l : List Nat} (ha : Reach h a) (hl : IsChain h (h.cells a).child l)
    (hc : c ∈ l) : Reach h c

/-- What holds of a node and the chain of its children. -/
structure NodeInv (h : CfgHeap) (a : Nat) (l : List Nat) : Prop where
  count : (h.cells a).count = l.length
  tail : (h.cells a).tail = l.getLast?
  obj : type h a = .obj → (l.map (name h)).Nodup ∧ ∀ c ∈ l, ∃ k, name h c = some k ∧ IsKey k
  arr : type h a = .arr → ∀ c ∈ l, name h c = none ∧ type h c = .str
  str : type h a = .str → l = []

/-- **The representation invariant**: the root is an object, and every node has a chain of children
that ends, with the right counter, tail, names and types. -/
structure TreeInv (h : CfgHeap) : Prop where
  root : type h root = .obj
  node : ∀ a, Reach h a → ∃ l, IsChain h (h.cells a).child l ∧ NodeInv h a l

end Ptr

theorem isChain_of_linked {h : CfgHeap} {l : List Nat} (hl : h.Linked none l) :
    Ptr.IsChain h l.head? l := by
  induction l with
  | nil => exact .nil
  | cons a l ih =>
    refine .cons ?_
    rw [hl.1, Option.or_none]
    exact ih hl.2

theorem Ptr.IsChain.unique {h : CfgHeap} {p : Option Nat} {l l' : List Nat}
    (hl : Ptr.IsChain h p l) (hl' : Ptr.IsChain h p l') : l = l' := by
  induction hl generalizing l' with
  | nil =>
    cases hl'
    rfl
  | cons _ ih =>
    cases hl' with
    | cons hl' => rw [ih hl']

/-- A node that is held has the chain of its children. -/
theorem isChain_of_holds {h : CfgHeap} {t : HTree NodeData} (hh : Holds h t) :
    Ptr.IsChain h (h.cells t.addr).child (t.child.map HTree.addr) := by
  rw [hh.head]
  exact isChain_of_linked hh.linked

/-- Every node that can be reached is a well-formed subtree. -/
theorem exists_subtree {h : CfgHeap} {t : HTree NodeData} (ht : t.addr = Ptr.root) (hg : Good h t)
    (hw : WfRoot (node t)) {a : Nat} (ha : Ptr.Reach h a) :
    ∃ s d, s.addr = a ∧ Good h s ∧ (node s).Wf d := by
  induction ha with
  | root => exact ⟨t, _, ht, hg, hw.wf⟩
  | child _ hl hc ih =>
    obtain ⟨s, d, rfl, hgs, hws⟩ := ih
    obtain rfl := hl.unique (isChain_of_holds hgs.holds)
    obtain ⟨b, hb, rfl⟩ := List.mem_map.mp hc
    refine ⟨b, d - 1, rfl, hgs.child hb, hws.child_wf ?_⟩
    rw [node_child]
    exact List.mem_map_of_mem hb

theorem nodeInv_of_good {h : CfgHeap} {s : HTree NodeData} {d : Nat} (hg : Good h s)
    (hw : (node s).Wf d) : Ptr.NodeInv h s.addr (s.child.map HTree.addr) := by
  have hnames : (s.child.map HTree.addr).map (Ptr.name h) = (node s).child.map CfgNode.name := by
    rw [node_child, List.map_map, List.map_map]
    exact List.map_congr_left fun c hc => name_eq (hg.child hc)
  have hchild : ∀ c ∈ s.child, node c ∈ (node s).child := fun c hc => by
    rw [node_child]
    exact List.mem_map_of_mem hc
  have hmem : ∀ a ∈ s.child.map HTree.addr, ∃ c ∈ s.child, c.addr = a := fun a ha =>
    List.mem_map.mp ha
  refine ⟨by simpa using hg.holds.count, hg.holds.last, fun ht => ?_, fun ht => ?_, fun ht => ?_⟩
  · obtain ⟨hnd, hkey⟩ := hw.names ((type_eq hg).symm.trans ht)
    refine ⟨hnames ▸ hnd, fun a ha => ?_⟩
    obtain ⟨c, hc, rfl⟩ := hmem a ha
    rw [name_eq (hg.child hc)]
    exact hkey _ (hchild c hc)
  · intro a ha
    obtain ⟨c, hc, rfl⟩ := hmem a ha
    rw [name_eq (hg.child hc), type_eq (hg.child hc)]
    exact hw.entries ((type_eq hg).symm.trans ht) _ (hchild c hc)
  · have hnil := hw.child_eq_nil ((type_eq hg).symm.trans ht)
    rw [node_child, List.map_eq_nil_iff] at hnil
    rw [hnil, List.map_nil]

theorem dumpArr_isOk (path : CStr) {cs : List CfgNode} (h : ∀ c ∈ cs, c.type = .str) :
    ∃ text, dumpArr path cs = .ok text := by
  induction cs with
  | nil => exact ⟨_, rfl⟩
  | cons c cs ih =>
    obtain ⟨rest, hrest⟩ := ih fun b hb => h b (List.mem_cons_of_mem c hb)
    exact ⟨_, by rw [dumpArr, if_neg (not_not.mpr (h c List.mem_cons_self)), hrest]; rfl⟩

/-- The dumper fails only when a path is too long. -/
theorem dumpNode_eq_error {d sz : Nat} {n : CfgNode} (hw : n.Wf d) {path : CStr} {e : Errno}
    (h : dumpNode sz path n = .error e) : e = .E2BIG := by
  induction hw generalizing path with
  | str _ => cases h
  | @arr _ _ cs _ hn _ _ =>
    obtain ⟨text, htext⟩ := dumpArr_isOk path fun c hc => (hn c hc).2
    rw [dumpNode, htext] at h
    cases h
  | @obj d name cs hd hn hnd hc ih =>
    rw [dumpNode] at h
    clear hd hn hnd hc
    induction cs with
    | nil => cases h
    | cons c cs ihc =>
      rw [dumpObj] at h
      split_ifs at h with hlen
      · cases h
        rfl
      · cases htext : dumpNode sz (childPath path (c.name.getD [])) c with
        | error e' =>
          rw [htext] at h
          cases h
          exact ih c List.mem_cons_self htext
        | ok text =>
          cases hrest : dumpObj sz path cs with
          | error e' =>
            rw [htext, hrest] at h
            cases h
            exact ihc (fun b hb => ih b (List.mem_cons_of_mem c hb)) hrest
          | ok rest =>
            rw [htext, hrest] at h
            cases h

/-- **The representation invariant holds in every state that calls can reach**, whether the calls
succeed or fail. In such a state `arr_nth` finds the entry `arr_idx` has found a position for, the
memory represents the tree that the calls build, and `dump_node` never meets an entry of an array
that is not a string. -/
theorem tree_invariant (ops : List CfgOp) (hv : ∀ op ∈ ops, op.NulFree) :
    Ptr.TreeInv (Ptr.run ops) ∧
    (∀ a i j, Ptr.Reach (Ptr.run ops) a → Ptr.arrIdx (Ptr.run ops) a i = .ok j →
      (Ptr.arrNth (Ptr.run ops) a j).isSome) ∧
    Represents (Ptr.run ops) (CfgOp.run ops) ∧
    ∀ sz path, dumpNode sz path (CfgOp.run ops) ≠ .error .EOPNOTSUPP := by
  have hrep := run_represents ops
  have hwf := CfgOp.run_wf hv
  obtain ⟨-, t, ht, hg, hnode⟩ := id hrep
  rw [← hnode] at hwf
  refine ⟨⟨?_, fun a ha => ?_⟩, fun a i j ha hi => ?_, hrep, fun sz path he => ?_⟩
  · rw [← ht, type_eq hg]
    exact hwf.type
  · obtain ⟨s, d, rfl, hgs, hws⟩ := exists_subtree ht hg hwf ha
    exact ⟨_, isChain_of_holds hgs.holds, nodeInv_of_good hgs hws⟩
  · obtain ⟨s, d, rfl, hgs, -⟩ := exists_subtree ht hg hwf ha
    rw [arrIdx_node hgs] at hi
    obtain ⟨-, c, -, -, -, hnth⟩ := arrNth_split hgs hi
    rw [hnth]
    rfl
  · rw [← hnode] at he
    cases dumpNode_eq_error hwf.wf he

/-- Calls that add, replace and delete entries of an array, with one that fails. -/
def portOps : List CfgOp :=
  [.set "bridge.ports[]".toList "lan1".toList, .set "bridge.ports[]".toList "lan2".toList,
    .set "bridge.ports[5]".toList "lan3".toList, .del "bridge.ports[-1]".toList,
    .set "bridge.ports[0]".toList "lan4".toList]

theorem portOps_invariant : (∀ op ∈ portOps, op.NulFree) ∧ Ptr.TreeInv (Ptr.run portOps) :=
  have hv : ∀ op ∈ portOps, op.NulFree := by decide
  ⟨hv, (tree_invariant portOps hv).1⟩

end Netrec
