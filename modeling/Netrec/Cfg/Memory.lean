import Netrec.CLib.Blocks
import Netrec.Cfg.Heap
import Netrec.Cfg.Query

/-!
# The configuration tree and the allocator

`cfg.c` allocates each node and copies each name and each value into a block of its own, and any of
these allocations may fail. Here its operations are modelled with their calls of `malloc` and
`free`: the allocator fails when it likes, and the ledgers keep the blocks in use. Freeing a block
twice, using one that has been freed, and writing past the end of a buffer are faults.

A change of the tree frees the blocks that are not needed any more and allocates the new ones. What
an operation does has to be shown only for the node it works on, as for the pointers and counters.

## Main definitions

* `CfgMem`: the memory of a configuration
* `CfgMem.cfgSetStr`, `CfgMem.cfgDel`, `CfgMem.cfgFree`: the calls of `cfg.c`
* `Owns m t`: the tree `t` lives in `m` in blocks of its own
* `MStep m m' t t'`: a change of memory that turns the tree `t` into `t'`
* `Detached m m' d`: a node that has been allocated and is not yet part of the tree

## Main results

* `MStep.lift`: a change of a child is a change of its parent
* `nodeFree_freed`: `node_free` gives back the blocks of a tree
* `nodeNew_cases`: `node_new` leaves nothing behind when it fails
-/

namespace Netrec

open CLib

/-- The type of a `struct cfg_node`, and its pointers to strings. -/
structure NodePtrs where
  type : CfgType
  name : Option Nat
  val : Option Nat

/-- The strings of a node. -/
def NodePtrs.strings (d : NodePtrs) : List Nat := d.name.toList ++ d.val.toList

/-- The memory of a configuration: the nodes, the contents of the strings and the first block that
has not been used for one, the nodes and the strings in use, which calls of `malloc` fail, how many
there have been, and whether a buffer has been written past its end. -/
structure CfgMem where
  heap : Heap NodePtrs
  text : Nat → CStr
  fresh : Nat
  nodes : Ledger
  texts : Ledger
  oom : Nat → Bool
  calls : Nat
  overrun : Bool

namespace CfgMem

/-! ## The allocator -/

/-- What a node with these pointers stands for. -/
def deref (m : CfgMem) (d : NodePtrs) : NodeData := ⟨d.type, d.name.map m.text, d.val.map m.text⟩

/-- The nodes as loops over names and values see them. -/
def view (m : CfgMem) : CfgHeap := m.heap.map m.deref

/-- A call of `malloc`. -/
def tick (m : CfgMem) : CfgMem := { m with calls := m.calls + 1 }

/-- Nodes are read or written. -/
def useNodes (m : CfgMem) (l : List Nat) : CfgMem := { m with nodes := m.nodes.use l }

/-- Strings are read. -/
def useTexts (m : CfgMem) (l : List Nat) : CfgMem := { m with texts := m.texts.use l }

/-- A look at a node and its children. -/
def visit (m : CfgMem) (a : Nat) : CfgMem :=
  (m.useNodes (a :: m.heap.chain a)).useTexts
    ((m.heap.chain a).filterMap fun c => (m.heap.cells c).data.name)

/-- `malloc` of a block for a string, which is then written. -/
def newText (m : CfgMem) (s : CStr) : Option Nat × CfgMem :=
  if m.oom m.calls then (none, m.tick)
  else (some m.fresh, { m.tick with
    text := fun p => if p = m.fresh then s else m.text p
    fresh := m.fresh + 1
    texts := m.texts.acquire m.fresh })

/-- `free` of a string. -/
def freeText (m : CfgMem) (p : Option Nat) : CfgMem := { m with texts := m.texts.release p }

/-- `free` of a node. -/
def freeNode (m : CfgMem) (a : Nat) : CfgMem := { m with nodes := m.nodes.release (some a) }

/-- `xstrdup`. -/
def xstrdup (m : CfgMem) : Option CStr → Option Nat × CfgMem
  | none => (none, m)
  | some s => m.newText s

/-- An assignment to the fields of a node that are not links. -/
def setData (m : CfgMem) (a : Nat) (f : NodePtrs → NodePtrs) : CfgMem :=
  { m.useNodes [a] with heap := m.heap.modify a fun c => { c with data := f c.data } }

/-- `malloc` of a block for a node, which is then cleared and given its type. -/
def newNode (m : CfgMem) (type : CfgType) : CfgMem :=
  { m.tick with
    heap := (m.heap.alloc ⟨type, none, none⟩).2
    nodes := m.nodes.acquire m.heap.fresh }

/-- `node_new`. -/
def nodeNew (m : CfgMem) (type : CfgType) (name : Option CStr) : Option Nat × CfgMem :=
  if m.oom m.calls then (none, m.tick)
  else
    let node := m.heap.fresh
    match (m.newNode type).xstrdup name with
    | (copy, m) =>
      let m := m.setData node fun d => { d with name := copy }
      if name.isSome ∧ copy = none then (none, m.freeNode node) else (some node, m)

/-- `child_add`. -/
def childAdd (m : CfgMem) (parent node : Nat) : CfgMem :=
  { m.useNodes (parent :: node :: (m.heap.cells parent).tail.toList) with
    heap := m.heap.childAdd parent node }

/-- Nothing that follows is to be relied on. -/
def stray (m : CfgMem) : CfgMem := { m with nodes := { m.nodes with fault := true } }

mutual

/-- `node_free`; the number bounds the nesting of calls and loops. -/
def nodeFreeAux : Nat → CfgMem → Nat → CfgMem
  | 0, m, _ => m.stray
  | n + 1, m, node =>
    let m := freeChain n (m.useNodes [node]) (m.heap.cells node).child
    let d := (m.heap.cells node).data
    ((m.freeText d.name).freeText d.val).freeNode node

/-- The loop of `node_free`. -/
def freeChain : Nat → CfgMem → Option Nat → CfgMem
  | _, m, none => m
  | 0, m, some _ => m.stray
  | n + 1, m, some child => freeChain n (nodeFreeAux n m child) (m.heap.cells child).next

end

/-- `node_free`. -/
def nodeFree (m : CfgMem) (node : Nat) : CfgMem := nodeFreeAux (2 * m.heap.fresh) m node

/-! ## The calls -/

/-- `copy = xstrdup(val); free(node->val); node->val = copy;` -/
def putVal (m : CfgMem) (node : Nat) (val : CStr) : Rc × CfgMem :=
  match m.xstrdup (some val) with
  | (none, m) => (some .ENOMEM, m)
  | (some copy, m) =>
    let m := m.freeText (m.heap.cells node).data.val
    (none, m.setData node fun d => { d with val := some copy })

/-- `set_str_plain`. -/
def setStrPlain (m : CfgMem) (parent : Nat) (k val : CStr) : Rc × CfgMem :=
  let m := m.visit parent
  match Ptr.objFind m.view parent k with
  | none =>
    match m.nodeNew .str (some k) with
    | (none, m) => (some .ENOMEM, m)
    | (some node, m) => (m.childAdd parent node).putVal node val
  | some node => if Ptr.type m.view node ≠ .str then (some .EISDIR, m) else m.putVal node val

/-- `set_arr_append`. -/
def setArrAppend (m : CfgMem) (arr : Nat) (val : CStr) : Rc × CfgMem :=
  let m := m.useNodes [arr]
  if Ptr.type m.view arr ≠ .arr then (some .ENOTDIR, m)
  else
    match m.nodeNew .str none with
    | (none, m) => (some .ENOMEM, m)
    | (some node, m) =>
      match m.xstrdup (some val) with
      | (none, m) => (some .ENOMEM, m.nodeFree node)
      | (some copy, m) =>
        let m := m.setData node fun d => { d with val := some copy }
        (none, m.childAdd arr node)

/-- `set_arr_idx`. -/
def setArrIdx (m : CfgMem) (arr : Nat) (idx : Int) (val : CStr) : Rc × CfgMem :=
  let m := m.visit arr
  if Ptr.type m.view arr ≠ .arr then (some .ENOTDIR, m)
  else if idx ≥ 0 ∧ idx = (m.heap.cells arr).count then (some .ENOENT, m)
  else
    match Ptr.arrIdx m.view arr idx with
    | .error _ => (some .ENOENT, m)
    | .ok i =>
      match Ptr.arrNth m.view arr i with
      | none => (some .ENOENT, m)
      | some node => if Ptr.type m.view node ≠ .str then (some .ENOENT, m) else m.putVal node val

/-- A child is taken out of the chain and freed. -/
def remove (m : CfgMem) (parent : Nat) (prev : Option Nat) (node : Nat) : CfgMem :=
  { m with heap := m.heap.unlink parent prev node }.nodeFree node

/-- `del_arr`. -/
def delArr (m : CfgMem) (arr : Nat) (idx : Int) : Rc × CfgMem :=
  let m := m.visit arr
  if Ptr.type m.view arr ≠ .arr then (some .ENOENT, m)
  else
    match Ptr.arrIdx m.view arr idx with
    | .error _ => (some .ENOENT, m)
    | .ok n =>
      match Heap.seek (fun i _ => i = n) 0 none (m.heap.chain arr) with
      | none => (some .ENOENT, m)
      | some (prev, node) => (none, m.remove arr prev node)

/-- `del_plain`. -/
def delPlain (m : CfgMem) (parent : Nat) (k : CStr) : Rc × CfgMem :=
  let m := m.visit parent
  match Heap.seek (fun _ c => Ptr.name m.view c = some k) 0 none (m.heap.chain parent) with
  | none => (some .ENOENT, m)
  | some (prev, node) => (none, m.remove parent prev node)

/-- The step of both walks at an index. -/
def atIndex (m : CfgMem) (cur : Nat) (idx : Int) (f : CfgMem → Nat → Rc × CfgMem) : Rc × CfgMem :=
  let m := m.visit cur
  if Ptr.type m.view cur ≠ .arr then (some .ENOTDIR, m)
  else
    match Ptr.arrIdx m.view cur idx with
    | .error e => (some e, m)
    | .ok i =>
      match Ptr.arrNth m.view cur i with
      | none => (some .ENOENT, m)
      | some child => f m child

/-- The step of `cfg_set_str` at a key that is not the last token. -/
def enterKey (m : CfgMem) (cur : Nat) (k : CStr) (want : CfgType)
    (f : CfgMem → Nat → Rc × CfgMem) : Rc × CfgMem :=
  let m := m.visit cur
  if Ptr.type m.view cur ≠ .obj then (some .ENOTDIR, m)
  else
    match Ptr.objFind m.view cur k with
    | none =>
      match m.nodeNew want (some k) with
      | (none, m) => (some .ENOMEM, m)
      | (some child, m) => f (m.childAdd cur child) child
    | some child => if Ptr.type m.view child ≠ want then (some .ENOTDIR, m) else f m child

/-- The walk of `cfg_set_str`. -/
def setToks (val : CStr) : List Tok → CfgMem → Nat → Rc × CfgMem
  | [], m, _ => (some .EINVAL, m)
  | [.key k], m, cur =>
    let m := m.useNodes [cur]
    if Ptr.type m.view cur ≠ .obj then (some .ENOTDIR, m) else m.setStrPlain cur k val
  | [.append], m, cur => m.setArrAppend cur val
  | [.index i], m, cur => m.setArrIdx cur i val
  | .append :: _ :: _, m, _ => (some .EINVAL, m)
  | .index i :: t :: toks, m, cur => m.atIndex cur i (setToks val (t :: toks))
  | .key k :: t :: toks, m, cur => m.enterKey cur k (wantType t) (setToks val (t :: toks))

/-- The walk of `cfg_del`. -/
def delToks : List Tok → CfgMem → Nat → Rc × CfgMem
  | [], m, _ => (some .EINVAL, m)
  | [.append], m, _ => (some .EINVAL, m)
  | [.index i], m, cur => m.delArr cur i
  | [.key k], m, cur =>
    let m := m.useNodes [cur]
    if Ptr.type m.view cur ≠ .obj then (some .ENOTDIR, m) else m.delPlain cur k
  | .append :: _ :: _, m, _ => (some .EINVAL, m)
  | .index i :: t :: toks, m, cur => m.atIndex cur i (delToks (t :: toks))
  | .key k :: t :: toks, m, cur =>
    let m := m.visit cur
    if Ptr.type m.view cur ≠ .obj then (some .ENOTDIR, m)
    else
      match Ptr.objFind m.view cur k with
      | none => (some .ENOENT, m)
      | some child => delToks (t :: toks) m child

/-- `cfg_set_str`. -/
def cfgSetStr (m : CfgMem) (path val : CStr) : Rc × CfgMem :=
  match parsePath CFG_PATH_DEPTH_MAX path with
  | .error e => (some e, m)
  | .ok toks => setToks val toks m Ptr.root

/-- `cfg_del`. -/
def cfgDel (m : CfgMem) (path : CStr) : Rc × CfgMem :=
  match parsePath CFG_PATH_DEPTH_MAX path with
  | .error e => (some e, m)
  | .ok toks => delToks toks m Ptr.root

/-- A call. -/
def call (m : CfgMem) : CfgOp → Rc × CfgMem
  | .set path val => m.cfgSetStr path val
  | .del path => m.cfgDel path

/-- A node after `memset(node, 0, sizeof(*node))`. -/
def zeroed : HCell NodePtrs := ⟨⟨.obj, none, none⟩, none, none, none, 0⟩

/-- `cfg_init`. The root is part of the caller's `struct cfg`. -/
def cfgInit (m : CfgMem) : CfgMem := { m with heap := m.heap.modify Ptr.root fun _ => zeroed }

/-- `child->next = NULL;` -/
def cut (m : CfgMem) (child : Nat) : CfgMem :=
  { m.useNodes [child] with heap := m.heap.modify child fun c => { c with next := none } }

/-- The loop of `cfg_free`; the number bounds its rounds. -/
def freeRoots : Nat → CfgMem → Option Nat → CfgMem
  | _, m, none => m
  | 0, m, some _ => m.stray
  | n + 1, m, some child =>
    freeRoots n ((m.cut child).nodeFree child) (m.heap.cells child).next

/-- `cfg_free`. -/
def cfgFree (m : CfgMem) : CfgMem :=
  let m := freeRoots m.heap.fresh m (m.heap.cells Ptr.root).child
  let d := (m.heap.cells Ptr.root).data
  cfgInit ((m.freeText d.name).freeText d.val)

end CfgMem

open HTree

/-! ## Trees in memory -/

/-- The strings of a tree. -/
def textsOf (t : HTree NodePtrs) : List Nat := t.owned NodePtrs.strings

/-- The strings of a list of trees. -/
def textsAll (l : List (HTree NodePtrs)) : List Nat := ownedAll NodePtrs.strings l

theorem textsOf_eq (t : HTree NodePtrs) : textsOf t = t.data.strings ++ textsAll t.child :=
  owned_eq _ t

@[simp] theorem textsAll_nil : textsAll [] = [] := by rw [textsAll, ownedAll]

@[simp] theorem textsAll_cons (c : HTree NodePtrs) (l : List (HTree NodePtrs)) :
    textsAll (c :: l) = textsOf c ++ textsAll l := by
  rw [textsAll, ownedAll]
  rfl

@[simp] theorem textsAll_append (l l' : List (HTree NodePtrs)) :
    textsAll (l ++ l') = textsAll l ++ textsAll l' := ownedAll_append _ l l'

/-- The tree that a tree in memory stands for. -/
def CfgMem.tree (m : CfgMem) (t : HTree NodePtrs) : CfgNode := node (t.map m.deref)

/-- Strings are written once, and the allocator is not to be influenced. -/
structure Later (m m' : CfgMem) : Prop where
  fresh : m.fresh ≤ m'.fresh
  text : ∀ p < m.fresh, m'.text p = m.text p
  oom : m'.oom = m.oom
  calls : m.calls ≤ m'.calls
  overrun : m'.overrun = m.overrun

/-- The tree lives in the memory in blocks of its own. -/
structure Owns (m : CfgMem) (t : HTree NodePtrs) : Prop where
  good : Good m.heap t
  nodes : m.nodes.Covers t.addrs
  texts : m.texts.Covers (textsOf t)
  lt : ∀ p ∈ textsOf t, p < m.fresh

/-- A change of memory that turns one tree into another: it frees the blocks that are not needed any
more and allocates the new ones. -/
structure MStep (m m' : CfgMem) (t t' : HTree NodePtrs) : Prop extends Later m m' where
  heap : Step m.heap m'.heap t t'
  nodes : m.nodes.Swaps m'.nodes t.addrs t'.addrs
  texts : m.texts.Swaps m'.texts (textsOf t) (textsOf t')
  lt : ∀ p ∈ textsOf t', p < m'.fresh

section Trees

variable {m m' m'' : CfgMem} {t t' t'' c c' : HTree NodePtrs} {l₁ l₂ : List (HTree NodePtrs)}

theorem Later.refl (m : CfgMem) : Later m m := ⟨le_rfl, fun _ _ => rfl, rfl, le_rfl, rfl⟩

theorem Later.trans (h : Later m m') (h' : Later m' m'') : Later m m'' where
  fresh := h.fresh.trans h'.fresh
  text p hp := (h'.text p (hp.trans_le h.fresh)).trans (h.text p hp)
  oom := h'.oom.trans h.oom
  calls := h.calls.trans h'.calls
  overrun := h'.overrun.trans h.overrun

theorem CfgMem.setData_heap (m : CfgMem) (a : Nat) (f : NodePtrs → NodePtrs) :
    (m.setData a f).heap = m.heap.modify a fun c => { c with data := f c.data } := rfl

theorem CfgMem.setData_nodes (m : CfgMem) (a : Nat) (f : NodePtrs → NodePtrs) :
    (m.setData a f).nodes = m.nodes.use [a] := rfl

theorem Later.setData (h : Later m m') (a : Nat) (f : NodePtrs → NodePtrs) :
    Later m (m'.setData a f) :=
  ⟨h.fresh, h.text, h.oom, h.calls, h.overrun⟩

theorem Later.childAdd (h : Later m m') (parent node : Nat) : Later m (m'.childAdd parent node) :=
  ⟨h.fresh, h.text, h.oom, h.calls, h.overrun⟩

theorem CfgMem.tree_eq (m : CfgMem) (t : HTree NodePtrs) :
    m.tree t =
      ⟨t.data.type, t.data.name.map m.text, t.data.val.map m.text, t.child.map m.tree⟩ := by
  rw [tree, node_eq, map_child, map_data, List.map_map]
  rfl

theorem Later.map_text (h : Later m m') {q : Option Nat} (hq : ∀ p ∈ q, p < m.fresh) :
    q.map m'.text = q.map m.text :=
  Option.map_congr fun p hp => h.text p (hq p hp)

/-- A tree whose strings were there before stands for what it stood for. -/
theorem Later.tree_eq (h : Later m m') (ht : ∀ p ∈ textsOf t, p < m.fresh) :
    m'.tree t = m.tree t := by
  have hderef : ∀ d : NodePtrs, (∀ p ∈ d.strings, p < m.fresh) → m'.deref d = m.deref d := by
    intro d hd
    rw [CfgMem.deref, CfgMem.deref, h.map_text fun p hp => hd p (by simp_all [NodePtrs.strings]),
      h.map_text fun p hp => hd p (by simp_all [NodePtrs.strings])]
  rw [CfgMem.tree, CfgMem.tree, map_congr _ _ hderef t ht]

theorem Owns.child (hO : Owns m t) (hc : c ∈ t.child) : Owns m c := by
  obtain ⟨l₁, l₂, hs⟩ := List.append_of_mem hc
  refine ⟨hO.good.child hc, hO.nodes.mono fun x => ?_, hO.texts.mono fun x => ?_, fun p hp => ?_⟩
  · rw [addrs_eq t, hs, addrsAll_split]
    simp only [List.count_cons, List.count_append]
    omega
  · rw [textsOf_eq t, hs]
    simp only [textsAll_append, textsAll_cons, List.count_append]
    omega
  · refine hO.lt p ?_
    rw [textsOf_eq t, hs]
    simp [hp]

theorem MStep.owns (hs : MStep m m' t t') (hO : Owns m t) : Owns m' t' :=
  ⟨hs.heap.good, hs.nodes.covers hO.nodes, hs.texts.covers hO.texts, hs.lt⟩

theorem MStep.trans (hs : MStep m m' t t') (hs' : MStep m' m'' t' t'') : MStep m m'' t t'' where
  toLater := hs.toLater.trans hs'.toLater
  heap := hs.heap.trans hs'.heap
  nodes := hs.nodes.trans hs'.nodes
  texts := hs.texts.trans hs'.texts
  lt := hs'.lt

/-- **A change of a child is a change of its parent.** -/
theorem MStep.lift (hO : Owns m t) (hs : t.child = l₁ ++ c :: l₂) (hc : MStep m m' c c') :
    MStep m m' t { t with child := l₁ ++ c' :: l₂ } where
  toLater := hc.toLater
  heap := hc.heap.lift hO.good hs
  nodes := hc.nodes.frame fun x => by
    rw [addrs_eq t, addrs_eq { t with child := _ }, hs, addrsAll_split, addrsAll_split]
    simp only [List.count_cons, List.count_append]
    omega
  texts := hc.texts.frame fun x => by
    rw [textsOf_eq t, textsOf_eq { t with child := _ }, hs]
    simp only [textsAll_append, textsAll_cons, List.count_append]
    omega
  lt p hp := by
    have hold : ∀ q ∈ textsOf t, q < m'.fresh := fun q hq => (hO.lt q hq).trans_le hc.fresh
    rw [textsOf_eq, hs] at hold
    rw [textsOf_eq] at hp
    simp only [textsAll_append, textsAll_cons, List.mem_append] at hold hp
    rcases hp with hp | hp | hp | hp
    · exact hold p (.inl hp)
    · exact hold p (.inr (.inl hp))
    · exact hc.lt p hp
    · exact hold p (.inr (.inr (.inr hp)))

theorem Later.map_tree (h : Later m m') (hO : Owns m t) {l : List (HTree NodePtrs)}
    (hl : l ⊆ t.child) : l.map m'.tree = l.map m.tree :=
  List.map_congr_left fun _ hb => h.tree_eq (hO.child (hl hb)).lt

theorem Owns.data_lt (hO : Owns m t) {p : Nat} (hp : p ∈ t.data.strings) : p < m.fresh := by
  refine hO.lt p ?_
  rw [textsOf_eq]
  exact List.mem_append_left _ hp

/-- What a tree stands for whose children have changed. -/
theorem Later.tree_with_child (h : Later m m') (hO : Owns m t) (cs : List (HTree NodePtrs)) :
    m'.tree { t with child := cs } = { m.tree t with child := cs.map m'.tree } := by
  rw [CfgMem.tree_eq, CfgMem.tree_eq m t,
    h.map_text fun p hp => hO.data_lt (by simp_all [NodePtrs.strings]),
    h.map_text fun p hp => hO.data_lt (by simp_all [NodePtrs.strings])]

/-- What a tree stands for whose child has changed. -/
theorem MStep.tree_lift (hO : Owns m t) (hs : t.child = l₁ ++ c :: l₂) (hc : MStep m m' c c') :
    m'.tree { t with child := l₁ ++ c' :: l₂ } =
      { m.tree t with child := l₁.map m.tree ++ m'.tree c' :: l₂.map m.tree } := by
  have h₁ := hc.toLater.map_tree hO (l := l₁) (by simp [hs])
  have h₂ := hc.toLater.map_tree hO (l := l₂) (by simp [hs])
  rw [hc.toLater.tree_with_child hO, List.map_append, List.map_cons, h₁, h₂]

theorem Owns.useNodes_eq (hO : Owns m t) {l : List Nat} (hl : l ⊆ t.addrs) : m.useNodes l = m := by
  rw [CfgMem.useNodes, hO.nodes.use_eq hl]

theorem Owns.visit_eq (hO : Owns m t) : m.visit t.addr = m := by
  have hchain : t.addr :: m.heap.chain t.addr ⊆ t.addrs := by
    rw [hO.good.chain_eq, addrs_eq]
    exact List.cons_subset_cons _ (map_addr_sublist _).subset
  have hnames : ((m.heap.chain t.addr).filterMap fun c => (m.heap.cells c).data.name) ⊆
      textsOf t := by
    intro p hp
    rw [hO.good.chain_eq] at hp
    obtain ⟨a, ha, hname⟩ := List.mem_filterMap.mp hp
    obtain ⟨c, hc, rfl⟩ := List.mem_map.mp ha
    rw [(hO.good.holds.child hc).data] at hname
    obtain ⟨l₁, l₂, hs⟩ := List.append_of_mem hc
    have hpc : p ∈ textsOf c := by
      rw [textsOf_eq]
      simp [NodePtrs.strings, hname]
    rw [textsOf_eq, hs]
    simp [hpc]
  rw [CfgMem.visit, hO.useNodes_eq hchain, CfgMem.useTexts, hO.texts.use_eq hnames]

end Trees

/-! ## Freeing -/

/-- The blocks `as` and `ps` have been freed, and nothing else has happened. -/
structure Freed (m m' : CfgMem) (as ps : List Nat) : Prop where
  nodes : m.nodes.Swaps m'.nodes as []
  texts : m.texts.Swaps m'.texts ps []
  rest : m' = { m with nodes := m'.nodes, texts := m'.texts }

section Free

variable {m m' m'' : CfgMem} {as as' ps ps' : List Nat} {t : HTree NodePtrs}

theorem Freed.trans (h : Freed m m' as ps) (h' : Freed m' m'' as' ps') :
    Freed m m'' (as ++ as') (ps ++ ps') where
  nodes := (h.nodes.extend as').trans h'.nodes
  texts := (h.texts.extend ps').trans h'.texts
  rest := by rw [h'.rest, h.rest]

theorem Freed.heap_eq (h : Freed m m' as ps) : m'.heap = m.heap := by rw [h.rest]

theorem Freed.perm (h : Freed m m' as ps) (ha : as.Perm as') (hp : ps.Perm ps') :
    Freed m m' as' ps' where
  nodes := h.nodes.frame fun x => by simp [ha.count_eq]
  texts := h.texts.frame fun x => by simp [hp.count_eq]
  rest := h.rest

theorem freeText_freed {p : Option Nat} (hc : m.texts.Covers p.toList) :
    Freed m (m.freeText p) [] p.toList :=
  ⟨.refl _ _, Ledger.swaps_release hc, rfl⟩

theorem freeNode_freed {a : Nat} (hc : m.nodes.Covers [a]) : Freed m (m.freeNode a) [a] [] :=
  ⟨Ledger.swaps_release (p := some a) hc, .refl _ _, rfl⟩

/-- `node_free` and its loop, with enough rounds. -/
theorem nodeFreeAux_freeChain (n : Nat) :
    (∀ m t, CLib.Holds m.heap t → m.nodes.Covers t.addrs → m.texts.Covers (textsOf t) →
      2 * t.addrs.length ≤ n + 1 →
      Freed m (CfgMem.nodeFreeAux n m t.addr) t.addrs (textsOf t)) ∧
    ∀ m l, (∀ c ∈ l, CLib.Holds m.heap c) → m.heap.Linked none (l.map HTree.addr) →
      m.nodes.Covers (addrsAll l) → m.texts.Covers (textsAll l) → 2 * (addrsAll l).length ≤ n →
      Freed m (CfgMem.freeChain n m (l.map HTree.addr).head?) (addrsAll l) (textsAll l) := by
  induction n with
  | zero =>
    refine ⟨fun m t _ _ _ hlen => ?_, fun m l _ _ _ _ hlen => ?_⟩
    · rw [addrs_eq, List.length_cons] at hlen
      omega
    · cases l with
      | nil => exact ⟨.refl _ _, .refl _ _, rfl⟩
      | cons c l =>
        rw [addrsAll, addrs_eq, List.length_append, List.length_cons] at hlen
        omega
  | succ n ih =>
    obtain ⟨ihNode, ihChain⟩ := ih
    refine ⟨fun m t hh hnodes htexts hlen => ?_, fun m l hh hlink hnodes htexts hlen => ?_⟩
    · have huse : m.useNodes [t.addr] = m := by
        rw [CfgMem.useNodes, hnodes.use_eq (by simp [addrs_eq])]
      have hnodes' : m.nodes.Covers (addrsAll t.child ++ [t.addr]) :=
        hnodes.mono fun x => by rw [addrs_eq, (List.perm_append_singleton _ _).count_eq]
      have htexts' : m.texts.Covers (textsAll t.child ++ t.data.strings) :=
        htexts.mono fun x => by rw [textsOf_eq, List.perm_append_comm.count_eq]
      rw [addrs_eq, List.length_cons] at hlen
      -- the children first, then the strings of the node, then the node
      have hchild := ihChain m t.child (fun c hc => hh.child hc) hh.linked
        (hnodes'.mono fun x => by simp) (htexts'.mono fun x => by simp) (by omega)
      rw [CfgMem.nodeFreeAux, huse, hh.head]
      generalize CfgMem.freeChain n m (t.child.map HTree.addr).head? = m₁ at hchild
      have hdata : (m₁.heap.cells t.addr).data = t.data := by rw [hchild.heap_eq, hh.data]
      have hcov := (hchild.texts.extend _).covers htexts'
      have hname : Freed m₁ (m₁.freeText t.data.name) [] t.data.name.toList :=
        freeText_freed (hcov.mono fun x => by simp [NodePtrs.strings])
      have hval : Freed (m₁.freeText t.data.name) ((m₁.freeText t.data.name).freeText t.data.val) []
          t.data.val.toList := freeText_freed ((hname.texts.extend _).covers hcov)
      have hnode := freeNode_freed (m := (m₁.freeText t.data.name).freeText t.data.val)
        ((hchild.nodes.extend _).covers hnodes')
      simp only [hdata]
      refine (((hchild.trans hname).trans hval).trans hnode).perm ?_ ?_
      · rw [addrs_eq, List.append_nil, List.append_nil]
        exact List.perm_append_singleton _ _
      · rw [textsOf_eq, List.append_nil, List.append_assoc]
        exact List.perm_append_comm
    · cases l with
      | nil => exact ⟨.refl _ _, .refl _ _, rfl⟩
      | cons c l =>
        rw [addrsAll, addrs_eq, List.length_append, List.length_cons] at hlen
        rw [addrsAll] at hnodes
        rw [textsAll_cons] at htexts
        have hnode := ihNode m c (hh c (by simp)) (hnodes.mono fun x => by simp)
          (htexts.mono fun x => by simp) (by rw [addrs_eq, List.length_cons]; omega)
        have hrest := ihChain (CfgMem.nodeFreeAux n m c.addr) l
          (fun b hb => by rw [hnode.heap_eq]; exact hh b (by simp [hb]))
          (by rw [hnode.heap_eq]; exact hlink.2) ((hnode.nodes.extend _).covers hnodes)
          ((hnode.texts.extend _).covers htexts) (by omega)
        have hnext : (m.heap.cells c.addr).next = (l.map HTree.addr).head? := by
          rw [hlink.1, Option.or_none]
        rw [List.map_cons, List.head?_cons, CfgMem.freeChain, hnext, addrsAll, textsAll_cons]
        exact hnode.trans hrest

/-- **`node_free` gives back the blocks of a tree.** -/
theorem nodeFree_freed (hO : Owns m t) : Freed m (m.nodeFree t.addr) t.addrs (textsOf t) :=
  (nodeFreeAux_freeChain _).1 m t hO.good.holds hO.nodes hO.texts
    (by have := hO.good.length_le; omega)

end Free

/-! ## New nodes -/

/-- A new node that is not yet part of the tree: `m` is the memory before it was allocated. -/
structure Detached (m m' : CfgMem) (d : NodePtrs) : Prop extends Later m m' where
  cells : ∀ a, a ≠ m.heap.fresh → m'.heap.cells a = m.heap.cells a
  cell : m'.heap.cells m.heap.fresh = ⟨d, none, none, none, 0⟩
  heapFresh : m'.heap.fresh = m.heap.fresh + 1
  fault : m'.heap.fault = m.heap.fault
  nodes : m.nodes.Swaps m'.nodes [] [m.heap.fresh]
  texts : m.texts.Swaps m'.texts [] d.strings
  lt : ∀ p ∈ d.strings, p < m'.fresh

/-- A call of `malloc` between two states has failed. -/
def Starved (m m' : CfgMem) : Prop := ∃ i, m.calls ≤ i ∧ i < m'.calls ∧ m.oom i = true

section New

variable {m m' m'' : CfgMem} {d : NodePtrs} {t : HTree NodePtrs}

theorem Starved.mono {m₁ m₂ : CfgMem} (h : Starved m₁ m₂) (h₁ : Later m m₁) (h₂ : Later m₂ m') :
    Starved m m' := by
  obtain ⟨i, hi, hlt, hoom⟩ := h
  exact ⟨i, h₁.calls.trans hi, hlt.trans_le h₂.calls, by rw [← h₁.oom, hoom]⟩

theorem Later.tick (m : CfgMem) : Later m m.tick :=
  ⟨le_rfl, fun _ _ => rfl, rfl, Nat.le_succ _, rfl⟩

theorem starved_tick (h : m.oom m.calls = true) : Starved m m.tick :=
  ⟨m.calls, le_rfl, Nat.lt_succ_self _, h⟩

theorem Freed.later {as ps : List Nat} (h : Freed m m' as ps) : Later m m' := by
  rw [h.rest]
  exact ⟨le_rfl, fun _ _ => rfl, rfl, le_rfl, rfl⟩

/-- `xstrdup` fails, or it returns a new block with the string. -/
theorem xstrdup_cases (m : CfgMem) (s : CStr) :
    (m.xstrdup (some s) = (none, m.tick) ∧ Starved m m.tick) ∨
    ∃ m', m.xstrdup (some s) = (some m.fresh, m') ∧ Later m m' ∧ m'.heap = m.heap ∧
      m'.nodes = m.nodes ∧ m'.texts = m.texts.acquire m.fresh ∧ m'.fresh = m.fresh + 1 ∧
      m'.text m.fresh = s := by
  cases hoom : m.oom m.calls with
  | true => exact .inl ⟨by simp [CfgMem.xstrdup, CfgMem.newText, hoom], starved_tick hoom⟩
  | false =>
    have heq : m.xstrdup (some s) = (some m.fresh, { m.tick with
        text := fun p => if p = m.fresh then s else m.text p
        fresh := m.fresh + 1
        texts := m.texts.acquire m.fresh }) := by
      simp only [CfgMem.xstrdup, CfgMem.newText, hoom, Bool.false_eq_true, if_false]
    exact .inr ⟨_, heq, ⟨Nat.le_succ _, fun p hp => if_neg hp.ne, rfl, Nat.le_succ _, rfl⟩,
      rfl, rfl, rfl, rfl, if_pos rfl⟩

/-- The tree stays as it is, and so do the blocks in use. -/
theorem MStep.idle (hO : Owns m t) (hl : Later m m') (hheap : Step m.heap m'.heap t t)
    (hnodes : m.nodes.Swaps m'.nodes [] []) (htexts : m.texts.Swaps m'.texts [] []) :
    MStep m m' t t where
  toLater := hl
  heap := hheap
  nodes := hnodes.frame fun _ => rfl
  texts := htexts.frame fun _ => rfl
  lt p hp := (hO.lt p hp).trans_le hl.fresh

theorem MStep.refl (hO : Owns m t) : MStep m m t t :=
  .idle hO (.refl m) (.refl hO.good) (.refl _ _) (.refl _ _)

theorem MStep.tick (hO : Owns m t) : MStep m m.tick t t :=
  .idle hO (.tick m) (.refl hO.good) (.refl _ _) (.refl _ _)

/-- A new node in memory is a tree. -/
theorem Detached.owns (h : Detached m m' d) : Owns m' ⟨m.heap.fresh, d, []⟩ := by
  refine ⟨⟨.mk (by rw [h.cell]) (by rw [h.cell]; rfl) (by rw [h.cell]; rfl) (by rw [h.cell]; rfl)
    trivial (by simp), ?_, ?_⟩, ?_, ?_, ?_⟩
  · simp [addrs, addrsAll]
  · simp [addrs, addrsAll, h.heapFresh]
  · rw [addrs, addrsAll]
    exact h.nodes.covers fun x => by simp
  · rw [textsOf_eq, textsAll_nil, List.append_nil]
    exact h.texts.covers fun x => by simp
  · rw [textsOf_eq, textsAll_nil, List.append_nil]
    exact h.lt

theorem Detached.congr (h : Detached m m' d) (hl : Later m' m'') (hheap : m''.heap = m'.heap)
    (hnodes : m''.nodes = m'.nodes) (htexts : m''.texts = m'.texts) : Detached m m'' d :=
  ⟨h.toLater.trans hl, hheap ▸ h.cells, hheap ▸ h.cell, hheap ▸ h.heapFresh, hheap ▸ h.fault,
    hnodes ▸ h.nodes, htexts ▸ h.texts, fun p hp => (h.lt p hp).trans_le hl.fresh⟩

/-- An assignment to the new node, after some strings have been allocated for it. -/
theorem Detached.setData (h : Detached m m' d) (hl : Later m' m'') (hheap : m''.heap = m'.heap)
    (hnodes : m''.nodes = m'.nodes) {f : NodePtrs → NodePtrs}
    (htexts : m.texts.Swaps m''.texts [] (f d).strings) (hlt : ∀ p ∈ (f d).strings, p < m''.fresh) :
    Detached m (m''.setData m.heap.fresh f) (f d) := by
  have huse : m''.nodes.use [m.heap.fresh] = m'.nodes := by
    rw [hnodes, (h.nodes.covers fun x => by simp).use_eq (List.Subset.refl _)]
  refine ⟨(h.toLater.trans hl).setData _ _, fun a ha => ?_, ?_, ?_, ?_, ?_, htexts, hlt⟩
  · rw [CfgMem.setData_heap, Heap.modify_of_ne _ _ _ ha, hheap, h.cells a ha]
  · rw [CfgMem.setData_heap, Heap.modify_self, hheap, h.cell]
  · rw [CfgMem.setData_heap, Heap.modify_fresh, hheap, h.heapFresh]
  · rw [CfgMem.setData_heap, Heap.modify_fault, hheap, h.fault]
  · rw [CfgMem.setData_nodes, huse]
    exact h.nodes

/-- The new node is given up. -/
theorem Detached.freed (h : Detached m m' d) (hf : Freed m' m'' [m.heap.fresh] d.strings)
    (hO : Owns m t) : MStep m m'' t t := by
  refine .idle hO (h.toLater.trans hf.later) ?_ (h.nodes.trans hf.nodes) (h.texts.trans hf.texts)
  rw [hf.heap_eq]
  refine ⟨rfl, hO.good.alloc h.cells h.heapFresh, by rw [h.heapFresh]; exact Nat.le_succ _, h.fault,
    fun a ha _ => h.cells a ha.ne, ?_, fun a ha => .inl ha⟩
  rw [h.cells _ (hO.good.lt _ t.addr_mem).ne]

/-- The new node is added to the tree. -/
theorem Detached.childAdd (h : Detached m m' d) (hO : Owns m t) :
    MStep m (m'.childAdd t.addr m.heap.fresh) t
      { t with child := t.child ++ [⟨m.heap.fresh, d, []⟩] } := by
  have hnodes : m.nodes.Swaps m'.nodes t.addrs (m.heap.fresh :: t.addrs) :=
    h.nodes.frame fun x => by simp [List.count_cons]
  have htail : (m'.heap.cells t.addr).tail.toList ⊆ t.addrs := by
    intro a ha
    rw [h.cells _ (hO.good.lt _ t.addr_mem).ne, hO.good.holds.last, Option.mem_toList] at ha
    exact (hO.good.mem_of_root (List.mem_of_mem_getLast? ha)).2.1
  have huse : m'.nodes.use (t.addr :: m.heap.fresh :: (m'.heap.cells t.addr).tail.toList) =
      m'.nodes :=
    (hnodes.covers hO.nodes).use_eq (List.cons_subset.mpr
      ⟨List.mem_cons_of_mem _ t.addr_mem, List.cons_subset_cons _ htail⟩)
  have hnodes' : (m'.childAdd t.addr m.heap.fresh).nodes = m'.nodes := huse
  refine ⟨h.toLater.childAdd _ _, childAdd_step hO.good h.cells h.cell h.heapFresh h.fault, ?_,
    h.texts.frame fun x => ?_, fun p hp => ?_⟩
  · rw [hnodes']
    refine h.nodes.frame fun x => ?_
    rw [addrs_eq t, addrs_eq { t with child := _ }, addrsAll_append]
    simp only [addrsAll, addrs, List.count_cons, List.count_append, List.count_nil]
    omega
  · rw [textsOf_eq t, textsOf_eq { t with child := _ }, textsAll_append, textsAll_cons, textsOf_eq]
    simp only [textsAll_nil, List.count_append, List.count_nil]
    omega
  · rw [textsOf_eq, textsAll_append, textsAll_cons, textsOf_eq] at hp
    simp only [textsAll_nil, List.append_nil, List.mem_append] at hp
    rcases hp with hp | hp | hp
    · exact (hO.data_lt hp).trans_le h.toLater.fresh
    · refine (hO.lt p ?_).trans_le h.toLater.fresh
      rw [textsOf_eq]
      exact List.mem_append_right _ hp
    · exact h.lt p hp

theorem Detached.tree_childAdd (h : Detached m m' d) (hO : Owns m t) :
    (m'.childAdd t.addr m.heap.fresh).tree
        { t with child := t.child ++ [⟨m.heap.fresh, d, []⟩] } =
      Netrec.childAdd (m.tree t) (m'.tree ⟨m.heap.fresh, d, []⟩) := by
  have hl := (h.childAdd hO).toLater
  rw [hl.tree_with_child hO, List.map_append, hl.map_tree hO (List.Subset.refl _),
    CfgMem.tree_eq m t]
  rfl

/-- `node_new` fails and leaves nothing behind, or it returns a new node. -/
theorem nodeNew_cases (m : CfgMem) (type : CfgType) (name : Option CStr) :
    (∃ m', m.nodeNew type name = (none, m') ∧ Starved m m' ∧ ∀ t, Owns m t → MStep m m' t t) ∨
    ∃ m' d, m.nodeNew type name = (some m.heap.fresh, m') ∧ Detached m m' d ∧ d.type = type ∧
      d.name.map m'.text = name ∧ d.val = none := by
  cases hoom : m.oom m.calls with
  | true =>
    have heq : m.nodeNew type name = (none, m.tick) := by rw [CfgMem.nodeNew, if_pos hoom]
    exact .inl ⟨m.tick, heq, starved_tick hoom, fun t hO => .tick hO⟩
  | false =>
    have hnew : Detached m (m.newNode type) ⟨type, none, none⟩ :=
      { fresh := le_rfl
        text := fun _ _ => rfl
        oom := rfl
        calls := Nat.le_succ _
        overrun := rfl
        cells := fun a ha => if_neg ha
        cell := if_pos rfl
        heapFresh := rfl
        fault := rfl
        nodes := Ledger.swaps_acquire _ _
        texts := .refl _ _
        lt := by simp [NodePtrs.strings] }
    rw [CfgMem.nodeNew, if_neg (by simp [hoom])]
    generalize m.newNode type = m₁ at hnew ⊢
    cases name with
    | none =>
      have hset := hnew.setData (f := fun d => { d with name := none }) (.refl m₁) rfl rfl
        hnew.texts hnew.lt
      exact .inr ⟨_, _, rfl, hset, rfl, rfl, rfl⟩
    | some k =>
      rcases xstrdup_cases m₁ k with
        ⟨hk, hstarved⟩ | ⟨m₂, hk, hl, hheap, hnodes, htexts, hfresh, htext⟩
      · -- no memory for the name: the node is freed again
        have hset := hnew.setData (f := fun d => { d with name := none }) (.tick m₁) rfl rfl
          hnew.texts hnew.lt
        have hfreed := freeNode_freed hset.owns.nodes
        have hstep := fun t (hO : Owns m t) => hset.freed hfreed hO
        have hl := ((Later.refl m₁.tick).setData _ _).trans hfreed.later
        simp only [hk]
        exact .inl ⟨_, rfl, hstarved.mono hnew.toLater hl, hstep⟩
      · have hset := hnew.setData (f := fun d => { d with name := some m₁.fresh }) hl hheap hnodes
          (by
            rw [htexts]
            exact hnew.texts.trans (Ledger.swaps_acquire _ _))
          (by simp [NodePtrs.strings, hfresh])
        simp only [hk]
        exact .inr ⟨_, _, rfl, hset, rfl, congrArg some htext, rfl⟩

end New

end Netrec
