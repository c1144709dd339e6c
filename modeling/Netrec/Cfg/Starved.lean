import Netrec.Cfg.Memory

/-!
# Configuration calls without memory

Any allocation of a call of `cfg.c` may fail, in the middle of a walk that has already created
nodes. A call does what it does on trees, or it returns `ENOMEM` after an allocation has failed. Then
it may leave new nodes without values behind; whatever could be read before can be read as before.

## Main definitions

* `Grows n n'`: nodes without values have been added
* `Outcome`: how a call ends
* `MRefines F f`: an operation does what it does on trees, or runs out of memory

## Main results

* `Grows.reads`: nothing is lost
* `mrefines_setToks`, `mrefines_delToks`: the walks refine those on trees
-/

namespace Netrec

open CLib HTree

/-! ## Running out of memory -/

/-- No node of the tree has a value. -/
inductive Bare : CfgNode → Prop
  | mk {type : CfgType} {name : Option CStr} {cs : List CfgNode} (hcs : ∀ c ∈ cs, Bare c) :
    Bare ⟨type, name, none, cs⟩

/-- Children without values have been added to objects, under names they did not have. -/
inductive Grows : CfgNode → CfgNode → Prop
  | refl (n : CfgNode) : Grows n n
  | child {n c c' : CfgNode} {l₁ l₂ : List CfgNode} (hs : n.child = l₁ ++ c :: l₂)
    (hc : Grows c c') : Grows n { n with child := l₁ ++ c' :: l₂ }
  | new {n c : CfgNode} {k : CStr} (ht : n.type = .obj) (hn : objFind n k = none)
    (hk : c.name = some k) (hc : Bare c) : Grows n (childAdd n c)

section Grow

variable {n n' : CfgNode}

theorem Grows.fields (h : Grows n n') :
    n'.type = n.type ∧ n'.name = n.name ∧ n'.val = n.val := by
  cases h <;> exact ⟨rfl, rfl, rfl⟩

theorem Grows.bare (h : Grows n n') (hn : Bare n) : Bare n' := by
  induction h with
  | refl n => exact hn
  | @child n c c' l₁ l₂ hs _ ih =>
    obtain ⟨hcs⟩ := hn
    simp only at hs
    subst hs
    refine .mk fun b hb => ?_
    rw [List.mem_append, List.mem_cons] at hb
    rcases hb with hb | rfl | hb
    · exact hcs b (by simp [hb])
    · exact ih (hcs c (by simp))
    · exact hcs b (by simp [hb])
  | new _ _ _ hc =>
    obtain ⟨hcs⟩ := hn
    refine .mk fun b hb => ?_
    rcases List.mem_append.mp hb with hb | hb
    · exact hcs b hb
    · rwa [List.mem_singleton.mp hb]

theorem Grows.length_eq (h : Grows n n') (ht : n.type = .arr) :
    n'.child.length = n.child.length := by
  cases h with
  | refl n => rfl
  | child hs _ => simp [hs]
  | new ht' _ _ _ => simp [ht] at ht'

/-- **What could be reached can be reached.** -/
theorem Grows.walkGet (h : Grows n n') {toks : List Tok} {x : CfgNode}
    (hx : walkGet toks n = .ok x) : ∃ x', walkGet toks n' = .ok x' ∧ Grows x x' := by
  induction h generalizing toks x with
  | refl n => exact ⟨x, hx, .refl x⟩
  | @child n c c' l₁ l₂ hs hc ih =>
    have hname : ∀ k, hasName k c' = hasName k c := fun k => by rw [hasName, hasName, hc.fields.2.1]
    cases toks with
    | nil =>
      cases hx
      exact ⟨_, rfl, .child hs hc⟩
    | cons t toks =>
      cases t with
      | append => cases hx
      | key k =>
        obtain ⟨b, hb, hbx⟩ := walkGet_key.mp hx
        obtain ⟨ht, -⟩ := objFind_mem hb
        rw [objFind, if_neg (not_not.mpr ht), hs, List.find?_append] at hb
        have hfind : objFind { n with child := l₁ ++ c' :: l₂ } k =
            (l₁.find? (hasName k)).or ((c' :: l₂).find? (hasName k)) := by
          rw [objFind, if_neg (not_not.mpr ht), List.find?_append]
        cases hl : l₁.find? (hasName k) with
        | some a =>
          rw [hl, Option.some_or] at hb hfind
          exact ⟨x, walkGet_key.mpr ⟨b, hfind.trans hb, hbx⟩, .refl x⟩
        | none =>
          rw [hl, Option.none_or, List.find?_cons] at hb hfind
          rw [hname] at hfind
          -- the child itself, or one behind it
          cases hk : hasName k c with
          | true =>
            simp only [hk, Option.some.injEq] at hb hfind
            subst hb
            obtain ⟨x', hx', hgrow⟩ := ih hbx
            exact ⟨x', walkGet_key.mpr ⟨c', hfind, hx'⟩, hgrow⟩
          | false =>
            simp only [hk] at hb hfind
            exact ⟨x, walkGet_key.mpr ⟨b, hfind.trans hb, hbx⟩, .refl x⟩
      | index i =>
        obtain ⟨ht, j, hj, b, hb, hbx⟩ := walkGet_index.mp hx
        have hlen : (l₁ ++ c' :: l₂).length = n.child.length := by simp [hs]
        rw [← hlen] at hj
        rw [arrNth, hs] at hb
        by_cases hjl : j = l₁.length
        · subst hjl
          rw [List.getElem?_append_right le_rfl, Nat.sub_self, List.getElem?_cons_zero] at hb
          cases hb
          obtain ⟨x', hx', hgrow⟩ := ih hbx
          exact ⟨x', walkGet_index.mpr ⟨ht, _, hj, c', by simp [arrNth], hx'⟩, hgrow⟩
        · have hsame : (l₁ ++ c' :: l₂)[j]? = (l₁ ++ c :: l₂)[j]? := by
            rcases lt_or_gt_of_ne hjl with hlt | hgt
            · rw [List.getElem?_append_left hlt, List.getElem?_append_left hlt]
            · obtain ⟨i, rfl⟩ := Nat.exists_eq_add_of_lt hgt
              rw [List.getElem?_append_right (by omega), List.getElem?_append_right (by omega),
                show l₁.length + i + 1 - l₁.length = i + 1 by omega, List.getElem?_cons_succ,
                List.getElem?_cons_succ]
          exact ⟨x, walkGet_index.mpr ⟨ht, j, hj, b, hsame.trans hb, hbx⟩, .refl x⟩
  | @new n c k ht hn hk _ =>
    cases toks with
    | nil =>
      cases hx
      exact ⟨_, rfl, .new ht hn hk ‹_›⟩
    | cons t toks =>
      cases t with
      | append => cases hx
      | key k' =>
        obtain ⟨b, hb, hbx⟩ := walkGet_key.mp hx
        refine ⟨x, walkGet_key.mpr ⟨b, ?_, hbx⟩, .refl x⟩
        rw [objFind, if_neg (not_not.mpr ht)] at hb
        rw [objFind, if_neg (not_not.mpr (show (childAdd n c).type = .obj from ht)), childAdd,
          List.find?_append, hb, Option.some_or]
      | index i =>
        obtain ⟨hta, -⟩ := walkGet_index.mp hx
        simp [ht] at hta

/-- **Nothing is lost**: values are read as before, and arrays are as long. -/
theorem Grows.reads (h : Grows n n') (path : CStr) :
    (∀ s, cfgGetStr n path = .ok s → cfgGetStr n' path = .ok s) ∧
      ∀ len, cfgArrLen n path = .ok len → cfgArrLen n' path = .ok len := by
  have hget : ∀ x, cfgGetNode n path = .ok x → ∃ x', cfgGetNode n' path = .ok x' ∧ Grows x x' := by
    intro x hx
    rw [cfgGetNode_eq] at hx ⊢
    obtain ⟨toks, htoks, hx⟩ := bind_eq_ok.mp hx
    obtain ⟨x', hx', hgrow⟩ := h.walkGet hx
    exact ⟨x', bind_eq_ok.mpr ⟨toks, htoks, hx'⟩, hgrow⟩
  constructor
  · intro s hs
    obtain ⟨x, hx, hval⟩ := bind_eq_ok.mp hs
    obtain ⟨x', hx', hgrow⟩ := hget x hx
    refine bind_eq_ok.mpr ⟨x', hx', ?_⟩
    rw [hgrow.fields.1, hgrow.fields.2.2, hval]
  · intro len hlen
    obtain ⟨x, hx, hval⟩ := bind_eq_ok.mp hlen
    obtain ⟨x', hx', hgrow⟩ := hget x hx
    refine bind_eq_ok.mpr ⟨x', hx', ?_⟩
    split_ifs at hval with ht
    rw [hgrow.fields.1, if_neg ht, hgrow.length_eq (not_not.mp ht), hval]

end Grow

/-! ## Refinement -/

/-- How a call ends that returns `q` on trees: so, or out of memory, with nothing lost. -/
inductive Outcome (m : CfgMem) (r : Rc × CfgMem) (n n' : CfgNode) (q : Rc × CfgNode) : Prop
  | done (hrc : r.1 = q.1) (hn : n' = q.2)
  | starved (hrc : r.1 = some .ENOMEM) (hm : Starved m r.2) (hn : Grows n n')

/-- An operation does to a tree in memory what an operation on trees does, unless it runs out of
memory. -/
def MRefines (F : CfgMem → Nat → Rc × CfgMem) (f : CfgNode → Rc × CfgNode) : Prop :=
  ∀ m t, Owns m t → ∃ t', MStep m (F m t.addr).2 t t' ∧
    Outcome m (F m t.addr) (m.tree t) ((F m t.addr).2.tree t') (f (m.tree t))

section Refinement

variable {F : CfgMem → Nat → Rc × CfgMem} {f : CfgNode → Rc × CfgNode} {m : CfgMem}
  {t c : HTree NodePtrs} {l₁ l₂ : List (HTree NodePtrs)}

theorem tree_child (m : CfgMem) (t : HTree NodePtrs) : (m.tree t).child = t.child.map m.tree := by
  rw [CfgMem.tree_eq]

theorem tree_split (hs : t.child = l₁ ++ c :: l₂) :
    (m.tree t).child = l₁.map m.tree ++ m.tree c :: l₂.map m.tree := by
  rw [tree_child, hs, List.map_append, List.map_cons]

/-- An operation that fails at once. -/
theorem mrefines_error (e : Errno) : MRefines (fun m _ => (some e, m)) fun n => (some e, n) :=
  fun _ t hO => ⟨t, .refl hO, .done rfl rfl⟩

/-- What an operation does to a child it does to the tree around it. -/
theorem MRefines.child (hF : MRefines F f) (hO : Owns m t) (hs : t.child = l₁ ++ c :: l₂) :
    ∃ t', MStep m (F m c.addr).2 t t' ∧
      Outcome m (F m c.addr) (m.tree t) ((F m c.addr).2.tree t')
        ((f (m.tree c)).1,
          { m.tree t with child := l₁.map m.tree ++ (f (m.tree c)).2 :: l₂.map m.tree }) := by
  obtain ⟨c', hstep, hout⟩ := hF m c (hO.child (by simp [hs]))
  refine ⟨_, hstep.lift hO hs, ?_⟩
  rw [hstep.tree_lift hO hs]
  rcases hout with ⟨hrc, hn⟩ | ⟨hrc, hm, hn⟩
  · exact .done hrc (by rw [hn])
  · exact .starved hrc hm (.child (tree_split hs) hn)

/-- The type of a node. -/
theorem Owns.type_eq (hO : Owns m t) : Ptr.type m.view t.addr = (m.tree t).type := by
  have := Netrec.type_eq (hO.good.map m.deref)
  rwa [map_addr] at this

/-- A check of the type of the node in front of an operation. -/
theorem MRefines.guard {w : CfgType} {e : Errno}
    (hbad : ∀ m t, Owns m t → (m.tree t).type ≠ w → F m t.addr = (some e, m))
    (hbad' : ∀ n : CfgNode, n.type ≠ w → f n = (some e, n))
    (hgood : ∀ m t, Owns m t → (m.tree t).type = w → ∃ t', MStep m (F m t.addr).2 t t' ∧
      Outcome m (F m t.addr) (m.tree t) ((F m t.addr).2.tree t') (f (m.tree t))) :
    MRefines F f := by
  intro m t hO
  by_cases ht : (m.tree t).type = w
  · exact hgood m t hO ht
  · rw [hbad m t hO ht, hbad' _ ht]
    exact ⟨t, .refl hO, .done rfl rfl⟩

end Refinement


section Lookup

variable {m : CfgMem} {t : HTree NodePtrs}

theorem exists_split {f : NodePtrs → NodeData} {l₁ l₂ : List (HTree NodeData)} {c : HTree NodeData}
    (hs : (t.map f).child = l₁ ++ c :: l₂) :
    ∃ k₁ b k₂, t.child = k₁ ++ b :: k₂ ∧ k₁.map (HTree.map f) = l₁ ∧ b.map f = c := by
  rw [map_child] at hs
  obtain ⟨k₁, k, hk, rfl, hk'⟩ := List.map_eq_append_iff.mp hs
  obtain ⟨b, k₂, rfl, rfl, -⟩ := List.map_eq_cons_iff.mp hk'
  exact ⟨k₁, b, k₂, hk, rfl, rfl⟩

theorem map_tree (m : CfgMem) (l : List (HTree NodePtrs)) :
    (l.map (HTree.map m.deref)).map node = l.map m.tree := by
  rw [List.map_map]
  rfl

/-- `obj_find` finds no child of that name, or the first one. -/
theorem Owns.objFind_cases (hO : Owns m t) (ht : (m.tree t).type = .obj) (k : CStr) :
    (Ptr.objFind m.view t.addr k = none ∧ objFind (m.tree t) k = none) ∨
    ∃ l₁ c l₂, t.child = l₁ ++ c :: l₂ ∧ (∀ b ∈ l₁.map m.tree, hasName k b = false) ∧
      hasName k (m.tree c) ∧ Ptr.objFind m.view t.addr k = some c.addr := by
  have hcases := Netrec.objFind_cases (hO.good.map m.deref) ht k
  rw [map_addr] at hcases
  rcases hcases with hnone | ⟨l₁, c, l₂, hs, hl, hc, hfind⟩
  · exact .inl hnone
  · obtain ⟨k₁, b, k₂, hk, rfl, rfl⟩ := exists_split hs
    rw [map_tree] at hl
    exact .inr ⟨k₁, b, k₂, hk, hl, hc, hfind.trans (by rw [map_addr])⟩

theorem Owns.arrIdx_eq (hO : Owns m t) (i : Int) :
    Ptr.arrIdx m.view t.addr i = arrIdx (m.tree t) i := by
  have harr := arrIdx_node (hO.good.map m.deref) i
  rwa [map_addr] at harr

/-- The entry at a position that is in range. -/
theorem Owns.arrNth_split (hO : Owns m t) {i : Int} {j : Nat} (hi : arrIdx (m.tree t) i = .ok j) :
    ∃ l₁ c l₂, t.child = l₁ ++ c :: l₂ ∧ l₁.length = j ∧
      Ptr.arrNth m.view t.addr j = some c.addr := by
  obtain ⟨l₁, c, l₂, hs, hlen, hnth⟩ := Netrec.arrNth_split (hO.good.map m.deref) hi
  obtain ⟨k₁, b, k₂, hk, rfl, rfl⟩ := exists_split hs
  rw [map_addr] at hnth
  exact ⟨k₁, b, k₂, hk, by simpa using hlen, hnth.trans (by rw [map_addr])⟩

end Lookup

section Writes

variable {F : CfgMem → Nat → Rc × CfgMem} {f : CfgNode → Rc × CfgNode} {m : CfgMem}
  {t c : HTree NodePtrs} {l₁ l₂ : List (HTree NodePtrs)}

/-- `free(node->val); node->val = copy;` after `copy` has been allocated. -/
theorem setVal_step {m₁ : CfgMem} (hO : Owns m t) (hl : Later m m₁) (hheap : m₁.heap = m.heap)
    (hnodes : m₁.nodes = m.nodes) (htexts : m₁.texts = m.texts.acquire m.fresh)
    (hfresh : m₁.fresh = m.fresh + 1) :
    MStep m ((m₁.freeText t.data.val).setData t.addr fun d => { d with val := some m.fresh }) t
      { t with data := { t.data with val := some m.fresh } } := by
  refine ⟨⟨hl.fresh, hl.text, hl.oom, hl.calls, hl.overrun⟩, ?_, ?_, ?_, fun p hp => ?_⟩
  · have hmod : ((m₁.freeText t.data.val).setData t.addr fun d =>
        { d with val := some m.fresh }).heap =
        m.heap.modify t.addr fun c => { c with data := { t.data with val := some m.fresh } } := by
      rw [CfgMem.setData_heap]
      simp only [CfgMem.freeText, Heap.modify, hheap, hO.good.holds.data]
    rw [hmod]
    exact modify_data_step hO.good _
  · have huse : m.nodes.use [t.addr] = m.nodes := hO.nodes.use_eq (by simp [t.addr_mem])
    rw [CfgMem.setData_nodes]
    simp only [CfgMem.freeText, hnodes, huse, addrs_eq]
    exact .refl _ _
  · -- the new string comes in before the old one goes
    have hnew : m.texts.Swaps m₁.texts (textsOf t) (m.fresh :: textsOf t) := by
      rw [htexts]
      exact (Ledger.swaps_acquire _ _).frame fun x => by simp [List.count_cons]
    have hold : m₁.texts.Covers t.data.val.toList := (hnew.covers hO.texts).mono fun x => by
      rw [textsOf_eq]
      simp only [NodePtrs.strings, List.count_cons, List.count_append]
      omega
    refine hnew.trans ((Ledger.swaps_release hold).frame fun x => ?_)
    rw [textsOf_eq, textsOf_eq]
    simp [NodePtrs.strings, List.count_cons]
    omega
  · show p < m₁.fresh
    have hlt : ∀ q ∈ textsOf t, q < m₁.fresh := fun q hq => (hO.lt q hq).trans_le hl.fresh
    rw [textsOf_eq] at hlt hp
    simp only [NodePtrs.strings, Option.toList_some, List.mem_append, List.mem_singleton] at hlt hp
    rcases hp with (hp | rfl) | hp
    · exact hlt p (.inl (.inl hp))
    · omega
    · exact hlt p (.inr hp)

/-- A value is replaced. -/
theorem mrefines_putVal (v : CStr) :
    MRefines (fun m a => m.putVal a v) fun n => (none, { n with val := some v }) := by
  intro m t hO
  rcases xstrdup_cases m v with ⟨hv, hstarved⟩ | ⟨m₁, hv, hl, hheap, hnodes, htexts, hfresh, htext⟩
  · simp only [CfgMem.putVal, hv]
    exact ⟨t, .tick hO, .starved rfl hstarved (by rw [(Later.tick m).tree_eq hO.lt]; exact .refl _)⟩
  · have hdata : (m₁.heap.cells t.addr).data = t.data := by rw [hheap, hO.good.holds.data]
    have hstep := setVal_step hO hl hheap hnodes htexts hfresh
    simp only [CfgMem.putVal, hv, hdata]
    refine ⟨_, hstep, .done rfl ?_⟩
    rw [CfgMem.tree_eq, CfgMem.tree_eq m t, hstep.toLater.map_tree hO (List.Subset.refl _),
      hstep.toLater.map_text fun p hp => hO.data_lt (by simp_all [NodePtrs.strings])]
    simp only [Option.map_some]
    rw [show ((m₁.freeText t.data.val).setData t.addr fun d =>
      { d with val := some m.fresh }).text m.fresh = v from htext]

/-- `node->val = copy` on a node that has to be a string. -/
theorem mrefines_setStr (v : CStr) (e : Errno) :
    MRefines (fun m a => if Ptr.type m.view a ≠ .str then (some e, m) else m.putVal a v)
      fun n => if n.type ≠ .str then (some e, n) else (none, { n with val := some v }) :=
  .guard (fun m t hO ht => by simp [hO.type_eq, ht]) (fun n hn => if_pos hn) fun m t hO ht => by
    simp only [hO.type_eq, if_neg (not_not.mpr ht)]
    exact mrefines_putVal v m t hO

/-- **An operation on a new child, which is added first.** Either of them may run out of memory; a
child that has been added by then stays. -/
theorem MRefines.newChild (hF : MRefines F f) (hO : Owns m t) (ht : (m.tree t).type = .obj)
    {k : CStr} (hk : objFind (m.tree t) k = none) (type : CfgType) :
    (∃ m', m.nodeNew type (some k) = (none, m') ∧ Starved m m' ∧ MStep m m' t t) ∨
    ∃ m' node t', m.nodeNew type (some k) = (some node, m') ∧
      MStep m (F (m'.childAdd t.addr node) node).2 t t' ∧
      Outcome m (F (m'.childAdd t.addr node) node) (m.tree t)
        ((F (m'.childAdd t.addr node) node).2.tree t')
        ((f (nodeNew type (some k))).1, childAdd (m.tree t) (f (nodeNew type (some k))).2) := by
  rcases nodeNew_cases m type (some k) with
    ⟨m', hnew, hstarved, hidle⟩ | ⟨m', d, hnew, hd, hdt, hdn, hdv⟩
  · exact .inl ⟨m', hnew, hstarved, hidle t hO⟩
  · refine .inr ⟨m', m.heap.fresh, ?_⟩
    have hadd := hd.childAdd hO
    have hO' := hadd.owns hO
    have hnode : (m'.childAdd t.addr m.heap.fresh).tree ⟨m.heap.fresh, d, []⟩ =
        nodeNew type (some k) := by
      rw [CfgMem.tree_eq, nodeNew, hdt, hdv, ← hdn]
      rfl
    obtain ⟨c', hstep, hout⟩ := hF _ ⟨m.heap.fresh, d, []⟩ (hO'.child (by simp))
    rw [hnode] at hout
    have hlift := @MStep.lift _ _ _ _ _ t.child [] hO' rfl hstep
    have htree := @MStep.tree_lift _ _ _ _ _ t.child [] hO' rfl hstep
    refine ⟨_, hnew, hadd.trans hlift, ?_⟩
    have hchild : (F (m'.childAdd t.addr m.heap.fresh) m.heap.fresh).2.tree
        { t with child := t.child ++ [c'] } = childAdd (m.tree t)
          ((F (m'.childAdd t.addr m.heap.fresh) m.heap.fresh).2.tree c') := by
      rw [htree, hadd.toLater.tree_with_child hO, hadd.toLater.map_tree hO (List.Subset.refl _),
        childAdd, tree_child]
      rfl
    rw [hchild]
    rcases hout with ⟨hrc, hn⟩ | ⟨hrc, hm, hn⟩
    · exact .done hrc (by rw [hn])
    · refine .starved hrc (hm.mono hadd.toLater (.refl _)) (.new ht hk hn.fields.2.1 (hn.bare ?_))
      exact .mk (by simp)

/-- Looking at the root of a tree. -/
theorem Owns.useRoot (hO : Owns m t) : m.useNodes [t.addr] = m :=
  hO.useNodes_eq (by simp [t.addr_mem])

/-- A starved call that has left the tree as it is. -/
theorem Outcome.same {m' : CfgMem} {q : Rc × CfgNode} (hO : Owns m t) (hstep : MStep m m' t t)
    (hstarved : Starved m m') : Outcome m (some .ENOMEM, m') (m.tree t) (m'.tree t) q :=
  .starved rfl hstarved (by rw [hstep.toLater.tree_eq hO.lt]; exact .refl _)

/-- `set_str_plain`. -/
theorem mrefines_setStrPlain (k v : CStr) :
    MRefines (CfgMem.setToks v [.key k]) (setToks v [.key k]) := by
  refine .guard (w := .obj) (e := .ENOTDIR) (fun m t hO ht => ?_) (fun n hn => if_pos hn)
    fun m t hO ht => ?_
  · simp [CfgMem.setToks, hO.useRoot, hO.type_eq, ht]
  simp only [CfgMem.setToks, setToks, hO.useRoot, hO.type_eq, if_neg (not_not.mpr ht)]
  rcases hO.objFind_cases ht k with ⟨hnone, hnone'⟩ | ⟨l₁, c, l₂, hs, hl, hc, hsome⟩
  · simp only [CfgMem.setStrPlain, hO.visit_eq, hnone]
    rw [setStrPlain_of_none ((objFind_eq_none_iff ht).mp hnone')]
    rcases (mrefines_putVal v).newChild hO ht hnone' .str with
      ⟨m', hnew, hstarved, hstep⟩ | ⟨m', node, t', hnew, hstep, hout⟩
    · simp only [hnew]
      exact ⟨t, hstep, .same hO hstep hstarved⟩
    · simp only [hnew]
      exact ⟨t', hstep, hout⟩
  · simp only [CfgMem.setStrPlain, hO.visit_eq, hsome]
    rw [setStrPlain_of_split (tree_split hs) hl hc]
    exact (mrefines_setStr v .EISDIR).child hO hs

/-- `set_arr_append`: the node is freed again when there is no memory for its value. -/
theorem mrefines_setArrAppend (v : CStr) :
    MRefines (fun m a => m.setArrAppend a v) fun n => setArrAppend n v := by
  refine .guard (w := .arr) (e := .ENOTDIR) (fun m t hO ht => ?_) (fun n hn => if_pos hn)
    fun m t hO ht => ?_
  · simp [CfgMem.setArrAppend, hO.useRoot, hO.type_eq, ht]
  simp only [CfgMem.setArrAppend, setArrAppend, hO.useRoot, hO.type_eq, ht, ne_eq,
    not_true_eq_false, if_false]
  rcases nodeNew_cases m .str none with
    ⟨m', hnew, hstarved, hidle⟩ | ⟨m', d, hnew, hd, hdt, hdn, hdv⟩
  · simp only [hnew]
    exact ⟨t, hidle t hO, .same hO (hidle t hO) hstarved⟩
  · rcases xstrdup_cases m' v with
      ⟨hv, hstarved⟩ | ⟨m₁, hv, hl, hheap, hnodes, htexts, hfresh, htext⟩
    · have hd' := hd.congr (.tick m') rfl rfl rfl
      have hfreed := nodeFree_freed hd'.owns
      rw [addrs_eq, addrsAll, textsOf_eq, textsAll_nil, List.append_nil] at hfreed
      have hstep := hd'.freed hfreed hO
      simp only [hnew, hv]
      exact ⟨t, hstep, .same hO hstep (hstarved.mono hd.toLater hfreed.later)⟩
    · have hset := hd.setData (f := fun d => { d with val := some m'.fresh }) hl hheap hnodes
        (by
          rw [htexts]
          refine hd.texts.trans ((Ledger.swaps_acquire _ _).frame fun x => ?_)
          simp [NodePtrs.strings, hdv, Nat.add_comm])
        (fun p hp => by
          have hlt := hd.lt p
          simp only [NodePtrs.strings, hdv, Option.toList_some, Option.toList_none, List.append_nil,
            List.mem_append, List.mem_singleton] at hp hlt
          rcases hp with hp | rfl
          · exact (hlt hp).trans_le hl.fresh
          · omega)
      have hnode : (m₁.setData m.heap.fresh fun d => { d with val := some m'.fresh }).tree
          ⟨m.heap.fresh, { d with val := some m'.fresh }, []⟩ =
          { nodeNew .str none with val := some v } := by
        rw [CfgMem.tree_eq, nodeNew, hdt, Option.map_eq_none_iff.mp hdn, ← htext]
        rfl
      simp only [hnew, hv]
      exact ⟨_, hset.childAdd hO, .done rfl (by rw [hset.tree_childAdd hO, hnode])⟩

/-- The step of a walk at an index. -/
theorem MRefines.atIndex (hF : MRefines F f) (i : Int) :
    MRefines (fun m a => m.atIndex a i F) fun n => atIndex n i f := by
  refine .guard (w := .arr) (e := .ENOTDIR) (fun m t hO ht => ?_) (fun n hn => if_pos hn)
    fun m t hO ht => ?_
  · simp [CfgMem.atIndex, hO.visit_eq, hO.type_eq, ht]
  simp only [CfgMem.atIndex, Netrec.atIndex, hO.visit_eq, hO.type_eq, if_neg (not_not.mpr ht),
    hO.arrIdx_eq]
  cases hi : arrIdx (m.tree t) i with
  | error e => exact ⟨t, .refl hO, .done rfl rfl⟩
  | ok j =>
    obtain ⟨l₁, c, l₂, hs, hlen, hnth⟩ := hO.arrNth_split hi
    have honNth : onNth f j (m.tree t).child = some ((f (m.tree c)).1,
        l₁.map m.tree ++ (f (m.tree c)).2 :: l₂.map m.tree) := by
      rw [tree_split hs, onNth_append (by simpa using hlen)]
    simp only [hnth, honNth]
    exact hF.child hO hs

theorem mrefines_setArrIdx (i : Int) (v : CStr) :
    MRefines (fun m a => m.setArrIdx a i v) fun n => setArrIdx n i v := by
  refine .guard (w := .arr) (e := .ENOTDIR) (fun m t hO ht => ?_) (fun n hn => if_pos hn)
    fun m t hO ht => ?_
  · simp [CfgMem.setArrIdx, hO.visit_eq, hO.type_eq, ht]
  simp only [CfgMem.setArrIdx, setArrIdx, hO.visit_eq, hO.type_eq, if_neg (not_not.mpr ht),
    hO.arrIdx_eq]
  cases hi : arrIdx (m.tree t) i with
  | error e =>
    split_ifs <;> exact ⟨t, .refl hO, .done rfl rfl⟩
  | ok j =>
    obtain ⟨l₁, c, l₂, hs, hlen, hnth⟩ := hO.arrNth_split hi
    -- the index behind the last entry is out of range anyway
    have hend : ¬ (i ≥ 0 ∧ i = (m.heap.cells t.addr).count) := by
      rintro ⟨h0, hn⟩
      rw [hO.good.holds.count] at hn
      have hlen' : (m.tree t).child.length = t.child.length := by rw [tree_child, List.length_map]
      rw [arrIdx, if_neg (not_not.mpr ht), if_pos h0, if_pos (by omega)] at hi
      cases hi
    rw [if_neg hend]
    simp only [hnth, tree_split hs]
    rw [onNth_append (by simpa using hlen)]
    exact (mrefines_setStr v .ENOENT).child hO hs

/-- The step of `cfg_set_str` at a key that is not the last token. -/
theorem MRefines.enterKey (hF : MRefines F f) (k : CStr) (want : CfgType) :
    MRefines (fun m a => m.enterKey a k want F) fun n => enterKey n k want f := by
  refine .guard (w := .obj) (e := .ENOTDIR) (fun m t hO ht => ?_) (fun n hn => if_pos hn)
    fun m t hO ht => ?_
  · simp [CfgMem.enterKey, hO.visit_eq, hO.type_eq, ht]
  rcases hO.objFind_cases ht k with ⟨hnone, hnone'⟩ | ⟨l₁, c, l₂, hs, hl, hc, hsome⟩
  · simp only [CfgMem.enterKey, hO.visit_eq, hO.type_eq, if_neg (not_not.mpr ht), hnone]
    rw [enterKey_of_none ht hnone']
    rcases hF.newChild hO ht hnone' want with
      ⟨m', hnew, hstarved, hstep⟩ | ⟨m', node, t', hnew, hstep, hout⟩
    · simp only [hnew]
      exact ⟨t, hstep, .same hO hstep hstarved⟩
    · simp only [hnew]
      exact ⟨t', hstep, hout⟩
  · simp only [CfgMem.enterKey, hO.visit_eq, hO.type_eq, if_neg (not_not.mpr ht), hsome,
      (hO.child (c := c) (by simp [hs])).type_eq]
    rw [enterKey_of_split ht (tree_split hs) hl hc]
    by_cases htc : (m.tree c).type = want
    · simp only [htc, ne_eq, not_true_eq_false, if_false]
      exact hF.child hO hs
    · simp only [htc, ne_eq, not_false_eq_true, if_true]
      exact ⟨t, .refl hO, .done rfl rfl⟩

/-- **The walk of `cfg_set_str` refines the walk on trees.** -/
theorem mrefines_setToks (v : CStr) (toks : List Tok) :
    MRefines (CfgMem.setToks v toks) (setToks v toks) := by
  induction toks with
  | nil => exact mrefines_error .EINVAL
  | cons t toks ih =>
    cases toks with
    | nil =>
      cases t with
      | key k => exact mrefines_setStrPlain k v
      | append => exact mrefines_setArrAppend v
      | index i => exact mrefines_setArrIdx i v
    | cons t' toks =>
      cases t with
      | key k => exact ih.enterKey k (wantType t')
      | append => exact mrefines_error .EINVAL
      | index i => exact ih.atIndex i

end Writes

section Deletes

variable {m : CfgMem} {t c : HTree NodePtrs} {l₁ l₂ : List (HTree NodePtrs)}

/-- **A child is taken out and its blocks are freed.** -/
theorem remove_step (hO : Owns m t) (hs : t.child = l₁ ++ c :: l₂) :
    MStep m (m.remove t.addr (l₁.map HTree.addr).getLast? c.addr) t
      { t with child := l₁ ++ l₂ } := by
  have hOc := hO.child (c := c) (by simp [hs])
  have hown : Owns { m with heap := m.heap.unlink t.addr (l₁.map HTree.addr).getLast? c.addr } c :=
    ⟨unlink_good hO.good hs, hOc.nodes, hOc.texts, hOc.lt⟩
  have hfreed : Freed _ (m.remove t.addr (l₁.map HTree.addr).getLast? c.addr) _ _ :=
    nodeFree_freed hown
  have hl := hfreed.later
  refine ⟨⟨hl.fresh, hl.text, hl.oom, hl.calls, hl.overrun⟩, ?_, ?_, ?_, fun p hp => ?_⟩
  · rw [hfreed.heap_eq]
    exact unlink_step hO.good hs
  · refine hfreed.nodes.frame fun x => ?_
    rw [addrs_eq t, addrs_eq { t with child := _ }, hs, addrsAll_split, addrsAll_append]
    simp only [List.count_cons, List.count_append, List.count_nil]
    omega
  · refine hfreed.texts.frame fun x => ?_
    rw [textsOf_eq t, textsOf_eq { t with child := _ }, hs]
    simp only [textsAll_append, textsAll_cons, List.count_append, List.count_nil]
    omega
  · refine (hO.lt p ?_).trans_le hl.fresh
    rw [textsOf_eq, hs]
    rw [textsOf_eq] at hp
    simp only [textsAll_append, textsAll_cons, List.mem_append] at hp ⊢
    tauto

theorem tree_remove (hO : Owns m t) (hs : t.child = l₁ ++ c :: l₂) :
    (m.remove t.addr (l₁.map HTree.addr).getLast? c.addr).tree { t with child := l₁ ++ l₂ } =
      { m.tree t with child := l₁.map m.tree ++ l₂.map m.tree } := by
  have hl := (remove_step hO hs).toLater
  rw [hl.tree_with_child hO, hl.map_tree hO (l := l₁ ++ l₂) (by simp [hs]), List.map_append]

theorem mrefines_delArr (i : Int) : MRefines (fun m a => m.delArr a i) fun n => delArr n i := by
  refine .guard (w := .arr) (e := .ENOENT) (fun m t hO ht => ?_)
    (fun n hn => by simp [delArr, arrIdx_eq, hn]) fun m t hO ht => ?_
  · simp [CfgMem.delArr, hO.visit_eq, hO.type_eq, ht]
  simp only [CfgMem.delArr, delArr, hO.visit_eq, hO.type_eq, if_neg (not_not.mpr ht), hO.arrIdx_eq]
  cases hi : arrIdx (m.tree t) i with
  | error e => exact ⟨t, .refl hO, .done rfl rfl⟩
  | ok j =>
    obtain ⟨l₁, c, l₂, hs, hlen, -⟩ := hO.arrNth_split hi
    have hseek : Heap.seek (fun i _ => decide (i = j)) 0 none (m.heap.chain t.addr) =
        some ((l₁.map HTree.addr).getLast?, c.addr) := by
      rw [hO.good.chain_eq, hs, List.map_append, List.map_cons, Heap.seek_append]
      · simp
      · intro k a ha
        have hk : k < (l₁.map HTree.addr).length := (List.getElem?_eq_some_iff.mp ha).1
        simp at hk ⊢
        omega
      · simpa using hlen
    have hlt : ¬ (m.tree t).child.length ≤ j := by
      rw [tree_split hs]
      simp
      omega
    have herase : (m.tree t).child.eraseIdx j = l₁.map m.tree ++ l₂.map m.tree := by
      rw [tree_split hs, List.eraseIdx_append_of_length_le (by simp [hlen])]
      simp [hlen]
    simp only [hseek, if_neg hlt, herase]
    exact ⟨_, remove_step hO hs, .done rfl (tree_remove hO hs)⟩

theorem mrefines_delPlain (k : CStr) :
    MRefines (fun m a => m.delPlain a k) fun n => delPlain n k := by
  intro m t hO
  have hname : ∀ c ∈ t.child, decide (Ptr.name m.view c.addr = some k) = hasName k (m.tree c) := by
    intro c hc
    have := name_eq ((hO.good.child hc).map m.deref)
    rw [map_addr] at this
    rw [hasName, CfgMem.view, this]
    rfl
  simp only [CfgMem.delPlain, hO.visit_eq, hO.good.chain_eq]
  cases hf : t.child.find? fun c => hasName k (m.tree c) with
  | none =>
    have hno : ∀ c ∈ t.child, hasName k (m.tree c) = false := by simpa using hf
    have hany : (m.tree t).child.any (hasName k) = false := by
      rw [tree_child]
      simpa using hno
    rw [Heap.seek_eq_none, delPlain, if_neg (by simp [hany])]
    · exact ⟨t, .refl hO, .done rfl rfl⟩
    · intro j a ha
      obtain ⟨c, hc, rfl⟩ := List.mem_map.mp (List.mem_of_getElem? ha)
      rw [hname c hc, hno c hc]
  | some c =>
    obtain ⟨hc, l₁, l₂, hs, hl⟩ := List.find?_eq_some_iff_append.mp hf
    have hseek : Heap.seek (fun _ a => decide (Ptr.name m.view a = some k)) 0 none
        (t.child.map HTree.addr) = some ((l₁.map HTree.addr).getLast?, c.addr) := by
      rw [hs, List.map_append, List.map_cons, Heap.seek_append]
      · simp
      · intro j a ha
        obtain ⟨b, hb, rfl⟩ := List.mem_map.mp (List.mem_of_getElem? ha)
        rw [hname b (by simp [hs, hb])]
        simpa using hl b hb
      · rw [hname c (by simp [hs])]
        exact hc
    have herase : (m.tree t).child.eraseP (hasName k) = l₁.map m.tree ++ l₂.map m.tree := by
      rw [tree_split hs, List.eraseP_append_right _ (by simpa using hl), List.eraseP_cons_of_pos hc]
    have hany : (m.tree t).child.any (hasName k) = true := by
      rw [tree_split hs]
      simp [hc]
    simp only [hseek, delPlain, if_pos hany, herase]
    exact ⟨_, remove_step hO hs, .done rfl (tree_remove hO hs)⟩

/-- **The walk of `cfg_del` refines the walk on trees.** -/
theorem mrefines_delToks (toks : List Tok) : MRefines (CfgMem.delToks toks) (delToks toks) := by
  induction toks with
  | nil => exact mrefines_error .EINVAL
  | cons t toks ih =>
    cases toks with
    | nil =>
      cases t with
      | append => exact mrefines_error .EINVAL
      | index i => exact mrefines_delArr i
      | key k =>
        refine .guard (w := .obj) (e := .ENOTDIR) (fun m t hO ht => ?_) (fun n hn => if_pos hn)
          fun m t hO ht => ?_
        · simp [CfgMem.delToks, hO.useRoot, hO.type_eq, ht]
        simp only [CfgMem.delToks, delToks, hO.useRoot, hO.type_eq, if_neg (not_not.mpr ht)]
        exact mrefines_delPlain k m t hO
    | cons t' toks =>
      cases t with
      | append => exact mrefines_error .EINVAL
      | index i => exact ih.atIndex i
      | key k =>
        refine .guard (w := .obj) (e := .ENOTDIR) (fun m t hO ht => ?_) (fun n hn => if_pos hn)
          fun m t hO ht => ?_
        · simp [CfgMem.delToks, hO.visit_eq, hO.type_eq, ht]
        simp only [CfgMem.delToks, delToks, hO.visit_eq, hO.type_eq, if_neg (not_not.mpr ht)]
        rcases hO.objFind_cases ht k with ⟨hnone, hnone'⟩ | ⟨l₁, c, l₂, hs, hl, hc, hsome⟩
        · simp only [hnone, onFirst_eq_none.mpr ((objFind_eq_none_iff ht).mp hnone')]
          exact ⟨t, .refl hO, .done rfl rfl⟩
        · simp only [hsome, tree_split hs, onFirst_append_of_forall_not _ hl hc]
          exact ih.child hO hs

end Deletes

end Netrec
