import Netrec.Cfg.Starved

/-!
# The life of a configuration

A configuration is initialised or loaded, changed by calls, and freed. Whichever allocations fail on
the way, the blocks in use are always exactly those of the tree: nothing is freed twice, nothing is
used after it has been freed, and `cfg_free` leaves nothing behind. A load that fails has freed
everything, the buffer of a value included; this buffer is long enough for every value.

## Main definitions

* `CfgMem.parseValue`, `CfgMem.loadLine`, `CfgMem.cfgLoad`: loading a file
* `CfgMem.run`: a sequence of calls
* `Whole m t`: the blocks in use are those of the tree
* `Stands m cfg`: the memory holds `cfg` and nothing else

## Main results

* `Stands.call`: one call
* `cfgFree_run`: a sequence of calls and its end
* `call_starved`: a call without memory
* `cfgLoad_stands`: loading a file
-/

namespace Netrec

open CLib HTree

/-! ## Loading -/

namespace CfgMem

/-- Bytes are written to a buffer of the given length. -/
def writes (m : CfgMem) (len n : Nat) : CfgMem :=
  { m with overrun := m.overrun || decide (len < n) }

/-- The number of bytes that the loop of `parse_value` writes. -/
def written : CStr → Nat
  | [] => 0
  | c :: src =>
    if c = '"' then 0
    else if c = '\\' then
      match src with
      | [] => 0
      | _ :: src => written src + 1
    else written src + 1

/-- `*out = xstrdup(s); return *out ? 0 : -ENOMEM;` -/
def copied (m : CfgMem) (s : CStr) : Except Errno Nat × CfgMem :=
  match m.xstrdup (some s) with
  | (none, m) => (.error .ENOMEM, m)
  | (some p, m) => (.ok p, m)

/-- `parse_value`: the block of the value. -/
def parseValue (m : CfgMem) (src : CStr) : Except Errno Nat × CfgMem :=
  let src := trim src
  if src = [] then m.copied []
  else if src.head? ≠ some '"' then m.copied (trim (src.takeWhile (· ≠ '#')))
  else
    let src := src.tail
    -- the loop fills the block, which is then freed unless the line is in order
    match m.newText (((unquote src).map Prod.fst).toOption.getD []) with
    | (none, m) => (.error .ENOMEM, m)
    | (some dst, m) =>
      let m := m.writes (src.length + 1) (written src + 1)
      match unquote src with
      | .error e => (.error e, m.freeText (some dst))
      | .ok (_, rest) =>
        if trim rest ≠ [] ∧ (trim rest).head? ≠ some '#' then
          (.error .EINVAL, m.freeText (some dst))
        else (.ok dst, m)

/-- `load_line`. -/
def loadLine (m : CfgMem) (line : CStr) : Rc × CfgMem :=
  let key := trim line
  if key = [] ∨ key.head? = some '#' then (none, m)
  else
    match splitAtChar '=' key with
    | none => (some .EINVAL, m)
    | some (key, eq) =>
      if trim key = [] then (some .EINVAL, m)
      else
        match pathFileOk (trim key) with
        | .error e => (some e, m)
        | .ok _ =>
          match m.parseValue (trim eq) with
          | (.error e, m) => (some e, m)
          | (.ok val, m) =>
            match (m.useTexts [val]).cfgSetStr (trim key) (m.text val) with
            | (rc, m) => (rc, m.freeText (some val))

/-- One round of the loop of `cfg_load`. -/
def loadRound (m : CfgMem) (l : CStr × Bool) : Rc × CfgMem :=
  if '\n' ∉ l.1 ∧ !l.2 then (some .E2BIG, m) else m.loadLine (trimEol l.1)

/-- The loop of `cfg_load`. -/
def loadAll (m : CfgMem) : List (CStr × Bool) → Rc × CfgMem
  | [] => (none, m)
  | l :: ls =>
    match m.loadRound l with
    | (none, m) => loadAll m ls
    | (some e, m) => (some e, m.cfgFree)

/-- `cfg_load` of a file that cannot be opened, or that has the given content. -/
def cfgLoad (m : CfgMem) : Except Errno CStr → Rc × CfgMem
  | .error e => (some e, m.cfgInit.cfgFree)
  | .ok text => m.cfgInit.loadAll (fgetsAll 4096 text)

/-- The memory before the first call: only the caller's `struct cfg` is there, with anything in
it. -/
def start (oom : Nat → Bool) (garbage : HCell NodePtrs) : CfgMem where
  heap := ⟨fun _ => garbage, 1, false⟩
  text _ := []
  fresh := 0
  nodes := { live := [Ptr.root] }
  texts := {}
  oom
  calls := 0
  overrun := false

/-- The memory after a sequence of calls on an empty configuration. -/
def run (oom : Nat → Bool) (garbage : HCell NodePtrs) (ops : List CfgOp) : CfgMem :=
  ops.foldl (fun m op => (m.call op).2) (start oom garbage).cfgInit

/-- Nothing has gone wrong. -/
structure Sound (m : CfgMem) : Prop where
  heap : m.heap.fault = false
  nodes : m.nodes.fault = false
  texts : m.texts.fault = false
  overrun : m.overrun = false

end CfgMem

/-- The code a call returns and the tree it leaves. -/
def CfgOp.call (cfg : CfgNode) : CfgOp → Rc × CfgNode
  | .set path val => cfgSetStr cfg path val
  | .del path => cfgDel cfg path

/-- The tree at the root has all the blocks in use. -/
structure Whole (m : CfgMem) (t : HTree NodePtrs) : Prop where
  root : t.addr = Ptr.root
  good : Good m.heap t
  nodes : m.nodes.live.Perm t.addrs
  texts : m.texts.live.Perm (textsOf t)
  lt : ∀ p ∈ textsOf t, p < m.fresh
  sound : m.Sound

/-- The memory holds the configuration and nothing else. -/
def Stands (m : CfgMem) (cfg : CfgNode) : Prop := ∃ t, Whole m t ∧ m.tree t = cfg

section Whole

variable {m m' : CfgMem} {t t' : HTree NodePtrs} {cfg cfg' : CfgNode}

theorem Whole.owns (h : Whole m t) : Owns m t :=
  ⟨h.good, fun x => (h.nodes.count_eq x).ge, fun x => (h.texts.count_eq x).ge, h.lt⟩

theorem Whole.step (h : Whole m t) (hs : MStep m m' t t') : Whole m' t' where
  root := hs.heap.addr.trans h.root
  good := hs.heap.good
  nodes := List.perm_iff_count.mpr fun x => by
    have h₁ := hs.nodes.count x
    have h₂ := h.nodes.count_eq x
    omega
  texts := List.perm_iff_count.mpr fun x => by
    have h₁ := hs.texts.count x
    have h₂ := h.texts.count_eq x
    omega
  lt := hs.lt
  sound :=
    ⟨hs.heap.fault.trans h.sound.heap, hs.nodes.fault.trans h.sound.nodes,
      hs.texts.fault.trans h.sound.texts, hs.overrun.trans h.sound.overrun⟩

/-- The memory of an empty configuration has nothing but the root. -/
theorem stands_cfgInit (hsound : m.Sound) (hroot : m.heap.cells Ptr.root = CfgMem.zeroed)
    (hfresh : 0 < m.heap.fresh) (hnodes : m.nodes.live.Perm [Ptr.root])
    (htexts : m.texts.live.Perm []) : Stands m cfgInit := by
  have haddrs : (⟨Ptr.root, ⟨.obj, none, none⟩, []⟩ : HTree NodePtrs).addrs = [Ptr.root] := by
    rw [addrs, addrsAll]
  have hempty : textsOf ⟨Ptr.root, ⟨.obj, none, none⟩, []⟩ = [] := by
    rw [textsOf_eq, textsAll_nil]
    rfl
  refine ⟨⟨Ptr.root, ⟨.obj, none, none⟩, []⟩,
    ⟨rfl, ⟨.mk ?_ ?_ ?_ ?_ trivial (by simp), ?_, ?_⟩, ?_, ?_, ?_, hsound⟩, ?_⟩
  · rw [hroot]
    rfl
  · rw [hroot]
    rfl
  · rw [hroot]
    rfl
  · rw [hroot]
    rfl
  · rw [haddrs]
    exact List.nodup_singleton _
  · rw [haddrs]
    rintro a ha
    rw [List.mem_singleton.mp ha]
    exact hfresh
  · rw [haddrs]
    exact hnodes
  · rw [hempty]
    exact htexts
  · rw [hempty]
    simp
  · rw [CfgMem.tree_eq]
    rfl

theorem Stands.live_eq (h : Stands m cfgInit) :
    m.nodes.live = [Ptr.root] ∧ m.texts.live = [] := by
  obtain ⟨t, hw, ht⟩ := h
  rw [CfgMem.tree_eq, cfgInit, nodeNew, CfgNode.mk.injEq] at ht
  obtain ⟨-, hname, hval, hchild⟩ := ht
  have hnodes := hw.nodes
  have htexts := hw.texts
  rw [addrs_eq, List.map_eq_nil_iff.mp hchild, addrsAll, hw.root] at hnodes
  rw [textsOf_eq, List.map_eq_nil_iff.mp hchild, NodePtrs.strings, Option.map_eq_none_iff.mp hname,
    Option.map_eq_none_iff.mp hval] at htexts
  exact ⟨List.perm_singleton.mp hnodes, List.Perm.eq_nil htexts⟩

/-- A walk from the root. -/
theorem Stands.walk (h : Stands m cfg) {F : CfgMem → Nat → Rc × CfgMem}
    {f : CfgNode → Rc × CfgNode} (hF : MRefines F f) :
    ∃ cfg', Stands (F m Ptr.root).2 cfg' ∧ Later m (F m Ptr.root).2 ∧
      Outcome m (F m Ptr.root) cfg cfg' (f cfg) := by
  obtain ⟨t, hw, rfl⟩ := h
  obtain ⟨t', hstep, hout⟩ := hF m t hw.owns
  rw [hw.root] at hstep hout
  exact ⟨_, ⟨t', hw.step hstep, rfl⟩, hstep.toLater, hout⟩

/-- **One call.** -/
theorem Stands.call (h : Stands m cfg) (op : CfgOp) :
    ∃ cfg', Stands (m.call op).2 cfg' ∧ Later m (m.call op).2 ∧
      Outcome m (m.call op) cfg cfg' (op.call cfg) := by
  cases op with
  | set path val =>
    simp only [CfgMem.call, CfgMem.cfgSetStr, CfgOp.call, cfgSetStr]
    cases parsePath CFG_PATH_DEPTH_MAX path with
    | error e => exact ⟨cfg, h, .refl m, .done rfl rfl⟩
    | ok toks => exact h.walk (mrefines_setToks val toks)
  | del path =>
    simp only [CfgMem.call, CfgMem.cfgDel, CfgOp.call, cfgDel]
    cases parsePath CFG_PATH_DEPTH_MAX path with
    | error e => exact ⟨cfg, h, .refl m, .done rfl rfl⟩
    | ok toks => exact h.walk (mrefines_delToks toks)

end Whole

/-! ## Freeing everything -/

/-- The children of a node, in blocks of their own. -/
structure Forest (m : CfgMem) (l : List (HTree NodePtrs)) : Prop where
  holds : ∀ c ∈ l, CLib.Holds m.heap c
  linked : m.heap.Linked none (l.map HTree.addr)
  nodup : (addrsAll l).Nodup
  lt : ∀ a ∈ addrsAll l, a < m.heap.fresh
  nodes : m.nodes.Covers (addrsAll l)
  texts : m.texts.Covers (textsAll l)
  fresh : ∀ p ∈ textsAll l, p < m.fresh

/-- The children of a node have been freed; of other nodes nothing has changed. -/
structure Felled (m m' : CfgMem) (l : List (HTree NodePtrs)) : Prop extends Later m m' where
  nodes : m.nodes.Swaps m'.nodes (addrsAll l) []
  texts : m.texts.Swaps m'.texts (textsAll l) []
  heapFresh : m'.heap.fresh = m.heap.fresh
  fault : m'.heap.fault = m.heap.fault
  cells : ∀ a ∉ l.map HTree.addr, m'.heap.cells a = m.heap.cells a

section Free

variable {m m' : CfgMem} {t c : HTree NodePtrs} {l : List (HTree NodePtrs)}

theorem Whole.forest (h : Whole m t) : Forest m t.child := by
  have hO := h.owns
  refine ⟨fun c hc => h.good.holds.child hc, h.good.holds.linked, h.good.nodup_all.2,
    fun a ha => ?_, hO.nodes.mono fun x => ?_, hO.texts.mono fun x => ?_, fun p hp => ?_⟩
  · refine h.good.lt a ?_
    rw [addrs_eq]
    exact List.mem_cons_of_mem _ ha
  · rw [addrs_eq]
    simp [List.count_cons]
  · rw [textsOf_eq]
    simp
  · refine h.lt p ?_
    rw [textsOf_eq]
    exact List.mem_append_right _ hp

theorem CfgMem.cut_heap (m : CfgMem) (a : Nat) :
    (m.cut a).heap = m.heap.modify a fun c => { c with next := none } := rfl

/-- A child that is about to be freed. -/
theorem Forest.cut_owns (h : Forest m (c :: l)) :
    Owns (m.cut c.addr) c ∧ (m.cut c.addr).nodes = m.nodes := by
  have hnd := h.nodup
  have hnodes := h.nodes
  have htexts := h.texts
  have hlt := h.lt
  have hfresh := h.fresh
  rw [addrsAll] at hnd hnodes hlt
  rw [textsAll_cons] at htexts hfresh
  obtain ⟨hndc, -, -⟩ := List.nodup_append.mp hnd
  have hroot : c.addr ∉ addrsAll c.child := by
    rw [addrs_eq, List.nodup_cons] at hndc
    exact hndc.1
  have hcov : m.nodes.Covers c.addrs := hnodes.mono fun x => by simp
  have huse : (m.cut c.addr).nodes = m.nodes := hcov.use_eq (by simp [c.addr_mem])
  refine ⟨⟨⟨?_, hndc, fun a ha => hlt a (by simp [ha])⟩, ?_, htexts.mono fun x => by simp,
    fun p hp => hfresh p (by simp [hp])⟩, huse⟩
  · refine (h.holds c (by simp)).congr ?_ fun a ha => ?_
    · rw [CfgMem.cut_heap, Heap.modify_self]
    · have hne : a ≠ c.addr := fun he => hroot (he ▸ ha)
      rw [CfgMem.cut_heap, Heap.modify_of_ne _ _ _ hne]
  · rw [huse]
    exact hcov

theorem Felled.single (h : Forest m (c :: l)) (hf : Freed (m.cut c.addr) m' c.addrs (textsOf c)) :
    Felled m m' [c] := by
  obtain ⟨-, huse⟩ := h.cut_owns
  have hl := hf.later
  refine ⟨⟨hl.fresh, hl.text, hl.oom, hl.calls, hl.overrun⟩, ?_, ?_, ?_, ?_, fun a ha => ?_⟩
  · rw [addrsAll, addrsAll, List.append_nil, ← huse]
    exact hf.nodes
  · rw [textsAll_cons, textsAll_nil, List.append_nil]
    exact hf.texts
  · rw [hf.heap_eq, CfgMem.cut_heap, Heap.modify_fresh]
  · rw [hf.heap_eq, CfgMem.cut_heap, Heap.modify_fault]
  · rw [hf.heap_eq, CfgMem.cut_heap, Heap.modify_of_ne _ _ _ (by simpa using ha)]

theorem Felled.cons {m'' : CfgMem} (h : Felled m m' [c]) (h' : Felled m' m'' l) :
    Felled m m'' (c :: l) := by
  obtain ⟨hl, hn, ht, hfresh, hfault, hcells⟩ := h
  rw [addrsAll, addrsAll, List.append_nil] at hn
  rw [textsAll_cons, textsAll_nil, List.append_nil] at ht
  refine ⟨hl.trans h'.toLater, ?_, ?_, h'.heapFresh.trans hfresh, h'.fault.trans hfault,
    fun a ha => ?_⟩
  · rw [addrsAll]
    exact (hn.extend _).trans h'.nodes
  · rw [textsAll_cons]
    exact (ht.extend _).trans h'.texts
  · rw [List.map_cons, List.mem_cons, not_or] at ha
    rw [h'.cells a ha.2, hcells a (by simpa using ha.1)]

/-- The other children are as they were. -/
theorem Forest.rest (h : Forest m (c :: l)) (hf : Felled m m' [c]) : Forest m' l := by
  have hnd := h.nodup
  have hlt := h.lt
  have hnodes := h.nodes
  have htexts := h.texts
  rw [addrsAll] at hnd hlt hnodes
  rw [textsAll_cons] at htexts
  obtain ⟨-, hndl, hdis⟩ := List.nodup_append.mp hnd
  have hkeep : ∀ a ∈ addrsAll l, m'.heap.cells a = m.heap.cells a := by
    intro a ha
    refine hf.cells a fun hm => ?_
    rw [List.map_cons, List.map_nil, List.mem_singleton] at hm
    exact hdis c.addr c.addr_mem a ha hm.symm
  obtain ⟨hl, hn, ht, hfresh, -, -⟩ := hf
  rw [addrsAll, addrsAll, List.append_nil] at hn
  rw [textsAll_cons, textsAll_nil, List.append_nil] at ht
  refine ⟨fun b hb => ?_, ?_, hndl, fun a ha => ?_, (hn.extend _).covers hnodes,
    (ht.extend _).covers htexts, fun p hp => ?_⟩
  · refine (h.holds b (by simp [hb])).frame fun a ha => hkeep a ?_
    exact mem_addrsAll.mpr ⟨b, hb, ha⟩
  · refine h.linked.2.congr fun a ha => ?_
    rw [hkeep a ((map_addr_sublist l).subset ha)]
  · rw [hfresh]
    exact hlt a (by simp [ha])
  · exact (h.fresh p (by simp [hp])).trans_le hl.fresh

/-- The loop of `cfg_free`. -/
theorem Forest.freeRoots (h : Forest m l) {n : Nat} (hn : l.length ≤ n) :
    Felled m (CfgMem.freeRoots n m (l.map HTree.addr).head?) l := by
  induction l generalizing n m with
  | nil =>
    cases n <;> exact ⟨.refl m, .refl _ _, .refl _ _, rfl, rfl, fun _ _ => rfl⟩
  | cons c l ih =>
    obtain ⟨n, rfl⟩ : ∃ k, n = k + 1 := ⟨n - 1, by simp at hn; omega⟩
    obtain ⟨hown, huse⟩ := h.cut_owns
    have hfreed := nodeFree_freed hown
    have hnext : (m.heap.cells c.addr).next = (l.map HTree.addr).head? := by
      rw [h.linked.1, Option.or_none]
    rw [List.map_cons, List.head?_cons, CfgMem.freeRoots, hnext]
    generalize (m.cut c.addr).nodeFree c.addr = m₁ at hfreed
    have hfirst := Felled.single h hfreed
    exact hfirst.cons (ih (h.rest hfirst) (by simpa using hn))

/-- **`cfg_free` frees everything**, and leaves an empty configuration. -/
theorem Stands.cfgFree {cfg : CfgNode} (h : Stands m cfg) :
    Stands m.cfgFree cfgInit ∧ Later m m.cfgFree := by
  obtain ⟨t, hw, -⟩ := h
  have hlen : t.child.length ≤ m.heap.fresh := by
    have hsub := (map_addr_sublist t.child).length_le
    have hle := hw.good.length_le
    rw [addrs_eq, List.length_cons] at hle
    rw [List.length_map] at hsub
    omega
  have hf := hw.forest.freeRoots hlen
  rw [← hw.good.holds.head, hw.root] at hf
  rw [CfgMem.cfgFree]
  generalize CfgMem.freeRoots m.heap.fresh m (m.heap.cells Ptr.root).child = m₁ at hf ⊢
  -- the root is not one of its children
  have hroot : m₁.heap.cells Ptr.root = m.heap.cells Ptr.root := by
    rw [← hw.root]
    exact hf.cells _ fun hm => hw.good.nodup_all.1 ((map_addr_sublist _).subset hm)
  have hdata : (m₁.heap.cells Ptr.root).data = t.data := by
    rw [hroot, ← hw.root, hw.good.holds.data]
  have hO := hw.owns
  have hnodes : m.nodes.Swaps m₁.nodes t.addrs [Ptr.root] := hf.nodes.frame fun x => by
    rw [addrs_eq, hw.root]
    simp only [List.count_cons, List.count_nil]
    omega
  have htexts : m.texts.Swaps m₁.texts (textsOf t) t.data.strings := hf.texts.frame fun x => by
    rw [textsOf_eq]
    simp
  have hcov := htexts.covers hO.texts
  have hname : Freed m₁ (m₁.freeText t.data.name) [] t.data.name.toList :=
    freeText_freed (hcov.mono fun x => by simp [NodePtrs.strings])
  have hval : Freed (m₁.freeText t.data.name) ((m₁.freeText t.data.name).freeText t.data.val) []
      t.data.val.toList := freeText_freed ((hname.texts.extend _).covers hcov)
  have hboth := hname.trans hval
  simp only [hdata]
  generalize (m₁.freeText t.data.name).freeText t.data.val = m₂ at hboth
  have hl := hf.toLater.trans hboth.later
  refine ⟨stands_cfgInit ⟨?_, ?_, ?_, ?_⟩ ?_ ?_ ?_ ?_,
    ⟨hl.fresh, hl.text, hl.oom, hl.calls, hl.overrun⟩⟩
  · exact (congrArg Heap.fault hboth.heap_eq).trans (hf.fault.trans hw.sound.heap)
  · exact hboth.nodes.fault.trans (hf.nodes.fault.trans hw.sound.nodes)
  · exact hboth.texts.fault.trans (hf.texts.fault.trans hw.sound.texts)
  · exact hl.overrun.trans hw.sound.overrun
  · simp [CfgMem.cfgInit]
  · have hlt := hw.good.lt _ t.addr_mem
    rw [hw.root, ← hf.heapFresh, ← hboth.heap_eq] at hlt
    exact Nat.zero_lt_of_lt hlt
  · refine List.perm_iff_count.mpr fun x => ?_
    have h₁ := hnodes.count x
    have h₂ := hboth.nodes.count x
    have h₃ := hw.nodes.count_eq x
    simp only [List.append_nil, List.count_nil] at h₂
    show m₂.nodes.live.count x = _
    omega
  · refine List.perm_iff_count.mpr fun x => ?_
    have h₁ := htexts.count x
    have h₂ := hboth.texts.count x
    have h₃ := hw.texts.count_eq x
    simp only [NodePtrs.strings, List.count_nil] at h₁ h₂
    show m₂.texts.live.count x = _
    rw [List.count_nil]
    omega

end Free

/-! ## Loading a file -/

section Load

variable {m m' : CfgMem} {t : HTree NodePtrs} {cfg : CfgNode}

/-- A block for a value has been allocated and filled. -/
structure Holding (m m' : CfgMem) (v : CStr) : Prop extends Later m m' where
  heap : m'.heap = m.heap
  nodes : m'.nodes = m.nodes
  texts : m'.texts = m.texts.acquire m.fresh
  lt : m.fresh < m'.fresh
  value : m'.text m.fresh = v

theorem Holding.owns {v : CStr} (h : Holding m m' v) (hO : Owns m t) : Owns m' t := by
  refine ⟨h.heap ▸ hO.good, h.nodes ▸ hO.nodes, fun x => ?_, fun p hp => (hO.lt p hp).trans h.lt⟩
  have hle := hO.texts x
  rw [h.texts, Ledger.acquire, List.count_cons]
  omega

/-- The block is freed, after the tree may have changed. -/
theorem Holding.release {m₁ m₂ : CfgMem} {v : CStr} {t' : HTree NodePtrs} (h : Holding m m₁ v)
    (hs : MStep m₁ m₂ t t') (hO : Owns m t) :
    MStep m (m₂.freeText (some m.fresh)) t t' := by
  have hl := h.toLater.trans hs.toLater
  have hnew : m.texts.Swaps m₁.texts (textsOf t) (m.fresh :: textsOf t) := by
    rw [h.texts]
    exact (Ledger.swaps_acquire _ _).frame fun x => by simp [List.count_cons]
  have hkeep : m₁.texts.Swaps m₂.texts (m.fresh :: textsOf t) (m.fresh :: textsOf t') :=
    hs.texts.frame fun x => by simp only [List.count_cons]; omega
  have hcov := (hnew.trans hkeep).covers hO.texts
  have hfree : m₂.texts.Swaps (m₂.texts.release (some m.fresh)) [m.fresh] [] :=
    Ledger.swaps_release (p := some m.fresh) (hcov.mono fun x => by simp [List.count_cons])
  refine ⟨⟨hl.fresh, hl.text, hl.oom, hl.calls, hl.overrun⟩, h.heap ▸ hs.heap, h.nodes ▸ hs.nodes,
    ?_, hs.lt⟩
  exact (hnew.trans hkeep).trans (hfree.extend (textsOf t'))

/-- `xstrdup` fails, or it returns a block with the string. -/
theorem newText_cases (m : CfgMem) (s : CStr) :
    (m.newText s = (none, m.tick) ∧ Starved m m.tick) ∨
    ∃ m', m.newText s = (some m.fresh, m') ∧ Holding m m' s := by
  rcases xstrdup_cases m s with hfail | ⟨m', heq, hl, hheap, hnodes, htexts, hfresh, htext⟩
  · exact .inl hfail
  · exact .inr ⟨m', heq, hl, hheap, hnodes, htexts, by omega, htext⟩

theorem copied_cases (m : CfgMem) (s : CStr) :
    (m.copied s = (.error .ENOMEM, m.tick) ∧ Starved m m.tick) ∨
    ∃ m', m.copied s = (.ok m.fresh, m') ∧ Holding m m' s := by
  rcases newText_cases m s with ⟨heq, hstarved⟩ | ⟨m', heq, hheld⟩
  · exact .inl ⟨by simp only [CfgMem.copied, CfgMem.xstrdup, heq], hstarved⟩
  · exact .inr ⟨m', by simp only [CfgMem.copied, CfgMem.xstrdup, heq], hheld⟩

/-- The buffer of `parse_value` is long enough. -/
theorem written_le (src : CStr) : CfgMem.written src ≤ src.length := by
  induction src using CfgMem.written.induct with
  | case1 => simp [CfgMem.written]
  | case2 src => simp [CfgMem.written.eq_def]
  | case3 => simp [CfgMem.written]
  | case4 _ c src ih =>
    simp [CfgMem.written]
    omega
  | case5 c src hq hb ih =>
    rw [CfgMem.written.eq_def, List.length_cons]
    simp only [hq, hb, if_false]
    omega

theorem writes_eq {len n : Nat} (h : n ≤ len) : m.writes len n = m := by
  rw [CfgMem.writes, decide_eq_false (by omega), Bool.or_false]

/-- `parse_value` fails and leaves nothing behind, or it returns a block with the value. -/
theorem parseValue_cases (m : CfgMem) (src : CStr) :
    (∃ e m', m.parseValue src = (.error e, m') ∧ (∀ t, Owns m t → MStep m m' t t) ∧
      (parseValue src = .error e ∨ e = .ENOMEM ∧ Starved m m')) ∨
    ∃ v m', m.parseValue src = (.ok m.fresh, m') ∧ parseValue src = .ok v ∧ Holding m m' v := by
  unfold CfgMem.parseValue parseValue
  dsimp only
  generalize trim src = src
  have hcopied : ∀ s, (∃ e m', m.copied s = (.error e, m') ∧ (∀ t, Owns m t → MStep m m' t t) ∧
      (Except.ok s = (Except.error e : Except Errno CStr) ∨ e = .ENOMEM ∧ Starved m m')) ∨
      ∃ v m', m.copied s = (.ok m.fresh, m') ∧ (Except.ok s : Except Errno CStr) = .ok v ∧
        Holding m m' v := by
    intro s
    rcases copied_cases m s with ⟨heq, hstarved⟩ | ⟨m', heq, hheld⟩
    · exact .inl ⟨_, _, heq, fun t hO => .tick hO, .inr ⟨rfl, hstarved⟩⟩
    · exact .inr ⟨s, m', heq, rfl, hheld⟩
  by_cases hnil : src = []
  · rw [if_pos hnil, if_pos hnil]
    exact hcopied []
  rw [if_neg hnil, if_neg hnil]
  by_cases hq : src.head? ≠ some '"'
  · rw [if_pos hq, if_pos hq]
    exact hcopied _
  · rw [if_neg hq, if_neg hq]
    rcases newText_cases m (((unquote src.tail).map Prod.fst).toOption.getD []) with
      ⟨heq, hstarved⟩ | ⟨m', heq, hheld⟩
    · simp only [heq]
      exact .inl ⟨_, _, rfl, fun t hO => .tick hO, .inr ⟨rfl, hstarved⟩⟩
    · have hwrites : m'.writes (src.tail.length + 1) (CfgMem.written src.tail + 1) = m' :=
        writes_eq (Nat.succ_le_succ (written_le _))
      have hback : ∀ t, Owns m t → MStep m (m'.freeText (some m.fresh)) t t := fun t hO =>
        hheld.release (.refl (hheld.owns hO)) hO
      simp only [heq, hwrites]
      cases hu : unquote src.tail with
      | error e => exact .inl ⟨e, _, rfl, hback, .inl rfl⟩
      | ok r =>
        obtain ⟨val, rest⟩ := r
        rw [hu] at hheld
        simp only [ok_bind]
        by_cases hrest : trim rest ≠ [] ∧ (trim rest).head? ≠ some '#'
        · rw [if_pos hrest, if_pos hrest]
          exact .inl ⟨_, _, rfl, hback, .inl rfl⟩
        · rw [if_neg hrest, if_neg hrest]
          exact .inr ⟨val, m', rfl, rfl, hheld⟩

/-- How loading ends that ends with `q` on trees. -/
inductive Loaded (m : CfgMem) (r : Rc × CfgMem) (cfg' : CfgNode) (q : Except Errno CfgNode) : Prop
  | done (hrc : r.1 = none) (hq : q = .ok cfg')
  | failed {e : Errno} (hrc : r.1 = some e) (hq : q = .error e)
  | starved (hrc : r.1 = some .ENOMEM) (hm : Starved m r.2)

/-- The value is written into the tree, and its block is freed. -/
theorem Stands.assign (h : Stands m cfg) {v : CStr} (hheld : Holding m m' v) (path : CStr) :
    ∃ cfg', Stands ((m'.cfgSetStr path v).2.freeText (some m.fresh)) cfg' ∧
      Later m ((m'.cfgSetStr path v).2.freeText (some m.fresh)) ∧
      Outcome m' (m'.cfgSetStr path v) cfg cfg' (cfgSetStr cfg path v) := by
  obtain ⟨t, hw, rfl⟩ := h
  have hO := hheld.owns hw.owns
  have htree : m'.tree t = m.tree t := hheld.toLater.tree_eq hw.lt
  have hback : ∀ {m₂ : CfgMem} {t' : HTree NodePtrs}, MStep m' m₂ t t' →
      Stands (m₂.freeText (some m.fresh)) (m₂.tree t') ∧ Later m (m₂.freeText (some m.fresh)) := by
    intro m₂ t' hs
    have hs' := hheld.release hs hw.owns
    exact ⟨⟨t', hw.step hs', rfl⟩, hs'.toLater⟩
  simp only [CfgMem.cfgSetStr, cfgSetStr]
  cases parsePath CFG_PATH_DEPTH_MAX path with
  | error e =>
    obtain ⟨hstands, hl⟩ := hback (.refl hO)
    rw [htree] at hstands
    exact ⟨_, hstands, hl, .done rfl rfl⟩
  | ok toks =>
    obtain ⟨t', hstep, hout⟩ := mrefines_setToks v toks m' t hO
    rw [hw.root] at hstep hout
    rw [htree] at hout
    obtain ⟨hstands, hl⟩ := hback hstep
    exact ⟨_, hstands, hl, hout⟩

/-- **One line.** -/
theorem Stands.loadLine (h : Stands m cfg) (line : CStr) :
    ∃ cfg', Stands (m.loadLine line).2 cfg' ∧ Later m (m.loadLine line).2 ∧
      Loaded m (m.loadLine line) cfg' (loadLine cfg line) := by
  unfold CfgMem.loadLine Netrec.loadLine
  dsimp only
  by_cases hskip : trim line = [] ∨ (trim line).head? = some '#'
  · rw [if_pos hskip, if_pos hskip]
    exact ⟨cfg, h, .refl m, .done rfl rfl⟩
  rw [if_neg hskip, if_neg hskip]
  cases splitAtChar '=' (trim line) with
  | none => exact ⟨cfg, h, .refl m, .failed rfl rfl⟩
  | some kv =>
    obtain ⟨key, eq⟩ := kv
    dsimp only
    by_cases hkey : trim key = []
    · rw [if_pos hkey, if_pos hkey]
      exact ⟨cfg, h, .refl m, .failed rfl rfl⟩
    rw [if_neg hkey, if_neg hkey]
    cases pathFileOk (trim key) with
    | error e => exact ⟨cfg, h, .refl m, .failed rfl rfl⟩
    | ok _ =>
      rw [ok_bind]
      rcases parseValue_cases m (trim eq) with ⟨e, m', heq, hidle, hwhy⟩ | ⟨v, m', heq, hv, hheld⟩
      · -- no value: the tree is as it was
        obtain ⟨t, hw, rfl⟩ := h
        have hstep := hidle t hw.owns
        simp only [heq]
        refine ⟨_, ⟨t, hw.step hstep, rfl⟩, hstep.toLater, ?_⟩
        rcases hwhy with hv | ⟨rfl, hstarved⟩
        · exact .failed rfl (by rw [hv]; rfl)
        · exact .starved rfl hstarved
      · obtain ⟨cfg', hstands, hl, hout⟩ := h.assign hheld (trim key)
        have huse : m'.useTexts [m.fresh] = m' := by
          have hlive : m'.texts.Covers [m.fresh] := by
            rw [hheld.texts]
            exact fun x => by simp [Ledger.acquire, List.count_cons]
          rw [CfgMem.useTexts, hlive.use_eq (List.Subset.refl _)]
        simp only [heq, huse, hheld.value, hv, ok_bind]
        refine ⟨cfg', hstands, hl, ?_⟩
        rcases hout with ⟨hrc, hn⟩ | ⟨hrc, hm, -⟩
        · cases hq : cfgSetStr cfg (trim key) v with
          | mk rc n =>
            rw [hq] at hrc hn
            cases rc with
            | none => exact .done hrc (by rw [hn])
            | some e => exact .failed hrc rfl
        · exact .starved hrc (hm.mono hheld.toLater ⟨le_rfl, fun _ _ => rfl, rfl, le_rfl, rfl⟩)

theorem Stands.loadRound (h : Stands m cfg) (l : CStr × Bool) :
    ∃ cfg', Stands (m.loadRound l).2 cfg' ∧ Later m (m.loadRound l).2 ∧
      Loaded m (m.loadRound l) cfg' (loadRound cfg l) := by
  unfold CfgMem.loadRound Netrec.loadRound
  by_cases hlong : '\n' ∉ l.1 ∧ !l.2
  · rw [if_pos hlong, if_pos hlong]
    exact ⟨cfg, h, .refl m, .failed rfl rfl⟩
  · rw [if_neg hlong, if_neg hlong]
    exact h.loadLine _

/-- **The lines of a file.** When one of them fails, nothing is left. -/
theorem Stands.loadAll (h : Stands m cfg) (ls : List (CStr × Bool)) :
    ∃ cfg', Stands (m.loadAll ls).2 cfg' ∧ Later m (m.loadAll ls).2 ∧
      Loaded m (m.loadAll ls) cfg' (ls.foldlM Netrec.loadRound cfg) ∧
      ((m.loadAll ls).1 ≠ none → cfg' = cfgInit) := by
  induction ls generalizing m cfg with
  | nil => exact ⟨cfg, h, .refl m, .done rfl rfl, fun hne => absurd rfl hne⟩
  | cons l ls ih =>
    obtain ⟨cfg₁, hstands, hl, hloaded⟩ := h.loadRound l
    rw [List.foldlM_cons]
    cases hround : m.loadRound l with
    | mk rc m₁ =>
      rw [hround] at hstands hl hloaded
      cases rc with
      | none =>
        obtain ⟨cfg', hstands', hl', hloaded', hfail⟩ := ih hstands
        simp only [CfgMem.loadAll, hround]
        refine ⟨cfg', hstands', hl.trans hl', ?_, hfail⟩
        rcases hloaded with ⟨-, hq⟩ | ⟨hrc, -⟩ | ⟨hrc, -⟩
        · rw [hq, ok_bind]
          rcases hloaded' with ⟨hrc, hq⟩ | ⟨hrc, hq⟩ | ⟨hrc, hm⟩
          · exact .done hrc hq
          · exact .failed hrc hq
          · exact .starved hrc (hm.mono hl (.refl _))
        · cases hrc
        · cases hrc
      | some e =>
        obtain ⟨hfreed, hl'⟩ := hstands.cfgFree
        simp only [CfgMem.loadAll, hround]
        refine ⟨_, hfreed, hl.trans hl', ?_, fun _ => rfl⟩
        rcases hloaded with ⟨hrc, -⟩ | ⟨hrc, hq⟩ | ⟨hrc, hm⟩
        · cases hrc
        · exact .failed hrc (by rw [hq]; rfl)
        · exact .starved hrc (hm.mono (.refl _) hl')

end Load

/-! ## Whole lives -/

section Life

variable (oom : Nat → Bool) (garbage : HCell NodePtrs)

theorem stands_start : Stands (CfgMem.start oom garbage).cfgInit cfgInit :=
  stands_cfgInit ⟨rfl, rfl, rfl, rfl⟩ rfl Nat.one_pos (.refl _) (.refl _)

/-- A sequence of calls leaves a configuration; without failing allocations, the one it leaves on
trees. -/
theorem run_stands (ops : List CfgOp) :
    ∃ cfg, Stands (CfgMem.run oom garbage ops) cfg ∧
      ((∀ i, oom i = false) → cfg = CfgOp.run ops) := by
  have key : ∀ m cfg, Stands m cfg →
      ∃ cfg', Stands (ops.foldl (fun m op => (m.call op).2) m) cfg' ∧
        ((∀ i, m.oom i = false) → cfg' = ops.foldl CfgOp.apply cfg) := by
    induction ops with
    | nil => exact fun m cfg h => ⟨cfg, h, fun _ => rfl⟩
    | cons op ops ih =>
      intro m cfg h
      obtain ⟨cfg₁, hstands, hl, hout⟩ := h.call op
      obtain ⟨cfg', hstands', hsame⟩ := ih _ _ hstands
      refine ⟨cfg', hstands', fun hoom => ?_⟩
      rw [hsame fun i => by rw [hl.oom, hoom], List.foldl_cons]
      rcases hout with ⟨-, rfl⟩ | ⟨-, ⟨i, -, -, hi⟩, -⟩
      · cases op <;> rfl
      · rw [hoom] at hi
        cases hi
  exact key _ _ (stands_start oom garbage)

/-- **A configuration gives back its memory.** After any sequence of calls, whichever allocations
failed, the blocks in use are those of the tree, and `cfg_free` frees each of them once: nothing is
left but the caller's `struct cfg`, and nothing has gone wrong on the way. -/
theorem cfgFree_run (ops : List CfgOp) :
    ∃ cfg, Stands (CfgMem.run oom garbage ops) cfg ∧
      ((∀ i, oom i = false) → cfg = CfgOp.run ops) ∧
      (CfgMem.run oom garbage ops).cfgFree.Sound ∧
      (CfgMem.run oom garbage ops).cfgFree.nodes.live = [Ptr.root] ∧
      (CfgMem.run oom garbage ops).cfgFree.texts.live = [] := by
  obtain ⟨cfg, hstands, hsame⟩ := run_stands oom garbage ops
  obtain ⟨hfreed, -⟩ := hstands.cfgFree
  obtain ⟨hnodes, htexts⟩ := hfreed.live_eq
  obtain ⟨t, hw, -⟩ := hfreed
  exact ⟨cfg, hstands, hsame, hw.sound, hnodes, htexts⟩

/-- **A call without memory loses nothing.** In every state that calls can reach, a further call
returns what it returns on trees and leaves what it leaves there; or an allocation has failed in it,
it returns `ENOMEM`, and every value that could be read is read as before and every array is as
long as before. -/
theorem call_starved (ops : List CfgOp) (op : CfgOp) :
    ∃ cfg cfg', Stands (CfgMem.run oom garbage ops) cfg ∧
      Stands ((CfgMem.run oom garbage ops).call op).2 cfg' ∧
      ((((CfgMem.run oom garbage ops).call op).1, cfg') = op.call cfg ∨
        ((CfgMem.run oom garbage ops).call op).1 = some .ENOMEM ∧
          Starved (CfgMem.run oom garbage ops) ((CfgMem.run oom garbage ops).call op).2 ∧
          ∀ path, (∀ s, cfgGetStr cfg path = .ok s → cfgGetStr cfg' path = .ok s) ∧
            ∀ len, cfgArrLen cfg path = .ok len → cfgArrLen cfg' path = .ok len) := by
  obtain ⟨cfg, hstands, -⟩ := run_stands oom garbage ops
  obtain ⟨cfg', hstands', -, hout⟩ := hstands.call op
  refine ⟨cfg, cfg', hstands, hstands', ?_⟩
  rcases hout with ⟨hrc, hn⟩ | ⟨hrc, hm, hn⟩
  · exact .inl (Prod.ext hrc hn)
  · exact .inr ⟨hrc, hm, hn.reads⟩

/-- **A load keeps what it has read or nothing.** A load that succeeds leaves the configuration of
the file and no other block in use. One that fails, because the file cannot be opened, because of a
line or because an allocation has failed, has freed everything. -/
theorem cfgLoad_stands (file : Except Errno CStr) :
    (((CfgMem.start oom garbage).cfgLoad file).1 = none →
      ∃ text cfg, file = .ok text ∧ cfgLoad text = .ok cfg ∧
        Stands ((CfgMem.start oom garbage).cfgLoad file).2 cfg) ∧
    ∀ e, ((CfgMem.start oom garbage).cfgLoad file).1 = some e →
      ((CfgMem.start oom garbage).cfgLoad file).2.Sound ∧
      ((CfgMem.start oom garbage).cfgLoad file).2.nodes.live = [Ptr.root] ∧
      ((CfgMem.start oom garbage).cfgLoad file).2.texts.live = [] ∧
      (file = .error e ∨ (∃ text, file = .ok text ∧ cfgLoad text = .error e) ∨
        e = .ENOMEM ∧
          Starved (CfgMem.start oom garbage) ((CfgMem.start oom garbage).cfgLoad file).2) := by
  have hempty : ∀ {m : CfgMem}, Stands m cfgInit →
      m.Sound ∧ m.nodes.live = [Ptr.root] ∧ m.texts.live = [] := by
    intro m h
    obtain ⟨hnodes, htexts⟩ := h.live_eq
    obtain ⟨t, hw, -⟩ := h
    exact ⟨hw.sound, hnodes, htexts⟩
  cases file with
  | error e =>
    obtain ⟨hfreed, -⟩ := (stands_start oom garbage).cfgFree
    obtain ⟨hsound, hnodes, htexts⟩ := hempty hfreed
    refine ⟨fun h => ?_, fun e' h => ?_⟩ <;> cases h
    exact ⟨hsound, hnodes, htexts, .inl rfl⟩
  | ok text =>
    obtain ⟨cfg', hstands, -, hloaded, hfail⟩ :=
      (stands_start oom garbage).loadAll (fgetsAll 4096 text)
    constructor
    · intro h
      rcases hloaded with ⟨-, hq⟩ | ⟨hrc, -⟩ | ⟨hrc, -⟩
      · exact ⟨text, cfg', rfl, hq, hstands⟩
      · cases h.symm.trans hrc
      · cases h.symm.trans hrc
    · intro e h
      rw [hfail fun hnone => by cases h.symm.trans hnone] at hstands
      obtain ⟨hsound, hnodes, htexts⟩ := hempty hstands
      refine ⟨hsound, hnodes, htexts, .inr ?_⟩
      rcases hloaded with ⟨hrc, -⟩ | ⟨hrc, hq⟩ | ⟨hrc, hm⟩
      · cases h.symm.trans hrc
      · cases h.symm.trans hrc
        exact .inl ⟨text, rfl, hq⟩
      · cases h.symm.trans hrc
        exact .inr ⟨rfl, hm⟩

end Life

end Netrec
