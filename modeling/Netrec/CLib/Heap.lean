import Mathlib.Data.List.Nodup
import Mathlib.Data.List.Range
import Mathlib.Tactic

/-!
# Trees of linked nodes on a heap

Trees as C programs keep them: a node points to its first and its last child and to its next
sibling, and counts its children. A heap holds a tree when the pointers and counters of all its
nodes say what the tree says. An operation on a subtree that keeps to its own and to new cells is an
operation on every tree around it, so what an operation does has to be shown only for the node it
works on.

## Main definitions

* `HCell`, `Heap`: nodes and heaps, with an allocator that never reuses an address
* `Heap.chain h a`: the children of a node, as a loop over `next` finds them
* `Heap.childAdd`, `Heap.unlink`: adding a child at the end and taking one out
* `Heap.seek`: the loop that looks for a child and remembers the one before it
* `HTree`, `Holds h t`: trees that know their addresses, and the heaps that hold them
* `Step h h' t t'`: a change of a heap that turns the tree `t` into `t'`

## Main results

* `Good.chain_eq`: loops over the children see the children
* `Step.lift`: a change of a child is a change of its parent
* `childAdd_step`, `unlink_step`: adding and taking out a child keep all pointers and counters right
-/

namespace CLib

variable {D : Type}

/-- A node in memory. -/
structure HCell (D : Type) where
  data : D
  next : Option Nat
  child : Option Nat
  tail : Option Nat
  count : Int

/-- A heap: the cells, the first address that is not in use, and whether a null pointer has been
dereferenced. -/
structure Heap (D : Type) where
  cells : Nat → HCell D
  fresh : Nat
  fault : Bool

namespace Heap

/-- An assignment to fields of one node. -/
def modify (h : Heap D) (a : Nat) (f : HCell D → HCell D) : Heap D :=
  { h with cells := fun b => if b = a then f (h.cells a) else h.cells b }

/-- A new node without children. -/
def alloc (h : Heap D) (d : D) : Nat × Heap D :=
  (h.fresh, { h with
    cells := fun b => if b = h.fresh then ⟨d, none, none, none, 0⟩ else h.cells b
    fresh := h.fresh + 1 })

/-- `for (p = ...; p; p = p->next)`: the nodes it visits, given enough rounds. -/
def follow (h : Heap D) : Nat → Option Nat → List Nat
  | 0, _ => []
  | _ + 1, none => []
  | n + 1, some a => a :: follow h n (h.cells a).next

/-- The loop over the children of a node. No chain is longer than the heap. -/
def chain (h : Heap D) (a : Nat) : List Nat := h.follow h.fresh (h.cells a).child

/-- Adding a node behind the children of another. -/
def childAdd (h : Heap D) (parent node : Nat) : Heap D :=
  let h :=
    match (h.cells parent).child with
    | none => h.modify parent fun c => { c with child := some node }
    | some _ =>
      match (h.cells parent).tail with
      | some last => h.modify last fun c => { c with next := some node }
      | none => { h with fault := true }
  h.modify parent fun c => { c with tail := some node, count := c.count + 1 }

/-- Taking a node out of the children of another; `prev` is the sibling in front of it. -/
def unlink (h : Heap D) (parent : Nat) (prev : Option Nat) (node : Nat) : Heap D :=
  let h :=
    match prev with
    | some p => h.modify p fun c => { c with next := (h.cells node).next }
    | none => h.modify parent fun c => { c with child := (h.cells node).next }
  let h :=
    if (h.cells parent).tail = some node then h.modify parent fun c => { c with tail := prev }
    else h
  let h := h.modify parent fun c => { c with count := c.count - 1 }
  h.modify node fun c => { c with next := none }

/-- `for (prev = NULL, i = 0, node = ...; node; prev = node, node = node->next, i++)`, left when
`stop` holds of `i` and `node`: the nodes `prev` and `node` then. -/
def seek (stop : Nat → Nat → Bool) : Nat → Option Nat → List Nat → Option (Option Nat × Nat)
  | _, _, [] => none
  | i, prev, a :: l => if stop i a then some (prev, a) else seek stop (i + 1) (some a) l

theorem seek_eq_none {stop : Nat → Nat → Bool} {i : Nat} {prev : Option Nat} {l : List Nat}
    (hl : ∀ j a, l[j]? = some a → stop (i + j) a = false) : seek stop i prev l = none := by
  induction l generalizing i prev with
  | nil => rfl
  | cons a l ih =>
    have ha : stop i a = false := hl 0 a rfl
    rw [seek, if_neg (by simp [ha])]
    refine ih fun j b hb => ?_
    rw [Nat.add_right_comm]
    exact hl (j + 1) b (by simpa using hb)

theorem seek_append {stop : Nat → Nat → Bool} {i : Nat} {prev : Option Nat} {l₁ : List Nat}
    (hl : ∀ j a, l₁[j]? = some a → stop (i + j) a = false) {a : Nat}
    (ha : stop (i + l₁.length) a) (l₂ : List Nat) :
    seek stop i prev (l₁ ++ a :: l₂) = some (l₁.getLast?.or prev, a) := by
  induction l₁ generalizing i prev with
  | nil =>
    have ha' : stop i a = true := by simpa using ha
    simp [seek, ha']
  | cons b l₁ ih =>
    have hb : stop i b = false := hl 0 b rfl
    rw [List.cons_append, seek, if_neg (by simp [hb])]
    rw [ih (fun j c hc => ?_) (by simpa [Nat.add_right_comm, Nat.add_assoc] using ha)]
    · rw [List.getLast?_cons]
      cases l₁.getLast? <;> simp
    · rw [Nat.add_right_comm]
      exact hl (j + 1) c (by simpa using hc)

section Modify

variable (h : Heap D) (a : Nat) (f : HCell D → HCell D)

@[simp] theorem modify_self : (h.modify a f).cells a = f (h.cells a) := if_pos rfl

theorem modify_of_ne {b : Nat} (hb : b ≠ a) : (h.modify a f).cells b = h.cells b := if_neg hb

@[simp] theorem modify_fresh : (h.modify a f).fresh = h.fresh := rfl

@[simp] theorem modify_fault : (h.modify a f).fault = h.fault := rfl

end Modify

section Unlink

variable (h : Heap D) {parent node : Nat} {prev : Option Nat}

theorem unlink_parent (hn : node ≠ parent) (hp : parent ∉ prev) :
    (h.unlink parent prev node).cells parent = { h.cells parent with
      child := if prev = none then (h.cells node).next else (h.cells parent).child
      tail := if (h.cells parent).tail = some node then prev else (h.cells parent).tail
      count := (h.cells parent).count - 1 } := by
  cases prev with
  | none =>
    by_cases ht : (h.cells parent).tail = some node <;>
      simp [unlink, modify, hn.symm, ht]
  | some p =>
    have hp' : parent ≠ p := fun he => hp (by rw [he]; rfl)
    by_cases ht : (h.cells parent).tail = some node <;>
      simp [unlink, modify, hn.symm, hp', ht]

theorem unlink_prev {p : Nat} (hp : p ∈ prev) (hpn : p ≠ node) (hpp : p ≠ parent) :
    (h.unlink parent prev node).cells p = { h.cells p with next := (h.cells node).next } := by
  obtain rfl : prev = some p := hp
  simp only [unlink]
  split_ifs <;> simp [modify, hpn, hpp]

theorem unlink_node (hn : node ≠ parent) (hp : node ∉ prev) :
    (h.unlink parent prev node).cells node = { h.cells node with next := none } := by
  cases prev with
  | none =>
    simp only [unlink]
    split_ifs <;> simp [modify, hn]
  | some p =>
    have hp' : node ≠ p := fun he => hp (by rw [he]; rfl)
    simp only [unlink]
    split_ifs <;> simp [modify, hn, hp']

theorem unlink_of_ne {a : Nat} (ha : a ≠ parent) (hn : a ≠ node) (hp : a ∉ prev) :
    (h.unlink parent prev node).cells a = h.cells a := by
  cases prev with
  | none =>
    simp only [unlink]
    split_ifs <;> simp [modify, ha, hn]
  | some p =>
    have hp' : a ≠ p := fun he => hp (by rw [he]; rfl)
    simp only [unlink]
    split_ifs <;> simp [modify, ha, hn, hp']

theorem unlink_fresh (parent node : Nat) (prev : Option Nat) :
    (h.unlink parent prev node).fresh = h.fresh ∧ (h.unlink parent prev node).fault = h.fault := by
  cases prev <;> simp only [unlink] <;> split_ifs <;> exact ⟨rfl, rfl⟩

end Unlink

/-! ## Chains -/

/-- The nodes are linked one after the other, and the last one points to `e`. -/
def Linked (h : Heap D) (e : Option Nat) : List Nat → Prop
  | [] => True
  | a :: l => (h.cells a).next = l.head?.or e ∧ Linked h e l

variable {h h' : Heap D} {e : Option Nat} {l l₁ l₂ : List Nat} {a b : Nat}

theorem Linked.follow_eq (hl : h.Linked none l) {n : Nat} (hn : l.length ≤ n) :
    h.follow n l.head? = l := by
  induction l generalizing n with
  | nil => cases n <;> rfl
  | cons a l ih =>
    obtain ⟨n, rfl⟩ : ∃ m, n = m + 1 := ⟨n - 1, by simp at hn; omega⟩
    rw [List.head?_cons, follow, hl.1, Option.or_none, ih hl.2 (by simpa using hn)]

theorem Linked.congr (hl : h.Linked e l) (heq : ∀ a ∈ l, (h'.cells a).next = (h.cells a).next) :
    h'.Linked e l := by
  induction l with
  | nil => trivial
  | cons a l ih =>
    obtain ⟨hnext, hl⟩ := hl
    exact ⟨(heq a List.mem_cons_self).trans hnext,
      ih hl fun b hb => heq b (List.mem_cons_of_mem a hb)⟩

theorem linked_append : h.Linked e (l₁ ++ l₂) ↔ h.Linked (l₂.head?.or e) l₁ ∧ h.Linked e l₂ := by
  induction l₁ with
  | nil => simp [Linked]
  | cons a l₁ ih =>
    rw [List.cons_append, Linked, Linked, ih, List.head?_append, Option.or_assoc, and_assoc]

theorem linked_concat : h.Linked e (l ++ [a]) ↔ h.Linked (some a) l ∧ (h.cells a).next = e := by
  rw [linked_append]
  simp [Linked]

end Heap

/-! ## Trees on a heap -/

/-- A tree whose nodes know their addresses. -/
structure HTree (D : Type) where
  addr : Nat
  data : D
  child : List (HTree D)

namespace HTree

mutual

/-- The addresses of a tree. -/
def addrs : HTree D → List Nat
  | ⟨a, _, cs⟩ => a :: addrsAll cs

/-- The addresses of a list of trees. -/
def addrsAll : List (HTree D) → List Nat
  | [] => []
  | c :: cs => addrs c ++ addrsAll cs

end

theorem addrs_eq (t : HTree D) : t.addrs = t.addr :: addrsAll t.child := by
  obtain ⟨a, d, cs⟩ := t
  rw [addrs]

theorem addrsAll_append (cs cs' : List (HTree D)) :
    addrsAll (cs ++ cs') = addrsAll cs ++ addrsAll cs' := by
  induction cs with
  | nil => simp [addrsAll]
  | cons c cs ih => simp [addrsAll, ih]

theorem addrsAll_split (cs cs' : List (HTree D)) (c : HTree D) :
    addrsAll (cs ++ c :: cs') = addrsAll cs ++ (c.addrs ++ addrsAll cs') := by
  rw [addrsAll_append, addrsAll]

theorem addr_mem (t : HTree D) : t.addr ∈ t.addrs := by
  rw [addrs_eq]
  exact List.mem_cons_self

theorem mem_addrsAll {cs : List (HTree D)} {a : Nat} :
    a ∈ addrsAll cs ↔ ∃ c ∈ cs, a ∈ c.addrs := by
  induction cs with
  | nil => simp [addrsAll]
  | cons c cs ih => simp [addrsAll, ih]

/-- The roots of a list of trees are among their addresses. -/
theorem map_addr_sublist (cs : List (HTree D)) : (cs.map addr).Sublist (addrsAll cs) := by
  induction cs with
  | nil => simp [addrsAll]
  | cons c cs ih =>
    rw [List.map_cons, addrsAll, addrs_eq, List.cons_append]
    exact (ih.trans (List.sublist_append_right _ _)).cons_cons _

end HTree

open HTree

/-- The heap holds the tree: every pointer and every counter of its nodes is right. -/
inductive Holds (h : Heap D) : HTree D → Prop
  | mk {a : Nat} {d : D} {cs : List (HTree D)} (hdata : (h.cells a).data = d)
    (hchild : (h.cells a).child = (cs.map addr).head?)
    (htail : (h.cells a).tail = (cs.map addr).getLast?)
    (hcount : (h.cells a).count = cs.length) (hlink : h.Linked none (cs.map addr))
    (hcs : ∀ c ∈ cs, Holds h c) : Holds h ⟨a, d, cs⟩

/-- The heap holds the tree in cells of its own that are in use. -/
structure Good (h : Heap D) (t : HTree D) : Prop where
  holds : Holds h t
  nodup : t.addrs.Nodup
  lt : ∀ a ∈ t.addrs, a < h.fresh

/-- A change of the heap that turns one tree into another. It keeps to the cells of the tree and to
new ones, and leaves alone how the tree is linked to its surroundings. -/
structure Step (h h' : Heap D) (t t' : HTree D) : Prop where
  addr : t'.addr = t.addr
  good : Good h' t'
  fresh : h.fresh ≤ h'.fresh
  fault : h'.fault = h.fault
  frame : ∀ a < h.fresh, a ∉ t.addrs → h'.cells a = h.cells a
  next : (h'.cells t.addr).next = (h.cells t.addr).next
  addrs : ∀ a ∈ t'.addrs, a ∈ t.addrs ∨ h.fresh ≤ a

section Tree

variable {h h' h'' : Heap D} {t t' t'' c c' : HTree D} {l₁ l₂ : List (HTree D)}

theorem Holds.data (hh : Holds h t) : (h.cells t.addr).data = t.data := by
  cases hh
  assumption

theorem Holds.head (hh : Holds h t) : (h.cells t.addr).child = (t.child.map addr).head? := by
  cases hh
  assumption

theorem Holds.last (hh : Holds h t) : (h.cells t.addr).tail = (t.child.map addr).getLast? := by
  cases hh
  assumption

theorem Holds.count (hh : Holds h t) : (h.cells t.addr).count = t.child.length := by
  cases hh
  assumption

theorem Holds.linked (hh : Holds h t) : h.Linked none (t.child.map addr) := by
  cases hh
  assumption

theorem Holds.child (hh : Holds h t) (hc : c ∈ t.child) : Holds h c := by
  cases hh with
  | mk _ _ _ _ _ hcs => exact hcs c hc

theorem Holds.of_fields (hdata : (h.cells t.addr).data = t.data)
    (hchild : (h.cells t.addr).child = (t.child.map HTree.addr).head?)
    (htail : (h.cells t.addr).tail = (t.child.map HTree.addr).getLast?)
    (hcount : (h.cells t.addr).count = t.child.length)
    (hlink : h.Linked none (t.child.map HTree.addr)) (hcs : ∀ c ∈ t.child, Holds h c) :
    Holds h t := by
  obtain ⟨a, d, cs⟩ := t
  exact .mk hdata hchild htail hcount hlink hcs

/-- A tree is still held when its cells are the same, up to the link of its root to the next. -/
theorem Holds.congr (hh : Holds h t)
    (hroot : { h'.cells t.addr with next := none } = { h.cells t.addr with next := none })
    (hrest : ∀ a ∈ addrsAll t.child, h'.cells a = h.cells a) : Holds h' t := by
  induction hh with
  | @mk a d cs hdata hchild htail hcount hlink hcs ih =>
    have hmem : ∀ c ∈ cs, ∀ a ∈ c.addrs, h'.cells a = h.cells a :=
      fun c hc a ha => hrest a (mem_addrsAll.mpr ⟨c, hc, ha⟩)
    refine .mk ((congrArg HCell.data hroot).trans hdata) ((congrArg HCell.child hroot).trans hchild)
      ((congrArg HCell.tail hroot).trans htail) ((congrArg HCell.count hroot).trans hcount)
      (hlink.congr fun b hb => ?_) fun c hc => ih c hc ?_ fun b hb => ?_
    · rw [hrest b ((map_addr_sublist cs).subset hb)]
    · rw [hmem c hc c.addr c.addr_mem]
    · exact hmem c hc b (by rw [addrs_eq]; exact List.mem_cons_of_mem _ hb)

/-- A tree is still held when its cells are the same. -/
theorem Holds.frame (hh : Holds h t) (heq : ∀ a ∈ t.addrs, h'.cells a = h.cells a) :
    Holds h' t := by
  refine hh.congr (by rw [heq _ t.addr_mem]) fun a ha => heq a ?_
  rw [addrs_eq]
  exact List.mem_cons_of_mem _ ha

theorem Good.nodup_all (hg : Good h t) : t.addr ∉ addrsAll t.child ∧ (addrsAll t.child).Nodup := by
  have := hg.nodup
  rwa [addrs_eq, List.nodup_cons] at this

theorem Good.child (hg : Good h t) (hc : c ∈ t.child) : Good h c := by
  obtain ⟨cs, cs', hs⟩ := List.append_of_mem hc
  have hsub : c.addrs.Sublist t.addrs := by
    rw [addrs_eq t, hs, addrsAll_split]
    exact ((List.sublist_append_left _ _).trans (List.sublist_append_right _ _)).cons _
  exact ⟨hg.holds.child hc, hg.nodup.sublist hsub, fun a ha => hg.lt a (hsub.subset ha)⟩

/-- **Loops over the children see the children.** -/
theorem Good.chain_eq (hg : Good h t) : h.chain t.addr = t.child.map addr := by
  have hsub := map_addr_sublist t.child
  have hlen : (t.child.map addr).length ≤ h.fresh := by
    have hrange : t.child.map addr ⊆ List.range h.fresh := fun a ha => by
      rw [List.mem_range]
      refine hg.lt a ?_
      rw [addrs_eq]
      exact List.mem_cons_of_mem _ (hsub.subset ha)
    simpa using ((hg.nodup_all.2.sublist hsub).subperm hrange).length_le
  rw [Heap.chain, hg.holds.head, hg.holds.linked.follow_eq hlen]

/-! ## Changes of a tree -/

theorem Step.refl (hg : Good h t) : Step h h t t :=
  ⟨rfl, hg, le_rfl, rfl, fun _ _ _ => rfl, rfl, fun _ ha => .inl ha⟩

theorem Step.trans (hs : Step h h' t t') (hs' : Step h' h'' t' t'') : Step h h'' t t'' where
  addr := hs'.addr.trans hs.addr
  good := hs'.good
  fresh := hs.fresh.trans hs'.fresh
  fault := hs'.fault.trans hs.fault
  frame a ha hat := by
    have hat' : a ∉ t'.addrs := fun hm => by
      rcases hs.addrs a hm with hm | hm
      · exact hat hm
      · omega
    rw [hs'.frame a (by have := hs.fresh; omega) hat', hs.frame a ha hat]
  next := by rw [← hs.addr, hs'.next, hs.addr, hs.next]
  addrs a ha := by
    rcases hs'.addrs a ha with hm | hm
    · exact hs.addrs a hm
    · exact .inr (hs.fresh.trans hm)

/-- The addresses around a child are not those of the child. -/
theorem Good.disjoint (hg : Good h t) (hs : t.child = l₁ ++ c :: l₂) {a : Nat}
    (ha : a = t.addr ∨ a ∈ addrsAll l₁ ∨ a ∈ addrsAll l₂) : a ∉ c.addrs ∧ a < h.fresh := by
  have hnd := hg.nodup
  have hlt := hg.lt a
  rw [addrs_eq, hs, addrsAll_split] at hnd hlt
  obtain ⟨hroot, hnd⟩ := List.nodup_cons.mp hnd
  obtain ⟨-, hnd, hdis⟩ := List.nodup_append.mp hnd
  obtain ⟨-, -, hdis'⟩ := List.nodup_append.mp hnd
  simp only [List.mem_append, List.mem_cons] at hroot hlt hdis
  rcases ha with rfl | ha | ha
  · exact ⟨fun hm => hroot (.inr (.inl hm)), hlt (.inl rfl)⟩
  · exact ⟨fun hm => hdis a ha a (.inl hm) rfl, hlt (.inr (.inl ha))⟩
  · exact ⟨fun hm => hdis' a hm a ha rfl, hlt (.inr (.inr (.inr ha)))⟩

/-- **A change of a child is a change of its parent.** -/
theorem Step.lift (hg : Good h t) (hs : t.child = l₁ ++ c :: l₂) (hc : Step h h' c c') :
    Step h h' t { t with child := l₁ ++ c' :: l₂ } := by
  -- what is not the child stays as it is
  have hkeep : ∀ a, (a = t.addr ∨ a ∈ addrsAll l₁ ∨ a ∈ addrsAll l₂) → h'.cells a = h.cells a :=
    fun a ha => hc.frame a (hg.disjoint hs ha).2 (hg.disjoint hs ha).1
  have haddr : (l₁ ++ c' :: l₂).map HTree.addr = t.child.map HTree.addr := by
    rw [hs]
    simp [hc.addr]
  have hmem : ∀ a, a ∈ ({ t with child := l₁ ++ c' :: l₂ } : HTree D).addrs ↔
      (a = t.addr ∨ a ∈ addrsAll l₁ ∨ a ∈ addrsAll l₂) ∨ a ∈ c'.addrs := by
    intro a
    rw [addrs_eq, addrsAll_split]
    simp only [List.mem_cons, List.mem_append]
    tauto
  have hnew : ∀ a, (a = t.addr ∨ a ∈ addrsAll l₁ ∨ a ∈ addrsAll l₂) → a ∉ c'.addrs := by
    intro a ha hm
    obtain ⟨hnot, hlt⟩ := hg.disjoint hs ha
    rcases hc.addrs a hm with hm | hm
    · exact hnot hm
    · omega
  refine ⟨rfl, ⟨?_, ?_, ?_⟩, hc.fresh, hc.fault, ?_, by rw [hkeep _ (.inl rfl)], ?_⟩
  · have hroot := hkeep t.addr (.inl rfl)
    have hlen : (l₁ ++ c' :: l₂).length = t.child.length := by simp [hs]
    refine .of_fields (by rw [hroot, hg.holds.data]) (by rw [hroot, haddr, hg.holds.head])
      (by rw [hroot, haddr, hg.holds.last]) (by rw [hroot, hlen, hg.holds.count]) ?_ ?_
    · show h'.Linked none ((l₁ ++ c' :: l₂).map HTree.addr)
      rw [haddr]
      refine hg.holds.linked.congr fun a ha => ?_
      obtain ⟨b, hb, rfl⟩ := List.mem_map.mp ha
      rw [hs, List.mem_append, List.mem_cons] at hb
      rcases hb with hb | rfl | hb
      · rw [hkeep _ (.inr (.inl (mem_addrsAll.mpr ⟨b, hb, b.addr_mem⟩)))]
      · exact hc.next
      · rw [hkeep _ (.inr (.inr (mem_addrsAll.mpr ⟨b, hb, b.addr_mem⟩)))]
    · intro b hb
      have hb' : b ∈ l₁ ++ c' :: l₂ := hb
      rw [List.mem_append, List.mem_cons] at hb'
      rcases hb' with hb | rfl | hb
      · exact (hg.holds.child (by simp [hs, hb])).frame fun a ha =>
          hkeep a (.inr (.inl (mem_addrsAll.mpr ⟨b, hb, ha⟩)))
      · exact hc.good.holds
      · exact (hg.holds.child (by simp [hs, hb])).frame fun a ha =>
          hkeep a (.inr (.inr (mem_addrsAll.mpr ⟨b, hb, ha⟩)))
  · -- the new addresses of the child are nobody else's
    have hnd := hg.nodup
    rw [addrs_eq, hs, addrsAll_split] at hnd
    rw [addrs_eq, addrsAll_split]
    simp only [List.nodup_cons, List.nodup_append, List.mem_append] at hnd ⊢
    obtain ⟨hroot, hnd₁, ⟨-, hnd₂, -⟩, hdis⟩ := hnd
    refine ⟨?_, hnd₁, ⟨hc.good.nodup, hnd₂, ?_⟩, ?_⟩
    · rintro (hm | hm | hm)
      · exact hroot (.inl hm)
      · exact hnew _ (.inl rfl) hm
      · exact hroot (.inr (.inr hm))
    · rintro a ha b hb rfl
      exact hnew a (.inr (.inr hb)) ha
    · rintro a ha b (hb | hb) rfl
      · exact hnew a (.inr (.inl ha)) hb
      · exact hdis a ha a (.inr hb) rfl
  · intro a ha
    rcases (hmem a).mp ha with ha | ha
    · exact (hg.disjoint hs ha).2.trans_le hc.fresh
    · exact hc.good.lt a ha
  · intro a ha hat
    refine hc.frame a ha fun hm => hat ?_
    rw [addrs_eq, hs, addrsAll_split]
    simp [hm]
  · intro a ha
    have hold : ∀ b, (b = t.addr ∨ b ∈ addrsAll l₁ ∨ b ∈ addrsAll l₂) ∨ b ∈ c.addrs → b ∈ t.addrs := by
      intro b hb
      rw [addrs_eq, hs, addrsAll_split]
      simp only [List.mem_cons, List.mem_append]
      tauto
    rcases (hmem a).mp ha with ha | ha
    · exact .inl (hold a (.inl ha))
    · rcases hc.addrs a ha with ha | ha
      · exact .inl (hold a (.inr ha))
      · exact .inr ha

/-- Changing the data of a node. -/
theorem modify_data_step (hg : Good h t) (d : D) :
    Step h (h.modify t.addr fun c => { c with data := d }) t { t with data := d } := by
  have hkeep : ∀ a, a ≠ t.addr → (h.modify t.addr fun c => { c with data := d }).cells a =
      h.cells a := fun a ha => h.modify_of_ne _ _ ha
  have hroot := hg.nodup_all.1
  have haddrs : ({ t with data := d } : HTree D).addrs = t.addrs := by rw [addrs_eq, addrs_eq]
  have hne : ∀ a ∈ addrsAll t.child, a ≠ t.addr := fun a ha he => hroot (he ▸ ha)
  refine ⟨rfl, ⟨?_, haddrs ▸ hg.nodup, fun a ha => hg.lt a (haddrs ▸ ha)⟩, le_rfl, rfl, ?_, ?_,
    fun a ha => .inl (haddrs ▸ ha)⟩
  · refine .of_fields ?_ ?_ ?_ ?_ ?_ ?_
    · simp
    · simpa using hg.holds.head
    · simpa using hg.holds.last
    · simpa using hg.holds.count
    · exact hg.holds.linked.congr fun a ha => by
        rw [hkeep a (hne a ((map_addr_sublist _).subset ha))]
    · exact fun c hc => (hg.holds.child hc).frame fun a ha =>
        hkeep a (hne a (mem_addrsAll.mpr ⟨c, hc, ha⟩))
  · exact fun a _ hat => hkeep a fun he => hat (he ▸ t.addr_mem)
  · simp

/-- The root of a child is not inside another child. -/
theorem notMem_roots {cs : List (HTree D)} (hnd : (addrsAll cs).Nodup) (hc : c ∈ cs) {a : Nat}
    (ha : a ∈ addrsAll c.child) : a ∉ cs.map HTree.addr := by
  induction cs with
  | nil => simp at hc
  | cons b cs ih =>
    rw [addrsAll, List.nodup_append] at hnd
    obtain ⟨hndb, hnd, hdis⟩ := hnd
    rw [List.map_cons, List.mem_cons, not_or]
    have hac : a ∈ c.addrs := by
      rw [addrs_eq]
      exact List.mem_cons_of_mem _ ha
    rcases List.mem_cons.mp hc with rfl | hc
    · rw [addrs_eq, List.nodup_cons] at hndb
      exact ⟨fun he => hndb.1 (he ▸ ha), fun hm =>
        hdis a hac a ((map_addr_sublist cs).subset hm) rfl⟩
    · exact ⟨fun he => hdis b.addr b.addr_mem a (mem_addrsAll.mpr ⟨c, hc, hac⟩) he.symm,
        ih hnd hc⟩

/-- A node whose children are linked anew: apart from the node itself only links between its
children have changed. -/
theorem Good.relink (hg : Good h t) {cs : List (HTree D)}
    (hdata : (h'.cells t.addr).data = (h.cells t.addr).data)
    (hhead : (h'.cells t.addr).child = (cs.map HTree.addr).head?)
    (hlast : (h'.cells t.addr).tail = (cs.map HTree.addr).getLast?)
    (hcount : (h'.cells t.addr).count = cs.length)
    (hlink : h'.Linked none (cs.map HTree.addr))
    (hroots : ∀ a ∈ t.child.map HTree.addr,
      { h'.cells a with next := none } = { h.cells a with next := none })
    (hinner : ∀ a ∈ addrsAll t.child, a ∉ t.child.map HTree.addr → h'.cells a = h.cells a)
    (hcs : ∀ c ∈ cs, c ∈ t.child ∨ Holds h' c) : Holds h' { t with child := cs } := by
  refine .of_fields (hdata.trans hg.holds.data) hhead hlast hcount hlink fun c hc => ?_
  rcases hcs c hc with hold | hnew
  · refine (hg.holds.child hold).congr (hroots _ (List.mem_map_of_mem hold)) fun a ha => ?_
    refine hinner a (mem_addrsAll.mpr ⟨c, hold, ?_⟩) (notMem_roots hg.nodup_all.2 hold ha)
    rw [addrs_eq]
    exact List.mem_cons_of_mem _ ha
  · exact hnew

theorem Good.mem_of_root (hg : Good h t) {a : Nat} (ha : a ∈ t.child.map HTree.addr) :
    a ∈ addrsAll t.child ∧ a ∈ t.addrs ∧ a ≠ t.addr := by
  have hall := (map_addr_sublist t.child).subset ha
  refine ⟨hall, ?_, fun he => hg.nodup_all.1 (he ▸ hall)⟩
  rw [addrs_eq]
  exact List.mem_cons_of_mem _ hall

/-- The cells after a child has been added: those of the node and of its last child have changed. -/
theorem childAdd_cells (hg : Good h t) (node : Nat) :
    ((h.childAdd t.addr node).cells t.addr = { h.cells t.addr with
      child := (h.cells t.addr).child.or (some node), tail := some node
      count := (h.cells t.addr).count + 1 }) ∧
    (∀ a ∈ (t.child.map HTree.addr).getLast?,
      (h.childAdd t.addr node).cells a = { h.cells a with next := some node }) ∧
    (∀ a, a ≠ t.addr → a ∉ (t.child.map HTree.addr).getLast? →
      (h.childAdd t.addr node).cells a = h.cells a) ∧
    (h.childAdd t.addr node).fresh = h.fresh ∧ (h.childAdd t.addr node).fault = h.fault := by
  have hroots := fun a => @Good.mem_of_root _ _ _ hg a
  have hhead := hg.holds.head
  have hlast := hg.holds.last
  rcases List.eq_nil_or_concat (t.child.map HTree.addr) with hnil | ⟨l, b, hcat⟩
  · rw [hnil] at hhead
    simp only [Heap.childAdd, hhead, hnil, List.head?_nil]
    refine ⟨by simp, by simp, fun a ha _ => ?_, rfl, rfl⟩
    rw [Heap.modify_of_ne _ _ _ ha, Heap.modify_of_ne _ _ _ ha]
  · rw [List.concat_eq_append] at hcat
    have hb : b ≠ t.addr := (hroots b (by simp [hcat])).2.2
    obtain ⟨x, hx⟩ : ∃ x, (h.cells t.addr).child = some x := by
      rw [hhead, hcat]
      exact Option.isSome_iff_exists.mp (by simp)
    have htail : (h.cells t.addr).tail = some b := by rw [hlast, hcat]; simp
    simp only [Heap.childAdd, hx, htail, hcat, List.getLast?_concat]
    refine ⟨?_, ?_, fun a ha hna => ?_, rfl, rfl⟩
    · rw [Heap.modify_self, Heap.modify_of_ne _ _ _ (Ne.symm hb)]
      simp [hx]
    · rintro a ⟨⟩
      rw [Heap.modify_of_ne _ _ _ hb, Heap.modify_self]
    · have hab : a ≠ b := fun he => hna (by rw [he]; rfl)
      rw [Heap.modify_of_ne _ _ _ ha, Heap.modify_of_ne _ _ _ hab]

/-- The heap after an allocation still holds the tree. -/
theorem Good.alloc (hg : Good h t) {h₁ : Heap D}
    (hcells : ∀ a, a ≠ h.fresh → h₁.cells a = h.cells a) (hfresh : h₁.fresh = h.fresh + 1) :
    Good h₁ t := by
  refine ⟨hg.holds.frame fun a ha => hcells a (hg.lt a ha).ne, hg.nodup, fun a ha => ?_⟩
  have := hg.lt a ha
  omega

/-- **Adding a child.** The new node is the first one that was not in use. -/
theorem childAdd_step (hg : Good h t) {h₁ : Heap D} {d : D}
    (hcells : ∀ a, a ≠ h.fresh → h₁.cells a = h.cells a)
    (hnode : h₁.cells h.fresh = ⟨d, none, none, none, 0⟩) (hfresh : h₁.fresh = h.fresh + 1)
    (hfault : h₁.fault = h.fault) :
    Step h (h₁.childAdd t.addr h.fresh) t { t with child := t.child ++ [⟨h.fresh, d, []⟩] } := by
  have hg₁ := hg.alloc hcells hfresh
  obtain ⟨hself, hlast, hkeep, hfresh', hfault'⟩ := childAdd_cells hg₁ h.fresh
  have hroot : h₁.cells t.addr = h.cells t.addr := hcells _ (hg.lt _ t.addr_mem).ne
  generalize h₁.childAdd t.addr h.fresh = h₂ at hself hlast hkeep hfresh' hfault' ⊢
  have hroots := fun a => @Good.mem_of_root _ _ _ hg a
  have hnew : h₂.cells h.fresh = ⟨d, none, none, none, 0⟩ := by
    rw [hkeep _ (hg.lt _ t.addr_mem).ne' fun hm => ?_, hnode]
    exact absurd rfl (hg.lt _ (hroots _ (List.mem_of_mem_getLast? hm)).2.1).ne
  have haddrs : ({ t with child := t.child ++ [⟨h.fresh, d, []⟩] } : HTree D).addrs =
      t.addrs ++ [h.fresh] := by
    simp [addrs_eq, addrsAll_append, addrsAll]
  refine ⟨rfl, ⟨hg₁.relink ?_ ?_ ?_ ?_ ?_ ?_ ?_ ?_, ?_, ?_⟩, by omega, by rw [hfault', hfault], ?_, ?_, ?_⟩
  · rw [hself]
  · rw [hself, hg₁.holds.head]
    simp [List.head?_append]
  · rw [hself]
    simp
  · rw [hself, hg₁.holds.count]
    simp
  · -- the old children, the last of which now points to the new one
    rw [List.map_append]
    refine Heap.linked_concat.mpr ⟨?_, by rw [hnew]⟩
    have hlink := hg₁.holds.linked
    have hnd := hg.nodup_all.2.sublist (map_addr_sublist t.child)
    rcases List.eq_nil_or_concat (t.child.map HTree.addr) with hnil | ⟨l, b, hcat⟩
    · rw [hnil]
      trivial
    · rw [List.concat_eq_append] at hcat
      have hb : ∀ a ∈ l, a ≠ b := by
        rw [hcat, List.nodup_append] at hnd
        exact fun a ha he => hnd.2.2 a ha b (by simp) he
      rw [hcat] at hlink hlast hkeep ⊢
      refine Heap.linked_concat.mpr ⟨(Heap.linked_concat.mp hlink).1.congr fun a ha => ?_, ?_⟩
      · rw [hkeep a (hroots a (by simp [hcat, ha])).2.2 (by simpa using (hb a ha).symm)]
      · rw [hlast b (by simp)]
  · intro a ha
    by_cases hl : a ∈ (t.child.map HTree.addr).getLast?
    · rw [hlast a hl]
    · rw [hkeep a (hroots a ha).2.2 hl]
  · intro a ha hnot
    exact hkeep a (fun he => hg.nodup_all.1 (he ▸ ha))
      fun hm => hnot (List.mem_of_mem_getLast? hm)
  · intro c hc
    rcases List.mem_append.mp hc with hc | hc
    · exact .inl hc
    · rw [List.mem_singleton.mp hc]
      refine .inr (.mk ?_ ?_ ?_ ?_ trivial (by simp)) <;> rw [hnew] <;> rfl
  · rw [haddrs, List.nodup_append]
    exact ⟨hg.nodup, List.nodup_singleton _, fun a ha b hb he =>
      (hg.lt a ha).ne (he.trans (List.mem_singleton.mp hb))⟩
  · intro a ha
    rw [haddrs, List.mem_append, List.mem_singleton] at ha
    rcases ha with ha | rfl
    · have := hg.lt a ha
      omega
    · omega
  · intro a ha hat
    have hne : a ≠ t.addr := fun he => hat (he ▸ t.addr_mem)
    rw [hkeep a hne fun hm => hat (hroots a (List.mem_of_mem_getLast? hm)).2.1,
      hcells a (by omega)]
  · rw [hself, hroot]
  · intro a ha
    rw [haddrs, List.mem_append, List.mem_singleton] at ha
    exact ha.imp id fun he => he.ge

/-- The pointers of a node after a child has been taken out. -/
theorem unlink_pointers (hg : Good h t) {l l' : List Nat} {x : Nat}
    (hs : t.child.map HTree.addr = l ++ x :: l') :
    (if l.getLast? = none then (h.cells x).next else (h.cells t.addr).child) = (l ++ l').head? ∧
    (if (h.cells t.addr).tail = some x then l.getLast? else (h.cells t.addr).tail) =
      (l ++ l').getLast? := by
  have hnext : (h.cells x).next = l'.head? := by
    have hlink := hg.holds.linked
    rw [hs, Heap.linked_append] at hlink
    simpa using hlink.2.1
  constructor
  · rw [hg.holds.head, hs, hnext]
    cases l with
    | nil => simp
    | cons a l => simp
  · rw [hg.holds.last, hs]
    rcases List.eq_nil_or_concat l' with rfl | ⟨m, y, rfl⟩
    · simp
    · -- the last child is another one
      have hxy : y ≠ x := by
        have hnd := hg.nodup_all.2.sublist (map_addr_sublist t.child)
        rw [hs] at hnd
        rintro rfl
        simp [List.nodup_append] at hnd
      have hlast : (l ++ x :: m.concat y).getLast? = some y := by
        rw [List.concat_eq_append, ← List.cons_append, ← List.append_assoc, List.getLast?_concat]
      rw [hlast, if_neg (by simpa using hxy), List.concat_eq_append, ← List.append_assoc,
        List.getLast?_concat]

/-- **Taking out a child.** -/
theorem unlink_step (hg : Good h t) (hs : t.child = l₁ ++ c :: l₂) :
    Step h (h.unlink t.addr (l₁.map HTree.addr).getLast? c.addr) t { t with child := l₁ ++ l₂ } := by
  have hroots := fun a => @Good.mem_of_root _ _ _ hg a
  have hmap : t.child.map HTree.addr = l₁.map HTree.addr ++ c.addr :: l₂.map HTree.addr := by
    simp [hs]
  obtain ⟨hhead, hlast⟩ := unlink_pointers hg hmap
  have hnd := hg.nodup_all.2.sublist (map_addr_sublist t.child)
  rw [hmap] at hnd
  have hct : c.addr ≠ t.addr := (hroots _ (by simp [hmap])).2.2
  have hprev : ∀ p ∈ (l₁.map HTree.addr).getLast?, p ∈ l₁.map HTree.addr :=
    fun p hp => List.mem_of_mem_getLast? hp
  have hcl : c.addr ∉ l₁.map HTree.addr := fun hm => by
    rw [List.nodup_append] at hnd
    exact hnd.2.2 _ hm _ List.mem_cons_self rfl
  have htl : t.addr ∉ l₁.map HTree.addr := fun hm => (hroots _ (by simp [hmap, hm])).2.2 rfl
  have hself := h.unlink_parent hct fun hm => htl (hprev _ hm)
  have hnode := h.unlink_node hct fun hm => hcl (hprev _ hm)
  have hkeep : ∀ a, a ≠ t.addr → a ≠ c.addr → a ∉ (l₁.map HTree.addr).getLast? →
      (h.unlink t.addr (l₁.map HTree.addr).getLast? c.addr).cells a = h.cells a :=
    fun a => h.unlink_of_ne
  have hback : ∀ p ∈ (l₁.map HTree.addr).getLast?,
      (h.unlink t.addr (l₁.map HTree.addr).getLast? c.addr).cells p =
        { h.cells p with next := (h.cells c.addr).next } :=
    fun p hp => h.unlink_prev hp (fun he => hcl (he ▸ hprev p hp)) fun he => htl (he ▸ hprev p hp)
  obtain ⟨hfresh, hfault⟩ := h.unlink_fresh t.addr c.addr (l₁.map HTree.addr).getLast?
  generalize h.unlink t.addr (l₁.map HTree.addr).getLast? c.addr = h' at *
  have hsub : ({ t with child := l₁ ++ l₂ } : HTree D).addrs.Sublist t.addrs := by
    rw [addrs_eq, addrs_eq, hs, addrsAll_split, addrsAll_append]
    exact (List.Sublist.append_left (List.sublist_append_right _ _) _).cons_cons _
  refine ⟨rfl, ⟨hg.relink ?_ ?_ ?_ ?_ ?_ ?_ ?_ ?_, hg.nodup.sublist hsub, ?_⟩, hfresh.ge, hfault,
    ?_, ?_, ?_⟩
  · rw [hself]
  · rw [hself, List.map_append, ← hhead]
  · rw [hself, List.map_append, ← hlast]
  · rw [hself, hg.holds.count, hs]
    simp
    omega
  · -- the children in front now lead to those behind
    have hlink := hg.holds.linked
    rw [hmap, Heap.linked_append] at hlink
    obtain ⟨hlink₁, hnext, hlink₂⟩ := hlink
    have hne₂ : ∀ a ∈ l₂.map HTree.addr, a ≠ c.addr ∧ a ∉ l₁.map HTree.addr := fun a ha => by
      rw [List.nodup_append, List.nodup_cons] at hnd
      exact ⟨fun he => hnd.2.1.1 (he ▸ ha), fun hm => hnd.2.2 a hm a (List.mem_cons_of_mem _ ha) rfl⟩
    rw [List.map_append, Heap.linked_append]
    refine ⟨?_, hlink₂.congr fun a ha => ?_⟩
    · rcases List.eq_nil_or_concat (l₁.map HTree.addr) with hnil | ⟨m, p, hcat⟩
      · rw [hnil]
        trivial
      · rw [List.concat_eq_append] at hcat
        rw [hcat] at hlink₁ hkeep hback hnd hcl ⊢
        refine Heap.linked_concat.mpr ⟨(Heap.linked_concat.mp hlink₁).1.congr fun a ha => ?_, ?_⟩
        · rw [hkeep a (hroots a (by simp [hmap, hcat, ha])).2.2 (fun he => hcl (by simp [← he, ha]))]
          have hap : a ≠ p := by
            rw [List.append_assoc, List.nodup_append] at hnd
            exact hnd.2.2 a ha p (by simp)
          simpa using hap.symm
        · rw [hback p (by simp), hnext]
    · rw [hkeep a (hroots a (by simp [hmap, ha])).2.2 (hne₂ a ha).1
        fun hm => (hne₂ a ha).2 (hprev a hm)]
  · intro a ha
    by_cases hac : a = c.addr
    · rw [hac, hnode]
    · by_cases hp : a ∈ (l₁.map HTree.addr).getLast?
      · rw [hback a hp]
      · rw [hkeep a (hroots a ha).2.2 hac hp]
  · intro a ha hnot
    refine hkeep a (fun he => hg.nodup_all.1 (he ▸ ha)) (fun he => hnot (by simp [he, hmap]))
      fun hm => hnot ?_
    rw [hmap]
    exact List.mem_append_left _ (hprev a hm)
  · intro b hb
    refine .inl ?_
    rw [hs]
    simp only [List.mem_append, List.mem_cons] at hb ⊢
    tauto
  · exact fun a ha => (hg.lt a (hsub.subset ha)).trans_le hfresh.ge
  · intro a _ hat
    have hroot : ∀ b ∈ t.child.map HTree.addr, a ≠ b := fun b hb he => hat (he ▸ (hroots b hb).2.1)
    exact hkeep a (fun he => hat (he ▸ t.addr_mem)) (hroot _ (by simp [hmap]))
      fun hm => hroot a (by rw [hmap]; exact List.mem_append_left _ (hprev a hm)) rfl
  · rw [hself]
  · exact fun a ha => .inl (hsub.subset ha)

end Tree

end CLib
