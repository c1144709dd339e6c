import Netrec.CLib.Heap

/-!
# Blocks of memory

A ledger keeps the blocks that are in use: a block is entered when it is allocated and struck out
when it is freed, and freeing or using a block that is not in use is a fault. Code that works on a
data structure gives blocks back and takes others, so that at any time the ledger holds the blocks of
the structure and those of its surroundings.

The nodes of a tree on a heap may own further blocks through their data, and what the data stands
for may depend on the contents of these.

## Main definitions

* `Ledger`: the blocks in use
* `Ledger.Covers`, `Ledger.Swaps`: blocks that are in use, and blocks that are exchanged for others
* `Heap.map`, `HTree.map`: a heap and a tree with their data seen through a function
* `HTree.owned`: the blocks that a tree owns through its data

## Main results

* `Ledger.Swaps.trans`, `Ledger.Swaps.frame`: how exchanges compose
* `Good.map`: what holds of a tree on a heap holds through a function
* `unlink_good`: a child that has been taken out is still a tree
-/

namespace CLib

/-! ## The ledger -/

/-- The blocks in use, and whether a block has been used or freed that was not. -/
structure Ledger where
  live : List Nat := []
  fault : Bool := false

namespace Ledger

/-- A block is allocated. -/
def acquire (l : Ledger) (p : Nat) : Ledger := { l with live := p :: l.live }

/-- `free`. -/
def release (l : Ledger) : Option Nat → Ledger
  | none => l
  | some p => if p ∈ l.live then { l with live := l.live.erase p } else { l with fault := true }

/-- Blocks are read or written. -/
def use (l : Ledger) (ps : List Nat) : Ledger :=
  { l with fault := l.fault || ps.any (· ∉ l.live) }

/-- The blocks are in use, each as often as it is named. -/
def Covers (l : Ledger) (ps : List Nat) : Prop := ∀ x, ps.count x ≤ l.live.count x

/-- Nothing goes wrong, and the blocks `ps` have been exchanged for the blocks `qs`. -/
structure Swaps (l l' : Ledger) (ps qs : List Nat) : Prop where
  fault : l'.fault = l.fault
  count : ∀ x, l'.live.count x + ps.count x = l.live.count x + qs.count x

variable {l l' l'' : Ledger} {ps qs rs : List Nat}

theorem Covers.mono (h : l.Covers ps) (hle : ∀ x, qs.count x ≤ ps.count x) : l.Covers qs :=
  fun x => (hle x).trans (h x)

theorem Covers.mem (h : l.Covers ps) {p : Nat} (hp : p ∈ ps) : p ∈ l.live := by
  have hle := h p
  have hpos := List.count_pos_iff.mpr hp
  exact List.count_pos_iff.mp (by omega)

theorem Covers.use_eq (h : l.Covers ps) (hsub : qs ⊆ ps) : l.use qs = l := by
  have hany : qs.any (· ∉ l.live) = false := by
    simpa using fun x hx => h.mem (hsub hx)
  simp only [use, hany, Bool.or_false]

theorem Swaps.refl (l : Ledger) (ps : List Nat) : Swaps l l ps ps := ⟨rfl, fun _ => rfl⟩

/-- **Exchanges compose.** -/
theorem Swaps.trans (h : Swaps l l' ps qs) (h' : Swaps l' l'' qs rs) : Swaps l l'' ps rs where
  fault := h'.fault.trans h.fault
  count x := by
    have h₁ := h.count x
    have h₂ := h'.count x
    omega

/-- **An exchange among more blocks.** -/
theorem Swaps.frame (h : Swaps l l' ps qs) {ps' qs' : List Nat}
    (heq : ∀ x, ps'.count x + qs.count x = qs'.count x + ps.count x) : Swaps l l' ps' qs' where
  fault := h.fault
  count x := by
    have h₁ := h.count x
    have h₂ := heq x
    omega

/-- Blocks that are given back are some of those in use. -/
theorem Swaps.extend (h : Swaps l l' ps []) (rs : List Nat) : Swaps l l' (ps ++ rs) rs :=
  h.frame fun x => by simp [Nat.add_comm]

theorem Swaps.covers (h : Swaps l l' ps qs) (hc : l.Covers ps) : l'.Covers qs := by
  intro x
  have h₁ := h.count x
  have h₂ := hc x
  omega

theorem swaps_acquire (l : Ledger) (p : Nat) : Swaps l (l.acquire p) [] [p] where
  fault := rfl
  count x := by simp [acquire, List.count_cons]

theorem swaps_release {p : Option Nat} (h : l.Covers p.toList) :
    Swaps l (l.release p) p.toList [] := by
  cases p with
  | none => exact .refl l []
  | some p =>
    have hp : p ∈ l.live := h.mem (by simp)
    refine ⟨by simp [release, hp], fun x => ?_⟩
    simp only [release, hp, if_true, Option.toList_some, List.count_nil, Nat.add_zero]
    rw [List.count_erase, List.count_singleton]
    split_ifs with hx
    · have hpos : 0 < l.live.count x := by
        rw [← beq_iff_eq.mp hx]
        exact List.count_pos_iff.mpr hp
      omega
    · rfl

end Ledger

/-! ## Data seen through a function -/

variable {D E : Type}

/-- A heap with its data seen through a function. -/
def Heap.map (f : D → E) (h : Heap D) : Heap E where
  cells a := ⟨f (h.cells a).data, (h.cells a).next, (h.cells a).child, (h.cells a).tail,
    (h.cells a).count⟩
  fresh := h.fresh
  fault := h.fault

theorem Heap.Linked.map {f : D → E} {h : Heap D} {e : Option Nat} {l : List Nat}
    (hl : h.Linked e l) : (h.map f).Linked e l := by
  induction l with
  | nil => trivial
  | cons a l ih => exact ⟨hl.1, ih hl.2⟩

namespace HTree

mutual

/-- A tree with its data seen through a function. -/
def map (f : D → E) : HTree D → HTree E
  | ⟨a, d, cs⟩ => ⟨a, f d, mapAll f cs⟩

/-- A list of trees with their data seen through a function. -/
def mapAll (f : D → E) : List (HTree D) → List (HTree E)
  | [] => []
  | c :: cs => map f c :: mapAll f cs

end

mutual

/-- The blocks that a tree owns through its data. -/
def owned (g : D → List Nat) : HTree D → List Nat
  | ⟨_, d, cs⟩ => g d ++ ownedAll g cs

/-- The blocks that a list of trees owns. -/
def ownedAll (g : D → List Nat) : List (HTree D) → List Nat
  | [] => []
  | c :: cs => owned g c ++ ownedAll g cs

end

section Map

variable (f : D → E) (g : D → List Nat)

theorem mapAll_eq (cs : List (HTree D)) : mapAll f cs = cs.map (map f) := by
  induction cs with
  | nil => simp [mapAll]
  | cons c cs ih => simp [mapAll, ih]

theorem map_eq (t : HTree D) : t.map f = ⟨t.addr, f t.data, t.child.map (map f)⟩ := by
  obtain ⟨a, d, cs⟩ := t
  rw [map, mapAll_eq]

@[simp] theorem map_addr (t : HTree D) : (t.map f).addr = t.addr := by rw [map_eq]

@[simp] theorem map_data (t : HTree D) : (t.map f).data = f t.data := by rw [map_eq]

@[simp] theorem map_child (t : HTree D) : (t.map f).child = t.child.map (map f) := by rw [map_eq]

mutual

theorem addrs_map : ∀ t : HTree D, (t.map f).addrs = t.addrs
  | ⟨a, d, cs⟩ => by rw [map, addrs, addrs, addrsAll_mapAll cs]

theorem addrsAll_mapAll : ∀ cs : List (HTree D), addrsAll (mapAll f cs) = addrsAll cs
  | [] => by simp [mapAll, addrsAll]
  | c :: cs => by rw [mapAll, addrsAll, addrsAll, addrs_map c, addrsAll_mapAll cs]

end

theorem owned_eq (t : HTree D) : t.owned g = g t.data ++ ownedAll g t.child := by
  obtain ⟨a, d, cs⟩ := t
  rw [owned]

theorem ownedAll_append (cs cs' : List (HTree D)) :
    ownedAll g (cs ++ cs') = ownedAll g cs ++ ownedAll g cs' := by
  induction cs with
  | nil => simp [ownedAll]
  | cons c cs ih => simp [ownedAll, ih]

mutual

/-- Two functions that agree on the data whose blocks satisfy `P` see the same in a tree whose
blocks do. -/
theorem map_congr {f' : D → E} {P : Nat → Prop} (h : ∀ d, (∀ p ∈ g d, P p) → f' d = f d) :
    ∀ t : HTree D, (∀ p ∈ t.owned g, P p) → t.map f' = t.map f
  | ⟨a, d, cs⟩, ht => by
    rw [owned] at ht
    rw [map, map, h d fun p hp => ht p (List.mem_append_left _ hp),
      mapAll_congr h cs fun p hp => ht p (List.mem_append_right _ hp)]

theorem mapAll_congr {f' : D → E} {P : Nat → Prop} (h : ∀ d, (∀ p ∈ g d, P p) → f' d = f d) :
    ∀ cs : List (HTree D), (∀ p ∈ ownedAll g cs, P p) → mapAll f' cs = mapAll f cs
  | [], _ => by rw [mapAll, mapAll]
  | c :: cs, ht => by
    rw [ownedAll] at ht
    rw [mapAll, mapAll, map_congr h c fun p hp => ht p (List.mem_append_left _ hp),
      mapAll_congr h cs fun p hp => ht p (List.mem_append_right _ hp)]

end

end Map

end HTree

open HTree

theorem Holds.map {f : D → E} {h : Heap D} {t : HTree D} (hh : Holds h t) :
    Holds (h.map f) (t.map f) := by
  induction hh with
  | @mk a d cs hdata hchild htail hcount hlink _ ih =>
    have haddr : (cs.map (HTree.map f)).map addr = cs.map addr := by simp
    rw [map_eq]
    refine .mk (congrArg f hdata) ?_ ?_ ?_ ?_ ?_
    · rw [haddr]
      exact hchild
    · rw [haddr]
      exact htail
    · rw [List.length_map]
      exact hcount
    · rw [haddr]
      exact hlink.map
    · intro b hb
      obtain ⟨c, hc, rfl⟩ := List.mem_map.mp hb
      exact ih c hc

/-- **A tree on a heap, seen through a function.** -/
theorem Good.map (f : D → E) {h : Heap D} {t : HTree D} (hg : Good h t) :
    Good (h.map f) (t.map f) where
  holds := hg.holds.map
  nodup := by
    rw [addrs_map]
    exact hg.nodup
  lt a ha := hg.lt a (by rwa [addrs_map] at ha)

/-- **A child that has been taken out is still a tree.** -/
theorem unlink_good {h : Heap D} {t c : HTree D} {l₁ l₂ : List (HTree D)} (hg : Good h t)
    (hs : t.child = l₁ ++ c :: l₂) :
    Good (h.unlink t.addr (l₁.map addr).getLast? c.addr) c := by
  have hgc : Good h c := hg.child (by simp [hs])
  have hnot : ∀ a ∈ c.addrs, a ≠ t.addr ∧ a ∉ (l₁.map addr).getLast? := by
    intro a ha
    refine ⟨fun he => (hg.disjoint hs (.inl rfl)).1 (he ▸ ha), fun hm => ?_⟩
    have hroot := (map_addr_sublist l₁).subset (List.mem_of_mem_getLast? hm)
    exact (hg.disjoint hs (.inr (.inl hroot))).1 ha
  obtain ⟨hne, hlast⟩ := hnot c.addr c.addr_mem
  obtain ⟨hfresh, -⟩ := h.unlink_fresh t.addr c.addr (l₁.map addr).getLast?
  refine ⟨hgc.holds.congr ?_ fun a ha => ?_, hgc.nodup, fun a ha => hfresh ▸ hgc.lt a ha⟩
  · rw [h.unlink_node hne hlast]
  · -- below the child nothing has changed
    have hmem : a ∈ c.addrs := by
      rw [addrs_eq]
      exact List.mem_cons_of_mem _ ha
    obtain ⟨hat, hal⟩ := hnot a hmem
    exact h.unlink_of_ne hat (fun he => hgc.nodup_all.1 (he ▸ ha)) hal

theorem Good.length_le {h : Heap D} {t : HTree D} (hg : Good h t) : t.addrs.length ≤ h.fresh := by
  have hrange : t.addrs ⊆ List.range h.fresh := fun a ha => List.mem_range.mpr (hg.lt a ha)
  simpa using (hg.nodup.subperm hrange).length_le

end CLib
