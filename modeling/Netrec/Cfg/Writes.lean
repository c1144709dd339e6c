import Netrec.Cfg.Query

/-!
# Writing to the configuration tree

A write or a deletion walks down the tree and changes it at the end of its path. On a well-formed
tree it is the write or the deletion of the store that the tree stands for, so that what it changes
is said once, for all paths. Each step of the walk is matched by grafting the store of the child
into the store of its parent.

## Main definitions

* `graft s k t`: the store `s` with `t` below the key `k`
* `WritesStore v toks n`: writing along `toks` does to `n` what it does to the store

## Main results

* `writesStore`: a write is a write of the store
* `delToks_look`: a deletion is a deletion of the store
-/

namespace Netrec

open CLib

/-! ## Writes are writes of the store -/

/-- A store with another store in the place of what lies below a key. -/
def graft (s : Store CStr CStr) (k : CStr) (t : Store CStr CStr) : Store CStr CStr
  | [] => s []
  | j :: p => if j = k then t p else s (j :: p)

/-- A write below a key is a write to the whole. -/
theorem graft_put {s t : Store CStr CStr} (k : CStr) (p : List CStr) (c : Cell CStr)
    (hs : s [] = some .obj) (ht : ∀ q, ¬ q <+: p → t q = s (k :: q)) :
    graft s k (t.put p c) = s.put (k :: p) c := by
  funext q
  cases q with
  | nil =>
    rw [graft, Store.put_of_prefix _ _ List.nil_prefix (by simp), hs]
  | cons j q =>
    by_cases hj : j = k
    · subst hj
      simp only [graft, if_true, Store.put, List.cons.injEq, true_and, List.cons_prefix_cons]
      split_ifs with h₁ h₂
      · rfl
      · rfl
      · exact ht q h₂
    · simp [graft, hj, Store.put, List.cons_prefix_cons]

section Chain

variable {n a a' : CfgNode} {l₁ l₂ : List CfgNode} {k : CStr}

theorem objFind_replace (ht : n.type = .obj) (hs : n.child = l₁ ++ a :: l₂)
    (hl : ∀ b ∈ l₁, hasName k b = false) (ha : hasName k a) (hn : a'.name = a.name) (j : CStr) :
    objFind { n with child := l₁ ++ a' :: l₂ } j = if j = k then some a' else objFind n j := by
  have hname : a.name = some k := by simpa [hasName] using ha
  simp only [objFind, ht, ne_eq, not_true_eq_false, if_false, hs, List.find?_append]
  by_cases hj : j = k
  · subst hj
    have hnone : l₁.find? (hasName j) = none := by
      simpa [List.find?_eq_none] using hl
    simp [hnone, hasName, hn, hname]
  · have hne : some k ≠ some j := fun e => hj (Option.some.inj e).symm
    simp [hj, hasName, hn, hname, Ne.symm hj]

theorem objFind_childAdd (ht : n.type = .obj) (hl : ∀ b ∈ n.child, hasName k b = false)
    (hn : a.name = some k) (j : CStr) :
    objFind (childAdd n a) j = if j = k then some a else objFind n j := by
  simp only [objFind, childAdd, ht, ne_eq, not_true_eq_false, if_false, List.find?_append]
  by_cases hj : j = k
  · subst hj
    have hnone : n.child.find? (hasName j) = none := by
      simpa [List.find?_eq_none] using hl
    simp [hnone, hasName, hn]
  · simp [hj, hasName, hn, Ne.symm hj]

theorem objFind_of_split (ht : n.type = .obj) (hs : n.child = l₁ ++ a :: l₂)
    (hl : ∀ b ∈ l₁, hasName k b = false) (ha : hasName k a) : objFind n k = some a := by
  simp [objFind, ht, hs, List.find?_append, ha, List.find?_eq_none.mpr (by simpa using hl)]

/-- What the children of an object look like decides what the object looks like. -/
theorem look_eq_graft {n' : CfgNode} (ht : n.type = .obj) (ht' : n'.type = .obj)
    (h : ∀ j, objFind n' j = if j = k then some a else objFind n j) :
    n'.look = graft n.look k a.look := by
  funext p
  cases p with
  | nil => simp [graft, CfgNode.cell_obj ht, CfgNode.cell_obj ht']
  | cons j p =>
    rw [CfgNode.look_cons, h, graft]
    split_ifs with hj
    · rfl
    · rw [CfgNode.look_cons]

theorem objFind_eq_none_iff (ht : n.type = .obj) :
    objFind n k = none ↔ ∀ b ∈ n.child, hasName k b = false := by
  simp [objFind, ht, List.find?_eq_none]

end Chain

theorem exists_split_of_objFind {n c : CfgNode} {k : CStr} (h : objFind n k = some c) :
    ∃ l₁ l₂, n.child = l₁ ++ c :: l₂ ∧ (∀ b ∈ l₁, hasName k b = false) ∧ hasName k c := by
  rw [objFind, if_neg (not_not.mpr (objFind_mem h).1)] at h
  obtain ⟨hc, l₁, l₂, hs, hl⟩ := List.find?_eq_some_iff_append.mp h
  exact ⟨l₁, l₂, hs, by simpa using hl, hc⟩

/-- The step of `cfg_set_str` at a missing key. -/
theorem enterKey_of_none {n : CfgNode} {k : CStr} {want : CfgType} {f : CfgNode → Rc × CfgNode}
    (ht : n.type = .obj) (hk : objFind n k = none) :
    enterKey n k want f =
      ((f (nodeNew want (some k))).1, childAdd n (f (nodeNew want (some k))).2) := by
  unfold enterKey
  rw [if_neg (not_not.mpr ht)]
  simp only [onFirst_eq_none.mpr ((objFind_eq_none_iff ht).mp hk)]

/-- The step of `cfg_set_str` at a key that exists. -/
theorem enterKey_of_split {n c : CfgNode} {k : CStr} {want : CfgType}
    {f : CfgNode → Rc × CfgNode} {l₁ l₂ : List CfgNode} (ht : n.type = .obj)
    (hs : n.child = l₁ ++ c :: l₂) (hl : ∀ b ∈ l₁, hasName k b = false) (hc : hasName k c) :
    enterKey n k want f =
      if c.type ≠ want then (some .ENOTDIR, n)
      else ((f c).1, { n with child := l₁ ++ (f c).2 :: l₂ }) := by
  unfold enterKey
  rw [if_neg (not_not.mpr ht), hs]
  simp only [onFirst_append_of_forall_not l₂ hl hc]
  split_ifs
  · rw [with_child_self hs]
  · rfl

/-- The step of `cfg_set_str` at a key, by what it finds there. -/
theorem enterKey_look {n : CfgNode} {k : CStr} {want : CfgType} {f : CfgNode → Rc × CfgNode}
    (hf : ∀ c, (f c).2.name = c.name) (ht : n.type = .obj) :
    (objFind n k = none ∧
      (enterKey n k want f).1 = (f (nodeNew want (some k))).1 ∧
      (enterKey n k want f).2.look = graft n.look k (f (nodeNew want (some k))).2.look) ∨
    (∃ c, objFind n k = some c ∧ c.type ≠ want ∧ (enterKey n k want f).1 = some .ENOTDIR) ∨
    ∃ c, objFind n k = some c ∧ c.type = want ∧ (enterKey n k want f).1 = (f c).1 ∧
      (enterKey n k want f).2.look = graft n.look k (f c).2.look := by
  cases hk : objFind n k with
  | none =>
    rw [enterKey_of_none ht hk]
    have hl := (objFind_eq_none_iff ht).mp hk
    exact .inl ⟨rfl, rfl, look_eq_graft ht ht (objFind_childAdd ht hl (hf _))⟩
  | some c =>
    obtain ⟨l₁, l₂, hs, hl, hc⟩ := exists_split_of_objFind hk
    rw [enterKey_of_split ht hs hl hc]
    by_cases htype : c.type = want
    · rw [if_neg (not_not.mpr htype)]
      exact .inr (.inr ⟨c, rfl, htype, rfl,
        look_eq_graft ht ht (objFind_replace ht hs hl hc (hf c))⟩)
    · rw [if_pos htype]
      exact .inr (.inl ⟨c, rfl, htype, rfl⟩)

theorem apply_plain {v : CStr} {o : Option (Cell CStr)} {c : Cell CStr} :
    Leaf.plain.apply v o = some c ↔ c = .str v ∧ (o = none ∨ ∃ s, o = some (.str s)) := by
  rcases o with _ | ⟨_ | _ | _⟩ <;> simp [Leaf.apply, eq_comm]

/-- The value of the child of that name is replaced, or a new child added. -/
theorem setStrPlain_look {n : CfgNode} {k v : CStr} (ht : n.type = .obj) :
    (∃ c, objFind n k = some c ∧ c.type ≠ .str ∧ (setStrPlain n k v).1 ≠ none) ∨
    ((∀ c, objFind n k = some c → c.type = .str) ∧ (setStrPlain n k v).1 = none ∧
      (setStrPlain n k v).2.look = n.look.put [k] (.str v)) := by
  -- below the key there is only the new value
  have hput : ∀ {n' : CfgNode} {a : CfgNode}, n'.type = .obj → a.type = .str → a.val = some v →
      (∀ c, objFind n k = some c → c.type = .str) →
      (∀ j, objFind n' j = if j = k then some a else objFind n j) →
      n'.look = n.look.put [k] (.str v) := by
    intro n' a ht' hta hva hold h
    have hlook : a.look = (a.look).put [] (.str v) := by
      funext q
      cases q with
      | nil => simp [CfgNode.cell_str hta, hva]
      | cons j q => rw [Store.put_of_not_prefix _ _ (by simp)]
    rw [look_eq_graft ht ht' h, hlook]
    refine graft_put k [] _ (by rw [CfgNode.look_nil, CfgNode.cell_obj ht]) fun q hq => ?_
    cases q with
    | nil => simp at hq
    | cons j q =>
      rw [CfgNode.look_cons_of_ne_obj (by simp [hta]), CfgNode.look_cons]
      cases hk : objFind n k with
      | none => rfl
      | some c => exact (CfgNode.look_cons_of_ne_obj (by simp [hold c hk]) j q).symm
  simp only [setStrPlain]
  cases ho : onFirst (hasName k) (fun node : CfgNode =>
      if node.type ≠ .str then (some Errno.EISDIR, node) else (none, { node with val := some v }))
      n.child with
  | none =>
    have hl := onFirst_eq_none.mp ho
    have hnone := (objFind_eq_none_iff ht).mpr hl
    have hold : ∀ c, objFind n k = some c → c.type = .str := fun c hc => by simp [hnone] at hc
    refine .inr ⟨hold, rfl, hput ht ?_ ?_ hold (objFind_childAdd ht hl ?_)⟩ <;> rfl
  | some r =>
    obtain ⟨rc, cs⟩ := r
    obtain ⟨l₁, c, l₂, hs, hl, hc, hrc, hcs⟩ := onFirst_eq_some ho
    have hfind : objFind n k = some c := objFind_of_split ht hs hl hc
    by_cases htype : c.type = .str
    · rw [if_neg (not_not.mpr htype)] at hrc hcs
      have hold : ∀ b, objFind n k = some b → b.type = .str := fun b hb => by
        rw [hfind] at hb
        rwa [← Option.some.inj hb]
      refine .inr ⟨hold, hrc, ?_⟩
      simp only [hcs]
      exact hput (a := { c with val := some v }) ht htype rfl hold
        (objFind_replace ht hs hl hc rfl)
    · rw [if_pos htype] at hrc
      exact .inl ⟨c, hfind, htype, by simp [hrc]⟩

/-- Below a string or an array there is nothing. -/
theorem look_of_ne_obj {n n' : CfgNode} (ht : n.type ≠ .obj) (ht' : n'.type ≠ .obj) :
    n'.look = n.look.put [] n'.cell := by
  funext q
  cases q with
  | nil => simp
  | cons j q =>
    rw [Store.put_of_not_prefix _ _ (by simp), CfgNode.look_cons_of_ne_obj ht,
      CfgNode.look_cons_of_ne_obj ht']

theorem setArrAppend_look {n : CfgNode} (ht : n.type = .arr) (v : CStr) :
    (setArrAppend n v).1 = none ∧ (setArrAppend n v).2.look =
      n.look.put [] (.arr ((n.child.map fun c => c.val.getD []) ++ [v])) := by
  rw [setArrAppend, if_neg (not_not.mpr ht)]
  refine ⟨rfl, (look_of_ne_obj (n := n) (by simp [ht]) (by simp [childAdd, ht])).trans ?_⟩
  rw [CfgNode.cell_arr (by exact ht)]
  simp [childAdd]

theorem map_val_set {l₁ l₂ : List CfgNode} (a : CfgNode) {a' : CfgNode} {j : Nat}
    (hj : l₁.length = j) {v : CStr} (hv : a'.val.getD [] = v) :
    ((l₁ ++ a' :: l₂).map fun c => c.val.getD []) =
      ((l₁ ++ a :: l₂).map fun c => c.val.getD []).set j v := by
  subst hj
  simp [hv]

theorem setArrIdx_look {d : Nat} {n : CfgNode} (h : n.Wf d) (ht : n.type = .arr) (i : Int)
    (v : CStr) :
    (position n.child.length i = none ∧ (setArrIdx n i v).1 ≠ none) ∨
    ∃ j, position n.child.length i = some j ∧ (setArrIdx n i v).1 = none ∧
      (setArrIdx n i v).2.look =
        n.look.put [] (.arr ((n.child.map fun c => c.val.getD []).set j v)) := by
  unfold setArrIdx
  rw [if_neg (not_not.mpr ht), arrIdx_eq, if_neg (not_not.mpr ht)]
  cases hp : position n.child.length i with
  | none => exact .inl ⟨rfl, by simp⟩
  | some j =>
    have hj := position_lt hp
    obtain ⟨l₁, a, l₂, hs, hlen⟩ : ∃ l₁ a l₂, n.child = l₁ ++ a :: l₂ ∧ l₁.length = j :=
      ⟨n.child.take j, n.child[j], n.child.drop (j + 1), by simp, by simp; omega⟩
    have hstr : a.type = .str := h.entry ht (by simp [hs])
    refine .inr ⟨j, rfl, ?_⟩
    dsimp only
    rw [hs, onNth_append hlen]
    simp only [hstr, ne_eq, not_true_eq_false, if_false, true_and]
    refine (look_of_ne_obj (n := n) (by simp [ht]) (by simp [ht])).trans ?_
    rw [CfgNode.cell_arr (by exact ht), map_val_set a hlen rfl]
    rfl

theorem setToks_of_str {n : CfgNode} (h : n.type = .str) (v : CStr) (toks : List Tok) :
    (setToks v toks n).1 ≠ none := by
  rcases toks with _ | ⟨_ | _ | _, _ | ⟨t, toks⟩⟩ <;>
    simp [setToks, h, setArrIdx, setArrAppend, atIndex, enterKey]

/-- The kind of node that the address and the last step of a path need where they start. -/
theorem wantType_of_splitToks {t : Tok} {toks : List Tok} {p : List CStr} {leaf : Leaf}
    (h : splitToks (t :: toks) = some (p, leaf)) :
    wantType t = if p = [] then .arr else .obj := by
  obtain ⟨htoks, hp⟩ := toks_eq_of_splitToks h
  cases p with
  | nil => cases leaf <;> simp_all [leafToks, wantType]
  | cons k p =>
    obtain ⟨rfl, -⟩ : t = .key k ∧ _ := by simpa using htoks
    rfl

theorem look_nodeNew (want : CfgType) (name : Option CStr) {q : List CStr} (hq : q ≠ []) :
    (nodeNew want name).look q = none := by
  obtain ⟨j, q, rfl⟩ := List.exists_cons_of_ne_nil hq
  simp [CfgNode.look_cons, objFind, nodeNew]

/-- A node created on the way takes what an absent one would. -/
theorem apply_nodeNew {t : Tok} {toks : List Tok} {p : List CStr} {leaf : Leaf}
    (h : splitToks (t :: toks) = some (p, leaf)) (name : Option CStr) (v : CStr) :
    leaf.apply v ((nodeNew (wantType t) name).look p) = leaf.apply v none := by
  by_cases hp : p = []
  · have hwant := wantType_of_splitToks h
    rw [if_pos hp] at hwant
    subst hp
    obtain ⟨-, hplain⟩ := toks_eq_of_splitToks h
    rw [CfgNode.look_nil, CfgNode.cell_arr (by simp [nodeNew, hwant])]
    cases leaf with
    | plain => exact absurd rfl (hplain rfl)
    | append => rfl
    | index i => simp [Leaf.apply, nodeNew]
  · rw [look_nodeNew _ _ hp]

theorem clear_nodeNew {t : Tok} {toks : List Tok} {p : List CStr} {leaf : Leaf}
    (h : splitToks (t :: toks) = some (p, leaf)) (name : Option CStr) :
    (nodeNew (wantType t) name).look.Clear p := by
  intro q hq hne
  by_cases hq' : q = []
  · subst hq'
    rw [CfgNode.look_nil, CfgNode.cell_obj
      (by simp [nodeNew, wantType_of_splitToks h, Ne.symm hne])]
    exact .inr rfl
  · exact .inl (look_nodeNew _ _ hq')

/-- A node of the wrong kind refuses a path that needs another one. -/
theorem wrong_kind {t : Tok} {toks : List Tok} {p : List CStr} {leaf : Leaf} {c : CfgNode}
    {v : CStr} {d : Cell CStr} (h : splitToks (t :: toks) = some (p, leaf))
    (hclear : c.look.Clear p) (happ : leaf.apply v (c.look p) = some d) :
    c.type = wantType t := by
  rw [wantType_of_splitToks h]
  by_cases hp : p = []
  · subst hp
    obtain ⟨-, hplain⟩ := toks_eq_of_splitToks h
    rw [CfgNode.look_nil] at happ
    rw [if_pos rfl]
    cases ht : c.type <;> cases leaf <;> simp_all [CfgNode.cell, Leaf.apply]
  · rw [if_neg hp]
    have hroot := (hclear [] List.nil_prefix (Ne.symm hp)).resolve_left (by simp)
    exact CfgNode.cell_eq_obj.mp (Option.some.inj hroot)

/-- A walk that writes does to the node what the write of its path does to the store: it succeeds
exactly when the path is an address with a last step, no prefix of the address is in use otherwise
and the cell there takes the value. -/
def WritesStore (v : CStr) (toks : List Tok) (n : CfgNode) : Prop :=
  ((setToks v toks n).1 = none → ∃ p leaf c, splitToks toks = some (p, leaf) ∧ n.look.Clear p ∧
    leaf.apply v (n.look p) = some c) ∧
  ∀ p leaf c, splitToks toks = some (p, leaf) → n.look.Clear p →
    leaf.apply v (n.look p) = some c →
    (setToks v toks n).1 = none ∧ (setToks v toks n).2.look = n.look.put p c

/-- A path that is no address with a last step, and a walk along it that fails. -/
theorem writesStore_of_fails {v : CStr} {toks : List Tok} {n : CfgNode}
    (hs : splitToks toks = none) (hrc : (setToks v toks n).1 ≠ none) : WritesStore v toks n :=
  ⟨fun h => absurd h hrc, fun p leaf c h => by simp [hs] at h⟩

theorem writesStore_key (v k : CStr) (n : CfgNode) : WritesStore v [.key k] n := by
  by_cases ht : n.type = .obj
  · have hset : setToks v [.key k] n = setStrPlain n k v := by
      simp only [setToks, ht, ne_eq, not_true_eq_false, if_false]
    have hclear : n.look.Clear [k] :=
      Store.clear_cons.mpr ⟨.inr (by rw [CfgNode.look_nil, CfgNode.cell_obj ht]),
        Store.clear_nil _⟩
    have hcell : n.look [k] = (objFind n k).map CfgNode.cell := by
      cases hk : objFind n k <;> simp [CfgNode.look_cons, hk]
    rw [WritesStore, hset]
    obtain ⟨c, hc, htype, hrc⟩ | ⟨hold, hrc, hlook⟩ := setStrPlain_look (k := k) (v := v) ht
    · -- the key is in use otherwise
      refine ⟨fun h => absurd h hrc, fun p leaf e hs _ happ => ?_⟩
      obtain ⟨rfl, rfl⟩ : [k] = p ∧ Leaf.plain = leaf := by simpa [splitToks] using hs
      rw [hcell, hc] at happ
      cases hct : c.type <;> simp_all [CfgNode.cell, Leaf.apply]
    · have happ : Leaf.plain.apply v (n.look [k]) = some (.str v) := by
        refine apply_plain.mpr ⟨rfl, ?_⟩
        rw [hcell]
        cases hk : objFind n k with
        | none => exact .inl rfl
        | some c => exact .inr ⟨_, by rw [Option.map_some, CfgNode.cell_str (hold c hk)]⟩
      refine ⟨fun _ => ⟨[k], .plain, .str v, rfl, hclear, happ⟩, fun p leaf e hs _ he => ?_⟩
      obtain ⟨rfl, rfl⟩ : [k] = p ∧ Leaf.plain = leaf := by simpa [splitToks] using hs
      rw [Option.some.inj (he.symm.trans happ)]
      exact ⟨hrc, hlook⟩
  · refine ⟨fun h => by simp [setToks, ht] at h, fun p leaf e hs hclear _ => ?_⟩
    obtain ⟨rfl, rfl⟩ : [k] = p ∧ Leaf.plain = leaf := by simpa [splitToks] using hs
    have hroot := (Store.clear_cons.mp hclear).1.resolve_left (by simp)
    exact absurd (CfgNode.cell_eq_obj.mp (Option.some.inj hroot)) ht

theorem writesStore_append (v : CStr) (n : CfgNode) : WritesStore v [.append] n := by
  by_cases ht : n.type = .arr
  · obtain ⟨hrc, hlook⟩ := setArrAppend_look ht v
    have happ : Leaf.append.apply v (n.look []) =
        some (.arr ((n.child.map fun c => c.val.getD []) ++ [v])) := by
      rw [CfgNode.look_nil, CfgNode.cell_arr ht]
      rfl
    refine ⟨fun _ => ⟨[], .append, _, rfl, Store.clear_nil _, happ⟩, fun p leaf e hs _ he => ?_⟩
    obtain ⟨rfl, rfl⟩ : [] = p ∧ Leaf.append = leaf := by simpa [splitToks] using hs
    rw [Option.some.inj (he.symm.trans happ)]
    exact ⟨hrc, hlook⟩
  · refine ⟨fun h => by simp [setToks, setArrAppend, ht] at h, fun p leaf e hs _ he => ?_⟩
    obtain ⟨rfl, rfl⟩ : [] = p ∧ Leaf.append = leaf := by simpa [splitToks] using hs
    rw [CfgNode.look_nil] at he
    cases hn : n.type <;> simp_all [CfgNode.cell, Leaf.apply]

theorem writesStore_index {d : Nat} {n : CfgNode} (h : n.Wf d) (v : CStr) (i : Int) :
    WritesStore v [.index i] n := by
  by_cases ht : n.type = .arr
  · have hcell : n.look [] = some (.arr (n.child.map fun c => c.val.getD [])) := by
      rw [CfgNode.look_nil, CfgNode.cell_arr ht]
    obtain ⟨hpos, hrc⟩ | ⟨j, hpos, hrc, hlook⟩ := setArrIdx_look h ht i v
    · refine ⟨fun hnone => absurd hnone hrc, fun p leaf e hs _ he => ?_⟩
      obtain ⟨rfl, rfl⟩ : [] = p ∧ Leaf.index i = leaf := by simpa [splitToks] using hs
      simp [hcell, Leaf.apply, hpos] at he
    · have happ : (Leaf.index i).apply v (n.look []) =
          some (.arr ((n.child.map fun c => c.val.getD []).set j v)) := by
        simp [hcell, Leaf.apply, hpos]
      refine ⟨fun _ => ⟨[], .index i, _, rfl, Store.clear_nil _, happ⟩,
        fun p leaf e hs _ he => ?_⟩
      obtain ⟨rfl, rfl⟩ : [] = p ∧ Leaf.index i = leaf := by simpa [splitToks] using hs
      rw [Option.some.inj (he.symm.trans happ)]
      exact ⟨hrc, hlook⟩
  · refine ⟨fun h => by simp [setToks, setArrIdx, ht] at h, fun p leaf e hs _ he => ?_⟩
    obtain ⟨rfl, rfl⟩ : [] = p ∧ Leaf.index i = leaf := by simpa [splitToks] using hs
    rw [CfgNode.look_nil] at he
    cases hn : n.type <;> simp_all [CfgNode.cell, Leaf.apply]

/-- The step at a key: what the rest of the walk does to the child it does to the whole. -/
theorem writesStore_enter {v k : CStr} {t : Tok} {toks : List Tok} {n : CfgNode}
    (hchild : ∀ c, objFind n k = some c → WritesStore v (t :: toks) c)
    (hnew : WritesStore v (t :: toks) (nodeNew (wantType t) (some k))) :
    WritesStore v (.key k :: t :: toks) n := by
  have hsplit : ∀ {p leaf}, splitToks (.key k :: t :: toks) = some (p, leaf) →
      ∃ p', p = k :: p' ∧ splitToks (t :: toks) = some (p', leaf) := by
    intro p leaf hs
    obtain ⟨⟨p', leaf'⟩, hs', he⟩ := Option.map_eq_some_iff.mp hs
    obtain ⟨rfl, rfl⟩ : k :: p' = p ∧ leaf' = leaf := by simpa using he
    exact ⟨p', rfl, hs'⟩
  by_cases ht : n.type = .obj
  · have hroot : n.look [] = some .obj := by rw [CfgNode.look_nil, CfgNode.cell_obj ht]
    have hset : setToks v (.key k :: t :: toks) n =
        enterKey n k (wantType t) (setToks v (t :: toks)) := rfl
    rw [WritesStore, hset]
    obtain ⟨hk, hrc, hlook⟩ | ⟨c, hk, htype, hrc⟩ | ⟨c, hk, htype, hrc, hlook⟩ :=
      @enterKey_look n k (wantType t) _ (fun c => (setToks_name_type v (t :: toks) c).1) ht
    · -- a new child
      have hnone : ∀ q, n.look (k :: q) = none := fun q => by simp [CfgNode.look_cons, hk]
      rw [hrc, hlook]
      constructor
      · intro h
        obtain ⟨p, leaf, c, hs, -, happ⟩ := hnew.1 h
        rw [apply_nodeNew hs] at happ
        refine ⟨k :: p, leaf, c, by simp [splitToks, hs], Store.clear_cons.mpr ⟨.inr hroot, ?_⟩,
          by rw [hnone, happ]⟩
        exact fun q _ _ => .inl (hnone q)
      · intro p leaf c hs hclear happ
        obtain ⟨p', rfl, hs'⟩ := hsplit hs
        rw [hnone, ← apply_nodeNew hs' (some k)] at happ
        obtain ⟨hrc', hlook'⟩ := hnew.2 p' leaf c hs' (clear_nodeNew hs' _) happ
        refine ⟨hrc', ?_⟩
        rw [hlook']
        refine graft_put k p' c hroot fun q hq => ?_
        rw [hnone, look_nodeNew]
        rintro rfl
        exact hq List.nil_prefix
    · -- a child of another kind
      have hbelow : ∀ q, n.look (k :: q) = c.look q := fun q => by simp [CfgNode.look_cons, hk]
      refine ⟨fun h => by simp [hrc] at h, fun p leaf e hs hclear happ => ?_⟩
      obtain ⟨p', rfl, hs'⟩ := hsplit hs
      have hclear' := (Store.clear_cons.mp hclear).2
      simp only [hbelow] at hclear' happ
      exact absurd (wrong_kind hs' hclear' happ) htype
    · have hbelow : ∀ q, n.look (k :: q) = c.look q := fun q => by simp [CfgNode.look_cons, hk]
      rw [hrc, hlook]
      constructor
      · intro h
        obtain ⟨p, leaf, e, hs, hclear, happ⟩ := (hchild c hk).1 h
        refine ⟨k :: p, leaf, e, by simp [splitToks, hs], Store.clear_cons.mpr ⟨.inr hroot, ?_⟩,
          by rw [hbelow, happ]⟩
        simpa only [hbelow] using hclear
      · intro p leaf e hs hclear happ
        obtain ⟨p', rfl, hs'⟩ := hsplit hs
        have hclear' := (Store.clear_cons.mp hclear).2
        simp only [hbelow] at hclear' happ
        obtain ⟨hrc', hlook'⟩ := (hchild c hk).2 p' leaf e hs' hclear' happ
        refine ⟨hrc', ?_⟩
        rw [hlook']
        exact graft_put k p' e hroot fun q _ => (hbelow q).symm
  · refine ⟨fun h => by simp [setToks, enterKey, ht] at h, fun p leaf e hs hclear _ => ?_⟩
    obtain ⟨p', rfl, -⟩ := hsplit hs
    have hroot := (Store.clear_cons.mp hclear).1.resolve_left (by simp)
    exact absurd (CfgNode.cell_eq_obj.mp (Option.some.inj hroot)) ht

/-- **A write is a write of the store.** -/
theorem writesStore {d : Nat} {n : CfgNode} (h : n.Wf d) (v : CStr) (toks : List Tok) :
    WritesStore v toks n := by
  induction toks generalizing n d with
  | nil => exact writesStore_of_fails rfl (by simp [setToks])
  | cons t toks ih =>
    by_cases htoks : toks = []
    · subst htoks
      cases t with
      | key k => exact writesStore_key v k n
      | append => exact writesStore_append v n
      | index i => exact writesStore_index h v i
    · obtain ⟨t', toks, rfl⟩ := List.exists_cons_of_ne_nil htoks
      cases t with
      | append => exact writesStore_of_fails rfl (by simp [setToks])
      | index i =>
        -- behind an index there are only strings, which refuse every path
        refine writesStore_of_fails rfl ?_
        simp only [setToks, atIndex]
        split_ifs with ht
        · simp
        · split
          · simp
          · split
            · simp
            · rename_i ho
              obtain ⟨l₁, a, l₂, hs, -, rfl, -⟩ := onNth_eq_some ho
              exact setToks_of_str (h.entry (not_not.mp ht) (by simp [hs])) v _
      | key k =>
        exact writesStore_enter (fun c hc => ih (h.child_wf (objFind_mem hc).2.1))
          (ih (d := d) (.nodeNew (wantType_ne_str t') _))

/-! ## Deletions are deletions of the store -/

/-- A deletion below a key is a deletion from the whole. -/
theorem graft_del {s t : Store CStr CStr} {k : CStr} {p : List CStr} {leaf : Leaf}
    (hs : s [] = some .obj) (h : Store.del (fun q => s (k :: q)) p leaf = some t) :
    s.del (k :: p) leaf = some (graft s k t) := by
  cases leaf with
  | plain =>
    simp only [Store.del] at h ⊢
    split_ifs at h with hp
    obtain rfl := Option.some.inj h
    rw [if_pos hp]
    congr 1
    funext q
    cases q with
    | nil => simp [Store.remove, graft]
    | cons j q =>
      by_cases hj : j = k
      · subst hj
        simp [Store.remove, graft, List.cons_prefix_cons]
      · simp [Store.remove, graft, List.cons_prefix_cons, hj, Ne.symm hj]
  | append => cases h
  | index i =>
    simp only [Store.del] at h ⊢
    cases hp : s (k :: p) with
    | none => simp [hp] at h
    | some c =>
      cases c with
      | str v => simp [hp] at h
      | obj => simp [hp] at h
      | arr vs =>
        simp only [hp, Option.map_eq_some_iff] at h ⊢
        obtain ⟨j, hj, rfl⟩ := h
        exact ⟨j, hj, (graft_put k p _ hs fun _ _ => rfl).symm⟩

theorem delToks_of_str {n : CfgNode} (h : n.type = .str) (toks : List Tok) :
    (delToks toks n).1 ≠ none := by
  rcases toks with _ | ⟨_ | _ | _, _ | ⟨t, toks⟩⟩ <;>
    simp [delToks, h, delArr, arrIdx, atIndex]

theorem objFind_eraseP {d : Nat} {n : CfgNode} (h : n.Wf d) (ht : n.type = .obj) (k j : CStr) :
    objFind { n with child := n.child.eraseP (hasName k) } j =
      if j = k then none else objFind n j := by
  obtain ⟨hnd, -⟩ := h.names ht
  simp only [objFind, ht, ne_eq, not_true_eq_false, if_false]
  generalize n.child = cs at hnd
  induction cs with
  | nil => simp
  | cons c cs ih =>
    rw [List.map_cons, List.nodup_cons] at hnd
    have ih' := ih hnd.2
    by_cases hc : hasName k c
    · rw [List.eraseP_cons_of_pos hc]
      have hname : c.name = some k := by simpa [hasName] using hc
      by_cases hj : j = k
      · -- the only child of that name is gone
        subst hj
        rw [if_pos rfl, List.find?_eq_none]
        intro b hb hbn
        have hbn' : b.name = some j := by simpa [hasName] using hbn
        exact hnd.1 (List.mem_map.mpr ⟨b, hb, hbn'.trans hname.symm⟩)
      · have hne : hasName j c = false := by simpa [hasName, hname] using Ne.symm hj
        rw [if_neg hj, List.find?_cons_of_neg (by simp [hne])]
    · rw [List.eraseP_cons_of_neg hc]
      by_cases hj : hasName j c
      · have hne : j ≠ k := by
          rintro rfl
          exact hc hj
        rw [List.find?_cons_of_pos hj, if_neg hne, List.find?_cons_of_pos hj]
      · rw [List.find?_cons_of_neg hj, List.find?_cons_of_neg hj]
        exact ih'

theorem delPlain_look {d : Nat} {n : CfgNode} (h : n.Wf d) (ht : n.type = .obj) {k : CStr}
    (hrc : (delPlain n k).1 = none) : n.look.del [k] .plain = some (delPlain n k).2.look := by
  unfold delPlain at hrc ⊢
  split_ifs at hrc with hany
  rw [if_pos hany]
  have hfind : (objFind n k).isSome := by
    obtain ⟨c, hc, hk⟩ := List.any_eq_true.mp hany
    rw [Option.isSome_iff_ne_none, ne_eq, objFind_eq_none_iff ht]
    intro hall
    simp [hall c hc] at hk
  have hsome : (n.look [k]).isSome := by
    obtain ⟨c, hc⟩ := Option.isSome_iff_exists.mp hfind
    simp [CfgNode.look_cons, hc]
  rw [Store.del, if_pos hsome]
  congr 1
  funext p
  cases p with
  | nil => simp [Store.remove, CfgNode.cell, ht]
  | cons j p =>
    rw [CfgNode.look_cons, objFind_eraseP h ht]
    by_cases hj : j = k
    · subst hj
      simp [Store.remove, List.cons_prefix_cons]
    · simp [Store.remove, List.cons_prefix_cons, hj, Ne.symm hj, CfgNode.look_cons]

theorem delArr_look {n : CfgNode} {i : Int} (hrc : (delArr n i).1 = none) :
    n.look.del [] (.index i) = some (delArr n i).2.look := by
  unfold delArr at hrc ⊢
  rw [arrIdx_eq] at hrc ⊢
  by_cases ht : n.type = .arr
  · rw [if_neg (not_not.mpr ht)] at hrc ⊢
    cases hp : position n.child.length i with
    | none => simp [hp] at hrc
    | some j =>
      have hj := position_lt hp
      simp only [Nat.not_le.mpr hj, if_false, Store.del, CfgNode.look_nil, CfgNode.cell_arr ht,
        List.length_map, hp, Option.map_some]
      rw [@look_of_ne_obj n { n with child := n.child.eraseIdx j } (by simp [ht]) (by simp [ht]),
        CfgNode.cell_arr (by exact ht), List.eraseIdx_map]
  · simp [ht] at hrc

/-- **A deletion is a deletion of the store.** -/
theorem delToks_look {d : Nat} {n : CfgNode} (h : n.Wf d) {toks : List Tok}
    (hrc : (delToks toks n).1 = none) :
    ∃ p leaf, splitToks toks = some (p, leaf) ∧
      n.look.del p leaf = some (delToks toks n).2.look := by
  induction toks generalizing n d with
  | nil => cases hrc
  | cons t toks ih =>
    by_cases htoks : toks = []
    · subst htoks
      cases t with
      | key k =>
        by_cases ht : n.type = .obj
        · have hdel : delToks [.key k] n = delPlain n k := by
            simp only [delToks, ht, ne_eq, not_true_eq_false, if_false]
          rw [hdel] at hrc ⊢
          exact ⟨[k], .plain, rfl, delPlain_look h ht hrc⟩
        · simp [delToks, ht] at hrc
      | append => cases hrc
      | index i => exact ⟨[], .index i, rfl, delArr_look hrc⟩
    · obtain ⟨t', toks, rfl⟩ := List.exists_cons_of_ne_nil htoks
      cases t with
      | append => cases hrc
      | index i =>
        -- behind an index there are only strings, which refuse every path
        simp only [delToks, atIndex] at hrc
        split_ifs at hrc with ht
        split at hrc
        · cases hrc
        · split at hrc
          · cases hrc
          · rename_i ho
            obtain ⟨l₁, a, l₂, hs, -, rfl, -⟩ := onNth_eq_some ho
            exact absurd hrc (delToks_of_str (h.entry (not_not.mp ht) (by simp [hs])) _)
      | key k =>
        simp only [delToks] at hrc ⊢
        split_ifs at hrc ⊢ with ht
        rw [ne_eq, not_not] at ht
        cases ho : onFirst (hasName k) (delToks (t' :: toks)) n.child with
        | none => simp [ho] at hrc
        | some r =>
          obtain ⟨rc, cs⟩ := r
          obtain ⟨l₁, a, l₂, hs, hl, ha, rfl, rfl⟩ := onFirst_eq_some ho
          simp only [ho] at hrc ⊢
          have hfind : objFind n k = some a := objFind_of_split ht hs hl ha
          obtain ⟨p, leaf, hsplit, hdel⟩ := ih (h.child_wf (by simp [hs])) hrc
          have hbelow : a.look = fun q => n.look (k :: q) := by
            funext q
            simp [CfgNode.look_cons, hfind]
          refine ⟨k :: p, leaf, by simp [splitToks, hsplit], ?_⟩
          rw [look_eq_graft ht (by exact ht)
            (objFind_replace ht hs hl ha (delToks_name_type _ a).1)]
          rw [hbelow] at hdel
          exact graft_del (by rw [CfgNode.look_nil, CfgNode.cell_obj ht]) hdel

end Netrec
