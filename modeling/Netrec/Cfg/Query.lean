import Netrec.CLib.Store
import Netrec.Cfg.Tree

/-!
# Reading the configuration tree

Queries walk down from the root along the tokens of a path. What they can see of a tree is a
hierarchical store: each list of keys leads to a string, an array of strings, an object or nothing.

## Main definitions

* `walkGet`, `cfgGetNode`, `cfgGetStr`, `cfgArrLen`: the queries
* `CfgNode.look`: the store a tree stands for
* `splitToks`: the address and the last step of a path

## Main results

* `walkGet_str_iff`: what queries see of a tree is its store
-/

namespace Netrec

open CLib

/-! ## Queries -/

/-- `arr_nth`. -/
def arrNth (arr : CfgNode) (idx : Nat) : Option CfgNode := arr.child[idx]?

/-- The walk of `walk_get`. -/
def walkGet : List Tok → CfgNode → Except Errno CfgNode
  | [], cur => .ok cur
  | .append :: _, _ => .error .EINVAL
  | .key k :: toks, cur =>
    if cur.type ≠ .obj then .error .ENOTDIR
    else
      match objFind cur k with
      | none => .error .ENOENT
      | some child => walkGet toks child
  | .index i :: toks, cur =>
    if cur.type ≠ .arr then .error .ENOTDIR
    else
      match arrIdx cur i with
      | .error e => .error e
      | .ok idx =>
        match arrNth cur idx with
        | none => .error .ENOENT
        | some child => walkGet toks child

/-- `cfg_get_node`. -/
def cfgGetNode (cfg : CfgNode) (path : CStr) : Except Errno CfgNode :=
  if path = [] then .ok cfg
  else do
    let toks ← parsePath CFG_PATH_DEPTH_MAX path
    walkGet toks cfg

/-- `cfg_get_str`. -/
def cfgGetStr (cfg : CfgNode) (path : CStr) : Except Errno CStr := do
  let node ← cfgGetNode cfg path
  if node.type ≠ .str then .error .EISDIR else .ok (node.val.getD [])

/-- `cfg_arr_len`. -/
def cfgArrLen (cfg : CfgNode) (path : CStr) : Except Errno Nat := do
  let node ← cfgGetNode cfg path
  if node.type ≠ .arr then .error .ENOTDIR else .ok node.child.length

/-- The empty path has no tokens, and leads to the root. -/
theorem cfgGetNode_eq (cfg : CfgNode) (path : CStr) :
    cfgGetNode cfg path = parsePath CFG_PATH_DEPTH_MAX path >>= fun toks => walkGet toks cfg := by
  unfold cfgGetNode
  split_ifs with h
  · subst h
    rfl
  · rfl

theorem arrIdx_eq (arr : CfgNode) (i : Int) :
    arrIdx arr i =
      if arr.type ≠ .arr then .error .ENOTDIR
      else match position arr.child.length i with
        | none => .error .ENOENT
        | some j => .ok j := by
  unfold arrIdx position
  split_ifs <;> first | rfl | omega

/-! ## The store of a tree -/

namespace CfgNode

/-- The cell a node stands for. -/
def cell (n : CfgNode) : Cell CStr :=
  match n.type with
  | .str => .str (n.val.getD [])
  | .arr => .arr (n.child.map fun c => c.val.getD [])
  | .obj => .obj

/-- The node that a list of keys leads to. -/
def nodeAt : List CStr → CfgNode → Option CfgNode
  | [], n => some n
  | k :: p, n => (objFind n k).bind (nodeAt p)

/-- The store a tree stands for. -/
def look (n : CfgNode) : Store CStr CStr := fun p => (nodeAt p n).map cell

@[simp] theorem look_nil (n : CfgNode) : n.look [] = some n.cell := rfl

theorem look_cons (n : CfgNode) (k : CStr) (p : List CStr) :
    n.look (k :: p) = (objFind n k).bind fun c => c.look p := by
  cases h : objFind n k <;> simp [look, nodeAt, h]

theorem cell_eq_obj {n : CfgNode} : n.cell = .obj ↔ n.type = .obj := by
  cases h : n.type <;> simp [cell, h]

theorem cell_str {n : CfgNode} (h : n.type = .str) : n.cell = .str (n.val.getD []) := by
  simp [cell, h]

theorem cell_arr {n : CfgNode} (h : n.type = .arr) :
    n.cell = .arr (n.child.map fun c => c.val.getD []) := by
  simp [cell, h]

theorem cell_obj {n : CfgNode} (h : n.type = .obj) : n.cell = .obj := cell_eq_obj.mpr h

/-- Only objects have anything below them. -/
theorem look_cons_of_ne_obj {n : CfgNode} (h : n.type ≠ .obj) (k : CStr) (p : List CStr) :
    n.look (k :: p) = none := by
  simp [look_cons, objFind, h]

/-- Everything above an address in use is an object. -/
theorem look_of_append {n : CfgNode} {p q : List CStr} (h : n.look (p ++ q) ≠ none)
    (hq : q ≠ []) : n.look p = some .obj := by
  induction p generalizing n with
  | nil =>
    obtain ⟨k, q, rfl⟩ := List.exists_cons_of_ne_nil hq
    by_contra hne
    refine h (look_cons_of_ne_obj (fun ht => hne ?_) k q)
    rw [look_nil, cell_obj ht]
  | cons k p ih =>
    rw [List.cons_append, look_cons] at h
    rw [look_cons]
    cases hk : objFind n k with
    | none => simp [hk] at h
    | some c =>
      rw [hk] at h
      exact ih h

end CfgNode

/-- The address of a path and its last step; `none` for a path that goes on behind an index or an
append. -/
def splitToks : List Tok → Option (List CStr × Leaf)
  | [] => none
  | [.key k] => some ([k], .plain)
  | [.append] => some ([], .append)
  | [.index i] => some ([], .index i)
  | .key k :: t :: toks => (splitToks (t :: toks)).map fun r => (k :: r.1, r.2)
  | _ :: _ :: _ => none

/-- The token of a last step. -/
def leafToks : Leaf → List Tok
  | .plain => []
  | .append => [.append]
  | .index i => [.index i]

theorem splitToks_key_cons (k : CStr) {toks : List Tok} (h : toks ≠ []) :
    splitToks (.key k :: toks) = (splitToks toks).map fun r => (k :: r.1, r.2) := by
  obtain ⟨t, toks, rfl⟩ := List.exists_cons_of_ne_nil h
  rfl

theorem splitToks_append {p : List CStr} {leaf : Leaf} (h : leaf = .plain → p ≠ []) :
    splitToks (p.map .key ++ leafToks leaf) = some (p, leaf) := by
  induction p with
  | nil =>
    cases leaf with
    | plain => exact absurd rfl (h rfl)
    | append => rfl
    | index i => rfl
  | cons k p ih =>
    by_cases hp : p = [] ∧ leaf = .plain
    · obtain ⟨rfl, rfl⟩ := hp
      rfl
    · have hne : p.map Tok.key ++ leafToks leaf ≠ [] := by
        cases leaf <;> simp_all [leafToks]
      rw [List.map_cons, List.cons_append, splitToks_key_cons k hne,
        ih fun hl hp' => hp ⟨hp', hl⟩]
      rfl

theorem splitToks_index (p : List CStr) (i : Int) :
    splitToks (p.map .key ++ [.index i]) = some (p, .index i) :=
  @splitToks_append p (.index i) (by simp)

theorem toks_eq_of_splitToks {toks : List Tok} {p : List CStr} {leaf : Leaf}
    (h : splitToks toks = some (p, leaf)) :
    toks = p.map .key ++ leafToks leaf ∧ (leaf = .plain → p ≠ []) := by
  fun_induction splitToks toks generalizing p with
  | case1 => cases h
  | case2 k =>
    cases h
    simp [leafToks]
  | case3 =>
    cases h
    simp [leafToks]
  | case4 i =>
    cases h
    simp [leafToks]
  | case5 k t toks ih =>
    obtain ⟨⟨p', leaf'⟩, hr, he⟩ := Option.map_eq_some_iff.mp h
    obtain ⟨rfl, rfl⟩ : k :: p' = p ∧ leaf' = leaf := by simpa using he
    obtain ⟨htoks, -⟩ := ih hr
    exact ⟨by rw [htoks]; rfl, fun _ => by simp⟩
  | case6 => cases h

/-! ## Queries see the store -/

/-- The string that a last step finds in a cell. -/
def readLeaf : Leaf → Option (Cell CStr) → Option CStr
  | .plain, some (.str s) => some s
  | .index i, some (.arr vs) => (position vs.length i).bind fun j => vs[j]?
  | _, _ => none

/-- A string is the end of every walk. -/
theorem walkGet_of_str {n : CfgNode} (h : n.type = .str) {toks : List Tok} (hne : toks ≠ []) :
    ∃ e, walkGet toks n = .error e := by
  cases toks with
  | nil => exact absurd rfl hne
  | cons t toks => cases t <;> simp [walkGet, h]

theorem CfgNode.Wf.entry {d : Nat} {n c : CfgNode} (h : n.Wf d) (ht : n.type = .arr)
    (hc : c ∈ n.child) : c.type = .str :=
  (h.entries ht c hc).2

theorem objFind_mem {n c : CfgNode} {k : CStr} (h : objFind n k = some c) :
    n.type = .obj ∧ c ∈ n.child ∧ c.name = some k := by
  unfold objFind at h
  split_ifs at h with ht
  refine ⟨not_not.mp ht, List.mem_of_find?_eq_some h, ?_⟩
  simpa [hasName] using List.find?_some h

theorem readLeaf_plain {n : CfgNode} {s : CStr} :
    readLeaf .plain (some n.cell) = some s ↔ n.type = .str ∧ n.val.getD [] = s := by
  cases h : n.type <;> simp [readLeaf, CfgNode.cell, h]

theorem readLeaf_index {n : CfgNode} {i : Int} {s : CStr} :
    readLeaf (.index i) (some n.cell) = some s ↔
      n.type = .arr ∧ ∃ j, position n.child.length i = some j ∧
        ∃ c, arrNth n j = some c ∧ c.val.getD [] = s := by
  cases h : n.type <;> simp [readLeaf, CfgNode.cell, h, arrNth, Option.bind_eq_some_iff]

theorem walkGet_key {n : CfgNode} {k : CStr} {toks : List Tok} {c : CfgNode} :
    walkGet (.key k :: toks) n = .ok c ↔ ∃ b, objFind n k = some b ∧ walkGet toks b = .ok c := by
  constructor
  · intro h
    simp only [walkGet] at h
    split_ifs at h
    cases hk : objFind n k with
    | none => simp [hk] at h
    | some b => exact ⟨b, rfl, by simpa [hk] using h⟩
  · rintro ⟨b, hb, h⟩
    simp [walkGet, (objFind_mem hb).1, hb, h]

theorem walkGet_index {n : CfgNode} {i : Int} {toks : List Tok} {c : CfgNode} :
    walkGet (.index i :: toks) n = .ok c ↔
      n.type = .arr ∧ ∃ j, position n.child.length i = some j ∧
        ∃ b, arrNth n j = some b ∧ walkGet toks b = .ok c := by
  by_cases ht : n.type = .arr
  · simp only [walkGet, ht, ne_eq, not_true_eq_false, if_false, arrIdx_eq, true_and]
    cases position n.child.length i with
    | none => simp
    | some j =>
      cases hj : arrNth n j with
      | none => simp [hj]
      | some b => simp [hj]
  · simp [walkGet, ht]

/-- **What a query for a string sees of a tree is its store.** -/
theorem walkGet_str_iff {d : Nat} {n : CfgNode} (h : n.Wf d) {toks : List Tok} (hne : toks ≠ [])
    {s : CStr} :
    (∃ c, walkGet toks n = .ok c ∧ c.type = .str ∧ c.val.getD [] = s) ↔
      ∃ p leaf, splitToks toks = some (p, leaf) ∧ readLeaf leaf (n.look p) = some s := by
  induction toks generalizing n d with
  | nil => exact absurd rfl hne
  | cons t toks ih =>
    cases t with
    | append =>
      -- an append is never read
      have hread : ∀ {p leaf}, splitToks (.append :: toks) = some (p, leaf) → leaf = .append := by
        intro p leaf hs
        cases toks with
        | nil => cases hs; rfl
        | cons _ _ => cases hs
      constructor
      · rintro ⟨c, hc, -⟩
        cases hc
      · rintro ⟨p, leaf, hs, hr⟩
        rw [hread hs] at hr
        cases hr
    | key k =>
      simp only [walkGet_key]
      by_cases htoks : toks = []
      · subst htoks
        cases hk : objFind n k with
        | none => simp [splitToks, CfgNode.look_cons, hk, readLeaf]
        | some b => simp [splitToks, CfgNode.look_cons, hk, walkGet, readLeaf_plain]
      · rw [splitToks_key_cons k htoks]
        cases hk : objFind n k with
        | none =>
          refine iff_of_false (by simp) ?_
          rintro ⟨p, leaf, hs, hr⟩
          obtain ⟨⟨p', leaf'⟩, -, he⟩ := Option.map_eq_some_iff.mp hs
          obtain ⟨rfl, rfl⟩ : k :: p' = p ∧ leaf' = leaf := by simpa using he
          rw [CfgNode.look_cons, hk] at hr
          cases leaf' <;> cases hr
        | some b =>
          have ih' := ih (h.child_wf (objFind_mem hk).2.1) htoks
          simp only [Option.some.injEq, exists_eq_left']
          rw [ih']
          constructor
          · rintro ⟨p, leaf, hs, hr⟩
            exact ⟨k :: p, leaf, by simp [hs], by simpa [CfgNode.look_cons, hk] using hr⟩
          · rintro ⟨p, leaf, hs, hr⟩
            obtain ⟨⟨p', leaf'⟩, hs', he⟩ := Option.map_eq_some_iff.mp hs
            obtain ⟨rfl, rfl⟩ : k :: p' = p ∧ leaf' = leaf := by simpa using he
            exact ⟨p', leaf', hs', by simpa [CfgNode.look_cons, hk] using hr⟩
    | index i =>
      simp only [walkGet_index]
      by_cases htoks : toks = []
      · subst htoks
        have hentry : ∀ {j c}, n.type = .arr → arrNth n j = some c → c.type = .str :=
          fun ht hc => h.entry ht (List.mem_of_getElem? hc)
        constructor
        · rintro ⟨c, ⟨ht, j, hj, b, hb, hw⟩, -, hs⟩
          obtain rfl : b = c := Except.ok.inj hw
          exact ⟨[], .index i, rfl, readLeaf_index.mpr ⟨ht, j, hj, b, hb, hs⟩⟩
        · rintro ⟨p, leaf, hs, hr⟩
          obtain ⟨rfl, rfl⟩ : [] = p ∧ Leaf.index i = leaf := by simpa [splitToks] using hs
          obtain ⟨ht, j, hj, b, hb, hs⟩ := readLeaf_index.mp hr
          exact ⟨b, ⟨ht, j, hj, b, hb, rfl⟩, hentry ht hb, hs⟩
      · -- the entries of an array are strings, so nothing lies behind an index
        have hsplit : splitToks (.index i :: toks) = none := by
          obtain ⟨t, toks, rfl⟩ := List.exists_cons_of_ne_nil htoks
          rfl
        refine iff_of_false ?_ (by simp [hsplit])
        rintro ⟨c, ⟨ht, j, -, b, hb, hw⟩, -⟩
        obtain ⟨e, he⟩ := walkGet_of_str (h.entry ht (List.mem_of_getElem? hb)) htoks
        rw [he] at hw
        cases hw

/-- A query along keys reaches the node at that address. -/
theorem walkGet_keys {p : List CStr} {n c : CfgNode} :
    walkGet (p.map .key) n = .ok c ↔ CfgNode.nodeAt p n = some c := by
  induction p generalizing n with
  | nil => simp [walkGet, CfgNode.nodeAt]
  | cons k p ih => simp [walkGet_key, CfgNode.nodeAt, Option.bind_eq_some_iff, ih]

theorem cell_eq_arr {n : CfgNode} {vs : List CStr} :
    n.cell = .arr vs ↔ n.type = .arr ∧ (n.child.map fun c => c.val.getD []) = vs := by
  cases h : n.type <;> simp [CfgNode.cell, h]

/-- **`cfg_get_str` reads the store.** -/
theorem cfgGetStr_iff {cfg : CfgNode} (h : WfRoot cfg) {path : CStr} {toks : List Tok}
    (hp : parsePath CFG_PATH_DEPTH_MAX path = .ok toks) {s : CStr} :
    cfgGetStr cfg path = .ok s ↔
      ∃ p leaf, splitToks toks = some (p, leaf) ∧ readLeaf leaf (cfg.look p) = some s := by
  have hget : cfgGetStr cfg path = .ok s ↔
      ∃ c, walkGet toks cfg = .ok c ∧ c.type = .str ∧ c.val.getD [] = s := by
    simp only [cfgGetStr, cfgGetNode_eq, hp, ok_bind, bind_eq_ok]
    refine exists_congr fun c => and_congr_right fun _ => ?_
    by_cases ht : c.type = .str <;> simp [ht]
  rw [hget]
  by_cases hne : toks = []
  · subst hne
    refine iff_of_false ?_ (by simp [splitToks])
    rintro ⟨c, hc, ht, -⟩
    obtain rfl := Except.ok.inj hc
    simp [h.type] at ht
  · exact walkGet_str_iff h.wf hne

end Netrec
