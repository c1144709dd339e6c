import Netrec.Cfg.Grammar
import Netrec.Cfg.Writes

/-!
# Laws of the configuration tree

The calls of the configuration tree are those of a store: what a call writes is read back, other
paths are left alone, and indices that stand for the same entry may be exchanged. Two paths lead to
the same node when the walks along them pass through the same positions.

## Main definitions

* `Reachable`: the trees that calls build
* `locate cfg path`: the place of the node a path leads to
* `IsStep p q t`: the path `p` is the path `q` followed by the step `t`
* `SetLaws`, `AppendLaws`, `DelKeyLaws`, `DelIndexLaws`: what a call that succeeds does

## Main results

* `store_laws`: the laws of the store
-/

namespace Netrec

open CLib

/-- A tree that calls of `cfg_set_str` and `cfg_del` build from the empty one. -/
def Reachable (cfg : CfgNode) : Prop :=
  ∃ ops : List CfgOp, (∀ op ∈ ops, op.NulFree) ∧ cfg = CfgOp.run ops

theorem Reachable.wf {cfg : CfgNode} (h : Reachable cfg) : WfRoot cfg := by
  obtain ⟨ops, hv, rfl⟩ := h
  exact CfgOp.run_wf hv

/-! ## The laws -/

/-- The place a walk leads to: the positions of the children it passes through. -/
def locateToks : List Tok → CfgNode → Option (List Nat)
  | [], _ => some []
  | .append :: _, _ => none
  | .key k :: toks, cur =>
    match objFind cur k with
    | none => none
    | some child => (locateToks toks child).map (cur.child.findIdx (hasName k) :: ·)
  | .index i :: toks, cur =>
    match arrIdx cur i with
    | .error _ => none
    | .ok idx =>
      match arrNth cur idx with
      | none => none
      | some child => (locateToks toks child).map (idx :: ·)

/-- The place of the node a path leads to. -/
def locate (cfg : CfgNode) (path : CStr) : Option (List Nat) :=
  match parsePath CFG_PATH_DEPTH_MAX path with
  | .error _ => none
  | .ok toks => locateToks toks cfg

/-- A path gives a string in one tree exactly when it gives the same string in the other. -/
def SameString (cfg cfg' : CfgNode) (path : CStr) : Prop :=
  ∀ s, cfgGetStr cfg' path = .ok s ↔ cfgGetStr cfg path = .ok s

/-- The path `p` is the path `q` followed by the step `t`. -/
def IsStep (p q : CStr) (t : Tok) : Prop :=
  ∃ qt, parsePath CFG_PATH_DEPTH_MAX q = .ok qt ∧ parsePath CFG_PATH_DEPTH_MAX p = .ok (qt ++ [t])

/-- The steps of the path `p` are the first steps of the path `p'`. -/
def IsPrefix (p p' : CStr) : Prop :=
  ∃ toks toks', parsePath CFG_PATH_DEPTH_MAX p = .ok toks ∧
    parsePath CFG_PATH_DEPTH_MAX p' = .ok toks' ∧ toks <+: toks'

/-- The paths differ in one index, and both indices stand for the same element. -/
def SameElement (cfg : CfgNode) (p p' : CStr) : Prop :=
  ∃ pre i j rest arr idx, parsePath CFG_PATH_DEPTH_MAX p = .ok (pre ++ .index i :: rest) ∧
    parsePath CFG_PATH_DEPTH_MAX p' = .ok (pre ++ .index j :: rest) ∧
    walkGet pre cfg = .ok arr ∧ arrIdx arr i = .ok idx ∧ arrIdx arr j = .ok idx

/-- What a write of `v` to `p` does that is no append: `p` gives `v`, and every path that does not
lead to the node written to gives what it gave. -/
structure SetLaws (cfg cfg' : CfgNode) (p v : CStr) : Prop where
  written : cfgGetStr cfg' p = .ok v
  frame : ∀ p', locate cfg' p' ≠ locate cfg' p → SameString cfg cfg' p'

/-- What an append of `v` to the array at `q` does: the array, possibly new, has one entry more, the
last one is `v` and the others are as before, and every other path that is not a negative index into
the array gives what it gave. -/
structure AppendLaws (cfg cfg' : CfgNode) (q v : CStr) : Prop where
  grows : ∃ n, (cfgArrLen cfg q = .ok n ∨ n = 0 ∧ cfgGetNode cfg q = .error .ENOENT) ∧
    cfgArrLen cfg' q = .ok (n + 1) ∧
    ∀ i < n, ∀ p', IsStep p' q (.index i) → ∃ s, cfgGetStr cfg p' = .ok s ∧ cfgGetStr cfg' p' = .ok s
  last : cfgGetStr cfg' (q ++ "[-1]".toList) = .ok v
  frame : ∀ p', locate cfg' p' ≠ locate cfg' (q ++ "[-1]".toList) →
    (∀ i < 0, ¬ IsStep p' q (.index i)) → SameString cfg cfg' p'

/-- What a deletion of `p`, which ends in a key, does: nothing is left at `p`, and every path that
does not continue `p` gives what it gave. -/
structure DelKeyLaws (cfg cfg' : CfgNode) (p : CStr) : Prop where
  gone : cfgGetNode cfg' p = .error .ENOENT
  frame : ∀ p', ¬ IsPrefix p p' → SameString cfg cfg' p'

/-- A node without what is below it: its own fields and the names of its children. -/
def CfgNode.outline (n : CfgNode) : CfgType × Option CStr × Option CStr × List (Option CStr) :=
  (n.type, n.name, n.val, n.child.map CfgNode.name)

/-- What a deletion of the entry `i` of the array at `q` does: the array loses that entry, every
path that is not an index into the array gives the string it gave, every node that is neither above
the array nor in it is the node it was, and the nodes above the array keep their outline. -/
structure DelIndexLaws (cfg cfg' : CfgNode) (q : CStr) (i : Int) : Prop where
  erased : ∃ arr idx, cfgGetNode cfg q = .ok arr ∧ arrIdx arr i = .ok idx ∧
    cfgGetNode cfg' q = .ok { arr with child := arr.child.eraseIdx idx }
  frame : ∀ p', (∀ j, ¬ IsStep p' q (.index j)) → SameString cfg cfg' p'
  outside : ∀ p', ¬ IsPrefix q p' → ¬ IsPrefix p' q → cfgGetNode cfg' p' = cfgGetNode cfg p'
  above : ∀ p' n, IsPrefix p' q → ¬ IsPrefix q p' → cfgGetNode cfg p' = .ok n →
    ∃ n', cfgGetNode cfg' p' = .ok n' ∧ n'.outline = n.outline

/-! ## Indices of the same element -/

section Congr

variable {n c : CfgNode} {pre : List Tok} {i j : Int} {arr : CfgNode}

theorem enterKey_congr {k : CStr} {want : CfgType} {f g : CfgNode → Rc × CfgNode}
    (hk : objFind n k = some c) (hfg : f c = g c) : enterKey n k want f = enterKey n k want g := by
  obtain ⟨l₁, l₂, hs, hl, hc⟩ := exists_split_of_objFind hk
  have ht := (objFind_mem hk).1
  rw [enterKey_of_split ht hs hl hc, enterKey_of_split ht hs hl hc, hfg]

theorem onNth_congr {f g : CfgNode → Rc × CfgNode} {m : Nat} (hc : arrNth n m = some c)
    (hfg : f c = g c) : onNth f m n.child = onNth g m n.child := by
  obtain ⟨hm, rfl⟩ := List.getElem?_eq_some_iff.mp hc
  have hs : n.child = n.child.take m ++ n.child[m] :: n.child.drop (m + 1) := by simp
  have hlen : (n.child.take m).length = m := by simp; omega
  rw [hs, onNth_append hlen, onNth_append hlen, hfg]

theorem atIndex_congr {f g : CfgNode → Rc × CfgNode} {m : Nat} (hi : arrIdx n i = .ok m)
    (hc : arrNth n m = some c) (hfg : f c = g c) : atIndex n i f = atIndex n i g := by
  simp only [atIndex, hi, onNth_congr hc hfg]

/-- **Walks see an index only through the position it stands for.** A walk that works on the child
it steps into, and at a key looks at most at the kind of the step behind it, does not tell two
indices of the same element apart. -/
theorem walk_congr {α : Type} {walk : List Tok → CfgNode → α}
    (hbase : ∀ n rest, arrIdx n i = arrIdx n j → walk (.index i :: rest) n = walk (.index j :: rest) n)
    (hkey : ∀ n k c t l t' l', objFind n k = some c → wantType t = wantType t' →
      walk (t :: l) c = walk (t' :: l') c → walk (.key k :: t :: l) n = walk (.key k :: t' :: l') n)
    (hidx : ∀ n m idx c t l t' l', arrIdx n m = .ok idx → arrNth n idx = some c →
      walk (t :: l) c = walk (t' :: l') c →
      walk (.index m :: t :: l) n = walk (.index m :: t' :: l') n)
    (hw : walkGet pre n = .ok arr) (hij : arrIdx arr i = arrIdx arr j) (rest : List Tok) :
    walk (pre ++ .index i :: rest) n = walk (pre ++ .index j :: rest) n := by
  induction pre generalizing n with
  | nil =>
    obtain rfl := Except.ok.inj hw
    exact hbase _ rest hij
  | cons s pre ih =>
    -- the steps behind this one start with the same step, or with an index on both sides
    obtain ⟨t, l, t', l', hl, hl', htt⟩ : ∃ t l t' l', pre ++ .index i :: rest = t :: l ∧
        pre ++ .index j :: rest = t' :: l' ∧ wantType t = wantType t' := by
      cases pre with
      | nil => exact ⟨_, _, _, _, rfl, rfl, rfl⟩
      | cons t pre => exact ⟨_, _, _, _, rfl, rfl, rfl⟩
    simp only [List.cons_append, hl, hl'] at ih ⊢
    cases s with
    | append => cases hw
    | key k =>
      obtain ⟨b, hb, hw'⟩ := walkGet_key.mp hw
      exact hkey n k b t l t' l' hb htt (ih hw')
    | index m =>
      obtain ⟨ht, idx, hm, b, hb, hw'⟩ := walkGet_index.mp hw
      have hm' : arrIdx n m = .ok idx := by simp [arrIdx_eq, ht, hm]
      exact hidx n m idx b t l t' l' hm' hb (ih hw')

theorem walkGet_index_congr (hw : walkGet pre n = .ok arr) (hij : arrIdx arr i = arrIdx arr j)
    (rest : List Tok) :
    walkGet (pre ++ .index i :: rest) n = walkGet (pre ++ .index j :: rest) n := by
  refine walk_congr ?_ ?_ ?_ hw hij rest
  · intro n rest h
    simp only [walkGet, h]
  · intro n k c t l t' l' hc _ h
    rw [walkGet, walkGet, hc]
    simp only [h]
  · intro n m idx c t l t' l' hm hc h
    rw [walkGet, walkGet, hm]
    simp only [hc, h]

theorem locateToks_index_congr (hw : walkGet pre n = .ok arr) (hij : arrIdx arr i = arrIdx arr j)
    (rest : List Tok) :
    locateToks (pre ++ .index i :: rest) n = locateToks (pre ++ .index j :: rest) n := by
  refine walk_congr ?_ ?_ ?_ hw hij rest
  · intro n rest h
    simp only [locateToks, h]
  · intro n k c t l t' l' hc _ h
    rw [locateToks, locateToks, hc]
    simp only [h]
  · intro n m idx c t l t' l' hm hc h
    rw [locateToks, locateToks, hm]
    simp only [hc, h]

theorem setToks_index_congr (hw : walkGet pre n = .ok arr) (hij : arrIdx arr i = arrIdx arr j)
    (rest : List Tok) (v : CStr) :
    setToks v (pre ++ .index i :: rest) n = setToks v (pre ++ .index j :: rest) n := by
  refine walk_congr ?_ ?_ ?_ hw hij rest
  · intro n rest h
    cases rest with
    | nil => simp only [setToks, setArrIdx, h]
    | cons t rest => simp only [setToks, atIndex, h]
  · intro n k c t l t' l' hc htt h
    rw [setToks, setToks, htt]
    exact enterKey_congr hc h
  · intro n m idx c t l t' l' hm hc h
    exact atIndex_congr hm hc h

theorem delToks_index_congr (hw : walkGet pre n = .ok arr) (hij : arrIdx arr i = arrIdx arr j)
    (rest : List Tok) :
    delToks (pre ++ .index i :: rest) n = delToks (pre ++ .index j :: rest) n := by
  refine walk_congr ?_ ?_ ?_ hw hij rest
  · intro n rest h
    cases rest with
    | nil => simp only [delToks, delArr, h]
    | cons t rest => simp only [delToks, atIndex, h]
  · intro n k c t l t' l' hc _ h
    obtain ⟨l₁, l₂, hs, hl, hn⟩ := exists_split_of_objFind hc
    simp only [delToks, hs, onFirst_append_of_forall_not l₂ hl hn, h]
  · intro n m idx c t l t' l' hm hc h
    exact atIndex_congr hm hc h

/-- **Indices of the same element may be exchanged.** -/
theorem SameElement.calls_eq {cfg : CfgNode} {p p' : CStr} (h : SameElement cfg p p') (v : CStr) :
    cfgGetNode cfg p = cfgGetNode cfg p' ∧ cfgGetStr cfg p = cfgGetStr cfg p' ∧
      cfgSetStr cfg p v = cfgSetStr cfg p' v ∧ cfgDel cfg p = cfgDel cfg p' := by
  obtain ⟨pre, i, j, rest, arr, idx, hp, hp', hw, hi, hj⟩ := h
  have hij : arrIdx arr i = arrIdx arr j := hi.trans hj.symm
  have hnode : cfgGetNode cfg p = cfgGetNode cfg p' := by
    simp only [cfgGetNode_eq, hp, hp', ok_bind, walkGet_index_congr hw hij rest]
  refine ⟨hnode, by rw [cfgGetStr, cfgGetStr, hnode], ?_, ?_⟩
  · simp only [cfgSetStr, hp, hp', setToks_index_congr hw hij rest v]
  · simp only [cfgDel, hp, hp', delToks_index_congr hw hij rest]

end Congr

/-! ## What calls do to the store -/

section Store

variable {cfg cfg' : CfgNode} {p v : CStr}

@[simp] theorem readLeaf_none (leaf : Leaf) : readLeaf leaf none = none := by
  cases leaf <;> rfl

@[simp] theorem readLeaf_obj (leaf : Leaf) : readLeaf leaf (some .obj) = none := by
  cases leaf <;> rfl

/-- What a path reads in the store decides what it gives. -/
theorem sameString_of_readLeaf (h : WfRoot cfg) (h' : WfRoot cfg')
    (hr : ∀ toks a leaf, parsePath CFG_PATH_DEPTH_MAX p = .ok toks →
      splitToks toks = some (a, leaf) → readLeaf leaf (cfg'.look a) = readLeaf leaf (cfg.look a)) :
    SameString cfg cfg' p := by
  intro s
  cases hp : parsePath CFG_PATH_DEPTH_MAX p with
  | error e => simp [cfgGetStr, cfgGetNode_eq, hp, bind, Except.bind]
  | ok toks =>
    rw [cfgGetStr_iff h' hp, cfgGetStr_iff h hp]
    refine exists_congr fun a => exists_congr fun leaf => and_congr_right fun hs => ?_
    rw [hr toks a leaf hp hs]

/-- A write changes what is read at its own address only. -/
theorem readLeaf_put {s : Store CStr CStr} {a a' : List CStr} (hc : s.Clear a) (c : Cell CStr)
    (hne : a' ≠ a) (leaf : Leaf) : readLeaf leaf (s.put a c a') = readLeaf leaf (s a') := by
  by_cases hpre : a' <+: a
  · rw [s.put_of_prefix c hpre hne]
    obtain h | h := hc a' hpre hne
    · rw [h, readLeaf_obj, readLeaf_none]
    · rw [h]
  · rw [s.put_of_not_prefix c hpre]

/-- A write that succeeds, on the store. -/
theorem cfgSetStr_store (h : WfRoot cfg) (hrc : (cfgSetStr cfg p v).1 = none) :
    ∃ toks a leaf c, parsePath CFG_PATH_DEPTH_MAX p = .ok toks ∧
      splitToks toks = some (a, leaf) ∧ cfg.look.Clear a ∧ leaf.apply v (cfg.look a) = some c ∧
      (cfgSetStr cfg p v).2.look = cfg.look.put a c := by
  cases hp : parsePath CFG_PATH_DEPTH_MAX p with
  | error e => simp [cfgSetStr, hp] at hrc
  | ok toks =>
    have hset : cfgSetStr cfg p v = setToks v toks cfg := by simp only [cfgSetStr, hp]
    rw [hset] at hrc ⊢
    obtain ⟨a, leaf, c, hs, hc, ha⟩ := (writesStore h.wf v toks).1 hrc
    exact ⟨toks, a, leaf, c, rfl, hs, hc, ha, ((writesStore h.wf v toks).2 a leaf c hs hc ha).2⟩

/-- A deletion that succeeds, on the store. -/
theorem cfgDel_store (h : WfRoot cfg) (hrc : (cfgDel cfg p).1 = none) :
    ∃ toks a leaf, parsePath CFG_PATH_DEPTH_MAX p = .ok toks ∧
      splitToks toks = some (a, leaf) ∧ cfg.look.del a leaf = some (cfgDel cfg p).2.look := by
  cases hp : parsePath CFG_PATH_DEPTH_MAX p with
  | error e => simp [cfgDel, hp] at hrc
  | ok toks =>
    have hdel : cfgDel cfg p = delToks toks cfg := by simp only [cfgDel, hp]
    rw [hdel] at hrc ⊢
    obtain ⟨a, leaf, hs, hd⟩ := delToks_look h.wf hrc
    exact ⟨toks, a, leaf, rfl, hs, hd⟩

/-- A node at an address, as the walk along its keys finds it. -/
theorem exists_node_of_look_arr {a : List CStr} {vs : List CStr}
    (h : cfg.look a = some (.arr vs)) :
    ∃ arr, walkGet (a.map .key) cfg = .ok arr ∧ arr.type = .arr ∧
      (arr.child.map fun c => c.val.getD []) = vs := by
  obtain ⟨arr, harr, hcell⟩ := Option.map_eq_some_iff.mp h
  exact ⟨arr, walkGet_keys.mpr harr, cell_eq_arr.mp hcell⟩

/-- Indices with the same position in the array at an address lead to the same place. -/
theorem locateToks_of_position {a : List CStr} {vs : List CStr} (h : cfg.look a = some (.arr vs))
    {i j : Int} (hij : position vs.length i = position vs.length j) :
    locateToks (a.map .key ++ [.index i]) cfg = locateToks (a.map .key ++ [.index j]) cfg := by
  obtain ⟨arr, hw, ht, hvs⟩ := exists_node_of_look_arr h
  have hlen : arr.child.length = vs.length := by rw [← hvs, List.length_map]
  refine locateToks_index_congr hw ?_ []
  rw [arrIdx_eq, arrIdx_eq, hlen, hij]

/-- A path to a key that is missing below objects finds nothing. -/
theorem walkGet_of_look_none {a : List CStr} (hc : cfg.look.Clear a) (ha : cfg.look a = none) :
    walkGet (a.map .key) cfg = .error .ENOENT := by
  induction a generalizing cfg with
  | nil => simp at ha
  | cons k a ih =>
    obtain ⟨h₀, hc'⟩ := Store.clear_cons.mp hc
    have ht : cfg.type = .obj := by simpa [CfgNode.cell_eq_obj] using h₀
    cases hk : objFind cfg k with
    | none => simp [walkGet, ht, hk]
    | some b =>
      have hbelow : (fun q => cfg.look (k :: q)) = b.look := by
        funext q
        simp [CfgNode.look_cons, hk]
      rw [hbelow] at hc'
      simp only [List.map_cons, walkGet, ht, ne_eq, not_true_eq_false, if_false, hk]
      exact ih hc' (by simpa [CfgNode.look_cons, hk] using ha)

end Store

/-! ## The laws hold -/

section Laws

variable {cfg : CfgNode} {p v : CStr}

/-- Two places are different when the paths to them are told apart. -/
theorem locate_eq {toks : List Tok} (hp : parsePath CFG_PATH_DEPTH_MAX p = .ok toks) :
    locate cfg p = locateToks toks cfg := by
  simp only [locate, hp]

theorem setLaws (h : WfRoot cfg) (hv : '\x00' ∉ v) (hrc : (cfgSetStr cfg p v).1 = none)
    (hp : ¬ "[]".toList <:+ p) : SetLaws cfg (cfgSetStr cfg p v).2 p v := by
  have h' := h.cfgSetStr p hv
  obtain ⟨toks, a, leaf, c, htoks, hsplit, hclear, happ, hlook⟩ := cfgSetStr_store h hrc
  generalize (cfgSetStr cfg p v).2 = cfg' at h' hlook ⊢
  have hself : cfg'.look a = some c := by rw [hlook, Store.put_self]
  cases leaf with
  | append =>
    -- only a path that ends in brackets appends
    rw [(toks_eq_of_splitToks hsplit).1] at htoks
    obtain ⟨q, rfl⟩ := exists_of_parsePath_append htoks
    exact absurd (List.suffix_append q _) hp
  | plain =>
    obtain ⟨hold, rfl⟩ : (cfg.look a = none ∨ ∃ s, cfg.look a = some (.str s)) ∧ c = .str v := by
      cases hs : cfg.look a with
      | none => simpa [hs, Leaf.apply, eq_comm] using happ
      | some b => cases b <;> simp_all [Leaf.apply]
    refine ⟨(cfgGetStr_iff h' htoks).mpr ⟨a, .plain, hsplit, by rw [hself]; rfl⟩, fun p' hne => ?_⟩
    refine sameString_of_readLeaf h h' fun toks' a' leaf' htoks' hsplit' => ?_
    by_cases ha : a' = a
    · subst ha
      cases leaf' with
      | plain =>
        -- the same keys are the same path
        refine absurd ?_ hne
        rw [locate_eq htoks, locate_eq htoks', (toks_eq_of_splitToks hsplit).1,
          (toks_eq_of_splitToks hsplit').1]
      | append => rw [hself]; rcases hold with h | ⟨s, h⟩ <;> rw [h] <;> rfl
      | index i => rw [hself]; rcases hold with h | ⟨s, h⟩ <;> rw [h] <;> rfl
    · rw [hlook, readLeaf_put hclear _ ha]
  | index i =>
    obtain ⟨vs, j, hold, hj, rfl⟩ : ∃ vs j, cfg.look a = some (.arr vs) ∧
        position vs.length i = some j ∧ c = .arr (vs.set j v) := by
      cases hs : cfg.look a with
      | none => simp [hs, Leaf.apply] at happ
      | some b =>
        cases b with
        | str s => simp [hs, Leaf.apply] at happ
        | obj => simp [hs, Leaf.apply] at happ
        | arr vs =>
          obtain ⟨j, hj, rfl⟩ : ∃ j, position vs.length i = some j ∧ .arr (vs.set j v) = c := by
            simpa [hs, Leaf.apply] using happ
          exact ⟨vs, j, rfl, hj, rfl⟩
    have hjlt := position_lt hj
    refine ⟨(cfgGetStr_iff h' htoks).mpr ⟨a, .index i, hsplit, ?_⟩, fun p' hne => ?_⟩
    · simp [hself, readLeaf, hj, hjlt]
    · refine sameString_of_readLeaf h h' fun toks' a' leaf' htoks' hsplit' => ?_
      by_cases ha : a' = a
      · subst ha
        cases leaf' with
        | plain => rw [hself, hold]; rfl
        | append => rw [hself, hold]; rfl
        | index i' =>
          simp only [hself, hold, readLeaf, List.length_set]
          by_cases hij : position vs.length i' = position vs.length i
          · -- the same entry is the same place
            refine absurd ?_ hne
            rw [locate_eq htoks, locate_eq htoks', (toks_eq_of_splitToks hsplit).1,
              (toks_eq_of_splitToks hsplit').1]
            exact locateToks_of_position hself (by simpa using hij)
          · refine Option.bind_congr fun j' hj' => ?_
            have hne' : j ≠ j' := by
              rintro rfl
              exact hij (hj'.trans hj.symm)
            rw [List.getElem?_set_ne hne']
      · rw [hlook, readLeaf_put hclear _ ha]

/-- The last step of a path and its last token. -/
theorem leaf_of_concat {qt : List Tok} {t : Tok} {a : List CStr} {leaf : Leaf}
    (h : splitToks (qt ++ [t]) = some (a, leaf)) :
    (leaf = .plain ∧ ∃ k, t = .key k) ∨ (qt = a.map .key ∧ leafToks leaf = [t]) := by
  obtain ⟨htoks, hne⟩ := toks_eq_of_splitToks h
  cases leaf with
  | plain =>
    obtain ⟨b, k, rfl⟩ := (List.eq_nil_or_concat a).resolve_left (hne rfl)
    simp only [leafToks, List.append_nil, List.concat_eq_append, List.map_append] at htoks
    exact .inl ⟨rfl, k, by simpa using (List.append_inj' htoks rfl).2⟩
  | append =>
    obtain ⟨hqt, ht⟩ := List.append_inj' htoks rfl
    exact .inr ⟨hqt, ht.symm⟩
  | index i =>
    obtain ⟨hqt, ht⟩ := List.append_inj' htoks rfl
    exact .inr ⟨hqt, ht.symm⟩

/-- The length of the array at an address. -/
theorem cfgArrLen_of_look {q : CStr} {a vs : List CStr}
    (hq : parsePath CFG_PATH_DEPTH_MAX q = .ok (a.map .key)) (h : cfg.look a = some (.arr vs)) :
    cfgArrLen cfg q = .ok vs.length := by
  obtain ⟨arr, hw, ht, hvs⟩ := exists_node_of_look_arr h
  simp [cfgArrLen, cfgGetNode_eq, hq, hw, ht, ← hvs]

theorem appendLaws {q : CStr} (h : WfRoot cfg) (hv : '\x00' ∉ v)
    (hrc : (cfgSetStr cfg (q ++ "[]".toList) v).1 = none) :
    AppendLaws cfg (cfgSetStr cfg (q ++ "[]".toList) v).2 q v := by
  have h' := h.cfgSetStr (q ++ "[]".toList) hv
  obtain ⟨toks, a, leaf, c, htoks, hsplit, hclear, happ, hlook⟩ := cfgSetStr_store h hrc
  generalize (cfgSetStr cfg (q ++ "[]".toList) v).2 = cfg' at h' hlook ⊢
  have hself : cfg'.look a = some c := by rw [hlook, Store.put_self]
  obtain ⟨qt, hq, hqt, hl, rfl⟩ := parsePath_append_iff.mp htoks
  obtain ⟨rfl, hleaf⟩ : qt = a.map .key ∧ leafToks leaf = [.append] := by
    simpa using leaf_of_concat hsplit
  obtain rfl : leaf = .append := by cases leaf <;> simp_all [leafToks]
  -- the entries before: none when the array is new
  obtain ⟨vs, hold, rfl⟩ : ∃ vs, (cfg.look a = some (.arr vs) ∨ vs = [] ∧ cfg.look a = none) ∧
      c = .arr (vs ++ [v]) := by
    cases hs : cfg.look a with
    | none =>
      have hc : Cell.arr [v] = c := by simpa [hs, Leaf.apply] using happ
      exact ⟨[], .inr ⟨rfl, rfl⟩, hc.symm⟩
    | some b =>
      cases b with
      | str s => simp [hs, Leaf.apply] at happ
      | obj => simp [hs, Leaf.apply] at happ
      | arr vs =>
        have hc : Cell.arr (vs ++ [v]) = c := by simpa [hs, Leaf.apply] using happ
        exact ⟨vs, .inl rfl, hc.symm⟩
  have hlast : parsePath CFG_PATH_DEPTH_MAX (q ++ "[-1]".toList) =
      .ok (a.map .key ++ [.index (-1)]) :=
    (parsePath_concat_iff hqt).mpr ⟨q, _, hq, hl, tokText_last, rfl⟩
  have hpos : position (vs.length + 1) (-1) = some vs.length := by
    have := position_neg (Nat.lt_succ_self vs.length)
    simpa using this
  refine ⟨⟨vs.length, ?_, ?_, ?_⟩, ?_, ?_⟩
  · -- the length before
    rcases hold with hold | ⟨rfl, hold⟩
    · exact .inl (cfgArrLen_of_look hq hold)
    · exact .inr ⟨rfl, by rw [cfgGetNode_eq, hq, ok_bind, walkGet_of_look_none hclear hold]⟩
  · rw [cfgArrLen_of_look hq hself]
    simp
  · -- the old entries
    rintro i hi p' ⟨qt, hq', hp'⟩
    obtain rfl : a.map .key = qt := Except.ok.inj (hq.symm.trans hq')
    have hold' : cfg.look a = some (.arr vs) := by
      rcases hold with hold | ⟨rfl, -⟩
      · exact hold
      · simp at hi
    have hs := splitToks_index a i
    refine ⟨vs[i], ?_, ?_⟩
    · refine (cfgGetStr_iff h hp').mpr ⟨a, _, hs, ?_⟩
      simp [hold', readLeaf, position_nat hi]
    · refine (cfgGetStr_iff h' hp').mpr ⟨a, _, hs, ?_⟩
      simp [hself, readLeaf, position_nat (Nat.lt_succ_of_lt hi), List.getElem?_append_left hi]
  · -- the new entry
    refine (cfgGetStr_iff h' hlast).mpr ⟨a, _, splitToks_index a (-1), ?_⟩
    simp [hself, readLeaf, hpos]
  · intro p' hne hneg
    refine sameString_of_readLeaf h h' fun toks' a' leaf' htoks' hsplit' => ?_
    by_cases ha : a' = a
    · subst ha
      cases leaf' with
      | plain => rw [hself]; rcases hold with h | ⟨-, h⟩ <;> rw [h] <;> rfl
      | append => rw [hself]; rcases hold with h | ⟨-, h⟩ <;> rw [h] <;> rfl
      | index i =>
        have htoks'' := (toks_eq_of_splitToks hsplit').1
        have hi : 0 ≤ i := by
          by_contra hi
          exact hneg i (by omega) ⟨_, hq, htoks'' ▸ htoks'⟩
        obtain ⟨m, rfl⟩ := Int.eq_ofNat_of_zero_le hi
        have hm : m ≠ vs.length := by
          -- the new entry is the place written to
          rintro rfl
          refine hne ?_
          rw [locate_eq htoks', locate_eq hlast, htoks'']
          refine locateToks_of_position hself ?_
          rw [List.length_append, List.length_singleton, hpos,
            position_nat (Nat.lt_succ_self vs.length)]
        have hbefore : readLeaf (.index (m : Int)) (cfg.look a') = vs[m]? := by
          rcases hold with h | ⟨rfl, h⟩
          · rcases Nat.lt_or_ge m vs.length with hlt | hge
            · simp [h, readLeaf, position_nat hlt]
            · simp [h, readLeaf, position_of_le hge, hge]
          · rw [h, readLeaf_none, List.getElem?_nil]
        rw [hbefore, hself]
        rcases Nat.lt_or_gt_of_ne hm with hlt | hgt
        · simp [readLeaf, position_nat (Nat.lt_succ_of_lt hlt), List.getElem?_append_left hlt]
        · have hge : (vs ++ [v]).length ≤ m := by simpa using hgt
          simp only [readLeaf, position_of_le hge, Option.bind_none]
          rw [List.getElem?_eq_none (by omega)]
    · rw [hlook, readLeaf_put hclear _ ha]

/-- A deletion below a key works on the child it finds there. -/
theorem delToks_key_step {n : CfgNode} {k : CStr} {t : Tok} {l : List Tok}
    (hrc : (delToks (.key k :: t :: l) n).1 = none) :
    n.type = .obj ∧ ∃ l₁ c l₂, n.child = l₁ ++ c :: l₂ ∧ (∀ b ∈ l₁, hasName k b = false) ∧
      hasName k c ∧ (delToks (t :: l) c).1 = none ∧
      (delToks (.key k :: t :: l) n).2 =
        { n with child := l₁ ++ (delToks (t :: l) c).2 :: l₂ } := by
  simp only [delToks] at hrc ⊢
  split_ifs at hrc ⊢ with ht
  rw [ne_eq, not_not] at ht
  cases ho : onFirst (hasName k) (delToks (t :: l)) n.child with
  | none => simp [ho] at hrc
  | some r =>
    obtain ⟨rc, cs⟩ := r
    obtain ⟨l₁, c, l₂, hs, hl₁, hc, rfl, rfl⟩ := onFirst_eq_some ho
    simp only [ho] at hrc ⊢
    exact ⟨ht, l₁, c, l₂, hs, hl₁, hc, hrc, rfl⟩

/-- A deletion of an entry below a key works on the child there, and other children stay. -/
theorem delToks_index_step {n : CfgNode} {k : CStr} {a : List CStr} {i : Int}
    (hrc : (delToks ((k :: a).map .key ++ [.index i]) n).1 = none) :
    ∃ c, objFind n k = some c ∧ (delToks (a.map .key ++ [.index i]) c).1 = none ∧
      (delToks ((k :: a).map .key ++ [.index i]) n).2.outline = n.outline ∧
      ∀ j, objFind (delToks ((k :: a).map .key ++ [.index i]) n).2 j =
        if j = k then some (delToks (a.map .key ++ [.index i]) c).2 else objFind n j := by
  obtain ⟨t, l, hl⟩ : ∃ t l, a.map Tok.key ++ [.index i] = t :: l :=
    List.exists_cons_of_ne_nil (by simp)
  simp only [List.map_cons, List.cons_append, hl] at hrc ⊢
  obtain ⟨ht, l₁, c, l₂, hs, hl₁, hc, hrc', hdel⟩ := delToks_key_step hrc
  have hname := (delToks_name_type (t :: l) c).1
  refine ⟨c, objFind_of_split ht hs hl₁ hc, hrc', ?_, fun j => ?_⟩
  · simp [hdel, CfgNode.outline, hs, hname]
  · rw [hdel, objFind_replace ht hs hl₁ hc hname]

/-- The array a deletion with a final index works on loses that entry. -/
theorem walkGet_delToks_index {n : CfgNode} {a : List CStr} {i : Int}
    (hrc : (delToks (a.map .key ++ [.index i]) n).1 = none) :
    ∃ arr idx, walkGet (a.map .key) n = .ok arr ∧ arrIdx arr i = .ok idx ∧
      walkGet (a.map .key) (delToks (a.map .key ++ [.index i]) n).2 =
        .ok { arr with child := arr.child.eraseIdx idx } := by
  induction a generalizing n with
  | nil =>
    simp only [List.map_nil, List.nil_append, delToks, delArr, walkGet] at hrc ⊢
    cases hi : arrIdx n i with
    | error e => simp [hi] at hrc
    | ok idx =>
      simp only [hi] at hrc
      split_ifs at hrc with hlen
      exact ⟨n, idx, rfl, hi, by simp only [if_neg hlen]⟩
  | cons k a ih =>
    obtain ⟨c, hc, hrc', -, hfind⟩ := delToks_index_step hrc
    obtain ⟨arr, idx, hw, hi, hw'⟩ := ih hrc'
    exact ⟨arr, idx, walkGet_key.mpr ⟨c, hc, hw⟩, hi,
      walkGet_key.mpr ⟨_, by rw [hfind, if_pos rfl], hw'⟩⟩

/-- A walk that leaves the way to the array finds what it found. -/
theorem walkGet_delToks_outside {n : CfgNode} {a : List CStr} {i : Int} {toks : List Tok}
    (hrc : (delToks (a.map .key ++ [.index i]) n).1 = none) (hbelow : ¬ a.map .key <+: toks)
    (habove : ¬ toks <+: a.map .key) :
    walkGet toks (delToks (a.map .key ++ [.index i]) n).2 = walkGet toks n := by
  induction a generalizing n toks with
  | nil => exact absurd List.nil_prefix hbelow
  | cons k a ih =>
    obtain ⟨c, hc, hrc', -, hfind⟩ := delToks_index_step hrc
    have htype := (delToks_name_type ((k :: a).map .key ++ [.index i]) n).2
    have hobj := (objFind_mem hc).1
    cases toks with
    | nil => exact absurd List.nil_prefix habove
    | cons t toks =>
      cases t with
      | append => rfl
      | index j =>
        have hobj' := htype.trans hobj
        simp only [walkGet, hobj', hobj, ne_eq, reduceCtorEq, not_false_eq_true, if_true]
      | key k' =>
        simp only [walkGet, htype, hfind]
        by_cases hk : k' = k
        · -- one step further on the way
          subst hk
          have hbelow' : ¬ a.map .key <+: toks := fun h => hbelow (by simpa using h)
          have habove' : ¬ toks <+: a.map .key := fun h => habove (by simpa using h)
          have hstep := ih hrc' hbelow' habove'
          simp only [if_true, hc, hstep]
        · simp only [hk, if_false]

/-- A node above the array keeps its outline. -/
theorem walkGet_delToks_above {n m : CfgNode} {a : List CStr} {i : Int} {toks : List Tok}
    (hrc : (delToks (a.map .key ++ [.index i]) n).1 = none) (habove : toks <+: a.map .key)
    (hne : ¬ a.map .key <+: toks) (hm : walkGet toks n = .ok m) :
    ∃ m', walkGet toks (delToks (a.map .key ++ [.index i]) n).2 = .ok m' ∧
      m'.outline = m.outline := by
  induction a generalizing n toks with
  | nil => exact absurd List.nil_prefix hne
  | cons k a ih =>
    obtain ⟨c, hc, hrc', hself, hfind⟩ := delToks_index_step hrc
    cases toks with
    | nil =>
      obtain rfl := Except.ok.inj hm
      exact ⟨_, rfl, hself⟩
    | cons t toks =>
      obtain ⟨rfl, hrest⟩ : t = .key k ∧ toks <+: a.map .key := by simpa using habove
      obtain ⟨b, hb, hm⟩ := walkGet_key.mp hm
      obtain rfl : c = b := Option.some.inj (hc.symm.trans hb)
      obtain ⟨m', hm', ho⟩ := ih hrc' hrest (fun h => hne (by simpa using h)) hm
      exact ⟨m', walkGet_key.mpr ⟨_, by rw [hfind, if_pos rfl], hm'⟩, ho⟩

theorem delKeyLaws {q k : CStr} (h : WfRoot cfg) (hrc : (cfgDel cfg p).1 = none)
    (hstep : IsStep p q (.key k)) : DelKeyLaws cfg (cfgDel cfg p).2 p := by
  have h' := h.cfgDel p
  obtain ⟨toks, a, leaf, htoks, hsplit, hdel⟩ := cfgDel_store h hrc
  generalize (cfgDel cfg p).2 = cfg' at h' hdel ⊢
  obtain ⟨qt, -, hp⟩ := hstep
  obtain rfl : qt ++ [.key k] = toks := Except.ok.inj (hp.symm.trans htoks)
  obtain rfl : leaf = .plain := by
    rcases leaf_of_concat hsplit with ⟨rfl, -⟩ | ⟨-, hleaf⟩
    · rfl
    · cases leaf <;> simp_all [leafToks]
  have hkeys : qt ++ [.key k] = a.map .key := by
    simpa [leafToks] using (toks_eq_of_splitToks hsplit).1
  simp only [Store.del] at hdel
  split_ifs at hdel with hsome
  have hlook : cfg'.look = cfg.look.remove a := (Option.some.inj hdel).symm
  constructor
  · rw [cfgGetNode_eq, hp, ok_bind, hkeys]
    refine walkGet_of_look_none (fun b hb hne => .inr ?_) ?_
    · -- everything above the deleted node is an object, before and after
      obtain ⟨r, rfl⟩ := hb
      have hr : r ≠ [] := by
        rintro rfl
        simp at hne
      have hnot : ¬ (b ++ r) <+: b := fun hpre => hr (by simpa using hpre.length_le)
      rw [hlook, Store.remove, if_neg hnot]
      exact CfgNode.look_of_append (Option.isSome_iff_ne_none.mp hsome) hr
    · rw [hlook, Store.remove, if_pos List.prefix_rfl]
  · intro p' hpre
    refine sameString_of_readLeaf h h' fun toks' a' leaf' htoks' hsplit' => ?_
    have hnot : ¬ a <+: a' := by
      rintro ⟨r, rfl⟩
      refine hpre ⟨_, toks', hp, htoks', ?_⟩
      rw [hkeys, (toks_eq_of_splitToks hsplit').1, List.map_append, List.append_assoc]
      exact List.prefix_append _ _
    rw [hlook, Store.remove, if_neg hnot]

theorem delIndexLaws {q : CStr} {i : Int} (h : WfRoot cfg) (hrc : (cfgDel cfg p).1 = none)
    (hstep : IsStep p q (.index i)) : DelIndexLaws cfg (cfgDel cfg p).2 q i := by
  have h' := h.cfgDel p
  obtain ⟨toks, a, leaf, htoks, hsplit, hdel⟩ := cfgDel_store h hrc
  obtain ⟨qt, hq, hp⟩ := hstep
  obtain rfl : qt ++ [.index i] = toks := Except.ok.inj (hp.symm.trans htoks)
  obtain ⟨rfl, hleaf⟩ : qt = a.map .key ∧ leafToks leaf = [.index i] := by
    simpa using leaf_of_concat hsplit
  obtain rfl : leaf = .index i := by cases leaf <;> simp_all [leafToks]
  have hd : cfgDel cfg p = delToks (a.map .key ++ [.index i]) cfg := by simp only [cfgDel, hp]
  refine ⟨?_, ?_, ?_, ?_⟩
  · rw [hd] at hrc ⊢
    obtain ⟨arr, idx, hw, hi, hw'⟩ := walkGet_delToks_index hrc
    exact ⟨arr, idx, by rw [cfgGetNode_eq, hq, ok_bind, hw], hi,
      by rw [cfgGetNode_eq, hq, ok_bind, hw']⟩
  · intro p' hnot
    obtain ⟨vs, j, hold, hlook⟩ : ∃ vs j, cfg.look a = some (.arr vs) ∧
        (cfgDel cfg p).2.look = cfg.look.put a (.arr (vs.eraseIdx j)) := by
      simp only [Store.del] at hdel
      split at hdel
      · rename_i vs hold
        obtain ⟨j, -, hj⟩ := Option.map_eq_some_iff.mp hdel
        exact ⟨vs, j, hold, hj.symm⟩
      · cases hdel
    have hclear : cfg.look.Clear a := by
      rintro b ⟨r, rfl⟩ hne
      have hr : r ≠ [] := by
        rintro rfl
        simp at hne
      exact .inr (CfgNode.look_of_append (by simp [hold]) hr)
    refine sameString_of_readLeaf h h' fun toks' a' leaf' htoks' hsplit' => ?_
    by_cases ha : a' = a
    · subst ha
      rw [hlook, Store.put_self, hold]
      cases leaf' with
      | plain => rfl
      | append => rfl
      | index j => exact absurd ⟨_, hq, (toks_eq_of_splitToks hsplit').1 ▸ htoks'⟩ (hnot j)
    · rw [hlook, readLeaf_put hclear _ ha]
  · -- a path that leaves the way to the array, or that is none
    intro p' hbelow habove
    cases hp' : parsePath CFG_PATH_DEPTH_MAX p' with
    | error e => rw [cfgGetNode_eq, cfgGetNode_eq, hp', error_bind, error_bind]
    | ok toks' =>
      rw [hd] at hrc ⊢
      rw [cfgGetNode_eq, cfgGetNode_eq, hp', ok_bind, ok_bind]
      exact walkGet_delToks_outside hrc (fun h => hbelow ⟨_, _, hq, hp', h⟩)
        fun h => habove ⟨_, _, hp', hq, h⟩
  · -- a node on the way
    rintro p' n ⟨toks', qt, hp', hqt, habove⟩ hne hn
    obtain rfl : a.map .key = qt := Except.ok.inj (hq.symm.trans hqt)
    rw [hd] at hrc ⊢
    rw [cfgGetNode_eq, hp', ok_bind] at hn ⊢
    exact walkGet_delToks_above hrc habove (fun h => hne ⟨_, _, hq, hp', h⟩) hn

/-- A deletion that succeeds deletes a key or an entry. -/
theorem cfgDel_cases (h : WfRoot cfg) (hrc : (cfgDel cfg p).1 = none) :
    (∃ q k, IsStep p q (.key k)) ∨ ∃ q i, IsStep p q (.index i) := by
  obtain ⟨toks, a, leaf, htoks, hsplit, hdel⟩ := cfgDel_store h hrc
  obtain ⟨rfl, hne⟩ := toks_eq_of_splitToks hsplit
  cases leaf with
  | append => cases hdel
  | plain =>
    obtain ⟨b, k, rfl⟩ := (List.eq_nil_or_concat a).resolve_left (hne rfl)
    simp only [leafToks, List.append_nil, List.concat_eq_append, List.map_append,
      List.map_singleton] at htoks
    obtain ⟨q, hq⟩ := exists_parsePath_of_concat htoks
    exact .inl ⟨q, k, _, hq, htoks⟩
  | index i =>
    obtain ⟨q, hq⟩ := exists_parsePath_of_concat htoks
    exact .inr ⟨q, i, _, hq, htoks⟩

end Laws

/-- **The laws of the store**, for every tree that calls build, every path and every value. A write
is read back and touches nothing else; an append adds one entry; a deletion takes away what it
names; and indices of the same element may be exchanged. -/
theorem store_laws {cfg : CfgNode} (h : Reachable cfg) (p v : CStr) (hv : '\x00' ∉ v) :
    ((cfgSetStr cfg p v).1 = none →
      (¬ "[]".toList <:+ p → SetLaws cfg (cfgSetStr cfg p v).2 p v) ∧
      ∀ q, p = q ++ "[]".toList → AppendLaws cfg (cfgSetStr cfg p v).2 q v) ∧
    ((cfgDel cfg p).1 = none →
      (∃ q k, IsStep p q (.key k) ∧ DelKeyLaws cfg (cfgDel cfg p).2 p) ∨
      ∃ q i, IsStep p q (.index i) ∧ DelIndexLaws cfg (cfgDel cfg p).2 q i) ∧
    ∀ p', SameElement cfg p p' →
      cfgGetNode cfg p = cfgGetNode cfg p' ∧ cfgGetStr cfg p = cfgGetStr cfg p' ∧
      cfgSetStr cfg p v = cfgSetStr cfg p' v ∧ cfgDel cfg p = cfgDel cfg p' := by
  refine ⟨fun hrc => ⟨setLaws h.wf hv hrc, ?_⟩, fun hrc => ?_, fun p' hp' => hp'.calls_eq v⟩
  · rintro q rfl
    exact appendLaws h.wf hv hrc
  · obtain ⟨q, k, hstep⟩ | ⟨q, i, hstep⟩ := cfgDel_cases h.wf hrc
    · exact .inl ⟨q, k, hstep, delKeyLaws h.wf hrc hstep⟩
    · exact .inr ⟨q, i, hstep, delIndexLaws h.wf hrc hstep⟩

/-- A tree with an array of one entry. -/
def onePort : CfgNode := CfgOp.run [.set "bridge.ports[]".toList "lan1".toList]

theorem onePort_laws :
    Reachable onePort ∧ (cfgSetStr onePort "bridge.ports[]".toList "lan2".toList).1 = none ∧
    AppendLaws onePort (cfgSetStr onePort "bridge.ports[]".toList "lan2".toList).2
      "bridge.ports".toList "lan2".toList := by
  have h : Reachable onePort := ⟨_, by decide, rfl⟩
  have hrc : (cfgSetStr onePort "bridge.ports[]".toList "lan2".toList).1 = none := by
    decide +kernel
  exact ⟨h, hrc, ((store_laws h _ _ (by decide)).1 hrc).2 _ (by decide)⟩

end Netrec
