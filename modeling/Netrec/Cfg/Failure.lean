import Netrec.Cfg.Writes

/-!
# Calls that fail

A deletion that fails changes nothing. A write creates the objects and arrays it passes through
before it knows that it will succeed, so one that fails may leave some of them behind: exactly when
it meets a missing key and the rest of its path has an index, or an append that is not its last
step.

## Main definitions

* `StrandsToks n toks`, `Strands cfg path`: a write creates nodes and then fails

## Main results

* `failsAs`, `delToks_of_fails`: what a walk that fails does
* `failed_call_iff`: when a call that fails changes nothing
-/

namespace Netrec

open CLib

/-! ## Writes that leave nodes behind -/

theorem arrIdx_nodeNew (name : Option CStr) (i : Int) :
    arrIdx (nodeNew .arr name) i = .error .ENOENT := by
  rw [arrIdx_eq]
  simp [nodeNew]

/-- A new node takes the rest of a path exactly when a file may use it. -/
theorem setToks_nodeNew (v : CStr) (t : Tok) (toks : List Tok) (name : Option CStr) :
    (setToks v (t :: toks) (nodeNew (wantType t) name)).1 = none ↔
      toksFileOk (t :: toks) = .ok () := by
  induction toks generalizing t name with
  | nil =>
    cases t with
    | key k => simp [setToks, nodeNew, wantType, setStrPlain, onFirst, toksFileOk]
    | append => simp [setToks, nodeNew, wantType, setArrAppend, toksFileOk]
    | index i =>
      simp only [setToks, setArrIdx, wantType, arrIdx_nodeNew, toksFileOk]
      simp [nodeNew]
  | cons t' toks ih =>
    cases t with
    | append => simp [setToks, toksFileOk]
    | index i =>
      simp only [setToks, atIndex, wantType, arrIdx_nodeNew, toksFileOk]
      simp [nodeNew]
    | key k =>
      have hnew : setToks v (.key k :: t' :: toks) (nodeNew (wantType (.key k)) name) =
          ((setToks v (t' :: toks) (nodeNew (wantType t') (some k))).1,
            childAdd (nodeNew .obj name)
              (setToks v (t' :: toks) (nodeNew (wantType t') (some k))).2) := rfl
      rw [hnew]
      exact ih t' (some k)

/-- A write along `toks` leaves nodes behind when it fails: it comes to an object that does not
have the next key, and the rest of the path, which is not empty, has an index or an append that is
not its last step. -/
def StrandsToks (n : CfgNode) (toks : List Tok) : Prop :=
  ∃ pre k rest node, toks = pre ++ .key k :: rest ∧ rest ≠ [] ∧ walkGet pre n = .ok node ∧
    node.type = .obj ∧ objFind node k = none ∧ toksFileOk rest ≠ .ok ()

/-- What a write to the given path leaves behind when it fails. -/
def Strands (cfg : CfgNode) (path : CStr) : Prop :=
  ∃ toks, parsePath CFG_PATH_DEPTH_MAX path = .ok toks ∧ StrandsToks cfg toks

theorem StrandsToks.ne_nil {n : CfgNode} {toks : List Tok} (h : StrandsToks n toks) :
    toks ≠ [] := by
  obtain ⟨pre, k, rest, node, rfl, -⟩ := h
  simp

/-- A step at a key that exists. -/
theorem strandsToks_key {n c : CfgNode} {k : CStr} (hk : objFind n k = some c) {toks : List Tok} :
    StrandsToks n (.key k :: toks) ↔ StrandsToks c toks := by
  constructor
  · rintro ⟨pre, j, rest, node, htoks, hne, hwalk, ht, hnone, hfile⟩
    cases pre with
    | nil =>
      -- the key is there, so it is not the missing one
      obtain rfl := Except.ok.inj hwalk
      obtain ⟨rfl, -⟩ : k = j ∧ toks = rest := by simpa using htoks
      rw [hk] at hnone
      cases hnone
    | cons t pre =>
      obtain ⟨rfl, rfl⟩ : Tok.key k = t ∧ toks = pre ++ .key j :: rest := by simpa using htoks
      obtain ⟨b, hb, hw⟩ := walkGet_key.mp hwalk
      obtain rfl := Option.some.inj (hk.symm.trans hb)
      exact ⟨pre, j, rest, node, rfl, hne, hw, ht, hnone, hfile⟩
  · rintro ⟨pre, j, rest, node, rfl, hne, hwalk, ht, hnone, hfile⟩
    exact ⟨.key k :: pre, j, rest, node, rfl, hne, walkGet_key.mpr ⟨c, hk, hwalk⟩, ht, hnone, hfile⟩

/-- A step at a key that is missing. -/
theorem strandsToks_new {n : CfgNode} {k : CStr} (ht : n.type = .obj) (hk : objFind n k = none)
    {toks : List Tok} (hne : toks ≠ []) :
    StrandsToks n (.key k :: toks) ↔ toksFileOk toks ≠ .ok () := by
  constructor
  · rintro ⟨pre, j, rest, node, htoks, -, hwalk, -, -, hfile⟩
    cases pre with
    | nil =>
      obtain ⟨-, rfl⟩ : k = j ∧ toks = rest := by simpa using htoks
      exact hfile
    | cons t pre =>
      obtain ⟨rfl, -⟩ : Tok.key k = t ∧ toks = pre ++ .key j :: rest := by simpa using htoks
      obtain ⟨b, hb, -⟩ := walkGet_key.mp hwalk
      rw [hk] at hb
      cases hb
  · intro hfile
    exact ⟨[], k, toks, n, rfl, hne, rfl, ht, hk, hfile⟩

/-- A step at an index. -/
theorem strandsToks_index {n : CfgNode} {i : Int} {toks : List Tok} :
    StrandsToks n (.index i :: toks) ↔ n.type = .arr ∧ ∃ j, position n.child.length i = some j ∧
      ∃ c, arrNth n j = some c ∧ StrandsToks c toks := by
  constructor
  · rintro ⟨pre, k, rest, node, htoks, hne, hwalk, ht, hnone, hfile⟩
    cases pre with
    | nil => simp at htoks
    | cons t pre =>
      obtain ⟨rfl, rfl⟩ : Tok.index i = t ∧ toks = pre ++ .key k :: rest := by simpa using htoks
      obtain ⟨harr, j, hj, b, hb, hw⟩ := walkGet_index.mp hwalk
      exact ⟨harr, j, hj, b, hb, pre, k, rest, node, rfl, hne, hw, ht, hnone, hfile⟩
  · rintro ⟨harr, j, hj, b, hb, pre, k, rest, node, rfl, hne, hw, ht, hnone, hfile⟩
    exact ⟨.index i :: pre, k, rest, node, rfl, hne,
      walkGet_index.mpr ⟨harr, j, hj, b, hb, hw⟩, ht, hnone, hfile⟩

theorem strandsToks_append {n : CfgNode} {toks : List Tok} : ¬ StrandsToks n (.append :: toks) := by
  rintro ⟨pre, k, rest, node, htoks, -, hwalk, -⟩
  cases pre with
  | nil => simp at htoks
  | cons t pre =>
    obtain ⟨rfl, -⟩ : Tok.append = t ∧ toks = pre ++ .key k :: rest := by simpa using htoks
    cases hwalk

/-- A path that leads where no node may be created leaves nothing behind. -/
theorem not_strandsToks_of_ne_obj {n : CfgNode} (ht : n.type ≠ .obj) {k : CStr} {toks : List Tok} :
    ¬ StrandsToks n (.key k :: toks) := by
  rintro ⟨pre, j, rest, node, htoks, -, hwalk, hobj, -⟩
  cases pre with
  | nil =>
    obtain rfl := Except.ok.inj hwalk
    exact ht hobj
  | cons t pre =>
    obtain ⟨rfl, -⟩ : Tok.key k = t ∧ toks = pre ++ .key j :: rest := by simpa using htoks
    obtain ⟨b, hb, -⟩ := walkGet_key.mp hwalk
    exact ht (objFind_mem hb).1

/-- A path whose last step is taken at the node itself leaves nothing behind. -/
theorem not_strandsToks_singleton {n : CfgNode} {t : Tok} : ¬ StrandsToks n [t] := by
  rintro ⟨pre, k, rest, node, htoks, hne, -⟩
  cases pre with
  | nil =>
    obtain ⟨-, rfl⟩ : t = .key k ∧ [] = rest := by simpa using htoks
    exact hne rfl
  | cons t' pre => simp at htoks

/-! ## What a walk that fails does -/

/-- What a write that fails does: it leaves nodes behind, or changes nothing. -/
def FailsAs (v : CStr) (toks : List Tok) (n : CfgNode) : Prop :=
  (StrandsToks n toks ∧ (setToks v toks n).1 ≠ none ∧ (setToks v toks n).2 ≠ n) ∨
    (¬ StrandsToks n toks ∧ ((setToks v toks n).1 ≠ none → (setToks v toks n).2 = n))

theorem with_child_ne {n a a' : CfgNode} {l₁ l₂ : List CfgNode} (hs : n.child = l₁ ++ a :: l₂)
    (h : a' ≠ a) : { n with child := l₁ ++ a' :: l₂ } ≠ n := by
  intro he
  have hc : l₁ ++ a' :: l₂ = l₁ ++ a :: l₂ := (congrArg CfgNode.child he).trans hs
  exact h (by simpa using hc)

/-- The last step of a write is taken or changes nothing. -/
theorem failsAs_singleton (v : CStr) (t : Tok) (n : CfgNode) : FailsAs v [t] n := by
  refine .inr ⟨not_strandsToks_singleton, fun hrc => ?_⟩
  cases t with
  | key k =>
    simp only [setToks] at hrc ⊢
    split_ifs at hrc ⊢ with ht
    · rfl
    · simp only [setStrPlain] at hrc ⊢
      split at hrc
      · exact absurd rfl hrc
      · rename_i rc cs ho
        obtain ⟨l₁, c, l₂, hs, -, -, rfl, rfl⟩ := onFirst_eq_some ho
        split_ifs at hrc ⊢ with hstr
        · exact with_child_self hs
        · exact absurd rfl hrc
  | append =>
    simp only [setToks, setArrAppend] at hrc ⊢
    split_ifs at hrc ⊢ with ht
    · rfl
    · exact absurd rfl hrc
  | index i =>
    simp only [setToks, setArrIdx] at hrc ⊢
    split_ifs at hrc ⊢ with ht
    · rfl
    · cases hidx : arrIdx n i with
      | error e => rfl
      | ok j =>
        simp only [hidx] at hrc ⊢
        split at hrc
        · rfl
        · rename_i rc cs ho
          obtain ⟨l₁, c, l₂, hs, -, rfl, rfl⟩ := onNth_eq_some ho
          split_ifs at hrc ⊢ with hstr
          · exact with_child_self hs
          · exact absurd rfl hrc

/-- A step into a child: what the rest of the write does to the child it does to the whole. -/
theorem FailsAs.step {v : CStr} {t : Tok} {toks : List Tok} {n c : CfgNode} {l₁ l₂ : List CfgNode}
    (h : FailsAs v toks c) (hs : n.child = l₁ ++ c :: l₂)
    (hset : setToks v (t :: toks) n =
      ((setToks v toks c).1, { n with child := l₁ ++ (setToks v toks c).2 :: l₂ }))
    (hiff : StrandsToks n (t :: toks) ↔ StrandsToks c toks) : FailsAs v (t :: toks) n := by
  rw [FailsAs, hset, hiff]
  obtain ⟨hst, hrc, hne⟩ | ⟨hst, hsame⟩ := h
  · exact .inl ⟨hst, hrc, with_child_ne hs hne⟩
  · refine .inr ⟨hst, fun hrc => ?_⟩
    exact with_child_self (hs.trans (by rw [hsame hrc]))

/-- **A write that fails leaves nodes behind or changes nothing.** -/
theorem failsAs (v : CStr) (toks : List Tok) (n : CfgNode) : FailsAs v toks n := by
  induction toks generalizing n with
  | nil => exact .inr ⟨fun h => h.ne_nil rfl, fun _ => rfl⟩
  | cons t toks ih =>
    by_cases htoks : toks = []
    · subst htoks
      exact failsAs_singleton v t n
    obtain ⟨t', toks, rfl⟩ := List.exists_cons_of_ne_nil htoks
    cases t with
    | append => exact .inr ⟨strandsToks_append, fun _ => rfl⟩
    | index i =>
      by_cases ht : n.type = .arr
      · cases hp : position n.child.length i with
        | none =>
          refine .inr ⟨fun h => ?_, fun _ => ?_⟩
          · obtain ⟨-, j, hj, -⟩ := strandsToks_index.mp h
            simp [hp] at hj
          · simp [setToks, atIndex, ht, arrIdx_eq, hp]
        | some j =>
          have hj := position_lt hp
          obtain ⟨l₁, c, l₂, hs, hlen⟩ : ∃ l₁ c l₂, n.child = l₁ ++ c :: l₂ ∧ l₁.length = j :=
            ⟨n.child.take j, n.child[j], n.child.drop (j + 1), by simp, by simp; omega⟩
          have hnth : arrNth n j = some c := by
            rw [arrNth, hs, ← hlen]
            simp
          refine (ih c).step hs ?_ ?_
          · simp only [setToks, atIndex, ht, ne_eq, not_true_eq_false, if_false, arrIdx_eq, hp]
            rw [hs, onNth_append hlen]
          · rw [strandsToks_index]
            simp [ht, hp, hnth]
      · refine .inr ⟨fun h => ht (strandsToks_index.mp h).1, fun _ => ?_⟩
        simp [setToks, atIndex, ht]
    | key k =>
      by_cases ht : n.type = .obj
      · cases hk : objFind n k with
        | none =>
          -- the key is missing: the child is added whether or not the rest succeeds
          have hset : setToks v (.key k :: t' :: toks) n =
              ((setToks v (t' :: toks) (nodeNew (wantType t') (some k))).1,
                childAdd n (setToks v (t' :: toks) (nodeNew (wantType t') (some k))).2) :=
            enterKey_of_none ht hk
          have hadd : ∀ c, childAdd n c ≠ n := fun c he => by
            have := congrArg (fun m => m.child.length) he
            simp [childAdd] at this
          rw [FailsAs, hset, strandsToks_new ht hk (by simp), ne_eq, ne_eq, ne_eq,
            setToks_nodeNew, not_not]
          by_cases hfile : toksFileOk (t' :: toks) = .ok ()
          · exact .inr ⟨hfile, fun h => absurd hfile h⟩
          · exact .inl ⟨hfile, hfile, hadd _⟩
        | some c =>
          obtain ⟨l₁, l₂, hs, hl, hc⟩ := exists_split_of_objFind hk
          have hset : setToks v (.key k :: t' :: toks) n = _ :=
            enterKey_of_split ht hs hl hc
          by_cases htype : c.type = wantType t'
          · refine (ih c).step hs ?_ (strandsToks_key hk)
            rw [hset, if_neg (not_not.mpr htype)]
          · refine .inr ⟨fun h => ?_, fun _ => ?_⟩
            · -- a child of another kind is not entered
              rw [strandsToks_key hk] at h
              cases t' with
              | key j => exact not_strandsToks_of_ne_obj htype h
              | index i => exact htype (strandsToks_index.mp h).1
              | append => exact strandsToks_append h
            · rw [hset, if_pos htype]
      · refine .inr ⟨not_strandsToks_of_ne_obj ht, fun _ => ?_⟩
        simp [setToks, enterKey, ht]

theorem delToks_singleton_of_fails {t : Tok} {n : CfgNode} (hrc : (delToks [t] n).1 ≠ none) :
    (delToks [t] n).2 = n := by
  cases t with
  | append => rfl
  | index i =>
    simp only [delToks, delArr] at hrc ⊢
    split at hrc
    · rfl
    · split_ifs at hrc ⊢
      · rfl
      · exact absurd rfl hrc
  | key k =>
    simp only [delToks, delPlain] at hrc ⊢
    split_ifs at hrc ⊢
    · rfl
    · exact absurd rfl hrc
    · rfl

/-- A deletion that fails changes nothing. -/
theorem delToks_of_fails {toks : List Tok} {n : CfgNode} (hrc : (delToks toks n).1 ≠ none) :
    (delToks toks n).2 = n := by
  induction toks generalizing n with
  | nil => rfl
  | cons t toks ih =>
    by_cases htoks : toks = []
    · subst htoks
      exact delToks_singleton_of_fails hrc
    obtain ⟨t', toks, rfl⟩ := List.exists_cons_of_ne_nil htoks
    cases t with
    | append => rfl
    | index i =>
      simp only [delToks, atIndex] at hrc ⊢
      split_ifs at hrc ⊢
      · rfl
      · cases hj : arrIdx n i with
        | error e => rfl
        | ok j =>
          simp only [hj] at hrc ⊢
          cases ho : onNth (delToks (t' :: toks)) j n.child with
          | none => rfl
          | some r =>
            obtain ⟨rc, cs⟩ := r
            obtain ⟨l₁, c, l₂, hs, -, rfl, rfl⟩ := onNth_eq_some ho
            simp only [ho] at hrc ⊢
            exact with_child_self (hs.trans (by rw [ih hrc]))
    | key k =>
      simp only [delToks] at hrc ⊢
      split_ifs at hrc ⊢
      · rfl
      · cases ho : onFirst (hasName k) (delToks (t' :: toks)) n.child with
        | none => rfl
        | some r =>
          obtain ⟨rc, cs⟩ := r
          obtain ⟨l₁, c, l₂, hs, -, -, rfl, rfl⟩ := onFirst_eq_some ho
          simp only [ho] at hrc ⊢
          exact with_child_self (hs.trans (by rw [ih hrc]))

/-- **When a call that fails changes nothing.** A deletion never does. A write changes nothing
exactly when it does not leave created nodes behind. -/
theorem failed_call_iff (cfg : CfgNode) (path val : CStr) :
    (((cfgSetStr cfg path val).1 ≠ none → (cfgSetStr cfg path val).2 = cfg) ↔
      ¬ Strands cfg path) ∧
    ((cfgDel cfg path).1 ≠ none → (cfgDel cfg path).2 = cfg) := by
  cases hp : parsePath CFG_PATH_DEPTH_MAX path with
  | error e => simp [cfgSetStr, cfgDel, Strands, hp]
  | ok toks =>
    have hstrands : Strands cfg path ↔ StrandsToks cfg toks := by simp [Strands, hp]
    have hset : cfgSetStr cfg path val = setToks val toks cfg := by simp only [cfgSetStr, hp]
    have hdel : cfgDel cfg path = delToks toks cfg := by simp only [cfgDel, hp]
    rw [hstrands, hset, hdel]
    refine ⟨?_, delToks_of_fails⟩
    obtain ⟨hst, hrc, hne⟩ | ⟨hst, hsame⟩ := failsAs val toks cfg
    · exact iff_of_false (fun h => hne (h hrc)) (not_not.mpr hst)
    · exact iff_of_true hsame hst

/-- A write to the first entry of an array that does not exist fails, and leaves the empty array
behind: its length is 0 afterwards, where it was an error. -/
theorem failed_write_creates_array :
    (cfgSetStr cfgInit "c[0]".toList "x".toList).1 = some .ENOENT ∧
    cfgArrLen cfgInit "c".toList = .error .ENOENT ∧
    cfgArrLen (cfgSetStr cfgInit "c[0]".toList "x".toList).2 "c".toList = .ok 0 := by
  decide +kernel

end Netrec
