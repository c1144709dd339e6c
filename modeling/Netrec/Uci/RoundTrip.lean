import Netrec.Uci.Serialize

/-!
# Writing and loading desired states

Loading the text of a set gives the set back as long as its ids are distinct: the text builds the
tree of the set, and each field of the loader finds what the writer put there. Two states with the
same id are written into one object, and the set that is loaded has fewer states.

## Main definitions

* `Writable`: trees that are loaded as they are written
* `IsSec n fs`: the node is the section with the fields `fs`
* `SameConfig`: equal up to the DHCP command of a bridge that does not use it

## Main results

* `loadState_stateNode`: the tree of a state is loaded as that state
* `yamlLoadDesiredSet_cfgSet`: so is the text of a set with distinct ids
* `uciLoadDesiredSet_brNames_iff`: on the UCI path no bridge is lost exactly when the ids are
  distinct
-/

namespace Netrec

open CLib

/-! ## Written trees -/

/-- The keys of a section are distinct and well formed. -/
def Keyed (fs : Fields) : Prop := (fs.map Prod.fst).Nodup ∧ ∀ k ∈ fs.map Prod.fst, IsKey k

/-- A value that fits into a line: of a field of at most 128 bytes. -/
structure ShortVal (v : CStr) : Prop where
  nul_notMem : '\x00' ∉ v
  length_lt : v.length < 128

/-- A tree that is loaded as it is written: well shaped, with nothing to prune and short values. -/
structure Writable (d : Nat) (c : CfgNode) : Prop where
  wf : c.Wf d
  prune_eq : prune c = c
  child_ne_nil : c.type ≠ .str → c.child ≠ []
  short : ∀ a ∈ assigns c, ShortVal a.2

theorem shortVal_buf {sz : Nat} (b : CBuf sz) (hsz : sz ≤ 128) : ShortVal b.val :=
  ⟨b.nul_notMem, b.length_lt.trans_le hsz⟩

theorem shortVal_dec (n : UInt32) : ShortVal (dec n.toNat) where
  nul_notMem h := by
    have := isDigit_of_mem_dec h
    exact absurd this (by decide)
  length_lt := by
    have hlt : n.toNat < 10 ^ 10 := n.toNat_lt.trans (by decide)
    have := (Nat.length_toDigits_le_iff (by decide) (by decide)).mpr hlt
    exact Nat.lt_of_le_of_lt this (by decide)

theorem writable_strNode {d : Nat} {v : CStr} (h : ShortVal v) : Writable d (strNode v) where
  wf := .str h.nul_notMem
  prune_eq := rfl
  child_ne_nil := absurd rfl
  short := by simpa [assigns, strNode] using h

theorem Writable.named {d : Nat} {c : CfgNode} (h : Writable d c) (name : Option CStr) :
    Writable d { c with name := name } where
  wf := by
    cases h.wf with
    | str hv => exact .str hv
    | arr hd hn hc => exact .arr hd hn hc
    | obj hd hn hnd hc => exact .obj hd hn hnd hc
  prune_eq := by
    have := h.prune_eq
    obtain ⟨type, nm, val, cs⟩ := c
    simpa [prune] using this
  child_ne_nil := h.child_ne_nil
  short := by simpa [assigns_name] using h.short

theorem writable_optNode {d : Nat} {v : CStr} (h : ShortVal v) :
    ∀ c ∈ optNode v, Writable d c := by
  intro c hc
  unfold optNode at hc
  split at hc
  · obtain rfl := Option.some.inj hc
    exact writable_strNode h
  · cases hc

/-- A chain of writable nodes has nothing to prune. -/
theorem pruneAll_writable {d : Nat} {cs : List CfgNode} (h : ∀ c ∈ cs, Writable d c) :
    pruneAll cs = cs := by
  induction cs with
  | nil => rfl
  | cons c cs ih =>
    have hc := h c List.mem_cons_self
    have hkeep : ¬(c.type ≠ .str ∧ (prune c).child = []) := by
      rw [hc.prune_eq]
      exact fun hp => hc.child_ne_nil hp.1 hp.2
    rw [pruneAll, if_neg hkeep, hc.prune_eq, ih fun b hb => h b (List.mem_cons_of_mem c hb)]

theorem writable_arrNode {d : Nat} {vs : List CStr} (h : ∀ v ∈ vs, ShortVal v) :
    ∀ c ∈ arrNode vs, Writable (d + 1) c := by
  intro c hc
  unfold arrNode at hc
  split at hc
  · rename_i hne
    obtain rfl := Option.some.inj hc
    have hall : ∀ c ∈ vs.map strNode, Writable d c := by
      simpa using fun v hv => writable_strNode (h v hv)
    refine ⟨.arr (fun _ => Nat.succ_pos d) ?_ fun c hm => (hall c hm).wf, ?_, ?_, ?_⟩
    · simp [strNode]
    · rw [prune, pruneAll_writable hall]
    · simpa using hne
    · simpa [assigns, strNode] using h
  · cases hc

theorem mem_ofFields {fs : Fields} {c : CfgNode} :
    c ∈ ofFields fs ↔ ∃ k b, (k, some b) ∈ fs ∧ c = { b with name := some k } := by
  simp only [ofFields, List.mem_filterMap, Option.map_eq_some_iff, Prod.exists]
  constructor
  · rintro ⟨k, _, hm, b, rfl, rfl⟩
    exact ⟨k, b, hm, rfl⟩
  · rintro ⟨k, b, hm, rfl⟩
    exact ⟨k, some b, hm, b, rfl, rfl⟩

theorem ofFields_map {α : Type} (l : List α) (key : α → CStr) (node : α → CfgNode) :
    ofFields (l.map fun x => (key x, some (node x))) =
      l.map fun x => { node x with name := some (key x) } := by
  induction l with
  | nil => rfl
  | cons x l ih => exact congrArg _ ih

theorem ofFields_names_sublist (fs : Fields) :
    ((ofFields fs).map CfgNode.name).Sublist ((fs.map Prod.fst).map some) := by
  induction fs with
  | nil => exact .slnil
  | cons f fs ih =>
    obtain ⟨k, _ | c⟩ := f
    · exact ih.cons _
    · exact ih.cons_cons _

/-- **A section of writable fields is writable.** -/
theorem writable_secNode {d : Nat} {fs : Fields} (hk : Keyed fs)
    (h : ∀ f ∈ fs, ∀ c ∈ f.2, Writable d c) (hne : ∃ k c, (k, some c) ∈ fs) :
    Writable (d + 1) (secNode fs) where
  wf := by
    refine .obj (fun _ => Nat.succ_pos d) ?_ ?_ ?_
    · intro c hc
      obtain ⟨k, b, hm, rfl⟩ := mem_ofFields.mp hc
      exact ⟨k, rfl, hk.2 k (List.mem_map_of_mem hm)⟩
    · exact (hk.1.map (Option.some_injective _)).sublist (ofFields_names_sublist fs)
    · intro c hc
      obtain ⟨k, b, hm, rfl⟩ := mem_ofFields.mp hc
      exact ((h _ hm b rfl).named _).wf
  prune_eq := by
    have hall : ∀ c ∈ ofFields fs, Writable d c := by
      intro c hc
      obtain ⟨k, b, hm, rfl⟩ := mem_ofFields.mp hc
      exact (h _ hm b rfl).named _
    rw [secNode, prune, pruneAll_writable hall]
  child_ne_nil _ := by
    obtain ⟨k, c, hm⟩ := hne
    exact List.ne_nil_of_mem (mem_ofFields.mpr ⟨k, c, hm, rfl⟩)
  short := by
    intro a ha
    rw [assigns_secNode, List.mem_flatMap] at ha
    obtain ⟨⟨k, _ | c⟩, hm, ha⟩ := ha
    · cases ha
    · obtain ⟨b, hb, rfl⟩ := List.mem_map.mp ha
      exact (h _ hm c rfl).short b hb

/-! ## The trees of states and sets -/

theorem keyed_of_eq {fs : Fields} (ks : List String) (h : fs.map Prod.fst = ks.map String.toList)
    (hk : (ks.map String.toList).Nodup ∧ ∀ k ∈ ks.map String.toList, IsKey k) : Keyed fs := by
  unfold Keyed
  rwa [h]

theorem bridgeFields_keyed (ds : DesiredState) : Keyed (bridgeFields ds) :=
  keyed_of_eq ["name", "addr_mode", "dhcp_cmd", "addr", "gateway", "dns", "ports"] rfl (by decide)

theorem uplinkFields_keyed (ds : DesiredState) : Keyed (uplinkFields ds) :=
  keyed_of_eq ["ifname"] rfl (by decide)

theorem vlanFields_keyed (ds : DesiredState) : Keyed (vlanFields ds) :=
  keyed_of_eq ["ifname", "id", "link", "bridge"] rfl (by decide)

theorem wgFields_keyed (ds : DesiredState) : Keyed (wgFields ds) :=
  keyed_of_eq ["ifname", "peer_ip", "route_dev"] rfl (by decide)

theorem vxlanFields_keyed (ds : DesiredState) : Keyed (vxlanFields ds) :=
  keyed_of_eq ["ifname", "vni", "remote", "dev", "bridge"] rfl (by decide)

theorem routeFields_keyed (rt : DesiredRoute4) : Keyed (routeFields rt) :=
  keyed_of_eq ["dst", "dev", "via"] rfl (by decide)

theorem stateFields_keyed (ds : DesiredState) : Keyed (stateFields ds) :=
  keyed_of_eq ["scenario", "bridge", "uplink", "vlan", "wg", "vxlan", "routes"] rfl (by decide)

theorem dec_injective : Function.Injective dec := fun m n h => by
  rw [← digitsVal_dec m, h, digitsVal_dec]

theorem isKey_route {i : Nat} (h : i < NR_DES_ROUTE4_MAX) : IsKey ('r' :: dec i) where
  head := by
    have hr : isKeyStart 'r' := by decide
    simpa using hr
  all := by
    have hdig : ∀ c ∈ dec i, isKeyChar c := fun c hc => by
      simp [isKeyChar, isAlnum, isDigit_of_mem_dec hc]
    simpa using ⟨by decide, hdig⟩
  length_lt := by
    have hlen := (Nat.length_toDigits_le_iff (b := 10) (k := 2) (by decide) (by decide)).mpr
      (h.trans (by decide))
    exact Nat.lt_of_le_of_lt (Nat.succ_le_succ hlen) (by decide)

theorem routesFields_keyed (rts : Table NR_DES_ROUTE4_MAX DesiredRoute4) :
    Keyed (routesFields rts.val 0) := by
  have hkeys : (routesFields rts.val 0).map Prod.fst =
      (List.range rts.val.length).map fun i => 'r' :: dec i := by
    rw [List.range_eq_range', ← List.zipIdx_map_snd 0 rts.val, List.map_map, routesFields,
      List.map_map]
    rfl
  unfold Keyed
  rw [hkeys]
  refine ⟨?_, ?_⟩
  · refine List.nodup_range.map fun i j h => dec_injective ?_
    simpa using h
  · intro k hk
    obtain ⟨i, hi, rfl⟩ := List.mem_map.mp hk
    exact isKey_route ((List.mem_range.mp hi).trans_le rts.property)

section StateTree

variable {d : Nat}

theorem writable_ite {c : Prop} [Decidable c] {o : Option CfgNode} (h : ∀ n ∈ o, Writable d n) :
    ∀ n ∈ if c then o else none, Writable d n := by
  split
  · exact h
  · simp

theorem writable_buf {sz : Nat} (b : CBuf sz) (hsz : sz ≤ 128) :
    ∀ n ∈ some (strNode b.val), Writable d n := by
  simpa using writable_strNode (shortVal_buf b hsz)

theorem writable_bufs {sz m : Nat} (t : Table m (CBuf sz)) (hsz : sz ≤ 128) :
    ∀ n ∈ arrNode (t.val.map CBuf.val), Writable (d + 1) n := by
  refine writable_arrNode fun v hv => ?_
  obtain ⟨b, -, rfl⟩ := List.mem_map.mp hv
  exact shortVal_buf b hsz

theorem shortVal_addrMode (m : AddrMode) : ShortVal m.name := by
  cases m <;> exact ⟨by decide, by decide⟩

theorem writable_bridge (ds : DesiredState) : Writable (d + 2) (secNode (bridgeFields ds)) := by
  refine writable_secNode (bridgeFields_keyed ds) ?_ ⟨_, _, List.mem_cons_self⟩
  simp only [bridgeFields, List.forall_mem_cons, List.not_mem_nil, IsEmpty.forall_iff,
    implies_true, and_true]
  exact ⟨writable_buf _ (by decide), by simpa using writable_strNode (shortVal_addrMode _),
    writable_ite (writable_buf _ (by decide)), writable_ite (writable_buf _ (by decide)),
    writable_ite (writable_optNode (shortVal_buf _ (by decide))),
    writable_ite (writable_bufs _ (by decide)), writable_bufs _ (by decide)⟩

theorem writable_uplink (ds : DesiredState) : Writable (d + 1) (secNode (uplinkFields ds)) := by
  refine writable_secNode (uplinkFields_keyed ds) ?_ ⟨_, _, List.mem_cons_self⟩
  simp only [uplinkFields, List.forall_mem_cons, List.not_mem_nil, IsEmpty.forall_iff,
    implies_true, and_true]
  exact writable_buf _ (by decide)

theorem writable_vlan (ds : DesiredState) : Writable (d + 1) (secNode (vlanFields ds)) := by
  refine writable_secNode (vlanFields_keyed ds) ?_ ⟨_, _, List.mem_cons_self⟩
  simp only [vlanFields, List.forall_mem_cons, List.not_mem_nil, IsEmpty.forall_iff,
    implies_true, and_true]
  exact ⟨writable_buf _ (by decide), by simpa using writable_strNode (shortVal_dec _),
    writable_optNode (shortVal_buf _ (by decide)), writable_optNode (shortVal_buf _ (by decide))⟩

theorem writable_wg (ds : DesiredState) : Writable (d + 1) (secNode (wgFields ds)) := by
  refine writable_secNode (wgFields_keyed ds) ?_ ⟨_, _, List.mem_cons_self⟩
  simp only [wgFields, List.forall_mem_cons, List.not_mem_nil, IsEmpty.forall_iff,
    implies_true, and_true]
  exact ⟨writable_buf _ (by decide), writable_buf _ (by decide), writable_buf _ (by decide)⟩

theorem writable_vxlan (ds : DesiredState) : Writable (d + 1) (secNode (vxlanFields ds)) := by
  refine writable_secNode (vxlanFields_keyed ds) ?_ ⟨_, _, List.mem_cons_self⟩
  simp only [vxlanFields, List.forall_mem_cons, List.not_mem_nil, IsEmpty.forall_iff,
    implies_true, and_true]
  exact ⟨writable_buf _ (by decide), by simpa using writable_strNode (shortVal_dec _),
    writable_buf _ (by decide), writable_optNode (shortVal_buf _ (by decide)),
    writable_buf _ (by decide)⟩

theorem writable_route (rt : DesiredRoute4) : Writable (d + 1) (secNode (routeFields rt)) := by
  refine writable_secNode (routeFields_keyed rt) ?_ ⟨_, _, List.mem_cons_self⟩
  simp only [routeFields, List.forall_mem_cons, List.not_mem_nil, IsEmpty.forall_iff,
    implies_true, and_true]
  exact ⟨writable_buf _ (by decide), writable_buf _ (by decide),
    writable_ite (writable_buf _ (by decide))⟩

theorem writable_routes (rts : Table NR_DES_ROUTE4_MAX DesiredRoute4) (hne : rts.val ≠ []) :
    Writable (d + 2) (secNode (routesFields rts.val 0)) := by
  refine writable_secNode (routesFields_keyed rts) ?_ ?_
  · intro f hf
    obtain ⟨p, -, rfl⟩ := List.mem_map.mp hf
    simpa using writable_route p.1
  · obtain ⟨rt, rest, he⟩ := List.exists_cons_of_ne_nil hne
    rw [he]
    exact ⟨_, _, List.mem_cons_self⟩

/-- The tree of a state is loaded as it is written. -/
theorem writable_stateNode (ds : DesiredState) : Writable (d + 3) (stateNode ds) := by
  refine writable_secNode (stateFields_keyed ds) ?_ ⟨_, _, List.mem_cons_self⟩
  simp only [stateFields, List.forall_mem_cons, List.not_mem_nil, IsEmpty.forall_iff,
    implies_true, and_true]
  refine ⟨writable_buf _ (by decide), writable_ite ?_, writable_ite ?_, writable_ite ?_,
    writable_ite ?_, writable_ite ?_, ?_⟩
  · simpa using writable_bridge ds
  · simpa using writable_uplink ds
  · simpa using writable_vlan ds
  · simpa using writable_wg ds
  · simpa using writable_vxlan ds
  · split
    · rename_i hne
      simpa using writable_routes ds.routes hne
    · simp

/-- The states of a set below their ids. -/
def idFields (ids : List CStr) (l : List DesiredState) : Fields :=
  (ids.zip l).map fun p => (p.1, some (stateNode p.2))

/-- The tree of a set. -/
def setNode (ids : List CStr) (l : List DesiredState) : CfgNode :=
  secNode [("state".toList, some (secNode (idFields ids l)))]

theorem assigns_setNode (ids : List CStr) (l : List DesiredState) :
    assigns (setNode ids l) = setAssigns ids l := by
  rw [setNode, assigns_secNode, List.flatMap_cons, List.flatMap_nil, List.append_nil]
  simp only [fieldAssigns, assigns_secNode, idFields, List.flatMap_map, List.map_flatMap,
    List.map_map]
  rfl

end StateTree

/-! ## Reading sections back -/

/-- The node is the section with the fields `fs`. -/
structure IsSec (n : CfgNode) (fs : Fields) : Prop where
  type : n.type = .obj
  child : n.child = ofFields fs
  keyed : Keyed fs

/-- The text of a field. -/
def fieldVal (o : Option CfgNode) : CStr := o.elim [] fun c => c.val.getD []

@[simp] theorem fieldVal_none : fieldVal none = [] := rfl

@[simp] theorem fieldVal_strNode (v : CStr) : fieldVal (some (strNode v)) = v := rfl

@[simp] theorem fieldVal_optNode (v : CStr) : fieldVal (optNode v) = v := by
  unfold optNode
  split
  · rfl
  · rename_i h
    rw [not_not.mp h]
    rfl

theorem ofFields_find_eq_none {fs : Fields} {k : CStr} (h : k ∉ fs.map Prod.fst) :
    (ofFields fs).find? (hasName k) = none := by
  rw [List.find?_eq_none]
  intro c hc
  obtain ⟨k', b, hm, rfl⟩ := mem_ofFields.mp hc
  have hne : k' ≠ k := fun e => h (e ▸ List.mem_map_of_mem hm)
  simpa [hasName] using hne

/-- A lookup by name finds the field of that key. -/
theorem ofFields_find {fs : Fields} (hn : (fs.map Prod.fst).Nodup) {k : CStr}
    {o : Option CfgNode} (hl : fs.lookup k = some o) :
    (ofFields fs).find? (hasName k) = o.map fun c => { c with name := some k } := by
  induction fs with
  | nil => cases hl
  | cons f fs ih =>
    obtain ⟨k', o'⟩ := f
    obtain ⟨hnot, hrest⟩ : k' ∉ fs.map Prod.fst ∧ (fs.map Prod.fst).Nodup :=
      List.nodup_cons.mp hn
    by_cases hk : k = k'
    · subst hk
      obtain rfl : o' = o := by simpa using hl
      cases o' with
      | none => exact @ofFields_find_eq_none fs k hnot
      | some c =>
        have hcons : ofFields ((k, some c) :: fs) = { c with name := some k } :: ofFields fs := rfl
        simp [hcons, hasName]
    · have hl' : fs.lookup k = some o := by
        rwa [List.lookup_cons, beq_eq_false_iff_ne.mpr hk] at hl
      cases o' with
      | none => exact ih hrest hl'
      | some c =>
        have hcons : ofFields ((k', some c) :: fs) = { c with name := some k' } :: ofFields fs := rfl
        rw [hcons, List.find?_cons_of_neg (by simpa [hasName] using Ne.symm hk)]
        exact ih hrest hl'

namespace IsSec

variable {n : CfgNode} {fs gs : Fields} {k : CStr} {o : Option CfgNode} {sz : Nat} [NeZero sz]

theorem cfgChild_eq (h : IsSec n fs) (hl : fs.lookup k = some o) :
    cfgChild n k = o.map fun c => { c with name := some k } := by
  rw [cfgChild, objFind, if_neg (not_not.mpr h.type), h.child]
  exact ofFields_find h.keyed.1 hl

theorem getStr_eq (h : IsSec n fs) (hl : fs.lookup k = some o) {req : Bool} {b : CBuf sz}
    (hg : getStr n k sz req = .ok b) : b = cpy sz (fieldVal o) := by
  rw [getStr, h.cfgChild_eq hl] at hg
  cases o with
  | none =>
    simp only [Option.map_none] at hg
    split at hg
    · rw [← Except.ok.inj hg, fieldVal_none, cpy_nil]
    · cases hg
  | some c =>
    simp only [Option.map_some] at hg
    split at hg
    · cases hg
    · exact (Except.ok.inj hg).symm

/-- A field that was written from a buffer of the same size is read back. -/
theorem getStr_buf (h : IsSec n fs) {b b' : CBuf sz} (hl : fs.lookup k = some o)
    (hv : fieldVal o = b.val) {req : Bool} (hg : getStr n k sz req = .ok b') : b' = b := by
  rw [h.getStr_eq hl hg, hv, cpy_val]

theorem getU32_eq (h : IsSec n fs) {v v' : UInt32}
    (hl : fs.lookup k = some (some (strNode (dec v.toNat)))) (hg : getU32 n k = .ok v') :
    v' = v := by
  rw [getU32, h.cfgChild_eq hl] at hg
  have hlt : v.toNat < 2 ^ 32 := v.toNat_lt
  have hparse : parseU32Str (dec v.toNat) = .ok v := by
    have hnot : ¬ (false = true ∨ ([] : CStr) ≠ [] ∨ v.toNat ≥ 2 ^ 32) := by
      simp only [Bool.false_eq_true, ne_eq, not_true_eq_false, false_or]
      omega
    simp only [parseU32Str, if_neg (dec_ne_nil _), strtoul_dec (hlt.trans (by decide))]
    rw [if_neg hnot, UInt32.ofNat_toNat]
  exact (Except.ok.inj (hparse.symm.trans hg)).symm

/-- An array that was written from a table is read back. -/
theorem getStrArr_eq (h : IsSec n fs) {m : Nat} {t t' : Table m (CBuf sz)}
    (hl : fs.lookup k = some (arrNode (t.val.map CBuf.val)))
    (hg : getStrArr n k sz m = .ok t') : t' = t := by
  rw [getStrArr, h.cfgChild_eq hl] at hg
  refine Subtype.ext ?_
  by_cases hne : t.val = []
  · simp only [hne, List.map_nil, arrNode, ne_eq, not_true_eq_false, if_false,
      Option.map_none] at hg
    rw [hne, ← Except.ok.inj hg, Table.empty_val]
  · have hne' : t.val.map CBuf.val ≠ [] := by simpa using hne
    simp only [arrNode, if_pos hne', Option.map_some, ne_eq, not_true_eq_false, if_false] at hg
    have hall := collect_eq_ok hg
    rw [List.map_map, List.forall₂_map_left_iff] at hall
    have heq : List.Forall₂ Eq t.val t'.val := hall.imp fun b b' hb => by
      rw [← Except.ok.inj hb]
      exact (cpy_val b).symm
    exact (List.forall₂_eq_eq_eq ▸ heq : t.val = t'.val).symm

theorem getSection_eq (h : IsSec n fs) {c : Prop} [Decidable c] (hk : Keyed gs)
    (hl : fs.lookup k = some (if c then some (secNode gs) else none)) {m : CfgNode}
    (hg : getSection n k = .ok m) : c ∧ IsSec m gs := by
  rw [getSection, h.cfgChild_eq hl] at hg
  by_cases hc : c
  · simp only [if_pos hc, Option.map_some] at hg
    obtain rfl := Except.ok.inj hg
    exact ⟨hc, rfl, rfl, hk⟩
  · simp only [if_neg hc, Option.map_none] at hg
    cases hg

end IsSec

/-! ## Loading the tree of a state -/

section Load

variable {ds ds₀ ds' : DesiredState} {root : CfgNode}

theorem loadUplink_sec (h : IsSec root (stateFields ds)) (hl : loadUplink root ds₀ = .ok ds') :
    ds' = { ds₀ with upIfname := ds.upIfname } := by
  simp only [loadUplink, bind_eq_ok] at hl
  obtain ⟨up, hup, name, hname, hl⟩ := hl
  obtain ⟨-, hsec⟩ := h.getSection_eq (uplinkFields_keyed ds) rfl hup
  rw [← Except.ok.inj hl, hsec.getStr_buf rfl rfl hname]

/-- The mode that was written is read back. -/
theorem loadAddrMode_name {m m' : AddrMode} {addr cmd : CStr}
    (h : loadAddrMode m.name addr cmd = .ok m') : m' = m := by
  unfold loadAddrMode at h
  cases m with
  | none =>
    rw [if_neg (by decide), if_neg (by decide), if_neg (by decide), if_pos (by decide)] at h
    split at h <;> cases h
    rfl
  | static =>
    rw [if_neg (by decide), if_pos (by decide)] at h
    split at h <;> cases h
    rfl
  | dhcp =>
    rw [if_neg (by decide), if_neg (by decide), if_pos (by decide)] at h
    split_ifs at h
    cases h
    rfl

theorem fieldVal_ite {c : Prop} [Decidable c] {o : Option CfgNode} {v : CStr}
    (ho : fieldVal o = v) (hv : ¬ c → v = []) :
    fieldVal (if c then o else none) = v := by
  split
  · exact ho
  · rename_i hc
    rw [fieldVal_none, hv hc]

theorem loadBridge_sec (h : IsSec root (stateFields ds))
    (hstatic : ds.brAddrMode ≠ .static →
      ds.brAddr = .empty ∧ ds.brGateway = .empty ∧ ds.brDns = .empty)
    (hl : loadBridge root ds₀ = .ok ds') :
    ∃ cmd, ds' = { ds₀ with
      brName := ds.brName, brAddr := ds.brAddr, brGateway := ds.brGateway, brDns := ds.brDns,
      brDhcpCmd := cmd, brAddrMode := ds.brAddrMode, brPorts := ds.brPorts } ∧
      (ds.brAddrMode = .dhcp → cmd = ds.brDhcpCmd) := by
  simp only [loadBridge, bind_eq_ok] at hl
  obtain ⟨br, hbr, name, hname, addr, haddr, gw, hgw, dns, hdns, mode, hmode, cmd, hcmd, m, hm, -,
    -, -, -, ports, hports, hl⟩ := hl
  obtain ⟨-, hsec⟩ := h.getSection_eq (bridgeFields_keyed ds) rfl hbr
  obtain rfl := hsec.getStr_buf (b := ds.brName) rfl rfl hname
  obtain rfl := hsec.getStr_buf (b := ds.brAddr) rfl
    (fieldVal_ite rfl fun hs => by rw [(hstatic hs).1]; rfl) haddr
  obtain rfl := hsec.getStr_buf (b := ds.brGateway) rfl
    (fieldVal_ite (fieldVal_optNode _) fun hs => by rw [(hstatic hs).2.1]; rfl) hgw
  have hdnsField : (if ds.brAddrMode = .static then arrNode (ds.brDns.val.map CBuf.val) else none) =
      arrNode (ds.brDns.val.map CBuf.val) := by
    split
    · rfl
    · rename_i hs
      rw [(hstatic hs).2.2]
      rfl
  obtain rfl := hsec.getStrArr_eq (k := "dns".toList) (t := ds.brDns)
    (congrArg some hdnsField) hdns
  obtain rfl := hsec.getStrArr_eq (t := ds.brPorts) rfl hports
  have hmodeVal : mode.val = ds.brAddrMode.name := by
    rw [hsec.getStr_eq rfl hmode]
    exact cpy_of_fits (shortVal_addrMode _).nul_notMem (by cases ds.brAddrMode <;> decide)
  rw [hmodeVal] at hm
  obtain rfl := loadAddrMode_name hm
  refine ⟨cmd, (Except.ok.inj hl).symm, fun hd => ?_⟩
  exact hsec.getStr_buf rfl (by rw [if_pos hd]; rfl) hcmd

theorem loadVlan_sec (h : IsSec root (stateFields ds)) (hl : loadVlan root ds₀ = .ok ds')
    (hlink : ds.vlanLink = ds₀.upIfname) (hbridge : ds.vlanBridge = ds₀.brName) :
    ds' = { ds₀ with
      vlanIfname := ds.vlanIfname, vlanId := ds.vlanId, vlanLink := ds.vlanLink,
      vlanBridge := ds.vlanBridge } := by
  simp only [loadVlan, bind_eq_ok, reject_eq_ok, not_not] at hl
  obtain ⟨vl, hvl, name, hname, id, hid, link, -, bridge, -, -, hlk, -, hbr, hl⟩ := hl
  obtain ⟨-, hsec⟩ := h.getSection_eq (vlanFields_keyed ds) rfl hvl
  obtain rfl := hsec.getStr_buf (b := ds.vlanIfname) rfl rfl hname
  obtain rfl := hsec.getU32_eq (v := ds.vlanId) rfl hid
  rw [← Except.ok.inj hl, CBuf.ext hlk, CBuf.ext hbr, hlink, hbridge]

theorem loadWgVxlan_sec (h : IsSec root (stateFields ds)) (hl : loadWgVxlan root ds₀ = .ok ds') :
    ds' = { ds₀ with
      wgIfname := ds.wgIfname, wgPeerIp := ds.wgPeerIp, wgRouteDev := ds.wgRouteDev,
      vxIfname := ds.vxIfname, vxVni := ds.vxVni, vxRemote := ds.vxRemote, vxDev := ds.vxDev,
      vxBridge := ds.vxBridge } := by
  simp only [loadWgVxlan, bind_eq_ok] at hl
  obtain ⟨wg, hwg, vx, hvx, wgIfname, hwgIfname, peer, hpeer, dev, hdev, vxIfname, hvxIfname, vni,
    hvni, remote, hremote, vxDev, hvxDev, bridge, hbridge, -, -, -, -, hl⟩ := hl
  obtain ⟨-, hsec⟩ := h.getSection_eq (wgFields_keyed ds) rfl hwg
  obtain ⟨-, hsecx⟩ := h.getSection_eq (vxlanFields_keyed ds) rfl hvx
  obtain rfl := hsec.getStr_buf (b := ds.wgIfname) rfl rfl hwgIfname
  obtain rfl := hsec.getStr_buf (b := ds.wgPeerIp) rfl rfl hpeer
  obtain rfl := hsec.getStr_buf (b := ds.wgRouteDev) rfl rfl hdev
  obtain rfl := hsecx.getStr_buf (b := ds.vxIfname) rfl rfl hvxIfname
  obtain rfl := hsecx.getU32_eq (v := ds.vxVni) rfl hvni
  obtain rfl := hsecx.getStr_buf (b := ds.vxRemote) rfl rfl hremote
  obtain rfl := hsecx.getStr_buf (b := ds.vxDev) rfl (fieldVal_optNode _) hvxDev
  obtain rfl := hsecx.getStr_buf (b := ds.vxBridge) rfl rfl hbridge
  exact (Except.ok.inj hl).symm

theorem loadRoute_sec {rt rt' : DesiredRoute4} {it : CfgNode} (h : IsSec it (routeFields rt))
    (hvia : rt.hasVia = (rt.via.val ≠ [] : Bool)) (hl : loadRoute it = .ok rt') : rt' = rt := by
  simp only [loadRoute, bind_eq_ok] at hl
  obtain ⟨dst, hdst, dev, hdev, via, hv, hl⟩ := hl
  obtain rfl := h.getStr_buf (b := rt.dst) rfl rfl hdst
  obtain rfl := h.getStr_buf (b := rt.dev) rfl rfl hdev
  have hnone : ¬ (rt.hasVia = true) → rt.via.val = [] := fun hn => by
    rw [hvia] at hn
    simpa using hn
  obtain rfl := h.getStr_buf (b := rt.via) rfl (fieldVal_ite rfl hnone) hv
  rw [← Except.ok.inj hl, ← hvia]

theorem loadRoutes_sec (h : IsSec root (stateFields ds))
    (hvia : ∀ rt ∈ ds.routes.val, rt.hasVia = (rt.via.val ≠ [] : Bool))
    (hl : loadRoutes root ds₀ = .ok ds') : ds' = { ds₀ with routes := ds.routes } := by
  have hchild := h.cfgChild_eq (k := "routes".toList) rfl
  rw [loadRoutes, hchild] at hl
  by_cases hne : ds.routes.val = []
  · have hempty : ds.routes = Table.empty := Subtype.ext hne
    rw [if_neg (not_not.mpr hne)] at hl
    rw [← Except.ok.inj hl, hempty]
  · rw [if_pos hne] at hl
    obtain ⟨t, ht, hl⟩ := bind_eq_ok.mp hl
    have hall := collect_eq_ok ht
    have hitems : (secNode (routesFields ds.routes.val 0)).child = ds.routes.val.zipIdx.map
        fun p => { secNode (routeFields p.1) with name := some ('r' :: dec p.2) } :=
      ofFields_map _ _ _
    rw [hitems, List.forall₂_map_left_iff] at hall
    have hmem : ∀ p ∈ ds.routes.val.zipIdx, p.1 ∈ ds.routes.val := fun p hp =>
      List.fst_mem_of_mem_zipIdx hp
    have heq : List.Forall₂ Eq (ds.routes.val.zipIdx.map Prod.fst) t.val :=
      List.forall₂_map_left_iff.mpr <| ((List.forall₂_and_left _ _).mpr ⟨hmem, hall⟩).imp
        fun p rt ⟨hp, hrt⟩ =>
          (loadRoute_sec ⟨rfl, rfl, routeFields_keyed p.1⟩ (hvia _ hp) hrt).symm
    rw [List.forall₂_eq_eq_eq, List.zipIdx_map_fst] at heq
    have ht : ds.routes = t := Subtype.ext heq
    rw [← Except.ok.inj hl, ht]

/-- Equal in every field, up to the DHCP command of a bridge that does not use it. -/
def SameConfig (ds ds' : DesiredState) : Prop :=
  ds' = { ds with brDhcpCmd := ds'.brDhcpCmd } ∧
    (ds.brAddrMode = .dhcp → ds'.brDhcpCmd = ds.brDhcpCmd)

/-- **The tree of a state is loaded as that state.** -/
theorem loadState_stateNode {scn : Scenario} (hds : ds.Loaded scn)
    (h : IsSec root (stateFields ds)) (hl : loadState root = .ok ds') : SameConfig ds ds' := by
  simp only [loadState, bind_eq_ok] at hl
  obtain ⟨scenario, hs, hl⟩ := hl
  obtain rfl := h.getStr_buf (b := ds.scenario) rfl rfl hs
  rw [hds.scenario] at hl
  obtain ⟨ds₁, h₁, hl⟩ := bind_eq_ok.mp hl
  obtain rfl := loadRoutes_sec h hds.via hl
  cases scn with
  | onlyUplink =>
    obtain rfl := loadUplink_sec h h₁
    obtain ⟨hbr, hmode, hports⟩ := hds.noBridge rfl
    have hst := hds.notStatic (by simp [hmode])
    have hv := hds.noVlan (by simp)
    have hw := hds.noWgVxlan (by simp)
    refine ⟨?_, by simp [hmode]⟩
    simp [DesiredState.zero, hbr, hmode, hports, hst, hv, hw]
  | uplinkBridge =>
    obtain ⟨ds₂, h₂, h₁⟩ := bind_eq_ok.mp h₁
    obtain ⟨cmd, rfl, hcmd⟩ := loadBridge_sec h hds.notStatic h₂
    obtain rfl := loadUplink_sec h h₁
    have hv := hds.noVlan (by simp)
    have hw := hds.noWgVxlan (by simp)
    refine ⟨?_, hcmd⟩
    simp [DesiredState.zero, hv, hw]
  | vlanBridge =>
    obtain ⟨ds₃, h₃, h₁⟩ := bind_eq_ok.mp h₁
    obtain ⟨ds₂, h₂, h₃⟩ := bind_eq_ok.mp h₃
    obtain ⟨cmd, rfl, hcmd⟩ := loadBridge_sec h hds.notStatic h₂
    obtain rfl := loadUplink_sec h h₃
    obtain rfl := loadVlan_sec h h₁ (hds.vlan rfl).1 (hds.vlan rfl).2
    have hw := hds.noWgVxlan (by simp)
    refine ⟨?_, hcmd⟩
    simp [DesiredState.zero, hw]
  | wgVxlanBridge =>
    obtain ⟨ds₂, h₂, h₁⟩ := bind_eq_ok.mp h₁
    obtain ⟨cmd, rfl, hcmd⟩ := loadBridge_sec h hds.notStatic h₂
    have hv := hds.noVlan (by simp)
    rw [h.cfgChild_eq (k := "uplink".toList) rfl] at h₁
    by_cases hup : ds.upIfname.val = []
    · rw [if_neg (not_not.mpr hup), Option.map_none, if_neg (by simp)] at h₁
      obtain rfl := loadWgVxlan_sec h h₁
      refine ⟨?_, hcmd⟩
      simp [DesiredState.zero, hv, CBuf.val_eq_nil_iff.mp hup]
    · rw [if_pos hup, Option.map_some, if_pos (by simp)] at h₁
      obtain ⟨ds₃, h₃, h₁⟩ := bind_eq_ok.mp h₁
      obtain rfl := loadUplink_sec h h₃
      obtain rfl := loadWgVxlan_sec h h₁
      refine ⟨?_, hcmd⟩
      simp [DesiredState.zero, hv]

end Load

/-! ## Loading the text of a set -/

section LoadSet

variable {ids : List CStr} {l : List DesiredState}

theorem idFields_keyed (hlen : ids.length = l.length) (hnd : ids.Nodup)
    (hk : ∀ id ∈ ids, IsKey id) : Keyed (idFields ids l) := by
  have hkeys : (idFields ids l).map Prod.fst = ids := by
    rw [idFields, List.map_map]
    exact List.map_fst_zip hlen.le
  unfold Keyed
  rw [hkeys]
  exact ⟨hnd, hk⟩

theorem writable_setNode (hlen : ids.length = l.length) (hnd : ids.Nodup)
    (hk : ∀ id ∈ ids, IsKey id) (hne : l ≠ []) :
    Writable CFG_PATH_DEPTH_MAX (setNode ids l) := by
  have hstates : Writable 63 (secNode (idFields ids l)) := by
    refine writable_secNode (idFields_keyed hlen hnd hk) ?_ ?_
    · intro f hf
      obtain ⟨p, -, rfl⟩ := List.mem_map.mp hf
      simpa using writable_stateNode p.2
    · obtain ⟨ds, l, rfl⟩ := List.exists_cons_of_ne_nil hne
      obtain ⟨id, ids, rfl⟩ := List.exists_cons_of_length_eq_add_one hlen
      exact ⟨_, _, List.mem_cons_self⟩
  refine writable_secNode (keyed_of_eq ["state"] rfl (by decide)) ?_ ⟨_, _, List.mem_cons_self⟩
  simpa using hstates

theorem length_line_le {a : Assign} (hp : (printPath a.1).length < 256) (hv : ShortVal a.2) :
    a.line.length + 1 ≤ 4095 := by
  have hq := length_quote_le a.2
  have hl := hv.length_lt
  simp only [Assign.line, assignLine, List.length_append, List.length_cons]
  omega

/-- The text of a set with distinct ids builds its tree. -/
theorem cfgLoad_setAssigns (hlen : ids.length = l.length) (hnd : ids.Nodup)
    (hk : ∀ id ∈ ids, IsKey id) (hne : l ≠ [])
    (hp : ∀ a ∈ setAssigns ids l, (printPath a.1).length < 256) :
    cfgLoad (assignText (setAssigns ids l)) = .ok (setNode ids l) := by
  have hw := writable_setNode hlen hnd hk hne
  have hroot : WfRoot (setNode ids l) := ⟨hw.wf, rfl, rfl⟩
  have hload := hroot.load_assigns fun a ha =>
    length_line_le (hp a (assigns_setNode ids l ▸ ha)) (hw.short a ha)
  rwa [assigns_setNode, hw.prune_eq] at hload

/-- The tree of a set is loaded state by state. -/
theorem loadSet_setNode (hlen : ids.length = l.length) (hnd : ids.Nodup)
    (hk : ∀ id ∈ ids, IsKey id) (hl : ∀ ds ∈ l, ∃ scn, ds.Loaded scn) {set : DesiredSet}
    (h : loadSet (setNode ids l) = .ok set) : List.Forall₂ SameConfig l set.val := by
  have hroot : IsSec (setNode ids l) [("state".toList, some (secNode (idFields ids l)))] :=
    ⟨rfl, rfl, keyed_of_eq ["state"] rfl (by decide)⟩
  have hscn : cfgChild (setNode ids l) "scenario".toList = none := rfl
  simp only [loadSet, hscn, Option.isSome_none, Bool.false_eq_true, if_false, bind_eq_ok] at h
  obtain ⟨states, hst, t, ht, -, -, h⟩ := h
  obtain ⟨-, hsec⟩ := hroot.getSection_eq (c := True) (idFields_keyed hlen hnd hk) rfl hst
  have hall := collect_eq_ok ht
  rw [hsec.child, idFields, ofFields_map, List.forall₂_map_left_iff] at hall
  have hmem : ∀ p ∈ ids.zip l, p.2 ∈ l := fun p hp => (List.of_mem_zip hp).2
  have hsame : List.Forall₂ SameConfig ((ids.zip l).map Prod.snd) t.val :=
    List.forall₂_map_left_iff.mpr <| ((List.forall₂_and_left _ _).mpr ⟨hmem, hall⟩).imp
      fun p ds h => by
        obtain ⟨hp, hds⟩ := h
        obtain ⟨scn, hscn⟩ := hl _ hp
        exact loadState_stateNode hscn ⟨rfl, rfl, stateFields_keyed p.2⟩ hds
  rw [List.map_snd_zip hlen.ge] at hsame
  rwa [← Except.ok.inj h]

end LoadSet

theorem nodup_of_stateIds {set : DesiredSet} {ids : List CStr}
    (h : stateIds set = ids.map .ok) : (stateIds set).Nodup ↔ ids.Nodup := by
  rw [h]
  exact List.nodup_map_iff fun _ _ => Except.ok.inj

/-- Loading what was written, for any states of the shape the loader gives them. -/
theorem sameConfig_of_cfgSet {set set' : DesiredSet} {text : CStr}
    (hl : ∀ ds ∈ set.val, ∃ scn, ds.Loaded scn) (hid : (stateIds set).Nodup)
    (hw : cfgSet set = .ok text) (hr : yamlLoadDesiredSet text = .ok set') :
    List.Forall₂ SameConfig set.val set'.val := by
  obtain ⟨ids, hids, hlen, hkeys, rfl, hp⟩ := cfgSet_eq_ok hw
  have hnd := (nodup_of_stateIds hids).mp hid
  obtain ⟨root, hroot, hr⟩ := bind_eq_ok.mp hr
  by_cases hne : set.val = []
  · -- the empty text is not a configuration
    rw [hne, List.length_nil, List.length_eq_zero_iff] at hlen
    rw [hne, hlen, setAssigns] at hroot
    obtain rfl := Except.ok.inj hroot
    cases hr
  · rw [cfgLoad_setAssigns hlen hnd hkeys hne hp] at hroot
    obtain rfl := Except.ok.inj hroot
    exact loadSet_setNode hlen hnd hkeys hl hr

/-- **Writer and loader are inverse**: a set that the loader or the UCI builder returns, with
distinct ids, is loaded back from the text written for it. -/
theorem yamlLoadDesiredSet_cfgSet {set set' : DesiredSet} {text : CStr}
    (hset : (∃ t, yamlLoadDesiredSet t = .ok set) ∨
      ∃ network wireless, uciBuildDesiredSet network wireless = .ok set)
    (hid : (stateIds set).Nodup) (hw : cfgSet set = .ok text)
    (hr : yamlLoadDesiredSet text = .ok set') : List.Forall₂ SameConfig set.val set'.val := by
  refine sameConfig_of_cfgSet ?_ hid hw hr
  rcases hset with ⟨t, ht⟩ | ⟨network, wireless, hb⟩
  · exact yamlLoadDesiredSet_loaded ht
  · exact fun ds hds => (uciBuildDesiredSet_built hb ds hds).imp fun _ h => h.1

/-- A configuration with two states. -/
def twoStates : CStr := unlines [
  "state.a.scenario = vlan_bridge", "state.a.bridge.name = br0", "state.a.bridge.addr = 10.0.0.2/24",
  "state.a.bridge.dns[] = 10.0.0.1", "state.a.bridge.ports[] = eth1", "state.a.uplink.ifname = eth0",
  "state.a.vlan.ifname = v7", "state.a.vlan.id = 0x7", "state.a.routes.x.dst = 10.1.0.0/16",
  "state.a.routes.x.dev = br0", "state.b.scenario = only_uplink", "state.b.uplink.ifname = eth2"]

theorem twoStates_roundTrip : ∃ set text set', yamlLoadDesiredSet twoStates = .ok set ∧
    cfgSet set = .ok text ∧ yamlLoadDesiredSet text = .ok set' ∧
    List.Forall₂ SameConfig set.val set'.val := by
  have h : (do
      let set ← yamlLoadDesiredSet twoStates
      let text ← cfgSet set
      let _ ← yamlLoadDesiredSet text
      return decide (stateIds set).Nodup) = .ok true := by decide +kernel
  simp only [bind_eq_ok, pure_eq_ok] at h
  obtain ⟨set, hset, text, hw, set', hr, hid⟩ := h
  have hid' : (stateIds set).Nodup := of_decide_eq_true (Except.ok.inj hid)
  exact ⟨set, text, set', hset, hw, hr, yamlLoadDesiredSet_cfgSet (.inl ⟨_, hset⟩) hid' hw hr⟩

/-! ## States with the same id -/

/-- The children after a walk has entered the child `k`: the others are as before. -/
theorem mem_enterKey {cur c : CfgNode} {k : CStr} {want : CfgType} {f : CfgNode → Rc × CfgNode}
    (hc : c ∈ (enterKey cur k want f).2.child) :
    c ∈ cur.child ∨ (∃ a ∈ cur.child, a.name = some k ∧ c = (f a).2) ∨
      c = (f (nodeNew want (some k))).2 := by
  rw [enterKey] at hc
  split at hc
  · exact .inl hc
  · split at hc
    · rcases List.mem_append.mp hc with hc | hc
      · exact .inl hc
      · exact .inr (.inr (List.mem_singleton.mp hc))
    · rename_i rc cs hf
      obtain ⟨l₁, a, l₂, hn, -, ha, -, rfl⟩ := onFirst_eq_some hf
      rw [hn]
      rcases List.mem_append.mp hc with hc | hc
      · exact .inl (List.mem_append_left _ hc)
      · rcases List.mem_cons.mp hc with rfl | hc
        · split
          · exact .inl (by simp)
          · exact .inr (.inl ⟨a, by simp, by simpa [hasName] using ha, rfl⟩)
        · exact .inl (List.mem_append_right _ (List.mem_cons_of_mem a hc))

/-- A write at a key adds at most a child of that name. -/
theorem setToks_child_name {v k : CStr} {t : Tok} {toks : List Tok} {n c : CfgNode}
    (hc : c ∈ (setToks v (.key k :: t :: toks) n).2.child) :
    c.name = some k ∨ ∃ b ∈ n.child, c.name = b.name := by
  rcases mem_enterKey hc with hc | ⟨a, -, ha, rfl⟩ | rfl
  · exact .inr ⟨c, hc, rfl⟩
  · exact .inl ((setToks_name_type v (t :: toks) a).1.trans ha)
  · exact .inl (setToks_name_type v (t :: toks) _).1

/-- The root has at most sections `state`, and their children are named by the ids. -/
def NamedBy (ids : List CStr) (root : CfgNode) : Prop :=
  ∀ st ∈ root.child, st.name = some "state".toList ∧
    ∀ c ∈ st.child, ∃ id ∈ ids, c.name = some id

theorem setAssign_eq_ok {root root' : CfgNode} {a : Assign} (h : setAssign root a = .ok root') :
    root' = (setToks a.2 a.1 root).2 := by
  unfold setAssign at h
  split at h
  · rename_i he
    rw [he, ← Except.ok.inj h]
  · cases h

theorem setAssign_namedBy {ids : List CStr} {id : CStr} {root root' : CfgNode} {b : Assign}
    (h : NamedBy ids root) (hid : id ∈ ids) (hb : ∃ k toks, b.1 = .key k :: toks)
    (hs : setAssign root (below ["state".toList, id] b) = .ok root') : NamedBy ids root' := by
  obtain ⟨k, toks, hb⟩ := hb
  have hroot : root' = (setToks b.2 (.key "state".toList :: .key id :: .key k :: toks) root).2 := by
    rw [setAssign_eq_ok hs, below, hb]
    rfl
  subst hroot
  intro st hst
  refine ⟨?_, fun c hc => ?_⟩
  · rcases setToks_child_name hst with hn | ⟨b', hb', hn⟩
    · exact hn
    · exact hn.trans (h b' hb').1
  · rcases mem_enterKey hst with hst | ⟨a, ha, -, rfl⟩ | rfl
    · exact (h st hst).2 c hc
    · rcases setToks_child_name hc with hn | ⟨b', hb', hn⟩
      · exact ⟨id, hid, hn⟩
      · rw [hn]
        exact (h a ha).2 b' hb'
    · rcases setToks_child_name hc with hn | ⟨b', hb', -⟩
      · exact ⟨id, hid, hn⟩
      · cases hb'

theorem setAssign_wf {root root' : CfgNode} {a : Assign} (h : WfRoot root) (ha : a.Printable)
    (hs : setAssign root a = .ok root') : WfRoot root' := by
  rw [setAssign_eq_ok hs]
  exact h.keeps (keeps_setToks ha.nul_notMem ha.length_le ha.file.valid)

theorem mem_setAssigns {ids : List CStr} {l : List DesiredState} {a : Assign}
    (h : a ∈ setAssigns ids l) : ∃ id ∈ ids, ∃ ds, ∃ b ∈ assigns (stateNode ds),
      a = below ["state".toList, id] b := by
  obtain ⟨p, hp, ha⟩ := List.mem_flatMap.mp h
  obtain ⟨b, hb, rfl⟩ := List.mem_map.mp ha
  exact ⟨p.1, (List.of_mem_zip hp).1, p.2, b, hb, rfl⟩

theorem setAssigns_printable {ids : List CStr} {l : List DesiredState}
    (hk : ∀ id ∈ ids, IsKey id) {a : Assign} (h : a ∈ setAssigns ids l) :
    a.Printable ∧ ShortVal a.2 := by
  obtain ⟨id, hid, ds, b, hb, rfl⟩ := mem_setAssigns h
  have hw : Writable 3 (stateNode ds) := writable_stateNode ds
  obtain ⟨hf, hlen, hv, -⟩ := assigns_printable hw.wf hb
  refine ⟨⟨⟨_, _, rfl⟩, .key (by decide) (.key (hk id hid) hf), ?_, hv⟩, hw.short b hb⟩
  simp only [below, List.length_append, List.length_map, List.length_cons, List.length_nil]
  exact (Nat.add_le_add_left hlen _).trans (by decide)

theorem mem_of_getSection {root st : CfgNode} {k : CStr} (h : getSection root k = .ok st) :
    st ∈ root.child ∧ st.type = .obj := by
  unfold getSection cfgChild objFind at h
  split at h
  · cases h
  · rename_i node hnode
    split at hnode
    · cases hnode
    · split at h
      · cases h
      · rename_i ht
        obtain rfl := Except.ok.inj h
        exact ⟨List.mem_of_find?_eq_some hnode, not_not.mp ht⟩

theorem names_nodup_of_wf {d : Nat} {n : CfgNode} (h : n.Wf d) (ht : n.type = .obj) :
    (n.child.map CfgNode.name).Nodup := by
  cases h with
  | str _ => cases ht
  | arr _ _ _ => cases ht
  | obj _ _ hnd _ => exact hnd

/-- **States with the same id are merged**: the loaded set has at most one state for each id. -/
theorem nodup_of_length_le {set set' : DesiredSet} {text : CStr} (hw : cfgSet set = .ok text)
    (hr : yamlLoadDesiredSet text = .ok set') (hlen : set.val.length ≤ set'.val.length) :
    (stateIds set).Nodup := by
  obtain ⟨ids, hids, hl, hkeys, rfl, hp⟩ := cfgSet_eq_ok hw
  rw [nodup_of_stateIds hids]
  obtain ⟨root, hroot, hr⟩ := bind_eq_ok.mp hr
  have hprint := fun a (ha : a ∈ setAssigns ids set.val) => setAssigns_printable hkeys ha
  rw [cfgLoad_assignText (fun a ha => (hprint a ha).1)
    fun a ha => length_line_le (hp a ha) (hprint a ha).2] at hroot
  have hwf : WfRoot root := foldlM_invariant
    (fun st a ha st' hst hs => setAssign_wf hst (hprint a ha).1 hs) wfRoot_cfgInit hroot
  have hnamed : NamedBy ids root := by
    refine foldlM_invariant (fun st a ha st' hst hs => ?_) (by simp [NamedBy, cfgInit, nodeNew]) hroot
    obtain ⟨id, hid, ds, b, hb, rfl⟩ := mem_setAssigns ha
    exact setAssign_namedBy hst hid (mem_assigns_secNode hb) hs
  have hscn : cfgChild root "scenario".toList = none := by
    rw [cfgChild, objFind, if_neg (not_not.mpr hwf.type), List.find?_eq_none]
    intro st hst
    rw [hasName, (hnamed st hst).1]
    decide
  simp only [loadSet, hscn, Option.isSome_none, Bool.false_eq_true, if_false, bind_eq_ok] at hr
  obtain ⟨st, hst, t, ht, -, -, hr⟩ := hr
  obtain ⟨hmem, htype⟩ := mem_of_getSection hst
  -- one loaded state for each child, and the names of the children are distinct ids
  have hcount : st.child.length = set'.val.length := by
    rw [← Except.ok.inj hr]
    exact (collect_eq_ok ht).length_eq
  have hsub : st.child.map CfgNode.name ⊆ ids.map some := by
    intro nm hnm
    obtain ⟨c, hc, rfl⟩ := List.mem_map.mp hnm
    obtain ⟨id, hid, hn⟩ := (hnamed st hmem).2 c hc
    exact hn ▸ List.mem_map_of_mem hid
  have hnd := names_nodup_of_wf (hwf.wf.child_wf hmem) htype
  have hperm := (hnd.subperm hsub).perm_of_length_le (by simp; omega)
  exact (hperm.nodup_iff.mp hnd).of_map _

theorem SameConfig.brName_eq {ds ds' : DesiredState} (h : SameConfig ds ds') :
    ds'.brName = ds.brName := by
  rw [h.1]

/-- The ids of states with a bridge are their bridge names, made keys. -/
theorem ids_eq_idName {l : List DesiredState} {i : Nat} {ids : List CStr}
    (hids : (l.zipIdx i).map (fun p => cfgStateId p.1 p.2) = ids.map .ok)
    (hne : ∀ ds ∈ l, ds.brName.val ≠ []) : ids = l.map fun ds => idName ds.brName := by
  induction l generalizing i ids with
  | nil => simpa using hids.symm
  | cons ds l ih =>
    obtain ⟨id, ids, rfl⟩ : ∃ id ids', ids = id :: ids' :=
      List.exists_cons_of_ne_nil fun he => by simp [he, List.zipIdx_cons] at hids
    rw [List.zipIdx_cons, List.map_cons, List.map_cons, List.cons.injEq] at hids
    rw [List.map_cons, cfgStateId_eq_ok (hne ds List.mem_cons_self) hids.1,
      ih hids.2 fun b hb => hne b (List.mem_cons_of_mem ds hb)]

/-- **Exactly when no bridge is lost on the UCI path**: the names, made keys, are distinct. -/
theorem uciLoadDesiredSet_brNames_iff {network wireless : UciSource} {set set' : DesiredSet}
    (hb : uciBuildDesiredSet network wireless = .ok set)
    (hl : uciLoadDesiredSet network wireless = .ok set') :
    set'.val.map DesiredState.brName = set.val.map DesiredState.brName ↔
      (set.val.map fun ds => idName ds.brName).Nodup := by
  rw [uciLoadDesiredSet, hb, ok_bind, bind_eq_ok] at hl
  obtain ⟨text, hw, hr⟩ := hl
  have hbuilt := uciBuildDesiredSet_built hb
  have hids : (stateIds set).Nodup ↔ (set.val.map fun ds => idName ds.brName).Nodup := by
    obtain ⟨ids, hids, -⟩ := cfgSet_eq_ok hw
    rw [nodup_of_stateIds hids,
      ids_eq_idName hids fun ds hds => (hbuilt ds hds).elim fun _ h => h.2.2]
  rw [← hids]
  constructor
  · intro heq
    refine nodup_of_length_le hw hr ?_
    simpa using (congrArg List.length heq).ge
  · intro hnd
    have hsame := sameConfig_of_cfgSet (fun ds hds => (hbuilt ds hds).imp fun _ h => h.1) hnd hw hr
    have hnames : List.Forall₂ Eq (set.val.map DesiredState.brName)
        (set'.val.map DesiredState.brName) :=
      List.forall₂_map_left_iff.mpr <| List.forall₂_map_right_iff.mpr <|
        hsame.imp fun _ _ h => h.brName_eq.symm
    exact (List.forall₂_eq_eq_eq ▸ hnames : set.val.map DesiredState.brName = _).symm

/-- Two bridges whose names differ in a byte that cannot stand in a key. -/
def twoBridges : UciSource := .file <| .ok <| unlines [
  "network.d1=device", "network.d1.type='bridge'", "network.d1.name='br-lan'",
  "network.d1.ports='eth0'", "network.lan=interface", "network.lan.device='br-lan'",
  "network.lan.proto='dhcp'", "network.d2=device", "network.d2.type='bridge'",
  "network.d2.name='br_lan'", "network.d2.ports='eth1'", "network.iot=interface",
  "network.iot.device='br_lan'", "network.iot.proto='dhcp'"]

/-- The names of the bridges of a set. -/
def brNames (set : DesiredSet) : List CStr := set.val.map fun ds => ds.brName.val

theorem twoBridges_merged :
    (uciBuildDesiredSet twoBridges (.file (.ok []))).map brNames =
      .ok ["br-lan".toList, "br_lan".toList] ∧
    (uciLoadDesiredSet twoBridges (.file (.ok []))).map brNames = .ok ["br_lan".toList] := by
  decide +kernel

/-- The first of the two bridges alone. -/
def oneBridge : UciSource := .file <| .ok <| unlines [
  "network.d1=device", "network.d1.type='bridge'", "network.d1.name='br-lan'",
  "network.d1.ports='eth0'", "network.lan=interface", "network.lan.device='br-lan'",
  "network.lan.proto='dhcp'"]

theorem oneBridge_kept : ∃ set set', uciBuildDesiredSet oneBridge (.file (.ok [])) = .ok set ∧
    uciLoadDesiredSet oneBridge (.file (.ok [])) = .ok set' ∧
    set'.val.map DesiredState.brName = set.val.map DesiredState.brName := by
  have h : (do
      let set ← uciBuildDesiredSet oneBridge (.file (.ok []))
      let _ ← uciLoadDesiredSet oneBridge (.file (.ok []))
      return decide (set.val.map fun ds : DesiredState => idName ds.brName).Nodup) = .ok true := by
    decide +kernel
  simp only [bind_eq_ok, pure_eq_ok] at h
  obtain ⟨set, hb, set', hl, hnd⟩ := h
  have hnd' := of_decide_eq_true (Except.ok.inj hnd)
  exact ⟨set, set', hb, hl, (uciLoadDesiredSet_brNames_iff hb hl).mpr hnd'⟩

end Netrec
