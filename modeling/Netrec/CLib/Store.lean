import Mathlib.Data.List.Infix
import Mathlib.Tactic

/-!
# Hierarchical stores

A hierarchical store gives every address, a list of keys, at most one cell: a string, an array of
strings, or a directory. A write makes the proper prefixes of its address directories, and is
refused when one of them holds something else or when the address itself holds the wrong kind of
cell. A list of writes to an empty store is accepted exactly when no address is used in two roles,
whatever the order of the writes, and the store it builds can be read off the list.

## Main definitions

* `Cell`, `Store`: cells, and stores as functions of the address
* `position n i`: the position a possibly negative index stands for in `n` entries
* `Leaf`, `Leaf.apply`: the last step of a write, and what it does to a cell
* `Store.Clear s p`, `Store.put s p c`: the condition on the prefixes of an address, and the store
  after a write
* `Store.remove s p`, `Store.del s p leaf`: the store without everything at and below an address,
  and the store after a deletion
* `Entry`, `Store.Runs`: writes, and the stores they build
* `Consistent ws`, `meaning ws`: no address has two roles, and the store the writes describe

## Main results

* `runs_iff`: the writes that are accepted, and the store they build
-/

namespace CLib

variable {K V : Type}

/-- What an address holds. -/
inductive Cell (V : Type)
  | str (v : V)
  | arr (vs : List V)
  | obj
  deriving DecidableEq

/-- A store: the cell at each address, if there is one. -/
abbrev Store (K V : Type) := List K → Option (Cell V)

/-- The position an index stands for among `n` entries; a negative one counts from the end. -/
def position (n : Nat) (i : Int) : Option Nat :=
  if 0 ≤ i then if i < n then some i.toNat else none
  else if 0 ≤ n + i then some (n + i).toNat else none

theorem position_lt {n j : Nat} {i : Int} (h : position n i = some j) : j < n := by
  unfold position at h
  split_ifs at h with h₁ h₂ h₃
  · obtain rfl := Option.some.inj h
    omega
  · obtain rfl := Option.some.inj h
    omega

theorem position_nat {n j : Nat} (h : j < n) : position n (j : Int) = some j := by
  simp [position, h]

theorem position_of_le {n j : Nat} (h : n ≤ j) : position n (j : Int) = none := by
  rw [position, if_pos (by omega), if_neg (by omega)]

@[simp] theorem position_zero (i : Int) : position 0 i = none := by
  unfold position
  split_ifs <;> first | rfl | omega

/-- The negative index of an entry stands for the same position. -/
theorem position_neg {n j : Nat} (h : j < n) : position n ((j : Int) - n) = some j := by
  have h₁ : ¬ (0 ≤ (j : Int) - n) := by omega
  have h₂ : (n : Int) + ((j : Int) - n) = j := by omega
  rw [position, if_neg h₁, h₂, if_pos (by omega)]
  simp

/-! ## Writes -/

/-- The last step of a write: to the address itself, behind the entries of the array there, or at
one of its entries. -/
inductive Leaf
  | plain
  | append
  | index (i : Int)
  deriving DecidableEq

/-- The cell a write of `v` leaves, given the one it finds; `none` when it is refused. -/
def Leaf.apply (v : V) : Leaf → Option (Cell V) → Option (Cell V)
  | plain, none => some (.str v)
  | plain, some (.str _) => some (.str v)
  | append, none => some (.arr [v])
  | append, some (.arr vs) => some (.arr (vs ++ [v]))
  | index i, some (.arr vs) => (position vs.length i).map fun j => .arr (vs.set j v)
  | _, _ => none

namespace Store

/-- Every proper prefix of the address is absent or a directory. -/
def Clear (s : Store K V) (p : List K) : Prop :=
  ∀ q, q <+: p → q ≠ p → s q = none ∨ s q = some .obj

theorem clear_nil (s : Store K V) : s.Clear [] :=
  fun _ hq hne => absurd (List.prefix_nil.mp hq) hne

theorem clear_cons {s : Store K V} {k : K} {p : List K} :
    s.Clear (k :: p) ↔ (s [] = none ∨ s [] = some .obj) ∧ Clear (fun q => s (k :: q)) p := by
  constructor
  · intro h
    exact ⟨h [] List.nil_prefix (by simp), fun q hq hne =>
      h (k :: q) (List.cons_prefix_cons.mpr ⟨rfl, hq⟩) (by simpa using hne)⟩
  · rintro ⟨h₀, h⟩ q hq hne
    cases q with
    | nil => exact h₀
    | cons j q =>
      obtain ⟨rfl, hq'⟩ := List.cons_prefix_cons.mp hq
      exact h q hq' (by simpa using hne)

variable [DecidableEq K]

/-- The store with a cell at an address and directories above it. -/
def put (s : Store K V) (p : List K) (c : Cell V) : Store K V :=
  fun q => if q = p then some c else if q <+: p then some .obj else s q

/-- The store without everything at and below an address. -/
def remove (s : Store K V) (p : List K) : Store K V := fun q => if p <+: q then none else s q

/-- The store after a deletion: of everything at and below an address, or of one entry of the array
there; `none` when it is refused. -/
def del (s : Store K V) (p : List K) : Leaf → Option (Store K V)
  | .plain => if (s p).isSome then some (s.remove p) else none
  | .append => none
  | .index i =>
    match s p with
    | some (.arr vs) => (position vs.length i).map fun j => s.put p (.arr (vs.eraseIdx j))
    | _ => none

/-- The empty store: the root is a directory. -/
def init : Store K V := fun p => if p = [] then some .obj else none

@[simp] theorem put_self (s : Store K V) (p : List K) (c : Cell V) : s.put p c p = some c :=
  if_pos rfl

theorem put_of_prefix (s : Store K V) {p q : List K} (c : Cell V) (h : q <+: p) (hne : q ≠ p) :
    s.put p c q = some .obj := by
  rw [put, if_neg hne, if_pos h]

theorem put_of_not_prefix (s : Store K V) {p q : List K} (c : Cell V) (h : ¬ q <+: p) :
    s.put p c q = s q := by
  have hne : q ≠ p := fun e => h (e ▸ List.prefix_rfl)
  rw [put, if_neg hne, if_neg h]

end Store

/-! ## Lists of writes -/

/-- A write without an index: its address, whether it appends, and its value. -/
structure Entry (K V : Type) where
  path : List K
  app : Bool
  val : V

/-- The last step of an entry. -/
def Entry.leaf (w : Entry K V) : Leaf := if w.app then .append else .plain

/-- How an address is used by a list of writes. -/
inductive Role
  | str
  | arr
  | obj
  deriving DecidableEq

/-- The address has a role: it is written to, appended to, or a proper prefix of one that is. -/
def HasRole (ws : List (Entry K V)) (p : List K) : Role → Prop
  | .str => ∃ w ∈ ws, w.path = p ∧ w.app = false
  | .arr => ∃ w ∈ ws, w.path = p ∧ w.app = true
  | .obj => ∃ w ∈ ws, p <+: w.path ∧ p ≠ w.path

/-- No address is used in two roles. -/
def Consistent (ws : List (Entry K V)) : Prop :=
  ∀ p r r', HasRole ws p r → HasRole ws p r' → r = r'

theorem HasRole.append_left {ws ws' : List (Entry K V)} {p : List K} {r : Role}
    (h : HasRole ws p r) : HasRole (ws ++ ws') p r := by
  cases r <;> exact h.imp fun w hw => ⟨List.mem_append_left _ hw.1, hw.2⟩

/-- The roles that one more write adds. -/
theorem hasRole_concat {ws : List (Entry K V)} {w : Entry K V} {p : List K} {r : Role} :
    HasRole (ws ++ [w]) p r ↔ HasRole ws p r ∨ HasRole [w] p r := by
  cases r <;> simp [HasRole, or_and_right, exists_or]

section Meaning

variable [DecidableEq K]

/-- The values of the writes of one kind to an address, in order. -/
def valuesAt (ws : List (Entry K V)) (app : Bool) (p : List K) : List V :=
  (ws.filter fun w => w.path = p ∧ w.app = app).map Entry.val

/-- The store the writes describe: the last value written to an address, all values appended to
it, or a directory where another address continues. -/
def meaning (ws : List (Entry K V)) : Store K V := fun p =>
  match (valuesAt ws false p).getLast? with
  | some v => some (.str v)
  | none =>
    if valuesAt ws true p ≠ [] then some (.arr (valuesAt ws true p))
    else if p = [] ∨ ∃ w ∈ ws, p <+: w.path then some .obj
    else none

theorem valuesAt_ne_nil {ws : List (Entry K V)} {app : Bool} {p : List K} :
    valuesAt ws app p ≠ [] ↔ HasRole ws p (if app then .arr else .str) := by
  cases app <;> simp [valuesAt, HasRole, List.filter_eq_nil_iff]

@[simp] theorem valuesAt_concat (ws : List (Entry K V)) (w : Entry K V) (app : Bool) (p : List K) :
    valuesAt (ws ++ [w]) app p =
      valuesAt ws app p ++ if w.path = p ∧ w.app = app then [w.val] else [] := by
  by_cases h : w.path = p ∧ w.app = app <;> simp [valuesAt, h]

/-- The cell of an address, by its role. -/
theorem meaning_str {ws : List (Entry K V)} {p : List K} (h : HasRole ws p .str) :
    ∃ v, (valuesAt ws false p).getLast? = some v ∧ meaning ws p = some (.str v) := by
  have hne : valuesAt ws false p ≠ [] := valuesAt_ne_nil.mpr h
  refine ⟨_, List.getLast?_eq_some_getLast hne, ?_⟩
  rw [meaning, List.getLast?_eq_some_getLast hne]

theorem meaning_eq_str {ws : List (Entry K V)} {p : List K} {v : V} :
    meaning ws p = some (.str v) ↔ (valuesAt ws false p).getLast? = some v := by
  unfold meaning
  cases (valuesAt ws false p).getLast? with
  | some w => simp
  | none => simp only; split_ifs <;> simp

theorem valuesAt_of_meaning_arr {ws : List (Entry K V)} {p : List K} {vs : List V}
    (h : meaning ws p = some (.arr vs)) : valuesAt ws true p = vs := by
  unfold meaning at h
  cases hl : (valuesAt ws false p).getLast? with
  | some w => simp [hl] at h
  | none =>
    simp only [hl] at h
    split_ifs at h with h₁ h₂
    · simpa using h
    · simp at h

theorem valuesAt_eq_nil {ws : List (Entry K V)} {app : Bool} {p : List K} :
    valuesAt ws app p = [] ↔ ¬ HasRole ws p (if app then .arr else .str) := by
  rw [← valuesAt_ne_nil, not_not]

theorem meaning_arr {ws : List (Entry K V)} {p : List K} (hs : ¬ HasRole ws p .str)
    (h : HasRole ws p .arr) : meaning ws p = some (.arr (valuesAt ws true p)) := by
  have hs' : valuesAt ws false p = [] := valuesAt_eq_nil.mpr hs
  have hne : valuesAt ws true p ≠ [] := valuesAt_ne_nil.mpr h
  simp [meaning, hs', hne]

omit [DecidableEq K] in
theorem hasRole_obj_iff {ws : List (Entry K V)} {p : List K} (hs : ¬ HasRole ws p .str)
    (ha : ¬ HasRole ws p .arr) : (∃ w ∈ ws, p <+: w.path) ↔ HasRole ws p .obj := by
  have hpath : ∀ w ∈ ws, p ≠ w.path := by
    rintro w hw rfl
    cases happ : w.app with
    | false => exact hs ⟨w, hw, rfl, happ⟩
    | true => exact ha ⟨w, hw, rfl, happ⟩
  exact ⟨fun ⟨w, hw, h⟩ => ⟨w, hw, h, hpath w hw⟩, fun ⟨w, hw, h, _⟩ => ⟨w, hw, h⟩⟩

theorem meaning_obj {ws : List (Entry K V)} {p : List K} (hs : ¬ HasRole ws p .str)
    (ha : ¬ HasRole ws p .arr) (ho : p = [] ∨ HasRole ws p .obj) : meaning ws p = some .obj := by
  have hs' : valuesAt ws false p = [] := valuesAt_eq_nil.mpr hs
  have ha' : valuesAt ws true p = [] := valuesAt_eq_nil.mpr ha
  rw [← hasRole_obj_iff hs ha] at ho
  simp only [meaning, hs', ha', List.getLast?_nil, ne_eq, not_true_eq_false, if_false, if_pos ho]

theorem meaning_none {ws : List (Entry K V)} {p : List K} (hp : p ≠ [])
    (h : ∀ r, ¬ HasRole ws p r) : meaning ws p = none := by
  have hs' : valuesAt ws false p = [] := valuesAt_eq_nil.mpr (h .str)
  have ha' : valuesAt ws true p = [] := valuesAt_eq_nil.mpr (h .arr)
  have ho : ¬ (p = [] ∨ ∃ w ∈ ws, p <+: w.path) := by
    rw [hasRole_obj_iff (h .str) (h .arr), not_or]
    exact ⟨hp, h .obj⟩
  simp only [meaning, hs', ha', List.getLast?_nil, ne_eq, not_true_eq_false, if_false, if_neg ho]

/-- An address is free for directories when no write names it. -/
theorem meaning_clear {ws : List (Entry K V)} {p : List K} :
    (meaning ws p = none ∨ meaning ws p = some .obj) ↔
      ¬ HasRole ws p .str ∧ ¬ HasRole ws p .arr := by
  by_cases hs : HasRole ws p .str
  · obtain ⟨v, -, hv⟩ := meaning_str hs
    simp [hs, hv]
  · by_cases ha : HasRole ws p .arr
    · simp [ha, meaning_arr hs ha]
    · refine iff_of_true ?_ ⟨hs, ha⟩
      by_cases ho : p = [] ∨ HasRole ws p .obj
      · exact .inr (meaning_obj hs ha ho)
      · rw [not_or] at ho
        refine .inl (meaning_none ho.1 fun r => ?_)
        cases r with
        | str => exact hs
        | arr => exact ha
        | obj => exact ho.2

/-- The role of a write at its own address. -/
def Entry.role (w : Entry K V) : Role := if w.app then .arr else .str

omit [DecidableEq K] in
theorem Entry.role_ne_obj (w : Entry K V) : w.role ≠ .obj := by
  cases h : w.app <;> simp [Entry.role, h]

omit [DecidableEq K] in
/-- The roles of a single write. -/
theorem hasRole_singleton {w : Entry K V} {p : List K} {r : Role} :
    HasRole [w] p r ↔ (w.path = p ∧ w.role = r) ∨ (p <+: w.path ∧ p ≠ w.path ∧ r = .obj) := by
  cases r <;> cases h : w.app <;> simp [HasRole, Entry.role, h]

/-- A write is accepted at its own address when that has no other role. -/
theorem apply_meaning_isSome {ws : List (Entry K V)} (hc : Consistent ws) {w : Entry K V}
    (hw : w.path ≠ []) :
    (w.leaf.apply w.val (meaning ws w.path)).isSome ↔
      ∀ r, HasRole ws w.path r → r = w.role := by
  by_cases hs : HasRole ws w.path .str
  · -- the address holds a string, and only that
    obtain ⟨v, -, hv⟩ := meaning_str hs
    have hr : (∀ r, HasRole ws w.path r → r = w.role) ↔ w.role = .str :=
      ⟨fun h => (h _ hs).symm, fun h r hr => (hc _ _ _ hr hs).trans h.symm⟩
    rw [hr, hv]
    cases happ : w.app <;> simp [Entry.leaf, Entry.role, Leaf.apply, happ]
  · by_cases ha : HasRole ws w.path .arr
    · -- the address holds an array, and only that
      have hr : (∀ r, HasRole ws w.path r → r = w.role) ↔ w.role = .arr :=
        ⟨fun h => (h _ ha).symm, fun h r hr => (hc _ _ _ hr ha).trans h.symm⟩
      rw [hr, meaning_arr hs ha]
      cases happ : w.app <;> simp [Entry.leaf, Entry.role, Leaf.apply, happ]
    · -- the address is a directory or absent
      have hr : (∀ r, HasRole ws w.path r → r = w.role) ↔ ¬ HasRole ws w.path .obj := by
        refine ⟨fun h ho => w.role_ne_obj (h _ ho).symm, fun h r hr => ?_⟩
        cases r with
        | str => exact absurd hr hs
        | arr => exact absurd hr ha
        | obj => exact absurd hr h
      rw [hr]
      by_cases ho : HasRole ws w.path .obj
      · rw [meaning_obj hs ha (.inr ho)]
        cases happ : w.app <;> simp [Entry.leaf, Leaf.apply, happ, ho]
      · have hnone : meaning ws w.path = none := meaning_none hw fun r => by
          cases r with
          | str => exact hs
          | arr => exact ha
          | obj => exact ho
        rw [hnone]
        cases happ : w.app <;> simp [Entry.leaf, Leaf.apply, happ, ho]

/-- **One more write is accepted exactly when it keeps the roles apart.** -/
theorem consistent_concat {ws : List (Entry K V)} {w : Entry K V} (hw : w.path ≠ []) :
    Consistent (ws ++ [w]) ↔
      Consistent ws ∧ (meaning ws).Clear w.path ∧
        (w.leaf.apply w.val (meaning ws w.path)).isSome := by
  constructor
  · intro h
    have hc : Consistent ws := fun p r r' hr hr' => h p r r' hr.append_left hr'.append_left
    refine ⟨hc, fun q hq hne => meaning_clear.mpr ?_, (apply_meaning_isSome hc hw).mpr ?_⟩
    · -- the new write makes the prefix a directory
      have ho : HasRole (ws ++ [w]) q .obj :=
        hasRole_concat.mpr (.inr (hasRole_singleton.mpr (.inr ⟨hq, hne, rfl⟩)))
      exact ⟨fun hr => Role.noConfusion (h _ _ _ hr.append_left ho),
        fun hr => Role.noConfusion (h _ _ _ hr.append_left ho)⟩
    · intro r hr
      exact h _ _ _ hr.append_left
        (hasRole_concat.mpr (.inr (hasRole_singleton.mpr (.inl ⟨rfl, rfl⟩))))
  · rintro ⟨hc, hclear, happ⟩
    rw [apply_meaning_isSome hc hw] at happ
    -- an old role of an address that the new write uses is the new one
    have hmix : ∀ p r r', HasRole ws p r → HasRole [w] p r' → r = r' := by
      intro p r r' hr hr'
      obtain ⟨rfl, rfl⟩ | ⟨hpre, hne, rfl⟩ := hasRole_singleton.mp hr'
      · exact happ r hr
      · obtain ⟨hs, ha⟩ := meaning_clear.mp (hclear p hpre hne)
        cases r with
        | str => exact absurd hr hs
        | arr => exact absurd hr ha
        | obj => rfl
    intro p r r' hr hr'
    obtain hr | hr := hasRole_concat.mp hr
    · obtain hr' | hr' := hasRole_concat.mp hr'
      · exact hc p r r' hr hr'
      · exact hmix p r r' hr hr'
    · obtain hr' | hr' := hasRole_concat.mp hr'
      · exact (hmix p r' r hr' hr).symm
      · obtain ⟨rfl, rfl⟩ | ⟨hpre, hne, rfl⟩ := hasRole_singleton.mp hr <;>
          obtain ⟨h, rfl⟩ | ⟨hpre', hne', rfl⟩ := hasRole_singleton.mp hr'
        · rfl
        · exact absurd rfl hne'
        · exact absurd h.symm hne
        · rfl

/-- A write only changes the values at its own address. -/
theorem valuesAt_concat_of_ne (ws : List (Entry K V)) {w : Entry K V} {p : List K}
    (h : p ≠ w.path) (app : Bool) : valuesAt (ws ++ [w]) app p = valuesAt ws app p := by
  rw [valuesAt_concat, if_neg fun hw => h hw.1.symm, List.append_nil]

/-- **One more write that is accepted changes the store as it says.** -/
theorem meaning_concat {ws : List (Entry K V)} {w : Entry K V} {c : Cell V}
    (hclear : (meaning ws).Clear w.path) (hc : w.leaf.apply w.val (meaning ws w.path) = some c) :
    meaning (ws ++ [w]) = (meaning ws).put w.path c := by
  funext q
  by_cases hq : q = w.path
  · subst hq
    rw [Store.put_self]
    cases happ : w.app with
    | false =>
      -- a plain write leaves its value, whatever it finds
      have hcell : c = .str w.val := by
        rw [Entry.leaf, happ] at hc
        cases hm : meaning ws w.path with
        | none => simpa [Leaf.apply, hm, eq_comm] using hc
        | some d => cases d <;> simp_all [Leaf.apply]
      simp [meaning, happ, hcell]
    | true =>
      have hs : ¬ HasRole ws w.path .str := fun hs => by
        obtain ⟨v, -, hv⟩ := meaning_str hs
        simp [Entry.leaf, happ, Leaf.apply, hv] at hc
      have hcell : c = .arr (valuesAt ws true w.path ++ [w.val]) := by
        rw [Entry.leaf, happ] at hc
        by_cases ha : HasRole ws w.path .arr
        · rw [meaning_arr hs ha] at hc
          exact (Option.some.inj hc).symm
        · have ha' : valuesAt ws true w.path = [] := valuesAt_eq_nil.mpr ha
          cases hm : meaning ws w.path with
          | none =>
            rw [hm] at hc
            simpa [ha'] using (Option.some.inj hc).symm
          | some d =>
            have hobj := (meaning_clear.mpr ⟨hs, ha⟩).resolve_left (by simp [hm])
            rw [hobj] at hc
            simp [Leaf.apply] at hc
      have hs' : valuesAt ws false w.path = [] := valuesAt_eq_nil.mpr hs
      simp [meaning, happ, hs', hcell]
  · by_cases hpre : q <+: w.path
    · -- above the address, nothing is named
      rw [Store.put_of_prefix _ _ hpre hq]
      obtain ⟨hs, ha⟩ := meaning_clear.mp (hclear q hpre hq)
      refine meaning_obj ?_ ?_ (.inr ⟨w, by simp, hpre, hq⟩)
      · rw [hasRole_concat, hasRole_singleton]
        rintro (h | ⟨h, -⟩ | ⟨-, -, h⟩)
        · exact hs h
        · exact hq h.symm
        · exact Role.noConfusion h
      · rw [hasRole_concat, hasRole_singleton]
        rintro (h | ⟨h, -⟩ | ⟨-, -, h⟩)
        · exact ha h
        · exact hq h.symm
        · exact Role.noConfusion h
    · rw [Store.put_of_not_prefix _ _ hpre]
      have hex : (∃ x ∈ ws ++ [w], q <+: x.path) ↔ ∃ x ∈ ws, q <+: x.path := by
        simp [or_and_right, exists_or, hpre]
      simp only [meaning, valuesAt_concat_of_ne ws hq, hex]

/-- The stores that a list of writes builds from the empty one. -/
inductive Store.Runs : List (Entry K V) → Store K V → Prop
  | nil : Runs [] Store.init
  | concat {ws : List (Entry K V)} {s : Store K V} {w : Entry K V} {c : Cell V} : Runs ws s →
    s.Clear w.path → w.leaf.apply w.val (s w.path) = some c → Runs (ws ++ [w]) (s.put w.path c)

theorem Store.runs_concat {ws : List (Entry K V)} {w : Entry K V} {s' : Store K V} :
    Store.Runs (ws ++ [w]) s' ↔ ∃ s c, Store.Runs ws s ∧ s.Clear w.path ∧
      w.leaf.apply w.val (s w.path) = some c ∧ s' = s.put w.path c := by
  constructor
  · intro h
    generalize hws : ws ++ [w] = ws' at h
    cases h with
    | nil => simp at hws
    | concat h hclear hc =>
      obtain ⟨rfl, rfl⟩ := List.append_singleton_inj.mp hws
      exact ⟨_, _, h, hclear, hc, rfl⟩
  · rintro ⟨s, c, h, hclear, hc, rfl⟩
    exact .concat h hclear hc

theorem meaning_nil : meaning ([] : List (Entry K V)) = Store.init := by
  funext p
  simp [meaning, valuesAt, Store.init]

/-- **The writes that are accepted, and the store they build**: no address may have two roles, in
whatever order the writes come. -/
theorem runs_iff {ws : List (Entry K V)} (hws : ∀ w ∈ ws, w.path ≠ []) {s : Store K V} :
    Store.Runs ws s ↔ Consistent ws ∧ s = meaning ws := by
  constructor
  · intro h
    induction h with
    | nil => exact ⟨fun p r r' hr => by cases r <;> simp [HasRole] at hr, meaning_nil.symm⟩
    | @concat ws s w c _ hclear hc ih =>
      obtain ⟨hcons, rfl⟩ := ih fun x hx => hws x (List.mem_append_left _ hx)
      have hw : w.path ≠ [] := hws w (by simp)
      exact ⟨(consistent_concat hw).mpr ⟨hcons, hclear, by simp [hc]⟩,
        (meaning_concat hclear hc).symm⟩
  · rintro ⟨hcons, rfl⟩
    induction ws using List.reverseRecOn with
    | nil =>
      rw [meaning_nil]
      exact .nil
    | append_singleton ws w ih =>
      have hw : w.path ≠ [] := hws w (by simp)
      obtain ⟨hc, hclear, happ⟩ := (consistent_concat hw).mp hcons
      obtain ⟨c, hcell⟩ := Option.isSome_iff_exists.mp happ
      rw [meaning_concat hclear hcell]
      exact .concat (ih (fun x hx => hws x (List.mem_append_left _ hx)) hc) hclear hcell

end Meaning

end CLib
