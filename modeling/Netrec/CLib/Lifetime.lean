import Mathlib.Data.List.Pairwise
import Mathlib.Data.List.Basic

/-!
# Creation and deletion in command sequences

Commands that create, delete and mention named resources. Three properties of a sequence of commands
are studied: that a resource is not mentioned before the command that creates it, that a command is
followed by what it needs, and that a resource is not created twice without being deleted in
between. They are reduced to conditions that compose over concatenation.

## Main definitions

* `CreatedFirst`: resources are created before they are mentioned
* `ForallSuffix`, `ForallPrefix`: every command with what follows it, or with what precedes it
* `Life`, `AddsOnce`: every creation but the first is preceded by a deletion
* `Creation`: a creation, possibly directly after a deletion

## Main results

* `createdFirst_append`: the first property for a concatenation
* `addsOnce_iff_pairwise`: the second property for a sequence of creations
-/

namespace CLib

variable {α ν : Type}

/-! ## Creation before use -/

section CreatedFirst

variable (creates : α → Option ν) (names : α → List ν) (fresh : ν → Prop)

/-- A command that creates a fresh resource comes before every other command that names it. -/
def CreatedFirst (cs : List α) : Prop :=
  cs.Pairwise fun c c' => ∀ x ∈ creates c', fresh x → x ∉ names c

instance [DecidableEq ν] [DecidablePred fresh] (cs : List α) :
    Decidable (CreatedFirst creates names fresh cs) :=
  inferInstanceAs (Decidable (List.Pairwise (fun c c' => ∀ x ∈ creates c', fresh x → x ∉ names c) cs))

variable {creates names fresh}

theorem createdFirst_append {cs cs' : List α} : CreatedFirst creates names fresh (cs ++ cs') ↔
    CreatedFirst creates names fresh cs ∧ CreatedFirst creates names fresh cs' ∧
      ∀ x ∈ cs'.filterMap creates, fresh x → x ∉ cs.flatMap names := by
  simp only [CreatedFirst, List.pairwise_append, List.mem_filterMap, List.mem_flatMap, not_exists,
    not_and]
  refine and_congr_right fun _ => and_congr_right fun _ => ⟨?_, ?_⟩
  · rintro h x ⟨c', hc', hx⟩ hf c hc
    exact h c hc c' hc' x hx hf
  · intro h c hc c' hc' x hx hf
    exact h x ⟨c', hc', hx⟩ hf c hc

/-- Commands that create nothing are in order. -/
theorem CreatedFirst.of_creates_nothing {cs : List α} (h : cs.filterMap creates = []) :
    CreatedFirst creates names fresh cs := by
  rw [List.filterMap_eq_nil_iff] at h
  refine List.pairwise_of_forall_mem_list fun c _ c' hc' x hx => ?_
  simp [h c' hc'] at hx

end CreatedFirst

/-! ## What follows a command -/

section ForallSuffix

/-- Every command and what follows it satisfy `p`. -/
def ForallSuffix (p : α → List α → Prop) (cs : List α) : Prop :=
  ∀ l c l', cs = l ++ c :: l' → p c l'

variable {p : α → List α → Prop}

theorem forallSuffix_nil : ForallSuffix p [] := by
  intro l c l' h
  simp at h

theorem forallSuffix_cons {c : α} {cs : List α} :
    ForallSuffix p (c :: cs) ↔ p c cs ∧ ForallSuffix p cs := by
  constructor
  · intro h
    exact ⟨h [] c cs rfl, fun l d l' he => h (c :: l) d l' (by rw [he]; rfl)⟩
  · rintro ⟨hc, hcs⟩ l d l' he
    cases l with
    | nil =>
      obtain ⟨rfl, rfl⟩ := List.cons.inj he
      exact hc
    | cons e l =>
      obtain ⟨rfl, rfl⟩ := List.cons.inj he
      exact hcs l d l' rfl

theorem forallSuffix_append {cs cs' : List α} : ForallSuffix p (cs ++ cs') ↔
    ForallSuffix (fun c l => p c (l ++ cs')) cs ∧ ForallSuffix p cs' := by
  induction cs with
  | nil => simp [forallSuffix_nil]
  | cons c cs ih => simp only [List.cons_append, forallSuffix_cons, ih, and_assoc]

theorem forallSuffix_of_forall {cs : List α} (h : ∀ c ∈ cs, ∀ l, p c l) : ForallSuffix p cs := by
  rintro l c l' rfl
  exact h c (by simp) l'

/-- A property that does not mind more commands behind is kept by concatenation. -/
theorem ForallSuffix.append (hp : ∀ c l l', p c l → p c (l ++ l')) {cs cs' : List α}
    (h : ForallSuffix p cs) (h' : ForallSuffix p cs') : ForallSuffix p (cs ++ cs') :=
  forallSuffix_append.mpr ⟨fun l c l' he => hp c l' cs' (h l c l' he), h'⟩

end ForallSuffix

/-! ## What precedes a command -/

section ForallPrefix

/-- Every command and what precedes it satisfy `p`. -/
def ForallPrefix (p : List α → α → Prop) (cs : List α) : Prop :=
  ∀ l c l', cs = l ++ c :: l' → p l c

variable {p : List α → α → Prop}

theorem forallPrefix_of_forall {cs : List α} (h : ∀ c ∈ cs, ∀ l, p l c) : ForallPrefix p cs := by
  rintro l c l' rfl
  exact h c (by simp) l

theorem forallPrefix_cons {c : α} {cs : List α} :
    ForallPrefix p (c :: cs) ↔ p [] c ∧ ForallPrefix (fun l => p (c :: l)) cs := by
  constructor
  · intro h
    exact ⟨h [] c cs rfl, fun l d l' he => h (c :: l) d l' (by rw [he]; rfl)⟩
  · rintro ⟨hc, hcs⟩ l d l' he
    cases l with
    | nil =>
      obtain ⟨rfl, -⟩ := List.cons.inj he
      exact hc
    | cons e l =>
      obtain ⟨rfl, rfl⟩ := List.cons.inj he
      exact hcs l d l' rfl

theorem forallPrefix_append {cs cs' : List α} : ForallPrefix p (cs ++ cs') ↔
    ForallPrefix p cs ∧ ForallPrefix (fun l => p (cs ++ l)) cs' := by
  induction cs generalizing p with
  | nil => simp [forallPrefix_of_forall]
  | cons c cs ih => simp only [List.cons_append, forallPrefix_cons, ih, and_assoc]

end ForallPrefix

/-! ## Creation once -/

/-- The creation or the deletion of a resource. -/
inductive Life (ν : Type)
  | add (x : ν)
  | del (x : ν)
  deriving DecidableEq

/-- The resource that is created. -/
def Life.added? : Life ν → Option ν
  | .add x => some x
  | .del _ => none

@[simp] theorem Life.added?_add (x : ν) : (Life.add x).added? = some x := rfl

@[simp] theorem Life.added?_del (x : ν) : (Life.del x).added? = none := rfl

section AddsOnce

variable (life : α → Option (Life ν))

/-- Between two creations of a resource stands a deletion of it. -/
def AddsOnce (cs : List α) : Prop :=
  ∀ l₁ c l₂ c' l₃ x, cs = l₁ ++ c :: (l₂ ++ c' :: l₃) →
    life c = some (.add x) → life c' = some (.add x) → ∃ d ∈ l₂, life d = some (.del x)

/-- The first creation of `x`, if there is one, comes after a deletion. -/
def Shielded (x : ν) (cs : List α) : Prop :=
  ∀ l c l', cs = l ++ c :: l' → life c = some (.add x) → ∃ d ∈ l, life d = some (.del x)

variable {life}

theorem addsOnce_nil : AddsOnce life [] := by
  intro l₁ c l₂ c' l₃ x h
  simp at h

theorem shielded_nil (x : ν) : Shielded life x [] := by
  intro l c l' h
  simp at h

theorem addsOnce_cons {c : α} {cs : List α} : AddsOnce life (c :: cs) ↔
    (∀ x, life c = some (.add x) → Shielded life x cs) ∧ AddsOnce life cs := by
  constructor
  · intro h
    refine ⟨fun x hx l c' l' he hc' => h [] c l c' l' x (by rw [he]; rfl) hx hc', ?_⟩
    intro l₁ c₁ l₂ c₂ l₃ x he
    exact h (c :: l₁) c₁ l₂ c₂ l₃ x (by rw [he]; rfl)
  · rintro ⟨hc, hcs⟩ l₁ c₁ l₂ c₂ l₃ x he h₁ h₂
    cases l₁ with
    | nil =>
      obtain ⟨rfl, rfl⟩ := List.cons.inj he
      exact hc x h₁ l₂ c₂ l₃ rfl h₂
    | cons d l₁ =>
      obtain ⟨rfl, rfl⟩ := List.cons.inj he
      exact hcs l₁ c₁ l₂ c₂ l₃ x rfl h₁ h₂

theorem shielded_cons {x : ν} {c : α} {cs : List α} : Shielded life x (c :: cs) ↔
    life c ≠ some (.add x) ∧ (life c = some (.del x) ∨ Shielded life x cs) := by
  constructor
  · intro h
    have hc : life c ≠ some (.add x) := by
      intro hx
      obtain ⟨d, hd, -⟩ := h [] c cs rfl hx
      simp at hd
    refine ⟨hc, or_iff_not_imp_left.mpr fun hdel l c' l' he hc' => ?_⟩
    obtain ⟨d, hd, hx⟩ := h (c :: l) c' l' (by rw [he]; rfl) hc'
    rcases List.mem_cons.mp hd with rfl | hd
    · exact absurd hx hdel
    · exact ⟨d, hd, hx⟩
  · rintro ⟨hc, h⟩ l c' l' he hc'
    cases l with
    | nil =>
      obtain ⟨rfl, rfl⟩ := List.cons.inj he
      exact absurd hc' hc
    | cons d l =>
      obtain ⟨rfl, rfl⟩ := List.cons.inj he
      rcases h with hdel | h
      · exact ⟨c, List.mem_cons_self, hdel⟩
      · obtain ⟨d, hd, hx⟩ := h l c' l' rfl hc'
        exact ⟨d, List.mem_cons_of_mem _ hd, hx⟩

instance decidableShielded [DecidableEq ν] (x : ν) : ∀ cs, Decidable (Shielded life x cs)
  | [] => isTrue (shielded_nil x)
  | _ :: cs =>
    have := decidableShielded x cs
    decidable_of_iff' _ shielded_cons

instance decidableAddsOnce [DecidableEq ν] : ∀ cs, Decidable (AddsOnce life cs)
  | [] => isTrue addsOnce_nil
  | c :: cs =>
    have := decidableAddsOnce cs
    have : Decidable (∀ x, life c = some (.add x) → Shielded life x cs) :=
      match h : life c with
      | some (.add x) => decidable_of_iff (Shielded life x cs) (by simp)
      | some (.del x) => isTrue (by simp)
      | none => isTrue (by simp)
    decidable_of_iff' _ addsOnce_cons

theorem shielded_filterMap {x : ν} {cs : List α} :
    Shielded some x (cs.filterMap life) ↔ Shielded life x cs := by
  induction cs with
  | nil => simp only [List.filterMap_nil, shielded_nil]
  | cons c cs ih =>
    cases hc : life c with
    | none => simp [hc, shielded_cons, ih]
    | some e => simp [hc, shielded_cons, ih]

/-- Only creations and deletions matter. -/
theorem addsOnce_filterMap {cs : List α} :
    AddsOnce some (cs.filterMap life) ↔ AddsOnce life cs := by
  induction cs with
  | nil => simp only [List.filterMap_nil, addsOnce_nil]
  | cons c cs ih =>
    cases hc : life c with
    | none => simp [hc, addsOnce_cons, ih]
    | some e => simp [hc, addsOnce_cons, ih, shielded_filterMap]

/-- The creation of `name`, directly after its deletion if `again`. -/
structure Creation (ν : Type) where
  name : ν
  again : Bool
  deriving DecidableEq

/-- What a creation does. -/
def Creation.lives (u : Creation ν) : List (Life ν) :=
  if u.again then [.del u.name, .add u.name] else [.add u.name]

theorem Creation.filterMap_lives (us : List (Creation ν)) :
    (us.flatMap Creation.lives).filterMap Life.added? = us.map Creation.name := by
  induction us with
  | nil => rfl
  | cons u us ih =>
    obtain ⟨name, again⟩ := u
    cases again <;> simp [Creation.lives, List.filterMap_cons, ← ih]

/-- The second of two creations of one resource follows a deletion. -/
def Creation.After (u u' : Creation ν) : Prop := u.name = u'.name → u'.again

theorem shielded_lives {x : ν} {u : Creation ν} {es : List (Life ν)} :
    Shielded some x (u.lives ++ es) ↔
      u.name = x ∧ u.again = true ∨ u.name ≠ x ∧ Shielded some x es := by
  obtain ⟨name, again⟩ := u
  by_cases h : name = x <;> cases again <;> simp [Creation.lives, shielded_cons, h]

theorem addsOnce_lives {u : Creation ν} {es : List (Life ν)} :
    AddsOnce some (u.lives ++ es) ↔ Shielded some u.name es ∧ AddsOnce some es := by
  obtain ⟨name, again⟩ := u
  cases again <;> simp [Creation.lives, addsOnce_cons]

/-- For creations that are in order among themselves, it is enough that the first one of `x` comes
after a deletion. -/
theorem shielded_iff_forall {x : ν} {us : List (Creation ν)} (h : us.Pairwise Creation.After) :
    Shielded some x (us.flatMap Creation.lives) ↔ ∀ u ∈ us, x = u.name → u.again = true := by
  induction us with
  | nil => simp [shielded_nil]
  | cons u us ih =>
    obtain ⟨hu, hus⟩ := List.pairwise_cons.mp h
    rw [List.flatMap_cons, shielded_lives, List.forall_mem_cons]
    by_cases hx : u.name = x
    · subst hx
      simp only [true_and, ne_eq, not_true_eq_false, false_and, or_false, true_implies]
      exact ⟨fun ha => ⟨ha, hu⟩, And.left⟩
    · simp only [hx, false_and, ne_eq, not_false_eq_true, true_and, false_or, ih hus, Ne.symm hx,
        false_implies]

/-- **Creations in order**: a resource is created again only after a deletion exactly when this
holds for every two creations of it. -/
theorem addsOnce_iff_pairwise {cs : List α} {us : List (Creation ν)}
    (h : cs.filterMap life = us.flatMap Creation.lives) :
    AddsOnce life cs ↔ us.Pairwise Creation.After := by
  rw [← addsOnce_filterMap, h]
  clear h
  induction us with
  | nil => simp [addsOnce_nil]
  | cons u us ih =>
    rw [List.flatMap_cons, addsOnce_lives, ih, List.pairwise_cons]
    exact and_congr_left fun hus => shielded_iff_forall hus

end AddsOnce

end CLib
