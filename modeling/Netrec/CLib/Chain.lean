import Mathlib.Tactic

/-!
# Fallible code and linked chains

A function that returns an error code is a computation in `Except`; a singly linked chain is the
list of its nodes. Code that descends into a node of a chain and works on it there updates one
entry of the list in place and passes on what the work returned.

## Main definitions

* `Along f P st l`: every step of a run is allowed where it is taken
* `onFirst p f l`: the first entry of `l` that satisfies `p` is replaced by `f` of it
* `onNth f i l`: the same for the entry at position `i`

## Main results

* `bind_eq_ok`, `mapM_eq_ok`: how a sequence and a loop of fallible steps succeed
* `foldlM_invariant`, `foldlM_option_invariant`: what every round of a loop keeps, the loop keeps
* `foldlM_option_run`: what a run and its last state have in common
* `Along.invariant`: what every allowed step keeps, an allowed run keeps
* `onFirst_eq_some`, `onNth_eq_some`: the chain splits at the entry that is updated
* `onFirst_append_of_forall_not`: entries in front that do not match are passed over
-/

namespace CLib

variable {α β ε ρ : Type}

@[simp] theorem ok_bind (a : α) (f : α → Except ε β) : Except.ok a >>= f = f a := rfl

@[simp] theorem error_bind (e : ε) (f : α → Except ε β) : Except.error e >>= f = .error e := rfl

@[simp] theorem pure_eq_ok (a : α) : (pure a : Except ε α) = .ok a := rfl

/-- **A sequence succeeds when both steps do.** -/
theorem bind_eq_ok {x : Except ε α} {f : α → Except ε β} {b : β} :
    x >>= f = .ok b ↔ ∃ a, x = .ok a ∧ f a = .ok b := by
  cases x with
  | error e => exact ⟨fun h => (nomatch h), fun ⟨_, h, _⟩ => (nomatch h)⟩
  | ok a => exact ⟨fun h => ⟨a, rfl, h⟩, fun ⟨_, ha, h⟩ => by cases ha; exact h⟩

theorem exists_eq_ok {x : Except ε α} (h : x.toOption.isSome) : ∃ a, x = .ok a := by
  cases x with
  | error e => cases h
  | ok a => exact ⟨a, rfl⟩

/-- **A loop succeeds when every round does.** -/
theorem mapM_eq_ok {f : α → Except ε β} {l : List α} {r : List β} :
    l.mapM f = .ok r ↔ List.Forall₂ (fun a b => f a = .ok b) l r := by
  induction l generalizing r with
  | nil => simp [eq_comm]
  | cons a l ih =>
    simp only [List.mapM_cons, bind_eq_ok, ih, pure_eq_ok, Except.ok.injEq,
      List.forall₂_cons_left_iff]
    tauto

theorem exists_of_forall₂ {R : α → β → Prop} {l : List α} {r : List β} (h : List.Forall₂ R l r)
    {a : α} (ha : a ∈ l) : ∃ b ∈ r, R a b := by
  induction h with
  | nil => simp at ha
  | cons hab _ ih =>
    obtain rfl | ha := List.mem_cons.mp ha
    · exact ⟨_, List.mem_cons_self, hab⟩
    · obtain ⟨b, hb, hR⟩ := ih ha
      exact ⟨b, List.mem_cons_of_mem _ hb, hR⟩

/-- A relation between two lists that only depends on the entries of the first. -/
theorem forall₂_iff_of_left {R S : α → β → Prop} {P : α → Prop} {l : List α} {r : List β}
    (h : List.Forall₂ R l r) (hS : ∀ a b, a ∈ l → R a b → (S a b ↔ P a)) :
    List.Forall₂ S l r ↔ ∀ a ∈ l, P a := by
  induction h with
  | nil => exact ⟨fun _ a ha => by simp at ha, fun _ => .nil⟩
  | cons hab _ ih =>
    rw [List.forall₂_cons, List.forall_mem_cons]
    exact and_congr (hS _ _ List.mem_cons_self hab)
      (ih fun a b ha => hS a b (List.mem_cons_of_mem _ ha))

@[simp] theorem foldlM_singleton {σ : Type} (f : σ → α → Except ε σ) (a : α) (st : σ) :
    [a].foldlM f st = f st a := by
  rw [List.foldlM_cons]
  exact bind_pure _

/-- **A loop that does nothing at some entries** is a loop over the others. -/
theorem foldlM_filter {σ : Type} {f : σ → α → Except ε σ} {p : α → Bool}
    (hf : ∀ st a, p a = false → f st a = .ok st) (l : List α) (st : σ) :
    (l.filter p).foldlM f st = l.foldlM f st := by
  induction l generalizing st with
  | nil => rfl
  | cons a l ih =>
    cases ha : p a with
    | false => rw [List.filter_cons_of_neg (by simp [ha]), List.foldlM_cons, hf st a ha, ok_bind, ih]
    | true =>
      rw [List.filter_cons_of_pos ha, List.foldlM_cons, List.foldlM_cons]
      exact bind_congr ih

/-- **A loop keeps what its body keeps.** -/
theorem foldlM_invariant {σ : Type} {P : σ → Prop} {f : σ → α → Except ε σ} {l : List α}
    (hf : ∀ st, ∀ a ∈ l, ∀ st', P st → f st a = .ok st' → P st') {st st' : σ} (hst : P st)
    (h : l.foldlM f st = .ok st') : P st' := by
  induction l generalizing st with
  | nil =>
    rw [← Except.ok.inj h]
    exact hst
  | cons a l ih =>
    rw [List.foldlM_cons, bind_eq_ok] at h
    obtain ⟨st₁, h₁, h⟩ := h
    exact ih (fun s b hb => hf s b (List.mem_cons_of_mem a hb))
      (hf st a List.mem_cons_self st₁ hst h₁) h

/-- **Every run of a transition system keeps what a step keeps.** -/
theorem foldlM_option_invariant {σ : Type} {P : σ → Prop} {f : σ → α → Option σ}
    (hf : ∀ st a st', P st → f st a = some st' → P st') {l : List α} {st st' : σ} (hst : P st)
    (h : l.foldlM f st = some st') : P st' := by
  induction l generalizing st with
  | nil =>
    rw [← Option.some.inj h]
    exact hst
  | cons a l ih =>
    rw [List.foldlM_cons, Option.bind_eq_bind, Option.bind_eq_some_iff] at h
    obtain ⟨st₁, h₁, h⟩ := h
    exact ih (hf st a st₁ hst h₁) h

/-- **What holds of a run and the state it has reached** is shown from the last step on. -/
theorem foldlM_option_run {σ : Type} {Q : List α → σ → Prop} {f : σ → α → Option σ} {st : σ}
    (h₀ : Q [] st) (hf : ∀ l a st₁ st', Q l st₁ → f st₁ a = some st' → Q (l ++ [a]) st')
    {l : List α} {st' : σ} (h : l.foldlM f st = some st') : Q l st' := by
  induction l using List.reverseRecOn generalizing st' with
  | nil =>
    rw [← Option.some.inj h]
    exact h₀
  | append_singleton l a ih =>
    rw [List.foldlM_append, Option.bind_eq_bind, Option.bind_eq_some_iff] at h
    obtain ⟨st₁, h₁, h⟩ := h
    rw [List.foldlM_cons, Option.bind_eq_bind, Option.bind_eq_some_iff] at h
    obtain ⟨st₂, h₂, h⟩ := h
    obtain rfl := Option.some.inj h
    exact hf l a st₁ st₂ (ih h₁) h₂

section Along

variable {σ : Type} {f : σ → α → Option σ} {P : σ → α → Prop}

/-- `P` allows every step of a run in the state in which it is taken. -/
def Along (f : σ → α → Option σ) (P : σ → α → Prop) : σ → List α → Prop
  | _, [] => True
  | st, a :: l => P st a ∧ (f st a).elim True (Along f P · l)

instance decidableAlong [∀ st a, Decidable (P st a)] : ∀ st l, Decidable (Along f P st l)
  | _, [] => .isTrue trivial
  | st, a :: l =>
    haveI : ∀ o : Option σ, Decidable (o.elim True (Along f P · l))
      | none => .isTrue trivial
      | some st' => decidableAlong st' l
    inferInstanceAs (Decidable (P st a ∧ (f st a).elim True (Along f P · l)))

theorem Along.cons {st st' : σ} {a : α} {l : List α} (h : Along f P st (a :: l))
    (hf : f st a = some st') : P st a ∧ Along f P st' l := by
  rw [Along, hf] at h
  exact h

/-- **A run of allowed steps keeps what each of them keeps.** -/
theorem Along.invariant {I : σ → Prop} (hf : ∀ st a st', I st → P st a → f st a = some st' → I st')
    {l : List α} {st st' : σ} (hl : Along f P st l) (hst : I st) (h : l.foldlM f st = some st') :
    I st' := by
  induction l generalizing st with
  | nil =>
    rw [← Option.some.inj h]
    exact hst
  | cons a l ih =>
    rw [List.foldlM_cons, Option.bind_eq_bind, Option.bind_eq_some_iff] at h
    obtain ⟨st₁, h₁, h⟩ := h
    obtain ⟨ha, hl⟩ := hl.cons h₁
    exact ih hl (hf st a st₁ hst ha h₁) h

end Along

/-- Work on the first entry that satisfies `p`; `none` without one. -/
def onFirst (p : α → Bool) (f : α → ρ × α) : List α → Option (ρ × List α)
  | [] => none
  | a :: l =>
    if p a then some ((f a).1, (f a).2 :: l)
    else (onFirst p f l).map fun r => (r.1, a :: r.2)

/-- Work on the entry at position `i`; `none` past the end. -/
def onNth (f : α → ρ × α) : Nat → List α → Option (ρ × List α)
  | _, [] => none
  | 0, a :: l => some ((f a).1, (f a).2 :: l)
  | i + 1, a :: l => (onNth f i l).map fun r => (r.1, a :: r.2)

theorem onFirst_eq_none {p : α → Bool} {f : α → ρ × α} {l : List α} :
    onFirst p f l = none ↔ ∀ a ∈ l, p a = false := by
  induction l with
  | nil => simp [onFirst]
  | cons a l ih => cases h : p a <;> simp [onFirst, h, ih]

/-- The chain splits at its first match, and only the match is replaced. -/
theorem onFirst_eq_some {p : α → Bool} {f : α → ρ × α} {l l' : List α} {r : ρ}
    (h : onFirst p f l = some (r, l')) :
    ∃ l₁ a l₂, l = l₁ ++ a :: l₂ ∧ (∀ b ∈ l₁, p b = false) ∧ p a ∧ r = (f a).1 ∧
      l' = l₁ ++ (f a).2 :: l₂ := by
  induction l generalizing l' with
  | nil => simp [onFirst] at h
  | cons a l ih =>
    cases hp : p a with
    | true =>
      obtain ⟨rfl, rfl⟩ : (f a).1 = r ∧ (f a).2 :: l = l' := by simpa [onFirst, hp] using h
      exact ⟨[], a, l, rfl, by simp, hp, rfl, rfl⟩
    | false =>
      simp only [onFirst, hp, Bool.false_eq_true, if_false, Option.map_eq_some_iff] at h
      obtain ⟨⟨r', l''⟩, h, he⟩ := h
      obtain ⟨rfl, rfl⟩ : r' = r ∧ a :: l'' = l' := by simpa using he
      obtain ⟨l₁, b, l₂, rfl, hl, hb, hr, rfl⟩ := ih h
      exact ⟨a :: l₁, b, l₂, rfl, by simpa [hp] using hl, hb, hr, rfl⟩

/-- Entries in front that do not match are passed over. -/
theorem onFirst_append_of_forall_not {p : α → Bool} {f : α → ρ × α} {l₁ : List α} {a : α}
    (l₂ : List α) (hl : ∀ b ∈ l₁, p b = false) (ha : p a) :
    onFirst p f (l₁ ++ a :: l₂) = some ((f a).1, l₁ ++ (f a).2 :: l₂) := by
  induction l₁ with
  | nil => simp [onFirst, ha]
  | cons b l₁ ih =>
    have hb : p b = false := hl b List.mem_cons_self
    simp [onFirst, hb, ih fun c hc => hl c (List.mem_cons_of_mem b hc)]

/-- The chain splits at the position, and only the entry there is replaced. -/
theorem onNth_eq_some {f : α → ρ × α} {i : Nat} {l l' : List α} {r : ρ}
    (h : onNth f i l = some (r, l')) :
    ∃ l₁ a l₂, l = l₁ ++ a :: l₂ ∧ l₁.length = i ∧ r = (f a).1 ∧ l' = l₁ ++ (f a).2 :: l₂ := by
  induction l generalizing i l' with
  | nil => cases i <;> simp [onNth] at h
  | cons a l ih =>
    cases i with
    | zero =>
      obtain ⟨rfl, rfl⟩ : (f a).1 = r ∧ (f a).2 :: l = l' := by simpa [onNth] using h
      exact ⟨[], a, l, rfl, rfl, rfl, rfl⟩
    | succ i =>
      simp only [onNth, Option.map_eq_some_iff] at h
      obtain ⟨⟨r', l''⟩, h, he⟩ := h
      obtain ⟨rfl, rfl⟩ : r' = r ∧ a :: l'' = l' := by simpa using he
      obtain ⟨l₁, b, l₂, rfl, rfl, hr, rfl⟩ := ih h
      exact ⟨a :: l₁, b, l₂, rfl, rfl, hr, rfl⟩

/-- Entries in front are passed over. -/
theorem onNth_append {f : α → ρ × α} {l₁ l₂ : List α} {a : α} {i : Nat} (h : l₁.length = i) :
    onNth f i (l₁ ++ a :: l₂) = some ((f a).1, l₁ ++ (f a).2 :: l₂) := by
  subst h
  induction l₁ with
  | nil => rfl
  | cons b l₁ ih => simp [onNth, ih]

end CLib
