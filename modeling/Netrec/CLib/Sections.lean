import Netrec.CLib.Chain

/-!
# Exclusive sections

Processes that share a state. A program returns a value or makes one step, in which it reads and
changes the state, and goes on with what it has read. A process whose task is exclusive enters only
while nobody is inside, and is refused otherwise; a process whose task only reads may enter at any
time. In whatever order the processes make their steps, the exclusive ones behave as if they had run
one after the other, in the order in which they entered.

## Main definitions

* `Prog`, `Prog.run`: programs, and running one undisturbed
* `Prog.ReadOnly`: programs that change nothing
* `Pool`, `Pool.step`, `Pool.exec`: processes and their schedules
* `Pool.after`: the state after tasks that have run one after the other

## Main results

* `Prog.run_bind`: running a sequence of programs
* `Pool.exec_serial`: exclusive sections are serial
-/

namespace CLib

variable {σ α β ρ : Type}

/-! ## Programs -/

/-- A program on a shared state of type `σ`. -/
inductive Prog (σ ρ : Type)
  | ret (r : ρ)
  | act (upd : σ → σ) (next : σ → Prog σ ρ)

namespace Prog

/-- One program after the other. -/
def bind : Prog σ α → (α → Prog σ β) → Prog σ β
  | .ret a, k => k a
  | .act upd next, k => .act upd fun s => (next s).bind k

instance : Monad (Prog σ) where
  pure := .ret
  bind := Prog.bind

/-- A program that nobody disturbs. -/
def run : Prog σ ρ → σ → ρ × σ
  | .ret r, s => (r, s)
  | .act upd next, s => (next s).run (upd s)

@[simp] theorem run_pure (a : α) (s : σ) : (pure a : Prog σ α).run s = (a, s) := rfl

/-- **Running a sequence** runs the first part and, from where it ends, the second. -/
@[simp] theorem run_bind (p : Prog σ α) (k : α → Prog σ β) (s : σ) :
    (p >>= k).run s = (k (p.run s).1).run (p.run s).2 := by
  induction p generalizing s with
  | ret a => rfl
  | act upd next ih => exact ih s (upd s)

/-- The program changes nothing. -/
inductive ReadOnly : Prog σ ρ → Prop
  | ret (r : ρ) : ReadOnly (.ret r)
  | act {next : σ → Prog σ ρ} (h : ∀ s, ReadOnly (next s)) : ReadOnly (.act id next)

theorem ReadOnly.bind {p : Prog σ α} {k : α → Prog σ β} (hp : p.ReadOnly)
    (hk : ∀ a, (k a).ReadOnly) : (p >>= k).ReadOnly := by
  induction hp with
  | ret a => exact hk a
  | act _ ih => exact .act ih

theorem ReadOnly.run_snd {p : Prog σ ρ} (h : p.ReadOnly) (s : σ) : (p.run s).2 = s := by
  induction h generalizing s with
  | ret r => rfl
  | act _ ih => exact ih s s

end Prog

/-! ## Processes -/

/-- What a process is to do. -/
structure Task (σ ρ : Type) where
  exclusive : Bool
  prog : Prog σ ρ

/-- What has become of a process. -/
inductive Proc (σ ρ : Type)
  | idle
  | inside (p : Prog σ ρ)
  | returned (r : ρ)

/-- The shared state, who is in an exclusive section, and the processes. The last field records the
processes that have entered an exclusive section, in this order. -/
structure Pool (ι σ ρ : Type) where
  shared : σ
  holder : Option ι := none
  procs : ι → Proc σ ρ := fun _ => .idle
  order : List ι := []

namespace Pool

variable {ι : Type}

/-- A process starts, is turned away before it can ask, or makes a step. -/
inductive Act (ι ρ : Type)
  | start (i : ι)
  | deny (i : ι) (r : ρ)
  | go (i : ι)

section Schedule

variable [DecidableEq ι] (tasks : ι → Task σ ρ) (busy : ρ) (refusal : ρ → Bool)

/-- One action; `none` if the process cannot make it. A process that finds another one in an
exclusive section returns `busy`, and one that cannot even ask returns some `refusal`. -/
def step (pool : Pool ι σ ρ) : Act ι ρ → Option (Pool ι σ ρ)
  | .start i =>
    match pool.procs i with
    | .idle =>
      if (tasks i).exclusive then
        if pool.holder.isNone then
          some { pool with
            holder := some i
            procs := Function.update pool.procs i (.inside (tasks i).prog)
            order := pool.order ++ [i] }
        else some { pool with procs := Function.update pool.procs i (.returned busy) }
      else some { pool with procs := Function.update pool.procs i (.inside (tasks i).prog) }
    | _ => none
  | .deny i r =>
    match pool.procs i with
    | .idle =>
      if (tasks i).exclusive ∧ refusal r then
        some { pool with procs := Function.update pool.procs i (.returned r) }
      else none
    | _ => none
  | .go i =>
    match pool.procs i with
    | .inside (.act upd next) =>
      some { pool with
        shared := upd pool.shared
        procs := Function.update pool.procs i (.inside (next pool.shared)) }
    | .inside (.ret r) =>
      some { pool with
        holder := if pool.holder = some i then none else pool.holder
        procs := Function.update pool.procs i (.returned r) }
    | _ => none

/-- A schedule. -/
def exec (init : σ) (acts : List (Act ι ρ)) : Option (Pool ι σ ρ) :=
  acts.foldlM (step tasks busy refusal) { shared := init }

end Schedule

/-! ## Serial execution -/

section Serial

variable (tasks : ι → Task σ ρ) (busy : ρ) (refusal : ρ → Bool)

/-- The state after the given tasks have run one after the other. -/
def after (init : σ) (l : List ι) : σ := l.foldl (fun s i => ((tasks i).prog.run s).2) init

theorem after_append (init : σ) (l : List ι) (i : ι) :
    after tasks init (l ++ [i]) = ((tasks i).prog.run (after tasks init l)).2 := by
  simp [after]

/-- What holds in every schedule: the processes that have entered did so once; those that have left
have returned what they return in the serial order; from the state that is shared now the one
inside, if any, ends as it does in the serial order; and who has not entered has been refused. -/
structure Serial (init : σ) (pool : Pool ι σ ρ) : Prop where
  nodup : pool.order.Nodup
  entered : ∀ i ∈ pool.order, (tasks i).exclusive = true ∧ pool.procs i ≠ .idle
  reads : ∀ i p, (tasks i).exclusive = false → pool.procs i = .inside p → p.ReadOnly
  inside : ∀ i p, (tasks i).exclusive = true → pool.procs i = .inside p → pool.holder = some i
  left : ∀ pre i post, pool.order = pre ++ i :: post → pool.holder ≠ some i →
    pool.procs i = .returned ((tasks i).prog.run (after tasks init pre)).1
  free : pool.holder = none → pool.shared = after tasks init pool.order
  held : ∀ i, pool.holder = some i → ∃ pre p, pool.order = pre ++ [i] ∧ pool.procs i = .inside p ∧
    p.run pool.shared = (tasks i).prog.run (after tasks init pre)
  refused : ∀ i, (tasks i).exclusive = true → i ∉ pool.order →
    pool.procs i = .idle ∨ ∃ r, pool.procs i = .returned r ∧ (r = busy ∨ refusal r = true)

end Serial

variable {tasks : ι → Task σ ρ} {busy : ρ} {refusal : ρ → Bool} {init : σ} {pool pool' : Pool ι σ ρ}

theorem serial_init : Serial tasks busy refusal init { shared := init } where
  nodup := List.nodup_nil
  entered := by simp
  reads := by simp
  inside := by simp
  left := by simp
  free := fun _ => rfl
  held := by simp
  refused := by simp

theorem Serial.notMem_of_idle {i : ι} (h : Serial tasks busy refusal init pool)
    (hi : pool.procs i = .idle) :
    i ∉ pool.order := fun hm => (h.entered i hm).2 hi

theorem Serial.ne_holder_of_idle {i : ι} (h : Serial tasks busy refusal init pool)
    (hi : pool.procs i = .idle) :
    pool.holder ≠ some i := fun hh => by
  obtain ⟨pre, p, -, hp, -⟩ := h.held i hh
  simp [hi] at hp

variable [DecidableEq ι]

/-- A process that does not change the state, and is not in an exclusive section before or after. -/
theorem Serial.update {i : ι} {x : Proc σ ρ} (h : Serial tasks busy refusal init pool)
    (hi : i ∉ pool.order) (hh : pool.holder ≠ some i)
    (hread : ∀ p, x = .inside p → (tasks i).exclusive = false ∧ p.ReadOnly)
    (hret : (tasks i).exclusive = true → ∃ r, x = .returned r ∧ (r = busy ∨ refusal r = true)) :
    Serial tasks busy refusal init { pool with procs := Function.update pool.procs i x } where
  nodup := h.nodup
  entered j hj := by
    have hji : j ≠ i := fun e => hi (e ▸ hj)
    simpa only [Function.update_of_ne hji] using h.entered j hj
  reads j p he hp := by
    by_cases hji : j = i
    · subst hji
      simp only [Function.update_self] at hp
      exact (hread p hp).2
    · simp only [Function.update_of_ne hji] at hp
      exact h.reads j p he hp
  inside j p he hp := by
    by_cases hji : j = i
    · subst hji
      simp only [Function.update_self] at hp
      simp [(hread p hp).1] at he
    · simp only [Function.update_of_ne hji] at hp
      exact h.inside j p he hp
  left pre j post ho hj := by
    have ho' : pool.order = pre ++ j :: post := ho
    have hji : j ≠ i := fun e => hi (by simp [ho', e])
    simpa only [Function.update_of_ne hji] using h.left pre j post ho hj
  free := h.free
  held j hj := by
    have hji : j ≠ i := fun e => hh (e ▸ hj)
    simpa only [Function.update_of_ne hji] using h.held j hj
  refused j he hj := by
    by_cases hji : j = i
    · subst hji
      simp only [Function.update_self]
      exact .inr (hret he)
    · simpa only [Function.update_of_ne hji] using h.refused j he hj

/-- **Entering**: from now on the state is that of the serial order with one section begun. -/
theorem Serial.enter {i : ι} (h : Serial tasks busy refusal init pool) (hi : pool.procs i = .idle)
    (he : (tasks i).exclusive = true) (hh : pool.holder = none) :
    Serial tasks busy refusal init { pool with
      holder := some i
      procs := Function.update pool.procs i (.inside (tasks i).prog)
      order := pool.order ++ [i] } := by
  have hmem := h.notMem_of_idle hi
  refine ⟨?_, ?_, ?_, ?_, ?_, by simp, ?_, ?_⟩
  case refine_1 => exact List.nodup_append.mpr ⟨h.nodup, by simp, by rintro a ha b hb rfl; simp_all⟩
  case refine_2 =>
    intro j hj
    by_cases hji : j = i
    · subst hji
      simp [he]
    · have hj' : j ∈ pool.order := by simpa [hji] using hj
      simpa only [Function.update_of_ne hji] using h.entered j hj'
  case refine_3 =>
    intro j p hej hp
    have hji : j ≠ i := by
      rintro rfl
      simp [he] at hej
    exact h.reads j p hej (by simpa only [Function.update_of_ne hji] using hp)
  case refine_4 =>
    intro j p hej hp
    by_cases hji : j = i
    · rw [hji]
    -- nobody else is inside
    · have := h.inside j p hej (by simpa only [Function.update_of_ne hji] using hp)
      simp [hh] at this
  case refine_5 =>
    intro pre j post ho hj
    have hji : j ≠ i := fun e => hj (by rw [e])
    rcases List.eq_nil_or_concat post with rfl | ⟨post, k, rfl⟩
    · have := List.append_inj_right' ho (by simp)
      simp at this
      exact absurd this.symm hji
    · have ho' : pool.order ++ [i] = (pre ++ j :: post) ++ [k] := by simpa using ho
      have hpre := List.append_inj_left' ho' (by simp)
      simpa only [Function.update_of_ne hji] using h.left pre j post hpre (by simp [hh])
  case refine_6 =>
    intro j hj
    cases hj
    exact ⟨pool.order, (tasks i).prog, rfl, by simp, by rw [h.free hh]⟩
  case refine_7 =>
    intro j hej hj
    simp only [List.mem_append, List.mem_singleton, not_or] at hj
    simpa only [Function.update_of_ne hj.2] using h.refused j hej hj.1

/-- **A step inside** does not change where the section ends. -/
theorem Serial.act {i : ι} {upd : σ → σ} {next : σ → Prog σ ρ}
    (h : Serial tasks busy refusal init pool) (hi : pool.procs i = .inside (.act upd next)) :
    Serial tasks busy refusal init { pool with
      shared := upd pool.shared
      procs := Function.update pool.procs i (.inside (next pool.shared)) } := by
  cases he : (tasks i).exclusive with
  | false =>
    -- a reader
    have hread := h.reads i _ he hi
    cases hread with
    | act hnext =>
      have hmem : i ∉ pool.order := fun hm => by simp [(h.entered i hm).1] at he
      have hhold : pool.holder ≠ some i := fun hh => by
        obtain ⟨pre, p, ho, -, -⟩ := h.held i hh
        exact hmem (by simp [ho])
      refine h.update hmem hhold (fun p hp => ?_) (by simp [he])
      cases hp
      exact ⟨he, hnext _⟩
  | true =>
    have hh := h.inside i _ he hi
    obtain ⟨pre, p, ho, hp, hrun⟩ := h.held i hh
    rw [hi] at hp
    cases hp
    have hmem : i ∈ pool.order := by simp [ho]
    refine ⟨h.nodup, ?_, ?_, ?_, ?_, by simp [hh], ?_, ?_⟩
    · intro j hj
      by_cases hji : j = i
      · subst hji
        simp [he]
      · simpa only [Function.update_of_ne hji] using h.entered j hj
    · intro j q hej hq
      have hji : j ≠ i := by
        rintro rfl
        simp [he] at hej
      exact h.reads j q hej (by simpa only [Function.update_of_ne hji] using hq)
    · intro j q hej hq
      by_cases hji : j = i
      · rw [hji, hh]
      · exact h.inside j q hej (by simpa only [Function.update_of_ne hji] using hq)
    · intro pre' j post ho' hj
      have hji : j ≠ i := fun e => hj (by rw [e, hh])
      simpa only [Function.update_of_ne hji] using h.left pre' j post ho' hj
    · intro j hj
      have hji : i = j := Option.some.inj (hh.symm.trans hj)
      subst hji
      exact ⟨pre, _, ho, Function.update_self .., hrun⟩
    · intro j hej hj
      have hji : j ≠ i := fun e => hj (e ▸ hmem)
      simpa only [Function.update_of_ne hji] using h.refused j hej hj

/-- **Leaving**: the section has ended as it does in the serial order. -/
theorem Serial.ret {i : ι} {r : ρ} (h : Serial tasks busy refusal init pool)
    (hi : pool.procs i = .inside (.ret r)) :
    Serial tasks busy refusal init { pool with
      holder := if pool.holder = some i then none else pool.holder
      procs := Function.update pool.procs i (.returned r) } := by
  by_cases hh : pool.holder = some i
  · obtain ⟨pre, p, ho, hp, hrun⟩ := h.held i hh
    rw [hi] at hp
    cases hp
    simp only [hh, if_true]
    have hnot : i ∉ pre := by
      have := h.nodup
      rw [ho, List.nodup_append] at this
      intro hm
      exact this.2.2 i hm i (by simp) rfl
    have hmem : i ∈ pool.order := by simp [ho]
    refine ⟨h.nodup, ?_, ?_, ?_, ?_, fun _ => ?_, by simp, ?_⟩
    · intro j hj
      by_cases hji : j = i
      · subst hji
        exact ⟨(h.entered j hj).1, by simp⟩
      · simpa only [Function.update_of_ne hji] using h.entered j hj
    · intro j q hej hq
      have hji : j ≠ i := by
        rintro rfl
        simp at hq
      exact h.reads j q hej (by simpa only [Function.update_of_ne hji] using hq)
    · intro j q hej hq
      have hji : j ≠ i := by
        rintro rfl
        simp at hq
      have := h.inside j q hej (by simpa only [Function.update_of_ne hji] using hq)
      exact absurd (Option.some.inj (hh.symm.trans this)).symm hji
    · intro pre' j post ho' _
      by_cases hji : j = i
      · subst hji
        -- it entered once, so what entered before it is the same
        have hsplit : pre' = pre ∧ post = [] := by
          have he : pre ++ j :: [] = pre' ++ j :: post := ho.symm.trans ho'
          obtain ⟨rfl, -, hpost⟩ := (List.append_cons_inj_of_notMem hnot (by simp)).mp he
          exact ⟨rfl, hpost.symm⟩
        simp only [Function.update_self, hsplit.1, ← hrun]
        rfl
      · have hne : pool.holder ≠ some j := fun e => hji (Option.some.inj (hh.symm.trans e)).symm
        simpa only [Function.update_of_ne hji] using h.left pre' j post ho' hne
    · rw [ho, after_append, ← hrun]
      rfl
    · intro j hej hj
      have hji : j ≠ i := fun e => hj (e ▸ hmem)
      simpa only [Function.update_of_ne hji] using h.refused j hej hj
  · simp only [hh, if_false]
    have he : (tasks i).exclusive = false := by
      by_contra he
      exact hh (h.inside i _ (by simpa using he) hi)
    exact h.update (fun hm => by simp [(h.entered i hm).1] at he) hh (by simp) (by simp [he])

theorem step_serial (hro : ∀ i, (tasks i).exclusive = false → (tasks i).prog.ReadOnly) {a : Act ι ρ}
    (h : Serial tasks busy refusal init pool) (hs : pool.step tasks busy refusal a = some pool') :
    Serial tasks busy refusal init pool' := by
  have hrefuse : ∀ i r, pool.procs i = .idle → (r = busy ∨ refusal r = true) →
      Serial tasks busy refusal init
        { pool with procs := Function.update pool.procs i (.returned r) } := fun i r hi hr =>
    h.update (h.notMem_of_idle hi) (h.ne_holder_of_idle hi) (by simp) fun _ => ⟨r, rfl, hr⟩
  cases a with
  | start i =>
    simp only [step] at hs
    split at hs
    case h_1 hi =>
      split_ifs at hs with he hh <;> cases hs
      · exact h.enter hi he (by simpa using hh)
      · exact hrefuse i busy hi (.inl rfl)
      · have he' : (tasks i).exclusive = false := by simpa using he
        refine h.update (h.notMem_of_idle hi) (h.ne_holder_of_idle hi) (fun p hp => ?_)
          (by simp [he'])
        cases hp
        exact ⟨he', hro i he'⟩
    case h_2 => cases hs
  | deny i r =>
    simp only [step] at hs
    split at hs
    case h_1 hi =>
      split_ifs at hs with he
      cases hs
      exact hrefuse i r hi (.inr he.2)
    case h_2 => cases hs
  | go i =>
    simp only [step] at hs
    split at hs
    case h_1 upd next hi =>
      cases hs
      exact h.act hi
    case h_2 r hi =>
      cases hs
      exact h.ret hi
    case h_3 => cases hs

/-- **Exclusive sections are serial**, whatever the schedule. -/
theorem exec_serial (hro : ∀ i, (tasks i).exclusive = false → (tasks i).prog.ReadOnly)
    {acts : List (Act ι ρ)} (h : exec tasks busy refusal init acts = some pool) :
    Serial tasks busy refusal init pool :=
  foldlM_option_invariant (fun _ _ _ hst hs => step_serial hro hst hs) serial_init h

end Pool

end CLib
