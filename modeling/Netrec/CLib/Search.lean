import Mathlib.Data.List.Nodup
import Mathlib.Data.List.Perm.Basic

/-!
# Searches by key

A table whose entries have distinct keys is searched for the first entry with a given key. There is
at most one such entry, so that the search depends on the set of entries only: not on their order,
and not on whether the table was derived from another one before or after the search.

## Main results

* `find?_key_eq_some_iff`: the first entry with a key is the entry with that key
* `find?_key_perm`: the order of the entries does not matter
* `find?_filterMap_key`: searching a derived table
-/

namespace CLib

variable {α β κ : Type}

/-- Entries with the same key in a table of keys without duplicates are the same. -/
theorem inj_of_nodup_filterMap {f : α → Option β} {l : List α}
    (h : (l.filterMap f).Nodup) {a a' : α} {b : β} (ha : a ∈ l) (ha' : a' ∈ l) (hb : f a = some b)
    (hb' : f a' = some b) : a = a' := by
  induction l with
  | nil => simp at ha
  | cons x l ih =>
    have hmem : ∀ y ∈ l, f y = some b → b ∈ l.filterMap f :=
      fun y hy hyb => List.mem_filterMap.mpr ⟨y, hy, hyb⟩
    rcases List.mem_cons.mp ha with rfl | hal <;> rcases List.mem_cons.mp ha' with rfl | hal'
    · rfl
    · rw [List.filterMap_cons, hb] at h
      exact absurd (hmem a' hal' hb') (List.nodup_cons.mp h).1
    · rw [List.filterMap_cons, hb'] at h
      exact absurd (hmem a hal hb) (List.nodup_cons.mp h).1
    · refine ih ?_ hal hal'
      rw [List.filterMap_cons] at h
      split at h
      · exact h
      · exact (List.nodup_cons.mp h).2

variable [DecidableEq κ] {key : α → κ}

theorem find?_key_eq_some_iff {l : List α} (hnd : (l.map key).Nodup) {k : κ} {a : α} :
    (l.find? fun b => key b = k) = some a ↔ a ∈ l ∧ key a = k := by
  constructor
  · intro h
    exact ⟨List.mem_of_find?_eq_some h, by simpa using List.find?_some h⟩
  · rintro ⟨ha, hk⟩
    cases hf : l.find? fun b => key b = k with
    | none => exact absurd hk (by simpa using List.find?_eq_none.mp hf a ha)
    | some b =>
      have hb : key b = k := by simpa using List.find?_some hf
      rw [List.inj_on_of_nodup_map hnd ha (List.mem_of_find?_eq_some hf) (hk.trans hb.symm)]

/-- **The order of a table with distinct keys does not matter to a search.** -/
theorem find?_key_perm {l l' : List α} (hp : l.Perm l') (hnd : (l.map key).Nodup) (k : κ) :
    (l.find? fun a => key a = k) = l'.find? fun a => key a = k := by
  have hnd' : (l'.map key).Nodup := (hp.map key).nodup_iff.mp hnd
  refine Option.ext fun a => ?_
  rw [find?_key_eq_some_iff hnd, find?_key_eq_some_iff hnd', hp.mem_iff]

/-- Searching a table that has at most one entry for each entry of another, under the same key. -/
theorem find?_filterMap_key {f : α → Option β} {key' : β → κ}
    (hf : ∀ a b, f a = some b → key' b = key a) {l : List α} (hnd : (l.map key).Nodup) (k : κ) :
    ((l.filterMap f).find? fun b => key' b = k) = (l.find? fun a => key a = k).bind f := by
  induction l with
  | nil => rfl
  | cons a l ih =>
    obtain ⟨ha, hnd⟩ := List.nodup_cons.mp hnd
    by_cases hk : key a = k
    · cases hfa : f a with
      | some b => simp [hfa, hf a b hfa, hk]
      | none =>
        -- no later entry has this key
        have hnone : (l.find? fun a => key a = k) = none := by
          rw [List.find?_eq_none]
          intro a' ha' he
          exact ha (List.mem_map.mpr ⟨a', ha', by simpa [hk] using he⟩)
        simp [hfa, hk, ih hnd, hnone]
    · cases hfa : f a with
      | some b => simp [hfa, hf a b hfa, hk, ih hnd]
      | none => simp [hfa, hk, ih hnd]

end CLib
