import Netrec.CLib.Fields
import Netrec.CLib.Lines

/-!
# Words

The blank-separated words of a string, as a scanner finds them one after the other and as they
come out of strings that are put together. A string that is cut in front of a blank is cut into two
lists of words.

## Main definitions

* `IsWord`: a string that is one word

## Main results

* `words_append_blank`: the words of two strings with a blank between them
* `words_scan`: the next word and the words of the rest
* `words_append`: the words of a string and of a longer one
* `words_intercalate_iff`: strings that are put together with blanks come apart again
-/

namespace CLib

/-- A string that is one word. -/
structure IsWord (w : CStr) : Prop where
  ne_nil : w ≠ []
  not_blank : ∀ c ∈ w, isBlank c = false

instance (w : CStr) : Decidable (IsWord w) :=
  decidable_of_iff (w ≠ [] ∧ w.all fun c => isBlank c = false)
    ⟨fun h => ⟨h.1, by simpa using h.2⟩, fun h => ⟨h.ne_nil, by simpa using h.not_blank⟩⟩

variable {a b s w : CStr} {c : Char}

@[simp] theorem words_nil : words [] = [] := fields_nil

/-- **A blank separates words.** -/
theorem words_append_blank (a b : CStr) (hc : isBlank c) :
    words (a ++ c :: b) = words a ++ words b :=
  fields_append_sep a b hc

theorem words_cons_blank (s : CStr) (hc : isBlank c) : words (c :: s) = words s :=
  fields_cons_sep s hc

theorem IsWord.words_eq (h : IsWord w) : words w = [w] :=
  fields_eq_singleton h.ne_nil h.not_blank

theorem IsWord.words_append (h : IsWord w) (s : CStr) (hc : isBlank c) :
    words (w ++ c :: s) = w :: words s := by
  rw [words_append_blank w s hc, h.words_eq, List.singleton_append]

theorem isWord_of_mem_words (h : w ∈ words s) : IsWord w := by
  obtain ⟨hw, hne⟩ := List.mem_filter.mp h
  exact ⟨of_decide_eq_true hne, fun c hc => (mem_of_mem_splitOnP hw c hc).2⟩

theorem mem_of_mem_words (h : w ∈ words s) (hc : c ∈ w) : c ∈ s :=
  (mem_of_mem_splitOnP (List.mem_filter.mp h).1 c hc).1

theorem words_dropWhile (s : CStr) : words (s.dropWhile isBlank) = words s :=
  fields_dropWhile s

/-- **The next word and the words of the rest.** -/
theorem words_scan (hs : s.dropWhile isBlank = c :: a) :
    IsWord ((c :: a).takeWhile fun d => !isBlank d) ∧
      words s = ((c :: a).takeWhile fun d => !isBlank d) ::
        words ((c :: a).dropWhile fun d => !isBlank d) := by
  obtain ⟨hc, hfields⟩ := fields_scan hs
  refine ⟨⟨by simp [hc], fun d hd => ?_⟩, hfields⟩
  simpa using List.mem_takeWhile_imp hd

theorem length_le_of_mem_words (h : w ∈ words s) : w.length ≤ s.length := by
  -- on the length of the string, which every word shortens
  induction hk : s.length using Nat.strong_induction_on generalizing s with
  | _ k ih =>
    have hle := (List.dropWhile_suffix isBlank (l := s)).length_le
    cases hs : s.dropWhile isBlank with
    | nil =>
      rw [← words_dropWhile, hs, words_nil] at h
      cases h
    | cons c a =>
      obtain ⟨hword, hscan⟩ := words_scan hs
      have hsplit := congrArg List.length
        (@List.takeWhile_append_dropWhile _ (fun d => !isBlank d) (c :: a))
      rw [List.length_append] at hsplit
      have hpos := List.length_pos_iff.mpr hword.ne_nil
      rw [hs] at hle
      rw [hscan] at h
      obtain rfl | h := List.mem_cons.mp h
      · omega
      · have := ih _ (by omega) h rfl
        omega

/-- A byte in front of a word belongs to it. -/
theorem words_cons_cons {d : Char} (hc : isBlank c = false) (hd : isBlank d = false) (s : CStr) :
    ∃ w ws, words (d :: s) = w :: ws ∧ words (c :: d :: s) = (c :: w) :: ws := by
  obtain ⟨v, vs, hv⟩ := List.exists_cons_of_ne_nil (List.splitOnP_ne_nil isBlank s)
  refine ⟨d :: v, vs.filter (· ≠ []), ?_, ?_⟩
  · simp [words, List.splitOnP_cons_eq_if_modifyHead, hd, hv]
  · simp [words, List.splitOnP_cons_eq_if_modifyHead, hc, hd, hv]

/-- A prefix that does not have the byte ends in front of it. -/
theorem prefix_of_prefix_append_cons {p : CStr} (h : p <+: a ++ c :: b) (hc : c ∉ p) :
    p <+: a := by
  obtain hpa | hap := List.prefix_or_prefix_of_prefix h (List.prefix_append a (c :: b))
  · exact hpa
  · obtain ⟨q, rfl⟩ := hap
    rw [List.prefix_append_right_inj] at h
    cases q with
    | nil => simp
    | cons d q =>
      obtain ⟨rfl, -⟩ := List.cons_prefix_cons.mp h
      exact absurd (by simp) hc

/-- **The words of a string and of a longer one.** They are the same, one by one, but for the last
one, which may go on. -/
theorem words_append (s t : CStr) :
    ∃ l, List.Forall₂ (· <+: ·) (words s) l ∧ l <+: words (s ++ t) := by
  induction s with
  | nil => exact ⟨[], by simp, List.nil_prefix⟩
  | cons c s ih =>
    by_cases hc : isBlank c
    · rwa [words_cons_blank s hc, List.cons_append, words_cons_blank _ hc]
    rw [Bool.not_eq_true] at hc
    have hword : IsWord [c] := ⟨by simp, by simpa using hc⟩
    cases s with
    | nil =>
      rw [hword.words_eq]
      obtain ⟨-, hscan⟩ := words_scan (s := c :: t) (List.dropWhile_cons_of_neg (by simp [hc]))
      rw [List.singleton_append, hscan, List.takeWhile_cons_of_pos (by simp [hc])]
      exact ⟨_, .cons (List.cons_prefix_cons.mpr ⟨rfl, List.nil_prefix⟩) .nil,
        List.cons_prefix_cons.mpr ⟨rfl, List.nil_prefix⟩⟩
    | cons d s =>
      by_cases hd : isBlank d
      · rw [words_cons_blank s hd, List.cons_append, words_cons_blank _ hd] at ih
        obtain ⟨l, hl, hpre⟩ := ih
        have h₁ := hword.words_append s hd
        have h₂ := hword.words_append (s ++ t) hd
        rw [List.singleton_append] at h₁ h₂
        rw [h₁, List.cons_append, List.cons_append, h₂]
        exact ⟨[c] :: l, .cons (List.prefix_refl _) hl, List.cons_prefix_cons.mpr ⟨rfl, hpre⟩⟩
      · rw [Bool.not_eq_true] at hd
        obtain ⟨w, ws, hw, hcw⟩ := words_cons_cons hc hd s
        obtain ⟨v, vs, hv, hcv⟩ := words_cons_cons hc hd (s ++ t)
        rw [List.cons_append, hw, hv] at ih
        obtain ⟨l, hl, hpre⟩ := ih
        cases hl with
        | @cons _ u _ us hwu hus =>
          obtain ⟨rfl, hus'⟩ := List.cons_prefix_cons.mp hpre
          rw [hcw, List.cons_append, List.cons_append, hcv]
          exact ⟨(c :: u) :: us, .cons (List.cons_prefix_cons.mpr ⟨rfl, hwu⟩) hus,
            List.cons_prefix_cons.mpr ⟨rfl, hus'⟩⟩

/-- **Strings that are put together with blanks** come apart again exactly when each is a word. -/
theorem words_intercalate_iff {ws : List CStr} :
    words ([' '].intercalate ws) = ws ↔ ∀ w ∈ ws, IsWord w := by
  refine ⟨fun h w hw => isWord_of_mem_words (h ▸ hw), fun h => ?_⟩
  induction ws with
  | nil => rfl
  | cons w ws ih =>
    obtain ⟨hw, hws⟩ := List.forall_mem_cons.mp h
    cases ws with
    | nil => rw [List.intercalate_singleton, hw.words_eq]
    | cons v ws =>
      have hblank : isBlank ' ' := by decide
      rw [List.intercalate_cons_cons, List.append_assoc, List.singleton_append,
        hw.words_append _ hblank, ih hws]

/-- A word of a string is part of a word of a longer one. -/
theorem exists_word_append {t : CStr} (h : w ∈ words s) : ∃ v ∈ words (s ++ t), w <+: v := by
  obtain ⟨l, hl, hpre⟩ := words_append s t
  obtain ⟨v, hv, hwv⟩ := exists_of_forall₂ hl h
  exact ⟨v, hpre.subset hv, hwv⟩

end CLib
