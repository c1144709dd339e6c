import Netrec.CLib.CString

/-!
# Fields of a string

The fields of a string are the longest parts of it without a separator. A scanner finds them one
after the other: it skips separators and takes what follows up to the next one.

## Main definitions

* `fields p s`: the fields of `s` between the bytes that satisfy `p`
* `scanWord width s`: `%s` of `scanf` with a width

## Main results

* `fields_append_sep`: the fields of two strings with a separator between them
* `fields_scan`: the next field and the fields of the rest
-/

namespace CLib

/-- The fields of a string between separators. -/
def fields (p : Char → Bool) (s : CStr) : List CStr := (s.splitOnP p).filter (· ≠ [])

variable {p : Char → Bool} {a s w : CStr} {c : Char}

@[simp] theorem fields_nil : fields p [] = [] := by
  simp [fields, List.splitOnP_nil]

/-- **A separator separates fields.** -/
theorem fields_append_sep (a b : CStr) (hc : p c) :
    fields p (a ++ c :: b) = fields p a ++ fields p b := by
  simp only [fields, List.splitOnP_append_cons a b hc, List.filter_append]

theorem fields_cons_sep (s : CStr) (hc : p c) : fields p (c :: s) = fields p s :=
  fields_append_sep [] s hc

theorem fields_eq_singleton (hne : w ≠ []) (h : ∀ c ∈ w, p c = false) : fields p w = [w] := by
  rw [fields, List.splitOnP_eq_singleton h, List.filter_singleton]
  simp [hne]

theorem fields_dropWhile (s : CStr) : fields p (s.dropWhile p) = fields p s := by
  induction s with
  | nil => rfl
  | cons c s ih =>
    by_cases hc : p c
    · rw [List.dropWhile_cons_of_pos hc, fields_cons_sep s hc, ih]
    · rw [List.dropWhile_cons_of_neg hc]

/-- **The next field and the fields of the rest.** -/
theorem fields_scan (hs : s.dropWhile p = c :: a) :
    p c = false ∧ fields p s = ((c :: a).takeWhile fun d => !p d) ::
      fields p ((c :: a).dropWhile fun d => !p d) := by
  have hc : p c = false := by
    have := List.head_dropWhile_not p (l := s) (by simp [hs])
    simpa [hs] using this
  refine ⟨hc, ?_⟩
  have hne : (c :: a).takeWhile (fun d => !p d) ≠ [] := by simp [hc]
  have hfield : ∀ d ∈ (c :: a).takeWhile (fun d => !p d), p d = false :=
    fun d hd => by simpa using List.mem_takeWhile_imp hd
  have hsplit := @List.takeWhile_append_dropWhile _ (fun d => !p d) (c :: a)
  rw [← fields_dropWhile s, hs]
  -- the rest is empty or starts with the separator that ends the field
  cases hr : (c :: a).dropWhile fun d => !p d with
  | nil =>
    rw [hr, List.append_nil] at hsplit
    rw [hsplit] at hne hfield ⊢
    rw [fields_nil, fields_eq_singleton hne hfield]
  | cons d rest =>
    have hd : p d := by
      have := List.head_dropWhile_not (fun d => !p d) (l := c :: a) (by simp [hr])
      simpa [hr] using this
    rw [hr] at hsplit
    nth_rewrite 1 [← hsplit]
    rw [fields_append_sep _ rest hd, fields_eq_singleton hne hfield, fields_cons_sep rest hd,
      List.singleton_append]

/-! ## `scanf` -/

/-- `%s` with a width: white space is skipped, and at most `width` other bytes are taken. -/
def scanWord (width : Nat) (s : CStr) : Option (CStr × CStr) :=
  let t := s.dropWhile isSpace
  let w := (t.takeWhile fun c => !isSpace c).take width
  if w = [] then none else some (w, t.drop w.length)

/-- Without a field there is nothing to scan. -/
theorem scanWord_eq_none {width : Nat} (h : fields isSpace s = []) : scanWord width s = none := by
  cases hs : s.dropWhile isSpace with
  | nil => simp [scanWord, hs]
  | cons c a =>
    rw [(fields_scan hs).2] at h
    cases h

/-- The next field is scanned as far as the width allows; if it is short enough, the scan goes on
behind it. -/
theorem scanWord_of_fields {width : Nat} {ws : List CStr} (hwidth : 0 < width)
    (h : fields isSpace s = w :: ws) :
    ∃ rest, scanWord width s = some (w.take width, rest) ∧
      (w.length ≤ width → fields isSpace rest = ws) := by
  cases hs : s.dropWhile isSpace with
  | nil =>
    rw [← fields_dropWhile, hs, fields_nil] at h
    cases h
  | cons c a =>
    obtain ⟨hc, hfields⟩ := fields_scan hs
    obtain ⟨rfl, rfl⟩ := List.cons.inj (hfields.symm.trans h)
    have hne : ((c :: a).takeWhile fun d => !isSpace d).take width ≠ [] := by
      rw [List.takeWhile_cons_of_pos (by simp [hc]), ne_eq, List.take_eq_nil_iff]
      simp
      omega
    refine ⟨(c :: a).drop (((c :: a).takeWhile fun d => !isSpace d).take width).length,
      by simp only [scanWord, hs, if_neg hne], fun hlen => ?_⟩
    rw [List.take_of_length_le hlen]
    have hdrop := @List.drop_left _ ((c :: a).takeWhile fun d => !isSpace d)
      ((c :: a).dropWhile fun d => !isSpace d)
    rw [List.takeWhile_append_dropWhile] at hdrop
    rw [hdrop]

end CLib
