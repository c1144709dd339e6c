import Netrec.CLib.Lines

/-!
# Lines that do not fit

A loop of `fgets` that does not look for the newline takes every buffer for a line. A line that is
longer than the buffer is then seen in pieces, each as long as the buffer allows.

## Main definitions

* `chunks n l`: the parts of `n` elements that `l` is cut into

## Main results

* `filterMap_fgetsAll`: what such a loop collects is what the pieces of the lines give
-/

namespace CLib

variable {α β : Type}

/-- The parts of `n` elements that a list is cut into; the last one may be shorter. -/
def chunks (n : Nat) (l : List α) : List (List α) :=
  (List.range ((l.length + n - 1) / n)).map fun i => (l.drop (n * i)).take n

theorem chunks_nil {n : Nat} (hn : 0 < n) : chunks n ([] : List α) = [] := by
  have hcount : ([] : List α).length + n - 1 < n := by
    rw [List.length_nil]
    omega
  rw [chunks, Nat.div_eq_of_lt hcount, List.range_zero, List.map_nil]

/-- The first piece and the pieces of the rest. -/
theorem chunks_of_ne_nil {n : Nat} {l : List α} (hn : 0 < n) (hl : l ≠ []) :
    chunks n l = l.take n :: chunks n (l.drop n) := by
  have hpos : 0 < l.length := List.length_pos_iff.mpr hl
  have hcount : (l.length + n - 1) / n = ((l.drop n).length + n - 1) / n + 1 := by
    rw [List.length_drop, show l.length + n - 1 = l.length - 1 + n by omega,
      Nat.add_div_right _ hn]
    -- a list shorter than one piece is a last piece
    by_cases hle : n ≤ l.length
    · rw [show l.length - n + n - 1 = l.length - 1 by omega]
    · rw [Nat.div_eq_of_lt (by omega : l.length - 1 < n),
        Nat.div_eq_of_lt (by omega : l.length - n + n - 1 < n)]
  rw [chunks, hcount, List.range_succ_eq_map, List.map_cons, List.map_map]
  simp only [Nat.mul_zero, List.drop_zero, List.cons.injEq, true_and]
  refine List.map_congr_left fun i _ => ?_
  rw [Function.comp_apply, List.drop_drop, Nat.mul_succ, Nat.add_comm]

theorem chunks_of_length_le {n : Nat} {l : List α} (hl : l ≠ []) (hlen : l.length ≤ n) :
    chunks n l = [l] := by
  have hn : 0 < n := (List.length_pos_iff.mpr hl).trans_le hlen
  rw [chunks_of_ne_nil hn hl, List.take_of_length_le hlen, List.drop_of_length_le hlen,
    chunks_nil hn]

/-- **What a loop of `fgets` collects**, when it takes every buffer for a line and ignores the
newline and the empty text: what the pieces of the lines give. -/
theorem filterMap_fgetsAll {sz : Nat} {t : CStr} {g : CStr → Option β} (hsz : 2 ≤ sz)
    (hn : '\x00' ∉ t) (hnil : g [] = none) (heol : ∀ l, g (l ++ ['\n']) = g l) :
    (fgetsAll sz t).filterMap (fun l => g l.1) =
      (t.splitOn '\n').flatMap fun l => (chunks (sz - 1) l).filterMap g := by
  have hroom : 0 < sz - 1 := by omega
  -- on the length of the text, which every call shortens
  induction hk : t.length using Nat.strong_induction_on generalizing t with
  | _ k ih =>
    by_cases hne : t = []
    · subst hne
      simp [fgetsAll_nil, chunks_nil hroom]
    obtain ht | ⟨l, rest, rfl, hl⟩ := exists_line t
    · -- a last line without newline is cut like any other
      have hread := fgets_of_notMem (n := sz - 1) fun h => ht (List.mem_of_mem_take h)
      have hpos := List.length_pos_iff.mpr hne
      rw [fgetsAll_of_fgets hsz hne hread, cstr_eq_self fun h => hn (List.mem_of_mem_take h),
        List.filterMap_cons, ih (t.drop (sz - 1)).length (by rw [List.length_drop]; omega)
          (fun h => hn (List.mem_of_mem_drop h)) rfl,
        splitOn_eq_singleton ht, splitOn_eq_singleton fun h => ht (List.mem_of_mem_drop h)]
      simp only [List.flatMap_singleton, chunks_of_ne_nil hroom hne, List.filterMap_cons]
    have hnl : '\x00' ∉ l := fun h => hn (List.mem_append_left _ h)
    have hnr : '\x00' ∉ '\n' :: rest := fun h => hn (List.mem_append_right l h)
    rw [List.splitOn_append_cons_self_of_not_mem hl, List.flatMap_cons]
    by_cases hlen : l.length < sz - 1
    · -- the call reads the line with its newline
      rw [fgetsAll_line rest hl hnl (by omega), List.filterMap_cons, heol,
        ih rest.length (by rw [← hk]; simp; omega) (fun h => hnr (List.mem_cons_of_mem _ h)) rfl]
      by_cases hl0 : l = []
      · simp [hl0, hnil, chunks_nil hroom]
      · rw [chunks_of_length_le hl0 hlen.le, List.filterMap_cons, List.filterMap_nil]
        cases g l <;> rfl
    · -- the call stops inside the line or right in front of its newline
      have hl0 : l ≠ [] := by
        rintro rfl
        simp at hlen
        omega
      have htake : (l ++ '\n' :: rest).take (sz - 1) = l.take (sz - 1) :=
        List.take_append_of_le_length (by omega)
      have hdrop : (l ++ '\n' :: rest).drop (sz - 1) = l.drop (sz - 1) ++ '\n' :: rest :=
        List.drop_append_of_le_length (by omega)
      have hread : fgets (sz - 1) (l ++ '\n' :: rest) =
          (l.take (sz - 1), l.drop (sz - 1) ++ '\n' :: rest) := by
        rw [fgets_of_notMem (by rw [htake]; exact fun h => hl (List.mem_of_mem_take h)), htake,
          hdrop]
      have hnd : '\x00' ∉ l.drop (sz - 1) ++ '\n' :: rest := by
        rw [List.mem_append, not_or]
        exact ⟨fun h => hnl (List.mem_of_mem_drop h), hnr⟩
      have hshort : (l.drop (sz - 1) ++ '\n' :: rest).length < k := by
        rw [← hk, List.length_append, List.length_append, List.length_drop]
        omega
      rw [fgetsAll_of_fgets hsz hne hread, cstr_eq_self fun h => hnl (List.mem_of_mem_take h),
        List.filterMap_cons, ih _ hshort hnd rfl,
        List.splitOn_append_cons_self_of_not_mem fun h => hl (List.mem_of_mem_drop h),
        List.flatMap_cons, chunks_of_ne_nil hroom hl0, List.filterMap_cons]
      cases g (l.take (sz - 1)) <;> rfl

end CLib
