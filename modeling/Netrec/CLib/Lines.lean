import Netrec.CLib.CString
import Netrec.CLib.Chain

/-!
# Reading a file line by line

`fgets(line, sz, f)` reads at most `sz - 1` bytes and stops after a newline. `fgetsAll` lists what
the loop `while (fgets(line, sz, f))` sees: the C string left in the buffer by each call, and
whether the call has hit the end of the file. A text made of short lines is seen line by line.

## Main definitions

* `fgets n s`: the bytes one call reads when `n` bytes fit, and the unread rest
* `fgetsAll sz s`: the buffers of all calls up to the end of `s`, each with `feof`
* `LinesFit n s`: no line of `s` is longer than `n` bytes
* `trimEol`: a line without its trailing `\n` and `\r`

## Main results

* `fgetsAll_line`, `fgetsAll_lines`: a text of lines that fit is read line by line
* `fgetsAll_long`: a line that does not fit is cut by the first call
* `foldlM_fgetsAll`: a loop of `fgets` is a loop over the lines of the text
* `trimEol_line`: a line that does not end in `\r` loses exactly its newline
* `splitOnP_or`: splitting at two classes of separators
-/

namespace CLib

/-- One call of `fgets` with room for `n` bytes: the bytes read and the rest of the file. -/
def fgets : Nat → CStr → CStr × CStr
  | 0, s => ([], s)
  | _ + 1, [] => ([], [])
  | n + 1, c :: s =>
    if c = '\n' then ([c], s) else
      let (l, rest) := fgets n s
      (c :: l, rest)

/-- `fgets` has hit the end of the file: it stopped with room left and no newline. -/
def hitEof (sz : Nat) (l rest : CStr) : Bool :=
  rest.isEmpty && l.length + 1 < sz && l.getLast? != some '\n'

/-- The first `fuel` calls of the loop. -/
def fgetsLoop (sz : Nat) : Nat → CStr → List (CStr × Bool)
  | 0, _ => []
  | _ + 1, [] => []
  | fuel + 1, c :: s =>
    let (l, rest) := fgets (sz - 1) (c :: s)
    (cstr l, hitEof sz l rest) :: fgetsLoop sz fuel rest

/-- All calls of `while (fgets(line, sz, f))`: each one reads at least a byte, so the length of
the text bounds their number. -/
def fgetsAll (sz : Nat) (s : CStr) : List (CStr × Bool) := fgetsLoop sz s.length s

theorem fgets_snd_length_le (n : Nat) (s : CStr) : (fgets n s).2.length ≤ s.length := by
  induction n generalizing s with
  | zero => simp [fgets]
  | succ n ih =>
    cases s with
    | nil => simp [fgets]
    | cons c s =>
      by_cases hc : c = '\n'
      · simp [fgets, hc]
      · simp only [fgets, hc, if_false, List.length_cons]
        exact (ih s).trans (Nat.le_succ _)

/-- A call with room for a byte consumes one. -/
theorem fgets_snd_length_lt (n : Nat) (c : Char) (s : CStr) :
    (fgets (n + 1) (c :: s)).2.length < (c :: s).length := by
  by_cases hc : c = '\n'
  · simp [fgets, hc]
  · simp only [fgets, hc, if_false, List.length_cons]
    exact Nat.lt_succ_of_le (fgets_snd_length_le n s)

/-- Fuel beyond the length of the text changes nothing. -/
theorem fgetsLoop_of_le {sz : Nat} (hsz : 2 ≤ sz) {k : Nat} {s : CStr}
    (h : s.length ≤ k) : fgetsLoop sz k s = fgetsAll sz s := by
  unfold fgetsAll
  -- both fuels are compared against a third one, by induction on the shorter
  have key : ∀ (m n : Nat) (s : CStr), s.length ≤ m → s.length ≤ n →
      fgetsLoop sz m s = fgetsLoop sz n s := by
    intro m
    induction m with
    | zero =>
      intro n s hm _
      rw [List.length_eq_zero_iff.mp (Nat.le_zero.mp hm)]
      cases n <;> rfl
    | succ m ih =>
      intro n s hm hn
      cases s with
      | nil => cases n <;> rfl
      | cons c s =>
        obtain ⟨n, rfl⟩ : ∃ k, n = k + 1 := ⟨n - 1, by simp at hn; omega⟩
        obtain ⟨k, hk⟩ : ∃ k, sz - 1 = k + 1 := ⟨sz - 2, by omega⟩
        have hlt := fgets_snd_length_lt k c s
        rw [← hk] at hlt
        simp only [fgetsLoop]
        rw [ih n _ (by omega) (by omega)]
  exact key k s.length s h le_rfl

/-- Every buffer is a C string. -/
theorem nul_notMem_fgetsAll {sz : Nat} {s : CStr} {l : CStr × Bool} (h : l ∈ fgetsAll sz s) :
    '\x00' ∉ l.1 := by
  have key : ∀ (n : Nat) (s : CStr), ∀ l ∈ fgetsLoop sz n s, '\x00' ∉ l.1 := by
    intro n
    induction n with
    | zero => simp [fgetsLoop]
    | succ n ih =>
      intro s l hl
      cases s with
      | nil => simp [fgetsLoop] at hl
      | cons c s =>
        simp only [fgetsLoop, List.mem_cons] at hl
        rcases hl with rfl | hl
        · exact nul_notMem_cstr _
        · exact ih _ l hl
  exact key s.length s l h

/-- A line that fits is read whole, with its newline. -/
theorem fgets_line {n : Nat} {l : CStr} (rest : CStr) (hl : '\n' ∉ l) (hn : l.length < n) :
    fgets n (l ++ '\n' :: rest) = (l ++ ['\n'], rest) := by
  induction l generalizing n with
  | nil =>
    obtain ⟨n, rfl⟩ : ∃ k, n = k + 1 := ⟨n - 1, by simp at hn; omega⟩
    simp [fgets]
  | cons c l ih =>
    simp only [List.length_cons] at hn
    obtain ⟨n, rfl⟩ : ∃ k, n = k + 1 := ⟨n - 1, by omega⟩
    have hc : c ≠ '\n' := fun e => hl (e ▸ List.mem_cons_self)
    have := ih (n := n) (fun h => hl (List.mem_cons_of_mem c h)) (by omega)
    simp [fgets, hc, this]

theorem fgetsAll_nil (sz : Nat) : fgetsAll sz [] = [] := rfl

/-- A call that meets no newline reads as many bytes as fit. -/
theorem fgets_of_notMem {n : Nat} {s : CStr} (h : '\n' ∉ s.take n) :
    fgets n s = (s.take n, s.drop n) := by
  induction n generalizing s with
  | zero => simp [fgets]
  | succ n ih =>
    cases s with
    | nil => simp [fgets]
    | cons c s =>
      rw [List.take_succ_cons, List.mem_cons, not_or] at h
      simp [fgets, Ne.symm h.1, ih h.2]

/-- The loop makes a first call and goes on with the rest. -/
theorem fgetsAll_of_fgets {sz : Nat} {s l rest : CStr} (hsz : 2 ≤ sz) (hs : s ≠ [])
    (h : fgets (sz - 1) s = (l, rest)) :
    fgetsAll sz s = (cstr l, hitEof sz l rest) :: fgetsAll sz rest := by
  cases s with
  | nil => exact absurd rfl hs
  | cons c s =>
    obtain ⟨k, hk⟩ : ∃ k, sz - 1 = k + 1 := ⟨sz - 2, by omega⟩
    have hlt := fgets_snd_length_lt k c s
    rw [← hk, h, List.length_cons] at hlt
    have hle : rest.length ≤ s.length := Nat.le_of_lt_succ hlt
    rw [← fgetsLoop_of_le hsz hle]
    simp only [fgetsAll, List.length_cons, fgetsLoop, h]

/-- The loop sees a first line that fits as one call. -/
theorem fgetsAll_line {sz : Nat} {l : CStr} (rest : CStr) (hl : '\n' ∉ l) (hn : '\x00' ∉ l)
    (hsz : l.length + 2 ≤ sz) :
    fgetsAll sz (l ++ '\n' :: rest) = (l ++ ['\n'], false) :: fgetsAll sz rest := by
  have hread : fgets (sz - 1) (l ++ '\n' :: rest) = (l ++ ['\n'], rest) :=
    fgets_line rest hl (by omega)
  have hstr : cstr (l ++ ['\n']) = l ++ ['\n'] := cstr_eq_self (by simp [hn])
  rw [fgetsAll_of_fgets (by omega) (by simp) hread, hstr]
  simp [hitEof]

/-- The loop sees a last line that fits and has no newline as one call. -/
theorem fgetsAll_last {sz : Nat} {l : CStr} (hl : '\n' ∉ l) (hn : '\x00' ∉ l) (hne : l ≠ [])
    (hsz : l.length + 2 ≤ sz) : fgetsAll sz l = [(l, true)] := by
  have hread : fgets (sz - 1) l = (l, []) := by
    rw [fgets_of_notMem fun h => hl (List.mem_of_mem_take h), List.take_of_length_le (by omega),
      List.drop_of_length_le (by omega)]
  have hlast : l.getLast? ≠ some '\n' := fun h => hl (List.mem_of_getLast? h)
  rw [fgetsAll_of_fgets (by omega) hne hread, cstr_eq_self hn, fgetsAll_nil]
  simp only [hitEof, List.isEmpty_nil, Bool.true_and, List.cons.injEq, Prod.mk.injEq, true_and,
    and_true]
  simp [hlast]
  omega

/-- The first call on a line that does not fit stops inside it. -/
theorem fgetsAll_long {sz : Nat} {l : CStr} (rest : CStr) (hsz : 2 ≤ sz) (hl : '\n' ∉ l)
    (hn : '\x00' ∉ l) (hlen : sz ≤ l.length + 1) :
    ∃ calls, fgetsAll sz (l ++ rest) = (l.take (sz - 1), false) :: calls := by
  have htake : (l ++ rest).take (sz - 1) = l.take (sz - 1) :=
    List.take_append_of_le_length (by omega)
  have hread : fgets (sz - 1) (l ++ rest) = (l.take (sz - 1), (l ++ rest).drop (sz - 1)) := by
    rw [fgets_of_notMem (by rw [htake]; exact fun h => hl (List.mem_of_mem_take h)), htake]
  have hne : l ++ rest ≠ [] := by
    intro h
    rw [(List.append_eq_nil_iff.mp h).1] at hlen
    simp at hlen
    omega
  have hroom : ¬ (min (sz - 1) l.length + 1 < sz) := by omega
  refine ⟨fgetsAll sz ((l ++ rest).drop (sz - 1)), ?_⟩
  rw [fgetsAll_of_fgets hsz hne hread, cstr_eq_self fun h => hn (List.mem_of_mem_take h)]
  simp [hitEof, hroom]

/-- **A text of lines that fit is read line by line.** -/
theorem fgetsAll_lines {sz : Nat} {ls : List CStr}
    (h : ∀ l ∈ ls, '\n' ∉ l ∧ '\x00' ∉ l ∧ l.length + 2 ≤ sz) :
    fgetsAll sz (ls.flatMap fun l => l ++ ['\n']) = ls.map fun l => (l ++ ['\n'], false) := by
  induction ls with
  | nil => rfl
  | cons l ls ih =>
    obtain ⟨hl, hn, hsz⟩ := h l List.mem_cons_self
    rw [List.flatMap_cons, List.append_assoc, List.singleton_append,
      fgetsAll_line _ hl hn hsz, ih fun l' hl' => h l' (List.mem_cons_of_mem l hl'), List.map_cons]

theorem splitOn_eq_singleton {a : Char} {s : CStr} (h : a ∉ s) : s.splitOn a = [s] :=
  List.splitOnP_eq_singleton fun c hc => by
    simp only [beq_eq_false_iff_ne]
    rintro rfl
    exact h hc

/-- The text up to the first newline, if there is one, and what follows. -/
theorem exists_line (t : CStr) : '\n' ∉ t ∨ ∃ l rest, t = l ++ '\n' :: rest ∧ '\n' ∉ l := by
  by_cases h : '\n' ∈ t
  · obtain ⟨l, rest, rfl, hl⟩ := List.eq_append_cons_of_mem h
    exact .inr ⟨l, rest, rfl, hl⟩
  · exact .inl h

section Loop

variable {σ ε : Type} {sz : Nat} {e : ε} {f : σ → CStr → Except ε σ}

/-- One round of a loop that gives up on a buffer without newline before the end of the file. -/
def lineRound (e : ε) (f : σ → CStr → Except ε σ) (st : σ) (l : CStr × Bool) : Except ε σ :=
  if '\n' ∉ l.1 ∧ !l.2 then .error e else f st l.1

/-- A line that does not fit the buffer ends the loop. -/
theorem foldlM_lineRound_long {l : CStr} (rest : CStr) (st : σ) (hsz : 2 ≤ sz) (hl : '\n' ∉ l)
    (hn : '\x00' ∉ l) (hlen : sz ≤ l.length + 1) :
    (fgetsAll sz (l ++ rest)).foldlM (lineRound e f) st = .error e := by
  obtain ⟨calls, hcalls⟩ := fgetsAll_long rest hsz hl hn hlen
  have hnl : '\n' ∉ l.take (sz - 1) := fun h => hl (List.mem_of_mem_take h)
  rw [hcalls, List.foldlM_cons]
  simp [lineRound, hnl]

/-- **A loop of `fgets` is a loop over the lines of the text**, when its body ignores the newline
and the empty text. -/
theorem foldlM_fgetsAll {t : CStr} (hsz : 2 ≤ sz) (hn : '\x00' ∉ t)
    (hnil : ∀ st, f st [] = .ok st) (heol : ∀ st l, f st (l ++ ['\n']) = f st l) (st : σ) :
    (fgetsAll sz t).foldlM (lineRound e f) st =
      (t.splitOn '\n').foldlM (fun st l => if sz ≤ l.length + 1 then .error e else f st l) st := by
  -- on the length of the text, which every line shortens
  induction hk : t.length using Nat.strong_induction_on generalizing t st with
  | _ k ih =>
    obtain ht | ⟨l, rest, rfl, hl⟩ := exists_line t
    · rw [splitOn_eq_singleton ht, foldlM_singleton]
      by_cases hlen : sz ≤ t.length + 1
      · rw [if_pos hlen]
        simpa using foldlM_lineRound_long [] st hsz ht hn hlen
      · rw [if_neg hlen]
        by_cases hne : t = []
        · subst hne
          exact (hnil st).symm
        · rw [fgetsAll_last ht hn hne (by omega), foldlM_singleton]
          simp [lineRound]
    · have hnl : '\x00' ∉ l := fun h => hn (List.mem_append_left _ h)
      have hnr : '\x00' ∉ rest :=
        fun h => hn (List.mem_append_right l (List.mem_cons_of_mem '\n' h))
      rw [List.splitOn_append_cons_self_of_not_mem hl, List.foldlM_cons]
      by_cases hlen : sz ≤ l.length + 1
      · rw [foldlM_lineRound_long _ st hsz hl hnl hlen, if_pos hlen, error_bind]
      · rw [fgetsAll_line rest hl hnl (by omega), List.foldlM_cons, if_neg hlen]
        have hround : lineRound e f st (l ++ ['\n'], false) = f st l := by
          simp [lineRound, heol]
        rw [hround]
        refine bind_congr fun st' => ih rest.length ?_ hnr st' rfl
        rw [← hk, List.length_append, List.length_cons]
        omega

end Loop

/-- Every line of a text has at most `n` bytes with its newline. -/
def LinesFit (n : Nat) (text : CStr) : Prop := ∀ l ∈ text.splitOn '\n', l.length + 1 ≤ n

instance (n : Nat) (text : CStr) : Decidable (LinesFit n text) :=
  inferInstanceAs (Decidable (∀ l ∈ text.splitOn '\n', l.length + 1 ≤ n))

theorem LinesFit.of_mem {n : Nat} {ls : List CStr} (hls : ∀ l ∈ ls, '\n' ∉ l)
    (h : LinesFit n (ls.flatMap fun l => l ++ ['\n'])) : ∀ l ∈ ls, l.length + 1 ≤ n := by
  induction ls with
  | nil => simp
  | cons l ls ih =>
    unfold LinesFit at h
    rw [List.flatMap_cons, List.append_assoc, List.singleton_append,
      List.splitOn_append_cons_self_of_not_mem (hls l List.mem_cons_self)] at h
    refine List.forall_mem_cons.mpr ⟨h l List.mem_cons_self, ?_⟩
    exact ih (fun m hm => hls m (List.mem_cons_of_mem l hm))
      fun m hm => h m (List.mem_cons_of_mem l hm)

/-- The line without its trailing `\n` and `\r`. -/
def trimEol (s : CStr) : CStr := s.rdropWhile fun c => c = '\n' || c = '\r'

/-- A line that does not end in `\n` or `\r` loses exactly its newline. -/
theorem trimEol_line {l : CStr} (h : ∀ c, l.getLast? = some c → c ≠ '\n' ∧ c ≠ '\r') :
    trimEol (l ++ ['\n']) = l := by
  unfold trimEol
  rw [List.rdropWhile_concat_pos _ _ _ (by simp), List.rdropWhile_eq_self_iff]
  intro hne
  simpa using h _ (List.getLast?_eq_some_getLast hne)

theorem trimEol_append {l : CStr} {c : Char} (h : c = '\n' ∨ c = '\r') :
    trimEol (l ++ [c]) = trimEol l :=
  List.rdropWhile_concat_pos _ _ _ (by simpa using h)

theorem trimEol_append_self {l : CStr} {c : Char} (hn : c ≠ '\n') (hr : c ≠ '\r') :
    trimEol (l ++ [c]) = l ++ [c] :=
  List.rdropWhile_concat_neg _ _ _ (by simp [hn, hr])

/-- A trimmed line that is not empty ends in neither `\n` nor `\r`. -/
theorem trimEol_getLast {l : CStr} (h : trimEol l ≠ []) :
    (trimEol l).getLast h ≠ '\n' ∧ (trimEol l).getLast h ≠ '\r' := by
  have hlast := List.rdropWhile_last_not _ l h
  simp only [Bool.or_eq_true, decide_eq_true_eq, not_or] at hlast
  exact hlast

/-! ## Splitting at separators -/

/-- The pieces of a split hold the bytes that are no separators. -/
theorem mem_of_mem_splitOnP {α : Type} {p : α → Bool} {s w : List α} (h : w ∈ s.splitOnP p) :
    ∀ c ∈ w, c ∈ s ∧ p c = false := by
  induction s generalizing w with
  | nil =>
    rw [List.splitOnP_nil, List.mem_singleton] at h
    simp [h]
  | cons c s ih =>
    have hs : ∀ {w}, w ∈ s.splitOnP p → ∀ d ∈ w, d ∈ c :: s ∧ p d = false := fun h d hd =>
      ⟨List.mem_cons_of_mem c (ih h d hd).1, (ih h d hd).2⟩
    rw [List.splitOnP_cons_eq_if_modifyHead] at h
    obtain ⟨v, vs, hv⟩ := List.exists_cons_of_ne_nil (List.splitOnP_ne_nil p s)
    rw [hv] at h hs
    by_cases hc : p c
    · rw [if_pos hc, List.mem_cons] at h
      obtain rfl | h := h
      · simp
      · exact hs h
    · rw [if_neg hc, List.modifyHead_cons, List.mem_cons] at h
      obtain rfl | h := h
      · exact List.forall_mem_cons.mpr
          ⟨⟨List.mem_cons_self, by simpa using hc⟩, hs List.mem_cons_self⟩
      · exact hs (List.mem_cons_of_mem v h)

/-- Every byte that is no separator is in a piece. -/
theorem exists_mem_splitOnP {α : Type} {p : α → Bool} {s : List α} {c : α} (hc : c ∈ s)
    (hp : p c = false) : ∃ w ∈ s.splitOnP p, c ∈ w := by
  induction s with
  | nil => simp at hc
  | cons d s ih =>
    rw [List.splitOnP_cons_eq_if_modifyHead]
    obtain ⟨v, vs, hv⟩ := List.exists_cons_of_ne_nil (List.splitOnP_ne_nil p s)
    rw [hv] at ih ⊢
    obtain rfl | hc := List.mem_cons.mp hc
    · exact ⟨c :: v, by simp [hp], List.mem_cons_self⟩
    · obtain ⟨w, hw, hcw⟩ := ih hc
      by_cases hd : p d
      · exact ⟨w, by simp [hd, List.mem_cons.mp hw], hcw⟩
      · obtain rfl | hw := List.mem_cons.mp hw
        · exact ⟨d :: w, by simp [hd], List.mem_cons_of_mem d hcw⟩
        · exact ⟨w, by simp [hd, hw], hcw⟩

theorem notMem_of_mem_splitOn {a : Char} {t l : CStr} (h : l ∈ t.splitOn a) : a ∉ l :=
  fun ha => by simpa using (mem_of_mem_splitOnP h a ha).2

/-- Splitting at two classes of separators is splitting at one and then at the other. -/
theorem splitOnP_or {α : Type} (p q : α → Bool) (s : List α) :
    s.splitOnP (fun c => p c || q c) = (s.splitOnP p).flatMap fun w => w.splitOnP q := by
  induction s with
  | nil => simp [List.splitOnP_nil]
  | cons c s ih =>
    obtain ⟨w, ws, hw⟩ := List.exists_cons_of_ne_nil (List.splitOnP_ne_nil p s)
    obtain ⟨v, vs, hv⟩ := List.exists_cons_of_ne_nil (List.splitOnP_ne_nil q w)
    rw [List.splitOnP_cons_eq_if_modifyHead, ih, hw, List.splitOnP_cons_eq_if_modifyHead, hw]
    cases hp : p c with
    | true => simp [List.splitOnP_nil]
    | false =>
      cases hq : q c <;> simp [List.splitOnP_cons_eq_if_modifyHead, hq, hv]

/-- A text with a byte that is no separator has a piece that is not empty. -/
theorem one_le_countP_splitOnP {α : Type} {p : α → Bool} {s : List α} (h : ∃ c ∈ s, p c = false) :
    1 ≤ (s.splitOnP p).countP fun w => !w.isEmpty := by
  induction s with
  | nil => simp at h
  | cons c s ih =>
    rw [List.splitOnP_cons_eq_if_modifyHead]
    obtain ⟨v, vs, hv⟩ := List.exists_cons_of_ne_nil (List.splitOnP_ne_nil p s)
    cases hc : p c with
    | true =>
      obtain ⟨d, hd, hdp⟩ := h
      obtain rfl | hd := List.mem_cons.mp hd
      · simp [hc] at hdp
      · simpa using ih ⟨d, hd, hdp⟩
    | false => simp [hv]

/-- A text given line by line. -/
def unlines (ls : List String) : CStr := ls.flatMap fun l => l.toList ++ ['\n']

end CLib
