import Netrec.CLib.Chunks
import Netrec.CLib.Fields
import Netrec.Netlink.Dump

/-!
# The name servers of `resolv.conf`

`rs_load_resolv_conf` reads the file with `fgets` into a buffer of 256 bytes and takes every buffer
for a line: `sscanf` scans its first two words, and a `nameserver` with an IPv4 address fills the
next entry of the table. A line of more than 255 bytes is seen in pieces, so that the file is read
line by line exactly if no line of it is broken by that: its pieces give the name server that the
line itself gives, and no other.

## Main definitions

* `nameserver`: what the loop body takes from one buffer
* `rsLoadResolvConf`: the loader
* `lineServer`: the name server of a line, by its words
* `Unbroken`: the pieces of a line give what the line gives

## Main results

* `nameserver_eq_lineServer`: the bounded scan of a buffer finds what its words say
* `rsLoadResolvConf_eq`: what the loader stores and returns, for every text
* `rsLoadResolvConf_lines_iff`: the texts that are read line by line
-/

namespace Netrec

open CLib

/-! ## The loader -/

/-- `NR_DNS4_MAX`. -/
abbrev NR_DNS4_MAX : Nat := 16

/-- The address of a buffer that `sscanf(line, "%31s %63s", key, val)` and the two checks behind it
accept. -/
def nameserver (line : CStr) : Option UInt32 :=
  (scanWord 31 line).bind fun key =>
    (scanWord 63 key.2).bind fun val =>
      if key.1 = "nameserver".toList then inetPton val.1 else none

/-- One round of the loop. -/
def resolvRound (rs : RealState) (line : CStr × Bool) : Except Stop RealState :=
  tableAdd rs rs.dns4 NR_DNS4_MAX (fun dns4 => { rs with dns4 }) (nameserver line.1)

/-- `rs_load_resolv_conf`, on the text of the file, if it can be opened. -/
def rsLoadResolvConf (rs : RealState) (file : Option CStr) : Int × RealState :=
  let rs := { rs with dns4 := [] }
  match file with
  | none => (0, rs)
  | some text =>
    match (fgetsAll 256 text).foldlM resolvRound rs with
    | .ok rs => (0, rs)
    | .error stop => (stop.rc, stop.rs)

/-! ## One line -/

/-- The name server of a line: its first word is `nameserver`, its second one an address. -/
def lineServer (line : CStr) : Option UInt32 :=
  match fields isSpace line with
  | key :: val :: _ => if key = "nameserver".toList then inetPton val else none
  | _ => none

theorem lineServer_nil : lineServer [] = none := rfl

theorem lineServer_newline (l : CStr) : lineServer (l ++ ['\n']) = lineServer l := by
  have hfields : fields isSpace (l ++ ['\n']) = fields isSpace l := by
    rw [fields_append_sep l [] (by decide), fields_nil, List.append_nil]
  rw [lineServer, lineServer, hfields]

/-- No address has more than 63 bytes, so cutting a word there makes none. -/
theorem inetPton_take (v : CStr) : inetPton (v.take 63) = inetPton v := by
  by_cases hlen : v.length ≤ 63
  · rw [List.take_of_length_le hlen]
  have hnone : ∀ w : CStr, 15 < w.length → inetPton w = none := by
    intro w hw
    cases h : inetPton w with
    | none => rfl
    | some a => exact absurd (inetPton_length h) (by omega)
  rw [hnone v (by omega), hnone (v.take 63) (by rw [List.length_take]; omega)]

/-- **The bounded scan of a buffer finds what its words say.** -/
theorem nameserver_eq_lineServer (line : CStr) : nameserver line = lineServer line := by
  have hname : "nameserver".toList.length = 10 := rfl
  cases hf : fields isSpace line with
  | nil => simp only [nameserver, lineServer, hf, scanWord_eq_none hf, Option.bind_none]
  | cons w ws =>
    obtain ⟨rest, hscan, hrest⟩ := scanWord_of_fields (show 0 < 31 by decide) hf
    by_cases hlen : w.length ≤ 31
    · rw [List.take_of_length_le hlen] at hscan
      cases ws with
      | nil =>
        simp only [nameserver, lineServer, hf, hscan, scanWord_eq_none (hrest hlen),
          Option.bind_some, Option.bind_none]
      | cons v vs =>
        obtain ⟨_, hval, -⟩ := scanWord_of_fields (show 0 < 63 by decide) (hrest hlen)
        simp only [nameserver, lineServer, hf, hscan, hval, inetPton_take, Option.bind_some]
    · -- the first word is cut, and neither it nor its first 31 bytes are the keyword
      have hcut : w.take 31 ≠ "nameserver".toList := by
        intro h
        have := congrArg List.length h
        rw [List.length_take, hname] at this
        omega
      have hword : w ≠ "nameserver".toList := by
        rintro rfl
        omega
      have hcode : nameserver line = none := by
        simp only [nameserver, hscan, Option.bind_some, if_neg hcut, Option.bind_fun_none]
      have hspec : lineServer line = none := by
        cases ws with
        | nil => simp only [lineServer, hf]
        | cons v vs => simp only [lineServer, hf, if_neg hword]
      rw [hcode, hspec]

/-! ## The whole file -/

/-- The loop fills the table in order until it is full. -/
theorem foldlM_resolvRound (bufs : List (CStr × Bool)) (rs : RealState)
    (hrs : rs.dns4.length ≤ NR_DNS4_MAX) :
    bufs.foldlM resolvRound rs =
      if (rs.dns4 ++ bufs.filterMap fun l => lineServer l.1).length ≤ NR_DNS4_MAX then
        .ok { rs with dns4 := rs.dns4 ++ bufs.filterMap fun l => lineServer l.1 }
      else .error ⟨-Errno.ENOSPC.code, { rs with
        dns4 := (rs.dns4 ++ bufs.filterMap fun l => lineServer l.1).take NR_DNS4_MAX }⟩ := by
  induction bufs generalizing rs with
  | nil =>
    rw [List.filterMap_nil, List.append_nil, if_pos hrs]
    rfl
  | cons l bufs ih =>
    rw [List.foldlM_cons, resolvRound, nameserver_eq_lineServer, List.filterMap_cons]
    cases h : lineServer l.1 with
    | none =>
      rw [tableAdd, ok_bind]
      exact ih rs hrs
    | some a =>
      by_cases hfull : rs.dns4.length ≥ NR_DNS4_MAX
      · -- the seventeenth name server: the table stays as it is
        have hlen : rs.dns4.length = NR_DNS4_MAX := le_antisymm hrs hfull
        rw [tableAdd, if_pos hfull, error_bind, if_neg (by simp [hlen]),
          List.take_left' hlen]
      · have hroom : (rs.dns4 ++ [a]).length ≤ NR_DNS4_MAX := by
          rw [List.length_append, List.length_singleton]
          omega
        rw [tableAdd, if_neg hfull, ok_bind, ih { rs with dns4 := rs.dns4 ++ [a] } hroom]
        simp only [List.append_assoc, List.singleton_append]

/-- The name servers the loader meets: those of the pieces of the lines. -/
def metServers (lines : List CStr) : List UInt32 :=
  lines.flatMap fun l => (chunks 255 l).filterMap lineServer

/-- **What the loader stores and returns.** -/
theorem rsLoadResolvConf_eq (rs : RealState) {text : CStr} (hn : '\x00' ∉ text) :
    rsLoadResolvConf rs (some text) =
      if (metServers (text.splitOn '\n')).length ≤ NR_DNS4_MAX then
        (0, { rs with dns4 := metServers (text.splitOn '\n') })
      else (-(Errno.ENOSPC.code : Int),
        { rs with dns4 := (metServers (text.splitOn '\n')).take NR_DNS4_MAX }) := by
  have hmet : (fgetsAll 256 text).filterMap (fun l => lineServer l.1) =
      metServers (text.splitOn '\n') :=
    filterMap_fgetsAll (by decide) hn lineServer_nil lineServer_newline
  rw [rsLoadResolvConf]
  simp only [foldlM_resolvRound _ { rs with dns4 := [] } (Nat.zero_le _), List.nil_append, hmet]
  by_cases hlen : (metServers (text.splitOn '\n')).length ≤ NR_DNS4_MAX
  · simp only [if_pos hlen]
  · simp only [if_neg hlen]

/-- The loader stores a list that fits exactly if it is the list it meets. -/
theorem rsLoadResolvConf_eq_iff (rs : RealState) {text : CStr} {servers : List UInt32}
    (hn : '\x00' ∉ text) (hlen : servers.length ≤ NR_DNS4_MAX) :
    rsLoadResolvConf rs (some text) = (0, { rs with dns4 := servers }) ↔
      metServers (text.splitOn '\n') = servers := by
  rw [rsLoadResolvConf_eq rs hn]
  split_ifs with hmet
  · simp
  · -- too many were met: the code is an error, and the lists differ in length
    refine iff_of_false ?_ (by rintro rfl; exact hmet hlen)
    intro h
    have hrc : (-28 : Int) = 0 := congrArg Prod.fst h
    omega

/-! ## Lines that are not broken -/

/-- The pieces of a line give the name server of the line, and no other. -/
def Unbroken (l : CStr) : Prop := (chunks 255 l).filterMap lineServer = (lineServer l).toList

instance (l : CStr) : Decidable (Unbroken l) :=
  inferInstanceAs (Decidable ((chunks 255 l).filterMap lineServer = (lineServer l).toList))

/-- A line that fits the buffer is not broken. -/
theorem unbroken_of_length_le {l : CStr} (h : l.length ≤ 255) : Unbroken l := by
  by_cases hl : l = []
  · subst hl
    rw [Unbroken, chunks_nil (by decide), List.filterMap_nil, lineServer_nil, Option.toList_none]
  · rw [Unbroken, chunks_of_length_le hl h, filterMap_singleton]

/-- The text cut behind its first `k` lines. -/
def firstLines (k : Nat) (text : CStr) : CStr := ['\n'].intercalate ((text.splitOn '\n').take k)

/-- The name servers of a text, line by line. -/
def servers (text : CStr) : List UInt32 := (text.splitOn '\n').filterMap lineServer

/-- Cutting a text behind a line cuts its list of lines; without a line, an empty one is left. -/
theorem splitOn_firstLines (k : Nat) (text : CStr) :
    (firstLines k text).splitOn '\n' = (text.splitOn '\n').take k ∨
      (text.splitOn '\n').take k = [] ∧ (firstLines k text).splitOn '\n' = [[]] := by
  by_cases hne : (text.splitOn '\n').take k = []
  · exact .inr ⟨hne, by rw [firstLines, hne]; rfl⟩
  · exact .inl (List.splitOn_intercalate '\n'
      (fun l hl => notMem_of_mem_splitOn (List.mem_of_mem_take hl)) hne)

theorem servers_firstLines (k : Nat) (text : CStr) :
    servers (firstLines k text) = ((text.splitOn '\n').take k).filterMap lineServer := by
  obtain h | ⟨hnil, h⟩ := splitOn_firstLines k text
  · rw [servers, h]
  · rw [servers, h, hnil]
    rfl

theorem metServers_firstLines (k : Nat) (text : CStr) :
    metServers ((firstLines k text).splitOn '\n') = metServers ((text.splitOn '\n').take k) := by
  obtain h | ⟨hnil, h⟩ := splitOn_firstLines k text
  · rw [h]
  · rw [h, hnil]
    rfl

theorem nul_notMem_firstLines {k : Nat} {text : CStr} (hn : '\x00' ∉ text) :
    '\x00' ∉ firstLines k text := by
  intro h
  obtain ⟨l, hl, hc⟩ : ∃ l ∈ (firstLines k text).splitOn '\n', '\x00' ∈ l :=
    @exists_mem_splitOnP _ (· == '\n') _ _ h (by decide)
  obtain hs | ⟨-, hs⟩ := splitOn_firstLines k text
  · have hl' : l ∈ (text.splitOn '\n').take k := hs ▸ hl
    exact hn (mem_of_mem_splitOnP (List.mem_of_mem_take hl') _ hc).1
  · have hl' : l ∈ [[]] := hs ▸ hl
    obtain rfl := List.mem_singleton.mp hl'
    cases hc

/-- Two ways to read lines agree on all first lines exactly if they agree on every line. -/
theorem flatMap_take_eq_iff {α β : Type} {f g : α → List β} {ls : List α} :
    (∀ k, (ls.take k).flatMap f = (ls.take k).flatMap g) ↔ ∀ l ∈ ls, f l = g l := by
  constructor
  · intro h l hl
    -- a line gives what the lines up to it give beyond those before it
    obtain ⟨i, hi, rfl⟩ := List.getElem_of_mem hl
    have hsucc := h (i + 1)
    rw [List.take_succ_eq_append_getElem hi, List.flatMap_append, List.flatMap_append, h i,
      List.append_cancel_left_eq, List.flatMap_singleton, List.flatMap_singleton] at hsucc
    exact hsucc
  · exact fun h k => List.flatMap_congr fun l hl => h l (List.mem_of_mem_take hl)

/-- **The texts that are read line by line**: on every number of first lines the loader stores the
name servers of these lines, in order, exactly if no line is broken; so it does if every line has at
most 255 bytes. -/
theorem rsLoadResolvConf_lines_iff (rs : RealState) (text : CStr) (hn : '\x00' ∉ text)
    (hmax : (servers text).length ≤ NR_DNS4_MAX) :
    ((∀ k, rsLoadResolvConf rs (some (firstLines k text)) =
      (0, { rs with dns4 := servers (firstLines k text) })) ↔
      ∀ l ∈ text.splitOn '\n', Unbroken l) ∧
    ((∀ l ∈ text.splitOn '\n', l.length ≤ 255) →
      ∀ k, rsLoadResolvConf rs (some (firstLines k text)) =
        (0, { rs with dns4 := servers (firstLines k text) })) := by
  have hfit : ∀ k, (servers (firstLines k text)).length ≤ NR_DNS4_MAX := fun k => by
    rw [servers_firstLines]
    exact (((List.take_sublist k _).filterMap lineServer).length_le).trans hmax
  -- what is loaded from first lines is compared with them as lists over the same lines
  have hstep : ∀ k, rsLoadResolvConf rs (some (firstLines k text)) =
      (0, { rs with dns4 := servers (firstLines k text) }) ↔
      ((text.splitOn '\n').take k).flatMap (fun l => (chunks 255 l).filterMap lineServer) =
        ((text.splitOn '\n').take k).flatMap fun l => (lineServer l).toList := fun k => by
    rw [rsLoadResolvConf_eq_iff rs (nul_notMem_firstLines hn) (hfit k), metServers_firstLines,
      servers_firstLines, metServers, List.filterMap_eq_flatMap_toList]
  have hiff := (forall_congr' hstep).trans flatMap_take_eq_iff
  exact ⟨hiff, fun hshort => hiff.mpr fun l hl => unbroken_of_length_le (hshort l hl)⟩

/-- A file with a comment, a name server and a search list. -/
def resolvText : CStr := unlines ["# wan", "nameserver 10.0.0.1", "search lan"]

theorem resolvText_lines :
    '\x00' ∉ resolvText ∧ servers resolvText = [0x0a000001] ∧
      ∀ k, rsLoadResolvConf .zero (some (firstLines k resolvText)) =
        (0, { RealState.zero with dns4 := servers (firstLines k resolvText) }) := by
  have hn : '\x00' ∉ resolvText := by decide
  have hservers : servers resolvText = [0x0a000001] := by decide
  have hshort : (resolvText.splitOn '\n').all fun l => l.length ≤ 255 := by decide
  have hmax : (servers resolvText).length ≤ NR_DNS4_MAX := by simp [hservers]
  refine ⟨hn, hservers, (rsLoadResolvConf_lines_iff .zero resolvText hn hmax).2 ?_⟩
  exact fun l hl => of_decide_eq_true (List.all_eq_true.mp hshort l hl)

/-- A comment line whose text from byte 256 on looks like a name server. -/
def longComment : CStr := List.replicate 255 '#' ++ "nameserver 10.0.0.1\n".toList

/-- The loader takes an address from inside a comment. -/
theorem longComment_loaded :
    '\x00' ∉ longComment ∧ longComment.countP (· = '\n') = 1 ∧ servers longComment = [] ∧
      rsLoadResolvConf .zero (some longComment) =
        (0, { RealState.zero with dns4 := [0x0a000001] }) := by
  decide +kernel

end Netrec
