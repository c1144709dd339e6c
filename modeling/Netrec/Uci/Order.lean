import Netrec.Uci.Entries

/-!
# The order of the lines of a dump

The builder sees a table in two ways: it walks over its section types in their order, and it looks
up options by name, where the last value wins. Two tables that look the same in both ways give the
same desired states. A dump whose lines are moved, with the section types and the values of each
option in the order they had, is read into such a table.

## Main definitions

* `SameView`: two tables the builder cannot tell apart
* `LineReorder`, `UciSource.Reordered`: lines that are moved

## Main results

* `buildSet_congr`: tables with the same view give the same states
* `uciBuildDesiredSet_reordered`: the order of options does not matter
-/

namespace Netrec

open CLib

/-! ## Tables that look the same -/

/-- Two tables that the builder cannot tell apart: the section types are the same, in the same
order, and so are the values of all options. -/
structure SameView (db db' : UciDb) : Prop where
  types : db.val.filter UciItem.isType = db'.val.filter UciItem.isType
  get : dbGet db = dbGet db'

/-- The end of `uci_build_desired_set`, after the dumps are read. -/
def buildSet (net wifi : UciDb) : Except Errno DesiredSet := do
  let set ← net.val.foldlM (buildRound net wifi) .empty
  reject (set.val = []) .EINVAL
  return set

theorem uciBuildDesiredSet_eq (network wireless : UciSource) :
    uciBuildDesiredSet network wireless = (do
      let net ← network.load
      let wifi ← wireless.load
      buildSet net wifi) := rfl

/-- A search that stops at section types only looks at them. -/
theorem find?_types {db : UciDb} {p : UciItem → Bool} (hp : ∀ it, p it → it.isType) :
    db.val.find? p = (db.val.filter UciItem.isType).find? p := by
  rw [List.find?_filter]
  refine congrFun (congrArg List.find? (funext fun it => ?_)) _
  cases hit : p it with
  | false => simp
  | true => simp [hp it hit]

theorem filter_types {db : UciDb} {p : UciItem → Bool} (hp : ∀ it, p it → it.isType) :
    db.val.filter p = (db.val.filter UciItem.isType).filter p := by
  rw [List.filter_filter]
  refine congrFun (congrArg List.filter (funext fun it => ?_)) _
  cases hit : p it with
  | false => simp
  | true => simp [hp it hit]

theorem isType_of_isSect {pkg type : CStr} {it : UciItem} (h : it.isSect pkg type) : it.isType := by
  simp only [UciItem.isSect, Bool.and_eq_true] at h
  exact h.1.1

section Congr

variable {net net' wifi wifi' : UciDb}

theorem netGet_congr (h : SameView net net') : netGet net = netGet net' := by
  unfold netGet
  rw [h.get]

theorem findIfaceByDevice_congr (h : SameView net net') (brName : CStr) :
    findIfaceByDevice net brName = findIfaceByDevice net' brName := by
  have hp : ∀ (net : UciDb) (it : UciItem),
      (it.isSect "network".toList "interface".toList &&
        netGet net it.sect "device".toList = some brName &&
        (netGet net it.sect "proto".toList).any (· ≠ [])) → it.isType := by
    intro net it hit
    simp only [Bool.and_eq_true] at hit
    exact isType_of_isSect hit.1.1
  unfold findIfaceByDevice
  rw [find?_types (hp net), find?_types (hp net'), h.types, netGet_congr h]

theorem isWgPeerFor_congr (h : SameView net net') : isWgPeerFor net = isWgPeerFor net' := by
  unfold isWgPeerFor
  rw [netGet_congr h]

theorem isWgIface_congr (h : SameView net net') : isWgIface net = isWgIface net' := by
  unfold isWgIface
  rw [netGet_congr h]

theorem findWgForRemote_congr (h : SameView net net') (remote : CStr) :
    findWgForRemote net remote = findWgForRemote net' remote := by
  have hpeer : ∀ (net : UciDb) it, isWgPeerFor net remote it → it.isType := by
    intro net it hit
    simp only [isWgPeerFor, Bool.and_eq_true] at hit
    exact hit.1.1.1
  have hiface : ∀ (net : UciDb) it, isWgIface net it → it.isType := by
    intro net it hit
    simp only [isWgIface, Bool.and_eq_true] at hit
    exact isType_of_isSect hit.1
  unfold findWgForRemote
  rw [find?_types (hpeer net), find?_types (hpeer net'), filter_types (hiface net),
    filter_types (hiface net'), h.types, isWgPeerFor_congr h, isWgIface_congr h]

theorem addWirelessPorts_congr (h : SameView wifi wifi') (netName : CStr) (ds : DesiredState) :
    addWirelessPorts wifi netName ds = addWirelessPorts wifi' netName ds := by
  have hbody : addWirelessPort wifi = addWirelessPort wifi' := by
    unfold addWirelessPort
    rw [h.get]
  have hskip : ∀ wifi st it, it.isType = false → addWirelessPort wifi netName st it = .ok st := by
    intro wifi st it hit
    simp [addWirelessPort, UciItem.isSect, hit]
  unfold addWirelessPorts
  rw [← foldlM_filter (hskip wifi), ← foldlM_filter (hskip wifi'), h.types, hbody]

theorem fillBridgeProto_congr (h : SameView net net') : fillBridgeProto net = fillBridgeProto net' := by
  unfold fillBridgeProto fillBridgeStatic
  rw [netGet_congr h]

theorem vxlanSection_congr (h : SameView net net') : vxlanSection net = vxlanSection net' := by
  unfold vxlanSection
  rw [netGet_congr h]

theorem buildState_congr (hn : SameView net net') (hw : SameView wifi wifi') :
    buildState net wifi = buildState net' wifi' := by
  have hwifi : addWirelessPorts wifi = addWirelessPorts wifi' :=
    funext fun netName => funext fun ds => addWirelessPorts_congr hw netName ds
  have hwg : findWgForRemote net = findWgForRemote net' := funext (findWgForRemote_congr hn)
  unfold buildState buildUplinkBridge buildWgVxlanBridge
  rw [netGet_congr hn, fillBridgeProto_congr hn, vxlanSection_congr hn, hwifi, hwg]

theorem buildRound_congr (hn : SameView net net') (hw : SameView wifi wifi') :
    buildRound net wifi = buildRound net' wifi' := by
  have hiface : findIfaceByDevice net = findIfaceByDevice net' := funext (findIfaceByDevice_congr hn)
  unfold buildRound
  rw [netGet_congr hn, hiface, buildState_congr hn hw]

/-- **Tables with the same view give the same states.** -/
theorem buildSet_congr (hn : SameView net net') (hw : SameView wifi wifi') :
    buildSet net wifi = buildSet net' wifi' := by
  have hskip : ∀ net wifi set it, it.isType = false → buildRound net wifi set it = .ok set := by
    intro net wifi set it hit
    simp [buildRound, UciItem.isSect, hit]
  unfold buildSet
  rw [← foldlM_filter (hskip net wifi), ← foldlM_filter (hskip net' wifi'), hn.types,
    buildRound_congr hn hw]

end Congr

/-! ## Moving lines -/

/-- The entry of a line that has one. -/
def lineGives (l : CStr) : Option UciEntry :=
  match lineEntry l with
  | .ok o => o
  | .error _ => none

/-- The line of a section type. -/
def isTypeLine (l : CStr) : Bool := (lineGives l).any UciEntry.isType

/-- The line of an option. -/
def isOptLine (pkg sect opt : CStr) (l : CStr) : Bool :=
  (lineGives l).any (UciEntry.isOpt pkg sect opt)

/-- The lines are moved, with the section types in the order they had and the lines of each option
in the order they had. -/
structure LineReorder (ls ls' : List CStr) : Prop where
  perm : ls.Perm ls'
  types : ls.filter isTypeLine = ls'.filter isTypeLine
  opts : ∀ pkg sect opt, ls.filter (isOptLine pkg sect opt) = ls'.filter (isOptLine pkg sect opt)

theorem LineReorder.symm {ls ls' : List CStr} (h : LineReorder ls ls') : LineReorder ls' ls :=
  ⟨h.perm.symm, h.types.symm, fun pkg sect opt => (h.opts pkg sect opt).symm⟩

theorem LineReorder.refl (ls : List CStr) : LineReorder ls ls := ⟨.refl ls, rfl, fun _ _ _ => rfl⟩

/-- Two neighbouring lines are swapped, of which one is an option and the other one something
else. -/
theorem LineReorder.swap {a b : CStr} {e : UciEntry} (ha : lineGives a = some e)
    (htype : e.isType = false) (hb : isOptLine e.pkg e.sect e.opt b = false)
    (ls ls' : List CStr) : LineReorder (ls ++ a :: b :: ls') (ls ++ b :: a :: ls') := by
  have key : ∀ p : CStr → Bool, ¬ (p a ∧ p b) →
      (ls ++ a :: b :: ls').filter p = (ls ++ b :: a :: ls').filter p := by
    intro p hp
    cases hpa : p a <;> cases hpb : p b <;> simp_all
  refine ⟨(List.Perm.swap b a ls').append_left ls, key _ ?_, fun pkg sect opt => key _ ?_⟩
  · rintro ⟨hta, -⟩
    simp [isTypeLine, ha, htype] at hta
  · rintro ⟨hka, hkb⟩
    -- both would give the option that `a` gives
    simp only [isOptLine, ha, Option.any_some, UciEntry.isOpt, Bool.and_eq_true,
      decide_eq_true_eq] at hka
    obtain ⟨⟨⟨-, rfl⟩, rfl⟩, rfl⟩ := hka
    rw [hb] at hkb
    cases hkb

/-- A dump with its lines moved: a file, where a line ends at `\n`, or the output of the command,
where it also ends at `\r`. -/
inductive UciSource.Reordered : UciSource → UciSource → Prop
  | file {t t' : CStr} (hn : '\x00' ∉ t) (hn' : '\x00' ∉ t')
      (h : LineReorder (t.splitOn '\n') (t'.splitOn '\n')) :
      Reordered (.file (.ok t)) (.file (.ok t'))
  | live {t t' : CStr} (hn : '\x00' ∉ t) (hn' : '\x00' ∉ t') (h : LineReorder (pieces t) (pieces t')) :
      Reordered (.live (.ok t)) (.live (.ok t'))

theorem UciSource.Reordered.symm {src src' : UciSource} (h : src.Reordered src') :
    src'.Reordered src := by
  cases h with
  | file hn hn' h => exact .file hn' hn h.symm
  | live hn hn' h => exact .live hn' hn h.symm

/-- The entries that lines give, in a reader that may refuse a line. -/
theorem mapM_lineEntry {g : CStr → Except Errno (Option UciEntry)}
    (hg : ∀ l o, g l = .ok o → lineEntry l = .ok o) {ls : List CStr} {os : List (Option UciEntry)}
    (h : ls.mapM g = .ok os) : os.reduceOption = ls.filterMap lineGives := by
  have hall := mapM_eq_ok.mp h
  induction hall with
  | nil => rfl
  | @cons l o ls os hl hrest ih =>
    have hgives : lineGives l = o := by simp [lineGives, hg l o hl]
    have ih := ih (mapM_eq_ok.mpr hrest)
    cases o with
    | none => rw [List.reduceOption_cons_of_none, List.filterMap_cons_none hgives, ih]
    | some e => rw [List.reduceOption_cons_of_some, List.filterMap_cons_some hgives, ih]

theorem filter_filterMap_lineGives (p : UciEntry → Bool) (ls : List CStr) :
    (ls.filterMap lineGives).filter p =
      (ls.filter fun l => (lineGives l).any p).filterMap lineGives := by
  induction ls with
  | nil => rfl
  | cons l ls ih =>
    cases hl : lineGives l with
    | none => simp [List.filterMap_cons_none hl, hl, ih]
    | some e => by_cases hp : p e <;> simp [hl, hp, ih]

/-- Entries in an order that keeps section types and the values of each option are stored in a
table with the same view. -/
theorem sameView_of_filter {db db' : UciDb} {es es' : List UciEntry}
    (hdb : db.val = es.map UciEntry.item) (hdb' : db'.val = es'.map UciEntry.item)
    (hok : ∀ e ∈ es, e.Ok) (hok' : ∀ e ∈ es', e.Ok)
    (htypes : es.filter UciEntry.isType = es'.filter UciEntry.isType)
    (hopts : ∀ pkg sect opt,
      es.filter (UciEntry.isOpt pkg sect opt) = es'.filter (UciEntry.isOpt pkg sect opt)) :
    SameView db db' := by
  refine ⟨?_, ?_⟩
  · have key : ∀ es : List UciEntry, (es.map UciEntry.item).filter UciItem.isType =
        (es.filter UciEntry.isType).map UciEntry.item := fun es => List.filter_map ..
    rw [hdb, hdb', key, key, htypes]
  · funext pkg sect opt
    -- a lookup sees the last of the values that the option is given
    have key : ∀ d : UciDump, d.whole pkg sect opt =
        (d.entries.filter (UciEntry.isOpt pkg sect opt)).getLast?.map UciEntry.val := by
      intro d
      rw [DumpData.whole, ← List.head?_filter, List.filter_reverse, List.head?_reverse]
    rw [UciDump.get_eq ⟨⟨db, es⟩, hdb, hok⟩, UciDump.get_eq ⟨⟨db', es'⟩, hdb', hok'⟩, key, key,
      hopts]

/-- A loop over lines that are moved reads a table with the same view. -/
theorem foldlM_reorder {f : UciDb → CStr → Except Errno UciDb}
    {g : CStr → Except Errno (Option UciEntry)} (hf : ∀ db l, f db l = g l >>= addEntry db)
    (hg : ∀ l o, g l = .ok o → lineEntry l = .ok o) {ls ls' : List CStr} (h : LineReorder ls ls')
    (hn : ∀ l ∈ ls, '\x00' ∉ l) {db : UciDb} (hload : ls.foldlM f .empty = .ok db) :
    ∃ db', ls'.foldlM f .empty = .ok db' ∧ SameView db db' := by
  obtain ⟨os, hos, hlen, hdb⟩ := (foldlM_addEntry hf).mp hload
  have hes := mapM_lineEntry hg hos
  -- every line is read in the new order as well
  obtain ⟨os', hos'⟩ : ∃ os', ls'.mapM g = .ok os' := by
    have hall := mapM_eq_ok.mp hos
    have heach : ∀ l ∈ ls', ∃ o, g l = .ok o := fun l hl =>
      let ⟨o, _, ho⟩ := exists_of_forall₂ hall (h.perm.mem_iff.mpr hl)
      ⟨o, ho⟩
    clear h
    induction ls' with
    | nil => exact ⟨[], rfl⟩
    | cons l ls' ih =>
      obtain ⟨o, ho⟩ := heach l List.mem_cons_self
      obtain ⟨os', hos'⟩ := ih fun l hl => heach l (List.mem_cons_of_mem _ hl)
      exact ⟨o :: os', by simp [ho, hos']⟩
  have hes' := mapM_lineEntry hg hos'
  have hperm : os.reduceOption.Perm os'.reduceOption := by
    rw [hes, hes']
    exact h.perm.filterMap _
  have hroom : os'.reduceOption.length ≤ NR_UCI_ITEM_MAX := by
    simpa [hperm.length_eq] using hlen
  refine ⟨⟨os'.reduceOption.map UciEntry.item, by simpa using hroom⟩,
    (foldlM_addEntry hf).mpr ⟨os', hos', by simpa using hroom, by simp⟩, ?_⟩
  have hok : ∀ ls : List CStr, (∀ l ∈ ls, '\x00' ∉ l) → ∀ e ∈ ls.filterMap lineGives, e.Ok := by
    intro ls hn e he
    obtain ⟨l, hl, hle⟩ := List.mem_filterMap.mp he
    refine lineEntry_ok ?_ (hn l hl)
    unfold lineGives at hle
    cases hline : lineEntry l with
    | error _ => simp [hline] at hle
    | ok o => simpa [hline] using hle
  refine sameView_of_filter (by simpa using hdb) rfl (hes ▸ hok ls hn)
    (hes' ▸ hok ls' fun l hl => hn l (h.perm.mem_iff.mpr hl)) ?_ fun pkg sect opt => ?_
  · rw [hes, hes', filter_filterMap_lineGives, filter_filterMap_lineGives]
    exact congrArg _ h.types
  · rw [hes, hes', filter_filterMap_lineGives, filter_filterMap_lineGives]
    exact congrArg _ (h.opts pkg sect opt)

theorem UciSource.Reordered.load {src src' : UciSource} (h : src.Reordered src') {db : UciDb}
    (hload : src.load = .ok db) : ∃ db', src'.load = .ok db' ∧ SameView db db' := by
  cases h with
  | @file t t' hn hn' h =>
    have hfile : ∀ db l, fileLine db l =
        (if l.length ≥ 1023 then .error .E2BIG else lineEntry l) >>= addEntry db := by
      intro db l
      unfold fileLine
      split_ifs
      · rfl
      · exact dbLoadLine_eq_addEntry db l
    have hg : ∀ (l : CStr) (o : Option UciEntry),
        (if l.length ≥ 1023 then .error .E2BIG else lineEntry l) = .ok o → lineEntry l = .ok o := by
      intro l o hl
      split_ifs at hl
      exact hl
    simp only [UciSource.load, ok_bind, dbLoadFile_eq hn, dbLoadFile_eq hn'] at hload ⊢
    exact foldlM_reorder hfile hg h (fun l hl hc => hn (mem_of_mem_splitOnP hl _ hc).1) hload
  | @live t t' hn hn' h =>
    have hg : ∀ l o, bufEntry l = .ok o → lineEntry l = .ok o := by
      intro l o hl
      unfold bufEntry at hl
      split_ifs at hl
      exact hl
    simp only [UciSource.load, ok_bind, dbLoadBuf_eq_pieces hn, dbLoadBuf_eq_pieces hn'] at hload ⊢
    refine foldlM_reorder bufLine_eq hg h (fun l hl hc => hn ?_) hload
    rw [← splitOnP_isEol] at hl
    exact (mem_of_mem_splitOnP hl _ hc).1

/-- **The order of options does not matter.** Dumps whose lines are moved build exactly the same
sets of states. -/
theorem uciBuildDesiredSet_reordered {network network' wireless wireless' : UciSource}
    (hn : network.Reordered network') (hw : wireless.Reordered wireless') (set : DesiredSet) :
    uciBuildDesiredSet network wireless = .ok set ↔
      uciBuildDesiredSet network' wireless' = .ok set := by
  have key : ∀ {network network' wireless wireless' : UciSource}, network.Reordered network' →
      wireless.Reordered wireless' → uciBuildDesiredSet network wireless = .ok set →
      uciBuildDesiredSet network' wireless' = .ok set := by
    intro network network' wireless wireless' hn hw h
    simp only [uciBuildDesiredSet_eq, bind_eq_ok] at h ⊢
    obtain ⟨net, hnet, wifi, hwifi, h⟩ := h
    obtain ⟨net', hnet', hvn⟩ := hn.load hnet
    obtain ⟨wifi', hwifi', hvw⟩ := hw.load hwifi
    exact ⟨net', hnet', wifi', hwifi', buildSet_congr hvn hvw ▸ h⟩
  exact ⟨key hn hw, key hn.symm hw.symm⟩

/-- A bridge with a DHCP client. -/
def dhcpDump : CStr := unlines [
  "network.lan=interface", "network.lan.device='br-lan'", "network.lan.proto='dhcp'",
  "network.d1=device", "network.d1.type='bridge'", "network.d1.name='br-lan'",
  "network.d1.ports='eth0'"]

/-- The same dump with the name of the bridge last. -/
def dhcpDumpMoved : CStr := unlines [
  "network.lan=interface", "network.lan.device='br-lan'", "network.lan.proto='dhcp'",
  "network.d1=device", "network.d1.type='bridge'", "network.d1.ports='eth0'",
  "network.d1.name='br-lan'"]

theorem dhcpDumpMoved_built : ∃ set,
    uciBuildDesiredSet (.file (.ok dhcpDump)) (.file (.ok [])) = .ok set ∧
      uciBuildDesiredSet (.file (.ok dhcpDumpMoved)) (.file (.ok [])) = .ok set := by
  obtain ⟨set, hset⟩ : ∃ set, uciBuildDesiredSet (.file (.ok dhcpDump)) (.file (.ok [])) = .ok set :=
    exists_eq_ok (by decide +kernel)
  have hlines : LineReorder (dhcpDump.splitOn '\n') (dhcpDumpMoved.splitOn '\n') := by
    have h := @LineReorder.swap "network.d1.name='br-lan'".toList "network.d1.ports='eth0'".toList
      ⟨"network".toList, "d1".toList, "name".toList, "br-lan".toList, false⟩ (by decide +kernel) rfl
      (by decide +kernel) ((dhcpDump.splitOn '\n').take 5) [[]]
    have he : dhcpDump.splitOn '\n' = (dhcpDump.splitOn '\n').take 5 ++
        ["network.d1.name='br-lan'".toList, "network.d1.ports='eth0'".toList, []] := by
      decide +kernel
    have he' : dhcpDumpMoved.splitOn '\n' = (dhcpDump.splitOn '\n').take 5 ++
        ["network.d1.ports='eth0'".toList, "network.d1.name='br-lan'".toList, []] := by
      decide +kernel
    rw [he, he']
    exact h
  have hmoved := (uciBuildDesiredSet_reordered (.file (by decide +kernel) (by decide +kernel) hlines)
    (.file (by simp) (by simp) (.refl _)) set).mp hset
  exact ⟨set, hset, hmoved⟩

end Netrec
