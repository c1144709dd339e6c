import Netrec.Cfg.RoundTrip
import Netrec.Uci.Build

/-!
# Writing desired states

The UCI path writes the states it has built as a configuration file, one line for each field that
is set, and loads that file. Each state is written below `state.<id>`, where the id is its bridge
name with every byte that cannot stand in a key replaced by an underscore. The lines of a state are
the assignments of a tree, `stateNode`, whose sections are tables of named fields.

## Main definitions

* `cfgStateId`, `stateIds`: the id of a state, and the ids of a set
* `idName`: the key a bridge name is turned into
* `cfgState`, `cfgSet`: the text of a state and of a set
* `uciLoadDesiredSet`: building, writing and loading
* `Fields`, `ofFields`: a section as a table of its fields
* `stateNode`: the tree of a state

## Main results

* `stateLines_eq`: the lines of a state are the assignments of its tree
* `cfgSet_eq_ok`: the text of a set is made of the assignments of its states
* `isKey_cfgStateId`, `cfgStateId_eq_ok`: an id is a key, and made from the bridge name
-/

namespace Netrec

open CLib

/-! ## The text -/

/-- The value of a line: of `cfg_line_str` or of `cfg_line_u32`. -/
inductive LineVal
  | str (s : CStr)
  | u32 (n : UInt32)

/-- `cfg_line_str` and `cfg_line_u32`; `cfg_quote` writes what `quote` writes. -/
def cfgLine (path : CStr) : LineVal → CStr
  | .str s => sprintf "%s = ".toList [path] ++ quote s ++ ['\n']
  | .u32 n => sprintf "%s = \"%u\"\n".toList [path, dec n.toNat]

/-- `cfg_path` into a `char[256]`. -/
def cfgPath (id tail : CStr) : Except Errno CStr :=
  let path := sprintf "state.%s.%s".toList [id, tail]
  if path.length ≥ 256 then .error .E2BIG else .ok path

/-- The loop of `cfg_state_id`: `dst` is what has been written, `src` what is left to read. -/
def cfgStateIdLoop (sz : Nat) (dst : CStr) : CStr → Except Errno CStr
  | [] => .ok dst
  | c :: src =>
    if dst.length + 1 < sz then
      if dst = [] then
        if isKeyStart c then cfgStateIdLoop sz [c] src
        else if isDigit c then
          if 1 + 1 ≥ sz then .error .E2BIG else cfgStateIdLoop sz ['_', c] src
        else cfgStateIdLoop sz ['_'] src
      else if isKeyChar c then cfgStateIdLoop sz (dst ++ [c]) src
      else cfgStateIdLoop sz (dst ++ ['_']) src
    else .error .E2BIG

/-- `cfg_state_id` into a `char[IFNAMSIZ]`. -/
def cfgStateId (ds : DesiredState) (idx : Nat) : Except Errno CStr := do
  let src := if ds.brName.val ≠ [] then ds.brName.val else ds.scenario.val
  let dst ← cfgStateIdLoop IFNAMSIZ [] src
  if dst = [] then
    let id := sprintf "s%d".toList [dec idx]
    if id.length ≥ IFNAMSIZ then .error .E2BIG else .ok id
  else .ok dst

/-- The ids of a set. -/
def stateIds (set : DesiredSet) : List (Except Errno CStr) :=
  set.val.zipIdx.map fun p => cfgStateId p.1 p.2

/-- The tail of the path of a line, and its value. -/
abbrev CfgLine := CStr × LineVal

/-- The address lines of `cfg_state`, by mode. -/
def cfgAddr (ds : DesiredState) : List CfgLine :=
  match ds.brAddrMode with
  | .static =>
    [("bridge.addr_mode".toList, .str "static".toList), ("bridge.addr".toList, .str ds.brAddr)] ++
      (if ds.brGateway.val ≠ [] then [("bridge.gateway".toList, .str ds.brGateway)] else []) ++
      ds.brDns.val.map fun dns => ("bridge.dns[]".toList, .str dns)
  | .dhcp =>
    [("bridge.addr_mode".toList, .str "dhcp".toList),
      ("bridge.dhcp_cmd".toList, .str ds.brDhcpCmd)]
  | .none => [("bridge.addr_mode".toList, .str "none".toList)]

/-- The bridge lines of `cfg_state`. -/
def cfgBridge (ds : DesiredState) : List CfgLine :=
  if ds.brName.val ≠ [] then
    ("bridge.name".toList, .str ds.brName) :: (cfgAddr ds ++
      ds.brPorts.val.map fun port => ("bridge.ports[]".toList, .str port))
  else []

/-- The uplink line of `cfg_state`. -/
def cfgUplink (ds : DesiredState) : List CfgLine :=
  if ds.upIfname.val ≠ [] then [("uplink.ifname".toList, .str ds.upIfname)] else []

/-- The VLAN lines of `cfg_state`. -/
def cfgVlan (ds : DesiredState) : List CfgLine :=
  if ds.vlanIfname.val ≠ [] then
    [("vlan.ifname".toList, .str ds.vlanIfname), ("vlan.id".toList, .u32 ds.vlanId)] ++
      (if ds.vlanLink.val ≠ [] then [("vlan.link".toList, .str ds.vlanLink)] else []) ++
      (if ds.vlanBridge.val ≠ [] then [("vlan.bridge".toList, .str ds.vlanBridge)] else [])
  else []

/-- The WireGuard lines of `cfg_state`. -/
def cfgWg (ds : DesiredState) : List CfgLine :=
  if ds.wgIfname.val ≠ [] then
    [("wg.ifname".toList, .str ds.wgIfname), ("wg.peer_ip".toList, .str ds.wgPeerIp),
      ("wg.route_dev".toList, .str ds.wgRouteDev)]
  else []

/-- The VXLAN lines of `cfg_state`. -/
def cfgVxlan (ds : DesiredState) : List CfgLine :=
  if ds.vxIfname.val ≠ [] then
    [("vxlan.ifname".toList, .str ds.vxIfname), ("vxlan.vni".toList, .u32 ds.vxVni),
      ("vxlan.remote".toList, .str ds.vxRemote)] ++
      (if ds.vxDev.val ≠ [] then [("vxlan.dev".toList, .str ds.vxDev)] else []) ++
      [("vxlan.bridge".toList, .str ds.vxBridge)]
  else []

/-- The tail of a route line, in a `char[64]`. -/
def routePath (fmt : CStr) (i : Nat) : Except Errno CStr :=
  let path := sprintf fmt [dec i]
  if path.length ≥ 64 then .error .E2BIG else .ok path

/-- The lines of one route of `cfg_state`. -/
def cfgRoute (rt : DesiredRoute4) (i : Nat) : Except Errno (List CfgLine) := do
  let dst ← routePath "routes.r%d.dst".toList i
  let dev ← routePath "routes.r%d.dev".toList i
  if rt.hasVia then
    let via ← routePath "routes.r%d.via".toList i
    return [(dst, .str rt.dst), (dev, .str rt.dev), (via, .str rt.via)]
  else return [(dst, .str rt.dst), (dev, .str rt.dev)]

/-- The lines of a state. -/
def stateLines (ds : DesiredState) : Except Errno (List CfgLine) := do
  let routes ← ds.routes.val.zipIdx.mapM fun p => cfgRoute p.1 p.2
  return ("scenario".toList, .str ds.scenario) :: (cfgBridge ds ++ cfgUplink ds ++ cfgVlan ds ++
    cfgWg ds ++ cfgVxlan ds ++ routes.flatten)

/-- `cfg_state`: the text it writes. -/
def cfgState (ds : DesiredState) (idx : Nat) : Except Errno CStr := do
  let id ← cfgStateId ds idx
  let lines ← stateLines ds
  let texts ← lines.mapM fun l => do
    let path ← cfgPath id l.1
    return cfgLine path l.2
  return texts.flatten

/-- `cfg_set`: the text it writes. -/
def cfgSet (set : DesiredSet) : Except Errno CStr := do
  let texts ← set.val.zipIdx.mapM fun p => cfgState p.1 p.2
  return texts.flatten

/-- `uci_load_desired_set`, the temporary file being written and read back without fault. -/
def uciLoadDesiredSet (network wireless : UciSource) : Except Errno DesiredSet := do
  let set ← uciBuildDesiredSet network wireless
  let text ← cfgSet set
  yamlLoadDesiredSet text

/-! ## Sections as tables of fields -/

/-- A section: its keys in order, each with its node when the field is set. -/
abbrev Fields := List (CStr × Option CfgNode)

/-- The chain of a section, its nodes named by their keys. -/
def ofFields (fs : Fields) : List CfgNode :=
  fs.filterMap fun f => f.2.map fun c => { c with name := some f.1 }

/-- A string. -/
def strNode (v : CStr) : CfgNode := ⟨.str, none, some v, []⟩

/-- A string that is written when it is not empty. -/
def optNode (v : CStr) : Option CfgNode := if v ≠ [] then some (strNode v) else none

/-- An array that is written when it is not empty. -/
def arrNode (vs : List CStr) : Option CfgNode :=
  if vs ≠ [] then some ⟨.arr, none, none, vs.map strNode⟩ else none

/-- A section. -/
def secNode (fs : Fields) : CfgNode := ⟨.obj, none, none, ofFields fs⟩

/-- The assignments of a field. -/
def fieldAssigns (f : CStr × Option CfgNode) : List Assign :=
  match f.2 with
  | none => []
  | some c => (assigns c).map (under f.1)

theorem assigns_name (c : CfgNode) (name : Option CStr) :
    assigns { c with name := name } = assigns c := by
  obtain ⟨_ | _ | _, _, _, _⟩ := c <;> rfl

theorem assignsAll_ofFields (fs : Fields) : assignsAll (ofFields fs) = fs.flatMap fieldAssigns := by
  induction fs with
  | nil => rfl
  | cons f fs ih =>
    obtain ⟨k, _ | c⟩ := f
    · exact ih
    · have hcons : ofFields ((k, some c) :: fs) = { c with name := some k } :: ofFields fs := rfl
      rw [hcons, assignsAll, ih, assigns_name, Option.getD_some]
      rfl

theorem assigns_secNode (fs : Fields) : assigns (secNode fs) = fs.flatMap fieldAssigns :=
  assignsAll_ofFields fs

theorem fieldAssigns_arrNode (k : CStr) (vs : List CStr) :
    fieldAssigns (k, arrNode vs) = vs.map fun v => ([.key k, .append], v) := by
  unfold arrNode
  split
  · simp [fieldAssigns, assigns, strNode, under, Function.comp_def]
  · rename_i h
    rw [not_not.mp h]
    rfl

/-! ## The tree of a state -/

/-- The name of an address mode. -/
def AddrMode.name : AddrMode → CStr
  | .none => "none".toList
  | .static => "static".toList
  | .dhcp => "dhcp".toList

/-- The bridge section. -/
def bridgeFields (ds : DesiredState) : Fields :=
  [("name".toList, some (strNode ds.brName)),
    ("addr_mode".toList, some (strNode ds.brAddrMode.name)),
    ("dhcp_cmd".toList, if ds.brAddrMode = .dhcp then some (strNode ds.brDhcpCmd) else none),
    ("addr".toList, if ds.brAddrMode = .static then some (strNode ds.brAddr) else none),
    ("gateway".toList, if ds.brAddrMode = .static then optNode ds.brGateway else none),
    ("dns".toList, if ds.brAddrMode = .static then arrNode (ds.brDns.val.map CBuf.val) else none),
    ("ports".toList, arrNode (ds.brPorts.val.map CBuf.val))]

/-- The uplink section. -/
def uplinkFields (ds : DesiredState) : Fields :=
  [("ifname".toList, some (strNode ds.upIfname))]

/-- The VLAN section. -/
def vlanFields (ds : DesiredState) : Fields :=
  [("ifname".toList, some (strNode ds.vlanIfname)),
    ("id".toList, some (strNode (dec ds.vlanId.toNat))),
    ("link".toList, optNode ds.vlanLink),
    ("bridge".toList, optNode ds.vlanBridge)]

/-- The WireGuard section. -/
def wgFields (ds : DesiredState) : Fields :=
  [("ifname".toList, some (strNode ds.wgIfname)),
    ("peer_ip".toList, some (strNode ds.wgPeerIp)),
    ("route_dev".toList, some (strNode ds.wgRouteDev))]

/-- The VXLAN section. -/
def vxlanFields (ds : DesiredState) : Fields :=
  [("ifname".toList, some (strNode ds.vxIfname)),
    ("vni".toList, some (strNode (dec ds.vxVni.toNat))),
    ("remote".toList, some (strNode ds.vxRemote)),
    ("dev".toList, optNode ds.vxDev),
    ("bridge".toList, some (strNode ds.vxBridge))]

/-- The section of one route. -/
def routeFields (rt : DesiredRoute4) : Fields :=
  [("dst".toList, some (strNode rt.dst)),
    ("dev".toList, some (strNode rt.dev)),
    ("via".toList, if rt.hasVia then some (strNode rt.via) else none)]

/-- The section of the routes, numbered from `i`. -/
def routesFields (rts : List DesiredRoute4) (i : Nat) : Fields :=
  (rts.zipIdx i).map fun p => ('r' :: dec p.2, some (secNode (routeFields p.1)))

/-- The sections of a state; each is written when its name is set. -/
def stateFields (ds : DesiredState) : Fields :=
  [("scenario".toList, some (strNode ds.scenario)),
    ("bridge".toList, if ds.brName.val ≠ [] then some (secNode (bridgeFields ds)) else none),
    ("uplink".toList, if ds.upIfname.val ≠ [] then some (secNode (uplinkFields ds)) else none),
    ("vlan".toList, if ds.vlanIfname.val ≠ [] then some (secNode (vlanFields ds)) else none),
    ("wg".toList, if ds.wgIfname.val ≠ [] then some (secNode (wgFields ds)) else none),
    ("vxlan".toList, if ds.vxIfname.val ≠ [] then some (secNode (vxlanFields ds)) else none),
    ("routes".toList,
      if ds.routes.val ≠ [] then some (secNode (routesFields ds.routes.val 0)) else none)]

/-- The tree of a state. -/
def stateNode (ds : DesiredState) : CfgNode := secNode (stateFields ds)

/-! ## The lines of a state -/

/-- The text of a value. -/
def LineVal.text : LineVal → CStr
  | .str s => s
  | .u32 n => dec n.toNat

/-- A line as the text of its path and value. -/
def CfgLine.text (l : CfgLine) : CStr × CStr := (l.1, l.2.text)

/-- An assignment as the text of its path and value. -/
def Assign.text (a : Assign) : CStr × CStr := (printPath a.1, a.2)

/-- The lines of one field of the section `k`. -/
def fieldText (k : CStr) (f : CStr × Option CfgNode) : List (CStr × CStr) :=
  (fieldAssigns f).map fun a => (under k a).text

theorem fieldAssigns_secNode_text (k : CStr) (fs : Fields) :
    (fieldAssigns (k, some (secNode fs))).map Assign.text = fs.flatMap (fieldText k) := by
  simp only [fieldAssigns, assigns_secNode, List.map_map, List.map_flatMap]
  rfl

theorem fieldText_arrNode (k f : CStr) (vs : List CStr) :
    fieldText k (f, arrNode vs) = vs.map fun v => (k ++ ('.' :: f ++ ['[', ']']), v) := by
  simp [fieldText, fieldAssigns_arrNode, Assign.text, under, printPath_key_cons, Tok.print,
    Function.comp_def]

theorem fieldText_optNode (k f v : CStr) :
    fieldText k (f, optNode v) = if v ≠ [] then [(k ++ '.' :: f, v)] else [] := by
  unfold optNode
  split <;> simp [fieldText, fieldAssigns, assigns, strNode, Assign.text, under,
    printPath_key_cons, Tok.print]

theorem cfgBridge_text (ds : DesiredState) : (cfgBridge ds).map CfgLine.text =
    (fieldAssigns ("bridge".toList,
      if ds.brName.val ≠ [] then some (secNode (bridgeFields ds)) else none)).map Assign.text := by
  unfold cfgBridge
  split
  · rw [fieldAssigns_secNode_text]
    simp only [bridgeFields, List.flatMap_cons, List.flatMap_nil, fieldText_arrNode,
      List.append_nil, List.map_cons, List.map_append, List.map_map]
    unfold cfgAddr
    cases ds.brAddrMode with
    | none => rfl
    | dhcp => rfl
    | static =>
      simp only [reduceIte, fieldText_optNode, fieldText_arrNode, List.map_append, List.map_map,
        List.append_assoc]
      split <;> rfl
  · rfl

theorem cfgUplink_text (ds : DesiredState) : (cfgUplink ds).map CfgLine.text =
    (fieldAssigns ("uplink".toList,
      if ds.upIfname.val ≠ [] then some (secNode (uplinkFields ds)) else none)).map Assign.text := by
  unfold cfgUplink
  split <;> rfl

theorem cfgVlan_text (ds : DesiredState) : (cfgVlan ds).map CfgLine.text =
    (fieldAssigns ("vlan".toList,
      if ds.vlanIfname.val ≠ [] then some (secNode (vlanFields ds)) else none)).map Assign.text := by
  unfold cfgVlan
  split
  · rw [fieldAssigns_secNode_text]
    simp only [vlanFields, List.flatMap_cons, List.flatMap_nil, fieldText_optNode]
    split <;> split <;> rfl
  · rfl

theorem cfgWg_text (ds : DesiredState) : (cfgWg ds).map CfgLine.text =
    (fieldAssigns ("wg".toList,
      if ds.wgIfname.val ≠ [] then some (secNode (wgFields ds)) else none)).map Assign.text := by
  unfold cfgWg
  split <;> rfl

theorem cfgVxlan_text (ds : DesiredState) : (cfgVxlan ds).map CfgLine.text =
    (fieldAssigns ("vxlan".toList,
      if ds.vxIfname.val ≠ [] then some (secNode (vxlanFields ds)) else none)).map Assign.text := by
  unfold cfgVxlan
  split
  · rw [fieldAssigns_secNode_text]
    simp only [vxlanFields, List.flatMap_cons, List.flatMap_nil, fieldText_optNode]
    split <;> rfl
  · rfl

theorem routePath_eq_ok {fmt path : CStr} {i : Nat} (h : routePath fmt i = .ok path) :
    path = sprintf fmt [dec i] := by
  simp only [routePath] at h
  split at h
  · cases h
  · exact (Except.ok.inj h).symm

theorem cfgRoute_text {rt : DesiredRoute4} {i : Nat} {ls : List CfgLine}
    (h : cfgRoute rt i = .ok ls) : ls.map CfgLine.text =
      fieldText "routes".toList ('r' :: dec i, some (secNode (routeFields rt))) := by
  simp only [cfgRoute, bind_eq_ok] at h
  obtain ⟨dst, hdst, dev, hdev, h⟩ := h
  rw [routePath_eq_ok hdst, routePath_eq_ok hdev] at h
  cases hv : rt.hasVia with
  | false =>
    rw [hv] at h
    rw [← Except.ok.inj h]
    simp only [routeFields, hv]
    rfl
  | true =>
    rw [hv, if_pos rfl, bind_eq_ok] at h
    obtain ⟨via, hvia, h⟩ := h
    rw [routePath_eq_ok hvia] at h
    rw [← Except.ok.inj h]
    simp only [routeFields, hv]
    rfl

theorem cfgRoutes_text {rts : List DesiredRoute4} {i : Nat} {ls : List (List CfgLine)}
    (h : (rts.zipIdx i).mapM (fun p => cfgRoute p.1 p.2) = .ok ls) :
    ls.flatten.map CfgLine.text = (routesFields rts i).flatMap (fieldText "routes".toList) := by
  rw [mapM_eq_ok] at h
  induction rts generalizing i ls with
  | nil =>
    cases h
    rfl
  | cons rt rts ih =>
    rw [List.zipIdx_cons, List.forall₂_cons_left_iff] at h
    obtain ⟨l, ls, hl, hls, rfl⟩ := h
    rw [List.flatten_cons, List.map_append, ih hls, cfgRoute_text hl]
    rfl

/-- **The lines of a state are the assignments of its tree.** -/
theorem stateLines_eq {ds : DesiredState} {ls : List CfgLine} (h : stateLines ds = .ok ls) :
    ls.map CfgLine.text = (assigns (stateNode ds)).map Assign.text := by
  simp only [stateLines, bind_eq_ok] at h
  obtain ⟨routes, hroutes, h⟩ := h
  have hrt : routes.flatten.map CfgLine.text = (fieldAssigns ("routes".toList,
      if ds.routes.val ≠ [] then some (secNode (routesFields ds.routes.val 0))
      else none)).map Assign.text := by
    rw [cfgRoutes_text hroutes]
    split
    · rw [fieldAssigns_secNode_text]
    · rename_i hne
      rw [not_not.mp hne]
      rfl
  rw [← Except.ok.inj h, stateNode, assigns_secNode]
  simp only [stateFields, List.flatMap_cons, List.flatMap_nil, List.map_cons, List.map_append,
    cfgBridge_text, cfgUplink_text, cfgVlan_text, cfgWg_text, cfgVxlan_text, hrt,
    List.append_assoc, List.append_nil]
  rfl

/-! ## Ids -/

/-- What `cfg_state_id` has written at any time: nothing, or the start of a key. -/
structure IdPart (k : CStr) : Prop where
  head : k ≠ [] → k.head?.any isKeyStart
  all : ∀ c ∈ k, isKeyChar c
  length_lt : k.length < IFNAMSIZ

theorem IdPart.snoc {k : CStr} (h : IdPart k) (hne : k ≠ []) {c : Char} (hc : isKeyChar c)
    (hl : k.length + 1 < IFNAMSIZ) : IdPart (k ++ [c]) where
  head _ := by
    obtain ⟨b, k, rfl⟩ := List.exists_cons_of_ne_nil hne
    exact h.head hne
  all := List.forall_mem_append.mpr ⟨h.all, List.forall_mem_singleton.mpr hc⟩
  length_lt := by simpa using hl

theorem IdPart.one {c : Char} (hc : isKeyStart c) : IdPart [c] :=
  ⟨fun _ => by simpa using hc, by simpa using isKeyChar_of_isKeyStart hc, by simp⟩

theorem cfgStateIdLoop_idPart {dst src id : CStr} (hd : IdPart dst)
    (h : cfgStateIdLoop IFNAMSIZ dst src = .ok id) : IdPart id := by
  induction src generalizing dst with
  | nil =>
    obtain rfl := Except.ok.inj h
    exact hd
  | cons c src ih =>
    rw [cfgStateIdLoop] at h
    split_ifs at h with hl hnil hs hdig hsz hc
    · exact ih (.one hs) h
    · have hkey : isKeyChar c := by simp [isKeyChar, isAlnum, hdig]
      exact ih ((IdPart.one (c := '_') (by decide)).snoc (by simp) hkey (by decide)) h
    · exact ih (.one (by decide)) h
    · exact ih (hd.snoc hnil hc hl) h
    · exact ih (hd.snoc hnil (by decide) hl) h

/-- An id is a key. -/
theorem isKey_cfgStateId {ds : DesiredState} {idx : Nat} {id : CStr}
    (h : cfgStateId ds idx = .ok id) : IsKey id := by
  simp only [cfgStateId, bind_eq_ok] at h
  obtain ⟨dst, hdst, h⟩ := h
  have hpart := cfgStateIdLoop_idPart ⟨by simp, by simp, by decide⟩ hdst
  have hfmt : sprintf "s%d".toList [dec idx] = 's' :: (dec idx ++ []) := rfl
  rw [hfmt, List.append_nil] at h
  split_ifs at h with hnil hlen
  · obtain rfl := Except.ok.inj h
    refine ⟨?_, ?_, (not_le.mp hlen).trans (by decide)⟩
    · have hs : isKeyStart 's' := by decide
      simpa using hs
    have hdig : ∀ c ∈ dec idx, isKeyChar c := fun c hc => by
      simp [isKeyChar, isAlnum, isDigit_of_mem_dec hc]
    simpa using ⟨by decide, hdig⟩
  · obtain rfl := Except.ok.inj h
    exact ⟨hpart.head hnil, hpart.all, hpart.length_lt.trans (by decide)⟩

/-- A name with a leading digit escaped and every byte that cannot stand in a key replaced. -/
def idName : CStr → CStr
  | [] => []
  | c :: s =>
    (if isKeyStart c then [c] else if isDigit c then ['_', c] else ['_']) ++
      s.map fun b => if isKeyChar b then b else '_'

theorem cfgStateIdLoop_eq_ok {sz : Nat} {dst src id : CStr} (hne : dst ≠ [])
    (h : cfgStateIdLoop sz dst src = .ok id) :
    id = dst ++ src.map fun b => if isKeyChar b then b else '_' := by
  induction src generalizing dst with
  | nil => simpa using (Except.ok.inj h).symm
  | cons c src ih =>
    rw [cfgStateIdLoop] at h
    simp only [if_neg hne] at h
    split_ifs at h with hl hc
    · simpa [hc] using ih (by simp) h
    · simpa [hc] using ih (by simp) h

/-- The id of a state with a bridge is the name of the bridge, made a key. -/
theorem cfgStateId_eq_ok {ds : DesiredState} {idx : Nat} {id : CStr} (hne : ds.brName.val ≠ [])
    (h : cfgStateId ds idx = .ok id) : id = idName ds.brName := by
  simp only [cfgStateId, if_pos hne, bind_eq_ok] at h
  obtain ⟨dst, hdst, h⟩ := h
  obtain ⟨c, s, hs⟩ := List.exists_cons_of_ne_nil hne
  have heq : dst = idName ds.brName := by
    rw [hs, cfgStateIdLoop, if_pos (by decide), if_pos rfl] at hdst
    rw [hs, idName]
    split_ifs at hdst ⊢
    · exact cfgStateIdLoop_eq_ok (by simp) hdst
    · exact cfgStateIdLoop_eq_ok (by simp) hdst
    · exact cfgStateIdLoop_eq_ok (by simp) hdst
  have hdne : dst ≠ [] := by
    rw [heq, hs, idName]
    split_ifs <;> simp
  rw [if_neg hdne] at h
  rw [← Except.ok.inj h, heq]

/-! ## The text of a set -/

/-- The assignments a state is written as. -/
def stateAssigns (id : CStr) (ds : DesiredState) : List Assign :=
  (assigns (stateNode ds)).map (below ["state".toList, id])

theorem flatMap_escape_of_isDigit {s : CStr} (h : ∀ c ∈ s, isDigit c) : s.flatMap escape = s := by
  have hdig : ∀ c, isDigit c → escape c = [c] := fun c hc => by
    unfold escape
    split_ifs with h₁ h₂ h₃
    · rcases h₁ with rfl | rfl <;> exact absurd hc (by decide)
    · subst h₂; exact absurd hc (by decide)
    · subst h₃; exact absurd hc (by decide)
    · rfl
  induction s with
  | nil => rfl
  | cons c s ih =>
    rw [List.flatMap_cons, hdig c (h c List.mem_cons_self),
      ih fun b hb => h b (List.mem_cons_of_mem c hb), List.singleton_append]

theorem cfgLine_eq (path : CStr) (v : LineVal) :
    cfgLine path v = assignLine path v.text ++ ['\n'] := by
  cases v with
  | str s =>
    have hfmt : sprintf "%s = ".toList [path] = path ++ [' ', '=', ' '] := rfl
    rw [cfgLine, hfmt]
    simp [assignLine, LineVal.text]
  | u32 n =>
    have hfmt : sprintf "%s = \"%u\"\n".toList [path, dec n.toNat] =
        path ++ (' ' :: '=' :: ' ' :: '"' :: (dec n.toNat ++ ['"', '\n'])) := rfl
    have hesc := flatMap_escape_of_isDigit fun c => isDigit_of_mem_dec (n := n.toNat) (c := c)
    rw [cfgLine, hfmt]
    simp [assignLine, LineVal.text, quote, hesc]

theorem cfgPath_eq_ok {id tail path : CStr} (h : cfgPath id tail = .ok path) :
    path = "state".toList ++ '.' :: (id ++ '.' :: tail) ∧ path.length < 256 := by
  have hfmt : sprintf "state.%s.%s".toList [id, tail] =
      "state".toList ++ '.' :: (id ++ '.' :: (tail ++ [])) := rfl
  simp only [cfgPath, hfmt, List.append_nil] at h
  split at h
  · cases h
  · obtain rfl := Except.ok.inj h
    exact ⟨rfl, by omega⟩

theorem mem_assigns_secNode {fs : Fields} {a : Assign} (h : a ∈ assigns (secNode fs)) :
    ∃ k toks, a.1 = .key k :: toks := by
  rw [assigns_secNode, List.mem_flatMap] at h
  obtain ⟨⟨k, _ | c⟩, -, ha⟩ := h
  · cases ha
  · obtain ⟨b, -, rfl⟩ := List.mem_map.mp ha
    exact ⟨k, b.1, rfl⟩

theorem cfgState_eq_ok {ds : DesiredState} {idx : Nat} {text : CStr}
    (h : cfgState ds idx = .ok text) : ∃ id, cfgStateId ds idx = .ok id ∧
      text = assignText (stateAssigns id ds) ∧
      ∀ a ∈ stateAssigns id ds, (printPath a.1).length < 256 := by
  simp only [cfgState, bind_eq_ok, mapM_eq_ok] at h
  obtain ⟨id, hid, ls, hls, texts, htexts, h⟩ := h
  refine ⟨id, hid, ?_⟩
  -- the text of each line, and the bound on its path, from its tail and value alone
  have hlines : List.Forall₂ (fun (l : CStr × CStr) t =>
      t = assignLine ("state".toList ++ '.' :: (id ++ '.' :: l.1)) l.2 ++ ['\n'] ∧
        ("state".toList ++ '.' :: (id ++ '.' :: l.1)).length < 256)
      ((assigns (stateNode ds)).map Assign.text) texts := by
    rw [← stateLines_eq hls, List.forall₂_map_left_iff]
    refine htexts.imp ?_
    rintro l t ⟨path, hpath, ht⟩
    obtain ⟨rfl, hlen⟩ := cfgPath_eq_ok hpath
    exact ⟨by rw [← Except.ok.inj ht, cfgLine_eq]; rfl, hlen⟩
  have hprint : ∀ a ∈ assigns (stateNode ds),
      printPath (below ["state".toList, id] a).1 =
        "state".toList ++ '.' :: (id ++ '.' :: printPath a.1) := by
    intro a ha
    obtain ⟨k, toks, hk⟩ := mem_assigns_secNode ha
    simp [below, hk, printPath_key_cons, Tok.print]
  rw [List.forall₂_map_left_iff] at hlines
  rw [← Except.ok.inj h]
  clear h hls htexts
  unfold stateAssigns
  generalize assigns (stateNode ds) = as at hlines hprint
  induction hlines with
  | nil => exact ⟨rfl, by simp⟩
  | @cons a t as texts hl _ ih =>
    obtain ⟨htext, hlen⟩ := ih fun b hb => hprint b (List.mem_cons_of_mem a hb)
    have ha := hprint a List.mem_cons_self
    refine ⟨?_, ?_⟩
    · rw [List.flatten_cons, htext, hl.1, List.map_cons]
      simp only [assignText, List.flatMap_cons, Assign.line, ha]
      rfl
    · rw [List.map_cons, List.forall_mem_cons, ha]
      exact ⟨hl.2, hlen⟩

/-- The assignments a set is written as. -/
def setAssigns (ids : List CStr) (l : List DesiredState) : List Assign :=
  (ids.zip l).flatMap fun p => stateAssigns p.1 p.2

/-- **The text of a set is made of the assignments of its states**, below their ids. -/
theorem cfgSet_eq_ok {set : DesiredSet} {text : CStr} (h : cfgSet set = .ok text) :
    ∃ ids : List CStr, stateIds set = ids.map .ok ∧ ids.length = set.val.length ∧
      (∀ id ∈ ids, IsKey id) ∧ text = assignText (setAssigns ids set.val) ∧
      ∀ a ∈ setAssigns ids set.val, (printPath a.1).length < 256 := by
  simp only [cfgSet, bind_eq_ok, mapM_eq_ok] at h
  obtain ⟨texts, htexts, h⟩ := h
  rw [← Except.ok.inj h]
  clear h
  unfold stateIds setAssigns
  generalize set.val = l at htexts
  generalize 0 = i at htexts
  induction l generalizing i texts with
  | nil =>
    cases htexts
    exact ⟨[], by simp [assignText]⟩
  | cons ds l ih =>
    rw [List.zipIdx_cons, List.forall₂_cons_left_iff] at htexts
    obtain ⟨t, texts, ht, htexts, rfl⟩ := htexts
    obtain ⟨id, hid, rfl, hlen⟩ := cfgState_eq_ok ht
    obtain ⟨ids, hids, hl, hkeys, htext, hlens⟩ := ih _ _ htexts
    refine ⟨id :: ids, by simp [List.zipIdx_cons, hid, hids], by simp [hl],
      List.forall_mem_cons.mpr ⟨isKey_cfgStateId hid, hkeys⟩, ?_, ?_⟩
    · rw [List.flatten_cons, htext, List.zip_cons_cons, List.flatMap_cons, assignText_append]
    · rw [List.zip_cons_cons, List.flatMap_cons]
      exact List.forall_mem_append.mpr ⟨hlen, hlens⟩

end Netrec
