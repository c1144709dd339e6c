import Netrec.CLib.Search
import Netrec.Verify.Repair

/-!
# Executing a plan

An abstract kernel in which the `ip` commands of a plan are executed: links with distinct names and
distinct positive indexes, addresses and routes. A command either fails or does just what it says.
What a state asks of the system is a list of goals, each of which a command of the plan achieves or
the snapshot already meets, and which no other command of the plan undoes. So executing the plan
leads to a kernel state in which the verifier finds no difference.

## Main definitions

* `Link`, `Kernel`: the links of the kernel, with its addresses and routes
* `Kernel.snapshot`: the snapshot that `load_real` takes
* `Kernel.exec`, `Kernel.Runs`: executing a command, and a list of commands
* `Goal`, `Cmd.achieves`, `Cmd.Respects`: what commands achieve and leave alone

## Main results

* `exec_achieves`, `exec_respects`: one command
* `runs_goal`: a run achieves the goals of its commands
* `plan_converges`: after executing a plan the verifier finds no difference
-/

namespace Netrec

open CLib

/-! ## The kernel -/

/-- What `IFLA_INFO_DATA` says about a link. -/
inductive LinkData
  | other
  | vlan (id : Option UInt32)
  | vxlan (vni remote : Option UInt32) (link : Option Int)
  deriving DecidableEq

/-- A link of the kernel. -/
structure Link extends Iface where
  data : LinkData
  deriving DecidableEq

/-- The state of the kernel: names and indexes of links are distinct, and indexes are positive. -/
structure Kernel where
  links : List Link
  addrs : List Addr4
  routes : List Route4
  dns : List UInt32
  names : (links.map fun l => l.name).Nodup
  indexes : (links.map fun l => l.ifindex).Nodup
  pos : ∀ l ∈ links, 0 < l.ifindex

/-- The entry of a link in the VLAN table. -/
def Link.vlanEntry (l : Link) : Option Vlan :=
  match l.data with
  | .vlan id => some ⟨l.name, l.ifindex, id, l.link⟩
  | _ => none

/-- The entry of a link in the VXLAN table. -/
def Link.vxlanEntry (l : Link) : Option Vxlan :=
  match l.data with
  | .vxlan vni remote link => some ⟨l.name, l.ifindex, vni, remote, link⟩
  | _ => none

namespace Kernel

/-- The snapshot of the kernel state. -/
def snapshot (k : Kernel) : RealState where
  ifaces := k.links.map Link.toIface
  addr4 := k.addrs
  route4 := k.routes
  dns4 := k.dns
  vxlan := k.links.filterMap Link.vxlanEntry
  vlan := k.links.filterMap Link.vlanEntry

/-- The link of a name. -/
def find? (k : Kernel) (name : IfName) : Option Link := k.links.find? fun l => l.name = name

/-- Changing the attributes of a link, but not its name or index. -/
def update (k : Kernel) (dev : IfName) (f : Link → Link)
    (hf : ∀ l, (f l).name = l.name ∧ (f l).ifindex = l.ifindex) : Kernel :=
  { k with
    links := k.links.map fun l => if l.name = dev then f l else l
    names := by
      have h : ∀ l : Link, (if l.name = dev then f l else l).name = l.name := fun l => by
        split
        · exact (hf l).1
        · rfl
      simpa [Function.comp_def, h] using k.names
    indexes := by
      have h : ∀ l : Link, (if l.name = dev then f l else l).ifindex = l.ifindex := fun l => by
        split
        · exact (hf l).2
        · rfl
      simpa [Function.comp_def, h] using k.indexes
    pos := by
      simp only [List.mem_map, forall_exists_index, and_imp, forall_apply_eq_imp_iff₂]
      intro l hl
      split
      · rw [(hf l).2]
        exact k.pos l hl
      · exact k.pos l hl }

/-- A link may be added under a new name and a fresh index. -/
def Fresh (k : Kernel) (l : Link) : Prop :=
  (∀ l' ∈ k.links, l'.name ≠ l.name) ∧ (∀ l' ∈ k.links, l'.ifindex ≠ l.ifindex) ∧ 0 < l.ifindex

instance (k : Kernel) (l : Link) : Decidable (k.Fresh l) :=
  inferInstanceAs (Decidable (_ ∧ _ ∧ _))

/-- Adding a link. -/
def addLink (k : Kernel) (l : Link) : Option Kernel :=
  if h : k.Fresh l then
    some { k with
      links := k.links ++ [l]
      names := by
        rw [List.map_append, List.map_singleton, List.nodup_append]
        refine ⟨k.names, List.nodup_singleton _, ?_⟩
        simpa using h.1
      indexes := by
        rw [List.map_append, List.map_singleton, List.nodup_append]
        refine ⟨k.indexes, List.nodup_singleton _, ?_⟩
        simpa using h.2.1
      pos := by
        intro l' hl'
        rcases List.mem_append.mp hl' with hl' | hl'
        · exact k.pos l' hl'
        · rw [List.mem_singleton.mp hl']
          exact h.2.2 }
  else none

/-- A new link: down and without a master. -/
def newLink (name : IfName) (kind : String) (idx : Int) (link : Option Int) (data : LinkData) :
    Link :=
  { name, kind := cpy _ kind.toList, ifindex := idx, flags := 0, master := 0, link, data }

/-- Executing a command, where a new link gets the index `idx`; `none` when the command fails. A
plan without deletions, DHCP and comments has no other commands. -/
def exec (idx : Int) (k : Kernel) : Cmd → Option Kernel
  | .linkUp dev => do
    let _ ← k.find? dev
    return k.update dev (fun l => { l with flags := l.flags ||| IFF_UP }) fun _ => ⟨rfl, rfl⟩
  | .addBridge dev => k.addLink (newLink dev "bridge" idx none .other)
  | .addWireguard dev => k.addLink (newLink dev "wireguard" idx none .other)
  | .addVxlan dev vni remote none => do
    let addr ← parseIp4 remote
    k.addLink (newLink dev "vxlan" idx none (.vxlan (some vni) (some addr) none))
  | .addVxlan dev vni remote (some parent) => do
    let addr ← parseIp4 remote
    let p ← k.find? parent
    k.addLink (newLink dev "vxlan" idx none (.vxlan (some vni) (some addr) (some p.ifindex)))
  | .addVlan link dev id => do
    let p ← k.find? link
    k.addLink (newLink dev "vlan" idx (some p.ifindex) (.vlan (some id)))
  | .setMaster dev br => do
    let _ ← k.find? dev
    let b ← k.find? br
    if !b.isBridge ∨ dev = br then none
    else return k.update dev (fun l => { l with master := b.ifindex }) fun _ => ⟨rfl, rfl⟩
  | .addrAdd addr dev => do
    let (a, plen) ← parseAddrPrefix addr
    let l ← k.find? dev
    return { k with addrs := k.addrs ++ [⟨l.ifindex, a, plen⟩] }
  | .routeReplace dst via dev => do
    let (d, plen) ← parseAddrPrefix dst
    let gw ← parseGateway via
    let l ← k.find? dev
    if !l.isUp then none
    else
      let others := k.routes.filter fun r => ¬ (r.dst = d ∧ r.plen = plen)
      return { k with routes := others ++ [⟨d, plen, gw.getD 0, gw.isSome, l.ifindex⟩] }
  | .linkDel _ => none
  | .dhcp _ _ => none
  | .comment _ _ => none

/-- Executing a list of commands, each of which succeeds. -/
inductive Runs : List Cmd → Kernel → Kernel → Prop
  | nil (k : Kernel) : Runs [] k k
  | cons {c : Cmd} {cs : List Cmd} {k k₁ k' : Kernel} (idx : Int) (h : k.exec idx c = some k₁)
    (h' : Runs cs k₁ k') : Runs (c :: cs) k k'

/-! ## Looking up links -/

theorem find?_name {k : Kernel} {name : IfName} {l : Link} (h : k.find? name = some l) :
    l.name = name := by
  simpa using List.find?_some h

theorem find?_mem {k : Kernel} {name : IfName} {l : Link} (h : k.find? name = some l) :
    l ∈ k.links :=
  List.mem_of_find?_eq_some h

theorem find?_update {k : Kernel} {dev name : IfName} {f : Link → Link}
    {hf : ∀ l, (f l).name = l.name ∧ (f l).ifindex = l.ifindex} :
    (k.update dev f hf).find? name =
      (k.find? name).map fun l => if name = dev then f l else l := by
  have hname : ∀ l : Link, (if l.name = dev then f l else l).name = l.name := fun l => by
    split
    · exact (hf l).1
    · rfl
  unfold find? update
  rw [List.find?_map]
  simp only [Function.comp_def, hname]
  cases h : k.links.find? fun l => l.name = name with
  | none => rfl
  | some l =>
    have hl : l.name = name := by simpa using List.find?_some h
    simp [hl]

theorem addLink_eq_some {k k' : Kernel} {l : Link} (h : k.addLink l = some k') : k.Fresh l ∧
    k'.links = k.links ++ [l] ∧ k'.addrs = k.addrs ∧ k'.routes = k.routes ∧ k'.dns = k.dns := by
  unfold addLink at h
  split at h
  · rename_i hf
    cases h
    exact ⟨hf, rfl, rfl, rfl, rfl⟩
  · exact absurd h (by simp)

theorem find?_addLink {k k' : Kernel} {l : Link} (h : k.addLink l = some k') (name : IfName) :
    k'.find? name = if name = l.name then some l else k.find? name := by
  obtain ⟨hfresh, hlinks, -⟩ := addLink_eq_some h
  unfold find?
  rw [hlinks, List.find?_append]
  by_cases hn : name = l.name
  · subst hn
    have hnone : (k.links.find? fun l' => l'.name = l.name) = none := by
      simpa using hfresh.1
    simp [hnone]
  · have hn' : ¬ l.name = name := fun e => hn e.symm
    simp [hn, hn']

theorem find?_addLink_self {k k' : Kernel} {l : Link} (h : k.addLink l = some k') :
    k'.find? l.name = some l := by
  rw [find?_addLink h, if_pos rfl]

theorem snapshot_find {k : Kernel} (name : IfName) :
    rsFindIface k.snapshot name = (k.find? name).map Link.toIface := by
  unfold rsFindIface snapshot find?
  rw [List.find?_map]
  rfl

theorem posIndexes_snapshot (k : Kernel) : PosIndexes k.snapshot := by
  intro i hi
  obtain ⟨l, hl, rfl⟩ := List.mem_map.mp hi
  exact k.pos l hl

/-- The VLAN table has the entry of the link of that name. -/
theorem snapshot_findVlan {k : Kernel} (name : IfName) :
    rsFindVlan k.snapshot name = (k.find? name).bind Link.vlanEntry := by
  refine find?_filterMap_key (fun l b h => ?_) k.names name
  unfold Link.vlanEntry at h
  split at h
  · cases h
    rfl
  · exact absurd h (by simp)

end Kernel

/-! ## One command -/

/-- What a command that succeeds leaves as it is, and what it may change. -/
structure Step (c : Cmd) (k k' : Kernel) : Prop where
  link : ∀ name l, k.find? name = some l → ∃ l', k'.find? name = some l' ∧
    l'.ifindex = l.ifindex ∧ l'.kind = l.kind ∧ l'.link = l.link ∧ l'.data = l.data ∧
      (l.isUp → l'.isUp) ∧ (l'.master = l.master ∨ ∃ br, c = .setMaster name br)
  addr : ∀ a ∈ k.addrs, a ∈ k'.addrs
  route : ∀ r ∈ k.routes, r ∈ k'.routes ∨
    ∃ via dev, c.establishes = some (.route r.dst r.plen via dev)
  dns : k'.dns = k.dns

/-- A command that leaves the links alone. -/
theorem Step.of_links {c : Cmd} {k k' : Kernel} (hl : k'.links = k.links)
    (ha : ∀ a ∈ k.addrs, a ∈ k'.addrs)
    (hr : ∀ r ∈ k.routes, r ∈ k'.routes ∨ ∃ via dev, c.establishes = some (.route r.dst r.plen via dev))
    (hd : k'.dns = k.dns) : Step c k k' where
  link name l h := ⟨l, by simpa [Kernel.find?, hl] using h, rfl, rfl, rfl, rfl, id, .inl rfl⟩
  addr := ha
  route := hr
  dns := hd

/-- Adding a link. -/
theorem Step.of_addLink {c : Cmd} {k k' : Kernel} {l : Link} (h : k.addLink l = some k') :
    Step c k k' := by
  obtain ⟨hfresh, -, ha, hr, hd⟩ := Kernel.addLink_eq_some h
  refine ⟨fun name l' h' => ⟨l', ?_, rfl, rfl, rfl, rfl, id, .inl rfl⟩, by simp [ha],
    by simp +contextual [hr], hd⟩
  rw [Kernel.find?_addLink h, if_neg, h']
  rintro rfl
  exact hfresh.1 l' (Kernel.find?_mem h') (Kernel.find?_name h')

theorem isUp_setUp (l : Link) : ({ l with flags := l.flags ||| IFF_UP } : Link).isUp := by
  have h : (l.flags ||| IFF_UP) &&& IFF_UP = IFF_UP := by
    rw [← UInt32.toBitVec_inj]
    ext i hi
    simp
    grind
  simp only [Iface.isUp, h]
  decide

/-- A command that succeeds is a step. -/
theorem exec_step {idx : Int} {c : Cmd} {k k' : Kernel} (h : k.exec idx c = some k') :
    Step c k k' := by
  cases c with
  | linkUp dev =>
    simp only [Kernel.exec, Option.bind_eq_bind, Option.bind_eq_some_iff, Option.pure_def,
      Option.some.injEq] at h
    obtain ⟨-, -, rfl⟩ := h
    refine ⟨fun name l hl => ⟨_, by rw [Kernel.find?_update, hl]; rfl, ?_⟩, fun _ => id,
      fun _ => .inl, rfl⟩
    split
    · exact ⟨rfl, rfl, rfl, rfl, fun _ => isUp_setUp l, .inl rfl⟩
    · exact ⟨rfl, rfl, rfl, rfl, id, .inl rfl⟩
  | setMaster dev br =>
    simp only [Kernel.exec, Option.bind_eq_bind, Option.bind_eq_some_iff, Option.pure_def,
      Option.ite_none_left_eq_some, Option.some.injEq] at h
    obtain ⟨-, -, b, -, -, rfl⟩ := h
    refine ⟨fun name l hl => ⟨_, by rw [Kernel.find?_update, hl]; rfl, ?_⟩, fun _ => id,
      fun _ => .inl, rfl⟩
    split
    · rename_i hn
      exact ⟨rfl, rfl, rfl, rfl, id, .inr ⟨br, by rw [hn]⟩⟩
    · exact ⟨rfl, rfl, rfl, rfl, id, .inl rfl⟩
  | addBridge dev => exact .of_addLink h
  | addWireguard dev => exact .of_addLink h
  | addVxlan dev vni remote parent =>
    cases parent with
    | none =>
      simp only [Kernel.exec, Option.bind_eq_bind, Option.bind_eq_some_iff] at h
      obtain ⟨_, -, h⟩ := h
      exact .of_addLink h
    | some parent =>
      simp only [Kernel.exec, Option.bind_eq_bind, Option.bind_eq_some_iff] at h
      obtain ⟨_, -, _, -, h⟩ := h
      exact .of_addLink h
  | addVlan link dev id =>
    simp only [Kernel.exec, Option.bind_eq_bind, Option.bind_eq_some_iff] at h
    obtain ⟨_, -, h⟩ := h
    exact .of_addLink h
  | addrAdd addr dev =>
    simp only [Kernel.exec, Option.bind_eq_bind, Option.bind_eq_some_iff, Option.pure_def,
      Option.some.injEq] at h
    obtain ⟨_, -, _, -, rfl⟩ := h
    exact .of_links rfl (fun a ha => List.mem_append_left _ ha) (fun _ => .inl) rfl
  | routeReplace dst via dev =>
    simp only [Kernel.exec, Option.bind_eq_bind, Option.bind_eq_some_iff, Option.pure_def,
      Option.ite_none_left_eq_some, Option.some.injEq] at h
    obtain ⟨⟨d, plen⟩, hd, gw, hgw, l, hl, -, rfl⟩ := h
    refine .of_links rfl (fun _ => id) (fun r hr => ?_) rfl
    by_cases hsame : r.dst = d ∧ r.plen = plen
    · exact .inr ⟨gw, dev, by simp [Cmd.establishes, hd, hgw, hsame]⟩
    · exact .inl (List.mem_append_left _ (List.mem_filter.mpr ⟨hr, decide_eq_true hsame⟩))
  | linkDel dev => exact absurd h (by simp [Kernel.exec])
  | dhcp dev text => exact absurd h (by simp [Kernel.exec])
  | comment fmt args => exact absurd h (by simp [Kernel.exec])

/-! ## Goals -/

/-- Something that a plan brings about. -/
inductive Goal
  | up (dev : IfName)
  | bridge (dev : IfName)
  | vlan (dev : IfName) (id : UInt32) (link : IfName)
  | req (r : Req)

/-- A snapshot meets a goal. -/
def Goal.Holds (rs : RealState) : Goal → Prop
  | up dev => IsUp rs dev
  | bridge dev => ∃ br, rsFindIface rs dev = some br ∧ br.isBridge
  | vlan dev id link => ∃ vl l, rsFindVlan rs dev = some vl ∧ vl.id = some id ∧
      rsFindIface rs link = some l ∧ vl.link = some l.ifindex
  | req r => r.holds rs = true

/-- The goal a command achieves. -/
def Cmd.achieves : Cmd → Option Goal
  | .linkUp dev => some (.up dev)
  | .addBridge dev => some (.bridge dev)
  | .addVlan link dev id => some (.vlan dev id link)
  | c => c.establishes.map .req

/-- A command does not replace what a goal asks for by something else: no other route to the same
destination and no other master. -/
def Cmd.Respects (c : Cmd) : Goal → Prop
  | .req (.route dst plen via dev) => ∀ via' dev', c.establishes = some (.route dst plen via' dev') →
      via' = via ∧ dev' = dev
  | .req (.member dev br) => ∀ br', c = .setMaster dev br' → br' = br
  | _ => True

theorem Req.holds_route {rs : RealState} (hc : PosIndexes rs) {dst : UInt32} {plen : Int}
    {via : Option UInt32} {dev : IfName} :
    (Req.route dst plen via dev).holds rs = true ↔ HasRoute rs dst plen via dev := by
  have hvia : (if via.isSome then some (via.getD 0) else none) = via := by cases via <;> rfl
  simp only [Req.holds]
  rw [hasRoute_iff hc, hvia]

theorem Req.holds_member {rs : RealState} {dev br : IfName} :
    (Req.member dev br).holds rs = true ↔ HasMaster rs dev br := by
  simp only [Req.holds, HasMaster]
  cases rsFindIface rs dev <;> cases rsFindIface rs br <;> simp

theorem holds_addr_iff {k : Kernel} {dev : IfName} {a : UInt32} {plen : Int} :
    (Req.addr dev a plen).holds k.snapshot = true ↔
      ∃ l, k.find? dev = some l ∧ ⟨l.ifindex, a, plen⟩ ∈ k.addrs := by
  simp only [Req.holds, Kernel.snapshot_find]
  cases k.find? dev with
  | none => simp
  | some l => simp [addrExists_iff, Kernel.snapshot]

theorem holds_member_iff {k : Kernel} {dev br : IfName} :
    (Req.member dev br).holds k.snapshot = true ↔
      ∃ l b, k.find? dev = some l ∧ k.find? br = some b ∧ l.master = b.ifindex := by
  rw [Req.holds_member, HasMaster, Kernel.snapshot_find, Kernel.snapshot_find]
  cases k.find? dev <;> cases k.find? br <;> simp

theorem holds_route_iff {k : Kernel} {dst : UInt32} {plen : Int} {via : Option UInt32}
    {dev : IfName} : (Req.route dst plen via dev).holds k.snapshot = true ↔
      ∃ l, k.find? dev = some l ∧ ∃ r ∈ k.routes, r.oif = l.ifindex ∧ r.plen = plen ∧ r.dst = dst ∧
        if r.hasGw then via = some r.gw else via = none := by
  rw [Req.holds_route k.posIndexes_snapshot, HasRoute, Kernel.snapshot_find]
  simp [Kernel.snapshot]

/-- **A command that succeeds achieves its goal.** -/
theorem exec_achieves {idx : Int} {c : Cmd} {k k' : Kernel} {g : Goal}
    (h : k.exec idx c = some k') (hg : c.achieves = some g) : g.Holds k'.snapshot := by
  cases c with
  | linkUp dev =>
    cases hg
    simp only [Kernel.exec, Option.bind_eq_bind, Option.bind_eq_some_iff, Option.pure_def,
      Option.some.injEq] at h
    obtain ⟨l, hl, rfl⟩ := h
    refine ⟨_, by rw [Kernel.snapshot_find, Kernel.find?_update, hl]; rfl, ?_⟩
    simpa using isUp_setUp l
  | setMaster dev br =>
    cases hg
    simp only [Kernel.exec, Option.bind_eq_bind, Option.bind_eq_some_iff, Option.pure_def,
      Option.ite_none_left_eq_some, Option.some.injEq, not_or] at h
    obtain ⟨l, hl, b, hb, ⟨-, hne⟩, rfl⟩ := h
    refine holds_member_iff.mpr ⟨_, _, by rw [Kernel.find?_update, hl]; rfl,
      by rw [Kernel.find?_update, hb]; rfl, ?_⟩
    simp [Ne.symm hne]
  | addBridge dev =>
    cases hg
    have hnew : k'.find? dev = some (Kernel.newLink dev "bridge" idx none .other) :=
      Kernel.find?_addLink_self h
    refine ⟨_, by rw [Kernel.snapshot_find, hnew]; rfl, ?_⟩
    exact of_decide_eq_true rfl
  | addWireguard dev => exact absurd hg (by simp [Cmd.achieves, Cmd.establishes])
  | addVxlan dev vni remote parent => exact absurd hg (by simp [Cmd.achieves, Cmd.establishes])
  | addVlan link dev id =>
    cases hg
    simp only [Kernel.exec, Option.bind_eq_bind, Option.bind_eq_some_iff] at h
    obtain ⟨p, hp, h⟩ := h
    have hne : link ≠ dev := by
      rintro rfl
      exact (Kernel.addLink_eq_some h).1.1 p (Kernel.find?_mem hp) (Kernel.find?_name hp)
    have hnew : k'.find? dev =
        some (Kernel.newLink dev "vlan" idx (some p.ifindex) (.vlan (some id))) :=
      Kernel.find?_addLink_self h
    have hlink : k'.find? link = some p := by
      rw [Kernel.find?_addLink h]
      exact (if_neg hne).trans hp
    exact ⟨_, _, by rw [Kernel.snapshot_findVlan, hnew]; rfl, rfl,
      by rw [Kernel.snapshot_find, hlink]; rfl, rfl⟩
  | addrAdd addr dev =>
    simp only [Kernel.exec, Option.bind_eq_bind, Option.bind_eq_some_iff, Option.pure_def,
      Option.some.injEq] at h
    obtain ⟨⟨a, plen⟩, ha, l, hl, rfl⟩ := h
    simp only [Cmd.achieves, Cmd.establishes, ha, Option.map_some, Option.some.injEq] at hg
    subst hg
    exact holds_addr_iff.mpr ⟨l, hl, by simp⟩
  | routeReplace dst via dev =>
    simp only [Kernel.exec, Option.bind_eq_bind, Option.bind_eq_some_iff, Option.pure_def,
      Option.ite_none_left_eq_some, Option.some.injEq] at h
    obtain ⟨⟨d, plen⟩, hd, gw, hgw, l, hl, -, rfl⟩ := h
    simp only [Cmd.achieves, Cmd.establishes, hd, hgw, Option.bind_eq_bind, Option.bind_some,
      Option.pure_def, Option.map_some, Option.some.injEq] at hg
    subst hg
    refine holds_route_iff.mpr ⟨l, hl, _, List.mem_append_right _ (List.mem_singleton_self _), rfl,
      rfl, rfl, ?_⟩
    cases gw <;> rfl
  | linkDel dev => exact absurd h (by simp [Kernel.exec])
  | dhcp dev text => exact absurd h (by simp [Kernel.exec])
  | comment fmt args => exact absurd h (by simp [Kernel.exec])

theorem achieves_of_establishes {c : Cmd} {r : Req} (h : c.establishes = some r) :
    c.achieves = some (.req r) := by
  cases c <;> simp_all [Cmd.achieves, Cmd.establishes]

/-- **A command that succeeds keeps the goals it respects.** -/
theorem exec_respects {idx : Int} {c : Cmd} {k k' : Kernel} {g : Goal}
    (h : k.exec idx c = some k') (hr : c.Respects g) (hg : g.Holds k.snapshot) :
    g.Holds k'.snapshot := by
  have hstep := exec_step h
  cases g with
  | up dev =>
    obtain ⟨i, hi, hup⟩ := hg
    rw [Kernel.snapshot_find, Option.map_eq_some_iff] at hi
    obtain ⟨l, hl, rfl⟩ := hi
    obtain ⟨l', hl', -, -, -, -, hup', -⟩ := hstep.link dev l hl
    exact ⟨_, by rw [Kernel.snapshot_find, hl']; rfl, hup' hup⟩
  | bridge dev =>
    obtain ⟨i, hi, hbr⟩ := hg
    rw [Kernel.snapshot_find, Option.map_eq_some_iff] at hi
    obtain ⟨l, hl, rfl⟩ := hi
    obtain ⟨l', hl', -, hkind, -⟩ := hstep.link dev l hl
    refine ⟨_, by rw [Kernel.snapshot_find, hl']; rfl, ?_⟩
    exact (congrArg (fun kind : CBuf 16 => decide (kind.val = "bridge".toList)) hkind).trans hbr
  | vlan dev id link =>
    obtain ⟨vl, i, hvl, hid, hi, hlink⟩ := hg
    rw [Kernel.snapshot_find, Option.map_eq_some_iff] at hi
    rw [Kernel.snapshot_findVlan, Option.bind_eq_some_iff] at hvl
    obtain ⟨p, hp, rfl⟩ := hi
    obtain ⟨l, hl, hentry⟩ := hvl
    obtain ⟨p', hp', hpidx, -⟩ := hstep.link link p hp
    obtain ⟨l', hl', hidx, -, hlink', hdata, -⟩ := hstep.link dev l hl
    have hname : l'.name = l.name := (Kernel.find?_name hl').trans (Kernel.find?_name hl).symm
    have hentry' : l'.vlanEntry = some vl := by
      rw [← hentry]
      simp only [Link.vlanEntry, hdata, hname, hidx, hlink']
    exact ⟨vl, _, by rw [Kernel.snapshot_findVlan, hl']; exact hentry', hid,
      by rw [Kernel.snapshot_find, hp']; rfl, by rw [hlink]; exact congrArg some hpidx.symm⟩
  | req r =>
    cases r with
    | addr dev a plen =>
      obtain ⟨l, hl, ha⟩ := holds_addr_iff.mp hg
      obtain ⟨l', hl', hidx, -⟩ := hstep.link dev l hl
      exact holds_addr_iff.mpr ⟨l', hl', hidx ▸ hstep.addr _ ha⟩
    | route dst plen via dev =>
      obtain ⟨l, hl, r, hmem, hoif, rfl, rfl, hvia⟩ := holds_route_iff.mp hg
      obtain ⟨l', hl', hidx, -⟩ := hstep.link dev l hl
      rcases hstep.route r hmem with hmem | ⟨via', dev', he⟩
      · exact holds_route_iff.mpr ⟨l', hl', r, hmem, hoif.trans hidx.symm, rfl, rfl, hvia⟩
      · obtain ⟨rfl, rfl⟩ := hr via' dev' he
        exact exec_achieves h (achieves_of_establishes he)
    | member dev br =>
      obtain ⟨l, b, hl, hb, hm⟩ := holds_member_iff.mp hg
      obtain ⟨l', hl', -, -, -, -, -, hmaster⟩ := hstep.link dev l hl
      obtain ⟨b', hb', hbidx, -⟩ := hstep.link br b hb
      rcases hmaster with hmaster | ⟨br', rfl⟩
      · exact holds_member_iff.mpr ⟨l', b', hl', hb', by rw [hmaster, hm, hbidx]⟩
      · obtain rfl := hr br' rfl
        exact exec_achieves h rfl

/-- **A run achieves the goals of its commands**, and keeps those it starts with, if all its
commands respect them. -/
theorem runs_goal {cs : List Cmd} {k k' : Kernel} {g : Goal} (h : Kernel.Runs cs k k')
    (hr : ∀ c ∈ cs, c.Respects g)
    (hg : g.Holds k.snapshot ∨ ∃ c ∈ cs, c.achieves = some g) : g.Holds k'.snapshot := by
  induction h with
  | nil k => simpa using hg
  | cons idx hexec _ ih =>
    obtain ⟨hr₁, hr⟩ := List.forall_mem_cons.mp hr
    refine ih hr ?_
    rcases hg with hg | ⟨c, hc, hg⟩
    · exact .inl (exec_respects hexec hr₁ hg)
    · rcases List.mem_cons.mp hc with rfl | hc
      · exact .inl (exec_achieves hexec hg)
      · exact .inr ⟨c, hc, hg⟩

/-! ## The requirements of a plan are compatible -/

section Compatible

variable {ds : DesiredState} {rs : RealState} {scn : Scenario}

/-- The destinations of the desired routes and of the gateway. -/
def routeKeys (ds : DesiredState) : List (UInt32 × Int) :=
  (if ds.brGateway.val = [] then [] else [(0, 0)]) ++
    ds.routes.val.filterMap fun rt => parseAddrPrefix rt.dst

/-- What a plan establishes: the requirements, and the bridge of the VLAN. -/
def wanted (ds : DesiredState) (rs : RealState) (scn : Scenario) : List Req :=
  requirements ds rs ++ if scn = .vlanBridge then [.member ds.vlanIfname ds.vlanBridge] else []

theorem requirements_eq (hs : Scenario.ofName ds.scenario = some scn) :
    requirements ds rs = scn.reqs ds rs ++ routeReqs ds := by
  simp [requirements, hs]

theorem plan_establishes (hs : Scenario.ofName ds.scenario = some scn) :
    (plan ds rs).filterMap Cmd.establishes =
      unmet rs (scn.reqs ds rs) ++ (scn.enslaves ds rs ++ unmet rs (routeReqs ds)) := by
  rw [plan_eq hs, List.filterMap_append, scenario_establishes, routes_establishes,
    List.append_assoc]

theorem mem_wanted_of_establishes (hs : Scenario.ofName ds.scenario = some scn)
    (hscn : scn ≠ .wgVxlanBridge) {c : Cmd} (hc : c ∈ plan ds rs) {r : Req}
    (hr : c.establishes = some r) : r ∈ wanted ds rs scn := by
  have hmem : r ∈ (plan ds rs).filterMap Cmd.establishes := List.mem_filterMap.mpr ⟨c, hc, hr⟩
  rw [plan_establishes hs, List.mem_append, List.mem_append, mem_unmet, mem_unmet] at hmem
  rw [wanted, requirements_eq hs, List.mem_append, List.mem_append]
  rcases hmem with ⟨hmem, -⟩ | hmem | ⟨hmem, -⟩
  · exact .inl (.inl hmem)
  · cases scn with
    | onlyUplink => exact absurd hmem (by simp [Scenario.enslaves])
    | uplinkBridge => exact absurd hmem (by simp [Scenario.enslaves])
    | wgVxlanBridge => exact absurd rfl hscn
    | vlanBridge =>
      refine .inr ?_
      simp only [Scenario.enslaves, enslaved, memberReq] at hmem
      split at hmem <;> try split at hmem
      all_goals simp_all
  · exact .inl (.inr hmem)

theorem routeReq_eq_some {rt : DesiredRoute4} {r : Req} : routeReq rt = some r ↔
    ∃ dst plen gw, parseAddrPrefix rt.dst = some (dst, plen) ∧ parseVia rt = some gw ∧
      r = .route dst plen (if rt.hasVia then some gw else none) rt.dev := by
  simp only [routeReq, Option.bind_eq_bind, Option.bind_eq_some_iff, Option.pure_def,
    Option.some.injEq, Prod.exists]
  constructor
  · rintro ⟨dst, plen, hd, gw, hv, rfl⟩
    exact ⟨dst, plen, gw, hd, hv, rfl⟩
  · rintro ⟨dst, plen, gw, hd, hv, rfl⟩
    exact ⟨dst, plen, hd, gw, hv, rfl⟩

theorem memberReq_eq_some {br name : IfName} {r : Req} : memberReq rs br name = some r ↔
    (rsFindIface rs name).isSome ∧ .member name br = r := by
  simp [memberReq, Option.ite_none_right_eq_some]

/-- The routes among the requirements. -/
theorem route_mem_wanted (hs : Scenario.ofName ds.scenario = some scn)
    (hscn : scn ≠ .wgVxlanBridge) {dst : UInt32} {plen : Int} {via : Option UInt32} {dev : IfName}
    (h : .route dst plen via dev ∈ wanted ds rs scn) :
    gatewayReq ds = some (.route dst plen via dev) ∨
      ∃ rt ∈ ds.routes.val, routeReq rt = some (.route dst plen via dev) := by
  have haddr : addrReq ds ≠ some (.route dst plen via dev) := by
    simp only [addrReq, ne_eq, Option.ite_none_right_eq_some, not_and, Option.map_eq_some_iff]
    rintro - ⟨a, -, h⟩
    cases h
  rw [wanted, requirements_eq hs] at h
  simp only [List.mem_append, routeReqs, List.mem_filterMap] at h
  rcases h with (h | h) | h
  · cases scn with
    | onlyUplink => exact absurd h (by simp [Scenario.reqs])
    | wgVxlanBridge => exact absurd rfl hscn
    | uplinkBridge =>
      simp only [Scenario.reqs, portReqs, List.mem_append, Option.mem_toList, List.mem_filterMap,
        memberReq_eq_some, haddr, reduceCtorEq, and_false, exists_false, false_or, or_false] at h
      exact .inl h
    | vlanBridge =>
      simp only [Scenario.reqs, portReqs, List.mem_append, Option.mem_toList, List.mem_filterMap,
        memberReq_eq_some, haddr, reduceCtorEq, and_false, exists_false, false_or, or_false] at h
      exact .inl h
  · exact .inr h
  · split at h <;> simp at h

/-- The members among the requirements. -/
theorem member_mem_wanted (hs : Scenario.ofName ds.scenario = some scn)
    (hscn : scn ≠ .wgVxlanBridge) {dev br : IfName} (h : .member dev br ∈ wanted ds rs scn) :
    br = ds.brName ∧ (scn = .vlanBridge → dev ∈ ds.brPorts.val) ∨
      scn = .vlanBridge ∧ dev = ds.vlanIfname ∧ br = ds.vlanBridge := by
  have haddr : addrReq ds ≠ some (.member dev br) := by
    simp only [addrReq, ne_eq, Option.ite_none_right_eq_some, not_and, Option.map_eq_some_iff]
    rintro - ⟨a, -, h⟩
    cases h
  have hgw : gatewayReq ds ≠ some (.member dev br) := by
    simp only [gatewayReq, ne_eq, Option.ite_none_left_eq_some, not_and, Option.map_eq_some_iff]
    rintro - ⟨a, -, h⟩
    cases h
  rw [wanted, requirements_eq hs] at h
  simp only [List.mem_append, routeReqs, List.mem_filterMap, routeReq_eq_some, reduceCtorEq,
    and_false, exists_false, or_false] at h
  rcases h with h | h
  · cases scn with
    | onlyUplink => exact absurd h (by simp [Scenario.reqs])
    | wgVxlanBridge => exact absurd rfl hscn
    | uplinkBridge =>
      simp only [Scenario.reqs, portReqs, List.mem_append, Option.mem_toList, List.mem_filterMap,
        memberReq_eq_some, haddr, hgw, false_or, Req.member.injEq] at h
      refine .inl ⟨?_, by simp⟩
      rcases h with ⟨-, -, h⟩ | ⟨_, -, -, -, h⟩ <;> exact h.symm
    | vlanBridge =>
      simp only [Scenario.reqs, portReqs, List.mem_append, Option.mem_toList, List.mem_filterMap,
        memberReq_eq_some, haddr, hgw, false_or, Req.member.injEq] at h
      obtain ⟨p, hp, -, rfl, rfl⟩ := h
      exact .inl ⟨rfl, fun _ => hp⟩
  · split at h
    · simp only [List.mem_singleton, Req.member.injEq] at h
      exact .inr ⟨by assumption, h.1, h.2⟩
    · simp at h

/-- A route to the destination of the gateway is not among the desired routes. -/
theorem gatewayReq_ne_routeReq (hkeys : (routeKeys ds).Nodup) {dst : UInt32} {plen : Int}
    {via via' : Option UInt32} {dev dev' : IfName} {rt : DesiredRoute4} (hrt : rt ∈ ds.routes.val)
    (h : gatewayReq ds = some (.route dst plen via dev)) :
    routeReq rt ≠ some (.route dst plen via' dev') := by
  intro h'
  obtain ⟨d, p, gw, hd, -, he⟩ := routeReq_eq_some.mp h'
  simp only [gatewayReq, Option.ite_none_left_eq_some, Option.map_eq_some_iff] at h
  obtain ⟨hne, _, -, hg⟩ := h
  cases hg
  cases he
  rw [routeKeys, if_neg hne, List.singleton_append, List.nodup_cons] at hkeys
  exact hkeys.1 (List.mem_filterMap.mpr ⟨rt, hrt, hd⟩)

/-- **The commands of a plan respect each other's requirements**: destinations are distinct, and the
VLAN is not also a port of another bridge. -/
theorem plan_respects (hs : Scenario.ofName ds.scenario = some scn) (hscn : scn ≠ .wgVxlanBridge)
    (hkeys : (routeKeys ds).Nodup)
    (hport : scn = .vlanBridge → ds.vlanBridge = ds.brName ∨ ds.vlanIfname ∉ ds.brPorts.val)
    {r : Req} (hr : r ∈ wanted ds rs scn) {c : Cmd} (hc : c ∈ plan ds rs) :
    c.Respects (.req r) := by
  cases r with
  | addr dev a plen => trivial
  | member dev br =>
    rintro br' rfl
    have hr' := mem_wanted_of_establishes hs hscn hc rfl
    rcases member_mem_wanted hs hscn hr with ⟨rfl, hp⟩ | ⟨hv, rfl, rfl⟩ <;>
      rcases member_mem_wanted hs hscn hr' with ⟨rfl, hp'⟩ | ⟨hv', hd, rfl⟩
    · rfl
    · exact (hport hv').resolve_right (not_not.mpr (hd ▸ hp hv'))
    · exact ((hport hv).resolve_right (not_not.mpr (hp' hv))).symm
    · rfl
  | route dst plen via dev =>
    intro via' dev' he
    have hr' := mem_wanted_of_establishes hs hscn hc he
    rcases route_mem_wanted hs hscn hr with h | ⟨rt, hrt, h⟩ <;>
      rcases route_mem_wanted hs hscn hr' with h' | ⟨rt', hrt', h'⟩
    · cases h.symm.trans h'
      exact ⟨rfl, rfl⟩
    · exact absurd h' (gatewayReq_ne_routeReq hkeys hrt' h)
    · exact absurd h (gatewayReq_ne_routeReq hkeys hrt h')
    · obtain ⟨d, p, gw, hd, hv, he₁⟩ := routeReq_eq_some.mp h
      obtain ⟨d', p', gw', hd', hv', he₂⟩ := routeReq_eq_some.mp h'
      cases he₁
      cases he₂
      cases inj_of_nodup_filterMap (List.nodup_append.mp hkeys).2.1 hrt hrt' hd hd'
      cases hv.symm.trans hv'
      exact ⟨rfl, rfl⟩

end Compatible

/-! ## Convergence -/

section Convergence

variable {ds : DesiredState} {rs : RealState} {scn : Scenario} {cs : List Cmd}

/-- The deletion of a device. -/
def Cmd.IsDel : Cmd → Bool
  | .linkDel _ => true
  | _ => false

/-- A plan without deletions and comments. -/
def Clean (cs : List Cmd) : Prop := ∀ c ∈ cs, ¬ c.IsComment ∧ c.IsDel = false

instance (cs : List Cmd) : Decidable (Clean cs) :=
  inferInstanceAs (Decidable (∀ c ∈ cs, _))

theorem Clean.mono {cs' : List Cmd} (h : Clean cs) (hsub : cs' ⊆ cs) : Clean cs' :=
  fun c hc => h c (hsub hc)

theorem isComment_comment {fmt : String} {args : List CStr} {s : CStr}
    (h : fmt.toList = '#' :: ' ' :: s) : (Cmd.comment fmt args).IsComment := by
  simp [Cmd.IsComment, Cmd.text, Cmd.render, h, sprintf]

theorem not_clean_comment {fmt : String} {args : List CStr} {s : CStr}
    (hf : fmt.toList = '#' :: ' ' :: s) : ¬ Clean [.comment fmt args] :=
  fun h => (h _ (List.mem_singleton_self _)).1 (isComment_comment hf)

theorem Clean.not_linkDel (h : Clean cs) {x : IfName} : .linkDel x ∉ cs :=
  fun hm => Bool.noConfusion (h _ hm).2

/-- The snapshot meets a goal or a command achieves it. -/
def Reached (rs : RealState) (cs : List Cmd) (g : Goal) : Prop :=
  g.Holds rs ∨ ∃ c ∈ cs, c.achieves = some g

theorem Reached.mono {cs' : List Cmd} {g : Goal} (h : Reached rs cs g) (hsub : cs ⊆ cs') :
    Reached rs cs' g :=
  h.imp_right fun ⟨c, hc, hg⟩ => ⟨c, hsub hc, hg⟩

theorem upActs_reached {name : IfName} (h : (rsFindIface rs name).isSome) :
    Reached rs (upActs rs name) (.up name) := by
  obtain ⟨i, hi⟩ := Option.isSome_iff_exists.mp h
  cases hu : i.isUp with
  | true => exact .inl ⟨i, hi, hu⟩
  | false => exact .inr ⟨.linkUp name, by simp [upActs, hi, hu], rfl⟩

theorem bridgeActs_reached (h : Clean (bridgeActs ds rs)) :
    Reached rs (bridgeActs ds rs) (.bridge ds.brName) ∧
      Reached rs (bridgeActs ds rs) (.up ds.brName) := by
  unfold bridgeActs at h ⊢
  cases hi : rsFindIface rs ds.brName with
  | none =>
    exact ⟨.inr ⟨.addBridge ds.brName, by simp, rfl⟩, .inr ⟨.linkUp ds.brName, by simp, rfl⟩⟩
  | some br =>
    cases hb : br.isBridge with
    | true =>
      have hup : Reached rs (upActs rs ds.brName) (.up ds.brName) := upActs_reached (by simp [hi])
      exact ⟨.inl ⟨br, hi, hb⟩, by simpa [hb] using hup⟩
    | false =>
      simp only [hi, hb] at h
      exact absurd (by simp) (@Clean.not_linkDel _ h ds.brName)

theorem uplinkActs_reached (h : Clean (uplinkActs ds rs)) :
    (rsFindIface rs ds.upIfname).isSome ∧ Reached rs (uplinkActs ds rs) (.up ds.upIfname) := by
  cases hi : rsFindIface rs ds.upIfname with
  | none =>
    simp only [uplinkActs, hi, Option.isNone_none, if_true] at h
    exact absurd h (not_clean_comment rfl)
  | some i =>
    refine ⟨rfl, (upActs_reached (by simp [hi])).mono ?_⟩
    simp [uplinkActs, hi]

theorem portActs_reached {name : IfName} (h : Clean (portActs ds rs name)) :
    (rsFindIface rs name).isSome ∧ Reached rs (portActs ds rs name) (.up name) := by
  cases hi : rsFindIface rs name with
  | none =>
    simp only [portActs, hi, Option.isNone_none, if_true] at h
    exact absurd h (not_clean_comment rfl)
  | some i =>
    refine ⟨rfl, (upActs_reached (by simp [hi])).mono ?_⟩
    simp [portActs, hi]

theorem req_reached {reqs : List Req} (h : cs.filterMap Cmd.establishes = unmet rs reqs) {r : Req}
    (hr : r ∈ reqs) : Reached rs cs (.req r) := by
  cases hh : r.holds rs with
  | true => exact .inl hh
  | false =>
    have hmem : r ∈ cs.filterMap Cmd.establishes := h ▸ mem_unmet.mpr ⟨hr, hh⟩
    obtain ⟨c, hc, he⟩ := List.mem_filterMap.mp hmem
    exact .inr ⟨c, hc, achieves_of_establishes he⟩

theorem vlanActs_reached
    (hvl : (rsFindVlan rs ds.vlanIfname).isSome → (rsFindIface rs ds.vlanIfname).isSome) :
    Reached rs (vlanActs ds rs) (.vlan ds.vlanIfname ds.vlanId ds.vlanLink) ∧
      Reached rs (vlanActs ds rs) (.up ds.vlanIfname) ∧
      Reached rs (vlanActs ds rs) (.req (.member ds.vlanIfname ds.vlanBridge)) := by
  unfold vlanActs
  cases hk : vlanKept ds rs with
  | true =>
    simp only [vlanKept, Option.any_eq_true, Bool.and_eq_true, decide_eq_true_eq] at hk
    obtain ⟨vl, hvl', hid, link, hlink, he⟩ := hk
    have hi : (rsFindIface rs ds.vlanIfname).isSome := hvl (by simp [hvl'])
    refine ⟨.inl ⟨vl, link, hvl', hid, hlink, he⟩,
      (upActs_reached hi).mono (List.subset_append_left _ _), ?_⟩
    refine (req_reached masterActs_establishes ?_).mono (List.subset_append_right _ _)
    simp [memberReq, hi]
  | false =>
    simp only [Bool.false_eq_true, if_false]
    refine ⟨.inr ⟨.addVlan ds.vlanLink ds.vlanIfname ds.vlanId, by simp [recreate], rfl⟩,
      .inr ⟨.linkUp ds.vlanIfname, by simp [recreate], rfl⟩,
      .inr ⟨.setMaster ds.vlanIfname ds.vlanBridge, by simp [recreate], rfl⟩⟩

theorem addrActs_clean (h : Clean (addrActs ds rs)) (hm : ds.brAddrMode = .static) :
    ∃ a plen, parseAddrPrefix ds.brAddr = some (a, plen) := by
  cases hp : parseAddrPrefix ds.brAddr with
  | none =>
    simp only [addrActs, hm, hp] at h
    exact absurd h (not_clean_comment rfl)
  | some a => exact ⟨a.1, a.2, rfl⟩

theorem gatewayActs_clean (h : Clean (gatewayActs ds rs)) (hne : ds.brGateway.val ≠ []) :
    ∃ gw, parseIp4 ds.brGateway = some gw := by
  cases hp : parseIp4 ds.brGateway with
  | none =>
    simp only [gatewayActs, if_neg hne, hp] at h
    exact absurd h (not_clean_comment rfl)
  | some gw => exact ⟨gw, rfl⟩

theorem dnsActs_clean {dns : AddrStr} (h : Clean (dnsActs ds rs dns)) :
    ∃ addr, parseIp4 dns = some addr ∧ addr ∈ rs.dns4 := by
  cases hp : parseIp4 dns with
  | none =>
    simp only [dnsActs, hp] at h
    exact absurd h (not_clean_comment rfl)
  | some addr =>
    by_cases he : rsDns4Exists rs addr
    · exact ⟨addr, rfl, rsDns4Exists_iff.mp he⟩
    · simp only [dnsActs, hp, he] at h
      exact absurd h (not_clean_comment rfl)

theorem routeActs_clean {rt : DesiredRoute4} (h : Clean (routeActs rs rt)) :
    ∃ r, routeReq rt = some r := by
  cases hp : parseAddrPrefix rt.dst with
  | none =>
    simp only [routeActs, hp] at h
    exact absurd h (not_clean_comment rfl)
  | some d =>
    cases hv : parseVia rt with
    | none =>
      simp only [routeActs, hp, hv] at h
      exact absurd h (not_clean_comment rfl)
    | some via => simp [routeReq, hp, hv]

theorem runs_dns {k k' : Kernel} (h : Kernel.Runs cs k k') : k'.dns = k.dns := by
  induction h with
  | nil k => rfl
  | cons idx hexec _ ih => exact ih.trans (exec_step hexec).dns

/-- Executing the plan of a state, from a snapshot from which it is clean. -/
structure Applied (ds : DesiredState) (scn : Scenario) (k k' : Kernel) : Prop where
  scenario : Scenario.ofName ds.scenario = some scn
  noWg : scn ≠ .wgVxlanBridge
  mode : ds.brAddrMode ≠ .dhcp
  keys : (routeKeys ds).Nodup
  port : scn = .vlanBridge → ds.vlanBridge = ds.brName ∨ ds.vlanIfname ∉ ds.brPorts.val
  clean : Clean (plan ds k.snapshot)
  runs : Kernel.Runs (plan ds k.snapshot) k k'

namespace Applied

variable {k k' : Kernel}

/-- A goal other than a requirement is met in the end. -/
theorem goal (h : Applied ds scn k k') {g : Goal} (hg : Reached k.snapshot (plan ds k.snapshot) g)
    (hr : ∀ c : Cmd, c.Respects g) : g.Holds k'.snapshot :=
  runs_goal h.runs (fun c _ => hr c) hg

/-- A requirement is met in the end. -/
theorem req (h : Applied ds scn k k') {r : Req} (hr : r ∈ wanted ds k.snapshot scn)
    (hg : Reached k.snapshot (plan ds k.snapshot) (.req r)) : r.holds k'.snapshot = true :=
  runs_goal h.runs
    (fun _ hc => plan_respects h.scenario h.noWg h.keys h.port hr hc) hg

theorem requirement (h : Applied ds scn k k') {r : Req} (hr : r ∈ requirements ds k.snapshot) :
    r.holds k'.snapshot = true := by
  refine h.req (List.mem_append_left _ hr) ?_
  cases hh : r.holds k.snapshot with
  | true => exact .inl hh
  | false =>
    rw [requirements_eq h.scenario, List.mem_append] at hr
    have hmem : r ∈ (plan ds k.snapshot).filterMap Cmd.establishes := by
      rw [plan_establishes h.scenario, List.mem_append, List.mem_append, mem_unmet, mem_unmet]
      exact hr.elim (fun hr => .inl ⟨hr, hh⟩) fun hr => .inr (.inr ⟨hr, hh⟩)
    obtain ⟨c, hc, he⟩ := List.mem_filterMap.mp hmem
    exact .inr ⟨c, hc, achieves_of_establishes he⟩

theorem acts_subset (h : Applied ds scn k k') : scn.acts ds k.snapshot ⊆ plan ds k.snapshot := by
  rw [plan_eq h.scenario]
  exact List.subset_append_left _ _

theorem routeOk (h : Applied ds scn k k') {rt : DesiredRoute4} (hrt : rt ∈ ds.routes.val) :
    RouteOk k'.snapshot rt := by
  have hsub : routeActs k.snapshot rt ⊆ plan ds k.snapshot := by
    intro c hc
    rw [plan_eq h.scenario]
    exact List.mem_append_right _ (List.mem_flatMap.mpr ⟨rt, hrt, hc⟩)
  obtain ⟨r, hr⟩ := routeActs_clean (h.clean.mono hsub)
  obtain ⟨dst, plen, gw, hd, hv, rfl⟩ := routeReq_eq_some.mp hr
  have hreq : .route dst plen (if rt.hasVia then some gw else none) rt.dev ∈
      requirements ds k.snapshot := by
    rw [requirements_eq h.scenario]
    exact List.mem_append_right _ (List.mem_filterMap.mpr ⟨rt, hrt, hr⟩)
  have hroute := (Req.holds_route k'.posIndexes_snapshot).mp (h.requirement hreq)
  refine ⟨dst, plen, hd, ?_⟩
  unfold parseVia at hv
  cases hg : rt.hasVia with
  | false => simpa [hg] using hroute
  | true =>
    rw [hg, if_pos rfl] at hv hroute
    exact ⟨gw, hv, hroute⟩

/-- A bridge scenario leaves its bridge as it is described. -/
theorem bridgeOk (h : Applied ds scn k k') (hscn : scn ≠ .onlyUplink) :
    BridgeOk ds k'.snapshot := by
  have hpart : bridgePart ds k.snapshot ⊆ plan ds k.snapshot := by
    refine List.Subset.trans ?_ h.acts_subset
    cases scn with
    | onlyUplink => exact absurd rfl hscn
    | wgVxlanBridge => exact absurd rfl h.noWg
    | uplinkBridge => exact List.subset_append_left _ _
    | vlanBridge => exact List.subset_append_left _ _
  have hports : ∀ p ∈ ds.brPorts.val, portActs ds k.snapshot p ⊆ plan ds k.snapshot := by
    intro p hp c hc
    have hmem : c ∈ ds.brPorts.val.flatMap (portActs ds k.snapshot) :=
      List.mem_flatMap.mpr ⟨p, hp, hc⟩
    refine h.acts_subset ?_
    cases scn with
    | onlyUplink => exact absurd rfl hscn
    | wgVxlanBridge => exact absurd rfl h.noWg
    | uplinkBridge => simp only [Scenario.acts, List.mem_append, hmem, or_true]
    | vlanBridge => simp only [Scenario.acts, List.mem_append, hmem, true_or, or_true]
  have hreqs : ∀ r, addrReq ds = some r ∨ gatewayReq ds = some r ∨ r ∈ portReqs ds k.snapshot →
      r.holds k'.snapshot = true := by
    intro r hr
    refine h.requirement ?_
    rw [requirements_eq h.scenario]
    refine List.mem_append_left _ ?_
    cases scn with
    | onlyUplink => exact absurd rfl hscn
    | wgVxlanBridge => exact absurd rfl h.noWg
    | uplinkBridge =>
      simp only [Scenario.reqs, List.mem_append, Option.mem_toList]
      tauto
    | vlanBridge =>
      simp only [Scenario.reqs, List.mem_append, Option.mem_toList]
      tauto
  have hclean := h.clean.mono hpart
  have hbr := bridgeActs_reached (hclean.mono (List.subset_append_left _ _))
  have hsub : bridgeActs ds k.snapshot ⊆ plan ds k.snapshot :=
    List.Subset.trans (List.subset_append_left _ _) hpart
  refine ⟨?_, fun hm => ?_, fun hm => absurd hm h.mode, fun hne => ?_, fun d hd => ?_,
    fun p hp => ?_⟩
  · obtain ⟨br, hf, hb⟩ := h.goal (hbr.1.mono hsub) fun _ => trivial
    obtain ⟨br', hf', hu⟩ := h.goal (hbr.2.mono hsub) fun _ => trivial
    cases hf.symm.trans hf'
    exact ⟨br, hf, hb, hu⟩
  · have haddr : addrActs ds k.snapshot ⊆ bridgePart ds k.snapshot := by simp [bridgePart]
    obtain ⟨a, plen, hp⟩ := addrActs_clean (hclean.mono haddr) hm
    refine ⟨a, plen, hp, hasAddr_iff.mp (hreqs (.addr ds.brName a plen) (.inl ?_))⟩
    simp [addrReq, hm, hp]
  · have hgw : gatewayActs ds k.snapshot ⊆ bridgePart ds k.snapshot := by
      intro c hc
      simp only [bridgePart, List.mem_append, hc, true_or, or_true]
    obtain ⟨gw, hp⟩ := gatewayActs_clean (hclean.mono hgw) hne
    refine ⟨gw, hp, (Req.holds_route k'.posIndexes_snapshot).mp (hreqs _ (.inr (.inl ?_)))⟩
    simp [gatewayReq, hne, hp]
  · have hdns : dnsActs ds k.snapshot d ⊆ bridgePart ds k.snapshot := by
      intro c hc
      have hmem : c ∈ ds.brDns.val.flatMap (dnsActs ds k.snapshot) :=
        List.mem_flatMap.mpr ⟨d, hd, hc⟩
      simp only [bridgePart, List.mem_append, hmem, or_true]
    obtain ⟨addr, hp, hmem⟩ := dnsActs_clean (hclean.mono hdns)
    refine ⟨addr, hp, ?_⟩
    have hdns' : k'.snapshot.dns4 = k.snapshot.dns4 := runs_dns h.runs
    rwa [hdns']
  · obtain ⟨hi, hup⟩ := portActs_reached (h.clean.mono (hports p hp))
    refine ⟨h.goal (hup.mono (hports p hp)) fun _ => trivial, Req.holds_member.mp (hreqs _ ?_)⟩
    exact .inr (.inr (List.mem_filterMap.mpr ⟨p, hp, by simp [memberReq, hi]⟩))

theorem uplink (h : Applied ds scn k k') (hsub : uplinkActs ds k.snapshot ⊆ scn.acts ds k.snapshot) :
    (rsFindIface k.snapshot ds.upIfname).isSome ∧ IsUp k'.snapshot ds.upIfname := by
  have hsub' := List.Subset.trans hsub h.acts_subset
  obtain ⟨hi, hup⟩ := uplinkActs_reached (h.clean.mono hsub')
  exact ⟨hi, h.goal (hup.mono hsub') fun _ => trivial⟩

end Applied

/-- **One apply converges**: when the plan of a state without WireGuard and DHCP needs no deletion
and no manual step, and all its commands succeed, the verifier finds no difference afterwards. -/
theorem plan_converges {k k' : Kernel} (h : Applied ds scn k k') (actFail : Bool) (sys : Sys) :
    (verifyState ds k'.snapshot false actFail sys).1 = 0 := by
  rw [verifyState_fst h.scenario, Int.natCast_eq_zero,
    verifyScenario_value_eq_zero k'.posIndexes_snapshot]
  refine ⟨?_, fun rt hrt => h.routeOk hrt⟩
  cases scn with
  | onlyUplink => exact (h.uplink (List.Subset.refl _)).2
  | wgVxlanBridge => exact absurd rfl h.noWg
  | uplinkBridge =>
    obtain ⟨hi, hup⟩ := h.uplink (by simp [Scenario.acts])
    refine ⟨h.bridgeOk (by simp), hup, Req.holds_member.mp (h.requirement ?_)⟩
    rw [requirements_eq h.scenario]
    simp [Scenario.reqs, memberReq, hi]
  | vlanBridge =>
    have hup : uplinkActs ds k.snapshot ⊆ Scenario.acts ds k.snapshot .vlanBridge := by
      intro c hc
      simp only [Scenario.acts, List.mem_append, hc, true_or, or_true]
    have hvlan : vlanActs ds k.snapshot ⊆ plan ds k.snapshot := by
      refine List.Subset.trans ?_ h.acts_subset
      intro c hc
      simp only [Scenario.acts, List.mem_append, hc, or_true]
    have htable : (rsFindVlan k.snapshot ds.vlanIfname).isSome →
        (rsFindIface k.snapshot ds.vlanIfname).isSome := by
      rw [Kernel.snapshot_findVlan, Kernel.snapshot_find]
      cases k.find? ds.vlanIfname <;> simp
    obtain ⟨hattrs, hvup, hmem⟩ := vlanActs_reached htable
    have hwanted : .member ds.vlanIfname ds.vlanBridge ∈ wanted ds k.snapshot .vlanBridge :=
      List.mem_append_right _ (by simp)
    refine ⟨h.bridgeOk (by simp), (h.uplink hup).2, ?_, ?_, ?_⟩
    · exact h.goal (hattrs.mono hvlan) fun _ => trivial
    · exact h.goal (hvup.mono hvlan) fun _ => trivial
    · exact Req.holds_member.mp (h.req hwanted (hmem.mono hvlan))

end Convergence

/-- Executing a list of commands, with the indexes of new links. -/
def Kernel.execAll (k : Kernel) : List Cmd → List Int → Option Kernel
  | [], _ => some k
  | c :: cs, idxs => do
    let k₁ ← k.exec (idxs.headD 0) c
    k₁.execAll cs idxs.tail

theorem Kernel.runs_of_execAll {cs : List Cmd} {idxs : List Int} {k k' : Kernel}
    (h : k.execAll cs idxs = some k') : Kernel.Runs cs k k' := by
  induction cs generalizing idxs k with
  | nil =>
    cases h
    exact .nil _
  | cons c cs ih =>
    simp only [execAll, Option.bind_eq_bind, Option.bind_eq_some_iff] at h
    obtain ⟨k₁, hexec, h⟩ := h
    exact .cons _ hexec (ih h)

/-- A kernel with only the uplink of `vlanState`, which is down. -/
def uplinkKernel : Kernel where
  links := [Kernel.newLink (cpy _ "eth0".toList) "" 2 none .other]
  addrs := []
  routes := []
  dns := []
  names := by decide
  indexes := by decide
  pos := by decide

theorem uplinkKernel_converges : ∃ k',
    Kernel.Runs (plan vlanState uplinkKernel.snapshot) uplinkKernel k' ∧
      (verifyState vlanState k'.snapshot false false (.exiting 0)).1 = 0 := by
  have hsome : (uplinkKernel.execAll (plan vlanState uplinkKernel.snapshot)
      [3, 0, 0, 0, 4]).isSome := by decide +kernel
  obtain ⟨k', hk'⟩ := Option.isSome_iff_exists.mp hsome
  have hruns := Kernel.runs_of_execAll hk'
  have happ : Applied vlanState .vlanBridge uplinkKernel k' :=
    ⟨by decide, by decide, by decide, by decide, by decide, by decide +kernel, hruns⟩
  exact ⟨k', hruns, plan_converges happ false _⟩

/-- A VLAN that is a port of one bridge and belongs into another. -/
def twoMasters : DesiredState :=
  { vlanState with
    brAddrMode := .none
    brAddr := .empty
    brPorts := ⟨[cpy _ "eth0.5".toList], by decide⟩
    vlanBridge := cpy _ "br1".toList }

/-- A kernel with both bridges and the VLAN in the second one. -/
def twoMastersKernel : Kernel where
  links := [
    { Kernel.newLink (cpy _ "eth0".toList) "" 2 none .other with flags := 1 },
    { Kernel.newLink (cpy _ "br0".toList) "bridge" 3 none .other with flags := 1 },
    { Kernel.newLink (cpy _ "br1".toList) "bridge" 4 none .other with flags := 1 },
    { Kernel.newLink (cpy _ "eth0.5".toList) "vlan" 5 (some 2) (.vlan (some 5)) with
      flags := 1, master := 4 }]
  addrs := []
  routes := []
  dns := []
  names := by decide
  indexes := by decide
  pos := by decide

theorem twoMasters_not_converging : ∃ k', Clean (plan twoMasters twoMastersKernel.snapshot) ∧
    Kernel.Runs (plan twoMasters twoMastersKernel.snapshot) twoMastersKernel k' ∧
      Scenario.ofName twoMasters.scenario = some .vlanBridge ∧ (routeKeys twoMasters).Nodup ∧
      (verifyState twoMasters k'.snapshot false false (.exiting 0)).1 = 1 := by
  have h : ((twoMastersKernel.execAll (plan twoMasters twoMastersKernel.snapshot) []).map fun k' =>
      (verifyState twoMasters k'.snapshot false false (.exiting 0)).1) = some 1 := by
    decide +kernel
  obtain ⟨k', hk', hdiff⟩ := Option.map_eq_some_iff.mp h
  exact ⟨k', by decide +kernel, Kernel.runs_of_execAll hk', by decide, by decide, hdiff⟩

end Netrec
