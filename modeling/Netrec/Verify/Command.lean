import Netrec.State

/-!
# Commands and verifier computations

A repair command is one of the templates of the verifier with its fields. `act` prints it and,
when changes are to be applied, splits it into words and executes it; what the executed child
does is a parameter, one outcome for each child in order. The checks of the verifier never read
the context they run in. `Verify` makes that explicit: a verifier computation is a function of the
context together with the events it produces, and running it is replaying these events.

## Main definitions

* `Cmd`, `Cmd.render`: repair commands and their text
* `cmdSplit`, `cmdExec`: splitting a command into `argv` and executing it
* `Sys`, `VCtx`: the process's surroundings and `struct vctx`
* `act`: printing and executing one command
* `Verify`: verifier computations, with their value and their events
* `sumDiff`: a loop that adds up differences

## Main results

* `Verify.run_eq`: running a verifier computation is replaying its events
* `sumDiff_value`, `sumDiff_acts`: the differences and commands of a loop
-/

namespace Netrec

open CLib

/-! ## Commands -/

/-- The commands `act` is called with, one constructor for each template. -/
inductive Cmd
  | linkUp (dev : IfName)
  | linkDel (dev : IfName)
  | addBridge (dev : IfName)
  | addWireguard (dev : IfName)
  | addVxlan (dev : IfName) (vni : UInt32) (remote : AddrStr) (parent : Option IfName)
  | addVlan (link dev : IfName) (id : UInt32)
  | setMaster (dev br : IfName)
  | addrAdd (addr : CBuf 32) (dev : IfName)
  | routeReplace (dst : CStr) (via : Option AddrStr) (dev : IfName)
  | dhcp (dev : IfName) (text : CStr)
  | comment (fmt : String) (args : List CStr)
  deriving DecidableEq

/-- The text of a command before it is cut to the buffer. -/
def Cmd.render : Cmd → CStr
  | linkUp dev => sprintf "ip link set %s up".toList [dev]
  | linkDel dev => sprintf "ip link del %s".toList [dev]
  | addBridge dev => sprintf "ip link add %s type bridge".toList [dev]
  | addWireguard dev => sprintf "ip link add %s type wireguard".toList [dev]
  | addVxlan dev vni remote (some parent) =>
    sprintf "ip link add %s type vxlan id %u remote %s dev %s".toList
      [dev, dec vni.toNat, remote, parent]
  | addVxlan dev vni remote none =>
    sprintf "ip link add %s type vxlan id %u remote %s".toList [dev, dec vni.toNat, remote]
  | addVlan link dev id =>
    sprintf "ip link add link %s name %s type vlan id %u".toList [link, dev, dec id.toNat]
  | setMaster dev br => sprintf "ip link set %s master %s".toList [dev, br]
  | addrAdd addr dev => sprintf "ip addr add %s dev %s".toList [addr, dev]
  | routeReplace dst (some via) dev =>
    sprintf "ip route replace %s via %s dev %s".toList [dst, via, dev]
  | routeReplace dst none dev => sprintf "ip route replace %s dev %s".toList [dst, dev]
  | dhcp _ text => text
  | comment fmt args => sprintf fmt.toList args

/-- `cmd_split`: the blank-separated words, fewer than `max` of them. -/
def cmdSplit (max : Nat) (cmd : CStr) : Except Errno (List CStr) :=
  if (words cmd).length + 1 > max then .error .E2BIG else .ok (words cmd)

/-- How the child of a call of `fork` ends, or why there is none. -/
inductive Child
  | forkError (e : Errno)
  | waitError (e : Errno)
  | exited (code : UInt8)
  | signaled (sig : Nat)
  | other
  deriving DecidableEq

/-- The value `cmd_exec` returns for a child. -/
def Child.rc : Child → Int
  | forkError e => -e.code
  | waitError e => -e.code
  | exited code => code.toNat
  | signaled sig => 128 + sig
  | other => -Errno.EIO.code

/-- A line on standard output. -/
inductive Line
  | ok (text : CStr)
  | miss (text : CStr)
  | act (c : Cmd)
  | applyFail (rc : Int) (cmd : CStr)
  | applyOk (cmd : CStr)
  | postVerify
  deriving DecidableEq

/-- What the verifier shares with the rest of the process: the outcome of the `n`-th call of `fork`,
the argument vectors for which `fork` has been called so far, whether or not it gave a child, and
standard output. -/
structure Sys where
  children : Nat → Child
  forks : List (List CStr)
  out : List Line

/-- `printf` of one line. -/
def Sys.print (sys : Sys) (l : Line) : Sys := { sys with out := sys.out ++ [l] }

/-- `cmd_exec`. -/
def cmdExec (cmd : CStr) (sys : Sys) : Int × Sys :=
  if cmd.head? = some '#' then (0, sys)
  else
    match cmdSplit 32 (cmd.take 255) with
    | .error e => (-e.code, sys)
    | .ok [] => (-Errno.EINVAL.code, sys)
    | .ok argv =>
      ((sys.children sys.forks.length).rc, { sys with forks := sys.forks ++ [argv] })

/-- `struct vctx`, and the surroundings. -/
structure VCtx where
  apply : Bool
  actFail : Bool
  sys : Sys

/-- `printf` of one line. -/
def VCtx.print (ctx : VCtx) (l : Line) : VCtx := { ctx with sys := ctx.sys.print l }

/-- The text `act` prints and executes: the command cut to `char cmd[256]`. -/
def Cmd.text (c : Cmd) : CStr := c.render.take 255

/-- A comment: printed, never executed. -/
def Cmd.IsComment (c : Cmd) : Prop := c.text.head? = some '#'

instance (c : Cmd) : Decidable c.IsComment := inferInstanceAs (Decidable (_ = _))

/-- `act`: the command is always printed, and executed only when changes are to be applied. -/
def VCtx.act (ctx : VCtx) (c : Cmd) : VCtx :=
  let ctx := ctx.print (.act c)
  if !ctx.apply ∨ c.IsComment then ctx
  else
    let (rc, sys) := cmdExec c.text ctx.sys
    if rc ≠ 0 then { ctx with actFail := true, sys := sys.print (.applyFail rc c.text) }
    else { ctx with sys := sys.print (.applyOk c.text) }

/-! ## Verifier computations -/

/-- What a check does to its context. -/
inductive Event
  | ok (text : CStr)
  | miss (text : CStr)
  | act (c : Cmd)
  deriving DecidableEq

/-- The effect of one event. -/
def Event.run : Event → VCtx → VCtx
  | ok text, ctx => ctx.print (.ok text)
  | miss text, ctx => ctx.print (.miss text)
  | act c, ctx => ctx.act c

/-- The effects of a list of events, in order. -/
def replay (log : List Event) (ctx : VCtx) : VCtx := log.foldl (fun ctx e => e.run ctx) ctx

@[simp] theorem replay_nil (ctx : VCtx) : replay [] ctx = ctx := rfl

@[simp] theorem replay_cons (e : Event) (log : List Event) (ctx : VCtx) :
    replay (e :: log) ctx = replay log (e.run ctx) := rfl

theorem replay_append (log log' : List Event) (ctx : VCtx) :
    replay (log ++ log') ctx = replay log' (replay log ctx) :=
  List.foldl_append

/-- A verifier computation: what it does in a context, with the value it returns and the events it
produces there, which are the same in every context. -/
structure Verify (α : Type) where
  run : VCtx → α × VCtx
  value : α
  log : List Event
  run_eq : ∀ ctx, run ctx = (value, replay log ctx)

namespace Verify

variable {α β : Type}

instance : Monad Verify where
  pure a := ⟨fun ctx => (a, ctx), a, [], fun _ => rfl⟩
  bind m f :=
    { run := fun ctx =>
        let (a, ctx) := m.run ctx
        (f a).run ctx
      value := (f m.value).value
      log := m.log ++ (f m.value).log
      run_eq := fun ctx => by simp only [m.run_eq, (f m.value).run_eq, replay_append] }

@[simp ↓] theorem value_pure (a : α) : (pure a : Verify α).value = a := rfl

@[simp ↓] theorem log_pure (a : α) : (pure a : Verify α).log = [] := rfl

@[simp ↓] theorem value_bind (m : Verify α) (f : α → Verify β) :
    (m >>= f).value = (f m.value).value := rfl

@[simp ↓] theorem log_bind (m : Verify α) (f : α → Verify β) :
    (m >>= f).log = m.log ++ (f m.value).log := rfl

/-- The commands of a computation, in the order in which it emits them. -/
def acts (m : Verify α) : List Cmd :=
  m.log.filterMap fun
    | .act c => some c
    | _ => none

@[simp ↓] theorem acts_pure (a : α) : (pure a : Verify α).acts = [] := rfl

@[simp ↓] theorem acts_bind (m : Verify α) (f : α → Verify β) :
    (m >>= f).acts = m.acts ++ (f m.value).acts := by
  simp [acts]

@[simp ↓] theorem value_ite (c : Prop) [Decidable c] (m m' : Verify α) :
    (if c then m else m').value = if c then m.value else m'.value :=
  apply_ite value c m m'

@[simp ↓] theorem acts_ite (c : Prop) [Decidable c] (m m' : Verify α) :
    (if c then m else m').acts = if c then m.acts else m'.acts :=
  apply_ite acts c m m'

end Verify

/-- `ok(fmt, ...)`. -/
def ok (fmt : String) (args : List CStr) : Verify Unit where
  run ctx := ((), ctx.print (.ok (sprintf fmt.toList args)))
  value := ()
  log := [.ok (sprintf fmt.toList args)]
  run_eq _ := rfl

/-- `miss(fmt, ...)`. -/
def miss (fmt : String) (args : List CStr) : Verify Unit where
  run ctx := ((), ctx.print (.miss (sprintf fmt.toList args)))
  value := ()
  log := [.miss (sprintf fmt.toList args)]
  run_eq _ := rfl

/-- `act(ctx, fmt, ...)`. -/
def act (c : Cmd) : Verify Unit where
  run ctx := ((), ctx.act c)
  value := ()
  log := [.act c]
  run_eq _ := rfl

@[simp ↓] theorem acts_ok (fmt : String) (args : List CStr) : (ok fmt args).acts = [] := rfl

@[simp ↓] theorem acts_miss (fmt : String) (args : List CStr) : (miss fmt args).acts = [] := rfl

@[simp ↓] theorem acts_act (c : Cmd) : (act c).acts = [c] := rfl

/-- `for (...) diff += f(...)`. -/
def sumDiff {α : Type} (f : α → Verify Nat) : List α → Verify Nat
  | [] => pure 0
  | a :: as => do
    let d ← f a
    let r ← sumDiff f as
    return d + r

theorem sumDiff_value {α : Type} (f : α → Verify Nat) (as : List α) :
    (sumDiff f as).value = (as.map fun a => (f a).value).sum := by
  induction as with
  | nil => rfl
  | cons a as ih => simp [sumDiff, ih]

theorem sumDiff_value_eq_zero {α : Type} {f : α → Verify Nat} {as : List α} :
    (sumDiff f as).value = 0 ↔ ∀ a ∈ as, (f a).value = 0 := by
  simp [sumDiff_value, List.sum_eq_zero_iff]

@[simp] theorem sumDiff_acts {α : Type} (f : α → Verify Nat) (as : List α) :
    (sumDiff f as).acts = as.flatMap fun a => (f a).acts := by
  induction as with
  | nil => rfl
  | cons a as ih => simp [sumDiff, ih]

end Netrec
