import Supex.Lib.Custody
import Supex.Lib.Decimal
import Supex.Lib.Run
import Supex.Linkup.Queue

/-!
# The pools of `lredis_pool_api.lua`

`OWN_REDIS_POOLS` has the members of each redis by name, `OWN_SKTCT_POOLS` a queue of open
connections for each address. A command takes a connection of its address out of the queue
or makes a new one, and puts it back when it is done. Coroutines switch only while a command
waits for its reply, so the steps of the model go from one such moment to the next.

A connection is the number of the attempt that made it; `Env.up` says which attempts succeed.
-/

namespace Supex.Linkup

open Supex.Lib
open Function (update)

--
-- Data
--

def MAX_RECNT : Nat := 2

def MAX_SAME_SOCK : Nat := 64

/-- A member of a pool. -/
structure Memb where
  mode : Bytes
  mark : Bytes
  host : Bytes
  port : Nat
  vnode : Nat
  deriving DecidableEq

/-- `host:port`. -/
def Memb.addr (memb : Memb) : Bytes := memb.host ++ 58 :: fmtU64 memb.port

inductive Strategy where
  | customer
  | consistent
  | appoint
  | other
  deriving DecidableEq

/-- An entry of `APP_LINK_REDIS_LIST`. -/
structure PoolConf where
  hash : Strategy
  host : Bytes
  port : Nat
  list : List Memb
  deriving DecidableEq

/-- An entry of `OWN_REDIS_POOLS`: the `hash` function, the members by index, the nodes of
the hash ring with their indices, and the members by mark. -/
structure Save where
  hash : Option Strategy
  list : List Memb
  root : List (Bytes × Nat)
  nodes : List (Bytes × Nat)
  marks : List (Bytes × Memb)
  deriving DecidableEq

def Save.empty : Save where
  hash := none
  list := []
  root := []
  nodes := []
  marks := []

/-- A running command: what is left of its rounds and of the calls behind it. -/
structure Cmd where
  memb : Memb
  sock : Nat
  rounds : Nat
  rest : Nat
  deriving DecidableEq

structure Pool where
  lists : Bytes → Option PoolConf
  pools : Bytes → Option Save
  skts : Bytes → Option Queue
  running : Nat → Option Cmd
  /-- the attempts to connect -/
  tries : Nat
  isOpen : Nat → Bool

/-- What is outside of the code. -/
structure Env where
  up : Nat → Bool
  customHash : Bytes → Nat → Int
  conhash : List (Bytes × Nat) → Bytes → Option Bytes

def Pool.init (lists : Bytes → Option PoolConf) : Pool where
  lists := lists
  pools _ := none
  skts _ := none
  running _ := none
  tries := 0
  isOpen _ := false

--
-- Connections
--

variable (env : Env)

def Pool.newConnect (s : Pool) : Option Nat × Pool :=
  if env.up s.tries then
    (some s.tries, { s with
      tries := s.tries + 1
      isOpen := update s.isOpen s.tries true })
  else (none, { s with tries := s.tries + 1 })

def Pool.close (s : Pool) (sock : Nat) : Pool :=
  { s with isOpen := update s.isOpen sock false }

/-- `queue:push(sock)`; what it returns is not looked at. -/
def Pool.push (s : Pool) (addr : Bytes) (sock : Nat) : Pool :=
  match s.skts addr with
  | none => s
  | some queue => { s with skts := update s.skts addr (some (queue.push sock).2) }

/-- `queue:pull()`. -/
def Pool.pull (s : Pool) (addr : Bytes) : Option Nat × Pool :=
  match s.skts addr with
  | none => (none, s)
  | some queue =>
    (queue.pull.1, { s with skts := update s.skts addr (some queue.pull.2) })

--
-- `init`
--

/-- The queue of an address, made if there is none. -/
def Pool.ensure (s : Pool) (addr : Bytes) : Pool :=
  match s.skts addr with
  | some _ => s
  | none => { s with skts := update s.skts addr (some (Queue.new MAX_SAME_SOCK)) }

/-- What `init` does for each member: a connection is made, put into the queue, and the
first one of the queue is closed. -/
def Pool.probe (s : Pool) (addr : Bytes) : Pool :=
  match (s.ensure addr).newConnect env with
  | (none, s) => s
  | (some sock, s) =>
    match (s.push addr sock).pull addr with
    | (none, s) => s
    | (some sock, s) => s.close sock

def Pool.setPool (s : Pool) (name : Bytes) (save : Save) : Pool :=
  { s with pools := update s.pools name (some save) }

/-- The members of a list with `customer` strategy. -/
def Pool.initCustomer (name : Bytes) : Save → List Memb → Pool → Pool
  | _, [], s => s
  | save, memb :: list, s =>
    let save := { save with list := save.list ++ [memb] }
    Pool.initCustomer name save list ((s.probe env memb.addr).setPool name save)

/-- The members of a list with `consistent` strategy; they are nodes of a hash ring. -/
def Pool.initConsistent (name : Bytes) : Save → List Memb → Pool → Pool
  | _, [], s => s
  | save, memb :: list, s =>
    let save := { save with
      list := save.list ++ [memb]
      root := save.root ++ [(memb.addr, memb.vnode)]
      nodes := (memb.addr, save.list.length) :: save.nodes }
    Pool.initConsistent name save list ((s.probe env memb.addr).setPool name save)

/-- The mark is a key of the table. -/
def Save.marked (save : Save) (mark : Bytes) : Bool :=
  mark = ascii "hash" || save.marks.any (·.1 = mark)

/-- The members of a list with `appoint` strategy; a mark that is there raises. -/
def Pool.initAppoint (name : Bytes) : Save → List Memb → Pool → Bool × Pool
  | _, [], s => (true, s)
  | save, memb :: list, s =>
    if save.marked memb.mark then (false, s)
    else
      let save := { save with marks := save.marks ++ [(memb.mark, memb)] }
      Pool.initAppoint name save list ((s.probe env memb.addr).setPool name save)

/-- The member of a list without members. -/
def PoolConf.single (list : PoolConf) : Memb where
  mode := ascii "M"
  mark := []
  host := list.host
  port := list.port
  vnode := 0

/-- The body of the loop of `init`; it returns whether it goes on. -/
def Pool.initPool (s : Pool) (name : Bytes) (list : PoolConf) : Bool × Pool :=
  let s := s.setPool name .empty
  if list.list = [] then
    (true, (s.probe env list.single.addr).setPool name { Save.empty with list := [list.single] })
  else
    match list.hash with
    | .customer =>
      let save := { Save.empty with hash := some .customer }
      (true, Pool.initCustomer env name save list.list (s.setPool name save))
    | .consistent =>
      let save := { Save.empty with hash := some .consistent }
      (true, Pool.initConsistent env name save list.list (s.setPool name save))
    | .appoint =>
      let save := { Save.empty with hash := some .appoint }
      Pool.initAppoint env name save list.list (s.setPool name save)
    | .other => (false, s)

/-- `init`; `order` is the order in which `pairs` returns the names. -/
def Pool.initAll : List Bytes → Pool → Pool
  | [], s => s
  | name :: order, s =>
    match s.lists name with
    | none => Pool.initAll order s
    | some list =>
      match s.initPool env name list with
      | (true, s) => Pool.initAll order s
      | (false, s) => s

--
-- `add_to_pool` and `del_from_pool`
--

def Pool.addToPool (s : Pool) (redname host : Bytes) (port : Nat) : Pool :=
  let list := (s.lists redname).getD ⟨.other, host, port, []⟩
  let s := { s with lists := update s.lists redname (some list) }
  match s.pools redname with
  | some _ => s
  | none =>
    let s := s.setPool redname .empty
    if list.list = [] then s.setPool redname { Save.empty with list := [list.single] } else s

def Pool.delFromPool (s : Pool) (redname : Bytes) : Pool :=
  match s.pools redname with
  | none => s
  | some _ => { s with
      pools := update s.pools redname none
      lists := update s.lists redname none }

--
-- Commands
--

/-- The three ways to choose a member. -/
inductive Select where
  | just (redname : Bytes) (justkey : Option Bytes)
  | hash (redname : Bytes) (hashkey : Option Bytes)
  | only (redname : Bytes)

/-- `list:hash(key)`: no member, where it returns nil or raises. -/
def Save.lookup (save : Save) (key : Option Bytes) : Option Memb :=
  match save.hash, key with
  | some .customer, some key =>
    let els := save.list.length
    if els = 0 then none
    else
      let i := env.customHash key els + 1
      save.list[if i > els ∨ i < 1 then 0 else (i - 1).toNat]?
  | some .consistent, some key =>
    (env.conhash save.root key).bind fun node =>
      (save.nodes.lookup node).bind fun i => save.list[i]?
  | some .appoint, some key => save.marks.lookup key
  | _, _ => none

/-- `just_fetch_pool`, `hash_fetch_pool` and `only_fetch_pool`. -/
def Pool.fetch (s : Pool) : Select → Option Memb
  | .just redname justkey => (s.pools redname).bind fun list => list.lookup env justkey
  | .hash redname hashkey =>
    hashkey.bind fun key => (s.pools redname).bind fun list =>
      if list.list.length = 0 then none
      else if list.list.length > 1 then list.lookup env (some key)
      else list.list[0]?
  | .only redname => (s.pools redname).bind fun list => list.list[0]?

/-- The rounds of `redis_cmd_use_pool` up to one that has a connection: the connection, and
the rounds that are left behind this one. -/
def Pool.rounds (addr : Bytes) : Nat → Pool → Option (Nat × Nat) × Pool
  | 0, s => (none, s)
  | left + 1, s =>
    match s.pull addr with
    | (some sock, s) => (some (sock, left), s)
    | (none, s) =>
      match s.newConnect env with
      | (some sock, s) => (some (sock, left), s)
      | (none, s) => Pool.rounds addr left s

/-- The coroutine waits for the reply of its command, or ends when no round is left. -/
def Pool.await (co : Nat) (memb : Memb) (rest : Nat) : Option (Nat × Nat) × Pool → Pool
  | (none, s) => s
  | (some (sock, left), s) =>
    { s with running := update s.running co (some ⟨memb, sock, left, rest⟩) }

/-- `entry_cmd` with `calls` calls to come; `pull` of an address without a queue raises. -/
def Pool.launch (co : Nat) (memb : Memb) (calls : Nat) (s : Pool) : Pool :=
  match calls with
  | 0 => s
  | rest + 1 =>
    match s.skts memb.addr with
    | none => s
    | some _ => Pool.await co memb rest (s.rounds env memb.addr MAX_RECNT)

/-- The command returned, or raised. -/
def Pool.reply (co : Nat) (ok : Bool) (c : Cmd) (s : Pool) : Pool :=
  let s := { s with running := update s.running co none }
  if ok then (s.push c.memb.addr c.sock).launch env co c.memb c.rest
  else Pool.await co c.memb c.rest ((s.close c.sock).rounds env c.memb.addr c.rounds)

--
-- Steps
--

inductive Act where
  | init (order : List Bytes)
  | add (redname host : Bytes) (port : Nat)
  | del (redname : Bytes)
  /-- a coroutine begins a command that makes `calls` calls -/
  | start (co : Nat) (sel : Select) (calls : Nat)
  /-- the command of a coroutine returns or raises -/
  | reply (co : Nat) (ok : Bool)

/-- A coroutine begins a command when it runs none, and only then; what does not happen
changes nothing. -/
def Pool.next (s : Pool) : Act → Pool
  | .init order => s.initAll env order
  | .add redname host port => s.addToPool redname host port
  | .del redname => s.delFromPool redname
  | .start co sel calls =>
    match s.running co, s.fetch env sel with
    | none, some memb => s.launch env co memb calls
    | _, _ => s
  | .reply co ok =>
    match s.running co with
    | none => s
    | some c => s.reply env co ok c

def Pool.step (s : Pool) (a : Act) : Except Empty Pool := .ok (s.next env a)

end Supex.Linkup
