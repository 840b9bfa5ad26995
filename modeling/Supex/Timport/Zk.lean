import Supex.Tsdb.Commands

/-!
# timport — the routes of keys

The data nodes of tsdb are children of ZooKeeper nodes, one for each range of
keys. timport keeps a copy of every list of children: a child event clears and
fills it again, and a lookup fills it when it is not marked as synced.

The children of a node in ZooKeeper may change at any time, and asking for them
may fail. `alloc_dn_hook` and `free_dn_hook` are set, as `tsdb_open` does; how
often the first was called for a node is part of the node. The path, the parents
and `dn_idx` are left out.
-/

namespace Supex.Timport.Zk

open Tsdb (atoi)
open Function (update)

--
-- Data sets
--

def DN_PER_DS : Nat := 2
def MAX_DS_PER_KEY : Nat := 2

/-- `tmode_t`. -/
inductive Mode where
  | na
  | ro
  | rw
  deriving DecidableEq

inductive Role where
  | master
  | slave
  | errrole
  deriving DecidableEq

/-- `data_node_t`, with the calls of `alloc_dn_hook` for it. -/
structure DataNode where
  ip : Bytes
  wPort : Nat
  rPort : Nat
  role : Role
  allocs : Nat
  deriving DecidableEq

/-- `data_set_t`; the nodes are the first `dn_cnt` ones. -/
structure DataSet where
  id : Nat
  mode : Mode
  sTime : Nat
  eTime : Nat
  dataNode : List DataNode
  deriving DecidableEq

def DataSet.zero : DataSet := ⟨0, .na, 0, 0, []⟩

/-- The part of `key_set_t` that changes: `data_set` is the whole array, of which
the first `ds_cnt` are in use. -/
structure KeySet where
  isSynced : Bool
  dsCnt : Nat
  dataSet : List DataSet

/-- After `bzero`. -/
def KeySet.zero : KeySet := ⟨false, 0, List.replicate MAX_DS_PER_KEY .zero⟩

/-- The data sets of a range. -/
def KeySet.cached (ks : KeySet) : List DataSet := ks.dataSet.take ks.dsCnt

--
-- Names
--

/-- What must not happen: a pointer to nothing, and a write behind an array. -/
inductive Fault where
  | wild
  | overflow
  deriving DecidableEq

def atoll (s : Bytes) : Int :=
  let v : Int :=
    match s.dropWhile isSpace with
    | 45 :: t => -(digitsVal (t.takeWhile isDigit) : Int)
    | 43 :: t => digitsVal (t.takeWhile isDigit)
    | t => digitsVal (t.takeWhile isDigit)
  max (-2 ^ 63) (min v (2 ^ 63 - 1))

/-- `get_field`: the next field, and where it begins. After the last colon the
size that is given to `snprintf` wraps around, and the rest is the field. -/
def getField (p : Bytes) : Except Fault (Bytes × Bytes) :=
  match p.dropWhile (· ≠ 58) with
  | [] => .error .wild
  | _ :: p =>
    let tmp := p.takeWhile (· ≠ 58)
    if 64 ≤ tmp.length then .error .overflow else .ok (p, tmp)

def getMode (node : Bytes) : Option Mode :=
  if ascii "RW:" <:+: node then some .rw
  else if ascii "RO:" <:+: node then some .ro
  else none

def getRole (tmp : Bytes) : Role :=
  if tmp = ascii "MASTER" then .master
  else if tmp = ascii "SLAVE" then .slave
  else .errrole

/-- `parser_datanode`: the data set has one node. -/
def parserDatanode (node : Bytes) : Except Fault (Option (DataSet × DataNode)) := do
  match getMode node with
  | none => return none
  | some mode =>
    let (p, id) ← getField node
    let (p, role) ← getField p
    let (p, ip) ← getField p
    if 16 ≤ ip.length then throw .overflow
    else
      let (p, wPort) ← getField p
      let (p, rPort) ← getField p
      let (p, sTime) ← getField p
      let (_, eTime) ← getField p
      return some
        ({ id := (atoi id % 2 ^ 32).toNat
           mode := mode
           sTime := (atoll sTime % 2 ^ 64).toNat
           eTime := (atoll eTime % 2 ^ 64).toNat
           dataNode := [] },
         { ip := ip
           wPort := (atoi wPort % 2 ^ 32).toNat
           rPort := (atoi rPort % 2 ^ 32).toNat
           role := getRole role
           allocs := 0 })

--
-- The copy of a list
--

/-- `alloc_dn_hook`. -/
def DataNode.alloc (d : DataNode) : DataNode := { d with allocs := d.allocs + 1 }

/-- The loop of `register_keyset_zkcache` over the first `n` data sets: the node
goes to the one with its number, or is the first of a new one. -/
def addNode (ds : DataSet) (d : DataNode) : Nat → List DataSet → Option (List DataSet × Bool)
  | 0, [] => none
  | 0, _ :: rest => some ({ ds with dataNode := [d.alloc] } :: rest, true)
  | _ + 1, [] => none
  | n + 1, s :: rest =>
    if ds.id = s.id then
      if s.dataNode.length < DN_PER_DS then
        some ({ s with dataNode := s.dataNode ++ [d.alloc] } :: rest, false)
      else none
    else
      match addNode ds d n rest with
      | none => none
      | some (rest, new) => some (s :: rest, new)

/-- The loop over the children; `false` is -1. -/
def addNodes : KeySet → List Bytes → Except Fault (KeySet × Bool)
  | ks, [] => .ok (ks, true)
  | ks, node :: names => do
    match ← parserDatanode node with
    | none => return (ks, false)
    | some (ds, d) =>
      match addNode ds d ks.dsCnt ks.dataSet with
      | none => return (ks, false)
      | some (dataSet, new) =>
        addNodes { ks with
          dataSet := dataSet
          dsCnt := if new then ks.dsCnt + 1 else ks.dsCnt } names

/-- `register_keyset_zkcache`; `zok` is what `zoo_wget_children` returns. -/
def registerKeysetZkcache (zok : Bool) (names : List Bytes) (ks : KeySet) :
    Except Fault (KeySet × Bool) :=
  if ks.isSynced = true then .ok (ks, true)
  else if zok = true then addNodes ks names
  else .ok (ks, false)

def unregisterKeysetZkcache (ks : KeySet) : KeySet := { ks with isSynced := false, dsCnt := 0 }

--
-- Lookups
--

/-- `expansion_set_t`, with the ranges of its key sets. -/
structure ExpansionSet where
  mode : Mode
  sTime : Nat
  eTime : Nat
  keySet : List (Nat × Nat)

/-- `zk_ctx_t`. -/
structure Config where
  expansionSet : List ExpansionSet
  expansionRwIdx : Nat

/-- The key is in the range. -/
def inRange (key : Nat) (range : Nat × Nat) : Bool :=
  decide (range.1 ≤ key) && decide (key < range.2)

/-- The key set that `get_write_dataset` stops at. -/
def Config.writeKeySet (cfg : Config) (key : Nat) : Option (Nat × Nat) :=
  match cfg.expansionSet[cfg.expansionRwIdx]? with
  | none => none
  | some es =>
    if es.mode ≠ .rw then none
    else (es.keySet.findIdx? (inRange key)).map fun k => (cfg.expansionRwIdx, k)

/-- The key set that `get_read_dataset` stops at. -/
def Config.readKeySet (cfg : Config) (key time : Nat) : Option (Nat × Nat) :=
  match cfg.expansionSet.findIdx? fun es =>
      decide (es.sTime ≤ time) && decide (time < es.eTime) with
  | none => none
  | some e =>
    match cfg.expansionSet[e]? with
    | none => none
    | some es => (es.keySet.findIdx? (inRange key)).map fun k => (e, k)

/-- What a lookup returns: 0 or -1, and the data set that `*ds` points at. -/
structure Answer where
  key : Nat
  ok : Bool
  ds : Option (Nat × Nat × Nat)

/-- The copies, the children in ZooKeeper, and of the last step: which list was
copied, and what a lookup has returned. -/
structure Sys where
  keySet : Nat → Nat → KeySet
  children : Nat → Nat → List Bytes
  refreshed : Option (Nat × Nat)
  answer : Option Answer

def Sys.setKeySet (st : Sys) (e k : Nat) (ks : KeySet) : Sys :=
  { st with keySet := update st.keySet e (update (st.keySet e) k ks) }

/-- A list is copied: the key set, and whether that was possible. -/
def Sys.refresh (st : Sys) (e k : Nat) (zok : Bool) (ks : KeySet) : Except Fault (Sys × Bool) := do
  let (ks, ok) ← registerKeysetZkcache zok (st.children e k) ks
  return ({ st.setKeySet e k ks with refreshed := if ok then some (e, k) else none }, ok)

/-- The part of lookups that refreshes a key set. -/
def Sys.sync (st : Sys) (e k : Nat) (zok : Bool) : Except Fault (Sys × Bool) := do
  if (st.keySet e k).isSynced = true then return (st, true)
  else
    let (st, ok) ← st.refresh e k zok (st.keySet e k)
    if ok = true then
      return (st.setKeySet e k { st.keySet e k with isSynced := true }, true)
    else return (st, false)

def Sys.reply (st : Sys) (key : Nat) (ok : Bool) (ds : Option (Nat × Nat × Nat)) : Sys :=
  { st with answer := some ⟨key, ok, ds⟩ }

def getWriteDataset (cfg : Config) (st : Sys) (key : Nat) (zok : Bool) : Except Fault Sys := do
  match cfg.writeKeySet key with
  | none => return st.reply key false none
  | some (e, k) =>
    let (st, ok) ← st.sync e k zok
    if ok = true then
      if (st.keySet e k).dataSet.head?.map DataSet.mode = some .rw then
        return st.reply key true (some (e, k, 0))
      else return st.reply key false none
    else return st.reply key false none

/-- `get_read_dataset`; the loop over the data sets stops at the first. -/
def getReadDataset (cfg : Config) (st : Sys) (key time : Nat) (zok : Bool) : Except Fault Sys := do
  match cfg.readKeySet key time with
  | none => return st.reply key false none
  | some (e, k) =>
    let (st, ok) ← st.sync e k zok
    if ok = true then
      match (st.keySet e k).cached with
      | [] => return st.reply key false none
      | ds :: _ =>
        if ds.mode ≠ .na then return st.reply key true (some (e, k, 0))
        else return st.reply key false none
    else return st.reply key true none

--
-- The system
--

def keysetWatcher (st : Sys) (e k : Nat) (connected childEvent zok : Bool) : Except Fault Sys := do
  if connected = true ∧ childEvent = true then
    let (st, _) ← st.refresh e k zok (unregisterKeysetZkcache (st.keySet e k))
    return st
  else return st

/-- The part of `register_expansion_zkcache` for one key set. -/
def openKeySet (st : Sys) (e k : Nat) (zok : Bool) : Except Fault Sys := do
  let (st, ok) ← st.refresh e k zok .zero
  if ok = true then return st.setKeySet e k { st.keySet e k with isSynced := true }
  else return st

/-- The children of a node change in ZooKeeper; a key set is opened; an event; a
lookup for writing, and one for reading. -/
inductive Act where
  | change (e k : Nat) (names : List Bytes)
  | opens (e k : Nat) (zok : Bool)
  | event (e k : Nat) (connected childEvent zok : Bool)
  | write (key : Nat) (zok : Bool)
  | read (key time : Nat) (zok : Bool)

def step (cfg : Config) (st : Sys) (a : Act) : Except Fault Sys :=
  let st := { st with refreshed := none, answer := none }
  match a with
  | .change e k names =>
    .ok { st with
      children := update st.children e (update (st.children e) k names) }
  | .opens e k zok => openKeySet st e k zok
  | .event e k connected childEvent zok => keysetWatcher st e k connected childEvent zok
  | .write key zok => getWriteDataset cfg st key zok
  | .read key time zok => getReadDataset cfg st key time zok

/-- Before the key sets are opened. -/
def Sys.start (children : Nat → Nat → List Bytes) : Sys where
  keySet _ _ := .zero
  children := children
  refreshed := none
  answer := none

end Supex.Timport.Zk
