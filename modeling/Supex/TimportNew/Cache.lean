import Supex.Lib.Decimal
import Supex.Lib.LuaPattern
import Supex.Lib.Run

/-!
# timport_new — the copy of the tree

The Lua timport copies the nodes below `/tsdb` into nested tables: the expansion
sets, the key sets of each and the data sets of each of these, named by time
range, range of keys and address. Every list of children is read with a watch
whose context is the table it fills, and the child event of a node fills that
table again.

A path is the list of its names, a table a value. A watch belongs to the table in
its context: it is dropped with it, where the script lets it rebuild a table
nothing refers to any more. The hooks for new and for dropped data nodes, which
are the caller's, the parents and the handle are left out; reading a field that
was never set and comparing it is an error.
-/

namespace Supex.TimportNew

open Lib (PatItem stringMatch)

--
-- Tables
--

/-- The names from the root to a node. -/
abbrev Path := List Bytes

/-- What ZooKeeper lists as the children of a path, if there is a node. -/
abbrev Tree := Path → Option (List Bytes)

structure DataNode where
  ip : Bytes
  wPort : Bytes
  rPort : Bytes
  role : Bytes
  deriving DecidableEq, Repr

structure DataSet where
  id : Int
  mode : Bytes
  sTime : Int
  eTime : Int
  dnIdx : Nat
  dataNode : List DataNode
  deriving DecidableEq, Repr

structure KeySet where
  path : Path
  sKey : Option Int
  eKey : Option Int
  isSynced : Bool
  dataSet : List DataSet
  watched : Bool
  deriving DecidableEq, Repr

structure ExpansionSet where
  path : Path
  mode : Option Bytes
  sTime : Option Int
  eTime : Option Int
  keySet : List KeySet
  watched : Bool
  deriving DecidableEq, Repr

structure ZkCache where
  expansionSet : List ExpansionSet
  watched : Bool
  deriving DecidableEq, Repr

/-- A comparison with `nil`. -/
inductive LuaError where
  | compareNil
  deriving DecidableEq, Repr

/-- An entry of a table whose entries are numbered from 1. -/
def entry {α : Type} (l : List α) : Nat → Option α
  | 0 => none
  | i + 1 => l[i]?

--
-- Names
--

/-- `%a` in the C locale. -/
def isAlpha (b : UInt8) : Bool :=
  (65 ≤ b.toNat && b.toNat ≤ 90) || (97 ≤ b.toNat && b.toNat ≤ 122)

def colon : UInt8 := 58
def dot : UInt8 := 46
def minus : UInt8 := 45

/-- `tonumber` of an integer. -/
def tonumber (s : Bytes) : Int :=
  match s with
  | [] => 0
  | c :: d => if c = minus then -(digitsVal d : Int) else digitsVal (c :: d)

/-- The end of a range of times, where `-1` is behind all of them. -/
def endTime (s : Bytes) : Int := if s = ascii "-1" then 100000000000000 else tonumber s

def digits : List PatItem := [.openCapture, .plus isDigit, .closeCapture]
def letters : List PatItem := [.openCapture, .plus isAlpha, .closeCapture]
def signedDigits : List PatItem :=
  [.openCapture, .opt (· == minus), .plus isDigit, .closeCapture]

/-- `(%a+):(%d+):(%-?%d+)`. -/
def expansionPattern : List PatItem :=
  letters ++ .lit colon :: (digits ++ .lit colon :: signedDigits)

/-- `(%d+):(%d+)`. -/
def keysetPattern : List PatItem := digits ++ .lit colon :: digits

/-- `(R[OW]):(%d+):(%a+):(%d+%.%d+%.%d+%.%d+):(%d+):(%d+):(%d+):(%-?%d+)`. -/
def datanodePattern : List PatItem :=
  [.openCapture, .lit 82, .single fun b => b == 79 || b == 87, .closeCapture, .lit colon] ++
  digits ++ .lit colon :: (letters ++ .lit colon ::
  ([.openCapture, .plus isDigit, .lit dot, .plus isDigit, .lit dot, .plus isDigit, .lit dot,
    .plus isDigit, .closeCapture, .lit colon] ++
  digits ++ .lit colon :: (digits ++ .lit colon :: (digits ++ .lit colon :: signedDigits))))

def parseExpansionNode (node : Bytes) (es : ExpansionSet) : Bool × ExpansionSet :=
  match stringMatch expansionPattern node with
  | some [mode, sTime, eTime] =>
    (true, { es with
      mode := some mode, sTime := some (tonumber sTime), eTime := some (endTime eTime) })
  | _ => (false, es)

def parseKeysetNode (node : Bytes) (ks : KeySet) : Bool × KeySet :=
  match stringMatch keysetPattern node with
  | some [sKey, eKey] =>
    (true, { ks with sKey := some (tonumber sKey), eKey := some (tonumber eKey) })
  | _ => (false, ks)

/-- The fields of the name of a data node. -/
structure NodeName where
  mode : Bytes
  id : Int
  role : Bytes
  ip : Bytes
  wPort : Bytes
  rPort : Bytes
  sTime : Int
  eTime : Int
  deriving DecidableEq, Repr

def parseDatanode (node : Bytes) : Option NodeName :=
  match stringMatch datanodePattern node with
  | some [mode, id, role, ip, wPort, rPort, sTime, eTime] =>
    some ⟨mode, tonumber id, role, ip, wPort, rPort, tonumber sTime, endTime eTime⟩
  | _ => none

--
-- Registration
--

def NodeName.node (dn : NodeName) : DataNode := ⟨dn.ip, dn.wPort, dn.rPort, dn.role⟩

/-- The node joins the data set with its id, or a new one at the end. -/
def addDatanode (dn : NodeName) : List DataSet → List DataSet
  | [] => [⟨dn.id, dn.mode, dn.sTime, dn.eTime, 1, [dn.node]⟩]
  | ds :: rest =>
    if dn.id = ds.id then { ds with dataNode := ds.dataNode ++ [dn.node] } :: rest
    else ds :: addDatanode dn rest

/-- The loop of `register_keyset_zkcache`. -/
def addDatanodes : List Bytes → List DataSet → Bool × List DataSet
  | [], sets => (true, sets)
  | value :: rest, sets =>
    match parseDatanode value with
    | none => (false, sets)
    | some dn => addDatanodes rest (addDatanode dn sets)

def registerKeysetZkcache (tree : Tree) (path : Path) (ks : KeySet) : Bool × KeySet :=
  if ks.isSynced then (true, ks)
  else
    match tree path with
    | none => (false, { ks with dataSet := [] })
    | some sv =>
      let r := addDatanodes sv []
      (r.1, { ks with dataSet := r.2, watched := true })

def unregisterKeysetZkcache (ks : KeySet) : KeySet := { ks with isSynced := false }

/-- The loop of `register_expansion_zkcache`. -/
def addKeysets (tree : Tree) (path : Path) : List Bytes → List KeySet → Bool × List KeySet
  | [], sets => (true, sets)
  | value :: rest, sets =>
    match parseKeysetNode value ⟨path ++ [value], none, none, false, [], false⟩ with
    | (false, ks) => (false, sets ++ [ks])
    | (true, ks) =>
      match registerKeysetZkcache tree ks.path ks with
      | (false, ks) => (false, sets ++ [ks])
      | (true, ks) => addKeysets tree path rest (sets ++ [{ ks with isSynced := true }])

def registerExpansionZkcache (tree : Tree) (es : ExpansionSet) : Bool × ExpansionSet :=
  if es.keySet.length ≠ 0 then (true, es)
  else
    match tree es.path with
    | none => (false, es)
    | some sv =>
      let r := addKeysets tree es.path sv []
      (r.1, { es with keySet := r.2, watched := true })

def unregisterExpansionZkcache (es : ExpansionSet) : ExpansionSet := { es with keySet := [] }

/-- `tmp = t[index]; t[index] = t[1]; t[1] = tmp`. -/
def swapFirst (sets : List ExpansionSet) (index : Nat) : List ExpansionSet :=
  match entry sets 1, entry sets index with
  | some first, some tmp => (sets.set (index - 1) first).set 0 tmp
  | _, _ => sets

/-- The loop of `register_zkcache`; the tables are those of the values before. -/
def addExpansions (tree : Tree) (path : Path) :
    List Bytes → List ExpansionSet → Bool × List ExpansionSet
  | [], sets => (true, sets)
  | value :: rest, sets =>
    match parseExpansionNode value ⟨path ++ [value], none, none, none, [], false⟩ with
    | (false, es) => (false, sets ++ [es])
    | (true, es) =>
      match registerExpansionZkcache tree es with
      | (false, es) => (false, sets ++ [es])
      | (true, es) =>
        let index := sets.length + 1
        if es.mode = some (ascii "RW") ∧ 1 < index then
          addExpansions tree path rest (swapFirst (sets ++ [es]) index)
        else addExpansions tree path rest (sets ++ [es])

/-- `/tsdb`. -/
def tsdbPath : Path := [ascii "tsdb"]

def registerZkcache (tree : Tree) (zc : ZkCache) : Bool × ZkCache :=
  if zc.expansionSet.length ≠ 0 then (true, zc)
  else
    match tree tsdbPath with
    | none => (false, zc)
    | some sv =>
      let r := addExpansions tree tsdbPath sv []
      (r.1, { zc with expansionSet := r.2, watched := true })

def unregisterZkcache (zc : ZkCache) : ZkCache := { zc with expansionSet := [] }

/-- What `open_zkhandler` returns. -/
def openZkhandler : ZkCache := ⟨[], false⟩

--
-- Watchers
--

/-- The types of events that matter. -/
inductive EventType where
  | child
  | other
  deriving DecidableEq

inductive ConnState where
  | connected
  | other
  deriving DecidableEq

def tsdbWatcher (tree : Tree) (type : EventType) (state : ConnState) (zc : ZkCache) : ZkCache :=
  if state = .connected ∧ type = .child then (registerZkcache tree (unregisterZkcache zc)).2
  else zc

def expansionWatcher (tree : Tree) (type : EventType) (state : ConnState) (es : ExpansionSet) :
    ExpansionSet :=
  if state = .connected ∧ type = .child then
    (registerExpansionZkcache tree (unregisterExpansionZkcache es)).2
  else es

def keysetWatcher (tree : Tree) (type : EventType) (state : ConnState) (path : Path)
    (ks : KeySet) : KeySet :=
  if state = .connected ∧ type = .child then
    (registerKeysetZkcache tree path (unregisterKeysetZkcache ks)).2
  else ks

/-- An event of a path at a key set. A watch fires once. -/
def KeySet.fire (tree : Tree) (type : EventType) (state : ConnState) (path : Path)
    (ks : KeySet) : KeySet :=
  if ks.path = path ∧ ks.watched then
    keysetWatcher tree type state path { ks with watched := false }
  else ks

def ExpansionSet.fire (tree : Tree) (type : EventType) (state : ConnState) (path : Path)
    (es : ExpansionSet) : ExpansionSet :=
  if es.path = path ∧ es.watched then
    expansionWatcher tree type state { es with watched := false }
  else { es with keySet := es.keySet.map (KeySet.fire tree type state path) }

def ZkCache.fire (tree : Tree) (type : EventType) (state : ConnState) (path : Path)
    (zc : ZkCache) : ZkCache :=
  if path = tsdbPath ∧ zc.watched then
    tsdbWatcher tree type state { zc with watched := false }
  else
    { zc with expansionSet := zc.expansionSet.map (ExpansionSet.fire tree type state path) }

--
-- Lookups
--

/-- `v >= s and v < e`. -/
def inRange (v : Int) (s e : Option Int) : Except LuaError Bool :=
  match s with
  | none => .error .compareNil
  | some s =>
    if s ≤ v then
      match e with
      | none => .error .compareNil
      | some e => .ok (decide (v < e))
    else .ok false

/-- What a lookup returns: whether it succeeded, and a data set or `nil`. -/
abbrev Answer := Except LuaError (Bool × Option DataSet)

/-- The loop of `get_write_dataset`. -/
def writeLoop (keyField : Int) : List KeySet → Answer
  | [] => .ok (false, none)
  | ks :: rest => do
    if ← inRange keyField ks.sKey ks.eKey then
      match entry ks.dataSet 0 with
      | some ds => if ds.mode ≠ ascii "RW" then .ok (false, none) else .ok (true, some ds)
      | none => .ok (true, none)
    else writeLoop keyField rest

def getWriteDataset (zc : ZkCache) (keyField : Int) : Answer :=
  match entry zc.expansionSet 1 with
  | none => .ok (false, none)
  | some es =>
    if es.mode ≠ some (ascii "RW") ∨ es.keySet.length = 0 then .ok (false, none)
    else writeLoop keyField es.keySet

/-- The first loop of `get_read_dataset`. -/
def findExpansion (timeField : Int) : List ExpansionSet → Except LuaError (Option ExpansionSet)
  | [] => .ok none
  | es :: rest => do
    if ← inRange timeField es.sTime es.eTime then .ok (some es)
    else findExpansion timeField rest

/-- The second loop of `get_read_dataset`. -/
def readLoop (keyField : Int) : List KeySet → Answer
  | [] => .ok (false, none)
  | ks :: rest => do
    if ks.dataSet.length = 0 then readLoop keyField rest
    else if ← inRange keyField ks.sKey ks.eKey then .ok (true, entry ks.dataSet 1)
    else readLoop keyField rest

def getReadDataset (zc : ZkCache) (keyField timeField : Int) : Answer :=
  if zc.expansionSet.length = 0 then .ok (false, none)
  else do
    match ← findExpansion timeField zc.expansionSet with
    | none => .ok (false, none)
    | some es =>
      if es.keySet.length = 0 then .ok (false, none) else readLoop keyField es.keySet

--
-- Runs
--

/-- The tree and the copy of it. -/
structure Sys where
  tree : Tree
  zc : ZkCache

/-- The children of the node at a path, or of nodes below it, become those of
another tree, and the node has a child event. -/
structure Change where
  path : Path
  tree : Tree

def Sys.start (tree : Tree) : Sys := ⟨tree, (registerZkcache tree openZkhandler).2⟩

def step (st : Sys) (c : Change) : Except LuaError Sys :=
  .ok ⟨c.tree, st.zc.fire c.tree .child .connected c.path⟩

end Supex.TimportNew
