import Supex.Tsdb.Binlog

/-!
# TSDB — the commands of the LevelDB engine

The writing commands of `tsdb_ldb.c` (`SET`, `MSET`, `DEL`, `SADD`) and the two
commands a slave executes (`SYNCSET`, `SYNCDEL`). A handler gets the arguments
of the request as byte strings and returns the reply it appends.

`SADD` treats the stored value as a C string, but LevelDB returns it without a
terminating NUL: what it reads is the value followed by whatever lies behind it
on the heap. Those bytes are an argument of the model.

`Cmd.updates` is the meaning of a command without any binlog: the list of
updates it makes to the map of user data.
-/

namespace Supex.Tsdb

open Supex.Lib

def OPT_OK : Bytes := ascii "+OK" ++ crlf
def OPT_CMD_ERROR : Bytes := ascii "-CMD ERROR" ++ crlf
def OPT_INTERIOR_ERROR : Bytes := ascii "-INTERIOR ERROR!" ++ crlf
def OPT_PONG : Bytes := ascii "+PONG" ++ crlf

/-! ## SET, MSET, DEL -/

def tsdbLdbSet (t : Server) (fields : List Bytes) : Except Fault (Bytes × Server) :=
  match fields with
  | [key, value] =>
    if t.readonly then .ok (OPT_CMD_ERROR, t)
    else
      match binlogPut t key value with
      | .error f => .error f
      | .ok t' => .ok (OPT_OK, t')
  | _ => .ok (OPT_CMD_ERROR, t)

/-- The loop of `tsdb_ldb_del`. -/
def delLoop : Server → List Bytes → Except Fault Server
  | t, [] => .ok t
  | t, key :: fields =>
    match binlogBatchDelete t key with
    | .error f => .error f
    | .ok t' => delLoop t' fields

def tsdbLdbDel (t : Server) (fields : List Bytes) : Except Fault (Bytes × Server) :=
  if t.readonly ∨ fields.length < 1 then .ok (OPT_CMD_ERROR, t)
  else
    match delLoop t fields with
    | .error f => .error f
    | .ok t' => .ok (58 :: fmtU64 fields.length ++ crlf, binlogBatchCommit t')

/-- The loop of `tsdb_ldb_mset`, over pairs of fields. -/
def msetLoop : Server → List Bytes → Except Fault Server
  | t, key :: value :: fields =>
    match binlogBatchPut t key value with
    | .error f => .error f
    | .ok t' => msetLoop t' fields
  | t, _ => .ok t

def tsdbLdbMset (t : Server) (fields : List Bytes) : Except Fault (Bytes × Server) :=
  if t.readonly ∨ fields.length < 1 ∨ fields.length % 2 ≠ 0 then .ok (OPT_CMD_ERROR, t)
  else
    match msetLoop t fields with
    | .error f => .error f
    | .ok t' => .ok (OPT_OK, binlogBatchCommit t')

/-! ## SADD -/

/-- `strtok(s, delim)` for one delimiter: the next token and what is left behind
it; `none` is `NULL`. -/
def strtok (s : Bytes) (delim : UInt8) : Option (Bytes × Bytes) :=
  match s.dropWhile (· = delim) with
  | [] => none
  | s' =>
    let token := s'.takeWhile (· ≠ delim)
    some (token, s'.drop (token.length + 1))

/-- The `while (p != NULL)` loop over `strtok(NULL, "|")`: is `target` one of
the tokens? Every token consumes a byte. -/
def tokenLoop (target : Bytes) : Nat → Bytes → Bool
  | 0, _ => false
  | fuel + 1, s =>
    match strtok s 124 with
    | none => false
    | some (token, rest) => if target = token then true else tokenLoop target fuel rest

/-- The search of `tsdb_ldb_sadd`: the part behind the first `@`-token. -/
def hasSetData (str target : Bytes) : Bool :=
  match strtok str 64 with
  | none => false
  | some (_, rest) => tokenLoop target (rest.length + 1) rest

/-- `atoi`: `strtol` saturates, its result is cut to an `int`. -/
def atoi (s : Bytes) : Int :=
  let clamp (v : Int) : Int := max (-2 ^ 63) (min v (2 ^ 63 - 1))
  let v : Int :=
    match s.dropWhile isSpace with
    | 45 :: t => -(digitsVal (t.takeWhile isDigit) : Int)
    | 43 :: t => digitsVal (t.takeWhile isDigit)
    | t => digitsVal (t.takeWhile isDigit)
  (clamp v).bmod (2 ^ 32)

/-- `printf("%d", i)`. -/
def fmtInt (i : Int) : Bytes := if i < 0 then 45 :: fmtU64 i.natAbs else fmtU64 i.natAbs

/-- The part of `tsdb_ldb_sadd` under `//Update head.`: the number before the
first `*` is incremented. Without a `*` the code runs on a null pointer; the
result has room for one character more than the argument. -/
def updateHead (newStr : Bytes) : Except Fault Bytes :=
  match newStr.dropWhile (· ≠ 42) with
  | [] => .error .memory
  | n =>
    match strtok newStr 42 with
    | none => .ok []
    | some (r, _) =>
      let string := fmtInt ((atoi r + 1).bmod (2 ^ 32)) ++ n
      if string.length + 1 ≤ newStr.length + 2 then .ok string else .error .memory

/-- The value `tsdb_ldb_sadd` stores for one member, given the C string it sees
under the key; `none` when the member is there already. -/
def saddValue (old : Option Bytes) (target : Bytes) : Except Fault (Option Bytes) :=
  match old with
  | some str =>
    if hasSetData str target then .ok none
    else (updateHead (str ++ target ++ [124])).map some
  | none => (updateHead (ascii "0*1@" ++ target ++ [124])).map some

/-- What `tsdb_ldb_sadd` sees of a stored value with `behind` after it on the
heap. -/
def seenValue (stored : Option Bytes) (behind : Bytes) : Option Bytes :=
  stored.map fun value => cstr (value ++ behind)

/-- The loop of `tsdb_ldb_sadd` over the members; `heap i` are the bytes behind
the value that the `i`-th `ldb_get` returns. -/
def saddLoop (key : Bytes) (heap : Nat → Bytes) : Server → Nat → List Bytes → Except Fault Server
  | t, _, [] => .ok t
  | t, i, target :: members =>
    match saddValue (seenValue (t.db.get key) (heap i)) (cstr target) with
    | .error f => .error f
    | .ok none => saddLoop key heap t (i + 1) members
    | .ok (some value) =>
      match binlogPut t key value with
      | .error f => .error f
      | .ok t' => saddLoop key heap t' (i + 1) members

def tsdbLdbSadd (t : Server) (fields : List Bytes) (heap : Nat → Bytes) :
    Except Fault (Bytes × Server) :=
  match fields with
  | key :: member :: members =>
    if t.readonly then .ok (OPT_CMD_ERROR, t)
    else
      match saddLoop key heap t 0 (member :: members) with
      | .error f => .error f
      | .ok t' => .ok (OPT_OK, t')
  | _ => .ok (OPT_CMD_ERROR, t)

/-! ## SYNCSET, SYNCDEL -/

def tsdbLdbSyncset (db : Ldb) (fields : List Bytes) : Bytes × Ldb :=
  match fields with
  | [key, value] => (OPT_OK, binlogSyncset db key value)
  | _ => (OPT_CMD_ERROR, db)

def tsdbLdbSyncdel (db : Ldb) (fields : List Bytes) : Bytes × Ldb :=
  match fields with
  | key :: _ => (OPT_OK, binlogSyncdel db key)
  | [] => (OPT_CMD_ERROR, db)

/-! ## Commands and their meaning -/

/-- A writing command with its fields. -/
inductive Cmd where
  | set (fields : List Bytes)
  | mset (fields : List Bytes)
  | del (fields : List Bytes)
  | sadd (fields : List Bytes) (heap : Nat → Bytes)

/-- The handler of a command. -/
def Cmd.exec (t : Server) : Cmd → Except Fault (Bytes × Server)
  | .set fields => tsdbLdbSet t fields
  | .mset fields => tsdbLdbMset t fields
  | .del fields => tsdbLdbDel t fields
  | .sadd fields heap => tsdbLdbSadd t fields heap

/-- One update of the user data. -/
inductive Update where
  | set (key value : Bytes)
  | del (key : Bytes)

def Update.key : Update → Bytes
  | .set key _ => key
  | .del key => key

/-- What the key holds after the update. -/
def Update.value : Update → Option Bytes
  | .set _ value => some value
  | .del _ => none

/-- The command byte of the record of an update. -/
def Update.cmd : Update → UInt8
  | .set _ _ => CMD_SET
  | .del _ => CMD_DEL

/-- The batch operation of an update. -/
def Update.op : Update → BatchOp
  | .set key value => .put key value
  | .del key => .delete key

/-- The user data after a list of updates. -/
def dataOf (hist : List Update) : Bytes → Option Bytes :=
  hist.foldl (fun m u => Function.update m u.key u.value) fun _ => none

/-- The updates of `MSET`. -/
def msetUpdates : List Bytes → List Update
  | key :: value :: fields => .set key value :: msetUpdates fields
  | _ => []

/-- The updates of `SADD`; `hist` are the updates before. -/
def saddUpdates (key : Bytes) (heap : Nat → Bytes) :
    List Update → Nat → List Bytes → List Update
  | _, _, [] => []
  | hist, i, target :: members =>
    match saddValue (seenValue (dataOf hist key) (heap i)) (cstr target) with
    | .ok (some value) =>
      .set key value :: saddUpdates key heap (hist ++ [.set key value]) (i + 1) members
    | _ => saddUpdates key heap hist (i + 1) members

/-- The updates of a command after the updates `hist`. -/
def Cmd.updates (hist : List Update) : Cmd → List Update
  | .set fields =>
    match fields with
    | [key, value] => [.set key value]
    | _ => []
  | .mset fields => if fields.length % 2 ≠ 0 then [] else msetUpdates fields
  | .del fields => fields.map .del
  | .sadd fields heap =>
    match fields with
    | key :: member :: members => saddUpdates key heap hist 0 (member :: members)
    | _ => []

/-- The user keys a command names. -/
def Cmd.keys : Cmd → List Bytes
  | .set fields => fields.take 1
  | .mset fields => (msetUpdates fields).map Update.key
  | .del fields => fields
  | .sadd fields _ => fields.take 1

/-! ## Lemmas on updates -/

theorem dataOf_append (hist : List Update) (u : Update) :
    dataOf (hist ++ [u]) = Function.update (dataOf hist) u.key u.value := by
  simp [dataOf]

theorem dataOf_last {before after : List Update} {u : Update}
    (h : ∀ u' ∈ after, u'.key ≠ u.key) : dataOf (before ++ u :: after) u.key = u.value := by
  induction after using List.reverseRecOn with
  | nil => rw [dataOf_append, Function.update_self]
  | append_singleton after u' ih =>
    have hne : u.key ≠ u'.key := (h u' (by simp)).symm
    rw [← List.cons_append, ← List.append_assoc, dataOf_append, Function.update_of_ne hne]
    exact ih fun u'' hu'' => h u'' (List.mem_append_left _ hu'')

theorem binlogPut_eq (t : Server) (key value : Bytes) :
    binlogPut t key value = (binlogBatchPut t key value).map binlogBatchCommit := by
  unfold binlogPut binlogBatchPut binlogBatchLog
  cases t.binlog with
  | none => rfl
  | some bl =>
    cases encodeSeqValue key CMD_SET <;> rfl

end Supex.Tsdb
