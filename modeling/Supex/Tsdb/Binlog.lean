import Supex.Lib.Decimal
import Supex.Lib.OrdMap
import Supex.Tsdb.SeqKey

/-!
# TSDB — the binlog

A faithful model of `binlog.c`. Every `SET` and `DEL` of a master writes a
record into the store that also holds the user data: the key of the record is
its sequence number (`SeqKey`), its value a command byte and the user key. The
value of a `SET` is not logged; `get_binlog` reads it when the record is sent.

Conventions:

* LevelDB is an ordered map of byte strings with atomic write batches
  (`Lib.OrdMap`); its error returns are not taken.
* A copy behind the end of `w_val`, `r_val` or the message buffer is a `Fault`.
* `cur_seq` is read and written by the slave thread only and is part of its
  state, not of `Binlog`.
-/

namespace Supex.Tsdb

open Supex.Lib List

/-! ## The store -/

/-- A LevelDB database. -/
abbrev Ldb := OrdMap Bytes Bytes

/-- One operation of a `leveldb_writebatch_t`. -/
inductive BatchOp where
  | put (key value : Bytes)
  | delete (key : Bytes)

/-- The effect of one operation. -/
def BatchOp.apply (db : Ldb) : BatchOp → Ldb
  | .put key value => db.insert key value
  | .delete key => db.erase key

/-- `leveldb_write`: the operations of a batch, in order. -/
def leveldbWrite (db : Ldb) (wbatch : List BatchOp) : Ldb := wbatch.foldl BatchOp.apply db

/-- The length `leveldb_get` reports: 0 for a key that is not there. -/
def leveldbGetLen (db : Ldb) (key : Bytes) : Nat := ((db.get key).getD []).length

/-! ## Records -/

def BINLOG_MAX_VAL_SIZE : Nat := 512
def CMD_SET : UInt8 := 1
def CMD_DEL : UInt8 := 2

/-- `encode_seq_value` into `w_val`. -/
def encodeSeqValue (val : Bytes) (cmd : UInt8) : Except Fault Bytes :=
  if 1 + val.length ≤ BINLOG_MAX_VAL_SIZE then .ok (cmd :: val) else .error .memory

/-- `decode_seq_value` into `r_val`; `none` is `-1`. -/
def decodeSeqValue (seqVal : Bytes) : Except Fault (Option (UInt8 × Bytes)) :=
  match seqVal with
  | [] => .ok none
  | cmd :: val =>
    if val.length ≤ BINLOG_MAX_VAL_SIZE then .ok (some (cmd, val)) else .error .memory

/-! ## State -/

/-- `binlog_t`, without the position of the slave thread. -/
structure Binlog where
  minSeq : Nat
  lastSeq : Nat

/-- A TSDB process with the LevelDB engine: the store, the write batch being
filled, the binlog of a master (`NULL` without a slave) and the read-only
switch. -/
structure Server where
  db : Ldb
  wbatch : List BatchOp
  binlog : Option Binlog
  readonly : Bool

/-- `binlog_open` with `is_log` set. -/
def binlogOpen (db : Ldb) : Binlog where
  minSeq :=
    match db.seek (encodeSeqKey 0) with
    | some (key, _) => if decodeSeqKey key = u64Size - 1 then 1 else decodeSeqKey key
    | none => 1
  lastSeq :=
    match db.last with
    | some (key, _) => if decodeSeqKey key = u64Size - 1 then 0 else decodeSeqKey key
    | none => 0

/-! ## Logging -/

/-- `binlog_put`: record and data are one batch, and the counter moves after
the write. -/
def binlogPut (t : Server) (key value : Bytes) : Except Fault Server :=
  match t.binlog with
  | none =>
    .ok { t with db := leveldbWrite t.db (t.wbatch ++ [.put key value]), wbatch := [] }
  | some bl =>
    let seq := (bl.lastSeq + 1) % u64Size
    match encodeSeqValue key CMD_SET with
    | .error f => .error f
    | .ok val =>
      .ok { t with
        db := leveldbWrite t.db (t.wbatch ++ [.put (encodeSeqKey seq) val, .put key value])
        wbatch := []
        binlog := some { bl with lastSeq := seq } }

/-- The common part of `binlog_batch_put` and `binlog_batch_delete`: the counter
moves while the batch is filled. -/
def binlogBatchLog (t : Server) (key : Bytes) (cmd : UInt8) (op : BatchOp) : Except Fault Server :=
  match t.binlog with
  | none => .ok { t with wbatch := t.wbatch ++ [op] }
  | some bl =>
    let seq := (bl.lastSeq + 1) % u64Size
    match encodeSeqValue key cmd with
    | .error f => .error f
    | .ok val =>
      .ok { t with
        wbatch := t.wbatch ++ [.put (encodeSeqKey seq) val, op]
        binlog := some { bl with lastSeq := seq } }

def binlogBatchPut (t : Server) (key value : Bytes) : Except Fault Server :=
  binlogBatchLog t key CMD_SET (.put key value)

def binlogBatchDelete (t : Server) (key : Bytes) : Except Fault Server :=
  binlogBatchLog t key CMD_DEL (.delete key)

def binlogBatchCommit (t : Server) : Server :=
  { t with db := leveldbWrite t.db t.wbatch, wbatch := [] }

/-! ## Applying on the slave -/

def binlogSyncset (db : Ldb) (key value : Bytes) : Ldb := db.insert key value

/-- `binlog_syncdel`: a key without a value is taken as not there. -/
def binlogSyncdel (db : Ldb) (key : Bytes) : Ldb :=
  if leveldbGetLen db key = 0 then db else db.erase key

/-! ## Reading the binlog -/

/-- The result of `get_binlog`: `-1`, `0`, or `1` with the message. -/
inductive BinlogRead where
  | fail
  | expired
  | msg (bytes : Bytes)
  deriving DecidableEq

/-- `get_number_len`; a `size_t` has at most twenty digits. -/
def getNumberLenLoop : Nat → Nat → Nat
  | 0, _ => 0
  | fuel + 1, mlen => if mlen / 10 ≥ 1 then 1 + getNumberLenLoop fuel (mlen / 10) else 1

def getNumberLen (len : Nat) : Nat := getNumberLenLoop 20 len

def crlf : Bytes := [13, 10]

/-- `set_bulk`, for lengths an `int` can hold. -/
def setBulk (put : Bytes) : Bytes := 36 :: fmtU64 put.length ++ crlf ++ put ++ crlf

def syncsetHead : Bytes := ascii "*3" ++ crlf ++ ascii "$7" ++ crlf ++ ascii "SYNCSET" ++ crlf
def syncdelHead : Bytes := ascii "*2" ++ crlf ++ ascii "$7" ++ crlf ++ ascii "SYNCDEL" ++ crlf

/-- The end of both branches of `get_binlog`: the computed size `bvlen` is
checked against the buffer, `bvlen + 1` bytes are cleared, the message is
written and its size compared with the computed one. -/
def fillMsg (bvlen length : Nat) (msg : Bytes) : Except Fault BinlogRead :=
  if bvlen > length then .ok .fail
  else if length < bvlen + 1 then .error .memory
  else if msg.length ≠ bvlen then .ok .fail
  else .ok (.msg msg)

/-- `get_binlog` with a message buffer of `length` bytes. -/
def getBinlog (db : Ldb) (seq length : Nat) : Except Fault BinlogRead :=
  match (db.get (encodeSeqKey seq)).getD [] with
  | [] => .ok .expired
  | binValue =>
    match decodeSeqValue binValue with
    | .error f => .error f
    | .ok none => .ok .fail
    | .ok (some (cmd, key)) =>
      if cmd = CMD_SET then
        if leveldbGetLen db key = 0 then .ok .expired
        else
          let value := (db.get key).getD []
          fillMsg (2 + 3 + 7 * 2 + 1 + 7 + getNumberLen key.length + key.length +
              getNumberLen value.length + value.length) length
            (syncsetHead ++ setBulk key ++ setBulk value)
      else if cmd = CMD_DEL then
        fillMsg (2 + 2 + 5 * 2 + 1 + 7 + getNumberLen key.length + key.length) length
          (syncdelHead ++ setBulk key)
      else .ok .fail

def delBinlog (db : Ldb) (seq : Nat) : Ldb := db.erase (encodeSeqKey seq)

/-! ## What the operations do -/

theorem leveldbWrite_append (db : Ldb) (b₁ b₂ : List BatchOp) :
    leveldbWrite db (b₁ ++ b₂) = leveldbWrite (leveldbWrite db b₁) b₂ :=
  foldl_append ..

theorem leveldbGetLen_eq_zero {db : Ldb} {key : Bytes} :
    leveldbGetLen db key = 0 ↔ db.get key = none ∨ db.get key = some [] := by
  unfold leveldbGetLen
  cases db.get key <;> simp

theorem decDigits_length (fuel n : Nat) :
    (decDigits fuel n).length = getNumberLenLoop fuel n := by
  induction fuel generalizing n with
  | zero => rfl
  | succ fuel ih =>
    rw [decDigits, getNumberLenLoop]
    by_cases h : n < 10
    · have hdiv : ¬(n / 10 ≥ 1) := by omega
      rw [if_pos h, if_neg hdiv]
      rfl
    · have hdiv : n / 10 ≥ 1 := by omega
      rw [if_neg h, if_pos hdiv, length_append, ih]
      simp [Nat.add_comm]

theorem setBulk_length (put : Bytes) :
    (setBulk put).length = 1 + getNumberLen put.length + 2 + put.length + 2 := by
  simp [setBulk, fmtU64, decDigits_length, getNumberLen, crlf]
  omega

/-- The size `get_binlog` computes is the size of the message it writes, so
its last check never fails. -/
theorem syncset_length (key value : Bytes) :
    (syncsetHead ++ setBulk key ++ setBulk value).length =
      2 + 3 + 7 * 2 + 1 + 7 + getNumberLen key.length + key.length +
        getNumberLen value.length + value.length := by
  have hhead : syncsetHead.length = 17 := by decide
  rw [length_append, length_append, setBulk_length, setBulk_length, hhead]
  omega

theorem syncdel_length (key : Bytes) :
    (syncdelHead ++ setBulk key).length =
      2 + 2 + 5 * 2 + 1 + 7 + getNumberLen key.length + key.length := by
  have hhead : syncdelHead.length = 17 := by decide
  rw [length_append, setBulk_length, hhead]
  omega

end Supex.Tsdb
