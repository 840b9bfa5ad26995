import Supex.Lib.Access
import Supex.Tsdb.Commands

/-!
# TSDB — the binlog's buffers

`bl_buf` is one block of memory with the two buffers a record is put together in
(`w_key`, `w_val`), the two it is taken apart in (`r_key`, `r_val`) and the four
lengths. The model of `Binlog` calls a copy behind the end of a buffer a `Fault`;
here the copies are made, and what the batch is handed is read back from the block.
The layout is that of an 8-byte `size_t`.

Main results: `logRecord_put`, `Cmd.execAt_exec`, `inside_iff`.
-/

namespace Supex.Tsdb

open Supex.Lib
open List hiding Mem

--
-- bl_buf_t
--

def BINLOG_MAX_KEY_SIZE : Nat := 16

/-- The members of `bl_buf_t`. -/
inductive BlBuf where
  | wKey
  | wVal
  | wkLen
  | wvLen
  | rKey
  | rVal
  | rkLen
  | rvLen
  deriving DecidableEq

/-- The bytes of a member. -/
def BlBuf.size : BlBuf → Nat
  | .wKey => BINLOG_MAX_KEY_SIZE
  | .wVal => BINLOG_MAX_VAL_SIZE
  | .wkLen => 8
  | .wvLen => 8
  | .rKey => BINLOG_MAX_KEY_SIZE
  | .rVal => BINLOG_MAX_VAL_SIZE
  | .rkLen => 8
  | .rvLen => 8

/-- Where a member lies. -/
def BlBuf.offset : BlBuf → Int
  | .wKey => 0
  | .wVal => 16
  | .wkLen => 528
  | .wvLen => 536
  | .rKey => 544
  | .rVal => 560
  | .rkLen => 1072
  | .rvLen => 1080

/-- The end of a member. -/
def BlBuf.stop (f : BlBuf) : Int := f.offset + f.size

/-- A `size_t` member. -/
def getSize (buf : Mem) (f : BlBuf) : Nat := leVal (buf.load f.offset 8)

--
-- The codecs
--

/-- `encode_seq_key`. -/
def encodeSeqKeyAt (seq : Nat) (key : Int) : Writes :=
  [(key, [0xff]), (key + 1, le64 (bigEndianU64 seq))]

/-- `encode_seq_value`. -/
def encodeSeqValueAt (val : Bytes) (cmd : UInt8) (seqVal : Int) : Writes :=
  [(seqVal, [cmd]), (seqVal + 1, val)]

/-- `decode_seq_value`. -/
def decodeSeqValueAt (seqVal : Bytes) (val : Int) : Writes :=
  match seqVal with
  | [] => []
  | _ :: bytes => [(val, bytes)]

/-- `write log.` -/
def logWrites (seq : Nat) (key : Bytes) (cmd : UInt8) : Writes :=
  encodeSeqKeyAt seq BlBuf.wKey.offset ++ (BlBuf.wkLen.offset, le64 9) ::
    (encodeSeqValueAt key cmd BlBuf.wVal.offset ++
      [(BlBuf.wvLen.offset, le64 (1 + key.length))])

/-- `leveldb_writebatch_put` of the record. -/
def recordPut (buf : Mem) : BatchOp :=
  .put (buf.load BlBuf.wKey.offset (getSize buf .wkLen))
    (buf.load BlBuf.wVal.offset (getSize buf .wvLen))

--
-- Logging
--

/-- A process with `bl_buf`, and what `encode_seq_value` has written to it. -/
structure LogState where
  server : Server
  blBuf : Mem
  encoded : Writes

/-- `binlog_put`. -/
def binlogPutAt (st : LogState) (key value : Bytes) : LogState :=
  match st.server.binlog with
  | none =>
    { st with server :=
      { st.server with
        db := leveldbWrite st.server.db (st.server.wbatch ++ [.put key value]), wbatch := [] } }
  | some bl =>
    let seq := (bl.lastSeq + 1) % u64Size
    let buf := st.blBuf.write (logWrites seq key CMD_SET)
    { server := { st.server with
        db := leveldbWrite st.server.db (st.server.wbatch ++ [recordPut buf, .put key value])
        wbatch := []
        binlog := some { bl with lastSeq := seq } }
      blBuf := buf
      encoded := st.encoded ++ encodeSeqValueAt key CMD_SET BlBuf.wVal.offset }

/-- The common part of `binlog_batch_put` and `binlog_batch_delete`. -/
def binlogBatchLogAt (st : LogState) (key : Bytes) (cmd : UInt8) (op : BatchOp) : LogState :=
  match st.server.binlog with
  | none => { st with server := { st.server with wbatch := st.server.wbatch ++ [op] } }
  | some bl =>
    let seq := (bl.lastSeq + 1) % u64Size
    let buf := st.blBuf.write (logWrites seq key cmd)
    { server := { st.server with
        wbatch := st.server.wbatch ++ [recordPut buf, op]
        binlog := some { bl with lastSeq := seq } }
      blBuf := buf
      encoded := st.encoded ++ encodeSeqValueAt key cmd BlBuf.wVal.offset }

/-- `binlog_batch_commit`. -/
def binlogBatchCommitAt (st : LogState) : LogState :=
  { st with server := binlogBatchCommit st.server }

/-- `tsdb_ldb_set`. -/
def tsdbLdbSetAt (st : LogState) (fields : List Bytes) : Except Fault Bytes × LogState :=
  match fields with
  | [key, value] =>
    if st.server.readonly then (.ok OPT_CMD_ERROR, st) else (.ok OPT_OK, binlogPutAt st key value)
  | _ => (.ok OPT_CMD_ERROR, st)

/-- The loop of `tsdb_ldb_del`. -/
def delLoopAt (st : LogState) (fields : List Bytes) : LogState :=
  fields.foldl (fun st key => binlogBatchLogAt st key CMD_DEL (.delete key)) st

/-- `tsdb_ldb_del`. -/
def tsdbLdbDelAt (st : LogState) (fields : List Bytes) : Except Fault Bytes × LogState :=
  if st.server.readonly ∨ fields.length < 1 then (.ok OPT_CMD_ERROR, st)
  else (.ok (58 :: fmtU64 fields.length ++ crlf), binlogBatchCommitAt (delLoopAt st fields))

/-- The loop of `tsdb_ldb_mset`, over pairs of fields. -/
def msetLoopAt : LogState → List Bytes → LogState
  | st, key :: value :: fields =>
    msetLoopAt (binlogBatchLogAt st key CMD_SET (.put key value)) fields
  | st, _ => st

/-- `tsdb_ldb_mset`. -/
def tsdbLdbMsetAt (st : LogState) (fields : List Bytes) : Except Fault Bytes × LogState :=
  if st.server.readonly ∨ fields.length < 1 ∨ fields.length % 2 ≠ 0 then (.ok OPT_CMD_ERROR, st)
  else (.ok OPT_OK, binlogBatchCommitAt (msetLoopAt st fields))

/-- The loop of `tsdb_ldb_sadd`. -/
def saddLoopAt (key : Bytes) (heap : Nat → Bytes) :
    LogState → Nat → List Bytes → Except Fault Bytes × LogState
  | st, _, [] => (.ok OPT_OK, st)
  | st, i, target :: members =>
    match saddValue (seenValue (st.server.db.get key) (heap i)) (cstr target) with
    | .error f => (.error f, st)
    | .ok none => saddLoopAt key heap st (i + 1) members
    | .ok (some value) => saddLoopAt key heap (binlogPutAt st key value) (i + 1) members

/-- `tsdb_ldb_sadd`. -/
def tsdbLdbSaddAt (st : LogState) (fields : List Bytes) (heap : Nat → Bytes) :
    Except Fault Bytes × LogState :=
  match fields with
  | key :: member :: members =>
    if st.server.readonly then (.ok OPT_CMD_ERROR, st)
    else saddLoopAt key heap st 0 (member :: members)
  | _ => (.ok OPT_CMD_ERROR, st)

/-- The handler of a command: the reply, or how the process dies, and the state. -/
def Cmd.execAt (st : LogState) : Cmd → Except Fault Bytes × LogState
  | .set fields => tsdbLdbSetAt st fields
  | .mset fields => tsdbLdbMsetAt st fields
  | .del fields => tsdbLdbDelAt st fields
  | .sadd fields heap => tsdbLdbSaddAt st fields heap

--
-- Writes and members
--

theorem encodeSeqKeyAt_within (seq : Nat) (key : Int) :
    (encodeSeqKeyAt seq key).Within key (key + 9) := by
  refine Writes.within_cons.mpr ⟨?_, Writes.within_cons.mpr ⟨?_, Writes.within_nil _ _⟩⟩
  · exact fun _ => ⟨le_rfl, by simp [writeSpan]⟩
  · exact fun _ => ⟨by simp [writeSpan], by simp [writeSpan]; omega⟩

/-- **`encode_seq_value`** stays inside `w_val` for keys of at most 511 bytes. -/
theorem encodeSeqValueAt_within_iff (val : Bytes) (cmd : UInt8) :
    (encodeSeqValueAt val cmd BlBuf.wVal.offset).Within BlBuf.wVal.offset BlBuf.wVal.stop ↔
      val.length < BINLOG_MAX_VAL_SIZE := by
  have hoffset : BlBuf.wVal.offset = 16 := rfl
  have hstop : BlBuf.wVal.stop = 528 := rfl
  have hmax : BINLOG_MAX_VAL_SIZE = 512 := rfl
  unfold encodeSeqValueAt
  rw [Writes.within_cons, Writes.within_cons, and_iff_left (Writes.within_nil _ _), hoffset, hstop,
    hmax]
  unfold Span.Within writeSpan
  rw [length_singleton]
  dsimp only
  omega

/-- **`decode_seq_value`** stays inside `r_val` for records of at most 513 bytes. -/
theorem decodeSeqValueAt_within_iff (seqVal : Bytes) :
    (decodeSeqValueAt seqVal BlBuf.rVal.offset).Within BlBuf.rVal.offset BlBuf.rVal.stop ↔
      seqVal.length ≤ 1 + BINLOG_MAX_VAL_SIZE := by
  have hoffset : BlBuf.rVal.offset = 560 := rfl
  have hstop : BlBuf.rVal.stop = 1072 := rfl
  have hmax : BINLOG_MAX_VAL_SIZE = 512 := rfl
  cases seqVal with
  | nil => exact iff_of_true (Writes.within_nil _ _) (Nat.zero_le _)
  | cons cmd val =>
    unfold decodeSeqValueAt
    rw [Writes.within_cons, and_iff_left (Writes.within_nil _ _), hoffset, hstop, hmax]
    unfold Span.Within writeSpan
    rw [length_cons]
    dsimp only
    omega

theorem storeSize_within (f : BlBuf) (n : Nat) (hsize : f.size = 8) :
    Writes.Within f.offset f.stop [(f.offset, le64 n)] := by
  refine Writes.within_cons.mpr ⟨fun _ => ⟨le_rfl, ?_⟩, Writes.within_nil _ _⟩
  show f.offset + (le64 n).length ≤ f.offset + f.size
  rw [le64_length, hsize]

theorem logWrites_within {key : Bytes} (hkey : key.length < BINLOG_MAX_VAL_SIZE) (seq : Nat)
    (cmd : UInt8) : (logWrites seq key cmd).Within BlBuf.wKey.offset BlBuf.rKey.offset := by
  have hval := (encodeSeqValueAt_within_iff key cmd).mpr hkey
  have hwk := storeSize_within .wkLen 9 rfl
  have hwv := storeSize_within .wvLen (1 + key.length) rfl
  refine Writes.within_append.mpr ⟨fun w hw => ?_, Writes.within_cons.mpr ⟨?_,
    Writes.within_append.mpr ⟨fun w hw => ?_, fun w hw => ?_⟩⟩⟩
  · exact (encodeSeqKeyAt_within seq _ w hw).mono le_rfl (by decide)
  · exact (hwk _ (.head _)).mono (by decide) (by decide)
  · exact (hval w hw).mono (by decide) (by decide)
  · exact (hwv w hw).mono (by decide) (by decide)

theorem getSize_of_holds {buf : Mem} {f : BlBuf} {n : Nat} (h : buf.Holds f.offset (le64 n))
    (hn : n < u64Size) : getSize buf f = n := by
  have hload : buf.load f.offset 8 = le64 n := by
    have hlen : (le64 n).length = 8 := le64_length n
    unfold Mem.Holds at h
    rwa [hlen] at h
  rw [getSize, hload, leVal_le64 hn]

/-- **The record** is what the batch is handed, where the key fits. -/
theorem logRecord_put {key : Bytes} (hkey : key.length < BINLOG_MAX_VAL_SIZE) (buf : Mem)
    (seq : Nat) (cmd : UInt8) :
    recordPut (buf.write (logWrites seq key cmd)) = .put (encodeSeqKey seq) (cmd :: key) := by
  have hmax : BINLOG_MAX_VAL_SIZE = 512 := rfl
  have hval := (encodeSeqValueAt_within_iff key cmd).mpr hkey
  have hwv := storeSize_within .wvLen (1 + key.length) rfl
  -- the four strings, each where it was written
  have hbytes (m : Mem) : m.write (encodeSeqKeyAt seq BlBuf.wKey.offset) =
      m.store BlBuf.wKey.offset (encodeSeqKey seq) := Mem.store_byte m _ _ _ _ rfl
  have hrecord (m : Mem) : m.write (encodeSeqValueAt key cmd BlBuf.wVal.offset) =
      m.store BlBuf.wVal.offset (cmd :: key) := Mem.store_byte m _ _ _ _ rfl
  have hsplit : buf.write (logWrites seq key cmd) =
      (((buf.store BlBuf.wKey.offset (encodeSeqKey seq)).write [(BlBuf.wkLen.offset, le64 9)]).write
        (encodeSeqValueAt key cmd BlBuf.wVal.offset)).write
          [(BlBuf.wvLen.offset, le64 (1 + key.length))] := by
    unfold logWrites
    rw [Mem.write_append, hbytes, Mem.write, Mem.write_append]
    rfl
  have hwKey : (buf.write (logWrites seq key cmd)).Holds BlBuf.wKey.offset (encodeSeqKey seq) := by
    rw [hsplit]
    refine ((Mem.holds_store buf _ _).write (storeSize_within .wkLen 9 rfl) ?_).write hval ?_
      |>.write hwv ?_ <;> rw [encodeSeqKey_length] <;> exact .inl (by decide)
  have hwkLen : (buf.write (logWrites seq key cmd)).Holds BlBuf.wkLen.offset (le64 9) := by
    rw [hsplit]
    refine ((Mem.holds_store _ BlBuf.wkLen.offset (le64 9)).write hval ?_).write hwv ?_
    · exact .inr (by decide)
    · rw [le64_length]
      exact .inl (by decide)
  have hwVal : (buf.write (logWrites seq key cmd)).Holds BlBuf.wVal.offset (cmd :: key) := by
    rw [hsplit, hrecord]
    refine (Mem.holds_store _ BlBuf.wVal.offset (cmd :: key)).write hwv (.inl ?_)
    rw [length_cons]
    show (16 : Int) + ((key.length + 1 : Nat) : Int) ≤ 536
    omega
  have hwvLen : (buf.write (logWrites seq key cmd)).Holds BlBuf.wvLen.offset
      (le64 (1 + key.length)) := by
    rw [hsplit]
    exact Mem.holds_store _ _ _
  have hlen : 1 + key.length = (cmd :: key).length := by
    rw [length_cons]
    omega
  have hsmall : 1 + key.length < u64Size := by
    unfold u64Size
    omega
  unfold recordPut
  rw [getSize_of_holds hwkLen (by decide), getSize_of_holds hwvLen hsmall, hlen,
    ← encodeSeqKey_length seq]
  exact congrArg₂ BatchOp.put hwKey hwVal

--
-- What a command logs
--

/-- `st'` comes from `st` by logging some keys, each with its command byte. -/
structure Logs (st st' : LogState) (calls : List (Bytes × UInt8)) : Prop where
  encoded : st'.encoded =
    st.encoded ++ calls.flatMap fun c => encodeSeqValueAt c.1 c.2 BlBuf.wVal.offset
  frame : (∀ c ∈ calls, c.1.length < BINLOG_MAX_VAL_SIZE) →
    ∀ i, i < BlBuf.wKey.offset ∨ BlBuf.rKey.offset ≤ i → st'.blBuf i = st.blBuf i
  binlog : st'.server.binlog.isSome = st.server.binlog.isSome

theorem Logs.refl (st : LogState) : Logs st st [] where
  encoded := (append_nil _).symm
  frame _ _ _ := rfl
  binlog := rfl

variable {st st' : LogState} {fields : List Bytes} {calls xs : List (Bytes × UInt8)}

theorem Logs.trans {st'' : LogState} {ys : List (Bytes × UInt8)} (h : Logs st st' xs)
    (h' : Logs st' st'' ys) : Logs st st'' (xs ++ ys) where
  encoded := by rw [h'.encoded, h.encoded, flatMap_append, append_assoc]
  frame hkeys i hi := by
    obtain ⟨hxs, hys⟩ := forall_mem_append.mp hkeys
    rw [h'.frame hys i hi, h.frame hxs i hi]
  binlog := h'.binlog.trans h.binlog

/-- The calls that reach the binlog. -/
def callsOf (st : LogState) (calls : List (Bytes × UInt8)) : List (Bytes × UInt8) :=
  if st.server.binlog.isSome then calls else []

theorem binlogPutAt_logs (st : LogState) (key value : Bytes) :
    Logs st (binlogPutAt st key value) (callsOf st [(key, CMD_SET)]) := by
  unfold binlogPutAt callsOf
  cases hbl : st.server.binlog with
  | none => exact ⟨(append_nil _).symm, fun _ _ _ => rfl, hbl.symm ▸ rfl⟩
  | some bl =>
    refine ⟨?_, fun hkeys i hi => ?_, hbl.symm ▸ rfl⟩
    · exact congrArg (st.encoded ++ ·) (append_nil _).symm
    · exact Mem.write_frame _ (logWrites_within (hkeys _ (.head _)) _ _) hi

theorem binlogBatchLogAt_logs (st : LogState) (key : Bytes) (cmd : UInt8) (op : BatchOp) :
    Logs st (binlogBatchLogAt st key cmd op) (callsOf st [(key, cmd)]) := by
  unfold binlogBatchLogAt callsOf
  cases hbl : st.server.binlog with
  | none => exact ⟨(append_nil _).symm, fun _ _ _ => rfl, hbl.symm ▸ rfl⟩
  | some bl =>
    refine ⟨?_, fun hkeys i hi => ?_, hbl.symm ▸ rfl⟩
    · exact congrArg (st.encoded ++ ·) (append_nil _).symm
    · exact Mem.write_frame _ (logWrites_within (hkeys _ (.head _)) _ _) hi

theorem callsOf_nil (st : LogState) : callsOf st [] = [] := ite_self _

theorem Logs.nil (st : LogState) : Logs st st (callsOf st []) := by
  rw [callsOf_nil]
  exact .refl st

theorem Logs.commit (h : Logs st st' xs) :
    Logs st (binlogBatchCommitAt st') xs := ⟨h.encoded, h.frame, h.binlog⟩

theorem callsOf_append (st : LogState) (xs ys : List (Bytes × UInt8)) :
    callsOf st (xs ++ ys) = callsOf st xs ++ callsOf st ys := by
  unfold callsOf
  split <;> rfl

theorem Logs.callsOf_eq (h : Logs st st' xs) (calls : List (Bytes × UInt8)) :
    callsOf st' calls = callsOf st calls := by
  unfold callsOf
  rw [h.binlog]

theorem Logs.cons {st'' : LogState} {c : Bytes × UInt8} (h : Logs st st' (callsOf st [c]))
    (h' : Logs st' st'' (callsOf st' calls)) : Logs st st'' (callsOf st (c :: calls)) := by
  have hsplit := callsOf_append st [c] calls
  rw [singleton_append] at hsplit
  rw [hsplit, ← h.callsOf_eq calls]
  exact h.trans h'

theorem delLoopAt_logs (st : LogState) (fields : List Bytes) :
    Logs st (delLoopAt st fields) (callsOf st (fields.map fun key => (key, CMD_DEL))) := by
  induction fields generalizing st with
  | nil => exact .nil st
  | cons key fields ih => exact (binlogBatchLogAt_logs st key CMD_DEL (.delete key)).cons (ih _)

theorem msetLoopAt_logs (st : LogState) (fields : List Bytes) :
    Logs st (msetLoopAt st fields)
      (callsOf st ((msetUpdates fields).map fun u => (u.key, CMD_SET))) := by
  fun_induction msetLoopAt st fields with
  | case1 st key value fields ih =>
    exact (binlogBatchLogAt_logs st key CMD_SET (.put key value)).cons ih
  | case2 fields st hfields =>
    have hupdates : msetUpdates fields = [] := by
      unfold msetUpdates
      split
      · exact absurd rfl (hfields _ _ _)
      · rfl
    rw [hupdates]
    exact .nil st

/-- A member of the command is added: it is the first that is not found under the
key. -/
def saddLogs (stored : Option Bytes) (heap : Nat → Bytes) : Nat → List Bytes → Bool
  | _, [] => false
  | i, target :: members =>
    match saddValue (seenValue stored (heap i)) (cstr target) with
    | .error _ => false
    | .ok none => saddLogs stored heap (i + 1) members
    | .ok (some _) => true

theorem saddLoopAt_logs (key : Bytes) (heap : Nat → Bytes) (st : LogState) (i : Nat)
    (members : List Bytes) :
    ∃ n, Logs st (saddLoopAt key heap st i members).2
        (callsOf st (List.replicate n (key, CMD_SET))) ∧
      (0 < n ↔ saddLogs (st.server.db.get key) heap i members = true) := by
  induction members generalizing st i with
  | nil => exact ⟨0, .nil st, by simp [saddLogs]⟩
  | cons target members ih =>
    rw [saddLoopAt, saddLogs]
    cases saddValue (seenValue (st.server.db.get key) (heap i)) (cstr target) with
    | error f => exact ⟨0, .nil st, by simp⟩
    | ok value =>
      cases value with
      | none => exact ih st (i + 1)
      | some value =>
        obtain ⟨n, hlogs, -⟩ := ih (binlogPutAt st key value) (i + 1)
        exact ⟨n + 1, (binlogPutAt_logs st key value).cons hlogs, by simp⟩

theorem Cmd.execAt_readonly (h : st.server.readonly = true) (c : Cmd) : (c.execAt st).2 = st := by
  cases c with
  | set fields =>
    show (tsdbLdbSetAt st fields).2 = st
    unfold tsdbLdbSetAt
    split
    · rw [if_pos h]
    · rfl
  | mset fields => exact congrArg Prod.snd (if_pos (.inl h))
  | del fields => exact congrArg Prod.snd (if_pos (.inl h))
  | sadd fields heap =>
    show (tsdbLdbSaddAt st fields heap).2 = st
    unfold tsdbLdbSaddAt
    split
    · rw [if_pos h]
    · rfl

/-- The key `SET` logs. -/
def setKeys (fields : List Bytes) : List Bytes :=
  match fields with
  | [key, _] => [key]
  | _ => []

/-- The keys `MSET` logs. -/
def msetKeys (fields : List Bytes) : List Bytes :=
  if fields.length % 2 ≠ 0 then [] else (msetUpdates fields).map Update.key

/-- The key `SADD` logs. -/
def saddKeys (t : Server) (fields : List Bytes) (heap : Nat → Bytes) : List Bytes :=
  match fields with
  | key :: member :: members =>
    if saddLogs (t.db.get key) heap 0 (member :: members) then [key] else []
  | _ => []

/-- The keys a command logs where there is a binlog to log them to. -/
def Cmd.loggedKeys (t : Server) : Cmd → List Bytes
  | .set fields => setKeys fields
  | .mset fields => msetKeys fields
  | .del fields => fields
  | .sadd fields heap => saddKeys t fields heap

theorem tsdbLdbSetAt_logs (h : ¬ st.server.readonly = true) (fields : List Bytes) :
    ∃ calls, Logs st (tsdbLdbSetAt st fields).2 (callsOf st calls) ∧
      ∀ key, key ∈ calls.map Prod.fst ↔ key ∈ setKeys fields := by
  unfold tsdbLdbSetAt setKeys
  split
  · next key value =>
    rw [if_neg h]
    exact ⟨[(key, CMD_SET)], binlogPutAt_logs st key value, fun _ => Iff.rfl⟩
  · exact ⟨[], .nil st, fun _ => Iff.rfl⟩

theorem tsdbLdbMsetAt_logs (h : ¬ st.server.readonly = true) (fields : List Bytes) :
    ∃ calls, Logs st (tsdbLdbMsetAt st fields).2 (callsOf st calls) ∧
      ∀ key, key ∈ calls.map Prod.fst ↔ key ∈ msetKeys fields := by
  unfold tsdbLdbMsetAt msetKeys
  by_cases hodd : fields.length % 2 ≠ 0
  · rw [if_pos (.inr (.inr hodd)), if_pos hodd]
    exact ⟨[], .nil st, fun _ => Iff.rfl⟩
  · rw [if_neg hodd]
    by_cases hempty : fields.length < 1
    · obtain rfl := length_eq_zero_iff.mp (Nat.lt_one_iff.mp hempty)
      rw [if_pos (.inr (.inl hempty))]
      exact ⟨[], .nil st, fun _ => Iff.rfl⟩
    · rw [if_neg (not_or_intro h (not_or_intro hempty hodd))]
      refine ⟨_, (msetLoopAt_logs st fields).commit, fun key => ?_⟩
      rw [map_map]
      rfl

theorem tsdbLdbDelAt_logs (h : ¬ st.server.readonly = true) (fields : List Bytes) :
    ∃ calls, Logs st (tsdbLdbDelAt st fields).2 (callsOf st calls) ∧
      ∀ key, key ∈ calls.map Prod.fst ↔ key ∈ fields := by
  unfold tsdbLdbDelAt
  by_cases hempty : fields.length < 1
  · obtain rfl := length_eq_zero_iff.mp (Nat.lt_one_iff.mp hempty)
    rw [if_pos (.inr hempty)]
    exact ⟨[], .nil st, fun _ => Iff.rfl⟩
  · rw [if_neg (not_or_intro h hempty)]
    refine ⟨_, (delLoopAt_logs st fields).commit, fun key => ?_⟩
    rw [map_map, show (Prod.fst ∘ fun key : Bytes => (key, CMD_DEL)) = id from rfl,
      map_id]

theorem tsdbLdbSaddAt_logs (h : ¬ st.server.readonly = true) (fields : List Bytes)
    (heap : Nat → Bytes) :
    ∃ calls, Logs st (tsdbLdbSaddAt st fields heap).2 (callsOf st calls) ∧
      ∀ key, key ∈ calls.map Prod.fst ↔ key ∈ saddKeys st.server fields heap := by
  unfold tsdbLdbSaddAt saddKeys
  split
  · next key member members =>
    rw [if_neg h]
    obtain ⟨n, hlogs, hn⟩ := saddLoopAt_logs key heap st 0 (member :: members)
    refine ⟨_, hlogs, fun key' => ?_⟩
    rw [map_replicate, mem_replicate]
    split
    · next hadded => simp [hn.mpr hadded |>.ne']
    · next hnone => simp [Nat.eq_zero_of_not_pos (mt hn.mp hnone)]
  · exact ⟨[], .nil st, fun _ => Iff.rfl⟩

theorem Cmd.execAt_logs (h : ¬ st.server.readonly = true) (c : Cmd) :
    ∃ calls, Logs st (c.execAt st).2 (callsOf st calls) ∧
      ∀ key, key ∈ calls.map Prod.fst ↔ key ∈ c.loggedKeys st.server :=
  match c with
  | .set fields => tsdbLdbSetAt_logs h fields
  | .mset fields => tsdbLdbMsetAt_logs h fields
  | .del fields => tsdbLdbDelAt_logs h fields
  | .sadd fields heap => tsdbLdbSaddAt_logs h fields heap

--
-- Inside the buffers
--

/-- What `get_binlog` does to `bl_buf` up to `get binlog corresponding key`: the
writes of `decode_seq_value`, and the block behind them. -/
def getBinlogBuf (st : LogState) (seq : Nat) : Writes × Mem :=
  let buf := (st.blBuf.write (encodeSeqKeyAt seq BlBuf.rKey.offset)).write
    [(BlBuf.rkLen.offset, le64 9)]
  match (st.server.db.get (encodeSeqKey seq)).getD [] with
  | [] => ([], buf)
  | binValue =>
    let decoded := decodeSeqValueAt binValue BlBuf.rVal.offset
    (decoded, (buf.write decoded).write [(BlBuf.rvLen.offset, le64 (binValue.length - 1))])

/-- A use of the buffers: a command is logged, or a record is read to be sent. -/
inductive BlStep where
  | log (c : Cmd)
  | send (seq : Nat)

/-- `encode_seq_value` and `decode_seq_value` write only inside `w_val` and `r_val`,
and all that changes are the four members of the side that is used. -/
def Inside (st : LogState) : BlStep → Prop
  | .log c =>
    let st' := (c.execAt { st with encoded := [] }).2
    st'.encoded.Within BlBuf.wVal.offset BlBuf.wVal.stop ∧
      ∀ i, i < BlBuf.wKey.offset ∨ BlBuf.rKey.offset ≤ i → st'.blBuf i = st.blBuf i
  | .send seq =>
    let (decoded, buf) := getBinlogBuf st seq
    decoded.Within BlBuf.rVal.offset BlBuf.rVal.stop ∧
      ∀ i, i < BlBuf.rKey.offset ∨ BlBuf.rvLen.stop ≤ i → buf i = st.blBuf i

/-- The keys that are logged fit into `w_val` behind the command byte, and the record
that is read into `r_val` without it. -/
def Fits (st : LogState) : BlStep → Prop
  | .log c => st.server.readonly = true ∨ st.server.binlog = none ∨
      ∀ key ∈ c.loggedKeys st.server, key.length < BINLOG_MAX_VAL_SIZE
  | .send seq => leveldbGetLen st.server.db (encodeSeqKey seq) ≤ 1 + BINLOG_MAX_VAL_SIZE

theorem Logs.writes_iff (h : Logs st st' calls) (hst : st.encoded = []) :
    (st'.encoded.Within BlBuf.wVal.offset BlBuf.wVal.stop ∧
        ∀ i, i < BlBuf.wKey.offset ∨ BlBuf.rKey.offset ≤ i → st'.blBuf i = st.blBuf i) ↔
      ∀ key ∈ calls.map Prod.fst, key.length < BINLOG_MAX_VAL_SIZE := by
  have hwithin : st'.encoded.Within BlBuf.wVal.offset BlBuf.wVal.stop ↔
      ∀ c ∈ calls, c.1.length < BINLOG_MAX_VAL_SIZE := by
    rw [h.encoded, hst, nil_append]
    unfold Writes.Within
    rw [forall_mem_flatMap]
    exact forall₂_congr fun c _ => encodeSeqValueAt_within_iff c.1 c.2
  rw [hwithin, forall_mem_map]
  exact ⟨And.left, fun hkeys => ⟨hkeys, h.frame hkeys⟩⟩

theorem log_inside_iff (st : LogState) (c : Cmd) : Inside st (.log c) ↔ Fits st (.log c) := by
  by_cases hread : st.server.readonly = true
  · have hsame : (c.execAt { st with encoded := [] }).2 = { st with encoded := [] } :=
      @Cmd.execAt_readonly { st with encoded := [] } hread c
    refine iff_of_true ?_ (.inl hread)
    unfold Inside
    dsimp only
    rw [hsame]
    exact ⟨Writes.within_nil _ _, fun _ _ => rfl⟩
  · obtain ⟨calls, hlogs, hkeys⟩ := @Cmd.execAt_logs { st with encoded := [] } hread c
    have hinside := hlogs.writes_iff rfl
    unfold Inside Fits
    dsimp only
    rw [hinside, or_iff_right hread]
    unfold callsOf
    cases hbl : st.server.binlog with
    | none => exact iff_of_true nofun (.inl rfl)
    | some bl =>
      rw [or_iff_right nofun]
      exact forall_congr' fun key => imp_congr_left (hkeys key)

theorem send_inside_iff (st : LogState) (seq : Nat) :
    Inside st (.send seq) ↔ Fits st (.send seq) := by
  have hkey := encodeSeqKeyAt_within seq BlBuf.rKey.offset
  have hrk := storeSize_within .rkLen 9 rfl
  have hframe (i : Int) (hi : i < BlBuf.rKey.offset ∨ BlBuf.rvLen.stop ≤ i) :
      ((st.blBuf.write (encodeSeqKeyAt seq BlBuf.rKey.offset)).write
        [(BlBuf.rkLen.offset, le64 9)]) i = st.blBuf i := by
    have hout : i < BlBuf.rkLen.offset ∨ BlBuf.rkLen.stop ≤ i :=
      hi.imp (fun h => h.trans (by decide)) ((by decide : BlBuf.rkLen.stop ≤ _).trans ·)
    have hout' : i < BlBuf.rKey.offset ∨ BlBuf.rKey.offset + 9 ≤ i :=
      hi.imp_right ((by decide : BlBuf.rKey.offset + 9 ≤ _).trans ·)
    rw [Mem.write_frame _ hrk hout, Mem.write_frame _ hkey hout']
  unfold Inside Fits getBinlogBuf leveldbGetLen
  dsimp only
  generalize (st.server.db.get (encodeSeqKey seq)).getD [] = binValue
  cases binValue with
  | nil => exact iff_of_true ⟨Writes.within_nil _ _, hframe⟩ (Nat.zero_le _)
  | cons cmd key =>
    dsimp only
    rw [decodeSeqValueAt_within_iff, and_iff_left_iff_imp]
    intro hlen i hi
    have hdecoded := (decodeSeqValueAt_within_iff (cmd :: key)).mpr hlen
    have hrv := storeSize_within .rvLen ((cmd :: key).length - 1) rfl
    have hout : i < BlBuf.rvLen.offset ∨ BlBuf.rvLen.stop ≤ i :=
      hi.imp_left fun h => h.trans (by decide)
    have hout' : i < BlBuf.rVal.offset ∨ BlBuf.rVal.stop ≤ i :=
      hi.imp (fun h => h.trans (by decide)) ((by decide : BlBuf.rVal.stop ≤ _).trans ·)
    rw [Mem.write_frame _ hrv hout, Mem.write_frame _ hdecoded hout', hframe i hi]

/-- **Buffers.** A command and a send stay inside the buffers exactly when what is
logged or read fits. -/
theorem inside_iff (st : LogState) (step : BlStep) : Inside st step ↔ Fits st step := by
  cases step with
  | log c => exact log_inside_iff st c
  | send seq => exact send_inside_iff st seq

/-- A master with an empty store. -/
def freshLog : LogState where
  server := { db := .empty, wbatch := [], binlog := some (binlogOpen .empty), readonly := false }
  blBuf := fun _ => 0
  encoded := []

/-- `DEL` of a key of 512 bytes: the last of them is copied over `wk_len`. -/
theorem del_long_key : ¬ Inside freshLog (.log (.del [List.replicate 512 107])) := by
  intro h
  have hwithin : (encodeSeqValueAt (List.replicate 512 107) CMD_DEL BlBuf.wVal.offset).Within
      BlBuf.wVal.offset BlBuf.wVal.stop := h.1
  rw [encodeSeqValueAt_within_iff, length_replicate] at hwithin
  exact absurd hwithin (by decide)

--
-- The commands of the model without memory
--

theorem binlogBatchLogAt_eq {key : Bytes}
    (h : st.server.binlog = none ∨ key.length < BINLOG_MAX_VAL_SIZE) (cmd : UInt8) (op : BatchOp) :
    binlogBatchLog st.server key cmd op = .ok (binlogBatchLogAt st key cmd op).server := by
  unfold binlogBatchLog binlogBatchLogAt
  cases hbl : st.server.binlog with
  | none =>
    dsimp only
    rw [hbl]
  | some bl =>
    have hkey := h.resolve_left (by rw [hbl]; nofun)
    have hval : encodeSeqValue key cmd = .ok (cmd :: key) := by
      exact if_pos (by omega)
    dsimp only
    rw [hval, logRecord_put hkey]

theorem binlogPutAt_eq {key : Bytes}
    (h : st.server.binlog = none ∨ key.length < BINLOG_MAX_VAL_SIZE) (value : Bytes) :
    binlogPut st.server key value = .ok (binlogPutAt st key value).server := by
  unfold binlogPut binlogPutAt
  cases hbl : st.server.binlog with
  | none =>
    dsimp only
    rw [hbl]
  | some bl =>
    have hkey := h.resolve_left (by rw [hbl]; nofun)
    have hval : encodeSeqValue key CMD_SET = .ok (CMD_SET :: key) := by
      exact if_pos (by omega)
    dsimp only
    rw [hval, logRecord_put hkey]

theorem Logs.binlog_none (h : Logs st st' calls) (hnone : st.server.binlog = none) :
    st'.server.binlog = none := by
  have hsome := h.binlog
  rw [hnone] at hsome
  exact Option.isNone_iff_eq_none.mp (by simpa using hsome)

theorem delLoopAt_eq
    (h : st.server.binlog = none ∨ ∀ key ∈ fields, key.length < BINLOG_MAX_VAL_SIZE) :
    delLoop st.server fields = .ok (delLoopAt st fields).server := by
  induction fields generalizing st with
  | nil => rfl
  | cons key fields ih =>
    have hkey := h.imp_right fun hkeys => hkeys key (.head _)
    have hstep := binlogBatchLogAt_eq hkey CMD_DEL (.delete key)
    have hrest := h.imp (binlogBatchLogAt_logs st key CMD_DEL (.delete key)).binlog_none
      fun hkeys k hk => hkeys k (.tail _ hk)
    rw [delLoop, binlogBatchDelete, hstep]
    exact ih hrest

theorem msetLoopAt_eq (h : st.server.binlog = none ∨
      ∀ key ∈ (msetUpdates fields).map Update.key, key.length < BINLOG_MAX_VAL_SIZE) :
    msetLoop st.server fields = .ok (msetLoopAt st fields).server := by
  fun_induction msetLoopAt st fields with
  | case1 st key value fields ih =>
    have hkey := h.imp_right fun hkeys => hkeys key (.head _)
    have hstep := binlogBatchLogAt_eq hkey CMD_SET (.put key value)
    have hrest := h.imp (binlogBatchLogAt_logs st key CMD_SET (.put key value)).binlog_none
      fun hkeys k hk => hkeys k (.tail _ hk)
    rw [msetLoop, binlogBatchPut, hstep]
    exact ih hrest
  | case2 fields st hfields =>
    unfold msetLoop
    split
    · exact absurd rfl (hfields _ _ _)
    · rfl

theorem saddLoopAt_eq {key : Bytes} {heap : Nat → Bytes} {i : Nat} {members : List Bytes}
    (h : st.server.binlog = none ∨ (saddLogs (st.server.db.get key) heap i members = true →
      key.length < BINLOG_MAX_VAL_SIZE)) :
    (saddLoop key heap st.server i members).map (fun t => (OPT_OK, t)) =
      (saddLoopAt key heap st i members).1.map
        fun reply => (reply, (saddLoopAt key heap st i members).2.server) := by
  induction members generalizing st i with
  | nil => rfl
  | cons target members ih =>
    rw [saddLogs] at h
    rw [saddLoop, saddLoopAt]
    cases hvalue : saddValue (seenValue (st.server.db.get key) (heap i)) (cstr target) with
    | error f => rfl
    | ok value =>
      rw [hvalue] at h
      cases value with
      | none => exact ih h
      | some value =>
        have hkey := h.imp_right fun hlong => hlong rfl
        have hrest : (binlogPutAt st key value).server.binlog = none ∨
            (saddLogs ((binlogPutAt st key value).server.db.get key) heap (i + 1) members = true →
              key.length < BINLOG_MAX_VAL_SIZE) :=
          hkey.imp (binlogPutAt_logs st key value).binlog_none fun hlong _ => hlong
        dsimp only
        rw [binlogPutAt_eq hkey value]
        exact ih hrest

/-- What the handlers of the two models have in common. -/
def SameExec (exec : Except Fault (Bytes × Server))
    (execAt : Except Fault Bytes × LogState) : Prop :=
  exec = execAt.1.map fun reply => (reply, execAt.2.server)

theorem tsdbLdbSetAt_eq (h : st.server.readonly = true ∨ st.server.binlog = none ∨
      ∀ key ∈ setKeys fields, key.length < BINLOG_MAX_VAL_SIZE) :
    SameExec (tsdbLdbSet st.server fields) (tsdbLdbSetAt st fields) := by
  match fields with
  | [key, value] =>
    unfold tsdbLdbSet tsdbLdbSetAt
    dsimp only
    by_cases hread : st.server.readonly = true
    · rw [if_pos hread, if_pos hread]
      rfl
    · have hkey := (h.resolve_left hread).imp_right fun hk => hk key (.head _)
      rw [if_neg hread, if_neg hread, binlogPutAt_eq hkey]
      rfl
  | [] => rfl
  | [_] => rfl
  | _ :: _ :: _ :: _ => rfl

theorem tsdbLdbMsetAt_eq (h : st.server.readonly = true ∨ st.server.binlog = none ∨
      ∀ key ∈ msetKeys fields, key.length < BINLOG_MAX_VAL_SIZE) :
    SameExec (tsdbLdbMset st.server fields) (tsdbLdbMsetAt st fields) := by
  unfold SameExec tsdbLdbMset tsdbLdbMsetAt
  by_cases hbad : st.server.readonly = true ∨ fields.length < 1 ∨ fields.length % 2 ≠ 0
  · rw [if_pos hbad, if_pos hbad]
    rfl
  · have heven : ¬ fields.length % 2 ≠ 0 := fun hodd => hbad (.inr (.inr hodd))
    have hlogged : msetKeys fields = (msetUpdates fields).map Update.key := if_neg heven
    have hkeys := h.resolve_left fun hread => hbad (.inl hread)
    rw [hlogged] at hkeys
    rw [if_neg hbad, if_neg hbad, msetLoopAt_eq hkeys]
    rfl

theorem tsdbLdbDelAt_eq (h : st.server.readonly = true ∨ st.server.binlog = none ∨
      ∀ key ∈ fields, key.length < BINLOG_MAX_VAL_SIZE) :
    SameExec (tsdbLdbDel st.server fields) (tsdbLdbDelAt st fields) := by
  unfold SameExec tsdbLdbDel tsdbLdbDelAt
  by_cases hbad : st.server.readonly = true ∨ fields.length < 1
  · rw [if_pos hbad, if_pos hbad]
    rfl
  · have hkeys := h.resolve_left fun hread => hbad (.inl hread)
    rw [if_neg hbad, if_neg hbad, delLoopAt_eq hkeys]
    rfl

theorem tsdbLdbSaddAt_eq {heap : Nat → Bytes}
    (h : st.server.readonly = true ∨ st.server.binlog = none ∨
      ∀ key ∈ saddKeys st.server fields heap, key.length < BINLOG_MAX_VAL_SIZE) :
    SameExec (tsdbLdbSadd st.server fields heap) (tsdbLdbSaddAt st fields heap) := by
  unfold SameExec
  match fields with
  | key :: member :: members =>
    unfold tsdbLdbSadd tsdbLdbSaddAt
    unfold saddKeys at h
    dsimp only at h ⊢
    by_cases hread : st.server.readonly = true
    · rw [if_pos hread, if_pos hread]
      rfl
    · have hkey : st.server.binlog = none ∨
          (saddLogs (st.server.db.get key) heap 0 (member :: members) = true →
            key.length < BINLOG_MAX_VAL_SIZE) :=
        (h.resolve_left hread).imp_right fun hk hadded => hk key (by
          rw [if_pos hadded]
          exact .head _)
      rw [if_neg hread, if_neg hread, ← saddLoopAt_eq hkey]
      cases saddLoop key heap st.server 0 (member :: members) <;> rfl
  | [] => rfl
  | [_] => rfl

/-- **With keys that fit**, the commands are those of the model without memory. -/
theorem Cmd.execAt_exec {c : Cmd} (h : Fits st (.log c)) :
    SameExec (c.exec st.server) (c.execAt st) :=
  match c with
  | .set _ => tsdbLdbSetAt_eq h
  | .mset _ => tsdbLdbMsetAt_eq h
  | .del _ => tsdbLdbDelAt_eq h
  | .sadd _ _ => tsdbLdbSaddAt_eq h

theorem execAt_set : SameExec ((Cmd.set [[1], [2]]).exec freshLog.server)
    ((Cmd.set [[1], [2]]).execAt freshLog) :=
  Cmd.execAt_exec (.inr (.inr (by decide)))

end Supex.Tsdb
