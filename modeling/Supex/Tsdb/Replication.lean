import Supex.Lib.Run
import Supex.Tsdb.Commands
import Supex.Tsdb.Recovery

/-!
# TSDB — replication

A master and its slave: commands on the master, interleaved with turns of the
`while (cur_seq <= last_seq)` loop of `slave_thread`, each of which reads one
record, sends it, has it applied by the slave and deletes it. The request
parser is not part of the repository's sources; it is a parameter that decodes
RESP requests (`RespParser`).

The abstract side is the list of updates the commands have made: `dataOf` is
the map they define, and record `s` of the binlog belongs to update `s`.
`ReplInv` relates the two stores to it: a key no pending record mentions has
the same value on both sides, unless that value is empty.

Main result: `converges_iff_no_empty_value`.
-/

namespace Supex.Tsdb

open Supex.Lib List

/-! ## The model -/

def SEND_BUF_SIZE : Nat := 33554432

/-- The request of a list of fields in the redis protocol. -/
def respArray (fields : List Bytes) : Bytes :=
  42 :: fmtU64 fields.length ++ crlf ++ fields.flatMap setBulk

/-- What the server relies on in its request parser: a request whose sizes an
`int` can hold is decoded to its fields. -/
def RespParser (parse : Bytes → Option (List Bytes)) : Prop :=
  ∀ fields : List Bytes, fields.length < 2 ^ 31 → (∀ f ∈ fields, f.length < 2 ^ 31) →
    parse (respArray fields) = some fields

/-- A master, the position of its slave thread, and the store of the slave. -/
structure Repl where
  master : Server
  curSeq : Nat
  slave : Ldb

/-- Both sides with empty stores, and `cur_seq = min_seq` as `slave_thread`
starts. -/
def Repl.init : Repl where
  master := ⟨OrdMap.empty, [], some (binlogOpen OrdMap.empty), false⟩
  curSeq := (binlogOpen OrdMap.empty).minSeq
  slave := OrdMap.empty

section Model

variable (parse : Bytes → Option (List Bytes))

/-- The slave executes a request it has received. -/
def slaveExecute (db : Ldb) (msg : Bytes) : Bytes × Ldb :=
  match parse msg with
  | some (name :: fields) =>
    if name = ascii "SYNCSET" then tsdbLdbSyncset db fields
    else if name = ascii "SYNCDEL" then tsdbLdbSyncdel db fields
    else (OPT_CMD_ERROR, db)
  | _ => (OPT_CMD_ERROR, db)

/-- The end of a turn: `del_binlog` and `++cur_seq`. -/
def finishRecord (st : Repl) : Repl :=
  { st with
    master := { st.master with db := delBinlog st.master.db st.curSeq }
    curSeq := (st.curSeq + 1) % u64Size }

/-- One turn of the loop over the binlog, over a connection that carries one
reply per request. A turn that has to be repeated leaves `cur_seq` alone. -/
def syncTurn (st : Repl) : Except Fault Repl :=
  match st.master.binlog with
  | none => .ok st
  | some bl =>
    if st.curSeq ≤ bl.lastSeq then
      match getBinlog st.master.db st.curSeq SEND_BUF_SIZE with
      | .error f => .error f
      | .ok .fail => .ok st
      | .ok .expired => .ok (finishRecord st)
      | .ok (.msg msg) =>
        match slaveExecute parse st.slave msg with
        | (reply, slave) =>
          if ascii "OK" <:+: reply then .ok (finishRecord { st with slave := slave })
          else .ok { st with slave := slave }
    else .ok st

/-- What can happen next. -/
inductive ReplAction where
  | cmd (c : Cmd)
  | sync

def stepRepl (st : Repl) : ReplAction → Except Fault Repl
  | .cmd c =>
    match c.exec st.master with
    | .error f => .error f
    | .ok (_, master) => .ok { st with master := master }
  | .sync => syncTurn parse st

end Model

/-- The updates of the commands of a run, behind the updates `hist`. -/
def updatesFrom : List Update → List ReplAction → List Update
  | hist, [] => hist
  | hist, .cmd c :: l => updatesFrom (hist ++ c.updates hist) l
  | hist, .sync :: l => updatesFrom hist l

/-- All records have been visited. -/
def Drained (st : Repl) : Prop :=
  ∀ bl, st.master.binlog = some bl → bl.lastSeq < st.curSeq

/-- The two stores hold the same data. -/
def Converged (st : Repl) : Prop := ∀ key, st.slave.get key = st.master.db.get key

/-- The key is not the key of one of the first `n` records. -/
def FreeKey (n : Nat) (key : Bytes) : Prop := ∀ s, 1 ≤ s → s ≤ n → key ≠ encodeSeqKey s

/-! ## The invariant -/

/-- The binlog record of an update. -/
def Update.record (u : Update) : Bytes := u.cmd :: u.key

/-- The master after the updates `hist`, when the records below `cur` are gone;
`n` bounds the number of records of the whole run. -/
structure MasterInv (n cur : Nat) (hist : List Update) (t : Server) : Prop where
  wbatch_eq : t.wbatch = []
  writable : t.readonly = false
  last_eq : ∃ bl, t.binlog = some bl ∧ bl.lastSeq = hist.length
  records : ∀ s, 1 ≤ s → s ≤ n → t.db.get (encodeSeqKey s) =
    if cur ≤ s then (hist[s - 1]?).map Update.record else none
  data : ∀ key, FreeKey n key → t.db.get key = dataOf hist key

/-- Master and slave after the updates `hist`. -/
structure ReplInv (n : Nat) (hist : List Update) (st : Repl) : Prop where
  master : MasterInv n st.curSeq hist st.master
  cur_pos : 1 ≤ st.curSeq
  cur_le : st.curSeq ≤ hist.length + 1
  slave_records : ∀ s, 1 ≤ s → s ≤ n → st.slave.get (encodeSeqKey s) = none
  slave_data : ∀ key, FreeKey n key → (∀ u ∈ hist.drop (st.curSeq - 1), u.key ≠ key) →
    dataOf hist key ≠ some [] → st.slave.get key = dataOf hist key
  slave_nonempty : ∀ key, st.slave.get key ≠ some []
  keys_free : ∀ u ∈ hist, FreeKey n u.key

/-! ## Logging an update -/

theorem apply_op_get (db : Ldb) (u : Update) (key : Bytes) :
    (u.op.apply db).get key = if key = u.key then u.value else db.get key := by
  cases u with
  | set k v =>
    show (db.insert k v).get key = _
    rw [OrdMap.get_insert]
    by_cases h : key = k <;> simp [Update.key, Update.value, h]
  | del k =>
    show (db.erase k).get key = _
    rw [OrdMap.get_erase]
    by_cases h : key = k <;> simp [Update.key, Update.value, h]

variable {hist : List Update} {cur n : Nat} {t t' : Server} {key : Bytes} {u : Update}

theorem getElem?_append_ne {i : Nat} (h : i ≠ hist.length) : (hist ++ [u])[i]? = hist[i]? := by
  rcases Nat.lt_or_gt_of_ne h with hlt | hgt
  · exact getElem?_append_left hlt
  · have hlen : (hist ++ [u]).length ≤ i := by
      rw [length_append, length_singleton]
      omega
    rw [getElem?_eq_none hlen, getElem?_eq_none hgt.le]

/-- **Log.** Adding an update to the batch adds it to what a commit writes. -/
theorem binlogBatchLog_inv (hn : n < u64Size) (hinv : MasterInv n cur hist (binlogBatchCommit t))
    (hfree : FreeKey n u.key) (hlen : hist.length + 1 ≤ n) (hcur : cur ≤ hist.length + 1)
    (h : binlogBatchLog t u.key u.cmd u.op = .ok t') :
    MasterInv n cur (hist ++ [u]) (binlogBatchCommit t') := by
  obtain ⟨bl, hbl, hlast⟩ := hinv.last_eq
  have hseq : (bl.lastSeq + 1) % u64Size = hist.length + 1 := by
    rw [hlast]
    exact Nat.mod_eq_of_lt (by omega)
  have hbl' : t.binlog = some bl := hbl
  rw [binlogBatchLog, hbl'] at h
  dsimp only at h
  rw [hseq] at h
  unfold encodeSeqValue at h
  split at h
  · next heq =>
    split at heq <;> cases h
  · next val heq =>
    have hval : val = u.record := by
      split at heq
      · cases heq
        rfl
      · cases heq
    subst hval
    cases h
    -- what the longer batch writes, over what the shorter one writes
    have hdb : leveldbWrite t.db (t.wbatch ++ [.put (encodeSeqKey (hist.length + 1)) u.record,
      u.op])
        = u.op.apply ((binlogBatchCommit t).db.insert (encodeSeqKey (hist.length + 1))
          u.record) := by
      rw [leveldbWrite_append]
      rfl
    refine ⟨rfl, hinv.writable, ⟨_, rfl, by simp⟩, ?_, ?_⟩
    · intro s hs hsn
      show (leveldbWrite t.db _).get _ = _
      rw [hdb, apply_op_get, if_neg (hfree s hs hsn).symm, OrdMap.get_insert]
      by_cases hnew : s = hist.length + 1
      · subst hnew
        rw [if_pos rfl, if_pos hcur]
        simp
      · have hne : encodeSeqKey s ≠ encodeSeqKey (hist.length + 1) := fun he =>
          hnew (encodeSeqKey_inj (by omega) (by omega) he)
        rw [if_neg hne, hinv.records s hs hsn, getElem?_append_ne (by omega)]
    · intro key hkey
      show (leveldbWrite t.db _).get _ = _
      rw [hdb, apply_op_get, dataOf_append]
      by_cases hu : key = u.key
      · rw [if_pos hu, hu, Function.update_self]
      · rw [if_neg hu, Function.update_of_ne hu, OrdMap.get_insert,
          if_neg (hkey _ (by omega) hlen), hinv.data key hkey]

theorem commit_of_wbatch_nil (h : t.wbatch = []) : binlogBatchCommit t = t := by
  obtain ⟨db, wbatch, binlog, readonly⟩ := t
  subst h
  rfl

theorem binlogPut_inv (hn : n < u64Size) {value : Bytes} (hinv : MasterInv n cur hist t)
    (hfree : FreeKey n key) (hlen : hist.length + 1 ≤ n) (hcur : cur ≤ hist.length + 1)
    (h : binlogPut t key value = .ok t') : MasterInv n cur (hist ++ [.set key value]) t' := by
  rw [binlogPut_eq] at h
  cases hlog : binlogBatchPut t key value with
  | error f =>
    rw [hlog] at h
    cases h
  | ok t₁ =>
    rw [hlog] at h
    cases h
    rw [← commit_of_wbatch_nil hinv.wbatch_eq] at hinv
    exact binlogBatchLog_inv (u := .set key value) hn hinv hfree hlen hcur hlog

/-! ## Commands -/

theorem delLoop_inv (hn : n < u64Size) {fields : List Bytes}
    (hinv : MasterInv n cur hist (binlogBatchCommit t)) (hfree : ∀ key ∈ fields, FreeKey n key)
    (hlen : hist.length + fields.length ≤ n) (hcur : cur ≤ hist.length + 1)
    (h : delLoop t fields = .ok t') :
    MasterInv n cur (hist ++ fields.map .del) (binlogBatchCommit t') := by
  induction fields generalizing hist t with
  | nil =>
    cases h
    simpa using hinv
  | cons key fields ih =>
    rw [length_cons] at hlen
    rw [delLoop] at h
    cases hlog : binlogBatchDelete t key with
    | error f =>
      rw [hlog] at h
      cases h
    | ok t₁ =>
      rw [hlog] at h
      have hinv₁ := binlogBatchLog_inv (u := .del key) hn hinv
        (hfree key (.head _)) (by omega) hcur hlog
      have hrest := ih hinv₁ (fun k hk => hfree k (.tail _ hk))
        (by simp; omega) (by simp; omega) h
      rwa [append_assoc] at hrest

theorem msetLoop_inv (hn : n < u64Size) {fields : List Bytes}
    (hinv : MasterInv n cur hist (binlogBatchCommit t))
    (hfree : ∀ u ∈ msetUpdates fields, FreeKey n u.key)
    (hlen : hist.length + (msetUpdates fields).length ≤ n) (hcur : cur ≤ hist.length + 1)
    (h : msetLoop t fields = .ok t') :
    MasterInv n cur (hist ++ msetUpdates fields) (binlogBatchCommit t') := by
  fun_induction msetLoop t fields generalizing hist with
  | case1 t key value fields f hlog => cases h
  | case2 t key value fields t₁ hlog ih =>
    rw [msetUpdates] at hfree hlen ⊢
    rw [length_cons] at hlen
    have hinv₁ := binlogBatchLog_inv (u := .set key value) hn hinv
      (hfree _ (.head _)) (by omega) hcur hlog
    have hrest := ih hinv₁ (fun u hu => hfree u (.tail _ hu))
      (by simp; omega) (by simp; omega) h
    rwa [append_assoc] at hrest
  | case3 fields t hshort =>
    cases h
    have hnil : msetUpdates fields = [] := by
      unfold msetUpdates
      split
      · next k v rest => exact absurd rfl (hshort k v rest)
      · rfl
    rw [hnil, append_nil]
    exact hinv

theorem saddLoop_inv (hn : n < u64Size) {heap : Nat → Bytes} (hfree : FreeKey n key)
    {members : List Bytes} {i : Nat} (hinv : MasterInv n cur hist t)
    (hlen : hist.length + (saddUpdates key heap hist i members).length ≤ n)
    (hcur : cur ≤ hist.length + 1) (h : saddLoop key heap t i members = .ok t') :
    MasterInv n cur (hist ++ saddUpdates key heap hist i members) t' := by
  induction members generalizing hist t i with
  | nil =>
    cases h
    simpa [saddUpdates] using hinv
  | cons target members ih =>
    -- the handler reads what the updates before it have left under the key
    rw [saddLoop, hinv.data key hfree] at h
    rw [saddUpdates] at hlen ⊢
    cases hval : saddValue (seenValue (dataOf hist key) (heap i)) (cstr target) with
    | error f =>
      rw [hval] at h
      cases h
    | ok new =>
      rw [hval] at h hlen
      cases new with
      | none => exact ih hinv hlen hcur h
      | some value =>
        dsimp only at h hlen ⊢
        rw [length_cons] at hlen
        cases hput : binlogPut t key value with
        | error f =>
          rw [hput] at h
          cases h
        | ok t₁ =>
          rw [hput] at h
          have hinv₁ := binlogPut_inv hn hinv hfree (by omega) hcur hput
          have hrest := ih hinv₁ (by simp; omega) (by simp; omega) h
          rwa [append_assoc] at hrest

/-- **Commands.** A command adds its updates to the log and to the data. -/
theorem Cmd.exec_inv (hn : n < u64Size) {c : Cmd} {reply : Bytes} (hinv : MasterInv n cur hist t)
    (hfree : ∀ key ∈ c.keys, FreeKey n key) (hlen : hist.length + (c.updates hist).length ≤ n)
    (hcur : cur ≤ hist.length + 1) (h : c.exec t = .ok (reply, t')) :
    MasterInv n cur (hist ++ c.updates hist) t' := by
  have hcommit := hinv
  rw [← commit_of_wbatch_nil hinv.wbatch_eq] at hcommit
  cases c with
  | set fields =>
    simp only [Cmd.exec, tsdbLdbSet, hinv.writable] at h
    split at h
    · next key value =>
      cases hput : binlogPut t key value with
      | error f => simp [hput] at h
      | ok t₁ =>
        simp only [hput, Bool.false_eq_true, if_false, Except.ok.injEq, Prod.mk.injEq] at h
        obtain ⟨-, rfl⟩ := h
        exact binlogPut_inv hn hinv (hfree key (.head _)) hlen hcur hput
    · have hnil : Cmd.updates hist (.set fields) = [] := by
        simp only [Cmd.updates]
      cases h
      rwa [hnil, append_nil]
  | mset fields =>
    simp only [Cmd.exec, tsdbLdbMset, hinv.writable, Bool.false_eq_true, false_or] at h
    by_cases hodd : fields.length % 2 ≠ 0
    · rw [if_pos (.inr hodd)] at h
      cases h
      simpa [Cmd.updates, hodd] using hinv
    · have hupd : Cmd.updates hist (.mset fields) = msetUpdates fields := if_neg hodd
      rw [hupd] at hlen ⊢
      by_cases hnone : fields.length < 1
      · have hnil : fields = [] := length_eq_zero_iff.mp (by omega)
        rw [if_pos (.inl hnone)] at h
        cases h
        simpa [hnil, msetUpdates] using hinv
      · rw [if_neg (by tauto)] at h
        cases hloop : msetLoop t fields with
        | error f => simp [hloop] at h
        | ok t₁ =>
          simp only [hloop, Except.ok.injEq, Prod.mk.injEq] at h
          obtain ⟨-, rfl⟩ := h
          exact msetLoop_inv hn hcommit
            (fun u hu => hfree u.key (mem_map_of_mem hu)) hlen hcur hloop
  | del fields =>
    simp only [Cmd.exec, tsdbLdbDel, hinv.writable, Bool.false_eq_true, false_or] at h
    simp only [Cmd.updates, length_map] at hlen ⊢
    by_cases hnone : fields.length < 1
    · have hnil : fields = [] := length_eq_zero_iff.mp (by omega)
      rw [if_pos hnone] at h
      cases h
      simpa [hnil] using hinv
    · rw [if_neg hnone] at h
      cases hloop : delLoop t fields with
      | error f => simp [hloop] at h
      | ok t₁ =>
        simp only [hloop, Except.ok.injEq, Prod.mk.injEq] at h
        obtain ⟨-, rfl⟩ := h
        exact delLoop_inv hn hcommit hfree hlen hcur hloop
  | sadd fields heap =>
    simp only [Cmd.exec, tsdbLdbSadd, hinv.writable] at h
    split at h
    · next key member members =>
      cases hloop : saddLoop key heap t 0 (member :: members) with
      | error f => simp [hloop] at h
      | ok t₁ =>
        simp only [hloop, Bool.false_eq_true, if_false, Except.ok.injEq, Prod.mk.injEq] at h
        obtain ⟨-, rfl⟩ := h
        exact saddLoop_inv hn (hfree key (.head _)) hinv hlen hcur hloop
    · have hnil : Cmd.updates hist (.sadd fields heap) = [] := by
        simp only [Cmd.updates]
      cases h
      rwa [hnil, append_nil]

theorem saddUpdates_key {heap : Nat → Bytes} {members : List Bytes} {i : Nat}
    (hu : u ∈ saddUpdates key heap hist i members) : u.key = key := by
  induction members generalizing hist i with
  | nil => cases hu
  | cons target members ih =>
    rw [saddUpdates] at hu
    split at hu
    · rcases mem_cons.mp hu with rfl | hu
      · rfl
      · exact ih hu
    · exact ih hu

theorem Cmd.key_mem_keys {c : Cmd} (hu : u ∈ c.updates hist) : u.key ∈ c.keys := by
  cases c with
  | set fields =>
    simp only [Cmd.updates] at hu
    split at hu
    · rw [mem_singleton.mp hu]
      exact .head _
    · cases hu
  | mset fields =>
    simp only [Cmd.updates] at hu
    split at hu
    · cases hu
    · exact mem_map_of_mem hu
  | del fields =>
    obtain ⟨key, hkey, rfl⟩ := mem_map.mp hu
    exact hkey
  | sadd fields heap =>
    simp only [Cmd.updates] at hu
    split at hu
    · rw [saddUpdates_key hu]
      exact .head _
    · cases hu

/-! ## Reading and applying a record -/

theorem fillMsg_cases {bvlen length : Nat} {msg : Bytes} {r : BinlogRead}
    (h : fillMsg bvlen length msg = .ok r) : r = .fail ∨ r = .msg msg ∧ bvlen < length := by
  unfold fillMsg at h
  split_ifs at h with h₁ h₂ h₃
  · cases h
    exact .inl rfl
  · cases h
    exact .inl rfl
  · cases h
    exact .inr ⟨rfl, by omega⟩

theorem getBinlog_cases {db : Ldb} {seq length : Nat} {r : BinlogRead}
    (hrec : db.get (encodeSeqKey seq) = some u.record) (h : getBinlog db seq length = .ok r) :
    u.key.length ≤ BINLOG_MAX_VAL_SIZE ∧
      (u.cmd = CMD_SET ∧ leveldbGetLen db u.key = 0 ∧ r = .expired ∨
       u.cmd = CMD_SET ∧ leveldbGetLen db u.key ≠ 0 ∧
        (r = .fail ∨ leveldbGetLen db u.key < length ∧
          r = .msg (syncsetHead ++ setBulk u.key ++ setBulk ((db.get u.key).getD []))) ∨
       u.cmd = CMD_DEL ∧ (r = .fail ∨ r = .msg (syncdelHead ++ setBulk u.key))) := by
  rw [getBinlog, hrec, Option.getD_some, Update.record] at h
  dsimp only [decodeSeqValue] at h
  by_cases hlen : u.key.length ≤ BINLOG_MAX_VAL_SIZE
  · refine ⟨hlen, ?_⟩
    rw [if_pos hlen] at h
    dsimp only at h
    by_cases hset : u.cmd = CMD_SET
    · rw [if_pos hset] at h
      by_cases hempty : leveldbGetLen db u.key = 0
      · rw [if_pos hempty] at h
        cases h
        exact .inl ⟨hset, hempty, rfl⟩
      · rw [if_neg hempty] at h
        refine .inr (.inl ⟨hset, hempty, ?_⟩)
        rcases fillMsg_cases h with hr | ⟨hr, hfit⟩
        · exact .inl hr
        · refine .inr ⟨?_, hr⟩
          unfold leveldbGetLen
          omega
    · have hdel : u.cmd = CMD_DEL := by
        cases u with
        | set => exact absurd rfl hset
        | del => rfl
      rw [if_neg hset, if_pos hdel] at h
      refine .inr (.inr ⟨hdel, ?_⟩)
      rcases fillMsg_cases h with hr | ⟨hr, -⟩
      · exact .inl hr
      · exact .inr hr
  · rw [if_neg hlen] at h
    cases h

theorem syncset_eq_respArray (key value : Bytes) :
    syncsetHead ++ setBulk key ++ setBulk value = respArray [ascii "SYNCSET", key, value] := by
  have hhead : syncsetHead = 42 :: fmtU64 3 ++ crlf ++ setBulk (ascii "SYNCSET") := by decide
  simp [respArray, hhead]

theorem syncdel_eq_respArray (key : Bytes) :
    syncdelHead ++ setBulk key = respArray [ascii "SYNCDEL", key] := by
  have hhead : syncdelHead = 42 :: fmtU64 2 ++ crlf ++ setBulk (ascii "SYNCDEL") := by decide
  simp [respArray, hhead]

section Sync

variable {parse : Bytes → Option (List Bytes)}

theorem slaveExecute_syncset (hparse : RespParser parse) (db : Ldb) {value : Bytes}
    (hkey : key.length < 2 ^ 31) (hvalue : value.length < 2 ^ 31) :
    slaveExecute parse db (syncsetHead ++ setBulk key ++ setBulk value) =
      (OPT_OK, db.insert key value) := by
  have hfields : ∀ f ∈ [ascii "SYNCSET", key, value], f.length < 2 ^ 31 := by
    simp only [forall_mem_cons]
    exact ⟨by decide, hkey, hvalue, nofun⟩
  rw [slaveExecute, syncset_eq_respArray, hparse _ (by simp) hfields]
  rfl

theorem slaveExecute_syncdel (hparse : RespParser parse) (db : Ldb) (hkey : key.length < 2 ^ 31) :
    slaveExecute parse db (syncdelHead ++ setBulk key) = (OPT_OK, binlogSyncdel db key) := by
  have hfields : ∀ f ∈ [ascii "SYNCDEL", key], f.length < 2 ^ 31 := by
    simp only [forall_mem_cons]
    exact ⟨by decide, hkey, nofun⟩
  rw [slaveExecute, syncdel_eq_respArray, hparse _ (by simp) hfields]
  rfl

theorem MasterInv.delBinlog (hinv : MasterInv n cur hist t) (hn : n < u64Size) (hcur : 1 ≤ cur)
    (hle : cur ≤ n) : MasterInv n (cur + 1) hist { t with db := delBinlog t.db cur } := by
  refine ⟨hinv.wbatch_eq, hinv.writable, hinv.last_eq, ?_, ?_⟩
  · intro s hs hsn
    show (t.db.erase _).get _ = _
    rw [OrdMap.get_erase]
    by_cases hscur : s = cur
    · rw [hscur, if_pos rfl, if_neg (by omega)]
    · have hne : encodeSeqKey s ≠ encodeSeqKey cur := fun h =>
        hscur (encodeSeqKey_inj (by omega) (by omega) h)
      rw [if_neg hne, hinv.records s hs hsn]
      by_cases hlt : cur ≤ s
      · rw [if_pos hlt, if_pos (by omega)]
      · rw [if_neg hlt, if_neg (by omega)]
  · intro key hkey
    show (t.db.erase _).get _ = _
    rw [OrdMap.get_erase, if_neg (hkey cur hcur hle), hinv.data key hkey]

variable {st : Repl}

/-- **Turn.** The record of `u` is done: the slave's store changed at `u.key` at
most, and agrees there if no later record mentions the key. -/
theorem ReplInv.finishRecord (hinv : ReplInv n hist st) (hn : n + 1 < u64Size)
    (hlen : hist.length ≤ n) (hu : hist[st.curSeq - 1]? = some u) {slave : Ldb}
    (hframe : ∀ key, key ≠ u.key → slave.get key = st.slave.get key)
    (hnew : slave.get u.key ≠ some [])
    (hlast : (∀ u' ∈ hist.drop st.curSeq, u'.key ≠ u.key) → dataOf hist u.key ≠ some [] →
      slave.get u.key = dataOf hist u.key) :
    ReplInv n hist (finishRecord { st with slave := slave }) := by
  obtain ⟨hlt, hget⟩ := List.getElem?_eq_some_iff.mp hu
  have hpos := hinv.cur_pos
  have hmem : u ∈ hist := mem_of_getElem? hu
  have hcur : (st.curSeq + 1) % u64Size = st.curSeq + 1 := Nat.mod_eq_of_lt (by omega)
  have hdrop : hist.drop (st.curSeq - 1) = u :: hist.drop st.curSeq := by
    rw [drop_eq_getElem_cons hlt, hget, show st.curSeq - 1 + 1 = st.curSeq by omega]
  have hcurSeq : (Tsdb.finishRecord { st with slave := slave }).curSeq = st.curSeq + 1 := hcur
  refine ⟨?_, ?_, ?_, ?_, ?_, ?_, hinv.keys_free⟩
  · rw [hcurSeq]
    exact hinv.master.delBinlog (by omega) hpos (by omega)
  · rw [hcurSeq]
    omega
  · rw [hcurSeq]
    omega
  · intro s hs hsn
    show slave.get _ = none
    rw [hframe _ (hinv.keys_free u hmem s hs hsn).symm]
    exact hinv.slave_records s hs hsn
  · intro key hkey hnot hdata
    rw [hcurSeq, Nat.add_sub_cancel] at hnot
    show slave.get key = _
    by_cases heq : key = u.key
    · subst heq
      exact hlast hnot hdata
    · rw [hframe key heq]
      apply hinv.slave_data key hkey _ hdata
      rw [hdrop]
      intro u' hu'
      rcases mem_cons.mp hu' with rfl | hu'
      · exact Ne.symm heq
      · exact hnot u' hu'
  · intro key
    show slave.get key ≠ some []
    by_cases heq : key = u.key
    · subst heq
      exact hnew
    · rw [hframe key heq]
      exact hinv.slave_nonempty key

theorem syncTurn_inv (hparse : RespParser parse) {st' : Repl} (hinv : ReplInv n hist st)
    (hn : n + 1 < u64Size) (hlen : hist.length ≤ n) (h : syncTurn parse st = .ok st') :
    ReplInv n hist st' := by
  obtain ⟨bl, hbl, hlastSeq⟩ := hinv.master.last_eq
  rw [syncTurn, hbl] at h
  dsimp only at h
  rw [hlastSeq] at h
  have hpos := hinv.cur_pos
  by_cases hle : st.curSeq ≤ hist.length
  · rw [if_pos hle] at h
    obtain ⟨u, hu⟩ : ∃ u, hist[st.curSeq - 1]? = some u :=
      ⟨hist[st.curSeq - 1], getElem?_eq_getElem (by omega)⟩
    have hrec : st.master.db.get (encodeSeqKey st.curSeq) = some u.record := by
      rw [hinv.master.records _ hpos (by omega), if_pos le_rfl, hu]
      rfl
    have hkeyfree := hinv.keys_free u (mem_of_getElem? hu)
    have hdata := hinv.master.data u.key hkeyfree
    -- without a later record of its key, the update decides the data
    have hdecides : (∀ u' ∈ hist.drop st.curSeq, u'.key ≠ u.key) →
        dataOf hist u.key = u.value := by
      intro hnot
      obtain ⟨hlt, hget⟩ := List.getElem?_eq_some_iff.mp hu
      have hsplit : hist = hist.take (st.curSeq - 1) ++ u :: hist.drop st.curSeq := by
        conv_lhs => rw [← take_append_drop (st.curSeq - 1) hist]
        rw [drop_eq_getElem_cons hlt, hget, show st.curSeq - 1 + 1 = st.curSeq by omega]
      rw [hsplit]
      exact dataOf_last hnot
    cases hread : getBinlog st.master.db st.curSeq SEND_BUF_SIZE with
    | error f =>
      rw [hread] at h
      cases h
    | ok r =>
      rw [hread] at h
      obtain ⟨hkeylen, hcases⟩ := getBinlog_cases hrec hread
      have hkey31 : u.key.length < 2 ^ 31 := lt_of_le_of_lt hkeylen (by decide)
      rcases hcases with ⟨hset, hempty, rfl⟩ | ⟨hset, hfull, rfl | ⟨hfit, rfl⟩⟩ | ⟨hdel, rfl | rfl⟩
      · -- the key is gone, or empty
        cases h
        refine hinv.finishRecord hn hlen hu (fun _ _ => rfl) (hinv.slave_nonempty _) ?_
        intro hnot hne
        exfalso
        rw [leveldbGetLen_eq_zero, hdata] at hempty
        rcases hempty with hnone | hsome
        · rw [hdecides hnot] at hnone
          cases u with
          | set k v => cases hnone
          | del k => cases hset
        · exact hne hsome
      · cases h
        exact hinv
      · have hvalue : ((st.master.db.get u.key).getD []).length < 2 ^ 31 := by
          have : SEND_BUF_SIZE < 2 ^ 31 := by decide
          unfold leveldbGetLen at hfit
          omega
        dsimp only at h
        rw [slaveExecute_syncset hparse _ hkey31 hvalue] at h
        dsimp only at h
        rw [if_pos (by decide)] at h
        cases h
        obtain ⟨v, hv⟩ : ∃ v, st.master.db.get u.key = some v := by
          cases hget : st.master.db.get u.key with
          | none => simp [leveldbGetLen, hget] at hfull
          | some v => exact ⟨v, rfl⟩
        have hvne : v ≠ [] := by
          rintro rfl
          simp [leveldbGetLen, hv] at hfull
        refine hinv.finishRecord hn hlen hu (fun key hne => ?_) ?_ (fun _ _ => ?_)
        · rw [OrdMap.get_insert, if_neg hne]
        · rw [OrdMap.get_insert, if_pos rfl, hv]
          simpa using hvne
        · rw [OrdMap.get_insert, if_pos rfl, ← hdata, hv]
          rfl
      · cases h
        exact hinv
      · dsimp only at h
        rw [slaveExecute_syncdel hparse _ hkey31] at h
        dsimp only at h
        rw [if_pos (by decide)] at h
        cases h
        have hgone : (binlogSyncdel st.slave u.key).get u.key = none := by
          unfold binlogSyncdel
          split
          · next hzero =>
            rcases leveldbGetLen_eq_zero.mp hzero with hnone | hsome
            · exact hnone
            · exact absurd hsome (hinv.slave_nonempty _)
          · rw [OrdMap.get_erase, if_pos rfl]
        refine hinv.finishRecord hn hlen hu (fun key hne => ?_) ?_ (fun hnot _ => ?_)
        · unfold binlogSyncdel
          split
          · rfl
          · rw [OrdMap.get_erase, if_neg hne]
        · rw [hgone]
          exact nofun
        · rw [hgone, hdecides hnot]
          cases u with
          | set k v => cases hdel
          | del k => rfl
  · rw [if_neg hle] at h
    cases h
    exact hinv

theorem cmdStep_inv {c : Cmd} {reply : Bytes} {master : Server} (hinv : ReplInv n hist st)
    (hn : n < u64Size) (hlen : hist.length + (c.updates hist).length ≤ n)
    (hfree : ∀ key ∈ c.keys, FreeKey n key) (h : c.exec st.master = .ok (reply, master)) :
    ReplInv n (hist ++ c.updates hist) { st with master := master } := by
  have hpos := hinv.cur_pos
  have hle := hinv.cur_le
  have hmem : ∀ u ∈ hist ++ c.updates hist, FreeKey n u.key := by
    intro u hu
    rcases mem_append.mp hu with hu | hu
    · exact hinv.keys_free u hu
    · exact hfree _ (Cmd.key_mem_keys hu)
  refine ⟨Cmd.exec_inv hn hinv.master hfree hlen hle h, hpos, ?_, hinv.slave_records, ?_,
    hinv.slave_nonempty, hmem⟩
  · rw [length_append]
    exact le_trans hle (by omega)
  · intro key hkey hnot hdata
    dsimp only at hnot
    rw [drop_append_of_le_length (by omega)] at hnot
    -- the command does not mention the key
    have hsame : dataOf (hist ++ c.updates hist) key = dataOf hist key := by
      have hnew : ∀ u ∈ c.updates hist, u.key ≠ key := fun u hu =>
        hnot u (mem_append_right _ hu)
      generalize c.updates hist = us at hnew
      induction us using List.reverseRecOn with
      | nil => rw [append_nil]
      | append_singleton us u ih =>
        rw [← append_assoc, dataOf_append,
          Function.update_of_ne (hnew u (by simp)).symm]
        exact ih fun u' hu' => hnew u' (mem_append_left _ hu')
    rw [hsame] at hdata ⊢
    exact hinv.slave_data key hkey (fun u hu => hnot u (mem_append_left _ hu)) hdata

/-! ## Runs -/

theorem updatesFrom_prefix (hist : List Update) (l : List ReplAction) :
    hist.length ≤ (updatesFrom hist l).length := by
  induction l generalizing hist with
  | nil => exact le_rfl
  | cons a l ih =>
    cases a with
    | cmd c =>
      have := ih (hist ++ c.updates hist)
      rw [length_append] at this
      rw [updatesFrom]
      omega
    | sync => exact ih hist

theorem runRepl_inv (hparse : RespParser parse) (hn : n + 1 < u64Size) {l : List ReplAction}
    {st' : Repl} (hinv : ReplInv n hist st) (hlen : (updatesFrom hist l).length ≤ n)
    (hfree : ∀ c, .cmd c ∈ l → ∀ key ∈ c.keys, FreeKey n key)
    (h : run (stepRepl parse) st l = .ok st') : ReplInv n (updatesFrom hist l) st' := by
  induction l generalizing hist st with
  | nil =>
    cases h
    exact hinv
  | cons a l ih =>
    obtain ⟨st₁, hstep, hrun⟩ := run_cons_ok h
    have hfree' : ∀ c, .cmd c ∈ l → ∀ key ∈ c.keys, FreeKey n key := fun c hc =>
      hfree c (.tail _ hc)
    cases a with
    | cmd c =>
      rw [updatesFrom] at hlen ⊢
      have hle := updatesFrom_prefix (hist ++ c.updates hist) l
      rw [length_append] at hle
      rw [stepRepl] at hstep
      cases hexec : c.exec st.master with
      | error f =>
        rw [hexec] at hstep
        cases hstep
      | ok result =>
        rw [hexec] at hstep
        cases hstep
        exact ih (cmdStep_inv hinv (by omega) (by omega)
          (hfree c (.head _)) hexec) hlen hfree' hrun
    | sync =>
      rw [updatesFrom] at hlen ⊢
      have hle := updatesFrom_prefix hist l
      exact ih (syncTurn_inv hparse hinv hn (by omega) hstep) hlen hfree' hrun

theorem init_inv (n : Nat) : ReplInv n [] Repl.init := by
  have hempty : ∀ key, (OrdMap.empty : Ldb).get key = none := OrdMap.get_empty
  refine ⟨⟨rfl, rfl, ⟨_, rfl, rfl⟩, ?_, fun key _ => hempty key⟩, le_rfl, le_rfl,
    fun s _ _ => hempty _, fun key _ _ _ => hempty key,
      fun key => by rw [Repl.init, hempty]; exact nofun,
    nofun⟩
  intro s _ _
  rw [Repl.init, hempty]
  simp

theorem dataOf_of_not_mem (h : ∀ u ∈ hist, u.key ≠ key) : dataOf hist key = none := by
  induction hist using List.reverseRecOn with
  | nil => rfl
  | append_singleton hist u ih =>
    rw [dataOf_append, Function.update_of_ne (h u (by simp)).symm]
    exact ih fun u' hu' => h u' (mem_append_left _ hu')

theorem converged_of_inv (hinv : ReplInv hist.length hist st) (hdrained : Drained st)
    (hempty : ∀ key, dataOf hist key ≠ some []) : Converged st := by
  obtain ⟨bl, hbl, hlast⟩ := hinv.master.last_eq
  have hcur : hist.length < st.curSeq := hlast ▸ hdrained bl hbl
  intro key
  by_cases hfree : FreeKey hist.length key
  · rw [hinv.master.data key hfree]
    refine hinv.slave_data key hfree ?_ (hempty key)
    rw [drop_eq_nil_of_le (by omega)]
    exact nofun
  · -- the key of a record: deleted on the master, never written on the slave
    unfold FreeKey at hfree
    push Not at hfree
    obtain ⟨s, hs, hsn, rfl⟩ := hfree
    rw [hinv.slave_records s hs hsn, hinv.master.records s hs hsn, if_neg (by omega)]

theorem not_converged_of_empty (hinv : ReplInv n hist st) (hkey : dataOf hist key = some []) :
    ¬Converged st := by
  intro hconv
  have hfree : FreeKey n key := by
    rintro s hs hsn rfl
    rw [dataOf_of_not_mem fun u hu => hinv.keys_free u hu s hs hsn] at hkey
    cases hkey
  have hmaster := hinv.master.data key hfree
  rw [hkey, ← hconv key] at hmaster
  exact hinv.slave_nonempty key hmaster

/-- **Convergence.** In every run of commands and turns of the slave thread, in
which no command names the key of one of the run's records, once the binlog is
drained master and slave hold the same data if and only if no key was left with
an empty value. -/
theorem converges_iff_no_empty_value (hparse : RespParser parse) (l : List ReplAction) (st : Repl)
    (hrun : run (stepRepl parse) Repl.init l = .ok st) (hdrained : Drained st)
    (hcount : (updatesFrom [] l).length + 1 < u64Size)
    (hfree : ∀ c, .cmd c ∈ l → ∀ key ∈ c.keys, FreeKey (updatesFrom [] l).length key) :
    Converged st ↔ ∀ key, dataOf (updatesFrom [] l) key ≠ some [] := by
  have hinv := runRepl_inv hparse hcount (init_inv _) le_rfl hfree hrun
  constructor
  · intro hconv key hkey
    exact not_converged_of_empty hinv hkey hconv
  · exact converged_of_inv hinv hdrained

end Sync

/-! ## A parser, and two runs -/

/-- `n` bulk strings, each a length line and that many bytes. -/
def parseBulks : Nat → Bytes → Option (List Bytes)
  | 0, _ => some []
  | n + 1, s =>
    match s with
    | 36 :: s =>
      let digits := s.takeWhile isDigit
      let body := s.drop (digits.length + 2)
      match parseBulks n (body.drop (digitsVal digits + 2)) with
      | some fields => some (body.take (digitsVal digits) :: fields)
      | none => none
    | _ => none

/-- A plain parser of RESP requests. -/
def respParse (msg : Bytes) : Option (List Bytes) :=
  match msg with
  | 42 :: s =>
    let digits := s.takeWhile isDigit
    parseBulks (digitsVal digits) (s.drop (digits.length + 2))
  | _ => none

theorem takeWhile_lengthLine (n : Nat) (rest : Bytes) :
    (fmtU64 n ++ crlf ++ rest).takeWhile isDigit = fmtU64 n := by
  rw [append_assoc]
  exact takeWhile_append_stop (decDigits_isDigit 20 n) (by decide)

theorem drop_lengthLine (n : Nat) (rest : Bytes) :
    (fmtU64 n ++ crlf ++ rest).drop ((fmtU64 n).length + 2) = rest := by
  rw [show (fmtU64 n).length + 2 = (fmtU64 n ++ crlf).length by simp [crlf], drop_left]

theorem digitsVal_fmtU64 (h : n < 2 ^ 31) : digitsVal (fmtU64 n) = n :=
  digitsVal_decDigits (lt_trans h (by decide))

theorem parseBulks_flatMap (fields : List Bytes) (h : ∀ f ∈ fields, f.length < 2 ^ 31) :
    parseBulks fields.length (fields.flatMap setBulk) = some fields := by
  induction fields with
  | nil => rfl
  | cons f fields ih =>
    have hrest := ih fun g hg => h g (.tail _ hg)
    have hval := digitsVal_fmtU64 (h f (.head _))
    have hbulk : (f :: fields).flatMap setBulk =
        36 :: (fmtU64 f.length ++ crlf ++ (f ++ (crlf ++ fields.flatMap setBulk))) := by
      simp [setBulk]
    have hbody : (f ++ (crlf ++ fields.flatMap setBulk)).drop (f.length + 2) =
        fields.flatMap setBulk := by
      rw [← append_assoc, show f.length + 2 = (f ++ crlf).length by simp [crlf],
        drop_left]
    rw [hbulk, length_cons, parseBulks]
    simp only [takeWhile_lengthLine, drop_lengthLine, hval, hbody, hrest, take_left]

theorem respParse_respParser : RespParser respParse := by
  intro fields hcount hfields
  have hval := digitsVal_fmtU64 hcount
  show parseBulks (digitsVal ((fmtU64 fields.length ++ crlf ++ fields.flatMap setBulk).takeWhile
    isDigit)) ((fmtU64 fields.length ++ crlf ++ fields.flatMap setBulk).drop
      (((fmtU64 fields.length ++ crlf ++ fields.flatMap setBulk).takeWhile isDigit).length + 2)) = _
  rw [takeWhile_lengthLine, drop_lengthLine, hval]
  exact parseBulks_flatMap fields hfields

/-- Two keys, one of them deleted again, and three turns of the slave thread. -/
def setSetDel : List ReplAction :=
  [.cmd (.mset [ascii "k", ascii "v", ascii "l", ascii "w"]), .sync,
    .cmd (.del [ascii "l"]), .sync, .sync]

/-- The state a run from the empty stores ends in. -/
def endOf (l : List ReplAction) : Repl :=
  match run (stepRepl respParse) Repl.init l with
  | .ok st => st
  | .error _ => Repl.init

theorem setSetDel_converges : Converged (endOf setSetDel) := by
  refine (converges_iff_no_empty_value respParse_respParser setSetDel _ rfl ?_ (by decide)
    ?_).mpr ?_
  · intro bl hbl
    cases hbl
    decide
  · intro c hc key hkey s _ _ heq
    have hlen : ∀ key ∈ c.keys, key.length = 1 := by
      simp only [setSetDel, mem_cons, ReplAction.cmd.injEq, reduceCtorEq, false_or,
        not_mem_nil, or_false] at hc
      rcases hc with rfl | rfl <;> decide
    have := hlen key hkey
    rw [heq, encodeSeqKey_length] at this
    cases this
  · intro key
    show dataOf [.set (ascii "k") (ascii "v"), .set (ascii "l") (ascii "w"), .del (ascii "l")] key
      ≠ some []
    simp only [dataOf, List.foldl, Update.key, Update.value, Function.update_apply]
    split_ifs
    · simp
    · decide
    · simp

/-- An empty value: the slave thread takes the record as expired. -/
def setEmpty : List ReplAction := [.cmd (.set [ascii "k", []]), .sync]

theorem setEmpty_not_converged :
    run (stepRepl respParse) Repl.init setEmpty = .ok (endOf setEmpty) ∧
      Drained (endOf setEmpty) ∧ ¬Converged (endOf setEmpty) := by
  refine ⟨rfl, ?_, ?_⟩
  · intro bl hbl
    cases hbl
    decide
  · intro h
    have := h (ascii "k")
    revert this
    decide

end Supex.Tsdb
