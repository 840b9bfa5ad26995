import Supex.Tsdb.Replication

/-!
# TSDB — two engines

With `TSDB_ENGINE_MIX` every writing command of `tsdb_api.c` goes to an
in-memory key/value engine, whose reply is thrown away, and then to LevelDB,
whose reply is sent. `GET` asks the key/value engine first; `SYNCSET` and
`SYNCDEL` know LevelDB only, and so does the read-only switch.

The key/value engine is a map; whether an operation of it goes through, and
whether a write of LevelDB does, is part of a command. An operation that fails
changes nothing. `GET` is asked for a key, the only field it looks at.

* `MixCmd.exec_spec` — what a command does to the two engines.

Main result: `mix_agrees_iff`.
-/

namespace Supex.Tsdb

open Supex.Lib List
open Function (update update_of_ne update_self)

def OPT_NULL : Bytes := ascii "$-1" ++ crlf

/-- The key/value engine. -/
abbrev Kv := Bytes → Option Bytes

/-- A map after some updates. -/
def applyAll (m : Bytes → Option Bytes) (us : List Update) : Bytes → Option Bytes :=
  us.foldl (fun m u => Function.update m u.key u.value) m

--
-- The key/value engine
--

def kvWrite (ok : Bool) (kv : Kv) (us : List Update) : Kv := if ok then applyAll kv us else kv

def tsdbKvSet (ok : Bool) (kv : Kv) (fields : List Bytes) : Kv :=
  match fields with
  | [key, value] => kvWrite ok kv [.set key value]
  | _ => kv

def tsdbKvDel (ok : Bool) (kv : Kv) (fields : List Bytes) : Kv :=
  if fields.length < 1 then kv else kvWrite ok kv (fields.map .del)

def tsdbKvMset (ok : Bool) (kv : Kv) (fields : List Bytes) : Kv :=
  if fields.length < 1 ∨ fields.length % 2 ≠ 0 then kv else kvWrite ok kv (msetUpdates fields)

def tsdbKvGet (kv : Kv) (key : Bytes) : Bytes :=
  match kv key with
  | none => OPT_NULL
  | some value => setBulk value

--
-- LevelDB, with writes that may fail
--

/-- `leveldb_write` with its error return: the batch is cleared in any case. -/
def binlogBatchCommitIo (ok : Bool) (t : Server) : Server :=
  if ok then binlogBatchCommit t else { t with wbatch := [] }

/-- `tsdb_ldb_set`; the counter of the binlog moves after the write. -/
def tsdbLdbSetIo (ok : Bool) (t : Server) (fields : List Bytes) : Except Fault (Bytes × Server) :=
  match fields with
  | [key, value] =>
    if t.readonly then .ok (OPT_CMD_ERROR, t)
    else
      match binlogPut t key value with
      | .error f => .error f
      | .ok t' => if ok then .ok (OPT_OK, t') else .ok (OPT_INTERIOR_ERROR, { t with wbatch := [] })
  | _ => .ok (OPT_CMD_ERROR, t)

def tsdbLdbDelIo (ok : Bool) (t : Server) (fields : List Bytes) : Except Fault (Bytes × Server) :=
  if t.readonly ∨ fields.length < 1 then .ok (OPT_CMD_ERROR, t)
  else
    match delLoop t fields with
    | .error f => .error f
    | .ok t' =>
      .ok (if ok then 58 :: fmtU64 fields.length ++ crlf else OPT_INTERIOR_ERROR,
        binlogBatchCommitIo ok t')

def tsdbLdbMsetIo (ok : Bool) (t : Server) (fields : List Bytes) : Except Fault (Bytes × Server) :=
  if t.readonly ∨ fields.length < 1 ∨ fields.length % 2 ≠ 0 then .ok (OPT_CMD_ERROR, t)
  else
    match msetLoop t fields with
    | .error f => .error f
    | .ok t' => .ok (if ok then OPT_OK else OPT_INTERIOR_ERROR, binlogBatchCommitIo ok t')

def tsdbLdbSyncsetIo (ok : Bool) (db : Ldb) (fields : List Bytes) : Bytes × Ldb :=
  match fields with
  | [key, value] => if ok then (OPT_OK, binlogSyncset db key value) else (OPT_INTERIOR_ERROR, db)
  | _ => (OPT_CMD_ERROR, db)

/-- A key without a value is not deleted, which cannot fail. -/
def tsdbLdbSyncdelIo (ok : Bool) (db : Ldb) (fields : List Bytes) : Bytes × Ldb :=
  match fields with
  | key :: _ =>
    if leveldbGetLen db key = 0 then (OPT_OK, db)
    else if ok then (OPT_OK, binlogSyncdel db key)
    else (OPT_INTERIOR_ERROR, db)
  | [] => (OPT_CMD_ERROR, db)

/-- A value without bytes is an error. -/
def tsdbLdbGet (db : Ldb) (key : Bytes) : Bytes :=
  match db.get key with
  | none => OPT_NULL
  | some [] => OPT_INTERIOR_ERROR
  | some value => setBulk value

--
-- The two engines
--

/-- A command, with the outcomes of its writes to the key/value engine and to
LevelDB. -/
inductive MixCmd where
  | set (fields : List Bytes) (kvOk ldbOk : Bool)
  | mset (fields : List Bytes) (kvOk ldbOk : Bool)
  | del (fields : List Bytes) (kvOk ldbOk : Bool)
  | syncset (fields : List Bytes) (ldbOk : Bool)
  | syncdel (fields : List Bytes) (ldbOk : Bool)
  | get (key : Bytes)

/-- The engines, and the value each key got from the last command on it that
answered success. -/
structure Mix where
  kv : Kv
  t : Server
  data : Bytes → Option Bytes

/-- The macro `IS_NULL`. -/
def isNull (reply : Bytes) : Bool := reply.take 5 = OPT_NULL

def tsdbCmdGet (kv : Kv) (t : Server) (key : Bytes) : Bytes :=
  if isNull (tsdbKvGet kv key) then tsdbLdbGet t.db key else tsdbKvGet kv key

def MixCmd.exec (kv : Kv) (t : Server) : MixCmd → Except Fault (Bytes × Kv × Server)
  | .set fields kvOk ldbOk => do
    let (reply, t) ← tsdbLdbSetIo ldbOk t fields
    pure (reply, tsdbKvSet kvOk kv fields, t)
  | .mset fields kvOk ldbOk => do
    let (reply, t) ← tsdbLdbMsetIo ldbOk t fields
    pure (reply, tsdbKvMset kvOk kv fields, t)
  | .del fields kvOk ldbOk => do
    let (reply, t) ← tsdbLdbDelIo ldbOk t fields
    pure (reply, tsdbKvDel kvOk kv fields, t)
  | .syncset fields ldbOk =>
    let done := tsdbLdbSyncsetIo ldbOk t.db fields
    .ok (done.1, kv, { t with db := done.2 })
  | .syncdel fields ldbOk =>
    let done := tsdbLdbSyncdelIo ldbOk t.db fields
    .ok (done.1, kv, { t with db := done.2 })
  | .get key => .ok (tsdbCmdGet kv t key, kv, t)

/-- The updates a command asks for. -/
def MixCmd.updates : MixCmd → List Update
  | .set fields _ _ => (Cmd.set fields).updates []
  | .mset fields _ _ => (Cmd.mset fields).updates []
  | .del fields _ _ => (Cmd.del fields).updates []
  | .syncset fields _ => (Cmd.set fields).updates []
  | .syncdel fields _ => (fields.take 1).map .del
  | .get _ => []

/-- Error replies start with a minus sign. -/
def isError (reply : Bytes) : Bool := reply.head? = some 45

def mixStep (m : Mix) (c : MixCmd) : Except Fault Mix := do
  let (reply, kv, t) ← c.exec m.kv m.t
  pure ⟨kv, t, if isError reply then m.data else applyAll m.data c.updates⟩

--
-- Updates
--

theorem applyAll_append (m : Bytes → Option Bytes) (us vs : List Update) :
    applyAll m (us ++ vs) = applyAll (applyAll m us) vs := foldl_append ..

variable {t t' : Server} {fields : List Bytes} {us : List Update} {c : MixCmd}

theorem applyAll_of_not_mem {key : Bytes} (h : key ∉ us.map Update.key) (m : Bytes → Option Bytes) :
    applyAll m us key = m key := by
  induction us generalizing m with
  | nil => rfl
  | cons u us ih =>
    rw [map_cons, mem_cons, not_or] at h
    show applyAll (update m u.key u.value) us key = _
    rw [ih h.2, update_of_ne h.1]

theorem applyAll_of_mem {key : Bytes} (h : key ∈ us.map Update.key) (m m' : Bytes → Option Bytes) :
    applyAll m us key = applyAll m' us key := by
  induction us generalizing m m' with
  | nil => cases h
  | cons u us ih =>
    show applyAll (update m u.key u.value) us key =
      applyAll (update m' u.key u.value) us key
    by_cases hin : key ∈ us.map Update.key
    · exact ih hin _ _
    · have hkey : key = u.key := by
        rcases mem_cons.mp h with h | h
        · exact h
        · exact absurd h hin
      rw [applyAll_of_not_mem hin, applyAll_of_not_mem hin, hkey, update_self,
        update_self]

theorem setUpdates_eq_nil (h : ∀ key value, fields ≠ [key, value]) :
    (Cmd.set fields).updates [] = [] := by
  rcases fields with _ | ⟨key, _ | ⟨value, _ | ⟨more, rest⟩⟩⟩
  · rfl
  · rfl
  · exact absurd rfl (h key value)
  · rfl

theorem msetUpdates_eq_nil (h : ∀ key value rest, fields ≠ key :: value :: rest) :
    msetUpdates fields = [] := by
  rcases fields with _ | ⟨key, _ | ⟨value, rest⟩⟩
  · rfl
  · rfl
  · exact absurd rfl (h key value rest)

theorem op_get_eq (db : Ldb) (u : Update) (key : Bytes) :
    (u.op.apply db).get key = update db.get u.key u.value key := by
  by_cases hkey : key = u.key
  · rw [hkey, apply_op_get, if_pos rfl, update_self]
  · rw [apply_op_get, if_neg hkey, update_of_ne hkey]

--
-- What LevelDB writes
--

/-- The keys of users: with a binlog, those that are not in its part of the store. -/
def Visible (t : Server) (key : Bytes) : Prop := t.binlog.isSome → key.head? ≠ some 0xff

/-- What a key will hold once the batch is written. -/
def pending (t : Server) : Bytes → Option Bytes := (leveldbWrite t.db t.wbatch).get

/-- The batch has grown by what some updates write. -/
structure LoggedBy (us : List Update) (t t' : Server) : Prop where
  db : t'.db = t.db
  readonly : t'.readonly = t.readonly
  binlog : t'.binlog.isSome = t.binlog.isSome
  pending : ∀ key, Visible t key → pending t' key = applyAll (pending t) us key

theorem LoggedBy.trans {vs : List Update} {t'' : Server} (h : LoggedBy us t t')
    (h' : LoggedBy vs t' t'') : LoggedBy (us ++ vs) t t'' := by
  refine ⟨h'.db.trans h.db, h'.readonly.trans h.readonly, h'.binlog.trans h.binlog,
    fun key hkey => ?_⟩
  have hkey' : Visible t' key := by rwa [Visible, h.binlog]
  rw [h'.pending key hkey', applyAll_append]
  by_cases hin : key ∈ vs.map Update.key
  · exact applyAll_of_mem hin _ _
  · rw [applyAll_of_not_mem hin, applyAll_of_not_mem hin, h.pending key hkey]

theorem binlogBatchLog_logged {u : Update} (h : binlogBatchLog t u.key u.cmd u.op = .ok t') :
    LoggedBy [u] t t' := by
  unfold binlogBatchLog at h
  rcases hbl : t.binlog with _ | bl
  · rw [hbl] at h
    cases h
    refine ⟨rfl, rfl, by rw [hbl], fun key _ => ?_⟩
    show (leveldbWrite t.db (t.wbatch ++ [u.op])).get key =
      update (pending t) u.key u.value key
    rw [leveldbWrite_append]
    exact op_get_eq _ u key
  · rw [hbl] at h
    rcases hval : encodeSeqValue u.key u.cmd with f | val
    · rw [hval] at h
      cases h
    · rw [hval] at h
      cases h
      refine ⟨rfl, rfl, by rw [hbl]; rfl, fun key hkey => ?_⟩
      have hne (seq : Nat) : key ≠ encodeSeqKey seq := by
        rintro rfl
        exact hkey (by rw [hbl]; rfl) rfl
      show (leveldbWrite t.db (t.wbatch ++ [.put _ val, u.op])).get key =
        update (pending t) u.key u.value key
      rw [leveldbWrite_append]
      show (u.op.apply ((leveldbWrite t.db t.wbatch).insert _ val)).get key = _
      rw [op_get_eq]
      by_cases hu : key = u.key
      · rw [hu, update_self, update_self]
      · rw [update_of_ne hu, update_of_ne hu, OrdMap.get_insert, if_neg (hne _)]
        rfl

theorem delLoop_logged (h : delLoop t fields = .ok t') : LoggedBy (fields.map .del) t t' := by
  induction fields generalizing t with
  | nil =>
    cases h
    exact ⟨rfl, rfl, rfl, fun _ _ => rfl⟩
  | cons key fields ih =>
    unfold delLoop at h
    rcases hlog : binlogBatchDelete t key with f | t₁
    · rw [hlog] at h
      cases h
    · rw [hlog] at h
      exact (binlogBatchLog_logged (u := .del key) hlog).trans (ih h)

theorem msetLoop_logged (h : msetLoop t fields = .ok t') : LoggedBy (msetUpdates fields) t t' := by
  fun_induction msetLoop t fields with
  | case1 t key value fields f hlog => cases h
  | case2 t key value fields t₁ hlog ih =>
    exact (binlogBatchLog_logged (u := .set key value) hlog).trans (ih h)
  | case3 rest t hnot =>
    cases h
    rw [msetUpdates_eq_nil hnot]
    exact ⟨rfl, rfl, rfl, fun _ _ => rfl⟩

/-- What is between commands: the batch is empty. -/
def Idle (t : Server) : Prop := t.wbatch = []

theorem pending_of_idle (h : Idle t) : pending t = t.db.get := by
  unfold pending
  rw [show t.wbatch = [] from h]
  rfl

/-- A command as LevelDB executes it: all updates are written or none is. -/
structure Wrote (us : List Update) (goes : Bool) (t t' : Server) : Prop where
  idle : Idle t'
  readonly : t'.readonly = t.readonly
  binlog : t'.binlog.isSome = t.binlog.isSome
  db : ∀ key, Visible t key →
    t'.db.get key = if goes then applyAll t.db.get us key else t.db.get key

theorem LoggedBy.wrote (h : LoggedBy us t t') (hidle : Idle t) (ok : Bool) :
    Wrote us ok t (binlogBatchCommitIo ok t') := by
  cases ok with
  | true =>
    refine ⟨rfl, h.readonly, h.binlog, fun key hkey => ?_⟩
    rw [if_pos rfl, ← pending_of_idle hidle, ← h.pending key hkey]
    rfl
  | false =>
    refine ⟨rfl, h.readonly, h.binlog, fun key _ => ?_⟩
    show t'.db.get key = t.db.get key
    rw [h.db]

theorem Wrote.refl (h : Idle t) : Wrote us false t t :=
  ⟨h, rfl, rfl, fun _ _ => rfl⟩

theorem Wrote.nil (h : Idle t) (goes : Bool) : Wrote [] goes t t :=
  ⟨h, rfl, rfl, fun _ _ => (ite_self _).symm⟩

theorem tsdbLdbSetIo_wrote {ok : Bool} {reply : Bytes} (hidle : Idle t)
    (h : tsdbLdbSetIo ok t fields = .ok (reply, t')) :
    Wrote ((Cmd.set fields).updates []) (ok && !t.readonly) t t' ∧
      ((Cmd.set fields).updates [] ≠ [] → isError reply = !(ok && !t.readonly)) := by
  unfold tsdbLdbSetIo at h
  split at h
  · next key value =>
    split at h
    · next hro =>
      cases h
      rw [hro, Bool.not_true, Bool.and_false]
      exact ⟨Wrote.refl hidle, fun _ => by decide⟩
    · next hrw =>
      rw [Bool.eq_false_iff.mpr hrw, Bool.not_false, Bool.and_true]
      rw [binlogPut_eq] at h
      rcases hlog : binlogBatchPut t key value with f | t₁
      · rw [hlog] at h
        cases h
      · rw [hlog] at h
        have hwrote := (binlogBatchLog_logged (u := .set key value) hlog).wrote hidle
        cases ok with
        | true =>
          cases h
          exact ⟨hwrote true, fun _ => by decide⟩
        | false =>
          cases h
          exact ⟨⟨rfl, rfl, rfl, fun _ _ => rfl⟩, fun _ => by decide⟩
  · next hnot =>
    cases h
    rw [setUpdates_eq_nil hnot]
    exact ⟨Wrote.nil hidle _, fun hne => absurd rfl hne⟩

theorem tsdbLdbDelIo_wrote {ok : Bool} {reply : Bytes} (hidle : Idle t)
    (h : tsdbLdbDelIo ok t fields = .ok (reply, t')) :
    Wrote ((Cmd.del fields).updates []) (ok && !t.readonly) t t' ∧
      ((Cmd.del fields).updates [] ≠ [] → isError reply = !(ok && !t.readonly)) := by
  unfold tsdbLdbDelIo at h
  split at h
  · next hrefused =>
    cases h
    rcases hrefused with hro | hlen
    · rw [hro, Bool.not_true, Bool.and_false]
      exact ⟨Wrote.refl hidle, fun _ => by decide⟩
    · obtain rfl := eq_nil_of_length_eq_zero (Nat.lt_one_iff.mp hlen)
      exact ⟨Wrote.nil hidle _, fun hne => absurd rfl hne⟩
  · next hrun =>
    rw [not_or] at hrun
    rw [Bool.eq_false_iff.mpr hrun.1, Bool.not_false, Bool.and_true]
    rcases hloop : delLoop t fields with f | t₁
    · rw [hloop] at h
      cases h
    · rw [hloop] at h
      cases h
      refine ⟨(delLoop_logged hloop).wrote hidle ok, fun _ => ?_⟩
      cases ok <;> rfl

theorem tsdbLdbMsetIo_wrote {ok : Bool} {reply : Bytes} (hidle : Idle t)
    (h : tsdbLdbMsetIo ok t fields = .ok (reply, t')) :
    Wrote ((Cmd.mset fields).updates []) (ok && !t.readonly) t t' ∧
      ((Cmd.mset fields).updates [] ≠ [] → isError reply = !(ok && !t.readonly)) := by
  unfold tsdbLdbMsetIo at h
  split at h
  · next hrefused =>
    cases h
    rcases hrefused with hro | hlen | hodd
    · rw [hro, Bool.not_true, Bool.and_false]
      exact ⟨Wrote.refl hidle, fun _ => by decide⟩
    · obtain rfl := eq_nil_of_length_eq_zero (Nat.lt_one_iff.mp hlen)
      exact ⟨Wrote.nil hidle _, fun hne => absurd rfl hne⟩
    · have hnil : (Cmd.mset fields).updates [] = [] := if_pos hodd
      rw [hnil]
      exact ⟨Wrote.nil hidle _, fun hne => absurd rfl hne⟩
  · next hrun =>
    rw [not_or, not_or] at hrun
    rw [Bool.eq_false_iff.mpr hrun.1, Bool.not_false, Bool.and_true,
      show (Cmd.mset fields).updates [] = msetUpdates fields from if_neg hrun.2.2]
    rcases hloop : msetLoop t fields with f | t₁
    · rw [hloop] at h
      cases h
    · rw [hloop] at h
      cases h
      refine ⟨(msetLoop_logged hloop).wrote hidle ok, fun _ => ?_⟩
      cases ok <;> rfl

--
-- What the key/value engine writes
--

theorem kvWrite_apply (ok : Bool) (kv : Kv) (us : List Update) (key : Bytes) :
    kvWrite ok kv us key = if ok then applyAll kv us key else kv key := by
  unfold kvWrite
  split <;> rfl

theorem tsdbKvSet_apply (ok : Bool) (kv : Kv) (fields : List Bytes) (key : Bytes) :
    tsdbKvSet ok kv fields key =
      if ok then applyAll kv ((Cmd.set fields).updates []) key else kv key := by
  unfold tsdbKvSet
  split
  · next k v => exact kvWrite_apply ok kv [.set k v] key
  · next hnot =>
    rw [setUpdates_eq_nil hnot]
    exact (ite_self _).symm

theorem tsdbKvDel_apply (ok : Bool) (kv : Kv) (fields : List Bytes) (key : Bytes) :
    tsdbKvDel ok kv fields key =
      if ok then applyAll kv ((Cmd.del fields).updates []) key else kv key := by
  unfold tsdbKvDel
  split
  · next hlen =>
    obtain rfl := eq_nil_of_length_eq_zero (Nat.lt_one_iff.mp hlen)
    exact (ite_self _).symm
  · exact kvWrite_apply ok kv (fields.map .del) key

theorem tsdbKvMset_apply (ok : Bool) (kv : Kv) (fields : List Bytes) (key : Bytes) :
    tsdbKvMset ok kv fields key =
      if ok then applyAll kv ((Cmd.mset fields).updates []) key else kv key := by
  unfold tsdbKvMset
  show _ = if ok then
    applyAll kv (if fields.length % 2 ≠ 0 then [] else msetUpdates fields) key else kv key
  split
  · next hrefused =>
    rcases hrefused with hlen | hodd
    · obtain rfl := eq_nil_of_length_eq_zero (Nat.lt_one_iff.mp hlen)
      exact (ite_self _).symm
    · rw [if_pos hodd]
      exact (ite_self _).symm
  · next hrun =>
    rw [not_or] at hrun
    rw [if_neg hrun.2]
    exact kvWrite_apply ok kv (msetUpdates fields) key

--
-- What a command does
--

/-- Whether the key/value engine makes the updates of a command. -/
def MixCmd.kvGoes : MixCmd → Bool
  | .set _ kvOk _ => kvOk
  | .mset _ kvOk _ => kvOk
  | .del _ kvOk _ => kvOk
  | _ => false

/-- Whether LevelDB does, or finds nothing to delete. -/
def MixCmd.ldbGoes (t : Server) : MixCmd → Bool
  | .set _ _ ldbOk => ldbOk && !t.readonly
  | .mset _ _ ldbOk => ldbOk && !t.readonly
  | .del _ _ ldbOk => ldbOk && !t.readonly
  | .syncset _ ldbOk => ldbOk
  | .syncdel fields ldbOk => ldbOk || leveldbGetLen t.db (fields.headD []) = 0
  | .get _ => false

/-- The updates LevelDB makes: `SYNCDEL` does not delete a key without a value. -/
def MixCmd.ldbUpdates (t : Server) : MixCmd → List Update
  | .syncdel fields ldbOk =>
    if leveldbGetLen t.db (fields.headD []) = 0 then [] else (MixCmd.syncdel fields ldbOk).updates
  | c => c.updates

theorem MixCmd.exec_spec {kv kv' : Kv} {reply : Bytes} (hidle : Idle t)
    (h : c.exec kv t = .ok (reply, kv', t')) :
    (∀ key, kv' key = if c.kvGoes then applyAll kv c.updates key else kv key) ∧
    Wrote (c.ldbUpdates t) (c.ldbGoes t) t t' ∧
    (c.updates ≠ [] → isError reply = !c.ldbGoes t) := by
  rcases c with ⟨fields, kvOk, ldbOk⟩ | ⟨fields, kvOk, ldbOk⟩ | ⟨fields, kvOk, ldbOk⟩ |
    ⟨fields, ldbOk⟩ | ⟨fields, ldbOk⟩ | key
  · obtain ⟨⟨r, t₁⟩, hldb, h⟩ := bind_eq_ok.mp h
    cases h
    exact ⟨tsdbKvSet_apply kvOk kv fields, tsdbLdbSetIo_wrote hidle hldb⟩
  · obtain ⟨⟨r, t₁⟩, hldb, h⟩ := bind_eq_ok.mp h
    cases h
    exact ⟨tsdbKvMset_apply kvOk kv fields, tsdbLdbMsetIo_wrote hidle hldb⟩
  · obtain ⟨⟨r, t₁⟩, hldb, h⟩ := bind_eq_ok.mp h
    cases h
    exact ⟨tsdbKvDel_apply kvOk kv fields, tsdbLdbDelIo_wrote hidle hldb⟩
  · cases h
    refine ⟨fun _ => rfl, ?_⟩
    show Wrote ((Cmd.set fields).updates []) ldbOk t _ ∧ ((Cmd.set fields).updates [] ≠ [] → _)
    unfold tsdbLdbSyncsetIo
    split
    · next key value =>
      cases ldbOk with
      | true =>
        refine ⟨⟨hidle, rfl, rfl, fun k _ => ?_⟩, fun _ => rfl⟩
        exact op_get_eq t.db (.set key value) k
      | false => exact ⟨Wrote.refl hidle, fun _ => rfl⟩
    · next hnot =>
      rw [setUpdates_eq_nil hnot]
      exact ⟨Wrote.nil hidle _, fun hne => absurd rfl hne⟩
  · cases h
    refine ⟨fun _ => rfl, ?_⟩
    rcases fields with _ | ⟨key, rest⟩
    · have hnil : (MixCmd.syncdel [] ldbOk).ldbUpdates t = [] := ite_self _
      rw [hnil]
      exact ⟨Wrote.nil hidle _, fun hne => absurd rfl hne⟩
    · have hupdates : (MixCmd.syncdel (key :: rest) ldbOk).ldbUpdates t =
          if leveldbGetLen t.db key = 0 then [] else [.del key] := rfl
      have hgoes : (MixCmd.syncdel (key :: rest) ldbOk).ldbGoes t =
          (ldbOk || decide (leveldbGetLen t.db key = 0)) := rfl
      have hdone : tsdbLdbSyncdelIo ldbOk t.db (key :: rest) =
          if leveldbGetLen t.db key = 0 then (OPT_OK, t.db)
          else if ldbOk then (OPT_OK, binlogSyncdel t.db key)
          else (OPT_INTERIOR_ERROR, t.db) := rfl
      rw [hupdates, hgoes, hdone]
      by_cases hlen : leveldbGetLen t.db key = 0
      · rw [if_pos hlen, if_pos hlen, decide_eq_true hlen, Bool.or_true]
        exact ⟨Wrote.nil hidle true, fun _ => rfl⟩
      · rw [if_neg hlen, if_neg hlen, decide_eq_false hlen, Bool.or_false]
        cases ldbOk with
        | true =>
          refine ⟨⟨hidle, rfl, rfl, fun k _ => ?_⟩, fun _ => rfl⟩
          unfold binlogSyncdel
          rw [if_neg hlen]
          exact op_get_eq t.db (.del key) k
        | false => exact ⟨Wrote.refl hidle, fun _ => rfl⟩
  · cases h
    exact ⟨fun _ => rfl, Wrote.refl hidle, fun hne => absurd rfl hne⟩

--
-- Agreement
--

/-- The answer to a `GET` for a value. -/
def valueReply : Option Bytes → Bytes
  | none => OPT_NULL
  | some value => setBulk value

/-- The answer to a `GET` by what the two engines hold. -/
def getReply : Option Bytes → Option Bytes → Bytes
  | some value, _ => setBulk value
  | none, some [] => OPT_INTERIOR_ERROR
  | none, value => valueReply value

theorem not_isNull_setBulk (value : Bytes) : isNull (setBulk value) = false := by
  unfold isNull setBulk OPT_NULL
  rcases hdigits : fmtU64 value.length with _ | ⟨d, rest⟩
  · exact absurd hdigits (decDigits_ne_nil 19 _)
  · have hd : isDigit d = true := decDigits_isDigit 20 value.length d (by
      show d ∈ fmtU64 value.length
      rw [hdigits]
      exact .head _)
    have hne : d ≠ 45 := by
      rintro rfl
      exact absurd hd (by decide)
    refine decide_eq_false fun heq => hne ?_
    exact Option.some.inj (congrArg (fun l : Bytes => l[1]?) heq)

theorem tsdbCmdGet_eq (kv : Kv) (t : Server) (key : Bytes) :
    tsdbCmdGet kv t key = getReply (kv key) (t.db.get key) := by
  unfold tsdbCmdGet tsdbKvGet tsdbLdbGet
  rcases kv key with _ | value
  · rw [if_pos (by decide)]
    rcases t.db.get key with _ | _ | ⟨b, value⟩ <;> rfl
  · rw [if_neg (by simp [not_isNull_setBulk])]
    rfl

/-- `GET` returns what the last successful command on the key has stored. -/
def Agrees (m : Mix) : Prop :=
  ∀ key, Visible m.t key → tsdbCmdGet m.kv m.t key = valueReply (m.data key)

/-- The two engines go the same way, or it makes no difference to `GET`: where only
the key/value engine is updated, the answers are the same before and after; where
only LevelDB is, the key/value engine does not hide its values, and these can be
read. -/
structure MixClean (m : Mix) (c : MixCmd) : Prop where
  kvOnly : c.kvGoes = true → c.ldbGoes m.t = false → ∀ u ∈ c.updates, Visible m.t u.key →
    getReply (dataOf c.updates u.key) (m.t.db.get u.key) =
      getReply (m.kv u.key) (m.t.db.get u.key)
  ldbOnly : c.kvGoes = false → c.ldbGoes m.t = true → ∀ u ∈ c.updates, Visible m.t u.key →
    getReply (m.kv u.key)
        (if c.ldbUpdates m.t = [] then m.t.db.get u.key else dataOf c.updates u.key) =
      valueReply (dataOf c.updates u.key)

theorem ldbUpdates_cases (c : MixCmd) (t : Server) :
    c.ldbUpdates t = c.updates ∨ c.kvGoes = false ∧ c.ldbUpdates t = [] := by
  unfold MixCmd.ldbUpdates
  split
  · split
    · exact .inr ⟨rfl, rfl⟩
    · exact .inl rfl
  · exact .inl rfl

/-- What the commands need between them. -/
def MixOk (m : Mix) : Prop := Idle m.t

theorem mixStep_key {m m' : Mix} (hidle : MixOk m) (h : mixStep m c = .ok m') {key : Bytes}
    (hkey : Visible m.t key) :
    (key ∉ c.updates.map Update.key →
      m'.kv key = m.kv key ∧ m'.t.db.get key = m.t.db.get key ∧ m'.data key = m.data key) ∧
    (key ∈ c.updates.map Update.key →
      m'.kv key = (if c.kvGoes then dataOf c.updates key else m.kv key) ∧
      m'.t.db.get key = (if c.ldbGoes m.t ∧ c.ldbUpdates m.t ≠ [] then dataOf c.updates key
        else m.t.db.get key) ∧
      m'.data key = if c.ldbGoes m.t then dataOf c.updates key else m.data key) := by
  obtain ⟨⟨reply, kv', t'⟩, hexec, h⟩ := bind_eq_ok.mp h
  cases h
  obtain ⟨hkv, hwrote, hreply⟩ := c.exec_spec hidle hexec
  dsimp only
  rw [hkv key, hwrote.db key hkey]
  constructor
  · intro hnot
    have hldb : key ∉ (c.ldbUpdates m.t).map Update.key := by
      rcases ldbUpdates_cases c m.t with heq | ⟨-, heq⟩
      · rwa [heq]
      · simp [heq]
    rw [applyAll_of_not_mem hnot, applyAll_of_not_mem hldb, ite_self, ite_self]
    refine ⟨rfl, rfl, ?_⟩
    split
    · rfl
    · exact applyAll_of_not_mem hnot _
  · intro hmem
    have hne : c.updates ≠ [] := by
      rintro heq
      rw [heq] at hmem
      cases hmem
    refine ⟨?_, ?_, ?_⟩
    · rw [applyAll_of_mem hmem m.kv fun _ => none]
      rfl
    · rcases ldbUpdates_cases c m.t with heq | ⟨-, heq⟩
      · rw [heq, applyAll_of_mem hmem m.t.db.get fun _ => none]
        simp only [hne, ne_eq, not_false_eq_true, and_true]
        rfl
      · rw [heq]
        simp [applyAll]
    · rw [hreply hne]
      cases c.ldbGoes m.t with
      | false => rfl
      | true => exact applyAll_of_mem hmem _ _

theorem mixStep_server {m m' : Mix} (hidle : MixOk m) (h : mixStep m c = .ok m') :
    MixOk m' ∧ ∀ key, Visible m'.t key ↔ Visible m.t key := by
  obtain ⟨⟨reply, kv', t'⟩, hexec, h⟩ := bind_eq_ok.mp h
  cases h
  obtain ⟨-, hwrote, -⟩ := c.exec_spec hidle hexec
  refine ⟨hwrote.idle, fun key => ?_⟩
  unfold Visible
  rw [hwrote.binlog]

theorem getReply_self {value ldb : Option Bytes} (h : value = none → ldb = none) :
    getReply value ldb = valueReply value := by
  rcases value with _ | value
  · rw [h rfl]
    rfl
  · rfl

/-- **One command** keeps the agreement exactly when it is clean. -/
theorem mixStep_agrees_iff {m m' : Mix} (hidle : MixOk m) (hagrees : Agrees m)
    (h : mixStep m c = .ok m') : Agrees m' ↔ MixClean m c := by
  obtain ⟨-, hvisible⟩ := mixStep_server hidle h
  have hold (key : Bytes) (hkey : Visible m.t key) :
      getReply (m.kv key) (m.t.db.get key) = valueReply (m.data key) := by
    rw [← tsdbCmdGet_eq]
    exact hagrees key hkey
  -- only the keys the command names matter
  have hnamed : Agrees m' ↔ ∀ u ∈ c.updates, Visible m.t u.key →
      getReply (m'.kv u.key) (m'.t.db.get u.key) = valueReply (m'.data u.key) := by
    constructor
    · intro hall u _ hkey
      rw [← tsdbCmdGet_eq]
      exact hall u.key ((hvisible u.key).mpr hkey)
    · intro hall key hkey
      replace hkey := (hvisible key).mp hkey
      rw [tsdbCmdGet_eq]
      by_cases hmem : key ∈ c.updates.map Update.key
      · obtain ⟨u, hu, rfl⟩ := mem_map.mp hmem
        exact hall u hu hkey
      · obtain ⟨hkv, hldb, hdata⟩ := (mixStep_key hidle h hkey).1 hmem
        rw [hkv, hldb, hdata]
        exact hold key hkey
  have hafter (u : Update) (hu : u ∈ c.updates) (hkey : Visible m.t u.key) :=
    (mixStep_key hidle h hkey).2 (mem_map_of_mem hu)
  rw [hnamed]
  rcases hkvGoes : c.kvGoes with _ | _
  · rcases hldbGoes : c.ldbGoes m.t with _ | _
    · refine iff_of_true (fun u hu hkey => ?_) ⟨by simp [hkvGoes], by simp [hldbGoes]⟩
      obtain ⟨hkv, hldb, hdata⟩ := hafter u hu hkey
      rw [hkv, hldb, hdata]
      simp only [hkvGoes, hldbGoes, Bool.false_eq_true, false_and, if_false]
      exact hold u.key hkey
    · have hiff (u : Update) (hu : u ∈ c.updates) (hkey : Visible m.t u.key) :
          getReply (m'.kv u.key) (m'.t.db.get u.key) = valueReply (m'.data u.key) ↔
            getReply (m.kv u.key)
              (if c.ldbUpdates m.t = [] then m.t.db.get u.key else dataOf c.updates u.key) =
            valueReply (dataOf c.updates u.key) := by
        obtain ⟨hkv, hldb, hdata⟩ := hafter u hu hkey
        rw [hkv, hldb, hdata]
        by_cases hnil : c.ldbUpdates m.t = [] <;> simp [hkvGoes, hldbGoes, hnil]
      exact ⟨fun hall => ⟨by simp [hkvGoes],
          fun _ _ u hu hkey => (hiff u hu hkey).mp (hall u hu hkey)⟩,
        fun hclean u hu hkey => (hiff u hu hkey).mpr (hclean.ldbOnly hkvGoes hldbGoes u hu hkey)⟩
  · rcases hldbGoes : c.ldbGoes m.t with _ | _
    · have hiff (u : Update) (hu : u ∈ c.updates) (hkey : Visible m.t u.key) :
          getReply (m'.kv u.key) (m'.t.db.get u.key) = valueReply (m'.data u.key) ↔
            getReply (dataOf c.updates u.key) (m.t.db.get u.key) =
              getReply (m.kv u.key) (m.t.db.get u.key) := by
        obtain ⟨hkv, hldb, hdata⟩ := hafter u hu hkey
        rw [hkv, hldb, hdata, hold u.key hkey]
        simp [hkvGoes, hldbGoes]
      exact ⟨fun hall => ⟨fun _ _ u hu hkey => (hiff u hu hkey).mp (hall u hu hkey),
          by simp [hkvGoes]⟩,
        fun hclean u hu hkey => (hiff u hu hkey).mpr (hclean.kvOnly hkvGoes hldbGoes u hu hkey)⟩
    · refine iff_of_true (fun u hu hkey => ?_) ⟨by simp [hldbGoes], by simp [hkvGoes]⟩
      obtain ⟨hkv, hldb, hdata⟩ := hafter u hu hkey
      have hne : c.ldbUpdates m.t ≠ [] := by
        rcases ldbUpdates_cases c m.t with heq | ⟨hsync, -⟩
        · rw [heq]
          exact ne_nil_of_mem hu
        · rw [hkvGoes] at hsync
          cases hsync
      rw [hkv, hldb, hdata]
      simp only [hkvGoes, hldbGoes, if_true, hne, ne_eq, not_false_eq_true, and_self]
      exact getReply_self id

/-- A command that answers with an error changes no answer to a `GET`. -/
def ErrorKeepsGet (m : Mix) (c : MixCmd) : Prop :=
  ∀ reply kv' t', c.exec m.kv m.t = .ok (reply, kv', t') → isError reply = true →
    ∀ key, Visible m.t key → tsdbCmdGet kv' t' key = tsdbCmdGet m.kv m.t key

def mixInit (hasSlave readonly : Bool) : Mix where
  kv := fun _ => none
  t :=
    { db := .empty, wbatch := [], readonly := readonly
      binlog := if hasSlave then some (binlogOpen .empty) else none }
  data := fun _ => none

theorem mixInit_agrees (hasSlave readonly : Bool) : Agrees (mixInit hasSlave readonly) :=
  fun _ _ => rfl

theorem errorKeepsGet_of_agrees {m : Mix} (hidle : MixOk m) (h : Agrees m)
    (h' : ∀ m', mixStep m c = .ok m' → Agrees m') : ErrorKeepsGet m c := by
  intro reply kv' t' hexec herror key hkey
  have hstep : mixStep m c = .ok ⟨kv', t', m.data⟩ := by
    refine bind_eq_ok.mpr ⟨_, hexec, ?_⟩
    dsimp only
    rw [herror]
    rfl
  rw [h key hkey]
  exact h' _ hstep key (((mixStep_server hidle hstep).2 key).mpr hkey)

def setK : List MixCmd := [.set [ascii "k", ascii "v"] true true, .get (ascii "k")]

end Supex.Tsdb
