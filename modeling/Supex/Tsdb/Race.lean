import Supex.Tsdb.Replication

/-!
# TSDB — the slave thread against the command thread

`Replication` takes commands and turns of the slave thread as whole steps. Here
both threads are cut into the steps they really make on shared data:

* `MSET` and `DEL` move `last_seq` record by record while the batch is filled,
  and write the batch at the end; `SET` writes first and moves `last_seq`
  afterwards.
* The slave thread compares `cur_seq` with `last_seq`, reads the record, sends
  it and waits for the acknowledgement, deletes the record, and moves
  `cur_seq`.

The state carries three histories: the numbers of the records committed so far,
of those sent and acknowledged, and of the `SET` records `get_binlog` skipped
because their key was not in the store any more.

Main result: `committed_sent_or_expired`.
-/

namespace Supex.Tsdb

open Supex.Lib List

/-! ## The model -/

/-- The first half of `binlog_put`, up to the write. -/
def putWrite (t : Server) (key value : Bytes) : Except Fault Server :=
  match t.binlog with
  | none =>
    .ok { t with db := leveldbWrite t.db (t.wbatch ++ [.put key value]), wbatch := [] }
  | some bl =>
    match encodeSeqValue key CMD_SET with
    | .error f => .error f
    | .ok val =>
      .ok { t with
        db := leveldbWrite t.db
          (t.wbatch ++ [.put (encodeSeqKey ((bl.lastSeq + 1) % u64Size)) val, .put key value])
        wbatch := [] }

/-- The second half of `binlog_put`: `++binlog->last_seq`. -/
def putBump (t : Server) : Server :=
  { t with binlog := t.binlog.map fun bl => { bl with lastSeq := (bl.lastSeq + 1) % u64Size } }

theorem binlogPut_eq_write_bump (t : Server) (key value : Bytes) :
    binlogPut t key value = (putWrite t key value).map putBump := by
  obtain ⟨db, wbatch, binlog, readonly⟩ := t
  cases binlog with
  | none => rfl
  | some bl =>
    simp only [binlogPut, putWrite]
    cases encodeSeqValue key CMD_SET <;> rfl

/-- Where the command thread stands: between commands, filling a batch that
began with `last_seq = base`, or in `SET` between the write and the counter. -/
inductive CmdPc where
  | idle
  | batch (base : Nat) (done rest : List Update)
  | bump

/-- Where the slave thread stands in its loop. -/
inductive SlavePc where
  | compare
  | get
  | send (msg : Bytes)
  | delete
  | incr
  deriving DecidableEq

structure Race where
  server : Server
  cmd : CmdPc
  curSeq : Nat
  pc : SlavePc
  committed : List Nat
  acked : List Nat
  expired : List Nat

def Race.lastSeq (st : Race) : Nat :=
  match st.server.binlog with
  | some bl => bl.lastSeq
  | none => 0

/-- A master that has just opened an empty store, and its slave thread. -/
def Race.init : Race where
  server := Repl.init.master
  cmd := .idle
  curSeq := Repl.init.curSeq
  pc := .compare
  committed := []
  acked := []
  expired := []

inductive RaceAction where
  /-- `MSET` or `DEL` arrives, with its updates. -/
  | batch (us : List Update)
  /-- `SET` (or a member of `SADD`) arrives, and writes. -/
  | put (key value : Bytes)
  /-- The command thread makes its next step. -/
  | command
  /-- The slave thread makes its next step. -/
  | slave

/-- The next step inside a command. -/
def stepCommand (st : Race) : Except Fault Race :=
  match st.cmd with
  | .idle => .ok st
  | .batch base done (u :: rest) =>
    match binlogBatchLog st.server u.key u.cmd u.op with
    | .error f => .error f
    | .ok server => .ok { st with server := server, cmd := .batch base (done ++ [u]) rest }
  | .batch base done [] =>
    .ok { st with
      server := binlogBatchCommit st.server
      cmd := .idle
      committed := st.committed ++ List.range' (base + 1) done.length }
  | .bump => .ok { st with server := putBump st.server, cmd := .idle }

/-- The record of `seq` is a `SET` whose key is not in the store. -/
def isExpired (db : Ldb) (seq : Nat) : Bool :=
  match db.get (encodeSeqKey seq) with
  | some (cmd :: key) => cmd = CMD_SET && (db.get key).isNone
  | _ => false

/-- The next step of the slave thread, over a connection that acknowledges
every request. -/
def stepSlave (st : Race) : Except Fault Race :=
  match st.pc with
  | .compare => .ok (if st.curSeq ≤ st.lastSeq then { st with pc := .get } else st)
  | .get =>
    match getBinlog st.server.db st.curSeq SEND_BUF_SIZE with
    | .error f => .error f
    | .ok .fail => .ok { st with pc := .compare }
    | .ok .expired =>
      .ok { st with
        pc := .delete
        expired := if isExpired st.server.db st.curSeq then st.curSeq :: st.expired
          else st.expired }
    | .ok (.msg msg) => .ok { st with pc := .send msg }
  | .send _ => .ok { st with pc := .delete, acked := st.curSeq :: st.acked }
  | .delete =>
    .ok { st with
      pc := .incr
      server := { st.server with db := delBinlog st.server.db st.curSeq } }
  | .incr => .ok { st with pc := .compare, curSeq := (st.curSeq + 1) % u64Size }

/-- One step of either thread; a command arrives only between commands. -/
def stepRace (st : Race) : RaceAction → Except Fault Race
  | .batch us =>
    match st.cmd with
    | .idle => .ok { st with cmd := .batch st.lastSeq [] us }
    | _ => .ok st
  | .put key value =>
    match st.cmd with
    | .idle =>
      match putWrite st.server key value with
      | .error f => .error f
      | .ok server =>
        .ok { st with
          server := server
          cmd := .bump
          committed := st.committed ++ [st.lastSeq + 1] }
    | _ => .ok st
  | .command => stepCommand st
  | .slave => stepSlave st

/-- `seq` is numbered, and its batch is not written yet. -/
def Race.Uncommitted (st : Race) (seq : Nat) : Prop :=
  match st.cmd with
  | .batch base done _ => base < seq ∧ seq ≤ base + done.length
  | _ => False

/-- What a run has to respect: user keys are not of the form of record keys,
the counter does not reach `2^64`, and `get_binlog` reads neither a record whose
batch is uncommitted nor a `SET` record whose key holds the empty value. -/
def RaceOk (st : Race) : RaceAction → Prop
  | .batch us =>
    (∀ u ∈ us, isRecordKey u.key = false) ∧ st.lastSeq + us.length + 1 < u64Size
  | .put key _ => isRecordKey key = false ∧ st.lastSeq + 2 < u64Size
  | .command => True
  | .slave => st.pc = .get → ¬st.Uncommitted st.curSeq ∧
      ∀ key, st.server.db.get (encodeSeqKey st.curSeq) = some (CMD_SET :: key) →
        st.server.db.get key ≠ some []

/-- Every committed record that `cur_seq` has passed was acknowledged. -/
def Acknowledged (st : Race) : Prop := ∀ s ∈ st.committed, s < st.curSeq → s ∈ st.acked

/-! ## Batches -/

/-- The operations of a batch of updates numbered from `base + 1`. -/
def batchOps : Nat → List Update → List BatchOp
  | _, [] => []
  | base, u :: us => .put (encodeSeqKey (base + 1)) u.record :: u.op :: batchOps (base + 1) us

theorem batchOps_append (base : Nat) (us : List Update) (u : Update) :
    batchOps base (us ++ [u]) =
      batchOps base us ++ [.put (encodeSeqKey (base + us.length + 1)) u.record, u.op] := by
  induction us generalizing base with
  | nil => rfl
  | cons u' us ih =>
    rw [cons_append, batchOps, ih, batchOps, length_cons]
    simp [Nat.add_assoc, Nat.add_comm 1]

theorem ne_encodeSeqKey {key : Bytes} (h : isRecordKey key = false) (s : Nat) :
    key ≠ encodeSeqKey s := by
  rintro rfl
  rw [isRecordKey_encodeSeqKey] at h
  cases h

theorem get_batchOps {us : List Update} {base s : Nat} (db : Ldb) (hs : s < u64Size)
    (hroom : base + us.length < u64Size) (hkeys : ∀ u ∈ us, isRecordKey u.key = false) :
    (leveldbWrite db (batchOps base us)).get (encodeSeqKey s) =
      if base < s ∧ s ≤ base + us.length then (us[s - base - 1]?).map Update.record
      else db.get (encodeSeqKey s) := by
  induction us generalizing base db with
  | nil =>
    rw [if_neg (by simp)]
    rfl
  | cons u us ih =>
    rw [length_cons] at hroom
    have hkey := ne_encodeSeqKey (hkeys u (.head _)) s
    have hih := @ih (base + 1)
      (u.op.apply (db.insert (encodeSeqKey (base + 1)) u.record)) (by omega)
      fun u' hu' => hkeys u' (.tail _ hu')
    rw [apply_op_get, if_neg hkey.symm, OrdMap.get_insert] at hih
    show (leveldbWrite (u.op.apply (db.insert (encodeSeqKey (base + 1)) u.record))
      (batchOps (base + 1) us)).get _ = _
    rw [hih, length_cons]
    by_cases hfirst : s = base + 1
    · subst hfirst
      rw [if_neg (by omega), if_pos rfl, if_pos (by omega)]
      simp
    · have hne : encodeSeqKey s ≠ encodeSeqKey (base + 1) := fun h =>
        hfirst (encodeSeqKey_inj hs (by omega) h)
      rw [if_neg hne]
      by_cases hin : base + 1 < s ∧ s ≤ base + 1 + us.length
      · rw [if_pos hin, if_pos (by omega),
          show s - base - 1 = (s - (base + 1) - 1) + 1 by omega, getElem?_cons_succ]
      · rw [if_neg hin, if_neg (by omega)]

/-! ## The invariant -/

/-- The number of the last committed record. -/
def Race.top (st : Race) : Nat :=
  match st.cmd with
  | .idle => st.lastSeq
  | .batch base _ _ => base
  | .bump => st.lastSeq + 1

/-- The batch being filled, and room for what is left of the command. -/
def CmdInv (st : Race) : Prop :=
  match st.cmd with
  | .idle => st.server.wbatch = [] ∧ st.lastSeq + 1 < u64Size
  | .batch base done rest =>
    st.server.wbatch = batchOps base done ∧ st.lastSeq = base + done.length ∧
      base + done.length + rest.length + 1 < u64Size ∧
      ∀ u ∈ done ++ rest, isRecordKey u.key = false
  | .bump => st.server.wbatch = [] ∧ st.lastSeq + 2 < u64Size

structure RaceInv (st : Race) : Prop where
  binlog : ∃ bl, st.server.binlog = some bl
  cmd : CmdInv st
  committed_iff : ∀ s, s ∈ st.committed ↔ 1 ≤ s ∧ s ≤ st.top
  cur_pos : 1 ≤ st.curSeq
  cur_le : st.curSeq ≤ st.top + 1
  behind : st.pc ≠ .compare → st.curSeq ≤ st.lastSeq
  read : st.pc = .compare ∨ st.pc = .get ∨ st.curSeq ≤ st.top
  records : ∀ s, st.curSeq ≤ s → s ≤ st.top → (s = st.curSeq → st.pc ≠ .incr) →
    ∃ u : Update, st.server.db.get (encodeSeqKey s) = some u.record
  visited : st.pc = .delete ∨ st.pc = .incr → st.curSeq ∈ st.acked ∨ st.curSeq ∈ st.expired
  passed : ∀ s ∈ st.committed, s < st.curSeq → s ∈ st.acked ∨ s ∈ st.expired

variable {st : Race}

theorem RaceInv.top_lt (hinv : RaceInv st) : st.top + 1 < u64Size := by
  have hcmd := hinv.cmd
  cases hc : st.cmd with
  | idle =>
    rw [CmdInv, hc] at hcmd
    rw [Race.top, hc]
    exact hcmd.2
  | batch base done rest =>
    rw [CmdInv, hc] at hcmd
    rw [Race.top, hc]
    dsimp only at hcmd ⊢
    omega
  | bump =>
    rw [CmdInv, hc] at hcmd
    rw [Race.top, hc]
    exact hcmd.2

theorem RaceInv.read_done (hinv : RaceInv st) (hcompare : st.pc ≠ .compare) (hget : st.pc ≠ .get) :
    st.curSeq ≤ st.top :=
  (hinv.read.resolve_left hcompare).resolve_left hget

theorem race_init_inv : RaceInv Race.init := by
  refine ⟨⟨_, rfl⟩, ⟨rfl, by decide⟩, ?_, le_rfl, le_rfl, fun h => absurd rfl h, .inl rfl, ?_, ?_,
    nofun⟩
  · intro s
    have htop : Race.init.top = 0 := rfl
    rw [htop]
    constructor
    · exact nofun
    · omega
  · intro s hcur htop
    have h1 : Race.init.curSeq = 1 := rfl
    have h0 : Race.init.top = 0 := rfl
    omega
  · rintro (h | h) <;> cases h

/-! ## Steps of the command thread -/

theorem lastSeq_eq {bl : Binlog} (h : st.server.binlog = some bl) : st.lastSeq = bl.lastSeq := by
  rw [Race.lastSeq, h]

theorem binlogBatchLog_eq {t t' : Server} {bl : Binlog} {u : Update} (hbl : t.binlog = some bl)
    (hroom : bl.lastSeq + 1 < u64Size) (h : binlogBatchLog t u.key u.cmd u.op = .ok t') :
    t' = { t with
      wbatch := t.wbatch ++ [.put (encodeSeqKey (bl.lastSeq + 1)) u.record, u.op]
      binlog := some { bl with lastSeq := bl.lastSeq + 1 } } := by
  rw [binlogBatchLog, hbl] at h
  dsimp only at h
  rw [Nat.mod_eq_of_lt hroom] at h
  unfold encodeSeqValue at h
  split_ifs at h with hlen
  cases h
  rfl

theorem putWrite_eq {t t' : Server} {bl : Binlog} {key value : Bytes}
    (hbl : t.binlog = some bl) (hnil : t.wbatch = []) (hroom : bl.lastSeq + 1 < u64Size)
    (h : putWrite t key value = .ok t') :
    t' = { t with
      db := (t.db.insert (encodeSeqKey (bl.lastSeq + 1)) (CMD_SET :: key)).insert key value } := by
  obtain ⟨db, wbatch, binlog, readonly⟩ := t
  obtain rfl : binlog = some bl := hbl
  obtain rfl : wbatch = [] := hnil
  rw [putWrite] at h
  dsimp only at h
  rw [Nat.mod_eq_of_lt hroom] at h
  unfold encodeSeqValue at h
  split_ifs at h with hlen
  cases h
  rfl

theorem fill_inv {base : Nat} {done rest : List Update} {u : Update} {server : Server}
    (hinv : RaceInv st) (hcmd : st.cmd = .batch base done (u :: rest))
    (h : binlogBatchLog st.server u.key u.cmd u.op = .ok server) :
    RaceInv { st with server := server, cmd := .batch base (done ++ [u]) rest } := by
  obtain ⟨bl, hbl⟩ := hinv.binlog
  have hlast := lastSeq_eq hbl
  have hbatch := hinv.cmd
  rw [CmdInv, hcmd] at hbatch
  obtain ⟨hwbatch, hbase, hroom, hkeys⟩ := hbatch
  rw [length_cons] at hroom
  obtain rfl := binlogBatchLog_eq hbl (by omega) h
  have htop : st.top = base := by rw [Race.top, hcmd]
  refine ⟨⟨_, rfl⟩, ?_, ?_, hinv.cur_pos, ?_, ?_, ?_, ?_, hinv.visited, hinv.passed⟩
  · refine ⟨?_, ?_, ?_, ?_⟩
    · rw [batchOps_append, hwbatch, ← hbase, hlast]
    · show bl.lastSeq + 1 = _
      rw [length_append, length_singleton]
      omega
    · rw [length_append, length_singleton]
      omega
    · rwa [append_assoc]
  · rw [← htop]
    exact hinv.committed_iff
  · rw [← htop]
    exact hinv.cur_le
  · intro hpc
    show st.curSeq ≤ bl.lastSeq + 1
    have := hinv.behind hpc
    omega
  · rw [← htop]
    exact hinv.read
  · rw [← htop]
    exact hinv.records

theorem commit_inv {base : Nat} {done : List Update} (hinv : RaceInv st)
    (hcmd : st.cmd = .batch base done []) :
    RaceInv { st with
      server := binlogBatchCommit st.server
      cmd := .idle
      committed := st.committed ++ List.range' (base + 1) done.length } := by
  have hbatch := hinv.cmd
  rw [CmdInv, hcmd] at hbatch
  obtain ⟨hwbatch, hbase, hroom, hkeys⟩ := hbatch
  rw [append_nil] at hkeys
  rw [length_nil] at hroom
  have htop : st.top = base := by rw [Race.top, hcmd]
  have hcur := hinv.cur_le
  rw [htop] at hcur
  refine ⟨hinv.binlog, ⟨rfl, ?_⟩, ?_, hinv.cur_pos, ?_, hinv.behind, ?_, ?_, hinv.visited, ?_⟩
  · show st.lastSeq + 1 < u64Size
    omega
  · intro s
    show s ∈ st.committed ++ _ ↔ 1 ≤ s ∧ s ≤ st.lastSeq
    rw [mem_append, hinv.committed_iff, htop, mem_range'_1]
    omega
  · show st.curSeq ≤ st.lastSeq + 1
    omega
  · by_cases hpc : st.pc = .compare
    · exact .inl hpc
    · exact .inr (.inr (hinv.behind hpc))
  · intro s hs hle hincr
    have hle' : s ≤ base + done.length := by
      rw [← hbase]
      exact hle
    show ∃ u : Update, (leveldbWrite st.server.db st.server.wbatch).get _ = _
    rw [hwbatch, get_batchOps _ (by omega) (by omega) hkeys]
    by_cases hnew : base < s
    · have hidx : s - base - 1 < done.length := by omega
      rw [if_pos ⟨hnew, hle'⟩, getElem?_eq_getElem hidx]
      exact ⟨_, rfl⟩
    · rw [if_neg (by omega)]
      exact hinv.records s hs (by omega) hincr
  · intro s hs hlt
    -- what is committed now has not been passed yet
    rcases mem_append.mp hs with hs | hs
    · exact hinv.passed s hs hlt
    · rw [mem_range'_1] at hs
      have hlt' : s < st.curSeq := hlt
      omega

theorem put_inv {key value : Bytes} {server : Server} (hinv : RaceInv st) (hcmd : st.cmd = .idle)
    (hkey : isRecordKey key = false) (hroom : st.lastSeq + 2 < u64Size)
    (h : putWrite st.server key value = .ok server) :
    RaceInv { st with
      server := server, cmd := .bump, committed := st.committed ++ [st.lastSeq + 1] } := by
  obtain ⟨bl, hbl⟩ := hinv.binlog
  have hlast := lastSeq_eq hbl
  have hidle := hinv.cmd
  rw [CmdInv, hcmd] at hidle
  obtain rfl := putWrite_eq hbl hidle.1 (by omega) h
  have htop : st.top = st.lastSeq := by rw [Race.top, hcmd]
  have hcur := hinv.cur_le
  rw [htop] at hcur
  refine ⟨hinv.binlog, ⟨hidle.1, hroom⟩, ?_, hinv.cur_pos, ?_, hinv.behind, ?_, ?_, hinv.visited,
    ?_⟩
  · intro s
    show s ∈ st.committed ++ _ ↔ 1 ≤ s ∧ s ≤ st.lastSeq + 1
    rw [mem_append, hinv.committed_iff, htop, mem_singleton]
    omega
  · show st.curSeq ≤ st.lastSeq + 1 + 1
    omega
  · exact .inr (.inr hcur)
  · intro s hs hle hincr
    have hle' : s ≤ st.lastSeq + 1 := hle
    rw [OrdMap.get_insert, if_neg (ne_encodeSeqKey hkey s).symm, OrdMap.get_insert]
    by_cases hnew : s = st.lastSeq + 1
    · rw [← hlast, if_pos (by rw [hnew])]
      exact ⟨.set key value, rfl⟩
    · have hne : encodeSeqKey s ≠ encodeSeqKey (bl.lastSeq + 1) := fun he =>
        hnew (by rw [hlast]; exact encodeSeqKey_inj (by omega) (by omega) he)
      rw [if_neg hne]
      exact hinv.records s hs (by omega) hincr
  · intro s hs hlt
    rcases mem_append.mp hs with hs | hs
    · exact hinv.passed s hs hlt
    · rw [mem_singleton] at hs
      have hlt' : s < st.curSeq := hlt
      omega

theorem bump_inv (hinv : RaceInv st) (hcmd : st.cmd = .bump) :
    RaceInv { st with server := putBump st.server, cmd := .idle } := by
  obtain ⟨bl, hbl⟩ := hinv.binlog
  have hlast := lastSeq_eq hbl
  have hbump := hinv.cmd
  rw [CmdInv, hcmd] at hbump
  have htop : st.top = st.lastSeq + 1 := by rw [Race.top, hcmd]
  set st' : Race := { st with server := putBump st.server, cmd := .idle } with hst'
  have hlast' : st'.lastSeq = st.lastSeq + 1 := by
    rw [hst', Race.lastSeq, putBump, hbl, hlast]
    exact Nat.mod_eq_of_lt (by omega)
  have htop' : st'.top = st.top := by
    rw [htop, ← hlast']
    rfl
  refine ⟨⟨_, by rw [hst', putBump, hbl]; rfl⟩, ⟨hbump.1, by rw [hlast']; omega⟩, ?_,
    hinv.cur_pos, ?_, ?_, ?_, ?_, hinv.visited, hinv.passed⟩
  · rw [htop']
    exact hinv.committed_iff
  · rw [htop']
    exact hinv.cur_le
  · intro hpc
    have := hinv.behind hpc
    rw [hlast']
    exact le_trans this (by omega)
  · rw [htop']
    exact hinv.read
  · rw [htop']
    exact hinv.records

/-! ## Steps of the slave thread -/

/-- A step that only moves the slave thread keeps everything the command thread
and the store are about. -/
theorem RaceInv.move (hinv : RaceInv st) {pc : SlavePc} {acked expired : List Nat}
    (hpc : st.pc ≠ .incr) (hacked : ∀ s ∈ st.acked, s ∈ acked)
    (hexpired : ∀ s ∈ st.expired, s ∈ expired) (hbehind : pc ≠ .compare → st.curSeq ≤ st.lastSeq)
    (hread : pc = .compare ∨ pc = .get ∨ st.curSeq ≤ st.top)
    (hvisited : pc = .delete ∨ pc = .incr → st.curSeq ∈ acked ∨ st.curSeq ∈ expired) :
    RaceInv { st with pc := pc, acked := acked, expired := expired } where
  binlog := hinv.binlog
  cmd := hinv.cmd
  committed_iff := hinv.committed_iff
  cur_pos := hinv.cur_pos
  cur_le := hinv.cur_le
  behind := hbehind
  read := hread
  records s hs hle _ := hinv.records s hs hle fun _ => hpc
  visited := hvisited
  passed s hs hlt := (hinv.passed s hs hlt).imp (hacked s) (hexpired s)

theorem cur_le_top (hinv : RaceInv st) (hpc : st.pc = .get)
    (hcommitted : ¬st.Uncommitted st.curSeq) : st.curSeq ≤ st.top := by
  have hle := hinv.behind (by rw [hpc]; exact nofun)
  have hcmd := hinv.cmd
  cases hc : st.cmd with
  | idle =>
    rw [Race.top, hc]
    exact hle
  | batch base done rest =>
    rw [CmdInv, hc] at hcmd
    rw [Race.Uncommitted, hc] at hcommitted
    rw [Race.top, hc]
    dsimp only at hcmd hcommitted ⊢
    omega
  | bump =>
    rw [Race.top, hc]
    dsimp only
    omega

theorem isExpired_of_read {db : Ldb} {seq length : Nat} {u : Update}
    (hrec : db.get (encodeSeqKey seq) = some u.record)
    (hempty : ∀ key, db.get (encodeSeqKey seq) = some (CMD_SET :: key) → db.get key ≠ some [])
    (h : getBinlog db seq length = .ok .expired) : isExpired db seq = true := by
  obtain ⟨-, ⟨hset, hlen, -⟩ | ⟨-, -, hbad | ⟨-, hbad⟩⟩ | ⟨-, hbad | hbad⟩⟩ :=
    getBinlog_cases hrec h
  · rw [leveldbGetLen_eq_zero] at hlen
    have hne := hempty u.key (by rw [hrec, Update.record, hset])
    have hnone : db.get u.key = none := hlen.resolve_right hne
    rw [isExpired, hrec, Update.record]
    simp [hset, hnone]
  all_goals cases hbad

theorem stepSlave_inv {st' : Race} (hinv : RaceInv st) (hok : RaceOk st .slave)
    (h : stepSlave st = .ok st') : RaceInv st' := by
  rw [stepSlave] at h
  cases hpc : st.pc with
  | compare =>
    rw [hpc] at h
    cases h
    split
    · next hle =>
      exact hinv.move (by rw [hpc]; exact nofun) (fun _ h => h) (fun _ h => h) (fun _ => hle)
        (.inr (.inl rfl)) (by rintro (h | h) <;> cases h)
    · exact hinv
  | get =>
    rw [hpc] at h
    obtain ⟨hcommitted, hempty⟩ := hok hpc
    have htop := cur_le_top hinv hpc hcommitted
    have hle := hinv.behind (by rw [hpc]; exact nofun)
    have hni : st.pc ≠ .incr := by rw [hpc]; exact nofun
    obtain ⟨u, hrec⟩ := hinv.records st.curSeq le_rfl htop fun _ => hni
    cases hread : getBinlog st.server.db st.curSeq SEND_BUF_SIZE with
    | error f =>
      rw [hread] at h
      cases h
    | ok r =>
      rw [hread] at h
      cases r with
      | fail =>
        cases h
        exact hinv.move hni (fun _ h => h) (fun _ h => h) (fun h => absurd rfl h) (.inl rfl)
          (by rintro (h | h) <;> cases h)
      | expired =>
        cases h
        rw [if_pos (isExpired_of_read hrec hempty hread)]
        exact hinv.move hni (fun _ h => h) (fun _ h => .tail _ h) (fun _ => hle)
          (.inr (.inr htop)) fun _ => .inr (.head _)
      | msg bytes =>
        cases h
        exact hinv.move hni (fun _ h => h) (fun _ h => h) (fun _ => hle) (.inr (.inr htop))
          (by rintro (h | h) <;> cases h)
  | send msg =>
    rw [hpc] at h
    cases h
    have htop := hinv.read_done (by rw [hpc]; exact nofun) (by rw [hpc]; exact nofun)
    exact hinv.move (by rw [hpc]; exact nofun) (fun _ h => .tail _ h)
      (fun _ h => h) (fun _ => hinv.behind (by rw [hpc]; exact nofun)) (.inr (.inr htop))
      fun _ => .inl (.head _)
  | delete =>
    rw [hpc] at h
    cases h
    have hle := hinv.behind (by rw [hpc]; exact nofun)
    have htop := hinv.top_lt
    have hread := hinv.read_done (by rw [hpc]; exact nofun) (by rw [hpc]; exact nofun)
    refine ⟨hinv.binlog, hinv.cmd, hinv.committed_iff, hinv.cur_pos, hinv.cur_le, fun _ => hle,
      .inr (.inr hread), ?_, fun _ => hinv.visited (.inl hpc), hinv.passed⟩
    intro s hs hst hincr
    have hne : s ≠ st.curSeq := fun he => hincr he rfl
    have hst' : s ≤ st.top := hst
    have hkey : encodeSeqKey s ≠ encodeSeqKey st.curSeq := fun he =>
      hne (encodeSeqKey_inj (by omega) (by omega) he)
    show ∃ u : Update, (st.server.db.erase _).get _ = _
    rw [OrdMap.get_erase, if_neg hkey]
    exact hinv.records s hs hst fun he => absurd he hne
  | incr =>
    rw [hpc] at h
    cases h
    have htop := hinv.top_lt
    have hread := hinv.read_done (by rw [hpc]; exact nofun) (by rw [hpc]; exact nofun)
    have hcur : (st.curSeq + 1) % u64Size = st.curSeq + 1 := Nat.mod_eq_of_lt (by omega)
    rw [hcur]
    refine ⟨hinv.binlog, hinv.cmd, hinv.committed_iff, by simp, Nat.succ_le_succ hread,
      fun h => absurd rfl h, .inl rfl, ?_, (by rintro (h | h) <;> cases h), ?_⟩
    · intro s hs hst _
      have hs' : st.curSeq + 1 ≤ s := hs
      exact hinv.records s (by omega) hst fun he => absurd he (by omega)
    · intro s hs hlt
      have hlt' : s < st.curSeq + 1 := hlt
      by_cases heq : s = st.curSeq
      · subst heq
        exact hinv.visited (.inr hpc)
      · exact hinv.passed s hs (by omega)

/-! ## Runs -/

theorem stepCommand_inv {st' : Race} (hinv : RaceInv st) (h : stepCommand st = .ok st') :
    RaceInv st' := by
  rw [stepCommand] at h
  split at h
  · cases h
    exact hinv
  · next base done u rest hcmd =>
    cases hlog : binlogBatchLog st.server u.key u.cmd u.op with
    | error f =>
      rw [hlog] at h
      cases h
    | ok server =>
      rw [hlog] at h
      cases h
      exact fill_inv hinv hcmd hlog
  · next base done hcmd =>
    cases h
    exact commit_inv hinv hcmd
  · next hcmd =>
    cases h
    exact bump_inv hinv hcmd

/-- **Step.** A step of either thread that respects the condition keeps the
invariant. -/
theorem stepRace_inv (st : Race) (a : RaceAction) (st' : Race) (hinv : RaceInv st)
    (hok : RaceOk st a) (h : stepRace st a = .ok st') : RaceInv st' := by
  cases a with
  | batch us =>
    rw [stepRace] at h
    split at h
    · next hcmd =>
      cases h
      have hidle := hinv.cmd
      rw [CmdInv, hcmd] at hidle
      have htop : st.top = st.lastSeq := by rw [Race.top, hcmd]
      obtain ⟨hkeys, hroom⟩ := hok
      have hcmdinv : CmdInv { st with cmd := .batch st.lastSeq [] us } :=
        ⟨hidle.1, rfl, by simpa using hroom, by simpa using hkeys⟩
      have hsame : Race.top { st with cmd := .batch st.lastSeq [] us } = st.top := htop.symm
      refine ⟨hinv.binlog, hcmdinv, ?_, hinv.cur_pos, ?_, hinv.behind, ?_, ?_, hinv.visited,
        hinv.passed⟩
      · rw [hsame]
        exact hinv.committed_iff
      · rw [hsame]
        exact hinv.cur_le
      · rw [hsame]
        exact hinv.read
      · rw [hsame]
        exact hinv.records
    · cases h
      exact hinv
  | put key value =>
    rw [stepRace] at h
    split at h
    · next hcmd =>
      cases hwrite : putWrite st.server key value with
      | error f =>
        rw [hwrite] at h
        cases h
      | ok server =>
        rw [hwrite] at h
        cases h
        exact put_inv hinv hcmd hok.1 hok.2 hwrite
    · cases h
      exact hinv
  | command => exact stepCommand_inv hinv h
  | slave => exact stepSlave_inv hinv hok h

/-- A `SET` that is synchronised. -/
def setThenSync : List RaceAction :=
  [.put (ascii "k") (ascii "v"), .command, .slave, .slave, .slave, .slave, .slave]

/-- The state a run ends in. -/
def raceEnd (l : List RaceAction) : Race :=
  match run stepRace Race.init l with
  | .ok st => st
  | .error _ => Race.init

/-- The slave thread runs ahead of a batch: record 1 is numbered, read as
missing and passed, and committed afterwards. -/
def readAheadOfBatch : List RaceAction :=
  [.batch [.set (ascii "k") (ascii "v")], .command, .slave, .slave, .slave, .slave, .command]

/-- Record 1 is read when its key has been deleted again. -/
def readAfterDelete : List RaceAction :=
  [.put (ascii "k") (ascii "v"), .command, .batch [.del (ascii "k")], .command, .command,
    .slave, .slave, .slave, .slave]

end Supex.Tsdb
