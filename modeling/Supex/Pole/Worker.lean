import Supex.Pole.Event

/-!
# pole-M — the worker

One `client_info` per client, and the five tasks a worker runs on it
(`evt_worker.c`, compiled with `OPEN_BATCH`). `taskHandle` is one turn of the
loop in `task_handle`: it looks at the state and at which of the three queues
are non-empty, runs at most one task, and stores the state the task returns.

An `assert` of the source that fails ends the server; `Abort` names which one.

* `TaskStep` / `taskHandle_ok` — everything a turn can do.
* `TaskAbort` / `taskHandle_error` — every way a turn can fail.
-/

namespace Supex.Pole

open List

/-- The assertions of the worker, and those of the client's loop. -/
inductive Abort where
  /-- a task found its queue empty -/
  | noItem
  /-- `ev_type == NET_EV_INCREMENT_REQ` -/
  | notIncrReq
  /-- `EVENT_SEQ(evt) || ev_state == NET_EV_NONE` -/
  | seqZero
  /-- `EVENT_SEQ(evt) == last_fetch_seq + 1` -/
  | seqNotNext
  /-- `assert(false)` in `do_incr_chk_task` -/
  | chkNotRestart
  /-- `ev_type == NET_EV_INCREMENT_REP` -/
  | notIncrRep
  /-- `have == 1` -/
  | haveNotOne
  /-- `xmq_msg_size(msg) > 0` -/
  | emptyMsg
  /-- the type and state of a queued dump event -/
  | notDump
  /-- the client: `task_seq >= last_seq` -/
  | clientSeq
  /-- the client: an event of no known type -/
  | clientType
  deriving DecidableEq, Repr

--
-- Client states
--

def MAX_SYNC_STEP : Nat := 10

/-- The `EVT_STATE_*` of a client. -/
inductive SyncState where
  | incr
  | wait
  | dump
  | exit
  | ruin
  deriving DecidableEq, Repr

/-- `struct client_info`; its consumer is the one registered under `id`. -/
structure ClientInfo where
  id : Bytes
  state : SyncState
  waits : Nat
  qdump : List Evt
  qevts : List Evt
  qincr : List Evt
  deriving DecidableEq, Repr

def clientInfoInit (i : ClientInfo) : ClientInfo :=
  { i with qdump := [], qevts := [], qincr := [], state := .incr, waits := 0 }

/-- `waits--` on a `size_t`, which wraps at 0. -/
def sizeDec (n : Nat) : Nat := if n = 0 then u64Size - 1 else n - 1

/-- An INCREMENT_REQ of a client that has just started. -/
def Evt.isRestart (e : Evt) : Bool := e.evType = .incrementReq && e.evState = .none

--
-- The increment tasks
--

/-- How many events `do_incr_rep_task` queues: the difference of two `uint64_t`,
cut to the batch size, and at least 1. -/
def serial (q : Queue) (c : Bytes) : Nat :=
  max (min MAX_SYNC_STEP ((q.lastWriteDbSeq + u64Size - q.fetchPos c) % u64Size)) 1

/-- The copies of `evt` that `do_incr_rep_task` queues. -/
def batchFrom (q : Queue) (c : Bytes) (evt : Evt) : List Evt :=
  (List.range (serial q c)).map fun idx =>
    { evt with
      taskSeq := (q.fetchPos c + idx) % u64Size
      evState := .succ
      evType := .incrementRep }

/-- The end of `do_incr_rep_task`: wait for further answers, or queue the next
batch. -/
def syncFrom (q : Queue) (i : ClientInfo) (evt : Evt) : ClientInfo :=
  if i.waits > 0 then { i with state := .incr }
  else { i with qincr := i.qincr ++ batchFrom q i.id evt, state := .wait }

def doIncrRepTask (q : Queue) (i : ClientInfo) : Except Abort (Queue × ClientInfo) :=
  match i.qevts with
  | [] => .error .noItem
  | evt :: qevts =>
    if evt.evType ≠ .incrementReq then .error .notIncrReq
    else
      match evt.evState with
      | .none =>
        -- a restarted client: from the stored position, or from the one it names
        let q := if evt.taskSeq = 0 then q else q.updateThat i.id evt.taskSeq
        .ok (q, syncFrom q (clientInfoInit i) evt)
      | .fatal =>
        if evt.taskSeq = 0 then .error .seqZero else .ok (q, { i with qevts, state := .ruin })
      | .fail =>
        if evt.taskSeq = 0 then .error .seqZero else .ok (q, { i with qevts, state := .exit })
      | .succ =>
        if evt.taskSeq = 0 then .error .seqZero
        else if evt.taskSeq ≠ (q.fetchPos i.id + 1) % u64Size then .error .seqNotNext
        else
          let q := q.updateThat i.id evt.taskSeq
          .ok (q, syncFrom q { i with qevts, waits := sizeDec i.waits } evt)

def doIncrChkTask (i : ClientInfo) : Except Abort ClientInfo :=
  match i.qevts with
  | [] => .error .noItem
  | evt :: _ =>
    if evt.evType ≠ .incrementReq then .error .notIncrReq
    else if evt.evState = .none then .ok { clientInfoInit i with qevts := [evt] }
    else .error .chkNotRestart

/-- The loop of `do_incr_req_task` over `qincr`, which held `queued` events.
`none`: the one event of the queue is not written yet and stays. -/
def incrReqLoop (q : Queue) (queued : Nat) : List Evt → Except Abort (Option (List Evt))
  | [] => .ok (some [])
  | evt :: rest =>
    if evt.evType ≠ .incrementRep then .error .notIncrRep
    else
      match q.pullThat evt.taskSeq with
      | none => if queued = 1 then .ok none else .error .haveNotOne
      | some msg =>
        if msg = [] then .error .emptyMsg
        else
          match incrReqLoop q queued rest with
          | .error e => .error e
          | .ok none => .ok none
          | .ok (some sent) => .ok (some ({ evt with evData := msg } :: sent))

def doIncrReqTask (q : Queue) (i : ClientInfo) : Except Abort (ClientInfo × List Evt) :=
  match incrReqLoop q i.qincr.length i.qincr with
  | .error e => .error e
  | .ok none => .ok ({ i with state := .wait }, [])
  | .ok (some sent) =>
    .ok ({ i with qincr := [], waits := i.waits + sent.length, state := .incr }, sent)

--
-- The dump tasks
--

def doDumpReqTask (i : ClientInfo) : Except Abort (ClientInfo × List Evt) :=
  match i.qdump with
  | [] => .error .noItem
  | evt :: qdump =>
    if evt.evType = .dumpReq ∧ evt.evState = .none then
      .ok ({ i with qdump, waits := i.waits + 1, state := .dump }, [evt])
    else .error .notDump

/-- The loop of `do_dump_rep_task` for the client `c`, over `qdump`: the queue,
the counter and what was sent so far. -/
def dumpRepLoop (c : Bytes) : List Evt → Queue → Nat → List Evt →
    Except Abort (Queue × Nat × List Evt)
  | [], q, waits, sent => .ok (q, waits, sent)
  | evt :: rest, q, waits, sent =>
    match evt.evType with
    | .dumpReq =>
      if evt.evState = .none then dumpRepLoop c rest q (waits + 1) (sent ++ [evt])
      else .error .notDump
    | .dumpRep =>
      let evt := evt.swapIdData
      if evt.evState = .succ then
        -- the asking client goes on where the answering one stands
        let evt := { evt with taskSeq := q.fetchPos c }
        let q := (q.registerConsumer evt.id).updateThat evt.id evt.taskSeq
        dumpRepLoop c rest q (sizeDec waits) (sent ++ [evt])
      else dumpRepLoop c rest q (sizeDec waits) (sent ++ [{ evt with evState := .fail }])
    | _ => .error .notDump

def doDumpRepTask (q : Queue) (i : ClientInfo) : Except Abort (Queue × ClientInfo × List Evt) :=
  match dumpRepLoop i.id i.qdump q i.waits [] with
  | .error e => .error e
  | .ok (q, waits, sent) =>
    .ok (q, { i with qdump := [], waits, state := if waits = 0 then .wait else .dump }, sent)

--
-- One turn
--

/-- What a turn leaves behind; a client that has left has no `info`. -/
structure Served where
  queue : Queue
  info : Option ClientInfo
  sent : List Evt

/-- One turn of the loop in `task_handle`. -/
def taskHandle (q : Queue) (i : ClientInfo) : Except Abort Served :=
  match i.state with
  | .incr =>
    if i.qevts = [] then .ok ⟨q, some i, []⟩
    else
      match doIncrRepTask q i with
      | .error e => .error e
      | .ok (q, i) => .ok ⟨q, some i, []⟩
  | .wait =>
    if i.qevts ≠ [] then
      match doIncrChkTask i with
      | .error e => .error e
      | .ok i => .ok ⟨q, some i, []⟩
    else if i.qdump ≠ [] then
      match doDumpReqTask i with
      | .error e => .error e
      | .ok (i, sent) => .ok ⟨q, some i, sent⟩
    else if i.qincr ≠ [] then
      match doIncrReqTask q i with
      | .error e => .error e
      | .ok (i, sent) => .ok ⟨q, some i, sent⟩
    else .ok ⟨q, some i, []⟩
  | .dump =>
    if i.qevts ≠ [] then
      match doIncrChkTask i with
      | .error e => .error e
      | .ok i => .ok ⟨q, some i, []⟩
    else if i.qdump ≠ [] then
      match doDumpRepTask q i with
      | .error e => .error e
      | .ok (q, i, sent) => .ok ⟨q, some i, sent⟩
    else .ok ⟨q, some i, []⟩
  | .ruin => .ok ⟨q.unregisterConsumer i.id, none, []⟩
  | .exit => .ok ⟨q, none, []⟩

--
-- What a turn can do
--

/-- The turns that do not fail, with their guards. -/
inductive TaskStep (q : Queue) (i : ClientInfo) : Served → Prop
  /-- nothing to do, or the next message is not written yet -/
  | idle : TaskStep q i ⟨q, some i, []⟩
  /-- a start request: the client's state is cleared, and the next batch queued -/
  | restart (evt : Evt) (rest : List Evt) (q' : Queue) (hstate : i.state = .incr)
      (hqevts : i.qevts = evt :: rest) (hevt : evt.isRestart = true)
      (hq : q' = if evt.taskSeq = 0 then q else q.updateThat i.id evt.taskSeq) :
      TaskStep q i ⟨q', some { clientInfoInit i with
        qincr := batchFrom q' i.id evt, state := .wait }, []⟩
  /-- an answer: the position moves by one -/
  | answer (evt : Evt) (rest : List Evt) (hstate : i.state = .incr)
      (hqevts : i.qevts = evt :: rest) (htype : evt.evType = .incrementReq)
      (hsucc : evt.evState = .succ) (hzero : evt.taskSeq ≠ 0)
      (hseq : evt.taskSeq = (q.fetchPos i.id + 1) % u64Size) :
      TaskStep q i ⟨q.updateThat i.id evt.taskSeq, some (syncFrom (q.updateThat i.id evt.taskSeq)
        { i with qevts := rest, waits := sizeDec i.waits } evt), []⟩
  /-- a failure report: the client will be removed -/
  | stop (evt : Evt) (rest : List Evt) (st : SyncState) (hstate : i.state = .incr)
      (hqevts : i.qevts = evt :: rest) (htype : evt.evType = .incrementReq)
      (hfail : evt.evState = .fail ∨ evt.evState = .fatal) (hst : st = .exit ∨ st = .ruin) :
      TaskStep q i ⟨q, some { i with qevts := rest, state := st }, []⟩
  /-- a start request found by the check -/
  | check (evt : Evt) (rest : List Evt) (hstate : i.state = .wait ∨ i.state = .dump)
      (hqevts : i.qevts = evt :: rest) (hevt : evt.isRestart = true) :
      TaskStep q i ⟨q, some { clientInfoInit i with qevts := [evt] }, []⟩
  /-- the first dump request goes out -/
  | dumpReq (evt : Evt) (rest : List Evt) (hstate : i.state = .wait) (hqevts : i.qevts = [])
      (hqdump : i.qdump = evt :: rest) (htype : evt.evType = .dumpReq)
      (hnone : evt.evState = .none) :
      TaskStep q i ⟨q, some { i with qdump := rest, waits := i.waits + 1, state := .dump }, [evt]⟩
  /-- a whole batch goes out -/
  | incrReq (sent : List Evt) (hstate : i.state = .wait) (hqevts : i.qevts = [])
      (hqdump : i.qdump = []) (hloop : incrReqLoop q i.qincr.length i.qincr = .ok (some sent)) :
      TaskStep q i ⟨q, some { i with
        qincr := [], waits := i.waits + sent.length, state := .incr }, sent⟩
  /-- dump requests go out, and dump replies are passed on -/
  | dumpRep (q' : Queue) (waits : Nat) (sent : List Evt) (hstate : i.state = .dump)
      (hqevts : i.qevts = [])
      (hloop : dumpRepLoop i.id i.qdump q i.waits [] = .ok (q', waits, sent)) :
      TaskStep q i ⟨q', some { i with
        qdump := [], waits, state := if waits = 0 then .wait else .dump }, sent⟩
  /-- the client is removed -/
  | leave (q' : Queue) (hstate : i.state = .exit ∨ i.state = .ruin)
      (hq : q' = q ∨ q' = q.unregisterConsumer i.id) :
      TaskStep q i ⟨q', none, []⟩

theorem isRestart_iff {e : Evt} :
    e.isRestart = true ↔ e.evType = .incrementReq ∧ e.evState = .none := by
  unfold Evt.isRestart
  simp

theorem syncFrom_init (q : Queue) (i : ClientInfo) (evt : Evt) :
    syncFrom q (clientInfoInit i) evt =
      { clientInfoInit i with qincr := batchFrom q i.id evt, state := .wait } := by
  have hqincr : (clientInfoInit i).qincr ++ batchFrom q (clientInfoInit i).id evt =
      batchFrom q i.id evt := nil_append _
  have hwaits : ¬(clientInfoInit i).waits > 0 := Nat.lt_irrefl 0
  rw [syncFrom, if_neg hwaits, hqincr]

variable {q : Queue} {i : ClientInfo} {l sent : List Evt} {e : Abort}

theorem doIncrRepTask_ok {q' : Queue} {i' : ClientInfo} (hstate : i.state = .incr)
    (h : doIncrRepTask q i = .ok (q', i')) : TaskStep q i ⟨q', some i', []⟩ := by
  unfold doIncrRepTask at h
  split at h
  · cases h
  · next evt rest hqevts =>
    split at h
    · cases h
    · next htype =>
      have htype : evt.evType = .incrementReq := not_not.mp htype
      split at h
      · next hnone =>
        dsimp only at h
        rw [syncFrom_init] at h
        cases h
        exact .restart evt rest _ hstate hqevts (isRestart_iff.mpr ⟨htype, hnone⟩) rfl
      · next hfatal =>
        split at h
        · cases h
        · cases h
          exact .stop evt rest .ruin hstate hqevts htype (.inr hfatal) (.inr rfl)
      · next hfail =>
        split at h
        · cases h
        · cases h
          exact .stop evt rest .exit hstate hqevts htype (.inl hfail) (.inl rfl)
      · next hsucc =>
        split at h
        · cases h
        · next hzero =>
          split at h
          · cases h
          · next hseq =>
            cases h
            exact .answer evt rest hstate hqevts htype hsucc hzero (not_not.mp hseq)

theorem doIncrChkTask_ok {i' : ClientInfo} (hstate : i.state = .wait ∨ i.state = .dump)
    (h : doIncrChkTask i = .ok i') : TaskStep q i ⟨q, some i', []⟩ := by
  unfold doIncrChkTask at h
  split at h
  · cases h
  · next evt rest hqevts =>
    split at h
    · cases h
    · next htype =>
      split at h
      · next hnone =>
        cases h
        exact .check evt rest hstate hqevts (isRestart_iff.mpr ⟨not_not.mp htype, hnone⟩)
      · cases h

theorem taskHandle_ok {r : Served} (h : taskHandle q i = .ok r) : TaskStep q i r := by
  unfold taskHandle at h
  split at h
  · next hstate =>
    split at h
    · cases h
      exact .idle
    · split at h
      · cases h
      · next hrep =>
        cases h
        exact doIncrRepTask_ok hstate hrep
  · next hstate =>
    split at h
    · split at h
      · cases h
      · next hchk =>
        cases h
        exact doIncrChkTask_ok (.inl hstate) hchk
    · next hqevts =>
      have hqevts : i.qevts = [] := not_not.mp hqevts
      split at h
      · unfold doDumpReqTask at h
        split at h
        · cases h
        · next hreq =>
          split at hreq
          · cases hreq
          · next evt rest hqdump =>
            split at hreq
            · next hevt =>
              cases hreq
              cases h
              exact .dumpReq evt rest hstate hqevts hqdump hevt.1 hevt.2
            · cases hreq
      · next hqdump =>
        split at h
        · unfold doIncrReqTask at h
          split at h
          · cases h
          · next hreq =>
            split at hreq
            · cases hreq
            · cases hreq
              cases h
              -- the queue is as it was: the event went back to its place
              have hsame : { i with state := .wait } = i := by
                rw [← hstate]
              rw [hsame]
              exact .idle
            · next hloop =>
              cases hreq
              cases h
              exact .incrReq _ hstate hqevts (not_not.mp hqdump) hloop
        · cases h
          exact .idle
  · next hstate =>
    split at h
    · split at h
      · cases h
      · next hchk =>
        cases h
        exact doIncrChkTask_ok (.inr hstate) hchk
    · next hqevts =>
      split at h
      · unfold doDumpRepTask at h
        split at h
        · cases h
        · next hrep =>
          split at hrep
          · cases hrep
          · next hloop =>
            cases hrep
            cases h
            exact .dumpRep _ _ _ hstate (not_not.mp hqevts) hloop
      · cases h
        exact .idle
  · next hstate =>
    cases h
    exact .leave _ (.inr hstate) (.inr rfl)
  · next hstate =>
    cases h
    exact .leave _ (.inl hstate) (.inl rfl)

--
-- How a turn can fail
--

/-- The turns that fail an assertion, with their guards. -/
inductive TaskAbort (q : Queue) (i : ClientInfo) : Abort → Prop
  | notIncrReq (evt : Evt) (rest : List Evt)
      (hstate : i.state = .incr ∨ i.state = .wait ∨ i.state = .dump)
      (hqevts : i.qevts = evt :: rest) (htype : evt.evType ≠ .incrementReq) :
      TaskAbort q i .notIncrReq
  | seqZero (evt : Evt) (rest : List Evt) (hstate : i.state = .incr)
      (hqevts : i.qevts = evt :: rest) (hnone : evt.evState ≠ .none) (hzero : evt.taskSeq = 0) :
      TaskAbort q i .seqZero
  | seqNotNext (evt : Evt) (rest : List Evt) (hstate : i.state = .incr)
      (hqevts : i.qevts = evt :: rest) (hsucc : evt.evState = .succ)
      (hseq : evt.taskSeq ≠ (q.fetchPos i.id + 1) % u64Size) :
      TaskAbort q i .seqNotNext
  | chkNotRestart (evt : Evt) (rest : List Evt) (hstate : i.state = .wait ∨ i.state = .dump)
      (hqevts : i.qevts = evt :: rest) (hnone : evt.evState ≠ .none) :
      TaskAbort q i .chkNotRestart
  | dumpReq (evt : Evt) (rest : List Evt) (hstate : i.state = .wait) (hqevts : i.qevts = [])
      (hqdump : i.qdump = evt :: rest) (hevt : ¬(evt.evType = .dumpReq ∧ evt.evState = .none)) :
      TaskAbort q i .notDump
  | incrReq (e : Abort) (hstate : i.state = .wait) (hqevts : i.qevts = []) (hqdump : i.qdump = [])
      (hloop : incrReqLoop q i.qincr.length i.qincr = .error e) :
      TaskAbort q i e
  | dumpRep (e : Abort) (hstate : i.state = .dump) (hqevts : i.qevts = [])
      (hloop : dumpRepLoop i.id i.qdump q i.waits [] = .error e) :
      TaskAbort q i e

theorem doIncrRepTask_error (hstate : i.state = .incr) (hne : i.qevts ≠ [])
    (h : doIncrRepTask q i = .error e) : TaskAbort q i e := by
  unfold doIncrRepTask at h
  split at h
  · next hqevts => exact absurd hqevts hne
  · next evt rest hqevts =>
    split at h
    · next htype =>
      cases h
      exact .notIncrReq evt rest (.inl hstate) hqevts htype
    · split at h
      · cases h
      · next hfatal =>
        split at h
        · next hzero =>
          cases h
          exact .seqZero evt rest hstate hqevts (by simp [hfatal]) hzero
        · cases h
      · next hfail =>
        split at h
        · next hzero =>
          cases h
          exact .seqZero evt rest hstate hqevts (by simp [hfail]) hzero
        · cases h
      · next hsucc =>
        split at h
        · next hzero =>
          cases h
          exact .seqZero evt rest hstate hqevts (by simp [hsucc]) hzero
        · split at h
          · next hseq =>
            cases h
            exact .seqNotNext evt rest hstate hqevts hsucc hseq
          · cases h

theorem doIncrChkTask_error (hstate : i.state = .wait ∨ i.state = .dump) (hne : i.qevts ≠ [])
    (h : doIncrChkTask i = .error e) : TaskAbort q i e := by
  unfold doIncrChkTask at h
  split at h
  · next hqevts => exact absurd hqevts hne
  · next evt rest hqevts =>
    split at h
    · next htype =>
      cases h
      exact .notIncrReq evt rest (.inr hstate) hqevts htype
    · split at h
      · cases h
      · next hnone =>
        cases h
        exact .chkNotRestart evt rest hstate hqevts hnone

theorem taskHandle_error (h : taskHandle q i = .error e) : TaskAbort q i e := by
  unfold taskHandle at h
  split at h
  · next hstate =>
    split at h
    · cases h
    · next hqevts =>
      split at h
      · next hrep =>
        cases h
        exact doIncrRepTask_error hstate hqevts hrep
      · cases h
  · next hstate =>
    split at h
    · next hqevts =>
      split at h
      · next hchk =>
        cases h
        exact doIncrChkTask_error (.inl hstate) hqevts hchk
      · cases h
    · next hqevts =>
      have hqevts : i.qevts = [] := not_not.mp hqevts
      split at h
      · next hqdump =>
        unfold doDumpReqTask at h
        split at h
        · next hreq =>
          cases h
          split at hreq
          · next hnil => exact absurd hnil hqdump
          · next evt rest hcons =>
            split at hreq
            · cases hreq
            · next hevt =>
              cases hreq
              exact .dumpReq evt rest hstate hqevts hcons hevt
        · cases h
      · next hqdump =>
        split at h
        · unfold doIncrReqTask at h
          split at h
          · next hreq =>
            cases h
            split at hreq
            · next hloop =>
              cases hreq
              exact .incrReq e hstate hqevts (not_not.mp hqdump) hloop
            · cases hreq
            · cases hreq
          · cases h
        · cases h
  · next hstate =>
    split at h
    · next hqevts =>
      split at h
      · next hchk =>
        cases h
        exact doIncrChkTask_error (.inr hstate) hqevts hchk
      · cases h
    · next hqevts =>
      split at h
      · unfold doDumpRepTask at h
        split at h
        · next hrep =>
          cases h
          split at hrep
          · next hloop =>
            cases hrep
            exact .dumpRep e hstate (not_not.mp hqevts) hloop
          · cases hrep
        · cases h
      · cases h
  · cases h
  · cases h

--
-- The loops
--

theorem incrReqLoop_some {n : Nat} (h : incrReqLoop q n l = .ok (some sent)) :
    List.Forall₂ (fun evt e => evt.evType = .incrementRep ∧
      ∃ msg, q.pullThat evt.taskSeq = some msg ∧ e = { evt with evData := msg }) l sent := by
  induction l generalizing sent with
  | nil =>
    cases h
    exact .nil
  | cons evt rest ih =>
    unfold incrReqLoop at h
    split at h
    · cases h
    · next htype =>
      split at h
      · split at h <;> cases h
      · next msg hpull =>
        split at h
        · cases h
        · split at h
          · cases h
          · cases h
          · next hrest =>
            cases h
            exact .cons ⟨not_not.mp htype, msg, hpull, rfl⟩ (ih hrest)

theorem incrReqLoop_pulled {n : Nat} (h : incrReqLoop q n l = .ok (some sent)) :
    ∀ e ∈ sent, q.pullThat e.taskSeq = some e.evData := by
  have hall := incrReqLoop_some h
  clear h
  induction hall with
  | nil => exact fun e he => nomatch he
  | cons hevt _ ih =>
    obtain ⟨-, msg, hpull, rfl⟩ := hevt
    intro e he
    rcases mem_cons.mp he with rfl | he
    · exact hpull
    · exact ih e he

/-- A batch fails on an event of the wrong type, on a number that is not there
although it is not the only one, or on an empty message. -/
theorem incrReqLoop_error {n : Nat} (h : incrReqLoop q n l = .error e) :
    ∃ evt ∈ l, (evt.evType ≠ .incrementRep ∧ e = .notIncrRep) ∨
      (q.pullThat evt.taskSeq = none ∧ n ≠ 1 ∧ e = .haveNotOne) ∨
      (q.pullThat evt.taskSeq = some [] ∧ e = .emptyMsg) := by
  induction l with
  | nil => cases h
  | cons evt rest ih =>
    unfold incrReqLoop at h
    split at h
    · next htype =>
      cases h
      exact ⟨evt, .head _, .inl ⟨htype, rfl⟩⟩
    · split at h
      · next hpull =>
        split at h
        · cases h
        · next hone =>
          cases h
          exact ⟨evt, .head _, .inr (.inl ⟨hpull, hone, rfl⟩)⟩
      · next msg hpull =>
        split at h
        · next hempty =>
          cases h
          exact ⟨evt, .head _, .inr (.inr ⟨hempty ▸ hpull, rfl⟩)⟩
        · split at h
          · next hrest =>
            cases h
            obtain ⟨evt', hmem, hcase⟩ := ih hrest
            exact ⟨evt', .tail _ hmem, hcase⟩
          · cases h
          · cases h

theorem dumpRepLoop_error {c : Bytes} {w : Nat} (h : dumpRepLoop c l q w sent = .error e) :
    e = .notDump := by
  induction l generalizing q w sent with
  | nil => cases h
  | cons evt rest ih =>
    unfold dumpRepLoop at h
    split at h
    · split at h
      · exact ih h
      · cases h
        rfl
    · dsimp only at h
      split at h <;> exact ih h
    · cases h
      rfl

/-- The dump replies of a queue. -/
def reps (l : List Evt) : Nat := l.countP fun e => e.evType = .dumpRep

/-- The dump requests of a queue. -/
def reqs (l : List Evt) : Nat := l.countP fun e => e.evType = .dumpReq

/-- The dump reply that goes to the asking client, from a client that stands at
`p`. -/
def dumpAnswer (p : Nat) (e : Evt) : Evt :=
  if e.evState = .succ then { e.swapIdData with taskSeq := p }
  else { e.swapIdData with evState := .fail }

/-- What `do_dump_rep_task` sends for an event of `qdump`. -/
def dumpOut (p : Nat) (e : Evt) : Evt := if e.evType = .dumpReq then e else dumpAnswer p e

@[simp] theorem dumpAnswer_id (p : Nat) (e : Evt) : (dumpAnswer p e).id = e.peer := by
  unfold dumpAnswer
  split <;> simp

@[simp] theorem dumpAnswer_evType (p : Nat) (e : Evt) : (dumpAnswer p e).evType = e.evType := by
  unfold dumpAnswer
  split <;> simp

theorem dumpAnswer_peer {p : Nat} {e : Evt} (h : (0 : UInt8) ∉ e.id) :
    (dumpAnswer p e).peer = e.id := by
  have hswap := Evt.swapIdData_peer h
  unfold dumpAnswer
  split <;> exact hswap

/-- A dump event the worker accepts. -/
def DumpEvt (e : Evt) : Prop :=
  (e.evType = .dumpReq ∧ e.evState = .none) ∨ e.evType = .dumpRep

/-- **The dump loop.** On dump events that ask for nobody's own position, and
with no more replies than requests are out, the loop sends one event for each,
counts exactly, and moves the positions of the clients it answers. -/
theorem dumpRepLoop_eq {c : Bytes} (q : Queue) (w : Nat) (sent : List Evt)
    (hev : ∀ e ∈ l, DumpEvt e) (hpeer : ∀ e ∈ l, e.evType = .dumpRep → e.peer ≠ c)
    (hw : reps l ≤ w) :
    ∃ q', dumpRepLoop c l q w sent =
        .ok (q', w + reqs l - reps l, sent ++ l.map (dumpOut (q.fetchPos c))) ∧
      Queue.SameMessages q q' ∧
      ∀ x, q'.fetchPos x = if ∃ e ∈ l, e.evType = .dumpRep ∧ e.evState = .succ ∧ e.peer = x
        then q.fetchPos c else q.fetchPos x := by
  induction l generalizing q w sent with
  | nil => exact ⟨q, by simp [dumpRepLoop, reqs, reps], .refl q, by simp⟩
  | cons evt rest ih =>
    have hev' : ∀ e ∈ rest, DumpEvt e := fun e he => hev e (.tail _ he)
    have hpeer' : ∀ e ∈ rest, e.evType = .dumpRep → e.peer ≠ c :=
      fun e he => hpeer e (.tail _ he)
    obtain ⟨htype, hnone⟩ | htype := hev evt (.head _)
    · -- a request is passed on
      have hreps : reps (evt :: rest) = reps rest := by simp [reps, htype]
      have hreqs : reqs (evt :: rest) = reqs rest + 1 := by simp [reqs, htype]
      rw [hreps] at hw
      obtain ⟨q', hloop, hsame, hpos⟩ := ih q (w + 1) (sent ++ [evt]) hev' hpeer' (by omega)
      refine ⟨q', ?_, hsame, fun x => ?_⟩
      · rw [dumpRepLoop, htype]
        rw [if_pos hnone, hloop, hreps, hreqs]
        simp [dumpOut, htype]
        omega
      · rw [hpos x]
        simp [htype]
    · -- a reply is answered
      have hreps : reps (evt :: rest) = reps rest + 1 := by simp [reps, htype]
      have hreqs : reqs (evt :: rest) = reqs rest := by simp [reqs, htype]
      have hc : evt.peer ≠ c := hpeer evt (.head _) htype
      rw [hreps] at hw
      have hdec : sizeDec w = w - 1 := by
        unfold sizeDec
        rw [if_neg (by omega)]
      have hout : dumpOut (q.fetchPos c) evt = dumpAnswer (q.fetchPos c) evt := by
        unfold dumpOut
        rw [if_neg (by simp [htype])]
      by_cases hsucc : evt.evState = .succ
      · set q₁ := (q.registerConsumer evt.peer).updateThat evt.peer (q.fetchPos c) with hq₁
        have hpos₁ : ∀ x, q₁.fetchPos x = if x = evt.peer then q.fetchPos c else q.fetchPos x := by
          intro x
          rw [hq₁, Queue.fetchPos_updateThat, Queue.fetchPos_registerConsumer]
        have hpos_c : q₁.fetchPos c = q.fetchPos c := by rw [hpos₁, if_neg hc.symm]
        obtain ⟨q', hloop, hsame, hpos⟩ := ih q₁ (w - 1)
          (sent ++ [dumpAnswer (q.fetchPos c) evt]) hev' hpeer' (by omega)
        refine ⟨q', ?_, ?_, fun x => ?_⟩
        · have hans : dumpAnswer (q.fetchPos c) evt =
              { evt.swapIdData with taskSeq := q.fetchPos c } := by
            unfold dumpAnswer
            rw [if_pos hsucc]
          rw [dumpRepLoop, htype]
          dsimp only at hans ⊢
          rw [if_pos (by simpa using hsucc), hdec, ← hans, Evt.swapIdData_id, ← hq₁, hloop, hpos_c,
            hreps, hreqs]
          simp [hout]
          omega
        · exact .trans (.trans (Queue.sameMessages_registerConsumer q evt.peer)
            (Queue.sameMessages_updateThat _ _ _)) hsame
        · rw [hpos x, hpos_c, hpos₁ x]
          by_cases hx : x = evt.peer
          · simp [hx, htype, hsucc]
          · simp [hx, Ne.symm hx]
      · obtain ⟨q', hloop, hsame, hpos⟩ := ih q (w - 1)
          (sent ++ [dumpAnswer (q.fetchPos c) evt]) hev' hpeer' (by omega)
        refine ⟨q', ?_, hsame, fun x => ?_⟩
        · have hans : dumpAnswer (q.fetchPos c) evt =
              { evt.swapIdData with evState := .fail } := by
            unfold dumpAnswer
            rw [if_neg hsucc]
          rw [dumpRepLoop, htype]
          dsimp only at hans ⊢
          rw [if_neg (by simpa using hsucc), hdec, ← hans, hloop, hreps, hreqs]
          simp [hout]
          omega
        · rw [hpos x]
          simp [hsucc]

/-- Whatever the loop is run on, it reads and copies positions, and sends dump
events only. -/
theorem dumpRepLoop_frame {c : Bytes} {sent' : List Evt} {q' : Queue} {w w' : Nat}
    (h : dumpRepLoop c l q w sent = .ok (q', w', sent')) :
    Queue.SameMessages q q' ∧
      (∀ P : Nat → Prop, (∀ x, P (q.fetchPos x)) → ∀ x, P (q'.fetchPos x)) ∧
      ∀ e ∈ sent', e ∈ sent ∨ e.evType = .dumpReq ∨ e.evType = .dumpRep := by
  induction l generalizing q w sent with
  | nil =>
    cases h
    exact ⟨.refl _, fun _ hP => hP, fun e he => .inl he⟩
  | cons evt rest ih =>
    unfold dumpRepLoop at h
    split at h
    · next htype =>
      split at h
      · obtain ⟨hsame, hpos, hsent⟩ := ih h
        refine ⟨hsame, hpos, fun e he => ?_⟩
        rcases hsent e he with hmem | hdump
        · rcases mem_append.mp hmem with hmem | hmem
          · exact .inl hmem
          · rw [mem_singleton.mp hmem]
            exact .inr (.inl htype)
        · exact .inr hdump
      · cases h
    · next htype =>
      dsimp only at h
      split at h
      · obtain ⟨hsame, hpos, hsent⟩ := ih h
        refine ⟨.trans (.trans (Queue.sameMessages_registerConsumer q _)
          (Queue.sameMessages_updateThat _ _ _)) hsame, fun P hP => hpos P ?_, fun e he => ?_⟩
        · intro x
          rw [Queue.fetchPos_updateThat, Queue.fetchPos_registerConsumer]
          split
          · exact hP c
          · exact hP x
        · rcases hsent e he with hmem | hdump
          · rcases mem_append.mp hmem with hmem | hmem
            · exact .inl hmem
            · rw [mem_singleton.mp hmem]
              exact .inr (.inr (by simpa using htype))
          · exact .inr hdump
      · obtain ⟨hsame, hpos, hsent⟩ := ih h
        refine ⟨hsame, hpos, fun e he => ?_⟩
        rcases hsent e he with hmem | hdump
        · rcases mem_append.mp hmem with hmem | hmem
          · exact .inl hmem
          · rw [mem_singleton.mp hmem]
            exact .inr (.inr (by simpa using htype))
        · exact .inr hdump
    · cases h

end Supex.Pole
