import Supex.Lib.Run
import Supex.Pole.Worker

/-!
# pole — server, clients and channels

The whole system: the dispenser of `pole-M` (`evt_hander.c`), its workers, the
client processes of `pole-S` (`main.c`), and between the server and each client
two FIFO channels. A channel stands for everything an event passes on its way:
the send queue, the sockets and the receive queue. The dispenser takes the
events of different clients in any order, those of one client in theirs.

`step` is one action of one party. An action that is not enabled does nothing,
so that every list of actions is a run.

* `eventDispenser` / `pushEventToWork` — the dispenser.
* `Sys`, `Action`, `step`.
-/

namespace Supex.Pole

open Function (update update_apply)

--
-- Client processes
--

/-- An identity as a configuration file can hold it: a C string that is not
empty and fits its buffer. -/
structure Id where
  bytes : Bytes
  pos : 0 < bytes.length
  short : bytes.length < IDENTITY_SIZE
  noNul : (0 : UInt8) ∉ bytes

/-- What runs under an identity: nothing yet, a DUMP process that waits for its
answer, an INCR process, or nothing any more since an INCR process has ended. -/
inductive Mode where
  | idle
  | dumping (target : Bytes)
  | incr
  | gone
  deriving DecidableEq, Repr

/-- A client process. `lastType`, `state` and `lastSeq` are the variables of its
loop. The rest records what it did: the number it was told to start from, the
increments handed to the business function, and the numbers that had been
handed over when it last executed a dump. -/
structure Proc where
  mode : Mode
  lastType : EvType
  state : EvState
  lastSeq : Nat
  fetchFrom : Nat
  handed : List (Nat × Bytes)
  dumpedAt : List Nat
  deriving DecidableEq, Repr

/-- A process as `main` starts it. -/
def Proc.start (mode : Mode) (fetchFrom : Nat) : Proc where
  mode := mode
  lastType := .incrementReq
  state := .none
  lastSeq := 0
  fetchFrom := fetchFrom
  handed := []
  dumpedAt := []

/-- The sequence numbers handed to the business function. -/
def Proc.seqs (p : Proc) : List Nat := p.handed.map Prod.fst

/-- What a business function returns. -/
inductive Outcome where
  | succ
  | fail
  | fatal
  deriving DecidableEq, Repr

def Outcome.toState : Outcome → EvState
  | .succ => .succ
  | .fail => .fail
  | .fatal => .fatal

/-- `do_business`: an increment is handed over, or a dump executed. -/
def doBusiness (p : Proc) (evt : Evt) (out : Outcome) : Proc :=
  match evt.evType with
  | .incrementRep =>
    { p with state := out.toState, handed := p.handed ++ [(evt.taskSeq, evt.evData)] }
  | _ => { p with state := out.toState, dumpedAt := p.seqs }

/-- A process leaves its loop when its last business failed. -/
def Proc.leaveOnFailure (p : Proc) : Proc := if p.state = .succ then p else { p with mode := .gone }

/-- One turn of the INCR loop on the event it received: the process behind it,
and the reply it sends. An increment with the number of the last one is
skipped, and so is a dump that follows a dump. -/
def incrLoop (p : Proc) (out : Outcome) (evt : Evt) : Except Abort (Proc × List Evt) :=
  match evt.evType with
  | .incrementRep =>
    if evt.taskSeq = p.lastSeq then .ok (p, [])
    else if evt.taskSeq < p.lastSeq then .error .clientSeq
    else
      let p := { doBusiness { p with lastSeq := evt.taskSeq } evt out with lastType := evt.evType }
      .ok (p.leaveOnFailure, [{ evt with
        evType := .incrementReq
        evState := p.state
        rows := 1
        taskSeq := (evt.taskSeq + 1) % u64Size
        evData := [] }])
  | .dumpReq =>
    let p := if p.lastType = .dumpReq then p else doBusiness p evt out
    let p := { p with lastType := evt.evType }
    .ok (p.leaveOnFailure, [{ evt with
      evType := .dumpRep, evState := p.state, rows := 0, taskSeq := 0 }])
  | _ => .error .clientType

/-- The first request of an INCR process. -/
def firstRequest (c : Bytes) (seq : Nat) : Evt where
  id := c
  evType := .incrementReq
  evState := .none
  taskSeq := seq
  rows := 1
  evData := []

/-- The request of a DUMP process. -/
def dumpRequest (a b : Bytes) : Evt where
  id := a
  evType := .dumpReq
  evState := .none
  taskSeq := 0
  rows := 0
  evData := b ++ [0]

--
-- The system
--

/-- The state of server, channels and clients. `infos` is the server's hash map;
`up` and `down` are the channels to and from the server. -/
structure Sys where
  queue : Queue
  infos : Bytes → Option ClientInfo
  up : Bytes → List Evt
  down : Bytes → List Evt
  procs : Bytes → Proc

namespace Sys

/-- `send_evt` of the server: each event goes to the client it names. -/
def send (s : Sys) (l : List Evt) : Sys :=
  { s with down := fun x => s.down x ++ l.filter fun e => e.id = x }

def setInfo (s : Sys) (c : Bytes) (i : Option ClientInfo) : Sys :=
  { s with infos := update s.infos c i }

def setUp (s : Sys) (c : Bytes) (l : List Evt) : Sys :=
  { s with up := update s.up c l }

def setDown (s : Sys) (c : Bytes) (l : List Evt) : Sys :=
  { s with down := update s.down c l }

def setProc (s : Sys) (c : Bytes) (p : Proc) : Sys :=
  { s with procs := update s.procs c p }

@[simp] theorem setInfo_queue (s : Sys) (c : Bytes) (i : Option ClientInfo) :
    (s.setInfo c i).queue = s.queue := rfl

@[simp] theorem setInfo_infos (s : Sys) (c x : Bytes) (i : Option ClientInfo) :
    (s.setInfo c i).infos x = if x = c then i else s.infos x := update_apply ..

@[simp] theorem setInfo_up (s : Sys) (c : Bytes) (i : Option ClientInfo) :
    (s.setInfo c i).up = s.up := rfl

@[simp] theorem setInfo_down (s : Sys) (c : Bytes) (i : Option ClientInfo) :
    (s.setInfo c i).down = s.down := rfl

@[simp] theorem setInfo_procs (s : Sys) (c : Bytes) (i : Option ClientInfo) :
    (s.setInfo c i).procs = s.procs := rfl

@[simp] theorem setUp_queue (s : Sys) (c : Bytes) (l : List Evt) :
    (s.setUp c l).queue = s.queue := rfl

@[simp] theorem setUp_infos (s : Sys) (c : Bytes) (l : List Evt) :
    (s.setUp c l).infos = s.infos := rfl

@[simp] theorem setUp_up (s : Sys) (c x : Bytes) (l : List Evt) :
    (s.setUp c l).up x = if x = c then l else s.up x := update_apply ..

@[simp] theorem setUp_down (s : Sys) (c : Bytes) (l : List Evt) :
    (s.setUp c l).down = s.down := rfl

@[simp] theorem setUp_procs (s : Sys) (c : Bytes) (l : List Evt) :
    (s.setUp c l).procs = s.procs := rfl

@[simp] theorem setDown_queue (s : Sys) (c : Bytes) (l : List Evt) :
    (s.setDown c l).queue = s.queue := rfl

@[simp] theorem setDown_infos (s : Sys) (c : Bytes) (l : List Evt) :
    (s.setDown c l).infos = s.infos := rfl

@[simp] theorem setDown_up (s : Sys) (c : Bytes) (l : List Evt) :
    (s.setDown c l).up = s.up := rfl

@[simp] theorem setDown_down (s : Sys) (c x : Bytes) (l : List Evt) :
    (s.setDown c l).down x = if x = c then l else s.down x := update_apply ..

@[simp] theorem setDown_procs (s : Sys) (c : Bytes) (l : List Evt) :
    (s.setDown c l).procs = s.procs := rfl

@[simp] theorem setProc_queue (s : Sys) (c : Bytes) (p : Proc) :
    (s.setProc c p).queue = s.queue := rfl

@[simp] theorem setProc_infos (s : Sys) (c : Bytes) (p : Proc) :
    (s.setProc c p).infos = s.infos := rfl

@[simp] theorem setProc_up (s : Sys) (c : Bytes) (p : Proc) :
    (s.setProc c p).up = s.up := rfl

@[simp] theorem setProc_down (s : Sys) (c : Bytes) (p : Proc) :
    (s.setProc c p).down = s.down := rfl

@[simp] theorem setProc_procs (s : Sys) (c x : Bytes) (p : Proc) :
    (s.setProc c p).procs x = if x = c then p else s.procs x := update_apply ..

@[simp] theorem send_queue (s : Sys) (l : List Evt) : (s.send l).queue = s.queue := rfl

@[simp] theorem send_infos (s : Sys) (l : List Evt) : (s.send l).infos = s.infos := rfl

@[simp] theorem send_up (s : Sys) (l : List Evt) : (s.send l).up = s.up := rfl

@[simp] theorem send_down (s : Sys) (l : List Evt) (x : Bytes) :
    (s.send l).down x = s.down x ++ l.filter fun e => e.id = x := rfl

@[simp] theorem send_procs (s : Sys) (l : List Evt) : (s.send l).procs = s.procs := rfl

end Sys

--
-- The dispenser
--

/-- A `client_info` of `new_regist_one_client`. -/
def newInfo (c : Bytes) : ClientInfo where
  id := c
  state := .incr
  waits := 0
  qdump := []
  qevts := []
  qincr := []

/-- The end of `push_event_to_work`: dump events and increments have a queue
each. -/
def enqueue (i : ClientInfo) (evt : Evt) : ClientInfo :=
  if evt.evType = .dumpReq ∨ evt.evType = .dumpRep then { i with qdump := i.qdump ++ [evt] }
  else { i with qevts := i.qevts ++ [evt] }

def pushEventToWork (s : Sys) (evt : Evt) : Sys :=
  match s.infos evt.id with
  | some i => s.setInfo evt.id (some (enqueue i evt))
  | none =>
    if evt.evType = .dumpReq then
      s.send [{ evt.swapIdData with evType := .dumpRep, evState := .fail }]
    else
      { s with queue := s.queue.registerConsumer evt.id }.setInfo evt.id
        (some (enqueue (newInfo evt.id) evt))

/-- The dispenser does nothing with a dump request whose target it rejects. -/
def dumpRejected (evt : Evt) : Bool :=
  evt.evSize = 0 || IDENTITY_SIZE ≤ evt.evSize ||
    evt.peer.length = 0 || IDENTITY_SIZE ≤ evt.peer.length

/-- `event_dispenser_startup`, on one event. -/
def eventDispenser (s : Sys) (evt : Evt) : Sys :=
  if evt.evType = .dumpReq then
    if dumpRejected evt then s else pushEventToWork s evt.swapIdData
  else pushEventToWork s evt

--
-- Actions
--

/-- Where in its loop a client process dies: before it takes an event, with an
event it has not looked at, or after its business and before its reply. -/
inductive CrashPoint where
  | waiting
  | received
  | handled (out : Outcome)
  deriving DecidableEq, Repr

/-- One action of one party. -/
inductive Action where
  /-- a producer: `xmq_push_tail`, in one step or in two -/
  | push (data : Bytes)
  | pushRecord (data : Bytes)
  | pushCount
  | pushFail
  /-- an INCR process is started -/
  | startIncr (c : Id) (seq : Nat)
  /-- a DUMP process is started -/
  | startDump (a b : Id)
  /-- the dispenser takes an event of the client -/
  | dispense (c : Bytes)
  /-- one turn of the client's worker -/
  | work (c : Bytes)
  /-- an INCR process takes an event, with this outcome of its business -/
  | recv (c : Bytes) (out : Outcome)
  /-- a DUMP process takes its answer and ends -/
  | recvDump (a : Bytes)
  /-- an INCR process dies -/
  | crash (c : Bytes) (point : CrashPoint)
  /-- the server dies and is started again -/
  | serverRestart

/-- An INCR process handles the first event of its channel. -/
def recvStep (s : Sys) (c : Bytes) (out : Outcome) : Except Abort (Option (Sys × List Evt)) :=
  match (s.procs c).mode, s.down c with
  | .incr, evt :: rest =>
    match incrLoop (s.procs c) out evt with
    | .error e => .error e
    | .ok (p, reply) => .ok (some ((s.setDown c rest).setProc c p, reply))
  | _, _ => .ok none

/-- The process of `c`, dead. -/
def kill (s : Sys) (c : Bytes) : Sys := s.setProc c { s.procs c with mode := .gone }

/-- One action. -/
def step (s : Sys) : Action → Except Abort Sys
  | .push data => .ok { s with queue := s.queue.pushTail data }
  | .pushRecord data => .ok { s with queue := s.queue.pushRecord data }
  | .pushCount => .ok { s with queue := s.queue.pushCount }
  | .pushFail => .ok { s with queue := s.queue.pushFail }
  | .startIncr c seq =>
    if (s.procs c.bytes).mode = .idle ∨ (s.procs c.bytes).mode = .gone then
      let seq := seq % u64Size
      let fetchFrom := if seq = 0 then s.queue.fetchPos c.bytes else seq
      .ok ((s.setUp c.bytes (s.up c.bytes ++ [firstRequest c.bytes seq])).setProc c.bytes
        (.start .incr fetchFrom))
    else .ok s
  | .startDump a b =>
    -- a node asks for a dump before its first INCR run
    if (s.procs a.bytes).mode = .idle then
      .ok ((s.setUp a.bytes (s.up a.bytes ++ [dumpRequest a.bytes b.bytes])).setProc a.bytes
        (.start (.dumping b.bytes) 0))
    else .ok s
  | .dispense c =>
    match s.up c with
    | [] => .ok s
    | evt :: rest => .ok (eventDispenser (s.setUp c rest) evt)
  | .work c =>
    match s.infos c with
    | none => .ok s
    | some i =>
      match taskHandle s.queue i with
      | .error e => .error e
      | .ok r => .ok (({ s with queue := r.queue }.setInfo c r.info).send r.sent)
  | .recv c out =>
    match recvStep s c out with
    | .error e => .error e
    | .ok none => .ok s
    | .ok (some (s', reply)) => .ok (s'.setUp c (s.up c ++ reply))
  | .recvDump a =>
    match (s.procs a).mode, s.down a with
    | .dumping _, _ :: rest =>
      .ok ((s.setDown a rest).setProc a { s.procs a with mode := .idle })
    | _, _ => .ok s
  | .crash c point =>
    if (s.procs c).mode = .incr then
      match point with
      | .waiting => .ok (kill s c)
      | .received => .ok (kill (s.setDown c (s.down c).tail) c)
      | .handled out =>
        match recvStep s c out with
        | .error e => .error e
        | .ok none => .ok s
        | .ok (some (s', _)) => .ok (kill s' c)
    else .ok s
  | .serverRestart => .ok { s with infos := fun _ => none, queue := s.queue.pushFail }

--
-- What an action can do
--

/-- The turns of the INCR loop that do not fail. -/
inductive LoopStep (p : Proc) (evt : Evt) : Proc → List Evt → Prop
  /-- a repeated increment -/
  | skip (htype : evt.evType = .incrementRep) (hseq : evt.taskSeq = p.lastSeq) :
      LoopStep p evt p []
  /-- an increment is handed over and answered -/
  | incr (st : EvState) (reply : Evt) (htype : evt.evType = .incrementRep)
      (hseq : p.lastSeq < evt.taskSeq) (hst : st ≠ .none)
      (hreply : reply = { evt with
        evType := .incrementReq
        evState := st
        rows := 1
        taskSeq := (evt.taskSeq + 1) % u64Size
        evData := [] }) :
      LoopStep p evt { p with
        mode := if st = .succ then p.mode else .gone
        lastType := .incrementRep
        state := st
        lastSeq := evt.taskSeq
        handed := p.handed ++ [(evt.taskSeq, evt.evData)] } [reply]
  /-- a dump request is executed, unless the last event was one, and answered -/
  | dump (st : EvState) (dumpedAt : List Nat) (reply : Evt) (htype : evt.evType = .dumpReq)
      (hdump : p.lastType = .dumpReq ∧ st = p.state ∧ dumpedAt = p.dumpedAt ∨
        p.lastType ≠ .dumpReq ∧ st ≠ .none ∧ dumpedAt = p.seqs)
      (hreply : reply = { evt with evType := .dumpRep, evState := st, rows := 0, taskSeq := 0 }) :
      LoopStep p evt { p with
        mode := if st = .succ then p.mode else .gone
        lastType := .dumpReq
        state := st
        dumpedAt := dumpedAt } [reply]

theorem toState_ne_none (out : Outcome) : out.toState ≠ .none := by
  cases out <;> decide

theorem leaveOnFailure_eq (p : Proc) :
    p.leaveOnFailure = { p with mode := if p.state = .succ then p.mode else .gone } := by
  unfold Proc.leaveOnFailure
  split <;> rfl

variable {out : Outcome}

theorem incrLoop_ok {p p' : Proc} {evt : Evt} {reply : List Evt}
    (h : incrLoop p out evt = .ok (p', reply)) : LoopStep p evt p' reply := by
  unfold incrLoop at h
  split at h
  · next htype =>
    split at h
    · next hseq =>
      cases h
      exact .skip htype hseq
    · next hne =>
      split at h
      · cases h
      · next hge =>
        simp only [doBusiness, htype, leaveOnFailure_eq] at h
        cases h
        exact .incr out.toState _ htype (by omega) (toState_ne_none out) rfl
  · next htype =>
    simp only [leaveOnFailure_eq] at h
    by_cases hlast : p.lastType = .dumpReq
    · simp only [if_pos hlast, htype] at h
      cases h
      exact .dump p.state p.dumpedAt _ htype (.inl ⟨hlast, rfl, rfl⟩) rfl
    · simp only [if_neg hlast, doBusiness, htype] at h
      cases h
      exact .dump out.toState p.seqs _ htype (.inr ⟨hlast, toState_ne_none out, rfl⟩) rfl
  · cases h

theorem incrLoop_error {p : Proc} {evt : Evt} {e : Abort} (h : incrLoop p out evt = .error e) :
    (e = .clientSeq ∧ evt.evType = .incrementRep ∧ evt.taskSeq < p.lastSeq) ∨
      (e = .clientType ∧ evt.evType ≠ .incrementRep ∧ evt.evType ≠ .dumpReq) := by
  unfold incrLoop at h
  split at h
  · next htype =>
    split at h
    · cases h
    · split at h
      · next hlt =>
        cases h
        exact .inl ⟨rfl, htype, hlt⟩
      · cases h
  · cases h
  · next hincr hdump =>
    cases h
    exact .inr ⟨rfl, hincr, hdump⟩

theorem recvStep_ok {s s' : Sys} {c : Bytes} {reply : List Evt}
    (h : recvStep s c out = .ok (some (s', reply))) :
    ∃ evt rest p, (s.procs c).mode = .incr ∧ s.down c = evt :: rest ∧
      LoopStep (s.procs c) evt p reply ∧ s' = (s.setDown c rest).setProc c p := by
  unfold recvStep at h
  split at h
  · next evt rest hmode hdown =>
    split at h
    · cases h
    · next hloop =>
      cases h
      exact ⟨evt, rest, _, hmode, hdown, incrLoop_ok hloop, rfl⟩
  · cases h

theorem recvStep_error {s : Sys} {c : Bytes} {e : Abort} (h : recvStep s c out = .error e) :
    ∃ evt rest, (s.procs c).mode = .incr ∧ s.down c = evt :: rest ∧
      incrLoop (s.procs c) out evt = .error e := by
  unfold recvStep at h
  split at h
  · next evt rest hmode hdown =>
    split at h
    · next hloop =>
      cases h
      exact ⟨evt, rest, hmode, hdown, hloop⟩
    · cases h
  · cases h

/-- The failed reply to a dump request whose target is not registered. -/
def failedRep (evt : Evt) : Evt :=
  { evt.swapIdData.swapIdData with evType := .dumpRep, evState := .fail }

/-- Everything the dispenser can do with an event. -/
inductive Dispensed (s : Sys) (evt : Evt) : Sys → Prop
  | rejected (htype : evt.evType = .dumpReq) (hrej : dumpRejected evt = true) :
      Dispensed s evt s
  | noTarget (htype : evt.evType = .dumpReq) (hacc : dumpRejected evt = false)
      (hinfo : s.infos evt.peer = none) :
      Dispensed s evt (s.send [failedRep evt])
  | dumpReq (i : ClientInfo) (htype : evt.evType = .dumpReq) (hacc : dumpRejected evt = false)
      (hinfo : s.infos evt.peer = some i) :
      Dispensed s evt
        (s.setInfo evt.peer (some { i with qdump := i.qdump ++ [evt.swapIdData] }))
  | dumpRep (i : ClientInfo) (htype : evt.evType = .dumpRep) (hinfo : s.infos evt.id = some i) :
      Dispensed s evt (s.setInfo evt.id (some { i with qdump := i.qdump ++ [evt] }))
  | request (i : ClientInfo) (htype : evt.evType = .incrementReq ∨ evt.evType = .incrementRep)
      (hinfo : s.infos evt.id = some i) :
      Dispensed s evt (s.setInfo evt.id (some { i with qevts := i.qevts ++ [evt] }))
  | register (htype : evt.evType ≠ .dumpReq) (hinfo : s.infos evt.id = none) :
      Dispensed s evt ({ s with queue := s.queue.registerConsumer evt.id }.setInfo evt.id
        (some (enqueue (newInfo evt.id) evt)))

theorem eventDispenser_ok (s : Sys) (evt : Evt) : Dispensed s evt (eventDispenser s evt) := by
  unfold eventDispenser
  split
  · next htype =>
    split
    · next hrej => exact .rejected htype hrej
    · next hacc =>
      have hacc : dumpRejected evt = false := by simpa using hacc
      unfold pushEventToWork
      rw [Evt.swapIdData_id, Evt.swapIdData_evType]
      split
      · next i hinfo =>
        have henq : enqueue i evt.swapIdData = { i with qdump := i.qdump ++ [evt.swapIdData] } := by
          unfold enqueue
          rw [if_pos (by simp [htype])]
        rw [henq]
        exact .dumpReq i htype hacc hinfo
      · next hinfo =>
        rw [if_pos htype]
        exact .noTarget htype hacc hinfo
  · next htype =>
    unfold pushEventToWork
    split
    · next i hinfo =>
      unfold enqueue
      split
      · next hdump => exact .dumpRep i (hdump.resolve_left htype) hinfo
      · next hdump =>
        refine .request i ?_ hinfo
        cases hty : evt.evType <;> simp_all
    · next hinfo =>
      rw [if_neg htype]
      exact .register htype hinfo

/-- Everything an action can do to the system. -/
inductive Step (s : Sys) : Action → Sys → Prop
  | skip (a : Action) : Step s a s
  | push (data : Bytes) : Step s (.push data) { s with queue := s.queue.pushTail data }
  | pushRecord (data : Bytes) :
      Step s (.pushRecord data) { s with queue := s.queue.pushRecord data }
  | pushCount : Step s .pushCount { s with queue := s.queue.pushCount }
  | pushFail : Step s .pushFail { s with queue := s.queue.pushFail }
  | startIncr (c : Id) (seq fetchFrom : Nat)
      (hmode : (s.procs c.bytes).mode = .idle ∨ (s.procs c.bytes).mode = .gone)
      (hfrom : fetchFrom =
        if seq % u64Size = 0 then s.queue.fetchPos c.bytes else seq % u64Size) :
      Step s (.startIncr c seq)
        ((s.setUp c.bytes (s.up c.bytes ++ [firstRequest c.bytes (seq % u64Size)])).setProc c.bytes
          (.start .incr fetchFrom))
  | startDump (a b : Id) (hmode : (s.procs a.bytes).mode = .idle) :
      Step s (.startDump a b)
        ((s.setUp a.bytes (s.up a.bytes ++ [dumpRequest a.bytes b.bytes])).setProc a.bytes
          (.start (.dumping b.bytes) 0))
  | dispense (c : Bytes) (evt : Evt) (rest : List Evt) (s' : Sys) (hup : s.up c = evt :: rest)
      (hdisp : Dispensed (s.setUp c rest) evt s') :
      Step s (.dispense c) s'
  | work (c : Bytes) (i : ClientInfo) (r : Served) (hinfo : s.infos c = some i)
      (htask : TaskStep s.queue i r) :
      Step s (.work c) (({ s with queue := r.queue }.setInfo c r.info).send r.sent)
  | recv (c : Bytes) (out : Outcome) (evt : Evt) (rest : List Evt) (p : Proc) (reply : List Evt)
      (hmode : (s.procs c).mode = .incr) (hdown : s.down c = evt :: rest)
      (hloop : LoopStep (s.procs c) evt p reply) :
      Step s (.recv c out) (((s.setDown c rest).setProc c p).setUp c (s.up c ++ reply))
  | recvDump (a b : Bytes) (evt : Evt) (rest : List Evt)
      (hmode : (s.procs a).mode = .dumping b) (hdown : s.down a = evt :: rest) :
      Step s (.recvDump a) ((s.setDown a rest).setProc a { s.procs a with mode := .idle })
  | crash (c : Bytes) (point : CrashPoint) (rest : List Evt) (hmode : (s.procs c).mode = .incr)
      (hdown : rest = s.down c ∨ rest = (s.down c).tail) :
      Step s (.crash c point)
        ((s.setDown c rest).setProc c { s.procs c with mode := .gone })
  | crashHandled (c : Bytes) (out : Outcome) (evt : Evt) (rest : List Evt) (p : Proc)
      (reply : List Evt) (hmode : (s.procs c).mode = .incr) (hdown : s.down c = evt :: rest)
      (hloop : LoopStep (s.procs c) evt p reply) :
      Step s (.crash c (.handled out)) ((s.setDown c rest).setProc c { p with mode := .gone })
  | serverRestart :
      Step s .serverRestart { s with infos := fun _ => none, queue := s.queue.pushFail }

theorem setDown_self (s : Sys) (c : Bytes) : s.setDown c (s.down c) = s := by
  unfold Sys.setDown
  rw [Function.update_eq_self]

theorem step_ok {s s' : Sys} {a : Action} (h : step s a = .ok s') : Step s a s' := by
  cases a with
  | push data =>
    cases h
    exact .push data
  | pushRecord data =>
    cases h
    exact .pushRecord data
  | pushCount =>
    cases h
    exact .pushCount
  | pushFail =>
    cases h
    exact .pushFail
  | startIncr c seq =>
    rw [step] at h
    split at h
    · next hmode =>
      cases h
      exact .startIncr c seq _ hmode rfl
    · cases h
      exact .skip _
  | startDump a b =>
    rw [step] at h
    split at h
    · next hmode =>
      cases h
      exact .startDump a b hmode
    · cases h
      exact .skip _
  | dispense c =>
    rw [step] at h
    split at h
    · cases h
      exact .skip _
    · next evt rest hup =>
      cases h
      exact .dispense c evt rest _ hup (eventDispenser_ok _ evt)
  | work c =>
    rw [step] at h
    split at h
    · cases h
      exact .skip _
    · next i hinfo =>
      split at h
      · cases h
      · next r htask =>
        cases h
        exact .work c i r hinfo (taskHandle_ok htask)
  | recv c out =>
    rw [step] at h
    split at h
    · cases h
    · cases h
      exact .skip _
    · next hrecv =>
      cases h
      obtain ⟨evt, rest, p, hmode, hdown, hloop, rfl⟩ := recvStep_ok hrecv
      exact .recv c out evt rest p _ hmode hdown hloop
  | recvDump a =>
    rw [step] at h
    split at h
    · next b evt rest hmode hdown =>
      cases h
      exact .recvDump a b evt rest hmode hdown
    · cases h
      exact .skip _
  | crash c point =>
    cases point with
    | waiting =>
      rw [step] at h
      split at h
      · next hmode =>
        cases h
        have hself : kill s c = kill (s.setDown c (s.down c)) c := by rw [setDown_self]
        rw [hself]
        exact .crash c _ _ hmode (.inl rfl)
      · cases h
        exact .skip _
    | received =>
      rw [step] at h
      split at h
      · next hmode =>
        cases h
        exact .crash c _ _ hmode (.inr rfl)
      · cases h
        exact .skip _
    | handled out =>
      rw [step] at h
      split at h
      · next hmode =>
        split at h
        · cases h
        · cases h
          exact .skip _
        · next hrecv =>
          cases h
          obtain ⟨evt, rest, p, -, hdown, hloop, rfl⟩ := recvStep_ok hrecv
          have hkill : kill ((s.setDown c rest).setProc c p) c =
              (s.setDown c rest).setProc c { p with mode := .gone } := by
            simp [kill, Sys.setProc, Sys.setDown]
          rw [hkill]
          exact .crashHandled c out evt rest p _ hmode hdown hloop
      · cases h
        exact .skip _
  | serverRestart =>
    cases h
    exact .serverRestart

theorem step_error {s : Sys} {a : Action} {e : Abort} (h : step s a = .error e) :
    (∃ c i, a = .work c ∧ s.infos c = some i ∧ TaskAbort s.queue i e) ∨
    (∃ c out evt rest, (s.procs c).mode = .incr ∧ s.down c = evt :: rest ∧
      incrLoop (s.procs c) out evt = .error e) := by
  cases a with
  | push data => cases h
  | pushRecord data => cases h
  | pushCount => cases h
  | pushFail => cases h
  | startIncr c seq =>
    rw [step] at h
    split at h <;> cases h
  | startDump a b =>
    rw [step] at h
    split at h <;> cases h
  | dispense c =>
    rw [step] at h
    split at h <;> cases h
  | work c =>
    rw [step] at h
    split at h
    · cases h
    · next i hinfo =>
      split at h
      · next htask =>
        cases h
        exact .inl ⟨c, i, rfl, hinfo, taskHandle_error htask⟩
      · cases h
  | recv c out =>
    rw [step] at h
    split at h
    · next hrecv =>
      cases h
      obtain ⟨evt, rest, hrest⟩ := recvStep_error hrecv
      exact .inr ⟨c, out, evt, rest, hrest⟩
    · cases h
    · cases h
  | recvDump a =>
    rw [step] at h
    split at h <;> cases h
  | crash c point =>
    cases point with
    | waiting =>
      rw [step] at h
      split at h <;> cases h
    | received =>
      rw [step] at h
      split at h <;> cases h
    | handled out =>
      rw [step] at h
      split at h
      · split at h
        · next hrecv =>
          cases h
          obtain ⟨evt, rest, hrest⟩ := recvStep_error hrecv
          exact .inr ⟨c, out, evt, rest, hrest⟩
        · cases h
        · cases h
      · cases h
  | serverRestart => cases h

/-- A system before any client was ever started. The queue may hold messages
and positions of earlier days. -/
structure Initial (s : Sys) : Prop where
  infos : ∀ c, s.infos c = none
  up : ∀ c, s.up c = []
  down : ∀ c, s.down c = []
  procs : ∀ c, (s.procs c).mode = .idle
  handed : ∀ c, (s.procs c).handed = []
  pushing : s.queue.pushing = false
  uncounted : s.queue.uncounted = none
  room : s.queue.lastWriteDbSeq ≤ Xmq.XMQ_U64_MAX
  nonempty : ∀ m ∈ s.queue.hist, m ≠ []
  positions : ∀ c, 1 ≤ s.queue.fetchPos c ∧ s.queue.fetchPos c ≤ s.queue.lastWriteDbSeq

theorem noNul_a : (0 : UInt8) ∉ ascii "a" := by decide

theorem noNul_b : (0 : UInt8) ∉ ascii "b" := by decide

/-- Two clients. -/
def nodeA : Id := ⟨ascii "a", by decide, by decide, noNul_a⟩

def nodeB : Id := ⟨ascii "b", by decide, by decide, noNul_b⟩

/-- The first day. -/
def emptySys : Sys where
  queue := { hist := [], uncounted := none, pushing := false, consumers := fun _ => none }
  infos := fun _ => none
  up := fun _ => []
  down := fun _ => []
  procs := fun _ => .start .idle 0

theorem emptySys_initial : Initial emptySys where
  infos _ := rfl
  up _ := rfl
  down _ := rfl
  procs _ := rfl
  handed _ := rfl
  pushing := rfl
  uncounted := rfl
  room := by decide
  nonempty _ h := nomatch h
  positions _ := ⟨Nat.le_refl 1, Nat.le_refl 1⟩

end Supex.Pole
