import Supex.Lib.Decimal
import Supex.Lib.OrdMap
import Supex.Lib.Run

/-!
# The tasks of a route thread

`_route_idle` pulls tasks from the queue as long as fewer than `paralleltasks` are
being dealt with. A task goes through a batch of requests to the calculation hosts, if
there is a calculation, and then through one to its route hosts. A batch belongs to the
asynchronous library, which calls back for each answered command and in the end either
the fail or the finish callback of the batch; these callbacks and `_route_idle` are the
steps of the model.

An exception is a result of its own (`Raised`): the functions that start a batch give
their context back and raise it again, and each caller frees the task. What may fail
outside of this code is a part of the steps: allocations, the pool of connections, and
what the hosts answer. A descriptor that turns out to be closed is given back and the
next one pulled, so an attempt has the code of its last pull. The counters of refused
connections of a host are shared with the other route threads, which may count at any
time.

* `brm_accounted` — when `dealtasks` is the number of the batches in flight.
-/

namespace Supex.Brm

open Supex.Lib
open Function (update)

--
-- Data
--

/-- `enum proto_type`. -/
inductive Proto where
  | http
  | other
  deriving DecidableEq

/-- `struct hostentry` without its counter. -/
structure Host where
  url : Option Bytes
  ip : Bytes
  port : Int
  proto : Proto

/-- `struct allcfg`. -/
structure Config where
  paralleltasks : Int
  calculate : Bool
  calhost : List Host
  /-- the hosts of all route groups -/
  routehost : Nat → Host

/-- `struct netdata`: the host and the cache. -/
structure NetData where
  host : Nat
  proto : Proto
  cache : Bytes

/-- What the receiving thread puts into the queue; a frame without data is not stored. -/
structure Source where
  src : Bytes
  src_ne_nil : src ≠ []
  rthost : List (Option Nat)

/-- `struct taskdata`. -/
structure TaskData where
  src : Bytes
  rthost : List (Option Nat)
  caldata : List NetData
  rtdata : List (Option NetData)
  needcts : Int
  acounter : Int

inductive Stage where
  | calculate
  | route
  deriving DecidableEq

/-- A batch that was started: its task and the commands that are not answered. -/
structure Batch where
  task : Nat
  stage : Stage
  commands : List Nat

structure Thread where
  dealtasks : Int
  tasks : OrdMap Nat TaskData
  batches : OrdMap Nat Batch
  nextTask : Nat
  nextBatch : Nat
  /-- `errconn` of the calculation hosts and of the route hosts -/
  calErr : Nat → Int
  rtErr : Nat → Int
  pulled : List Nat
  freed : List Nat

def Thread.init : Thread where
  dealtasks := 0
  tasks := .empty
  batches := .empty
  nextTask := 0
  nextBatch := 0
  calErr _ := 0
  rtErr _ := 0
  pulled := []
  freed := []

/-- What the pool of connections returns. -/
inductive PoolCode where
  | ok
  | opFail
  | full
  deriving DecidableEq

/-- What starts meet: a context, memory, and the connections to the hosts in order. -/
structure Outside where
  context : Bool
  memory : Bool
  /-- memory for the request to a calculation host -/
  request : Nat → Bool
  pool : Nat → PoolCode

/-- `cache->get_size`, the status and the body of an answer, and whether there is
memory for the body. -/
structure Response where
  getSize : Nat
  status : Int
  body : Bytes
  memory : Bool

/-- Whether a function returned or raised an exception. -/
inductive Raised where
  | returned
  | raised
  deriving DecidableEq

--
-- Requests
--

/-- `CALDATA_TEMPLATE` and `RTDATA_TEMPLATE`, with the data. -/
def post (h : Host) (data : Bytes) : Bytes :=
  ascii "POST " ++ h.url.getD (ascii "/publicentry") ++ ascii " HTTP/1.1\r\n" ++
    ascii "User-Agent: curl/7.33.0\r\n" ++
    ascii "Host: " ++ h.ip ++ ascii ":" ++ fmtLong h.port ++ ascii "\r\n" ++
    ascii "Content-Type: application/json; charset=utf-8\r\n" ++
    ascii "Connection:Keep-Alive\r\n" ++
    ascii "Content-Length:" ++ fmtLong data.length ++ ascii "\r\n" ++
    ascii "Accept: */*\r\n\r\n" ++ data

/-- What stands between the first opening and the last closing brace, as `%.*s` copies
it; there must be something. -/
def between (data : Bytes) : Option Bytes :=
  match data.dropWhile (· ≠ 123) with
  | [] => none
  | _ :: behind =>
    let inner := (behind.reverse.dropWhile (· ≠ 125)).drop 1
    if 125 ∈ behind ∧ inner ≠ [] then some (cstr inner.reverse) else none

/-- The JSON text of `_route_make_rtdata`. -/
def routeJson (t : TaskData) : Option Bytes := do
  let src ← if t.src = [] then some [] else between t.src
  let calculated ← t.caldata.mapM fun d => between d.cache
  some ([123] ++ src ++ (calculated.map fun c => 44 :: c).flatten ++ [125])

def calculateMakeData (h : Host) (src : Bytes) (memory : Bool) : Option Bytes :=
  if memory = true ∧ h.proto = .http then some (post h src) else none

/-- The requests to the route hosts; one of a host that does not speak HTTP fails. -/
def routeRequests (cfg : Config) (json : Bytes) : List (Option Nat) → Option (List (Option NetData))
  | [] => some []
  | none :: hosts => (routeRequests cfg json hosts).map (none :: ·)
  | some k :: hosts =>
    match (cfg.routehost k).proto with
    | .http =>
      (routeRequests cfg json hosts).map (some ⟨k, .http, post (cfg.routehost k) json⟩ :: ·)
    | .other => none

def routeMakeRtdata (cfg : Config) (out : Outside) (t : TaskData) :
    Option (List (Option NetData)) :=
  if t.rthost = [] ∨ out.memory = false then none
  else do
    let json ← routeJson t
    routeRequests cfg json t.rthost

--
-- Starting a batch
--

def Thread.setTask (s : Thread) (id : Nat) (t : TaskData) : Thread :=
  { s with tasks := s.tasks.insert id t }

/-- `taskdata_free`. -/
def Thread.free (s : Thread) (id : Nat) : Except Fault Thread :=
  match s.tasks.get id with
  | none => .error .memory
  | some _ => .ok { s with tasks := s.tasks.erase id, freed := s.freed ++ [id] }

/-- `async_startup` and the count. -/
def Thread.startup (s : Thread) (id : Nat) (stage : Stage) (commands : List Nat) : Thread :=
  { s with
    batches := s.batches.insert s.nextBatch ⟨id, stage, commands⟩
    nextBatch := s.nextBatch + 1
    dealtasks := s.dealtasks + 1 }

/-- The loop of `start_calculate_data` over the hosts from `i` on: the counters, and the
data of the commands or nothing after an exception. A refused connection is counted in
the handler. -/
def calculateHosts (out : Outside) (src : Bytes) :
    Nat → List Host → (Nat → Int) → (Nat → Int) × Option (List NetData)
  | _, [], err => (err, some [])
  | i, h :: hosts, err =>
    if err i ≠ 0 then (err, none)
    else if out.pool i ≠ .ok then (update err i (err i + 1), none)
    else
      match calculateMakeData h src (out.request i) with
      | none => (err, none)
      | some cache =>
        let rest := calculateHosts out src (i + 1) hosts err
        (rest.1, rest.2.map (⟨i, h.proto, cache⟩ :: ·))

def startCalculateData (cfg : Config) (out : Outside) (s : Thread) (id : Nat) :
    Except Fault (Thread × Raised) :=
  match s.tasks.get id with
  | none => .error .memory
  | some t =>
    if t.src = [] then .error .assertion
    else if out.context = false ∨ out.memory = false then .ok (s, .raised)
    else
      let hosts := calculateHosts out t.src 0 cfg.calhost s.calErr
      let s := { s with calErr := hosts.1 }
      match hosts.2 with
      | none => .ok (s, .raised)
      | some caldata =>
        let s := s.setTask id
          { t with caldata := caldata, needcts := caldata.length, acounter := 0 }
        if 0 < caldata.length then
          .ok (s.startup id .calculate (List.range caldata.length), .returned)
        else do
          let s ← s.free id
          pure (s, .returned)

/-- The loop of `start_route_data` from entry `i` on: the counters and the commands. A
host that cannot be reached is left out. -/
def routeHosts (out : Outside) :
    Nat → List (Option NetData) → (Nat → Int) → (Nat → Int) × List Nat
  | _, [], err => (err, [])
  | i, none :: rtdata, err => routeHosts out (i + 1) rtdata err
  | i, some d :: rtdata, err =>
    if err d.host ≠ 0 then routeHosts out (i + 1) rtdata err
    else
      match out.pool i with
      | .ok =>
        let rest := routeHosts out (i + 1) rtdata err
        (rest.1, i :: rest.2)
      | .opFail => routeHosts out (i + 1) rtdata (update err d.host (err d.host + 1))
      | .full => routeHosts out (i + 1) rtdata err

def startRouteData (cfg : Config) (out : Outside) (s : Thread) (id : Nat) :
    Except Fault (Thread × Raised) :=
  match s.tasks.get id with
  | none => .error .memory
  | some t =>
    match routeMakeRtdata cfg out t with
    | none => .ok (s, .raised)
    | some rtdata =>
      if out.context = false then .ok (s, .raised)
      else
        let hosts := routeHosts out 0 rtdata s.rtErr
        let s := { s with rtErr := hosts.1 }
        let s := s.setTask id
          { t with rtdata := rtdata, needcts := hosts.2.length, acounter := 0 }
        if 0 < hosts.2.length then .ok (s.startup id .route hosts.2, .returned)
        else do
          let s ← s.free id
          pure (s, .returned)

/-- The handler of a caller: an exception frees the task. -/
def caught (id : Nat) (r : Thread × Raised) : Except Fault Thread :=
  match r.2 with
  | .returned => .ok r.1
  | .raised => r.1.free id

--
-- Callbacks
--

/-- `_route_idle`, which may find the thread stopped or the queue empty. -/
def routeIdle (cfg : Config) (s : Thread) (run : Bool) (source : Option Source) (out : Outside) :
    Except Fault Thread :=
  if run = false ∨ s.dealtasks ≥ cfg.paralleltasks then .ok s
  else
    match source with
    | none => .ok s
    | some source => do
      let id := s.nextTask
      let s := { s with
        tasks := s.tasks.insert id ⟨source.src, source.rthost, [], [], 0, 0⟩
        nextTask := id + 1
        pulled := s.pulled ++ [id] }
      let r ← if cfg.calculate then startCalculateData cfg out s id else startRouteData cfg out s id
      caught id r

/-- `_calculate_one_finish`: what it leaves of the data and whether it counts. -/
def calculateOneFinish (d : NetData) : Option Response → NetData × Bool
  | none => (d, false)
  | some r =>
    if r.getSize = 0 then (d, false)
    else if d.proto ≠ .http ∨ r.status ≠ 200 ∨ r.body = [] then (d, false)
    else if r.memory then ({ d with cache := r.body }, true)
    else ({ d with cache := [] }, false)

def routeOneFinish (d : NetData) : Option Response → Bool
  | none => false
  | some r => decide (r.getSize ≠ 0 ∧ d.proto = .http ∧ r.status = 200)

def TaskData.count (t : TaskData) (counts : Bool) : TaskData :=
  if counts then { t with acounter := t.acounter + 1 } else t

/-- The callback of command `i` of a batch. -/
def oneFinish (s : Thread) (b : Batch) (i : Nat) (reply : Option Response) : Except Fault Thread :=
  match s.tasks.get b.task with
  | none => .error .memory
  | some t =>
    match b.stage with
    | .calculate =>
      match t.caldata[i]? with
      | none => .error .memory
      | some d =>
        let (d, counts) := calculateOneFinish d reply
        .ok (s.setTask b.task ({ t with caldata := t.caldata.set i d }.count counts))
    | .route =>
      match t.rtdata[i]? with
      | some (some d) => .ok (s.setTask b.task (t.count (routeOneFinish d reply)))
      | _ => .error .memory

/-- `_calculate_fail` and `_route_fail`. -/
def batchFail (s : Thread) (b : Batch) : Except Fault Thread :=
  { s with dealtasks := s.dealtasks - 1 }.free b.task

/-- `_calculate_all_finish`: answers that are missing raise an exception in front of the
count. -/
def calculateAllFinish (cfg : Config) (out : Outside) (s : Thread) (id : Nat) :
    Except Fault Thread :=
  match s.tasks.get id with
  | none => .error .memory
  | some t =>
    if t.acounter = t.needcts then do
      let r ← startRouteData cfg out { s with dealtasks := s.dealtasks - 1 } id
      caught id r
    else s.free id

/-- `_route_all_finish`: its exception is caught, the count and the task come after. -/
def routeAllFinish (s : Thread) (id : Nat) : Except Fault Thread :=
  { s with dealtasks := s.dealtasks - 1 }.free id

inductive BrmAct where
  | idle (run : Bool) (source : Option Source) (out : Outside)
  /-- a command of a batch is answered; without a reply, its connection failed -/
  | one (batch i : Nat) (reply : Option Response)
  | fail (batch : Nat)
  | finish (batch : Nat) (out : Outside)
  /-- another thread counts a refused connection -/
  | refused (stage : Stage) (host : Nat)

/-- The library calls back for batches that are in flight only, once for a command, and
not after the end of a batch. -/
def Thread.step (cfg : Config) (s : Thread) : BrmAct → Except Fault Thread
  | .idle run source out => routeIdle cfg s run source out
  | .one batch i reply =>
    match s.batches.get batch with
    | none => .ok s
    | some b =>
      if i ∈ b.commands then
        oneFinish { s with
          batches := s.batches.insert batch { b with commands := b.commands.erase i } } b i reply
      else .ok s
  | .fail batch =>
    match s.batches.get batch with
    | none => .ok s
    | some b => batchFail { s with batches := s.batches.erase batch } b
  | .finish batch out =>
    match s.batches.get batch with
    | none => .ok s
    | some b =>
      let s := { s with batches := s.batches.erase batch }
      match b.stage with
      | .calculate => calculateAllFinish cfg out s b.task
      | .route => routeAllFinish s b.task
  | .refused .calculate host =>
    .ok { s with calErr := update s.calErr host (s.calErr host + 1) }
  | .refused .route host =>
    .ok { s with rtErr := update s.rtErr host (s.rtErr host + 1) }

--
-- What the counts are for
--

/-- The batches in flight. -/
def Thread.flights (s : Thread) : Int := s.batches.entries.length

structure Accounted (cfg : Config) (s : Thread) : Prop where
  counted : s.dealtasks = s.flights
  /-- with nothing in flight the next task is pulled -/
  pulls : s.batches.entries = [] → 0 < cfg.paralleltasks → s.dealtasks < cfg.paralleltasks
  /-- every task was freed once, or has one batch in flight -/
  once : ∀ id ∈ s.pulled,
    (s.tasks.get id = none ∧ s.freed.count id = 1) ∨
      (s.tasks.get id ≠ none ∧ s.freed.count id = 0 ∧ ∃ c b, s.batches.get c = some b ∧
        b.task = id ∧
        ∀ c' b', s.batches.get c' = some b' → b'.task = id → c' = c)

/-- A batch to the calculation hosts finishes with all its answers. -/
def Complete (s : Thread) : BrmAct → Prop
  | .finish batch _ =>
    ∀ b, s.batches.get batch = some b → b.stage = .calculate →
      ∀ t, s.tasks.get b.task = some t → t.acounter = t.needcts
  | _ => True

end Supex.Brm
