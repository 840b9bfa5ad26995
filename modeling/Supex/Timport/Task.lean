import Supex.Lib.Bytes

/-!
# timport — the tasks of a round

timport moves keys from redis servers to tsdb. The configuration is a tree of
keys: the reply to an index key is a list of elements, and for every element
there is a task for each child of the key. A task reports to its parent when it
is done, and the root starts the next round.

A `timport_task_t` is an identifier that is live from its allocation until it is
freed; reading, changing or freeing one that is not live is a `Fault`. A request
is outstanding until its callback is called. The writes of one value to the tsdb
nodes, the expirations of one key and the statistics of one round have one
callback each, after the last reply, and are one request each.

`raise(SIGQUIT)` only sets a flag here: the callback it is raised in goes on, and
so may others before the loop stops. Allocations and connections succeed.
-/

namespace Supex.Timport

open Function (update)

--
-- Keys
--

/-- `tkey_type_e`; `TKEY_TYPE_UNKNOWN` is refused. -/
inductive KeyType where
  | wholeIndex
  | aloneIndex
  | keysIndex
  | setVal
  | stringVal
  deriving DecidableEq

/-- `tkey_interval_e`. -/
inductive Interval where
  | unknown
  | tenMin
  | oneHour
  deriving DecidableEq

/-- `stat_mode_e`. -/
inductive StatMode where
  | unknown
  | incr
  | set
  deriving DecidableEq

def KeyType.isIndex : KeyType → Bool
  | .wholeIndex => true
  | .aloneIndex => true
  | .keysIndex => true
  | .setVal => false
  | .stringVal => false

/-- `timport_key_t`, without the texts of keys and commands. -/
inductive TKey where
  | mk (type : KeyType) (interval : Interval) (stat : Option Nat) (child : List TKey)

def TKey.type : TKey → KeyType
  | .mk type _ _ _ => type

def TKey.interval : TKey → Interval
  | .mk _ interval _ _ => interval

def TKey.stat : TKey → Option Nat
  | .mk _ _ stat _ => stat

def TKey.child : TKey → List TKey
  | .mk _ _ _ child => child

/-- What `load_tkey_from_jso` accepts: an index has children, a value has none,
and the indexes that are looked up on every server have an interval. -/
inductive TKey.Loaded : TKey → Prop where
  | index {type : KeyType} {interval : Interval} {stat : Option Nat} {child : List TKey}
      (htype : type.isIndex = true) (hne : child ≠ [])
      (hinterval : type ≠ .aloneIndex → interval ≠ .unknown)
      (hchild : ∀ k ∈ child, k.Loaded) : (TKey.mk type interval stat child).Loaded
  | value {type : KeyType} {interval : Interval} {stat : Option Nat}
      (htype : type.isIndex = false) : (TKey.mk type interval stat []).Loaded

/-- `struct timport_cfg_file`. What `sort_array`, the result filter and
`set_to_string` make of a set is a parameter: how many elements it has then, and
the string; `none` when they fail. So is the result filter for a string. -/
structure Config where
  tktree : List TKey
  redisCnt : Nat
  hasTenMin : Bool
  delayTime : Nat
  statistics : List StatMode
  convert : TKey → List Bytes → Option (Nat × Bytes)
  resultFilter : TKey → Bytes → Bytes
  loaded : ∀ k ∈ tktree, k.Loaded
  redis_pos : 0 < redisCnt

def Config.interval (cfg : Config) : Nat := if cfg.hasTenMin then 600 else 3600

--
-- Tasks
--

/-- `struct redis_reply`. -/
inductive Reply where
  | nil
  | string (s : Bytes)
  | array (elements : List Bytes)
  | other

/-- `timport_task_t`; `rdsLink` is the index of the server. -/
structure Task where
  tkey : Option TKey
  rdsLink : Option Nat
  param : Option Bytes
  reply : Option Reply
  totalResultCount : Nat
  finishResultCount : Nat
  totalTaskCount : Nat
  finishTaskCount : Nat
  nextTaskCount : Nat
  step : Nat
  child : Option Nat
  slibing : Option Nat
  parent : Option Nat

/-- `NewArray0`. -/
def Task.zero : Task := ⟨none, none, none, none, 0, 0, 0, 0, 0, 0, none, none, none⟩

/-- What is waited for. -/
inductive Request where
  | index (task : Nat)
  | set (task : Nat)
  | string (task : Nat)
  | write (task : Nat)
  | expire (task : Nat)
  | statistics
  deriving DecidableEq

/-- Whose request it is. -/
def Request.task : Request → Option Nat
  | .index t => some t
  | .set t => some t
  | .string t => some t
  | .write t => some t
  | .expire t => some t
  | .statistics => none

/-- What must not happen. -/
inductive Fault where
  /-- a task that was freed is read or changed -/
  | useAfterFree
  /-- a task that was freed is freed -/
  | doubleFree
  /-- behind the end of `sfd_list` or of a reply -/
  | overflow
  /-- a null pointer -/
  | null
  /-- the parents do not end -/
  | depth
  deriving DecidableEq

/-- What there is when a round ends. -/
structure Ended where
  pending : List Request
  task : Nat → Option Task

/-- `g_timport_mgr` with the tasks and the requests. Task 0 is `root_ttask`. The
last three are a record: the rounds that were started, those that have ended, and
the parents of tasks that were freed without a report. -/
structure Sys where
  working : Bool
  startTmstamp : Nat
  task : Nat → Option Task
  next : Nat
  pending : List Request
  counts : Nat → Nat × Nat
  quit : Bool
  started : Nat
  ended : List Ended
  dropped : List Nat

def Sys.get (st : Sys) (t : Nat) : Except Fault Task :=
  match st.task t with
  | none => .error .useAfterFree
  | some x => .ok x

def Sys.put (st : Sys) (t : Nat) (x : Task) : Sys :=
  { st with task := update st.task t (some x) }

def Sys.free (st : Sys) (t : Nat) : Except Fault Sys :=
  match st.task t with
  | none => .error .doubleFree
  | some _ => .ok { st with task := update st.task t none }

/-- A new task; it is number `st.next`. -/
def Sys.alloc (st : Sys) (x : Task) : Sys :=
  { st with task := update st.task st.next (some x), next := st.next + 1 }

def Sys.modify (st : Sys) (t : Nat) (f : Task → Task) : Sys :=
  { st with task := update st.task t ((st.task t).map f) }

def Sys.ask (st : Sys) (r : Request) : Sys := { st with pending := st.pending ++ [r] }

/-- `raise(SIGQUIT)`. -/
def Sys.raise (st : Sys) : Sys := { st with quit := true }

/-- A task is freed, and its parent does not hear of it. -/
def Sys.drop (st : Sys) (t : Nat) (x : Task) : Except Fault Sys := do
  let st ← st.free t
  return { st with dropped := st.dropped ++ x.parent.toList }

--
-- The start of a round
--

/-- A key that is not imported at this time. -/
def skipped (cfg : Config) (tmstamp : Nat) (k : TKey) : Bool :=
  cfg.hasTenMin && decide (k.interval = .oneHour) && decide (tmstamp % 3600 ≠ 0)

/-- The loop of `timport_task_start` over the servers; with the last task. -/
def startServer (k : TKey) (s : Nat) (acc : Sys × Option Nat) (j : Nat) : Sys × Option Nat :=
  let st := acc.1
  let t := st.next
  let st := st.alloc { Task.zero with tkey := some k, rdsLink := some j, parent := some s }
  let st := st.modify s fun y => { y with totalTaskCount := y.totalTaskCount + 1 }
  let st :=
    match acc.2 with
    | none => st.modify s fun y => { y with child := some t, tkey := some k }
    | some q => st.modify q fun y => { y with slibing := some t }
  (st.ask (.index t), some t)

def startKey (cfg : Config) (st : Sys) (k : TKey) : Sys :=
  let s := st.next
  let st := st.alloc { Task.zero with parent := some 0 }
  let st := ((List.range cfg.redisCnt).foldl (startServer k s) (st, none)).1
  st.modify 0 fun r => { r with totalTaskCount := r.totalTaskCount + 1 }

/-- The loop of `timport_task_start` over the keys. Without an interval
`get_ftime` gives no time, and the task that was allocated for the key is lost;
it is left out. -/
def startKeys (cfg : Config) (tmstamp : Nat) : Sys → List TKey → Sys
  | st, [] => st
  | st, k :: ks =>
    if skipped cfg tmstamp k then startKeys cfg tmstamp st ks
    else if k.interval = .unknown then st.raise
    else startKeys cfg tmstamp (startKey cfg st k) ks

def timportTaskStart (cfg : Config) (st : Sys) (tmstamp : Nat) : Sys :=
  let st := { st with counts := fun _ => (0, 0) }
  let st := st.modify 0 fun r => { r with finishTaskCount := 0, totalTaskCount := 0 }
  startKeys cfg tmstamp st cfg.tktree

def timportTaskCheck (cfg : Config) (now : Nat) (st : Sys) : Sys :=
  if st.startTmstamp + cfg.delayTime < now ∧ st.working = false then
    timportTaskStart cfg { st with working := true, started := st.started + 1 } st.startTmstamp
  else st

--
-- The end of a round
--

/-- `start_tmstamp` is advanced, the work status is set back, and the next round
may start. -/
def finishRound (cfg : Config) (now : Nat) (st : Sys) : Sys :=
  let st : Sys := { st with
    startTmstamp := st.startTmstamp + cfg.interval
    ended := st.ended ++ [⟨st.pending, st.task⟩] }
  if st.working = true then timportTaskCheck cfg now { st with working := false } else st

def hasCmd (cfg : Config) (st : Sys) : Bool :=
  (List.range cfg.statistics.length).any fun i =>
    match cfg.statistics[i]? with
    | some .incr => decide (0 < (st.counts i).1) || decide (0 < (st.counts i).2)
    | some .set => decide (0 < (st.counts i).1)
    | _ => false

def handleStatistics (cfg : Config) (now : Nat) (st : Sys) : Sys :=
  if hasCmd cfg st = true then st.ask .statistics else finishRound cfg now st

--
-- Values
--

/-- The counters of a key. -/
def addStat (counts : Nat → Nat × Nat) (stat : Option Nat) (count size : Nat) :
    Nat → Nat × Nat :=
  match stat with
  | none => counts
  | some i => update counts i ((counts i).1 + count, (counts i).2 + size)

/-- `handle_string`: the value is written to tsdb. -/
def handleString (st : Sys) (t : Nat) : Except Fault Sys := do
  let x ← st.get t
  match x.tkey with
  | none => throw .null
  | some k =>
    match x.reply with
    | some (.string s) =>
      return { st.ask (.write t) with
        counts := addStat st.counts k.stat x.totalResultCount s.length }
    | _ => return st.raise

def handleSet (cfg : Config) (st : Sys) (t : Nat) : Except Fault Sys := do
  let x ← st.get t
  match x.tkey with
  | none => throw .null
  | some k =>
    match x.reply with
    | some (.array es) =>
      match cfg.convert k es with
      | none => return st.raise
      | some (n, s) =>
        handleString (st.put t { x with totalResultCount := n, reply := some (.string s) }) t
    | _ => return st.raise

--
-- Indexes
--

def MAX_STEP_COUNT : Nat := 5
def MAX_REDIS_SIZE : Nat := 32

def getHandleCb (type : KeyType) (t : Nat) : Request :=
  match type with
  | .wholeIndex => .index t
  | .aloneIndex => .index t
  | .keysIndex => .index t
  | .stringVal => .string t
  | .setVal => .set t

/-- The task for an element and a child of the key. -/
def spawn (t idx : Nat) (st : Sys) (a : Bytes × TKey) : Sys :=
  (st.alloc { Task.zero with
    tkey := some a.2
    rdsLink := some idx
    param := some a.1
    parent := some t }).ask (getHandleCb a.2.type st.next)

def handleSingleStepIndex (st : Sys) (t : Nat) : Except Fault Sys := do
  let x ← st.get t
  match x.rdsLink, x.tkey, x.reply with
  | some idx, some k, some (.array es) =>
    if MAX_REDIS_SIZE ≤ idx ∨ es.length < x.finishResultCount + x.step then throw .overflow
    else
      return (((es.drop x.finishResultCount).take x.step).flatMap fun e =>
        k.child.map fun c => (e, c)).foldl (spawn t idx) st
  | _, _, _ => throw .null

def handleNextStepIndex (st : Sys) (t : Nat) : Except Fault Sys := do
  let x ← st.get t
  let x := { x with finishResultCount := x.finishResultCount + x.step }
  if x.totalResultCount ≤ x.finishResultCount then return st.put t x
  else
    match x.tkey with
    | none => throw .null
    | some k =>
      let step := min x.step (x.totalResultCount - x.finishResultCount)
      handleSingleStepIndex (st.put t { x with
        step := step
        nextTaskCount := x.nextTaskCount + step * k.child.length }) t

--
-- Reports
--

/-- The tasks from one on along `slibing`. -/
def siblings (st : Sys) : Nat → Option Nat → Except Fault (List (Nat × Task))
  | _, none => .ok []
  | 0, some _ => .error .depth
  | fuel + 1, some t => do
    let x ← st.get t
    let rest ← siblings st fuel x.slibing
    return (t, x) :: rest

/-- The elements of a reply that is an array. -/
def Task.elements (x : Task) : List Bytes :=
  match x.reply with
  | some (.array es) => es
  | _ => []

/-- `merge_child_sets`; `none` when it fails. -/
def mergeChildSets (st : Sys) (p : Nat) : Except Fault (Option Sys) := do
  let y ← st.get p
  match y.child with
  | none => return none
  | some c =>
    let chain ← siblings st st.next (some c)
    let elements := chain.flatMap fun a => a.2.elements
    let st ← chain.foldlM (fun st a => st.free a.1) st
    return some (st.put p { y with
      child := none
      reply := if elements = [] then none else some (.array elements) })

/-- The part of `task_finish` that counts: one more task of the parent is
finished, and the next step may start. -/
def report (st : Sys) (p : Nat) : Except Fault Sys := do
  let y ← st.get p
  let y := { y with finishTaskCount := y.finishTaskCount + 1 }
  if y.nextTaskCount = y.finishTaskCount then handleNextStepIndex (st.put p y) p
  else return st.put p y

def taskFinish (cfg : Config) (now : Nat) : Nat → Sys → Nat → Except Fault Sys
  | 0, _, _ => .error .depth
  | fuel + 1, st, t => do
    let x ← st.get t
    match x.parent with
    | none => return st
    | some p =>
      let st ← report st p
      let _ ← st.get t
      let y ← st.get p
      if y.finishTaskCount ≠ y.totalTaskCount then return st
      else
        match y.rdsLink, y.parent with
        | some _, _ =>
          match y.tkey.map TKey.type with
          | some .aloneIndex =>
            match y.reply with
            | some _ => handleSet cfg st p
            | none =>
              let st ← taskFinish cfg now fuel st p
              st.free p
          | some .wholeIndex =>
            let st ← taskFinish cfg now fuel st p
            st.free p
          | some .keysIndex =>
            let st ← taskFinish cfg now fuel st p
            let _ ← st.get p
            st.free p
          | some _ => return st.raise
          | none => throw .null
        | none, some _ =>
          match y.tkey.map TKey.type with
          | some .keysIndex =>
            let st ← taskFinish cfg now fuel st p
            st.free p
          | some _ =>
            match ← mergeChildSets st p with
            | none => return st.raise
            | some st =>
              let y ← st.get p
              match y.reply with
              | some _ =>
                handleSet cfg (st.put p { y with totalResultCount := y.elements.length }) p
              | none =>
                let st ← taskFinish cfg now fuel st p
                st.free p
          | none => throw .null
        | none, none =>
          if cfg.statistics = [] then return finishRound cfg now st
          else return handleStatistics cfg now st

--
-- Callbacks
--

/-- `task_finish` of a task and then `free`. -/
def finishAndFree (cfg : Config) (now : Nat) (st : Sys) (t : Nat) : Except Fault Sys := do
  let st ← taskFinish cfg now st.next st t
  st.free t

def handleStringCb (cfg : Config) (now : Nat) (st : Sys) (t : Nat) (reply : Reply) :
    Except Fault Sys := do
  let x ← st.get t
  match reply with
  | .string s =>
    match x.tkey with
    | none => throw .null
    | some k =>
      handleString (st.put t { x with
        totalResultCount := 1
        reply := some (.string (cfg.resultFilter k s)) }) t
  | .nil => finishAndFree cfg now st t
  | _ => return st.raise

/-- `handle_set_cb`; the report of an empty set is commented out. -/
def handleSetCb (cfg : Config) (st : Sys) (t : Nat) (reply : Reply) : Except Fault Sys := do
  let x ← st.get t
  match reply with
  | .nil => st.drop t x
  | .array es =>
    if es = [] then st.drop t x
    else
      handleSet cfg (st.put t { x with
        totalResultCount := es.length
        reply := some (.array es) }) t
  | _ =>
    let st ← st.drop t x
    return st.raise

/-- The part of `handle_index_cb` for a reply with elements. -/
def startIndex (st : Sys) (t : Nat) (x : Task) (k : TKey) (es : List Bytes) : Except Fault Sys :=
  let step := min es.length MAX_STEP_COUNT
  handleSingleStepIndex (st.put t { x with
    reply := some (.array es)
    totalResultCount := es.length
    finishResultCount := 0
    totalTaskCount := es.length * k.child.length
    finishTaskCount := 0
    step := step
    nextTaskCount := x.nextTaskCount + step * k.child.length }) t

/-- `handle_index_cb`; the report of an empty index is commented out. -/
def handleIndexCb (st : Sys) (t : Nat) (reply : Reply) : Except Fault Sys := do
  let x ← st.get t
  match x.tkey with
  | none => throw .null
  | some k =>
    match reply with
    | .nil =>
      if k.child = [] then
        let st ← st.drop t x
        return st.raise
      else st.drop t x
    | .array es =>
      if k.child = [] then
        let st ← st.drop t x
        return st.raise
      else if es = [] then st.drop t x
      else startIndex st t x k es
    | _ =>
      let st ← st.drop t x
      return st.raise

def redisExpireFinishCb (cfg : Config) (now : Nat) (st : Sys) (t : Nat) : Except Fault Sys := do
  let st ← taskFinish cfg now st.next st t
  let _ ← st.get t
  st.free t

def tsdbSetFinishCb (st : Sys) (t : Nat) : Except Fault Sys := do
  let _ ← st.get t
  return st.ask (.expire t)

--
-- The system
--

/-- The timer, and the reply to one of the requests. -/
inductive Act where
  | tick (now : Nat)
  | answer (i : Nat) (reply : Reply) (now : Nat)

/-- The callback of a request. -/
def callback (cfg : Config) (now : Nat) (st : Sys) (reply : Reply) : Request → Except Fault Sys
  | .index t => handleIndexCb st t reply
  | .set t => handleSetCb cfg st t reply
  | .string t => handleStringCb cfg now st t reply
  | .write t => tsdbSetFinishCb st t
  | .expire t => redisExpireFinishCb cfg now st t
  | .statistics => .ok (finishRound cfg now st)

def step (cfg : Config) (st : Sys) : Act → Except Fault Sys
  | .tick now => .ok (timportTaskCheck cfg now st)
  | .answer i reply now =>
    match st.pending[i]? with
    | none => .ok st
    | some r => callback cfg now { st with pending := st.pending.eraseIdx i } reply r

/-- Before the first round. -/
def Sys.start (tmstamp : Nat) : Sys where
  working := false
  startTmstamp := tmstamp
  task t := if t = 0 then some Task.zero else none
  next := 1
  pending := []
  counts _ := (0, 0)
  quit := false
  started := 0
  ended := []
  dropped := []

end Supex.Timport
