import Supex.Lib.ByteOrder
import Supex.Lib.KvProgram
import Supex.Xmq.Csv

/-!
# libmixmq — many queues on one store

A faithful model of libmixmq's `xmq.c` and `xmq_csv.c`: the keys, the stored
lists, opening and closing queues, registering producers and consumers, pushing,
fetching and marking.

The store is supplied by the user of the library as two callbacks that may
fail; a function of the library that uses it is a `Prog`, a program over these
callbacks.

Conventions:

* A queue is its name: the two lists of a context are one map with a flag,
  `Queue.active`. A producer or a consumer is its identity in its queue, found
  as `xmq_producer_exist` and `xmq_consumer_exist` find it, the active ones
  first. `NULL` handles are names that are not found.
* `uint64_t` is a natural number, reduced where the C code adds; a length that
  is stored into an `unsigned int` is reduced by `u32`.
* Allocations succeed. `usable n` is the size of the block that `calloc` gives
  for `n` bytes; writing behind it, following a `NULL` pointer, freeing a node
  that stays in a list and waiting forever are `Fault`s.
* The locks are left out: one call at a time.
-/

namespace Supex.Mixmq

open Supex.Xmq (comma)

/-- A program over the callbacks. -/
abbrev Prog (α : Type) := Lib.KvProgram Bytes Bytes Fault α

/-- The two callbacks over the state `W` of the medium. -/
abbrev Medium (W : Type) := Lib.KvMedium Bytes Bytes W

/-- The content of a store. -/
abbrev Store := Bytes → Option Bytes

/-- A length stored into an `unsigned int`. -/
def u32 (n : Nat) : Nat := n % 2 ^ 32

--
-- Keys
--

/-- What `__string_append_3rd` writes:
`prfix + first + sep + second + sep + three + sep`. -/
def appended (prfix sep first : Bytes) (second three : Option Bytes) : Bytes :=
  prfix ++ first ++ sep ++
    match second with
    | none => []
    | some second => second ++ sep ++
      match three with
      | none => []
      | some three => three ++ sep

/-- The bytes it asks `calloc` for: two separators, however many it writes. -/
def appendTotal (prfix sep first : Bytes) (second three : Option Bytes) : Nat :=
  1 + prfix.length + 2 * sep.length + first.length +
    match second with
    | none => 0
    | some second => second.length +
      match three with
      | none => 0
      | some three => three.length

/-- `__string_append_3rd`. A prefix of `NULL` is the empty one. -/
def stringAppend3rd (usable : Nat → Nat) (prfix sep first : Bytes) (second three : Option Bytes) :
    Except Fault Bytes :=
  if (appended prfix sep first second three).length + 1 ≤
      usable (appendTotal prfix sep first second three) then
    .ok (appended prfix sep first second three)
  else .error .memory

/-- The block that glibc hands out for `n` bytes on a 64 bit machine. -/
def glibcUsable (n : Nat) : Nat := max 24 ((n + 23) / 16 * 16 - 8)

theorem le_glibcUsable (n : Nat) : n ≤ glibcUsable n := by
  unfold glibcUsable
  omega

/-- The prefix of all keys that are strings. -/
def XMQ : Bytes := ascii "__XMQ__"

/-- The separator of their parts. -/
def SEP : Bytes := ascii "__"

def getKeyOfQueues (usable : Nat → Nat) : Except Fault Bytes :=
  stringAppend3rd usable XMQ SEP (ascii "QUEUES") none none

def getKeyOfProducers (usable : Nat → Nat) (q : Bytes) : Except Fault Bytes :=
  stringAppend3rd usable XMQ SEP q (some (ascii "PRODUCERS")) none

def getKeyOfConsumers (usable : Nat → Nat) (q : Bytes) : Except Fault Bytes :=
  stringAppend3rd usable XMQ SEP q (some (ascii "CONSUMERS")) none

def getKeyOfCapacity (usable : Nat → Nat) (q : Bytes) : Except Fault Bytes :=
  stringAppend3rd usable XMQ SEP q (some (ascii "CAPACITY")) none

def getKeyOfFetchpos (usable : Nat → Nat) (q u : Bytes) : Except Fault Bytes :=
  stringAppend3rd usable XMQ SEP q (some u) (some (ascii "FETCHPOS"))

def getKeyOfMarkpos (usable : Nat → Nat) (q u : Bytes) : Except Fault Bytes :=
  stringAppend3rd usable XMQ SEP q (some u) (some (ascii "MARKPOS"))

--
-- Records
--

/-- `__load_string_bin`; keys are stored without their NUL. -/
def loadStringBin (key : Bytes) : Prog (Option (Option Bytes)) := .get key .ret

def loadStringString (key : Bytes) : Prog (Option (Option Bytes)) := do
  let value ← loadStringBin key
  return value.map (·.map cstr)

def writeStringBin (key value : Bytes) : Prog Bool :=
  if u32 value.length = 0 then .ret false
  else .put [(key, value.take (u32 value.length))] .ret

def writeStringString (key value : Bytes) : Prog Bool := writeStringBin key (value ++ [0])

/-- `__write_back_append`; the separator ends the list. -/
def writeBackAppend (usable : Nat → Nat) (key morePart sep : Bytes) : Prog Bool := do
  match ← loadStringString key with
  | none => return false
  | some old =>
    let valueNew ← .lift (stringAppend3rd usable (old.getD []) sep morePart none none)
    writeStringString key valueNew

/-- `__uint64_read`: `none` is `-1`, `some none` a missing record. -/
def uint64Read (key : Bytes) : Prog (Option (Option Nat)) := do
  match ← loadStringBin key with
  | none => return none
  | some none => return some none
  | some (some value) => return if value.length = 8 then some (some (leVal value)) else none

def uint64Write (key : Bytes) (u64num : Nat) : Prog Bool := writeStringBin key (le64 u64num)

/-- `__uint64_test_init`: whether it succeeded, and what `*cur` is afterwards. -/
def uint64TestInit (key : Bytes) (cur init : Nat) : Prog (Bool × Nat) := do
  match ← uint64Read key with
  | none => return (false, cur)
  | some (some value) => return (true, value)
  | some none =>
    let ok ← uint64Write key init
    return (ok, init)

--
-- Stored lists
--

def FIELD_MAX_LEN : Nat := 256

/-- The `do ... while (*pos)` loop of `csv_parse`. A field without characters
has a `NULL` pointer; the last field has to end with a comma too. Every turn
takes at least one byte, so the length of the string is enough fuel. -/
def csvFieldsLoop : Nat → Bytes → Option (List (Option Bytes))
  | 0, _ => none
  | fuel + 1, pos =>
    let field := pos.takeWhile (· ≠ comma)
    match pos.drop field.length with
    | [] => none
    | _ :: rest =>
      if FIELD_MAX_LEN ≤ u32 field.length then none
      else
        let entry := if field = [] then none else some (field.take (u32 field.length))
        if rest = [] then some [entry] else (csvFieldsLoop fuel rest).map (entry :: ·)

/-- `csv_parse`; `none` is `-1`. -/
def csvParse (s : Bytes) : Option (List (Option Bytes)) := csvFieldsLoop (s.length + 1) s

/-- `__load_string_list` with `__csv_to_list`: the count as an `int`, and the
names. Copying a field without characters follows its `NULL` pointer. -/
def loadStringList (key : Bytes) : Prog (Option (Int × List Bytes)) := do
  match ← loadStringString key with
  | none => return none
  | some none => return some (0, [])
  | some (some value) =>
    match csvParse value with
    | none => return none
    | some fields =>
      if toInt32 fields.length = -1 then return none
      else
        match fields.mapM fun field => field with
        | none => .fail .memory
        | some names => return some (toInt32 fields.length, names)

--
-- Data
--

/-- `xmq_msg_t` as a caller makes it: the data; the index is set by the push. -/
structure Msg where
  data : Bytes
  size_lt : 16 + data.length < u64Size

/-- The bytes of a message with the given index: the head, then the data. -/
def Msg.bytes (msg : Msg) (index : Nat) : Bytes := le64 index ++ le64 msg.data.length ++ msg.data

/-- `xmq_producer_t`. -/
structure Producer where
  identity : Bytes
  deriving DecidableEq

/-- `xmq_consumer_t`. -/
structure Consumer where
  identity : Bytes
  slot : Nat
  lastFetchIndex : Nat
  lastMarkIndex : Nat
  deriving DecidableEq

/-- `xmq_queue_t`, without its locks, the count of waiters and the number `id`,
which nothing reads. -/
structure Queue where
  name : Bytes
  active : Bool
  msgCapacity : Nat
  flag : Nat
  activeProducers : List Producer
  activeConsumers : List Consumer
  deadProducers : List Producer
  deadConsumers : List Consumer
  producerAmount : Int
  consumerAmount : Int

/-- A queue as `calloc` makes it. -/
def freshQueue (name : Bytes) : Queue := ⟨name, false, 0, 0, [], [], [], [], 0, 0⟩

/-- `F_QUEUE_BLOCK` is set. -/
def Queue.blocking (queue : Queue) : Bool := queue.flag % 2 = 1

/-- `x++` on an `int`. -/
def intSucc (n : Int) : Int := if n = 2 ^ 31 - 1 then -2 ^ 31 else n + 1

--
-- Queues
--

/-- The consumers of a loaded list, numbered in its order. -/
def loadedConsumers (names : List Bytes) : List Consumer :=
  names.zipIdx.map fun p => ⟨p.1, p.2, 0, 0⟩

def producersLoad (usable : Nat → Nat) (queue : Queue) : Prog (Bool × Queue) := do
  let key ← .lift (getKeyOfProducers usable queue.name)
  match ← loadStringList key with
  | none => return (false, { queue with producerAmount := 0 })
  | some (n, names) =>
    return (true, { queue with producerAmount := n, deadProducers := names.map fun u => ⟨u⟩ })

def consumersLoad (usable : Nat → Nat) (queue : Queue) : Prog (Bool × Queue) := do
  let key ← .lift (getKeyOfConsumers usable queue.name)
  match ← loadStringList key with
  | none => return (false, { queue with consumerAmount := 0 })
  | some (n, names) =>
    return (true, { queue with consumerAmount := n, deadConsumers := loadedConsumers names })

/-- The lists are loaded only when they are empty. -/
def producersLoadEmpty (usable : Nat → Nat) (queue : Queue) : Prog (Bool × Queue) :=
  if queue.deadProducers = [] then producersLoad usable queue else .ret (true, queue)

def consumersLoadEmpty (usable : Nat → Nat) (queue : Queue) : Prog (Bool × Queue) :=
  if queue.deadConsumers = [] then consumersLoad usable queue else .ret (true, queue)

/-- The lists of a queue that `__queue_active` activates. -/
def listsLoad (usable : Nat → Nat) (queue : Queue) : Prog (Bool × Queue) := do
  let (ok, queue) ← producersLoadEmpty usable queue
  if !ok then return (false, queue)
  else
    let (ok, queue) ← consumersLoadEmpty usable queue
    return (ok, if ok then { queue with active := true } else queue)

/-- `__queue_active`. The queue comes back as it is afterwards, also when the
call fails. -/
def queueActive (usable : Nat → Nat) (queue : Queue) : Prog (Bool × Queue) := do
  let key ← .lift (getKeyOfCapacity usable queue.name)
  let (ok, capacity) ← uint64TestInit key queue.msgCapacity 0
  let queue := { queue with msgCapacity := capacity }
  if !ok then return (false, queue) else listsLoad usable queue

/-- `__queue_new_active`. When the activation fails, the new queue is freed but
stays in the list of dead queues. -/
def queueNewActive (usable : Nat → Nat) (name : Bytes) : Prog (Option Queue) := do
  let (ok, queue) ← queueActive usable (freshQueue name)
  if !ok then .fail .memory
  else
    let key ← .lift (getKeyOfQueues usable)
    let ok ← writeBackAppend usable key name [comma]
    return if ok then some queue else none

/-- `xmq_queue_open` of the queue that is found under the name, if there is one;
`false` is `NULL`. -/
def xmqQueueOpen (usable : Nat → Nat) (found : Option Queue) (name : Bytes) (flag : Nat) :
    Prog (Bool × Option Queue) := do
  if 256 ≤ name.length then return (false, found)
  else
    match found with
    | some queue =>
      if queue.active then return (true, some { queue with flag := flag })
      else
        let (ok, queue) ← queueActive usable queue
        return if ok then (true, some { queue with flag := flag }) else (false, some queue)
    | none =>
      match ← queueNewActive usable name with
      | none => return (false, none)
      | some queue => return (true, some { queue with flag := flag })

/-- `xmq_queue_close`: the dead producers and consumers are freed. -/
def xmqQueueClose (queue : Queue) : Bool × Queue :=
  if !queue.active then (true, queue)
  else if queue.activeProducers ≠ [] then (false, queue)
  else if queue.activeConsumers ≠ [] then (false, queue)
  else (true, { queue with active := false, deadProducers := [], deadConsumers := [] })

--
-- Producers and consumers
--

def xmqProducerExist (queue : Queue) (identity : Bytes) : Option Producer :=
  (queue.activeProducers.find? (·.identity = identity)).or
    (queue.deadProducers.find? (·.identity = identity))

def xmqConsumerExist (queue : Queue) (identity : Bytes) : Option Consumer :=
  (queue.activeConsumers.find? (·.identity = identity)).or
    (queue.deadConsumers.find? (·.identity = identity))

def xmqRegisterAsProducer (usable : Nat → Nat) (queue : Queue) (identity : Bytes) :
    Prog (Bool × Queue) := do
  if identity = [] then return (false, queue)
  else if (queue.activeProducers.find? (·.identity = identity)).isSome then return (true, queue)
  else
    match queue.deadProducers.find? (·.identity = identity) with
    | some producer =>
      return (true, { queue with
        deadProducers := queue.deadProducers.eraseP (·.identity = identity)
        activeProducers := queue.activeProducers ++ [producer] })
    | none =>
      let producer : Producer := ⟨identity.take 255⟩
      let key ← .lift (getKeyOfProducers usable queue.name)
      let ok ← writeBackAppend usable key producer.identity [comma]
      return if ok then (true, { queue with
          activeProducers := queue.activeProducers ++ [producer]
          producerAmount := intSucc queue.producerAmount })
        else (false, queue)

def xmqUnregisterProducer (queue : Queue) (identity : Bytes) : Bool × Queue :=
  if identity = [] then (false, queue)
  else
    match queue.activeProducers.find? (·.identity = identity) with
    | none => (true, queue)
    | some producer => (true, { queue with
        activeProducers := queue.activeProducers.eraseP (·.identity = identity)
        deadProducers := queue.deadProducers ++ [producer] })

/-- `__consumer_active`, on a consumer of the dead list. -/
def consumerActive (usable : Nat → Nat) (queue : Queue) (identity : Bytes) (consumer : Consumer) :
    Prog (Bool × Queue) := do
  let fetchKey ← .lift (getKeyOfFetchpos usable queue.name consumer.identity)
  let (ok, fetchIndex) ← uint64TestInit fetchKey consumer.lastFetchIndex 0
  let consumer := { consumer with lastFetchIndex := fetchIndex }
  let dead := queue.deadConsumers.eraseP (·.identity = identity)
  let i := queue.deadConsumers.findIdx (·.identity = identity)
  if !ok then return (false, { queue with deadConsumers := queue.deadConsumers.set i consumer })
  else
    let markKey ← .lift (getKeyOfMarkpos usable queue.name consumer.identity)
    let (ok, markIndex) ← uint64TestInit markKey consumer.lastMarkIndex 0
    let consumer := { consumer with lastMarkIndex := markIndex }
    if !ok then return (false, { queue with deadConsumers := queue.deadConsumers.set i consumer })
    else return (true, { queue with
      deadConsumers := dead, activeConsumers := queue.activeConsumers ++ [consumer] })

/-- `__consumer_new_active`: the list, then the two positions. -/
def consumerNewActive (usable : Nat → Nat) (queue : Queue) (identity : Bytes) :
    Prog (Bool × Queue) := do
  let consumer : Consumer := ⟨identity.take 255, (queue.consumerAmount % 2 ^ 32).toNat, 0, 0⟩
  let key ← .lift (getKeyOfConsumers usable queue.name)
  let ok ← writeBackAppend usable key consumer.identity [comma]
  if !ok then return (false, queue)
  else
    let fetchKey ← .lift (getKeyOfFetchpos usable queue.name consumer.identity)
    let ok ← uint64Write fetchKey 0
    if !ok then return (false, queue)
    else
      let markKey ← .lift (getKeyOfMarkpos usable queue.name consumer.identity)
      let ok ← uint64Write markKey 0
      return if ok then (true, { queue with
          activeConsumers := queue.activeConsumers ++ [consumer]
          consumerAmount := intSucc queue.consumerAmount })
        else (false, queue)

def xmqRegisterAsConsumer (usable : Nat → Nat) (queue : Queue) (identity : Bytes) :
    Prog (Bool × Queue) :=
  if identity = [] then .ret (false, queue)
  else if (queue.activeConsumers.find? (·.identity = identity)).isSome then .ret (true, queue)
  else
    match queue.deadConsumers.find? (·.identity = identity) with
    | some consumer => consumerActive usable queue identity consumer
    | none => consumerNewActive usable queue identity

def xmqUnregisterConsumer (queue : Queue) (identity : Bytes) : Bool × Queue :=
  if identity = [] then (false, queue)
  else
    match queue.activeConsumers.find? (·.identity = identity) with
    | none => (true, queue)
    | some consumer => (true, { queue with
        activeConsumers := queue.activeConsumers.eraseP (·.identity = identity)
        deadConsumers := queue.deadConsumers ++ [consumer] })

--
-- Messages
--

/-- The capacity in memory is read again when it is 0. -/
def reloadCapacity (key : Bytes) (queue : Queue) : Prog (Bool × Nat) :=
  if queue.msgCapacity = 0 then uint64TestInit key 0 0 else .ret (true, queue.msgCapacity)

/-- The message and the capacity in one write. The capacity in memory moves on
only in a blocking queue. -/
def messagePut (key : Bytes) (queue : Queue) (msg : Msg) : Prog ((Bool × Nat) × Queue) := do
  let index := (queue.msgCapacity + 1) % u64Size
  let bytes := msg.bytes index
  let ok ← .put [(le64 index, bytes.take (u32 bytes.length)), (key, le64 index)] .ret
  return ((ok, index), if ok && queue.blocking then
    { queue with msgCapacity := (queue.msgCapacity + 1) % u64Size } else queue)

/-- `queue_push_tail`: whether it returned 0, and the index of the message
afterwards. -/
def queuePushTail (usable : Nat → Nat) (queue : Queue) (pid : Bytes) (msg : Msg) :
    Prog ((Bool × Nat) × Queue) := do
  if xmqProducerExist queue pid = none then return ((false, 0), queue)
  else
    let key ← .lift (getKeyOfCapacity usable queue.name)
    let (ok, capacity) ← reloadCapacity key queue
    if !ok then return ((false, 0), queue)
    else messagePut key { queue with msgCapacity := capacity } msg

/-- The results of a fetch: `NULL`, `(xmq_msg_t *)-1`, or a message. -/
inductive Fetched where
  | null
  | error
  | msg (bytes : Bytes)
  deriving DecidableEq

/-- `__msg_fetch`: the length field of the record has to fit the record. -/
def msgFetch (queue : Queue) (index : Nat) : Prog Fetched := do
  if index = 0 ∨ queue.msgCapacity < index then return .error
  else
    match ← Lib.KvProgram.get (le64 index) .ret with
    | none => return .error
    | some none => .fail .memory
    | some (some value) =>
      if value.length < 16 then .fail .memory
      else if (16 + leVal ((value.drop 8).take 8)) % u64Size ≠ value.length then return .error
      else return .msg value

/-- Replaces a consumer where `xmq_consumer_exist` finds it. -/
def setConsumer (queue : Queue) (identity : Bytes) (consumer : Consumer) : Queue :=
  let i := queue.activeConsumers.findIdx (·.identity = identity)
  let j := queue.deadConsumers.findIdx (·.identity = identity)
  if (queue.activeConsumers.find? (·.identity = identity)).isSome then
    { queue with activeConsumers := queue.activeConsumers.set i consumer }
  else { queue with deadConsumers := queue.deadConsumers.set j consumer }

/-- `queue_fetch_nth`. Nobody pushes during the call, so a wait for a message
that is not there ends with its timeout or never. The position is written also
when `__msg_fetch` has failed. -/
def queueFetchNth (usable : Nat → Nat) (queue : Queue) (cid : Bytes) (index millis : Nat) :
    Prog (Fetched × Queue) := do
  match xmqConsumerExist queue cid with
  | none => return (.error, queue)
  | some consumer =>
    if queue.msgCapacity < index then
      if queue.blocking ∧ millis = 0 then .fail .diverge else return (.null, queue)
    else
      let msg ← msgFetch queue index
      let key ← .lift (getKeyOfFetchpos usable queue.name consumer.identity)
      let ok ← uint64Write key index
      if ok then return (msg, setConsumer queue cid { consumer with lastFetchIndex := index })
      -- xmq_msg_destroy((xmq_msg_t *)-1)
      else if msg = .error then .fail .memory
      else return (.error, queue)

def queueFetchNext (usable : Nat → Nat) (queue : Queue) (cid : Bytes) (millis : Nat) :
    Prog (Fetched × Queue) :=
  match xmqConsumerExist queue cid with
  | none => .fail .memory
  | some consumer =>
    queueFetchNth usable queue cid ((consumer.lastFetchIndex + 1) % u64Size) millis

def queueFetchPos (queue : Queue) (cid : Bytes) : Nat :=
  match xmqConsumerExist queue cid with
  | none => u64Size - 1
  | some consumer => consumer.lastFetchIndex

/-- `queue_mark_nth`: the position in memory stays. -/
def queueMarkNth (usable : Nat → Nat) (queue : Queue) (cid : Bytes) (index : Nat) : Prog Nat := do
  match xmqConsumerExist queue cid with
  | none => return u64Size - 1
  | some consumer =>
    if queue.msgCapacity < index then return u64Size - 1
    else
      let key ← .lift (getKeyOfMarkpos usable queue.name consumer.identity)
      let ok ← .put [(key, le64 index)] .ret
      return if ok then consumer.lastMarkIndex else u64Size - 1

def queueMarkNext (usable : Nat → Nat) (queue : Queue) (cid : Bytes) : Prog Nat :=
  match xmqConsumerExist queue cid with
  | none => .fail .memory
  | some consumer => queueMarkNth usable queue cid ((consumer.lastMarkIndex + 1) % u64Size)

def queueMarkPos (queue : Queue) (cid : Bytes) : Nat :=
  match xmqConsumerExist queue cid with
  | none => 0
  | some consumer => consumer.lastMarkIndex

end Supex.Mixmq
