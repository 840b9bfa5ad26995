import Supex.Lib.Run
import Supex.Mixmq.Context

/-!
# libmixmq — a context and its callers

Every exported function works on one queue of the context. `localStep` is such
a call as a program over the callbacks, on the queue that is found under its
name; `serve` is the call on the whole context, with the log of what the
callers have seen.
-/

namespace Supex.Mixmq

--
-- Calls
--

/-- A call on the queue with the given name. -/
inductive Call where
  | openQueue (q : Bytes) (flag : Nat)
  | closeQueue (q : Bytes)
  | registerAsProducer (q identity : Bytes)
  | unregisterProducer (q identity : Bytes)
  | registerAsConsumer (q identity : Bytes)
  | unregisterConsumer (q identity : Bytes)
  | pushTail (q pid : Bytes) (msg : Msg)
  | fetchNth (q cid : Bytes) (index millis : Nat)
  | fetchNext (q cid : Bytes) (millis : Nat)
  | fetchPos (q cid : Bytes)
  | markNth (q cid : Bytes) (index : Nat)
  | markNext (q cid : Bytes)
  | markPos (q cid : Bytes)
  | lists (q : Bytes)

/-- What a call returns. -/
inductive Out where
  | done (ok : Bool)
  | pushed (ok : Bool) (index : Nat)
  | fetched (r : Fetched)
  | position (index : Nat)
  | lists (activeProducers deadProducers : List Producer)
      (activeConsumers deadConsumers : List Consumer)

/-- The queue a call is on. -/
def Call.queue : Call → Bytes
  | .openQueue q _ => q
  | .closeQueue q => q
  | .registerAsProducer q _ => q
  | .unregisterProducer q _ => q
  | .registerAsConsumer q _ => q
  | .unregisterConsumer q _ => q
  | .pushTail q _ _ => q
  | .fetchNth q _ _ _ => q
  | .fetchNext q _ _ => q
  | .fetchPos q _ => q
  | .markNth q _ _ => q
  | .markNext q _ => q
  | .markPos q _ => q
  | .lists q => q

/-- The consumer whose positions a call reads or writes; identities are cut to
255 bytes. -/
def Call.user : Call → Option Bytes
  | .registerAsConsumer _ u => some (u.take 255)
  | .fetchNth _ u _ _ => some (u.take 255)
  | .fetchNext _ u _ => some (u.take 255)
  | .markNth _ u _ => some (u.take 255)
  | .markNext _ u => some (u.take 255)
  | _ => none

/-- A call on a queue handle; `absent` is what it does with a `NULL` one. -/
def withQueue (found : Option Queue) (absent : Prog Out) (f : Queue → Prog (Out × Queue)) :
    Prog (Out × Option Queue) :=
  match found with
  | none => do
    let out ← absent
    return (out, none)
  | some queue => do
    let (out, queue) ← f queue
    return (out, some queue)

/-- A call on the queue that is found under its name. -/
def localStep (usable : Nat → Nat) (found : Option Queue) : Call → Prog (Out × Option Queue)
  | .openQueue q flag => do
    let (ok, queue) ← xmqQueueOpen usable found q flag
    return (.done ok, queue)
  | .closeQueue _ => withQueue found (.ret (.done false)) fun queue =>
    .ret (.done (xmqQueueClose queue).1, (xmqQueueClose queue).2)
  | .registerAsProducer _ identity => withQueue found (.ret (.done false)) fun queue => do
    let (ok, queue) ← xmqRegisterAsProducer usable queue identity
    return (.done ok, queue)
  | .unregisterProducer _ identity => withQueue found (.ret (.done false)) fun queue =>
    .ret (.done (xmqUnregisterProducer queue identity).1, (xmqUnregisterProducer queue identity).2)
  | .registerAsConsumer _ identity => withQueue found (.ret (.done false)) fun queue => do
    let (ok, queue) ← xmqRegisterAsConsumer usable queue identity
    return (.done ok, queue)
  | .unregisterConsumer _ identity => withQueue found (.ret (.done false)) fun queue =>
    .ret (.done (xmqUnregisterConsumer queue identity).1, (xmqUnregisterConsumer queue identity).2)
  | .pushTail _ pid msg => withQueue found (.ret (.pushed false 0)) fun queue => do
    let ((ok, index), queue) ← queuePushTail usable queue pid msg
    return (.pushed ok index, queue)
  | .fetchNth _ cid index millis => withQueue found (.ret (.fetched .error)) fun queue => do
    let (r, queue) ← queueFetchNth usable queue cid index millis
    return (.fetched r, queue)
  | .fetchNext _ cid millis => withQueue found (.fail .memory) fun queue => do
    let (r, queue) ← queueFetchNext usable queue cid millis
    return (.fetched r, queue)
  | .fetchPos _ cid => withQueue found (.ret (.position (u64Size - 1))) fun queue =>
    .ret (.position (queueFetchPos queue cid), queue)
  | .markNth _ cid index => withQueue found (.ret (.position (u64Size - 1))) fun queue => do
    let n ← queueMarkNth usable queue cid index
    return (.position n, queue)
  | .markNext _ cid => withQueue found (.fail .memory) fun queue => do
    let n ← queueMarkNext usable queue cid
    return (.position n, queue)
  | .markPos _ cid => withQueue found (.ret (.position 0)) fun queue =>
    .ret (.position (queueMarkPos queue cid), queue)
  | .lists _ => withQueue found (.ret (.lists [] [] [] [])) fun queue =>
    .ret (.lists queue.activeProducers queue.deadProducers queue.activeConsumers
      queue.deadConsumers, queue)

--
-- The context
--

/-- `xmq_context_t`, without its callbacks and its lock. -/
structure Ctx where
  queues : Bytes → Option Queue
  queueAmount : Int

/-- `xmq_context_init` with `__queues_load`. -/
def xmqContextInit (usable : Nat → Nat) : Prog (Bool × Ctx) := do
  let key ← .lift (getKeyOfQueues usable)
  match ← loadStringList key with
  | none => return (false, ⟨fun _ => none, 0⟩)
  | some (n, names) =>
    return (true, ⟨fun q => if q ∈ names then some (freshQueue q) else none, n⟩)

/-- A queue as a call has left it; a new one is counted. -/
def Ctx.put (ctx : Ctx) (q : Bytes) (queue : Option Queue) : Ctx where
  queues := Function.update ctx.queues q queue
  queueAmount :=
    if (ctx.queues q).isNone && queue.isSome then intSucc ctx.queueAmount else ctx.queueAmount

/-- A context, its medium, and everything its callers have seen, in order. -/
structure Sys (W : Type) where
  ctx : Ctx
  medium : W
  log : List (Call × Out)

/-- One call. -/
def serve {W : Type} (m : Medium W) (usable : Nat → Nat) (st : Sys W) (call : Call) :
    Except Fault (Sys W) :=
  match (localStep usable (st.ctx.queues call.queue) call).run m st.medium with
  | .error e => .error e
  | .ok ((out, queue), w) => .ok ⟨st.ctx.put call.queue queue, w, st.log ++ [(call, out)]⟩

/-- The queue that a call is on. -/
def Sys.found {W : Type} (st : Sys W) (call : Call) : Option Queue := st.ctx.queues call.queue

/-- A context right after `xmq_context_init` on a medium. -/
def Started {W : Type} (m : Medium W) (usable : Nat → Nat) (medium : W) (st : Sys W) : Prop :=
  (xmqContextInit usable).run m medium = .ok ((true, st.ctx), st.medium) ∧ st.log = []

/-- A context on an empty medium. -/
def emptySys : Sys (List (Bytes × Bytes)) where
  ctx := ⟨fun q => if q ∈ ([] : List Bytes) then some (freshQueue q) else none, 0⟩
  medium := []
  log := []

def sampleMsg (b : UInt8) : Msg := ⟨[b], by simp [u64Size]⟩

end Supex.Mixmq
