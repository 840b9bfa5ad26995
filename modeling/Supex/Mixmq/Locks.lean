import Supex.Lib.LockProgram
import Supex.Mixmq.Failures

/-!
# libmixmq — the lock of a context

Every exported function that walks the lists of a context takes its
`node_tree_lock`, which is not recursive. Here are these functions again, with
the lock; `Locked.callProg_run`: while it is not misused, they are the ones of
the model.

The two functions that open a queue and register a consumer drop the lock once
for all of their branches, but take it only in two of three. The registration
of a producer returns from the middle of its locked part.

Main result: `locks_disciplined_iff`.
-/

namespace Supex.Mixmq

open Option
open Lib.LockProgram (run_bind disciplined_of_done run_ofKv erase_bind erase_ofKv run_erase
  disciplined_bind_ret disciplined_ofKv)

open Lib (KvProgram LockProgram LockOutcome)
open Supex.Xmq (comma)

/-- A program over the callbacks and the lock of the context. -/
abbrev LockProg (α : Type) := LockProgram Bytes Bytes Fault α

namespace Locked

--
-- Searching
--

/-- `pthread_mutex_lock(&ctx->node_tree_lock)`. -/
def takeLock : LockProg Unit := .lock (.ret ())

/-- `pthread_mutex_unlock(&ctx->node_tree_lock)`. -/
def dropLock : LockProg Unit := .unlock (.ret ())

/-- A walk along a list under the lock, with what it finds. -/
def search {U : Type} (found : Option U) : LockProg (Option U) := do
  takeLock
  dropLock
  return found

/-- `xmq_queue_is_active`, where `found` is the queue under the name. -/
def xmqQueueIsActive (found : Option Queue) : LockProg (Option Queue) :=
  search (found.filter (·.active))

def xmqQueueExist (found : Option Queue) : LockProg (Option Queue) := do
  match ← xmqQueueIsActive found with
  | some queue => return some queue
  | none => search (found.filter (!·.active))

section Users

variable {U : Type} (name : U → Bytes)

/-- A producer or consumer in its active list. -/
def userIsActive (active : List U) (identity : Bytes) : LockProg (Option U) :=
  if identity = [] then .ret none else search (active.find? fun u => name u = identity)

/-- A producer or consumer in its active list, else in the dead one. -/
def userExist (active dead : List U) (identity : Bytes) : LockProg (Option U) :=
  if identity = [] then .ret none
  else do
    match ← userIsActive name active identity with
    | some u => return some u
    | none => search (dead.find? fun u => name u = identity)

end Users

def xmqProducerIsActive (queue : Queue) (identity : Bytes) : LockProg (Option Producer) :=
  userIsActive Producer.identity queue.activeProducers identity

def xmqProducerExist (queue : Queue) (identity : Bytes) : LockProg (Option Producer) :=
  userExist Producer.identity queue.activeProducers queue.deadProducers identity

def xmqConsumerIsActive (queue : Queue) (identity : Bytes) : LockProg (Option Consumer) :=
  userIsActive Consumer.identity queue.activeConsumers identity

def xmqConsumerExist (queue : Queue) (identity : Bytes) : LockProg (Option Consumer) :=
  userExist Consumer.identity queue.activeConsumers queue.deadConsumers identity

--
-- Queues
--

/-- `xmq_context_term`: the open queues, and what the callback that frees the
private data of the user returns, if there is any. -/
def xmqContextTerm (activeQueues : List Queue) (pvtFree : Option Int) : LockProg Bool := do
  takeLock
  if activeQueues ≠ [] then do
    dropLock
    return false
  else if pvtFree = some (-1) then do
    dropLock
    return false
  else do
    dropLock
    return true

/-- The three branches of `xmq_queue_open`; only two of them take the lock. -/
def queueOfOpen (usable : Nat → Nat) (found : Option Queue) (name : Bytes) :
    LockProg (Bool × Option Queue) := do
  match ← xmqQueueIsActive found with
  | some queue => return (true, some queue)
  | none =>
    match ← xmqQueueExist found with
    | some queue =>
      takeLock
      let (ok, queue) ← .ofKv (queueActive usable queue)
      return (ok, some queue)
    | none =>
      takeLock
      .ofKv (queueNewActiveLinked usable name)

def xmqQueueOpen (usable : Nat → Nat) (found : Option Queue) (name : Bytes) (flag : Nat) :
    LockProg (Bool × Option Queue) :=
  if 256 ≤ name.length then .ret (false, found)
  else do
    let (ok, queue) ← queueOfOpen usable found name
    dropLock
    return (ok, if ok then queue.map fun queue => { queue with flag := flag } else queue)

def xmqQueueClose (queue : Queue) : LockProg (Bool × Queue) := do
  match ← xmqQueueIsActive (some queue) with
  | some _ =>
    takeLock
    if queue.activeProducers ≠ [] then do
      dropLock
      return (false, queue)
    else if queue.activeConsumers ≠ [] then do
      dropLock
      return (false, queue)
    else do
      dropLock
      return (true, { queue with active := false, deadProducers := [], deadConsumers := [] })
  | none =>
    match ← xmqQueueExist (some queue) with
    | some _ => return (true, queue)
    | none => return (false, queue)

--
-- Producers and consumers
--

def xmqRegisterAsProducer (usable : Nat → Nat) (queue : Queue) (identity : Bytes) :
    LockProg (Bool × Queue) :=
  if identity = [] then .ret (false, queue)
  else do
    match ← xmqProducerIsActive queue identity with
    | some _ => return (true, queue)
    | none =>
      match ← xmqProducerExist queue identity with
      | some producer =>
        takeLock
        dropLock
        return (true, { queue with
          deadProducers := queue.deadProducers.eraseP (·.identity = identity)
          activeProducers := queue.activeProducers ++ [producer] })
      | none =>
        takeLock
        let producer : Producer := ⟨identity.take 255⟩
        let key ← .ofKv (.lift (getKeyOfProducers usable queue.name))
        let ok ← .ofKv (writeBackAppend usable key producer.identity [comma])
        -- the early return keeps the lock
        if !ok then return (false, queue)
        else do
          dropLock
          return (true, { queue with
            activeProducers := queue.activeProducers ++ [producer]
            producerAmount := intSucc queue.producerAmount })

def xmqUnregisterProducer (queue : Queue) (identity : Bytes) : LockProg (Bool × Queue) :=
  if identity = [] then .ret (false, queue)
  else do
    match ← xmqProducerIsActive queue identity with
    | none => return (true, queue)
    | some producer =>
      takeLock
      dropLock
      return (true, { queue with
        activeProducers := queue.activeProducers.eraseP (·.identity = identity)
        deadProducers := queue.deadProducers ++ [producer] })

/-- The three branches of `xmq_register_as_consumer`. -/
def consumerOfRegister (usable : Nat → Nat) (queue : Queue) (identity : Bytes) :
    LockProg (Bool × Queue) := do
  match ← xmqConsumerIsActive queue identity with
  | some _ => return (true, queue)
  | none =>
    match ← xmqConsumerExist queue identity with
    | some consumer =>
      takeLock
      .ofKv (consumerActive usable queue identity consumer)
    | none =>
      takeLock
      .ofKv (consumerNewActive usable queue identity)

def xmqRegisterAsConsumer (usable : Nat → Nat) (queue : Queue) (identity : Bytes) :
    LockProg (Bool × Queue) :=
  if identity = [] then .ret (false, queue)
  else do
    let r ← consumerOfRegister usable queue identity
    dropLock
    return r

def xmqUnregisterConsumer (queue : Queue) (identity : Bytes) : LockProg (Bool × Queue) :=
  if identity = [] then .ret (false, queue)
  else do
    match ← xmqConsumerIsActive queue identity with
    | none => return (true, queue)
    | some consumer =>
      takeLock
      dropLock
      return (true, { queue with
        activeConsumers := queue.activeConsumers.eraseP (·.identity = identity)
        deadConsumers := queue.deadConsumers ++ [consumer] })

--
-- Calls
--

/-- A call on a queue handle that may be `NULL`. -/
def onQueue (found : Option Queue) (f : Queue → LockProg (Bool × Queue)) :
    LockProg (Out × Option Queue) :=
  match found with
  | none => .ret (.done false, none)
  | some queue => do
    let (ok, queue) ← f queue
    return (.done ok, some queue)

/-- A call on the queue under its name. Pushing, fetching and marking do not
take this lock. -/
def callProg (usable : Nat → Nat) (found : Option Queue) : Call → LockProg (Out × Option Queue)
  | .openQueue q flag => do
    let (ok, queue) ← xmqQueueOpen usable found q flag
    return (.done ok, queue)
  | .closeQueue _ => onQueue found xmqQueueClose
  | .registerAsProducer _ identity =>
    onQueue found fun queue => xmqRegisterAsProducer usable queue identity
  | .unregisterProducer _ identity =>
    onQueue found fun queue => xmqUnregisterProducer queue identity
  | .registerAsConsumer _ identity =>
    onQueue found fun queue => xmqRegisterAsConsumer usable queue identity
  | .unregisterConsumer _ identity =>
    onQueue found fun queue => xmqUnregisterConsumer queue identity
  | call => .ofKv (localStep usable found call)

end Locked

/-- Every exported function. -/
inductive Operation where
  | contextInit
  | contextTerm (activeQueues : List Queue) (pvtFree : Option Int)
  | queueIsActive
  | queueExist
  | producerIsActive (identity : Bytes)
  | producerExist (identity : Bytes)
  | consumerIsActive (identity : Bytes)
  | consumerExist (identity : Bytes)
  | call (call : Call)

/-- The function on the queue `found`, with what it returns. -/
def Operation.prog (usable : Nat → Nat) (found : Option Queue) :
    Operation → LockProg (Out × Option Queue)
  | .contextInit => do
    let (ok, _) ← .ofKv (xmqContextInit usable)
    return (.done ok, found)
  | .contextTerm activeQueues pvtFree => do
    let ok ← Locked.xmqContextTerm activeQueues pvtFree
    return (.done ok, found)
  | .queueIsActive => do
    let queue ← Locked.xmqQueueIsActive found
    return (.done queue.isSome, found)
  | .queueExist => do
    let queue ← Locked.xmqQueueExist found
    return (.done queue.isSome, found)
  | .producerIsActive identity => Locked.onQueue found fun queue => do
    let producer ← Locked.xmqProducerIsActive queue identity
    return (producer.isSome, queue)
  | .producerExist identity => Locked.onQueue found fun queue => do
    let producer ← Locked.xmqProducerExist queue identity
    return (producer.isSome, queue)
  | .consumerIsActive identity => Locked.onQueue found fun queue => do
    let consumer ← Locked.xmqConsumerIsActive queue identity
    return (consumer.isSome, queue)
  | .consumerExist identity => Locked.onQueue found fun queue => do
    let consumer ← Locked.xmqConsumerExist queue identity
    return (consumer.isSome, queue)
  | .call c => Locked.callProg usable found c

--
-- Discipline
--

section Discipline

variable {W : Type} (m : Medium W) (usable : Nat → Nat)

/-- The call opens no open queue, registers no active consumer again, and does
not fail to append a new producer to the stored list. -/
def Operation.Balanced (found : Option Queue) (w : W) : Operation → Prop
  | .call (.openQueue name _) => name.length < 256 →
    ∀ queue, found = some queue → queue.active = false
  | .call (.registerAsConsumer _ identity) => identity ≠ [] →
    ∀ queue, found = some queue →
      queue.activeConsumers.find? (·.identity = identity) = none
  | .call (.registerAsProducer _ identity) => identity ≠ [] →
    ∀ queue, found = some queue → xmqProducerExist queue identity = none → ∀ w',
      (writeBackAppend usable (producersKey queue.name) (identity.take 255) [comma]).run m w ≠
        .ok (false, w')
  | _ => True

end Discipline

namespace Locked

variable {W : Type} {m : Medium W} {usable : Nat → Nat}

theorem run_search {U : Type} (found : Option U) (w : W) :
    (search found).run m false w = .done found w false := rfl

theorem run_queueIsActive (found : Option Queue) (w : W) :
    (xmqQueueIsActive found).run m false w = .done (found.filter (·.active)) w false := rfl

theorem run_queueExist (found : Option Queue) (w : W) :
    (xmqQueueExist found).run m false w = .done found w false := by
  unfold xmqQueueExist
  rw [run_bind, run_queueIsActive]
  cases found with
  | none => rfl
  | some queue =>
    cases hactive : queue.active with
    | true =>
      rw [filter_some, if_pos hactive]
      rfl
    | false =>
      rw [filter_some, if_neg (by rw [hactive]; decide)]
      dsimp only
      rw [run_search, filter_some, if_pos (by rw [hactive]; rfl)]

theorem run_userIsActive {U : Type} (name : U → Bytes) (active : List U) {identity : Bytes}
    (hne : identity ≠ []) (w : W) :
    (userIsActive name active identity).run m false w =
      .done (active.find? fun u => name u = identity) w false := by
  rw [userIsActive, if_neg hne, run_search]

theorem run_userExist {U : Type} (name : U → Bytes) (active dead : List U) {identity : Bytes}
    (hne : identity ≠ []) (w : W) :
    (userExist name active dead identity).run m false w =
      .done ((active.find? fun u => name u = identity).or
        (dead.find? fun u => name u = identity)) w false := by
  rw [userExist, if_neg hne, run_bind, run_userIsActive name active hne]
  cases active.find? fun u => name u = identity <;> rfl

theorem run_userIsActive_free {U : Type} (name : U → Bytes) (active : List U) (identity : Bytes)
    (w : W) : ∃ u, (userIsActive name active identity).run m false w = .done u w false := by
  by_cases hne : identity = []
  · exact ⟨none, by rw [userIsActive, if_pos hne]; rfl⟩
  · exact ⟨_, run_userIsActive name active hne w⟩

theorem run_userExist_free {U : Type} (name : U → Bytes) (active dead : List U) (identity : Bytes)
    (w : W) : ∃ u, (userExist name active dead identity).run m false w = .done u w false := by
  by_cases hne : identity = []
  · exact ⟨none, by rw [userExist, if_pos hne]; rfl⟩
  · exact ⟨_, run_userExist name active dead hne w⟩

theorem disciplined_onQueue (found : Option Queue) (f : Queue → LockProg (Bool × Queue)) (w : W) :
    (onQueue found f).Disciplined m w ↔
      ∀ queue, found = some queue → (f queue).Disciplined m w := by
  cases found with
  | none => exact ⟨fun _ => nofun, fun _ => rfl⟩
  | some queue =>
    have hrun : (onQueue (some queue) f).Disciplined m w ↔ (f queue).Disciplined m w := by
      unfold LockProgram.Disciplined onQueue
      rw [run_bind]
      cases (f queue).run m false w <;> rfl
    rw [hrun]
    constructor
    · rintro h _ ⟨⟩
      exact h
    · intro h
      exact h queue rfl

theorem disciplined_contextTerm (activeQueues : List Queue) (pvtFree : Option Int) (w : W) :
    (xmqContextTerm activeQueues pvtFree).Disciplined m w := by
  by_cases hactive : activeQueues ≠ []
  · exact disciplined_of_done (a := false) (by
      rw [xmqContextTerm, if_pos hactive]
      rfl)
  · by_cases hpvt : pvtFree = some (-1)
    · exact disciplined_of_done (a := false) (by
        rw [xmqContextTerm, if_neg hactive, if_pos hpvt]
        rfl)
    · exact disciplined_of_done (a := true) (by
        rw [xmqContextTerm, if_neg hactive, if_neg hpvt]
        rfl)

theorem disciplined_queueClose (queue : Queue) (w : W) :
    (xmqQueueClose queue).Disciplined m w := by
  unfold xmqQueueClose LockProgram.Disciplined
  rw [run_bind, run_queueIsActive]
  cases hactive : queue.active with
  | true =>
    rw [filter_some, if_pos hactive]
    by_cases hps : queue.activeProducers ≠ []
    · rw [if_pos hps]
      rfl
    · rw [if_neg hps]
      by_cases hcs : queue.activeConsumers ≠ []
      · rw [if_pos hcs]
        rfl
      · rw [if_neg hcs]
        rfl
  | false =>
    rw [filter_some, if_neg (by rw [hactive]; decide)]
    dsimp only
    rw [run_bind, run_queueExist]
    rfl

theorem disciplined_unregisterProducer (queue : Queue) (identity : Bytes) (w : W) :
    (xmqUnregisterProducer queue identity).Disciplined m w := by
  unfold xmqUnregisterProducer LockProgram.Disciplined
  by_cases hne : identity = []
  · rw [if_pos hne]
    rfl
  · obtain ⟨producer, hrun⟩ :=
      @run_userIsActive_free W m _ Producer.identity queue.activeProducers identity w
    rw [if_neg hne, run_bind, xmqProducerIsActive, hrun]
    cases producer <;> rfl

theorem disciplined_unregisterConsumer (queue : Queue) (identity : Bytes) (w : W) :
    (xmqUnregisterConsumer queue identity).Disciplined m w := by
  unfold xmqUnregisterConsumer LockProgram.Disciplined
  by_cases hne : identity = []
  · rw [if_pos hne]
    rfl
  · obtain ⟨consumer, hrun⟩ :=
      @run_userIsActive_free W m _ Consumer.identity queue.activeConsumers identity w
    rw [if_neg hne, run_bind, xmqConsumerIsActive, hrun]
    cases consumer <;> rfl

theorem disciplined_queueOpen_iff (found : Option Queue) (name : Bytes) (flag : Nat) (w : W) :
    (xmqQueueOpen usable found name flag).Disciplined m w ↔
      (name.length < 256 → ∀ queue, found = some queue → queue.active = false) := by
  unfold xmqQueueOpen LockProgram.Disciplined
  by_cases hlong : 256 ≤ name.length
  · rw [if_pos hlong]
    constructor
    · intro _ hshort
      omega
    · intro _
      rfl
  rw [if_neg hlong, run_bind, queueOfOpen, run_bind, run_queueIsActive]
  cases found with
  | none =>
    dsimp only [filter_none]
    rw [run_bind, run_queueExist]
    dsimp only
    rw [run_bind]
    dsimp only [takeLock, LockProgram.run]
    rw [if_neg (by decide)]
    dsimp only
    rw [run_ofKv]
    refine ⟨fun _ => nofun, fun _ => ?_⟩
    rcases (queueNewActiveLinked usable name).run m w with e | ⟨⟨ok, queue⟩, w'⟩ <;> trivial
  | some queue =>
    cases hactive : queue.active with
    | true =>
      -- the queue is open already: the lock is not held
      rw [filter_some, if_pos hactive]
      constructor
      · intro h
        exact h.elim
      · intro h
        exact nomatch hactive.symm.trans (h (by omega) queue rfl)
    | false =>
      rw [filter_some, if_neg (by rw [hactive]; decide)]
      dsimp only
      rw [run_bind, run_queueExist]
      dsimp only
      rw [run_bind]
      dsimp only [takeLock, LockProgram.run]
      rw [if_neg (by decide)]
      dsimp only
      rw [run_bind, run_ofKv]
      constructor
      · rintro _ _ _ ⟨⟩
        exact hactive
      · intro _
        rcases (queueActive usable queue).run m w with e | ⟨⟨ok, queue'⟩, w'⟩ <;> trivial

theorem disciplined_registerAsConsumer_iff (queue : Queue) (identity : Bytes) (w : W) :
    (xmqRegisterAsConsumer usable queue identity).Disciplined m w ↔
      (identity ≠ [] → queue.activeConsumers.find? (·.identity = identity) = none) := by
  unfold xmqRegisterAsConsumer LockProgram.Disciplined
  by_cases hne : identity = []
  · rw [if_pos hne]
    constructor
    · intro _ hne'
      exact absurd hne hne'
    · intro _
      rfl
  rw [if_neg hne, run_bind, consumerOfRegister, run_bind,
    xmqConsumerIsActive, run_userIsActive _ _ hne]
  cases hactive : queue.activeConsumers.find? (·.identity = identity) with
  | some consumer =>
    constructor
    · intro h
      exact h.elim
    · intro h
      exact nomatch h hne
  | none =>
    dsimp only
    rw [run_bind, xmqConsumerExist, run_userExist _ _ _ hne, hactive, none_or]
    refine ⟨fun _ _ => rfl, fun _ => ?_⟩
    cases queue.deadConsumers.find? (·.identity = identity) with
    | some consumer =>
      dsimp only
      rw [run_bind]
      dsimp only [takeLock, LockProgram.run]
      rw [if_neg (by decide)]
      dsimp only
      rw [run_ofKv]
      rcases (consumerActive usable queue identity consumer).run m w with e | ⟨r, w'⟩ <;> trivial
    | none =>
      dsimp only
      rw [run_bind]
      dsimp only [takeLock, LockProgram.run]
      rw [if_neg (by decide)]
      dsimp only
      rw [run_ofKv]
      rcases (consumerNewActive usable queue identity).run m w with e | ⟨r, w'⟩ <;> trivial

/-- The registration of a producer keeps the lock when the list cannot be
written back. -/
theorem disciplined_registerAsProducer_iff (hheap : ∀ n, n ≤ usable n) (queue : Queue)
    (identity : Bytes) (w : W) :
    (xmqRegisterAsProducer usable queue identity).Disciplined m w ↔
      (identity ≠ [] → Mixmq.xmqProducerExist queue identity = none → ∀ w',
        (writeBackAppend usable (producersKey queue.name) (identity.take 255) [comma]).run m w ≠
          .ok (false, w')) := by
  unfold xmqRegisterAsProducer LockProgram.Disciplined
  by_cases hne : identity = []
  · rw [if_pos hne]
    constructor
    · intro _ hne'
      exact absurd hne hne'
    · intro _
      rfl
  rw [if_neg hne, run_bind, xmqProducerIsActive, run_userIsActive _ _ hne]
  cases hactive : queue.activeProducers.find? (·.identity = identity) with
  | some producer =>
    have hexist : Mixmq.xmqProducerExist queue identity ≠ none := by
      rw [Mixmq.xmqProducerExist, hactive]
      nofun
    constructor
    · intro _ _ hnone
      exact absurd hnone hexist
    · intro _
      rfl
  | none =>
    dsimp only
    rw [run_bind, xmqProducerExist, run_userExist _ _ _ hne, hactive, none_or]
    cases hdead : queue.deadProducers.find? (·.identity = identity) with
    | some producer =>
      have hexist : Mixmq.xmqProducerExist queue identity ≠ none := by
        rw [Mixmq.xmqProducerExist, hactive, hdead]
        nofun
      constructor
      · intro _ _ hnone
        exact absurd hnone hexist
      · intro _
        rfl
    | none =>
      have hexist : Mixmq.xmqProducerExist queue identity = none := by
        rw [Mixmq.xmqProducerExist, hactive, hdead]
        rfl
      have hkey : getKeyOfProducers usable queue.name = .ok (producersKey queue.name) :=
        stringAppend3rd_two hheap ..
      dsimp only
      rw [run_bind]
      dsimp only [takeLock, LockProgram.run]
      rw [if_neg (by decide)]
      dsimp only
      rw [run_bind, run_ofKv, hkey]
      dsimp only [KvProgram.lift, KvProgram.run]
      rw [run_bind, run_ofKv]
      rcases (writeBackAppend usable (producersKey queue.name) (identity.take 255) [comma]).run m w
        with e | ⟨- | -, w'⟩
      · exact ⟨fun _ _ _ => nofun, fun _ => trivial⟩
      · constructor
        · intro h
          exact nomatch h
        · intro h
          exact absurd rfl (h hne hexist w')
      · exact ⟨fun _ _ _ => nofun, fun _ => rfl⟩

--
-- Without the lock
--

theorem erase_search {U : Type} (found : Option U) : (search found).erase = .ret found := rfl

theorem erase_queueExist (found : Option Queue) : (xmqQueueExist found).erase = .ret found := by
  unfold xmqQueueExist
  rw [erase_bind, xmqQueueIsActive, erase_search]
  cases found with
  | none => rfl
  | some queue =>
    cases hactive : queue.active with
    | true =>
      rw [filter_some, if_pos hactive]
      rfl
    | false =>
      rw [filter_some, if_neg (by rw [hactive]; decide), filter_some,
        if_pos (by rw [hactive]; rfl)]
      rfl

theorem erase_userExist {U : Type} (name : U → Bytes) (active dead : List U) {identity : Bytes}
    (hne : identity ≠ []) :
    (userExist name active dead identity).erase = .ret
      ((active.find? fun u => name u = identity).or (dead.find? fun u => name u = identity)) := by
  rw [userExist, if_neg hne, userIsActive, if_neg hne]
  cases active.find? fun u => name u = identity <;> rfl

theorem erase_takeLock {α : Type} (p : Prog α) :
    (takeLock >>= fun _ => .ofKv p : LockProg α).erase = p := erase_ofKv p

theorem erase_queueOfOpen (found : Option Queue) (name : Bytes) :
    (queueOfOpen usable found name).erase =
      match found with
      | some queue =>
        if queue.active then .ret (true, some queue)
        else queueActive usable queue >>= fun r => .ret (r.1, some r.2)
      | none => queueNewActiveLinked usable name := by
  rw [queueOfOpen, erase_bind, xmqQueueIsActive, erase_search]
  cases found with
  | none =>
    show (xmqQueueExist none >>= _ : LockProg _).erase = _
    rw [erase_bind, erase_queueExist]
    exact erase_takeLock _
  | some queue =>
    cases hactive : queue.active with
    | true =>
      rw [filter_some, if_pos hactive]
      dsimp only
      rw [if_pos hactive]
      rfl
    | false =>
      rw [filter_some, if_neg (by rw [hactive]; decide)]
      dsimp only
      rw [if_neg (by rw [hactive]; decide)]
      show (xmqQueueExist (some queue) >>= _ : LockProg _).erase = _
      rw [erase_bind, erase_queueExist]
      show (LockProgram.ofKv (queueActive usable queue) >>= _ : LockProg _).erase = _
      rw [erase_bind, erase_ofKv]
      rfl

theorem erase_queueOpen (found : Option Queue) (name : Bytes) (flag : Nat) :
    (xmqQueueOpen usable found name flag).erase = xmqQueueOpenLinked usable found name flag := by
  unfold xmqQueueOpen xmqQueueOpenLinked
  by_cases hlong : 256 ≤ name.length
  · rw [if_pos hlong, if_pos hlong]
    rfl
  rw [if_neg hlong, if_neg hlong, erase_bind, erase_queueOfOpen]
  cases found with
  | none => rfl
  | some queue =>
    dsimp only
    split
    · rfl
    · rw [KvProgram.bind_assoc]
      refine congrArg _ (funext fun r => ?_)
      rcases r with ⟨- | -, queue'⟩ <;> rfl

theorem erase_registerAsProducer (queue : Queue) (identity : Bytes) :
    (xmqRegisterAsProducer usable queue identity).erase =
      Mixmq.xmqRegisterAsProducer usable queue identity := by
  unfold xmqRegisterAsProducer Mixmq.xmqRegisterAsProducer
  by_cases hne : identity = []
  · rw [if_pos hne, if_pos hne]
    rfl
  rw [if_neg hne, if_neg hne, erase_bind, xmqProducerIsActive, userIsActive,
    if_neg hne, erase_search]
  cases hactive : queue.activeProducers.find? (·.identity = identity) with
  | some producer => rfl
  | none =>
    show (xmqProducerExist queue identity >>= _ : LockProg _).erase = _
    rw [erase_bind, xmqProducerExist, erase_userExist _ _ _ hne, hactive,
      none_or]
    cases queue.deadProducers.find? (·.identity = identity) with
    | some producer => rfl
    | none =>
      show (LockProgram.ofKv (KvProgram.lift (getKeyOfProducers usable queue.name)) >>=
        _ : LockProg _).erase = _
      rw [erase_bind, erase_ofKv]
      refine congrArg _ (funext fun key => ?_)
      rw [erase_bind, erase_ofKv]
      refine congrArg _ (funext fun ok => ?_)
      cases ok <;> rfl

theorem erase_unregisterProducer (queue : Queue) (identity : Bytes) :
    (xmqUnregisterProducer queue identity).erase =
      .ret (Mixmq.xmqUnregisterProducer queue identity) := by
  unfold xmqUnregisterProducer Mixmq.xmqUnregisterProducer
  by_cases hne : identity = []
  · rw [if_pos hne, if_pos hne]
    rfl
  rw [if_neg hne, if_neg hne, erase_bind, xmqProducerIsActive, userIsActive,
    if_neg hne, erase_search]
  cases queue.activeProducers.find? (·.identity = identity) <;> rfl

theorem erase_registerAsConsumer (queue : Queue) (identity : Bytes) :
    (xmqRegisterAsConsumer usable queue identity).erase =
      Mixmq.xmqRegisterAsConsumer usable queue identity := by
  unfold xmqRegisterAsConsumer Mixmq.xmqRegisterAsConsumer
  by_cases hne : identity = []
  · rw [if_pos hne, if_pos hne]
    rfl
  have hret : ∀ p : Prog (Bool × Queue), (p >>= fun r =>
      (dropLock >>= fun _ => .ret r : LockProg (Bool × Queue)).erase) = p := by
    intro p
    induction p with
    | ret r => rfl
    | fail e => rfl
    | get key next ih => exact congrArg (KvProgram.get key) (funext ih)
    | put pairs next ih => exact congrArg (KvProgram.put pairs) (funext ih)
  rw [if_neg hne, if_neg hne, erase_bind]
  refine (hret _).trans ?_
  rw [consumerOfRegister, erase_bind, xmqConsumerIsActive, userIsActive, if_neg hne,
    erase_search]
  cases hactive : queue.activeConsumers.find? (·.identity = identity) with
  | some consumer => rfl
  | none =>
    show (xmqConsumerExist queue identity >>= _ : LockProg _).erase = _
    rw [erase_bind, xmqConsumerExist, erase_userExist _ _ _ hne, hactive,
      none_or]
    cases queue.deadConsumers.find? (·.identity = identity) with
    | some consumer => exact erase_takeLock _
    | none => exact erase_takeLock _

theorem erase_unregisterConsumer (queue : Queue) (identity : Bytes) :
    (xmqUnregisterConsumer queue identity).erase =
      .ret (Mixmq.xmqUnregisterConsumer queue identity) := by
  unfold xmqUnregisterConsumer Mixmq.xmqUnregisterConsumer
  by_cases hne : identity = []
  · rw [if_pos hne, if_pos hne]
    rfl
  rw [if_neg hne, if_neg hne, erase_bind, xmqConsumerIsActive, userIsActive,
    if_neg hne, erase_search]
  cases queue.activeConsumers.find? (·.identity = identity) <;> rfl

theorem erase_queueClose (queue : Queue) :
    (xmqQueueClose queue).erase = .ret (Mixmq.xmqQueueClose queue) := by
  unfold xmqQueueClose Mixmq.xmqQueueClose
  rw [erase_bind, xmqQueueIsActive, erase_search]
  cases hactive : queue.active with
  | true =>
    rw [filter_some, if_pos hactive, Bool.not_true, if_neg Bool.false_ne_true]
    by_cases hps : queue.activeProducers ≠ []
    · rw [if_pos hps, if_pos hps]
      rfl
    · rw [if_neg hps, if_neg hps]
      by_cases hcs : queue.activeConsumers ≠ []
      · rw [if_pos hcs, if_pos hcs]
        rfl
      · rw [if_neg hcs, if_neg hcs]
        rfl
  | false =>
    rw [filter_some, if_neg (by rw [hactive]; decide), Bool.not_false, if_pos rfl]
    show (xmqQueueExist (some queue) >>= _ : LockProg _).erase = _
    rw [erase_bind, erase_queueExist]
    rfl

/-- The call on the whole queue, with a queue that was freed left in its list. -/
def localStepLinked (usable : Nat → Nat) (found : Option Queue) :
    Call → Prog (Out × Option Queue)
  | .openQueue q flag => do
    let (ok, queue) ← xmqQueueOpenLinked usable found q flag
    return (.done ok, queue)
  | call => localStep usable found call

theorem erase_callProg (found : Option Queue) (call : Call) :
    (callProg usable found call).erase = localStepLinked usable found call := by
  cases call with
  | openQueue q flag =>
    rw [callProg, erase_bind, erase_queueOpen]
    rfl
  | closeQueue q =>
    cases found with
    | none => rfl
    | some queue =>
      show (xmqQueueClose queue >>= _ : LockProg _).erase = _
      rw [erase_bind, erase_queueClose]
      rfl
  | registerAsProducer q identity =>
    cases found with
    | none => rfl
    | some queue =>
      show (xmqRegisterAsProducer usable queue identity >>= _ : LockProg _).erase = _
      rw [erase_bind, erase_registerAsProducer]
      show _ = Mixmq.xmqRegisterAsProducer usable queue identity >>= _ >>= _
      rw [KvProgram.bind_assoc]
      rfl
  | unregisterProducer q identity =>
    cases found with
    | none => rfl
    | some queue =>
      show (xmqUnregisterProducer queue identity >>= _ : LockProg _).erase = _
      rw [erase_bind, erase_unregisterProducer]
      rfl
  | registerAsConsumer q identity =>
    cases found with
    | none => rfl
    | some queue =>
      show (xmqRegisterAsConsumer usable queue identity >>= _ : LockProg _).erase = _
      rw [erase_bind, erase_registerAsConsumer]
      show _ = Mixmq.xmqRegisterAsConsumer usable queue identity >>= _ >>= _
      rw [KvProgram.bind_assoc]
      rfl
  | unregisterConsumer q identity =>
    cases found with
    | none => rfl
    | some queue =>
      show (xmqUnregisterConsumer queue identity >>= _ : LockProg _).erase = _
      rw [erase_bind, erase_unregisterConsumer]
      rfl
  | _ => exact erase_ofKv _

end Locked

--
-- The exported functions
--

/-- **The lock.** A function takes the lock only when it is free, drops it only
when it holds it, and returns without it, if and only if it is balanced. -/
theorem locks_disciplined_iff {W : Type} (m : Medium W) {usable : Nat → Nat}
    (hheap : ∀ n, n ≤ usable n) (found : Option Queue) (operation : Operation) (w : W) :
    (operation.prog usable found).Disciplined m w ↔ operation.Balanced m usable found w := by
  have hsearch : ∀ {U : Type} (p : Queue → LockProg (Option U)),
      (∀ queue, ∃ u, (p queue).run m false w = .done u w false) →
      (Locked.onQueue found fun queue => do
        let u ← p queue
        return (u.isSome, queue)).Disciplined m w := by
    intro U p hp
    rw [Locked.disciplined_onQueue]
    intro queue _
    obtain ⟨u, hrun⟩ := hp queue
    exact (disciplined_bind_ret ..).mpr (disciplined_of_done hrun)
  cases operation with
  | contextInit =>
    refine iff_of_true ?_ trivial
    exact (disciplined_bind_ret ..).mpr (disciplined_ofKv ..)
  | contextTerm activeQueues pvtFree =>
    refine iff_of_true ?_ trivial
    exact (disciplined_bind_ret ..).mpr (Locked.disciplined_contextTerm ..)
  | queueIsActive =>
    refine iff_of_true ?_ trivial
    exact (disciplined_bind_ret ..).mpr
      (disciplined_of_done (Locked.run_queueIsActive found w))
  | queueExist =>
    refine iff_of_true ?_ trivial
    exact (disciplined_bind_ret ..).mpr
      (disciplined_of_done (Locked.run_queueExist found w))
  | producerIsActive identity =>
    exact iff_of_true (hsearch _ fun queue => Locked.run_userIsActive_free ..) trivial
  | producerExist identity =>
    exact iff_of_true (hsearch _ fun queue => Locked.run_userExist_free ..) trivial
  | consumerIsActive identity =>
    exact iff_of_true (hsearch _ fun queue => Locked.run_userIsActive_free ..) trivial
  | consumerExist identity =>
    exact iff_of_true (hsearch _ fun queue => Locked.run_userExist_free ..) trivial
  | call call =>
    cases call with
    | openQueue q flag =>
      exact (disciplined_bind_ret ..).trans (Locked.disciplined_queueOpen_iff ..)
    | closeQueue q =>
      refine iff_of_true ?_ trivial
      exact (Locked.disciplined_onQueue ..).mpr fun queue _ => Locked.disciplined_queueClose ..
    | registerAsProducer q identity =>
      refine (Locked.disciplined_onQueue ..).trans ?_
      simp only [Locked.disciplined_registerAsProducer_iff hheap]
      constructor
      · intro h hne queue hfound
        exact h queue hfound hne
      · intro h queue hfound hne
        exact h hne queue hfound
    | unregisterProducer q identity =>
      refine iff_of_true ?_ trivial
      exact (Locked.disciplined_onQueue ..).mpr fun queue _ =>
        Locked.disciplined_unregisterProducer ..
    | registerAsConsumer q identity =>
      refine (Locked.disciplined_onQueue ..).trans ?_
      simp only [Locked.disciplined_registerAsConsumer_iff]
      constructor
      · intro h hne queue hfound
        exact h queue hfound hne
      · intro h queue hfound hne
        exact h hne queue hfound
    | unregisterConsumer q identity =>
      refine iff_of_true ?_ trivial
      exact (Locked.disciplined_onQueue ..).mpr fun queue _ =>
        Locked.disciplined_unregisterConsumer ..
    | _ => exact iff_of_true (disciplined_ofKv ..) trivial

/-- A closed queue that is opened. -/
theorem locks_disciplined_open :
    ((Operation.call (.openQueue (ascii "q") 0)).prog glibcUsable
      (some (freshQueue (ascii "q")))).Disciplined Lib.pairsMedium [] :=
  (locks_disciplined_iff Lib.pairsMedium le_glibcUsable (some (freshQueue (ascii "q")))
    (.call (.openQueue (ascii "q") 0)) []).mpr fun _ _ h => Option.some.inj h ▸ rfl

/-- An open queue that is opened again: the lock is dropped without being held. -/
theorem not_locks_disciplined_reopen :
    ¬((Operation.call (.openQueue (ascii "q") 0)).prog glibcUsable
      (some { freshQueue (ascii "q") with active := true })).Disciplined Lib.pairsMedium
        ([] : List (Bytes × Bytes)) := by
  have hrun : ((Operation.call (.openQueue (ascii "q") 0)).prog glibcUsable
      (some { freshQueue (ascii "q") with active := true })).run Lib.pairsMedium false
        ([] : List (Bytes × Bytes)) = .misuse := rfl
  rw [LockProgram.Disciplined, hrun]
  exact id

end Supex.Mixmq
