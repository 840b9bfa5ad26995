import Supex.Mixmq.Positions

/-!
# libmixmq — calls that return `NULL`

`xmq_queue_open`, `xmq_register_as_producer` and `xmq_register_as_consumer`
change the context and the store in several steps, each of which may fail. Only
the registration of a producer cleans up behind every failure: a new queue that
cannot be activated stays in the list of dead queues, an old one has lost its
counts or gained its producers, and a consumer whose positions cannot be
written stays in the stored list.

Main result: `no_trace_iff`.
-/

namespace Supex.Mixmq

open List
open Lib.KvProgram (run_do ok_inj run_do_ok run_lift_ok)

open Lib (KvProgram FaithfulMedium LawfulMedium putAll)
open Function (update update_of_ne update_self)
open Supex.Xmq (comma)

--
-- A queue that stays linked
--

/-- `__queue_new_active`, with the queue that is found under the name afterwards.
When the activation fails, it is the one that was freed. -/
def queueNewActiveLinked (usable : Nat → Nat) (name : Bytes) : Prog (Bool × Option Queue) := do
  let (ok, queue) ← queueActive usable (freshQueue name)
  if !ok then return (false, some queue)
  else
    let key ← .lift (getKeyOfQueues usable)
    let ok ← writeBackAppend usable key name [comma]
    return if ok then (true, some queue) else (false, none)

/-- `xmq_queue_open`, with that queue. -/
def xmqQueueOpenLinked (usable : Nat → Nat) (found : Option Queue) (name : Bytes) (flag : Nat) :
    Prog (Bool × Option Queue) := do
  if 256 ≤ name.length then return (false, found)
  else
    match found with
    | some queue =>
      if queue.active then return (true, some { queue with flag := flag })
      else
        let (ok, queue) ← queueActive usable queue
        return if ok then (true, some { queue with flag := flag }) else (false, some queue)
    | none =>
      let (ok, queue) ← queueNewActiveLinked usable name
      return (ok, if ok then queue.map fun queue => { queue with flag := flag } else queue)

section Linked

variable {W : Type} {m : Medium W} {usable : Nat → Nat}

theorem xmqQueueOpenLinked_run (found : Option Queue) (name : Bytes) (flag : Nat) (w : W) :
    (xmqQueueOpen usable found name flag).run m w =
      match (xmqQueueOpenLinked usable found name flag).run m w with
      | .ok ((false, some queue), w') =>
        if found = none then .error .memory else .ok ((false, some queue), w')
      | r => r := by
  unfold xmqQueueOpen xmqQueueOpenLinked
  by_cases hlong : 256 ≤ name.length
  · rw [if_pos hlong, if_pos hlong]
    cases found <;> rfl
  · rw [if_neg hlong, if_neg hlong]
    cases found with
    | some queue =>
      dsimp only
      split
      · rfl
      · rw [run_do]
        rcases (queueActive usable queue).run m w with e | ⟨⟨- | -, queue'⟩, w'⟩ <;> rfl
    | none =>
      unfold queueNewActive queueNewActiveLinked
      rw [run_do, run_do, run_do, run_do]
      rcases (queueActive usable (freshQueue name)).run m w with e | ⟨⟨- | -, queue⟩, w'⟩
      · rfl
      · rfl
      · dsimp only [Bool.not_true, Bool.false_eq_true, if_false]
        rw [if_neg (by decide), if_neg (by decide)]
        rcases getKeyOfQueues usable with e | key
        · rfl
        · rw [run_do, run_do]
          dsimp only [KvProgram.lift, KvProgram.run]
          rw [run_do, run_do]
          rcases (writeBackAppend usable key name [comma]).run m w' with e | ⟨- | -, w''⟩ <;> rfl

end Linked

--
-- Traces
--

/-- A call that opens or registers. -/
inductive RegisterCall where
  | openQueue (name : Bytes) (flag : Nat)
  | asProducer (q identity : Bytes)
  | asConsumer (q identity : Bytes)

/-- The string it is called with. -/
def RegisterCall.name : RegisterCall → Bytes
  | .openQueue name _ => name
  | .asProducer _ identity => identity
  | .asConsumer _ identity => identity

/-- A registration in the queue with the given name, on the whole context. -/
def registerIn (ctx : Ctx) (q : Bytes) (f : Queue → Prog (Bool × Queue)) : Prog (Bool × Ctx) :=
  match ctx.queues q with
  | none => .ret (false, ctx)
  | some queue => do
    let (ok, queue) ← f queue
    return (ok, { ctx with queues := Function.update ctx.queues q (some queue) })

/-- The call on the whole context; `false` is `NULL`. -/
def RegisterCall.prog (usable : Nat → Nat) (ctx : Ctx) : RegisterCall → Prog (Bool × Ctx)
  | .openQueue name flag => do
    let (ok, queue) ← xmqQueueOpenLinked usable (ctx.queues name) name flag
    return (ok, {
      queues := Function.update ctx.queues name queue
      queueAmount :=
        if ok && (ctx.queues name).isNone then intSucc ctx.queueAmount else ctx.queueAmount })
  | .asProducer q identity =>
    registerIn ctx q fun queue => xmqRegisterAsProducer usable queue identity
  | .asConsumer q identity =>
    registerIn ctx q fun queue => xmqRegisterAsConsumer usable queue identity

/-- The lists and the counts of a queue are the same. -/
structure SameLists (queue queue' : Queue) : Prop where
  active : queue'.active = queue.active
  activeProducers : queue'.activeProducers = queue.activeProducers
  deadProducers : queue'.deadProducers = queue.deadProducers
  activeConsumers :
    queue'.activeConsumers.map (·.identity) = queue.activeConsumers.map (·.identity)
  deadConsumers : queue'.deadConsumers.map (·.identity) = queue.deadConsumers.map (·.identity)
  producerAmount : queue'.producerAmount = queue.producerAmount
  consumerAmount : queue'.consumerAmount = queue.consumerAmount

/-- So are those of the whole context, and the strings in the store. -/
structure Traceless (ctx ctx' : Ctx) (s s' : Store) : Prop where
  queues : ∀ q, Option.Rel SameLists (ctx.queues q) (ctx'.queues q)
  queueAmount : ctx'.queueAmount = ctx.queueAmount
  queuesString : s' queuesKey = s queuesKey
  producersString : ∀ q, s' (producersKey q) = s (producersKey q)
  consumersString : ∀ q, s' (consumersKey q) = s (consumersKey q)

/-- If the call returns `NULL`, it has left no trace. -/
def NoTrace {W : Type} (m : Medium W) (view : W → Store) (usable : Nat → Nat) (ctx : Ctx)
    (call : RegisterCall) (w : W) : Prop :=
  ∀ ctx' w', (call.prog usable ctx).run m w = .ok ((false, ctx'), w') →
    Traceless ctx ctx' (view w) (view w')

--
-- Failures behind a change
--

/-- What `__load_string_list` takes from an answer of the callback. -/
def listOf : Option (Option Bytes) → Except Fault (Option (Int × List Bytes))
  | none => .ok none
  | some none => .ok (some (0, []))
  | some (some value) =>
    match csvParse (cstr value) with
    | none => .ok none
    | some fields =>
      if toInt32 fields.length = -1 then .ok none
      else
        match fields.mapM fun field => field with
        | none => .error .memory
        | some names => .ok (some (toInt32 fields.length, names))

section Clean

variable {W : Type} (m : Medium W) (usable : Nat → Nat)

/-- The medium behind a number that was read or created; `none` if neither is
possible. -/
def numberInit (key : Bytes) (w : W) : Option W :=
  match m.getKVs key w with
  | none => none
  | some none =>
    if (m.putKVs [(key, le64 0)] w).1 then some (m.putKVs [(key, le64 0)] w).2 else none
  | some (some value) => if value.length = 8 then some w else none

/-- The stored producers and consumers of a queue. -/
def producersOf (q : Bytes) (w : W) : Except Fault (Option (Int × List Bytes)) :=
  listOf (m.getKVs (producersKey q) w)

def consumersOf (q : Bytes) (w : W) : Except Fault (Option (Int × List Bytes)) :=
  listOf (m.getKVs (consumersKey q) w)

/-- A new queue has a capacity and lists that can be loaded. -/
def Activates (q : Bytes) (w : W) : Prop :=
  ∃ w', numberInit m (capacityKey q) w = some w' ∧ producersOf m q w' ≠ .ok none ∧
    ((∃ r, producersOf m q w' = .ok (some r)) → consumersOf m q w' ≠ .ok none)

/-- A list of a closed queue that fails to load had the count 0, and the
producers that were loaded before its consumers are those it had. -/
def KeepsLists (queue : Queue) (w : W) : Prop :=
  ∀ w', numberInit m (capacityKey queue.name) w = some w' →
    (queue.deadProducers = [] → producersOf m queue.name w' = .ok none →
      queue.producerAmount = 0) ∧
    ((queue.deadProducers = [] → ∃ r, producersOf m queue.name w' = .ok (some r)) →
      queue.deadConsumers = [] → consumersOf m queue.name w' = .ok none →
      queue.consumerAmount = 0 ∧ (queue.deadProducers = [] →
        producersOf m queue.name w' = .ok (some (queue.producerAmount, []))))

/-- The two positions of a consumer can be written, as far as their keys fit
their blocks. -/
def PositionsPut (q u : Bytes) (w : W) : Prop :=
  getKeyOfFetchpos usable q u = .ok (fetchposKey q u) →
    (m.putKVs [(fetchposKey q u, le64 0)] w).1 = true ∧
      (getKeyOfMarkpos usable q u = .ok (markposKey q u) →
        (m.putKVs [(markposKey q u, le64 0)] (m.putKVs [(fetchposKey q u, le64 0)] w).2).1 = true)

/-- No step of the call fails behind one that changed something: the new queue
can be activated, the closed one keeps its lists, and behind the name of a new
consumer its positions can be written. -/
def RegisterCall.Clean (ctx : Ctx) (w : W) : RegisterCall → Prop
  | .openQueue name _ => name.length < 256 →
    (ctx.queues name = none → Activates m name w) ∧
      ∀ queue, ctx.queues name = some queue → queue.active = false → KeepsLists m queue w
  | .asProducer _ _ => True
  | .asConsumer q identity => ∀ queue, ctx.queues q = some queue → identity ≠ [] →
    xmqConsumerExist queue identity = none → ∀ w',
      (writeBackAppend usable (consumersKey queue.name) (identity.take 255) [comma]).run m w =
        .ok (true, w') →
      PositionsPut m usable queue.name (identity.take 255) w'

end Clean

--
-- The steps of a call
--

section Steps

variable {W : Type} {m : Medium W} {view : W → Store} {usable : Nat → Nat}

theorem run_loadStringList (key : Bytes) (w : W) :
    (loadStringList key).run m w = (listOf (m.getKVs key w)).map fun r => (r, w) := by
  have hload : (loadStringString key).run m w = .ok ((m.getKVs key w).map (·.map cstr), w) := rfl
  unfold loadStringList
  rw [run_do, hload]
  rcases m.getKVs key w with - | - | value
  · rfl
  · rfl
  · dsimp only [Option.map, listOf]
    rcases csvParse (cstr value) with - | fields
    · rfl
    · dsimp only
      split
      · rfl
      · rcases fields.mapM fun field => field with - | names <;> rfl

theorem uint64TestInit_cases (key : Bytes) (cur : Nat) (w : W) :
    ∃ ok n w', (uint64TestInit key cur 0).run m w = .ok ((ok, n), w') ∧
      numberInit m key w = if ok then some w' else none := by
  rw [run_uint64TestInit, numberInit]
  rcases m.getKVs key w with - | - | value
  · exact ⟨false, cur, w, rfl, rfl⟩
  · exact ⟨_, 0, _, rfl, rfl⟩
  · dsimp only
    split
    · exact ⟨true, _, w, rfl, rfl⟩
    · exact ⟨false, cur, w, rfl, rfl⟩

variable {key : Bytes} {queue : Queue} {ctx : Ctx}

theorem uint64TestInit_frame (hm : FaithfulMedium m view) {cur : Nat} {w w' : W} {r : Bool × Nat}
    (h : (uint64TestInit key cur 0).run m w = .ok (r, w')) {key' : Bytes} (hne : key' ≠ key) :
    view w' key' = view w key' :=
  (uint64TestInit_within (R := Set.univ) (K := {key}) trivial rfl).frame hm h hne

/-- A list with a name behind it, as it is stored. -/
def listWith (old : Option Bytes) (u : Bytes) : Bytes :=
  appended ((old.map cstr).getD []) [comma] u none none ++ [0]

theorem run_writeBackAppend (hheap : ∀ n, n ≤ usable n) (key u : Bytes) (w : W) :
    (writeBackAppend usable key u [comma]).run m w =
      match m.getKVs key w with
      | none => .ok (false, w)
      | some old =>
        if u32 (listWith old u).length = 0 then .ok (false, w)
        else .ok (m.putKVs [(key, (listWith old u).take (u32 (listWith old u).length))] w) := by
  have hload : (loadStringString key).run m w = .ok ((m.getKVs key w).map (·.map cstr), w) := rfl
  unfold writeBackAppend
  rw [run_do, hload]
  rcases m.getKVs key w with - | old
  · rfl
  · dsimp only [Option.map_some]
    rw [stringAppend3rd_two hheap]
    show (writeStringBin key (listWith old u)).run m w = _
    unfold writeStringBin
    split <;> rfl

theorem writeBackAppend_fails (hm : FaithfulMedium m view) (hheap : ∀ n, n ≤ usable n) {u : Bytes}
    {w w' : W} (h : (writeBackAppend usable key u [comma]).run m w = .ok (false, w')) :
    view w' = view w := by
  rw [run_writeBackAppend hheap] at h
  rcases hr : m.getKVs key w with - | old
  · rw [hr] at h
    obtain ⟨-, rfl⟩ := Prod.mk.inj (Except.ok.inj h)
    rfl
  · rw [hr] at h
    dsimp only at h
    split at h
    · obtain ⟨-, rfl⟩ := Prod.mk.inj (Except.ok.inj h)
      rfl
    · obtain ⟨hput, rfl⟩ := Prod.mk.inj (Except.ok.inj h)
      exact hm.put_fail _ _ hput

theorem listWith_ne {u : Bytes} (hne : u ≠ []) (hnul : (0 : UInt8) ∉ u) (hshort : u.length ≤ 255)
    (value : Bytes) :
    (listWith (some value) u).take (u32 (listWith (some value) u).length) ≠ value := by
  obtain ⟨b, u, rfl⟩ := exists_cons_of_ne_nil hne
  have hb : b ≠ 0 := fun h => hnul (h ▸ .head _)
  have hwith : listWith (some value) (b :: u) = cstr value ++ b :: (u ++ [comma, 0]) := by
    simp [listWith, appended]
  rw [hwith]
  intro heq
  have hlen : (cstr value ++ b :: (u ++ [comma, 0])).length =
      (cstr value).length + u.length + 3 := by
    simp
    omega
  rw [hlen] at heq
  have hcut : (cstr value).length ≤ value.length := (takeWhile_sublist _).length_le
  rw [length_cons] at hshort
  rcases Nat.lt_trichotomy (u32 ((cstr value).length + u.length + 3)) (cstr value).length
    with hlt | hsame | hgt
  · have := congrArg List.length heq
    rw [length_take, hlen] at this
    omega
  · unfold u32 at hsame
    omega
  · -- the string would reach beyond its end
    obtain ⟨k, hk⟩ := Nat.exists_eq_add_of_lt hgt
    rw [hk, Nat.add_assoc, take_length_add_append, take_succ_cons] at heq
    have hlong : cstr value = cstr value ++ b :: cstr ((u ++ [comma, 0]).take k) := by
      conv_lhs => rw [← heq]
      unfold cstr
      rw [takeWhile_append_of_pos, takeWhile_cons_of_pos (by simpa using hb)]
      intro x hx
      exact mem_takeWhile_imp (p := fun x : UInt8 => decide (x ≠ 0)) hx
    have := congrArg List.length hlong
    simp at this

theorem writeBackAppend_lands (hm : FaithfulMedium m view) (hheap : ∀ n, n ≤ usable n) {u : Bytes}
    (hne : u ≠ []) (hnul : (0 : UInt8) ∉ u) (hshort : u.length ≤ 255) {w w' : W}
    (h : (writeBackAppend usable key u [comma]).run m w = .ok (true, w')) :
    view w' key ≠ view w key := by
  rw [run_writeBackAppend hheap] at h
  rcases hr : m.getKVs key w with - | old
  · rw [hr] at h
    exact nomatch h
  · rw [hr] at h
    dsimp only at h
    split at h
    · exact nomatch h
    · obtain ⟨hput, rfl⟩ := Prod.mk.inj (Except.ok.inj h)
      rw [view_put hm hput, ← hm.get _ _ _ hr]
      rcases old with - | value
      · nofun
      · intro heq
        exact listWith_ne hne hnul hshort value (Option.some.inj heq)

theorem uint64Write_frame (hm : FaithfulMedium m view) {key' : Bytes} (n : Nat) (w : W)
    (hne : key' ≠ key) : view (m.putKVs [(key, le64 n)] w).2 key' = view w key' := by
  cases hput : (m.putKVs [(key, le64 n)] w).1 with
  | false => rw [hm.put_fail _ _ hput]
  | true =>
    rw [hm.put_ok _ _ hput]
    exact update_of_ne hne ..

--
-- Opening
--

theorem run_producersLoadEmpty (hheap : ∀ n, n ≤ usable n) (queue : Queue) (w : W) :
    (producersLoadEmpty usable queue).run m w =
      if queue.deadProducers = [] then
        match producersOf m queue.name w with
        | .error e => .error e
        | .ok none => .ok ((false, { queue with producerAmount := 0 }), w)
        | .ok (some (n, names)) => .ok ((true,
            { queue with producerAmount := n, deadProducers := names.map fun u => ⟨u⟩ }), w)
      else .ok ((true, queue), w) := by
  have hkey : getKeyOfProducers usable queue.name = .ok (producersKey queue.name) :=
    stringAppend3rd_two hheap ..
  unfold producersLoadEmpty
  split
  · unfold producersLoad
    rw [hkey, run_do]
    dsimp only [KvProgram.lift, KvProgram.run]
    rw [run_do, run_loadStringList, producersOf]
    rcases listOf (m.getKVs (producersKey queue.name) w) with e | - | ⟨n, names⟩ <;> rfl
  · rfl

theorem run_consumersLoadEmpty (hheap : ∀ n, n ≤ usable n) (queue : Queue) (w : W) :
    (consumersLoadEmpty usable queue).run m w =
      if queue.deadConsumers = [] then
        match consumersOf m queue.name w with
        | .error e => .error e
        | .ok none => .ok ((false, { queue with consumerAmount := 0 }), w)
        | .ok (some (n, names)) => .ok ((true,
            { queue with consumerAmount := n, deadConsumers := loadedConsumers names }), w)
      else .ok ((true, queue), w) := by
  have hkey : getKeyOfConsumers usable queue.name = .ok (consumersKey queue.name) :=
    stringAppend3rd_two hheap ..
  unfold consumersLoadEmpty
  split
  · unfold consumersLoad
    rw [hkey, run_do]
    dsimp only [KvProgram.lift, KvProgram.run]
    rw [run_do, run_loadStringList, consumersOf]
    rcases listOf (m.getKVs (consumersKey queue.name) w) with e | - | ⟨n, names⟩ <;> rfl
  · rfl

/-- The queue between its two loads: the producers are there, or were already. -/
inductive ProducersLoaded (m : Medium W) (queue : Queue) (w : W) : Queue → Prop
  | kept (h : queue.deadProducers ≠ []) : ProducersLoaded m queue w queue
  | loaded {n : Int} {names : List Bytes} (h : queue.deadProducers = [])
      (hlist : producersOf m queue.name w = .ok (some (n, names))) :
      ProducersLoaded m queue w
        { queue with producerAmount := n, deadProducers := names.map fun u => ⟨u⟩ }

/-- How a failed load leaves the queue: it failed at the producers, or at the
consumers behind them. -/
inductive LoadFailed (m : Medium W) (queue : Queue) (w : W) : Queue → Prop
  | producers (h : queue.deadProducers = []) (hlist : producersOf m queue.name w = .ok none) :
      LoadFailed m queue w { queue with producerAmount := 0 }
  | consumers {queue₁ : Queue} (hloaded : ProducersLoaded m queue w queue₁)
      (h : queue.deadConsumers = []) (hlist : consumersOf m queue.name w = .ok none) :
      LoadFailed m queue w { queue₁ with consumerAmount := 0 }

theorem listsLoad_fails (hheap : ∀ n, n ≤ usable n) (queue queue' : Queue) (w w' : W) :
    (listsLoad usable queue).run m w = .ok ((false, queue'), w') ↔
      w' = w ∧ LoadFailed m queue w queue' := by
  have hrest : ∀ queue₁ : Queue, queue₁.deadConsumers = queue.deadConsumers →
      queue₁.name = queue.name →
      ((do
          let (ok, queue) ← consumersLoadEmpty usable queue₁
          return (ok, if ok then { queue with active := true } else queue) : Prog _).run m w =
        .ok ((false, queue'), w') ↔
      w' = w ∧ queue.deadConsumers = [] ∧ consumersOf m queue.name w = .ok none ∧
        queue' = { queue₁ with consumerAmount := 0 }) := by
    intro queue₁ hdead hname
    rw [run_do, run_consumersLoadEmpty hheap, hdead, hname]
    by_cases hcs : queue.deadConsumers = []
    · rw [if_pos hcs]
      rcases consumersOf m queue.name w with e | - | ⟨n, names⟩
      · simp
      · constructor
        · intro h
          obtain ⟨-, rfl, rfl⟩ := ok_inj h
          exact ⟨rfl, hcs, rfl, rfl⟩
        · rintro ⟨rfl, -, -, rfl⟩
          rfl
      · simp [pure, KvProgram.run]
    · rw [if_neg hcs]
      simp [hcs, pure, KvProgram.run]
  unfold listsLoad
  rw [run_do, run_producersLoadEmpty hheap]
  by_cases hps : queue.deadProducers = []
  · rw [if_pos hps]
    rcases hp : producersOf m queue.name w with e | - | ⟨n, names⟩
    · constructor
      · rintro ⟨⟩
      · rintro ⟨-, ⟨-, hlist⟩ | ⟨⟨h⟩ | ⟨-, hlist⟩, -, -⟩⟩
        · rw [hp] at hlist
          cases hlist
        · exact absurd hps h
        · rw [hp] at hlist
          cases hlist
    · constructor
      · intro h
        obtain ⟨-, rfl, rfl⟩ := ok_inj h
        exact ⟨rfl, .producers hps hp⟩
      · rintro ⟨rfl, ⟨-, -⟩ | ⟨⟨h⟩ | ⟨-, hlist⟩, -, -⟩⟩
        · rfl
        · exact absurd hps h
        · rw [hp] at hlist
          cases hlist
    · refine (hrest { queue with producerAmount := n, deadProducers := names.map fun u => ⟨u⟩ }
        rfl rfl).trans ?_
      constructor
      · rintro ⟨rfl, hcs, hlist, rfl⟩
        exact ⟨rfl, .consumers (.loaded hps hp) hcs hlist⟩
      · rintro ⟨rfl, ⟨-, hlist⟩ | ⟨⟨h⟩ | ⟨-, hlist⟩, hcs, hlist'⟩⟩
        · rw [hp] at hlist
          cases hlist
        · exact absurd hps h
        · rw [hp] at hlist
          obtain ⟨rfl, rfl⟩ := Prod.mk.inj (Option.some.inj (Except.ok.inj hlist))
          exact ⟨rfl, hcs, hlist', rfl⟩
  · rw [if_neg hps]
    refine (hrest _ rfl rfl).trans ?_
    constructor
    · rintro ⟨rfl, hcs, hlist, rfl⟩
      exact ⟨rfl, .consumers (.kept hps) hcs hlist⟩
    · rintro ⟨rfl, ⟨h, -⟩ | ⟨⟨-⟩ | ⟨h, -⟩, hcs, hlist⟩⟩
      · exact absurd h hps
      · exact ⟨rfl, hcs, hlist, rfl⟩
      · exact absurd h hps

theorem queueActive_fails (hheap : ∀ n, n ≤ usable n) {queue' : Queue} {w w' : W}
    (h : (queueActive usable queue).run m w = .ok ((false, queue'), w')) :
    numberInit m (capacityKey queue.name) w = none ∧
        (∃ n, queue' = { queue with msgCapacity := n }) ∨
      numberInit m (capacityKey queue.name) w = some w' ∧
        ∃ n, LoadFailed m { queue with msgCapacity := n } w' queue' := by
  have hkey : getKeyOfCapacity usable queue.name = .ok (capacityKey queue.name) :=
    stringAppend3rd_two hheap ..
  obtain ⟨ok, n, w₁, hinit, hnumber⟩ :=
    @uint64TestInit_cases W m (capacityKey queue.name) queue.msgCapacity w
  unfold queueActive at h
  rw [hkey, run_do] at h
  dsimp only [KvProgram.lift, KvProgram.run] at h
  rw [run_do, hinit] at h
  cases ok with
  | false =>
    obtain ⟨-, rfl, rfl⟩ := ok_inj h
    exact .inl ⟨hnumber, n, rfl⟩
  | true =>
    obtain ⟨rfl, hfailed⟩ := (listsLoad_fails hheap _ _ _ _).mp h
    exact .inr ⟨hnumber, n, hfailed⟩

theorem queueActive_false (hheap : ∀ n, n ≤ usable n) (queue : Queue) (w : W) :
    (numberInit m (capacityKey queue.name) w = none →
      ∃ n w', (queueActive usable queue).run m w =
        .ok ((false, { queue with msgCapacity := n }), w')) ∧
    ∀ w', numberInit m (capacityKey queue.name) w = some w' → ∃ n, ∀ queue',
      LoadFailed m { queue with msgCapacity := n } w' queue' →
        (queueActive usable queue).run m w = .ok ((false, queue'), w') := by
  have hkey : getKeyOfCapacity usable queue.name = .ok (capacityKey queue.name) :=
    stringAppend3rd_two hheap ..
  obtain ⟨ok, n, w₁, hinit, hnumber⟩ :=
    @uint64TestInit_cases W m (capacityKey queue.name) queue.msgCapacity w
  unfold queueActive
  rw [hkey, run_do]
  dsimp only [KvProgram.lift, KvProgram.run]
  rw [run_do, hinit, hnumber]
  cases ok with
  | false => exact ⟨fun _ => ⟨n, w₁, rfl⟩, nofun⟩
  | true =>
    refine ⟨nofun, ?_⟩
    intro w' hw
    obtain rfl := Option.some.inj hw
    exact ⟨n, fun queue' hfailed => (listsLoad_fails hheap _ _ _ _).mpr ⟨rfl, hfailed⟩⟩

theorem listsLoad_reads (hheap : ∀ n, n ≤ usable n) {r : Bool × Queue} {w w' : W}
    (h : (listsLoad usable queue).run m w = .ok (r, w')) : w' = w := by
  have hproducers : ∀ {r w₁}, (producersLoadEmpty usable queue).run m w = .ok (r, w₁) →
      w₁ = w := by
    intro r w₁ hrun
    rw [run_producersLoadEmpty hheap] at hrun
    split at hrun
    · rcases hlist : producersOf m queue.name w with e | - | ⟨n, names⟩ <;> rw [hlist] at hrun
      · exact nomatch hrun
      · exact (Prod.mk.inj (Except.ok.inj hrun)).2.symm
      · exact (Prod.mk.inj (Except.ok.inj hrun)).2.symm
    · exact (Prod.mk.inj (Except.ok.inj hrun)).2.symm
  have hconsumers : ∀ {queue₁ r w₁}, (consumersLoadEmpty usable queue₁).run m w = .ok (r, w₁) →
      w₁ = w := by
    intro queue₁ r w₁ hrun
    rw [run_consumersLoadEmpty hheap] at hrun
    split at hrun
    · rcases hlist : consumersOf m queue₁.name w with e | - | ⟨n, names⟩ <;> rw [hlist] at hrun
      · exact nomatch hrun
      · exact (Prod.mk.inj (Except.ok.inj hrun)).2.symm
      · exact (Prod.mk.inj (Except.ok.inj hrun)).2.symm
    · exact (Prod.mk.inj (Except.ok.inj hrun)).2.symm
  obtain ⟨⟨ok, queue₁⟩, w₁, hrun, h⟩ := run_do_ok h
  obtain rfl := hproducers hrun
  cases ok with
  | false => exact (Prod.mk.inj (Except.ok.inj h)).2.symm
  | true =>
    obtain ⟨⟨ok, queue₂⟩, w₂, hrun', hret⟩ :=
      run_do_ok (p := consumersLoadEmpty usable queue₁) h
    obtain rfl := hconsumers hrun'
    exact (Prod.mk.inj (Except.ok.inj hret)).2.symm

theorem queueActive_frame (hm : FaithfulMedium m view) (hheap : ∀ n, n ≤ usable n)
    {r : Bool × Queue} {w w' : W} (h : (queueActive usable queue).run m w = .ok (r, w'))
    (hne : key ≠ capacityKey queue.name) : view w' key = view w key := by
  obtain ⟨key', w₀, hlift, h⟩ := run_do_ok h
  obtain ⟨hkey, rfl⟩ := run_lift_ok hlift
  obtain rfl : key' = capacityKey queue.name := stringAppend3rd_ok hkey
  obtain ⟨⟨ok, n⟩, w₁, hinit, h⟩ := run_do_ok h
  rw [← uint64TestInit_frame hm hinit hne]
  cases ok with
  | false => rw [← (Prod.mk.inj (Except.ok.inj h)).2]
  | true => rw [listsLoad_reads hheap h]

/-- The strings that a registration may not leave changed. -/
def IsList (key : Bytes) : Prop :=
  key = queuesKey ∨ ∃ q, key = producersKey q ∨ key = consumersKey q

theorem IsList.kind (h : IsList key) :
    keyKind key ∈ [ascii "__SEUEU", ascii "__SRECU", ascii "__SREMU"] := by
  rcases h with rfl | ⟨q, rfl | rfl⟩
  · rw [keyKind_queues]
    decide
  · rw [keyKind_producers]
    decide
  · rw [keyKind_consumers]
    decide

theorem IsList.ne_capacity (h : IsList key) (q : Bytes) : key ≠ capacityKey q := by
  rintro rfl
  have hkind := h.kind
  rw [keyKind_capacity] at hkind
  revert hkind
  decide

theorem IsList.ne_fetchpos (h : IsList key) (q u : Bytes) : key ≠ fetchposKey q u := by
  rintro rfl
  have hkind := h.kind
  rw [keyKind_fetchpos] at hkind
  revert hkind
  decide

theorem IsList.ne_markpos (h : IsList key) (q u : Bytes) : key ≠ markposKey q u := by
  rintro rfl
  have hkind := h.kind
  rw [keyKind_markpos] at hkind
  revert hkind
  decide

theorem SameLists.refl (queue : Queue) : SameLists queue queue :=
  ⟨rfl, rfl, rfl, rfl, rfl, rfl, rfl⟩

theorem traceless_of_same {ctx' : Ctx} {s s' : Store}
    (hqueues : ∀ q, Option.Rel SameLists (ctx.queues q) (ctx'.queues q))
    (hamount : ctx'.queueAmount = ctx.queueAmount) (hs : ∀ key, IsList key → s' key = s key) :
    Traceless ctx ctx' s s' :=
  ⟨hqueues, hamount, hs _ (.inl rfl), fun q => hs _ (.inr ⟨q, .inl rfl⟩),
    fun q => hs _ (.inr ⟨q, .inr rfl⟩)⟩

theorem update_same {q : Bytes} {found : Option Queue}
    (h : Option.Rel SameLists (ctx.queues q) found) (p : Bytes) :
    Option.Rel SameLists (ctx.queues p) (update ctx.queues q found p) := by
  by_cases hp : p = q
  · rw [hp, update_self]
    exact h
  · rw [update_of_ne hp]
    rcases ctx.queues p with - | queue
    · exact .none
    · exact .some (.refl queue)

theorem activates_iff (hheap : ∀ n, n ≤ usable n) (q : Bytes) (w : W) :
    Activates m q w ↔
      ∀ queue' w', (queueActive usable (freshQueue q)).run m w ≠ .ok ((false, queue'), w') := by
  have hfalse := @queueActive_false W m usable hheap (freshQueue q) w
  constructor
  · rintro ⟨w₁, hnumber, hps, hcs⟩ queue' w' hrun
    rcases queueActive_fails hheap hrun with ⟨hnone, -⟩ | ⟨hsome, n, hfailed⟩
    · exact absurd (hnone.symm.trans hnumber) (by simp)
    · obtain rfl := Option.some.inj (hsome.symm.trans hnumber)
      rcases hfailed with ⟨-, hlist⟩ | ⟨⟨h⟩ | ⟨-, hlist⟩, -, hlist'⟩
      · exact hps hlist
      · exact h rfl
      · exact hcs ⟨_, hlist⟩ hlist'
  · intro hnever
    rcases hnumber : numberInit m (capacityKey q) w with - | w₁
    · obtain ⟨n, w', hrun⟩ := hfalse.1 hnumber
      exact absurd hrun (hnever _ _)
    · obtain ⟨n, hfailed⟩ := hfalse.2 w₁ hnumber
      refine ⟨w₁, hnumber, ?_, ?_⟩
      · intro hlist
        exact hnever _ _ (hfailed _ (.producers rfl hlist))
      · rintro ⟨r, hlist⟩ hlist'
        exact hnever _ _ (hfailed _ (.consumers (.loaded rfl hlist) rfl hlist'))

/-- A closed queue keeps its lists exactly if a failed activation does not
touch them. -/
theorem keepsLists_iff (hheap : ∀ n, n ≤ usable n) (queue : Queue) (w : W) :
    KeepsLists m queue w ↔ ∀ queue' w',
      (queueActive usable queue).run m w = .ok ((false, queue'), w') → SameLists queue queue' := by
  constructor
  · intro hkeeps queue' w' hrun
    rcases queueActive_fails hheap hrun with ⟨-, n, rfl⟩ | ⟨hsome, n, hfailed⟩
    · exact ⟨rfl, rfl, rfl, rfl, rfl, rfl, rfl⟩
    · obtain ⟨hp, hc⟩ := hkeeps w' hsome
      rcases hfailed with ⟨h, hlist⟩ | ⟨⟨h⟩ | ⟨h, hlist⟩, hdead, hlist'⟩
      · exact ⟨rfl, rfl, rfl, rfl, rfl, (hp h hlist).symm, rfl⟩
      · obtain ⟨hzero, -⟩ := hc (fun h' => absurd h' h) hdead hlist'
        exact ⟨rfl, rfl, rfl, rfl, rfl, rfl, hzero.symm⟩
      · obtain ⟨hzero, hsame⟩ := hc (fun _ => ⟨_, hlist⟩) hdead hlist'
        obtain ⟨rfl, rfl⟩ := Prod.mk.inj (Option.some.inj (Except.ok.inj
          (hlist.symm.trans (hsame h))))
        exact ⟨rfl, rfl, h.symm, rfl, rfl, rfl, hzero.symm⟩
  · intro hsame w' hnumber
    obtain ⟨n, hrun⟩ := (@queueActive_false W m usable hheap queue w).2 w' hnumber
    have hfailed := fun queue' h => hsame queue' w' (hrun queue' h)
    constructor
    · intro h hlist
      exact (hfailed _ (.producers h hlist)).producerAmount.symm
    · intro hps hdead hlist
      by_cases h : queue.deadProducers = []
      · obtain ⟨⟨k, names⟩, hp⟩ := hps h
        have hkept := hfailed _ (.consumers (.loaded h hp) hdead hlist)
        have hnames : names = [] := map_eq_nil_iff.mp (hkept.deadProducers.trans h)
        refine ⟨hkept.consumerAmount.symm, fun _ => ?_⟩
        rw [hp, hnames, ← hkept.producerAmount]
      · have hkept := hfailed _ (.consumers (.kept h) hdead hlist)
        exact ⟨hkept.consumerAmount.symm, fun h' => absurd h' h⟩

theorem openQueue_fails_iff {ctx' : Ctx} {name : Bytes} {flag : Nat} {w w' : W} :
    ((RegisterCall.openQueue name flag).prog usable ctx).run m w = .ok ((false, ctx'), w') ↔
      ∃ found, (xmqQueueOpenLinked usable (ctx.queues name) name flag).run m w =
          .ok ((false, found), w') ∧
        ctx' = ⟨update ctx.queues name found, ctx.queueAmount⟩ := by
  constructor
  · intro hrun
    rw [RegisterCall.prog] at hrun
    obtain ⟨⟨ok, found⟩, w₁, hlinked, hret⟩ := run_do_ok hrun
    obtain ⟨rfl, rfl, rfl⟩ := ok_inj hret
    exact ⟨found, hlinked, rfl⟩
  · rintro ⟨found, hrun, rfl⟩
    rw [RegisterCall.prog, run_do, hrun]
    rfl

theorem openQueue_noTrace_long (ctx : Ctx) {name : Bytes} (hlong : 256 ≤ name.length) (flag : Nat)
    (w : W) : NoTrace m view usable ctx (.openQueue name flag) w := by
  intro ctx' w' hrun
  obtain ⟨found, hlinked, rfl⟩ := openQueue_fails_iff.mp hrun
  unfold xmqQueueOpenLinked at hlinked
  rw [if_pos hlong] at hlinked
  obtain ⟨-, rfl, rfl⟩ := ok_inj hlinked
  refine traceless_of_same (update_same ?_) rfl fun _ _ => rfl
  rcases ctx.queues name with - | queue
  · exact .none
  · exact .some (.refl queue)

theorem openQueue_noTrace_new (hm : FaithfulMedium m view) (hheap : ∀ n, n ≤ usable n)
    {name : Bytes} (hshort : ¬ 256 ≤ name.length) (hfound : ctx.queues name = none) (flag : Nat)
    (w : W) : NoTrace m view usable ctx (.openQueue name flag) w ↔ Activates m name w := by
  rw [activates_iff hheap]
  constructor
  · intro htrace queue' w' hrun
    have hlinked : (xmqQueueOpenLinked usable (ctx.queues name) name flag).run m w =
        .ok ((false, some queue'), w') := by
      rw [hfound, xmqQueueOpenLinked, if_neg hshort, queueNewActiveLinked, run_do,
        run_do, hrun]
      rfl
    have hqueues := (htrace _ _ (openQueue_fails_iff.mpr ⟨_, hlinked, rfl⟩)).queues name
    dsimp only at hqueues
    rw [hfound, update_self] at hqueues
    exact nomatch hqueues
  · intro hnever ctx' w' hrun
    obtain ⟨found, hlinked, rfl⟩ := openQueue_fails_iff.mp hrun
    rw [hfound, xmqQueueOpenLinked, if_neg hshort] at hlinked
    obtain ⟨⟨ok, queue⟩, w₁, hnew, hret⟩ := run_do_ok hlinked
    obtain ⟨rfl, rfl, rfl⟩ := ok_inj hret
    rw [queueNewActiveLinked] at hnew
    obtain ⟨⟨ok, queue'⟩, w₂, hactive, hnew⟩ := run_do_ok hnew
    cases ok with
    | false => exact absurd hactive (hnever _ _)
    | true =>
      obtain ⟨key, w₃, hlift, hrest⟩ :=
        run_do_ok (p := KvProgram.lift (getKeyOfQueues usable)) hnew
      obtain ⟨ok, w₄, happend, hret⟩ := run_do_ok hrest
      obtain ⟨-, rfl⟩ := run_lift_ok hlift
      cases ok with
      | true => exact nomatch (ok_inj hret).1
      | false =>
        obtain ⟨-, rfl, rfl⟩ := ok_inj hret
        refine traceless_of_same (update_same ?_) rfl ?_
        · rw [hfound]
          exact .none
        · intro key' hlist
          rw [writeBackAppend_fails hm hheap happend,
            queueActive_frame hm hheap hactive (hlist.ne_capacity _)]

theorem openQueue_noTrace_old (hm : FaithfulMedium m view) (hheap : ∀ n, n ≤ usable n)
    {name : Bytes} (hshort : ¬ 256 ≤ name.length) (hfound : ctx.queues name = some queue)
    (flag : Nat) (w : W) :
    NoTrace m view usable ctx (.openQueue name flag) w ↔
      (queue.active = false → KeepsLists m queue w) := by
  cases hactive : queue.active with
  | true =>
    constructor
    · nofun
    · intro _ ctx' w' hrun
      obtain ⟨found, hlinked, rfl⟩ := openQueue_fails_iff.mp hrun
      rw [hfound, xmqQueueOpenLinked, if_neg hshort] at hlinked
      rw [if_pos hactive] at hlinked
      exact nomatch (ok_inj hlinked).1
  | false =>
    have hlinked : (xmqQueueOpenLinked usable (ctx.queues name) name flag).run m w =
        (queueActive usable queue >>= fun r => KvProgram.ret (if r.1 = true then
          (true, some { r.2 with flag := flag }) else (false, some r.2)) : Prog _).run m w := by
      rw [hfound, xmqQueueOpenLinked, if_neg hshort]
      rw [hactive, if_neg (by decide)]
      rfl
    rw [forall_prop_of_true rfl, keepsLists_iff hheap]
    constructor
    · intro htrace queue' w' hrun
      rw [run_do, hrun] at hlinked
      have hqueues := (htrace _ _ (openQueue_fails_iff.mpr ⟨_, hlinked, rfl⟩)).queues name
      dsimp only at hqueues
      rw [hfound, update_self] at hqueues
      cases hqueues with
      | some hsame => exact hsame
    · intro hsame ctx' w' hrun
      obtain ⟨found, hrun', rfl⟩ := openQueue_fails_iff.mp hrun
      rw [hlinked] at hrun'
      obtain ⟨⟨ok, queue'⟩, w₁, hactive', hret⟩ := run_do_ok hrun'
      cases ok with
      | true => exact nomatch (ok_inj hret).1
      | false =>
        obtain ⟨-, rfl, rfl⟩ := ok_inj hret
        refine traceless_of_same (update_same ?_) rfl ?_
        · rw [hfound]
          exact .some (hsame _ _ hactive')
        · intro key hlist
          exact queueActive_frame hm hheap hactive' (hlist.ne_capacity _)

theorem openQueue_noTrace_iff (hm : FaithfulMedium m view) (hheap : ∀ n, n ≤ usable n) (ctx : Ctx)
    (name : Bytes) (flag : Nat) (w : W) :
    NoTrace m view usable ctx (.openQueue name flag) w ↔
      RegisterCall.Clean m usable ctx w (.openQueue name flag) := by
  by_cases hlong : 256 ≤ name.length
  · exact iff_of_true (openQueue_noTrace_long ctx hlong flag w) fun hshort => by omega
  rw [RegisterCall.Clean]
  rcases hfound : ctx.queues name with - | queue
  · rw [openQueue_noTrace_new hm hheap hlong hfound]
    constructor
    · intro h _
      exact ⟨fun _ => h, nofun⟩
    · intro h
      exact (h (by omega)).1 rfl
  · rw [openQueue_noTrace_old hm hheap hlong hfound]
    constructor
    · intro h _
      refine ⟨nofun, ?_⟩
      rintro _ ⟨⟩
      exact h
    · intro h
      exact (h (by omega)).2 queue rfl

--
-- Registering
--

theorem registerIn_noTrace_iff {call : RegisterCall} {q : Bytes} {f : Queue → Prog (Bool × Queue)}
    (hcall : call.prog usable ctx = registerIn ctx q f) (w : W) :
    NoTrace m view usable ctx call w ↔ ∀ queue, ctx.queues q = some queue → ∀ queue' w',
      (f queue).run m w = .ok ((false, queue'), w') →
        SameLists queue queue' ∧ ∀ key, IsList key → view w' key = view w key := by
  unfold NoTrace
  rw [hcall]
  unfold registerIn
  rcases hfound : ctx.queues q with - | queue
  · constructor
    · nofun
    · intro _ ctx' w' hrun
      obtain ⟨-, rfl, rfl⟩ := ok_inj hrun
      refine traceless_of_same ?_ rfl fun _ _ => rfl
      intro p
      rcases ctx.queues p with - | queue
      · exact .none
      · exact .some (.refl queue)
  · constructor
    · rintro htrace _ ⟨⟩ queue' w' hrun
      have htraceless := htrace _ w' (by rw [run_do, hrun]; rfl)
      have hqueues := htraceless.queues q
      dsimp only at hqueues
      rw [hfound, update_self] at hqueues
      cases hqueues with
      | some hsame =>
        refine ⟨hsame, ?_⟩
        rintro key (rfl | ⟨p, rfl | rfl⟩)
        · exact htraceless.queuesString
        · exact htraceless.producersString p
        · exact htraceless.consumersString p
    · intro hsame ctx' w' hrun
      obtain ⟨⟨ok, queue'⟩, w₁, hrun', hret⟩ := run_do_ok hrun
      obtain ⟨rfl, rfl, rfl⟩ := ok_inj hret
      obtain ⟨hlists, hstore⟩ := hsame queue rfl queue' w₁ hrun'
      refine traceless_of_same (update_same ?_) rfl hstore
      rw [hfound]
      exact .some hlists

theorem registerAsProducer_fails (hm : FaithfulMedium m view) (hheap : ∀ n, n ≤ usable n)
    {queue' : Queue} {identity : Bytes} {w w' : W}
    (h : (xmqRegisterAsProducer usable queue identity).run m w = .ok ((false, queue'), w')) :
    queue' = queue ∧ view w' = view w := by
  unfold xmqRegisterAsProducer at h
  split at h
  · obtain ⟨hr, rfl⟩ := Prod.mk.inj (Except.ok.inj h)
    exact ⟨(Prod.mk.inj hr).2.symm, rfl⟩
  · split at h
    · exact nomatch (ok_inj h).1
    · split at h
      · exact nomatch (ok_inj h).1
      · obtain ⟨key, w₁, hlift, hrest⟩ := run_do_ok h
        obtain ⟨ok, w₂, happend, hret⟩ := run_do_ok hrest
        obtain ⟨-, rfl⟩ := run_lift_ok hlift
        cases ok with
        | true => exact nomatch (ok_inj hret).1
        | false =>
          obtain ⟨hr, rfl⟩ := Prod.mk.inj (Except.ok.inj hret)
          exact ⟨(Prod.mk.inj hr).2.symm, writeBackAppend_fails hm hheap happend⟩

theorem map_set_findIdx {l : List Consumer} {identity : Bytes} {consumer : Consumer}
    (hid : consumer.identity = identity) :
    (l.set (l.findIdx (·.identity = identity)) consumer).map (·.identity) =
      l.map (·.identity) := by
  induction l with
  | nil => rfl
  | cons c l ih =>
    by_cases hc : c.identity = identity
    · rw [findIdx_cons, decide_eq_true hc]
      simp [hid, hc]
    · rw [findIdx_cons, decide_eq_false hc]
      simp only [cond_false, set_cons_succ, map_cons, ih]

theorem consumerActive_fails (hm : FaithfulMedium m view) {queue' : Queue} {identity : Bytes}
    {consumer : Consumer} (hid : consumer.identity = identity) {w w' : W}
    (h : (consumerActive usable queue identity consumer).run m w = .ok ((false, queue'), w')) :
    SameLists queue queue' ∧ ∀ key, IsList key → view w' key = view w key := by
  obtain ⟨fetchKey, w₁, hlift, hrest⟩ := run_do_ok h
  obtain ⟨⟨ok, fetchIndex⟩, w₂, hfetch, hrest⟩ := run_do_ok hrest
  obtain ⟨hkey, rfl⟩ := run_lift_ok hlift
  have hfetchKey : fetchKey = fetchposKey queue.name consumer.identity := stringAppend3rd_ok hkey
  have hfetchFrame : ∀ key, IsList key → view w₂ key = view w₁ key := by
    intro key hlist
    exact uint64TestInit_frame hm hfetch (hfetchKey ▸ hlist.ne_fetchpos _ _)
  cases ok with
  | false =>
    obtain ⟨-, rfl, rfl⟩ := ok_inj hrest
    exact ⟨⟨rfl, rfl, rfl, rfl, map_set_findIdx hid, rfl, rfl⟩, hfetchFrame⟩
  | true =>
    obtain ⟨markKey, w₃, hlift', hrest'⟩ := run_do_ok
      (p := KvProgram.lift (getKeyOfMarkpos usable queue.name consumer.identity)) hrest
    obtain ⟨⟨ok, markIndex⟩, w₄, hmark, hret⟩ := run_do_ok hrest'
    obtain ⟨hkey', rfl⟩ := run_lift_ok hlift'
    have hmarkKey : markKey = markposKey queue.name consumer.identity := stringAppend3rd_ok hkey'
    cases ok with
    | true => exact nomatch (ok_inj hret).1
    | false =>
      obtain ⟨-, rfl, rfl⟩ := ok_inj hret
      refine ⟨⟨rfl, rfl, rfl, rfl, map_set_findIdx hid, rfl, rfl⟩, ?_⟩
      intro key hlist
      rw [uint64TestInit_frame hm hmark (hmarkKey ▸ hlist.ne_markpos _ _), hfetchFrame key hlist]

theorem run_consumerNewActive (hheap : ∀ n, n ≤ usable n) (queue : Queue) (identity : Bytes)
    (w : W) :
    (consumerNewActive usable queue identity).run m w =
      match (writeBackAppend usable (consumersKey queue.name) (identity.take 255) [comma]).run m w
      with
      | .error e => .error e
      | .ok (false, w₁) => .ok ((false, queue), w₁)
      | .ok (true, w₁) =>
        match getKeyOfFetchpos usable queue.name (identity.take 255) with
        | .error e => .error e
        | .ok fetchKey =>
          if (m.putKVs [(fetchKey, le64 0)] w₁).1 then
            match getKeyOfMarkpos usable queue.name (identity.take 255) with
            | .error e => .error e
            | .ok markKey =>
              let put := m.putKVs [(markKey, le64 0)] (m.putKVs [(fetchKey, le64 0)] w₁).2
              .ok (if put.1 then (true, { queue with
                  activeConsumers := queue.activeConsumers ++
                    [⟨identity.take 255, (queue.consumerAmount % 2 ^ 32).toNat, 0, 0⟩]
                  consumerAmount := intSucc queue.consumerAmount })
                else (false, queue), put.2)
          else .ok ((false, queue), (m.putKVs [(fetchKey, le64 0)] w₁).2) := by
  have hkey : getKeyOfConsumers usable queue.name = .ok (consumersKey queue.name) :=
    stringAppend3rd_two hheap ..
  unfold consumerNewActive
  rw [hkey, run_do]
  dsimp only [KvProgram.lift, KvProgram.run]
  rw [run_do]
  rcases (writeBackAppend usable (consumersKey queue.name) (identity.take 255) [comma]).run m w
    with e | ⟨- | -, w₁⟩
  · rfl
  · rfl
  · dsimp only
    rw [if_neg (by decide), run_do]
    rcases getKeyOfFetchpos usable queue.name (identity.take 255) with e | fetchKey
    · rfl
    · dsimp only [KvProgram.lift, KvProgram.run]
      rw [run_do, run_uint64Write]
      dsimp only
      rcases (m.putKVs [(fetchKey, le64 0)] w₁).1 with - | -
      · rfl
      · rw [if_neg (by decide), if_pos rfl, run_do]
        rcases getKeyOfMarkpos usable queue.name (identity.take 255) with e | markKey
        · rfl
        · dsimp only [KvProgram.lift, KvProgram.run]
          rw [run_do, run_uint64Write]
          rfl

/-- A new consumer is registered without a trace exactly if nothing fails
behind its name in the list. -/
theorem consumerNewActive_iff (hm : FaithfulMedium m view) (hheap : ∀ n, n ≤ usable n)
    (queue : Queue) {identity : Bytes} (hne : identity ≠ []) (hnul : (0 : UInt8) ∉ identity)
    (w : W) :
    (∀ queue' w', (consumerNewActive usable queue identity).run m w = .ok ((false, queue'), w') →
      SameLists queue queue' ∧ ∀ key, IsList key → view w' key = view w key) ↔
    ∀ w₁, (writeBackAppend usable (consumersKey queue.name) (identity.take 255) [comma]).run m w =
      .ok (true, w₁) → PositionsPut m usable queue.name (identity.take 255) w₁ := by
  have hne' : identity.take 255 ≠ [] := by simpa using hne
  have hnul' : (0 : UInt8) ∉ identity.take 255 := fun h => hnul (mem_of_mem_take h)
  have hshort : (identity.take 255).length ≤ 255 := length_take_le ..
  have hlist : IsList (consumersKey queue.name) := .inr ⟨_, .inr rfl⟩
  rw [run_consumerNewActive hheap]
  generalize identity.take 255 = u at hne' hnul' hshort ⊢
  rcases happend : (writeBackAppend usable (consumersKey queue.name) u [comma]).run m w
    with e | ⟨- | -, w₁⟩
  · constructor <;> nofun
  · constructor
    · nofun
    · intro _ queue' w' hrun
      obtain ⟨-, rfl, rfl⟩ := ok_inj hrun
      refine ⟨.refl _, ?_⟩
      intro key _
      rw [writeBackAppend_fails hm hheap happend]
  · have hchanged := writeBackAppend_lands hm hheap hne' hnul' hshort happend
    constructor
    · rintro htrace _ ⟨⟩ hfits
      rw [hfits] at htrace
      dsimp only at htrace
      have hkept : ∀ k, (m.putKVs [(fetchposKey queue.name u, le64 0)] w₁).2 = k →
          view k (consumersKey queue.name) = view w₁ (consumersKey queue.name) := by
        rintro _ rfl
        exact uint64Write_frame hm 0 w₁ (hlist.ne_fetchpos _ _)
      rcases hfetch : (m.putKVs [(fetchposKey queue.name u, le64 0)] w₁).1 with - | -
      · -- `FETCHPOS` cannot be written
        rw [hfetch, if_neg (by decide)] at htrace
        have hsame := (htrace _ _ rfl).2 _ hlist
        rw [hkept _ rfl] at hsame
        exact absurd hsame hchanged
      · refine ⟨rfl, ?_⟩
        intro hfits'
        rw [hfetch, if_pos rfl, hfits'] at htrace
        dsimp only at htrace
        rcases hmark : (m.putKVs [(markposKey queue.name u, le64 0)]
          (m.putKVs [(fetchposKey queue.name u, le64 0)] w₁).2).1 with - | -
        · -- `MARKPOS` cannot be written
          rw [hmark, if_neg (by decide)] at htrace
          have hsame := (htrace _ _ rfl).2 _ hlist
          rw [uint64Write_frame hm 0 _ (hlist.ne_markpos _ _), hkept _ rfl] at hsame
          exact absurd hsame hchanged
        · rfl
    · intro hput queue' w' hrun
      rcases hfits : getKeyOfFetchpos usable queue.name u with e | fetchKey
      · rw [hfits] at hrun
        exact nomatch hrun
      · obtain rfl : fetchKey = fetchposKey queue.name u := stringAppend3rd_ok hfits
        obtain ⟨hfetch, hmark⟩ := hput w₁ rfl hfits
        rw [hfits] at hrun
        dsimp only at hrun
        rw [if_pos hfetch] at hrun
        rcases hfits' : getKeyOfMarkpos usable queue.name u with e | markKey
        · rw [hfits'] at hrun
          exact nomatch hrun
        · obtain rfl : markKey = markposKey queue.name u := stringAppend3rd_ok hfits'
          rw [hfits'] at hrun
          dsimp only at hrun
          rw [if_pos (hmark hfits')] at hrun
          exact nomatch (ok_inj hrun).1

/-- **Failures.** A call that returns `NULL` leaves the lists, the counts and
the strings in the store as they were if and only if none of its steps fails
behind one that changed something. -/
theorem no_trace_iff (hm : FaithfulMedium m view) (hheap : ∀ n, n ≤ usable n) (ctx : Ctx)
    (call : RegisterCall) (hnul : (0 : UInt8) ∉ call.name) (w : W) :
    NoTrace m view usable ctx call w ↔ call.Clean m usable ctx w := by
  cases call with
  | openQueue name flag => exact openQueue_noTrace_iff hm hheap ctx name flag w
  | asProducer q identity =>
    rw [registerIn_noTrace_iff rfl]
    constructor
    · intro _
      trivial
    · intro _ queue _ queue' w' hrun
      obtain ⟨rfl, hview⟩ := registerAsProducer_fails hm hheap hrun
      exact ⟨.refl _, fun key _ => by rw [hview]⟩
  | asConsumer q identity =>
    rw [registerIn_noTrace_iff rfl]
    refine forall₂_congr fun queue _ => ?_
    unfold xmqRegisterAsConsumer
    by_cases hempty : identity = []
    · rw [if_pos hempty]
      constructor
      · intro _ hne
        exact absurd hempty hne
      · intro _ queue' w' hrun
        obtain ⟨-, rfl, rfl⟩ := ok_inj hrun
        exact ⟨.refl _, fun _ _ => rfl⟩
    rw [if_neg hempty]
    have hexist : xmqConsumerExist queue identity = none ↔
        ¬(queue.activeConsumers.find? (·.identity = identity)).isSome ∧
          queue.deadConsumers.find? (·.identity = identity) = none := by
      rw [xmqConsumerExist, Option.or_eq_none_iff]
      simp
    by_cases hactive : (queue.activeConsumers.find? (·.identity = identity)).isSome
    · rw [if_pos hactive]
      constructor
      · intro _ _ hnone
        exact absurd hactive (hexist.mp hnone).1
      · intro _ queue' w' hrun
        cases (ok_inj hrun).1
    rw [if_neg hactive]
    cases hdead : queue.deadConsumers.find? (·.identity = identity) with
    | none =>
      refine (consumerNewActive_iff hm hheap queue hempty hnul w).trans ?_
      exact ⟨fun h _ _ => h, fun h => h hempty (hexist.mpr ⟨hactive, hdead⟩)⟩
    | some consumer =>
      have hid : consumer.identity = identity := by simpa using find?_some hdead
      constructor
      · intro _ _ hnone
        cases hdead.symm.trans (hexist.mp hnone).2
      · intro _ queue' w' hrun
        exact consumerActive_fails hm hid hrun

end Steps

--
-- A medium that fills up
--

/-- The list of pairs that takes only so many writes. -/
def fullMedium : Medium (Nat × List (Bytes × Bytes)) where
  putKVs pairs w := if w.1 = 0 then (false, w) else (true, (w.1 - 1, pairs.reverse ++ w.2))
  getKVs key w := some (Lib.pairsView w.2 key)

theorem fullMedium_faithful : FaithfulMedium fullMedium fun w => Lib.pairsView w.2 where
  put_ok pairs w hok := by
    obtain ⟨w', hput, hview⟩ := (Lib.pairsMedium_lawful (κ := Bytes) (ν := Bytes)).put pairs w.2
    unfold fullMedium at hok ⊢
    dsimp only at hok ⊢
    split
    · next hzero =>
      rw [if_pos hzero] at hok
      cases hok
    · rw [← hview, ← (Prod.mk.inj hput).2]
  put_fail pairs w hfail := by
    unfold fullMedium at hfail ⊢
    dsimp only at hfail ⊢
    split
    · rfl
    · next hpos =>
      rw [if_neg hpos] at hfail
      cases hfail
  get _ _ _ hget := (Option.some.inj hget).symm

/-- A context with one open queue. -/
def openCtx : Ctx where
  queues := Function.update (fun _ => none) (ascii "q")
    (some { freshQueue (ascii "q") with active := true })
  queueAmount := 1

/-- A producer that cannot be written back leaves no trace. -/
theorem no_trace_producer :
    NoTrace fullMedium (fun w => Lib.pairsView w.2) glibcUsable openCtx
      (.asProducer (ascii "q") (ascii "p")) (0, []) :=
  (no_trace_iff fullMedium_faithful le_glibcUsable openCtx (.asProducer (ascii "q") (ascii "p"))
    (by decide) (0, [])).mpr trivial

/-- A consumer whose mark cannot be written stays in the stored list. -/
theorem not_no_trace_consumer :
    ¬NoTrace fullMedium (fun w => Lib.pairsView w.2) glibcUsable openCtx
      (.asConsumer (ascii "q") (ascii "c")) (2, []) := by
  intro h
  have hrun : ((RegisterCall.asConsumer (ascii "q") (ascii "c")).prog glibcUsable openCtx).run
      fullMedium (2, []) = .ok ((false, { openCtx with
        queues := Function.update openCtx.queues (ascii "q")
          (some { freshQueue (ascii "q") with active := true }) }),
        (0, [(fetchposKey (ascii "q") (ascii "c"), le64 0),
          (consumersKey (ascii "q"), ascii "c," ++ [0])])) := rfl
  have hstring := (h _ _ hrun).consumersString (ascii "q")
  revert hstring
  decide

end Supex.Mixmq
