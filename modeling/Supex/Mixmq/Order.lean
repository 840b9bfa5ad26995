import Supex.Mixmq.Capacity

/-!
# libmixmq — the order of messages

The capacity of a queue is kept twice, in memory and in the store, and the
message records are kept under their numbers. `Ordered` says what a queue is
for: the pushes are numbered in their order, both capacities are the number of
pushes, and every message can be fetched under its number.

Main results: `ordered_of_orderly`, `nonblocking_repeats`.
-/

namespace Supex.Mixmq

open List Option
open Lib.KvProgram (exec_bind)

open Lib (KvProgram putAll LawfulMedium run Along)

variable {usable : Nat → Nat} {s : Store} {q : Bytes}

--
-- The pushes of a run
--

/-- A successful push on the queue `q`. -/
def pushOf (q : Bytes) : Call × Out → Option (Msg × Nat)
  | (.pushTail p _ msg, .pushed true index) => if p = q then some (msg, index) else none
  | _ => none

/-- The successful pushes on the queue `q` with the numbers they were given. -/
def pushed (q : Bytes) (log : List (Call × Out)) : List (Msg × Nat) := log.filterMap (pushOf q)

theorem pushed_concat (log : List (Call × Out)) (e : Call × Out) :
    pushed q (log ++ [e]) = pushed q log ++ (pushOf q e).toList := by
  unfold pushed
  rw [filterMap_append]
  cases h : pushOf q e <;> simp [h]

theorem pushOf_own (q pid : Bytes) (msg : Msg) (index : Nat) :
    pushOf q (.pushTail q pid msg, .pushed true index) = some (msg, index) := if_pos rfl

variable {call : Call} {queue : Queue}

theorem pushOf_of_ne (h : call.queue ≠ q) (out : Out) : pushOf q (call, out) = none := by
  unfold pushOf
  split
  · next p _ _ _ heq =>
    obtain ⟨rfl, rfl⟩ := Prod.mk.inj heq
    exact if_neg h
  · rfl

theorem pushOf_of_steady (h : ¬ call.moves) (out : Out) : pushOf q (call, out) = none := by
  unfold pushOf
  split
  · next p _ _ _ heq =>
    obtain ⟨rfl, rfl⟩ := Prod.mk.inj heq
    exact absurd trivial h
  · rfl

--
-- Fetching
--

theorem Msg.bytes_length (msg : Msg) (index : Nat) :
    (msg.bytes index).length = 16 + msg.data.length := by
  unfold Msg.bytes
  rw [length_append, length_append, le64_length, le64_length]

theorem Msg.bytes_size (msg : Msg) (index : Nat) :
    leVal (((msg.bytes index).drop 8).take 8) = msg.data.length := by
  have hlt : msg.data.length < u64Size := by
    have := msg.size_lt
    omega
  have hdrop : (msg.bytes index).drop 8 = le64 msg.data.length ++ msg.data := by
    unfold Msg.bytes
    rw [append_assoc, drop_left' (le64_length index)]
  rw [hdrop, take_left' (le64_length _), leVal_le64 hlt]

theorem msgFetch_exec {index : Nat} {msg : Msg} (hpos : 1 ≤ index) (hle : index ≤ queue.msgCapacity)
    (hs : s (le64 index) = some (msg.bytes index)) :
    (msgFetch queue index).exec s = .ok (.msg (msg.bytes index), []) := by
  unfold msgFetch
  rw [if_neg (by omega)]
  show KvProgram.exec (KvProgram.bind (.get (le64 index) .ret) _) s = _
  have hget : (KvProgram.get (le64 index) .ret : Prog _).exec s =
      .ok (some (some (msg.bytes index)), []) := by
    rw [KvProgram.exec, hs]
    rfl
  have hlen := msg.bytes_length index
  have hmod : (16 + msg.data.length) % u64Size = 16 + msg.data.length :=
    Nat.mod_eq_of_lt msg.size_lt
  rw [exec_bind, hget]
  dsimp only
  rw [if_neg (by omega), msg.bytes_size, hmod, if_neg (by omega)]
  rfl

theorem fetchNth_exec {n : Nat} (hq : QueueOk usable q n queue) {u : Bytes} {consumer : Consumer}
    (hfind : queue.activeConsumers.find? (·.identity = u) = some consumer) {index : Nat} {msg : Msg}
    (millis : Nat) (hpos : 1 ≤ index) (hle : index ≤ n)
    (hs : s (le64 index) = some (msg.bytes index)) :
    ((localStep usable (some queue) (.fetchNth q u index millis)).exec s).map (·.1.1) =
      .ok (.fetched (.msg (msg.bytes index))) := by
  have hexist : xmqConsumerExist queue u = some consumer := by
    unfold xmqConsumerExist
    rw [hfind]
    rfl
  have hkey : getKeyOfFetchpos usable queue.name consumer.identity =
      .ok (fetchposKey q consumer.identity) := by
    rw [hq.name_eq]
    exact hq.fits consumer (mem_of_find?_eq_some hfind)
  have hfetch : (queueFetchNth usable queue u index millis).exec s =
      .ok ((.msg (msg.bytes index), setConsumer queue u { consumer with lastFetchIndex := index }),
        [(fetchposKey q consumer.identity, le64 index)]) := by
    unfold queueFetchNth
    rw [hexist]
    dsimp only
    rw [if_neg (by rw [hq.capacity_eq]; omega), hkey]
    show KvProgram.exec (KvProgram.bind (msgFetch queue index) _) s = _
    rw [exec_bind, msgFetch_exec hpos (by rw [hq.capacity_eq]; exact hle) hs]
    show Except.map _ (KvProgram.exec (KvProgram.bind (uint64Write _ index) _) s) = _
    rw [exec_bind, uint64Write_exec]
    rfl
  show Except.map _ (KvProgram.exec (KvProgram.bind (KvProgram.bind
    (queueFetchNth usable queue u index millis) _) _) s) = _
  rw [exec_bind, exec_bind, hfetch]
  rfl

--
-- The order of a queue
--

section Order

variable {W : Type} {m : Medium W} {view : W → Store}

/-- The pushes on `q` are numbered in their order, the queue has counted them in
memory and in the store, and every active consumer fetches them by their
numbers. -/
structure Ordered (m : Medium W) (usable : Nat → Nat) (view : W → Store) (q : Bytes) (st : Sys W) :
    Prop where
  indices : (pushed q st.log).map (·.2) = List.range' 1 (pushed q st.log).length
  capacity : ∀ queue, st.ctx.queues q = some queue →
    queue.msgCapacity = (pushed q st.log).length ∧
      view st.medium (capacityKey q) = some (le64 (pushed q st.log).length)
  fetched : ∀ queue, st.ctx.queues q = some queue → ∀ u consumer,
    queue.activeConsumers.find? (·.identity = u) = some consumer →
      ∀ i (hi : i < (pushed q st.log).length) millis,
        answer m usable st (.fetchNth q u (i + 1) millis) =
          .ok (.fetched (.msg (((pushed q st.log).get ⟨i, hi⟩).1.bytes (i + 1))))

/-- The bytes of a message that is pushed, its head included. -/
def Call.size : Call → Nat
  | .pushTail _ _ msg => 16 + msg.data.length
  | _ => 0

/-- A call that keeps the order of `q`. -/
structure Orderly (view : W → Store) (q : Bytes) (st : Sys W) (call : Call) : Prop where
  /-- A push on `q` is made in blocking mode, below 4 GiB, and there is a number
  left for it. -/
  own : call.queue = q → call.lands (st.found call) → ∀ queue ∈ st.found call,
    queue.blocking = true ∧ queue.msgCapacity + 1 < u64Size ∧ call.size < 2 ^ 32
  /-- A push on another queue takes a number that `q` has not used. -/
  others : call.queue ≠ q → call.lands (st.found call) → ∀ queue ∈ st.found call,
    ∀ n ∈ pushCapacity (view st.medium) queue,
      storedCapacity (view st.medium) q < (n + 1) % u64Size

/-- What holds in every state of an orderly run. -/
structure OrderInv (usable : Nat → Nat) (s : Store) (q : Bytes) (ctx : Ctx)
    (l : List (Msg × Nat)) : Prop where
  found_ok : ∀ p, FoundOk usable p (ctx.queues p)
  indices : l.map (·.2) = List.range' 1 l.length
  bound : l.length < u64Size
  counted : ∀ queue, ctx.queues q = some queue →
    queue.msgCapacity = l.length ∧ s (capacityKey q) = some (le64 l.length)
  fresh : ctx.queues q = none →
    l = [] ∧ (s (capacityKey q) = none ∨ s (capacityKey q) = some (le64 0))
  messages : ∀ i (hi : i < l.length), s (le64 (i + 1)) = some ((l.get ⟨i, hi⟩).1.bytes (i + 1))

variable {ctx : Ctx} {l : List (Msg × Nat)} {found' : Option Queue} {writes : List (Bytes × Bytes)}

theorem OrderInv.stored (h : OrderInv usable s q ctx l) : storedCapacity s q = l.length := by
  cases hq : ctx.queues q with
  | none =>
    obtain ⟨rfl, hs⟩ := h.fresh hq
    rcases hs with hs | hs
    · unfold storedCapacity
      rw [hs]
      rfl
    · exact storedCapacity_of_some hs (by decide)
  | some queue => exact storedCapacity_of_some (h.counted queue hq).2 h.bound

theorem OrderInv.keep {t : Store} {ctx' : Ctx} (h : OrderInv usable s q ctx l)
    (hfound : ∀ p, FoundOk usable p (ctx'.queues p)) (hcap : t (capacityKey q) = s (capacityKey q))
    (hmem : (ctx'.queues q).map (·.msgCapacity) = (ctx.queues q).map (·.msgCapacity))
    (hmsg : ∀ i, i < l.length → t (le64 (i + 1)) = s (le64 (i + 1))) :
    OrderInv usable t q ctx' l := by
  refine ⟨hfound, h.indices, h.bound, fun queue' hqueue' => ?_, fun hnone => ?_, fun i hi => ?_⟩
  · rw [hqueue'] at hmem
    obtain ⟨queue, hqueue, heq⟩ := map_eq_some_iff.mp hmem.symm
    change queue.msgCapacity = queue'.msgCapacity at heq
    rw [← heq, hcap]
    exact h.counted queue hqueue
  · rw [hnone] at hmem
    rw [hcap]
    exact h.fresh (map_eq_none_iff.mp hmem.symm)
  · rw [hmsg i hi]
    exact h.messages i hi

theorem messages_frame (hheap : ∀ n, n ≤ usable n) {found : Option Queue} {out : Out}
    (hf : FoundOk usable call.queue found)
    (hexec : (localStep usable found call).exec s = .ok ((out, found'), writes)) {i k : Nat}
    (hi : i < k) (hpush : call.lands found → ∀ queue n, found = some queue →
      pushCapacity s queue = some n → k < (n + 1) % u64Size) :
    putAll s writes (le64 (i + 1)) = s (le64 (i + 1)) := by
  refine localStep_frame hheap hf hexec (messageKey_notMem_ownKeys _ _ _)
    (fun _ => messageKey_ne_queuesKey _) fun hlands queue n hqueue hn hkey => ?_
  have hlt := hpush hlands queue n hqueue hn
  have hmod : (n + 1) % u64Size < u64Size := Nat.mod_lt _ (by decide)
  have hi' := congrArg leVal hkey
  rw [leVal_le64 (by omega), leVal_le64 hmod] at hi'
  omega

theorem OrderInv.other (hheap : ∀ n, n ≤ usable n) (h : OrderInv usable s q ctx l)
    (hne : call.queue ≠ q)
    (hothers : call.lands (ctx.queues call.queue) → ∀ queue ∈ ctx.queues call.queue,
      ∀ n ∈ pushCapacity s queue, storedCapacity s q < (n + 1) % u64Size) {out : Out}
    (hexec : (localStep usable (ctx.queues call.queue) call).exec s = .ok ((out, found'), writes)) :
    OrderInv usable (putAll s writes) q (ctx.put call.queue found') l := by
  have hf := h.found_ok call.queue
  refine h.keep (put_found h.found_ok (localStep_found hf hexec)) ?_ ?_ fun i hi => ?_
  · refine localStep_frame hheap hf hexec ?_ ?_ ?_
    · exact notMem_ownKeys (U := ∅) hne (fun u hu => absurd hu (Set.notMem_empty u)) (.inl rfl)
    · exact fun _ hkey => queuesKey_notMem_ownKeys q ∅ (.inl hkey.symm)
    · exact fun _ _ _ _ _ hkey => messageKey_notMem_ownKeys q ∅ _ (.inl hkey.symm)
  · rw [Ctx.put_of_ne (Ne.symm hne)]
  · refine messages_frame hheap hf hexec hi fun hlands queue n hqueue hn => ?_
    rw [← h.stored]
    exact hothers hlands queue hqueue n hn

theorem OrderInv.openQueue (hheap : ∀ n, n ≤ usable n) (h : OrderInv usable s q ctx l) {flag : Nat}
    {out : Out} (hexec : (localStep usable (ctx.queues q) (.openQueue q flag)).exec s =
      .ok ((out, found'), writes)) : OrderInv usable (putAll s writes) q (ctx.put q found') l := by
  have hf : FoundOk usable (Call.openQueue q flag).queue (ctx.queues q) := h.found_ok q
  have hcap : CapacityOpened s (putAll s writes) q (ctx.queues q) found' :=
    openQueue_capacity hheap hf hexec
  have hmsg : ∀ i, i < l.length → putAll s writes (le64 (i + 1)) = s (le64 (i + 1)) :=
    fun i hi => messages_frame hheap hf hexec hi nofun
  have hfound := put_found h.found_ok (localStep_found hf hexec)
  -- a record that is there stays, and is loaded
  have hs : s (capacityKey q) = some (le64 l.length) ∨ s (capacityKey q) = none ∧ l = [] := by
    cases hq : ctx.queues q with
    | some queue => exact .inl (h.counted queue hq).2
    | none =>
      obtain ⟨rfl, hs⟩ := h.fresh hq
      exact hs.symm.imp id fun hs => ⟨hs, rfl⟩
  have hs' : putAll s writes (capacityKey q) = some (le64 l.length) ∨
      putAll s writes (capacityKey q) = none ∧ l = [] := by
    rcases hcap.stored with hsame | hsame
    · rwa [hsame]
    · left
      rw [hsame]
      rcases hs with hs | ⟨hs, rfl⟩
      · rw [hs]
        rfl
      · rw [hs]
        rfl
  refine ⟨hfound, h.indices, h.bound, fun queue' hqueue' => ?_, fun hnone => ?_, fun i hi => ?_⟩
  · rw [Ctx.put_self] at hqueue'
    refine ⟨?_, hs'.resolve_right fun hnone => ?_⟩
    · rcases hcap.loaded queue' hqueue' with hload | ⟨queue, hqueue, hload⟩
      · rw [hload, h.stored]
      · rw [hload, (h.counted queue hqueue).1]
    · cases hq : ctx.queues q with
      | some queue =>
        have hcounted := (h.counted queue hq).2
        rcases hcap.stored with hsame | hsame
        · rw [hsame, hcounted] at hnone
          exact absurd hnone.1 (some_ne_none _)
        · rw [hsame] at hnone
          exact absurd hnone.1 (some_ne_none _)
      | none => exact hcap.created hq (by rw [hqueue']; exact some_ne_none _) hnone.1
  · rw [Ctx.put_self] at hnone
    have hq : ctx.queues q = none := by
      by_contra hq
      exact hcap.kept hq hnone
    obtain ⟨rfl, -⟩ := h.fresh hq
    exact ⟨rfl, hs'.symm.imp (fun h => h.1) id⟩
  · rw [hmsg i hi]
    exact h.messages i hi

theorem OrderInv.pushCapacity_eq (h : OrderInv usable s q ctx l)
    (hqueue : ctx.queues q = some queue) : pushCapacity s queue = some l.length := by
  obtain ⟨hmem, hs⟩ := h.counted queue hqueue
  have hname := (h.found_ok q queue hqueue).name_eq
  unfold pushCapacity
  rw [hname, hs]
  dsimp only
  rw [if_pos (le64_length _), leVal_le64 h.bound, hmem]
  exact ite_self _

theorem OrderInv.push (hheap : ∀ n, n ≤ usable n) (h : OrderInv usable s q ctx l)
    (hqueue : ctx.queues q = some queue) {pid : Bytes} {msg : Msg}
    (hpid : xmqProducerExist queue pid ≠ none) (hblock : queue.blocking = true)
    (hbound : l.length + 1 < u64Size) (hsize : 16 + msg.data.length < 2 ^ 32) {out : Out}
    (hexec : (localStep usable (some queue) (.pushTail q pid msg)).exec s =
      .ok ((out, found'), writes)) :
    out = .pushed true (l.length + 1) ∧
      OrderInv usable (putAll s writes) q (ctx.put q found') (l ++ [(msg, l.length + 1)]) := by
  have hok := h.found_ok q queue hqueue
  have hf : FoundOk usable (Call.pushTail q pid msg).queue (some queue) := FoundOk.some hok
  have hfound := put_found h.found_ok (localStep_found hf hexec)
  obtain ⟨pre, hpre, hexec'⟩ :=
    pushTail_lands hheap msg hok.name_eq hpid (h.pushCapacity_eq hqueue)
  rw [hexec'] at hexec
  cases hexec
  rw [putAll_pushWrites hpre, Nat.mod_eq_of_lt hbound]
  have hlen : (l ++ [(msg, l.length + 1)]).length = l.length + 1 := by simp
  have htake : (msg.bytes (l.length + 1)).take (u32 (msg.bytes (l.length + 1)).length) =
      msg.bytes (l.length + 1) := by
    rw [msg.bytes_length]
    refine take_of_length_le ?_
    rw [msg.bytes_length]
    exact (Nat.mod_eq_of_lt hsize).ge
  refine ⟨rfl, hfound, ?_, by rwa [hlen], ?_, ?_, fun i hi => ?_⟩
  · rw [map_append, h.indices, hlen, range'_concat]
    simp [Nat.add_comm]
  · intro queue' hqueue'
    rw [Ctx.put_self] at hqueue'
    cases hqueue'
    refine ⟨?_, by rw [hlen]; exact Function.update_self ..⟩
    unfold Queue.afterPush
    rw [if_pos hblock, Nat.mod_eq_of_lt hbound, hlen]
  · intro hnone
    rw [Ctx.put_self] at hnone
    cases hnone
  · have hcap : le64 (i + 1) ≠ capacityKey q :=
      fun hkey => messageKey_notMem_ownKeys q ∅ (i + 1) (.inl hkey)
    rw [pushStore, Function.update_of_ne hcap]
    rw [hlen] at hi
    rcases Nat.lt_or_ge i l.length with hlt | hge
    · have hne : le64 (i + 1) ≠ le64 (l.length + 1) := by
        intro hkey
        have hval := congrArg leVal hkey
        rw [leVal_le64 (by omega), leVal_le64 hbound] at hval
        omega
      rw [Function.update_of_ne hne, h.messages i hlt]
      simp [getElem_append_left hlt]
    · obtain rfl : i = l.length := by omega
      rw [Function.update_self, htake]
      simp

theorem OrderInv.ordered (hm : LawfulMedium m view) {st : Sys W}
    (h : OrderInv usable (view st.medium) q st.ctx (pushed q st.log)) :
    Ordered m usable view q st where
  indices := h.indices
  capacity := h.counted
  fetched queue hqueue u consumer hfind i hi millis := by
    have hok := h.found_ok q queue hqueue
    rw [(h.counted queue hqueue).1] at hok
    rw [answer_lawful hm]
    show Except.map _ ((localStep usable (st.ctx.queues q) _).exec _) = _
    rw [hqueue]
    exact fetchNth_exec hok hfind millis (by omega) hi (h.messages i hi)

theorem OrderInv.step (hm : LawfulMedium m view) (hheap : ∀ n, n ≤ usable n) {st st' : Sys W}
    (h : OrderInv usable (view st.medium) q st.ctx (pushed q st.log))
    (horder : Orderly view q st call) (hserve : serve m usable st call = .ok st') :
    OrderInv usable (view st'.medium) q st'.ctx (pushed q st'.log) := by
  obtain ⟨out, found', writes, hexec, hctx, hlog, hview⟩ := serve_ok hm hserve
  rw [hctx, hlog, hview, pushed_concat]
  by_cases hq : call.queue = q
  · subst hq
    have hf := h.found_ok call.queue
    by_cases hmoves : call.moves
    · cases call with
      | openQueue q flag =>
        have hnone : pushOf q (.openQueue q flag, out) = none := rfl
        show OrderInv _ _ q _ (_ ++ (pushOf q _).toList)
        rw [hnone, toList_none, append_nil]
        exact h.openQueue hheap hexec
      | pushTail q pid msg =>
        show OrderInv _ _ q _ (_ ++ (pushOf q _).toList)
        change (localStep usable (st.ctx.queues q) _).exec _ = _ at hexec
        by_cases hlands : (Call.pushTail q pid msg).lands (st.ctx.queues q)
        · obtain ⟨queue, hqueue, hpid⟩ := hlands
          obtain ⟨hblock, hbound, hsize⟩ := horder.own rfl ⟨queue, hqueue, hpid⟩ queue hqueue
          rw [(h.counted queue hqueue).1] at hbound
          rw [hqueue] at hexec
          obtain ⟨rfl, hinv⟩ := h.push hheap hqueue hpid hblock hbound hsize hexec
          rw [pushOf_own]
          exact hinv
        · rw [pushTail_fails hheap fun queue hqueue hpid =>
            absurd ⟨queue, hqueue, hpid⟩ hlands] at hexec
          cases hexec
          have hnone : pushOf q (.pushTail q pid msg, .pushed false 0) = none := rfl
          rw [hnone, toList_none, append_nil]
          refine h.keep (put_found h.found_ok (h.found_ok q)) rfl ?_ fun _ _ => rfl
          rw [Ctx.put_self]
          rfl
      | _ => cases hmoves
    · -- nothing that counts is touched
      rw [pushOf_of_steady hmoves, toList_none, append_nil]
      obtain ⟨hmem, hcap⟩ := localStep_steady hf hmoves hexec
      refine h.keep (put_found h.found_ok (localStep_found hf hexec)) hcap ?_ fun i hi => ?_
      · rw [Ctx.put_self, hmem]
      · refine messages_frame hheap hf hexec hi fun hlands => ?_
        exact absurd (Call.moves_of_lands hlands) hmoves
  · rw [pushOf_of_ne hq, toList_none, append_nil]
    exact h.other hheap hq (horder.others hq) hexec

/-- **Order.** A queue that is new to its store is in order in every state that
an orderly run reaches. -/
theorem ordered_of_orderly (hm : LawfulMedium m view) (hheap : ∀ n, n ≤ usable n) {w : W}
    {st st' : Sys W} (hst : Started m usable w st) (hnew : st.ctx.queues q = none)
    (hblank : view st.medium (capacityKey q) = none) {calls : List Call}
    (h : Along (serve m usable) (Orderly view q) st calls)
    (hrun : run (serve m usable) st calls = .ok st') : Ordered m usable view q st' := by
  have hstart : OrderInv usable (view st.medium) q st.ctx (pushed q st.log) := by
    rw [hst.2]
    refine ⟨started_found hst, rfl, by show 0 < u64Size; decide, fun queue hqueue => ?_,
      fun _ => ⟨rfl, .inl hblank⟩, nofun⟩
    rw [hnew] at hqueue
    cases hqueue
  have hinv := Lib.run_inv_along (I := fun st => OrderInv usable (view st.medium) q st.ctx
    (pushed q st.log)) (fun _ _ _ hinv hp hstep => hinv.step hm hheap hp hstep) hstart h hrun
  exact hinv.ordered hm

instance (q : Bytes) (st : Sys W) (call : Call) : Decidable (Orderly view q st call) :=
  decidable_of_iff
    ((call.queue = q → call.lands (st.found call) → ∀ queue ∈ st.found call,
      queue.blocking = true ∧ queue.msgCapacity + 1 < u64Size ∧ call.size < 2 ^ 32) ∧
    (call.queue ≠ q → call.lands (st.found call) → ∀ queue ∈ st.found call,
      ∀ n ∈ pushCapacity (view st.medium) queue,
        storedCapacity (view st.medium) q < (n + 1) % u64Size))
    ⟨fun h => ⟨h.1, h.2⟩, fun h => ⟨h.own, h.others⟩⟩

end Order

--
-- Queues with and without the flag
--

/-- A queue is opened with the given flags; two pushes, and a reopening. -/
def pushedTwice (flag : Nat) : List Call :=
  [.openQueue (ascii "q") flag, .registerAsProducer (ascii "q") (ascii "p"),
    .pushTail (ascii "q") (ascii "p") (sampleMsg 1), .unregisterProducer (ascii "q") (ascii "p"),
    .closeQueue (ascii "q"), .openQueue (ascii "q") flag,
    .registerAsConsumer (ascii "q") (ascii "u"), .pushTail (ascii "q") (ascii "p") (sampleMsg 2)]

theorem ordered_pushedTwice :
    Along (serve Lib.pairsMedium glibcUsable) (Orderly Lib.pairsView (ascii "q")) emptySys
      (pushedTwice 1) ∧
    ∃ st, run (serve Lib.pairsMedium glibcUsable) emptySys (pushedTwice 1) = .ok st ∧
      (pushed (ascii "q") st.log).length = 2 ∧
      Ordered Lib.pairsMedium glibcUsable Lib.pairsView (ascii "q") st := by
  have h : Along (serve Lib.pairsMedium glibcUsable) (Orderly Lib.pairsView (ascii "q")) emptySys
      (pushedTwice 1) := by decide +kernel
  have hlen : ((run (serve Lib.pairsMedium glibcUsable) emptySys (pushedTwice 1)).map
      fun st => (pushed (ascii "q") st.log).length).toOption = some 2 := by decide +kernel
  refine ⟨h, ?_⟩
  cases hrun : run (serve Lib.pairsMedium glibcUsable) emptySys (pushedTwice 1) with
  | error e =>
    rw [hrun] at hlen
    cases hlen
  | ok st =>
    rw [hrun] at hlen
    exact ⟨st, rfl, Option.some.inj hlen, ordered_of_orderly (w := []) Lib.pairsMedium_lawful
      le_glibcUsable ⟨rfl, rfl⟩ rfl rfl h hrun⟩

/-- Three pushes on a queue that is opened without `F_QUEUE_BLOCK`. -/
def pushedThrice : List Call :=
  [.openQueue (ascii "q") 0, .registerAsProducer (ascii "q") (ascii "p"),
    .pushTail (ascii "q") (ascii "p") (sampleMsg 1),
    .pushTail (ascii "q") (ascii "p") (sampleMsg 2),
    .pushTail (ascii "q") (ascii "p") (sampleMsg 3)]

/-- The second and the third push get the same number. -/
theorem nonblocking_repeats :
    ∃ st, run (serve Lib.pairsMedium glibcUsable) emptySys pushedThrice = .ok st ∧
      (pushed (ascii "q") st.log).map (·.2) = [1, 2, 2] ∧
      ¬ Ordered Lib.pairsMedium glibcUsable Lib.pairsView (ascii "q") st := by
  have hindices : ((run (serve Lib.pairsMedium glibcUsable) emptySys pushedThrice).map
      fun st => (pushed (ascii "q") st.log).map (·.2)).toOption = some [1, 2, 2] := by
    decide +kernel
  cases hrun : run (serve Lib.pairsMedium glibcUsable) emptySys pushedThrice with
  | error e =>
    rw [hrun] at hindices
    cases hindices
  | ok st =>
    rw [hrun] at hindices
    have heq : (pushed (ascii "q") st.log).map (·.2) = [1, 2, 2] := Option.some.inj hindices
    refine ⟨st, rfl, heq, fun h => ?_⟩
    have hlen : (pushed (ascii "q") st.log).length = 3 := by
      simpa using congrArg List.length heq
    have horder := h.indices
    rw [heq, hlen] at horder
    exact absurd horder (by decide)

end Supex.Mixmq
