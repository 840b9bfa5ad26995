import Mathlib.Data.List.TakeWhile
import Supex.Mixmq.Footprint

/-!
# libmixmq — what a call does to the store

Over a medium that keeps what is written, a call is a function of the content
of the store. Here is that function for the calls that move the capacity of a
queue or the list of queues.

* `serve_lawful` — a call on a context, as a function of the store.
* `openQueue_capacity` — opening: the capacity is loaded, or created.
* `localStep_steady`, `localStep_frame` — what the other calls leave alone.

Main results: `queuePushTail_exec`, `openQueue_new`.
-/

namespace Supex.Mixmq

open List Lib.KvProgram

open Lib (KvProgram putAll LawfulMedium)
open Function (update update_of_ne update_self)

variable {usable : Nat → Nat} {s : Store}

--
-- Calls on a lawful medium
--

variable {q : Bytes} {writes : List (Bytes × Bytes)} {found found' : Option Queue} {call : Call}
  {out : Out} {queue : Queue}

section Serve

variable {W : Type} {m : Medium W} {view : W → Store}

theorem serve_lawful (hm : LawfulMedium m view) {st : Sys W} {queue : Option Queue}
    (h : (localStep usable (st.ctx.queues call.queue) call).exec (view st.medium) =
      .ok ((out, queue), writes)) :
    ∃ w, serve m usable st call = .ok ⟨st.ctx.put call.queue queue, w, st.log ++ [(call, out)]⟩ ∧
      view w = putAll (view st.medium) writes := by
  have hrun := run_lawful hm (localStep usable (st.ctx.queues call.queue) call) st.medium
  rw [h] at hrun
  obtain ⟨w, hrun, hview⟩ := hrun
  refine ⟨w, ?_, hview⟩
  unfold serve
  rw [hrun]

theorem serve_ok (hm : LawfulMedium m view) {st st' : Sys W}
    (h : serve m usable st call = .ok st') :
    ∃ out queue writes,
      (localStep usable (st.ctx.queues call.queue) call).exec (view st.medium) =
        .ok ((out, queue), writes) ∧
      st'.ctx = st.ctx.put call.queue queue ∧ st'.log = st.log ++ [(call, out)] ∧
      view st'.medium = putAll (view st.medium) writes := by
  cases hexec : (localStep usable (st.ctx.queues call.queue) call).exec (view st.medium) with
  | error e =>
    have hrun := run_lawful hm (localStep usable (st.ctx.queues call.queue) call)
      st.medium
    rw [hexec] at hrun
    unfold serve at h
    rw [hrun] at h
    cases h
  | ok r =>
    obtain ⟨⟨out, queue⟩, writes⟩ := r
    obtain ⟨w, hserve, hview⟩ := serve_lawful hm hexec
    rw [hserve, Except.ok.injEq] at h
    subst h
    exact ⟨out, queue, writes, rfl, rfl, rfl, hview⟩

/-- What the next call would return. -/
def answer (m : Medium W) (usable : Nat → Nat) (st : Sys W) (call : Call) : Except Fault Out :=
  ((localStep usable (st.found call) call).run m st.medium).map (·.1.1)

theorem answer_lawful (hm : LawfulMedium m view) (st : Sys W) (call : Call) :
    answer m usable st call =
      ((localStep usable (st.found call) call).exec (view st.medium)).map (·.1.1) := by
  have hrun := run_lawful hm (localStep usable (st.found call) call) st.medium
  unfold answer
  cases hexec : (localStep usable (st.found call) call).exec (view st.medium) with
  | error e =>
    rw [hexec] at hrun
    rw [hrun]
    rfl
  | ok r =>
    rw [hexec] at hrun
    obtain ⟨w', hrun, -⟩ := hrun
    rw [hrun]
    rfl

theorem started_found {w : W} {st : Sys W} (h : Started m usable w st) (p : Bytes) :
    FoundOk usable p (st.ctx.queues p) := by
  have hinit : (xmqContextInit usable).Within Set.univ Set.univ
      fun r => ∀ p, FoundOk usable p (r.2.queues p) := by
    refine KvProgram.Within.lift_bind fun key _ => ?_
    refine KvProgram.Within.bind (loadStringList_within trivial) fun r _ => ?_
    cases r with
    | none => exact fun p => nofun
    | some r =>
      intro p queue hqueue
      change (if p ∈ r.2 then some (freshQueue p) else none) = some queue at hqueue
      split at hqueue
      · rw [← Option.some.inj hqueue]
        exact queueOk_fresh p
      · cases hqueue
  exact hinit.run h.1 p

end Serve

@[simp] theorem Ctx.put_self (ctx : Ctx) (q : Bytes) (queue : Option Queue) :
    (ctx.put q queue).queues q = queue := update_self ..

theorem Ctx.put_of_ne {ctx : Ctx} {p : Bytes} {queue : Option Queue} (h : q ≠ p) :
    (ctx.put p queue).queues q = ctx.queues q := update_of_ne h ..

--
-- Capacities
--

/-- The capacity a store holds for a queue; 0 when it holds none. -/
def storedCapacity (s : Store) (q : Bytes) : Nat :=
  match s (capacityKey q) with
  | none => 0
  | some value => if value.length = 8 then leVal value else 0

theorem storedCapacity_congr {s t : Store} (h : s (capacityKey q) = t (capacityKey q)) :
    storedCapacity s q = storedCapacity t q := by
  unfold storedCapacity
  rw [h]

theorem storedCapacity_of_some {n : Nat} (h : s (capacityKey q) = some (le64 n))
    (hn : n < u64Size) : storedCapacity s q = n := by
  unfold storedCapacity
  rw [h]
  dsimp only
  rw [if_pos (le64_length n), leVal_le64 hn]

theorem writeStringBin_exec {key value : Bytes} (h : value ≠ []) (hlt : value.length < 2 ^ 32) :
    (writeStringBin key value).exec s = .ok (true, [(key, value)]) := by
  have hu : u32 value.length = value.length := Nat.mod_eq_of_lt hlt
  unfold writeStringBin
  rw [hu, if_neg (by simpa using h), take_length]
  rfl

theorem uint64Write_exec (key : Bytes) (n : Nat) :
    (uint64Write key n).exec s = .ok (true, [(key, le64 n)]) := by
  refine writeStringBin_exec (fun h => ?_) ?_
  · have := congrArg List.length h
    rw [le64_length] at this
    cases this
  · rw [le64_length]
    decide

theorem uint64TestInit_exec (key : Bytes) (cur init : Nat) :
    (uint64TestInit key cur init).exec s =
      match s key with
      | none => .ok ((true, init), [(key, le64 init)])
      | some value => .ok (if value.length = 8 then (true, leVal value) else (false, cur), []) := by
  show KvProgram.exec (KvProgram.bind (uint64Read key) _) s = _
  have hread : (uint64Read key).exec s = .ok (match s key with
      | none => some none
      | some value => if value.length = 8 then some (some (leVal value)) else none, []) := by
    show KvProgram.exec (KvProgram.get key _) s = _
    rw [KvProgram.exec]
    cases s key <;> rfl
  rw [exec_bind, hread]
  cases hs : s key with
  | none =>
    show Except.map _ (KvProgram.exec (KvProgram.bind (uint64Write key init) _) s) = _
    rw [exec_bind, uint64Write_exec]
    rfl
  | some value =>
    by_cases hlen : value.length = 8
    · dsimp only
      rw [if_pos hlen, if_pos hlen]
      rfl
    · dsimp only
      rw [if_neg hlen, if_neg hlen]
      rfl

--
-- Pushing
--

/-- The capacity a push counts from, unless the stored one is no number. -/
def pushCapacity (s : Store) (queue : Queue) : Option Nat :=
  if queue.msgCapacity = 0 then
    match s (capacityKey queue.name) with
    | none => some 0
    | some value => if value.length = 8 then some (leVal value) else none
  else some queue.msgCapacity

/-- The queue after a push that counted from `n`. -/
def Queue.afterPush (queue : Queue) (n : Nat) : Queue :=
  { queue with msgCapacity := if queue.blocking then (n + 1) % u64Size else n }

/-- The writes of a push. -/
def pushWrites (q : Bytes) (index : Nat) (msg : Msg) : List (Bytes × Bytes) :=
  [(le64 index, (msg.bytes index).take (u32 (msg.bytes index).length)),
    (capacityKey q, le64 index)]

/-- The store after it. -/
def pushStore (s : Store) (q : Bytes) (index : Nat) (msg : Msg) : Store :=
  Function.update (Function.update s (le64 index)
    (some ((msg.bytes index).take (u32 (msg.bytes index).length)))) (capacityKey q)
    (some (le64 index))

theorem reloadCapacity_exec (queue : Queue) :
    (reloadCapacity (capacityKey queue.name) queue).exec s =
      match pushCapacity s queue with
      | none => .ok ((false, 0), [])
      | some n => .ok ((true, n), if queue.msgCapacity = 0 ∧ s (capacityKey queue.name) = none then
          [(capacityKey queue.name, le64 0)] else []) := by
  unfold reloadCapacity pushCapacity
  by_cases hzero : queue.msgCapacity = 0
  · rw [if_pos hzero, if_pos hzero, uint64TestInit_exec]
    cases s (capacityKey queue.name) with
    | none =>
      rw [if_pos ⟨hzero, rfl⟩]
    | some value =>
      by_cases hlen : value.length = 8
      · dsimp only
        rw [if_pos hlen, if_pos hlen]
        rw [if_neg (by simp)]
      · dsimp only
        rw [if_neg hlen, if_neg hlen]
  · rw [if_neg hzero, if_neg hzero]
    rw [if_neg fun h => hzero h.1]
    rfl

theorem messagePut_exec (queue : Queue) (n : Nat) (msg : Msg) :
    (messagePut (capacityKey queue.name) { queue with msgCapacity := n } msg).exec s =
      .ok (((true, (n + 1) % u64Size), queue.afterPush n),
        pushWrites queue.name ((n + 1) % u64Size) msg) := by
  unfold Queue.afterPush
  cases hb : queue.blocking with
  | false =>
    have hif : ({ queue with msgCapacity := n } : Queue).blocking = false := hb
    show Except.ok (((true, _), if (true && _) = true then _ else _), _) = _
    rw [hif]
    rfl
  | true =>
    have hif : ({ queue with msgCapacity := n } : Queue).blocking = true := hb
    show Except.ok (((true, _), if (true && _) = true then _ else _), _) = _
    rw [hif]
    rfl

theorem putAll_pushWrites {index : Nat} {msg : Msg} {pre : List (Bytes × Bytes)}
    (hpre : ∀ p ∈ pre, p.1 = capacityKey q) :
    putAll s (pre ++ pushWrites q index msg) = pushStore s q index msg := by
  rw [Lib.putAll_append]
  show update (update (putAll s pre) _ _) _ _ = _
  unfold pushStore
  funext key
  by_cases hcap : key = capacityKey q
  · rw [hcap, update_self, update_self]
  · rw [update_of_ne hcap, update_of_ne hcap]
    by_cases hmsg : key = le64 index
    · rw [hmsg, update_self, update_self]
    · rw [update_of_ne hmsg, update_of_ne hmsg]
      exact Lib.putAll_of_notMem fun p hp hpk => hcap (hpk ▸ hpre p hp)

/-- **Pushing.** A push that gets past its producer writes the message under the
number after the capacity it counts from, and that number as the capacity. -/
theorem queuePushTail_exec (hheap : ∀ n, n ≤ usable n) {pid : Bytes} (msg : Msg)
    (hpid : xmqProducerExist queue pid ≠ none) :
    match pushCapacity s queue with
    | none => (queuePushTail usable queue pid msg).exec s = .ok (((false, 0), queue), [])
    | some n => ∃ pre, (∀ p ∈ pre, p.1 = capacityKey queue.name) ∧
        (queuePushTail usable queue pid msg).exec s =
          .ok (((true, (n + 1) % u64Size), queue.afterPush n),
            pre ++ pushWrites queue.name ((n + 1) % u64Size) msg) := by
  have hkey : getKeyOfCapacity usable queue.name = .ok (capacityKey queue.name) :=
    stringAppend3rd_two hheap ..
  have hunfold : (queuePushTail usable queue pid msg).exec s =
      ((reloadCapacity (capacityKey queue.name) queue).bind fun r =>
        if !r.1 then .ret ((false, 0), queue)
        else messagePut (capacityKey queue.name) { queue with msgCapacity := r.2 } msg).exec s := by
    unfold queuePushTail
    rw [if_neg hpid, hkey]
    rfl
  rw [hunfold, exec_bind, reloadCapacity_exec]
  cases pushCapacity s queue with
  | none => rfl
  | some n =>
    dsimp only
    rw [if_neg (show ¬ (!true) = true by decide), messagePut_exec]
    refine ⟨_, fun p hp => ?_, rfl⟩
    split at hp
    · rw [mem_singleton.mp hp]
    · cases hp

theorem pushTail_fails (hheap : ∀ n, n ≤ usable n) {pid : Bytes} {msg : Msg}
    (h : ∀ queue, found = some queue → xmqProducerExist queue pid ≠ none →
      pushCapacity s queue = none) :
    (localStep usable found (.pushTail q pid msg)).exec s = .ok ((.pushed false 0, found), []) := by
  cases found with
  | none => rfl
  | some queue =>
    have hpush : (queuePushTail usable queue pid msg).exec s = .ok (((false, 0), queue), []) := by
      by_cases hpid : xmqProducerExist queue pid = none
      · unfold queuePushTail
        rw [if_pos hpid]
        rfl
      · have hexec := queuePushTail_exec (s := s) hheap msg hpid
        rw [h queue rfl hpid] at hexec
        exact hexec
    exact exec_map (exec_map hpush rfl) rfl

theorem pushTail_lands (hheap : ∀ n, n ≤ usable n) {pid : Bytes} (msg : Msg) {n : Nat}
    (hname : queue.name = q) (hpid : xmqProducerExist queue pid ≠ none)
    (hn : pushCapacity s queue = some n) :
    ∃ pre, (∀ p ∈ pre, p.1 = capacityKey q) ∧
      (localStep usable (some queue) (.pushTail q pid msg)).exec s =
        .ok ((.pushed true ((n + 1) % u64Size), some (queue.afterPush n)),
          pre ++ pushWrites q ((n + 1) % u64Size) msg) := by
  have hexec := queuePushTail_exec (s := s) hheap msg hpid
  rw [hn] at hexec
  obtain ⟨pre, hpre, hexec⟩ := hexec
  rw [hname] at hpre hexec
  refine ⟨pre, hpre, ?_⟩
  exact exec_map (exec_map hexec rfl) rfl

--
-- Opening
--

theorem queueActive_exec (hheap : ∀ n, n ≤ usable n) {n : Nat} (hq : QueueOk usable q n queue)
    {ok : Bool} {queue' : Queue}
    (h : (queueActive usable queue).exec s = .ok ((ok, queue'), writes)) :
    match s (capacityKey q) with
    | none => writes = [(capacityKey q, le64 0)] ∧ queue'.msgCapacity = 0
    | some value => writes = [] ∧
        queue'.msgCapacity = if value.length = 8 then leVal value else n := by
  have hkey : getKeyOfCapacity usable queue.name = .ok (capacityKey q) := by
    rw [← hq.name_eq]
    exact stringAppend3rd_two hheap ..
  have hunfold : queueActive usable queue =
      (uint64TestInit (capacityKey q) n 0).bind fun r =>
        if !r.1 then .ret (false, { queue with msgCapacity := r.2 })
        else listsLoad usable { queue with msgCapacity := r.2 } := by
    unfold queueActive
    rw [hkey, hq.capacity_eq]
    rfl
  -- the lists are loaded without a write
  have hrest : ∀ r : Bool × Nat, (if !r.1 then .ret (false, { queue with msgCapacity := r.2 })
      else listsLoad usable { queue with msgCapacity := r.2 } : Prog (Bool × Queue)).Within
        Set.univ ∅ fun r' => r'.2.msgCapacity = r.2 := by
    intro r
    split
    · exact rfl
    · have hq' : QueueOk usable q r.2 { queue with msgCapacity := r.2 } :=
        ⟨hq.name_eq, rfl, hq.short, hq.fits⟩
      exact (listsLoad_within (U := ∅) hq' fun _ _ => trivial).mono fun r' hr' => hr'.capacity_eq
  rw [hunfold] at h
  obtain ⟨r, l₁, l₂, hinit, hlists, rfl⟩ := exec_bind_ok h
  obtain ⟨hcap, hnone⟩ := (hrest r).exec hlists
  have hl₂ : l₂ = [] := eq_nil_iff_forall_not_mem.mpr fun p hp => hnone p hp
  rw [uint64TestInit_exec] at hinit
  cases hs : s (capacityKey q) with
  | none =>
    rw [hs] at hinit
    obtain ⟨rfl, rfl⟩ := hinit
    exact ⟨by rw [hl₂, append_nil], hcap⟩
  | some value =>
    rw [hs] at hinit
    obtain ⟨rfl, rfl⟩ := hinit
    refine ⟨by rw [hl₂, append_nil], ?_⟩
    rw [hcap]
    split <;> rfl

/-- Activating creates a missing capacity and keeps another one. In memory the
capacity is the stored one afterwards, unless that is no number. -/
theorem queueActive_capacity (hheap : ∀ n, n ≤ usable n) {n : Nat} (hq : QueueOk usable q n queue)
    {ok : Bool} {queue' : Queue}
    (h : (queueActive usable queue).exec s = .ok ((ok, queue'), writes)) :
    putAll s writes (capacityKey q) = some ((s (capacityKey q)).getD (le64 0)) ∧
      (queue'.msgCapacity = storedCapacity s q ∨
        storedCapacity s q = 0 ∧ queue'.msgCapacity = n) := by
  have hexec := queueActive_exec hheap hq h
  unfold storedCapacity
  cases hs : s (capacityKey q) with
  | none =>
    rw [hs] at hexec
    obtain ⟨rfl, hcap⟩ := hexec
    exact ⟨update_self .., .inl hcap⟩
  | some value =>
    rw [hs] at hexec
    obtain ⟨rfl, hcap⟩ := hexec
    refine ⟨hs, ?_⟩
    by_cases hlen : value.length = 8
    · left
      rw [hcap, if_pos hlen]
      dsimp only
      rw [if_pos hlen]
    · right
      exact ⟨if_neg hlen, by rw [hcap, if_neg hlen]⟩

/-- What opening a queue does to its capacity. -/
structure CapacityOpened (s t : Store) (q : Bytes) (found found' : Option Queue) : Prop where
  /-- A missing record may be created. -/
  stored : t (capacityKey q) = s (capacityKey q) ∨
    t (capacityKey q) = some ((s (capacityKey q)).getD (le64 0))
  kept : found ≠ none → found' ≠ none
  /-- A new queue has one. -/
  created : found = none → found' ≠ none → t (capacityKey q) ≠ none
  loaded : ∀ queue', found' = some queue' → queue'.msgCapacity = storedCapacity s q ∨
    ∃ queue, found = some queue ∧ queue'.msgCapacity = queue.msgCapacity

theorem xmqQueueOpen_capacity (hheap : ∀ n, n ≤ usable n) (hf : FoundOk usable q found) {flag : Nat}
    {ok : Bool} (h : (xmqQueueOpen usable found q flag).exec s = .ok ((ok, found'), writes)) :
    CapacityOpened s (putAll s writes) q found found' := by
  unfold xmqQueueOpen at h
  split at h
  · cases h
    exact ⟨.inl rfl, id, fun h₁ h₂ => absurd h₁ h₂, fun queue' h' => .inr ⟨queue', h', rfl⟩⟩
  · rcases found with _ | queue
    · obtain ⟨r, l₁, l₂, hnew, hret, rfl⟩ := exec_bind_ok h
      obtain ⟨⟨ok₁, queue₁⟩, l₃, l₄, hact, hadd, rfl⟩ := exec_bind_ok hnew
      obtain ⟨hstored, hcap⟩ := queueActive_capacity hheap (queueOk_fresh q) hact
      cases ok₁ with
      | false => cases hadd
      | true =>
        -- the list of queues has another key
        have hadd' : ((KvProgram.lift (getKeyOfQueues usable)).bind fun key =>
            (writeBackAppend usable key q [Xmq.comma]).bind fun ok =>
              .ret (if ok then some queue₁ else none) : Prog (Option Queue)).Within
              Set.univ {queuesKey} fun r' => ∀ queue', r' = some queue' → queue' = queue₁ := by
          refine KvProgram.Within.lift_bind fun key hkey => ?_
          obtain rfl : key = queuesKey := stringAppend3rd_ok hkey
          refine KvProgram.Within.bind (writeBackAppend_within trivial rfl) fun ok _ => ?_
          cases ok with
          | false => exact nofun
          | true => exact fun queue' h' => (Option.some.inj h').symm
        obtain ⟨hsame, hkeys⟩ := hadd'.exec hadd
        have hstored' : putAll s ((l₃ ++ l₄) ++ l₂) (capacityKey q) =
            some ((s (capacityKey q)).getD (le64 0)) := by
          have hl₂ : l₂ = [] := by
            rcases r with _ | r
            · cases hret
              rfl
            · cases hret
              rfl
          rw [hl₂, append_nil, Lib.putAll_append, Lib.putAll_of_notMem, hstored]
          intro p hp hpk
          refine queuesKey_notMem_ownKeys q ∅ ?_
          rw [← hkeys p hp, hpk]
          exact .inl rfl
        refine ⟨.inr hstored', fun hnone => absurd rfl hnone,
          fun _ _ => by rw [hstored']; exact Option.some_ne_none _, ?_⟩
        rintro queue' rfl
        rcases r with _ | r
        · cases hret
        · cases hret
          obtain rfl : r = queue₁ := hsame r rfl
          rcases hcap with hcap | ⟨hzero, hcap⟩
          · exact .inl hcap
          · exact .inl (hcap.trans hzero.symm)
    · have hq := hf queue rfl
      dsimp only at h
      split at h
      · cases h
        exact ⟨.inl rfl, fun _ => Option.some_ne_none _, nofun,
          fun queue' h' => .inr ⟨queue, rfl, by cases h'; rfl⟩⟩
      · obtain ⟨⟨ok₁, queue₁⟩, l₁, l₂, hact, hret, rfl⟩ := exec_bind_ok h
        obtain ⟨hstored, hcap⟩ := queueActive_capacity hheap hq hact
        have hloaded : found' = some queue₁ ∨ found' = some { queue₁ with flag := flag } := by
          cases ok₁ with
          | false =>
            cases hret
            exact .inl rfl
          | true =>
            cases hret
            exact .inr rfl
        have hl₂ : l₂ = [] := by
          cases ok₁ with
          | false =>
            cases hret
            rfl
          | true =>
            cases hret
            rfl
        refine ⟨.inr (by rw [hl₂, append_nil, hstored]), fun _ => ?_, nofun,
          fun queue' h' => ?_⟩
        · rcases hloaded with rfl | rfl
          · exact Option.some_ne_none _
          · exact Option.some_ne_none _
        have hcap' : queue'.msgCapacity = queue₁.msgCapacity := by
          rcases hloaded with rfl | rfl
          · cases h'
            rfl
          · cases h'
            rfl
        rw [hcap']
        exact hcap.imp id fun hcap => ⟨queue, rfl, hcap.2⟩

theorem openQueue_capacity (hheap : ∀ n, n ≤ usable n) (hf : FoundOk usable q found) {flag : Nat}
    (h : (localStep usable found (.openQueue q flag)).exec s = .ok ((out, found'), writes)) :
    CapacityOpened s (putAll s writes) q found found' := by
  obtain ⟨⟨ok, queue₁⟩, l₁, l₂, hopen, hret, rfl⟩ := exec_bind_ok h
  cases hret
  rw [append_nil]
  exact xmqQueueOpen_capacity hheap hf hopen

--
-- What calls leave alone
--

theorem localStep_found (hf : FoundOk usable call.queue found)
    (h : (localStep usable found call).exec s = .ok ((out, found'), writes)) :
    FoundOk usable call.queue found' := by
  have hwithin : (localStep usable found call).Within Set.univ Set.univ _ :=
    localStep_within (U := Set.univ) hf (fun _ _ => trivial) (fun _ _ => trivial)
      (fun _ _ => trivial) (fun _ _ => fun _ _ => trivial) (fun _ => trivial)
      (fun _ _ => trivial) (fun _ => ⟨trivial, trivial⟩)
  exact (hwithin.exec h).1.1

theorem put_found {ctx : Ctx} {p : Bytes} {queue : Option Queue}
    (h : ∀ p, FoundOk usable p (ctx.queues p)) (hqueue : FoundOk usable p queue) (r : Bytes) :
    FoundOk usable r ((ctx.put p queue).queues r) := by
  by_cases hr : r = p
  · rw [hr, Ctx.put_self]
    exact hqueue
  · rw [Ctx.put_of_ne hr]
    exact h r

theorem localStep_steady (hf : FoundOk usable call.queue found) (hmoves : ¬ call.moves)
    (h : (localStep usable found call).exec s = .ok ((out, found'), writes)) :
    found'.map (·.msgCapacity) = found.map (·.msgCapacity) ∧
      putAll s writes (capacityKey call.queue) = s (capacityKey call.queue) := by
  have hwithin : (localStep usable found call).Within Set.univ
      {key | key ∈ userKeys call.queue Set.univ ∨ (∃ i, key = le64 i) ∨ key = queuesKey} _ :=
    localStep_within hf (fun _ _ => trivial) (fun _ _ => trivial) (fun key hkey => .inl hkey)
      (fun _ _ => fun _ _ => trivial) (fun hm => absurd hm hmoves)
      (fun _ i => .inr (.inl ⟨i, rfl⟩)) (fun _ => ⟨trivial, .inr (.inr rfl)⟩)
  obtain ⟨⟨-, hmem⟩, hkeys⟩ := hwithin.exec h
  refine ⟨hmem hmoves, Lib.putAll_of_notMem fun p hp hpk => ?_⟩
  rcases hkeys p hp with hkey | ⟨j, hkey⟩ | hkey
  · exact capacityKey_notMem_userKeys _ _ _ (hpk ▸ hkey)
  · exact messageKey_notMem_ownKeys call.queue ∅ j (.inl (by rw [← hkey, hpk]))
  · exact queuesKey_notMem_ownKeys call.queue ∅ (.inl (by rw [← hkey, hpk]))

/-- **Frame.** A key keeps its value when it is no record of the queue, not the
list of queues while a queue is created, and not the message that is pushed. -/
theorem localStep_frame (hheap : ∀ n, n ≤ usable n) (hf : FoundOk usable call.queue found)
    (h : (localStep usable found call).exec s = .ok ((out, found'), writes)) {key : Bytes}
    (hown : key ∉ ownKeys call.queue {u | call.user = some u})
    (hqueues : call.creates found → key ≠ queuesKey)
    (hmsg : call.lands found → ∀ queue n, found = some queue → pushCapacity s queue = some n →
      key ≠ le64 ((n + 1) % u64Size)) : putAll s writes key = s key := by
  by_cases hlands : call.lands found
  · cases call with
    | pushTail q pid msg =>
      obtain ⟨queue, rfl, hpid⟩ := hlands
      have hname : queue.name = q := (hf queue rfl).name_eq
      cases hn : pushCapacity s queue with
      | none =>
        rw [pushTail_fails hheap fun queue' h' _ => by rw [← Option.some.inj h', hn]] at h
        cases h
        rfl
      | some n =>
        obtain ⟨pre, hpre, hexec⟩ := pushTail_lands hheap msg hname hpid hn
        rw [hexec] at h
        cases h
        have hcap : key ≠ capacityKey q := fun hkey => hown (.inl hkey)
        rw [putAll_pushWrites hpre, pushStore, update_of_ne hcap,
          update_of_ne (hmsg ⟨queue, rfl, hpid⟩ queue n rfl hn)]
    | _ => cases hlands
  · have hwithin : (localStep usable found call).Within Set.univ
        {key | key ∈ ownKeys call.queue {u | call.user = some u} ∨
          call.creates found ∧ key = queuesKey} _ :=
      localStep_within (U := {u | call.user = some u}) hf (fun u hu => hu) (fun _ _ => trivial)
        (fun key hkey => .inl (.inr hkey)) (fun _ _ => fun _ _ => trivial)
        (fun _ => .inl (.inl rfl)) (fun hl => absurd hl hlands)
        (fun hc => ⟨trivial, .inr ⟨hc, rfl⟩⟩)
    refine Lib.putAll_of_notMem fun p hp hpk => ?_
    rcases (hwithin.exec h).2 p hp with hkey | ⟨hc, hkey⟩
    · exact hown (hpk ▸ hkey)
    · exact hqueues hc (hpk ▸ hkey)

--
-- The list of queues
--

/-- The string a store holds under a key; empty when it holds none. -/
def storedString (s : Store) (key : Bytes) : Bytes := ((s key).map cstr).getD []

theorem storedString_congr {s t : Store} {key : Bytes} (h : s key = t key) :
    storedString s key = storedString t key := by
  unfold storedString
  rw [h]

theorem storedString_noZero (s : Store) (key : Bytes) : 0 ∉ storedString s key := by
  unfold storedString
  cases s key with
  | none => exact not_mem_nil
  | some value => exact fun h => by simpa using mem_takeWhile_imp h

theorem writeBackAppend_exec (hheap : ∀ n, n ≤ usable n) {key more sep : Bytes}
    (hlt : (storedString s key).length + more.length + sep.length + 1 < 2 ^ 32) :
    (writeBackAppend usable key more sep).exec s =
      .ok (true, [(key, storedString s key ++ more ++ sep ++ [0])]) := by
  have hload : (loadStringString key).exec s = .ok (some ((s key).map cstr), []) := by
    rfl
  have happ : stringAppend3rd usable (storedString s key) sep more none none =
      .ok (storedString s key ++ more ++ sep) := by
    rw [stringAppend3rd_two hheap]
    simp [appended]
  show KvProgram.exec (KvProgram.bind (loadStringString key) _) s = _
  rw [exec_bind, hload]
  show Except.map _ (KvProgram.exec (KvProgram.bind (.lift (stringAppend3rd usable
    (storedString s key) sep more none none)) _) s) = _
  rw [happ]
  show Except.map _ ((writeStringBin key _).exec s) = _
  rw [writeStringBin_exec (by simp) (by simpa [Nat.add_assoc] using hlt)]
  rfl

theorem storedString_append {key : Bytes} (more : Bytes) :
    storedString (update s key (some (storedString s key ++ more))) key =
      storedString s key ++ cstr more := by
  have hzero := storedString_noZero s key
  rw [storedString, update_self]
  show cstr (storedString s key ++ more) = _
  unfold cstr
  rw [takeWhile_append_of_pos]
  intro b hb
  simp only [decide_eq_true_eq]
  exact fun h => hzero (h ▸ hb)

/-- **Creating a queue**, while the list of queues stays below 4 GiB. -/
theorem openQueue_new (hheap : ∀ n, n ≤ usable n) {flag : Nat}
    (hlt : (storedString s queuesKey).length + q.length + 2 < 2 ^ 32) :
    (localStep usable none (.openQueue q flag)).exec s =
      if 256 ≤ q.length then .ok ((.done false, none), [])
      else
        match (queueActive usable (freshQueue q)).exec s with
        | .error e => .error e
        | .ok ((false, _), _) => .error .memory
        | .ok ((true, queue), writes) => .ok ((.done true, some { queue with flag := flag }),
            writes ++ [(queuesKey, storedString s queuesKey ++ (q ++ [Xmq.comma] ++ [0]))]) := by
  have hnew : (queueNewActive usable q).exec s =
      match (queueActive usable (freshQueue q)).exec s with
      | .error e => .error e
      | .ok ((false, _), _) => .error .memory
      | .ok ((true, queue), writes) => .ok (some queue,
          writes ++ [(queuesKey, storedString s queuesKey ++ (q ++ [Xmq.comma] ++ [0]))]) := by
    show KvProgram.exec (KvProgram.bind (queueActive usable (freshQueue q)) _) s = _
    rw [exec_bind]
    cases hact : (queueActive usable (freshQueue q)).exec s with
    | error e => rfl
    | ok r =>
      obtain ⟨⟨ok, queue⟩, writes⟩ := r
      cases ok with
      | false => rfl
      | true =>
        have hkey : getKeyOfQueues usable = .ok queuesKey := stringAppend3rd_two hheap ..
        -- activating has not touched the list of queues
        have hkeys := ((queueActive_within (R := Set.univ) (K := {capacityKey q}) (U := ∅)
          (queueOk_fresh q) (fun _ _ => trivial) rfl).exec hact).2
        have hstr : storedString (putAll s writes) queuesKey = storedString s queuesKey := by
          refine storedString_congr (Lib.putAll_of_notMem fun p hp hpk => ?_)
          exact queuesKey_notMem_ownKeys q ∅ (.inl (by rw [← hpk]; exact hkeys p hp))
        rw [hkey]
        show Except.map _ (KvProgram.exec (KvProgram.bind
          (writeBackAppend usable queuesKey q [Xmq.comma]) _) (putAll s writes)) = _
        rw [exec_bind, writeBackAppend_exec hheap (by rw [hstr]; exact hlt), hstr]
        simp only [append_assoc]
        rfl
  show KvProgram.exec (KvProgram.bind (xmqQueueOpen usable none q flag) _) s = _
  unfold xmqQueueOpen
  by_cases hname : 256 ≤ q.length
  · rw [if_pos hname, if_pos hname]
    rfl
  · rw [if_neg hname, if_neg hname]
    show KvProgram.exec (KvProgram.bind (KvProgram.bind (queueNewActive usable q) _) _) s = _
    rw [exec_bind, exec_bind, hnew]
    cases (queueActive usable (freshQueue q)).exec s with
    | error e => rfl
    | ok r =>
      obtain ⟨⟨ok, queue⟩, writes⟩ := r
      cases ok with
      | false => rfl
      | true =>
        show Except.ok (_, (_ ++ []) ++ []) = _
        rw [append_nil, append_nil]

end Supex.Mixmq
