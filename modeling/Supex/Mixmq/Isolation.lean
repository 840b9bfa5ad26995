import Supex.Mixmq.Capacity

/-!
# libmixmq — queues of one context

Do the calls on other queues change what the calls on a queue return? A run is
compared with the run of the calls on that queue alone: `Isolated` says that
these return the same in both, and that so does every observation afterwards.

Main results: `isolated_of_apart`, `messages_shared`.
-/

namespace Supex.Mixmq

open List

open Lib (KvProgram putAll LawfulMedium run Along)

variable {usable : Nat → Nat}

--
-- The messages of a queue
--

/-- How many messages a queue can read: up to the capacity in memory, and after
it has loaded it again up to the stored one. -/
def held (s : Store) (q : Bytes) (found : Option Queue) : Nat :=
  max ((found.map (·.msgCapacity)).getD 0) (storedCapacity s q)

variable {s : Store} {call : Call} {found found' : Option Queue} {writes : List (Bytes × Bytes)}

theorem pushCapacity_le_held {q : Bytes} {queue : Queue} {n : Nat} (hname : queue.name = q)
    (h : pushCapacity s queue = some n) : n ≤ held s q (some queue) := by
  unfold pushCapacity at h
  split at h
  · have hstored : storedCapacity s q = n := by
      unfold storedCapacity
      rw [← hname]
      cases hs : s (capacityKey queue.name) with
      | none =>
        rw [hs] at h
        exact Option.some.inj h
      | some value =>
        rw [hs] at h
        dsimp only at h
        split at h
        · next hlen =>
          dsimp only
          rw [if_pos hlen]
          exact Option.some.inj h
        · cases h
    rw [← hstored]
    exact le_max_right _ _
  · obtain rfl := Option.some.inj h
    exact le_max_left _ _

theorem held_open {t : Store} {q : Bytes} (h : CapacityOpened s t q found found') :
    held t q found' ≤ held s q found := by
  have hstored : storedCapacity t q ≤ storedCapacity s q := by
    rcases h.stored with hsame | hinit
    · exact (storedCapacity_congr hsame).le
    · cases hs : s (capacityKey q) with
      | none =>
        rw [hs] at hinit
        rw [storedCapacity_of_some hinit (by decide)]
        exact Nat.zero_le _
      | some value =>
        rw [hs] at hinit
        exact (storedCapacity_congr (hinit.trans hs.symm)).le
  refine max_le ?_ (hstored.trans (le_max_right _ _))
  cases found' with
  | none => exact Nat.zero_le _
  | some queue' =>
    rcases h.loaded queue' rfl with hload | ⟨queue, rfl, hload⟩
    · exact hload.le.trans (le_max_right _ _)
    · exact hload.le.trans (le_max_left _ _)

theorem held_push {q : Bytes} {queue : Queue} {n : Nat} {msg : Msg} {pre : List (Bytes × Bytes)}
    (hpre : ∀ p ∈ pre, p.1 = capacityKey q) :
    held (putAll s (pre ++ pushWrites q ((n + 1) % u64Size) msg)) q (some (queue.afterPush n)) ≤
      max n ((n + 1) % u64Size) := by
  have hstored : storedCapacity (putAll s (pre ++ pushWrites q ((n + 1) % u64Size) msg)) q =
      (n + 1) % u64Size := by
    rw [putAll_pushWrites hpre]
    exact storedCapacity_of_some (Function.update_self ..) (Nat.mod_lt _ (by decide))
  refine max_le ?_ (hstored.le.trans (le_max_right _ _))
  show (if queue.blocking then _ else _) ≤ _
  split
  · exact le_max_right _ _
  · exact le_max_left _ _

/-- A message that a queue can read after a call, it could read before, or the
call has written it. -/
theorem held_step (hheap : ∀ n, n ≤ usable n) {q : Bytes} {out : Out} (hq : call.queue = q)
    (hf : FoundOk usable q found)
    (h : (localStep usable found call).exec s = .ok ((out, found'), writes)) {i : Nat}
    (hle : i ≤ held (putAll s writes) q found') :
    i ≤ held s q found ∨ ∃ p ∈ writes, p.1 = le64 i := by
  by_cases hmoves : call.moves
  · cases call with
    | openQueue p flag =>
      obtain rfl : p = q := hq
      exact .inl (hle.trans (held_open (openQueue_capacity hheap hf h)))
    | pushTail p pid msg =>
      obtain rfl : p = q := hq
      by_cases hlands : ∃ queue n, found = some queue ∧ xmqProducerExist queue pid ≠ none ∧
          pushCapacity s queue = some n
      · obtain ⟨queue, n, rfl, hpid, hn⟩ := hlands
        have hname := (hf queue rfl).name_eq
        obtain ⟨pre, hpre, hexec⟩ := pushTail_lands hheap msg hname hpid hn
        rw [hexec] at h
        cases h
        have hle' := hle.trans (held_push hpre)
        rcases Nat.lt_or_ge n i with hlt | hge
        · right
          have hi : i = (n + 1) % u64Size := by
            have := Nat.mod_le (n + 1) u64Size
            omega
          refine ⟨_, mem_append_right _ (.head _), ?_⟩
          rw [hi]
        · exact .inl (hge.trans (pushCapacity_le_held hname hn))
      · rw [pushTail_fails hheap fun queue hfound hpid => by
          by_contra hne
          obtain ⟨n, hn⟩ := Option.ne_none_iff_exists'.mp hne
          exact hlands ⟨queue, n, hfound, hpid, hn⟩] at h
        cases h
        exact .inl hle
    | _ => cases hmoves
  · left
    subst hq
    obtain ⟨hmem, hcap⟩ := localStep_steady hf hmoves h
    unfold held at hle ⊢
    rwa [storedCapacity_congr hcap, hmem] at hle

--
-- A run, and the run of the calls on one queue
--

section Isolation

variable {W : Type} {m : Medium W} {view : W → Store} {q : Bytes} {U : Set Bytes}

/-- The consumers that the calls on a queue name. -/
def usersOf (q : Bytes) (calls : List Call) : Set Bytes :=
  {u | ∃ call ∈ calls, call.queue = q ∧ call.user = some u}

/-- A call that keeps away from the queue `q` and its consumers. -/
structure Apart (view : W → Store) (q : Bytes) (calls : List Call) (st : Sys W) (call : Call) :
    Prop where
  /-- A consumer of another queue has other keys than those of `q`. -/
  users : call.queue ≠ q → ∀ c ∈ calls, c.queue = q → ∀ u ∈ c.user, ∀ v ∈ call.user,
    q ++ SEP ++ u ≠ call.queue ++ SEP ++ v
  /-- A push on another queue does not take the number of a message of `q`. -/
  pushes : call.queue ≠ q → call.lands (st.found call) → ∀ queue ∈ st.found call,
    ∀ n ∈ pushCapacity (view st.medium) queue,
      held (view st.medium) q (st.ctx.queues q) < (n + 1) % u64Size
  /-- A name is added to the list of queues below 4 GiB. -/
  names : call.creates (st.found call) →
    (storedString (view st.medium) queuesKey).length + call.queue.length + 2 < 2 ^ 32

/-- What a run and the run of the calls on `q` have in common. -/
structure Alike (usable : Nat → Nat) (view : W → Store) (q : Bytes) (U : Set Bytes)
    (full own : Sys W) : Prop where
  found_ok : ∀ p, FoundOk usable p (full.ctx.queues p)
  queue_eq : own.ctx.queues q = full.ctx.queues q
  records : ∀ key ∈ ownKeys q U, view own.medium key = view full.medium key
  messages : ∀ i, 1 ≤ i → i ≤ held (view full.medium) q (full.ctx.queues q) →
    view own.medium (le64 i) = view full.medium (le64 i)
  names : (storedString (view own.medium) queuesKey).length ≤
    (storedString (view full.medium) queuesKey).length
  log_eq : full.log.filter (·.1.queue = q) = own.log

/-- What a call that creates a queue does: nothing when the name is too long,
else the queue is activated and its name appended to the list of queues. -/
theorem creates_exec (hheap : ∀ n, n ≤ usable n) {q : Bytes} {flag : Nat} {out : Out}
    (hlt : (storedString s queuesKey).length + q.length + 2 < 2 ^ 32)
    (h : (localStep usable none (.openQueue q flag)).exec s = .ok ((out, found'), writes)) :
    256 ≤ q.length ∧ out = .done false ∧ found' = none ∧ writes = [] ∨
    ∃ queue ws, q.length < 256 ∧ (queueActive usable (freshQueue q)).exec s = .ok
      ((true, queue), ws) ∧
      out = .done true ∧ found' = some { queue with flag := flag } ∧
      writes = ws ++ [(queuesKey, storedString s queuesKey ++ (q ++ [Xmq.comma] ++ [0]))] := by
  rw [openQueue_new hheap hlt] at h
  split at h
  · next hname =>
    cases h
    exact .inl ⟨hname, rfl, rfl, rfl⟩
  · next hname =>
    right
    cases hact : (queueActive usable (freshQueue q)).exec s with
    | error e =>
      rw [hact] at h
      cases h
    | ok r =>
      obtain ⟨⟨ok, queue⟩, ws⟩ := r
      rw [hact] at h
      cases ok with
      | false => cases h
      | true =>
        cases h
        exact ⟨queue, ws, not_le.mp hname, rfl, rfl, rfl, rfl⟩

theorem creates_names {q more : Bytes} {ws : List (Bytes × Bytes)}
    (hws : ∀ p ∈ ws, p.1 = capacityKey q) :
    storedString (putAll s (ws ++ [(queuesKey, storedString s queuesKey ++ more)])) queuesKey =
      storedString s queuesKey ++ cstr more := by
  have hsame : putAll s ws queuesKey = s queuesKey :=
    Lib.putAll_of_notMem fun p hp hpk =>
      queuesKey_notMem_ownKeys q ∅ (.inl (by rw [← hpk, hws p hp]))
  have hstr := storedString_congr hsame
  rw [Lib.putAll_append]
  rw [← hstr]
  exact storedString_append more

theorem activate_writes {q : Bytes} {r : Bool × Queue} {ws : List (Bytes × Bytes)}
    (h : (queueActive usable (freshQueue q)).exec s = .ok (r, ws)) :
    ∀ p ∈ ws, p.1 = capacityKey q :=
  ((queueActive_within (R := Set.univ) (K := {capacityKey q}) (U := ∅) (queueOk_fresh q)
    (fun _ _ => trivial) rfl).exec h).2

/-- **Other queues.** A call on another queue leaves everything alike. -/
theorem Alike.other (hm : LawfulMedium m view) (hheap : ∀ n, n ≤ usable n) {calls : List Call}
    {full full' own : Sys W} (h : Alike usable view q (usersOf q calls) full own)
    (hne : call.queue ≠ q) (hp : Apart view q calls full call)
    (hserve : serve m usable full call = .ok full') :
    Alike usable view q (usersOf q calls) full' own := by
  obtain ⟨out, found', writes, hexec, hctx, hlog, hview⟩ := serve_ok hm hserve
  have hf : FoundOk usable call.queue (full.ctx.queues call.queue) := h.found_ok _
  have hqueue : full'.ctx.queues q = full.ctx.queues q := by
    rw [hctx, Ctx.put_of_ne (Ne.symm hne)]
  -- the records of `q`
  have hrecords : ∀ key ∈ ownKeys q (usersOf q calls), view full'.medium key =
    view full.medium key := by
    intro key hkey
    rw [hview]
    refine localStep_frame hheap hf hexec ?_ ?_ ?_
    · refine notMem_ownKeys hne (fun u hu v hv => ?_) hkey
      obtain ⟨c, hc, hcq, hcu⟩ := hu
      exact hp.users hne c hc hcq u hcu v hv
    · rintro - rfl
      exact queuesKey_notMem_ownKeys q _ hkey
    · rintro - queue n - - rfl
      exact messageKey_notMem_ownKeys q _ _ hkey
  have hheld : held (view full'.medium) q (full'.ctx.queues q) =
      held (view full.medium) q (full.ctx.queues q) := by
    unfold held
    rw [hqueue, storedCapacity_congr (hrecords _ (.inl rfl))]
  refine ⟨?_, h.queue_eq.trans hqueue.symm, fun key hkey => ?_, fun i hi hle => ?_, ?_, ?_⟩
  · rw [hctx]
    exact put_found h.found_ok (localStep_found hf hexec)
  · rw [hrecords key hkey]
    exact h.records key hkey
  · rw [hheld] at hle
    rw [h.messages i hi hle, hview]
    refine (localStep_frame hheap hf hexec (messageKey_notMem_ownKeys _ _ i)
      (fun _ => messageKey_ne_queuesKey i) fun hlands queue n hfound hn hkey => ?_).symm
    -- the number of the pushed message is larger
    have hlt := hp.pushes hne hlands queue hfound n hn
    have hmod : (n + 1) % u64Size < u64Size := Nat.mod_lt _ (by decide)
    have hi' := congrArg leVal hkey
    rw [leVal_le64 (by omega), leVal_le64 hmod] at hi'
    omega
  · refine h.names.trans ?_
    rw [hview]
    by_cases hcreates : call.creates (full.ctx.queues call.queue)
    · have hlt := hp.names hcreates
      cases call with
      | openQueue p flag =>
        have hnone : full.ctx.queues p = none := hcreates
        change (localStep usable (full.ctx.queues p) _).exec _ = _ at hexec
        rw [hnone] at hexec
        rcases creates_exec hheap hlt hexec with ⟨-, -, -, rfl⟩ | ⟨queue, ws, -, hact, -, -, rfl⟩
        · exact le_rfl
        · rw [creates_names (activate_writes hact), length_append]
          exact Nat.le_add_right _ _
      | _ => cases hcreates
    · refine (congrArg List.length (storedString_congr ?_)).ge
      exact localStep_frame hheap hf hexec (queuesKey_notMem_ownKeys _ _)
        (fun hc => absurd hc hcreates) fun _ _ _ _ _ => (messageKey_ne_queuesKey _).symm
  · rw [hlog, filter_append, h.log_eq]
    have hdrop : [(call, out)].filter (·.1.queue = q) = [] := by simp [hne]
    rw [hdrop, append_nil]

/-- Creating a queue does the same on two stores with the same records of it, but
for the list of queues. -/
theorem creates_alike (hheap : ∀ n, n ≤ usable n) {t : Store} {q : Bytes} {flag : Nat} {out : Out}
    (hlt : (storedString s queuesKey).length + q.length + 2 < 2 ^ 32)
    (hrecords : ∀ key ∈ ownKeys q U, t key = s key)
    (hnames : (storedString t queuesKey).length ≤ (storedString s queuesKey).length)
    (h : (localStep usable none (.openQueue q flag)).exec s = .ok ((out, found'), writes)) :
    ∃ writes', (localStep usable none (.openQueue q flag)).exec t = .ok ((out, found'), writes') ∧
      (∀ key, key ≠ queuesKey → (t key = s key ∨ ∃ p ∈ writes, p.1 = key) →
        putAll t writes' key = putAll s writes key) ∧
      (storedString (putAll t writes') queuesKey).length ≤
        (storedString (putAll s writes) queuesKey).length := by
  have hlt' : (storedString t queuesKey).length + q.length + 2 < 2 ^ 32 :=
    lt_of_le_of_lt (Nat.add_le_add_right (Nat.add_le_add_right hnames _) _) hlt
  rcases creates_exec hheap hlt h with
    ⟨hname, rfl, rfl, rfl⟩ | ⟨queue, ws, hname, hact, rfl, rfl, rfl⟩
  · refine ⟨[], ?_, fun key _ hkey => ?_, hnames⟩
    · rw [openQueue_new hheap hlt', if_pos hname]
    · exact hkey.resolve_right fun ⟨p, hp, _⟩ => not_mem_nil hp
  · have hws := activate_writes hact
    have hact' : (queueActive usable (freshQueue q)).exec t = .ok ((true, queue), ws) := by
      rw [← hact]
      exact KvProgram.exec_congr (queueActive_within (K := Set.univ) (queueOk_fresh q)
        (fun _ hkey => hkey) trivial) hrecords
    refine ⟨_, by rw [openQueue_new hheap hlt', if_neg (not_le.mpr hname), hact'],
      fun key hne hkey => ?_, ?_⟩
    · rw [Lib.putAll_append, Lib.putAll_append]
      show Function.update (putAll _ ws) queuesKey _ key =
        Function.update (putAll _ ws) queuesKey _ key
      rw [Function.update_of_ne hne, Function.update_of_ne hne]
      refine Lib.putAll_agree (hkey.imp id fun ⟨p, hp, hpk⟩ => ⟨p, ?_, hpk⟩)
      rcases mem_append.mp hp with hp | hp
      · exact hp
      · rw [mem_singleton.mp hp] at hpk
        exact absurd hpk.symm hne
    · rw [creates_names hws, creates_names hws, length_append, length_append]
      exact Nat.add_le_add_right hnames _

/-- **The queue itself.** A call on the queue does the same in both runs. -/
theorem Alike.own (hm : LawfulMedium m view) (hheap : ∀ n, n ≤ usable n) {calls : List Call}
    {full full' own : Sys W} (h : Alike usable view q U full own) (hq : call.queue = q)
    (hU : ∀ u, call.user = some u → u ∈ U) (hp : Apart view q calls full call)
    (hserve : serve m usable full call = .ok full') :
    ∃ own', serve m usable own call = .ok own' ∧ Alike usable view q U full' own' := by
  obtain ⟨out, found', writes, hexec, hctx, hlog, hview⟩ := serve_ok hm hserve
  subst hq
  have hf : FoundOk usable call.queue (full.ctx.queues call.queue) := h.found_ok _
  -- the same result, and the same writes but for the list of queues
  have hown : ∃ writes', (localStep usable (own.ctx.queues call.queue) call).exec
    (view own.medium) =
      .ok ((out, found'), writes') ∧
      (∀ key, key ≠ queuesKey → (view own.medium key = view full.medium key ∨
        ∃ p ∈ writes, p.1 = key) →
          putAll (view own.medium) writes' key = putAll (view full.medium) writes key) ∧
      (storedString (putAll (view own.medium) writes') queuesKey).length ≤
        (storedString (putAll (view full.medium) writes) queuesKey).length := by
    rw [h.queue_eq]
    by_cases hcreates : call.creates (full.ctx.queues call.queue)
    · have hlt := hp.names hcreates
      cases call with
      | openQueue q flag =>
        have hnone : full.ctx.queues q = none := hcreates
        change (localStep usable (full.ctx.queues q) _).exec _ = _ at hexec
        change ∃ writes', (localStep usable (full.ctx.queues q) _).exec _ = _ ∧ _
        rw [hnone] at hexec ⊢
        exact creates_alike hheap hlt h.records h.names hexec
      | _ => cases hcreates
    · -- nothing that is read differs
      have hwithin : (localStep usable (full.ctx.queues call.queue) call).Within
          {key | key ∈ ownKeys call.queue U ∨ ∃ i, 1 ≤ i ∧
            i ≤ held (view full.medium) call.queue (full.ctx.queues call.queue) ∧ key = le64 i}
          {key | key ≠ queuesKey} fun _ => True := by
        refine KvProgram.Within.mono (localStep_within hf hU (fun _ hkey => .inl hkey) ?_ ?_ ?_ ?_
          fun hc => absurd hc hcreates) fun _ _ => trivial
        · rintro key hkey rfl
          exact queuesKey_notMem_ownKeys _ _ (.inr hkey)
        · rintro queue hfound key ⟨i, hi, hle, rfl⟩
          refine .inr ⟨i, hi, hle.trans ?_, rfl⟩
          rw [hfound]
          exact le_max_left _ _
        · rintro - hkey
          exact queuesKey_notMem_ownKeys _ U (.inl hkey.symm)
        · exact fun _ i => messageKey_ne_queuesKey i
      have hcongr := KvProgram.exec_congr hwithin (s := view own.medium) (t := view full.medium)
        (by
          rintro key (hkey | ⟨i, hi, hle, rfl⟩)
          · exact h.records key hkey
          · exact h.messages i hi hle)
      have hkeys := (hwithin.exec hexec).2
      have hsame : ∀ s : Store, storedString (putAll s writes) queuesKey =
        storedString s queuesKey :=
        fun s => storedString_congr (Lib.putAll_of_notMem fun p hp => hkeys p hp)
      refine ⟨writes, hcongr.trans hexec, fun key _ hkey => Lib.putAll_agree hkey, ?_⟩
      rw [hsame, hsame]
      exact h.names
  obtain ⟨writes', hexec', hagree, hnames⟩ := hown
  obtain ⟨w, hserve', hview'⟩ := serve_lawful hm hexec'
  refine ⟨_, hserve', ?_, ?_, fun key hkey => ?_, fun i hi hle => ?_, ?_, ?_⟩
  · rw [hctx]
    exact put_found h.found_ok (localStep_found hf hexec)
  · rw [hctx, Ctx.put_self, Ctx.put_self]
  · rw [hview, hview']
    refine hagree key ?_ (.inl (h.records key hkey))
    rintro rfl
    exact queuesKey_notMem_ownKeys _ _ hkey
  · rw [hview, hview']
    rw [hctx, Ctx.put_self, hview] at hle
    refine hagree _ (messageKey_ne_queuesKey i) ?_
    rcases held_step hheap rfl hf hexec hle with hold | hnew
    · exact .inl (h.messages i hi hold)
    · exact .inr hnew
  · rw [hview, hview']
    exact hnames
  · rw [hlog, filter_append, h.log_eq]
    simp

--
-- Isolation
--

/-- The calls that look at a queue. -/
def Call.observes : Call → Prop
  | .fetchNth _ _ _ _ => True
  | .fetchPos _ _ => True
  | .markPos _ _ => True
  | .lists _ => True
  | _ => False

/-- The calls on `q` return in the run what they return in the run without the
calls on other queues, and so does every call that looks at `q` afterwards. -/
def Isolated (m : Medium W) (usable : Nat → Nat) (st : Sys W) (q : Bytes) (calls : List Call) :
    Prop :=
  ∀ full, run (serve m usable) st calls = .ok full →
    ∃ own, run (serve m usable) st (calls.filter (·.queue = q)) = .ok own ∧
      full.log.filter (·.1.queue = q) = own.log ∧
      ∀ call : Call, call.queue = q → call.observes →
        answer m usable full call = answer m usable own call

theorem observes_within (hobs : call.observes) (hf : FoundOk usable call.queue found)
    {R : Set Bytes} (hR : ∀ queue, found = some queue → messageKeys queue.msgCapacity ⊆ R) :
    (localStep usable found call).Within R Set.univ fun _ => True := by
  cases found with
  | none =>
    cases call with
    | fetchNth _ _ _ _ => trivial
    | fetchPos _ _ => trivial
    | markPos _ _ => trivial
    | lists _ => trivial
    | _ => cases hobs
  | some queue =>
    cases call with
    | fetchNth q u index millis =>
      have hfetch : (queueFetchNth usable queue u index millis).Within R Set.univ _ :=
        queueFetchNth_within (U := Set.univ) (hf queue rfl) (fun _ _ => trivial) (hR queue rfl)
          trivial index millis
      refine KvProgram.Within.bind (P := fun _ => True) ?_ fun _ _ => trivial
      exact KvProgram.Within.bind (P := fun _ => True) (hfetch.mono fun _ _ => trivial)
        fun _ _ => trivial
    | fetchPos _ _ => trivial
    | markPos _ _ => trivial
    | lists _ => trivial
    | _ => cases hobs

theorem Alike.answer_eq (hm : LawfulMedium m view) {full own : Sys W}
    (h : Alike usable view q U full own) (hq : call.queue = q) (hobs : call.observes) :
    answer m usable full call = answer m usable own call := by
  subst hq
  rw [answer_lawful hm, answer_lawful hm]
  have hqueue : own.found call = full.found call := h.queue_eq
  have hwithin : (localStep usable (full.found call) call).Within
      {key | ∃ i, 1 ≤ i ∧ i ≤ held (view full.medium) call.queue (full.found call) ∧ key = le64 i}
      Set.univ fun _ => True := by
    refine observes_within hobs (h.found_ok _) ?_
    rintro queue hfound key ⟨i, hi, hle, rfl⟩
    refine ⟨i, hi, hle.trans ?_, rfl⟩
    show queue.msgCapacity ≤ held _ _ (full.ctx.queues call.queue)
    rw [hfound]
    exact le_max_left _ _
  rw [hqueue, KvProgram.exec_congr hwithin]
  rintro key ⟨i, hi, hle, rfl⟩
  exact (h.messages i hi hle).symm

/-- **Isolation.** In a run of calls that keep apart from `q`, the queue `q` is
isolated. -/
theorem isolated_of_apart (hm : LawfulMedium m view) (hheap : ∀ n, n ≤ usable n) {w : W}
    {st : Sys W} (hst : Started m usable w st) (q : Bytes) (calls : List Call)
    (h : Along (serve m usable) (Apart view q calls) st calls) :
    Isolated m usable st q calls := by
  -- both runs start in the same state
  have hstart : Alike usable view q (usersOf q calls) st st :=
    ⟨started_found hst, rfl, fun _ _ => rfl, fun _ _ _ => rfl, le_rfl, by rw [hst.2]; rfl⟩
  have hrun : ∀ (todo : List Call) (full own : Sys W), (∀ call ∈ todo, call ∈ calls) →
      Alike usable view q (usersOf q calls) full own →
      Along (serve m usable) (Apart view q calls) full todo →
      ∀ full', run (serve m usable) full todo = .ok full' →
        ∃ own', run (serve m usable) own (todo.filter (·.queue = q)) = .ok own' ∧
          Alike usable view q (usersOf q calls) full' own' := by
    intro todo
    induction todo with
    | nil =>
      intro full own _ halike _ full' hfull
      rw [run, Except.ok.injEq] at hfull
      exact ⟨own, rfl, hfull ▸ halike⟩
    | cons call todo ih =>
      intro full own hsub halike halong full' hfull
      obtain ⟨full₁, hserve, hfull⟩ := Lib.run_cons_ok hfull
      have hsub' : ∀ c ∈ todo, c ∈ calls := fun c hc => hsub c (.tail _ hc)
      have halong' := halong.2 full₁ hserve
      by_cases hq : call.queue = q
      · have hU : ∀ u, call.user = some u → u ∈ usersOf q calls :=
          fun u hu => ⟨call, hsub call (.head _), hq, hu⟩
        obtain ⟨own₁, hserve', halike'⟩ := halike.own hm hheap hq hU halong.1 hserve
        obtain ⟨own', hown, hfinal⟩ := ih full₁ own₁ hsub' halike' halong' full' hfull
        refine ⟨own', ?_, hfinal⟩
        rw [filter_cons_of_pos (by simpa using hq), Lib.run_cons hserve', hown]
      · have halike' := halike.other hm hheap hq halong.1 hserve
        obtain ⟨own', hown, hfinal⟩ := ih full₁ own hsub' halike' halong' full' hfull
        refine ⟨own', ?_, hfinal⟩
        rw [filter_cons_of_neg (by simpa using hq), hown]
  intro full hfull
  obtain ⟨own, hown, halike⟩ := hrun calls st st (fun _ hc => hc) hstart h full hfull
  exact ⟨own, hown, halike.log_eq, fun call hq hobs => halike.answer_eq hm hq hobs⟩

instance (q : Bytes) (calls : List Call) (st : Sys W) (call : Call) :
    Decidable (Apart view q calls st call) :=
  decidable_of_iff
    ((call.queue ≠ q → ∀ c ∈ calls, c.queue = q → ∀ u ∈ c.user, ∀ v ∈ call.user,
      q ++ SEP ++ u ≠ call.queue ++ SEP ++ v) ∧
    (call.queue ≠ q → call.lands (st.found call) → ∀ queue ∈ st.found call,
      ∀ n ∈ pushCapacity (view st.medium) queue,
        held (view st.medium) q (st.ctx.queues q) < (n + 1) % u64Size) ∧
    (call.creates (st.found call) →
      (storedString (view st.medium) queuesKey).length + call.queue.length + 2 < 2 ^ 32))
    ⟨fun h => ⟨h.1, h.2.1, h.2.2⟩, fun h => ⟨h.users, h.pushes, h.names⟩⟩

end Isolation

--
-- Two queues
--

/-- Two queues are opened, and one of them is used by a producer and a consumer. -/
def oneUsed : List Call :=
  [.openQueue (ascii "a") 1, .openQueue (ascii "b") 1, .registerAsProducer (ascii "a") (ascii "p"),
    .registerAsConsumer (ascii "a") (ascii "u"), .pushTail (ascii "a") (ascii "p") (sampleMsg 1),
    .registerAsConsumer (ascii "b") (ascii "u"), .fetchNth (ascii "a") (ascii "u") 1 0]

theorem isolated_oneUsed :
    Along (serve Lib.pairsMedium glibcUsable) (Apart Lib.pairsView (ascii "a") oneUsed) emptySys
      oneUsed ∧ (run (serve Lib.pairsMedium glibcUsable) emptySys oneUsed).isOk = true ∧
      Isolated Lib.pairsMedium glibcUsable emptySys (ascii "a") oneUsed :=
  have h : Along (serve Lib.pairsMedium glibcUsable) (Apart Lib.pairsView (ascii "a") oneUsed)
      emptySys oneUsed := by decide +kernel
  ⟨h, by decide +kernel,
    isolated_of_apart (w := []) Lib.pairsMedium_lawful le_glibcUsable ⟨rfl, rfl⟩ _ _ h⟩

/-- Both queues get a message. -/
def bothPushed : List Call :=
  [.openQueue (ascii "a") 1, .openQueue (ascii "b") 1, .registerAsProducer (ascii "a") (ascii "p"),
    .registerAsProducer (ascii "b") (ascii "p"), .registerAsConsumer (ascii "a") (ascii "u"),
    .pushTail (ascii "a") (ascii "p") (sampleMsg 1),
    .pushTail (ascii "b") (ascii "p") (sampleMsg 2)]

def fetchedBytes : Except Fault Out → Option Bytes
  | .ok (.fetched (.msg bytes)) => some bytes
  | _ => none

/-- The first message of one queue is fetched from the other. -/
theorem messages_shared :
    ¬ Isolated Lib.pairsMedium glibcUsable emptySys (ascii "a") bothPushed := by
  intro h
  let fetch : Call := .fetchNth (ascii "a") (ascii "u") 1 0
  have hfull : fetchedBytes ((run (serve Lib.pairsMedium glibcUsable) emptySys bothPushed).bind
      fun st => answer Lib.pairsMedium glibcUsable st fetch) = some ((sampleMsg 2).bytes 1) := by
    decide +kernel
  have hown : fetchedBytes ((run (serve Lib.pairsMedium glibcUsable) emptySys
      (bothPushed.filter (·.queue = ascii "a"))).bind
      fun st => answer Lib.pairsMedium glibcUsable st fetch) = some ((sampleMsg 1).bytes 1) := by
    decide +kernel
  cases hrun : run (serve Lib.pairsMedium glibcUsable) emptySys bothPushed with
  | error e =>
    rw [hrun] at hfull
    cases hfull
  | ok full =>
    obtain ⟨own, hrun', -, hobs⟩ := h full hrun
    rw [hrun] at hfull
    rw [hrun'] at hown
    change fetchedBytes (answer _ _ full fetch) = _ at hfull
    change fetchedBytes (answer _ _ own fetch) = _ at hown
    rw [hobs fetch rfl trivial, hown] at hfull
    exact absurd hfull (by decide)

end Supex.Mixmq
