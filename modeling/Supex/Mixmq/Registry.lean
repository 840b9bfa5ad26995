import Supex.Mixmq.Lists

/-!
# libmixmq — the registry

The producers and consumers of a queue are in two lists in memory, active and
dead, and in a string in the store. `Ledger` says what they stand for: the
names in the order of their first registration, which nothing ever removes.

* `RegInv` — the store and the queues of a context hold a ledger.

Main results: `registry_kept`, `registered_while_closed`.
-/

namespace Supex.Mixmq

open List
open Lib.KvProgram (exec_bind exec_map run_lawful)

open Lib (KvProgram putAll LawfulMedium run Along)
open Function (update update_eq_self update_of_ne update_self)
open Xmq (comma joinFields)

--
-- The ledger
--

/-- The names, in the order of their first registration. -/
structure Ledger where
  queues : List Bytes
  producers : Bytes → List Bytes
  consumers : Bytes → List Bytes

/-- A name at the end of a list that does not have it. -/
def enter (names : List Bytes) (u : Bytes) : List Bytes := if u ∈ names then names else names ++ [u]

/-- What a call and its result add to the ledger. -/
def Ledger.step (L : Ledger) : Call × Out → Ledger
  | (.openQueue q _, .done true) => { L with queues := enter L.queues q }
  | (.registerAsProducer q u, .done true) =>
    { L with producers := Function.update L.producers q (enter (L.producers q) u) }
  | (.registerAsConsumer q u, .done true) =>
    { L with consumers := Function.update L.consumers q (enter (L.consumers q) u) }
  | _ => L

/-- The ledger of everything that has happened. -/
def ledger (log : List (Call × Out)) : Ledger :=
  log.foldl Ledger.step ⟨[], fun _ => [], fun _ => []⟩

theorem ledger_concat (log : List (Call × Out)) (e : Call × Out) :
    ledger (log ++ [e]) = (ledger log).step e := by
  unfold ledger
  rw [foldl_append]
  rfl

theorem enter_nodup {names : List Bytes} (h : names.Nodup) (u : Bytes) : (enter names u).Nodup := by
  unfold enter
  split
  · exact h
  · next hu =>
    refine List.Nodup.append h (nodup_singleton u) fun v hv hvu => ?_
    rw [mem_singleton] at hvu
    exact hu (hvu ▸ hv)

theorem update_enter_nodup {names : Bytes → List Bytes} (h : ∀ q, (names q).Nodup) (q u r : Bytes) :
    (update names q (enter (names q) u) r).Nodup := by
  by_cases hr : r = q
  · rw [hr, update_self]
    exact enter_nodup (h q) u
  · rw [update_of_ne hr]
    exact h r

theorem prefix_enter (names : List Bytes) (u : Bytes) : names <+: enter names u := by
  unfold enter
  split
  · exact prefix_rfl
  · exact prefix_append _ _

--
-- Restarts
--

/-- A call, or a restart: the context is made again from the medium. -/
inductive RegAct where
  | call (c : Call)
  | restart

def regStep {W : Type} (m : Medium W) (usable : Nat → Nat) (st : Sys W) :
    RegAct → Except Fault (Sys W)
  | .call c => serve m usable st c
  | .restart =>
    match (xmqContextInit usable).run m st.medium with
    | .error e => .error e
    | .ok ((_, ctx), w) => .ok ⟨ctx, w, st.log⟩

--
-- The registry of a context
--

/-- An open queue has the producers and consumers of the ledger, each in one of
its two lists. -/
structure OpenInv (ps cs : List Bytes) (queue : Queue) : Prop where
  active_eq : queue.active = true
  producers : (queue.activeProducers ++ queue.deadProducers).Perm (ps.map fun u => ⟨u⟩)
  consumers : (queue.activeConsumers ++ queue.deadConsumers).Perm (loadedConsumers cs)
  producers_amount : queue.producerAmount = ps.length
  consumers_amount : queue.consumerAmount = cs.length

/-- The store holds the ledger `L`. -/
structure RegStore (s : Store) (L : Ledger) : Prop where
  queues : StoredList s queuesKey L.queues
  producers : ∀ q, StoredList s (producersKey q) (L.producers q)
  consumers : ∀ q, StoredList s (consumersKey q) (L.consumers q)
  capacity : ∀ q, s (capacityKey q) = none ∨ s (capacityKey q) = some (le64 0)
  positions : ∀ q, ∀ u ∈ L.consumers q,
    s (fetchposKey q u) = some (le64 0) ∧ s (markposKey q u) = some (le64 0)

/-- The queues of a context hold it. -/
structure RegCtx (ctx : Ctx) (L : Ledger) : Prop where
  known : ∀ q, ctx.queues q ≠ none ↔ q ∈ L.queues
  kept : ∀ q queue, ctx.queues q = some queue → queue.name = q ∧
    (Closed queue ∨ OpenInv (L.producers q) (L.consumers q) queue)

structure RegInv (s : Store) (ctx : Ctx) (L : Ledger) : Prop where
  store : RegStore s L
  ctx : RegCtx ctx L
  producers_nodup : ∀ q, (L.producers q).Nodup
  consumers_nodup : ∀ q, (L.consumers q).Nodup

/-- A registry call that the registry survives. -/
def Proper (usable : Nat → Nat) (s : Store) (found : Option Queue) : Call → Prop
  | .openQueue q _ => Name q ∧
      (found = none → (storedString s queuesKey).length + q.length + 2 < 2 ^ 32)
  | .closeQueue _ => True
  | .registerAsProducer q u => Name u ∧ ∀ queue ∈ found, queue.active = true ∧
      (xmqProducerExist queue u = none →
        (storedString s (producersKey q)).length + u.length + 2 < 2 ^ 32)
  | .unregisterProducer _ _ => True
  | .registerAsConsumer q u => Name u ∧
      getKeyOfFetchpos usable q u = .ok (fetchposKey q u) ∧
      getKeyOfMarkpos usable q u = .ok (markposKey q u) ∧
      ∀ queue ∈ found, queue.active = true ∧ (xmqConsumerExist queue u = none →
        (storedString s (consumersKey q)).length + u.length + 2 < 2 ^ 32)
  | .unregisterConsumer _ _ => True
  | _ => False

variable {usable : Nat → Nat} {s : Store} {ctx : Ctx} {L : Ledger}

--
-- The ledger in the store
--

theorem update_kind {key key' : Bytes} {v : Option Bytes} (h : keyKind key' ≠ keyKind key) :
    update s key v key' = s key' := update_of_ne (key_ne h) ..

variable {q u : Bytes}

theorem RegStore.init (h : RegStore s L) {writes : List (Bytes × Bytes)}
    (hwrites : ∀ p ∈ writes, p = (capacityKey q, le64 0)) : RegStore (putAll s writes) L := by
  induction writes generalizing s with
  | nil => exact h
  | cons p writes ih =>
    obtain rfl := hwrites p (.head _)
    rw [Lib.putAll_cons]
    refine ih ⟨?_, fun r => ?_, fun r => ?_, fun r => ?_, fun r u hu => ?_⟩
      fun p hp => hwrites p (.tail _ hp)
    · exact h.queues.congr (update_kind (by simp only [keyKind_queues, keyKind_capacity]; decide))
    · exact (h.producers r).congr
        (update_kind (by simp only [keyKind_producers, keyKind_capacity]; decide))
    · exact (h.consumers r).congr
        (update_kind (by simp only [keyKind_consumers, keyKind_capacity]; decide))
    · by_cases hr : capacityKey r = capacityKey q
      · right
        rw [hr]
        exact update_self ..
      · rw [update_of_ne hr]
        exact h.capacity r
    · rw [update_kind (by simp only [keyKind_fetchpos, keyKind_capacity]; decide),
        update_kind (by simp only [keyKind_markpos, keyKind_capacity]; decide)]
      exact h.positions r u hu

theorem RegStore.addQueue (h : RegStore s L) {qs : List Bytes} {value : Bytes}
    (hqs : StoredList (update s queuesKey (some value)) queuesKey qs) :
    RegStore (update s queuesKey (some value)) { L with queues := qs } := by
  refine ⟨hqs, fun r => ?_, fun r => ?_, fun r => ?_, fun r u hu => ?_⟩
  · exact (h.producers r).congr
      (update_kind (by simp only [keyKind_producers, keyKind_queues]; decide))
  · exact (h.consumers r).congr
      (update_kind (by simp only [keyKind_consumers, keyKind_queues]; decide))
  · rw [update_kind (by simp only [keyKind_capacity, keyKind_queues]; decide)]
    exact h.capacity r
  · rw [update_kind (by simp only [keyKind_fetchpos, keyKind_queues]; decide),
      update_kind (by simp only [keyKind_markpos, keyKind_queues]; decide)]
    exact h.positions r u hu

theorem RegStore.addProducer (h : RegStore s L) {ps : List Bytes} {value : Bytes}
    (hps : StoredList (update s (producersKey q) (some value)) (producersKey q) ps) :
    RegStore (update s (producersKey q) (some value))
      { L with producers := update L.producers q ps } := by
  refine ⟨?_, fun r => ?_, fun r => ?_, fun r => ?_, fun r u hu => ?_⟩
  · exact h.queues.congr (update_kind (by simp only [keyKind_queues, keyKind_producers]; decide))
  · by_cases hr : r = q
    · rw [hr]
      dsimp only
      rw [update_self]
      exact hps
    · dsimp only
      rw [update_of_ne hr]
      exact (h.producers r).congr (update_of_ne (fun hk => hr (producersKey_inj hk)) ..)
  · exact (h.consumers r).congr
      (update_kind (by simp only [keyKind_consumers, keyKind_producers]; decide))
  · rw [update_kind (by simp only [keyKind_capacity, keyKind_producers]; decide)]
    exact h.capacity r
  · rw [update_kind (by simp only [keyKind_fetchpos, keyKind_producers]; decide),
      update_kind (by simp only [keyKind_markpos, keyKind_producers]; decide)]
    exact h.positions r u hu

theorem RegStore.addConsumer (h : RegStore s L) {value : Bytes}
    (hcs : StoredList (update s (consumersKey q) (some value)) (consumersKey q)
      (L.consumers q ++ [u])) :
    RegStore (update (update (update s (consumersKey q) (some value))
        (fetchposKey q u) (some (le64 0))) (markposKey q u) (some (le64 0)))
      { L with consumers := update L.consumers q (L.consumers q ++ [u]) } := by
  -- what is neither a position nor the list of consumers stays
  have hsame : ∀ key, keyKind key ≠ ascii "__SOPHC" → keyKind key ≠ ascii "__SOPKR" →
      update (update (update s (consumersKey q) (some value))
        (fetchposKey q u) (some (le64 0))) (markposKey q u) (some (le64 0)) key =
      update s (consumersKey q) (some value) key := by
    intro key h₁ h₂
    rw [update_kind (by rw [keyKind_markpos]; exact h₂),
      update_kind (by rw [keyKind_fetchpos]; exact h₁)]
  refine ⟨?_, fun r => ?_, fun r => ?_, fun r => ?_, fun r v hv => ?_⟩
  · refine h.queues.congr ?_
    rw [hsame _ (by decide) (by decide),
      update_kind (by simp only [keyKind_queues, keyKind_consumers]; decide)]
  · refine (h.producers r).congr ?_
    rw [hsame _ (by rw [keyKind_producers]; decide) (by rw [keyKind_producers]; decide),
      update_kind (by simp only [keyKind_producers, keyKind_consumers]; decide)]
  · have hkey := hsame (consumersKey r) (by rw [keyKind_consumers]; decide)
      (by rw [keyKind_consumers]; decide)
    by_cases hr : r = q
    · subst hr
      dsimp only
      rw [update_self]
      exact hcs.congr hkey
    · dsimp only
      rw [update_of_ne hr]
      refine (h.consumers r).congr (hkey.trans ?_)
      exact update_of_ne (fun hk => hr (consumersKey_inj hk)) ..
  · rw [hsame _ (by rw [keyKind_capacity]; decide) (by rw [keyKind_capacity]; decide),
      update_kind (by simp only [keyKind_capacity, keyKind_consumers]; decide)]
    exact h.capacity r
  · -- all positions are 0, so it does not matter whose record is written
    have hold : v ∈ L.consumers r ∨ r = q ∧ v = u := by
      by_cases hr : r = q
      · subst hr
        dsimp only at hv
        rw [update_self] at hv
        rcases mem_append.mp hv with hv | hv
        · exact .inl hv
        · exact .inr ⟨rfl, mem_singleton.mp hv⟩
      · dsimp only at hv
        rw [update_of_ne hr] at hv
        exact .inl hv
    have hkeep : ∀ (t : Store) (key key' : Bytes), t key' = some (le64 0) ∨ key' = key →
        update t key (some (le64 0)) key' = some (le64 0) := by
      intro t key key' hcase
      by_cases hkey : key' = key
      · rw [hkey, update_self]
      · rw [update_of_ne hkey]
        exact hcase.resolve_right hkey
    have hbase : ∀ key, keyKind key ≠ ascii "__SREMU" →
        update s (consumersKey q) (some value) key = s key := by
      intro key hkind
      exact update_kind (by rw [keyKind_consumers]; exact hkind)
    constructor
    · rw [update_kind (by simp only [keyKind_fetchpos, keyKind_markpos]; decide)]
      apply hkeep
      rw [hbase _ (by rw [keyKind_fetchpos]; decide)]
      rcases hold with hold | ⟨rfl, rfl⟩
      · exact .inl (h.positions r v hold).1
      · exact .inr rfl
    · apply hkeep
      rw [update_kind (by simp only [keyKind_fetchpos, keyKind_markpos]; decide),
        hbase _ (by rw [keyKind_markpos]; decide)]
      rcases hold with hold | ⟨rfl, rfl⟩
      · exact .inl (h.positions r v hold).2
      · exact .inr rfl

--
-- The ledger in an open queue
--

theorem perm_cons_eraseP {α : Type} {p : α → Bool} {l : List α} {x : α} (h : l.find? p = some x) :
    (x :: l.eraseP p).Perm l := by
  induction l with
  | nil => cases h
  | cons y l ih =>
    rw [find?_cons] at h
    cases hp : p y with
    | true =>
      rw [hp] at h
      obtain rfl := Option.some.inj h
      rw [eraseP_cons_of_pos hp]
    | false =>
      rw [hp] at h
      rw [eraseP_cons_of_neg (by simp [hp])]
      exact (List.Perm.swap ..).trans ((ih h).cons y)

theorem perm_move {α : Type} {p : α → Bool} {l l' : List α} {x : α} (h : l.find? p = some x) :
    ((l' ++ [x]) ++ l.eraseP p).Perm (l' ++ l) := by
  rw [append_assoc]
  exact (perm_cons_eraseP h).append_left l'

theorem perm_concat {α : Type} (l l' : List α) (x : α) :
    ((l ++ [x]) ++ l').Perm ((l ++ l') ++ [x]) := by
  rw [append_assoc, append_assoc]
  exact List.Perm.append_left l perm_append_comm

theorem mem_loadedConsumers {cs : List Bytes} {c : Consumer} :
    c ∈ loadedConsumers cs ↔ cs[c.slot]? = some c.identity ∧ c.lastFetchIndex = 0 ∧
      c.lastMarkIndex = 0 := by
  unfold loadedConsumers
  rw [mem_map]
  constructor
  · rintro ⟨⟨u, i⟩, hmem, rfl⟩
    exact ⟨mem_zipIdx_iff_getElem?.mp hmem, rfl, rfl⟩
  · obtain ⟨u, i, f, k⟩ := c
    rintro ⟨hget, rfl, rfl⟩
    exact ⟨(u, i), mem_zipIdx_iff_getElem?.mpr hget, rfl⟩

theorem loadedConsumers_identity (cs : List Bytes) :
    (loadedConsumers cs).map (·.identity) = cs := by
  unfold loadedConsumers
  rw [map_map]
  exact zipIdx_map_fst 0 cs

theorem loadedConsumers_slot (cs : List Bytes) :
    (loadedConsumers cs).map (·.slot) = List.range cs.length := by
  unfold loadedConsumers
  rw [map_map, range_eq_range']
  exact zipIdx_map_snd 0 cs

theorem loadedConsumers_length (cs : List Bytes) : (loadedConsumers cs).length = cs.length := by
  unfold loadedConsumers
  rw [length_map, length_zipIdx]

theorem loadedConsumers_concat (cs : List Bytes) (u : Bytes) :
    loadedConsumers (cs ++ [u]) = loadedConsumers cs ++ [⟨u, cs.length, 0, 0⟩] := by
  unfold loadedConsumers
  rw [zipIdx_append, map_append]
  simp

section Open

variable {ps cs : List Bytes} {queue : Queue}

theorem OpenInv.producers_identity (h : OpenInv ps cs queue) :
    ((queue.activeProducers ++ queue.deadProducers).map (·.identity)).Perm ps := by
  have := h.producers.map (·.identity)
  rwa [map_map, show ((·.identity) ∘ fun u => (⟨u⟩ : Producer)) = id from rfl,
    map_id] at this

theorem OpenInv.consumers_identity (h : OpenInv ps cs queue) :
    ((queue.activeConsumers ++ queue.deadConsumers).map (·.identity)).Perm cs := by
  have := h.consumers.map (·.identity)
  rwa [loadedConsumers_identity] at this

theorem OpenInv.producerExist (h : OpenInv ps cs queue) (u : Bytes) :
    xmqProducerExist queue u = none ↔ u ∉ ps := by
  unfold xmqProducerExist
  rw [← find?_append, find?_eq_none, ← h.producers_identity.mem_iff, mem_map]
  simp

theorem OpenInv.consumerExist (h : OpenInv ps cs queue) (u : Bytes) :
    xmqConsumerExist queue u = none ↔ u ∉ cs := by
  unfold xmqConsumerExist
  rw [← find?_append, find?_eq_none, ← h.consumers_identity.mem_iff, mem_map]
  simp

theorem enter_of_mem {names : List Bytes} (h : u ∈ names) : enter names u = names :=
  if_pos h

theorem enter_of_notMem {names : List Bytes} (h : u ∉ names) :
    enter names u = names ++ [u] := if_neg h

theorem intSucc_natCast {n : Nat} (h : n < 2 ^ 31 - 1) : intSucc n = ((n + 1 : Nat) : Int) := by
  unfold intSucc
  rw [if_neg (by omega)]
  omega

/-- **Registering a producer** of an open queue: it is active afterwards, and it
is stored when it is new. -/
theorem registerAsProducer_open (hheap : ∀ n, n ≤ usable n) (h : OpenInv ps cs queue)
    (hps : StoredList s (producersKey queue.name) ps) (hu : Name u)
    (hlt : u ∉ ps → (joinFields ps).length + u.length + 2 < 2 ^ 32) :
    ∃ queue', queue'.name = queue.name ∧ OpenInv (enter ps u) cs queue' ∧
      (xmqRegisterAsProducer usable queue u).exec s = .ok ((true, queue'),
        if u ∈ ps then [] else
          [(producersKey queue.name, joinFields (ps ++ [u]) ++ [0])]) := by
  unfold xmqRegisterAsProducer
  rw [if_neg hu.ne_nil]
  by_cases hactive : (queue.activeProducers.find? (·.identity = u)).isSome
  · -- it is active already
    have hmem : u ∈ ps := by
      by_contra hmem
      rw [← h.producerExist u, xmqProducerExist, Option.or_eq_none_iff] at hmem
      rw [hmem.1] at hactive
      cases hactive
    refine ⟨queue, rfl, ?_, ?_⟩
    · rw [enter_of_mem hmem]
      exact h
    · rw [if_pos hactive, if_pos hmem]
      rfl
  rw [if_neg hactive]
  cases hdead : queue.deadProducers.find? (·.identity = u) with
  | some producer =>
    have hmem : u ∈ ps := by
      by_contra hmem
      rw [← h.producerExist u, xmqProducerExist, Option.or_eq_none_iff] at hmem
      rw [hmem.2] at hdead
      cases hdead
    refine ⟨{ queue with
        deadProducers := queue.deadProducers.eraseP (·.identity = u)
        activeProducers := queue.activeProducers ++ [producer] }, rfl, ?_, ?_⟩
    · rw [enter_of_mem hmem]
      exact ⟨h.active_eq, (perm_move hdead).trans h.producers, h.consumers, h.producers_amount,
        h.consumers_amount⟩
    · rw [if_pos hmem]
      rfl
  | none =>
    have hmem : u ∉ ps := by
      rw [← h.producerExist u, xmqProducerExist, hdead, Option.or_none]
      exact Option.not_isSome_iff_eq_none.mp hactive
    have htake : u.take 255 = u := take_of_length_le hu.short
    obtain ⟨hexec, hstored⟩ := append_stored hheap hps hu (hlt hmem)
    refine ⟨{ queue with
        activeProducers := queue.activeProducers ++ [⟨u⟩]
        producerAmount := intSucc queue.producerAmount }, rfl, ?_, ?_⟩
    · rw [enter_of_notMem hmem]
      refine ⟨h.active_eq, ?_, h.consumers, ?_, h.consumers_amount⟩
      · rw [map_append]
        exact (perm_concat ..).trans (h.producers.append_right [⟨u⟩])
      · have hlen := hstored.length_lt
        rw [length_append, length_singleton] at hlen ⊢
        rw [h.producers_amount, intSucc_natCast (by omega)]
    · have hkey : getKeyOfProducers usable queue.name = .ok (producersKey queue.name) :=
        stringAppend3rd_two hheap ..
      rw [if_neg hmem, hkey, htake]
      show KvProgram.exec (KvProgram.bind
        (writeBackAppend usable (producersKey queue.name) u [comma]) _) s = _
      rw [exec_bind, hexec]
      rfl

/-- The records that registering a new consumer writes. -/
def consumerWrites (q : Bytes) (cs : List Bytes) (u : Bytes) : List (Bytes × Bytes) :=
  [(consumersKey q, joinFields (cs ++ [u]) ++ [0]), (fetchposKey q u, le64 0),
    (markposKey q u, le64 0)]

theorem consumerActive_exec {consumer : Consumer} (hid : consumer.identity = u)
    (hfetch : consumer.lastFetchIndex = 0) (hmark : consumer.lastMarkIndex = 0)
    (hkey₁ : getKeyOfFetchpos usable queue.name u = .ok (fetchposKey queue.name u))
    (hkey₂ : getKeyOfMarkpos usable queue.name u = .ok (markposKey queue.name u))
    (h₁ : s (fetchposKey queue.name u) = some (le64 0))
    (h₂ : s (markposKey queue.name u) = some (le64 0)) :
    (consumerActive usable queue u consumer).exec s = .ok ((true, { queue with
      deadConsumers := queue.deadConsumers.eraseP (·.identity = u)
      activeConsumers := queue.activeConsumers ++ [consumer] }), []) := by
  obtain ⟨u, slot, f, k⟩ := consumer
  subst hid hfetch hmark
  have hinit : ∀ key, s key = some (le64 0) →
      (uint64TestInit key 0 0).exec s = .ok ((true, 0), []) := by
    intro key hkey
    rw [uint64TestInit_exec, hkey]
    dsimp only
    rw [if_pos (le64_length 0), leVal_le64 (by decide)]
  unfold consumerActive
  rw [hkey₁]
  show KvProgram.exec (KvProgram.bind (uint64TestInit _ _ 0) _) s = _
  rw [exec_bind, hinit _ h₁]
  dsimp only
  rw [if_neg (show ¬ (!true) = true by decide), hkey₂]
  show Except.map _ (KvProgram.exec (KvProgram.bind (uint64TestInit _ _ 0) _) s) = _
  rw [exec_bind, hinit _ h₂]
  rfl

theorem consumerNewActive_exec (hheap : ∀ n, n ≤ usable n)
    (hamount : queue.consumerAmount = cs.length) (hcs : StoredList s (consumersKey queue.name) cs)
    (hu : Name u) (hlt : (joinFields cs).length + u.length + 2 < 2 ^ 32)
    (hkey₁ : getKeyOfFetchpos usable queue.name u = .ok (fetchposKey queue.name u))
    (hkey₂ : getKeyOfMarkpos usable queue.name u = .ok (markposKey queue.name u)) :
    (consumerNewActive usable queue u).exec s = .ok ((true, { queue with
      activeConsumers := queue.activeConsumers ++ [⟨u, cs.length, 0, 0⟩]
      consumerAmount := ((cs.length + 1 : Nat) : Int) }), consumerWrites queue.name cs u) := by
  have hkey : getKeyOfConsumers usable queue.name = .ok (consumersKey queue.name) :=
    stringAppend3rd_two hheap ..
  have htake : u.take 255 = u := take_of_length_le hu.short
  obtain ⟨hexec, hstored⟩ := append_stored hheap hcs hu hlt
  have hlen := hstored.length_lt
  rw [length_append, length_singleton] at hlen
  have hslot : (queue.consumerAmount % 2 ^ 32).toNat = cs.length := by
    rw [hamount]
    omega
  have hsucc : intSucc queue.consumerAmount = ((cs.length + 1 : Nat) : Int) := by
    rw [hamount, intSucc_natCast (by omega)]
  unfold consumerNewActive
  rw [htake, hslot, hsucc, hkey]
  show KvProgram.exec (KvProgram.bind
    (writeBackAppend usable (consumersKey queue.name) u [comma]) _) s = _
  rw [exec_bind, hexec]
  dsimp only
  rw [if_neg (show ¬ (!true) = true by decide), hkey₁]
  show Except.map _ (KvProgram.exec (KvProgram.bind (uint64Write _ 0) _) _) = _
  rw [exec_bind, uint64Write_exec]
  dsimp only
  rw [if_neg (show ¬ (!true) = true by decide), hkey₂]
  show Except.map _ (Except.map _ (KvProgram.exec (KvProgram.bind (uint64Write _ 0) _) _)) = _
  rw [exec_bind, uint64Write_exec]
  rfl

theorem registerAsConsumer_open (hheap : ∀ n, n ≤ usable n) (h : OpenInv ps cs queue)
    (hcs : StoredList s (consumersKey queue.name) cs) (hu : Name u)
    (hlt : u ∉ cs → (joinFields cs).length + u.length + 2 < 2 ^ 32)
    (hkey₁ : getKeyOfFetchpos usable queue.name u = .ok (fetchposKey queue.name u))
    (hkey₂ : getKeyOfMarkpos usable queue.name u = .ok (markposKey queue.name u))
    (hpos : ∀ v ∈ cs, s (fetchposKey queue.name v) = some (le64 0) ∧
      s (markposKey queue.name v) = some (le64 0)) :
    ∃ queue', queue'.name = queue.name ∧ OpenInv ps (enter cs u) queue' ∧
      (xmqRegisterAsConsumer usable queue u).exec s =
        .ok ((true, queue'), if u ∈ cs then [] else consumerWrites queue.name cs u) := by
  unfold xmqRegisterAsConsumer
  rw [if_neg hu.ne_nil]
  by_cases hactive : (queue.activeConsumers.find? (·.identity = u)).isSome
  · have hmem : u ∈ cs := by
      by_contra hmem
      rw [← h.consumerExist u, xmqConsumerExist, Option.or_eq_none_iff] at hmem
      rw [hmem.1] at hactive
      cases hactive
    refine ⟨queue, rfl, ?_, ?_⟩
    · rw [enter_of_mem hmem]
      exact h
    · rw [if_pos hactive, if_pos hmem]
      rfl
  rw [if_neg hactive]
  cases hdead : queue.deadConsumers.find? (·.identity = u) with
  | some consumer =>
    have hmem : u ∈ cs := by
      by_contra hmem
      rw [← h.consumerExist u, xmqConsumerExist, Option.or_eq_none_iff] at hmem
      rw [hmem.2] at hdead
      cases hdead
    have hid : consumer.identity = u := by simpa using find?_some hdead
    obtain ⟨-, hfetch, hmark⟩ := mem_loadedConsumers.mp
      (h.consumers.mem_iff.mp (mem_append_right _ (mem_of_find?_eq_some hdead)))
    refine ⟨{ queue with
        deadConsumers := queue.deadConsumers.eraseP (·.identity = u)
        activeConsumers := queue.activeConsumers ++ [consumer] }, rfl, ?_, ?_⟩
    · rw [enter_of_mem hmem]
      exact ⟨h.active_eq, h.producers, (perm_move hdead).trans h.consumers, h.producers_amount,
        h.consumers_amount⟩
    · rw [if_pos hmem]
      exact consumerActive_exec hid hfetch hmark hkey₁ hkey₂ (hpos u hmem).1 (hpos u hmem).2
  | none =>
    have hmem : u ∉ cs := by
      rw [← h.consumerExist u, xmqConsumerExist, hdead, Option.or_none]
      exact Option.not_isSome_iff_eq_none.mp hactive
    refine ⟨{ queue with
        activeConsumers := queue.activeConsumers ++ [⟨u, cs.length, 0, 0⟩]
        consumerAmount := ((cs.length + 1 : Nat) : Int) }, rfl, ?_, ?_⟩
    · rw [enter_of_notMem hmem]
      refine ⟨h.active_eq, h.producers, ?_, h.producers_amount, ?_⟩
      · rw [loadedConsumers_concat]
        exact (perm_concat ..).trans (h.consumers.append_right _)
      · rw [length_append]
        rfl
    · rw [if_neg hmem]
      exact consumerNewActive_exec hheap h.consumers_amount hcs hu (hlt hmem) hkey₁ hkey₂

theorem unregisterProducer_open (h : OpenInv ps cs queue) (u : Bytes) :
    (xmqUnregisterProducer queue u).2.name = queue.name ∧
      OpenInv ps cs (xmqUnregisterProducer queue u).2 := by
  unfold xmqUnregisterProducer
  by_cases hu : u = []
  · rw [if_pos hu]
    exact ⟨rfl, h⟩
  rw [if_neg hu]
  cases hactive : queue.activeProducers.find? (·.identity = u) with
  | none => exact ⟨rfl, h⟩
  | some producer =>
    refine ⟨rfl, h.active_eq, ?_, h.consumers, h.producers_amount, h.consumers_amount⟩
    exact (perm_append_comm.trans (perm_move hactive)).trans
      (perm_append_comm.trans h.producers)

theorem unregisterConsumer_open (h : OpenInv ps cs queue) (u : Bytes) :
    (xmqUnregisterConsumer queue u).2.name = queue.name ∧
      OpenInv ps cs (xmqUnregisterConsumer queue u).2 := by
  unfold xmqUnregisterConsumer
  by_cases hu : u = []
  · rw [if_pos hu]
    exact ⟨rfl, h⟩
  rw [if_neg hu]
  cases hactive : queue.activeConsumers.find? (·.identity = u) with
  | none => exact ⟨rfl, h⟩
  | some consumer =>
    refine ⟨rfl, h.active_eq, h.producers, ?_, h.producers_amount, h.consumers_amount⟩
    exact (perm_append_comm.trans (perm_move hactive)).trans
      (perm_append_comm.trans h.consumers)

end Open

theorem Closed.unregisterProducer {queue : Queue} (h : Closed queue) (u : Bytes) :
    (xmqUnregisterProducer queue u).2 = queue := by
  unfold xmqUnregisterProducer
  rw [h.activeProducers_eq]
  split <;> rfl

theorem Closed.unregisterConsumer {queue : Queue} (h : Closed queue) (u : Bytes) :
    (xmqUnregisterConsumer queue u).2 = queue := by
  unfold xmqUnregisterConsumer
  rw [h.activeConsumers_eq]
  split <;> rfl

theorem xmqQueueClose_cases (queue : Queue) :
    (xmqQueueClose queue).2 = queue ∨
      (xmqQueueClose queue).2.name = queue.name ∧ Closed (xmqQueueClose queue).2 := by
  unfold xmqQueueClose
  by_cases hactive : (!queue.active) = true
  · rw [if_pos hactive]
    exact .inl rfl
  rw [if_neg hactive]
  by_cases hps : queue.activeProducers ≠ []
  · rw [if_pos hps]
    exact .inl rfl
  rw [if_neg hps]
  by_cases hcs : queue.activeConsumers ≠ []
  · rw [if_pos hcs]
    exact .inl rfl
  rw [if_neg hcs]
  exact .inr ⟨rfl, rfl, not_not.mp hps, not_not.mp hcs, rfl, rfl⟩

--
-- One call
--

/-- The call returns and leaves the registry of its ledger; an opening succeeds. -/
def Advances (usable : Nat → Nat) (s : Store) (ctx : Ctx) (L : Ledger) (call : Call) : Prop :=
  ∃ out found writes,
    (localStep usable (ctx.queues call.queue) call).exec s = .ok ((out, found), writes) ∧
    RegInv (putAll s writes) (ctx.put call.queue found) (L.step (call, out)) ∧
    ∀ q flag, call = .openQueue q flag → out = .done true

theorem RegCtx.put (h : RegCtx ctx L) {queue : Queue} (L' : Ledger) (hname : queue.name = q)
    (hqueue : Closed queue ∨ OpenInv (L'.producers q) (L'.consumers q) queue)
    (hqueues : ∀ r, r ∈ L'.queues ↔ r = q ∨ r ∈ L.queues)
    (hps : ∀ r, r ≠ q → L'.producers r = L.producers r)
    (hcs : ∀ r, r ≠ q → L'.consumers r = L.consumers r) : RegCtx (ctx.put q (some queue)) L' := by
  constructor
  · intro r
    rw [hqueues r]
    by_cases hr : r = q
    · rw [hr, Ctx.put_self]
      simp
    · rw [Ctx.put_of_ne hr, h.known r]
      simp [hr]
  · intro r queue' hqueue'
    by_cases hr : r = q
    · rw [hr, Ctx.put_self, Option.some.injEq] at hqueue'
      subst hqueue' hr
      exact ⟨hname, hqueue⟩
    · rw [Ctx.put_of_ne hr] at hqueue'
      rw [hps r hr, hcs r hr]
      exact h.kept r queue' hqueue'

theorem RegInv.put (h : RegInv s ctx L) {queue queue' : Queue} (hqueue : ctx.queues q = some queue)
    (hname : queue'.name = q)
    (hqueue' : Closed queue' ∨ OpenInv (L.producers q) (L.consumers q) queue') :
    RegInv s (ctx.put q (some queue')) L := by
  have hq : q ∈ L.queues := (h.ctx.known q).mp (by rw [hqueue]; exact nofun)
  refine ⟨h.store, h.ctx.put L hname hqueue' (fun r => ?_) (fun _ _ => rfl) fun _ _ => rfl,
    h.producers_nodup, h.consumers_nodup⟩
  exact ⟨.inr, fun hr => hr.elim (fun heq => heq ▸ hq) id⟩

theorem RegInv.absent (h : RegInv s ctx L) (hnone : ctx.queues q = none) :
    RegInv s (ctx.put q none) L := by
  have heq : (ctx.put q none).queues = ctx.queues := by
    funext r
    by_cases hr : r = q
    · rw [hr, Ctx.put_self, hnone]
    · exact Ctx.put_of_ne hr
  refine ⟨h.store, ⟨fun r => ?_, fun r queue hr => ?_⟩, h.producers_nodup, h.consumers_nodup⟩
  · rw [heq]
    exact h.ctx.known r
  · rw [heq] at hr
    exact h.ctx.kept r queue hr

theorem RegInv.openQueue (hheap : ∀ n, n ≤ usable n) (h : RegInv s ctx L) {flag : Nat}
    (hproper : Proper usable s (ctx.queues q) (.openQueue q flag)) :
    Advances usable s ctx L (.openQueue q flag) := by
  obtain ⟨hname, hlt⟩ := hproper
  unfold Advances
  dsimp only [Call.queue]
  cases hqueue : ctx.queues q with
  | none =>
    have hnew : q ∉ L.queues := fun hq => (h.ctx.known q).mpr hq hqueue
    have hlt := hlt hqueue
    rw [h.store.queues.string] at hlt
    obtain ⟨writes, hwrites, hexec⟩ := openQueue_create hheap hname h.store.queues hlt
      (h.store.producers q) (h.store.consumers q) (h.store.capacity q) flag
    have hstore := h.store.init hwrites
    refine ⟨_, _, _, hexec, ⟨?_, ?_, h.producers_nodup, h.consumers_nodup⟩, fun _ _ _ => rfl⟩
    · rw [Lib.putAll_append]
      show RegStore (update (putAll s writes) queuesKey _)
        { L with queues := enter L.queues q }
      rw [enter_of_notMem hnew]
      exact hstore.addQueue (append_stored hheap hstore.queues hname hlt).2
    · refine h.ctx.put { L with queues := enter L.queues q } rfl (.inr ?_) (fun r => ?_)
        (fun _ _ => rfl) fun _ _ => rfl
      · exact ⟨rfl, .refl _, .refl _, rfl, rfl⟩
      · rw [enter_of_notMem hnew, mem_append, mem_singleton]
        exact or_comm
  | some queue =>
    obtain ⟨hid, hkept⟩ := h.ctx.kept q queue hqueue
    have hq : q ∈ L.queues := (h.ctx.known q).mp (by rw [hqueue]; exact nofun)
    have hstep : L.step (.openQueue q flag, .done true) = L := by
      show { L with queues := enter L.queues q } = L
      rw [enter_of_mem hq]
    rcases hkept with hclosed | hopen
    · obtain ⟨writes, hwrites, hexec⟩ := openQueue_reopen hheap hclosed hid hname
        (h.store.producers q) (h.store.consumers q) (h.store.capacity q) flag
      refine ⟨_, _, _, hexec, ?_, fun _ _ _ => rfl⟩
      rw [hstep]
      have hinv : RegInv (putAll s writes) ctx L :=
        ⟨h.store.init hwrites, h.ctx, h.producers_nodup, h.consumers_nodup⟩
      refine hinv.put hqueue hid (.inr ?_)
      refine ⟨rfl, ?_, ?_, rfl, rfl⟩
      · show (queue.activeProducers ++ _).Perm _
        rw [hclosed.activeProducers_eq]
        exact .refl _
      · show (queue.activeConsumers ++ _).Perm _
        rw [hclosed.activeConsumers_eq]
        exact .refl _
    · have hexec : (localStep usable (some queue) (.openQueue q flag)).exec s =
          .ok ((.done true, some { queue with flag := flag }), []) := by
        show KvProgram.exec (KvProgram.bind (xmqQueueOpen usable (some queue) q flag) _) s = _
        unfold xmqQueueOpen
        rw [if_neg (by have := hname.short; omega)]
        dsimp only
        rw [hopen.active_eq, if_pos rfl]
        rfl
      refine ⟨_, _, _, hexec, ?_, fun _ _ _ => rfl⟩
      rw [hstep]
      refine h.put hqueue hid (.inr ?_)
      exact ⟨hopen.active_eq, hopen.producers, hopen.consumers, hopen.producers_amount,
        hopen.consumers_amount⟩

theorem RegInv.changed (h : RegInv s ctx L) {call : Call} {f : Queue → Bool × Queue}
    (hlocal : localStep usable (ctx.queues call.queue) call =
      withQueue (ctx.queues call.queue) (.ret (.done false)) fun queue =>
        .ret (.done (f queue).1, (f queue).2))
    (hstep : ∀ out, L.step (call, out) = L) (hopen : ∀ q flag, call ≠ .openQueue q flag)
    (hf : ∀ queue, queue.name = call.queue →
      Closed queue ∨ OpenInv (L.producers call.queue) (L.consumers call.queue) queue →
      (f queue).2.name = call.queue ∧ (Closed (f queue).2 ∨
        OpenInv (L.producers call.queue) (L.consumers call.queue) (f queue).2)) :
    Advances usable s ctx L call := by
  unfold Advances
  rw [hlocal]
  cases hqueue : ctx.queues call.queue with
  | none =>
    refine ⟨_, _, _, rfl, ?_, fun q flag heq => absurd heq (hopen q flag)⟩
    rw [hstep]
    exact h.absent hqueue
  | some queue =>
    obtain ⟨hid, hkept⟩ := h.ctx.kept _ queue hqueue
    obtain ⟨hid', hkept'⟩ := hf queue hid hkept
    refine ⟨_, _, _, rfl, ?_, fun q flag heq => absurd heq (hopen q flag)⟩
    rw [hstep]
    exact h.put hqueue hid' hkept'

theorem RegInv.closeQueue (h : RegInv s ctx L) (q : Bytes) :
    Advances usable s ctx L (.closeQueue q) := by
  refine h.changed (f := xmqQueueClose) rfl (fun _ => rfl) nofun fun queue hid hkept => ?_
  rcases xmqQueueClose_cases queue with heq | ⟨hname, hclosed⟩
  · rw [heq]
    exact ⟨hid, hkept⟩
  · exact ⟨hname.trans hid, .inl hclosed⟩

theorem RegInv.unregisterProducer (h : RegInv s ctx L) (q u : Bytes) :
    Advances usable s ctx L (.unregisterProducer q u) := by
  refine h.changed (f := fun queue => xmqUnregisterProducer queue u) rfl (fun _ => rfl) nofun
    fun queue hid hkept => ?_
  rcases hkept with hclosed | hopen
  · rw [hclosed.unregisterProducer u]
    exact ⟨hid, .inl hclosed⟩
  · obtain ⟨hname, hopen'⟩ := unregisterProducer_open hopen u
    exact ⟨hname.trans hid, .inr hopen'⟩

theorem RegInv.unregisterConsumer (h : RegInv s ctx L) (q u : Bytes) :
    Advances usable s ctx L (.unregisterConsumer q u) := by
  refine h.changed (f := fun queue => xmqUnregisterConsumer queue u) rfl (fun _ => rfl) nofun
    fun queue hid hkept => ?_
  rcases hkept with hclosed | hopen
  · rw [hclosed.unregisterConsumer u]
    exact ⟨hid, .inl hclosed⟩
  · obtain ⟨hname, hopen'⟩ := unregisterConsumer_open hopen u
    exact ⟨hname.trans hid, .inr hopen'⟩

theorem RegCtx.openInv (h : RegCtx ctx L) {queue : Queue} (hqueue : ctx.queues q = some queue)
    (hactive : queue.active = true) : OpenInv (L.producers q) (L.consumers q) queue := by
  rcases (h.kept q queue hqueue).2 with hclosed | hopen
  · rw [hclosed.active_eq] at hactive
    cases hactive
  · exact hopen

theorem RegInv.registerAsProducer (hheap : ∀ n, n ≤ usable n) (h : RegInv s ctx L)
    (hproper : Proper usable s (ctx.queues q) (.registerAsProducer q u)) :
    Advances usable s ctx L (.registerAsProducer q u) := by
  obtain ⟨hu, hfound⟩ := hproper
  unfold Advances
  dsimp only [Call.queue]
  cases hqueue : ctx.queues q with
  | none => exact ⟨_, _, _, rfl, h.absent hqueue, nofun⟩
  | some queue =>
    obtain ⟨hactive, hlt⟩ := hfound queue hqueue
    have hopen := h.ctx.openInv hqueue hactive
    obtain rfl : queue.name = q := (h.ctx.kept q queue hqueue).1
    have hq : queue.name ∈ L.queues := (h.ctx.known _).mp (by rw [hqueue]; exact nofun)
    rw [hopen.producerExist u, (h.store.producers _).string] at hlt
    obtain ⟨queue', hname, hopen', hexec⟩ :=
      registerAsProducer_open hheap hopen (h.store.producers _) hu hlt
    refine ⟨.done true, some queue', if u ∈ L.producers queue.name then [] else
      [(producersKey queue.name, joinFields (L.producers queue.name ++ [u]) ++ [0])], ?_,
      ⟨?_, ?_, ?_, h.consumers_nodup⟩, nofun⟩
    · exact exec_map (exec_map hexec rfl) rfl
    · show RegStore _ { L with
        producers := update L.producers queue.name (enter (L.producers queue.name) u) }
      by_cases hmem : u ∈ L.producers queue.name
      · rw [if_pos hmem, enter_of_mem hmem, update_eq_self]
        exact h.store
      · rw [if_neg hmem, enter_of_notMem hmem]
        exact h.store.addProducer (append_stored hheap (h.store.producers _) hu (hlt hmem)).2
    · refine h.ctx.put { L with
        producers := update L.producers queue.name (enter (L.producers queue.name) u) }
        hname (.inr ?_) (fun r => ?_) (fun r hr => update_of_ne hr ..) fun _ _ => rfl
      · dsimp only
        rw [update_self]
        exact hopen'
      · exact ⟨.inr, fun hr => hr.elim (fun heq => heq ▸ hq) id⟩
    · exact update_enter_nodup h.producers_nodup queue.name u

theorem RegInv.registerAsConsumer (hheap : ∀ n, n ≤ usable n) (h : RegInv s ctx L)
    (hproper : Proper usable s (ctx.queues q) (.registerAsConsumer q u)) :
    Advances usable s ctx L (.registerAsConsumer q u) := by
  obtain ⟨hu, hkey₁, hkey₂, hfound⟩ := hproper
  unfold Advances
  dsimp only [Call.queue]
  cases hqueue : ctx.queues q with
  | none => exact ⟨_, _, _, rfl, h.absent hqueue, nofun⟩
  | some queue =>
    obtain ⟨hactive, hlt⟩ := hfound queue hqueue
    have hopen := h.ctx.openInv hqueue hactive
    obtain rfl : queue.name = q := (h.ctx.kept q queue hqueue).1
    have hq : queue.name ∈ L.queues := (h.ctx.known _).mp (by rw [hqueue]; exact nofun)
    rw [hopen.consumerExist u, (h.store.consumers _).string] at hlt
    obtain ⟨queue', hname, hopen', hexec⟩ := registerAsConsumer_open hheap hopen
      (h.store.consumers _) hu hlt hkey₁ hkey₂ (h.store.positions _)
    refine ⟨.done true, some queue', if u ∈ L.consumers queue.name then [] else
      consumerWrites queue.name (L.consumers queue.name) u, ?_,
      ⟨?_, ?_, h.producers_nodup, ?_⟩, nofun⟩
    · exact exec_map (exec_map hexec rfl) rfl
    · show RegStore _ { L with
        consumers := update L.consumers queue.name (enter (L.consumers queue.name) u) }
      by_cases hmem : u ∈ L.consumers queue.name
      · rw [if_pos hmem, enter_of_mem hmem, update_eq_self]
        exact h.store
      · rw [if_neg hmem, enter_of_notMem hmem]
        exact h.store.addConsumer (append_stored hheap (h.store.consumers _) hu (hlt hmem)).2
    · refine h.ctx.put { L with
        consumers := update L.consumers queue.name (enter (L.consumers queue.name) u) }
        hname (.inr ?_) (fun r => ?_) (fun _ _ => rfl) fun r hr => update_of_ne hr ..
      · dsimp only
        rw [update_self]
        exact hopen'
      · exact ⟨.inr, fun hr => hr.elim (fun heq => heq ▸ hq) id⟩
    · exact update_enter_nodup h.consumers_nodup queue.name u

theorem RegInv.step (hheap : ∀ n, n ≤ usable n) (h : RegInv s ctx L) {call : Call}
    (hproper : Proper usable s (ctx.queues call.queue) call) : Advances usable s ctx L call := by
  cases call with
  | openQueue q flag => exact h.openQueue hheap hproper
  | closeQueue q => exact h.closeQueue q
  | registerAsProducer q u => exact h.registerAsProducer hheap hproper
  | unregisterProducer q u => exact h.unregisterProducer q u
  | registerAsConsumer q u => exact h.registerAsConsumer hheap hproper
  | unregisterConsumer q u => exact h.unregisterConsumer q u
  | _ => exact hproper.elim

theorem RegStore.restart (hheap : ∀ n, n ≤ usable n) (h : RegStore s L) :
    ∃ ctx', (xmqContextInit usable).exec s = .ok ((true, ctx'), []) ∧ RegCtx ctx' L := by
  have hkey : getKeyOfQueues usable = .ok queuesKey := stringAppend3rd_two hheap ..
  refine ⟨⟨fun q => if q ∈ L.queues then some (freshQueue q) else none, L.queues.length⟩, ?_,
    fun q => ?_, fun q queue hqueue => ?_⟩
  · unfold xmqContextInit
    rw [hkey]
    show KvProgram.exec (KvProgram.bind (loadStringList queuesKey) _) s = _
    rw [exec_bind, loadStringList_exec h.queues]
    rfl
  · by_cases hq : q ∈ L.queues
    · simp [hq]
    · simp [hq]
  · dsimp only at hqueue
    split at hqueue
    · obtain rfl := Option.some.inj hqueue
      exact ⟨rfl, .inl ⟨rfl, rfl, rfl, rfl, rfl⟩⟩
    · cases hqueue

--
-- Who was registered
--

/-- `u` was registered as a producer of `q`. -/
def WasProducer (log : List (Call × Out)) (q u : Bytes) : Prop :=
  (Call.registerAsProducer q u, Out.done true) ∈ log

/-- `u` was registered as a consumer of `q`. -/
def WasConsumer (log : List (Call × Out)) (q u : Bytes) : Prop :=
  (Call.registerAsConsumer q u, Out.done true) ∈ log

theorem mem_enter_iff {names : List Bytes} {v : Bytes} : v ∈ enter names u ↔ v ∈ names ∨ v = u := by
  unfold enter
  split
  · next hu => exact ⟨.inl, fun h => h.elim id fun heq => heq ▸ hu⟩
  · rw [mem_append, mem_singleton]

theorem mem_update_enter {names : Bytes → List Bytes} {r v : Bytes} :
    v ∈ update names r (enter (names r) u) q ↔ v ∈ names q ∨ q = r ∧ v = u := by
  by_cases hq : q = r
  · rw [hq, update_self, mem_enter_iff]
    simp
  · rw [update_of_ne hq]
    simp [hq]

theorem Ledger.mem_step_producers (L : Ledger) (e : Call × Out) (q u : Bytes) :
    u ∈ (L.step e).producers q ↔
      u ∈ L.producers q ∨ (Call.registerAsProducer q u, Out.done true) = e := by
  unfold Ledger.step
  split
  · simp
  · simp [mem_update_enter]
  · simp
  · next hother _ => exact ⟨.inl, fun h => h.elim id fun heq => absurd heq.symm (hother q u)⟩

theorem Ledger.mem_step_consumers (L : Ledger) (e : Call × Out) (q u : Bytes) :
    u ∈ (L.step e).consumers q ↔
      u ∈ L.consumers q ∨ (Call.registerAsConsumer q u, Out.done true) = e := by
  unfold Ledger.step
  split
  · simp
  · simp
  · simp [mem_update_enter]
  · next hother => exact ⟨.inl, fun h => h.elim id fun heq => absurd heq.symm (hother q u)⟩

theorem mem_ledger_producers (log : List (Call × Out)) (q u : Bytes) :
    u ∈ (ledger log).producers q ↔ WasProducer log q u := by
  unfold WasProducer
  induction log using List.reverseRecOn with
  | nil => exact ⟨nofun, nofun⟩
  | append_singleton log e ih =>
    rw [ledger_concat, Ledger.mem_step_producers, ih, mem_append, mem_singleton]

theorem mem_ledger_consumers (log : List (Call × Out)) (q u : Bytes) :
    u ∈ (ledger log).consumers q ↔ WasConsumer log q u := by
  unfold WasConsumer
  induction log using List.reverseRecOn with
  | nil => exact ⟨nofun, nofun⟩
  | append_singleton log e ih =>
    rw [ledger_concat, Ledger.mem_step_consumers, ih, mem_append, mem_singleton]

theorem prefix_update_enter (names : Bytes → List Bytes) (q r u : Bytes) :
    names q <+: update names r (enter (names r) u) q := by
  by_cases hq : q = r
  · rw [hq, update_self]
    exact prefix_enter _ u
  · rw [update_of_ne hq]

theorem ledger_grows (log more : List (Call × Out)) (q : Bytes) :
    (ledger log).producers q <+: (ledger (log ++ more)).producers q ∧
      (ledger log).consumers q <+: (ledger (log ++ more)).consumers q := by
  induction more using List.reverseRecOn with
  | nil =>
    rw [append_nil]
    exact ⟨prefix_rfl, prefix_rfl⟩
  | append_singleton more e ih =>
    rw [← append_assoc, ledger_concat]
    refine ⟨ih.1.trans ?_, ih.2.trans ?_⟩
    · unfold Ledger.step
      split
      · exact prefix_rfl
      · exact prefix_update_enter ..
      · exact prefix_rfl
      · exact prefix_rfl
    · unfold Ledger.step
      split
      · exact prefix_rfl
      · exact prefix_rfl
      · exact prefix_update_enter ..
      · exact prefix_rfl

--
-- Whole runs
--

/-- Everybody who was ever registered on an open queue is there once, in one of
the two lists, and nobody else is. -/
structure QueueRegistered (s : Store) (log : List (Call × Out)) (q : Bytes) (queue : Queue) :
    Prop where
  producers_once : ∀ u, WasProducer log q u →
    ((queue.activeProducers ++ queue.deadProducers).map (·.identity)).count u = 1
  producers_only : ∀ producer ∈ queue.activeProducers ++ queue.deadProducers,
    WasProducer log q producer.identity
  producers_amount :
    ((queue.activeProducers.length + queue.deadProducers.length : Nat) : Int) = queue.producerAmount
  consumers_once : ∀ u, WasConsumer log q u →
    ((queue.activeConsumers ++ queue.deadConsumers).map (·.identity)).count u = 1
  consumers_only : ∀ consumer ∈ queue.activeConsumers ++ queue.deadConsumers,
    WasConsumer log q consumer.identity
  consumers_amount :
    ((queue.activeConsumers.length + queue.deadConsumers.length : Nat) : Int) = queue.consumerAmount
  slots : ((queue.activeConsumers ++ queue.deadConsumers).map (·.slot)).Nodup
  positions : ∀ consumer ∈ queue.activeConsumers ++ queue.deadConsumers,
    s (fetchposKey q consumer.identity) = some (le64 consumer.lastFetchIndex) ∧
    s (markposKey q consumer.identity) = some (le64 consumer.lastMarkIndex)

/-- Every opening has succeeded, and the queues that are open hold everybody who
was ever registered. -/
structure Registered {W : Type} (view : W → Store) (st : Sys W) : Prop where
  opened : ∀ q flag out, (Call.openQueue q flag, out) ∈ st.log →
    out = .done true ∧ st.ctx.queues q ≠ none
  queues : ∀ q queue, st.ctx.queues q = some queue → queue.active = true →
    QueueRegistered (view st.medium) st.log q queue

/-- A queue that is open in both states has in the second everybody it has in
the first, with the same slot and positions, and when nobody new was registered
nobody else. -/
def Carried {W : Type} (st₁ st₂ : Sys W) : Prop :=
  ∀ q queue₁ queue₂, st₁.ctx.queues q = some queue₁ → queue₁.active = true →
    st₂.ctx.queues q = some queue₂ → queue₂.active = true →
    (∀ producer ∈ queue₁.activeProducers ++ queue₁.deadProducers,
      producer ∈ queue₂.activeProducers ++ queue₂.deadProducers) ∧
    (∀ consumer ∈ queue₁.activeConsumers ++ queue₁.deadConsumers,
      consumer ∈ queue₂.activeConsumers ++ queue₂.deadConsumers) ∧
    ((∀ u, WasProducer st₂.log q u → WasProducer st₁.log q u) →
      (queue₁.activeProducers ++ queue₁.deadProducers).Perm
        (queue₂.activeProducers ++ queue₂.deadProducers)) ∧
    ((∀ u, WasConsumer st₂.log q u → WasConsumer st₁.log q u) →
      (queue₁.activeConsumers ++ queue₁.deadConsumers).Perm
        (queue₂.activeConsumers ++ queue₂.deadConsumers))

/-- The calls a registry survives; a restart is always allowed. -/
def RegProper {W : Type} (usable : Nat → Nat) (view : W → Store) (st : Sys W) : RegAct → Prop
  | .call c => Proper usable (view st.medium) (st.found c) c
  | .restart => True

/-- The invariant of a run: the registry of the ledger of its log. -/
structure RunInv {W : Type} (view : W → Store) (st : Sys W) : Prop where
  reg : RegInv (view st.medium) st.ctx (ledger st.log)
  opened : ∀ q flag out, (Call.openQueue q flag, out) ∈ st.log →
    out = .done true ∧ q ∈ (ledger st.log).queues

theorem OpenInv.queueRegistered {log : List (Call × Out)} (h : RegInv s ctx (ledger log))
    {queue : Queue} (hopen : OpenInv ((ledger log).producers q) ((ledger log).consumers q) queue) :
    QueueRegistered s log q queue where
  producers_once u hu := by
    rw [hopen.producers_identity.count_eq]
    exact count_eq_one_of_mem (h.producers_nodup q) ((mem_ledger_producers log q u).mpr hu)
  producers_only producer hmem := by
    rw [← mem_ledger_producers]
    exact hopen.producers_identity.mem_iff.mp (mem_map_of_mem hmem)
  producers_amount := by
    have hlen := hopen.producers.length_eq
    rw [length_append, length_map] at hlen
    rw [hopen.producers_amount, hlen]
  consumers_once u hu := by
    rw [hopen.consumers_identity.count_eq]
    exact count_eq_one_of_mem (h.consumers_nodup q) ((mem_ledger_consumers log q u).mpr hu)
  consumers_only consumer hmem := by
    rw [← mem_ledger_consumers]
    exact hopen.consumers_identity.mem_iff.mp (mem_map_of_mem hmem)
  consumers_amount := by
    have hlen := hopen.consumers.length_eq
    rw [length_append, loadedConsumers_length] at hlen
    rw [hopen.consumers_amount, hlen]
  slots := by
    refine (hopen.consumers.map _).nodup_iff.mpr ?_
    rw [loadedConsumers_slot]
    exact nodup_range
  positions consumer hmem := by
    obtain ⟨-, hfetch, hmark⟩ := mem_loadedConsumers.mp (hopen.consumers.mem_iff.mp hmem)
    rw [hfetch, hmark]
    exact h.store.positions q _ (hopen.consumers_identity.mem_iff.mp (mem_map_of_mem hmem))

theorem RunInv.registered {W : Type} {view : W → Store} {st : Sys W} (h : RunInv view st) :
    Registered view st where
  opened q flag out hmem := by
    obtain ⟨hout, hq⟩ := h.opened q flag out hmem
    exact ⟨hout, (h.reg.ctx.known q).mpr hq⟩
  queues q queue hqueue hactive :=
    OpenInv.queueRegistered h.reg (h.reg.ctx.openInv hqueue hactive)

theorem loadedConsumers_mono {cs cs' : List Bytes} (h : cs <+: cs') {consumer : Consumer}
    (hmem : consumer ∈ loadedConsumers cs) : consumer ∈ loadedConsumers cs' := by
  obtain ⟨hget, hpos⟩ := mem_loadedConsumers.mp hmem
  obtain ⟨more, rfl⟩ := h
  obtain ⟨hlt, -⟩ := List.getElem?_eq_some_iff.mp hget
  refine mem_loadedConsumers.mpr ⟨?_, hpos⟩
  rw [getElem?_append_left hlt]
  exact hget

theorem eq_of_prefix_nodup {names names' : List Bytes} (h : names <+: names')
    (hnodup : names'.Nodup) (hsub : ∀ u ∈ names', u ∈ names) : names = names' :=
  h.eq_of_length (le_antisymm h.length_le (hnodup.subperm hsub).length_le)

theorem RunInv.carried {W : Type} {view : W → Store} {st₁ st₂ : Sys W} (h₁ : RunInv view st₁)
    (h₂ : RunInv view st₂) (hlog : st₁.log <+: st₂.log) : Carried st₁ st₂ := by
  intro q queue₁ queue₂ hqueue₁ hactive₁ hqueue₂ hactive₂
  have hopen₁ := h₁.reg.ctx.openInv hqueue₁ hactive₁
  have hopen₂ := h₂.reg.ctx.openInv hqueue₂ hactive₂
  obtain ⟨more, hmore⟩ := hlog
  have hgrow := ledger_grows st₁.log more q
  rw [hmore] at hgrow
  refine ⟨fun producer hmem => ?_, fun consumer hmem => ?_, fun hsame => ?_, fun hsame => ?_⟩
  · rw [hopen₁.producers.mem_iff, mem_map] at hmem
    rw [hopen₂.producers.mem_iff, mem_map]
    obtain ⟨u, hu, rfl⟩ := hmem
    exact ⟨u, hgrow.1.subset hu, rfl⟩
  · rw [hopen₁.consumers.mem_iff] at hmem
    rw [hopen₂.consumers.mem_iff]
    exact loadedConsumers_mono hgrow.2 hmem
  · have heq := eq_of_prefix_nodup hgrow.1 (h₂.reg.producers_nodup q) fun u hu => by
      rw [mem_ledger_producers] at hu ⊢
      exact hsame u hu
    refine hopen₁.producers.trans ?_
    rw [heq]
    exact hopen₂.producers.symm
  · have heq := eq_of_prefix_nodup hgrow.2 (h₂.reg.consumers_nodup q) fun u hu => by
      rw [mem_ledger_consumers] at hu ⊢
      exact hsame u hu
    refine hopen₁.consumers.trans ?_
    rw [heq]
    exact hopen₂.consumers.symm

section Runs

variable {W : Type} {m : Medium W} {view : W → Store}

theorem Ledger.queues_subset (L : Ledger) (e : Call × Out) (hq : q ∈ L.queues) :
    q ∈ (L.step e).queues := by
  unfold Ledger.step
  split
  · exact mem_enter_iff.mpr (.inl hq)
  · exact hq
  · exact hq
  · exact hq

theorem RunInv.step (hm : LawfulMedium m view) (hheap : ∀ n, n ≤ usable n) {st : Sys W}
    {act : RegAct} (h : RunInv view st) (hact : RegProper usable view st act) :
    ∃ st', regStep m usable st act = .ok st' ∧ RunInv view st' ∧ st.log <+: st'.log := by
  cases act with
  | call c =>
    obtain ⟨out, found, writes, hexec, hinv, hopen⟩ := h.reg.step hheap hact
    obtain ⟨w, hserve, hview⟩ := serve_lawful hm hexec
    refine ⟨_, hserve, ⟨?_, fun q flag out' hmem => ?_⟩, prefix_append ..⟩
    · rw [hview, ledger_concat]
      exact hinv
    · rw [ledger_concat]
      rcases mem_append.mp hmem with hmem | hmem
      · obtain ⟨hout, hq⟩ := h.opened q flag out' hmem
        exact ⟨hout, Ledger.queues_subset _ _ hq⟩
      · rw [mem_singleton, Prod.mk.injEq] at hmem
        obtain ⟨rfl, rfl⟩ := hmem
        obtain rfl := hopen q flag rfl
        exact ⟨rfl, mem_enter_iff.mpr (.inr rfl)⟩
  | restart =>
    obtain ⟨ctx', hexec, hctx⟩ := h.reg.store.restart hheap
    have hrun := run_lawful hm (xmqContextInit usable) st.medium
    rw [hexec] at hrun
    obtain ⟨w, hrun, hview⟩ := hrun
    refine ⟨⟨ctx', w, st.log⟩, ?_, ⟨?_, h.opened⟩, prefix_rfl⟩
    · unfold regStep
      rw [hrun]
    · rw [hview]
      exact ⟨h.reg.store, hctx, h.reg.producers_nodup, h.reg.consumers_nodup⟩

theorem RunInv.start (hm : LawfulMedium m view) (hheap : ∀ n, n ≤ usable n) {w : W} {st : Sys W}
    (hstart : Started m usable w st) (hblank : ∀ key, view w key = none) : RunInv view st := by
  have hlist : ∀ key, StoredList (view w) key [] := fun key =>
    ⟨hblank key, nofun, Nat.two_pow_pos 32⟩
  have hstore : RegStore (view w) (ledger []) :=
    ⟨hlist _, fun _ => hlist _, fun _ => hlist _, fun _ => .inl (hblank _), nofun⟩
  obtain ⟨ctx', hexec, hctx⟩ := hstore.restart hheap
  have hrun := run_lawful hm (xmqContextInit usable) w
  rw [hexec] at hrun
  obtain ⟨w', hrun, hview⟩ := hrun
  obtain ⟨hinit, hlog⟩ := hstart
  rw [hrun, Except.ok.injEq, Prod.mk.injEq, Prod.mk.injEq] at hinit
  obtain ⟨⟨-, rfl⟩, rfl⟩ := hinit
  refine ⟨?_, ?_⟩
  · rw [hlog, hview]
    exact ⟨hstore, hctx, fun _ => nodup_nil, fun _ => nodup_nil⟩
  · rw [hlog]
    exact nofun

/-- **The registry is kept.** A run of openings, closings, registrations and
restarts, starting on an empty store, whose registrations are made on open
queues succeeds; the queues that are open at its end hold everybody who was ever
registered, and everybody they held whenever they were open before. -/
theorem registry_kept (hm : LawfulMedium m view) (hheap : ∀ n, n ≤ usable n) {w : W} {st : Sys W}
    (hstart : Started m usable w st) (hblank : ∀ key, view w key = none) {l₁ l₂ : List RegAct}
    (h : Along (regStep m usable) (RegProper usable view) st (l₁ ++ l₂)) :
    ∃ st₁ st₂, run (regStep m usable) st l₁ = .ok st₁ ∧
      run (regStep m usable) st₁ l₂ = .ok st₂ ∧ Registered view st₂ ∧ Carried st₁ st₂ := by
  obtain ⟨st₁, hrun₁, hinv₁⟩ := Lib.run_of_along (I := RunInv view)
    (fun s a hs ha => by
      obtain ⟨s', hstep, hinv, -⟩ := hs.step hm hheap ha
      exact ⟨s', hstep, hinv⟩) (RunInv.start hm hheap hstart hblank) h.take
  obtain ⟨st₂, hrun₂, hinv₂, hlog⟩ := Lib.run_of_along
    (I := fun s => RunInv view s ∧ st₁.log <+: s.log)
    (fun s a hs ha => by
      obtain ⟨s', hstep, hinv, hlog⟩ := hs.1.step hm hheap ha
      exact ⟨s', hstep, hinv, hs.2.trans hlog⟩) ⟨hinv₁, prefix_rfl⟩ (h.drop hrun₁)
  exact ⟨st₁, st₂, hrun₁, hrun₂, hinv₂.registered, hinv₁.carried hinv₂ hlog⟩

end Runs

instance (u : Bytes) : Decidable (Name u) :=
  decidable_of_iff (u ≠ [] ∧ comma ∉ u ∧ (0 : UInt8) ∉ u ∧ u.length ≤ 255)
    ⟨fun h => ⟨h.1, h.2.1, h.2.2.1, h.2.2.2⟩, fun h => ⟨h.1, h.2, h.3, h.4⟩⟩

instance (usable : Nat → Nat) (s : Store) (found : Option Queue) :
    (call : Call) → Decidable (Proper usable s found call)
  | .openQueue q _ => inferInstanceAs (Decidable (Name q ∧
      (found = none → (storedString s queuesKey).length + q.length + 2 < 2 ^ 32)))
  | .closeQueue _ => isTrue trivial
  | .registerAsProducer q u => inferInstanceAs (Decidable (Name u ∧ ∀ queue ∈ found,
      queue.active = true ∧ (xmqProducerExist queue u = none →
        (storedString s (producersKey q)).length + u.length + 2 < 2 ^ 32)))
  | .unregisterProducer _ _ => isTrue trivial
  | .registerAsConsumer q u => inferInstanceAs (Decidable (Name u ∧
      getKeyOfFetchpos usable q u = .ok (fetchposKey q u) ∧
      getKeyOfMarkpos usable q u = .ok (markposKey q u) ∧
      ∀ queue ∈ found, queue.active = true ∧ (xmqConsumerExist queue u = none →
        (storedString s (consumersKey q)).length + u.length + 2 < 2 ^ 32)))
  | .unregisterConsumer _ _ => isTrue trivial
  | .pushTail _ _ _ => isFalse id
  | .fetchNth _ _ _ _ => isFalse id
  | .fetchNext _ _ _ => isFalse id
  | .fetchPos _ _ => isFalse id
  | .markNth _ _ _ => isFalse id
  | .markNext _ _ => isFalse id
  | .markPos _ _ => isFalse id
  | .lists _ => isFalse id

instance (usable : Nat → Nat) (st : Sys (List (Bytes × Bytes))) :
    (act : RegAct) → Decidable (RegProper usable Lib.pairsView st act)
  | .call _ => inferInstanceAs (Decidable (Proper ..))
  | .restart => isTrue trivial

/-- A producer and two consumers come and go; then the queue is closed and
opened again, and after a restart it is opened once more. -/
def comingAndGoing : List RegAct :=
  [.call (.openQueue (ascii "q") 0), .call (.registerAsProducer (ascii "q") (ascii "p")),
    .call (.registerAsConsumer (ascii "q") (ascii "c")),
    .call (.registerAsConsumer (ascii "q") (ascii "d")),
    .call (.unregisterConsumer (ascii "q") (ascii "c")),
    .call (.unregisterConsumer (ascii "q") (ascii "d")),
    .call (.unregisterProducer (ascii "q") (ascii "p"))]

def openedAgain : List RegAct :=
  [.call (.closeQueue (ascii "q")), .call (.openQueue (ascii "q") 0), .restart,
    .call (.openQueue (ascii "q") 0), .call (.registerAsConsumer (ascii "q") (ascii "d"))]

theorem registry_kept_openedAgain :
    Along (regStep Lib.pairsMedium glibcUsable) (RegProper glibcUsable Lib.pairsView) emptySys
      (comingAndGoing ++ openedAgain) ∧
    ∃ st₁ st₂, run (regStep Lib.pairsMedium glibcUsable) emptySys comingAndGoing = .ok st₁ ∧
      run (regStep Lib.pairsMedium glibcUsable) st₁ openedAgain = .ok st₂ ∧
      Registered Lib.pairsView st₂ ∧ Carried st₁ st₂ := by
  have h : Along (regStep Lib.pairsMedium glibcUsable) (RegProper glibcUsable Lib.pairsView)
      emptySys (comingAndGoing ++ openedAgain) := by decide +kernel
  exact ⟨h, registry_kept Lib.pairsMedium_lawful le_glibcUsable (w := []) ⟨rfl, rfl⟩
    (fun _ => rfl) h⟩

/-- A producer is registered on a queue that was closed. -/
def whileClosed : List RegAct :=
  [.call (.openQueue (ascii "q") 0), .call (.closeQueue (ascii "q")),
    .call (.registerAsProducer (ascii "q") (ascii "p")), .call (.openQueue (ascii "q") 0)]

/-- The producer that an entry of the log has registered. -/
def producerOf : Call × Out → Option (Bytes × Bytes)
  | (.registerAsProducer q u, .done true) => some (q, u)
  | _ => none

theorem wasProducer_of_mem {log : List (Call × Out)} (h : some (q, u) ∈ log.map producerOf) :
    WasProducer log q u := by
  obtain ⟨e, he, hof⟩ := mem_map.mp h
  unfold producerOf at hof
  split at hof
  · rw [Option.some.injEq, Prod.mk.injEq] at hof
    rw [← hof.1, ← hof.2]
    exact he
  · cases hof

/-- When the queue is opened, the producer is active and dead. -/
theorem registered_while_closed :
    ∃ st, run (regStep Lib.pairsMedium glibcUsable) emptySys whileClosed = .ok st ∧
      ¬ Registered Lib.pairsView st := by
  have hlists : (run (regStep Lib.pairsMedium glibcUsable) emptySys whileClosed).toOption.bind
      (fun st => (st.ctx.queues (ascii "q")).map fun queue =>
        (queue.active, queue.activeProducers.map (·.identity),
          queue.deadProducers.map (·.identity))) =
      some (true, [ascii "p"], [ascii "p"]) := by decide +kernel
  have hwas : (run (regStep Lib.pairsMedium glibcUsable) emptySys whileClosed).toOption.map
      (fun st => st.log.map producerOf) =
      some [none, none, some (ascii "q", ascii "p"), none] := by decide +kernel
  cases hrun : run (regStep Lib.pairsMedium glibcUsable) emptySys whileClosed with
  | error e =>
    rw [hrun] at hlists
    cases hlists
  | ok st =>
    rw [hrun] at hlists hwas
    refine ⟨st, rfl, fun h => ?_⟩
    obtain ⟨queue, hqueue, heq⟩ := Option.map_eq_some_iff.mp hlists
    rw [Prod.mk.injEq, Prod.mk.injEq] at heq
    have hlog : st.log.map producerOf = [none, none, some (ascii "q", ascii "p"), none] :=
      Option.some.inj hwas
    have hreg : WasProducer st.log (ascii "q") (ascii "p") :=
      wasProducer_of_mem (by rw [hlog]; simp)
    have hcount := (h.queues _ queue hqueue heq.1).producers_once _ hreg
    rw [map_append, heq.2.1, heq.2.2] at hcount
    exact absurd hcount (by decide)

end Supex.Mixmq
