import Mathlib.Data.List.Nodup
import Supex.Lib.Run
import Supex.Linkup.Queue

/-!
# The element pool of `lua-qpool`

A pool lends elements to its users. `pool_element_pull` takes one out of the queue, frees those
that fail the check, and creates one if none is left and `_counter` allows it;
`pool_element_push` puts one back into the queue, and `pool_element_free` gives one up.

* `pullLoop_spec` — the elements of the queue are freed, handed out or still queued.

Main result: `pool_consistent`.
-/

namespace Supex.Qpool

open List
open Linkup (Queue slot_inj slot_succ)
open Function (update update_of_ne update_self)

--
-- The pool
--

/-- A pool; a number stands for each element. What a callback returns may depend on
anything that `Usr` stands for. -/
structure Pool (Usr : Type) where
  capacity : Nat
  queue : Queue
  counter : Int
  createcb : Usr → Option Nat
  checkercb : Option (Nat → Usr → Bool)

variable {Usr User : Type}

/-- The pool that `pool_init` makes. -/
def poolInit (max : Nat) (createcb : Usr → Option Nat) (checkercb : Option (Nat → Usr → Bool)) :
    Pool Usr :=
  ⟨max, Queue.new max, 0, createcb, checkercb⟩

def poolElementFree (pool : Pool Usr) : Pool Usr := { pool with counter := pool.counter - 1 }

/-- The loop of `pool_element_pull`, with the elements that it frees. Each turn takes one out of
the queue, so that its counter is enough fuel. -/
def pullLoop (usr : Usr) : Nat → Pool Usr → List Nat → Option Nat × Pool Usr × List Nat
  | 0, pool, freed => (none, pool, freed)
  | fuel + 1, pool, freed =>
    match pool.queue.pull with
    | (none, queue) => (none, { pool with queue := queue }, freed)
    | (some element, queue) =>
      if pool.checkercb.all (· element usr) then
        (some element, { pool with queue := queue }, freed)
      else pullLoop usr fuel (poolElementFree { pool with queue := queue }) (freed ++ [element])

/-- `pool_element_pull`, with the elements that it creates and that it frees. -/
def poolElementPull (pool : Pool Usr) (usr : Usr) :
    Option Nat × Pool Usr × List Nat × List Nat :=
  match pullLoop usr pool.queue.counter pool [] with
  | (some element, pool, freed) => (some element, pool, [], freed)
  | (none, pool, freed) =>
    if pool.counter < pool.capacity then
      match pool.createcb usr with
      | none => (none, pool, [], freed)
      | some element =>
        (some element, { pool with counter := pool.counter + 1 }, [element], freed)
    else (none, pool, [], freed)

def poolElementPush (pool : Pool Usr) (element : Nat) : Bool × Pool Usr :=
  let (ok, queue) := pool.queue.push element
  (ok, { pool with queue := queue })

/-- The pool, the elements that the users hold, and all that were created and freed. -/
structure Sys (Usr User : Type) where
  pool : Pool Usr
  held : List (User × Nat)
  created : List Nat
  freed : List Nat

inductive Act (Usr User : Type) where
  | pull (user : User) (usr : Usr)
  | push (user : User) (element : Nat)
  | free (user : User) (element : Nat)

/-- What a user does. No user pushes or frees an element without holding it, and what a callback
creates is new. -/
def step [DecidableEq User] (s : Sys Usr User) : Act Usr User → Except Unit (Sys Usr User)
  | .pull user usr =>
    let (element, pool, created, freed) := poolElementPull s.pool usr
    if ∀ e ∈ created, e ∉ s.created then
      .ok { pool := pool
            held := (element.map (user, ·)).toList ++ s.held
            created := s.created ++ created
            freed := s.freed ++ freed }
    else .error ()
  | .push user element =>
    if (user, element) ∈ s.held then
      let (ok, pool) := poolElementPush s.pool element
      .ok { s with pool := pool, held := if ok then s.held.erase (user, element) else s.held }
    else .error ()
  | .free user element =>
    if (user, element) ∈ s.held then
      .ok { s with
        pool := poolElementFree s.pool
        held := s.held.erase (user, element)
        freed := s.freed ++ [element] }
    else .error ()

--
-- The queue
--

/-- The elements of a queue, from its first slot on. -/
def queued (q : Queue) : List Nat :=
  (List.range q.counter).filterMap fun k => q.value ((q.first + (k : Nat)) % q.maxindex)

structure Holds (q : Queue) (l : List Nat) : Prop where
  wf : 0 < q.maxindex → q.WF
  le : l.length ≤ q.maxindex
  counter : q.counter = l.length
  queued : queued q = l

variable {q : Queue} {l : List Nat} {v : Nat}

theorem Holds.new (capacity : Nat) : Holds (Queue.new capacity) [] :=
  ⟨Queue.WF.new, Nat.zero_le _, rfl, rfl⟩

theorem Holds.push (h : Holds q l) (hroom : l.length < q.maxindex) (v : Nat) :
    ∃ q', q.push v = (true, q') ∧ q'.maxindex = q.maxindex ∧ Holds q' (l ++ [v]) := by
  have hspace : ¬q.Full := by
    rw [Queue.Full, h.counter]
    omega
  have hwf := h.wf (by omega)
  have hpush := hwf.push hspace v
  rw [Queue.push, if_neg hspace] at hpush ⊢
  refine ⟨_, rfl, rfl, fun _ => hpush, by simpa using Nat.succ_le_of_lt hroom,
    by simp [h.counter], ?_⟩
  show (List.range (q.counter + 1)).filterMap (fun k =>
    update q.value ((q.last + 1) % q.maxindex) (some v) ((q.first + (k : Nat)) % q.maxindex)) = _
  rw [hwf.last, range_succ, filterMap_append, ← h.queued]
  congr 1
  · refine filterMap_congr fun k hk => update_of_ne (fun heq => ?_) _ _
    have hlt := mem_range.mp hk
    have hcounter := h.counter
    exact Nat.ne_of_lt hlt (slot_inj (by omega) (by omega) heq)
  · simp

theorem Holds.pull (h : Holds q (v :: l)) :
    ∃ q', q.pull = (some v, q') ∧ q'.maxindex = q.maxindex ∧ Holds q' l := by
  have hcounter : q.counter = l.length + 1 := h.counter
  have hle : l.length + 1 ≤ q.maxindex := h.le
  have hwf := h.wf (by omega)
  obtain ⟨w, hw⟩ := hwf.pull_filled (by omega)
  have hpull := hwf.pull
  have hqueued := h.queued
  rw [Qpool.queued, hcounter, range_succ_eq_map, filterMap_cons, filterMap_map,
    Int.natCast_zero, Int.add_zero, hwf.first, hw] at hqueued
  obtain ⟨rfl, hrest⟩ := cons.inj hqueued
  rw [Queue.pull, if_neg (by omega), hw] at hpull ⊢
  refine ⟨_, rfl, rfl, fun _ => hpull, by dsimp only; omega, by dsimp only; omega, ?_⟩
  rw [← hrest, Qpool.queued, hcounter]
  refine filterMap_congr fun k hk => ?_
  have hlt := mem_range.mp hk
  dsimp only
  rw [slot_succ, update_of_ne]
  · rfl
  · exact hwf.slot_ne_first (by dsimp only at hlt; omega)

--
-- The elements
--

/-- The loop frees `out`, hands out `element` and leaves `rest` in the queue. -/
structure Pulled (pool pool' : Pool Usr) (l out : List Nat) (element : Option Nat)
    (rest : List Nat) : Prop where
  elements : l = out ++ (element.toList ++ rest)
  capacity : pool'.capacity = pool.capacity
  maxindex : pool'.queue.maxindex = pool.queue.maxindex
  counter : pool'.counter = pool.counter - out.length
  holds : Holds pool'.queue rest

theorem pullLoop_spec (usr : Usr) {pool : Pool Usr} (h : Holds pool.queue l) (freed : List Nat) :
    ∃ element pool' out rest, pullLoop usr l.length pool freed = (element, pool', freed ++ out) ∧
      Pulled pool pool' l out element rest := by
  induction l generalizing pool freed with
  | nil => exact ⟨none, pool, [], [], by simp [pullLoop], rfl, rfl, rfl, by simp, h⟩
  | cons v l ih =>
    obtain ⟨queue, hpull, hmax, hrest⟩ := h.pull
    rw [length_cons, pullLoop, hpull]
    dsimp only
    split
    · exact ⟨some v, { pool with queue := queue }, [], l, by rw [append_nil], rfl, rfl, hmax,
        by simp, hrest⟩
    · have hfree : Holds (poolElementFree { pool with queue := queue }).queue l := hrest
      obtain ⟨element, pool', out, rest, hloop, hpulled⟩ := ih hfree (freed ++ [v])
      refine ⟨element, pool', v :: out, rest, by rw [hloop, append_assoc]; rfl,
        congrArg (v :: ·) hpulled.elements, hpulled.capacity, hpulled.maxindex.trans hmax, ?_,
        hpulled.holds⟩
      rw [hpulled.counter, length_cons]
      dsimp only [poolElementFree]
      omega

/-- What holds after every run: each element that was created is freed, queued or held. -/
structure Inv (s : Sys Usr User) (l : List Nat) : Prop where
  holds : Holds s.pool.queue l
  maxindex : s.pool.queue.maxindex = s.pool.capacity
  count : ∀ e, s.created.count e =
    s.freed.count e + (l.count e + (s.held.map Prod.snd).count e)
  nodup : s.created.Nodup
  counter : s.pool.counter = l.length + s.held.length
  le : s.pool.counter ≤ s.pool.capacity

variable [DecidableEq User]

/-- A pull also may create an element. -/
theorem poolElementPull_spec (usr : Usr) {pool : Pool Usr} (h : Holds pool.queue l)
    (hle : pool.counter ≤ pool.capacity) :
    ∃ element pool' created freed rest,
      poolElementPull pool usr = (element, pool', created, freed) ∧ Holds pool'.queue rest ∧
      pool'.queue.maxindex = pool.queue.maxindex ∧ pool'.capacity = pool.capacity ∧
      created.Nodup ∧ (l ++ created).Perm (freed ++ (element.toList ++ rest)) ∧
      pool'.counter = pool.counter + created.length - freed.length ∧
      pool'.counter ≤ pool'.capacity := by
  obtain ⟨element, pool', out, rest, hloop, hpulled⟩ := pullLoop_spec usr h []
  have hcounter := hpulled.counter
  rw [nil_append] at hloop
  rw [poolElementPull, h.counter, hloop]
  have hfound : (l ++ []).Perm (out ++ (element.toList ++ rest)) := by
    rw [append_nil, hpulled.elements]
  have hkept : pool'.counter ≤ pool'.capacity := by
    rw [hpulled.capacity]
    omega
  cases element with
  | some element =>
    exact ⟨_, pool', [], out, rest, rfl, hpulled.holds, hpulled.maxindex, hpulled.capacity,
      nodup_nil, hfound, by simpa using hcounter, hkept⟩
  | none =>
    dsimp only
    split
    · next hlt =>
      cases pool'.createcb usr with
      | none => exact ⟨_, pool', [], out, rest, rfl, hpulled.holds, hpulled.maxindex,
          hpulled.capacity, nodup_nil, hfound, by simpa using hcounter, hkept⟩
      | some element =>
        refine ⟨_, { pool' with counter := pool'.counter + 1 }, [element], out, rest, rfl,
          hpulled.holds, hpulled.maxindex, hpulled.capacity, by simp, ?_, ?_, hlt⟩
        · rw [hpulled.elements, append_assoc]
          exact perm_append_comm.append_left out
        · dsimp only
          rw [length_singleton]
          omega
    · exact ⟨_, pool', [], out, rest, rfl, hpulled.holds, hpulled.maxindex, hpulled.capacity,
        nodup_nil, hfound, by simpa using hcounter, hkept⟩

variable {s s' : Sys Usr User} {user : User} {usr : Usr} {element : Nat}

theorem Inv.pull (h : Inv s l) (hstep : step s (.pull user usr) = .ok s') : ∃ l', Inv s' l' := by
  obtain ⟨element, pool, created, freed, rest, hpull, hrest, hmax, hcap, hnew, hperm, hcounter,
    hle⟩ := poolElementPull_spec usr h.holds h.le
  rw [step, hpull] at hstep
  dsimp only at hstep
  split at hstep
  · next hfresh =>
    obtain rfl := Except.ok.inj hstep
    have hheld : ((element.map (user, ·)).toList ++ s.held).map Prod.snd =
        element.toList ++ s.held.map Prod.snd := by
      cases element <;> simp
    refine ⟨rest, hrest, hmax.trans (h.maxindex.trans hcap.symm), fun e => ?_,
      nodup_append.mpr ⟨h.nodup, hnew, fun a ha b hb hab => hfresh b hb (hab ▸ ha)⟩, ?_, hle⟩
    · have hcount := h.count e
      have hmoved := hperm.count_eq e
      rw [hheld]
      simp only [count_append] at hmoved ⊢
      omega
    · have hcount := h.counter
      have hmoved := hperm.length_eq
      have hlen := congrArg length hheld
      simp only [length_append, length_map] at hmoved hlen ⊢
      omega
  · cases hstep

theorem count_held (hheld : (user, element) ∈ s.held) (e : Nat) :
    (s.held.map Prod.snd).count e =
      [element].count e + ((s.held.erase (user, element)).map Prod.snd).count e := by
  have hperm := ((perm_cons_erase hheld).map Prod.snd).count_eq e
  rw [hperm, map_cons, ← singleton_append, count_append]

theorem length_held (hheld : (user, element) ∈ s.held) :
    s.held.length = (s.held.erase (user, element)).length + 1 := by
  rw [length_erase_of_mem hheld, Nat.sub_add_cancel (length_pos_of_mem hheld)]

theorem Inv.room (h : Inv s l) (hheld : (user, element) ∈ s.held) :
    l.length < s.pool.queue.maxindex := by
  have hcounter := h.counter
  have hle := h.le
  have hlen := length_held hheld
  rw [h.maxindex]
  omega

theorem Inv.push (h : Inv s l) (hstep : step s (.push user element) = .ok s') :
    ∃ l', Inv s' l' := by
  rw [step] at hstep
  split at hstep
  · next hheld =>
    obtain ⟨queue, hpush, hmax, hholds⟩ := h.holds.push (h.room hheld) element
    rw [poolElementPush, hpush] at hstep
    obtain rfl := Except.ok.inj hstep
    refine ⟨l ++ [element], hholds, hmax.trans h.maxindex, fun e => ?_, h.nodup, ?_, h.le⟩
    · have hcount := h.count e
      have hmoved := count_held hheld e
      rw [if_pos rfl, count_append]
      dsimp only
      omega
    · have hcounter := h.counter
      have hlen := length_held hheld
      rw [if_pos rfl, length_append, length_singleton]
      dsimp only
      omega
  · cases hstep

theorem Inv.free (h : Inv s l) (hstep : step s (.free user element) = .ok s') : Inv s' l := by
  rw [step] at hstep
  split at hstep
  · next hheld =>
    obtain rfl := Except.ok.inj hstep
    have hcounter := h.counter
    have hle := h.le
    have hlen := length_held hheld
    refine ⟨h.holds, h.maxindex, fun e => ?_, h.nodup, ?_, ?_⟩
    · have hcount := h.count e
      have hmoved := count_held hheld e
      rw [count_append]
      dsimp only
      omega
    · dsimp only [poolElementFree]
      omega
    · dsimp only [poolElementFree]
      omega
  · cases hstep

/-- What the users of a pool rely on. -/
structure Consistent (s : Sys Usr User) : Prop where
  exact : ∀ e, e ∈ queued s.pool.queue ++ s.held.map Prod.snd ↔ e ∈ s.created ∧ e ∉ s.freed
  unique : (queued s.pool.queue ++ s.held.map Prod.snd).Nodup
  counter : s.pool.counter = (queued s.pool.queue ++ s.held.map Prod.snd).length
  capacity : s.pool.counter ≤ s.pool.capacity
  push : ∀ user element, (user, element) ∈ s.held → (poolElementPush s.pool element).1 = true

theorem Inv.consistent (h : Inv s l) : Consistent s := by
  have hqueued := h.holds.queued
  have hone := nodup_iff_count_le_one.mp h.nodup
  have hcount := h.count
  refine ⟨fun e => ?_, nodup_iff_count_le_one.mpr fun e => ?_, ?_, h.le,
    fun user element hheld => ?_⟩
  · rw [← count_pos_iff, ← count_pos_iff, ← count_eq_zero, count_append, hqueued, hcount]
    have := hone e
    rw [hcount] at this
    omega
  · have := hone e
    rw [hcount] at this
    rw [count_append, hqueued]
    omega
  · rw [h.counter, length_append, length_map, hqueued, Int.natCast_add]
  · obtain ⟨queue, hpush, -⟩ := h.holds.push (h.room hheld) element
    rw [poolElementPush, hpush]

/-- The pool of `pool_init`, which nobody has used. -/
def Sys.init (max : Nat) (createcb : Usr → Option Nat) (checkercb : Option (Nat → Usr → Bool)) :
    Sys Usr User :=
  ⟨poolInit max createcb checkercb, [], [], []⟩

/-- **The pool.** After every run of users that push and free only what they hold, the elements
that are queued or held are those created and not freed, no one is there twice, `_counter` is
their number, and each of those held can be pushed. -/
theorem pool_consistent {max : Nat} {createcb : Usr → Option Nat}
    {checkercb : Option (Nat → Usr → Bool)} {acts : List (Act Usr User)} {s : Sys Usr User}
    (hrun : Lib.run step (Sys.init max createcb checkercb) acts = .ok s) : Consistent s := by
  have hinit : Inv (Sys.init max createcb checkercb : Sys Usr User) [] :=
    ⟨.new max, rfl, fun _ => rfl, nodup_nil, rfl, Int.natCast_nonneg max⟩
  have hinv : ∃ l, Inv s l := by
    refine Lib.run_inv (I := fun s => ∃ l, Inv s l) (fun s act s' ⟨l, h⟩ hstep => ?_)
      ⟨[], hinit⟩ hrun
    cases act with
    | pull user usr => exact h.pull hstep
    | push user element => exact h.push hstep
    | free user element => exact ⟨l, h.free hstep⟩
  obtain ⟨l, h⟩ := hinv
  exact h.consistent

/-- Element 5 is put back, fails the check and makes way for 6. -/
theorem pool_consistent_replaced : ∃ s : Sys Nat Nat,
    Lib.run step (Sys.init 1 some (some fun e usr => decide (e + 1 ≠ usr)))
      [.pull 0 5, .push 0 5, .pull 1 6] = .ok s ∧ Consistent s := by
  obtain ⟨s, hrun⟩ : ∃ s : Sys Nat Nat,
      Lib.run step (Sys.init 1 some (some fun e usr => decide (e + 1 ≠ usr)))
        [.pull 0 5, .push 0 5, .pull 1 6] = .ok s := ⟨_, rfl⟩
  exact ⟨s, hrun, pool_consistent hrun⟩

end Supex.Qpool
