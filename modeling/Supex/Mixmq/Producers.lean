import Supex.Mixmq.Capacity

/-!
# libmixmq — producers that push at the same time

`queue_push_tail` reads the capacity of its queue, writes the message and the
new capacity in one call of the store, and then advances the capacity in memory
under `wait_lock`. Nothing keeps another producer out between these steps:
`pushStep` takes one of them at a time.

Main results: `push_alone`, `pushes_kept_of_alone`, `racing_overwrites`.
-/

namespace Supex.Mixmq

open List

open Lib (KvProgram putAll LawfulMedium run Along)
open Function (update update_eq_self update_idem update_of_ne update_self)

--
-- The steps of a push
--

/-- How far a producer is in `queue_push_tail`. -/
inductive Phase where
  | idle
  | numbered (msg : Msg) (index : Nat)
  | stored

/-- A queue with its producers, and the messages that were put with their
numbers. -/
structure Pushing (ι W : Type) where
  queue : Queue
  medium : W
  phase : ι → Phase
  log : List (Msg × Nat)

/-- A step of the producer `p`. -/
inductive PushAct (ι : Type) where
  | number (p : ι) (msg : Msg)
  | store (p : ι)
  | advance (p : ι)

section Steps

variable {ι W : Type} [DecidableEq ι]

/-- The record of a message: its length is stored into an `unsigned int`. -/
def msgRecord (msg : Msg) (index : Nat) : Bytes :=
  (msg.bytes index).take (u32 (msg.bytes index).length)

/-- The key of the capacity, the number of the message. -/
def pushNumber (m : Medium W) (usable : Nat → Nat) (queue : Queue) (w : W) :
    Except Fault ((Bool × Nat) × W) :=
  match getKeyOfCapacity usable queue.name with
  | .error e => .error e
  | .ok key => (reloadCapacity key queue).run m w

/-- The two records, in one call of the store. -/
def pushPut (m : Medium W) (usable : Nat → Nat) (queue : Queue) (msg : Msg) (index : Nat) (w : W) :
    Except Fault (Bool × W) :=
  match getKeyOfCapacity usable queue.name with
  | .error e => .error e
  | .ok key => .ok (m.putKVs [(le64 index, msgRecord msg index), (key, le64 index)] w)

/-- One step of one producer; a step that it cannot take now changes nothing. -/
def pushStep (m : Medium W) (usable : Nat → Nat) (st : Pushing ι W) :
    PushAct ι → Except Fault (Pushing ι W)
  | .number p msg =>
    match st.phase p with
    | .idle =>
      match pushNumber m usable st.queue st.medium with
      | .error e => .error e
      | .ok ((false, _), w) => .ok { st with medium := w }
      | .ok ((true, capacity), w) => .ok { st with
          queue := { st.queue with msgCapacity := capacity }
          medium := w
          phase := Function.update st.phase p (.numbered msg ((capacity + 1) % u64Size)) }
    | _ => .ok st
  | .store p =>
    match st.phase p with
    | .numbered msg index =>
      match pushPut m usable st.queue msg index st.medium with
      | .error e => .error e
      | .ok (false, w) => .ok { st with medium := w, phase := Function.update st.phase p .idle }
      | .ok (true, w) => .ok { st with
          medium := w
          phase := Function.update st.phase p .stored
          log := st.log ++ [(msg, index)] }
    | _ => .ok st
  | .advance p =>
    match st.phase p with
    | .stored => .ok { st with
        queue := if st.queue.blocking then
          { st.queue with msgCapacity := (st.queue.msgCapacity + 1) % u64Size } else st.queue
        phase := Function.update st.phase p .idle }
    | _ => .ok st

variable {m : Medium W} {usable : Nat → Nat} {st : Pushing ι W} {p : ι} {msg : Msg}

/-- **The steps are those of the call.** A producer that is alone does what
`queue_push_tail` does. -/
theorem push_alone {pid : Bytes} (hidle : st.phase p = .idle) {index : Nat} {queue' : Queue}
    {w' : W} (h : (queuePushTail usable st.queue pid msg).run m st.medium =
      .ok (((true, index), queue'), w')) :
    run (pushStep m usable) st [.number p msg, .store p, .advance p] =
      .ok { st with queue := queue', medium := w', log := st.log ++ [(msg, index)] } := by
  unfold queuePushTail at h
  split at h
  · cases h
  · cases hkey : getKeyOfCapacity usable st.queue.name with
    | error e =>
      rw [hkey] at h
      cases h
    | ok key =>
      rw [hkey] at h
      change (KvProgram.bind (reloadCapacity key st.queue) _).run m st.medium = _ at h
      rw [KvProgram.run_bind] at h
      cases hload : (reloadCapacity key st.queue).run m st.medium with
      | error e =>
        rw [hload] at h
        cases h
      | ok r =>
        obtain ⟨⟨ok, capacity⟩, w⟩ := r
        rw [hload] at h
        cases ok with
        | false => cases h
        | true =>
          -- the write of the two records
          generalize hput : m.putKVs [(le64 ((capacity + 1) % u64Size),
            msgRecord msg ((capacity + 1) % u64Size)), (key, le64 ((capacity + 1) % u64Size))] w =
              r at *
          obtain ⟨ok', w₂⟩ := r
          change Except.ok ((((m.putKVs [(_, msgRecord _ _), _] w).1, _),
            if (m.putKVs [(_, msgRecord _ _), _] w).1 && _ then _ else _),
            (m.putKVs [(_, msgRecord _ _), _] w).2) = _ at h
          rw [hput] at h
          cases ok' with
          | false => cases h
          | true =>
            have hnumber : pushNumber m usable st.queue st.medium = .ok ((true, capacity), w) := by
              unfold pushNumber
              rw [hkey]
              exact hload
            have hstore : pushPut m usable { st.queue with msgCapacity := capacity } msg
                ((capacity + 1) % u64Size) w = .ok (true, w₂) := by
              unfold pushPut
              rw [hkey]
              exact congrArg Except.ok hput
            have hback : update st.phase p .idle = st.phase := by
              rw [← hidle, update_eq_self]
            simp only [run, pushStep, hidle, hnumber, update_self, hstore,
              update_idem, hback]
            cases h
            rfl

--
-- One push at a time
--

variable {view : W → Store}

/-- A push begins only while no other one is under way, and while there is a
number left. -/
def Alone (view : W → Store) (st : Pushing ι W) : PushAct ι → Prop
  | .number p _ => (∀ o, o ≠ p → st.phase o = .idle) ∧
      ∀ n ∈ pushCapacity (view st.medium) st.queue, n + 1 < u64Size
  | _ => True

/-- The pushes have different numbers, and every message is where it was put. -/
structure PushesKept (view : W → Store) (st : Pushing ι W) : Prop where
  distinct : (st.log.map (·.2)).Nodup
  kept : ∀ e ∈ st.log, view st.medium (le64 e.2) = some (msgRecord e.1 e.2)

/-- A blocking queue whose capacity in memory, unless it is still 0, is the
stored one, before any push. -/
structure PushStart (view : W → Store) (st : Pushing ι W) : Prop where
  idle : ∀ p, st.phase p = .idle
  log_nil : st.log = []
  blocking : st.queue.blocking = true
  coherent : st.queue.msgCapacity = 0 ∨
    st.queue.msgCapacity = storedCapacity (view st.medium) st.queue.name

/-- Where the producers can be, with the two capacities: at most one of them is
pushing. -/
inductive PhaseInv (s : Store) (st : Pushing ι W) : Prop where
  | idle (hidle : ∀ p, st.phase p = .idle) (hcap : st.queue.msgCapacity = 0 ∨
      st.queue.msgCapacity = storedCapacity s st.queue.name)
  | numbered (p : ι) (msg : Msg) (hothers : ∀ o, o ≠ p → st.phase o = .idle)
      (hphase : st.phase p = .numbered msg (storedCapacity s st.queue.name + 1))
      (hcap : st.queue.msgCapacity = storedCapacity s st.queue.name)
      (hlt : storedCapacity s st.queue.name + 1 < u64Size)
  | stored (p : ι) (hothers : ∀ o, o ≠ p → st.phase o = .idle) (hphase : st.phase p = .stored)
      (hcap : st.queue.msgCapacity + 1 = storedCapacity s st.queue.name)

structure PushInv (s : Store) (st : Pushing ι W) : Prop where
  blocking : st.queue.blocking = true
  phases : PhaseInv s st
  indices_le : ∀ e ∈ st.log, e.2 ≤ storedCapacity s st.queue.name
  distinct : (st.log.map (·.2)).Nodup
  kept : ∀ e ∈ st.log, s (le64 e.2) = some (msgRecord e.1 e.2)

theorem storedCapacity_lt (s : Store) (q : Bytes) : storedCapacity s q < u64Size := by
  unfold storedCapacity
  split
  · decide
  · split
    · next hlen => exact leVal_lt hlen
    · decide

theorem pushCapacity_coherent {s : Store} {queue : Queue} {n : Nat}
    (hcap : queue.msgCapacity = 0 ∨ queue.msgCapacity = storedCapacity s queue.name)
    (h : pushCapacity s queue = some n) : n = storedCapacity s queue.name := by
  unfold pushCapacity at h
  split at h
  · unfold storedCapacity
    cases hs : s (capacityKey queue.name) with
    | none =>
      rw [hs] at h
      exact (Option.some.inj h).symm
    | some value =>
      rw [hs] at h
      dsimp only at h ⊢
      split at h
      · next hlen =>
        rw [if_pos hlen]
        exact (Option.some.inj h).symm
      · cases h
  · next hne => exact (Option.some.inj h).symm.trans (hcap.resolve_left hne)

theorem pushNumber_lawful (hm : LawfulMedium m view) (hheap : ∀ n, n ≤ usable n) (queue : Queue)
    (w : W) : match pushCapacity (view w) queue with
    | none => ∃ w', pushNumber m usable queue w = .ok ((false, 0), w') ∧ view w' = view w
    | some n => ∃ w', pushNumber m usable queue w = .ok ((true, n), w') ∧
        storedCapacity (view w') queue.name = storedCapacity (view w) queue.name ∧
        ∀ key, key ≠ capacityKey queue.name → view w' key = view w key := by
  have hkey : getKeyOfCapacity usable queue.name = .ok (capacityKey queue.name) :=
    stringAppend3rd_two hheap ..
  have hrun := KvProgram.run_lawful hm (reloadCapacity (capacityKey queue.name) queue) w
  rw [reloadCapacity_exec] at hrun
  unfold pushNumber
  rw [hkey]
  cases hn : pushCapacity (view w) queue with
  | none =>
    rw [hn] at hrun
    exact hrun
  | some n =>
    rw [hn] at hrun
    dsimp only at hrun ⊢
    split at hrun
    · next hmissing =>
      -- a missing record is created
      obtain ⟨w', hrun, hview⟩ := hrun
      refine ⟨w', hrun, ?_, fun key hne => ?_⟩
      · have hzero : storedCapacity (view w') queue.name = 0 := by
          rw [hview]
          exact storedCapacity_of_some (update_self ..) (by decide)
        rw [hzero]
        unfold storedCapacity
        rw [hmissing.2]
      · rw [hview]
        exact update_of_ne hne ..
    · obtain ⟨w', hrun, hview⟩ := hrun
      refine ⟨w', hrun, ?_, fun key _ => ?_⟩
      · rw [hview]
        rfl
      · rw [hview]
        rfl

theorem pushPut_lawful (hm : LawfulMedium m view) (hheap : ∀ n, n ≤ usable n) (queue : Queue)
    (msg : Msg) (index : Nat) (w : W) :
    ∃ w', pushPut m usable queue msg index w = .ok (true, w') ∧
      view w' = pushStore (view w) queue.name index msg := by
  have hkey : getKeyOfCapacity usable queue.name = .ok (capacityKey queue.name) :=
    stringAppend3rd_two hheap ..
  obtain ⟨w', hput, hview⟩ := hm.put
    [(le64 index, msgRecord msg index), (capacityKey queue.name, le64 index)] w
  refine ⟨w', ?_, hview⟩
  unfold pushPut
  rw [hkey]
  exact congrArg Except.ok hput

omit [DecidableEq ι] in
/-- The invariant where the store has changed in the capacity record at most,
and the stored capacity is the same. -/
theorem PushInv.renumber {s t : Store} (h : PushInv s st) {st' : Pushing ι W}
    (hname : st'.queue.name = st.queue.name) (hblock : st'.queue.blocking = true)
    (hlog : st'.log = st.log) (hphases : PhaseInv t st')
    (hstored : storedCapacity t st.queue.name = storedCapacity s st.queue.name)
    (hkeys : ∀ key, key ≠ capacityKey st.queue.name → t key = s key) : PushInv t st' := by
  refine ⟨hblock, hphases, ?_, by rw [hlog]; exact h.distinct, ?_⟩
  · rw [hlog, hname, hstored]
    exact h.indices_le
  · intro e he
    rw [hlog] at he
    rw [hkeys _ fun hkey => messageKey_notMem_ownKeys st.queue.name ∅ e.2 (.inl hkey)]
    exact h.kept e he

/-- **Numbering.** A push that begins alone counts from the stored capacity. -/
theorem PushInv.number (hm : LawfulMedium m view) (hheap : ∀ n, n ≤ usable n)
    {st' : Pushing ι W} (h : PushInv (view st.medium) st) (halone : Alone view st (.number p msg))
    (hstep : pushStep m usable st (.number p msg) = .ok st') :
    PushInv (view st'.medium) st' ∧ st'.queue.name = st.queue.name ∧
      storedCapacity (view st'.medium) st.queue.name =
        storedCapacity (view st.medium) st.queue.name := by
  unfold pushStep at hstep
  dsimp only at hstep
  cases hphase : st.phase p with
  | numbered msg' index =>
    rw [hphase] at hstep
    cases hstep
    exact ⟨h, rfl, rfl⟩
  | stored =>
    rw [hphase] at hstep
    cases hstep
    exact ⟨h, rfl, rfl⟩
  | idle =>
    rw [hphase] at hstep
    -- nobody is pushing
    have hidle : ∀ o, st.phase o = .idle := by
      intro o
      by_cases ho : o = p
      · rw [ho, hphase]
      · exact halone.1 o ho
    have hcap : st.queue.msgCapacity = 0 ∨
        st.queue.msgCapacity = storedCapacity (view st.medium) st.queue.name := by
      cases h.phases with
      | idle _ hcap => exact hcap
      | numbered o msg' _ ho => exact absurd (hidle o) (by rw [ho]; exact nofun)
      | stored o _ ho => exact absurd (hidle o) (by rw [ho]; exact nofun)
    have hload := pushNumber_lawful hm hheap st.queue st.medium
    cases hn : pushCapacity (view st.medium) st.queue with
    | none =>
      rw [hn] at hload
      obtain ⟨w', hload, hview⟩ := hload
      rw [hload] at hstep
      cases hstep
      refine ⟨?_, rfl, by rw [hview]⟩
      rw [hview]
      exact h.renumber rfl h.blocking rfl (.idle hidle hcap) rfl fun _ _ => rfl
    | some n =>
      rw [hn] at hload
      obtain ⟨w', hload, hstored, hkeys⟩ := hload
      rw [hload] at hstep
      cases hstep
      have hcount := pushCapacity_coherent hcap hn
      have hlt := halone.2 n hn
      refine ⟨h.renumber rfl h.blocking rfl ?_ hstored hkeys, rfl, hstored⟩
      refine .numbered p msg (fun o ho => ?_) ?_ ?_ ?_
      · exact (update_of_ne ho ..).trans (hidle o)
      · dsimp only
        rw [update_self, hstored, ← hcount, Nat.mod_eq_of_lt hlt]
      · rw [hstored, hcount]
      · rw [hstored, ← hcount]
        exact hlt

/-- **Storing.** The number is new, so the message overwrites nothing. -/
theorem PushInv.store (hm : LawfulMedium m view) (hheap : ∀ n, n ≤ usable n)
    {st' : Pushing ι W} (h : PushInv (view st.medium) st)
    (hstep : pushStep m usable st (.store p) = .ok st') :
    PushInv (view st'.medium) st' ∧ st'.queue.name = st.queue.name ∧
      storedCapacity (view st.medium) st.queue.name ≤
        storedCapacity (view st'.medium) st.queue.name := by
  unfold pushStep at hstep
  dsimp only at hstep
  cases hphase : st.phase p with
  | idle =>
    rw [hphase] at hstep
    cases hstep
    exact ⟨h, rfl, le_rfl⟩
  | stored =>
    rw [hphase] at hstep
    cases hstep
    exact ⟨h, rfl, le_rfl⟩
  | numbered msg index =>
    rw [hphase] at hstep
    dsimp only at hstep
    obtain ⟨w', hput, hview⟩ := pushPut_lawful hm hheap st.queue msg index st.medium
    rw [hput] at hstep
    cases hstep
    dsimp only
    cases h.phases with
    | idle hidle _ => exact absurd (hidle p) (by rw [hphase]; exact nofun)
    | stored o hothers ho _ =>
      by_cases hpo : p = o
      · rw [hpo, ho] at hphase
        cases hphase
      · exact absurd (hothers p hpo) (by rw [hphase]; exact nofun)
    | numbered o msg' hothers ho hcap hlt =>
      obtain rfl : p = o := by
        by_contra hpo
        exact absurd (hothers p hpo) (by rw [hphase]; exact nofun)
      rw [hphase] at ho
      cases ho
      have hstored : storedCapacity (view w') st.queue.name =
          storedCapacity (view st.medium) st.queue.name + 1 := by
        rw [hview]
        exact storedCapacity_of_some (update_self ..) hlt
      refine ⟨⟨h.blocking, ?_, ?_, ?_, ?_⟩, rfl, by omega⟩
      · refine .stored p (fun o ho => ?_) (update_self ..) ?_
        · exact (update_of_ne ho ..).trans (hothers o ho)
        · dsimp only
          omega
      · intro e he
        rw [hstored]
        rcases mem_append.mp he with he | he
        · exact (h.indices_le e he).trans (Nat.le_succ _)
        · rw [mem_singleton.mp he]
      · rw [map_append, nodup_append]
        refine ⟨h.distinct, nodup_singleton _, ?_⟩
        rintro i hi j hj rfl
        obtain ⟨e, he, rfl⟩ := mem_map.mp hi
        have hle := h.indices_le e he
        have hj' : e.2 = storedCapacity (view st.medium) st.queue.name + 1 := by simpa using hj
        omega
      · intro e he
        have hcapKey : le64 e.2 ≠ capacityKey st.queue.name :=
          fun hkey => messageKey_notMem_ownKeys st.queue.name ∅ e.2 (.inl hkey)
        rw [hview, pushStore, update_of_ne hcapKey]
        rcases mem_append.mp he with he | he
        · -- an earlier number is smaller
          have hle := h.indices_le e he
          have hne : le64 e.2 ≠ le64 (storedCapacity (view st.medium) st.queue.name + 1) := by
            intro hkey
            have hval := congrArg leVal hkey
            rw [leVal_le64 (by omega), leVal_le64 hlt] at hval
            omega
          rw [update_of_ne hne]
          exact h.kept e he
        · rw [mem_singleton.mp he, update_self]
          rfl

theorem PushInv.advance {s : Store} {st' : Pushing ι W} (h : PushInv s st)
    (hstep : pushStep m usable st (.advance p) = .ok st') :
    PushInv s st' ∧ st'.medium = st.medium ∧ st'.queue.name = st.queue.name := by
  unfold pushStep at hstep
  dsimp only at hstep
  cases hphase : st.phase p with
  | idle =>
    rw [hphase] at hstep
    cases hstep
    exact ⟨h, rfl, rfl⟩
  | numbered msg index =>
    rw [hphase] at hstep
    cases hstep
    exact ⟨h, rfl, rfl⟩
  | stored =>
    rw [hphase, if_pos h.blocking] at hstep
    cases hstep
    cases h.phases with
    | idle hidle _ => exact absurd (hidle p) (by rw [hphase]; exact nofun)
    | numbered o msg' hothers ho _ _ =>
      by_cases hpo : p = o
      · rw [hpo, ho] at hphase
        cases hphase
      · exact absurd (hothers p hpo) (by rw [hphase]; exact nofun)
    | stored o hothers ho hcap =>
      obtain rfl : p = o := by
        by_contra hpo
        exact absurd (hothers p hpo) (by rw [hphase]; exact nofun)
      have hlt := storedCapacity_lt s st.queue.name
      refine ⟨⟨h.blocking, .idle (fun o => ?_) (.inr ?_), h.indices_le, h.distinct, h.kept⟩, rfl,
        rfl⟩
      · by_cases hop : o = p
        · rw [hop]
          exact update_self ..
        · exact (update_of_ne hop ..).trans (hothers o hop)
      · rw [Nat.mod_eq_of_lt (by omega), hcap]

theorem PushInv.step (hm : LawfulMedium m view) (hheap : ∀ n, n ≤ usable n) {st' : Pushing ι W}
    {act : PushAct ι} (h : PushInv (view st.medium) st) (halone : Alone view st act)
    (hstep : pushStep m usable st act = .ok st') :
    PushInv (view st'.medium) st' ∧ st'.queue.name = st.queue.name ∧
      storedCapacity (view st.medium) st.queue.name ≤
        storedCapacity (view st'.medium) st.queue.name := by
  cases act with
  | number p msg =>
    obtain ⟨hinv, hname, hstored⟩ := h.number hm hheap halone hstep
    exact ⟨hinv, hname, hstored.ge⟩
  | store p => exact h.store hm hheap hstep
  | advance p =>
    obtain ⟨hinv, hmedium, hname⟩ := h.advance hstep
    rw [hmedium]
    exact ⟨hinv, hname, le_rfl⟩

/-- **One push at a time.** In every state of a run in which each push begins
alone, the pushes are kept, and from each state to a later one the stored
capacity does not decrease. -/
theorem pushes_kept_of_alone (hm : LawfulMedium m view) (hheap : ∀ n, n ≤ usable n)
    (hstart : PushStart view st) {l₁ l₂ : List (PushAct ι)} {st₁ st₂ : Pushing ι W}
    (h : Along (pushStep m usable) (Alone view) st (l₁ ++ l₂))
    (h₁ : run (pushStep m usable) st l₁ = .ok st₁)
    (h₂ : run (pushStep m usable) st₁ l₂ = .ok st₂) :
    PushesKept view st₂ ∧ storedCapacity (view st₁.medium) st.queue.name ≤
      storedCapacity (view st₂.medium) st.queue.name := by
  have hinit : PushInv (view st.medium) st := by
    refine ⟨hstart.blocking, .idle hstart.idle hstart.coherent, ?_, ?_, ?_⟩
    · rw [hstart.log_nil]
      exact nofun
    · rw [hstart.log_nil]
      exact nodup_nil
    · rw [hstart.log_nil]
      exact nofun
  have hinv₁ := Lib.run_inv_along
    (I := fun st' => PushInv (view st'.medium) st' ∧ st'.queue.name = st.queue.name)
    (fun s a s' hs ha hstep => by
      obtain ⟨hinv, hname, -⟩ := hs.1.step hm hheap ha hstep
      exact ⟨hinv, hname.trans hs.2⟩) ⟨hinit, rfl⟩ h.take h₁
  have hinv₂ := Lib.run_inv_along
    (I := fun st' => PushInv (view st'.medium) st' ∧ st'.queue.name = st.queue.name ∧
      storedCapacity (view st₁.medium) st.queue.name ≤
        storedCapacity (view st'.medium) st.queue.name)
    (fun s a s' hs ha hstep => by
      obtain ⟨hinv, hname, hle⟩ := hs.1.step hm hheap ha hstep
      rw [hs.2.1] at hname hle
      exact ⟨hinv, hname, hs.2.2.trans hle⟩) ⟨hinv₁.1, hinv₁.2, le_rfl⟩ (h.drop h₁) h₂
  exact ⟨⟨hinv₂.1.distinct, hinv₂.1.kept⟩, hinv₂.2.2⟩

end Steps

--
-- Two producers
--

/-- A blocking queue without messages on an empty medium. -/
def emptyPushing : Pushing Bool (List (Bytes × Bytes)) where
  queue := { freshQueue (ascii "q") with flag := 1 }
  medium := []
  phase _ := .idle
  log := []

theorem push_takes_turns : ∃ st, run (pushStep Lib.pairsMedium glibcUsable)
    { emptyPushing with queue := { freshQueue [113] with activeProducers := [⟨[112]⟩] } }
    [.number true (sampleMsg 1), .store true, .advance true] = .ok st :=
  have h : (queuePushTail glibcUsable { freshQueue [113] with activeProducers := [⟨[112]⟩] }
    [112] (sampleMsg 1)).run Lib.pairsMedium [] = _ := rfl
  ⟨_, push_alone rfl h⟩

/-- One producer after the other. -/
def takingTurns : List (PushAct Bool) :=
  [.number false (sampleMsg 1), .store false, .advance false,
    .number true (sampleMsg 2), .store true, .advance true]

instance (st : Pushing Bool (List (Bytes × Bytes))) :
    (act : PushAct Bool) → Decidable (Alone Lib.pairsView st act)
  | .number p _ => decidable_of_iff
      ((∀ o, o ≠ p → (st.phase o matches .idle) = true) ∧
        ∀ n ∈ pushCapacity (Lib.pairsView st.medium) st.queue, n + 1 < u64Size)
      (and_congr_left' (forall₂_congr fun o _ => by cases st.phase o <;> simp))
  | .store _ => isTrue trivial
  | .advance _ => isTrue trivial

theorem pushes_kept_takingTurns :
    Along (pushStep Lib.pairsMedium glibcUsable) (Alone Lib.pairsView) emptyPushing takingTurns ∧
    ∃ st, run (pushStep Lib.pairsMedium glibcUsable) emptyPushing takingTurns = .ok st ∧
      st.log.length = 2 ∧ PushesKept Lib.pairsView st := by
  have h : Along (pushStep Lib.pairsMedium glibcUsable) (Alone Lib.pairsView) emptyPushing
      takingTurns := by decide +kernel
  have hlen : ((run (pushStep Lib.pairsMedium glibcUsable) emptyPushing takingTurns).map
      fun st => st.log.length).toOption = some 2 := by decide +kernel
  refine ⟨h, ?_⟩
  cases hrun : run (pushStep Lib.pairsMedium glibcUsable) emptyPushing takingTurns with
  | error e =>
    rw [hrun] at hlen
    cases hlen
  | ok st =>
    rw [hrun] at hlen
    have hstart : PushStart Lib.pairsView emptyPushing :=
      ⟨fun _ => rfl, rfl, by decide, .inl rfl⟩
    refine ⟨st, rfl, Option.some.inj hlen, ?_⟩
    have h₁ : Along (pushStep Lib.pairsMedium glibcUsable) (Alone Lib.pairsView) emptyPushing
        ([] ++ takingTurns) := h
    exact (pushes_kept_of_alone Lib.pairsMedium_lawful le_glibcUsable hstart h₁ rfl hrun).1

/-- Both producers read the capacity before one of them has advanced it. -/
def racing : List (PushAct Bool) :=
  [.number false (sampleMsg 1), .number true (sampleMsg 2), .store false, .store true,
    .advance false, .advance true]

/-- The two pushes get the same number, and the first message is gone. -/
theorem racing_overwrites :
    ∃ st, run (pushStep Lib.pairsMedium glibcUsable) emptyPushing racing = .ok st ∧
      st.log.map (·.2) = [1, 1] ∧ ¬ PushesKept Lib.pairsView st := by
  have hindices : ((run (pushStep Lib.pairsMedium glibcUsable) emptyPushing racing).map
      fun st => st.log.map (·.2)).toOption = some [1, 1] := by decide +kernel
  cases hrun : run (pushStep Lib.pairsMedium glibcUsable) emptyPushing racing with
  | error e =>
    rw [hrun] at hindices
    cases hindices
  | ok st =>
    rw [hrun] at hindices
    have heq : st.log.map (·.2) = [1, 1] := Option.some.inj hindices
    refine ⟨st, rfl, heq, fun h => ?_⟩
    have hdistinct := h.distinct
    rw [heq] at hdistinct
    exact absurd hdistinct (by decide)

end Supex.Mixmq
