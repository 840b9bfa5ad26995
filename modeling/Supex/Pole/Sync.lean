import Supex.Pole.Steady

/-!
# pole — incremental synchronisation

Nobody dies, `xmq_push_tail` is one step, clients start at their stored position
and their business functions succeed.

Main result: `increments_in_order`.
-/

namespace Supex.Pole

open Supex.Lib Supex.Xmq List

/-- The actions of a run in which nobody dies and no business fails. -/
def Action.IsSync : Action → Prop
  | .push _ | .startDump _ _ | .dispense _ | .work _ | .recvDump _ => True
  | .startIncr _ seq => seq = 0
  | .recv _ out => out = .succ
  | _ => False

instance : ∀ a : Action, Decidable a.IsSync
  | .push _ | .startDump _ _ | .dispense _ | .work _ | .recvDump _ => isTrue trivial
  | .startIncr _ seq => inferInstanceAs (Decidable (seq = 0))
  | .recv _ out => inferInstanceAs (Decidable (out = .succ))
  | .pushRecord _ | .pushCount | .pushFail | .crash _ _ | .serverRestart => isFalse not_false

--
-- Messages of the queue
--

/-- `data` is the message of number `t`. -/
def IsMessage (q : Queue) (t : Nat) (data : Bytes) : Prop :=
  1 ≤ t ∧ t < q.lastWriteDbSeq ∧ q.hist[t - 1]? = some data

theorem travels_messages : Travels IsMessage fun q t => t ≤ q.lastWriteDbSeq where
  down hgrow h := by
    obtain ⟨h1, hlt, hget⟩ := h
    refine ⟨h1, Nat.lt_of_lt_of_le hlt (lastWriteDbSeq_mono hgrow), ?_⟩
    obtain ⟨t, ht⟩ := hgrow
    rw [← ht, getElem?_append_left (List.getElem?_eq_some_iff.mp hget).1]
    exact hget
  up hgrow h := Nat.le_trans h (lastWriteDbSeq_mono hgrow)
  answer h := Nat.le_trans (Nat.mod_le _ _) h.2.1

theorem IsMessage.pullThat {q : Queue} {t : Nat} {data : Bytes} (h : IsMessage q t data)
    (hroom : q.lastWriteDbSeq ≤ XMQ_U64_MAX) : q.pullThat t = some data := by
  obtain ⟨h1, hlt, hget⟩ := h
  unfold Queue.pullThat
  rw [if_neg (by omega), if_neg (by omega), if_neg (by omega)]
  exact hget

/-- No push is under way. -/
def Queue.Whole (q : Queue) : Prop := q.uncounted = none ∧ q.pushing = false

theorem Queue.Whole.pushTail {q : Queue} (h : q.Whole) (data : Bytes) :
    (q.pushTail data).Whole := by
  obtain ⟨hun, hpush⟩ := h
  unfold Queue.pushTail
  rw [if_neg (by simp [hpush])]
  unfold Queue.pushRecord
  split
  · unfold Queue.pushCount
    rw [hpush]
    exact ⟨hun, hpush⟩
  · exact ⟨rfl, rfl⟩

theorem Queue.Whole.of_same {q q' : Queue} (h : q.Whole) (hsame : Queue.SameMessages q q') :
    q'.Whole := by
  obtain ⟨-, hun, hpush⟩ := hsame
  exact ⟨hun.trans h.1, hpush.trans h.2⟩

--
-- The invariant
--

/-- Every increment in flight is a message of the queue, every process runs on
and started within the queue. -/
structure Sync (s : Sys) : Prop where
  calm : Calm s
  batches : Batches s
  msgs : Messages IsMessage (fun q t => t ≤ q.lastWriteDbSeq) s
  whole : s.queue.Whole
  alive : ∀ c, (s.procs c).mode ≠ .gone
  state : ∀ c, (s.procs c).lastType = .dumpReq → (s.procs c).mode = .incr →
    (s.procs c).state = .succ
  start : ∀ c, (s.procs c).mode = .incr → (s.procs c).fetchFrom ≤ s.queue.lastWriteDbSeq

theorem incrLoop_succ {p p' : Proc} {evt : Evt} {reply : List Evt}
    (h : incrLoop p .succ evt = .ok (p', reply)) (hmode : p.mode = .incr)
    (hstate : p.lastType = .dumpReq → p.state = .succ) :
    p'.mode = .incr ∧ p'.fetchFrom = p.fetchFrom ∧ (p'.lastType = .dumpReq → p'.state = .succ) := by
  unfold incrLoop at h
  split at h
  · next htype =>
    split at h
    · cases h
      exact ⟨hmode, rfl, hstate⟩
    · split at h
      · cases h
      · simp only [doBusiness, htype, leaveOnFailure_eq] at h
        cases h
        exact ⟨by simp [hmode, Outcome.toState], rfl, by simp⟩
  · next htype =>
    simp only [leaveOnFailure_eq] at h
    by_cases hlast : p.lastType = .dumpReq
    · simp only [if_pos hlast] at h
      cases h
      exact ⟨by simp [hmode, hstate hlast], rfl, fun _ => hstate hlast⟩
    · simp only [if_neg hlast, doBusiness, htype] at h
      cases h
      exact ⟨by simp [hmode, Outcome.toState], rfl, fun _ => rfl⟩
  · cases h

theorem step_recv {s s' : Sys} {c : Bytes} {out : Outcome}
    (h : Pole.step s (.recv c out) = .ok s') :
    s' = s ∨ ∃ evt p reply, (s.procs c).mode = .incr ∧
      incrLoop (s.procs c) out evt = .ok (p, reply) ∧ s'.queue = s.queue ∧
      s'.procs = fun x => if x = c then p else s.procs x := by
  simp only [Pole.step] at h
  split at h
  · cases h
  · exact .inl (Except.ok.inj h).symm
  · next s₁ reply hrecv =>
    unfold recvStep at hrecv
    split at hrecv
    · next evt rest hmode hdown =>
      split at hrecv
      · cases hrecv
      · next p reply' hloop =>
        cases hrecv
        cases h
        exact .inr ⟨evt, p, reply, hmode, hloop, rfl, funext fun x => Sys.setProc_procs ..⟩
    · cases hrecv

theorem Sync.withinCounter {s : Sys} (h : Sync s) (a : Action) : WithinCounter s a := by
  intro evt hevt
  cases a with
  | work c =>
    have hevt : evt ∈ (s.infos c).bind ClientInfo.request := hevt
    cases hinfo : s.infos c with
    | none =>
      rw [hinfo] at hevt
      cases hevt
    | some i =>
      rw [hinfo] at hevt
      have hevt : evt ∈ i.request := hevt
      have hmem : evt ∈ i.qevts := by
        unfold ClientInfo.request at hevt
        split at hevt
        · exact mem_of_mem_head? hevt
        · cases hevt
      refine ⟨fun hrestart => ?_, fun hans => ?_⟩
      · -- the request asks for the number the process started from, or for none
        have hsteady := h.calm.served hinfo
        have hcut : hasRestart (held (some i) ++ s.up c) = true := by
          obtain ⟨l, m, hqevts⟩ := append_of_mem hmem
          simp [held, hqevts, hrestart]
        have hfirst := hsteady.first hcut
        obtain ⟨x, hone, hfrom⟩ := hfirst.evts
        have hx : evt = x := by
          have : evt ∈ [x] := by
            rw [← hone]
            exact mem_append_left _ hmem
          exact mem_singleton.mp this
        have hstart := h.start c hfirst.mode
        rw [hfrom, ← hx] at hstart
        split at hstart <;> omega
      · have := h.msgs.qevts c i hinfo evt hmem hans
        omega
  | _ => cases hevt

theorem Sync.step {s s' : Sys} {a : Action} (h : Sync s) (ha : a.IsSync)
    (hstep : Pole.step s a = .ok s') : Sync s' := by
  have hst := step_ok hstep
  have hgrow := hst.hist_prefix
  have hmono := lastWriteDbSeq_mono hgrow
  have hcond : CrashFree s a := by
    cases a with
    | startIncr c seq => exact h.alive c.bytes
    | crash => exact ha.elim
    | serverRestart => exact ha.elim
    | _ => trivial
  have hmsgs : Messages IsMessage (fun q t => t ≤ q.lastWriteDbSeq) s' := by
    refine h.msgs.step travels_messages (fun t d hpull => ?_) hst
    rcases (Queue.pullThat_some hpull).2 with ⟨-, hun⟩ | hmsg
    · rw [h.whole.1] at hun
      cases hun
    · exact hmsg
  have hcalm := h.calm.step hcond hst
  have hbatches := h.batches.step (h.withinCounter a) hst
  -- what most actions leave alone
  have hkeep : s'.queue.Whole → (∀ c, (s'.procs c).mode ≠ .gone ∧
      ((s'.procs c).mode = .incr → s'.procs c = s.procs c)) → Sync s' := by
    intro hwhole hprocs
    refine ⟨hcalm, hbatches, hmsgs, hwhole, fun c => (hprocs c).1, fun c hlast hmode => ?_,
      fun c hmode => ?_⟩
    · have hsame := (hprocs c).2 hmode
      rw [hsame] at hlast hmode ⊢
      exact h.state c hlast hmode
    · have hsame := (hprocs c).2 hmode
      rw [hsame] at hmode ⊢
      exact Nat.le_trans (h.start c hmode) hmono
  cases hst with
  | skip => exact h
  | push data => exact hkeep (h.whole.pushTail data) fun c => ⟨h.alive c, fun _ => rfl⟩
  | pushRecord => exact ha.elim
  | pushCount => exact ha.elim
  | pushFail => exact ha.elim
  | startIncr c seq fetchFrom hmode hfrom =>
    have hzero : seq = 0 := ha
    subst hzero
    refine ⟨hcalm, hbatches, hmsgs, h.whole, fun x => ?_, fun x hlast => ?_, fun x hmode' => ?_⟩
    · rw [Sys.setProc_procs]
      split
      · nofun
      · exact h.alive x
    · rw [Sys.setProc_procs] at hlast ⊢
      by_cases hx : x = c.bytes
      · rw [if_pos hx] at hlast
        cases hlast
      · rw [if_neg hx] at hlast ⊢
        exact h.state x hlast
    · rw [Sys.setProc_procs] at hmode' ⊢
      split at hmode' <;> rename_i hx
      · rw [if_pos hx]
        rw [hfrom]
        exact (h.batches.pos c.bytes).2
      · rw [if_neg hx]
        exact h.start x hmode'
  | startDump a b hmode =>
    refine hkeep h.whole fun c => ?_
    rw [Sys.setProc_procs]
    split
    · exact ⟨nofun, nofun⟩
    · exact ⟨h.alive c, fun _ => rfl⟩
  | dispense c evt rest s' hup hdisp =>
    have hprocs : s'.procs = s.procs := by cases hdisp <;> rfl
    refine hkeep (h.whole.of_same hdisp.sameMessages) fun x => ?_
    rw [hprocs]
    exact ⟨h.alive x, fun _ => rfl⟩
  | work c i r hinfo htask =>
    exact hkeep (h.whole.of_same htask.sameMessages) fun x => ⟨h.alive x, fun _ => rfl⟩
  | recvDump a b evt rest hmode hdown =>
    refine hkeep h.whole fun c => ?_
    rw [Sys.setProc_procs]
    split
    · exact ⟨nofun, nofun⟩
    · exact ⟨h.alive c, fun _ => rfl⟩
  | crash => exact ha.elim
  | crashHandled => exact ha.elim
  | serverRestart => exact ha.elim
  | recv c out =>
    have hout : out = .succ := ha
    subst hout
    rcases step_recv hstep with heq | ⟨evt, p, reply, hincr, hloop, -, hprocs⟩
    · rw [heq]
      exact h
    · obtain ⟨hmode', hfrom, hstate⟩ := incrLoop_succ hloop hincr fun hlast => h.state c hlast hincr
      refine ⟨hcalm, hbatches, hmsgs, h.whole, fun x => ?_, fun x => ?_, fun x => ?_⟩ <;>
        rw [hprocs] <;> dsimp only <;> split
      · simp [hmode']
      · exact h.alive x
      · exact fun hlast _ => hstate hlast
      · exact h.state x
      · intro _
        rw [hfrom]
        exact h.start c hincr
      · exact h.start x

theorem Sync.ok {s : Sys} {a : Action} (h : Sync s) (ha : a.IsSync) :
    ∃ s', Pole.step s a = .ok s' ∧ Sync s' := by
  cases hstep : Pole.step s a with
  | ok s' => exact ⟨s', rfl, h.step ha hstep⟩
  | error e =>
    -- the only assert the flow leaves open is the one about a missing message
    rw [h.calm.flow.error hstep] at hstep
    exact absurd hstep h.batches.step_ne_haveNotOne

theorem Initial.sync {s : Sys} (h : Initial s) : Sync s where
  calm := h.calm
  batches := h.batches
  msgs :=
    { down := fun c e he => by
        rw [h.down c] at he
        cases he
      handed := fun c m hm => by
        rw [h.handed c] at hm
        cases hm
      up := fun c e he => by
        rw [h.up c] at he
        cases he
      qevts := fun c i hi => by
        rw [h.infos c] at hi
        cases hi }
  whole := ⟨h.uncounted, h.pushing⟩
  alive c hc := by
    rw [h.procs c] at hc
    cases hc
  state c _ hc := by
    rw [h.procs c] at hc
    cases hc
  start c hc := by
    rw [h.procs c] at hc
    cases hc

theorem along_of_forall {P : Action → Prop} {l : List Action} (hl : ∀ a ∈ l, P a) (s : Sys) :
    Along Pole.step (fun _ a => P a) s l := by
  induction l generalizing s with
  | nil => trivial
  | cons a l ih =>
    exact ⟨hl a (.head _), fun s' _ => ih (fun a ha => hl a (.tail _ ha))
      s'⟩

--
-- The order
--

/-- **Incremental synchronisation.** No assert fails, and every INCR client has
been handed the numbers from its start position on, in order, each once and with
the message the queue holds. -/
theorem increments_in_order (s₀ : Sys) (h₀ : Initial s₀) (l : List Action)
    (hl : ∀ a ∈ l, a.IsSync) :
    ∃ s, run step s₀ l = .ok s ∧ ∀ c, (s.procs c).mode = .incr →
      (s.procs c).seqs = List.range' (s.procs c).fetchFrom (s.procs c).handed.length ∧
      ∀ m ∈ (s.procs c).handed, s.queue.pullThat m.1 = some m.2 := by
  obtain ⟨s, hrun, hsync⟩ := run_of_along (fun s a (h : Sync s) (ha : a.IsSync) => h.ok ha)
    h₀.sync (along_of_forall hl s₀)
  refine ⟨s, hrun, fun c hmode => ⟨?_, fun m hm => ?_⟩⟩
  · have hsteady := hsync.calm.steady c (.inl hmode)
    exact hsteady.order
  · exact (hsync.msgs.handed c m hm).pullThat hsync.batches.room.1

/-- Two messages for the first client; the second client asks it for a dump while
the second message is on its way. -/
def dumpBetween : List Action :=
  [.push [1], .startIncr nodeA 0, .dispense nodeA.bytes, .work nodeA.bytes, .work nodeA.bytes,
    .push [2], .startDump nodeB nodeA, .dispense nodeB.bytes, .recv nodeA.bytes .succ,
    .dispense nodeA.bytes, .work nodeA.bytes, .work nodeA.bytes, .recv nodeA.bytes .succ,
    .dispense nodeA.bytes, .work nodeA.bytes, .work nodeA.bytes, .recv nodeA.bytes .succ]

theorem dumpBetween_in_order : ∃ s, run step emptySys dumpBetween = .ok s ∧
    ∀ c, (s.procs c).mode = .incr →
      (s.procs c).seqs = List.range' (s.procs c).fetchFrom (s.procs c).handed.length ∧
      ∀ m ∈ (s.procs c).handed, s.queue.pullThat m.1 = some m.2 :=
  increments_in_order emptySys emptySys_initial dumpBetween (by decide)

end Supex.Pole
