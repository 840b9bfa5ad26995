import Supex.Pole.System

/-!
# pole-M — batches stay below the write counter

`do_incr_rep_task` takes the difference of the shared write counter and the
client's position as an unsigned number, and queues that many events. This is
right as long as the position has not passed the counter. Two things can carry
it past: a client that asks for a start beyond the counter, and an answer to a
record that was pulled before its push counted it.

Main result: `batches_within_counter`.
-/

namespace Supex.Pole

open Supex.Lib Supex.Xmq List Nat

--
-- The queue only grows
--

theorem Queue.hist_pushRecord (q : Queue) (data : Bytes) : (q.pushRecord data).hist = q.hist := by
  unfold Queue.pushRecord
  split <;> rfl

theorem Queue.hist_pushCount (q : Queue) : q.hist <+: q.pushCount.hist := by
  unfold Queue.pushCount
  split
  · exact prefix_append ..
  · exact prefix_refl _

theorem Queue.hist_pushTail (q : Queue) (data : Bytes) : q.hist <+: (q.pushTail data).hist := by
  unfold Queue.pushTail
  split
  · exact prefix_refl _
  · rw [← q.hist_pushRecord data]
    exact Queue.hist_pushCount _

variable {q : Queue} {i : ClientInfo} {r : Served} {evt : Evt} {a : Action}

theorem TaskStep.sameMessages (h : TaskStep q i r) : Queue.SameMessages q r.queue := by
  cases h with
  | idle => exact .refl q
  | restart evt rest q' hstate hqevts hevt hq =>
    rw [hq]
    split
    · exact .refl q
    · exact Queue.sameMessages_updateThat ..
  | answer => exact Queue.sameMessages_updateThat ..
  | stop => exact .refl q
  | check => exact .refl q
  | dumpReq => exact .refl q
  | incrReq => exact .refl q
  | dumpRep q' waits sent hstate hqevts hloop => exact (dumpRepLoop_frame hloop).1
  | leave q' hstate hq =>
    rcases hq with rfl | rfl
    · exact .refl _
    · exact ⟨rfl, rfl, rfl⟩

theorem Dispensed.sameMessages {s s' : Sys} (h : Dispensed s evt s') :
    Queue.SameMessages s.queue s'.queue := by
  cases h with
  | register => exact Queue.sameMessages_registerConsumer ..
  | _ => exact .refl _

theorem Step.hist_prefix {s s' : Sys} (h : Step s a s') : s.queue.hist <+: s'.queue.hist := by
  cases h with
  | push data => exact Queue.hist_pushTail ..
  | pushRecord data =>
    rw [Queue.hist_pushRecord]
  | pushCount => exact Queue.hist_pushCount _
  | dispense c evt rest s' hup hdisp =>
    rw [hdisp.sameMessages.1]
    exact prefix_refl _
  | work c i r hinfo htask =>
    show s.queue.hist <+: r.queue.hist
    rw [htask.sameMessages.1]
  | _ => exact prefix_refl _

--
-- Numbers in flight
--

/-- An answer to an increment. -/
def Evt.isAnswer (e : Evt) : Prop := e.evType = .incrementReq ∧ e.evState = .succ

/-- `D` holds of every increment on its way to a client or handed over there, and
`R` of the number of every answer on its way back. -/
structure Messages (D : Queue → Nat → Bytes → Prop) (R : Queue → Nat → Prop) (s : Sys) :
    Prop where
  down : ∀ c, ∀ e ∈ s.down c, e.evType = .incrementRep → D s.queue e.taskSeq e.evData
  handed : ∀ c, ∀ m ∈ (s.procs c).handed, D s.queue m.1 m.2
  up : ∀ c, ∀ e ∈ s.up c, e.isAnswer → R s.queue e.taskSeq
  qevts : ∀ c i, s.infos c = some i → ∀ e ∈ i.qevts, e.isAnswer → R s.queue e.taskSeq

/-- `D` and `R` outlive pushes, and an answer to a `D` increment is an `R`
answer. -/
structure Travels (D : Queue → Nat → Bytes → Prop) (R : Queue → Nat → Prop) : Prop where
  down : ∀ {q q' : Queue} {t : Nat} {d : Bytes}, q.hist <+: q'.hist → D q t d → D q' t d
  up : ∀ {q q' : Queue} {t : Nat}, q.hist <+: q'.hist → R q t → R q' t
  answer : ∀ {q : Queue} {t : Nat} {d : Bytes}, D q t d → R q ((t + 1) % u64Size)

section Messages

variable {D : Queue → Nat → Bytes → Prop} {R : Queue → Nat → Prop} {s s' : Sys}

theorem Messages.of_new (ht : Travels D R) (hm : Messages D R s)
    (hgrow : s.queue.hist <+: s'.queue.hist)
    (hdown : ∀ c, ∀ e ∈ s'.down c, e.evType = .incrementRep →
      e ∈ s.down c ∨ D s.queue e.taskSeq e.evData)
    (hhanded : ∀ c, ∀ m ∈ (s'.procs c).handed, m ∈ (s.procs c).handed ∨ D s.queue m.1 m.2)
    (hup : ∀ c, ∀ e ∈ s'.up c, e.isAnswer → e ∈ s.up c ∨ R s.queue e.taskSeq)
    (hqevts : ∀ c i, s'.infos c = some i → ∀ e ∈ i.qevts, e.isAnswer →
      (∃ j, s.infos c = some j ∧ e ∈ j.qevts) ∨ R s.queue e.taskSeq) :
    Messages D R s' where
  down c e he htype := by
    rcases hdown c e he htype with hold | hnew
    · exact ht.down hgrow (hm.down c e hold htype)
    · exact ht.down hgrow hnew
  handed c m hmem := by
    rcases hhanded c m hmem with hold | hnew
    · exact ht.down hgrow (hm.handed c m hold)
    · exact ht.down hgrow hnew
  up c e he hans := by
    rcases hup c e he hans with hold | hnew
    · exact ht.up hgrow (hm.up c e hold hans)
    · exact ht.up hgrow hnew
  qevts c i hi e he hans := by
    rcases hqevts c i hi e he hans with ⟨j, hj, hold⟩ | hnew
    · exact ht.up hgrow (hm.qevts c j hj e hold hans)
    · exact ht.up hgrow hnew

theorem TaskStep.qevts_subset {i' : ClientInfo} (h : TaskStep q i r) (hi' : r.info = some i') :
    ∀ e ∈ i'.qevts, e ∈ i.qevts := by
  cases h with
  | idle =>
    cases hi'
    exact fun e he => he
  | restart evt rest q' hstate hqevts =>
    cases hi'
    exact fun e he => nomatch he
  | answer evt rest hstate hqevts =>
    cases hi'
    intro e he
    have hsame : (syncFrom (q.updateThat i.id evt.taskSeq)
        { i with qevts := rest, waits := sizeDec i.waits } evt).qevts = rest := by
      unfold syncFrom
      split <;> rfl
    rw [hqevts]
    exact .tail _ (hsame ▸ he)
  | stop evt rest st hstate hqevts =>
    cases hi'
    intro e he
    rw [hqevts]
    exact .tail _ he
  | check evt rest hstate hqevts =>
    cases hi'
    intro e he
    rw [hqevts, mem_singleton.mp he]
    exact .head _
  | dumpReq =>
    cases hi'
    exact fun e he => he
  | incrReq =>
    cases hi'
    exact fun e he => he
  | dumpRep =>
    cases hi'
    exact fun e he => he
  | leave => cases hi'

theorem TaskStep.sent_pulled (h : TaskStep q i r) :
    ∀ e ∈ r.sent, e.evType = .incrementRep → q.pullThat e.taskSeq = some e.evData := by
  cases h with
  | dumpReq evt rest hstate hqevts hqdump htype =>
    intro e he hrep
    rw [mem_singleton.mp he, htype] at hrep
    cases hrep
  | incrReq sent hstate hqevts hqdump hloop =>
    exact fun e he _ => incrReqLoop_pulled hloop e he
  | dumpRep q' waits sent hstate hqevts hloop =>
    intro e he hrep
    rcases (dumpRepLoop_frame hloop).2.2 e he with hnil | hdump | hdump
    · cases hnil
    · rw [hrep] at hdump
      cases hdump
    · rw [hrep] at hdump
      cases hdump
  | _ => exact fun e he => nomatch he

theorem LoopStep.reply_isAnswer {p p' : Proc} {reply : List Evt} (h : LoopStep p evt p' reply) :
    ∀ e ∈ reply, e.isAnswer →
      evt.evType = .incrementRep ∧ e.taskSeq = (evt.taskSeq + 1) % u64Size := by
  cases h with
  | skip => exact fun e he => nomatch he
  | incr st reply htype hseq hst hreply =>
    intro e he _
    rw [mem_singleton.mp he, hreply]
    exact ⟨htype, rfl⟩
  | dump st dumpedAt reply htype hdump hreply =>
    intro e he hans
    rw [mem_singleton.mp he, hreply] at hans
    exact nomatch hans.1

theorem LoopStep.handed_mem {p p' : Proc} {reply : List Evt} (h : LoopStep p evt p' reply) :
    ∀ m ∈ p'.handed, m ∈ p.handed ∨ evt.evType = .incrementRep ∧ m = (evt.taskSeq, evt.evData) := by
  cases h with
  | skip => exact fun m hm => .inl hm
  | incr st reply htype =>
    intro m hm
    rcases mem_append.mp hm with hm | hm
    · exact .inl hm
    · exact .inr ⟨htype, mem_singleton.mp hm⟩
  | dump => exact fun m hm => .inl hm

theorem Messages.setDown (hm : Messages D R s) {c : Bytes} {l : List Evt} (hl : l ⊆ s.down c) :
    Messages D R (s.setDown c l) where
  down x e he htype := by
    rw [Sys.setDown_down] at he
    split at he
    · exact hm.down c e (hl he) htype
    · exact hm.down x e he htype
  handed := hm.handed
  up := hm.up
  qevts := hm.qevts

theorem Messages.setProc (hm : Messages D R s) {c : Bytes} {p : Proc}
    (hp : ∀ m ∈ p.handed, D s.queue m.1 m.2) : Messages D R (s.setProc c p) where
  down := hm.down
  handed x m hmem := by
    rw [Sys.setProc_procs] at hmem
    split at hmem
    · exact hp m hmem
    · exact hm.handed x m hmem
  up := hm.up
  qevts := hm.qevts

theorem Messages.setUp (hm : Messages D R s) {c : Bytes} {l : List Evt}
    (hl : ∀ e ∈ l, e.isAnswer → R s.queue e.taskSeq) :
    Messages D R (s.setUp c (s.up c ++ l)) where
  down := hm.down
  handed := hm.handed
  up x e he hans := by
    rw [Sys.setUp_up] at he
    split at he
    · rcases mem_append.mp he with he | he
      · exact hm.up c e he hans
      · exact hl e he hans
    · exact hm.up x e he hans
  qevts := hm.qevts

theorem Dispensed.queued (h : Dispensed s evt s') :
    s'.up = s.up ∧ s'.procs = s.procs ∧
      (∀ x, ∀ e ∈ s'.down x, e ∈ s.down x ∨ e.evType = .dumpRep) ∧
      ∀ x i, s'.infos x = some i → ∀ e ∈ i.qevts,
        (∃ j, s.infos x = some j ∧ e ∈ j.qevts) ∨ e = evt := by
  -- a client whose state the dispenser replaces
  have hset : ∀ {c j'}, (∀ e ∈ j'.qevts, (∃ j, s.infos c = some j ∧ e ∈ j.qevts) ∨ e = evt) →
      ∀ x i, (s.setInfo c (some j')).infos x = some i → ∀ e ∈ i.qevts,
        (∃ j, s.infos x = some j ∧ e ∈ j.qevts) ∨ e = evt := by
    intro c j' hj' x i hi e he
    rw [Sys.setInfo_infos] at hi
    split at hi
    · next hx =>
      cases hi
      rw [hx]
      exact hj' e he
    · exact .inl ⟨i, hi, he⟩
  cases h with
  | rejected => exact ⟨rfl, rfl, fun _ _ he => .inl he, fun _ i hi _ he => .inl ⟨i, hi, he⟩⟩
  | noTarget =>
    refine ⟨rfl, rfl, fun x e he => ?_, fun _ i hi _ he => .inl ⟨i, hi, he⟩⟩
    rcases mem_append.mp he with he | he
    · exact .inl he
    · rw [mem_singleton.mp (mem_of_mem_filter he)]
      exact .inr rfl
  | dumpReq j htype hacc hinfo =>
    exact ⟨rfl, rfl, fun _ _ he => .inl he, hset fun _ he => .inl ⟨j, hinfo, he⟩⟩
  | dumpRep j htype hinfo =>
    exact ⟨rfl, rfl, fun _ _ he => .inl he, hset fun _ he => .inl ⟨j, hinfo, he⟩⟩
  | request j htype hinfo =>
    refine ⟨rfl, rfl, fun _ _ he => .inl he, hset fun e he => ?_⟩
    rcases mem_append.mp he with he | he
    · exact .inl ⟨j, hinfo, he⟩
    · exact .inr (mem_singleton.mp he)
  | register htype hinfo =>
    refine ⟨rfl, rfl, fun _ _ he => .inl he, hset fun e he => ?_⟩
    unfold enqueue newInfo at he
    split at he
    · cases he
    · exact .inr (mem_singleton.mp he)

/-- **Messages.** Every action keeps a property of the numbers in flight, if it
holds of whatever the queue gives out. -/
theorem Messages.step (ht : Travels D R)
    (hpull : ∀ t d, s.queue.pullThat t = some d → D s.queue t d) (hm : Messages D R s)
    (h : Step s a s') : Messages D R s' := by
  have hgrow := h.hist_prefix
  -- what a process has after an event of an increment
  have hhandled : ∀ {c evt rest p reply}, s.down c = evt :: rest →
      LoopStep (s.procs c) evt p reply → ∀ m ∈ p.handed, D s.queue m.1 m.2 := by
    intro c evt rest p reply hdown hloop m hmem
    rcases hloop.handed_mem m hmem with hold | ⟨htype, rfl⟩
    · exact hm.handed c m hold
    · exact hm.down c evt (by rw [hdown]; exact .head _) htype
  have htaken : ∀ {c evt rest}, s.down c = evt :: rest → rest ⊆ s.down c := fun hdown => by
    rw [hdown]
    exact subset_cons_self ..
  cases h with
  | skip => exact hm
  | startIncr c seq fetchFrom hmode hfrom =>
    refine Messages.setProc (hm.setUp fun e he hans => ?_) nofun
    rw [mem_singleton.mp he] at hans
    exact nomatch hans.2
  | startDump a b hmode =>
    refine Messages.setProc (hm.setUp fun e he hans => ?_) nofun
    rw [mem_singleton.mp he] at hans
    exact nomatch hans.1
  | dispense c evt rest s' hup hdisp =>
    obtain ⟨hup', hprocs, hdown, hqevts⟩ := hdisp.queued
    have hhead : evt ∈ s.up c := by
      rw [hup]
      exact .head _
    refine hm.of_new ht hgrow (fun x e he htype => ?_) (fun x m hmem => ?_) (fun x e he _ => ?_)
      (fun x i hi e he hans => ?_)
    · refine (hdown x e he).imp_right fun hrep => ?_
      rw [hrep] at htype
      cases htype
    · rw [hprocs] at hmem
      exact .inl hmem
    · rw [hup', Sys.setUp_up] at he
      split at he
      · next hx =>
        rw [hx, hup]
        exact .inl (.tail _ he)
      · exact .inl he
    · rcases hqevts x i hi e he with hold | rfl
      · exact .inl hold
      · exact .inr (hm.up c e hhead hans)
  | work c i r hinfo htask =>
    refine hm.of_new ht hgrow (fun x e he htype => ?_) (fun x m hmem => .inl hmem)
      (fun x e he _ => .inl he) (fun x j hj e he hans => ?_)
    · rcases mem_append.mp he with he | he
      · exact .inl he
      · exact .inr (hpull _ _ (htask.sent_pulled e (mem_of_mem_filter he) htype))
    · rw [Sys.send_infos, Sys.setInfo_infos] at hj
      split at hj
      · next hx => exact .inl ⟨i, hx ▸ hinfo, htask.qevts_subset hj e he⟩
      · exact .inl ⟨j, hj, he⟩
  | recv c out evt rest p reply hmode hdown hloop =>
    refine Messages.setUp ((hm.setDown (htaken hdown)).setProc (hhandled hdown hloop)) ?_
    intro e he hans
    obtain ⟨htype, hseq⟩ := hloop.reply_isAnswer e he hans
    rw [hseq]
    exact ht.answer (hm.down c evt (by rw [hdown]; exact .head _) htype)
  | recvDump a b evt rest hmode hdown =>
    exact (hm.setDown (htaken hdown)).setProc (hm.handed a)
  | crash c point rest hmode hdown =>
    refine Messages.setProc (hm.setDown ?_) (hm.handed c)
    rcases hdown with rfl | rfl
    · exact List.Subset.refl _
    · exact tail_subset _
  | crashHandled c out evt rest p reply hmode hdown hloop =>
    have hhanded := hhandled hdown hloop
    exact (hm.setDown (htaken hdown)).setProc hhanded
  | serverRestart =>
    exact hm.of_new ht hgrow (fun x e he _ => .inl he) (fun x m hmem => .inl hmem)
      (fun x e he _ => .inl he) (fun x i hi => nomatch hi)
  | _ =>
    exact hm.of_new ht hgrow (fun x e he _ => .inl he) (fun x m hmem => .inl hmem)
      (fun x e he _ => .inl he) (fun x i hi e he _ => .inl ⟨i, hi, he⟩)

end Messages

--
-- Batches
--

/-- The request that `do_incr_rep_task` is about to handle. -/
def ClientInfo.request (i : ClientInfo) : Option Evt :=
  if i.state = .incr then i.qevts.head? else none

/-- The request that an action makes `do_incr_rep_task` handle. -/
def requestOf (s : Sys) : Action → Option Evt
  | .work c => (s.infos c).bind ClientInfo.request
  | _ => none

/-- No request carries the position past the write counter: a start is asked for
at most at the counter, and no answer comes for a record that is not counted. -/
def WithinCounter (s : Sys) (a : Action) : Prop :=
  ∀ evt ∈ requestOf s a,
    (evt.isRestart = true → evt.taskSeq ≤ s.queue.lastWriteDbSeq) ∧
    (evt.evType = .incrementReq ∧ evt.evState = .succ →
      evt.taskSeq ≠ s.queue.lastWriteDbSeq + 1)

instance (s : Sys) (a : Action) : Decidable (WithinCounter s a) :=
  inferInstanceAs (Decidable (∀ evt ∈ requestOf s a, _ ∧ _))

/-- A batch below the counter, or the single next number. -/
def BatchOk (lw : Nat) (l : List Evt) : Prop :=
  (∀ e ∈ l, 1 ≤ e.taskSeq ∧ e.taskSeq < lw) ∨ ∃ e, l = [e] ∧ e.taskSeq = lw

theorem BatchOk.mono {lw lw' : Nat} {l : List Evt} (hlw : 1 ≤ lw) (hle : lw ≤ lw')
    (h : BatchOk lw l) : BatchOk lw' l := by
  rcases h with hall | ⟨e, rfl, he⟩
  · exact .inl fun e he => ⟨(hall e he).1, Nat.lt_of_lt_of_le (hall e he).2 hle⟩
  · rcases Nat.lt_or_ge lw lw' with hlt | hge
    · left
      intro e' he'
      rw [mem_singleton.mp he']
      omega
    · exact .inr ⟨e, rfl, by omega⟩

theorem serial_eq {c : Bytes} (hpos : q.fetchPos c ≤ q.lastWriteDbSeq)
    (hroom : q.lastWriteDbSeq ≤ XMQ_U64_MAX) :
    serial q c = max (min MAX_SYNC_STEP (q.lastWriteDbSeq - q.fetchPos c)) 1 := by
  have hmod : (q.lastWriteDbSeq + u64Size - q.fetchPos c) % u64Size =
      q.lastWriteDbSeq - q.fetchPos c := by
    have hlt : q.lastWriteDbSeq - q.fetchPos c < u64Size := by
      unfold XMQ_U64_MAX at hroom
      unfold u64Size at *
      omega
    rw [show q.lastWriteDbSeq + u64Size - q.fetchPos c =
      q.lastWriteDbSeq - q.fetchPos c + u64Size by omega, add_mod_right, mod_eq_of_lt hlt]
  unfold serial
  rw [hmod]

theorem batchFrom_ok {c : Bytes} (evt : Evt) (h1 : 1 ≤ q.fetchPos c)
    (hpos : q.fetchPos c ≤ q.lastWriteDbSeq) (hroom : q.lastWriteDbSeq ≤ XMQ_U64_MAX) :
    BatchOk q.lastWriteDbSeq (batchFrom q c evt) := by
  have hmax : XMQ_U64_MAX < u64Size := by decide
  unfold batchFrom
  rw [serial_eq hpos hroom]
  rcases Nat.lt_or_ge (q.fetchPos c) q.lastWriteDbSeq with hlt | hge
  · left
    intro e he
    obtain ⟨idx, hidx, rfl⟩ := mem_map.mp he
    have hidx : idx < q.lastWriteDbSeq - q.fetchPos c := by
      have := mem_range.mp hidx
      omega
    dsimp only
    rw [mod_eq_of_lt (by omega)]
    omega
  · -- nothing is left to send: the batch is the next number alone
    right
    have hone : max (min MAX_SYNC_STEP (q.lastWriteDbSeq - q.fetchPos c)) 1 = 1 := by omega
    rw [hone]
    refine ⟨_, rfl, ?_⟩
    show (q.fetchPos c + 0) % u64Size = q.lastWriteDbSeq
    rw [mod_eq_of_lt (by omega)]
    omega

/-- The counter stays a `uint64_t`: a full queue refuses the push. -/
def Queue.Room (q : Queue) : Prop :=
  q.lastWriteDbSeq ≤ XMQ_U64_MAX ∧ (q.pushing = true → q.lastWriteDbSeq < XMQ_U64_MAX)

theorem Queue.Room.pushRecord (h : q.Room) (data : Bytes) : (q.pushRecord data).Room := by
  unfold Queue.pushRecord
  split
  · exact h
  · next hroom =>
    refine ⟨h.1, fun _ => ?_⟩
    have hle := h.1
    show q.lastWriteDbSeq < XMQ_U64_MAX
    omega

theorem Queue.Room.pushCount (h : q.Room) : q.pushCount.Room := by
  unfold Queue.pushCount
  split
  · next hpush _ =>
    have hlt := h.2 hpush
    refine ⟨?_, fun hfalse => nomatch hfalse⟩
    unfold Queue.lastWriteDbSeq at hlt ⊢
    rw [length_append, length_singleton]
    omega
  · exact h

theorem Queue.Room.pushTail (h : q.Room) (data : Bytes) : (q.pushTail data).Room := by
  unfold Queue.pushTail
  split
  · exact h
  · exact (h.pushRecord data).pushCount

theorem Queue.Room.of_same {q' : Queue} (h : q.Room) (hsame : Queue.SameMessages q q') :
    q'.Room := by
  unfold Queue.Room
  rw [hsame.lastWriteDbSeq, hsame.2.2]
  exact h

theorem Step.room {s s' : Sys} (hroom : s.queue.Room) (h : Step s a s') : s'.queue.Room := by
  cases h with
  | push data => exact hroom.pushTail data
  | pushRecord data => exact hroom.pushRecord data
  | pushCount => exact hroom.pushCount
  | pushFail => exact ⟨hroom.1, fun hfalse => nomatch hfalse⟩
  | dispense c evt rest s' hup hdisp => exact hroom.of_same hdisp.sameMessages
  | work c i r hinfo htask => exact hroom.of_same htask.sameMessages
  | serverRestart => exact ⟨hroom.1, fun hfalse => nomatch hfalse⟩
  | _ => exact hroom

/-- Positions and batches are below the counter, and no number in flight is far
behind it. -/
structure Batches (s : Sys) : Prop where
  room : s.queue.Room
  pos : ∀ c, 1 ≤ s.queue.fetchPos c ∧ s.queue.fetchPos c ≤ s.queue.lastWriteDbSeq
  batch : ∀ c i, s.infos c = some i →
    (i.state = .incr → i.qincr = []) ∧ BatchOk s.queue.lastWriteDbSeq i.qincr
  msgs : Messages (fun q t _ => t ≤ q.lastWriteDbSeq) (fun q t => t ≤ q.lastWriteDbSeq + 1) s

theorem lastWriteDbSeq_mono {q' : Queue} (h : q.hist <+: q'.hist) :
    q.lastWriteDbSeq ≤ q'.lastWriteDbSeq := succ_le_succ h.length_le

theorem travels_counter :
    Travels (fun q t _ => t ≤ q.lastWriteDbSeq) (fun q t => t ≤ q.lastWriteDbSeq + 1) where
  down hgrow h := Nat.le_trans h (lastWriteDbSeq_mono hgrow)
  up hgrow h := Nat.le_trans h (succ_le_succ (lastWriteDbSeq_mono hgrow))
  answer h := Nat.le_trans (mod_le _ _) (succ_le_succ h)

theorem TaskStep.fetchPos {lw : Nat} (hpos : ∀ c, 1 ≤ q.fetchPos c ∧ q.fetchPos c ≤ lw)
    (hlw : 1 ≤ lw) (hreq : ∀ evt ∈ i.request, (evt.isRestart = true → evt.taskSeq ≤ lw) ∧
      (evt.isAnswer → evt.taskSeq ≤ lw)) (h : TaskStep q i r) :
    ∀ c, 1 ≤ r.queue.fetchPos c ∧ r.queue.fetchPos c ≤ lw := by
  have hhead : ∀ evt rest, i.state = .incr → i.qevts = evt :: rest → evt ∈ i.request := by
    intro evt rest hstate hqevts
    unfold ClientInfo.request
    rw [if_pos hstate, hqevts]
    rfl
  cases h with
  | restart evt rest q' hstate hqevts hevt hq =>
    intro c
    have hle := (hreq evt (hhead evt rest hstate hqevts)).1 hevt
    rw [hq]
    split
    · exact hpos c
    · next hne =>
      rw [Queue.fetchPos_updateThat]
      split
      · omega
      · exact hpos c
  | answer evt rest hstate hqevts htype hsucc hzero hseq =>
    intro c
    have hle := (hreq evt (hhead evt rest hstate hqevts)).2 ⟨htype, hsucc⟩
    rw [Queue.fetchPos_updateThat]
    split
    · omega
    · exact hpos c
  | dumpRep q' waits sent hstate hqevts hloop =>
    exact (dumpRepLoop_frame hloop).2.1 (fun p => 1 ≤ p ∧ p ≤ lw) hpos
  | leave q' hstate hq =>
    intro c
    rcases hq with rfl | rfl
    · exact hpos c
    · rw [Queue.fetchPos_unregisterConsumer]
      split
      · omega
      · exact hpos c
  | _ => exact hpos

theorem TaskStep.batchOk {i' : ClientInfo} (h : TaskStep q i r) (hi' : r.info = some i')
    (hroom : q.lastWriteDbSeq ≤ XMQ_U64_MAX)
    (hpos : ∀ c, 1 ≤ r.queue.fetchPos c ∧ r.queue.fetchPos c ≤ q.lastWriteDbSeq)
    (hi : (i.state = .incr → i.qincr = []) ∧ BatchOk q.lastWriteDbSeq i.qincr) :
    (i'.state = .incr → i'.qincr = []) ∧ BatchOk q.lastWriteDbSeq i'.qincr := by
  have hsame := h.sameMessages.lastWriteDbSeq
  have hnew : ∀ evt, BatchOk q.lastWriteDbSeq (batchFrom r.queue i.id evt) := by
    intro evt
    rw [← hsame]
    rw [← hsame] at hpos hroom
    exact batchFrom_ok evt (hpos i.id).1 (hpos i.id).2 hroom
  have hempty : BatchOk q.lastWriteDbSeq [] := .inl fun e he => nomatch he
  cases h with
  | idle =>
    cases hi'
    exact hi
  | restart evt rest q' hstate hqevts hevt hq =>
    cases hi'
    exact ⟨nofun, hnew evt⟩
  | answer evt rest hstate hqevts htype hsucc hzero hseq =>
    cases hi'
    unfold syncFrom
    split
    · exact ⟨fun _ => hi.1 hstate, hi.2⟩
    · refine ⟨nofun, ?_⟩
      rw [hi.1 hstate, nil_append]
      exact hnew evt
  | stop evt rest st hstate hqevts htype hfail hst =>
    cases hi'
    exact ⟨fun _ => hi.1 hstate, hi.2⟩
  | check =>
    cases hi'
    exact ⟨fun _ => rfl, hempty⟩
  | dumpReq =>
    cases hi'
    exact ⟨nofun, hi.2⟩
  | incrReq =>
    cases hi'
    exact ⟨fun _ => rfl, hempty⟩
  | dumpRep q' waits sent hstate =>
    cases hi'
    refine ⟨fun hincr => ?_, hi.2⟩
    split at hincr <;> cases hincr
  | leave => cases hi'

theorem Dispensed.frame {s s' : Sys} (h : Dispensed s evt s') :
    (∀ c, s'.queue.fetchPos c = s.queue.fetchPos c) ∧
      ∀ c i', s'.infos c = some i' → (∃ i, s.infos c = some i ∧ i'.state = i.state ∧
        i'.qincr = i.qincr) ∨ i'.qincr = [] := by
  refine ⟨?_, fun c i' hi' => ?_⟩
  · cases h with
    | register => exact fun c => Queue.fetchPos_registerConsumer ..
    | _ => exact fun c => rfl
  · cases h with
    | rejected => exact .inl ⟨i', hi', rfl, rfl⟩
    | noTarget => exact .inl ⟨i', hi', rfl, rfl⟩
    | dumpReq i htype hacc hinfo =>
      rw [Sys.setInfo_infos] at hi'
      split at hi'
      · next hc =>
        cases hi'
        exact .inl ⟨i, hc ▸ hinfo, rfl, rfl⟩
      · exact .inl ⟨i', hi', rfl, rfl⟩
    | dumpRep i htype hinfo =>
      rw [Sys.setInfo_infos] at hi'
      split at hi'
      · next hc =>
        cases hi'
        exact .inl ⟨i, hc ▸ hinfo, rfl, rfl⟩
      · exact .inl ⟨i', hi', rfl, rfl⟩
    | request i htype hinfo =>
      rw [Sys.setInfo_infos] at hi'
      split at hi'
      · next hc =>
        cases hi'
        exact .inl ⟨i, hc ▸ hinfo, rfl, rfl⟩
      · exact .inl ⟨i', hi', rfl, rfl⟩
    | register htype hinfo =>
      rw [Sys.setInfo_infos] at hi'
      split at hi'
      · cases hi'
        right
        unfold enqueue
        split <;> rfl
      · exact .inl ⟨i', hi', rfl, rfl⟩

theorem Batches.step {s s' : Sys} (hb : Batches s) (hcond : WithinCounter s a) (h : Step s a s') :
    Batches s' := by
  have hlw : s.queue.lastWriteDbSeq ≤ s'.queue.lastWriteDbSeq := lastWriteDbSeq_mono h.hist_prefix
  have hone : 1 ≤ s.queue.lastWriteDbSeq := succ_le_succ (Nat.zero_le _)
  have hroom' := h.room hb.room
  have hmsgs : Messages (fun q t _ => t ≤ q.lastWriteDbSeq) (fun q t => t ≤ q.lastWriteDbSeq + 1)
      s' := by
    refine hb.msgs.step travels_counter (fun t d hpull => ?_) h
    rcases (Queue.pullThat_some hpull).2 with ⟨heq, -⟩ | ⟨-, hlt, -⟩ <;> omega
  -- the client states and positions of an action that is not the server's
  have hkeep : (∀ c, s'.queue.fetchPos c = s.queue.fetchPos c) →
      (∀ c i, s'.infos c = some i → s.infos c = some i) → Batches s' := by
    intro hpos hinfos
    refine ⟨hroom', fun c => ?_, fun c i hi => ?_, hmsgs⟩
    · rw [hpos c]
      exact ⟨(hb.pos c).1, Nat.le_trans (hb.pos c).2 hlw⟩
    · have hold := hb.batch c i (hinfos c i hi)
      exact ⟨hold.1, hold.2.mono hone hlw⟩
  cases h with
  | dispense c evt rest s' hup hdisp =>
    obtain ⟨hpos, hinfos⟩ := hdisp.frame
    refine ⟨hroom', fun x => ?_, fun x i' hi' => ?_, hmsgs⟩
    · rw [hpos x]
      exact ⟨(hb.pos x).1, Nat.le_trans (hb.pos x).2 hlw⟩
    · rcases hinfos x i' hi' with ⟨i, hi, hstate, hqincr⟩ | hqincr
      · have hold := hb.batch x i hi
        rw [hstate, hqincr]
        exact ⟨hold.1, hold.2.mono hone hlw⟩
      · rw [hqincr]
        exact ⟨fun _ => rfl, .inl fun e he => nomatch he⟩
  | work c i r hinfo htask =>
    have hreq : ∀ evt ∈ i.request, (evt.isRestart = true → evt.taskSeq ≤ s.queue.lastWriteDbSeq) ∧
        (evt.isAnswer → evt.taskSeq ≤ s.queue.lastWriteDbSeq) := by
      intro evt hevt
      have hmem : evt ∈ requestOf s (.work c) := by
        show evt ∈ (s.infos c).bind ClientInfo.request
        rw [hinfo]
        exact hevt
      refine ⟨(hcond evt hmem).1, fun hans => ?_⟩
      -- an answer is at most one behind the counter, and not behind it
      have hq : evt ∈ i.qevts := by
        unfold ClientInfo.request at hevt
        split at hevt
        · exact mem_of_mem_head? hevt
        · cases hevt
      have hle := hb.msgs.qevts c i hinfo evt hq hans
      have hne := (hcond evt hmem).2 hans
      omega
    have hpos := htask.fetchPos hb.pos hone hreq
    have heq := htask.sameMessages.lastWriteDbSeq
    refine ⟨hroom', fun x => ?_, fun x i' hi' => ?_, hmsgs⟩
    · show 1 ≤ r.queue.fetchPos x ∧ r.queue.fetchPos x ≤ r.queue.lastWriteDbSeq
      rw [heq]
      exact hpos x
    · rw [Sys.send_infos, Sys.setInfo_infos] at hi'
      show _ ∧ BatchOk r.queue.lastWriteDbSeq _
      rw [heq]
      split at hi'
      · exact htask.batchOk hi' hb.room.1 hpos (hb.batch c i hinfo)
      · exact hb.batch x i' hi'
  | push data => exact hkeep (Queue.fetchPos_pushTail s.queue data) fun c i hi => hi
  | pushRecord data => exact hkeep (Queue.fetchPos_pushRecord s.queue data) fun c i hi => hi
  | pushCount => exact hkeep (Queue.fetchPos_pushCount s.queue) fun c i hi => hi
  | serverRestart => exact hkeep (fun c => rfl) fun c i hi => nomatch hi
  | _ => exact hkeep (fun c => rfl) fun c i hi => hi

theorem Batches.step_ne_haveNotOne {s : Sys} (hb : Batches s) :
    Pole.step s a ≠ .error .haveNotOne := by
  intro h
  rcases step_error h with ⟨c, i, -, hinfo, habort⟩ | ⟨c, out, evt, rest, -, -, hloop⟩
  · cases habort with
    | incrReq _ hstate hqevts hqdump hloop =>
      obtain ⟨evt, hmem, hcase⟩ := incrReqLoop_error hloop
      rcases hcase with ⟨-, hfalse⟩ | ⟨hpull, hlen, -⟩ | ⟨-, hfalse⟩
      · cases hfalse
      · rcases (hb.batch c i hinfo).2 with hall | ⟨e, hone, -⟩
        · obtain ⟨h1, hlt⟩ := hall evt hmem
          obtain ⟨data, hdata⟩ := Queue.pullThat_of_lt h1 hlt hb.room.1
          rw [hdata] at hpull
          cases hpull
        · rw [hone] at hlen
          exact hlen rfl
      · cases hfalse
    | dumpRep _ hstate hqevts hloop => cases dumpRepLoop_error hloop
  · rcases incrLoop_error hloop with ⟨hfalse, -⟩ | ⟨hfalse, -⟩ <;> cases hfalse

theorem Initial.batches {s : Sys} (h : Initial s) : Batches s where
  room := ⟨h.room, fun hpush => by rw [h.pushing] at hpush; cases hpush⟩
  pos := h.positions
  batch c i hi := by
    rw [h.infos c] at hi
    cases hi
  msgs :=
    { down := fun c e he => by
        rw [h.down c] at he
        cases he
      handed := fun c m hm => by
        rw [h.handed c] at hm
        cases hm
      up := fun c e he => by
        rw [h.up c] at he
        cases he
      qevts := fun c i hi => by
        rw [h.infos c] at hi
        cases hi }

/-- **Batches.** In every run in which no request carries a position past the
write counter, whatever clients, producers and the server do otherwise, every
batch holds numbers below the counter or the single next one, and the worker's
`have == 1` never fails. -/
theorem batches_within_counter (s₀ : Sys) (h₀ : Initial s₀) (l : List Action)
    (hl : Along step WithinCounter s₀ l) :
    run step s₀ l ≠ .error .haveNotOne ∧
      ∀ s, run step s₀ l = .ok s → ∀ c i, s.infos c = some i →
        BatchOk s.queue.lastWriteDbSeq i.qincr := by
  have hstep : ∀ s a s', Batches s → WithinCounter s a → step s a = .ok s' → Batches s' :=
    fun s a s' hb hcond h => hb.step hcond (step_ok h)
  refine ⟨run_ne_error_along hstep (fun s a hb _ => hb.step_ne_haveNotOne) h₀.batches hl,
    fun s hrun c i hi => ?_⟩
  exact ((run_inv_along hstep h₀.batches hl hrun).batch c i hi).2

/-- A client starts at the counter, waits for the message, and answers it. -/
def startAtCounter : List Action :=
  [.startIncr nodeA 1, .dispense nodeA.bytes, .work nodeA.bytes, .work nodeA.bytes,
    .pushRecord [7], .pushCount, .work nodeA.bytes, .recv nodeA.bytes .succ,
    .dispense nodeA.bytes, .work nodeA.bytes]

theorem startAtCounter_batches : run step emptySys startAtCounter ≠ .error .haveNotOne :=
  (batches_within_counter emptySys emptySys_initial startAtCounter (by decide)).1

/-- A client that asks for number 5 of an empty queue, and a client that answers
a message whose push has not counted it: both get a batch of ten numbers that
are not there. -/
theorem positionBeyondCounter_aborts :
    run step emptySys [.startIncr nodeA 5, .dispense nodeA.bytes, .work nodeA.bytes,
        .work nodeA.bytes] = .error .haveNotOne ∧
      run step emptySys [.pushRecord [7], .startIncr nodeA 0, .dispense nodeA.bytes,
        .work nodeA.bytes, .work nodeA.bytes, .recv nodeA.bytes .succ, .dispense nodeA.bytes,
        .work nodeA.bytes, .work nodeA.bytes] = .error .haveNotOne :=
  ⟨rfl, rfl⟩

end Supex.Pole
