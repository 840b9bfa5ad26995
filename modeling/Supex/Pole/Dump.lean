import Supex.Pole.Sync

/-!
# pole — dumps

A DUMP process `a` asks for a dump of `b`. The dispenser turns its request
around and queues it at `b`, the worker of `b` sends it when nothing else is on
its way, the process of `b` executes the dump and replies, the dispenser queues
the reply at `b` as well, and the worker turns it around for `a` and gives `a`
the position of `b`.

Main results: `dumps_delivered`, `dump_requests_lost`.
-/

namespace Supex.Pole

open Supex.Lib List
open Bool (or_eq_false_iff)

--
-- Conditions
--

/-- No process dies, none that has ended is started again, and the server keeps
running. -/
def NobodyDies (s : Sys) : Action → Prop
  | .startIncr c _ => (s.procs c.bytes).mode ≠ .gone
  | .crash _ _ => False
  | .serverRestart => False
  | _ => True

instance (s : Sys) : ∀ a, Decidable (NobodyDies s a)
  | .startIncr c _ => inferInstanceAs (Decidable ((s.procs c.bytes).mode ≠ .gone))
  | .crash _ _ | .serverRestart => isFalse not_false
  | .push _ | .pushRecord _ | .pushCount | .pushFail | .startDump _ _ | .dispense _ | .work _
  | .recv _ _ | .recvDump _ => isTrue trivial

variable {s s' : Sys} {a b c : Bytes} {i : ClientInfo} {r : Served} {e evt : Evt} {rest : List Evt}

theorem NobodyDies.crashFree {a : Action} (h : NobodyDies s a) : CrashFree s a := by
  cases a <;> first | exact h | exact h.elim

/-- No dump request is dropped: the dispenser accepts the name of its target, and
none waits at a client when the worker clears its state or removes it. -/
def RequestsKept (s : Sys) : Action → Prop
  | .startDump _ b => b.bytes.length + 1 < IDENTITY_SIZE
  | .work c => ∀ i ∈ s.infos c,
      (∀ evt ∈ i.request, evt.isRestart = true → i.qdump = []) ∧
      (i.state = .exit ∨ i.state = .ruin → i.qdump = [])
  | _ => True

instance (s : Sys) : ∀ a, Decidable (RequestsKept s a)
  | .startDump _ b => inferInstanceAs (Decidable (b.bytes.length + 1 < IDENTITY_SIZE))
  | .work c => inferInstanceAs (Decidable (∀ i ∈ s.infos c, _ ∧ _))
  | .push _ | .pushRecord _ | .pushCount | .pushFail | .startIncr _ _ | .dispense _
  | .recv _ _ | .recvDump _ | .crash _ _ | .serverRestart => isTrue trivial

--
-- What is promised
--

/-- The request of `a` for a dump of `b`, as the server sends it to `b`. -/
def RequestOf (a b : Bytes) (e : Evt) : Prop := IsDumpReq e ∧ e.id = b ∧ e.peer = a

/-- The reply of `b` to the request of `a`, as `b` sends it to the server. -/
def ReplyOf (a b : Bytes) (e : Evt) : Prop := e.evType = .dumpRep ∧ e.id = b ∧ e.peer = a

/-- The answer that the server sends to `a`. -/
def AnswerOf (a b : Bytes) (e : Evt) : Prop := e.evType = .dumpRep ∧ e.id = a ∧ e.peer = b

/-- The process `a` asks for a dump of `b`. -/
def Asks (s : Sys) (a b : Bytes) : Prop := (s.procs a).mode = .dumping b

/-- Every request is in one place and belongs to who asks: as it was sent, at its
target, or answered. -/
structure Traced (s : Sys) : Prop where
  once : ∀ a b, Asks s a b → (s.up a).length + tokens s b a + (s.down a).length = 1
  asked : ∀ a b, Asks s a b → ∀ e ∈ s.up a, e = dumpRequest a b
  queued : ∀ b i, s.infos b = some i → ∀ e ∈ i.qdump,
    ∃ a, Asks s a b ∧ (RequestOf a b e ∨ ReplyOf a b e)
  sent : ∀ b, ∀ e ∈ s.down b, e.evType = .dumpReq → ∃ a, Asks s a b ∧ RequestOf a b e
  returned : ∀ b, ∀ e ∈ s.up b, e.evType = .dumpRep → ∃ a, Asks s a b ∧ ReplyOf a b e
  answered : ∀ a, ∀ e ∈ s.down a, e.evType = .dumpRep → ∃ b, Asks s a b ∧ AnswerOf a b e

/-- No increment to `b` is unanswered: none is in its channel, and no answer to
one is on its way or waits at the server. -/
def NoIncrement (s : Sys) (b : Bytes) : Prop :=
  ∀ e ∈ held (s.infos b) ++ s.up b ++ s.down b,
    e.evType ≠ .incrementReq ∧ e.evType ≠ .incrementRep

/-- When it executed the dump, the process had handed over exactly the numbers
from its start to below `p`. -/
def DumpedBelow (pr : Proc) (p : Nat) : Prop :=
  pr.fetchFrom ≤ p ∧ pr.dumpedAt = List.range' pr.fetchFrom (p - pr.fetchFrom)

/-- What a turn of the worker of `b` may send to `x`. -/
structure Passed (s s' : Sys) (b x : Bytes) (e : Evt) : Prop where
  request : e.evType = .dumpReq → x = b ∧ NoIncrement s b
  answer : e.evType = .dumpRep → Asks s x b ∧ AnswerOf x b e
  position : e.evType = .dumpRep → e.evState = .succ →
    e.taskSeq = s'.queue.fetchPos x ∧ DumpedBelow (s.procs b) (s'.queue.fetchPos x)

/-- The process of `b` runs, and the server has handled its start request. -/
def Running (s : Sys) (b : Bytes) : Prop :=
  (s.procs b).mode = .incr ∧ hasRestart (held (s.infos b) ++ s.up b) = false

/-- What a state promises about dump requests. -/
structure DumpProtocol (s : Sys) : Prop where
  traced : Traced s
  /-- the dispenser queues a request at its target, or answers at once -/
  dispensed : ∀ a b s', Asks s a b → s.up a ≠ [] → step s (.dispense a) = .ok s' →
    (∀ i, s.infos b = some i → ∃ e, RequestOf a b e ∧
      s'.infos b = some { i with qdump := i.qdump ++ [e] }) ∧
    (s.infos b = none → ∃ e, s'.down a = [e] ∧ AnswerOf a b e ∧ e.evState = .fail)
  /-- the target replies to a request with the request's own body -/
  executed : ∀ b out s' e rest, (s.procs b).mode = .incr → s.down b = e :: rest →
    e.evType = .dumpReq → step s (.recv b out) = .ok s' →
    (s'.procs b).dumpedAt = (s.procs b).seqs ∧ s'.down b = rest ∧
      ∃ r, s'.up b = s.up b ++ [r] ∧ ReplyOf e.peer b r
  /-- the worker sends a request when no increment is unanswered, and passes a
  reply on to who asked -/
  worked : ∀ b s', step s (.work b) = .ok s' →
    ∀ x, ∃ l, s'.down x = s.down x ++ l ∧ ∀ e ∈ l, Passed s s' b x e
  /-- every request can be answered -/
  answerable : ∀ a b, Asks s a b → Running s b → ∃ l s', Along step NobodyDies s l ∧
    Along step RequestsKept s l ∧ run step s l = .ok s' ∧ Asks s' a b ∧
    ∃ e, s'.down a = [e] ∧ AnswerOf a b e

--
-- The invariant
--

/-- A link, as far as dumps are concerned: a target has a name the dispenser
accepts; a process that goes on after a dump has succeeded with it; `qdump` holds
dump events; in state DUMP nothing but dump requests is on its way to the client;
and in state INCR something is unanswered. -/
structure DumpLink (info : Option ClientInfo) (up down : List Evt) (pr : Proc) : Prop where
  target : ∀ b, pr.mode = .dumping b → b ≠ [] ∧ b.length + 1 < IDENTITY_SIZE
  alive : pr.mode = .incr → pr.lastType = .dumpReq → pr.state = .succ
  events : ∀ i, info = some i → ∀ e ∈ i.qdump, DumpEvt e
  quiet : ∀ i, info = some i → i.state = .dump → ∀ e ∈ down, e.evType = .dumpReq
  busy : ∀ i, info = some i → i.state = .incr → hasRestart (i.qevts ++ up) = false → i.waits ≠ 0

/-- A request that is not answered is somewhere. -/
def Kept (s : Sys) (a b : Bytes) : Prop := s.up a ≠ [] ∨ tokens s b a ≠ 0 ∨ s.down a ≠ []

/-- **The invariant.** -/
structure Dumps (s : Sys) : Prop where
  calm : Calm s
  link : ∀ c, DumpLink (s.infos c) (s.up c) (s.down c) (s.procs c)
  kept : ∀ a b, Asks s a b → Kept s a b

--
-- A turn of the worker
--

theorem Flow.sent_other (h : Flow s) {x : Bytes} (hinfo : s.infos c = some i)
    (htask : TaskStep s.queue i r) (hx : x ≠ c) (hactive : (s.procs x).mode.Active) :
    r.sent.filter (fun e => decide (e.id = x)) = [] := by
  have hlink := h.link c
  rw [hinfo] at hlink
  have hserving := hlink.serving
  cases htask with
  | dumpReq evt rest hstate hqevts hqdump =>
    have hid : evt.id = c := hserving.qdump evt (by simp [hqdump])
    simp [hid, hx.symm]
  | incrReq sent hstate hqevts hqdump hloop =>
    obtain ⟨-, hbatch, -⟩ := hserving.waitFlow hstate hqevts
    exact filter_other (sent_increments hbatch (h.pos c).2 hloop).2.2 hx
  | dumpRep q' waits sent hstate hqevts hloop =>
    exact (h.dumpRepLoop_other hinfo hstate hqevts hloop hx hactive).1
  | _ => rfl

theorem DumpLink.syncFrom {up down : List Evt} {pr : Proc} {q : Queue}
    (h : DumpLink (some i) up down pr) (j : ClientInfo) (hqdump : j.qdump = i.qdump) :
    DumpLink (some (syncFrom q j evt)) up down pr := by
  refine ⟨h.target, h.alive, fun k hk => ?_, fun k hk hstate => ?_, fun k hk hstate _ => ?_⟩ <;>
    cases hk
  · rw [syncFrom_qdump, hqdump]
    exact h.events i rfl
  · unfold Pole.syncFrom at hstate
    split at hstate <;> cases hstate
  · unfold Pole.syncFrom at hstate ⊢
    split
    · next hwaits => exact Nat.ne_of_gt hwaits
    · next hwaits =>
      rw [if_neg hwaits] at hstate
      cases hstate

theorem Dumps.link_worked (h : Dumps s) (hinfo : s.infos c = some i)
    (htask : TaskStep s.queue i r) :
    DumpLink r.info (s.up c) (s.down c ++ r.sent.filter fun e => decide (e.id = c))
      (s.procs c) := by
  have hserving := (h.calm.flow.served hinfo).serving
  have hsteady := h.calm.served hinfo
  have hold := h.link c
  rw [hinfo] at hold
  cases htask with
  | idle => simpa using hold
  | restart evt rest q' hstate hqevts hevt hq =>
    exact ⟨hold.target, hold.alive, by rintro k ⟨⟩ e ⟨⟩, by rintro k ⟨⟩ ⟨⟩, by rintro k ⟨⟩ ⟨⟩⟩
  | answer evt rest =>
    simpa using hold.syncFrom { i with qevts := rest, waits := sizeDec i.waits } rfl
  | stop evt rest st hstate hqevts htype hfail hst =>
    refine ⟨hold.target, hold.alive, ?_, ?_, ?_⟩ <;> rintro k ⟨⟩
    · exact hold.events i rfl
    · rcases hst with rfl | rfl <;> rintro ⟨⟩
    · rcases hst with rfl | rfl <;> rintro ⟨⟩
  | check evt rest hstate hqevts hevt =>
    refine ⟨hold.target, hold.alive, by rintro k ⟨⟩ e ⟨⟩, by rintro k ⟨⟩ ⟨⟩, ?_⟩
    rintro k ⟨⟩ - hcut
    simp [hevt] at hcut
  | dumpReq evt rest hstate hqevts hqdump htype hnone =>
    obtain ⟨hwaits, -⟩ := hserving.waitFlow hstate hqevts
    obtain ⟨-, hdown, -⟩ := hsteady.settled hstate hwaits hqevts
    refine ⟨hold.target, hold.alive, ?_, ?_, ?_⟩ <;> rintro k ⟨⟩
    · exact fun e he => hold.events i rfl e (by rw [hqdump]; exact .tail _ he)
    · rintro - e he
      rw [hdown, nil_append] at he
      rw [mem_singleton.mp (mem_filter.mp he).1]
      exact htype
    · rintro ⟨⟩
  | incrReq sent hstate hqevts hqdump hloop =>
    obtain ⟨-, hbatch, -⟩ := hserving.waitFlow hstate hqevts
    have hne := (sent_increments hbatch (h.calm.flow.pos c).2 hloop).1
    refine ⟨hold.target, hold.alive, ?_, by rintro k ⟨⟩ ⟨⟩, ?_⟩ <;> rintro k ⟨⟩
    · exact hold.events i rfl
    · rintro - -
      have hlen := length_pos_iff.mpr hne
      show i.waits + sent.length ≠ 0
      omega
  | dumpRep q' waits sent hstate hqevts hloop =>
    obtain ⟨-, hdump, -⟩ := hserving.dumpFlow hstate hqevts
    obtain ⟨_, hloop₁, -⟩ := h.calm.flow.dumpRepLoop hinfo hstate hqevts
    rw [hloop₁] at hloop
    cases hloop
    rw [dumpOut_self hserving.qdump hdump fun e he => (h.calm.flow.peer_ne hinfo he).2]
    refine ⟨hold.target, hold.alive, by rintro k ⟨⟩ e ⟨⟩, ?_, ?_⟩ <;> rintro k ⟨⟩
    · rintro - e he
      rcases mem_append.mp he with he | he
      · exact hold.quiet i rfl hstate e he
      · simpa using (mem_filter.mp he).2
    · intro hincr
      split at hincr <;> cases hincr
  | leave q' hstate hq => exact ⟨hold.target, hold.alive, nofun, nofun, nofun⟩

/-- **A turn of the worker.** A request of its client is there as before, or
answered. -/
theorem Calm.kept_worked (h : Calm s) (hinfo : s.infos c = some i) (htask : TaskStep s.queue i r)
    (hcond : RequestsKept s (.work c)) (b a : Bytes) :
    tokens s b a ≤ tokens (({ s with queue := r.queue }.setInfo c r.info).send r.sent) b a ∨
      ((({ s with queue := r.queue }.setInfo c r.info).send r.sent).down a ≠ []) := by
  have hserving := (h.flow.served hinfo).serving
  obtain ⟨hrestart, hleave⟩ := hcond i hinfo
  by_cases hb : b = c
  · subst hb
    -- without replies the requests stay where they are or go out
    have hmoved : askedIn a i.qdump ≤
        infoTokens a r.info + reqsFor a (r.sent.filter fun e => decide (e.id = b)) →
        tokens s b a ≤ tokens (({ s with queue := r.queue }.setInfo b r.info).send r.sent) b a := by
      intro hle
      simp only [tokens, Sys.send_infos, Sys.setInfo_infos, if_true, Sys.send_down, Sys.send_up,
        Sys.setInfo_down, Sys.setInfo_up, reqsFor_append, hinfo, infoTokens] at hle ⊢
      omega
    cases htask with
    | idle => exact .inl (hmoved (Nat.le_refl _))
    | restart evt rest q' hstate hqevts hevt hq =>
      have hnil := hrestart evt (by simp [ClientInfo.request, hstate, hqevts]) hevt
      refine .inl (hmoved ?_)
      rw [hnil]
      exact Nat.zero_le _
    | answer evt rest =>
      refine .inl (hmoved ?_)
      simp [infoTokens, syncFrom_qdump]
    | stop evt rest st => exact .inl (hmoved (Nat.le_refl _))
    | check evt rest hstate hqevts hevt =>
      rw [h.not_check hinfo hstate hqevts] at hevt
      cases hevt
    | dumpReq evt rest hstate hqevts hqdump htype hnone =>
      have hid : evt.id = b := hserving.qdump evt (by simp [hqdump])
      refine .inl (hmoved ?_)
      rw [hqdump, askedIn_cons, filter_self (by simp [hid]), reqsFor_cons_req _ htype]
      simp only [infoTokens, reqsFor_nil]
      omega
    | incrReq sent => exact .inl (hmoved (Nat.le_add_right _ _))
    | dumpRep q' waits sent hstate hqevts hloop =>
      obtain ⟨-, hdump, -⟩ := hserving.dumpFlow hstate hqevts
      obtain ⟨_, hloop₁, -⟩ := h.flow.dumpRepLoop hinfo hstate hqevts
      rw [hloop₁] at hloop
      cases hloop
      have htok := h.flow.tokens_answered (q := q') (j := { i with
        qdump := [],
        waits := i.waits + reqs i.qdump - reps i.qdump,
        state := if i.waits + reqs i.qdump - reps i.qdump = 0 then .wait else .dump })
        hinfo hdump rfl (s.queue.fetchPos b) a
      rcases h.flow.answers (x := a) hinfo hdump with ⟨-, hzero⟩ | ⟨⟨e, he, hone, -, hpeer⟩, -⟩
      · rw [hzero] at htok
        exact .inl (Nat.le_of_eq htok.symm)
      · have hne : a ≠ b := by
          rw [← hpeer]
          exact (h.flow.peer_ne hinfo he).2
        refine .inr ?_
        rw [Sys.send_down, dumpOut_other hserving.qdump hdump hne, hone]
        simp
    | leave q' hstate hq =>
      refine .inl (hmoved ?_)
      rw [hleave hstate]
      exact Nat.zero_le _
  · left
    simp only [tokens, Sys.send_infos, Sys.setInfo_infos, if_neg hb, Sys.send_down, Sys.send_up,
      Sys.setInfo_down, Sys.setInfo_up, reqsFor_append]
    omega

--
-- Steps
--

theorem Asks.not_active (h : Asks s a b) : ¬(s.procs a).mode.Active :=
  fun hactive => hactive.not_dumping b h

/-- Nothing is known at the server of a client that asks for a dump, and its
target has a name the dispenser accepts. -/
theorem Dumps.asks (h : Dumps s) (hasks : Asks s a b) :
    Asking a b (s.infos a) (s.up a) (s.down a) ∧ b ≠ [] ∧ b.length + 1 < IDENTITY_SIZE :=
  ⟨((h.calm.flow.link a).asking hasks).1, (h.link a).target b hasks⟩

theorem Dumps.accepted (h : Dumps s) (hasks : Asks s a b) :
    dumpRejected (dumpRequest a b) = false := by
  obtain ⟨hasking, hne, hshort⟩ := h.asks hasks
  have hpeer : (dumpRequest a b).peer = b := cstr_append_nul hasking.target
  have hsize : (dumpRequest a b).evSize = b.length + 1 := length_append ..
  have hpos : b.length ≠ 0 := fun hzero => hne (eq_nil_of_length_eq_zero hzero)
  unfold dumpRejected
  rw [hpeer, hsize]
  simp only [or_eq_false_iff, decide_eq_false_iff_not]
  omega

theorem Dumps.update (c : Bytes) (h : Dumps s) (hcalm : Calm s')
    (hother : ∀ x, x ≠ c → s'.infos x = s.infos x ∧ s'.up x = s.up x ∧ s'.down x = s.down x ∧
      s'.procs x = s.procs x) (hlink : DumpLink (s'.infos c) (s'.up c) (s'.down c) (s'.procs c))
    (htok : ∀ a, tokens s c a ≤ tokens s' c a) (hself : ∀ b, Asks s' c b → Kept s' c b) :
    Dumps s' := by
  refine ⟨hcalm, fun x => ?_, fun a b hasks => ?_⟩
  · by_cases hx : x = c
    · subst hx
      exact hlink
    · obtain ⟨hinfo, hup, hdown, hproc⟩ := hother x hx
      rw [hinfo, hup, hdown, hproc]
      exact h.link x
  · by_cases ha : a = c
    · subst ha
      exact hself b hasks
    · obtain ⟨-, hup, hdown, hproc⟩ := hother a ha
      unfold Asks at hasks
      rw [hproc] at hasks
      have hle : tokens s b a ≤ tokens s' b a := by
        by_cases hb : b = c
        · subst hb
          exact htok a
        · obtain ⟨hinfo_b, hup_b, hdown_b, -⟩ := hother b hb
          unfold tokens
          rw [hinfo_b, hup_b, hdown_b]
      have hkept := h.kept a b hasks
      unfold Kept at hkept ⊢
      rw [hup, hdown]
      exact hkept.imp_right (Or.imp_left fun hne => by omega)

theorem Dumps.queue {q : Queue} (h : Dumps s) (hcalm : Calm { s with queue := q }) :
    Dumps { s with queue := q } := ⟨hcalm, h.link, h.kept⟩

theorem Dumps.startIncr (h : Dumps s) {c : Id} (seq fetchFrom : Nat)
    (hmode : (s.procs c.bytes).mode = .idle)
    (hcalm : Calm ((s.setUp c.bytes (s.up c.bytes ++ [firstRequest c.bytes seq])).setProc c.bytes
      (.start .incr fetchFrom))) :
    Dumps ((s.setUp c.bytes (s.up c.bytes ++ [firstRequest c.bytes seq])).setProc c.bytes
      (.start .incr fetchFrom)) := by
  have hold := h.calm.flow.link c.bytes
  unfold LinkOk at hold
  rw [hmode] at hold
  refine h.update c.bytes hcalm (fun x hx => by simp [hx]) ?_ (fun a => ?_) fun b hasks => ?_
  · simp only [Sys.setProc_infos, Sys.setUp_infos, Sys.setProc_procs, if_true, hold.1]
    exact ⟨nofun, nofun, nofun, nofun, nofun⟩
  · simp [tokens]
  · unfold Asks at hasks
    simp [Proc.start] at hasks

theorem Dumps.startDump (h : Dumps s) {a b : Id} (hmode : (s.procs a.bytes).mode = .idle)
    (hshort : b.bytes.length + 1 < IDENTITY_SIZE)
    (hcalm : Calm ((s.setUp a.bytes (s.up a.bytes ++ [dumpRequest a.bytes b.bytes])).setProc a.bytes
      (.start (.dumping b.bytes) 0))) :
    Dumps ((s.setUp a.bytes (s.up a.bytes ++ [dumpRequest a.bytes b.bytes])).setProc a.bytes
      (.start (.dumping b.bytes) 0)) := by
  have hold := h.calm.flow.link a.bytes
  unfold LinkOk at hold
  rw [hmode] at hold
  refine h.update a.bytes hcalm (fun x hx => by simp [hx]) ?_ (fun x => ?_) fun b hasks => ?_
  · simp only [Sys.setProc_infos, Sys.setUp_infos, Sys.setProc_procs, if_true, hold.1]
    refine ⟨fun x hx => ?_, nofun, nofun, nofun, nofun⟩
    cases hx
    exact ⟨ne_nil_of_length_pos b.pos, hshort⟩
  · simp [tokens]
  · exact .inl (by simp)

theorem Dumps.recvDump (h : Dumps s) (hmode : (s.procs a).mode = .dumping b)
    (hdown : s.down a = evt :: rest)
    (hcalm : Calm ((s.setDown a rest).setProc a { s.procs a with mode := .idle })) :
    Dumps ((s.setDown a rest).setProc a { s.procs a with mode := .idle }) := by
  obtain ⟨hasking, -⟩ := h.asks hmode
  have htype : evt.evType = .dumpRep := by
    rcases hasking.downOk with hnil | ⟨e, hone, hrep, -⟩
    · rw [hdown] at hnil
      cases hnil
    · rw [hdown] at hone
      rw [(List.cons.inj hone).1]
      exact hrep
  refine h.update a hcalm (fun x hx => by simp [hx]) ?_ (fun x => ?_) fun b hasks => ?_
  · simp only [Sys.setProc_infos, Sys.setDown_infos, Sys.setProc_procs, if_true, hasking.infoOk]
    exact ⟨nofun, nofun, nofun, nofun, nofun⟩
  · simp [tokens, hdown, reqsFor_cons_other _ (show evt.evType ≠ .dumpReq by simp [htype])]
  · unfold Asks at hasks
    simp at hasks

theorem Dumps.recv (h : Dumps s) {reply : List Evt} {p : Proc} (hmode : (s.procs c).mode = .incr)
    (hdown : s.down c = evt :: rest) (hloop : LoopStep (s.procs c) evt p reply)
    (hcalm : Calm (((s.setDown c rest).setProc c p).setUp c (s.up c ++ reply))) :
    Dumps (((s.setDown c rest).setProc c p).setUp c (s.up c ++ reply)) := by
  have hclient := ((h.calm.flow.link c).active (.inl hmode)).1
  rw [hdown] at hclient
  have hold := h.link c
  have hp : p.mode = .incr ∨ p.mode = .gone := by
    cases hloop with
    | skip => exact .inl hmode
    | incr | dump =>
      split
      · exact .inl hmode
      · exact .inr rfl
  refine h.update c hcalm (fun x hx => by simp [hx]) ?_ (fun a => ?_) fun b hasks => ?_
  · simp only [Sys.setUp_infos, Sys.setProc_infos, Sys.setDown_infos, Sys.setUp_up, Sys.setUp_down,
      Sys.setProc_down, Sys.setDown_down, Sys.setUp_procs, Sys.setProc_procs, if_true]
    refine ⟨fun x hx => ?_, fun hincr hlast => ?_, hold.events, fun i hi hstate e he => ?_,
      fun i hi hstate hcut => ?_⟩
    · rcases hp with hp | hp <;> rw [hp] at hx <;> cases hx
    · cases hloop with
      | skip => exact hold.alive hincr hlast
      | incr => cases hlast
      | dump st =>
        by_contra hne
        rw [if_neg hne] at hincr
        cases hincr
    · exact hold.quiet i hi hstate e (by rw [hdown]; exact .tail _ he)
    · rw [← append_assoc, hasRestart_append, or_eq_false_iff] at hcut
      exact hold.busy i hi hstate hcut.1
  · obtain ⟨rfl, rfl, htype, -⟩ | ⟨r, rfl, -, -, htaken⟩ := hclient.turn hmode hloop
    · simp [tokens, hdown, reqsFor_cons_other _ (show evt.evType ≠ .dumpReq by simp [htype])]
    · have htok := htaken.tokens a rest
      simp only [tokens, Sys.setUp_infos, Sys.setProc_infos, Sys.setDown_infos, Sys.setUp_down,
        Sys.setProc_down, Sys.setDown_down, Sys.setUp_up, if_true, hdown, repsFor_append]
      omega
  · unfold Asks at hasks
    simp only [Sys.setUp_procs, Sys.setProc_procs, if_true] at hasks
    rcases hp with hp | hp <;> rw [hp] at hasks <;> cases hasks

theorem DumpLink.queued {up m down : List Evt} {pr : Proc} (h : DumpLink (some i) up down pr)
    (he : DumpEvt e) (hcut : hasRestart (i.qevts ++ m) = hasRestart (i.qevts ++ up)) :
    DumpLink (some { i with qdump := i.qdump ++ [e] }) m down pr := by
  refine ⟨h.target, h.alive, ?_, ?_, ?_⟩ <;> rintro k ⟨⟩
  · exact mem_snoc (h.events i rfl) he
  · exact h.quiet i rfl
  · intro hstate hrestart
    exact h.busy i rfl hstate (hcut.symm.trans hrestart)

theorem Dumps.dispense (h : Dumps s) (hup : s.up c = evt :: rest)
    (hdisp : Dispensed (s.setUp c rest) evt s') (hcalm : Calm s') : Dumps s' := by
  have hflow := h.calm.flow
  have hold := h.link c
  have hnone : s.infos c = none → ∀ up down, DumpLink none up down (s.procs c) :=
    fun _ _ _ => ⟨hold.target, hold.alive, nofun, nofun, nofun⟩
  cases hdisp with
  | rejected htype hrej =>
    obtain ⟨b, hmode, -, rfl, -⟩ := hflow.asking_of_dumpReq hup htype
    rw [h.accepted hmode] at hrej
    cases hrej
  | noTarget htype hacc hinfo =>
    obtain ⟨b, hmode, hasking, rfl, rfl, -⟩ := hflow.asking_of_dumpReq hup htype
    have hid : (failedRep (dumpRequest c b)).id = c := by
      show (dumpRequest c b).swapIdData.swapIdData.id = c
      rw [Evt.swapIdData_id, Evt.swapIdData_peer hasking.noNul]
      rfl
    refine h.update c hcalm (fun x hx => by simp [hx, hid, hx.symm]) ?_ (fun a => ?_) fun _ _ => ?_
    · simpa [hasking.infoOk] using hnone hasking.infoOk _ _
    · have hreq : repsFor a [dumpRequest c b] = 0 := rfl
      simp [tokens, hup, hreq]
    · exact .inr (.inr (by simp [hid]))
  | dumpReq i htype hacc hinfo =>
    obtain ⟨b, hmode, hasking, rfl, rfl, -⟩ := hflow.asking_of_dumpReq hup htype
    have hpeer : (dumpRequest c b).peer = b := cstr_append_nul hasking.target
    have hswap : (dumpRequest c b).swapIdData.peer = c := Evt.swapIdData_peer hasking.noNul
    rw [hpeer] at hinfo hcalm ⊢
    rw [Sys.setUp_infos] at hinfo
    have hbc : b ≠ c := by
      rintro rfl
      rw [hasking.infoOk] at hinfo
      cases hinfo
    refine ⟨hcalm, fun x => ?_, fun a x hasks => ?_⟩
    · by_cases hxb : x = b
      · subst hxb
        have hlink := h.link x
        rw [hinfo] at hlink
        have hevt : DumpEvt (dumpRequest c x).swapIdData := by
          refine .inl ⟨by simp [htype], ?_⟩
          rw [Evt.swapIdData_evState]
          rfl
        simpa [hbc] using hlink.queued hevt rfl
      · by_cases hxc : x = c
        · subst hxc
          simpa [hxb, hasking.infoOk] using hnone hasking.infoOk _ _
        · simpa [hxb, hxc] using h.link x
    · by_cases ha : a = c
      · -- the request of `c` is queued at `b`
        subst ha
        obtain rfl : x = b := by
          have hasks : (s.procs a).mode = .dumping x := hasks
          rw [hmode] at hasks
          exact (Mode.dumping.inj hasks).symm
        refine .inr (.inl ?_)
        simp only [tokens, Sys.setInfo_infos, if_true, infoTokens, askedIn, countP_append,
          countP_singleton, hswap, decide_true]
        omega
      · have hreq : repsFor a [dumpRequest c b] = 0 := rfl
        have hle : tokens s x a ≤ tokens ((s.setUp c []).setInfo b
            (some { i with qdump := i.qdump ++ [(dumpRequest c b).swapIdData] })) x a := by
          by_cases hxb : x = b
          · subst hxb
            simp [tokens, hinfo, infoTokens, hbc]
          · by_cases hxc : x = c
            · subst hxc
              simp [tokens, hxb, hup, hreq]
            · simp [tokens, hxb, hxc]
        have hkept := h.kept a x hasks
        unfold Kept at hkept ⊢
        simp only [Sys.setInfo_up, Sys.setUp_up, if_neg ha, Sys.setInfo_down, Sys.setUp_down]
        exact hkept.imp_right (Or.imp_left fun hne => by omega)
  | dumpRep i htype hinfo =>
    obtain ⟨hactive, -, -, hfrom, -⟩ := hflow.active_of_event hup (by simp [htype])
    rw [hfrom.1] at hinfo hcalm ⊢
    rw [Sys.setUp_infos] at hinfo
    rw [hinfo, hup] at hold
    have her : evt.isRestart = false := not_isRestart (.inl (by simp [htype]))
    refine h.update c hcalm (fun x hx => by simp [hx]) ?_ (fun a => ?_)
      fun b hasks => absurd hactive (Asks.not_active hasks)
    · simpa using hold.queued (m := rest) (.inr htype) (by simp [her])
    · simp only [tokens, Sys.setInfo_infos, Sys.setInfo_down, Sys.setInfo_up, Sys.setUp_down,
        Sys.setUp_up, if_true, hinfo, hup, infoTokens, askedIn_append, repsFor_cons_rep _ htype]
      omega
  | request i htype hinfo =>
    have hne : evt.evType ≠ .dumpReq ∧ evt.evType ≠ .dumpRep := by
      rcases htype with ht | ht <;> simp [ht]
    obtain ⟨hactive, -, -, hfrom, -⟩ := hflow.active_of_event hup hne.1
    rw [hfrom.1] at hinfo hcalm ⊢
    rw [Sys.setUp_infos] at hinfo
    rw [hinfo, hup] at hold
    refine h.update c hcalm (fun x hx => by simp [hx]) ?_ (fun a => ?_)
      fun b hasks => absurd hactive (Asks.not_active hasks)
    · simp only [Sys.setInfo_infos, Sys.setInfo_up, Sys.setUp_up, if_true, Sys.setInfo_down,
        Sys.setUp_down, Sys.setInfo_procs, Sys.setUp_procs]
      refine ⟨hold.target, hold.alive, ?_, ?_, ?_⟩ <;> rintro k ⟨⟩
      · exact hold.events i rfl
      · exact hold.quiet i rfl
      · intro hstate hcut
        refine hold.busy i rfl hstate ?_
        rw [← hcut, append_assoc]
        rfl
    · simp [tokens, hinfo, hup, infoTokens, repsFor_cons_other _ hne.2]
  | register htype hinfo =>
    obtain ⟨hactive, -, hserver, hfrom, -⟩ := hflow.active_of_event hup htype
    rw [hfrom.1] at hinfo hcalm ⊢
    rw [Sys.setUp_infos] at hinfo
    rw [hinfo] at hserver
    have her : evt.isRestart = true := Unserved.isRestart hserver
    have hreq := (isRestart_iff.mp her).1
    rw [enqueue_restart _ her] at hcalm ⊢
    refine h.update c hcalm (fun x hx => by simp [hx]) ?_ (fun a => ?_)
      fun b hasks => absurd hactive (Asks.not_active hasks)
    · simp only [Sys.setInfo_infos, Sys.setInfo_up, Sys.setUp_up, if_true, Sys.setInfo_down,
        Sys.setUp_down, Sys.setInfo_procs, Sys.setUp_procs]
      refine ⟨hold.target, hold.alive, by rintro k ⟨⟩ e ⟨⟩, by rintro k ⟨⟩ ⟨⟩, ?_⟩
      rintro k ⟨⟩ - hcut
      simp [newInfo, her] at hcut
    · simp [tokens, hinfo, hup, infoTokens, repsFor_cons_other _ (show evt.evType ≠ .dumpRep by
        simp [hreq])]

theorem Dumps.work (h : Dumps s) (hinfo : s.infos c = some i) (htask : TaskStep s.queue i r)
    (hcond : RequestsKept s (.work c))
    (hcalm : Calm (({ s with queue := r.queue }.setInfo c r.info).send r.sent)) :
    Dumps (({ s with queue := r.queue }.setInfo c r.info).send r.sent) := by
  refine ⟨hcalm, fun x => ?_, fun a b hasks => ?_⟩
  · by_cases hx : x = c
    · subst hx
      simpa using h.link_worked hinfo htask
    · have hold := h.link x
      rw [Sys.send_infos, Sys.setInfo_infos, if_neg hx, Sys.send_down]
      cases hknown : s.infos x with
      | none => exact ⟨hold.target, hold.alive, nofun, nofun, nofun⟩
      | some j =>
        have hlink := h.calm.flow.link x
        rw [hknown] at hlink hold
        rw [h.calm.flow.sent_other hinfo htask hx hlink.active_of_info, append_nil]
        exact hold
  · rcases h.kept a b hasks with hup | htok | hdown
    · exact .inl hup
    · rcases h.calm.kept_worked hinfo htask hcond b a with hle | hdown
      · exact .inr (.inl (by omega))
      · exact .inr (.inr hdown)
    · refine .inr (.inr ?_)
      rw [Sys.send_down]
      exact append_ne_nil_of_left_ne_nil hdown _

theorem Dumps.step {a : Action} (h : Dumps s) (hlive : NobodyDies s a) (hcond : RequestsKept s a)
    (hstep : Step s a s') : Dumps s' := by
  have hcalm := h.calm.step hlive.crashFree hstep
  cases hstep with
  | skip => exact h
  | push | pushRecord | pushCount | pushFail => exact h.queue hcalm
  | startIncr c seq fetchFrom hmode hfrom =>
    exact h.startIncr _ fetchFrom (hmode.resolve_right hlive) hcalm
  | startDump a b hmode => exact h.startDump hmode hcond hcalm
  | dispense c evt rest s' hup hdisp => exact h.dispense hup hdisp hcalm
  | work c i r hinfo htask => exact h.work hinfo htask hcond hcalm
  | recv c out evt rest p reply hmode hdown hloop => exact h.recv hmode hdown hloop hcalm
  | recvDump a b evt rest hmode hdown => exact h.recvDump hmode hdown hcalm
  | crash | crashHandled | serverRestart => exact hlive.elim

theorem Initial.dumps (h : Initial s) : Dumps s := by
  refine ⟨h.calm, fun c => ?_, fun a b hasks => ?_⟩
  · rw [h.infos c]
    refine ⟨fun b hb => ?_, fun hincr => ?_, nofun, nofun, nofun⟩
    · rw [h.procs c] at hb
      cases hb
    · rw [h.procs c] at hincr
      cases hincr
  · unfold Asks at hasks
    rw [h.procs a] at hasks
    cases hasks

--
-- The promise
--

theorem Flow.asks_of_tokens (h : Flow s) (htok : 0 < tokens s b a) :
    Asks s a b := (h.asked b a (Nat.ne_of_gt htok)).1

/-- What is on the link of a client that asks for a dump of `b`, or on the link of
any other. -/
theorem Flow.link_cases (h : Flow s) (c : Bytes) :
    (∃ b, Asks s c b ∧ Asking c b (s.infos c) (s.up c) (s.down c)) ∨
      (∀ e ∈ s.up c, e.id = c ∧ (e.evType = .incrementReq ∨ e.evType = .dumpRep)) ∧
      (∀ e ∈ s.down c, e.id = c ∧ (IsIncr e ∨ IsDumpReq e)) := by
  have hlink := h.link c
  cases hmode : (s.procs c).mode with
  | idle =>
    unfold LinkOk at hlink
    rw [hmode] at hlink
    rw [hlink.2.1, hlink.2.2.1]
    exact .inr ⟨nofun, nofun⟩
  | dumping b => exact .inl ⟨b, hmode, (hlink.asking hmode).1⟩
  | incr | gone =>
    have hclient := (hlink.active (by rw [hmode]; first | exact .inl rfl | exact .inr rfl)).1
    exact .inr ⟨fun e he => ⟨(hclient.upOk e he).1.1, (hclient.upOk e he).2⟩, hclient.downOk⟩

theorem Dumps.traced (h : Dumps s) : Traced s where
  once a b hasks := by
    obtain ⟨hasking, -⟩ := h.asks hasks
    have hle := h.calm.flow.once b a
    have htok := h.calm.flow.asked b a
    rcases hasking.upOk with hup | hup
    · rcases hasking.downOk with hdown | ⟨e, hdown, -⟩
      · have hkept := h.kept a b hasks
        unfold Kept at hkept
        simp only [hup, hdown, ne_eq, not_true_eq_false, false_or, or_false] at hkept
        rw [hup, hdown, length_nil]
        omega
      · have hzero : tokens s b a = 0 := by
          by_contra hne
          have hnil := (htok hne).2.2
          rw [hdown] at hnil
          cases hnil
        rw [hup, hdown, hzero]
        rfl
    · have hzero : tokens s b a = 0 := by
        by_contra hne
        have hnil := (htok hne).2.1
        rw [hup] at hnil
        cases hnil
      rw [hasking.one.resolve_left (by simp [hup]), hup, hzero]
      rfl
  asked a b hasks e he := by
    rcases (h.asks hasks).1.upOk with hup | hup <;> rw [hup] at he
    · cases he
    · exact mem_singleton.mp he
  queued b i hinfo e he := by
    have hlinkd := h.link b
    rw [hinfo] at hlinkd
    have hid := (h.calm.flow.served hinfo).serving.qdump e he
    have hasks := h.calm.flow.asks_of_tokens (Nat.pos_of_ne_zero (h.calm.flow.peer_ne hinfo he).1)
    refine ⟨e.peer, hasks, ?_⟩
    exact (hlinkd.events i rfl e he).imp (fun hreq => ⟨hreq, hid, rfl⟩) fun hrep => ⟨hrep, hid, rfl⟩
  sent b e he htype := by
    have hpos : 0 < reqsFor e.peer (s.down b) := countP_pos_iff.mpr ⟨e, he, by simp [htype]⟩
    refine ⟨e.peer, h.calm.flow.asks_of_tokens (by unfold tokens; omega), ?_⟩
    rcases h.calm.flow.link_cases b with ⟨x, -, hasking⟩ | ⟨-, hdown⟩
    · rcases hasking.downOk with hnil | ⟨e', hone, hrep, -⟩
      · rw [hnil] at he
        cases he
      · rw [hone] at he
        rw [mem_singleton.mp he, hrep] at htype
        cases htype
    · obtain ⟨hid, hkind⟩ := hdown e he
      have hreq : IsDumpReq e := hkind.resolve_left fun hincr => nomatch htype.symm.trans hincr.1
      exact ⟨hreq, hid, rfl⟩
  returned b e he htype := by
    have hpos : 0 < repsFor e.peer (s.up b) := countP_pos_iff.mpr ⟨e, he, by simp [htype]⟩
    refine ⟨e.peer, h.calm.flow.asks_of_tokens (by unfold tokens; omega), ?_⟩
    rcases h.calm.flow.link_cases b with ⟨x, -, hasking⟩ | ⟨hup, -⟩
    · rcases hasking.upOk with hnil | hone
      · rw [hnil] at he
        cases he
      · rw [hone] at he
        rw [mem_singleton.mp he] at htype
        cases htype
    · exact ⟨htype, (hup e he).1, rfl⟩
  answered a e he htype := by
    rcases h.calm.flow.link_cases a with ⟨b, hasks, hasking⟩ | ⟨-, hdown⟩
    · refine ⟨b, hasks, ?_⟩
      rcases hasking.downOk with hnil | ⟨e', hone, hans⟩
      · rw [hnil] at he
        cases he
      · rw [hone] at he
        rw [mem_singleton.mp he]
        exact hans
    · rcases (hdown e he).2 with hincr | hreq
      · exact nomatch htype.symm.trans hincr.1
      · exact nomatch htype.symm.trans hreq.1

theorem Dumps.dispensed (h : Dumps s) (hasks : Asks s a b) (hup : s.up a ≠ [])
    (hstep : Pole.step s (.dispense a) = .ok s') :
    (∀ i, s.infos b = some i → ∃ e, RequestOf a b e ∧
      s'.infos b = some { i with qdump := i.qdump ++ [e] }) ∧
    (s.infos b = none → ∃ e, s'.down a = [e] ∧ AnswerOf a b e ∧ e.evState = .fail) := by
  obtain ⟨hasking, -⟩ := h.asks hasks
  have hone : s.up a = [dumpRequest a b] := hasking.upOk.resolve_left hup
  have hpeer : (dumpRequest a b).peer = b := cstr_append_nul hasking.target
  have hswap : (dumpRequest a b).swapIdData.peer = a := Evt.swapIdData_peer hasking.noNul
  have hid : (dumpRequest a b).swapIdData.id = b := by rw [Evt.swapIdData_id, hpeer]
  rw [Pole.step, hone] at hstep
  cases hstep
  have hdisp := eventDispenser_ok (s.setUp a []) (dumpRequest a b)
  generalize eventDispenser (s.setUp a []) (dumpRequest a b) = s' at hdisp ⊢
  cases hdisp with
  | rejected htype hrej =>
    rw [h.accepted hasks] at hrej
    cases hrej
  | noTarget htype hacc hinfo =>
    rw [hpeer, Sys.setUp_infos] at hinfo
    refine ⟨fun i hi => (by cases hinfo.symm.trans hi), fun _ => ?_⟩
    have hid' : (failedRep (dumpRequest a b)).id = a := by
      show (dumpRequest a b).swapIdData.swapIdData.id = a
      rw [Evt.swapIdData_id, hswap]
    have hdown : s.down a = [] := hasking.one.resolve_left hup
    refine ⟨failedRep (dumpRequest a b), by simp [hdown, hid'], ⟨rfl, hid', ?_⟩, rfl⟩
    show (dumpRequest a b).swapIdData.swapIdData.peer = b
    rw [Evt.swapIdData_peer (by rw [hid]; exact hasking.target), hid]
  | dumpReq i htype hacc hinfo =>
    rw [hpeer, Sys.setUp_infos] at hinfo
    refine ⟨fun j hj => ?_, fun hnone => by cases hinfo.symm.trans hnone⟩
    obtain rfl : i = j := Option.some.inj (hinfo.symm.trans hj)
    refine ⟨(dumpRequest a b).swapIdData, ⟨⟨by simp [htype], ?_⟩, hid, hswap⟩, by simp [hpeer]⟩
    rw [Evt.swapIdData_evState]
    rfl
  | dumpRep i htype => cases htype
  | request i htype => rcases htype with ht | ht <;> cases ht
  | register htype => exact absurd rfl htype

theorem Dumps.executed (h : Dumps s) {out : Outcome} (hmode : (s.procs b).mode = .incr)
    (hdown : s.down b = e :: rest) (htype : e.evType = .dumpReq)
    (hstep : Pole.step s (.recv b out) = .ok s') :
    (s'.procs b).dumpedAt = (s.procs b).seqs ∧ s'.down b = rest ∧
      ∃ r, s'.up b = s.up b ++ [r] ∧ ReplyOf e.peer b r := by
  have hid : e.id = b := (((h.calm.flow.link b).active (.inl hmode)).1.downOk e
    (by rw [hdown]; exact .head _)).1
  rw [Pole.step] at hstep
  split at hstep
  · cases hstep
  · next hrecv =>
    -- there is an event, so the loop takes it
    unfold recvStep at hrecv
    rw [hmode, hdown] at hrecv
    dsimp only at hrecv
    split at hrecv <;> cases hrecv
  · next hrecv =>
    cases hstep
    obtain ⟨evt, rest', p, -, hdown', hloop, rfl⟩ := recvStep_ok hrecv
    rw [hdown] at hdown'
    cases hdown'
    cases hloop with
    | skip ht | incr _ _ ht => cases htype.symm.trans ht
    | dump st dumpedAt reply ht hdump hreply =>
      refine ⟨?_, by simp, reply, by simp, by rw [hreply], by rw [hreply]; exact hid, by
        rw [hreply]; rfl⟩
      simp only [Sys.setUp_procs, Sys.setProc_procs, if_true]
      rcases hdump with ⟨hlast, -, hsame⟩ | ⟨-, -, hnew⟩
      · exact hsame.trans ((h.calm.steady b (.inl hmode)).dumped hlast)
      · exact hnew

theorem DumpReps.kind {l : List Evt} (h : DumpReps l) (hcut : hasRestart l = false) :
    ∀ e ∈ l, e.evType = .dumpRep := by
  induction l with
  | nil => exact fun e he => nomatch he
  | cons x l ih =>
    rw [hasRestart_cons, or_eq_false_iff] at hcut
    rcases h with hx | ⟨htype, hrest⟩
    · rw [hcut.1] at hx
      cases hx
    · intro e he
      rcases mem_cons.mp he with rfl | he
      · exact htype
      · exact ih hrest hcut.2 e he

theorem Dumps.only_dumps (h : Dumps s) (hinfo : s.infos b = some i) (hstate : i.state = .dump)
    (hqevts : i.qevts = []) :
    (∀ e ∈ s.up b, e.evType = .dumpRep) ∧ ∀ e ∈ s.down b, e.evType = .dumpReq := by
  have hlinkd := h.link b
  rw [hinfo] at hlinkd
  have hcut := (h.calm.served hinfo).cut_of_state (by simp [hstate])
  rw [hqevts, nil_append] at hcut
  obtain ⟨-, -, hflow⟩ := (h.calm.flow.served hinfo).serving.dumpFlow hstate hqevts
  exact ⟨hflow.upOk.kind hcut, hlinkd.quiet i rfl hstate⟩

theorem Dumps.noIncrement (h : Dumps s) (hinfo : s.infos b = some i) (hqevts : i.qevts = [])
    (hstate : i.state = .wait ∨ i.state = .dump) : NoIncrement s b := by
  unfold NoIncrement
  rw [hinfo, held, hqevts, nil_append]
  rcases hstate with hstate | hstate
  · obtain ⟨hwaits, -⟩ := (h.calm.flow.served hinfo).serving.waitFlow hstate hqevts
    obtain ⟨hup, hdown, -⟩ := (h.calm.served hinfo).settled hstate hwaits hqevts
    rw [hup, hdown]
    simp
  · obtain ⟨hup, hdown⟩ := h.only_dumps hinfo hstate hqevts
    intro e he
    rcases mem_append.mp he with he | he
    · simp [hup e he]
    · simp [hdown e he]

theorem Dumps.dumpedBelow (h : Dumps s) (hinfo : s.infos b = some i) (hstate : i.state = .dump)
    (hqevts : i.qevts = []) (he : e ∈ i.qdump) (htype : e.evType = .dumpRep) :
    DumpedBelow (s.procs b) (s.queue.fetchPos b) := by
  have hsteady := h.calm.served hinfo
  have hexact := hsteady.exact i rfl (by simp [hstate]) (by simp [hstate])
  have hlast := hexact.lastDump e (mem_append_left _ he) htype
  have hprogress := hexact.progress (hsteady.cut_of_state (by simp [hstate]))
  have hzero : incrAnswers (i.qevts ++ s.up b) = 0 := by
    rw [hqevts, nil_append]
    unfold incrAnswers
    rw [countP_eq_zero]
    intro x hx
    simp [(h.only_dumps hinfo hstate hqevts).1 x hx]
  rw [hzero, Nat.add_zero] at hprogress
  refine ⟨by omega, ?_⟩
  rw [hsteady.dumped hlast, hsteady.order, ← hprogress, Nat.add_sub_cancel_left]

theorem passed_request {x : Bytes} (htype : e.evType = .dumpReq) (hx : x = b)
    (hno : NoIncrement s b) : Passed s s' b x e := by
  refine ⟨fun _ => ⟨hx, hno⟩, fun hrep => ?_, fun hrep => ?_⟩ <;> rw [htype] at hrep <;> cases hrep

theorem passed_increment {x : Bytes} (htype : e.evType = .incrementRep) : Passed s s' b x e := by
  refine ⟨fun ht => ?_, fun ht => ?_, fun ht => ?_⟩ <;> rw [htype] at ht <;> cases ht

theorem Dumps.passed (h : Dumps s) {x : Bytes} (hinfo : s.infos b = some i)
    (htask : TaskStep s.queue i r) (he : e ∈ r.sent) (hx : e.id = x) :
    Passed s (({ s with queue := r.queue }.setInfo b r.info).send r.sent) b x e := by
  have hserving := (h.calm.flow.served hinfo).serving
  cases htask with
  | idle | restart | answer | stop | check | leave => cases he
  | dumpReq evt rest hstate hqevts hqdump htype hnone =>
    rw [mem_singleton.mp he] at hx ⊢
    have hid : evt.id = b := hserving.qdump evt (by simp [hqdump])
    exact passed_request htype (hx.symm.trans hid) (h.noIncrement hinfo hqevts (.inl hstate))
  | incrReq sent hstate hqevts hqdump hloop =>
    obtain ⟨-, hbatch, -⟩ := hserving.waitFlow hstate hqevts
    exact passed_increment ((sent_increments hbatch (h.calm.flow.pos b).2 hloop).2.1.kind e he).1
  | dumpRep q' waits sent hstate hqevts hloop =>
    obtain ⟨_, hloop₁, -, hpos⟩ := h.calm.flow.dumpRepLoop hinfo hstate hqevts
    rw [hloop₁] at hloop
    cases hloop
    obtain ⟨e, hmem, rfl⟩ := mem_map.mp he
    have hid : e.id = b := hserving.qdump e hmem
    by_cases htype : e.evType = .dumpReq
    · have hout : dumpOut (s.queue.fetchPos b) e = e := if_pos htype
      rw [hout] at hx ⊢
      exact passed_request htype (hx.symm.trans hid) (h.noIncrement hinfo hqevts (.inr hstate))
    · have hout : dumpOut (s.queue.fetchPos b) e = dumpAnswer (s.queue.fetchPos b) e := if_neg htype
      rw [hout] at hx ⊢
      rw [dumpAnswer_id] at hx
      obtain ⟨htok, -⟩ := h.calm.flow.peer_ne hinfo hmem
      obtain ⟨hasks, -⟩ := h.calm.flow.asked b e.peer htok
      have hasking := (h.asks hasks).1
      rw [← hx]
      refine ⟨fun hreq => absurd (by simpa using hreq) htype,
        fun hrep => ⟨hasks, hrep, by simp, ?_⟩,
        fun hrep hsucc => ?_⟩
      · rw [dumpAnswer_peer (by rw [hid]; exact hasking.target), hid]
      · have hrep : e.evType = .dumpRep := by simpa using hrep
        have hsucc' : e.evState = .succ := by
          by_contra hne
          unfold dumpAnswer at hsucc
          rw [if_neg hne] at hsucc
          cases hsucc
        have hset : q'.fetchPos e.peer = s.queue.fetchPos b := by
          rw [hpos, if_pos ⟨e, hmem, hrep, hsucc', rfl⟩]
        show (dumpAnswer (s.queue.fetchPos b) e).taskSeq = q'.fetchPos e.peer ∧
          DumpedBelow (s.procs b) (q'.fetchPos e.peer)
        rw [hset]
        refine ⟨?_, h.dumpedBelow hinfo hstate hqevts hmem hrep⟩
        unfold dumpAnswer
        rw [if_pos hsucc']

theorem Dumps.worked (h : Dumps s) (hstep : Pole.step s (.work b) = .ok s') (x : Bytes) :
    ∃ l, s'.down x = s.down x ++ l ∧ ∀ e ∈ l, Passed s s' b x e := by
  rw [Pole.step] at hstep
  split at hstep
  · cases hstep
    exact ⟨[], (append_nil _).symm, by simp⟩
  · next i hinfo =>
    split at hstep
    · cases hstep
    · next r htask =>
      cases hstep
      refine ⟨r.sent.filter fun e => decide (e.id = x), rfl, fun e he => ?_⟩
      obtain ⟨hmem, hid⟩ := mem_filter.mp he
      exact h.passed hinfo (taskHandle_ok htask) hmem (by simpa using hid)

--
-- Every request can be answered
--

/-- A process waits for a dump of a client that runs. -/
structure Waiting (s : Sys) (a b : Bytes) : Prop where
  dumps : Dumps s
  asks : Asks s a b
  running : Running s b

/-- What the server still has to do for a client, each event with the number of
places it has yet to pass. -/
def infoLoad : Option ClientInfo → Nat
  | none => 0
  | some i => i.qevts.length + 4 * reqs i.qdump + reps i.qdump

/-- What is left to do on the links of `a` and `b`. -/
def load (s : Sys) (a b : Bytes) : Nat :=
  5 * (s.up a).length + infoLoad (s.infos b) + 2 * (s.up b).length + 3 * (s.down b).length

/-- An action leaves less to do. -/
def Advances (s : Sys) (a b : Bytes) : Prop :=
  ∃ act s', NobodyDies s act ∧ RequestsKept s act ∧ step s act = .ok s' ∧ Asks s' a b ∧
    Running s' b ∧ load s' a b < load s a b

theorem Waiting.ne (h : Waiting s a b) : a ≠ b := by
  rintro rfl
  exact h.asks.not_active (.inl h.running.1)

theorem Waiting.dispense_request (h : Waiting s a b) (hup : s.up a ≠ []) : Advances s a b := by
  obtain ⟨hmode, hcut⟩ := h.running
  have hne := h.ne
  have hone := (h.dumps.asks h.asks).1.upOk.resolve_left hup
  have hpeer : (dumpRequest a b).peer = b := cstr_append_nul (h.dumps.asks h.asks).1.target
  have hdisp := eventDispenser_ok (s.setUp a []) (dumpRequest a b)
  refine ⟨.dispense a, eventDispenser (s.setUp a []) (dumpRequest a b), trivial, trivial, ?_, ?_⟩
  · rw [Pole.step, hone]
  generalize eventDispenser (s.setUp a []) (dumpRequest a b) = s' at hdisp ⊢
  have hasks := h.asks
  unfold Asks Running load at *
  cases hdisp with
  | rejected htype hrej =>
    rw [h.dumps.accepted h.asks] at hrej
    cases hrej
  | noTarget htype hacc hinfo =>
    have hid : (failedRep (dumpRequest a b)).id ≠ b := by
      show (dumpRequest a b).swapIdData.swapIdData.id ≠ b
      rw [Evt.swapIdData_id, Evt.swapIdData_peer (h.dumps.asks h.asks).1.noNul]
      exact hne
    simp [hasks, hmode, hcut, hone, hne.symm, hid]
  | dumpReq i htype hacc hinfo =>
    rw [hpeer] at hinfo ⊢
    rw [Sys.setUp_infos] at hinfo
    rw [hinfo, held] at hcut
    have hreqs : reqs (i.qdump ++ [(dumpRequest a b).swapIdData]) = reqs i.qdump + 1 := by
      simp [reqs, htype]
    have hreps : reps (i.qdump ++ [(dumpRequest a b).swapIdData]) = reps i.qdump := by
      simp [reps, htype]
    refine ⟨hasks, ⟨hmode, by simpa [held, hne.symm] using hcut⟩, ?_⟩
    simp only [Sys.setInfo_up, Sys.setUp_up, if_true, Sys.setInfo_infos, if_neg hne.symm,
      Sys.setInfo_down, Sys.setUp_down, infoLoad, hreqs, hreps, hinfo, hone, length_nil,
      length_singleton]
    omega
  | dumpRep i htype => cases htype
  | request i htype => rcases htype with ht | ht <;> cases ht
  | register htype => exact absurd rfl htype

theorem Waiting.known (h : Waiting s a b) (htok : tokens s b a ≠ 0) : ∃ i, s.infos b = some i := by
  obtain ⟨hmode, hcut⟩ := h.running
  obtain ⟨-, hserver⟩ := (h.dumps.calm.flow.link b).active (.inl hmode)
  cases hinfo : s.infos b with
  | some i => exact ⟨i, rfl⟩
  | none =>
    rw [hinfo] at hserver hcut
    have hcut : hasRestart (s.up b) = false := hcut
    have hup : s.up b = [] := by
      have hpend := hserver.upOk
      rw [pending_eq_length hcut] at hpend
      exact eq_nil_of_length_eq_zero hpend
    unfold tokens at htok
    rw [hinfo, hup, hserver.downOk hmode hcut] at htok
    exact absurd rfl htok

theorem Waiting.dispense_target (h : Waiting s a b) (hinfo : s.infos b = some i)
    (hup : s.up b = evt :: rest) : Advances s a b := by
  obtain ⟨hmode, hcut⟩ := h.running
  have hne := h.ne
  have hasks := h.asks
  have hclient := ((h.dumps.calm.flow.link b).active (.inl hmode)).1
  obtain ⟨hfrom, hkind⟩ := hclient.upOk evt (by rw [hup]; exact .head _)
  have hdisp := eventDispenser_ok (s.setUp b rest) evt
  refine ⟨.dispense b, eventDispenser (s.setUp b rest) evt, trivial, trivial, ?_, ?_⟩
  · rw [Pole.step, hup]
  generalize eventDispenser (s.setUp b rest) evt = s' at hdisp ⊢
  unfold Asks Running load at *
  rw [hinfo, hup, held, hasRestart_append, hasRestart_cons] at hcut
  simp only [or_eq_false_iff] at hcut
  cases hdisp with
  | rejected htype | noTarget htype | dumpReq _ htype =>
    rcases hkind with hk | hk <;> rw [htype] at hk <;> cases hk
  | dumpRep j htype hj =>
    rw [hfrom.1] at hj ⊢
    obtain rfl : i = j := Option.some.inj (hinfo.symm.trans hj)
    have hreqs : reqs (i.qdump ++ [evt]) = reqs i.qdump := by simp [reqs, htype]
    have hreps : reps (i.qdump ++ [evt]) = reps i.qdump + 1 := by simp [reps, htype]
    refine ⟨hasks, ⟨hmode, by simp [held, hcut]⟩, ?_⟩
    simp only [Sys.setInfo_up, Sys.setUp_up, if_true, if_neg hne, Sys.setInfo_infos,
      Sys.setInfo_down, Sys.setUp_down, infoLoad, hreqs, hreps, hinfo, hup, length_cons]
    omega
  | request j htype hj =>
    rw [hfrom.1] at hj ⊢
    obtain rfl : i = j := Option.some.inj (hinfo.symm.trans hj)
    refine ⟨hasks, ⟨hmode, by simp [held, hcut]⟩, ?_⟩
    simp only [Sys.setInfo_up, Sys.setUp_up, if_true, if_neg hne, Sys.setInfo_infos,
      Sys.setInfo_down, Sys.setUp_down, infoLoad, hinfo, hup, length_cons, length_append,
      length_nil]
    omega
  | register htype hnone =>
    rw [hfrom.1] at hnone
    cases hinfo.symm.trans hnone

theorem Waiting.recv_target (h : Waiting s a b) (hdown : s.down b = evt :: rest) :
    Advances s a b := by
  obtain ⟨hmode, hcut⟩ := h.running
  have hne := h.ne
  have hasks := h.asks
  have hclient := ((h.dumps.calm.flow.link b).active (.inl hmode)).1
  rw [hdown] at hclient
  cases hloop : incrLoop (s.procs b) .succ evt with
  | error e => exact absurd hloop (hclient.incrLoop_ok hmode .succ e)
  | ok pr =>
    obtain ⟨p, reply⟩ := pr
    have halive := (incrLoop_succ hloop hmode ((h.dumps.link b).alive hmode)).1
    have hreply : reply.length ≤ 1 ∧ hasRestart reply = false := by
      rcases hclient.turn hmode (incrLoop_ok hloop) with ⟨-, rfl, -⟩ | ⟨r, rfl, -, -, htaken⟩
      · exact ⟨Nat.zero_le 1, rfl⟩
      · exact ⟨Nat.le_refl 1, by simp [htaken.not_isRestart]⟩
    refine ⟨.recv b .succ, ((s.setDown b rest).setProc b p).setUp b (s.up b ++ reply), trivial,
      trivial, ?_, ?_⟩
    · rw [Pole.step, recvStep, hmode, hdown]
      simp only [hloop]
    unfold Asks Running load at *
    rw [hasRestart_append, or_eq_false_iff] at hcut
    refine ⟨by simpa [hne] using hasks, ⟨by simpa using halive, by simp [hcut, hreply.2]⟩, ?_⟩
    simp only [Sys.setUp_up, if_true, if_neg hne, Sys.setUp_infos, Sys.setProc_infos,
      Sys.setDown_infos, Sys.setUp_down, Sys.setProc_down, Sys.setDown_down, Sys.setProc_up,
      Sys.setDown_up, hdown, length_cons, length_append]
    omega

theorem Waiting.serve (h : Waiting s a b) {j : ClientInfo} (hinfo : s.infos b = some i)
    (htask : taskHandle s.queue i = .ok r) (hr : r.info = some j)
    (hstate : i.state ≠ .exit ∧ i.state ≠ .ruin) (hqevts : ∃ l, i.qevts = l ++ j.qevts)
    (hless : infoLoad (some j) + 3 * (r.sent.filter fun e => decide (e.id = b)).length <
      infoLoad (some i)) : Advances s a b := by
  obtain ⟨hmode, hcut⟩ := h.running
  have hasks := h.asks
  obtain ⟨l, hqevts⟩ := hqevts
  rw [hinfo, held, hasRestart_append, or_eq_false_iff] at hcut
  have hcut' : hasRestart j.qevts = false := by
    have hall := hcut.1
    rw [hqevts, hasRestart_append, or_eq_false_iff] at hall
    exact hall.2
  refine ⟨.work b, ({ s with queue := r.queue }.setInfo b r.info).send r.sent, trivial, ?_, ?_,
    hasks, ⟨hmode, by simp [hr, held, hcut, hcut']⟩, ?_⟩
  · -- nothing is cleared or removed
    intro i' hi'
    obtain rfl : i = i' := Option.some.inj (hinfo.symm.trans hi')
    refine ⟨fun evt hevt hrestart => ?_, fun hleave => ?_⟩
    · have hmem : evt ∈ i.qevts := by
        unfold ClientInfo.request at hevt
        split at hevt
        · exact mem_of_mem_head? hevt
        · cases hevt
      obtain ⟨l₁, l₂, hsplit⟩ := append_of_mem hmem
      have hall := hcut.1
      simp [hsplit, hrestart] at hall
    · rcases hleave with hs | hs
      · exact absurd hs hstate.1
      · exact absurd hs hstate.2
  · rw [Pole.step, hinfo]
    simp only [htask]
  · unfold load
    simp only [Sys.send_up, Sys.setInfo_up, Sys.send_infos, Sys.setInfo_infos, if_true, hr,
      Sys.send_down, Sys.setInfo_down, length_append, hinfo]
    omega

theorem reqs_add_reps {l : List Evt} (h : ∀ e ∈ l, DumpEvt e) : reqs l + reps l = l.length := by
  induction l with
  | nil => rfl
  | cons e l ih =>
    have ih := ih fun x hx => h x (.tail _ hx)
    unfold reqs reps at ih ⊢
    rcases h e (.head _) with ⟨htype, -⟩ | htype
    · simp [htype]
      omega
    · simp [htype]
      omega

theorem Waiting.work_target (h : Waiting s a b) (hinfo : s.infos b = some i) (hup : s.up b = [])
    (hdown : s.down b = []) (htok : tokens s b a ≠ 0) : Advances s a b := by
  obtain ⟨hmode, hcut⟩ := h.running
  have hlinkd := h.dumps.link b
  rw [hinfo] at hlinkd hcut
  have hsteady := h.dumps.calm.served hinfo
  have hserving := (h.dumps.calm.flow.served hinfo).serving
  have hhead : ¬HeadRestart i.qevts := by
    intro hhead
    rw [held, hasRestart_append, hhead.1] at hcut
    cases hcut
  have hcut : hasRestart (i.qevts ++ s.up b) = false := hcut
  rw [hup, append_nil] at hcut
  -- its request or reply waits at the server
  have hqdump : i.qdump ≠ [] := by
    intro hnil
    unfold tokens at htok
    rw [hinfo, hup, hdown, infoTokens, hnil] at htok
    exact htok rfl
  have hphase := hserving.phase
  unfold Phase at hphase
  cases hstate : i.state with
  | incr =>
    cases hqevts : i.qevts with
    | cons evt rest =>
      have her : evt.isRestart = false := by
        rw [hqevts, hasRestart_cons, or_eq_false_iff] at hcut
        exact hcut.1
      obtain ⟨-, -, hflow⟩ := hserving.incrFlow hstate hqevts her
      have hsucc := (hflow.synced ⟨hmode, by rw [hup, append_nil]; exact hcut⟩).1 evt
        (by rw [hqevts]; exact .head _)
      have htype := (hserving.head_type hqevts (.inl hstate)).1
      rw [hqevts, cons_append] at hflow
      obtain ⟨⟨-, hseq, hlt⟩, -⟩ := hflow.head ⟨htype, hsucc⟩
      have htask : taskHandle s.queue i = .ok ⟨s.queue.updateThat i.id evt.taskSeq,
          some (syncFrom (s.queue.updateThat i.id evt.taskSeq)
            { i with qevts := rest, waits := sizeDec i.waits } evt), []⟩ := by
        unfold taskHandle doIncrRepTask
        rw [hstate, hqevts]
        simp only [reduceCtorEq, if_false, htype, ne_eq, not_true_eq_false, hsucc]
        rw [if_neg (by omega), hserving.id, if_neg (by rw [Nat.mod_eq_of_lt hlt]; omega)]
      obtain ⟨-, hqevts', hqdump'⟩ := syncFrom_frame (s.queue.updateThat i.id evt.taskSeq)
        { i with qevts := rest, waits := sizeDec i.waits } evt
      refine h.serve hinfo htask rfl (by simp [hstate]) ⟨[evt], ?_⟩ ?_
      · rw [hqevts', hqevts]
        rfl
      · simp only [infoLoad, hqevts', hqdump', hqevts, filter_nil, length_nil,
          length_cons]
        omega
    | nil =>
      -- something would be unanswered
      have hbusy := hlinkd.busy i rfl hstate (by rw [hup, append_nil]; exact hcut)
      have hcount := (hsteady.exact i rfl (by simp [hstate]) (by simp [hstate])).counted
      rw [hstate] at hphase
      have hreqs := (hphase.2.resolve_left hhead).1 hcut
      unfold unanswered at hcount
      rw [hdown, hqevts, hup, reps_eq_zero hreqs] at hcount
      exact absurd hcount hbusy
  | wait =>
    rw [hstate] at hphase
    obtain ⟨hqevts, hreqs, -⟩ := hphase.2.2.resolve_left hhead
    obtain ⟨e, rest, hcons⟩ := exists_cons_of_ne_nil hqdump
    obtain ⟨htype, hnone⟩ := hreqs hcut e (by rw [hcons]; exact .head _)
    have hid : e.id = b := hserving.qdump e (by rw [hcons]; exact .head _)
    have htask : taskHandle s.queue i = .ok ⟨s.queue,
        some { i with qdump := rest, waits := i.waits + 1, state := .dump }, [e]⟩ := by
      unfold taskHandle doDumpReqTask
      rw [hstate, hqevts, hcons]
      simp [htype, hnone]
    refine h.serve hinfo htask rfl (by simp [hstate]) ⟨[], rfl⟩ ?_
    have hreq : reqs (e :: rest) = reqs rest + 1 := by simp [reqs, htype]
    have hrep : reps (e :: rest) = reps rest := by simp [reps, htype]
    rw [infoLoad, infoLoad, hcons, hreq, hrep, filter_self (by simp [hid]), length_singleton]
    dsimp only
    omega
  | dump =>
    rw [hstate] at hphase
    obtain ⟨hqevts, hdump, -⟩ := hphase.2.resolve_left hhead
    obtain ⟨q', hloop, -⟩ := h.dumps.calm.flow.dumpRepLoop hinfo hstate hqevts
    have htask : taskHandle s.queue i = .ok ⟨q', some { i with
        qdump := [],
        waits := i.waits + reqs i.qdump - reps i.qdump,
        state := if i.waits + reqs i.qdump - reps i.qdump = 0 then .wait else .dump },
        i.qdump.map (dumpOut (s.queue.fetchPos b))⟩ := by
      unfold taskHandle doDumpRepTask
      rw [hstate, hloop]
      simp only [hqevts, ne_eq, not_true_eq_false, if_false, hqdump, not_false_eq_true, if_true]
    refine h.serve hinfo htask rfl (by simp [hstate]) ⟨[], rfl⟩ ?_
    have hlen : (i.qdump.filter fun e => decide (e.evType = .dumpReq)).length = reqs i.qdump :=
      countP_eq_length_filter.symm
    have hsum := reqs_add_reps hdump
    have hpos := length_pos_iff.mpr hqdump
    rw [dumpOut_self hserving.qdump hdump fun e he => (h.dumps.calm.flow.peer_ne hinfo he).2, hlen]
    simp only [infoLoad, show reqs [] = 0 from rfl, show reps [] = 0 from rfl]
    omega
  | exit | ruin =>
    rw [hstate] at hphase
    have hrestart := hphase.2 hmode
    rw [hup, append_nil, hcut] at hrestart
    cases hrestart

/-- **Progress.** Some party can always do something for who waits. -/
theorem Waiting.advances (h : Waiting s a b) (hdown : s.down a = []) : Advances s a b := by
  rcases h.dumps.kept a b h.asks with hup | htok | hne
  · exact h.dispense_request hup
  · obtain ⟨i, hinfo⟩ := h.known htok
    cases hup : s.up b with
    | cons evt rest => exact h.dispense_target hinfo hup
    | nil =>
      cases hdown_b : s.down b with
      | cons evt rest => exact h.recv_target hdown_b
      | nil => exact h.work_target hinfo hup hdown_b htok
  · exact absurd hdown hne

theorem Waiting.answerable (h : Waiting s a b) :
    ∃ l s', Along step NobodyDies s l ∧ Along step RequestsKept s l ∧ run step s l = .ok s' ∧
      Asks s' a b ∧ ∃ e, s'.down a = [e] ∧ AnswerOf a b e := by
  induction hn : load s a b using Nat.strong_induction_on generalizing s with
  | h n ih =>
    rcases (h.dumps.asks h.asks).1.downOk with hdown | ⟨e, hdown, hans⟩
    · obtain ⟨act, s₁, hlive, hcond, hstep, hasks, hrunning, hless⟩ := h.advances hdown
      have hdumps := h.dumps.step hlive hcond (step_ok hstep)
      obtain ⟨l, s', hl, hk, hrun, hlast⟩ := ih _ (hn ▸ hless) ⟨hdumps, hasks, hrunning⟩ rfl
      exact ⟨act :: l, s', .cons hstep hlive hl, .cons hstep hcond hk, by rw [run_cons hstep, hrun],
        hlast⟩
    · exact ⟨[], s, trivial, trivial, rfl, h.asks, e, hdown, hans⟩

theorem Dumps.protocol (h : Dumps s) : DumpProtocol s where
  traced := h.traced
  dispensed _ _ _ hasks hup hstep := h.dispensed hasks hup hstep
  executed _ _ _ _ _ hmode hdown htype hstep := h.executed hmode hdown htype hstep
  worked _ _ hstep x := h.worked hstep x
  answerable _ _ hasks hrunning := Waiting.answerable ⟨h, hasks, hrunning⟩

--
-- Runs
--

/-- **Dumps.** In every run in which nobody dies and no action drops a request,
from any initial state, with any number of clients and dumps and any traffic
beside them, every state keeps its promise: a request is in one place and belongs
to who asks, the dispenser queues it at its target or answers that there is none,
it is sent when no increment is unanswered, its reply goes to who asked and to
nobody else, a success comes with the position up to which the target had handed
over everything when it executed the dump, and a request to a client that runs
can always be answered. -/
theorem dumps_delivered (s₀ : Sys) (h₀ : Initial s₀) (l : List Action)
    (hlive : Along step NobodyDies s₀ l) (hkept : Along step RequestsKept s₀ l) (s : Sys)
    (hrun : run step s₀ l = .ok s) : DumpProtocol s := by
  have hdumps : Dumps s := run_inv_along
    (fun s a s' h hcond hstep => h.step hcond.1 hcond.2 (step_ok hstep)) h₀.dumps
    (hlive.and hkept) hrun
  exact hdumps.protocol

/-- A client has handed over a message when another asks for a dump of it; the
position of the first one goes with the answer. -/
def dumpAtTwo : List Action :=
  [.push [1], .startIncr nodeB 0, .dispense nodeB.bytes, .work nodeB.bytes, .work nodeB.bytes,
    .startDump nodeA nodeB, .dispense nodeA.bytes, .recv nodeB.bytes .succ, .dispense nodeB.bytes,
    .work nodeB.bytes, .work nodeB.bytes, .recv nodeB.bytes .succ, .dispense nodeB.bytes,
    .work nodeB.bytes]

theorem dumpAtTwo_delivered : ∃ s, run step emptySys dumpAtTwo = .ok s ∧
    s.queue.fetchPos nodeA.bytes = 2 ∧ (s.procs nodeB.bytes).dumpedAt = [1] ∧ DumpProtocol s :=
  ⟨_, rfl, rfl, rfl, dumps_delivered emptySys emptySys_initial dumpAtTwo (by decide) (by decide) _
    rfl⟩

/-- A client whose name fills its buffer. -/
def nodeLong : Id := ⟨List.replicate 31 98, by decide, by decide, by decide⟩

/-- The dispenser rejects the request. -/
def dumpOfLong : List Action :=
  [.startIncr nodeLong 0, .dispense nodeLong.bytes, .work nodeLong.bytes, .startDump nodeA nodeLong,
    .dispense nodeA.bytes]

/-- The request is queued at its target before the server has handled the
target's start request. -/
def dumpBeforeFirst : List Action :=
  [.startIncr nodeB 0, .dispense nodeB.bytes, .startDump nodeA nodeB, .dispense nodeA.bytes,
    .work nodeB.bytes]

theorem not_dumpProtocol (hasks : Asks s a b) (hup : s.up a = []) (htok : tokens s b a = 0)
    (hdown : s.down a = []) : ¬DumpProtocol s := by
  intro h
  have honce := h.traced.once a b hasks
  rw [hup, htok, hdown] at honce
  cases honce

/-- Nobody dies, and a DUMP process waits for an answer that nobody will send. -/
theorem dump_requests_lost :
    (Along step NobodyDies emptySys dumpOfLong ∧
      ∃ s, run step emptySys dumpOfLong = .ok s ∧ ¬DumpProtocol s) ∧
    (Along step NobodyDies emptySys dumpBeforeFirst ∧
      ∃ s, run step emptySys dumpBeforeFirst = .ok s ∧ ¬DumpProtocol s) :=
  ⟨⟨by decide, _, rfl, not_dumpProtocol (a := nodeA.bytes) (b := nodeLong.bytes) rfl rfl rfl rfl⟩,
    by decide, _, rfl, not_dumpProtocol (a := nodeA.bytes) (b := nodeB.bytes) rfl rfl rfl rfl⟩

end Supex.Pole
