import Supex.Pole.Link

/-!
# pole — the invariant of the whole system

Every client's link keeps its own invariant (`LinkOk`). Links are coupled by the
dump requests only: a client that asks for a dump of `b` leaves a token, which is
on the link of `b` from the moment the dispenser queued it there until the
worker of `b` answers. `Flow` says that there is at most one token for each
asking client, and that an asking client with a token has nothing else in
flight.

Under `Orderly` and `ServerQuiet`, the conditions on an action, every action keeps it.

Main results: `Flow.step`, `Flow.error`.
-/

namespace Supex.Pole

open Supex.Lib List

--
-- Links
--

/-- A DUMP process `a` that asks for a dump of `b`: its request waits for the
dispenser, its answer waits for it, or neither. -/
structure Asking (a b : Bytes) (info : Option ClientInfo) (up down : List Evt) : Prop where
  infoOk : info = none
  noNul : (0 : UInt8) ∉ a
  target : (0 : UInt8) ∉ b
  upOk : up = [] ∨ up = [dumpRequest a b]
  downOk : down = [] ∨ ∃ e, down = [e] ∧ e.evType = .dumpRep ∧ e.id = a ∧ e.peer = b
  one : up = [] ∨ down = []

/-- The link of a client, by what runs under its identity. -/
def LinkOk (c : Bytes) (pos : Nat) (info : Option ClientInfo) (up down : List Evt) (pr : Proc) :
    Prop :=
  match pr.mode with
  | .idle => info = none ∧ up = [] ∧ down = [] ∧ pr.handed = []
  | .dumping b => Asking c b info up down ∧ pr.handed = []
  | _ => ClientSide c up down pr ∧ ServerSide c pos up down pr info

/-- An INCR process runs or ran. -/
def Mode.Active (m : Mode) : Prop := m = .incr ∨ m = .gone

variable {a b c : Bytes} {s : Sys} {i : ClientInfo} {pr : Proc} {down l rest up : List Evt}
  {e evt : Evt} {pos : Nat} {q : Queue} {info : Option ClientInfo}

theorem LinkOk.active (h : LinkOk c pos info up down pr) (hm : pr.mode.Active) :
    ClientSide c up down pr ∧ ServerSide c pos up down pr info := by
  unfold LinkOk at h
  rcases hm with hm | hm <;> rw [hm] at h <;> exact h

theorem linkOk_active (hm : pr.mode.Active) (hc : ClientSide c up down pr)
    (hs : ServerSide c pos up down pr info) : LinkOk c pos info up down pr := by
  unfold LinkOk
  rcases hm with hm | hm <;> rw [hm] <;> exact ⟨hc, hs⟩

theorem linkOk_serving (hm : pr.mode.Active) (hc : ClientSide c up down pr)
    (hs : Serving c pos i up down pr) : LinkOk c pos (some i) up down pr := linkOk_active hm hc hs

theorem LinkOk.active_of_info (h : LinkOk c pos (some i) up down pr) : pr.mode.Active := by
  unfold LinkOk at h
  cases hm : pr.mode with
  | idle =>
    rw [hm] at h
    cases h.1
  | dumping b =>
    rw [hm] at h
    cases h.1.infoOk
  | incr => exact .inl rfl
  | gone => exact .inr rfl

theorem LinkOk.serving (h : LinkOk c pos (some i) up down pr) : Serving c pos i up down pr :=
  (h.active h.active_of_info).2

theorem LinkOk.asking (h : LinkOk c pos info up down pr) (hm : pr.mode = .dumping b) :
    Asking c b info up down ∧ pr.handed = [] := by
  unfold LinkOk at h
  rw [hm] at h
  exact h

theorem linkOk_asking (hm : pr.mode = .dumping b) (h : Asking c b info up down)
    (hnone : pr.handed = []) : LinkOk c pos info up down pr := by
  unfold LinkOk
  rw [hm]
  exact ⟨h, hnone⟩

/-- **Increasing numbers.** Every process is handed increasing numbers. -/
theorem LinkOk.seqsOk (h : LinkOk c pos info up down pr) : pr.seqs.Pairwise (· < ·) := by
  have hnil : pr.handed = [] → pr.seqs.Pairwise (· < ·) := by
    intro hnone
    unfold Proc.seqs
    rw [hnone]
    exact List.Pairwise.nil
  cases hm : pr.mode with
  | idle =>
    unfold LinkOk at h
    rw [hm] at h
    exact hnil h.2.2.2
  | dumping b => exact hnil (h.asking hm).2
  | incr => exact (h.active (.inl hm)).1.seqsOk
  | gone => exact (h.active (.inr hm)).1.seqsOk

--
-- Tokens
--

/-- The dump requests of `a` among events of a queue that holds dump events. -/
def askedIn (a : Bytes) (l : List Evt) : Nat := l.countP fun e => e.peer = a

/-- The dump requests of `a` on their way to a client. -/
def reqsFor (a : Bytes) (l : List Evt) : Nat := l.countP fun e => e.evType = .dumpReq && e.peer = a

/-- The dump replies for `a` on their way from a client. -/
def repsFor (a : Bytes) (l : List Evt) : Nat := l.countP fun e => e.evType = .dumpRep && e.peer = a

/-- The tokens of `a` in the server's state of a client. -/
def infoTokens (a : Bytes) : Option ClientInfo → Nat
  | none => 0
  | some i => askedIn a i.qdump

/-- The tokens of `a` on the link of `b`. -/
def tokens (s : Sys) (b a : Bytes) : Nat :=
  infoTokens a (s.infos b) + reqsFor a (s.down b) + repsFor a (s.up b)

@[simp] theorem askedIn_append (a : Bytes) (l m : List Evt) :
    askedIn a (l ++ m) = askedIn a l + askedIn a m := countP_append ..

@[simp] theorem reqsFor_append (a : Bytes) (l m : List Evt) :
    reqsFor a (l ++ m) = reqsFor a l + reqsFor a m := countP_append ..

@[simp] theorem repsFor_append (a : Bytes) (l m : List Evt) :
    repsFor a (l ++ m) = repsFor a l + repsFor a m := countP_append ..

@[simp] theorem reqsFor_nil (a : Bytes) : reqsFor a [] = 0 := rfl

@[simp] theorem repsFor_nil (a : Bytes) : repsFor a [] = 0 := rfl

theorem reqsFor_eq_zero (h : ∀ e ∈ l, e.evType ≠ .dumpReq) : reqsFor a l = 0 := by
  unfold reqsFor
  rw [countP_eq_zero]
  intro e he
  simp [h e he]

theorem reqsFor_cons_other (l : List Evt) (h : e.evType ≠ .dumpReq) :
    reqsFor a (e :: l) = reqsFor a l := by
  simp [reqsFor, h]

theorem repsFor_cons_other (l : List Evt) (h : e.evType ≠ .dumpRep) :
    repsFor a (e :: l) = repsFor a l := by
  simp [repsFor, h]

theorem reqsFor_cons_req (l : List Evt) (h : e.evType = .dumpReq) :
    reqsFor a (e :: l) = askedIn a [e] + reqsFor a l := by
  simp only [reqsFor, askedIn, countP_cons, countP_nil, h]
  simp only [decide_true, Bool.true_and]
  omega

theorem repsFor_cons_rep (l : List Evt) (h : e.evType = .dumpRep) :
    repsFor a (e :: l) = askedIn a [e] + repsFor a l := by
  simp only [repsFor, askedIn, countP_cons, countP_nil, h]
  simp only [decide_true, Bool.true_and]
  omega

theorem askedIn_cons (a : Bytes) (e : Evt) (l : List Evt) :
    askedIn a (e :: l) = askedIn a [e] + askedIn a l := by
  simp only [askedIn, countP_cons, countP_nil]
  omega

theorem askedIn_eq (h : ∀ e ∈ l, DumpEvt e) : askedIn a l = reqsFor a l + repsFor a l := by
  induction l with
  | nil => rfl
  | cons e l ih =>
    have ih := ih fun x hx => h x (.tail _ hx)
    rw [askedIn_cons]
    rcases h e (.head _) with ⟨htype, -⟩ | htype
    · rw [reqsFor_cons_req _ htype, repsFor_cons_other _ (by simp [htype])]
      omega
    · rw [repsFor_cons_rep _ htype, reqsFor_cons_other _ (by simp [htype])]
      omega

--
-- The invariant
--

/-- No message of the queue is empty. -/
def Queue.NonEmpty (q : Queue) : Prop := (∀ m ∈ q.hist, m ≠ []) ∧ ∀ m ∈ q.uncounted, m ≠ []

/-- **The invariant.** -/
structure Flow (s : Sys) : Prop where
  nonempty : s.queue.NonEmpty
  pos : ∀ c, 1 ≤ s.queue.fetchPos c ∧ s.queue.fetchPos c < u64Size
  link : ∀ c, LinkOk c (s.queue.fetchPos c) (s.infos c) (s.up c) (s.down c) (s.procs c)
  once : ∀ b a, tokens s b a ≤ 1
  asked : ∀ b a, tokens s b a ≠ 0 →
    (s.procs a).mode = .dumping b ∧ s.up a = [] ∧ s.down a = []

theorem Flow.served (h : Flow s) (hinfo : s.infos c = some i) :
    LinkOk c (s.queue.fetchPos c) (some i) (s.up c) (s.down c) (s.procs c) := by
  have hlink := h.link c
  rw [hinfo] at hlink
  exact hlink

theorem Flow.tokens_zero_of_mode (h : Flow s) (hm : ∀ b, (s.procs a).mode ≠ .dumping b)
    (b : Bytes) : tokens s b a = 0 := by
  by_contra hne
  exact hm b (h.asked b a hne).1

theorem Mode.Active.not_dumping {m : Mode} (h : m.Active) (b : Bytes) : m ≠ .dumping b := by
  rcases h with rfl | rfl <;> nofun

theorem Flow.update {s' : Sys} (c : Bytes) (h : Flow s) (hne : s'.queue.NonEmpty)
    (hother : ∀ x, x ≠ c → s'.infos x = s.infos x ∧ s'.up x = s.up x ∧ s'.down x = s.down x ∧
      s'.procs x = s.procs x ∧ s'.queue.fetchPos x = s.queue.fetchPos x)
    (hpos : 1 ≤ s'.queue.fetchPos c ∧ s'.queue.fetchPos c < u64Size)
    (hlink : LinkOk c (s'.queue.fetchPos c) (s'.infos c) (s'.up c) (s'.down c) (s'.procs c))
    (hzero : ∀ b, tokens s b c = 0) (htok : ∀ a, tokens s' c a ≤ tokens s c a) : Flow s' := by
  have hsame : ∀ b, b ≠ c → ∀ a, tokens s' b a = tokens s b a := by
    intro b hb a
    obtain ⟨hinfo, hup, hdown, -, -⟩ := hother b hb
    unfold tokens
    rw [hinfo, hup, hdown]
  have hle : ∀ b a, tokens s' b a ≤ tokens s b a := by
    intro b a
    by_cases hb : b = c
    · subst hb
      exact htok a
    · exact Nat.le_of_eq (hsame b hb a)
  refine ⟨hne, fun x => ?_, fun x => ?_, fun b a => Nat.le_trans (hle b a) (h.once b a),
    fun b a htoken => ?_⟩
  · by_cases hx : x = c
    · subst hx
      exact hpos
    · obtain ⟨-, -, -, -, hp⟩ := hother x hx
      rw [hp]
      exact h.pos x
  · by_cases hx : x = c
    · subst hx
      exact hlink
    · obtain ⟨hinfo, hup, hdown, hproc, hp⟩ := hother x hx
      rw [hinfo, hup, hdown, hproc, hp]
      exact h.link x
  · have hold : tokens s b a ≠ 0 := by
      have := hle b a
      omega
    have ha : a ≠ c := by
      rintro rfl
      exact hold (hzero b)
    obtain ⟨-, hup, hdown, hproc, -⟩ := hother a ha
    rw [hup, hdown, hproc]
    exact h.asked b a hold

theorem Flow.queue (h : Flow s) (hne : q.NonEmpty) (hpos : ∀ c, q.fetchPos c = s.queue.fetchPos c) :
    Flow { s with queue := q } where
  nonempty := hne
  pos c := by
    rw [hpos c]
    exact h.pos c
  link c := by
    rw [hpos c]
    exact h.link c
  once := h.once
  asked := h.asked

--
-- Conditions
--

/-- The position at which a start request makes the worker begin. -/
def startPos (q : Queue) (evt : Evt) : Nat :=
  if evt.taskSeq = 0 then q.fetchPos evt.id else evt.taskSeq

instance (up down : List Evt) (pr : Proc) : Decidable (Unserved up down pr) :=
  decidable_of_iff (pending up = 0 ∧ (pr.mode = .incr → hasRestart up = false → down = []))
    ⟨fun h => ⟨h.1, h.2⟩, fun h => ⟨h.upOk, h.downOk⟩⟩

/-- The messages of an earlier process do not mix with those of the current one:
the worker handles a start request and removes a client only when the link is
ready for it, it sends a dump request only when nothing is unanswered, and no
answer arrives while it waits to send. -/
def Orderly (s : Sys) : Action → Prop
  | .work c => ∀ i ∈ s.infos c,
      (∀ evt ∈ i.request, evt.isRestart = true →
        Restartable (startPos s.queue evt) (s.up c) (s.down c) (s.procs c)) ∧
      (i.state = .wait → i.qevts = [] → i.qdump ≠ [] →
        Settled (s.up c) (s.down c) (s.procs c)) ∧
      (i.state = .exit ∨ i.state = .ruin →
        i.qevts = [] ∨ Unserved (s.up c) (s.down c) (s.procs c))
  | .dispense c => ∀ i ∈ s.infos c, i.state = .wait → i.qevts = [] →
      ∀ evt ∈ (s.up c).head?, evt.evType = .incrementReq → evt.isRestart = true
  | _ => True

instance (s : Sys) : ∀ a, Decidable (Orderly s a)
  | .work c => inferInstanceAs (Decidable (∀ i ∈ s.infos c, _ ∧ _ ∧ _))
  | .dispense c => inferInstanceAs (Decidable (∀ i ∈ s.infos c, _ → _ → _))
  | .push _ | .pushRecord _ | .pushCount | .pushFail | .startIncr _ _ | .startDump _ _
  | .recv _ _ | .recvDump _ | .crash _ _ | .serverRestart => isTrue trivial

/-- Every message to an INCR client is answered, and every answer has been
taken. -/
def ServerQuiet (s : Sys) : Prop :=
  ∀ c, (s.procs c).mode.Active → s.down c = [] ∧ ∀ e ∈ s.up c, e.isRestart = true

--
-- The queue and the positions
--

theorem Queue.NonEmpty.of_same {q' : Queue} (h : q.NonEmpty) (hsame : Queue.SameMessages q q') :
    q'.NonEmpty := by
  unfold Queue.NonEmpty
  rw [hsame.1, hsame.2.1]
  exact h

theorem Queue.NonEmpty.pushRecord (h : q.NonEmpty) (data : Bytes) :
    (q.pushRecord data).NonEmpty := by
  unfold Queue.pushRecord
  split
  · exact h
  · next hroom =>
    refine ⟨h.1, fun m hm => ?_⟩
    cases hm
    exact fun hempty => hroom (.inr (.inl hempty))

theorem Queue.NonEmpty.pushCount (h : q.NonEmpty) : q.pushCount.NonEmpty := by
  unfold Queue.pushCount
  split
  · next data _ hdata =>
    refine ⟨fun m hm => ?_, fun m hm => nomatch hm⟩
    rcases mem_append.mp hm with hm | hm
    · exact h.1 m hm
    · rw [mem_singleton.mp hm]
      exact h.2 data hdata
  · exact h

theorem Queue.NonEmpty.pushTail (h : q.NonEmpty) (data : Bytes) : (q.pushTail data).NonEmpty := by
  unfold Queue.pushTail
  split
  · exact h
  · exact (h.pushRecord data).pushCount

theorem Queue.NonEmpty.pullThat (h : q.NonEmpty) {seq : Nat} : q.pullThat seq ≠ some [] := by
  intro hpull
  rcases (Queue.pullThat_some hpull).2 with ⟨-, hun⟩ | ⟨-, -, hget⟩
  · exact h.2 [] hun rfl
  · exact h.1 [] (mem_of_getElem? hget) rfl

--
-- Starting and taking
--

theorem Flow.tokens_zero_of_busy (h : Flow s) (hne : s.up a ≠ [] ∨ s.down a ≠ []) (b : Bytes) :
    tokens s b a = 0 := by
  by_contra htok
  obtain ⟨-, hup, hdown⟩ := h.asked b a htok
  exact hne.elim (fun hne => hne hup) fun hne => hne hdown

theorem Flow.startIncr (h : Flow s) {c : Id} (seq fetchFrom : Nat)
    (hmode : (s.procs c.bytes).mode = .idle ∨ (s.procs c.bytes).mode = .gone) :
    Flow ((s.setUp c.bytes (s.up c.bytes ++ [firstRequest c.bytes (seq % u64Size)])).setProc c.bytes
      (.start .incr fetchFrom)) := by
  have hrestart : (firstRequest c.bytes (seq % u64Size)).isRestart = true := rfl
  have hfrom : FromClient c.bytes (firstRequest c.bytes (seq % u64Size)) :=
    ⟨rfl, Nat.mod_lt _ (by decide)⟩
  have hlink : ClientSide c.bytes (s.up c.bytes ++ [firstRequest c.bytes (seq % u64Size)])
      (s.down c.bytes) (.start .incr fetchFrom) ∧
      ServerSide c.bytes (s.queue.fetchPos c.bytes)
        (s.up c.bytes ++ [firstRequest c.bytes (seq % u64Size)]) (s.down c.bytes)
        (.start .incr fetchFrom) (s.infos c.bytes) := by
    have hold := h.link c.bytes
    rcases hmode with hmode | hmode
    · -- the first process of this client
      unfold LinkOk at hold
      rw [hmode] at hold
      obtain ⟨hinfo, hup, hdown, -⟩ := hold
      rw [hinfo, hup, hdown]
      have hclient : ClientSide c.bytes [] [] (.start .gone 0) :=
        ⟨fun e he => (nomatch he), fun e he => (nomatch he), List.Pairwise.nil, nofun,
          List.Pairwise.nil⟩
      have hserver : ServerSide c.bytes (s.queue.fetchPos c.bytes) [] [] (.start .gone 0) none :=
        ⟨rfl, fun _ _ => rfl⟩
      exact ⟨hclient.start hrestart hfrom fetchFrom,
        hserver.start rfl hrestart⟩
    · obtain ⟨hclient, hserver⟩ := hold.active (.inr hmode)
      exact ⟨hclient.start hrestart hfrom fetchFrom,
        hserver.start rfl hrestart⟩
  have hzero : ∀ b, tokens s b c.bytes = 0 := by
    refine h.tokens_zero_of_mode fun b hb => ?_
    rcases hmode with hmode | hmode <;> rw [hmode] at hb <;> cases hb
  refine h.update c.bytes h.nonempty (fun x hx => by simp [hx]) (h.pos c.bytes) ?_ hzero
    fun a => ?_
  · simpa using linkOk_active (.inl rfl) hlink.1 hlink.2
  · have hrep : repsFor a [firstRequest c.bytes (seq % u64Size)] = 0 := rfl
    simp [tokens, hrep]

theorem Flow.startDump (h : Flow s) {a b : Id} (hmode : (s.procs a.bytes).mode = .idle) :
    Flow ((s.setUp a.bytes (s.up a.bytes ++ [dumpRequest a.bytes b.bytes])).setProc a.bytes
      (.start (.dumping b.bytes) 0)) := by
  have hold := h.link a.bytes
  unfold LinkOk at hold
  rw [hmode] at hold
  obtain ⟨hinfo, hup, hdown, -⟩ := hold
  have hzero : ∀ b, tokens s b a.bytes = 0 :=
    h.tokens_zero_of_mode fun b hb => by rw [hmode] at hb; cases hb
  refine h.update a.bytes h.nonempty (fun x hx => by simp [hx]) (h.pos a.bytes) ?_ hzero
    fun x => ?_
  · simp only [Sys.setProc_infos, Sys.setUp_infos, Sys.setProc_up, Sys.setUp_up, if_true,
      Sys.setProc_down, Sys.setUp_down, Sys.setProc_procs, hinfo, hup, hdown, nil_append]
    exact ⟨⟨rfl, a.noNul, b.noNul, .inr rfl, .inl rfl, .inr rfl⟩, rfl⟩
  · have hrep : repsFor x [dumpRequest a.bytes b.bytes] = 0 := rfl
    simp [tokens, hrep]

theorem Flow.recvDump (h : Flow s) (hmode : (s.procs a).mode = .dumping b)
    (hdown : s.down a = evt :: rest) :
    Flow ((s.setDown a rest).setProc a { s.procs a with mode := .idle }) := by
  obtain ⟨hasking, hnone⟩ := (h.link a).asking hmode
  have hrest : rest = [] := by
    rcases hasking.downOk with hnil | ⟨e, hone, -⟩
    · rw [hdown] at hnil
      cases hnil
    · rw [hdown] at hone
      exact (List.cons.inj hone).2
  have hup : s.up a = [] := hasking.one.resolve_right (by rw [hdown]; nofun)
  refine h.update a h.nonempty (fun x hx => by simp [hx]) (h.pos a) ?_
    (h.tokens_zero_of_busy (.inr (by rw [hdown]; nofun))) fun x => ?_
  · simp only [Sys.setProc_infos, Sys.setDown_infos, Sys.setProc_up, Sys.setDown_up, if_true,
      Sys.setProc_down, Sys.setDown_down, Sys.setProc_procs]
    exact ⟨hasking.infoOk, hup, hrest, hnone⟩
  · simp [tokens, hrest]

theorem Taken.tokens {pr' : Proc} {r : Evt} (h : Taken pr evt pr' r) (a : Bytes) (rest : List Evt) :
    reqsFor a rest + repsFor a [r] = reqsFor a (evt :: rest) := by
  cases h with
  | incr hevt hseq htype =>
    rw [reqsFor_cons_other _ (by simp [hevt.1]), repsFor_cons_other _ (by simp [htype])]
    rfl
  | dump hevt htype hdata =>
    have hpeer : r.peer = evt.peer := by
      unfold Evt.peer
      rw [hdata]
    have hsame : askedIn a [r] = askedIn a [evt] := by
      simp only [askedIn, countP_cons, hpeer]
    rw [reqsFor_cons_req _ hevt.1, repsFor_cons_rep _ htype, hsame, repsFor_nil]
    omega

theorem Flow.recv (h : Flow s) {reply : List Evt} {p : Proc} (hmode : (s.procs c).mode = .incr)
    (hdown : s.down c = evt :: rest) (hloop : LoopStep (s.procs c) evt p reply) :
    Flow (((s.setDown c rest).setProc c p).setUp c (s.up c ++ reply)) := by
  obtain ⟨hclient, hserver⟩ := (h.link c).active (.inl hmode)
  rw [hdown] at hclient hserver
  have hzero := h.tokens_zero_of_mode (Mode.Active.not_dumping (.inl hmode))
  obtain ⟨rfl, rfl, htype, hseq⟩ | ⟨r, rfl, hid, hmode', htaken⟩ := hclient.turn hmode hloop
  · refine h.update c h.nonempty (fun x hx => by simp [hx]) (h.pos c) ?_ hzero fun a => ?_
    · simpa using linkOk_active (.inl hmode) hclient.skip (hserver.skip htype hseq)
    · simp only [tokens, Sys.setUp_infos, Sys.setProc_infos, Sys.setDown_infos, Sys.setUp_down,
        Sys.setProc_down, Sys.setDown_down, Sys.setUp_up, if_true, hdown, append_nil]
      rw [reqsFor_cons_other _ (by simp [htype])]
  · have hactive : p.mode.Active := by
      rw [hmode']
      split
      · exact .inl rfl
      · exact .inr rfl
    refine h.update c h.nonempty (fun x hx => by simp [hx]) (h.pos c) ?_ hzero fun a => ?_
    · simpa using linkOk_active hactive (hclient.recv hmode hid htaken)
        (hserver.recv hmode hmode' htaken)
    · have htok := htaken.tokens a rest
      simp only [tokens, Sys.setUp_infos, Sys.setProc_infos, Sys.setDown_infos, Sys.setUp_down,
        Sys.setProc_down, Sys.setDown_down, Sys.setUp_up, if_true, hdown, repsFor_append]
      omega

theorem Flow.crash (h : Flow s) {p : Proc} (hmode : (s.procs c).mode = .incr)
    (hsub : rest.Sublist (s.down c)) (hgone : p.mode = .gone) (hseqs : p.seqs.Pairwise (· < ·)) :
    Flow ((s.setDown c rest).setProc c p) := by
  obtain ⟨hclient, hserver⟩ := (h.link c).active (.inl hmode)
  refine h.update c h.nonempty (fun x hx => by simp [hx]) (h.pos c) ?_
    (h.tokens_zero_of_mode (Mode.Active.not_dumping (.inl hmode))) fun a => ?_
  · simpa using linkOk_active (.inr hgone) (hclient.crash hsub hgone hseqs)
      (hserver.crash hsub hgone)
  · have hle : reqsFor a rest ≤ reqsFor a (s.down c) := hsub.countP_le
    simp only [tokens, Sys.setProc_infos, Sys.setDown_infos, Sys.setProc_down, Sys.setDown_down,
      Sys.setProc_up, Sys.setDown_up, if_true]
    omega

--
-- The dispenser
--

/-- The dispenser takes an event of a client that asks for a dump: it is the
request, and nothing else is in flight. -/
theorem Flow.asking_of_dumpReq (h : Flow s) (hup : s.up c = evt :: rest)
    (htype : evt.evType = .dumpReq) :
    ∃ b, (s.procs c).mode = .dumping b ∧ Asking c b (s.infos c) (s.up c) (s.down c) ∧
      evt = dumpRequest c b ∧ rest = [] ∧ s.down c = [] := by
  cases hmode : (s.procs c).mode with
  | idle =>
    have hold := h.link c
    unfold LinkOk at hold
    rw [hmode, hup] at hold
    cases hold.2.1
  | dumping b =>
    have hasking := ((h.link c).asking hmode).1
    have hreq : s.up c = [dumpRequest c b] := hasking.upOk.resolve_left (by rw [hup]; nofun)
    have hdown : s.down c = [] := hasking.one.resolve_left (by rw [hup]; nofun)
    obtain ⟨rfl, rfl⟩ := List.cons.inj (hup.symm.trans hreq)
    exact ⟨b, rfl, hasking, rfl, rfl, hdown⟩
  | incr | gone =>
    have hclient := ((h.link c).active (by rw [hmode]; first | exact .inl rfl | exact .inr rfl)).1
    rcases (hclient.upOk evt (by rw [hup]; exact .head _)).2 with ht | ht <;>
      rw [htype] at ht <;> cases ht

theorem Flow.active_of_event (h : Flow s) (hup : s.up c = evt :: rest)
    (htype : evt.evType ≠ .dumpReq) :
    (s.procs c).mode.Active ∧ ClientSide c (evt :: rest) (s.down c) (s.procs c) ∧
      ServerSide c (s.queue.fetchPos c) (evt :: rest) (s.down c) (s.procs c) (s.infos c) ∧
      FromClient c evt ∧ (evt.evType = .incrementReq ∨ evt.evType = .dumpRep) := by
  have hactive : (s.procs c).mode.Active := by
    cases hmode : (s.procs c).mode with
    | idle =>
      have hold := h.link c
      unfold LinkOk at hold
      rw [hmode, hup] at hold
      cases hold.2.1
    | dumping b =>
      have hreq : s.up c = [dumpRequest c b] :=
        ((h.link c).asking hmode).1.upOk.resolve_left (by rw [hup]; nofun)
      obtain ⟨rfl, -⟩ := List.cons.inj (hup.symm.trans hreq)
      exact absurd rfl htype
    | incr => exact .inl rfl
    | gone => exact .inr rfl
  obtain ⟨hclient, hserver⟩ := (h.link c).active hactive
  rw [hup] at hclient hserver
  obtain ⟨hfrom, hkind⟩ := hclient.upOk evt (.head _)
  exact ⟨hactive, hclient, hserver, hfrom, hkind⟩

theorem ClientSide.tail (h : ClientSide c (evt :: rest) down pr) : ClientSide c rest down pr :=
  ⟨fun e he => h.upOk e (.tail _ he), h.downOk, h.sorted, h.lastSeq, h.seqsOk⟩

theorem Flow.taken (h : Flow s) (hup : s.up c = evt :: rest) (hmode : (s.procs c).mode = .dumping b)
    (hasking : Asking c b (s.infos c) (s.up c) (s.down c)) (hdown : s.down c = []) :
    Flow (s.setUp c []) := by
  refine h.update c h.nonempty (fun x hx => by simp [hx]) (h.pos c) ?_
    (h.tokens_zero_of_busy (.inl (by rw [hup]; nofun))) fun a => ?_
  · refine linkOk_asking hmode ?_ ((h.link c).asking hmode).2
    simp only [Sys.setUp_infos, Sys.setUp_up, if_true, Sys.setUp_down]
    exact ⟨hasking.infoOk, hasking.noNul, hasking.target, .inl rfl, .inl hdown, .inl rfl⟩
  · simp [tokens]

theorem Flow.answered (h : Flow s) (hmode : (s.procs c).mode = .dumping b) (hup : s.up c = [])
    (hdown : s.down c = []) (hzero : ∀ x, tokens s x c = 0) (htype : e.evType = .dumpRep)
    (hid : e.id = c) (hpeer : e.peer = b) : Flow (s.send [e]) := by
  obtain ⟨hasking, hnone⟩ := (h.link c).asking hmode
  have hother : ∀ x, x ≠ c → [e].filter (fun e => decide (e.id = x)) = [] := by
    intro x hx
    simp [hid, hx.symm]
  have hself : [e].filter (fun e => decide (e.id = c)) = [e] := by simp [hid]
  refine h.update c h.nonempty (fun x hx => ?_) (h.pos c) ?_ hzero fun a => ?_
  · rw [Sys.send_down, hother x hx, append_nil]
    exact ⟨rfl, rfl, rfl, rfl, rfl⟩
  · refine linkOk_asking hmode ?_ hnone
    rw [Sys.send_down, hself, hdown]
    exact ⟨hasking.infoOk, hasking.noNul, hasking.target, .inl hup,
      .inr ⟨e, rfl, htype, hid, hpeer⟩,
      .inl hup⟩
  · have hreq : reqsFor a [e] = 0 := reqsFor_cons_other _ (by simp [htype])
    simp only [tokens, Sys.send_infos, Sys.send_down, Sys.send_up, hself, hdown, nil_append,
      hreq]
    omega

theorem Flow.queued (h : Flow s) (hmode : (s.procs c).mode = .dumping b) (hup : s.up c = [])
    (hdown : s.down c = []) (hzero : ∀ x, tokens s x c = 0) (hinfo : s.infos b = some i)
    (hid : e.id = b) (hreq : IsDumpReq e) (hpeer : e.peer = c) :
    Flow (s.setInfo b (some { i with qdump := i.qdump ++ [e] })) := by
  have hlink := h.served hinfo
  have hactive := hlink.active_of_info
  have hasked : ∀ a, askedIn a [e] = if a = c then 1 else 0 := by
    intro a
    rw [askedIn, countP_singleton, hpeer]
    by_cases ha : a = c
    · simp [ha]
    · simp [ha, Ne.symm ha]
  have htok : ∀ x a, tokens (s.setInfo b (some { i with qdump := i.qdump ++ [e] })) x a =
      tokens s x a + if x = b ∧ a = c then 1 else 0 := by
    intro x a
    unfold tokens
    rw [Sys.setInfo_infos, Sys.setInfo_down, Sys.setInfo_up]
    by_cases hx : x = b
    · subst hx
      simp only [if_true, hinfo, infoTokens, askedIn_append, hasked a, true_and]
      omega
    · simp [hx]
  refine ⟨h.nonempty, h.pos, fun x => ?_, fun x a => ?_, fun x a hne => ?_⟩
  · by_cases hx : x = b
    · subst hx
      rw [Sys.setInfo_infos, if_pos rfl]
      exact linkOk_active hactive (hlink.active hactive).1 (hlink.serving.dumpReq hid hreq)
    · rw [Sys.setInfo_infos, if_neg hx]
      exact h.link x
  · rw [htok]
    split
    · next hxa =>
      rw [hxa.2, hzero x]
    · exact h.once x a
  · rw [htok] at hne
    split at hne
    · next hxa =>
      rw [hxa.1, hxa.2]
      exact ⟨hmode, hup, hdown⟩
    · exact h.asked x a hne

theorem Flow.dispense {s' : Sys} (h : Flow s) (hup : s.up c = evt :: rest)
    (horder : Orderly s (.dispense c)) (hdisp : Dispensed (s.setUp c rest) evt s') : Flow s' := by
  have hbusy : ∀ b, tokens s b c = 0 := h.tokens_zero_of_busy (.inl (by rw [hup]; nofun))
  have hsetUp : ∀ x, tokens (s.setUp c []) x c = 0 := by
    intro x
    have hle : tokens (s.setUp c []) x c ≤ tokens s x c := by
      unfold tokens
      rw [Sys.setUp_infos, Sys.setUp_down, Sys.setUp_up]
      split <;> simp
    have := hbusy x
    omega
  cases hdisp with
  | rejected htype =>
    obtain ⟨b, hmode, hasking, -, rfl, hdown⟩ := h.asking_of_dumpReq hup htype
    exact h.taken hup hmode hasking hdown
  | noTarget htype hacc hinfo =>
    obtain ⟨b, hmode, hasking, rfl, rfl, hdown⟩ := h.asking_of_dumpReq hup htype
    have hpeer : (dumpRequest c b).peer = b := cstr_append_nul hasking.target
    have hswap : (dumpRequest c b).swapIdData.peer = c := Evt.swapIdData_peer hasking.noNul
    have hid : (dumpRequest c b).swapIdData.id = b := by rw [Evt.swapIdData_id, hpeer]
    refine (h.taken hup hmode hasking hdown).answered hmode (by simp) hdown hsetUp rfl ?_ ?_
    · show (dumpRequest c b).swapIdData.swapIdData.id = c
      rw [Evt.swapIdData_id, hswap]
    · show (dumpRequest c b).swapIdData.swapIdData.peer = b
      rw [Evt.swapIdData_peer (by rw [hid]; exact hasking.target), hid]
  | dumpReq i htype hacc hinfo =>
    obtain ⟨b, hmode, hasking, rfl, rfl, hdown⟩ := h.asking_of_dumpReq hup htype
    have hpeer : (dumpRequest c b).peer = b := cstr_append_nul hasking.target
    rw [hpeer] at hinfo ⊢
    refine (h.taken hup hmode hasking hdown).queued hmode (by simp) hdown hsetUp hinfo ?_ ?_ ?_
    · rw [Evt.swapIdData_id, hpeer]
    · exact ⟨by simp [htype], by rw [Evt.swapIdData_evState]; rfl⟩
    · exact Evt.swapIdData_peer hasking.noNul
  | dumpRep i htype hinfo =>
    obtain ⟨hactive, hclient, hserver, hfrom, -⟩ := h.active_of_event hup (by simp [htype])
    rw [hfrom.1] at hinfo ⊢
    rw [Sys.setUp_infos] at hinfo
    rw [hinfo] at hserver
    refine h.update c h.nonempty (fun x hx => by simp [hx]) (h.pos c) ?_ hbusy fun a => ?_
    · simpa using linkOk_serving hactive hclient.tail (Serving.dumpRep hserver hfrom.1 htype)
    · simp only [tokens, Sys.setInfo_infos, Sys.setInfo_down, Sys.setInfo_up, Sys.setUp_down,
        Sys.setUp_up, if_true, hinfo, hup, infoTokens, askedIn_append, repsFor_cons_rep _ htype]
      omega
  | request i htype hinfo =>
    obtain ⟨hactive, hclient, hserver, hfrom, hkind⟩ := h.active_of_event hup (by
      rcases htype with ht | ht <;> simp [ht])
    have hreq : evt.evType = .incrementReq := by
      rcases hkind with hk | hk
      · exact hk
      · rcases htype with ht | ht <;> rw [ht] at hk <;> cases hk
    rw [hfrom.1] at hinfo ⊢
    rw [Sys.setUp_infos] at hinfo
    rw [hinfo] at hserver
    have hwait : i.state = .wait → i.qevts = [] → evt.isRestart = true := fun hstate hqevts =>
      horder i hinfo hstate hqevts evt (by rw [hup]; rfl) hreq
    refine h.update c h.nonempty (fun x hx => by simp [hx]) (h.pos c) ?_ hbusy fun a => ?_
    · simpa using linkOk_serving hactive hclient.tail (Serving.request hserver hfrom hreq hwait)
    · simp only [tokens, Sys.setInfo_infos, Sys.setInfo_down, Sys.setInfo_up, Sys.setUp_down,
        Sys.setUp_up, if_true, hinfo, hup, infoTokens]
      rw [repsFor_cons_other _ (by simp [hreq])]
  | register htype hinfo =>
    obtain ⟨hactive, hclient, hserver, hfrom, -⟩ := h.active_of_event hup htype
    rw [hfrom.1] at hinfo ⊢
    rw [Sys.setUp_infos] at hinfo
    rw [hinfo] at hserver
    have hunserved : Unserved (evt :: rest) (s.down c) (s.procs c) := hserver
    have hreq := (isRestart_iff.mp hunserved.isRestart).1
    refine h.update c (h.nonempty.of_same (Queue.sameMessages_registerConsumer ..))
      (fun x hx => by simp [hx]) ?_ ?_ hbusy fun a => ?_
    · simpa using h.pos c
    · simpa using linkOk_serving hactive hclient.tail (hunserved.register hfrom)
    · have hqdump : infoTokens a (some (enqueue (newInfo c) evt)) = 0 := by
        rw [enqueue_restart _ hunserved.isRestart]
        rfl
      have hrep : repsFor a (evt :: rest) = repsFor a rest := repsFor_cons_other _ (by simp [hreq])
      simp only [tokens, Sys.setInfo_infos, Sys.setInfo_down, Sys.setInfo_up, Sys.setUp_down,
        Sys.setUp_up, if_true, hinfo, hup, hqdump, hrep]
      omega

--
-- The worker
--

theorem Flow.worked (h : Flow s) {r : Served} (hinfo : s.infos c = some i)
    (hsame : Queue.SameMessages s.queue r.queue)
    (hother : ∀ x, x ≠ c → r.queue.fetchPos x = s.queue.fetchPos x)
    (hpos : 1 ≤ r.queue.fetchPos c ∧ r.queue.fetchPos c < u64Size) (hids : ∀ e ∈ r.sent, e.id = c)
    (hclient : ClientSide c (s.up c) (s.down c ++ r.sent) (s.procs c))
    (hserver : ServerSide c (r.queue.fetchPos c) (s.up c) (s.down c ++ r.sent) (s.procs c) r.info)
    (htok : ∀ a, infoTokens a r.info + reqsFor a r.sent ≤ askedIn a i.qdump) :
    Flow (({ s with queue := r.queue }.setInfo c r.info).send r.sent) := by
  have hlink := h.served hinfo
  have hactive := hlink.active_of_info
  have hfilter : ∀ x, x ≠ c → r.sent.filter (fun e => decide (e.id = x)) = [] := by
    intro x hx
    rw [filter_eq_nil_iff]
    intro e he
    simp [hids e he, hx.symm]
  have hself : r.sent.filter (fun e => decide (e.id = c)) = r.sent := by
    rw [filter_eq_self]
    intro e he
    simp [hids e he]
  refine h.update c (h.nonempty.of_same hsame) (fun x hx => ?_) hpos ?_
    (h.tokens_zero_of_mode hactive.not_dumping) fun a => ?_
  · rw [Sys.send_down, hfilter x hx, append_nil]
    exact ⟨by simp [hx], rfl, rfl, rfl, hother x hx⟩
  · rw [Sys.send_down, hself, Sys.send_infos, Sys.setInfo_infos, if_pos rfl]
    exact linkOk_active hactive hclient hserver
  · have hle := htok a
    simp only [tokens, Sys.send_infos, Sys.setInfo_infos, if_true, Sys.send_down, hself,
      Sys.send_up,
      Sys.setInfo_down, Sys.setInfo_up, reqsFor_append, hinfo, infoTokens] at hle ⊢
    omega

theorem Flow.worked_silent (h : Flow s) {r : Served} (hinfo : s.infos c = some i)
    (hsent : r.sent = []) (hsame : Queue.SameMessages s.queue r.queue)
    (hother : ∀ x, x ≠ c → r.queue.fetchPos x = s.queue.fetchPos x)
    (hpos : 1 ≤ r.queue.fetchPos c ∧ r.queue.fetchPos c < u64Size)
    (hserver : ServerSide c (r.queue.fetchPos c) (s.up c) (s.down c) (s.procs c) r.info)
    (htok : ∀ a, infoTokens a r.info ≤ askedIn a i.qdump) :
    Flow (({ s with queue := r.queue }.setInfo c r.info).send r.sent) := by
  have hlink := h.served hinfo
  have hclient := (hlink.active hlink.active_of_info).1
  refine h.worked hinfo hsame hother hpos ?_ ?_ ?_ fun a => ?_
  · rw [hsent]
    exact fun e he => nomatch he
  · rw [hsent, append_nil]
    exact hclient
  · rw [hsent, append_nil]
    exact hserver
  · rw [hsent]
    exact htok a

theorem Flow.peer_ne (h : Flow s) (hinfo : s.infos c = some i) (he : e ∈ i.qdump) :
    tokens s c e.peer ≠ 0 ∧ e.peer ≠ c := by
  have htok : tokens s c e.peer ≠ 0 := by
    have hpos : 0 < askedIn e.peer i.qdump := countP_pos_iff.mpr ⟨e, he, by simp⟩
    unfold tokens
    rw [hinfo, infoTokens]
    omega
  refine ⟨htok, fun hself => ?_⟩
  have hlink := h.served hinfo
  have hmode := (h.asked c e.peer htok).1
  rw [hself] at hmode
  exact hlink.active_of_info.not_dumping c hmode

theorem Flow.dumpRepLoop (h : Flow s) (hinfo : s.infos c = some i) (hstate : i.state = .dump)
    (hqevts : i.qevts = []) :
    ∃ q', Pole.dumpRepLoop i.id i.qdump s.queue i.waits [] =
        .ok (q', i.waits + reqs i.qdump - reps i.qdump,
          i.qdump.map (dumpOut (s.queue.fetchPos c))) ∧
      Queue.SameMessages s.queue q' ∧
      ∀ x, q'.fetchPos x =
        if ∃ e ∈ i.qdump, e.evType = .dumpRep ∧ e.evState = .succ ∧ e.peer = x
        then s.queue.fetchPos c else s.queue.fetchPos x := by
  have hlink := h.served hinfo
  obtain ⟨-, hdump, hflow⟩ := hlink.serving.dumpFlow hstate hqevts
  have hbound := hflow.bound
  have hloop := dumpRepLoop_eq s.queue i.waits [] hdump (c := c)
    (fun e he _ => (h.peer_ne hinfo he).2) (by omega)
  rw [hlink.serving.id]
  simpa using hloop

theorem dumpOut_self {p : Nat} (hid : ∀ e ∈ l, e.id = c) (hdump : ∀ e ∈ l, DumpEvt e)
    (hpeer : ∀ e ∈ l, e.peer ≠ c) :
    (l.map (dumpOut p)).filter (fun e => decide (e.id = c)) =
      l.filter fun e => decide (e.evType = .dumpReq) := by
  induction l with
  | nil => rfl
  | cons e l ih =>
    have ih := ih (fun x hx => hid x (.tail _ hx))
      (fun x hx => hdump x (.tail _ hx))
      fun x hx => hpeer x (.tail _ hx)
    rw [map_cons, filter_cons, filter_cons, ih]
    unfold dumpOut
    rcases hdump e (.head _) with ⟨htype, -⟩ | htype
    · simp [htype, hid e (.head _)]
    · simp [htype, hpeer e (.head _)]

theorem dumpOut_other {x : Bytes} {p : Nat} (hid : ∀ e ∈ l, e.id = c) (hdump : ∀ e ∈ l, DumpEvt e)
    (hx : x ≠ c) :
    (l.map (dumpOut p)).filter (fun e => decide (e.id = x)) =
      (l.filter fun e => decide (e.evType = .dumpRep) && decide (e.peer = x)).map
        (dumpAnswer p) := by
  induction l with
  | nil => rfl
  | cons e l ih =>
    have ih := ih (fun x hx => hid x (.tail _ hx))
      fun x hx => hdump x (.tail _ hx)
    rw [map_cons, filter_cons, filter_cons, ih]
    unfold dumpOut
    rcases hdump e (.head _) with ⟨htype, -⟩ | htype
    · simp [htype, hid e (.head _), hx.symm]
    · by_cases hpeer : e.peer = x
      · simp [htype, hpeer]
      · simp [htype, hpeer]

theorem reqsFor_filter (a : Bytes) (l : List Evt) :
    reqsFor a (l.filter fun e => decide (e.evType = .dumpReq)) = reqsFor a l := by
  unfold reqsFor
  rw [countP_filter]
  congr 1
  funext e
  by_cases h : e.evType = .dumpReq <;> simp [h]

/-- An asking client is answered by the dump loop of its target at most once,
and then its token is gone. -/
theorem Flow.answers (h : Flow s) {x : Bytes} (hinfo : s.infos c = some i)
    (hdump : ∀ e ∈ i.qdump, DumpEvt e) :
    (i.qdump.filter fun e => decide (e.evType = .dumpRep) && decide (e.peer = x)) = [] ∧
      repsFor x i.qdump = 0 ∨
    (∃ e ∈ i.qdump, (i.qdump.filter fun e => decide (e.evType = .dumpRep) && decide (e.peer = x)) =
        [e] ∧ e.evType = .dumpRep ∧ e.peer = x) ∧
      tokens s c x = 1 ∧ repsFor x i.qdump = 1 := by
  have hlen : repsFor x i.qdump = (i.qdump.filter fun e =>
      decide (e.evType = .dumpRep) && decide (e.peer = x)).length := countP_eq_length_filter
  have hle : repsFor x i.qdump ≤ tokens s c x := by
    unfold tokens
    rw [hinfo, infoTokens, askedIn_eq hdump]
    omega
  have honce := h.once c x
  rcases hfilter : i.qdump.filter fun e => decide (e.evType = .dumpRep) && decide (e.peer = x)
    with _ | ⟨e, l⟩
  · rw [hfilter] at hlen
    exact .inl ⟨hfilter, hlen⟩
  · rw [hfilter, length_cons] at hlen
    obtain rfl : l = [] := eq_nil_of_length_eq_zero (by omega)
    have he : e ∈ i.qdump.filter fun e => decide (e.evType = .dumpRep) && decide (e.peer = x) := by
      rw [hfilter]
      exact .head _
    obtain ⟨hmem, hprop⟩ := mem_filter.mp he
    simp only [Bool.and_eq_true, decide_eq_true_eq] at hprop
    exact .inr ⟨⟨e, hmem, hfilter, hprop⟩, by omega, by simpa using hlen⟩

theorem Flow.tokens_answered (h : Flow s) {j : ClientInfo} (hinfo : s.infos c = some i)
    (hdump : ∀ e ∈ i.qdump, DumpEvt e) (hnil : j.qdump = []) (p : Nat) (a : Bytes) :
    tokens (({ s with queue := q }.setInfo c (some j)).send (i.qdump.map (dumpOut p))) c a +
      repsFor a i.qdump = tokens s c a := by
  have hlink := h.served hinfo
  have hself := dumpOut_self (p := p) hlink.serving.qdump hdump fun e he => (h.peer_ne hinfo he).2
  have hzero : askedIn a [] = 0 := rfl
  simp only [tokens, Sys.send_infos, Sys.setInfo_infos, if_true, Sys.send_down, hself,
    Sys.send_up, Sys.setInfo_down, Sys.setInfo_up, reqsFor_append, hinfo, infoTokens,
    reqsFor_filter, askedIn_eq hdump, hnil, hzero]
  omega

/-- **Dump events.** The worker passes dump requests on and answers the clients
that asked. -/
theorem Flow.dumpRep (h : Flow s) {q' : Queue} {waits : Nat} {sent : List Evt}
    (hinfo : s.infos c = some i) (hstate : i.state = .dump) (hqevts : i.qevts = [])
    (hloop : Pole.dumpRepLoop i.id i.qdump s.queue i.waits [] = .ok (q', waits, sent)) :
    Flow (({ s with queue := q' }.setInfo c (some { i with
      qdump := [], waits, state := if waits = 0 then .wait else .dump })).send sent) := by
  have hlink := h.served hinfo
  have hactive := hlink.active_of_info
  have hserving := hlink.serving
  obtain ⟨-, hdump, -⟩ := hserving.dumpFlow hstate hqevts
  obtain ⟨_, hloop₁, hsame, hpos⟩ := h.dumpRepLoop hinfo hstate hqevts
  rw [hloop₁] at hloop
  cases hloop
  -- to the client itself go the requests, to the others the answers
  have hself := dumpOut_self (p := s.queue.fetchPos c) hserving.qdump hdump
    fun e he => (h.peer_ne hinfo he).2
  have hother := fun x (hx : x ≠ c) => dumpOut_other (p := s.queue.fetchPos c) hserving.qdump hdump
    hx
  have hreqs : ∀ e ∈ i.qdump.filter (fun e => decide (e.evType = .dumpReq)), e ∈ i.qdump ∧
      IsDumpReq e := by
    intro e he
    obtain ⟨hmem, htype⟩ := mem_filter.mp he
    have htype : e.evType = .dumpReq := by simpa using htype
    rcases hdump e hmem with hreq | hrep
    · exact ⟨hmem, hreq⟩
    · rw [htype] at hrep
      cases hrep
  have hpos_c : q'.fetchPos c = s.queue.fetchPos c := by
    rw [hpos c, if_neg]
    rintro ⟨e, he, -, -, hpeer⟩
    exact (h.peer_ne hinfo he).2 hpeer
  -- whoever is answered asked for a dump of `c`
  have hdown : ∀ x, x ≠ c → repsFor x i.qdump = 0 →
      (s.down x ++ (i.qdump.map (dumpOut (s.queue.fetchPos c))).filter fun e => decide (e.id = x)) =
        s.down x := by
    intro x hx hzero
    rcases h.answers (x := x) hinfo hdump with ⟨hnil, -⟩ | ⟨-, -, hone⟩
    · rw [hother x hx, hnil, map_nil, append_nil]
    · omega
  set s' := (({ s with queue := q' }.setInfo c (some { i with
      qdump := [],
      waits := i.waits + reqs i.qdump - reps i.qdump,
      state := if i.waits + reqs i.qdump - reps i.qdump = 0 then .wait else .dump })).send
        (i.qdump.map (dumpOut (s.queue.fetchPos c)))) with hs'
  have htok_c : ∀ a, tokens s' c a + repsFor a i.qdump = tokens s c a :=
    h.tokens_answered hinfo hdump rfl _
  have htok_ne : ∀ b, b ≠ c → ∀ a, tokens s' b a = tokens s b a := by
    intro b hb a
    have hreq : reqsFor a ((i.qdump.filter fun e => decide (e.evType = .dumpRep) &&
        decide (e.peer = b)).map (dumpAnswer (s.queue.fetchPos c))) = 0 := by
      refine reqsFor_eq_zero fun e he => ?_
      obtain ⟨e', he', rfl⟩ := mem_map.mp he
      have htype := (mem_filter.mp he').2
      simp only [Bool.and_eq_true, decide_eq_true_eq] at htype
      simp [htype.1]
    simp only [hs', tokens, Sys.send_infos, Sys.setInfo_infos, if_neg hb, Sys.send_down,
      hother b hb,
      Sys.send_up, Sys.setInfo_down, Sys.setInfo_up, reqsFor_append, hreq, Nat.add_zero]
  refine ⟨h.nonempty.of_same hsame, fun x => ?_, fun x => ?_, fun b a => ?_, fun b a hne => ?_⟩
  · show 1 ≤ q'.fetchPos x ∧ q'.fetchPos x < u64Size
    rw [hpos x]
    split
    · exact h.pos c
    · exact h.pos x
  · by_cases hx : x = c
    · subst hx
      show LinkOk x (q'.fetchPos x) _ _ _ _
      rw [hpos_c, hs', Sys.send_infos, Sys.setInfo_infos, if_pos rfl, Sys.send_down, hself]
      refine linkOk_serving hactive ?_ ?_
      · exact (hlink.active hactive).1.sendDumps (fun e he => hserving.qdump e (hreqs e he).1)
          fun e he => (hreqs e he).2
      · exact hserving.passDumps hstate hqevts (fun e he => (hreqs e he).2)
          countP_eq_length_filter.symm rfl
    · have hold := h.link x
      rw [hs', Sys.send_infos, Sys.setInfo_infos, if_neg hx, Sys.send_down]
      rcases h.answers (x := x) hinfo hdump with ⟨hnil, -⟩ | ⟨⟨e, he, hone, htype, hpeer⟩, htok, -⟩
      · -- nothing for this client: its position is its own, too
        have hpos_x : q'.fetchPos x = s.queue.fetchPos x := by
          rw [hpos x, if_neg]
          rintro ⟨e, he, htype, -, hpeer⟩
          have hmem : e ∈ i.qdump.filter fun e =>
              decide (e.evType = .dumpRep) && decide (e.peer = x) :=
            mem_filter.mpr ⟨he, by simp [htype, hpeer]⟩
          rw [hnil] at hmem
          cases hmem
        show LinkOk x (q'.fetchPos x) _ _ (s.down x ++ _) _
        rw [hpos_x, hother x hx, hnil, map_nil, append_nil]
        exact hold
      · obtain ⟨hmode, hup, hdown⟩ := h.asked c x (by omega)
        obtain ⟨hasking, hnone⟩ := hold.asking hmode
        refine linkOk_asking hmode ?_ hnone
        show Asking x c (s.infos x) (s.up x) (s.down x ++ _)
        rw [hother x hx, hone, hdown, hup]
        refine ⟨hasking.infoOk, hasking.noNul, hasking.target, .inl rfl, .inr ⟨_, rfl, ?_, ?_, ?_⟩,
          .inl rfl⟩
        · rw [dumpAnswer_evType, htype]
        · rw [dumpAnswer_id, hpeer]
        · rw [dumpAnswer_peer (by rw [hserving.qdump e he]; exact hasking.target),
            hserving.qdump e he]
  · by_cases hb : b = c
    · subst hb
      have := htok_c a
      have := h.once b a
      omega
    · rw [htok_ne b hb a]
      exact h.once b a
  · have hold : tokens s b a ≠ 0 := by
      by_cases hb : b = c
      · subst hb
        have := htok_c a
        omega
      · rw [← htok_ne b hb a]
        exact hne
    obtain ⟨hmode, hup, hdown_a⟩ := h.asked b a hold
    have ha : a ≠ c := by
      rintro rfl
      exact hactive.not_dumping b hmode
    have hzero : repsFor a i.qdump = 0 := by
      rcases h.answers (x := a) hinfo hdump with ⟨-, hzero⟩ | ⟨-, htok, hone⟩
      · exact hzero
      · -- an answered client has no token left, here or elsewhere
        obtain ⟨hmode', -, -⟩ := h.asked c a (by omega)
        obtain rfl : b = c := by
          rw [hmode] at hmode'
          exact Mode.dumping.inj hmode'
        have := htok_c a
        omega
    refine ⟨hmode, hup, ?_⟩
    rw [hs', Sys.send_down]
    exact (hdown a ha hzero).trans hdown_a

theorem syncFrom_qdump (q : Queue) (i : ClientInfo) (evt : Evt) :
    (syncFrom q i evt).qdump = i.qdump := by
  unfold syncFrom
  split <;> rfl

theorem Flow.work (h : Flow s) {r : Served} (hinfo : s.infos c = some i)
    (htask : TaskStep s.queue i r) (horder : Orderly s (.work c)) :
    Flow (({ s with queue := r.queue }.setInfo c r.info).send r.sent) := by
  have hlink := h.served hinfo
  have hactive := hlink.active_of_info
  have hserving := hlink.serving
  have hclient := (hlink.active hactive).1
  have horder := horder i hinfo
  cases htask with
  | idle =>
    exact h.worked_silent hinfo rfl (.refl _) (fun _ _ => rfl) (h.pos c) hserving
      fun a => Nat.le_refl _
  | restart evt rest q' hstate hqevts hevt hq =>
    have hmem : evt ∈ i.request := by
      unfold ClientInfo.request
      rw [if_pos hstate, hqevts]
      rfl
    have hfrom := hserving.qevts evt (by rw [hqevts]; exact .head _)
    have hsame : Queue.SameMessages s.queue q' := by
      rw [hq]
      split
      · exact .refl _
      · exact Queue.sameMessages_updateThat ..
    have hpos' : q'.fetchPos c = startPos s.queue evt := by
      unfold startPos
      rw [hq, hserving.id, hfrom.1]
      split
      · rfl
      · rw [Queue.fetchPos_updateThat, if_pos rfl]
    have hrange : 1 ≤ startPos s.queue evt ∧ startPos s.queue evt < u64Size := by
      unfold startPos
      split
      · exact h.pos evt.id
      · exact ⟨by omega, hfrom.2⟩
    refine h.worked_silent hinfo rfl hsame (fun x hx => ?_) ?_ ?_ fun a => Nat.zero_le _
    · rw [hq, hserving.id]
      split
      · rfl
      · rw [Queue.fetchPos_updateThat, if_neg hx]
    · rw [hpos']
      exact hrange
    · refine hserving.restart q' hqevts ?_
      rw [hpos']
      exact (horder.1 evt hmem hevt).waitFlow hclient hrange.1
  | answer evt rest hstate hqevts htype hsucc hzero hseq =>
    obtain ⟨-, -, hflow⟩ := hserving.incrFlow hstate hqevts (not_isRestart (.inr (by simp [hsucc])))
    rw [hqevts, cons_append] at hflow
    obtain ⟨hreply, -, -⟩ := hflow.head ⟨htype, hsucc⟩
    have hpos : (s.queue.updateThat c evt.taskSeq).fetchPos c = s.queue.fetchPos c + 1 := by
      rw [Queue.fetchPos_updateThat, if_pos rfl, hreply.2.1]
    rw [hserving.id]
    refine h.worked_silent hinfo rfl (Queue.sameMessages_updateThat ..) (fun x hx => ?_) ?_ ?_
      fun a => ?_
    · rw [Queue.fetchPos_updateThat, if_neg hx]
    · rw [hpos]
      exact ⟨by omega, hreply.2.2⟩
    · have hanswer := hserving.answer _ hpos hstate hqevts ⟨htype, hsucc⟩
      rw [hserving.id] at hanswer
      rw [hpos]
      exact hanswer
    · show askedIn a (syncFrom _ _ evt).qdump ≤ _
      rw [syncFrom_qdump]
  | stop evt rest st hstate hqevts htype hfail hst =>
    exact h.worked_silent hinfo rfl (.refl _) (fun _ _ => rfl) (h.pos c)
      (hserving.stop hstate hqevts hfail hst) fun a => Nat.le_refl _
  | check evt rest hstate hqevts hevt =>
    exact h.worked_silent hinfo rfl (.refl _) (fun _ _ => rfl) (h.pos c)
      (hserving.check hqevts hevt) fun a => Nat.zero_le _
  | dumpReq evt rest hstate hqevts hqdump htype hnone =>
    have hid : ∀ e ∈ [evt], e.id = c := by
      intro e he
      rw [mem_singleton.mp he]
      exact hserving.qdump evt (by rw [hqdump]; exact .head _)
    have hsettled := horder.2.1 hstate hqevts (by rw [hqdump]; exact cons_ne_nil _ _)
    refine h.worked hinfo (.refl _) (fun _ _ => rfl) (h.pos c) hid
      (hclient.sendDumps hid fun e he => ?_) (hserving.sendDump hstate hqevts hqdump hsettled)
      fun a => ?_
    · rw [mem_singleton.mp he]
      exact ⟨htype, hnone⟩
    · show askedIn a rest + reqsFor a [evt] ≤ askedIn a i.qdump
      rw [hqdump, askedIn_cons, reqsFor_cons_req _ htype, reqsFor_nil]
      omega
  | incrReq sent hstate hqevts hqdump hloop =>
    obtain ⟨-, hbatch, -, hflow⟩ := hserving.waitFlow hstate hqevts
    obtain ⟨hne, hsent, hid⟩ := sent_increments hbatch (h.pos c).2 hloop
    refine h.worked hinfo (.refl _) (fun _ _ => rfl) (h.pos c) hid
      (hclient.sendBatch hid hflow.below hsent)
      (hserving.sendBatch hclient (h.pos c).1 hstate hqevts hqdump hne hsent) fun a => ?_
    rw [reqsFor_eq_zero fun e he => by simp [(hsent.kind e he).1]]
    exact Nat.le_refl _
  | dumpRep q' waits sent hstate hqevts hloop => exact h.dumpRep hinfo hstate hqevts hloop
  | leave q' hstate hq =>
    have hpos : ∀ x, q'.fetchPos x = s.queue.fetchPos x ∨ x = c ∧ q'.fetchPos x = 1 := by
      intro x
      rcases hq with rfl | rfl
      · exact .inl rfl
      · rw [Queue.fetchPos_unregisterConsumer, hserving.id]
        split
        · next hx => exact .inr ⟨hx, rfl⟩
        · exact .inl rfl
    have hsame : Queue.SameMessages s.queue q' := by
      rcases hq with rfl | rfl
      · exact .refl _
      · exact ⟨rfl, rfl, rfl⟩
    refine h.worked_silent hinfo rfl hsame
      (fun x hx => (hpos x).resolve_right fun hc => hx hc.1) ?_ ?_ fun a => Nat.zero_le _
    · rcases hpos c with heq | ⟨-, heq⟩
      · rw [heq]
        exact h.pos c
      · rw [heq]
        decide
    · exact hserving.leave hstate (horder.2.2 hstate)

--
-- Steps and runs
--

/-- **Server restart.** The states of the clients are lost, and so are the dump
requests in them. -/
theorem Flow.serverRestart (h : Flow s) (hquiet : ServerQuiet s) :
    Flow { s with infos := fun _ => none, queue := s.queue.pushFail } := by
  have hle : ∀ b a, tokens { s with infos := fun _ => none, queue := s.queue.pushFail } b a ≤
      tokens s b a := by
    intro b a
    show 0 + reqsFor a (s.down b) + repsFor a (s.up b) ≤ tokens s b a
    unfold tokens
    omega
  refine ⟨h.nonempty, h.pos, fun c => ?_, fun b a => Nat.le_trans (hle b a) (h.once b a),
    fun b a hne => h.asked b a (by have := hle b a; omega)⟩
  have hlink := h.link c
  cases hmode : (s.procs c).mode with
  | idle =>
    unfold LinkOk at hlink ⊢
    rw [hmode] at hlink ⊢
    exact ⟨rfl, hlink.2⟩
  | dumping b =>
    unfold LinkOk at hlink ⊢
    rw [hmode] at hlink ⊢
    obtain ⟨hasking, hnone⟩ := hlink
    exact ⟨⟨rfl, hasking.noNul, hasking.target, hasking.upOk, hasking.downOk, hasking.one⟩, hnone⟩
  | incr | gone =>
    have hactive : (s.procs c).mode.Active := by
      rw [hmode]
      first | exact .inl rfl | exact .inr rfl
    obtain ⟨hdown, hup⟩ := hquiet c hactive
    exact linkOk_active hactive (hlink.active hactive).1 ⟨pending_of_all hup, fun _ _ => hdown⟩

theorem Flow.step {s' : Sys} {a : Action} (h : Flow s) (horder : Orderly s a)
    (hserver : a = .serverRestart → ServerQuiet s) (hstep : Step s a s') : Flow s' := by
  cases hstep with
  | skip => exact h
  | push data =>
    exact h.queue (h.nonempty.pushTail data) (Queue.fetchPos_pushTail s.queue data)
  | pushRecord data =>
    exact h.queue (h.nonempty.pushRecord data) (Queue.fetchPos_pushRecord s.queue data)
  | pushCount => exact h.queue h.nonempty.pushCount (Queue.fetchPos_pushCount s.queue)
  | pushFail => exact h.queue h.nonempty fun c => rfl
  | startIncr c seq fetchFrom hmode hfrom => exact h.startIncr seq fetchFrom hmode
  | startDump a b hmode => exact h.startDump hmode
  | dispense c evt rest s' hup hdisp => exact h.dispense hup horder hdisp
  | work c i r hinfo htask => exact h.work hinfo htask horder
  | recv c out evt rest p reply hmode hdown hloop => exact h.recv hmode hdown hloop
  | recvDump a b evt rest hmode hdown => exact h.recvDump hmode hdown
  | crash c point rest hmode hdown =>
    have hsub : rest.Sublist (s.down c) := by
      rcases hdown with rfl | rfl
      · exact .refl _
      · exact tail_sublist _
    exact h.crash hmode hsub rfl ((h.link c).active (.inl hmode)).1.seqsOk
  | crashHandled c out evt rest p reply hmode hdown hloop =>
    have hclient := ((h.link c).active (.inl hmode)).1
    rw [hdown] at hclient
    have hseqs : p.seqs.Pairwise (· < ·) := by
      obtain ⟨rfl, -⟩ | ⟨r, -, hid, -, htaken⟩ := hclient.turn hmode hloop
      · exact hclient.seqsOk
      · exact (hclient.recv hmode hid htaken).seqsOk
    refine h.crash hmode ?_ rfl hseqs
    rw [hdown]
    exact sublist_cons_self ..
  | serverRestart => exact h.serverRestart (hserver rfl)

theorem ClientSide.incrLoop_ok (h : ClientSide c up (evt :: rest) pr) (hmode : pr.mode = .incr)
    (out : Outcome) (e : Abort) : incrLoop pr out evt ≠ .error e := by
  intro hloop
  obtain ⟨-, hkind⟩ := h.downOk evt (.head _)
  rcases incrLoop_error hloop with ⟨-, htype, hlt⟩ | ⟨-, hincr, hdump⟩
  · have := h.next_ge hmode htype
    omega
  · rcases hkind with hk | hk
    · exact hincr hk.1
    · exact hdump hk.1

theorem Serving.head_type (h : Serving c pos i up down pr) (hqevts : i.qevts = evt :: rest)
    (hstate : i.state = .incr ∨ i.state = .wait ∨ i.state = .dump) :
    evt.evType = .incrementReq ∧ (i.state ≠ .incr → evt.evState = .none) := by
  have hrestart : HeadRestart i.qevts → evt.evType = .incrementReq ∧ evt.evState = .none := by
    intro hhead
    rw [hqevts] at hhead
    exact isRestart_iff.mp hhead.head
  have hphase := h.phase
  unfold Phase at hphase
  rcases hstate with hs | hs | hs <;> rw [hs] at hphase
  · refine ⟨?_, fun hne => absurd hs hne⟩
    obtain ⟨-, hhead | ⟨-, hflow⟩⟩ := hphase
    · exact (hrestart hhead).1
    · have hreplies := hflow.replies
      rw [hqevts] at hreplies
      exact Replies.mid (l := []) hreplies rfl
  · obtain ⟨-, -, hhead | ⟨hnil, -⟩⟩ := hphase
    · exact (hrestart hhead).imp_right fun hn _ => hn
    · rw [hqevts] at hnil
      cases hnil
  · obtain ⟨-, hhead | ⟨hnil, -⟩⟩ := hphase
    · exact (hrestart hhead).imp_right fun hn _ => hn
    · rw [hqevts] at hnil
      cases hnil

/-- **Assertions.** Under the invariant no assertion fails but `have == 1`. -/
theorem Flow.error {a : Action} {e : Abort} (h : Flow s) (herr : Pole.step s a = .error e) :
    e = .haveNotOne := by
  rcases step_error herr with ⟨c, i, -, hinfo, habort⟩ | ⟨c, out, evt, rest, hmode, hdown, hloop⟩
  · have hlink := h.served hinfo
    have hserving := hlink.serving
    cases habort with
    | notIncrReq evt rest hstate hqevts htype =>
      exact absurd (hserving.head_type hqevts hstate).1 htype
    | seqZero evt rest hstate hqevts hnone hzero =>
      obtain ⟨-, -, hflow⟩ := hserving.incrFlow hstate hqevts (not_isRestart (.inr hnone))
      have hreplies := hflow.replies
      rw [hqevts] at hreplies
      rcases hreplies with hr | ⟨hr, -⟩ | ⟨hr, -⟩
      · exact absurd (isRestart_iff.mp hr).2 hnone
      · have := hr.2.1
        omega
      · exact absurd hzero hr.2.2
    | seqNotNext evt rest hstate hqevts hsucc hseq =>
      obtain ⟨-, -, hflow⟩ :=
        hserving.incrFlow hstate hqevts (not_isRestart (.inr (by simp [hsucc])))
      have htype := (hserving.head_type hqevts (.inl hstate)).1
      rw [hqevts, cons_append] at hflow
      obtain ⟨⟨-, hnext, hlt⟩, -, -⟩ := hflow.head ⟨htype, hsucc⟩
      rw [hserving.id, Nat.mod_eq_of_lt hlt] at hseq
      exact absurd hnext hseq
    | chkNotRestart evt rest hstate hqevts hnone =>
      refine absurd ((hserving.head_type hqevts (.inr hstate)).2 ?_) hnone
      rcases hstate with hs | hs <;> simp [hs]
    | dumpReq evt rest hstate hqevts hqdump hevt =>
      obtain ⟨-, -, hreqs, -⟩ := hserving.waitFlow hstate hqevts
      exact absurd (hreqs (by rw [hqevts]; rfl) evt (by rw [hqdump]; exact .head _))
        hevt
    | incrReq _ hstate hqevts hqdump hloop =>
      have hbatch := (hserving.waitFlow hstate hqevts).2.1.2
      obtain ⟨evt, hmem, ⟨htype, -⟩ | ⟨-, -, he⟩ | ⟨hpull, -⟩⟩ := incrReqLoop_error hloop
      · obtain ⟨t, -, hrep, -⟩ := hbatch.mem hmem
        exact absurd hrep htype
      · exact he
      · exact absurd hpull h.nonempty.pullThat
    | dumpRep _ hstate hqevts hloop =>
      obtain ⟨q', hok, -⟩ := h.dumpRepLoop hinfo hstate hqevts
      rw [hok] at hloop
      cases hloop
  · have hclient := ((h.link c).active (.inl hmode)).1
    rw [hdown] at hclient
    exact absurd hloop (hclient.incrLoop_ok hmode out e)

theorem Initial.flow (h : Initial s) : Flow s where
  nonempty := ⟨h.nonempty, fun m hm => by rw [h.uncounted] at hm; cases hm⟩
  pos c := by
    have hroom := h.room
    obtain ⟨h1, hle⟩ := h.positions c
    have hmax : Xmq.XMQ_U64_MAX < u64Size := by decide
    exact ⟨h1, by omega⟩
  link c := by
    unfold LinkOk
    rw [h.procs c]
    exact ⟨h.infos c, h.up c, h.down c, h.handed c⟩
  once b a := by
    unfold tokens
    rw [h.infos b, h.down b, h.up b]
    exact Nat.zero_le 1
  asked b a hne := by
    unfold tokens at hne
    rw [h.infos b, h.down b, h.up b] at hne
    exact absurd rfl hne

end Supex.Pole
