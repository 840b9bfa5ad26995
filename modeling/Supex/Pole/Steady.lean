import Supex.Pole.Flow

/-!
# pole — processes that are started once

A client whose process is started once and does not die sends one start request,
before anything else. Then nothing of an earlier process is ever in the way, and
more can be said than on an arbitrary link: the server's counter is what was sent
and not answered, the numbers handed over are consecutive, and a dump stands for
all of them.

* `Calm.step` — every action under `CrashFree` keeps the invariant.

Main results: `Calm.orderly`, `waits_eq_unanswered`.
-/

namespace Supex.Pole

open Supex.Lib List

--
-- Answers
--

/-- The requests of a client that the server holds. -/
def held : Option ClientInfo → List Evt
  | none => []
  | some i => i.qevts

/-- The answers among the events of a client. -/
def answers (l : List Evt) : Nat := l.countP fun e => !e.isRestart

/-- The answers to increments among them. -/
def incrAnswers (l : List Evt) : Nat := l.countP fun e => e.evType = .incrementReq && !e.isRestart

/-- How many messages were sent to a client and are not answered; an answer the
server has not handled does not count as one. -/
def unanswered (i : ClientInfo) (up down : List Evt) : Nat :=
  down.length + answers (i.qevts ++ up) + reps i.qdump

@[simp] theorem answers_nil : answers [] = 0 := rfl

@[simp] theorem answers_append (l m : List Evt) : answers (l ++ m) = answers l + answers m :=
  countP_append ..

variable {pos : Nat} {down l rest up : List Evt} {pr : Proc} {i : ClientInfo} {c : Bytes} {s : Sys}
  {e evt : Evt} {info : Option ClientInfo}

theorem answers_singleton (h : e.isRestart = false) : answers [e] = 1 := by
  simp [answers, h]

theorem answers_cons (l : List Evt) (h : e.isRestart = false) :
    answers (e :: l) = answers l + 1 := by
  simp [answers, h]

@[simp] theorem incrAnswers_nil : incrAnswers [] = 0 := rfl

@[simp] theorem incrAnswers_append (l m : List Evt) :
    incrAnswers (l ++ m) = incrAnswers l + incrAnswers m := countP_append ..

theorem incrAnswers_cons (l : List Evt) (htype : e.evType = .incrementReq)
    (h : e.isRestart = false) : incrAnswers (e :: l) = incrAnswers l + 1 := by
  simp [incrAnswers, htype, h]

theorem incrAnswers_cons_other (l : List Evt) (htype : e.evType ≠ .incrementReq) :
    incrAnswers (e :: l) = incrAnswers l := by
  simp [incrAnswers, htype]

theorem answers_eq_length (h : hasRestart l = false) : answers l = l.length := by
  induction l with
  | nil => rfl
  | cons e l ih =>
    rw [hasRestart_cons, Bool.or_eq_false_iff] at h
    rw [answers_cons _ h.1, ih h.2, length_cons]

theorem Replies.incrAnswers {t : Nat} (h : Replies t l) (hcut : hasRestart l = false) :
    incrAnswers l = l.length := by
  have hall : ∀ e ∈ l, e.evType = .incrementReq ∧ e.isRestart = false := by
    intro e he
    obtain ⟨l₁, l₂, rfl⟩ := append_of_mem he
    rw [hasRestart_append, Bool.or_eq_false_iff, hasRestart_cons, Bool.or_eq_false_iff] at hcut
    exact ⟨h.mid hcut.1, hcut.2.1⟩
  unfold Pole.incrAnswers
  rw [countP_eq_length]
  intro e he
  simp [hall e he]

--
-- The invariant
--

/-- The one start request of a client is on its way, and nothing else is. -/
structure First (pos : Nat) (info : Option ClientInfo) (up down : List Evt) (pr : Proc) : Prop where
  mode : pr.mode = .incr
  evts : ∃ e, held info ++ up = [e] ∧ pr.fetchFrom = if e.taskSeq = 0 then pos else e.taskSeq
  down : down = []
  handed : pr.handed = []
  lastSeq : pr.lastSeq = 0
  lastType : pr.lastType ≠ .dumpReq
  info : ∀ i, info = some i → i.state = .incr ∧ i.waits = 0 ∧ ∀ e ∈ i.qdump, e.evType ≠ .dumpRep

/-- What the server knows of a client is exact: the counter, the position, and
whether its last event was a dump. -/
structure Exact (pos : Nat) (i : ClientInfo) (up down : List Evt) (pr : Proc) : Prop where
  counted : i.waits = unanswered i up down
  progress : hasRestart (i.qevts ++ up) = false →
    pr.fetchFrom + pr.handed.length = pos + incrAnswers (i.qevts ++ up)
  lastDump : ∀ e ∈ i.qdump ++ up, e.evType = .dumpRep → pr.lastType = .dumpReq

/-- A client whose process was started once. -/
structure Steady (pos : Nat) (info : Option ClientInfo) (up down : List Evt) (pr : Proc) :
    Prop where
  first : hasRestart (held info ++ up) = true → First pos info up down pr
  strict : pr.mode = .incr → unseen pr.lastSeq down = down
  order : pr.seqs = List.range' pr.fetchFrom pr.handed.length
  dumped : pr.lastType = .dumpReq → pr.dumpedAt = pr.seqs
  exact : ∀ i, info = some i → i.state ≠ .exit → i.state ≠ .ruin → Exact pos i up down pr

theorem seqs_length (p : Proc) : p.seqs.length = p.handed.length := length_map ..

theorem unseen_length_le (last : Nat) (l : List Evt) : (unseen last l).length ≤ l.length := by
  induction l generalizing last with
  | nil => exact Nat.le_refl 0
  | cons e l ih =>
    rw [unseen]
    split
    · split
      · exact Nat.le_succ_of_le (ih last)
      · exact Nat.succ_le_succ (ih e.taskSeq)
    · exact Nat.succ_le_succ (ih last)

theorem Steady.settled (h : Steady pos (some i) up down pr) (hstate : i.state = .wait)
    (hwaits : i.waits = 0) (hqevts : i.qevts = []) : up = [] ∧ down = [] ∧ reps i.qdump = 0 := by
  have hcount := (h.exact i rfl (by simp [hstate]) (by simp [hstate])).counted
  unfold unanswered at hcount
  rw [hwaits, hqevts, nil_append] at hcount
  have hcut : hasRestart up = false := by
    by_contra hcut
    -- before its first request is handled a client is in state INCR
    have hfirst := h.first (by simpa [held, hqevts] using hcut)
    have hincr := (hfirst.info i rfl).1
    rw [hstate] at hincr
    cases hincr
  rw [answers_eq_length hcut] at hcount
  exact ⟨eq_nil_of_length_eq_zero (by omega), eq_nil_of_length_eq_zero (by omega),
    by omega⟩

/-- What a living client can find in its channel: the next increment, or a dump
request while increments rest. -/
theorem Steady.next (h : Steady pos info up (evt :: rest) pr)
    (hserver : ServerSide c pos up (evt :: rest) pr info) (hmode : pr.mode = .incr) :
    ∃ i, info = some i ∧ i.state ≠ .exit ∧ i.state ≠ .ruin ∧ hasRestart (i.qevts ++ up) = false ∧
      (IsIncr evt ∧ evt.taskSeq = pr.fetchFrom + pr.handed.length ∧
        (∀ e ∈ i.qdump ++ up, e.evType ≠ .dumpRep) ∨ IsDumpReq evt) := by
  have hcut : hasRestart (held info ++ up) = false := by
    cases hcut : hasRestart (held info ++ up) with
    | false => rfl
    | true => exact nomatch (h.first hcut).down
  cases info with
  | none => exact nomatch hserver.downOk hmode hcut
  | some i =>
    have hcut : hasRestart (i.qevts ++ up) = false := hcut
    have hqcut : hasRestart i.qevts = false := by
      rw [hasRestart_append, Bool.or_eq_false_iff] at hcut
      exact hcut.1
    have hhead : ¬HeadRestart i.qevts := by
      intro hhead
      rw [hhead.1] at hqcut
      cases hqcut
    have hstrict := h.strict hmode
    have hphase := hserver.phase
    unfold Phase at hphase
    split at hphase
    · next hstate =>
      obtain ⟨hqdump, hflow⟩ := hphase.2.resolve_left hhead
      obtain ⟨-, -, hincr, -⟩ := hflow.synced ⟨hmode, hcut⟩
      rw [hstrict] at hincr
      have hprogress := (h.exact i rfl (by simp [hstate]) (by simp [hstate])).progress hcut
      rw [hflow.replies.incrAnswers hcut] at hprogress
      refine ⟨i, rfl, by simp [hstate], by simp [hstate], hcut,
        .inl ⟨hincr.1.1, ?_, fun e he => ?_⟩⟩
      · rw [hincr.1.2, hprogress]
      · rcases mem_append.mp he with he | he
        · simp [(hqdump hqcut e he).1]
        · -- nothing but answers to increments comes from the client
          obtain ⟨l₁, l₂, hup⟩ := append_of_mem he
          have hreplies := hflow.replies
          rw [hup, ← append_assoc] at hreplies
          have hcut₁ : hasRestart (i.qevts ++ l₁) = false := by
            rw [hup, ← append_assoc, hasRestart_append, Bool.or_eq_false_iff] at hcut
            exact hcut.1
          simp [hreplies.mid hcut₁]
    · next hstate =>
      obtain ⟨hwaits, -, hor⟩ := hphase
      exact nomatch (h.settled hstate hwaits (hor.resolve_left hhead).1).2.1
    · next hstate =>
      obtain ⟨hqevts, -, hflow⟩ := hphase.2.resolve_left hhead
      have hcut' : hasRestart up = false := by simpa [hqevts] using hcut
      obtain ⟨hdown, -, -⟩ := hflow.synced ⟨hmode, hcut'⟩
      rw [hstrict] at hdown
      exact ⟨i, rfl, by simp [hstate], by simp [hstate], hcut,
        .inr (hdown evt (.head _))⟩
    · rw [hphase.2 hmode] at hcut
      cases hcut

--
-- The client
--

theorem steady_start (pos : Nat) (c : Bytes) (seq : Nat) {fetchFrom : Nat}
    (hfrom : fetchFrom = if seq = 0 then pos else seq) :
    Steady pos none [firstRequest c seq] [] (.start .incr fetchFrom) where
  first _ := ⟨rfl, ⟨_, rfl, hfrom⟩, rfl, rfl, rfl, nofun, nofun⟩
  strict _ := rfl
  order := rfl
  dumped := nofun
  exact := nofun

theorem Steady.not_seen (h : Steady pos info up (evt :: rest) pr) (hmode : pr.mode = .incr)
    (htype : evt.evType = .incrementRep) : evt.taskSeq ≠ pr.lastSeq := by
  intro hseq
  have hstrict := h.strict hmode
  rw [unseen_cons_seen _ htype hseq] at hstrict
  have hle := unseen_length_le pr.lastSeq rest
  rw [hstrict, length_cons] at hle
  omega

theorem Steady.recv {reply : List Evt} {pr' : Proc} (h : Steady pos info up (evt :: rest) pr)
    (hclient : ClientSide c up (evt :: rest) pr)
    (hserver : ServerSide c pos up (evt :: rest) pr info) (hmode : pr.mode = .incr)
    (hloop : LoopStep pr evt pr' reply) : Steady pos info (up ++ reply) rest pr' := by
  obtain ⟨i, rfl, hexit, hruin, hcut, hkind⟩ := h.next hserver hmode
  have hold := h.exact i rfl hexit hruin
  have hcount := hold.counted
  have hprogress := hold.progress hcut
  unfold unanswered at hcount
  rw [length_cons] at hcount
  obtain ⟨-, -, htype, hseq⟩ | ⟨r, rfl, -, -, htaken⟩ := hclient.turn hmode hloop
  · exact absurd hseq (h.not_seen hmode htype)
  have hr := htaken.not_isRestart
  have hfrom : pr'.fetchFrom = pr.fetchFrom := by cases hloop <;> rfl
  have hcut' : hasRestart (i.qevts ++ (up ++ [r])) = false := by
    rw [← append_assoc, hasRestart_append, hcut]
    simp [hr]
  have hstrict : unseen pr'.lastSeq rest = rest := by
    have hold := h.strict hmode
    rw [htaken.unseen] at hold
    exact (List.cons.inj hold).2
  have hcount' : i.waits = unanswered i (up ++ [r]) rest := by
    unfold unanswered
    rw [← append_assoc, answers_append _ [r], answers_singleton hr]
    omega
  cases htaken with
  | incr hincr hnew htype htask hnone hseqs hlast =>
    obtain ⟨-, hnext, hnodump⟩ := hkind.resolve_right fun hd => hincr.not_isDumpReq hd
    have hlen : pr'.handed.length = pr.handed.length + 1 := by
      rw [← seqs_length, hseqs, length_append, seqs_length, length_singleton]
    refine ⟨fun hf => ?_, fun _ => hstrict, ?_, ?_, fun j hj _ _ => ?_⟩
    · have hf : hasRestart (i.qevts ++ (up ++ [r])) = true := hf
      rw [hcut'] at hf
      cases hf
    · rw [hseqs, h.order, hfrom, hlen, range'_concat, hnext, Nat.one_mul]
    · intro hlt
      cases hloop with
      | incr => cases hlt
      | dump _ _ _ htype' => exact nomatch hincr.1.symm.trans htype'
    · cases hj
      refine ⟨hcount', fun _ => ?_, fun e he hrep => ?_⟩
      · rw [hfrom, hlen, ← append_assoc, incrAnswers_append _ [r], incrAnswers_cons _ htype hr,
          incrAnswers_nil]
        omega
      · rw [← append_assoc] at he
        rcases mem_append.mp he with he | he
        · exact absurd hrep (hnodump e he)
        · rw [mem_singleton.mp he, htype] at hrep
          cases hrep
  | dump hreq htype hdata htask hseqs hlast =>
    have hlen : pr'.handed.length = pr.handed.length := by
      rw [← seqs_length, hseqs, seqs_length]
    have hdumped : pr'.lastType = .dumpReq ∧ pr'.dumpedAt = pr.seqs := by
      cases hloop with
      | incr _ _ htype' => exact nomatch htype'.symm.trans hreq.1
      | dump st dumpedAt _ _ hdump =>
        refine ⟨rfl, ?_⟩
        rcases hdump with ⟨hlt, -, hsame⟩ | ⟨-, -, hnew⟩
        · exact hsame.trans (h.dumped hlt)
        · exact hnew
    refine ⟨fun hf => ?_, fun _ => hstrict, ?_, fun _ => ?_, fun j hj _ _ => ?_⟩
    · have hf : hasRestart (i.qevts ++ (up ++ [r])) = true := hf
      rw [hcut'] at hf
      cases hf
    · rw [hseqs, h.order, hfrom, hlen]
    · rw [hdumped.2, hseqs]
    · cases hj
      refine ⟨hcount', fun _ => ?_, fun e he hrep => hdumped.1⟩
      rw [hfrom, hlen, ← append_assoc, incrAnswers_append _ [r],
        incrAnswers_cons_other _ (by simp [htype]), incrAnswers_nil]
      omega

--
-- The dispenser
--

theorem Steady.request (h : Steady pos (some i) (e :: up) down pr) :
    Steady pos (some { i with qevts := i.qevts ++ [e] }) up down pr := by
  have hsame : i.qevts ++ [e] ++ up = i.qevts ++ e :: up := by simp
  refine ⟨fun hf => ?_, h.strict, h.order, h.dumped, fun j hj hexit hruin => ?_⟩
  · have hfirst := h.first (by rw [← hf]; simp [held])
    refine ⟨hfirst.mode, ?_, hfirst.down, hfirst.handed, hfirst.lastSeq, hfirst.lastType, ?_⟩
    · show ∃ x, i.qevts ++ [e] ++ up = [x] ∧ _
      rw [hsame]
      exact hfirst.evts
    · intro j hj
      cases hj
      exact hfirst.info i rfl
  · cases hj
    have hold := h.exact i rfl hexit hruin
    refine ⟨?_, fun hcut => ?_, fun x hx => hold.lastDump x ?_⟩
    · have hcount := hold.counted
      unfold unanswered at hcount ⊢
      rw [hsame]
      exact hcount
    · rw [hsame] at hcut ⊢
      exact hold.progress hcut
    · rcases mem_append.mp hx with hx | hx
      · exact mem_append_left _ hx
      · exact mem_append_right _ (.tail _ hx)

theorem Steady.no_restart {m : List Evt} (h : Steady pos info up down pr)
    (hevts : held info ++ up = l ++ e :: m) (he : e.isRestart = false) :
    hasRestart (l ++ m) = false := by
  cases hcut : hasRestart (l ++ m) with
  | false => rfl
  | true =>
    have hall : hasRestart (held info ++ up) = true := by
      rw [hevts, hasRestart_append, hasRestart_cons, he, Bool.false_or, ← hasRestart_append, hcut]
    obtain ⟨x, hone, -⟩ := (h.first hall).evts
    rw [hevts] at hone
    have hlen := congrArg List.length hone
    rw [length_append, length_cons, length_singleton] at hlen
    have hl : l = [] := eq_nil_of_length_eq_zero (by omega)
    have hm : m = [] := eq_nil_of_length_eq_zero (by omega)
    rw [hl, hm] at hcut
    cases hcut

theorem Steady.dumpRep (h : Steady pos (some i) (e :: up) down pr) (htype : e.evType = .dumpRep) :
    Steady pos (some { i with qdump := i.qdump ++ [e] }) up down pr := by
  have her : e.isRestart = false := not_isRestart (.inl (by simp [htype]))
  have hcut := h.no_restart rfl her
  refine ⟨fun hf => ?_, h.strict, h.order, h.dumped, fun j hj hexit hruin => ?_⟩
  · have hf : hasRestart (i.qevts ++ up) = true := hf
    have hcut : hasRestart (i.qevts ++ up) = false := hcut
    rw [hf] at hcut
    cases hcut
  · cases hj
    have hold := h.exact i rfl hexit hruin
    refine ⟨?_, fun hcut => ?_, fun x hx => hold.lastDump x ?_⟩
    · have hcount := hold.counted
      have hreps : reps (i.qdump ++ [e]) = reps i.qdump + 1 := by simp [reps, htype]
      unfold unanswered at hcount
      rw [answers_append, answers_cons _ her] at hcount
      show i.waits = down.length + answers (i.qevts ++ up) + reps (i.qdump ++ [e])
      rw [answers_append, hreps]
      omega
    · have hprogress := hold.progress (by
        rw [hasRestart_append, hasRestart_cons, her, Bool.false_or, ← hasRestart_append]
        exact hcut)
      rw [incrAnswers_append, incrAnswers_cons_other _ (by simp [htype])] at hprogress
      rw [incrAnswers_append]
      exact hprogress
    · rw [append_assoc] at hx
      exact hx

theorem Steady.dumpReq (h : Steady pos (some i) up down pr) (htype : e.evType = .dumpReq) :
    Steady pos (some { i with qdump := i.qdump ++ [e] }) up down pr := by
  refine ⟨fun hf => ?_, h.strict, h.order, h.dumped, fun j hj hexit hruin => ?_⟩
  · have hfirst := h.first hf
    refine ⟨hfirst.mode, hfirst.evts, hfirst.down, hfirst.handed, hfirst.lastSeq, hfirst.lastType,
      fun j hj => ?_⟩
    cases hj
    obtain ⟨hstate, hwaits, hqdump⟩ := hfirst.info i rfl
    exact ⟨hstate, hwaits, mem_snoc hqdump (by simp [htype])⟩
  · cases hj
    have hold := h.exact i rfl hexit hruin
    refine ⟨?_, hold.progress, fun x hx hrep => ?_⟩
    · have hreps : reps (i.qdump ++ [e]) = reps i.qdump := by simp [reps, htype]
      have hcount := hold.counted
      unfold unanswered at hcount ⊢
      rw [hreps]
      exact hcount
    · rcases mem_append.mp hx with hx | hx
      · rcases mem_append.mp hx with hx | hx
        · exact hold.lastDump x (mem_append_left _ hx) hrep
        · rw [mem_singleton.mp hx, htype] at hrep
          cases hrep
      · exact hold.lastDump x (mem_append_right _ hx) hrep

theorem Steady.register (h : Steady pos none (e :: up) down pr) (he : e.isRestart = true) :
    Steady pos (some (enqueue (newInfo c) e)) up down pr := by
  rw [enqueue_restart _ he]
  have hfirst := h.first (by simp [held, he])
  have hup : up = [] := by
    obtain ⟨x, hone, -⟩ := hfirst.evts
    exact (List.cons.inj hone).2
  subst hup
  refine ⟨fun _ => ⟨hfirst.mode, hfirst.evts, hfirst.down, hfirst.handed, hfirst.lastSeq,
    hfirst.lastType, fun j hj => ?_⟩, h.strict, h.order, h.dumped, fun j hj _ _ => ?_⟩
  · cases hj
    exact ⟨rfl, rfl, fun x hx => nomatch hx⟩
  · cases hj
    refine ⟨?_, fun hcut => ?_, fun x hx => nomatch hx⟩
    · show 0 = down.length + answers [e] + 0
      rw [hfirst.down]
      simp [answers, he]
    · simp [he] at hcut

--
-- A turn of the worker
--

theorem Steady.cut_of_state (h : Steady pos (some i) up down pr) (hstate : i.state ≠ .incr) :
    hasRestart (i.qevts ++ up) = false := by
  cases hcut : hasRestart (i.qevts ++ up) with
  | false => rfl
  | true => exact absurd ((h.first hcut).info i rfl).1 hstate

theorem Steady.restart {pos' : Nat} {i' : ClientInfo} (h : Steady pos (some i) up down pr)
    (hqevts : i.qevts = evt :: rest) (hevt : evt.isRestart = true)
    (hpos : pos' = if evt.taskSeq = 0 then pos else evt.taskSeq)
    (hi' : i'.waits = 0 ∧ i'.qevts = [] ∧ i'.qdump = []) : Steady pos' (some i') up down pr := by
  obtain ⟨hwaits, hnil, hqdump⟩ := hi'
  have hfirst := h.first (by simp [held, hqevts, hevt])
  obtain ⟨x, hone, hfrom⟩ := hfirst.evts
  rw [held, hqevts, cons_append] at hone
  obtain ⟨rfl, hrest⟩ := List.cons.inj hone
  have hup : up = [] := (append_eq_nil_iff.mp hrest).2
  refine ⟨fun hf => ?_, h.strict, h.order, h.dumped, fun j hj _ _ => ?_⟩
  · rw [held, hnil, hup] at hf
    cases hf
  · cases hj
    refine ⟨?_, fun _ => ?_, fun e he => ?_⟩
    · unfold unanswered
      rw [hwaits, hnil, hqdump, hup, hfirst.down]
      rfl
    · rw [hnil, hup, hfirst.handed, hpos, hfrom]
      rfl
    · rw [hqdump, hup] at he
      cases he

theorem Steady.answer {i' : ClientInfo} (h : Steady pos (some i) up down pr)
    (hstate : i.state = .incr) (hqevts : i.qevts = evt :: rest) (hevt : evt.isAnswer)
    (hi' : i'.waits = sizeDec i.waits ∧ i'.qevts = rest ∧ i'.qdump = i.qdump) :
    Steady (pos + 1) (some i') up down pr := by
  obtain ⟨hwaits, hrest, hqdump⟩ := hi'
  have her : evt.isRestart = false := not_isRestart (.inr (by simp [hevt.2]))
  have hold := h.exact i rfl (by simp [hstate]) (by simp [hstate])
  have hcut : hasRestart (rest ++ up) = false :=
    h.no_restart (l := []) (by rw [held, hqevts]; rfl) her
  refine ⟨fun hf => ?_, h.strict, h.order, h.dumped, fun j hj _ _ => ?_⟩
  · rw [held, hrest, hcut] at hf
    cases hf
  · cases hj
    have hcount := hold.counted
    unfold unanswered at hcount
    rw [hqevts, cons_append, answers_cons _ her] at hcount
    refine ⟨?_, fun _ => ?_, fun e he => hold.lastDump e (by rw [← hqdump]; exact he)⟩
    · unfold unanswered sizeDec at *
      rw [hwaits, if_neg (by omega), hrest, hqdump]
      omega
    · have hprogress := hold.progress (by
        rw [hqevts, cons_append, hasRestart_cons, her, hcut]
        rfl)
      rw [hqevts, cons_append, incrAnswers_cons _ hevt.1 her] at hprogress
      rw [hrest]
      omega

theorem Steady.stop {st : SyncState} (h : Steady pos (some i) up down pr)
    (hqevts : i.qevts = evt :: rest) (hevt : evt.isRestart = false)
    (hst : st = .exit ∨ st = .ruin) :
    Steady pos (some { i with qevts := rest, state := st }) up down pr := by
  have hcut : hasRestart (rest ++ up) = false :=
    h.no_restart (l := []) (by rw [held, hqevts]; rfl) hevt
  refine ⟨fun hf => ?_, h.strict, h.order, h.dumped, fun j hj hexit hruin => ?_⟩
  · have hf : hasRestart (rest ++ up) = true := hf
    rw [hcut] at hf
    cases hf
  · cases hj
    rcases hst with rfl | rfl
    · exact absurd rfl hexit
    · exact absurd rfl hruin

/-- **Dump requests.** They are counted, and replies are counted off. -/
theorem Steady.sendDumps {i' : ClientInfo} {sent : List Evt} (h : Steady pos (some i) up down pr)
    (hstate : i.state = .wait ∨ i.state = .dump) (hsent : ∀ e ∈ sent, IsDumpReq e)
    (hsub : ∀ e ∈ i'.qdump, e ∈ i.qdump) (hqevts : i'.qevts = i.qevts)
    (hwaits : i'.waits + reps i.qdump = i.waits + sent.length + reps i'.qdump) :
    Steady pos (some i') up (down ++ sent) pr := by
  have hcut := h.cut_of_state (by rcases hstate with hs | hs <;> simp [hs])
  have hold := h.exact i rfl (by rcases hstate with hs | hs <;> simp [hs])
    (by rcases hstate with hs | hs <;> simp [hs])
  refine ⟨fun hf => ?_, fun hmode => ?_, h.order, h.dumped, fun j hj _ _ => ?_⟩
  · rw [held, hqevts, hcut] at hf
    cases hf
  · rw [unseen_append_dumps hsent, h.strict hmode]
  · cases hj
    refine ⟨?_, fun _ => ?_, fun e he hrep => ?_⟩
    · have hcount := hold.counted
      unfold unanswered at hcount ⊢
      rw [hqevts, length_append]
      omega
    · rw [hqevts]
      exact hold.progress hcut
    · rcases mem_append.mp he with he | he
      · exact hold.lastDump e (mem_append_left _ (hsub e he)) hrep
      · exact hold.lastDump e (mem_append_right _ he) hrep

theorem Steady.sendBatch {sent : List Evt} (h : Steady pos (some i) up down pr)
    (hclient : ClientSide c up down pr) (hserving : Serving c pos i up down pr) (hpos : 1 ≤ pos)
    (hstate : i.state = .wait) (hqevts : i.qevts = []) (hsent : Increments pos sent) :
    Steady pos (some { i with qincr := [], waits := i.waits + sent.length, state := .incr }) up
      (down ++ sent) pr := by
  obtain ⟨hwaits, -, -, hflow⟩ := hserving.waitFlow hstate hqevts
  obtain ⟨rfl, rfl, hreps⟩ := h.settled hstate hwaits hqevts
  have hold := h.exact i rfl (by simp [hstate]) (by simp [hstate])
  refine ⟨fun hf => ?_, fun hmode => ?_, h.order, h.dumped, fun j hj _ _ => ?_⟩
  · rw [hqevts] at hf
    cases hf
  · -- the last number handed over is below the position
    have hlt : ∀ t ∈ pr.seqs, t < pos := hflow.synced ⟨hmode, rfl⟩
    refine hsent.unseen_eq ?_
    rcases mem_cons.mp (hclient.lastSeq hmode).1 with hzero | hmem
    · omega
    · exact hlt _ hmem
  · cases hj
    refine ⟨?_, hold.progress, hold.lastDump⟩
    show i.waits + sent.length = ([] ++ sent).length + answers (i.qevts ++ []) + reps i.qdump
    rw [hwaits, hqevts, hreps, nil_append, append_nil, answers_nil]
    omega

theorem Steady.leave {pos' : Nat} (h : Steady pos (some i) up down pr)
    (hstate : i.state = .exit ∨ i.state = .ruin) : Steady pos' none up down pr := by
  have hcut := h.cut_of_state (by rcases hstate with hs | hs <;> simp [hs])
  rw [hasRestart_append, Bool.or_eq_false_iff] at hcut
  refine ⟨fun hf => ?_, h.strict, h.order, h.dumped, nofun⟩
  have hf : hasRestart up = true := hf
  rw [hcut.2] at hf
  cases hf

/-- **Forgotten.** The server may lose what it knows of a client. -/
theorem Steady.forget (h : Steady pos info up down pr) : Steady pos none up down pr := by
  refine ⟨fun hf => ?_, h.strict, h.order, h.dumped, nofun⟩
  have hf : hasRestart up = true := hf
  have hfirst := h.first (by simp [hf])
  obtain ⟨e, hone, hfrom⟩ := hfirst.evts
  have hup : up = [e] := by
    cases hheld : held info with
    | nil =>
      rw [hheld] at hone
      exact hone
    | cons x l =>
      rw [hheld, cons_append] at hone
      have hnil := (append_eq_nil_iff.mp (List.cons.inj hone).2).2
      rw [hnil] at hf
      cases hf
  exact ⟨hfirst.mode, ⟨e, hup, hfrom⟩, hfirst.down, hfirst.handed, hfirst.lastSeq, hfirst.lastType,
    nofun⟩

--
-- The system
--

/-- The link of a client in a state of the system. -/
def SteadyAt (s : Sys) (c : Bytes) : Prop :=
  Steady (s.queue.fetchPos c) (s.infos c) (s.up c) (s.down c) (s.procs c)

/-- Every INCR client is steady. -/
structure Calm (s : Sys) : Prop where
  flow : Flow s
  steady : ∀ c, (s.procs c).mode.Active → SteadyAt s c

theorem Calm.served (h : Calm s) (hinfo : s.infos c = some i) :
    Steady (s.queue.fetchPos c) (some i) (s.up c) (s.down c) (s.procs c) := by
  have hsteady := h.steady c (h.flow.served hinfo).active_of_info
  unfold SteadyAt at hsteady
  rw [hinfo] at hsteady
  exact hsteady

/-- Nobody dies: no process is killed, none that has ended is started again, and
the server stops only when everything is answered. -/
def CrashFree (s : Sys) : Action → Prop
  | .startIncr c _ => (s.procs c.bytes).mode ≠ .gone
  | .crash _ _ => False
  | .serverRestart => ServerQuiet s
  | _ => True

/-- **Orderly.** Where nobody dies, no restart can be out of order. -/
theorem Calm.orderly (h : Calm s) (a : Action) : Orderly s a := by
  cases a with
  | work c =>
    intro i hinfo
    have hsteady := h.served hinfo
    have hserving := (h.flow.served hinfo).serving
    refine ⟨fun evt hevt hrestart => ?_, fun hstate hqevts _ => ?_, fun hstate => .inl ?_⟩
    · have hqevts : ∃ rest, i.qevts = evt :: rest := by
        unfold ClientInfo.request at hevt
        split at hevt
        · exact head?_eq_some_iff.mp hevt
        · cases hevt
      obtain ⟨rest, hqevts⟩ := hqevts
      have hfirst := hsteady.first (by simp [held, hqevts, hrestart])
      obtain ⟨x, hone, -⟩ := hfirst.evts
      rw [held, hqevts, cons_append] at hone
      have hup := (append_eq_nil_iff.mp (List.cons.inj hone).2).2
      unfold Restartable
      rw [hup, if_pos ⟨hfirst.mode, rfl⟩]
      exact .inl ⟨rfl, hfirst.handed, .inl hfirst.down⟩
    · obtain ⟨hwaits, -⟩ := hserving.waitFlow hstate hqevts
      obtain ⟨hup, hdown, -⟩ := hsteady.settled hstate hwaits hqevts
      rw [hup, hdown]
      exact ⟨rfl, fun _ _ => rfl⟩
    · -- a client that is about to be removed has nothing on its way
      have hcut := hsteady.cut_of_state (by rcases hstate with hs | hs <;> simp [hs])
      have hphase := hserving.phase
      unfold Phase at hphase
      have hpend : pending (i.qevts ++ s.up c) = 0 := by
        rcases hstate with hs | hs <;> rw [hs] at hphase <;> exact hphase.1
      rw [pending_eq_length hcut, length_append] at hpend
      exact eq_nil_of_length_eq_zero (by omega)
  | dispense c =>
    intro i hinfo hstate hqevts evt hevt
    obtain ⟨hwaits, -⟩ := (h.flow.served hinfo).serving.waitFlow hstate hqevts
    rw [((h.served hinfo).settled hstate hwaits hqevts).1] at hevt
    cases hevt
  | _ => trivial

theorem Calm.update {s' : Sys} (c : Bytes) (h : Calm s) (hflow : Flow s')
    (hother : ∀ x, x ≠ c → (s'.procs x).mode.Active → s'.infos x = s.infos x ∧ s'.up x = s.up x ∧
      s'.down x = s.down x ∧ s'.procs x = s.procs x ∧ s'.queue.fetchPos x = s.queue.fetchPos x)
    (hc : (s'.procs c).mode.Active → SteadyAt s' c) : Calm s' := by
  refine ⟨hflow, fun x hx => ?_⟩
  by_cases hxc : x = c
  · subst hxc
    exact hc hx
  · obtain ⟨hinfo, hup, hdown, hproc, hpos⟩ := hother x hxc hx
    rw [hproc] at hx
    have hold := h.steady x hx
    unfold SteadyAt at hold ⊢
    rw [hinfo, hup, hdown, hproc, hpos]
    exact hold

theorem Calm.dispense {s' : Sys} (h : Calm s) (hup : s.up c = evt :: rest)
    (hdisp : Dispensed (s.setUp c rest) evt s') (hflow : Flow s') : Calm s' := by
  cases hdisp with
  | rejected htype =>
    obtain ⟨b, hmode, -⟩ := h.flow.asking_of_dumpReq hup htype
    refine h.update c hflow (fun x hx _ => by simp [hx]) fun hact => ?_
    exact absurd hmode (Mode.Active.not_dumping hact b)
  | noTarget htype hacc hinfo =>
    obtain ⟨b, hmode, hasking, rfl, rfl, -⟩ := h.flow.asking_of_dumpReq hup htype
    have hid : (failedRep (dumpRequest c b)).id = c := by
      show (dumpRequest c b).swapIdData.swapIdData.id = c
      rw [Evt.swapIdData_id, Evt.swapIdData_peer hasking.noNul]
      rfl
    refine h.update c hflow (fun x hx _ => ?_) fun hact => ?_
    · simp [hx, hid, hx.symm]
    · exact absurd hmode (Mode.Active.not_dumping hact b)
  | dumpReq i htype hacc hinfo =>
    obtain ⟨b, hmode, hasking, rfl, rfl, -⟩ := h.flow.asking_of_dumpReq hup htype
    have hpeer : (dumpRequest c b).peer = b := cstr_append_nul hasking.target
    rw [hpeer] at hinfo hflow ⊢
    refine ⟨hflow, fun x hx => ?_⟩
    have hxc : x ≠ c := by
      rintro rfl
      exact Mode.Active.not_dumping hx b hmode
    have hold := h.steady x hx
    unfold SteadyAt at hold ⊢
    by_cases hxb : x = b
    · subst hxb
      rw [Sys.setUp_infos] at hinfo
      rw [hinfo] at hold
      simpa [hxc] using hold.dumpReq (e := (dumpRequest c x).swapIdData) (by simp [htype])
    · simpa [hxc, hxb] using hold
  | dumpRep i htype hinfo =>
    obtain ⟨hactive, -, -, hfrom, -⟩ := h.flow.active_of_event hup (by simp [htype])
    rw [hfrom.1] at hinfo hflow ⊢
    rw [Sys.setUp_infos] at hinfo
    have hold := h.steady c hactive
    unfold SteadyAt at hold
    rw [hinfo, hup] at hold
    refine h.update c hflow (fun x hx _ => by simp [hx]) fun _ => ?_
    unfold SteadyAt
    simpa using hold.dumpRep htype
  | request i htype hinfo =>
    obtain ⟨hactive, -, -, hfrom, -⟩ := h.flow.active_of_event hup (by
      rcases htype with ht | ht <;> simp [ht])
    rw [hfrom.1] at hinfo hflow ⊢
    rw [Sys.setUp_infos] at hinfo
    have hold := h.steady c hactive
    unfold SteadyAt at hold
    rw [hinfo, hup] at hold
    refine h.update c hflow (fun x hx _ => by simp [hx]) fun _ => ?_
    unfold SteadyAt
    simpa using hold.request
  | register htype hinfo =>
    obtain ⟨hactive, -, hserver, hfrom, -⟩ := h.flow.active_of_event hup htype
    rw [hfrom.1] at hinfo hflow ⊢
    rw [Sys.setUp_infos] at hinfo
    rw [hinfo] at hserver
    have hrestart := Unserved.isRestart hserver
    have hold := h.steady c hactive
    unfold SteadyAt at hold
    rw [hinfo, hup] at hold
    refine h.update c hflow (fun x hx _ => by simp [hx]) fun _ => ?_
    unfold SteadyAt
    simpa using hold.register (c := c) hrestart

/-- The dump loop sends nothing to an INCR client but its own, and moves the
position of none. -/
theorem Flow.dumpRepLoop_other (h : Flow s) {x : Bytes} {q' : Queue} {waits : Nat} {sent : List Evt}
    (hinfo : s.infos c = some i) (hstate : i.state = .dump) (hqevts : i.qevts = [])
    (hloop : Pole.dumpRepLoop i.id i.qdump s.queue i.waits [] = .ok (q', waits, sent)) (hx : x ≠ c)
    (hactive : (s.procs x).mode.Active) :
    sent.filter (fun e => decide (e.id = x)) = [] ∧ q'.fetchPos x = s.queue.fetchPos x := by
  have hlink := h.served hinfo
  obtain ⟨-, hdump, -⟩ := hlink.serving.dumpFlow hstate hqevts
  obtain ⟨_, hloop₁, -, hpos⟩ := h.dumpRepLoop hinfo hstate hqevts
  rw [hloop₁] at hloop
  cases hloop
  have hnone : ∀ e ∈ i.qdump, e.peer ≠ x := by
    rintro e he rfl
    exact hactive.not_dumping c (h.asked c e.peer (h.peer_ne hinfo he).1).1
  refine ⟨?_, ?_⟩
  · rw [dumpOut_other hlink.serving.qdump hdump hx, map_eq_nil_iff, filter_eq_nil_iff]
    intro e he
    simp [hnone e he]
  · rw [hpos x, if_neg]
    rintro ⟨e, he, -, -, hpeer⟩
    exact hnone e he hpeer

theorem syncFrom_frame (q : Queue) (i : ClientInfo) (evt : Evt) :
    (syncFrom q i evt).waits = i.waits ∧ (syncFrom q i evt).qevts = i.qevts ∧
      (syncFrom q i evt).qdump = i.qdump := by
  unfold syncFrom
  split <;> exact ⟨rfl, rfl, rfl⟩

theorem Calm.worked (h : Calm s) {r : Served}
    (hflow : Flow (({ s with queue := r.queue }.setInfo c r.info).send r.sent))
    (hother : ∀ x, x ≠ c → (s.procs x).mode.Active →
      r.sent.filter (fun e => decide (e.id = x)) = [] ∧ r.queue.fetchPos x = s.queue.fetchPos x)
    (toClient : List Evt) (hself : r.sent.filter (fun e => decide (e.id = c)) = toClient)
    (hsteady : Steady (r.queue.fetchPos c) r.info (s.up c) (s.down c ++ toClient) (s.procs c)) :
    Calm (({ s with queue := r.queue }.setInfo c r.info).send r.sent) := by
  refine h.update c hflow (fun x hx hact => ?_) fun _ => ?_
  · obtain ⟨hnil, hpos⟩ := hother x hx hact
    rw [Sys.send_down, hnil, append_nil]
    exact ⟨by simp [hx], rfl, rfl, rfl, hpos⟩
  · unfold SteadyAt
    rw [Sys.send_down, hself, Sys.send_infos, Sys.setInfo_infos, if_pos rfl]
    exact hsteady

theorem filter_self (h : ∀ e ∈ l, e.id = c) : l.filter (fun e => decide (e.id = c)) = l := by
  rw [filter_eq_self]
  intro e he
  simp [h e he]

theorem filter_other {x : Bytes} (h : ∀ e ∈ l, e.id = c) (hx : x ≠ c) :
    l.filter (fun e => decide (e.id = x)) = [] := by
  rw [filter_eq_nil_iff]
  intro e he
  simp [h e he, hx.symm]

theorem Calm.not_check (h : Calm s) (hinfo : s.infos c = some i)
    (hstate : i.state = .wait ∨ i.state = .dump) (hqevts : i.qevts = evt :: rest) :
    evt.isRestart = false := by
  have hcut := (h.served hinfo).cut_of_state (by rcases hstate with hs | hs <;> simp [hs])
  rw [hqevts, cons_append, hasRestart_cons, Bool.or_eq_false_iff] at hcut
  exact hcut.1

theorem Calm.work (h : Calm s) {r : Served} (hinfo : s.infos c = some i)
    (htask : TaskStep s.queue i r)
    (hflow : Flow (({ s with queue := r.queue }.setInfo c r.info).send r.sent)) :
    Calm (({ s with queue := r.queue }.setInfo c r.info).send r.sent) := by
  have hlink := h.flow.served hinfo
  have hactive := hlink.active_of_info
  have hserving := hlink.serving
  have hclient := (hlink.active hactive).1
  have hsteady := h.served hinfo
  cases htask with
  | idle =>
    refine h.worked hflow (fun x _ _ => ⟨rfl, rfl⟩) [] rfl ?_
    rw [append_nil]
    exact hsteady
  | restart evt rest q' hstate hqevts hevt hq =>
    refine h.worked hflow (fun x hx _ => ⟨rfl, ?_⟩) [] rfl ?_
    · rw [hq, hserving.id]
      split
      · rfl
      · rw [Queue.fetchPos_updateThat, if_neg hx]
    · rw [append_nil]
      refine hsteady.restart hqevts hevt ?_ ⟨rfl, rfl, rfl⟩
      rw [hq, hserving.id]
      split
      · rfl
      · rw [Queue.fetchPos_updateThat, if_pos rfl]
  | answer evt rest hstate hqevts htype hsucc hzero hseq =>
    obtain ⟨-, -, hincr⟩ := hserving.incrFlow hstate hqevts (not_isRestart (.inr (by simp [hsucc])))
    rw [hqevts, cons_append] at hincr
    obtain ⟨hreply, -, -⟩ := hincr.head ⟨htype, hsucc⟩
    refine h.worked hflow (fun x hx _ => ⟨rfl, ?_⟩) [] rfl ?_
    · rw [Queue.fetchPos_updateThat, hserving.id, if_neg hx]
    · rw [append_nil, Queue.fetchPos_updateThat, hserving.id, if_pos rfl, hreply.2.1]
      exact hsteady.answer hstate hqevts ⟨htype, hsucc⟩ (syncFrom_frame ..)
  | stop evt rest st hstate hqevts htype hfail hst =>
    refine h.worked hflow (fun x _ _ => ⟨rfl, rfl⟩) [] rfl ?_
    rw [append_nil]
    refine hsteady.stop hqevts (not_isRestart (.inr ?_)) hst
    rcases hfail with hf | hf <;> simp [hf]
  | check evt rest hstate hqevts hevt =>
    rw [h.not_check hinfo hstate hqevts] at hevt
    cases hevt
  | dumpReq evt rest hstate hqevts hqdump htype hnone =>
    have hid : ∀ e ∈ [evt], e.id = c := by
      intro e he
      rw [mem_singleton.mp he]
      exact hserving.qdump evt (by rw [hqdump]; exact .head _)
    have hreps : reps i.qdump = reps rest := by rw [hqdump]; simp [reps, htype]
    refine h.worked hflow (fun x hx _ => ⟨filter_other hid hx, rfl⟩) _ (filter_self hid) ?_
    refine hsteady.sendDumps (.inl hstate) (fun e he => ?_) (fun e he => ?_) rfl ?_
    · rw [mem_singleton.mp he]
      exact ⟨htype, hnone⟩
    · rw [hqdump]
      exact .tail _ he
    · show i.waits + 1 + reps i.qdump = i.waits + 1 + reps rest
      rw [hreps]
  | incrReq sent hstate hqevts hqdump hloop =>
    obtain ⟨-, hbatch, -, -⟩ := hserving.waitFlow hstate hqevts
    obtain ⟨-, hsent, hid⟩ := sent_increments hbatch (h.flow.pos c).2 hloop
    exact h.worked hflow (fun x hx _ => ⟨filter_other hid hx, rfl⟩) _ (filter_self hid)
      (hsteady.sendBatch hclient hserving (h.flow.pos c).1 hstate hqevts hsent)
  | dumpRep q' waits sent hstate hqevts hloop =>
    obtain ⟨-, hdump, hdflow⟩ := hserving.dumpFlow hstate hqevts
    have hbound := hdflow.bound
    obtain ⟨_, hloop₁, -, hpos⟩ := h.flow.dumpRepLoop hinfo hstate hqevts
    have hother := fun x hx hact =>
      h.flow.dumpRepLoop_other (x := x) hinfo hstate hqevts hloop hx hact
    rw [hloop₁] at hloop
    cases hloop
    have hpos_c : q'.fetchPos c = s.queue.fetchPos c := by
      rw [hpos c, if_neg]
      rintro ⟨e, he, -, -, hpeer⟩
      exact (h.flow.peer_ne hinfo he).2 hpeer
    refine h.worked hflow hother _
      (dumpOut_self hserving.qdump hdump fun e he => (h.flow.peer_ne hinfo he).2) ?_
    rw [hpos_c]
    refine hsteady.sendDumps (.inr hstate) (fun e he => ?_) (by simp) rfl ?_
    · obtain ⟨hmem, htype⟩ := mem_filter.mp he
      have htype : e.evType = .dumpReq := by simpa using htype
      exact (hdump e hmem).resolve_right (by simp [htype])
    · have hlen : (i.qdump.filter fun e => decide (e.evType = .dumpReq)).length = reqs i.qdump :=
        countP_eq_length_filter.symm
      show i.waits + reqs i.qdump - reps i.qdump + reps i.qdump = i.waits + _ + reps []
      rw [hlen, show reps [] = 0 from rfl]
      omega
  | leave q' hstate hq =>
    refine h.worked hflow (fun x hx _ => ⟨rfl, ?_⟩) [] rfl ?_
    · rcases hq with rfl | rfl
      · rfl
      · rw [Queue.fetchPos_unregisterConsumer, hserving.id, if_neg hx]
    · rw [append_nil]
      exact hsteady.leave hstate

theorem Calm.queue {q : Queue} (h : Calm s) (hflow : Flow { s with queue := q })
    (hpos : ∀ c, q.fetchPos c = s.queue.fetchPos c) : Calm { s with queue := q } := by
  refine ⟨hflow, fun c hc => ?_⟩
  have hold := h.steady c hc
  show Steady (q.fetchPos c) _ _ _ _
  rw [hpos c]
  exact hold

theorem Calm.step {s' : Sys} {a : Action} (h : Calm s) (hcond : CrashFree s a)
    (hstep : Step s a s') : Calm s' := by
  have hflow : Flow s' := by
    refine h.flow.step (h.orderly a) (fun ha => ?_) hstep
    subst ha
    exact hcond
  cases hstep with
  | skip => exact h
  | push data => exact h.queue hflow (Queue.fetchPos_pushTail s.queue data)
  | pushRecord data => exact h.queue hflow (Queue.fetchPos_pushRecord s.queue data)
  | pushCount => exact h.queue hflow (Queue.fetchPos_pushCount s.queue)
  | pushFail => exact h.queue hflow fun c => rfl
  | startIncr c seq fetchFrom hmode hfrom =>
    refine h.update c.bytes hflow (fun x hx _ => by simp [hx]) fun _ => ?_
    have hidle := hmode.resolve_right hcond
    have hold := h.flow.link c.bytes
    unfold LinkOk at hold
    rw [hidle] at hold
    obtain ⟨hinfo, hup, hdown, -⟩ := hold
    have hsteady := steady_start (s.queue.fetchPos c.bytes) c.bytes (seq % u64Size) hfrom
    unfold SteadyAt
    simpa [hinfo, hup, hdown] using hsteady
  | startDump a b hmode =>
    refine h.update a.bytes hflow (fun x hx _ => by simp [hx]) fun hact => ?_
    rw [Sys.setProc_procs, if_pos rfl] at hact
    exact absurd rfl (hact.not_dumping b.bytes)
  | dispense c evt rest s' hup hdisp => exact h.dispense hup hdisp hflow
  | work c i r hinfo htask => exact h.work hinfo htask hflow
  | recv c out evt rest p reply hmode hdown hloop =>
    obtain ⟨hclient, hserver⟩ := (h.flow.link c).active (.inl hmode)
    have hold := h.steady c (.inl hmode)
    unfold SteadyAt at hold
    rw [hdown] at hclient hserver hold
    refine h.update c hflow (fun x hx _ => by simp [hx]) fun _ => ?_
    unfold SteadyAt
    simpa using hold.recv hclient hserver hmode hloop
  | recvDump a b evt rest hmode hdown =>
    refine h.update a hflow (fun x hx _ => by simp [hx]) fun hact => ?_
    rw [Sys.setProc_procs, if_pos rfl] at hact
    rcases hact with hm | hm <;> cases hm
  | crash => exact hcond.elim
  | crashHandled => exact hcond.elim
  | serverRestart => exact ⟨hflow, fun c hc => (h.steady c hc).forget⟩

theorem Initial.calm (h : Initial s) : Calm s where
  flow := h.flow
  steady c hc := by
    rw [h.procs c] at hc
    rcases hc with hm | hm <;> cases hm

--
-- The counter
--

/-- **The counter.** In every run in which nobody dies and the server is stopped
only when everything is answered, the counter of every client it serves is the
number of messages sent to that client and not answered; an answer is handled
only when the counter is positive, and no more dump replies are queued than it
counts. -/
theorem waits_eq_unanswered (s₀ : Sys) (h₀ : Initial s₀) (l : List Action)
    (hl : Along step CrashFree s₀ l) (s : Sys) (hrun : run step s₀ l = .ok s) (c : Bytes)
    (i : ClientInfo) (hinfo : s.infos c = some i) (hexit : i.state ≠ .exit)
    (hruin : i.state ≠ .ruin) :
    i.waits = unanswered i (s.up c) (s.down c) ∧
      (∀ evt ∈ i.request, evt.isAnswer → 0 < i.waits) ∧ reps i.qdump ≤ i.waits := by
  have hcalm : Calm s := run_inv_along (fun s a s' h hcond hstep => h.step hcond (step_ok hstep))
    h₀.calm hl hrun
  have hsteady := hcalm.served hinfo
  have hcount := (hsteady.exact i rfl hexit hruin).counted
  refine ⟨hcount, fun evt hevt hans => ?_, ?_⟩
  · have her : evt.isRestart = false := not_isRestart (.inr (by simp [hans.2]))
    unfold ClientInfo.request at hevt
    split at hevt
    · obtain ⟨rest, hqevts⟩ := head?_eq_some_iff.mp hevt
      unfold unanswered at hcount
      rw [hqevts, cons_append, answers_cons _ her] at hcount
      omega
    · cases hevt
  · unfold unanswered at hcount
    omega

/-- The server is started again while the first request of a client is on its
way; then it serves the client one message. -/
def quietRestart : List Action :=
  [.startIncr nodeA 0, .serverRestart, .dispense nodeA.bytes, .work nodeA.bytes, .push [1],
    .work nodeA.bytes]

theorem quietRestart_along : Along step CrashFree emptySys quietRestart := by
  refine Along.cons rfl nofun (Along.cons rfl (fun c _ => ⟨rfl, fun e he => ?_⟩) ?_)
  · rw [Sys.setProc_up, Sys.setUp_up] at he
    split at he
    · rw [mem_singleton.mp he]
      rfl
    · cases he
  · exact Along.cons rfl trivial (Along.cons rfl trivial (Along.cons rfl trivial
      (Along.cons rfl trivial trivial)))

theorem quietRestart_counted : ∃ s i, run step emptySys quietRestart = .ok s ∧
    s.infos nodeA.bytes = some i ∧ i.waits = 1 ∧
    i.waits = unanswered i (s.up nodeA.bytes) (s.down nodeA.bytes) :=
  ⟨_, _, rfl, rfl, rfl, (waits_eq_unanswered emptySys emptySys_initial quietRestart
    quietRestart_along _ rfl nodeA.bytes _ rfl nofun nofun).1⟩

/-- The server is started again while a message is not answered: the answer is
counted down from zero. -/
theorem restartUnanswered_wraps : ∃ s i, run step emptySys [.push [1], .startIncr nodeA 0,
      .dispense nodeA.bytes, .work nodeA.bytes, .work nodeA.bytes, .serverRestart,
      .recv nodeA.bytes .succ, .dispense nodeA.bytes, .work nodeA.bytes] = .ok s ∧
    s.infos nodeA.bytes = some i ∧ i.waits = u64Size - 1 ∧
    unanswered i (s.up nodeA.bytes) (s.down nodeA.bytes) = 0 :=
  ⟨_, _, rfl, rfl, rfl, rfl⟩

end Supex.Pole
