import Supex.Lib.Stream
import Supex.Pole.Batch

/-!
# pole — one client and its link to the server

What holds between the server's state of a client, the two channels and the
client process, as long as the messages of an earlier process do not mix with
those of the current one.

An INCREMENT_REQ with state NONE (a *restart*) cuts the stream of a client's
events: what stands before it was sent by an earlier process. The client is
*synced* if it is alive and no restart is on its way. Then the server's counter
is exactly what is in flight, and the numbers in flight are consecutive. A
client skips an increment that repeats the last number (`unseen`), so one
increment that an earlier process left behind takes the place of the first one
of the new batch (`Early`). In all other cases the counter is at least what is
left of the old stream.

One lemma for each thing that can happen to a link (`ServerSide`, `Serving`).
-/

namespace Supex.Pole

open Supex.Lib List

--
-- Streams of a client's events
--

/-- A restart is among the events. -/
def hasRestart (l : List Evt) : Bool := hasCut Evt.isRestart l

/-- How many events stand before the first restart. -/
def pending (l : List Evt) : Nat := beforeCut Evt.isRestart l

@[simp] theorem hasRestart_nil : hasRestart [] = false := rfl

@[simp] theorem hasRestart_cons (e : Evt) (l : List Evt) :
    hasRestart (e :: l) = (e.isRestart || hasRestart l) := rfl

@[simp] theorem hasRestart_append (l m : List Evt) :
    hasRestart (l ++ m) = (hasRestart l || hasRestart m) := hasCut_append l m

@[simp] theorem pending_nil : pending [] = 0 := rfl

variable {pr pr' : Proc} {down down' l rest sent up : List Evt} {c : Bytes} {e evt r : Evt}
  {last n pos t : Nat} {i : ClientInfo} {info : Option ClientInfo}

theorem pending_cons_restart (l : List Evt) (he : e.isRestart = true) :
    pending (e :: l) = 0 := beforeCut_cons_of_cut l he

theorem pending_cons_not (l : List Evt) (he : e.isRestart = false) :
    pending (e :: l) = pending l + 1 := beforeCut_cons_of_not l he

theorem pending_append_restart (m : List Evt) (h : hasRestart l = true) :
    pending (l ++ m) = pending l := beforeCut_append_of_cut m h

theorem pending_append_not (m : List Evt) (h : hasRestart l = false) :
    pending (l ++ m) = l.length + pending m := beforeCut_append_of_not m h

theorem pending_eq_length (h : hasRestart l = false) : pending l = l.length :=
  beforeCut_eq_length h

/-- A restart is the first of the events. -/
def HeadRestart (l : List Evt) : Prop := hasRestart l = true ∧ pending l = 0

/-- The answer that asks for number `t`. -/
def IsReply (t : Nat) (e : Evt) : Prop := e.isAnswer ∧ e.taskSeq = t ∧ t < u64Size

/-- The last event of a process whose business failed. -/
def IsFailure (e : Evt) : Prop :=
  e.evType = .incrementReq ∧ (e.evState = .fail ∨ e.evState = .fatal) ∧ e.taskSeq ≠ 0

/-- The answers for `t`, `t + 1` and so on, up to a restart; a failure is the
last one. -/
def Replies : Nat → List Evt → Prop
  | _, [] => True
  | t, e :: l => e.isRestart = true ∨ (IsReply t e ∧ Replies (t + 1) l) ∨
      (IsFailure e ∧ pending l = 0)

/-- Dump replies, up to a restart. -/
def DumpReps : List Evt → Prop
  | [] => True
  | e :: l => e.isRestart = true ∨ (e.evType = .dumpRep ∧ DumpReps l)

theorem not_isRestart (h : e.evType ≠ .incrementReq ∨ e.evState ≠ .none) : e.isRestart = false := by
  rw [← Bool.not_eq_true, isRestart_iff, not_and_or]
  exact h

theorem IsReply.not_isRestart (h : IsReply t e) : e.isRestart = false :=
  Pole.not_isRestart (.inr (by simp [h.1.2]))

theorem IsFailure.not_isRestart (h : IsFailure e) : e.isRestart = false := by
  refine Pole.not_isRestart (.inr ?_)
  rcases h.2.1 with h | h <;> simp [h]

theorem pending_snoc_restart (l : List Evt) (he : e.isRestart = true) :
    pending (l ++ [e]) = pending l := by
  rcases h : hasRestart l with _ | _
  · rw [pending_append_not _ h, pending_cons_restart _ he, pending_eq_length h]
    rfl
  · exact pending_append_restart _ h

theorem HeadRestart.append (h : HeadRestart l) (m : List Evt) : HeadRestart (l ++ m) := by
  refine ⟨by simp [h.1], ?_⟩
  rw [pending_append_restart _ h.1]
  exact h.2

theorem headRestart_cons (l : List Evt) (he : e.isRestart = true) :
    HeadRestart (e :: l) := ⟨by simp [he], pending_cons_restart _ he⟩

theorem HeadRestart.head (h : HeadRestart (e :: l)) : e.isRestart = true := by
  rcases beforeCut_eq_zero h.2 with h0 | ⟨x, rest, hcons, hx⟩
  · cases h0
  · cases hcons
    exact hx

theorem pending_eq_zero (h : pending l = 0) : l = [] ∨ HeadRestart l := by
  rcases beforeCut_eq_zero h with rfl | ⟨x, rest, rfl, hx⟩
  · exact .inl rfl
  · exact .inr (headRestart_cons rest hx)

theorem pending_of_all (h : ∀ e ∈ l, e.isRestart = true) : pending l = 0 := by
  cases l with
  | nil => rfl
  | cons e l => exact pending_cons_restart _ (h e (.head _))

theorem replies_of_pending (h : pending l = 0) : Replies t l := by
  rcases beforeCut_eq_zero h with rfl | ⟨x, rest, rfl, hx⟩
  · trivial
  · exact .inl hx

theorem dumpReps_of_pending (h : pending l = 0) : DumpReps l := by
  rcases beforeCut_eq_zero h with rfl | ⟨x, rest, rfl, hx⟩
  · trivial
  · exact .inl hx

theorem Replies.append_of_restart {m : List Evt} (m' : List Evt) (hl : hasRestart l = true)
    (h : Replies t (l ++ m)) : Replies t (l ++ m') := by
  induction l generalizing t with
  | nil => cases hl
  | cons e l ih =>
    rcases h with he | ⟨he, hrest⟩ | ⟨he, hrest⟩
    · exact .inl he
    · have hl' : hasRestart l = true := by simpa [he.not_isRestart] using hl
      exact .inr (.inl ⟨he, ih hl' hrest⟩)
    · have hl' : hasRestart l = true := by simpa [he.not_isRestart] using hl
      rw [List.append_eq, pending_append_restart _ hl'] at hrest
      refine .inr (.inr ⟨he, ?_⟩)
      rw [List.append_eq, pending_append_restart _ hl']
      exact hrest

/-- One more event behind the stream: anything behind a restart, a restart, or
the next answer. -/
theorem Replies.snoc (h : Replies t l) (he : hasRestart l = true ∨ e.isRestart = true ∨
      ((∀ x ∈ l, x.evState = .succ) ∧ (IsReply (t + l.length) e ∨ IsFailure e))) :
    Replies t (l ++ [e]) := by
  induction l generalizing t with
  | nil =>
    rcases he with he | he | ⟨-, he | he⟩
    · cases he
    · exact .inl he
    · exact .inr (.inl ⟨he, trivial⟩)
    · exact .inr (.inr ⟨he, rfl⟩)
  | cons x l ih =>
    rcases h with hx | ⟨hx, hrest⟩ | ⟨hx, hrest⟩
    · exact .inl hx
    · refine .inr (.inl ⟨hx, ih hrest ?_⟩)
      rcases he with he | he | ⟨hall, he⟩
      · exact .inl (by simpa [hx.not_isRestart] using he)
      · exact .inr (.inl he)
      · refine .inr (.inr ⟨fun y hy => hall y (.tail _ hy), ?_⟩)
        rw [length_cons, show t + (l.length + 1) = t + 1 + l.length by omega] at he
        exact he
    · refine .inr (.inr ⟨hx, ?_⟩)
      rw [List.append_eq]
      rcases he with he | he | ⟨hall, -⟩
      · rw [pending_append_restart _ (by simpa [hx.not_isRestart] using he)]
        exact hrest
      · rw [pending_snoc_restart l he]
        exact hrest
      · -- a stream of answers holds no failure
        have hsucc := hall x (.head _)
        rcases hx.2.1 with hfail | hfail <;> rw [hsucc] at hfail <;> cases hfail

theorem DumpReps.snoc (h : DumpReps l)
    (he : hasRestart l = true ∨ e.isRestart = true ∨ e.evType = .dumpRep) :
    DumpReps (l ++ [e]) := by
  induction l with
  | nil =>
    rcases he with he | he | he
    · cases he
    · exact .inl he
    · exact .inr ⟨he, trivial⟩
  | cons x l ih =>
    rcases h with hx | ⟨hx, hrest⟩
    · exact .inl hx
    · refine .inr ⟨hx, ih hrest ?_⟩
      have hxr : x.isRestart = false := not_isRestart (.inl (by simp [hx]))
      rcases he with he | he
      · exact .inl (by simpa [hxr] using he)
      · exact .inr he

theorem Replies.mid {m : List Evt} (h : Replies t (l ++ e :: m)) (hl : hasRestart l = false) :
    e.evType = .incrementReq := by
  induction l generalizing t with
  | nil =>
    rcases h with he | ⟨he, -⟩ | ⟨he, -⟩
    · exact (isRestart_iff.mp he).1
    · exact he.1.1
    · exact he.1
  | cons x l ih =>
    rw [hasRestart_cons, Bool.or_eq_false_iff] at hl
    rcases h with hx | ⟨-, hrest⟩ | ⟨-, hrest⟩
    · rw [hl.1] at hx
      cases hx
    · exact ih hrest hl.2
    · -- behind a failure: the event is a restart
      rw [List.append_eq, pending_append_not _ hl.2] at hrest
      have he : pending (e :: m) = 0 := by omega
      rcases beforeCut_eq_zero he with h0 | ⟨y, rest, hcons, hy⟩
      · cases h0
      · cases hcons
        exact (isRestart_iff.mp hy).1

theorem mem_snoc {P : Evt → Prop} (hl : ∀ x ∈ l, P x) (he : P e) : ∀ x ∈ l ++ [e], P x := by
  intro x hx
  rcases mem_append.mp hx with hx | hx
  · exact hl x hx
  · rw [mem_singleton.mp hx]
    exact he

--
-- Events on their way to the client
--

/-- An increment on its way to the client. -/
def IsIncr (e : Evt) : Prop := e.evType = .incrementRep ∧ e.taskSeq + 1 < u64Size

/-- A dump request on its way to the client. -/
def IsDumpReq (e : Evt) : Prop := e.evType = .dumpReq ∧ e.evState = .none

theorem IsIncr.not_isDumpReq (h : IsIncr e) : ¬IsDumpReq e := by
  intro hd
  have := h.1.symm.trans hd.1
  cases this

/-- The numbers of the increments among the events. -/
def incrSeqs (l : List Evt) : List Nat :=
  l.filterMap fun e => if e.evType = .incrementRep then some e.taskSeq else none

theorem incrSeqs_cons_incr (l : List Evt) (h : e.evType = .incrementRep) :
    incrSeqs (e :: l) = e.taskSeq :: incrSeqs l := by
  unfold incrSeqs
  rw [filterMap_cons_some]
  rw [if_pos h]

theorem incrSeqs_cons_other (l : List Evt) (h : e.evType ≠ .incrementRep) :
    incrSeqs (e :: l) = incrSeqs l := by
  unfold incrSeqs
  rw [filterMap_cons_none]
  rw [if_neg h]

theorem incrSeqs_append (l m : List Evt) : incrSeqs (l ++ m) = incrSeqs l ++ incrSeqs m :=
  filterMap_append ..

theorem incrSeqs_dumps (h : ∀ e ∈ l, IsDumpReq e) : incrSeqs l = [] := by
  unfold incrSeqs
  rw [filterMap_eq_nil_iff]
  intro e he
  rw [if_neg (by simp [(h e he).1])]

/-- The events a client will not skip: it skips an increment with the number of
the last one. -/
def unseen : Nat → List Evt → List Evt
  | _, [] => []
  | last, e :: l =>
    if e.evType = .incrementRep then
      if e.taskSeq = last then unseen last l else e :: unseen e.taskSeq l
    else e :: unseen last l

@[simp] theorem unseen_nil (last : Nat) : unseen last [] = [] := rfl

theorem unseen_cons_seen (l : List Evt) (htype : e.evType = .incrementRep)
    (hseq : e.taskSeq = last) : unseen last (e :: l) = unseen last l := by
  rw [unseen, if_pos htype, if_pos hseq]

theorem unseen_cons_new (l : List Evt) (htype : e.evType = .incrementRep)
    (hseq : e.taskSeq ≠ last) : unseen last (e :: l) = e :: unseen e.taskSeq l := by
  rw [unseen, if_pos htype, if_neg hseq]

theorem unseen_cons_other (l : List Evt) (htype : e.evType ≠ .incrementRep) :
    unseen last (e :: l) = e :: unseen last l := by
  rw [unseen, if_neg htype]

theorem unseen_dumps (h : ∀ e ∈ l, IsDumpReq e) : unseen last l = l := by
  induction l with
  | nil => rfl
  | cons e l ih =>
    rw [unseen_cons_other _ (by simp [(h e (.head _)).1]),
      ih fun x hx => h x (.tail _ hx)]

theorem unseen_append_dumps {m : List Evt} (h : ∀ e ∈ m, IsDumpReq e) :
    unseen last (l ++ m) = unseen last l ++ m := by
  induction l generalizing last with
  | nil => exact unseen_dumps h
  | cons e l ih =>
    rw [cons_append, unseen, unseen]
    split
    · split
      · exact ih
      · rw [ih, cons_append]
    · rw [ih, cons_append]

theorem unseen_append_of_nil (m : List Evt) (h : unseen last l = []) :
    unseen last (l ++ m) = unseen last m := by
  induction l with
  | nil => rfl
  | cons e l ih =>
    rw [unseen] at h
    split at h
    · next htype =>
      split at h
      · next hseq =>
        rw [cons_append, unseen_cons_seen _ htype hseq]
        exact ih h
      · cases h
    · cases h

theorem unseen_append_of_one (m : List Evt) (h : unseen last l = [e])
    (he : e.evType = .incrementRep) : unseen last (l ++ m) = e :: unseen e.taskSeq m := by
  induction l with
  | nil => cases h
  | cons x l ih =>
    rw [unseen] at h
    split at h
    · next htype =>
      split at h
      · next hseq =>
        rw [cons_append, unseen_cons_seen _ htype hseq]
        exact ih h
      · next hseq =>
        obtain ⟨rfl, hrest⟩ := List.cons.inj h
        rw [cons_append, unseen_cons_new _ htype hseq, unseen_append_of_nil _ hrest]
    · next htype =>
      obtain ⟨rfl, -⟩ := List.cons.inj h
      exact absurd he htype

/-- The increments of the numbers from `n` on. -/
def Increments (n : Nat) (l : List Evt) : Prop := Numbered (fun t e => IsIncr e ∧ e.taskSeq = t) n l

theorem Increments.kind (h : Increments n l) : ∀ e ∈ l, IsIncr e := by
  intro e he
  obtain ⟨t, hincr, -⟩ := Numbered.mem h he
  exact hincr

theorem Increments.seqs (h : Increments n l) : incrSeqs l = List.range' n l.length := by
  refine Numbered.filterMap_eq (fun t e he => ?_) h
  rw [if_pos he.1.1, he.2]

theorem Increments.unseen_eq (h : Increments n l) (hlast : last < n) : unseen last l = l := by
  induction l generalizing n last with
  | nil => rfl
  | cons e l ih =>
    obtain ⟨⟨hincr, hseq⟩, hrest⟩ := h
    rw [unseen_cons_new _ hincr.1 (by omega), ih hrest (by omega)]

theorem Increments.unseen_tail (h : Increments n (e :: l)) : unseen n (e :: l) = l := by
  obtain ⟨⟨hincr, hseq⟩, hrest⟩ := h
  rw [unseen_cons_seen _ hincr.1 hseq]
  exact Increments.unseen_eq hrest (Nat.lt_succ_self n)

--
-- The invariant of a link
--

/-- What a living process has been handed. -/
def Proc.live (p : Proc) : List Nat := if p.mode = .incr then p.seqs else []

theorem live_eq {p : Proc} (h : p.mode = .incr) : p.live = p.seqs := by
  unfold Proc.live
  rw [if_pos h]

theorem live_gone {p : Proc} (h : p.mode ≠ .incr) : p.live = [] := by
  unfold Proc.live
  rw [if_neg h]

/-- The process is alive, and no restart is on its way. -/
def Synced (p : Proc) (l : List Evt) : Prop := p.mode = .incr ∧ hasRestart l = false

/-- An event of the client, its number a `uint64_t`. -/
def FromClient (c : Bytes) (e : Evt) : Prop := e.id = c ∧ e.taskSeq < u64Size

/-- The channels of an INCR client and its process: only the expected events.
The numbers on their way do not decrease, and those handed over increase. -/
structure ClientSide (c : Bytes) (up down : List Evt) (pr : Proc) : Prop where
  upOk : ∀ e ∈ up, FromClient c e ∧ (e.evType = .incrementReq ∨ e.evType = .dumpRep)
  downOk : ∀ e ∈ down, e.id = c ∧ (IsIncr e ∨ IsDumpReq e)
  sorted : (pr.live ++ incrSeqs down).Pairwise (· ≤ ·)
  lastSeq : pr.mode = .incr → pr.lastSeq ∈ 0 :: pr.seqs ∧ ∀ t ∈ pr.seqs, t ≤ pr.lastSeq
  seqsOk : pr.seqs.Pairwise (· < ·)

/-- Whatever the living process has been handed or will be, is below `n`. -/
def Below (n : Nat) (down : List Evt) (pr : Proc) : Prop :=
  ∀ t ∈ pr.live ++ incrSeqs down, t < n

/-- In state INCR, with position `pos`: `evts` is what came or will come from
the client. If it is in step, the counter is exactly what is in flight, and the
numbers in flight are consecutive. -/
structure IncrFlow (pos waits : Nat) (evts down : List Evt) (pr : Proc) : Prop where
  replies : Replies (pos + 1) evts
  bound : pending evts ≤ waits
  below : Below (pos + waits) down pr
  synced : Synced pr evts → (∀ e ∈ evts, e.evState = .succ) ∧
    evts.length + (unseen pr.lastSeq down).length = waits ∧
    Increments (pos + evts.length) (unseen pr.lastSeq down) ∧ ∀ t ∈ pr.seqs, t < pos + evts.length

/-- A client in step that waits for the batch at `pos`: nothing is in flight, or
an earlier process left the increment of number `pos`, which is still to be
taken or already answered. -/
def Early (pos : Nat) (up news : List Evt) (pr : Proc) : Prop :=
  match up, news with
  | [], [] => ∀ t ∈ pr.seqs, t < pos
  | [], [e] => IsIncr e ∧ e.taskSeq = pos ∧ ∀ t ∈ pr.seqs, t < pos
  | [r], [] => r.evState = .succ ∧ pr.lastSeq = pos
  | _, _ => False

/-- In state WAIT, with a batch at `pos`. -/
structure WaitFlow (pos : Nat) (up down : List Evt) (pr : Proc) : Prop where
  replies : Replies (pos + 1) up
  bound : pending up ≤ 1
  below : Below (pos + 1) down pr
  synced : Synced pr up → Early pos up (unseen pr.lastSeq down) pr

/-- In state DUMP only dump events are in flight; `queued` replies of them have
arrived. -/
structure DumpFlow (pos waits queued : Nat) (up down : List Evt) (pr : Proc) : Prop where
  upOk : DumpReps up
  bound : queued + pending up ≤ waits
  below : Below (pos + 1) down pr
  synced : Synced pr up → (∀ e ∈ unseen pr.lastSeq down, IsDumpReq e) ∧
    queued + up.length + (unseen pr.lastSeq down).length = waits ∧ ∀ t ∈ pr.seqs, t < pos

/-- Dump requests wait, unless a restart will sweep the queue. -/
def QdumpOk (i : ClientInfo) : Prop := hasRestart i.qevts = false → ∀ e ∈ i.qdump, IsDumpReq e

/-- The batch at position `pos`. -/
def IsBatch (c : Bytes) (pos : Nat) (l : List Evt) : Prop :=
  l ≠ [] ∧ Numbered (fun t e => e.id = c ∧ e.evType = .incrementRep ∧ e.taskSeq = t % u64Size) pos l

/-- The server's state of a client, by the state it is in. A restart in front of
its requests will clear it. -/
def Phase (c : Bytes) (pos : Nat) (i : ClientInfo) (up down : List Evt) (pr : Proc) : Prop :=
  match i.state with
  | .incr => i.qincr = [] ∧
      (HeadRestart i.qevts ∨ QdumpOk i ∧ IncrFlow pos i.waits (i.qevts ++ up) down pr)
  | .wait => i.waits = 0 ∧ IsBatch c pos i.qincr ∧
      (HeadRestart i.qevts ∨ i.qevts = [] ∧ QdumpOk i ∧ WaitFlow pos up down pr)
  | .dump => IsBatch c pos i.qincr ∧
      (HeadRestart i.qevts ∨ i.qevts = [] ∧ (∀ e ∈ i.qdump, DumpEvt e) ∧
        DumpFlow pos i.waits (reps i.qdump) up down pr)
  | _ => pending (i.qevts ++ up) = 0 ∧ (pr.mode = .incr → hasRestart (i.qevts ++ up) = true)

/-- The server's state of the client `c`. -/
structure Serving (c : Bytes) (pos : Nat) (i : ClientInfo) (up down : List Evt) (pr : Proc) :
    Prop where
  id : i.id = c
  qevts : ∀ e ∈ i.qevts, FromClient c e
  qdump : ∀ e ∈ i.qdump, e.id = c
  phase : Phase c pos i up down pr

/-- A client the server has no state of: its next event, if any, is a restart. -/
structure Unserved (up down : List Evt) (pr : Proc) : Prop where
  upOk : pending up = 0
  downOk : pr.mode = .incr → hasRestart up = false → down = []

/-- The server's side of an INCR client. -/
def ServerSide (c : Bytes) (pos : Nat) (up down : List Evt) (pr : Proc) :
    Option ClientInfo → Prop
  | none => Unserved up down pr
  | some i => Serving c pos i up down pr

theorem not_synced_of_restart {p : Proc} (h : hasRestart l = true) : ¬Synced p l := by
  intro hs
  rw [hs.2] at h
  cases h

theorem Below.subset (h : Below n down pr)
    (hsub : pr'.live ++ incrSeqs down' ⊆ pr.live ++ incrSeqs down) : Below n down' pr' :=
  fun t ht => h t (hsub ht)

--
-- What happens to the client alone
--

/-- The link after something that leaves the stream of its client as it is: the
process dies, with or without an event, or it skips an event. -/
theorem ServerSide.change (h : ServerSide c pos up down pr info)
    (hsub : pr'.live ++ incrSeqs down' ⊆ pr.live ++ incrSeqs down) (hnil : down = [] → down' = [])
    (hsame : pr'.mode = .incr → pr' = pr ∧ unseen pr.lastSeq down' = unseen pr.lastSeq down) :
    ServerSide c pos up down' pr' info := by
  cases info with
  | none =>
    refine ⟨h.upOk, fun hm hcut => hnil (h.downOk ?_ hcut)⟩
    rw [← (hsame hm).1]
    exact hm
  | some i =>
    refine ⟨h.id, h.qevts, h.qdump, ?_⟩
    have hphase := h.phase
    unfold Phase at hphase ⊢
    split at hphase
    · obtain ⟨hqincr, hor⟩ := hphase
      refine ⟨hqincr, hor.imp_right fun ⟨hqdump, hflow⟩ => ⟨hqdump, hflow.replies, hflow.bound,
        hflow.below.subset hsub, fun hs => ?_⟩⟩
      obtain ⟨rfl, hunseen⟩ := hsame hs.1
      rw [hunseen]
      exact hflow.synced hs
    · obtain ⟨hwaits, hbatch, hor⟩ := hphase
      refine ⟨hwaits, hbatch, hor.imp_right fun ⟨hqevts, hqdump, hflow⟩ => ⟨hqevts, hqdump,
        hflow.replies, hflow.bound, hflow.below.subset hsub, fun hs => ?_⟩⟩
      obtain ⟨rfl, hunseen⟩ := hsame hs.1
      rw [hunseen]
      exact hflow.synced hs
    · obtain ⟨hbatch, hor⟩ := hphase
      refine ⟨hbatch, hor.imp_right fun ⟨hqevts, hqdump, hflow⟩ => ⟨hqevts, hqdump, hflow.upOk,
        hflow.bound, hflow.below.subset hsub, fun hs => ?_⟩⟩
      obtain ⟨rfl, hunseen⟩ := hsame hs.1
      rw [hunseen]
      exact hflow.synced hs
    · refine ⟨hphase.1, fun hm => hphase.2 ?_⟩
      rw [← (hsame hm).1]
      exact hm

theorem incrSeqs_subset (h : down'.Sublist down) :
    incrSeqs down' ⊆ incrSeqs down := (h.filterMap _).subset

theorem ServerSide.crash (h : ServerSide c pos up down pr info) (hsub : down'.Sublist down)
    (hmode : pr'.mode = .gone) : ServerSide c pos up down' pr' info := by
  have hdead : pr'.mode ≠ .incr := by simp [hmode]
  refine h.change ?_ ?_ fun hm => absurd hm hdead
  · rw [live_gone hdead, nil_append]
    exact List.Subset.trans (incrSeqs_subset hsub) (subset_append_right ..)
  · rintro rfl
    exact sublist_nil.mp hsub

theorem ServerSide.start (h : ServerSide c pos up down pr info) (hhanded : pr'.handed = [])
    (he : e.isRestart = true) : ServerSide c pos (up ++ [e]) down pr' info := by
  have hrest : ∀ l : List Evt, hasRestart (l ++ [e]) = true := by simp [he]
  have hns : ∀ l : List Evt, ¬Synced pr' (l ++ [e]) := fun l => not_synced_of_restart (hrest l)
  have hsub : pr'.live ++ incrSeqs down ⊆ pr.live ++ incrSeqs down := by
    have hlive : pr'.live = [] := by
      unfold Proc.live Proc.seqs
      rw [hhanded]
      split <;> rfl
    rw [hlive]
    exact subset_append_right ..
  cases info with
  | none =>
    refine ⟨?_, fun _ hf => ?_⟩
    · rw [pending_snoc_restart _ he]
      exact h.upOk
    · rw [hrest] at hf
      cases hf
  | some i =>
    refine ⟨h.id, h.qevts, h.qdump, ?_⟩
    have hphase := h.phase
    unfold Phase at hphase ⊢
    split at hphase
    · obtain ⟨hqincr, hor⟩ := hphase
      refine ⟨hqincr, hor.imp_right fun ⟨hqdump, hflow⟩ => ⟨hqdump, ?_⟩⟩
      rw [← append_assoc]
      refine ⟨hflow.replies.snoc (.inr (.inl he)), ?_, hflow.below.subset hsub,
        fun hs => absurd hs (hns _)⟩
      rw [pending_snoc_restart _ he]
      exact hflow.bound
    · obtain ⟨hwaits, hbatch, hor⟩ := hphase
      refine ⟨hwaits, hbatch, hor.imp_right fun ⟨hqevts, hqdump, hflow⟩ => ⟨hqevts, hqdump,
        hflow.replies.snoc (.inr (.inl he)), ?_, hflow.below.subset hsub,
        fun hs => absurd hs (hns _)⟩⟩
      rw [pending_snoc_restart _ he]
      exact hflow.bound
    · obtain ⟨hbatch, hor⟩ := hphase
      refine ⟨hbatch, hor.imp_right fun ⟨hqevts, hqdump, hflow⟩ => ⟨hqevts, hqdump,
        hflow.upOk.snoc (.inr (.inl he)), ?_, hflow.below.subset hsub, fun hs => absurd hs (hns _)⟩⟩
      rw [pending_snoc_restart _ he]
      exact hflow.bound
    · rw [← append_assoc, pending_snoc_restart _ he]
      exact ⟨hphase.1, fun _ => hrest _⟩

theorem ClientSide.start (h : ClientSide c up down pr) (he : e.isRestart = true)
    (hid : FromClient c e) (fetchFrom : Nat) :
    ClientSide c (up ++ [e]) down (.start .incr fetchFrom) where
  upOk x hx := by
    rcases mem_append.mp hx with hx | hx
    · exact h.upOk x hx
    · rw [mem_singleton.mp hx]
      exact ⟨hid, .inl (isRestart_iff.mp he).1⟩
  downOk := h.downOk
  sorted := h.sorted.sublist (sublist_append_right ..)
  lastSeq _ := ⟨.head _, fun t ht => nomatch ht⟩
  seqsOk := List.Pairwise.nil

theorem ClientSide.crash (h : ClientSide c up down pr) (hsub : down'.Sublist down)
    (hmode : pr'.mode = .gone) (hseqs : pr'.seqs.Pairwise (· < ·)) : ClientSide c up down' pr' where
  upOk := h.upOk
  downOk e he := h.downOk e (hsub.subset he)
  sorted := by
    have hseq : (incrSeqs down').Sublist (incrSeqs down) := hsub.filterMap _
    rw [live_gone (by simp [hmode])]
    exact h.sorted.sublist (hseq.trans (sublist_append_right ..))
  lastSeq hm := by
    rw [hmode] at hm
    cases hm
  seqsOk := hseqs

--
-- The client takes an event
--

/-- What a turn of the client's loop comes to on a link: an increment with a new
number is handed over, or a dump request answered. -/
inductive Taken (pr : Proc) (evt : Evt) (pr' : Proc) (r : Evt) : Prop
  | incr (hevt : IsIncr evt) (hseq : pr.lastSeq < evt.taskSeq) (htype : r.evType = .incrementReq)
      (htask : r.taskSeq = evt.taskSeq + 1) (hnone : r.evState ≠ .none)
      (hseqs : pr'.seqs = pr.seqs ++ [evt.taskSeq]) (hlast : pr'.lastSeq = evt.taskSeq)
  | dump (hevt : IsDumpReq evt) (htype : r.evType = .dumpRep) (hdata : r.evData = evt.evData)
      (htask : r.taskSeq = 0)
      (hseqs : pr'.seqs = pr.seqs) (hlast : pr'.lastSeq = pr.lastSeq)

theorem ClientSide.next_ge (h : ClientSide c up (evt :: rest) pr) (hmode : pr.mode = .incr)
    (htype : evt.evType = .incrementRep) : pr.lastSeq ≤ evt.taskSeq := by
  have hsorted := h.sorted
  rw [live_eq hmode, incrSeqs_cons_incr _ htype] at hsorted
  rcases mem_cons.mp (h.lastSeq hmode).1 with hzero | hmem
  · omega
  · exact (pairwise_append.mp hsorted).2.2 _ hmem _ (.head _)

/-- **A turn of the client.** It skips a repeated increment, or takes the event
and answers it. -/
theorem ClientSide.turn {reply : List Evt} (h : ClientSide c up (evt :: rest) pr)
    (hmode : pr.mode = .incr) (hloop : LoopStep pr evt pr' reply) :
    (pr' = pr ∧ reply = [] ∧ evt.evType = .incrementRep ∧ evt.taskSeq = pr.lastSeq) ∨
    ∃ r, reply = [r] ∧ r.id = c ∧ pr'.mode = (if r.evState = .succ then .incr else .gone) ∧
      Taken pr evt pr' r := by
  obtain ⟨hid, hkind⟩ := h.downOk evt (.head _)
  cases hloop with
  | skip htype hseq => exact .inl ⟨rfl, rfl, htype, hseq⟩
  | incr st reply htype hseq hst hreply =>
    have hincr : IsIncr evt := by
      rcases hkind with hincr | hdump
      · exact hincr
      · exact nomatch htype.symm.trans hdump.1
    refine .inr ⟨reply, rfl, by rw [hreply]; exact hid, by rw [hreply, hmode], ?_⟩
    refine .incr hincr hseq (by rw [hreply]) ?_ (by rw [hreply]; exact hst) ?_ rfl
    · rw [hreply]
      exact Nat.mod_eq_of_lt hincr.2
    · simp [Proc.seqs]
  | dump st dumpedAt reply htype hdump hreply =>
    have hreq : IsDumpReq evt := by
      rcases hkind with hincr | hreq
      · rw [hincr.1] at htype
        cases htype
      · exact hreq
    refine .inr ⟨reply, rfl, by rw [hreply]; exact hid, by rw [hreply, hmode], ?_⟩
    exact .dump hreq (by rw [hreply]) (by rw [hreply]) (by rw [hreply]) rfl rfl

theorem Taken.not_isRestart (h : Taken pr evt pr' r) : r.isRestart = false := by
  cases h with
  | incr hevt hseq htype htask hnone => exact Pole.not_isRestart (.inr hnone)
  | dump hevt htype => exact Pole.not_isRestart (.inl (by simp [htype]))

theorem Taken.seqs (h : Taken pr evt pr' r) (hmode : pr.mode = .incr) (rest : List Evt) :
    pr'.seqs ++ incrSeqs rest = pr.live ++ incrSeqs (evt :: rest) := by
  rw [live_eq hmode]
  cases h with
  | incr hevt hseq htype htask hnone hseqs =>
    rw [hseqs, incrSeqs_cons_incr _ hevt.1, append_assoc, singleton_append]
  | dump hevt htype hdata htask hseqs =>
    rw [hseqs, incrSeqs_cons_other _ (by simp [hevt.1])]

theorem Taken.subset (h : Taken pr evt pr' r) (hmode : pr.mode = .incr) (rest : List Evt) :
    pr'.live ++ incrSeqs rest ⊆ pr.live ++ incrSeqs (evt :: rest) := by
  rw [← h.seqs hmode rest]
  unfold Proc.live
  split
  · exact List.Subset.refl _
  · exact subset_append_right ..

theorem Taken.unseen (h : Taken pr evt pr' r) (rest : List Evt) :
    Pole.unseen pr.lastSeq (evt :: rest) = evt :: Pole.unseen pr'.lastSeq rest := by
  cases h with
  | incr hevt hseq htype htask hnone hseqs hlast =>
    rw [unseen_cons_new _ hevt.1 (by omega), hlast]
  | dump hevt htype hdata htask hseqs hlast =>
    rw [unseen_cons_other _ (by simp [hevt.1]), hlast]

theorem ClientSide.skip (h : ClientSide c up (evt :: rest) pr) : ClientSide c up rest pr where
  upOk := h.upOk
  downOk e he := h.downOk e (.tail _ he)
  sorted := by
    have hsub : (incrSeqs rest).Sublist (incrSeqs (evt :: rest)) :=
      (sublist_cons_self ..).filterMap _
    exact h.sorted.sublist ((List.Sublist.refl _).append hsub)
  lastSeq := h.lastSeq
  seqsOk := h.seqsOk

theorem ServerSide.skip (h : ServerSide c pos up (evt :: rest) pr info)
    (htype : evt.evType = .incrementRep) (hseq : evt.taskSeq = pr.lastSeq) :
    ServerSide c pos up rest pr info := by
  refine h.change ?_ nofun fun _ => ⟨rfl, (unseen_cons_seen _ htype hseq).symm⟩
  exact append_subset.mpr ⟨subset_append_left ..,
    List.Subset.trans (incrSeqs_subset (sublist_cons_self ..)) (subset_append_right ..)⟩

theorem ClientSide.recv (h : ClientSide c up (evt :: rest) pr) (hmode : pr.mode = .incr)
    (hid : r.id = c) (ht : Taken pr evt pr' r) : ClientSide c (up ++ [r]) rest pr' := by
  have hsorted : (pr'.seqs ++ incrSeqs rest).Pairwise (· ≤ ·) := by
    rw [ht.seqs hmode rest]
    exact h.sorted
  obtain ⟨hlastMem, hlastMax⟩ := h.lastSeq hmode
  refine ⟨fun x hx => ?_, fun x hx => h.downOk x (.tail _ hx), ?_, fun _ => ?_, ?_⟩
  · rcases mem_append.mp hx with hx | hx
    · exact h.upOk x hx
    · rw [mem_singleton.mp hx]
      cases ht with
      | incr hevt hseq htype htask =>
        refine ⟨⟨hid, ?_⟩, .inl htype⟩
        rw [htask]
        exact hevt.2
      | dump hevt htype hdata htask =>
        refine ⟨⟨hid, ?_⟩, .inr htype⟩
        rw [htask]
        decide
  · unfold Proc.live
    split
    · exact hsorted
    · exact hsorted.sublist (sublist_append_right ..)
  · cases ht with
    | incr hevt hseq htype htask hnone hseqs hlast =>
      rw [hlast, hseqs]
      refine ⟨by simp, fun t ht' => ?_⟩
      rcases mem_append.mp ht' with ht' | ht'
      · have := hlastMax t ht'
        omega
      · rw [mem_singleton.mp ht']
    | dump hevt htype hdata htask hseqs hlast =>
      rw [hlast, hseqs]
      exact ⟨hlastMem, hlastMax⟩
  · cases ht with
    | incr hevt hseq htype htask hnone hseqs =>
      rw [hseqs, pairwise_append]
      refine ⟨h.seqsOk, pairwise_singleton .., fun t ht' u hu => ?_⟩
      rw [mem_singleton.mp hu]
      have := hlastMax t ht'
      omega
    | dump hevt htype hdata htask hseqs =>
      rw [hseqs]
      exact h.seqsOk

theorem Taken.answer (h : Taken pr evt pr' r) (hincr : IsIncr evt) (hseq : evt.taskSeq = t) :
    (r.evState = .succ ∧ IsReply (t + 1) r) ∨ (r.evState ≠ .succ ∧ IsFailure r) := by
  cases h with
  | dump hevt => exact absurd hevt hincr.not_isDumpReq
  | incr hevt hnew htype htask hnone =>
    by_cases hsucc : r.evState = .succ
    · have := hincr.2
      exact .inl ⟨hsucc, ⟨htype, hsucc⟩, by omega, by omega⟩
    · refine .inr ⟨hsucc, htype, ?_, by omega⟩
      cases hst : r.evState with
      | none => exact absurd hst hnone
      | succ => exact absurd hst hsucc
      | fail => exact .inl rfl
      | fatal => exact .inr rfl

theorem succ_of_mode {m : Mode} {st : EvState} (h : m = if st = .succ then .incr else .gone)
    (hm : m = .incr) : st = .succ := by
  by_contra hfail
  rw [if_neg hfail, hm] at h
  cases h

theorem IncrFlow.recv {waits : Nat} {evts : List Evt} (h : IncrFlow pos waits evts (evt :: rest) pr)
    (hmode : pr.mode = .incr) (hmode' : pr'.mode = (if r.evState = .succ then .incr else .gone))
    (ht : Taken pr evt pr' r) : IncrFlow pos waits (evts ++ [r]) rest pr' := by
  have hr := ht.not_isRestart
  have hbelow := h.below.subset (ht.subset hmode rest)
  rcases hcut : hasRestart evts with _ | _
  · -- in step: the event is the next one, and so is the answer
    obtain ⟨hall, hlen, hnum, hseqs⟩ := h.synced ⟨hmode, hcut⟩
    rw [ht.unseen] at hlen hnum
    obtain ⟨⟨hincr, hseq⟩, hnum'⟩ := hnum
    rw [length_cons] at hlen
    have hcut' : hasRestart (evts ++ [r]) = false := by simp [hcut, hr]
    have hans := ht.answer hincr hseq
    rw [show pos + evts.length + 1 = pos + 1 + evts.length by omega] at hans
    refine ⟨h.replies.snoc (.inr (.inr ⟨hall, hans.imp And.right And.right⟩)), ?_, hbelow,
      fun hs => ?_⟩
    · rw [pending_eq_length hcut', length_append, length_singleton]
      omega
    · have hsucc := succ_of_mode hmode' hs.1
      refine ⟨mem_snoc hall hsucc, ?_, ?_, fun t ht' => ?_⟩
      · rw [length_append, length_singleton]
        omega
      · rw [length_append, length_singleton, ← Nat.add_assoc]
        exact hnum'
      · rw [length_append, length_singleton]
        cases ht with
        | dump hevt => exact absurd hevt hincr.not_isDumpReq
        | incr hevt hnew htype htask hnone hseqs' =>
          rw [hseqs'] at ht'
          rcases mem_append.mp ht' with ht' | ht'
          · have := hseqs t ht'
            omega
          · rw [mem_singleton.mp ht']
            omega
  · -- behind a restart: the answer belongs to nobody
    have hcut' : hasRestart (evts ++ [r]) = true := by simp [hcut]
    refine ⟨h.replies.snoc (.inl hcut), ?_, hbelow,
      fun hs => absurd hs (not_synced_of_restart hcut')⟩
    rw [pending_append_restart _ hcut]
    exact h.bound

theorem WaitFlow.recv (h : WaitFlow pos up (evt :: rest) pr) (hmode : pr.mode = .incr)
    (hmode' : pr'.mode = (if r.evState = .succ then .incr else .gone)) (ht : Taken pr evt pr' r) :
    WaitFlow pos (up ++ [r]) rest pr' := by
  have hr := ht.not_isRestart
  have hbelow := h.below.subset (ht.subset hmode rest)
  rcases hcut : hasRestart up with _ | _
  · -- in step: the event is the one an earlier process left
    have hearly := h.synced ⟨hmode, hcut⟩
    rw [ht.unseen] at hearly
    unfold Early at hearly
    split at hearly
    · next heq => cases heq
    · next e heq =>
      obtain ⟨rfl, hrest⟩ := List.cons.inj heq
      obtain ⟨hincr, hseq, -⟩ := hearly
      have hans := ht.answer hincr hseq
      refine ⟨Replies.snoc (l := []) trivial (.inr (.inr ⟨fun x hx => (nomatch hx),
        hans.imp And.right And.right⟩)), ?_, hbelow, fun hs => ?_⟩
      · rw [nil_append, pending_eq_length (by simp [hr])]
        exact Nat.le_refl 1
      · have hsucc := succ_of_mode hmode' hs.1
        rw [nil_append, hrest]
        refine ⟨hsucc, ?_⟩
        cases ht with
        | dump hevt => exact absurd hevt hincr.not_isDumpReq
        | incr hevt hnew htype htask hnone hseqs' hlast => rw [hlast, hseq]
    · next heq => cases heq
    · exact hearly.elim
  · have hcut' : hasRestart (up ++ [r]) = true := by simp [hcut]
    refine ⟨h.replies.snoc (.inl hcut), ?_, hbelow,
      fun hs => absurd hs (not_synced_of_restart hcut')⟩
    rw [pending_append_restart _ hcut]
    exact h.bound

theorem DumpFlow.recv {waits queued : Nat} (h : DumpFlow pos waits queued up (evt :: rest) pr)
    (hmode : pr.mode = .incr) (ht : Taken pr evt pr' r) :
    DumpFlow pos waits queued (up ++ [r]) rest pr' := by
  have hr := ht.not_isRestart
  have hbelow := h.below.subset (ht.subset hmode rest)
  rcases hcut : hasRestart up with _ | _
  · obtain ⟨hdown, hlen, hlt⟩ := h.synced ⟨hmode, hcut⟩
    rw [ht.unseen] at hdown hlen
    rw [length_cons] at hlen
    have hevt := hdown evt (.head _)
    have hcut' : hasRestart (up ++ [r]) = false := by simp [hcut, hr]
    cases ht with
    | incr hincr => exact absurd hevt hincr.not_isDumpReq
    | dump _ htype hdata htask hseqs =>
      refine ⟨h.upOk.snoc (.inr (.inr htype)), ?_, hbelow, fun hs => ?_⟩
      · rw [pending_eq_length hcut', length_append, length_singleton]
        omega
      · rw [length_append, length_singleton, hseqs]
        exact ⟨fun e he => hdown e (.tail _ he), by omega, hlt⟩
  · have hcut' : hasRestart (up ++ [r]) = true := by simp [hcut]
    refine ⟨h.upOk.snoc (.inl hcut), ?_, hbelow,
      fun hs => absurd hs (not_synced_of_restart hcut')⟩
    rw [pending_append_restart _ hcut]
    exact h.bound

theorem ServerSide.recv (h : ServerSide c pos up (evt :: rest) pr info) (hmode : pr.mode = .incr)
    (hmode' : pr'.mode = (if r.evState = .succ then .incr else .gone)) (ht : Taken pr evt pr' r) :
    ServerSide c pos (up ++ [r]) rest pr' info := by
  cases info with
  | none =>
    -- a living client without a restart on its way has nothing to take
    have hcut : hasRestart up = true := by
      by_contra hcut
      exact nomatch h.downOk hmode (by simpa using hcut)
    refine ⟨?_, fun _ hf => ?_⟩
    · rw [pending_append_restart _ hcut]
      exact h.upOk
    · simp [hcut] at hf
  | some i =>
    refine ⟨h.id, h.qevts, h.qdump, ?_⟩
    have hphase := h.phase
    unfold Phase at hphase ⊢
    split at hphase
    · obtain ⟨hqincr, hor⟩ := hphase
      refine ⟨hqincr, hor.imp_right fun ⟨hqdump, hflow⟩ => ⟨hqdump, ?_⟩⟩
      rw [← append_assoc]
      exact hflow.recv hmode hmode' ht
    · obtain ⟨hwaits, hbatch, hor⟩ := hphase
      exact ⟨hwaits, hbatch, hor.imp_right fun ⟨hqevts, hqdump, hflow⟩ =>
        ⟨hqevts, hqdump, hflow.recv hmode hmode' ht⟩⟩
    · obtain ⟨hbatch, hor⟩ := hphase
      exact ⟨hbatch, hor.imp_right fun ⟨hqevts, hqdump, hflow⟩ =>
        ⟨hqevts, hqdump, hflow.recv hmode ht⟩⟩
    · have hcut := hphase.2 hmode
      rw [← append_assoc, pending_append_restart _ hcut]
      exact ⟨hphase.1, fun _ => by simp only [hasRestart_append, hcut, Bool.true_or]⟩

--
-- The server sends
--

theorem ClientSide.sendDumps (h : ClientSide c up down pr) (hid : ∀ e ∈ sent, e.id = c)
    (hsent : ∀ e ∈ sent, IsDumpReq e) :
    ClientSide c up (down ++ sent) pr where
  upOk := h.upOk
  downOk e he := by
    rcases mem_append.mp he with he | he
    · exact h.downOk e he
    · exact ⟨hid e he, .inr (hsent e he)⟩
  sorted := by
    rw [incrSeqs_append, incrSeqs_dumps hsent, append_nil]
    exact h.sorted
  lastSeq := h.lastSeq
  seqsOk := h.seqsOk

theorem ClientSide.sendBatch (h : ClientSide c up down pr) (hid : ∀ e ∈ sent, e.id = c)
    (hbelow : Below (pos + 1) down pr) (hsent : Increments pos sent) :
    ClientSide c up (down ++ sent) pr where
  upOk := h.upOk
  downOk e he := by
    rcases mem_append.mp he with he | he
    · exact h.downOk e he
    · exact ⟨hid e he, .inl (hsent.kind e he)⟩
  sorted := by
    rw [incrSeqs_append, ← append_assoc, pairwise_append, hsent.seqs]
    refine ⟨h.sorted, pairwise_le_range', fun t ht u hu => ?_⟩
    have := hbelow t ht
    have := (mem_range'_1.mp hu).1
    omega
  lastSeq := h.lastSeq
  seqsOk := h.seqsOk

theorem sent_increments {q : Queue} (hbatch : IsBatch c pos l) (hpos : pos < u64Size)
    (h : incrReqLoop q n l = .ok (some sent)) :
    sent ≠ [] ∧ Increments pos sent ∧ ∀ e ∈ sent, e.id = c := by
  have hall := incrReqLoop_some h
  obtain ⟨hne, hnum⟩ := hbatch
  refine ⟨?_, ?_⟩
  · rintro rfl
    exact hne (eq_nil_of_length_eq_zero hall.length_eq)
  clear h hne
  induction hall generalizing pos with
  | nil => exact ⟨trivial, fun e he => nomatch he⟩
  | @cons evt e l sent hevt _ ih =>
    obtain ⟨htype, msg, hpull, rfl⟩ := hevt
    obtain ⟨⟨hid, -, hseq⟩, hnum'⟩ := hnum
    rw [Nat.mod_eq_of_lt hpos] at hseq
    have hlt : pos + 1 < u64Size := by
      have hne := (Queue.pullThat_some hpull).1
      unfold Xmq.XMQ_U64_MAX at hne
      omega
    obtain ⟨hincr, hids⟩ := ih hlt hnum'
    refine ⟨⟨⟨⟨htype, by rw [← hseq] at hlt; exact hlt⟩, hseq⟩, hincr⟩, fun x hx => ?_⟩
    rcases mem_cons.mp hx with rfl | hx
    · exact hid
    · exact hids x hx

--
-- The dispenser takes an event
--

/-- A request moves from the channel to `qevts`: the stream is the same. While
the worker waits to send, only a restart may come. -/
theorem Serving.request (h : Serving c pos i (e :: up) down pr) (hid : FromClient c e)
    (htype : e.evType = .incrementReq)
    (hwait : i.state = .wait → i.qevts = [] → e.isRestart = true) :
    Serving c pos { i with qevts := i.qevts ++ [e] } up down pr := by
  refine ⟨h.id, mem_snoc h.qevts hid, h.qdump, ?_⟩
  have hphase := h.phase
  have hsame : i.qevts ++ [e] ++ up = i.qevts ++ e :: up := by simp
  unfold Phase at hphase ⊢
  split at hphase
  · next hstate =>
    rw [hstate]
    obtain ⟨hqincr, hhead | ⟨hqdump, hflow⟩⟩ := hphase
    · exact ⟨hqincr, .inl (hhead.append [e])⟩
    · refine ⟨hqincr, .inr ⟨fun hcut => hqdump ?_, hsame ▸ hflow⟩⟩
      rw [hasRestart_append, Bool.or_eq_false_iff] at hcut
      exact hcut.1
  · next hstate =>
    rw [hstate]
    obtain ⟨hwaits, hbatch, hhead | ⟨hnil, hqdump, hflow⟩⟩ := hphase
    · exact ⟨hwaits, hbatch, .inl (hhead.append [e])⟩
    · refine ⟨hwaits, hbatch, .inl ?_⟩
      rw [hnil]
      exact headRestart_cons [] (hwait hstate hnil)
  · next hstate =>
    rw [hstate]
    obtain ⟨hbatch, hhead | ⟨hnil, hqdump, hflow⟩⟩ := hphase
    · exact ⟨hbatch, .inl (hhead.append [e])⟩
    · -- between dump replies nothing else comes but a restart
      have he : e.isRestart = true := by
        rcases hflow.upOk with he | ⟨hrep, -⟩
        · exact he
        · rw [htype] at hrep
          cases hrep
      refine ⟨hbatch, .inl ?_⟩
      rw [hnil]
      exact headRestart_cons [] he
  · rw [hsame]
    exact hphase

theorem Serving.dumpRep (h : Serving c pos i (e :: up) down pr) (hid : e.id = c)
    (htype : e.evType = .dumpRep) :
    Serving c pos { i with qdump := i.qdump ++ [e] } up down pr := by
  have her : e.isRestart = false := not_isRestart (.inl (by simp [htype]))
  refine ⟨h.id, h.qevts, mem_snoc h.qdump hid, ?_⟩
  have hphase := h.phase
  unfold Phase at hphase ⊢
  split at hphase
  · next hstate =>
    rw [hstate]
    obtain ⟨hqincr, hhead | ⟨hqdump, hflow⟩⟩ := hphase
    · exact ⟨hqincr, .inl hhead⟩
    · -- it was sent behind a restart, which will sweep it away
      have hcut : hasRestart i.qevts = true := by
        by_contra hcut
        have := hflow.replies.mid (by simpa using hcut)
        rw [htype] at this
        cases this
      have hcut' : hasRestart (i.qevts ++ up) = true := by simp [hcut]
      refine ⟨hqincr, .inr ⟨fun hf => ?_, hflow.replies.append_of_restart up hcut, ?_, hflow.below,
        fun hs => absurd hs (not_synced_of_restart hcut')⟩⟩
      · rw [hcut] at hf
        cases hf
      · have hbound := hflow.bound
        rw [pending_append_restart _ hcut] at hbound ⊢
        exact hbound
  · next hstate =>
    rw [hstate]
    obtain ⟨hwaits, hbatch, hhead | ⟨hnil, hqdump, hflow⟩⟩ := hphase
    · exact ⟨hwaits, hbatch, .inl hhead⟩
    · have := Replies.mid (l := []) hflow.replies rfl
      rw [htype] at this
      cases this
  · next hstate =>
    rw [hstate]
    obtain ⟨hbatch, hhead | ⟨hnil, hqdump, hflow⟩⟩ := hphase
    · exact ⟨hbatch, .inl hhead⟩
    · have hreps : reps (i.qdump ++ [e]) = reps i.qdump + 1 := by simp [reps, htype]
      have hbound := hflow.bound
      rw [pending_cons_not _ her] at hbound
      refine ⟨hbatch, .inr ⟨hnil, mem_snoc hqdump (.inr htype), ?_⟩⟩
      show DumpFlow pos i.waits (reps (i.qdump ++ [e])) up down pr
      rw [hreps]
      refine ⟨?_, by omega, hflow.below, fun hs => ?_⟩
      · rcases hflow.upOk with he | ⟨-, hup⟩
        · rw [her] at he
          cases he
        · exact hup
      · obtain ⟨hdown, hlen, hlt⟩ := hflow.synced ⟨hs.1, by simp [her, hs.2]⟩
        rw [length_cons] at hlen
        exact ⟨hdown, by omega, hlt⟩
  · have hzero := hphase.1
    have hcut : hasRestart i.qevts = true := by
      by_contra hcut
      rw [pending_append_not _ (by simpa using hcut), pending_cons_not _ her] at hzero
      omega
    rw [pending_append_restart _ hcut] at hzero
    refine ⟨?_, fun _ => by simp [hcut]⟩
    rw [pending_append_restart _ hcut]
    exact hzero

theorem Serving.dumpReq (h : Serving c pos i up down pr) (hid : e.id = c) (he : IsDumpReq e) :
    Serving c pos { i with qdump := i.qdump ++ [e] } up down pr := by
  have hreps : reps (i.qdump ++ [e]) = reps i.qdump := by simp [reps, he.1]
  have hok : QdumpOk i → QdumpOk { i with qdump := i.qdump ++ [e] } :=
    fun hq hcut => mem_snoc (hq hcut) he
  refine ⟨h.id, h.qevts, mem_snoc h.qdump hid, ?_⟩
  have hphase := h.phase
  unfold Phase at hphase ⊢
  split at hphase
  · next hstate =>
    rw [hstate]
    exact ⟨hphase.1, hphase.2.imp_right (.imp_left hok)⟩
  · next hstate =>
    rw [hstate]
    exact ⟨hphase.1, hphase.2.1, hphase.2.2.imp_right (.imp_right (.imp_left hok))⟩
  · next hstate =>
    rw [hstate]
    refine ⟨hphase.1, hphase.2.imp_right fun hrest =>
      ⟨hrest.1, mem_snoc hrest.2.1 (.inl he), ?_⟩⟩
    rw [hreps]
    exact hrest.2.2
  · exact hphase

theorem Unserved.isRestart (h : Unserved (e :: up) down pr) : e.isRestart = true := by
  rcases pending_eq_zero h.upOk with hup | hup
  · cases hup
  · exact hup.head

theorem enqueue_restart (i : ClientInfo) (he : e.isRestart = true) :
    enqueue i e = { i with qevts := i.qevts ++ [e] } := by
  unfold enqueue
  rw [if_neg (by simp [(isRestart_iff.mp he).1])]

theorem Unserved.register (h : Unserved (e :: up) down pr) (hid : FromClient c e) :
    Serving c pos (enqueue (newInfo c) e) up down pr := by
  rw [enqueue_restart _ h.isRestart]
  refine ⟨rfl, fun x hx => ?_, fun x hx => (nomatch hx), rfl,
    .inl (headRestart_cons [] h.isRestart)⟩
  rw [mem_singleton.mp hx]
  exact hid

--
-- A turn of the worker
--

theorem serial_pos (q : Queue) (c : Bytes) : 0 < serial q c := by
  exact Nat.lt_of_lt_of_le Nat.one_pos (Nat.le_max_right ..)

theorem batchFrom_isBatch (q : Queue) (hid : evt.id = c) :
    IsBatch c (q.fetchPos c) (batchFrom q c evt) := by
  refine ⟨?_, numbered_map_range fun _ _ => ⟨hid, rfl, rfl⟩⟩
  have hlen : (batchFrom q c evt).length = serial q c := by simp [batchFrom]
  rw [← length_pos_iff, hlen]
  exact serial_pos q c

/-- When the worker may restart a client at `pos`. If a further start request is
on its way, or none but the next process will send one: no answer is before it,
and no number above `pos` is on its way or handed over. Otherwise nothing of an
earlier process is left and the process has been handed nothing; or the
increment of number `pos` is left, in its channel or answered. -/
def Restartable (pos : Nat) (up down : List Evt) (pr : Proc) : Prop :=
  if pr.mode = .incr ∧ hasRestart up = false then
    (up = [] ∧ pr.handed = [] ∧
      (down = [] ∨ ∃ e ∈ down.head?, down = [e] ∧ e.evType = .incrementRep ∧ e.taskSeq = pos)) ∨
    (down = [] ∧ pr.seqs = [pos] ∧
      ∃ r ∈ up.head?, up = [r] ∧ r.evType = .incrementReq ∧ r.evState = .succ ∧
        r.taskSeq = pos + 1)
  else pending up = 0 ∧ ∀ t ∈ pr.live ++ incrSeqs down, t ≤ pos

instance (pos : Nat) (up down : List Evt) (pr : Proc) : Decidable (Restartable pos up down pr) :=
  inferInstanceAs (Decidable (ite _ _ _))

theorem Restartable.waitFlow (h : Restartable pos up down pr) (hclient : ClientSide c up down pr)
    (hpos : 1 ≤ pos) : WaitFlow pos up down pr := by
  unfold Restartable at h
  split at h
  · next hsync =>
    obtain ⟨hmode, hcut⟩ := hsync
    have hlive := live_eq hmode
    obtain ⟨rfl, hhanded, hdown⟩ | ⟨rfl, hseqs, r, -, rfl, htype, hsucc, htask⟩ := h
    · have hseqs : pr.seqs = [] := by
        unfold Proc.seqs
        rw [hhanded]
        rfl
      have hzero : pr.lastSeq = 0 := by
        have hmem := (hclient.lastSeq hmode).1
        rw [hseqs] at hmem
        exact mem_singleton.mp hmem
      rcases hdown with rfl | ⟨e, -, rfl, htype, hseq⟩
      · refine ⟨trivial, Nat.zero_le 1, fun t ht => ?_, fun _ t ht => ?_⟩
        · rw [hlive, hseqs] at ht
          cases ht
        · rw [hseqs] at ht
          cases ht
      · have hincr : IsIncr e := by
          rcases (hclient.downOk e (.head _)).2 with hk | hk
          · exact hk
          · exact nomatch htype.symm.trans hk.1
        refine ⟨trivial, Nat.zero_le 1, fun t ht => ?_, fun _ => ?_⟩
        · rw [hlive, hseqs, incrSeqs_cons_incr _ htype] at ht
          have : t = e.taskSeq := mem_singleton.mp ht
          omega
        · rw [hzero, unseen_cons_new _ htype (by omega)]
          refine ⟨hincr, hseq, fun t ht => ?_⟩
          rw [hseqs] at ht
          cases ht
    · -- the answer of number `pos` is on its way
      have hlt := (hclient.upOk r (.head _)).1.2
      have hlast : pr.lastSeq = pos := by
        obtain ⟨hmem, hmax⟩ := hclient.lastSeq hmode
        have hge := hmax pos (by rw [hseqs]; exact .head _)
        rw [hseqs] at hmem
        rcases mem_cons.mp hmem with hzero | hmem
        · omega
        · exact mem_singleton.mp hmem
      refine ⟨.inr (.inl ⟨⟨⟨htype, hsucc⟩, htask, by omega⟩, trivial⟩), ?_, fun t ht => ?_,
        fun _ => ⟨hsucc, hlast⟩⟩
      · rw [pending_eq_length hcut]
        exact Nat.le_refl 1
      · rw [hlive, hseqs] at ht
        have : t = pos := mem_singleton.mp ht
        omega
  · next hns =>
    refine ⟨replies_of_pending h.1, by rw [h.1]; exact Nat.zero_le 1, fun t ht => ?_,
      fun hs => absurd hs hns⟩
    exact Nat.lt_succ_of_le (h.2 t ht)

theorem Serving.restart (q : Queue) (h : Serving c pos i up down pr)
    (hqevts : i.qevts = evt :: rest) (hflow : WaitFlow (q.fetchPos c) up down pr) :
    Serving c (q.fetchPos c)
      { clientInfoInit i with qincr := batchFrom q i.id evt, state := .wait } up down pr := by
  have hid : evt.id = c := (h.qevts evt (by rw [hqevts]; exact .head _)).1
  refine ⟨h.id, fun x hx => (nomatch hx), fun x hx => (nomatch hx), rfl, ?_, .inr ⟨rfl, ?_, hflow⟩⟩
  · rw [h.id]
    exact batchFrom_isBatch q hid
  · exact fun _ x hx => nomatch hx

theorem Serving.incrFlow (h : Serving c pos i up down pr) (hstate : i.state = .incr)
    (hqevts : i.qevts = evt :: rest) (hevt : evt.isRestart = false) :
    i.qincr = [] ∧ QdumpOk i ∧ IncrFlow pos i.waits (i.qevts ++ up) down pr := by
  have hphase := h.phase
  unfold Phase at hphase
  rw [hstate] at hphase
  obtain ⟨hqincr, hhead | hflow⟩ := hphase
  · rw [hqevts] at hhead
    rw [hhead.head] at hevt
    cases hevt
  · exact ⟨hqincr, hflow⟩

theorem Serving.waitFlow (h : Serving c pos i up down pr) (hstate : i.state = .wait)
    (hqevts : i.qevts = []) :
    i.waits = 0 ∧ IsBatch c pos i.qincr ∧ QdumpOk i ∧ WaitFlow pos up down pr := by
  have hphase := h.phase
  unfold Phase at hphase
  rw [hstate] at hphase
  obtain ⟨hwaits, hbatch, hhead | ⟨-, hflow⟩⟩ := hphase
  · rw [hqevts] at hhead
    cases hhead.1
  · exact ⟨hwaits, hbatch, hflow⟩

theorem Serving.dumpFlow (h : Serving c pos i up down pr) (hstate : i.state = .dump)
    (hqevts : i.qevts = []) :
    IsBatch c pos i.qincr ∧ (∀ e ∈ i.qdump, DumpEvt e) ∧
      DumpFlow pos i.waits (reps i.qdump) up down pr := by
  have hphase := h.phase
  unfold Phase at hphase
  rw [hstate] at hphase
  obtain ⟨hbatch, hhead | ⟨-, hflow⟩⟩ := hphase
  · rw [hqevts] at hhead
    cases hhead.1
  · exact ⟨hbatch, hflow⟩

theorem IncrFlow.head {waits : Nat} {evts : List Evt} (h : IncrFlow pos waits (evt :: evts) down pr)
    (hevt : evt.isAnswer) :
    IsReply (pos + 1) evt ∧ 0 < waits ∧
      IncrFlow (pos + 1) (waits - 1) evts down pr := by
  have her : evt.isRestart = false := not_isRestart (.inr (by simp [hevt.2]))
  obtain ⟨hrep, hreplies⟩ : IsReply (pos + 1) evt ∧ Replies (pos + 1 + 1) evts := by
    rcases h.replies with hr | hr | ⟨hf, -⟩
    · rw [her] at hr
      cases hr
    · exact hr
    · rcases hf.2.1 with hs | hs <;> rw [hevt.2] at hs <;> cases hs
  have hbound := h.bound
  rw [pending_cons_not _ her] at hbound
  refine ⟨hrep, by omega, hreplies, by omega, fun t ht => ?_, fun hs => ?_⟩
  · have := h.below t ht
    omega
  · obtain ⟨hall, hlen, hnum, hlt⟩ := h.synced ⟨hs.1, by simp [her, hs.2]⟩
    rw [length_cons] at hlen hnum hlt
    rw [show pos + (evts.length + 1) = pos + 1 + evts.length by omega] at hnum hlt
    exact ⟨fun e he => hall e (.tail _ he), by omega, hnum, hlt⟩

theorem IncrFlow.done {evts : List Evt} (h : IncrFlow pos 0 evts down pr) :
    WaitFlow pos evts down pr := by
  have hpend := Nat.le_zero.mp h.bound
  refine ⟨h.replies, by omega, fun t ht => ?_, fun hs => ?_⟩
  · have := h.below t ht
    omega
  · obtain ⟨-, hlen, -, hlt⟩ := h.synced hs
    have hevts : evts = [] := eq_nil_of_length_eq_zero (by omega)
    have hunseen : unseen pr.lastSeq down = [] := eq_nil_of_length_eq_zero (by omega)
    rw [hunseen, hevts]
    rw [hevts] at hlt
    exact hlt

/-- **Answer.** The position moves on by one; with the last answer the next batch
is queued. -/
theorem Serving.answer (q : Queue) (hpos : q.fetchPos c = pos + 1) (h : Serving c pos i up down pr)
    (hstate : i.state = .incr) (hqevts : i.qevts = evt :: rest) (hevt : evt.isAnswer) :
    Serving c (pos + 1) (syncFrom q { i with qevts := rest, waits := sizeDec i.waits } evt)
      up down pr := by
  have her : evt.isRestart = false := not_isRestart (.inr (by simp [hevt.2]))
  obtain ⟨hqincr, hqdump, hflow⟩ := h.incrFlow hstate hqevts her
  have hid : evt.id = c := (h.qevts evt (by rw [hqevts]; exact .head _)).1
  have hids : ∀ x ∈ rest, FromClient c x := fun x hx =>
    h.qevts x (by rw [hqevts]; exact .tail _ hx)
  rw [hqevts, cons_append] at hflow
  obtain ⟨-, hpos', hflow'⟩ := hflow.head hevt
  have hdec : sizeDec i.waits = i.waits - 1 := by
    unfold sizeDec
    rw [if_neg (by omega)]
  have hqdump' : hasRestart rest = false → ∀ e ∈ i.qdump, IsDumpReq e := fun hcut =>
    hqdump (by rw [hqevts, hasRestart_cons, her, hcut]; rfl)
  unfold syncFrom
  split
  · exact ⟨h.id, hids, h.qdump, hqincr, .inr ⟨hqdump', by rw [hdec]; exact hflow'⟩⟩
  · next hzero =>
    have hzero : i.waits - 1 = 0 := by
      dsimp only at hzero
      omega
    rw [hzero] at hflow'
    refine ⟨h.id, hids, h.qdump, by rw [hdec]; exact hzero, ?_, ?_⟩
    · rw [hqincr, nil_append, h.id, ← hpos]
      exact batchFrom_isBatch q hid
    · -- a restart may already wait behind the last answer
      rcases hrest : rest with _ | ⟨x, rest'⟩
      · rw [hrest, nil_append] at hflow'
        exact .inr ⟨rfl, fun _ => hqdump' (by rw [hrest]; rfl), hflow'.done⟩
      · left
        have hpend := Nat.le_zero.mp hflow'.bound
        rw [hrest] at hpend
        rcases pending_eq_zero hpend with hnil | hhead
        · cases hnil
        · exact headRestart_cons rest' hhead.head

theorem Serving.stop {st : SyncState} (h : Serving c pos i up down pr) (hstate : i.state = .incr)
    (hqevts : i.qevts = evt :: rest) (hfail : evt.evState = .fail ∨ evt.evState = .fatal)
    (hst : st = .exit ∨ st = .ruin) :
    Serving c pos { i with qevts := rest, state := st } up down pr := by
  have her : evt.isRestart = false := by
    refine not_isRestart (.inr ?_)
    rcases hfail with hf | hf <;> simp [hf]
  obtain ⟨-, -, hflow⟩ := h.incrFlow hstate hqevts her
  rw [hqevts, cons_append] at hflow
  have hpend : pending (rest ++ up) = 0 := by
    rcases hflow.replies with hr | ⟨hr, -⟩ | ⟨-, hr⟩
    · rw [her] at hr
      cases hr
    · rw [hr.1.2] at hfail
      rcases hfail with hf | hf <;> cases hf
    · exact hr
  have hcut : pr.mode = .incr → hasRestart (rest ++ up) = true := by
    intro hmode
    by_contra hcut
    -- a living process in step has only sent answers
    have hs : Synced pr (evt :: (rest ++ up)) := ⟨hmode, by
      rw [hasRestart_cons, her]
      simpa using hcut⟩
    have hsucc := (hflow.synced hs).1 evt (.head _)
    rw [hsucc] at hfail
    rcases hfail with hf | hf <;> cases hf
  refine ⟨h.id, fun x hx => h.qevts x (by rw [hqevts]; exact .tail _ hx), h.qdump,
    ?_⟩
  rcases hst with rfl | rfl <;> exact ⟨hpend, hcut⟩

theorem Serving.check (h : Serving c pos i up down pr) (hqevts : i.qevts = evt :: rest)
    (hevt : evt.isRestart = true) :
    Serving c pos { clientInfoInit i with qevts := [evt] } up down pr := by
  refine ⟨h.id, fun x hx => ?_, fun x hx => (nomatch hx), rfl, .inl (headRestart_cons [] hevt)⟩
  rw [mem_singleton.mp hx]
  exact h.qevts evt (by rw [hqevts]; exact .head _)

theorem reps_eq_zero (h : ∀ e ∈ l, IsDumpReq e) : reps l = 0 := by
  unfold reps
  rw [countP_eq_zero]
  intro e he
  simp [(h e he).1]

/-- Nothing that was sent to the client is unanswered. -/
def Settled (up down : List Evt) (pr : Proc) : Prop :=
  pending up = 0 ∧ (pr.mode = .incr → hasRestart up = false → unseen pr.lastSeq down = [])

instance (up down : List Evt) (pr : Proc) : Decidable (Settled up down pr) :=
  inferInstanceAs (Decidable (_ ∧ _))

theorem Serving.sendDump (h : Serving c pos i up down pr) (hstate : i.state = .wait)
    (hqevts : i.qevts = []) (hqdump : i.qdump = evt :: rest) (hsettled : Settled up down pr) :
    Serving c pos { i with qdump := rest, waits := i.waits + 1, state := .dump } up
      (down ++ [evt]) pr := by
  obtain ⟨hwaits, hbatch, hreqs, hflow⟩ := h.waitFlow hstate hqevts
  have hreqs := hreqs (by rw [hqevts]; rfl)
  rw [hqdump] at hreqs
  have hreqs' : ∀ e ∈ rest, IsDumpReq e := fun e he => hreqs e (.tail _ he)
  have hevt : ∀ e ∈ [evt], IsDumpReq e := by
    intro e he
    rw [mem_singleton.mp he]
    exact hreqs evt (.head _)
  obtain ⟨hpend, hunseen⟩ := hsettled
  refine ⟨h.id, h.qevts, fun x hx => h.qdump x (by rw [hqdump]; exact .tail _ hx),
    hbatch, .inr ⟨hqevts, fun e he => .inl (hreqs' e he), ?_⟩⟩
  rw [reps_eq_zero hreqs', hwaits]
  refine ⟨dumpReps_of_pending hpend, by omega, fun t ht => hflow.below t ?_, fun hs => ?_⟩
  · rw [incrSeqs_append, incrSeqs_dumps hevt, append_nil] at ht
    exact ht
  · have hearly := hflow.synced hs
    have hup : up = [] := by
      rw [pending_eq_length hs.2] at hpend
      exact eq_nil_of_length_eq_zero hpend
    have hnone := hunseen hs.1 hs.2
    rw [hup, hnone] at hearly
    rw [unseen_append_dumps hevt, hnone, hup, nil_append]
    exact ⟨hevt, rfl, hearly⟩

theorem Serving.sendBatch (h : Serving c pos i up down pr) (hclient : ClientSide c up down pr)
    (hpos : 1 ≤ pos) (hstate : i.state = .wait) (hqevts : i.qevts = []) (hqdump : i.qdump = [])
    (hne : sent ≠ []) (hsent : Increments pos sent) :
    Serving c pos { i with qincr := [], waits := i.waits + sent.length, state := .incr } up
      (down ++ sent) pr := by
  obtain ⟨hwaits, -, -, hflow⟩ := h.waitFlow hstate hqevts
  have hlen : 1 ≤ sent.length := length_pos_iff.mpr hne
  refine ⟨h.id, h.qevts, h.qdump, rfl, .inr ⟨fun _ e he => ?_, ?_⟩⟩
  · rw [hqdump] at he
    cases he
  · show IncrFlow pos (i.waits + sent.length) (i.qevts ++ up) (down ++ sent) pr
    rw [hwaits, hqevts, nil_append, Nat.zero_add]
    have hbound := hflow.bound
    refine ⟨hflow.replies, by omega, fun t ht => ?_, fun hs => ?_⟩
    · rw [incrSeqs_append, ← append_assoc, hsent.seqs] at ht
      rcases mem_append.mp ht with ht | ht
      · have := hflow.below t ht
        omega
      · have := mem_range'_1.mp ht
        omega
    · have hearly := hflow.synced hs
      -- whoever repeats the first number of the batch makes the client skip it
      obtain ⟨b, bs, rfl⟩ := exists_cons_of_ne_nil hne
      have hbs : Increments (pos + 1) bs := hsent.2
      unfold Early at hearly
      split at hearly
      · next hunseen =>
        have hlast : pr.lastSeq < pos := by
          rcases mem_cons.mp (hclient.lastSeq hs.1).1 with hzero | hmem
          · omega
          · exact hearly _ hmem
        rw [unseen_append_of_nil _ hunseen, hsent.unseen_eq hlast]
        exact ⟨fun e he => (nomatch he), Nat.zero_add _, hsent, hearly⟩
      · next e hunseen =>
        obtain ⟨hincr, hseq, hlt⟩ := hearly
        rw [unseen_append_of_one _ hunseen hincr.1, hseq, hsent.unseen_tail]
        exact ⟨fun e he => (nomatch he), Nat.zero_add _, ⟨⟨hincr, hseq⟩, hbs⟩, hlt⟩
      · next r hunseen =>
        obtain ⟨hsucc, hlast⟩ := hearly
        rw [unseen_append_of_nil _ hunseen, hlast, hsent.unseen_tail]
        refine ⟨fun e he => ?_, Nat.add_comm _ _, hbs, fun t ht => ?_⟩
        · rw [mem_singleton.mp he]
          exact hsucc
        · have := (hclient.lastSeq hs.1).2 t ht
          show t < pos + 1
          omega
      · exact hearly.elim

/-- **Dump events.** All waiting requests go out, and all replies are answered. -/
theorem Serving.passDumps (h : Serving c pos i up down pr) (hstate : i.state = .dump)
    (hqevts : i.qevts = []) (hsent : ∀ e ∈ sent, IsDumpReq e) (hlen : sent.length = reqs i.qdump)
    {waits : Nat} (hwaits : waits = i.waits + reqs i.qdump - reps i.qdump) :
    Serving c pos { i with qdump := [], waits, state := if waits = 0 then .wait else .dump } up
      (down ++ sent) pr := by
  obtain ⟨hbatch, -, hflow⟩ := h.dumpFlow hstate hqevts
  have hbound := hflow.bound
  have hbelow : Below (pos + 1) (down ++ sent) pr := by
    intro t ht
    rw [incrSeqs_append, incrSeqs_dumps hsent, append_nil] at ht
    exact hflow.below t ht
  refine ⟨h.id, h.qevts, fun x hx => (nomatch hx), ?_⟩
  by_cases hzero : waits = 0
  · rw [if_pos hzero]
    have hpend : pending up = 0 := by omega
    refine ⟨hzero, hbatch, .inr ⟨hqevts, fun _ e he => (nomatch he), replies_of_pending hpend,
      by omega, hbelow, fun hs => ?_⟩⟩
    obtain ⟨-, hold, hlt⟩ := hflow.synced hs
    have hup : up = [] := eq_nil_of_length_eq_zero (by omega)
    have hnone : unseen pr.lastSeq down = [] := eq_nil_of_length_eq_zero (by omega)
    have hnil : sent = [] := eq_nil_of_length_eq_zero (by omega)
    rw [hnil, append_nil, hnone, hup]
    exact hlt
  · rw [if_neg hzero]
    refine ⟨hbatch, .inr ⟨hqevts, fun e he => (nomatch he), hflow.upOk, ?_, hbelow, fun hs => ?_⟩⟩
    · show reps [] + pending up ≤ waits
      rw [show reps [] = 0 from rfl]
      omega
    · obtain ⟨hdown, hold, hlt⟩ := hflow.synced hs
      rw [unseen_append_dumps hsent]
      refine ⟨fun e he => ?_, ?_, hlt⟩
      · rcases mem_append.mp he with he | he
        · exact hdown e he
        · exact hsent e he
      · show reps [] + up.length + (unseen pr.lastSeq down ++ sent).length = waits
        rw [length_append, show reps [] = 0 from rfl]
        omega

/-- **Removal.** The state of a client that failed is dropped; a request may be
lost with it only if the client waits in silence then. -/
theorem Serving.leave (h : Serving c pos i up down pr) (hstate : i.state = .exit ∨ i.state = .ruin)
    (hleft : i.qevts = [] ∨ Unserved up down pr) : Unserved up down pr := by
  have hphase := h.phase
  unfold Phase at hphase
  have hphase : pending (i.qevts ++ up) = 0 ∧
      (pr.mode = .incr → hasRestart (i.qevts ++ up) = true) := by
    rcases hstate with hs | hs <;> rw [hs] at hphase <;> exact hphase
  rcases hleft with hnil | hun
  · rw [hnil, nil_append] at hphase
    refine ⟨hphase.1, fun hmode hcut => ?_⟩
    rw [hphase.2 hmode] at hcut
    cases hcut
  · exact hun

end Supex.Pole
