import Supex.Lib.Run
import Supex.Tsdb.Commands

/-!
# TSDB — acknowledgements of the slave

`slave_thread` deletes a binlog record when it believes that the slave has
applied it. It believes so when `"OK"` occurs in `recv_buf` after one `recv`.
TCP does not keep the boundaries of the replies, `recv_buf` is a static buffer
that is never cleared and not terminated, and a failed check sends the request
again: what the thread believes is not always what happened.

The model keeps the thread with every state of its two loops, the receive
buffer byte by byte, the bytes on the wire and the requests the slave has not
handled yet. What `get_binlog` returns, how many bytes a `recv` takes, how the
slave answers and when the connection breaks are choices of the run.

Main result: `deleted_applied`.
-/

namespace Supex.Tsdb

open Supex.Lib List

/-! ## The model -/

def RECV_BUF_SIZE : Nat := 512

/-- Where `slave_thread` stands. -/
inductive LinkPc where
  /-- `slave->sock == -1`. -/
  | connect
  /-- At `heart_beat`. -/
  | sendPing
  | recvPing
  | checkPing
  /-- At the head of the loop over the binlog. -/
  | loop
  /-- At `send_syncdata`. -/
  | sendSync
  | recvSync
  | checkSync
  /-- At `delete_binlog`, after a send or straight from `get_binlog`. -/
  | delete (afterSend : Bool)
  deriving DecidableEq

/-- A request: the heart beat, or the record of a sequence number. -/
inductive Request where
  | ping
  | sync (seq : Nat)
  deriving DecidableEq

structure Link where
  pc : LinkPc
  curSeq : Nat
  recvBuf : Bytes
  /-- Replies on the wire. -/
  wire : Bytes
  /-- Requests the slave has not handled. -/
  requests : List Request
  /-- The numbers whose request the slave has applied. -/
  applied : List Nat
  /-- The numbers deleted after a send. -/
  deleted : List Nat

/-- The thread starts with a static buffer, all zero. -/
def Link.init (minSeq : Nat) : Link where
  pc := .connect
  curSeq := minSeq
  recvBuf := List.replicate RECV_BUF_SIZE 0
  wire := []
  requests := []
  applied := []
  deleted := []

inductive LinkAction where
  /-- `sock_connect` succeeds. -/
  | connect
  /-- The thread sends its request, checks a reply, or deletes a record. -/
  | thread
  /-- The thread is at the head of the loop: `none` when `cur_seq > last_seq`,
  else the result of `get_binlog`. -/
  | read (result : Option BinlogRead)
  /-- `recv` returns `n` bytes. -/
  | recv (n : Nat)
  /-- The slave handles its oldest request; `some line` is an error line. -/
  | reply (error : Option Bytes)
  /-- `send` or `recv` fails, and the thread closes the socket. -/
  | disconnect

section Model

variable (behind : Bytes)

/-- `strstr(recv_buf, pattern)`; `behind` is what the memory holds behind the
buffer. -/
def strstrRecvBuf (st : Link) (pattern : Bytes) : Bool :=
  decide (pattern <:+: cstr (st.recvBuf ++ behind))

/-- `recv` into `recv_buf`. -/
def recvInto (st : Link) (n : Nat) : Link :=
  { st with recvBuf := st.wire.take n ++ st.recvBuf.drop n, wire := st.wire.drop n }

/-- The steps of the thread that depend on nothing else. -/
def stepThread (st : Link) : Link :=
  match st.pc with
  | .sendPing => { st with pc := .recvPing, requests := st.requests ++ [.ping] }
  | .checkPing =>
    { st with pc := if strstrRecvBuf behind st (ascii "PONG") then .loop else .sendPing }
  | .sendSync => { st with pc := .recvSync, requests := st.requests ++ [.sync st.curSeq] }
  | .checkSync =>
    { st with pc := if strstrRecvBuf behind st (ascii "OK") then .delete true else .sendSync }
  | .delete afterSend =>
    { st with
      pc := .loop
      curSeq := (st.curSeq + 1) % u64Size
      deleted := if afterSend then st.curSeq :: st.deleted else st.deleted }
  | _ => st

/-- The slave handles a request. -/
def stepReply (st : Link) (error : Option Bytes) : Link :=
  match st.requests, error with
  | [], _ => st
  | _ :: rest, some line => { st with requests := rest, wire := st.wire ++ line }
  | .ping :: rest, none => { st with requests := rest, wire := st.wire ++ OPT_PONG }
  | .sync seq :: rest, none =>
    { st with requests := rest, wire := st.wire ++ OPT_OK, applied := seq :: st.applied }

/-- One step; an action that is not possible in the state changes nothing. -/
def stepLink (st : Link) : LinkAction → Except Fault Link
  | .connect => .ok (if st.pc = .connect then { st with pc := .sendPing } else st)
  | .thread => .ok (stepThread behind st)
  | .read result =>
    .ok (if st.pc = .loop then
      { st with pc :=
          match result with
          | none => .sendPing
          | some .fail => .loop
          | some .expired => .delete false
          | some (.msg _) => .sendSync }
      else st)
  | .recv n =>
    if 1 ≤ n ∧ n ≤ RECV_BUF_SIZE ∧ n ≤ st.wire.length then
      match st.pc with
      | .recvPing => .ok { recvInto st n with pc := .checkPing }
      | .recvSync => .ok { recvInto st n with pc := .checkSync }
      | _ => .ok st
    else .ok st
  | .reply error => .ok (stepReply st error)
  | .disconnect =>
    match st.pc with
    | .sendPing | .recvPing | .sendSync | .recvSync =>
      .ok { st with pc := .connect, wire := [], requests := [] }
    | _ => .ok st

end Model

/-- A line that starts with `-`, ends the line with `\r\n` and fits the buffer
with a NUL behind it. -/
def IsErrorLine (line : Bytes) : Prop :=
  (∃ text, line = 45 :: text ++ crlf) ∧ line.length < RECV_BUF_SIZE

/-- What a run has to respect: a `recv` takes everything that is on the wire,
and an error is a line that does not contain `"OK"`. -/
def WholeReplies (st : Link) : LinkAction → Prop
  | .recv n => n = st.wire.length
  | .reply (some line) => IsErrorLine line ∧ ¬ascii "OK" <:+: line
  | _ => True

/-! ## Searching the buffer -/

theorem pair_infix_iff {a b : UInt8} {l : Bytes} :
    [a, b] <:+: l ↔ ∃ i, l[i]? = some a ∧ l[i + 1]? = some b := by
  constructor
  · rintro ⟨s, t, rfl⟩
    exact ⟨s.length, by simp, by simp⟩
  · rintro ⟨i, ha, hb⟩
    obtain ⟨hlt, hb'⟩ := List.getElem?_eq_some_iff.mp hb
    obtain ⟨hlt', ha'⟩ := List.getElem?_eq_some_iff.mp ha
    refine ⟨l.take i, l.drop (i + 2), ?_⟩
    conv_rhs => rw [← take_append_drop i l]
    rw [drop_eq_getElem_cons hlt', ha', drop_eq_getElem_cons hlt, hb', append_assoc]
    rfl

theorem pair_infix_append {a b c : UInt8} {s t : Bytes} (hc : c ≠ a)
    (h : [a, b] <:+: s ++ [c] ++ t) : [a, b] <:+: s ++ [c] ∨ [a, b] <:+: t := by
  obtain ⟨i, ha, hb⟩ := pair_infix_iff.mp h
  have hlen : (s ++ [c]).length = s.length + 1 := by simp
  rcases Nat.lt_trichotomy i s.length with hi | hi | hi
  · left
    rw [getElem?_append_left (by omega)] at ha hb
    exact pair_infix_iff.mpr ⟨i, ha, hb⟩
  · subst hi
    rw [getElem?_append_left (by omega)] at ha
    simp at ha
    exact absurd ha hc
  · right
    rw [getElem?_append_right (by omega)] at ha hb
    refine pair_infix_iff.mpr ⟨i - (s.length + 1), by rwa [hlen] at ha, ?_⟩
    rw [hlen] at hb
    rwa [show i - (s.length + 1) + 1 = i + 1 - (s.length + 1) by omega]

theorem infix_of_infix_cstr {p buf rest : Bytes} (hnul : (0 : UInt8) ∈ buf)
    (h : p <:+: cstr (buf ++ rest)) : p <:+: buf := by
  have hprefix : cstr (buf ++ rest) <+: buf := by
    unfold cstr
    obtain ⟨s, t, rfl⟩ := append_of_mem hnul
    rw [append_assoc, cons_append, takeWhile_append]
    split
    · simp
    · exact (List.takeWhile_prefix _).trans (prefix_append _ _)
  exact h.trans hprefix.isInfix

/-! ## The invariant -/

/-- What is on the way between thread and slave. -/
def WireInv (behind : Bytes) (st : Link) : Prop :=
  match st.pc with
  | .recvPing =>
    st.requests = [.ping] ∧ st.wire = [] ∨
      st.requests = [] ∧ (st.wire = OPT_PONG ∨ IsErrorLine st.wire ∧ ¬ascii "OK" <:+: st.wire)
  | .recvSync =>
    st.requests = [.sync st.curSeq] ∧ st.wire = [] ∨
      st.requests = [] ∧ (st.wire = OPT_OK ∧ st.curSeq ∈ st.applied ∨
        IsErrorLine st.wire ∧ ¬ascii "OK" <:+: st.wire)
  | .checkSync => st.requests = [] ∧ st.wire = [] ∧
      (strstrRecvBuf behind st (ascii "OK") = true → st.curSeq ∈ st.applied)
  | .delete true => st.requests = [] ∧ st.wire = [] ∧ st.curSeq ∈ st.applied
  | _ => st.requests = [] ∧ st.wire = []

/-- The buffer ends with a NUL and holds no `"OK"` behind its third byte, where
every reply reaches. -/
structure BufInv (buf : Bytes) : Prop where
  length : buf.length = RECV_BUF_SIZE
  nul : buf.drop (RECV_BUF_SIZE - 1) = [0]
  clean : ¬ascii "OK" <:+: buf.drop 3

structure LinkInv (behind : Bytes) (st : Link) : Prop where
  buf : BufInv st.recvBuf
  wire : WireInv behind st
  deleted : ∀ s ∈ st.deleted, s ∈ st.applied

/-- A reply: a line of at least three bytes that fits the buffer, without
`"OK"` behind its third byte. -/
structure IsReply (r : Bytes) : Prop where
  line : ∃ text, r = text ++ [10]
  long : 3 ≤ r.length
  fits : r.length < RECV_BUF_SIZE
  clean : ¬ascii "OK" <:+: r.drop 3

theorem isReply_ok : IsReply OPT_OK :=
  ⟨⟨ascii "+OK" ++ [13], by decide⟩, by decide, by decide, by decide⟩

theorem isReply_pong : IsReply OPT_PONG :=
  ⟨⟨ascii "+PONG" ++ [13], by decide⟩, by decide, by decide, by decide⟩

theorem isReply_error {line : Bytes} (hline : IsErrorLine line) (hno : ¬ascii "OK" <:+: line) :
    IsReply line := by
  obtain ⟨⟨text, rfl⟩, hfits⟩ := hline
  refine ⟨⟨45 :: text ++ [13], by simp [crlf]⟩, by simp [crlf], hfits, ?_⟩
  intro h
  exact hno (h.trans (drop_suffix 3 _).isInfix)

theorem BufInv.recv {buf r : Bytes} (hbuf : BufInv buf) (hr : IsReply r) :
    BufInv (r ++ buf.drop r.length) := by
  have hlong := hr.long
  have hfits := hr.fits
  refine ⟨?_, ?_, ?_⟩
  · rw [length_append, length_drop, hbuf.length]
    omega
  · rw [drop_append, drop_eq_nil_of_le (by omega), nil_append, drop_drop,
      show r.length + (RECV_BUF_SIZE - 1 - r.length) = RECV_BUF_SIZE - 1 by omega]
    exact hbuf.nul
  · rw [drop_append_of_le_length hlong]
    intro h
    obtain ⟨text, htext⟩ := hr.line
    -- the tail of the old buffer is a tail of what lies behind its third byte
    have htail : ¬ascii "OK" <:+: buf.drop r.length := by
      intro htail
      apply hbuf.clean
      rw [show r.length = 3 + (r.length - 3) by omega, ← drop_drop] at htail
      exact htail.trans (drop_suffix _ _).isInfix
    rcases Nat.lt_or_ge text.length 3 with hshort | hge
    · rw [drop_eq_nil_of_le (by rw [htext]; simp; omega), nil_append] at h
      exact htail h
    · have hdrop : r.drop 3 = text.drop 3 ++ [10] := by
        rw [htext, drop_append_of_le_length hge]
      rw [hdrop] at h
      rcases pair_infix_append (a := 79) (b := 75) (by decide) h with h | h
      · rw [← hdrop] at h
        exact hr.clean h
      · exact htail h

theorem not_ok_of_error {behind buf line : Bytes} (hbuf : BufInv buf) (hline : IsErrorLine line)
    (hno : ¬ascii "OK" <:+: line) :
    ¬ascii "OK" <:+: cstr (line ++ buf.drop line.length ++ behind) := by
  have hr := isReply_error hline hno
  have hlong := hr.long
  have hnul : (0 : UInt8) ∈ line ++ buf.drop line.length := by
    apply mem_of_mem_drop (i := RECV_BUF_SIZE - 1)
    rw [(hbuf.recv hr).nul]
    exact .head _
  intro h
  have hin := infix_of_infix_cstr hnul h
  obtain ⟨text, htext⟩ := hr.line
  rw [htext] at hin
  rcases pair_infix_append (a := 79) (b := 75) (by decide) hin with h | h
  · rw [← htext] at h
    exact hno h
  · rw [← htext] at h
    apply hbuf.clean
    rw [show line.length = 3 + (line.length - 3) by omega, ← drop_drop] at h
    exact h.trans (drop_suffix _ _).isInfix

theorem link_init_inv (behind : Bytes) (minSeq : Nat) : LinkInv behind (Link.init minSeq) := by
  refine ⟨⟨by simp [Link.init], ?_, ?_⟩, ⟨rfl, rfl⟩, nofun⟩
  · rw [Link.init, drop_replicate]
    rfl
  intro h
  have hmem : (79 : UInt8) ∈ (Link.init minSeq).recvBuf.drop 3 := h.subset (by decide)
  have := mem_of_mem_drop hmem
  rw [Link.init, mem_replicate] at this
  exact absurd this.2 (by decide)

/-! ## Steps -/

section Steps

variable {behind : Bytes} {st : Link}

theorem stepThread_inv (hinv : LinkInv behind st) : LinkInv behind (stepThread behind st) := by
  have hwire := hinv.wire
  rw [stepThread]
  cases hpc : st.pc with
  | connect | recvPing | loop | recvSync => exact hinv
  | sendPing =>
    rw [WireInv, hpc] at hwire
    refine ⟨hinv.buf, .inl ⟨?_, hwire.2⟩, hinv.deleted⟩
    rw [hwire.1, nil_append]
  | checkPing =>
    rw [WireInv, hpc] at hwire
    refine ⟨hinv.buf, ?_, hinv.deleted⟩
    by_cases hpong : strstrRecvBuf behind st (ascii "PONG") = true
    · rw [if_pos hpong]
      exact hwire
    · rw [if_neg hpong]
      exact hwire
  | sendSync =>
    rw [WireInv, hpc] at hwire
    refine ⟨hinv.buf, .inl ⟨?_, hwire.2⟩, hinv.deleted⟩
    show st.requests ++ [_] = _
    rw [hwire.1, nil_append]
  | checkSync =>
    rw [WireInv, hpc] at hwire
    refine ⟨hinv.buf, ?_, hinv.deleted⟩
    by_cases hok : strstrRecvBuf behind st (ascii "OK") = true
    · rw [if_pos hok]
      exact ⟨hwire.1, hwire.2.1, hwire.2.2 hok⟩
    · rw [if_neg hok]
      exact ⟨hwire.1, hwire.2.1⟩
  | delete afterSend =>
    rw [WireInv, hpc] at hwire
    cases afterSend with
    | false => exact ⟨hinv.buf, hwire, hinv.deleted⟩
    | true =>
      refine ⟨hinv.buf, ⟨hwire.1, hwire.2.1⟩, ?_⟩
      intro s hs
      rcases mem_cons.mp hs with rfl | hs
      · exact hwire.2.2
      · exact hinv.deleted s hs

theorem stepReply_inv (hinv : LinkInv behind st) {error : Option Bytes}
    (hok : WholeReplies st (.reply error)) : LinkInv behind (stepReply st error) := by
  have hwire := hinv.wire
  -- only a thread that waits for a reply has a request under way
  have hidle : st.requests = [] → LinkInv behind (stepReply st error) := by
    intro hnil
    unfold stepReply
    rw [hnil]
    exact hinv
  cases hpc : st.pc with
  | recvPing =>
    rw [WireInv, hpc] at hwire
    rcases hwire with ⟨hreq, hempty⟩ | ⟨hreq, -⟩
    · unfold stepReply
      rw [hreq]
      cases error with
      | none =>
        refine ⟨hinv.buf, ?_, hinv.deleted⟩
        rw [WireInv, hpc]
        exact .inr ⟨rfl, .inl (by rw [hempty]; rfl)⟩
      | some line =>
        refine ⟨hinv.buf, ?_, hinv.deleted⟩
        rw [WireInv, hpc, hempty]
        exact .inr ⟨rfl, .inr hok⟩
    · exact hidle hreq
  | recvSync =>
    rw [WireInv, hpc] at hwire
    rcases hwire with ⟨hreq, hempty⟩ | ⟨hreq, -⟩
    · unfold stepReply
      rw [hreq]
      cases error with
      | none =>
        refine ⟨hinv.buf, ?_, fun s hs => .tail _ (hinv.deleted s hs)⟩
        rw [WireInv, hpc]
        exact .inr ⟨rfl, .inl ⟨by rw [hempty]; rfl, .head _⟩⟩
      | some line =>
        refine ⟨hinv.buf, ?_, hinv.deleted⟩
        rw [WireInv, hpc, hempty]
        exact .inr ⟨rfl, .inr hok⟩
    · exact hidle hreq
  | connect | sendPing | checkPing | loop | sendSync | checkSync =>
    rw [WireInv, hpc] at hwire
    exact hidle hwire.1
  | delete afterSend =>
    rw [WireInv, hpc] at hwire
    cases afterSend with
    | false => exact hidle hwire.1
    | true => exact hidle hwire.1

theorem recvInto_all (st : Link) :
    recvInto st st.wire.length =
      { st with recvBuf := st.wire ++ st.recvBuf.drop st.wire.length, wire := [] } := by
  simp [recvInto]

theorem recvPing_inv (hinv : LinkInv behind st) (hpc : st.pc = .recvPing)
    (hsome : 1 ≤ st.wire.length) :
    LinkInv behind { recvInto st st.wire.length with pc := .checkPing } := by
  have hwire := hinv.wire
  rw [WireInv, hpc] at hwire
  rcases hwire with ⟨-, hempty⟩ | ⟨hreq, hreply⟩
  · rw [hempty] at hsome
    cases hsome
  · have hr : IsReply st.wire := by
      rcases hreply with h | ⟨hline, hno⟩
      · rw [h]
        exact isReply_pong
      · exact isReply_error hline hno
    rw [recvInto_all]
    exact ⟨hinv.buf.recv hr, ⟨hreq, rfl⟩, hinv.deleted⟩

theorem recvSync_inv (hinv : LinkInv behind st) (hpc : st.pc = .recvSync)
    (hsome : 1 ≤ st.wire.length) :
    LinkInv behind { recvInto st st.wire.length with pc := .checkSync } := by
  have hwire := hinv.wire
  rw [WireInv, hpc] at hwire
  rcases hwire with ⟨-, hempty⟩ | ⟨hreq, ⟨hok, happlied⟩ | ⟨hline, hno⟩⟩
  · rw [hempty] at hsome
    cases hsome
  · have hr : IsReply st.wire := by
      rw [hok]
      exact isReply_ok
    rw [recvInto_all]
    exact ⟨hinv.buf.recv hr, ⟨hreq, rfl, fun _ => happlied⟩, hinv.deleted⟩
  · rw [recvInto_all]
    refine ⟨hinv.buf.recv (isReply_error hline hno), ⟨hreq, rfl, fun hstr => ?_⟩, hinv.deleted⟩
    rw [strstrRecvBuf, decide_eq_true_iff] at hstr
    exact absurd hstr (not_ok_of_error hinv.buf hline hno)

theorem stepLink_inv (st : Link) (a : LinkAction) (st' : Link) (hinv : LinkInv behind st)
    (hok : WholeReplies st a) (h : stepLink behind st a = .ok st') : LinkInv behind st' := by
  have hwire := hinv.wire
  cases a with
  | connect =>
    cases h
    split
    · next hpc =>
      rw [WireInv, hpc] at hwire
      exact ⟨hinv.buf, hwire, hinv.deleted⟩
    · exact hinv
  | thread =>
    cases h
    exact stepThread_inv hinv
  | read result =>
    cases h
    split
    · next hpc =>
      rw [WireInv, hpc] at hwire
      refine ⟨hinv.buf, ?_, hinv.deleted⟩
      rcases result with - | - | - | m <;> exact hwire
    · exact hinv
  | recv n =>
    obtain rfl : n = st.wire.length := hok
    rw [stepLink] at h
    split at h
    · next hn =>
      split at h
      · next hpc =>
        cases h
        exact recvPing_inv hinv hpc hn.1
      · next hpc =>
        cases h
        exact recvSync_inv hinv hpc hn.1
      · cases h
        exact hinv
    · cases h
      exact hinv
  | reply error =>
    cases h
    exact stepReply_inv hinv hok
  | disconnect =>
    rw [stepLink] at h
    split at h <;> cases h
    · exact ⟨hinv.buf, ⟨rfl, rfl⟩, hinv.deleted⟩
    · exact ⟨hinv.buf, ⟨rfl, rfl⟩, hinv.deleted⟩
    · exact ⟨hinv.buf, ⟨rfl, rfl⟩, hinv.deleted⟩
    · exact ⟨hinv.buf, ⟨rfl, rfl⟩, hinv.deleted⟩
    · exact hinv

end Steps

/-- **Acknowledgement.** In every run in which each `recv` takes one whole reply
and no error line contains `"OK"`, whatever is deleted after a send was applied
by the slave. -/
theorem deleted_applied (behind : Bytes) (minSeq : Nat) (l : List LinkAction) (st : Link)
    (hok : Along (stepLink behind) WholeReplies (Link.init minSeq) l)
    (hrun : run (stepLink behind) (Link.init minSeq) l = .ok st) :
    ∀ s ∈ st.deleted, s ∈ st.applied :=
  (run_inv_along stepLink_inv (link_init_inv behind minSeq) hok hrun).deleted

/-- The heart beat, and one record that is acknowledged. -/
def pingAndOne : List LinkAction :=
  [.connect, .thread, .reply none, .recv 7, .thread, .read (some (.msg [])), .thread,
    .reply none, .recv 5, .thread, .thread]

/-- The state a run from `min_seq = 1` ends in. -/
def linkEnd (l : List LinkAction) : Link :=
  match run (stepLink []) (Link.init 1) l with
  | .ok st => st
  | .error _ => Link.init 1

theorem pingAndOne_applied :
    (linkEnd pingAndOne).deleted = [1] ∧
      ∀ s ∈ (linkEnd pingAndOne).deleted, s ∈ (linkEnd pingAndOne).applied := by
  refine ⟨by decide, deleted_applied [] 1 pingAndOne _ ?_ rfl⟩
  exact .cons rfl trivial (.cons rfl trivial (.cons rfl trivial (.cons rfl rfl
    (.cons rfl trivial (.cons rfl trivial (.cons rfl trivial (.cons rfl trivial
      (.cons rfl rfl (.cons rfl trivial (.cons rfl trivial trivial))))))))))

/-- Then a second record, which the slave refuses: the `recv` returns the first
byte of the error line, and the `"OK"` of the first record is still behind it. -/
def staleOk : List LinkAction :=
  pingAndOne ++ [.read (some (.msg [])), .thread, .reply (some OPT_CMD_ERROR), .recv 1, .thread,
    .thread]

theorem staleOk_not_applied :
    run (stepLink []) (Link.init 1) staleOk = .ok (linkEnd staleOk) ∧
      ¬∀ s ∈ (linkEnd staleOk).deleted, s ∈ (linkEnd staleOk).applied := by
  refine ⟨rfl, fun h => ?_⟩
  have := h 2 (by decide)
  revert this
  decide

end Supex.Tsdb
