import Supex.Lib.Bytes

/-!
# Buffered reads from a socket

The transport of a socket returns bytes in whatever pieces they arrive, and times out in
between; a read of a line or of a number of bytes goes on until it has all of it, or
returns what it has taken so far. `Socket.Advance` says how far a read came: `n` bytes
are gone from the stream, and the timeouts behind them (`Socket.pauses`, as offsets) are
still to come.

* `recvLine_spec`, `recvRaw_spec` — what the reads return.
-/

namespace Supex.Lib

open List

/-- What the transport returns next. -/
inductive Recv where
  | data (bs : Bytes)
  | timeout
  deriving DecidableEq

/-- The bytes that were received and not read, and what is to come. After the last event
the peer closes. -/
structure Socket where
  buffer : Bytes
  events : List Recv
  deriving DecidableEq

inductive IoErr where
  | timeout
  | closed
  deriving DecidableEq

def arriving : List Recv → Bytes
  | [] => []
  | .data bs :: events => bs ++ arriving events
  | .timeout :: events => arriving events

/-- All bytes that can be read. -/
def Socket.stream (s : Socket) : Bytes := s.buffer ++ arriving s.events

/-- Where the timeouts are, `k` bytes being in front of the events. -/
def offsets : Nat → List Recv → List Nat
  | _, [] => []
  | k, .data bs :: events => offsets (k + bs.length) events
  | k, .timeout :: events => k :: offsets k events

def Socket.pauses (s : Socket) : List Nat := offsets s.buffer.length s.events

/-- The bytes up to the next line feed without carriage returns; an error comes with what
was taken. -/
def recvLine : Bytes → Bytes → List Recv → Except (IoErr × Bytes) Bytes × Socket
  | acc, buffer, events =>
    let line := acc ++ (buffer.takeWhile (· ≠ 10)).filter (· ≠ 13)
    match buffer.dropWhile (· ≠ 10) with
    | _ :: rest => (.ok line, ⟨rest, events⟩)
    | [] =>
      match events with
      | [] => (.error (.closed, line), ⟨[], []⟩)
      | .timeout :: events => (.error (.timeout, line), ⟨[], events⟩)
      | .data bs :: events => recvLine line bs events

/-- A number of bytes, all from the transport. -/
def recvRawFrom : Nat → Bytes → List Recv → Except (IoErr × Bytes) Bytes × Socket
  | _, acc, [] => (.error (.closed, acc), ⟨[], []⟩)
  | _, acc, .timeout :: events => (.error (.timeout, acc), ⟨[], events⟩)
  | wanted, acc, .data bs :: events =>
    if wanted ≤ bs.length then (.ok (acc ++ bs.take wanted), ⟨bs.drop wanted, events⟩)
    else recvRawFrom (wanted - bs.length) (acc ++ bs) events

/-- A number of bytes. An empty buffer is filled before anything is counted. -/
def recvRaw (wanted : Nat) (s : Socket) : Except (IoErr × Bytes) Bytes × Socket :=
  if s.buffer = [] then recvRawFrom wanted [] s.events
  else if wanted ≤ s.buffer.length then
    (.ok (s.buffer.take wanted), ⟨s.buffer.drop wanted, s.events⟩)
  else recvRawFrom (wanted - s.buffer.length) s.buffer s.events

--
-- Progress
--

/-- `n` bytes of the stream are gone. -/
structure Socket.Advance (s : Socket) (n : Nat) (s' : Socket) : Prop where
  stream : s'.stream = s.stream.drop n
  le : n ≤ s.stream.length
  pauses : ∀ t, 0 < t → (t ∈ s'.pauses ↔ t + n ∈ s.pauses)
  events : s'.events.length ≤ s.events.length

variable {events : List Recv}

theorem mem_offsets_add {t k n : Nat} : t + n ∈ offsets (k + n) events ↔ t ∈ offsets k events := by
  induction events generalizing k with
  | nil => exact iff_of_false nofun nofun
  | cons e events ih =>
    rcases e with bs | _
    · have hk : k + n + bs.length = k + bs.length + n := by omega
      rw [offsets, offsets, hk]
      exact ih
    · rw [offsets, offsets, mem_cons, mem_cons, ih, Nat.add_right_cancel_iff]

theorem le_of_mem_offsets {t k : Nat} (h : t ∈ offsets k events) : k ≤ t := by
  induction events generalizing k with
  | nil => cases h
  | cons e events ih =>
    rcases e with bs | _
    · exact (Nat.le_add_right k _).trans (ih h)
    · rcases mem_cons.mp h with rfl | h
      · exact le_rfl
      · exact ih h

variable {s s₁ s₂ : Socket} {n m : Nat}

theorem Socket.Advance.refl (s : Socket) : s.Advance 0 s :=
  ⟨rfl, Nat.zero_le _, fun _ _ => Iff.rfl, le_rfl⟩

theorem Socket.Advance.trans (h : s.Advance n s₁) (h' : s₁.Advance m s₂) :
    s.Advance (n + m) s₂ := by
  have hle := h'.le
  rw [h.stream, length_drop] at hle
  refine ⟨?_, ?_, fun t ht => ?_, h'.events.trans h.events⟩
  · rw [h'.stream, h.stream, drop_drop]
  · have := h.le
    omega
  · rw [h'.pauses t ht, h.pauses (t + m) (by omega)]
    have hsum : t + m + n = t + (n + m) := by omega
    rw [hsum]

theorem Socket.Advance.buffer {bs rest : Bytes} :
    (⟨bs ++ rest, events⟩ : Socket).Advance bs.length ⟨rest, events⟩ := by
  refine ⟨?_, ?_, fun t _ => ?_, le_rfl⟩
  · change rest ++ arriving events = ((bs ++ rest) ++ arriving events).drop bs.length
    rw [append_assoc, drop_left]
  · change bs.length ≤ ((bs ++ rest) ++ arriving events).length
    rw [length_append, length_append]
    omega
  · change t ∈ offsets rest.length events ↔ t + bs.length ∈ offsets (bs ++ rest).length events
    rw [length_append, Nat.add_comm bs.length, mem_offsets_add]

theorem Socket.Advance.flush (buffer : Bytes) (events : List Recv) :
    (⟨buffer, events⟩ : Socket).Advance buffer.length ⟨[], events⟩ := by
  have hbuf : (⟨buffer ++ [], events⟩ : Socket).Advance buffer.length ⟨[], events⟩ := .buffer
  rwa [append_nil] at hbuf

theorem Socket.Advance.recv {acc bs : Bytes} :
    (⟨acc, .data bs :: events⟩ : Socket).Advance 0 ⟨acc ++ bs, events⟩ := by
  refine ⟨?_, Nat.zero_le _, fun t _ => ?_, Nat.le_succ _⟩
  · change (acc ++ bs) ++ arriving events = acc ++ (bs ++ arriving events)
    rw [append_assoc]
  · change t ∈ offsets (acc ++ bs).length events ↔ t ∈ offsets (acc.length + bs.length) events
    rw [length_append]

theorem Socket.Advance.timeout : (⟨[], .timeout :: events⟩ : Socket).Advance 0 ⟨[], events⟩ := by
  refine ⟨rfl, Nat.zero_le _, fun t ht => ?_, Nat.le_succ _⟩
  change t ∈ offsets 0 events ↔ t ∈ 0 :: offsets 0 events
  rw [mem_cons, or_iff_right (Nat.ne_of_gt ht)]

theorem Socket.Advance.length (h : s.Advance n s₁) : s₁.stream.length + n = s.stream.length := by
  have := h.le
  rw [h.stream, length_drop]
  omega

--
-- Lines
--

/-- What a read of a line did: it found the line feed behind `x` with no timeout in
front of it, or met the first timeout, or the end. -/
inductive LineRead (acc : Bytes) (s : Socket) : Except (IoErr × Bytes) Bytes × Socket → Prop where
  | ok (x rest : Bytes) (s' : Socket) (stream : s.stream = x ++ 10 :: rest) (clean : 10 ∉ x)
      (quiet : ∀ t ∈ s.pauses, x.length < t) (advance : s.Advance (x.length + 1) s') :
      LineRead acc s (.ok (acc ++ x.filter (· ≠ 13)), s')
  | timeout (c : Nat) (line : Bytes) (s' : Socket) (pause : c ∈ s.pauses)
      (clean : 10 ∉ s.stream.take c) (advance : s.Advance c s')
      (events : s'.events.length < s.events.length) :
      LineRead acc s (.error (.timeout, line), s')
  | closed (line : Bytes) (s' : Socket) (clean : 10 ∉ s.stream) :
      LineRead acc s (.error (.closed, line), s')

theorem takeWhile_line {x rest : Bytes} (hx : 10 ∉ x) :
    (x ++ 10 :: rest).takeWhile (· ≠ 10) = x ∧
      (x ++ 10 :: rest).dropWhile (· ≠ 10) = 10 :: rest := by
  have hall : ∀ b ∈ x, decide (b ≠ 10) = true :=
    fun b hb => decide_eq_true fun h : b = 10 => hx (h ▸ hb)
  constructor
  · rw [takeWhile_append_of_pos hall]
    simp
  · rw [dropWhile_append_of_pos hall]
    simp

theorem takeWhile_noLine {x : Bytes} (hx : 10 ∉ x) :
    x.takeWhile (· ≠ 10) = x ∧ x.dropWhile (· ≠ 10) = [] := by
  have hall : ∀ b ∈ x, decide (b ≠ 10) = true :=
    fun b hb => decide_eq_true fun h : b = 10 => hx (h ▸ hb)
  constructor
  · rw [← append_nil x, takeWhile_append_of_pos hall]
    simp
  · rw [← append_nil x, dropWhile_append_of_pos hall]
    simp

theorem recvLine_found (acc : Bytes) {x : Bytes} (rest : Bytes) (events : List Recv) (hx : 10 ∉ x) :
    recvLine acc (x ++ 10 :: rest) events =
      (.ok (acc ++ x.filter (· ≠ 13)), ⟨rest, events⟩) := by
  obtain ⟨htake, hdrop⟩ := @takeWhile_line x rest hx
  rcases events with _ | ⟨bs | _, events⟩ <;>
  · rw [recvLine]
    simp only [htake, hdrop]

theorem recvLine_noLine (acc : Bytes) {buffer : Bytes} (events : List Recv) (hb : 10 ∉ buffer) :
    recvLine acc buffer events = match events with
      | [] => (.error (.closed, acc ++ buffer.filter (· ≠ 13)), ⟨[], []⟩)
      | .timeout :: events => (.error (.timeout, acc ++ buffer.filter (· ≠ 13)), ⟨[], events⟩)
      | .data bs :: events => recvLine (acc ++ buffer.filter (· ≠ 13)) bs events := by
  obtain ⟨htake, hdrop⟩ := takeWhile_noLine hb
  rcases events with _ | ⟨bs | _, events⟩ <;>
  · rw [recvLine]
    simp only [htake, hdrop]

theorem LineRead.skip {acc buffer bs : Bytes} {r : Except (IoErr × Bytes) Bytes × Socket}
    (hb : 10 ∉ buffer) (h : LineRead (acc ++ buffer.filter (· ≠ 13)) ⟨bs, events⟩ r) :
    LineRead acc ⟨buffer, .data bs :: events⟩ r := by
  have hadv : (⟨buffer, .data bs :: events⟩ : Socket).Advance buffer.length ⟨bs, events⟩ :=
    (Socket.Advance.flush buffer _).trans .recv
  have hpauses : ∀ t, t + buffer.length ∈ (⟨buffer, .data bs :: events⟩ : Socket).pauses ↔
      t ∈ (⟨bs, events⟩ : Socket).pauses := by
    intro t
    change t + buffer.length ∈ offsets (buffer.length + bs.length) events ↔ _
    rw [Nat.add_comm buffer.length]
    exact mem_offsets_add
  cases h with
  | ok x rest s' stream clean quiet advance =>
    have hline : acc ++ buffer.filter (· ≠ 13) ++ x.filter (· ≠ 13) =
        acc ++ (buffer ++ x).filter (· ≠ 13) := by
      rw [filter_append, append_assoc]
    rw [hline]
    refine .ok (buffer ++ x) rest s' ?_ ?_ (fun t ht => ?_) ?_
    · rw [append_assoc]
      exact congrArg _ stream
    · rw [mem_append, not_or]
      exact ⟨hb, clean⟩
    · have hle : buffer.length ≤ t := le_of_mem_offsets ht
      have hq := quiet (t - buffer.length) ((hpauses _).mp (by rwa [Nat.sub_add_cancel hle]))
      rw [length_append]
      omega
    · rw [length_append, Nat.add_assoc]
      exact hadv.trans advance
  | timeout c line s' pause clean advance events =>
    refine .timeout (buffer.length + c) line s' ?_ ?_ (hadv.trans advance)
      (events.trans (Nat.lt_succ_self _))
    · rw [Nat.add_comm]
      exact (hpauses c).mpr pause
    · change 10 ∉ (buffer ++ (bs ++ arriving _)).take _
      rw [take_length_add_append, mem_append, not_or]
      exact ⟨hb, clean⟩
  | closed line s' clean =>
    refine .closed line s' ?_
    change 10 ∉ buffer ++ (bs ++ arriving events)
    rw [mem_append, not_or]
    exact ⟨hb, clean⟩

theorem LineRead.found (acc : Bytes) {x : Bytes} (rest : Bytes) (events : List Recv) (hx : 10 ∉ x) :
    LineRead acc ⟨x ++ 10 :: rest, events⟩ (.ok (acc ++ x.filter (· ≠ 13)), ⟨rest, events⟩) := by
  refine .ok x (rest ++ arriving events) _ ?_ hx (fun t ht => ?_) ?_
  · change (x ++ 10 :: rest) ++ arriving events = _
    rw [append_assoc, cons_append]
  · have hle : (x ++ 10 :: rest).length ≤ t := le_of_mem_offsets ht
    rw [length_append, length_cons] at hle
    omega
  · have hbuf : (⟨(x ++ [10]) ++ rest, events⟩ : Socket).Advance (x ++ [10]).length
        ⟨rest, events⟩ := .buffer
    rwa [length_append, append_assoc] at hbuf

theorem recvLine_spec (acc buffer : Bytes) (events : List Recv) :
    LineRead acc ⟨buffer, events⟩ (recvLine acc buffer events) := by
  induction events generalizing acc buffer with
  | nil =>
    by_cases hb : (10 : UInt8) ∈ buffer
    · obtain ⟨x, rest, rfl, hx⟩ := eq_append_cons_of_mem hb
      rw [recvLine_found acc rest [] hx]
      exact .found acc rest [] hx
    · rw [recvLine_noLine acc [] hb]
      refine .closed _ _ ?_
      change 10 ∉ buffer ++ []
      rwa [append_nil]
  | cons e events ih =>
    by_cases hb : (10 : UInt8) ∈ buffer
    · obtain ⟨x, rest, rfl, hx⟩ := eq_append_cons_of_mem hb
      rw [recvLine_found acc rest _ hx]
      exact .found acc rest _ hx
    · rw [recvLine_noLine acc _ hb]
      rcases e with bs | _
      · exact (ih _ bs).skip hb
      · refine .timeout buffer.length _ _ (.head _) ?_
          ((Socket.Advance.flush buffer _).trans .timeout) (Nat.lt_succ_self _)
        change 10 ∉ (buffer ++ arriving events).take _
        rwa [take_left]

--
-- Blocks
--

/-- What a read of `wanted` bytes did: it took them all, or some of them before a timeout
or the end. -/
inductive RawRead (wanted : Nat) (s : Socket) : Except (IoErr × Bytes) Bytes × Socket → Prop where
  | ok (s' : Socket) (le : wanted ≤ s.stream.length) (advance : s.Advance wanted s') :
      RawRead wanted s (.ok (s.stream.take wanted), s')
  | timeout (c : Nat) (s' : Socket) (le : c < wanted ∨ c = 0) (advance : s.Advance c s')
      (events : s'.events.length < s.events.length) :
      RawRead wanted s (.error (.timeout, s.stream.take c), s')
  | closed (s' : Socket) (short : s.stream.length < wanted ∨ s.stream = [])
      (advance : s.Advance s.stream.length s') (events : s'.events = []) :
      RawRead wanted s (.error (.closed, s.stream), s')

theorem RawRead.recv {wanted : Nat} {acc bs : Bytes} {r : Except (IoErr × Bytes) Bytes × Socket}
    (h : RawRead wanted ⟨acc ++ bs, events⟩ r) : RawRead wanted ⟨acc, .data bs :: events⟩ r := by
  have hstream : (⟨acc ++ bs, events⟩ : Socket).stream =
      (⟨acc, .data bs :: events⟩ : Socket).stream := Socket.Advance.recv.stream
  have hadv {n : Nat} {s' : Socket} (h : (⟨acc ++ bs, events⟩ : Socket).Advance n s') :
      (⟨acc, .data bs :: events⟩ : Socket).Advance n s' := by
    have htrans := Socket.Advance.recv.trans h
    rwa [Nat.zero_add] at htrans
  cases h with
  | ok s' le advance =>
    rw [hstream] at le ⊢
    exact .ok s' le (hadv advance)
  | timeout c s' le advance fewer =>
    rw [hstream]
    exact .timeout c s' le (hadv advance) (fewer.trans (Nat.lt_succ_self _))
  | closed s' short advance events =>
    rw [hstream] at short advance ⊢
    exact .closed s' short (hadv advance) events

theorem RawRead.buffer {wanted : Nat} {buffer : Bytes} (events : List Recv)
    (h : wanted ≤ buffer.length) :
    RawRead wanted ⟨buffer, events⟩ (.ok (buffer.take wanted), ⟨buffer.drop wanted, events⟩) := by
  have hlen : (buffer.take wanted).length = wanted := by
    rw [length_take, Nat.min_eq_left h]
  have htake : (⟨buffer, events⟩ : Socket).stream.take wanted = buffer.take wanted :=
    take_append_of_le_length h
  have hbuf : (⟨buffer.take wanted ++ buffer.drop wanted, events⟩ : Socket).Advance
      (buffer.take wanted).length ⟨buffer.drop wanted, events⟩ := .buffer
  rw [take_append_drop, hlen] at hbuf
  rw [← htake]
  exact .ok _ hbuf.le hbuf

theorem recvRawFrom_spec {wanted : Nat} {acc : Bytes} (hacc : acc = [] ∨ 0 < wanted) :
    RawRead (acc.length + wanted) ⟨acc, events⟩ (recvRawFrom wanted acc events) := by
  induction events generalizing wanted acc with
  | nil =>
    have hstream : (⟨acc, []⟩ : Socket).stream = acc := append_nil acc
    have hread : RawRead (acc.length + wanted) ⟨acc, []⟩
        (.error (.closed, (⟨acc, []⟩ : Socket).stream), ⟨[], []⟩) := by
      refine .closed _ ?_ ?_ rfl
      · rw [hstream]
        rcases hacc with rfl | hpos
        · exact .inr rfl
        · exact .inl (Nat.lt_add_of_pos_right hpos)
      · rw [hstream]
        exact .flush acc []
    rwa [hstream] at hread
  | cons e events ih =>
    rcases e with bs | _
    · rw [recvRawFrom]
      split
      · have henough : acc.length + wanted ≤ (acc ++ bs).length := by
          rw [length_append]
          omega
        have hread := RawRead.buffer events henough
        rw [take_length_add_append, drop_length_add_append] at hread
        exact hread.recv
      · have hrest : acc ++ bs = [] ∨ 0 < wanted - bs.length := .inr (by omega)
        have hsum : (acc ++ bs).length + (wanted - bs.length) = acc.length + wanted := by
          rw [length_append]
          omega
        have hread := ih hrest
        rw [hsum] at hread
        exact hread.recv
    · have hread : RawRead (acc.length + wanted) ⟨acc, .timeout :: events⟩
          (.error (.timeout, (⟨acc, .timeout :: events⟩ : Socket).stream.take acc.length),
            ⟨[], events⟩) := by
        refine .timeout acc.length _ ?_ ((Socket.Advance.flush acc _).trans .timeout)
          (Nat.lt_succ_self _)
        rcases hacc with rfl | hpos
        · exact .inr rfl
        · exact .inl (Nat.lt_add_of_pos_right hpos)
      have htake : (⟨acc, .timeout :: events⟩ : Socket).stream.take acc.length = acc :=
        take_left
      rwa [htake] at hread

theorem recvRaw_spec (wanted : Nat) (s : Socket) : RawRead wanted s (recvRaw wanted s) := by
  obtain ⟨buffer, events⟩ := s
  rw [recvRaw]
  split
  · rename_i hb
    obtain rfl : buffer = [] := hb
    have hread : RawRead (([] : Bytes).length + wanted) ⟨[], events⟩
        (recvRawFrom wanted [] events) := recvRawFrom_spec (.inl rfl)
    rwa [length_nil, Nat.zero_add] at hread
  · split
    · rename_i hle
      exact .buffer events hle
    · rename_i hlt
      have hlt := Nat.lt_of_not_le hlt
      have hread : RawRead (buffer.length + (wanted - buffer.length)) ⟨buffer, events⟩
          (recvRawFrom (wanted - buffer.length) buffer events) :=
        recvRawFrom_spec (.inr (Nat.sub_pos_of_lt hlt))
      rwa [Nat.add_sub_cancel' hlt.le] at hread

end Supex.Lib
