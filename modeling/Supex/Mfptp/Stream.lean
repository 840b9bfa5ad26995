import Supex.Mfptp.Incremental

/-!
# libmfptp — messages one behind the other

At the end of a message `mfptp_parse` moves the bytes behind it to the front of
the buffer and sets `doptr` back, so that a further call finds the next message
there. The step and the number of packages done are not set back: the further
call takes the header of the next message for a frame.

* `stream_reported_init` — with `mfptp_init_parser_info` between two calls they
  always are.

Main result: `stream_reported_never`.
-/

namespace Supex.Mfptp

open Supex.Lib

/-- The bytes of several messages. -/
def streamBytes (ms : List Message) : Bytes := ms.flatMap Message.bytes

/-- The calls: each one on the bytes of all messages that are left, which the
call before it moved to the front, with the info that `next` makes of the one
the call before it left. A call that does not return `MFPTP_PARSE_OVER` ends the
sequence. The result is what the callback was shown, and the info. -/
def streamCalls (next : ParserInfo → ParserInfo) (fuel : Nat) :
    List Message → ParserInfo → Mem → Option (List Callback × ParserInfo)
  | [], info, _ => some ([], info)
  | m :: ms, info, mem =>
    match mfptpParse fuel mem (streamBytes (m :: ms)).length info [] with
    | some (.over, s) =>
      (streamCalls next fuel ms (next s.info) s.mem).map fun r => (s.calls ++ r.1, r.2)
    | _ => none

/-- Every message is reported, package by package, and the parser stands at the
front of an empty buffer. -/
def StreamReported (next : ParserInfo → ParserInfo) (ms : List Message) (old : Package)
    (around : Mem) : Prop :=
  ∃ fuel calls info, streamCalls next fuel ms (mfptpInitParserInfo old true)
      (buffer (streamBytes ms) ⟨(streamBytes ms).length, around⟩) = some (calls, info) ∧
    calls.map Callback.content = ms.flatMap Message.contents ∧ info.status.doptr = 0

theorem streamBytes_cons (m : Message) (ms : List Message) :
    streamBytes (m :: ms) = m.bytes ++ streamBytes ms :=
  List.flatMap_cons

--
-- Behind the last package
--

/-- As many packages are done as the message has, or more. -/
structure Past (s : ParseState) : Prop where
  step : s.info.status.step = .package
  index : s.info.parser.packages.toNat ≤ s.info.status.index

variable {s : ParseState}

theorem Past.packageOver (h : Past s) (n len : Int) :
    ∃ s', packageOver n s len = (s', none) ∧ Past s' := by
  have hindex := h.index
  have hcall : (callFunc n (s.setStatus
      { s.info.status with index := s.info.status.index + 1 })).info =
      (s.setStatus { s.info.status with index := s.info.status.index + 1 }).info := by
    unfold callFunc
    split_ifs <;> rfl
  unfold Mfptp.packageOver
  rw [if_neg (by rw [hcall]; show s.info.status.index + 1 ≠ s.info.parser.packages.toNat; omega)]
  refine ⟨_, rfl, ?_, ?_⟩
  · show (callFunc n _).info.status.step = .package
    rw [hcall]
    exact h.step
  · show ((callFunc n _).info.parser.packages.toNat : Int) ≤ (callFunc n _).info.status.index
    rw [hcall]
    show (s.info.parser.packages.toNat : Int) ≤ s.info.status.index + 1
    omega

theorem Past.parseFrame (h : Past s) (n : Int) :
    (parseFrame n s).2 ≠ some .over ∧ ((parseFrame n s).2 = none → Past (parseFrame n s).1) := by
  unfold Mfptp.parseFrame
  split
  · exact ⟨by rw [h.step]; nofun, nofun⟩
  dsimp only
  split
  · exact ⟨nofun, nofun⟩
  unfold takeFrame
  split
  · refine ⟨?_, nofun⟩
    show some s.info.status.step ≠ some .over
    rw [h.step]
    nofun
  split
  · exact ⟨nofun, nofun⟩
  dsimp only
  have hrecord : ∀ size, Past (recordFrame (s.setComplete (low23Bits (s.mem s.doptr)))
      (sizeFSize (s.mem s.doptr)) size) := fun size => by
    unfold recordFrame
    split
    · exact ⟨h.step, h.index⟩
    · exact ⟨h.step, h.index⟩
  split
  · obtain ⟨s', hover, h'⟩ := (hrecord _).packageOver n _
    rw [hover]
    exact ⟨nofun, fun _ => h'⟩
  · refine ⟨nofun, fun _ => ⟨(hrecord _).step, (hrecord _).index⟩⟩

theorem Past.parseLoop {n : Int} {fuel : Nat} {s' : ParseState} {code : Code} (h : Past s)
    (hloop : parseLoop n fuel s = some (code, s')) : code ≠ .over := by
  induction fuel generalizing s with
  | zero => exact absurd hloop (by rw [Mfptp.parseLoop]; simp)
  | succ fuel ih =>
    have hturn : parseTurn n s = Mfptp.parseFrame n s := by
      rw [parseTurn, h.step]
    obtain ⟨hover, hpast⟩ := h.parseFrame n
    rw [Mfptp.parseLoop, hturn] at hloop
    generalize Mfptp.parseFrame n s = r at hover hpast hloop
    obtain ⟨s₁, _ | code₁⟩ := r
    · exact ih (hpast rfl) hloop
    · obtain ⟨rfl, rfl⟩ := Prod.mk.inj (Option.some.inj hloop)
      exact fun h => hover (congrArg some h)

theorem Finished.past {m : Message} {t : ParseState} (h : Finished m t) (n : Int) :
    Past (messageOver n t) := by
  have hindex := h.index
  unfold messageOver
  dsimp only
  split_ifs <;> exact ⟨h.step, hindex.ge⟩

--
-- The first call
--

/-- The first message of several is parsed, and the others are moved to the
front. -/
theorem stream_first {m : Message} {ms : List Message} (h : AtHead s)
    (htotal : (streamBytes (m :: ms)).length < 2 ^ 31)
    (hmem : s.mem.Holds 0 (streamBytes (m :: ms))) :
    ∃ fuel t, parseLoop (streamBytes (m :: ms)).length fuel s =
        some (.over, messageOver (streamBytes (m :: ms)).length t) ∧ Finished m t ∧
      (messageOver (streamBytes (m :: ms)).length t).mem.Holds 0 (streamBytes ms) ∧
      (messageOver (streamBytes (m :: ms)).length t).doptr = 0 := by
  rw [streamBytes_cons, Mem.holds_append, Int.zero_add] at hmem
  rw [streamBytes_cons, List.length_append] at htotal ⊢
  obtain ⟨fuel, t, hloop, hmem', hfinished⟩ := parse_message h
    (n := m.bytes.length + (streamBytes ms).length) (by omega) (by omega) hmem.1
  refine ⟨fuel, t, hloop, hfinished, ?_⟩
  have hdoptr := hfinished.doptr
  have hlen : ((m.bytes.length + (streamBytes ms).length : Nat) : Int) - t.doptr =
      (streamBytes ms).length := by
    rw [hdoptr]
    push_cast
    ring
  unfold messageOver
  dsimp only
  rw [hlen]
  split_ifs with hpos hzero
  · refine ⟨?_, rfl⟩
    have hload : t.mem.load t.doptr ((streamBytes ms).length : Int).toNat = streamBytes ms := by
      rw [hdoptr, hmem', Int.toNat_natCast]
      exact hmem.2
    rw [hload]
    exact Mem.holds_store _ _ _
  · rw [List.eq_nil_of_length_eq_zero (by omega : (streamBytes ms).length = 0)]
    exact ⟨Mem.holds_nil _ _, rfl⟩
  · omega

theorem holds_stream (ms : List Message) (around : Mem) :
    (buffer (streamBytes ms) ⟨(streamBytes ms).length, around⟩).Holds 0 (streamBytes ms) := by
  have := holds_buffer (streamBytes ms) (a := ⟨(streamBytes ms).length, around⟩)
  rwa [List.take_length] at this

theorem streamCalls_two (m m' : Message) (ms : List Message)
    (htotal : (streamBytes (m :: m' :: ms)).length < 2 ^ 31) (old : Package) (around : Mem)
    (fuel : Nat) :
    streamCalls id fuel (m :: m' :: ms) (mfptpInitParserInfo old true)
      (buffer (streamBytes (m :: m' :: ms)) ⟨(streamBytes (m :: m' :: ms)).length, around⟩) =
        none := by
  obtain ⟨fuel₁, t, hloop, hfinished, -⟩ := stream_first
    (s := ⟨mfptpInitParserInfo old true, _, [], 0⟩)
    ⟨rfl, rfl, rfl, rfl, rfl⟩ htotal (holds_stream (m :: m' :: ms) around)
  rw [streamCalls]
  split
  · next s₁ hfirst =>
    obtain ⟨-, rfl⟩ := Prod.mk.inj (parseLoop_unique hfirst hloop)
    rw [Option.map_eq_none_iff, streamCalls]
    split
    · next s₂ hsecond =>
      have hpast := hfinished.past (streamBytes (m :: m' :: ms)).length
      refine absurd rfl (Past.parseLoop ?_ hsecond)
      exact ⟨hpast.step, hpast.index⟩
    · rfl
  · rfl

/-- **Two or more messages** are not reported by calls with one
`mfptp_parser_info`. -/
theorem stream_reported_never (ms : List Message) (htwo : 2 ≤ ms.length)
    (htotal : (streamBytes ms).length < 2 ^ 31) (old : Package) (around : Mem) :
    ¬StreamReported id ms old around := by
  rintro ⟨fuel, calls, info, hcalls, -⟩
  match ms, htwo with
  | m :: m' :: ms, _ =>
    rw [streamCalls_two m m' ms htotal old around fuel] at hcalls
    cases hcalls

theorem stream_reported_never_two : ¬StreamReported id [oneByte, oneByte] .zero fun _ => 0 :=
  stream_reported_never [oneByte, oneByte] (by decide) (by decide) .zero fun _ => 0

/-- Two messages of thirteen bytes are not reported. -/
theorem stream_unreported :
    ¬∀ (ms : List Message) (old : Package) (around : Mem), 2 ≤ ms.length →
      (streamBytes ms).length < 2 ^ 31 → StreamReported id ms old around := by
  intro h
  obtain ⟨fuel, calls, info, hcalls, -⟩ := h [oneByte, oneByte] .zero (fun _ => 0) (by decide)
    (by decide)
  rw [streamCalls_two oneByte oneByte [] (by decide) .zero (fun _ => 0) fuel] at hcalls
  cases hcalls

--
-- With a fresh info for every message
--

/-- `mfptp_init_parser_info` and the callback registered again. -/
def reinit (info : ParserInfo) : ParserInfo := mfptpInitParserInfo info.status.package true

theorem streamCalls_mono {next : ParserInfo → ParserInfo} {fuel fuel' : Nat} {ms : List Message}
    {info : ParserInfo} {mem : Mem} {r : List Callback × ParserInfo}
    (h : streamCalls next fuel ms info mem = some r) (hle : fuel ≤ fuel') :
    streamCalls next fuel' ms info mem = some r := by
  induction ms generalizing info mem r with
  | nil => exact h
  | cons m ms ih =>
    rw [streamCalls] at h ⊢
    split at h
    · next s hcall =>
      rw [show mfptpParse fuel' mem _ info [] = _ from parseLoop_mono hcall hle]
      obtain ⟨q, hq, rfl⟩ := Option.map_eq_some_iff.mp h
      exact Option.map_eq_some_iff.mpr ⟨q, ih hq, rfl⟩
    · cases h

theorem streamCalls_reinit {ms : List Message} (htotal : (streamBytes ms).length < 2 ^ 31)
    (old : Package) {mem : Mem} (hmem : mem.Holds 0 (streamBytes ms)) :
    ∃ fuel calls info, streamCalls reinit fuel ms (mfptpInitParserInfo old true) mem =
        some (calls, info) ∧
      calls.map Callback.content = ms.flatMap Message.contents ∧ info.status.doptr = 0 := by
  induction ms generalizing old mem with
  | nil => exact ⟨0, [], _, rfl, rfl, rfl⟩
  | cons m ms ih =>
    obtain ⟨fuel₁, t, hloop, hfinished, hmem', -⟩ := stream_first
      (s := ⟨mfptpInitParserInfo old true, mem, [], 0⟩) ⟨rfl, rfl, rfl, rfl, rfl⟩ htotal hmem
    have hrest : (streamBytes ms).length < 2 ^ 31 := by
      rw [streamBytes_cons, List.length_append] at htotal
      omega
    obtain ⟨fuel, calls, info, hcalls, hcontent, hdoptr⟩ := ih hrest
      (messageOver (streamBytes (m :: ms)).length t).info.status.package hmem'
    refine ⟨max fuel₁ fuel, t.calls ++ calls, info, ?_, ?_, hdoptr⟩
    · rw [streamCalls, show mfptpParse (max fuel₁ fuel) mem _ _ [] = _ from
        parseLoop_mono hloop (Nat.le_max_left _ _)]
      refine Option.map_eq_some_iff.mpr
        ⟨_, streamCalls_mono hcalls (Nat.le_max_right _ _), ?_⟩
      rw [messageOver_calls]
    · rw [List.map_append, hfinished.calls, hcontent, List.flatMap_cons]
      rfl

end Supex.Mfptp
