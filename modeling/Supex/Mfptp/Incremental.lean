import Supex.Mfptp.Pack

/-!
# libmfptp — a message that arrives in pieces

The reader calls `mfptp_parse` each time bytes of a message have arrived, on the
same buffer and with the same `mfptp_parser_info`. The parser looks at bytes
that have not arrived: its size check leaves out the control byte of a frame,
and the length of a frame is read before it is known to be there.

Main result: `parseCalls_same_iff`.
-/

namespace Supex.Mfptp

open Supex.Lib
open List hiding Mem
open Function (update update_of_ne update_self)
open Option (bind_eq_bind bind_eq_some_iff)

--
-- The calls
--

/-- A valid message: a heartbeat, which is a header only, or a message with
packages. -/
inductive Wire where
  | heartbeat (version coding count : UInt8)
  | packages (m : Message)

def Wire.bytes : Wire → Bytes
  | .heartbeat version coding count => magic ++ [version, coding, HEARTBEAT_METHOD, count]
  | .packages m => m.bytes

/-- A call: how many bytes of the message are there, and what is in memory
around them. -/
structure Arrival where
  size : Nat
  around : Mem

/-- The memory of a call whose bytes all come from the message. -/
def buffer (bs : Bytes) (a : Arrival) : Mem := fun i =>
  if 0 ≤ i ∧ i < a.size then bs.getD i.toNat 0 else a.around i

/-- The memory of a call behind one with `prev` bytes: these stay as the parser
left them. -/
def grow (bs : Bytes) (prev : Nat) (left : Mem) (a : Arrival) : Mem := fun i =>
  if 0 ≤ i ∧ i < prev then left i else buffer bs a i

/-- The calls, one after the other; the result is that of the last one. -/
def parseCalls (fuel : Nat) (bs : Bytes) : Nat → Code × ParseState → List Arrival →
    Option (Code × ParseState)
  | _, r, [] => some r
  | prev, r, a :: rest => do
    let r ← mfptpParse fuel (grow bs prev r.2.mem a) a.size r.2.info r.2.calls
    parseCalls fuel bs a.size r rest

/-- A freshly initialised parser with a callback. -/
def freshParser (old : Package) (mem : Mem) : Code × ParseState :=
  (.init, ⟨mfptpInitParserInfo old true, mem, [], 0⟩)

/-- The calls end with `MFPTP_PARSE_OVER` as one call on the whole message does,
and show the callback the same packages, out of bytes that are there. -/
def SameAsOneCall (w : Wire) (old : Package) (mem whole : Mem) (as : List Arrival) : Prop :=
  ∃ fuel s t, parseCalls fuel w.bytes 0 (freshParser old mem) as = some (.over, s) ∧
    mfptpParse fuel (buffer w.bytes ⟨w.bytes.length, whole⟩) w.bytes.length
      (mfptpInitParserInfo old true) [] = some (.over, t) ∧
    s.calls.map Callback.content = t.calls.map Callback.content ∧ ∀ c ∈ s.calls, c.Inside

/-- A call does not end in a frame whose length it reads wrong, or which it takes
for the whole last frame of a package. -/
def Wire.CutsOk : Wire → Arrival → Prop
  | .heartbeat .., _ => True
  | .packages m, a => Mfptp.CutsOk m (buffer m.bytes a) a.size

--
-- Turns and calls
--

variable {s s' : ParseState} {m : Message} {done done' later later' : List (List WireFrame)}
  {cur cur' todo todo' : List WireFrame} {f : WireFrame} {fuel n prev : Nat} {a : Arrival}
  {code : Code} {r : Code × ParseState}

theorem parseLoop_mono {n : Int} {fuel' : Nat} (h : parseLoop n fuel s = some r)
    (hle : fuel ≤ fuel') : parseLoop n fuel' s = some r := by
  induction fuel generalizing fuel' s with
  | zero => exact absurd h (by rw [parseLoop]; simp)
  | succ fuel ih =>
    obtain ⟨fuel', rfl⟩ : ∃ k, fuel' = k + 1 := ⟨fuel' - 1, by omega⟩
    rw [parseLoop] at h ⊢
    split at h
    · exact h
    · exact ih h (by omega)

theorem parseLoop_unique {n : Int} {fuel' : Nat} {r' : Code × ParseState}
    (h : parseLoop n fuel s = some r) (h' : parseLoop n fuel' s = some r') : r = r' := by
  have hmax := parseLoop_mono h (Nat.le_max_left fuel fuel')
  rw [parseLoop_mono h' (Nat.le_max_right fuel fuel')] at hmax
  exact (Option.some.inj hmax).symm

theorem parseCalls_mono {bs : Bytes} {fuel' : Nat} {as : List Arrival} {r' : Code × ParseState}
    (h : parseCalls fuel bs prev r as = some r') (hle : fuel ≤ fuel') :
    parseCalls fuel' bs prev r as = some r' := by
  induction as generalizing prev r with
  | nil => exact h
  | cons a rest ih =>
    rw [parseCalls, bind_eq_bind, bind_eq_some_iff] at h ⊢
    obtain ⟨q, hq, hrest⟩ := h
    exact ⟨q, parseLoop_mono hq hle, ih hrest⟩

theorem holds_buffer (bs : Bytes) : (buffer bs a).Holds 0 (bs.take a.size) := by
  apply ext_getElem (by simp)
  intro k h₁ h₂
  have hload := Mem.load_getD (buffer bs a) 0 (n := (bs.take a.size).length) h₂
  rw [getD_eq_getElem _ _ h₁] at hload
  rw [length_take] at h₂
  rw [hload, getElem_take]
  unfold buffer
  rw [if_pos (by omega), Int.zero_add, Int.toNat_natCast, getD_eq_getElem]

theorem grow_eq {bs : Bytes} {left : Mem} (h : left.Holds 0 (bs.take prev)) (hle : prev ≤ a.size)
    (hlen : prev ≤ bs.length) : grow bs prev left a = buffer bs a := by
  funext i
  unfold grow
  split
  · next hi =>
    have hk : i.toNat < (bs.take prev).length := by
      rw [length_take]
      omega
    have hload := Mem.load_getD left 0 hk
    rw [h, Int.zero_add, Int.toNat_of_nonneg hi.1, getD_eq_getElem _ _ hk,
      getElem_take] at hload
    unfold buffer
    rw [if_pos (by omega), getD_eq_getElem _ _ (show i.toNat < bs.length by omega), hload]
  · rfl

--
-- Calls that end well
--

/-- What the callback is shown of a message. -/
def Message.contents (m : Message) : List (List (Int × Bytes)) :=
  m.packages.map (·.map WireFrame.content)

/-- Between two calls: `n` bytes of the message were there. -/
structure Resting (m : Message) (n : Nat) (s : ParseState) : Prop where
  mem : s.mem.Holds 0 (m.bytes.take n)
  place : AtHead s ∨ Waiting m n s

theorem AtHead.reload (h : AtHead s) (mem : Mem) : AtHead ⟨s.info, mem, s.calls, 0⟩ :=
  ⟨h.step, h.index, h.doptr, h.func, h.calls⟩

theorem Stands.reload (h : Stands m done cur s) (mem : Mem) :
    Stands m done cur ⟨s.info, mem, s.calls, 0⟩ :=
  ⟨h.step, h.func, h.method, h.count, h.index, h.doptr, h.toEntered, h.calls, h.inside⟩

theorem AtHead.short (h : AtHead s) (hn : n < 10) : parseLoop n 1 s = some (.init, s) := by
  have hlacks : s.lacks n MFPTP_BURST_HEADER_LEN := by
    unfold ParseState.lacks ParseState.doptr
    rw [h.doptr, show wrap32 (0 + MFPTP_BURST_HEADER_LEN) = 10 by decide]
    omega
  rw [parseLoop, parseTurn, h.step]
  unfold parseHead
  rw [if_pos hlacks, h.step]
  unfold ParseState.shortage
  rw [if_neg (by rw [h.step]; simp)]

/-- **A call that ends well** ends the message or leaves the parser in front of
one of its frames. -/
theorem Resting.call (h : Resting m prev s) (hmax : m.bytes.length ≤ MAX_REQ_SIZE)
    (hprev : prev < a.size ∨ prev = 0) (hle : a.size ≤ m.bytes.length)
    (hcuts : CutsOk m (buffer m.bytes a) a.size) :
    ∃ fuel code s', mfptpParse fuel (grow m.bytes prev s.mem a) a.size s.info s.calls =
        some (code, s') ∧
      if a.size = m.bytes.length then code = .over ∧
        s'.calls.map Callback.content = m.contents ∧ ∀ c ∈ s'.calls, c.Inside
      else Resting m a.size s' := by
  have hlimit : MAX_REQ_SIZE = 10485760 := rfl
  have hlen : m.bytes.length < 2 ^ 31 := by omega
  have hgrow : grow m.bytes prev s.mem a = buffer m.bytes a :=
    grow_eq h.mem (by omega) (by omega)
  have hmem : (buffer m.bytes a).Holds 0 (m.bytes.take a.size) := holds_buffer m.bytes
  have hten : 10 ≤ m.bytes.length := by
    rw [Message.bytes, length_append, m.header_length]
    omega
  rw [hgrow]
  -- both kinds of rest end in the alternative of `Stands.advance`
  have hend : ∀ {fuel : Nat} {code : Code} {s' : ParseState},
      parseLoop a.size fuel ⟨s.info, buffer m.bytes a, s.calls, 0⟩ = some (code, s') →
      (if m.bytes.length ≤ a.size then
        code = .over ∧ ∃ t, s' = messageOver a.size t ∧ t.mem = buffer m.bytes a ∧ Finished m t
      else code = .package ∧ s'.mem = buffer m.bytes a ∧ Waiting m a.size s') →
      ∃ fuel code s', mfptpParse fuel (buffer m.bytes a) a.size s.info s.calls = some (code, s') ∧
        if a.size = m.bytes.length then code = .over ∧
          s'.calls.map Callback.content = m.contents ∧ ∀ c ∈ s'.calls, c.Inside
        else Resting m a.size s' := by
    intro fuel code s' hloop hres
    refine ⟨fuel, code, s', hloop, ?_⟩
    by_cases hwhole : a.size = m.bytes.length
    · rw [if_pos (by omega)] at hres
      obtain ⟨rfl, t, rfl, -, hfinished⟩ := hres
      rw [if_pos hwhole, messageOver_calls]
      exact ⟨rfl, hfinished.calls, hfinished.inside⟩
    · rw [if_neg (by omega)] at hres
      obtain ⟨rfl, hmem', hwaiting⟩ := hres
      rw [if_neg hwhole]
      exact ⟨by rw [hmem']; exact hmem, .inr hwaiting⟩
  rcases h.place with hhead | ⟨done, cur, f, todo, later, hm, hstands, hat⟩
  · have hhead' := hhead.reload (buffer m.bytes a)
    by_cases hn : a.size < 10
    · refine ⟨1, .init, _, hhead'.short hn, ?_⟩
      rw [if_neg (by omega)]
      exact ⟨hmem, .inl hhead'⟩
    · obtain ⟨fuel, code, s', hloop, hres⟩ := hhead'.advance hlen (fun _ => hmax)
        (by omega) hmem hcuts
      exact hend hloop hres
  · obtain ⟨code, s', hloop, hres⟩ := Stands.advance hlen (fun _ => hmax) _ le_rfl hm
      (hstands.reload (buffer m.bytes a)) (by omega) hmem hcuts
    exact hend hloop hres

--
-- Calls that do not
--

/-- The callback was shown something that is not in the message, or bytes that
were not there. -/
def Wrong (m : Message) (calls : List Callback) : Prop :=
  ¬(calls.map Callback.content <+: m.contents ∧ ∀ c ∈ calls, c.Inside)

/-- A frame of the package under construction was entered with another length
than it has. -/
def Misread (m : Message) (s : ParseState) : Prop :=
  ∃ k < s.info.status.package.frames, ∀ fs f, m.packages[s.calls.length]? = some fs →
    fs[k]? = some f → s.info.status.package.dsizes k ≠ f.data.length

/-- More packages are waited for than the message has left. -/
def Overdue (m : Message) (s : ParseState) : Prop :=
  0 ≤ s.info.status.index ∧ s.info.status.index < s.info.parser.packages.toNat ∧
    (m.packages.length : Int) < s.info.parser.packages.toNat - s.info.status.index + s.calls.length

/-- The callback will never have seen exactly the message. -/
structure Doomed (m : Message) (s : ParseState) : Prop where
  step : s.info.status.step = .package
  func : s.info.parser.func = true
  method : s.info.parser.method ≠ HEARTBEAT_METHOD
  reason : Wrong m s.calls ∨ Misread m s ∨ Overdue m s

theorem Wrong.append {calls : List Callback} (h : Wrong m calls) (more : List Callback) :
    Wrong m (calls ++ more) := by
  rintro ⟨hcontent, hinside⟩
  rw [map_append] at hcontent
  exact h ⟨(prefix_append _ _).trans hcontent,
    fun c hc => hinside c (mem_append_left _ hc)⟩

theorem wrong_of_length {calls : List Callback} (h : m.packages.length < calls.length) :
    Wrong m calls := by
  rintro ⟨hcontent, -⟩
  have := hcontent.length_le
  rw [length_map, Message.contents, length_map] at this
  omega

theorem Misread.called (h : Misread m s) (mem : Mem) (n : Int) :
    Wrong m (s.calls ++ [⟨s.info.status.package.view mem, n⟩]) := by
  obtain ⟨k, hk, hne⟩ := h
  rintro ⟨hcontent, -⟩
  obtain ⟨behind, hbehind⟩ := hcontent
  have hget : m.contents[s.calls.length]? =
      some (Callback.content ⟨s.info.status.package.view mem, n⟩) := by
    rw [← hbehind, map_append, append_assoc,
      getElem?_append_right (by rw [length_map]), length_map, Nat.sub_self]
    rfl
  rw [Message.contents, getElem?_map] at hget
  obtain ⟨fs, hfs, heq⟩ := Option.map_eq_some_iff.mp hget
  -- the `k`-th frame as it is shown
  have hshown : (fs.map WireFrame.content)[k]? =
      some (s.info.status.package.dsizes k,
        mem.load (s.info.status.package.ptrs k) (s.info.status.package.dsizes k).toNat) := by
    rw [heq]
    unfold Callback.content Package.view
    rw [map_map, getElem?_map, getElem?_range hk]
    rfl
  rw [getElem?_map] at hshown
  obtain ⟨f, hf, hpair⟩ := Option.map_eq_some_iff.mp hshown
  exact hne fs f hfs hf (congrArg Prod.fst hpair).symm

theorem packages_rewind (hpos : 0 < s.info.status.index)
    (hlt : s.info.status.index < s.info.parser.packages.toNat) :
    (s.rewind.info.parser.packages.toNat : Int) =
      s.info.parser.packages.toNat - (s.info.status.index - 1) := by
  have hcount := s.info.parser.packages.toNat_lt
  show ((s.info.parser.packages - UInt8.ofInt (s.info.status.index - 1)).toNat : Int) = _
  rw [UInt8.ofInt, UInt8.toNat_sub, UInt8.toNat_ofNat']
  omega

theorem Overdue.rewind (h : Overdue m s) (hpos : 0 < s.info.status.index) : Overdue m s.rewind := by
  obtain ⟨-, hlt, hmore⟩ := h
  have hless := packages_rewind hpos hlt
  refine ⟨le_rfl, ?_, ?_⟩
  · show (0 : Int) < s.rewind.info.parser.packages.toNat
    omega
  · show (m.packages.length : Int) < s.rewind.info.parser.packages.toNat - 0 + s.calls.length
    omega

theorem Doomed.shortage (h : Doomed m s) (b : Int) : Doomed m (s.shortage b) := by
  unfold ParseState.shortage
  split
  · next hpos =>
    have hreason : Wrong m s.rewind.calls ∨ Misread m s.rewind ∨ Overdue m s.rewind :=
      h.reason.imp_right (Or.imp_right fun ho => ho.rewind hpos.2)
    split_ifs
    · exact ⟨h.step, h.func, h.method, hreason⟩
    · exact ⟨h.step, h.func, h.method, hreason⟩
    · exact h
  · exact h

theorem Doomed.setComplete (h : Doomed m s) (c : Nat) : Doomed m (s.setComplete c) :=
  ⟨h.step, h.func, h.method, h.reason⟩

theorem Doomed.ptrMove (h : Doomed m s) (len : Int) : Doomed m (s.ptrMove len) :=
  ⟨h.step, h.func, h.method, h.reason⟩

theorem Doomed.recordFrame (h : Doomed m s) (sizeF : Nat) (size : Int) :
    Doomed m (recordFrame s sizeF size) := by
  unfold Mfptp.recordFrame
  rw [if_pos h.method]
  refine ⟨h.step, h.func, h.method, h.reason.imp_right (Or.imp_left ?_)⟩
  rintro ⟨k, hk, hne⟩
  refine ⟨k, Nat.lt_succ_of_lt hk, fun fs f hfs hf => ?_⟩
  show update s.info.status.package.dsizes s.info.status.package.frames size k ≠ _
  rw [update_of_ne (by omega)]
  exact hne fs f hfs hf

theorem Doomed.messageOver (h : Doomed m s) (n : Int) : Doomed m (messageOver n s) := by
  unfold Mfptp.messageOver
  dsimp only
  split_ifs
  · exact ⟨h.step, h.func, h.method, h.reason⟩
  · exact ⟨h.step, h.func, h.method, h.reason⟩
  · exact h

/-- A turn whose result is no good: it does not help, and if the call returns
`MFPTP_PARSE_OVER` the callback has seen what is wrong. -/
def Spoils (m : Message) (r : ParseState × Option Code) : Prop :=
  Doomed m r.1 ∧ (r.2 = some .over → Wrong m r.1.calls)

theorem Doomed.spoils (h : Doomed m s) {r : Option Code} (hr : r ≠ some .over) : Spoils m (s, r) :=
  ⟨h, fun heq => absurd heq hr⟩

theorem packageOver_spoils (n len : Int) (hstep : s.info.status.step = .package)
    (hfunc : s.info.parser.func = true) (hmethod : s.info.parser.method ≠ HEARTBEAT_METHOD)
    (h : Wrong m (s.calls ++ [⟨s.info.status.package.view s.mem, n⟩]) ∨ Overdue m s) :
    Spoils m (packageOver n s len) := by
  have hcall : callFunc n (s.setStatus { s.info.status with index := s.info.status.index + 1 }) =
      { s.setStatus { s.info.status with index := s.info.status.index + 1 } with
        calls := s.calls ++ [⟨s.info.status.package.view s.mem, n⟩] } :=
    if_pos ⟨hfunc, hmethod⟩
  unfold packageOver
  rw [hcall]
  dsimp only
  split
  · next hindex =>
    have hindex : s.info.status.index + 1 = s.info.parser.packages.toNat := hindex
    have hwrong : Wrong m (s.calls ++ [⟨s.info.status.package.view s.mem, n⟩]) := by
      rcases h with h | ⟨-, -, hmore⟩
      · exact h
      · apply wrong_of_length
        rw [length_append, length_singleton]
        omega
    refine ⟨Doomed.messageOver ?_ n, fun _ => ?_⟩
    · exact ⟨hstep, hfunc, hmethod, .inl hwrong⟩
    · rw [messageOver_calls]
      exact hwrong
  · next hindex =>
    have hindex : s.info.status.index + 1 ≠ s.info.parser.packages.toNat := hindex
    refine Doomed.spoils ?_ nofun
    refine ⟨hstep, hfunc, hmethod, ?_⟩
    rcases h with h | ⟨hpos, hlt, hmore⟩
    · exact .inl h
    · refine .inr (.inr ⟨?_, ?_, ?_⟩)
      · show 0 ≤ s.info.status.index + 1
        omega
      · show s.info.status.index + 1 < s.info.parser.packages.toNat
        omega
      · show (m.packages.length : Int) < s.info.parser.packages.toNat -
          (s.info.status.index + 1) + (s.calls ++ [_]).length
        rw [length_append, length_singleton]
        omega

theorem Doomed.parseFrame (h : Doomed m s) (n : Int) : Spoils m (parseFrame n s) := by
  have hpackage : some s.info.status.step ≠ some Code.over := by
    rw [h.step]
    nofun
  unfold Mfptp.parseFrame
  split
  · exact (h.shortage 1).spoils hpackage
  dsimp only
  split
  · exact (h.setComplete _).spoils nofun
  have h' := h.setComplete (low23Bits (s.mem s.doptr))
  unfold takeFrame
  split
  · exact (h'.shortage _).spoils hpackage
  dsimp only
  split
  · refine Doomed.spoils (Doomed.ptrMove ?_ _) nofun
    refine ⟨h.step, h.func, h.method, ?_⟩
    refine h.reason.imp_right (Or.imp_left ?_)
    rintro ⟨k, hk, hne⟩
    exact ⟨k, Nat.lt_succ_of_lt hk, hne⟩
  have hrecord := h'.recordFrame (sizeFSize (s.mem s.doptr))
    (frameSize (s.setComplete (low23Bits (s.mem s.doptr))).mem
      (s.setComplete (low23Bits (s.mem s.doptr))).doptr (sizeFSize (s.mem s.doptr)))
  split
  · refine packageOver_spoils _ _ hrecord.step hrecord.func hrecord.method ?_
    rcases hrecord.reason with hr | hr | hr
    · exact .inl (hr.append _)
    · exact .inl (hr.called _ _)
    · exact .inr hr
  · exact (hrecord.ptrMove _).spoils nofun

theorem Doomed.parseLoop {n : Int} (h : Doomed m s) (hloop : parseLoop n fuel s = some (code, s')) :
    Spoils m (s', some code) := by
  induction fuel generalizing s with
  | zero => exact absurd hloop (by rw [Mfptp.parseLoop]; simp)
  | succ fuel ih =>
    have hturn : parseTurn n s = Mfptp.parseFrame n s := by
      rw [parseTurn, h.step]
    have hspoils := h.parseFrame n
    rw [Mfptp.parseLoop, hturn] at hloop
    generalize Mfptp.parseFrame n s = r at hspoils hloop
    obtain ⟨s₁, _ | code₁⟩ := r
    · exact ih hspoils.1 hloop
    · obtain ⟨rfl, rfl⟩ := Prod.mk.inj (Option.some.inj hloop)
      exact hspoils

theorem Doomed.parseCalls {as : List Arrival} {code' : Code} (h : Spoils m (s, some code))
    (hcalls : parseCalls fuel m.bytes prev (code, s) as = some (code', s')) :
    Spoils m (s', some code') := by
  induction as generalizing prev code s with
  | nil =>
    obtain ⟨rfl, rfl⟩ := Prod.mk.inj (Option.some.inj hcalls)
    exact h
  | cons a rest ih =>
    rw [Mfptp.parseCalls, bind_eq_bind, bind_eq_some_iff] at hcalls
    obtain ⟨⟨code₁, s₁⟩, hcall, hrest⟩ := hcalls
    have hdoomed := h.1
    refine ih (Doomed.parseLoop ⟨?_, ?_, ?_, ?_⟩ hcall) hrest
    · exact hdoomed.step
    · exact hdoomed.func
    · exact hdoomed.method
    · exact hdoomed.reason

--
-- The frame a call ends in
--

theorem split_unique {α : Type*} {done done' later later' : List (List α)}
    {cur cur' todo todo' : List α}
    {f f' : α} (h : done ++ (cur ++ f :: todo) :: later = done' ++ (cur' ++ f' :: todo') :: later')
    (hlen : (done.flatten ++ cur).length = (done'.flatten ++ cur').length) :
    done = done' ∧ cur = cur' ∧ f = f' := by
  induction done generalizing done' with
  | nil =>
    cases done' with
    | nil =>
      have hhead := (List.cons.inj h).1
      obtain ⟨hcur, htail⟩ := append_inj hhead (by simpa using hlen)
      exact ⟨rfl, hcur, (List.cons.inj htail).1⟩
    | cons p done' =>
      rw [← (List.cons.inj h).1] at hlen
      exact absurd hlen (by simp)
  | cons p done ih =>
    cases done' with
    | nil =>
      rw [(List.cons.inj h).1] at hlen
      exact absurd hlen (by simp)
    | cons p' done' =>
      obtain ⟨rfl, htail⟩ := List.cons.inj h
      obtain ⟨rfl, hcur, hf⟩ := ih htail (by simpa using hlen)
      exact ⟨rfl, hcur, hf⟩

theorem Message.frames (h : m.packages = done ++ (cur ++ f :: todo) :: later) :
    done.flatten ++ cur ++ [f] <+: m.packages.flatten := by
  refine ⟨todo ++ later.flatten, ?_⟩
  rw [h, flatten_append, flatten_cons]
  simp

theorem place_lt {f' : WireFrame} (h : m.packages = done ++ (cur ++ f :: todo) :: later)
    (h' : m.packages = done' ++ (cur' ++ f' :: todo') :: later')
    (hlt : (done.flatten ++ cur).length < (done'.flatten ++ cur').length) :
    place done cur + f.bytes.length ≤ place done' cur' := by
  have hprefix : done.flatten ++ cur ++ [f] <+: done'.flatten ++ cur' :=
    prefix_of_prefix_length_le (Message.frames h)
      ((prefix_append _ _).trans (Message.frames h'))
      (by rw [length_append, length_singleton]; omega)
  obtain ⟨rest, hrest⟩ := hprefix
  have hbody : (body (done.flatten ++ cur ++ [f] ++ rest)).length =
      (body (done'.flatten ++ cur')).length := by rw [hrest]
  rw [body_append, body_append, body_cons, body_nil, append_nil, length_append,
    length_append] at hbody
  unfold place
  omega

theorem frames_apart {f' : WireFrame} (h : m.packages = done ++ (cur ++ f :: todo) :: later)
    (h' : m.packages = done' ++ (cur' ++ f' :: todo') :: later') :
    (done = done' ∧ cur = cur' ∧ f = f') ∨ place done cur + f.bytes.length ≤ place done' cur' ∨
      place done' cur' + f'.bytes.length ≤ place done cur := by
  rcases Nat.lt_trichotomy (done.flatten ++ cur).length (done'.flatten ++ cur').length with
    hlt | heq | hgt
  · exact .inr (.inl (place_lt h h' hlt))
  · exact .inl (split_unique (h.symm.trans h') heq)
  · exact .inr (.inr (place_lt h' h hgt))

theorem Stands.rewound (h : Stands m done cur s)
    (hm : m.packages = done ++ (cur ++ f :: todo) :: later) (hdone : 0 < done.length) :
    Overdue m s.rewind := by
  have hcalls : s.calls.length = done.length := by
    have := congrArg List.length h.calls
    simpa using this
  have hcount : m.packages.length = done.length + 1 + later.length := by
    rw [hm, length_append, length_cons]
    omega
  have hindex := h.index
  have hpackages := h.count
  have hless := packages_rewind (s := s) (by omega) (by omega)
  refine ⟨le_rfl, ?_, ?_⟩
  · show (0 : Int) < s.rewind.info.parser.packages.toNat
    omega
  · show (m.packages.length : Int) < s.rewind.info.parser.packages.toNat - 0 + s.calls.length
    omega

theorem Stands.misread (h : Stands m done cur s)
    (hm : m.packages = done ++ (cur ++ f :: todo) :: later) {size : Int}
    (hsize : size ≠ f.data.length) : Misread m (recordFrame s f.width size) := by
  have hcalls : s.calls.length = done.length := by
    have := congrArg List.length h.calls
    simpa using this
  have hframes := h.toEntered.frames
  unfold recordFrame
  rw [if_pos h.method]
  refine ⟨cur.length, ?_, fun fs g hfs hg => ?_⟩
  · show cur.length < s.info.status.package.frames + 1
    omega
  · have hfs : m.packages[s.calls.length]? = some fs := hfs
    rw [hcalls, hm, getElem?_append_right le_rfl, Nat.sub_self] at hfs
    obtain rfl := Option.some.inj hfs
    rw [getElem?_append_right le_rfl, Nat.sub_self] at hg
    obtain rfl := Option.some.inj hg
    show update s.info.status.package.dsizes s.info.status.package.frames size cur.length ≠
      _
    rw [hframes, update_self]
    exact hsize

theorem Stands.early (h : Stands m done cur s) (hhi : n < place done cur + f.bytes.length)
    (calls : List Callback) (mem : Mem) :
    Wrong m (calls ++ [⟨(recordFrame s f.width f.data.length).info.status.package.view mem,
      n⟩]) := by
  rintro ⟨-, hinside⟩
  have hframes := h.toEntered.frames
  have hdoptr := h.doptr
  have hsize := f.bytes_length
  have hlast := hinside _ (mem_append_right _ (.head _))
  unfold recordFrame at hlast
  rw [if_pos h.method] at hlast
  have hframe := hlast _ (mem_map_of_mem (mem_range.mpr
    (show cur.length < s.info.status.package.frames + 1 by omega)))
  have hframe : update s.info.status.package.ptrs s.info.status.package.frames
      (s.doptr + f.width + 1) cur.length + update s.info.status.package.dsizes
      s.info.status.package.frames f.data.length cur.length ≤ n := hframe
  rw [hframes, update_self, update_self] at hframe
  omega

/-- **The frame a call ends in**, where the bytes that have not arrived matter. -/
theorem Stands.cut_spoils (h : Stands m done cur s)
    (hm : m.packages = done ++ (cur ++ f :: todo) :: later) (hlen : m.bytes.length < 2 ^ 31)
    (hmem : s.mem.Holds 0 (m.bytes.take n)) (hlo : place done cur < n)
    (hhi : n < place done cur + f.bytes.length) (hbad : ¬CutOk s.mem n done cur f) :
    Spoils m (parseFrame n s) := by
  have hplace := Message.place_le hm
  have hdoptr := h.doptr
  have hctrl : s.mem s.doptr = f.ctrl := by
    rw [hdoptr]
    exact holds_ctrl hmem hm hlo
  have hone : ¬s.lacks n 1 := by
    unfold ParseState.lacks
    rw [wrap32_of_range] <;> omega
  have hcur : cur.length < MAX_FRAMES_PER_PACKAGE := by
    have := (m.isPackage (cur ++ f :: todo) (by rw [hm]; simp)).length
    rw [length_append, length_cons] at this
    omega
  have hframes : ¬MAX_FRAMES_PER_PACKAGE <
      (s.setComplete (low23Bits f.ctrl)).info.status.package.frames + 1 := by
    show ¬MAX_FRAMES_PER_PACKAGE < s.info.status.package.frames + 1
    rw [h.toEntered.frames]
    omega
  have h' := h.setComplete (low23Bits f.ctrl)
  unfold CutOk at hbad
  rw [← hdoptr] at hbad
  dsimp only at hbad
  unfold parseFrame
  rw [if_neg hone, hctrl]
  show Spoils m (if 1 < low23Bits f.ctrl then _ else
    takeFrame n (s.setComplete (low23Bits f.ctrl)) f.width (frameSize s.mem s.doptr f.width))
  rw [if_neg (Nat.not_lt.mpr f.complete_le)]
  unfold takeFrame
  split at hbad
  · -- the length asks for more than a buffer has: back to the first frame
    next hstop =>
    obtain ⟨hdone, hover⟩ := not_not.mp hbad
    have hindex := h.index
    have hrewound := h'.rewound hm hdone
    rw [if_pos (show (s.setComplete (low23Bits f.ctrl)).lacks n _ from hstop)]
    refine Doomed.spoils ?_ (by rw [h'.step]; nofun)
    unfold ParseState.shortage
    rw [if_pos ⟨h'.step, show 0 < s.info.status.index by omega⟩,
      if_pos (show MAX_REQ_SIZE < wrap32 ((s.setComplete (low23Bits f.ctrl)).doptr +
        (f.width + frameSize s.mem s.doptr f.width)) from hover)]
    split
    · exact ⟨h.step, h.func, h.method, .inr (.inr hrewound)⟩
    · exact ⟨h.step, h.func, h.method, .inr (.inr hrewound)⟩
  · next hstop =>
    rw [if_neg (show ¬(s.setComplete (low23Bits f.ctrl)).lacks n _ from hstop), if_neg hframes]
    dsimp only
    generalize hsize : frameSize s.mem s.doptr f.width = size at hbad
    have hrecord : recordFrame (s.setComplete (low23Bits f.ctrl)) f.width size =
        { (s.setComplete (low23Bits f.ctrl)).setPackage
          ((s.setComplete (low23Bits f.ctrl)).info.status.package.enter
            (s.doptr + f.width + 1) size) with
          lengthOver := wrap32 (s.lengthOver + (1 + f.width + size)) } := if_pos h.method
    by_cases hread : size = f.data.length
    · -- all but the last byte of the last frame is there
      have hlast : low23Bits f.ctrl = 0 := by
        by_contra hne
        exact hbad ⟨hread, by unfold WireFrame.last; simpa using hne⟩
      rw [if_pos (by rw [hrecord]; exact hlast)]
      refine packageOver_spoils _ _ (by rw [hrecord]; exact h.step) (by rw [hrecord]; exact h.func)
        (by rw [hrecord]; exact h.method) (.inl ?_)
      rw [hread]
      exact h'.early hhi _ _
    · have hmisread := h'.misread hm hread
      split
      · exact packageOver_spoils _ _ (by rw [hrecord]; exact h.step) (by rw [hrecord]; exact h.func)
          (by rw [hrecord]; exact h.method) (.inl (hmisread.called _ _))
      · refine Doomed.spoils (Doomed.ptrMove ?_ _) nofun
        exact ⟨by rw [hrecord]; exact h.step, by rw [hrecord]; exact h.func,
          by rw [hrecord]; exact h.method, .inr (.inl hmisread)⟩

theorem Stands.spoils (hlen : m.bytes.length < 2 ^ 31) {f' : WireFrame}
    (hm' : m.packages = done' ++ (cur' ++ f' :: todo') :: later') (hlo : place done' cur' < n)
    (hhi : n < place done' cur' + f'.bytes.length) (fuel : Nat)
    (hm : m.packages = done ++ (cur ++ f :: todo) :: later) (h : Stands m done cur s)
    (hbefore : place done cur ≤ place done' cur') (hmem : s.mem.Holds 0 (m.bytes.take n))
    (hbad : ¬CutOk s.mem n done' cur' f') (hloop : parseLoop n fuel s = some (code, s')) :
    Spoils m (s', some code) := by
  induction fuel generalizing done later cur todo f s with
  | zero => exact absurd hloop (by rw [Mfptp.parseLoop]; simp)
  | succ fuel ih =>
    have hplace' := Message.place_le hm'
    have hpkg := m.isPackage (cur ++ f :: todo) (by rw [hm]; simp)
    have hlast := hpkg.last cur f todo rfl
    rcases frames_apart hm hm' with ⟨rfl, rfl, rfl⟩ | hahead | hbehind
    · -- this is the frame
      have hspoils := h.cut_spoils hm hlen hmem hlo hhi hbad
      have hturn : parseTurn n s = Mfptp.parseFrame n s := by
        rw [parseTurn, h.step]
      rw [Mfptp.parseLoop, hturn] at hloop
      generalize Mfptp.parseFrame n s = r at hspoils hloop
      obtain ⟨s₁, _ | code₁⟩ := r
      · exact hspoils.1.parseLoop hloop
      · obtain ⟨rfl, rfl⟩ := Prod.mk.inj (Option.some.inj hloop)
        exact hspoils
    · -- a frame in front of it is there and is taken
      have htakes := takes_of_holds h hlen hmem hm (by omega)
      cases hf : f.last with
      | false =>
        have hlength := hpkg.length
        rw [length_append, length_cons] at hlength
        obtain ⟨s₁, hturn, h₁, hmem₁⟩ := h.more htakes (by omega) (by omega) hf
        cases todo with
        | nil =>
          rw [hlast.mpr rfl] at hf
          cases hf
        | cons g todo =>
          rw [parseLoop_go h.step hturn] at hloop
          have hm₁ : m.packages = done ++ (cur ++ [f] ++ g :: todo) :: later := by
            rw [hm, append_assoc, singleton_append]
          exact ih hm₁ h₁ (by rw [place_snoc]; exact hahead) (by rw [hmem₁]; exact hmem)
            (by rw [hmem₁]; exact hbad) hloop
      | true =>
        obtain rfl : todo = [] := hlast.mp hf
        have hpackage : s.mem.Holds (place done []) (body (cur ++ [f])) :=
          holds_package hmem hm (by rw [place_snoc]; omega)
        have hturn := h.last htakes hm hlen hf
        cases later with
        | nil =>
          obtain ⟨hend, -⟩ := h.finished (n := n) hm hlen hpackage (by omega)
          omega
        | cons gs later =>
          obtain ⟨g, gs, rfl⟩ := exists_cons_of_ne_nil
            (m.isPackage gs (by rw [hm]; simp)).ne_nil
          have h₁ := h.next (n := n) hpackage (by omega) (by omega)
          rw [if_neg (by simp)] at hturn
          rw [parseLoop_go h.step hturn] at hloop
          have hm₁ : m.packages = done ++ [cur ++ [f]] ++ ([] ++ g :: gs) :: later := by
            rw [hm, append_assoc, singleton_append, nil_append]
          exact ih hm₁ h₁ (by rw [place_done, place_snoc]; exact hahead) hmem hbad hloop
    · omega

theorem Resting.spoils (h : Resting m prev s) (hlen : m.bytes.length < 2 ^ 31)
    (hprev : prev < a.size ∨ prev = 0) (hle : a.size ≤ m.bytes.length)
    (hcuts : ¬CutsOk m (buffer m.bytes a) a.size)
    (hcall : mfptpParse fuel (grow m.bytes prev s.mem a) a.size s.info s.calls = some (code, s')) :
    Spoils m (s', some code) := by
  have hmem : (buffer m.bytes a).Holds 0 (m.bytes.take a.size) := holds_buffer m.bytes
  unfold CutsOk at hcuts
  push Not at hcuts
  obtain ⟨done', cur', f', todo', later', hm', hlo, hhi, hbad⟩ := hcuts
  have hten : 10 ≤ Mfptp.place done' cur' := Nat.le_add_right ..
  rw [grow_eq h.mem (by omega) (by omega)] at hcall
  unfold mfptpParse at hcall
  rcases h.place with hhead | ⟨done, cur, f, todo, later, hm, hstands, hat⟩
  · obtain ⟨s₁, hturn, h₁, hmem₁⟩ := (hhead.reload (buffer m.bytes a)).turn (n := a.size)
      (by omega) hmem
    obtain ⟨f, fs, later, hm⟩ := m.first
    cases fuel with
    | zero => exact absurd hcall (by rw [parseLoop]; simp)
    | succ fuel =>
      rw [parseLoop, hturn] at hcall
      exact Stands.spoils hlen hm' hlo hhi fuel hm h₁ hten (by rw [hmem₁]; exact hmem)
        (by rw [hmem₁]; exact hbad) hcall
  · refine Stands.spoils hlen hm' hlo hhi fuel hm (hstands.reload (buffer m.bytes a)) ?_ hmem hbad
      hcall
    rcases frames_apart hm hm' with ⟨rfl, rfl, rfl⟩ | hahead | hbehind
    · exact le_rfl
    · omega
    · omega

--
-- All calls
--

theorem sizes_cons {rest : List Arrival} (hsizes : (a :: rest).Pairwise fun x y => x.size < y.size)
    (hlast : (a :: rest).getLast?.map Arrival.size = some n) :
    (rest = [] ∧ a.size = n) ∨
      (a.size < n ∧ rest.getLast?.map Arrival.size = some n ∧ ∀ b ∈ rest, a.size < b.size) := by
  cases rest with
  | nil => exact .inl ⟨rfl, Option.some.inj hlast⟩
  | cons b rest =>
    rw [getLast?_cons_cons] at hlast
    obtain ⟨z, hz, rfl⟩ := Option.map_eq_some_iff.mp hlast
    have hlt := (pairwise_cons.mp hsizes).1
    exact .inr ⟨hlt z (mem_of_getLast? hz), hlast, hlt⟩

theorem cutsOk_whole (m : Message) (mem : Mem) (hn : m.bytes.length ≤ n) : CutsOk m mem n := by
  intro done cur f todo later hm hlo hhi
  have := Message.place_le hm
  omega

theorem Resting.calls_iff (hmax : m.bytes.length ≤ MAX_REQ_SIZE) (as : List Arrival) {k : Code}
    (h : Resting m prev s) (hsizes : as.Pairwise fun a b => a.size < b.size)
    (hprev : (∀ a ∈ as, prev < a.size) ∨ prev = 0)
    (hlast : as.getLast?.map Arrival.size = some m.bytes.length) :
    (∃ fuel s', parseCalls fuel m.bytes prev (k, s) as = some (.over, s') ∧
        s'.calls.map Callback.content = m.contents ∧ ∀ c ∈ s'.calls, c.Inside) ↔
      ∀ a ∈ as, CutsOk m (buffer m.bytes a) a.size := by
  induction as generalizing prev k s with
  | nil => cases hlast
  | cons a rest ih =>
    have hlimit : MAX_REQ_SIZE = 10485760 := rfl
    have hsplit := sizes_cons hsizes hlast
    have hle : a.size ≤ m.bytes.length := by
      rcases hsplit with ⟨-, heq⟩ | ⟨hlt, -⟩ <;> omega
    have hprev : prev < a.size ∨ prev = 0 := hprev.imp_left fun h => h a (.head _)
    by_cases hcuts : CutsOk m (buffer m.bytes a) a.size
    · obtain ⟨fuel₁, code₁, s₁, hcall, hres⟩ := h.call hmax hprev hle hcuts
      rcases hsplit with ⟨rfl, heq⟩ | ⟨hlt, hlast', hrest⟩
      · rw [if_pos heq] at hres
        obtain ⟨rfl, hcontent, hinside⟩ := hres
        refine iff_of_true ⟨fuel₁, s₁, ?_, hcontent, hinside⟩ ?_
        · rw [parseCalls, hcall]
          rfl
        · rw [forall_mem_singleton]
          exact hcuts
      · rw [if_neg (by omega)] at hres
        rw [forall_mem_cons, and_iff_right hcuts, ← ih (k := code₁) hres
          (pairwise_cons.mp hsizes).2 (.inl hrest) hlast']
        constructor
        · rintro ⟨fuel, s', hcalls, hgood⟩
          rw [parseCalls, bind_eq_bind, bind_eq_some_iff] at hcalls
          obtain ⟨r, hr, hcalls⟩ := hcalls
          obtain rfl := parseLoop_unique hr hcall
          exact ⟨fuel, s', hcalls, hgood⟩
        · rintro ⟨fuel, s', hcalls, hgood⟩
          refine ⟨max fuel₁ fuel, s', ?_, hgood⟩
          rw [parseCalls, bind_eq_bind, bind_eq_some_iff]
          exact ⟨_, parseLoop_mono hcall (Nat.le_max_left _ _),
            parseCalls_mono hcalls (Nat.le_max_right _ _)⟩
    · refine iff_of_false ?_ fun h => hcuts (h a (.head _))
      rintro ⟨fuel, s', hcalls, hcontent, hinside⟩
      rw [parseCalls, bind_eq_bind, bind_eq_some_iff] at hcalls
      obtain ⟨⟨code₁, s₁⟩, hcall, hcalls⟩ := hcalls
      have hspoils := h.spoils (by omega) hprev hle hcuts hcall
      exact (Doomed.parseCalls hspoils hcalls).2 rfl ⟨by rw [hcontent], hinside⟩

theorem AtHead.beat {version coding count : UInt8} (h : AtHead s)
    (hmem : s.mem.Holds 0 (Wire.heartbeat version coding count).bytes) :
    ∃ s', parseLoop 10 1 s = some (.over, s') ∧ s'.calls = [] := by
  rw [Wire.bytes, Mem.holds_append] at hmem
  obtain ⟨hmagic, hfields⟩ := hmem
  rw [Mem.holds_cons, Mem.holds_cons, Mem.holds_cons] at hfields
  obtain ⟨-, -, hmethod, -⟩ := hfields
  have hload : s.mem.load 0 6 = magic := hmagic
  have hmethod : s.mem 8 = HEARTBEAT_METHOD := hmethod
  have hlacks : ¬s.lacks 10 MFPTP_BURST_HEADER_LEN := by
    unfold ParseState.lacks ParseState.doptr
    rw [h.doptr]
    decide
  rw [parseLoop, parseTurn, h.step]
  unfold parseHead
  rw [if_neg hlacks, if_neg (by rw [ParseState.doptr, h.doptr]; exact not_not.mpr hload)]
  simp only [ParseState.ptrMove, ParseState.setStatus, ParseState.setParser, ParseState.doptr,
    h.doptr,
    show wrap32 (0 + 6) = 6 by decide, show wrap32 (6 + 1) = 7 by decide,
    show wrap32 (7 + 1) = 8 by decide, hmethod, if_true]
  exact ⟨_, rfl, h.calls⟩

theorem AtHead.beats {version coding count : UInt8} {w : Wire}
    (hw : w = .heartbeat version coding count) (as : List Arrival) {k : Code} (h : AtHead s)
    (hmem : s.mem.Holds 0 (w.bytes.take prev)) (hsizes : as.Pairwise fun a b => a.size < b.size)
    (hprev : (∀ a ∈ as, prev < a.size) ∨ prev = 0)
    (hlast : as.getLast?.map Arrival.size = some w.bytes.length) :
    ∃ fuel s', parseCalls fuel w.bytes prev (k, s) as = some (.over, s') ∧ s'.calls = [] := by
  have hten : w.bytes.length = 10 := by
    rw [hw]
    rfl
  induction as generalizing prev k s with
  | nil => cases hlast
  | cons a rest ih =>
    have hsplit := sizes_cons hsizes hlast
    have hprev : prev < a.size ∨ prev = 0 := hprev.imp_left fun h => h a (.head _)
    have hgrow : grow w.bytes prev s.mem a = buffer w.bytes a := grow_eq hmem (by omega) (by omega)
    have h' := h.reload (buffer w.bytes a)
    have hbuffer : (buffer w.bytes a).Holds 0 (w.bytes.take a.size) := holds_buffer w.bytes
    rcases hsplit with ⟨rfl, heq⟩ | ⟨hlt, hlast', hrest⟩
    · rw [heq, take_length, hw] at hbuffer
      rw [hw] at h'
      obtain ⟨s₁, hcall, hcalls⟩ := h'.beat hbuffer
      refine ⟨1, s₁, ?_, hcalls⟩
      rw [parseCalls, hgrow, heq, hten, hw]
      unfold mfptpParse
      rw [show ((10 : Nat) : Int) = 10 from rfl, hcall]
      rfl
    · obtain ⟨fuel, s', hcalls, hnone⟩ := ih (k := .init) h' hbuffer
        (pairwise_cons.mp hsizes).2 (.inl hrest) hlast'
      refine ⟨max 1 fuel, s', ?_, hnone⟩
      rw [parseCalls, hgrow, bind_eq_bind, bind_eq_some_iff]
      exact ⟨_, parseLoop_mono (h'.short (by omega)) (Nat.le_max_left _ _),
        parseCalls_mono hcalls (Nat.le_max_right _ _)⟩

/-- What the callback is shown of a valid message. -/
def Wire.contents : Wire → List (List (Int × Bytes))
  | .heartbeat .. => []
  | .packages m => m.contents

theorem Wire.one_call (w : Wire) (hlen : w.bytes.length < 2 ^ 31) (old : Package) (whole : Mem) :
    ∃ fuel t, mfptpParse fuel (buffer w.bytes ⟨w.bytes.length, whole⟩) w.bytes.length
        (mfptpInitParserInfo old true) [] = some (.over, t) ∧
      t.calls.map Callback.content = w.contents := by
  have hmem : (buffer w.bytes ⟨w.bytes.length, whole⟩).Holds 0 w.bytes := by
    have := holds_buffer w.bytes (a := ⟨w.bytes.length, whole⟩)
    rwa [take_length] at this
  have hhead : AtHead ⟨mfptpInitParserInfo old true, buffer w.bytes ⟨w.bytes.length, whole⟩, [],
    0⟩ :=
    ⟨rfl, rfl, rfl, rfl, rfl⟩
  rcases w with ⟨version, coding, count⟩ | m
  · obtain ⟨s, hcall, hcalls⟩ := hhead.beat hmem
    exact ⟨1, s, hcall, by rw [hcalls]; rfl⟩
  · obtain ⟨fuel, t, hcall, -, hfinished⟩ := parse_message hhead hlen le_rfl hmem
    exact ⟨fuel, _, hcall, by rw [messageOver_calls]; exact hfinished.calls⟩

theorem sameAsOneCall_iff (w : Wire) (hlen : w.bytes.length < 2 ^ 31) (old : Package)
    (mem whole : Mem) (as : List Arrival) :
    SameAsOneCall w old mem whole as ↔
      ∃ fuel s, parseCalls fuel w.bytes 0 (freshParser old mem) as = some (.over, s) ∧
        s.calls.map Callback.content = w.contents ∧ ∀ c ∈ s.calls, c.Inside := by
  obtain ⟨fuel₁, t, hcall, hcontents⟩ := w.one_call hlen old whole
  constructor
  · rintro ⟨fuel, s, t', hcalls, hcall', hsame, hinside⟩
    obtain ⟨-, rfl⟩ := Prod.mk.inj (parseLoop_unique hcall' hcall)
    exact ⟨fuel, s, hcalls, hsame.trans hcontents, hinside⟩
  · rintro ⟨fuel, s, hcalls, hsame, hinside⟩
    exact ⟨max fuel fuel₁, s, t, parseCalls_mono hcalls (Nat.le_max_left _ _),
      parseLoop_mono hcall (Nat.le_max_right _ _), hsame.trans hcontents.symm, hinside⟩

theorem resting_fresh (m : Message) (old : Package) (mem : Mem) :
    Resting m 0 (freshParser old mem).2 :=
  ⟨Mem.holds_nil _ _, .inl ⟨rfl, rfl, rfl, rfl, rfl⟩⟩

/-- **A message in pieces.** For every message and every increasing sequence of
calls on it, the calls give what one call gives exactly when none of them ends
in a frame whose missing bytes matter. -/
theorem parseCalls_same_iff (w : Wire) (hmax : w.bytes.length ≤ MAX_REQ_SIZE) (as : List Arrival)
    (hsizes : as.Pairwise fun a b => a.size < b.size)
    (hlast : as.getLast?.map Arrival.size = some w.bytes.length) (old : Package) (mem whole : Mem) :
    SameAsOneCall w old mem whole as ↔ ∀ a ∈ as, w.CutsOk a := by
  have hlimit : MAX_REQ_SIZE = 10485760 := rfl
  rw [sameAsOneCall_iff w (by omega)]
  rcases hw : w with ⟨version, coding, count⟩ | m
  · refine iff_of_true ?_ fun _ _ => trivial
    rw [← hw]
    obtain ⟨fuel, s, hcalls, hnone⟩ := AtHead.beats hw as (k := .init)
      (s := (freshParser old mem).2) ⟨rfl, rfl, rfl, rfl, rfl⟩
      (show Mem.Holds _ 0 (w.bytes.take 0) from Mem.holds_nil _ _) hsizes (.inr rfl) hlast
    refine ⟨fuel, s, hcalls, ?_, ?_⟩
    · rw [hnone, hw]
      rfl
    · rw [hnone]
      nofun
  · rw [hw] at hmax hlast
    exact (resting_fresh m old mem).calls_iff hmax as hsizes (.inr rfl) hlast

theorem isPackage_singleton (hf : f.last = true) : IsPackage [f] where
  length := Nat.succ_le_succ (Nat.zero_le _)
  ne_nil := cons_ne_nil _ _
  last := by
    intro xs g ys h
    cases xs with
    | nil =>
      obtain ⟨rfl, rfl⟩ := List.cons.inj h
      exact iff_of_true hf rfl
    | cons x xs => exact absurd (List.cons.inj h).2 (by simp)

/-- A frame of one byte, the last of its package. -/
def byteFrame : WireFrame := ⟨0x00, [0x41], by decide, by decide⟩

/-- One package with this frame: thirteen bytes. -/
def oneByte : Message where
  version := 0x11
  coding := 0
  method := 3
  packages := [[byteFrame]]
  method_ne := by decide
  count_pos := cons_ne_nil _ _
  count_le := by decide
  isPackage := by
    intro fs hfs
    rw [mem_singleton.mp hfs]
    exact isPackage_singleton rfl

/-- Half of the header, then the rest. -/
theorem parseCalls_same_iff_oneByte :
    SameAsOneCall (.packages oneByte) .zero (fun _ => 0) (fun _ => 0)
      [⟨5, fun _ => 0xff⟩, ⟨13, fun _ => 0xff⟩] := by
  refine (parseCalls_same_iff (.packages oneByte) (by decide) _ (by decide) (by decide) .zero
    (fun _ => 0) (fun _ => 0)).mpr fun a ha => ?_
  rcases mem_cons.mp ha with rfl | ha
  · intro done cur f todo later hm hlo hhi
    have hten : 10 ≤ place done cur := Nat.le_add_right ..
    have hlo : place done cur < 5 := hlo
    omega
  · obtain rfl := mem_singleton.mp ha
    exact cutsOk_whole oneByte _ (by decide)

/-- All but the last byte: the callback is called, and shown a byte that has not
arrived. -/
theorem parseCalls_early :
    ¬∀ (w : Wire) (as : List Arrival) (old : Package) (mem whole : Mem),
      w.bytes.length ≤ MAX_REQ_SIZE → (as.Pairwise fun a b => a.size < b.size) →
      as.getLast?.map Arrival.size = some w.bytes.length → SameAsOneCall w old mem whole as := by
  intro h
  have hsame := h (.packages oneByte) [⟨12, fun _ => 0⟩, ⟨13, fun _ => 0⟩] .zero (fun _ => 0)
    (fun _ => 0) (by decide) (by decide) (by decide)
  rw [sameAsOneCall_iff _ (by decide)] at hsame
  have hcuts := ((resting_fresh oneByte .zero fun _ => 0).calls_iff (by decide) _ (by decide)
    (.inr rfl) (by decide)).mp hsame
  have hcut := hcuts _ (.head _) [] [] byteFrame [] [] rfl
    (by decide) (by decide)
  exact absurd hcut (by unfold CutOk; decide)

end Supex.Mfptp
