import Supex.Mfptp.Incremental
import Mathlib.Data.Int.ConditionallyCompleteOrder
import Mathlib.Order.SuccPred.CompleteLinearOrder

/-!
# libmfptp — what the parser looks at

`mfptp_parse` is told how many bytes of its buffer are there, and checks before
it reads. Its checks let three things through: the length of a frame is read
before it is known to be there, the size check of a frame leaves out its control
byte, and a length of four bytes may be negative. Besides, behind
`MAX_REQ_SIZE` it copies bytes up to that size, wherever the buffer ends.

Main result: `parse_inside`.
-/

namespace Supex.Mfptp

open Supex.Lib
open Function (update_self update_of_ne)

--
-- Reads
--

/-- What the copy loop of `CHECK_SIZE(offset, b)` reads: up to `MAX_REQ_SIZE`. -/
def copyReads (s : ParseState) (b : Int) : Set Int :=
  if s.info.status.step = .package ∧ 0 < s.info.status.index ∧
      MAX_REQ_SIZE < wrap32 (s.doptr + b) then Set.Ico s.doptr MAX_REQ_SIZE
  else ∅

/-- What `parseHead` reads: `strncmp` reads at most six bytes, a heartbeat ends
at its method. Offsets are sums as the source writes them. -/
def headReads (getSize : Int) (s : ParseState) : Set Int :=
  if s.lacks getSize MFPTP_BURST_HEADER_LEN then copyReads s MFPTP_BURST_HEADER_LEN
  else if s.mem.load s.doptr 6 ≠ magic then Set.Ico s.doptr (s.doptr + 6)
  else if s.mem (s.doptr + 8) = HEARTBEAT_METHOD then Set.Ico s.doptr (s.doptr + 9)
  else Set.Ico s.doptr (s.doptr + 10)

/-- The length of the frame at `doptr`, and the bytes it takes. -/
def frameWidth (s : ParseState) : Nat := sizeFSize (s.mem s.doptr)

def frameLen (s : ParseState) : Int := frameSize s.mem s.doptr (frameWidth s)

/-- Where the frame at `doptr` ends. -/
def frameEnd (s : ParseState) : Int := wrap32 (s.doptr + (1 + frameWidth s + frameLen s))

/-- The frame ends the message. -/
def EndsMessage (s : ParseState) : Prop :=
  s.info.status.package.frames < MAX_FRAMES_PER_PACKAGE ∧ low23Bits (s.mem s.doptr) = 0 ∧
    s.info.status.index + 1 = s.info.parser.packages.toNat

instance (s : ParseState) : Decidable (EndsMessage s) := inferInstanceAs (Decidable (_ ∧ _ ∧ _))

/-- What `parseFrame` reads: the control byte, the length, and behind the last
frame of a message the rest of the buffer, which is moved to its front. -/
def frameReads (getSize : Int) (s : ParseState) : Set Int :=
  if s.lacks getSize 1 then copyReads s 1
  else if 1 < low23Bits (s.mem s.doptr) then {s.doptr}
  else Set.Ico s.doptr (s.doptr + 1 + frameWidth s) ∪
    if s.lacks getSize (frameWidth s + frameLen s) then copyReads s (frameWidth s + frameLen s)
    else if EndsMessage s then Set.Ico (frameEnd s) getSize
    else ∅

/-- The offsets that one turn of the loop reads. -/
def turnReads (getSize : Int) (s : ParseState) : Set Int :=
  match s.info.status.step with
  | .ilegal | .init | .head => headReads getSize s
  | .package => frameReads getSize s
  | .over | .nodata | .moredata => ∅

--
-- Calls on a growing buffer
--

/-- The frames of a package lie below `size`. -/
def Package.Inside (size : Int) (p : Package) : Prop :=
  ∀ i, i < p.frames → i < MAX_FRAMES_PER_PACKAGE →
    0 ≤ p.ptrs i ∧ 0 ≤ p.dsizes i ∧ p.ptrs i + p.dsizes i ≤ size

/-- So do those that a callback is shown. -/
def Callback.Below (size : Int) (c : Callback) : Prop :=
  ∀ f ∈ c.frames, 0 ≤ f.ptr ∧ 0 ≤ f.dsize ∧ f.ptr + f.dsize ≤ size

/-- A turn reads only bytes below `size`, leaves `doptr` there, and records and
reports only frames that lie there. -/
structure TurnInside (size : Int) (s : ParseState) : Prop where
  reads : turnReads size s ⊆ Set.Ico 0 size
  doptr_nonneg : 0 ≤ (parseTurn size s).1.doptr
  doptr_le : (parseTurn size s).1.doptr ≤ size
  package : (parseTurn size s).1.info.status.package.Inside size
  calls : ∀ c ∈ (parseTurn size s).1.calls, c.Below size

/-- The state behind `n` turns, if none of them returns. -/
def turns (getSize : Int) : Nat → ParseState → Option ParseState
  | 0, s => some s
  | n + 1, s =>
    match parseTurn getSize s with
    | (_, some _) => none
    | (s', none) => turns getSize n s'

/-- A call returns, and all of its turns stay inside. -/
def CallInside (size : Int) (s : ParseState) : Prop :=
  (∃ fuel r, parseLoop size fuel s = some r) ∧
    ∀ n s', turns size n s = some s' → TurnInside size s'

/-- The parser between two calls, with the buffer as it has left it. -/
structure Reader where
  info : ParserInfo
  mem : Mem
  size : Nat

/-- A freshly initialised parser. -/
def Reader.fresh (old : Package) (func : Bool) (mem : Mem) : Reader :=
  ⟨mfptpInitParserInfo old func, mem, 0⟩

/-- The buffer of the next call: bytes are added behind those that are there. -/
def Reader.grown (r : Reader) (a : Arrival) : Mem := fun i =>
  if 0 ≤ i ∧ i < r.size then r.mem i else a.around i

/-- All calls return and stay inside. -/
def RunInside : Reader → List Arrival → Prop
  | _, [] => True
  | r, a :: rest => CallInside a.size ⟨r.info, r.grown a, [], 0⟩ ∧
    ∀ fuel code s, mfptpParse fuel (r.grown a) a.size r.info [] = some (code, s) →
      RunInside ⟨s.info, s.mem, a.size⟩ rest

--
-- Fitting turns
--

/-- Bytes are copied up to `MAX_REQ_SIZE` only when they are there. -/
def CopyFits (size : Int) (s : ParseState) (b : Int) : Prop :=
  0 < s.info.status.index → MAX_REQ_SIZE < wrap32 (s.doptr + b) → s.doptr < MAX_REQ_SIZE →
    MAX_REQ_SIZE ≤ size

/-- A header that is taken is there. -/
def HeadFits (size : Int) (s : ParseState) : Prop :=
  ¬s.lacks size MFPTP_BURST_HEADER_LEN → s.doptr + 6 ≤ size ∧
    (s.mem.load s.doptr 6 = magic → s.doptr + 10 ≤ size)

/-- A frame that is taken is there as a whole, with its control byte; if the
package has too many, it is only left behind. -/
def TakenFits (size : Int) (s : ParseState) : Prop :=
  if s.info.status.package.frames < MAX_FRAMES_PER_PACKAGE then
    0 ≤ frameLen s ∧ s.doptr + 1 + frameWidth s + frameLen s ≤ size
  else 0 ≤ frameEnd s ∧ frameEnd s ≤ size

/-- The length of a frame is there before it is read, and so is the frame. -/
def FrameFits (size : Int) (s : ParseState) : Prop :=
  if s.lacks size 1 then CopyFits size s 1
  else s.doptr + 1 ≤ size ∧ (low23Bits (s.mem s.doptr) ≤ 1 →
    s.doptr + 1 + frameWidth s ≤ size ∧
      if s.lacks size (frameWidth s + frameLen s) then CopyFits size s (frameWidth s + frameLen s)
      else TakenFits size s)

/-- What a turn takes is there. -/
def TurnFits (size : Int) (s : ParseState) : Prop :=
  match s.info.status.step with
  | .ilegal | .init | .head => HeadFits size s
  | .package => FrameFits size s
  | .over | .nodata | .moredata => True

/-- All turns of a call fit. -/
def CallFits (size : Int) (s : ParseState) : Prop :=
  ∀ n s', turns size n s = some s' → TurnFits size s'

/-- All turns of all calls do. -/
def RunFits : Reader → List Arrival → Prop
  | _, [] => True
  | r, a :: rest => CallFits a.size ⟨r.info, r.grown a, [], 0⟩ ∧
    ∀ fuel code s, mfptpParse fuel (r.grown a) a.size r.info [] = some (code, s) →
      RunFits ⟨s.info, s.mem, a.size⟩ rest

--
-- Invariants
--

/-- The parser stands below `size`, and so do the frames of its package. -/
structure InBounds (size : Int) (func : Bool) (info : ParserInfo) : Prop where
  step : info.status.step = .init ∨
    info.status.step = .package ∧ info.parser.method ≠ HEARTBEAT_METHOD
  func : info.parser.func = func
  doptr_nonneg : 0 ≤ info.status.doptr
  doptr_le : info.status.doptr ≤ size
  package : info.status.package.Inside size

/-- Inside a call it stands behind the frames of the call. -/
structure Walking (size : Int) (func : Bool) (s : ParseState) : Prop extends
    InBounds size func s.info where
  over_nonneg : 0 ≤ s.lengthOver
  over_le : s.lengthOver ≤ s.doptr
  calls : ∀ c ∈ s.calls, c.Below size

theorem Package.Inside.mono {size size' : Int} {p : Package} (h : p.Inside size)
    (hle : size ≤ size') : p.Inside size' := by
  intro i hi hmax
  obtain ⟨hptr, hsize, hend⟩ := h i hi hmax
  exact ⟨hptr, hsize, by omega⟩

theorem InBounds.mono {size size' : Int} {func : Bool} {info : ParserInfo}
    (h : InBounds size func info) (hle : size ≤ size') : InBounds size' func info :=
  ⟨h.step, h.func, h.doptr_nonneg, h.doptr_le.trans hle, h.package.mono hle⟩

theorem inBounds_fresh (old : Package) (func : Bool) :
    InBounds 0 func (mfptpInitParserInfo old func) :=
  ⟨.inl rfl, rfl, le_rfl, le_rfl, fun _ hi => absurd hi (Nat.not_lt_zero _)⟩

theorem InBounds.not_heartbeat {size : Int} {func : Bool} {info : ParserInfo}
    (h : InBounds size func info) (hstep : info.status.step = .package) :
    info.parser.method ≠ HEARTBEAT_METHOD := by
  rcases h.step with hinit | ⟨-, hmethod⟩
  · rw [hstep] at hinit
    exact nomatch hinit
  · exact hmethod

variable {len : Int}

theorem InBounds.ptrMove {size : Int} {func : Bool} {s : ParseState} (h : InBounds size func s.info)
    (hlen : 0 ≤ len) (hend : s.doptr + len ≤ size) (hsize : size < 2 ^ 31) :
    (s.ptrMove len).doptr = s.doptr + len ∧ InBounds size func (s.ptrMove len).info := by
  have hnonneg : 0 ≤ s.doptr := h.doptr_nonneg
  have hmove : (s.ptrMove len).doptr = s.doptr + len := wrap32_of_range (by omega) (by omega)
  refine ⟨hmove, h.step, h.func, ?_, ?_, h.package⟩
  · show 0 ≤ (s.ptrMove len).doptr
    omega
  · show (s.ptrMove len).doptr ≤ size
    omega

theorem InBounds.walking {size : Int} {func : Bool} {info : ParserInfo}
    (h : InBounds size func info) (mem : Mem) : Walking size func ⟨info, mem, [], 0⟩ :=
  ⟨h, le_rfl, h.doptr_nonneg, nofun⟩

theorem Package.Inside.enter {size ptr : Int} {p : Package} (h : p.Inside size) (hptr : 0 ≤ ptr)
    (hlen : 0 ≤ len) (hend : ptr + len ≤ size) : (p.enter ptr len).Inside size := by
  intro i hi hmax
  by_cases hlast : i = p.frames
  · subst hlast
    unfold Package.enter
    dsimp only
    rw [update_self, update_self]
    exact ⟨hptr, hlen, hend⟩
  · unfold Package.enter at hi ⊢
    dsimp only at hi ⊢
    rw [update_of_ne hlast, update_of_ne hlast]
    exact h i (by omega) hmax

theorem Package.Inside.below {size getSize : Int} {p : Package} {m : Mem} (h : p.Inside size)
    (hmax : p.frames ≤ MAX_FRAMES_PER_PACKAGE) :
    (⟨p.view m, getSize⟩ : Callback).Below size := by
  intro f hf
  obtain ⟨i, hi, rfl⟩ := List.mem_map.mp hf
  have hlt := List.mem_range.mp hi
  exact h i hlt (by omega)

section Shortage

variable {size : Int} {func : Bool} {s : ParseState}

theorem Walking.shortage (h : Walking size func s) (hsize : size < 2 ^ 31) (b : Int) :
    InBounds size func (s.shortage b).info ∧ (s.shortage b).calls = s.calls := by
  have hle := h.doptr_le
  have hover := h.over_nonneg
  have hover' : s.lengthOver ≤ s.info.status.doptr := h.over_le
  have hback : wrap32 (s.info.status.doptr - s.lengthOver) =
      s.info.status.doptr - s.lengthOver := wrap32_of_range (by omega) (by omega)
  have hrewind : InBounds size func s.rewind.info :=
    ⟨h.step, h.func, by show 0 ≤ wrap32 (s.info.status.doptr - s.lengthOver); omega,
      by show wrap32 (s.info.status.doptr - s.lengthOver) ≤ size; omega, h.package⟩
  unfold ParseState.shortage
  split
  · split
    · split
      · exact ⟨hrewind, rfl⟩
      · exact ⟨hrewind, rfl⟩
    · exact ⟨h.toInBounds, rfl⟩
  · exact ⟨h.toInBounds, rfl⟩

theorem copyReads_iff (h : Walking size func s) (hstep : s.info.status.step = .package) (b : Int) :
    copyReads s b ⊆ Set.Ico 0 size ↔ CopyFits size s b := by
  have hnonneg : 0 ≤ s.doptr := h.doptr_nonneg
  unfold copyReads CopyFits
  by_cases hcopy : 0 < s.info.status.index ∧ MAX_REQ_SIZE < wrap32 (s.doptr + b)
  · rw [if_pos ⟨hstep, hcopy⟩]
    constructor
    · intro hreads _ _ hlt
      have := (hreads ⟨Int.le_sub_one_of_lt hlt, Int.sub_one_lt_of_le le_rfl⟩).2
      omega
    · rintro hfits i ⟨hlo, hhi⟩
      exact ⟨by omega, by omega⟩
  · rw [if_neg fun hall => hcopy hall.2]
    constructor
    · intro _ hindex hmax
      exact absurd ⟨hindex, hmax⟩ hcopy
    · intro _
      exact Set.empty_subset _

end Shortage

--
-- The header
--

/-- What a turn that is inside leaves behind. -/
structure TurnOk (size : Int) (func : Bool) (s : ParseState) (r : ParseState × Option Code) :
    Prop where
  bounds : InBounds size func r.1.info
  calls : ∀ c ∈ r.1.calls, c.Below size
  next : r.2 = none → Walking size func r.1 ∧ s.doptr < r.1.doptr

section Head

variable {size : Int} {func : Bool} {s : ParseState}

theorem parseHead_there (h : Walking size func s) (hstep : s.info.status.step = .init)
    (hsize : size < 2 ^ 31) (hlacks : ¬s.lacks size MFPTP_BURST_HEADER_LEN)
    (hmagic : s.mem.load s.doptr 6 = magic) (hend : s.doptr + 10 ≤ size) :
    TurnOk size func s (parseHead size s) := by
  have hend' : s.info.status.doptr + 10 ≤ size := hend
  have hover := h.over_nonneg
  have hover' : s.lengthOver ≤ s.info.status.doptr := h.over_le
  have hw : ∀ k : Int, 0 ≤ k → k ≤ 10 →
      wrap32 (s.info.status.doptr + k) = s.info.status.doptr + k :=
    fun k hlo hhi => wrap32_of_range (by omega) (by omega)
  unfold parseHead
  rw [if_neg hlacks, if_neg (not_not.mpr hmagic)]
  simp (disch := omega) only [ParseState.ptrMove, ParseState.setPackage, ParseState.setStatus,
    ParseState.setParser, ParseState.doptr, Int.add_assoc, Int.reduceAdd, hw]
  split
  · exact ⟨⟨.inl hstep, h.func, by dsimp only; omega, hend', h.package⟩, h.calls, by simp⟩
  · next hmethod =>
    split
    · exact ⟨⟨.inl hstep, h.func, by dsimp only; omega, by dsimp only; omega, h.package⟩, h.calls,
        by simp⟩
    · have hbounds : ∀ (parser : Parser) (package : Package), parser.method ≠ HEARTBEAT_METHOD →
          parser.func = func → package.frames = 0 → InBounds size func
            ⟨parser, ⟨.package, s.info.status.index, s.info.status.doptr + 10, package⟩⟩ := by
        intro parser package hm hf hzero
        refine ⟨.inr ⟨rfl, hm⟩, hf, by dsimp only; omega, hend', ?_⟩
        intro i hi
        dsimp only at hi
        omega
      refine ⟨hbounds _ _ hmethod h.func rfl, h.calls, fun _ =>
        ⟨⟨hbounds _ _ hmethod h.func rfl, hover, ?_, h.calls⟩, ?_⟩⟩
      · show s.lengthOver ≤ s.info.status.doptr + 10
        omega
      · show s.info.status.doptr < s.info.status.doptr + 10
        omega

theorem parseHead_ok (h : Walking size func s) (hstep : s.info.status.step = .init)
    (hsize : size < 2 ^ 31) (hfits : HeadFits size s) :
    headReads size s ⊆ Set.Ico 0 size ∧ TurnOk size func s (parseHead size s) := by
  have hnonneg : 0 ≤ s.doptr := h.doptr_nonneg
  have hstill : (s.shortage MFPTP_BURST_HEADER_LEN) = s := by
    unfold ParseState.shortage
    rw [if_neg (by rw [hstep]; nofun)]
  have hspan : ∀ k : Int, s.doptr + k ≤ size → Set.Ico s.doptr (s.doptr + k) ⊆ Set.Ico 0 size := by
    rintro k hk i ⟨hlo, hhi⟩
    exact ⟨by omega, by omega⟩
  unfold headReads
  by_cases hlacks : s.lacks size MFPTP_BURST_HEADER_LEN
  · rw [if_pos hlacks, copyReads, if_neg (by rw [hstep]; nofun), parseHead, if_pos hlacks, hstill]
    exact ⟨Set.empty_subset _, h.toInBounds, h.calls, nofun⟩
  · obtain ⟨hsix, hten⟩ := hfits hlacks
    rw [if_neg hlacks]
    by_cases hmagic : s.mem.load s.doptr 6 = magic
    · refine ⟨?_, parseHead_there h hstep hsize hlacks hmagic (hten hmagic)⟩
      have hten := hten hmagic
      rw [if_neg (not_not.mpr hmagic)]
      split
      · exact hspan 9 (by omega)
      · exact hspan 10 hten
    · rw [if_pos hmagic, parseHead, if_neg hlacks, if_pos hmagic]
      exact ⟨hspan 6 hsix, h.toInBounds, h.calls, nofun⟩

theorem headFits_of_inside (h : Walking size func s) (hsize : size < 2 ^ 31)
    (hreads : headReads size s ⊆ Set.Ico 0 size) (hdoptr : 0 ≤ (parseHead size s).1.doptr) :
    HeadFits size s := by
  intro hlacks
  have hnonneg : 0 ≤ s.info.status.doptr := h.doptr_nonneg
  have hspan : ∀ k : Int, 0 < k → Set.Ico s.doptr (s.doptr + k) ⊆ Set.Ico 0 size →
      s.doptr + k ≤ size := by
    intro k hk hsub
    have := (hsub (⟨by omega, by omega⟩ : s.doptr + k - 1 ∈ Set.Ico s.doptr (s.doptr + k))).2
    omega
  unfold headReads at hreads
  rw [if_neg hlacks] at hreads
  by_cases hmagic : s.mem.load s.doptr 6 = magic
  · rw [if_neg (not_not.mpr hmagic)] at hreads
    by_cases hbeat : s.mem (s.doptr + 8) = HEARTBEAT_METHOD
    · rw [if_pos hbeat] at hreads
      have hnine := hspan 9 (by decide) hreads
      refine ⟨by omega, fun _ => ?_⟩
      -- behind a heartbeat `doptr` moves on by one more byte
      have hnine' : s.info.status.doptr + 9 ≤ size := hnine
      have hw : ∀ k : Int, 0 ≤ k → k ≤ 9 →
          wrap32 (s.info.status.doptr + k) = s.info.status.doptr + k :=
        fun k hlo hhi => wrap32_of_range (by omega) (by omega)
      have hbeat' : s.mem (s.info.status.doptr + 8) = HEARTBEAT_METHOD := hbeat
      unfold parseHead at hdoptr
      rw [if_neg hlacks, if_neg (not_not.mpr hmagic)] at hdoptr
      simp (disch := omega) only [ParseState.ptrMove, ParseState.setStatus, ParseState.setParser,
        ParseState.doptr, Int.add_assoc, Int.reduceAdd, hw, hbeat', if_true] at hdoptr
      have hten : wrap32 (s.doptr + MFPTP_BURST_HEADER_LEN) ≤ size := Int.not_lt.mp hlacks
      by_contra hbeyond
      have hsum : s.info.status.doptr + 10 = 2 ^ 31 := by
        by_contra hne
        have hkept : wrap32 (s.doptr + MFPTP_BURST_HEADER_LEN) = s.doptr + 10 :=
          wrap32_of_range (by unfold MFPTP_BURST_HEADER_LEN ParseState.doptr; omega)
            (by unfold MFPTP_BURST_HEADER_LEN ParseState.doptr; omega)
        omega
      rw [hsum] at hdoptr
      revert hdoptr
      decide
    · rw [if_neg hbeat] at hreads
      have hten := hspan 10 (by decide) hreads
      exact ⟨by omega, fun _ => hten⟩
  · rw [if_pos hmagic] at hreads
    exact ⟨hspan 6 (by decide) hreads, fun h => absurd h hmagic⟩

end Head

--
-- Frames
--

section Frame

variable {size : Int} {func : Bool} {s : ParseState}

theorem Walking.setComplete (h : Walking size func s) (c : Nat) :
    Walking size func (s.setComplete c) :=
  ⟨⟨h.step, h.func, h.doptr_nonneg, h.doptr_le, h.package⟩, h.over_nonneg, h.over_le, h.calls⟩

theorem recordFrame_ok (h : Walking size func s) (hstep : s.info.status.step = .package)
    (hsize : size < 2 ^ 31) {sizeF : Nat} (hlen : 0 ≤ len)
    (hend : s.doptr + 1 + sizeF + len ≤ size) :
    InBounds size func (recordFrame s sizeF len).info ∧
      (recordFrame s sizeF len).calls = s.calls ∧ (recordFrame s sizeF len).doptr = s.doptr ∧
      (recordFrame s sizeF len).lengthOver = s.lengthOver + (1 + sizeF + len) ∧
      (recordFrame s sizeF len).info.status =
        { s.info.status with
          package := s.info.status.package.enter (s.doptr + sizeF + 1) len } ∧
      (recordFrame s sizeF len).info.parser = s.info.parser := by
  have hover := h.over_nonneg
  have hover' := h.over_le
  have hmethod := h.not_heartbeat hstep
  have hsum : wrap32 (s.lengthOver + (1 + sizeF + len)) = s.lengthOver + (1 + sizeF + len) :=
    wrap32_of_range (by omega) (by omega)
  unfold recordFrame
  rw [if_pos hmethod]
  refine ⟨⟨h.step, h.func, h.doptr_nonneg, h.doptr_le, ?_⟩, rfl, rfl, hsum, rfl, rfl⟩
  exact h.package.enter (by omega) hlen (by omega)

theorem callFunc_ok (hbounds : InBounds size func s.info) (hcalls : ∀ c ∈ s.calls, c.Below size)
    (hframes : s.info.status.package.frames ≤ MAX_FRAMES_PER_PACKAGE) :
    (callFunc size s).info = s.info ∧ (callFunc size s).lengthOver = s.lengthOver ∧
      ∀ c ∈ (callFunc size s).calls, c.Below size := by
  unfold callFunc
  split
  · refine ⟨rfl, rfl, ?_⟩
    intro c hc
    rcases List.mem_append.mp hc with hc | hc
    · exact hcalls c hc
    · rw [List.mem_singleton.mp hc]
      exact hbounds.package.below hframes
  · exact ⟨rfl, rfl, hcalls⟩

theorem InBounds.messageOver (h : InBounds size func s.info) :
    InBounds size func (messageOver size s).info := by
  have hsize : 0 ≤ size := h.doptr_nonneg.trans h.doptr_le
  unfold Mfptp.messageOver
  dsimp only
  split
  · exact ⟨h.step, h.func, le_rfl, hsize, h.package⟩
  · split
    · exact ⟨h.step, h.func, le_rfl, hsize, h.package⟩
    · exact h

theorem packageOver_ok (hbounds : InBounds size func s.info) (hcalls : ∀ c ∈ s.calls, c.Below size)
    (hover : 0 ≤ s.lengthOver) (hframes : s.info.status.package.frames ≤ MAX_FRAMES_PER_PACKAGE)
    (hsize : size < 2 ^ 31) (hlen : 0 < len) (hend : s.doptr + len ≤ size)
    (hover' : s.lengthOver ≤ s.doptr + len) : TurnOk size func s (packageOver size s len) := by
  have hbounds₁ : InBounds size func
      (s.setStatus { s.info.status with index := s.info.status.index + 1 }).info :=
    ⟨hbounds.step, hbounds.func, hbounds.doptr_nonneg, hbounds.doptr_le, hbounds.package⟩
  obtain ⟨hinfo, hover₁, hcalls₁⟩ := callFunc_ok hbounds₁ hcalls hframes
  unfold packageOver
  generalize callFunc size _ = t at hinfo hover₁ hcalls₁
  have hboundsT : InBounds size func t.info := by
    rw [hinfo]
    exact hbounds₁
  have hdoptr : t.doptr = s.doptr := by
    unfold ParseState.doptr
    rw [hinfo]
    rfl
  have hlengthOver : t.lengthOver = s.lengthOver := hover₁
  dsimp only
  split
  · -- the message is over
    obtain ⟨-, hmoved⟩ := hboundsT.ptrMove hlen.le (by omega) hsize
    refine ⟨hmoved.messageOver, ?_, nofun⟩
    rw [messageOver_calls]
    exact hcalls₁
  · -- the next package begins
    have hzero : InBounds size func (t.setPackage .zero).info :=
      ⟨hboundsT.step, hboundsT.func, hboundsT.doptr_nonneg, hboundsT.doptr_le,
        fun _ hi => absurd hi (Nat.not_lt_zero _)⟩
    have hdoptr₁ : (t.setPackage .zero).doptr = s.doptr := hdoptr
    obtain ⟨hpast, hmoved⟩ := hzero.ptrMove hlen.le (by omega) hsize
    refine ⟨hmoved, hcalls₁, fun _ => ⟨⟨hmoved, ?_, ?_, hcalls₁⟩, ?_⟩⟩
    · show 0 ≤ t.lengthOver
      omega
    · show t.lengthOver ≤ ((t.setPackage .zero).ptrMove len).doptr
      omega
    · show s.doptr < ((t.setPackage .zero).ptrMove len).doptr
      omega

theorem takeFrame_ok (h : Walking size func s) (hstep : s.info.status.step = .package)
    (hsize : size < 2 ^ 31) {sizeF : Nat} (hfits : ¬s.lacks size (sizeF + len) →
      if s.info.status.package.frames < MAX_FRAMES_PER_PACKAGE then
        0 ≤ len ∧ s.doptr + 1 + sizeF + len ≤ size
      else 0 ≤ wrap32 (s.doptr + (1 + sizeF + len)) ∧ wrap32 (s.doptr + (1 + sizeF + len)) ≤ size) :
    TurnOk size func s (takeFrame size s sizeF len) := by
  have hover := h.over_nonneg
  have hover' := h.over_le
  unfold takeFrame
  by_cases hlacks : s.lacks size (sizeF + len)
  · rw [if_pos hlacks]
    obtain ⟨hbounds, hcalls⟩ := h.shortage hsize (sizeF + len)
    exact ⟨hbounds, by rw [hcalls]; exact h.calls, nofun⟩
  rw [if_neg hlacks]
  have hfits := hfits hlacks
  by_cases hmany : MAX_FRAMES_PER_PACKAGE < s.info.status.package.frames + 1
  · rw [if_neg (by omega)] at hfits
    rw [if_pos hmany]
    refine ⟨⟨h.step, h.func, hfits.1, hfits.2, ?_⟩, h.calls, nofun⟩
    intro i _ hmax
    exact h.package i (by omega) hmax
  · rw [if_pos (by omega)] at hfits
    obtain ⟨hlen, hend⟩ := hfits
    rw [if_neg hmany]
    obtain ⟨hbounds, hcalls, hdoptr, hsum, hstatus, -⟩ := recordFrame_ok h hstep hsize hlen hend
    have hcalls' : ∀ c ∈ (recordFrame s sizeF len).calls, c.Below size := by
      rw [hcalls]
      exact h.calls
    dsimp only
    split
    · have hframes : (recordFrame s sizeF len).info.status.package.frames ≤
          MAX_FRAMES_PER_PACKAGE := by
        rw [hstatus]
        show s.info.status.package.frames + 1 ≤ _
        omega
      obtain ⟨hbounds', hbelow, hnext⟩ := packageOver_ok hbounds hcalls' (by omega) hframes hsize
        (show (0 : Int) < 1 + sizeF + len by omega) (by rw [hdoptr]; omega)
        (by rw [hdoptr]; omega)
      refine ⟨hbounds', hbelow, fun hnone => ?_⟩
      obtain ⟨hwalking, hlt⟩ := hnext hnone
      rw [hdoptr] at hlt
      exact ⟨hwalking, hlt⟩
    · obtain ⟨hmove, hbounds'⟩ := hbounds.ptrMove (show 0 ≤ 1 + sizeF + len by omega)
        (by rw [hdoptr]; omega) hsize
      refine ⟨hbounds', hcalls', fun _ => ⟨⟨hbounds', ?_, ?_, hcalls'⟩, ?_⟩⟩
      · show 0 ≤ (recordFrame s sizeF len).lengthOver
        omega
      · show (recordFrame s sizeF len).lengthOver ≤
          ((recordFrame s sizeF len).ptrMove (1 + sizeF + len)).doptr
        omega
      · show s.doptr < ((recordFrame s sizeF len).ptrMove (1 + sizeF + len)).doptr
        omega

theorem parseFrame_def (size : Int) (s : ParseState) :
    parseFrame size s =
      if s.lacks size 1 then (s.shortage 1, some s.info.status.step)
      else if 1 < low23Bits (s.mem s.doptr) then
        (s.setComplete (low23Bits (s.mem s.doptr)), some .ilegal)
      else takeFrame size (s.setComplete (low23Bits (s.mem s.doptr))) (frameWidth s) (frameLen s) :=
  rfl

theorem parseFrame_ok (h : Walking size func s) (hstep : s.info.status.step = .package)
    (hsize : size < 2 ^ 31) (hfits : FrameFits size s) :
    frameReads size s ⊆ Set.Ico 0 size ∧ TurnOk size func s (parseFrame size s) := by
  have hnonneg : 0 ≤ s.doptr := h.doptr_nonneg
  unfold FrameFits at hfits
  unfold frameReads
  rw [parseFrame_def]
  by_cases hlacks : s.lacks size 1
  · rw [if_pos hlacks] at hfits ⊢
    rw [if_pos hlacks]
    obtain ⟨hbounds, hcalls⟩ := h.shortage hsize 1
    exact ⟨(copyReads_iff h hstep 1).mpr hfits, hbounds, by rw [hcalls]; exact h.calls, nofun⟩
  rw [if_neg hlacks] at hfits ⊢
  rw [if_neg hlacks]
  obtain ⟨hctrl, hfits⟩ := hfits
  by_cases hillegal : 1 < low23Bits (s.mem s.doptr)
  · rw [if_pos hillegal, if_pos hillegal]
    refine ⟨?_, (h.setComplete _).toInBounds, h.calls, nofun⟩
    rintro i rfl
    exact ⟨hnonneg, by omega⟩
  rw [if_neg hillegal, if_neg hillegal]
  obtain ⟨hwidth, hfits⟩ := hfits (by omega)
  constructor
  · apply Set.union_subset
    · rintro i ⟨hlo, hhi⟩
      exact ⟨by omega, by omega⟩
    · by_cases hmore : s.lacks size (frameWidth s + frameLen s)
      · rw [if_pos hmore] at hfits ⊢
        exact (copyReads_iff h hstep _).mpr hfits
      · rw [if_neg hmore] at hfits ⊢
        split
        · next hover =>
          unfold TakenFits at hfits
          rw [if_pos hover.1] at hfits
          rintro i ⟨hlo, hhi⟩
          have hend : frameEnd s = s.doptr + (1 + frameWidth s + frameLen s) :=
            wrap32_of_range (by omega) (by omega)
          exact ⟨by omega, hhi⟩
        · exact Set.empty_subset _
  · have htake : ¬(s.setComplete (low23Bits (s.mem s.doptr))).lacks size
        (frameWidth s + frameLen s) → TakenFits size s := by
      intro hmore
      rw [if_neg (show ¬s.lacks size (frameWidth s + frameLen s) from hmore)] at hfits
      exact hfits
    obtain ⟨hbounds, hcalls, hnext⟩ := takeFrame_ok (h.setComplete (low23Bits (s.mem s.doptr)))
      hstep hsize htake
    exact ⟨hbounds, hcalls, hnext⟩

theorem packageOver_shows (hfunc : s.info.parser.func = true)
    (hmethod : s.info.parser.method ≠ HEARTBEAT_METHOD) (getSize len : Int) :
    ⟨s.info.status.package.view s.mem, getSize⟩ ∈ (packageOver getSize s len).1.calls := by
  have hcall : (callFunc getSize
      (s.setStatus { s.info.status with index := s.info.status.index + 1 })).calls =
        s.calls ++ [⟨s.info.status.package.view s.mem, getSize⟩] := by
    unfold callFunc
    rw [if_pos ⟨hfunc, hmethod⟩]
    rfl
  unfold packageOver
  dsimp only
  split
  · rw [messageOver_calls]
    show _ ∈ (callFunc getSize (s.setStatus _)).calls
    rw [hcall]
    exact List.mem_append_right _ (.head _)
  · show _ ∈ (callFunc getSize (s.setStatus _)).calls
    rw [hcall]
    exact List.mem_append_right _ (.head _)

theorem takeFrame_shows (hstep : s.info.status.step = .package) (h : Walking size true s)
    {sizeF : Nat} (hlacks : ¬s.lacks size (sizeF + len))
    (hfew : s.info.status.package.frames < MAX_FRAMES_PER_PACKAGE)
    (hpackage : (takeFrame size s sizeF len).1.info.status.package.Inside size)
    (hcalls : ∀ c ∈ (takeFrame size s sizeF len).1.calls, c.Below size) :
    0 ≤ len ∧ s.doptr + sizeF + 1 + len ≤ size := by
  have hmethod := h.not_heartbeat hstep
  have hrecord : (recordFrame s sizeF len).info = ⟨s.info.parser, { s.info.status with
      package := s.info.status.package.enter (s.doptr + sizeF + 1) len }⟩ := by
    unfold recordFrame
    rw [if_pos hmethod]
    rfl
  have hentry : (s.info.status.package.enter (s.doptr + sizeF + 1) len).ptrs
        s.info.status.package.frames = s.doptr + sizeF + 1 ∧
      (s.info.status.package.enter (s.doptr + sizeF + 1) len).dsizes
        s.info.status.package.frames = len :=
    ⟨update_self .., update_self ..⟩
  unfold takeFrame at hpackage hcalls
  rw [if_neg hlacks, if_neg (by omega)] at hpackage hcalls
  by_cases hlast : (recordFrame s sizeF len).info.status.package.complete = 0
  · rw [if_pos hlast] at hcalls
    have hshown := hcalls _ (packageOver_shows (by rw [hrecord]; exact h.func)
      (by rw [hrecord]; exact hmethod) size (1 + sizeF + len))
    rw [hrecord] at hshown
    have hmem := hshown _ (List.mem_map_of_mem (List.mem_range.mpr
      (show s.info.status.package.frames < s.info.status.package.frames + 1 by omega)))
    rw [hentry.1, hentry.2] at hmem
    exact hmem.2
  · rw [if_neg hlast] at hpackage
    have hinside : (recordFrame s sizeF len).info.status.package.Inside size := hpackage
    rw [hrecord] at hinside
    have hmem := hinside s.info.status.package.frames
      (show s.info.status.package.frames < s.info.status.package.frames + 1 by omega) hfew
    rw [hentry.1, hentry.2] at hmem
    exact hmem.2

theorem frameFits_of_inside (h : Walking size true s) (hstep : s.info.status.step = .package)
    (hreads : frameReads size s ⊆ Set.Ico 0 size) (hnonneg : 0 ≤ (parseFrame size s).1.doptr)
    (hle : (parseFrame size s).1.doptr ≤ size)
    (hpackage : (parseFrame size s).1.info.status.package.Inside size)
    (hcalls : ∀ c ∈ (parseFrame size s).1.calls, c.Below size) : FrameFits size s := by
  rw [parseFrame_def] at hnonneg hle hpackage hcalls
  unfold frameReads at hreads
  unfold FrameFits
  by_cases hlacks : s.lacks size 1
  · rw [if_pos hlacks] at hreads ⊢
    exact (copyReads_iff h hstep 1).mp hreads
  rw [if_neg hlacks] at hreads hnonneg hle hpackage hcalls ⊢
  by_cases hillegal : 1 < low23Bits (s.mem s.doptr)
  · rw [if_pos hillegal] at hreads
    have hctrl := (hreads (Set.mem_singleton s.doptr)).2
    exact ⟨by omega, fun hle => absurd hillegal (by omega)⟩
  rw [if_neg hillegal] at hreads hnonneg hle hpackage hcalls
  have hwidth : s.doptr + frameWidth s < size :=
    (hreads (.inl (⟨by omega, by omega⟩ :
      s.doptr + frameWidth s ∈ Set.Ico s.doptr (s.doptr + 1 + frameWidth s)))).2
  refine ⟨by omega, fun _ => ⟨by omega, ?_⟩⟩
  by_cases hmore : s.lacks size (frameWidth s + frameLen s)
  · rw [if_pos hmore] at hreads ⊢
    exact (copyReads_iff h hstep _).mp (Set.union_subset_iff.mp hreads).2
  · rw [if_neg hmore]
    unfold TakenFits
    have hmore' : ¬(s.setComplete (low23Bits (s.mem s.doptr))).lacks size
        (frameWidth s + frameLen s) := hmore
    by_cases hfew : s.info.status.package.frames < MAX_FRAMES_PER_PACKAGE
    · rw [if_pos hfew]
      obtain ⟨hlen, hend⟩ := takeFrame_shows (s := s.setComplete (low23Bits (s.mem s.doptr)))
        hstep (h.setComplete _) hmore' hfew hpackage hcalls
      have hend' : s.doptr + frameWidth s + 1 + frameLen s ≤ size := hend
      exact ⟨hlen, by omega⟩
    · rw [if_neg hfew]
      have hmany : MAX_FRAMES_PER_PACKAGE <
          (s.setComplete (low23Bits (s.mem s.doptr))).info.status.package.frames + 1 := by
        show MAX_FRAMES_PER_PACKAGE < s.info.status.package.frames + 1
        omega
      unfold takeFrame at hnonneg hle
      rw [if_neg hmore', if_pos hmany] at hnonneg hle
      exact ⟨hnonneg, hle⟩

end Frame

--
-- Calls
--

section Calls

variable {size : Int} {func : Bool} {s : ParseState}

theorem turn_ok (h : Walking size func s) (hsize : size < 2 ^ 31) (hfits : TurnFits size s) :
    TurnInside size s ∧ TurnOk size func s (parseTurn size s) := by
  have hboth : turnReads size s ⊆ Set.Ico 0 size ∧ TurnOk size func s (parseTurn size s) := by
    unfold TurnFits at hfits
    unfold turnReads parseTurn
    rcases h.step with hstep | ⟨hstep, -⟩
    · rw [hstep] at hfits ⊢
      exact parseHead_ok h hstep hsize hfits
    · rw [hstep] at hfits ⊢
      exact parseFrame_ok h hstep hsize hfits
  obtain ⟨hreads, hok⟩ := hboth
  exact ⟨⟨hreads, hok.bounds.doptr_nonneg, hok.bounds.doptr_le, hok.bounds.package, hok.calls⟩, hok⟩

theorem turnFits_of_inside (h : Walking size true s) (hsize : size < 2 ^ 31)
    (hinside : TurnInside size s) : TurnFits size s := by
  obtain ⟨hreads, hnonneg, hle, hpackage, hcalls⟩ := hinside
  unfold turnReads at hreads
  unfold parseTurn at hnonneg hle hpackage hcalls
  unfold TurnFits
  rcases h.step with hstep | ⟨hstep, -⟩
  · rw [hstep] at hreads hnonneg ⊢
    exact headFits_of_inside h hsize hreads hnonneg
  · rw [hstep] at hreads hnonneg hle hpackage hcalls ⊢
    exact frameFits_of_inside h hstep hreads hnonneg hle hpackage hcalls

theorem turns_succ {s' : ParseState} (hturn : parseTurn size s = (s', none)) (n : Nat) :
    turns size (n + 1) s = turns size n s' := by
  rw [turns, hturn]

/-- **One call.** A call whose turns fit returns; every turn that goes on moves
`doptr` towards the end. -/
theorem call_ok (h : Walking size func s) (hsize : size < 2 ^ 31) (hfits : CallFits size s) :
    CallInside size s ∧
      ∀ fuel r, parseLoop size fuel s = some r → InBounds size func r.2.info := by
  induction hleft : (size - s.doptr).toNat using Nat.strong_induction_on generalizing s with
  | _ left ih =>
    obtain ⟨hinside, hok⟩ := turn_ok h hsize (hfits 0 s rfl)
    rcases hturn : parseTurn size s with ⟨s', - | code⟩
    · -- the loop goes on
      obtain ⟨hwalking, hlt⟩ := hok.next (by rw [hturn])
      rw [hturn] at hwalking hlt
      have hmoved : s.doptr < s'.doptr := hlt
      have hle : s'.doptr ≤ size := hwalking.doptr_le
      have hfits' : CallFits size s' := by
        intro n t ht
        exact hfits (n + 1) t ((turns_succ hturn n).trans ht)
      obtain ⟨⟨⟨fuel, r, hloop⟩, hturns⟩, hbounds⟩ := ih _ (by omega) hwalking hfits' rfl
      refine ⟨⟨⟨fuel + 1, r, by rw [parseLoop, hturn]; exact hloop⟩, ?_⟩, ?_⟩
      · intro n t ht
        cases n with
        | zero => exact Option.some.inj ht ▸ hinside
        | succ n => exact hturns n t ((turns_succ hturn n).symm.trans ht)
      · intro fuel' r' hloop'
        cases fuel' with
        | zero => cases hloop'
        | succ fuel' =>
          rw [parseLoop, hturn] at hloop'
          exact hbounds fuel' r' hloop'
    · -- the call returns
      refine ⟨⟨⟨1, _, by rw [parseLoop, hturn]⟩, ?_⟩, ?_⟩
      · intro n t ht
        cases n with
        | zero => exact Option.some.inj ht ▸ hinside
        | succ n =>
          rw [turns, hturn] at ht
          cases ht
      · intro fuel r hloop
        cases fuel with
        | zero => cases hloop
        | succ fuel =>
          rw [parseLoop, hturn] at hloop
          obtain rfl := Option.some.inj hloop
          have hbounds := hok.bounds
          rw [hturn] at hbounds
          exact hbounds

theorem callFits_of_inside (h : Walking size true s) (hsize : size < 2 ^ 31)
    (hinside : CallInside size s) : CallFits size s := by
  have hturns := hinside.2
  clear hinside
  intro n
  induction n generalizing s with
  | zero =>
    rintro t ⟨⟩
    exact turnFits_of_inside h hsize (hturns 0 s rfl)
  | succ n ih =>
    intro t ht
    have hfits := turnFits_of_inside h hsize (hturns 0 s rfl)
    rcases hturn : parseTurn size s with ⟨s', - | code⟩
    · obtain ⟨hwalking, -⟩ := (turn_ok h hsize hfits).2.next (by rw [hturn])
      rw [hturn] at hwalking
      rw [turns_succ hturn] at ht
      exact ih hwalking (fun k u hu => hturns (k + 1) u ((turns_succ hturn k).trans hu)) t ht
    · rw [turns, hturn] at ht
      exact nomatch ht

end Calls

--
-- Runs
--

section Runs

variable {func : Bool} {r : Reader} {as : List Arrival}

theorem run_inside (h : InBounds r.size func r.info) (hgrow : ∀ a ∈ as, r.size ≤ a.size)
    (hsizes : as.Pairwise fun a b => a.size ≤ b.size) (hint : ∀ a ∈ as, a.size < 2 ^ 31)
    (hfits : RunFits r as) : RunInside r as := by
  induction as generalizing r with
  | nil => trivial
  | cons a rest ih =>
    obtain ⟨hcall, hrest⟩ := hfits
    have hle := hgrow a (.head _)
    have hsize := hint a (.head _)
    have hwalking := (h.mono (show (r.size : Int) ≤ a.size by omega)).walking (r.grown a)
    obtain ⟨hinside, hbounds⟩ := call_ok hwalking (by omega) hcall
    refine ⟨hinside, ?_⟩
    intro fuel code s hrun
    exact ih (hbounds fuel _ hrun) (List.pairwise_cons.mp hsizes).1
      (List.pairwise_cons.mp hsizes).2 (fun b hb => hint b (.tail _ hb))
      (hrest fuel code s hrun)

theorem runFits_of_inside (h : InBounds r.size true r.info) (hgrow : ∀ a ∈ as, r.size ≤ a.size)
    (hsizes : as.Pairwise fun a b => a.size ≤ b.size) (hint : ∀ a ∈ as, a.size < 2 ^ 31)
    (hinside : RunInside r as) : RunFits r as := by
  induction as generalizing r with
  | nil => trivial
  | cons a rest ih =>
    obtain ⟨hcall, hrest⟩ := hinside
    have hle := hgrow a (.head _)
    have hsize := hint a (.head _)
    have hwalking := (h.mono (show (r.size : Int) ≤ a.size by omega)).walking (r.grown a)
    have hfits := callFits_of_inside hwalking (by omega) hcall
    refine ⟨hfits, ?_⟩
    intro fuel code s hrun
    exact ih ((call_ok hwalking (by omega) hfits).2 fuel _ hrun) (List.pairwise_cons.mp hsizes).1
      (List.pairwise_cons.mp hsizes).2 (fun b hb => hint b (.tail _ hb))
      (hrest fuel code s hrun)

end Runs

/-- **Bounds.** From a fresh parser on, on a growing buffer, all calls return,
read, stay and report inside their input if all of their turns fit; with a
callback registered they do only then. -/
theorem parse_inside (old : Package) (func : Bool) (mem : Mem) (as : List Arrival)
    (hsizes : as.Pairwise fun a b => a.size ≤ b.size) (hint : ∀ a ∈ as, a.size < 2 ^ 31) :
    (RunFits (.fresh old func mem) as → RunInside (.fresh old func mem) as) ∧
      (func = true → RunInside (.fresh old func mem) as → RunFits (.fresh old func mem) as) := by
  constructor
  · exact run_inside (inBounds_fresh old func) (fun _ _ => Nat.zero_le _) hsizes hint
  · rintro rfl
    exact runFits_of_inside (inBounds_fresh old true) (fun _ _ => Nat.zero_le _) hsizes hint

--
-- A message of one byte
--

/-- The bytes of `oneByte`, with zeros around them. -/
def oneByteMem : Mem := fun i => if 0 ≤ i then oneByte.bytes.getD i.toNat 0 else 0

/-- A call on the whole message. -/
theorem parse_inside_whole :
    RunInside (.fresh .zero true fun _ => 0) [⟨13, oneByteMem⟩] := by
  refine (parse_inside .zero true (fun _ => 0) [⟨13, oneByteMem⟩] (by simp) (by simp)).1
    ⟨?_, fun _ _ _ _ => trivial⟩
  intro n s' h
  match n with
  | 0 =>
    obtain rfl := Option.some.inj h
    exact fun _ => ⟨by decide, fun _ => by decide⟩
  | 1 =>
    obtain rfl := Option.some.inj h
    show FrameFits 13 _
    unfold FrameFits TakenFits
    rw [if_neg (by decide), if_neg (by decide), if_pos (by decide)]
    exact ⟨by decide, fun _ => ⟨by decide, by decide, by decide⟩⟩
  | n + 2 => exact nomatch (show none = some s' from h)

/-- A call that ends in front of the last byte takes it nevertheless. -/
theorem not_parse_inside_early :
    ¬RunInside (.fresh .zero true fun _ => 0) [⟨12, oneByteMem⟩] := by
  rintro ⟨⟨-, hturns⟩, -⟩
  have hle := (hturns 1 _ rfl).doptr_le
  revert hle
  decide

end Supex.Mfptp
