import Supex.Mfptp.Message

/-!
# libmfptp — the parser on a message

Between two turns of its loop the parser stands in front of a frame: packages
are done and handed to the callback, some frames of the current package are
entered. `Stands` says so; the header brings the parser there
(`parseHead_stands`), and a frame that is taken moves it on (`Stands.more`,
`Stands.last`).

Main results: `Stands.advance`, `parse_message`.
-/

namespace Supex.Mfptp

open Supex.Lib
open List hiding Mem

--
-- Lengths
--

theorem frameSizeLoop_eq (bs : Bytes) {size : Int} (h : wrap32 size = size) :
    frameSizeLoop size bs = wrap32 (size + beVal bs) := by
  induction bs generalizing size with
  | nil =>
    rw [frameSizeLoop, beVal, Int.natCast_zero, Int.add_zero, h]
  | cons b bs ih =>
    have hpow : (b.toNat : Int) * 2 ^ (8 * bs.length) =
      ((b.toNat * 256 ^ bs.length : Nat) : Int) := by
      rw [pow_mul]
      norm_num
    rw [frameSizeLoop, ih (by unfold wrap32; rw [Int.bmod_bmod]), hpow]
    unfold wrap32
    rw [Int.add_bmod_bmod, Int.bmod_add_bmod, beVal]
    push_cast
    rw [Int.add_assoc]

variable {done later : List (List WireFrame)} {m : Message} {s : ParseState}
  {cur fs todo : List WireFrame} {f : WireFrame} {n : Nat}

theorem frameSize_of_holds {m : Mem} {a : Int} {w : Nat} (h : m.Holds (a + 1) (beBytes w n))
    (hw : n < 256 ^ w) (hn : n < 2 ^ 31) : frameSize m a w = n := by
  unfold frameSize
  unfold Mem.Holds at h
  rw [beBytes_length] at h
  rw [h, frameSizeLoop_eq _ (wrap32_of_range (by omega) (by omega)), beVal_beBytes hw, Int.zero_add,
    wrap32_of_range (by omega) (by omega)]

--
-- The package under construction
--

/-- The frames `fs` are entered, and stand behind the packages `done`. -/
structure Entered (done : List (List WireFrame)) (fs : List WireFrame) (p : Package) : Prop where
  frames : p.frames = fs.length
  dsizes : ∀ i (h : i < fs.length), p.dsizes i = fs[i].data.length
  ptrs : ∀ i (h : i < fs.length), p.ptrs i = place done (fs.take i) + fs[i].width + 1

theorem Entered.zero (done : List (List WireFrame)) {p : Package} (h : p.frames = 0) :
    Entered done [] p :=
  ⟨h, fun _ hi => absurd hi (Nat.not_lt_zero _), fun _ hi => absurd hi (Nat.not_lt_zero _)⟩

theorem Entered.snoc {p p' : Package} (h : Entered done fs p) (f : WireFrame)
    (hframes : p'.frames = p.frames + 1)
    (hptrs : p'.ptrs = Function.update p.ptrs p.frames (place done fs + f.width + 1))
    (hdsizes : p'.dsizes = Function.update p.dsizes p.frames f.data.length) :
    Entered done (fs ++ [f]) p' := by
  have hcases : ∀ i, i < (fs ++ [f]).length → i < fs.length ∨ i = fs.length := by
    intro i hi
    rw [length_append, length_singleton] at hi
    omega
  refine ⟨by rw [hframes, h.frames, length_append, length_singleton], fun i hi => ?_,
    fun i hi => ?_⟩
  · rcases hcases i hi with hlt | rfl
    · rw [hdsizes, h.frames, Function.update_of_ne (by omega), h.dsizes i hlt,
        getElem_append_left hlt]
    · rw [hdsizes, h.frames, Function.update_self]
      simp
  · rcases hcases i hi with hlt | rfl
    · rw [hptrs, h.frames, Function.update_of_ne (by omega), h.ptrs i hlt,
        getElem_append_left hlt, take_append_of_le_length (by omega)]
    · rw [hptrs, h.frames, Function.update_self]
      simp

/-- The frames the callback is shown, as sizes and bytes. -/
def Callback.content (c : Callback) : List (Int × Bytes) := c.frames.map fun f => (f.dsize, f.data)

/-- Every frame shown to the callback ends within the bytes that were there. -/
def Callback.Inside (c : Callback) : Prop := ∀ f ∈ c.frames, f.ptr + f.dsize ≤ c.getSize

theorem holds_data {m : Mem} (h : m.Holds (place done []) (body fs)) {i : Nat}
    (hi : i < fs.length) : m.Holds (place done (fs.take i) + fs[i].width + 1) fs[i].data := by
  have hsplit : body fs = body (fs.take i) ++ (fs[i].bytes ++ body (fs.drop (i + 1))) := by
    rw [← body_cons, ← body_append, getElem_cons_drop, take_append_drop]
  rw [hsplit, Mem.holds_append, Mem.holds_append] at h
  obtain ⟨-, hframe, -⟩ := h
  rw [WireFrame.bytes, Mem.holds_append] at hframe
  have hplace : place done (fs.take i) = place done [] + (body (fs.take i)).length := by
    unfold place
    rw [body_append, append_nil, length_append]
    omega
  have haddr : (place done [] : Int) + (body (fs.take i)).length + fs[i].head.length =
      place done (fs.take i) + fs[i].width + 1 := by
    rw [hplace, WireFrame.head_length]
    push_cast
    ring
  rw [haddr] at hframe
  exact hframe.2

theorem Entered.content {p : Package} {m : Mem} (h : Entered done fs p)
    (hm : m.Holds (place done []) (body fs)) (n : Int) :
    Callback.content ⟨p.view m, n⟩ = fs.map WireFrame.content := by
  unfold Callback.content Package.view
  rw [map_map, h.frames]
  apply ext_getElem (by simp)
  intro i h₁ h₂
  have hi : i < fs.length := by simpa using h₂
  have hdata := holds_data hm hi
  rw [getElem_map, getElem_range, getElem_map, Function.comp_apply]
  rw [h.dsizes i hi, h.ptrs i hi, Int.toNat_natCast, hdata]
  rfl

theorem Entered.inside {p : Package} {m : Mem} (h : Entered done fs p) {n : Int}
    (hn : place done fs ≤ n) : Callback.Inside ⟨p.view m, n⟩ := by
  intro f hf
  obtain ⟨i, hi, rfl⟩ := mem_map.mp hf
  rw [mem_range, h.frames] at hi
  dsimp only
  rw [h.dsizes i hi, h.ptrs i hi]
  have hle : place done (fs.take i) + fs[i].bytes.length ≤ place done fs := by
    rw [← place_snoc, take_concat_get' fs i hi]
    unfold place
    have hbody : (body fs).length = (body (fs.take (i + 1))).length +
      (body (fs.drop (i + 1))).length := by
      rw [← length_append, ← body_append, take_append_drop]
    rw [body_append, body_append, length_append, length_append]
    omega
  rw [WireFrame.bytes_length] at hle
  omega

--
-- In front of a frame
--

/-- The parser stands behind the packages `done` and the frames `cur` of the next
one. -/
structure Stands (m : Message) (done : List (List WireFrame)) (cur : List WireFrame)
    (s : ParseState) : Prop where
  step : s.info.status.step = .package
  func : s.info.parser.func = true
  method : s.info.parser.method ≠ HEARTBEAT_METHOD
  count : s.info.parser.packages.toNat = m.packages.length
  index : s.info.status.index = done.length
  doptr : s.doptr = place done cur
  toEntered : Entered done cur s.info.status.package
  calls : s.calls.map Callback.content = done.map (·.map WireFrame.content)
  inside : ∀ c ∈ s.calls, c.Inside

theorem parseHead_stands {n : Int} (hdoptr : s.info.status.doptr = 0)
    (hindex : s.info.status.index = 0) (hfunc : s.info.parser.func = true) (hcalls : s.calls = [])
    (hmem : s.mem.Holds 0 m.header) (hn : 10 ≤ n) :
    ∃ s', parseHead n s = (s', none) ∧ Stands m [] [] s' ∧ s'.mem = s.mem := by
  rw [Message.header, Mem.holds_append] at hmem
  obtain ⟨hmagic, hfields⟩ := hmem
  rw [Mem.holds_cons, Mem.holds_cons, Mem.holds_cons, Mem.holds_cons] at hfields
  obtain ⟨-, -, hmethod, hcount, -⟩ := hfields
  have hload : s.mem.load 0 6 = magic := hmagic
  have hmethod : s.mem 8 = m.method := hmethod
  have hcount : s.mem 9 = UInt8.ofNat m.packages.length := hcount
  have hpos : UInt8.ofNat m.packages.length ≠ 0 := by
    intro h
    have := m.count_toNat
    rw [h] at this
    exact m.count_pos (eq_nil_of_length_eq_zero this.symm)
  have hlacks : ¬s.lacks n MFPTP_BURST_HEADER_LEN := by
    unfold ParseState.lacks ParseState.doptr
    rw [hdoptr]
    have : wrap32 (0 + MFPTP_BURST_HEADER_LEN) = 10 := by decide
    omega
  unfold parseHead
  rw [if_neg hlacks, if_neg (by rw [ParseState.doptr, hdoptr]; exact not_not.mpr hload)]
  simp only [ParseState.ptrMove, ParseState.setPackage, ParseState.setStatus, ParseState.setParser,
    ParseState.doptr, hdoptr,
    show wrap32 (0 + 6) = 6 by decide, show wrap32 (6 + 1) = 7 by decide,
    show wrap32 (7 + 1) = 8 by decide, show wrap32 (8 + 1) = 9 by decide,
    show wrap32 (9 + 1) = 10 by decide, hmethod, hcount, m.method_ne, hpos, if_false]
  refine ⟨_, rfl, ?_, rfl⟩
  exact {
    step := rfl
    func := hfunc
    method := m.method_ne
    count := m.count_toNat
    index := hindex
    doptr := rfl
    toEntered := .zero [] rfl
    calls := by rw [hcalls]; rfl
    inside := by rw [hcalls]; nofun }

/-- The frame the parser looks at: its control byte, its length as the parser
reads it, and the check that it is there, which forgets the control byte. -/
structure Takes (n : Int) (f : WireFrame) (s : ParseState) : Prop where
  ctrl : s.mem s.doptr = f.ctrl
  size : frameSize s.mem s.doptr f.width = f.data.length
  fits : s.doptr + f.width + f.data.length ≤ n

/-- The frame is entered. -/
def withFrame (s : ParseState) (f : WireFrame) : ParseState :=
  { s.setPackage (Package.enter { s.info.status.package with complete := low23Bits f.ctrl }
      (s.doptr + f.width + 1) f.data.length) with
    lengthOver := wrap32 (s.lengthOver + (1 + f.width + f.data.length)) }

theorem recordFrame_eq (h : s.info.parser.method ≠ HEARTBEAT_METHOD) (f : WireFrame) :
    recordFrame (s.setComplete (low23Bits f.ctrl)) f.width f.data.length = withFrame s f :=
  if_pos h

theorem parseFrame_eq {n : Int} (h : Stands m done cur s) (hf : Takes n f s)
    (hlen : place done cur + f.bytes.length < 2 ^ 31) (hcur : cur.length < MAX_FRAMES_PER_PACKAGE) :
    parseFrame n s =
      if f.last then packageOver n (withFrame s f) f.bytes.length
      else ((withFrame s f).ptrMove f.bytes.length, none) := by
  have hdoptr := h.doptr
  have hsize := f.bytes_length
  have hw := f.width_pos
  have hfits := hf.fits
  have hone : ¬s.lacks n 1 := by
    unfold ParseState.lacks
    rw [wrap32_of_range] <;> omega
  have hmore : ¬(s.setComplete (low23Bits f.ctrl)).lacks n (f.width + f.data.length) := by
    show ¬n < wrap32 (s.doptr + (f.width + f.data.length))
    rw [wrap32_of_range] <;> omega
  have hframes : ¬MAX_FRAMES_PER_PACKAGE <
      (s.setComplete (low23Bits f.ctrl)).info.status.package.frames + 1 := by
    show ¬MAX_FRAMES_PER_PACKAGE < s.info.status.package.frames + 1
    rw [h.toEntered.frames]
    omega
  have hbytes : (1 + f.width + f.data.length : Int) = f.bytes.length := by
    rw [hsize]
    push_cast
    ring
  have hread : frameSize (s.setComplete (low23Bits f.ctrl)).mem
      (s.setComplete (low23Bits f.ctrl)).doptr (sizeFSize f.ctrl) = f.data.length := hf.size
  have htake : takeFrame n (s.setComplete (low23Bits f.ctrl)) f.width f.data.length =
      if f.last then packageOver n (withFrame s f) f.bytes.length
      else ((withFrame s f).ptrMove f.bytes.length, none) := by
    unfold takeFrame
    rw [if_neg hmore, if_neg hframes, hbytes]
    rw [recordFrame_eq h.method]
    show (if low23Bits f.ctrl = 0 then _ else _) = _
    unfold WireFrame.last
    by_cases hlast : low23Bits f.ctrl = 0
    · rw [if_pos hlast, if_pos (decide_eq_true hlast)]
    · rw [if_neg hlast, if_neg (by simpa using hlast)]
  unfold parseFrame
  rw [if_neg hone, hf.ctrl]
  show (if 1 < low23Bits f.ctrl then _ else _) = _
  rw [if_neg (Nat.not_lt.mpr f.complete_le), hread]
  exact htake

theorem Stands.withFrame (h : Stands m done cur s) (f : WireFrame) :
    Entered done (cur ++ [f]) (Mfptp.withFrame s f).info.status.package := by
  exact h.toEntered.snoc f rfl (by rw [← h.doptr]; rfl) rfl

theorem Stands.more {n : Int} (h : Stands m done cur s) (hf : Takes n f s)
    (hlen : place done cur + f.bytes.length < 2 ^ 31) (hcur : cur.length < MAX_FRAMES_PER_PACKAGE)
    (hlast : f.last = false) :
    ∃ s', parseFrame n s = (s', none) ∧ Stands m done (cur ++ [f]) s' ∧ s'.mem = s.mem := by
  have hentered := h.withFrame f
  have hdoptr := h.doptr
  refine ⟨(Mfptp.withFrame s f).ptrMove f.bytes.length, ?_, ?_, rfl⟩
  · rw [parseFrame_eq h hf hlen hcur, hlast]
    rfl
  · exact {
      step := h.step
      func := h.func
      method := h.method
      count := h.count
      index := h.index
      doptr := by
        show wrap32 (s.doptr + f.bytes.length) = _
        rw [wrap32_of_range (by omega) (by omega), hdoptr, place_snoc]
        rfl
      toEntered := hentered
      calls := h.calls
      inside := h.inside }

/-- The last frame of a package is entered, and the callback called. -/
def called (n : Int) (s : ParseState) (f : WireFrame) : ParseState :=
  { (withFrame s f).setStatus
      { (withFrame s f).info.status with index := s.info.status.index + 1 } with
    calls := s.calls ++ [⟨(withFrame s f).info.status.package.view s.mem, n⟩] }

/-- **The last frame of a package.** The callback is called; behind the last
package the message is over. -/
theorem Stands.last {n : Int} (h : Stands m done cur s) (hf : Takes n f s)
    (hm : m.packages = done ++ (cur ++ [f]) :: later) (hlen : m.bytes.length < 2 ^ 31)
    (hlast : f.last = true) :
    parseFrame n s = (if later = [] then
        (messageOver n ((called n s f).ptrMove f.bytes.length), some .over)
      else (((called n s f).setPackage .zero).ptrMove f.bytes.length, none)) := by
  have hplace : place done cur + f.bytes.length ≤ m.bytes.length := Message.place_le hm
  have hcur : cur.length < MAX_FRAMES_PER_PACKAGE := by
    have := (m.isPackage (cur ++ [f]) (by rw [hm]; simp)).length
    rw [length_append, length_singleton] at this
    omega
  have hindex : (s.info.status.index + 1 = s.info.parser.packages.toNat) ↔ later = [] := by
    rw [h.index, h.count, hm, length_append, length_cons]
    constructor
    · intro heq
      apply eq_nil_of_length_eq_zero
      omega
    · rintro rfl
      simp
  have hcall : callFunc n ((Mfptp.withFrame s f).setStatus
      { (Mfptp.withFrame s f).info.status with index := s.info.status.index + 1 }) = called n s f :=
    if_pos ⟨h.func, h.method⟩
  rw [parseFrame_eq h hf (by omega) hcur, hlast, if_pos rfl]
  unfold packageOver
  rw [show (Mfptp.withFrame s f).info.status.index = s.info.status.index from rfl, hcall]
  show (if s.info.status.index + 1 = s.info.parser.packages.toNat then _ else _) = _
  simp only [hindex]

theorem Stands.called {n : Int} (h : Stands m done cur s)
    (hmem : s.mem.Holds (place done []) (body (cur ++ [f]))) :
    (Mfptp.called n s f).calls.map Callback.content =
      (done ++ [cur ++ [f]]).map (·.map WireFrame.content) := by
  show (s.calls ++ [_]).map Callback.content = _
  rw [map_append, map_append, h.calls]
  exact congrArg _ (congrArg (fun x => [x]) ((h.withFrame f).content hmem n))

theorem Stands.calledInside {n : Int} (h : Stands m done cur s)
    (hn : place done cur + f.bytes.length ≤ n) : ∀ c ∈ (Mfptp.called n s f).calls, c.Inside := by
  intro c hc
  rcases mem_append.mp hc with hc | hc
  · exact h.inside c hc
  · rw [mem_singleton.mp hc]
    exact (h.withFrame f).inside (by rw [place_snoc]; push_cast; exact hn)

theorem Stands.next {n : Int} (h : Stands m done cur s)
    (hmem : s.mem.Holds (place done []) (body (cur ++ [f])))
    (hlen : place done cur + f.bytes.length < 2 ^ 31) (hn : place done cur + f.bytes.length ≤ n) :
    Stands m (done ++ [cur ++ [f]]) [] (((Mfptp.called n s f).setPackage .zero).ptrMove
      f.bytes.length) := by
  have hdoptr := h.doptr
  exact {
    step := h.step
    func := h.func
    method := h.method
    count := h.count
    index := by
      show s.info.status.index + 1 = _
      rw [h.index, length_append, length_singleton]
      rfl
    doptr := by
      show wrap32 (s.doptr + f.bytes.length) = _
      rw [wrap32_of_range (by omega) (by omega), hdoptr, place_done, place_snoc]
      rfl
    toEntered := .zero _ rfl
    calls := h.called hmem
    inside := h.calledInside hn }

--
-- One call
--

/-- A buffer with `n` bytes of the message ends inside the frame `f`, which
stands behind `done` and `cur`: what the parser reads as the length of `f` makes
it wait, or is the length and `f` is not the last of its package. -/
def CutOk (mem : Mem) (n : Nat) (done : List (List WireFrame)) (cur : List WireFrame)
    (f : WireFrame) : Prop :=
  let size := frameSize mem (place done cur) f.width
  let stop := wrap32 (place done cur + (f.width + size))
  if n < stop then ¬(0 < done.length ∧ MAX_REQ_SIZE < stop)
  else size = f.data.length ∧ f.last = false

/-- The frame a buffer of `n` bytes ends in is one the parser treats well. -/
def CutsOk (m : Message) (mem : Mem) (n : Nat) : Prop :=
  ∀ done cur f todo later, m.packages = done ++ (cur ++ f :: todo) :: later →
    place done cur < n → n < place done cur + f.bytes.length → CutOk mem n done cur f

/-- The message is over: the state in front of the move of what is left. -/
structure Finished (m : Message) (s : ParseState) : Prop where
  step : s.info.status.step = .package
  index : s.info.status.index = s.info.parser.packages.toNat
  doptr : s.doptr = m.bytes.length
  calls : s.calls.map Callback.content = m.packages.map (·.map WireFrame.content)
  inside : ∀ c ∈ s.calls, c.Inside

/-- The parser stands in front of a frame of the message, at most one byte
behind the `n` it has seen. -/
def Waiting (m : Message) (n : Nat) (s : ParseState) : Prop :=
  ∃ done cur f todo later, m.packages = done ++ (cur ++ f :: todo) :: later ∧
    Stands m done cur s ∧ place done cur ≤ n + 1

@[simp] theorem messageOver_calls (n : Int) (s : ParseState) :
    (messageOver n s).calls = s.calls := by
  unfold messageOver
  dsimp only
  split_ifs <;> rfl

theorem parseLoop_return {n : Int} {s' : ParseState} {fuel : Nat} {code : Code}
    (hstep : s.info.status.step = .package) (h : parseFrame n s = (s', some code)) :
    parseLoop n (fuel + 1) s = some (code, s') := by
  rw [parseLoop, parseTurn, hstep]
  rw [h]

theorem parseLoop_go {n : Int} {s' : ParseState} {fuel : Nat}
    (hstep : s.info.status.step = .package) (h : parseFrame n s = (s', none)) :
    parseLoop n (fuel + 1) s = parseLoop n fuel s' := by
  rw [parseLoop, parseTurn, hstep]
  rw [h]

theorem holds_package {mem : Mem} (hmem : mem.Holds 0 (m.bytes.take n))
    (hm : m.packages = done ++ fs :: later) (hn : place done fs ≤ n) :
    mem.Holds (place done []) (body fs) := by
  have hsplit := m.split hm
  have hlen := m.split_length done
  have hplace : place done fs = place done [] + (body fs).length := by
    unfold place
    rw [body_append, append_nil, length_append]
    omega
  rw [hsplit, take_append, take_of_length_le (by omega), hlen, take_append,
    take_of_length_le (by omega), Mem.holds_append, hlen] at hmem
  have := (Mem.holds_append.mp hmem.2).1
  rwa [Int.zero_add] at this

theorem holds_frame {mem : Mem} (hmem : mem.Holds 0 (m.bytes.take n))
    (hm : m.packages = done ++ (cur ++ f :: todo) :: later) :
    mem.Holds (place done cur) (f.bytes.take (n - place done cur)) := by
  obtain ⟨before, behind, hbytes, hlen⟩ := m.cut hm
  by_cases hn : place done cur ≤ n
  · rw [hbytes, append_assoc, take_append, take_of_length_le (by omega), hlen,
      take_append, Mem.holds_append, Mem.holds_append, hlen] at hmem
    have := hmem.2.1
    rwa [Int.zero_add] at this
  · rw [show n - place done cur = 0 by omega]
    exact Mem.holds_nil _ _

theorem holds_ctrl {mem : Mem} (hmem : mem.Holds 0 (m.bytes.take n))
    (hm : m.packages = done ++ (cur ++ f :: todo) :: later) (hn : place done cur < n) :
    mem (place done cur) = f.ctrl := by
  have hframe := holds_frame hmem hm
  rw [WireFrame.bytes, WireFrame.head, cons_append,
    show n - place done cur = n - place done cur - 1 + 1 by omega, take_succ_cons,
    Mem.holds_cons] at hframe
  exact hframe.1

theorem takes_of_holds (h : Stands m done cur s) (hlen : m.bytes.length < 2 ^ 31)
    (hmem : s.mem.Holds 0 (m.bytes.take n)) (hm : m.packages = done ++ (cur ++ f :: todo) :: later)
    (hn : place done cur + f.bytes.length ≤ n) : Takes n f s := by
  have hframe := holds_frame hmem hm
  have hplace := Message.place_le hm
  have hsize := f.bytes_length
  rw [take_of_length_le (by omega), WireFrame.bytes, WireFrame.head, cons_append,
    Mem.holds_cons, Mem.holds_append] at hframe
  obtain ⟨hctrl, hfield, -⟩ := hframe
  have hdoptr := h.doptr
  refine ⟨by rw [hdoptr, hctrl], ?_, by omega⟩
  rw [hdoptr]
  exact frameSize_of_holds hfield f.fits (by omega)

theorem Stands.shortage_one (h : Stands m done cur s)
    (hm : m.packages = done ++ (cur ++ f :: todo) :: later) (hmax : m.bytes.length ≤ MAX_REQ_SIZE)
    (hn : n ≤ place done cur) : parseFrame n s = (s, some .package) := by
  have hplace := Message.place_le hm
  have hsize := f.bytes_length
  have hlimit : MAX_REQ_SIZE = 10485760 := rfl
  have hdoptr := h.doptr
  have hnext : wrap32 (s.doptr + 1) = place done cur + 1 := by
    rw [wrap32_of_range] <;> omega
  unfold parseFrame
  rw [if_pos (show s.lacks n 1 by unfold ParseState.lacks; omega), h.step]
  unfold ParseState.shortage
  rw [hnext, if_neg (show ¬MAX_REQ_SIZE < (place done cur : Int) + 1 by omega), ite_self]

theorem Stands.setComplete (h : Stands m done cur s) (c : Nat) :
    Stands m done cur (s.setComplete c) where
  step := h.step
  func := h.func
  method := h.method
  count := h.count
  index := h.index
  doptr := h.doptr
  toEntered := ⟨h.toEntered.frames, h.toEntered.dsizes, h.toEntered.ptrs⟩
  calls := h.calls
  inside := h.inside

theorem Stands.wait (h : Stands m done cur s)
    (hm : m.packages = done ++ (cur ++ f :: todo) :: later) (hlen : m.bytes.length < 2 ^ 31)
    (hmem : s.mem.Holds 0 (m.bytes.take n)) (hlo : place done cur < n)
    (hstop : n < wrap32 (place done cur + (f.width + frameSize s.mem (place done cur) f.width)))
    (hmax : ¬(0 < done.length ∧ MAX_REQ_SIZE <
      wrap32 (place done cur + (f.width + frameSize s.mem (place done cur) f.width)))) :
    parseFrame n s = (s.setComplete (low23Bits f.ctrl), some .package) := by
  have hplace := Message.place_le hm
  have hsize := f.bytes_length
  have hdoptr := h.doptr
  have hctrl : s.mem s.doptr = f.ctrl := by
    rw [hdoptr]
    exact holds_ctrl hmem hm hlo
  have hone : ¬s.lacks n 1 := by
    unfold ParseState.lacks
    rw [wrap32_of_range] <;> omega
  rw [← hdoptr] at hstop hmax
  unfold parseFrame
  rw [if_neg hone, hctrl]
  show (if 1 < low23Bits f.ctrl then _ else takeFrame n (s.setComplete (low23Bits f.ctrl)) f.width
    (frameSize s.mem s.doptr f.width)) = _
  rw [if_neg (Nat.not_lt.mpr f.complete_le)]
  unfold takeFrame
  rw [if_pos (show (s.setComplete (low23Bits f.ctrl)).lacks n _ from hstop),
    show (s.setComplete (low23Bits f.ctrl)).info.status.step = .package from h.step]
  -- the over-limit branch is for a later package and a large length
  have hshort : (s.setComplete (low23Bits f.ctrl)).shortage
      (f.width + frameSize s.mem s.doptr f.width) = s.setComplete (low23Bits f.ctrl) := by
    unfold ParseState.shortage
    split
    · next hpkg =>
      have hdone : 0 < done.length := by
        have hpos : 0 < s.info.status.index := hpkg.2
        rw [h.index] at hpos
        omega
      exact if_neg fun hover => hmax ⟨hdone, hover⟩
    · rfl
  rw [hshort]

/-- The frame the parser looks at is taken, and is there if it is the last of its
package; or the buffer ends in it and the parser waits. -/
theorem Stands.takes_or_waits (h : Stands m done cur s)
    (hm : m.packages = done ++ (cur ++ f :: todo) :: later) (hlen : m.bytes.length < 2 ^ 31)
    (hmem : s.mem.Holds 0 (m.bytes.take n)) (hcuts : CutsOk m s.mem n) (hlo : place done cur < n) :
    (Takes n f s ∧ (f.last = true → place done cur + f.bytes.length ≤ n)) ∨
      (n < place done cur + f.bytes.length ∧
        parseFrame n s = (s.setComplete (low23Bits f.ctrl), some .package)) := by
  have hplace := Message.place_le hm
  have hsize := f.bytes_length
  by_cases hwhole : place done cur + f.bytes.length ≤ n
  · exact .inl ⟨takes_of_holds h hlen hmem hm hwhole, fun _ => hwhole⟩
  · have hcut := hcuts done cur f todo later hm hlo (by omega)
    unfold CutOk at hcut
    dsimp only at hcut
    split at hcut
    · next hstop => exact .inr ⟨by omega, h.wait hm hlen hmem hlo hstop hcut⟩
    · next hstop =>
      obtain ⟨hread, hlast⟩ := hcut
      refine .inl ⟨⟨?_, ?_, ?_⟩, fun h => absurd h (by rw [hlast]; nofun)⟩
      · rw [h.doptr]
        exact holds_ctrl hmem hm hlo
      · rw [h.doptr]
        exact hread
      · rw [hread, wrap32_of_range (by omega) (by omega)] at hstop
        rw [h.doptr]
        omega

theorem Stands.finished (h : Stands m done cur s) (hm : m.packages = done ++ [cur ++ [f]])
    (hlen : m.bytes.length < 2 ^ 31) (hmem : s.mem.Holds (place done []) (body (cur ++ [f])))
    (hin : place done cur + f.bytes.length ≤ n) :
    place done cur + f.bytes.length = m.bytes.length ∧
      Finished m ((Mfptp.called n s f).ptrMove f.bytes.length) := by
  have hend : place done cur + f.bytes.length = m.bytes.length := by
    have hsplit := m.split hm
    have hsl := m.split_length done
    rw [hsplit, length_append, hsl, flatten_nil, body_nil, append_nil,
      body_append, length_append, body_cons, body_nil, append_nil]
    unfold place
    rw [body_append, append_nil, length_append]
    omega
  refine ⟨hend, ?_⟩
  exact {
    step := h.step
    index := by
      show s.info.status.index + 1 = (s.info.parser.packages.toNat : Int)
      rw [h.index, h.count, hm, length_append, length_singleton]
      rfl
    doptr := by
      show wrap32 (s.doptr + f.bytes.length) = _
      have := h.doptr
      rw [wrap32_of_range (by omega) (by omega), ← hend, this]
      rfl
    calls := by
      rw [hm]
      exact h.called hmem
    inside := h.calledInside (by omega) }

/-- **One call of the parser** on a buffer that holds the first `n` bytes of a
message, or all of it: it ends the message, or waits in front of a frame. -/
theorem Stands.advance (hlen : m.bytes.length < 2 ^ 31)
    (hmax : n < m.bytes.length → m.bytes.length ≤ MAX_REQ_SIZE) (k : Nat)
    (hk : (f :: todo ++ later.flatten).length ≤ k)
    (hm : m.packages = done ++ (cur ++ f :: todo) :: later) (h : Stands m done cur s)
    (hat : place done cur ≤ n + 1) (hmem : s.mem.Holds 0 (m.bytes.take n))
    (hcuts : CutsOk m s.mem n) :
    ∃ code s', parseLoop n k s = some (code, s') ∧
      if m.bytes.length ≤ n then
        code = .over ∧ ∃ t, s' = messageOver n t ∧ t.mem = s.mem ∧ Finished m t
      else code = .package ∧ s'.mem = s.mem ∧ Waiting m n s' := by
  -- the frames from `f` on; every turn takes one of them or returns
  induction k generalizing done later cur todo f s with
  | zero => simp at hk
  | succ k ih =>
    have hplace := Message.place_le hm
    have hsize := f.bytes_length
    have hpkg := m.isPackage (cur ++ f :: todo) (by rw [hm]; simp)
    have hlast := hpkg.last cur f todo rfl
    by_cases hbefore : n ≤ place done cur
    · -- the buffer ends in front of the frame
      refine ⟨.package, s, ?_, ?_⟩
      · exact parseLoop_return h.step (h.shortage_one hm (hmax (by omega)) hbefore)
      · rw [if_neg (by omega)]
        exact ⟨rfl, rfl, done, cur, f, todo, later, hm, h, hat⟩
    rcases h.takes_or_waits hm hlen hmem hcuts (by omega) with ⟨htakes, hwhole⟩ | ⟨hcut, hwait⟩
    · cases hf : f.last with
      | false =>
        have hlength := hpkg.length
        rw [length_append, length_cons] at hlength
        obtain ⟨s₁, hturn, h₁, hmem₁⟩ := h.more htakes (by omega) (by omega) hf
        cases todo with
        | nil =>
          rw [hlast.mpr rfl] at hf
          cases hf
        | cons g todo =>
          have hm₁ : m.packages = done ++ (cur ++ [f] ++ g :: todo) :: later := by
            rw [hm, append_assoc, singleton_append]
          rw [parseLoop_go h.step hturn, ← hmem₁]
          have hfits := htakes.fits
          have hdoptr := h.doptr
          exact ih (by simp at hk ⊢; omega) hm₁ h₁ (by rw [place_snoc]; omega)
            (by rw [hmem₁]; exact hmem) (by rw [hmem₁]; exact hcuts)
      | true =>
        obtain rfl : todo = [] := hlast.mp hf
        have hin := hwhole hf
        have hpackage : s.mem.Holds (place done []) (body (cur ++ [f])) :=
          holds_package hmem hm (by rw [place_snoc]; exact hin)
        have hturn := h.last htakes hm hlen hf
        cases later with
        | nil =>
          obtain ⟨hend, hfinished⟩ := h.finished hm hlen hpackage hin
          rw [if_pos rfl] at hturn
          refine ⟨.over, _, parseLoop_return h.step hturn, ?_⟩
          rw [if_pos (by omega)]
          exact ⟨rfl, _, rfl, rfl, hfinished⟩
        | cons gs later =>
          obtain ⟨g, gs, rfl⟩ := exists_cons_of_ne_nil
            (m.isPackage gs (by rw [hm]; simp)).ne_nil
          have h₁ := h.next (n := n) hpackage (by omega) (by omega)
          have hm₁ : m.packages = done ++ [cur ++ [f]] ++ ([] ++ g :: gs) :: later := by
            rw [hm, append_assoc, singleton_append, nil_append]
          rw [if_neg nofun] at hturn
          rw [parseLoop_go h.step hturn]
          exact ih (by simp at hk ⊢; omega) hm₁ h₁ (by rw [place_done, place_snoc]; omega) hmem
            hcuts
    · refine ⟨.package, _, parseLoop_return h.step hwait, ?_⟩
      rw [if_neg (by omega)]
      exact ⟨rfl, rfl, done, cur, f, todo, later, hm, h.setComplete _, hat⟩

/-- A parser in front of a message: freshly initialised, or still without a
header. -/
structure AtHead (s : ParseState) : Prop where
  step : s.info.status.step = .init
  index : s.info.status.index = 0
  doptr : s.info.status.doptr = 0
  func : s.info.parser.func = true
  calls : s.calls = []

theorem AtHead.turn (h : AtHead s) (hhead : 10 ≤ n) (hmem : s.mem.Holds 0 (m.bytes.take n)) :
    ∃ s', parseTurn n s = (s', none) ∧ Stands m [] [] s' ∧ s'.mem = s.mem := by
  have hheader : s.mem.Holds 0 m.header := by
    rw [Message.bytes, take_append, take_of_length_le
      (by rw [m.header_length]; exact hhead),
      Mem.holds_append] at hmem
    exact hmem.1
  obtain ⟨s', hturn, hstands, hmem'⟩ := parseHead_stands h.doptr h.index h.func h.calls hheader
    (n := n) (by omega)
  refine ⟨s', ?_, hstands, hmem'⟩
  rw [parseTurn, h.step]
  exact hturn

theorem Message.first (m : Message) :
    ∃ f fs later, m.packages = [] ++ ([] ++ f :: fs) :: later := by
  obtain ⟨fs, later, hm⟩ := exists_cons_of_ne_nil m.count_pos
  obtain ⟨f, fs, rfl⟩ := exists_cons_of_ne_nil (m.isPackage fs (by rw [hm]; simp)).ne_nil
  exact ⟨f, fs, later, hm⟩

theorem AtHead.advance (h : AtHead s) (hlen : m.bytes.length < 2 ^ 31)
    (hmax : n < m.bytes.length → m.bytes.length ≤ MAX_REQ_SIZE) (hhead : 10 ≤ n)
    (hmem : s.mem.Holds 0 (m.bytes.take n)) (hcuts : CutsOk m s.mem n) :
    ∃ fuel code s', parseLoop n fuel s = some (code, s') ∧
      if m.bytes.length ≤ n then
        code = .over ∧ ∃ t, s' = messageOver n t ∧ t.mem = s.mem ∧ Finished m t
      else code = .package ∧ s'.mem = s.mem ∧ Waiting m n s' := by
  obtain ⟨s₁, hturn, h₁, hmem₁⟩ := h.turn hhead hmem
  obtain ⟨f, fs, later, hm⟩ := m.first
  obtain ⟨code, s', hloop, hres⟩ := Stands.advance hlen hmax _ le_rfl hm h₁
    (show 10 ≤ n + 1 by omega) (by rw [hmem₁]; exact hmem) (by rw [hmem₁]; exact hcuts)
  refine ⟨(f :: fs ++ later.flatten).length + 1, code, s', ?_, by rw [← hmem₁]; exact hres⟩
  rw [parseLoop, hturn]
  exact hloop

/-- **A whole message** at the front of the buffer, with or without bytes behind
it. -/
theorem parse_message (h : AtHead s) (hlen : m.bytes.length < 2 ^ 31) (hn : m.bytes.length ≤ n)
    (hmem : s.mem.Holds 0 m.bytes) :
    ∃ fuel t, parseLoop n fuel s = some (.over, messageOver n t) ∧ t.mem = s.mem ∧
      Finished m t := by
  have hten : 10 ≤ m.bytes.length := by
    rw [Message.bytes, length_append, m.header_length]
    omega
  obtain ⟨fuel, code, s', hloop, hres⟩ := h.advance (n := n) hlen (fun h => by omega) (by omega)
    (by rw [take_of_length_le hn]; exact hmem)
    (fun done cur f todo later hm hlo hhi => by
      have := Message.place_le hm
      omega)
  rw [if_pos hn] at hres
  obtain ⟨rfl, t, rfl, ht, hfinished⟩ := hres
  exact ⟨fuel, t, hloop, ht, hfinished⟩

end Supex.Mfptp
