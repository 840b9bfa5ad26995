import Supex.Lib.Memory

/-!
# libmfptp — the parser

A faithful model of `mfptp_parse` (`mfptp_parser.c`). A message is a header of
ten bytes and packages, a package is a sequence of frames, and a frame is a
control byte, a length of one to four bytes and that many bytes of data. The
parser is called again and again on one growing buffer; what it remembers
between two calls is `ParserInfo`.

Conventions:

* The buffer is memory around `buf_addr` (`Mem`): the parser looks at bytes
  behind `get_size`, and it writes into the buffer.
* `int`s are integers, reduced by `wrap32` where an addition of the source can
  leave their range. `offset` and `status.doptr` start equal and are moved
  together, so `doptr` stands for both.
* The callback only looks: a call of it is a `Callback`, with what the pointers
  of the package point at while it runs.
* The `while (true)` loop is `parseLoop` over a number of turns; `none` means
  that it is still running.
-/

namespace Supex.Mfptp

open Supex.Lib

--
-- Constants and data
--

/-- `MFPTP_PARSE_*`: the steps of the parser and its return values. -/
inductive Code where
  | nodata
  | ilegal
  | init
  | head
  | package
  | over
  | moredata
  deriving DecidableEq, Repr

def HEARTBEAT_METHOD : UInt8 := 9

def MFPTP_BURST_HEADER_LEN : Int := 10

def MAX_REQ_SIZE : Int := 10485760

def MAX_FRAMES_PER_PACKAGE : Nat := 13

/-- The six bytes every message begins with. -/
def magic : Bytes := [0x23, 0x4D, 0x46, 0x50, 0x54, 0x50]

/-- `struct mfptp_parser`. `func` says whether a callback is registered. -/
structure Parser where
  version : Nat
  subVersion : Nat
  method : UInt8
  compress : UInt8
  encrypt : UInt8
  packages : UInt8
  posFrameStart : Int
  func : Bool

/-- `struct mfptp_package`. -/
structure Package where
  complete : Nat
  frames : Nat
  dsizes : Nat → Int
  ptrs : Nat → Int

/-- A package cleared by `memset`. -/
def Package.zero : Package := ⟨0, 0, fun _ => 0, fun _ => 0⟩

/-- `struct mfptp_status`. -/
structure Status where
  step : Code
  index : Int
  doptr : Int
  package : Package

/-- The part of `struct mfptp_parser_info` the parser uses. -/
structure ParserInfo where
  parser : Parser
  status : Status

/-- One frame as the callback sees it. -/
structure FrameView where
  ptr : Int
  dsize : Int
  data : Bytes
  deriving DecidableEq

/-- One call of the callback: the frames of the package, and how many bytes of
the buffer were there. -/
structure Callback where
  frames : List FrameView
  getSize : Int

/-- A frame is counted and its place and size are stored. -/
def Package.enter (p : Package) (ptr size : Int) : Package :=
  { p with
    frames := p.frames + 1
    ptrs := Function.update p.ptrs p.frames ptr
    dsizes := Function.update p.dsizes p.frames size }

/-- What the callback sees of a package. -/
def Package.view (p : Package) (m : Mem) : List FrameView :=
  (List.range p.frames).map fun i => ⟨p.ptrs i, p.dsizes i, m.load (p.ptrs i) (p.dsizes i).toNat⟩

/-- `mfptp_init_parser_info`, and a callback registered when `func`. What was in
the package before is not cleared. -/
def mfptpInitParserInfo (old : Package) (func : Bool) : ParserInfo where
  parser := { version := 0, subVersion := 0, method := 0, compress := 0, encrypt := 0,
              packages := 0, posFrameStart := 0, func := func }
  status := { step := .init, index := 0, doptr := 0,
              package := { old with complete := 1, frames := 0 } }

/-- The parser inside a call: its info, the memory, the calls of the callback
and the length of the frames this call went through. -/
structure ParseState where
  info : ParserInfo
  mem : Mem
  calls : List Callback
  lengthOver : Int

namespace ParseState

/-- The place the parser looks at. -/
def doptr (s : ParseState) : Int := s.info.status.doptr

def setParser (s : ParseState) (p : Parser) : ParseState := { s with info.parser := p }

def setStatus (s : ParseState) (t : Status) : ParseState := { s with info.status := t }

def setPackage (s : ParseState) (p : Package) : ParseState :=
  s.setStatus { s.info.status with package := p }

/-- The flag of the control byte: does the package go on behind this frame? -/
def setComplete (s : ParseState) (c : Nat) : ParseState :=
  s.setPackage { s.info.status.package with complete := c }

def ptrMove (s : ParseState) (len : Int) : ParseState :=
  s.setStatus { s.info.status with doptr := wrap32 (s.doptr + len) }

--
-- Missing bytes
--

/-- The end of both over-limit branches of `CHECK_SIZE`: the packages still
expected, from the start of this call's frames. -/
def rewind (s : ParseState) : ParseState :=
  { s with
    info := {
      parser := { s.info.parser with
        packages := s.info.parser.packages - UInt8.ofInt (s.info.status.index - 1) }
      status := { s.info.status with index := 0, doptr := wrap32 (s.doptr - s.lengthOver) } }
    lengthOver := 0 }

/-- What `CHECK_SIZE(offset, b)` does when the bytes are not there: behind the
first package, a request over `MAX_REQ_SIZE` moves what is left of the buffer to
the first frame. -/
def shortage (s : ParseState) (b : Int) : ParseState :=
  if s.info.status.step = .package ∧ 0 < s.info.status.index then
    if MAX_REQ_SIZE < wrap32 (s.doptr + b) then
      if MAX_REQ_SIZE - s.doptr ≤ 0 then s.rewind
      else
        { s.rewind with
          mem := s.mem.copyUp s.info.parser.posFrameStart s.doptr
            (MAX_REQ_SIZE - s.doptr).toNat }
    else s
  else s

/-- The test of `CHECK_SIZE(offset, b)`. -/
def lacks (s : ParseState) (getSize b : Int) : Prop := getSize < wrap32 (s.doptr + b)

instance (s : ParseState) (getSize b : Int) : Decidable (s.lacks getSize b) :=
  inferInstanceAs (Decidable (_ < _))

end ParseState

--
-- The header
--

/-- `case MFPTP_PARSE_HEAD`: the whole header at once. The second component is
the value returned, if this turn of the loop returns. -/
def parseHead (getSize : Int) (s : ParseState) : ParseState × Option Code :=
  if s.lacks getSize MFPTP_BURST_HEADER_LEN then
    (s.shortage MFPTP_BURST_HEADER_LEN, some s.info.status.step)
  else if s.mem.load s.doptr 6 ≠ magic then (s, some .ilegal)
  else
    let s := s.ptrMove 6
    let s := s.setParser { s.info.parser with
      version := (s.mem s.doptr).toNat >>> 4
      -- the shifted byte is kept in a short, so no bit is lost
      subVersion := ((s.mem s.doptr).toNat <<< 4) >>> 4 }
    let s := s.ptrMove 1
    let s := s.setParser { s.info.parser with
      compress := s.mem s.doptr >>> 4
      encrypt := (s.mem s.doptr <<< 4) >>> 4 }
    let s := s.ptrMove 1
    let s := s.setParser { s.info.parser with method := s.mem s.doptr }
    let s := s.ptrMove 1
    if s.info.parser.method = HEARTBEAT_METHOD then (s.ptrMove 1, some .over)
    else
      let s := s.setParser { s.info.parser with packages := s.mem s.doptr }
      if s.info.parser.packages = 0 then (s, some .nodata)
      else
        let s := s.ptrMove 1
        let s := s.setParser { s.info.parser with posFrameStart := s.doptr }
        let s := s.setStatus { s.info.status with step := .package }
        (s.setPackage { s.info.status.package with frames := 0 }, none)

--
-- Frames
--

/-- The loop that reads the frame length, most significant byte first, over the
bytes `bs`. -/
def frameSizeLoop : Int → Bytes → Int
  | size, [] => size
  | size, b :: bs => frameSizeLoop (wrap32 (size + wrap32 (b.toNat * 2 ^ (8 * bs.length)))) bs

/-- `frame_size` of the frame at `a` whose length takes `n` bytes. -/
def frameSize (m : Mem) (a : Int) (n : Nat) : Int := frameSizeLoop 0 (m.load (a + 1) n)

/-- `GET_LOW01_BITS(ctrl) + 1`. -/
def sizeFSize (ctrl : UInt8) : Nat := (ctrl &&& 0x03).toNat + 1

/-- `GET_LOW23_BITS`. -/
def low23Bits (ctrl : UInt8) : Nat := ((ctrl &&& 0x0C) >>> 2).toNat

/-- `MFPTP_PARSE_OVER` at the last package: the bytes behind the message are
moved to the front of the buffer. -/
def messageOver (getSize : Int) (s : ParseState) : ParseState :=
  let len := getSize - s.doptr
  if 0 < len then
    { s.setStatus { s.info.status with doptr := 0 } with
      mem := s.mem.store 0 (s.mem.load s.doptr len.toNat) }
  else if len = 0 then s.setStatus { s.info.status with doptr := 0 }
  else s

/-- The frame at `doptr` is entered into the package, unless it is a
heartbeat's. -/
def recordFrame (s : ParseState) (sizeF : Nat) (size : Int) : ParseState :=
  let lengthOver := wrap32 (s.lengthOver + (1 + sizeF + size))
  if s.info.parser.method ≠ HEARTBEAT_METHOD then
    { s.setPackage (s.info.status.package.enter (s.doptr + sizeF + 1) size) with lengthOver }
  else { s with lengthOver }

/-- `p_info->parser.func(p_info)`, if there is a callback; not for heartbeats. -/
def callFunc (getSize : Int) (s : ParseState) : ParseState :=
  if s.info.parser.func ∧ s.info.parser.method ≠ HEARTBEAT_METHOD then
    { s with calls := s.calls ++ [⟨s.info.status.package.view s.mem, getSize⟩] }
  else s

/-- The last frame of a package: the callback, and the end of the message or the
next package. -/
def packageOver (getSize : Int) (s : ParseState) (len : Int) : ParseState × Option Code :=
  let s := callFunc getSize
    (s.setStatus { s.info.status with index := s.info.status.index + 1 })
  if s.info.status.index = s.info.parser.packages.toNat then
    (messageOver getSize (s.ptrMove len), some .over)
  else ((s.setPackage .zero).ptrMove len, none)

/-- The frame at `doptr`, its control byte and its length known. -/
def takeFrame (getSize : Int) (s : ParseState) (sizeF : Nat) (size : Int) :
    ParseState × Option Code :=
  if s.lacks getSize (sizeF + size) then (s.shortage (sizeF + size), some s.info.status.step)
  else if MAX_FRAMES_PER_PACKAGE < s.info.status.package.frames + 1 then
    let s := s.setPackage { s.info.status.package with frames := s.info.status.package.frames + 1 }
    (s.ptrMove (1 + sizeF + size), some .moredata)
  else
    let s := recordFrame s sizeF size
    if s.info.status.package.complete = 0 then packageOver getSize s (1 + sizeF + size)
    else (s.ptrMove (1 + sizeF + size), none)

/-- `case MFPTP_PARSE_PACKAGE`: one frame. The length is read before it is known
whether its bytes are there. -/
def parseFrame (getSize : Int) (s : ParseState) : ParseState × Option Code :=
  if s.lacks getSize 1 then (s.shortage 1, some s.info.status.step)
  else
    let ctrl := s.mem s.doptr
    let s := s.setComplete (low23Bits ctrl)
    if 1 < s.info.status.package.complete then (s, some .ilegal)
    else takeFrame getSize s (sizeFSize ctrl) (frameSize s.mem s.doptr (sizeFSize ctrl))

/-- One turn of the `while` loop. A step of `MFPTP_PARSE_NODATA` or
`MFPTP_PARSE_MOREDATA` would turn for ever. -/
def parseTurn (getSize : Int) (s : ParseState) : ParseState × Option Code :=
  match s.info.status.step with
  | .ilegal | .init | .head => parseHead getSize s
  | .package => parseFrame getSize s
  | .over => (s, some .over)
  | .nodata | .moredata => (s, none)

/-- The loop, for at most `fuel` turns. -/
def parseLoop (getSize : Int) : Nat → ParseState → Option (Code × ParseState)
  | 0, _ => none
  | fuel + 1, s =>
    match parseTurn getSize s with
    | (s, some code) => some (code, s)
    | (s, none) => parseLoop getSize fuel s

/-- `mfptp_parse`; `calls` are the calls of the callback made before. -/
def mfptpParse (fuel : Nat) (m : Mem) (getSize : Int) (info : ParserInfo)
    (calls : List Callback) : Option (Code × ParseState) :=
  parseLoop getSize fuel ⟨info, m, calls, 0⟩

end Supex.Mfptp
