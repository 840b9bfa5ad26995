import Supex.Mfptp.Walk

/-!
# libmfptp — the packer

A faithful model of `mfptp_pack_frames_with_packages` (`mfptp_pack.c`): one call
per frame, all into one buffer; the first call also writes the header. The
compressing and encrypting functions of `mfptp_utils.c` are calls into zlib and
OpenSSL and are parameters here. Allocation is taken to succeed. `offset` and
`doptr` start equal and are moved together, so `doptr` stands for both.

Main result: `pack_then_parse`.
-/

namespace Supex.Mfptp

open Supex.Lib
open List hiding Mem

/-- `MFPTP_PACK_*`. -/
inductive PackCode where
  | init
  | head
  | package
  | over
  | error
  deriving DecidableEq, Repr

def MFPTP_FRAME_MAX_LEN : Nat := 1024 * 1024 * 6

/-- `struct mfptp_pack`, without the key. -/
structure Pack where
  version : UInt16
  subVersion : UInt16
  method : UInt8
  compress : UInt8
  encrypt : UInt8
  packages : UInt8
  step : PackCode
  doptr : Int
  index : Int

/-- The functions of `mfptp_utils.c`, with the key of the packer. -/
structure Codec where
  gzip : Bytes → Bytes
  zip : Bytes → Bytes
  aesEcbEncrypt : Bytes → Bytes
  ideaEcbEncrypt : Bytes → Bytes

/-- The buffer `dst` and the packer. -/
structure PackState where
  dst : Mem
  info : Pack

/-- `*(ptr + offset) = …` for some bytes, and `PTR_MOVE` over them. -/
def emit (o : PackState) (bs : Bytes) : PackState where
  dst := o.dst.store o.info.doptr bs
  info := { o.info with doptr := o.info.doptr + bs.length }

/-- `case MFPTP_PACK_HEAD`. The magic goes to the front of the buffer. -/
def packHead (o : PackState) : PackState :=
  let pCompress := ((o.info.compress <<< 4) ||| 0x0f) &&& (o.info.encrypt ||| 0xf0)
  let pVersion := ((o.info.version.toUInt8 <<< 4) ||| 0x0f) &&& (o.info.subVersion ||| 0xf0).toUInt8
  let o : PackState := ⟨o.dst.store 0 magic, { o.info with doptr := o.info.doptr + 6 }⟩
  let o := emit o [pVersion]
  let o := emit o [pCompress]
  let o := emit o [o.info.method]
  let o := emit o [o.info.packages]
  { o with info.step := .package }

/-- Byte `k` of the `int` `n` in memory: `*(p + k)`. -/
def intByte (n k : Nat) : UInt8 := UInt8.ofNat (n / 256 ^ k)

/-- A frame: the control byte `ctrl` with the width of the length, the length,
most significant byte first, and the data. -/
def packFrame (o : PackState) (ctrl : UInt8) (buf1 : Bytes) : PackState :=
  let outLen := buf1.length
  if outLen < 255 then emit (emit (emit o [ctrl]) [intByte outLen 0]) buf1
  else if outLen ≤ 65535 then
    emit (emit (emit (emit o [ctrl ||| 0x01]) [intByte outLen 1]) [intByte outLen 0]) buf1
  else
    emit (emit (emit (emit (emit o [ctrl ||| 0x02]) [intByte outLen 2]) [intByte outLen 1])
      [intByte outLen 0]) buf1

/-- The frame as it is sent: compressed, then encrypted. -/
def Codec.encode (codec : Codec) (p : Pack) (src : Bytes) : Bytes :=
  let buf :=
    match p.compress with
    | 0x02 => codec.gzip src
    | 0x01 => codec.zip src
    | _ => src
  match p.encrypt with
  | 0x02 => codec.aesEcbEncrypt buf
  | 0x01 => codec.ideaEcbEncrypt buf
  | _ => buf

/-- The end of a package: one package less to come, and behind the last one the
packer is ready for the next message. -/
def packageDone (o : PackState) : PackCode × PackState :=
  let info := { o.info with packages := o.info.packages - 1 }
  if info.packages = 0 then
    (.over, { o with info := { info with index := info.doptr, doptr := 0, step := .init } })
  else (.package, { o with info := info })

/-- `case MFPTP_PACK_PACKAGE`: one frame, and the end of the package when no more
frames follow. -/
def packPackage (codec : Codec) (src : Bytes) (more : Bool) (o : PackState) :
    PackCode × PackState :=
  match more with
  | true => (.package, packFrame o 0x04 (codec.encode o.info src))
  | false => packageDone (packFrame o 0x00 (codec.encode o.info src))

def mfptpPackFramesWithPackages (codec : Codec) (src : Bytes) (more : Bool) (o : PackState) :
    PackCode × PackState :=
  match o.info.step with
  | .init | .head => packPackage codec src more (packHead o)
  | .package => packPackage codec src more o
  | .over => (.over, o)
  | .error => (.error, o)

/-- `mfptp_init_pack_info`, then the caller's settings without compression and
encryption. -/
def mfptpInitPackInfo (version subVersion : UInt16) (method : UInt8) (packages : Nat)
    (index : Int) : Pack where
  version := version
  subVersion := subVersion
  method := method
  compress := 0
  encrypt := 0
  packages := UInt8.ofNat packages
  step := .init
  doptr := 0
  index := index

/-- The data of a frame the packer's buffers hold. -/
abbrev FrameData := { d : Bytes // d.length ≤ MFPTP_FRAME_MAX_LEN }

/-- The calls for one package: `more` is set for all but the last frame. -/
def packageCalls : List FrameData → List (FrameData × Bool)
  | [] => []
  | [f] => [(f, false)]
  | f :: g :: fs => (f, true) :: packageCalls (g :: fs)

/-- A sequence of calls into one buffer. -/
def packCalls (codec : Codec) : List (FrameData × Bool) → PackState → PackState
  | [], o => o
  | (f, more) :: rest, o =>
    packCalls codec rest (mfptpPackFramesWithPackages codec f.1 more o).2

--
-- What the packer writes
--

theorem emit_emit (o : PackState) (xs ys : Bytes) : emit (emit o xs) ys = emit o (xs ++ ys) := by
  unfold emit
  rw [Mem.store_append, length_append]
  push_cast
  rw [Int.add_assoc]

/-- The control byte of a frame of `n` bytes. -/
def packCtrl (n : Nat) (more : Bool) : UInt8 :=
  (if more then 0x04 else 0x00) ||| (if n < 255 then 0x00 else if n ≤ 65535 then 0x01 else 0x02)

theorem sizeFSize_packCtrl (n : Nat) (more : Bool) :
    sizeFSize (packCtrl n more) = if n < 255 then 1 else if n ≤ 65535 then 2 else 3 := by
  unfold packCtrl
  cases more <;> split_ifs <;> rfl

theorem low23Bits_packCtrl (n : Nat) (more : Bool) :
    low23Bits (packCtrl n more) = if more then 1 else 0 := by
  unfold packCtrl
  cases more <;> split_ifs <;> rfl

/-- The frame the packer makes of `f`. -/
def packedFrame (f : FrameData) (more : Bool) : WireFrame where
  ctrl := packCtrl f.1.length more
  data := f.1
  complete_le := by
    rw [low23Bits_packCtrl]
    split <;> omega
  fits := by
    have hmax : MFPTP_FRAME_MAX_LEN = 6291456 := rfl
    have := f.2
    rw [sizeFSize_packCtrl]
    split_ifs <;> omega

theorem packedFrame_last (f : FrameData) (more : Bool) : (packedFrame f more).last = !more := by
  unfold WireFrame.last
  rw [show (packedFrame f more).ctrl = packCtrl f.1.length more from rfl, low23Bits_packCtrl]
  cases more <;> rfl

theorem beBytes_eq (n : Nat) :
    beBytes 1 n = [intByte n 0] ∧ beBytes 2 n = [intByte n 1, intByte n 0] ∧
      beBytes 3 n = [intByte n 2, intByte n 1, intByte n 0] := by
  have hmod : ∀ k, UInt8.ofNat (k % 256) = UInt8.ofNat k := fun k => by
    apply UInt8.toNat_inj.mp
    simp
  unfold beBytes intByte
  simp only [leBytes, hmod, Nat.div_div_eq_div_mul, pow_zero, Nat.div_one, pow_one]
  exact ⟨rfl, rfl, rfl⟩

theorem packFrame_eq (o : PackState) (f : FrameData) (more : Bool) :
    packFrame o (if more then 0x04 else 0x00) f.1 = emit o (packedFrame f more).bytes := by
  obtain ⟨h1, h2, h3⟩ := beBytes_eq f.1.length
  have hbytes : (packedFrame f more).bytes = packCtrl f.1.length more ::
      beBytes (if f.1.length < 255 then 1 else if f.1.length ≤ 65535 then 2 else 3) f.1.length ++
        f.1 := by
    rw [← sizeFSize_packCtrl f.1.length more]
    rfl
  rw [hbytes]
  unfold packFrame packCtrl
  simp only [emit_emit]
  split_ifs <;> simp only [h1, h2, h3] <;> rfl

/-- The wire frames of a package. -/
def packedPackage (pkg : List FrameData) : List WireFrame :=
  (packageCalls pkg).map fun c => packedFrame c.1 c.2

/-- The packer inside a message: `out` is written, `r` packages are to come. -/
structure Packing (r : Nat) (out : Bytes) (o : PackState) : Prop where
  step : o.info.step = .package
  compress : o.info.compress = 0
  encrypt : o.info.encrypt = 0
  packages : o.info.packages.toNat = r
  doptr : o.info.doptr = out.length
  dst : o.dst.Holds 0 out

variable {o : PackState}

theorem Packing.emit {r : Nat} {out : Bytes} (h : Packing r out o) (bs : Bytes) :
    Packing r (out ++ bs) (emit o bs) where
  step := h.step
  compress := h.compress
  encrypt := h.encrypt
  packages := h.packages
  doptr := by
    show o.info.doptr + bs.length = _
    rw [h.doptr, length_append]
    rfl
  dst := by
    show (o.dst.store o.info.doptr bs).Holds 0 (out ++ bs)
    rw [h.doptr, Mem.holds_append, Int.zero_add]
    exact ⟨h.dst.store (by omega), Mem.holds_store _ _ _⟩

theorem encode_plain (codec : Codec) {p : Pack} (hc : p.compress = 0) (he : p.encrypt = 0)
    (src : Bytes) : codec.encode p src = src := by
  unfold Codec.encode
  rw [hc, he]
  rfl

theorem packHead_packing (dst : Mem) (version subVersion : UInt16) (method : UInt8) {count : Nat}
    (hcount : count ≤ 255) (index : Int) :
    ∃ v, Packing count (magic ++ [v, 0, method, UInt8.ofNat count])
      (packHead ⟨dst, mfptpInitPackInfo version subVersion method count index⟩) := by
  refine ⟨((version.toUInt8 <<< 4) ||| 0x0f) &&& (subVersion ||| 0xf0).toUInt8, ?_⟩
  have hmagic : Packing count magic ⟨dst.store 0 magic,
      { mfptpInitPackInfo version subVersion method count index with
        doptr := 6, step := .package }⟩ :=
    ⟨rfl, rfl, rfl, by
      show (UInt8.ofNat count).toNat = count
      rw [UInt8.toNat_ofNat']
      omega, rfl, Mem.holds_store _ _ _⟩
  have hall := (((hmagic.emit [((version.toUInt8 <<< 4) ||| 0x0f) &&&
    (subVersion ||| 0xf0).toUInt8]).emit [0]).emit [method]).emit [UInt8.ofNat count]
  have hcoding : ((0 : UInt8) <<< 4 ||| 0x0f) &&& (0 ||| 0xf0) = 0 := by decide
  rw [append_assoc, append_assoc, append_assoc] at hall
  unfold packHead
  rw [show (mfptpInitPackInfo version subVersion method count index).compress = 0 from rfl,
    show (mfptpInitPackInfo version subVersion method count index).encrypt = 0 from rfl, hcoding]
  exact hall

theorem Packing.more {r : Nat} {out : Bytes} (h : Packing r out o) (codec : Codec) (f : FrameData) :
    Packing r (out ++ (packedFrame f true).bytes)
      (mfptpPackFramesWithPackages codec f.1 true o).2 := by
  have heq : mfptpPackFramesWithPackages codec f.1 true o =
      (.package, Mfptp.emit o (packedFrame f true).bytes) := by
    unfold mfptpPackFramesWithPackages
    rw [h.step]
    unfold packPackage
    rw [encode_plain codec h.compress h.encrypt, ← packFrame_eq]
    rfl
  rw [heq]
  exact h.emit _

/-- A call for the last frame of a package: the next package, or the message is
written. -/
theorem Packing.last {r : Nat} {out : Bytes} (h : Packing (r + 1) out o) (codec : Codec)
    (f : FrameData) :
    if r = 0 then
      (mfptpPackFramesWithPackages codec f.1 false o).2.info.index =
          (out ++ (packedFrame f false).bytes).length ∧
        (mfptpPackFramesWithPackages codec f.1 false o).2.dst.Holds 0
          (out ++ (packedFrame f false).bytes)
    else Packing r (out ++ (packedFrame f false).bytes)
      (mfptpPackFramesWithPackages codec f.1 false o).2 := by
  have hemit := h.emit (packedFrame f false).bytes
  have heq : mfptpPackFramesWithPackages codec f.1 false o =
      packageDone (Mfptp.emit o (packedFrame f false).bytes) := by
    unfold mfptpPackFramesWithPackages
    rw [h.step]
    unfold packPackage
    rw [encode_plain codec h.compress h.encrypt, ← packFrame_eq]
    rfl
  have hlt := o.info.packages.toNat_lt
  have hpackages := h.packages
  have hless : (o.info.packages - 1).toNat = r := by
    rw [UInt8.toNat_sub, show (1 : UInt8).toNat = 1 from rfl]
    omega
  have hzero : (Mfptp.emit o (packedFrame f false).bytes).info.packages - 1 = 0 ↔ r = 0 := by
    show o.info.packages - 1 = 0 ↔ r = 0
    rw [← UInt8.toNat_inj, hless]
    rfl
  rw [heq]
  unfold packageDone
  split
  · next hr =>
    rw [if_pos (hzero.mpr hr)]
    exact ⟨hemit.doptr, hemit.dst⟩
  · next hr =>
    rw [if_neg fun hz => hr (hzero.mp hz)]
    exact ⟨hemit.step, hemit.compress, hemit.encrypt, hless, hemit.doptr, hemit.dst⟩

theorem packCalls_append (codec : Codec) (l l' : List (FrameData × Bool)) (o : PackState) :
    packCalls codec (l ++ l') o = packCalls codec l' (packCalls codec l o) := by
  induction l generalizing o with
  | nil => rfl
  | cons c l ih => exact ih _

theorem Packing.package {r : Nat} {out : Bytes} (h : Packing (r + 1) out o) (codec : Codec)
    {pkg : List FrameData} (hne : pkg ≠ []) :
    if r = 0 then
      (packCalls codec (packageCalls pkg) o).info.index =
          (out ++ body (packedPackage pkg)).length ∧
        (packCalls codec (packageCalls pkg) o).dst.Holds 0 (out ++ body (packedPackage pkg))
    else Packing r (out ++ body (packedPackage pkg)) (packCalls codec (packageCalls pkg) o) := by
  fun_induction packageCalls pkg generalizing out o with
  | case1 => exact absurd rfl hne
  | case2 f =>
    rw [packedPackage, packageCalls, map_singleton, body_cons, body_nil, append_nil]
    exact h.last codec f
  | case3 f g fs ih =>
    have hih := ih (h.more codec f) (cons_ne_nil _ _)
    rw [packedPackage, packageCalls, map_cons, body_cons, ← append_assoc]
    exact hih

theorem Packing.message {out : Bytes} (codec : Codec) (pkgs : List (List FrameData))
    (hpkgs : ∀ pkg ∈ pkgs, pkg ≠ []) (hne : pkgs ≠ []) (h : Packing pkgs.length out o) :
    (packCalls codec (pkgs.flatMap packageCalls) o).info.index =
        (out ++ body (pkgs.map packedPackage).flatten).length ∧
      (packCalls codec (pkgs.flatMap packageCalls) o).dst.Holds 0
        (out ++ body (pkgs.map packedPackage).flatten) := by
  induction pkgs generalizing out o with
  | nil => exact absurd rfl hne
  | cons pkg pkgs ih =>
    have hpkg := h.package codec (hpkgs pkg (.head _))
    rw [flatMap_cons, packCalls_append, map_cons, flatten_cons, body_append,
      ← append_assoc]
    cases pkgs with
    | nil =>
      rw [length_nil, if_pos rfl] at hpkg
      rw [map_nil, flatten_nil, body_nil, append_nil]
      exact hpkg
    | cons pkg' pkgs =>
      rw [length_cons, if_neg (Nat.succ_ne_zero _)] at hpkg
      exact ih (fun p hp => hpkgs p (.tail _ hp)) (cons_ne_nil _ _) hpkg

--
-- The round trip
--

theorem packageCalls_fst (pkg : List FrameData) : (packageCalls pkg).map Prod.fst = pkg := by
  fun_induction packageCalls pkg with
  | case1 => rfl
  | case2 f => rfl
  | case3 f g fs ih => rw [map_cons, ih]

theorem packedPackage_length (pkg : List FrameData) : (packedPackage pkg).length = pkg.length := by
  rw [packedPackage, length_map, ← length_map (f := Prod.fst), packageCalls_fst]

theorem packedPackage_last (pkg : List FrameData) (xs : List WireFrame) (f : WireFrame)
    (ys : List WireFrame) (h : packedPackage pkg = xs ++ f :: ys) : f.last = true ↔ ys = [] := by
  unfold packedPackage at h
  fun_induction packageCalls pkg generalizing xs with
  | case1 =>
    rw [map_nil] at h
    exact absurd h.symm (by simp)
  | case2 d =>
    rw [map_singleton] at h
    cases xs with
    | nil =>
      obtain ⟨rfl, rfl⟩ := List.cons.inj h
      exact iff_of_true (packedFrame_last d false) rfl
    | cons x xs =>
      have := (List.cons.inj h).2
      exact absurd this.symm (by simp)
  | case3 d e ds ih =>
    rw [map_cons] at h
    cases xs with
    | nil =>
      obtain ⟨rfl, htail⟩ := List.cons.inj h
      refine iff_of_false (by rw [packedFrame_last]; nofun) fun hys => ?_
      have hlen := congrArg List.length htail
      rw [hys, length_map, ← length_map (f := Prod.fst), packageCalls_fst] at hlen
      cases hlen
    | cons x xs => exact ih xs (List.cons.inj h).2

theorem isPackage_packed {pkg : List FrameData} (hpos : 1 ≤ pkg.length)
    (hle : pkg.length ≤ MAX_FRAMES_PER_PACKAGE) : IsPackage (packedPackage pkg) where
  length := by
    rw [packedPackage_length]
    exact hle
  ne_nil h := by
    have := packedPackage_length pkg
    rw [h, length_nil] at this
    omega
  last := packedPackage_last pkg

theorem packedPackage_content (pkg : List FrameData) :
    (packedPackage pkg).map WireFrame.content = pkg.map fun d => ((d.1.length : Int), d.1) := by
  conv => rhs; rw [← packageCalls_fst pkg]
  rw [packedPackage, map_map, map_map]
  rfl

/-- **The round trip.** For every list of packages the packer takes, the parser
handed the packed bytes returns `MFPTP_PARSE_OVER` and has called back once per
package, in order, with the lengths and the bytes of its frames. -/
theorem pack_then_parse (codec : Codec) (version subVersion : UInt16) (method : UInt8)
    (hmethod : method ≠ HEARTBEAT_METHOD) (pkgs : List (List FrameData))
    (hcount : 1 ≤ pkgs.length ∧ pkgs.length ≤ 255)
    (hpkgs : ∀ pkg ∈ pkgs, 1 ≤ pkg.length ∧ pkg.length ≤ MAX_FRAMES_PER_PACKAGE)
    (dst : Mem) (index : Int) (old : Package) (out : PackState)
    (hout : out = packCalls codec (pkgs.flatMap packageCalls)
      ⟨dst, mfptpInitPackInfo version subVersion method pkgs.length index⟩)
    (htotal : out.info.index < 2 ^ 31) :
    ∃ fuel s, mfptpParse fuel out.dst out.info.index (mfptpInitParserInfo old true) [] =
        some (.over, s) ∧
      s.calls.map Callback.content = pkgs.map (·.map fun d => ((d.1.length : Int), d.1)) := by
  have hne : pkgs ≠ [] := ne_nil_of_length_pos hcount.1
  have hfull : ∀ pkg ∈ pkgs, pkg ≠ [] := fun pkg hpkg =>
    ne_nil_of_length_pos (hpkgs pkg hpkg).1
  obtain ⟨v, hhead⟩ := packHead_packing dst version subVersion method hcount.2 index
  -- the first call writes the header and goes on as a call inside the message
  have hfirst : packCalls codec (pkgs.flatMap packageCalls)
        ⟨dst, mfptpInitPackInfo version subVersion method pkgs.length index⟩ =
      packCalls codec (pkgs.flatMap packageCalls)
        (packHead ⟨dst, mfptpInitPackInfo version subVersion method pkgs.length index⟩) := by
    have hcalls : pkgs.flatMap packageCalls ≠ [] := by
      obtain ⟨pkg, pkgs, rfl⟩ := exists_cons_of_ne_nil hne
      intro h
      rw [flatMap_cons, append_eq_nil_iff] at h
      have hpkg := hpkgs pkg (.head _)
      rw [← packageCalls_fst pkg, h.1] at hpkg
      exact absurd hpkg.1 (by decide)
    obtain ⟨⟨f, more⟩, rest, hrest⟩ := exists_cons_of_ne_nil hcalls
    rw [hrest]
    rfl
  let m : Message := {
    version := v, coding := 0, method := method, packages := pkgs.map packedPackage
    method_ne := hmethod
    count_pos := fun h => hne (map_eq_nil_iff.mp h)
    count_le := by
      rw [length_map]
      exact hcount.2
    isPackage := fun fs hfs => by
      obtain ⟨pkg, hpkg, rfl⟩ := mem_map.mp hfs
      exact isPackage_packed (hpkgs pkg hpkg).1 (hpkgs pkg hpkg).2 }
  have hbytes : m.bytes = magic ++ [v, 0, method, UInt8.ofNat pkgs.length] ++
      body (pkgs.map packedPackage).flatten := by
    show magic ++ [v, 0, method, UInt8.ofNat (pkgs.map packedPackage).length] ++ _ = _
    rw [length_map]
  obtain ⟨hindex, hdst⟩ := hhead.message codec pkgs hfull hne
  rw [← hbytes, ← hfirst, ← hout] at hindex hdst
  obtain ⟨fuel, t, hloop, -, hfinished⟩ := parse_message (m := m) (n := m.bytes.length)
    (s := ⟨mfptpInitParserInfo old true, out.dst, [], 0⟩) ⟨rfl, rfl, rfl, rfl, rfl⟩
    (by omega) le_rfl
    hdst
  refine ⟨fuel, messageOver m.bytes.length t, ?_, ?_⟩
  · rw [hindex]
    exact hloop
  · rw [messageOver_calls, hfinished.calls]
    rw [map_map]
    exact map_congr_left fun pkg _ => packedPackage_content pkg

/-- Two packages, one of them with an empty frame. -/
def twoPackages : List (List FrameData) :=
  [[⟨[0x5b], by decide⟩, ⟨[], by decide⟩], [⟨[1, 2], by decide⟩]]

theorem pack_then_parse_two :
    ∃ out, out = packCalls ⟨id, id, id, id⟩ (twoPackages.flatMap packageCalls)
        ⟨fun _ => 0xff, mfptpInitPackInfo 1 2 3 twoPackages.length 7⟩ ∧ out.info.index = 19 ∧
      ∃ fuel s, mfptpParse fuel out.dst out.info.index (mfptpInitParserInfo .zero true) [] =
          some (.over, s) ∧
        s.calls.map Callback.content =
          twoPackages.map (·.map fun d => ((d.1.length : Int), d.1)) := by
  refine ⟨_, rfl, by decide, ?_⟩
  exact pack_then_parse ⟨id, id, id, id⟩ 1 2 3 (by decide) twoPackages (by decide) (by decide)
    (fun _ => 0xff) 7 .zero _ rfl (by decide)

end Supex.Mfptp
