import Supex.Jtt.Escape

/-!
# releaseServer — JT/T 809 packages

A faithful model of `jtt_package.c`, with the key stream of `pkg_sec.c` and the
checksum of `pkg_crc.c`. A package is a head of 23 bytes, a body, a CRC and an
end flag; everything between the two flags is escaped.

Conventions:

* The buffers are memory (`Mem`); lengths are integers, as the source's `int`s,
  far from overflowing for a buffer that exists.
* `char`s are bytes, compared as signed values (`charVal`). The flags of a
  `PKG_USER` are constants of the protocol and ASCII.
* The random key of `sec_key_get` is a parameter. Memory is taken to be
  available, and the body pointer to be set.

Main result: `decode_encode`.
-/

namespace Supex.Jtt

open Supex.Lib
open List hiding Mem

--
-- Encryption
--

def M1 : UInt32 := 851027125

def IA1 : UInt32 := 410213143

def IC1 : UInt32 := 219143235

/-- The loop of `sec_encrypt`. -/
def secEncryptLoop (mkey : UInt32) : UInt32 → Bytes → Bytes
  | _, [] => []
  | key, b :: bs =>
    let key := IA1 * (key % mkey) + IC1
    (b ^^^ ((key >>> 20) &&& 0xFF).toUInt8) :: secEncryptLoop mkey key bs

def secEncrypt (key : UInt32) (bs : Bytes) : Bytes :=
  secEncryptLoop (if M1 = 0 then 1 else M1) (if key = 0 then 1 else key) bs

def secDecrypt (key : UInt32) (bs : Bytes) : Bytes := secEncrypt key bs

theorem secEncryptLoop_length (mkey key : UInt32) (bs : Bytes) :
    (secEncryptLoop mkey key bs).length = bs.length := by
  induction bs generalizing key with
  | nil => rfl
  | cons b bs ih => rw [secEncryptLoop, length_cons, ih, length_cons]

theorem secEncryptLoop_twice (mkey key : UInt32) (bs : Bytes) :
    secEncryptLoop mkey key (secEncryptLoop mkey key bs) = bs := by
  induction bs generalizing key with
  | nil => rfl
  | cons b bs ih =>
    rw [secEncryptLoop, secEncryptLoop, ih, UInt8.xor_assoc, UInt8.xor_self, UInt8.xor_zero]

theorem secEncrypt_length (key : UInt32) (bs : Bytes) : (secEncrypt key bs).length = bs.length :=
  secEncryptLoop_length _ _ bs

theorem secDecrypt_secEncrypt (key : UInt32) (bs : Bytes) :
    secDecrypt key (secEncrypt key bs) = bs :=
  secEncryptLoop_twice _ _ bs

--
-- The checksum
--

def crctable : List UInt16 :=
  [0x0000, 0x1021, 0x2042, 0x3063, 0x4084, 0x50a5, 0x60c6, 0x70e7, 0x8108, 0x9129,
   0xa14a, 0xb16b, 0xc18c, 0xd1ad, 0xe1ce, 0xf1ef, 0x1231, 0x0210, 0x3273, 0x2252,
   0x52b5, 0x4294, 0x72f7, 0x62d6, 0x9339, 0x8318, 0xb37b, 0xa35a, 0xd3bd, 0xc39c,
   0xf3ff, 0xe3de, 0x2462, 0x3443, 0x0420, 0x1401, 0x64e6, 0x74c7, 0x44a4, 0x5485,
   0xa56a, 0xb54b, 0x8528, 0x9509, 0xe5ee, 0xf5cf, 0xc5ac, 0xd58d, 0x3653, 0x2672,
   0x1611, 0x0630, 0x76d7, 0x66f6, 0x5695, 0x46b4, 0xb75b, 0xa77a, 0x9719, 0x8738,
   0xf7df, 0xe7fe, 0xd79d, 0xc7bc, 0x48c4, 0x58e5, 0x6886, 0x78a7, 0x0840, 0x1861,
   0x2802, 0x3823, 0xc9cc, 0xd9ed, 0xe98e, 0xf9af, 0x8948, 0x9969, 0xa90a, 0xb92b,
   0x5af5, 0x4ad4, 0x7ab7, 0x6a96, 0x1a71, 0x0a50, 0x3a33, 0x2a12, 0xdbfd, 0xcbdc,
   0xfbbf, 0xeb9e, 0x9b79, 0x8b58, 0xbb3b, 0xab1a, 0x6ca6, 0x7c87, 0x4ce4, 0x5cc5,
   0x2c22, 0x3c03, 0x0c60, 0x1c41, 0xedae, 0xfd8f, 0xcdec, 0xddcd, 0xad2a, 0xbd0b,
   0x8d68, 0x9d49, 0x7e97, 0x6eb6, 0x5ed5, 0x4ef4, 0x3e13, 0x2e32, 0x1e51, 0x0e70,
   0xff9f, 0xefbe, 0xdfdd, 0xcffc, 0xbf1b, 0xaf3a, 0x9f59, 0x8f78, 0x9188, 0x81a9,
   0xb1ca, 0xa1eb, 0xd10c, 0xc12d, 0xf14e, 0xe16f, 0x1080, 0x00a1, 0x30c2, 0x20e3,
   0x5004, 0x4025, 0x7046, 0x6067, 0x83b9, 0x9398, 0xa3fb, 0xb3da, 0xc33d, 0xd31c,
   0xe37f, 0xf35e, 0x02b1, 0x1290, 0x22f3, 0x32d2, 0x4235, 0x5214, 0x6277, 0x7256,
   0xb5ea, 0xa5cb, 0x95a8, 0x8589, 0xf56e, 0xe54f, 0xd52c, 0xc50d, 0x34e2, 0x24c3,
   0x14a0, 0x0481, 0x7466, 0x6447, 0x5424, 0x4405, 0xa7db, 0xb7fa, 0x8799, 0x97b8,
   0xe75f, 0xf77e, 0xc71d, 0xd73c, 0x26d3, 0x36f2, 0x0691, 0x16b0, 0x6657, 0x7676,
   0x4615, 0x5634, 0xd94c, 0xc96d, 0xf90e, 0xe92f, 0x99c8, 0x89e9, 0xb98a, 0xa9ab,
   0x5844, 0x4865, 0x7806, 0x6827, 0x18c0, 0x08e1, 0x3882, 0x28a3, 0xcb7d, 0xdb5c,
   0xeb3f, 0xfb1e, 0x8bf9, 0x9bd8, 0xabbb, 0xbb9a, 0x4a75, 0x5a54, 0x6a37, 0x7a16,
   0x0af1, 0x1ad0, 0x2ab3, 0x3a92, 0xfd2e, 0xed0f, 0xdd6c, 0xcd4d, 0xbdaa, 0xad8b,
   0x9de8, 0x8dc9, 0x7c26, 0x6c07, 0x5c64, 0x4c45, 0x3ca2, 0x2c83, 0x1ce0, 0x0cc1,
   0xef1f, 0xff3e, 0xcf5d, 0xdf7c, 0xaf9b, 0xbfba, 0x8fd9, 0x9ff8, 0x6e17, 0x7e36,
   0x4e55, 0x5e74, 0x2e93, 0x3eb2, 0x0ed1, 0x1ef0]

def crcGet (data : Bytes) : UInt16 :=
  data.foldl (fun (crc : UInt16) (b : UInt8) =>
    (crc <<< 8) ^^^ crctable.getD ((crc >>> 8) ^^^ b.toUInt16).toNat 0) 0xffff ^^^ 0x0000

--
-- Packages
--

/-- The value of a `char`. -/
def charVal (c : UInt8) : Int := if c.toNat < 128 then c.toNat else c.toNat - 256

structure PkgUser where
  encrypt : UInt8
  msgEnterid : UInt32
  msgSz : UInt32
  headFlag : UInt8
  endFlag : UInt8
  version : UInt8 × UInt8 × UInt8
  head_ascii : headFlag.toNat < 128
  end_ascii : endFlag.toNat < 128

/-- `PKG_BODY`; `blen` is the length of `data`. -/
structure PkgBody where
  msgId : UInt32
  data : Bytes
  blen_lt : data.length < 2 ^ 32

structure JttHead where
  headFlag : UInt8
  msgLength : UInt32
  msgSz : UInt32
  msgId : UInt16
  msgEnterid : UInt32
  ver : UInt8 × UInt8 × UInt8
  encrypt : UInt8
  key : UInt32

/-- `sizeof(JTT_HEAD)`. -/
def JTT_HEAD_SIZE : Nat := 23

/-- The head behind its flag: the numbers most significant byte first. -/
def JttHead.fields (h : JttHead) : Bytes :=
  beBytes 4 h.msgLength.toNat ++ beBytes 4 h.msgSz.toNat ++ beBytes 2 h.msgId.toNat ++
    beBytes 4 h.msgEnterid.toNat ++ [h.ver.1, h.ver.2.1, h.ver.2.2] ++ [h.encrypt] ++
    beBytes 4 h.key.toNat

/-- The head in memory. -/
def JttHead.bytes (h : JttHead) : Bytes := h.headFlag :: h.fields

def bigHead (key : UInt32) (user : PkgUser) (body : PkgBody) : JttHead where
  headFlag := user.headFlag
  msgLength := UInt32.ofNat (JTT_HEAD_SIZE + body.data.length + 3)
  msgSz := user.msgSz
  msgId := body.msgId.toUInt16
  msgEnterid := user.msgEnterid
  ver := user.version
  encrypt := user.encrypt
  key := key

/-- The body as it is sent. -/
def sentBody (key : UInt32) (user : PkgUser) (body : PkgBody) : Bytes :=
  if user.encrypt = 1 then secEncrypt key body.data else body.data

/-- `tmp_pkg` between the two flags: head, body and CRC. -/
def tmpPkg (key : UInt32) (user : PkgUser) (body : PkgBody) : Bytes :=
  let data := (bigHead key user body).fields ++ sentBody key user body
  data ++ [(crcGet data >>> 8).toUInt8, (crcGet data).toUInt8]

/-- The loop that escapes into `pkg`; it gives up when the buffer is full. -/
def escapeLoop (plen : Int) : Bytes → Mem → Int → Bool × Mem × Int
  | [], pkg, k => (true, pkg, k)
  | b :: bs, pkg, k =>
    if plen ≤ k + (escape b).length then (false, pkg.store k (escape b), k)
    else escapeLoop plen bs (pkg.store k (escape b)) (k + (escape b).length)

/-- `pkg_encode`: the value returned, the user with its next sequence number, the
buffer and `*plen`. -/
def pkgEncode (key : UInt32) (user : PkgUser) (pkg : Mem) (plen : Int) (body : PkgBody) :
    Int × PkgUser × Mem × Int :=
  let next := { user with msgSz := user.msgSz + 1 }
  match escapeLoop plen (tmpPkg key user body) (pkg.store 0 [user.headFlag]) 1 with
  | (false, pkg, _) => (-1, next, pkg, plen)
  | (true, pkg, k) => (0, next, pkg.store k [user.endFlag], k + 1)

/-- `pkg_decode`: the value returned, the buffer and `*pkg_len`. The length
handed to `sec_decrypt` is an unsigned number there. -/
def pkgDecode (user : PkgUser) (pkg : Mem) (pkgLen : Int) : Int × Mem × Int :=
  if (pkg 0).toNat ≠ charVal user.headFlag ∨ (pkg (pkgLen - 1)).toNat ≠ charVal user.endFlag then
    (-1, pkg, pkgLen)
  else
    let r := unescape pkg 1 1 (pkgLen - 2)
    let pkg := r.1.store (1 + r.2) [r.1 (pkgLen - 1)]
    let len := 1 + r.2 + 1
    let orgCrc := UInt16.ofNat (beVal (pkg.load (len - 3) 2))
    if crcGet (pkg.load 1 (len - 4).toNat) ≠ orgCrc then (-1, pkg, len)
    else if pkg 18 = 1 then
      let key := UInt32.ofNat (beVal (pkg.load 19 4))
      let blen := ((len - JTT_HEAD_SIZE - 3) % 2 ^ 32).toNat
      (0, pkg.store JTT_HEAD_SIZE (secDecrypt key (pkg.load JTT_HEAD_SIZE blen)), len)
    else (0, pkg, len)

/-- The bytes of a package on the wire. -/
def frame (key : UInt32) (user : PkgUser) (body : PkgBody) : Bytes :=
  user.headFlag :: escaped (tmpPkg key user body) ++ [user.endFlag]

--
-- Encoding
--

theorem escapeLoop_true {plen : Int} {bs : Bytes} {pkg pkg' : Mem} {k k' : Int}
    (h : escapeLoop plen bs pkg k = (true, pkg', k')) :
    pkg' = pkg.store k (escaped bs) ∧ k' = k + (escaped bs).length := by
  induction bs generalizing pkg k with
  | nil =>
    obtain ⟨rfl, rfl⟩ := Prod.mk.inj (Prod.mk.inj h).2
    exact ⟨(Mem.store_nil pkg k).symm, (Int.add_zero k).symm⟩
  | cons b bs ih =>
    rw [escapeLoop] at h
    split at h
    · cases (Prod.mk.inj h).1
    · obtain ⟨rfl, rfl⟩ := ih h
      rw [escaped_cons, Mem.store_append, length_append]
      refine ⟨rfl, ?_⟩
      push_cast
      ring

theorem escapeLoop_fits {plen k : Int} {bs : Bytes} (pkg : Mem)
    (h : k + (escaped bs).length < plen) :
    escapeLoop plen bs pkg k = (true, pkg.store k (escaped bs), k + (escaped bs).length) := by
  induction bs generalizing pkg k with
  | nil =>
    rw [escapeLoop]
    exact congrArg (Prod.mk true)
      (Prod.ext (Mem.store_nil pkg k).symm (Int.add_zero k).symm)
  | cons b bs ih =>
    rw [escaped_cons, length_append] at h
    rw [escapeLoop, if_neg (by omega), ih _ (by omega), escaped_cons, Mem.store_append,
      length_append]
    push_cast
    rw [Int.add_assoc]

theorem pkgEncode_fits (key : UInt32) (user : PkgUser) (pkg : Mem) (plen : Int) (body : PkgBody)
    (h : 1 + ((escaped (tmpPkg key user body)).length : Int) < plen) :
    (pkgEncode key user pkg plen body).1 = 0 := by
  unfold pkgEncode
  rw [escapeLoop_fits _ h]

variable {key : UInt32} {user : PkgUser} {body : PkgBody}

theorem pkgEncode_ok {user' : PkgUser} {pkg pkg' : Mem} {plen plen' : Int}
    (h : pkgEncode key user pkg plen body = (0, user', pkg', plen')) :
    user' = { user with msgSz := user.msgSz + 1 } ∧ pkg' = pkg.store 0 (frame key user body) ∧
      plen' = (frame key user body).length := by
  unfold pkgEncode at h
  split at h
  · exact absurd (Prod.mk.inj h).1 (by decide)
  · next pkg₁ k hloop =>
    obtain ⟨rfl, hk⟩ := escapeLoop_true hloop
    obtain ⟨-, rfl, rfl, rfl⟩ := h
    refine ⟨rfl, ?_, ?_⟩
    · rw [hk, Mem.store_append]
      show (pkg.store 0 [user.headFlag]).store (0 + ([user.headFlag] : Bytes).length) _ = _
      rw [Mem.store_append]
      rfl
    · rw [hk]
      unfold frame
      rw [length_append, length_cons, length_singleton]
      push_cast
      ring

--
-- Decoding
--

theorem charVal_ascii {c : UInt8} (h : c.toNat < 128) : charVal c = c.toNat := if_pos h

theorem JttHead.fields_length (h : JttHead) : h.fields.length = 22 := by
  unfold JttHead.fields
  simp only [length_append, beBytes_length, length_cons, length_nil]

theorem sentBody_length (key : UInt32) (user : PkgUser) (body : PkgBody) :
    (sentBody key user body).length = body.data.length := by
  unfold sentBody
  split
  · exact secEncrypt_length _ _
  · rfl

theorem tmpPkg_length (key : UInt32) (user : PkgUser) (body : PkgBody) :
    (tmpPkg key user body).length = body.data.length + 24 := by
  unfold tmpPkg
  simp only [length_append, JttHead.fields_length, sentBody_length, length_cons,
    length_nil]
  omega

theorem beVal_crc (c : UInt16) : UInt16.ofNat (beVal [(c >>> 8).toUInt8, c.toUInt8]) = c := by
  apply UInt16.toNat_inj.mp
  have hc := c.toNat_lt
  simp only [beVal, length_cons, length_nil, UInt16.toNat_toUInt8,
    UInt16.toNat_shiftRight,
    UInt16.toNat_ofNat', Nat.shiftRight_eq_div_pow, show UInt16.toNat 8 % 16 = 8 from rfl]
  omega

theorem beVal_key (key : UInt32) : UInt32.ofNat (beVal (beBytes 4 key.toNat)) = key := by
  rw [beVal_beBytes (by have := key.toNat_lt; omega), UInt32.ofNat_toNat]

theorem package_eq (key : UInt32) (user : PkgUser) (body : PkgBody) :
    ∃ crc, crc.length = 2 ∧
      UInt16.ofNat (beVal crc) = crcGet ((bigHead key user body).fields ++ sentBody key user body) ∧
      user.headFlag :: tmpPkg key user body ++ [user.endFlag] =
        (bigHead key user body).bytes ++ (sentBody key user body ++ (crc ++ [user.endFlag])) ∧
      tmpPkg key user body = (bigHead key user body).fields ++ sentBody key user body ++ crc := by
  refine ⟨_, rfl, beVal_crc _, ?_, rfl⟩
  unfold tmpPkg JttHead.bytes
  simp only [append_assoc, cons_append]
  rfl

theorem frame_length (key : UInt32) (user : PkgUser) (body : PkgBody) :
    (frame key user body).length = (escaped (tmpPkg key user body)).length + 2 := by
  unfold frame
  rw [length_append, length_cons, length_singleton]

theorem frame_end (key : UInt32) (user : PkgUser) (body : PkgBody) :
    ((frame key user body).length : Int) - 1 =
      0 + (((escaped (tmpPkg key user body)).length + 1 : Nat) : Int) := by
  rw [frame_length]
  push_cast
  ring

/-- The decoder behind `unescape`: the package stands in the buffer, its end flag
moved. -/
theorem unescape_frame {m : Mem} (h : m.Holds 0 (frame key user body)) :
    ∃ m', unescape m 1 1 ((frame key user body).length - 2) =
        (m', ((tmpPkg key user body).length : Int)) ∧
      m' ((frame key user body).length - 1) = user.endFlag ∧
      m'.Holds 0 (user.headFlag :: tmpPkg key user body) := by
  unfold frame at h
  rw [Mem.holds_append, Mem.holds_cons, length_cons, Mem.holds_cons, Int.zero_add] at h
  obtain ⟨⟨hhead, hinner⟩, hend, -⟩ := h
  obtain ⟨m', hrun, hholds, hsame⟩ := unescape_escaped hinner
  refine ⟨m', ?_, ?_, ?_⟩
  · rw [frame_length, show (((escaped (tmpPkg key user body)).length + 2 : Nat) : Int) - 2 =
      (escaped (tmpPkg key user body)).length by push_cast; ring]
    exact hrun
  · rw [frame_end, hsame _ (.inr (by push_cast; omega))]
    exact hend
  · rw [Mem.holds_cons, Int.zero_add, hsame 0 (.inl (by omega))]
    exact ⟨hhead, hholds⟩

theorem JttHead.fields_split (h : JttHead) :
    ∃ pre, pre.length = 17 ∧ h.fields = pre ++ h.encrypt :: beBytes 4 h.key.toNat := by
  refine ⟨beBytes 4 h.msgLength.toNat ++ beBytes 4 h.msgSz.toNat ++ beBytes 2 h.msgId.toNat ++
    beBytes 4 h.msgEnterid.toNat ++ [h.ver.1, h.ver.2.1, h.ver.2.2], ?_, ?_⟩
  · simp only [length_append, beBytes_length, length_cons, length_nil]
  · unfold JttHead.fields
    rw [append_assoc]
    rfl

theorem holds_package {m : Mem}
    (h : m.Holds 0 (user.headFlag :: tmpPkg key user body ++ [user.endFlag])) :
    crcGet (m.load 1 (body.data.length + 22)) =
        UInt16.ofNat (beVal (m.load (body.data.length + 23) 2)) ∧
      m 18 = user.encrypt ∧ UInt32.ofNat (beVal (m.load 19 4)) = key ∧
      m.Holds 0 (bigHead key user body).bytes ∧ m.Holds 23 (sentBody key user body) := by
  obtain ⟨crc, hlen, hcrc, hall, -⟩ := package_eq key user body
  have hbody := sentBody_length key user body
  have hfields := (bigHead key user body).fields_length
  have hbytes : (bigHead key user body).bytes.length = 23 := by
    rw [JttHead.bytes, length_cons, hfields]
  rw [hall, Mem.holds_append, Mem.holds_append, Mem.holds_append, Int.zero_add, hbytes] at h
  obtain ⟨hhead, hsent, hcrc', -⟩ := h
  -- the checksum is over everything behind the head flag
  have hdata : m.Holds 1 ((bigHead key user body).fields ++ sentBody key user body) := by
    rw [Mem.holds_append, hfields]
    rw [JttHead.bytes, Mem.holds_cons] at hhead
    exact ⟨hhead.2, hsent⟩
  have hkey : m 18 = user.encrypt ∧ m.Holds 19 (beBytes 4 key.toNat) := by
    obtain ⟨pre, hpre, hsplit⟩ := (bigHead key user body).fields_split
    rw [JttHead.bytes, Mem.holds_cons, hsplit, Mem.holds_append, Mem.holds_cons, hpre] at hhead
    exact hhead.2.2
  refine ⟨?_, hkey.1, ?_, hhead, hsent⟩
  · unfold Mem.Holds at hdata hcrc'
    rw [length_append, hfields, hbody] at hdata
    rw [hbody, hlen] at hcrc'
    rw [show body.data.length + 22 = 22 + body.data.length by omega, hdata,
      show ((body.data.length : Int) + 23) = ((23 : Nat) : Int) + body.data.length by
        push_cast; ring,
      hcrc', hcrc]
  · have hload := hkey.2
    unfold Mem.Holds at hload
    rw [beBytes_length] at hload
    rw [hload, beVal_key]

theorem decrypt_package {m : Mem} (hhead : m.Holds 0 (bigHead key user body).bytes)
    (hsent : m.Holds 23 (sentBody key user body)) :
    (if user.encrypt = 1 then
      m.store JTT_HEAD_SIZE (secDecrypt key (m.load JTT_HEAD_SIZE body.data.length))
    else m).Holds 0 ((bigHead key user body).bytes ++ body.data) := by
  have hbytes : (bigHead key user body).bytes.length = 23 := by
    rw [JttHead.bytes, length_cons, JttHead.fields_length]
  rw [Mem.holds_append, hbytes]
  unfold sentBody at hsent
  split
  · next hone =>
    rw [if_pos hone] at hsent
    unfold Mem.Holds at hsent
    rw [secEncrypt_length] at hsent
    have hplain : secDecrypt key (m.load JTT_HEAD_SIZE body.data.length) = body.data := by
      rw [show m.load JTT_HEAD_SIZE body.data.length = _ from hsent, secDecrypt_secEncrypt]
    rw [hplain]
    exact ⟨hhead.store (by rw [hbytes]; exact le_rfl), Mem.holds_store _ _ _⟩
  · next hone =>
    rw [if_neg hone] at hsent
    exact ⟨hhead, hsent⟩

/-- **A package on the wire is decoded**, by everyone with the same flags. -/
theorem pkgDecode_frame {u : PkgUser} {m : Mem} (hhf : u.headFlag = user.headFlag)
    (hef : u.endFlag = user.endFlag) (h : m.Holds 0 (frame key user body)) :
    ∃ out, pkgDecode u m (frame key user body).length =
        (0, out, ((JTT_HEAD_SIZE + body.data.length + 3 : Nat) : Int)) ∧
      out.Holds 0 ((bigHead key user body).bytes ++ body.data) := by
  have hflags : m 0 = user.headFlag ∧ m ((frame key user body).length - 1) = user.endFlag := by
    have hframe := h
    unfold frame at hframe
    rw [Mem.holds_append, Mem.holds_cons, length_cons, Mem.holds_cons] at hframe
    rw [frame_end]
    exact ⟨hframe.1.1, hframe.2.1⟩
  obtain ⟨m₁, hrun, hend, hholds⟩ := unescape_frame h
  have hlen := tmpPkg_length key user body
  -- the end flag moves behind the CRC
  have hpackage : (m₁.store (1 + (tmpPkg key user body).length) [user.endFlag]).Holds 0
      (user.headFlag :: tmpPkg key user body ++ [user.endFlag]) := by
    rw [Mem.holds_append, length_cons]
    have haddr : (0 : Int) + (((tmpPkg key user body).length + 1 : Nat) : Int) =
        1 + (tmpPkg key user body).length := by
      push_cast
      ring
    rw [haddr]
    refine ⟨hholds.store ?_, Mem.holds_store _ _ _⟩
    rw [length_cons]
    omega
  obtain ⟨hcrc, hencrypt, hkey, hhead, hsent⟩ := holds_package hpackage
  have hresult := decrypt_package hhead hsent
  have hblt := body.blen_lt
  -- from here on the lengths are just numbers
  generalize ((frame key user body).length : Int) = n at hflags hrun hend ⊢
  generalize (tmpPkg key user body).length = t at hrun hlen hcrc hencrypt hkey hresult
  have hcheck : ¬((m 0).toNat ≠ charVal u.headFlag ∨ (m (n - 1)).toNat ≠ charVal u.endFlag) := by
    rw [hhf, hef, charVal_ascii user.head_ascii, charVal_ascii user.end_ascii, hflags.1, hflags.2]
    simp
  have hlen3 : 1 + (t : Int) + 1 - 3 = body.data.length + 23 := by omega
  have hlen4 : (1 + (t : Int) + 1 - 4).toNat = body.data.length + 22 := by omega
  have hall : 1 + (t : Int) + 1 = ((JTT_HEAD_SIZE + body.data.length + 3 : Nat) : Int) := by
    unfold JTT_HEAD_SIZE
    omega
  have hblen : ((1 + (t : Int) + 1 - JTT_HEAD_SIZE - 3) % 2 ^ 32).toNat = body.data.length := by
    omega
  unfold pkgDecode
  rw [if_neg hcheck, hrun]
  simp only [hend, hlen3, hlen4, hcrc, ne_eq, not_true_eq_false, if_false, hencrypt, hkey, hblen]
  rw [hall]
  split
  · next hone =>
    rw [if_pos hone] at hresult
    exact ⟨_, rfl, hresult⟩
  · next hone =>
    rw [if_neg hone] at hresult
    exact ⟨_, rfl, hresult⟩

/-- A user whose numbers are full of delimiters, with encryption. -/
def delimiterUser : PkgUser where
  encrypt := 1
  msgEnterid := 0x5B5D5A5E
  msgSz := 0x5B
  headFlag := 0x5B
  endFlag := 0x5D
  version := (1, 2, 15)
  head_ascii := by decide
  end_ascii := by decide

def delimiterBody : PkgBody := ⟨0x1200, [0x5B, 0x5D, 0x5A], by decide⟩

end Supex.Jtt
