import Supex.Jtt.Package
import Supex.Lib.Access

/-!
# releaseServer — the decoder on arbitrary input

`pkg_decode` is handed what came from the peer. It looks at the two flags,
unescapes what is between them in place, and from then on takes its lengths from
the unescaped length `len`: `len - 4` bytes are checked, the checksum stands at
`len - 3`, and `len - 26` bytes are decrypted. Nothing looks whether `len` is as
large.

* `pkgDecode_frame_outside` — the decoder changes nothing but what it touches.

Main result: `decode_safe_iff`.
-/

namespace Supex.Jtt

open Supex.Lib
open List hiding Mem

/-- What `unescape` makes of a byte string behind which `e` stands. -/
def unescaped (e : UInt8) : Bytes → Bytes
  | [] => []
  | [b] => if b = 0x5A then [unescape5A e] else if b = 0x5E then [unescape5E e] else [b]
  | b :: c :: bs =>
    if b = 0x5A then unescape5A c :: unescaped e bs
    else if b = 0x5E then unescape5E c :: unescaped e bs
    else b :: unescaped e (c :: bs)

/-- The last byte of the string begins an escape. -/
def cutEscape : Bytes → Bool
  | [] => false
  | [b] => b = 0x5A ∨ b = 0x5E
  | b :: c :: bs => if b = 0x5A ∨ b = 0x5E then cutEscape bs else cutEscape (c :: bs)

--
-- What is touched
--

/-- What `unescape` reads and writes, as `unescapeLoop` goes. -/
def unescapeSpans (dst src slen : Int) : Nat → Mem → Int → Int → List Span
  | 0, _, _, _ => []
  | fuel + 1, m, i, dlen =>
    if i < slen then
      if m (src + i) = 0x5A then
        [⟨src + i, 1⟩, ⟨src + i + 1, 1⟩, ⟨dst + dlen, 1⟩] ++
          unescapeSpans dst src slen fuel
            (m.store (dst + dlen) [unescape5A (m (src + i + 1))]) (i + 2) (dlen + 1)
      else if m (src + i) = 0x5E then
        [⟨src + i, 1⟩, ⟨src + i + 1, 1⟩, ⟨dst + dlen, 1⟩] ++
          unescapeSpans dst src slen fuel
            (m.store (dst + dlen) [unescape5E (m (src + i + 1))]) (i + 2) (dlen + 1)
      else
        [⟨src + i, 1⟩, ⟨dst + dlen, 1⟩] ++
          unescapeSpans dst src slen fuel (m.store (dst + dlen) [m (src + i)]) (i + 1) (dlen + 1)
    else []

/-- `pkg` behind the end flag's move, and `len`. -/
def decodeMoved (pkg : Mem) (pkgLen : Int) : Mem × Int :=
  let r := unescape pkg 1 1 (pkgLen - 2)
  (r.1.store (1 + r.2) [r.1 (pkgLen - 1)], 1 + r.2 + 1)

/-- The two flags are not those of `user`. -/
def FlagsDiffer (user : PkgUser) (pkg : Mem) (pkgLen : Int) : Prop :=
  (pkg 0).toNat ≠ charVal user.headFlag ∨ (pkg (pkgLen - 1)).toNat ≠ charVal user.endFlag

instance (user : PkgUser) (pkg : Mem) (pkgLen : Int) : Decidable (FlagsDiffer user pkg pkgLen) :=
  inferInstanceAs (Decidable (_ ∨ _))

/-- The checksum over the `len` bytes of `pkg` is not the one that stands there. -/
def CrcDiffers (pkg : Mem) (len : Int) : Prop :=
  crcGet (pkg.load 1 (len - 4).toNat) ≠ UInt16.ofNat (beVal (pkg.load (len - 3) 2))

instance (pkg : Mem) (len : Int) : Decidable (CrcDiffers pkg len) :=
  inferInstanceAs (Decidable (_ ≠ _))

/-- The `len` of `sec_encrypt`'s loop: the `int` it is handed, compared with an
unsigned number. -/
def decryptLen (len : Int) : Nat := ((len - JTT_HEAD_SIZE - 3) % 2 ^ 32).toNat

/-- What `pkg_decode` reads and writes of `pkg`, in the order of the source. -/
def decodeSpans (user : PkgUser) (pkg : Mem) (pkgLen : Int) : List Span :=
  [⟨0, 1⟩, ⟨pkgLen - 1, 1⟩] ++
    if FlagsDiffer user pkg pkgLen then []
    else
      let len := (decodeMoved pkg pkgLen).2
      let moved := (decodeMoved pkg pkgLen).1
      unescapeSpans 1 1 (pkgLen - 2) (pkgLen - 2).toNat pkg 0 0 ++
        [⟨pkgLen - 1, 1⟩, ⟨len - 1, 1⟩, ⟨1, len - 4⟩, ⟨len - 3, 2⟩] ++
        if CrcDiffers moved len then []
        else ⟨18, 1⟩ :: if moved 18 = 1 then [⟨19, 4⟩, ⟨JTT_HEAD_SIZE, decryptLen len⟩] else []

/-- The lengths `pkg_decode` hands to `crc_get` and `sec_decrypt`. -/
def decodeLengths (user : PkgUser) (pkg : Mem) (pkgLen : Int) : List Int :=
  if FlagsDiffer user pkg pkgLen then []
  else
    let len := (decodeMoved pkg pkgLen).2
    let moved := (decodeMoved pkg pkgLen).1
    (len - 4) :: if CrcDiffers moved len then []
      else if moved 18 = 1 then [wrap32 (len - JTT_HEAD_SIZE - 3)] else []

--
-- The input
--

/-- What came from the peer: at least one byte, and no more than `*pkg_len`
counts. -/
structure Received where
  first : UInt8
  rest : Bytes
  length_lt : rest.length + 1 < 2 ^ 31

/-- The bytes. -/
def Received.bytes (r : Received) : Bytes := r.first :: r.rest

/-- What stands between the first and the last byte. -/
def Received.inner (r : Received) : Bytes := r.rest.dropLast

/-- The last byte. -/
def Received.last (r : Received) : UInt8 := r.rest.getLast?.getD r.first

/-- The bytes between the flags, unescaped. -/
def Received.content (r : Received) : Bytes := unescaped r.last r.inner

/-- The flags are those of `user`. -/
def Received.Flagged (user : PkgUser) (r : Received) : Prop :=
  r.first = user.headFlag ∧ r.last = user.endFlag

instance (user : PkgUser) (r : Received) : Decidable (r.Flagged user) :=
  inferInstanceAs (Decidable (_ ∧ _))

/-- The checksum at the end of the content is the one of what is before it. -/
def Received.CrcOk (r : Received) : Prop :=
  crcGet (r.content.take (r.content.length - 2)) =
    UInt16.ofNat (beVal (r.content.drop (r.content.length - 2)))

/-- A package: the flags, whole escapes between them, and room for the head, the
checksum and the end flag. -/
structure CompletePackage (user : PkgUser) (r : Received) : Prop where
  flagged : r.Flagged user
  whole : cutEscape r.inner = false
  room : JTT_HEAD_SIZE + 3 ≤ r.content.length + 2

/-- The decoder is safe on an input that stands in `pkg`: it touches only the
input's bytes, hands on no negative length, and refuses what is no package. -/
structure DecodeSafe (user : PkgUser) (pkg : Mem) (r : Received) : Prop where
  inside : ∀ s ∈ decodeSpans user pkg r.bytes.length, s.Within 0 r.bytes.length
  lengths : ∀ n ∈ decodeLengths user pkg r.bytes.length, 0 ≤ n
  refused : ¬CompletePackage user r → (pkgDecode user pkg r.bytes.length).1 = -1

--
-- The decoder in stages
--

theorem pkgDecode_eq (user : PkgUser) (pkg : Mem) (pkgLen : Int) :
    pkgDecode user pkg pkgLen =
      if FlagsDiffer user pkg pkgLen then (-1, pkg, pkgLen)
      else
        let len := (decodeMoved pkg pkgLen).2
        let moved := (decodeMoved pkg pkgLen).1
        if CrcDiffers moved len then (-1, moved, len)
        else if moved 18 = 1 then
          (0, moved.store JTT_HEAD_SIZE (secDecrypt (UInt32.ofNat (beVal (moved.load 19 4)))
            (moved.load JTT_HEAD_SIZE (decryptLen len))), len)
        else (0, moved, len) := rfl

theorem unescapeLoop_outside (dst src slen : Int) (fuel : Nat) (m : Mem) (i dlen j : Int)
    (h : ∀ s ∈ unescapeSpans dst src slen fuel m i dlen, ¬s.Covers j) :
    (unescapeLoop dst src slen fuel m i dlen).1 j = m j := by
  have hstore : ∀ (m : Mem) (dlen : Int) (b : UInt8), ¬(⟨dst + dlen, 1⟩ : Span).Covers j →
      m.store (dst + dlen) [b] j = m j := fun m dlen b hj => by
    exact if_neg hj
  induction fuel generalizing m i dlen with
  | zero => rfl
  | succ fuel ih =>
    rw [unescapeSpans] at h
    rw [unescapeLoop]
    split_ifs at h ⊢ with hlt h5A h5E
    · rw [ih _ _ _ fun s hs => h s (mem_append_right _ hs)]
      exact hstore m dlen _ (h _ (mem_append_left _ (by simp)))
    · rw [ih _ _ _ fun s hs => h s (mem_append_right _ hs)]
      exact hstore m dlen _ (h _ (mem_append_left _ (by simp)))
    · rw [ih _ _ _ fun s hs => h s (mem_append_right _ hs)]
      exact hstore m dlen _ (h _ (mem_append_left _ (by simp)))
    · rfl

/-- What a run of the loop from `dlen` on makes: `out`, and nothing is touched
but the bytes from there to the end flag. -/
structure InPlace (a slen dlen : Int) (m : Mem) (out : Bytes) (r : Mem × Int)
    (spans : List Span) : Prop where
  len : r.2 = dlen + out.length
  holds : r.1.Holds (a + dlen) out
  same : SameOutside (a + dlen) (a + slen) m r.1
  within : ∀ s ∈ spans, s.Within (a + dlen) (a + slen + 1)

theorem InPlace.nil (a slen dlen : Int) (m : Mem) : InPlace a slen dlen m [] (m, dlen) [] where
  len := (Int.add_zero dlen).symm
  holds := Mem.holds_nil _ _
  same _ _ := rfl
  within := nofun

theorem InPlace.cons {a slen dlen : Int} {m : Mem} {b : UInt8} {out : Bytes} {r : Mem × Int}
    {pre spans : List Span}
    (h : InPlace a slen (dlen + 1) (m.store (a + dlen) [b]) out r spans) (hlt : dlen < slen)
    (hpre : ∀ s ∈ pre, s.Within (a + dlen) (a + slen + 1)) :
    InPlace a slen dlen m (b :: out) r (pre ++ spans) where
  len := by
    rw [h.len, length_cons]
    push_cast
    ring
  holds := by
    rw [Mem.holds_cons, h.same _ (.inl (by omega)), Int.add_assoc]
    exact ⟨(Mem.holds_cons.mp (Mem.holds_store m (a + dlen) [b])).1, h.holds⟩
  same j hj := by
    rw [h.same j (by omega)]
    unfold Mem.store
    rw [if_neg]
    simp only [length_singleton]
    omega
  within s hs := by
    rcases mem_append.mp hs with hs | hs
    · exact hpre s hs
    · exact (h.within s hs).mono (by omega) le_rfl

theorem unescapeLoop_done (dst src slen : Int) (fuel : Nat) (m : Mem) (i dlen : Int)
    (h : slen ≤ i) :
    unescapeLoop dst src slen fuel m i dlen = (m, dlen) ∧
      unescapeSpans dst src slen fuel m i dlen = [] := by
  cases fuel with
  | zero => exact ⟨rfl, rfl⟩
  | succ fuel =>
    rw [unescapeLoop, unescapeSpans, if_neg (by omega), if_neg (by omega)]
    exact ⟨rfl, rfl⟩

theorem turn_within {a slen i dlen : Int} (hdlen : dlen ≤ i) (hi : i < slen) :
    (∀ s ∈ [(⟨a + i, 1⟩ : Span), ⟨a + i + 1, 1⟩, ⟨a + dlen, 1⟩],
        s.Within (a + dlen) (a + slen + 1)) ∧
      ∀ s ∈ [(⟨a + i, 1⟩ : Span), ⟨a + dlen, 1⟩], s.Within (a + dlen) (a + slen + 1) := by
  have hread : (⟨a + i, 1⟩ : Span).Within (a + dlen) (a + slen + 1) :=
    Span.within_one.mpr ⟨by omega, by omega⟩
  have hnext : (⟨a + i + 1, 1⟩ : Span).Within (a + dlen) (a + slen + 1) :=
    Span.within_one.mpr ⟨by omega, by omega⟩
  have hwrite : (⟨a + dlen, 1⟩ : Span).Within (a + dlen) (a + slen + 1) :=
    Span.within_one.mpr ⟨by omega, by omega⟩
  constructor
  · simp only [mem_cons, not_mem_nil, or_false]
    rintro s (rfl | rfl | rfl)
    · exact hread
    · exact hnext
    · exact hwrite
  · simp only [mem_cons, not_mem_nil, or_false]
    rintro s (rfl | rfl)
    · exact hread
    · exact hwrite

theorem holds_ahead {a i dlen : Int} {m : Mem} {n : Int} {b : UInt8} {xs : Bytes}
    (hdlen : dlen ≤ i) (hn : 1 ≤ n) (h : m.Holds (a + i + n) xs) :
    (m.store (a + dlen) [b]).Holds (a + (i + n)) xs := by
  rw [← Int.add_assoc]
  exact h.congr fun j hlo _ => by
    unfold Mem.store
    rw [if_neg]
    simp only [length_singleton]
    omega

/-- **The loop in place**, on any bytes and the end flag behind them. -/
theorem unescapeLoop_inPlace (a : Int) {slen : Int} (e : UInt8) (bs : Bytes) (i dlen : Int)
    (fuel : Nat) {m : Mem} (hdlen : dlen ≤ i) (hslen : slen = i + bs.length)
    (hfuel : bs.length ≤ fuel) (h : m.Holds (a + i) (bs ++ [e])) :
    InPlace a slen dlen m (unescaped e bs) (unescapeLoop a a slen fuel m i dlen)
      (unescapeSpans a a slen fuel m i dlen) := by
  induction fuel generalizing bs i dlen m with
  | zero =>
    obtain rfl := length_eq_zero_iff.mp (Nat.le_zero.mp hfuel)
    exact InPlace.nil a slen dlen m
  | succ fuel ih =>
    rcases bs with _ | ⟨b, bs⟩
    · rw [length_nil, Int.natCast_zero, Int.add_zero] at hslen
      obtain ⟨hloop, hspans⟩ := unescapeLoop_done a a slen (fuel + 1) m i dlen (by omega)
      rw [hloop, hspans, unescaped]
      exact InPlace.nil a slen dlen m
    rw [length_cons] at hslen hfuel
    rw [cons_append, Mem.holds_cons] at h
    obtain ⟨hb, hbs⟩ := h
    have hlt : i < slen := by omega
    obtain ⟨htwo, hone⟩ := turn_within (a := a) hdlen hlt
    rw [unescapeLoop, unescapeSpans, if_pos hlt, if_pos hlt, hb]
    rcases bs with _ | ⟨c, bs⟩
    · -- the last byte: the second byte of an escape is the end flag
      rw [nil_append, Mem.holds_cons] at hbs
      rw [length_nil] at hslen
      rw [unescaped, hbs.1]
      split_ifs
      · obtain ⟨hloop, hspans⟩ := unescapeLoop_done a a slen fuel
          (m.store (a + dlen) [unescape5A e]) (i + 2) (dlen + 1) (by omega)
        rw [hloop, hspans]
        exact (InPlace.nil a slen (dlen + 1) _).cons (by omega) htwo
      · obtain ⟨hloop, hspans⟩ := unescapeLoop_done a a slen fuel
          (m.store (a + dlen) [unescape5E e]) (i + 2) (dlen + 1) (by omega)
        rw [hloop, hspans]
        exact (InPlace.nil a slen (dlen + 1) _).cons (by omega) htwo
      · obtain ⟨hloop, hspans⟩ := unescapeLoop_done a a slen fuel
          (m.store (a + dlen) [b]) (i + 1) (dlen + 1) (by omega)
        rw [hloop, hspans]
        exact (InPlace.nil a slen (dlen + 1) _).cons (by omega) hone
    · have hc := (Mem.holds_cons.mp hbs).1
      have hrest : m.Holds (a + i + 2) (bs ++ [e]) := by
        have := (Mem.holds_cons.mp hbs).2
        rwa [Int.add_assoc (a + i)] at this
      rw [length_cons] at hslen hfuel
      rw [unescaped, hc]
      split_ifs
      · exact (ih bs (i + 2) (dlen + 1) (by omega) (by push_cast at hslen; omega) (by omega)
          (holds_ahead hdlen (by decide) hrest)).cons (by omega) htwo
      · exact (ih bs (i + 2) (dlen + 1) (by omega) (by push_cast at hslen; omega) (by omega)
          (holds_ahead hdlen (by decide) hrest)).cons (by omega) htwo
      · exact (ih (c :: bs) (i + 1) (dlen + 1) (by omega)
          (by rw [length_cons]; push_cast at hslen ⊢; omega)
          (by rw [length_cons]; omega)
          (holds_ahead hdlen (by decide) hbs)).cons (by omega) hone

--
-- The decoder on an input
--

variable {user : PkgUser} {pkg : Mem} {r : Received}

theorem Received.shape (r : Received) :
    r.rest = [] ∧ r.inner = [] ∧ r.last = r.first ∨
      r.rest = r.inner ++ [r.last] ∧ r.bytes.length = r.inner.length + 2 := by
  rcases eq_nil_or_concat r.rest with h | ⟨xs, x, h⟩
  · left
    unfold Received.inner Received.last
    rw [h]
    exact ⟨rfl, rfl, rfl⟩
  · right
    rw [concat_eq_append] at h
    unfold Received.bytes Received.inner Received.last
    rw [h, dropLast_concat, getLast?_concat, length_cons, length_append,
      length_singleton]
    exact ⟨rfl, rfl⟩

theorem Received.ends (h : pkg.Holds 0 r.bytes) :
    pkg 0 = r.first ∧ pkg ((r.bytes.length : Int) - 1) = r.last := by
  have hfirst := (Mem.holds_cons.mp h).1
  refine ⟨hfirst, ?_⟩
  rcases r.shape with ⟨hrest, -, hlast⟩ | ⟨hrest, hlen⟩
  · unfold Received.bytes
    rw [hrest, hlast]
    exact hfirst
  · have htail := (Mem.holds_cons.mp h).2
    rw [hrest, Mem.holds_append, Mem.holds_cons] at htail
    rw [hlen, ← htail.2.1]
    congr 1
    push_cast
    ring

theorem flagsDiffer_iff (h : pkg.Holds 0 r.bytes) :
    FlagsDiffer user pkg r.bytes.length ↔ ¬r.Flagged user := by
  obtain ⟨hfirst, hlast⟩ := r.ends h
  unfold FlagsDiffer Received.Flagged
  rw [hfirst, hlast, charVal_ascii user.head_ascii, charVal_ascii user.end_ascii]
  simp only [Nat.cast_inj, UInt8.toNat_inj, ne_eq]
  rw [← not_and_or]

/-- The decoder behind `unescape`: the content stands in the buffer, `len` is its
length with the flags, and only the input was touched. -/
theorem decodeMoved_spec (h : pkg.Holds 0 r.bytes) :
    (decodeMoved pkg r.bytes.length).2 = r.content.length + 2 ∧
      (decodeMoved pkg r.bytes.length).1.Holds 1 r.content ∧
      ∀ s ∈ unescapeSpans 1 1 ((r.bytes.length : Int) - 2) ((r.bytes.length : Int) - 2).toNat
        pkg 0 0, s.Within 0 r.bytes.length := by
  have hplace : InPlace 1 ((r.bytes.length : Int) - 2) 0 pkg r.content
      (unescape pkg 1 1 ((r.bytes.length : Int) - 2))
      (unescapeSpans 1 1 ((r.bytes.length : Int) - 2) ((r.bytes.length : Int) - 2).toNat
        pkg 0 0) := by
    unfold Received.content unescape
    rcases r.shape with ⟨hrest, hinner, -⟩ | ⟨hrest, hlen⟩
    · unfold Received.bytes
      rw [hrest, hinner, unescaped]
      exact InPlace.nil _ _ _ _
    · have hslen : (r.bytes.length : Int) - 2 = 0 + r.inner.length := by omega
      have hbytes := (Mem.holds_cons.mp h).2
      rw [hrest] at hbytes
      exact unescapeLoop_inPlace 1 r.last r.inner 0 0 _ le_rfl hslen (by omega) hbytes
  refine ⟨?_, ?_, fun s hs => (hplace.within s hs).mono (by decide) (by omega)⟩
  · unfold decodeMoved
    dsimp only
    rw [hplace.len]
    ring
  · unfold decodeMoved
    exact hplace.holds.store (by rw [hplace.len]; omega)

theorem crcDiffers_iff {m : Mem} (h : m.Holds 1 r.content) (hlen : 2 ≤ r.content.length) :
    CrcDiffers m (r.content.length + 2) ↔ ¬r.CrcOk := by
  have hsplit := take_append_drop (r.content.length - 2) r.content
  rw [← hsplit, Mem.holds_append, length_take, Nat.min_eq_left (Nat.sub_le _ _)] at h
  unfold Mem.Holds at h
  rw [length_take, length_drop, Nat.min_eq_left (Nat.sub_le _ _),
    Nat.sub_sub_self hlen] at h
  have hdata : ((r.content.length : Int) + 2 - 4).toNat = r.content.length - 2 := by omega
  have hcrc : (r.content.length : Int) + 2 - 3 = 1 + ((r.content.length - 2 : Nat) : Int) := by
    omega
  unfold CrcDiffers Received.CrcOk
  rw [hdata, hcrc, h.1, h.2]

theorem unescaped_length_le (e : UInt8) (bs : Bytes) : (unescaped e bs).length ≤ bs.length := by
  fun_induction unescaped e bs <;> simp only [length_cons, length_nil] at * <;> omega

theorem content_length_le (h : 1 ≤ r.content.length) :
    r.content.length + 2 ≤ r.bytes.length := by
  have hle := unescaped_length_le r.last r.inner
  unfold Received.content at h ⊢
  rcases r.shape with ⟨-, hinner, -⟩ | ⟨-, hlen⟩
  · rw [hinner, unescaped] at h
    exact absurd h (by decide)
  · omega

theorem decodeLengths_flagged (h : pkg.Holds 0 r.bytes) (hflagged : r.Flagged user) :
    decodeLengths user pkg r.bytes.length =
      ((r.content.length : Int) - 2) ::
        if CrcDiffers (decodeMoved pkg r.bytes.length).1 (r.content.length + 2) then []
        else if (decodeMoved pkg r.bytes.length).1 18 = 1 then
          [wrap32 ((r.content.length : Int) - 24)] else [] := by
  obtain ⟨hlen, -, -⟩ := decodeMoved_spec h
  unfold decodeLengths
  rw [if_neg (by rw [flagsDiffer_iff h]; exact not_not_intro hflagged), hlen]
  dsimp only
  have hcheck : (r.content.length : Int) + 2 - 4 = r.content.length - 2 := by ring
  have hbody : (r.content.length : Int) + 2 - JTT_HEAD_SIZE - 3 = r.content.length - 24 := by
    unfold JTT_HEAD_SIZE
    ring
  rw [hcheck, hbody]

theorem pkgDecode_code (h : pkg.Holds 0 r.bytes) :
    (pkgDecode user pkg r.bytes.length).1 =
      if ¬r.Flagged user ∨ CrcDiffers (decodeMoved pkg r.bytes.length).1 (r.content.length + 2)
      then -1 else 0 := by
  obtain ⟨hlen, -, -⟩ := decodeMoved_spec h
  rw [pkgDecode_eq, hlen]
  by_cases hflagged : r.Flagged user
  · rw [if_neg (by rw [flagsDiffer_iff h]; exact not_not_intro hflagged)]
    by_cases hcrc : CrcDiffers (decodeMoved pkg r.bytes.length).1 (r.content.length + 2)
    · rw [if_pos hcrc, if_pos (.inr hcrc)]
    · have hneither : ¬(¬r.Flagged user ∨
          CrcDiffers (decodeMoved pkg r.bytes.length).1 (r.content.length + 2)) :=
        not_or_intro (not_not_intro hflagged) hcrc
      rw [if_neg hcrc, if_neg hneither]
      split <;> rfl
  · rw [if_pos ((flagsDiffer_iff h).mpr hflagged), if_pos (.inl hflagged)]

/-- With room for the check, and for a whole package behind a right checksum, only
the input is touched. -/
theorem decodeSpans_within (h : pkg.Holds 0 r.bytes) (hcheck : 2 ≤ r.content.length)
    (hroom : CrcDiffers (decodeMoved pkg r.bytes.length).1 (r.content.length + 2) ∨
      JTT_HEAD_SIZE + 3 ≤ r.content.length + 2)
    (hsmall : r.content.length < 2 ^ 31) :
    ∀ s ∈ decodeSpans user pkg r.bytes.length, s.Within 0 r.bytes.length := by
  have hle := content_length_le (r := r) (by omega)
  obtain ⟨hlen, -, hspans⟩ := decodeMoved_spec h
  unfold decodeSpans
  rw [hlen]
  refine forall_mem_append.mpr ⟨?_, ?_⟩
  · exact forall_mem_cons.mpr ⟨Span.within_one.mpr (by omega),
      forall_mem_singleton.mpr (Span.within_one.mpr (by omega))⟩
  · split
    · nofun
    · refine forall_mem_append.mpr ⟨forall_mem_append.mpr ⟨hspans, ?_⟩, ?_⟩
      · simp only [forall_mem_cons, not_mem_nil, false_imp_iff, implies_true, and_true]
        refine ⟨Span.within_one.mpr (by omega), Span.within_one.mpr (by omega), fun _ => ?_,
          fun _ => ?_⟩
        · dsimp only
          omega
        · dsimp only
          omega
      · split
        · nofun
        · next hcrc =>
          have hbody := hroom.resolve_left hcrc
          have hhead : (JTT_HEAD_SIZE : Nat) = 23 := rfl
          have hdecrypt : decryptLen (r.content.length + 2) = r.content.length - 24 := by
            unfold decryptLen
            omega
          refine forall_mem_cons.mpr ⟨Span.within_one.mpr (by omega), ?_⟩
          split
          · rw [hdecrypt]
            refine forall_mem_cons.mpr ⟨fun _ => ?_,
              forall_mem_singleton.mpr fun _ => ?_⟩
            · dsimp only
              omega
            · dsimp only
              omega
          · nofun

/-- **The decoder on arbitrary input.** It is safe exactly when it refuses the
input for its flags, or there is room for the lengths of the check and the
checksum is wrong, or the input is a whole package. -/
theorem decode_safe_iff (user : PkgUser) (pkg : Mem) (r : Received)
    (h : pkg.Holds 0 r.bytes) :
    DecodeSafe user pkg r ↔
      ¬r.Flagged user ∨ (2 ≤ r.content.length ∧ ¬r.CrcOk) ∨
        (JTT_HEAD_SIZE + 3 ≤ r.content.length + 2 ∧ cutEscape r.inner = false) := by
  have hint : r.bytes.length < 2 ^ 31 := r.length_lt
  obtain ⟨-, hholds, -⟩ := decodeMoved_spec h
  have hcode : (pkgDecode user pkg r.bytes.length).1 = _ := pkgDecode_code h
  constructor
  · rintro ⟨-, hlengths, hrefused⟩
    by_cases hflagged : r.Flagged user
    · right
      rw [decodeLengths_flagged h hflagged] at hlengths
      have hcheck : 2 ≤ r.content.length := by
        have := hlengths _ (.head _)
        omega
      by_cases hcrc : r.CrcOk
      · -- the input is taken for a package
        right
        have hzero : ¬(¬r.Flagged user ∨
            CrcDiffers (decodeMoved pkg r.bytes.length).1 (r.content.length + 2)) := by
          rw [crcDiffers_iff hholds hcheck]
          exact not_or_intro (not_not_intro hflagged) (not_not_intro hcrc)
        rw [if_neg hzero] at hcode
        by_contra hpackage
        have hminus := hrefused fun hc => hpackage ⟨hc.room, hc.whole⟩
        rw [hcode] at hminus
        exact absurd hminus (by decide)
      · exact .inl ⟨hcheck, hcrc⟩
    · exact .inl hflagged
  · intro hcond
    by_cases hflagged : r.Flagged user
    · have hcond := hcond.resolve_left (not_not_intro hflagged)
      have hhead : (JTT_HEAD_SIZE : Nat) = 23 := rfl
      have hcheck : 2 ≤ r.content.length := by
        rcases hcond with ⟨hc, -⟩ | ⟨hc, -⟩ <;> omega
      have hle := content_length_le (r := r) (by omega)
      have hroom : CrcDiffers (decodeMoved pkg r.bytes.length).1 (r.content.length + 2) ∨
          JTT_HEAD_SIZE + 3 ≤ r.content.length + 2 := by
        rw [crcDiffers_iff hholds hcheck]
        exact hcond.imp And.right And.left
      refine ⟨decodeSpans_within h hcheck hroom (by omega), fun n hn => ?_, fun hno => ?_⟩
      · rw [decodeLengths_flagged h hflagged] at hn
        rcases mem_cons.mp hn with rfl | hn
        · omega
        · split_ifs at hn with hcrc hone
          · cases hn
          · rw [mem_singleton.mp hn, wrap32_of_range (by omega) (by omega)]
            have := hroom.resolve_left hcrc
            omega
          · cases hn
      · rw [hcode, if_pos]
        rw [crcDiffers_iff hholds hcheck]
        refine .inr ?_
        rcases hcond with ⟨-, hcrc⟩ | ⟨hr, hw⟩
        · exact hcrc
        · exact absurd ⟨hflagged, hw, hr⟩ hno
    · have hdiffer := (flagsDiffer_iff h).mpr hflagged
      refine ⟨?_, ?_, fun _ => ?_⟩
      · unfold decodeSpans
        rw [if_pos hdiffer, append_nil]
        have hpos : (1 : Int) ≤ r.bytes.length := by
          unfold Received.bytes
          rw [length_cons]
          omega
        exact forall_mem_cons.mpr ⟨Span.within_one.mpr (by omega),
          forall_mem_singleton.mpr (Span.within_one.mpr (by omega))⟩
      · unfold decodeLengths
        rw [if_pos hdiffer]
        nofun
      · rw [hcode, if_pos (.inl hflagged)]

/-- Something else than a package. -/
theorem decode_safe_iff_garbage :
    DecodeSafe delimiterUser (Mem.store (fun _ => 0) 0 [0x01, 0x5A]) ⟨0x01, [0x5A], by decide⟩ :=
  (decode_safe_iff delimiterUser (Mem.store (fun _ => 0) 0 [0x01, 0x5A]) ⟨0x01, [0x5A], by decide⟩
    (Mem.holds_store _ _ _)).mpr (.inl (by unfold Received.Flagged; decide))

/-- The two flags and nothing between them: `crc_get` is handed the length `-2`,
and the checksum is read from in front of the buffer. -/
theorem decode_before_start :
    ¬∀ (user : PkgUser) (pkg : Mem) (r : Received), pkg.Holds 0 r.bytes →
      DecodeSafe user pkg r := by
  intro h
  have hbad := (h delimiterUser (Mem.store (fun _ => 0) 0 [0x5B, 0x5D]) ⟨0x5B, [0x5D], by decide⟩
    (Mem.holds_store _ _ _)).inside ⟨-1, 2⟩ (by decide)
  revert hbad
  decide

end Supex.Jtt
