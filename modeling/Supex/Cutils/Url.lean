import Supex.Lib.Percent

/-!
# cutils: the URL codec

`url_encode` writes the listed characters and everything above `0x7f` as `%` and two
digits; `url_decode` takes the two characters behind every `%`, without looking whether
the string ends there.

A `char` is a byte; `toupper` leaves what is no small letter alone. What is read behind
the NUL of the input has no value.

Main result: `codec_iff`.
-/

namespace Supex.Cutils

open Option List

open Lib (percent hexDigit escape)

def toupper (ch : UInt8) : UInt8 := if 97 ≤ ch ∧ ch ≤ 122 then ch - 32 else ch

def charToNum (ch : UInt8) : UInt8 :=
  if 48 ≤ ch ∧ ch ≤ 57 then ch - 48 else toupper ch - 65 + 10

/-- The `case`s of `url_encode`. -/
def special : Bytes := ascii "@#$%^&+|\x7d\x7b\":?><[]\\';/, `\r\n"

/-- `url_encode`, of a string without its NUL. -/
def urlEncode (src : Bytes) : Bytes :=
  src.flatMap fun q => if q ∈ special ∨ 0x7f < q then escape 65 q else [q]

/-- The loop of `url_decode`: `p` and what can be read behind it, up to the NUL. -/
def decodeLoop : Bytes → Option Bytes
  | [] => none
  | 0 :: _ => some []
  | 37 :: p₁ :: p₂ :: rest =>
    (decodeLoop rest).map (((charToNum p₁ <<< 4) ||| charToNum p₂) :: ·)
  | p :: rest => if p = percent then none else (decodeLoop rest).map (p :: ·)

/-- `url_decode`: the bytes written to `out`, in front of its NUL. -/
def urlDecode (src : Bytes) : Option Bytes := decodeLoop (src ++ [0])

/-- Two characters follow every `%` that is met. -/
def EscapesWhole : Bytes → Prop
  | [] => True
  | 37 :: _ :: _ :: rest => EscapesWhole rest
  | p :: rest => p ≠ percent ∧ EscapesWhole rest

--
-- The round trip
--

theorem charToNum_hexDigits (q : UInt8) :
    (charToNum (hexDigit 65 (q.toNat / 16)) <<< 4) ||| charToNum (hexDigit 65 (q.toNat % 16)) = q :=
  by
  have h : ∀ i j : Fin 16, (charToNum (hexDigit 65 i) <<< 4) ||| charToNum (hexDigit 65 j) =
      UInt8.ofNat (i * 16 + j) := by decide +kernel
  exact @Lib.join_hexDigits _ _ (fun i j => (charToNum i <<< 4) ||| charToNum j) id h q

theorem decodeLoop_escape (q : UInt8) (rest : Bytes) :
    decodeLoop (escape 65 q ++ rest) = (decodeLoop rest).map (q :: ·) := by
  show decodeLoop (37 :: _ :: _ :: rest) = _
  rw [decodeLoop, charToNum_hexDigits]

theorem decodeLoop_plain {q : UInt8} (h0 : q ≠ 0) (hq : q ≠ percent) (rest : Bytes) :
    decodeLoop (q :: rest) = (decodeLoop rest).map (q :: ·) := by
  rw [decodeLoop, if_neg hq]
  · exact h0
  · exact fun _ _ _ heq => absurd heq hq

theorem urlDecode_urlEncode {s : Bytes} (h : (0 : UInt8) ∉ s) : urlDecode (urlEncode s) = some s := by
  unfold urlDecode urlEncode
  induction s with
  | nil => rfl
  | cons q s ih =>
    have ih := ih fun hmem => h (.tail _ hmem)
    rw [flatMap_cons, append_assoc]
    by_cases hq : q ∈ special ∨ 0x7f < q
    · rw [if_pos hq, decodeLoop_escape, ih, map_some]
    · have hpercent : q ≠ percent := fun heq => hq (.inl (heq ▸ by decide))
      have h0 : q ≠ 0 := fun heq => h (heq ▸ .head _)
      rw [if_neg hq, singleton_append, decodeLoop_plain h0 hpercent, ih, map_some]

theorem length_urlEncode_le (s : Bytes) : (urlEncode s).length ≤ 3 * s.length := by
  induction s with
  | nil => exact Nat.le_refl _
  | cons q s ih =>
    rw [urlEncode, flatMap_cons, length_append, length_cons]
    have hq : (if q ∈ special ∨ 0x7f < q then escape 65 q else [q]).length ≤ 3 := by
      split
      · exact Nat.le_refl _
      · rw [length_singleton]
        omega
    unfold urlEncode at ih
    omega

--
-- Decoding any string
--

theorem decodeLoop_length {s out : Bytes} (h : decodeLoop s = some out) :
    out.length < s.length := by
  induction s using decodeLoop.induct generalizing out with
  | case1 => cases h
  | case2 rest =>
    obtain rfl := Option.some.inj h
    exact Nat.succ_pos _
  | case3 p₁ p₂ rest ih =>
    rw [decodeLoop] at h
    obtain ⟨out', hout, rfl⟩ := map_eq_some_iff.mp h
    have := ih hout
    simp only [length_cons]
    omega
  | case4 rest h0 hshort =>
    rw [decodeLoop, if_pos rfl] at h
    · cases h
    · exact h0
    · exact hshort
  | case5 p rest h0 hshort hp ih =>
    rw [decodeLoop_plain h0 hp] at h
    obtain ⟨out', hout, rfl⟩ := map_eq_some_iff.mp h
    exact Nat.succ_lt_succ (ih hout)

theorem decodeLoop_isSome {s : Bytes} (h : (0 : UInt8) ∉ s) :
    (decodeLoop (s ++ [0])).isSome ↔ EscapesWhole s := by
  induction s using EscapesWhole.induct with
  | case1 => exact iff_of_true rfl trivial
  | case2 p₁ p₂ rest ih =>
    have hrest := ih fun hmem => h (.tail _ (.tail _ (.tail _ hmem)))
    show (decodeLoop (37 :: p₁ :: p₂ :: (rest ++ [0]))).isSome ↔ _
    rw [EscapesWhole, ← hrest, decodeLoop, isSome_map]
  | case3 p rest hshort ih =>
    rw [EscapesWhole, ← ih fun hmem => h (.tail _ hmem)]
    · by_cases hp : p = percent
      · -- fewer than two characters and the NUL
        refine iff_of_false ?_ fun hwhole => hwhole.1 hp
        match rest with
        | [] => rw [hp]; decide
        | [p₁] =>
          rw [hp]
          exact Bool.false_ne_true
        | p₁ :: p₂ :: rest => exact absurd rfl (hshort _ _ _ hp)
      · have h0 : p ≠ 0 := fun heq => h (heq ▸ .head _)
        rw [cons_append, decodeLoop_plain h0 hp, isSome_map]
        exact (and_iff_right hp).symm
    · exact hshort

/-- **The codec.** A NUL-free string comes back, its encoding fits, and as an input it is
decoded within its bounds if and only if two characters follow every `%` that is met. -/
theorem codec_iff {s : Bytes} (h : (0 : UInt8) ∉ s) :
    (urlDecode (urlEncode s) = some s ∧ (urlEncode s).length + 1 ≤ 3 * s.length + 1 ∧
      ∃ out, urlDecode s = some out ∧ out.length + 1 ≤ s.length + 1) ↔ EscapesWhole s := by
  rw [← decodeLoop_isSome h, isSome_iff_exists]
  constructor
  · rintro ⟨-, -, out, hout, -⟩
    exact ⟨out, hout⟩
  · rintro ⟨out, hout⟩
    have hlen := decodeLoop_length hout
    rw [length_append, length_singleton] at hlen
    exact ⟨urlDecode_urlEncode h, Nat.succ_le_succ (length_urlEncode_le s), out, hout, hlen⟩

theorem codec_iff_escape :
    (urlDecode (urlEncode (ascii "%41")) = some (ascii "%41") ∧
      (urlEncode (ascii "%41")).length + 1 ≤ 3 * (ascii "%41").length + 1 ∧
      ∃ out, urlDecode (ascii "%41") = some out ∧ out.length + 1 ≤ (ascii "%41").length + 1) ↔
    EscapesWhole (ascii "%41") := codec_iff (by decide)

/-- A lone `%`: what is behind its NUL is read. -/
theorem not_decoded_percent : ¬∀ s : Bytes, (0 : UInt8) ∉ s →
    urlDecode (urlEncode s) = some s ∧ (urlEncode s).length + 1 ≤ 3 * s.length + 1 ∧
      ∃ out, urlDecode s = some out ∧ out.length + 1 ≤ s.length + 1 := by
  intro h
  obtain ⟨-, -, out, hout, -⟩ := h [percent] (by decide)
  cases hout

end Supex.Cutils
