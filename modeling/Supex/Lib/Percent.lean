import Supex.Lib.Bytes

/-!
# Percent encoding

A byte as two hexadecimal digits, with the letters from `a` on.

* `join_hexDigits` — what puts all pairs of digits together again does so for every byte.
-/

namespace Supex.Lib

/-- `'%'`. -/
def percent : UInt8 := 37

/-- A hexadecimal digit, `a` being the letter for ten. -/
def hexDigit (a : UInt8) (n : Nat) : UInt8 :=
  if n < 10 then 48 + UInt8.ofNat n else a + UInt8.ofNat (n - 10)

/-- `%` and the two digits of a byte. -/
def escape (a b : UInt8) : Bytes := [percent, hexDigit a (b.toNat / 16), hexDigit a (b.toNat % 16)]

theorem join_hexDigits {γ : Type} {a : UInt8} {join : UInt8 → UInt8 → γ} {f : UInt8 → γ}
    (h : ∀ i j : Fin 16, join (hexDigit a i) (hexDigit a j) = f (UInt8.ofNat (i * 16 + j)))
    (b : UInt8) : join (hexDigit a (b.toNat / 16)) (hexDigit a (b.toNat % 16)) = f b := by
  have hb := b.toNat_lt
  have hjoin := h ⟨b.toNat / 16, by omega⟩ ⟨b.toNat % 16, by omega⟩
  rw [Nat.div_add_mod' b.toNat 16, UInt8.ofNat_toNat] at hjoin
  exact hjoin

end Supex.Lib
