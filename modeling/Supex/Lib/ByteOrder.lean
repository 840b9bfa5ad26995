import Supex.Lib.Bytes
import Mathlib.Data.List.Lex

/-!
# The order of byte strings

Ordered stores compare keys byte by byte, as `memcmp` does. That is the
lexicographic order over unsigned bytes, which Mathlib has for lists over a
linear order; what is added here is the linear order of `UInt8` and how it
meets big-endian numbers.

* `lt_iff_beVal_lt` — images of one length are ordered like their numbers.
-/

namespace Supex

open List

instance instLinearOrderUInt8 : LinearOrder UInt8 where
  le_refl := UInt8.le_refl
  le_trans _ _ _ := UInt8.le_trans
  le_antisymm _ _ := UInt8.le_antisymm
  le_total := UInt8.le_total
  lt_iff_le_not_ge a b := by
    rw [UInt8.lt_iff_toNat_lt, UInt8.le_iff_toNat_le, UInt8.le_iff_toNat_le]
    omega
  toDecidableLE := inferInstance
  toDecidableEq := inferInstance
  toDecidableLT := inferInstance

/-- The number a big-endian image stands for. -/
def beVal : Bytes → Nat
  | [] => 0
  | b :: rest => b.toNat * 256 ^ rest.length + beVal rest

theorem beVal_lt (l : Bytes) : beVal l < 256 ^ l.length := by
  induction l with
  | nil => simp [beVal]
  | cons b l ih =>
    have hb : b.toNat + 1 ≤ 256 := by
      have := b.toNat_lt
      omega
    calc beVal (b :: l) = b.toNat * 256 ^ l.length + beVal l := rfl
      _ < b.toNat * 256 ^ l.length + 256 ^ l.length := by omega
      _ = (b.toNat + 1) * 256 ^ l.length := by ring
      _ ≤ 256 * 256 ^ l.length := Nat.mul_le_mul_right _ hb
      _ = 256 ^ (b :: l).length := by rw [length_cons, pow_succ]; ring

theorem leVal_append (l : Bytes) (b : UInt8) :
    leVal (l ++ [b]) = b.toNat * 256 ^ l.length + leVal l := by
  induction l with
  | nil => simp [leVal]
  | cons a l ih =>
    rw [cons_append, leVal, ih, leVal, length_cons, pow_succ]
    ring

theorem beVal_eq_leVal_reverse (l : Bytes) : beVal l = leVal l.reverse := by
  induction l with
  | nil => rfl
  | cons b l ih => rw [reverse_cons, leVal_append, length_reverse, beVal, ih]

theorem leVal_lt {l : Bytes} (h : l.length = 8) : leVal l < u64Size := by
  have := beVal_lt l.reverse
  rw [beVal_eq_leVal_reverse, reverse_reverse, length_reverse, h] at this
  exact this

/-- The `w` low bytes of `n`, most significant first. -/
def beBytes (w n : Nat) : Bytes := (leBytes w n).reverse

@[simp] theorem beBytes_length (w n : Nat) : (beBytes w n).length = w := by
  rw [beBytes, length_reverse, leBytes_length]

theorem beVal_beBytes {w n : Nat} (h : n < 256 ^ w) : beVal (beBytes w n) = n := by
  rw [beVal_eq_leVal_reverse, beBytes, reverse_reverse, leVal_leBytes h]

theorem lt_iff_beVal_lt {l₁ l₂ : Bytes} (h : l₁.length = l₂.length) :
    l₁ < l₂ ↔ beVal l₁ < beVal l₂ := by
  induction l₁ generalizing l₂ with
  | nil =>
    have : l₂ = [] := length_eq_zero_iff.mp h.symm
    simp [this]
  | cons a l₁ ih =>
    obtain ⟨b, l₂, rfl⟩ : ∃ b l, l₂ = b :: l := by
      cases l₂ with
      | nil => simp at h
      | cons b l => exact ⟨b, l, rfl⟩
    have hlen : l₁.length = l₂.length := by simpa using h
    rw [cons_lt_cons_iff, ih hlen, beVal, beVal, hlen, UInt8.lt_iff_toNat_lt]
    have h₁ : beVal l₁ < 256 ^ l₂.length := hlen ▸ beVal_lt l₁
    have h₂ : beVal l₂ < 256 ^ l₂.length := beVal_lt l₂
    -- the first byte decides unless it is the same
    rcases Nat.lt_trichotomy a.toNat b.toNat with hab | hab | hab
    · have hstep : (a.toNat + 1) * 256 ^ l₂.length ≤ b.toNat * 256 ^ l₂.length :=
        Nat.mul_le_mul_right _ hab
      rw [Nat.add_mul, Nat.one_mul] at hstep
      exact iff_of_true (.inl hab) (by omega)
    · have heq : a = b := UInt8.toNat_inj.mp hab
      subst heq
      simp
    · have hstep : (b.toNat + 1) * 256 ^ l₂.length ≤ a.toNat * 256 ^ l₂.length :=
        Nat.mul_le_mul_right _ hab
      rw [Nat.add_mul, Nat.one_mul] at hstep
      refine iff_of_false ?_ (by omega)
      rintro (h | ⟨rfl, -⟩)
      · omega
      · omega

end Supex
