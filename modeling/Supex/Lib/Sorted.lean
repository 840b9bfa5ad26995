import Mathlib.Algebra.Order.Ring.Int

/-!
# Tables in order

A table is a function on the integers of which the first `n` entries count. What
keeps these in ascending order: to replace an entry, to put one between two others,
and to select some of them.
-/

namespace Supex.Lib

variable {α : Type} [Preorder α]

/-- The first `n` entries ascend. -/
def InOrder (n : Int) (e : Int → α) : Prop := ∀ i j, 0 ≤ i → i ≤ j → j < n → e i ≤ e j

theorem InOrder.congr {n : Int} {e e' : Int → α} (h : InOrder n e)
    (heq : ∀ i, 0 ≤ i → i < n → e' i = e i) : InOrder n e' := by
  intro i j hi hij hj
  rw [heq i hi (hij.trans_lt hj), heq j (hi.trans hij) hj]
  exact h i j hi hij hj

theorem InOrder.replace {n k : Int} {e e' : Int → α} {x : α} (h : InOrder n e) (hat : e' k = x)
    (hother : ∀ i, 0 ≤ i → i < n → i ≠ k → e' i = e i) (hbefore : ∀ i, 0 ≤ i → i < k → e i ≤ x)
    (hbehind : ∀ i, k < i → i < n → x ≤ e i) : InOrder n e' := by
  intro i j hi hij hj
  rcases lt_trichotomy i k with hik | rfl | hik
  · rw [hother i hi (hij.trans_lt hj) hik.ne]
    by_cases hjk : j = k
    · rw [hjk, hat]
      exact hbefore i hi hik
    · rw [hother j (hi.trans hij) hj hjk]
      exact h i j hi hij hj
  · rw [hat]
    rcases hij.lt_or_eq with hlt | rfl
    · rw [hother j (hi.trans hij) hj hlt.ne']
      exact hbehind j hlt hj
    · exact hat.ge
  · have hjk : k < j := hik.trans_le hij
    rw [hother i hi (hij.trans_lt hj) hik.ne', hother j (hi.trans hij) hj hjk.ne']
    exact h i j hi hij hj

theorem InOrder.insert {n k : Int} {e e' : Int → α} {x : α} (h : InOrder n e) (hat : e' k = x)
    (hlow : ∀ i, 0 ≤ i → i < k → e' i = e i) (hhigh : ∀ i, k ≤ i → i < n → e' (i + 1) = e i)
    (hk : 0 ≤ k) (hk' : k ≤ n) (hbefore : ∀ i, 0 ≤ i → i < k → e i ≤ x)
    (hbehind : ∀ i, k ≤ i → i < n → x ≤ e i) : InOrder (n + 1) e' := by
  have hup : ∀ i, k < i → i < n + 1 → e' i = e (i - 1) := by
    intro i hi hi'
    have := hhigh (i - 1) (by omega) (by omega)
    rwa [sub_add_cancel] at this
  intro i j hi hij hj
  rcases lt_trichotomy i k with hik | rfl | hik
  · rw [hlow i hi hik]
    rcases lt_trichotomy j k with hjk | rfl | hjk
    · rw [hlow j (hi.trans hij) hjk]
      exact h i j hi hij (by omega)
    · rw [hat]
      exact hbefore i hi hik
    · rw [hup j hjk hj]
      exact h i (j - 1) hi (by omega) (by omega)
  · rw [hat]
    rcases hij.lt_or_eq with hlt | rfl
    · rw [hup j hlt hj]
      exact hbehind (j - 1) (by omega) (by omega)
    · exact hat.ge
  · rw [hup i hik (by omega), hup j (by omega) hj]
    exact h (i - 1) (j - 1) (by omega) (by omega) (by omega)

theorem InOrder.select {n m : Int} {e e' : Int → α} (h : InOrder n e) (f : Int → Int)
    (hf : ∀ i j, 0 ≤ i → i ≤ j → j < m → f i ≤ f j) (hlow : ∀ i, 0 ≤ i → i < m → 0 ≤ f i)
    (hhigh : ∀ i, 0 ≤ i → i < m → f i < n) (heq : ∀ i, 0 ≤ i → i < m → e' i = e (f i)) :
    InOrder m e' := by
  intro i j hi hij hj
  rw [heq i hi (hij.trans_lt hj), heq j (hi.trans hij) hj]
  exact h (f i) (f j) (hlow i hi (hij.trans_lt hj)) (hf i j hi hij hj)
    (hhigh j (hi.trans hij) hj)

end Supex.Lib
