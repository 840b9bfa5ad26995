import Mathlib.Data.List.GetD
import Mathlib.Tactic.Common

/-!
# Arrays cut into blocks

A long array is kept as blocks of one length `n`: entry `p` is entry `p % n` of
block `p / n`.

* `flatten_getElem?` — the entries of the concatenation of equally long blocks.
-/

namespace Supex.Lib

open List

variable {α : Type} {m n p : Nat}

/-- The number of blocks of `n` that hold `m` entries. -/
def blockCount (m n : Nat) : Nat := if m % n = 0 then m / n else m / n + 1

theorem div_lt_blockCount (hn : 0 < n) (hp : p < m) : p / n < blockCount m n := by
  unfold blockCount
  have hle : p / n ≤ m / n := Nat.div_le_div_right (Nat.le_of_lt hp)
  split
  · next hmod =>
    have hm : n * (m / n) = m := Nat.mul_div_cancel' (Nat.dvd_of_mod_eq_zero hmod)
    rw [Nat.div_lt_iff_lt_mul hn, Nat.mul_comm]
    omega
  · omega

theorem div_lt_blockCount_iff : m / n < blockCount m n ↔ m % n ≠ 0 := by
  unfold blockCount
  split <;> simp_all

/-- Block `i` of a list in blocks of `n`, filled up with `z`. -/
def block (z : α) (n : Nat) (xs : List α) (i : Nat) : List α :=
  (List.range n).map fun r => xs.getD (i * n + r) z

theorem block_getElem? {r : Nat} (z : α) (xs : List α) (i : Nat) (hr : r < n) :
    (block z n xs i)[r]? = some (xs.getD (i * n + r) z) := by
  simp [block, hr]

theorem flatten_getElem? {bs : List (List α)} (hn : 0 < n) (h : ∀ b ∈ bs, b.length = n) (p : Nat) :
    bs.flatten[p]? = bs[p / n]?.bind (·[p % n]?) := by
  induction bs generalizing p with
  | nil => simp
  | cons b bs ih =>
    have hb : b.length = n := h b (.head _)
    have hbs := ih fun c hc => h c (.tail _ hc)
    rw [flatten_cons]
    by_cases hp : p < n
    · rw [getElem?_append_left (hb ▸ hp), Nat.div_eq_of_lt hp, Nat.mod_eq_of_lt hp]
      rfl
    · have hle : n ≤ p := Nat.le_of_not_lt hp
      have hdiv : p / n = (p - n) / n + 1 := by
        rw [← Nat.add_div_right _ hn, Nat.sub_add_cancel hle]
      have hmod : (p - n) % n = p % n := (Nat.mod_eq_sub_mod hle).symm
      rw [getElem?_append_right (hb ▸ hle), hb, hbs, hdiv, hmod, getElem?_cons_succ]

end Supex.Lib
