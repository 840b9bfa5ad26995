import Supex.Lib.ByteOrder
import Mathlib.Data.List.GetD

/-!
# Memory around a buffer

A C function that is handed a buffer reads and writes bytes at signed offsets
from its start, also behind its end when a check is missing. `Mem` gives every
offset a byte; what a caller promises about the buffer is a statement about some
of them.
-/

namespace Supex.Lib

open Supex List

/-- The bytes at every offset from a buffer's start. -/
abbrev Mem := Int → UInt8

namespace Mem

/-- The `n` bytes at `a`. -/
def load (m : Mem) (a : Int) : Nat → Bytes
  | 0 => []
  | n + 1 => m a :: load m (a + 1) n

/-- `memcpy(buf + a, bs, …)`. -/
def store (m : Mem) (a : Int) (bs : Bytes) : Mem := fun i =>
  if a ≤ i ∧ i < a + bs.length then bs.getD (i - a).toNat 0 else m i

/-- `while (n--) *dst++ = *src++`. -/
def copyUp (m : Mem) (dst src : Int) : Nat → Mem
  | 0 => m
  | n + 1 => copyUp (Function.update m dst (m src)) (dst + 1) (src + 1) n

/-- `bs` stands at `a`. -/
def Holds (m : Mem) (a : Int) (bs : Bytes) : Prop := m.load a bs.length = bs

--
-- Loading
--

@[simp] theorem load_length (m : Mem) (a : Int) (n : Nat) : (m.load a n).length = n := by
  induction n generalizing a with
  | zero => rfl
  | succ n ih => rw [load, length_cons, ih]

theorem load_add (m : Mem) (a : Int) (n k : Nat) :
    m.load a (n + k) = m.load a n ++ m.load (a + n) k := by
  induction n generalizing a with
  | zero => simp [load]
  | succ n ih =>
    rw [show n + 1 + k = n + k + 1 by omega, load, ih, load, cons_append,
      show a + 1 + (n : Int) = a + ((n + 1 : Nat) : Int) by push_cast; ring]

variable {a : Int}

theorem load_congr {m m' : Mem} {n : Nat} (h : ∀ i, a ≤ i → i < a + n → m i = m' i) :
    m.load a n = m'.load a n := by
  induction n generalizing a with
  | zero => rfl
  | succ n ih =>
    rw [load, load, h a (by omega) (by omega)]
    exact congrArg _ (ih fun i hlo hhi => h i (by omega) (by omega))

theorem load_getD (m : Mem) (a : Int) {n k : Nat} (h : k < n) :
    (m.load a n).getD k 0 = m (a + k) := by
  induction n generalizing a k with
  | zero => omega
  | succ n ih =>
    cases k with
    | zero => simp [load]
    | succ k =>
      rw [load, getD_cons_succ, ih (a + 1) (by omega)]
      exact congrArg m (by push_cast; ring)

--
-- Byte strings in memory
--

theorem holds_nil (m : Mem) (a : Int) : m.Holds a [] := rfl

theorem holds_cons {m : Mem} {b : UInt8} {bs : Bytes} :
    m.Holds a (b :: bs) ↔ m a = b ∧ m.Holds (a + 1) bs := by
  unfold Holds
  rw [length_cons, load, List.cons.injEq]

theorem holds_append {m : Mem} {xs ys : Bytes} :
    m.Holds a (xs ++ ys) ↔ m.Holds a xs ∧ m.Holds (a + xs.length) ys := by
  unfold Holds
  rw [length_append, load_add]
  constructor
  · intro h
    exact append_inj h (by simp)
  · rintro ⟨hx, hy⟩
    rw [hx, hy]

theorem Holds.congr {m m' : Mem} {bs : Bytes} (h : m.Holds a bs)
    (heq : ∀ i, a ≤ i → i < a + bs.length → m i = m' i) : m'.Holds a bs := by
  unfold Holds at *
  rw [← load_congr heq]
  exact h

theorem holds_store (m : Mem) (a : Int) (bs : Bytes) : (m.store a bs).Holds a bs := by
  apply ext_getElem (by simp)
  intro k h₁ h₂
  have hload := load_getD (m.store a bs) a h₂
  rw [getD_eq_getElem _ _ h₁] at hload
  rw [hload]
  unfold store
  rw [if_pos (by omega), show (a + (k : Int) - a).toNat = k by omega, getD_eq_getElem _ _ h₂]

theorem store_nil (m : Mem) (a : Int) : m.store a [] = m := by
  funext i
  unfold store
  rw [if_neg (by rw [length_nil]; omega)]

theorem store_of_lt (m : Mem) {i : Int} (bs : Bytes) (h : i < a) : m.store a bs i = m i := by
  unfold store
  rw [if_neg (by omega)]

theorem Holds.store {m : Mem} {b : Int} {xs ys : Bytes} (h : m.Holds a xs)
    (hle : a + xs.length ≤ b) : (m.store b ys).Holds a xs :=
  h.congr fun i _ hhi => (store_of_lt m ys (by omega)).symm

theorem store_append (m : Mem) (a : Int) (xs ys : Bytes) :
    (m.store a xs).store (a + xs.length) ys = m.store a (xs ++ ys) := by
  funext i
  unfold store
  rw [length_append]
  by_cases hy : a + xs.length ≤ i ∧ i < a + xs.length + ys.length
  · have hidx : (i - a).toNat = xs.length + (i - (a + xs.length)).toNat := by omega
    rw [if_pos hy, if_pos (by push_cast; omega), hidx, getD_append_right _ _ _ _ (by omega),
      Nat.add_sub_cancel_left]
  · rw [if_neg hy]
    by_cases hx : a ≤ i ∧ i < a + xs.length
    · rw [if_pos hx, if_pos (by push_cast; omega), getD_append _ _ _ _ (by omega)]
    · rw [if_neg hx, if_neg (by push_cast; omega)]

end Mem

--
-- Machine integers
--

/-- An `int` after an operation that may leave its range. -/
def wrap32 (x : Int) : Int := Int.bmod x (2 ^ 32)

theorem wrap32_of_range {x : Int} (hlo : -(2 ^ 31) ≤ x) (hhi : x < 2 ^ 31) : wrap32 x = x := by
  unfold wrap32
  rw [Int.bmod_eq_of_le] <;> omega

end Supex.Lib
