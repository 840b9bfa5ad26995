import Mathlib.Data.UInt
import Mathlib.Tactic.Ring

/-!
# Byte strings and C integers

The vocabulary shared by every model of this development: byte strings, the
C view of a byte string (everything before the first NUL), little-endian
memory images of `uint64_t`, and the conversions a C compiler inserts.

Nothing here is about one program.
-/

namespace Supex

open List

/-- A byte string. -/
abbrev Bytes := List UInt8

instance instLawfulBEqUInt8 : LawfulBEq UInt8 := inferInstance

instance instLawfulBEqBytes : LawfulBEq Bytes := inferInstance

/-- Why a C function does not return: a failed `assert`, an access outside an
object, or a loop that never ends. -/
inductive Fault where
  | assertion
  | memory
  | diverge
  deriving DecidableEq, Repr

/-- The range of `uint64_t` and, on the target machines, of `size_t`. -/
def u64Size : Nat := 2 ^ 64

/-- The bytes of a literal. -/
def ascii (s : String) : Bytes := s.toList.map fun c => UInt8.ofNat c.toNat

/-- The C string at the start of a buffer. -/
def cstr (buf : Bytes) : Bytes := buf.takeWhile (· ≠ 0)

/-- `strcpy(buf, s)` into a buffer at least as large as `s` with its NUL. -/
def strcpyInto (buf s : Bytes) : Bytes := s ++ 0 :: buf.drop (s.length + 1)

/-- The value of an `int` after storing the `size_t` value `n` into it. -/
def toInt32 (n : Nat) : Int :=
  if n % 2 ^ 32 < 2 ^ 31 then ((n % 2 ^ 32 : Nat) : Int)
  else ((n % 2 ^ 32 : Nat) : Int) - 2 ^ 32

/-! ## C strings in buffers -/

theorem takeWhile_append_stop {α : Type} {p : α → Bool} {s t : List α} {a : α}
    (hs : ∀ x ∈ s, p x = true) (ha : p a = false) :
    (s ++ a :: t).takeWhile p = s := by
  rw [takeWhile_append_of_pos hs]
  simp [ha]

theorem cstr_append_nul {s rest : Bytes} (h : (0 : UInt8) ∉ s) :
    cstr (s ++ 0 :: rest) = s := by
  apply takeWhile_append_stop
  · intro x hx
    have : x ≠ 0 := fun e => h (e ▸ hx)
    simp [this]
  · simp

theorem cstr_of_noZero {s : Bytes} (h : (0 : UInt8) ∉ s) : cstr s = s := by
  have htake : (s ++ []).takeWhile (fun b => decide (b ≠ 0)) =
      s ++ [].takeWhile fun b => decide (b ≠ 0) :=
    takeWhile_append_of_pos fun b hb => decide_eq_true fun heq => h (heq ▸ hb)
  unfold cstr
  simpa using htake

theorem cstr_strcpyInto {buf s : Bytes} (h : (0 : UInt8) ∉ s) :
    cstr (strcpyInto buf s) = s :=
  cstr_append_nul h

/-! ## Memory images of `uint64_t` -/

/-- The `w` low bytes of `n`, least significant first. -/
def leBytes : Nat → Nat → Bytes
  | 0, _ => []
  | w + 1, n => UInt8.ofNat (n % 256) :: leBytes w (n / 256)

/-- The memory image of a `uint64_t` on a little-endian machine. -/
def le64 (n : Nat) : Bytes := leBytes 8 n

/-- The number a little-endian memory image stands for. -/
def leVal : Bytes → Nat
  | [] => 0
  | b :: rest => b.toNat + 256 * leVal rest

@[simp] theorem leBytes_length (w n : Nat) : (leBytes w n).length = w := by
  induction w generalizing n with
  | zero => rfl
  | succ w ih => simp [leBytes, ih]

@[simp] theorem le64_length (n : Nat) : (le64 n).length = 8 := leBytes_length 8 n

theorem leVal_leBytes {w n : Nat} (h : n < 256 ^ w) : leVal (leBytes w n) = n := by
  induction w generalizing n with
  | zero =>
    have : n = 0 := by simpa using h
    simp [leBytes, leVal, this]
  | succ w ih =>
    have hdiv : n / 256 < 256 ^ w := by
      rw [Nat.div_lt_iff_lt_mul (by decide)]
      rwa [pow_succ] at h
    rw [leBytes, leVal, ih hdiv, UInt8.toNat_ofNat']
    omega

theorem leVal_le64 {n : Nat} (h : n < u64Size) : leVal (le64 n) = n := by
  apply leVal_leBytes
  exact h

theorem leBytes_leVal (l : Bytes) : leBytes l.length (leVal l) = l := by
  induction l with
  | nil => rfl
  | cons b l ih =>
    have hb := b.toNat_lt
    have hmod : (b.toNat + 256 * leVal l) % 256 = b.toNat := by omega
    have hquot : (b.toNat + 256 * leVal l) / 256 = leVal l := by omega
    rw [length_cons, leBytes, leVal, hmod, hquot, ih, UInt8.ofNat_toNat]

theorem le64_leVal {l : Bytes} (h : l.length = 8) : le64 (leVal l) = l := by
  rw [le64, ← h, leBytes_leVal]

theorem leBytes_add {m w n : Nat} (a : Nat) (ha : a < 256 ^ m) :
    leBytes (m + w) (n * 256 ^ m + a) = leBytes m a ++ leBytes w n := by
  induction m generalizing a with
  | zero =>
    have : a = 0 := by simpa using ha
    simp [leBytes, this]
  | succ m ih =>
    have hdiv : a / 256 < 256 ^ m := by
      rw [Nat.div_lt_iff_lt_mul (by decide)]
      rwa [pow_succ] at ha
    rw [show m + 1 + w = m + w + 1 by omega, leBytes, leBytes, cons_append, ← ih _ hdiv]
    have hmod : (n * 256 ^ (m + 1) + a) % 256 = a % 256 := by
      rw [pow_succ, ← Nat.mul_assoc]
      omega
    have hquot : (n * 256 ^ (m + 1) + a) / 256 = n * 256 ^ m + a / 256 := by
      rw [pow_succ, ← Nat.mul_assoc]
      omega
    rw [hmod, hquot]

/-! ## Conversions -/

theorem toInt32_of_lt {n : Nat} (h : n < 2 ^ 31) : toInt32 n = n := by
  have hmod : n % 2 ^ 32 = n := Nat.mod_eq_of_lt (by omega)
  rw [toInt32, hmod, if_pos h]

end Supex
