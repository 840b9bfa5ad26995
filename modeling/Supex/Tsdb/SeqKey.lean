import Supex.Lib.ByteOrder
import Mathlib.Tactic.IntervalCases

/-!
# TSDB — binlog keys

The binlog of a master lives in the same LevelDB store as the user data: the
record of sequence number `s` has the key `0xff` followed by `s` in big-endian
order. `binlog.c` swaps the bytes with shifts and copies the swapped word as it
lies in memory; here that is shown to be the big-endian image.

* `decodeSeqKey_encodeSeqKey`, `encodeSeqKey_lt_iff` — the key codec is
  faithful and keeps the order of sequence numbers.
* `eq_encodeSeqKey_of_shape` — every key of the shape `0xff` and eight bytes is
  the key of a sequence number.

`uint64_t` is a natural below `u64Size`; `-1` is `u64Size - 1`.
-/

namespace Supex.Tsdb

open Nat List

/-! ## Big-endian numbers -/

/-- `big_endian_u32`; the last shift leaves the 32 bits of the type. -/
def bigEndianU32 (v : Nat) : Nat :=
  (v >>> 24) ||| ((v >>> 8) &&& 0xff00) ||| ((v <<< 8) &&& 0xff0000) ||| ((v <<< 24) % 2 ^ 32)

def bigEndianU64 (v : Nat) : Nat :=
  bigEndianU32 (v >>> 32) ||| (bigEndianU32 (v % 2 ^ 32) <<< 32)

theorem testBit_mask (k m : Nat) :
    Nat.testBit ((2 ^ 8 - 1) * 2 ^ k) m = decide (k ≤ m ∧ m < k + 8) := by
  rw [testBit_mul_two_pow, testBit_two_pow_sub_one]
  grind

variable {v : Nat}

theorem bigEndianU32_byte {i : Nat} (hv : v < 2 ^ 32) (hi : i < 4) :
    bigEndianU32 v / 2 ^ (8 * i) % 2 ^ 8 = v / 2 ^ (8 * (3 - i)) % 2 ^ 8 := by
  have h8 := testBit_mask 8
  have h16 := testBit_mask 16
  norm_num only at h8 h16
  have hhigh : ∀ m, 32 ≤ m → v.testBit m = false := fun m hm =>
    testBit_lt_two_pow (lt_of_lt_of_le hv (Nat.pow_le_pow_right (by decide) hm))
  apply eq_of_testBit_eq
  intro j
  rw [testBit_mod_two_pow, testBit_mod_two_pow]
  by_cases hj : j < 8
  · simp only [hj, decide_true, Bool.true_and, testBit_div_two_pow, bigEndianU32,
      testBit_or, testBit_and, testBit_shiftRight, testBit_shiftLeft,
      testBit_mod_two_pow, h8, h16]
    interval_cases i <;> grind
  · simp [hj]

theorem bigEndianU32_lt (hv : v < 2 ^ 32) : bigEndianU32 v < 2 ^ 32 := by
  refine or_lt_two_pow (or_lt_two_pow (or_lt_two_pow ?_ ?_) ?_) ?_
  · rw [shiftRight_eq_div_pow]
    omega
  · exact and_lt_two_pow _ (by decide)
  · exact and_lt_two_pow _ (by decide)
  · exact mod_lt _ (by decide)

theorem leBytes_bigEndianU32 (hv : v < 2 ^ 32) :
    leBytes 4 (bigEndianU32 v) = (leBytes 4 v).reverse := by
  have h0 := bigEndianU32_byte hv (i := 0) (by decide)
  have h1 := bigEndianU32_byte hv (i := 1) (by decide)
  have h2 := bigEndianU32_byte hv (i := 2) (by decide)
  have h3 := bigEndianU32_byte hv (i := 3) (by decide)
  norm_num at h0 h1 h2 h3
  simp [leBytes, Nat.div_div_eq_div_mul, h0, h1, h2, h3]

theorem le64_bigEndianU64 (hv : v < u64Size) : le64 (bigEndianU64 v) = (le64 v).reverse := by
  unfold u64Size at hv
  have hhi : v >>> 32 < 2 ^ 32 := by
    rw [shiftRight_eq_div_pow]
    omega
  have hlo : v % 2 ^ 32 < 2 ^ 32 := mod_lt _ (by decide)
  have hswap : bigEndianU64 v =
      bigEndianU32 (v % 2 ^ 32) * 256 ^ 4 + bigEndianU32 (v >>> 32) := by
    rw [bigEndianU64, Nat.or_comm, ← shiftLeft_add_eq_or_of_lt (bigEndianU32_lt hhi),
      shiftLeft_eq]
    norm_num
  have hsplit : v = (v >>> 32) * 256 ^ 4 + v % 2 ^ 32 := by
    rw [shiftRight_eq_div_pow]
    omega
  rw [le64, hswap, leBytes_add (m := 4) (w := 4) _ (bigEndianU32_lt hhi),
    leBytes_bigEndianU32 hhi, leBytes_bigEndianU32 hlo]
  conv_rhs => rw [hsplit, le64, leBytes_add (m := 4) (w := 4) _ hlo]
  rw [reverse_append]

/-! ## Record keys -/

/-- `encode_seq_key`: the swapped number is copied as it lies in memory. -/
def encodeSeqKey (seq : Nat) : Bytes := 0xff :: le64 (bigEndianU64 seq)

def decodeSeqKey (key : Bytes) : Nat :=
  if key.length ≠ 9 then u64Size - 1 else bigEndianU64 (leVal (key.drop 1))

theorem encodeSeqKey_eq {s : Nat} (hs : s < u64Size) :
    encodeSeqKey s = 0xff :: (le64 s).reverse := by
  rw [encodeSeqKey, le64_bigEndianU64 hs]

@[simp] theorem encodeSeqKey_length (s : Nat) : (encodeSeqKey s).length = 9 := by
  simp [encodeSeqKey]

theorem bigEndianU64_lt (hv : v < u64Size) : bigEndianU64 v < u64Size := by
  unfold u64Size at hv ⊢
  have hhi : v >>> 32 < 2 ^ 32 := by
    rw [shiftRight_eq_div_pow]
    omega
  have hlo := bigEndianU32_lt (v := v % 2 ^ 32) (mod_lt _ (by decide))
  refine or_lt_two_pow (lt_trans (bigEndianU32_lt hhi) (by decide)) ?_
  rw [shiftLeft_eq]
  omega

theorem bigEndianU64_involutive (hv : v < u64Size) : bigEndianU64 (bigEndianU64 v) = v := by
  have hrev : le64 (bigEndianU64 (bigEndianU64 v)) = le64 v := by
    rw [le64_bigEndianU64 (bigEndianU64_lt hv), le64_bigEndianU64 hv, reverse_reverse]
  rw [← leVal_le64 (bigEndianU64_lt (bigEndianU64_lt hv)), hrev, leVal_le64 hv]

theorem decodeSeqKey_encodeSeqKey {s : Nat} (hs : s < u64Size) :
    decodeSeqKey (encodeSeqKey s) = s := by
  rw [decodeSeqKey, if_neg (by simp)]
  rw [encodeSeqKey, drop_one, tail_cons, leVal_le64 (bigEndianU64_lt hs),
    bigEndianU64_involutive hs]

theorem encodeSeqKey_inj {s t : Nat} (hs : s < u64Size) (ht : t < u64Size)
    (h : encodeSeqKey s = encodeSeqKey t) : s = t := by
  rw [← decodeSeqKey_encodeSeqKey hs, h, decodeSeqKey_encodeSeqKey ht]

/-- **Order.** Record keys are ordered like their sequence numbers. -/
theorem encodeSeqKey_lt_iff {s t : Nat} (hs : s < u64Size) (ht : t < u64Size) :
    encodeSeqKey s < encodeSeqKey t ↔ s < t := by
  rw [encodeSeqKey_eq hs, encodeSeqKey_eq ht, cons_lt_cons_self,
    lt_iff_beVal_lt (by simp), beVal_eq_leVal_reverse, beVal_eq_leVal_reverse,
    reverse_reverse, reverse_reverse, leVal_le64 hs, leVal_le64 ht]

theorem encodeSeqKey_le_iff {s t : Nat} (hs : s < u64Size) (ht : t < u64Size) :
    encodeSeqKey s ≤ encodeSeqKey t ↔ s ≤ t := by
  rw [← not_lt, encodeSeqKey_lt_iff ht hs, not_lt]

/-- **Record keys.** Decoding a key gives its number back, and the bytes of two keys are in
the order of their numbers. -/
theorem seqKey_order {a b : Nat} (ha : a < u64Size) (hb : b < u64Size) :
    decodeSeqKey (encodeSeqKey a) = a ∧ (encodeSeqKey a < encodeSeqKey b ↔ a < b) :=
  ⟨decodeSeqKey_encodeSeqKey ha, encodeSeqKey_lt_iff ha hb⟩

/-- Two keys that differ in two bytes. -/
theorem seqKey_order_carry : decodeSeqKey (encodeSeqKey 255) = 255 ∧
    (encodeSeqKey 255 < encodeSeqKey 256 ↔ 255 < 256) :=
  seqKey_order (by decide) (by decide)

theorem decodeSeqKey_of_length {key : Bytes} (h : key.length = 9) :
    decodeSeqKey key < u64Size ∧ le64 (bigEndianU64 (decodeSeqKey key)) = key.drop 1 := by
  have hdrop : (key.drop 1).length = 8 := by simp [h]
  rw [decodeSeqKey, if_neg (by simp [h])]
  refine ⟨bigEndianU64_lt (leVal_lt hdrop), ?_⟩
  rw [bigEndianU64_involutive (leVal_lt hdrop), le64_leVal hdrop]

theorem eq_encodeSeqKey_of_shape {key : Bytes} (h : key.length = 9)
    (hhead : key.head? = some 0xff) :
    ∃ s, s < u64Size ∧ key = encodeSeqKey s := by
  obtain ⟨hlt, hdrop⟩ := decodeSeqKey_of_length h
  refine ⟨decodeSeqKey key, hlt, ?_⟩
  obtain ⟨b, rest, rfl⟩ : ∃ b rest, key = b :: rest := by
    cases key with
    | nil => simp at h
    | cons b rest => exact ⟨b, rest, rfl⟩
  rw [encodeSeqKey, hdrop]
  simpa using hhead

end Supex.Tsdb
