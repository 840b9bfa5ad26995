import Supex.Lib.Bytes

/-!
# Decimal text of machine integers

`printf("%llu")`, its zero-padded form and `strtoull(…, 10)` on byte strings,
with the one round trip every format of this development relies on:
`strtoull_fmtPad` reads back what a zero-padded conversion wrote, whatever
non-digit follows it.
-/

namespace Supex

open List

/-- The character of a decimal digit. -/
def digitByte (d : Nat) : UInt8 := UInt8.ofNat (48 + d)

def isDigit (b : UInt8) : Bool := 48 ≤ b.toNat && b.toNat ≤ 57

/-- `isspace` in the C locale. -/
def isSpace (b : UInt8) : Bool := b = 32 || (9 ≤ b.toNat && b.toNat ≤ 13)

/-- The decimal digits of `n`, most significant first, at most `fuel` of them. -/
def decDigits : Nat → Nat → Bytes
  | 0, _ => []
  | fuel + 1, n =>
    if n < 10 then [digitByte n] else decDigits fuel (n / 10) ++ [digitByte (n % 10)]

/-- `printf("%llu", n)`: a `uint64_t` has at most twenty digits. -/
def fmtU64 (n : Nat) : Bytes := decDigits 20 n

/-- `printf("%0<w>llu", n)`. -/
def fmtPad (w n : Nat) : Bytes :=
  List.replicate (w - (fmtU64 n).length) 48 ++ fmtU64 n

/-- The number a string of digits stands for. -/
def digitsVal (s : Bytes) : Nat := s.foldl (fun acc b => acc * 10 + (b.toNat - 48)) 0

/-- `strtoull(s, NULL, 10)`: leading white space, an optional sign, digits;
out-of-range values saturate. -/
def strtoull (s : Bytes) : Nat :=
  match s.dropWhile isSpace with
  | 45 :: t =>
    let v := digitsVal (t.takeWhile isDigit)
    if u64Size ≤ v then u64Size - 1 else (u64Size - v) % u64Size
  | 43 :: t => min (digitsVal (t.takeWhile isDigit)) (u64Size - 1)
  | t => min (digitsVal (t.takeWhile isDigit)) (u64Size - 1)

/-- `printf("%ld", i)`. -/
def fmtLong (i : Int) : Bytes := if i < 0 then 45 :: fmtU64 i.natAbs else fmtU64 i.natAbs

/-- `strtol(s, NULL, 10)`: out-of-range values saturate. -/
def strtol (s : Bytes) : Int :=
  let v : Int :=
    match s.dropWhile isSpace with
    | 45 :: t => -(digitsVal (t.takeWhile isDigit) : Int)
    | 43 :: t => digitsVal (t.takeWhile isDigit)
    | t => digitsVal (t.takeWhile isDigit)
  max (-2 ^ 63) (min v (2 ^ 63 - 1))

/-! ## Digits -/

theorem digitByte_toNat {d : Nat} (h : d < 10) : (digitByte d).toNat = 48 + d := by
  rw [digitByte, UInt8.toNat_ofNat']
  omega

theorem isDigit_digitByte {d : Nat} (h : d < 10) : isDigit (digitByte d) = true := by
  rw [isDigit, digitByte_toNat h]
  simp
  omega

theorem decDigits_isDigit (fuel n : Nat) : ∀ b ∈ decDigits fuel n, isDigit b = true := by
  induction fuel generalizing n with
  | zero => simp [decDigits]
  | succ fuel ih =>
    intro b hb
    rw [decDigits] at hb
    split at hb
    · next h =>
      rw [mem_singleton] at hb
      exact hb ▸ isDigit_digitByte h
    · rcases mem_append.mp hb with hb | hb
      · exact ih _ b hb
      · rw [mem_singleton] at hb
        exact hb ▸ isDigit_digitByte (Nat.mod_lt _ (by decide))

theorem decDigits_length_le (fuel n : Nat) : (decDigits fuel n).length ≤ fuel := by
  induction fuel generalizing n with
  | zero => simp [decDigits]
  | succ fuel ih =>
    rw [decDigits]
    split
    · simp
    · simpa using ih (n / 10)

variable {n : Nat}

theorem decDigits_length_le_of_lt (fuel : Nat) {k : Nat} (hk : 0 < k) (h : n < 10 ^ k) :
    (decDigits fuel n).length ≤ k := by
  induction fuel generalizing k n with
  | zero => exact Nat.zero_le k
  | succ fuel ih =>
    unfold decDigits
    split
    · exact hk
    · next hge =>
      rcases k with _ | _ | k
      · omega
      · omega
      · have hdiv : n / 10 < 10 ^ (k + 1) := by
          rw [Nat.div_lt_iff_lt_mul (by decide)]
          exact h
        have hle := ih (Nat.succ_pos k) hdiv
        rw [length_append, length_singleton]
        omega

theorem decDigits_ne_nil (fuel n : Nat) : decDigits (fuel + 1) n ≠ [] := by
  rw [decDigits]
  split <;> simp

theorem digitsVal_append_singleton (s : Bytes) (b : UInt8) :
    digitsVal (s ++ [b]) = digitsVal s * 10 + (b.toNat - 48) := by
  simp [digitsVal]

theorem digitsVal_decDigits {fuel : Nat} (h : n < 10 ^ fuel) :
    digitsVal (decDigits fuel n) = n := by
  induction fuel generalizing n with
  | zero =>
    have : n = 0 := by simpa using h
    simp [decDigits, digitsVal, this]
  | succ fuel ih =>
    rw [decDigits]
    split
    · next hlt => simp [digitsVal, digitByte_toNat hlt]
    · have hdiv : n / 10 < 10 ^ fuel := by
        rw [Nat.div_lt_iff_lt_mul (by decide)]
        rwa [pow_succ] at h
      rw [digitsVal_append_singleton, ih hdiv,
        digitByte_toNat (Nat.mod_lt _ (by decide))]
      omega

theorem digitsVal_replicate_zero (k : Nat) (s : Bytes) :
    digitsVal (List.replicate k 48 ++ s) = digitsVal s := by
  induction k with
  | zero => rfl
  | succ k ih =>
    rw [replicate_succ, cons_append]
    exact ih

/-! ## Formatted numbers -/

theorem lt_ten_pow_of_u64 (h : n < u64Size) : n < 10 ^ 20 := by
  unfold u64Size at h
  omega

theorem fmtPad_isDigit (w n : Nat) : ∀ b ∈ fmtPad w n, isDigit b = true := by
  intro b hb
  rcases mem_append.mp hb with hb | hb
  · rw [eq_of_mem_replicate hb]
    decide
  · exact decDigits_isDigit _ _ b hb

theorem fmtPad_length (n : Nat) : (fmtPad 20 n).length = 20 := by
  have := decDigits_length_le 20 n
  simp only [fmtPad, fmtU64, length_append, length_replicate]
  omega

theorem fmtPad_ne_nil (w n : Nat) : fmtPad w n ≠ [] := by
  have := decDigits_ne_nil 19 n
  simp [fmtPad, fmtU64, this]

theorem digitsVal_fmtPad {w : Nat} (h : n < u64Size) : digitsVal (fmtPad w n) = n := by
  rw [fmtPad, digitsVal_replicate_zero, fmtU64, digitsVal_decDigits (lt_ten_pow_of_u64 h)]

theorem isDigit_bounds {b : UInt8} (h : isDigit b = true) : 48 ≤ b.toNat ∧ b.toNat ≤ 57 := by
  simpa [isDigit] using h

theorem isDigit_not_isSpace {b : UInt8} (h : isDigit b = true) : isSpace b = false := by
  obtain ⟨h1, h2⟩ := isDigit_bounds h
  have hne : b ≠ 32 := by
    rintro rfl
    simp at h1
  simp [isSpace, hne]
  omega

/-- `strtoull` of a nonempty string of digits followed by a non-digit, when the
value is in range. -/
theorem strtoull_digits {ds rest : Bytes} (hds : ∀ b ∈ ds, isDigit b = true)
    (hne : ds ≠ []) (hrest : ∀ b, rest.head? = some b → isDigit b = false)
    (hval : digitsVal ds < u64Size) : strtoull (ds ++ rest) = digitsVal ds := by
  have htake : (ds ++ rest).takeWhile isDigit = ds := by
    rw [takeWhile_append_of_pos hds]
    cases rest with
    | nil => simp
    | cons r rest => simp [hrest r rfl]
  obtain ⟨d, ds', rfl⟩ := exists_cons_of_ne_nil hne
  have hd : isDigit d = true := hds d (.head _)
  obtain ⟨hlo, hhi⟩ := isDigit_bounds hd
  have hdrop : (d :: ds' ++ rest).dropWhile isSpace = d :: ds' ++ rest := by
    rw [cons_append, dropWhile_cons, if_neg]
    simp [isDigit_not_isSpace hd]
  rw [strtoull, hdrop]
  split
  · next t heq =>
    rw [cons_append, List.cons.injEq] at heq
    rw [heq.1] at hlo
    simp at hlo
  · next t heq =>
    rw [cons_append, List.cons.injEq] at heq
    rw [heq.1] at hlo
    simp at hlo
  · rw [htake]
    omega

/-- **Round trip.** `strtoull` reads back a zero-padded `uint64_t`. -/
theorem strtoull_fmtPad {w : Nat} (h : n < u64Size) (rest : Bytes)
    (hrest : ∀ b, rest.head? = some b → isDigit b = false) : strtoull (fmtPad w n ++ rest) = n := by
  have hval := digitsVal_fmtPad (w := w) h
  rw [strtoull_digits (fmtPad_isDigit w n) (fmtPad_ne_nil w n) hrest (by rw [hval]; exact h),
    hval]

theorem strtoull_fmtU64 (h : n < u64Size) : strtoull (fmtU64 n) = n := by
  have := strtoull_fmtPad (w := 0) h [] (by simp)
  simpa [fmtPad] using this

theorem takeWhile_fmtU64 (n : Nat) : (fmtU64 n).takeWhile isDigit = fmtU64 n := by
  have happend : (fmtU64 n ++ []).takeWhile isDigit = fmtU64 n ++ [].takeWhile isDigit :=
    takeWhile_append_of_pos (decDigits_isDigit 20 n)
  rwa [takeWhile_nil, append_nil] at happend

theorem strtol_fmtLong {i : Int} (hlo : -2 ^ 63 ≤ i) (hhi : i < 2 ^ 63) :
    strtol (fmtLong i) = i := by
  have hval : digitsVal (fmtU64 i.natAbs) = i.natAbs :=
    digitsVal_decDigits (lt_ten_pow_of_u64 (by unfold u64Size; omega))
  unfold fmtLong
  by_cases hneg : i < 0
  · have hdrop : ((45 : UInt8) :: fmtU64 i.natAbs).dropWhile isSpace = 45 :: fmtU64 i.natAbs := by
      rw [dropWhile_cons, if_neg (by decide)]
    rw [if_pos hneg, strtol, hdrop]
    simp only [takeWhile_fmtU64, hval]
    omega
  · obtain ⟨d, ds, hd⟩ := exists_cons_of_ne_nil (decDigits_ne_nil 19 i.natAbs)
    have hdigits : fmtU64 i.natAbs = d :: ds := hd
    have hdigit : isDigit d = true :=
      decDigits_isDigit 20 i.natAbs d (by rw [hd]; exact .head _)
    obtain ⟨hbound, -⟩ := isDigit_bounds hdigit
    have hdrop : (fmtU64 i.natAbs).dropWhile isSpace = d :: ds := by
      rw [hdigits, dropWhile_cons, if_neg]
      simp [isDigit_not_isSpace hdigit]
    rw [if_neg hneg, strtol, hdrop]
    split
    · next t heq =>
      rw [List.cons.injEq] at heq
      rw [heq.1] at hbound
      simp at hbound
    · next t heq =>
      rw [List.cons.injEq] at heq
      rw [heq.1] at hbound
      simp at hbound
    · rw [← hdigits, takeWhile_fmtU64, hval]
      omega

theorem fmtPad_inj {w m : Nat} (hm : m < u64Size) (hn : n < u64Size) (h : fmtPad w m = fmtPad w n) :
    m = n := by
  rw [← digitsVal_fmtPad (w := w) hm, h, digitsVal_fmtPad hn]

example : fmtPad 20 5000000 = ascii "00000000000005000000" := by decide

end Supex
