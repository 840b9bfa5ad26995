import Supex.Lib.Decimal

/-!
# Text whose base is in front

`strtol(s, NULL, 0)` takes the base from the first characters: `0x` is sixteen, another
`0` is eight, anything else is ten.

* `strtolAuto_fmtU64` — a decimal number is read back, whatever digits stand behind it.
-/

namespace Supex

open List

/-- The digit a character stands for. -/
def digitOf (b : UInt8) : Option Nat :=
  if 48 ≤ b.toNat ∧ b.toNat ≤ 57 then some (b.toNat - 48)
  else if 97 ≤ b.toNat ∧ b.toNat ≤ 102 then some (b.toNat - 87)
  else if 65 ≤ b.toNat ∧ b.toNat ≤ 70 then some (b.toNat - 55)
  else none

/-- The digits in front, as long as they are of the base. -/
def magnitude (base acc : Nat) : Bytes → Nat
  | [] => acc
  | b :: bs =>
    match digitOf b with
    | some d => if d < base then magnitude base (acc * base + d) bs else acc
    | none => acc

/-- The number behind the sign. -/
def unsignedAuto : Bytes → Nat
  | 48 :: x :: bs =>
    if (x = 120 ∨ x = 88) ∧ (bs.head?.bind digitOf).isSome then magnitude 16 0 bs
    else magnitude 8 0 (x :: bs)
  | bs => magnitude 10 0 bs

/-- `strtol(s, NULL, 0)`: out-of-range values saturate. -/
def strtolAuto (s : Bytes) : Int :=
  let v : Int :=
    match s.dropWhile isSpace with
    | 45 :: t => -(unsignedAuto t : Int)
    | 43 :: t => unsignedAuto t
    | t => unsignedAuto t
  max (-2 ^ 63) (min v (2 ^ 63 - 1))

theorem digitsVal_lt {s : Bytes} (h : ∀ b ∈ s, isDigit b = true) : digitsVal s < 10 ^ s.length := by
  induction s using List.reverseRecOn with
  | nil => exact Nat.one_pos
  | append_singleton s b ih =>
    have hs := ih fun x hx => h x (mem_append_left _ hx)
    have hb := isDigit_bounds (h b (mem_append_right _ (mem_singleton_self b)))
    rw [digitsVal_append_singleton, length_append, length_singleton, pow_succ]
    omega

theorem magnitude_digits {s : Bytes} (h : ∀ b ∈ s, isDigit b = true) (acc : Nat) :
    magnitude 10 acc s = s.foldl (fun acc b => acc * 10 + (b.toNat - 48)) acc := by
  induction s generalizing acc with
  | nil => rfl
  | cons b s ih =>
    have hb := isDigit_bounds (h b (.head _))
    have hdigit : digitOf b = some (b.toNat - 48) := if_pos hb
    rw [magnitude, hdigit, foldl_cons]
    show (if b.toNat - 48 < 10 then _ else acc) = _
    rw [if_pos (by omega), ih fun x hx => h x (mem_cons_of_mem b hx)]

theorem strtolAuto_digits {d : UInt8} {ds : Bytes} (h : ∀ b ∈ d :: ds, isDigit b = true)
    (hd : d ≠ 48) : strtolAuto (d :: ds) = min (digitsVal (d :: ds) : Int) (2 ^ 63 - 1) := by
  have hdigit : isDigit d = true := h d (.head _)
  have hdrop : (d :: ds).dropWhile isSpace = d :: ds := by
    rw [dropWhile_cons, if_neg]
    rw [isDigit_not_isSpace hdigit]
    nofun
  have hauto : unsignedAuto (d :: ds) = digitsVal (d :: ds) := by
    rw [unsignedAuto.eq_2, magnitude_digits h]
    · rfl
    · intro x bs heq
      exact hd (List.cons.inj heq).1
  obtain ⟨hlo, -⟩ := isDigit_bounds hdigit
  rw [strtolAuto, hdrop]
  split
  · rename_i heq
    rw [(List.cons.inj heq).1] at hlo
    exact absurd hlo (by decide)
  · rename_i heq
    rw [(List.cons.inj heq).1] at hlo
    exact absurd hlo (by decide)
  · rw [hauto]
    omega

theorem decDigits_head {fuel n : Nat} (hn : 0 < n) (hlt : n < 10 ^ fuel) :
    ∃ d ds, decDigits fuel n = d :: ds ∧ d ≠ 48 := by
  induction fuel generalizing n with
  | zero => omega
  | succ fuel ih =>
    rw [decDigits]
    split
    · rename_i hlt
      refine ⟨digitByte n, [], rfl, fun heq => ?_⟩
      have hval := digitByte_toNat hlt
      rw [heq] at hval
      have h48 : (48 : UInt8).toNat = 48 := rfl
      omega
    · have hdiv : n / 10 < 10 ^ fuel := by
        rw [Nat.div_lt_iff_lt_mul (by decide)]
        rwa [pow_succ] at hlt
      obtain ⟨d, ds, heq, hne⟩ := ih (Nat.div_pos (by omega) (by decide)) hdiv
      exact ⟨d, ds ++ [digitByte (n % 10)], by rw [heq, cons_append], hne⟩

theorem strtolAuto_fmtU64 {n : Nat} (hn : 0 < n) (hlt : n < u64Size) {ds : Bytes}
    (hds : ∀ b ∈ ds, isDigit b = true) :
    strtolAuto (fmtU64 n ++ ds) = min (digitsVal (fmtU64 n ++ ds) : Int) (2 ^ 63 - 1) := by
  obtain ⟨d, rest, heq, hd⟩ := decDigits_head hn (lt_ten_pow_of_u64 hlt)
  have hfmt : fmtU64 n = d :: rest := heq
  have hdigits : ∀ b ∈ fmtU64 n ++ ds, isDigit b = true := by
    intro b hb
    rcases mem_append.mp hb with hb | hb
    · exact decDigits_isDigit 20 n b hb
    · exact hds b hb
  rw [hfmt, cons_append] at hdigits ⊢
  exact strtolAuto_digits hdigits hd

end Supex
