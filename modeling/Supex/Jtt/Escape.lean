import Supex.Lib.Memory

/-!
# releaseServer — escaping

A faithful model of `pkg_escape.c`. Inside a package the bytes `[` and `]`, which
delimit packages, and the two escape bytes themselves are sent as two bytes.
`unescape` works on memory: the decoder calls it with source and target the
same.

* `unescape_escaped` — undone in place, byte for byte.
-/

namespace Supex.Jtt

open Supex.Lib
open List hiding Mem

/-- `escape`: the bytes that stand for `src`. -/
def escape (src : UInt8) : Bytes :=
  if src = 0x5B then [0x5A, 0x01]
  else if src = 0x5A then [0x5A, 0x02]
  else if src = 0x5D then [0x5E, 0x01]
  else if src = 0x5E then [0x5E, 0x02]
  else [src]

/-- The byte for a second byte behind `0x5A`. An unknown one stands for itself. -/
def unescape5A (b : UInt8) : UInt8 := if b = 0x01 then 0x5B else if b = 0x02 then 0x5A else b

/-- The byte for a second byte behind `0x5E`. -/
def unescape5E (b : UInt8) : UInt8 := if b = 0x01 then 0x5D else if b = 0x02 then 0x5E else b

/-- The loop of `unescape`, at `i` of the source and `dlen` of the target. -/
def unescapeLoop (dst src slen : Int) : Nat → Mem → Int → Int → Mem × Int
  | 0, m, _, dlen => (m, dlen)
  | fuel + 1, m, i, dlen =>
    if i < slen then
      if m (src + i) = 0x5A then
        unescapeLoop dst src slen fuel (m.store (dst + dlen) [unescape5A (m (src + i + 1))])
          (i + 2) (dlen + 1)
      else if m (src + i) = 0x5E then
        unescapeLoop dst src slen fuel (m.store (dst + dlen) [unescape5E (m (src + i + 1))])
          (i + 2) (dlen + 1)
      else unescapeLoop dst src slen fuel (m.store (dst + dlen) [m (src + i)]) (i + 1) (dlen + 1)
    else (m, dlen)

/-- `unescape`: the memory behind it and the length of the result. Every turn
takes at least one byte, so `slen` turns are enough. -/
def unescape (m : Mem) (dst src slen : Int) : Mem × Int :=
  unescapeLoop dst src slen slen.toNat m 0 0

--
-- One byte
--

/-- What escaping does to a byte: nothing, if it is none of the four, or two
bytes that are undone by `unescape`. -/
theorem escape_cases (b : UInt8) :
    (escape b = [b] ∧ b ≠ 0x5A ∧ b ≠ 0x5B ∧ b ≠ 0x5D ∧ b ≠ 0x5E) ∨
      (∃ c, escape b = [0x5A, c] ∧ unescape5A c = b ∧ c ≠ 0x5B ∧ c ≠ 0x5D) ∨
      (∃ c, escape b = [0x5E, c] ∧ unescape5E c = b ∧ c ≠ 0x5B ∧ c ≠ 0x5D) := by
  unfold escape
  split_ifs with h1 h2 h3 h4
  · exact .inr (.inl ⟨0x01, rfl, h1.symm, by decide, by decide⟩)
  · exact .inr (.inl ⟨0x02, rfl, h2.symm, by decide, by decide⟩)
  · exact .inr (.inr ⟨0x01, rfl, h3.symm, by decide, by decide⟩)
  · exact .inr (.inr ⟨0x02, rfl, h4.symm, by decide, by decide⟩)
  · exact .inl ⟨rfl, h2, h1, h3, h4⟩

/-- The escaped form of a byte string. -/
def escaped (bs : Bytes) : Bytes := bs.flatMap escape

theorem escaped_cons (b : UInt8) (bs : Bytes) : escaped (b :: bs) = escape b ++ escaped bs :=
  flatMap_cons

theorem not_mem_escaped {bs : Bytes} {x : UInt8} (hx : x = 0x5B ∨ x = 0x5D) : x ∉ escaped bs := by
  intro hmem
  obtain ⟨b, -, hb⟩ := mem_flatMap.mp hmem
  rcases escape_cases b with ⟨heq, -, hne⟩ | ⟨c, heq, -, hne⟩ | ⟨c, heq, -, hne⟩
  · rw [heq, mem_singleton] at hb
    rcases hx with rfl | rfl
    · exact hne.1 hb.symm
    · exact hne.2.1 hb.symm
  · rw [heq] at hb
    rcases hx with rfl | rfl <;> simp [hne.1.symm, hne.2.symm] at hb
  · rw [heq] at hb
    rcases hx with rfl | rfl <;> simp [hne.1.symm, hne.2.symm] at hb

theorem escaped_length_le (bs : Bytes) : (escaped bs).length ≤ 2 * bs.length := by
  induction bs with
  | nil => exact le_rfl
  | cons b bs ih =>
    rw [escaped_cons, length_cons, length_append]
    rcases escape_cases b with ⟨heq, -⟩ | ⟨c, heq, -⟩ | ⟨c, heq, -⟩ <;> rw [heq] <;>
      simp only [length_cons, length_nil] <;> omega

theorem escaped_length_ge (bs : Bytes) : bs.length ≤ (escaped bs).length := by
  induction bs with
  | nil => exact le_rfl
  | cons b bs ih =>
    rw [escaped_cons, length_cons, length_append]
    rcases escape_cases b with ⟨heq, -⟩ | ⟨c, heq, -⟩ | ⟨c, heq, -⟩ <;> rw [heq] <;>
      simp only [length_cons, length_nil] <;> omega

--
-- The whole string
--

/-- The memory outside the bytes from `a` to `b` is the same. -/
def SameOutside (a b : Int) (m m' : Mem) : Prop := ∀ i, i < a ∨ b ≤ i → m' i = m i

theorem unescapeLoop_escaped (a : Int) {slen : Int} (i dlen : Int) (fuel : Nat) {m : Mem}
    (bs : Bytes)
    (hdlen : dlen ≤ i) (hslen : slen = i + (escaped bs).length) (hfuel : bs.length ≤ fuel)
    (h : m.Holds (a + i) (escaped bs)) :
    ∃ m', unescapeLoop a a slen fuel m i dlen = (m', dlen + bs.length) ∧
      m'.Holds (a + dlen) bs ∧ SameOutside (a + dlen) (a + slen) m m' := by
  induction bs generalizing fuel m i dlen with
  | nil =>
    rw [show escaped [] = [] from rfl, length_nil, Int.natCast_zero, Int.add_zero] at hslen
    refine ⟨m, ?_, Mem.holds_nil _ _, fun _ _ => rfl⟩
    cases fuel with
    | zero => rw [unescapeLoop, length_nil, Int.natCast_zero, Int.add_zero]
    | succ fuel =>
      rw [unescapeLoop, if_neg (show ¬i < slen by omega), length_nil, Int.natCast_zero,
        Int.add_zero]
  | cons b bs ih =>
    obtain ⟨fuel, rfl⟩ : ∃ k, fuel = k + 1 := ⟨fuel - 1, by rw [length_cons] at hfuel; omega⟩
    rw [length_cons] at hfuel
    rw [escaped_cons, length_append] at hslen
    rw [escaped_cons, Mem.holds_append] at h
    -- the rest of the string, behind the byte that is written
    have hrest : ∀ {n : Nat}, (escape b).length = n → 0 < n →
        ∃ m', unescapeLoop a a slen fuel (m.store (a + dlen) [b]) (i + n) (dlen + 1) =
            (m', dlen + ((b :: bs).length : Nat)) ∧ m'.Holds (a + dlen) (b :: bs) ∧
          SameOutside (a + dlen) (a + slen) m m' := by
      intro n hn hpos
      obtain ⟨m', hloop, hholds, hsame⟩ := ih (i + n) (dlen + 1) fuel
        (m := m.store (a + dlen) [b]) (by omega) (by omega) (by omega) (by
          rw [← hn, ← Int.add_assoc]
          exact h.2.congr fun j hlo _ => by
            unfold Mem.store
            rw [if_neg]
            simp only [length_singleton]
            omega)
      have hkeep : ∀ j, j < a + dlen ∨ a + slen ≤ j → m.store (a + dlen) [b] j = m j := by
        intro j hj
        unfold Mem.store
        rw [if_neg]
        simp only [length_singleton]
        omega
      refine ⟨m', ?_, ?_, ?_⟩
      · rw [hloop, length_cons]
        push_cast
        rw [Int.add_assoc, Int.add_comm 1]
      · rw [Mem.holds_cons, Int.add_assoc]
        refine ⟨?_, hholds⟩
        rw [hsame _ (by omega)]
        exact (Mem.holds_cons.mp (Mem.holds_store m (a + dlen) [b])).1
      · intro j hj
        rw [hsame j (by omega), hkeep j hj]
    rcases escape_cases b with ⟨heq, h5A, -, -, h5E⟩ | ⟨c, heq, hc, -⟩ | ⟨c, heq, hc, -⟩
    · have hbyte : m (a + i) = b := by
        rw [heq, Mem.holds_cons] at h
        exact h.1.1
      have hlen : (escape b).length = 1 := by rw [heq]; rfl
      rw [unescapeLoop, if_pos (show i < slen by omega), hbyte, if_neg h5A, if_neg h5E]
      exact hrest hlen Nat.one_pos
    · have hbytes : m (a + i) = 0x5A ∧ m (a + i + 1) = c := by
        rw [heq, Mem.holds_cons, Mem.holds_cons] at h
        exact ⟨h.1.1, h.1.2.1⟩
      have hlen : (escape b).length = 2 := by rw [heq]; rfl
      rw [unescapeLoop, if_pos (show i < slen by omega), hbytes.1, if_pos rfl, hbytes.2, hc]
      exact hrest hlen Nat.two_pos
    · have hbytes : m (a + i) = 0x5E ∧ m (a + i + 1) = c := by
        rw [heq, Mem.holds_cons, Mem.holds_cons] at h
        exact ⟨h.1.1, h.1.2.1⟩
      have hlen : (escape b).length = 2 := by rw [heq]; rfl
      rw [unescapeLoop, if_pos (show i < slen by omega), hbytes.1, if_neg (by decide),
        if_pos rfl, hbytes.2, hc]
      exact hrest hlen Nat.two_pos

theorem unescape_escaped {a : Int} {m : Mem} {bs : Bytes} (h : m.Holds a (escaped bs)) :
    ∃ m', unescape m a a (escaped bs).length = (m', (bs.length : Int)) ∧ m'.Holds a bs ∧
      SameOutside a (a + (escaped bs).length) m m' := by
  have hlen := escaped_length_ge bs
  obtain ⟨m', hloop, hholds, hsame⟩ := unescapeLoop_escaped a 0 0
    (escaped bs).length bs le_rfl (Int.zero_add _).symm hlen (by rwa [Int.add_zero])
  rw [Int.zero_add] at hloop
  rw [Int.add_zero] at hholds hsame
  exact ⟨m', hloop, hholds, hsame⟩

end Supex.Jtt
