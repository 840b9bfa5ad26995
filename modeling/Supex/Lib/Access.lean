import Supex.Lib.Memory

/-!
# Where a function reads and writes

What a C function does to a buffer is a list of writes; which bytes it touches is
a list of spans. A bound on a buffer is a statement about these lists, not about
the bytes that come out: a write behind the end may store what stood there.

* `Mem.write_frame` — writes inside a range leave the rest alone.
* `Mem.store_byte`, `Mem.store_cover` — writes that build one string.
-/

namespace Supex.Lib

open Supex List

/-- A run of `len` bytes from `start`; an empty one touches nothing. -/
structure Span where
  start : Int
  len : Int
  deriving DecidableEq, Repr

/-- The byte at `i` is in the run. -/
def Span.Covers (s : Span) (i : Int) : Prop := s.start ≤ i ∧ i < s.start + s.len

/-- The bytes of the run are among those from `lo` to `hi`. -/
def Span.Within (lo hi : Int) (s : Span) : Prop := 0 < s.len → lo ≤ s.start ∧ s.start + s.len ≤ hi

instance (lo hi : Int) (s : Span) : Decidable (s.Within lo hi) :=
  inferInstanceAs (Decidable (_ → _))

variable {hi lo : Int}

theorem Span.within_one {a : Int} : (⟨a, 1⟩ : Span).Within lo hi ↔ lo ≤ a ∧ a < hi := by
  unfold Span.Within
  dsimp only
  omega

theorem Span.within_of_pos {a n : Int} (hn : 0 < n) :
    (⟨a, n⟩ : Span).Within lo hi ↔ lo ≤ a ∧ a + n ≤ hi := by
  unfold Span.Within
  exact ⟨fun h => h hn, fun h _ => h⟩

theorem Span.Within.mono {lo' hi' : Int} {s : Span} (h : s.Within lo hi) (hlo : lo' ≤ lo)
    (hhi : hi ≤ hi') : s.Within lo' hi' := fun hpos =>
  ⟨hlo.trans (h hpos).1, (h hpos).2.trans hhi⟩

/-- The writes of a function: what is stored where, in order. -/
abbrev Writes := List (Int × Bytes)

/-- The bytes a write covers. -/
def writeSpan (w : Int × Bytes) : Span := ⟨w.1, w.2.length⟩

/-- Every write stays in a range. -/
def Writes.Within (lo hi : Int) (ws : Writes) : Prop := ∀ w ∈ ws, (writeSpan w).Within lo hi

instance (lo hi : Int) (ws : Writes) : Decidable (ws.Within lo hi) :=
  inferInstanceAs (Decidable (∀ w ∈ ws, _))

theorem Writes.within_nil (lo hi : Int) : Writes.Within lo hi [] := nofun

variable {ws : Writes}

theorem Writes.within_cons {w : Int × Bytes} :
    Writes.Within lo hi (w :: ws) ↔ (writeSpan w).Within lo hi ∧ Writes.Within lo hi ws :=
  forall_mem_cons

theorem Writes.within_append {vs : Writes} :
    Writes.Within lo hi (ws ++ vs) ↔ Writes.Within lo hi ws ∧ Writes.Within lo hi vs :=
  forall_mem_append

namespace Mem

/-- The memory after some writes. -/
def write (m : Mem) : Writes → Mem
  | [] => m
  | w :: ws => write (m.store w.1 w.2) ws

theorem write_append (m : Mem) (ws vs : Writes) : m.write (ws ++ vs) = (m.write ws).write vs := by
  induction ws generalizing m with
  | nil => rfl
  | cons w ws ih => exact ih _

theorem store_byte (m : Mem) (a b : Int) (x : UInt8) (xs : Bytes) (h : b = a + 1) :
    (m.store a [x]).store b xs = m.store a (x :: xs) := by
  subst h
  exact store_append m a [x] xs

theorem store_over (m : Mem) (a : Int) (x y : UInt8) :
    (m.store a [x]).store a [y] = m.store a [y] := by
  funext i
  unfold Mem.store
  rw [length_singleton, length_singleton]
  by_cases h : a ≤ i ∧ i < a + (1 : Nat)
  · rw [if_pos h, if_pos h]
  · rw [if_neg h, if_neg h, if_neg h]

theorem store_cover (m : Mem) (a : Int) (xs : Bytes) (x y : UInt8) (ys : Bytes) :
    (m.store a (xs ++ [x])).store (a + xs.length) (y :: ys) = m.store a (xs ++ y :: ys) := by
  rw [← store_append, ← store_byte _ (a + xs.length) _ y ys rfl, store_over,
    store_byte _ _ _ _ _ rfl, store_append]

theorem store_frame (m : Mem) {i : Int} {w : Int × Bytes} (h : (writeSpan w).Within lo hi)
    (hi' : i < lo ∨ hi ≤ i) : m.store w.1 w.2 i = m i := by
  unfold store
  rw [if_neg]
  rintro ⟨hle, hlt⟩
  have hin := h (show (0 : Int) < w.2.length by omega)
  have hend : w.1 + w.2.length ≤ hi := hin.2
  have hstart : lo ≤ w.1 := hin.1
  omega

theorem write_frame (m : Mem) {i : Int} (h : ws.Within lo hi) (hi' : i < lo ∨ hi ≤ i) :
    m.write ws i = m i := by
  induction ws generalizing m with
  | nil => rfl
  | cons w ws ih =>
    obtain ⟨hw, hws⟩ := Writes.within_cons.mp h
    rw [write, ih _ hws, store_frame m hw hi']

theorem Holds.write {m : Mem} {a : Int} {xs : Bytes} (h : m.Holds a xs) (hws : ws.Within lo hi)
    (hout : a + xs.length ≤ lo ∨ hi ≤ a) : (m.write ws).Holds a xs :=
  h.congr fun _ _ _ => (write_frame m hws (by omega)).symm

end Mem

end Supex.Lib
