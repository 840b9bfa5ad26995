import Mathlib.Data.List.Range

/-!
# Message streams

Two views of a list of messages in flight.

* `Numbered P n l` — the messages of `l` are those of the numbers `n`, `n + 1`,
  and so on, `P` saying which message is that of a number.
-/

namespace Supex.Lib

open List

variable {α : Type}

--
-- Numbered messages
--

/-- The messages of the numbers from `n` on. -/
def Numbered (P : Nat → α → Prop) : Nat → List α → Prop
  | _, [] => True
  | n, x :: l => P n x ∧ Numbered P (n + 1) l

theorem numbered_append {P : Nat → α → Prop} {n : Nat} {l m : List α} :
    Numbered P n (l ++ m) ↔ Numbered P n l ∧ Numbered P (n + l.length) m := by
  induction l generalizing n with
  | nil => simp [Numbered]
  | cons x l ih =>
    rw [cons_append, Numbered, Numbered, ih, length_cons, and_assoc,
      show n + 1 + l.length = n + (l.length + 1) by omega]

theorem Numbered.mem {P : Nat → α → Prop} {n : Nat} {l : List α} (h : Numbered P n l) {x : α}
    (hx : x ∈ l) : ∃ t, P t x := by
  obtain ⟨l, m, rfl⟩ := append_of_mem hx
  exact ⟨_, (numbered_append.mp h).2.1⟩

theorem numbered_map_range {P : Nat → α → Prop} {n k : Nat} {f : Nat → α}
    (h : ∀ idx < k, P (n + idx) (f idx)) : Numbered P n ((List.range k).map f) := by
  induction k with
  | zero => trivial
  | succ k ih =>
    rw [range_succ, map_append, numbered_append]
    refine ⟨ih fun idx hidx => h idx (by omega), ?_⟩
    simp only [length_map, length_range, map_cons, map_nil]
    exact ⟨h k (by omega), trivial⟩

theorem Numbered.filterMap_eq {P : Nat → α → Prop} {n : Nat} {l : List α} {f : α → Option Nat}
    (hf : ∀ t x, P t x → f x = some t) (h : Numbered P n l) :
    l.filterMap f = List.range' n l.length := by
  induction l generalizing n with
  | nil => rfl
  | cons x l ih =>
    rw [filterMap_cons_some (hf n x h.1), length_cons, range'_succ, ih h.2]

--
-- Cuts
--

variable (p : α → Bool)

/-- The stream is cut. -/
def hasCut (l : List α) : Bool := l.any p

/-- How many messages stand before the first cut. -/
def beforeCut (l : List α) : Nat := (l.takeWhile fun x => !p x).length

variable {p}

@[simp] theorem hasCut_nil : hasCut p [] = false := rfl

@[simp] theorem hasCut_cons (x : α) (l : List α) : hasCut p (x :: l) = (p x || hasCut p l) := rfl

@[simp] theorem hasCut_append (l m : List α) :
    hasCut p (l ++ m) = (hasCut p l || hasCut p m) := any_append

@[simp] theorem beforeCut_nil : beforeCut p [] = 0 := rfl

theorem beforeCut_cons_of_cut {x : α} (l : List α) (hx : p x = true) :
    beforeCut p (x :: l) = 0 := by
  simp [beforeCut, hx]

theorem beforeCut_cons_of_not {x : α} (l : List α) (hx : p x = false) :
    beforeCut p (x :: l) = beforeCut p l + 1 := by
  simp [beforeCut, hx]

theorem beforeCut_append_of_cut {l : List α} (m : List α) (h : hasCut p l = true) :
    beforeCut p (l ++ m) = beforeCut p l := by
  induction l with
  | nil => cases h
  | cons x l ih =>
    rcases hx : p x with _ | _
    · rw [cons_append, beforeCut_cons_of_not _ hx, beforeCut_cons_of_not _ hx, ih]
      simpa [hx] using h
    · rw [cons_append, beforeCut_cons_of_cut _ hx, beforeCut_cons_of_cut _ hx]

theorem beforeCut_append_of_not {l : List α} (m : List α) (h : hasCut p l = false) :
    beforeCut p (l ++ m) = l.length + beforeCut p m := by
  induction l with
  | nil => simp
  | cons x l ih =>
    rw [hasCut_cons, Bool.or_eq_false_iff] at h
    rw [cons_append, beforeCut_cons_of_not _ h.1, ih h.2, length_cons]
    omega

theorem beforeCut_eq_length {l : List α} (h : hasCut p l = false) : beforeCut p l = l.length := by
  simpa using beforeCut_append_of_not [] h

theorem beforeCut_eq_zero {l : List α} (h : beforeCut p l = 0) :
    l = [] ∨ ∃ x rest, l = x :: rest ∧ p x = true := by
  cases l with
  | nil => exact .inl rfl
  | cons x l =>
    rcases hx : p x with _ | _
    · rw [beforeCut_cons_of_not _ hx] at h
      omega
    · exact .inr ⟨x, l, rfl, hx⟩

end Supex.Lib
