import Mathlib.Data.List.TakeWhile

/-!
# Walks through an ordered list

A scan starts at a place in an ordered list and goes on as long as a test holds.
When the test fails for everything behind a failure (`Initial`), the walk lists
what passes it; a walk with another test lists the same exactly when the two
tests agree on what is listed and on the next element.

* `takeWhile_eq_filter` / `dropWhile_eq_filter` — a walk with an initial test.

Main result: `takeWhile_congr_iff`.
-/

namespace Supex.Lib

open List

variable {α : Type} {p q : α → Bool}

/-- What is before an element with `p` has `p`. -/
def Initial (p : α → Bool) (l : List α) : Prop := l.Pairwise fun a b => p b = true → p a = true

theorem Initial.cons_neg {a : α} {l : List α} (h : Initial p (a :: l)) (ha : p a = false) :
    ∀ b ∈ l, p b = false := by
  intro b hb
  have hab := (pairwise_cons.mp h).1 b hb
  by_contra hpb
  rw [hab (by simpa using hpb)] at ha
  cases ha

theorem takeWhile_eq_filter {l : List α} (h : Initial p l) : l.takeWhile p = l.filter p := by
  induction l with
  | nil => rfl
  | cons a l ih =>
    cases ha : p a with
    | true =>
      rw [takeWhile_cons_of_pos ha, filter_cons_of_pos ha,
        ih (pairwise_cons.mp h).2]
    | false =>
      have hrest := h.cons_neg ha
      rw [takeWhile_cons_of_neg (by simp [ha]), filter_cons_of_neg (by simp [ha]),
        filter_eq_nil_iff.mpr fun b hb => by simp [hrest b hb]]

theorem dropWhile_eq_filter {l : List α} (h : Initial p l) :
    l.dropWhile p = l.filter fun a => !p a := by
  induction l with
  | nil => rfl
  | cons a l ih =>
    cases ha : p a with
    | true =>
      rw [dropWhile_cons_of_pos ha, filter_cons_of_neg (by simp [ha]),
        ih (pairwise_cons.mp h).2]
    | false =>
      have hrest := h.cons_neg ha
      rw [dropWhile_cons_of_neg (by simp [ha]), filter_cons_of_pos (by simp [ha]),
        filter_eq_self.mpr fun b hb => by simp [hrest b hb]]

/-- **Two tests that stop at the same place**: `p` holds of what `q` lists, and
fails at the element that `q` stops at. -/
theorem takeWhile_congr_iff {l : List α} :
    l.takeWhile p = l.takeWhile q ↔
      (∀ a ∈ l.takeWhile q, p a = true) ∧ ∀ a, l.find? (fun a => !q a) = some a → p a = false := by
  induction l with
  | nil => simp
  | cons a l ih =>
    cases hq : q a with
    | true =>
      rw [takeWhile_cons_of_pos hq, find?_cons_of_neg (by simp [hq]),
        forall_mem_cons]
      cases hp : p a with
      | true =>
        rw [takeWhile_cons_of_pos hp, cons_inj_right, ih, and_assoc]
        exact ⟨fun h => ⟨rfl, h⟩, fun h => h.2⟩
      | false =>
        rw [takeWhile_cons_of_neg (by simp [hp])]
        exact iff_of_false nofun fun h => by cases h.1.1
    | false =>
      rw [takeWhile_cons_of_neg (p := q) (by simp [hq]),
        find?_cons_of_pos (by simp [hq])]
      cases hp : p a with
      | true =>
        rw [takeWhile_cons_of_pos hp]
        exact iff_of_false nofun fun h => by
          have := h.2 a rfl
          rw [hp] at this
          cases this
      | false =>
        rw [takeWhile_cons_of_neg (p := p) (by simp [hp])]
        refine iff_of_true rfl ⟨nofun, fun b hb => ?_⟩
        rw [← Option.some.inj hb, hp]

end Supex.Lib
