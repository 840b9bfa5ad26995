import Mathlib.Data.List.Destutter
import Mathlib.Data.Finset.Card

/-!
# The first of each class

A key puts the elements of a list into classes. `firsts` keeps the first element of each
class, in the order of the list.

* `firsts_length` — there are as many firsts as different keys.

Main result: `firsts_eq_destutter`.
-/

namespace Supex.Lib

open List

variable {α κ : Type} [DecidableEq κ] (key : α → κ)

/-- The first element of each class. -/
def firsts : List α → List α
  | [] => []
  | x :: xs => x :: (firsts xs).filter (key · ≠ key x)

theorem firsts_sublist (xs : List α) : (firsts key xs).Sublist xs := by
  induction xs with
  | nil => exact List.Sublist.slnil
  | cons x xs ih => exact (filter_sublist.trans ih).cons_cons x

theorem mem_firsts_key (xs : List α) (k : κ) :
    k ∈ (firsts key xs).map key ↔ k ∈ xs.map key := by
  induction xs with
  | nil => rfl
  | cons x xs ih =>
    rw [firsts, map_cons, map_cons, mem_cons, mem_cons, ← ih]
    by_cases hk : k = key x
    · simp only [hk, true_or]
    · simp only [hk, false_or, mem_map, mem_filter, decide_eq_true_eq]
      constructor
      · rintro ⟨y, ⟨hy, -⟩, rfl⟩
        exact ⟨y, hy, rfl⟩
      · rintro ⟨y, hy, rfl⟩
        exact ⟨y, ⟨hy, hk⟩, rfl⟩

theorem firsts_nodup (xs : List α) : ((firsts key xs).map key).Nodup := by
  induction xs with
  | nil => exact nodup_nil
  | cons x xs ih =>
    rw [firsts, map_cons, nodup_cons]
    constructor
    · simp only [mem_map, mem_filter, decide_eq_true_eq]
      rintro ⟨y, ⟨-, hne⟩, heq⟩
      exact hne heq
    · exact ih.sublist (filter_sublist.map key)

theorem firsts_length (xs : List α) : (firsts key xs).length = (xs.map key).toFinset.card := by
  have hsame : (xs.map key).toFinset = ((firsts key xs).map key).toFinset := by
    ext k
    rw [mem_toFinset, mem_toFinset, mem_firsts_key]
  rw [hsame, toFinset_card_of_nodup (firsts_nodup key xs), length_map]

/-- **Ascending keys**: what differs from the element in front of it is the first of its
class. -/
theorem firsts_eq_destutter {ρ : Type} [LinearOrder ρ] (rank : α → ρ)
    (hrank : ∀ a b, rank a = rank b ↔ key a = key b) {x : α} {xs : List α}
    (h : (x :: xs).Pairwise (rank · ≤ rank ·)) :
    xs.destutter' (key · ≠ key ·) x = firsts key (x :: xs) := by
  induction xs generalizing x with
  | nil => rfl
  | cons y ys ih =>
    obtain ⟨hx, hy⟩ := pairwise_cons.mp h
    have hxys : (x :: ys).Pairwise (rank · ≤ rank ·) :=
      pairwise_cons.mpr ⟨fun z hz => hx z (mem_cons_of_mem y hz), hy.of_cons⟩
    by_cases hkey : key x = key y
    · -- `y` is of the class of `x`
      rw [destutter'_cons_neg _ (not_not.mpr hkey), ih hxys, firsts, firsts, firsts,
        filter_cons_of_neg (by simp [hkey]), filter_filter]
      congr 1
      apply filter_congr
      intro z _
      simp [hkey]
    · -- nothing behind `x` is of the class of `x`
      rw [destutter'_cons_pos _ hkey, ih hy, firsts.eq_2 key x]
      congr 1
      rw [eq_comm, filter_eq_self]
      intro z hz
      have hz : z ∈ y :: ys := (firsts_sublist key _).subset hz
      have hlt : rank x < rank y :=
        lt_of_le_of_ne (hx y (.head _)) fun heq => hkey ((hrank x y).mp heq)
      have hle : rank y ≤ rank z := by
        rcases mem_cons.mp hz with rfl | hz
        · exact le_rfl
        · exact (pairwise_cons.mp hy).1 z hz
      have hne : key z ≠ key x := fun heq => (hlt.trans_le hle).ne' ((hrank z x).mpr heq)
      simpa using hne

end Supex.Lib
