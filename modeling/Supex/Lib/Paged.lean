import Mathlib.Logic.Function.Basic

/-!
# Paged tables

A table that is reached through an index of pages, where a page is allocated,
full of zeros, when something is first stored in it. Position `p` of the table is
entry `p % n` of page `p / n`.

* `Paged.get_put` — the table is one array: storing changes the one position.
-/

namespace Supex.Lib

variable {α : Type}

/-- The index: `none` is a page that is not there. -/
structure Paged (α : Type) where
  pages : Nat → Option (Nat → α)

namespace Paged

variable {z : α} {n : Nat}

def empty : Paged α := ⟨fun _ => none⟩

/-- A page, as it is once it is there. -/
def page (z : α) (t : Paged α) (i : Nat) : Nat → α := (t.pages i).getD fun _ => z

def get (z : α) (n : Nat) (t : Paged α) (p : Nat) : α := t.page z (p / n) (p % n)

def put (z : α) (n : Nat) (t : Paged α) (p : Nat) (a : α) : Paged α :=
  ⟨Function.update t.pages (p / n) (some (Function.update (t.page z (p / n)) (p % n) a))⟩

@[simp] theorem get_empty (z : α) (n p : Nat) : (empty : Paged α).get z n p = z := rfl

theorem get_put (t : Paged α) (p q : Nat) (a : α) :
    (t.put z n p a).get z n q = if q = p then a else t.get z n q := by
  unfold get put page
  by_cases hpage : q / n = p / n
  · rw [hpage]
    dsimp only
    rw [Function.update_self, Option.getD_some]
    by_cases hmod : q % n = p % n
    · have hpq : q = p := by rw [← Nat.div_add_mod q n, ← Nat.div_add_mod p n, hpage, hmod]
      rw [hpq, if_pos rfl, Function.update_self]
    · rw [Function.update_of_ne hmod, if_neg fun h => hmod (by rw [h])]
  · dsimp only
    rw [Function.update_of_ne hpage, if_neg fun h => hpage (by rw [h])]

end Paged

end Supex.Lib
