import Mathlib.Data.List.Chain

/-!
# Chains of bounded length

`ChainWithin r d a b`: from `a` one gets to `b` by at least one and at most `d`
steps of the relation `r`.

* `chainWithin_succ` — a chain is its first step and a shorter chain or nothing;
  this is what a depth-limited search goes by.
-/

namespace Supex.Lib

open List

variable {α : Type} {r : α → α → Prop} {d : Nat} {a b : α}

/-- There is a chain of at most `d` steps, and at least one, from `a` to `b`. -/
def ChainWithin (r : α → α → Prop) (d : Nat) (a b : α) : Prop :=
  ∃ path : List α, path.length ≤ d ∧ List.IsChain r (a :: path) ∧ path.getLast? = some b

theorem not_chainWithin_zero : ¬ChainWithin r 0 a b := by
  rintro ⟨path, hlen, -, hlast⟩
  obtain rfl := eq_nil_of_length_eq_zero (Nat.le_zero.mp hlen)
  cases hlast

theorem chainWithin_succ :
    ChainWithin r (d + 1) a b ↔ ∃ c, r a c ∧ (c = b ∨ ChainWithin r d c b) := by
  constructor
  · rintro ⟨path, hlen, hchain, hlast⟩
    rcases path with _ | ⟨c, path⟩
    · cases hlast
    · rw [isChain_cons_cons] at hchain
      refine ⟨c, hchain.1, ?_⟩
      rcases path with _ | ⟨e, path⟩
      · exact .inl (Option.some.inj hlast)
      · refine .inr ⟨e :: path, Nat.le_of_succ_le_succ hlen, hchain.2, ?_⟩
        rwa [getLast?_cons_cons] at hlast
  · rintro ⟨c, hstep, rfl | ⟨path, hlen, hchain, hlast⟩⟩
    · exact ⟨[c], by simp, isChain_pair.mpr hstep, rfl⟩
    · refine ⟨c :: path, Nat.succ_le_succ hlen, isChain_cons_cons.mpr ⟨hstep, hchain⟩, ?_⟩
      rcases path with _ | ⟨e, path⟩
      · cases hlast
      · rwa [getLast?_cons_cons]

end Supex.Lib
