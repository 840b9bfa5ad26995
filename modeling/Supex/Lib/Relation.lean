import Mathlib.Data.List.Nodup

/-!
# Relations kept as lists

A relation between two types may be kept as a list of the second for each of the
first, without repetition. Kept in both directions it can be followed from
either side.

Main results: `Represents.insertAt`, `Represents.eraseAt`.
-/

namespace Supex.Lib

open List

variable {α β : Type} {r r' : α → β → Prop} {m : α → List β} {a : α} {b : β}

/-- The lists are the relation. -/
structure Represents (r : α → β → Prop) (m : α → List β) : Prop where
  nodup : ∀ a, (m a).Nodup
  mem : ∀ a b, b ∈ m a ↔ r a b

theorem Represents.congr (h : Represents r m) (hr : ∀ a b, r a b ↔ r' a b) : Represents r' m :=
  ⟨h.nodup, fun a b => (h.mem a b).trans (hr a b)⟩

variable [DecidableEq α] [BEq β] [LawfulBEq β]

/-- The list of an element with one more member, if it is not there yet. -/
def insertAt (m : α → List β) (a : α) (b : β) : α → List β :=
  Function.update m a (if b ∈ m a then m a else m a ++ [b])

/-- The list of an element without a member. -/
def eraseAt (m : α → List β) (a : α) (b : β) : α → List β :=
  Function.update m a ((m a).erase b)

theorem Represents.insertAt (h : Represents r m) :
    Represents (fun a' b' => r a' b' ∨ a' = a ∧ b' = b) (insertAt m a b) := by
  have hlist : ∀ a', Lib.insertAt m a b a' =
      if a' = a ∧ b ∉ m a then m a ++ [b] else m a' := by
    intro a'
    unfold Lib.insertAt
    rw [Function.update_apply]
    by_cases ha : a' = a <;> by_cases hb : b ∈ m a <;> simp [ha, hb]
  refine ⟨fun a' => ?_, fun a' b' => ?_⟩
  · rw [hlist]
    split
    · next hnew =>
      refine (h.nodup a).append (nodup_singleton b) fun x hx hx' => ?_
      rw [mem_singleton] at hx'
      exact hnew.2 (hx' ▸ hx)
    · exact h.nodup a'
  · rw [hlist]
    split
    · next hnew =>
      rw [mem_append, mem_singleton, h.mem, hnew.1]
      simp
    · next hold =>
      rw [h.mem]
      refine ⟨.inl, fun hor => hor.elim id fun hand => ?_⟩
      rw [hand.1, hand.2, ← h.mem]
      by_contra hb
      exact hold ⟨hand.1, hb⟩

theorem Represents.eraseAt (h : Represents r m) :
    Represents (fun a' b' => r a' b' ∧ ¬ (a' = a ∧ b' = b)) (eraseAt m a b) := by
  refine ⟨fun a' => ?_, fun a' b' => ?_⟩
  · unfold Lib.eraseAt
    rw [Function.update_apply]
    split
    · exact (h.nodup a).erase b
    · exact h.nodup a'
  · unfold Lib.eraseAt
    rw [Function.update_apply]
    split
    · next ha =>
      rw [(h.nodup a).mem_erase_iff, h.mem, ha]
      simp [and_comm]
    · next ha =>
      rw [h.mem]
      simp [ha]

end Supex.Lib
