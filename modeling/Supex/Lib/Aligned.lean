import Mathlib.Data.List.Perm.Basic

/-!
# Lists side by side

Two lists whose elements belong together one by one, up to the order of the first.

* `exists_forall₂` — a list of partners for a list.
* `forall₂_partner`, `forall₂_owner` — the other side of an element.
* `forall₂_map_of_mem` — the second list mapped.
* `forall₂_perm` — the first list in another order.
-/

namespace Supex.Lib

variable {α β : Type} {R S : α → β → Prop} {l l' : List α} {m : List β} {a : α} {b : β}

theorem exists_forall₂ (h : ∀ a ∈ l, ∃ b, R a b) : ∃ m, List.Forall₂ R l m := by
  induction l with
  | nil => exact ⟨[], List.Forall₂.nil⟩
  | cons a l ih =>
    obtain ⟨b, hb⟩ := h a (by simp)
    obtain ⟨m, hm⟩ := ih fun a' ha' => h a' (by simp [ha'])
    exact ⟨b :: m, List.Forall₂.cons hb hm⟩

theorem forall₂_partner (h : List.Forall₂ R l m) (ha : a ∈ l) : ∃ b ∈ m, R a b := by
  induction h with
  | nil => simp at ha
  | @cons a' b' l m hab _ ih =>
    rcases List.mem_cons.mp ha with rfl | hrest
    · exact ⟨b', by simp, hab⟩
    · obtain ⟨b, hb, hR⟩ := ih hrest
      exact ⟨b, by simp [hb], hR⟩

theorem forall₂_owner (h : List.Forall₂ R l m) (hb : b ∈ m) : ∃ a ∈ l, R a b :=
  forall₂_partner h.flip hb

theorem forall₂_map_of_mem {f : β → β} (h : List.Forall₂ R l m)
    (hf : ∀ a ∈ l, ∀ b, R a b → S a (f b)) : List.Forall₂ S l (m.map f) := by
  induction h with
  | nil => exact List.Forall₂.nil
  | @cons a b l m hab _ ih =>
    rw [List.map_cons]
    exact List.Forall₂.cons (hf a (by simp) b hab) (ih fun a' ha' => hf a' (by simp [ha']))

theorem forall₂_perm (h : List.Forall₂ R l m) (hl : l.Perm l') :
    ∃ m', m.Perm m' ∧ List.Forall₂ R l' m' := by
  obtain ⟨m', hm', hperm⟩ := List.perm_comp_forall₂ hl.symm h
  exact ⟨m', hperm.symm, hm'⟩

end Supex.Lib
