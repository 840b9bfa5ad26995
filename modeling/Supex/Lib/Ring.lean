import Mathlib.Data.List.Chain
import Mathlib.Data.List.Nodup

/-!
# Circular doubly linked lists

The links of a list are two partial functions, `prev` and `next`; a ring is a list
of distinct elements in which every element is linked to the one behind it and the
last one to the first.

* `Ring.prev_head` — the first element knows the last.
* `ring_singleton`, `Ring.append` — an element is put in front of the first one,
  which is behind the last: what the links look like after the four writes.
* `Ring.congr` — writes to other elements do not matter.
-/

namespace Supex.Lib

open List

open Function (update update_of_ne update_self)

variable {α : Type} {prev next : α → Option α} {l : List α} {a b h x last : α}

/-- `b` is behind `a`. -/
def Linked (prev next : α → Option α) (a b : α) : Prop := next a = some b ∧ prev b = some a

structure Ring (prev next : α → Option α) (l : List α) : Prop where
  nodup : l.Nodup
  chain : ∀ h ∈ l.head?, List.IsChain (Linked prev next) (l ++ [h])

theorem Ring.linked_last (hr : Ring prev next l) (hh : l.head? = some h)
    (hlast : l.getLast? = some last) : Linked prev next last h := by
  obtain ⟨init, rfl⟩ := getLast?_eq_some_iff.mp hlast
  have hchain := hr.chain h hh
  rw [append_assoc] at hchain
  exact isChain_pair.mp (isChain_append.mp hchain).2.1

theorem Ring.prev_head (hr : Ring prev next l) (hh : l.head? = some h) :
    prev h = l.getLast? := by
  obtain ⟨last, hlast⟩ : ∃ last, l.getLast? = some last := by
    rcases l with _ | ⟨a, l⟩
    · cases hh
    · exact ⟨_, getLast?_eq_some_getLast (cons_ne_nil a l)⟩
  rw [hlast]
  exact (hr.linked_last hh hlast).2

theorem Ring.congr {prev' next' : α → Option α} (hr : Ring prev next l)
    (hprev : ∀ a ∈ l, prev' a = prev a) (hnext : ∀ a ∈ l, next' a = next a) :
    Ring prev' next' l := by
  refine ⟨hr.nodup, fun h hh => (hr.chain h hh).imp_of_mem_imp fun a b ha hb hab => ?_⟩
  -- the first element stands at both ends
  have hmem (c : α) (hc : c ∈ l ++ [h]) : c ∈ l := by
    rcases mem_append.mp hc with hc | hc
    · exact hc
    · rw [mem_singleton.mp hc]
      exact mem_of_mem_head? hh
  exact ⟨(hnext a (hmem a ha)).trans hab.1, (hprev b (hmem b hb)).trans hab.2⟩

variable [DecidableEq α]

theorem ring_singleton (prev next : α → Option α) (x : α) :
    Ring (update prev x (some x)) (update next x (some x)) [x] := by
  refine ⟨nodup_singleton x, ?_⟩
  rintro _ ⟨⟩
  exact isChain_pair.mpr ⟨update_self .., update_self ..⟩

theorem Ring.append (hr : Ring prev next l) (hx : x ∉ l) (hh : l.head? = some h)
    (hlast : l.getLast? = some last) :
    Ring (update (update prev x (some last)) h (some x))
      (update (update next x (some h)) last (some x)) (l ++ [x]) := by
  have hhl : h ∈ l := mem_of_mem_head? hh
  have hll : last ∈ l := mem_of_getLast? hlast
  have hxh : x ≠ h := fun heq => hx (heq ▸ hhl)
  have hxl : x ≠ last := fun heq => hx (heq ▸ hll)
  obtain ⟨t, rfl⟩ : ∃ t, l = h :: t := by
    rcases l with _ | ⟨a, t⟩
    · cases hh
    · exact ⟨t, by rw [Option.some.inj hh]⟩
  refine ⟨?_, ?_⟩
  · rw [nodup_append]
    refine ⟨hr.nodup, nodup_singleton x, fun a ha b hb heq => hx ?_⟩
    rwa [← mem_singleton.mp hb, ← heq]
  · rintro h' hh'
    obtain rfl : h = h' := Option.some.inj hh'
    have hold := (hr.chain h rfl).left_of_append
    refine (List.IsChain.append ?_ (isChain_singleton x) ?_).append
      (isChain_singleton h) ?_
    · -- links inside the list are not written to: only the last element has the first behind it
      refine hold.imp_of_mem_tail_imp fun a b ha hb hab => ?_
      have hbh : b ≠ h := fun heq => (nodup_cons.mp hr.nodup).1 (heq ▸ hb)
      have hbx : b ≠ x := fun heq => hx (heq ▸ mem_of_mem_tail hb)
      have hax : a ≠ x := fun heq => hx (heq ▸ ha)
      have hal : a ≠ last := by
        rintro rfl
        exact hbh (Option.some.inj (hab.1.symm.trans (hr.linked_last hh hlast).1))
      refine ⟨?_, ?_⟩
      · rw [update_of_ne hal, update_of_ne hax]
        exact hab.1
      · rw [update_of_ne hbh, update_of_ne hbx]
        exact hab.2
    · intro a ha b hb
      obtain rfl : last = a := Option.some.inj (hlast.symm.trans ha)
      obtain rfl : x = b := Option.some.inj hb
      refine ⟨update_self .., ?_⟩
      rw [update_of_ne hxh, update_self]
    · intro a ha b hb
      obtain rfl : x = a := by
        rw [getLast?_concat] at ha
        exact Option.some.inj ha
      obtain rfl : h = b := Option.some.inj hb
      refine ⟨?_, update_self ..⟩
      rw [update_of_ne hxl, update_self]

end Supex.Lib
