import Mathlib.Data.Int.ModEq

/-!
# The ring of `lib/queue.lua`

`Queue:push` puts a value behind the last one and `Queue:pull` takes the first one, both
in a table of `_maxindex` slots that is used as a ring.

* `Queue.WF.push`, `Queue.WF.pull` — a push fills an empty slot, a pull empties a full one.
-/

namespace Supex.Linkup

open Function (update update_self update_of_ne)

/-- The fields of a queue. -/
structure Queue where
  first : Int
  last : Int
  counter : Nat
  maxindex : Nat
  value : Int → Option Nat

def Queue.new (capacity : Nat) : Queue where
  first := 0
  last := -1
  counter := 0
  maxindex := capacity
  value _ := none

/-- No space is left. -/
def Queue.Full (q : Queue) : Prop := q.maxindex ≤ q.counter

instance (q : Queue) : Decidable q.Full := inferInstanceAs (Decidable (_ ≤ _))

def Queue.push (q : Queue) (value : Nat) : Bool × Queue :=
  if q.Full then (false, q)
  else
    let last := (q.last + 1) % q.maxindex
    (true, { q with
      last := last
      value := update q.value last (some value)
      counter := q.counter + 1 })

def Queue.pull (q : Queue) : Option Nat × Queue :=
  if q.counter = 0 then (none, q)
  else
    (q.value q.first, { q with
      value := update q.value q.first none
      first := (q.first + 1) % q.maxindex
      counter := q.counter - 1 })

/-- The filled slots are the `counter` ones from `first` on, and `last` is the last of them. -/
structure Queue.WF (q : Queue) : Prop where
  pos : 0 < q.maxindex
  le : q.counter ≤ q.maxindex
  first : q.first % q.maxindex = q.first
  last : (q.last + 1) % q.maxindex = (q.first + q.counter) % q.maxindex
  filled : ∀ i, (q.value i).isSome ↔ ∃ k : Nat, k < q.counter ∧ i = (q.first + k) % q.maxindex

theorem Queue.WF.new {capacity : Nat} (h : 0 < capacity) : (Queue.new capacity).WF where
  pos := h
  le := Nat.zero_le _
  first := Int.zero_emod _
  last := rfl
  filled _ := iff_of_false nofun fun ⟨k, hk, _⟩ => Nat.not_lt_zero k hk

variable {q : Queue}

theorem slot_inj {first : Int} {m a b : Nat} (ha : a < m) (hb : b < m)
    (h : (first + a) % m = (first + b) % m) : a = b := by
  have hmod := Int.emod_add_cancel_left.mp h
  rw [Int.emod_eq_of_lt (Int.natCast_nonneg a) (by omega),
    Int.emod_eq_of_lt (Int.natCast_nonneg b) (by omega)] at hmod
  exact Int.ofNat.inj hmod

theorem slot_succ (first : Int) (m k : Nat) :
    ((first + 1) % m + k) % m = (first + (k + 1 : Nat)) % m := by
  rw [Int.emod_add_emod, Int.natCast_add, Int.add_assoc, Int.add_comm 1]
  rfl

theorem Queue.WF.push_empty (h : q.WF) (hspace : ¬q.Full) :
    q.value ((q.last + 1) % q.maxindex) = none := by
  rw [← Option.not_isSome_iff_eq_none, h.filled, h.last]
  rintro ⟨k, hk, heq⟩
  have hlt := Nat.lt_of_not_le hspace
  have := slot_inj hlt (hk.trans hlt) heq
  omega

theorem Queue.WF.push (h : q.WF) (hspace : ¬q.Full) (v : Nat) : (q.push v).2.WF := by
  rw [Queue.push, if_neg hspace]
  refine ⟨h.pos, Nat.lt_of_not_le hspace, h.first, ?_, fun i => ?_⟩
  · rw [h.last, Int.emod_add_emod, Int.natCast_add, Int.add_assoc]
    rfl
  · change (update q.value ((q.last + 1) % q.maxindex) (some v) i).isSome ↔
      ∃ k : Nat, k < q.counter + 1 ∧ i = (q.first + k) % q.maxindex
    rw [h.last]
    by_cases hi : i = (q.first + q.counter) % q.maxindex
    · rw [hi, update_self]
      exact iff_of_true rfl ⟨q.counter, Nat.lt_succ_self _, rfl⟩
    · rw [update_of_ne hi, h.filled]
      constructor
      · rintro ⟨k, hk, heq⟩
        exact ⟨k, Nat.lt_succ_of_lt hk, heq⟩
      · rintro ⟨k, hk, heq⟩
        refine ⟨k, Nat.lt_of_le_of_ne (Nat.le_of_lt_succ hk) ?_, heq⟩
        rintro rfl
        exact hi heq

theorem Queue.WF.pull_filled (h : q.WF) (hsome : q.counter ≠ 0) :
    ∃ v, q.value q.first = some v := by
  rw [← Option.isSome_iff_exists, h.filled]
  refine ⟨0, Nat.pos_of_ne_zero hsome, ?_⟩
  rw [Int.natCast_zero, Int.add_zero, h.first]

theorem Queue.WF.slot_ne_first (h : q.WF) {k : Nat} (hk : k + 1 < q.counter) :
    (q.first + (k + 1 : Nat)) % q.maxindex ≠ q.first := by
  intro heq
  have hzero : (q.first + (0 : Nat)) % q.maxindex = (q.first + (k + 1 : Nat)) % q.maxindex := by
    rw [Int.natCast_zero, Int.add_zero, h.first, heq]
  exact absurd (slot_inj h.pos (hk.trans_le h.le) hzero) (Nat.succ_ne_zero k).symm

theorem Queue.WF.pull (h : q.WF) : q.pull.2.WF := by
  rw [Queue.pull]
  split
  · exact h
  · rename_i hsome
    refine ⟨h.pos, (Nat.sub_le _ _).trans h.le, Int.emod_emod_of_dvd _ (dvd_refl _), ?_,
      fun i => ?_⟩
    · rw [slot_succ, Nat.sub_add_cancel (Nat.pos_of_ne_zero hsome), h.last]
    · simp only [slot_succ]
      by_cases hi : i = q.first
      · rw [hi, update_self]
        refine iff_of_false nofun ?_
        rintro ⟨k, hk, heq⟩
        exact h.slot_ne_first (by omega) heq.symm
      · rw [update_of_ne hi, h.filled]
        constructor
        · rintro ⟨k, hk, heq⟩
          cases k with
          | zero =>
            rw [Int.natCast_zero, Int.add_zero, h.first] at heq
            exact absurd heq hi
          | succ k => exact ⟨k, by omega, heq⟩
        · rintro ⟨k, hk, heq⟩
          exact ⟨k + 1, by omega, heq⟩

end Supex.Linkup
