import Mathlib.Tactic.Common

/-!
# Things that are kept in places

Things come to life one after the other, and as long as a thing lives it has to be in
one place. `Moves` are the ways to go on that keep this: a thing moves to an empty place,
a new one enters, one leaves its place and dies. A thing that lives in no place
(`Lost`) stays lost.

* `Moves.exact` — every living thing stays in exactly one place, and nothing else does.
* `Moves.lost` — moves bring nothing back.
-/

namespace Supex.Lib

open Function (update)

variable {P : Type}

/-- What is in each place, which things live, and the next thing to come. -/
structure Custody (P : Type) where
  inside : P → Option Nat
  alive : Nat → Bool
  next : Nat

namespace Custody

variable {w w' : Custody P}

/-- What lives is in exactly one place, and what is in a place lives. -/
structure Exact (w : Custody P) : Prop where
  alive_iff : ∀ c, w.alive c = true ↔ ∃ p, w.inside p = some c
  unique : ∀ p q c, w.inside p = some c → w.inside q = some c → p = q

/-- Nothing is known of what is still to come. -/
structure Fresh (w : Custody P) : Prop where
  inside : ∀ p c, w.inside p = some c → c < w.next
  alive : ∀ c, w.alive c = true → c < w.next

/-- The thing lives, and is in no place. -/
structure Lost (w : Custody P) (c : Nat) : Prop where
  alive : w.alive c = true
  nowhere : ∀ p, w.inside p ≠ some c

theorem Lost.not_exact {c : Nat} (h : w.Lost c) : ¬w.Exact := by
  intro hw
  obtain ⟨p, hp⟩ := (hw.alive_iff c).mp h.alive
  exact h.nowhere p hp

def skip (w : Custody P) : Custody P := { w with next := w.next + 1 }

theorem Fresh.skip (h : w.Fresh) : w.skip.Fresh :=
  ⟨fun p c hp => Nat.lt_succ_of_lt (h.inside p c hp),
    fun c hc => Nat.lt_succ_of_lt (h.alive c hc)⟩

variable [DecidableEq P]

def move (w : Custody P) (p q : P) (c : Nat) : Custody P :=
  { w with inside := update (update w.inside p none) q (some c) }

def enter (w : Custody P) (q : P) : Custody P where
  inside := update w.inside q (some w.next)
  alive := update w.alive w.next true
  next := w.next + 1

def leave (w : Custody P) (p : P) (c : Nat) : Custody P where
  inside := update w.inside p none
  alive := update w.alive c false
  next := w.next

/-- The ways to go on. -/
inductive Moves : Custody P → Custody P → Prop where
  | refl (w : Custody P) : Moves w w
  | move {w w' : Custody P} (p q : P) (c : Nat) (from_p : w.inside p = some c)
      (to_q : w.inside q = none) (rest : Moves (w.move p q c) w') : Moves w w'
  | enter {w w' : Custody P} (q : P) (to_q : w.inside q = none) (rest : Moves (w.enter q) w') :
      Moves w w'
  | skip {w w' : Custody P} (rest : Moves w.skip w') : Moves w w'
  | leave {w w' : Custody P} (p : P) (c : Nat) (from_p : w.inside p = some c)
      (rest : Moves (w.leave p c) w') : Moves w w'

theorem Moves.trans {w₁ : Custody P} (h : Moves w w₁) (h' : Moves w₁ w') : Moves w w' := by
  induction h with
  | refl w => exact h'
  | move p q c hp hq _ ih => exact .move p q c hp hq (ih h')
  | enter q hq _ ih => exact .enter q hq (ih h')
  | skip _ ih => exact .skip (ih h')
  | leave p c hp _ ih => exact .leave p c hp (ih h')

--
-- One step
--

theorem update_none_eq_some {f : P → Option Nat} {p q : P} {c : Nat} :
    update f p none q = some c ↔ q ≠ p ∧ f q = some c := by
  by_cases h : q = p
  · subst h
    simp
  · simp [h]

theorem update_some_eq_some {f : P → Option Nat} {p q : P} {c d : Nat} :
    update f p (some d) q = some c ↔ (q = p ∧ d = c) ∨ (q ≠ p ∧ f q = some c) := by
  by_cases h : q = p
  · subst h
    simp
  · simp [h]

variable {p q : P} {c : Nat}

theorem Fresh.move (h : w.Fresh) (hp : w.inside p = some c) : (w.move p q c).Fresh := by
  refine ⟨fun r d hr => ?_, h.alive⟩
  rcases update_some_eq_some.mp hr with ⟨-, rfl⟩ | ⟨-, hr⟩
  · exact h.inside p _ hp
  · exact h.inside r d (update_none_eq_some.mp hr).2

theorem Fresh.enter (h : w.Fresh) : (w.enter q).Fresh := by
  refine ⟨fun r d hr => ?_, fun d hd => ?_⟩
  · rcases update_some_eq_some.mp hr with ⟨-, rfl⟩ | ⟨-, hr⟩
    · exact Nat.lt_succ_self _
    · exact Nat.lt_succ_of_lt (h.inside r d hr)
  · by_cases hnext : d = w.next
    · subst hnext
      exact Nat.lt_succ_self _
    · have hd : w.alive d = true := by
        rw [← hd]
        exact (Function.update_of_ne hnext _ _).symm
      exact Nat.lt_succ_of_lt (h.alive d hd)

theorem Fresh.leave (h : w.Fresh) : (w.leave p c).Fresh := by
  refine ⟨fun r d hr => h.inside r d (update_none_eq_some.mp hr).2, fun d hd => ?_⟩
  by_cases hdc : d = c
  · subst hdc
    simp [Custody.leave] at hd
  · exact h.alive d (by simpa [Custody.leave, hdc] using hd)

theorem Exact.move (h : w.Exact) (hp : w.inside p = some c) (hq : w.inside q = none) :
    (w.move p q c).Exact := by
  have hinside {r : P} {d : Nat} : (w.move p q c).inside r = some d ↔
      (r = q ∧ c = d) ∨ (r ≠ q ∧ r ≠ p ∧ w.inside r = some d) := by
    rw [Custody.move, update_some_eq_some, update_none_eq_some]
  refine ⟨fun d => (h.alive_iff d).trans ⟨?_, ?_⟩, fun r r' d hr hr' => ?_⟩
  · rintro ⟨r, hr⟩
    by_cases hrp : r = p
    · subst hrp
      exact ⟨q, hinside.mpr (.inl ⟨rfl, Option.some.inj (hp.symm.trans hr)⟩)⟩
    · refine ⟨r, hinside.mpr (.inr ⟨?_, hrp, hr⟩)⟩
      rintro rfl
      exact absurd (hq.symm.trans hr) nofun
  · rintro ⟨r, hr⟩
    rcases hinside.mp hr with ⟨-, rfl⟩ | ⟨-, -, hr⟩
    · exact ⟨p, hp⟩
    · exact ⟨r, hr⟩
  · rcases hinside.mp hr with ⟨hrq, hcd⟩ | ⟨-, hne, hin⟩
    · rcases hinside.mp hr' with ⟨hrq', -⟩ | ⟨-, hne', hin'⟩
      · exact hrq.trans hrq'.symm
      · exact absurd (h.unique _ _ _ hin' (hcd ▸ hp)) hne'
    · rcases hinside.mp hr' with ⟨-, hcd⟩ | ⟨-, -, hin'⟩
      · exact absurd (h.unique _ _ _ hin (hcd ▸ hp)) hne
      · exact h.unique _ _ _ hin hin'

theorem Exact.enter (h : w.Exact) (hfresh : w.Fresh) (hq : w.inside q = none) :
    (w.enter q).Exact := by
  have hinside {r : P} {d : Nat} : (w.enter q).inside r = some d ↔
      (r = q ∧ w.next = d) ∨ (r ≠ q ∧ w.inside r = some d) := update_some_eq_some
  have hne {r : P} {d : Nat} (hr : w.inside r = some d) : r ≠ q := by
    rintro rfl
    exact absurd (hq.symm.trans hr) nofun
  refine ⟨fun d => ⟨fun hd => ?_, ?_⟩, fun r r' d hr hr' => ?_⟩
  · by_cases hnext : d = w.next
    · exact ⟨q, hinside.mpr (.inl ⟨rfl, hnext.symm⟩)⟩
    · obtain ⟨r, hr⟩ := (h.alive_iff d).mp (by simpa [Custody.enter, hnext] using hd)
      exact ⟨r, hinside.mpr (.inr ⟨hne hr, hr⟩)⟩
  · rintro ⟨r, hr⟩
    rcases hinside.mp hr with ⟨-, rfl⟩ | ⟨-, hr⟩
    · simp [Custody.enter]
    · have hd := (h.alive_iff d).mpr ⟨r, hr⟩
      by_cases hnext : d = w.next
      · simp [Custody.enter, hnext]
      · simpa [Custody.enter, hnext] using hd
  · rcases hinside.mp hr with ⟨hrq, hnext⟩ | ⟨-, hin⟩
    · rcases hinside.mp hr' with ⟨hrq', -⟩ | ⟨-, hin'⟩
      · exact hrq.trans hrq'.symm
      · exact absurd hnext (Nat.ne_of_gt (hfresh.inside _ _ hin'))
    · rcases hinside.mp hr' with ⟨-, hnext⟩ | ⟨-, hin'⟩
      · exact absurd hnext (Nat.ne_of_gt (hfresh.inside _ _ hin))
      · exact h.unique _ _ _ hin hin'

theorem Exact.leave (h : w.Exact) (hp : w.inside p = some c) : (w.leave p c).Exact := by
  have hinside {r : P} {d : Nat} : (w.leave p c).inside r = some d ↔
      r ≠ p ∧ w.inside r = some d := update_none_eq_some
  refine ⟨fun d => ⟨fun hd => ?_, ?_⟩, fun r r' d hr hr' => ?_⟩
  · have hdc : d ≠ c := by
      rintro rfl
      simp [Custody.leave] at hd
    obtain ⟨r, hr⟩ := (h.alive_iff d).mp (by simpa [Custody.leave, hdc] using hd)
    refine ⟨r, hinside.mpr ⟨fun hrp => hdc ?_, hr⟩⟩
    exact Option.some.inj (hr.symm.trans (hrp ▸ hp))
  · rintro ⟨r, hr⟩
    obtain ⟨hne, hin⟩ := hinside.mp hr
    have hdc : d ≠ c := fun hdc => hne (h.unique _ _ _ hin (hdc ▸ hp))
    simpa [Custody.leave, hdc] using (h.alive_iff d).mpr ⟨r, hin⟩
  · exact h.unique _ _ _ (hinside.mp hr).2 (hinside.mp hr').2

--
-- Many steps
--

theorem Moves.fresh (h : Moves w w') (hw : w.Fresh) : w'.Fresh := by
  induction h with
  | refl w => exact hw
  | move p q c hp hq _ ih => exact ih (hw.move hp)
  | enter q hq _ ih => exact ih hw.enter
  | skip _ ih => exact ih hw.skip
  | leave p c hp _ ih => exact ih hw.leave

theorem Moves.exact (h : Moves w w') (hfresh : w.Fresh) (hw : w.Exact) : w'.Exact := by
  induction h with
  | refl w => exact hw
  | move p q c hp hq _ ih => exact ih (hfresh.move hp) (hw.move hp hq)
  | enter q hq _ ih => exact ih hfresh.enter (hw.enter hfresh hq)
  | skip _ ih => exact ih hfresh.skip ⟨hw.alive_iff, hw.unique⟩
  | leave p c hp _ ih => exact ih hfresh.leave (hw.leave hp)

theorem Moves.lost (h : Moves w w') (hfresh : w.Fresh) (hw : w.Lost c) : w'.Lost c := by
  induction h with
  | refl w => exact hw
  | @move w _ p q d hp hq _ ih =>
    refine ih (hfresh.move hp) ⟨hw.alive, fun r hr => ?_⟩
    rcases update_some_eq_some.mp hr with ⟨-, rfl⟩ | ⟨-, hr⟩
    · exact hw.nowhere p hp
    · exact hw.nowhere r (update_none_eq_some.mp hr).2
  | @enter w _ q hq _ ih =>
    have hlt := hfresh.alive c hw.alive
    refine ih hfresh.enter ⟨?_, fun r hr => ?_⟩
    · simpa [Custody.enter, Nat.ne_of_lt hlt] using hw.alive
    · rcases update_some_eq_some.mp hr with ⟨-, rfl⟩ | ⟨-, hr⟩
      · exact absurd hlt (Nat.lt_irrefl _)
      · exact hw.nowhere r hr
  | skip _ ih => exact ih hfresh.skip ⟨hw.alive, hw.nowhere⟩
  | @leave w _ p d hp _ ih =>
    have hne : c ≠ d := by
      rintro rfl
      exact hw.nowhere p hp
    refine ih hfresh.leave ⟨?_, fun r hr => hw.nowhere r (update_none_eq_some.mp hr).2⟩
    simpa [Custody.leave, hne] using hw.alive

end Custody

end Supex.Lib
