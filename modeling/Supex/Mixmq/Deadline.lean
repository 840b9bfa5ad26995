import Mathlib.Tactic.NormNum

/-!
# libmixmq — the deadline of a wait

A fetch from a blocking queue waits for its message until a deadline that
`queue_fetch_nth` computes from the time of day and the wait in milliseconds.
When the wait reaches into the next second, one second is added and the wait is
taken off the microseconds where a second should be.

Main result: `deadline_iff`.
-/

namespace Supex.Mixmq

/-- A `long` after an operation that may have left its range. -/
def wrap64 (n : Int) : Int := (n + 2 ^ 63) % 2 ^ 64 - 2 ^ 63

/-- `struct timeval`; both fields are `long`s. -/
structure Timeval where
  tvSec : Int
  tvUsec : Int

/-- `struct timespec`. -/
structure Timespec where
  tvSec : Int
  tvNsec : Int
  deriving DecidableEq

/-- What `gettimeofday` may return. -/
structure Timeval.Valid (now : Timeval) : Prop where
  sec_ge : -2 ^ 63 ≤ now.tvSec
  sec_lt : now.tvSec < 2 ^ 63
  usec_ge : 0 ≤ now.tvUsec
  usec_lt : now.tvUsec < 1000000

/-- The `timeout` of a wait of `queue_fetch_nth`, made from `now`. -/
def timeoutOf (now : Timeval) (millis : Nat) : Timespec :=
  let now :=
    if wrap64 (now.tvUsec + wrap64 (1000 * millis)) ≥ 1000000 then
      ⟨wrap64 (now.tvSec + 1),
        wrap64 (now.tvUsec + wrap64 (1000000 - wrap64 (1000 * millis)))⟩
    else (⟨now.tvSec, wrap64 (now.tvUsec + wrap64 (1000 * millis))⟩ : Timeval)
  ⟨now.tvSec, wrap64 (now.tvUsec * 1000)⟩

/-- The nanoseconds of a time of day, and of a deadline. -/
def Timeval.nanos (t : Timeval) : Int := t.tvSec * 1000000000 + t.tvUsec * 1000

def Timespec.nanos (t : Timespec) : Int := t.tvSec * 1000000000 + t.tvNsec

/-- The deadline is the time of day plus the wait, and normalised. -/
def DeadlineRight (now : Timeval) (millis : Nat) : Prop :=
  (timeoutOf now millis).nanos = now.nanos + millis * 1000000 ∧
    0 ≤ (timeoutOf now millis).tvNsec ∧ (timeoutOf now millis).tvNsec < 1000000000

theorem wrap64_of_range {n : Int} (h : -2 ^ 63 ≤ n) (h' : n < 2 ^ 63) : wrap64 n = n := by
  unfold wrap64
  omega

section Deadline

variable {now : Timeval} {millis : Nat} (hnow : now.Valid) (hmillis : millis < 2 ^ 32)

include hnow hmillis

theorem timeoutOf_within (h : now.tvUsec + 1000 * millis < 1000000) :
    timeoutOf now millis = ⟨now.tvSec, (now.tvUsec + 1000 * millis) * 1000⟩ := by
  have husec := hnow.usec_ge
  have hwait : wrap64 (1000 * millis) = 1000 * millis :=
    wrap64_of_range (by omega) (by omega)
  have hsum : wrap64 (now.tvUsec + 1000 * millis) = now.tvUsec + 1000 * millis :=
    wrap64_of_range (by omega) (by omega)
  rw [timeoutOf, hwait, hsum, if_neg (by omega)]
  dsimp only
  rw [wrap64_of_range (by omega) (by omega)]

theorem timeoutOf_beyond (h : 1000000 ≤ now.tvUsec + 1000 * millis) :
    timeoutOf now millis =
      ⟨wrap64 (now.tvSec + 1), (now.tvUsec + 1000000 - 1000 * millis) * 1000⟩ := by
  have husec' := hnow.usec_lt
  have hwait : wrap64 (1000 * millis) = 1000 * millis :=
    wrap64_of_range (by omega) (by omega)
  have hsum : wrap64 (now.tvUsec + 1000 * millis) = now.tvUsec + 1000 * millis :=
    wrap64_of_range (by omega) (by omega)
  have hoff : wrap64 (1000000 - 1000 * (millis : Int)) = 1000000 - 1000 * millis :=
    wrap64_of_range (by omega) (by omega)
  have hrest : wrap64 (now.tvUsec + (1000000 - 1000 * (millis : Int))) =
      now.tvUsec + 1000000 - 1000 * millis := by
    rw [wrap64_of_range (by omega) (by omega)]
    omega
  have hnsec : wrap64 ((now.tvUsec + 1000000 - 1000 * (millis : Int)) * 1000) =
      (now.tvUsec + 1000000 - 1000 * millis) * 1000 := wrap64_of_range (by omega) (by omega)
  rw [timeoutOf, hwait, hsum, if_pos h, hoff]
  rw [hrest, hnsec]

end Deadline

/-- **Deadline.** The deadline is the current time plus the wait, and
normalised, if and only if the wait ends within the current second, or is
exactly a second and there is a next one. -/
theorem deadline_iff (now : Timeval) (millis : Nat) (hnow : now.Valid) (hpos : 0 < millis)
    (hmillis : millis < 2 ^ 32) :
    DeadlineRight now millis ↔
      now.tvUsec + 1000 * millis < 1000000 ∨ (millis = 1000 ∧ now.tvSec < 2 ^ 63 - 1) := by
  have husec := hnow.usec_ge
  have husec' := hnow.usec_lt
  by_cases hwithin : now.tvUsec + 1000 * millis < 1000000
  · rw [DeadlineRight, timeoutOf_within hnow hmillis hwithin, Timespec.nanos, Timeval.nanos]
    dsimp only
    constructor
    · intro _
      exact .inl hwithin
    · intro _
      omega
  · have hsec := hnow.sec_ge
    have hsec' := hnow.sec_lt
    rw [DeadlineRight, timeoutOf_beyond hnow hmillis (by omega), Timespec.nanos, Timeval.nanos]
    dsimp only
    by_cases hlast : now.tvSec < 2 ^ 63 - 1
    · -- the seconds are right, so the wait was taken off where it was due
      rw [wrap64_of_range (by omega) (by omega)]
      omega
    · have hwrap : wrap64 (now.tvSec + 1) = -2 ^ 63 := by
        unfold wrap64
        omega
      rw [hwrap]
      omega

/-- A quarter of a second, in the middle of one. -/
theorem deadline_quarter : DeadlineRight ⟨1700000000, 500000⟩ 250 :=
  (deadline_iff ⟨1700000000, 500000⟩ 250 ⟨by decide, by decide, by decide, by decide⟩ (by decide)
    (by decide)).mpr (.inl (by decide))

/-- Three quarters of a second, in the middle of one: the deadline is half a
second late. -/
theorem not_deadline_threeQuarters : ¬DeadlineRight ⟨1700000000, 500000⟩ 750 := by
  have htimeout : timeoutOf ⟨1700000000, 500000⟩ 750 = ⟨1700000001, 750000000⟩ := by decide
  rintro ⟨hsame, -⟩
  rw [htimeout] at hsame
  revert hsame
  decide

end Supex.Mixmq
