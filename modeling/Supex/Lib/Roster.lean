import Mathlib.Data.List.Dedup
import Mathlib.Data.List.Perm.Subperm
import Supex.Lib.Run

/-!
# Rosters

A roster is kept twice: as the list of its present members, and as a log that
every joining member is appended to and nobody is ever removed from. The two
agree for as long as nobody leaves.

* `live_length` — then there are as many members as distinct names brought in.

Main result: `log_eq_live_iff`.
-/

namespace Supex.Lib

open List

variable {α : Type}

/-- Somebody joins or leaves. -/
inductive Move (α : Type) where
  | join (x : α)
  | leave (x : α)

/-- The members, and the log of those that joined. -/
structure Roster (α : Type) where
  live : List α
  log : List α

/-- A member joins once; leaving does not reach the log. -/
def Roster.step [DecidableEq α] (r : Roster α) : Move α → Roster α
  | .join x => if x ∈ r.live then r else ⟨r.live ++ [x], r.log ++ [x]⟩
  | .leave x => ⟨r.live.eraseP fun y => decide (y = x), r.log⟩

/-- The roster after a list of moves, from an empty one. -/
def Roster.after [DecidableEq α] (moves : List (Move α)) : Roster α :=
  moves.foldl Roster.step ⟨[], []⟩

/-- Nobody leaves after having joined. -/
def Stays (moves : List (Move α)) : Prop :=
  ∀ before after x, moves = before ++ .leave x :: after → .join x ∉ before

/-- The names of those that join. -/
def joined (moves : List (Move α)) : List α :=
  moves.filterMap fun
    | .join x => some x
    | .leave _ => none

theorem mem_joined {moves : List (Move α)} {x : α} : x ∈ joined moves ↔ .join x ∈ moves := by
  unfold joined
  rw [mem_filterMap]
  constructor
  · rintro ⟨m, hm, hx⟩
    cases m with
    | join y =>
      obtain rfl : y = x := by simpa using hx
      exact hm
    | leave y => simp at hx
  · intro h
    exact ⟨.join x, h, rfl⟩

theorem stays_concat {moves : List (Move α)} {m : Move α} :
    Stays (moves ++ [m]) ↔ Stays moves ∧ ∀ x, m = .leave x → .join x ∉ moves := by
  constructor
  · intro h
    refine ⟨fun before after x heq => ?_, fun x hm => h moves [] x (by rw [hm])⟩
    exact h before (after ++ [m]) x (by rw [heq]; simp)
  · rintro ⟨hstays, hlast⟩ before after x heq
    obtain ⟨-, rfl, hm⟩ | ⟨l, hl, -⟩ := concat_eq_append_cons heq
    · exact hlast x hm
    · exact hstays _ _ _ hl

section Roster

variable [DecidableEq α]

theorem Roster.after_concat (moves : List (Move α)) (m : Move α) :
    Roster.after (moves ++ [m]) = (Roster.after moves).step m := by
  simp [Roster.after]

/-- What holds of a roster after any moves. -/
structure RosterInv (moves : List (Move α)) : Prop where
  nodup : (Roster.after moves).live.Nodup
  joined : ∀ x ∈ (Roster.after moves).live, .join x ∈ moves
  length_le : (Roster.after moves).live.length ≤ (Roster.after moves).log.length
  agree : (Roster.after moves).log = (Roster.after moves).live ↔ Stays moves
  present : Stays moves → ∀ x, .join x ∈ moves → x ∈ (Roster.after moves).live

theorem RosterInv.join {moves : List (Move α)} (h : RosterInv moves) (x : α) :
    RosterInv (moves ++ [.join x]) := by
  have hstays : Stays (moves ++ [.join x]) ↔ Stays moves := by
    rw [stays_concat]
    exact ⟨fun hs => hs.1, fun hs => ⟨hs, nofun⟩⟩
  by_cases hx : x ∈ (Roster.after moves).live
  · -- a member joins again: nothing happens
    have hsame : Roster.after (moves ++ [.join x]) = Roster.after moves := by
      rw [Roster.after_concat, Roster.step, if_pos hx]
    refine ⟨?_, ?_, ?_, ?_, ?_⟩ <;> rw [hsame]
    · exact h.nodup
    · exact fun y hy => mem_append_left _ (h.joined y hy)
    · exact h.length_le
    · rw [hstays, h.agree]
    · intro hs y hy
      rcases mem_append.mp hy with hy | hy
      · exact h.present (hstays.mp hs) y hy
      · rw [mem_singleton, Move.join.injEq] at hy
        rw [hy]
        exact hx
  · have hnew : Roster.after (moves ++ [.join x]) =
        ⟨(Roster.after moves).live ++ [x], (Roster.after moves).log ++ [x]⟩ := by
      rw [Roster.after_concat, Roster.step, if_neg hx]
    refine ⟨?_, ?_, ?_, ?_, ?_⟩ <;> rw [hnew]
    · refine List.Nodup.append h.nodup (nodup_singleton x) ?_
      intro y hy hyx
      rw [mem_singleton] at hyx
      exact hx (hyx ▸ hy)
    · intro y hy
      rcases mem_append.mp hy with hy | hy
      · exact mem_append_left _ (h.joined y hy)
      · rw [mem_singleton] at hy
        rw [hy]
        simp
    · rw [length_append, length_append]
      exact Nat.add_le_add_right h.length_le _
    · rw [hstays, ← h.agree]
      exact ⟨fun heq => append_cancel_right heq, fun heq => by rw [heq]⟩
    · intro hs y hy
      rcases mem_append.mp hy with hy | hy
      · exact mem_append_left _ (h.present (hstays.mp hs) y hy)
      · rw [mem_singleton, Move.join.injEq] at hy
        rw [hy]
        simp

theorem RosterInv.leave {moves : List (Move α)} (h : RosterInv moves) (x : α) :
    RosterInv (moves ++ [.leave x]) := by
  have hnew : Roster.after (moves ++ [.leave x]) =
      ⟨(Roster.after moves).live.eraseP fun y => decide (y = x), (Roster.after moves).log⟩ := by
    rw [Roster.after_concat, Roster.step]
  have hmem : ∀ y, .join y ∈ moves ++ [.leave x] → .join y ∈ moves := by
    intro y hy
    simpa using hy
  have hle := h.length_le
  by_cases hx : x ∈ (Roster.after moves).live
  · -- a member leaves: from now on the log is longer
    have hlen := length_eraseP_of_mem (p := fun y => decide (y = x)) hx (decide_eq_true rfl)
    have hpos := length_pos_of_mem hx
    have hnot : ¬Stays (moves ++ [.leave x]) := by
      rw [stays_concat]
      exact fun hs => hs.2 x rfl (h.joined x hx)
    refine ⟨?_, ?_, ?_, ?_, fun hs => absurd hs hnot⟩ <;> rw [hnew]
    · exact h.nodup.sublist eraseP_sublist
    · exact fun y hy => mem_append_left _ (h.joined y (mem_of_mem_eraseP hy))
    · dsimp only
      omega
    · refine iff_of_false (fun heq => ?_) hnot
      have := congrArg List.length heq
      dsimp only at this
      omega
  · have herase : (Roster.after moves).live.eraseP (fun y => decide (y = x)) =
        (Roster.after moves).live :=
      eraseP_of_forall_not fun y hy heq => hx (of_decide_eq_true heq ▸ hy)
    have hstays : Stays (moves ++ [.leave x]) ↔ Stays moves := by
      rw [stays_concat]
      refine ⟨fun hs => hs.1, fun hs => ⟨hs, fun y hy => ?_⟩⟩
      rw [Move.leave.injEq] at hy
      exact fun hjoin => hx (hy ▸ h.present hs y hjoin)
    rw [herase] at hnew
    refine ⟨?_, ?_, ?_, ?_, ?_⟩ <;> rw [hnew]
    · exact h.nodup
    · exact fun y hy => mem_append_left _ (h.joined y hy)
    · exact hle
    · rw [hstays]
      exact h.agree
    · exact fun hs y hy => h.present (hstays.mp hs) y (hmem y hy)

theorem rosterInv (moves : List (Move α)) : RosterInv moves := by
  induction moves using List.reverseRecOn with
  | nil =>
    refine ⟨nodup_nil, nofun, Nat.le_refl _, iff_of_true rfl ?_, nofun⟩
    intro before after x heq
    simp at heq
  | append_singleton moves m ih =>
    cases m with
    | join x => exact ih.join x
    | leave x => exact ih.leave x

/-- **Agreement.** The log is the list of members if and only if nobody has
left after having joined. -/
theorem log_eq_live_iff (moves : List (Move α)) :
    (Roster.after moves).log = (Roster.after moves).live ↔ Stays moves :=
  (rosterInv moves).agree

theorem live_length {moves : List (Move α)} (h : Stays moves) :
    (Roster.after moves).live.length = (joined moves).dedup.length := by
  apply List.Perm.length_eq
  rw [perm_ext_iff_of_nodup (rosterInv moves).nodup (nodup_dedup _)]
  intro x
  rw [mem_dedup, mem_joined]
  exact ⟨(rosterInv moves).joined x, (rosterInv moves).present h x⟩

end Roster

end Supex.Lib
