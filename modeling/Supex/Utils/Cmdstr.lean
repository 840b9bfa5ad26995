import Supex.Lib.Bytes

/-!
# utils: a command line as a table

`split_cmdstr_to_table` cuts a command line into its arguments. A quotation mark in
front of an argument takes everything up to the next one of its kind, anything else
goes up to the next blank or to the end.

Main result: `splitCmdstrToTable_iff`.
-/

namespace Supex.Utils

open List

/-- `split_cmdstr_to_table`; `none` is `nil, "args not ok"`. -/
def splitCmdstrToTable : Bytes → Option (List Bytes)
  | [] => some []
  | first :: rest =>
    if first = 32 then splitCmdstrToTable rest
    else
      let split := if first = 39 ∨ first = 34 then first else 32
      let cmdstr := if first = 39 ∨ first = 34 then rest else first :: rest
      if split ∈ cmdstr then
        (splitCmdstrToTable (cmdstr.dropWhile (· ≠ split)).tail).map
          (cmdstr.takeWhile (· ≠ split) :: ·)
      else if split = 32 then some [cmdstr] else none
termination_by cmdstr => cmdstr.length
decreasing_by
  · exact Nat.lt_succ_self _
  · rw [length_tail]
    refine Nat.lt_of_le_of_lt (Nat.sub_le_sub_right (dropWhile_sublist _).length_le 1) ?_
    split
    · exact Nat.lt_succ_of_le (Nat.sub_le ..)
    · exact Nat.lt_succ_self _

/-- A command line and its arguments. -/
inductive Renders : Bytes → List Bytes → Prop
  | nil : Renders [] []
  | blank {s args} : Renders s args → Renders (32 :: s) args
  | quoted {q w s args} : q = 39 ∨ q = 34 → q ∉ w → Renders s args →
      Renders (q :: (w ++ q :: s)) (w :: args)
  | word {a w s args} : ¬(a = 39 ∨ a = 34) → 32 ∉ a :: w → Renders s args →
      Renders (a :: w ++ 32 :: s) ((a :: w) :: args)
  | last {a w} : ¬(a = 39 ∨ a = 34) → 32 ∉ a :: w → Renders (a :: w) [a :: w]

variable {cmdstr : Bytes} {args : List Bytes}

theorem cut_eq {q : UInt8} {w : Bytes} (h : q ∉ w) (s : Bytes) :
    (w ++ q :: s).takeWhile (· ≠ q) = w ∧ ((w ++ q :: s).dropWhile (· ≠ q)).tail = s := by
  have hw : ∀ x ∈ w, decide (x ≠ q) = true := fun x hx => decide_eq_true fun heq => h (heq ▸ hx)
  refine ⟨takeWhile_append_stop hw (by simp), ?_⟩
  rw [dropWhile_append_of_pos hw]
  simp

theorem splitCmdstrToTable_quoted {q : UInt8} {w : Bytes} (hq : q = 39 ∨ q = 34) (hw : q ∉ w)
    (s : Bytes) :
    splitCmdstrToTable (q :: (w ++ q :: s)) = (splitCmdstrToTable s).map (w :: ·) := by
  have hblank : q ≠ 32 := by
    rintro rfl
    simp at hq
  rw [splitCmdstrToTable, if_neg hblank]
  simp only [if_pos hq]
  rw [if_pos (by simp), (cut_eq hw s).1, (cut_eq hw s).2]

theorem splitCmdstrToTable_word {a : UInt8} {w : Bytes} (ha : ¬(a = 39 ∨ a = 34))
    (hw : 32 ∉ a :: w) (s : Bytes) :
    splitCmdstrToTable (a :: w ++ 32 :: s) = (splitCmdstrToTable s).map ((a :: w) :: ·) := by
  rw [cons_append, splitCmdstrToTable, if_neg (ne_of_not_mem_cons hw).symm]
  simp only [if_neg ha]
  rw [← cons_append, if_pos (by simp), (cut_eq hw s).1, (cut_eq hw s).2]

theorem Renders.split (h : Renders cmdstr args) : splitCmdstrToTable cmdstr = some args := by
  induction h with
  | nil => rw [splitCmdstrToTable]
  | blank _ ih => rw [splitCmdstrToTable, if_pos rfl, ih]
  | quoted hq hw _ ih => rw [splitCmdstrToTable_quoted hq hw, ih, Option.map_some]
  | word ha hw _ ih => rw [splitCmdstrToTable_word ha hw, ih, Option.map_some]
  | last ha hw =>
    rw [splitCmdstrToTable, if_neg (ne_of_not_mem_cons hw).symm]
    simp [ha, hw]

/-- The function gives back exactly the arguments of which the line is made. -/
theorem splitCmdstrToTable_iff (cmdstr : Bytes) (args : List Bytes) :
    splitCmdstrToTable cmdstr = some args ↔ Renders cmdstr args := by
  refine ⟨fun h => ?_, Renders.split⟩
  fun_induction splitCmdstrToTable cmdstr generalizing args with
  | case1 =>
    cases h
    exact .nil
  | case2 rest ih => exact .blank (ih _ h)
  | case3 first rest hblank split cmdstr hmem ih =>
    obtain ⟨args, hargs, rfl⟩ := Option.map_eq_some_iff.mp h
    have hrest := ih _ hargs
    obtain ⟨w, s, hcut, hw⟩ := eq_append_cons_of_mem hmem
    rw [hcut, (cut_eq hw s).2] at hrest
    rw [hcut, (cut_eq hw s).1]
    by_cases hq : first = 39 ∨ first = 34
    · have hsplit : split = first := if_pos hq
      have hline : rest = w ++ split :: s := (if_pos hq).symm.trans hcut
      rw [hline, hsplit]
      exact .quoted hq (hsplit ▸ hw) hrest
    · have hsplit : split = 32 := if_neg hq
      have hline : first :: rest = w ++ split :: s := (if_neg hq).symm.trans hcut
      rw [hsplit] at hline hw
      cases w with
      | nil => exact absurd (cons.inj hline).1 hblank
      | cons a w =>
        obtain ⟨rfl, rfl⟩ := cons.inj hline
        exact .word hq hw hrest
  | case4 first rest hblank split cmdstr hmem hsplit =>
    cases h
    by_cases hq : first = 39 ∨ first = 34
    · exact absurd ((if_pos hq).symm.trans hsplit) hblank
    · have hline : cmdstr = first :: rest := if_neg hq
      rw [hline, hsplit] at hmem
      exact hline ▸ .last hq hmem
  | case5 => cases h

end Supex.Utils
