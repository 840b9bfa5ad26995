import Supex.Lib.Bytes
import Supex.Lib.Firsts
import Mathlib.Data.List.Rotate

/-!
# timport — one element for each time

`sort_array` puts the elements of a reply in the order of `strcmp`, `unique_array` then
moves one element for each timestamp, the first ten characters, to the front. The others
stay in the array; they travel behind the ones that are kept, in front of those that
have not been looked at.

The elements are pointers, `str` is what they point at. `int`s that overflow have no
value.

Main result: `unique_iff`.
-/

namespace Supex.Timport.Unique

open Supex.Lib List

--
-- Comparing strings
--

/-- The sign of `strcmp`, of strings without their NUL. -/
def strcmp : Bytes → Bytes → Ordering
  | [], [] => .eq
  | [], _ :: _ => .lt
  | _ :: _, [] => .gt
  | a :: s, b :: t => if a < b then .lt else if b < a then .gt else strcmp s t

/-- The sign of `strncmp`. -/
def strncmp : Nat → Bytes → Bytes → Ordering
  | 0, _, _ => .eq
  | _ + 1, [], [] => .eq
  | _ + 1, [], _ :: _ => .lt
  | _ + 1, _ :: _, [] => .gt
  | n + 1, a :: s, b :: t => if a < b then .lt else if b < a then .gt else strncmp n s t

/-- The characters as numbers, which are compared in turn. -/
def rank (s : Bytes) : List Nat := s.map UInt8.toNat

variable {s t : Bytes}

theorem rank_inj : rank s = rank t ↔ s = t := by
  rw [rank, rank, List.map_inj_right fun _ _ => UInt8.toNat_inj.mp]

theorem rank_cons_lt {a b : UInt8} :
    rank (a :: s) < rank (b :: t) ↔ a < b ∨ a = b ∧ rank s < rank t := by
  rw [rank, rank, map_cons, map_cons, cons_lt_cons_iff, UInt8.toNat_inj,
    ← UInt8.lt_iff_toNat_lt]
  rfl

theorem strncmp_lt_iff {n : Nat} : strncmp n s t = .lt ↔ rank (s.take n) < rank (t.take n) := by
  induction n generalizing s t with
  | zero => exact iff_of_false nofun (lt_irrefl _)
  | succ n ih =>
    cases s with
    | nil =>
      cases t with
      | nil => exact iff_of_false nofun (lt_irrefl _)
      | cons b t => exact iff_of_true rfl (nil_lt_cons _ _)
    | cons a s =>
      cases t with
      | nil => exact iff_of_false nofun (not_lt_nil _)
      | cons b t =>
        rw [strncmp, take_succ_cons, take_succ_cons, rank_cons_lt]
        by_cases hab : a < b
        · rw [if_pos hab]
          exact iff_of_true rfl (.inl hab)
        · rw [if_neg hab, or_iff_right hab]
          by_cases hba : b < a
          · rw [if_pos hba]
            exact iff_of_false nofun fun h => hab (h.1 ▸ hba)
          · have heq : a = b := UInt8.le_antisymm (UInt8.not_lt.mp hba) (UInt8.not_lt.mp hab)
            rw [if_neg hba, ih, and_iff_right heq]

theorem strncmp_gt_iff {n : Nat} : strncmp n s t = .gt ↔ strncmp n t s = .lt := by
  induction n generalizing s t with
  | zero => exact iff_of_false nofun nofun
  | succ n ih =>
    cases s with
    | nil => cases t <;> exact iff_of_false nofun nofun
    | cons a s =>
      cases t with
      | nil => exact iff_of_true rfl rfl
      | cons b t =>
        rw [strncmp, strncmp]
        by_cases hab : a < b
        · rw [if_pos hab, if_neg (UInt8.lt_asymm hab), if_pos hab]
          exact iff_of_false nofun nofun
        · by_cases hba : b < a
          · rw [if_neg hab, if_pos hba, if_pos hba]
            exact iff_of_true rfl rfl
          · rw [if_neg hab, if_neg hba, if_neg hba, if_neg hab, ih]

theorem strncmp_ne_gt_iff {n : Nat} : strncmp n s t ≠ .gt ↔ rank (s.take n) ≤ rank (t.take n) := by
  rw [ne_eq, strncmp_gt_iff, strncmp_lt_iff]
  exact not_lt

theorem strncmp_eq_iff {n : Nat} : strncmp n s t = .eq ↔ s.take n = t.take n := by
  rw [← rank_inj]
  constructor
  · intro h
    apply le_antisymm
    · rw [← strncmp_ne_gt_iff, h]
      nofun
    · have hback : strncmp n t s ≠ .gt := by
        rw [ne_eq, strncmp_gt_iff, h]
        nofun
      exact strncmp_ne_gt_iff.mp hback
  · intro h
    have hlt : strncmp n s t ≠ .lt := fun hlt => (strncmp_lt_iff.mp hlt).ne h
    have hgt : strncmp n s t ≠ .gt := strncmp_ne_gt_iff.mpr h.le
    generalize strncmp n s t = o at hlt hgt
    cases o with
    | lt => exact absurd rfl hlt
    | eq => rfl
    | gt => exact absurd rfl hgt

theorem strncmp_ne_gt (n : Nat) (h : strcmp s t ≠ .gt) : strncmp n s t ≠ .gt := by
  induction n generalizing s t with
  | zero => nofun
  | succ n ih =>
    cases s with
    | nil => cases t <;> nofun
    | cons a s =>
      cases t with
      | nil => exact absurd rfl h
      | cons b t =>
        rw [strcmp] at h
        rw [strncmp]
        split
        · nofun
        · rename_i hab
          rw [if_neg hab] at h
          split
          · rename_i hba
            exact absurd (if_pos hba) h
          · rename_i hba
            rw [if_neg hba] at h
            exact ih h

--
-- The code
--

def TIMESTAMP_SIZE : Nat := 10

def INT_MAX : Nat := 2147483647

/-- `tmp = element[i]; element[i] = element[j]; element[j] = tmp`. -/
def swapElements {α : Type} (l : List α) (i j : Nat) : List α :=
  match l[i]?, l[j]? with
  | some x, some y => (l.set i y).set j x
  | _, _ => l

@[simp] theorem length_swapElements {α : Type} (l : List α) (i j : Nat) :
    (swapElements l i j).length = l.length := by
  unfold swapElements
  split
  · rw [length_set, length_set]
  · rfl

section

variable {α : Type} (str : α → Bytes)

def compareElementp (p1 p2 : α) : Ordering := strcmp (cstr (str p1)) (cstr (str p2))

/-- The loop of `unique_array`; `none` is an `int` that overflows, or a place outside
the array. -/
def uniqueLoop (element : List α) (i j : Nat) : Option (Int × List α) :=
  if hj : j < element.length then
    match element[i]? with
    | none => none
    | some x =>
      match strncmp TIMESTAMP_SIZE (cstr (str x)) (cstr (str element[j])) with
      | .eq => if j < INT_MAX then uniqueLoop element i (j + 1) else none
      | .lt =>
        if i < INT_MAX ∧ j < INT_MAX then
          if i + 1 ≠ j then uniqueLoop (swapElements element (i + 1) j) (i + 1) (j + 1)
          else uniqueLoop element (i + 1) (j + 1)
        else none
      | .gt => some (toInt32 element.length, element)
  else if i < INT_MAX then some ((i : Int) + 1, element)
  else none
  termination_by element.length - j
  decreasing_by
    · omega
    · rw [length_swapElements]
      omega
    · omega

/-- `unique_array`: what it returns, and the array. -/
def uniqueArray (element : List α) : Option (Int × List α) := uniqueLoop str element 0 1

--
-- What it is for
--

/-- The timestamp an element starts with. -/
def timestamp (x : α) : Bytes := (cstr (str x)).take TIMESTAMP_SIZE

/-- In the order of `sort_array`. -/
def SortedArray (l : List α) : Prop := l.Pairwise fun a b => compareElementp str a b ≠ .gt

/-- The first element of each timestamp is in front, in ascending order. -/
structure FirstPerTime (l : List α) (k : Int) (l' : List α) : Prop where
  count : k = (l.map (timestamp str)).toFinset.card
  kept : l'.take k.toNat = firsts (timestamp str) l
  ascending : (l'.take k.toNat).Pairwise fun a b =>
    strncmp TIMESTAMP_SIZE (cstr (str a)) (cstr (str b)) = .lt
  perm : l'.Perm l

--
-- One element
--

/-- The timestamps ascend. -/
def Ascends (l : List α) : Prop :=
  l.Pairwise fun a b => rank (timestamp str a) ≤ rank (timestamp str b)

theorem SortedArray.ascends {l : List α} (h : SortedArray str l) : Ascends str l :=
  h.imp fun hab => strncmp_ne_gt_iff.mp (strncmp_ne_gt TIMESTAMP_SIZE hab)

theorem swapElements_append (a b c : List α) (x y : α) :
    swapElements (a ++ x :: b ++ y :: c) a.length (a.length + 1 + b.length) =
      a ++ y :: b ++ x :: c := by
  have hlen : (a ++ x :: b).length = a.length + 1 + b.length := by
    rw [length_append, length_cons]
    omega
  have hx : (a ++ x :: b ++ y :: c)[a.length]? = some x := by simp
  have hy : (a ++ x :: b ++ y :: c)[a.length + 1 + b.length]? = some y := by
    rw [← hlen, getElem?_append_right (Nat.le_refl _), Nat.sub_self, getElem?_cons_zero]
  have hlen' : (a ++ y :: b).length = a.length + 1 + b.length := by
    rw [length_append, length_cons]
    omega
  rw [swapElements, hx, hy]
  show ((a ++ x :: b ++ y :: c).set a.length y).set (a.length + 1 + b.length) x = _
  rw [append_assoc, set_append_right _ _ (Nat.le_refl _), Nat.sub_self, cons_append,
    set_cons_zero, ← cons_append, ← append_assoc, ← hlen',
    set_append_right _ _ (Nat.le_refl _), Nat.sub_self, set_cons_zero]

section

variable {us ds rest : List α} {x y : α}

theorem place_looked (us ds rest : List α) (x y : α) :
    (us ++ x :: ds ++ y :: rest)[us.length]? = some x ∧
      (us ++ x :: ds ++ y :: rest)[us.length + 1 + ds.length]? = some y := by
  have hlen : (us ++ x :: ds).length = us.length + 1 + ds.length := by
    rw [length_append, length_cons]
    omega
  constructor
  · simp
  · rw [← hlen, getElem?_append_right (Nat.le_refl _), Nat.sub_self, getElem?_cons_zero]

theorem uniqueLoop_cons :
    uniqueLoop str (us ++ x :: ds ++ y :: rest) us.length (us.length + 1 + ds.length) =
      match strncmp TIMESTAMP_SIZE (cstr (str x)) (cstr (str y)) with
      | .eq =>
        if us.length + 1 + ds.length < INT_MAX then
          uniqueLoop str (us ++ x :: (ds ++ [y]) ++ rest) us.length
            (us.length + 1 + (ds ++ [y]).length)
        else none
      | .lt =>
        if us.length + 1 + ds.length < INT_MAX then
          uniqueLoop str ((us ++ [x]) ++ y :: ds.rotate 1 ++ rest) (us ++ [x]).length
            ((us ++ [x]).length + 1 + (ds.rotate 1).length)
        else none
      | .gt => some (toInt32 (us ++ x :: ds ++ y :: rest).length, us ++ x :: ds ++ y :: rest) := by
  obtain ⟨hx, hy⟩ := place_looked us ds rest x y
  obtain ⟨hj, hget⟩ := List.getElem?_eq_some_iff.mp hy
  rw [uniqueLoop, dif_pos hj, hx]
  simp only [hget]
  cases strncmp TIMESTAMP_SIZE (cstr (str x)) (cstr (str y)) with
  | eq =>
    simp only [append_assoc, cons_append, nil_append, length_append,
      length_singleton, Nat.add_assoc]
  | gt => rfl
  | lt =>
    have hi : (us.length < INT_MAX ∧ us.length + 1 + ds.length < INT_MAX) ↔
        us.length + 1 + ds.length < INT_MAX := by omega
    simp only [hi]
    congr 1
    cases ds with
    | nil =>
      rw [length_nil, if_neg (by omega)]
      simp only [rotate_nil, append_assoc, cons_append, nil_append,
        length_append, length_singleton, length_nil, Nat.add_zero]
    | cons d ds =>
      have hswap : swapElements (us ++ x :: d :: ds ++ y :: rest) (us.length + 1)
          (us.length + 1 + (d :: ds).length) = us ++ [x] ++ y :: (ds ++ [d]) ++ rest := by
        have h := swapElements_append (us ++ [x]) ds rest d y
        rw [length_append, length_singleton] at h
        rw [length_cons, show us.length + 1 + (ds.length + 1) = us.length + 1 + 1 + ds.length
          by omega]
        simpa only [append_assoc, cons_append, nil_append] using h
      rw [if_pos (by rw [length_cons]; omega), hswap, rotate_cons_succ, rotate_zero]
      have hlen : (us ++ [x]).length = us.length + 1 := length_append
      have hlen' : (ds ++ [d]).length = (d :: ds).length := length_append
      rw [hlen, hlen', Nat.add_right_comm (us.length + 1)]

--
-- The whole array
--

theorem Ascends.drop (h : Ascends str (x :: y :: rest)) : Ascends str (x :: rest) := by
  obtain ⟨hx, hy⟩ := pairwise_cons.mp h
  exact pairwise_cons.mpr ⟨fun z hz => hx z (mem_cons_of_mem y hz), hy.of_cons⟩

theorem Ascends.cases (h : Ascends str (x :: y :: rest)) :
    (strncmp TIMESTAMP_SIZE (cstr (str x)) (cstr (str y)) = .eq ∧
        timestamp str x = timestamp str y) ∨
      (strncmp TIMESTAMP_SIZE (cstr (str x)) (cstr (str y)) = .lt ∧
        timestamp str x ≠ timestamp str y) := by
  have hle := (pairwise_cons.mp h).1 y (.head _)
  rcases hle.lt_or_eq with hlt | heq
  · exact .inr ⟨strncmp_lt_iff.mpr hlt, fun heq => hlt.ne (congrArg rank heq)⟩
  · have heq := rank_inj.mp heq
    exact .inl ⟨strncmp_eq_iff.mpr heq, heq⟩

/-- **The loop**, from three regions on: the kept elements up to `x`, those that are not
kept, and the rest. -/
theorem uniqueLoop_run (h : Ascends str (x :: rest))
    (hlen : us.length + 1 + ds.length + rest.length ≤ INT_MAX) :
    ∃ kept ds', kept = us ++ rest.destutter' (timestamp str · ≠ timestamp str ·) x ∧
      uniqueLoop str (us ++ x :: ds ++ rest) us.length (us.length + 1 + ds.length) =
        some ((kept.length : Int), kept ++ ds') ∧
      (kept ++ ds').Perm (us ++ x :: ds ++ rest) := by
  induction rest generalizing us x ds with
  | nil =>
    refine ⟨us ++ [x], ds, rfl, ?_, ?_⟩
    · have hend : ¬us.length + 1 + ds.length < (us ++ x :: ds ++ []).length := by
        rw [append_nil, length_append, length_cons]
        omega
      have hi : us.length < INT_MAX := by omega
      rw [uniqueLoop, dif_neg hend, if_pos hi, length_append, length_singleton,
        append_nil, append_assoc, Nat.cast_add, Nat.cast_one]
      rfl
    · rw [append_nil, append_assoc]
      exact List.Perm.refl _
  | cons y rest ih =>
    rw [length_cons] at hlen
    have hj : us.length + 1 + ds.length < INT_MAX := by omega
    rw [uniqueLoop_cons]
    rcases h.cases str with ⟨hcmp, hkey⟩ | ⟨hcmp, hkey⟩
    · obtain ⟨kept, ds', hkept, hrun, hperm⟩ := @ih us (ds ++ [y]) x h.drop (by
        rw [length_append, length_singleton]
        omega)
      refine ⟨kept, ds', ?_, ?_, ?_⟩
      · rw [hkept, destutter'_cons_neg _ (not_not.mpr hkey)]
      · simp only [hcmp, if_pos hj, hrun]
      · simpa only [append_assoc, cons_append, nil_append] using hperm
    · have hrot : (ds.rotate 1).length = ds.length := length_rotate ds 1
      obtain ⟨kept, ds', hkept, hrun, hperm⟩ :=
        @ih (us ++ [x]) (ds.rotate 1) y h.of_cons (by
          rw [length_append, length_singleton, hrot]
          omega)
      refine ⟨kept, ds', ?_, ?_, hperm.trans ?_⟩
      · rw [hkept, append_assoc, singleton_append, List.destutter', if_pos hkey]
      · simp only [hcmp, if_pos hj, hrun]
      · -- `y` goes in front of the elements that are not kept
        simp only [append_assoc, cons_append, nil_append]
        refine List.Perm.append_left us (List.Perm.cons x ?_)
        refine List.Perm.trans ?_ perm_middle.symm
        exact ((rotate_perm ds 1).append_right rest).cons y

theorem uniqueLoop_overflow (h : Ascends str (x :: rest))
    (hj : us.length + 1 + ds.length ≤ INT_MAX)
    (hlen : INT_MAX < us.length + 1 + ds.length + rest.length) :
    uniqueLoop str (us ++ x :: ds ++ rest) us.length (us.length + 1 + ds.length) = none := by
  induction rest generalizing us x ds with
  | nil =>
    rw [length_nil] at hlen
    omega
  | cons y rest ih =>
    rw [length_cons] at hlen
    rw [uniqueLoop_cons]
    by_cases hlast : us.length + 1 + ds.length < INT_MAX
    · rcases h.cases str with ⟨hcmp, -⟩ | ⟨hcmp, -⟩
      · have hds : (ds ++ [y]).length = ds.length + 1 := length_append
        simp only [hcmp, if_pos hlast]
        exact ih h.drop (by omega) (by omega)
      · have hus : (us ++ [x]).length = us.length + 1 := length_append
        have hrot : (ds.rotate 1).length = ds.length := length_rotate ds 1
        simp only [hcmp, if_pos hlast]
        exact ih h.of_cons (by omega) (by omega)
    · rcases h.cases str with ⟨hcmp, -⟩ | ⟨hcmp, -⟩
      · simp only [hcmp, if_neg hlast]
      · simp only [hcmp, if_neg hlast]

end

theorem firsts_ascending {l : List α} (h : Ascends str l) :
    (firsts (timestamp str) l).Pairwise fun a b =>
      strncmp TIMESTAMP_SIZE (cstr (str a)) (cstr (str b)) = .lt := by
  have hle := h.sublist (firsts_sublist (timestamp str) l)
  have hne := pairwise_map.mp (firsts_nodup (timestamp str) l)
  refine (hle.and hne).imp ?_
  rintro a b ⟨hle, hne⟩
  exact strncmp_lt_iff.mpr (lt_of_le_of_ne hle fun heq => hne (rank_inj.mp heq))

theorem uniqueArray_overflow {l : List α} (hsorted : SortedArray str l)
    (hlen : INT_MAX < l.length) : uniqueArray str l = none := by
  cases l with
  | nil => cases hlen
  | cons x rest =>
    rw [length_cons] at hlen
    exact uniqueLoop_overflow str hsorted.ascends
      (show ([] : List α).length + 1 + ([] : List α).length ≤ INT_MAX by
        rw [length_nil]; decide)
      (by rw [length_nil]; omega)

/-- The first element of each time is moved to the front, of the arrays that an `int` can
count. -/
theorem unique_iff (l : List α) (hne : l ≠ []) (hsorted : SortedArray str l) :
    (∃ k l', uniqueArray str l = some (k, l') ∧ FirstPerTime str l k l') ↔
      l.length ≤ INT_MAX := by
  constructor
  · rintro ⟨k, l', hrun, -⟩
    by_contra hlen
    rw [uniqueArray_overflow str hsorted (by omega)] at hrun
    cases hrun
  · intro hlen
    cases l with
    | nil => exact absurd rfl hne
    | cons x rest =>
      rw [length_cons] at hlen
      have hasc : Ascends str (x :: rest) := hsorted.ascends
      obtain ⟨kept, ds', hkept, hrun, hperm⟩ :=
        uniqueLoop_run str hasc (show ([] : List α).length + 1 + ([] : List α).length +
          rest.length ≤ INT_MAX by rw [length_nil]; omega)
      rw [nil_append, firsts_eq_destutter (timestamp str) (fun a => rank (timestamp str a))
        (fun _ _ => rank_inj) hasc] at hkept
      have htake : (kept ++ ds').take (kept.length : Int).toNat = kept := by
        rw [Int.toNat_natCast, take_left]
      refine ⟨kept.length, kept ++ ds', hrun, ?_, ?_, ?_, hperm⟩
      · rw [hkept, firsts_length]
      · rw [htake, hkept]
      · rw [htake, hkept]
        exact firsts_ascending str hasc

end

/-- Two elements of one time, and one of a later time. -/
theorem unique_iff_two_times :
    (∃ k l', uniqueArray id [ascii "1436000000:7", ascii "1436000000:8", ascii "1436000001:7"] =
          some (k, l') ∧
        FirstPerTime id [ascii "1436000000:7", ascii "1436000000:8", ascii "1436000001:7"] k l') ↔
      [ascii "1436000000:7", ascii "1436000000:8", ascii "1436000001:7"].length ≤ INT_MAX :=
  unique_iff id _ (by decide) (by unfold SortedArray; decide)

theorem sortedArray_replicate {α : Type} (str : α → Bytes) (n : Nat) (x : α) :
    SortedArray str (List.replicate n x) := by
  have hrefl : ∀ s : Bytes, strcmp s s = .eq := by
    intro s
    induction s with
    | nil => rfl
    | cons a s ih => rw [strcmp, if_neg (UInt8.lt_irrefl a), if_neg (UInt8.lt_irrefl a), ih]
  refine pairwise_replicate.mpr (.inr ?_)
  rw [compareElementp, hrefl]
  nofun

/-- As many elements as an `int` cannot count. -/
theorem not_unique_replicate :
    List.replicate (INT_MAX + 1) (ascii "1436000000") ≠ [] ∧
      SortedArray id (List.replicate (INT_MAX + 1) (ascii "1436000000")) ∧
      ¬∃ k l', uniqueArray id (List.replicate (INT_MAX + 1) (ascii "1436000000")) = some (k, l') ∧
        FirstPerTime id (List.replicate (INT_MAX + 1) (ascii "1436000000")) k l' := by
  have hsorted := sortedArray_replicate id (INT_MAX + 1) (ascii "1436000000")
  refine ⟨cons_ne_nil _ _, hsorted, ?_⟩
  rintro ⟨k, l', hrun, -⟩
  rw [uniqueArray_overflow id hsorted (by rw [length_replicate]; omega)] at hrun
  cases hrun

end Supex.Timport.Unique
