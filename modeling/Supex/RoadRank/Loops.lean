import Supex.RoadRank.Sections

/-!
# The loops over the table

What the loops of `Supex.RoadRank.Sections` write, and that they keep to the table: a
segment goes into the slots in front of 98, and nothing outside the table is touched
(`Road.Indexed`).
-/

namespace Supex.RoadRank

open Supex.Lib

/-- In the table, and as a segment in front of slot 98. -/
def Access.Good (a : Access) : Prop :=
  0 ≤ a.index ∧ a.index < ROADSECNUM ∧ (a.kind = .segment → a.index < 98)

def Road.Indexed (r : Road) : Prop := ∀ a ∈ r.log, a.Good

variable {r : Road}

--
-- Single slots
--

@[simp] theorem sec_look (r : Road) (i : Int) : (r.look i).sec = r.sec := rfl
@[simp] theorem secNum_look (r : Road) (i : Int) : (r.look i).secNum = r.secNum := rfl

@[simp] theorem sec_put_self (r : Road) (i : Int) (f : Site → Site) :
    (r.put i f).sec i = f (r.sec i) := Function.update_self ..

variable {i : Int}

theorem sec_put_of_ne {j : Int} (h : j ≠ i) (r : Road) (f : Site → Site) :
    (r.put i f).sec j = r.sec j := Function.update_of_ne h ..

theorem sec_putBorder_of_ne {j : Int} (h : j ≠ i) (r : Road) (f : Site → Site) :
    (r.putBorder i f).sec j = r.sec j := Function.update_of_ne h ..

theorem Road.Indexed.snoc (h : r.Indexed) {a : Access} (ha : a.Good) :
    ∀ b ∈ r.log ++ [a], b.Good := by
  intro b hb
  rcases List.mem_append.mp hb with hb | hb
  · exact h b hb
  · rw [List.mem_singleton.mp hb]
    exact ha

theorem Road.Indexed.look (h : r.Indexed) (hlo : 0 ≤ i) (hhi : i < ROADSECNUM) :
    (r.look i).Indexed :=
  h.snoc ⟨hlo, hhi, nofun⟩

theorem Road.Indexed.put (h : r.Indexed) (hlo : 0 ≤ i) (hhi : i < 98) (f : Site → Site) :
    (r.put i f).Indexed :=
  h.snoc ⟨hlo, hhi.trans (by decide), fun _ => hhi⟩

theorem Road.Indexed.putBorder (h : r.Indexed) (hlo : 0 ≤ i) (hhi : i < ROADSECNUM)
    (f : Site → Site) : (r.putBorder i f).Indexed :=
  h.snoc ⟨hlo, hhi, nofun⟩

theorem Road.Indexed.setSection (h : r.Indexed) (hlo : 0 ≤ i) (hhi : i < 98) (g : Report)
    (avg : Nat) : (r.setSection i g avg).Indexed := h.put hlo hhi _

theorem Road.Indexed.setUsed (h : r.Indexed) (hlo : 0 ≤ i) (hhi : i < 98) (flag : Bool)
    (g : Report) : (r.setUsed i flag g).Indexed := h.put hlo hhi _

theorem Road.Indexed.setEnd (h : r.Indexed) (g : Report) (avg : Nat) : (r.setEnd g avg).Indexed :=
  h.putBorder (by decide) (by decide) _

--
-- The search
--

theorem getIntervalFrom_spec (x : Int) (n : Nat) (i : Int) (r : Road) :
    (getIntervalFrom x n i r).2.sec = r.sec ∧ (getIntervalFrom x n i r).2.secNum = r.secNum ∧
      (getIntervalFrom x n i r).2.endTime = r.endTime ∧
      i ≤ (getIntervalFrom x n i r).1 ∧ (getIntervalFrom x n i r).1 ≤ i + n ∧
      (∀ j, i ≤ j → j < (getIntervalFrom x n i r).1 → (r.sec j).end_ < x) ∧
      ((getIntervalFrom x n i r).1 < i + n → x ≤ (r.sec (getIntervalFrom x n i r).1).end_) := by
  induction n generalizing i r with
  | zero =>
    refine ⟨rfl, rfl, rfl, le_rfl, by simp [getIntervalFrom], fun j hj hj' => ?_, fun h => ?_⟩
    · exact absurd hj' (not_lt.mpr hj)
    · simp [getIntervalFrom] at h
  | succ n ih =>
    rw [getIntervalFrom]
    by_cases hx : x ≤ ((r.look i).sec i).end_
    · rw [if_pos hx]
      refine ⟨rfl, rfl, rfl, le_rfl, by omega, fun j hj hj' => ?_, fun _ => hx⟩
      exact absurd hj' (not_lt.mpr hj)
    · rw [if_neg hx]
      obtain ⟨hsec, hnum, htime, hlo, hhi, hbefore, hat⟩ := ih (i + 1) (r.look i)
      refine ⟨hsec, hnum, htime, by omega, by push_cast at hhi ⊢; omega, fun j hj hj' => ?_,
        fun h => hat (by push_cast at h; omega)⟩
      rcases hj.lt_or_eq with hlt | rfl
      · exact hbefore j (by omega) hj'
      · exact not_le.mp hx

theorem getIntervalFrom_indexed (x : Int) {n : Nat} (h : r.Indexed) (hlo : 0 ≤ i)
    (hhi : i + n ≤ ROADSECNUM) : (getIntervalFrom x n i r).2.Indexed := by
  induction n generalizing i r with
  | zero => exact h
  | succ n ih =>
    have hlook := h.look hlo (by push_cast at hhi; omega)
    rw [getIntervalFrom]
    split
    · exact hlook
    · exact ih hlook (by omega) (by push_cast at hhi; omega)

/-- What `get_interval` returns, as a number of slots. -/
structure Interval (r : Road) (x v : Int) : Prop where
  low : 0 ≤ v
  high : v ≤ r.secNum
  before : ∀ j, 0 ≤ j → j < v → (r.sec j).end_ < x
  at_ : v < r.secNum → x ≤ (r.sec v).end_

theorem getInterval_interval (h : 0 ≤ r.secNum) (x : Int) : Interval r x (getInterval r 0 x).1 := by
  obtain ⟨-, -, -, hlo, hhi, hbefore, hat⟩ :=
    getIntervalFrom_spec x (r.secNum - 0).toNat 0 r
  have hcast : (0 : Int) + ((r.secNum - 0).toNat : Int) = r.secNum := by omega
  rw [hcast] at hhi hat
  exact ⟨hlo, hhi, hbefore, hat⟩

--
-- Deletion
--

/-- What a slot becomes when it takes over its next one. -/
def takeOver (s next : Site) : Site := setUsedTime (copySite s next) true next.usedTime

theorem shiftDown_spec (n : Nat) (j : Int) (r : Road) :
    (shiftDown n j r).secNum = r.secNum ∧ (shiftDown n j r).endTime = r.endTime ∧
      ∀ i, (shiftDown n j r).sec i =
        if j ≤ i ∧ i < j + n then takeOver (r.sec i) (r.sec (i + 1)) else r.sec i := by
  induction n generalizing j r with
  | zero =>
    refine ⟨rfl, rfl, fun i => ?_⟩
    rw [if_neg (by omega)]
    rfl
  | succ n ih =>
    rw [shiftDown]
    obtain ⟨hnum, htime, hsec⟩ := ih (j + 1) (((r.look (j + 1)).put j fun s =>
      copySite s ((r.look (j + 1)).sec (j + 1))).put j fun s =>
        setUsedTime s true ((r.look (j + 1)).sec (j + 1)).usedTime)
    refine ⟨hnum, htime, fun i => ?_⟩
    rw [hsec]
    by_cases hi : i = j
    · subst hi
      rw [if_neg (by omega), if_pos (by push_cast; omega), sec_put_self, sec_put_self]
      rfl
    · rw [sec_put_of_ne hi, sec_put_of_ne hi]
      by_cases hrange : j + 1 ≤ i ∧ i < j + 1 + n
      · have hi' : i + 1 ≠ j := by omega
        rw [if_pos hrange, if_pos (by push_cast; omega), sec_put_of_ne hi', sec_put_of_ne hi']
        rfl
      · rw [if_neg hrange, if_neg (by push_cast; omega)]
        rfl

theorem shiftDown_indexed {n : Nat} {j : Int} (h : r.Indexed) (hlo : 0 ≤ j) (hhi : j + n ≤ 98) :
    (shiftDown n j r).Indexed := by
  induction n generalizing j r with
  | zero => exact h
  | succ n ih =>
    have hj : j < 98 := by omega
    have hnext : j + 1 < ROADSECNUM := by
      unfold ROADSECNUM
      omega
    exact ih (((h.look (by omega) hnext).put hlo hj _).put hlo hj _) (by omega) (by omega)

theorem deleteAt_spec (i : Int) (r : Road) :
    (deleteAt i r).secNum = r.secNum - 1 ∧ (deleteAt i r).endTime = r.endTime ∧
      ∀ j, (deleteAt i r).sec j =
        if i ≤ j ∧ j < r.secNum then takeOver (r.sec j) (r.sec (j + 1)) else r.sec j := by
  obtain ⟨hnum, htime, hsec⟩ := shiftDown_spec (r.secNum - i).toNat i r
  refine ⟨congrArg (· - 1) hnum, htime, fun j => (hsec j).trans ?_⟩
  by_cases hj : i ≤ j ∧ j < r.secNum
  · rw [if_pos hj, if_pos (by omega)]
  · rw [if_neg hj, if_neg (by omega)]

theorem deleteAt_indexed (h : r.Indexed) (hi : 0 ≤ i) (hi' : i ≤ 98) (hnum : r.secNum ≤ 98) :
    (deleteAt i r).Indexed :=
  shiftDown_indexed h hi (by omega)

theorem deleteFrom_spec (b now expire : Int) (n : Nat) (i num : Int) (r : Road) :
    num ≤ (deleteFrom b now expire n i num r).1 ∧
      (deleteFrom b now expire n i num r).1 ≤ num + n ∧
      (deleteFrom b now expire n i num r).2.secNum =
        r.secNum - ((deleteFrom b now expire n i num r).1 - num) ∧
      (deleteFrom b now expire n i num r).2.endTime = r.endTime := by
  induction n generalizing i num r with
  | zero => exact ⟨le_rfl, by simp [deleteFrom], by simp [deleteFrom], rfl⟩
  | succ n ih =>
    rw [deleteFrom]
    split
    · obtain ⟨hnum, htime, -⟩ := deleteAt_spec i (r.look b)
      obtain ⟨hlo, hhi, hsec, ht⟩ := ih (i + 1) (num + 1) (deleteAt i (r.look b))
      rw [hnum, secNum_look] at hsec
      refine ⟨by omega, by push_cast; omega, ?_, ht.trans htime⟩
      rw [hsec]
      omega
    · obtain ⟨hlo, hhi, hsec, ht⟩ := ih (i + 1) num (r.look b)
      exact ⟨hlo, by push_cast; omega, hsec, ht⟩

theorem deleteFrom_indexed (b now expire : Int) {n : Nat} {num : Int} (h : r.Indexed) (hb : 0 ≤ b)
    (hb' : b < ROADSECNUM) (hi : 0 ≤ i) (hnum : r.secNum ≤ 98) (hin : i + n ≤ 99) :
    (deleteFrom b now expire n i num r).2.Indexed := by
  induction n generalizing i num r with
  | zero => exact h
  | succ n ih =>
    have hlook := h.look hb hb'
    rw [deleteFrom]
    split
    · refine ih (deleteAt_indexed hlook hi (by omega) hnum) (by omega) ?_ (by omega)
      rw [(deleteAt_spec i (r.look b)).1, secNum_look]
      omega
    · exact ih hlook (by omega) hnum (by omega)

theorem deleteFrom_fresh {b now expire : Int} {n : Nat} {num : Int}
    (h : comparingFrontAndBackT (r.sec b).endtime now expire ≠ 0) :
    (deleteFrom b now expire n i num r).1 = num ∧
      (deleteFrom b now expire n i num r).2.sec = r.sec := by
  induction n generalizing i r with
  | zero => exact ⟨rfl, rfl⟩
  | succ n ih =>
    rw [deleteFrom, sec_look, if_neg h]
    exact ih h

theorem deleteRoadsection_eq {e : Int} (he : 0 ≤ e) (he' : e ≤ r.secNum) (now expire : Int) :
    deleteRoadsection r 0 e now expire = deleteFrom 0 now expire (e + 1).toNat 0 0 r := by
  unfold deleteRoadsection
  rw [if_neg (by omega), sub_zero]

theorem deleteRoadsection_fresh {e now expire : Int} (he : 0 ≤ e) (he' : e ≤ r.secNum)
    (h : comparingFrontAndBackT (r.sec 0).endtime now expire ≠ 0) :
    (deleteRoadsection r 0 e now expire).1 = 0 ∧
      (deleteRoadsection r 0 e now expire).2.sec = r.sec := by
  rw [deleteRoadsection_eq he he']
  exact deleteFrom_fresh h

theorem deleteRoadsection_expired {e now expire : Int} (he : 0 ≤ e) (he' : e ≤ r.secNum)
    (h : comparingFrontAndBackT (r.sec 0).endtime now expire = 0) :
    deleteRoadsection r 0 e now expire =
      deleteFrom 0 now expire e.toNat 1 1 (deleteAt 0 (r.look 0)) := by
  have hn : (e + 1).toNat = e.toNat + 1 := by omega
  rw [deleteRoadsection_eq he he', hn, deleteFrom, sec_look, if_pos h]
  rfl

--
-- Room for a segment
--

theorem shiftUp_spec (n : Nat) (i : Int) (r : Road) :
    (shiftUp n i r).secNum = r.secNum ∧ (shiftUp n i r).endTime = r.endTime ∧
      ∀ j, (shiftUp n i r).sec j =
        if i - n < j ∧ j ≤ i then copySite (r.sec j) (r.sec (j - 1)) else r.sec j := by
  induction n generalizing i r with
  | zero =>
    refine ⟨rfl, rfl, fun j => ?_⟩
    rw [if_neg (by omega)]
    rfl
  | succ n ih =>
    rw [shiftUp]
    obtain ⟨hnum, htime, hsec⟩ := ih (i - 1) ((r.look (i - 1)).put i fun s =>
      copySite s ((r.look (i - 1)).sec (i - 1)))
    refine ⟨hnum, htime, fun j => ?_⟩
    rw [hsec]
    by_cases hj : j = i
    · subst hj
      rw [if_neg (by omega), if_pos (by push_cast; omega), sec_put_self]
      rfl
    · rw [sec_put_of_ne hj]
      by_cases hrange : i - 1 - n < j ∧ j ≤ i - 1
      · have hj' : j - 1 ≠ i := by omega
        rw [if_pos hrange, if_pos (by push_cast; omega), sec_put_of_ne hj']
        rfl
      · rw [if_neg hrange, if_neg (by push_cast; omega)]
        rfl

theorem shiftUp_indexed {n : Nat} (h : r.Indexed) (hlo : n ≤ i) (hhi : i < 98) :
    (shiftUp n i r).Indexed := by
  induction n generalizing i r with
  | zero => exact h
  | succ n ih =>
    have hprev : i - 1 < ROADSECNUM := by
      unfold ROADSECNUM
      omega
    exact ih ((h.look (by omega) hprev).put (by omega) hhi _) (by omega) (by omega)

end Supex.RoadRank
