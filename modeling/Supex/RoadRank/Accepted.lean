import Supex.RoadRank.Expiry
import Supex.RoadRank.Indices

/-!
# Reports that are kept

Where `update_roadsection` writes a report: into the last segment, behind it, into the
segment of its position, or behind a part of it, and then the slot is one of the active
ones. Behind a deletion the slot is computed from the old number of segments and the
number of deletions. Behind all segments this is the new number of segments, which does
not grow.

Main result: `accepted_iff`.
-/

namespace Supex.RoadRank

open Supex.Lib

variable {D : Type}

/-- Slot `i` has the position, time, device and coordinates of a report. -/
structure HoldsAt (r : Located D) (i : Int) (g : LocatedReport D) : Prop where
  end_ : (r.sec i).end_ = g.begin
  endtime : (r.sec i).endtime = g.endTime
  imei : (r.sec i).imei = g.imei
  longitude : r.longitude i = g.longitude
  latitude : r.latitude i = g.latitude

/-- One of the active segments holds the report. -/
def Accepted (r : Located D) (g : LocatedReport D) : Prop :=
  ∃ i, 0 ≤ i ∧ i < r.secNum ∧ HoldsAt r i g

/-- The report lies behind all segments. -/
def Ahead (r : Located D) (g : LocatedReport D) : Prop :=
  ∀ i, 0 ≤ i → i < r.secNum → (r.sec i).end_ < g.begin

/-- The first segment is expired, and the report lies behind all segments of a road that
is expired, or in front of the end of the only segment. -/
def LosesReport (r : Located D) (g : LocatedReport D) : Prop :=
  Expired (r.sec 0).endtime g.toReport ∧
    (Ahead r g ∧ Expired r.endTime g.toReport ∨ ¬Ahead r g ∧ r.secNum = 1)

/-- A position, a time and coordinates that are not zero. -/
structure LocatedReport.Whole [Zero D] (g : LocatedReport D) : Prop where
  begin : g.begin ≠ 0
  endTime : g.endTime ≠ 0
  longitude : g.longitude ≠ 0
  latitude : g.latitude ≠ 0

section

variable [Zero D] [DecidableEq D] {r : Located D} {g : LocatedReport D}

--
-- Slots with a report
--

theorem holdsAt_written (hg : g.Whole) (r : Located D) (i : Int) (avg : Nat) (flag : Bool) :
    HoldsAt ((r.setSection i g avg).setUsed i flag g) i g := by
  have hsec : ((r.setSection i g avg).setUsed i flag g).sec i =
      setUsedTime (setRoadsection (r.sec i) 0 g.begin avg g.maxSpeed g.endTime g.imei) flag
        g.usedTime := by
    simp only [Located.setUsed, Located.setSection, Road.setUsed, Road.setSection, sec_put_self]
  refine ⟨?_, ?_, ?_, ?_, ?_⟩
  · rw [hsec]
    exact if_pos hg.begin
  · rw [hsec]
    exact if_pos hg.endTime
  · rw [hsec]
    rfl
  · exact (setCoordinate_self ..).trans (if_pos hg.longitude)
  · exact (setCoordinate_self ..).trans (if_pos hg.latitude)

variable {i : Int}

theorem sec_written (r : Located D) {k : Int} (h : k ≠ i) (avg : Nat) (flag : Bool) :
    ((r.setSection i g avg).setUsed i flag g).sec k = r.sec k := by
  simp only [Located.setUsed, Located.setSection, Road.setUsed, Road.setSection, sec_put_of_ne h]

omit [Zero D] [DecidableEq D] in
theorem sec_setEnd (r : Located D) (h : i ≠ 99) (avg : Nat) : (r.setEnd g avg).sec i = r.sec i := by
  simp only [Located.setEnd, Road.setEnd, sec_putBorder_of_ne h]

omit [Zero D] [DecidableEq D] in
theorem HoldsAt.setRoadData (h : HoldsAt r i g) : HoldsAt (r.setRoadData g) i g :=
  ⟨h.end_, h.endtime, h.imei, h.longitude, h.latitude⟩

omit [Zero D] [DecidableEq D] in
theorem HoldsAt.setEnd (h : HoldsAt r i g) (hi : i < 99) (avg : Nat) :
    HoldsAt (r.setEnd g avg) i g := by
  have hsec := sec_setEnd (g := g) r hi.ne avg
  obtain ⟨hend, htime, himei, hlon, hlat⟩ := h
  exact ⟨by rw [hsec, hend], by rw [hsec, htime], by rw [hsec, himei], hlon, hlat⟩

theorem Accepted.written (hg : g.Whole) (hi : 0 ≤ i) (hi' : i < r.secNum) (avg : Nat)
    (flag : Bool) : Accepted (((r.setSection i g avg).setUsed i flag g).setRoadData g) g :=
  ⟨i, hi, hi', (holdsAt_written hg r i avg flag).setRoadData⟩

theorem Accepted.writtenEnd (hg : g.Whole) (hi : 0 ≤ i) (hi' : i < r.secNum) (h99 : i < 99)
    (avg : Nat) (flag : Bool) :
    Accepted ((((r.setSection i g avg).setUsed i flag g).setEnd g avg).setRoadData g) g :=
  ⟨i, hi, hi', ((holdsAt_written hg r i avg flag).setEnd h99 avg).setRoadData⟩

--
-- Deletions
--

omit [Zero D] [DecidableEq D] in
theorem expired_iff (k : Int) :
    Expired (r.sec k).endtime g.toReport ↔ Old r g.endTime g.expireTime k :=
  comparing_eq_zero _ _ _

theorem deleted_cases {e t : Int} (he : 0 ≤ e) (he' : e < r.secNum) {deleted : Int × Located D}
    (hd : deleted = if comparingFrontAndBackT t g.endTime g.expireTime = 0 then
      r.deleteRoadsection 0 e g.endTime g.expireTime else (0, r)) :
    (¬(Expired t g.toReport ∧ Expired (r.sec 0).endtime g.toReport) ∧ deleted.1 = 0 ∧
      deleted.2.secNum = r.secNum ∧ ∀ k, deleted.2.slot k = r.slot k) ∨
    (Expired t g.toReport ∧ Expired (r.sec 0).endtime g.toReport ∧
      (deleted.1 = 1 ∧ deleted.2.secNum = r.secNum - 1 ∧
          (∀ k, 0 ≤ k → k < r.secNum → deleted.2.slot k = r.taken k) ∨
        0 < e ∧ deleted.1 = e + 1 ∧ deleted.2.secNum = r.secNum - (e + 1))) := by
  by_cases ht : comparingFrontAndBackT t g.endTime g.expireTime = 0
  · rw [if_pos ht] at hd
    subst hd
    by_cases h0 : Old r g.endTime g.expireTime 0
    · refine .inr ⟨ht, (expired_iff 0).mpr h0, ?_⟩
      by_cases hnext : 0 = e ∨
          ¬Old (Located.deleteAt 0 { r with toRoad := r.look 0 }) g.endTime g.expireTime 0
      · obtain ⟨hnum, hsecNum, hslot⟩ := delete_one he he' h0 hnext
        exact .inl ⟨hnum, hsecNum, fun k hk hk' => by rw [hslot, if_pos ⟨hk, hk'⟩]⟩
      · rw [not_or, not_not] at hnext
        have hpos : 0 < e := lt_of_le_of_ne he hnext.1
        obtain ⟨hnum, hsecNum, -⟩ := delete_all hpos he' h0 hnext.2
        exact .inr ⟨hpos, by rw [hnum, sub_zero], by rw [hsecNum, sub_zero]⟩
    · obtain ⟨hnum, hsecNum, hslot⟩ := delete_none he he' h0
      exact .inl ⟨fun h => h0 ((expired_iff 0).mp h.2), hnum, hsecNum, hslot⟩
  · rw [if_neg ht] at hd
    subst hd
    exact .inl ⟨fun h => ht h.1, rfl, rfl, fun _ => rfl⟩

--
-- The two places of a report
--

theorem updateAhead_accepted_iff (hg : g.Whole) (hpos : 1 ≤ r.secNum) (hnum : r.secNum < 98)
    (hahead : Ahead r g) (mergedSpeed : Int) :
    Accepted (r.updateAhead g mergedSpeed).1 g ↔
      ¬(Expired r.endTime g.toReport ∧ Expired (r.sec 0).endtime g.toReport) := by
  unfold Located.updateAhead
  dsimp only
  generalize hd : (if comparingFrontAndBackT r.endTime g.endTime g.expireTime = 0 then
    r.deleteRoadsection 0 (r.secNum - 1) g.endTime g.expireTime else (0, r)) = deleted
  rcases deleted_cases (by omega) (by omega) hd.symm with
    ⟨hkept, hzero, hsecNum, hslot⟩ | ⟨htime, hfirst, hcase⟩
  · rw [hzero, if_neg (lt_irrefl 0)]
    refine iff_of_true ?_ hkept
    split
    · split
      · exact .writtenEnd hg (by omega) (by change _ < deleted.2.secNum; omega) (by omega) _ _
      · exact .writtenEnd hg (by omega) (by change _ < r.secNum + 1; omega) (by omega) _ _
    · exact .writtenEnd hg (by omega) (by change _ < r.secNum + 1; omega) (by omega) _ _
  · -- the report is behind the segments that are left, and these end in front of it
    have hgone : 0 < deleted.1 ∧ deleted.2.secNum = r.secNum - deleted.1 := by
      rcases hcase with ⟨h1, h2, -⟩ | ⟨h0, h1, h2⟩
      · omega
      · omega
    rw [if_pos hgone.1]
    refine iff_of_false ?_ fun h => h ⟨htime, hfirst⟩
    rintro ⟨i, hi, hi', hholds⟩
    change i < deleted.2.secNum at hi'
    have hne : i ≠ r.secNum - deleted.1 := by omega
    have hsec : ((((deleted.2.setSection (r.secNum - deleted.1) g g.avgSpeed).setUsed
        (r.secNum - deleted.1) true g).setEnd g g.avgSpeed).setRoadData g).sec i =
          deleted.2.sec i := by
      refine (sec_setEnd _ (by omega : i ≠ 99) _).trans ?_
      exact sec_written deleted.2 hne _ _
    have hend := hholds.end_
    rw [hsec] at hend
    rcases hcase with ⟨h1, h2, htaken⟩ | ⟨h0, h1, h2⟩
    · have hslot : deleted.2.sec i = takeOver (r.sec i) (r.sec (i + 1)) :=
        congrArg Prod.fst (htaken i hi (by omega))
      have htake : (takeOver (r.sec i) (r.sec (i + 1))).end_ =
          if (r.sec (i + 1)).end_ ≠ 0 then (r.sec (i + 1)).end_ else (r.sec i).end_ := rfl
      have hi₀ := hahead i hi (by omega)
      have hi₁ := hahead (i + 1) (by omega) (by omega)
      rw [hslot, htake] at hend
      split at hend
      · omega
      · omega
    · omega

theorem updateInside_accepted_iff (hg : g.Whole) (hnum : r.secNum < 98) {v : Int} (hv : 0 ≤ v)
    (hv' : v < r.secNum) (mergedSpeed : Int) :
    Accepted (r.updateInside g mergedSpeed v).1 g ↔
      ¬(r.secNum = 1 ∧ Expired (r.sec 0).endtime g.toReport) := by
  unfold Located.updateInside
  dsimp only
  -- the slot of the position, which is a segment
  obtain ⟨k, hk, hk₀, hkn, hk₁⟩ : ∃ k, (if 0 < v then v - 1 else v) = k ∧ 0 ≤ k ∧ k < r.secNum ∧
      (k + 1 < r.secNum ∨ r.secNum = 1 ∧ k = 0) := by
    refine ⟨_, rfl, ?_, ?_, ?_⟩
    · split <;> omega
    · split <;> omega
    · split <;> omega
  rw [hk]
  generalize hs : (if k = r.secNum - 2 ∨ r.secNum = 1 then r.setEnd g g.avgSpeed else r) = s
  have hsec : ∀ i, i < 99 → s.sec i = r.sec i := by
    intro i hi
    rw [← hs]
    split
    · exact sec_setEnd r hi.ne _
    · rfl
  have hsecNum : s.secNum = r.secNum := by
    rw [← hs]
    split <;> rfl
  generalize hd : (if comparingFrontAndBackT ((s.look k).sec k).endtime g.endTime g.expireTime = 0
    then ({ s with toRoad := s.look k } : Located D).deleteRoadsection 0 k g.endTime g.expireTime
    else (0, { s with toRoad := s.look k })) = deleted
  have hcases := deleted_cases (r := { s with toRoad := s.look k }) (g := g) hk₀
    (by change k < s.secNum; omega) hd.symm
  have htime : ((s.look k).sec k).endtime = (r.sec k).endtime := by
    rw [sec_look, hsec k (by omega)]
  have hfirst : ((s.look k).sec 0).endtime = (r.sec 0).endtime := by
    rw [sec_look, hsec 0 (by omega)]
  change (_ ∧ _ ∧ deleted.2.secNum = s.secNum ∧ _) ∨ _ ∧ _ ∧
    (_ ∧ deleted.2.secNum = s.secNum - 1 ∧ _ ∨ _ ∧ _ ∧ deleted.2.secNum = s.secNum - (k + 1))
    at hcases
  rw [htime, hfirst, hsecNum] at hcases
  rcases hcases with ⟨hkept, hzero, hnum', -⟩ | ⟨hold, hold₀, hcase⟩
  · rw [hzero, if_neg (lt_irrefl 0)]
    refine iff_of_true ?_ fun h => hkept ?_
    · split
      · exact .written hg hk₀ (by change k < deleted.2.secNum; omega) _ _
      · exact .written hg (by omega) (by change k + 1 < r.secNum + 1; omega) _ _
    · obtain ⟨hone, hexp⟩ := h
      obtain rfl : k = 0 := by omega
      exact ⟨hexp, hexp⟩
  · have hpos : 0 < deleted.1 := by
      rcases hcase with ⟨h, -⟩ | ⟨-, h, -⟩
      · omega
      · omega
    rw [if_pos hpos]
    rcases hk₁ with hk₁ | ⟨hone, hk₁⟩
    · -- segments are left behind the slot
      refine iff_of_true ?_ fun h => by omega
      rcases hcase with ⟨h1, h2, -⟩ | ⟨h0, h1, h2⟩
      · exact .written hg (by omega) (by omega) _ _
      · exact .written hg (by omega) (by omega) _ _
    · -- the only segment is gone, and no slot is active
      refine iff_of_false ?_ fun h => h ⟨hone, hold₀⟩
      rintro ⟨i, hi, hi', -⟩
      change i < deleted.2.secNum at hi'
      rcases hcase with ⟨h1, h2, -⟩ | ⟨h0, h1, h2⟩
      · omega
      · omega

--
-- All reports
--

omit [Zero D] [DecidableEq D] in
theorem ahead_iff (hpos : 0 ≤ r.secNum) :
    (getInterval r.toRoad 0 g.begin).1 = r.secNum ↔ Ahead r g := by
  have hint := getInterval_interval hpos (g.begin : Int)
  have hhigh := hint.high
  constructor
  · intro hv i hi hi'
    have := hint.before i hi (by omega)
    omega
  · intro hahead
    by_contra hne
    have hlt : (getInterval r.toRoad 0 g.begin).1 < r.secNum := by omega
    have hat := hint.at_ hlt
    have := hahead _ hint.low hlt
    omega

/-- **The report.** It is in one of the active segments behind the update if and only if
the update does not delete at the end of the road, or the only segment. -/
theorem accepted_iff (hg : g.Whole) (r : Located D) (hpos : 1 ≤ r.secNum) (hnum : r.secNum < 98) :
    Accepted (r.updateRoadsection g).1 g ↔ ¬LosesReport r g := by
  obtain ⟨hsec, hsecNum, htime⟩ := searched_spec r.toRoad g.toReport
  have hfirst : ¬(r.secNum = 0 ∧ g.begin < 400) := by omega
  have hfull : ¬r.secNum ≥ ROADSECNUM := by
    unfold ROADSECNUM
    omega
  unfold Located.updateRoadsection
  rw [if_neg hfirst, if_neg hfull]
  -- the road after the search is the road, but for the log
  change Accepted (if _ = _ then
    Located.updateAhead { r with toRoad := searched r.toRoad g.toReport } g _
    else Located.updateInside { r with toRoad := searched r.toRoad g.toReport } g _ _).1 g ↔ _
  have hahead : Ahead { r with toRoad := searched r.toRoad g.toReport } g ↔ Ahead r g := by
    simp only [Ahead, hsec, hsecNum]
  by_cases hv : (getInterval r.toRoad 0 g.begin).1 = r.secNum
  · have hah := (ahead_iff (by omega)).mp hv
    rw [if_pos hv, updateAhead_accepted_iff hg (by rw [hsecNum]; omega) (by rw [hsecNum]; omega)
      (hahead.mpr hah), htime, hsec, LosesReport]
    tauto
  · have hint := getInterval_interval (by omega : 0 ≤ r.secNum) (g.begin : Int)
    have hhigh := hint.high
    have hah : ¬Ahead r g := mt (ahead_iff (by omega)).mpr hv
    rw [if_neg hv, updateInside_accepted_iff hg (by rw [hsecNum]; omega) hint.low
      (by rw [hsecNum]; omega), hsecNum, hsec, LosesReport]
    tauto

end

/-- A report behind two segments of a road on which nobody was seen for a while. -/
def lateReport : LocatedReport Int := ⟨.at 500 (by decide) 40 1000 0, 1, 1⟩

theorem lateReport_whole : lateReport.Whole := by
  constructor <;> decide

theorem accepted_iff_late :
    Accepted ((timed [10, 990]).updateRoadsection lateReport).1 lateReport ↔
      ¬LosesReport (timed [10, 990]) lateReport :=
  accepted_iff lateReport_whole (timed [10, 990]) (by decide) (by decide)

/-- The first segment is deleted, the other one stays, and the report is written behind
it, where no segment is. -/
theorem not_accepted_late :
    lateReport.Whole ∧ (timed [10, 990]).secNum = 2 ∧
      ¬Accepted ((timed [10, 990]).updateRoadsection lateReport).1 lateReport := by
  refine ⟨lateReport_whole, rfl, ?_⟩
  rintro ⟨i, hi, hi', hholds⟩
  have hone : ((timed [10, 990]).updateRoadsection lateReport).1.secNum = 1 := by decide
  rw [hone] at hi'
  obtain rfl : i = 0 := by omega
  exact absurd hholds.end_ (by decide)

end Supex.RoadRank
