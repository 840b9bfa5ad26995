import Supex.RoadRank.Loops

/-!
# Reports keep to the table

`update_roadsection` reads the slot in front of the segment of a position, for the
first segment too, and it does not stop at the slots of the start and the end of the
road.
-/

namespace Supex.RoadRank

open Supex.Lib

/-- `comparing_front_and_back_t` finds a time expired. -/
def Expired (t : Int) (g : Report) : Prop :=
  comparingFrontAndBackT t g.endTime g.expireTime = 0

/-- A report is close to a site in speed and distance. -/
def Mergeable (s : Site) (g : Report) (mergedSpeed : Int) : Prop :=
  comparingD g.dist g.replaceLimit ≠ 0 ∧
    comparingD (((s.avgSpeed : Int) - g.avgSpeed).natAbs) mergedSpeed ≠ 0

/-- `merged_speed`, by the site that is looked at. -/
def mergedSpeed (s : Site) (g : Report) : Int :=
  if s.avgSpeed < 15 then g.mergedSpeedL else g.mergedSpeedH

instance (t : Int) (g : Report) : Decidable (Expired t g) := inferInstanceAs (Decidable (_ = _))

instance (s : Site) (g : Report) (speed : Int) : Decidable (Mergeable s g speed) :=
  inferInstanceAs (Decidable (_ ∧ _))

/-- The report becomes a segment of its own behind the site in front of its position:
nothing expires there, and it is not close to the site. -/
def Grows (r : Road) (g : Report) : Prop :=
  let v := (getInterval r 0 g.begin).1
  let site := r.sec (v - 1)
  ¬ (Expired (if v = r.secNum then r.endTime else site.endtime) g ∧
      Expired (r.sec 0).endtime g) ∧
    ¬ Mergeable site g (mergedSpeed site g)

/-- The position lies behind the first segment, and there is room for a new one where
one is needed. -/
def InTable (r : Road) (g : Report) : Prop :=
  0 < r.secNum ∧ (r.sec 0).end_ < g.begin ∧ (98 ≤ r.secNum → ¬ Grows r g)

instance (r : Road) (g : Report) : Decidable (Grows r g) := inferInstanceAs (Decidable (_ ∧ _))

instance (r : Road) (g : Report) : Decidable (InTable r g) :=
  inferInstanceAs (Decidable (_ ∧ _ ∧ _))

variable {r : Road} {g : Report}

theorem delete_spec {e : Int} (h : r.Indexed) (he : 0 ≤ e) (he' : e < r.secNum)
    (hnum : r.secNum ≤ 98) (now expire : Int) :
    (deleteRoadsection r 0 e now expire).2.Indexed ∧
      0 ≤ (deleteRoadsection r 0 e now expire).1 ∧
      (deleteRoadsection r 0 e now expire).1 ≤ e + 1 ∧
      (deleteRoadsection r 0 e now expire).2.secNum =
        r.secNum - (deleteRoadsection r 0 e now expire).1 := by
  rw [deleteRoadsection_eq he he'.le]
  obtain ⟨hlo, hhi, hsec, -⟩ := deleteFrom_spec 0 now expire (e + 1).toNat 0 0 r
  refine ⟨deleteFrom_indexed 0 now expire h le_rfl (by decide) le_rfl hnum (by omega),
    hlo, by omega,
    ?_⟩
  rw [hsec, sub_zero]

theorem delete_pos {e : Int} (he : 0 ≤ e) (he' : e < r.secNum) (h0 : Expired (r.sec 0).endtime g) :
    0 < (deleteRoadsection r 0 e g.endTime g.expireTime).1 := by
  rw [deleteRoadsection_expired he he'.le h0]
  obtain ⟨hlo, -⟩ := deleteFrom_spec 0 g.endTime g.expireTime e.toNat 1 1 (deleteAt 0 (r.look 0))
  omega

theorem deleted_spec {e t : Int} (h : r.Indexed) (he : 0 ≤ e) (he' : e < r.secNum)
    (hnum : r.secNum ≤ 98) {deleted : Int × Road}
    (hdel : deleted = if comparingFrontAndBackT t g.endTime g.expireTime = 0 then
      deleteRoadsection r 0 e g.endTime g.expireTime else (0, r)) :
    deleted.2.Indexed ∧ 0 ≤ deleted.1 ∧ deleted.1 ≤ e + 1 ∧
      deleted.2.secNum = r.secNum - deleted.1 ∧
      (deleted.1 = 0 → deleted.2.sec = r.sec) ∧
      (deleted.1 = 0 → ¬ (Expired t g ∧ Expired (r.sec 0).endtime g)) := by
  by_cases ht : comparingFrontAndBackT t g.endTime g.expireTime = 0
  · rw [if_pos ht] at hdel
    subst hdel
    obtain ⟨hindexed, hlo, hhi, hsec⟩ := delete_spec h he he' hnum g.endTime g.expireTime
    by_cases h0 : comparingFrontAndBackT (r.sec 0).endtime g.endTime g.expireTime = 0
    · have hpos := delete_pos he he' h0
      exact ⟨hindexed, hlo, hhi, hsec, fun hz => absurd hz hpos.ne', fun hz => absurd hz hpos.ne'⟩
    · obtain ⟨-, hsame⟩ := deleteRoadsection_fresh he he'.le h0
      exact ⟨hindexed, hlo, hhi, hsec, fun _ => hsame, fun _ hexp => h0 hexp.2⟩
  · rw [if_neg ht] at hdel
    subst hdel
    exact ⟨h, le_rfl, by omega, (sub_zero _).symm, fun _ => rfl, fun _ hexp => ht hexp.1⟩

theorem Road.Indexed.segment (h : r.Indexed) {i : Int} (hlo : 0 ≤ i) (hhi : i < 98) (g : Report)
    (avg : Nat) (flag : Bool) : ((r.setSection i g avg).setUsed i flag g).Indexed :=
  (h.setSection hlo hhi g avg).setUsed hlo hhi flag g

theorem Road.Indexed.written (h : r.Indexed) {i : Int} (hlo : 0 ≤ i) (hhi : i < 98) (g : Report)
    (avg : Nat) (flag : Bool) : (((r.setSection i g avg).setUsed i flag g).setEnd g avg).Indexed :=
  (h.segment hlo hhi g avg flag).setEnd g avg

theorem updateAhead_indexed (h : r.Indexed) (hpos : 0 < r.secNum) (hnum : r.secNum ≤ 98)
    (hroom : 98 ≤ r.secNum → (Expired r.endTime g ∧ Expired (r.sec 0).endtime g) ∨
      Mergeable (r.sec (r.secNum - 1)) g (mergedSpeed (r.sec (r.secNum - 1)) g)) :
    (updateAhead r g (mergedSpeed (r.sec (r.secNum - 1)) g)).1.Indexed ∧
      0 ≤ (updateAhead r g (mergedSpeed (r.sec (r.secNum - 1)) g)).1.secNum ∧
      (updateAhead r g (mergedSpeed (r.sec (r.secNum - 1)) g)).1.secNum ≤ 98 := by
  unfold updateAhead
  dsimp only
  generalize hdel : (if comparingFrontAndBackT r.endTime g.endTime g.expireTime = 0 then
    deleteRoadsection r 0 (r.secNum - 1) g.endTime g.expireTime else (0, r)) = deleted
  obtain ⟨hindexed, hlo, hhi, hsec, hsame, hfresh⟩ :=
    deleted_spec h (by omega) (by omega) hnum hdel.symm
  by_cases hret : 0 < deleted.1
  · rw [if_pos hret]
    refine ⟨hindexed.written (by omega) (by omega) g g.avgSpeed true, ?_⟩
    change 0 ≤ deleted.2.secNum ∧ deleted.2.secNum ≤ 98
    omega
  · have hzero : deleted.1 = 0 := by omega
    have hlook : (deleted.2.look (r.secNum - 1)).Indexed :=
      hindexed.look (by omega) (by unfold ROADSECNUM; omega)
    rw [if_neg hret, sec_look, hsame hzero]
    by_cases hmerge : comparingD (((r.sec (r.secNum - 1)).avgSpeed : Int) - g.avgSpeed).natAbs
        (mergedSpeed (r.sec (r.secNum - 1)) g) ≠ 0 ∧ comparingD g.dist g.replaceLimit ≠ 0
    · rw [if_pos hmerge]
      by_cases hone : 1 < r.secNum
      · rw [if_pos hone]
        refine ⟨hlook.written (by omega) (by omega) g
          (((r.sec (r.secNum - 1)).avgSpeed + g.avgSpeed) / 2) false, ?_⟩
        change 0 ≤ deleted.2.secNum ∧ deleted.2.secNum ≤ 98
        omega
      · rw [if_neg hone]
        have hrow :
            ({ deleted.2.look (r.secNum - 1) with secNum := r.secNum + 1 } : Road).Indexed :=
          hlook
        refine ⟨hrow.written (by omega) (by omega) g
          (((r.sec (r.secNum - 1)).avgSpeed + g.avgSpeed) / 2) true, ?_⟩
        change 0 ≤ r.secNum + 1 ∧ r.secNum + 1 ≤ 98
        omega
    · have hlt : r.secNum < 98 := by
        by_contra hcon
        rcases hroom (not_lt.mp hcon) with hexp | hmer
        · exact hfresh hzero hexp
        · exact hmerge ⟨hmer.2, hmer.1⟩
      rw [if_neg hmerge]
      have hrow : ({ deleted.2.look (r.secNum - 1) with secNum := r.secNum + 1 } : Road).Indexed :=
        hlook
      refine ⟨hrow.written (by omega) (by omega) g g.avgSpeed true, ?_⟩
      change 0 ≤ r.secNum + 1 ∧ r.secNum + 1 ≤ 98
      omega

theorem updateInside_indexed {k : Int} (h : r.Indexed) (hk : 0 ≤ k) (hk' : k + 1 < r.secNum)
    (hnum : r.secNum ≤ 98)
    (hroom : 98 ≤ r.secNum → (Expired (r.sec k).endtime g ∧ Expired (r.sec 0).endtime g) ∨
      Mergeable (r.sec k) g (mergedSpeed (r.sec k) g)) :
    (updateInside r g (mergedSpeed (r.sec k) g) (k + 1)).1.Indexed ∧
      0 ≤ (updateInside r g (mergedSpeed (r.sec k) g) (k + 1)).1.secNum ∧
      (updateInside r g (mergedSpeed (r.sec k) g) (k + 1)).1.secNum ≤ 98 := by
  unfold updateInside
  dsimp only
  have hslot : (if 0 < k + 1 then k + 1 - 1 else k + 1) = k := by
    rw [if_pos (by omega), add_sub_cancel_right]
  rw [hslot]
  -- the end of the road may be written first
  generalize hend : (if k = r.secNum - 2 ∨ r.secNum = 1 then r.setEnd g g.avgSpeed else r) = r₁
  have hr₁ : r₁.Indexed ∧ r₁.secNum = r.secNum ∧ ∀ i, i < 98 → r₁.sec i = r.sec i := by
    subst hend
    split
    · exact ⟨h.setEnd _ _, rfl, fun i hi => sec_putBorder_of_ne (by omega) _ _⟩
    · exact ⟨h, rfl, fun _ _ => rfl⟩
  obtain ⟨hi₁, hnum₁, hsec₁⟩ := hr₁
  have hlook₁ : (r₁.look k).Indexed := hi₁.look hk (by unfold ROADSECNUM; omega)
  rw [sec_look, hsec₁ k (by omega)]
  generalize hdel : (if comparingFrontAndBackT (r.sec k).endtime g.endTime g.expireTime = 0 then
    deleteRoadsection (r₁.look k) 0 k g.endTime g.expireTime else (0, r₁.look k)) = deleted
  obtain ⟨hindexed, hlo, hhi, hsec, hsame, hfresh⟩ :=
    deleted_spec hlook₁ hk (by rw [secNum_look, hnum₁]; omega) (by rw [secNum_look, hnum₁]; omega)
      hdel.symm
  rw [secNum_look, hnum₁] at hsec
  rw [sec_look, hsec₁ 0 (by omega)] at hfresh
  by_cases hret : 0 < deleted.1
  · rw [if_pos hret]
    refine ⟨hindexed.segment (by omega) (by omega) g g.avgSpeed true, ?_⟩
    change 0 ≤ deleted.2.secNum ∧ deleted.2.secNum ≤ 98
    omega
  · have hzero : deleted.1 = 0 := by omega
    have hlook : (deleted.2.look k).Indexed := hindexed.look hk (by unfold ROADSECNUM; omega)
    rw [if_neg hret, sec_look, hsame hzero, sec_look, hsec₁ k (by omega)]
    by_cases hmerge : comparingD g.dist g.replaceLimit ≠ 0 ∧
        comparingD (((r.sec k).avgSpeed : Int) - g.avgSpeed).natAbs (mergedSpeed (r.sec k) g) ≠ 0
    · rw [if_pos hmerge]
      refine ⟨hlook.segment (by omega) (by omega) g (((r.sec k).avgSpeed + g.avgSpeed) / 2) false,
        ?_⟩
      change 0 ≤ deleted.2.secNum ∧ deleted.2.secNum ≤ 98
      omega
    · have hlt : r.secNum < 98 := by
        by_contra hcon
        rcases hroom (not_lt.mp hcon) with hexp | hmer
        · exact hfresh hzero hexp
        · exact hmerge hmer
      rw [if_neg hmerge]
      have hexpend : (expendRoadsection (deleted.2.look k) (k + 1) r.secNum).Indexed := by
        unfold expendRoadsection
        rw [if_neg (by omega)]
        exact shiftUp_indexed hlook (by omega) (by omega)
      have hrow : ({ expendRoadsection (deleted.2.look k) (k + 1) r.secNum with
        secNum := r.secNum + 1 } : Road).Indexed := hexpend
      refine ⟨hrow.segment (by omega) (by omega) g g.avgSpeed true, ?_⟩
      change 0 ≤ r.secNum + 1 ∧ r.secNum + 1 ≤ 98
      omega

--
-- Runs
--

/-- What holds of a road between two reports. -/
structure Kept (r : Road) : Prop where
  indexed : r.Indexed
  low : 0 ≤ r.secNum
  high : r.secNum ≤ 98

/-- The road after the search and the look in front of the segment that was found. -/
def searched (r : Road) (g : Report) : Road :=
  (getInterval r 0 g.begin).2.look ((getInterval r 0 g.begin).1 - 1)

theorem searched_spec (r : Road) (g : Report) :
    (searched r g).sec = r.sec ∧ (searched r g).secNum = r.secNum ∧
      (searched r g).endTime = r.endTime := by
  obtain ⟨hsec, hnum, htime, -⟩ := getIntervalFrom_spec g.begin (r.secNum - 0).toNat 0 r
  exact ⟨hsec, hnum, htime⟩

theorem searched_indexed (h : Kept r) (hv : 0 < (getInterval r 0 g.begin).1) :
    (searched r g).Indexed := by
  have hhigh := h.high
  have hv' := (getInterval_interval h.low g.begin).high
  have hsearch : (getInterval r 0 g.begin).2.Indexed :=
    getIntervalFrom_indexed g.begin h.indexed le_rfl (by unfold ROADSECNUM; omega)
  exact hsearch.look (by omega) (by unfold ROADSECNUM; omega)

theorem updateRoadsection_eq (r : Road) (g : Report) (hfirst : ¬ (r.secNum = 0 ∧ g.begin < 400))
    (hnum : r.secNum ≤ 98) :
    updateRoadsection r g =
      if (getInterval r 0 g.begin).1 = r.secNum then
        updateAhead (searched r g) g (mergedSpeed (r.sec ((getInterval r 0 g.begin).1 - 1)) g)
      else updateInside (searched r g) g
        (mergedSpeed (r.sec ((getInterval r 0 g.begin).1 - 1)) g) (getInterval r 0 g.begin).1 := by
  obtain ⟨hsec, -⟩ := searched_spec r g
  have hfull : ¬ r.secNum ≥ ROADSECNUM := by
    unfold ROADSECNUM
    omega
  rw [← hsec]
  unfold updateRoadsection
  dsimp only
  rw [if_neg hfirst, if_neg hfull]
  rfl

theorem getInterval_pos (hpos : 0 < r.secNum) {x : Int} (h : (r.sec 0).end_ < x) :
    0 < (getInterval r 0 x).1 := by
  have hint := getInterval_interval hpos.le x
  have hlow := hint.low
  by_contra hcon
  have hzero : (getInterval r 0 x).1 = 0 := by omega
  have hat := hint.at_ (by omega)
  rw [hzero] at hat
  exact absurd h (not_lt.mpr hat)

theorem update_kept (h : Kept r) (hin : InTable r g) : Kept (updateRoadsection r g).1 := by
  obtain ⟨hpos, hbehind, hroom⟩ := hin
  have hnum := h.high
  have hint := getInterval_interval h.low (g.begin : Int)
  have hv := getInterval_pos hpos (by exact_mod_cast hbehind : ((r.sec 0).end_ : Int) < g.begin)
  have hlook := searched_indexed h hv
  obtain ⟨hsec, hsecnum, htime⟩ := searched_spec r g
  rw [updateRoadsection_eq r g (by omega) hnum]
  have hgrows : 98 ≤ r.secNum →
      (Expired (if (getInterval r 0 g.begin).1 = r.secNum then r.endTime
          else (r.sec ((getInterval r 0 g.begin).1 - 1)).endtime) g ∧
        Expired (r.sec 0).endtime g) ∨
      Mergeable (r.sec ((getInterval r 0 g.begin).1 - 1)) g
        (mergedSpeed (r.sec ((getInterval r 0 g.begin).1 - 1)) g) := by
    intro hfull
    by_contra hcon
    exact hroom hfull (not_or.mp hcon)
  generalize (getInterval r 0 g.begin).1 = v at hint hv hgrows ⊢
  by_cases hall : v = r.secNum
  · rw [if_pos hall]
    rw [if_pos hall, hall] at hgrows
    have hahead : 98 ≤ (searched r g).secNum →
        (Expired (searched r g).endTime g ∧ Expired ((searched r g).sec 0).endtime g) ∨
        Mergeable ((searched r g).sec ((searched r g).secNum - 1)) g
          (mergedSpeed ((searched r g).sec ((searched r g).secNum - 1)) g) := by
      rw [hsecnum, hsec, htime]
      exact hgrows
    have hupdate := updateAhead_indexed hlook (by rwa [hsecnum]) (by rwa [hsecnum]) hahead
    rw [hsecnum, hsec] at hupdate
    rw [hall]
    exact ⟨hupdate.1, hupdate.2.1, hupdate.2.2⟩
  · rw [if_neg hall]
    rw [if_neg hall] at hgrows
    have hhigh := hint.high
    have hinside : 98 ≤ (searched r g).secNum →
        (Expired ((searched r g).sec (v - 1)).endtime g ∧
          Expired ((searched r g).sec 0).endtime g) ∨
        Mergeable ((searched r g).sec (v - 1)) g
          (mergedSpeed ((searched r g).sec (v - 1)) g) := by
      rw [hsecnum, hsec]
      exact hgrows
    have hupdate := updateInside_indexed hlook (by omega : 0 ≤ v - 1) (by rw [hsecnum]; omega)
      (by rwa [hsecnum]) hinside
    rw [sub_add_cancel, hsec] at hupdate
    exact ⟨hupdate.1, hupdate.2.1, hupdate.2.2⟩

theorem init_kept (outside : Int → Site) (g : Report) :
    Kept (initSecroadData2 (.zero outside) g) := by
  have hgood : ∀ a ∈ ([⟨98, .border⟩, ⟨99, .border⟩] : List Access), a.Good := by
    intro a ha
    rcases List.mem_pair.mp ha with rfl | rfl
    · exact ⟨by decide, by decide, nofun⟩
    · exact ⟨by decide, by decide, nofun⟩
  have hborder :
      ({ Road.zero outside with log := [⟨98, .border⟩, ⟨99, .border⟩] } : Road).Indexed :=
    hgood
  unfold initSecroadData2
  split
  · exact ⟨hgood, le_rfl, (by decide : (0 : Int) ≤ 98)⟩
  · exact ⟨hborder.snoc ⟨le_rfl, by decide, fun _ => by decide⟩, zero_le_one,
      (by decide : (1 : Int) ≤ 98)⟩

/-- **Indices.** In every run whose reports lie behind the first segment and do not need
a slot that is not there, every slot that is read or written is one of the table, and
the slots of the start and the end of the road receive no segment. -/
theorem update_indices (outside : Int → Site) (first : Report) (reports : List Report)
    (h : Along update InTable (initSecroadData2 (.zero outside) first) reports) :
    ∃ r, run update (initSecroadData2 (.zero outside) first) reports = .ok r ∧ r.Indexed := by
  have hstep : ∀ r g, Kept r → InTable r g → ∃ r', update r g = .ok r' ∧ Kept r' :=
    fun r g hr hg => ⟨(updateRoadsection r g).1, rfl, update_kept hr hg⟩
  obtain ⟨r, hrun, hkept⟩ := run_of_along hstep (init_kept outside first) h
  exact ⟨r, hrun, hkept.indexed⟩

/-- A device reports at a position. -/
def Report.at (begin : Nat) (h : begin < 2 ^ 16) (avgSpeed : Nat) (endTime dist : Int) :
    Report where
  imei := ascii "861702020000001"
  avgSpeed := avgSpeed
  maxSpeed := avgSpeed
  startTime := endTime - 10
  endTime := endTime
  begin := begin
  begin_lt := h
  dist := dist
  len := 5000
  mergedSpeedL := 5
  mergedSpeedH := 20
  replaceLimit := 300
  expireTime := 600
  initMax := 1000

/-- A new segment, one between two others, one that takes in a report, and all of them
expired. -/
theorem update_indices_fiveReports :
    ∃ r, run update (initSecroadData2 (.zero fun _ => .zero)
        (.at 100 (by decide) 60 1000 0))
      [.at 900 (by decide) 60 1010 800, .at 2000 (by decide) 90 1020 1100,
        .at 500 (by decide) 20 1030 400, .at 2100 (by decide) 95 1040 100,
        .at 3000 (by decide) 40 9000 900] = .ok r ∧ r.Indexed :=
  update_indices _ _ _ (by decide)

/-- The second report lies in the first segment: slot -1 is read. -/
theorem not_indexed_behindFirst :
    ¬ ∀ (outside : Int → Site) (first : Report) (reports : List Report),
      ∃ r, run update (initSecroadData2 (.zero outside) first) reports = .ok r ∧ r.Indexed := by
  intro h
  obtain ⟨r, hrun, hindexed⟩ := h (fun _ => .zero) (.at 100 (by decide) 60 1000 0)
    [.at 50 (by decide) 60 1010 50]
  cases hrun
  exact absurd (hindexed ⟨-1, .read⟩ (by decide)).1 (by decide)

end Supex.RoadRank
