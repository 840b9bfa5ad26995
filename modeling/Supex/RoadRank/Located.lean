import Supex.RoadRank.Loops

/-!
# Segments with their coordinates

The table of a road with the coordinates of its segments: `set_roadsection` stores a
coordinate that is not zero along with the rest. Nothing depends on them, so the table
without them is the one of the other modules (`toRoad_updateRoadsection`).

`D` are the doubles. `origin` is no field of the source: it follows a segment through the
table, as the number of the slot it stood in before.
-/

namespace Supex.RoadRank

open Supex.Lib

/-- `SECKV_ROAD` with the coordinates of its sites. -/
structure Located (D : Type) extends Road where
  longitude : Int → D
  latitude : Int → D
  origin : Int → Int

/-- `gps_info_t` with the coordinates. -/
structure LocatedReport (D : Type) extends Report where
  longitude : D
  latitude : D

section

variable {D : Type} [Zero D] [DecidableEq D]

/-- A coordinate of zero is not stored. -/
def setCoordinate (f : Int → D) (i : Int) (v : D) : Int → D :=
  if v ≠ 0 then Function.update f i v else f

namespace Located

/-- `set_roadsection` of slot `i` with the data of slot `k`. -/
def copy (r : Located D) (i k : Int) : Located D where
  toRoad := (r.look k).put i fun s => copySite s (r.sec k)
  longitude := setCoordinate r.longitude i (r.longitude k)
  latitude := setCoordinate r.latitude i (r.latitude k)
  origin := Function.update r.origin i (r.origin k)

/-- `set_roadsection` of a slot with the data of a report. -/
def setSection (r : Located D) (i : Int) (g : LocatedReport D) (avg : Nat) : Located D :=
  { r with
    toRoad := r.toRoad.setSection i g.toReport avg
    longitude := setCoordinate r.longitude i g.longitude
    latitude := setCoordinate r.latitude i g.latitude }

/-- `set_used_time`. -/
def setUsed (r : Located D) (i : Int) (flag : Bool) (g : LocatedReport D) : Located D :=
  { r with toRoad := r.toRoad.setUsed i flag g.toReport }

/-- `set_end_roadsection(&road_sec[99], …)`. -/
def setEnd (r : Located D) (g : LocatedReport D) (avg : Nat) : Located D :=
  { r with toRoad := r.toRoad.setEnd g.toReport avg }

def setRoadData (r : Located D) (g : LocatedReport D) : Located D :=
  { r with toRoad := r.toRoad.setRoadData g.toReport }

def setSecNum (r : Located D) (n : Int) : Located D := { r with secNum := n }

--
-- Loops
--

/-- The inner loop of `delete_roadsection`. -/
def shiftDown : Nat → Int → Located D → Located D
  | 0, _, r => r
  | n + 1, j, r =>
    let next := r.sec (j + 1)
    let r := r.copy j (j + 1)
    let r := { r with toRoad := r.put j fun s => setUsedTime s true next.usedTime }
    shiftDown n (j + 1) r

def deleteAt (i : Int) (r : Located D) : Located D :=
  let r := shiftDown (r.secNum - i).toNat i r
  r.setSecNum (r.secNum - 1)

/-- The outer loop, which looks at slot `b` in every turn. -/
def deleteFrom (b now expire : Int) : Nat → Int → Int → Located D → Int × Located D
  | 0, _, num, r => (num, r)
  | n + 1, i, num, r =>
    let r := { r with toRoad := r.look b }
    if comparingFrontAndBackT (r.sec b).endtime now expire = 0 then
      deleteFrom b now expire n (i + 1) (num + 1) (deleteAt i r)
    else deleteFrom b now expire n (i + 1) num r

def deleteRoadsection (r : Located D) (b e now expire : Int) : Int × Located D :=
  if b > e ∨ e > r.secNum then (-1, r) else deleteFrom b now expire (e + 1 - b).toNat b 0 r

/-- The loop of `expend_roadsection`. -/
def shiftUp : Nat → Int → Located D → Located D
  | 0, _, r => r
  | n + 1, i, r => shiftUp n (i - 1) (r.copy i (i - 1))

def expendRoadsection (r : Located D) (b num : Int) : Located D :=
  if b > num then r else shiftUp (num + 1 - b).toNat num r

--
-- Reports
--

/-- `update_roadsection` of a position behind all segments. -/
def updateAhead (r : Located D) (g : LocatedReport D) (mergedSpeed : Int) :
    Located D × Outcome :=
  let num := r.secNum
  let deleted :=
    if comparingFrontAndBackT r.endTime g.endTime g.expireTime = 0 then
      deleteRoadsection r 0 (num - 1) g.endTime g.expireTime
    else (0, r)
  let r := deleted.2
  if 0 < deleted.1 then
    let secnum := num - deleted.1
    let r := ((r.setSection secnum g g.avgSpeed).setUsed secnum true g).setEnd g g.avgSpeed
    (r.setRoadData g, .delAdd)
  else
    let r := { r with toRoad := r.look (num - 1) }
    let last := r.sec (num - 1)
    let avg := (last.avgSpeed + g.avgSpeed) / 2
    if comparingD (((last.avgSpeed : Int) - g.avgSpeed).natAbs) mergedSpeed ≠ 0 ∧
        comparingD g.dist g.replaceLimit ≠ 0 then
      if 1 < num then
        let r := ((r.setSection (num - 1) g avg).setUsed (num - 1) false g).setEnd g avg
        (r.setRoadData g, .merged (num - 1))
      else
        let r := r.setSecNum (num + 1)
        let r := ((r.setSection num g avg).setUsed num true g).setEnd g avg
        (r.setRoadData g, .mergedAdd num)
    else
      let r := r.setSecNum (num + 1)
      let r := ((r.setSection num g g.avgSpeed).setUsed num true g).setEnd g g.avgSpeed
      (r.setRoadData g, .added num)

/-- `update_roadsection` of a position in segment `retnumB`. -/
def updateInside (r : Located D) (g : LocatedReport D) (mergedSpeed retnumB : Int) :
    Located D × Outcome :=
  let num := r.secNum
  let retnumB := if 0 < retnumB then retnumB - 1 else retnumB
  let r := if retnumB = num - 2 ∨ num = 1 then r.setEnd g g.avgSpeed else r
  let r := { r with toRoad := r.look retnumB }
  let deleted :=
    if comparingFrontAndBackT (r.sec retnumB).endtime g.endTime g.expireTime = 0 then
      deleteRoadsection r 0 retnumB g.endTime g.expireTime
    else (0, r)
  let r := deleted.2
  if 0 < deleted.1 then
    let secnum := retnumB - deleted.1 + 1
    let r := (r.setSection secnum g g.avgSpeed).setUsed secnum true g
    (r.setRoadData g, .expireReplace)
  else
    let r := { r with toRoad := r.look retnumB }
    let site := r.sec retnumB
    if comparingD g.dist g.replaceLimit ≠ 0 ∧
        comparingD (((site.avgSpeed : Int) - g.avgSpeed).natAbs) mergedSpeed ≠ 0 then
      let avg := (site.avgSpeed + g.avgSpeed) / 2
      let r := (r.setSection retnumB g avg).setUsed retnumB false g
      (r.setRoadData g, .overlay retnumB)
    else
      let r := expendRoadsection r (retnumB + 1) num
      let r := r.setSecNum (num + 1)
      let r := (r.setSection (retnumB + 1) g g.avgSpeed).setUsed (retnumB + 1) true g
      (r.setRoadData g, .split (retnumB + 1))

def updateRoadsection (r : Located D) (g : LocatedReport D) : Located D × Outcome :=
  let num := r.secNum
  let retnumB := (getInterval r.toRoad 0 g.begin).1
  let r := { r with toRoad := (getInterval r.toRoad 0 g.begin).2.look (retnumB - 1) }
  let mergedSpeed := if (r.sec (retnumB - 1)).avgSpeed < 15 then g.mergedSpeedL else g.mergedSpeedH
  if num = 0 ∧ g.begin < 400 then
    let r := r.setSecNum 1
    let r := ((r.setSection 0 g g.avgSpeed).setEnd g g.avgSpeed).setUsed 0 true g
    (r.setRoadData g, .first)
  else if num ≥ ROADSECNUM then (r, .full)
  else if retnumB = num then updateAhead r g mergedSpeed
  else updateInside r g mergedSpeed retnumB

--
-- Without the coordinates
--

theorem toRoad_shiftDown (n : Nat) (j : Int) (r : Located D) :
    (shiftDown n j r).toRoad = RoadRank.shiftDown n j r.toRoad := by
  induction n generalizing j r with
  | zero => rfl
  | succ n ih => exact ih (j + 1) _

theorem toRoad_deleteAt (i : Int) (r : Located D) :
    (deleteAt i r).toRoad = RoadRank.deleteAt i r.toRoad := by
  unfold deleteAt RoadRank.deleteAt
  rw [← toRoad_shiftDown]
  rfl

theorem toRoad_deleteFrom (b now expire : Int) (n : Nat) (i num : Int) (r : Located D) :
    (deleteFrom b now expire n i num r).1 =
        (RoadRank.deleteFrom b now expire n i num r.toRoad).1 ∧
      (deleteFrom b now expire n i num r).2.toRoad =
        (RoadRank.deleteFrom b now expire n i num r.toRoad).2 := by
  induction n generalizing i num r with
  | zero => exact ⟨rfl, rfl⟩
  | succ n ih =>
    rw [deleteFrom, RoadRank.deleteFrom]
    split
    · have h := ih (i + 1) (num + 1) (deleteAt i { r with toRoad := r.look b })
      rwa [toRoad_deleteAt] at h
    · exact ih (i + 1) num { r with toRoad := r.look b }

theorem toRoad_deleteRoadsection (b e now expire : Int) (r : Located D) :
    (deleteRoadsection r b e now expire).1 =
        (RoadRank.deleteRoadsection r.toRoad b e now expire).1 ∧
      (deleteRoadsection r b e now expire).2.toRoad =
        (RoadRank.deleteRoadsection r.toRoad b e now expire).2 := by
  unfold deleteRoadsection RoadRank.deleteRoadsection
  split
  · exact ⟨rfl, rfl⟩
  · exact toRoad_deleteFrom b now expire _ b 0 r

theorem toRoad_shiftUp (n : Nat) (i : Int) (r : Located D) :
    (shiftUp n i r).toRoad = RoadRank.shiftUp n i r.toRoad := by
  induction n generalizing i r with
  | zero => rfl
  | succ n ih => exact ih (i - 1) _

theorem toRoad_expendRoadsection (r : Located D) (b num : Int) :
    (expendRoadsection r b num).toRoad = RoadRank.expendRoadsection r.toRoad b num := by
  unfold expendRoadsection RoadRank.expendRoadsection
  split
  · rfl
  · exact toRoad_shiftUp _ num r

theorem toRoad_deleted (r : Located D) (t now expire e : Int) :
    ∃ (n : Int) (d : Located D),
      (if comparingFrontAndBackT t now expire = 0 then deleteRoadsection r 0 e now expire
        else (0, r)) = (n, d) ∧
      (if comparingFrontAndBackT t now expire = 0 then
        RoadRank.deleteRoadsection r.toRoad 0 e now expire else (0, r.toRoad)) =
        (n, d.toRoad) := by
  split
  · obtain ⟨hnum, hroad⟩ := toRoad_deleteRoadsection 0 e now expire r
    exact ⟨_, _, rfl, Prod.ext hnum.symm hroad.symm⟩
  · exact ⟨0, r, rfl, rfl⟩

theorem toRoad_updateAhead (r : Located D) (g : LocatedReport D) (mergedSpeed : Int) :
    (updateAhead r g mergedSpeed).1.toRoad =
        (RoadRank.updateAhead r.toRoad g.toReport mergedSpeed).1 ∧
      (updateAhead r g mergedSpeed).2 =
        (RoadRank.updateAhead r.toRoad g.toReport mergedSpeed).2 := by
  obtain ⟨n, d, heq, heq'⟩ :=
    toRoad_deleted r r.endTime g.endTime g.expireTime (r.secNum - 1)
  unfold updateAhead RoadRank.updateAhead
  dsimp only
  rw [heq, heq']
  split
  · exact ⟨rfl, rfl⟩
  · split
    · split
      · exact ⟨rfl, rfl⟩
      · exact ⟨rfl, rfl⟩
    · exact ⟨rfl, rfl⟩

theorem toRoad_updateInside (r : Located D) (g : LocatedReport D) (mergedSpeed retnumB : Int) :
    (updateInside r g mergedSpeed retnumB).1.toRoad =
        (RoadRank.updateInside r.toRoad g.toReport mergedSpeed retnumB).1 ∧
      (updateInside r g mergedSpeed retnumB).2 =
        (RoadRank.updateInside r.toRoad g.toReport mergedSpeed retnumB).2 := by
  unfold updateInside RoadRank.updateInside
  dsimp only
  generalize (if 0 < retnumB then retnumB - 1 else retnumB) = k
  have hend : (if k = r.secNum - 2 ∨ r.secNum = 1 then r.setEnd g g.avgSpeed else r).toRoad =
      if k = r.secNum - 2 ∨ r.secNum = 1 then r.toRoad.setEnd g.toReport g.avgSpeed
      else r.toRoad := by
    split <;> rfl
  rw [← hend]
  generalize (if k = r.secNum - 2 ∨ r.secNum = 1 then r.setEnd g g.avgSpeed else r) = s
  obtain ⟨n, d, heq, heq'⟩ := toRoad_deleted { s with toRoad := s.look k }
    ((s.look k).sec k).endtime g.endTime g.expireTime k
  rw [heq, heq']
  split
  · exact ⟨rfl, rfl⟩
  · split
    · exact ⟨rfl, rfl⟩
    · rw [← toRoad_expendRoadsection { d with toRoad := d.look k }]
      exact ⟨rfl, rfl⟩

end Located

end

end Supex.RoadRank
