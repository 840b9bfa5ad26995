import Supex.Lib.Bytes
import Supex.Lib.Run

/-!
# The segments of a road

`roadRank2` keeps for every road a table of `ROADSECNUM` sites: the segments of the
road in its first `sec_num` slots, the start in slot 98 and the end in slot 99. The
first report of a road calls `init_SECROAD_data2`, every later one
`update_roadsection`.

The table is a function on all indices, what is outside the array included: a slot
in front of it has whatever stands there in memory. Every read and every write of a
slot is logged. The positions along the road and the distances come from floating
point arithmetic and are part of a report here; the coordinates, which nothing else
uses, are left out, and so are the fields of the road that no segment depends on. A
device number is the C string of at most `IMEI_LEN` bytes that its fields hold.

* `update_indices` — which reports keep to the table.
* `update_ordered` — which reports keep the segments in order and leave
  the others alone.
-/

namespace Supex.RoadRank

open Supex.Lib

def ROADSECNUM : Int := 100

/-- `SITE`; the numbers but `endtime` are `unsigned short`. -/
structure Site where
  begin : Nat
  end_ : Nat
  avgSpeed : Nat
  maxSpeed : Nat
  usedTime : Nat
  imei : Bytes
  endtime : Int
  deriving DecidableEq

def Site.zero : Site := ⟨0, 0, 0, 0, 0, [], 0⟩

/-- How a slot is used: read, written as a segment, or written as the start or the end
of the road. -/
inductive Kind where
  | read
  | segment
  | border
  deriving DecidableEq

structure Access where
  index : Int
  kind : Kind
  deriving DecidableEq

/-- `SECKV_ROAD`. -/
structure Road where
  sec : Int → Site
  secNum : Int
  endTime : Int
  log : List Access

/-- A record after `memset`, with what stands around the table. -/
def Road.zero (outside : Int → Site) : Road where
  sec i := if 0 ≤ i ∧ i < ROADSECNUM then .zero else outside i
  secNum := 0
  endTime := 0
  log := []

/-- `gps_info_t`, with the results of `get_begin_lenth` and `dist_p2p`, the length of
the road, and the limits of the call. -/
structure Report where
  imei : Bytes
  avgSpeed : Nat
  maxSpeed : Nat
  startTime : Int
  endTime : Int
  begin : Nat
  begin_lt : begin < 2 ^ 16
  dist : Int
  len : Nat
  mergedSpeedL : Int
  mergedSpeedH : Int
  replaceLimit : Int
  expireTime : Int
  initMax : Int

/-- `unsigned short used_time`. -/
def Report.usedTime (g : Report) : Nat := ((g.endTime - g.startTime) % 2 ^ 16).toNat

--
-- Slots
--

def Road.look (r : Road) (i : Int) : Road := { r with log := r.log ++ [⟨i, .read⟩] }

def Road.put (r : Road) (i : Int) (f : Site → Site) : Road :=
  { r with
    sec := Function.update r.sec i (f (r.sec i))
    log := r.log ++ [⟨i, .segment⟩] }

def Road.putBorder (r : Road) (i : Int) (f : Site → Site) : Road :=
  { r with
    sec := Function.update r.sec i (f (r.sec i))
    log := r.log ++ [⟨i, .border⟩] }

/-- `set_roadsection`: a position or a time of zero is not stored. -/
def setRoadsection (s : Site) (begin end_ avg max : Nat) (endtime : Int) (imei : Bytes) : Site :=
  { s with
    begin := begin
    imei := imei
    end_ := if end_ ≠ 0 then end_ else s.end_
    avgSpeed := avg
    maxSpeed := max
    endtime := if endtime ≠ 0 then endtime else s.endtime }

def setUsedTime (s : Site) (flag : Bool) (used : Nat) : Site :=
  { s with usedTime := if flag then used else (s.usedTime + used) % 2 ^ 16 }

/-- `set_roadsection` of a slot with the data of another one. -/
def copySite (s from_ : Site) : Site :=
  setRoadsection s from_.begin from_.end_ from_.avgSpeed from_.maxSpeed from_.endtime from_.imei

/-- `set_roadsection` of a slot with the data of a report. -/
def Road.setSection (r : Road) (i : Int) (g : Report) (avg : Nat) : Road :=
  r.put i fun s => setRoadsection s 0 g.begin avg g.maxSpeed g.endTime g.imei

def Road.setUsed (r : Road) (i : Int) (flag : Bool) (g : Report) : Road :=
  r.put i fun s => setUsedTime s flag g.usedTime

/-- `set_end_roadsection(&road_sec[99], …)`. -/
def Road.setEnd (r : Road) (g : Report) (avg : Nat) : Road :=
  r.putBorder 99 fun s =>
    { s with endtime := g.endTime, avgSpeed := avg, maxSpeed := g.maxSpeed }

def Road.setRoadData (r : Road) (g : Report) : Road := { r with endTime := g.endTime }

--
-- Loops
--

def comparingFrontAndBackT (front back fac : Int) : Int :=
  let dis := back - front
  if dis < fac then if dis < 0 then 2 else 1 else 0

/-- `comparing_d`; an error is not zero. -/
def comparingD (a b : Int) : Int := if a < 0 ∨ b < 0 then -1 else if a < b then 1 else 0

/-- The loop of `get_interval`: `n` slots from `i` on are left. -/
def getIntervalFrom (x : Int) : Nat → Int → Road → Int × Road
  | 0, i, r => (i, r)
  | n + 1, i, r =>
    let r := r.look i
    if x ≤ (r.sec i).end_ then (i, r) else getIntervalFrom x n (i + 1) r

def getInterval (r : Road) (b x : Int) : Int × Road :=
  getIntervalFrom x (r.secNum - b).toNat b r

/-- The inner loop of `delete_roadsection`: slot `j` and the ones behind it, `n` in all,
take over their next ones. -/
def shiftDown : Nat → Int → Road → Road
  | 0, _, r => r
  | n + 1, j, r =>
    let r := r.look (j + 1)
    let next := r.sec (j + 1)
    let r := r.put j fun s => copySite s next
    let r := r.put j fun s => setUsedTime s true next.usedTime
    shiftDown n (j + 1) r

/-- Slot `i` goes. -/
def deleteAt (i : Int) (r : Road) : Road :=
  let r := shiftDown (r.secNum - i).toNat i r
  { r with secNum := r.secNum - 1 }

/-- The outer loop: it looks at slot `b` in every turn. -/
def deleteFrom (b now expire : Int) : Nat → Int → Int → Road → Int × Road
  | 0, _, num, r => (num, r)
  | n + 1, i, num, r =>
    let r := r.look b
    if comparingFrontAndBackT (r.sec b).endtime now expire = 0 then
      deleteFrom b now expire n (i + 1) (num + 1) (deleteAt i r)
    else deleteFrom b now expire n (i + 1) num r

def deleteRoadsection (r : Road) (b e now expire : Int) : Int × Road :=
  if b > e ∨ e > r.secNum then (-1, r) else deleteFrom b now expire (e + 1 - b).toNat b 0 r

/-- The loop of `expend_roadsection`: slot `i` and the ones in front of it, `n` in all,
take over their previous ones. -/
def shiftUp : Nat → Int → Road → Road
  | 0, _, r => r
  | n + 1, i, r =>
    let r := r.look (i - 1)
    let previous := r.sec (i - 1)
    shiftUp n (i - 1) (r.put i fun s => copySite s previous)

def expendRoadsection (r : Road) (b num : Int) : Road :=
  if b > num then r else shiftUp (num + 1 - b).toNat num r

--
-- Reports
--

/-- What an update did; each has a message of its own in the source. -/
inductive Outcome where
  | first
  | full
  | delAdd
  | merged (i : Int)
  | mergedAdd (i : Int)
  | added (i : Int)
  | expireReplace
  | overlay (i : Int)
  | split (i : Int)
  deriving DecidableEq

def initSecroadData2 (r : Road) (g : Report) : Road :=
  let r := { r with endTime := g.endTime }
  let r := r.putBorder 98 fun s => { s with end_ := 0, begin := 0, imei := g.imei }
  let r := r.putBorder 99 fun s =>
    { s with
      end_ := g.len % 2 ^ 16, begin := 0, imei := g.imei, avgSpeed := g.avgSpeed,
      maxSpeed := g.maxSpeed, endtime := g.endTime }
  if (g.begin : Int) > g.initMax then r
  else
    let r := { r with secNum := 1 }
    r.put 0 fun _ => ⟨0, g.begin, g.avgSpeed, g.maxSpeed, g.usedTime, g.imei, g.endTime⟩

/-- `update_roadsection` of a position behind all segments. -/
def updateAhead (r : Road) (g : Report) (mergedSpeed : Int) : Road × Outcome :=
  let num := r.secNum
  let deleted :=
    if comparingFrontAndBackT r.endTime g.endTime g.expireTime = 0 then
      deleteRoadsection r 0 (num - 1) g.endTime g.expireTime
    else (0, r)
  let r := deleted.2
  if 0 < deleted.1 then
    let secnum := num - deleted.1
    let r := ((r.setSection secnum g g.avgSpeed).setUsed secnum true g).setEnd g g.avgSpeed
    (r.setRoadData g, .delAdd)
  else
    let r := r.look (num - 1)
    let last := r.sec (num - 1)
    let avg := (last.avgSpeed + g.avgSpeed) / 2
    if comparingD (((last.avgSpeed : Int) - g.avgSpeed).natAbs) mergedSpeed ≠ 0 ∧
        comparingD g.dist g.replaceLimit ≠ 0 then
      if 1 < num then
        let r := ((r.setSection (num - 1) g avg).setUsed (num - 1) false g).setEnd g avg
        (r.setRoadData g, .merged (num - 1))
      else
        let r := { r with secNum := num + 1 }
        let r := ((r.setSection num g avg).setUsed num true g).setEnd g avg
        (r.setRoadData g, .mergedAdd num)
    else
      let r := { r with secNum := num + 1 }
      let r := ((r.setSection num g g.avgSpeed).setUsed num true g).setEnd g g.avgSpeed
      (r.setRoadData g, .added num)

/-- `update_roadsection` of a position in segment `retnumB`. -/
def updateInside (r : Road) (g : Report) (mergedSpeed retnumB : Int) : Road × Outcome :=
  let num := r.secNum
  let retnumB := if 0 < retnumB then retnumB - 1 else retnumB
  let r := if retnumB = num - 2 ∨ num = 1 then r.setEnd g g.avgSpeed else r
  let r := r.look retnumB
  let deleted :=
    if comparingFrontAndBackT (r.sec retnumB).endtime g.endTime g.expireTime = 0 then
      deleteRoadsection r 0 retnumB g.endTime g.expireTime
    else (0, r)
  let r := deleted.2
  if 0 < deleted.1 then
    let secnum := retnumB - deleted.1 + 1
    let r := (r.setSection secnum g g.avgSpeed).setUsed secnum true g
    (r.setRoadData g, .expireReplace)
  else
    let r := r.look retnumB
    let site := r.sec retnumB
    if comparingD g.dist g.replaceLimit ≠ 0 ∧
        comparingD (((site.avgSpeed : Int) - g.avgSpeed).natAbs) mergedSpeed ≠ 0 then
      let avg := (site.avgSpeed + g.avgSpeed) / 2
      let r := (r.setSection retnumB g avg).setUsed retnumB false g
      (r.setRoadData g, .overlay retnumB)
    else
      let r := expendRoadsection r (retnumB + 1) num
      let r := { r with secNum := num + 1 }
      let r := (r.setSection (retnumB + 1) g g.avgSpeed).setUsed (retnumB + 1) true g
      (r.setRoadData g, .split (retnumB + 1))

def updateRoadsection (r : Road) (g : Report) : Road × Outcome :=
  let num := r.secNum
  let (retnumB, r) := getInterval r 0 g.begin
  let r := r.look (retnumB - 1)
  let mergedSpeed := if (r.sec (retnumB - 1)).avgSpeed < 15 then g.mergedSpeedL else g.mergedSpeedH
  if num = 0 ∧ g.begin < 400 then
    let r := { r with secNum := 1 }
    let r := ((r.setSection 0 g g.avgSpeed).setEnd g g.avgSpeed).setUsed 0 true g
    (r.setRoadData g, .first)
  else if num ≥ ROADSECNUM then (r, .full)
  else if retnumB = num then updateAhead r g mergedSpeed
  else updateInside r g mergedSpeed retnumB

/-- A report after the first one. -/
def update (r : Road) (g : Report) : Except Fault Road := .ok (updateRoadsection r g).1

end Supex.RoadRank
