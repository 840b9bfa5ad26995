import Mathlib.Tactic.Linarith

/-!
# Matching a position with a road

`match_roads` compares the candidates with the roads of the user's history, the most
recent first. A connection to a road of the history gives a candidate weight, and its
comment says that no road further back is looked at once there is a connection; without
one the nearest candidate is taken.

Which connections a candidate has is a set of bits in its status. The bits of all rounds
are kept there, the one for "no connection" as well, and this one decides whether the
loop goes on. `chooseRoad` is the rule without statuses: it reads the weights with
respect to one road and the distances.

The roads are compared by their addresses; what connects two roads, and what is near a
position, are functions of the roads. Weights are exact numbers.

Main result: `match_follows_iff`.
-/

namespace Supex.Pmr

open List

--
-- Data
--

inductive MatchFlag where
  | no
  | lastSam
  | connDirect
  | connIndirect
  | byroad
  | neaest
  | minSub
  | speed
  | alt
  | indirectInNode
  deriving DecidableEq

def MatchFlag.value : MatchFlag → Nat
  | .no => 0
  | .lastSam => 1
  | .connDirect => 2
  | .connIndirect => 3
  | .byroad => 4
  | .neaest => 5
  | .minSub => 6
  | .speed => 7
  | .alt => 8
  | .indirectInNode => 9

/-- `TOPO_CONN_TYPE`. -/
inductive ConnType where
  | no
  | direct
  | byroad
  | indirect
  deriving DecidableEq

/-- `g_locate_cfg`: its weights, and `weight_dist_limit`. -/
structure LocateCfg where
  matchWeight : MatchFlag → ℚ
  weightDistLimit : Int

/-- `road_info_t`; `Sg` are the addresses of the segments. -/
structure RoadInfo (Sg : Type) where
  sg : Sg
  dist : Int
  weight : ℚ
  status : BitVec 64
  deriving DecidableEq

/-- `map_topo_isconnect`, and whether the position is near the start of a road or near
the node between two roads. -/
structure Topo (Sg : Type) where
  isConnect : Sg → Sg → ConnType
  nearStart : Sg → Bool
  inNodeRange : Sg → Sg → Bool

/-- `MLOCATE_ROAD_DEEP`. -/
def roadDeep : Nat := 3

/-- `user_info_t`: the roads up to `count`. -/
structure UserInfo (Sg : Type) where
  roads : List (RoadInfo Sg)
  count_le : roads.length ≤ roadDeep

--
-- The code
--

/-- `set_flag`, through an `int`. -/
def setFlag (status : BitVec 64) (flag : MatchFlag) : BitVec 64 :=
  ((status ||| (1#64 <<< flag.value)).truncate 32).signExtend 64

def checkFlag (status : BitVec 64) (flag : MatchFlag) : BitVec 32 :=
  (status &&& (1#64 <<< flag.value)).truncate 32

section

variable {Sg : Type} [DecidableEq Sg] (cfg : LocateCfg) (topo : Topo Sg)

/-- `calc_weight`: the weight from 0 on, and the status. -/
def calcWeight (last : Sg) (road : RoadInfo Sg) : ℚ × BitVec 64 :=
  if last = road.sg then (cfg.matchWeight .lastSam, setFlag road.status .lastSam)
  else
    match topo.isConnect last road.sg with
    | .no => (cfg.matchWeight .no, setFlag road.status .no)
    | .direct => (cfg.matchWeight .connDirect, setFlag road.status .connDirect)
    | .indirect =>
      if topo.nearStart road.sg then
        (cfg.matchWeight .indirectInNode + cfg.matchWeight .connIndirect,
          setFlag (setFlag road.status .indirectInNode) .connIndirect)
      else (cfg.matchWeight .connIndirect, setFlag road.status .connIndirect)
    | .byroad =>
      if topo.inNodeRange last road.sg then
        (cfg.matchWeight .byroad + cfg.matchWeight .byroad,
          setFlag (setFlag road.status .byroad) .byroad)
      else (cfg.matchWeight .byroad, setFlag road.status .byroad)

/-- A candidate behind `calc_weight`. -/
def weigh (last : Sg) (road : RoadInfo Sg) : RoadInfo Sg :=
  { road with
    weight := (calcWeight cfg topo last road).1
    status := (calcWeight cfg topo last road).2 }

/-- `max_road` and `ret_idx`. -/
structure Best (Sg : Type) where
  maxRoad : RoadInfo Sg
  retIdx : Option Nat

/-- The loop over the candidates from the `i`-th on. -/
def matchLoop (last : Sg) : Nat → Best Sg → List (RoadInfo Sg) → List (RoadInfo Sg) × Best Sg
  | _, best, [] => ([], best)
  | i, best, road :: roads =>
    let road := weigh cfg topo last road
    let best := if road.weight > best.maxRoad.weight then ⟨road, some i⟩ else best
    let (roads, best) := matchLoop last (i + 1) best roads
    (road :: roads, best)

/-- The loop over the history, with the number of roads it looks at. -/
def historyLoop : List (RoadInfo Sg) → List (RoadInfo Sg) → Best Sg →
    List (RoadInfo Sg) × Best Sg × Nat
  | [], roads, best => (roads, best, 0)
  | last :: history, roads, best =>
    let (roads, best) := matchLoop cfg topo last.sg 0 best roads
    if checkFlag best.maxRoad.status .no = 0#32 then (roads, best, 1)
    else
      let (roads, best, looked) := historyLoop history roads best
      (roads, best, looked + 1)

/-- The loop of `get_nearst_road`. -/
def nearestLoop : Nat → Int → Option Nat → List Int → Int × Option Nat
  | _, dist, idx, [] => (dist, idx)
  | i, dist, idx, d :: ds =>
    if d < dist then nearestLoop (i + 1) d (some i) ds else nearestLoop (i + 1) dist idx ds

def getNearstRoad (dists : List Int) : Option Nat :=
  match nearestLoop 0 100 none dists with
  | (dist, idx) => if dist = 100 then none else idx

def userInfoAdd (user : UserInfo Sg) (road : RoadInfo Sg) : UserInfo Sg where
  roads := (road :: user.roads).take roadDeep
  count_le := length_take_le _ _

/-- What `match_roads` returns, the number of roads of the history it looks at, and the
user behind it. -/
structure Matched (Sg : Type) where
  index : Option Nat
  looked : Nat
  user : UserInfo Sg

/-- The nearest candidate gets its weight. -/
def addNeaest (road : RoadInfo Sg) : RoadInfo Sg :=
  { road with
    status := setFlag road.status .neaest
    weight := road.weight + cfg.matchWeight .neaest }

/-- The candidate that is taken, of `best` and the nearest one. -/
def finalRoad (best : Best Sg) (near : Nat) (nearRoad : RoadInfo Sg) : Best Sg :=
  match best.retIdx with
  | none => ⟨nearRoad, some near⟩
  | some i =>
    if near ≠ i then
      let maxRoad :=
        if best.maxRoad.dist - nearRoad.dist ≤ cfg.weightDistLimit then addNeaest cfg best.maxRoad
        else best.maxRoad
      if nearRoad.weight > maxRoad.weight then ⟨nearRoad, some near⟩ else ⟨maxRoad, some i⟩
    else best

/-- `match_roads`; `stack`: what stands in `max_road` before, of which the weight and one
bit of the status are set. -/
def matchRoads (stack : RoadInfo Sg) (user : UserInfo Sg) (roads : List (RoadInfo Sg)) :
    Matched Sg :=
  let maxRoad := { stack with weight := 0, status := setFlag stack.status .no }
  let (roads, best, looked) := historyLoop cfg topo user.roads roads ⟨maxRoad, none⟩
  match getNearstRoad (roads.map (·.dist)) with
  | none => ⟨none, looked, user⟩
  | some near =>
    match roads[near]? with
    | none => ⟨none, looked, user⟩
    | some nearRoad =>
      let final := finalRoad cfg best near (addNeaest cfg nearRoad)
      if checkFlag final.maxRoad.status .lastSam = 0#32 then
        ⟨final.retIdx, looked, userInfoAdd user final.maxRoad⟩
      else ⟨final.retIdx, looked, user⟩

--
-- The rule
--

/-- Same, direct, indirect or by road. -/
def Connected (last sg : Sg) : Prop := last = sg ∨ topo.isConnect last sg ≠ .no

/-- The weight of a road with respect to a road of the history. -/
def weightOf (last sg : Sg) : ℚ :=
  if last = sg then cfg.matchWeight .lastSam
  else
    match topo.isConnect last sg with
    | .no => cfg.matchWeight .no
    | .direct => cfg.matchWeight .connDirect
    | .indirect =>
      if topo.nearStart sg then cfg.matchWeight .indirectInNode + cfg.matchWeight .connIndirect
      else cfg.matchWeight .connIndirect
    | .byroad =>
      if topo.inNodeRange last sg then cfg.matchWeight .byroad + cfg.matchWeight .byroad
      else cfg.matchWeight .byroad

/-- The first of the greatest weights above `w`. -/
def heaviest : Nat → ℚ → Option Nat → List ℚ → ℚ × Option Nat
  | _, w, idx, [] => (w, idx)
  | i, w, idx, v :: vs =>
    if v > w then heaviest (i + 1) v (some i) vs else heaviest (i + 1) w idx vs

/-- The rule: the heaviest candidate, unless the nearest one is heavier with its weight
for the distance; a candidate that is almost as near gets this weight as well. -/
def chooseRoad (weights : List ℚ) (dists : List Int) : Option Nat := do
  let near ← getNearstRoad dists
  match heaviest 0 0 none weights with
  | (_, none) => some near
  | (w, some i) =>
    if near = i then some i
    else
      let w :=
        if (← dists[i]?) - (← dists[near]?) ≤ cfg.weightDistLimit then
          w + cfg.matchWeight .neaest
        else w
      if (← weights[near]?) + cfg.matchWeight .neaest > w then some near else some i

/-- The `h`-th road of the history is the first one with a connection. -/
def FirstConnected (history : List (RoadInfo Sg)) (roads : List (RoadInfo Sg)) (h : Nat) : Prop :=
  (∃ last, history[h]? = some last ∧ ∃ road ∈ roads, Connected topo last.sg road.sg) ∧
    ∀ h' < h, ∀ last, history[h']? = some last → ∀ road ∈ roads, ¬Connected topo last.sg road.sg

/-- The result follows the rule. -/
structure Follows (history : List (RoadInfo Sg)) (roads : List (RoadInfo Sg)) (m : Matched Sg) :
    Prop where
  /-- with a connection, no road further back is looked at, and the choice is the rule's -/
  connected : ∀ h last, FirstConnected topo history roads h → history[h]? = some last →
    m.looked ≤ h + 1 ∧
      m.index = chooseRoad cfg (roads.map fun r => weightOf cfg topo last.sg r.sg)
        (roads.map (·.dist))
  /-- without one, a nearest candidate is taken -/
  nearest : (∀ h, ¬FirstConnected topo history roads h) →
    ∃ i road, m.index = some i ∧ roads[i]? = some road ∧ ∀ r ∈ roads, road.dist ≤ r.dist

/-- `weight_no` is 0, and a connection has weight. -/
structure LocateCfg.Exact : Prop where
  no : cfg.matchWeight .no = 0
  lastSam : 0 < cfg.matchWeight .lastSam
  connDirect : 0 < cfg.matchWeight .connDirect
  connIndirect : 0 < cfg.matchWeight .connIndirect
  byroad : 0 < cfg.matchWeight .byroad
  indirectInNode : 0 < cfg.matchWeight .indirectInNode

end

--
-- Bits
--

theorem MatchFlag.value_lt (f : MatchFlag) : f.value < 32 := by cases f <;> decide

theorem MatchFlag.value_inj {f g : MatchFlag} (h : f.value = g.value) : f = g := by
  cases f <;> cases g <;> first | rfl | exact absurd h (by decide)

theorem checkFlag_eq_zero (s : BitVec 64) (f : MatchFlag) :
    checkFlag s f = 0#32 ↔ s.getLsbD f.value = false := by
  have hf := f.value_lt
  constructor
  · intro h
    have hbit := congrArg (fun b => b.getLsbD f.value) h
    simpa [checkFlag, hf] using hbit
  · intro h
    apply BitVec.eq_of_getLsbD_eq
    intro i hi
    by_cases hif : i = f.value
    · subst hif
      simp [checkFlag, h]
    · have hother : f.value ≤ i → ¬i - f.value = 0 := by omega
      simpa [checkFlag] using fun (_ : i < 32) (_ : s.getLsbD i = true) (_ : i < 32) => hother

theorem checkFlag_setFlag (s : BitVec 64) (f g : MatchFlag) :
    checkFlag (setFlag s f) g = 0#32 ↔ f ≠ g ∧ checkFlag s g = 0#32 := by
  have hg := g.value_lt
  have hg64 : g.value < 64 := by omega
  have hset : (setFlag s f).getLsbD g.value =
      (s.getLsbD g.value || decide (g.value = f.value)) := by
    have hbit : (!decide (g.value < f.value) && decide (g.value - f.value = 0)) =
        decide (g.value = f.value) := by
      rw [Bool.eq_iff_iff]
      simp
      omega
    rw [setFlag, BitVec.getLsbD_signExtend]
    simp [hg, hg64, hbit]
  rw [checkFlag_eq_zero, checkFlag_eq_zero, hset, Bool.or_eq_false_iff, decide_eq_false_iff_not,
    and_comm]
  refine and_congr_left fun _ => not_congr ⟨fun h => (MatchFlag.value_inj h).symm, fun h => ?_⟩
  rw [h]

--
-- Weights
--

section

variable {Sg : Type} [DecidableEq Sg] {cfg : LocateCfg} {topo : Topo Sg}

theorem weigh_weight (last : Sg) (road : RoadInfo Sg) :
    (weigh cfg topo last road).weight = weightOf cfg topo last road.sg := by
  simp only [weigh, calcWeight, weightOf]
  split
  · rfl
  · cases topo.isConnect last road.sg with
    | no => rfl
    | direct => rfl
    | byroad => dsimp only; split <;> rfl
    | indirect => dsimp only; split <;> rfl

theorem weigh_no (last : Sg) (road : RoadInfo Sg) :
    checkFlag (weigh cfg topo last road).status .no = 0#32 ↔
      Connected topo last road.sg ∧ checkFlag road.status .no = 0#32 := by
  simp only [weigh, calcWeight, Connected]
  split
  · simp_all [checkFlag_setFlag]
  · rename_i hne
    cases hconn : topo.isConnect last road.sg with
    | no => simp [checkFlag_setFlag, hne]
    | direct => simp [checkFlag_setFlag]
    | byroad => dsimp only; split <;> simp [checkFlag_setFlag]
    | indirect => dsimp only; split <;> simp [checkFlag_setFlag]

theorem weightOf_eq_zero (hc : cfg.Exact) {last sg : Sg} (h : ¬Connected topo last sg) :
    weightOf cfg topo last sg = 0 := by
  rw [Connected, not_or, not_not] at h
  rw [weightOf, if_neg h.1, h.2]
  exact hc.no

theorem weightOf_pos (hc : cfg.Exact) {last sg : Sg} (h : Connected topo last sg) :
    0 < weightOf cfg topo last sg := by
  have hd := hc.connDirect
  have hi := hc.connIndirect
  have hb := hc.byroad
  have hn := hc.indirectInNode
  rw [weightOf]
  split
  · exact hc.lastSam
  · rename_i hne
    cases hconn : topo.isConnect last sg with
    | no => exact absurd hconn (h.resolve_left hne)
    | direct => exact hd
    | byroad => dsimp only; split <;> linarith
    | indirect => dsimp only; split <;> linarith

--
-- One round
--

theorem heaviest_some (vs : List ℚ) (w : ℚ) (i k : Nat) : (heaviest i w (some k) vs).2 ≠ none := by
  induction vs generalizing i w k with
  | nil => simp [heaviest]
  | cons v vs ih =>
    rw [heaviest]
    split
    · exact ih v (i + 1) i
    · exact ih w (i + 1) k

theorem heaviest_heavy (vs : List ℚ) {w : ℚ} (h : ∃ v ∈ vs, w < v) (i : Nat) :
    (heaviest i w none vs).2 ≠ none := by
  induction vs generalizing i with
  | nil => simp at h
  | cons v vs ih =>
    rw [heaviest]
    by_cases hv : v > w
    · rw [if_pos hv]
      exact heaviest_some vs v (i + 1) i
    · rw [if_neg hv]
      obtain ⟨x, hx, hwx⟩ := h
      refine ih ⟨x, ?_, hwx⟩ (i + 1)
      exact (mem_cons.mp hx).resolve_left fun e => hv (e ▸ hwx)

theorem matchLoop_roads (last : Sg) (i : Nat) (best : Best Sg) (roads : List (RoadInfo Sg)) :
    (matchLoop cfg topo last i best roads).1 = roads.map (weigh cfg topo last) := by
  induction roads generalizing i best with
  | nil => rfl
  | cons road roads ih => simp only [matchLoop, map_cons, ih]

variable (cfg topo) in
theorem matchLoop_heaviest (last : Sg) (i : Nat) (best : Best Sg) (roads : List (RoadInfo Sg)) :
    let b := (matchLoop cfg topo last i best roads).2
    (b.maxRoad.weight, b.retIdx) =
      heaviest i best.maxRoad.weight best.retIdx
        (roads.map fun r => weightOf cfg topo last r.sg) := by
  induction roads generalizing i best with
  | nil => rfl
  | cons road roads ih =>
    simp only [matchLoop, map_cons, heaviest, weigh_weight]
    by_cases hw : weightOf cfg topo last road.sg > best.maxRoad.weight
    · simp only [if_pos hw, ih, weigh_weight]
    · simp only [if_neg hw, ih]

variable (cfg topo) in
theorem matchLoop_best (last : Sg) (i : Nat) (best : Best Sg) (roads : List (RoadInfo Sg)) :
    (matchLoop cfg topo last i best roads).2 = best ∨
      ∃ k road, roads[k]? = some road ∧ (weigh cfg topo last road).weight > best.maxRoad.weight ∧
        (matchLoop cfg topo last i best roads).2 = ⟨weigh cfg topo last road, some (i + k)⟩ := by
  induction roads generalizing i best with
  | nil => exact .inl rfl
  | cons road roads ih =>
    simp only [matchLoop]
    by_cases hw : (weigh cfg topo last road).weight > best.maxRoad.weight
    · simp only [if_pos hw]
      rcases ih (i + 1) ⟨weigh cfg topo last road, some i⟩ with h | ⟨k, r, hk, hr, h⟩
      · exact .inr ⟨0, road, rfl, hw, h⟩
      · exact .inr ⟨k + 1, r, by simpa using hk, hw.trans hr, by rw [h]; congr 2; omega⟩
    · simp only [if_neg hw]
      rcases ih (i + 1) best with h | ⟨k, r, hk, hr, h⟩
      · exact .inl h
      · exact .inr ⟨k + 1, r, by simpa using hk, hr, by rw [h]; congr 2; omega⟩

--
-- The history
--

/-- All candidates have had a round without a connection. -/
def Stale (roads : List (RoadInfo Sg)) : Prop := ∀ r ∈ roads, checkFlag r.status .no ≠ 0#32

/-- The round over the candidates leaves what the rule reads. -/
def Same (roads roads' : List (RoadInfo Sg)) : Prop :=
  roads'.map (·.sg) = roads.map (·.sg) ∧ roads'.map (·.dist) = roads.map (·.dist)

variable (cfg topo) in
theorem same_weigh (last : Sg) (roads : List (RoadInfo Sg)) :
    Same roads (roads.map (weigh cfg topo last)) := by
  simp [Same, weigh, Function.comp_def]

variable (cfg topo) in
theorem Stale.weigh {roads : List (RoadInfo Sg)} (h : Stale roads) (last : Sg) :
    Stale (roads.map (weigh cfg topo last)) := by
  intro r hr
  obtain ⟨r', hr', rfl⟩ := mem_map.mp hr
  rw [ne_eq, weigh_no]
  exact fun ⟨_, h0⟩ => h r' hr' h0

theorem historyLoop_stale (history : List (RoadInfo Sg)) {roads : List (RoadInfo Sg)}
    {best : Best Sg} (h : Stale roads) (hb : checkFlag best.maxRoad.status .no ≠ 0#32) :
    (historyLoop cfg topo history roads best).2.2 = history.length := by
  induction history generalizing roads best with
  | nil => rfl
  | cons last history ih =>
    have hstale := h.weigh cfg topo last.sg
    have hb' : checkFlag (matchLoop cfg topo last.sg 0 best roads).2.maxRoad.status .no ≠ 0#32 := by
      rcases matchLoop_best cfg topo last.sg 0 best roads with
        heq | ⟨k, road, hk, -, heq⟩
      · rwa [heq]
      · rw [heq]
        exact hstale _ (mem_map_of_mem (mem_of_getElem? hk))
    rw [historyLoop]
    simp only [if_neg hb', matchLoop_roads, ih hstale hb', length_cons]

theorem matchLoop_quiet (hc : cfg.Exact) {last : Sg} {roads : List (RoadInfo Sg)} {best : Best Sg}
    (h : ∀ r ∈ roads, ¬Connected topo last r.sg) (hw : best.maxRoad.weight = 0) :
    (matchLoop cfg topo last 0 best roads).2 = best := by
  rcases matchLoop_best cfg topo last 0 best roads with
    heq | ⟨k, road, hk, hgt, -⟩
  · exact heq
  · rw [weigh_weight, weightOf_eq_zero hc (h road (mem_of_getElem? hk)), hw] at hgt
    exact absurd hgt (lt_irrefl 0)

theorem historyLoop_quiet (hc : cfg.Exact) (pre rest : List (RoadInfo Sg))
    (roads : List (RoadInfo Sg)) (best : Best Sg) (hw : best.maxRoad.weight = 0)
    (hb : checkFlag best.maxRoad.status .no ≠ 0#32)
    (h : ∀ last ∈ pre, ∀ r ∈ roads, ¬Connected topo last.sg r.sg) :
    ∃ roads', Same roads roads' ∧ (pre = [] → roads' = roads) ∧ (pre ≠ [] → Stale roads') ∧
      historyLoop cfg topo (pre ++ rest) roads best =
        ((historyLoop cfg topo rest roads' best).1, (historyLoop cfg topo rest roads' best).2.1,
          (historyLoop cfg topo rest roads' best).2.2 + pre.length) := by
  induction pre generalizing roads with
  | nil => exact ⟨roads, ⟨rfl, rfl⟩, fun _ => rfl, fun hne => absurd rfl hne, rfl⟩
  | cons last pre ih =>
    have hquiet := h last (.head _)
    have hstale : Stale (roads.map (weigh cfg topo last.sg)) := by
      intro r hr
      obtain ⟨r', hr', rfl⟩ := mem_map.mp hr
      rw [ne_eq, weigh_no]
      exact fun ⟨hconn, _⟩ => hquiet r' hr' hconn
    have hsame := same_weigh cfg topo last.sg roads
    obtain ⟨roads', hsame', hnil, hcons, heq⟩ := ih (roads.map (weigh cfg topo last.sg)) (by
      intro last' hlast' r hr
      obtain ⟨r', hr', rfl⟩ := mem_map.mp hr
      exact h last' (.tail _ hlast') r' hr')
    refine ⟨roads', ⟨hsame'.1.trans hsame.1, hsame'.2.trans hsame.2⟩, by simp, fun _ => ?_, ?_⟩
    · by_cases hp : pre = []
      · rw [hnil hp]
        exact hstale
      · exact hcons hp
    · rw [cons_append, historyLoop]
      simp only [matchLoop_quiet hc hquiet hw, if_neg hb, matchLoop_roads, heq, length_cons,
        Nat.add_assoc]

--
-- The choice
--

theorem nearestLoop_spec (ds : List Int) (i : Nat) (dist : Int) (idx : Option Nat) :
    (nearestLoop i dist idx ds = (dist, idx) ∧ ∀ d ∈ ds, dist ≤ d) ∨
      ∃ k d, ds[k]? = some d ∧ d < dist ∧ nearestLoop i dist idx ds = (d, some (i + k)) ∧
        ∀ d' ∈ ds, d ≤ d' := by
  induction ds generalizing i dist idx with
  | nil => exact .inl ⟨rfl, by simp⟩
  | cons d ds ih =>
    rw [nearestLoop]
    by_cases hd : d < dist
    · rw [if_pos hd]
      right
      rcases ih (i + 1) d (some i) with ⟨heq, hmin⟩ | ⟨k, d', hk, hlt, heq, hmin⟩
      · exact ⟨0, d, rfl, hd, heq, by simpa using hmin⟩
      · refine ⟨k + 1, d', by simpa using hk, by omega, by rw [heq]; congr 2; omega, ?_⟩
        simpa using ⟨hlt.le, hmin⟩
    · rw [if_neg hd]
      rcases ih (i + 1) dist idx with ⟨heq, hmin⟩ | ⟨k, d', hk, hlt, heq, hmin⟩
      · exact .inl ⟨heq, by simpa using ⟨not_lt.mp hd, hmin⟩⟩
      · refine .inr ⟨k + 1, d', by simpa using hk, hlt, by rw [heq]; congr 2; omega, ?_⟩
        have : d' ≤ d := by omega
        simpa using ⟨this, hmin⟩

theorem getNearstRoad_some {ds : List Int} (h : ∃ d ∈ ds, d < 100) :
    ∃ k d, getNearstRoad ds = some k ∧ ds[k]? = some d ∧ ∀ d' ∈ ds, d ≤ d' := by
  obtain ⟨d, hd, hlt⟩ := h
  rcases nearestLoop_spec ds 0 100 none with ⟨-, hmin⟩ | ⟨k, d', hk, hlt', heq, hmin⟩
  · exact absurd (hmin d hd) (by omega)
  · refine ⟨k, d', ?_, hk, hmin⟩
    rw [getNearstRoad, heq]
    simp only [if_neg (by omega : ¬d' = 100), Nat.zero_add]

omit [DecidableEq Sg] in
theorem finalRoad_retIdx {roads : List (RoadInfo Sg)} {best : Best Sg} {near : Nat}
    {nearRoad : RoadInfo Sg}
    (hbest : (best.maxRoad.weight, best.retIdx) = heaviest 0 0 none (roads.map (·.weight)))
    (hdist : ∀ i, best.retIdx = some i → (roads.map (·.dist))[i]? = some best.maxRoad.dist)
    (hnear : getNearstRoad (roads.map (·.dist)) = some near)
    (hroad : roads[near]? = some nearRoad) :
    (finalRoad cfg best near (addNeaest cfg nearRoad)).retIdx =
      chooseRoad cfg (roads.map (·.weight)) (roads.map (·.dist)) := by
  rw [chooseRoad, hnear, Option.bind_eq_bind, Option.bind_some, ← hbest, finalRoad]
  cases hret : best.retIdx with
  | none => rfl
  | some i =>
    have hnd : (roads.map (·.dist))[near]? = some nearRoad.dist := by simp [hroad]
    have hnw : (roads.map (·.weight))[near]? = some nearRoad.weight := by simp [hroad]
    by_cases hi : near = i
    · simp [hi, hret]
    · simp only [hdist i hret, hnd, hnw, ne_eq, hi, not_false_eq_true, ite_true,
        Option.bind_eq_bind, Option.bind_some, if_false]
      change _ = if (addNeaest cfg nearRoad).weight >
          (if best.maxRoad.dist - (addNeaest cfg nearRoad).dist ≤ cfg.weightDistLimit then
            (addNeaest cfg best.maxRoad).weight else best.maxRoad.weight) then some near else some i
      by_cases hlim : best.maxRoad.dist - (addNeaest cfg nearRoad).dist ≤ cfg.weightDistLimit
      · rw [if_pos hlim, if_pos hlim]
        by_cases hgt : (addNeaest cfg nearRoad).weight > (addNeaest cfg best.maxRoad).weight
        · rw [if_pos hgt, if_pos hgt]
        · rw [if_neg hgt, if_neg hgt]
      · rw [if_neg hlim, if_neg hlim]
        by_cases hgt : (addNeaest cfg nearRoad).weight > best.maxRoad.weight
        · rw [if_pos hgt, if_pos hgt]
        · rw [if_neg hgt, if_neg hgt]

/-- `max_road` before the loops. -/
def noRoad (stack : RoadInfo Sg) : Best Sg :=
  ⟨{ stack with weight := 0, status := setFlag stack.status .no }, none⟩

omit [DecidableEq Sg] in
theorem noRoad_no (stack : RoadInfo Sg) :
    checkFlag (noRoad stack).maxRoad.status .no ≠ 0#32 := by
  rw [noRoad, ne_eq, checkFlag_setFlag]
  exact fun h => h.1 rfl

variable (cfg topo) in
theorem matchRoads_looked (stack : RoadInfo Sg) (user : UserInfo Sg) (roads : List (RoadInfo Sg)) :
    (matchRoads cfg topo stack user roads).looked =
      (historyLoop cfg topo user.roads roads (noRoad stack)).2.2 := by
  rw [noRoad, matchRoads]
  dsimp only
  split
  · rfl
  · split
    · rfl
    · split <;> rfl

theorem matchRoads_index {stack : RoadInfo Sg} {user : UserInfo Sg}
    {roads roads' : List (RoadInfo Sg)} {best : Best Sg} {looked near : Nat}
    {nearRoad : RoadInfo Sg}
    (hloop : historyLoop cfg topo user.roads roads (noRoad stack) = (roads', best, looked))
    (hnear : getNearstRoad (roads'.map (·.dist)) = some near)
    (hroad : roads'[near]? = some nearRoad) :
    (matchRoads cfg topo stack user roads).index =
      (finalRoad cfg best near (addNeaest cfg nearRoad)).retIdx := by
  rw [noRoad] at hloop
  rw [matchRoads]
  simp only [hloop, hnear, hroad]
  split <;> rfl

omit [DecidableEq Sg] in
theorem exists_firstConnected {history roads : List (RoadInfo Sg)} {h : Nat} {last : RoadInfo Sg}
    (hlast : history[h]? = some last)
    (hconn : ∃ r ∈ roads, Connected topo last.sg r.sg) :
    ∃ h', FirstConnected topo history roads h' := by
  classical
  have hex : ∃ (h : Nat) (last : RoadInfo Sg), history[h]? = some last ∧
      ∃ r ∈ roads, Connected topo last.sg r.sg := ⟨h, last, hlast, hconn⟩
  refine ⟨Nat.find hex, Nat.find_spec hex, fun h' hlt last' hlast' r hr hr' => ?_⟩
  exact Nat.find_min hex hlt ⟨last', hlast', r, hr, hr'⟩

/-- **The loop over the history.** It ends with the first connected road if this is the
most recent one, and otherwise with the last road. -/
theorem historyLoop_connected (hc : cfg.Exact) {history roads : List (RoadInfo Sg)}
    (stack : RoadInfo Sg) (hstatus : ∀ r ∈ roads, r.status = 0#64) {h : Nat} {last : RoadInfo Sg}
    (hfirst : FirstConnected topo history roads h) (hlast : history[h]? = some last) :
    ∃ roads₁ : List (RoadInfo Sg), Same roads roads₁ ∧
      (h = 0 ∨ h + 1 = history.length →
        historyLoop cfg topo history roads (noRoad stack) =
          (roads₁.map (weigh cfg topo last.sg),
            (matchLoop cfg topo last.sg 0 (noRoad stack) roads₁).2, h + 1)) ∧
      (h ≠ 0 →
        (historyLoop cfg topo history roads (noRoad stack)).2.2 = history.length) := by
  obtain ⟨hlt, hget⟩ := List.getElem?_eq_some_iff.mp hlast
  have hsplit : history = history.take h ++ last :: history.drop (h + 1) := by
    rw [← hget, ← drop_eq_getElem_cons hlt, take_append_drop]
  have hpre : (history.take h).length = h := by
    rw [length_take]
    omega
  have hquiet : ∀ l ∈ history.take h, ∀ r ∈ roads, ¬Connected topo l.sg r.sg := by
    intro l hl r hr
    obtain ⟨k, hk⟩ := mem_iff_getElem?.mp hl
    have hkh : k < h := by
      have := (List.getElem?_eq_some_iff.mp hk).1
      omega
    rw [getElem?_take_of_lt hkh] at hk
    exact hfirst.2 k hkh l hk r hr
  obtain ⟨roads₁, hsame, hnil, hcons, heq⟩ := historyLoop_quiet hc (history.take h)
    (last :: history.drop (h + 1)) roads (noRoad stack) rfl (noRoad_no stack) hquiet
  rw [← hsplit, hpre] at heq
  refine ⟨roads₁, hsame, ?_, ?_⟩
  · intro hh
    rw [heq, historyLoop]
    simp only [matchLoop_roads]
    by_cases h0 : h = 0
    · -- the statuses are fresh, so the candidate that is kept has no bit for "no connection"
      have hroads : roads₁ = roads := hnil (by simp [h0])
      subst hroads
      have hkept : checkFlag (matchLoop cfg topo last.sg 0 (noRoad stack) roads₁).2.maxRoad.status
          .no = 0#32 := by
        obtain ⟨⟨last', hlast', r, hr, hconn⟩, -⟩ := hfirst
        obtain rfl : last = last' := Option.some.inj (hlast.symm.trans hlast')
        rcases matchLoop_best cfg topo last.sg 0 (noRoad stack) roads₁ with
          hsame | ⟨k, road, hk, hgt, hbest⟩
        · -- the connected candidate is heavier than nothing
          have hheavy := heaviest_heavy (roads₁.map fun r => weightOf cfg topo last.sg r.sg)
            (w := 0) ⟨_, mem_map_of_mem hr, weightOf_pos hc hconn⟩ 0
          have hb := congrArg Prod.snd
            (matchLoop_heaviest cfg topo last.sg 0 (noRoad stack) roads₁)
          rw [hsame] at hb
          exact absurd hb.symm hheavy
        · rw [hbest, weigh_no]
          refine ⟨?_, ?_⟩
          · by_contra hno
            rw [weigh_weight, weightOf_eq_zero hc hno] at hgt
            exact absurd hgt (lt_irrefl 0)
          · rw [hstatus road (mem_of_getElem? hk), checkFlag_eq_zero]
            simp
      simp only [if_pos hkept, h0]
    · have hend : history.drop (h + 1) = [] := by
        rw [drop_eq_nil_iff]
        omega
      simp only [hend, historyLoop]
      split <;> simp [Nat.add_comm]
  · intro h0
    -- all candidates are stale, so the loop goes on
    have hstale : Stale roads₁ := hcons fun hempty => h0 (by rw [← hpre, hempty, length_nil])
    rw [heq, historyLoop_stale _ hstale (noRoad_no stack), length_cons, length_drop]
    change history.length - (h + 1) + 1 + h = history.length
    omega

end

section

variable {Sg : Type} [DecidableEq Sg] (cfg : LocateCfg) (topo : Topo Sg)

/-- **The rule.** It is followed if and only if the first road of the history with a
connection is the most recent one or the last one. -/
theorem match_follows_iff (hc : cfg.Exact) (stack : RoadInfo Sg) (user : UserInfo Sg)
    (roads : List (RoadInfo Sg)) (hstatus : ∀ r ∈ roads, r.status = 0#64)
    (hnear : ∃ r ∈ roads, r.dist < 100) :
    Follows cfg topo user.roads roads (matchRoads cfg topo stack user roads) ↔
      ∀ h, FirstConnected topo user.roads roads h → h = 0 ∨ h + 1 = user.roads.length := by
  have hnear' : ∃ d ∈ roads.map (·.dist), d < 100 := by
    obtain ⟨r, hr, hlt⟩ := hnear
    exact ⟨r.dist, mem_map_of_mem hr, hlt⟩
  obtain ⟨near, d, hnearest, hd, hmin⟩ := getNearstRoad_some hnear'
  -- the nearest candidate, in what the loops leave
  have hnearRoad : ∀ roads', Same roads roads' → ∃ nearRoad, roads'[near]? = some nearRoad := by
    intro roads' hsame
    have hlen : near < (roads'.map (·.dist)).length := by
      rw [hsame.2]
      exact (List.getElem?_eq_some_iff.mp hd).1
    rw [length_map] at hlen
    exact ⟨roads'[near], getElem?_eq_getElem hlen⟩
  constructor
  · intro hfollows h hfirst
    obtain ⟨⟨last, hlast, -⟩, -⟩ := id hfirst
    by_contra hneither
    rw [not_or] at hneither
    obtain ⟨roads₁, -, -, hlong⟩ := historyLoop_connected hc stack hstatus hfirst hlast
    have hlooked := (hfollows.connected h last hfirst hlast).1
    have hlt := (List.getElem?_eq_some_iff.mp hlast).1
    rw [matchRoads_looked, hlong hneither.1] at hlooked
    exact hneither.2 (by omega)
  · intro hcond
    constructor
    · intro h last hfirst hlast
      obtain ⟨roads₁, hsame, hloop, -⟩ :=
        historyLoop_connected hc stack hstatus hfirst hlast
      have hsame' : Same roads (roads₁.map (weigh cfg topo last.sg)) :=
        ⟨(same_weigh cfg topo last.sg roads₁).1.trans hsame.1,
          (same_weigh cfg topo last.sg roads₁).2.trans hsame.2⟩
      obtain ⟨nearRoad, hroad⟩ := hnearRoad _ hsame'
      have hnear₁ := hnearest
      rw [← hsame'.2] at hnear₁
      have hlooked := matchRoads_looked cfg topo stack user roads
      rw [hloop (hcond h hfirst)] at hlooked
      have hindex := matchRoads_index (hloop (hcond h hfirst)) hnear₁ hroad
      refine ⟨hlooked.le, ?_⟩
      have hweights : (roads₁.map (weigh cfg topo last.sg)).map (·.weight) =
          roads₁.map fun r => weightOf cfg topo last.sg r.sg := by
        rw [map_map]
        exact map_congr_left fun r _ => weigh_weight last.sg r
      have hsg : (roads₁.map fun r => weightOf cfg topo last.sg r.sg) =
          roads.map fun r => weightOf cfg topo last.sg r.sg := by
        have := congrArg (List.map (weightOf cfg topo last.sg)) hsame.1
        simpa only [map_map, Function.comp_def] using this
      rw [hindex, finalRoad_retIdx ?_ ?_ hnear₁ hroad, hsame'.2, hweights, hsg]
      · rw [hweights]
        exact matchLoop_heaviest cfg topo last.sg 0 (noRoad stack) roads₁
      · intro i hi
        rcases matchLoop_best cfg topo last.sg 0 (noRoad stack) roads₁ with
          hb | ⟨k, road, hk, -, hb⟩
        · rw [hb] at hi
          cases hi
        · rw [hb] at hi ⊢
          obtain rfl : 0 + k = i := Option.some.inj hi
          simp [hk]
    · intro hnone
      have hquiet : ∀ l ∈ user.roads, ∀ r ∈ roads, ¬Connected topo l.sg r.sg := by
        intro l hl r hr hconn
        obtain ⟨k, hk⟩ := mem_iff_getElem?.mp hl
        obtain ⟨h', hfirst⟩ := exists_firstConnected hk ⟨r, hr, hconn⟩
        exact hnone h' hfirst
      obtain ⟨roads', hsame, -, -, hloop⟩ := historyLoop_quiet hc user.roads [] roads
        (noRoad stack) rfl (noRoad_no stack) hquiet
      rw [append_nil] at hloop
      obtain ⟨nearRoad, hroad⟩ := hnearRoad _ hsame
      have hnear₁ := hnearest
      rw [← hsame.2] at hnear₁
      have hindex := matchRoads_index hloop hnear₁ hroad
      rw [getElem?_map, Option.map_eq_some_iff] at hd
      obtain ⟨road, hroad₀, rfl⟩ := hd
      refine ⟨near, road, hindex, hroad₀, fun r hr => hmin r.dist (mem_map_of_mem hr)⟩

end

/-- Weights as they are set, in whole numbers. -/
def wholeCfg : LocateCfg where
  matchWeight
    | .no => 0
    | .lastSam => 5
    | .connDirect => 4
    | .connIndirect => 3
    | .byroad => 3
    | .neaest => 1
    | .indirectInNode => 2
    | _ => 0
  weightDistLimit := 20

theorem wholeCfg_exact : wholeCfg.Exact := by
  constructor <;> decide

/-- Only the segments 20 and 1 are connected. -/
def oneConnection : Topo Nat where
  isConnect last sg := if last = 20 ∧ sg = 1 then .direct else .no
  nearStart _ := false
  inNodeRange _ _ := false

/-- The candidates 1 and 2. -/
def twoRoads : List (RoadInfo Nat) := [⟨1, 50, 0, 0#64⟩, ⟨2, 10, 0, 0#64⟩]

/-- The history 10, 20, 2. -/
def threeBack : UserInfo Nat where
  roads := [⟨10, 0, 0, 0#64⟩, ⟨20, 0, 0, 0#64⟩, ⟨2, 0, 0, 0#64⟩]
  count_le := by decide

theorem match_follows_iff_threeBack :
    Follows wholeCfg oneConnection threeBack.roads twoRoads
        (matchRoads wholeCfg oneConnection ⟨0, 0, 0, 0#64⟩ threeBack twoRoads) ↔
      ∀ h, FirstConnected oneConnection threeBack.roads twoRoads h → h = 0 ∨ h + 1 = 3 :=
  match_follows_iff wholeCfg oneConnection wholeCfg_exact ⟨0, 0, 0, 0#64⟩ threeBack twoRoads
    (by decide) (by decide)

/-- The candidate 1 is connected to the second road of the history, and the third one is
looked at as well; it decides for the candidate 2. -/
theorem not_follows_threeBack :
    wholeCfg.Exact ∧ (∀ r ∈ twoRoads, r.status = 0#64) ∧ (∃ r ∈ twoRoads, r.dist < 100) ∧
      ¬Follows wholeCfg oneConnection threeBack.roads twoRoads
        (matchRoads wholeCfg oneConnection ⟨0, 0, 0, 0#64⟩ threeBack twoRoads) := by
  refine ⟨wholeCfg_exact, by decide, by decide, fun hfollows => ?_⟩
  have hfirst : FirstConnected oneConnection threeBack.roads twoRoads 1 := by
    refine ⟨⟨_, rfl, _, .head _, .inr (by decide)⟩, ?_⟩
    intro h' hlt last hlast r hr
    obtain rfl : h' = 0 := by omega
    obtain rfl : (⟨10, 0, 0, 0#64⟩ : RoadInfo Nat) = last := Option.some.inj hlast
    simp only [twoRoads, mem_cons, not_mem_nil, or_false] at hr
    rcases hr with rfl | rfl
    all_goals simp [Connected, oneConnection]
  have hlooked := (hfollows.connected 1 _ hfirst rfl).1
  exact absurd hlooked (by decide)

end Supex.Pmr
