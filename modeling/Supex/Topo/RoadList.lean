import Supex.Topo.Roads
import Supex.Tsdb.Commands

/-!
# The roads ahead

`get_road_list_by_road` follows a road to the straightest next one until 2000 metres are
covered, and writes a pair of numbers for each road.

The place of the pairs behind the first does not move, `peak` is not looked at, and a road
that goes beyond the 2000 metres is written with what is too much, as a negative number.

What `abs` makes of the difference of two directions, which are `double`s, is data of the
model. An `int` that overflows has no value; `size`, which counts roads, is not cut.

* `straightLoop_ring`, `getNextMostStraightLine_made` — the look for the next road ends.

Main result: `roadListed_iff`.
-/

namespace Supex.Topo

open Supex.Lib List
open Tsdb (atoi)

/-- Fields of the lines. `deviation` is `abs(p_line->direction - dir)` of a line and the
line whose direction is `dir`. -/
structure LineData where
  length : Nat → UInt64
  deviation : Nat → Nat → Int

--
-- The code
--

/-- `min` and `p_tag` behind a line. -/
def straighter (deviation : Nat → Int) (best : Int × Option Nat) (line : Nat) : Int × Option Nat :=
  if deviation line < best.1 then (deviation line, some line) else best

/-- The `do`-`while` loop. A walk that is not back at the head after as many lines as there
are never is. -/
def straightLoop (next : Nat → Option Nat) (deviation : Nat → Int) (head : Nat) :
    Nat → Nat → Int × Option Nat → Except Fault (Option Nat)
  | 0, _, _ => .error .diverge
  | fuel + 1, line, best =>
    match next line with
    | none => .error .memory
    | some line' =>
      if line' = head then .ok (straighter deviation best line).2
      else straightLoop next deviation head fuel line' (straighter deviation best line)

def getNextMostStraightLine (s : Tables) (deviation : Nat → Int) (line : Nat) :
    Except Fault (Option Nat) :=
  match s.gotoNode line with
  | none => .error .memory
  | some node =>
    match s.exports.head node with
    | none => .ok none
    | some head =>
      straightLoop s.exports.next deviation head MAX_TOPO_LINE_COUNT head (500, none)

/-- `ptr + 1` behind `strchr(ptr, ':')`. -/
def behindColon (text : Bytes) : Except Fault Bytes :=
  match text.dropWhile (· ≠ 58) with
  | [] => .error .memory
  | _ :: rest => .ok rest

/-- Where `atoi` stops. -/
def behindNumber (text : Bytes) : Bytes :=
  match text.dropWhile isSpace with
  | 45 :: t => t.dropWhile isDigit
  | 43 :: t => t.dropWhile isDigit
  | t => t.dropWhile isDigit

/-- `road_id`, which becomes a `uint64_t`, and `meter`. A text that fills `tmp` has no
zero behind it. -/
def roadText (data : Bytes) (len : Int) : Except Fault (Nat × Int) :=
  if len < 0 ∨ 32 < len then .error .memory
  else do
    let tmp := cstr (data.take len.toNat)
    let roadId ← behindColon tmp
    let meter ← behindColon roadId
    if tmp.length = 32 ∧ behindNumber meter = [] then .error .memory
    else pure ((atoi roadId % 2 ^ 64).toNat, atoi meter)

/-- `threshold - line_len`. -/
def subInt (threshold lineLen : Int) : Except Fault Int :=
  if -2 ^ 31 ≤ threshold - lineLen ∧ threshold - lineLen < 2 ^ 31 then .ok (threshold - lineLen)
  else .error .memory

section

variable (s : Tables) (d : LineData)

/-- `get_next_most_straight_line(p_line, dir)`. -/
def nextLine (dir line : Nat) : Except Fault (Option Nat) :=
  getNextMostStraightLine s (d.deviation dir) line

/-- The two writes for a road. -/
def putRoad (buf : List UInt64) (i line : Nat) (lineLen threshold : Int) :
    Except Fault (List UInt64) :=
  if i * 2 + 1 < buf.length then
    .ok ((buf.set (i * 2) (UInt64.ofNat (s.lineId line))).set (i * 2 + 1)
      (UInt64.ofInt (if threshold < 0 then threshold else lineLen)))
  else .error .memory

/-- The loop of `get_road_list_by_road`: `size` and `buf` behind it. `i` stays 1. -/
def roadListLoop (dir : Nat) : Nat → Nat → Int → Nat → List UInt64 →
    Except Fault (Nat × List UInt64)
  | 0, _, _, _, _ => .error .diverge
  | fuel + 1, line, threshold, size, buf =>
    if 0 < threshold then do
      match ← nextLine s d dir line with
      | none => pure (0, buf)
      | some line => do
        let threshold' ← subInt threshold (toInt32 (d.length line).toNat)
        let buf ← putRoad s buf 1 line (toInt32 (d.length line).toNat) threshold'
        roadListLoop dir fuel line threshold' (size + 2) buf
    else .ok (size, buf)

/-- The part from `line_len` on; `rest` is `p_line->length - meter`. -/
def roadListFrom (fuel line : Nat) (rest : UInt64) (buf : List UInt64) :
    Except Fault (Nat × List UInt64) := do
  let threshold ← subInt 2000 (toInt32 rest.toNat)
  let buf ← putRoad s buf 0 line (toInt32 rest.toNat) threshold
  roadListLoop s d line fuel line threshold 2 buf

/-- The return value of the query and what it leaves in `query_args`, whose `size` is zero
before. -/
structure ListReply where
  ret : Bool
  size : Nat
  buf : List UInt64
  erro : Option Bytes

def getRoadListByRoad (fuel : Nat) (data : Bytes) (len : Int) (buf : List UInt64) :
    Except Fault ListReply := do
  let (idx, meter) ← roadText data len
  match topoPullLine s idx with
  | none => pure ⟨false, 0, buf, some (ERROR_QUERY_NO_ID idx)⟩
  | some line => do
    let (size, buf) ← roadListFrom s d fuel line (d.length line - UInt64.ofInt meter) buf
    pure ⟨true, size, buf, none⟩

--
-- What it is for
--

/-- The roads from a road on, of which `len` metres are left, until `need` metres are
covered, each with its length. -/
inductive Chain (dir : Nat) : Nat → UInt64 → Nat → List (Nat × UInt64) → Prop
  | last {line len need} : need ≤ len.toNat → Chain dir line len need [(line, len)]
  | cons {line line' len need roads} : len.toNat < need →
    nextLine s d dir line = .ok (some line') →
    Chain dir line' (d.length line') (need - len.toNat) roads →
    Chain dir line len need ((line, len) :: roads)

/-- The numbers of the buffer for a list of roads. -/
def pairs (roads : List (Nat × UInt64)) : List UInt64 :=
  roads.flatMap fun r => [UInt64.ofNat (s.lineId r.1), r.2]

/-- `buf` holds the roads of the chain, unless there is none. -/
def Listed (line : Nat) (rest : UInt64) (size : Nat) (buf : List UInt64) : Prop :=
  0 < size → ∃ roads, Chain s d line line rest 2000 roads ∧ size = 2 * roads.length ∧
    buf.take size = pairs s roads

/-- For a buffer of `peak` numbers, whatever they are, the query ends without a write
outside of it, and a list that it returns is right. -/
def RoadListed (data : Bytes) (len peak : Int) : Prop :=
  ∃ idx meter, roadText data len = .ok (idx, meter) ∧
    ∀ buf : List UInt64, buf.length = peak.toNat → ∃ fuel reply,
      getRoadListByRoad s d fuel data len buf = .ok reply ∧
        (reply.ret → ∃ line, topoPullLine s idx = some line ∧
          Listed s d line (d.length line - UInt64.ofInt meter) reply.size reply.buf)

--
-- The condition
--

/-- The walk comes to a road without a next one before `threshold` is used up. -/
inductive DeadEnd (dir : Nat) : Nat → Int → Prop
  | here {line threshold} :
    nextLine s d dir line = .ok none → DeadEnd dir line threshold
  | there {line line' threshold threshold'} :
    nextLine s d dir line = .ok (some line') →
    subInt threshold (toInt32 (d.length line').toNat) = .ok threshold' → 0 < threshold' →
    DeadEnd dir line' threshold' → DeadEnd dir line threshold

/-- One road or two that cover the 2000 metres exactly, or a dead end, and room for as
many roads as are written. -/
def ChainOk (line : Nat) (rest : UInt64) (peak : Int) : Prop :=
  2 ≤ peak ∧ (rest.toNat = 2000 ∨
    (4 ≤ peak ∧ rest.toNat < 2000 ∧ ∃ line',
      nextLine s d line line = .ok (some line') ∧ rest.toNat + (d.length line').toNat = 2000) ∨
    ∃ threshold, subInt 2000 (toInt32 rest.toNat) = .ok threshold ∧ 0 < threshold ∧
      DeadEnd s d line line threshold ∧
        (nextLine s d line line = .ok none ∨ 4 ≤ peak))

/-- The text names a road and an offset; the road is unknown, or its chain is in order. -/
def RequestOk (data : Bytes) (len peak : Int) : Prop :=
  ∃ idx meter, roadText data len = .ok (idx, meter) ∧
    ∀ line, topoPullLine s idx = some line →
      ChainOk s d line (d.length line - UInt64.ofInt meter) peak

end

--
-- The next road
--

theorem straightLoop_ring (deviation : Nat → Int) {prev next : Nat → Option Nat} {head a : Nat}
    {t : List Nat} (hchain : List.IsChain (Linked prev next) (a :: t ++ [head])) (hhead : head ∉ t)
    {fuel : Nat} (hfuel : (a :: t).length ≤ fuel) (best : Int × Option Nat) :
    straightLoop next deviation head fuel a best =
      .ok ((a :: t).foldl (straighter deviation) best).2 := by
  induction t generalizing a fuel best with
  | nil =>
    obtain ⟨fuel, rfl⟩ := Nat.exists_eq_succ_of_ne_zero (Nat.ne_of_gt hfuel)
    have hnext : next a = some head := (isChain_pair.mp hchain).1
    rw [straightLoop, hnext]
    exact if_pos rfl
  | cons b t ih =>
    obtain ⟨fuel, rfl⟩ := Nat.exists_eq_succ_of_ne_zero (Nat.ne_of_gt
      ((Nat.zero_lt_succ _).trans_le hfuel))
    rw [cons_append, cons_append, isChain_cons_cons] at hchain
    have hnext : next a = some b := hchain.1.1
    have hb : b ≠ head := fun heq => hhead (heq ▸ mem_cons_self)
    rw [straightLoop, hnext]
    refine (if_neg hb).trans ?_
    exact ih hchain.2 (fun hmem => hhead (mem_cons_of_mem b hmem))
      (Nat.le_of_succ_le_succ hfuel) _

/-- After `topo_make` the look for the next road ends, with the straightest of the lines
that leave the goto-node, in ascending order. -/
theorem getNextMostStraightLine_made {nodes : List Nat} {rows : List LineRow} {s : Tables}
    (hmade : Made nodes rows MAX_TOPO_LINE_COUNT s)
    (hids : ∀ r ∈ rows, ∀ r' ∈ rows, r.id = r'.id → r = r') {row : LineRow} (hrow : row ∈ rows)
    (deviation : Nat → Int) : ∃ l, IsRoadList rows LineRow.fromNode row.gotoNode l ∧
      getNextMostStraightLine s deviation row.id =
        .ok (l.foldl (straighter deviation) (500, none)).2 := by
  refine ⟨_, isRoadList_linesAt hmade.filled hids _ _, ?_⟩
  have hlast : lastRow rows row.id = some row := (lastRow_eq_some hids).mpr ⟨hrow, rfl⟩
  have hlen : (linesAt rows LineRow.fromNode MAX_TOPO_LINE_COUNT row.gotoNode).length ≤
      MAX_TOPO_LINE_COUNT := (length_filter_le _ _).trans_eq length_range
  have hring := hmade.exports.ring row.gotoNode
  rw [getNextMostStraightLine, hmade.filled.gotoNode, hlast, Option.map_some]
  dsimp only
  rw [hmade.exports.head]
  generalize linesAt rows LineRow.fromNode MAX_TOPO_LINE_COUNT row.gotoNode = l at hlen hring ⊢
  cases l with
  | nil => rfl
  | cons a t =>
    exact straightLoop_ring deviation (hring.chain a rfl) (nodup_cons.mp hring.nodup).1 hlen _

--
-- The loop
--

variable {s : Tables} {d : LineData} {dir line i fuel size : Nat} {rest : UInt64}
  {threshold threshold' lineLen : Int} {buf buf' : List UInt64} {r : Nat × List UInt64}

theorem subInt_eq_ok (h : subInt threshold lineLen = .ok threshold') :
    threshold' = threshold - lineLen ∧ -2 ^ 31 ≤ threshold' := by
  unfold subInt at h
  split at h
  · next hin => exact Except.ok.inj h ▸ ⟨rfl, hin.1⟩
  · cases h

theorem putRoad_eq_ok (h : putRoad s buf i line lineLen threshold = .ok buf') :
    i * 2 + 1 < buf.length ∧
      buf' = (buf.set (i * 2) (UInt64.ofNat (s.lineId line))).set (i * 2 + 1)
        (UInt64.ofInt (if threshold < 0 then threshold else lineLen)) := by
  unfold putRoad at h
  split at h
  · next hroom => exact ⟨hroom, (Except.ok.inj h).symm⟩
  · cases h

theorem putRoad_one (h : putRoad s buf 1 line lineLen threshold = .ok buf') :
    4 ≤ buf.length ∧ buf'.length = buf.length ∧ buf'.drop 4 = buf.drop 4 := by
  obtain ⟨hroom, rfl⟩ := putRoad_eq_ok h
  rw [length_set, length_set, drop_set_of_lt (by omega),
    drop_set_of_lt (by omega)]
  exact ⟨hroom, rfl, rfl⟩

theorem roadListLoop_done (h : roadListLoop s d dir fuel line threshold size buf = .ok r)
    (hthreshold : ¬0 < threshold) : r = (size, buf) := by
  cases fuel with
  | zero => cases h
  | succ fuel =>
    rw [roadListLoop, if_neg hthreshold] at h
    exact (Except.ok.inj h).symm

theorem roadListLoop_next {line' : Nat} (hthreshold : 0 < threshold)
    (hnext : nextLine s d dir line = .ok (some line'))
    (hsub : subInt threshold (toInt32 (d.length line').toNat) = .ok threshold')
    (hput : putRoad s buf 1 line' (toInt32 (d.length line').toNat) threshold' = .ok buf')
    (fuel : Nat) : roadListLoop s d dir (fuel + 1) line threshold size buf =
      roadListLoop s d dir fuel line' threshold' (size + 2) buf' := by
  rw [roadListLoop, if_pos hthreshold, hnext, ok_bind]
  dsimp only
  rw [hsub, ok_bind, hput, ok_bind]

theorem roadListLoop_turn (h : roadListLoop s d dir fuel line threshold size buf = .ok r)
    (hthreshold : 0 < threshold) :
    nextLine s d dir line = .ok none ∨
      ∃ fuel' line' threshold' buf',
        nextLine s d dir line = .ok (some line') ∧
        subInt threshold (toInt32 (d.length line').toNat) = .ok threshold' ∧
        putRoad s buf 1 line' (toInt32 (d.length line').toNat) threshold' = .ok buf' ∧
        fuel = fuel' + 1 ∧
        roadListLoop s d dir fuel' line' threshold' (size + 2) buf' = .ok r := by
  cases fuel with
  | zero => cases h
  | succ fuel =>
    rw [roadListLoop, if_pos hthreshold] at h
    obtain ⟨o, hnext, h⟩ := bind_eq_ok.mp h
    cases o with
    | none => exact .inl hnext
    | some line' =>
      obtain ⟨threshold', hsub, h⟩ := bind_eq_ok.mp h
      obtain ⟨buf', hput, h⟩ := bind_eq_ok.mp h
      exact .inr ⟨fuel, line', threshold', buf', hnext, hsub, hput, rfl, h⟩

theorem roadListLoop_drop (h : roadListLoop s d dir fuel line threshold size buf = .ok r)
    (hthreshold : 0 < threshold) :
    DeadEnd s d dir line threshold ∨ size + 2 ≤ r.1 ∧ r.2.drop 4 = buf.drop 4 := by
  induction fuel generalizing line threshold size buf with
  | zero => cases h
  | succ fuel ih =>
    obtain hnone | ⟨fuel', line', threshold', buf', hnext, hsub, hput, heq, h⟩ :=
      roadListLoop_turn h hthreshold
    · exact .inl (.here hnone)
    · obtain rfl := Nat.succ.inj heq
      obtain ⟨-, -, hkeep⟩ := putRoad_one hput
      by_cases hmore : 0 < threshold'
      · obtain hdead | ⟨hsize, hdrop⟩ := ih h hmore
        · exact .inl (.there hnext hsub hmore hdead)
        · exact .inr ⟨by omega, hdrop.trans hkeep⟩
      · obtain rfl := roadListLoop_done h hmore
        exact .inr ⟨Nat.le_refl _, hkeep⟩

theorem DeadEnd.loop (h : DeadEnd s d dir line threshold) (hthreshold : 0 < threshold) :
    ∀ size buf,
      (nextLine s d dir line = .ok none ∨ 4 ≤ buf.length) →
      ∃ fuel buf', roadListLoop s d dir fuel line threshold size buf = .ok (0, buf') := by
  induction h with
  | here hnone =>
    intro size buf _
    refine ⟨1, buf, ?_⟩
    rw [roadListLoop, if_pos hthreshold, hnone]
    rfl
  | @there line line' threshold threshold' hnext hsub hmore _ ih =>
    intro size buf hroom
    have hlen : 4 ≤ buf.length := hroom.resolve_left fun h => nomatch h.symm.trans hnext
    obtain ⟨buf₁, hput⟩ : ∃ buf₁, putRoad s buf 1 line' (toInt32 (d.length line').toNat)
        threshold' = .ok buf₁ := ⟨_, if_pos (by omega)⟩
    obtain ⟨fuel, buf', hloop⟩ := ih hmore (size + 2) buf₁
      (.inr (hlen.trans_eq (putRoad_one hput).2.1.symm))
    exact ⟨fuel + 1, buf', (roadListLoop_next hthreshold hnext hsub hput fuel).trans hloop⟩

--
-- The numbers of a road
--

variable {len : UInt64} {roads : List (Nat × UInt64)}

theorem eq_of_number {need : Int} (hneed : 0 < need ∧ need ≤ 2000)
    (hthreshold : threshold = need - toInt32 len.toNat ∧ -2 ^ 31 ≤ threshold) (hle : ¬0 < threshold)
    (hnumber : UInt64.ofInt (if threshold < 0 then threshold else toInt32 len.toNat) = len) :
    (len.toNat : Int) = need := by
  have hnat := congrArg UInt64.toNat hnumber
  rw [UInt64.ofInt, UInt64.toNat_ofNat'] at hnat
  have hint :
      toInt32 len.toNat = ((len.toNat % 2 ^ 32 : Nat) : Int) ∧ len.toNat % 2 ^ 32 < 2 ^ 31 ∨
      toInt32 len.toNat = ((len.toNat % 2 ^ 32 : Nat) : Int) - 2 ^ 32 ∧
        ¬len.toNat % 2 ^ 32 < 2 ^ 31 := by
    unfold toInt32
    split
    · next hlow => exact .inl ⟨rfl, hlow⟩
    · next hhigh => exact .inr ⟨rfl, hhigh⟩
  split at hnat <;> omega

theorem ofInt_toInt32 (h : len.toNat ≤ 2000) :
    toInt32 len.toNat = len.toNat ∧ UInt64.ofInt (toInt32 len.toNat) = len := by
  have hint : toInt32 len.toNat = len.toNat := toInt32_of_lt (by omega)
  refine ⟨hint, UInt64.toNat_inj.mp ?_⟩
  rw [hint, UInt64.ofInt, UInt64.toNat_ofNat']
  omega

--
-- The chain
--

theorem Chain.one {need : Nat} (h : Chain s d dir line len need roads) (hroads : roads.length = 1) :
    roads = [(line, len)] := by
  cases h with
  | last _ => rfl
  | cons _ _ hrest => cases hrest <;> simp at hroads

theorem Chain.two {need : Nat} (h : Chain s d dir line len need roads) (hroads : roads.length = 2) :
    len.toNat < need ∧ ∃ line', nextLine s d dir line = .ok (some line') ∧
      roads = [(line, len), (line', d.length line')] := by
  cases h with
  | last _ => cases hroads
  | cons hlt hnext hrest =>
    cases hrest with
    | last _ => exact ⟨hlt, _, hnext, rfl⟩
    | cons _ _ hrest => cases hrest <;> simp at hroads

theorem Chain.three {need : Nat} (h : Chain s d dir line len need roads)
    (hroads : 3 ≤ roads.length) :
    ∃ line₁ line₂, nextLine s d dir line = .ok (some line₁) ∧
      nextLine s d dir line₁ = .ok (some line₂) ∧
      (pairs s roads)[4]? = some (UInt64.ofNat (s.lineId line₂)) := by
  cases h with
  | last _ => simp at hroads
  | cons _ hnext hrest =>
    cases hrest with
    | last _ => simp at hroads
    | cons _ hnext' hrest =>
      refine ⟨_, _, hnext, hnext', ?_⟩
      cases hrest <;> rfl

--
-- The list
--

theorem chainOk_of_listed {peak : Int}
    (h : ∀ buf : List UInt64, buf.length = peak.toNat → ∃ fuel r,
      roadListFrom s d fuel line rest buf = .ok r ∧ Listed s d line rest r.1 r.2) :
    ChainOk s d line rest peak := by
  -- numbers that are not the id of the third road
  obtain ⟨g, hg⟩ : ∃ g : UInt64, ∀ line₁ line₂,
      nextLine s d line line = .ok (some line₁) →
      nextLine s d line line₁ = .ok (some line₂) →
      g ≠ UInt64.ofNat (s.lineId line₂) := by
    by_cases hthird : ∃ line₁ line₂,
        nextLine s d line line = .ok (some line₁) ∧
        nextLine s d line line₁ = .ok (some line₂)
    · obtain ⟨line₁, line₂, hnext₁, hnext₂⟩ := hthird
      refine ⟨UInt64.ofNat (s.lineId line₂) + 1, fun line₁' line₂' h₁ h₂ => ?_⟩
      obtain rfl := Option.some.inj (Except.ok.inj (hnext₁.symm.trans h₁))
      obtain rfl := Option.some.inj (Except.ok.inj (hnext₂.symm.trans h₂))
      simp
    · exact ⟨0, fun line₁ line₂ h₁ h₂ => (hthird ⟨line₁, line₂, h₁, h₂⟩).elim⟩
  obtain ⟨fuel, ⟨size, buf'⟩, hrun, hlist⟩ :=
    h (List.replicate peak.toNat g) length_replicate
  obtain ⟨threshold, hsub, hrun⟩ := bind_eq_ok.mp hrun
  obtain ⟨buf₁, hput, hrun⟩ := bind_eq_ok.mp hrun
  have hstart := subInt_eq_ok hsub
  obtain ⟨hroom, hbuf₁⟩ := putRoad_eq_ok hput
  rw [length_replicate] at hroom
  have hlen₁ : buf₁.length = peak.toNat := by
    rw [hbuf₁, length_set, length_set, length_replicate]
  refine ⟨by omega, ?_⟩
  by_cases hmore : 0 < threshold
  · obtain hnone | ⟨fuel', line', threshold', buf₂, hnext, hsub', hput', -, hrest⟩ :=
      roadListLoop_turn hrun hmore
    · exact .inr (.inr ⟨threshold, hsub, hmore, .here hnone, .inl hnone⟩)
    obtain ⟨hroom', -, hkeep⟩ := putRoad_one hput'
    have hpeak : 4 ≤ peak := by omega
    by_cases hmore' : 0 < threshold'
    · obtain hdead | ⟨hsize, hdrop⟩ := roadListLoop_drop hrest hmore'
      · exact .inr (.inr ⟨threshold, hsub, hmore, .there hnext hsub' hmore' hdead, .inr hpeak⟩)
      · -- the fifth number is not written
        exfalso
        obtain ⟨roads, hchain, hroads, htake⟩ := hlist (show 0 < size by omega)
        obtain ⟨line₁, line₂, h₁, h₂, hfifth⟩ := hchain.three (by omega)
        have hkept : buf'[4]? = (List.replicate peak.toNat g)[4]? := by
          have hzero := congrArg (·[0]?) (hdrop.trans hkeep)
          simpa [getElem?_drop, hbuf₁, getElem?_set] using hzero
        have hbuf' : (buf'.take size)[4]? = some (UInt64.ofNat (s.lineId line₂)) := by
          rw [show buf'.take size = pairs s roads from htake, hfifth]
        rw [getElem?_take_of_lt (by omega), hkept] at hbuf'
        exact hg line₁ line₂ h₁ h₂
          (eq_of_mem_replicate (mem_of_getElem? hbuf')).symm
    · -- two roads
      obtain ⟨rfl, rfl⟩ := Prod.mk.inj (roadListLoop_done hrest hmore')
      obtain ⟨roads, hchain, hroads, htake⟩ := hlist (Nat.zero_lt_succ _)
      obtain ⟨hlt, line'', hnext', rfl⟩ := hchain.two (by omega)
      obtain rfl := Option.some.inj (Except.ok.inj (hnext.symm.trans hnext'))
      refine .inr (.inl ⟨hpeak, hlt, line', hnext, ?_⟩)
      have hbuf₂ := (putRoad_eq_ok hput').2
      have hfourth : (buf'.take 4)[3]? = some (d.length line') :=
        congrArg (·[3]?) (show buf'.take 4 = _ from htake)
      rw [getElem?_take_of_lt (by omega), hbuf₂, getElem?_set_self
        (by rw [length_set]; omega)] at hfourth
      have hint := (ofInt_toInt32 hlt.le).1
      have hlast := eq_of_number (by omega) (subInt_eq_ok hsub') hmore' (Option.some.inj hfourth)
      omega
  · -- one road
    obtain ⟨rfl, rfl⟩ := Prod.mk.inj (roadListLoop_done hrun hmore)
    obtain ⟨roads, hchain, hroads, htake⟩ := hlist (Nat.zero_lt_succ _)
    obtain rfl := hchain.one (by omega)
    have hsecond : (buf'.take 2)[1]? = some rest :=
      congrArg (·[1]?) (show buf'.take 2 = _ from htake)
    rw [getElem?_take_of_lt (by omega), hbuf₁, getElem?_set_self
      (by rw [length_set, length_replicate]; omega)] at hsecond
    have hlast := eq_of_number (by omega) hstart hmore (Option.some.inj hsecond)
    exact .inl (by omega)

theorem roadListFrom_eq (hsub : subInt 2000 (toInt32 rest.toNat) = .ok threshold)
    (hput : putRoad s buf 0 line (toInt32 rest.toNat) threshold = .ok buf') (fuel : Nat) :
    roadListFrom s d fuel line rest buf = roadListLoop s d line fuel line threshold 2 buf' := by
  rw [roadListFrom, hsub, ok_bind, hput, ok_bind]

/-- **The list of a road** is right if and only if its chain is in order. -/
theorem listed_iff {peak : Int} :
    (∀ buf : List UInt64, buf.length = peak.toNat → ∃ fuel r,
      roadListFrom s d fuel line rest buf = .ok r ∧ Listed s d line rest r.1 r.2) ↔
      ChainOk s d line rest peak := by
  refine ⟨chainOk_of_listed, fun ⟨hpeak, hcases⟩ buf hbuf => ?_⟩
  obtain ⟨x, y, tail, rfl⟩ : ∃ x y tail, buf = x :: y :: tail := by
    match buf, hbuf with
    | [], hbuf => simp at hbuf; omega
    | [_], hbuf => simp at hbuf; omega
    | x :: y :: tail, _ => exact ⟨x, y, tail, rfl⟩
  have hput (threshold : Int) :
      putRoad s (x :: y :: tail) 0 line (toInt32 rest.toNat) threshold =
        .ok (UInt64.ofNat (s.lineId line) ::
          UInt64.ofInt (if threshold < 0 then threshold else toInt32 rest.toNat) :: tail) :=
    if_pos (by simp)
  rcases hcases with hone | ⟨hroom, hlt, line', hnext, hsum⟩ |
    ⟨threshold, hsub, hmore, hdead, hroom⟩
  · obtain ⟨hint, hnumber⟩ := ofInt_toInt32 hone.le
    have hsub : subInt 2000 (toInt32 rest.toNat) = .ok 0 := by rw [hint, hone]; rfl
    refine ⟨1, _, (roadListFrom_eq hsub (hput 0) 1).trans rfl, fun _ =>
      ⟨[(line, rest)], .last hone.ge, rfl, ?_⟩⟩
    rw [if_neg (Int.lt_irrefl 0), hnumber]
    rfl
  · obtain ⟨hint, hnumber⟩ := ofInt_toInt32 hlt.le
    have hnumber' := ofInt_toInt32 (show (d.length line').toNat ≤ 2000 by omega)
    have hsub : subInt 2000 (toInt32 rest.toNat) = .ok (2000 - rest.toNat) := by
      rw [hint]
      exact if_pos (by omega)
    have hsub' : subInt (2000 - rest.toNat) (toInt32 (d.length line').toNat) = .ok 0 := by
      rw [hnumber'.1, subInt, if_pos (by omega)]
      congr 1
      omega
    obtain ⟨z, w, tail, rfl⟩ : ∃ z w tail', tail = z :: w :: tail' := by
      match tail, hbuf with
      | [], hbuf => simp at hbuf; omega
      | [_], hbuf => simp at hbuf; omega
      | z :: w :: tail', _ => exact ⟨z, w, tail', rfl⟩
    have hput' (a b : UInt64) :
        putRoad s (a :: b :: z :: w :: tail) 1 line' (toInt32 (d.length line').toNat) 0 =
          .ok (a :: b :: UInt64.ofNat (s.lineId line') :: d.length line' :: tail) := by
      refine (if_pos (by simp)).trans ?_
      rw [if_neg (Int.lt_irrefl 0), hnumber'.2]
      rfl
    have hloop (a b : UInt64) :
        roadListLoop s d line 2 line (2000 - rest.toNat) 2 (a :: b :: z :: w :: tail) =
          .ok (4, a :: b :: UInt64.ofNat (s.lineId line') :: d.length line' :: tail) :=
      (roadListLoop_next (by omega) hnext hsub' (hput' a b) 1).trans (if_neg (Int.lt_irrefl 0))
    refine ⟨2, _, (roadListFrom_eq hsub (hput _) 2).trans (hloop _ _), fun _ =>
      ⟨[(line, rest), (line', d.length line')], .cons hlt hnext (.last (by omega)), rfl, ?_⟩⟩
    rw [if_neg (by omega), hnumber]
    rfl
  · have hlen (a b : UInt64) (h : 4 ≤ peak) : 4 ≤ (a :: b :: tail).length := by
      rw [show (a :: b :: tail).length = peak.toNat from hbuf]
      omega
    obtain ⟨fuel, buf', hloop⟩ := hdead.loop hmore 2 _ (hroom.imp_right (hlen _ _))
    exact ⟨fuel, _, (roadListFrom_eq hsub (hput threshold) fuel).trans hloop, nofun⟩

theorem requested_iff {data : Bytes} {len peak meter : Int} {idx : Nat}
    (htext : roadText data len = .ok (idx, meter)) :
    (∀ buf : List UInt64, buf.length = peak.toNat → ∃ fuel reply,
      getRoadListByRoad s d fuel data len buf = .ok reply ∧
        (reply.ret → ∃ line, topoPullLine s idx = some line ∧
          Listed s d line (d.length line - UInt64.ofInt meter) reply.size reply.buf)) ↔
      ∀ line, topoPullLine s idx = some line →
        ChainOk s d line (d.length line - UInt64.ofInt meter) peak := by
  have hquery (fuel : Nat) (buf : List UInt64) : getRoadListByRoad s d fuel data len buf =
      match topoPullLine s idx with
      | none => .ok ⟨false, 0, buf, some (ERROR_QUERY_NO_ID idx)⟩
      | some line => (roadListFrom s d fuel line (d.length line - UInt64.ofInt meter) buf).bind
          fun r => .ok ⟨true, r.1, r.2, none⟩ := by
    rw [getRoadListByRoad, htext]
    rfl
  cases hline : topoPullLine s idx with
  | none =>
    refine iff_of_true (fun buf _ => ⟨0, ⟨false, 0, buf, some (ERROR_QUERY_NO_ID idx)⟩, ?_, nofun⟩)
      nofun
    rw [hquery, hline]
  | some line =>
    refine Iff.trans ?_ (Iff.trans (@listed_iff s d line (d.length line - UInt64.ofInt meter) peak)
      ⟨fun h line' heq => Option.some.inj heq ▸ h, fun h => h line rfl⟩)
    refine forall_congr' fun buf => imp_congr_right fun _ => exists_congr fun fuel => ?_
    rw [hquery, hline]
    constructor
    · rintro ⟨reply, hrun, hlist⟩
      obtain ⟨r, hfrom, hreply⟩ := bind_eq_ok.mp hrun
      obtain rfl := Except.ok.inj hreply
      obtain ⟨line', heq, hlist⟩ := hlist rfl
      obtain rfl := Option.some.inj heq
      exact ⟨r, hfrom, hlist⟩
    · rintro ⟨r, hfrom, hlist⟩
      refine ⟨⟨true, r.1, r.2, none⟩, ?_, fun _ => ⟨line, rfl, hlist⟩⟩
      dsimp only
      rw [hfrom]
      rfl

/-- **The list of the roads ahead** is right, and ends inside the buffer, exactly on the
requests whose chain is in order. -/
theorem roadListed_iff (s : Tables) (d : LineData) (data : Bytes) (len peak : Int) :
    RoadListed s d data len peak ↔ RequestOk s d data len peak :=
  exists_congr fun _ => exists_congr fun _ => and_congr_right requested_iff

/-- Four times around a circle of 500 metres. -/
theorem not_roadListed_circle : ∃ s s', topoLoad [1] [⟨1, 1, 1⟩] = .ok s ∧ topoMake s = .ok s' ∧
    ¬RoadListed s' ⟨fun _ => 500, fun _ _ => 0⟩ (ascii "road:1:0") 8 16 := by
  have hload : topoLoad [1] [⟨1, 1, 1⟩] = .ok _ := rfl
  have hids : ∀ r ∈ [(⟨1, 1, 1⟩ : LineRow)], ∀ r' ∈ [(⟨1, 1, 1⟩ : LineRow)],
      r.id = r'.id → r = r' := by decide
  obtain ⟨s', hmake, hmade⟩ := topoMake_made (topoLoad_loaded hload) hids
  refine ⟨_, s', hload, hmake, fun h => ?_⟩
  have hrow : (⟨1, 1, 1⟩ : LineRow) ∈ [(⟨1, 1, 1⟩ : LineRow)] := mem_singleton_self _
  have hnext : nextLine s' ⟨fun _ => 500, fun _ _ => 0⟩ 1 1 = .ok (some 1) := by
    obtain ⟨l, ⟨hsorted, hmem⟩, hnext⟩ := getNextMostStraightLine_made hmade hids hrow fun _ => 0
    obtain rfl : l = [1] := by
      have hone : ∀ i, i ∈ l ↔ i = 1 := fun i => (hmem i).trans (by simp [eq_comm])
      refine List.Perm.eq_of_pairwise' hsorted (pairwise_singleton _ _) ?_
      refine (perm_ext_iff_of_nodup hsorted.nodup (nodup_singleton 1)).mpr fun i => ?_
      rw [hone, mem_singleton]
    exact hnext
  have hpull : topoPullLine s' 1 = some 1 := by
    have hgood := hmade.filled.linesGood _ hrow
    simp [topoPullLine, hgood, hmade.filled.lineId, lastRow]
  have hnever : ∀ {line : Nat} {threshold : Int},
      DeadEnd s' ⟨fun _ => 500, fun _ _ => 0⟩ 1 line threshold → line ≠ 1 := by
    intro line threshold hdead
    induction hdead with
    | here hnone =>
      rintro rfl
      cases hnext.symm.trans hnone
    | there hnext' _ _ _ ih =>
      rintro rfl
      exact ih (Option.some.inj (Except.ok.inj (hnext'.symm.trans hnext)))
  obtain ⟨idx, meter, htext, hlist⟩ := h
  have htext' : roadText (ascii "road:1:0") 8 = .ok (1, 0) := by decide
  obtain ⟨rfl, rfl⟩ := Prod.mk.inj (Except.ok.inj (htext.symm.trans htext'))
  obtain ⟨-, hone | ⟨-, -, line', -, hsum⟩ | ⟨threshold, -, -, hdead, -⟩⟩ :=
    (requested_iff htext).mp hlist 1 hpull
  · exact absurd hone (by decide)
  · exact absurd hsum
      (show ((500 : UInt64) - UInt64.ofInt 0).toNat + (500 : UInt64).toNat ≠ 2000 by decide)
  · exact hnever hdead rfl

end Supex.Topo
