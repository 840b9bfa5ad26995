import Supex.Lib.Blocks
import Supex.Mapdata.Ranges

/-!
# Road topology: generate, load, look up

`topo_file_gen` writes the table of road connections into a file,
`topo_file_load` reads it into the two-level buffer of `topo_info.c`, and
`map_topo_get_conn` finds the connections of a road segment there.

The number of records written follows from `max_id`, the number of records read
from `max_rr_id`, the largest road id, which the generator collects in a
variable it does not initialise (`junk`). The buffer has one row for every
`rrid_index_len` roads, counted in 16 bits. `NULL` numbers of the table are 0.

* `TopoServed.complete`, `TopoComplete.served` — the file serves every segment
  of the table exactly when no row lies behind record `max_rr_id`, every road has
  its place in the buffer, and no segment outgrows what the first line of its
  road and its own first line have reserved.

Main result: `readLines_eq`.
-/

namespace Supex.Mapdata

open Supex.Lib List
open Function (update update_of_ne update_self)
open Nat (mod_lt mod_eq_of_lt)

variable {δ : Type}

/-- `TOPO_CONN_TYPE_NO`, `_DIRECT`, `_BYROAD`, `_INDIRECT`. -/
inductive ConnType where
  | no
  | direct
  | byroad
  | indirect
  deriving DecidableEq, Repr

/-- A row of the connection table. -/
structure TopoRow (δ : Type) where
  id : Nat
  rrid1 : Nat
  sgid1 : Nat
  count1 : Nat
  rrid2 : Nat
  sgid2 : Nat
  count2 : Nat
  connCount : Nat
  sl : Option δ
  sb : δ
  el : δ
  eb : δ
  deriving DecidableEq

/-- `topo_file_line_t`. -/
structure TopoFileLine (δ : Type) where
  sgid1 : Nat
  count1 : Nat
  sgid2 : Nat
  count2 : Nat
  connCount : Nat
  connType : ConnType
  id : Nat
  rrid1 : Nat
  rrid2 : Nat
  sl : δ
  sb : δ
  el : δ
  eb : δ
  deriving DecidableEq

structure TopoNode (δ : Type) where
  l1 : δ
  b1 : δ
  l2 : δ
  b2 : δ
  deriving DecidableEq

/-- `topo_conn_sg_t`. -/
structure TopoConn (δ : Type) where
  rrid : Nat
  sgid : Nat
  connType : ConnType
  connNode : TopoNode δ
  deriving DecidableEq

/-- `topo_info_t`; `connBuff` holds the `conn_count` entries filled so far. -/
structure TopoInfo (δ : Type) where
  rrid : Nat
  sgid : Nat
  maxCount : Nat
  connBuff : Option (List (TopoConn δ))

/-- `topo_info_rr_t`; `topoBuf` has `sgCount` entries. -/
structure TopoInfoRr (δ : Type) where
  rrid : Nat
  sgCount : Nat
  topoBuf : Option (Nat → TopoInfo δ)

/-- `map_topo_manager_t`; `manageBuff` has `rridBuffLen` rows of `rridIndexLen`. -/
structure MapTopoManager (δ : Type) where
  maxRrId : Nat
  loadOnce : Nat
  rridBuffLen : Nat
  rridIndexLen : Nat
  manageBuff : Nat → Nat → TopoInfoRr δ

def TopoInfo.zero : TopoInfo δ := ⟨0, 0, 0, none⟩

def TopoInfoRr.zero : TopoInfoRr δ := ⟨0, 0, none⟩

def TopoNode.zero [Zero δ] : TopoNode δ := ⟨0, 0, 0, 0⟩

def TopoFileLine.zero [Zero δ] : TopoFileLine δ := ⟨0, 0, 0, 0, 0, .no, 0, 0, 0, 0, 0, 0, 0⟩

/-- `topo_cfg_mysql_t`, less the database connection. -/
structure TopoCfgMysql where
  loadOnce : Nat
  maxId : Nat
  deriving DecidableEq

structure TopoFile (δ : Type) where
  maxId : Nat
  maxRrId : Nat
  loadOnce : Nat
  lines : List (TopoFileLine δ)
  deriving DecidableEq

--
-- The generator
--

/-- The record `fetch_topo_line_cb` makes of a row. -/
def topoLine [Zero δ] (row : TopoRow δ) : TopoFileLine δ where
  sgid1 := row.sgid1 % 2 ^ 8
  count1 := row.count1 % 2 ^ 8
  sgid2 := row.sgid2 % 2 ^ 8
  count2 := row.count2 % 2 ^ 8
  connCount := row.connCount % 2 ^ 8
  connType := if row.sl.isSome then .byroad else .direct
  id := row.id % 2 ^ 32
  rrid1 := row.rrid1 % 2 ^ 32
  rrid2 := row.rrid2 % 2 ^ 32
  sl := row.sl.getD 0
  sb := row.sb
  el := row.el
  eb := row.eb

/-- The records of one round: the rows one after the other, then zeros. The
callback does not look at the size of the buffer. -/
def fetchTopoLineCb [Zero δ] (size : Nat) (rows : List (TopoRow δ)) :
    Except Fault (List (TopoFileLine δ)) :=
  if rows.length ≤ size then
    .ok (rows.map topoLine ++ List.replicate (size - rows.length) TopoFileLine.zero)
  else .error .memory

/-- `line_buff.max_rr_id` after the rows, from what it was before. -/
def maxRrId [Zero δ] (junk : Nat) (rows : List (TopoRow δ)) : Nat :=
  rows.foldl (fun m row => if (topoLine row).rrid1 > m then (topoLine row).rrid1 else m) junk

def topoFileGen [Zero δ] (fuel junk : Nat) (cfg : TopoCfgMysql) (table : List (TopoRow δ)) :
    Except Fault (TopoFile δ) := do
  let ranges ← idRanges cfg.maxId cfg.loadOnce fuel 0 cfg.loadOnce
  let rounds := ranges.map (selectRows toInt32 TopoRow.id table)
  let bufs ← rounds.mapM (fetchTopoLineCb cfg.loadOnce)
  pure
    { maxId := cfg.maxId
      maxRrId := maxRrId junk rounds.flatten
      loadOnce := cfg.loadOnce
      lines := bufs.flatten }

--
-- The buffer
--

def mapTopoManagerInitBuff (indexLen loadOnce maxRrid : Nat) : Option (MapTopoManager δ) :=
  if maxRrid = 0 ∨ loadOnce = 0 then none
  else
    let ret := maxRrid % indexLen % 2 ^ 16
    let len := maxRrid / indexLen % 2 ^ 16
    some
      { maxRrId := maxRrid
        loadOnce := loadOnce
        rridBuffLen := (if ret = 0 then len else len + 1) % 2 ^ 16
        rridIndexLen := indexLen
        manageBuff := fun _ _ => TopoInfoRr.zero }

/-- The connection a line stands for. -/
def lineConn [Zero δ] (line : TopoFileLine δ) : TopoConn δ where
  rrid := line.rrid2
  sgid := line.sgid2
  connType := line.connType
  connNode :=
    if line.connType = .byroad then ⟨line.sl, line.sb, line.el, line.eb⟩ else TopoNode.zero

/-- The connections entered so far. -/
def TopoInfo.conns (topo : TopoInfo δ) : List (TopoConn δ) := topo.connBuff.getD []

/-- The first line of a segment reserves `conn_count` entries. -/
def topoInfoAddLine [Zero δ] (topo : TopoInfo δ) (line : TopoFileLine δ) : TopoInfo δ :=
  let topo : TopoInfo δ :=
    if topo.connBuff.isNone then ⟨line.rrid1, line.sgid1, line.connCount, some []⟩ else topo
  if topo.conns.length ≥ topo.maxCount then topo
  else { topo with connBuff := some (topo.conns ++ [lineConn line]) }

/-- The place of a road: `rr_idx1` and `rr_idx2`. -/
def MapTopoManager.place (m : MapTopoManager δ) (rrid : Nat) : Nat × Nat :=
  (rrid / m.rridIndexLen % 2 ^ 16, rrid % m.rridIndexLen % 2 ^ 16)

def MapTopoManager.setRr (m : MapTopoManager δ) (place : Nat × Nat) (rr : TopoInfoRr δ) :
    MapTopoManager δ :=
  { m with
    manageBuff := Function.update m.manageBuff place.1
      (Function.update (m.manageBuff place.1) place.2 rr) }

/-- The first line of a road reserves `count1` entries. A failure (`-1`) leaves
what was reserved before it. -/
def mapTopoManagerAddLine [Zero δ] (m : MapTopoManager δ) (line : TopoFileLine δ) :
    Except Fault (MapTopoManager δ) :=
  let place := m.place line.rrid1
  if place.1 < m.rridBuffLen then
    let rr := m.manageBuff place.1 place.2
    let rr : TopoInfoRr δ :=
      if rr.topoBuf.isNone then ⟨line.rrid1, line.count1, some fun _ => TopoInfo.zero⟩ else rr
    if line.sgid1 > rr.sgCount then .ok (m.setRr place rr)
    else
      let buf := rr.topoBuf.getD fun _ => TopoInfo.zero
      let topo := topoInfoAddLine (buf (line.sgid1 - 1)) line
      .ok (m.setRr place { rr with topoBuf := some (Function.update buf (line.sgid1 - 1) topo) })
  else .error .memory

/-- `none` is `NULL`. A pointer before or without the buffer of the road is not
to be used. -/
def mapTopoGetConn (m : MapTopoManager δ) (rrid sgid : Nat) : Except Fault (Option (TopoInfo δ)) :=
  let place := m.place rrid
  if place.1 < m.rridBuffLen then
    let rr := m.manageBuff place.1 place.2
    if sgid > rr.sgCount then .ok none
    else
      match rr.topoBuf with
      | none => .error .memory
      | some buf => if sgid = 0 then .error .memory else .ok (some (buf (sgid - 1)))
  else .error .memory

--
-- The loader
--

/-- The numbers of records the loader asks for, one after the other. -/
def stepLens (maxRrId loadOnce : Nat) : List Nat :=
  let indexCount := blockCount maxRrId loadOnce
  (List.range indexCount).map fun index =>
    if index = indexCount - 1 ∧ maxRrId % loadOnce ≠ 0 then maxRrId % loadOnce else loadOnce

/-- What it gets: a short count fails an assertion, none at all is passed over. -/
def readLines : List Nat → List (TopoFileLine δ) → Except Fault (List (TopoFileLine δ))
  | [], _ => .ok []
  | stepLen :: steps, rest =>
    if (rest.take stepLen).length = 0 then readLines steps rest
    else if (rest.take stepLen).length = stepLen then do
      let more ← readLines steps (rest.drop stepLen)
      pure (rest.take stepLen ++ more)
    else .error .assertion

/-- A line without road or segment is passed over. -/
def addRead [Zero δ] (m : MapTopoManager δ) (line : TopoFileLine δ) :
    Except Fault (MapTopoManager δ) :=
  if line.rrid1 = 0 ∨ line.sgid1 = 0 then .ok m else mapTopoManagerAddLine m line

/-- `none` is the return value `-1`. -/
def topoFileLoad [Zero δ] (indexLen : Nat) (file : TopoFile δ) :
    Except Fault (Option (MapTopoManager δ)) :=
  if file.maxRrId = 0 then .ok none
  else
    match mapTopoManagerInitBuff indexLen file.loadOnce file.maxRrId with
    | none => .error .assertion
    | some m => do
      let lines ← readLines (stepLens file.maxRrId file.loadOnce) file.lines
      let m ← lines.foldlM addRead m
      pure (some m)

--
-- What is read
--

theorem stepLens_eq (maxRrId loadOnce : Nat) :
    stepLens maxRrId loadOnce = List.replicate (maxRrId / loadOnce) loadOnce ++
      if maxRrId % loadOnce = 0 then [] else [maxRrId % loadOnce] := by
  unfold stepLens blockCount
  by_cases hmod : maxRrId % loadOnce = 0
  · rw [if_pos hmod, if_pos hmod, append_nil, eq_replicate_iff]
    simp [hmod]
  · rw [if_neg hmod, if_neg hmod]
    dsimp only
    rw [range_succ, map_append, map_singleton, Nat.add_sub_cancel]
    congr 1
    · rw [eq_replicate_iff]
      simp only [length_map, length_range, mem_map, mem_range, true_and]
      rintro _ ⟨index, hindex, rfl⟩
      exact if_neg fun h => absurd h.1 (by omega)
    · rw [if_pos ⟨rfl, hmod⟩]

theorem readLines_nil (steps : List Nat) :
    readLines steps ([] : List (TopoFileLine δ)) = .ok [] := by
  induction steps with
  | nil => rfl
  | cons stepLen steps ih =>
    unfold readLines
    rw [take_nil]
    exact ih

theorem readLines_replicate {loadOnce r : Nat} (hpos : 0 < loadOnce) (hr : r < loadOnce) (q n : Nat)
    {lines : List (TopoFileLine δ)} (hlen : lines.length = n * loadOnce) :
    readLines (List.replicate q loadOnce ++ if r = 0 then [] else [r]) lines =
      .ok (lines.take (q * loadOnce + r)) := by
  induction q generalizing n lines with
  | zero =>
    rw [replicate_zero, nil_append, Nat.zero_mul, Nat.zero_add]
    by_cases hzero : r = 0
    · rw [if_pos hzero, hzero, take_zero]
      rfl
    · rw [if_neg hzero]
      rcases n with _ | n
      · obtain rfl := eq_nil_of_length_eq_zero (by simpa using hlen)
        rw [readLines_nil, take_nil]
      · have hle : loadOnce ≤ lines.length := by
          rw [hlen, Nat.add_mul, Nat.one_mul]
          omega
        have htake : (lines.take r).length = r := by
          rw [length_take]
          omega
        unfold readLines
        rw [if_neg (by omega), if_pos htake]
        show Except.ok (lines.take r ++ []) = _
        rw [append_nil]
  | succ q ih =>
    rw [replicate_succ, cons_append]
    rcases n with _ | n
    · obtain rfl := eq_nil_of_length_eq_zero (by simpa using hlen)
      rw [readLines_nil, take_nil]
    · have hle : loadOnce ≤ lines.length := by
        rw [hlen, Nat.add_mul, Nat.one_mul]
        omega
      have htake : (lines.take loadOnce).length = loadOnce := by
        rw [length_take]
        omega
      have hdrop : (lines.drop loadOnce).length = n * loadOnce := by
        rw [length_drop, hlen, Nat.add_mul, Nat.one_mul]
        omega
      unfold readLines
      rw [if_neg (by omega), if_pos htake, ih n hdrop]
      show Except.ok (lines.take loadOnce ++ (lines.drop loadOnce).take (q * loadOnce + r)) = _
      rw [show (q + 1) * loadOnce + r = loadOnce + (q * loadOnce + r) by ring, ← take_add]

/-- **The loader** reads the first `max_rr_id` records of the file. -/
theorem readLines_eq {loadOnce n : Nat} (maxRrId : Nat) (hpos : 0 < loadOnce)
    {lines : List (TopoFileLine δ)} (hlen : lines.length = n * loadOnce) :
    readLines (stepLens maxRrId loadOnce) lines = .ok (lines.take maxRrId) := by
  rw [stepLens_eq, readLines_replicate hpos (mod_lt _ hpos) _ n hlen,
    Nat.div_add_mod']

--
-- What the buffer holds
--

/-- The lines of a road. -/
def roadLines (lines : List (TopoFileLine δ)) (rrid : Nat) : List (TopoFileLine δ) :=
  lines.filter fun line => line.rrid1 = rrid

/-- The lines of a segment. -/
def segLines (lines : List (TopoFileLine δ)) (rrid sgid : Nat) : List (TopoFileLine δ) :=
  lines.filter fun line => line.rrid1 = rrid ∧ line.sgid1 = sgid

/-- What a segment holds after the lines: as many as its first line reserved. -/
def segInfo [Zero δ] (lines : List (TopoFileLine δ)) (rrid sgid : Nat) : TopoInfo δ :=
  match (segLines lines rrid sgid).head? with
  | none => TopoInfo.zero
  | some first => ⟨rrid, sgid, first.connCount,
      some (((segLines lines rrid sgid).take first.connCount).map lineConn)⟩

/-- What a road holds after the lines: the segments its first line reserved. -/
def roadInfo [Zero δ] (lines : List (TopoFileLine δ)) (rrid : Nat) : TopoInfoRr δ :=
  match (roadLines lines rrid).head? with
  | none => TopoInfoRr.zero
  | some first => ⟨rrid, first.count1,
      some fun i => if i < first.count1 then segInfo lines rrid (i + 1) else TopoInfo.zero⟩

/-- The buffer holds what the lines have brought to the roads that have a place. -/
structure Buffered [Zero δ] (lines : List (TopoFileLine δ)) (m : MapTopoManager δ) : Prop where
  indexLen_pos : 0 < m.rridIndexLen
  indexLen_lt : m.rridIndexLen < 2 ^ 16
  buffLen_lt : m.rridBuffLen < 2 ^ 16
  road : ∀ rrid, rrid / m.rridIndexLen < m.rridBuffLen →
    m.manageBuff (rrid / m.rridIndexLen) (rrid % m.rridIndexLen) = roadInfo lines rrid

variable [Zero δ] {lines : List (TopoFileLine δ)} {line : TopoFileLine δ} {m : MapTopoManager δ}

variable {rrid : Nat}

theorem Buffered.place (h : Buffered lines m) (hin : rrid / m.rridIndexLen < m.rridBuffLen) :
    m.place rrid = (rrid / m.rridIndexLen, rrid % m.rridIndexLen) := by
  have hlt := h.buffLen_lt
  have hmod := mod_lt rrid h.indexLen_pos
  have hidx := h.indexLen_lt
  unfold MapTopoManager.place
  rw [mod_eq_of_lt (by omega), mod_eq_of_lt (by omega)]

omit [Zero δ] in
theorem roadLines_concat (lines : List (TopoFileLine δ)) (line : TopoFileLine δ) (rrid : Nat) :
    roadLines (lines ++ [line]) rrid =
      roadLines lines rrid ++ if line.rrid1 = rrid then [line] else [] := by
  by_cases h : line.rrid1 = rrid <;> simp [roadLines, h]

omit [Zero δ] in
theorem segLines_concat (lines : List (TopoFileLine δ)) (line : TopoFileLine δ) (rrid sgid : Nat) :
    segLines (lines ++ [line]) rrid sgid =
      segLines lines rrid sgid ++ if line.rrid1 = rrid ∧ line.sgid1 = sgid then [line] else [] := by
  by_cases h : line.rrid1 = rrid ∧ line.sgid1 = sgid <;> simp [segLines, h]

theorem segInfo_other {sgid : Nat} (h : ¬(line.rrid1 = rrid ∧ line.sgid1 = sgid)) :
    segInfo (lines ++ [line]) rrid sgid = segInfo lines rrid sgid := by
  unfold segInfo
  rw [segLines_concat, if_neg h, append_nil]

theorem roadInfo_other (h : line.rrid1 ≠ rrid) :
    roadInfo (lines ++ [line]) rrid = roadInfo lines rrid := by
  unfold roadInfo
  rw [roadLines_concat, if_neg h, append_nil]
  simp only [segInfo_other (fun hsame => h hsame.1)]

theorem segInfo_own :
    segInfo (lines ++ [line]) line.rrid1 line.sgid1 =
      topoInfoAddLine (segInfo lines line.rrid1 line.sgid1) line := by
  unfold segInfo topoInfoAddLine
  rw [segLines_concat, if_pos ⟨rfl, rfl⟩]
  rcases hseg : segLines lines line.rrid1 line.sgid1 with _ | ⟨first, rest⟩
  · rcases hcount : line.connCount with _ | n
    · simp [TopoInfo.zero, TopoInfo.conns, hcount]
    · simp [TopoInfo.zero, TopoInfo.conns, hcount]
  · simp only [cons_append, head?_cons, Option.isNone_some, Bool.false_eq_true, if_false,
      TopoInfo.conns, Option.getD_some, length_map, length_take]
    split
    · next hfull =>
      rw [← cons_append, take_append_of_le_length (by omega)]
    · next hroom =>
      have hlen : (first :: rest).length < first.connCount := by omega
      rw [← cons_append, take_of_length_le (by simp at hlen ⊢; omega),
        take_of_length_le (by omega), map_append, map_singleton]

/-- The buffer of a road of `count` segments before the line. -/
def roadBuf (lines : List (TopoFileLine δ)) (rrid count : Nat) : Nat → TopoInfo δ :=
  fun i => if i < count then segInfo lines rrid (i + 1) else TopoInfo.zero

/-- The segments a road has, from its first line on. -/
def roadCount (lines : List (TopoFileLine δ)) (line : TopoFileLine δ) : Nat :=
  ((roadLines lines line.rrid1).head?.getD line).count1

omit [Zero δ] in
theorem segLines_eq_nil (h : roadLines lines rrid = []) (sgid : Nat) :
    segLines lines rrid sgid = [] := by
  unfold segLines
  rw [filter_eq_nil_iff]
  intro line hline hboth
  have hroad : line ∈ roadLines lines rrid := by
    simp only [roadLines, mem_filter, decide_eq_true_eq]
    exact ⟨hline, (of_decide_eq_true hboth).1⟩
  rw [h] at hroad
  cases hroad

theorem reserved_eq :
    (if (roadInfo lines line.rrid1).topoBuf.isNone then
      (⟨line.rrid1, line.count1, some fun _ => TopoInfo.zero⟩ : TopoInfoRr δ)
    else roadInfo lines line.rrid1) =
      ⟨line.rrid1, roadCount lines line,
        some (roadBuf lines line.rrid1 (roadCount lines line))⟩ := by
  unfold roadInfo roadCount
  rcases hroad : roadLines lines line.rrid1 with _ | ⟨first, rest⟩
  · have hbuf : roadBuf lines line.rrid1 line.count1 = fun _ => TopoInfo.zero := by
      funext i
      unfold roadBuf segInfo
      rw [segLines_eq_nil hroad]
      exact ite_self _
    simp [TopoInfoRr.zero, hbuf]
  · rfl

theorem roadInfo_own :
    roadInfo (lines ++ [line]) line.rrid1 = ⟨line.rrid1, roadCount lines line,
      some (roadBuf (lines ++ [line]) line.rrid1 (roadCount lines line))⟩ := by
  unfold roadInfo roadCount
  rw [roadLines_concat, if_pos rfl]
  rcases roadLines lines line.rrid1 with _ | ⟨first, rest⟩ <;> rfl

theorem roadBuf_own (hsg : 0 < line.sgid1) {count : Nat} (hle : line.sgid1 ≤ count) :
    roadBuf (lines ++ [line]) line.rrid1 count =
      update (roadBuf lines line.rrid1 count) (line.sgid1 - 1)
        (topoInfoAddLine (roadBuf lines line.rrid1 count (line.sgid1 - 1)) line) := by
  have hpred : line.sgid1 - 1 + 1 = line.sgid1 := Nat.sub_add_cancel hsg
  funext i
  by_cases hi : i = line.sgid1 - 1
  · subst hi
    rw [update_self]
    unfold roadBuf
    rw [if_pos (by omega), if_pos (by omega), hpred, segInfo_own]
  · rw [update_of_ne hi]
    unfold roadBuf
    rw [segInfo_other (fun h => hi (by omega))]

theorem roadBuf_dropped {count : Nat} (hlt : count < line.sgid1) :
    roadBuf (lines ++ [line]) line.rrid1 count = roadBuf lines line.rrid1 count := by
  funext i
  unfold roadBuf
  split
  · exact segInfo_other fun h => absurd h.2 (by omega)
  · rfl

theorem Buffered.setRr (h : Buffered lines m) (line : TopoFileLine δ) :
    Buffered (lines ++ [line])
      (m.setRr (line.rrid1 / m.rridIndexLen, line.rrid1 % m.rridIndexLen)
        (roadInfo (lines ++ [line]) line.rrid1)) := by
  refine ⟨h.indexLen_pos, h.indexLen_lt, h.buffLen_lt, fun rrid hrrid => ?_⟩
  show update m.manageBuff _ _ (rrid / m.rridIndexLen) (rrid % m.rridIndexLen) = _
  by_cases hsame : rrid = line.rrid1
  · subst hsame
    rw [update_self, update_self]
  · rw [roadInfo_other (fun h => hsame h.symm), ← h.road rrid hrrid]
    by_cases hrow : rrid / m.rridIndexLen = line.rrid1 / m.rridIndexLen
    · have hcol : rrid % m.rridIndexLen ≠ line.rrid1 % m.rridIndexLen := by
        intro hcol
        have h₁ := Nat.div_add_mod rrid m.rridIndexLen
        have h₂ := Nat.div_add_mod line.rrid1 m.rridIndexLen
        rw [hrow, hcol] at h₁
        omega
      rw [hrow, update_self, update_of_ne hcol]
    · rw [update_of_ne hrow]

theorem Buffered.addLine (h : Buffered lines m) (hsg : 0 < line.sgid1)
    (hin : line.rrid1 / m.rridIndexLen < m.rridBuffLen) :
    mapTopoManagerAddLine m line =
      .ok (m.setRr (line.rrid1 / m.rridIndexLen, line.rrid1 % m.rridIndexLen)
        (roadInfo (lines ++ [line]) line.rrid1)) := by
  unfold mapTopoManagerAddLine
  rw [h.place hin]
  dsimp only
  rw [if_pos hin, h.road _ hin, reserved_eq, roadInfo_own]
  split
  · next hlarge => rw [roadBuf_dropped hlarge]
  · next hfits =>
    rw [Option.getD_some, roadBuf_own hsg (Nat.le_of_not_lt hfits)]

theorem addLine_outside
    (hout : ¬line.rrid1 / m.rridIndexLen < m.rridBuffLen)
    (hlt : line.rrid1 / m.rridIndexLen < 2 ^ 16) :
    mapTopoManagerAddLine m line = .error .memory := by
  unfold mapTopoManagerAddLine MapTopoManager.place
  rw [mod_eq_of_lt hlt]
  exact if_neg hout

/-- The lines the loader enters. -/
def keptLines (lines : List (TopoFileLine δ)) : List (TopoFileLine δ) :=
  lines.filter fun line => ¬(line.rrid1 = 0 ∨ line.sgid1 = 0)

omit [Zero δ] in
theorem keptLines_append (l₁ l₂ : List (TopoFileLine δ)) :
    keptLines (l₁ ++ l₂) = keptLines l₁ ++ keptLines l₂ := filter_append ..

/-- **All lines** go into the buffer exactly when every road has its place. -/
theorem Buffered.foldlM {rest : List (TopoFileLine δ)} (h : Buffered lines m)
    (hlt : ∀ line ∈ rest, line.rrid1 / m.rridIndexLen < 2 ^ 16) :
    (∀ m', rest.foldlM addRead m = .ok m' →
      ∀ line ∈ keptLines rest, line.rrid1 / m.rridIndexLen < m.rridBuffLen) ∧
    ((∀ line ∈ keptLines rest, line.rrid1 / m.rridIndexLen < m.rridBuffLen) →
      ∃ m', rest.foldlM addRead m = .ok m' ∧ Buffered (lines ++ keptLines rest) m' ∧
        m'.rridIndexLen = m.rridIndexLen ∧ m'.rridBuffLen = m.rridBuffLen) := by
  induction rest generalizing lines m with
  | nil =>
    refine ⟨nofun, fun _ => ⟨m, rfl, ?_, rfl, rfl⟩⟩
    rwa [show keptLines ([] : List (TopoFileLine δ)) = [] from rfl, append_nil]
  | cons line rest ih =>
    obtain ⟨hline, hrest⟩ := forall_mem_cons.mp hlt
    rw [foldlM_cons]
    by_cases hskip : line.rrid1 = 0 ∨ line.sgid1 = 0
    · have hkept : keptLines (line :: rest) = keptLines rest :=
        filter_cons_of_neg (by rw [decide_eq_true_eq, not_not]; exact hskip)
      have hadd : addRead m line = .ok m := if_pos hskip
      rw [hkept, hadd, ok_bind]
      exact ih h hrest
    · have hkept : keptLines (line :: rest) = line :: keptLines rest :=
        filter_cons_of_pos (decide_eq_true hskip)
      have hadd : addRead m line = mapTopoManagerAddLine m line := if_neg hskip
      rw [hkept, hadd, forall_mem_cons]
      by_cases hin : line.rrid1 / m.rridIndexLen < m.rridBuffLen
      · have hstep := h.setRr line
        rw [h.addLine (by omega) hin, ok_bind]
        obtain ⟨hnec, hsuf⟩ := ih hstep hrest
        refine ⟨fun m' hm' => ⟨hin, hnec m' hm'⟩, fun hall => ?_⟩
        obtain ⟨m', hm', hrep, hlens⟩ := hsuf hall.2
        exact ⟨m', hm', by rwa [append_assoc] at hrep, hlens⟩
      · rw [addLine_outside hin hline]
        exact ⟨nofun, fun hall => absurd hall.1 hin⟩

theorem Buffered.getConn (h : Buffered lines m) {sgid : Nat} (hsg : 0 < sgid)
    (hin : rrid / m.rridIndexLen < m.rridBuffLen) :
    mapTopoGetConn m rrid sgid = .ok
      (if sgid ≤ (roadInfo lines rrid).sgCount then some (segInfo lines rrid sgid) else none) := by
  unfold mapTopoGetConn
  rw [h.place hin]
  rw [if_pos hin, h.road _ hin]
  by_cases hle : sgid ≤ (roadInfo lines rrid).sgCount
  · rw [if_neg (Nat.not_lt.mpr hle), if_pos hle]
    unfold roadInfo at hle ⊢
    rcases hroad : (roadLines lines rrid).head? with _ | first
    · rw [hroad] at hle
      exact absurd hle (Nat.not_le_of_gt hsg)
    · rw [hroad] at hle
      dsimp only at hle ⊢
      rw [if_neg (by omega), if_pos (by omega), Nat.sub_add_cancel hsg]
  · rw [if_pos (Nat.lt_of_not_le hle), if_neg hle]

omit [Zero δ] in
theorem getConn_outside {sgid : Nat} (h : ¬rrid / m.rridIndexLen < m.rridBuffLen)
    (hlt : rrid / m.rridIndexLen < 2 ^ 16) : mapTopoGetConn m rrid sgid = .error .memory := by
  unfold mapTopoGetConn MapTopoManager.place
  dsimp only
  rw [mod_eq_of_lt hlt]
  exact if_neg h

--
-- The file of a table
--

/-- The connection a row of the table stands for. -/
def rowConn (row : TopoRow δ) : TopoConn δ where
  rrid := row.rrid2
  sgid := row.sgid2
  connType := if row.sl.isSome then .byroad else .direct
  connNode := match row.sl with
    | some sl => ⟨sl, row.sb, row.el, row.eb⟩
    | none => TopoNode.zero

/-- The rows of a segment. -/
def segRows (table : List (TopoRow δ)) (rrid sgid : Nat) : List (TopoRow δ) :=
  table.filter fun row => row.rrid1 = rrid ∧ row.sgid1 = sgid

/-- A table of connections with ids `1 .. max_id`, roads and segments counted from
1, at most 255 segments on a road, and `conn_count` the rows of the segment. -/
structure TopoInput (indexLen : Nat) (cfg : TopoCfgMysql) (table : List (TopoRow δ)) : Prop where
  loadOnce_pos : 0 < cfg.loadOnce
  loadOnce_lt : cfg.loadOnce < 2 ^ 16
  indexLen_pos : 0 < indexLen
  indexLen_lt : indexLen < 2 ^ 16
  ids : ∀ row ∈ table, 0 < row.id ∧ row.id ≤ cfg.maxId
  ids_nodup : (table.map TopoRow.id).Nodup
  roads : ∀ row ∈ table, 0 < row.rrid1 ∧ row.rrid1 < 2 ^ 32
  segments : ∀ row ∈ table, 0 < row.sgid1 ∧ row.sgid1 ≤ row.count1 ∧ row.count1 < 2 ^ 8
  connCount : ∀ row ∈ table, row.connCount = (segRows table row.rrid1 row.sgid1).length

/-- The rows of round `k`. -/
def topoRound (cfg : TopoCfgMysql) (table : List (TopoRow δ)) (k : Nat) : List (TopoRow δ) :=
  table.filter fun row => (row.id - 1) / cfg.loadOnce = k

/-- The rows in the order of the file. -/
def fileRows (cfg : TopoCfgMysql) (table : List (TopoRow δ)) : List (TopoRow δ) :=
  (List.range (cfg.maxId / cfg.loadOnce + 1)).flatMap (topoRound cfg table)

/-- The records of round `k`. -/
def topoBlock (cfg : TopoCfgMysql) (table : List (TopoRow δ)) (k : Nat) : List (TopoFileLine δ) :=
  (topoRound cfg table k).map topoLine ++
    List.replicate (cfg.loadOnce - (topoRound cfg table k).length) TopoFileLine.zero

/-- The records of the file. -/
def topoLines (cfg : TopoCfgMysql) (table : List (TopoRow δ)) : List (TopoFileLine δ) :=
  ((List.range (cfg.maxId / cfg.loadOnce + 1)).map (topoBlock cfg table)).flatten

variable {indexLen junk : Nat} {cfg : TopoCfgMysql} {table : List (TopoRow δ)}

omit [Zero δ] in
theorem fileRows_perm (hin : TopoInput indexLen cfg table) : (fileRows cfg table).Perm table := by
  refine flatMap_rounds_perm _ table fun row hrow => ?_
  have hle : (row.id - 1) / cfg.loadOnce ≤ cfg.maxId / cfg.loadOnce :=
    Nat.div_le_div_right (Nat.le_trans (Nat.sub_le _ _) (hin.ids row hrow).2)
  omega

omit [Zero δ] in
theorem topoRound_length_le (hin : TopoInput indexLen cfg table) (k : Nat) :
    (topoRound cfg table k).length ≤ cfg.loadOnce := by
  have hnodup : ((topoRound cfg table k).map TopoRow.id).Nodup :=
    hin.ids_nodup.sublist (filter_sublist.map _)
  have hsub : (topoRound cfg table k).map TopoRow.id ⊆
      List.range' (k * cfg.loadOnce + 1) cfg.loadOnce := by
    intro id hmem
    obtain ⟨row, hrow, rfl⟩ := mem_map.mp hmem
    obtain ⟨htable, hround⟩ := mem_filter.mp hrow
    have hid := (hin.ids row htable).1
    have hpos := hin.loadOnce_pos
    have := (Nat.div_eq_iff hpos).mp (of_decide_eq_true hround)
    rw [mem_range'_1]
    omega
  have := (subperm_of_subset hnodup hsub).length_le
  rwa [length_map, length_range'] at this

theorem topoBlock_length (hin : TopoInput indexLen cfg table) (k : Nat) :
    (topoBlock cfg table k).length = cfg.loadOnce := by
  have := topoRound_length_le hin k
  simp only [topoBlock, length_append, length_map, length_replicate]
  omega

theorem topoLines_length (hin : TopoInput indexLen cfg table) :
    (topoLines cfg table).length = (cfg.maxId / cfg.loadOnce + 1) * cfg.loadOnce := by
  simp [topoLines, length_flatten, Function.comp_def, topoBlock_length hin]

theorem topoLine_kept (hin : TopoInput indexLen cfg table) {row : TopoRow δ} (hrow : row ∈ table) :
    (topoLine row).rrid1 = row.rrid1 ∧ (topoLine row).sgid1 = row.sgid1 ∧
      ¬((topoLine row).rrid1 = 0 ∨ (topoLine row).sgid1 = 0) := by
  obtain ⟨hpos, hlt⟩ := hin.roads row hrow
  obtain ⟨hsg, hle, hcount⟩ := hin.segments row hrow
  have hrrid : (topoLine row).rrid1 = row.rrid1 := mod_eq_of_lt hlt
  have hsgid : (topoLine row).sgid1 = row.sgid1 := mod_eq_of_lt (by omega)
  exact ⟨hrrid, hsgid, by omega⟩

omit [Zero δ] in
theorem mem_of_mem_topoRound {row : TopoRow δ} {k : Nat} (h : row ∈ topoRound cfg table k) :
    row ∈ table := mem_of_mem_filter h

theorem keptLines_topoBlock (hin : TopoInput indexLen cfg table) (k : Nat) :
    keptLines (topoBlock cfg table k) = (topoRound cfg table k).map topoLine := by
  have hrows : keptLines ((topoRound cfg table k).map topoLine) =
      (topoRound cfg table k).map topoLine := by
    unfold keptLines
    rw [filter_eq_self]
    intro line hline
    obtain ⟨row, hrow, rfl⟩ := mem_map.mp hline
    exact decide_eq_true (topoLine_kept hin (mem_of_mem_topoRound hrow)).2.2
  have hzeros (n : Nat) : keptLines (List.replicate n (TopoFileLine.zero : TopoFileLine δ)) =
    [] := by
    unfold keptLines
    rw [filter_eq_nil_iff]
    intro line hline
    rw [eq_of_mem_replicate hline, decide_eq_true_eq, not_not]
    exact .inl rfl
  unfold topoBlock
  rw [keptLines_append, hrows, hzeros, append_nil]

theorem keptLines_topoLines (hin : TopoInput indexLen cfg table) :
    keptLines (topoLines cfg table) = (fileRows cfg table).map topoLine := by
  unfold topoLines fileRows keptLines
  rw [filter_flatten, map_map, map_flatMap, flatMap_def]
  congr 1
  apply map_congr_left
  intro k _
  exact keptLines_topoBlock hin k

/-- The generator's bounds stay below 2^31 and the rows of the buffer below 2^16. -/
structure TopoFits (junk indexLen : Nat) (cfg : TopoCfgMysql) (table : List (TopoRow δ)) :
    Prop where
  ids : (cfg.maxId / cfg.loadOnce + 1) * cfg.loadOnce < 2 ^ 31
  buffLen : blockCount (maxRrId junk (fileRows cfg table)) indexLen < 2 ^ 16

theorem topoFileGen_eq_ok (hin : TopoInput indexLen cfg table)
    (hids : (cfg.maxId / cfg.loadOnce + 1) * cfg.loadOnce < 2 ^ 31) {fuel : Nat}
    {file : TopoFile δ} :
    topoFileGen fuel junk cfg table = .ok file ↔ cfg.maxId / cfg.loadOnce + 1 < fuel ∧
      file = ⟨cfg.maxId, maxRrId junk (fileRows cfg table), cfg.loadOnce, topoLines cfg table⟩ := by
  have hlt := hin.loadOnce_lt
  have hrounds := rounds_of_lt (Nat.lt_trans hids (by decide)) hin.loadOnce_pos
  have hrows : (rangesFrom cfg.loadOnce 0 (cfg.maxId / cfg.loadOnce + 1)).map
      (selectRows toInt32 TopoRow.id table) =
      (List.range (cfg.maxId / cfg.loadOnce + 1)).map (topoRound cfg table) := by
    unfold rangesFrom
    rw [map_map]
    apply map_congr_left
    intro k hk
    rw [Function.comp_apply, Nat.zero_add]
    have hle : (k + 1) * cfg.loadOnce ≤ (cfg.maxId / cfg.loadOnce + 1) * cfg.loadOnce :=
      Nat.mul_le_mul_right _ (mem_range.mp hk)
    exact selectRows_of_lt (fun i hi => toInt32_of_lt hi) hin.loadOnce_pos
      (fun row hrow => (hin.ids row hrow).1) (Nat.lt_of_le_of_lt hle hids)
  have hbufs : ((List.range (cfg.maxId / cfg.loadOnce + 1)).map (topoRound cfg table)).mapM
      (fetchTopoLineCb cfg.loadOnce) =
      .ok ((List.range (cfg.maxId / cfg.loadOnce + 1)).map (topoBlock cfg table)) := by
    rw [mapM_eq_ok, map_map, map_map]
    apply map_congr_left
    intro k _
    exact if_pos (topoRound_length_le hin k)
  unfold topoFileGen
  rw [bind_eq_ok]
  constructor
  · rintro ⟨ranges, hranges, h⟩
    obtain ⟨n, hn, hr, rfl⟩ := (idRanges_eq_ok (by omega)).mp hranges
    obtain rfl := hr.unique hrounds
    dsimp only at h
    rw [hrows, hbufs, ok_bind] at h
    exact ⟨hn, (Except.ok.inj h).symm⟩
  · rintro ⟨hn, rfl⟩
    refine ⟨_, (idRanges_eq_ok (by omega)).mpr ⟨_, hn, hrounds, rfl⟩, ?_⟩
    dsimp only
    rw [hrows, hbufs, ok_bind]
    rfl

--
-- The loader on the file of a table
--

theorem le_maxRrId {rows : List (TopoRow δ)} :
    junk ≤ maxRrId junk rows ∧ ∀ row ∈ rows, (topoLine row).rrid1 ≤ maxRrId junk rows := by
  unfold maxRrId
  induction rows generalizing junk with
  | nil => exact ⟨Nat.le_refl _, nofun⟩
  | cons row rows ih =>
    rw [foldl_cons, forall_mem_cons]
    obtain ⟨hle, hrows⟩ := @ih (if (topoLine row).rrid1 > junk then (topoLine row).rrid1 else junk)
    refine ⟨Nat.le_trans ?_ hle, Nat.le_trans ?_ hle, hrows⟩
    · split <;> omega
    · split <;> omega

theorem mem_topoLines {line : TopoFileLine δ} (h : line ∈ topoLines cfg table) :
    (∃ row ∈ fileRows cfg table, line = topoLine row) ∨ line = TopoFileLine.zero := by
  obtain ⟨block, hblock, hline⟩ := mem_flatten.mp h
  obtain ⟨k, hk, rfl⟩ := mem_map.mp hblock
  rcases mem_append.mp hline with hmem | hzero
  · obtain ⟨row, hrow, rfl⟩ := mem_map.mp hmem
    exact .inl ⟨row, mem_flatMap.mpr ⟨k, hk, hrow⟩, rfl⟩
  · exact .inr (eq_of_mem_replicate hzero)

theorem initBuff_buffered (hin : TopoInput indexLen cfg table) {maxRrid : Nat}
    (hpos : maxRrid ≠ 0) (hlt : blockCount maxRrid indexLen < 2 ^ 16) :
    ∃ m : MapTopoManager δ, mapTopoManagerInitBuff indexLen cfg.loadOnce maxRrid = some m ∧
      Buffered [] m ∧ m.rridIndexLen = indexLen ∧ m.rridBuffLen = blockCount maxRrid indexLen := by
  have hloadOnce := hin.loadOnce_pos
  have hindexLt := hin.indexLen_lt
  have hmod : maxRrid % indexLen < indexLen := mod_lt _ hin.indexLen_pos
  have hlen : (if maxRrid % indexLen % 2 ^ 16 = 0 then maxRrid / indexLen % 2 ^ 16
      else maxRrid / indexLen % 2 ^ 16 + 1) % 2 ^ 16 = blockCount maxRrid indexLen := by
    unfold blockCount at hlt ⊢
    rw [mod_eq_of_lt (show maxRrid % indexLen < 2 ^ 16 by omega)]
    split at hlt
    · next hzero => rw [if_pos hzero, if_pos hzero, Nat.mod_mod, mod_eq_of_lt hlt]
    · next hne =>
      rw [if_neg hne, if_neg hne, mod_eq_of_lt (show maxRrid / indexLen < 2 ^ 16 by omega),
        mod_eq_of_lt hlt]
  refine ⟨_, if_neg (by omega), ⟨hin.indexLen_pos, hindexLt, ?_, fun _ _ => rfl⟩, rfl, hlen⟩
  rw [hlen]
  exact hlt

/-- **The loader** enters the lines among the first `max_rr_id` records, if each
of their roads has a place. -/
theorem topoFileLoad_spec (hin : TopoInput indexLen cfg table)
    (hfits : TopoFits junk indexLen cfg table)
    (hpos : maxRrId junk (fileRows cfg table) ≠ 0) :
    let maxRr := maxRrId junk (fileRows cfg table)
    let read := keptLines ((topoLines cfg table).take maxRr)
    let file : TopoFile δ := ⟨cfg.maxId, maxRr, cfg.loadOnce, topoLines cfg table⟩
    (∀ m, topoFileLoad indexLen file = .ok (some m) →
      ∀ line ∈ read, line.rrid1 / indexLen < blockCount maxRr indexLen) ∧
    ((∀ line ∈ read, line.rrid1 / indexLen < blockCount maxRr indexLen) →
      ∃ m, topoFileLoad indexLen file = .ok (some m) ∧ Buffered read m ∧
        m.rridIndexLen = indexLen ∧ m.rridBuffLen = blockCount maxRr indexLen) := by
  intro maxRr read file
  obtain ⟨m₀, hinit, hrep, hindexLen, hbuffLen⟩ := initBuff_buffered hin hpos hfits.buffLen
  have hload : topoFileLoad indexLen file =
      ((topoLines cfg table).take maxRr).foldlM addRead m₀ >>= fun m => .ok (some m) := by
    unfold topoFileLoad
    rw [if_neg hpos, show mapTopoManagerInitBuff indexLen file.loadOnce file.maxRrId =
      some m₀ from hinit]
    dsimp only
    rw [readLines_eq maxRr hin.loadOnce_pos (topoLines_length hin), ok_bind]
    rfl
  have hlt : ∀ line ∈ (topoLines cfg table).take maxRr, line.rrid1 / m₀.rridIndexLen < 2 ^ 16 := by
    intro line hline
    rw [hindexLen]
    have hle : line.rrid1 / indexLen ≤ maxRr / indexLen := by
      rcases mem_topoLines (mem_of_mem_take hline) with ⟨row, hrow, rfl⟩ | rfl
      · exact Nat.div_le_div_right (le_maxRrId.2 row hrow)
      · exact Nat.div_le_div_right (Nat.zero_le _)
    have hbuff : blockCount maxRr indexLen < 2 ^ 16 := hfits.buffLen
    unfold blockCount at hbuff
    split at hbuff <;> omega
  obtain ⟨hnec, hsuf⟩ := hrep.foldlM hlt
  rw [hindexLen, hbuffLen] at hnec hsuf
  rw [hload]
  constructor
  · intro m hm
    obtain ⟨m', hm', -⟩ := bind_eq_ok.mp hm
    exact hnec m' hm'
  · intro hall
    obtain ⟨m, hm, hrep, hlens⟩ := hsuf hall
    exact ⟨m, bind_eq_ok.mpr ⟨m, hm, rfl⟩, hrep, hlens⟩

--
-- Agreement
--

/-- After generating and loading, every segment of the table holds exactly the
connections of its rows. -/
def TopoServed (junk indexLen : Nat) (cfg : TopoCfgMysql) (table : List (TopoRow δ)) : Prop :=
  ∃ fuel file m, topoFileGen fuel junk cfg table = .ok file ∧
    topoFileLoad indexLen file = .ok (some m) ∧
    ∀ row ∈ table, ∃ info, mapTopoGetConn m row.rrid1 row.sgid1 = .ok (some info) ∧
      info.conns.Perm ((segRows table row.rrid1 row.sgid1).map rowConn)

/-- Nothing of the table is cut off: no row lies behind the `max_rr_id` records
that are read, every road has a place in the buffer, every segment one on its
road, and the counts and ids of the connections fit their fields. -/
structure TopoComplete (junk indexLen : Nat) (cfg : TopoCfgMysql) (table : List (TopoRow δ)) :
    Prop where
  loads : maxRrId junk (fileRows cfg table) ≠ 0
  read : ∀ k < cfg.maxId / cfg.loadOnce + 1, ∀ i < (topoRound cfg table k).length,
    k * cfg.loadOnce + i < maxRrId junk (fileRows cfg table)
  inside : ∀ row ∈ table,
    row.rrid1 / indexLen < blockCount (maxRrId junk (fileRows cfg table)) indexLen
  road : ∀ row ∈ table, ∀ first,
    (fileRows cfg table).find? (fun r => r.rrid1 = row.rrid1) = some first →
      row.sgid1 ≤ first.count1
  segment : ∀ row ∈ table, (segRows table row.rrid1 row.sgid1).length < 2 ^ 8
  narrow : ∀ row ∈ table, row.rrid2 < 2 ^ 32 ∧ row.sgid2 < 2 ^ 8

theorem topoLines_getElem? (hin : TopoInput indexLen cfg table) {k i : Nat}
    (hk : k < cfg.maxId / cfg.loadOnce + 1) (hi : i < cfg.loadOnce) :
    (topoLines cfg table)[k * cfg.loadOnce + i]? = (topoBlock cfg table k)[i]? := by
  have hlen : ∀ b ∈ (List.range (cfg.maxId / cfg.loadOnce + 1)).map (topoBlock cfg table),
      b.length = cfg.loadOnce := by
    intro b hb
    obtain ⟨j, -, rfl⟩ := mem_map.mp hb
    exact topoBlock_length hin j
  have hdiv : (k * cfg.loadOnce + i) / cfg.loadOnce = k := by
    rw [Nat.mul_comm, Nat.mul_add_div hin.loadOnce_pos, Nat.div_eq_of_lt hi, Nat.add_zero]
  have hmod : (k * cfg.loadOnce + i) % cfg.loadOnce = i := by
    rw [Nat.mul_comm, Nat.mul_add_mod, mod_eq_of_lt hi]
  unfold topoLines
  rw [flatten_getElem? hin.loadOnce_pos hlen, hdiv, hmod, getElem?_map,
    getElem?_range hk]
  rfl

theorem keptLines_drop_eq_nil (hin : TopoInput indexLen cfg table) {p : Nat} :
    keptLines ((topoLines cfg table).drop p) = [] ↔
      ∀ k < cfg.maxId / cfg.loadOnce + 1, ∀ i < (topoRound cfg table k).length,
        k * cfg.loadOnce + i < p := by
  unfold keptLines
  rw [filter_eq_nil_iff]
  constructor
  · intro h k hk i hi
    by_contra hge
    have hlen := topoRound_length_le hin k
    let row := (topoRound cfg table k)[i]
    have hget : (topoLines cfg table)[k * cfg.loadOnce + i]? = some (topoLine row) := by
      rw [topoLines_getElem? hin hk (by omega)]
      unfold topoBlock
      rw [getElem?_append_left (by rwa [length_map]), getElem?_map,
        getElem?_eq_getElem hi]
      rfl
    have hmem : topoLine row ∈ (topoLines cfg table).drop p := by
      refine mem_of_getElem? (i := k * cfg.loadOnce + i - p) ?_
      rw [getElem?_drop, show p + (k * cfg.loadOnce + i - p) = k * cfg.loadOnce + i by omega]
      exact hget
    have hrow : row ∈ table := mem_of_mem_topoRound (getElem_mem hi)
    exact h _ hmem (decide_eq_true (topoLine_kept hin hrow).2.2)
  · intro h line hline
    rw [decide_eq_true_eq, not_not]
    obtain ⟨j, hj⟩ := mem_iff_getElem?.mp hline
    rw [getElem?_drop] at hj
    have hpos := hin.loadOnce_pos
    have hlt : p + j < (topoLines cfg table).length := (List.getElem?_eq_some_iff.mp hj).1
    rw [topoLines_length hin] at hlt
    have hsplit := Nat.div_add_mod' (p + j) cfg.loadOnce
    have hmod := mod_lt (p + j) hpos
    have hk : (p + j) / cfg.loadOnce < cfg.maxId / cfg.loadOnce + 1 :=
      (Nat.div_lt_iff_lt_mul hpos).mpr hlt
    rw [← hsplit, topoLines_getElem? hin hk hmod] at hj
    have hge : (topoRound cfg table ((p + j) / cfg.loadOnce)).length ≤ (p + j) % cfg.loadOnce := by
      by_contra hrow
      have := h _ hk _ (Nat.lt_of_not_le hrow)
      omega
    unfold topoBlock at hj
    rw [getElem?_append_right (by rwa [length_map])] at hj
    left
    rw [eq_of_mem_replicate (mem_of_getElem? hj)]
    rfl

theorem segLines_map (hin : TopoInput indexLen cfg table) {rows : List (TopoRow δ)}
    (hrows : rows ⊆ table) (rrid sgid : Nat) :
    segLines (rows.map topoLine) rrid sgid = (segRows rows rrid sgid).map topoLine := by
  unfold segLines segRows
  rw [filter_map]
  congr 1
  apply filter_congr
  intro row hrow
  obtain ⟨hrrid, hsgid, -⟩ := topoLine_kept hin (hrows hrow)
  rw [Function.comp_apply, hrrid, hsgid]

theorem lineConn_topoLine {row : TopoRow δ} (h : row.rrid2 < 2 ^ 32 ∧ row.sgid2 < 2 ^ 8) :
    lineConn (topoLine row) = rowConn row := by
  unfold lineConn topoLine rowConn
  rw [mod_eq_of_lt h.1, mod_eq_of_lt h.2]
  cases row.sl <;> rfl

theorem segInfo_conns (lines : List (TopoFileLine δ)) (rrid sgid : Nat) :
    (segInfo lines rrid sgid).conns = ((segLines lines rrid sgid).take
      (((segLines lines rrid sgid).head?.map TopoFileLine.connCount).getD 0)).map lineConn := by
  unfold segInfo TopoInfo.conns
  rcases segLines lines rrid sgid with _ | ⟨first, rest⟩ <;> rfl

theorem roadInfo_sgCount (hin : TopoInput indexLen cfg table) {rows : List (TopoRow δ)}
    (hrows : rows ⊆ table) {first : TopoRow δ}
    (hfirst : rows.find? (fun row => row.rrid1 = rrid) = some first) :
    (roadInfo (rows.map topoLine) rrid).sgCount = first.count1 := by
  have hroad : roadLines (rows.map topoLine) rrid =
      (rows.filter fun row => row.rrid1 = rrid).map topoLine := by
    unfold roadLines
    rw [filter_map]
    congr 1
    apply filter_congr
    intro row hrow
    rw [Function.comp_apply, (topoLine_kept hin (hrows hrow)).1]
  have hmem : first ∈ table := hrows (mem_of_find?_eq_some hfirst)
  unfold roadInfo
  rw [hroad, head?_map, head?_filter, hfirst]
  exact mod_eq_of_lt (hin.segments first hmem).2.2

theorem TopoComplete.served (hin : TopoInput indexLen cfg table)
    (hfits : TopoFits junk indexLen cfg table) (h : TopoComplete junk indexLen cfg table) :
    TopoServed junk indexLen cfg table := by
  have hperm := fileRows_perm hin
  have hsub : fileRows cfg table ⊆ table := hperm.subset
  have hread : keptLines ((topoLines cfg table).take (maxRrId junk (fileRows cfg table))) =
      (fileRows cfg table).map topoLine := by
    rw [← keptLines_topoLines hin]
    conv_rhs => rw [← take_append_drop (maxRrId junk (fileRows cfg table))
      (topoLines cfg table)]
    rw [keptLines_append, (keptLines_drop_eq_nil hin).mpr h.read, append_nil]
  obtain ⟨m, hm, hrep, hindexLen, hbuffLen⟩ := (topoFileLoad_spec hin hfits h.loads).2 (by
    intro line hline
    rw [hread] at hline
    obtain ⟨row, hrow, rfl⟩ := mem_map.mp hline
    rw [(topoLine_kept hin (hsub hrow)).1]
    exact h.inside row (hsub hrow))
  rw [hread] at hrep
  refine ⟨_, _, m, (topoFileGen_eq_ok hin hfits.ids).mpr ⟨Nat.lt_succ_self _, rfl⟩, hm,
    fun row hrow => ?_⟩
  obtain ⟨hsg, -, -⟩ := hin.segments row hrow
  obtain ⟨first, hfirst⟩ : ∃ first,
      (fileRows cfg table).find? (fun r => r.rrid1 = row.rrid1) = some first := by
    rw [← Option.isSome_iff_exists, find?_isSome]
    exact ⟨row, hperm.mem_iff.mpr hrow, decide_eq_true rfl⟩
  have hcount := roadInfo_sgCount hin hsub hfirst
  refine ⟨_, (hrep.getConn hsg ?_).trans (congrArg _ (if_pos ?_)), ?_⟩
  · rw [hindexLen, hbuffLen]
    exact h.inside row hrow
  · rw [hcount]
    exact h.road row hrow first hfirst
  · have hseg : (segRows (fileRows cfg table) row.rrid1 row.sgid1).Perm
        (segRows table row.rrid1 row.sgid1) := hperm.filter _
    rw [segInfo_conns, segLines_map hin hsub, ← map_take, map_map]
    have htake : (segRows (fileRows cfg table) row.rrid1 row.sgid1).take
        (((((segRows (fileRows cfg table) row.rrid1 row.sgid1).map topoLine).head?.map
          TopoFileLine.connCount)).getD 0) = segRows (fileRows cfg table) row.rrid1 row.sgid1 := by
      rcases hrows : segRows (fileRows cfg table) row.rrid1 row.sgid1 with _ | ⟨r, rest⟩
      · rfl
      · -- the first row of the segment names the number of all its rows
        have hr : r ∈ segRows (fileRows cfg table) row.rrid1 row.sgid1 := by
          rw [hrows]
          exact .head _
        obtain ⟨hrfile, hboth⟩ := mem_filter.mp hr
        obtain ⟨hrrid, hsgid⟩ := of_decide_eq_true hboth
        have hconn := hin.connCount r (hsub hrfile)
        rw [hrrid, hsgid] at hconn
        have hlt := h.segment row hrow
        refine take_of_length_le ?_
        show _ ≤ r.connCount % 2 ^ 8
        rw [← hrows, hseg.length_eq, mod_eq_of_lt (by omega), hconn]
    rw [htake]
    refine List.Perm.trans (List.Perm.of_eq (map_congr_left fun r hr => ?_)) (hseg.map _)
    exact lineConn_topoLine (h.narrow r (hsub (mem_of_mem_filter hr)))

theorem segLines_of_perm (hin : TopoInput indexLen cfg table) {read rest : List (TopoFileLine δ)}
    (hsplit : (fileRows cfg table).map topoLine = read ++ rest) {sgid : Nat}
    (hperm : (segInfo read rrid sgid).conns.Perm ((segRows table rrid sgid).map rowConn)) :
    segLines rest rrid sgid = [] ∧ (segRows table rrid sgid).length ≤
      ((segLines read rrid sgid).head?.map TopoFileLine.connCount).getD 0 := by
  have hall : (segRows table rrid sgid).length =
      (segLines read rrid sgid).length + (segLines rest rrid sgid).length := by
    have hfile : (segRows (fileRows cfg table) rrid sgid).Perm (segRows table rrid sgid) :=
      (fileRows_perm hin).filter _
    rw [← hfile.length_eq, ← length_map (f := topoLine),
      ← segLines_map hin (fileRows_perm hin).subset, hsplit]
    unfold segLines
    rw [filter_append, length_append]
  have hlen := hperm.length_eq
  rw [segInfo_conns, length_map, length_map, length_take] at hlen
  exact ⟨eq_nil_of_length_eq_zero (by omega), by omega⟩

theorem TopoServed.complete (hin : TopoInput indexLen cfg table)
    (hfits : TopoFits junk indexLen cfg table) (h : TopoServed junk indexLen cfg table) :
    TopoComplete junk indexLen cfg table := by
  obtain ⟨fuel, file, m, hgen, hload, hserved⟩ := h
  obtain ⟨-, rfl⟩ := (topoFileGen_eq_ok hin hfits.ids).mp hgen
  have hloads : maxRrId junk (fileRows cfg table) ≠ 0 := by
    intro hzero
    unfold topoFileLoad at hload
    rw [if_pos hzero] at hload
    cases hload
  have hperm := fileRows_perm hin
  have hsub : fileRows cfg table ⊆ table := hperm.subset
  obtain ⟨hnec, hsuf⟩ := topoFileLoad_spec hin hfits hloads
  obtain ⟨m', hm', hrep, hindexLen, hbuffLen⟩ := hsuf (hnec m hload)
  obtain rfl := Option.some.inj (Except.ok.inj (hload.symm.trans hm'))
  generalize hmax : maxRrId junk (fileRows cfg table) = maxRr at *
  have hsplit : (fileRows cfg table).map topoLine =
      keptLines ((topoLines cfg table).take maxRr) ++
        keptLines ((topoLines cfg table).drop maxRr) := by
    rw [← keptLines_append, take_append_drop, keptLines_topoLines hin]
  have hinside : ∀ row ∈ table, row.rrid1 / indexLen < blockCount maxRr indexLen := by
    intro row hrow
    by_contra hout
    obtain ⟨info, hinfo, -⟩ := hserved row hrow
    have hle : row.rrid1 / indexLen ≤ maxRr / indexLen := by
      rw [← (topoLine_kept hin hrow).1, ← hmax]
      exact Nat.div_le_div_right (le_maxRrId.2 row (hperm.mem_iff.mpr hrow))
    have hbuff := hfits.buffLen
    rw [hmax] at hbuff
    unfold blockCount at hbuff
    rw [getConn_outside (by rwa [hindexLen, hbuffLen])
      (by rw [hindexLen]; split at hbuff <;> omega)] at hinfo
    cases hinfo
  have hsegment : ∀ row ∈ table,
      row.sgid1 ≤ (roadInfo (keptLines ((topoLines cfg table).take maxRr)) row.rrid1).sgCount ∧
      (segInfo (keptLines ((topoLines cfg table).take maxRr)) row.rrid1 row.sgid1).conns.Perm
        ((segRows table row.rrid1 row.sgid1).map rowConn) := by
    intro row hrow
    obtain ⟨info, hinfo, hconns⟩ := hserved row hrow
    rw [hrep.getConn (hin.segments row hrow).1 (by
      rw [hindexLen, hbuffLen]
      exact hinside row hrow)] at hinfo
    have hsome := Except.ok.inj hinfo
    split at hsome
    · next hle =>
      rw [← Option.some.inj hsome] at hconns
      exact ⟨hle, hconns⟩
    · cases hsome
  have hdrop : keptLines ((topoLines cfg table).drop maxRr) = [] := by
    refine eq_nil_iff_forall_not_mem.mpr fun line hline => ?_
    have hmem : line ∈ (fileRows cfg table).map topoLine := by
      rw [hsplit]
      exact mem_append_right _ hline
    obtain ⟨row, hrow, rfl⟩ := mem_map.mp hmem
    obtain ⟨hrrid, hsgid, -⟩ := topoLine_kept hin (hsub hrow)
    have hnil := (segLines_of_perm hin hsplit (hsegment row (hsub hrow)).2).1
    refine eq_nil_iff_forall_not_mem.mp hnil (topoLine row) ?_
    exact mem_filter.mpr ⟨hline, decide_eq_true ⟨hrrid, hsgid⟩⟩
  rw [hdrop, append_nil] at hsplit
  refine ⟨hmax ▸ hloads, ?_, ?_, ?_, ?_, ?_⟩
  · rw [hmax]
    exact (keptLines_drop_eq_nil hin).mp hdrop
  · rw [hmax]
    exact hinside
  · intro row hrow first hfirst
    have hle := (hsegment row hrow).1
    rwa [← hsplit, roadInfo_sgCount hin hsub hfirst] at hle
  · intro row hrow
    have hconns := (hsegment row hrow).2
    have hwhole : (fileRows cfg table).map topoLine =
        keptLines ((topoLines cfg table).take maxRr) ++ [] := by rw [hsplit, append_nil]
    have hle := (segLines_of_perm hin hwhole hconns).2
    rw [← hsplit, segLines_map hin hsub] at hle
    refine Nat.lt_of_le_of_lt hle ?_
    rcases segRows (fileRows cfg table) row.rrid1 row.sgid1 with _ | ⟨r, rest⟩
    · exact Nat.two_pow_pos 8
    · exact mod_lt _ (by decide)
  · intro row hrow
    have hconns := (hsegment row hrow).2
    have hmem : rowConn row ∈ (segRows table row.rrid1 row.sgid1).map rowConn :=
      mem_map_of_mem (mem_filter.mpr ⟨hrow, decide_eq_true ⟨rfl, rfl⟩⟩)
    rw [← hconns.mem_iff, segInfo_conns, ← hsplit, segLines_map hin hsub] at hmem
    obtain ⟨line, hline, heq⟩ := mem_map.mp hmem
    obtain ⟨r, -, rfl⟩ := mem_map.mp (mem_of_mem_take hline)
    have hrrid : r.rrid2 % 2 ^ 32 = row.rrid2 := congrArg TopoConn.rrid heq
    have hsgid : r.sgid2 % 2 ^ 8 = row.sgid2 := congrArg TopoConn.sgid heq
    exact ⟨hrrid ▸ mod_lt _ (by decide), hsgid ▸ mod_lt _ (by decide)⟩

/-- **Generate, load, look up.** As long as the generator's ids stay below 2^31 and
the rows of the buffer below 2^16, every segment of the table holds exactly its
connections exactly when nothing of the table is cut off. -/
theorem topoServed_iff (hin : TopoInput indexLen cfg table) :
    (TopoFits junk indexLen cfg table ∧ TopoComplete junk indexLen cfg table →
      TopoServed junk indexLen cfg table) ∧
    (TopoFits junk indexLen cfg table → TopoServed junk indexLen cfg table →
      TopoComplete junk indexLen cfg table) :=
  ⟨fun h => h.2.served hin h.1, fun hfits h => h.complete hin hfits⟩

/-- Road 3 with two segments, each with one way on. -/
def twoSegments : List (TopoRow Int) :=
  [⟨1, 3, 1, 2, 3, 2, 2, 1, none, 0, 0, 0⟩, ⟨2, 3, 2, 2, 8, 1, 1, 1, some 5, 6, 7, 8⟩]

def tenAtOnce : TopoCfgMysql := { loadOnce := 10, maxId := 2 }

theorem topoServed_twoSegments : TopoServed 0 10 tenAtOnce twoSegments := by
  have hin : TopoInput 10 tenAtOnce twoSegments :=
    ⟨by decide, by decide, by decide, by decide, by decide, by decide, by decide, by decide,
      by decide⟩
  refine (topoServed_iff hin).1 ⟨⟨by decide, by decide⟩, by decide, by decide, by decide, ?_,
    by decide, by decide⟩
  intro row hrow first hfirst
  have hmem : first ∈ twoSegments := (fileRows_perm hin).subset (mem_of_find?_eq_some hfirst)
  have hall : ∀ r ∈ twoSegments, ∀ f ∈ twoSegments, r.sgid1 ≤ f.count1 := by decide
  exact hall row hrow first hmem

/-- Road 1 with two ways on. -/
def twoWaysOn : List (TopoRow Int) :=
  [⟨1, 1, 1, 1, 3, 1, 1, 2, none, 0, 0, 0⟩, ⟨2, 1, 1, 1, 8, 1, 1, 2, none, 0, 0, 0⟩]

/-- The largest road id is 1, so that one record is read, and the second way on
is lost. -/
theorem not_topoServed_twoWaysOn :
    TopoInput 10 tenAtOnce twoWaysOn ∧ ¬TopoServed 0 10 tenAtOnce twoWaysOn := by
  have hin : TopoInput 10 tenAtOnce twoWaysOn :=
    ⟨by decide, by decide, by decide, by decide, by decide, by decide, by decide, by decide,
      by decide⟩
  refine ⟨hin, fun h => ?_⟩
  have hread := (h.complete hin ⟨by decide, by decide⟩).read 0 (by decide) 1 (by decide)
  exact absurd hread (by decide)

end Supex.Mapdata
