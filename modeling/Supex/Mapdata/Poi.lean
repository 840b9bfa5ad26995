import Mathlib.Data.Int.Bitwise
import Supex.Lib.Blocks
import Supex.Mapdata.Ranges
import Supex.Tsdb.Commands

/-!
# Points of interest: generate, load, query

`mappoi_gen_file` writes the table of points and the table of road segments into
two files, `mappoi_load_file` reads them into a two-level array of roads, each of
which owns an array of segments, each of which owns an array of points, and
`mappoi_query_poi` finds the points of a segment there.

Both generators are one function of the table (`genRecords`), both loaders one
function of what they do with a record (`loadBufs`). A column that is a number is
never `NULL`.

* `genRecords_eq_ok` — a file is written exactly when every id range of the table
  has a row, none has more than `load_once` and no bound wraps.
* `foldlM_addSg`, `foldlM_addPoi` — what it takes to enter the records.

Main result: `poiServed_iff`.
-/

namespace Supex.Mapdata.Poi

open Supex.Lib List
open Tsdb (strtok atoi)
open Function (update update_apply)

variable {δ : Type}

/-- A row of the segment table. -/
structure SgRow where
  iidd : Nat
  rrid : Nat
  sgid : Nat
  nextId : Option Bytes
  sgCount : Nat
  deriving DecidableEq

/-- A row of the point table. -/
structure PoiRow (δ : Type) where
  id : Nat
  poiId : Nat
  pointX : δ
  pointY : δ
  poiType : Int
  countyCode : Int
  cityCode : Int
  ang : Int
  sgid : Nat
  rrid : Nat
  countPoi : Nat
  deriving DecidableEq

structure MappoiPoi (δ : Type) where
  poiCount : Int
  ang : Int
  poiType : Int
  countyCode : Int
  cityCode : Int
  poiId : Nat
  rrId : Nat
  sgId : Nat
  pointX : δ
  pointY : δ
  deriving DecidableEq

/-- `mappoi_poi_buf`; `poi` holds the `poi_idx` entries filled so far. -/
structure MappoiPoiBuf (δ : Type) where
  poi : Option (List (MappoiPoi δ))
  poiCount : Int

structure MappoiSg (δ : Type) where
  rrId : Nat
  sgId : Nat
  nextRrId : Nat
  nextSgId : Nat
  sgCount : Nat
  poiBuf : MappoiPoiBuf δ

/-- `mappoi_rr`; `sgBuf` has `sgCount` entries. -/
structure MappoiRr (δ : Type) where
  rrId : Nat
  sgCount : Nat
  sgBuf : Option (Nat → MappoiSg δ)

/-- `mappoi_manager`, less the file names; `rrBuf` has `rrIndexCount` rows of
`loadOnce`. -/
structure MappoiManager (δ : Type) where
  loadOnce : Nat
  maxSgId : Nat
  rrIndexCount : Nat
  rrBuf : Nat → Nat → MappoiRr δ

/-- `mappoi_cfg_mysql`, less the database connection. -/
structure MappoiCfgMysql where
  loadOnce : Nat
  maxSgId : Nat
  maxPoiId : Nat
  deriving DecidableEq

/-- A file: its header and its records. Nothing reads `max_rr_id` in the file of
points, where it is not set. -/
structure MappoiFile (κ : Type) where
  loadOnce : Int
  maxId : Nat
  maxRrId : Nat
  bufCount : Int
  lines : List κ

def MappoiPoi.zero [Zero δ] : MappoiPoi δ := ⟨0, 0, 0, 0, 0, 0, 0, 0, 0, 0⟩

def MappoiPoiBuf.zero : MappoiPoiBuf δ := ⟨none, 0⟩

def MappoiSg.zero : MappoiSg δ := ⟨0, 0, 0, 0, 0, .zero⟩

def MappoiRr.zero : MappoiRr δ := ⟨0, 0, none⟩

--
-- The generators
--

/-- The record `fetch_mappoi_poi_cb` makes of a row. -/
def poiRecord (row : PoiRow δ) : MappoiPoi δ where
  poiCount := (row.countPoi : Int).bmod (2 ^ 16)
  ang := row.ang.bmod (2 ^ 16)
  poiType := row.poiType.bmod (2 ^ 32)
  countyCode := row.countyCode.bmod (2 ^ 32)
  cityCode := row.cityCode.bmod (2 ^ 32)
  poiId := row.poiId % 2 ^ 32
  rrId := row.rrid % 2 ^ 32
  sgId := row.sgid % 2 ^ 32
  pointX := row.pointX
  pointY := row.pointY

/-- `next_rr_id` and `next_sg_id`. A text without two tokens gives `atoi` a null
pointer. -/
def nextSeg : Option Bytes → Except Fault (Nat × Nat)
  | none => .ok (0, 0)
  | some text =>
    if text.length > 2 then
      match strtok text 44 with
      | none => .error .memory
      | some (rr, rest) =>
        match strtok rest 44 with
        | none => .error .memory
        | some (sg, _) => .ok ((atoi rr % 2 ^ 32).toNat, (atoi sg % 2 ^ 32).toNat)
    else .ok (0, 0)

/-- The record `fetch_mappoi_sg_cb` makes of a row. -/
def sgRecord (row : SgRow) : Except Fault (MappoiSg δ) := do
  let next ← nextSeg row.nextId
  pure
    { rrId := row.rrid % 2 ^ 32
      sgId := row.sgid % 2 ^ 32
      nextRrId := next.1
      nextSgId := next.2
      sgCount := row.sgCount % 2 ^ 32
      poiBuf := .zero }

/-- The records of one round: the rows one after the other, then zeros. The
generators assert that there are rows, the callbacks count them only after they
have written the record, as an `int`. -/
def fetchRows {ρ κ : Type} (record : ρ → Except Fault κ) (zero : κ) (size : Nat) (rows : List ρ) :
    Except Fault (List κ) :=
  if rows.length = 0 then .error .assertion
  else if rows.length ≤ size then
    if (rows.length : Int) ≤ toInt32 size then do
      let records ← rows.mapM record
      pure (records ++ List.replicate (size - rows.length) zero)
    else .error .assertion
  else .error .memory

/-- What `mappoi_gen_file_poi` and `mappoi_gen_file_sg` do: the rows of the rounds
and the buffers that are written. The bounds are printed with `%ld`. -/
def genRecords {ρ κ : Type} (record : ρ → Except Fault κ) (zero : κ) (key : ρ → Nat)
    (loadOnce maxId fuel : Nat) (table : List ρ) : Except Fault (List (List ρ) × List (List κ)) :=
    do
  let ranges ← idRanges maxId loadOnce fuel 0 loadOnce
  let rounds := ranges.map (selectRows Int.ofNat key table)
  let bufs ← rounds.mapM (fetchRows record zero loadOnce)
  pure (rounds, bufs)

/-- The maximum of a round, and then of all of them. -/
def maxOf (ids : List Nat) : Nat := ids.foldl (fun m id => if id > m then id else m) 0

def mappoiGenFilePoi [Zero δ] (fuel : Nat) (cfg : MappoiCfgMysql) (table : List (PoiRow δ)) :
    Except Fault (MappoiFile (MappoiPoi δ)) := do
  let (_, bufs) ← genRecords (fun row => .ok (poiRecord row)) MappoiPoi.zero PoiRow.id
    cfg.loadOnce cfg.maxPoiId fuel table
  pure
    { loadOnce := toInt32 cfg.loadOnce
      maxId := cfg.maxPoiId
      maxRrId := 0
      bufCount := toInt32 bufs.length
      lines := bufs.flatten }

def mappoiGenFileSg (fuel : Nat) (cfg : MappoiCfgMysql) (table : List SgRow) :
    Except Fault (MappoiFile (MappoiSg δ)) := do
  let (rounds, bufs) ← genRecords sgRecord MappoiSg.zero SgRow.iidd
    cfg.loadOnce cfg.maxSgId fuel table
  pure
    { loadOnce := toInt32 cfg.loadOnce
      maxId := cfg.maxSgId
      maxRrId := maxOf (rounds.map fun rows => maxOf (rows.map fun row => row.rrid % 2 ^ 32))
      bufCount := toInt32 bufs.length
      lines := bufs.flatten }

def mappoiGenFile [Zero δ] (fuel : Nat) (cfg : MappoiCfgMysql) (poiTable : List (PoiRow δ))
    (sgTable : List SgRow) : Except Fault (MappoiFile (MappoiPoi δ) × MappoiFile (MappoiSg δ)) := do
  let poiFile ← mappoiGenFilePoi fuel cfg poiTable
  let sgFile ← mappoiGenFileSg fuel cfg sgTable
  pure (poiFile, sgFile)

--
-- The loaders
--

/-- How a loader fails: with a fault, or with the return value `-1`. -/
inductive LoadError where
  | fault (f : Fault)
  | minusOne
  deriving DecidableEq

/-- The loop over the buffers of a file; a short buffer fails an assertion. -/
def loadBufs {μ κ : Type} (add : μ → κ → Except LoadError μ) (loadOnce : Nat) :
    Nat → μ → List κ → Except LoadError μ
  | 0, m, _ => .ok m
  | n + 1, m, rest =>
    if (rest.take loadOnce).length = loadOnce then do
      let m ← (rest.take loadOnce).foldlM add m
      loadBufs add loadOnce n m (rest.drop loadOnce)
    else .error (.fault .assertion)

/-- `rr_idx` and `rr_count`. -/
def MappoiManager.place (m : MappoiManager δ) (rrId : Nat) : Nat × Nat :=
  (rrId / m.loadOnce, rrId % m.loadOnce)

def MappoiManager.setRr (m : MappoiManager δ) (rrId : Nat) (rr : MappoiRr δ) : MappoiManager δ :=
  { m with
    rrBuf := update m.rrBuf (m.place rrId).1
      (update (m.rrBuf (m.place rrId).1) (m.place rrId).2 rr) }

/-- The first record of a road reserves `sg_count` segments. -/
def addSg (m : MappoiManager δ) (sg : MappoiSg δ) : Except LoadError (MappoiManager δ) :=
  if sg.rrId = 0 then .ok m
  else if (m.place sg.rrId).1 < m.rrIndexCount then
    let rr := m.rrBuf (m.place sg.rrId).1 (m.place sg.rrId).2
    if rr.rrId = 0 ∨ rr.rrId = sg.rrId then
      let rr : MappoiRr δ :=
        if rr.sgCount = 0 ∧ rr.sgBuf.isNone then ⟨sg.rrId, sg.sgCount, some fun _ => .zero⟩
        else { rr with rrId := sg.rrId }
      if sg.sgId ≤ rr.sgCount then
        if 0 < sg.sgId then
          let buf := rr.sgBuf.getD fun _ => .zero
          .ok (m.setRr sg.rrId { rr with sgBuf := some (update buf (sg.sgId - 1) sg) })
        else .error (.fault .memory)
      else .error (.fault .assertion)
    else .error .minusOne
  else .error (.fault .memory)

def mappoiLoadSg (file : MappoiFile (MappoiSg δ)) : Except LoadError (MappoiManager δ) :=
  if file.maxId = 0 ∨ file.loadOnce ≤ 0 ∨ file.maxRrId = 0 then .error .minusOne
  else
    loadBufs addSg file.loadOnce.toNat file.bufCount.toNat
      { loadOnce := file.loadOnce.toNat
        maxSgId := file.maxId
        rrIndexCount := blockCount file.maxRrId file.loadOnce.toNat
        rrBuf := fun _ _ => .zero }
      file.lines

/-- The points entered so far. -/
def MappoiPoiBuf.points (buf : MappoiPoiBuf δ) : List (MappoiPoi δ) := buf.poi.getD []

/-- The first point of a segment reserves `poi_count` entries; with a negative
number `calloc` fails, and the assertion with it. -/
def addPoiBuf (buf : MappoiPoiBuf δ) (poi : MappoiPoi δ) : Except LoadError (MappoiPoiBuf δ) :=
  let buf : MappoiPoiBuf δ :=
    if buf.poiCount = 0 ∨ buf.poi.isNone then ⟨some [], poi.poiCount⟩ else buf
  if buf.points.length < buf.poiCount then .ok { buf with poi := some (buf.points ++ [poi]) }
  else .error (.fault .assertion)

def addPoi (m : MappoiManager δ) (poi : MappoiPoi δ) : Except LoadError (MappoiManager δ) :=
  if poi.rrId = 0 then .ok m
  else if (m.place poi.rrId).1 < m.rrIndexCount then
    let rr := m.rrBuf (m.place poi.rrId).1 (m.place poi.rrId).2
    if rr.rrId = poi.rrId then
      match rr.sgBuf with
      | none => .error (.fault .memory)
      | some buf =>
        if 0 < poi.sgId ∧ poi.sgId ≤ rr.sgCount then do
          let sg := buf (poi.sgId - 1)
          let poiBuf ← addPoiBuf sg.poiBuf poi
          let buf := update buf (poi.sgId - 1) { sg with poiBuf := poiBuf }
          .ok (m.setRr poi.rrId { rr with sgBuf := some buf })
        else .error (.fault .memory)
    else .error .minusOne
  else .error (.fault .memory)

/-- The buffer is made for the `load_once` of this file and filled by that of the
other one. -/
def mappoiLoadPoi (m : MappoiManager δ) (file : MappoiFile (MappoiPoi δ)) :
    Except LoadError (MappoiManager δ) :=
  if file.maxId = 0 ∨ file.loadOnce ≤ 0 ∨ file.bufCount ≤ 0 then .error .minusOne
  else if file.loadOnce < m.loadOnce then .error (.fault .memory)
  else loadBufs addPoi m.loadOnce file.bufCount.toNat m file.lines

def mappoiLoadFile (poiFile : MappoiFile (MappoiPoi δ)) (sgFile : MappoiFile (MappoiSg δ)) :
    Except LoadError (MappoiManager δ) := do
  let m ← mappoiLoadSg sgFile
  mappoiLoadPoi m poiFile

--
-- The query
--

/-- `none` is `NULL`. -/
def mappoiQueryPoi (m : MappoiManager δ) (rrId sgId : Nat) :
    Except Fault (Option (MappoiPoiBuf δ)) :=
  if (m.place rrId).1 < m.rrIndexCount then
    let rr := m.rrBuf (m.place rrId).1 (m.place rrId).2
    if rr.rrId ≠ rrId then .ok none
    else if sgId ≥ rr.sgCount then .ok none
    else
      match rr.sgBuf with
      | none => .error .memory
      | some buf =>
        if sgId = 0 then .error .memory
        else if (buf (sgId - 1)).poiBuf.points = [] then .ok none
        else .ok (some (buf (sgId - 1)).poiBuf)
  else .error .memory

--
-- What the generators write
--

section Generate

variable {ρ κ : Type} {record : ρ → Except Fault κ} {zero : κ} {key : ρ → Nat}
  {loadOnce maxId fuel : Nat} {table : List ρ} {good : ρ → Prop} {f : ρ → κ}

/-- The rows of round `k`. -/
def roundRows (key : ρ → Nat) (loadOnce : Nat) (table : List ρ) (k : Nat) : List ρ :=
  table.filter fun row => k * loadOnce < key row ∧ key row ≤ (k + 1) * loadOnce

/-- The rows in the order of the file. -/
def readRows (key : ρ → Nat) (loadOnce maxId : Nat) (table : List ρ) : List ρ :=
  (List.range (maxId / loadOnce + 1)).flatMap (roundRows key loadOnce table)

/-- The records of a round. -/
def padded (f : ρ → κ) (zero : κ) (loadOnce : Nat) (rows : List ρ) : List κ :=
  rows.map f ++ List.replicate (loadOnce - rows.length) zero

/-- Every round has a row, none has too many, and nothing wraps. -/
structure RoundsFit (key : ρ → Nat) (loadOnce maxId : Nat) (table : List ρ) : Prop where
  loadOnce_lt : loadOnce < 2 ^ 31
  ids : (maxId / loadOnce + 1) * loadOnce < 2 ^ 32
  some : ∀ k ≤ maxId / loadOnce, roundRows key loadOnce table k ≠ []
  room : ∀ k ≤ maxId / loadOnce, (roundRows key loadOnce table k).length ≤ loadOnce

theorem fetchRows_eq_ok (hrec : ∀ row r, record row = .ok r ↔ good row ∧ r = f row)
    (hlt : loadOnce < 2 ^ 32) {rows : List ρ} {recs : List κ} :
    fetchRows record zero loadOnce rows = .ok recs ↔
      (loadOnce < 2 ^ 31 ∧ rows ≠ [] ∧ rows.length ≤ loadOnce ∧ ∀ row ∈ rows, good row) ∧
        recs = padded f zero loadOnce rows := by
  have hmap (rs : List κ) : rows.mapM record = .ok rs ↔ (∀ row ∈ rows, good row) ∧
    rs = rows.map f := by
    rw [mapM_eq_ok]
    induction rows generalizing rs with
    | nil => simp [eq_comm]
    | cons row rows ih =>
      rcases rs with _ | ⟨r, rs⟩
      · simp
      · simp only [map_cons, List.cons.injEq, hrec, ih, forall_mem_cons]
        tauto
  have hint : (rows.length : Int) ≤ toInt32 loadOnce ∧ rows.length ≠ 0 ↔
      loadOnce < 2 ^ 31 ∧ rows.length ≠ 0 ∧ rows.length ≤ loadOnce := by
    by_cases hsmall : loadOnce < 2 ^ 31
    · rw [toInt32_of_lt hsmall]
      omega
    · have hneg : toInt32 loadOnce < 0 := by
        unfold toInt32
        omega
      omega
  unfold fetchRows
  by_cases hzero : rows.length = 0
  · rw [if_pos hzero]
    refine ⟨nofun, fun h => absurd (length_eq_zero_iff.mp hzero) h.1.2.1⟩
  · rw [if_neg hzero]
    have hne : rows ≠ [] := fun h => hzero (length_eq_zero_iff.mpr h)
    by_cases hroom : rows.length ≤ loadOnce
    · rw [if_pos hroom]
      by_cases hsmall : loadOnce < 2 ^ 31
      · rw [if_pos (hint.mpr ⟨hsmall, hzero, hroom⟩).1, bind_eq_ok]
        constructor
        · rintro ⟨rs, hrs, h⟩
          obtain ⟨hgood, rfl⟩ := (hmap rs).mp hrs
          exact ⟨⟨hsmall, hne, hroom, hgood⟩, (Except.ok.inj h).symm⟩
        · rintro ⟨⟨-, -, -, hgood⟩, rfl⟩
          exact ⟨_, (hmap _).mpr ⟨hgood, rfl⟩, rfl⟩
      · rw [if_neg fun h => hsmall (hint.mp ⟨h, hzero⟩).1]
        exact ⟨nofun, fun h => absurd h.1.1 hsmall⟩
    · rw [if_neg hroom]
      exact ⟨nofun, fun h => absurd h.1.2.2.1 hroom⟩

theorem selectRows_round {k : Nat} (hk : (k + 1) * loadOnce < 2 ^ 32) :
    selectRows Int.ofNat key table (startId loadOnce k, startId loadOnce (k + 1)) =
      roundRows key loadOnce table k := by
  have hle : k * loadOnce ≤ (k + 1) * loadOnce := Nat.mul_le_mul_right _ (Nat.le_succ k)
  unfold selectRows roundRows
  rw [startId_of_lt (Nat.lt_of_le_of_lt hle hk), startId_of_lt hk]
  apply filter_congr
  intro row _
  rw [decide_eq_decide]
  simp only [Int.ofNat_eq_natCast, Int.ofNat_lt, Int.ofNat_le]

theorem rounds_ids_lt {n : Nat} (h : Rounds maxId loadOnce n) (hpos : 0 < loadOnce)
    (hlt : loadOnce < 2 ^ 32) (hrows : ∀ k < n,
      selectRows Int.ofNat key table (startId loadOnce k, startId loadOnce (k + 1)) ≠ []) :
    (maxId / loadOnce + 1) * loadOnce < 2 ^ 32 := by
  have hbounds (k : Nat) (hk : k ≤ n) : k * loadOnce < 2 ^ 32 := by
    induction k with
    | zero => omega
    | succ k ih =>
      have hstart := ih (by omega)
      obtain ⟨row, hrow⟩ := exists_mem_of_ne_nil _ (hrows k (by omega))
      have hsel := of_decide_eq_true (mem_filter.mp hrow).2
      simp only [Int.ofNat_eq_natCast, Int.ofNat_lt, Int.ofNat_le] at hsel
      have hadv : startId loadOnce k < startId loadOnce (k + 1) :=
        Nat.lt_of_lt_of_le hsel.1 hsel.2
      rw [startId_of_lt hstart, startId, Nat.add_mul, Nat.one_mul] at hadv
      rw [Nat.add_mul, Nat.one_mul]
      by_contra hge
      -- the end of the range would lie before its start
      omega
  have hn := hbounds n (Nat.le_refl n)
  have hpast := h.past
  rw [startId_of_lt hn] at hpast
  refine Nat.lt_of_le_of_lt (Nat.mul_le_mul_right _ ?_) hn
  exact (Nat.div_lt_iff_lt_mul hpos).mpr hpast

theorem genRecords_eq_ok (hrec : ∀ row r, record row = .ok r ↔ good row ∧ r = f row)
    (hpos : 0 < loadOnce) (hlt : loadOnce < 2 ^ 32) {out : List (List ρ) × List (List κ)} :
    genRecords record zero key loadOnce maxId fuel table = .ok out ↔
      RoundsFit key loadOnce maxId table ∧
      (∀ row ∈ readRows key loadOnce maxId table, good row) ∧ maxId / loadOnce + 1 < fuel ∧
      out = ((List.range (maxId / loadOnce + 1)).map (roundRows key loadOnce table),
        ((List.range (maxId / loadOnce + 1)).map (roundRows key loadOnce table)).map
          (padded f zero loadOnce)) := by
  have hselect (n : Nat) (h : n * loadOnce < 2 ^ 32) :
      (rangesFrom loadOnce 0 n).map (selectRows Int.ofNat key table) =
        (List.range n).map (roundRows key loadOnce table) := by
    unfold rangesFrom
    rw [map_map]
    apply map_congr_left
    intro k hk
    rw [Function.comp_apply, Nat.zero_add]
    exact selectRows_round
      (Nat.lt_of_le_of_lt (Nat.mul_le_mul_right _ (mem_range.mp hk)) h)
  have hfetch (rounds : List (List ρ)) (bufs : List (List κ)) :
      rounds.mapM (fetchRows record zero loadOnce) = .ok bufs ↔
        (∀ rows ∈ rounds, loadOnce < 2 ^ 31 ∧ rows ≠ [] ∧ rows.length ≤ loadOnce ∧
          ∀ row ∈ rows, good row) ∧ bufs = rounds.map (padded f zero loadOnce) := by
    rw [mapM_eq_ok]
    induction rounds generalizing bufs with
    | nil => simp [eq_comm]
    | cons rows rounds ih =>
      rcases bufs with _ | ⟨b, bufs⟩
      · simp
      · simp only [map_cons, List.cons.injEq, fetchRows_eq_ok hrec hlt, ih,
          forall_mem_cons]
        tauto
  unfold genRecords
  rw [bind_eq_ok]
  constructor
  · rintro ⟨ranges, hranges, h⟩
    obtain ⟨n, hn, hr, rfl⟩ := (idRanges_eq_ok hlt).mp hranges
    obtain ⟨bufs, hbufs, h⟩ := bind_eq_ok.mp h
    obtain ⟨hfit, rfl⟩ := (hfetch _ _).mp hbufs
    have hids : (maxId / loadOnce + 1) * loadOnce < 2 ^ 32 := by
      refine rounds_ids_lt hr hpos hlt fun k hk => (hfit _ (mem_map_of_mem ?_)).2.1
      exact mem_map.mpr ⟨k, mem_range.mpr hk, by rw [Nat.zero_add]⟩
    obtain rfl := hr.unique (rounds_of_lt hids hpos)
    rw [hselect _ hids] at hfit h
    have hround (k : Nat) (hk : k ≤ maxId / loadOnce) := hfit (roundRows key loadOnce table k)
      (mem_map.mpr ⟨k, mem_range.mpr (Nat.lt_succ_of_le hk), rfl⟩)
    refine ⟨⟨(hround 0 (Nat.zero_le _)).1, hids, fun k hk => (hround k hk).2.1,
      fun k hk => (hround k hk).2.2.1⟩, ?_, hn, (Except.ok.inj h).symm⟩
    intro row hrow
    obtain ⟨k, hk, hrow⟩ := mem_flatMap.mp hrow
    exact (hround k (Nat.lt_succ_iff.mp (mem_range.mp hk))).2.2.2 row hrow
  · rintro ⟨hfit, hgood, hn, rfl⟩
    refine ⟨_, (idRanges_eq_ok hlt).mpr ⟨_, hn, rounds_of_lt hfit.ids hpos, rfl⟩, ?_⟩
    rw [hselect _ hfit.ids, bind_eq_ok]
    refine ⟨_, (hfetch _ _).mpr ⟨?_, rfl⟩, rfl⟩
    intro rows hrows
    obtain ⟨k, hk, rfl⟩ := mem_map.mp hrows
    have hle : k ≤ maxId / loadOnce := Nat.lt_succ_iff.mp (mem_range.mp hk)
    exact ⟨hfit.loadOnce_lt, hfit.some k hle, hfit.room k hle,
      fun row hrow => hgood row (mem_flatMap.mpr ⟨k, hk, hrow⟩)⟩

theorem toInt32_neg {n : Nat} (hlt : n < 2 ^ 32) (h : ¬n < 2 ^ 31) : toInt32 n < 0 := by
  unfold toInt32
  omega

theorem RoundsFit.bufCount_lt (h : RoundsFit key loadOnce maxId table) (hpos : 0 < loadOnce) :
    maxId / loadOnce + 1 < 2 ^ 32 :=
  Nat.lt_of_le_of_lt (Nat.le_mul_of_pos_right _ hpos) h.ids

theorem padded_length {rows : List ρ} (h : rows.length ≤ loadOnce) :
    (padded f zero loadOnce rows).length = loadOnce := by
  rw [padded, length_append, length_map, length_replicate]
  omega

theorem foldlM_padded {μ : Type} {add : μ → κ → Except LoadError μ}
    (hzero : ∀ m, add m zero = .ok m)
    (rounds : List (List ρ)) (m : μ) :
    (rounds.map (padded f zero loadOnce)).flatten.foldlM add m =
      rounds.flatten.foldlM (fun m row => add m (f row)) m := by
  have hzeros (n : Nat) (m : μ) : (List.replicate n zero).foldlM add m = .ok m := by
    induction n with
    | zero => rfl
    | succ n ih => rw [replicate_succ, foldlM_cons, hzero, ok_bind, ih]
  induction rounds generalizing m with
  | nil => rfl
  | cons rows rounds ih =>
    rw [map_cons, flatten_cons, flatten_cons, foldlM_append,
      foldlM_append, padded, foldlM_append, foldlM_map]
    simp only [hzeros, ih, bind_assoc]
    exact congrArg _ (funext fun m' => ok_bind m' _)

theorem loadBufs_flatten {μ : Type} (add : μ → κ → Except LoadError μ) {bufs : List (List κ)}
    (h : ∀ b ∈ bufs, b.length = loadOnce) (m : μ) :
    loadBufs add loadOnce bufs.length m bufs.flatten = bufs.flatten.foldlM add m := by
  induction bufs generalizing m with
  | nil => rfl
  | cons b bufs ih =>
    obtain ⟨hb, hbufs⟩ := forall_mem_cons.mp h
    rw [flatten_cons, length_cons, loadBufs, take_append_of_le_length (by omega),
      take_of_length_le (by omega), if_pos hb, drop_append_of_le_length (by omega),
      drop_of_length_le (by omega), nil_append, foldlM_append]
    simp only [ih hbufs]

theorem loadBufs_rounds {μ : Type} {add : μ → κ → Except LoadError μ}
    (hzero : ∀ m, add m zero = .ok m) (hfit : RoundsFit key loadOnce maxId table) (m : μ) :
    loadBufs add loadOnce (maxId / loadOnce + 1) m
      (((List.range (maxId / loadOnce + 1)).map (roundRows key loadOnce table)).map
        (padded f zero loadOnce)).flatten =
      (readRows key loadOnce maxId table).foldlM (fun m row => add m (f row)) m := by
  have hlen : ∀ b ∈ ((List.range (maxId / loadOnce + 1)).map (roundRows key loadOnce table)).map
      (padded f zero loadOnce), b.length = loadOnce := by
    intro b hb
    obtain ⟨rows, hrows, rfl⟩ := mem_map.mp hb
    obtain ⟨k, hk, rfl⟩ := mem_map.mp hrows
    exact padded_length (hfit.room k (Nat.lt_succ_iff.mp (mem_range.mp hk)))
  have hload := loadBufs_flatten add hlen m
  rw [length_map, length_map, length_range, foldlM_padded hzero] at hload
  rw [hload, readRows, flatMap_def]

theorem loadBufs_file {μ : Type} {add : μ → κ → Except LoadError μ}
    (hzero : ∀ m, add m zero = .ok m) (hfit : RoundsFit key loadOnce maxId table)
    (hpos : 0 < loadOnce) (m : μ) :
    loadBufs add loadOnce (toInt32 (maxId / loadOnce + 1)).toNat m
      (((List.range (maxId / loadOnce + 1)).map (roundRows key loadOnce table)).map
        (padded f zero loadOnce)).flatten =
      (if maxId / loadOnce + 1 < 2 ^ 31 then readRows key loadOnce maxId table else []).foldlM
        (fun m row => add m (f row)) m := by
  by_cases hsmall : maxId / loadOnce + 1 < 2 ^ 31
  · rw [if_pos hsmall, toInt32_of_lt hsmall, Int.toNat_natCast, loadBufs_rounds hzero hfit]
  · have hneg := toInt32_neg (hfit.bufCount_lt hpos) hsmall
    rw [if_neg hsmall, Int.toNat_of_nonpos (by omega)]
    rfl

theorem readRows_perm (hpos : 0 < loadOnce) : (readRows key loadOnce maxId table).Perm
    (table.filter fun row => 0 < key row ∧ key row ≤ (maxId / loadOnce + 1) * loadOnce) := by
  refine List.Perm.trans (List.Perm.of_eq ?_) (flatMap_rounds_perm (n := maxId / loadOnce + 1)
    (fun row => (key row - 1) / loadOnce) _ ?_)
  · unfold readRows
    rw [flatMap_def, flatMap_def]
    congr 1
    apply map_congr_left
    intro k hk
    have hk : (k + 1) * loadOnce ≤ (maxId / loadOnce + 1) * loadOnce :=
      Nat.mul_le_mul_right _ (mem_range.mp hk)
    rw [roundRows, filter_filter]
    apply filter_congr
    intro row _
    rw [← Bool.decide_and, decide_eq_decide, Nat.div_eq_iff hpos]
    rw [Nat.add_mul, Nat.one_mul] at hk ⊢
    omega
  · intro row hrow
    have hrow := of_decide_eq_true (mem_filter.mp hrow).2
    rw [Nat.div_lt_iff_lt_mul hpos]
    omega

end Generate

theorem poiRecord_eq_ok (row : PoiRow δ) (r : MappoiPoi δ) :
    (Except.ok (poiRecord row) : Except Fault (MappoiPoi δ)) = .ok r ↔
      True ∧ r = poiRecord row := by
  rw [Except.ok.injEq, true_and, eq_comm]

/-- The record of a row whose `next_id` can be parsed. -/
def sgOf (row : SgRow) : MappoiSg δ where
  rrId := row.rrid % 2 ^ 32
  sgId := row.sgid % 2 ^ 32
  nextRrId := ((nextSeg row.nextId).toOption.getD (0, 0)).1
  nextSgId := ((nextSeg row.nextId).toOption.getD (0, 0)).2
  sgCount := row.sgCount % 2 ^ 32
  poiBuf := .zero

theorem sgRecord_eq_ok (row : SgRow) (r : MappoiSg δ) :
    sgRecord row = .ok r ↔ (∃ next, nextSeg row.nextId = .ok next) ∧ r = sgOf row := by
  unfold sgRecord sgOf
  rcases nextSeg row.nextId with e | next
  · simp
  · simp [ok_bind, pure, Except.pure, Except.toOption, eq_comm]

--
-- What the manager holds
--

/-- The segments the first row of a road reserves, 0 without one. -/
def roadCount (rows : List SgRow) (rr : Nat) : Nat :=
  ((rows.find? fun row => row.rrid = rr).map SgRow.sgCount).getD 0

/-- The points of a segment. -/
def segPois (pois : List (PoiRow δ)) (rr sg : Nat) : List (PoiRow δ) :=
  pois.filter fun p => p.rrid = rr ∧ p.sgid = sg

/-- What a segment holds after the points: the first one has reserved the room. -/
def poiBufOf (pois : List (PoiRow δ)) (rr sg : Nat) : MappoiPoiBuf δ :=
  match segPois pois rr sg with
  | [] => .zero
  | p :: rest => ⟨some ((p :: rest).map poiRecord), (poiRecord p).poiCount⟩

/-- A row of the segment table as it is promised. -/
structure SgRow.Sound (row : SgRow) : Prop where
  rrid_pos : 0 < row.rrid
  rrid_lt : row.rrid < 2 ^ 32
  sgid_pos : 0 < row.sgid
  sgid_le : row.sgid ≤ row.sgCount
  sgCount_lt : row.sgCount < 2 ^ 32

theorem SgRow.Sound.sgCount_pos {row : SgRow} (h : row.Sound) : 0 < row.sgCount :=
  Nat.lt_of_lt_of_le h.sgid_pos h.sgid_le

/-- A point of a table as it is promised: it knows the points of its segment. -/
structure PoiRow.Sound (table : List (PoiRow δ)) (p : PoiRow δ) : Prop where
  rrid_pos : 0 < p.rrid
  rrid_lt : p.rrid < 2 ^ 32
  sgid_pos : 0 < p.sgid
  sgid_lt : p.sgid < 2 ^ 32
  count : p.countPoi = (segPois table p.rrid p.sgid).length

/-- What is kept about a road after the rows and the points. -/
def RoadHeld (rows : List SgRow) (pois : List (PoiRow δ)) (rr : Nat) (e : MappoiRr δ) : Prop :=
  if roadCount rows rr = 0 then e = .zero
  else e.rrId = rr ∧ e.sgCount = roadCount rows rr ∧ ∃ buf, e.sgBuf = some buf ∧
    ∀ sg, 0 < sg → (buf (sg - 1)).poiBuf = poiBufOf pois rr sg

/-- The manager holds what the rows and the points have brought. -/
structure Held (loadOnce count : Nat) (rows : List SgRow) (pois : List (PoiRow δ))
    (m : MappoiManager δ) : Prop where
  loadOnce_eq : m.loadOnce = loadOnce
  count_eq : m.rrIndexCount = count
  road : ∀ rr, 0 < rr → RoadHeld rows pois rr (m.rrBuf (m.place rr).1 (m.place rr).2)

theorem roadCount_concat {rows : List SgRow} (hrows : ∀ r ∈ rows, 0 < r.sgCount) (row : SgRow)
    (rr : Nat) : roadCount (rows ++ [row]) rr =
      if roadCount rows rr = 0 ∧ row.rrid = rr then row.sgCount else roadCount rows rr := by
  unfold roadCount
  rw [find?_append]
  rcases hfind : rows.find? fun r => r.rrid = rr with _ | r
  · by_cases hrr : row.rrid = rr
    · simp [hfind, hrr]
    · simp [hfind, hrr]
  · have hpos := hrows r (mem_of_find?_eq_some hfind)
    simp [hfind, show r.sgCount ≠ 0 by omega]

theorem roadCount_pos {rows : List SgRow} (hrows : ∀ r ∈ rows, 0 < r.sgCount) {row : SgRow}
    (h : row ∈ rows) : 0 < roadCount rows row.rrid := by
  obtain ⟨r, hr⟩ : ∃ r, rows.find? (fun r => r.rrid = row.rrid) = some r := by
    rw [← Option.isSome_iff_exists, find?_isSome]
    exact ⟨row, h, decide_eq_true rfl⟩
  rw [roadCount, hr]
  exact hrows r (mem_of_find?_eq_some hr)

theorem segPois_concat (pois : List (PoiRow δ)) (p : PoiRow δ) (rr sg : Nat) :
    segPois (pois ++ [p]) rr sg =
      segPois pois rr sg ++ if p.rrid = rr ∧ p.sgid = sg then [p] else [] := by
  by_cases h : p.rrid = rr ∧ p.sgid = sg
  · simp [segPois, h]
  · simp [segPois, h]

variable {rr : Nat}

theorem poiBufOf_other {pois : List (PoiRow δ)} {p : PoiRow δ} {sg : Nat}
    (h : ¬(p.rrid = rr ∧ p.sgid = sg)) : poiBufOf (pois ++ [p]) rr sg = poiBufOf pois rr sg := by
  rw [poiBufOf, segPois_concat, if_neg h, append_nil, poiBufOf]

theorem poiBufOf_points (pois : List (PoiRow δ)) (rr sg : Nat) :
    (poiBufOf pois rr sg).points = (segPois pois rr sg).map poiRecord := by
  unfold poiBufOf
  split
  · next h => simp [MappoiPoiBuf.points, MappoiPoiBuf.zero, h]
  · next h => simp [MappoiPoiBuf.points, h]

variable {loadOnce count : Nat} {rows : List SgRow} {pois : List (PoiRow δ)}
  {m : MappoiManager δ}

theorem MappoiManager.place_inj (m : MappoiManager δ) {rr' : Nat} (h : m.place rr = m.place rr') :
    rr = rr' := by
  simp only [place, Prod.mk.injEq] at h
  rw [← Nat.div_add_mod rr m.loadOnce, h.1, h.2, Nat.div_add_mod]

theorem MappoiManager.setRr_rrBuf (m : MappoiManager δ) (rr rr' : Nat) (e : MappoiRr δ) :
    (m.setRr rr e).rrBuf (m.place rr').1 (m.place rr').2 =
      if rr' = rr then e else m.rrBuf (m.place rr').1 (m.place rr').2 := by
  simp only [setRr, update_apply]
  by_cases hrr : rr' = rr
  · simp [hrr]
  · rw [if_neg hrr]
    by_cases hfst : (m.place rr').1 = (m.place rr).1
    · have hsnd : (m.place rr').2 ≠ (m.place rr).2 := fun hsnd =>
        hrr (m.place_inj (Prod.ext hfst hsnd))
      rw [if_pos hfst, Function.update_of_ne hsnd, hfst]
    · rw [if_neg hfst]

theorem Held.setRr {rows' : List SgRow} {pois' : List (PoiRow δ)}
    (h : Held loadOnce count rows pois m) {e : MappoiRr δ} (he : RoadHeld rows' pois' rr e)
    (hother : ∀ rr' ≠ rr, ∀ e', RoadHeld rows pois rr' e' → RoadHeld rows' pois' rr' e') :
    Held loadOnce count rows' pois' (m.setRr rr e) := by
  refine ⟨h.loadOnce_eq, h.count_eq, fun rr' hpos => ?_⟩
  show RoadHeld rows' pois' rr' ((m.setRr rr e).rrBuf (m.place rr').1 (m.place rr').2)
  rw [MappoiManager.setRr_rrBuf]
  by_cases hrr : rr' = rr
  · rw [if_pos hrr, hrr]
    exact he
  · rw [if_neg hrr]
    exact hother rr' hrr _ (h.road rr' hpos)

--
-- Entering a segment
--

theorem poiBufOf_nil (rr sg : Nat) : poiBufOf ([] : List (PoiRow δ)) rr sg = .zero := rfl

theorem sgOf_eq {row : SgRow} (h : row.Sound) : (sgOf row : MappoiSg δ).rrId = row.rrid ∧
    (sgOf row : MappoiSg δ).sgId = row.sgid ∧ (sgOf row : MappoiSg δ).sgCount = row.sgCount :=
  ⟨Nat.mod_eq_of_lt h.rrid_lt, Nat.mod_eq_of_lt (Nat.lt_of_le_of_lt h.sgid_le h.sgCount_lt),
    Nat.mod_eq_of_lt h.sgCount_lt⟩

theorem RoadHeld.reserved {e : MappoiRr δ} (h : RoadHeld rows [] rr e) (sgCount : Nat) :
    ∃ buf, (if e.sgCount = 0 ∧ e.sgBuf.isNone then
        (⟨rr, sgCount, some fun _ => .zero⟩ : MappoiRr δ) else { e with rrId := rr }) =
      ⟨rr, if roadCount rows rr = 0 then sgCount else roadCount rows rr, some buf⟩ ∧
      ∀ i, (buf i).poiBuf = .zero := by
  unfold RoadHeld at h
  by_cases hzero : roadCount rows rr = 0
  · rw [if_pos hzero] at h
    rw [h, if_pos hzero]
    exact ⟨_, rfl, fun _ => rfl⟩
  · rw [if_neg hzero] at h
    obtain ⟨-, hcount, buf, hbuf, hall⟩ := h
    refine ⟨buf, ?_, fun i => hall (i + 1) (Nat.succ_pos i)⟩
    rw [hbuf, if_neg hzero, hcount, if_neg fun hboth => hzero hboth.1]

theorem RoadHeld.rrId_eq {e : MappoiRr δ} (h : RoadHeld rows pois rr e) :
    e.rrId = if roadCount rows rr = 0 then 0 else rr := by
  unfold RoadHeld at h
  split at h
  · next hzero => rw [h, if_pos hzero]; rfl
  · next hne => rw [h.1, if_neg hne]

variable {row : SgRow} {p : PoiRow δ}

/-- What it takes to enter a row: a place for the road, and on the road one for the
segment. -/
theorem Held.addSg (h : Held loadOnce count rows [] m) (hrows : ∀ r ∈ rows, r.Sound)
    (hrow : row.Sound) :
    (row.rrid / loadOnce < count ∧ row.sgid ≤ roadCount (rows ++ [row]) row.rrid →
      ∃ m', addSg m (sgOf row) = .ok m' ∧ Held loadOnce count (rows ++ [row]) [] m') ∧
    (¬(row.rrid / loadOnce < count ∧ row.sgid ≤ roadCount (rows ++ [row]) row.rrid) →
      ∃ e, addSg m (sgOf row) = .error e) := by
  obtain ⟨hrr, hsg, hcount⟩ := sgOf_eq (δ := δ) hrow
  have hroad := h.road row.rrid hrow.rrid_pos
  obtain ⟨buf, hres, hzero⟩ := hroad.reserved row.sgCount
  have hid := hroad.rrId_eq
  have hplace : (m.place row.rrid).1 = row.rrid / loadOnce := by
    rw [MappoiManager.place, h.loadOnce_eq]
  have hconcat (rr : Nat) := roadCount_concat (fun r hr => (hrows r hr).sgCount_pos) row rr
  have hown : (if roadCount rows row.rrid = 0 then row.sgCount else roadCount rows row.rrid) =
      roadCount (rows ++ [row]) row.rrid := by
    rw [hconcat]
    simp
  rw [hown] at hres
  have hpos := hrow.rrid_pos
  have hsgpos := hrow.sgid_pos
  unfold Poi.addSg
  dsimp only
  have hids : (m.rrBuf (m.place row.rrid).1 (m.place row.rrid).2).rrId = 0 ∨
      (m.rrBuf (m.place row.rrid).1 (m.place row.rrid).2).rrId = row.rrid := by
    rw [hid]
    split
    · exact .inl rfl
    · exact .inr rfl
  rw [hrr, hsg, hcount, if_neg (by omega), hres, if_pos hids, h.count_eq, hplace]
  constructor
  · rintro ⟨hlt, hle⟩
    refine ⟨_, by rw [if_pos hlt, if_pos hle, if_pos hsgpos], h.setRr ?_ ?_⟩
    · unfold RoadHeld
      rw [if_neg (by omega)]
      refine ⟨rfl, rfl, _, rfl, fun sg _ => ?_⟩
      rw [poiBufOf_nil, Option.getD_some, update_apply]
      split
      · rfl
      · exact hzero _
    · intro rr' hne e' he'
      have hother : roadCount (rows ++ [row]) rr' = roadCount rows rr' := by
        rw [hconcat, if_neg fun hboth => hne hboth.2.symm]
      unfold RoadHeld at he' ⊢
      rwa [hother]
  · intro hnot
    by_cases hlt : row.rrid / loadOnce < count
    · exact ⟨_, by rw [if_pos hlt, if_neg fun hle => hnot ⟨hlt, hle⟩]⟩
    · exact ⟨_, by rw [if_neg hlt]⟩

/-- **The segments are loaded** exactly when every road has a place and every segment
one on its road. -/
theorem foldlM_addSg (hsound : ∀ r ∈ rows, r.Sound) (h : Held loadOnce count [] [] m) :
    ((∀ r ∈ rows, r.rrid / loadOnce < count ∧ r.sgid ≤ roadCount rows r.rrid) →
      ∃ m', rows.foldlM (fun m r => addSg m (sgOf r)) m = .ok m' ∧
        Held loadOnce count rows [] m') ∧
    (¬(∀ r ∈ rows, r.rrid / loadOnce < count ∧ r.sgid ≤ roadCount rows r.rrid) →
      ∃ e, rows.foldlM (fun m r => addSg m (sgOf r)) m = .error e) := by
  have hloop := @foldlM_decided _ _ _ (fun m r => addSg m (sgOf r))
    (fun xs m => Held loadOnce count xs [] m ∧ ∀ r ∈ xs, r.Sound)
    (fun xs r => r.rrid / loadOnce < count ∧ r.sgid ≤ roadCount (xs ++ [r]) r.rrid)
    (fun xs => ∀ r ∈ xs, r.rrid / loadOnce < count ∧ r.sgid ≤ roadCount xs r.rrid)
    SgRow.Sound ?_ ?_ nofun ?_ m ⟨h, nofun⟩ rows hsound
  · refine ⟨fun hall => ?_, hloop.2⟩
    obtain ⟨m', hm', hheld, -⟩ := hloop.1 hall
    exact ⟨m', hm', hheld⟩
  · rintro xs r m hr ⟨hheld, hxs⟩ hC
    obtain ⟨m', hm', hheld'⟩ := (hheld.addSg hxs hr).1 hC
    refine ⟨m', hm', hheld', fun r' hr' => ?_⟩
    rcases mem_append.mp hr' with hr' | hr'
    · exact hxs r' hr'
    · rwa [mem_singleton.mp hr']
  · rintro xs r m hr ⟨hheld, hxs⟩ hC
    exact (hheld.addSg hxs hr).2 hC
  · intro xs r hall
    have hxs (r' : SgRow) (hr' : r' ∈ xs) : r'.Sound := hall r' (mem_append_left _ hr')
    have hcount (rr : Nat) := roadCount_concat
      (fun r' hr' => (hxs r' hr').sgCount_pos) r rr
    simp only [forall_mem_append, forall_mem_singleton]
    refine and_congr (forall₂_congr fun r' hr' => and_congr_right fun _ => ?_) Iff.rfl
    -- a road that is known is not changed by later rows
    have hknown := roadCount_pos (fun r hr => (hxs r hr).sgCount_pos) hr'
    rw [hcount, if_neg fun hboth => absurd hboth.1 (by omega)]

--
-- Entering a point
--

/-- What the record keeps of the number of points of its segment. -/
def room (p : PoiRow δ) : Int := (poiRecord p).poiCount

theorem room_congr {p q : PoiRow δ} (h : p.countPoi = q.countPoi) : room p = room q := by
  unfold room poiRecord
  rw [h]

theorem addPoiBuf_eq (hcount : ∀ q ∈ segPois pois p.rrid p.sgid, q.countPoi = p.countPoi) :
    addPoiBuf (poiBufOf pois p.rrid p.sgid) (poiRecord p) =
      if (segPois pois p.rrid p.sgid).length < room p then
        .ok (poiBufOf (pois ++ [p]) p.rrid p.sgid)
      else .error (.fault .assertion) := by
  have hroom (q : PoiRow δ) (rest : List (PoiRow δ))
      (hseg : segPois pois p.rrid p.sgid = q :: rest) : (poiRecord q).poiCount = room p :=
    room_congr (hcount q (hseg ▸ .head _))
  have hnew : poiBufOf (pois ++ [p]) p.rrid p.sgid =
      ⟨some ((segPois pois p.rrid p.sgid).map poiRecord ++ [poiRecord p]), room p⟩ := by
    unfold poiBufOf
    rw [segPois_concat, if_pos ⟨rfl, rfl⟩]
    rcases hseg : segPois pois p.rrid p.sgid with _ | ⟨q, rest⟩
    · simp [room]
    · simp [hroom q rest hseg]
  rw [hnew]
  unfold addPoiBuf poiBufOf
  rcases hseg : segPois pois p.rrid p.sgid with _ | ⟨q, rest⟩
  · simp [MappoiPoiBuf.points, MappoiPoiBuf.zero, room]
  · simp only [hroom q rest hseg]
    by_cases hzero : room p = 0
    · -- nothing was reserved, and nothing is now
      have hp : (poiRecord p).poiCount = 0 := hzero
      have hneg : ¬((rest.length : Int) + 1 < 0) := by omega
      simp [MappoiPoiBuf.points, hp, hzero, hneg]
    · simp [MappoiPoiBuf.points, hzero]

/-- What it takes to enter a point: a place for its road, its segment on the road,
and room among the points of the segment. -/
def PoiFits (loadOnce count : Nat) (rows : List SgRow) (pois : List (PoiRow δ)) (p : PoiRow δ) :
    Prop :=
  p.rrid / loadOnce < count ∧ p.sgid ≤ roadCount rows p.rrid ∧
    (segPois pois p.rrid p.sgid).length < room p

theorem Held.addPoi (h : Held loadOnce count rows pois m)
    (hcount : ∀ q ∈ segPois pois p.rrid p.sgid, q.countPoi = p.countPoi)
    (hrrid : 0 < p.rrid ∧ p.rrid < 2 ^ 32) (hsgid : 0 < p.sgid ∧ p.sgid < 2 ^ 32) :
    (PoiFits loadOnce count rows pois p →
      ∃ m', addPoi m (poiRecord p) = .ok m' ∧ Held loadOnce count rows (pois ++ [p]) m') ∧
    (¬PoiFits loadOnce count rows pois p → ∃ e, addPoi m (poiRecord p) = .error e) := by
  have hrr : (poiRecord p).rrId = p.rrid := Nat.mod_eq_of_lt hrrid.2
  have hsg : (poiRecord p).sgId = p.sgid := Nat.mod_eq_of_lt hsgid.2
  have hroad := h.road p.rrid hrrid.1
  have hplace : (m.place p.rrid).1 = p.rrid / loadOnce := by
    rw [MappoiManager.place, h.loadOnce_eq]
  unfold Poi.addPoi PoiFits
  rw [hrr, hsg, if_neg (by omega), h.count_eq, hplace]
  by_cases hlt : p.rrid / loadOnce < count
  swap
  · rw [if_neg hlt]
    exact ⟨fun hfits => absurd hfits.1 hlt, fun _ => ⟨_, rfl⟩⟩
  rw [if_pos hlt, ← hplace]
  generalize m.rrBuf (m.place p.rrid).1 (m.place p.rrid).2 = e at hroad
  by_cases hzero : roadCount rows p.rrid = 0
  · -- a road without segments
    rw [RoadHeld, if_pos hzero] at hroad
    rw [hroad, if_neg (show (MappoiRr.zero : MappoiRr δ).rrId ≠ p.rrid from Nat.ne_of_lt hrrid.1)]
    exact ⟨fun hfits => absurd hfits.2.1 (by omega), fun _ => ⟨_, rfl⟩⟩
  rw [RoadHeld, if_neg hzero] at hroad
  obtain ⟨hid, hsgCount, buf, hbuf, hpois⟩ := hroad
  rw [if_pos hid, hbuf, hsgCount]
  dsimp only
  by_cases hle : p.sgid ≤ roadCount rows p.rrid
  swap
  · rw [if_neg fun hboth => hle hboth.2]
    exact ⟨fun hfits => absurd hfits.2.1 hle, fun _ => ⟨_, rfl⟩⟩
  rw [if_pos ⟨hsgid.1, hle⟩, hpois p.sgid hsgid.1, addPoiBuf_eq hcount]
  by_cases hroom : (segPois pois p.rrid p.sgid).length < room p
  swap
  · rw [if_neg hroom]
    exact ⟨fun hfits => absurd hfits.2.2 hroom, fun _ => ⟨_, rfl⟩⟩
  rw [if_pos hroom, ok_bind]
  refine ⟨fun _ => ⟨_, rfl, h.setRr ?_ ?_⟩, fun hnot => absurd ⟨hplace ▸ hlt, hle, hroom⟩ hnot⟩
  · rw [RoadHeld, if_neg hzero]
    refine ⟨hid, rfl, _, rfl, fun sg hsgpos => ?_⟩
    rw [update_apply]
    by_cases heq : sg = p.sgid
    · rw [if_pos (by rw [heq]), heq]
    · rw [if_neg (by omega), hpois sg hsgpos, poiBufOf_other fun hboth => heq hboth.2.symm]
  · intro rr' hne e' he'
    unfold RoadHeld at he' ⊢
    split
    · next hzero' => rwa [if_pos hzero'] at he'
    · next hzero' =>
      rw [if_neg hzero'] at he'
      obtain ⟨hid', hcount', buf', hbuf', hpois'⟩ := he'
      refine ⟨hid', hcount', buf', hbuf', fun sg hsgpos => ?_⟩
      rw [hpois' sg hsgpos, poiBufOf_other fun hboth => hne hboth.1.symm]

/-- **The points are loaded** exactly when every one lies on a segment of a road that
has a place, and the points of no segment outgrow what the first one has reserved. -/
theorem foldlM_addPoi {table : List (PoiRow δ)} (hsound : ∀ p ∈ pois, p.Sound table)
    (h : Held loadOnce count rows [] m) :
    ((∀ p ∈ pois, p.rrid / loadOnce < count ∧ p.sgid ≤ roadCount rows p.rrid ∧
        (segPois pois p.rrid p.sgid).length ≤ room p) →
      ∃ m', pois.foldlM (fun m p => addPoi m (poiRecord p)) m = .ok m' ∧
        Held loadOnce count rows pois m') ∧
    (¬(∀ p ∈ pois, p.rrid / loadOnce < count ∧ p.sgid ≤ roadCount rows p.rrid ∧
        (segPois pois p.rrid p.sgid).length ≤ room p) →
      ∃ e, pois.foldlM (fun m p => addPoi m (poiRecord p)) m = .error e) := by
  have hequal (p q : PoiRow δ) (hp : p.Sound table) (hq : q.Sound table) (hrr : q.rrid = p.rrid)
      (hsg : q.sgid = p.sgid) : q.countPoi = p.countPoi := by
    rw [hq.count, hp.count, hrr, hsg]
  have hloop := @foldlM_decided _ _ _ (fun m p => addPoi m (poiRecord p))
    (fun xs m => Held loadOnce count rows xs m ∧ ∀ q ∈ xs, q.Sound table)
    (PoiFits loadOnce count rows)
    (fun xs => ∀ p ∈ xs, p.rrid / loadOnce < count ∧ p.sgid ≤ roadCount rows p.rrid ∧
      (segPois xs p.rrid p.sgid).length ≤ room p)
    (PoiRow.Sound table) ?_ ?_ nofun ?_ m ⟨h, nofun⟩ pois hsound
  · refine ⟨fun hall => ?_, hloop.2⟩
    obtain ⟨m', hm', hheld, -⟩ := hloop.1 hall
    exact ⟨m', hm', hheld⟩
  · rintro xs p m hp ⟨hheld, hxs⟩ hC
    have hcount (q : PoiRow δ) (hq : q ∈ segPois xs p.rrid p.sgid) : q.countPoi = p.countPoi := by
      obtain ⟨hmem, hseg⟩ := mem_filter.mp hq
      exact hequal p q hp (hxs q hmem) (of_decide_eq_true hseg).1 (of_decide_eq_true hseg).2
    obtain ⟨m', hm', hheld'⟩ := (hheld.addPoi hcount ⟨hp.rrid_pos, hp.rrid_lt⟩
      ⟨hp.sgid_pos, hp.sgid_lt⟩).1 hC
    refine ⟨m', hm', hheld', fun q hq => ?_⟩
    rcases mem_append.mp hq with hq | hq
    · exact hxs q hq
    · rwa [mem_singleton.mp hq]
  · rintro xs p m hp ⟨hheld, hxs⟩ hC
    have hcount (q : PoiRow δ) (hq : q ∈ segPois xs p.rrid p.sgid) : q.countPoi = p.countPoi := by
      obtain ⟨hmem, hseg⟩ := mem_filter.mp hq
      exact hequal p q hp (hxs q hmem) (of_decide_eq_true hseg).1 (of_decide_eq_true hseg).2
    exact (hheld.addPoi hcount ⟨hp.rrid_pos, hp.rrid_lt⟩ ⟨hp.sgid_pos, hp.sgid_lt⟩).2 hC
  · intro xs p hall
    have hp : p.Sound table := hall p (mem_append_right _ (.head _))
    simp only [forall_mem_append, forall_mem_singleton, segPois_concat, PoiFits]
    constructor
    · rintro ⟨hxs, hlt, hle, hroom⟩
      refine ⟨fun q hq => ?_, hlt, hle, ?_⟩
      · obtain ⟨hqlt, hqle, hqroom⟩ := hxs q hq
        refine ⟨hqlt, hqle, le_trans ?_ hqroom⟩
        exact_mod_cast (sublist_append_left _ _).length_le
      · simp at hroom
        omega
    · rintro ⟨hxs, hlt, hle, hroom⟩
      refine ⟨fun q hq => ?_, hlt, hle, ?_⟩
      · obtain ⟨hqlt, hqle, hqroom⟩ := hxs q hq
        refine ⟨hqlt, hqle, ?_⟩
        by_cases hseg : p.rrid = q.rrid ∧ p.sgid = q.sgid
        · have hq' : q.Sound table := hall q (mem_append_left _ hq)
          have hroom' : room p = room q := room_congr (hequal q p hq' hp hseg.1 hseg.2)
          rw [if_pos hseg, ← hseg.1, ← hseg.2, ← hroom']
          simp
          omega
        · rw [if_neg hseg, append_nil]
          exact hqroom
      · simp
        omega

--
-- The query
--

theorem Held.query (h : Held loadOnce count rows pois m) {sg : Nat} (hrr : 0 < rr) (hsg : 0 < sg) :
    mappoiQueryPoi m rr sg =
      if rr / loadOnce < count then
        .ok (if sg < roadCount rows rr ∧ segPois pois rr sg ≠ [] then some (poiBufOf pois rr sg)
          else none)
      else .error .memory := by
  have hroad := h.road rr hrr
  have hplace : (m.place rr).1 = rr / loadOnce := by rw [MappoiManager.place, h.loadOnce_eq]
  unfold mappoiQueryPoi
  rw [h.count_eq, hplace]
  by_cases hlt : rr / loadOnce < count
  swap
  · rw [if_neg hlt, if_neg hlt]
  rw [if_pos hlt, if_pos hlt, ← hplace]
  generalize m.rrBuf (m.place rr).1 (m.place rr).2 = e at hroad
  by_cases hzero : roadCount rows rr = 0
  · rw [RoadHeld, if_pos hzero] at hroad
    rw [hroad, if_pos (show (MappoiRr.zero : MappoiRr δ).rrId ≠ rr from Nat.ne_of_lt hrr),
      if_neg fun hboth => absurd hboth.1 (by omega)]
  rw [RoadHeld, if_neg hzero] at hroad
  obtain ⟨hid, hsgCount, buf, hbuf, hpois⟩ := hroad
  rw [if_neg (not_not.mpr hid), hsgCount, hbuf]
  by_cases hsmall : sg < roadCount rows rr
  · dsimp only
    rw [if_neg (by omega), if_neg (by omega), hpois sg hsg, poiBufOf_points]
    by_cases hnil : segPois pois rr sg = []
    · simp [hnil]
    · simp [hnil, hsmall]
  · rw [if_pos (by omega), if_neg fun hboth => hsmall hboth.1]

--
-- The files of two tables
--

/-- Segment table, point table and configuration as they are promised. -/
structure PoiInput (cfg : MappoiCfgMysql) (sgTable : List SgRow) (poiTable : List (PoiRow δ)) :
    Prop where
  loadOnce_pos : 0 < cfg.loadOnce
  loadOnce_lt : cfg.loadOnce < 2 ^ 32
  segments : ∀ row ∈ sgTable, row.Sound
  points : ∀ p ∈ poiTable, p.Sound poiTable

def sgRead (cfg : MappoiCfgMysql) (sgTable : List SgRow) : List SgRow :=
  readRows SgRow.iidd cfg.loadOnce cfg.maxSgId sgTable

def poiRead (cfg : MappoiCfgMysql) (poiTable : List (PoiRow δ)) : List (PoiRow δ) :=
  readRows PoiRow.id cfg.loadOnce cfg.maxPoiId poiTable

/-- The largest road id of the segments that are read. -/
def maxRrId (cfg : MappoiCfgMysql) (sgTable : List SgRow) : Nat :=
  maxOf ((sgRead cfg sgTable).map SgRow.rrid)

def rrIndexCount (cfg : MappoiCfgMysql) (sgTable : List SgRow) : Nat :=
  blockCount (maxRrId cfg sgTable) cfg.loadOnce

theorem maxOf_le_iff {ids : List Nat} {c : Nat} : maxOf ids ≤ c ↔ ∀ id ∈ ids, id ≤ c := by
  have hfold (m : Nat) : ids.foldl (fun m id => if id > m then id else m) m ≤ c ↔
      m ≤ c ∧ ∀ id ∈ ids, id ≤ c := by
    induction ids generalizing m with
    | nil => simp
    | cons id ids ih =>
      rw [foldl_cons, ih, forall_mem_cons]
      split <;> constructor <;> rintro ⟨h, h'⟩ <;> exact ⟨by omega, by grind⟩
  rw [maxOf, hfold]
  simp

theorem maxOf_rounds {rounds : List (List SgRow)}
    (h : ∀ rows ∈ rounds, ∀ row ∈ rows, row.rrid < 2 ^ 32) :
    maxOf (rounds.map fun rows => maxOf (rows.map fun row => row.rrid % 2 ^ 32)) =
      maxOf (rounds.flatten.map SgRow.rrid) := by
  refine eq_of_forall_ge_iff fun c => ?_
  simp only [maxOf_le_iff, forall_mem_map, mem_flatten]
  constructor
  · rintro hall row ⟨rows, hrows, hrow⟩
    have hle := hall rows hrows row hrow
    rwa [Nat.mod_eq_of_lt (h rows hrows row hrow)] at hle
  · intro hall rows hrows row hrow
    rw [Nat.mod_eq_of_lt (h rows hrows row hrow)]
    exact hall row ⟨rows, hrows, hrow⟩

section Files

variable [Zero δ] {cfg : MappoiCfgMysql} {sgTable : List SgRow} {poiTable : List (PoiRow δ)}

/-- The file of a table of points. -/
def poiFileOf (cfg : MappoiCfgMysql) (poiTable : List (PoiRow δ)) : MappoiFile (MappoiPoi δ) where
  loadOnce := toInt32 cfg.loadOnce
  maxId := cfg.maxPoiId
  maxRrId := 0
  bufCount := toInt32 (cfg.maxPoiId / cfg.loadOnce + 1)
  lines := (((List.range (cfg.maxPoiId / cfg.loadOnce + 1)).map
    (roundRows PoiRow.id cfg.loadOnce poiTable)).map
      (padded poiRecord MappoiPoi.zero cfg.loadOnce)).flatten

omit [Zero δ] in
/-- The file of a table of segments. -/
def sgFileOf (cfg : MappoiCfgMysql) (sgTable : List SgRow) : MappoiFile (MappoiSg δ) where
  loadOnce := toInt32 cfg.loadOnce
  maxId := cfg.maxSgId
  maxRrId := maxRrId cfg sgTable
  bufCount := toInt32 (cfg.maxSgId / cfg.loadOnce + 1)
  lines := (((List.range (cfg.maxSgId / cfg.loadOnce + 1)).map
    (roundRows SgRow.iidd cfg.loadOnce sgTable)).map
      (padded sgOf MappoiSg.zero cfg.loadOnce)).flatten

omit [Zero δ] in
theorem mem_sgTable {row : SgRow} (h : row ∈ sgRead cfg sgTable) : row ∈ sgTable := by
  obtain ⟨k, -, hrow⟩ := mem_flatMap.mp h
  exact mem_of_mem_filter hrow

omit [Zero δ] in
theorem mem_poiTable {p : PoiRow δ} (h : p ∈ poiRead cfg poiTable) : p ∈ poiTable := by
  obtain ⟨k, -, hp⟩ := mem_flatMap.mp h
  exact mem_of_mem_filter hp

/-- **The generator** succeeds exactly when the rounds of both tables fit and every
`next_id` can be parsed. -/
theorem mappoiGenFile_eq_ok (hin : PoiInput cfg sgTable poiTable) {fuel : Nat}
    {files : MappoiFile (MappoiPoi δ) × MappoiFile (MappoiSg δ)} :
    mappoiGenFile fuel cfg poiTable sgTable = .ok files ↔
      (RoundsFit PoiRow.id cfg.loadOnce cfg.maxPoiId poiTable ∧
        RoundsFit SgRow.iidd cfg.loadOnce cfg.maxSgId sgTable ∧
        ∀ row ∈ sgRead cfg sgTable, ∃ next, nextSeg row.nextId = .ok next) ∧
      (cfg.maxPoiId / cfg.loadOnce + 1 < fuel ∧ cfg.maxSgId / cfg.loadOnce + 1 < fuel) ∧
      files = (poiFileOf cfg poiTable, sgFileOf cfg sgTable) := by
  have hpoi (out : List (List (PoiRow δ)) × List (List (MappoiPoi δ))) :
      genRecords (fun row => .ok (poiRecord row)) MappoiPoi.zero PoiRow.id cfg.loadOnce
        cfg.maxPoiId fuel poiTable = .ok out ↔ _ :=
    genRecords_eq_ok poiRecord_eq_ok hin.loadOnce_pos hin.loadOnce_lt
  have hsg (out : List (List SgRow) × List (List (MappoiSg δ))) :
      genRecords sgRecord MappoiSg.zero SgRow.iidd cfg.loadOnce cfg.maxSgId fuel sgTable =
        .ok out ↔ _ :=
    genRecords_eq_ok sgRecord_eq_ok hin.loadOnce_pos hin.loadOnce_lt
  have hmax : maxOf (((List.range (cfg.maxSgId / cfg.loadOnce + 1)).map
      (roundRows SgRow.iidd cfg.loadOnce sgTable)).map
        fun rows => maxOf (rows.map fun row => row.rrid % 2 ^ 32)) = maxRrId cfg sgTable := by
    rw [maxOf_rounds, maxRrId, sgRead, readRows, flatMap_def]
    intro rows hrows row hrow
    obtain ⟨k, -, rfl⟩ := mem_map.mp hrows
    exact (hin.segments row (mem_of_mem_filter hrow)).rrid_lt
  unfold mappoiGenFile mappoiGenFilePoi mappoiGenFileSg
  constructor
  · intro h
    obtain ⟨poiFile, hpoiFile, h⟩ := bind_eq_ok.mp h
    obtain ⟨sgFile, hsgFile, h⟩ := bind_eq_ok.mp h
    obtain ⟨_, hout, hpoiFile⟩ := bind_eq_ok.mp hpoiFile
    obtain ⟨hfit, -, hfuel, rfl⟩ := (hpoi _).mp hout
    obtain ⟨_, hout, hsgFile⟩ := bind_eq_ok.mp hsgFile
    obtain ⟨hfit', hnext, hfuel', rfl⟩ := (hsg _).mp hout
    refine ⟨⟨hfit, hfit', hnext⟩, ⟨hfuel, hfuel'⟩, ?_⟩
    rw [← Except.ok.inj h, ← Except.ok.inj hpoiFile, ← Except.ok.inj hsgFile]
    simp only [hmax, length_map, length_range]
    rfl
  · rintro ⟨⟨hfit, hfit', hnext⟩, ⟨hfuel, hfuel'⟩, rfl⟩
    rw [(hpoi _).mpr ⟨hfit, fun _ _ => trivial, hfuel, rfl⟩,
      (hsg _).mpr ⟨hfit', hnext, hfuel', rfl⟩]
    simp only [ok_bind, hmax, length_map, length_range]
    rfl

/-- The rows the loader gets to: none if the number of buffers is negative. -/
def sgLoaded (cfg : MappoiCfgMysql) (sgTable : List SgRow) : List SgRow :=
  if cfg.maxSgId / cfg.loadOnce + 1 < 2 ^ 31 then sgRead cfg sgTable else []

/-- The manager after `calloc`. -/
def emptyManager (cfg : MappoiCfgMysql) (sgTable : List SgRow) : MappoiManager δ where
  loadOnce := cfg.loadOnce
  maxSgId := cfg.maxSgId
  rrIndexCount := rrIndexCount cfg sgTable
  rrBuf := fun _ _ => .zero

/-- What it takes to load the segments. -/
def SgLoads (cfg : MappoiCfgMysql) (sgTable : List SgRow) : Prop :=
  (cfg.maxSgId ≠ 0 ∧ maxRrId cfg sgTable ≠ 0) ∧ ∀ row ∈ sgLoaded cfg sgTable,
    row.rrid / cfg.loadOnce < rrIndexCount cfg sgTable ∧
      row.sgid ≤ roadCount (sgLoaded cfg sgTable) row.rrid

omit [Zero δ] in
theorem mappoiLoadSg_spec (hin : PoiInput cfg sgTable poiTable)
    (hfit : RoundsFit SgRow.iidd cfg.loadOnce cfg.maxSgId sgTable) :
    (SgLoads cfg sgTable → ∃ m : MappoiManager δ, mappoiLoadSg (sgFileOf cfg sgTable) = .ok m ∧
      Held cfg.loadOnce (rrIndexCount cfg sgTable) (sgLoaded cfg sgTable) [] m) ∧
    (¬SgLoads cfg sgTable → ∃ e, mappoiLoadSg (sgFileOf (δ := δ) cfg sgTable) = .error e) := by
  have hint : (sgFileOf (δ := δ) cfg sgTable).loadOnce = cfg.loadOnce :=
    toInt32_of_lt hfit.loadOnce_lt
  have hpos := hin.loadOnce_pos
  unfold mappoiLoadSg SgLoads
  rw [hint, Int.toNat_natCast]
  by_cases hids : cfg.maxSgId = 0 ∨ maxRrId cfg sgTable = 0
  · rw [if_pos (by simpa [sgFileOf] using hids.imp_right .inr)]
    exact ⟨fun h => absurd hids (by simpa [not_or] using h.1), fun _ => ⟨_, rfl⟩⟩
  rw [if_neg (by simpa [sgFileOf, hpos.ne'] using hids)]
  have hids : cfg.maxSgId ≠ 0 ∧ maxRrId cfg sgTable ≠ 0 := not_or.mp hids
  have hempty : Held cfg.loadOnce (rrIndexCount cfg sgTable) [] []
      (emptyManager (δ := δ) cfg sgTable) :=
    ⟨rfl, rfl, fun _ _ => rfl⟩
  have hsound (row : SgRow) (hrow : row ∈ sgLoaded cfg sgTable) : row.Sound := by
    unfold sgLoaded at hrow
    split at hrow
    · exact hin.segments row (mem_sgTable hrow)
    · cases hrow
  have hload : loadBufs addSg cfg.loadOnce (sgFileOf (δ := δ) cfg sgTable).bufCount.toNat
      (emptyManager (δ := δ) cfg sgTable) (sgFileOf cfg sgTable).lines =
        (sgLoaded cfg sgTable).foldlM (fun m r => addSg m (sgOf r)) (emptyManager cfg sgTable) :=
    loadBufs_file (fun _ => rfl) hfit hpos _
  obtain ⟨hok, hfail⟩ := foldlM_addSg hsound hempty
  refine ⟨fun h => ?_, fun h => ?_⟩
  · obtain ⟨m, hm, hheld⟩ := hok h.2
    exact ⟨m, hload.trans hm, hheld⟩
  · obtain ⟨e, he⟩ := hfail fun hall => h ⟨hids, hall⟩
    exact ⟨e, hload.trans he⟩

/-- What it takes to load the points. -/
def PoiLoads (cfg : MappoiCfgMysql) (count : Nat) (rows : List SgRow) (poiTable : List (PoiRow δ)) :
    Prop :=
  (cfg.maxPoiId ≠ 0 ∧ cfg.maxPoiId / cfg.loadOnce + 1 < 2 ^ 31) ∧
    ∀ p ∈ poiRead cfg poiTable, p.rrid / cfg.loadOnce < count ∧ p.sgid ≤ roadCount rows p.rrid ∧
      (segPois (poiRead cfg poiTable) p.rrid p.sgid).length ≤ room p

theorem mappoiLoadPoi_spec {count : Nat} {rows : List SgRow} {m : MappoiManager δ}
    (hin : PoiInput cfg sgTable poiTable) (h : Held cfg.loadOnce count rows [] m)
    (hfit : RoundsFit PoiRow.id cfg.loadOnce cfg.maxPoiId poiTable) :
    (PoiLoads cfg count rows poiTable → ∃ m', mappoiLoadPoi m (poiFileOf cfg poiTable) = .ok m' ∧
      Held cfg.loadOnce count rows (poiRead cfg poiTable) m') ∧
    (¬PoiLoads cfg count rows poiTable →
      ∃ e, mappoiLoadPoi m (poiFileOf cfg poiTable) = .error e) := by
  have hpos := hin.loadOnce_pos
  have hint : (poiFileOf cfg poiTable).loadOnce = cfg.loadOnce := toInt32_of_lt hfit.loadOnce_lt
  have hcount : (poiFileOf cfg poiTable).bufCount =
      toInt32 (cfg.maxPoiId / cfg.loadOnce + 1) := rfl
  unfold mappoiLoadPoi PoiLoads
  rw [hint, hcount, h.loadOnce_eq]
  by_cases hsmall : cfg.maxPoiId / cfg.loadOnce + 1 < 2 ^ 31
  swap
  · have hneg := toInt32_neg (hfit.bufCount_lt hpos) hsmall
    rw [if_pos (.inr (.inr (by omega)))]
    exact ⟨fun h => absurd h.1.2 hsmall, fun _ => ⟨_, rfl⟩⟩
  have hbuf := toInt32_of_lt hsmall
  by_cases hmax : cfg.maxPoiId = 0
  · rw [if_pos (.inl hmax)]
    exact ⟨fun h => absurd hmax h.1.1, fun _ => ⟨_, rfl⟩⟩
  have hbufPos : 0 < toInt32 (cfg.maxPoiId / cfg.loadOnce + 1) := by
    rw [hbuf]
    exact Int.natCast_pos.mpr (Nat.succ_pos _)
  have hheader : ¬((poiFileOf cfg poiTable).maxId = 0 ∨ (cfg.loadOnce : Int) ≤ 0 ∨
      toInt32 (cfg.maxPoiId / cfg.loadOnce + 1) ≤ 0) := by
    have hmaxId : (poiFileOf cfg poiTable).maxId = cfg.maxPoiId := rfl
    omega
  rw [if_neg hheader, if_neg (Int.lt_irrefl _)]
  have hload : loadBufs addPoi cfg.loadOnce (toInt32 (cfg.maxPoiId / cfg.loadOnce + 1)).toNat m
      (poiFileOf cfg poiTable).lines =
        (poiRead cfg poiTable).foldlM (fun m p => addPoi m (poiRecord p)) m := by
    refine (loadBufs_file (fun _ => rfl) hfit hpos m).trans ?_
    rw [if_pos hsmall]
    rfl
  obtain ⟨hok, hfail⟩ := foldlM_addPoi (fun p hp => hin.points p (mem_poiTable hp)) h
  refine ⟨fun h => ?_, fun h => ?_⟩
  · obtain ⟨m', hm', hheld⟩ := hok h.2
    exact ⟨m', hload.trans hm', hheld⟩
  · obtain ⟨e, he⟩ := hfail fun hall => h ⟨⟨hmax, hsmall⟩, hall⟩
    exact ⟨e, hload.trans he⟩

--
-- Agreement
--

/-- The points a query returns. -/
def found (reply : Option (MappoiPoiBuf δ)) : List (MappoiPoi δ) := (reply.map (·.points)).getD []

/-- After generating and loading, the query finds exactly the points of every segment
of the table. -/
def PoiServed (cfg : MappoiCfgMysql) (sgTable : List SgRow) (poiTable : List (PoiRow δ)) : Prop :=
  ∃ fuel poiFile sgFile m, mappoiGenFile fuel cfg poiTable sgTable = .ok (poiFile, sgFile) ∧
    mappoiLoadFile poiFile sgFile = .ok m ∧
    ∀ row ∈ sgTable, ∃ reply, mappoiQueryPoi m row.rrid row.sgid = .ok reply ∧
      (found reply).Perm ((segPois poiTable row.rrid row.sgid).map poiRecord)

/-- Nothing of the tables is lost on the way: every round of ids fits its buffer and
none is empty, every road lies inside the array (which ends with `max_rr_id`),
every segment and every point inside what the first row of its road has reserved,
no segment has more points than its `short` counts, and the points of a segment of the
table are all read and not on the last segment of their road. -/
structure PoiKept (cfg : MappoiCfgMysql) (sgTable : List SgRow) (poiTable : List (PoiRow δ)) :
    Prop where
  sgRounds : RoundsFit SgRow.iidd cfg.loadOnce cfg.maxSgId sgTable
  poiRounds : RoundsFit PoiRow.id cfg.loadOnce cfg.maxPoiId poiTable
  maxIds : cfg.maxSgId ≠ 0 ∧ cfg.maxPoiId ≠ 0
  bufCounts : cfg.maxSgId / cfg.loadOnce + 1 < 2 ^ 31 ∧ cfg.maxPoiId / cfg.loadOnce + 1 < 2 ^ 31
  nexts : ∀ row ∈ sgRead cfg sgTable, ∃ next, nextSeg row.nextId = .ok next
  roads : ∀ row ∈ sgTable, row.rrid / cfg.loadOnce < rrIndexCount cfg sgTable
  segments : ∀ row ∈ sgRead cfg sgTable, row.sgid ≤ roadCount (sgRead cfg sgTable) row.rrid
  places : ∀ p ∈ poiRead cfg poiTable, p.sgid ≤ roadCount (sgRead cfg sgTable) p.rrid
  rooms : ∀ p ∈ poiRead cfg poiTable,
    (segPois (poiRead cfg poiTable) p.rrid p.sgid).length ≤ room p
  points : ∀ row ∈ sgTable, ∀ p ∈ segPois poiTable row.rrid row.sgid,
    p ∈ poiRead cfg poiTable ∧ row.sgid < roadCount (sgRead cfg sgTable) row.rrid

omit [Zero δ] in
theorem segPois_read_perm (hin : PoiInput cfg sgTable poiTable) (rr sg : Nat) :
    ((segPois (poiRead cfg poiTable) rr sg).map poiRecord).Perm
      ((segPois poiTable rr sg).map poiRecord) ↔
    ∀ p ∈ segPois poiTable rr sg, p ∈ poiRead cfg poiTable := by
  have hperm : (poiRead cfg poiTable).Perm (poiTable.filter fun p =>
      0 < p.id ∧ p.id ≤ (cfg.maxPoiId / cfg.loadOnce + 1) * cfg.loadOnce) :=
    readRows_perm hin.loadOnce_pos
  have hseg : (segPois (poiRead cfg poiTable) rr sg).Perm ((segPois poiTable rr sg).filter fun p =>
      0 < p.id ∧ p.id ≤ (cfg.maxPoiId / cfg.loadOnce + 1) * cfg.loadOnce) := by
    refine (hperm.filter _).trans (List.Perm.of_eq ?_)
    rw [segPois, filter_filter, filter_filter]
    exact filter_congr fun p _ => Bool.and_comm ..
  have hread (p : PoiRow δ) (hp : p ∈ segPois poiTable rr sg) : p ∈ poiRead cfg poiTable ↔
      0 < p.id ∧ p.id ≤ (cfg.maxPoiId / cfg.loadOnce + 1) * cfg.loadOnce := by
    rw [hperm.mem_iff, mem_filter, decide_eq_true_eq]
    exact and_iff_right (mem_of_mem_filter hp)
  constructor
  · intro h p hp
    have hlen := h.length_eq
    rw [length_map, length_map, hseg.length_eq, length_filter_eq_length_iff] at hlen
    exact (hread p hp).mpr (of_decide_eq_true (hlen p hp))
  · intro h
    have hall := filter_eq_self.mpr fun p hp => decide_eq_true ((hread p hp).mp (h p hp))
    rw [hall] at hseg
    exact hseg.map poiRecord

omit [Zero δ] in
theorem Held.found_query {count : Nat} {rows : List SgRow} {pois : List (PoiRow δ)}
    {m : MappoiManager δ} (h : Held cfg.loadOnce count rows pois m) {sg : Nat} (hrr : 0 < rr)
    (hsg : 0 < sg) (hlt : rr / cfg.loadOnce < count) :
    ∃ reply, mappoiQueryPoi m rr sg = .ok reply ∧
      found reply = if sg < roadCount rows rr then (segPois pois rr sg).map poiRecord else [] := by
  refine ⟨_, (h.query hrr hsg).trans (if_pos hlt), ?_⟩
  by_cases hsmall : sg < roadCount rows rr
  · by_cases hnil : segPois pois rr sg = []
    · simp [found, hnil]
    · simp [found, hsmall, hnil, poiBufOf_points]
  · simp [found, hsmall]

theorem PoiServed.kept (hin : PoiInput cfg sgTable poiTable) (h : PoiServed cfg sgTable poiTable) :
    PoiKept cfg sgTable poiTable := by
  obtain ⟨fuel, poiFile, sgFile, m, hgen, hload, hquery⟩ := h
  obtain ⟨⟨hpoiFit, hsgFit, hnexts⟩, -, hfiles⟩ := (mappoiGenFile_eq_ok hin).mp hgen
  obtain ⟨rfl, rfl⟩ := Prod.mk.inj hfiles
  obtain ⟨m₁, hm₁, hload⟩ := bind_eq_ok.mp hload
  obtain ⟨hsgOk, hsgFail⟩ := mappoiLoadSg_spec hin hsgFit
  have hsgLoads : SgLoads cfg sgTable := by
    by_contra hnot
    obtain ⟨e, he⟩ := hsgFail hnot
    rw [hm₁] at he
    cases he
  obtain ⟨m₁', hm₁', hheld⟩ := hsgOk hsgLoads
  obtain rfl : m₁ = m₁' := Except.ok.inj (hm₁.symm.trans hm₁')
  obtain ⟨hpoiOk, hpoiFail⟩ := mappoiLoadPoi_spec hin hheld hpoiFit
  have hpoiLoads : PoiLoads cfg (rrIndexCount cfg sgTable) (sgLoaded cfg sgTable) poiTable := by
    by_contra hnot
    obtain ⟨e, he⟩ := hpoiFail hnot
    rw [hload] at he
    cases he
  obtain ⟨m', hm', hheld'⟩ := hpoiOk hpoiLoads
  obtain rfl : m = m' := Except.ok.inj (hload.symm.trans hm')
  -- with a negative number of buffers there would be no road for the points
  have hcount : cfg.maxSgId / cfg.loadOnce + 1 < 2 ^ 31 := by
    by_contra hnot
    obtain ⟨p, hp⟩ := exists_mem_of_ne_nil _ (hpoiFit.some 0 (Nat.zero_le _))
    have hread : p ∈ poiRead cfg poiTable :=
      mem_flatMap.mpr ⟨0, mem_range.mpr (Nat.succ_pos _), hp⟩
    have hle := (hpoiLoads.2 p hread).2.1
    rw [sgLoaded, if_neg hnot] at hle
    have hpos := (hin.points p (mem_poiTable hread)).sgid_pos
    exact absurd hle (Nat.not_le_of_gt hpos)
  have hloaded : sgLoaded cfg sgTable = sgRead cfg sgTable := if_pos hcount
  rw [SgLoads, hloaded] at hsgLoads
  rw [hloaded] at hpoiLoads hheld'
  have hroads (row : SgRow) (hrow : row ∈ sgTable) :
      row.rrid / cfg.loadOnce < rrIndexCount cfg sgTable := by
    by_contra hnot
    obtain ⟨reply, hreply, -⟩ := hquery row hrow
    have hsound := hin.segments row hrow
    rw [hheld'.query hsound.rrid_pos hsound.sgid_pos, if_neg hnot] at hreply
    cases hreply
  refine ⟨hsgFit, hpoiFit, ⟨hsgLoads.1.1, hpoiLoads.1.1⟩, ⟨hcount, hpoiLoads.1.2⟩, hnexts, hroads,
    fun row hrow => (hsgLoads.2 row hrow).2, fun p hp => (hpoiLoads.2 p hp).2.1,
    fun p hp => (hpoiLoads.2 p hp).2.2, fun row hrow p hp => ?_⟩
  have hsound := hin.segments row hrow
  obtain ⟨reply, hreply, hperm⟩ := hquery row hrow
  obtain ⟨reply', hreply', hfound⟩ :=
    hheld'.found_query hsound.rrid_pos hsound.sgid_pos (hroads row hrow)
  obtain rfl : reply = reply' := Except.ok.inj (hreply.symm.trans hreply')
  rw [hfound] at hperm
  by_cases hsmall : row.sgid < roadCount (sgRead cfg sgTable) row.rrid
  · rw [if_pos hsmall] at hperm
    exact ⟨(segPois_read_perm hin row.rrid row.sgid).mp hperm p hp, hsmall⟩
  · rw [if_neg hsmall] at hperm
    rw [map_eq_nil_iff.mp hperm.symm.eq_nil] at hp
    cases hp

theorem PoiKept.served (hin : PoiInput cfg sgTable poiTable) (h : PoiKept cfg sgTable poiTable) :
    PoiServed cfg sgTable poiTable := by
  have hloaded : sgLoaded cfg sgTable = sgRead cfg sgTable := if_pos h.bufCounts.1
  have hmax : maxRrId cfg sgTable ≠ 0 := by
    intro hzero
    obtain ⟨row, hrow⟩ := exists_mem_of_ne_nil _ (h.sgRounds.some 0 (Nat.zero_le _))
    have hread : row ∈ sgRead cfg sgTable :=
      mem_flatMap.mpr ⟨0, mem_range.mpr (Nat.succ_pos _), hrow⟩
    have hle := maxOf_le_iff.mp (Nat.le_of_eq hzero) row.rrid (mem_map_of_mem hread)
    exact absurd hle (Nat.not_le_of_gt (hin.segments row (mem_sgTable hread)).rrid_pos)
  have hsgLoads : SgLoads cfg sgTable := by
    rw [SgLoads, hloaded]
    exact ⟨⟨h.maxIds.1, hmax⟩, fun row hrow => ⟨h.roads row (mem_sgTable hrow),
      h.segments row hrow⟩⟩
  obtain ⟨m₁, hm₁, hheld⟩ := (mappoiLoadSg_spec hin h.sgRounds).1 hsgLoads
  rw [hloaded] at hheld
  have hpoiLoads : PoiLoads cfg (rrIndexCount cfg sgTable) (sgRead cfg sgTable) poiTable := by
    refine ⟨⟨h.maxIds.2, h.bufCounts.2⟩, fun p hp => ⟨?_, h.places p hp, h.rooms p hp⟩⟩
    -- the road of a point is that of a row
    have hpos := (hin.points p (mem_poiTable hp)).sgid_pos
    have hplace := h.places p hp
    rcases hfind : (sgRead cfg sgTable).find? fun row => row.rrid = p.rrid with _ | row
    · rw [roadCount, hfind] at hplace
      exact absurd hplace (Nat.not_le_of_gt hpos)
    · have hrr : row.rrid = p.rrid := by simpa using find?_some hfind
      rw [← hrr]
      exact h.roads row (mem_sgTable (mem_of_find?_eq_some hfind))
  obtain ⟨m, hm, hheld⟩ := (mappoiLoadPoi_spec hin hheld h.poiRounds).1 hpoiLoads
  refine ⟨max (cfg.maxPoiId / cfg.loadOnce + 2) (cfg.maxSgId / cfg.loadOnce + 2), _, _, m,
    (mappoiGenFile_eq_ok hin).mpr ⟨⟨h.poiRounds, h.sgRounds, h.nexts⟩, ⟨by omega, by omega⟩, rfl⟩,
    bind_eq_ok.mpr ⟨m₁, hm₁, hm⟩, fun row hrow => ?_⟩
  have hsound := hin.segments row hrow
  obtain ⟨reply, hreply, hfound⟩ :=
    hheld.found_query hsound.rrid_pos hsound.sgid_pos (h.roads row hrow)
  refine ⟨reply, hreply, ?_⟩
  rw [hfound]
  by_cases hsmall : row.sgid < roadCount (sgRead cfg sgTable) row.rrid
  · rw [if_pos hsmall]
    exact (segPois_read_perm hin row.rrid row.sgid).mpr fun p hp => (h.points row hrow p hp).1
  · have hnil : segPois poiTable row.rrid row.sgid = [] :=
      eq_nil_iff_forall_not_mem.mpr fun p hp => hsmall (h.points row hrow p hp).2
    rw [if_neg hsmall, hnil]
    exact List.Perm.refl _

/-- **Generate, load, query.** Every segment of the table has exactly its points exactly
when nothing is lost on the way. -/
theorem poiServed_iff (hin : PoiInput cfg sgTable poiTable) :
    PoiServed cfg sgTable poiTable ↔ PoiKept cfg sgTable poiTable :=
  ⟨fun h => h.kept hin, fun h => h.served hin⟩

end Files

/-- Road 1 with two segments. -/
def shortRoad : List SgRow := [⟨1, 1, 1, none, 2⟩, ⟨2, 1, 2, none, 2⟩]

def twoAtOnce : MappoiCfgMysql := { loadOnce := 2, maxSgId := 1, maxPoiId := 1 }

/-- One point on its first segment. -/
def pointInside : List (PoiRow Nat) := [⟨1, 7, 0, 0, 0, 0, 0, 0, 1, 1, 1⟩]

theorem shortRoad_sound : ∀ row ∈ shortRoad, row.Sound := by
  unfold shortRoad
  rw [forall_mem_cons, forall_mem_singleton]
  exact ⟨⟨by decide, by decide, by decide, by decide, by decide⟩,
    ⟨by decide, by decide, by decide, by decide, by decide⟩⟩

theorem poiServed_pointInside : PoiServed twoAtOnce shortRoad pointInside := by
  have hin : PoiInput twoAtOnce shortRoad pointInside :=
    ⟨by decide, by decide, shortRoad_sound, forall_mem_singleton.mpr
      ⟨by decide, by decide, by decide, by decide, by decide⟩⟩
  have hnexts : ∀ row ∈ shortRoad, ∃ next, nextSeg row.nextId = .ok next :=
    forall_mem_cons.mpr ⟨⟨_, rfl⟩, forall_mem_singleton.mpr ⟨_, rfl⟩⟩
  exact (poiServed_iff hin).mpr ⟨⟨by decide, by decide, by decide, by decide⟩,
    ⟨by decide, by decide, by decide, by decide⟩, by decide, by decide,
    fun row hrow => hnexts row (mem_sgTable hrow), by decide, by decide, by decide, by decide,
    by decide⟩

/-- One point on its last segment. -/
def pointAtEnd : List (PoiRow Nat) := [⟨1, 7, 0, 0, 0, 0, 0, 0, 2, 1, 1⟩]

/-- The query does not look at the last segment of a road. -/
theorem not_poiServed_pointAtEnd :
    PoiInput twoAtOnce shortRoad pointAtEnd ∧ ¬PoiServed twoAtOnce shortRoad pointAtEnd := by
  have hin : PoiInput twoAtOnce shortRoad pointAtEnd :=
    ⟨by decide, by decide, shortRoad_sound, forall_mem_singleton.mpr
      ⟨by decide, by decide, by decide, by decide, by decide⟩⟩
  refine ⟨hin, fun h => ?_⟩
  have hlost := ((h.kept hin).points ⟨2, 1, 2, none, 2⟩ (by decide)
    ⟨1, 7, 0, 0, 0, 0, 0, 0, 2, 1, 1⟩ (by decide)).2
  exact absurd hlost (by decide)

end Supex.Mapdata.Poi
