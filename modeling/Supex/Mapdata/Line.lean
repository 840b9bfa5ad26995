import Supex.Lib.Blocks
import Supex.Mapdata.Ranges

/-!
# Map lines: generate, load, query

`map_line_gen_file` writes the line table into a file of fixed records,
`map_line_load_file` reads the file into blocks of `LOAD_STEP` records, and
`map_line_query` looks a line up by its id. The three compute the place of a
line in their own ways: the generator from the distance to the start of its id
range, which starts at id 1, the query from the distance to `min_id`.

A file is modelled by its header and its records, the coordinates are of an
arbitrary type, which nothing here looks into.

* `lineFile_getElem?` — what the generator has written at a position.

Main results: `query_load`, `lineServed_iff`.
-/

namespace Supex.Mapdata

open Supex.Lib List Nat

variable {δ : Type}

/-- A row of the line table. -/
structure LineRow (δ : Type) where
  pmrid : Nat
  sl : δ
  sb : δ
  el : δ
  eb : δ
  ang : Int
  sgid : Nat
  rrid : Nat
  deriving DecidableEq

/-- `map_line_info`: the record in the file and in memory. -/
structure MapLineInfo (δ : Type) where
  sgid : Nat
  tfid : Nat
  dir : Int
  rrId : Nat
  lineId : Nat
  startLon : δ
  startLat : δ
  endLon : δ
  endLat : δ
  deriving DecidableEq

/-- A record of zero bytes. -/
def MapLineInfo.zero [Zero δ] : MapLineInfo δ := ⟨0, 0, 0, 0, 0, 0, 0, 0, 0⟩

/-- `map_line_load_cfg`, less the database connection. -/
structure MapLineLoadCfg where
  loadOnce : Nat
  minId : Nat
  maxId : Nat
  deriving DecidableEq

structure LineFile (δ : Type) where
  minId : Nat
  maxId : Nat
  lines : List (MapLineInfo δ)
  deriving DecidableEq

structure MapLineManager (δ : Type) where
  minLineId : Nat
  maxLineId : Nat
  ptrArry : List (List (MapLineInfo δ))
  deriving DecidableEq

def LOAD_STEP : Nat := 10000

--
-- The generator
--

/-- The record `fetch_line_cb` makes of a row. -/
def lineInfo (row : LineRow δ) : MapLineInfo δ where
  sgid := row.sgid % 2 ^ 8
  tfid := 0
  dir := Int.bmod row.ang (2 ^ 16)
  rrId := row.rrid % 2 ^ 32
  lineId := row.pmrid % 2 ^ 32
  startLon := row.sl
  startLat := row.sb
  endLon := row.el
  endLat := row.eb

def fetchLineCb (startId size : Nat) :
    List (LineRow δ) → List (MapLineInfo δ) → Except Fault (List (MapLineInfo δ))
  | [], buf => .ok buf
  | row :: rows, buf =>
    let offset : Int := (row.pmrid : Int) - startId
    if offset < size then
      if offset < 0 then .error .memory
      else fetchLineCb startId size rows (buf.set offset.toNat (lineInfo row))
    else .error .assertion

/-- One round of the generator: the records it writes for a range of ids. -/
def genLines [Zero δ] (cfg : MapLineLoadCfg) (table : List (LineRow δ)) (range : Nat × Nat) :
    Except Fault (List (MapLineInfo δ)) :=
  fetchLineCb ((range.1 + 1) % 2 ^ 32) cfg.loadOnce (selectRows toInt32 LineRow.pmrid table range)
    (List.replicate cfg.loadOnce MapLineInfo.zero)

def mapLineGenFile [Zero δ] (fuel : Nat) (cfg : MapLineLoadCfg) (table : List (LineRow δ)) :
    Except Fault (LineFile δ) := do
  let ranges ← idRanges cfg.maxId cfg.loadOnce fuel 0 cfg.loadOnce
  let bufs ← ranges.mapM (genLines cfg table)
  pure { minId := cfg.minId % 2 ^ 32, maxId := cfg.maxId % 2 ^ 32, lines := bufs.flatten }

--
-- Loader and query
--

/-- `none` is the return value `-1`. Past the end of the file `fread` leaves the
records of `calloc` as they are. -/
def mapLineLoadFile [Zero δ] (file : LineFile δ) (loadOnce : Nat) : Option (MapLineManager δ) :=
  if file.maxId = 0 ∨ file.minId = 0 then none
  else
    some
      { minLineId := file.minId
        maxLineId := file.maxId
        ptrArry := (List.range (blockCount file.maxId loadOnce)).map
          (block MapLineInfo.zero loadOnce file.lines) }

def mapLineQuery (m : MapLineManager δ) (lineId : Nat) : Except Fault (Option (MapLineInfo δ)) :=
  if lineId = 0 ∨ m.maxLineId < lineId ∨ lineId < m.minLineId then .ok none
  else
    match m.ptrArry[(lineId - m.minLineId) / LOAD_STEP]? with
    | none => .error .memory
    | some lines =>
      match lines[(lineId - m.minLineId) % LOAD_STEP]? with
      | none => .error .memory
      | some info =>
        if info.lineId = 0 ∧ info.rrId = 0 ∧ info.sgid = 0 then .ok none else .ok (some info)

--
-- What the file holds
--

/-- A buffer after the rows have been written to it, each at its offset. -/
def placed (startId : Nat) (rows : List (LineRow δ)) (buf : List (MapLineInfo δ)) :
    List (MapLineInfo δ) :=
  rows.foldl (fun b row => b.set (row.pmrid - startId) (lineInfo row)) buf

/-- The row whose record stays at an offset: the last one written there. -/
def rowAt (startId : Nat) (rows : List (LineRow δ)) (j : Nat) : Option (LineRow δ) :=
  rows.reverse.find? fun row => row.pmrid = startId + j

theorem mem_of_rowAt {startId j : Nat} {rows : List (LineRow δ)} {row : LineRow δ}
    (h : rowAt startId rows j = some row) : row ∈ rows ∧ row.pmrid = startId + j := by
  refine ⟨mem_reverse.mp (mem_of_find?_eq_some h), ?_⟩
  simpa using find?_some h

theorem fetchLineCb_eq_ok {startId size : Nat} {rows : List (LineRow δ)}
    {buf buf' : List (MapLineInfo δ)} :
    fetchLineCb startId size rows buf = .ok buf' ↔
      (∀ row ∈ rows, startId ≤ row.pmrid ∧ row.pmrid < startId + size) ∧
        buf' = placed startId rows buf := by
  induction rows generalizing buf with
  | nil =>
    constructor
    · intro h
      exact ⟨nofun, (Except.ok.inj h).symm⟩
    · rintro ⟨-, rfl⟩
      rfl
  | cons row rows ih =>
    unfold fetchLineCb placed
    rw [forall_mem_cons, foldl_cons]
    dsimp only
    split
    · next hlt =>
      split
      · next hneg =>
        constructor
        · nofun
        · rintro ⟨⟨⟨hge, -⟩, -⟩, -⟩
          omega
      · next hnn =>
        have htoNat : ((row.pmrid : Int) - startId).toNat = row.pmrid - startId := by omega
        rw [htoNat, ih]
        have hrow : startId ≤ row.pmrid ∧ row.pmrid < startId + size := by omega
        exact ⟨fun h => ⟨⟨hrow, h.1⟩, h.2⟩, fun h => ⟨h.1.2, h.2⟩⟩
    · next hge =>
      constructor
      · nofun
      · rintro ⟨⟨⟨-, hlt⟩, -⟩, -⟩
        omega

theorem placed_length (startId : Nat) (rows : List (LineRow δ)) (buf : List (MapLineInfo δ)) :
    (placed startId rows buf).length = buf.length := by
  unfold placed
  induction rows generalizing buf with
  | nil => rfl
  | cons row rows ih => rw [foldl_cons, ih, length_set]

theorem placed_getElem? {startId j : Nat} {rows : List (LineRow δ)} {buf : List (MapLineInfo δ)}
    (hrows : ∀ row ∈ rows, startId ≤ row.pmrid) (hj : j < buf.length) :
    (placed startId rows buf)[j]? = ((rowAt startId rows j).map lineInfo).or buf[j]? := by
  induction rows generalizing buf with
  | nil => rfl
  | cons row rows ih =>
    obtain ⟨hrow, hrows⟩ := forall_mem_cons.mp hrows
    have hstep : placed startId (row :: rows) buf =
        placed startId rows (buf.set (row.pmrid - startId) (lineInfo row)) := rfl
    have hlast : rowAt startId (row :: rows) j =
        (rowAt startId rows j).or (if row.pmrid = startId + j then some row else none) := by
      by_cases hat : row.pmrid = startId + j <;> simp [rowAt, find?_append, hat]
    rw [hstep, ih hrows (by rwa [length_set]), hlast, getElem?_set]
    rcases rowAt startId rows j with _ | last
    · by_cases hat : row.pmrid = startId + j
      · simp [hat, hj]
      · have hoffset : row.pmrid - startId ≠ j := by omega
        simp [hat, hoffset]
    · rfl

/-- The rows the generator gets in round `k`. -/
def roundRows (cfg : MapLineLoadCfg) (table : List (LineRow δ)) (k : Nat) : List (LineRow δ) :=
  selectRows toInt32 LineRow.pmrid table (startId cfg.loadOnce k, startId cfg.loadOnce (k + 1))

/-- The id of the first record of round `k`. -/
def firstId (loadOnce k : Nat) : Nat := (startId loadOnce k + 1) % 2 ^ 32

/-- Each row of a round lies in the window of `load_once` ids the round writes. -/
def InWindow (cfg : MapLineLoadCfg) (table : List (LineRow δ)) (k : Nat) : Prop :=
  ∀ row ∈ roundRows cfg table k,
    firstId cfg.loadOnce k ≤ row.pmrid ∧ row.pmrid < firstId cfg.loadOnce k + cfg.loadOnce

/-- The records of round `k`. -/
def roundLines [Zero δ] (cfg : MapLineLoadCfg) (table : List (LineRow δ)) (k : Nat) :
    List (MapLineInfo δ) :=
  placed (firstId cfg.loadOnce k) (roundRows cfg table k)
    (List.replicate cfg.loadOnce MapLineInfo.zero)

/-- The file after `n` rounds. -/
def linesOf [Zero δ] (cfg : MapLineLoadCfg) (table : List (LineRow δ)) (n : Nat) :
    List (MapLineInfo δ) :=
  ((List.range n).map (roundLines cfg table)).flatten

variable [Zero δ] {cfg : MapLineLoadCfg} {table : List (LineRow δ)}

theorem mapM_genLines_eq_ok {n : Nat} {bufs : List (List (MapLineInfo δ))} :
    (rangesFrom cfg.loadOnce 0 n).mapM (genLines cfg table) = .ok bufs ↔
      (∀ k < n, InWindow cfg table k) ∧ bufs = (List.range n).map (roundLines cfg table) := by
  have hround (k : Nat) (buf : List (MapLineInfo δ)) :
      genLines cfg table (startId cfg.loadOnce (0 + k), startId cfg.loadOnce (0 + k + 1)) =
        .ok buf ↔ InWindow cfg table k ∧ buf = roundLines cfg table k := by
    rw [Nat.zero_add]
    exact fetchLineCb_eq_ok
  rw [mapM_eq_ok]
  unfold rangesFrom
  rw [map_map]
  constructor
  · intro h
    have hlen : n = bufs.length := by simpa using congrArg List.length h
    have hget (k : Nat) (hk : k < n) :
        ∃ buf, bufs[k]? = some buf ∧ InWindow cfg table k ∧ buf = roundLines cfg table k := by
      have hat := congrArg (·[k]?) h
      obtain ⟨buf, hbuf⟩ : ∃ buf, bufs[k]? = some buf :=
        ⟨_, getElem?_eq_getElem (hlen ▸ hk)⟩
      simp only [getElem?_map, getElem?_range hk, hbuf, Option.map_some,
        Function.comp_apply, Option.some.injEq] at hat
      exact ⟨buf, hbuf, (hround k buf).mp hat⟩
    refine ⟨fun k hk => (hget k hk).choose_spec.2.1, ext_getElem? fun k => ?_⟩
    by_cases hk : k < n
    · obtain ⟨buf, hbuf, -, rfl⟩ := hget k hk
      rw [hbuf, getElem?_map, getElem?_range hk]
      rfl
    · rw [getElem?_eq_none (by omega), getElem?_eq_none (by simp; omega)]
  · rintro ⟨hwindow, rfl⟩
    rw [map_map]
    apply map_congr_left
    intro k hk
    exact (hround k _).mpr ⟨hwindow k (mem_range.mp hk), rfl⟩

/-- **The generator** ends when its loop does and every row it gets lies in the
window of its round. -/
theorem mapLineGenFile_eq_ok {fuel : Nat} (hlt : cfg.loadOnce < 2 ^ 32) {file : LineFile δ} :
    mapLineGenFile fuel cfg table = .ok file ↔
      ∃ n < fuel, Rounds cfg.maxId cfg.loadOnce n ∧ (∀ k < n, InWindow cfg table k) ∧
        file = ⟨cfg.minId % 2 ^ 32, cfg.maxId % 2 ^ 32, linesOf cfg table n⟩ := by
  unfold mapLineGenFile
  rw [bind_eq_ok]
  constructor
  · rintro ⟨ranges, hranges, h⟩
    obtain ⟨n, hn, hrounds, rfl⟩ := (idRanges_eq_ok hlt).mp hranges
    obtain ⟨bufs, hbufs, h⟩ := bind_eq_ok.mp h
    obtain ⟨hwindow, rfl⟩ := mapM_genLines_eq_ok.mp hbufs
    exact ⟨n, hn, hrounds, hwindow, (Except.ok.inj h).symm⟩
  · rintro ⟨n, hn, hrounds, hwindow, rfl⟩
    exact ⟨_, (idRanges_eq_ok hlt).mpr ⟨n, hn, hrounds, rfl⟩,
      bind_eq_ok.mpr ⟨_, mapM_genLines_eq_ok.mpr ⟨hwindow, rfl⟩, rfl⟩⟩

/-- The record at position `p`: that of the last row of round `p / load_once`
with the id that belongs there, or zero. -/
theorem lineFile_getElem? {n p : Nat} (hpos : 0 < cfg.loadOnce)
    (hwindow : ∀ k < n, InWindow cfg table k) (hp : p / cfg.loadOnce < n) :
    (linesOf cfg table n)[p]? =
      ((rowAt (firstId cfg.loadOnce (p / cfg.loadOnce)) (roundRows cfg table (p / cfg.loadOnce))
        (p % cfg.loadOnce)).map lineInfo).or (some MapLineInfo.zero) := by
  have hlen : ∀ b ∈ (List.range n).map (roundLines cfg table), b.length = cfg.loadOnce := by
    intro b hb
    obtain ⟨k, -, rfl⟩ := mem_map.mp hb
    simp [roundLines, placed_length]
  have hmod : p % cfg.loadOnce < cfg.loadOnce := mod_lt _ hpos
  unfold linesOf
  rw [flatten_getElem? hpos hlen, getElem?_map, getElem?_range hp]
  show (roundLines cfg table (p / cfg.loadOnce))[p % cfg.loadOnce]? = _
  unfold roundLines
  rw [placed_getElem? (fun row hrow => (hwindow _ hp row hrow).1) (by simpa using hmod)]
  congr 1
  simp [hmod]

--
-- What a query finds
--

/-- **A query** within the ids of the file reads the record at position
`id - min_id`. -/
theorem query_load {file : LineFile δ} {m : MapLineManager δ} {id : Nat}
    (hload : mapLineLoadFile file LOAD_STEP = some m) (hmin : 0 < file.minId)
    (hle : file.minId ≤ id) (hge : id ≤ file.maxId) :
    mapLineQuery m id =
      let info := file.lines.getD (id - file.minId) MapLineInfo.zero
      if info.lineId = 0 ∧ info.rrId = 0 ∧ info.sgid = 0 then .ok none else .ok (some info) := by
  have hstep : 0 < LOAD_STEP := by decide
  unfold mapLineLoadFile at hload
  rw [if_neg (by omega)] at hload
  obtain rfl := Option.some.inj hload
  unfold mapLineQuery
  rw [if_neg (show ¬(id = 0 ∨ file.maxId < id ∨ id < file.minId) by omega)]
  have hblock : (id - file.minId) / LOAD_STEP < blockCount file.maxId LOAD_STEP :=
    div_lt_blockCount hstep (by omega)
  rw [getElem?_map, getElem?_range hblock, Option.map_some]
  dsimp only
  rw [block_getElem? _ _ _ (mod_lt _ hstep), div_add_mod']

theorem query_outside {file : LineFile δ} {m : MapLineManager δ} {id : Nat}
    (hload : mapLineLoadFile file LOAD_STEP = some m)
    (h : id < file.minId ∨ file.maxId < id) : mapLineQuery m id = .ok none := by
  unfold mapLineLoadFile at hload
  split at hload
  · cases hload
  · obtain rfl := Option.some.inj hload
    exact if_pos (by dsimp only; omega)

omit [Zero δ] in
theorem mem_roundRows {k : Nat} {row : LineRow δ} : row ∈ roundRows cfg table k ↔
    row ∈ table ∧ toInt32 (startId cfg.loadOnce k) < row.pmrid ∧
      (row.pmrid : Int) ≤ toInt32 (startId cfg.loadOnce (k + 1)) := by
  simp [roundRows, selectRows]

theorem getD_linesOf_cases {n : Nat} (hpos : 0 < cfg.loadOnce)
    (hwindow : ∀ k < n, InWindow cfg table k) (p : Nat) :
    (linesOf cfg table n).getD p MapLineInfo.zero = MapLineInfo.zero ∨
      ∃ row ∈ roundRows cfg table (p / cfg.loadOnce),
        row.pmrid = firstId cfg.loadOnce (p / cfg.loadOnce) + p % cfg.loadOnce ∧
        (linesOf cfg table n).getD p MapLineInfo.zero = lineInfo row := by
  by_cases hp : p / cfg.loadOnce < n
  · rw [getD_eq_getElem?_getD, lineFile_getElem? hpos hwindow hp]
    rcases hrow : rowAt (firstId cfg.loadOnce (p / cfg.loadOnce))
      (roundRows cfg table (p / cfg.loadOnce)) (p % cfg.loadOnce) with _ | row
    · exact .inl rfl
    · exact .inr ⟨row, (mem_of_rowAt hrow).1, (mem_of_rowAt hrow).2, rfl⟩
  · left
    have hlen : (linesOf cfg table n).length = n * cfg.loadOnce := by
      simp [linesOf, length_flatten, Function.comp_def, roundLines, placed_length]
    have hout : n * cfg.loadOnce ≤ p := (Nat.le_div_iff_mul_le hpos).mp (by omega)
    exact getD_eq_default _ _ (hlen ▸ hout)

theorem getD_linesOf {n p : Nat} (hpos : 0 < cfg.loadOnce)
    (hwindow : ∀ k < n, InWindow cfg table k) (hp : p / cfg.loadOnce < n) {row : LineRow δ}
    (hmem : row ∈ roundRows cfg table (p / cfg.loadOnce))
    (hat : row.pmrid = firstId cfg.loadOnce (p / cfg.loadOnce) + p % cfg.loadOnce) :
    ∃ row' ∈ table, row'.pmrid = row.pmrid ∧
      (linesOf cfg table n).getD p MapLineInfo.zero = lineInfo row' := by
  rw [getD_eq_getElem?_getD, lineFile_getElem? hpos hwindow hp]
  rcases hrow : rowAt (firstId cfg.loadOnce (p / cfg.loadOnce))
    (roundRows cfg table (p / cfg.loadOnce)) (p % cfg.loadOnce) with _ | row'
  · have hnone := find?_eq_none.mp hrow row (mem_reverse.mpr hmem)
    exact absurd hat (by simpa using hnone)
  · obtain ⟨hmem', hat'⟩ := mem_of_rowAt hrow
    exact ⟨row', (mem_roundRows.mp hmem').1, by omega, rfl⟩

theorem firstId_of_lt {loadOnce k : Nat} (h : k * loadOnce + 1 < 2 ^ 32) :
    firstId loadOnce k = k * loadOnce + 1 := by
  unfold firstId
  rw [startId_of_lt (by omega), mod_eq_of_lt h]

--
-- Agreement
--

/-- A line table with its ids in `min_id .. max_id`. -/
structure LineInput (cfg : MapLineLoadCfg) (table : List (LineRow δ)) : Prop where
  loadOnce_pos : 0 < cfg.loadOnce
  loadOnce_lt : cfg.loadOnce < 2 ^ 32
  minId_pos : 0 < cfg.minId
  minId_le : cfg.minId ≤ cfg.maxId
  ids : ∀ row ∈ table, cfg.minId ≤ row.pmrid ∧ row.pmrid ≤ cfg.maxId

/-- After generating and loading, a query returns the record of a row with the
id if the table has one, and nothing otherwise. -/
def LineServed (cfg : MapLineLoadCfg) (table : List (LineRow δ)) : Prop :=
  ∃ fuel file m, mapLineGenFile fuel cfg table = .ok file ∧
    mapLineLoadFile file LOAD_STEP = some m ∧
    ∀ id < 2 ^ 32,
      ((∃ row ∈ table, row.pmrid = id) →
        ∃ row ∈ table, row.pmrid = id ∧ mapLineQuery m id = .ok (some (lineInfo row))) ∧
      ((∀ row ∈ table, row.pmrid ≠ id) → mapLineQuery m id = .ok none)

omit [Zero δ] in
/-- The ids start at 1, the generator's loop ends, and its queries, with the
bounds printed as `int`s, return every row in the round it belongs to and no row
to a round that has no place for it. -/
def LineAligned (cfg : MapLineLoadCfg) (table : List (LineRow δ)) : Prop :=
  ∃ n, Rounds cfg.maxId cfg.loadOnce n ∧ (∀ k < n, InWindow cfg table k) ∧
    ∀ row ∈ table, cfg.minId = 1 ∧ row ∈ roundRows cfg table ((row.pmrid - 1) / cfg.loadOnce)

omit [Zero δ] in
theorem lineInfo_lineId {row : LineRow δ} (h : row.pmrid < 2 ^ 32) :
    (lineInfo row).lineId = row.pmrid := mod_eq_of_lt h

theorem LineAligned.served (hin : LineInput cfg table) (h : LineAligned cfg table) :
    LineServed cfg table := by
  obtain ⟨n, hrounds, hwindow, hrows⟩ := h
  have hmax : cfg.maxId < 2 ^ 32 := hrounds.maxId_lt
  have hmin : cfg.minId < 2 ^ 32 := Nat.lt_of_le_of_lt hin.minId_le hmax
  have hminPos := hin.minId_pos
  have hminLe := hin.minId_le
  let file : LineFile δ := ⟨cfg.minId, cfg.maxId, linesOf cfg table n⟩
  have hgen : mapLineGenFile (n + 1) cfg table = .ok file := by
    refine (mapLineGenFile_eq_ok hin.loadOnce_lt).mpr ⟨n, by omega, hrounds, hwindow, ?_⟩
    rw [mod_eq_of_lt hmin, mod_eq_of_lt hmax]
  have hload : mapLineLoadFile file LOAD_STEP = some _ :=
    if_neg (show ¬(cfg.maxId = 0 ∨ cfg.minId = 0) by omega)
  refine ⟨n + 1, file, _, hgen, hload, fun id hid => ⟨?_, ?_⟩⟩
  · rintro ⟨row, hrow, rfl⟩
    obtain ⟨hone, hround⟩ := hrows row hrow
    obtain ⟨hlo, hhi⟩ := hin.ids row hrow
    have hquery := query_load hload hminPos hlo hhi
    have hlen : (row.pmrid - 1) / cfg.loadOnce * cfg.loadOnce + (row.pmrid - 1) % cfg.loadOnce =
        row.pmrid - 1 := div_add_mod' _ _
    obtain ⟨row', hrow', hid', hget⟩ := getD_linesOf (p := row.pmrid - 1) hin.loadOnce_pos hwindow
      (hrounds.lt_of_le (by omega)) hround (by rw [firstId_of_lt (by omega)]; omega)
    refine ⟨row', hrow', hid', ?_⟩
    have hinfo : file.lines.getD (row.pmrid - file.minId) MapLineInfo.zero = lineInfo row' := by
      rw [← hget, show file.minId = 1 from hone]
    rw [hquery, hinfo]
    have hne : (lineInfo row').lineId ≠ 0 := by
      rw [lineInfo_lineId (by omega)]
      omega
    exact if_neg fun hzero => hne hzero.1
  · intro hnone
    by_cases hout : id < cfg.minId ∨ cfg.maxId < id
    · exact query_outside hload hout
    · rw [query_load hload hminPos (show cfg.minId ≤ id by omega) (show id ≤ cfg.maxId by omega)]
      rcases getD_linesOf_cases hin.loadOnce_pos hwindow (id - cfg.minId) with hzero | hrow
      · rw [show file.lines.getD (id - file.minId) MapLineInfo.zero = MapLineInfo.zero from hzero]
        exact if_pos ⟨rfl, rfl, rfl⟩
      · obtain ⟨row, hmem, hat, -⟩ := hrow
        have hrow := (mem_roundRows.mp hmem).1
        have hone := (hrows row hrow).1
        have hlen : (id - cfg.minId) / cfg.loadOnce * cfg.loadOnce +
          (id - cfg.minId) % cfg.loadOnce =
            id - cfg.minId := div_add_mod' _ _
        rw [firstId_of_lt (by omega)] at hat
        exact absurd (show row.pmrid = id by omega) (hnone row hrow)

theorem LineServed.aligned (hin : LineInput cfg table) (h : LineServed cfg table) :
    LineAligned cfg table := by
  obtain ⟨fuel, file, m, hgen, hload, hquery⟩ := h
  obtain ⟨n, -, hrounds, hwindow, rfl⟩ := (mapLineGenFile_eq_ok hin.loadOnce_lt).mp hgen
  refine ⟨n, hrounds, hwindow, fun row hrow => ?_⟩
  have hmax : cfg.maxId < 2 ^ 32 := hrounds.maxId_lt
  have hmin : cfg.minId < 2 ^ 32 := Nat.lt_of_le_of_lt hin.minId_le hmax
  rw [mod_eq_of_lt hmin, mod_eq_of_lt hmax] at hload
  obtain ⟨hlo, hhi⟩ := hin.ids row hrow
  have hminPos := hin.minId_pos
  obtain ⟨row', -, hid', hfound⟩ := (hquery row.pmrid (by omega)).1 ⟨row, hrow, rfl⟩
  rw [query_load hload hminPos hlo hhi] at hfound
  dsimp only at hfound
  rcases getD_linesOf_cases hin.loadOnce_pos hwindow (row.pmrid - cfg.minId) with hzero | hat
  · rw [hzero] at hfound
    cases hfound
  · obtain ⟨there, hmem, hid, hinfo⟩ := hat
    obtain ⟨hthere, hprinted⟩ := mem_roundRows.mp hmem
    have hsame : lineInfo there = lineInfo row' := by
      rw [hinfo] at hfound
      split at hfound
      · cases hfound
      · exact Option.some.inj (Except.ok.inj hfound)
    have hlt := (hin.ids there hthere).2
    have hids : there.pmrid = row.pmrid := by
      have := congrArg MapLineInfo.lineId hsame
      rw [lineInfo_lineId (by omega), lineInfo_lineId (by omega)] at this
      omega
    have hlen : (row.pmrid - cfg.minId) / cfg.loadOnce * cfg.loadOnce +
        (row.pmrid - cfg.minId) % cfg.loadOnce = row.pmrid - cfg.minId := div_add_mod' _ _
    -- the generator counts from id 1, the query from `min_id`
    have hone : cfg.minId = 1 := by
      rw [firstId_of_lt (by omega)] at hid
      omega
    rw [hone, hids] at hprinted
    exact ⟨hone, mem_roundRows.mpr ⟨hrow, hprinted⟩⟩

/-- **Generate, load, query.** Every line of the table is found under its id, and
nothing under any other id, exactly when `min_id` is 1 (or the table is empty)
and the id ranges of the generator come out as they are meant. -/
theorem lineServed_iff (hin : LineInput cfg table) :
    LineServed cfg table ↔ LineAligned cfg table :=
  ⟨fun h => h.aligned hin, fun h => h.served hin⟩

omit [Zero δ] in
theorem lineAligned_of_lt (hin : LineInput cfg table) (hone : cfg.minId = 1)
    (hlt : (cfg.maxId / cfg.loadOnce + 1) * cfg.loadOnce < 2 ^ 31) : LineAligned cfg table := by
  have hpos := hin.loadOnce_pos
  have hbound {k : Nat} (hk : k ≤ cfg.maxId / cfg.loadOnce + 1) : k * cfg.loadOnce < 2 ^ 31 :=
    Nat.lt_of_le_of_lt (Nat.mul_le_mul_right _ hk) hlt
  have hprint {k : Nat} (hk : k ≤ cfg.maxId / cfg.loadOnce + 1) :
      toInt32 (startId cfg.loadOnce k) = (k * cfg.loadOnce : Nat) := by
    have := hbound hk
    rw [startId_of_lt (by omega), toInt32_of_lt this]
  refine ⟨_, rounds_of_lt (by omega) hpos, fun k hk row hrow => ?_, fun row hrow => ⟨hone, ?_⟩⟩
  · obtain ⟨-, hlo, hhi⟩ := mem_roundRows.mp hrow
    rw [hprint (by omega)] at hlo
    rw [hprint (by omega), Nat.add_mul, Nat.one_mul] at hhi
    have := hbound (k := k) (by omega)
    rw [firstId_of_lt (by omega)]
    omega
  · obtain ⟨hge, hle⟩ := hin.ids row hrow
    have hdiv : (row.pmrid - 1) / cfg.loadOnce ≤ cfg.maxId / cfg.loadOnce :=
      Nat.div_le_div_right (by omega)
    have hlen : (row.pmrid - 1) / cfg.loadOnce * cfg.loadOnce + (row.pmrid - 1) % cfg.loadOnce =
        row.pmrid - 1 := div_add_mod' _ _
    have hmod : (row.pmrid - 1) % cfg.loadOnce < cfg.loadOnce := mod_lt _ hpos
    refine mem_roundRows.mpr ⟨hrow, ?_, ?_⟩
    · rw [hprint (by omega)]
      omega
    · rw [hprint (by omega), Nat.add_mul, Nat.one_mul]
      omega

/-- Lines 1 and 3 of at most three, two at a time. -/
def twoLines : List (LineRow Int) := [⟨1, 0, 0, 0, 0, 90, 1, 7⟩, ⟨3, 5, 5, 5, 5, 0, 2, 7⟩]

def fromOne : MapLineLoadCfg := { loadOnce := 2, minId := 1, maxId := 3 }

theorem lineServed_fromOne : LineServed fromOne twoLines := by
  have hin : LineInput fromOne twoLines := ⟨by decide, by decide, by decide, by decide, by decide⟩
  exact (lineServed_iff hin).mpr (lineAligned_of_lt hin rfl (by decide))

/-- The same with a line 2 alone and `min_id` 2: the generator writes it as the
second record, the query reads the first. -/
def secondLine : List (LineRow Int) := [⟨2, 0, 0, 0, 0, 90, 1, 7⟩]

def fromTwo : MapLineLoadCfg := { loadOnce := 2, minId := 2, maxId := 3 }

theorem not_lineServed_fromTwo : LineInput fromTwo secondLine ∧ ¬LineServed fromTwo secondLine := by
  have hin : LineInput fromTwo secondLine := ⟨by decide, by decide, by decide, by decide, by decide⟩
  refine ⟨hin, fun h => ?_⟩
  obtain ⟨n, -, -, hrows⟩ := h.aligned hin
  exact absurd (hrows _ (.head _)).1 (by decide)

end Supex.Mapdata
