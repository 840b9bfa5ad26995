import Supex.Mapdata.Topo

/-!
# The map grid: loading

`map_grid_load_file` reads two files. The first gives the grids: their ids, their
coordinates and how many lines they have room for. The second gives rows that name a
grid by its coordinates and a line. A grid is kept in the two-level `grid_list` under
its id, and the two-level `index_list` leads from a pair of coordinates, flattened to
one 32-bit number, to the grid.

A pointer to a grid is its place in `grid_list`. What is behind the end of a two-level
list is not to be read; `list_len`, the number of its rows cut to 16 bits, is read by
nobody. The files have less than 2^31 records, which the `int`s that count them rely
on. Coordinates are `int`s, whose differences wrap.

Main results: `foldlM_addGrid`, `foldlM_addLine`, `gridsLoaded_iff`.
-/

namespace Supex.Mapdata.Grid

open Supex.Lib List
open Function (update update_apply)

/-- `file_grid_info`: the record of a grid (`num` lines) or of a row (line `num`). -/
structure FileGridInfo where
  id : Nat
  gridLon : Int
  gridLat : Int
  num : Nat
  deriving DecidableEq

/-- The area of the grids, as a header gives it and the manager keeps it. -/
structure GridArea where
  lonBegin : Int
  latBegin : Int
  lonSize : Nat
  latSize : Nat
  deriving DecidableEq

/-- `grid_file_header` and the records behind it. -/
structure GridFile where
  area : GridArea
  minId : Nat
  maxId : Nat
  lines : List FileGridInfo
  deriving DecidableEq

/-- `map_grid_info`; `pLines` holds the `line_size` lines entered so far. -/
structure MapGridInfo where
  pLines : List Nat
  maxSize : Nat
  gridLon : Int
  gridLat : Int

/-- `map_grid_list` and `map_grid_index_list`. -/
structure GridList (κ : Type) where
  maxSize : Nat
  stepLen : Nat
  pList : Nat × Nat → κ

structure MapGridManager where
  area : GridArea
  gridList : GridList MapGridInfo
  indexList : GridList (Option (Nat × Nat))

def MapGridInfo.zero : MapGridInfo := ⟨[], 0, 0, 0⟩

/-- `g_grid_manager` before anything is loaded. -/
def MapGridManager.zero : MapGridManager :=
  ⟨⟨0, 0, 0, 0⟩, ⟨0, 0, fun _ => .zero⟩, ⟨0, 0, fun _ => none⟩⟩

--
-- The lists
--

/-- `map_grid_list_init` and `map_grid_index_list_init`, from `calloc`. -/
def GridList.init {κ : Type} (zero : κ) (maxSize stepLen : Nat) : GridList κ :=
  ⟨maxSize, stepLen, fun _ => zero⟩

/-- The place of an index, `none` for one that is too large. Dividing by a step of 0
stops the program. -/
def GridList.find {κ : Type} (list : GridList κ) (index : Nat) :
    Except Fault (Option (Nat × Nat)) :=
  if index > list.maxSize then .ok none
  else if list.stepLen = 0 then .error .assertion
  else if index / list.stepLen < blockCount list.maxSize list.stepLen then
    .ok (some (index / list.stepLen, index % list.stepLen))
  else .error .memory

def findMapGrid (list : GridList MapGridInfo) (index : Nat) : Except Fault (Option (Nat × Nat)) :=
  list.find index

def mapGridListAdd (list : GridList MapGridInfo) (info : MapGridInfo) (index : Nat) :
    Except Fault (GridList MapGridInfo × Option (Nat × Nat)) := do
  match ← findMapGrid list index with
  | none => pure (list, none)
  | some place => pure ({ list with pList := update list.pList place info }, some place)

def mapGridIndexListAdd (list : GridList (Option (Nat × Nat))) (info : Nat × Nat) (index : Nat) :
    Except Fault (GridList (Option (Nat × Nat))) := do
  match ← list.find index with
  | none => pure list
  | some place => pure { list with pList := update list.pList place (some info) }

def findMapGridIndex (list : GridList (Option (Nat × Nat))) (index : Nat) :
    Except Fault (Option (Nat × Nat)) := do
  match ← list.find index with
  | none => pure none
  | some place => pure (list.pList place)

--
-- Coordinates
--

/-- `(a - b) / 5`, rounded to zero. -/
def cell (a b : Int) : Int := ((a - b).bmod (2 ^ 32)).tdiv 5

/-- `grid_index`, computed without a sign since `lon_size` has none. -/
def GridArea.index (area : GridArea) (lon lat : Int) : Nat :=
  ((cell lat area.latBegin * area.lonSize + cell lon area.lonBegin) % 2 ^ 32).toNat

/-- The check of the loader; the quotient is compared as an `unsigned`. -/
def GridArea.outOfRange (area : GridArea) (lon lat : Int) : Bool :=
  lon < area.lonBegin || (cell lon area.lonBegin % 2 ^ 32).toNat ≥ area.lonSize ||
  lat < area.latBegin || (cell lat area.latBegin % 2 ^ 32).toNat ≥ area.latSize

--
-- The loader
--

/-- The loop over the steps of a file: a short step fails an assertion, an empty one is
passed over. -/
def loadSteps {μ κ : Type} (add : μ → κ → Except Fault μ) : List Nat → μ → List κ → Except Fault μ
  | [], m, _ => .ok m
  | stepLen :: steps, m, rest =>
    if (rest.take stepLen).length = 0 then loadSteps add steps m rest
    else if (rest.take stepLen).length = stepLen then do
      let m ← (rest.take stepLen).foldlM add m
      loadSteps add steps m (rest.drop stepLen)
    else .error .assertion

def addGrid (m : MapGridManager) (info : FileGridInfo) : Except Fault MapGridManager :=
  if m.area.outOfRange info.gridLon info.gridLat then .ok m
  else do
    let grid : MapGridInfo := ⟨[], info.num % 2 ^ 16, info.gridLon, info.gridLat⟩
    let (gridList, res) ← mapGridListAdd m.gridList grid info.id
    match res with
    | none => pure { m with gridList := gridList }
    | some place =>
      let indexList ← mapGridIndexListAdd m.indexList place (m.area.index grid.gridLon grid.gridLat)
      pure { m with gridList := gridList, indexList := indexList }

/-- The value `-1` is not looked at by the caller. -/
def gridCountLoadFile (file : GridFile) (m : MapGridManager) (stepLen : Nat) :
    Except Fault MapGridManager :=
  if file.maxId = 0 ∨ file.minId = 0 then .ok m
  else
    let maxSize := file.area.lonSize * file.area.latSize % 2 ^ 32
    loadSteps addGrid (stepLens file.maxId stepLen)
      { area := file.area
        gridList := .init .zero file.maxId stepLen
        indexList := .init none maxSize stepLen }
      file.lines

/-- The line is compared with the largest id of the rows. -/
def addLine (maxId : Nat) (m : MapGridManager) (info : FileGridInfo) :
    Except Fault MapGridManager := do
  match ← findMapGridIndex m.indexList (m.area.index info.gridLon info.gridLat) with
  | none => pure m
  | some place =>
    if info.num > maxId then pure m
    else
      let grid := m.gridList.pList place
      if grid.maxSize < grid.pLines.length + 1 then pure m
      else
        let grid := { grid with pLines := grid.pLines ++ [info.num] }
        pure { m with
          gridList := { m.gridList with pList := update m.gridList.pList place grid } }

def gridLineLoadFile (file : GridFile) (m : MapGridManager) (stepLen : Nat) :
    Except Fault MapGridManager :=
  if file.maxId = 0 ∨ file.minId = 0 then .ok m
  else loadSteps (addLine file.maxId) (stepLens file.maxId stepLen) m file.lines

/-- `none` is `ERR_PMR_PARAMETER`. -/
def mapGridLoadFile (countFile lineFile : GridFile) (m : MapGridManager) (stepLen : Nat) :
    Except Fault (Option MapGridManager) :=
  if stepLen = 0 then .ok none
  else do
    let m ← gridCountLoadFile countFile m stepLen
    let m ← gridLineLoadFile lineFile m stepLen
    pure (some m)

--
-- Places and cells
--

theorem loadSteps_eq {μ κ : Type} {add : μ → κ → Except Fault μ} {maxId stepLen : Nat}
    {lines : List κ} (hstep : 0 < stepLen) (hlen : maxId ≤ lines.length) (m : μ) :
    loadSteps add (stepLens maxId stepLen) m lines = (lines.take maxId).foldlM add m := by
  have htake (n : Nat) (rest : List κ) (hn : n ≤ rest.length) : (rest.take n).length = n := by
    rw [length_take]
    omega
  have hsteps (q r : Nat) (hr : r < stepLen) (rest : List κ) (m : μ)
      (hrest : q * stepLen + r ≤ rest.length) :
      loadSteps add (List.replicate q stepLen ++ if r = 0 then [] else [r]) m rest =
        (rest.take (q * stepLen + r)).foldlM add m := by
    induction q generalizing rest m with
    | zero =>
      rw [Nat.zero_mul, Nat.zero_add] at hrest ⊢
      rw [replicate_zero, nil_append]
      by_cases hzero : r = 0
      · rw [if_pos hzero, hzero, take_zero]
        rfl
      · rw [if_neg hzero, loadSteps, htake r rest hrest, if_neg hzero, if_pos rfl]
        exact bind_pure _
    | succ q ih =>
      have hsplit : (q + 1) * stepLen + r = stepLen + (q * stepLen + r) := by ring
      rw [hsplit] at hrest ⊢
      rw [replicate_succ, cons_append, loadSteps, htake stepLen rest (by omega),
        if_neg (by omega), if_pos rfl, take_add, foldlM_append]
      congr 1
      funext m'
      exact ih (rest.drop stepLen) m' (by rw [length_drop]; omega)
  rw [stepLens_eq, hsteps _ _ (Nat.mod_lt _ hstep) lines m (by rwa [Nat.div_add_mod']),
    Nat.div_add_mod']

section Lists

variable {κ : Type}

/-- `step_row` and `step_col`. -/
def gridPlace (stepLen index : Nat) : Nat × Nat := (index / stepLen, index % stepLen)

theorem gridPlace_inj {stepLen i j : Nat} (h : gridPlace stepLen i = gridPlace stepLen j) :
    i = j := by
  simp only [gridPlace, Prod.mk.injEq] at h
  rw [← Nat.div_add_mod i stepLen, h.1, h.2, Nat.div_add_mod]

theorem GridList.find_eq (list : GridList κ) (index : Nat) (hstep : 0 < list.stepLen) :
    list.find index =
    if index > list.maxSize then .ok none
    else if index = list.maxSize ∧ list.maxSize % list.stepLen = 0 then .error .memory
    else .ok (some (gridPlace list.stepLen index)) := by
  unfold find gridPlace
  by_cases hgt : index > list.maxSize
  · rw [if_pos hgt, if_pos hgt]
  rw [if_neg hgt, if_neg hgt, if_neg (by omega)]
  by_cases hlast : index = list.maxSize
  · rw [hlast]
    by_cases hmod : list.maxSize % list.stepLen = 0
    · rw [if_neg fun h => div_lt_blockCount_iff.mp h hmod, if_pos ⟨rfl, hmod⟩]
    · rw [if_pos (div_lt_blockCount_iff.mpr hmod), if_neg fun h => hmod h.2]
  · rw [if_pos (div_lt_blockCount hstep (by omega)), if_neg fun h => hlast h.1]

end Lists

theorem cell_bounds (a b : Int) : -2 ^ 31 ≤ cell a b ∧ cell a b < 2 ^ 31 := by
  have hle : -((2 ^ 32 : Nat) : Int) / 2 ≤ (a - b).bmod (2 ^ 32) := Int.le_bmod (by decide)
  have hlt : (a - b).bmod (2 ^ 32) < (((2 ^ 32 : Nat) : Int) + 1) / 2 := Int.bmod_lt (by decide)
  have habs : (cell a b).natAbs = ((a - b).bmod (2 ^ 32)).natAbs / 5 := Int.natAbs_tdiv ..
  omega

theorem GridArea.index_lt {area : GridArea} {lon lat : Int} (hlon : area.lonSize < 2 ^ 16)
    (hlat : area.latSize < 2 ^ 16) (h : area.outOfRange lon lat = false) :
    area.index lon lat < area.lonSize * area.latSize := by
  simp only [outOfRange, Bool.or_eq_false_iff, decide_eq_false_iff_not] at h
  obtain ⟨⟨⟨-, hx⟩, -⟩, hy⟩ := h
  have hxb := cell_bounds lon area.lonBegin
  have hyb := cell_bounds lat area.latBegin
  unfold index
  generalize cell lon area.lonBegin = x at hx hxb
  generalize cell lat area.latBegin = y at hy hyb
  have hx0 : 0 ≤ x ∧ x < area.lonSize := by omega
  have hy0 : 0 ≤ y ∧ y < area.latSize := by omega
  obtain ⟨i, rfl⟩ := Int.eq_ofNat_of_zero_le hx0.1
  obtain ⟨j, rfl⟩ := Int.eq_ofNat_of_zero_le hy0.1
  have hj : j < area.latSize := by omega
  have hflat : j * area.lonSize + i < area.lonSize * area.latSize := by
    have hle : (j + 1) * area.lonSize ≤ area.latSize * area.lonSize := Nat.mul_le_mul_right _ hj
    rw [Nat.add_mul, Nat.one_mul, Nat.mul_comm area.latSize] at hle
    omega
  have hint : ((j : Int) * area.lonSize + i) % 2 ^ 32 =
    ((j * area.lonSize + i) % 2 ^ 32 : Nat) := by
    rfl
  rw [hint, Int.toNat_natCast]
  exact Nat.lt_of_le_of_lt (Nat.mod_le _ _) hflat

--
-- The grids
--

/-- A grid that gets into the lists. -/
def Added (area : GridArea) (maxId : Nat) (g : FileGridInfo) : Prop :=
  area.outOfRange g.gridLon g.gridLat = false ∧ g.id ≤ maxId

instance (area : GridArea) (maxId : Nat) (g : FileGridInfo) : Decidable (Added area maxId g) :=
  inferInstanceAs (Decidable (_ ∧ _))

/-- The last grid added of those with a property. -/
def lastAdded (area : GridArea) (maxId : Nat) (grids : List FileGridInfo)
    (p : FileGridInfo → Bool) : Option FileGridInfo :=
  grids.reverse.find? fun g => Added area maxId g && p g

/-- What `grid_list` keeps of a grid. -/
def gridInfo (g : FileGridInfo) : MapGridInfo := ⟨[], g.num % 2 ^ 16, g.gridLon, g.gridLat⟩

/-- The lists after some grids: under an id the last grid with it, under an index a
pointer to the last grid with it. -/
structure Counted (area : GridArea) (maxId stepLen : Nat) (grids : List FileGridInfo)
    (m : MapGridManager) : Prop where
  area_eq : m.area = area
  maxId_eq : m.gridList.maxSize = maxId
  maxSize_eq : m.indexList.maxSize = area.lonSize * area.latSize
  stepLen_eq : m.gridList.stepLen = stepLen ∧ m.indexList.stepLen = stepLen
  noLines : ∀ place, (m.gridList.pList place).pLines = []
  infos : ∀ id, m.gridList.pList (gridPlace stepLen id) =
    ((lastAdded area maxId grids (·.id = id)).map gridInfo).getD .zero
  cells : ∀ c, m.indexList.pList (gridPlace stepLen c) =
    (lastAdded area maxId grids fun g => area.index g.gridLon g.gridLat = c).map
      fun g => gridPlace stepLen g.id

variable {area : GridArea} {maxId stepLen : Nat} {grids : List FileGridInfo} {g : FileGridInfo}
  {m : MapGridManager}

theorem lastAdded_concat (area : GridArea) (maxId : Nat) (grids : List FileGridInfo)
    (g : FileGridInfo) (p : FileGridInfo → Bool) : lastAdded area maxId (grids ++ [g]) p =
      if Added area maxId g ∧ p g then some g else lastAdded area maxId grids p := by
  rw [lastAdded, reverse_append, reverse_singleton, singleton_append,
    find?_cons]
  by_cases h : Added area maxId g ∧ p g
  · simp [h]
  · rcases not_and_or.mp h with h | h
    · simp [h, lastAdded]
    · simp [h, lastAdded]

/-- What it takes to add a grid: an id that does not lead out of the list. -/
def GridFits (area : GridArea) (maxId stepLen : Nat) (g : FileGridInfo) : Prop :=
  area.outOfRange g.gridLon g.gridLat = false → ¬(g.id = maxId ∧ maxId % stepLen = 0)

theorem Counted.addGrid (h : Counted area maxId stepLen grids m) (hstep : 0 < stepLen)
    (hlon : area.lonSize < 2 ^ 16) (hlat : area.latSize < 2 ^ 16) :
    (GridFits area maxId stepLen g →
      ∃ m', addGrid m g = .ok m' ∧ Counted area maxId stepLen (grids ++ [g]) m') ∧
    (¬GridFits area maxId stepLen g → ∃ e, addGrid m g = .error e) := by
  obtain ⟨hlistStep, hindexStep⟩ := h.stepLen_eq
  have hlist := m.gridList.find_eq g.id (by omega)
  rw [h.maxId_eq, hlistStep] at hlist
  unfold Grid.addGrid GridFits
  rw [h.area_eq]
  cases hout : area.outOfRange g.gridLon g.gridLat with
  | true =>
    refine ⟨fun _ => ⟨m, rfl, { h with infos := fun id => ?_, cells := fun c => ?_ }⟩, by simp⟩
    · rw [lastAdded_concat, if_neg (by simp [Added, hout]), h.infos]
    · rw [lastAdded_concat, if_neg (by simp [Added, hout]), h.cells]
  | false =>
    have hindex := area.index_lt hlon hlat hout
    have hcell := m.indexList.find_eq (area.index g.gridLon g.gridLat) (by omega)
    rw [h.maxSize_eq, hindexStep, if_neg (by omega), if_neg (by omega)] at hcell
    by_cases hgt : g.id > maxId
    · -- no grid with such an id
      rw [if_pos hgt] at hlist
      have hnot : ¬Added area maxId g := fun hadded => absurd hadded.2 (by omega)
      refine ⟨fun _ => ⟨m, ?_, { h with infos := fun id => ?_, cells := fun c => ?_ }⟩, ?_⟩
      · simp only [mapGridListAdd, findMapGrid, hlist]
        rw [← h.area_eq]
        rfl
      · rw [lastAdded_concat, if_neg fun hboth => hnot hboth.1, h.infos]
      · rw [lastAdded_concat, if_neg fun hboth => hnot hboth.1, h.cells]
      · intro hnotFits
        exact absurd (fun _ => fun hboth => absurd hboth.1 (by omega)) hnotFits
    rw [if_neg hgt] at hlist
    by_cases hlast : g.id = maxId ∧ maxId % stepLen = 0
    · rw [if_pos hlast] at hlist
      refine ⟨fun hfits => absurd hlast (hfits rfl), fun _ => ⟨.memory, ?_⟩⟩
      simp only [mapGridListAdd, findMapGrid, hlist]
      rfl
    rw [if_neg hlast] at hlist
    have hadded : Added area maxId g := ⟨hout, by omega⟩
    refine ⟨fun _ => ?_, fun hnotFits => absurd (fun _ => hlast) hnotFits⟩
    simp only [mapGridListAdd, findMapGrid, mapGridIndexListAdd, hlist, hcell]
    refine ⟨_, rfl, rfl, h.maxId_eq, h.maxSize_eq, h.stepLen_eq, fun place => ?_, fun id => ?_,
      fun c => ?_⟩
    · dsimp only
      rw [update_apply]
      split
      · rfl
      · exact h.noLines place
    · rw [lastAdded_concat]
      dsimp only
      rw [update_apply]
      by_cases hid : g.id = id
      · rw [if_pos (by rw [hid]), if_pos ⟨hadded, decide_eq_true hid⟩]
        rfl
      · rw [if_neg fun heq => hid (gridPlace_inj heq).symm,
          if_neg fun hboth => hid (of_decide_eq_true hboth.2)]
        exact h.infos id
    · rw [lastAdded_concat]
      dsimp only
      rw [update_apply]
      by_cases hc : area.index g.gridLon g.gridLat = c
      · rw [if_pos (by rw [hc]), if_pos ⟨hadded, decide_eq_true hc⟩]
        rfl
      · rw [if_neg fun heq => hc (gridPlace_inj heq).symm,
          if_neg fun hboth => hc (of_decide_eq_true hboth.2)]
        exact h.cells c

/-- **The grids are loaded** exactly when no id leads out of the list. -/
theorem foldlM_addGrid (h : Counted area maxId stepLen [] m) (hstep : 0 < stepLen)
    (hlon : area.lonSize < 2 ^ 16) (hlat : area.latSize < 2 ^ 16) (grids : List FileGridInfo) :
    ((∀ g ∈ grids, GridFits area maxId stepLen g) →
      ∃ m', grids.foldlM addGrid m = .ok m' ∧ Counted area maxId stepLen grids m') ∧
    (¬(∀ g ∈ grids, GridFits area maxId stepLen g) →
      ∃ e, grids.foldlM addGrid m = .error e) :=
  foldlM_decided (C := fun _ g => GridFits area maxId stepLen g) (P := fun _ => True)
    (F := fun xs => ∀ g ∈ xs, GridFits area maxId stepLen g)
    (I := Counted area maxId stepLen)
    (fun _ _ _ _ hxs => (hxs.addGrid hstep hlon hlat).1)
    (fun _ _ _ _ hxs => (hxs.addGrid hstep hlon hlat).2) nofun
    (fun _ _ _ => by rw [forall_mem_append, forall_mem_singleton]) h
    fun _ _ => trivial

--
-- The lines
--

/-- Where the index list leads from the coordinates of a row. -/
def pointer (area : GridArea) (stepLen : Nat) (cells : Nat × Nat → Option (Nat × Nat))
    (l : FileGridInfo) : Option (Nat × Nat) :=
  if area.index l.gridLon l.gridLat > area.lonSize * area.latSize then none
  else cells (gridPlace stepLen (area.index l.gridLon l.gridLat))

/-- The rows that bring a line to a grid. -/
def arriving (area : GridArea) (stepLen lineMaxId : Nat) (cells : Nat × Nat → Option (Nat × Nat))
    (rows : List FileGridInfo) (place : Nat × Nat) : List FileGridInfo :=
  rows.filter fun l => pointer area stepLen cells l = some place ∧ l.num ≤ lineMaxId

/-- The lists after some rows: every grid has the lines that arrived, as far as there
was room. -/
structure Lined (area : GridArea) (stepLen lineMaxId : Nat) (m₀ : MapGridManager)
    (rows : List FileGridInfo) (m : MapGridManager) : Prop where
  area_eq : m.area = area
  index_eq : m.indexList = m₀.indexList
  infos : ∀ place, m.gridList.pList place =
    { m₀.gridList.pList place with
      pLines := ((arriving area stepLen lineMaxId m₀.indexList.pList rows place).take
        (m₀.gridList.pList place).maxSize).map FileGridInfo.num }

theorem Counted.lined (h : Counted area maxId stepLen grids m) (lineMaxId : Nat) :
    Lined area stepLen lineMaxId m [] m := by
  refine ⟨h.area_eq, rfl, fun place => ?_⟩
  have hno := h.noLines place
  rw [arriving, filter_nil, take_nil, map_nil, ← hno]

/-- What it takes to look at a row: coordinates that do not lead out of the list. -/
def RowFits (area : GridArea) (stepLen : Nat) (l : FileGridInfo) : Prop :=
  ¬(area.index l.gridLon l.gridLat = area.lonSize * area.latSize ∧
    area.lonSize * area.latSize % stepLen = 0)

theorem Lined.addLine {lineMaxId : Nat} {m₀ : MapGridManager} {rows : List FileGridInfo}
    {l : FileGridInfo} (h : Lined area stepLen lineMaxId m₀ rows m)
    (hm₀ : m₀.indexList.maxSize = area.lonSize * area.latSize ∧ m₀.indexList.stepLen = stepLen)
    (hstep : 0 < stepLen) :
    (RowFits area stepLen l →
      ∃ m', addLine lineMaxId m l = .ok m' ∧ Lined area stepLen lineMaxId m₀ (rows ++ [l]) m') ∧
    (¬RowFits area stepLen l → ∃ e, addLine lineMaxId m l = .error e) := by
  have hfind := m₀.indexList.find_eq (area.index l.gridLon l.gridLat) (by omega)
  rw [hm₀.1, hm₀.2] at hfind
  have hconcat (place : Nat × Nat) : arriving area stepLen lineMaxId m₀.indexList.pList
    (rows ++ [l])
      place = arriving area stepLen lineMaxId m₀.indexList.pList rows place ++
        if pointer area stepLen m₀.indexList.pList l = some place ∧ l.num ≤ lineMaxId then [l]
        else [] := by
    rw [arriving, filter_append, filter_singleton]
    by_cases hl : pointer area stepLen m₀.indexList.pList l = some place ∧ l.num ≤ lineMaxId
    · simp [hl, arriving]
    · simp [hl, arriving]
  by_cases hbad : area.index l.gridLon l.gridLat = area.lonSize * area.latSize ∧
      area.lonSize * area.latSize % stepLen = 0
  · refine ⟨fun hfits => absurd hbad hfits, fun _ => ⟨.memory, ?_⟩⟩
    rw [if_neg (by omega), if_pos hbad] at hfind
    simp only [Grid.addLine, findMapGridIndex, h.area_eq, h.index_eq, hfind]
    rfl
  refine ⟨fun _ => ?_, fun hnot => absurd hbad hnot⟩
  have hpointer : findMapGridIndex m.indexList (area.index l.gridLon l.gridLat) =
      .ok (pointer area stepLen m₀.indexList.pList l) := by
    rw [findMapGridIndex, h.index_eq, hfind, pointer]
    by_cases hgt : area.index l.gridLon l.gridLat > area.lonSize * area.latSize
    · rw [if_pos hgt, if_pos hgt]
      rfl
    · rw [if_neg hgt, if_neg hbad, if_neg hgt]
      rfl
  unfold Grid.addLine
  rw [h.area_eq, hpointer, ok_bind]
  rcases hp : pointer area stepLen m₀.indexList.pList l with _ | place
  · refine ⟨m, rfl, h.area_eq, h.index_eq, fun place => ?_⟩
    rw [hconcat, hp, if_neg (by simp), append_nil]
    exact h.infos place
  dsimp only
  by_cases hnum : l.num > lineMaxId
  · refine ⟨m, by rw [if_pos hnum]; rfl, h.area_eq, h.index_eq, fun place' => ?_⟩
    rw [hconcat, if_neg (by omega), append_nil]
    exact h.infos place'
  rw [if_neg hnum]
  have hinfo := h.infos place
  have hlen : (m.gridList.pList place).pLines.length =
      min (m₀.gridList.pList place).maxSize
        (arriving area stepLen lineMaxId m₀.indexList.pList rows place).length := by
    rw [hinfo, length_map, length_take]
  have hsize : (m.gridList.pList place).maxSize = (m₀.gridList.pList place).maxSize := by
    rw [hinfo]
  have hother (place' : Nat × Nat) (hne : place' ≠ place) :
      arriving area stepLen lineMaxId m₀.indexList.pList (rows ++ [l]) place' =
        arriving area stepLen lineMaxId m₀.indexList.pList rows place' := by
    rw [hconcat, hp, if_neg fun hboth => hne (Option.some.inj hboth.1).symm, append_nil]
  have hown : arriving area stepLen lineMaxId m₀.indexList.pList (rows ++ [l]) place =
      arriving area stepLen lineMaxId m₀.indexList.pList rows place ++ [l] := by
    rw [hconcat, hp, if_pos ⟨rfl, by omega⟩]
  by_cases hfull : (m.gridList.pList place).maxSize < (m.gridList.pList place).pLines.length + 1
  · refine ⟨m, by rw [if_pos hfull]; rfl, h.area_eq, h.index_eq, fun place' => ?_⟩
    by_cases hplace : place' = place
    · rw [hplace, hown, take_append_of_le_length (by omega)]
      exact hinfo
    · rw [hother place' hplace]
      exact h.infos place'
  · rw [if_neg hfull]
    refine ⟨_, rfl, rfl, h.index_eq, fun place' => ?_⟩
    dsimp only
    rw [update_apply]
    by_cases hplace : place' = place
    · rw [if_pos hplace, hplace, hown, hinfo]
      rw [take_of_length_le (by omega), take_of_length_le
        (by rw [length_append, length_singleton]; omega), map_append]
      rfl
    · rw [if_neg hplace, hother place' hplace]
      exact h.infos place'

/-- **The rows are loaded** exactly when no coordinates lead out of the list. -/
theorem foldlM_addLine {lineMaxId : Nat} {m₀ : MapGridManager}
    (h : Lined area stepLen lineMaxId m₀ [] m)
    (hm₀ : m₀.indexList.maxSize = area.lonSize * area.latSize ∧ m₀.indexList.stepLen = stepLen)
    (hstep : 0 < stepLen) (rows : List FileGridInfo) :
    ((∀ l ∈ rows, RowFits area stepLen l) →
      ∃ m', rows.foldlM (addLine lineMaxId) m = .ok m' ∧
        Lined area stepLen lineMaxId m₀ rows m') ∧
    (¬(∀ l ∈ rows, RowFits area stepLen l) →
      ∃ e, rows.foldlM (addLine lineMaxId) m = .error e) :=
  foldlM_decided (C := fun _ l => RowFits area stepLen l) (P := fun _ => True)
    (F := fun xs => ∀ l ∈ xs, RowFits area stepLen l)
    (I := Lined area stepLen lineMaxId m₀)
    (fun _ _ _ _ hxs => (hxs.addLine hm₀ hstep).1) (fun _ _ _ _ hxs => (hxs.addLine hm₀ hstep).2)
    nofun (fun _ _ _ => by rw [forall_mem_append, forall_mem_singleton]) h
    fun _ _ => trivial

--
-- Agreement
--

/-- The two files as they are promised: ids and sizes in range, at least as many records
as ids, and no two grids with one id. -/
structure GridInput (countFile lineFile : GridFile) (stepLen : Nat) : Prop where
  stepLen_pos : 0 < stepLen
  sizes : countFile.area.lonSize < 2 ^ 16 ∧ countFile.area.latSize < 2 ^ 16
  countIds : 0 < countFile.minId ∧ 0 < countFile.maxId ∧ countFile.maxId < 2 ^ 31
  lineIds : 0 < lineFile.minId ∧ lineFile.maxId < 2 ^ 31
  countLines : countFile.maxId ≤ countFile.lines.length
  lineLines : lineFile.maxId ≤ lineFile.lines.length
  ids : ∀ g ∈ countFile.lines, 0 < g.id → ∀ g' ∈ countFile.lines, g'.id = g.id → g' = g

/-- The records of the ids of a file. -/
def GridFile.records (file : GridFile) : List FileGridInfo := file.lines.take file.maxId

/-- The rows that name a grid; a record without an id is none of the table. -/
def naming (lineFile : GridFile) (g : FileGridInfo) : List FileGridInfo :=
  lineFile.records.filter fun l => 0 < l.id ∧ l.gridLon = g.gridLon ∧ l.gridLat = g.gridLat

/-- The grid is in range, and no later one takes its place in the index list. -/
def Indexed (countFile : GridFile) (g : FileGridInfo) : Prop :=
  lastAdded countFile.area countFile.maxId countFile.records (fun g' =>
    countFile.area.index g'.gridLon g'.gridLat = countFile.area.index g.gridLon g.gridLat) = some g

instance (countFile : GridFile) (g : FileGridInfo) : Decidable (Indexed countFile g) :=
  inferInstanceAs (Decidable (_ = _))

/-- The rows that are flattened to the place of a grid, with a line that is not larger
than the largest id of the rows. -/
def flattened (countFile lineFile : GridFile) (g : FileGridInfo) : List FileGridInfo :=
  if Indexed countFile g then
    lineFile.records.filter fun l =>
      countFile.area.index l.gridLon l.gridLat = countFile.area.index g.gridLon g.gridLat ∧
        l.num ≤ lineFile.maxId
  else []

/-- The loader ends without leaving a list, and every grid has the lines of the rows that
name it, in the order of the file, as many as it has room for. -/
def GridsLoaded (countFile lineFile : GridFile) (stepLen : Nat) : Prop :=
  ∃ m, mapGridLoadFile countFile lineFile .zero stepLen = .ok (some m) ∧
    ∀ g ∈ countFile.records, 0 < g.id →
      (m.gridList.pList (gridPlace stepLen g.id)).pLines =
        ((naming lineFile g).take (g.num % 2 ^ 16)).map FileGridInfo.num

/-- No id and no coordinates lead out of a list, and the rows that are flattened to the
place of a grid bring the lines of the rows that name it. -/
structure GridsKept (countFile lineFile : GridFile) (stepLen : Nat) : Prop where
  grids : ∀ g ∈ countFile.records, GridFits countFile.area countFile.maxId stepLen g
  rows : ∀ l ∈ lineFile.records, RowFits countFile.area stepLen l
  lines : ∀ g ∈ countFile.records, 0 < g.id →
    ((flattened countFile lineFile g).take (g.num % 2 ^ 16)).map FileGridInfo.num =
      ((naming lineFile g).take (g.num % 2 ^ 16)).map FileGridInfo.num

theorem lastAdded_eq_some {p : FileGridInfo → Bool} {g' : FileGridInfo}
    (h : lastAdded area maxId grids p = some g') :
    g' ∈ grids ∧ Added area maxId g' ∧ p g' = true := by
  have hp := find?_some h
  simp only [Bool.and_eq_true, decide_eq_true_eq] at hp
  exact ⟨mem_reverse.mp (mem_of_find?_eq_some h), hp⟩

section Files

variable {countFile lineFile : GridFile}

/-- The lists before the first grid. -/
def emptyManager (countFile : GridFile) (stepLen : Nat) : MapGridManager where
  area := countFile.area
  gridList := .init .zero countFile.maxId stepLen
  indexList := .init none (countFile.area.lonSize * countFile.area.latSize % 2 ^ 32) stepLen

theorem mapGridLoadFile_eq (hin : GridInput countFile lineFile stepLen) :
    mapGridLoadFile countFile lineFile .zero stepLen =
      (countFile.records.foldlM addGrid (emptyManager countFile stepLen) >>= fun m =>
        lineFile.records.foldlM (addLine lineFile.maxId) m >>= fun m => .ok (some m)) := by
  have hstep := hin.stepLen_pos
  have hids := hin.countIds
  unfold mapGridLoadFile gridCountLoadFile gridLineLoadFile
  rw [if_neg (by omega), if_neg (by omega)]
  rw [loadSteps_eq hstep hin.countLines]
  refine congrArg _ (funext fun m => ?_)
  by_cases hzero : lineFile.maxId = 0
  · rw [if_pos (.inl hzero), GridFile.records, hzero, take_zero]
    rfl
  · have hmin := hin.lineIds.1
    rw [if_neg (by omega), loadSteps_eq hstep hin.lineLines]
    rfl

theorem emptyManager_counted (hin : GridInput countFile lineFile stepLen) :
    Counted countFile.area countFile.maxId stepLen [] (emptyManager countFile stepLen) := by
  have hlt : countFile.area.lonSize * countFile.area.latSize < 2 ^ 32 := by
    have hle := Nat.mul_lt_mul'' hin.sizes.1 hin.sizes.2
    exact hle
  exact ⟨rfl, rfl, Nat.mod_eq_of_lt hlt, ⟨rfl, rfl⟩, fun _ => rfl, fun _ => rfl, fun _ => rfl⟩

theorem loaded_lines {m₁ m : MapGridManager} (hin : GridInput countFile lineFile stepLen)
    (h₁ : Counted countFile.area countFile.maxId stepLen countFile.records m₁)
    (h : Lined countFile.area stepLen lineFile.maxId m₁ lineFile.records m)
    (hg : g ∈ countFile.records) (hpos : 0 < g.id) :
    (m.gridList.pList (gridPlace stepLen g.id)).pLines =
      ((flattened countFile lineFile g).take (g.num % 2 ^ 16)).map FileGridInfo.num := by
  -- a grid with the id of `g` is `g`
  have hunique (g' : FileGridInfo) (hg' : g' ∈ countFile.records) (hid : g'.id = g.id) : g' = g :=
    hin.ids g (mem_of_mem_take hg) hpos g' (mem_of_mem_take hg') hid
  have harriving : arriving countFile.area stepLen lineFile.maxId m₁.indexList.pList
      lineFile.records (gridPlace stepLen g.id) = flattened countFile lineFile g := by
    have hpointer (l : FileGridInfo) : pointer countFile.area stepLen m₁.indexList.pList l =
        some (gridPlace stepLen g.id) ↔ Indexed countFile g ∧
          countFile.area.index l.gridLon l.gridLat = countFile.area.index g.gridLon g.gridLat := by
      rw [pointer, h₁.cells]
      constructor
      · intro hsome
        split at hsome
        · cases hsome
        · obtain ⟨g', hlast, hplace⟩ := Option.map_eq_some_iff.mp hsome
          obtain ⟨hmem, -, hindex⟩ := lastAdded_eq_some hlast
          obtain rfl := hunique g' hmem (gridPlace_inj hplace)
          have hindex := of_decide_eq_true hindex
          rw [← hindex] at hlast
          exact ⟨hlast, hindex.symm⟩
      · rintro ⟨hindexed, hl⟩
        have hadded := (lastAdded_eq_some hindexed).2.1
        have hlt := GridArea.index_lt hin.sizes.1 hin.sizes.2 hadded.1
        rw [hl, if_neg (by omega)]
        exact Option.map_eq_some_iff.mpr ⟨g, hindexed, rfl⟩
    unfold arriving flattened
    by_cases hindexed : Indexed countFile g
    · rw [if_pos hindexed]
      refine filter_congr fun l _ => ?_
      rw [decide_eq_decide, hpointer l, and_iff_right hindexed]
    · rw [if_neg hindexed, filter_eq_nil_iff]
      intro l _ hl
      exact hindexed ((hpointer l).mp (of_decide_eq_true hl).1).1
  rw [h.infos, harriving, h₁.infos]
  rcases hlast : lastAdded countFile.area countFile.maxId countFile.records
    (·.id = g.id) with _ | g'
  · -- the grid is not in the lists
    have hnot : ¬Indexed countFile g := by
      intro hindexed
      have hnone := find?_eq_none.mp hlast g (mem_reverse.mpr hg)
      simp [(lastAdded_eq_some hindexed).2.1] at hnone
    simp [flattened, hnot]
  · obtain ⟨hmem, -, hid⟩ := lastAdded_eq_some hlast
    rw [hunique g' hmem (of_decide_eq_true hid)]
    rfl

theorem GridsKept.loaded (hin : GridInput countFile lineFile stepLen)
    (h : GridsKept countFile lineFile stepLen) : GridsLoaded countFile lineFile stepLen := by
  obtain ⟨m₁, hm₁, hcounted⟩ := (foldlM_addGrid (emptyManager_counted hin) hin.stepLen_pos
    hin.sizes.1 hin.sizes.2 countFile.records).1 h.grids
  obtain ⟨m, hm, hlined'⟩ := (foldlM_addLine (hcounted.lined lineFile.maxId)
    ⟨hcounted.maxSize_eq, hcounted.stepLen_eq.2⟩
    hin.stepLen_pos lineFile.records).1 h.rows
  refine ⟨m, ?_, fun g hg hpos => ?_⟩
  · rw [mapGridLoadFile_eq hin, hm₁, ok_bind, hm, ok_bind]
  · rw [loaded_lines hin hcounted hlined' hg hpos]
    exact h.lines g hg hpos

theorem GridsLoaded.kept (hin : GridInput countFile lineFile stepLen)
    (h : GridsLoaded countFile lineFile stepLen) : GridsKept countFile lineFile stepLen := by
  obtain ⟨m, hload, hlines⟩ := h
  rw [mapGridLoadFile_eq hin] at hload
  obtain ⟨m₁, hm₁, hload⟩ := bind_eq_ok.mp hload
  obtain ⟨m₂, hm₂, hload⟩ := bind_eq_ok.mp hload
  obtain rfl : m₂ = m := Option.some.inj (Except.ok.inj hload)
  obtain ⟨hok, hfail⟩ := foldlM_addGrid (emptyManager_counted hin) hin.stepLen_pos
    hin.sizes.1 hin.sizes.2 countFile.records
  have hgrids : ∀ g ∈ countFile.records, GridFits countFile.area countFile.maxId stepLen g := by
    by_contra hnot
    obtain ⟨e, he⟩ := hfail hnot
    rw [hm₁] at he
    cases he
  obtain ⟨m₁', hm₁', hcounted⟩ := hok hgrids
  obtain rfl : m₁ = m₁' := Except.ok.inj (hm₁.symm.trans hm₁')
  obtain ⟨hok, hfail⟩ := foldlM_addLine (hcounted.lined lineFile.maxId)
    ⟨hcounted.maxSize_eq, hcounted.stepLen_eq.2⟩
    hin.stepLen_pos lineFile.records
  have hrows : ∀ l ∈ lineFile.records, RowFits countFile.area stepLen l := by
    by_contra hnot
    obtain ⟨e, he⟩ := hfail hnot
    rw [hm₂] at he
    cases he
  obtain ⟨m₂', hm₂', hlined'⟩ := hok hrows
  obtain rfl : m₂ = m₂' := Except.ok.inj (hm₂.symm.trans hm₂')
  refine ⟨hgrids, hrows, fun g hg hpos => ?_⟩
  rw [← loaded_lines hin hcounted hlined' hg hpos]
  exact hlines g hg hpos

/-- **Loading the map grid.** -/
theorem gridsLoaded_iff (hin : GridInput countFile lineFile stepLen) :
    GridsLoaded countFile lineFile stepLen ↔ GridsKept countFile lineFile stepLen :=
  ⟨fun h => h.kept hin, fun h => h.loaded hin⟩

end Files

/-- Two grids of a square of four. -/
def twoGrids : GridFile :=
  ⟨⟨100, 200, 2, 2⟩, 1, 2, [⟨1, 105, 200, 1⟩, ⟨2, 100, 205, 1⟩]⟩

/-- One row for each of them. -/
def rowsInside : GridFile :=
  ⟨⟨0, 0, 0, 0⟩, 1, 2, [⟨1, 105, 200, 1⟩, ⟨2, 100, 205, 2⟩]⟩

theorem gridsLoaded_rowsInside : GridsLoaded twoGrids rowsInside 10 := by
  have hin : GridInput twoGrids rowsInside 10 :=
    ⟨by decide, by decide, by decide, by decide, by decide, by decide, by decide⟩
  refine (gridsLoaded_iff hin).mpr ⟨?_, ?_, by decide⟩
  · unfold GridFits
    decide
  · unfold RowFits
    decide

/-- A row for the place to the right of the first grid, which is out of range. -/
def rowOutside : GridFile := ⟨⟨0, 0, 0, 0⟩, 1, 1, [⟨1, 110, 200, 1⟩]⟩

/-- It is flattened to the place of the second one. -/
theorem not_gridsLoaded_rowOutside :
    GridInput twoGrids rowOutside 10 ∧ ¬GridsLoaded twoGrids rowOutside 10 := by
  have hin : GridInput twoGrids rowOutside 10 :=
    ⟨by decide, by decide, by decide, by decide, by decide, by decide, by decide⟩
  refine ⟨hin, fun h => ?_⟩
  exact absurd (h.kept hin).lines (by decide)

end Supex.Mapdata.Grid
