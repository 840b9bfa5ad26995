import Supex.Lib.Blocks
import Supex.Lib.Decimal
import Supex.Lib.Ring
import Supex.Lib.Run

/-!
# The road graph of libtopo

`topo_load` fills the tables of nodes and lines, `topo_make` threads every line
into two circular lists, that of the lines leaving its from-node and that of the
lines entering its goto-node, and the queries of `topo_api.c` walk along them.

A table is a `mem_list`, whose blocks are allocated when an index in them is used
first. A record is found by its index: no two indexes share a place
(`bath_placed`), so that the index stands for the pointer. The fields of the
records are functions of it; the three pointers of a family, the head of a node's
list and the links of a line, are taken together (`Links`). What no function here
reads (coordinates, `direction`, `length`, `ban`, `max_index`) is left out.

* `Links.append_ok` — threading one line in keeps all the lists of a family.

Main results: `roadLoop_ring`, `roads_listed`, `freeList_stack`.
-/

namespace Supex.Topo

open Supex.Lib List
open Function (update update_apply update_of_ne update_self)

def MAX_TOPO_NODE_COUNT : Nat := 100000000

def MAX_TOPO_LINE_COUNT : Nat := 100000000

--
-- The memory bath
--

def MEM_STEP_PAGE_COUNT : Nat := 32

/-- `getpagesize()` on the target machines. -/
def pageSize : Nat := 4096

/-- `struct mem_list`; `slots` are the blocks that are allocated. -/
structure MemList where
  peakCount : Nat
  stepCount : Nat
  slots : Nat → Bool

def membtInit (typeSize peakCount : Nat) : MemList where
  peakCount := peakCount
  stepCount := pageSize * MEM_STEP_PAGE_COUNT / typeSize
  slots := fun _ => false

/-- The macro `GET_NEED_COUNT`. -/
def getNeedCount (idx div : Nat) : Nat := idx / div + if idx % div ≥ 1 then 1 else 0

def membtGood (list : MemList) (index : Nat) : Bool :=
  index < list.peakCount && list.slots (getNeedCount (index + 1) list.stepCount - 1)

/-- The block of an index and the place in it, as `membt_gain` computes them. -/
def membtPlace (list : MemList) (index : Nat) : Nat × Nat :=
  let divisor := (index + 1) / list.stepCount
  let remainder := (index + 1) % list.stepCount
  (divisor + (if remainder ≥ 1 then 1 else 0) - 1,
    (if remainder = 0 then list.stepCount else remainder) - 1)

def membtGain (list : MemList) (index : Nat) : Except Fault MemList :=
  if index < list.peakCount then
    .ok { list with slots := Function.update list.slots (membtPlace list index).1 true }
  else .error .assertion

--
-- The tables
--

/-- The pointers of one family: `hept_line`, `pfne_line`, `nfne_line` of the lines
that leave a node, or `hipt_line`, `pgni_line`, `ngni_line` of those that enter it. -/
structure Links where
  head : Nat → Option Nat
  prev : Nat → Option Nat
  next : Nat → Option Nat

def Links.null : Links := ⟨fun _ => none, fun _ => none, fun _ => none⟩

/-- `g_tp_node_list` and `g_tp_line_list` with the records in them. -/
structure Tables where
  nodeList : MemList
  lineList : MemList
  nodeId : Nat → Nat
  lineId : Nat → Nat
  fromNode : Nat → Option Nat
  gotoNode : Nat → Option Nat
  exports : Links
  imports : Links

/-- The sizes are those of the two records. -/
def topoInit : Tables where
  nodeList := membtInit 40 MAX_TOPO_NODE_COUNT
  lineList := membtInit 80 MAX_TOPO_LINE_COUNT
  nodeId := fun _ => 0
  lineId := fun _ => 0
  fromNode := fun _ => none
  gotoNode := fun _ => none
  exports := .null
  imports := .null

/-- A row of the table of lines. -/
structure LineRow where
  id : Nat
  fromNode : Nat
  gotoNode : Nat
  deriving DecidableEq

/-- A line that is in none of the lists. -/
def Links.clearLine (links : Links) (line : Nat) : Links :=
  { links with
    prev := Function.update links.prev line none
    next := Function.update links.next line none }

def Links.clearNode (links : Links) (node : Nat) : Links :=
  { links with head := Function.update links.head node none }

def fetchNodeCb (s : Tables) (id : Nat) : Except Fault Tables :=
  if 0 < id then do
    let nodeList ← membtGain s.nodeList id
    pure { s with
      nodeList := nodeList
      nodeId := Function.update s.nodeId id id
      exports := s.exports.clearNode id
      imports := s.imports.clearNode id }
  else .error .assertion

/-- The nodes of a line get a place, whether they are in the table of nodes or not. -/
def fetchLineCb (s : Tables) (row : LineRow) : Except Fault Tables := do
  let nodeList ← membtGain s.nodeList row.fromNode
  let nodeList ← membtGain nodeList row.gotoNode
  if 0 < row.id then
    let lineList ← membtGain s.lineList row.id
    pure { s with
      nodeList := nodeList
      lineList := lineList
      lineId := Function.update s.lineId row.id row.id
      fromNode := Function.update s.fromNode row.id (some row.fromNode)
      gotoNode := Function.update s.gotoNode row.id (some row.gotoNode)
      exports := s.exports.clearLine row.id
      imports := s.imports.clearLine row.id }
  else .error .assertion

def topoLoad (nodes : List Nat) (rows : List LineRow) : Except Fault Tables := do
  let s ← nodes.foldlM fetchNodeCb topoInit
  rows.foldlM fetchLineCb s

--
-- Making the lists
--

/-- A line is put in front of the head, which is behind the last line. -/
def Links.append (links : Links) (node line : Nat) : Except Fault Links :=
  match links.head node with
  | none => .ok
    { head := Function.update links.head node (some line)
      prev := Function.update links.prev line (some line)
      next := Function.update links.next line (some line) }
  | some head =>
    let prev := Function.update links.prev line (links.prev head)
    let next := Function.update links.next line (some head)
    match prev head with
    | none => .error .memory
    | some last => .ok
      { head := links.head
        prev := Function.update prev head (some line)
        next := Function.update next last (some line) }

/-- One turn of the loop of `topo_make`. -/
def makeStep (s : Tables) (i : Nat) : Except Fault Tables :=
  if membtGood s.lineList i then
    match s.fromNode i, s.gotoNode i with
    | some fNode, some gNode =>
      if s.lineId i ≠ i then .ok s
      else do
        let exports ← s.exports.append fNode i
        let imports ← s.imports.append gNode i
        pure { s with exports := exports, imports := imports }
    | _, _ => .ok s
  else .ok s

def topoMake (s : Tables) : Except Fault Tables :=
  (List.range MAX_TOPO_LINE_COUNT).foldlM makeStep s

--
-- The queries
--

def MAX_ERROR_MESSAGE_SIZE : Nat := 32

/-- The return value of a query and what it leaves in `query_args`: the numbers in
`buf`, of which `size` is the count, and the message if it fails. -/
structure QueryReply where
  ret : Bool
  buf : List Nat
  erro : Option Bytes
  deriving DecidableEq

def ERROR_QUERY_NO_ID (idx : Nat) : Bytes :=
  (ascii "No this id " ++ fmtU64 idx).take (MAX_ERROR_MESSAGE_SIZE - 1)

def ERROR_PEAK_IS_SMALL : Bytes := ascii "Peak is small"

def noId (idx : Nat) : QueryReply := ⟨false, [], some (ERROR_QUERY_NO_ID idx)⟩

def topoPullNode (s : Tables) (idx : Nat) : Option Nat :=
  if membtGood s.nodeList idx then if s.nodeId idx > 0 then some idx else none else none

def topoPullLine (s : Tables) (idx : Nat) : Option Nat :=
  if membtGood s.lineList idx then if s.lineId idx > 0 then some idx else none else none

/-- The `do`-`while` loop with room for `left` more numbers. -/
def roadLoop (lineId : Nat → Nat) (next : Nat → Option Nat) (head : Nat) :
    Nat → Option Nat → Except Fault (Bool × List Nat)
  | 0, _ => .ok (false, [])
  | _ + 1, none => .error .memory
  | left + 1, some line =>
    if next line = some head then .ok (true, [lineId line])
    else do
      let (ret, buf) ← roadLoop lineId next head left (next line)
      pure (ret, lineId line :: buf)

/-- The part of the queries behind the look at the head. -/
def roadList (s : Tables) (links : Links) (peak : Int) : Option Nat → Except Fault QueryReply
  | none => .ok ⟨true, [], none⟩
  | some head => do
    let (ret, buf) ← roadLoop s.lineId links.next head peak.toNat (some head)
    pure ⟨ret, buf, if ret then none else some ERROR_PEAK_IS_SMALL⟩

def getExportRoadOfNode (s : Tables) (idx : Nat) (peak : Int) : Except Fault QueryReply :=
  match topoPullNode s idx with
  | none => .ok (noId idx)
  | some node => roadList s s.exports peak (s.exports.head node)

def getImportRoadOfNode (s : Tables) (idx : Nat) (peak : Int) : Except Fault QueryReply :=
  match topoPullNode s idx with
  | none => .ok (noId idx)
  | some node => roadList s s.imports peak (s.imports.head node)

def getExportRoadByRoad (s : Tables) (idx : Nat) (peak : Int) : Except Fault QueryReply :=
  match topoPullLine s idx with
  | none => .ok (noId idx)
  | some line =>
    match s.gotoNode line with
    | none => .error .memory
    | some node => roadList s s.exports peak (s.exports.head node)

def getImportRoadByRoad (s : Tables) (idx : Nat) (peak : Int) : Except Fault QueryReply :=
  match topoPullLine s idx with
  | none => .ok (noId idx)
  | some line =>
    match s.fromNode line with
    | none => .error .memory
    | some node => roadList s s.imports peak (s.imports.head node)

--
-- Places
--

variable {list list' : MemList} {index : Nat}

theorem membtPlace_eq (hstep : 0 < list.stepCount) :
    membtPlace list index = (index / list.stepCount, index % list.stepCount) := by
  have hsum := Nat.div_add_mod (index + 1) list.stepCount
  have hlt := Nat.mod_lt (index + 1) hstep
  rw [eq_comm, Prod.mk.injEq, Nat.div_mod_unique hstep]
  simp only [membtPlace]
  by_cases hr : (index + 1) % list.stepCount = 0
  · -- the last place of a block
    have hq : list.stepCount * ((index + 1) / list.stepCount - 1) =
        list.stepCount * ((index + 1) / list.stepCount) - list.stepCount := Nat.mul_sub_one ..
    have hle : list.stepCount ≤ list.stepCount * ((index + 1) / list.stepCount) :=
      Nat.le_mul_of_pos_right _ (Nat.div_pos (Nat.le_of_dvd index.succ_pos
        (Nat.dvd_of_mod_eq_zero hr)) hstep)
    rw [if_pos hr, if_neg (by omega), Nat.add_zero]
    omega
  · rw [if_neg hr, if_pos (by omega), Nat.add_sub_cancel]
    omega

/-- **No two indexes share a place**, and a place is inside its block. -/
theorem membtPlace_inj {i j : Nat} (hstep : 0 < list.stepCount)
    (h : membtPlace list i = membtPlace list j) : i = j := by
  rw [membtPlace_eq hstep, membtPlace_eq hstep, Prod.mk.injEq] at h
  rw [← Nat.div_add_mod i list.stepCount, h.1, h.2, Nat.div_add_mod]

theorem membtPlace_lt (hstep : 0 < list.stepCount) :
    (membtPlace list index).2 < list.stepCount := by
  rw [membtPlace_eq hstep]
  exact Nat.mod_lt _ hstep

theorem membtPlace_slot_lt {n : Nat} (hstep : 0 < list.stepCount) (hi : index < n) :
    (membtPlace list index).1 < getNeedCount n list.stepCount := by
  have hcount : blockCount n list.stepCount = getNeedCount n list.stepCount := by
    unfold blockCount getNeedCount
    split <;> split <;> omega
  rw [membtPlace_eq hstep, ← hcount]
  exact div_lt_blockCount hstep hi

--
-- Loading
--

theorem membtGain_eq_ok (h : membtGain list index = .ok list') : index < list.peakCount ∧
    list' = { list with slots := update list.slots (membtPlace list index).1 true } := by
  rw [membtGain] at h
  split at h
  · next hlt => exact ⟨hlt, (Except.ok.inj h).symm⟩
  · cases h

theorem membtGain_good {j : Nat} (h : membtGain list index = .ok list')
    (hj : membtGood list j ∨ j = index) : membtGood list' j := by
  obtain ⟨hlt, rfl⟩ := membtGain_eq_ok h
  simp only [membtGood, Bool.and_eq_true, decide_eq_true_eq] at hj ⊢
  rcases hj with ⟨hlt', hslot⟩ | rfl
  · refine ⟨hlt', ?_⟩
    rw [update_apply, hslot]
    exact ite_self _
  · exact ⟨hlt, update_self ..⟩

/-- After a run of gains, the blocks are those of the indexes gained. -/
structure Bath (typeSize peakCount : Nat) (is : List Nat) (list : MemList) : Prop where
  peak : list.peakCount = peakCount
  step : list.stepCount = pageSize * MEM_STEP_PAGE_COUNT / typeSize
  slots : ∀ k, list.slots k = true ↔ ∃ j ∈ is, (membtPlace list j).1 = k

variable {typeSize peakCount : Nat} {is : List Nat}

theorem Bath.gain (h : Bath typeSize peakCount is list) (hgain : membtGain list index = .ok list') :
    Bath typeSize peakCount (is ++ [index]) list' := by
  obtain ⟨-, rfl⟩ := membtGain_eq_ok hgain
  refine ⟨h.peak, h.step, fun k => ?_⟩
  simp only [mem_append, mem_singleton, or_and_right, exists_or, exists_eq_left]
  by_cases hk : k = (membtPlace list index).1
  · subst hk
    exact iff_of_true (update_self ..) (.inr rfl)
  · rw [update_of_ne hk, h.slots]
    exact ⟨.inl, fun hold => hold.resolve_right (Ne.symm hk)⟩

theorem bath_gains (h : is.foldlM membtGain (membtInit typeSize peakCount) = .ok list) :
    Bath typeSize peakCount is list := by
  have hinit : Bath typeSize peakCount [] (membtInit typeSize peakCount) :=
    ⟨rfl, rfl, fun _ => by simp [membtInit]⟩
  exact foldlM_inv (I := Bath typeSize peakCount) (fun _ _ _ _ => Bath.gain) hinit h

/-- Where the bytes that `membt_gain` hands out begin in their block. -/
def membtOffset (typeSize : Nat) (list : MemList) (index : Nat) : Nat :=
  typeSize * (membtPlace list index).2

/-- What the tables rely on, for the indexes below `peakCount`. -/
structure Placed (typeSize peakCount : Nat) (is : List Nat) (list : MemList) : Prop where
  slot : ∀ i < peakCount, (membtPlace list i).1 < getNeedCount peakCount list.stepCount
  inside : ∀ i < peakCount,
    membtOffset typeSize list i + typeSize ≤ pageSize * MEM_STEP_PAGE_COUNT
  apart : ∀ i < peakCount, ∀ j < peakCount, i ≠ j → (membtPlace list i).1 = (membtPlace list j).1 →
    membtOffset typeSize list i + typeSize ≤ membtOffset typeSize list j ∨
    membtOffset typeSize list j + typeSize ≤ membtOffset typeSize list i
  good : ∀ i < peakCount,
    (membtGood list i = true ↔ ∃ j ∈ is, (membtPlace list j).1 = (membtPlace list i).1)

/-- **The bath.** If a block holds an object, then after every run of gains each index has a
block of the table and bytes inside it that no other index has, and is good when its block
is one that a gain has allocated. -/
theorem bath_placed (hstep : 0 < pageSize * MEM_STEP_PAGE_COUNT / typeSize)
    (hrun : is.foldlM membtGain (membtInit typeSize peakCount) = .ok list) :
    Placed typeSize peakCount is list := by
  have h := bath_gains hrun
  have hpos : 0 < list.stepCount := h.step ▸ hstep
  have hend {a b : Nat} (hab : a < b) : typeSize * a + typeSize ≤ typeSize * b :=
    Nat.mul_le_mul_left typeSize hab
  refine ⟨fun i hi => membtPlace_slot_lt hpos hi, fun i _ => ?_, fun i _ j _ hne hslot => ?_,
    fun i hi => ?_⟩
  · have hlt : (membtPlace list i).2 < list.stepCount := membtPlace_lt hpos
    rw [h.step] at hlt
    exact (hend hlt).trans (Nat.mul_div_le _ _)
  · have hrem : (membtPlace list i).2 ≠ (membtPlace list j).2 := fun heq =>
      hne (membtPlace_inj hpos (Prod.ext hslot heq))
    exact (Nat.lt_or_gt_of_ne hrem).imp hend hend
  · rw [membtGood, Bool.and_eq_true, decide_eq_true_eq, h.peak]
    exact (and_iff_right hi).trans (h.slots _)

/-- The two ends of the first block are gained; the second block stays out. -/
theorem bath_placed_ends : Placed 40 4000 [0, 3275]
    ⟨4000, 3276, update (update (fun _ => false) 0 true) 0 true⟩ :=
  bath_placed (by decide) rfl

--
-- The free list
--

/-- `free_list_head`, and the first words of the objects, which are apart. -/
structure FreeMem where
  head : Option Nat
  word : Nat → Option Nat

def membtGetFree (s : FreeMem) : Option Nat × FreeMem :=
  match s.head with
  | none => (none, s)
  | some res => (some res, { s with head := s.word res })

def membtFreeMem (s : FreeMem) (address : Nat) : FreeMem :=
  let word := update s.word address none
  if s.head = none then ⟨some address, word⟩ else ⟨some address, update word address s.head⟩

/-- What users do: give an object back, ask for one, write into one. -/
inductive FreeAct where
  | free (address : Nat)
  | get
  | write (address : Nat) (value : Option Nat)

def FreeMem.step (s : FreeMem) : FreeAct → Option Nat × FreeMem
  | .free a => (none, membtFreeMem s a)
  | .get => membtGetFree s
  | .write a v => (none, { s with word := update s.word a v })

/-- The same on a stack. -/
def stackStep (l : List Nat) : FreeAct → Option Nat × List Nat
  | .free a => (none, a :: l)
  | .get => (l.head?, l.tail)
  | .write _ _ => (none, l)

/-- What a run hands out. -/
def handedOut {σ : Type} (step : σ → FreeAct → Option Nat × σ) :
    σ → List FreeAct → List (Option Nat)
  | _, [] => []
  | s, a :: acts => (step s a).1 :: handedOut step (step s a).2 acts

/-- Nobody frees or writes what is free. -/
def Disciplined : List Nat → List FreeAct → Prop
  | _, [] => True
  | l, act :: acts => (∀ a ∈ l, act ≠ .free a ∧ ∀ v, act ≠ .write a v) ∧
    Disciplined (stackStep l act).2 acts

/-- The objects that are free, from the head on. -/
inductive FreeFrom (word : Nat → Option Nat) : Option Nat → List Nat → Prop
  | nil : FreeFrom word none []
  | cons {a l} : FreeFrom word (word a) l → FreeFrom word (some a) (a :: l)

theorem FreeFrom.update {word : Nat → Option Nat} {head : Option Nat} {l : List Nat} {a : Nat}
    (h : FreeFrom word head l) (ha : a ∉ l) (v : Option Nat) :
    FreeFrom (update word a v) head l := by
  induction h with
  | nil => exact .nil
  | cons _ ih =>
    obtain ⟨hne, hl⟩ := not_or.mp (mem_cons.not.mp ha)
    refine .cons ?_
    rw [update_of_ne (Ne.symm hne)]
    exact ih hl

theorem membtFreeMem_eq (s : FreeMem) (a : Nat) :
    membtFreeMem s a = ⟨some a, update s.word a s.head⟩ := by
  unfold membtFreeMem
  split
  · next hnone => rw [hnone]
  · simp

theorem FreeFrom.step {s : FreeMem} {l : List Nat} {act : FreeAct} (h : FreeFrom s.word s.head l)
    (hact : ∀ a ∈ l, act ≠ .free a ∧ ∀ v, act ≠ .write a v) :
    (s.step act).1 = (stackStep l act).1 ∧
      FreeFrom (s.step act).2.word (s.step act).2.head (stackStep l act).2 := by
  cases act with
  | free a =>
    have hhead : FreeFrom (Function.update s.word a s.head)
        (Function.update s.word a s.head a) l := by
      rw [update_self]
      exact h.update (fun ha => (hact a ha).1 rfl) _
    rw [FreeMem.step, membtFreeMem_eq]
    exact ⟨rfl, .cons hhead⟩
  | get =>
    obtain ⟨head, word⟩ := s
    cases h with
    | nil => exact ⟨rfl, .nil⟩
    | cons h => exact ⟨rfl, h⟩
  | write a v => exact ⟨rfl, h.update (fun ha => (hact a ha).2 v rfl) _⟩

/-- The row that was loaded last under an id. -/
def lastRow (rows : List LineRow) (i : Nat) : Option LineRow := rows.reverse.find? (·.id = i)

theorem lastRow_concat (rows : List LineRow) (row : LineRow) (i : Nat) :
    lastRow (rows ++ [row]) i = if row.id = i then some row else lastRow rows i := by
  rw [lastRow, reverse_append, reverse_singleton, singleton_append, find?_cons]
  by_cases h : row.id = i
  · simp [h]
  · simp [h, lastRow]

theorem lastRow_eq_some {rows : List LineRow} {row : LineRow}
    (hids : ∀ r ∈ rows, ∀ r' ∈ rows, r.id = r'.id → r = r') {i : Nat} :
    lastRow rows i = some row ↔ row ∈ rows ∧ row.id = i := by
  refine ⟨fun h => ?_, ?_⟩
  · exact ⟨mem_reverse.mp (mem_of_find?_eq_some h), by simpa using find?_some h⟩
  · rintro ⟨hmem, rfl⟩
    obtain ⟨r, hr⟩ : ∃ r, lastRow rows row.id = some r := by
      rw [← Option.isSome_iff_exists, lastRow, find?_isSome]
      exact ⟨row, mem_reverse.mpr hmem, decide_eq_true rfl⟩
    have hr' : r ∈ rows := mem_reverse.mp (mem_of_find?_eq_some hr)
    rw [hr, hids r hr' row hmem (by simpa using find?_some hr)]

/-- What the loaded tables hold, apart from the lists. -/
structure Filled (nodes : List Nat) (rows : List LineRow) (s : Tables) : Prop where
  linePeak : s.lineList.peakCount = MAX_TOPO_LINE_COUNT
  nodesGood : ∀ n ∈ nodes, membtGood s.nodeList n
  linesGood : ∀ row ∈ rows, membtGood s.lineList row.id
  nodePos : ∀ n ∈ nodes, 0 < n
  linePos : ∀ row ∈ rows, 0 < row.id
  nodeId : ∀ n, s.nodeId n = if n ∈ nodes then n else 0
  lineId : ∀ i, s.lineId i = if (lastRow rows i).isSome then i else 0
  fromNode : ∀ i, s.fromNode i = (lastRow rows i).map LineRow.fromNode
  gotoNode : ∀ i, s.gotoNode i = (lastRow rows i).map LineRow.gotoNode

theorem filled_topoInit : Filled [] [] topoInit where
  linePeak := rfl
  nodesGood n hn := by simp at hn
  linesGood row hrow := by simp at hrow
  nodePos n hn := by simp at hn
  linePos row hrow := by simp at hrow
  nodeId n := by simp [topoInit]
  lineId i := by simp [topoInit, lastRow]
  fromNode i := by simp [topoInit, lastRow]
  gotoNode i := by simp [topoInit, lastRow]

theorem clearNode_null (n : Nat) : Links.null.clearNode n = Links.null := by
  simp [Links.clearNode, Links.null]

theorem clearLine_null (i : Nat) : Links.null.clearLine i = Links.null := by
  simp [Links.clearLine, Links.null]

/-- The tables while they are loaded: no line is in a list. -/
def Loaded (nodes : List Nat) (rows : List LineRow) (s : Tables) : Prop :=
  Filled nodes rows s ∧ s.exports = .null ∧ s.imports = .null

variable {nodes : List Nat} {rows : List LineRow} {s s' : Tables}

theorem fetchNodeCb_loaded {n : Nat} (h : Loaded nodes [] s) (hok : fetchNodeCb s n = .ok s') :
    Loaded (nodes ++ [n]) [] s' := by
  obtain ⟨hf, hexp, himp⟩ := h
  rw [fetchNodeCb] at hok
  split at hok
  · next hpos =>
    obtain ⟨nodeList, hgain, hok⟩ := bind_eq_ok.mp hok
    cases hok
    refine ⟨{ hf with nodesGood := ?_, nodePos := ?_, nodeId := ?_ }, ?_, ?_⟩
    · intro m hm
      rw [mem_append, mem_singleton] at hm
      exact membtGain_good hgain (hm.imp_left (hf.nodesGood m))
    · intro m hm
      rw [mem_append, mem_singleton] at hm
      rcases hm with hm | rfl
      · exact hf.nodePos m hm
      · exact hpos
    · intro m
      simp only [update_apply, hf.nodeId, mem_append, mem_singleton]
      by_cases hm : m = n
      · simp [hm]
      · simp [hm]
    · simp only [hexp, clearNode_null]
    · simp only [himp, clearNode_null]
  · cases hok

theorem fetchLineCb_loaded {row : LineRow} (h : Loaded nodes rows s)
    (hok : fetchLineCb s row = .ok s') : Loaded nodes (rows ++ [row]) s' := by
  obtain ⟨hf, hexp, himp⟩ := h
  rw [fetchLineCb] at hok
  obtain ⟨nodeList, hfrom, hok⟩ := bind_eq_ok.mp hok
  obtain ⟨nodeList', hgoto, hok⟩ := bind_eq_ok.mp hok
  split at hok
  · next hpos =>
    obtain ⟨lineList, hgain, hok⟩ := bind_eq_ok.mp hok
    cases hok
    refine ⟨⟨?_, ?_, ?_, hf.nodePos, ?_, hf.nodeId, ?_, ?_, ?_⟩, ?_, ?_⟩
    · obtain ⟨_, rfl⟩ := membtGain_eq_ok hgain
      exact hf.linePeak
    · intro n hn
      exact membtGain_good hgoto (.inl (membtGain_good hfrom (.inl (hf.nodesGood n hn))))
    · intro r hr
      rw [mem_append, mem_singleton] at hr
      exact membtGain_good hgain (hr.imp (hf.linesGood r) (congrArg LineRow.id))
    · intro r hr
      rw [mem_append, mem_singleton] at hr
      rcases hr with hr | rfl
      · exact hf.linePos r hr
      · exact hpos
    · intro i
      simp only [update_apply, hf.lineId, lastRow_concat]
      by_cases hi : row.id = i
      · simp [hi]
      · simp [hi, Ne.symm hi]
    · intro i
      simp only [update_apply, hf.fromNode, lastRow_concat]
      by_cases hi : row.id = i
      · simp [hi]
      · simp [hi, Ne.symm hi]
    · intro i
      simp only [update_apply, hf.gotoNode, lastRow_concat]
      by_cases hi : row.id = i
      · simp [hi]
      · simp [hi, Ne.symm hi]
    · simp only [hexp, clearLine_null]
    · simp only [himp, clearLine_null]
  · cases hok

theorem topoLoad_loaded (hok : topoLoad nodes rows = .ok s) : Loaded nodes rows s := by
  obtain ⟨s₁, hnodes, hrows⟩ := bind_eq_ok.mp hok
  have h₁ : Loaded nodes [] s₁ := foldlM_inv (I := fun ns s => Loaded ns [] s)
    (fun _ _ _ _ => fetchNodeCb_loaded) ⟨filled_topoInit, rfl, rfl⟩ hnodes
  exact foldlM_inv (I := Loaded nodes) (fun _ _ _ _ => fetchLineCb_loaded) h₁ hrows

--
-- The lists
--

/-- The links of a family thread the lists of all the nodes. -/
structure Threaded (links : Links) (lists : Nat → List Nat) : Prop where
  head : ∀ n, links.head n = (lists n).head?
  ring : ∀ n, Ring links.prev links.next (lists n)
  apart : ∀ n m i, i ∈ lists n → i ∈ lists m → n = m

theorem threaded_null : Threaded Links.null fun _ => [] where
  head _ := rfl
  ring _ := ⟨nodup_nil, by simp⟩
  apart n m i hi := by simp at hi

theorem Links.append_ok {links : Links} {lists : Nat → List Nat} {line : Nat}
    (h : Threaded links lists) (node : Nat) (hline : ∀ n, line ∉ lists n) :
    ∃ links', links.append node line = .ok links' ∧
      Threaded links' (update lists node (lists node ++ [line])) := by
  have hapart (n m i : Nat) (hn : i ∈ update lists node (lists node ++ [line]) n)
      (hm : i ∈ update lists node (lists node ++ [line]) m) : n = m := by
    grind [h.apart n m i]
  rw [Links.append, h.head]
  rcases hl : lists node with _ | ⟨head, t⟩
  · refine ⟨_, rfl, fun n => ?_, fun n => ?_, hl ▸ hapart⟩
    · by_cases hn : n = node
      · simp [hn]
      · simp [hn, h.head]
    · by_cases hn : n = node
      · rw [hn, update_self, nil_append]
        exact ring_singleton ..
      · rw [update_of_ne hn]
        have hne (i : Nat) (hi : i ∈ lists n) : i ≠ line := fun heq => hline n (heq ▸ hi)
        exact (h.ring n).congr (fun i hi => update_of_ne (hne i hi) ..)
          (fun i hi => update_of_ne (hne i hi) ..)
  · obtain ⟨last, hlast⟩ : ∃ last, (lists node).getLast? = some last :=
      ⟨_, getLast?_eq_some_getLast (hl ▸ cons_ne_nil head t)⟩
    have hhead : (lists node).head? = some head := by rw [hl, head?_cons]
    have hprev : links.prev head = some last := ((h.ring node).prev_head hhead).trans hlast
    have hhl : head ≠ line := fun heq => hline node (heq ▸ mem_of_mem_head? hhead)
    simp only [head?_cons, update_of_ne hhl, hprev]
    refine ⟨_, rfl, fun n => ?_, fun n => ?_, hl ▸ hapart⟩
    · by_cases hn : n = node
      · simp [hn, h.head, hl]
      · simp [hn, h.head]
    · by_cases hn : n = node
      · rw [hn, update_self, ← hl]
        exact (h.ring node).append (hline node) hhead hlast
      · rw [update_of_ne hn]
        -- the lines written to are the new one and two of the list of `node`
        have hne (i : Nat) (hi : i ∈ lists n) : i ≠ line ∧ i ≠ head ∧ i ≠ last := by
          refine ⟨?_, ?_, ?_⟩
          · rintro rfl
            exact hline n hi
          · rintro rfl
            exact hn (h.apart n node i hi (mem_of_mem_head? hhead))
          · rintro rfl
            exact hn (h.apart n node i hi (mem_of_getLast? hlast))
        refine (h.ring n).congr (fun i hi => ?_) (fun i hi => ?_)
        · dsimp only
          rw [update_of_ne (hne i hi).2.1, update_of_ne (hne i hi).1]
        · dsimp only
          rw [update_of_ne (hne i hi).2.2, update_of_ne (hne i hi).1]

/-- The lines below `k` whose record names node `n`. -/
def linesAt (rows : List LineRow) (side : LineRow → Nat) (k n : Nat) : List Nat :=
  (List.range k).filter fun i => (lastRow rows i).map side = some n

theorem linesAt_succ (rows : List LineRow) (side : LineRow → Nat) (k : Nat) :
    linesAt rows side (k + 1) = match lastRow rows k with
      | none => linesAt rows side k
      | some row => update (linesAt rows side k) (side row)
          (linesAt rows side k (side row) ++ [k]) := by
  funext n
  rw [linesAt, range_succ, filter_append, filter_singleton]
  rcases lastRow rows k with _ | row
  · simp [linesAt]
  · by_cases hn : n = side row
    · simp [hn, linesAt]
    · simp [hn, Ne.symm hn, linesAt]

theorem notMem_linesAt (rows : List LineRow) (side : LineRow → Nat) (k n : Nat) :
    k ∉ linesAt rows side k n := fun h =>
  Nat.lt_irrefl k (mem_range.mp (mem_of_mem_filter h))

/-- The tables when the loop of `topo_make` has come to line `k`. -/
structure Made (nodes : List Nat) (rows : List LineRow) (k : Nat) (s : Tables) : Prop where
  filled : Filled nodes rows s
  exports : Threaded s.exports (linesAt rows LineRow.fromNode k)
  imports : Threaded s.imports (linesAt rows LineRow.gotoNode k)

theorem makeStep_made {k : Nat} (h : Made nodes rows k s)
    (hids : ∀ r ∈ rows, ∀ r' ∈ rows, r.id = r'.id → r = r') :
    ∃ s', makeStep s k = .ok s' ∧ Made nodes rows (k + 1) s' := by
  obtain ⟨hf, hexp, himp⟩ := h
  rw [makeStep, hf.fromNode, hf.gotoNode, hf.lineId]
  have hfrom := linesAt_succ rows LineRow.fromNode k
  have hgoto := linesAt_succ rows LineRow.gotoNode k
  rcases hrow : lastRow rows k with _ | row
  · rw [hrow] at hfrom hgoto
    exact ⟨s, by simp, hf, hfrom ▸ hexp, hgoto ▸ himp⟩
  · rw [hrow] at hfrom hgoto
    obtain ⟨hmem, hid⟩ := (lastRow_eq_some hids).mp hrow
    have hgood : membtGood s.lineList k = true := hid ▸ hf.linesGood row hmem
    obtain ⟨exports, hexports, hexp⟩ :=
      Links.append_ok hexp row.fromNode (notMem_linesAt rows LineRow.fromNode k)
    obtain ⟨imports, himports, himp⟩ :=
      Links.append_ok himp row.gotoNode (notMem_linesAt rows LineRow.gotoNode k)
    refine ⟨{ s with exports := exports, imports := imports }, ?_, { hf with }, ?_, ?_⟩
    · simp [hgood, hexports, himports, ok_bind, pure, Except.pure]
    · exact hfrom ▸ hexp
    · exact hgoto ▸ himp

theorem topoMake_made (h : Loaded nodes rows s)
    (hids : ∀ r ∈ rows, ∀ r' ∈ rows, r.id = r'.id → r = r') :
    ∃ s', topoMake s = .ok s' ∧ Made nodes rows MAX_TOPO_LINE_COUNT s' := by
  obtain ⟨hf, hexp, himp⟩ := h
  rw [topoMake]
  generalize MAX_TOPO_LINE_COUNT = k
  induction k with
  | zero => exact ⟨s, rfl, hf, hexp ▸ threaded_null, himp ▸ threaded_null⟩
  | succ k ih =>
    obtain ⟨s₁, hs₁, hmade⟩ := ih
    obtain ⟨s', hs', hmade'⟩ := makeStep_made hmade hids
    refine ⟨s', ?_, hmade'⟩
    rw [range_succ, foldlM_append, hs₁, ok_bind, foldlM_cons, hs', ok_bind]
    rfl

--
-- The walk
--

/-- **A walk along a list** shows as much of it as there is room for. -/
theorem roadLoop_ring (lineId : Nat → Nat) {prev next : Nat → Option Nat} {head a : Nat}
    {t : List Nat} (hchain : List.IsChain (Linked prev next) (a :: t ++ [head])) (hhead : head ∉ t)
    (left : Nat) : roadLoop lineId next head left (some a) =
      .ok (decide ((a :: t).length ≤ left), ((a :: t).take left).map lineId) := by
  induction t generalizing a left with
  | nil =>
    rcases left with _ | left
    · rfl
    · have hnext : next a = some head := (isChain_pair.mp hchain).1
      simp [roadLoop, hnext]
  | cons b t ih =>
    rcases left with _ | left
    · rfl
    · rw [cons_append, cons_append, isChain_cons_cons] at hchain
      have hnext : next a = some b := hchain.1.1
      have hb : b ≠ head := fun heq => hhead (heq ▸ .head _)
      have hloop := ih hchain.2 (fun hmem => hhead (mem_cons_of_mem b hmem)) left
      rw [roadLoop, hnext, if_neg (fun heq => hb (Option.some.inj heq)), hloop, ok_bind]
      simp [pure, Except.pure]

/-- The reply to a query whose answer is `l`. -/
def listed (peak : Int) (l : List Nat) : QueryReply :=
  if l.length ≤ peak.toNat then ⟨true, l, none⟩
  else ⟨false, l.take peak.toNat, some ERROR_PEAK_IS_SMALL⟩

theorem roadList_ring {links : Links} {lists : Nat → List Nat} (h : Threaded links lists) (n : Nat)
    (hid : ∀ i ∈ lists n, s.lineId i = i) (peak : Int) :
    roadList s links peak (links.head n) = .ok (listed peak (lists n)) := by
  have hmap : (lists n).map s.lineId = lists n := by
    rw [map_congr_left hid, map_id']
  rw [h.head]
  have hring := h.ring n
  generalize lists n = l at hmap hring
  rcases l with _ | ⟨a, t⟩
  · rfl
  · have hloop := roadLoop_ring s.lineId (hring.chain a rfl)
      (nodup_cons.mp hring.nodup).1 peak.toNat
    rw [head?_cons, roadList, hloop, ok_bind, map_take, hmap, listed]
    by_cases hle : (a :: t).length ≤ peak.toNat
    · rw [if_pos hle, decide_eq_true hle, take_of_length_le hle]
      rfl
    · rw [if_neg hle, decide_eq_false hle]
      rfl

--
-- The queries of the made tables
--

/-- `l` is the ascending list of the lines of node `n`. -/
def IsRoadList (rows : List LineRow) (side : LineRow → Nat) (n : Nat) (l : List Nat) : Prop :=
  l.Pairwise (· < ·) ∧ ∀ i, i ∈ l ↔ ∃ row ∈ rows, row.id = i ∧ side row = n

theorem isRoadList_linesAt (hf : Filled nodes rows s)
    (hids : ∀ r ∈ rows, ∀ r' ∈ rows, r.id = r'.id → r = r') (side : LineRow → Nat) (n : Nat) :
    IsRoadList rows side n (linesAt rows side MAX_TOPO_LINE_COUNT n) := by
  refine ⟨(pairwise_lt_range).filter _, fun i => ?_⟩
  simp only [linesAt, mem_filter, decide_eq_true_eq, Option.map_eq_some_iff,
    lastRow_eq_some hids, mem_range]
  constructor
  · rintro ⟨-, row, ⟨hmem, hid⟩, hside⟩
    exact ⟨row, hmem, hid, hside⟩
  · rintro ⟨row, hmem, rfl, hside⟩
    refine ⟨?_, row, ⟨hmem, rfl⟩, hside⟩
    have hgood := hf.linesGood row hmem
    rw [membtGood, hf.linePeak, Bool.and_eq_true, decide_eq_true_eq] at hgood
    exact hgood.1

theorem Filled.topoPullNode (hf : Filled nodes rows s) (n : Nat) :
    topoPullNode s n = if n ∈ nodes then some n else none := by
  rw [Topo.topoPullNode, hf.nodeId]
  by_cases hn : n ∈ nodes
  · simp [hn, hf.nodesGood n hn, hf.nodePos n hn]
  · simp [hn]

theorem Filled.lineId_of_mem (hf : Filled nodes rows s) {side : LineRow → Nat} {k n i : Nat}
    (hi : i ∈ linesAt rows side k n) : s.lineId i = i := by
  obtain ⟨row, hrow, -⟩ := Option.map_eq_some_iff.mp (of_decide_eq_true (mem_filter.mp hi).2)
  rw [hf.lineId, hrow]
  rfl

/-- The queries list exactly the lines that leave or enter a node of the table of nodes,
or the nodes at the ends of a line, each once, in ascending order. A node that is not in
the table is not known, even if there are lines at it. -/
def RoadsListed (nodes : List Nat) (rows : List LineRow) (s : Tables) : Prop :=
  ∃ exports imports : Nat → List Nat,
    (∀ n, IsRoadList rows LineRow.fromNode n (exports n)) ∧
    (∀ n, IsRoadList rows LineRow.gotoNode n (imports n)) ∧
    (∀ n peak,
      getExportRoadOfNode s n peak =
        .ok (if n ∈ nodes then listed peak (exports n) else noId n) ∧
      getImportRoadOfNode s n peak =
        .ok (if n ∈ nodes then listed peak (imports n) else noId n)) ∧
    ∀ row ∈ rows, ∀ peak,
      getExportRoadByRoad s row.id peak = .ok (listed peak (exports row.gotoNode)) ∧
      getImportRoadByRoad s row.id peak = .ok (listed peak (imports row.fromNode))

/-- **The road graph.** Whatever the loaded lines are, `topo_make` ends, and the queries
list the lines. -/
theorem roads_listed (hload : topoLoad nodes rows = .ok s)
    (hids : ∀ r ∈ rows, ∀ r' ∈ rows, r.id = r'.id → r = r') :
    ∃ s', topoMake s = .ok s' ∧ RoadsListed nodes rows s' := by
  obtain ⟨s', hmake, hf, hexp, himp⟩ := topoMake_made (topoLoad_loaded hload) hids
  have hexports (n : Nat) (peak : Int) := roadList_ring hexp n (fun _ => hf.lineId_of_mem) peak
  have himports (n : Nat) (peak : Int) := roadList_ring himp n (fun _ => hf.lineId_of_mem) peak
  refine ⟨s', hmake, _, _, isRoadList_linesAt hf hids _, isRoadList_linesAt hf hids _, ?_, ?_⟩
  · intro n peak
    rw [getExportRoadOfNode, getImportRoadOfNode, hf.topoPullNode]
    by_cases hn : n ∈ nodes
    · simp only [if_pos hn]
      exact ⟨hexports n peak, himports n peak⟩
    · simp only [if_neg hn, and_self]
  · intro row hrow peak
    have hlast : lastRow rows row.id = some row := (lastRow_eq_some hids).mpr ⟨hrow, rfl⟩
    have hpull : topoPullLine s' row.id = some row.id := by
      simp [topoPullLine, hf.linesGood row hrow, hf.lineId, hlast, hf.linePos row hrow]
    simp only [getExportRoadByRoad, getImportRoadByRoad, hpull, hf.fromNode, hf.gotoNode, hlast,
      Option.map_some]
    exact ⟨hexports _ peak, himports _ peak⟩

/-- Two parallel lines and a loop. -/
theorem roads_listed_loop : ∃ s s',
    topoLoad [1, 2] [⟨3, 1, 2⟩, ⟨5, 1, 1⟩, ⟨4, 1, 2⟩] = .ok s ∧ topoMake s = .ok s' ∧
      RoadsListed [1, 2] [⟨3, 1, 2⟩, ⟨5, 1, 1⟩, ⟨4, 1, 2⟩] s' := by
  have hload : topoLoad [1, 2] [⟨3, 1, 2⟩, ⟨5, 1, 1⟩, ⟨4, 1, 2⟩] = .ok _ := rfl
  obtain ⟨s', hmake, hlisted⟩ := roads_listed hload (by decide)
  exact ⟨_, s', hload, hmake, hlisted⟩

/-- A line between nodes that are not in the table of nodes. -/
theorem not_listed_unknownNode : ∃ s s',
    topoLoad [] [⟨1, 5, 6⟩] = .ok s ∧ topoMake s = .ok s' ∧
      IsRoadList [⟨1, 5, 6⟩] LineRow.fromNode 5 [1] ∧
      ∀ peak, getExportRoadOfNode s' 5 peak = .ok (noId 5) := by
  have hload : topoLoad [] [⟨1, 5, 6⟩] = .ok _ := rfl
  obtain ⟨s', hmake, hf, -, -⟩ := topoMake_made (topoLoad_loaded hload) (by decide)
  refine ⟨_, s', hload, hmake, ⟨pairwise_singleton _ _, ?_⟩, fun peak => ?_⟩
  · intro i
    simp [eq_comm]
  · rw [getExportRoadOfNode, hf.topoPullNode]
    rfl

end Supex.Topo
