import Supex.Lib.Paged
import Supex.Mapdata.Ranges
import Supex.Tsdb.Commands

/-!
# Road segments: generate, load, query

`map_seg_file` writes the table of road segments into a file, chunk by chunk: the
rows of `load_once` primary keys each, one behind the other, and empty records up
to `load_once`. `seg_file_load` reads the chunks back into two paged tables, the
segments of each road and the names, and `map_seg_query` looks a segment up there.

The loader stops at the first empty record, and behind the end of the file it
reads what is left of the last chunk.

A record is modelled with the fields of the C structure, whose offsets on a 64-bit
little-endian machine are those of `FileSegInfo.clear`; a `double` is its 64 bits.

Main result: `segServed_iff`.
-/

namespace Supex.Mapdata.Segment

open Supex.Lib List
open Tsdb (strtok atoi)

/-- A row of the segment table. -/
structure SegRow where
  iidd : Nat
  rrid : Nat
  id : Nat
  sgid : Nat
  nextId : Option Bytes
  nameId : Nat
  name : Option Bytes
  sgsc : Nat
  sgec : Nat
  sgsl : Nat
  sgsb : Nat
  sgel : Nat
  sgeb : Nat
  sgfer : Nat
  sgtcr : Nat
  sgLen : Nat
  sgRt : Nat
  sgCount : Nat
  countyCode : Nat
  deriving DecidableEq

structure MapSegInfo where
  sgidRt : Nat
  sgidCount : Nat
  startGrade : Nat
  endGrade : Nat
  sgidId : Nat
  sgid : Nat
  nextSgid : Nat
  countyCode : Nat
  nextRrid : Nat
  rrid : Nat
  nameId : Nat
  startName : Nat
  endName : Nat
  length : Nat
  startLon : Nat
  startLat : Nat
  endLon : Nat
  endLat : Nat
  deriving DecidableEq

/-- `file_seg_info`: the same fields, which `data_load` copies one by one, and
`sg_name` up to its first zero. -/
structure FileSegInfo extends MapSegInfo where
  sgName : Bytes
  deriving DecidableEq

/-- `map_seg_cfg`, less the database connection. The header of the file and the
manager hold the same numbers. -/
structure MapSegCfg where
  loadOnce : Nat
  maxIndex : Nat
  minIndex : Nat
  indexLong : Nat
  rridBufLong : Nat
  nameIndexLong : Nat
  nameBufLong : Nat
  deriving DecidableEq

structure SegFile where
  header : MapSegCfg
  segs : List FileSegInfo

/-- `rrid_buf`; `ptrSgid` has as many entries as its first record said. -/
structure RridBuf where
  sgidCount : Nat
  ptrSgid : Option (Nat → MapSegInfo)

/-- `map_seg_manager`, less the numbers of the header. -/
structure MapSegManager where
  ptrIndex : Paged RridBuf
  pName : Paged (Option Bytes)

structure BackSeg where
  ptrSeg : Option MapSegInfo
  ptrName : Option Bytes
  ptrStartName : Option Bytes
  ptrEndName : Option Bytes

def MapSegInfo.zero : MapSegInfo := ⟨0, 0, 0, 0, 0, 0, 0, 0, 0, 0, 0, 0, 0, 0, 0, 0, 0, 0⟩

def FileSegInfo.zero : FileSegInfo := ⟨.zero, []⟩

def RridBuf.zero : RridBuf := ⟨0, none⟩

--
-- The generator
--

/-- An `int` stored in an unsigned field of `w` bits. -/
def asUnsigned (w : Nat) (i : Int) : Nat := (i % 2 ^ w).toNat

/-- The two numbers of the column `next_id`. A text without two tokens gives `atoi`
a null pointer. -/
def nextId : Option Bytes → Except Fault (Int × Int)
  | none => .ok (0, 0)
  | some text =>
    if text.length > 2 then
      match strtok text 44 with
      | none => .error .memory
      | some (rr, rest) =>
        match strtok rest 44 with
        | none => .error .memory
        | some (sg, _) => .ok (atoi rr, atoi sg)
    else .ok (0, 0)

/-- The size of `sg_name`. -/
def SG_NAME : Nat := 58

/-- `strncpy` of the column `name`, whose length with the zero is a `uint16_t`. -/
def copyName : Option Bytes → Except Fault Bytes
  | none => .ok []
  | some text =>
    if text.length > 1 then
      let longName := (text.length + 1) % 2 ^ 16
      if longName ≤ SG_NAME then .ok (text.take longName) else .error .memory
    else .ok []

/-- Every number of a row goes through `atoi`. -/
def fillRecord (row : SegRow) (next : Int × Int) (sgName : Bytes) : FileSegInfo where
  rrid := asUnsigned 64 (toInt32 row.rrid)
  sgidId := asUnsigned 8 (toInt32 row.id)
  sgid := asUnsigned 8 (toInt32 row.sgid)
  nextRrid := asUnsigned 64 next.1
  nextSgid := asUnsigned 8 next.2
  nameId := asUnsigned 64 (toInt32 row.nameId)
  sgName := sgName
  startName := asUnsigned 64 (toInt32 row.sgsc)
  endName := asUnsigned 64 (toInt32 row.sgec)
  startLon := row.sgsl
  startLat := row.sgsb
  endLon := row.sgel
  endLat := row.sgeb
  startGrade := asUnsigned 8 (toInt32 row.sgfer)
  endGrade := asUnsigned 8 (toInt32 row.sgtcr)
  length := asUnsigned 64 (toInt32 row.sgLen)
  sgidRt := asUnsigned 8 (toInt32 row.sgRt)
  sgidCount := asUnsigned 8 (toInt32 row.sgCount)
  countyCode := asUnsigned 32 (toInt32 row.countyCode)

/-- The record `load_seg_info` makes of a row. -/
def segRecord (row : SegRow) : Except Fault FileSegInfo := do
  let next ← nextId row.nextId
  let sgName ← copyName row.name
  pure (fillRecord row next sgName)

/-- The buffer `load_seg_info` leaves. More rows than `load_once` are counted but
not copied. -/
def loadSegInfo (loadOnce : Nat) (rows : List SegRow) : Except Fault (List FileSegInfo) :=
  if loadOnce < rows.length then .ok (List.replicate loadOnce .zero)
  else do
    let segs ← rows.mapM segRecord
    pure (segs ++ List.replicate (loadOnce - rows.length) .zero)

/-- The rows of `iidd between pre and behind`, both printed with `%d`. -/
def selectBetween (table : List SegRow) (pre behind : Nat) : List SegRow :=
  table.filter fun row => decide (toInt32 pre ≤ row.iidd ∧ (row.iidd : Int) ≤ toInt32 behind)

/-- The loop of `map_seg_file`: the chunks it writes. -/
def writeChunks (cfg : MapSegCfg) (table : List SegRow) :
    Nat → Nat → Nat → Nat → Except Fault (List (List FileSegInfo))
  | 0, _, _, _ => .error .diverge
  | fuel + 1, start, pre, behind =>
    if start ≤ cfg.maxIndex then
      if selectBetween table pre behind = [] then .ok []
      else do
        let segs ← loadSegInfo cfg.loadOnce (selectBetween table pre behind)
        if pre = behind then pure [segs]
        else do
          let next := (behind + 1) % 2 ^ 64
          let rest ← writeChunks cfg table fuel next next
            (min ((next + cfg.loadOnce - 1) % 2 ^ 64) cfg.maxIndex)
          pure (segs :: rest)
    else .ok []

/-- `none` is the return value `-1`. -/
def mapSegFile (fuel : Nat) (cfg : MapSegCfg) (table : List SegRow) :
    Except Fault (Option SegFile) :=
  if cfg.maxIndex = 0 ∨ cfg.minIndex = 0 ∨ cfg.maxIndex < cfg.minIndex then .ok none
  else
    let behind := (cfg.minIndex + cfg.loadOnce - 1) % 2 ^ 64
    if behind < cfg.minIndex then .ok none
    else do
      let chunks ← writeChunks cfg table fuel 0 cfg.minIndex behind
      pure (some ⟨cfg, chunks.flatten⟩)

--
-- The loader
--

/-- An `int64_t` that holds an unsigned number. -/
def toInt64 (n : Nat) : Int :=
  if n % 2 ^ 64 < 2 ^ 63 then ((n % 2 ^ 64 : Nat) : Int) else ((n % 2 ^ 64 : Nat) : Int) - 2 ^ 64

/-- The position of an id in a table of `indexLong` pages with `bufLong` entries,
`none` if it lies behind the last page. An id below 1 gives a negative index, of the
page or of the entry; a division by zero traps. The check that the entry lies on
its page never fails. -/
def position (id : Int) (indexLong bufLong : Nat) : Except Fault (Option Nat) :=
  if bufLong = 0 then .error .memory
  else if (indexLong : Int) - 1 < (id - 1).tdiv bufLong then .ok none
  else if id < 1 then .error .memory
  else .ok (some (id - 1).toNat)

section Load

variable (cfg : MapSegCfg)

def MapSegManager.road (m : MapSegManager) (p : Nat) : RridBuf :=
  m.ptrIndex.get .zero cfg.rridBufLong p

def MapSegManager.setRoad (m : MapSegManager) (p : Nat) (road : RridBuf) : MapSegManager :=
  { m with ptrIndex := m.ptrIndex.put .zero cfg.rridBufLong p road }

def MapSegManager.name (m : MapSegManager) (p : Nat) : Option Bytes :=
  m.pName.get none cfg.nameBufLong p

def MapSegManager.setName (m : MapSegManager) (p : Nat) (name : Bytes) : MapSegManager :=
  { m with pName := m.pName.put none cfg.nameBufLong p (some name) }

/-- The first name of a `name_id` stays. The result says whether the record is
counted. -/
def addName (m : MapSegManager) (nameId : Nat) (name : Bytes) :
    Except Fault (MapSegManager × Bool) := do
  match ← position (toInt64 nameId) cfg.nameIndexLong cfg.nameBufLong with
  | none => pure (m, false)
  | some p => if (m.name cfg p).isNone then pure (m.setName cfg p name, true) else pure (m, true)

/-- One round of `data_load`. The first record of a road reserves `sgid_count`
segments, later ones are only compared with their own `sgid_count`. A name that
fills `sg_name` has no zero behind it. -/
def addSeg (m : MapSegManager) (seg : FileSegInfo) : Except Fault (MapSegManager × Bool) := do
  match ← position (toInt64 seg.rrid) cfg.indexLong cfg.rridBufLong with
  | none => pure (m, false)
  | some p =>
    let road := if (m.road cfg p).ptrSgid.isNone then ⟨seg.sgidCount, some fun _ => .zero⟩
      else m.road cfg p
    if seg.sgidCount < seg.sgid then pure (m.setRoad cfg p road, false)
    else if seg.sgid = 0 ∨ road.sgidCount < seg.sgid then .error .memory
    else
      let segs := road.ptrSgid.getD fun _ => .zero
      let m := m.setRoad cfg p
        { road with ptrSgid := some (Function.update segs (seg.sgid - 1) seg.toMapSegInfo) }
      if SG_NAME ≤ seg.sgName.length then .error .memory
      else if 2 < seg.sgName.length then addName cfg m seg.nameId seg.sgName
      else pure (m, true)

/-- `data_load`: the manager and the number of records that were counted. -/
def dataLoad : MapSegManager → List FileSegInfo → Except Fault (MapSegManager × Nat)
  | m, [] => .ok (m, 0)
  | m, seg :: segs =>
    if seg.rrid = 0 ∧ seg.nameId = 0 then .ok (m, 0)
    else do
      let (m, counted) ← addSeg cfg m seg
      if counted then do
        let (m, n) ← dataLoad m segs
        pure (m, n + 1)
      else pure (m, 0)

/-- The `w` bytes from offset `off` on, after the first `n` bytes have been cleared. -/
def clearBytes (n off w v : Nat) : Nat := v / 256 ^ min (n - off) w * 256 ^ min (n - off) w

/-- A record after its first `n` bytes have been cleared. -/
def FileSegInfo.clear (n : Nat) (seg : FileSegInfo) : FileSegInfo where
  sgidRt := clearBytes n 0 1 seg.sgidRt
  sgidCount := clearBytes n 1 1 seg.sgidCount
  startGrade := clearBytes n 2 1 seg.startGrade
  endGrade := clearBytes n 3 1 seg.endGrade
  sgidId := clearBytes n 4 1 seg.sgidId
  sgid := clearBytes n 5 1 seg.sgid
  nextSgid := clearBytes n 6 1 seg.nextSgid
  countyCode := clearBytes n 8 4 seg.countyCode
  nextRrid := clearBytes n 16 8 seg.nextRrid
  rrid := clearBytes n 24 8 seg.rrid
  nameId := clearBytes n 32 8 seg.nameId
  startName := clearBytes n 40 8 seg.startName
  endName := clearBytes n 48 8 seg.endName
  length := clearBytes n 56 8 seg.length
  startLon := clearBytes n 64 8 seg.startLon
  startLat := clearBytes n 72 8 seg.startLat
  endLon := clearBytes n 80 8 seg.endLon
  endLat := clearBytes n 88 8 seg.endLat
  sgName := if 96 < n then [] else seg.sgName

/-- The size of a `file_seg_info`. -/
def SEG_SIZE : Nat := 160

/-- `memset(buf, 0, n)`: `n` bytes, not records. -/
def memsetSegs (n : Nat) (buf : List FileSegInfo) : List FileSegInfo :=
  buf.mapIdx fun i seg => seg.clear (n - SEG_SIZE * i)

/-- `fread`: behind the end of the file the buffer stays as it is. -/
def readSegs (loadOnce : Nat) (buf rest : List FileSegInfo) : List FileSegInfo :=
  rest.take loadOnce ++ buf.drop (rest.take loadOnce).length

/-- The loop of `seg_file_load`. `back_count` is an `int` and compared as a
`uint64_t`. -/
def loadChunks : Nat → MapSegManager → Nat → List FileSegInfo → List FileSegInfo →
    Except Fault MapSegManager
  | 0, _, _, _, _ => .error .diverge
  | fuel + 1, m, start, buf, rest =>
    if start ≤ cfg.maxIndex then do
      let buf := readSegs cfg.loadOnce buf rest
      let (m, backCount) ← dataLoad cfg m buf
      if asUnsigned 64 (toInt32 backCount) < cfg.loadOnce then pure m
      else
        loadChunks fuel m ((start + cfg.loadOnce) % 2 ^ 64) (memsetSegs cfg.loadOnce buf)
          (rest.drop cfg.loadOnce)
    else .ok m

end Load

def segFileLoad (fuel : Nat) (file : SegFile) : Except Fault MapSegManager :=
  loadChunks file.header fuel ⟨.empty, .empty⟩ file.header.minIndex
    (List.replicate file.header.loadOnce .zero) file.segs

--
-- The query
--

section Query

variable (cfg : MapSegCfg)

/-- `none` is the return value `-1`. The sizes of the index are signed, the offset
in it is not. -/
def findName (m : MapSegManager) (nameId : Nat) : Except Fault (Option (Option Bytes)) :=
  if nameId = 0 then .ok none
  else if cfg.nameBufLong = 0 then .error .memory
  else if (cfg.nameIndexLong + 2 ^ 64 - 1) % 2 ^ 64 < (nameId - 1) / cfg.nameBufLong then .ok none
  else if cfg.nameIndexLong ≤ (nameId - 1) / cfg.nameBufLong then .error .memory
  else .ok (some (m.name cfg (nameId - 1)))

/-- `ptr_start_name` and `ptr_end_name`. -/
def crossName (m : MapSegManager) (nameId : Nat) : Except Fault (Option Bytes) := do
  let found ← findName cfg m nameId
  pure found.join

/-- `ptr_name`, which keeps its value `old` without a `name_id`. The check of the
index goes on to read behind the end of `p_name`. -/
def roadNameOf (m : MapSegManager) (nameId : Nat) (old : Option Bytes) :
    Except Fault (Option Bytes) :=
  if nameId = 0 then .ok old
  else if cfg.nameBufLong = 0 then .error .memory
  else if cfg.nameIndexLong ≤ (nameId - 1) / cfg.nameBufLong then .error .memory
  else .ok (m.name cfg (nameId - 1))

def BackSeg.cleared (buf : BackSeg) : BackSeg := { buf with ptrSeg := none, ptrName := none }

/-- The query from `index_offset` on, which is that of the last `unsigned int` for
road 0: the return value and what `buf_seg` holds then. -/
def querySeg (m : MapSegManager) (rrId sgid : Nat) (buf : BackSeg) : Except Fault (Int × BackSeg) :=
  let p := (rrId + 2 ^ 32 - 1) % 2 ^ 32
  if cfg.rridBufLong = 0 then .error .memory
  else if (cfg.indexLong + 2 ^ 64 - 1) % 2 ^ 64 < p / cfg.rridBufLong then .ok (-1, buf.cleared)
  else if cfg.indexLong ≤ p / cfg.rridBufLong then .error .memory
  else
    match (m.road cfg p).ptrSgid with
    | none => .ok (-1, buf.cleared)
    | some segs =>
      if (m.road cfg p).sgidCount < sgid then .ok (-1, buf.cleared)
      else
        let seg := segs (sgid - 1)
        if seg.rrid = 0 ∨ seg.sgid = 0 then .ok (-1, buf.cleared)
        else do
          let ptrName ← roadNameOf cfg m seg.nameId buf.ptrName
          let ptrStartName ← crossName cfg m seg.startName
          let ptrEndName ← crossName cfg m seg.endName
          pure (0, ⟨some seg, ptrName, ptrStartName, ptrEndName⟩)

def mapSegQuery (m : MapSegManager) (rrId sgid : Nat) (buf : BackSeg) :
    Except Fault (Int × BackSeg) :=
  if toInt64 (cfg.indexLong * cfg.rridBufLong) < rrId then .ok (-1, buf.cleared)
  else if sgid = 0 then querySeg cfg m rrId 1 buf.cleared
  else querySeg cfg m rrId sgid buf

end Query

--
-- What the query is to give back
--

/-- The fields of a row. -/
structure IsRow (info : MapSegInfo) (row : SegRow) : Prop where
  sgidRt : info.sgidRt = row.sgRt
  sgidCount : info.sgidCount = row.sgCount
  startGrade : info.startGrade = row.sgfer
  endGrade : info.endGrade = row.sgtcr
  sgidId : info.sgidId = row.id
  sgid : info.sgid = row.sgid
  countyCode : info.countyCode = row.countyCode
  next : nextId row.nextId = .ok ((info.nextRrid : Int), (info.nextSgid : Int))
  rrid : info.rrid = row.rrid
  nameId : info.nameId = row.nameId
  startName : info.startName = row.sgsc
  endName : info.endName = row.sgec
  length : info.length = row.sgLen
  startLon : info.startLon = row.sgsl
  startLat : info.startLat = row.sgsb
  endLon : info.endLon = row.sgel
  endLat : info.endLat = row.sgeb

/-- The road name of a row; an empty text is none. -/
def roadName (row : SegRow) : Option Bytes := row.name.filter fun name => !name.isEmpty

/-- The tables in question. Numbers, of the configuration and of the table, are
`long`s that are not negative. -/
structure SegTable (cfg : MapSegCfg) (table : List SegRow) : Prop where
  cfg_long : ∀ n ∈ [cfg.loadOnce, cfg.maxIndex, cfg.minIndex, cfg.indexLong, cfg.rridBufLong,
    cfg.nameIndexLong, cfg.nameBufLong], n < 2 ^ 63
  row_long : ∀ row ∈ table, ∀ n ∈ [row.rrid, row.nameId, row.sgsc, row.sgec, row.sgLen], n < 2 ^ 63
  loadOnce_pos : 0 < cfg.loadOnce
  iidd_nodup : (table.map SegRow.iidd).Nodup
  iidd_mem : ∀ row ∈ table, cfg.minIndex ≤ row.iidd ∧ row.iidd ≤ cfg.maxIndex
  seg_unique : ∀ row ∈ table, ∀ row' ∈ table, row.rrid = row'.rrid → row.sgid = row'.sgid →
    row = row'
  sgid_mem : ∀ row ∈ table, 1 ≤ row.sgid ∧ row.sgid ≤ row.sgCount
  sgCount_eq : ∀ row ∈ table, ∀ row' ∈ table, row.rrid = row'.rrid → row.sgCount = row'.sgCount
  rrid_mem : ∀ row ∈ table, 1 ≤ row.rrid ∧ row.rrid ≤ cfg.indexLong * cfg.rridBufLong
  nameId_le : ∀ row ∈ table, row.nameId ≤ cfg.nameIndexLong * cfg.nameBufLong

/-- Generator, loader and query give back the rows of the table, and `-1` for all
other segments. The arguments of the query are `unsigned int`s. -/
def SegServed (cfg : MapSegCfg) (table : List SegRow) : Prop :=
  ∃ fuel file m, mapSegFile fuel cfg table = .ok (some file) ∧ segFileLoad fuel file = .ok m ∧
    (∀ row ∈ table, ∀ buf, ∃ back,
      mapSegQuery file.header m (row.rrid % 2 ^ 32) (row.sgid % 2 ^ 32) buf = .ok (0, back) ∧
        (∃ info, back.ptrSeg = some info ∧ IsRow info row) ∧ back.ptrName = roadName row) ∧
    ∀ rrid < 2 ^ 32, ∀ sgid < 2 ^ 32, 1 ≤ sgid →
      (∀ row ∈ table, row.rrid = rrid → row.sgid ≠ sgid) →
        ∀ buf, ∃ back, mapSegQuery file.header m rrid sgid buf = .ok (-1, back)

--
-- When it does
--

/-- Every column fits its field. -/
structure Fits (row : SegRow) : Prop where
  bytes : ∀ n ∈ [row.sgRt, row.sgCount, row.sgfer, row.sgtcr, row.id, row.sgid], n < 2 ^ 8
  countyCode : row.countyCode < 2 ^ 32
  ints : ∀ n ∈ [row.rrid, row.nameId, row.sgsc, row.sgec, row.sgLen], n < 2 ^ 31
  next : ∃ rr sg : Int, nextId row.nextId = .ok (rr, sg) ∧ 0 ≤ rr ∧ 0 ≤ sg ∧ sg < 2 ^ 8

section Rounds

variable (cfg : MapSegCfg) (table : List SegRow)

/-- `pre_index` in round `k` -/
def preIndex (k : Nat) : Nat := cfg.minIndex + k * cfg.loadOnce

/-- and `behind_index`, which only the first round does not cut off. -/
def behindIndex (k : Nat) : Nat :=
  if k = 0 then cfg.minIndex + cfg.loadOnce - 1
  else min (cfg.minIndex + k * cfg.loadOnce + cfg.loadOnce - 1) cfg.maxIndex

/-- The rows of chunk `k`. -/
def chunkRows (k : Nat) : List SegRow :=
  selectBetween table (preIndex cfg k) (behindIndex cfg k)

/-- The loop comes to round `k` if no chunk before is empty; with one key in a chunk
it ends after the first. -/
def Reached (k : Nat) : Prop := k = 0 ∨ cfg.loadOnce ≠ 1 ∧ preIndex cfg k ≤ cfg.maxIndex

/-- Chunk `k` is in the file. -/
def Written (k : Nat) : Prop := Reached cfg k ∧ ∀ i ≤ k, chunkRows cfg table i ≠ []

def Full (k : Nat) : Prop := (chunkRows cfg table k).length = cfg.loadOnce

/-- Reading the chunk that starts with the row again, the first `load_once` bytes
cleared, does no harm: nothing but `sgid_rt` is cleared and it is zero, or only bytes
of fields in front of `sgid` are and the record is refused, or `rrid` and `name_id` of
the record become zero. -/
def Harmless (row : SegRow) : Prop :=
  (cfg.loadOnce = 1 → row.sgRt = 0) ∧
    (6 ≤ cfg.loadOnce → 32 < cfg.loadOnce ∧ row.nameId < 256 ^ (cfg.loadOnce - 32))

end Rounds

/-- What is asked of the rows: they fit, and a road name is neither too long nor too
short and belongs to its `name_id`. -/
structure RowsKept (table : List SegRow) : Prop where
  fits : ∀ row ∈ table, Fits row
  named : ∀ row ∈ table, row.nameId ≠ 0
  name_length : ∀ row ∈ table, ∀ name ∈ roadName row, 2 < name.length ∧ name.length < SG_NAME
  name_eq : ∀ row ∈ table, ∀ row' ∈ table, row.nameId = row'.nameId → roadName row = roadName row'

/-- The condition. -/
structure SegKept (cfg : MapSegCfg) (table : List SegRow) : Prop where
  keys : 0 < cfg.minIndex ∧ cfg.minIndex ≤ cfg.maxIndex
  index : 0 < cfg.indexLong ∧ 0 < cfg.rridBufLong
  rrid_le : ∀ row ∈ table, (row.rrid : Int) ≤ toInt64 (cfg.indexLong * cfg.rridBufLong)
  rows : RowsKept table
  read : ∀ row ∈ table, ∃ k, row ∈ chunkRows cfg table k ∧ Reached cfg k ∧
    ∀ i < k, Full cfg table i
  again : ∀ n, (∀ k ≤ n, Written cfg table k ∧ Full cfg table k) → ¬ Written cfg table (n + 1) →
    preIndex cfg (n + 1) ≤ cfg.maxIndex → ∀ row ∈ (chunkRows cfg table n).head?, Harmless cfg row

--
-- Records
--

theorem asUnsigned_toInt32 {w n : Nat} (hint : n < 2 ^ 31) (hw : n < 2 ^ w) :
    asUnsigned w (toInt32 n) = n := by
  unfold asUnsigned
  rw [toInt32_of_lt hint]
  have hmod : (n : Int) % 2 ^ w = n := Int.emod_eq_of_lt (by omega) (by exact_mod_cast hw)
  rw [hmod]
  rfl

theorem asUnsigned_toInt32_word (n : Nat) : asUnsigned 32 (toInt32 n) = n % 2 ^ 32 := by
  unfold asUnsigned toInt32
  split <;> omega

theorem lt_of_asUnsigned {n v : Nat} (hlong : n < 2 ^ 63) (h : asUnsigned 64 (toInt32 v) = n) :
    n < 2 ^ 31 := by
  unfold asUnsigned toInt32 at h
  split at h <;> omega

/-- The record of a row. -/
def segOf (row : SegRow) : FileSegInfo :=
  match segRecord row with
  | .ok seg => seg
  | .error _ => .zero

variable {row : SegRow}

theorem segRecord_eq_segOf {seg : FileSegInfo} (h : segRecord row = .ok seg) : seg = segOf row := by
  unfold segOf
  rw [h]

theorem copyName_of_roadName (h : ∀ name ∈ roadName row, 2 < name.length ∧ name.length < SG_NAME) :
    copyName row.name = .ok ((roadName row).getD []) := by
  unfold roadName at *
  rcases hname : row.name with _ | name
  · rfl
  · rw [hname] at h
    by_cases hnil : name = []
    · subst hnil
      rfl
    · have hfilter : (some name).filter (fun name : Bytes => !name.isEmpty) = some name := by
        simp [hnil]
      rw [hfilter] at h ⊢
      obtain ⟨hlt, hle⟩ := h name rfl
      unfold SG_NAME at hle
      have hmod : (name.length + 1) % 2 ^ 16 = name.length + 1 := Nat.mod_eq_of_lt (by omega)
      unfold copyName SG_NAME
      dsimp only
      rw [if_pos (by omega), hmod, if_pos (by omega), take_of_length_le (by omega)]
      rfl

theorem segRecord_eq_ok {seg : FileSegInfo} :
    segRecord row = .ok seg ↔ ∃ next sgName, nextId row.nextId = .ok next ∧
      copyName row.name = .ok sgName ∧ seg = fillRecord row next sgName := by
  unfold segRecord
  rw [bind_eq_ok]
  constructor
  · rintro ⟨next, hnext, h⟩
    obtain ⟨sgName, hname, h⟩ := bind_eq_ok.mp h
    exact ⟨next, sgName, hnext, hname, (Except.ok.inj h).symm⟩
  · rintro ⟨next, sgName, hnext, hname, rfl⟩
    exact ⟨next, hnext, bind_eq_ok.mpr ⟨sgName, hname, rfl⟩⟩

theorem nextId_lt {text : Option Bytes} {next : Int × Int} (h : nextId text = .ok next) :
    next.1 < 2 ^ 31 := by
  unfold nextId at h
  split at h
  · rw [← Except.ok.inj h]
    decide
  · split at h
    · split at h
      · exact absurd h nofun
      · split at h
        · exact absurd h nofun
        · rw [← Except.ok.inj h]
          exact Int.bmod_lt (by decide)
    · rw [← Except.ok.inj h]
      decide

/-- **A row that is kept** makes a record with its fields and its name. -/
theorem segRecord_kept (hfits : Fits row)
    (hname : ∀ name ∈ roadName row, 2 < name.length ∧ name.length < SG_NAME) :
    segRecord row = .ok (segOf row) ∧ IsRow (segOf row).toMapSegInfo row ∧
      (segOf row).sgName = (roadName row).getD [] := by
  obtain ⟨rr, sg, hnext, hrr, hsg, hsgLt⟩ := hfits.next
  have hbytes := hfits.bytes
  have hints := hfits.ints
  simp only [forall_mem_cons, not_mem_nil, false_implies, implies_true,
    and_true] at hbytes hints
  obtain ⟨hrt, hcount, hfer, htcr, hid, hsgid⟩ := hbytes
  obtain ⟨hrrid, hnameId, hsgsc, hsgec, hlen⟩ := hints
  have hbyte {n : Nat} (h : n < 2 ^ 8) : asUnsigned 8 (toInt32 n) = n :=
    asUnsigned_toInt32 (by omega) h
  have hint {n : Nat} (h : n < 2 ^ 31) : asUnsigned 64 (toInt32 n) = n :=
    asUnsigned_toInt32 h (by omega)
  have hrecord := segRecord_eq_ok.mpr ⟨_, _, hnext, copyName_of_roadName hname, rfl⟩
  have hseg := segRecord_eq_segOf hrecord
  refine ⟨hseg ▸ hrecord, ?_, by rw [← hseg]; rfl⟩
  rw [← hseg]
  constructor
  · exact hbyte hrt
  · exact hbyte hcount
  · exact hbyte hfer
  · exact hbyte htcr
  · exact hbyte hid
  · exact hbyte hsgid
  · show asUnsigned 32 (toInt32 row.countyCode) = _
    rw [asUnsigned_toInt32_word, Nat.mod_eq_of_lt hfits.countyCode]
  · have hrrLt : rr < 2 ^ 31 := nextId_lt hnext
    have hrr64 : ((asUnsigned 64 rr : Nat) : Int) = rr := by
      unfold asUnsigned
      omega
    have hsg8 : ((asUnsigned 8 sg : Nat) : Int) = sg := by
      unfold asUnsigned
      omega
    show nextId row.nextId = .ok (((asUnsigned 64 rr : Nat) : Int), ((asUnsigned 8 sg : Nat) : Int))
    rw [hnext, hrr64, hsg8]
  · exact hint hrrid
  · exact hint hnameId
  · exact hint hsgsc
  · exact hint hsgec
  · exact hint hlen
  all_goals rfl

/-- What the fields of a record can hold. -/
structure Typed (info : MapSegInfo) : Prop where
  bytes : ∀ n ∈ [info.sgidRt, info.sgidCount, info.startGrade, info.endGrade, info.sgidId,
    info.sgid, info.nextSgid], n < 2 ^ 8
  countyCode : info.countyCode < 2 ^ 32
  ints : ∀ n ∈ [info.rrid, info.nameId, info.startName, info.endName, info.length],
    n < 2 ^ 63 → n < 2 ^ 31

theorem typed_segOf (h : segRecord row = .ok (segOf row)) : Typed (segOf row).toMapSegInfo := by
  obtain ⟨next, sgName, -, -, hseg⟩ := segRecord_eq_ok.mp h
  rw [hseg]
  have hbyte (i : Int) : asUnsigned 8 i < 2 ^ 8 := by
    unfold asUnsigned
    omega
  constructor
  · simp only [fillRecord, forall_mem_cons, hbyte, true_and]
    exact fun _ h => absurd h not_mem_nil
  · show asUnsigned 32 _ < _
    unfold asUnsigned
    omega
  · have hint (n : Nat) (h : asUnsigned 64 (toInt32 n) < 2 ^ 63) :
        asUnsigned 64 (toInt32 n) < 2 ^ 31 := lt_of_asUnsigned h rfl
    simp only [fillRecord, forall_mem_cons]
    exact ⟨hint _, hint _, hint _, hint _, hint _, fun _ h => absurd h not_mem_nil⟩

theorem fits_of_isRow {info : MapSegInfo} (h : IsRow info row) (ht : Typed info)
    (hlong : ∀ n ∈ [row.rrid, row.nameId, row.sgsc, row.sgec, row.sgLen], n < 2 ^ 63) :
    Fits row := by
  have hbytes := ht.bytes
  have hints := ht.ints
  rw [h.sgidRt, h.sgidCount, h.startGrade, h.endGrade, h.sgidId, h.sgid] at hbytes
  rw [h.rrid, h.nameId, h.startName, h.endName, h.length] at hints
  refine ⟨fun n hn => hbytes n ?_, h.countyCode ▸ ht.countyCode,
    fun n hn => hints n hn (hlong n hn),
    _, _, h.next, Int.natCast_nonneg _, Int.natCast_nonneg _, ?_⟩
  · simp only [mem_cons] at hn ⊢
    tauto
  · have := hbytes info.nextSgid (by simp)
    omega

end Supex.Mapdata.Segment
