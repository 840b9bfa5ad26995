import Supex.Mapdata.Segment

/-!
# Road segments: what the manager holds

The tables of the loader as the query sees them: the segment in place `i` of a
road (`MapSegManager.seg`) and the name at a position (`MapSegManager.name`).

* `Holding.addSeg`, `dataLoad_kept` — the rows of a table that is kept all arrive.
* `mapSegQuery_eq_no`, `querySeg_eq_yes`, `mapSegQuery_inv` — what the query finds.

Main result: `addSeg_cases`.
-/

namespace Supex.Mapdata.Segment

open Supex.Lib List

variable {cfg : MapSegCfg} {m m' : MapSegManager}

--
-- Positions
--

theorem toInt64_of_lt {n : Nat} (h : n < 2 ^ 63) : toInt64 n = n := by
  have hmod : n % 2 ^ 64 = n := Nat.mod_eq_of_lt (by omega)
  unfold toInt64
  rw [hmod, if_pos h]

theorem position_eq_some {id : Int} {indexLong bufLong p : Nat}
    (h : position id indexLong bufLong = .ok (some p)) : id = p + 1 := by
  unfold position at h
  split at h
  · exact absurd h nofun
  · split at h
    · exact absurd (Except.ok.inj h) nofun
    · split at h
      · exact absurd h nofun
      · have hp := Option.some.inj (Except.ok.inj h)
        omega

theorem position_of_le {id indexLong bufLong : Nat} (hpos : 1 ≤ id)
    (hle : id ≤ indexLong * bufLong) :
    position id indexLong bufLong = .ok (some (id - 1)) := by
  have hbuf : bufLong ≠ 0 := by
    rintro rfl
    omega
  have hdiv : (id - 1) / bufLong < indexLong := Nat.div_lt_of_lt_mul (by rw [Nat.mul_comm]; omega)
  have htdiv : ((id : Int) - 1).tdiv bufLong = ((id - 1) / bufLong : Nat) := by
    rw [show (id : Int) - 1 = ((id - 1 : Nat) : Int) by omega]
    rfl
  unfold position
  rw [if_neg hbuf, htdiv, if_neg (by omega), if_neg (by omega)]
  congr 2
  omega

--
-- The tables
--

/-- The segment in place `i` of a road, if the query sees one. -/
def RridBuf.seg (road : RridBuf) (i : Nat) : Option MapSegInfo :=
  match road.ptrSgid with
  | none => none
  | some segs =>
    if i < road.sgidCount ∧ (segs i).rrid ≠ 0 ∧ (segs i).sgid ≠ 0 then some (segs i) else none

def MapSegManager.seg (cfg : MapSegCfg) (m : MapSegManager) (p i : Nat) : Option MapSegInfo :=
  (m.road cfg p).seg i

@[simp] theorem road_setRoad (p q : Nat) (road : RridBuf) :
    (m.setRoad cfg p road).road cfg q = if q = p then road else m.road cfg q :=
  Paged.get_put _ _ _ _

@[simp] theorem name_setName (p q : Nat) (name : Bytes) :
    (m.setName cfg p name).name cfg q = if q = p then some name else m.name cfg q :=
  Paged.get_put _ _ _ _

/-- The road a record finds: a new one is all zeros. -/
def reserved (road : RridBuf) (sgidCount : Nat) : RridBuf :=
  if road.ptrSgid.isNone then ⟨sgidCount, some fun _ => .zero⟩ else road

theorem seg_reserved (road : RridBuf) (n i : Nat) : (reserved road n).seg i = road.seg i := by
  unfold reserved RridBuf.seg
  rcases hroad : road.ptrSgid with _ | segs
  · simp [MapSegInfo.zero]
  · simp [hroad]

/-- The road after a segment has been written to it. -/
def RridBuf.write (road : RridBuf) (j : Nat) (info : MapSegInfo) : RridBuf :=
  { road with ptrSgid := some (Function.update (road.ptrSgid.getD fun _ => .zero) j info) }

theorem seg_write {road : RridBuf} {j i : Nat} {info : MapSegInfo} (hj : j < road.sgidCount)
    (hsome : road.ptrSgid.isSome) (hrrid : info.rrid ≠ 0) (hsgid : info.sgid ≠ 0) :
    (road.write j info).seg i = if i = j then some info else road.seg i := by
  obtain ⟨segs, hsegs⟩ := Option.isSome_iff_exists.mp hsome
  unfold RridBuf.write RridBuf.seg
  rw [hsegs]
  by_cases hij : i = j
  · subst hij
    simp [hj, hrrid, hsgid]
  · simp [hij]

theorem isSome_reserved (road : RridBuf) (n : Nat) : (reserved road n).ptrSgid.isSome := by
  unfold reserved
  rcases hroad : road.ptrSgid with _ | segs
  · simp
  · simp [hroad]

--
-- What a record changes
--

variable {seg : FileSegInfo} {counted : Bool}

theorem addName_views {nameId : Nat} {name : Bytes}
    (h : addName cfg m nameId name = .ok (m', counted)) :
    (∀ p, m'.road cfg p = m.road cfg p) ∧
      ∀ q, m'.name cfg q = m.name cfg q ∨ m'.name cfg q = some name := by
  obtain ⟨place, -, h⟩ := bind_eq_ok.mp h
  rcases place with _ | p
  · obtain ⟨rfl, -⟩ := Prod.mk.inj (Except.ok.inj h)
    exact ⟨fun _ => rfl, fun _ => Or.inl rfl⟩
  · dsimp only at h
    split at h
    · obtain ⟨rfl, -⟩ := Prod.mk.inj (Except.ok.inj h)
      refine ⟨fun _ => rfl, fun q => ?_⟩
      rw [name_setName]
      split
      · exact Or.inr rfl
      · exact Or.inl rfl
    · obtain ⟨rfl, -⟩ := Prod.mk.inj (Except.ok.inj h)
      exact ⟨fun _ => rfl, fun _ => Or.inl rfl⟩

/-- What happens to a record that does no harm: it is refused, and nothing that can
be seen changes, or its segment is written, and then perhaps its name. -/
theorem addSeg_cases (h : addSeg cfg m seg = .ok (m', counted)) :
    (counted = false ∧ (position (toInt64 seg.rrid) cfg.indexLong cfg.rridBufLong = .ok none ∨
          seg.sgidCount < seg.sgid) ∧
        (∀ p i, m'.seg cfg p i = m.seg cfg p i) ∧ ∀ q, m'.name cfg q = m.name cfg q) ∨
      ∃ p : Nat, toInt64 seg.rrid = p + 1 ∧ 0 < seg.sgid ∧ seg.sgid ≤ seg.sgidCount ∧
        seg.sgName.length < SG_NAME ∧
        (∀ q i, m'.seg cfg q i =
          if q = p ∧ i = seg.sgid - 1 then some seg.toMapSegInfo else m.seg cfg q i) ∧
        ∀ q, m'.name cfg q = m.name cfg q ∨
          m'.name cfg q = some seg.sgName ∧ 2 < seg.sgName.length := by
  obtain ⟨place, hplace, h⟩ := bind_eq_ok.mp h
  rcases place with _ | p
  · obtain ⟨rfl, rfl⟩ := Prod.mk.inj (Except.ok.inj h)
    exact Or.inl ⟨rfl, Or.inl hplace, fun _ _ => rfl, fun _ => rfl⟩
  · change (if seg.sgidCount < seg.sgid then
        pure (m.setRoad cfg p (reserved (m.road cfg p) seg.sgidCount), false)
      else if seg.sgid = 0 ∨ (reserved (m.road cfg p) seg.sgidCount).sgidCount < seg.sgid then
        .error .memory
      else if SG_NAME ≤ seg.sgName.length then .error .memory
      else if 2 < seg.sgName.length then
        addName cfg (m.setRoad cfg p ((reserved (m.road cfg p) seg.sgidCount).write
          (seg.sgid - 1) seg.toMapSegInfo)) seg.nameId seg.sgName
      else pure (m.setRoad cfg p ((reserved (m.road cfg p) seg.sgidCount).write
          (seg.sgid - 1) seg.toMapSegInfo), true)) = .ok (m', counted) at h
    have hid := position_eq_some hplace
    have hrrid : seg.rrid ≠ 0 := by
      intro hzero
      rw [hzero] at hid
      unfold toInt64 at hid
      omega
    split at h
    · next hrefused =>
      obtain ⟨rfl, rfl⟩ := Prod.mk.inj (Except.ok.inj h)
      refine Or.inl ⟨rfl, Or.inr hrefused, fun q i => ?_, fun _ => rfl⟩
      unfold MapSegManager.seg
      rw [road_setRoad]
      split
      · next hq => rw [seg_reserved, hq]
      · rfl
    · next hcount =>
      split at h
      · exact absurd h nofun
      · next hsgid =>
        split at h
        · exact absurd h nofun
        · next hlen =>
          obtain ⟨hpos, hle⟩ := not_or.mp hsgid
          have hwrite (q i : Nat) : (m.setRoad cfg p ((reserved (m.road cfg p) seg.sgidCount).write
              (seg.sgid - 1) seg.toMapSegInfo)).seg cfg q i =
                if q = p ∧ i = seg.sgid - 1 then some seg.toMapSegInfo else m.seg cfg q i := by
            unfold MapSegManager.seg
            rw [road_setRoad]
            by_cases hq : q = p
            · rw [if_pos hq, seg_write (by omega) (isSome_reserved _ _) hrrid hpos, seg_reserved,
                hq]
              simp
            · rw [if_neg hq, if_neg fun h => hq h.1]
          refine Or.inr ⟨p, hid, by omega, by omega, by omega, ?_⟩
          split at h
          · next hname =>
            obtain ⟨hroad, hviews⟩ := addName_views h
            refine ⟨fun q i => ?_, fun q => (hviews q).imp_right fun h => ⟨h, hname⟩⟩
            rw [← hwrite]
            unfold MapSegManager.seg
            rw [hroad]
          · obtain ⟨rfl, -⟩ := Prod.mk.inj (Except.ok.inj h)
            exact ⟨hwrite, fun _ => Or.inl rfl⟩

--
-- Everything comes from a record
--

/-- The segments the query can see are those of records of `S`, each in the place
its record names, and the names have a proper length. -/
structure Sound (cfg : MapSegCfg) (m : MapSegManager) (S : FileSegInfo → Prop) : Prop where
  seg : ∀ (p i : Nat) (info : MapSegInfo), m.seg cfg p i = some info → ∃ seg : FileSegInfo, S seg ∧
    info = seg.toMapSegInfo ∧ toInt64 seg.rrid = p + 1 ∧ seg.sgid = i + 1
  name : ∀ (q : Nat) (name : Bytes), m.name cfg q = some name →
    2 < name.length ∧ name.length < SG_NAME

variable {S : FileSegInfo → Prop}

theorem sound_empty : Sound cfg ⟨.empty, .empty⟩ S :=
  ⟨fun _ _ _ h => absurd h nofun, fun _ _ h => absurd h nofun⟩

theorem Sound.addSeg (hs : Sound cfg m S) (hS : S seg)
    (h : addSeg cfg m seg = .ok (m', counted)) : Sound cfg m' S := by
  rcases addSeg_cases h with ⟨-, -, hseg, hname⟩ | ⟨p, hid, hpos, -, hlen, hseg, hname⟩
  · refine ⟨fun p i info hi => hs.seg p i info (hseg p i ▸ hi), fun q name hq => ?_⟩
    exact hs.name q name (hname q ▸ hq)
  · constructor
    · intro q i info hi
      rw [hseg] at hi
      split at hi
      · next hat =>
        refine ⟨seg, hS, (Option.some.inj hi).symm, by rw [hid, hat.1], by omega⟩
      · exact hs.seg q i info hi
    · intro q name hq
      rcases hname q with hold | ⟨hnew, hlt⟩
      · exact hs.name q name (hold ▸ hq)
      · rw [hnew] at hq
        obtain rfl := Option.some.inj hq
        exact ⟨hlt, hlen⟩

variable {segs : List FileSegInfo}

theorem dataLoad_cons {n : Nat} (h : dataLoad cfg m (seg :: segs) = .ok (m', n)) :
    (m' = m ∧ n = 0) ∨ addSeg cfg m seg = .ok (m', false) ∧ n = 0 ∨
      ∃ m₁ k, addSeg cfg m seg = .ok (m₁, true) ∧ dataLoad cfg m₁ segs = .ok (m', k) ∧
        n = k + 1 := by
  unfold dataLoad at h
  split at h
  · obtain ⟨rfl, rfl⟩ := Prod.mk.inj (Except.ok.inj h)
    exact Or.inl ⟨rfl, rfl⟩
  · obtain ⟨⟨m₁, counted⟩, hadd, h⟩ := bind_eq_ok.mp h
    rcases counted with _ | _
    · obtain ⟨rfl, rfl⟩ := Prod.mk.inj (Except.ok.inj h)
      exact Or.inr (Or.inl ⟨hadd, rfl⟩)
    · obtain ⟨⟨m₂, k⟩, hload, h⟩ := bind_eq_ok.mp h
      obtain ⟨rfl, rfl⟩ := Prod.mk.inj (Except.ok.inj h)
      exact Or.inr (Or.inr ⟨m₁, k, hadd, hload, rfl⟩)

theorem Sound.dataLoad {n : Nat} (hs : Sound cfg m S) (hS : ∀ seg ∈ segs, S seg)
    (h : dataLoad cfg m segs = .ok (m', n)) : Sound cfg m' S := by
  induction segs generalizing m n with
  | nil =>
    obtain ⟨rfl, -⟩ := Prod.mk.inj (Except.ok.inj h)
    exact hs
  | cons seg segs ih =>
    obtain ⟨hseg, hS⟩ := forall_mem_cons.mp hS
    rcases dataLoad_cons h with ⟨rfl, -⟩ | ⟨hadd, -⟩ | ⟨m₁, k, hadd, hload, -⟩
    · exact hs
    · exact hs.addSeg hseg hadd
    · exact ih (hs.addSeg hseg hadd) hS hload

theorem dataLoad_count {z n : Nat}
    (h : dataLoad cfg m (segs ++ List.replicate z .zero) = .ok (m', n)) : n ≤ segs.length := by
  induction segs generalizing m n with
  | nil =>
    rcases z with _ | z
    · obtain ⟨-, rfl⟩ := Prod.mk.inj (Except.ok.inj h)
      exact Nat.le_refl 0
    · obtain ⟨-, rfl⟩ := Prod.mk.inj (Except.ok.inj h)
      exact Nat.le_refl 0
  | cons seg segs ih =>
    rcases dataLoad_cons h with ⟨-, rfl⟩ | ⟨-, rfl⟩ | ⟨m₁, k, -, hload, rfl⟩
    · exact Nat.zero_le _
    · exact Nat.zero_le _
    · exact Nat.succ_le_succ (ih hload)

--
-- Rows that are kept arrive
--

/-- The query finds the rows of `L`, and only them. -/
structure Shows (cfg : MapSegCfg) (m : MapSegManager) (L : List SegRow) : Prop where
  seg : ∀ row ∈ L, m.seg cfg (row.rrid - 1) (row.sgid - 1) = some (segOf row).toMapSegInfo
  only : ∀ (p i : Nat), (m.seg cfg p i).isSome → ∃ row ∈ L, row.rrid = p + 1 ∧ row.sgid = i + 1
  name : ∀ row ∈ L, m.name cfg (row.nameId - 1) = roadName row

/-- The manager holds the rows of `L`, and only them: it has reserved roads for them
and stored their names. -/
structure Holding (cfg : MapSegCfg) (m : MapSegManager) (L : List SegRow) : Prop
    extends Shows cfg m L where
  room : ∀ row ∈ L, (m.road cfg (row.rrid - 1)).sgidCount = row.sgCount
  road : ∀ p, (m.road cfg p).ptrSgid.isSome → ∃ row ∈ L, row.rrid = p + 1
  named : ∀ (q : Nat) (name : Bytes), m.name cfg q = some name →
    ∃ row ∈ L, row.nameId = q + 1 ∧ roadName row = some name

variable {table L : List SegRow} {row : SegRow}

theorem holding_empty : Holding cfg ⟨.empty, .empty⟩ [] where
  seg := nofun
  only := fun _ _ h => absurd h nofun
  room := nofun
  road := fun _ h => absurd h nofun
  name := nofun
  named := fun _ _ h => absurd h nofun

theorem Holding.congr {L' : List SegRow} (h : Holding cfg m L) (hiff : ∀ row, row ∈ L ↔ row ∈ L') :
    Holding cfg m L' where
  seg row hrow := h.seg row ((hiff row).mpr hrow)
  only p i hi := (h.only p i hi).imp fun row hrow => ⟨(hiff row).mp hrow.1, hrow.2⟩
  room row hrow := h.room row ((hiff row).mpr hrow)
  road p hp := (h.road p hp).imp fun row hrow => ⟨(hiff row).mp hrow.1, hrow.2⟩
  name row hrow := h.name row ((hiff row).mpr hrow)
  named q name hq := (h.named q name hq).imp fun row hrow => ⟨(hiff row).mp hrow.1, hrow.2⟩

theorem Holding.room_reserved (h : Holding cfg m L) (ht : SegTable cfg table)
    (hL : ∀ row ∈ L, row ∈ table) (hrow : row ∈ table) :
    (reserved (m.road cfg (row.rrid - 1)) row.sgCount).sgidCount = row.sgCount := by
  unfold reserved
  split
  · rfl
  · next hnone =>
    have hsome : (m.road cfg (row.rrid - 1)).ptrSgid.isSome := by
      simpa [Option.isSome_iff_ne_none] using hnone
    obtain ⟨row', hrow', hrrid⟩ := h.road _ hsome
    have hpos := (ht.rrid_mem row hrow).1
    have hsame : row'.rrid = row.rrid := by omega
    rw [← ht.sgCount_eq row' (hL row' hrow') row hrow hsame, ← hsame]
    exact h.room row' hrow'

theorem position_rrid (ht : SegTable cfg table) (hk : RowsKept table) (hrow : row ∈ table) :
    position (toInt64 (segOf row).rrid) cfg.indexLong cfg.rridBufLong =
      .ok (some (row.rrid - 1)) := by
  obtain ⟨-, hisRow, -⟩ := segRecord_kept (hk.fits row hrow) (hk.name_length row hrow)
  obtain ⟨hpos, hle⟩ := ht.rrid_mem row hrow
  rw [hisRow.rrid, toInt64_of_lt (ht.row_long row hrow _ (by simp))]
  exact position_of_le hpos hle

theorem position_nameId (ht : SegTable cfg table) (hk : RowsKept table) (hrow : row ∈ table) :
    position (toInt64 (segOf row).nameId) cfg.nameIndexLong cfg.nameBufLong =
      .ok (some (row.nameId - 1)) := by
  obtain ⟨-, hisRow, -⟩ := segRecord_kept (hk.fits row hrow) (hk.name_length row hrow)
  rw [hisRow.nameId, toInt64_of_lt (ht.row_long row hrow _ (by simp))]
  exact position_of_le (Nat.pos_of_ne_zero (hk.named row hrow)) (ht.nameId_le row hrow)

theorem addName_kept (ht : SegTable cfg table) (hk : RowsKept table) (hrow : row ∈ table)
    (hm : ∀ q name, m.name cfg q = some name →
      ∃ row' ∈ table, row'.nameId = q + 1 ∧ roadName row' = some name) :
    ∃ m', (if 2 < (segOf row).sgName.length then
        addName cfg m (segOf row).nameId (segOf row).sgName else .ok (m, true)) = .ok (m', true) ∧
      (∀ p, m'.road cfg p = m.road cfg p) ∧
      ∀ q, m'.name cfg q = if q = row.nameId - 1 then roadName row else m.name cfg q := by
  obtain ⟨-, -, hsgName⟩ := segRecord_kept (hk.fits row hrow) (hk.name_length row hrow)
  have hid := hk.named row hrow
  -- what is stored under this id is the name of the row
  have hold (name : Bytes) (h : m.name cfg (row.nameId - 1) = some name) :
      roadName row = some name := by
    obtain ⟨row', hrow', hnameId, hname⟩ := hm _ _ h
    rw [hk.name_eq row hrow row' hrow' (by omega), hname]
  rcases hname : roadName row with _ | name
  · rw [hsgName, hname]
    refine ⟨m, rfl, fun _ => rfl, fun q => ?_⟩
    split
    · next hq =>
      rcases hstored : m.name cfg q with _ | stored
      · rfl
      · exact absurd (hold stored (hq ▸ hstored)) (by rw [hname]; nofun)
    · rfl
  · have hlen := (hk.name_length row hrow name hname).1
    rw [hsgName, hname, Option.getD_some, if_pos hlen]
    unfold addName
    rw [position_nameId ht hk hrow, ok_bind]
    dsimp only
    split
    · refine ⟨_, rfl, fun _ => rfl, fun q => ?_⟩
      rw [name_setName]
    · next hnone =>
      have hsome : (m.name cfg (row.nameId - 1)).isSome := by
        simpa [Option.isSome_iff_ne_none] using hnone
      obtain ⟨stored, hstored⟩ := Option.isSome_iff_exists.mp hsome
      refine ⟨m, rfl, fun _ => rfl, fun q => ?_⟩
      split
      · next hq => rw [hq, hstored, ← hold stored hstored, hname]
      · rfl

/-- **A row that is kept arrives**, and changes nothing for the other rows. -/
theorem Holding.addSeg (h : Holding cfg m L) (ht : SegTable cfg table) (hk : RowsKept table)
    (hL : ∀ row ∈ L, row ∈ table) (hrow : row ∈ table) :
    ∃ m', addSeg cfg m (segOf row) = .ok (m', true) ∧ Holding cfg m' (row :: L) := by
  obtain ⟨-, hisRow, hsgName⟩ := segRecord_kept (hk.fits row hrow) (hk.name_length row hrow)
  obtain ⟨hsgidPos, hsgidLe⟩ := ht.sgid_mem row hrow
  have hrridPos := (ht.rrid_mem row hrow).1
  have hlen : ¬ SG_NAME ≤ (segOf row).sgName.length := by
    rw [hsgName]
    rcases hname : roadName row with _ | name
    · decide
    · exact Nat.not_le_of_lt (hk.name_length row hrow name hname).2
  have hroom := h.room_reserved ht hL hrow
  obtain ⟨m', hadd, hroads, hnames⟩ := addName_kept (m := m.setRoad cfg (row.rrid - 1)
      ((reserved (m.road cfg (row.rrid - 1)) (segOf row).sgidCount).write ((segOf row).sgid - 1)
        (segOf row).toMapSegInfo)) ht hk hrow fun q name hq =>
    (h.named q name hq).imp fun row' h' => ⟨hL row' h'.1, h'.2⟩
  have hok : Segment.addSeg cfg m (segOf row) = .ok (m', true) := by
    unfold Segment.addSeg
    rw [position_rrid ht hk hrow, ok_bind]
    change (if (segOf row).sgidCount < (segOf row).sgid then _
      else if (segOf row).sgid = 0 ∨
        (reserved (m.road cfg (row.rrid - 1)) (segOf row).sgidCount).sgidCount < (segOf row).sgid
        then _ else if SG_NAME ≤ (segOf row).sgName.length then _ else _) = _
    have hcount : ¬ (segOf row).sgidCount < (segOf row).sgid := by
      rw [hisRow.sgidCount, hisRow.sgid]
      omega
    have hplace : ¬ ((segOf row).sgid = 0 ∨
        (reserved (m.road cfg (row.rrid - 1)) (segOf row).sgidCount).sgidCount <
          (segOf row).sgid) := by
      rw [hisRow.sgidCount, hisRow.sgid, hroom]
      omega
    rw [if_neg hcount, if_neg hplace, if_neg hlen]
    exact hadd
  refine ⟨m', hok, ?_⟩
  have hroad (q : Nat) : m'.road cfg q = if q = row.rrid - 1 then
      (reserved (m.road cfg (row.rrid - 1)) (segOf row).sgidCount).write ((segOf row).sgid - 1)
        (segOf row).toMapSegInfo else m.road cfg q := by
    rw [hroads, road_setRoad]
  have hseg (q i : Nat) : m'.seg cfg q i = if q = row.rrid - 1 ∧ i = row.sgid - 1 then
      some (segOf row).toMapSegInfo else m.seg cfg q i := by
    rcases addSeg_cases hok with ⟨hfalse, -⟩ | ⟨p, hid, -, -, -, hviews, -⟩
    · exact absurd hfalse nofun
    · rw [hisRow.rrid, toInt64_of_lt (ht.row_long row hrow _ (by simp))] at hid
      obtain rfl : p = row.rrid - 1 := by omega
      rw [hviews, hisRow.sgid]
  refine ⟨⟨?_, ?_, ?_⟩, ?_, ?_, ?_⟩
  · intro row' hrow'
    rw [hseg]
    rcases mem_cons.mp hrow' with rfl | hrow'
    · rw [if_pos ⟨rfl, rfl⟩]
    · split
      · next hat =>
        have hpos := (ht.rrid_mem row' (hL row' hrow')).1
        have hpos' := (ht.sgid_mem row' (hL row' hrow')).1
        rw [ht.seg_unique row' (hL row' hrow') row hrow (by omega) (by omega)]
      · exact h.seg row' hrow'
  · intro q i hsome
    rw [hseg] at hsome
    split at hsome
    · exact ⟨row, .head _, by omega, by omega⟩
    · obtain ⟨row', hrow', hat⟩ := h.only q i hsome
      exact ⟨row', .tail _ hrow', hat⟩
  · intro row' hrow'
    rw [hnames]
    split
    · next hq =>
      have hmem : row' ∈ table := by
        rcases mem_cons.mp hrow' with rfl | hrow'
        · exact hrow
        · exact hL row' hrow'
      have hne := hk.named row' hmem
      have hne' := hk.named row hrow
      exact hk.name_eq row hrow row' hmem (by omega)
    · next hq =>
      rcases mem_cons.mp hrow' with rfl | hrow'
      · exact absurd rfl hq
      · exact h.name row' hrow'
  · intro row' hrow'
    rw [hroad]
    split
    · next hq =>
      have hmem : row' ∈ table := by
        rcases mem_cons.mp hrow' with rfl | hrow'
        · exact hrow
        · exact hL row' hrow'
      have hpos := (ht.rrid_mem row' hmem).1
      show (reserved _ _).sgidCount = _
      rw [hisRow.sgidCount, hroom]
      exact ht.sgCount_eq row hrow row' hmem (by omega)
    · next hq =>
      rcases mem_cons.mp hrow' with rfl | hrow'
      · exact absurd rfl hq
      · exact h.room row' hrow'
  · intro q hsome
    rw [hroad] at hsome
    split at hsome
    · exact ⟨row, .head _, by omega⟩
    · obtain ⟨row', hrow', hat⟩ := h.road q hsome
      exact ⟨row', .tail _ hrow', hat⟩
  · intro q name hq
    rw [hnames] at hq
    split at hq
    · have hne := hk.named row hrow
      exact ⟨row, .head _, by omega, hq⟩
    · obtain ⟨row', hrow', hat⟩ := h.named q name hq
      exact ⟨row', .tail _ hrow', hat⟩

theorem dataLoad_kept {rows : List SegRow} (h : Holding cfg m L) (ht : SegTable cfg table)
    (hk : RowsKept table) (hL : ∀ row ∈ L, row ∈ table) (hrows : ∀ row ∈ rows, row ∈ table)
    (z : Nat) :
    ∃ m', dataLoad cfg m (rows.map segOf ++ List.replicate z .zero) = .ok (m', rows.length) ∧
      Holding cfg m' (L ++ rows) := by
  induction rows generalizing m L with
  | nil =>
    refine ⟨m, ?_, h.congr fun row => by simp⟩
    rcases z with _ | z <;> rfl
  | cons row rows ih =>
    obtain ⟨hrow, hrows⟩ := forall_mem_cons.mp hrows
    obtain ⟨m₁, hadd, h₁⟩ := h.addSeg ht hk hL hrow
    obtain ⟨m', hload, h'⟩ := ih h₁ (forall_mem_cons.mpr ⟨hrow, hL⟩) hrows
    refine ⟨m', ?_, h'.congr fun row => by simp; tauto⟩
    obtain ⟨-, hisRow, -⟩ := segRecord_kept (hk.fits row hrow) (hk.name_length row hrow)
    have hpos := (ht.rrid_mem row hrow).1
    have hsome : ¬ ((segOf row).rrid = 0 ∧ (segOf row).nameId = 0) := by
      rw [hisRow.rrid]
      omega
    show dataLoad cfg m (segOf row :: (rows.map segOf ++ List.replicate z .zero)) = _
    unfold dataLoad
    rw [if_neg hsome, hadd, ok_bind]
    show (dataLoad cfg m₁ (rows.map segOf ++ List.replicate z .zero) >>= _) = _
    rw [hload]
    rfl

--
-- The query
--

/-- The position of a road in the query. -/
def queryPlace (rrId : Nat) : Nat := (rrId + 2 ^ 32 - 1) % 2 ^ 32

variable {rrId sgid : Nat} {buf back : BackSeg} {info : MapSegInfo}

theorem querySeg_eq_no (hindex : 0 < cfg.indexLong) (hbuf : 0 < cfg.rridBufLong)
    (hlong : cfg.indexLong < 2 ^ 63) (hpos : 1 ≤ sgid)
    (h : m.seg cfg (queryPlace rrId) (sgid - 1) = none) :
    querySeg cfg m rrId sgid buf = .ok (-1, buf.cleared) := by
  have hlast : (cfg.indexLong + 2 ^ 64 - 1) % 2 ^ 64 = cfg.indexLong - 1 := by omega
  unfold querySeg
  dsimp only
  unfold queryPlace at h
  rw [hlast, if_neg (by omega)]
  split
  · rfl
  · next hlt =>
    rw [if_neg (by omega)]
    unfold MapSegManager.seg RridBuf.seg at h
    split
    · rfl
    · next segs hsegs =>
      rw [hsegs] at h
      dsimp only at h
      split
      · rfl
      · next hcount =>
        split
        · rfl
        · next hsome =>
          rw [if_pos ⟨by omega, not_or.mp hsome⟩] at h
          exact absurd h nofun

theorem mapSegQuery_eq_no (hindex : 0 < cfg.indexLong) (hbuf : 0 < cfg.rridBufLong)
    (hlong : cfg.indexLong < 2 ^ 63) (hpos : 1 ≤ sgid)
    (h : m.seg cfg (queryPlace rrId) (sgid - 1) = none) :
    mapSegQuery cfg m rrId sgid buf = .ok (-1, buf.cleared) := by
  unfold mapSegQuery
  split
  · rfl
  · rw [if_neg (by omega)]
    exact querySeg_eq_no hindex hbuf hlong hpos h

theorem crossName_ok (m : MapSegManager) (hindex : 0 < cfg.nameIndexLong)
    (hbuf : 0 < cfg.nameBufLong) (hlong : cfg.nameIndexLong < 2 ^ 63) (nameId : Nat) :
    ∃ name, crossName cfg m nameId = .ok name := by
  have hlast : (cfg.nameIndexLong + 2 ^ 64 - 1) % 2 ^ 64 = cfg.nameIndexLong - 1 := by omega
  have hfind : ∃ found, findName cfg m nameId = .ok found := by
    unfold findName
    rw [hlast]
    split
    · exact ⟨_, rfl⟩
    · rw [if_neg (by omega)]
      split
      · exact ⟨_, rfl⟩
      · rw [if_neg (by omega)]
        exact ⟨_, rfl⟩
  obtain ⟨found, hfound⟩ := hfind
  refine ⟨found.join, ?_⟩
  unfold crossName
  rw [hfound]
  rfl

theorem querySeg_eq_yes (hindex : cfg.indexLong < 2 ^ 63) (hnameIndex : cfg.nameIndexLong < 2 ^ 63)
    (hrrId : 1 ≤ rrId) (hlt : rrId < 2 ^ 32) (hwithin : rrId ≤ cfg.indexLong * cfg.rridBufLong)
    (hsgid : 1 ≤ sgid) (h : m.seg cfg (rrId - 1) (sgid - 1) = some info) (hnameId : info.nameId ≠ 0)
    (hname : info.nameId ≤ cfg.nameIndexLong * cfg.nameBufLong) :
    ∃ back, querySeg cfg m rrId sgid buf = .ok (0, back) ∧ back.ptrSeg = some info ∧
      back.ptrName = m.name cfg (info.nameId - 1) := by
  have hplace : (rrId + 2 ^ 32 - 1) % 2 ^ 32 = rrId - 1 := by omega
  have hbuf : cfg.rridBufLong ≠ 0 := by
    intro hzero
    rw [hzero] at hwithin
    omega
  have hnameBuf : cfg.nameBufLong ≠ 0 := by
    intro hzero
    rw [hzero] at hname
    omega
  have hnamePos : 0 < cfg.nameIndexLong := by
    refine Nat.pos_of_ne_zero fun hzero => ?_
    rw [hzero] at hname
    omega
  have hdiv : (rrId - 1) / cfg.rridBufLong < cfg.indexLong :=
    Nat.div_lt_of_lt_mul (by rw [Nat.mul_comm]; omega)
  have hnameDiv : (info.nameId - 1) / cfg.nameBufLong < cfg.nameIndexLong :=
    Nat.div_lt_of_lt_mul (by rw [Nat.mul_comm]; omega)
  have hlast : ¬ (cfg.indexLong + 2 ^ 64 - 1) % 2 ^ 64 < (rrId - 1) / cfg.rridBufLong := by
    generalize (rrId - 1) / cfg.rridBufLong = d at hdiv
    omega
  have hroadName (old : Option Bytes) : roadNameOf cfg m info.nameId old =
      .ok (m.name cfg (info.nameId - 1)) := by
    unfold roadNameOf
    rw [if_neg hnameId, if_neg hnameBuf, if_neg (Nat.not_le_of_lt hnameDiv)]
  have hcross := crossName_ok m hnamePos (Nat.pos_of_ne_zero hnameBuf) hnameIndex
  obtain ⟨start, hstart⟩ := hcross info.startName
  obtain ⟨stop, hstop⟩ := hcross info.endName
  refine ⟨⟨some info, m.name cfg (info.nameId - 1), start, stop⟩, ?_, rfl, rfl⟩
  unfold querySeg
  rw [hplace, if_neg hbuf, if_neg hlast, if_neg (Nat.not_le_of_lt hdiv)]
  unfold MapSegManager.seg RridBuf.seg at h
  split
  · next hsegs =>
    rw [hsegs] at h
    exact absurd h nofun
  · next segs hsegs =>
    rw [hsegs] at h
    dsimp only at h
    split at h
    · next hsome =>
      obtain rfl := Option.some.inj h
      rw [if_neg (by omega), if_neg (not_or.mpr hsome.2), hroadName, ok_bind, hstart, ok_bind,
        hstop]
      rfl
    · exact absurd h nofun

theorem querySeg_inv (hpos : 1 ≤ sgid) (h : querySeg cfg m rrId sgid buf = .ok (0, back)) :
    ∃ info, back.ptrSeg = some info ∧ m.seg cfg (queryPlace rrId) (sgid - 1) = some info ∧
      roadNameOf cfg m info.nameId buf.ptrName = .ok back.ptrName := by
  unfold querySeg at h
  dsimp only at h
  split at h
  · exact absurd h nofun
  · split at h
    · exact absurd (Prod.mk.inj (Except.ok.inj h)).1 (by decide)
    · split at h
      · exact absurd h nofun
      · split at h
        · exact absurd (Prod.mk.inj (Except.ok.inj h)).1 (by decide)
        · next segs hsegs =>
          split at h
          · exact absurd (Prod.mk.inj (Except.ok.inj h)).1 (by decide)
          · next hcount =>
            split at h
            · exact absurd (Prod.mk.inj (Except.ok.inj h)).1 (by decide)
            · next hsome =>
              obtain ⟨name, hname, h⟩ := bind_eq_ok.mp h
              obtain ⟨start, -, h⟩ := bind_eq_ok.mp h
              obtain ⟨stop, -, h⟩ := bind_eq_ok.mp h
              obtain ⟨-, rfl⟩ := Prod.mk.inj (Except.ok.inj h)
              refine ⟨_, rfl, ?_, hname⟩
              unfold MapSegManager.seg RridBuf.seg queryPlace
              rw [hsegs]
              dsimp only
              rw [if_pos ⟨by omega, not_or.mp hsome⟩]

theorem mapSegQuery_inv (h : mapSegQuery cfg m rrId sgid buf = .ok (0, back)) :
    (rrId : Int) ≤ toInt64 (cfg.indexLong * cfg.rridBufLong) ∧
      ∃ info, back.ptrSeg = some info ∧
        m.seg cfg (queryPlace rrId) ((if sgid = 0 then 1 else sgid) - 1) = some info ∧
          (sgid ≠ 0 → roadNameOf cfg m info.nameId buf.ptrName = .ok back.ptrName) := by
  unfold mapSegQuery at h
  split at h
  · exact absurd (Prod.mk.inj (Except.ok.inj h)).1 (by decide)
  · next hreach =>
    refine ⟨by omega, ?_⟩
    by_cases hzero : sgid = 0
    · rw [if_pos hzero] at h ⊢
      obtain ⟨info, hinfo, hseg, -⟩ := querySeg_inv (by decide) h
      exact ⟨info, hinfo, hseg, absurd hzero⟩
    · rw [if_neg hzero] at h ⊢
      obtain ⟨info, hinfo, hseg, hroad⟩ := querySeg_inv (by omega) h
      exact ⟨info, hinfo, hseg, fun _ => hroad⟩

theorem roadNameOf_inv {nameId : Nat} {old name : Option Bytes}
    (h : roadNameOf cfg m nameId old = .ok name) (hold : old ≠ name) :
    nameId ≠ 0 ∧ m.name cfg (nameId - 1) = name := by
  unfold roadNameOf at h
  split at h
  · exact absurd (Except.ok.inj h) hold
  · next hne =>
    refine ⟨hne, ?_⟩
    split at h
    · exact absurd h nofun
    · split at h
      · exact absurd h nofun
      · exact Except.ok.inj h

theorem index_of_query {r : Int × BackSeg} (h : mapSegQuery cfg m 0 1 buf = .ok r) :
    0 < cfg.indexLong ∧ 0 < cfg.rridBufLong := by
  rcases Nat.eq_zero_or_pos cfg.rridBufLong with hzero | hbuf
  · unfold mapSegQuery querySeg at h
    rw [hzero] at h
    exact absurd h nofun
  · refine ⟨Nat.pos_of_ne_zero fun hzero => ?_, hbuf⟩
    have hdiv : ¬ (0 + 2 ^ 64 - 1) % 2 ^ 64 < (0 + 2 ^ 32 - 1) % 2 ^ 32 / cfg.rridBufLong := by
      have := Nat.div_le_self ((0 + 2 ^ 32 - 1) % 2 ^ 32) cfg.rridBufLong
      omega
    unfold mapSegQuery querySeg at h
    rw [hzero, Nat.zero_mul, if_neg (by decide), if_neg (by decide), if_neg (by omega),
      if_neg hdiv, if_pos (Nat.zero_le _)] at h
    exact absurd h nofun

end Supex.Mapdata.Segment
