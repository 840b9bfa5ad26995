import Supex.Mapdata.SegmentStore

/-!
# Road segments: what is served

The chunks of the generator and the rounds of the loader, and the theorem that puts
them together.

Main results: `mapSegFile_eq`, `loadChunks_reach`, `loadChunks_end`, `segServed_iff`.
-/

namespace Supex.Mapdata.Segment

open Supex.Lib List
open Nat (succ_pos mod_eq_of_lt succ_ne_zero lt_succ_self)

variable {cfg : MapSegCfg} {table : List SegRow}

--
-- Chunks
--

theorem subperm_range' {xs : List Nat} (h : xs.Nodup) {a n : Nat}
    (hxs : ∀ x ∈ xs, a ≤ x ∧ x < a + n) : xs.Subperm (List.range' a n) :=
  h.subperm fun x hx => mem_range'_1.mpr (hxs x hx)

theorem length_le_of_nodup {xs : List Nat} (h : xs.Nodup) {a n : Nat}
    (hxs : ∀ x ∈ xs, a ≤ x ∧ x < a + n) : xs.length ≤ n := by
  simpa using (subperm_range' h hxs).length_le

variable {row : SegRow}

theorem mem_chunkRows {k : Nat} : row ∈ chunkRows cfg table k ↔
    row ∈ table ∧ toInt32 (preIndex cfg k) ≤ row.iidd ∧
      (row.iidd : Int) ≤ toInt32 (behindIndex cfg k) := by
  simp [chunkRows, selectBetween]

theorem chunkRows_nodup (ht : SegTable cfg table) (k : Nat) :
    ((chunkRows cfg table k).map SegRow.iidd).Nodup :=
  ht.iidd_nodup.sublist (filter_sublist.map _)

theorem behindIndex_bounds (ht : SegTable cfg table) {k : Nat} (hk : Reached cfg k) :
    preIndex cfg k ≤ behindIndex cfg k ∧
      behindIndex cfg k ≤ preIndex cfg k + cfg.loadOnce - 1 := by
  have hpos := ht.loadOnce_pos
  unfold behindIndex preIndex at *
  rcases hk with rfl | ⟨-, hle⟩
  · rw [if_pos rfl]
    omega
  · unfold preIndex at hle
    split
    · next hzero =>
      subst hzero
      omega
    · omega

theorem chunkRows_length_le (ht : SegTable cfg table) {k : Nat} (hk : Reached cfg k) :
    (chunkRows cfg table k).length ≤ cfg.loadOnce := by
  obtain ⟨hle, hge⟩ := behindIndex_bounds ht hk
  have hpos := ht.loadOnce_pos
  rw [← length_map SegRow.iidd]
  refine length_le_of_nodup (a := (toInt32 (preIndex cfg k)).toNat) (chunkRows_nodup ht k) ?_
  intro x hx
  obtain ⟨row, hrow, rfl⟩ := mem_map.mp hx
  obtain ⟨-, hpre, hbehind⟩ := mem_chunkRows.mp hrow
  generalize preIndex cfg k = p at *
  generalize behindIndex cfg k = b at *
  unfold toInt32 at *
  split at hpre <;> split at hbehind <;> omega

theorem chunkRows_length_lt (ht : SegTable cfg table) (hmin : 0 < cfg.minIndex) (k : Nat) :
    (chunkRows cfg table k).length < 2 ^ 31 := by
  refine Nat.lt_of_le_of_lt ?_ (show 2 ^ 31 - 1 < 2 ^ 31 by decide)
  rw [← length_map SegRow.iidd]
  refine length_le_of_nodup (a := 1) (chunkRows_nodup ht k) ?_
  intro x hx
  obtain ⟨row, hrow, rfl⟩ := mem_map.mp hx
  obtain ⟨hmem, -, hbehind⟩ := mem_chunkRows.mp hrow
  have hge := (ht.iidd_mem row hmem).1
  unfold toInt32 at hbehind
  split at hbehind <;> omega

/-- The records of a chunk. -/
def chunkSegs (loadOnce : Nat) (rows : List SegRow) : List FileSegInfo :=
  rows.map segOf ++ List.replicate (loadOnce - rows.length) .zero

theorem chunkSegs_length {loadOnce : Nat} {rows : List SegRow} (h : rows.length ≤ loadOnce) :
    (chunkSegs loadOnce rows).length = loadOnce := by
  unfold chunkSegs
  rw [length_append, length_map, length_replicate]
  omega

theorem loadSegInfo_eq_ok {loadOnce : Nat} {rows : List SegRow} {segs : List FileSegInfo}
    (h : rows.length ≤ loadOnce) :
    loadSegInfo loadOnce rows = .ok segs ↔
      (∀ row ∈ rows, segRecord row = .ok (segOf row)) ∧ segs = chunkSegs loadOnce rows := by
  have hmap (ys : List FileSegInfo) : rows.mapM segRecord = .ok ys ↔
      (∀ row ∈ rows, segRecord row = .ok (segOf row)) ∧ ys = rows.map segOf := by
    rw [mapM_eq_ok]
    induction rows generalizing ys with
    | nil => simp [eq_comm]
    | cons row rows ih =>
      rcases ys with _ | ⟨y, ys⟩
      · simp
      · rw [map_cons, map_cons, List.cons.injEq, ih (by simpa using Nat.le_of_succ_le h),
          forall_mem_cons, map_cons, List.cons.injEq]
        constructor
        · rintro ⟨hrow, hrows, rfl⟩
          obtain rfl := segRecord_eq_segOf hrow
          exact ⟨⟨hrow, hrows⟩, rfl, rfl⟩
        · rintro ⟨⟨hrow, hrows⟩, rfl, rfl⟩
          exact ⟨hrow, hrows, rfl⟩
  unfold loadSegInfo
  rw [if_neg (Nat.not_lt_of_le h), bind_eq_ok]
  constructor
  · rintro ⟨ys, hys, h⟩
    obtain ⟨hrows, rfl⟩ := (hmap ys).mp hys
    exact ⟨hrows, (Except.ok.inj h).symm⟩
  · rintro ⟨hrows, rfl⟩
    exact ⟨_, (hmap _).mpr ⟨hrows, rfl⟩, rfl⟩

--
-- The rounds of the generator
--

theorem Written.of_le {k i : Nat} (h : Written cfg table k) (hi : i ≤ k) : Written cfg table i := by
  refine ⟨?_, fun j hj => h.2 j (Nat.le_trans hj hi)⟩
  rcases h.1 with rfl | ⟨hone, hle⟩
  · exact Or.inl (by omega)
  · refine Or.inr ⟨hone, Nat.le_trans ?_ hle⟩
    exact Nat.add_le_add_left (Nat.mul_le_mul_right _ hi) _

theorem exists_written (ht : SegTable cfg table) (hmin : 0 < cfg.minIndex) :
    ∃ n, ∀ k, Written cfg table k ↔ k < n := by
  classical
  have hsome : ∃ k, ¬ Written cfg table k := by
    refine ⟨cfg.maxIndex, fun h => ?_⟩
    rcases h.1 with hzero | ⟨-, hle⟩
    · obtain ⟨row, hrow⟩ := exists_mem_of_ne_nil _ (h.2 0 (Nat.zero_le _))
      have := ht.iidd_mem row (mem_chunkRows.mp hrow).1
      omega
    · unfold preIndex at hle
      have : cfg.maxIndex * 1 ≤ cfg.maxIndex * cfg.loadOnce :=
        Nat.mul_le_mul_left _ ht.loadOnce_pos
      omega
  refine ⟨Nat.find hsome, fun k => ⟨fun h => ?_, fun h => not_not.mp (Nat.find_min hsome h)⟩⟩
  by_contra hge
  exact Nat.find_spec hsome (h.of_le (Nat.le_of_not_lt hge))

/-- `start_index` in round `k`. -/
def startIndex (cfg : MapSegCfg) (k : Nat) : Nat := if k = 0 then 0 else preIndex cfg k

theorem writeChunks_past {fuel start pre behind : Nat} (h : cfg.maxIndex < start)
    (hfuel : 0 < fuel) : writeChunks cfg table fuel start pre behind = .ok [] := by
  obtain ⟨fuel, rfl⟩ : ∃ f, fuel = f + 1 := ⟨fuel - 1, by omega⟩
  unfold writeChunks
  rw [if_neg (by omega)]

theorem writeChunks_eq (ht : SegTable cfg table) {n k fuel : Nat}
    (hw : ∀ i < n, Written cfg table (k + i)) (hn : ¬ Written cfg table (k + n))
    (hprev : ∀ i < k, chunkRows cfg table i ≠ []) (hone : k = 0 ∨ cfg.loadOnce ≠ 1)
    (hfuel : n < fuel) :
    writeChunks cfg table fuel (startIndex cfg k) (preIndex cfg k) (behindIndex cfg k) =
      (List.range' k n).mapM fun i => loadSegInfo cfg.loadOnce (chunkRows cfg table i) := by
  have hpos := ht.loadOnce_pos
  have hlong := ht.cfg_long
  simp only [forall_mem_cons, not_mem_nil, false_implies, implies_true, and_true] at hlong
  obtain ⟨honceLong, hmaxLong, hminLong, -⟩ := hlong
  induction n generalizing k fuel with
  | zero =>
    obtain ⟨fuel, rfl⟩ : ∃ f, fuel = f + 1 := ⟨fuel - 1, by omega⟩
    by_cases hle : startIndex cfg k ≤ cfg.maxIndex
    · have hempty : chunkRows cfg table k = [] := by
        by_contra hne
        refine hn ⟨?_, fun i hi => ?_⟩
        · rcases Nat.eq_zero_or_pos k with rfl | hk
          · exact Or.inl rfl
          · unfold startIndex at hle
            rw [if_neg (by omega)] at hle
            exact Or.inr ⟨hone.resolve_left (by omega), hle⟩
        · rcases Nat.lt_or_eq_of_le hi with hlt | rfl
          · exact hprev i hlt
          · exact hne
      unfold chunkRows at hempty
      unfold writeChunks
      rw [if_pos hle, if_pos hempty]
      rfl
    · exact writeChunks_past (by omega) (succ_pos _)
  | succ n ih =>
    obtain ⟨fuel, rfl⟩ : ∃ f, fuel = f + 1 := ⟨fuel - 1, by omega⟩
    have hk : Written cfg table k := hw 0 (succ_pos _)
    have hrows : selectBetween table (preIndex cfg k) (behindIndex cfg k) ≠ [] :=
      hk.2 k (Nat.le_refl k)
    have hstart : startIndex cfg k ≤ cfg.maxIndex := by
      unfold startIndex
      split
      · exact Nat.zero_le _
      · next hne => exact (hk.1.resolve_left hne).2
    obtain ⟨hbehindGe, hbehindLe⟩ := behindIndex_bounds ht hk.1
    have hsucc : preIndex cfg (k + 1) = preIndex cfg k + cfg.loadOnce := by
      unfold preIndex
      rw [Nat.add_mul, Nat.one_mul, Nat.add_assoc]
    -- the last chunk
    have hlast (h : cfg.maxIndex < preIndex cfg (k + 1) ∨ cfg.loadOnce = 1) : n = 0 := by
      by_contra hne
      rcases (hw 1 (by omega)).1 with hzero | ⟨hone', hle⟩
      · omega
      · rcases h with hgt | h
        · omega
        · exact hone' h
    unfold writeChunks
    rw [if_pos hstart, if_neg hrows, range'_succ, mapM_cons]
    congr 1
    funext segs
    split
    · next hsame =>
      obtain rfl : n = 0 := by
        apply hlast
        by_cases hzero : k = 0
        · subst hzero
          unfold behindIndex at hsame
          rw [if_pos rfl] at hsame
          unfold preIndex at hsame
          exact Or.inr (by omega)
        · unfold behindIndex at hsame
          rw [if_neg hzero] at hsame
          unfold preIndex at hsame ⊢
          by_cases hlo : cfg.loadOnce = 1
          · exact Or.inr hlo
          · rw [Nat.add_mul]
            exact Or.inl (by omega)
      rfl
    · next hdiff =>
      dsimp only
      congr 1
      have hone' : cfg.loadOnce ≠ 1 := by
        rintro hlo
        rcases hone with rfl | hone
        · unfold behindIndex preIndex at hdiff
          rw [if_pos rfl] at hdiff
          omega
        · exact hone hlo
      have hbehindLt : behindIndex cfg k + 1 < 2 ^ 64 := by
        unfold behindIndex
        split <;> omega
      rw [mod_eq_of_lt hbehindLt]
      by_cases hle : preIndex cfg (k + 1) ≤ cfg.maxIndex
      · have hfull : behindIndex cfg k + 1 = preIndex cfg (k + 1) := by
          unfold behindIndex
          unfold preIndex at hle hsucc ⊢
          split
          · next hzero =>
            subst hzero
            omega
          · omega
        have hnext : behindIndex cfg (k + 1) =
          min ((preIndex cfg (k + 1) + cfg.loadOnce - 1) % 2 ^ 64)
            cfg.maxIndex := by
          rw [mod_eq_of_lt (by omega)]
          unfold behindIndex
          rw [if_neg (succ_ne_zero k)]
          rfl
        have hstart' : startIndex cfg (k + 1) = preIndex cfg (k + 1) := if_neg (succ_ne_zero k)
        rw [hfull, ← hnext]
        have hih := @ih (k + 1) fuel
          (fun i hi => by rw [show k + 1 + i = k + (i + 1) by omega]; exact hw (i + 1) (by omega))
          (by rw [show k + 1 + n = k + (n + 1) by omega]; exact hn)
          (fun i hi => hk.2 i (by omega)) (Or.inr hone') (by omega)
        rw [hstart'] at hih
        exact hih
      · obtain rfl : n = 0 := hlast (Or.inl (by omega))
        refine writeChunks_past ?_ (by omega)
        unfold behindIndex
        unfold preIndex at hle hsucc
        split
        · next hzero =>
          subst hzero
          omega
        · omega

/-- **The generator** writes the chunks of the rounds, once its fuel suffices. -/
theorem mapSegFile_eq (ht : SegTable cfg table) (hmin : 0 < cfg.minIndex)
    (hle : cfg.minIndex ≤ cfg.maxIndex) {n fuel : Nat} (hn : ∀ k, Written cfg table k ↔ k < n)
    (hfuel : n < fuel) :
    mapSegFile fuel cfg table = (do
      let chunks ← (List.range n).mapM fun i => loadSegInfo cfg.loadOnce (chunkRows cfg table i)
      pure (some ⟨cfg, chunks.flatten⟩)) := by
  have hpos := ht.loadOnce_pos
  have hminLong := ht.cfg_long cfg.minIndex (by simp)
  have honceLong := ht.cfg_long cfg.loadOnce (by simp)
  have hmod : (cfg.minIndex + cfg.loadOnce - 1) % 2 ^ 64 = behindIndex cfg 0 := by
    unfold behindIndex
    rw [if_pos rfl]
    omega
  have hbehind : ¬ behindIndex cfg 0 < cfg.minIndex := by
    unfold behindIndex
    rw [if_pos rfl]
    omega
  have hpre : preIndex cfg 0 = cfg.minIndex := by simp [preIndex]
  have hloop := @writeChunks_eq cfg table ht n 0 fuel
    (fun i hi => by rw [Nat.zero_add]; exact (hn i).mpr hi)
    (by rw [Nat.zero_add, hn]; omega) (fun i hi => absurd hi (Nat.not_lt_zero i)) (Or.inl rfl) hfuel
  rw [hpre, ← range_eq_range'] at hloop
  unfold mapSegFile
  rw [if_neg (by omega)]
  rw [hmod, if_neg hbehind]
  change (writeChunks cfg table fuel (startIndex cfg 0) cfg.minIndex (behindIndex cfg 0) >>= _) = _
  rw [hloop]

theorem writeChunks_mono {fuel start pre behind : Nat} {chunks : List (List FileSegInfo)}
    (h : writeChunks cfg table fuel start pre behind = .ok chunks) :
    writeChunks cfg table (fuel + 1) start pre behind = .ok chunks := by
  induction fuel generalizing start pre behind chunks with
  | zero => exact absurd h nofun
  | succ fuel ih =>
    unfold writeChunks at h ⊢
    split at h
    · next hle =>
      rw [if_pos hle]
      split at h
      · next hempty => rw [if_pos hempty, h]
      · next hrows =>
        rw [if_neg hrows]
        obtain ⟨segs, hsegs, h⟩ := bind_eq_ok.mp h
        rw [hsegs, ok_bind]
        split at h
        · next hsame => rw [if_pos hsame, h]
        · next hdiff =>
          rw [if_neg hdiff]
          obtain ⟨rest, hrest, h⟩ := bind_eq_ok.mp h
          dsimp only
          rw [ih hrest, ok_bind, h]
    · next hgt => rw [if_neg hgt, h]

theorem mapSegFile_mono {fuel fuel' : Nat} {file : Option SegFile}
    (h : mapSegFile fuel cfg table = .ok file) (hle : fuel ≤ fuel') :
    mapSegFile fuel' cfg table = .ok file := by
  induction hle with
  | refl => exact h
  | step _ ih =>
    unfold mapSegFile at ih ⊢
    split at ih
    · next hkeys => rw [if_pos hkeys, ih]
    · next hkeys =>
      rw [if_neg hkeys]
      dsimp only at ih ⊢
      split at ih
      · next hlt => rw [if_pos hlt, ih]
      · next hge =>
        rw [if_neg hge]
        obtain ⟨chunks, hchunks, h⟩ := bind_eq_ok.mp ih
        rw [writeChunks_mono hchunks, ok_bind, h]

theorem mapSegFile_keys {fuel : Nat} {file : SegFile}
    (h : mapSegFile fuel cfg table = .ok (some file)) :
    0 < cfg.minIndex ∧ cfg.minIndex ≤ cfg.maxIndex := by
  unfold mapSegFile at h
  split at h
  · exact absurd (Except.ok.inj h) nofun
  · omega

/-- The records from chunk `k` on, if there are `n` chunks. -/
def segsFrom (cfg : MapSegCfg) (table : List SegRow) (k n : Nat) : List FileSegInfo :=
  (List.range' k (n - k)).flatMap fun i => chunkSegs cfg.loadOnce (chunkRows cfg table i)

theorem segsFrom_succ {k n : Nat} (h : k < n) : segsFrom cfg table k n =
    chunkSegs cfg.loadOnce (chunkRows cfg table k) ++ segsFrom cfg table (k + 1) n := by
  unfold segsFrom
  obtain ⟨d, hd⟩ : ∃ d, n - k = d + 1 := ⟨n - k - 1, by omega⟩
  rw [hd, range'_succ, flatMap_cons, show n - (k + 1) = d by omega]

theorem segsFrom_self (n : Nat) : segsFrom cfg table n n = [] := by
  unfold segsFrom
  rw [Nat.sub_self]
  rfl

theorem mapSegFile_eq_ok (ht : SegTable cfg table) (hmin : 0 < cfg.minIndex)
    (hle : cfg.minIndex ≤ cfg.maxIndex) {n fuel : Nat} (hn : ∀ k, Written cfg table k ↔ k < n)
    (hfuel : n < fuel) {file : SegFile} :
    mapSegFile fuel cfg table = .ok (some file) ↔
      (∀ k < n, ∀ row ∈ chunkRows cfg table k, segRecord row = .ok (segOf row)) ∧
        file = ⟨cfg, segsFrom cfg table 0 n⟩ := by
  have hround (k : Nat) (hk : k < n) (segs : List FileSegInfo) :=
    @loadSegInfo_eq_ok cfg.loadOnce (chunkRows cfg table k) segs
      (chunkRows_length_le ht ((hn k).mpr hk).1)
  have hchunks (ks : List Nat) (hks : ∀ k ∈ ks, k < n) (chunks : List (List FileSegInfo)) :
      (ks.mapM fun i => loadSegInfo cfg.loadOnce (chunkRows cfg table i)) = .ok chunks ↔
        (∀ k ∈ ks, ∀ row ∈ chunkRows cfg table k, segRecord row = .ok (segOf row)) ∧
          chunks = ks.map fun i => chunkSegs cfg.loadOnce (chunkRows cfg table i) := by
    rw [mapM_eq_ok]
    induction ks generalizing chunks with
    | nil => simp [eq_comm]
    | cons k ks ih =>
      obtain ⟨hk, hks⟩ := forall_mem_cons.mp hks
      rcases chunks with _ | ⟨chunk, chunks⟩
      · simp
      · rw [map_cons, map_cons, List.cons.injEq, ih hks, forall_mem_cons,
          map_cons, List.cons.injEq, hround k hk]
        tauto
  rw [mapSegFile_eq ht hmin hle hn hfuel, bind_eq_ok]
  have hflat : segsFrom cfg table 0 n =
      ((List.range n).map fun i => chunkSegs cfg.loadOnce (chunkRows cfg table i)).flatten := by
    unfold segsFrom
    rw [Nat.sub_zero, ← range_eq_range', flatMap_def]
  constructor
  · rintro ⟨chunks, h, hfile⟩
    obtain ⟨hrows, rfl⟩ := (hchunks _ (fun k hk => mem_range.mp hk) _).mp h
    refine ⟨fun k hk => hrows k (mem_range.mpr hk), ?_⟩
    rw [hflat]
    exact (Option.some.inj (Except.ok.inj hfile)).symm
  · rintro ⟨hrows, rfl⟩
    refine ⟨_, (hchunks _ (fun k hk => mem_range.mp hk) _).mpr
      ⟨fun k hk => hrows k (mem_range.mp hk), rfl⟩, ?_⟩
    rw [hflat]
    rfl

--
-- The rounds of the loader
--

variable {m m' : MapSegManager} {start fuel : Nat} {buf rest : List FileSegInfo}

theorem loadChunks_mono (h : loadChunks cfg fuel m start buf rest = .ok m') :
    loadChunks cfg (fuel + 1) m start buf rest = .ok m' := by
  induction fuel generalizing m start buf rest with
  | zero => exact absurd h nofun
  | succ fuel ih =>
    unfold loadChunks at h ⊢
    split at h
    · next hle =>
      rw [if_pos hle]
      dsimp only
      obtain ⟨⟨m₁, n⟩, hload, h⟩ := bind_eq_ok.mp h
      rw [hload, ok_bind]
      dsimp only at h ⊢
      split at h
      · next hlt => rw [if_pos hlt, h]
      · next hge =>
        rw [if_neg hge]
        exact ih h
    · next hgt => rw [if_neg hgt, h]

theorem loadChunks_mono_le {fuel' : Nat} (h : loadChunks cfg fuel m start buf rest = .ok m')
    (hle : fuel ≤ fuel') : loadChunks cfg fuel' m start buf rest = .ok m' := by
  induction hle with
  | refl => exact h
  | step _ ih => exact loadChunks_mono ih

theorem loadChunks_succ {count : Nat} (hle : start ≤ cfg.maxIndex) (hcount : count < 2 ^ 31)
    (h : dataLoad cfg m (readSegs cfg.loadOnce buf rest) = .ok (m', count)) :
    loadChunks cfg (fuel + 1) m start buf rest = if count < cfg.loadOnce then .ok m' else
      loadChunks cfg fuel m' ((start + cfg.loadOnce) % 2 ^ 64)
        (memsetSegs cfg.loadOnce (readSegs cfg.loadOnce buf rest)) (rest.drop cfg.loadOnce) := by
  conv_lhs => unfold loadChunks
  rw [if_pos hle]
  dsimp only
  rw [h, ok_bind]
  rw [asUnsigned_toInt32 hcount (by omega)]
  rfl

theorem loadChunks_inv (hle : start ≤ cfg.maxIndex)
    (h : loadChunks cfg fuel m start buf rest = .ok m') :
    ∃ f m₁ count, fuel = f + 1 ∧
      dataLoad cfg m (readSegs cfg.loadOnce buf rest) = .ok (m₁, count) ∧
        (m' = m₁ ∨ ¬ asUnsigned 64 (toInt32 count) < cfg.loadOnce ∧
          loadChunks cfg f m₁ ((start + cfg.loadOnce) % 2 ^ 64)
            (memsetSegs cfg.loadOnce (readSegs cfg.loadOnce buf rest)) (rest.drop cfg.loadOnce) =
              .ok m') := by
  rcases fuel with _ | f
  · exact absurd h nofun
  · unfold loadChunks at h
    rw [if_pos hle] at h
    obtain ⟨⟨m₁, count⟩, hload, h⟩ := bind_eq_ok.mp h
    refine ⟨f, m₁, count, rfl, hload, ?_⟩
    dsimp only at h
    split at h
    · exact Or.inl (Except.ok.inj h).symm
    · next hge => exact Or.inr ⟨hge, h⟩

theorem readSegs_chunk {segs : List FileSegInfo} (hsegs : segs.length = cfg.loadOnce)
    (hbuf : buf.length = cfg.loadOnce) :
    readSegs cfg.loadOnce buf (segs ++ rest) = segs ∧ (segs ++ rest).drop cfg.loadOnce = rest := by
  have htake : (segs ++ rest).take cfg.loadOnce = segs := by
    rw [← hsegs, take_left]
  refine ⟨?_, by rw [← hsegs, drop_left]⟩
  unfold readSegs
  rw [htake, hsegs, ← hbuf, drop_length, append_nil]

theorem readSegs_nil (loadOnce : Nat) (buf : List FileSegInfo) :
    readSegs loadOnce buf [] = buf := by
  simp [readSegs]

theorem memsetSegs_length (n : Nat) (buf : List FileSegInfo) :
    (memsetSegs n buf).length = buf.length := by simp [memsetSegs]

/-- What is in the buffer before chunk `k` is read. -/
def bufAt (cfg : MapSegCfg) (table : List SegRow) (k : Nat) : List FileSegInfo :=
  if k = 0 then List.replicate cfg.loadOnce .zero
  else memsetSegs cfg.loadOnce (chunkSegs cfg.loadOnce (chunkRows cfg table (k - 1)))

/-- The loader before chunk `k`. -/
def loadFrom (cfg : MapSegCfg) (table : List SegRow) (n fuel : Nat) (m : MapSegManager) (k : Nat) :
    Except Fault MapSegManager :=
  loadChunks cfg fuel m (preIndex cfg k) (bufAt cfg table k) (segsFrom cfg table k n)

variable {n k : Nat}

theorem bufAt_length (ht : SegTable cfg table) (hw : ∀ i < k, Written cfg table i) :
    (bufAt cfg table k).length = cfg.loadOnce := by
  unfold bufAt
  split
  · rw [length_replicate]
  · next hk =>
    rw [memsetSegs_length]
    exact chunkSegs_length (chunkRows_length_le ht (hw (k - 1) (by omega)).1)

theorem segFileLoad_eq (fuel : Nat) : segFileLoad fuel ⟨cfg, segsFrom cfg table 0 n⟩ =
    loadFrom cfg table n fuel ⟨.empty, .empty⟩ 0 := by
  unfold segFileLoad loadFrom
  have hpre : preIndex cfg 0 = cfg.minIndex := by simp [preIndex]
  rw [hpre]
  rfl

theorem loadFrom_round (ht : SegTable cfg table) (hle : cfg.minIndex ≤ cfg.maxIndex)
    (hn : ∀ k, Written cfg table k ↔ k < n) (hk : k < n) :
    preIndex cfg k ≤ cfg.maxIndex ∧
      readSegs cfg.loadOnce (bufAt cfg table k) (segsFrom cfg table k n) =
        chunkSegs cfg.loadOnce (chunkRows cfg table k) ∧
      ∀ fuel m, loadChunks cfg fuel m ((preIndex cfg k + cfg.loadOnce) % 2 ^ 64)
        (memsetSegs cfg.loadOnce (chunkSegs cfg.loadOnce (chunkRows cfg table k)))
          ((segsFrom cfg table k n).drop cfg.loadOnce) = loadFrom cfg table n fuel m (k + 1) := by
  have hw := (hn k).mpr hk
  have hmaxLong := ht.cfg_long cfg.maxIndex (by simp)
  have honceLong := ht.cfg_long cfg.loadOnce (by simp)
  have hpre : preIndex cfg k ≤ cfg.maxIndex := by
    rcases hw.1 with rfl | ⟨-, h⟩
    · simpa [preIndex] using hle
    · exact h
  have hchunk := @readSegs_chunk cfg (bufAt cfg table k) (segsFrom cfg table (k + 1) n) _
    (chunkSegs_length (chunkRows_length_le ht hw.1))
    (bufAt_length ht fun i hi => (hn i).mpr (by omega))
  rw [← segsFrom_succ hk] at hchunk
  refine ⟨hpre, hchunk.1, fun fuel m => ?_⟩
  have hsucc : (preIndex cfg k + cfg.loadOnce) % 2 ^ 64 = preIndex cfg (k + 1) := by
    rw [mod_eq_of_lt (by omega)]
    unfold preIndex
    rw [Nat.add_mul, Nat.one_mul, Nat.add_assoc]
  have hbuf : bufAt cfg table (k + 1) =
      memsetSegs cfg.loadOnce (chunkSegs cfg.loadOnce (chunkRows cfg table k)) :=
    if_neg (succ_ne_zero k)
  rw [hsucc, ← hbuf, hchunk.2]
  rfl

/-- The rows of the first `k` chunks. -/
def rowsUpTo (cfg : MapSegCfg) (table : List SegRow) (k : Nat) : List SegRow :=
  (List.range k).flatMap (chunkRows cfg table)

theorem mem_rowsUpTo : row ∈ rowsUpTo cfg table k ↔ ∃ i < k, row ∈ chunkRows cfg table i := by
  simp [rowsUpTo]

theorem rowsUpTo_subset (h : row ∈ rowsUpTo cfg table k) : row ∈ table := by
  obtain ⟨i, -, hi⟩ := mem_rowsUpTo.mp h
  exact (mem_chunkRows.mp hi).1

theorem mem_rowsUpTo_succ : row ∈ rowsUpTo cfg table (k + 1) ↔
    row ∈ rowsUpTo cfg table k ++ chunkRows cfg table k := by
  rw [mem_append, mem_rowsUpTo, mem_rowsUpTo]
  constructor
  · rintro ⟨i, hi, hrow⟩
    rcases Nat.lt_succ_iff_lt_or_eq.mp hi with hlt | rfl
    · exact Or.inl ⟨i, hlt, hrow⟩
    · exact Or.inr hrow
  · rintro (⟨i, hi, hrow⟩ | hrow)
    · exact ⟨i, by omega, hrow⟩
    · exact ⟨k, by omega, hrow⟩

/-- **The loader comes to chunk `k`** with all rows before it, if the chunks before it
are full. -/
theorem loadChunks_reach (ht : SegTable cfg table) (hk : RowsKept table)
    (hmin : 0 < cfg.minIndex) (hle : cfg.minIndex ≤ cfg.maxIndex)
    (hn : ∀ k, Written cfg table k ↔ k < n) (hkn : k ≤ n) (hfull : ∀ i < k, Full cfg table i) :
    ∃ m, Holding cfg m (rowsUpTo cfg table k) ∧ ∀ fuel,
      loadFrom cfg table n (fuel + k) ⟨.empty, .empty⟩ 0 = loadFrom cfg table n fuel m k := by
  induction k with
  | zero => exact ⟨_, holding_empty, fun _ => rfl⟩
  | succ k ih =>
    obtain ⟨m, hm, hreach⟩ := ih (by omega) fun i hi => hfull i (by omega)
    obtain ⟨hpre, hread, hnext⟩ := loadFrom_round ht hle hn (k := k) (by omega)
    obtain ⟨m', hload, hm'⟩ := dataLoad_kept hm ht hk (fun row h => rowsUpTo_subset h)
      (fun row h => (mem_chunkRows.mp h).1) (cfg.loadOnce - (chunkRows cfg table k).length)
    refine ⟨m', hm'.congr fun row => mem_rowsUpTo_succ.symm, fun fuel => ?_⟩
    rw [show fuel + (k + 1) = fuel + 1 + k by omega, hreach]
    have hlen : (chunkRows cfg table k).length = cfg.loadOnce := hfull k (lt_succ_self k)
    unfold loadFrom
    rw [loadChunks_succ hpre (chunkRows_length_lt ht hmin k) (by rw [hread]; exact hload), hread,
      if_neg (by omega), hnext]
    rfl

theorem loadChunks_stop (ht : SegTable cfg table) (hk : RowsKept table)
    (hmin : 0 < cfg.minIndex) (hle : cfg.minIndex ≤ cfg.maxIndex)
    (hn : ∀ k, Written cfg table k ↔ k < n) (hkn : k < n) (hfull : ∀ i < k, Full cfg table i)
    (hnot : ¬ Full cfg table k) :
    ∃ m, Shows cfg m (rowsUpTo cfg table (k + 1)) ∧
      ∀ fuel, loadFrom cfg table n (fuel + 1 + k) ⟨.empty, .empty⟩ 0 = .ok m := by
  obtain ⟨m, hm, hreach⟩ := loadChunks_reach ht hk hmin hle hn (Nat.le_of_lt hkn) hfull
  obtain ⟨hpre, hread, -⟩ := loadFrom_round ht hle hn hkn
  obtain ⟨m', hload, hm'⟩ := dataLoad_kept hm ht hk (fun row h => rowsUpTo_subset h)
    (fun row h => (mem_chunkRows.mp h).1) (cfg.loadOnce - (chunkRows cfg table k).length)
  refine ⟨m', (hm'.congr fun row => mem_rowsUpTo_succ.symm).toShows, fun fuel => ?_⟩
  have hlen := chunkRows_length_le ht ((hn k).mpr hkn).1
  have hne : (chunkRows cfg table k).length ≠ cfg.loadOnce := hnot
  rw [hreach]
  unfold loadFrom
  rw [loadChunks_succ hpre (chunkRows_length_lt ht hmin k) (by rw [hread]; exact hload),
    if_pos (by omega)]

--
-- A record with its first bytes cleared
--

theorem clearBytes_of_le {n off w v : Nat} (h : n ≤ off) : clearBytes n off w v = v := by
  unfold clearBytes
  rw [Nat.sub_eq_zero_of_le h]
  simp

theorem clearBytes_eq_zero {n off w v : Nat} (h : off + w ≤ n) (hv : v < 256 ^ w) :
    clearBytes n off w v = 0 := by
  unfold clearBytes
  rw [Nat.min_eq_right (by omega), Nat.div_eq_of_lt hv, Nat.zero_mul]

theorem clearBytes_le (n off w v : Nat) : clearBytes n off w v ≤ v := Nat.div_mul_le_self _ _

theorem clearBytes_eq_zero_iff {n off w v : Nat} :
    clearBytes n off w v = 0 ↔ v < 256 ^ min (n - off) w := by
  unfold clearBytes
  rw [Nat.mul_eq_zero, Nat.div_eq_zero_iff]
  have hpos : 256 ^ min (n - off) w ≠ 0 := pow_ne_zero _ (by decide)
  tauto

theorem clear_one {seg : FileSegInfo} (h : seg.sgidRt < 2 ^ 8) :
    seg.clear 1 = { seg with sgidRt := 0 } := by
  have hzero : clearBytes 1 0 1 seg.sgidRt = 0 := clearBytes_eq_zero (by decide) h
  unfold FileSegInfo.clear
  rw [hzero]
  repeat rw [clearBytes_of_le (by decide)]
  rfl

theorem memsetSegs_cons (n : Nat) (seg : FileSegInfo) (segs : List FileSegInfo) :
    ∃ segs', memsetSegs n (seg :: segs) = seg.clear n :: segs' ∧ segs'.length = segs.length := by
  refine ⟨segs.mapIdx fun i seg => seg.clear (n - SEG_SIZE * (i + 1)), ?_, by simp⟩
  unfold memsetSegs
  rw [mapIdx_cons]
  rfl

theorem memsetSegs_singleton (n : Nat) (seg : FileSegInfo) :
    memsetSegs n [seg] = [seg.clear n] := by
  simp [memsetSegs]

theorem position_zero {indexLong : Nat} (h : 0 < indexLong) (bufLong : Nat) :
    position 0 indexLong bufLong = .error .memory := by
  have hdiv : (0 - 1 : Int).tdiv bufLong ≤ 0 := by
    rw [Int.zero_sub, Int.neg_tdiv]
    have := Int.tdiv_nonneg (a := 1) (b := bufLong) (by decide) (Int.natCast_nonneg _)
    omega
  unfold position
  split
  · rfl
  · rw [if_neg (by omega), if_pos (by decide)]

variable {seg : FileSegInfo} {segs : List FileSegInfo} {count : Nat}

theorem dataLoad_refused (h : dataLoad cfg m (seg :: segs) = .ok (m', count))
    (hcount : seg.sgidCount = 0) :
    count = 0 ∧ (∀ p i, m'.seg cfg p i = m.seg cfg p i) ∧ ∀ q, m'.name cfg q = m.name cfg q := by
  rcases dataLoad_cons h with ⟨rfl, rfl⟩ | ⟨hadd, rfl⟩ | ⟨m₁, k, hadd, -, -⟩
  · exact ⟨rfl, fun _ _ => rfl, fun _ => rfl⟩
  · rcases addSeg_cases hadd with ⟨-, -, hseg, hname⟩ | ⟨p, -, hpos, hle, -⟩
    · exact ⟨rfl, hseg, hname⟩
    · omega
  · rcases addSeg_cases hadd with ⟨hfalse, -⟩ | ⟨p, -, hpos, hle, -⟩
    · exact absurd hfalse nofun
    · omega

theorem dataLoad_outside (hindex : 0 < cfg.indexLong) (hsgid : seg.sgid = 0)
    (hnameId : seg.nameId ≠ 0) (hrrid : seg.rrid ≤ cfg.indexLong * cfg.rridBufLong)
    (hlt : seg.rrid < 2 ^ 63) : dataLoad cfg m (seg :: segs) = .error .memory := by
  have hadd : addSeg cfg m seg = .error .memory := by
    unfold addSeg
    rw [toInt64_of_lt hlt]
    rcases Nat.eq_zero_or_pos seg.rrid with hzero | hpos
    · rw [hzero]
      show (position 0 _ _ >>= _) = _
      rw [position_zero hindex]
      rfl
    · rw [position_of_le hpos hrrid, ok_bind]
      dsimp only
      rw [if_neg (by omega), if_pos (Or.inl hsgid)]
  unfold dataLoad
  rw [if_neg fun h => hnameId h.2, hadd]
  rfl

--
-- The end of the file
--

theorem segsFrom_end : readSegs cfg.loadOnce (bufAt cfg table n) (segsFrom cfg table n n) =
    bufAt cfg table n := by
  rw [segsFrom_self, readSegs_nil]

theorem bufAt_end (ht : SegTable cfg table) (hfull : Full cfg table n) :
    ∃ row rows segs, chunkRows cfg table n = row :: rows ∧ segs.length = rows.length ∧
      bufAt cfg table (n + 1) = (segOf row).clear cfg.loadOnce :: segs := by
  have hpos := ht.loadOnce_pos
  have hlen : (chunkRows cfg table n).length = cfg.loadOnce := hfull
  have hne : chunkRows cfg table n ≠ [] := by
    intro h
    rw [h, length_nil] at hlen
    omega
  obtain ⟨row, rows, hrows⟩ := exists_cons_of_ne_nil hne
  obtain ⟨segs, hsegs, hsegsLen⟩ := memsetSegs_cons cfg.loadOnce (segOf row) (rows.map segOf)
  refine ⟨row, rows, segs, hrows, by rw [hsegsLen, length_map], ?_⟩
  have hbuf : bufAt cfg table (n + 1) =
      memsetSegs cfg.loadOnce (chunkSegs cfg.loadOnce (chunkRows cfg table n)) :=
    if_neg (succ_ne_zero n)
  rw [hbuf, ← hsegs]
  unfold chunkSegs
  rw [hlen, Nat.sub_self, hrows]
  simp

/-- With one record in the buffer, reading it again and again keeps what one reading
keeps. -/
theorem loadChunks_again {I : MapSegManager → Prop} (hone : cfg.loadOnce = 1)
    (hclear : seg.clear 1 = seg)
    (hI : ∀ m m' counted, I m → addSeg cfg m seg = .ok (m', counted) → I m') (hm : I m)
    (h : loadChunks cfg fuel m start [seg] [] = .ok m') : I m' := by
  induction fuel generalizing m start with
  | zero => exact absurd h nofun
  | succ fuel ih =>
    by_cases hle : start ≤ cfg.maxIndex
    · obtain ⟨f, m₁, count, hf, hload, hend⟩ := loadChunks_inv hle h
      obtain rfl : f = fuel := by omega
      rw [readSegs_nil] at hload hend
      have hm₁ : I m₁ := by
        rcases dataLoad_cons hload with ⟨rfl, -⟩ | ⟨hadd, -⟩ | ⟨m₂, k, hadd, hrest, -⟩
        · exact hm
        · exact hI _ _ _ hm hadd
        · obtain ⟨rfl, -⟩ := Prod.mk.inj (Except.ok.inj hrest)
          exact hI _ _ _ hm hadd
      rcases hend with rfl | ⟨-, hnext⟩
      · exact hm₁
      · rw [memsetSegs_singleton, hone, hclear, drop_nil] at hnext
        exact ih hm₁ hnext
    · unfold loadChunks at h
      rw [if_neg hle] at h
      obtain rfl := Except.ok.inj h
      exact hm

theorem loadChunks_again_ok (ht : SegTable cfg table) (hk : RowsKept table)
    (hone : cfg.loadOnce = 1) {L : List SegRow} (hL : ∀ row ∈ L, row ∈ table) (hrow : row ∈ L)
    (hclear : (segOf row).clear 1 = segOf row) (hm : Holding cfg m L) {d : Nat}
    (hd : cfg.maxIndex + 1 ≤ start + d) :
    ∃ m', Holding cfg m' L ∧ loadChunks cfg (d + 1) m start [segOf row] [] = .ok m' := by
  have hmaxLong := ht.cfg_long cfg.maxIndex (by simp)
  induction d generalizing m start with
  | zero =>
    refine ⟨m, hm, ?_⟩
    unfold loadChunks
    rw [if_neg (by omega)]
  | succ d ih =>
    by_cases hle : start ≤ cfg.maxIndex
    · have hrows : ∀ r ∈ [row], r ∈ table := by
        intro r hr
        rw [mem_singleton.mp hr]
        exact hL row hrow
      obtain ⟨m₁, hload, hm₁⟩ := dataLoad_kept hm ht hk hL hrows 0
      have hsame : Holding cfg m₁ L := hm₁.congr fun r => by
        rw [mem_append, mem_singleton]
        exact ⟨fun h => h.elim id fun h => h ▸ hrow, Or.inl⟩
      have hd' : cfg.maxIndex + 1 ≤ start + 1 + d := by omega
      obtain ⟨m', hm', hend⟩ := ih hsame hd'
      refine ⟨m', hm', ?_⟩
      rw [loadChunks_succ hle (show 1 < 2 ^ 31 by decide) (by rw [readSegs_nil]; exact hload),
        if_neg (by omega), readSegs_nil, memsetSegs_singleton, hone, hclear,
        mod_eq_of_lt (by omega)]
      exact hend
    · refine ⟨m, hm, ?_⟩
      unfold loadChunks
      rw [if_neg hle]

/-- **The end of a file of full chunks**: reading the last one again does no harm
under the condition. -/
theorem loadChunks_end (ht : SegTable cfg table) (hk : RowsKept table)
    (hm : Holding cfg m (rowsUpTo cfg table n))
    (hfull : ∀ i < n, Full cfg table i)
    (hagain : 0 < n → preIndex cfg n ≤ cfg.maxIndex →
      ∀ row ∈ (chunkRows cfg table (n - 1)).head?, Harmless cfg row) :
    ∃ m' fuel, Shows cfg m' (rowsUpTo cfg table n) ∧ loadFrom cfg table n fuel m n = .ok m' := by
  have hpos := ht.loadOnce_pos
  unfold loadFrom
  by_cases hle : preIndex cfg n ≤ cfg.maxIndex
  · rcases Nat.eq_zero_or_pos n with rfl | hnpos
    · -- no chunk at all: the buffer is as `calloc` has left it
      refine ⟨m, 1, hm.toShows, ?_⟩
      have hload : dataLoad cfg m (bufAt cfg table 0) = .ok (m, 0) := by
        obtain ⟨d, hd⟩ : ∃ d, cfg.loadOnce = d + 1 := ⟨cfg.loadOnce - 1, by omega⟩
        unfold bufAt
        rw [if_pos rfl, hd]
        rfl
      rw [loadChunks_succ hle (show 0 < 2 ^ 31 by decide) (by rw [segsFrom_end]; exact hload),
        if_pos hpos]
    · obtain ⟨n, rfl⟩ : ∃ k, n = k + 1 := ⟨n - 1, by omega⟩
      obtain ⟨row, rows, segs, hrows, hsegs, hbuf⟩ := bufAt_end ht (hfull n (lt_succ_self n))
      have hrow : row ∈ rowsUpTo cfg table (n + 1) :=
        mem_rowsUpTo.mpr ⟨n, lt_succ_self n, by rw [hrows]; exact .head _⟩
      have hmem := rowsUpTo_subset hrow
      obtain ⟨hharm1, hharm6⟩ := hagain hnpos hle row (by rw [Nat.add_sub_cancel, hrows]; rfl)
      obtain ⟨-, hisRow, -⟩ := segRecord_kept (hk.fits row hmem) (hk.name_length row hmem)
      have hfits := hk.fits row hmem
      have hrt : (segOf row).sgidRt < 2 ^ 8 := hisRow.sgidRt ▸ hfits.bytes _ (by simp)
      have hcount : (segOf row).sgidCount < 2 ^ 8 := hisRow.sgidCount ▸ hfits.bytes _ (by simp)
      have hrrid : (segOf row).rrid < 2 ^ 31 := hisRow.rrid ▸ hfits.ints _ (by simp)
      by_cases hone : cfg.loadOnce = 1
      · have hclear : (segOf row).clear 1 = segOf row := by
          rw [clear_one hrt]
          have hzero := hharm1 hone
          rw [← hisRow.sgidRt] at hzero
          rw [← hzero]
        have hlen : (chunkRows cfg table n).length = 1 := hone ▸ hfull n (lt_succ_self n)
        have hnil : segs = [] := by
          rw [hrows, length_cons] at hlen
          exact length_eq_zero_iff.mp (by omega)
        have hd : cfg.maxIndex + 1 ≤ preIndex cfg (n + 1) + (cfg.maxIndex + 1) := by omega
        obtain ⟨m', hm', hend⟩ :=
          loadChunks_again_ok ht hk hone (fun r => rowsUpTo_subset) hrow hclear hm hd
        refine ⟨m', cfg.maxIndex + 1 + 1, hm'.toShows, ?_⟩
        rw [hbuf, hnil, hone, hclear, segsFrom_self]
        exact hend
      · -- the loader stops at the first record, which is refused or empty
        have hstop : ∃ m', Shows cfg m' (rowsUpTo cfg table (n + 1)) ∧
            dataLoad cfg m (bufAt cfg table (n + 1)) = .ok (m', 0) := by
          rw [hbuf]
          have hcleared : ((segOf row).clear cfg.loadOnce).sgidCount = 0 :=
            clearBytes_eq_zero (show 1 + 1 ≤ cfg.loadOnce by omega) hcount
          by_cases hsmall : cfg.loadOnce < 6
          · have hsgid : ((segOf row).clear cfg.loadOnce).sgid = row.sgid := by
              rw [← hisRow.sgid]
              exact clearBytes_of_le (by omega)
            have hid : ((segOf row).clear cfg.loadOnce).rrid = (segOf row).rrid :=
              clearBytes_of_le (by omega)
            have hrridPos := (ht.rrid_mem row hmem).1
            have hsgidPos := (ht.sgid_mem row hmem).1
            have hadd : addSeg cfg m ((segOf row).clear cfg.loadOnce) = .ok
                (m.setRoad cfg (row.rrid - 1) (reserved (m.road cfg (row.rrid - 1))
                  ((segOf row).clear cfg.loadOnce).sgidCount), false) := by
              unfold addSeg
              rw [hid, position_rrid ht hk hmem, ok_bind]
              change (if ((segOf row).clear cfg.loadOnce).sgidCount <
                ((segOf row).clear cfg.loadOnce).sgid then _ else _) = _
              rw [if_pos (by omega)]
              rfl
            have hload : dataLoad cfg m ((segOf row).clear cfg.loadOnce :: segs) = .ok
                (m.setRoad cfg (row.rrid - 1) (reserved (m.road cfg (row.rrid - 1))
                  ((segOf row).clear cfg.loadOnce).sgidCount), 0) := by
              unfold dataLoad
              rw [hid, hisRow.rrid, if_neg (by omega), hadd]
              rfl
            obtain ⟨-, hseg, hname⟩ := dataLoad_refused hload hcleared
            refine ⟨_, ⟨fun r hr => ?_, fun p i h => ?_, fun r hr => ?_⟩, hload⟩
            · rw [hseg]
              exact hm.seg r hr
            · rw [hseg] at h
              exact hm.only p i h
            · rw [hname]
              exact hm.name r hr
          · obtain ⟨hge, hnameId⟩ := hharm6 (by omega)
            refine ⟨m, hm.toShows, ?_⟩
            have hrridZero : ((segOf row).clear cfg.loadOnce).rrid = 0 :=
              clearBytes_eq_zero (by omega) (Nat.lt_trans hrrid (by decide))
            have hnameZero : ((segOf row).clear cfg.loadOnce).nameId = 0 := by
              refine clearBytes_eq_zero_iff.mpr ?_
              rw [hisRow.nameId]
              rcases Nat.le_total (cfg.loadOnce - 32) 8 with hmin | hmin
              · rwa [Nat.min_eq_left hmin]
              · rw [Nat.min_eq_right hmin]
                exact Nat.lt_trans (hfits.ints row.nameId (by simp)) (by decide)
            unfold dataLoad
            rw [if_pos ⟨hrridZero, hnameZero⟩]
        obtain ⟨m', hm', hload⟩ := hstop
        refine ⟨m', 1, hm', ?_⟩
        rw [loadChunks_succ hle (show 0 < 2 ^ 31 by decide) (by rw [segsFrom_end]; exact hload),
          if_pos hpos]
  · refine ⟨m, 1, hm.toShows, ?_⟩
    unfold loadChunks
    rw [if_neg hle]

--
-- What can have been loaded
--

/-- A record the loader may have come to: of a chunk with full ones before it, or the
one that is read again. -/
def Passed (cfg : MapSegCfg) (table : List SegRow) (n : Nat) (seg : FileSegInfo) : Prop :=
  seg = .zero ∨
    (∃ k row, k < n ∧ (∀ i < k, Full cfg table i) ∧ row ∈ chunkRows cfg table k ∧ seg = segOf row) ∨
    cfg.loadOnce = 1 ∧ ∃ row ∈ chunkRows cfg table 0, 0 < n ∧ seg = (segOf row).clear 1

theorem typed_zero : Typed MapSegInfo.zero := by
  constructor <;> simp [MapSegInfo.zero]

theorem typed_clear_one {seg : FileSegInfo} (h : Typed seg.toMapSegInfo) :
    Typed (seg.clear 1).toMapSegInfo := by
  have hbytes := h.bytes
  rw [forall_mem_cons] at hbytes
  rw [clear_one hbytes.1]
  exact ⟨forall_mem_cons.mpr ⟨show (0 : Nat) < 2 ^ 8 by decide, hbytes.2⟩, h.countyCode,
    h.ints⟩

theorem loadFrom_sound (ht : SegTable cfg table) (hmin : 0 < cfg.minIndex)
    (hle : cfg.minIndex ≤ cfg.maxIndex) (hn : ∀ k, Written cfg table k ↔ k < n)
    (hgood : ∀ k < n, ∀ row ∈ chunkRows cfg table k, segRecord row = .ok (segOf row))
    {d : Nat} (hk : k + d = n) (hfull : ∀ i < k, Full cfg table i)
    (hm : Sound cfg m (Passed cfg table n)) (h : loadFrom cfg table n fuel m k = .ok m') :
    Sound cfg m' (Passed cfg table n) := by
  have hpos := ht.loadOnce_pos
  have hu64 {c : Nat} (hc : c < 2 ^ 31) : asUnsigned 64 (toInt32 c) = c :=
    asUnsigned_toInt32 hc (by omega)
  induction d generalizing k m fuel with
  | zero =>
    obtain rfl : k = n := hk
    unfold loadFrom at h
    by_cases hpre : preIndex cfg k ≤ cfg.maxIndex
    · obtain ⟨f, m₁, count, -, hload, hend⟩ := loadChunks_inv hpre h
      rw [segsFrom_end] at hload hend
      rcases Nat.eq_zero_or_pos k with rfl | hkpos
      · have hzeros : bufAt cfg table 0 = [] ++ List.replicate cfg.loadOnce .zero := if_pos rfl
        have hm₁ : Sound cfg m₁ (Passed cfg table 0) := by
          refine hm.dataLoad (fun seg hseg => ?_) hload
          rw [hzeros] at hseg
          exact Or.inl (eq_of_mem_replicate hseg)
        have hcount : count = 0 := by
          rw [hzeros] at hload
          exact Nat.le_zero.mp (dataLoad_count hload)
        rcases hend with rfl | ⟨hge, -⟩
        · exact hm₁
        · rw [hcount, hu64 (by decide)] at hge
          exact absurd hpos hge
      · obtain ⟨j, rfl⟩ : ∃ j, k = j + 1 := ⟨k - 1, by omega⟩
        obtain ⟨row, rows, segs, hrows, hsegs, hbuf⟩ := bufAt_end ht (hfull j (lt_succ_self j))
        have hrow : row ∈ chunkRows cfg table j := by rw [hrows]; exact .head _
        have htyped := typed_segOf (hgood j (lt_succ_self j) row hrow)
        rw [hbuf] at hload hend
        by_cases hone : cfg.loadOnce = 1
        · -- the first chunk is the only one, and has one record
          obtain rfl : j = 0 := by
            rcases ((hn j).mpr (lt_succ_self j)).1 with hzero | ⟨hne, -⟩
            · exact hzero
            · exact absurd hone hne
          have hlen : (chunkRows cfg table 0).length = 1 := hone ▸ hfull 0 (lt_succ_self 0)
          have hnil : segs = [] := by
            rw [hrows, length_cons] at hlen
            exact length_eq_zero_iff.mp (by omega)
          have hpassed : Passed cfg table (0 + 1) ((segOf row).clear 1) :=
            Or.inr (Or.inr ⟨hone, row, hrow, succ_pos _, rfl⟩)
          have hrt : (segOf row).sgidRt < 2 ^ 8 := htyped.bytes _ (by simp)
          have hclear : ((segOf row).clear 1).clear 1 = (segOf row).clear 1 := by
            rw [clear_one hrt, clear_one (show (0 : Nat) < 2 ^ 8 by decide)]
          rw [hbuf, hnil, hone, segsFrom_self] at h
          exact loadChunks_again (I := fun m => Sound cfg m (Passed cfg table (0 + 1))) hone hclear
            (fun _ _ _ hm hadd => hm.addSeg hpassed hadd) hm h
        · have hcleared : ((segOf row).clear cfg.loadOnce).sgidCount = 0 :=
            clearBytes_eq_zero (show 1 + 1 ≤ cfg.loadOnce by omega) (htyped.bytes _ (by simp))
          obtain ⟨rfl, hseg, hname⟩ := dataLoad_refused hload hcleared
          rcases hend with rfl | ⟨hge, -⟩
          · exact ⟨fun p i info hi => hm.seg p i info (hseg p i ▸ hi),
              fun q name hq => hm.name q name (hname q ▸ hq)⟩
          · rw [hu64 (by decide)] at hge
            exact absurd hpos hge
    · unfold loadChunks at h
      rcases fuel with _ | fuel
      · exact absurd h nofun
      · dsimp only at h
        rw [if_neg hpre] at h
        obtain rfl := Except.ok.inj h
        exact hm
  | succ d ih =>
    have hkn : k < n := by omega
    obtain ⟨hpre, hread, hnext⟩ := loadFrom_round ht hle hn hkn
    obtain ⟨f, m₁, count, -, hload, hend⟩ := loadChunks_inv hpre h
    rw [hread] at hload hend
    have hm₁ : Sound cfg m₁ (Passed cfg table n) := by
      refine hm.dataLoad (fun seg hseg => ?_) hload
      rcases mem_append.mp hseg with hseg | hseg
      · obtain ⟨row, hrow, rfl⟩ := mem_map.mp hseg
        exact Or.inr (Or.inl ⟨k, row, hkn, hfull, hrow, rfl⟩)
      · exact Or.inl (eq_of_mem_replicate hseg)
    have hcount := dataLoad_count hload
    have hlen := chunkRows_length_le ht ((hn k).mpr hkn).1
    have hlt := chunkRows_length_lt ht hmin k
    rw [length_map] at hcount
    rcases hend with rfl | ⟨hge, hrest⟩
    · exact hm₁
    · rw [hu64 (by omega)] at hge
      rw [hnext] at hrest
      refine ih (k := k + 1) (by omega) (fun i hi => ?_) hm₁ hrest
      rcases Nat.lt_succ_iff_lt_or_eq.mp hi with hi | rfl
      · exact hfull i hi
      · show (chunkRows cfg table i).length = cfg.loadOnce
        omega

/-- Reading the last chunk again has done no harm, if the loader has come through it
and the row is there as it should be. -/
theorem harmless_of_loaded (ht : SegTable cfg table) (hk : RowsKept table)
    (hindex : 0 < cfg.indexLong) (hmin : 0 < cfg.minIndex) (hle : cfg.minIndex ≤ cfg.maxIndex)
    (hn : ∀ k, Written cfg table k ↔ k < n + 1) (hfull : ∀ i < n + 1, Full cfg table i)
    (hpre : preIndex cfg (n + 1) ≤ cfg.maxIndex)
    (hload : loadFrom cfg table (n + 1) fuel ⟨.empty, .empty⟩ 0 = .ok m')
    (hrow : row ∈ (chunkRows cfg table n).head?)
    (hshown : ∀ info, m'.seg cfg (row.rrid - 1) (row.sgid - 1) = some info →
      info.sgidRt = row.sgRt) : Harmless cfg row := by
  obtain ⟨m, hm, hreach⟩ := loadChunks_reach ht hk hmin hle hn (Nat.le_refl (n + 1)) hfull
  have hend := loadChunks_mono_le hload (Nat.le_add_right fuel (n + 1))
  change loadFrom cfg table (n + 1) (fuel + (n + 1)) ⟨.empty, .empty⟩ 0 = .ok m' at hend
  rw [hreach] at hend
  obtain ⟨row', rows, segs, hrows, hsegs, hbuf⟩ := bufAt_end ht (hfull n (lt_succ_self n))
  obtain rfl : row' = row := by
    rw [hrows] at hrow
    exact Option.some.inj hrow
  have hmem : row' ∈ table :=
    (mem_chunkRows (k := n)).mp (by rw [hrows]; exact .head _) |>.1
  obtain ⟨-, hisRow, -⟩ := segRecord_kept (hk.fits row' hmem) (hk.name_length row' hmem)
  have hfits := hk.fits row' hmem
  have hrt : (segOf row').sgidRt < 2 ^ 8 := hisRow.sgidRt ▸ hfits.bytes _ (by simp)
  obtain ⟨f, m₁, count, -, hdata, hnext⟩ := loadChunks_inv hpre hend
  rw [segsFrom_end, hbuf] at hdata hnext
  constructor
  · intro hone
    have hlen : (chunkRows cfg table n).length = 1 := hone ▸ hfull n (lt_succ_self n)
    have hnil : segs = [] := by
      rw [hrows, length_cons] at hlen
      exact length_eq_zero_iff.mp (by omega)
    rw [hnil, hone] at hdata hnext
    have hclear : ((segOf row').clear 1).clear 1 = (segOf row').clear 1 := by
      rw [clear_one hrt, clear_one (show (0 : Nat) < 2 ^ 8 by decide)]
    have hfields : ((segOf row').clear 1).rrid = row'.rrid ∧
        ((segOf row').clear 1).sgid = row'.sgid ∧
        ((segOf row').clear 1).sgidCount = row'.sgCount := by
      rw [clear_one hrt]
      exact ⟨hisRow.rrid, hisRow.sgid, hisRow.sgidCount⟩
    have hplace := position_rrid ht hk hmem
    rw [hisRow.rrid, ← hfields.1] at hplace
    have hsgid := ht.sgid_mem row' hmem
    have hrrid := ht.rrid_mem row' hmem
    -- whatever the record does, it is there afterwards
    have hwritten (m m' : MapSegManager) (counted : Bool)
        (hadd : addSeg cfg m ((segOf row').clear 1) = .ok (m', counted)) :
        m'.seg cfg (row'.rrid - 1) (row'.sgid - 1) = some ((segOf row').clear 1).toMapSegInfo := by
      rcases addSeg_cases hadd with ⟨-, hnone | hlt, -⟩ | ⟨p, hid, -, -, -, hseg, -⟩
      · rw [hplace] at hnone
        cases Except.ok.inj hnone
      · omega
      · rw [hfields.1, toInt64_of_lt (ht.row_long row' hmem _ (by simp))] at hid
        rw [hseg, hfields.2.1, if_pos ⟨by omega, rfl⟩]
    have hm₁ : m₁.seg cfg (row'.rrid - 1) (row'.sgid - 1) =
        some ((segOf row').clear 1).toMapSegInfo := by
      unfold dataLoad at hdata
      rw [if_neg fun h => absurd (hfields.1 ▸ h.1) (by omega)] at hdata
      obtain ⟨⟨m₂, counted⟩, hadd, hdata⟩ := bind_eq_ok.mp hdata
      have hm₂ := hwritten _ _ _ hadd
      rcases counted with _ | _
      · obtain ⟨rfl, -⟩ := Prod.mk.inj (Except.ok.inj hdata)
        exact hm₂
      · obtain ⟨rfl, -⟩ := Prod.mk.inj (Except.ok.inj hdata)
        exact hm₂
    have hlast : m'.seg cfg (row'.rrid - 1) (row'.sgid - 1) =
        some ((segOf row').clear 1).toMapSegInfo := by
      rcases hnext with rfl | ⟨-, hnext⟩
      · exact hm₁
      · rw [memsetSegs_singleton, hclear, segsFrom_self, drop_nil] at hnext
        exact loadChunks_again (I := fun m => m.seg cfg (row'.rrid - 1) (row'.sgid - 1) =
          some ((segOf row').clear 1).toMapSegInfo) hone hclear
          (fun _ _ _ _ hadd => hwritten _ _ _ hadd) hm₁ hnext
    rw [← hshown _ hlast, clear_one hrt]
  · intro hsix
    by_contra hharm
    have hnameId : ((segOf row').clear cfg.loadOnce).nameId ≠ 0 := by
      intro hzero
      have hlt := clearBytes_eq_zero_iff.mp hzero
      rw [hisRow.nameId] at hlt
      by_cases hlarge : 32 < cfg.loadOnce
      · refine hharm ⟨hlarge, Nat.lt_of_lt_of_le hlt ?_⟩
        exact Nat.pow_le_pow_right (by decide) (Nat.min_le_left _ _)
      · rw [Nat.sub_eq_zero_of_le (by omega), Nat.zero_min, pow_zero] at hlt
        have := hk.named row' hmem
        omega
    have hsgid : ((segOf row').clear cfg.loadOnce).sgid = 0 :=
      clearBytes_eq_zero (show 5 + 1 ≤ cfg.loadOnce from hsix)
        (hisRow.sgid ▸ hfits.bytes row'.sgid (by simp))
    have hrrid : ((segOf row').clear cfg.loadOnce).rrid ≤ row'.rrid :=
      hisRow.rrid ▸ clearBytes_le _ _ _ _
    have hlong := ht.row_long row' hmem row'.rrid (by simp)
    rw [dataLoad_outside hindex hsgid hnameId
      (Nat.le_trans hrrid (ht.rrid_mem row' hmem).2) (by omega)] at hdata
    cases hdata

--
-- What is served
--

theorem roadName_ne_nil (row : SegRow) : roadName row ≠ some [] := by
  unfold roadName
  rcases row.name with _ | name
  · nofun
  · intro h
    obtain ⟨-, hne⟩ := Option.filter_eq_some_iff.mp h
    exact absurd hne (by simp)

theorem SegKept.shown (h : SegKept cfg table) (ht : SegTable cfg table) :
    ∃ fuel file m, mapSegFile fuel cfg table = .ok (some file) ∧ file.header = cfg ∧
      segFileLoad fuel file = .ok m ∧ Shows cfg m table := by
  classical
  obtain ⟨hmin, hle⟩ := h.keys
  obtain ⟨n, hn⟩ := exists_written ht hmin
  have hgood (k : Nat) (row : SegRow) (hrow : row ∈ chunkRows cfg table k) :
      segRecord row = .ok (segOf row) :=
    have hmem := (mem_chunkRows.mp hrow).1
    (segRecord_kept (h.rows.fits row hmem) (h.rows.name_length row hmem)).1
  -- the loader has read chunks with all rows of the table when it ends
  have hmain : ∃ m fuel k, Shows cfg m (rowsUpTo cfg table k) ∧
      loadFrom cfg table n fuel ⟨.empty, .empty⟩ 0 = .ok m ∧
        ∀ j, Written cfg table j → (∀ i < j, Full cfg table i) → j < k := by
    have hstop : ∃ k, ¬ (k < n ∧ Full cfg table k) := ⟨n, fun h => absurd h.1 (by omega)⟩
    have hbefore (i : Nat) (hi : i < Nat.find hstop) := not_not.mp (Nat.find_min hstop hi)
    have hfull : ∀ i < Nat.find hstop, Full cfg table i := fun i hi => (hbefore i hi).2
    by_cases hlt : Nat.find hstop < n
    · have hnot : ¬ Full cfg table (Nat.find hstop) := fun h => Nat.find_spec hstop ⟨hlt, h⟩
      obtain ⟨m, hm, hend⟩ := loadChunks_stop ht h.rows hmin hle hn hlt hfull hnot
      refine ⟨m, _, _, hm, hend 0, fun j _ hj => ?_⟩
      by_contra hge
      exact hnot (hj _ (by omega))
    · have hall : ∀ i < n, Full cfg table i := fun i hi => hfull i (by omega)
      obtain ⟨m, hm, hreach⟩ := loadChunks_reach ht h.rows hmin hle hn (Nat.le_refl n) hall
      obtain ⟨m', fuel, hm', hend⟩ := loadChunks_end ht h.rows hm hall fun hpos hpre => by
        obtain ⟨j, rfl⟩ : ∃ j, n = j + 1 := ⟨n - 1, by omega⟩
        exact h.again j (fun k hk => ⟨(hn k).mpr (by omega), hall k (by omega)⟩)
          (fun hw => absurd ((hn _).mp hw) (by omega)) hpre
      exact ⟨m', fuel + n, n, hm', by rw [hreach]; exact hend, fun j hw _ => (hn j).mp hw⟩
  obtain ⟨m, fuel, k, hm, hload, hread⟩ := hmain
  have hfile : mapSegFile (n + 1) cfg table = .ok (some ⟨cfg, segsFrom cfg table 0 n⟩) :=
    (mapSegFile_eq_ok ht hmin hle hn (lt_succ_self n)).mpr
      ⟨fun j _ row hrow => hgood j row hrow, rfl⟩
  refine ⟨n + 1 + fuel, ⟨cfg, segsFrom cfg table 0 n⟩, m, mapSegFile_mono hfile (by omega), rfl, ?_,
    ?_⟩
  · rw [segFileLoad_eq]
    exact loadChunks_mono_le hload (by omega)
  · have hall (row : SegRow) (hrow : row ∈ table) : row ∈ rowsUpTo cfg table k := by
      obtain ⟨j, hj, hreached, hfull⟩ := h.read row hrow
      refine mem_rowsUpTo.mpr ⟨j, hread j ⟨hreached, fun i hi => ?_⟩ hfull, hj⟩
      rcases Nat.lt_or_eq_of_le hi with hlt | rfl
      · intro hnil
        have hlen : (chunkRows cfg table i).length = cfg.loadOnce := hfull i hlt
        rw [hnil] at hlen
        exact absurd ht.loadOnce_pos (by simp at hlen; omega)
      · exact ne_nil_of_mem hj
    refine ⟨fun row hrow => hm.seg row (hall row hrow), fun p i hi => ?_,
      fun row hrow => hm.name row (hall row hrow)⟩
    exact (hm.only p i hi).imp fun row hrow => ⟨rowsUpTo_subset hrow.1, hrow.2⟩

theorem SegKept.served (h : SegKept cfg table) (ht : SegTable cfg table) :
    SegServed cfg table := by
  obtain ⟨fuel, ⟨header, segs⟩, m, hfile, hheader, hload, hm⟩ := h.shown ht
  obtain rfl : header = cfg := hheader
  refine ⟨fuel, _, m, hfile, hload, fun row hrow buf => ?_,
    fun rrid hrrid sgid hsgid hpos hnot buf => ?_⟩
  · have hfits := h.rows.fits row hrow
    obtain ⟨-, hisRow, -⟩ := segRecord_kept hfits (h.rows.name_length row hrow)
    have hrridLt := hfits.ints row.rrid (by simp)
    have hsgidLt := hfits.bytes row.sgid (by simp)
    obtain ⟨hrridPos, hrridLe⟩ := ht.rrid_mem row hrow
    have hsgidPos := (ht.sgid_mem row hrow).1
    have hreach := h.rrid_le row hrow
    rw [mod_eq_of_lt (by omega), mod_eq_of_lt (by omega)]
    obtain ⟨back, hback, hseg, hname⟩ := @querySeg_eq_yes _ _ row.rrid row.sgid buf _
      (ht.cfg_long _ (by simp)) (ht.cfg_long _ (by simp)) hrridPos (by omega) hrridLe hsgidPos
      (hm.seg row hrow) (hisRow.nameId ▸ h.rows.named row hrow)
      (hisRow.nameId ▸ ht.nameId_le row hrow)
    refine ⟨back, ?_, ⟨_, hseg, hisRow⟩, ?_⟩
    · unfold mapSegQuery
      dsimp only
      rw [if_neg (by omega), if_neg (by omega)]
      exact hback
    · rw [hname, hisRow.nameId]
      exact hm.name row hrow
  · refine ⟨_, mapSegQuery_eq_no h.index.1 h.index.2 (ht.cfg_long _ (by simp)) hpos ?_⟩
    rcases hsome : m.seg header (queryPlace rrid) (sgid - 1) with _ | info
    · rfl
    · obtain ⟨row, hrow, hid, hat⟩ := hm.only _ _ (by rw [hsome]; rfl)
      have hlt := (h.rows.fits row hrow).ints row.rrid (by simp)
      refine absurd ?_ (hnot row hrow ?_)
      · omega
      · unfold queryPlace at hid
        omega

/-- **A row that is found**, and the record that the query has found for it. -/
theorem found_of_rows {m : MapSegManager} {n : Nat} (ht : SegTable cfg table)
    (hsound : Sound cfg m (Passed cfg table n))
    (htyped : ∀ seg, Passed cfg table n seg → Typed seg.toMapSegInfo) (hrow : row ∈ table)
    (hquery : ∀ buf, ∃ back,
      mapSegQuery cfg m (row.rrid % 2 ^ 32) (row.sgid % 2 ^ 32) buf = .ok (0, back) ∧
        (∃ info, back.ptrSeg = some info ∧ IsRow info row) ∧ back.ptrName = roadName row) :
    ∃ seg : FileSegInfo, IsRow seg.toMapSegInfo row ∧ Passed cfg table n seg ∧
      m.seg cfg (row.rrid - 1) (row.sgid - 1) = some seg.toMapSegInfo ∧ row.rrid < 2 ^ 31 ∧
      (row.rrid : Int) ≤ toInt64 (cfg.indexLong * cfg.rridBufLong) ∧
      ∀ old, roadNameOf cfg m seg.nameId old = .ok (roadName row) := by
  have hinv (buf : BackSeg) : ∃ info, IsRow info row ∧
      m.seg cfg (queryPlace (row.rrid % 2 ^ 32))
        ((if row.sgid % 2 ^ 32 = 0 then 1 else row.sgid % 2 ^ 32) - 1) = some info ∧
      (row.sgid % 2 ^ 32 ≠ 0 → roadNameOf cfg m info.nameId buf.ptrName = .ok (roadName row)) := by
    obtain ⟨back, hback, ⟨info, hinfo, hisRow⟩, hname⟩ := hquery buf
    obtain ⟨-, info', hinfo', hseg, hroad⟩ := mapSegQuery_inv hback
    obtain rfl : info = info' := Option.some.inj (hinfo.symm.trans hinfo')
    exact ⟨info, hisRow, hseg, fun hne => hname ▸ hroad hne⟩
  obtain ⟨back, hback, -⟩ := hquery ⟨none, none, none, none⟩
  obtain ⟨hreach, -⟩ := mapSegQuery_inv hback
  obtain ⟨info, hisRow, hseg, -⟩ := hinv ⟨none, none, none, none⟩
  obtain ⟨seg, hpassed, rfl, hid, hat⟩ := hsound.seg _ _ _ hseg
  have hsgid : row.sgid % 2 ^ 32 ≠ 0 := by
    intro hzero
    rw [if_pos hzero] at hat
    have := hisRow.sgid
    omega
  rw [if_neg hsgid] at hseg
  have hrridLt : row.rrid < 2 ^ 31 := by
    rw [← hisRow.rrid]
    exact (htyped seg hpassed).ints _ (by simp)
      (hisRow.rrid ▸ ht.row_long row hrow row.rrid (by simp))
  have hsgidLt : row.sgid < 2 ^ 8 := by
    rw [← hisRow.sgid]
    exact (htyped seg hpassed).bytes _ (by simp)
  have hpos := (ht.rrid_mem row hrow).1
  have hplace : queryPlace (row.rrid % 2 ^ 32) = row.rrid - 1 := by
    unfold queryPlace
    omega
  rw [hplace, mod_eq_of_lt (by omega)] at hseg
  rw [mod_eq_of_lt (by omega)] at hreach
  refine ⟨seg, hisRow, hpassed, hseg, hrridLt, hreach, fun old => ?_⟩
  obtain ⟨info', -, hseg', hroad⟩ := hinv ⟨none, old, none, none⟩
  rw [if_neg hsgid, hplace, mod_eq_of_lt (show row.sgid < 2 ^ 32 by omega), hseg] at hseg'
  obtain rfl := Option.some.inj hseg'
  exact hroad hsgid

theorem SegServed.kept (h : SegServed cfg table) (ht : SegTable cfg table) :
    SegKept cfg table := by
  obtain ⟨fuel, file, m, hfile, hload, hrows, hothers⟩ := h
  obtain ⟨hmin, hle⟩ := mapSegFile_keys hfile
  obtain ⟨n, hn⟩ := exists_written ht hmin
  obtain ⟨hgood, rfl⟩ := (mapSegFile_eq_ok ht hmin hle hn (Nat.lt_succ_of_le
    (Nat.le_add_left n fuel))).mp
      (mapSegFile_mono hfile (Nat.le_succ_of_le (Nat.le_add_right fuel n)))
  rw [segFileLoad_eq] at hload
  have hsound : Sound cfg m (Passed cfg table n) :=
    loadFrom_sound ht hmin hle hn hgood (k := 0) (d := n) (Nat.zero_add n)
      (fun i hi => absurd hi (Nat.not_lt_zero i)) sound_empty hload
  have htyped (seg : FileSegInfo) (hseg : Passed cfg table n seg) : Typed seg.toMapSegInfo := by
    rcases hseg with rfl | ⟨k, row, hk, -, hrow, rfl⟩ | ⟨-, row, hrow, hpos, rfl⟩
    · exact typed_zero
    · exact typed_segOf (hgood k hk row hrow)
    · exact typed_clear_one (typed_segOf (hgood 0 hpos row hrow))
  have hfound (row : SegRow) (hrow : row ∈ table) :=
    found_of_rows ht hsound htyped hrow (hrows row hrow)
  have hfits : ∀ row ∈ table, Fits row := by
    intro row hrow
    obtain ⟨seg, hisRow, hpassed, -⟩ := hfound row hrow
    exact fits_of_isRow hisRow (htyped seg hpassed) (ht.row_long row hrow)
  have hnamed : ∀ row ∈ table, row.nameId ≠ 0 ∧ m.name cfg (row.nameId - 1) = roadName row := by
    intro row hrow
    obtain ⟨seg, hisRow, -, -, -, -, hroad⟩ := hfound row hrow
    have hinv := roadNameOf_inv (hroad (some [])) (roadName_ne_nil row).symm
    rwa [hisRow.nameId] at hinv
  have hkept : RowsKept table := by
    refine ⟨hfits, fun row hrow => (hnamed row hrow).1, fun row hrow name hname => ?_,
      fun row hrow row' hrow' hid => ?_⟩
    · exact hsound.name _ _ ((hnamed row hrow).2.trans hname)
    · rw [← (hnamed row hrow).2, ← (hnamed row' hrow').2, hid]
  -- the record that was found is that of the row
  have hsame (row row' : SegRow) (hrow : row ∈ table) (hrow' : row' ∈ table) (seg : FileSegInfo)
      (hisRow : IsRow seg.toMapSegInfo row) (hrrid : seg.rrid = (segOf row').rrid)
      (hsg : seg.sgid = (segOf row').sgid) : row = row' := by
    obtain ⟨-, hisRow', -⟩ := segRecord_kept (hfits row' hrow') (hkept.name_length row' hrow')
    refine ht.seg_unique row hrow row' hrow' ?_ ?_
    · rw [← hisRow.rrid, hrrid, hisRow'.rrid]
    · rw [← hisRow.sgid, hsg, hisRow'.sgid]
  have hindex : 0 < cfg.indexLong ∧ 0 < cfg.rridBufLong := by
    obtain ⟨back, hback⟩ := hothers 0 (by decide) 1 (by decide) (Nat.le_refl 1)
      (fun row hrow h => absurd (ht.rrid_mem row hrow).1 (by omega)) ⟨none, none, none, none⟩
    exact index_of_query hback
  refine ⟨⟨hmin, hle⟩, hindex, fun row hrow => ?_, hkept, fun row hrow => ?_, ?_⟩
  · obtain ⟨-, -, -, -, -, hreach, -⟩ := hfound row hrow
    exact hreach
  · obtain ⟨seg, hisRow, hpassed, -⟩ := hfound row hrow
    rcases hpassed with rfl | ⟨k, row', hk, hfull, hrow', rfl⟩ | ⟨hone, row', hrow', hpos, rfl⟩
    · have hpos := (ht.rrid_mem row hrow).1
      have hzero : row.rrid = 0 := hisRow.rrid.symm
      omega
    · obtain rfl := hsame row row' hrow (mem_chunkRows.mp hrow').1 _ hisRow rfl rfl
      exact ⟨k, hrow', ((hn k).mpr hk).1, hfull⟩
    · have hmem := (mem_chunkRows.mp hrow').1
      have hrt : (segOf row').sgidRt < 2 ^ 8 :=
        (typed_segOf (hgood 0 hpos row' hrow')).bytes _ (by simp)
      obtain rfl := hsame row row' hrow hmem _ hisRow (by rw [clear_one hrt])
        (by rw [clear_one hrt])
      exact ⟨0, hrow', Or.inl rfl, fun i hi => absurd hi (Nat.not_lt_zero i)⟩
  · intro k hwritten hnot hpre row hrow
    obtain rfl : n = k + 1 := by
      have hlt := (hn k).mp (hwritten k (Nat.le_refl k)).1
      have hge : ¬ k + 1 < n := fun h => hnot ((hn _).mpr h)
      omega
    have hmem : row ∈ table := (mem_chunkRows.mp (mem_of_mem_head? hrow)).1
    obtain ⟨seg, hisRow, -, hseg, -⟩ := hfound row hmem
    refine harmless_of_loaded ht hkept hindex.1 hmin hle hn
      (fun i hi => (hwritten i (Nat.lt_succ_iff.mp hi)).2) hpre hload hrow fun info hinfo => ?_
    rw [hseg] at hinfo
    rw [← Option.some.inj hinfo]
    exact hisRow.sgidRt

/-- **Generator, loader and query** give back the rows of a table, and nothing else,
exactly when it is kept. -/
theorem segServed_iff (ht : SegTable cfg table) : SegServed cfg table ↔ SegKept cfg table :=
  ⟨fun h => h.kept ht, fun h => h.served ht⟩

/-- A row of a road with one segment. -/
def lonelyRow (iidd rrid : Nat) : SegRow :=
  { iidd := iidd, rrid := rrid, id := 1, sgid := 1, nextId := none, nameId := 1,
    name := some (ascii "Ring"), sgsc := 0, sgec := 0, sgsl := 0, sgsb := 0, sgel := 0, sgeb := 0,
    sgfer := 0, sgtcr := 0, sgLen := 10, sgRt := 2, sgCount := 1, countyCode := 1 }

/-- Keys 1 to 3, two to a chunk. -/
def pairCfg : MapSegCfg :=
  { loadOnce := 2, maxIndex := 3, minIndex := 1, indexLong := 1, rridBufLong := 4,
    nameIndexLong := 1, nameBufLong := 4 }

/-- Without key 2 the first chunk ends with an empty record, and the loader with it. -/
theorem not_segServed_gap : SegTable pairCfg [lonelyRow 1 1, lonelyRow 3 2] ∧
    ¬ SegServed pairCfg [lonelyRow 1 1, lonelyRow 3 2] := by
  have ht : SegTable pairCfg [lonelyRow 1 1, lonelyRow 3 2] := by constructor <;> decide
  refine ⟨ht, fun h => ?_⟩
  obtain ⟨k, hrow, -, hfull⟩ := (h.kept ht).read (lonelyRow 3 2) (by simp)
  rcases k with _ | k
  · exact absurd hrow (by decide)
  · exact absurd (hfull 0 (succ_pos k)) (by unfold Full; decide)

/-- With key 2 all three rows are served. -/
theorem segServed_noGap : SegServed pairCfg [lonelyRow 1 1, lonelyRow 2 2, lonelyRow 3 3] := by
  have ht : SegTable pairCfg [lonelyRow 1 1, lonelyRow 2 2, lonelyRow 3 3] := by
    constructor <;> decide
  have hwritten : Written pairCfg [lonelyRow 1 1, lonelyRow 2 2, lonelyRow 3 3] 1 :=
    ⟨Or.inr ⟨by decide, by decide⟩, by decide⟩
  have hfits (iidd rrid : Nat) (h : rrid < 2 ^ 31) : Fits (lonelyRow iidd rrid) :=
    ⟨by simp [lonelyRow], by simp [lonelyRow], by simpa [lonelyRow] using h,
      ⟨0, 0, rfl, by decide, by decide, by decide⟩⟩
  refine (segServed_iff ht).mpr ⟨by decide, by decide, by decide,
    ⟨?_, by decide, by decide, by decide⟩,
    ?_, ?_⟩
  · simp [hfits]
  · simp only [forall_mem_cons]
    refine ⟨⟨0, by decide, Or.inl rfl, nofun⟩, ⟨0, by decide, Or.inl rfl, nofun⟩,
      ⟨1, by decide, hwritten.1, ?_⟩, nofun⟩
    intro i hi
    obtain rfl : i = 0 := by omega
    unfold Full
    decide
  · intro n hall hnot
    rcases n with _ | n
    · exact absurd hwritten hnot
    · exact absurd (hall 1 (by omega)).2 (by unfold Full; decide)

end Supex.Mapdata.Segment
