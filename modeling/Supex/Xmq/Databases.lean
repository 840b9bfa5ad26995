import Supex.Xmq.Context

/-!
# libxmq — the sequence of databases

With capacity `k` the queue lives in the databases
`[1, k], [k + 1, 2k], [2k + 1, 3k], …`. Three computations of `xmq.c` have to
agree on them: the name `__open_database` makes while pushing, the interval
`__load_database` parses back out of a name, and the list
`__load_string_list` formats, joins and re-parses at a restart.

* `dbAt_interval` — the `j`-th name parses back to the interval
  `[j * k + 1, j * k + k]`.
* `find_dbAt` — the backward lookup over the first `m` databases.

Main results: `dbnamesLoop_eq`, `loadDatabaseList_eq`.
-/

namespace Supex.Xmq

open List

/-- The name of the `j`-th database. -/
def dbNameAt (k j : Nat) : Bytes := getKVDbname (j * k + 1) (k - 1)

/-- The `j`-th database as loaded. -/
def dbAt (path : Bytes) (k j : Nat) : XmqDb := mkDb path (dbNameAt k j)

/-! ## Names -/

theorem dbNameAt_length (k j : Nat) : (dbNameAt k j).length = 41 := by
  simp [dbNameAt, getKVDbname, fmtPad_length]

theorem dbNameAt_ne_nil (k j : Nat) : dbNameAt k j ≠ [] := by
  intro h
  have := dbNameAt_length k j
  simp [h] at this

theorem comma_notMem_fmtPad (w n : Nat) : comma ∉ fmtPad w n := by
  intro h
  have := fmtPad_isDigit w n comma h
  revert this
  decide

theorem comma_notMem_dbNameAt (k j : Nat) : comma ∉ dbNameAt k j := by
  intro h
  rcases mem_append.mp h with h | h
  · exact comma_notMem_fmtPad _ _ h
  · rcases mem_cons.mp h with h | h
    · revert h
      decide
    · exact comma_notMem_fmtPad _ _ h

variable {k : Nat}

theorem dbAt_end (path : Bytes) {j : Nat} (hk : 1 ≤ k) :
    (dbAt path k j).dbEnd = (j * k + k) % u64Size := by
  have hend : j * k + 1 + (k - 1) = j * k + k := by omega
  show strtoull ((fmtPad 20 (j * k + 1) ++
    45 :: fmtPad 20 ((j * k + 1 + (k - 1)) % u64Size)).drop XMQ_KEY_LEN) = _
  have hdrop : (fmtPad 20 (j * k + 1) ++ 45 :: fmtPad 20 ((j * k + k) % u64Size)).drop
      XMQ_KEY_LEN = fmtPad 20 ((j * k + k) % u64Size) := by
    rw [show XMQ_KEY_LEN = (fmtPad 20 (j * k + 1)).length + 1 by
      rw [fmtPad_length]; rfl]
    simp
  rw [hend, hdrop]
  have hlt : (j * k + k) % u64Size < u64Size := Nat.mod_lt _ (by unfold u64Size; omega)
  have := strtoull_fmtPad (w := 20) hlt [] (by simp)
  simpa using this

theorem dbAt_interval (path : Bytes) {j : Nat} (hk : 1 ≤ k) (hj : j * k + k < u64Size) :
    (dbAt path k j).dbStart = j * k + 1 ∧ (dbAt path k j).dbEnd = j * k + k := by
  constructor
  · apply strtoull_fmtPad (by omega)
    intro b hb
    simp only [head?_cons, Option.some.injEq] at hb
    subst hb
    decide
  · rw [dbAt_end path hk, Nat.mod_eq_of_lt hj]

theorem dbHandler_inj {path : Bytes} {i j : Nat} (hk : 1 ≤ k) (hi : i * k + k < u64Size)
    (hj : j * k + k < u64Size) (h : (dbAt path k i).dbHandler = (dbAt path k j).dbHandler) :
    i = j := by
  have hname : dbNameAt k i = dbNameAt k j := by
    have := append_cancel_left h
    simpa using this
  have hstart : i * k + 1 = j * k + 1 := by
    rw [← (dbAt_interval path hk hi).1, ← (dbAt_interval path hk hj).1]
    show strtoull (dbNameAt k i) = strtoull (dbNameAt k j)
    rw [hname]
  exact Nat.eq_of_mul_eq_mul_right hk (by omega)

theorem dbHandler_ne_kvstate (path : Bytes) (k j : Nat) :
    (dbAt path k j).dbHandler ≠ kvstate := by
  intro h
  have hlen := congrArg List.length h
  have hk : kvstate.length = 9 := by decide
  rw [hk] at hlen
  simp only [dbAt, mkDb, length_append, length_cons, dbNameAt_length] at hlen
  omega

/-! ## Lookup -/

theorem find_dbAt {path : Bytes} {m : Nat} (hk : 1 ≤ k) (hm : m * k < u64Size) (s : Nat) :
    ((List.range m).map (dbAt path k)).reverse.find?
        (fun db => decide (db.dbStart ≤ s) && decide (s ≤ db.dbEnd)) =
      if 1 ≤ s ∧ s ≤ m * k then some (dbAt path k ((s - 1) / k)) else none := by
  induction m with
  | zero =>
    have hno : ¬(1 ≤ s ∧ s ≤ 0 * k) := by omega
    rw [if_neg hno]
    rfl
  | succ m ih =>
    have hmul : (m + 1) * k = m * k + k := by ring
    have hm' : m * k + k < u64Size := by omega
    obtain ⟨hs, he⟩ := dbAt_interval path hk hm'
    rw [range_succ, map_append, reverse_append, map_singleton,
      reverse_singleton, singleton_append, find?_cons, hs, he, hmul]
    by_cases hin : m * k + 1 ≤ s ∧ s ≤ m * k + k
    · have hidx : (s - 1) / k = m := by
        apply Nat.div_eq_of_lt_le
        · omega
        · rw [hmul]
          omega
      have hcond : 1 ≤ s ∧ s ≤ m * k + k := ⟨by omega, hin.2⟩
      simp [hin, hcond, hidx]
    · have hno : (decide (m * k + 1 ≤ s) && decide (s ≤ m * k + k)) = false := by
        rw [Bool.and_eq_false_iff, decide_eq_false_iff_not, decide_eq_false_iff_not]
        omega
      rw [hno]
      rw [ih (by omega)]
      -- outside the newest interval both bounds say the same
      have hiff : (1 ≤ s ∧ s ≤ m * k) ↔ (1 ≤ s ∧ s ≤ m * k + k) := by omega
      simp only [hiff]

theorem getDbHandler_eq {ctx : XmqCtx} {path : Bytes} {m : Nat} (hk : 1 ≤ k) (hm : m * k < u64Size)
    (hdbs : ctx.listDatabases = (List.range m).map (dbAt path k)) (s : Nat) :
    getDbHandler ctx s =
      if 1 ≤ s ∧ s ≤ m * k then some (dbAt path k ((s - 1) / k)) else none := by
  rw [getDbHandler, hdbs]
  exact find_dbAt hk hm s

/-! ## Counting -/

theorem lt_getNeedCount (hk : 1 ≤ k) (pos j : Nat) : j < getNeedCount pos k ↔ j * k + 1 ≤ pos := by
  unfold getNeedCount
  have hdiv := Nat.div_add_mod pos k
  have hmod : pos % k < k := Nat.mod_lt _ hk
  have hcomm : k * (pos / k) = pos / k * k := Nat.mul_comm ..
  constructor
  · intro h
    split at h
    · have hle : j * k ≤ pos / k * k := Nat.mul_le_mul_right k (by omega)
      omega
    · have hle : (j + 1) * k ≤ pos / k * k := Nat.mul_le_mul_right k (by omega)
      rw [Nat.add_mul, Nat.one_mul] at hle
      omega
  · intro h
    by_contra hcon
    split at hcon
    · have hle : (pos / k + 1) * k ≤ j * k := Nat.mul_le_mul_right k (by omega)
      rw [Nat.add_mul, Nat.one_mul] at hle
      omega
    · have hle : pos / k * k ≤ j * k := Nat.mul_le_mul_right k (by omega)
      omega

theorem getNeedCount_bounds {n : Nat} (hk : 1 ≤ k) :
    1 ≤ getNeedCount (n + 1) k ∧ (getNeedCount (n + 1) k - 1) * k ≤ n ∧
      n < getNeedCount (n + 1) k * k := by
  have hone : 0 < getNeedCount (n + 1) k := (lt_getNeedCount hk _ _).mpr (by omega)
  refine ⟨hone, ?_, ?_⟩
  · have := (lt_getNeedCount hk (n + 1) (getNeedCount (n + 1) k - 1)).mp (by omega)
    omega
  · by_contra hcon
    have := (lt_getNeedCount hk (n + 1) (getNeedCount (n + 1) k)).mpr (by omega)
    omega

/-! ## Reopening the databases -/

/-- The names of the first `m` databases. -/
def dbNames (k m : Nat) : List Bytes := (List.range m).map (dbNameAt k)

theorem dbNames_succ (k m : Nat) : dbNames k (m + 1) = dbNames k m ++ [dbNameAt k m] := by
  simp [dbNames, range_succ]

theorem joinFields_dbNames_length (k m : Nat) : (joinFields (dbNames k m)).length = m * 42 := by
  induction m with
  | zero => rfl
  | succ m ih =>
    rw [dbNames_succ, joinFields_append, length_append, ih]
    simp [joinFields, dbNameAt_length]
    omega

/-- The joining loop, started at the `j`-th name with the names before it
already in the buffer. -/
theorem dbnamesLoop_eq {pos len fuel j : Nat} (hk : 1 ≤ k) (hpos : pos + k < u64Size)
    (hj : j ≤ getNeedCount pos k) (hfuel : getNeedCount pos k - j < fuel)
    (hlen : j = getNeedCount pos k → j * 42 + 1 ≤ len) :
    dbnamesLoop k pos len fuel (j * k + 1) (joinFields (dbNames k j)) =
      if getNeedCount pos k * 42 + 1 ≤ len then .ok (joinFields (dbNames k (getNeedCount pos k)))
      else .error .memory := by
  induction fuel generalizing j with
  | zero => omega
  | succ fuel ih =>
    rw [dbnamesLoop]
    by_cases hlast : j = getNeedCount pos k
    · have hstop : ¬(j * k + 1 ≤ pos) := fun h => by
        have := (lt_getNeedCount hk _ _).mpr h
        omega
      rw [if_neg hstop, if_pos (by rw [← hlast]; exact hlen hlast), ← hlast]
    · have hgo : j * k + 1 ≤ pos := (lt_getNeedCount hk _ _).mp (by omega)
      have hvalue : joinFields (dbNames k j) ++ getKVDbname (j * k + 1) (k - 1) ++ [comma] =
          joinFields (dbNames k (j + 1)) := by
        rw [dbNames_succ, joinFields_append, joinFields_cons]
        simp [joinFields, dbNameAt]
      have hnext : (j * k + 1 + k) % u64Size = (j + 1) * k + 1 := by
        rw [Nat.mod_eq_of_lt (by omega)]
        ring
      rw [if_pos hgo]
      simp only [hvalue, hnext, joinFields_dbNames_length]
      by_cases hfit : (j + 1) * 42 + 1 ≤ len
      · rw [if_pos hfit]
        exact ih (by omega) (by omega) (fun _ => hfit)
      · rw [if_neg hfit, if_neg (by omega)]

section Reload

variable {W : Type} {ops : XmqOps W} {view : W → Bytes → Bytes → Option Bytes}

/-- Opening a list of named databases appends their records and leaves the
medium as it is. -/
theorem csvToListDatabases_eq (hkv : LawfulKv ops view) (ctx : XmqCtx) (fields : List Bytes)
    (hf : ∀ f ∈ fields, f.length < XMQ_DBNAME_LEN) (w : W) :
    ∃ w', csvToListDatabases ops ctx fields w =
        .ok (some ({ ctx with
          listDatabases := ctx.listDatabases ++ fields.map (mkDb ctx.kvDbPath) }, w')) ∧
      view w' = view w := by
  induction fields generalizing ctx w with
  | nil => exact ⟨w, by simp [csvToListDatabases], rfl⟩
  | cons f fields ih =>
    obtain ⟨w₁, hinit, hv₁⟩ := hkv.init (ctx.kvDbPath ++ 47 :: f) w
    have hshort : ¬XMQ_DBNAME_LEN ≤ f.length := by
      have := hf f (.head _)
      omega
    obtain ⟨w₂, hrest, hv₂⟩ := ih
      { ctx with listDatabases := ctx.listDatabases ++ [mkDb ctx.kvDbPath f] }
      (fun g hg => hf g (.tail _ hg)) w₁
    refine ⟨w₂, ?_, hv₂.trans hv₁⟩
    rw [csvToListDatabases, if_neg hshort, loadDatabase, hinit]
    dsimp only
    rw [hrest]
    simp

/-- The number of databases is one a restart can handle: it is positive as an
`int`, and the joined names fit a buffer whose size does not wrap. -/
def RestartFits (k n : Nat) : Prop :=
  0 < toInt32 (getNeedCount (n + 1) k) ∧ getNeedCount (n + 1) k * XMQ_DBNAME_LEN + 1 < u64Size

instance (k n : Nat) : Decidable (RestartFits k n) := inferInstanceAs (Decidable (_ ∧ _))

/-- **Reload.** The reload path opens exactly the databases up to the write
position; it faults when the joined names overflow their buffer, and gives up
when the count is `-1` as an `int`. -/
theorem loadDatabaseList_eq (hkv : LawfulKv ops view) {ctx : XmqCtx} {n : Nat}
    (hmax : ctx.kvMaxRecords = k) (hk : 1 ≤ k) (hn : n + 1 + k < u64Size)
    (hnil : ctx.listDatabases = []) (w : W) :
    ∃ w', view w' = view w ∧ loadDatabaseList ops ctx (fmtU64 (n + 1)) w =
      if getNeedCount (n + 1) k * XMQ_DBNAME_LEN + 1 < u64Size then
        if toInt32 (getNeedCount (n + 1) k) = -1 then .ok (-1, ctx, w)
        else .ok (toInt32 (getNeedCount (n + 1) k), { ctx with
          listDatabases := (List.range (getNeedCount (n + 1) k)).map (dbAt ctx.kvDbPath k) }, w')
      else .error .memory := by
  set dbs := getNeedCount (n + 1) k with hdbs
  have hone : 1 ≤ dbs := (getNeedCount_bounds hk).1
  have hkey : strtoull (fmtU64 (n + 1)) = n + 1 := strtoull_fmtU64 (by omega)
  have hdbsle : dbs ≤ n + 1 := by
    by_contra hcon
    have := (lt_getNeedCount hk (n + 1) (n + 1)).mp (by omega)
    have hle : (n + 1) * 1 ≤ (n + 1) * k := Nat.mul_le_mul_left _ hk
    omega
  have hshort : ∀ f ∈ dbNames k dbs, f.length < XMQ_DBNAME_LEN := by
    intro f hf
    obtain ⟨j, -, rfl⟩ := mem_map.mp hf
    rw [dbNameAt_length]
    decide
  have hfields : ∀ f ∈ dbNames k dbs, comma ∉ f ∧ f ≠ [] := by
    intro f hf
    obtain ⟨j, -, rfl⟩ := mem_map.mp hf
    exact ⟨comma_notMem_dbNameAt k j, dbNameAt_ne_nil k j⟩
  obtain ⟨w', hcsv, hview⟩ := csvToListDatabases_eq hkv ctx (dbNames k dbs) hshort w
  refine ⟨w', hview, ?_⟩
  set len := (dbs * XMQ_DBNAME_LEN + 1) % u64Size with hlen
  have hloop : dbnamesLoop k (n + 1) len (n + 1 + 1) 1 [] =
      if dbs * 42 + 1 ≤ len then .ok (joinFields (dbNames k dbs)) else .error .memory := by
    have := @dbnamesLoop_eq k (n + 1) len (n + 1 + 1) 0 hk (by omega) (by omega) (by omega)
      (by omega)
    simpa [dbNames, joinFields] using this
  rw [loadDatabaseList]
  simp only [hkey, hmax, ← hdbs, ← hlen, hloop]
  by_cases hbuf : dbs * XMQ_DBNAME_LEN + 1 < u64Size
  · have hleneq : len = dbs * 42 + 1 := Nat.mod_eq_of_lt hbuf
    have htwo : ¬(dbs * 42 + 1 < 2) := by omega
    have htake : (joinFields (dbNames k dbs)).take (dbs * 42 + 1 - 2) =
        (joinFields (dbNames k dbs)).dropLast := by
      rw [dropLast_eq_take, joinFields_dbNames_length]
      congr 1
    have hcount : (dbNames k dbs).length = dbs := by simp [dbNames]
    have hmap : (dbNames k dbs).map (mkDb ctx.kvDbPath) =
        (List.range dbs).map (dbAt ctx.kvDbPath k) := by
      rw [dbNames, map_map]
      rfl
    simp only [hleneq, le_refl, if_true, htwo, if_false, htake, csvParse_eq,
      runs_joinFields hfields, hcount, hcsv, hbuf, hnil, hmap, hmax, nil_append]
  · -- the size of the buffer wrapped, so the names do not fit
    have hsmall : len < u64Size := Nat.mod_lt _ (by unfold u64Size; omega)
    have hno : ¬(dbs * 42 + 1 ≤ len) := by
      have : XMQ_DBNAME_LEN = 42 := rfl
      rw [this] at hbuf
      omega
    simp only [hno, if_false, hbuf]

end Reload

end Supex.Xmq
