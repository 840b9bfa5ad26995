import Supex.Lib.Walk
import Supex.Tsdb.Scan

/-!
# TSDB — LRANGE and the order of the store

`doc/tsdb.md` has `LRANGE` list all pairs between two keys. `ldb_lrangeget` seeks
to the start key in the order of the store, and ends the walk with
`strncmp(ed_key, p_key, ed_klen)`: it compares as many bytes as the end key has,
none behind a NUL, and of a shorter key what lies in memory behind it.

* `strncmp_nonneg_iff` — what the comparison says.

Main result: `lrange_exact_iff`.
-/

namespace Supex.Tsdb

open Supex.Lib List

/-- `0 <= strncmp(ed_key, p, ed_klen)`, in terms of the order of byte strings: as
C strings, the first bytes from `p` on are not behind the end key. -/
def NotBehind (edKey mem : Bytes) : Prop := cstr (mem.take edKey.length) ≤ cstr edKey

instance (edKey mem : Bytes) : Decidable (NotBehind edKey mem) :=
  inferInstanceAs (Decidable (_ ≤ _))

theorem cstr_take_succ (n : Nat) (s : Bytes) :
    cstr (s.take (n + 1)) =
      if s.headD 0 = 0 then [] else s.headD 0 :: cstr (s.tail.take n) := by
  unfold cstr
  cases s with
  | nil => rfl
  | cons b s =>
    rw [take_succ_cons, takeWhile_cons]
    by_cases hb : b = 0
    · simp [hb]
    · simp [hb]

theorem strncmp_nonneg_iff (n : Nat) (s t : Bytes) :
    0 ≤ strncmp n s t ↔ cstr (t.take n) ≤ cstr (s.take n) := by
  rw [← not_lt (a := cstr (s.take n))]
  induction n generalizing s t with
  | zero => exact iff_of_true le_rfl (lt_irrefl _)
  | succ n ih =>
    rw [strncmp, cstr_take_succ, cstr_take_succ]
    generalize s.headD 0 = x
    generalize t.headD 0 = y
    by_cases hxy : x = y
    · rw [if_neg (not_not_intro hxy), hxy]
      by_cases hy : y = 0
      · rw [if_pos hy, if_pos hy, if_pos hy]
        exact iff_of_true le_rfl (lt_irrefl _)
      · rw [if_neg hy, if_neg hy, if_neg hy, ih, not_iff_not]
        exact cons_lt_cons_self.symm
    · rw [if_pos hxy]
      by_cases hy : y = 0
      · rw [if_pos hy]
        refine iff_of_true ?_ (not_lt_nil _)
        rw [hy, show (0 : UInt8).toNat = 0 from rfl]
        omega
      · rw [if_neg hy]
        by_cases hx : x = 0
        · have hpos : y.toNat ≠ 0 := fun h => hy (UInt8.toNat_inj.mp h)
          rw [if_pos hx, hx, show (0 : UInt8).toNat = 0 from rfl]
          exact iff_of_false (by omega) (not_not_intro (nil_lt_cons _ _))
        · rw [if_neg hx]
          have hlt : x < y ↔ x.toNat < y.toNat := UInt8.lt_iff_toNat_lt
          constructor
          · intro h hless
            rcases cons_lt_cons_iff.mp hless with hless | ⟨heq, -⟩
            · have := hlt.mp hless
              omega
            · exact hxy heq
          · intro h
            by_contra hneg
            exact h (List.Lex.rel (hlt.mpr (by omega)))

theorem notBehind_iff (edKey mem : Bytes) :
    NotBehind edKey mem ↔ 0 ≤ strncmp edKey.length edKey mem := by
  rw [strncmp_nonneg_iff, take_length]
  rfl

--
-- The pairs between two keys
--

/-- The pairs from `stKey` to `edKey`, in the order of the store. -/
def between (db : Ldb) (stKey edKey : Bytes) : List (Bytes × Bytes) :=
  db.entries.filter fun e => decide (stKey ≤ e.1 ∧ e.1 ≤ edKey)

/-- The first pair behind them. -/
def firstBehind (db : Ldb) (stKey edKey : Bytes) : Option (Bytes × Bytes) :=
  db.entries.find? fun e => decide (stKey ≤ e.1 ∧ edKey < e.1)

theorem fromKey_eq_filter (db : Ldb) (key : Bytes) :
    fromKey db key = db.entries.filter fun e => decide (key ≤ e.1) := by
  have hinitial : Initial (fun e : Bytes × Bytes => decide (e.1 < key)) db.entries :=
    db.sorted.imp fun hab hb => by
      rw [decide_eq_true_eq] at hb ⊢
      exact hab.trans hb
  unfold fromKey
  rw [dropWhile_eq_filter hinitial]
  congr 1
  funext e
  rw [← decide_not]
  exact decide_eq_decide.mpr not_lt

theorem between_eq_takeWhile (db : Ldb) (stKey edKey : Bytes) :
    between db stKey edKey = (fromKey db stKey).takeWhile fun e => decide (e.1 ≤ edKey) := by
  have hinitial : Initial (fun e : Bytes × Bytes => decide (e.1 ≤ edKey)) (fromKey db stKey) := by
    rw [fromKey_eq_filter]
    refine (db.sorted.filter _).imp fun hab hb => ?_
    rw [decide_eq_true_eq] at hb ⊢
    exact hab.le.trans hb
  rw [takeWhile_eq_filter hinitial, fromKey_eq_filter, filter_filter, between]
  congr 1
  funext e
  rw [← Bool.decide_and]
  exact decide_eq_decide.mpr and_comm

theorem firstBehind_eq (db : Ldb) (stKey edKey : Bytes) :
    firstBehind db stKey edKey =
      (fromKey db stKey).find? fun e => !decide (e.1 ≤ edKey) := by
  rw [fromKey_eq_filter, find?_filter, firstBehind]
  congr 1
  funext e
  refine decide_eq_decide.mpr ?_
  rw [decide_eq_true_eq, ← decide_not, decide_eq_true_eq, not_le]

/-- **LRANGE.** The walk lists exactly the pairs between the keys, each once and in
order, exactly when its test lets through every key between them (and, if there is
one, the start key), and does not let through the first key behind them (if it
lets through the start key). -/
theorem lrange_exact_iff (db : Ldb) (preKey stTime edTime stBehind : Bytes)
    (keyBehind : Bytes → Bytes) :
    (Query.lrange preKey stTime edTime stBehind keyBehind).scan db =
        .ok (between db (preKey ++ stTime) (preKey ++ edTime)) ↔
      (∀ e ∈ between db (preKey ++ stTime) (preKey ++ edTime),
        NotBehind (preKey ++ edTime) (preKey ++ stTime ++ stBehind) ∧
          NotBehind (preKey ++ edTime) (e.1 ++ keyBehind e.1)) ∧
      ∀ e, firstBehind db (preKey ++ stTime) (preKey ++ edTime) = some e →
        NotBehind (preKey ++ edTime) (preKey ++ stTime ++ stBehind) →
          ¬NotBehind (preKey ++ edTime) (e.1 ++ keyBehind e.1) := by
  generalize hst : preKey ++ stTime = stKey
  generalize hed : preKey ++ edTime = edKey
  have hscan : (Query.lrange preKey stTime edTime stBehind keyBehind).scan db =
      if NotBehind edKey (stKey ++ stBehind) then
        .ok ((fromKey db stKey).takeWhile fun e => decide (NotBehind edKey (e.1 ++ keyBehind e.1)))
      else .ok [] := by
    unfold Query.scan
    dsimp only
    rw [hst, hed]
    simp only [notBehind_iff, not_lt, gt_iff_lt]
  rw [hscan, between_eq_takeWhile, firstBehind_eq]
  by_cases hstart : NotBehind edKey (stKey ++ stBehind)
  · rw [if_pos hstart, Except.ok.injEq, takeWhile_congr_iff]
    simp only [hstart, true_and, decide_eq_true_eq, decide_eq_false_iff_not, true_imp_iff]
  · rw [if_neg hstart, Except.ok.injEq]
    simp only [hstart, false_and, false_imp_iff, implies_true, and_true]
    rw [eq_comm, eq_nil_iff_forall_not_mem]

/-- One key, and the range of that key. -/
theorem lrange_exact_iff_one :
    (Query.lrange (ascii "a") (ascii "1") (ascii "1") [] fun _ => []).scan
        ⟨[(ascii "a1", ascii "x")], by decide⟩ =
      .ok (between ⟨[(ascii "a1", ascii "x")], by decide⟩ (ascii "a" ++ ascii "1")
        (ascii "a" ++ ascii "1")) :=
  (lrange_exact_iff ⟨[(ascii "a1", ascii "x")], by decide⟩ (ascii "a") (ascii "1") (ascii "1") []
    fun _ => []).mpr (by decide)

/-- The keys `a1` and `a10`: `LRANGE a 1 1` lists both, though `a10` is behind
`a1`. -/
theorem lrange_lists_behind :
    ¬∀ (db : Ldb) (preKey stTime edTime stBehind : Bytes) (keyBehind : Bytes → Bytes),
      (Query.lrange preKey stTime edTime stBehind keyBehind).scan db =
        .ok (between db (preKey ++ stTime) (preKey ++ edTime)) := by
  intro h
  have hlist := h ⟨[(ascii "a1", ascii "x"), (ascii "a10", ascii "y")], by decide⟩
    (ascii "a") (ascii "1") (ascii "1") [] fun _ => []
  revert hlist
  decide

end Supex.Tsdb
