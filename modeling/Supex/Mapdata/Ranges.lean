import Supex.Lib.Bytes
import Supex.Lib.Run

/-!
# Id ranges of the map data generators

The generators of the map data files (`map_line_gen_file`, `topo_file_gen`,
`mappoi_gen_file_poi`, `mappoi_gen_file_sg`) run one loop

    unsigned int start_id = 0, end_id = load_once;
    while (start_id <= max_id) {
        ... where id > start_id and id <= end_id ...
        start_id = end_id;
        end_id = end_id + load_once;
    }

in 32-bit arithmetic. `idRanges` is the list of ranges it goes through,
`selectRows` the answer of the database to the query of one range, whose bounds
are printed with `%d` or `%ld`.

* `rounds_of_lt` — as long as nothing wraps these are the rounds
  `0 .. max_id / load_once`.
* `selectRows_of_lt`, `flatMap_rounds_perm` — and the rounds together return every
  row once.

Main result: `idRanges_eq_ok`.
-/

namespace Supex.Mapdata

open Supex.Lib List Nat

/-- `start_id` in round `k`; also `end_id` in the round before. -/
def startId (loadOnce k : Nat) : Nat := k * loadOnce % 2 ^ 32

/-- The ranges `(start_id, end_id]` of the generator's loop. -/
def idRanges (maxId loadOnce : Nat) : Nat → Nat → Nat → Except Fault (List (Nat × Nat))
  | 0, _, _ => .error .diverge
  | fuel + 1, start, stop =>
    if start ≤ maxId then do
      let rest ← idRanges maxId loadOnce fuel stop ((stop + loadOnce) % 2 ^ 32)
      pure ((start, stop) :: rest)
    else .ok []

/-- The rows the database returns for `key > start and key <= stop`, with the
bounds as they are printed into the query. -/
def selectRows {ρ : Type} (print : Nat → Int) (key : ρ → Nat) (table : List ρ)
    (range : Nat × Nat) : List ρ :=
  table.filter fun r => decide (print range.1 < key r ∧ (key r : Int) ≤ print range.2)

--
-- How many rounds the loop makes
--

/-- The loop makes `n` rounds. -/
structure Rounds (maxId loadOnce n : Nat) : Prop where
  within : ∀ k < n, startId loadOnce k ≤ maxId
  past : maxId < startId loadOnce n

/-- The ranges of the first `n` rounds from round `k` on. -/
def rangesFrom (loadOnce k n : Nat) : List (Nat × Nat) :=
  (List.range n).map fun i => (startId loadOnce (k + i), startId loadOnce (k + i + 1))

variable {maxId loadOnce fuel n k : Nat}

theorem startId_succ (loadOnce k : Nat) :
    (startId loadOnce k + loadOnce) % 2 ^ 32 = startId loadOnce (k + 1) := by
  unfold startId
  rw [mod_add_mod, Nat.add_mul, Nat.one_mul]

theorem rangesFrom_succ (loadOnce k n : Nat) :
    rangesFrom loadOnce k (n + 1) =
      (startId loadOnce k, startId loadOnce (k + 1)) :: rangesFrom loadOnce (k + 1) n := by
  unfold rangesFrom
  rw [range_succ_eq_map, map_cons, map_map, Nat.add_zero]
  congr 1
  apply map_congr_left
  intro i _
  simp only [Function.comp_apply, succ_eq_add_one]
  rw [show k + (i + 1) = k + 1 + i by omega]

theorem idRangesFrom_eq_ok {rs : List (Nat × Nat)} :
    idRanges maxId loadOnce fuel (startId loadOnce k) (startId loadOnce (k + 1)) = .ok rs ↔
      ∃ n < fuel, (∀ i < n, startId loadOnce (k + i) ≤ maxId) ∧
        maxId < startId loadOnce (k + n) ∧ rs = rangesFrom loadOnce k n := by
  induction fuel generalizing k rs with
  | zero =>
    refine ⟨nofun, ?_⟩
    rintro ⟨n, hn, -⟩
    omega
  | succ fuel ih =>
    unfold idRanges
    rw [startId_succ]
    split
    · next hle =>
      constructor
      · intro h
        obtain ⟨rest, hrest, heq⟩ := bind_eq_ok.mp h
        obtain ⟨n, hn, hwithin, hpast, rfl⟩ := ih.mp hrest
        refine ⟨n + 1, by omega, ?_, ?_, ?_⟩
        · intro i hi
          rcases Nat.eq_zero_or_pos i with rfl | hpos
          · exact hle
          · obtain ⟨j, rfl⟩ : ∃ j, i = j + 1 := ⟨i - 1, by omega⟩
            rw [show k + (j + 1) = k + 1 + j by omega]
            exact hwithin j (by omega)
        · rw [show k + (n + 1) = k + 1 + n by omega]
          exact hpast
        · rw [rangesFrom_succ]
          exact (Except.ok.inj heq).symm
      · rintro ⟨n, hn, hwithin, hpast, rfl⟩
        obtain ⟨m, rfl⟩ : ∃ m, n = m + 1 := by
          rcases n with _ | m
          · rw [Nat.add_zero] at hpast
            omega
          · exact ⟨m, rfl⟩
        refine bind_eq_ok.mpr ⟨rangesFrom loadOnce (k + 1) m, ih.mpr ⟨m, by omega, ?_, ?_, rfl⟩, ?_⟩
        · intro i hi
          rw [show k + 1 + i = k + (i + 1) by omega]
          exact hwithin (i + 1) (by omega)
        · rw [show k + 1 + m = k + (m + 1) by omega]
          exact hpast
        · rw [rangesFrom_succ]
          rfl
    · next hgt =>
      constructor
      · intro h
        refine ⟨0, by omega, nofun, by rw [Nat.add_zero]; omega, ?_⟩
        exact (Except.ok.inj h).symm
      · rintro ⟨n, hn, hwithin, -, rfl⟩
        rcases n with _ | n
        · rfl
        · exact absurd (hwithin 0 (by omega)) hgt

/-- **The generator's loop** ends after `n` rounds exactly when `start_id` is
beyond `max_id` then, and not before. -/
theorem idRanges_eq_ok (hlt : loadOnce < 2 ^ 32) {rs : List (Nat × Nat)} :
    idRanges maxId loadOnce fuel 0 loadOnce = .ok rs ↔
      ∃ n < fuel, Rounds maxId loadOnce n ∧ rs = rangesFrom loadOnce 0 n := by
  have hzero : startId loadOnce 0 = 0 := by simp [startId]
  have hone : startId loadOnce (0 + 1) = loadOnce := by
    simp only [startId, Nat.zero_add, Nat.one_mul]
    exact mod_eq_of_lt hlt
  have h := @idRangesFrom_eq_ok maxId loadOnce fuel 0 rs
  rw [hzero, hone] at h
  rw [h]
  constructor
  · rintro ⟨n, hn, hwithin, hpast, hrs⟩
    refine ⟨n, hn, ⟨fun i hi => ?_, ?_⟩, hrs⟩
    · have := hwithin i hi
      rwa [Nat.zero_add] at this
    · rwa [Nat.zero_add] at hpast
  · rintro ⟨n, hn, hr, hrs⟩
    refine ⟨n, hn, fun i hi => ?_, ?_, hrs⟩
    · rw [Nat.zero_add]
      exact hr.within i hi
    · rw [Nat.zero_add]
      exact hr.past

--
-- Rounds that do not wrap
--

theorem startId_of_lt (h : k * loadOnce < 2 ^ 32) : startId loadOnce k = k * loadOnce :=
  mod_eq_of_lt h

theorem Rounds.maxId_lt (h : Rounds maxId loadOnce n) : maxId < 2 ^ 32 :=
  Nat.lt_trans h.past (mod_lt _ (by decide))

theorem Rounds.lt_of_le (h : Rounds maxId loadOnce n) (hk : k * loadOnce ≤ maxId) : k < n := by
  by_contra hge
  have hle : n * loadOnce ≤ maxId := Nat.le_trans (Nat.mul_le_mul_right _ (by omega)) hk
  have hmax := h.maxId_lt
  have hpast := h.past
  rw [startId_of_lt (by omega)] at hpast
  omega

theorem Rounds.unique {n' : Nat} (h : Rounds maxId loadOnce n) (h' : Rounds maxId loadOnce n') :
    n = n' := by
  rcases Nat.lt_trichotomy n n' with hlt | heq | hgt
  · exact absurd (h'.within n hlt) (Nat.not_le_of_gt h.past)
  · exact heq
  · exact absurd (h.within n' hgt) (Nat.not_le_of_gt h'.past)

theorem rounds_of_lt (h : (maxId / loadOnce + 1) * loadOnce < 2 ^ 32) (hpos : 0 < loadOnce) :
    Rounds maxId loadOnce (maxId / loadOnce + 1) := by
  constructor
  · intro k hk
    have hle : k * loadOnce ≤ maxId / loadOnce * loadOnce :=
      Nat.mul_le_mul_right _ (by omega)
    have hdiv : maxId / loadOnce * loadOnce ≤ maxId := div_mul_le_self _ _
    exact Nat.le_trans (mod_le _ _) (Nat.le_trans hle hdiv)
  · rw [startId_of_lt h]
    exact lt_mul_of_div_lt (lt_succ_self _) hpos

/-- As long as the bounds stay below 2^31, a round returns the rows of its ids
however they are printed. -/
theorem selectRows_of_lt {ρ : Type} {print : Nat → Int} {key : ρ → Nat} {table : List ρ}
    (hprint : ∀ i < 2 ^ 31, print i = i) (hpos : 0 < loadOnce) (hkey : ∀ r ∈ table, 0 < key r)
    (hlt : (k + 1) * loadOnce < 2 ^ 31) :
    selectRows print key table (startId loadOnce k, startId loadOnce (k + 1)) =
      table.filter fun r => (key r - 1) / loadOnce = k := by
  have hk : k * loadOnce < 2 ^ 31 :=
    Nat.lt_of_le_of_lt (Nat.mul_le_mul_right _ (le_succ k)) hlt
  unfold selectRows
  rw [startId_of_lt (by omega), startId_of_lt (by omega), hprint _ hk, hprint _ hlt]
  apply filter_congr
  intro r hr
  have hr := hkey r hr
  rw [decide_eq_decide, Nat.div_eq_iff hpos]
  rw [Nat.add_mul, Nat.one_mul] at hlt ⊢
  omega

theorem flatMap_rounds_perm {ρ : Type} (round : ρ → Nat) (table : List ρ)
    (h : ∀ r ∈ table, round r < n) :
    ((List.range n).flatMap fun k => table.filter fun r => round r = k).Perm table := by
  have hlt : ((List.range n).flatMap fun k => table.filter fun r => round r = k).Perm
      (table.filter fun r => round r < n) := by
    clear h
    induction n with
    | zero => simp
    | succ n ih =>
      rw [range_succ, flatMap_append, flatMap_singleton]
      refine (ih.append_right _).trans ?_
      have hsplit := filter_append_perm (fun r => decide (round r < n))
        (table.filter fun r => round r < n + 1)
      rw [filter_filter, filter_filter] at hsplit
      refine (List.Perm.of_eq ?_).trans hsplit
      congr 1
      · apply filter_congr
        intro r _
        rw [← Bool.decide_and, decide_eq_decide]
        omega
      · apply filter_congr
        intro r _
        rw [← decide_not, ← Bool.decide_and, decide_eq_decide]
        omega
  refine hlt.trans (List.Perm.of_eq (filter_eq_self.mpr fun r hr => ?_))
  exact decide_eq_true (h r hr)

end Supex.Mapdata
