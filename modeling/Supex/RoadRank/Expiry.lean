import Supex.RoadRank.Located
import Mathlib.Data.Int.Range

/-!
# Deleting expired segments

`delete_roadsection` goes through the slots `B` to `E` and deletes a slot where it finds
its time expired. It looks at slot `B` in every turn, and goes on to the next slot behind
a deletion as well, though the next segment has moved into the slot. So it deletes
nothing, the segment in slot `B`, or one segment in each turn.

Main result: `deletes_iff`.
-/

namespace Supex.RoadRank

open Supex.Lib List

--
-- What is asked of a deletion
--

variable {D : Type}

/-- A slot: the site, its coordinates, and which segment it is. -/
def Located.slot (r : Located D) (k : Int) : Site × D × D × Int :=
  (r.sec k, r.longitude k, r.latitude k, r.origin k)

/-- The time of the segment in slot `i` is expired. -/
def Old (r : Located D) (now expire i : Int) : Prop := expire ≤ now - (r.sec i).endtime

instance (r : Located D) (now expire i : Int) : Decidable (Old r now expire i) :=
  inferInstanceAs (Decidable (_ ≤ _))

/-- The segments that stay. -/
def staying (r : Located D) (b e now expire : Int) : List Int :=
  (Int.range 0 r.secNum).filter fun i => ¬(b ≤ i ∧ i ≤ e ∧ Old r now expire i)

/-- `num` segments went, and the others are left, unchanged and in their order. -/
structure Deletes (r : Located D) (b e now expire : Int) (num : Int) (r' : Located D) : Prop where
  num : num = r.secNum - (staying r b e now expire).length
  secNum : r'.secNum = (staying r b e now expire).length
  segments : ∀ (k : Nat) (i : Int), (staying r b e now expire)[k]? = some i →
    r'.slot k = (r.sec i, r.longitude i, r.latitude i, i)

/-- Slot `j` can take over slot `j + 1`: a field that is zero there is zero here, or is
stored without a test. -/
structure ZeroSafe [Zero D] (r : Located D) (j : Int) : Prop where
  end_ : (r.sec (j + 1)).end_ = 0 → (r.sec j).end_ = 0
  endtime : (r.sec (j + 1)).endtime = 0 → (r.sec j).endtime = 0
  longitude : r.longitude (j + 1) = 0 → r.longitude j = 0
  latitude : r.latitude (j + 1) = 0 → r.latitude j = 0

/-- Nothing is expired; or only the first segment is, and the ones behind it can be moved;
or all are, up to the last segment of the road. -/
def DeletionFits [Zero D] (r : Located D) (b e now expire : Int) : Prop :=
  (∀ i, b ≤ i → i ≤ e → ¬Old r now expire i) ∨
    (Old r now expire b ∧ (∀ i, b < i → i ≤ e → ¬Old r now expire i) ∧
      ∀ j, b ≤ j → j + 1 < r.secNum → ZeroSafe r j) ∨
    (∀ i, b ≤ i → i ≤ e → Old r now expire i) ∧ e + 1 = r.secNum

--
-- Ranges
--

theorem range_length (a b : Int) : (Int.range a b).length = (b - a).toNat := by
  simp [Int.range]

theorem range_getElem? (a b : Int) (k : Nat) :
    (Int.range a b)[k]? = if k < (b - a).toNat then some (a + k) else none := by
  rw [Int.range, getElem?_map]
  by_cases hk : k < (b - a).toNat
  · rw [getElem?_range hk, if_pos hk]
    rfl
  · rw [getElem?_eq_none (by simpa using hk), if_neg hk]
    rfl

theorem range_append {a b c : Int} (hab : a ≤ b) (hbc : b ≤ c) :
    Int.range a b ++ Int.range b c = Int.range a c := by
  apply ext_getElem?
  intro k
  rw [range_getElem?, getElem?_append, range_length, range_getElem?, range_getElem?]
  by_cases hk : k < (b - a).toNat
  · rw [if_pos hk, if_pos hk, if_pos (by omega)]
  · rw [if_neg hk]
    by_cases hk' : k < (c - a).toNat
    · rw [if_pos (by omega), if_pos hk']
      congr 1
      omega
    · rw [if_neg (by omega), if_neg hk']

theorem range_cons {a b : Int} (h : a < b) : Int.range a b = a :: Int.range (a + 1) b := by
  rw [← range_append (by omega : a ≤ a + 1) (by omega : a + 1 ≤ b)]
  have : Int.range a (a + 1) = [a] := by
    rw [Int.range, show (a + 1 - a).toNat = 1 by omega]
    simp
  rw [this]
  rfl

/-- The segments in front of the slots, those in the slots that are not expired, and those
behind. -/
theorem staying_eq (r : Located D) {b e : Int} (now expire : Int) (hb : 0 ≤ b) (hbe : b ≤ e)
    (he : e < r.secNum) :
    staying r b e now expire =
      Int.range 0 b ++ (Int.range b (e + 1)).filter (fun i => ¬Old r now expire i) ++
        Int.range (e + 1) r.secNum := by
  rw [staying, ← range_append (by omega : (0 : Int) ≤ e + 1) (by omega : e + 1 ≤ r.secNum),
    ← range_append hb (by omega : b ≤ e + 1), filter_append, filter_append]
  congr 1
  · congr 1
    · rw [filter_eq_self]
      intro i hi
      have := (Int.mem_range_iff.mp hi).2
      simp only [decide_not, Bool.not_eq_eq_eq_not, Bool.not_true, decide_eq_false_iff_not]
      omega
    · apply filter_congr
      intro i hi
      obtain ⟨hlo, hhi⟩ := Int.mem_range_iff.mp hi
      have hle : i ≤ e := by omega
      simp [hlo, hle]
  · rw [filter_eq_self]
    intro i hi
    have := (Int.mem_range_iff.mp hi).1
    simp only [decide_not, Bool.not_eq_eq_eq_not, Bool.not_true, decide_eq_false_iff_not]
    omega

--
-- What the code deletes
--

section

variable [Zero D] [DecidableEq D]

/-- A coordinate that is taken over from the next slot. -/
def takeCoordinate (f : Int → D) (j : Int) : D := if f (j + 1) ≠ 0 then f (j + 1) else f j

/-- Slot `j` when it takes over slot `j + 1`. -/
def Located.taken (r : Located D) (j : Int) : Site × D × D × Int :=
  (takeOver (r.sec j) (r.sec (j + 1)), takeCoordinate r.longitude j,
    takeCoordinate r.latitude j, r.origin (j + 1))

theorem setCoordinate_self (f : Int → D) (i : Int) (v : D) :
    setCoordinate f i v i = if v ≠ 0 then v else f i := by
  rw [setCoordinate]
  split
  · exact Function.update_self ..
  · rfl

theorem setCoordinate_of_ne {i j : Int} (h : j ≠ i) (f : Int → D) (v : D) :
    setCoordinate f i v j = f j := by
  rw [setCoordinate]
  split
  · exact Function.update_of_ne h ..
  · rfl

theorem slot_shiftDown (n : Nat) (j : Int) (r : Located D) (k : Int) :
    (Located.shiftDown n j r).slot k =
      if j ≤ k ∧ k < j + n then r.taken k else r.slot k := by
  induction n generalizing j r with
  | zero =>
    rw [if_neg (by omega)]
    rfl
  | succ n ih =>
    have hself : ∀ r' : Located D, r' = { r.copy j (j + 1) with
          toRoad := (r.copy j (j + 1)).put j fun s =>
            setUsedTime s true (r.sec (j + 1)).usedTime } →
        r'.slot j = r.taken j ∧ ∀ i, i ≠ j → r'.slot i = r.slot i ∧
          (i + 1 ≠ j → r'.taken i = r.taken i) := by
      rintro r' rfl
      have hother : ∀ i, i ≠ j → (⟨(r.copy j (j + 1)).put j fun s =>
          setUsedTime s true (r.sec (j + 1)).usedTime, (r.copy j (j + 1)).longitude,
          (r.copy j (j + 1)).latitude, (r.copy j (j + 1)).origin⟩ : Located D).slot i =
            r.slot i := by
        intro i hi
        simp only [Located.slot, Located.copy, sec_put_of_ne hi, sec_look, setCoordinate_of_ne hi,
          Function.update_of_ne hi]
      refine ⟨?_, fun i hi => ⟨hother i hi, fun hi' => ?_⟩⟩
      · simp only [Located.slot, Located.taken, Located.copy, sec_put_self, sec_look,
          setCoordinate_self, Function.update_self]
        rfl
      · have h₀ := hother i hi
        have h₁ := hother (i + 1) hi'
        simp only [Located.slot, Prod.mk.injEq] at h₀ h₁
        simp only [Located.taken, takeCoordinate, h₀, h₁]
    obtain ⟨hj, hothers⟩ := hself _ rfl
    rw [Located.shiftDown]
    rw [ih]
    by_cases hk : k = j
    · subst hk
      rw [if_neg (by omega), if_pos (by push_cast; omega), hj]
    · by_cases hrange : j + 1 ≤ k ∧ k < j + 1 + n
      · rw [if_pos hrange, if_pos (by push_cast; omega), (hothers k hk).2 (by omega)]
      · rw [if_neg hrange, if_neg (by push_cast; omega), (hothers k hk).1]

theorem slot_deleteAt (i : Int) (r : Located D) (k : Int) :
    (Located.deleteAt i r).slot k = if i ≤ k ∧ k < r.secNum then r.taken k else r.slot k := by
  have h := slot_shiftDown (r.secNum - i).toNat i r k
  have hslot : (Located.deleteAt i r).slot k =
      (Located.shiftDown (r.secNum - i).toNat i r).slot k := rfl
  rw [hslot, h]
  by_cases hk : i ≤ k ∧ k < r.secNum
  · rw [if_pos hk, if_pos (by omega)]
  · rw [if_neg hk, if_neg (by omega)]

theorem secNum_deleteAt (i : Int) (r : Located D) :
    (Located.deleteAt i r).secNum = r.secNum - 1 := by
  rw [Located.toRoad_deleteAt]
  exact (deleteAt_spec i r.toRoad).1

theorem comparing_eq_zero (t now expire : Int) :
    comparingFrontAndBackT t now expire = 0 ↔ expire ≤ now - t := by
  unfold comparingFrontAndBackT
  dsimp only
  split
  · rename_i hlt
    split <;> simp [hlt]
  · rename_i hlt
    simpa using hlt

theorem deleteFrom_stop {b now expire : Int} (n : Nat) (i num : Int) {r : Located D}
    (h : ¬Old r now expire b) :
    (Located.deleteFrom b now expire n i num r).1 = num ∧
      (Located.deleteFrom b now expire n i num r).2.secNum = r.secNum ∧
      ∀ k, (Located.deleteFrom b now expire n i num r).2.slot k = r.slot k := by
  induction n generalizing i r with
  | zero => exact ⟨rfl, rfl, fun _ => rfl⟩
  | succ n ih =>
    rw [Located.deleteFrom]
    rw [sec_look, if_neg (mt (comparing_eq_zero _ _ _).mp h)]
    exact ih (r := { r with toRoad := r.look b }) (i + 1) h

omit [Zero D] [DecidableEq D] in
theorem old_of_slot {r r' : Located D} {k : Int} (h : r'.slot k = r.slot k) (now expire : Int) :
    Old r' now expire k ↔ Old r now expire k := by
  have hsec : r'.sec k = r.sec k := congrArg Prod.fst h
  rw [Old, Old, hsec]

/-- A slot `b` that is expired: every turn behind it deletes a segment, and leaves the
slots in front. -/
theorem deleteFrom_go {b now expire : Int} (n : Nat) {i : Int} (num : Int) {r : Located D}
    (hbi : b < i) (h : Old r now expire b) :
    (Located.deleteFrom b now expire n i num r).1 = num + n ∧
      (Located.deleteFrom b now expire n i num r).2.secNum = r.secNum - n ∧
      ∀ k < i, (Located.deleteFrom b now expire n i num r).2.slot k = r.slot k := by
  induction n generalizing i num r with
  | zero => exact ⟨(add_zero num).symm, (sub_zero r.secNum).symm, fun _ _ => rfl⟩
  | succ n ih =>
    have hfront : ∀ k < i,
        (Located.deleteAt i { r with toRoad := r.look b }).slot k = r.slot k := by
      intro k hk
      rw [slot_deleteAt, if_neg (by omega)]
      rfl
    obtain ⟨hnum, hsecNum, hslot⟩ := ih (num + 1)
      (r := Located.deleteAt i { r with toRoad := r.look b }) (by omega : b < i + 1)
      ((old_of_slot (hfront b hbi) now expire).mpr h)
    rw [Located.deleteFrom]
    rw [sec_look, if_pos ((comparing_eq_zero _ _ _).mpr h)]
    refine ⟨by rw [hnum]; push_cast; ring, ?_, fun k hk => ?_⟩
    · rw [hsecNum, secNum_deleteAt, secNum_look]
      push_cast
      ring
    · rw [hslot k (by omega), hfront k hk]

theorem takeOver_eq_iff (s next : Site) :
    takeOver s next = next ↔
      (next.end_ = 0 → s.end_ = 0) ∧ (next.endtime = 0 → s.endtime = 0) := by
  have htake : takeOver s next = { next with
      end_ := if next.end_ ≠ 0 then next.end_ else s.end_
      endtime := if next.endtime ≠ 0 then next.endtime else s.endtime } := rfl
  rw [htake, Site.mk.injEq]
  by_cases hend : next.end_ = 0
  · by_cases htime : next.endtime = 0
    · simp [hend, htime]
    · simp [hend, htime]
  · by_cases htime : next.endtime = 0
    · simp [hend, htime]
    · simp [hend, htime]

theorem takeCoordinate_eq_iff (f : Int → D) (j : Int) :
    takeCoordinate f j = f (j + 1) ↔ (f (j + 1) = 0 → f j = 0) := by
  rw [takeCoordinate]
  by_cases h : f (j + 1) = 0
  · simp [h]
  · simp [h]

theorem taken_eq_iff {r : Located D} (horigin : ∀ i, r.origin i = i) (j : Int) :
    r.taken j = (r.sec (j + 1), r.longitude (j + 1), r.latitude (j + 1), j + 1) ↔
      ZeroSafe r j := by
  rw [Located.taken, Prod.mk.injEq, Prod.mk.injEq, Prod.mk.injEq, takeOver_eq_iff,
    takeCoordinate_eq_iff, takeCoordinate_eq_iff, horigin]
  constructor
  · rintro ⟨⟨hend, htime⟩, hlon, hlat, -⟩
    exact ⟨hend, htime, hlon, hlat⟩
  · rintro ⟨hend, htime, hlon, hlat⟩
    exact ⟨⟨hend, htime⟩, hlon, hlat, rfl⟩

theorem old_deleteAt {r : Located D} {b now expire : Int} (hb : b < r.secNum) :
    Old (Located.deleteAt b { r with toRoad := r.look b }) now expire b ↔
      if (r.sec (b + 1)).endtime ≠ 0 then Old r now expire (b + 1) else Old r now expire b := by
  have h := slot_deleteAt b { r with toRoad := r.look b } b
  rw [if_pos ⟨le_rfl, hb⟩] at h
  have hsec : (Located.deleteAt b { r with toRoad := r.look b }).sec b =
      takeOver (r.sec b) (r.sec (b + 1)) := congrArg Prod.fst h
  rw [Old, hsec]
  have htime : (takeOver (r.sec b) (r.sec (b + 1))).endtime =
      if (r.sec (b + 1)).endtime ≠ 0 then (r.sec (b + 1)).endtime else (r.sec b).endtime := rfl
  rw [htime]
  split <;> rfl

--
-- The three outcomes
--

section

variable {r : Located D} {b e now expire : Int}

theorem delete_none (hbe : b ≤ e) (he : e < r.secNum) (h : ¬Old r now expire b) :
    (r.deleteRoadsection b e now expire).1 = 0 ∧
      (r.deleteRoadsection b e now expire).2.secNum = r.secNum ∧
      ∀ k, (r.deleteRoadsection b e now expire).2.slot k = r.slot k := by
  rw [Located.deleteRoadsection, if_neg (by omega)]
  exact deleteFrom_stop _ b 0 h

theorem delete_one (hbe : b ≤ e) (he : e < r.secNum) (h : Old r now expire b)
    (hnext : b = e ∨ ¬Old (Located.deleteAt b { r with toRoad := r.look b }) now expire b) :
    (r.deleteRoadsection b e now expire).1 = 1 ∧
      (r.deleteRoadsection b e now expire).2.secNum = r.secNum - 1 ∧
      ∀ k, (r.deleteRoadsection b e now expire).2.slot k =
        if b ≤ k ∧ k < r.secNum then r.taken k else r.slot k := by
  have hturns : (e + 1 - b).toNat = (e - b).toNat + 1 := by omega
  rw [Located.deleteRoadsection, if_neg (by omega), hturns, Located.deleteFrom]
  rw [sec_look, if_pos ((comparing_eq_zero _ _ _).mpr h)]
  have hslot := slot_deleteAt b { r with toRoad := r.look b }
  have hsecNum := secNum_deleteAt b { r with toRoad := r.look b }
  rcases hnext with rfl | hnext
  · rw [sub_self]
    exact ⟨rfl, hsecNum, hslot⟩
  · obtain ⟨hnum, hsecNum', hslot'⟩ := deleteFrom_stop (e - b).toNat (b + 1) (0 + 1) hnext
    exact ⟨hnum, hsecNum'.trans hsecNum, fun k => (hslot' k).trans (hslot k)⟩

theorem delete_all (hbe : b < e) (he : e < r.secNum) (h : Old r now expire b)
    (hnext : Old (Located.deleteAt b { r with toRoad := r.look b }) now expire b) :
    (r.deleteRoadsection b e now expire).1 = e + 1 - b ∧
      (r.deleteRoadsection b e now expire).2.secNum = r.secNum - (e + 1 - b) ∧
      (r.deleteRoadsection b e now expire).2.slot b = r.taken b ∧
      ∀ k < b, (r.deleteRoadsection b e now expire).2.slot k = r.slot k := by
  have hturns : (e + 1 - b).toNat = (e - b).toNat + 1 := by omega
  rw [Located.deleteRoadsection, if_neg (by omega), hturns, Located.deleteFrom]
  rw [sec_look, if_pos ((comparing_eq_zero _ _ _).mpr h)]
  have hslot := slot_deleteAt b { r with toRoad := r.look b }
  have hsecNum := secNum_deleteAt b { r with toRoad := r.look b }
  obtain ⟨hnum, hsecNum', hslot'⟩ :=
    deleteFrom_go (e - b).toNat (0 + 1) (by omega : b < b + 1) hnext
  refine ⟨by rw [hnum]; omega, ?_, ?_, fun k hk => ?_⟩
  · rw [hsecNum', hsecNum, secNum_look]
    omega
  · rw [hslot' b (by omega), hslot, if_pos ⟨le_rfl, by rw [secNum_look]; omega⟩]
    rfl
  · rw [hslot' k (by omega), hslot, if_neg (by omega)]
    rfl

--
-- The segments that stay
--

omit [Zero D] [DecidableEq D] in
theorem staying_fresh (hb : 0 ≤ b) (hbe : b ≤ e) (he : e < r.secNum)
    (h : ∀ i, b ≤ i → i ≤ e → ¬Old r now expire i) :
    staying r b e now expire = Int.range 0 r.secNum := by
  have hmid : (Int.range b (e + 1)).filter (fun i => ¬Old r now expire i) =
      Int.range b (e + 1) := by
    rw [filter_eq_self]
    intro i hi
    obtain ⟨hlo, hhi⟩ := Int.mem_range_iff.mp hi
    simpa using h i hlo (by omega)
  rw [staying_eq r now expire hb hbe he, hmid, range_append hb (by omega),
    range_append (by omega) (by omega)]

omit [Zero D] [DecidableEq D] in
theorem staying_one (hb : 0 ≤ b) (hbe : b ≤ e) (he : e < r.secNum) (hold : Old r now expire b)
    (h : ∀ i, b < i → i ≤ e → ¬Old r now expire i) :
    staying r b e now expire = Int.range 0 b ++ Int.range (b + 1) r.secNum := by
  have hmid : (Int.range b (e + 1)).filter (fun i => ¬Old r now expire i) =
      Int.range (b + 1) (e + 1) := by
    rw [range_cons (by omega), filter_cons_of_neg (by simpa using hold), filter_eq_self]
    intro i hi
    obtain ⟨hlo, hhi⟩ := Int.mem_range_iff.mp hi
    simpa using h i (by omega) (by omega)
  rw [staying_eq r now expire hb hbe he, hmid, append_assoc,
    range_append (by omega) (by omega)]

omit [Zero D] [DecidableEq D] in
theorem staying_old (hb : 0 ≤ b) (hbe : b ≤ e) (he : e < r.secNum)
    (h : ∀ i, b ≤ i → i ≤ e → Old r now expire i) :
    staying r b e now expire = Int.range 0 b ++ Int.range (e + 1) r.secNum := by
  have hmid : (Int.range b (e + 1)).filter (fun i => ¬Old r now expire i) = [] := by
    rw [filter_eq_nil_iff]
    intro i hi
    obtain ⟨hlo, hhi⟩ := Int.mem_range_iff.mp hi
    simpa using h i hlo (by omega)
  rw [staying_eq r now expire hb hbe he, hmid, append_nil]

omit [Zero D] [DecidableEq D] in
theorem staying_length (hb : 0 ≤ b) (hbe : b ≤ e) (he : e < r.secNum) :
    ((staying r b e now expire).length : Int) = r.secNum - (e + 1 - b) +
      ((Int.range b (e + 1)).filter fun i => ¬Old r now expire i).length := by
  rw [staying_eq r now expire hb hbe he, length_append, length_append, range_length,
    range_length]
  push_cast
  omega

omit [Zero D] [DecidableEq D] in
theorem staying_one_getElem? {k : Nat} {i : Int} (hb : 0 ≤ b) (hbn : b < r.secNum) :
    (Int.range 0 b ++ Int.range (b + 1) r.secNum)[k]? = some i ↔
      k < r.secNum - 1 ∧ i = if (k : Int) < b then (k : Int) else k + 1 := by
  rw [getElem?_append, range_length, range_getElem?, range_getElem?]
  by_cases hk : (k : Int) < b
  · rw [if_pos (by omega), if_pos (by omega), if_pos hk]
    simp only [Option.some.injEq]
    omega
  · rw [if_neg (by omega), if_neg hk]
    by_cases hk' : (k : Int) < r.secNum - 1
    · rw [if_pos (by omega)]
      simp only [Option.some.injEq]
      omega
    · rw [if_neg (by omega)]
      simp [hk']

omit [Zero D] [DecidableEq D] in
theorem fresh_of_length {a : Int} (h : ((Int.range a (e + 1)).filter fun i =>
      ¬Old r now expire i).length = (e + 1 - a).toNat) :
    ∀ i, a ≤ i → i ≤ e → ¬Old r now expire i := by
  rw [← range_length a (e + 1), length_filter_eq_length_iff] at h
  intro i hlo hhi
  simpa using h i (Int.mem_range_iff.mpr ⟨hlo, by omega⟩)

omit [Zero D] [DecidableEq D] in
theorem slot_eq (horigin : ∀ i, r.origin i = i) (k : Int) :
    r.slot k = (r.sec k, r.longitude k, r.latitude k, k) := by
  rw [Located.slot, horigin]

theorem deletes_none_iff (horigin : ∀ i, r.origin i = i) (hb : 0 ≤ b) (hbe : b ≤ e)
    (he : e < r.secNum) (hold : ¬Old r now expire b) :
    Deletes r b e now expire (r.deleteRoadsection b e now expire).1
        (r.deleteRoadsection b e now expire).2 ↔
      DeletionFits r b e now expire := by
  obtain ⟨hnum, hsecNum, hall⟩ := delete_none hbe he hold
  constructor
  · intro hd
    have hcount := hd.num
    rw [hnum, staying_length hb hbe he] at hcount
    exact .inl (fresh_of_length (by omega))
  · intro hfits
    have hfresh : ∀ i, b ≤ i → i ≤ e → ¬Old r now expire i := by
      rcases hfits with h | ⟨h, -⟩ | ⟨h, -⟩
      · exact h
      · exact absurd h hold
      · exact absurd (h b le_rfl hbe) hold
    have hstay := staying_fresh hb hbe he hfresh
    refine ⟨?_, ?_, fun k i hk => ?_⟩
    · rw [hnum, hstay, range_length]
      omega
    · rw [hsecNum, hstay, range_length]
      omega
    · rw [hstay, range_getElem?] at hk
      split at hk
      · obtain rfl : 0 + (k : Int) = i := Option.some.inj hk
        rw [hall, zero_add, slot_eq horigin]
      · cases hk

theorem deletes_one_iff (horigin : ∀ i, r.origin i = i) (hb : 0 ≤ b) (hbe : b ≤ e)
    (he : e < r.secNum) (hold : Old r now expire b)
    (hnext : b = e ∨ ¬Old (Located.deleteAt b { r with toRoad := r.look b }) now expire b) :
    Deletes r b e now expire (r.deleteRoadsection b e now expire).1
        (r.deleteRoadsection b e now expire).2 ↔
      DeletionFits r b e now expire := by
  obtain ⟨hnum, hsecNum, hall⟩ := delete_one hbe he hold hnext
  constructor
  · intro hd
    have hcount := hd.num
    rw [hnum, staying_length hb hbe he, range_cons (by omega : b < e + 1),
      filter_cons_of_neg (by simpa using hold)] at hcount
    have hrest : ∀ i, b < i → i ≤ e → ¬Old r now expire i :=
      fun i hlo hhi => fresh_of_length (a := b + 1) (by omega) i (by omega) hhi
    refine .inr (.inl ⟨hold, hrest, fun j hj hj' => ?_⟩)
    have hstay := staying_one hb hbe he hold hrest
    have hplace := (staying_one_getElem? (r := r) (k := j.toNat) (i := j + 1) hb (by omega)).mpr
      ⟨by omega, by rw [if_neg (by omega)]; omega⟩
    have hseg := hd.segments j.toNat (j + 1) (by rw [hstay, hplace])
    rw [Int.toNat_of_nonneg (by omega), hall, if_pos ⟨hj, by omega⟩] at hseg
    exact (taken_eq_iff horigin j).mp hseg
  · intro hfits
    -- the first segment alone is expired, and it is the last one or the others can be moved
    obtain ⟨hrest, hsafe⟩ : (∀ i, b < i → i ≤ e → ¬Old r now expire i) ∧
        ∀ j, b ≤ j → j + 1 < r.secNum → ZeroSafe r j := by
      rcases hfits with h | ⟨-, hrest, hsafe⟩ | ⟨h, hend⟩
      · exact absurd hold (h b le_rfl hbe)
      · exact ⟨hrest, hsafe⟩
      · have hlast : b = e := by
          by_contra hne
          refine absurd ?_ (hnext.resolve_left hne)
          rw [old_deleteAt (by omega)]
          split
          · exact h (b + 1) (by omega) (by omega)
          · exact hold
        exact ⟨fun i hlo hhi => by omega, fun j hj hj' => by omega⟩
    have hstay := staying_one hb hbe he hold hrest
    refine ⟨?_, ?_, fun k i hk => ?_⟩
    · rw [hnum, hstay, length_append, range_length, range_length]
      omega
    · rw [hsecNum, hstay, length_append, range_length, range_length]
      omega
    · rw [hstay, staying_one_getElem? hb (by omega)] at hk
      obtain ⟨hkn, rfl⟩ := hk
      rw [hall]
      by_cases hkb : (k : Int) < b
      · rw [if_neg (by omega), if_pos hkb, slot_eq horigin]
      · rw [if_pos ⟨by omega, by omega⟩, if_neg hkb]
        exact (taken_eq_iff horigin k).mpr (hsafe k (by omega) (by omega))

theorem deletes_all_iff (horigin : ∀ i, r.origin i = i) (hb : 0 ≤ b) (hbe : b < e)
    (he : e < r.secNum) (hold : Old r now expire b)
    (hnext : Old (Located.deleteAt b { r with toRoad := r.look b }) now expire b) :
    Deletes r b e now expire (r.deleteRoadsection b e now expire).1
        (r.deleteRoadsection b e now expire).2 ↔
      DeletionFits r b e now expire := by
  obtain ⟨hnum, hsecNum, hfirst, hfront⟩ := delete_all hbe he hold hnext
  constructor
  · intro hd
    have hcount := hd.num
    rw [hnum, staying_length hb hbe.le he] at hcount
    have hnil : (Int.range b (e + 1)).filter (fun i => ¬Old r now expire i) = [] := by
      rw [← length_eq_zero_iff]
      omega
    have hall : ∀ i, b ≤ i → i ≤ e → Old r now expire i := by
      intro i hlo hhi
      simpa using filter_eq_nil_iff.mp hnil i (Int.mem_range_iff.mpr ⟨hlo, by omega⟩)
    refine .inr (.inr ⟨hall, ?_⟩)
    by_contra hend
    -- slot `b` should have the segment behind the slots, and has the one behind slot `b`
    have hplace : (staying r b e now expire)[b.toNat]? = some (e + 1) := by
      rw [staying_old hb hbe.le he hall, getElem?_append, range_length, range_getElem?,
        range_getElem?, if_neg (by omega), if_pos (by omega)]
      congr 1
      omega
    have hseg := hd.segments b.toNat (e + 1) hplace
    rw [Int.toNat_of_nonneg hb, hfirst, Located.taken, horigin] at hseg
    have : b + 1 = e + 1 := congrArg (fun x => x.2.2.2) hseg
    omega
  · intro hfits
    obtain ⟨hall, hend⟩ : (∀ i, b ≤ i → i ≤ e → Old r now expire i) ∧ e + 1 = r.secNum := by
      rcases hfits with h | ⟨-, hrest, hsafe⟩ | h
      · exact absurd hold (h b le_rfl hbe.le)
      · refine absurd hnext ?_
        rw [old_deleteAt (by omega)]
        split
        · exact hrest (b + 1) (by omega) (by omega)
        · rename_i hzero
          -- a time of zero stays the one of slot `b`, which is zero as well
          have hz := (hsafe b le_rfl (by omega)).endtime (not_not.mp hzero)
          have := hrest (b + 1) (by omega) (by omega)
          rw [Old, not_not.mp hzero] at this
          rwa [Old, hz]
      · exact h
    have hstay := staying_old hb hbe.le he hall
    refine ⟨?_, ?_, fun k i hk => ?_⟩
    · rw [hnum, hstay, length_append, range_length, range_length]
      omega
    · rw [hsecNum, hstay, length_append, range_length, range_length]
      omega
    · rw [hstay, getElem?_append, range_length, range_getElem?, range_getElem?] at hk
      by_cases hkb : k < (b - 0).toNat
      · rw [if_pos hkb, if_pos hkb] at hk
        obtain rfl : 0 + (k : Int) = i := Option.some.inj hk
        rw [hfront k (by omega), zero_add, slot_eq horigin]
      · rw [if_neg hkb, if_neg (by omega)] at hk
        cases hk

/-- **The deletion.** It deletes the expired segments and no others if and only if none is
expired, only the first one is and the others can be moved, or all are and end with the
road. -/
theorem deletes_iff (r : Located D) (horigin : ∀ i, r.origin i = i) {b e : Int} (hb : 0 ≤ b)
    (hbe : b ≤ e) (he : e < r.secNum) (now expire : Int) :
    Deletes r b e now expire (r.deleteRoadsection b e now expire).1
        (r.deleteRoadsection b e now expire).2 ↔
      DeletionFits r b e now expire := by
  by_cases hold : Old r now expire b
  · by_cases hnext : b = e ∨ ¬Old (Located.deleteAt b { r with toRoad := r.look b }) now expire b
    · exact deletes_one_iff horigin hb hbe he hold hnext
    · rw [not_or, not_not] at hnext
      exact deletes_all_iff horigin hb (lt_of_le_of_ne hbe hnext.1) he hold hnext.2
  · exact deletes_none_iff horigin hb hbe he hold

end

end

/-- Segments with these times. -/
def timed (times : List Int) : Located Int where
  sec i := { Site.zero with end_ := i.toNat + 1, endtime := times.getD i.toNat 0 }
  secNum := times.length
  endTime := 0
  log := []
  longitude _ := 1
  latitude _ := 1
  origin i := i

theorem deletes_iff_three :
    Deletes (timed [10, 90, 20]) 0 2 100 50
        ((timed [10, 90, 20]).deleteRoadsection 0 2 100 50).1
        ((timed [10, 90, 20]).deleteRoadsection 0 2 100 50).2 ↔
      DeletionFits (timed [10, 90, 20]) 0 2 100 50 :=
  deletes_iff (timed [10, 90, 20]) (fun _ => rfl) (by decide) (by decide) (by decide) 100 50

/-- The first and the last of three segments are expired; only the first one goes. -/
theorem not_deletes_three :
    (timed [10, 90, 20]).secNum < ROADSECNUM ∧
      ¬Deletes (timed [10, 90, 20]) 0 2 100 50
        ((timed [10, 90, 20]).deleteRoadsection 0 2 100 50).1
        ((timed [10, 90, 20]).deleteRoadsection 0 2 100 50).2 := by
  refine ⟨by decide, fun h => ?_⟩
  exact absurd h.num (by decide)

end Supex.RoadRank
