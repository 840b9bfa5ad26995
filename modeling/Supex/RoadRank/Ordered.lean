import Supex.Lib.Sorted
import Supex.RoadRank.Indices
import Mathlib.Data.Int.Range

/-!
# Segments in order

Which reports keep the ends of the segments in ascending order and leave the other
segments alone: a new segment goes behind the one in front of its position, also when
there is none; `expend_roadsection` does not move the used times, and leaves a time
alone where the one to be copied is zero; and when several segments are expired, the
report goes into the first slot while old segments of the road may stay behind it.
-/

namespace Supex.RoadRank

open Supex.Lib

/-- The segments are in order, and none of them ends at zero. -/
structure Ordered (r : Road) : Prop where
  low : 0 ≤ r.secNum
  ends : InOrder r.secNum fun i => (r.sec i).end_
  ne_zero : ∀ i, 0 ≤ i → i < r.secNum → (r.sec i).end_ ≠ 0

/-- `get_interval` finds the first segment that reaches the position. -/
def Finds (r : Road) : Prop :=
  ∀ x i : Int, 0 ≤ i → i < r.secNum → (x ≤ (r.sec i).end_ ↔ (getInterval r 0 x).1 ≤ i)

/-- What a segment keeps when another one changes. -/
structure Same (s t : Site) : Prop where
  end_ : t.end_ = s.end_
  avgSpeed : t.avgSpeed = s.avgSpeed
  maxSpeed : t.maxSpeed = s.maxSpeed
  endtime : t.endtime = s.endtime
  usedTime : t.usedTime = s.usedTime
  imei : t.imei = s.imei

/-- The segments other than the one that was merged with the report, or that the report
became. -/
def KeepsOthers (r r' : Road) : Outcome → Prop
  | .merged k | .overlay k =>
    r'.secNum = r.secNum ∧ ∀ i, 0 ≤ i → i < r.secNum → i ≠ k → Same (r.sec i) (r'.sec i)
  | .mergedAdd k | .added k | .split k =>
    r'.secNum = r.secNum + 1 ∧
      ∀ i, 0 ≤ i → i < r.secNum → Same (r.sec i) (r'.sec (if i < k then i else i + 1))
  | _ => True

/-- What a report into segment `v` needs; `k` is the slot that `update_roadsection`
looks at. With expired segments, that none behind the first is older than the report
in its place; for a new segment, that it does not begin in front of the first one, and
that the segments behind it have the used time of their next slot and a time. -/
def TidyAt (r : Road) (g : Report) (v k : Int) : Prop :=
  if Expired (r.sec k).endtime g ∧ Expired (r.sec 0).endtime g then
    1 ≤ k → Expired (copySite (r.sec 0) (r.sec 1)).endtime g → k ≤ 2 ∨ r.secNum < k + 3
  else
    Mergeable (r.sec k) g (mergedSpeed (r.sec (v - 1)) g) ∨
      (v = 0 → (r.sec 0).end_ = g.begin) ∧
        ∀ i, k + 1 ≤ i → i < r.secNum →
          (r.sec (i + 1)).usedTime = (r.sec i).usedTime ∧
            ((r.sec i).endtime ≠ 0 ∨ (r.sec (i + 1)).endtime = 0)

def Tidy (r : Road) (g : Report) : Prop :=
  let v := (getInterval r 0 g.begin).1
  v < r.secNum → TidyAt r g v (if 0 < v then v - 1 else v)

instance (r : Road) (g : Report) (v k : Int) : Decidable (TidyAt r g v k) := by
  unfold TidyAt
  infer_instance

instance (r : Road) (g : Report) : Decidable (Tidy r g) :=
  inferInstanceAs (Decidable (_ < _ → _))

variable {r : Road} {g : Report}

--
-- Single slots
--

/-- Slot `i` after a report was written into it. -/
def reported (s : Site) (g : Report) (avg : Nat) (flag : Bool) : Site :=
  setUsedTime (setRoadsection s 0 g.begin avg g.maxSpeed g.endTime g.imei) flag g.usedTime

theorem sec_written_self (r : Road) (i : Int) (avg : Nat) (flag : Bool) :
    ((r.setSection i g avg).setUsed i flag g).sec i = reported (r.sec i) g avg flag := by
  unfold Road.setUsed Road.setSection
  rw [sec_put_self, sec_put_self]
  rfl

variable {r' : Road} {i k : Int}

theorem sec_written_of_ne {j : Int} (h : j ≠ i) (r : Road) (avg : Nat) (flag : Bool) :
    ((r.setSection i g avg).setUsed i flag g).sec j = r.sec j := by
  unfold Road.setUsed Road.setSection
  rw [sec_put_of_ne h, sec_put_of_ne h]

theorem sec_setEnd_of_lt (h : i < 99) (r : Road) (avg : Nat) : (r.setEnd g avg).sec i = r.sec i :=
  sec_putBorder_of_ne h.ne _ _

theorem reported_end (h : 1 ≤ g.begin) (s : Site) (avg : Nat) (flag : Bool) :
    (reported s g avg flag).end_ = g.begin := by
  have hne : g.begin ≠ 0 := by omega
  exact if_pos hne

theorem takeOver_end {s next : Site} (h : next.end_ ≠ 0) : (takeOver s next).end_ = next.end_ :=
  if_pos h

theorem Same.rfl' (s : Site) : Same s s := ⟨rfl, rfl, rfl, rfl, rfl, rfl⟩

theorem copySite_same {s from_ : Site} (hend : from_.end_ ≠ 0) (hused : s.usedTime = from_.usedTime)
    (htime : from_.endtime ≠ 0 ∨ s.endtime = 0) : Same from_ (copySite s from_) := by
  refine ⟨if_pos hend, rfl, rfl, ?_, hused, rfl⟩
  change (if from_.endtime ≠ 0 then from_.endtime else s.endtime) = from_.endtime
  split
  · rfl
  · rename_i hzero
    rw [not_not.mp hzero]
    exact htime.resolve_left hzero

--
-- The search
--

theorem Ordered.finds (h : Ordered r) : Finds r := by
  intro x i hi hi'
  have hint := getInterval_interval h.low x
  constructor
  · intro hx
    by_contra hcon
    exact absurd (hint.before i hi (not_le.mp hcon)) (not_lt.mpr hx)
  · intro hle
    have hat := hint.at_ (hle.trans_lt hi')
    have hord := h.ends _ i hint.low hle hi'
    exact hat.trans (by exact_mod_cast hord)

--
-- Deletion
--

theorem deleteAt_end {j : Int} (hne : ∀ t, 0 ≤ t → t < r.secNum → (r.sec t).end_ ≠ 0) (hj : 0 ≤ j)
    (hj' : j + 1 < r.secNum) :
    ((deleteAt i r).sec j).end_ = (r.sec (if i ≤ j then j + 1 else j)).end_ := by
  obtain ⟨-, -, hsec⟩ := deleteAt_spec i r
  rw [hsec]
  by_cases hij : i ≤ j
  · rw [if_pos ⟨hij, by omega⟩, if_pos hij]
    exact takeOver_end (hne (j + 1) (by omega) hj')
  · rw [if_neg (by omega), if_neg hij]

theorem deleteAt_ne_zero (hne : ∀ t, 0 ≤ t → t < r.secNum → (r.sec t).end_ ≠ 0) :
    ∀ t, 0 ≤ t → t < (deleteAt i r).secNum → ((deleteAt i r).sec t).end_ ≠ 0 := by
  intro t ht ht'
  rw [(deleteAt_spec i r).1] at ht'
  rw [deleteAt_end hne ht (by omega)]
  split
  · exact hne (t + 1) (by omega) (by omega)
  · exact hne t ht (by omega)

/-- The slot that slot `j` has the end of, after the turns `i`, …, `i + n - 1` have each
deleted a segment. -/
def origin (i n j : Int) : Int := j + min (max (j - i + 1) 0) n

theorem deleteFrom_all {now expire : Int} (n : Nat) (num : Int) (hi : 1 ≤ i)
    (h0 : comparingFrontAndBackT (r.sec 0).endtime now expire = 0)
    (hne : ∀ t, 0 ≤ t → t < r.secNum → (r.sec t).end_ ≠ 0) :
    (deleteFrom 0 now expire n i num r).1 = num + n ∧
      ∀ j, 0 ≤ j → j + n < r.secNum →
        ((deleteFrom 0 now expire n i num r).2.sec j).end_ = (r.sec (origin i n j)).end_ := by
  induction n generalizing i num r with
  | zero =>
    refine ⟨(add_zero num).symm, fun j hj hj' => ?_⟩
    have horigin : origin i ((0 : Nat) : Int) j = j := by
      unfold origin
      omega
    rw [horigin]
    rfl
  | succ n ih =>
    have hdel : comparingFrontAndBackT ((deleteAt i (r.look 0)).sec 0).endtime now expire = 0 := by
      obtain ⟨-, -, hsec⟩ := deleteAt_spec i (r.look 0)
      rw [hsec, if_neg (by omega)]
      exact h0
    obtain ⟨hcount, hends⟩ := ih (num + 1) (by omega : 1 ≤ i + 1) hdel
      (deleteAt_ne_zero (r := r.look 0) hne)
    rw [deleteFrom, sec_look, if_pos h0]
    refine ⟨by rw [hcount]; push_cast; ring, fun j hj hj' => ?_⟩
    rw [hends j hj (by rw [(deleteAt_spec i _).1, secNum_look]; omega),
      deleteAt_end (r := r.look 0) hne (by unfold origin; omega)
        (by rw [secNum_look]; unfold origin; omega), sec_look]
    congr 2
    unfold origin
    split <;> push_cast <;> omega

/-- What `delete_roadsection` leaves of segments of which the first is expired: `n` more
turns delete one each, all of them or none. -/
theorem deleteRoadsection_ends {e : Int} (h : Ordered r) (he : 0 ≤ e) (he' : e < r.secNum)
    (h0 : Expired (r.sec 0).endtime g) :
    ∃ n : Nat, (deleteRoadsection r 0 e g.endTime g.expireTime).1 = n + 1 ∧
      (n = 0 ∨ (n = e ∧ Expired (copySite (r.sec 0) (r.sec 1)).endtime g)) ∧
      ∀ j, 0 ≤ j → j + (n + 1) < r.secNum →
        ((deleteRoadsection r 0 e g.endTime g.expireTime).2.sec j).end_ =
          (r.sec (origin 1 n j + 1)).end_ := by
  have hpos : 0 < r.secNum := he.trans_lt he'
  obtain ⟨-, -, hsec⟩ := deleteAt_spec 0 (r.look 0)
  have htime : ((deleteAt 0 (r.look 0)).sec 0).endtime =
      (copySite (r.sec 0) (r.sec 1)).endtime := by
    rw [hsec, if_pos ⟨le_rfl, hpos⟩]
    rfl
  have hends : ∀ j, 0 ≤ j → j + 1 < r.secNum →
      ((deleteAt 0 (r.look 0)).sec j).end_ = (r.sec (j + 1)).end_ := by
    intro j hj hj'
    rw [deleteAt_end (r := r.look 0) h.ne_zero hj hj', if_pos hj]
    rfl
  rw [deleteRoadsection_expired he he'.le h0]
  by_cases hexp : Expired (copySite (r.sec 0) (r.sec 1)).endtime g
  · obtain ⟨hcount, hall⟩ := deleteFrom_all (r := deleteAt 0 (r.look 0)) e.toNat 1 le_rfl
      (by rw [htime]; exact hexp) (deleteAt_ne_zero (r := r.look 0) h.ne_zero)
    refine ⟨e.toNat, by rw [hcount]; ring, .inr ⟨by omega, hexp⟩, fun j hj hj' => ?_⟩
    rw [hall j hj (by rw [(deleteAt_spec 0 _).1, secNum_look]; omega),
      hends _ (by unfold origin; omega) (by unfold origin; omega)]
  · have hfresh : comparingFrontAndBackT ((deleteAt 0 (r.look 0)).sec 0).endtime g.endTime
        g.expireTime ≠ 0 := by
      rw [htime]
      exact hexp
    have hdel : (deleteFrom 0 g.endTime g.expireTime e.toNat 1 1 (deleteAt 0 (r.look 0))).1 = 1 ∧
        (deleteFrom 0 g.endTime g.expireTime e.toNat 1 1 (deleteAt 0 (r.look 0))).2.sec =
          (deleteAt 0 (r.look 0)).sec := deleteFrom_fresh hfresh
    obtain ⟨hcount, hsame⟩ := hdel
    refine ⟨0, by rw [hcount]; rfl, .inl rfl, fun j hj hj' => ?_⟩
    have horigin : origin 1 ((0 : Nat) : Int) j = j := by
      unfold origin
      omega
    rw [hsame, hends j hj (by simpa using hj'), horigin]

theorem Ordered.deleted {n : Nat} (h : Ordered r) (hnum : r'.secNum = r.secNum - (n + 1))
    (hlow : 0 ≤ r'.secNum) (hends : ∀ j, 0 ≤ j → j + (n + 1) < r.secNum →
      (r'.sec j).end_ = (r.sec (origin 1 n j + 1)).end_) : Ordered r' := by
  refine ⟨hlow, ?_, ?_⟩
  · refine h.ends.select (fun j => origin 1 n j + 1) ?_ ?_ ?_ ?_
    · intro i j hi hij hj
      unfold origin
      omega
    · intro i hi hi'
      unfold origin
      omega
    · intro i hi hi'
      unfold origin
      omega
    · intro i hi hi'
      exact hends i hi (by omega)
  · intro i hi hi'
    rw [hends i hi (by omega)]
    exact h.ne_zero _ (by unfold origin; omega) (by unfold origin; omega)

--
-- Writing a segment
--

theorem Ordered.congr (h : Ordered r) (hnum : r'.secNum = r.secNum)
    (hsec : ∀ i, 0 ≤ i → i < r.secNum → r'.sec i = r.sec i) : Ordered r' := by
  refine ⟨by rw [hnum]; exact h.low, ?_, ?_⟩
  · rw [hnum]
    exact h.ends.congr fun i hi hi' => by rw [hsec i hi hi']
  · intro i hi hi'
    rw [hnum] at hi'
    rw [hsec i hi hi']
    exact h.ne_zero i hi hi'

theorem Ordered.replace {x : Nat} (h : Ordered r) (hnum : r'.secNum = r.secNum) (hx : x ≠ 0)
    (hat : (r'.sec k).end_ = x) (hother : ∀ i, 0 ≤ i → i < r.secNum → i ≠ k → r'.sec i = r.sec i)
    (hbefore : ∀ i, 0 ≤ i → i < k → (r.sec i).end_ ≤ x)
    (hbehind : ∀ i, k < i → i < r.secNum → x ≤ (r.sec i).end_) : Ordered r' := by
  refine ⟨by rw [hnum]; exact h.low, ?_, ?_⟩
  · rw [hnum]
    exact h.ends.replace hat (fun i hi hi' hne => by rw [hother i hi hi' hne]) hbefore hbehind
  · intro i hi hi'
    rw [hnum] at hi'
    by_cases hik : i = k
    · rw [hik, hat]
      exact hx
    · rw [hother i hi hi' hik]
      exact h.ne_zero i hi hi'

theorem Ordered.insert {x : Nat} (h : Ordered r) (hnum : r'.secNum = r.secNum + 1) (hx : x ≠ 0)
    (hk : 0 ≤ k) (hk' : k ≤ r.secNum) (hat : (r'.sec k).end_ = x)
    (hlow : ∀ i, 0 ≤ i → i < k → (r'.sec i).end_ = (r.sec i).end_)
    (hhigh : ∀ i, k ≤ i → i < r.secNum → (r'.sec (i + 1)).end_ = (r.sec i).end_)
    (hbefore : ∀ i, 0 ≤ i → i < k → (r.sec i).end_ ≤ x)
    (hbehind : ∀ i, k ≤ i → i < r.secNum → x ≤ (r.sec i).end_) : Ordered r' := by
  refine ⟨by rw [hnum]; have := h.low; omega, ?_, ?_⟩
  · rw [hnum]
    exact h.ends.insert hat hlow hhigh hk hk' hbefore hbehind
  · intro i hi hi'
    rw [hnum] at hi'
    rcases lt_trichotomy i k with hik | hik | hik
    · rw [hlow i hi hik]
      exact h.ne_zero i hi (by omega)
    · rw [hik, hat]
      exact hx
    · have hup := hhigh (i - 1) (by omega) (by omega)
      rw [sub_add_cancel] at hup
      rw [hup]
      exact h.ne_zero (i - 1) (by omega) (by omega)

--
-- Reports
--

theorem deleted_ends {e t : Int} (h : Ordered r) (he' : e < r.secNum) {deleted : Int × Road}
    (hdel : deleted = if comparingFrontAndBackT t g.endTime g.expireTime = 0 then
      deleteRoadsection r 0 e g.endTime g.expireTime else (0, r)) :
    (deleted.1 ≤ 0 ∧ deleted.2.sec = r.sec ∧ deleted.2.secNum = r.secNum ∧
        (0 ≤ e → ¬ (Expired t g ∧ Expired (r.sec 0).endtime g))) ∨
      ∃ n : Nat, 0 ≤ e ∧ deleted.1 = n + 1 ∧ deleted.2.secNum = r.secNum - (n + 1) ∧
        0 ≤ deleted.2.secNum ∧ Expired t g ∧ Expired (r.sec 0).endtime g ∧
        (n = 0 ∨ (n = e ∧ Expired (copySite (r.sec 0) (r.sec 1)).endtime g)) ∧
        ∀ j, 0 ≤ j → j + (n + 1) < r.secNum →
          (deleted.2.sec j).end_ = (r.sec (origin 1 n j + 1)).end_ := by
  by_cases ht : comparingFrontAndBackT t g.endTime g.expireTime = 0
  · rw [if_pos ht] at hdel
    subst hdel
    by_cases he : 0 ≤ e
    · obtain ⟨-, -, hnum, -⟩ := deleteFrom_spec 0 g.endTime g.expireTime (e + 1).toNat 0 0 r
      rw [← deleteRoadsection_eq he he'.le, sub_zero] at hnum
      by_cases h0 : Expired (r.sec 0).endtime g
      · obtain ⟨n, hcount, hturns, hends⟩ := deleteRoadsection_ends h he he' h0
        rw [hcount] at hnum
        right
        exact ⟨n, he, hcount, hnum, by rw [hnum]; omega, ht, h0, hturns, hends⟩
      · obtain ⟨hzero, hsame⟩ := deleteRoadsection_fresh he he'.le h0
        rw [hzero, sub_zero] at hnum
        exact .inl ⟨hzero.le, hsame, hnum, fun _ hexp => h0 hexp.2⟩
    · left
      unfold deleteRoadsection
      rw [if_pos (.inl (not_le.mp he))]
      exact ⟨(by decide : (-1 : Int) ≤ 0), rfl, rfl, fun hcon => absurd hcon he⟩
  · rw [if_neg ht] at hdel
    subst hdel
    exact .inl ⟨le_rfl, rfl, rfl, fun _ hexp => ht hexp.1⟩

theorem Ordered.split (h : Ordered r) (hnum : r'.secNum = r.secNum + 1) (hB : 1 ≤ g.begin)
    (hk : 0 ≤ k) (hk' : k ≤ r.secNum) (hat : (r'.sec k).end_ = g.begin)
    (hstay : ∀ i, 0 ≤ i → i < k → r'.sec i = r.sec i)
    (hmove : ∀ i, k ≤ i → i < r.secNum → Same (r.sec i) (r'.sec (i + 1)))
    (hbefore : ∀ i, 0 ≤ i → i < k → (r.sec i).end_ ≤ g.begin)
    (hbehind : ∀ i, k ≤ i → i < r.secNum → g.begin ≤ (r.sec i).end_) :
    Ordered r' ∧ KeepsOthers r r' (.split k) := by
  have hx : g.begin ≠ 0 := by omega
  refine ⟨h.insert hnum hx hk hk' hat (fun i hi hik => by rw [hstay i hi hik])
    (fun i hi hi' => (hmove i hi hi').end_) hbefore hbehind, hnum, fun i hi hi' => ?_⟩
  by_cases hik : i < k
  · rw [if_pos hik, hstay i hi hik]
    exact .rfl' _
  · rw [if_neg hik]
    exact hmove i (not_lt.mp hik) hi'

theorem Ordered.merge (h : Ordered r) (hnum : r'.secNum = r.secNum) (hB : 1 ≤ g.begin)
    (hat : (r'.sec k).end_ = g.begin)
    (hkeep : ∀ i, 0 ≤ i → i < r.secNum → i ≠ k → r'.sec i = r.sec i)
    (hbefore : ∀ i, 0 ≤ i → i < k → (r.sec i).end_ ≤ g.begin)
    (hbehind : ∀ i, k < i → i < r.secNum → g.begin ≤ (r.sec i).end_) :
    Ordered r' ∧ KeepsOthers r r' (.merged k) := by
  have hx : g.begin ≠ 0 := by omega
  refine ⟨h.replace hnum hx hat hkeep hbefore hbehind, hnum, fun i hi hi' hne => ?_⟩
  rw [hkeep i hi hi' hne]
  exact .rfl' _

theorem updateAhead_ordered (h : Ordered r) (hnum : r.secNum < 98) (hB : 1 ≤ g.begin)
    (hbehind : ∀ i, 0 ≤ i → i < r.secNum → (r.sec i).end_ < g.begin) (speed : Int) :
    Ordered (updateAhead r g speed).1 ∧
      KeepsOthers r (updateAhead r g speed).1 (updateAhead r g speed).2 := by
  unfold updateAhead
  dsimp only
  generalize hdel : (if comparingFrontAndBackT r.endTime g.endTime g.expireTime = 0 then
    deleteRoadsection r 0 (r.secNum - 1) g.endTime g.expireTime else (0, r)) = deleted
  rcases deleted_ends h (by omega) hdel.symm with
    ⟨hret, hsec, hsame, -⟩ | ⟨n, he, hcount, hdnum, hdlow, -, -, -, hends⟩
  · rw [if_neg (by omega)]
    have hlook : (deleted.2.look (r.secNum - 1)).sec = r.sec := hsec
    -- a segment behind the others
    have hpush (d : Road) (hd : d.sec = r.sec) (hdnum : d.secNum = r.secNum + 1) (avg : Nat) :
        Ordered ((((d.setSection r.secNum g avg).setUsed r.secNum true g).setEnd g avg).setRoadData
          g) ∧
          KeepsOthers r ((((d.setSection r.secNum g avg).setUsed r.secNum true g).setEnd g
            avg).setRoadData g) (.added r.secNum) := by
      refine h.split hdnum hB h.low le_rfl ?_ ?_ ?_ ?_ ?_
      · refine (congrArg Site.end_ (sec_setEnd_of_lt (by omega) _ _)).trans ?_
        rw [sec_written_self]
        exact reported_end hB _ _ _
      · intro i hi hi'
        refine (sec_setEnd_of_lt (by omega) _ _).trans ?_
        rw [sec_written_of_ne hi'.ne, hd]
      · intro i hi hi'
        omega
      · intro i hi hi'
        exact (hbehind i hi hi').le
      · intro i hi hi'
        omega
    split
    · split
      · refine h.merge hsame hB ?_ ?_ ?_ ?_
        · refine (congrArg Site.end_ (sec_setEnd_of_lt (by omega) _ _)).trans ?_
          rw [sec_written_self]
          exact reported_end hB _ _ _
        · intro i hi hi' hne
          refine (sec_setEnd_of_lt (by omega) _ _).trans ?_
          rw [sec_written_of_ne hne, hlook]
        · intro i hi hi'
          exact (hbehind i hi (by omega)).le
        · intro i hi hi'
          omega
      · exact hpush { deleted.2.look (r.secNum - 1) with secNum := r.secNum + 1 } hlook rfl _
    · exact hpush { deleted.2.look (r.secNum - 1) with secNum := r.secNum + 1 } hlook rfl _
  · rw [if_pos (by omega)]
    refine ⟨?_, trivial⟩
    -- the report is written behind the segments that are left
    refine (h.deleted hdnum hdlow hends).congr rfl fun i hi hi' => ?_
    refine (sec_setEnd_of_lt (by omega) _ _).trans (sec_written_of_ne ?_ _ _ _)
    omega

theorem Interval.end_le {x v : Int} (hint : Interval r x v) {j : Int} {b : Nat} (hb : x = b)
    (hj : 0 ≤ j) (hjv : j < v) : (r.sec j).end_ ≤ b := by
  have hlt := hint.before j hj hjv
  omega

theorem Interval.le_end {x v : Int} (hint : Interval r x v) (h : Ordered r) {j : Int} {b : Nat}
    (hb : x = b) (hv : v < r.secNum) (hj : v ≤ j) (hj' : j < r.secNum) : b ≤ (r.sec j).end_ := by
  have hat := hint.at_ hv
  have hord : (r.sec v).end_ ≤ (r.sec j).end_ := h.ends v j hint.low hj hj'
  omega

theorem expendRoadsection_sec {b num : Int} (h : b ≤ num) (j : Int) :
    (expendRoadsection r b num).sec j =
      if b ≤ j ∧ j ≤ num then copySite (r.sec j) (r.sec (j - 1)) else r.sec j := by
  obtain ⟨-, -, hsec⟩ := shiftUp_spec (num + 1 - b).toNat num r
  unfold expendRoadsection
  rw [if_neg (not_lt.mpr h), hsec]
  by_cases hj : b ≤ j ∧ j ≤ num
  · rw [if_pos hj, if_pos (by omega)]
  · rw [if_neg hj, if_neg (by omega)]

theorem expended_sec {d : Road} {b num n : Int} {avg : Nat} (h : b ≤ num) (hne : i ≠ b) :
    ((({ expendRoadsection d b num with secNum := n } : Road).setSection b g avg).setUsed b true
        g).sec i =
      if b ≤ i ∧ i ≤ num then copySite (d.sec i) (d.sec (i - 1)) else d.sec i := by
  rw [sec_written_of_ne hne]
  exact expendRoadsection_sec h i

theorem updateInside_ordered {v : Int} (h : Ordered r) (hnum : r.secNum < 98) (hB : 1 ≤ g.begin)
    (hint : Interval r g.begin v) (hv : v < r.secNum) (hk : k = if 0 < v then v - 1 else v)
    (htidy : TidyAt r g v k) :
    Ordered (updateInside r g (mergedSpeed (r.sec (v - 1)) g) v).1 ∧
      KeepsOthers r (updateInside r g (mergedSpeed (r.sec (v - 1)) g) v).1
        (updateInside r g (mergedSpeed (r.sec (v - 1)) g) v).2 := by
  have hlow := hint.low
  have hklow : 0 ≤ k := by rw [hk]; split <;> omega
  have hkhigh : k < r.secNum := by rw [hk]; split <;> omega
  unfold updateInside
  dsimp only
  rw [← hk]
  -- the end of the road may be written first
  generalize hend : (if k = r.secNum - 2 ∨ r.secNum = 1 then r.setEnd g g.avgSpeed else r) = r₁
  have hr₁ : r₁.secNum = r.secNum ∧ ∀ i, i < 99 → r₁.sec i = r.sec i := by
    subst hend
    split
    · exact ⟨rfl, fun i hi => sec_setEnd_of_lt hi _ _⟩
    · exact ⟨rfl, fun _ _ => rfl⟩
  obtain ⟨hnum₁, hsec₁⟩ := hr₁
  have hlook : Ordered (r₁.look k) := h.congr hnum₁ fun i hi hi' => hsec₁ i (by omega)
  rw [sec_look, hsec₁ k (by omega)]
  generalize hdel : (if comparingFrontAndBackT (r.sec k).endtime g.endTime g.expireTime = 0 then
    deleteRoadsection (r₁.look k) 0 k g.endTime g.expireTime else (0, r₁.look k)) = deleted
  rcases deleted_ends hlook (by rw [secNum_look, hnum₁]; exact hkhigh) hdel.symm with
    ⟨hret, hsec, hdnum, hfresh⟩ | ⟨n, -, hcount, hdnum, hdlow, hexp, hexp0, hturns, hends⟩
  · have hsec' : ∀ i, i < 99 → (deleted.2.look k).sec i = r.sec i :=
      fun i hi => (congrFun hsec i).trans (hsec₁ i hi)
    have hdnum' : (deleted.2.look k).secNum = r.secNum := hdnum.trans hnum₁
    rw [if_neg (by omega), hsec' k (by omega)]
    have hkv : k = 0 ∧ v = 0 ∨ k + 1 = v := by
      rw [hk]
      split <;> omega
    split
    · refine h.merge hdnum' hB ?_ ?_ ?_ ?_
      · refine (congrArg Site.end_ (sec_written_self _ _ _ _)).trans ?_
        exact reported_end hB _ _ _
      · intro i hi hi' hne
        exact (sec_written_of_ne hne _ _ _).trans (hsec' i (by omega))
      · intro i hi hi'
        exact hint.end_le rfl hi (by omega)
      · intro i hi hi'
        exact hint.le_end h rfl hv (by omega) hi'
    · rename_i hmerge
      rw [sec_look, hsec₁ 0 (by omega)] at hfresh
      unfold TidyAt at htidy
      rw [if_neg (hfresh hklow)] at htidy
      obtain ⟨hfirst, hslots⟩ := htidy.resolve_left hmerge
      refine h.split (k := k + 1) rfl hB (by omega) (by omega) ?_ ?_ ?_ ?_ ?_
      · refine (congrArg Site.end_ (sec_written_self _ _ _ _)).trans ?_
        exact reported_end hB _ _ _
      · intro i hi hik
        refine (expended_sec (by omega) hik.ne).trans ?_
        rw [if_neg (by omega), hsec' i (by omega)]
      · intro i hi hi'
        obtain ⟨hused, htime⟩ := hslots i hi hi'
        refine (congrArg (Same (r.sec i)) (expended_sec (by omega) (by omega))).mpr ?_
        rw [if_pos (by omega), add_sub_cancel_right, hsec' i (by omega), hsec' (i + 1) (by omega)]
        exact copySite_same (h.ne_zero i (by omega) hi') hused htime
      · intro i hi hik
        rcases hkv with ⟨hk0, hv0⟩ | hkv
        · have hi0 : i = 0 := by omega
          rw [hi0, hfirst hv0]
        · exact hint.end_le rfl hi (by omega)
      · intro i hi hi'
        exact hint.le_end h rfl hv (by omega) hi'
  · rw [sec_look, hsec₁ 0 (by omega)] at hexp0
    rw [sec_look, hsec₁ 0 (by omega), hsec₁ 1 (by omega)] at hturns
    have hleft := hlook.deleted hdnum hdlow hends
    rw [secNum_look, hnum₁] at hdnum
    have hends' : ∀ j, 0 ≤ j → j + (n + 1) < r.secNum →
        (deleted.2.sec j).end_ = (r.sec (origin 1 n j + 1)).end_ := by
      intro j hj hj'
      rw [hends j hj (by rw [secNum_look, hnum₁]; exact hj'), sec_look,
        hsec₁ _ (by unfold origin; omega)]
    unfold TidyAt at htidy
    rw [if_pos ⟨hexp, hexp0⟩] at htidy
    have hroom : n = 0 ∨ n = k ∧ (k = 0 ∨ k ≤ 2 ∨ r.secNum < k + 3) := by
      rcases hturns with hzero | ⟨hnk, hexp1⟩
      · exact .inl hzero
      · by_cases hone : 1 ≤ k
        · exact .inr ⟨hnk, .inr (htidy hone hexp1)⟩
        · exact .inr ⟨hnk, .inl (by omega)⟩
    rw [if_pos (by omega)]
    refine ⟨?_, trivial⟩
    refine hleft.replace (k := k - deleted.1 + 1) (x := g.begin) rfl (by omega) ?_ ?_ ?_ ?_
    · refine (congrArg Site.end_ (sec_written_self _ _ _ _)).trans ?_
      exact reported_end hB _ _ _
    · intro i hi hi' hne
      exact sec_written_of_ne hne _ _ _
    · intro i hi hi'
      rw [hends' i hi (by omega)]
      exact hint.end_le rfl (by unfold origin; omega) (by unfold origin; omega)
    · intro i hi hi'
      rw [hends' i (by omega) (by omega)]
      exact hint.le_end h rfl hv (by unfold origin; omega) (by unfold origin; omega)

--
-- Runs
--

/-- The road has room for a segment, and the position is not the start of the road. -/
def Within (r : Road) (g : Report) : Prop := r.secNum < 98 ∧ 1 ≤ g.begin

instance (r : Road) (g : Report) : Decidable (Within r g) := inferInstanceAs (Decidable (_ ∧ _))

/-- What holds after a report. -/
structure Updated (r : Road) (g : Report) : Prop where
  ordered : Ordered (updateRoadsection r g).1
  finds : Finds (updateRoadsection r g).1
  others : KeepsOthers r (updateRoadsection r g).1 (updateRoadsection r g).2

theorem sec_first (h : 1 ≤ g.begin) (r : Road) (avg : Nat) :
    ((((r.setSection 0 g avg).setEnd g avg).setUsed 0 true g).sec 0).end_ = g.begin := by
  have hne : g.begin ≠ 0 := by omega
  unfold Road.setUsed
  rw [sec_put_self]
  rw [sec_setEnd_of_lt (by decide), Road.setSection, sec_put_self]
  exact if_pos hne

theorem first_ordered (hnum : r'.secNum = 1) (hend : (r'.sec 0).end_ ≠ 0) : Ordered r' := by
  refine ⟨by rw [hnum]; decide, ?_, ?_⟩
  · intro i j hi hij hj
    have hi0 : i = 0 := by omega
    have hj0 : j = 0 := by omega
    rw [hi0, hj0]
  · intro i hi hi'
    have hi0 : i = 0 := by omega
    rw [hi0]
    exact hend

theorem KeepsOthers.of_eq {s : Road} {outcome : Outcome} (h : KeepsOthers s r' outcome)
    (hsec : s.sec = r.sec) (hnum : s.secNum = r.secNum) : KeepsOthers r r' outcome := by
  unfold KeepsOthers at h ⊢
  rwa [hsec, hnum] at h

theorem Interval.of_eq {s : Road} {x v : Int} (h : Interval r x v) (hsec : s.sec = r.sec)
    (hnum : s.secNum = r.secNum) : Interval s x v := by
  refine ⟨h.low, ?_, ?_, ?_⟩
  · rw [hnum]
    exact h.high
  · rw [hsec]
    exact h.before
  · rw [hnum, hsec]
    exact h.at_

theorem tidyAt_of_eq {s : Road} {v : Int} (hsec : s.sec = r.sec) (hnum : s.secNum = r.secNum) :
    TidyAt s g v k ↔ TidyAt r g v k := by
  unfold TidyAt
  rw [hsec, hnum]

theorem update_updated (h : Ordered r) (hwithin : Within r g) (htidy : Tidy r g) : Updated r g := by
  obtain ⟨hnum, hB⟩ := hwithin
  suffices hstep : Ordered (updateRoadsection r g).1 ∧
      KeepsOthers r (updateRoadsection r g).1 (updateRoadsection r g).2 from
    ⟨hstep.1, hstep.1.finds, hstep.2⟩
  by_cases hfirst : r.secNum = 0 ∧ g.begin < 400
  · unfold updateRoadsection
    dsimp only
    rw [if_pos hfirst]
    refine ⟨first_ordered rfl ?_, trivial⟩
    refine (sec_first hB _ _).trans_ne ?_
    omega
  · obtain ⟨hsec, hsecnum, -⟩ := searched_spec r g
    have hsearched : Ordered (searched r g) := h.congr hsecnum fun i _ _ => by rw [hsec]
    have hint : Interval r g.begin (getInterval r 0 g.begin).1 := getInterval_interval h.low _
    rw [updateRoadsection_eq r g hfirst hnum.le]
    unfold Tidy at htidy
    generalize (getInterval r 0 g.begin).1 = v at hint htidy ⊢
    by_cases hall : v = r.secNum
    · rw [if_pos hall]
      have hbehind : ∀ i, 0 ≤ i → i < (searched r g).secNum →
          ((searched r g).sec i).end_ < g.begin := by
        intro i hi hi'
        have hlt := hint.before i hi (by rw [hall, ← hsecnum]; exact hi')
        rw [hsec]
        exact_mod_cast hlt
      have hupdate := updateAhead_ordered hsearched (by rw [hsecnum]; exact hnum) hB hbehind
        (mergedSpeed (r.sec (v - 1)) g)
      exact ⟨hupdate.1, hupdate.2.of_eq hsec hsecnum⟩
    · have hv : v < r.secNum := lt_of_le_of_ne hint.high hall
      rw [if_neg hall]
      have hupdate := updateInside_ordered hsearched (by rw [hsecnum]; exact hnum) hB
        (hint.of_eq hsec hsecnum) (by rw [hsecnum]; exact hv) rfl
        ((tidyAt_of_eq hsec hsecnum).mpr (htidy hv))
      rw [hsec] at hupdate
      exact ⟨hupdate.1, hupdate.2.of_eq hsec hsecnum⟩

theorem init_ordered (outside : Int → Site) (h : 1 ≤ g.begin) :
    Ordered (initSecroadData2 (.zero outside) g) := by
  unfold initSecroadData2
  split
  · refine ⟨le_rfl, ?_, ?_⟩
    · intro i j hi hij hj
      exact absurd hj (not_lt.mpr (hi.trans hij))
    · intro i hi hi'
      exact absurd hi' (not_lt.mpr hi)
  · refine first_ordered rfl ?_
    refine (congrArg Site.end_ (sec_put_self _ _ _)).trans_ne ?_
    exact Nat.one_le_iff_ne_zero.mp h

/-- **Order.** In every run that keeps room in the table and whose reports are tidy, the
segments are in order after every report, `get_interval` finds the segment of every
position, and a report that is merged or becomes a new segment leaves the other
segments alone. -/
theorem update_ordered (outside : Int → Site) (first : Report) (reports : List Report)
    (hfirst : 1 ≤ first.begin)
    (hwithin : Along update Within (initSecroadData2 (.zero outside) first) reports)
    (htidy : Along update Tidy (initSecroadData2 (.zero outside) first) reports) :
    Ordered (initSecroadData2 (.zero outside) first) ∧
      Finds (initSecroadData2 (.zero outside) first) ∧
        Along update Updated (initSecroadData2 (.zero outside) first) reports := by
  have hinit := init_ordered outside hfirst
  refine ⟨hinit, hinit.finds, (hwithin.and htidy).of_inv ?_ ?_ hinit⟩
  · intro r g r' hr hg hstep
    rw [update, Except.ok.injEq] at hstep
    exact hstep ▸ (update_updated hr hg.1 hg.2).ordered
  · intro r g hr hg
    exact update_updated hr hg.1 hg.2

/-- A report that took no time. -/
def Report.brief (begin : Nat) (h : begin < 2 ^ 16) (avgSpeed : Nat) (endTime dist : Int) :
    Report :=
  { Report.at begin h avgSpeed endTime dist with startTime := endTime }

/-- Two new segments, one between two others, a report that is merged, and the first
segments expired. -/
theorem update_ordered_sixReports :
    Ordered (initSecroadData2 (.zero fun _ => .zero) (.brief 100 (by decide) 60 1000 0)) ∧
      Finds (initSecroadData2 (.zero fun _ => .zero) (.brief 100 (by decide) 60 1000 0)) ∧
        Along update Updated
          (initSecroadData2 (.zero fun _ => .zero) (.brief 100 (by decide) 60 1000 0))
          [.brief 900 (by decide) 60 1010 800, .brief 2000 (by decide) 90 1020 1100,
            .brief 500 (by decide) 20 1030 400, .brief 2100 (by decide) 95 1040 100,
            .brief 1500 (by decide) 40 1605 900, .brief 600 (by decide) 40 1700 900] :=
  update_ordered _ _ _ (by decide) (by decide) (by decide)

/-- The second report begins in front of the only segment and becomes the one behind it. -/
theorem not_ordered_behindFirst :
    ¬ ∀ (outside : Int → Site) (first : Report) (reports : List Report), 1 ≤ first.begin →
      Along update Within (initSecroadData2 (.zero outside) first) reports →
        Ordered (initSecroadData2 (.zero outside) first) ∧
          Finds (initSecroadData2 (.zero outside) first) ∧
            Along update Updated (initSecroadData2 (.zero outside) first) reports := by
  intro h
  obtain ⟨-, -, hupdated⟩ := h (fun _ => .zero) (.at 100 (by decide) 60 1000 0)
    [.at 50 (by decide) 20 1010 400] (by decide) (by decide)
  have hends := hupdated.1.ordered.ends 0 1 (by decide) (by decide) (by decide)
  exact absurd hends (by decide)

end Supex.RoadRank
