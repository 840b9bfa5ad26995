import Supex.Mapdata.Segment

/-!
# Following a road, segment by segment

`map_seg_iterator_next` returns a segment and copies the fields that say what follows it;
the next call takes one of four branches on them. They are four `if`s in a row, not one
choice: a segment with only one of `next_rrid` and `next_sgid`, or with a `sgid` above
its `sgid_count`, gets into none of them and leaves the ids of the query unset.

`route` is what the branches are for: the start segment and its continuations.

Main result: `iterator_iff`.
-/

namespace Supex.Mapdata.Segment

open List

--
-- The code
--

def ITERATOR_COUNT : Nat := 20

structure MapIteratorElement where
  rrid : Nat
  sgid : Nat
  sgidCount : Nat
  nextSgid : Nat
  nextRrid : Nat
  surplusEndGradeOneNumber : Nat
  iteratorCount : Nat

/-- `map_seg_iterator_init`; the segment number becomes a `uint8_t`. -/
def mapSegIteratorInit (rridId sgid endGradeOneNumber : UInt32) : MapIteratorElement :=
  ⟨rridId.toNat, sgid.toNat % 256, 0, 0, 0, endGradeOneNumber.toNat, 0⟩

namespace MapIteratorElement

variable (e : MapIteratorElement)

/-- `if1`. -/
abbrev First : Prop := e.nextSgid = 0 ∧ e.nextRrid = 0 ∧ e.sgidCount = 0

/-- `if2`. -/
abbrev InRoad : Prop := e.nextSgid = 0 ∧ e.nextRrid = 0 ∧ e.sgid < e.sgidCount

/-- `if3`. -/
abbrev AtEnd : Prop := e.nextSgid = 0 ∧ e.nextRrid = 0 ∧ e.sgidCount = e.sgid

/-- `if4`. -/
abbrev Jump : Prop := e.nextSgid ≠ 0 ∧ e.nextRrid ≠ 0

/-- `rrid_id` and `sgid` behind the four `if`s; `none` if they are unset. -/
def ids : Option (Nat × Nat) :=
  if e.Jump then some (e.nextRrid % 2 ^ 32, e.nextSgid)
  else if e.InRoad then some (e.rrid % 2 ^ 32, e.sgid + 1)
  else if e.First then some (e.rrid % 2 ^ 32, e.sgid)
  else none

/-- The call gets to the four `if`s. -/
abbrev Proceeds : Prop :=
  (e.iteratorCount + 1) % 256 ≤ ITERATOR_COUNT ∧ e.surplusEndGradeOneNumber ≠ 0

end MapIteratorElement

/-- The requested segments that are left behind a segment. -/
def surplus (number : Nat) (seg : MapSegInfo) : Nat :=
  if seg.endGrade = 1 then number - 1 else number

/-- The element behind a segment. -/
def MapSegInfo.element (seg : MapSegInfo) (number count : Nat) : MapIteratorElement :=
  ⟨seg.rrid, seg.sgid, seg.sgidCount, seg.nextSgid, seg.nextRrid, surplus number seg, count⟩

section

variable (cfg : MapSegCfg) (m : MapSegManager)

/-- `map_seg_iterator_next`: what `out` points at, `none` if it returns NULL. -/
def mapSegIteratorNext (e : MapIteratorElement) (out : BackSeg) :
    Except Fault (Option MapSegInfo × MapIteratorElement) :=
  let count := (e.iteratorCount + 1) % 256
  let e' := { e with iteratorCount := count }
  if ITERATOR_COUNT < count then .ok (none, e')
  else if e.surplusEndGradeOneNumber = 0 then .ok (none, e')
  else if e.AtEnd then .ok (none, e')
  else
    match e.ids with
    | none => .error .memory
    | some (rridId, sgid) => do
      let (ret, out) ← mapSegQuery cfg m rridId sgid out
      if ret ≠ 0 then return (none, e')
      match out.ptrSeg with
      | none => return (none, e')
      | some temp => return (some temp, temp.element e.surplusEndGradeOneNumber count)

/-- The segments of `n` calls, up to the first NULL. `out` is what the caller's structure
holds before a call. -/
def iteratorCalls (out : Nat → BackSeg) : Nat → MapIteratorElement → Except Fault (List MapSegInfo)
  | 0, _ => .ok []
  | n + 1, e => do
    match ← mapSegIteratorNext cfg m e (out e.iteratorCount) with
    | (none, _) => return []
    | (some seg, e) => do
      let more ← iteratorCalls out n e
      return seg :: more

--
-- What it is for
--

/-- The segment that the query finds. -/
def look (rrid sgid : Nat) : Except Fault (Option MapSegInfo) :=
  (mapSegQuery cfg m rrid sgid ⟨none, none, none, none⟩).map fun r =>
    if r.1 = 0 then r.2.ptrSeg else none

/-- The segment of a road; the query takes an `unsigned int`. -/
def segmentAt (rrid sgid : Nat) : Except Fault (Option MapSegInfo) :=
  if rrid < 2 ^ 32 then look cfg m rrid sgid else .ok none

/-- Where a segment continues. -/
def continuation (seg : MapSegInfo) : Option (Nat × Nat) :=
  if seg.nextSgid ≠ 0 ∧ seg.nextRrid ≠ 0 then some (seg.nextRrid, seg.nextSgid)
  else if seg.nextSgid = 0 ∧ seg.nextRrid = 0 ∧ seg.sgid < seg.sgidCount then
    some (seg.rrid, seg.sgid + 1)
  else none

/-- At most `k` segments from a place on, until `number` of end grade 1 are there. -/
def route : Nat → Nat → Option (Nat × Nat) → Except Fault (List MapSegInfo)
  | 0, _, _ => .ok []
  | _ + 1, _, none => .ok []
  | k + 1, number, some (rrid, sgid) =>
    if number = 0 then .ok []
    else do
      match ← segmentAt cfg m rrid sgid with
      | none => return []
      | some seg => do
        let more ← route k (surplus number seg) (continuation seg)
        return seg :: more

/-- One of the four `if`s holds, the first one for the first segment only. -/
def OneCase (e : MapIteratorElement) : Prop :=
  [decide e.First, decide e.InRoad, decide e.AtEnd, decide e.Jump].count true = 1 ∧
    (e.First → e.iteratorCount = 0)

/-- Every one of `n` calls that gets to the `if`s does so in one case. -/
def EachCall (out : Nat → BackSeg) : Nat → MapIteratorElement → Prop
  | 0, _ => True
  | n + 1, e => (e.Proceeds → OneCase e) ∧ ∀ seg e',
    mapSegIteratorNext cfg m e (out e.iteratorCount) = .ok (some seg, e') → EachCall out n e'

/-- The calls are in one case each and return the route: at most `ITERATOR_COUNT`
segments, as many of end grade 1 as requested unless the route ends. -/
def Iterated (rridId sgid number : UInt32) : Prop :=
  ∀ out, ∃ l, route cfg m ITERATOR_COUNT number.toNat (some (rridId.toNat, sgid.toNat)) = .ok l ∧
    (∀ n, iteratorCalls cfg m out n (mapSegIteratorInit rridId sgid number) = .ok (l.take n)) ∧
    (∀ n, EachCall cfg m out n (mapSegIteratorInit rridId sgid number)) ∧
    l.length ≤ ITERATOR_COUNT ∧ l.countP (·.endGrade = 1) ≤ number.toNat ∧
    (l.countP (·.endGrade = 1) = number.toNat ∨ l.length = ITERATOR_COUNT ∨
      ∀ rrid sgid', (l.getLast?.elim (some (rridId.toNat, sgid.toNat)) continuation) =
        some (rrid, sgid') → segmentAt cfg m rrid sgid' = .ok none)

--
-- The condition
--

/-- The next segment is given by both ids, or by neither and the numbers of the road. -/
def RowOk (seg : MapSegInfo) : Prop :=
  (seg.nextSgid ≠ 0 ∧ seg.nextRrid ≠ 0) ∨
    seg.nextSgid = 0 ∧ seg.nextRrid = 0 ∧ seg.sgidCount ≠ 0 ∧ seg.sgid ≤ seg.sgidCount

/-- The rows behind a segment, as far as `k` more calls get. -/
def RouteOk : Nat → Nat → MapSegInfo → Prop
  | 0, _, _ => True
  | k + 1, number, seg => number = 0 ∨ RowOk seg ∧ ∀ rrid sgid,
    continuation seg = some (rrid, sgid) → ∃ o, look cfg m (rrid % 2 ^ 32) sgid = .ok o ∧
      segmentAt cfg m rrid sgid = .ok o ∧
        ∀ seg', o = some seg' → RouteOk k (surplus number seg') seg'

/-- The start is a segment number, and the rows from it on are consistent. -/
def StartOk (rridId sgid number : UInt32) : Prop :=
  number.toNat = 0 ∨ sgid.toNat % 256 ≠ 0 ∧ ∃ o,
    look cfg m rridId.toNat (sgid.toNat % 256) = .ok o ∧
      look cfg m rridId.toNat sgid.toNat = .ok o ∧
        ∀ seg, o = some seg → RouteOk cfg m (ITERATOR_COUNT - 1) (surplus number.toNat seg) seg

--
-- One call
--

theorem mapSegQuery_look (rrid sgid : Nat) (out : BackSeg) :
    (mapSegQuery cfg m rrid sgid out).map (fun r => if r.1 = 0 then r.2.ptrSeg else none) =
      look cfg m rrid sgid := by
  have hseg : ∀ (seg : MapSegInfo) (old old' : Option Bytes) (x y : Except Fault (Option Bytes)),
      (roadNameOf cfg m seg.nameId old >>= fun n => x >>= fun a => y >>= fun b =>
        (pure (0, ⟨some seg, n, a, b⟩) : Except Fault (Int × BackSeg))).map
          (fun r => if r.1 = 0 then r.2.ptrSeg else none) =
      (roadNameOf cfg m seg.nameId old' >>= fun n => x >>= fun a => y >>= fun b =>
        (pure (0, ⟨some seg, n, a, b⟩) : Except Fault (Int × BackSeg))).map
          (fun r => if r.1 = 0 then r.2.ptrSeg else none) := by
    intro seg old old' x y
    unfold roadNameOf
    split
    · cases x with
      | error f => rfl
      | ok a => cases y <;> rfl
    · rfl
  have hquery : ∀ (sgid : Nat) (old old' : BackSeg),
      (querySeg cfg m rrid sgid old).map (fun r => if r.1 = 0 then r.2.ptrSeg else none) =
        (querySeg cfg m rrid sgid old').map fun r => if r.1 = 0 then r.2.ptrSeg else none := by
    intro sgid old old'
    unfold querySeg
    dsimp only
    split
    · rfl
    split
    · rfl
    split
    · rfl
    split
    · rfl
    split
    · rfl
    split
    · rfl
    · exact hseg _ _ _ _ _
  unfold look mapSegQuery
  split
  · rfl
  split
  · exact hquery _ _ _
  · exact hquery _ _ _

theorem next_of_not_proceeds {e : MapIteratorElement} (h : ¬e.Proceeds) (out : BackSeg) :
    ∃ e', mapSegIteratorNext cfg m e out = .ok (none, e') := by
  unfold mapSegIteratorNext
  by_cases hcount : ITERATOR_COUNT < (e.iteratorCount + 1) % 256
  · exact ⟨_, if_pos hcount⟩
  · rw [if_neg hcount]
    exact ⟨_, if_pos (by_contra fun hne => h ⟨Nat.not_lt.mp hcount, hne⟩)⟩

theorem next_of_end {e : MapIteratorElement} (h : e.AtEnd) (out : BackSeg) :
    ∃ e', mapSegIteratorNext cfg m e out = .ok (none, e') := by
  by_cases hproceeds : e.Proceeds
  · unfold mapSegIteratorNext
    rw [if_neg (Nat.not_lt.mpr hproceeds.1), if_neg hproceeds.2, if_pos h]
    exact ⟨_, rfl⟩
  · exact next_of_not_proceeds cfg m hproceeds out

theorem next_of_ids {e : MapIteratorElement} (hproceeds : e.Proceeds) (hend : ¬e.AtEnd)
    {rrid sgid : Nat} (hids : e.ids = some (rrid, sgid)) (out : BackSeg) :
    ∃ e', mapSegIteratorNext cfg m e out = (look cfg m rrid sgid).map fun o =>
      match o with
      | none => (none, e')
      | some seg => (some seg,
        seg.element e.surplusEndGradeOneNumber ((e.iteratorCount + 1) % 256)) := by
  refine ⟨{ e with iteratorCount := (e.iteratorCount + 1) % 256 }, ?_⟩
  rw [← mapSegQuery_look cfg m rrid sgid out]
  unfold mapSegIteratorNext
  rw [if_neg (Nat.not_lt.mpr hproceeds.1), if_neg hproceeds.2, if_neg hend, hids]
  show (mapSegQuery cfg m rrid sgid out).bind _ = _
  cases mapSegQuery cfg m rrid sgid out with
  | error f => rfl
  | ok r =>
    obtain ⟨ret, ptrSeg, ptrName, ptrStartName, ptrEndName⟩ := r
    by_cases hret : ret = 0
    · cases ptrSeg <;> simp [Except.bind, Except.map, hret, pure, Except.pure]
    · simp [Except.bind, Except.map, hret, pure, Except.pure]

--
-- The calls and the route
--

/-- From an element on the calls return the route from a place on. -/
def Follows (out : Nat → BackSeg) (k number : Nat) (place : Option (Nat × Nat))
    (e : MapIteratorElement) : Prop :=
  ∃ l, route cfg m k number place = .ok l ∧ (∀ n, iteratorCalls cfg m out n e = .ok (l.take n)) ∧
    ∀ n, EachCall cfg m out n e

variable {cfg m} {out : Nat → BackSeg} {k number : Nat} {e : MapIteratorElement}

theorem Follows.oneCase {place : Option (Nat × Nat)} (h : Follows cfg m out k number place e)
    (hproceeds : e.Proceeds) : OneCase e := by
  obtain ⟨-, -, -, heach⟩ := h
  exact (heach 1).1 hproceeds

theorem follows_of_none {place : Option (Nat × Nat)}
    (hnext : ∃ e', mapSegIteratorNext cfg m e (out e.iteratorCount) = .ok (none, e'))
    (hone : e.Proceeds → OneCase e) (hroute : route cfg m k number place = .ok []) :
    Follows cfg m out k number place e := by
  obtain ⟨e', hnext⟩ := hnext
  refine ⟨[], hroute, fun n => ?_, fun n => ?_⟩
  · rw [take_nil]
    cases n with
    | zero => rfl
    | succ n => rw [iteratorCalls, hnext]; rfl
  · cases n with
    | zero => exact trivial
    | succ n => exact ⟨hone, fun seg e'' hseg => by rw [hnext] at hseg; cases hseg⟩

/-- **A call that queries** follows the route if it finds what the route has there, and
the next ones follow the rest. -/
theorem follows_query (hproceeds : e.Proceeds) (hend : ¬e.AtEnd) {rrid' sgid' rrid sgid : Nat}
    (hids : e.ids = some (rrid', sgid')) :
    Follows cfg m out (k + 1) e.surplusEndGradeOneNumber (some (rrid, sgid)) e ↔
      OneCase e ∧ ∃ o, look cfg m rrid' sgid' = .ok o ∧ segmentAt cfg m rrid sgid = .ok o ∧
        ∀ seg, o = some seg → Follows cfg m out k (surplus e.surplusEndGradeOneNumber seg)
          (continuation seg)
          (seg.element e.surplusEndGradeOneNumber ((e.iteratorCount + 1) % 256)) := by
  obtain ⟨e', hnext⟩ := next_of_ids cfg m hproceeds hend hids (out e.iteratorCount)
  have hroute : route cfg m (k + 1) e.surplusEndGradeOneNumber (some (rrid, sgid)) =
      (segmentAt cfg m rrid sgid).bind fun o =>
        match o with
        | none => .ok []
        | some seg => (route cfg m k (surplus e.surplusEndGradeOneNumber seg)
            (continuation seg)).bind fun more => .ok (seg :: more) := by
    rw [route, if_neg hproceeds.2]
    rfl
  constructor
  · intro h
    refine ⟨h.oneCase hproceeds, ?_⟩
    obtain ⟨l, hl, hcalls, heach⟩ := h
    rw [hroute] at hl
    obtain ⟨o', hsegment, hl⟩ := Lib.bind_eq_ok.mp hl
    have hone := hcalls 1
    rw [iteratorCalls, hnext] at hone
    cases hlook : look cfg m rrid' sgid' with
    | error f =>
      rw [hlook] at hone
      cases hone
    | ok o =>
      rw [hlook] at hone hnext
      cases o with
      | none =>
        obtain rfl : l = [] := by
          have hnil : [] = l.take 1 := Except.ok.inj hone
          cases l with
          | nil => rfl
          | cons _ _ => cases hnil
        cases o' with
        | none => exact ⟨none, rfl, hsegment, nofun⟩
        | some seg =>
          obtain ⟨more, -, hmore⟩ := Lib.bind_eq_ok.mp hl
          cases hmore
      | some seg =>
        have hhead : [seg] = l.take 1 := Except.ok.inj hone
        cases o' with
        | none =>
          cases hl
          cases hhead
        | some seg' =>
          obtain ⟨more, hmore, hl⟩ := Lib.bind_eq_ok.mp hl
          cases hl
          obtain rfl : seg = seg' := (List.cons.inj hhead).1
          refine ⟨some seg, rfl, hsegment, fun seg' hseg => ?_⟩
          obtain rfl := Option.some.inj hseg
          refine ⟨more, hmore, fun n => ?_, fun n => (heach (n + 1)).2 _ _ hnext⟩
          have hn := hcalls (n + 1)
          rw [iteratorCalls, hnext] at hn
          obtain ⟨rest, hrest, hn⟩ := Lib.bind_eq_ok.mp
            (show iteratorCalls cfg m out n _ >>= (fun more => .ok (seg :: more)) = _ from hn)
          obtain rfl : rest = more.take n := (List.cons.inj (Except.ok.inj hn)).2
          exact hrest
  · rintro ⟨hone, o, hlook, hsegment, hrest⟩
    rw [hlook] at hnext
    cases o with
    | none =>
      refine follows_of_none ⟨e', hnext⟩ (fun _ => hone) ?_
      rw [hroute, hsegment]
      rfl
    | some seg =>
      obtain ⟨more, hmore, hcalls, heach⟩ := hrest seg rfl
      refine ⟨seg :: more, ?_, fun n => ?_, fun n => ?_⟩
      · rw [hroute, hsegment]
        show (route _ _ _ _ _).bind _ = _
        rw [hmore]
        rfl
      · cases n with
        | zero => rfl
        | succ n =>
          rw [iteratorCalls, hnext]
          show (iteratorCalls _ _ _ _ _).bind _ = _
          rw [hcalls n]
          rfl
      · cases n with
        | zero => exact trivial
        | succ n =>
          refine ⟨fun _ => hone, fun seg' e'' hseg => ?_⟩
          have hpair := Except.ok.inj (hnext.symm.trans hseg)
          obtain rfl := (Prod.mk.inj hpair).2
          exact heach n

theorem oneCase_element (seg : MapSegInfo) (number : Nat) {count : Nat} (hcount : count ≠ 0) :
    OneCase (seg.element number count) ↔ RowOk seg := by
  unfold OneCase RowOk MapIteratorElement.First MapIteratorElement.InRoad MapIteratorElement.AtEnd
    MapIteratorElement.Jump MapSegInfo.element
  by_cases hs : seg.nextSgid = 0
  · by_cases hr : seg.nextRrid = 0
    · rcases Nat.lt_trichotomy seg.sgid seg.sgidCount with h | h | h
      · simp [hs, hr, h, h.ne', h.le, (Nat.zero_le _).trans_lt h |>.ne', hcount]
      · by_cases hc : seg.sgidCount = 0
        · simp [hs, hr, h, hc]
        · simp [hs, hr, h, hc]
      · by_cases hc : seg.sgidCount = 0
        · simp [hs, hr, hcount, hc]
        · simp [hs, hr, h.not_gt, h.not_ge, h.ne, hc]
    · simp [hs, hr]
  · by_cases hr : seg.nextRrid = 0
    · simp [hs, hr]
    · simp [hs, hr]

theorem follows_iff (seg : MapSegInfo) {count : Nat} (hcount : count ≠ 0)
    (hk : count + k = ITERATOR_COUNT) :
    Follows cfg m out k (surplus number seg) (continuation seg) (seg.element number count) ↔
      RouteOk cfg m k (surplus number seg) seg := by
  induction k generalizing seg number count with
  | zero =>
    refine iff_of_true (follows_of_none (next_of_not_proceeds cfg m ?_ _) ?_ rfl) trivial
    all_goals
      rintro ⟨hle, -⟩
      have hfull : (count + 1) % 256 ≤ ITERATOR_COUNT := hle
      unfold ITERATOR_COUNT at hk hfull
      omega
  | succ k ih =>
    have hmod : (count + 1) % 256 = count + 1 := by
      unfold ITERATOR_COUNT at hk
      omega
    rw [RouteOk]
    by_cases hnumber : surplus number seg = 0
    · have hstop : ¬(seg.element number count).Proceeds := fun h => h.2 hnumber
      refine iff_of_true (follows_of_none (next_of_not_proceeds cfg m hstop _)
        (fun h => (hstop h).elim) ?_) (.inl hnumber)
      cases continuation seg with
      | none => rfl
      | some place => rw [route, if_pos hnumber]
    · have hproceeds : (seg.element number count).Proceeds := by
        refine ⟨?_, hnumber⟩
        show (count + 1) % 256 ≤ _
        omega
      rw [or_iff_right hnumber]
      by_cases hrow : RowOk seg
      · rw [and_iff_right hrow]
        have hone := (oneCase_element seg number hcount).mpr hrow
        cases hcont : continuation seg with
        | none =>
          have hend : (seg.element number count).AtEnd := by
            unfold continuation at hcont
            split at hcont
            · cases hcont
            · rename_i hjump
              obtain ⟨hs, hr, -, hle⟩ := hrow.resolve_left hjump
              split at hcont
              · cases hcont
              · rename_i hroad
                exact ⟨hs, hr, Nat.le_antisymm (Nat.not_lt.mp fun h => hroad ⟨hs, hr, h⟩) hle⟩
          exact iff_of_true (follows_of_none (next_of_end cfg m hend _) (fun _ => hone) rfl) nofun
        | some place =>
          obtain ⟨rrid, sgid⟩ := place
          have hgo : ¬(seg.element number count).AtEnd ∧
              (seg.element number count).ids = some (rrid % 2 ^ 32, sgid) := by
            unfold continuation at hcont
            split at hcont
            · rename_i hjump
              cases hcont
              exact ⟨fun h => hjump.1 h.1, if_pos hjump⟩
            · rename_i hjump
              split at hcont
              · rename_i hroad
                cases hcont
                refine ⟨fun h => hroad.2.2.ne h.2.2.symm, ?_⟩
                exact (if_neg hjump).trans (if_pos hroad)
              · cases hcont
          refine (follows_query hproceeds hgo.1 hgo.2).trans ?_
          rw [and_iff_right hone]
          have hrest : ∀ seg', Follows cfg m out k (surplus (surplus number seg) seg')
              (continuation seg') (seg'.element (surplus number seg) ((count + 1) % 256)) ↔
              RouteOk cfg m k (surplus (surplus number seg) seg') seg' := by
            intro seg'
            rw [hmod]
            exact ih seg' (Nat.succ_ne_zero count) (by omega)
          constructor
          · rintro ⟨o, hlook, hsegment, hfollows⟩ rrid' sgid' hplace
            cases hplace
            exact ⟨o, hlook, hsegment, fun seg' hseg => (hrest seg').mp (hfollows seg' hseg)⟩
          · intro h
            obtain ⟨o, hlook, hsegment, hroute⟩ := h rrid sgid rfl
            exact ⟨o, hlook, hsegment, fun seg' hseg => (hrest seg').mpr (hroute seg' hseg)⟩
      · exact iff_of_false
          (fun h => hrow ((oneCase_element seg number hcount).mp (h.oneCase hproceeds)))
          fun h => hrow h.1

theorem route_facts : ∀ (k number : Nat) (place : Option (Nat × Nat)) (l : List MapSegInfo),
    route cfg m k number place = .ok l →
    l.length ≤ k ∧ l.countP (·.endGrade = 1) ≤ number ∧
      (l.countP (·.endGrade = 1) = number ∨ l.length = k ∨ ∀ rrid sgid,
        l.getLast?.elim place continuation = some (rrid, sgid) →
          segmentAt cfg m rrid sgid = .ok none)
  | 0, number, place, l, h => by
    cases h
    exact ⟨Nat.le_refl 0, Nat.zero_le _, .inr (.inl rfl)⟩
  | k + 1, number, none, l, h => by
    cases h
    exact ⟨Nat.zero_le _, Nat.zero_le _, .inr (.inr nofun)⟩
  | k + 1, number, some (rrid, sgid), l, h => by
    rw [route] at h
    split at h
    · rename_i hnumber
      cases h
      exact ⟨Nat.zero_le _, Nat.zero_le _, .inl hnumber.symm⟩
    · rename_i hnumber
      obtain ⟨o, hsegment, h⟩ := Lib.bind_eq_ok.mp h
      cases o with
      | none =>
        cases h
        refine ⟨Nat.zero_le _, Nat.zero_le _, .inr (.inr fun rrid' sgid' hplace => ?_)⟩
        cases hplace
        exact hsegment
      | some seg =>
        obtain ⟨more, hmore, h⟩ := Lib.bind_eq_ok.mp h
        cases h
        obtain ⟨hlen, hcount, hend⟩ := route_facts k _ _ more hmore
        have hlast : (seg :: more).getLast?.elim (some (rrid, sgid)) continuation =
            more.getLast?.elim (continuation seg) continuation := by
          cases more with
          | nil => rfl
          | cons seg' more => rw [getLast?_cons_cons, getLast?_cons]; rfl
        rw [hlast, length_cons, countP_cons]
        unfold surplus at hcount hend
        refine ⟨by omega, ?_, ?_⟩
        · split at hcount
          · rename_i hgrade
            rw [if_pos (decide_eq_true hgrade)]
            omega
          · rename_i hgrade
            rwa [if_neg (by simpa using hgrade)]
        · refine hend.imp (fun h => ?_) (Or.imp_left fun h => by omega)
          split at h
          · rename_i hgrade
            rw [if_pos (decide_eq_true hgrade)]
            omega
          · rename_i hgrade
            rwa [if_neg (by simpa using hgrade)]

theorem follows_init_iff (rridId sgid number' : UInt32) :
    Follows cfg m out ITERATOR_COUNT number'.toNat (some (rridId.toNat, sgid.toNat))
      (mapSegIteratorInit rridId sgid number') ↔ StartOk cfg m rridId sgid number' := by
  have hrrid : rridId.toNat < 2 ^ 32 := rridId.toNat_lt
  unfold StartOk
  by_cases hnumber : number'.toNat = 0
  · have hstop : ¬(mapSegIteratorInit rridId sgid number').Proceeds := fun h => h.2 hnumber
    refine iff_of_true (follows_of_none (next_of_not_proceeds cfg m hstop _)
      (fun h => (hstop h).elim) ?_) (.inl hnumber)
    exact if_pos hnumber
  · have hproceeds : (mapSegIteratorInit rridId sgid number').Proceeds :=
      ⟨(by decide : 1 ≤ ITERATOR_COUNT), hnumber⟩
    rw [or_iff_right hnumber]
    by_cases hsgid : sgid.toNat % 256 = 0
    · -- both the first segment and the end of the road
      refine iff_of_false (fun h => ?_) fun h => h.1 hsgid
      have hone := (h.oneCase hproceeds).1
      simp [MapIteratorElement.First, MapIteratorElement.InRoad, MapIteratorElement.AtEnd,
        MapIteratorElement.Jump, mapSegIteratorInit, hsgid] at hone
    · have hend : ¬(mapSegIteratorInit rridId sgid number').AtEnd := fun h => hsgid h.2.2.symm
      have hids : (mapSegIteratorInit rridId sgid number').ids =
          some (rridId.toNat, sgid.toNat % 256) := by
        have hfirst : (mapSegIteratorInit rridId sgid number').ids =
            some (rridId.toNat % 2 ^ 32, sgid.toNat % 256) := rfl
        rwa [Nat.mod_eq_of_lt hrrid] at hfirst
      have hone : OneCase (mapSegIteratorInit rridId sgid number') := by
        refine ⟨?_, fun _ => rfl⟩
        simp [MapIteratorElement.First, MapIteratorElement.InRoad, MapIteratorElement.AtEnd,
          MapIteratorElement.Jump, mapSegIteratorInit, Ne.symm hsgid]
      rw [and_iff_right hsgid]
      refine (follows_query hproceeds hend hids).trans ?_
      rw [and_iff_right hone]
      have hsegment : segmentAt cfg m rridId.toNat sgid.toNat =
          look cfg m rridId.toNat sgid.toNat := if_pos hrrid
      have hrest : ∀ seg, Follows cfg m out (ITERATOR_COUNT - 1) (surplus number'.toNat seg)
          (continuation seg) (seg.element number'.toNat 1) ↔
          RouteOk cfg m (ITERATOR_COUNT - 1) (surplus number'.toNat seg) seg :=
        fun seg => follows_iff seg Nat.one_ne_zero rfl
      rw [hsegment]
      exact exists_congr fun o => and_congr_right fun _ => and_congr_right fun _ =>
        forall_congr' fun seg => imp_congr_right fun _ => hrest seg

/-- **The calls follow the route exactly on consistent rows.** -/
theorem iterator_iff (cfg : MapSegCfg) (m : MapSegManager) (rridId sgid number : UInt32) :
    Iterated cfg m rridId sgid number ↔ StartOk cfg m rridId sgid number := by
  constructor
  · intro h
    obtain ⟨l, hl, hcalls, heach, -⟩ := h fun _ => ⟨none, none, none, none⟩
    exact follows_init_iff rridId sgid number |>.mp ⟨l, hl, hcalls, heach⟩
  · intro h out
    obtain ⟨l, hl, hcalls, heach⟩ : Follows cfg m out _ _ _ _ :=
      (follows_init_iff rridId sgid number).mpr h
    exact ⟨l, hl, hcalls, heach, route_facts _ _ _ l hl⟩

end

/-- A file with the first segment of a road of two, which names the next road but no
segment of it. -/
def halfNextFile : SegFile :=
  ⟨{ loadOnce := 2, maxIndex := 1, minIndex := 1, indexLong := 1, rridBufLong := 4,
     nameIndexLong := 1, nameBufLong := 4 },
    [⟨{ MapSegInfo.zero with rrid := 1, sgid := 1, sgidCount := 2, nextRrid := 2 }, []⟩]⟩

/-- Behind that segment none of the four `if`s holds. -/
theorem not_iterated_halfNext :
    ∃ m, segFileLoad 1 halfNextFile = .ok m ∧ ¬Iterated halfNextFile.header m 1 1 1 := by
  refine ⟨_, rfl, fun h => ?_⟩
  obtain ⟨l, -, -, heach, -⟩ := h fun _ => ⟨none, none, none, none⟩
  have hone := ((heach 2).2 _ _ rfl).1 ⟨by decide, by decide⟩
  exact absurd hone.1 (by decide)

end Supex.Mapdata.Segment
