import Supex.Lib.Decimal
import Supex.Lib.OrdMap
import Supex.Lib.Run

/-!
# The record of a road

`roadsec_info_get` looks up the address of the record of a road, and allocates a record
if there is none. `roadsec_info_save` looks once more before it stores the address, so
that a road does not get two records, and says so in a comment. Any number of workers
call; a command of the store is one step, and so is the allocation.

The store maps a road to the text under `<road>:road_info`. A command that is not
answered changes nothing and lets the call fail.

Main result: `one_record`.
-/

namespace Supex.RoadRank

open Supex.Lib List

/-- An address as `%ld` sees it. -/
def toLong (record : Nat) : Int := if record < 2 ^ 63 then record else record - 2 ^ 64

/-- The text that is stored for a record. -/
def addressText (record : Nat) : Bytes := fmtLong (toLong record)

/-- `(SECKV_ROAD *)strtol(ptr, NULL, 10)`. -/
def address (text : Bytes) : Nat := (strtol text % 2 ^ 64).toNat

inductive Flag where
  | err
  | suc
  | nil
  deriving DecidableEq

/-- What a call returned. -/
structure Returned where
  road : Int
  flag : Flag
  record : Nat
  deriving DecidableEq

/-- What a worker does next. -/
inductive Worker where
  | idle
  /-- the `get` of `roadsec_info_get` -/
  | getting (road : Int)
  /-- `malloc` -/
  | allocating (road : Int)
  /-- the `get` of `roadsec_info_save` -/
  | checking (road : Int) (record : Nat)
  /-- its `set` -/
  | setting (road : Int) (record : Nat)
  deriving DecidableEq

structure Roads where
  kv : OrdMap Int Bytes
  /-- `old_roadID` of the records that are not freed -/
  records : OrdMap Nat Int
  pc : Nat → Worker
  returned : List Returned
  /-- the addresses that were stored -/
  stored : List (Int × Nat)

def Roads.init : Roads := ⟨.empty, .empty, fun _ => .idle, [], []⟩

/-- `answered`: the command is answered without an error, if the step is a command.
`record`: the address that `malloc` returns, if it is the allocation. -/
inductive RoadAct where
  | call (w : Nat) (road : Int)
  | next (w : Nat) (answered : Bool) (record : Nat)

def Roads.goto (s : Roads) (w : Nat) (pc : Worker) : Roads :=
  { s with pc := Function.update s.pc w pc }

/-- The call of a worker ends. -/
def Roads.return (s : Roads) (w : Nat) (road : Int) (flag : Flag) (record : Nat) : Roads :=
  { s.goto w .idle with returned := s.returned ++ [⟨road, flag, record⟩] }

/-- The call of a worker ends after `free`. -/
def Roads.abandon (s : Roads) (w : Nat) (road : Int) (record : Nat) : Roads :=
  { s with records := s.records.erase record }.return w road .err 0

def Roads.next (s : Roads) (w : Nat) (answered : Bool) (record : Nat) : Except Fault Roads :=
  match s.pc w with
  | .idle => .ok s
  | .getting road =>
    if answered then
      match s.kv.get road with
      | none => .ok (s.goto w (.allocating road))
      | some text => .ok (s.return w road .suc (address text))
    else .ok (s.return w road .err 0)
  | .allocating road =>
    .ok ({ s with records := s.records.insert record road }.goto w (.checking road record))
  | .checking road record =>
    match s.records.get record with
    | none => .error .memory
    | some old_roadID =>
      if answered ∧ s.kv.get old_roadID = none then .ok (s.goto w (.setting road record))
      else .ok (s.abandon w road record)
  | .setting road record =>
    match s.records.get record with
    | none => .error .memory
    | some old_roadID =>
      if answered then
        .ok ({ s with
          kv := s.kv.insert old_roadID (addressText record)
          stored := s.stored ++ [(old_roadID, record)] }.return w road .nil record)
      else .ok (s.abandon w road record)

/-- A worker in a call takes no other call. -/
def Roads.step (s : Roads) : RoadAct → Except Fault Roads
  | .call w road =>
    match s.pc w with
    | .idle => .ok (s.goto w (.getting road))
    | _ => .ok s
  | .next w answered record => s.next w answered record

/-- `malloc` returns memory that is not in use. -/
def Fresh (s : Roads) : RoadAct → Prop
  | .next w _ record =>
    match s.pc w with
    | .allocating _ => s.records.get record = none ∧ record < 2 ^ 64
    | _ => True
  | _ => True

instance (s : Roads) (a : RoadAct) : Decidable (Fresh s a) := by
  unfold Fresh
  split
  · split <;> infer_instance
  · infer_instance

/-- A `set` finds its road without an address. -/
def Lone (s : Roads) : RoadAct → Prop
  | .next w true _ =>
    match s.pc w with
    | .setting road _ => s.kv.get road = none
    | _ => True
  | _ => True

/-- A road has one record. -/
structure OneRecord (s : Roads) : Prop where
  /-- the calls that do not fail have the same record -/
  same : ∀ x ∈ s.returned, ∀ y ∈ s.returned, x.flag ≠ .err → y.flag ≠ .err → x.road = y.road →
    x.record = y.record
  /-- one of them made it -/
  once : ∀ road, (s.returned.filter fun x => x.road = road ∧ x.flag = .nil).length ≤ 1
  /-- no address is stored in place of another -/
  kept : ∀ road a b, (road, a) ∈ s.stored → (road, b) ∈ s.stored → a = b

--
-- Addresses
--

theorem address_addressText {record : Nat} (h : record < 2 ^ 64) :
    address (addressText record) = record := by
  have hlong : strtol (addressText record) = toLong record :=
    strtol_fmtLong (by unfold toLong; split <;> omega) (by unfold toLong; split <;> omega)
  unfold address
  rw [hlong]
  unfold toLong
  split <;> omega

--
-- The invariant
--

/-- The road and the record that a worker has made and not stored. -/
def Worker.record : Worker → Option (Int × Nat)
  | .checking road record => some (road, record)
  | .setting road record => some (road, record)
  | _ => none

structure Tracked (s : Roads) : Prop where
  owned : ∀ w e, (s.pc w).record = some e → s.records.get e.2 = some e.1 ∧ e.2 < 2 ^ 64
  apart : ∀ w w' e e', (s.pc w).record = some e → (s.pc w').record = some e' → e.2 = e'.2 → w = w'
  text : ∀ road text, s.kv.get road = some text → (road, address text) ∈ s.stored
  there : ∀ e ∈ s.stored, s.kv.get e.1 ≠ none
  returned : ∀ x ∈ s.returned, x.flag ≠ .err → (x.road, x.record) ∈ s.stored
  count : ∀ road, (s.returned.filter fun x => x.road = road ∧ x.flag = .nil).length =
    (s.stored.filter fun e => e.1 = road).length

variable {s : Roads}

theorem Roads.pc_goto_self (s : Roads) (w : Nat) (pc : Worker) : (s.goto w pc).pc w = pc :=
  Function.update_self ..

variable {w : Nat}

theorem Roads.pc_goto_of_ne {w' : Nat} (h : w' ≠ w) (s : Roads) (pc : Worker) :
    (s.goto w pc).pc w' = s.pc w' := Function.update_of_ne h ..

theorem Tracked.init : Tracked .init := by
  refine ⟨nofun, nofun, ?_, nofun, nofun, fun _ => rfl⟩
  intro road text h
  exact absurd h nofun

theorem Tracked.goto (h : Tracked s) {pc : Worker}
    (hpc : ∀ e, pc.record = some e → (s.pc w).record = some e) : Tracked (s.goto w pc) := by
  have hsame : ∀ w' e, ((s.goto w pc).pc w').record = some e → (s.pc w').record = some e := by
    intro w' e he
    by_cases hw : w' = w
    · rw [hw, s.pc_goto_self] at he
      rw [hw]
      exact hpc e he
    · rwa [s.pc_goto_of_ne hw] at he
  refine ⟨fun w' e he => h.owned w' e (hsame w' e he), ?_, h.text, h.there, h.returned, h.count⟩
  intro w₁ w₂ e₁ e₂ h₁ h₂ heq
  exact h.apart w₁ w₂ e₁ e₂ (hsame w₁ e₁ h₁) (hsame w₂ e₂ h₂) heq

theorem Tracked.leave (h : Tracked s) {pc : Worker} (hpc : pc.record = none) :
    Tracked (s.goto w pc) := by
  refine h.goto fun e he => ?_
  rw [hpc] at he
  cases he

theorem Tracked.snoc (h : Tracked s) {x : Returned} (hnil : x.flag ≠ .nil)
    (hx : x.flag ≠ .err → (x.road, x.record) ∈ s.stored) :
    Tracked { s with returned := s.returned ++ [x] } := by
  refine ⟨h.owned, h.apart, h.text, h.there, ?_, ?_⟩
  · intro y hy hflag
    rcases mem_append.mp hy with hy | hy
    · exact h.returned y hy hflag
    · rw [mem_singleton.mp hy] at hflag ⊢
      exact hx hflag
  · intro road
    have hskip : ([x].filter fun x => x.road = road ∧ x.flag = .nil) = [] := by simp [hnil]
    rw [filter_append, hskip, append_nil]
    exact h.count road

theorem Tracked.erase (h : Tracked s) {road : Int} {record : Nat}
    (hw : (s.pc w).record = some (road, record)) :
    Tracked ({ s with records := s.records.erase record }.goto w .idle) := by
  have hpc : ∀ w' e, (({ s with records := s.records.erase record } : Roads).goto w .idle |>.pc
      w').record = some e → w' ≠ w ∧ (s.pc w').record = some e := by
    intro w' e he
    by_cases hne : w' = w
    · rw [hne, Roads.pc_goto_self] at he
      cases he
    · rw [Roads.pc_goto_of_ne hne] at he
      exact ⟨hne, he⟩
  refine ⟨?_, ?_, h.text, h.there, h.returned, h.count⟩
  · intro w' e he
    obtain ⟨hne, he⟩ := hpc w' e he
    obtain ⟨hget, hlt⟩ := h.owned w' e he
    have hother : e.2 ≠ record := fun heq => hne (h.apart w' w e (road, record) he hw heq)
    refine ⟨?_, hlt⟩
    change (s.records.erase record).get e.2 = some e.1
    rw [OrdMap.get_erase, if_neg hother]
    exact hget
  · intro w₁ w₂ e₁ e₂ h₁ h₂ heq
    exact h.apart w₁ w₂ e₁ e₂ (hpc w₁ e₁ h₁).2 (hpc w₂ e₂ h₂).2 heq

theorem Tracked.insert (h : Tracked s) {road : Int} {record : Nat}
    (hfresh : s.records.get record = none) (hlt : record < 2 ^ 64) :
    Tracked ({ s with records := s.records.insert record road }.goto w
      (.checking road record)) := by
  have hpc : ∀ w' e, (({ s with records := s.records.insert record road } : Roads).goto w
      (.checking road record) |>.pc w').record = some e →
        (w' = w ∧ e = (road, record)) ∨ (s.pc w').record = some e := by
    intro w' e he
    by_cases hne : w' = w
    · rw [hne, Roads.pc_goto_self] at he
      exact .inl ⟨hne, (Option.some.inj he).symm⟩
    · rw [Roads.pc_goto_of_ne hne] at he
      exact .inr he
  have hother : ∀ w' e, (s.pc w').record = some e → e.2 ≠ record := by
    intro w' e he heq
    rw [← heq, (h.owned w' e he).1] at hfresh
    cases hfresh
  refine ⟨?_, ?_, h.text, h.there, h.returned, h.count⟩
  · intro w' e he
    change (s.records.insert record road).get e.2 = some e.1 ∧ _
    rw [OrdMap.get_insert]
    rcases hpc w' e he with ⟨-, rfl⟩ | he
    · exact ⟨if_pos rfl, hlt⟩
    · rw [if_neg (hother w' e he)]
      exact h.owned w' e he
  · intro w₁ w₂ e₁ e₂ h₁ h₂ heq
    rcases hpc w₁ e₁ h₁ with ⟨hw₁, he₁⟩ | h₁ <;> rcases hpc w₂ e₂ h₂ with ⟨hw₂, he₂⟩ | h₂
    · rw [hw₁, hw₂]
    · exact absurd (heq ▸ congrArg Prod.snd he₁) (hother w₂ e₂ h₂)
    · exact absurd (heq ▸ congrArg Prod.snd he₂) (hother w₁ e₁ h₁)
    · exact h.apart w₁ w₂ e₁ e₂ h₁ h₂ heq

/-- The state after a `set` that is answered. -/
def Roads.set (s : Roads) (w : Nat) (road : Int) (record : Nat) : Roads :=
  { s with
    kv := s.kv.insert road (addressText record)
    stored := s.stored ++ [(road, record)] }.return w road .nil record

theorem Tracked.set (h : Tracked s) {road : Int} {record : Nat}
    (hw : (s.pc w).record = some (road, record)) : Tracked (s.set w road record) := by
  have hleave : Tracked (s.goto w .idle) := h.leave rfl
  obtain ⟨howned, hapart, -, -, -, -⟩ := hleave
  have haddress := address_addressText (h.owned w (road, record) hw).2
  refine ⟨howned, hapart, ?_, ?_, ?_, ?_⟩
  · intro road' text htext
    change (s.kv.insert road (addressText record)).get road' = some text at htext
    rw [OrdMap.get_insert] at htext
    by_cases hroad : road' = road
    · rw [if_pos hroad, Option.some.injEq] at htext
      rw [hroad, ← htext, haddress]
      exact mem_append_right _ (.head _)
    · rw [if_neg hroad] at htext
      exact mem_append_left _ (h.text road' text htext)
  · intro e he
    change (s.kv.insert road (addressText record)).get e.1 ≠ none
    rw [OrdMap.get_insert]
    split
    · exact nofun
    · rcases mem_append.mp he with he | he
      · exact h.there e he
      · rename_i hroad
        exact absurd (congrArg Prod.fst (mem_singleton.mp he)) hroad
  · intro x hx hflag
    rcases mem_append.mp hx with hx | hx
    · exact mem_append_left _ (h.returned x hx hflag)
    · rw [mem_singleton.mp hx]
      exact mem_append_right _ (.head _)
  · intro road'
    have hcount := h.count road'
    change ((s.returned ++ [(⟨road, .nil, record⟩ : Returned)]).filter _).length =
      ((s.stored ++ [(road, record)]).filter _).length
    rw [filter_append, filter_append, length_append, length_append, hcount]
    by_cases hroad : road = road' <;> simp [hroad]

/-- **One step** succeeds and keeps track; it stores an address or changes none. -/
theorem step_spec (h : Tracked s) {a : RoadAct} (hfresh : Fresh s a) :
    ∃ s', s.step a = .ok s' ∧ Tracked s' ∧
      ((s'.stored = s.stored ∧ Lone s a) ∨
        ∃ road record, s'.stored = s.stored ++ [(road, record)] ∧
          (Lone s a ↔ s.kv.get road = none)) := by
  rcases a with ⟨w, road⟩ | ⟨w, answered, record⟩
  · unfold Roads.step
    dsimp only
    split
    · exact ⟨_, rfl, h.leave rfl, .inl ⟨rfl, trivial⟩⟩
    · exact ⟨_, rfl, h, .inl ⟨rfl, trivial⟩⟩
  · have hlone : (∀ road made, s.pc w ≠ .setting road made) → Lone s (.next w answered record) := by
      intro hpc
      unfold Lone
      split
      · rename_i heq
        rw [RoadAct.next.injEq] at heq
        rw [← heq.1]
        split
        · exact absurd ‹_› (hpc _ _)
        · trivial
      · trivial
    unfold Fresh at hfresh
    dsimp only at hfresh
    unfold Roads.step Roads.next
    dsimp only
    rcases hpc : s.pc w with _ | road | road | ⟨road, made⟩ | ⟨road, made⟩
    · exact ⟨_, rfl, h, .inl ⟨rfl, hlone (by rw [hpc]; exact nofun)⟩⟩
    · have hl := hlone (by rw [hpc]; exact nofun)
      dsimp only
      split
      · split
        · exact ⟨_, rfl, h.leave rfl, .inl ⟨rfl, hl⟩⟩
        · rename_i text htext
          exact ⟨_, rfl, (h.leave rfl).snoc nofun fun _ => h.text road text htext, .inl ⟨rfl, hl⟩⟩
      · exact ⟨_, rfl, (h.leave rfl).snoc nofun fun hne => absurd rfl hne, .inl ⟨rfl, hl⟩⟩
    · rw [hpc] at hfresh
      exact ⟨_, rfl, h.insert hfresh.1 hfresh.2, .inl ⟨rfl, hlone (by rw [hpc]; exact nofun)⟩⟩
    · have hmine : (s.pc w).record = some (road, made) := by
        rw [hpc]
        rfl
      have hl := hlone (by rw [hpc]; exact nofun)
      dsimp only
      rw [(h.owned w _ hmine).1]
      dsimp only
      split
      · exact ⟨_, rfl, h.goto fun e he => by rw [hmine]; exact he, .inl ⟨rfl, hl⟩⟩
      · exact ⟨_, rfl, (h.erase hmine).snoc nofun fun hne => absurd rfl hne, .inl ⟨rfl, hl⟩⟩
    · have hmine : (s.pc w).record = some (road, made) := by
        rw [hpc]
        rfl
      dsimp only
      rw [(h.owned w _ hmine).1]
      rcases answered with _ | _
      · exact ⟨_, rfl, (h.erase hmine).snoc nofun fun hne => absurd rfl hne,
          .inl ⟨rfl, trivial⟩⟩
      · refine ⟨_, rfl, h.set hmine, .inr ⟨road, made, rfl, ?_⟩⟩
        unfold Lone
        dsimp only
        rw [hpc]

--
-- Runs
--

/-- Every road has been given at most one address. -/
def Once (s : Roads) : Prop := ∀ road, (s.stored.filter fun e => e.1 = road).length ≤ 1

theorem Tracked.oneRecord_iff (h : Tracked s) : OneRecord s ↔ Once s := by
  constructor
  · intro hone road
    rw [← h.count road]
    exact hone.once road
  · intro honce
    have hkept : ∀ road a b, (road, a) ∈ s.stored → (road, b) ∈ s.stored → a = b := by
      intro road a b ha hb
      have hmem : ∀ c, (road, c) ∈ s.stored → (road, c) ∈ s.stored.filter fun e => e.1 = road :=
        fun c hc => mem_filter.mpr ⟨hc, by simp⟩
      rcases hlist : s.stored.filter fun e => e.1 = road with _ | ⟨e, _ | ⟨e', rest⟩⟩
      · have hnone := hmem a ha
        rw [hlist] at hnone
        cases hnone
      · have ha' := hmem a ha
        have hb' := hmem b hb
        rw [hlist] at ha' hb'
        exact congrArg Prod.snd ((mem_singleton.mp ha').trans (mem_singleton.mp hb').symm)
      · have htwo := honce road
        rw [hlist] at htwo
        simp at htwo
    refine ⟨?_, fun road => by rw [h.count road]; exact honce road, hkept⟩
    intro x hx y hy hxflag hyflag hroad
    have hxs := h.returned x hx hxflag
    rw [hroad] at hxs
    exact hkept y.road x.record y.record hxs (h.returned y hy hyflag)

theorem Tracked.once_snoc (h : Tracked s) (honce : Once s) {s' : Roads} {road : Int} {record : Nat}
    (hstored : s'.stored = s.stored ++ [(road, record)]) :
    Once s' ↔ s.kv.get road = none := by
  unfold Once
  rw [hstored]
  constructor
  · intro hall
    by_contra hsome
    obtain ⟨text, htext⟩ := Option.ne_none_iff_exists'.mp hsome
    have hmem : (road, address text) ∈ s.stored.filter fun e => e.1 = road :=
      mem_filter.mpr ⟨h.text road text htext, by simp⟩
    have htwo := hall road
    have hpos := length_pos_of_mem hmem
    rw [filter_append, length_append] at htwo
    simp only [filter_cons, decide_true, filter_nil, ↓reduceIte, length_cons,
      length_nil] at htwo
    omega
  · intro hnone road'
    rw [filter_append, length_append]
    by_cases hroad : road = road'
    · have hempty : (s.stored.filter fun e => e.1 = road') = [] := by
        rw [filter_eq_nil_iff]
        intro e he heq
        rw [← hroad] at heq
        exact h.there e he (by rw [of_decide_eq_true heq]; exact hnone)
      rw [hempty, length_nil, Nat.zero_add]
      exact length_filter_le _ _
    · have hskip : ([(road, record)].filter fun e => e.1 = road') = [] := by simp [hroad]
      rw [hskip]
      exact honce road'

/-- **One record.** Under `malloc`, a road has one record throughout a run if and only
if every `set` of the run finds its road without an address. -/
theorem one_record (acts : List RoadAct) (h : Along Roads.step Fresh .init acts) :
    ∃ s', run Roads.step .init acts = .ok s' ∧
      (Throughout Roads.step OneRecord .init acts ↔ Along Roads.step Lone .init acts) := by
  have hstep : ∀ s a, Tracked s → Fresh s a → ∃ s', s.step a = .ok s' ∧ Tracked s' := by
    intro s a hs ha
    obtain ⟨s', hs', htracked, -⟩ := step_spec hs ha
    exact ⟨s', hs', htracked⟩
  obtain ⟨s', hrun, -⟩ := run_of_along hstep Tracked.init h
  refine ⟨s', hrun, throughout_iff_along (I := Tracked) (D := Fresh) ?_ ?_ Tracked.init ?_ h hrun⟩
  · intro s a s₁ hs ha hs₁
    obtain ⟨s₂, hs₂, htracked, -⟩ := step_spec hs ha
    rw [hs₂, Except.ok.injEq] at hs₁
    exact hs₁ ▸ htracked
  · intro s a s₁ hs hone ha hs₁
    obtain ⟨s₂, hs₂, htracked, hstored⟩ := step_spec hs ha
    rw [hs₂, Except.ok.injEq] at hs₁
    subst hs₁
    rw [htracked.oneRecord_iff]
    have honce := hs.oneRecord_iff.mp hone
    rcases hstored with ⟨hsame, hlone⟩ | ⟨road, record, hsnoc, hlone⟩
    · refine iff_of_true ?_ hlone
      unfold Once
      rw [hsame]
      exact honce
    · rw [hlone]
      exact hs.once_snoc honce hsnoc
  · exact Tracked.init.oneRecord_iff.mpr fun _ => Nat.zero_le _

/-- Two workers, of which one finds the address of the other after its allocation, and a
third one that comes later. -/
theorem one_record_threeWorkers :
    ∃ s', run Roads.step .init [.call 0 7, .call 1 7, .next 0 true 0, .next 1 true 0,
        .next 0 true 4096, .next 0 true 0, .next 0 true 0, .next 1 true 8192, .next 1 true 0,
        .call 2 7, .next 2 true 0] = .ok s' ∧
      (Throughout Roads.step OneRecord .init [.call 0 7, .call 1 7, .next 0 true 0, .next 1 true 0,
        .next 0 true 4096, .next 0 true 0, .next 0 true 0, .next 1 true 8192, .next 1 true 0,
        .call 2 7, .next 2 true 0] ↔
        Along Roads.step Lone .init [.call 0 7, .call 1 7, .next 0 true 0, .next 1 true 0,
        .next 0 true 4096, .next 0 true 0, .next 0 true 0, .next 1 true 8192, .next 1 true 0,
        .call 2 7, .next 2 true 0]) :=
  one_record _ (by decide)

/-- Two workers look for the second time before one of them stores its record. -/
theorem not_oneRecord_race :
    ¬ ∀ acts : List RoadAct, Along Roads.step Fresh .init acts →
      Throughout Roads.step OneRecord .init acts := by
  intro h
  have hlast := (h [.call 0 7, .call 1 7, .next 0 true 0, .next 1 true 0, .next 0 true 4096,
    .next 1 true 8192, .next 0 true 0, .next 1 true 0, .next 0 true 0, .next 1 true 0]
    (by decide)).last rfl
  exact absurd (hlast.once 7) (by decide)

end Supex.RoadRank
