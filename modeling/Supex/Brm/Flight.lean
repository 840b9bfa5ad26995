import Supex.Brm.Tasks

/-!
# The count of the batches in flight

Between two callbacks every task that is not freed has one batch in flight. Within a
callback one task may be without a batch (`Held (some id)`): it was just pulled, or its
batch has ended, and the callback frees it or starts its next batch. `debt` is what
`dealtasks` is too large by; one callback adds to it.
-/

namespace Supex.Brm

open Supex.Lib List

/-- The data that the callback of command `i` writes to is there. -/
def TaskData.Has (t : TaskData) (stage : Stage) (i : Nat) : Prop :=
  match stage with
  | .calculate => i < t.caldata.length
  | .route => ∃ d, t.rtdata[i]? = some (some d)

/-- Every task is freed or has a batch, but for one. -/
structure Held (loose : Option Nat) (s : Thread) : Prop where
  live : ∀ c b, s.batches.get c = some b →
    ∃ t, s.tasks.get b.task = some t ∧ ∀ i ∈ b.commands, t.Has b.stage i
  apart : ∀ c c' b b', s.batches.get c = some b → s.batches.get c' = some b' → b.task = b'.task →
    c = c'
  flying : ∀ id, s.tasks.get id ≠ none → loose ≠ some id →
    ∃ c b, s.batches.get c = some b ∧ b.task = id
  held : ∀ id, loose = some id →
    s.tasks.get id ≠ none ∧ ∀ c b, s.batches.get c = some b → b.task ≠ id
  source : ∀ id t, s.tasks.get id = some t → t.src ≠ []
  fresh : ∀ id, s.nextTask ≤ id → s.tasks.get id = none ∧ id ∉ s.pulled ∧ id ∉ s.freed
  unused : ∀ c, s.nextBatch ≤ c → s.batches.get c = none
  pulled : s.pulled.Nodup
  freed : ∀ id, s.freed.count id + (if s.tasks.get id = none then 0 else 1) = s.pulled.count id

/-- What `dealtasks` counts too much. -/
def Thread.debt (s : Thread) : Int := s.dealtasks - s.flights

variable {out : Outside} {s : Thread} {id : Nat}

theorem Held.init : Held none .init := by
  refine ⟨nofun, nofun, fun id h => absurd rfl h, nofun, nofun, fun id _ => ⟨rfl, nofun, nofun⟩,
    fun _ _ => rfl, nodup_nil, fun id => rfl⟩

theorem Held.accounted_iff (h : Held none s) (cfg : Config) : Accounted cfg s ↔ s.debt = 0 := by
  unfold Thread.debt
  constructor
  · intro hacc
    rw [hacc.counted, sub_self]
  · intro hdebt
    have hcounted : s.dealtasks = s.flights := sub_eq_zero.mp hdebt
    refine ⟨hcounted, ?_, ?_⟩
    · intro hempty hpos
      rw [hcounted, Thread.flights, hempty]
      exact hpos
    · intro id hid
      have hone : s.pulled.count id = 1 := count_eq_one_of_mem h.pulled hid
      have hcount := h.freed id
      rw [hone] at hcount
      by_cases hnone : s.tasks.get id = none
      · rw [if_pos hnone] at hcount
        exact .inl ⟨hnone, hcount⟩
      · rw [if_neg hnone] at hcount
        obtain ⟨c, b, hb, htask⟩ := h.flying id hnone nofun
        refine .inr ⟨hnone, by omega, c, b, hb, htask, fun c' b' hb' htask' => ?_⟩
        exact h.apart c' c b' b hb' hb (htask'.trans htask.symm)

--
-- Freeing, starting, landing
--

theorem Held.free (h : Held (some id) s) :
    ∃ s', s.free id = .ok s' ∧ Held none s' ∧ s'.debt = s.debt := by
  obtain ⟨hlive, hother⟩ := h.held id rfl
  obtain ⟨t, ht⟩ := Option.ne_none_iff_exists'.mp hlive
  have hget : ∀ id', id' ≠ id → (s.tasks.erase id).get id' = s.tasks.get id' := by
    intro id' hne
    rw [OrdMap.get_erase, if_neg hne]
  have hgone : (s.tasks.erase id).get id = none := by rw [OrdMap.get_erase, if_pos rfl]
  refine ⟨{ s with tasks := s.tasks.erase id, freed := s.freed ++ [id] }, ?_, ?_, rfl⟩
  · unfold Thread.free
    rw [ht]
  · refine ⟨?_, h.apart, ?_, nofun, ?_, ?_, h.unused, h.pulled, ?_⟩
    · intro c b hb
      rw [hget _ (hother c b hb)]
      exact h.live c b hb
    · intro id' hid' _
      have hne : id' ≠ id := by
        intro heq
        rw [heq] at hid'
        exact hid' hgone
      refine h.flying id' ?_ fun heq => hne (Option.some.inj heq).symm
      rwa [← hget id' hne]
    · intro id' t' ht'
      by_cases hne : id' = id
      · rw [hne] at ht'
        exact absurd (ht'.symm.trans hgone) nofun
      · exact h.source id' t' ((hget id' hne).symm.trans ht')
    · intro id' hid'
      obtain ⟨hnone, hpulled, hfreed⟩ := h.fresh id' hid'
      have hne : id' ≠ id := by
        intro heq
        rw [heq, ht] at hnone
        cases hnone
      refine ⟨(hget id' hne).trans hnone, hpulled, fun hmem => ?_⟩
      rcases mem_append.mp hmem with hmem | hmem
      · exact hfreed hmem
      · exact hne (mem_singleton.mp hmem)
    · intro id'
      have hcount := h.freed id'
      rw [count_append, ← hcount]
      by_cases hne : id' = id
      · rw [hne, hgone, if_pos rfl, ht, if_neg nofun, count_singleton_self]
      · rw [hget id' hne, count_singleton, if_neg (by simpa using Ne.symm hne), add_zero]

theorem Held.startup {stage : Stage} {commands : List Nat} (h : Held (some id) s)
    (hhas : ∀ t, s.tasks.get id = some t → ∀ i ∈ commands, t.Has stage i) :
    Held none (s.startup id stage commands) ∧ (s.startup id stage commands).debt = s.debt := by
  obtain ⟨hlive, hother⟩ := h.held id rfl
  have hnone := h.unused s.nextBatch le_rfl
  have hget : ∀ c, (s.batches.insert s.nextBatch ⟨id, stage, commands⟩).get c =
      if c = s.nextBatch then some ⟨id, stage, commands⟩ else s.batches.get c :=
    fun c => OrdMap.get_insert ..
  have hcases : ∀ c b, (s.batches.insert s.nextBatch ⟨id, stage, commands⟩).get c = some b →
      (c = s.nextBatch ∧ b = ⟨id, stage, commands⟩) ∨ s.batches.get c = some b := by
    intro c b hb
    rw [hget] at hb
    by_cases hc : c = s.nextBatch
    · rw [if_pos hc] at hb
      exact .inl ⟨hc, (Option.some.inj hb).symm⟩
    · rw [if_neg hc] at hb
      exact .inr hb
  refine ⟨⟨?_, ?_, ?_, nofun, h.source, h.fresh, ?_, h.pulled, h.freed⟩, ?_⟩
  · intro c b hb
    rcases hcases c b hb with ⟨-, rfl⟩ | hb
    · obtain ⟨t, ht⟩ := Option.ne_none_iff_exists'.mp hlive
      exact ⟨t, ht, hhas t ht⟩
    · exact h.live c b hb
  · intro c c' b b' hb hb' htask
    rcases hcases c b hb with ⟨hc, rfl⟩ | hb <;> rcases hcases c' b' hb' with ⟨hc', rfl⟩ | hb'
    · rw [hc, hc']
    · exact absurd htask.symm (hother c' b' hb')
    · exact absurd htask (hother c b hb)
    · exact h.apart c c' b b' hb hb' htask
  · intro id' hid' _
    by_cases hne : id' = id
    · exact ⟨s.nextBatch, ⟨id, stage, commands⟩, (hget _).trans (if_pos rfl), hne.symm⟩
    · obtain ⟨c, b, hb, htask⟩ := h.flying id' hid' fun heq => hne (Option.some.inj heq).symm
      have hc : c ≠ s.nextBatch := by
        intro heq
        rw [heq, hnone] at hb
        cases hb
      exact ⟨c, b, (hget c).trans ((if_neg hc).trans hb), htask⟩
  · intro c hc
    change s.nextBatch + 1 ≤ c at hc
    refine (hget c).trans ?_
    rw [if_neg (by omega)]
    exact h.unused c (by omega)
  · change s.dealtasks + 1 - ((s.batches.insert s.nextBatch _).entries.length : Int) = _
    rw [OrdMap.length_insert_of_none hnone, Thread.debt, Thread.flights]
    push_cast
    ring

theorem Held.land {c : Nat} {b : Batch} (h : Held none s) (hb : s.batches.get c = some b) :
    Held (some b.task) { s with batches := s.batches.erase c } ∧
      ({ s with batches := s.batches.erase c } : Thread).debt = s.debt + 1 := by
  have hget : ∀ c' b', (s.batches.erase c).get c' = some b' →
      c' ≠ c ∧ s.batches.get c' = some b' := by
    intro c' b' hb'
    rw [OrdMap.get_erase] at hb'
    by_cases hc : c' = c
    · rw [if_pos hc] at hb'
      cases hb'
    · rw [if_neg hc] at hb'
      exact ⟨hc, hb'⟩
  obtain ⟨t, ht, -⟩ := h.live c b hb
  refine ⟨⟨?_, ?_, ?_, ?_, h.source, h.fresh, ?_, h.pulled, h.freed⟩, ?_⟩
  · intro c' b' hb'
    exact h.live c' b' (hget c' b' hb').2
  · intro c₁ c₂ b₁ b₂ h₁ h₂ htask
    exact h.apart c₁ c₂ b₁ b₂ (hget c₁ b₁ h₁).2 (hget c₂ b₂ h₂).2 htask
  · intro id' hid' hloose
    obtain ⟨c', b', hb', htask⟩ := h.flying id' hid' nofun
    have hc : c' ≠ c := by
      intro heq
      rw [heq, hb, Option.some.injEq] at hb'
      exact hloose (by rw [hb', htask])
    exact ⟨c', b', by rw [OrdMap.get_erase, if_neg hc]; exact hb', htask⟩
  · intro id' hid'
    rw [Option.some.injEq] at hid'
    subst hid'
    refine ⟨?_, fun c' b' hb' htask => ?_⟩
    · rw [ht]
      exact nofun
    · obtain ⟨hne, hb'⟩ := hget c' b' hb'
      exact hne (h.apart c' c b' b hb' hb htask)
  · intro c' hc'
    rw [OrdMap.get_erase]
    split
    · rfl
    · exact h.unused c' hc'
  · have hlength := OrdMap.length_erase_of_some hb
    change s.dealtasks - ((s.batches.erase c).entries.length : Int) = _
    rw [Thread.debt, Thread.flights, hlength]
    push_cast
    ring

theorem Thread.get_setTask (s : Thread) (id : Nat) (t : TaskData) (id' : Nat) :
    (s.setTask id t).tasks.get id' = if id' = id then some t else s.tasks.get id' :=
  OrdMap.get_insert ..

theorem Held.setTask {loose : Option Nat} {t : TaskData} (h : Held loose s)
    (ht : s.tasks.get id = some t) (t' : TaskData) (hsrc : t'.src ≠ [])
    (hhas : ∀ c b, s.batches.get c = some b → b.task = id → ∀ i ∈ b.commands, t.Has b.stage i →
      t'.Has b.stage i) : Held loose (s.setTask id t') := by
  have hget := s.get_setTask id t'
  have hnone : ∀ id', (s.setTask id t').tasks.get id' = none ↔ s.tasks.get id' = none := by
    intro id'
    rw [hget]
    by_cases hid : id' = id
    · rw [if_pos hid, hid, ht]
      exact iff_of_false nofun nofun
    · rw [if_neg hid]
  refine ⟨?_, h.apart, ?_, ?_, ?_, ?_, h.unused, h.pulled, ?_⟩
  · intro c b hb
    obtain ⟨t₀, ht₀, hall⟩ := h.live c b hb
    rw [hget]
    by_cases hid : b.task = id
    · rw [hid, ht, Option.some.injEq] at ht₀
      rw [if_pos hid]
      exact ⟨t', rfl, fun i hi => hhas c b hb hid i hi (ht₀ ▸ hall i hi)⟩
    · rw [if_neg hid]
      exact ⟨t₀, ht₀, hall⟩
  · intro id' hid'
    exact h.flying id' fun hn => hid' ((hnone id').mpr hn)
  · intro id' hid'
    exact ⟨fun hn => (h.held id' hid').1 ((hnone id').mp hn), (h.held id' hid').2⟩
  · intro id' t₀ ht₀
    rw [hget] at ht₀
    by_cases hid : id' = id
    · rw [if_pos hid, Option.some.injEq] at ht₀
      rw [← ht₀]
      exact hsrc
    · rw [if_neg hid] at ht₀
      exact h.source id' t₀ ht₀
  · intro id' hid'
    exact ⟨(hnone id').mpr (h.fresh id' hid').1, (h.fresh id' hid').2⟩
  · intro id'
    have hcount := h.freed id'
    by_cases hn : s.tasks.get id' = none
    · rw [if_pos hn] at hcount
      rw [if_pos ((hnone id').mpr hn)]
      exact hcount
    · rw [if_neg hn] at hcount
      rw [if_neg fun hn' => hn ((hnone id').mp hn')]
      exact hcount

--
-- Starting a batch
--

/-- A start ends with a batch or a freed task, or raises an exception and leaves the task
as it is. -/
def Started (id : Nat) (s : Thread) (x : Except Fault (Thread × Raised)) : Prop :=
  ∃ s' r, x = .ok (s', r) ∧ s'.debt = s.debt ∧
    (r = .returned → Held none s') ∧ (r = .raised → Held (some id) s')

theorem Held.raise (h : Held (some id) s) : Started id s (.ok (s, .raised)) :=
  ⟨s, .raised, rfl, rfl, nofun, fun _ => h⟩

theorem Held.go {s₀ : Thread} (h : Held (some id) s) (hdebt : s.debt = s₀.debt) (stage : Stage)
    (commands : List Nat)
    (hhas : ∀ t, s.tasks.get id = some t → ∀ i ∈ commands, t.Has stage i) :
    Started id s₀ (if 0 < commands.length then .ok (s.startup id stage commands, .returned)
      else do
        let s ← s.free id
        pure (s, .returned)) := by
  split
  · obtain ⟨hheld, hsame⟩ := h.startup hhas
    exact ⟨_, .returned, rfl, hsame.trans hdebt, fun _ => hheld, nofun⟩
  · obtain ⟨s', hfree, hheld, hsame⟩ := h.free
    exact ⟨s', .returned, by rw [hfree]; rfl, hsame.trans hdebt, fun _ => hheld, nofun⟩

theorem startCalculateData_started (h : Held (some id) s) (cfg : Config) (out : Outside) :
    Started id s (startCalculateData cfg out s id) := by
  obtain ⟨t, ht⟩ := Option.ne_none_iff_exists'.mp (h.held id rfl).1
  have hsrc := h.source id t ht
  unfold startCalculateData
  rw [ht]
  dsimp only
  rw [if_neg hsrc]
  split
  · exact h.raise
  · have herr : ∀ err, Held (some id) { s with calErr := err } := fun err =>
      ⟨h.live, h.apart, h.flying, h.held, h.source, h.fresh, h.unused, h.pulled, h.freed⟩
    split
    · exact ⟨_, .raised, rfl, rfl, nofun, fun _ => herr _⟩
    · rename_i caldata hcaldata
      have hset := (herr (calculateHosts out t.src 0 cfg.calhost s.calErr).1).setTask ht
        { t with caldata := caldata, needcts := caldata.length, acounter := 0 } hsrc
        fun c b hb htask => absurd htask ((h.held id rfl).2 c b hb)
      have hgo := hset.go rfl .calculate (List.range caldata.length) fun t' ht' i hi => by
        rw [Thread.get_setTask, if_pos rfl, Option.some.injEq] at ht'
        rw [← ht']
        exact mem_range.mp hi
      rwa [length_range] at hgo

theorem routeHosts_mem (i : Nat) (rtdata : List (Option NetData)) (err : Nat → Int) :
    ∀ k ∈ (routeHosts out i rtdata err).2, i ≤ k ∧ ∃ d, rtdata[k - i]? = some (some d) := by
  induction rtdata generalizing i err with
  | nil =>
    intro k hk
    cases hk
  | cons entry rtdata ih =>
    have hrest : ∀ err, ∀ k ∈ (routeHosts out (i + 1) rtdata err).2,
        i ≤ k ∧ ∃ d, (entry :: rtdata)[k - i]? = some (some d) := by
      intro err k hk
      obtain ⟨hle, d, hd⟩ := ih (i + 1) err k hk
      have hindex : k - i = k - (i + 1) + 1 := by omega
      refine ⟨by omega, d, ?_⟩
      rw [hindex, getElem?_cons_succ]
      exact hd
    intro k hk
    rcases entry with _ | d
    · exact hrest err k hk
    · rw [routeHosts] at hk
      split at hk
      · exact hrest err k hk
      · split at hk
        · rcases mem_cons.mp hk with rfl | hk
          · exact ⟨le_rfl, d, by rw [Nat.sub_self]; rfl⟩
          · exact hrest err k hk
        · exact hrest _ k hk
        · exact hrest err k hk

theorem startRouteData_started (h : Held (some id) s) (cfg : Config) (out : Outside) :
    Started id s (startRouteData cfg out s id) := by
  obtain ⟨t, ht⟩ := Option.ne_none_iff_exists'.mp (h.held id rfl).1
  have hsrc := h.source id t ht
  unfold startRouteData
  rw [ht]
  dsimp only
  split
  · exact h.raise
  · rename_i rtdata hrtdata
    split
    · exact h.raise
    · have herr : Held (some id) { s with rtErr := (routeHosts out 0 rtdata s.rtErr).1 } :=
        ⟨h.live, h.apart, h.flying, h.held, h.source, h.fresh, h.unused, h.pulled, h.freed⟩
      have hset := herr.setTask ht
        { t with
          rtdata := rtdata
          needcts := (routeHosts out 0 rtdata s.rtErr).2.length
          acounter := 0 } hsrc
        fun c b hb htask => absurd htask ((h.held id rfl).2 c b hb)
      refine hset.go rfl .route (routeHosts out 0 rtdata s.rtErr).2 fun t' ht' i hi => ?_
      rw [Thread.get_setTask, if_pos rfl, Option.some.injEq] at ht'
      rw [← ht']
      exact (routeHosts_mem 0 rtdata s.rtErr i hi).2

theorem Started.caught {x : Except Fault (Thread × Raised)} (h : Started id s x) :
    ∃ s', (x >>= caught id) = .ok s' ∧ Held none s' ∧ s'.debt = s.debt := by
  obtain ⟨s', r, rfl, hdebt, hreturned, hraised⟩ := h
  rcases r with _ | _
  · exact ⟨s', rfl, hreturned rfl, hdebt⟩
  · obtain ⟨s'', hfree, hheld, hsame⟩ := (hraised rfl).free
    exact ⟨s'', hfree, hheld, hsame.trans hdebt⟩

--
-- Callbacks
--

theorem Held.pull (h : Held none s) (source : Source) :
    Held (some s.nextTask) { s with
      tasks := s.tasks.insert s.nextTask ⟨source.src, source.rthost, [], [], 0, 0⟩
      nextTask := s.nextTask + 1
      pulled := s.pulled ++ [s.nextTask] } := by
  obtain ⟨hnone, hpulled, hfreed⟩ := h.fresh s.nextTask le_rfl
  have hget : ∀ id, (s.tasks.insert s.nextTask ⟨source.src, source.rthost, [], [], 0, 0⟩).get id =
      if id = s.nextTask then some ⟨source.src, source.rthost, [], [], 0, 0⟩ else s.tasks.get id :=
    fun id => OrdMap.get_insert ..
  have hbatch : ∀ c b, s.batches.get c = some b → b.task ≠ s.nextTask := by
    intro c b hb heq
    obtain ⟨t, ht, -⟩ := h.live c b hb
    rw [heq, hnone] at ht
    cases ht
  refine ⟨?_, h.apart, ?_, ?_, ?_, ?_, h.unused, ?_, ?_⟩
  · intro c b hb
    rw [hget, if_neg (hbatch c b hb)]
    exact h.live c b hb
  · intro id hid hloose
    rw [hget, if_neg fun heq => hloose (congrArg some heq.symm)] at hid
    exact h.flying id hid nofun
  · intro id hid
    rw [Option.some.injEq] at hid
    subst hid
    rw [hget, if_pos rfl]
    exact ⟨nofun, hbatch⟩
  · intro id t ht
    rw [hget] at ht
    by_cases hid : id = s.nextTask
    · rw [if_pos hid, Option.some.injEq] at ht
      rw [← ht]
      exact source.src_ne_nil
    · rw [if_neg hid] at ht
      exact h.source id t ht
  · intro id hid
    change s.nextTask + 1 ≤ id at hid
    obtain ⟨hnone', hpulled', hfreed'⟩ := h.fresh id (by omega)
    have hne : id ≠ s.nextTask := by omega
    rw [hget, if_neg hne]
    refine ⟨hnone', fun hmem => ?_, hfreed'⟩
    rcases mem_append.mp hmem with hmem | hmem
    · exact hpulled' hmem
    · exact hne (mem_singleton.mp hmem)
  · exact nodup_append.mpr ⟨h.pulled, nodup_singleton _, fun a ha b hb heq =>
      hpulled (by rw [← mem_singleton.mp hb, ← heq]; exact ha)⟩
  · intro id
    have hcount := h.freed id
    change s.freed.count id + _ = (s.pulled ++ [s.nextTask]).count id
    rw [count_append, hget]
    by_cases hid : id = s.nextTask
    · rw [hid, hnone, if_pos rfl] at hcount
      rw [hid, if_pos rfl, if_neg nofun, count_singleton_self]
      omega
    · have hother : [s.nextTask].count id = 0 :=
        count_eq_zero_of_not_mem fun hmem => hid (mem_singleton.mp hmem)
      rw [if_neg hid, hother, add_zero]
      exact hcount

theorem routeIdle_spec (h : Held none s) (cfg : Config) (run : Bool) (source : Option Source)
    (out : Outside) :
    ∃ s', routeIdle cfg s run source out = .ok s' ∧ Held none s' ∧ s'.debt = s.debt := by
  unfold routeIdle
  split
  · exact ⟨s, rfl, h, rfl⟩
  · rcases source with _ | source
    · exact ⟨s, rfl, h, rfl⟩
    · have hpull := h.pull source
      dsimp only
      split
      · exact (startCalculateData_started hpull cfg out).caught
      · exact (startRouteData_started hpull cfg out).caught

theorem Held.answer {c : Nat} {b : Batch} (h : Held none s) (hb : s.batches.get c = some b)
    (i : Nat) :
    Held none { s with batches := s.batches.insert c { b with commands := b.commands.erase i } } ∧
      ({ s with batches := s.batches.insert c { b with commands := b.commands.erase i } } :
        Thread).debt = s.debt := by
  have hcases : ∀ c' b', (s.batches.insert c { b with commands := b.commands.erase i }).get c' =
      some b' → ∃ b₀, s.batches.get c' = some b₀ ∧ b'.task = b₀.task ∧ b'.stage = b₀.stage ∧
        ∀ j ∈ b'.commands, j ∈ b₀.commands := by
    intro c' b' hb'
    rw [OrdMap.get_insert] at hb'
    by_cases hc : c' = c
    · rw [if_pos hc, Option.some.injEq] at hb'
      rw [hc]
      subst hb'
      exact ⟨b, hb, rfl, rfl, fun j hj => mem_of_mem_erase hj⟩
    · rw [if_neg hc] at hb'
      exact ⟨b', hb', rfl, rfl, fun j hj => hj⟩
  refine ⟨⟨?_, ?_, ?_, nofun, h.source, h.fresh, ?_, h.pulled, h.freed⟩, ?_⟩
  · intro c' b' hb'
    obtain ⟨b₀, hb₀, htask, hstage, hmem⟩ := hcases c' b' hb'
    obtain ⟨t, ht, hall⟩ := h.live c' b₀ hb₀
    rw [htask, hstage]
    exact ⟨t, ht, fun j hj => hall j (hmem j hj)⟩
  · intro c₁ c₂ b₁ b₂ h₁ h₂ htask
    obtain ⟨b₁', hb₁', htask₁, -⟩ := hcases c₁ b₁ h₁
    obtain ⟨b₂', hb₂', htask₂, -⟩ := hcases c₂ b₂ h₂
    exact h.apart c₁ c₂ b₁' b₂' hb₁' hb₂' (by rw [← htask₁, ← htask₂, htask])
  · intro id hid _
    obtain ⟨c', b', hb', htask⟩ := h.flying id hid nofun
    by_cases hc : c' = c
    · refine ⟨c, { b with commands := b.commands.erase i }, by rw [OrdMap.get_insert, if_pos rfl],
        ?_⟩
      rw [hc, hb, Option.some.injEq] at hb'
      rw [hb', htask]
    · exact ⟨c', b', by rw [OrdMap.get_insert, if_neg hc]; exact hb', htask⟩
  · intro c' hc'
    have hnone := h.unused c' hc'
    have hne : c' ≠ c := by
      intro heq
      rw [heq, hb] at hnone
      cases hnone
    rw [OrdMap.get_insert, if_neg hne]
    exact hnone
  · change s.dealtasks - ((s.batches.insert c _).entries.length : Int) = _
    rw [OrdMap.length_insert_of_some hb]
    rfl

theorem TaskData.has_count (t : TaskData) (counts : Bool) (stage : Stage) (i : Nat) :
    (t.count counts).Has stage i ↔ t.Has stage i := by
  unfold TaskData.count
  split <;> rfl

theorem TaskData.src_count (t : TaskData) (counts : Bool) : (t.count counts).src = t.src := by
  unfold TaskData.count
  split <;> rfl

theorem oneFinish_spec {b : Batch} {i : Nat} {t : TaskData} (h : Held none s)
    (ht : s.tasks.get b.task = some t) (hhas : t.Has b.stage i) (reply : Option Response) :
    ∃ s', oneFinish s b i reply = .ok s' ∧ Held none s' ∧ s'.debt = s.debt := by
  have hsrc := h.source b.task t ht
  obtain ⟨task, stage, commands⟩ := b
  unfold oneFinish
  rw [ht]
  rcases stage with _ | _
  · obtain ⟨d, hd⟩ : ∃ d, t.caldata[i]? = some d := ⟨_, getElem?_eq_getElem hhas⟩
    dsimp only
    rw [hd]
    refine ⟨_, rfl, h.setTask ht _ (by rw [TaskData.src_count]; exact hsrc) ?_, rfl⟩
    intro c' b' _ _ j _ hj
    rw [TaskData.has_count]
    unfold TaskData.Has at hj ⊢
    rwa [length_set]
  · obtain ⟨d, hd⟩ := hhas
    dsimp only
    rw [hd]
    refine ⟨_, rfl, h.setTask ht _ (by rw [TaskData.src_count]; exact hsrc) ?_, rfl⟩
    intro c' b' _ _ j _ hj
    exact (t.has_count _ _ _).mpr hj

theorem Held.uncounted {loose : Option Nat} (h : Held loose s) :
    Held loose { s with dealtasks := s.dealtasks - 1 } :=
  ⟨h.live, h.apart, h.flying, h.held, h.source, h.fresh, h.unused, h.pulled, h.freed⟩

theorem debt_uncounted (s : Thread) :
    ({ s with dealtasks := s.dealtasks - 1 } : Thread).debt = s.debt - 1 := by
  change s.dealtasks - 1 - s.flights = s.dealtasks - s.flights - 1
  ring

theorem Held.drop (h : Held (some id) s) :
    ∃ s', { s with dealtasks := s.dealtasks - 1 }.free id = .ok s' ∧ Held none s' ∧
      s'.debt = s.debt - 1 := by
  obtain ⟨s', hfree, hheld, hdebt⟩ := h.uncounted.free
  exact ⟨s', hfree, hheld, hdebt.trans (debt_uncounted s)⟩

theorem calculateAllFinish_spec {t : TaskData} (h : Held (some id) s)
    (ht : s.tasks.get id = some t) (cfg : Config) (out : Outside) :
    ∃ s', calculateAllFinish cfg out s id = .ok s' ∧ Held none s' ∧
      s'.debt = if t.acounter = t.needcts then s.debt - 1 else s.debt := by
  unfold calculateAllFinish
  rw [ht]
  dsimp only
  by_cases hall : t.acounter = t.needcts
  · rw [if_pos hall, if_pos hall]
    obtain ⟨s', hrun, hheld, hdebt⟩ := (startRouteData_started h.uncounted cfg out).caught
    exact ⟨s', hrun, hheld, hdebt.trans (debt_uncounted s)⟩
  · rw [if_neg hall, if_neg hall]
    exact h.free

/-- **One callback** succeeds; only a batch to the calculation hosts that finishes without
all its answers leaves a debt. -/
theorem step_spec (h : Held none s) (cfg : Config) (a : BrmAct) :
    ∃ s', s.step cfg a = .ok s' ∧ Held none s' ∧ (Complete s a → s'.debt = s.debt) ∧
      (¬ Complete s a → s'.debt = s.debt + 1) := by
  rcases a with ⟨run, source, out⟩ | ⟨c, i, reply⟩ | c | ⟨c, out⟩ | ⟨_ | _, host⟩
  · obtain ⟨s', hs', hheld, hdebt⟩ := routeIdle_spec h cfg run source out
    exact ⟨s', hs', hheld, fun _ => hdebt, fun hn => absurd trivial hn⟩
  · unfold Thread.step
    dsimp only
    rcases hb : s.batches.get c with _ | b
    · exact ⟨s, rfl, h, fun _ => rfl, fun hn => absurd trivial hn⟩
    · dsimp only
      split
      · rename_i hi
        obtain ⟨t, ht, hall⟩ := h.live c b hb
        obtain ⟨hanswer, hsame⟩ := h.answer hb i
        obtain ⟨s', hs', hheld, hdebt⟩ := oneFinish_spec hanswer ht (hall i hi) reply
        exact ⟨s', hs', hheld, fun _ => hdebt.trans hsame, fun hn => absurd trivial hn⟩
      · exact ⟨s, rfl, h, fun _ => rfl, fun hn => absurd trivial hn⟩
  · unfold Thread.step
    dsimp only
    rcases hb : s.batches.get c with _ | b
    · exact ⟨s, rfl, h, fun _ => rfl, fun hn => absurd trivial hn⟩
    · obtain ⟨hland, hlanded⟩ := h.land hb
      obtain ⟨s', hs', hheld, hdebt⟩ := hland.drop
      exact ⟨s', hs', hheld, fun _ => by rw [hdebt, hlanded, add_sub_cancel_right],
        fun hn => absurd trivial hn⟩
  · unfold Thread.step
    dsimp only
    rcases hb : s.batches.get c with _ | b
    · exact ⟨s, rfl, h, fun _ => rfl, fun hn => absurd (fun b' hb' => by rw [hb] at hb'; cases hb')
        hn⟩
    · obtain ⟨hland, hlanded⟩ := h.land hb
      obtain ⟨t, ht, -⟩ := h.live c b hb
      have hcomplete : Complete s (.finish c out) ↔
          (b.stage = .calculate → t.acounter = t.needcts) := by
        constructor
        · intro hc hstage
          exact hc b hb hstage t ht
        · intro hc b' hb' hstage t' ht'
          rw [hb, Option.some.injEq] at hb'
          subst hb'
          rw [ht, Option.some.injEq] at ht'
          exact ht' ▸ hc hstage
      rw [hcomplete]
      dsimp only
      rcases hstage : b.stage with _ | _
      · obtain ⟨s', hs', hheld, hdebt⟩ := calculateAllFinish_spec hland ht cfg out
        refine ⟨s', hs', hheld, fun hall => ?_, fun hn => ?_⟩
        · rw [hdebt, if_pos (hall rfl), hlanded, add_sub_cancel_right]
        · rw [hdebt, if_neg fun hall => hn fun _ => hall, hlanded]
      · obtain ⟨s', hs', hheld, hdebt⟩ := hland.drop
        exact ⟨s', hs', hheld, fun _ => by rw [hdebt, hlanded, add_sub_cancel_right],
          fun hn => absurd nofun hn⟩
  · exact ⟨_, rfl, ⟨h.live, h.apart, h.flying, h.held, h.source, h.fresh, h.unused, h.pulled,
      h.freed⟩,
      fun _ => rfl, fun hn => absurd trivial hn⟩
  · exact ⟨_, rfl, ⟨h.live, h.apart, h.flying, h.held, h.source, h.fresh, h.unused, h.pulled,
      h.freed⟩,
      fun _ => rfl, fun hn => absurd trivial hn⟩

--
-- Runs
--

/-- **Tasks in flight.** No run meets a task that is freed; the tasks are accounted for
throughout it if and only if every batch to the calculation hosts that finishes does so
with all its answers. -/
theorem brm_accounted (cfg : Config) (acts : List BrmAct) :
    ∃ s', run (Thread.step cfg) .init acts = .ok s' ∧
      (Throughout (Thread.step cfg) (Accounted cfg) .init acts ↔
        Along (Thread.step cfg) Complete .init acts) := by
  have hnone : Along (Thread.step cfg) (fun _ _ => True) .init acts :=
    Along.of_forall fun _ _ _ => trivial
  have hstep : ∀ s a, Held none s → True → ∃ s', s.step cfg a = .ok s' ∧ Held none s' := by
    intro s a hs _
    obtain ⟨s', hs', hheld, -⟩ := step_spec hs cfg a
    exact ⟨s', hs', hheld⟩
  have hnext : ∀ s a s', Held none s → s.step cfg a = .ok s' →
      Held none s' ∧ (Complete s a → s'.debt = s.debt) ∧
        (¬ Complete s a → s'.debt = s.debt + 1) := by
    intro s a s' hs hs'
    obtain ⟨s'', hs'', hspec⟩ := step_spec hs cfg a
    rw [hs'', Except.ok.injEq] at hs'
    exact hs' ▸ hspec
  obtain ⟨s', hrun, -⟩ := run_of_along hstep Held.init hnone
  refine ⟨s', hrun, throughout_iff_along (I := Held none) ?_ ?_ Held.init ?_ hnone hrun⟩
  · intro s a s₁ hs _ hs₁
    exact (hnext s a s₁ hs hs₁).1
  · intro s a s₁ hs hacc _ hs₁
    obtain ⟨hheld, hcomplete, hmissing⟩ := hnext s a s₁ hs hs₁
    have hdebt := (hs.accounted_iff cfg).mp hacc
    rw [hheld.accounted_iff]
    by_cases hc : Complete s a
    · exact iff_of_true ((hcomplete hc).trans hdebt) hc
    · refine iff_of_false ?_ hc
      rw [hmissing hc, hdebt]
      decide
  · exact (Held.init.accounted_iff cfg).mpr rfl

/-- A calculation host answers with an error: the task is freed and stays counted. -/
theorem not_accounted_errorReply :
    ¬ ∀ (cfg : Config) (acts : List BrmAct),
      Throughout (Thread.step cfg) (Accounted cfg) .init acts := by
  intro h
  have hlast := (h ⟨1, true, [⟨none, ascii "10.0.0.1", 8080, .http⟩],
      fun _ => ⟨none, ascii "10.0.0.2", 8080, .http⟩⟩
    [.idle true (some ⟨[123, 49, 125], by decide, [some 0]⟩)
        ⟨true, true, fun _ => true, fun _ => .ok⟩,
      .one 0 0 (some ⟨30, 500, [], true⟩),
      .finish 0 ⟨true, true, fun _ => true, fun _ => .ok⟩]).last rfl
  exact absurd hlast.counted (by decide)

end Supex.Brm
