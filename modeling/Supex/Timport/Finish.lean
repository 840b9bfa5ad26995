import Supex.Timport.Rounds

/-!
# timport — a task finishes

`task_finish` reports to the parent, and when that was the last report the parent
finishes too. When the last task of a server reports for a key whose sets are
merged, the tasks of all servers are freed while they are on the way to be freed:
`endsWhole`.

Main result: `taskFinish_spec`.
-/

namespace Supex.Timport

open Option

open Lib (ok_bind)

variable {cfg : Config} {st st' : Sys} {Z : List Nat} {o m t p t0 : Nat} {x y : Task}

--
-- The way up
--

/-- A task that has reported to nobody yet, and its parent. -/
structure Leaving (st : Sys) (Z : List Nat) (t p : Nat) (x y : Task) : Prop where
  core : Core st (t :: Z) p 1
  task : st.task t = some x
  parent : x.parent = some p
  notMem : p ∉ t :: Z
  above : st.task p = some y

/-- The report of a task makes `task_finish` merge the sets of a key. -/
def endsWhole (st : Sys) : Nat → Nat → Bool
  | 0, _ => false
  | fuel + 1, t =>
    match (st.task t).bind Task.parent with
    | none => false
    | some p =>
      match st.task p with
      | none => false
      | some y =>
        decide (y.finishTaskCount + 1 = y.totalTaskCount) &&
          match y.rdsLink, y.parent with
          | some _, _ =>
            decide (y.tkey.map TKey.type ≠ some .aloneIndex) && endsWhole st fuel p
          | none, some _ =>
            decide (y.tkey.map TKey.type ≠ some .keysIndex) || endsWhole st fuel p
          | none, none => false

theorem Core.parent_lt (h : Core st Z o m) (hx : st.task t = some x) (hp : x.parent = some p) :
    p < t := by
  have h0 : t ≠ 0 := by
    rintro rfl
    obtain ⟨r, hr, hparent, -⟩ := h.root
    rw [hx, Option.some.injEq] at hr
    rw [hr, hparent] at hp
    cases hp
  obtain ⟨q, k, hplaced⟩ := h.placed t x hx h0
  have heq := hp.symm.trans hplaced.parent
  rw [Option.some.inj heq]
  exact hplaced.lt

variable {fuel : Nat}

theorem endsWhole_congr (hcore : Core st' Z o m) (hbelow : ∀ q < t, st'.task q = st.task q)
    (hself : (st'.task t).bind Task.parent = (st.task t).bind Task.parent) :
    endsWhole st' fuel t = endsWhole st fuel t := by
  induction fuel generalizing t with
  | zero => rfl
  | succ fuel ih =>
    rw [endsWhole, endsWhole, hself]
    cases hp : (st.task t).bind Task.parent with
    | none => rfl
    | some p =>
      have hlt : p < t := by
        obtain ⟨x, hx, hparent⟩ := bind_eq_some_iff.mp (hself.trans hp)
        exact hcore.parent_lt hx hparent
      dsimp only
      rw [hbelow p hlt, ih (fun q hq => hbelow q (hq.trans hlt)) (by rw [hbelow p hlt])]

theorem endsWhole_of_task (h : st'.task = st.task) :
    endsWhole st' fuel t = endsWhole st fuel t := by
  induction fuel generalizing t with
  | zero => rfl
  | succ fuel ih =>
    rw [endsWhole, endsWhole, h]
    simp only [ih]

theorem Leaving.endsWhole_linked {idx : Nat} (h : Leaving st Z t p x y)
    (hlast : y.finishTaskCount + 1 = y.totalTaskCount) (hlink : y.rdsLink = some idx) :
    endsWhole st (fuel + 1) t =
      (decide (y.tkey.map TKey.type ≠ some .aloneIndex) && endsWhole st fuel p) := by
  rw [endsWhole, h.task, bind_some, h.parent]
  dsimp only
  rw [h.above]
  dsimp only
  rw [decide_eq_true hlast, Bool.true_and, hlink]

theorem Leaving.endsWhole_key {q : Nat} (h : Leaving st Z t p x y)
    (hlast : y.finishTaskCount + 1 = y.totalTaskCount) (hlink : y.rdsLink = none)
    (hq : y.parent = some q) :
    endsWhole st (fuel + 1) t =
      (decide (y.tkey.map TKey.type ≠ some .keysIndex) || endsWhole st fuel p) := by
  rw [endsWhole, h.task, bind_some, h.parent]
  dsimp only
  rw [h.above]
  dsimp only
  rw [decide_eq_true hlast, Bool.true_and, hlink, hq]

theorem Leaving.next (h : Leaving st Z t p x y) {y' : Task}
    (hr : Reported cfg st st' (t :: Z) p y y') {q : Nat} (hq : y.parent = some q)
    (hcore : Core st' (p :: t :: Z) q 1) : ∃ z, Leaving st' (t :: Z) p q y' z := by
  obtain ⟨hqZ, z, hz⟩ := h.core.held p y q h.above h.notMem hq
  have hlt := h.core.parent_lt h.above hq
  refine ⟨z, hcore, hr.task, hr.place.1.trans hq, ?_, ?_⟩
  · rw [List.mem_cons, not_or]
    exact ⟨hlt.ne, hqZ⟩
  · rw [hr.others q (h.core.fresh q z hz) hlt.ne]
    exact hz

theorem Leaving.endsWhole_next (h : Leaving st Z t p x y) {y' : Task}
    (hr : Reported cfg st st' (t :: Z) p y y') {q : Nat} (hcore : Core st' (p :: t :: Z) q 1) :
    endsWhole st' fuel p = endsWhole st fuel p := by
  refine endsWhole_congr hcore (fun q hq => ?_) ?_
  · exact hr.others q (hq.trans (h.core.fresh p y h.above)) hq.ne
  · rw [hr.task, h.above, bind_some, bind_some, hr.place.1]

--
-- Freeing
--

/-- What holds between callbacks, and of their parts. -/
structure Inv (cfg : Config) (t0 : Nat) (st : Sys) (Z : List Nat) : Prop where
  core : Core st Z 0 0
  rounds : Rounds cfg t0 st
  phase : Phase cfg st

theorem Inv.live (h : Inv cfg t0 st Z) (ht : t ∈ Z) : ∃ x, st.task t = some x := by
  obtain ⟨-, -, x, hx, -⟩ := h.core.gone t ht
  exact ⟨x, hx⟩

theorem Smooth.free (h : Smooth cfg st) :
    Smooth cfg { st with task := Function.update st.task t none } := by
  refine ⟨h.quit, h.dropped, fun t' x k es ht => ?_⟩
  exact h.converts t' x k es (live_freed rfl ht).2

theorem Inv.free (h : Inv cfg t0 st (t :: Z)) (htZ : t ∉ Z) :
    ∃ st', st.free t = .ok st' ∧ Inv cfg t0 st' Z ∧ (Smooth cfg st → Smooth cfg st') := by
  obtain ⟨h0, -, x, hx, -⟩ := h.core.gone t (.head _)
  have hfree : st.free t = .ok { st with task := Function.update st.task t none } := by
    unfold Sys.free
    rw [hx]
  have hwithin : Within cfg st { st with task := Function.update st.task t none } :=
    ⟨rfl, rfl, rfl, rfl, Function.update_of_ne h0.symm .., Iff.rfl, id⟩
  refine ⟨_, hfree, ⟨?_, h.rounds.within hwithin, h.phase.within hwithin⟩, Smooth.free⟩
  refine h.core.free htZ rfl rfl rfl rfl [] (List.append_nil _).symm (fun q => ?_) nofun
  rw [ite_self]
  rfl

--
-- The root
--

/-- A task with one more report. -/
def Task.counted (y : Task) : Task := { y with finishTaskCount := y.finishTaskCount + 1 }

theorem Sys.put_self (st : Sys) (t : Nat) (x : Task) : (st.put t x).task t = some x :=
  Function.update_self ..

theorem Sys.put_eq_self (h : st.task t = some x) : st.put t x = st := by
  unfold Sys.put
  rw [← h, Function.update_eq_self]

theorem report_root (h : Leaving st Z t 0 x y) :
    report st 0 = .ok (st.put 0 y.counted) ∧
      Core (st.put 0 y.counted) (t :: Z) 0 0 ∧
      y.rdsLink = none ∧ y.parent = none ∧ y.finishTaskCount + 1 ≤ y.totalTaskCount := by
  obtain ⟨r, hr, hparent, hlink, hnext⟩ := h.core.root
  rw [h.above, Option.some.injEq] at hr
  subst hr
  have hcreated : y.created = y.totalTaskCount := if_pos hlink
  have hcount := h.core.count 0 y h.above h.notMem
  rw [if_pos rfl] at hcount
  refine ⟨?_, ?_, hlink, hparent, by omega⟩
  · unfold report
    rw [Sys.get_eq h.above, ok_bind]
    dsimp only
    rw [if_neg (by omega)]
    rfl
  · refine h.core.put h.above h.notMem ⟨rfl, rfl, rfl⟩ (fun _ => hnext) (fun hne => absurd rfl hne)
      (fun r hr ht => ?_) ?_
    · exact absurd rfl (h.core.asks r hr 0 ht).1
    · have hcreated' : y.counted.created = y.totalTaskCount := if_pos hlink
      rw [hcreated', hcreated]
      rfl

theorem Leaving.working (h : Leaving st Z t 0 x y) (hphase : Phase cfg st) :
    st.working = true ∧ .statistics ∉ st.pending := by
  obtain ⟨-, -, -, -, hlt⟩ := report_root h
  constructor
  · by_contra hnot
    have heq := (hphase.idle (Bool.eq_false_of_not_eq_true hnot)).1 y h.above
    omega
  · intro hmem
    have heq := (hphase.stats hmem).2 y h.above
    omega

theorem Leaving.total (hl : Leaving st Z t 0 x y) (hphase : Phase cfg st)
    (hquit : st.quit = false) :
    y.totalTaskCount = (imported cfg st.startTmstamp).length :=
  (hphase.busy (hl.working hphase).1 hquit y hl.above).1

theorem Phase.put_root (h : Phase cfg st) (hl : Leaving st Z t 0 x y)
    (hne : y.finishTaskCount + 1 ≠ y.totalTaskCount) :
    Phase cfg (st.put 0 y.counted) := by
  obtain ⟨hworking, hstats⟩ := hl.working h
  obtain ⟨-, -, -, -, hle⟩ := report_root hl
  refine ⟨fun hnot => ?_, fun hmem => absurd hmem hstats, fun _ hquit r hr => ?_⟩
  · have heq : st.working = false := hnot
    rw [hworking] at heq
    cases heq
  · rw [Sys.put_self, Option.some.injEq] at hr
    subst hr
    refine ⟨hl.total h hquit, .inr (.inl ?_)⟩
    show y.finishTaskCount + 1 < y.totalTaskCount
    omega

theorem Smooth.put_root (h : Smooth cfg st) (hl : Leaving st Z t 0 x y) :
    Smooth cfg (st.put 0 y.counted) :=
  h.put fun k es htkey htype hreply => h.converts 0 y k es hl.above htkey htype hreply

theorem taskFinish_root (now fuel : Nat) (h : Leaving st Z t 0 x y) (hrounds : Rounds cfg t0 st)
    (hphase : Phase cfg st) :
    ∃ st', taskFinish cfg now (fuel + 1) st t = .ok st' ∧ Inv cfg t0 st' (t :: Z) ∧
      (cfg.Timed → Smooth cfg st → Smooth cfg st') := by
  obtain ⟨hreport, hcore, hlink, hparent, -⟩ := report_root h
  obtain ⟨hworking, hstats⟩ := h.working hphase
  have htask : (st.put 0 y.counted).task t = some x := by
    refine (Function.update_of_ne ?_ ..).trans h.task
    exact fun heq => h.notMem (heq ▸ .head _)
  have hrounds₁ : Rounds cfg t0 (st.put 0 y.counted) :=
    ⟨hrounds.time, hrounds.started, hrounds.ended⟩
  rw [taskFinish, Sys.get_eq h.task, ok_bind, h.parent]
  dsimp only
  rw [hreport, ok_bind, Sys.get_eq htask, ok_bind, Sys.get_eq (st.put_self ..), ok_bind]
  by_cases hlast : y.counted.finishTaskCount = y.counted.totalTaskCount
  swap
  · rw [if_pos hlast]
    exact ⟨_, rfl, ⟨hcore, hrounds₁, hphase.put_root h hlast⟩, fun _ hs => hs.put_root h⟩
  rw [if_neg (not_not.mpr hlast)]
  have hdone : ∀ r, (st.put 0 y.counted).task 0 = some r →
    r.finishTaskCount = r.totalTaskCount := by
    intro r hr
    rw [Sys.put_self, Option.some.injEq] at hr
    exact hr ▸ hlast
  have hlink₁ : y.counted.rdsLink = none := hlink
  have hparent₁ : y.counted.parent = none := hparent
  rw [hlink₁, hparent₁]
  dsimp only
  split
  · obtain ⟨hcore', hrounds', hphase', hsmooth⟩ :=
      finishRound_spec now hcore hrounds₁ hworking hstats hdone
    exact ⟨_, rfl, ⟨hcore', hrounds', hphase'⟩, fun ht hs => hsmooth ht (hs.put_root h)⟩
  · have htotal : (st.put 0 y.counted).quit = false → ∀ r, (st.put 0 y.counted).task 0 = some r →
        r.totalTaskCount = (imported cfg st.startTmstamp).length := by
      intro hquit r hr
      rw [Sys.put_self, Option.some.injEq] at hr
      exact hr ▸ h.total hphase hquit
    obtain ⟨hcore', hrounds', hphase', hsmooth⟩ :=
      handleStatistics_spec now hcore hrounds₁ hworking hstats hdone htotal
    exact ⟨_, rfl, ⟨hcore', hrounds', hphase'⟩, fun ht hs => hsmooth ht (hs.put_root h)⟩

--
-- Other tasks
--

theorem TKey.Loaded.isIndex {k : TKey} (h : k.Loaded) (hchild : k.child ≠ []) :
    k.type.isIndex = true := by
  cases h with
  | index htype _ _ _ => exact htype
  | value _ => exact absurd rfl hchild

theorem Leaving.index (h : Leaving st Z t p x y) (hp0 : p ≠ 0) (hlink : y.rdsLink ≠ none) :
    ∃ k es, y.tkey = some k ∧ y.reply = some (.array es) ∧ k.type.isIndex = true := by
  obtain ⟨-, hlow, hle⟩ := h.core.not_asked h.above h.notMem hp0
  obtain ⟨-, idx, k, es, hi⟩ :=
    (h.core.sound p y h.above h.notMem hp0).waits hlink (by omega)
  obtain ⟨q, k', hplaced⟩ := h.core.placed p y h.above hp0
  have heq := hi.tkey.symm.trans hplaced.tkey
  rw [Option.some.injEq] at heq
  exact ⟨k, es, hi.tkey, hi.reply, (heq ▸ hplaced.loaded).isIndex hi.child⟩

theorem finish_free {now : Nat} {st₁ : Sys}
    (h : ∃ st', taskFinish cfg now fuel st₁ p = .ok st' ∧ Inv cfg t0 st' (p :: Z) ∧
      (cfg.Timed → Smooth cfg st₁ → Smooth cfg st')) (hpZ : p ∉ Z) :
    (∃ st', (do let st ← taskFinish cfg now fuel st₁ p; st.free p) = .ok st' ∧
      Inv cfg t0 st' Z ∧ (cfg.Timed → Smooth cfg st₁ → Smooth cfg st')) ∧
    ∃ st', (do
      let st ← taskFinish cfg now fuel st₁ p
      let _ ← st.get p
      st.free p) = .ok st' ∧
      Inv cfg t0 st' Z ∧ (cfg.Timed → Smooth cfg st₁ → Smooth cfg st') := by
  obtain ⟨st', hok, hinv, hsmooth⟩ := h
  obtain ⟨st'', hfree, hinv', hsmooth'⟩ := hinv.free hpZ
  obtain ⟨y, hy⟩ := hinv.live (.head _)
  rw [hok]
  refine ⟨⟨st'', hfree, hinv', fun ht hs => hsmooth' (hsmooth ht hs)⟩, st'', ?_, hinv',
    fun ht hs => hsmooth' (hsmooth ht hs)⟩
  rw [ok_bind, Sys.get_eq hy]
  exact hfree

/-- **A task finishes.** The induction is on the number of tasks above. -/
theorem taskFinish_spec (now : Nat) (hfuel : t < fuel) (h : Leaving st Z t p x y)
    (hrounds : Rounds cfg t0 st) (hphase : Phase cfg st) (hends : endsWhole st fuel t = false) :
    ∃ st', taskFinish cfg now fuel st t = .ok st' ∧ Inv cfg t0 st' (t :: Z) ∧
      (cfg.Timed → Smooth cfg st → Smooth cfg st') := by
  induction fuel generalizing st Z t p x y with
  | zero => exact absurd hfuel (Nat.not_lt_zero t)
  | succ fuel ih =>
    by_cases hp0 : p = 0
    · subst hp0
      exact taskFinish_root now fuel h hrounds hphase
    obtain ⟨st₁, y₁, hreport, hr⟩ := report_spec cfg h.core h.above h.notMem hp0
    have hlive : ∃ x₁, st₁.task t = some x₁ := by
      refine ⟨x, (hr.others t (h.core.fresh t x h.task) ?_).trans h.task⟩
      exact fun heq => h.notMem (heq ▸ .head _)
    obtain ⟨x₁, hx₁⟩ := hlive
    have hrounds₁ := hrounds.within hr.within
    have hphase₁ := hphase.within hr.within
    rw [taskFinish, Sys.get_eq h.task, ok_bind, h.parent]
    dsimp only
    rw [hreport, ok_bind, Sys.get_eq hx₁, ok_bind, Sys.get_eq hr.task, ok_bind]
    rcases hr.counted with ⟨hmore, -, hcore⟩ | ⟨hlast, hlast', q, hq, hcore⟩
    · -- the parent waits for others
      rw [if_pos hmore]
      exact ⟨st₁, rfl, ⟨hcore.paid 0, hrounds₁, hphase₁⟩, fun _ => hr.smooth⟩
    rw [if_neg (not_not.mpr hlast)]
    obtain ⟨z, hnext⟩ := h.next hr hq hcore
    have hparent : y₁.parent = some q := hnext.parent
    have hplt : p < fuel := by
      have := h.core.parent_lt h.task h.parent
      omega
    -- the parent finishes too
    have hup : endsWhole st fuel p = false → ∃ st', taskFinish cfg now fuel st₁ p = .ok st' ∧
        Inv cfg t0 st' (p :: t :: Z) ∧ (cfg.Timed → Smooth cfg st₁ → Smooth cfg st') :=
      fun hnot => ih hplt hnext hrounds₁ hphase₁ ((h.endsWhole_next hr hcore).trans hnot)
    have hfree := fun hnot => finish_free (hup hnot) h.notMem
    have hsmooth₁ : ∀ {st₂}, (cfg.Timed → Smooth cfg st₁ → Smooth cfg st₂) →
        cfg.Timed → Smooth cfg st → Smooth cfg st₂ := fun hs ht h => hs ht (hr.smooth h)
    cases hlink : y₁.rdsLink with
    | some idx =>
      have hlink₀ : y.rdsLink ≠ none := by
        rw [← hr.place.2.1, hlink]
        exact nofun
      obtain ⟨k, es, htkey, hreply, hindex⟩ := h.index hp0 hlink₀
      have htkey₁ : y₁.tkey = some k := hr.place.2.2.trans htkey
      rw [h.endsWhole_linked hlast' (hr.place.2.1.symm.trans hlink), htkey,
        map_some] at hends
      have hends₁ : k.type ≠ .aloneIndex → endsWhole st fuel p = false := by
        intro htype
        have hne : some k.type ≠ some .aloneIndex := fun heq => htype (Option.some.inj heq)
        rw [decide_eq_true hne, Bool.true_and] at hends
        exact hends
      rw [htkey₁, map_some]
      cases htype : k.type with
      | aloneIndex =>
        -- its set is a value too
        have hreply₁ := hr.reply.trans hreply
        obtain ⟨-, -, y₂, hy₂, hdone⟩ := hcore.gone p (.head _)
        rw [hr.task, Option.some.injEq] at hy₂
        subst hy₂
        obtain ⟨st₂, hok, hcore₂, hwithin, hsmooth⟩ := handleSet_spec hcore hr.task h.notMem
          hparent hnext.notMem ⟨z, hnext.above⟩ (by rw [hlink]; exact nofun) cfg ⟨rfl, rfl, rfl⟩
          hdone
        rw [Sys.put_eq_self hr.task] at hok
        rw [hreply₁]
        refine ⟨st₂, hok, ⟨hcore₂.paid 0, hrounds₁.within hwithin, hphase₁.within hwithin⟩, ?_⟩
        refine fun _ hs => hsmooth (hr.smooth hs) ⟨k, es, htkey₁, hreply₁, ?_⟩
        exact hs.converts p y k es h.above htkey htype hreply
      | wholeIndex =>
        obtain ⟨⟨st₂, hok, hinv, hsmooth⟩, -⟩ := hfree (hends₁ (by rw [htype]; decide))
        exact ⟨st₂, hok, hinv, hsmooth₁ hsmooth⟩
      | keysIndex =>
        obtain ⟨-, st₂, hok, hinv, hsmooth⟩ := hfree (hends₁ (by rw [htype]; decide))
        exact ⟨st₂, hok, hinv, hsmooth₁ hsmooth⟩
      | setVal | stringVal =>
        rw [htype] at hindex
        cases hindex
    | none =>
      have hlink₀ : y.rdsLink = none := hr.place.2.1.symm.trans hlink
      rw [hparent]
      rw [h.endsWhole_key hlast' hlink₀ hq, Bool.or_eq_false_iff] at hends
      obtain ⟨htype, hends₁⟩ := hends
      rw [hr.place.2.2, not_not.mp (of_decide_eq_false htype)]
      obtain ⟨⟨st₂, hok, hinv, hsmooth⟩, -⟩ := hfree hends₁
      exact ⟨st₂, hok, hinv, hsmooth₁ hsmooth⟩

end Supex.Timport
