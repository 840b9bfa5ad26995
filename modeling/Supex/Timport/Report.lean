import Supex.Timport.Counts
import Mathlib.Algebra.BigOperators.Group.List.Basic

/-!
# timport — reports

* `report_spec` — a child reports: the parent waits on, or all its children have
  reported.
* `handleSet_spec` — a value is sent to tsdb.
-/

namespace Supex.Timport

open Lib (ok_bind)
open Function (update update_idem update_of_ne update_self)

variable {cfg : Config} {st st' st'' : Sys} {Z : List Nat} {o m t p : Nat} {x y : Task}

--
-- What callbacks leave
--

/-- The sets of indexes that are values too can be converted. -/
def Converts (cfg : Config) (st : Sys) : Prop :=
  ∀ t x k es, st.task t = some x → x.tkey = some k → k.type = .aloneIndex →
    x.reply = some (.array es) → (cfg.convert k es).isSome = true

/-- Every task was heard of, and nothing makes the process quit. -/
structure Smooth (cfg : Config) (st : Sys) : Prop where
  quit : st.quit = false
  dropped : st.dropped = []
  converts : Converts cfg st

/-- Something happened to other tasks than the root, in the same round. -/
structure Within (cfg : Config) (st st' : Sys) : Prop where
  working : st'.working = st.working
  startTmstamp : st'.startTmstamp = st.startTmstamp
  started : st'.started = st.started
  ended : st'.ended = st.ended
  root : st'.task 0 = st.task 0
  stats : .statistics ∈ st'.pending ↔ .statistics ∈ st.pending
  quit : st.quit = true → st'.quit = true

theorem Within.refl (st : Sys) : Within cfg st st :=
  ⟨rfl, rfl, rfl, rfl, rfl, Iff.rfl, id⟩

theorem Within.trans (h : Within cfg st st') (h' : Within cfg st' st'') : Within cfg st st'' :=
  ⟨h'.working.trans h.working, h'.startTmstamp.trans h.startTmstamp, h'.started.trans h.started,
    h'.ended.trans h.ended, h'.root.trans h.root, h'.stats.trans h.stats,
    fun hq => h'.quit (h.quit hq)⟩

theorem Within.put (h0 : t ≠ 0) (x : Task) : Within cfg st (st.put t x) :=
  ⟨rfl, rfl, rfl, rfl, update_of_ne h0.symm .., Iff.rfl, id⟩

theorem Converts.put (h : Converts cfg st) (hx : ∀ k es, x.tkey = some k →
    k.type = .aloneIndex → x.reply = some (.array es) → (cfg.convert k es).isSome = true) :
    Converts cfg (st.put t x) := by
  intro t' x' k es ht
  rcases live_written rfl ht with ⟨-, rfl⟩ | ⟨-, ht⟩
  · exact hx k es
  · exact h t' x' k es ht

theorem Smooth.put (h : Smooth cfg st) (hx : ∀ k es, x.tkey = some k → k.type = .aloneIndex →
    x.reply = some (.array es) → (cfg.convert k es).isSome = true) : Smooth cfg (st.put t x) :=
  ⟨h.quit, h.dropped, h.converts.put hx⟩

--
-- Steps of an index
--

theorem getHandleCb_ne_statistics (type : KeyType) (t : Nat) :
    getHandleCb type t ≠ .statistics := by
  cases type <;> exact nofun

theorem spawns_within (cfg : Config) (t : Nat) (l : List (Bytes × TKey)) (idx : Nat) (st : Sys)
    (hnext : 0 < st.next) :
    Within cfg st (l.foldl (spawn t idx) st) ∧
      (Smooth cfg st → Smooth cfg (l.foldl (spawn t idx) st)) ∧
      ∀ q < st.next, (l.foldl (spawn t idx) st).task q = st.task q := by
  induction l generalizing st with
  | nil => exact ⟨.refl st, id, fun _ _ => rfl⟩
  | cons a l ih =>
    have htask : ∀ q < st.next, (spawn t idx st a).task q = st.task q :=
      fun q hq => update_of_ne hq.ne ..
    have hhead : Within cfg st (spawn t idx st a) := by
      refine ⟨rfl, rfl, rfl, rfl, htask 0 hnext, ?_, id⟩
      show _ ∈ st.pending ++ [_] ↔ _
      rw [List.mem_append, List.mem_singleton]
      exact or_iff_left fun heq => getHandleCb_ne_statistics _ _ heq.symm
    have hsmooth : Smooth cfg st → Smooth cfg (spawn t idx st a) := by
      intro hs
      refine ⟨hs.quit, hs.dropped, fun t' x' k es ht hk htype hreply => ?_⟩
      rcases live_written rfl ht with ⟨-, rfl⟩ | ⟨-, ht⟩
      · cases hreply
      · exact hs.converts t' x' k es ht hk htype hreply
    obtain ⟨hrest, hsrest, hqrest⟩ := ih (spawn t idx st a) (Nat.lt_succ_of_lt hnext)
    refine ⟨hhead.trans hrest, fun hs => hsrest (hsmooth hs), fun q hq => ?_⟩
    exact (hqrest q (Nat.lt_succ_of_lt hq)).trans (htask q hq)

theorem TKey.Loaded.child {k c : TKey} (h : k.Loaded) (hc : c ∈ k.child) : c.Loaded := by
  cases h with
  | index _ _ _ hchild => exact hchild c hc
  | value _ => cases hc

theorem length_step (es : List Bytes) (k : TKey) {fr step : Nat} (h : fr + step ≤ es.length) :
    (((es.drop fr).take step).flatMap fun e => k.child.map fun c => (e, c)).length =
      step * k.child.length := by
  have hlen : ((es.drop fr).take step).length = step := by
    rw [List.length_take, List.length_drop]
    omega
  rw [List.length_flatMap]
  simp only [List.length_map, List.map_const', List.sum_replicate, hlen, nsmul_eq_mul, Nat.cast_id]

theorem handleSingleStepIndex_spec (cfg : Config) (h : Core st Z t m) (hx : st.task t = some x)
    (htZ : t ∉ Z)
    (h0 : t ≠ 0) {idx : Nat} {k : TKey} {es : List Bytes} (hi : Index x idx k es)
    (hloaded : k.Loaded) (hm : m = x.step * k.child.length) :
    ∃ st', handleSingleStepIndex st t = .ok st' ∧ Core st' Z t 0 ∧ Within cfg st st' ∧
      (Smooth cfg st → Smooth cfg st') ∧ ∀ q < st.next, st'.task q = st.task q := by
  have htaken := hi.taken
  have hlt := hi.idx_lt
  let l := ((es.drop x.finishResultCount).take x.step).flatMap fun e => k.child.map fun c => (e, c)
  obtain ⟨hwithin, hsmooth, hq⟩ := spawns_within cfg t l idx st h.next_pos
  refine ⟨l.foldl (spawn t idx) st, ?_, ?_, hwithin, hsmooth, hq⟩
  · unfold handleSingleStepIndex
    rw [Sys.get_eq hx, ok_bind, hi.link, hi.tkey, hi.reply]
    dsimp only
    rw [if_neg (by omega)]
    rfl
  · rw [hm, ← length_step es k hi.taken] at h
    refine h.spawns hx htZ h0 idx fun a ha => ?_
    obtain ⟨e, -, ha⟩ := List.mem_flatMap.mp ha
    obtain ⟨c, hc, rfl⟩ := List.mem_map.mp ha
    exact hloaded.child hc

theorem handleNextStepIndex_last (hx : st.task t = some x)
    (h : x.totalResultCount ≤ x.finishResultCount + x.step) :
    handleNextStepIndex st t =
      .ok (st.put t { x with finishResultCount := x.finishResultCount + x.step }) := by
  unfold handleNextStepIndex
  rw [Sys.get_eq hx, ok_bind]
  exact if_pos h

theorem handleNextStepIndex_next {k : TKey} (hx : st.task t = some x) (hk : x.tkey = some k)
    (h : ¬ x.totalResultCount ≤ x.finishResultCount + x.step) :
    handleNextStepIndex st t =
      handleSingleStepIndex (st.put t { x with
        finishResultCount := x.finishResultCount + x.step
        step := min x.step (x.totalResultCount - (x.finishResultCount + x.step))
        nextTaskCount := x.nextTaskCount +
          min x.step (x.totalResultCount - (x.finishResultCount + x.step)) * k.child.length })
            t := by
  unfold handleNextStepIndex
  rw [Sys.get_eq hx, ok_bind]
  rw [if_neg h, hk]

theorem Sys.put_put (st : Sys) (t : Nat) (x x' : Task) : (st.put t x).put t x' = st.put t x' := by
  unfold Sys.put
  rw [update_idem]

--
-- Reports
--

theorem Core.not_asked (h : Core st Z p 1) (hy : st.task p = some y) (hpZ : p ∉ Z) (hp0 : p ≠ 0) :
    ¬ asked st p ∧ y.finishTaskCount + 1 ≤ y.created ∧ y.created ≤ y.totalTaskCount := by
  have hcount := h.count p y hy hpZ
  rw [if_pos rfl] at hcount
  have hsound := h.sound p y hy hpZ hp0
  have hle := hsound.created_le
  refine ⟨fun ha => ?_, by omega, hle⟩
  have := hsound.done ha
  omega

theorem Core.leave_last (h : Core st (t :: Z) p 1) {y' : Task} (hy : st.task p = some y)
    (hpZ : p ∉ t :: Z) (hp0 : p ≠ 0) (hsame : SamePlace y y')
    (hfin : y'.finishTaskCount = y.finishTaskCount + 1)
    (htotal : y'.totalTaskCount = y.totalTaskCount) (hnext : y'.nextTaskCount = y.nextTaskCount)
    (hlast : y.finishTaskCount + 1 = y.totalTaskCount) :
    ∃ q, y.parent = some q ∧ Core (st.put p y') (p :: t :: Z) q 1 := by
  obtain ⟨hask, hlow, hle⟩ := h.not_asked hy hpZ hp0
  obtain ⟨q, k, hplaced⟩ := h.placed p y hy hp0
  have hcreated : y'.created = y.created := by
    unfold Task.created
    rw [hsame.2.1, htotal, hnext]
  refine ⟨q, hplaced.parent, h.leave hy hpZ hp0 hplaced.parent hsame rfl rfl rfl rfl
    (List.Sublist.refl _) ?_ ⟨?_, ?_⟩ ?_ ?_⟩
  · exact fun r hr => iff_of_true hr fun ht => hask ⟨r, hr, ht⟩
  · omega
  · omega
  · rw [if_pos rfl]
    omega
  · exact fun hne => absurd rfl hne

/-- What a report leaves. -/
structure Reported (cfg : Config) (st st' : Sys) (Z : List Nat) (p : Nat) (y y' : Task) :
    Prop where
  task : st'.task p = some y'
  place : SamePlace y y'
  reply : y'.reply = y.reply
  within : Within cfg st st'
  smooth : Smooth cfg st → Smooth cfg st'
  others : ∀ q < st.next, q ≠ p → st'.task q = st.task q
  counted : y'.finishTaskCount ≠ y'.totalTaskCount ∧ y.finishTaskCount + 1 ≠ y.totalTaskCount ∧
      Core st' Z p 0 ∨
    y'.finishTaskCount = y'.totalTaskCount ∧ y.finishTaskCount + 1 = y.totalTaskCount ∧
      ∃ q, y.parent = some q ∧ Core st' (p :: Z) q 1

theorem Reported.of_put (h : Core st (t :: Z) p 1) {y' : Task} (hy : st.task p = some y)
    (hpZ : p ∉ t :: Z) (hp0 : p ≠ 0) (hsame : SamePlace y y') (hreply : y'.reply = y.reply)
    (hfin : y'.finishTaskCount = y.finishTaskCount + 1)
    (htotal : y'.totalTaskCount = y.totalTaskCount) (hnext : y'.nextTaskCount = y.nextTaskCount)
    (hwaits : y.finishTaskCount + 1 ≠ y.totalTaskCount → y.rdsLink ≠ none →
      y.finishTaskCount + 1 < y.nextTaskCount ∧ ∃ idx k es, Index y' idx k es) :
    Reported cfg st (st.put p y') (t :: Z) p y y' := by
  obtain ⟨hask, hlow, hle⟩ := h.not_asked hy hpZ hp0
  have hsound := h.sound p y hy hpZ hp0
  have hcreated : y'.created = y.created := by
    unfold Task.created
    rw [hsame.2.1, htotal, hnext]
  refine ⟨update_self .., hsame, hreply, .put hp0 y', fun hs => hs.put ?_,
    fun q _ hne => update_of_ne hne .., ?_⟩
  · intro k es hk htype hes
    exact hs.converts p y k es hy (hsame.2.2.symm.trans hk) htype (hreply.symm.trans hes)
  by_cases hlast : y.finishTaskCount + 1 = y.totalTaskCount
  · refine .inr ⟨by omega, hlast, h.leave_last hy hpZ hp0 hsame hfin htotal hnext hlast⟩
  · refine .inl ⟨by omega, hlast, h.put hy hpZ hsame (fun heq => absurd heq hp0)
      (fun _ => ?_) ?_ ?_⟩
    · refine ⟨by omega, fun ha => absurd ha hask, fun _ => .inr (by omega), fun hlink _ => ?_, ?_⟩
      · obtain ⟨hlt, hindex⟩ := hwaits hlast (by rw [← hsame.2.1]; exact hlink)
        exact ⟨by omega, hindex⟩
      · intro hlink
        rw [hnext]
        exact hsound.flat (hsame.2.1.symm.trans hlink)
    · exact fun r hr ht => absurd ⟨r, hr, ht⟩ hask
    · omega

theorem report_spec (cfg : Config) (h : Core st (t :: Z) p 1) (hy : st.task p = some y)
    (hpZ : p ∉ t :: Z)
    (hp0 : p ≠ 0) :
    ∃ st' y', report st p = .ok st' ∧ Reported cfg st st' (t :: Z) p y y' := by
  obtain ⟨hask, hlow, hle⟩ := h.not_asked hy hpZ hp0
  have hsound := h.sound p y hy hpZ hp0
  let y₁ : Task := { y with finishTaskCount := y.finishTaskCount + 1 }
  unfold report
  rw [Sys.get_eq hy, ok_bind]
  dsimp only
  by_cases hlink : y.rdsLink = none
  · -- a task with a child for each server
    have hflat := hsound.flat hlink
    rw [if_neg (by omega)]
    exact ⟨st.put p y₁, y₁, rfl, .of_put h hy hpZ hp0 ⟨rfl, rfl, rfl⟩ rfl rfl rfl rfl
      fun _ hne => absurd hlink hne⟩
  obtain ⟨hlt, idx, k, es, hi⟩ := hsound.waits hlink (by omega)
  have hcreated : y.created = y.nextTaskCount := if_neg hlink
  have hcc : 0 < k.child.length := List.length_pos_of_ne_nil hi.child
  by_cases hstep : y.nextTaskCount = y.finishTaskCount + 1
  swap
  · -- other tasks of the step have not reported
    rw [if_neg hstep]
    refine ⟨st.put p y₁, y₁, rfl, .of_put h hy hpZ hp0 ⟨rfl, rfl, rfl⟩ rfl rfl rfl rfl
      fun _ _ => ⟨by omega, idx, k, es, ?_⟩⟩
    exact ⟨hi.link, hi.idx_lt, hi.tkey, hi.reply, hi.results, hi.total, hi.next, hi.taken,
      hi.step_pos, hi.child⟩
  rw [if_pos hstep]
  have hget : (st.put p y₁).task p = some y₁ := update_self ..
  have hresults := hi.results
  have htaken := hi.taken
  by_cases hlast : y.totalResultCount ≤ y.finishResultCount + y.step
  · -- it was the last step
    rw [handleNextStepIndex_last hget hlast, Sys.put_put]
    have htotal : y.finishTaskCount + 1 = y.totalTaskCount := by
      rw [← hstep, hi.next, hi.total]
      congr 1
      omega
    exact ⟨_, _, rfl, .of_put h hy hpZ hp0 ⟨rfl, rfl, rfl⟩ rfl rfl rfl rfl
      fun hne => absurd htotal hne⟩
  · -- the next step starts
    rw [handleNextStepIndex_next hget hi.tkey hlast, Sys.put_put]
    let step := min y.step (y.totalResultCount - (y.finishResultCount + y.step))
    have hstep₁ : 0 < step := by
      have := hi.step_pos
      omega
    have hstep₂ : y.finishResultCount + y.step + step ≤ es.length := by omega
    let y₂ : Task := { y₁ with
      finishResultCount := y.finishResultCount + y.step
      step := step
      nextTaskCount := y.nextTaskCount + step * k.child.length }
    have hi₂ : Index y₂ idx k es := by
      refine ⟨hi.link, hi.idx_lt, hi.tkey, hi.reply, hi.results, hi.total, ?_, hstep₂, hstep₁,
        hi.child⟩
      show y.nextTaskCount + step * k.child.length = _
      rw [hi.next, ← Nat.add_mul]
    have hnew : 0 < step * k.child.length := Nat.mul_pos hstep₁ hcc
    have hbound : y.nextTaskCount + step * k.child.length ≤ y.totalTaskCount := by
      rw [hi.next, ← Nat.add_mul, hi.total]
      exact Nat.mul_le_mul_right _ hstep₂
    have hcreated₂ : y₂.created = y.nextTaskCount + step * k.child.length := if_neg hlink
    have hcore : Core (st.put p y₂) (t :: Z) p (step * k.child.length) := by
      refine h.put hy hpZ ⟨rfl, rfl, rfl⟩ (fun heq => absurd heq hp0) (fun _ => ?_) ?_ ?_
      · refine ⟨?_, fun ha => absurd ha hask, fun _ => .inr ?_, fun _ _ => ⟨?_, idx, k, es, hi₂⟩,
          fun hnone => absurd hnone hlink⟩
        · rw [hcreated₂]
          exact hbound
        · show y.finishTaskCount + 1 < y.totalTaskCount
          omega
        · show y.finishTaskCount + 1 < y.nextTaskCount + step * k.child.length
          omega
      · exact fun r hr ht => absurd ⟨r, hr, ht⟩ hask
      · rw [hcreated₂, hcreated]
        show y.finishTaskCount + 1 + _ = y.finishTaskCount + 1 + _ + _
        omega
    obtain ⟨q, kq, hplaced⟩ := h.placed p y hy hp0
    have hloaded : k.Loaded := by
      have heq := hi.tkey.symm.trans hplaced.tkey
      rw [Option.some.inj heq]
      exact hplaced.loaded
    obtain ⟨st', hok, hcore', hwithin, hsmooth, hothers⟩ :=
      handleSingleStepIndex_spec cfg hcore (update_self ..) hpZ hp0 hi₂ hloaded rfl
    have hsmooth₂ : Smooth cfg st → Smooth cfg (st.put p y₂) := by
      intro hs
      refine hs.put fun k' es' hk' htype hes' => ?_
      exact hs.converts p y k' es' hy hk' htype hes'
    refine ⟨st', y₂, hok, ?_, ⟨rfl, rfl, rfl⟩, rfl, (Within.put hp0 y₂).trans hwithin,
      fun hs => hsmooth (hsmooth₂ hs), fun q hq hne => ?_, .inl ⟨?_, by omega, hcore'⟩⟩
    · exact (hothers p (h.fresh p y hy)).trans (update_self ..)
    · exact (hothers q hq).trans (update_of_ne hne ..)
    · show y.finishTaskCount + 1 ≠ y.totalTaskCount
      omega

--
-- Values
--

section Values

variable (h : Core st (t :: Z) p 1) (hx : st.task t = some x) (htZ : t ∉ Z)
  (hp : x.parent = some p) (hpZ : p ∉ t :: Z) (hpl : ∃ y, st.task p = some y)
  (hlink : x.rdsLink ≠ none)
include h hx htZ hp hpZ hpl hlink

theorem Core.enter_ask {x' : Task} (hsame : SamePlace x x') (hdone : x'.Done) {r : Request}
    (hr : r.task = some t) (hfits : r.fits x')
    (htask : st'.task = update st.task t (some x')) (hnext : st'.next = st.next)
    (hquit : st'.quit = st.quit) (hdropped : st'.dropped = st.dropped)
    (hpending : st'.pending = st.pending ++ [r]) : Core st' Z t 0 := by
  refine h.enter hx htZ hp hpZ hpl hsame htask hnext (fun hq => hquit.trans hq) hdropped hpending
    (List.nodup_singleton _) ?_ ?_ (hdone.1.trans hdone.2.symm)
  · intro r' hr'
    rw [List.mem_singleton.mp hr']
    exact ⟨hr, hfits⟩
  · refine ⟨hdone.2.le, fun _ => hdone.1, fun _ => .inl ⟨r, ?_, hr⟩, fun _ hlt => ?_,
      fun hnone => ?_⟩
    · rw [hpending]
      exact List.mem_append_right _ (List.mem_singleton_self r)
    · exact absurd hdone.1 hlt.ne
    · exact absurd (hsame.2.1.symm.trans hnone) hlink

theorem Core.enter_raise {x' : Task} (hsame : SamePlace x x') (hdone : x'.Done)
    (htask : st'.task = update st.task t (some x')) (hnext : st'.next = st.next)
    (hquit : st'.quit = true) (hdropped : st'.dropped = st.dropped)
    (hpending : st'.pending = st.pending) : Core st' Z t 0 := by
  refine h.enter hx htZ hp hpZ hpl hsame htask hnext (fun _ => hquit) hdropped
    (hpending.trans (List.append_nil _).symm) List.nodup_nil (fun _ => nofun) ?_
    (hdone.1.trans hdone.2.symm)
  refine ⟨hdone.2.le, fun _ => hdone.1, fun hq => ?_, fun _ hlt => ?_, fun hnone => ?_⟩
  · rw [hquit] at hq
    cases hq
  · exact absurd hdone.1 hlt.ne
  · exact absurd (hsame.2.1.symm.trans hnone) hlink

theorem handleString_spec (cfg : Config) {x' : Task} (hsame : SamePlace x x') (hdone : x'.Done)
    (s : Bytes) (hreply : x'.reply = some (.string s)) :
    ∃ st', handleString (st.put t x') t = .ok st' ∧ Core st' Z t 0 ∧ Within cfg st st' ∧
      (Smooth cfg st → Smooth cfg st') := by
  obtain ⟨h0, -, -⟩ := h.gone t (.head _)
  obtain ⟨q, k, hplaced⟩ := h.placed t x hx h0
  have hget : (st.put t x').task t = some x' := update_self ..
  have htkey : x'.tkey = some k := hsame.2.2.trans hplaced.tkey
  refine ⟨{ (st.put t x').ask (.write t) with
    counts := addStat st.counts k.stat x'.totalResultCount s.length }, ?_, ?_, ?_, ?_⟩
  · unfold handleString
    rw [Sys.get_eq hget, ok_bind, htkey]
    rw [hreply]
    rfl
  · exact h.enter_ask (r := .write t) hx htZ hp hpZ hpl hlink hsame hdone rfl
      ⟨by rw [hsame.2.1]; exact hlink, nofun⟩ rfl rfl rfl rfl rfl
  · refine ⟨rfl, rfl, rfl, rfl, update_of_ne h0.symm .., ?_, id⟩
    show _ ∈ st.pending ++ [_] ↔ _
    rw [List.mem_append, List.mem_singleton]
    exact or_iff_left nofun
  · intro hs
    have hput : Smooth cfg (st.put t x') := hs.put fun k' es _ _ hes => by
      rw [hreply] at hes
      cases hes
    exact ⟨hput.quit, hput.dropped, hput.converts⟩

theorem handleSet_spec (cfg : Config) {x' : Task} (hsame : SamePlace x x') (hdone : x'.Done) :
    ∃ st', handleSet cfg (st.put t x') t = .ok st' ∧ Core st' Z t 0 ∧ Within cfg st st' ∧
      (Smooth cfg st → (∃ k es, x.tkey = some k ∧ x'.reply = some (.array es) ∧
        (cfg.convert k es).isSome = true) → Smooth cfg st') := by
  obtain ⟨h0, -, -⟩ := h.gone t (.head _)
  obtain ⟨q, k, hplaced⟩ := h.placed t x hx h0
  have hget : (st.put t x').task t = some x' := update_self ..
  have htkey : x'.tkey = some k := hsame.2.2.trans hplaced.tkey
  have hraise : Core ((st.put t x').raise) Z t 0 ∧ Within cfg st ((st.put t x').raise) :=
    ⟨h.enter_raise hx htZ hp hpZ hpl hlink hsame hdone rfl rfl rfl rfl rfl,
      rfl, rfl, rfl, rfl, update_of_ne h0.symm .., Iff.rfl, fun _ => rfl⟩
  unfold handleSet
  rw [Sys.get_eq hget, ok_bind, htkey]
  dsimp only
  split
  · next es hes =>
    cases hconv : cfg.convert k es with
    | none =>
      refine ⟨_, rfl, hraise.1, hraise.2, fun _ ⟨k', es', hk', hes', hsome⟩ => ?_⟩
      rw [hplaced.tkey, Option.some.injEq] at hk'
      rw [hes, Option.some.injEq, Reply.array.injEq] at hes'
      rw [← hk', ← hes', hconv] at hsome
      cases hsome
    | some r =>
      obtain ⟨n, s⟩ := r
      dsimp only
      rw [Sys.put_put]
      let x₂ : Task := { x' with totalResultCount := n, reply := some (.string s) }
      have hsame₂ : SamePlace x x₂ := hsame
      have hdone₂ : x₂.Done := hdone
      obtain ⟨st', hok, hcore, hwithin, hsmooth⟩ :=
        handleString_spec h hx htZ hp hpZ hpl hlink cfg hsame₂ hdone₂ s rfl
      refine ⟨st', ?_, hcore, hwithin, fun hs _ => hsmooth hs⟩
      rw [← htkey]
      exact hok
  · next hother =>
    refine ⟨_, rfl, hraise.1, hraise.2, fun _ ⟨k', es', _, hes', _⟩ => ?_⟩
    exact absurd hes' (hother es')

end Values

end Supex.Timport
