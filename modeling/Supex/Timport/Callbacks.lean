import Supex.Timport.Finish

/-!
# timport — callbacks

* `step_spec` — every callback keeps the counts and the rounds, unless it merges
  the sets of a key.

Main result: `Inv.take`.
-/

namespace Supex.Timport

open List
open Function (update update_eq_self update_of_ne)

open Lib (ok_bind)

variable {cfg : Config} {st st' : Sys} {Z : List Nat} {o m t p t0 i now : Nat} {x y : Task}
  {r : Request} {reply : Reply}

--
-- Conditions
--

/-- The answer does not merge the sets of a key. -/
def Request.owned (st : Sys) (reply : Reply) : Request → Bool
  | .string t =>
    match reply with
    | .nil => !endsWhole st st.next t
    | _ => true
  | .expire t => !endsWhole st st.next t
  | _ => true

/-- The parent hears of the answer: there are elements, they can be converted, and
the server is one of the first 32. -/
def Request.heard (cfg : Config) (st : Sys) (reply : Reply) : Request → Bool
  | .index t =>
    match reply, (st.task t).bind Task.rdsLink, (st.task t).bind Task.tkey with
    | .array es, some idx, some k =>
      !es.isEmpty && !k.child.isEmpty && decide (idx < MAX_REDIS_SIZE) &&
        (decide (k.type ≠ .aloneIndex) || (cfg.convert k es).isSome)
    | _, _, _ => false
  | .set t =>
    match reply, (st.task t).bind Task.tkey with
    | .array es, some k => !es.isEmpty && (cfg.convert k es).isSome
    | _, _ => false
  | .string t =>
    match reply with
    | .nil => !endsWhole st st.next t
    | .string _ => true
    | _ => false
  | .expire t => !endsWhole st st.next t
  | _ => true

theorem Request.owned_of_heard (h : r.heard cfg st reply = true) : r.owned st reply = true := by
  cases r with
  | string t =>
    cases reply with
    | nil => exact h
    | string _ | array _ | other => rfl
  | expire t => exact h
  | index _ | set _ | write _ | statistics => rfl

theorem Request.heard_congr (htask : st'.task = st.task) (hnext : st'.next = st.next) :
    r.heard cfg st' reply = r.heard cfg st reply := by
  have hends : ∀ t, endsWhole st' st'.next t = endsWhole st st.next t := fun t => by
    rw [hnext, endsWhole_of_task htask]
  cases r with
  | index t => simp only [Request.heard, htask]
  | set t => simp only [Request.heard, htask]
  | string t => simp only [Request.heard, hends]
  | expire t => simp only [Request.heard, hends]
  | write _ | statistics => rfl

theorem Request.owned_congr (htask : st'.task = st.task) (hnext : st'.next = st.next) :
    r.owned st' reply = r.owned st reply := by
  have hends : ∀ t, endsWhole st' st'.next t = endsWhole st st.next t := fun t => by
    rw [hnext, endsWhole_of_task htask]
  cases r with
  | string t => simp only [Request.owned, hends]
  | expire t => simp only [Request.owned, hends]
  | index _ | set _ | write _ | statistics => rfl

--
-- Answers
--

/-- What is left when a request is answered. -/
def Sys.without (st : Sys) (i : Nat) : Sys := { st with pending := st.pending.eraseIdx i }

theorem Core.mem_without (h : Core st Z o m) (hi : st.pending[i]? = some r) {r' : Request}
    (hr' : r' ∈ st.pending) : r' ∈ (st.without i).pending ↔ r'.task ≠ r.task := by
  show r' ∈ st.pending.eraseIdx i ↔ _
  rw [mem_eraseIdx_iff_getElem?]
  constructor
  · rintro ⟨j, hne, hj⟩ heq
    have hsame : (st.pending.map Request.task)[j]? = (st.pending.map Request.task)[i]? := by
      rw [getElem?_map, getElem?_map, hi, hj, Option.map_some, Option.map_some, heq]
    have hlt : j < (st.pending.map Request.task).length := by
      rw [length_map]
      exact (List.getElem?_eq_some_iff.mp hj).1
    exact hne ((getElem?_inj hlt h.once).mp hsame)
  · intro hne
    obtain ⟨j, hj⟩ := getElem?_of_mem hr'
    refine ⟨j, ?_, hj⟩
    rintro rfl
    rw [hi, Option.some.injEq] at hj
    exact hne (congrArg Request.task hj.symm)

/-- **A request is answered**, and its task has nothing to wait for. -/
theorem Inv.take (h : Inv cfg t0 st []) (hi : st.pending[i]? = some r) (ht : r.task = some t) :
    ∃ p x y, Leaving (st.without i) [] t p x y ∧ x.Done ∧ r.fits x ∧ p ≠ 0 ∧
      Within cfg st (st.without i) := by
  have hr : r ∈ st.pending := mem_of_getElem? hi
  obtain ⟨h0, htZ, x, hx, hfits⟩ := h.core.asks r hr t ht
  obtain ⟨p, k, hplaced⟩ := h.core.placed t x hx h0
  obtain ⟨hpZ, y, hy⟩ := h.core.held t x p hx htZ hplaced.parent
  have hsound := h.core.sound t x hx htZ h0
  have hfull := hsound.done ⟨r, hr, ht⟩
  have hdone : x.Done := by
    have hcount := h.core.count t x hx htZ
    have hle := hsound.created_le
    exact ⟨hfull, by omega⟩
  have hmem : ∀ r' ∈ st.pending, r' ∈ (st.without i).pending ↔ r'.task ≠ some t := by
    intro r' hr'
    rw [h.core.mem_without hi hr', ht]
  have hsub : (st.without i).pending.Sublist st.pending := eraseIdx_sublist ..
  have hself : (st.without i).task = update st.task t (some x) := by
    rw [← hx, update_eq_self]
    rfl
  refine ⟨p, x, y, ⟨?_, hx, hplaced.parent, ?_, hy⟩, hdone, hfits, ?_, rfl, rfl, rfl, rfl, rfl, ?_,
    id⟩
  · refine h.core.leave hx htZ h0 hplaced.parent ⟨rfl, rfl, rfl⟩ hself rfl rfl rfl hsub hmem hdone
      ?_ fun _ => rfl
    rw [ite_self]
    exact hfull.ge
  · rw [mem_singleton]
    exact hplaced.lt.ne
  · exact fun hp0 => hfits.1 (hplaced.link.mpr hp0)
  · constructor
    · exact fun hin => hsub.subset hin
    · exact fun hin => (hmem _ hin).mpr nofun

theorem Inv.take_statistics (h : Inv cfg t0 st []) (hi : st.pending[i]? = some .statistics) :
    Core (st.without i) [] 0 0 ∧ .statistics ∉ (st.without i).pending := by
  have hsub : (st.without i).pending.Sublist st.pending := eraseIdx_sublist ..
  have hmem : ∀ {r'}, r' ∈ st.pending → (r' ∈ (st.without i).pending ↔ r'.task ≠ none) :=
    fun hr' => h.core.mem_without hi hr'
  have hasked : ∀ t, asked (st.without i) t ↔ asked st t := by
    intro t
    constructor
    · rintro ⟨r', hr', ht⟩
      exact ⟨r', hsub.subset hr', ht⟩
    · rintro ⟨r', hr', ht⟩
      exact ⟨r', (hmem hr').mpr (by rw [ht]; exact nofun), ht⟩
  refine ⟨⟨h.core.root, h.core.fresh, h.core.placed, h.core.held, h.core.gone, ?_, ?_,
    h.core.count, ?_, h.core.dropped⟩, fun hin => ?_⟩
  · exact fun r' hr' => h.core.asks r' (hsub.subset hr')
  · exact h.core.once.sublist (hsub.map _)
  · intro t x hx hZ h0
    exact (h.core.sound t x hx hZ h0).of_asked (hasked t) id
  · exact (hmem (hsub.subset hin)).mp hin rfl

--
-- What a task does with its answer
--

/-- What a callback leaves; if the answer is heard, nothing was dropped. -/
def Leaves (cfg : Config) (t0 : Nat) (st : Sys) (heard : Bool) (res : Except Fault Sys) : Prop :=
  (∃ st', res = .ok st' ∧ Inv cfg t0 st' [] ∧
    (cfg.Timed → Smooth cfg st → heard = true → Smooth cfg st')) ∨
  res = .error .overflow ∧ heard = false

section Answer

variable {heard : Bool} (hrounds : Rounds cfg t0 st) (hphase : Phase cfg st)
include hrounds hphase

theorem Within.leaves {st₁ : Sys} (hcore : Core st₁ [] t 0) (hwithin : Within cfg st st₁)
    (hsmooth : Smooth cfg st → heard = true → Smooth cfg st₁) :
    Leaves cfg t0 st heard (.ok st₁) :=
  .inl ⟨st₁, rfl, ⟨hcore.paid 0, hrounds.within hwithin, hphase.within hwithin⟩,
    fun _ => hsmooth⟩

variable (h : Leaving st [] t p x y)
include h

theorem Leaving.finish (hends : endsWhole st st.next t = false) :
    Leaves cfg t0 st heard (finishAndFree cfg now st t) ∧
      Leaves cfg t0 st heard (redisExpireFinishCb cfg now st t) := by
  have hfin := taskFinish_spec now (h.core.fresh t x h.task) h hrounds hphase hends
  obtain ⟨⟨st₁, hok₁, hinv₁, hs₁⟩, st₂, hok₂, hinv₂, hs₂⟩ := finish_free hfin not_mem_nil
  exact ⟨.inl ⟨st₁, hok₁, hinv₁, fun ht hs _ => hs₁ ht hs⟩,
    .inl ⟨st₂, hok₂, hinv₂, fun ht hs _ => hs₂ ht hs⟩⟩

theorem Leaving.drop (hp0 : p ≠ 0) :
    ∃ st', st.drop t x = .ok st' ∧ Inv cfg t0 st' [] ∧ Inv cfg t0 st'.raise [] := by
  obtain ⟨h0, -⟩ := h.core.gone t (.head _)
  let st' : Sys := { st with
    task := update st.task t none
    dropped := st.dropped ++ [p] }
  have hok : st.drop t x = .ok st' := by
    unfold Sys.drop Sys.free
    rw [h.task, h.parent]
    rfl
  have hwithin : Within cfg st st' :=
    ⟨rfl, rfl, rfl, rfl, update_of_ne h0.symm .., Iff.rfl, id⟩
  have hraise : Within cfg st st'.raise :=
    ⟨rfl, rfl, rfl, rfl, update_of_ne h0.symm .., Iff.rfl, fun _ => rfl⟩
  have hcore : Core st' [] p 0 := by
    refine h.core.free not_mem_nil rfl rfl rfl rfl [p] rfl (fun q => ?_) fun q hq => ?_
    · rw [count_singleton]
      by_cases hq : q = p
      · rw [if_pos hq, if_pos (by rw [hq]; exact beq_self_eq_true p)]
      · rw [if_neg hq, if_neg fun heq => hq (eq_of_beq heq).symm]
    · rw [mem_singleton.mp hq]
      exact ⟨hp0, h.core.fresh p y h.above, not_mem_nil⟩
  exact ⟨st', hok, ⟨hcore.paid 0, hrounds.within hwithin, hphase.within hwithin⟩,
    hcore.raise.paid 0, hrounds.within hraise, hphase.within hraise⟩

theorem Leaving.startIndex (hlink : x.rdsLink ≠ none) (hnext : x.nextTaskCount = 0)
    {k : TKey} (hk : x.tkey = some k) (hchild : k.child ≠ []) {es : List Bytes} (hes : es ≠ [])
    (hheard : heard = true → (∀ idx, x.rdsLink = some idx → idx < MAX_REDIS_SIZE) ∧
      (k.type = .aloneIndex → (cfg.convert k es).isSome = true)) :
    Leaves cfg t0 st heard (startIndex st t x k es) := by
  obtain ⟨h0, -⟩ := h.core.gone t (.head _)
  obtain ⟨q, k', hplaced⟩ := h.core.placed t x h.task h0
  obtain rfl : k = k' := Option.some.inj (hk.symm.trans hplaced.tkey)
  obtain ⟨idx, hidx⟩ := Option.ne_none_iff_exists'.mp hlink
  have hes₁ : 0 < es.length := length_pos_of_ne_nil hes
  have hchild₁ : 0 < k.child.length := length_pos_of_ne_nil hchild
  let step := min es.length MAX_STEP_COUNT
  have hstep : 0 < step := lt_min hes₁ (by decide)
  have hstep' : step ≤ es.length := min_le_left ..
  let x₁ : Task := { x with
    reply := some (.array es)
    totalResultCount := es.length
    finishResultCount := 0
    totalTaskCount := es.length * k.child.length
    finishTaskCount := 0
    step := step
    nextTaskCount := x.nextTaskCount + step * k.child.length }
  have hstart : Timport.startIndex st t x k es = handleSingleStepIndex (st.put t x₁) t := rfl
  rw [hstart]
  by_cases hlt : idx < MAX_REDIS_SIZE
  swap
  · refine .inr ⟨?_, ?_⟩
    · unfold handleSingleStepIndex
      rw [Sys.get_eq (st.put_self t x₁), ok_bind]
      have hidx₁ : x₁.rdsLink = some idx := hidx
      have hk₁ : x₁.tkey = some k := hk
      rw [hidx₁, hk₁]
      exact if_pos (.inl (Nat.le_of_not_lt hlt))
    · by_contra hnot
      exact hlt ((hheard (Bool.eq_true_of_not_eq_false hnot)).1 idx hidx)
  have hi : Index x₁ idx k es := by
    refine ⟨hidx, hlt, hk, rfl, rfl, rfl, ?_, (Nat.zero_add _).trans_le hstep', hstep, hchild⟩
    show x.nextTaskCount + step * k.child.length = (0 + step) * k.child.length
    rw [hnext, Nat.zero_add, Nat.zero_add]
  have hcreated : x₁.created = step * k.child.length := by
    have hnone : x₁.created = x₁.nextTaskCount := if_neg hlink
    rw [hnone, hi.next]
    rw [Nat.zero_add]
  have hnew : 0 < step * k.child.length := Nat.mul_pos hstep hchild₁
  have hle : step * k.child.length ≤ es.length * k.child.length := Nat.mul_le_mul_right _ hstep'
  have hsame : SamePlace x x₁ := ⟨rfl, rfl, rfl⟩
  have hask : ¬ asked (st.put t x₁) t := by
    rintro ⟨r, hr, ht⟩
    exact (h.core.asks r hr t ht).2.1 (.head _)
  have hcore : Core (st.put t x₁) [] t (step * k.child.length) := by
    have hpending : (st.put t x₁).pending = st.pending ++ [] := (append_nil _).symm
    refine h.core.enter h.task not_mem_nil h.parent h.notMem ⟨y, h.above⟩ hsame rfl rfl id rfl
      hpending nodup_nil (fun _ => nofun) ?_ ?_
    · refine ⟨hcreated.trans_le hle, fun ha => absurd ha hask, fun _ => .inr (hnew.trans_le hle),
        fun _ _ => ⟨?_, idx, k, es, hi⟩, fun hnone => absurd hnone hlink⟩
      exact hnew.trans_le (Nat.le_add_left ..)
    · rw [hcreated]
      exact Nat.zero_add _
  obtain ⟨st', hok, hcore', hwithin, hsmooth, -⟩ := handleSingleStepIndex_spec cfg hcore
    (st.put_self t x₁) not_mem_nil h0 hi hplaced.loaded rfl
  rw [hok]
  refine Within.leaves hrounds hphase hcore' ((Within.put h0 x₁).trans hwithin) fun hs hh => ?_
  refine hsmooth (hs.put fun k₁ es₁ hk₁ htype hes₁ => ?_)
  obtain rfl : k = k₁ := Option.some.inj (hk.symm.trans hk₁)
  obtain rfl : es = es₁ := Reply.array.inj (Option.some.inj hes₁)
  exact (hheard hh).2 htype

theorem Leaving.handleIndexCb (hp0 : p ≠ 0) (hlink : x.rdsLink ≠ none)
    (hnext : x.nextTaskCount = 0) :
    Leaves cfg t0 st (Request.heard cfg st reply (.index t)) (handleIndexCb st t reply) := by
  obtain ⟨h0, -⟩ := h.core.gone t (.head _)
  obtain ⟨q, k, hplaced⟩ := h.core.placed t x h.task h0
  obtain ⟨idx, hidx⟩ := Option.ne_none_iff_exists'.mp hlink
  obtain ⟨st', hok, hinv, hraise⟩ := h.drop hrounds hphase hp0
  have hheard : Request.heard cfg st reply (.index t) =
      match reply with
      | .array es => !es.isEmpty && !k.child.isEmpty && decide (idx < MAX_REDIS_SIZE) &&
        (decide (k.type ≠ .aloneIndex) || (cfg.convert k es).isSome)
      | .nil | .string _ | .other => false := by
    unfold Request.heard
    dsimp only
    rw [h.task, Option.bind_some, Option.bind_some, hidx, hplaced.tkey]
    cases reply <;> rfl
  rw [hheard]
  unfold Timport.handleIndexCb
  rw [Sys.get_eq h.task, ok_bind, hplaced.tkey]
  rw [hok]
  cases reply with
  | nil =>
    dsimp only
    split
    · exact .inl ⟨_, rfl, hraise, fun _ _ => nofun⟩
    · exact .inl ⟨_, rfl, hinv, fun _ _ => nofun⟩
  | string _ | other => exact .inl ⟨_, rfl, hraise, fun _ _ => nofun⟩
  | array es =>
    dsimp only
    by_cases hchild : k.child = []
    · rw [if_pos hchild]
      refine .inl ⟨_, rfl, hraise, fun _ _ hh => ?_⟩
      rw [hchild, isEmpty_nil, Bool.not_true, Bool.and_false, Bool.false_and] at hh
      cases hh
    rw [if_neg hchild]
    by_cases hes : es = []
    · rw [if_pos hes]
      refine .inl ⟨_, rfl, hinv, fun _ _ hh => ?_⟩
      rw [hes] at hh
      cases hh
    rw [if_neg hes]
    refine h.startIndex hrounds hphase hlink hnext hplaced.tkey hchild hes fun hh => ?_
    rw [Bool.and_eq_true, Bool.and_eq_true, Bool.or_eq_true] at hh
    refine ⟨fun idx' hidx' => ?_, fun htype => ?_⟩
    · obtain rfl : idx = idx' := Option.some.inj (hidx.symm.trans hidx')
      exact of_decide_eq_true hh.1.2
    · exact hh.2.resolve_left fun hne => of_decide_eq_true hne htype

theorem Leaving.handleSetCb (hp0 : p ≠ 0) (hlink : x.rdsLink ≠ none) (hdone : x.Done) :
    Leaves cfg t0 st (Request.heard cfg st reply (.set t)) (handleSetCb cfg st t reply) := by
  obtain ⟨h0, -⟩ := h.core.gone t (.head _)
  obtain ⟨q, k, hplaced⟩ := h.core.placed t x h.task h0
  obtain ⟨st', hok, hinv, hraise⟩ := h.drop hrounds hphase hp0
  have hheard : Request.heard cfg st reply (.set t) =
      match reply with
      | .array es => !es.isEmpty && (cfg.convert k es).isSome
      | .nil | .string _ | .other => false := by
    unfold Request.heard
    dsimp only
    rw [h.task, Option.bind_some, hplaced.tkey]
    cases reply <;> rfl
  rw [hheard]
  unfold Timport.handleSetCb
  rw [Sys.get_eq h.task, ok_bind, hok]
  cases reply with
  | nil => exact .inl ⟨_, rfl, hinv, fun _ _ => nofun⟩
  | string _ | other => exact .inl ⟨_, rfl, hraise, fun _ _ => nofun⟩
  | array es =>
    dsimp only
    by_cases hes : es = []
    · rw [if_pos hes]
      refine .inl ⟨_, rfl, hinv, fun _ _ hh => ?_⟩
      rw [hes] at hh
      cases hh
    rw [if_neg hes]
    let x₁ : Task := { x with totalResultCount := es.length, reply := some (.array es) }
    have hsame : SamePlace x x₁ := ⟨rfl, rfl, rfl⟩
    have hdone₁ : x₁.Done := hdone
    obtain ⟨st₁, hok₁, hcore, hwithin, hsmooth⟩ := handleSet_spec h.core h.task not_mem_nil
      h.parent h.notMem ⟨y, h.above⟩ hlink cfg hsame hdone₁
    rw [hok₁]
    refine Within.leaves hrounds hphase hcore hwithin fun hs hh => ?_
    rw [Bool.and_eq_true] at hh
    exact hsmooth hs ⟨k, es, hplaced.tkey, rfl, hh.2⟩

theorem Leaving.handleStringCb (hlink : x.rdsLink ≠ none) (hdone : x.Done)
    (howned : Request.owned st reply (.string t) = true) :
    Leaves cfg t0 st (Request.heard cfg st reply (.string t))
      (handleStringCb cfg now st t reply) := by
  obtain ⟨h0, -⟩ := h.core.gone t (.head _)
  obtain ⟨q, k, hplaced⟩ := h.core.placed t x h.task h0
  have hraise : Core st.raise [] t 0 ∧ Within cfg st st.raise := by
    refine ⟨?_, rfl, rfl, rfl, rfl, rfl, Iff.rfl, fun _ => rfl⟩
    refine h.core.enter_raise h.task not_mem_nil h.parent h.notMem ⟨y, h.above⟩ hlink
      ⟨rfl, rfl, rfl⟩ hdone ?_ rfl rfl rfl rfl
    rw [← h.task, update_eq_self]
    rfl
  unfold Timport.handleStringCb
  rw [Sys.get_eq h.task, ok_bind]
  cases reply with
  | nil =>
    have hends : (!endsWhole st st.next t) = true := howned
    rw [Bool.not_eq_true'] at hends
    exact (h.finish hrounds hphase hends).1
  | array _ | other => exact Within.leaves hrounds hphase hraise.1 hraise.2 fun _ => nofun
  | string s =>
    rw [hplaced.tkey]
    dsimp only
    let x₁ : Task := { x with
      totalResultCount := 1
      reply := some (.string (cfg.resultFilter k s)) }
    have hsame : SamePlace x x₁ := ⟨rfl, rfl, rfl⟩
    have hdone₁ : x₁.Done := hdone
    obtain ⟨st₁, hok₁, hcore, hwithin, hsmooth⟩ := handleString_spec h.core h.task not_mem_nil
      h.parent h.notMem ⟨y, h.above⟩ hlink cfg hsame hdone₁ _ rfl
    rw [← hplaced.tkey, hok₁]
    exact Within.leaves hrounds hphase hcore hwithin fun hs _ => hsmooth hs

theorem Leaving.tsdbSetFinishCb (hlink : x.rdsLink ≠ none) (hdone : x.Done) :
    Leaves cfg t0 st heard (tsdbSetFinishCb st t) := by
  unfold Timport.tsdbSetFinishCb
  rw [Sys.get_eq h.task, ok_bind]
  have hcore : Core (st.ask (.expire t)) [] t 0 := by
    refine h.core.enter_ask (r := .expire t) h.task not_mem_nil h.parent h.notMem
      ⟨y, h.above⟩ hlink ⟨rfl, rfl, rfl⟩ hdone rfl ⟨hlink, nofun⟩ ?_ rfl rfl rfl rfl
    rw [← h.task, update_eq_self]
    rfl
  have hwithin : Within cfg st (st.ask (.expire t)) := by
    refine ⟨rfl, rfl, rfl, rfl, rfl, ?_, id⟩
    show _ ∈ st.pending ++ [_] ↔ _
    rw [mem_append, mem_singleton]
    exact or_iff_left nofun
  exact Within.leaves hrounds hphase hcore hwithin fun hs _ => ⟨hs.quit, hs.dropped, hs.converts⟩

end Answer

--
-- Steps
--

/-- The answer of the step does not merge the sets of a key. -/
def owned (st : Sys) : Act → Bool
  | .tick _ => true
  | .answer i reply _ =>
    match st.pending[i]? with
    | none => true
    | some r => r.owned st reply

/-- The answer of the step is heard. -/
def heard (cfg : Config) (st : Sys) : Act → Bool
  | .tick _ => true
  | .answer i reply _ =>
    match st.pending[i]? with
    | none => true
    | some r => r.heard cfg st reply

/-- **Every answer** that does not merge the sets of a key keeps the invariant, and
only a server with a large number ends it. -/
theorem callback_spec (h : Inv cfg t0 st []) (hi : st.pending[i]? = some r)
    (howned : r.owned (st.without i) reply = true) :
    Leaves cfg t0 (st.without i) (r.heard cfg (st.without i) reply)
      (callback cfg now (st.without i) reply r) := by
  by_cases hstats : r = .statistics
  · subst hstats
    obtain ⟨hcore, hnot⟩ := h.take_statistics hi
    obtain ⟨hworking, hdone⟩ := h.phase.stats (mem_of_getElem? hi)
    have hrounds : Rounds cfg t0 (st.without i) :=
      ⟨h.rounds.time, h.rounds.started, h.rounds.ended⟩
    obtain ⟨hcore', hrounds', hphase', hsmooth⟩ :=
      finishRound_spec now hcore hrounds hworking hnot hdone
    exact .inl ⟨_, rfl, ⟨hcore', hrounds', hphase'⟩, fun ht hs _ => hsmooth ht hs⟩
  obtain ⟨t, ht⟩ := Option.ne_none_iff_exists'.mp (mt Request.task_eq_none.mp hstats)
  obtain ⟨p, x, y, hl, hdone, hfits, hp0, hwithin⟩ := h.take hi ht
  have hrounds := h.rounds.within hwithin
  have hphase := h.phase.within hwithin
  cases r with
  | statistics => exact absurd rfl hstats
  | index t' =>
    obtain rfl : t' = t := Option.some.inj ht
    exact hl.handleIndexCb hrounds hphase hp0 hfits.1 (hfits.2 t' rfl)
  | set t' =>
    obtain rfl : t' = t := Option.some.inj ht
    exact hl.handleSetCb hrounds hphase hp0 hfits.1 hdone
  | string t' =>
    obtain rfl : t' = t := Option.some.inj ht
    exact hl.handleStringCb hrounds hphase hfits.1 hdone howned
  | write t' =>
    obtain rfl : t' = t := Option.some.inj ht
    exact hl.tsdbSetFinishCb hrounds hphase hfits.1 hdone
  | expire t' =>
    obtain rfl : t' = t := Option.some.inj ht
    have hends : (!endsWhole (st.without i) st.next t') = true := howned
    rw [Bool.not_eq_true'] at hends
    exact (hl.finish hrounds hphase hends).2

theorem step_spec (h : Inv cfg t0 st []) {a : Act} (howned : owned st a = true) :
    Leaves cfg t0 st (heard cfg st a) (step cfg st a) := by
  cases a with
  | tick now =>
    obtain ⟨hcore, hrounds, hphase, hsmooth⟩ := timportTaskCheck_spec now h.core h.rounds h.phase
    exact .inl ⟨_, rfl, ⟨hcore, hrounds, hphase⟩, fun ht hs _ => hsmooth ht hs⟩
  | answer i reply now =>
    unfold step heard
    unfold owned at howned
    dsimp only at howned ⊢
    cases hi : st.pending[i]? with
    | none => exact .inl ⟨st, rfl, h, fun _ hs _ => hs⟩
    | some r =>
      have hsame : r.owned (st.without i) reply = r.owned st reply := Request.owned_congr rfl rfl
      rw [hi] at howned
      have hown := hsame.trans howned
      have hheard : r.heard cfg (st.without i) reply = r.heard cfg st reply :=
        Request.heard_congr rfl rfl
      dsimp only
      rw [← hheard]
      rcases callback_spec h hi hown with ⟨st', hok, hinv, hsmooth⟩ | hover
      · refine .inl ⟨st', hok, hinv, fun ht hs => hsmooth ht ?_⟩
        exact ⟨hs.quit, hs.dropped, hs.converts⟩
      · exact .inr hover

end Supex.Timport
