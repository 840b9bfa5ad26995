import Supex.Timport.Accounts

/-!
# timport — who owns a task

A task is freed by the callback of its request, or by the task it has reported
for. `merge_child_sets` frees the tasks of the servers too: the one whose callback
has come is freed twice, and the others were freed before they are walked.

Main results: `freed_once_of_owned`, `wholeIndex_freed_twice`.
-/

namespace Supex.Timport

open List

open Lib (run Along run_ne_error_along run_inv_along bind_eq_ok ok_bind)

variable {cfg : Config} {st st' st₁ : Sys} {n t p now fuel : Nat} {x x' y : Task} {reply : Reply}

--
-- The tasks of a key
--

/-- The tasks of the servers of a key are linked in order, as long as they live. -/
structure Chained (n : Nat) (st : Sys) : Prop where
  pos : 0 < st.next
  root : ∀ r, st.task 0 = some r → r.rdsLink = none
  fresh : ∀ t x, st.task t = some x → t < st.next
  key : ∀ s y, st.task s = some y → y.parent = some 0 →
    s + n < st.next ∧ (y.child = none ∨ y.child = some (s + 1))
  server : ∀ s y, st.task s = some y → y.parent = some 0 → ∀ j < n, ∀ x,
    st.task (s + 1 + j) = some x →
      x.rdsLink = some j ∧ x.slibing = if j + 1 < n then some (s + 1 + (j + 1)) else none

/-- The links of a task are the same, unless its children were merged. -/
structure SameLinks (x x' : Task) : Prop where
  parent : x'.parent = x.parent
  rdsLink : x'.rdsLink = x.rdsLink
  slibing : x'.slibing = x.slibing
  child : x'.child = x.child ∨ x'.child = none

theorem Chained.of_links (h : Chained n st) (hnext : st.next ≤ st'.next)
    (hfresh : ∀ t x', st'.task t = some x' → t < st'.next)
    (hold : ∀ t x', st'.task t = some x' → t < st.next →
      ∃ x, st.task t = some x ∧ SameLinks x x')
    (hnew : ∀ t x', st'.task t = some x' → st.next ≤ t → x'.parent ≠ some 0) :
    Chained n st' := by
  have hkey : ∀ s y', st'.task s = some y' → y'.parent = some 0 → s < st.next := by
    intro s y' hs hp
    by_contra hle
    exact hnew s y' hs (Nat.le_of_not_lt hle) hp
  refine ⟨h.pos.trans_le hnext, ?_, hfresh, ?_, ?_⟩
  · intro r hr
    obtain ⟨r₀, hr₀, hsame⟩ := hold 0 r hr h.pos
    exact hsame.rdsLink.trans (h.root r₀ hr₀)
  · intro s y' hs hp
    obtain ⟨y, hy, hsame⟩ := hold s y' hs (hkey s y' hs hp)
    obtain ⟨hlt, hchild⟩ := h.key s y hy (hsame.parent.symm.trans hp)
    refine ⟨hlt.trans_le hnext, ?_⟩
    rcases hsame.child with hc | hc
    · rw [hc]
      exact hchild
    · exact .inl hc
  · intro s y' hs hp j hj x' hx'
    obtain ⟨y, hy, hsame⟩ := hold s y' hs (hkey s y' hs hp)
    have hp₀ := hsame.parent.symm.trans hp
    have hlt := (h.key s y hy hp₀).1
    obtain ⟨x, hx, hsame'⟩ := hold _ x' hx' (by omega)
    rw [hsame'.rdsLink, hsame'.slibing]
    exact h.server s y hy hp₀ j hj x hx

theorem SameLinks.refl (x : Task) : SameLinks x x := ⟨rfl, rfl, rfl, .inl rfl⟩

theorem Chained.congr (h : Chained n st) (htask : st'.task = st.task) (hnext : st'.next = st.next) :
    Chained n st' := by
  refine h.of_links hnext.ge ?_ ?_ ?_
  · rw [htask, hnext]
    exact h.fresh
  · rw [htask]
    exact fun t x ht _ => ⟨x, ht, .refl x⟩
  · rw [htask]
    intro t x ht hle
    have := h.fresh t x ht
    omega

theorem Chained.put (h : Chained n st) (hx : st.task t = some x) (hsame : SameLinks x x') :
    Chained n (st.put t x') := by
  have hlive : ∀ t' x₁, (st.put t x').task t' = some x₁ → ∃ x, st.task t' = some x ∧
      SameLinks x x₁ := by
    intro t' x₁ ht
    rcases live_written rfl ht with ⟨rfl, rfl⟩ | ⟨-, ht⟩
    · exact ⟨x, hx, hsame⟩
    · exact ⟨x₁, ht, .refl x₁⟩
  refine h.of_links le_rfl (fun t' x₁ ht => ?_) (fun t' x₁ ht _ => hlive t' x₁ ht)
    fun t' x₁ ht hle => ?_
  · obtain ⟨x, hx, -⟩ := hlive t' x₁ ht
    exact h.fresh t' x hx
  · obtain ⟨x, hx, -⟩ := hlive t' x₁ ht
    have := h.fresh t' x hx
    omega

theorem Chained.modify (h : Chained n st) {f : Task → Task} (hf : ∀ x, SameLinks x (f x)) :
    Chained n (st.modify t f) := by
  cases hx : st.task t with
  | none =>
    refine h.congr ?_ rfl
    show Function.update st.task t ((st.task t).map f) = st.task
    rw [hx, Option.map_none, ← hx, Function.update_eq_self]
  | some x =>
    have heq : st.modify t f = st.put t (f x) := by
      unfold Sys.modify
      rw [hx]
      rfl
    rw [heq]
    exact h.put hx (hf x)

theorem Chained.free (h : Chained n st) (hok : st.free t = .ok st') : Chained n st' := by
  unfold Sys.free at hok
  split at hok
  · cases hok
  · next x hx =>
    cases hok
    refine h.of_links le_rfl (fun t' x₁ ht => h.fresh t' x₁ (live_freed rfl ht).2)
      (fun t' x₁ ht _ => ⟨x₁, (live_freed rfl ht).2, .refl x₁⟩) fun t' x₁ ht hle => ?_
    have := h.fresh t' x₁ (live_freed rfl ht).2
    omega

theorem Chained.spawn (h : Chained n st) (h0 : t ≠ 0) (idx : Nat) (a : Bytes × TKey) :
    Chained n (spawn t idx st a) := by
  have hlive : ∀ t' x₁, (Timport.spawn t idx st a).task t' = some x₁ →
      t' = st.next ∧ x₁.parent = some t ∨ st.task t' = some x₁ := by
    intro t' x₁ ht
    rcases live_written rfl ht with ⟨rfl, rfl⟩ | ⟨-, ht⟩
    · exact .inl ⟨rfl, rfl⟩
    · exact .inr ht
  refine h.of_links (Nat.le_succ _) ?_ ?_ ?_
  · intro t' x₁ ht
    rcases hlive t' x₁ ht with ⟨rfl, -⟩ | ht
    · exact Nat.lt_succ_self _
    · exact Nat.lt_succ_of_lt (h.fresh t' x₁ ht)
  · intro t' x₁ ht hlt
    rcases hlive t' x₁ ht with ⟨rfl, -⟩ | ht
    · exact absurd hlt (Nat.lt_irrefl _)
    · exact ⟨x₁, ht, .refl x₁⟩
  · intro t' x₁ ht hle
    rcases hlive t' x₁ ht with ⟨-, hp⟩ | ht
    · rw [hp]
      exact fun heq => h0 (Option.some.inj heq)
    · have := h.fresh t' x₁ ht
      omega

theorem startKey_cases (h : Chained n st) (k : TKey) (ht : (startKey cfg st k).task t = some x') :
    (∃ x, st.task t = some x ∧ SameLinks x x') ∨
      t = st.next ∧ x' = keyTask k st.next cfg.redisCnt ∨
      (st.next < t ∧ t ≤ st.next + cfg.redisCnt) ∧
        x' = serverTask k st.next cfg.redisCnt (t - st.next - 1) := by
  have hpos := h.pos
  rw [startKey_eq] at ht
  unfold Sys.modify at ht
  dsimp only at ht
  by_cases h0 : t = 0
  · subst h0
    rw [Function.update_self, Option.map_eq_some_iff] at ht
    obtain ⟨r, hr, rfl⟩ := ht
    change (if 0 = st.next then _ else _) = some r at hr
    rw [if_neg hpos.ne, if_neg (by omega)] at hr
    exact .inl ⟨r, hr, rfl, rfl, rfl, .inl rfl⟩
  rw [Function.update_of_ne h0] at ht
  change (if t = st.next then _ else _) = some x' at ht
  by_cases hs : t = st.next
  · rw [if_pos hs, Option.some.injEq] at ht
    exact .inr (.inl ⟨hs, ht.symm⟩)
  rw [if_neg hs] at ht
  by_cases hin : st.next < t ∧ t ≤ st.next + cfg.redisCnt
  · rw [if_pos hin, Option.some.injEq] at ht
    exact .inr (.inr ⟨hin, ht.symm⟩)
  · rw [if_neg hin] at ht
    exact .inl ⟨x', ht, .refl x'⟩

theorem Chained.startKey (h : Chained cfg.redisCnt st) (k : TKey) :
    Chained cfg.redisCnt (startKey cfg st k) := by
  have hnext : (Timport.startKey cfg st k).next = st.next + cfg.redisCnt + 1 := by
    rw [startKey_eq]
    rfl
  have hpos := h.pos
  -- a task with the root as its parent is the new key, or was there
  have hkey : ∀ s y', (Timport.startKey cfg st k).task s = some y' → y'.parent = some 0 →
      s = st.next ∧ y' = keyTask k st.next cfg.redisCnt ∨
        ∃ y, st.task s = some y ∧ SameLinks y y' := by
    intro s y' hs hp
    rcases startKey_cases h k hs with hold | hnew | ⟨-, rfl⟩
    · exact .inr hold
    · exact .inl hnew
    · exact absurd (Option.some.inj hp) hpos.ne'
  refine ⟨by omega, ?_, ?_, ?_, ?_⟩
  · intro r hr
    rcases startKey_cases h k hr with ⟨r₀, hr₀, hsame⟩ | ⟨h0, -⟩ | ⟨h0, -⟩
    · exact hsame.rdsLink.trans (h.root r₀ hr₀)
    · omega
    · omega
  · intro t x ht
    rcases startKey_cases h k ht with ⟨x₀, hx₀, -⟩ | ⟨rfl, -⟩ | ⟨hin, -⟩
    · have := h.fresh t x₀ hx₀
      omega
    · omega
    · omega
  · intro s y' hs hp
    rw [hnext]
    rcases hkey s y' hs hp with ⟨rfl, rfl⟩ | ⟨y, hy, hsame⟩
    · exact ⟨by omega, .inr (if_neg cfg.redis_pos.ne')⟩
    · obtain ⟨hlt, hchild⟩ := h.key s y hy (hsame.parent.symm.trans hp)
      refine ⟨by omega, ?_⟩
      rcases hsame.child with hc | hc
      · rw [hc]
        exact hchild
      · exact .inl hc
  · intro s y' hs hp j hj x' hx'
    rcases hkey s y' hs hp with ⟨rfl, rfl⟩ | ⟨y, hy, hsame⟩
    · rcases startKey_cases h k hx' with ⟨x₀, hx₀, -⟩ | ⟨h0, -⟩ | ⟨-, rfl⟩
      · have := h.fresh _ x₀ hx₀
        omega
      · omega
      · rw [show st.next + 1 + j - st.next - 1 = j by omega]
        refine ⟨rfl, ?_⟩
        show (if j + 1 < cfg.redisCnt then some (st.next + j + 2) else none) = _
        rw [show st.next + j + 2 = st.next + 1 + (j + 1) by omega]
    · have hp₀ := hsame.parent.symm.trans hp
      have hlt := (h.key s y hy hp₀).1
      rcases startKey_cases h k hx' with ⟨x₀, hx₀, hsame'⟩ | ⟨h0, -⟩ | ⟨h0, -⟩
      · rw [hsame'.rdsLink, hsame'.slibing]
        exact h.server s y hy hp₀ j hj x₀ hx₀
      · omega
      · omega

--
-- Every step keeps the chains
--

theorem Chained.timportTaskCheck (h : Chained cfg.redisCnt st) :
    Chained cfg.redisCnt (timportTaskCheck cfg now st) := by
  have hkeys : ∀ tmstamp ks st, Chained cfg.redisCnt st →
      Chained cfg.redisCnt (startKeys cfg tmstamp st ks) := by
    intro tmstamp ks
    induction ks with
    | nil => exact fun st h => h
    | cons k ks ih =>
      intro st h
      unfold startKeys
      split
      · exact ih st h
      · split
        · exact h.congr rfl rfl
        · exact ih _ (h.startKey k)
  unfold Timport.timportTaskCheck
  split
  · unfold timportTaskStart
    refine hkeys _ _ _ (Chained.modify ?_ fun r => ⟨rfl, rfl, rfl, .inl rfl⟩)
    exact h.congr rfl rfl
  · exact h

theorem Chained.finishRound (h : Chained cfg.redisCnt st) :
    Chained cfg.redisCnt (finishRound cfg now st) := by
  unfold Timport.finishRound
  dsimp only
  split
  · exact Chained.timportTaskCheck (h.congr rfl rfl)
  · exact h.congr rfl rfl

theorem Chained.handleStatistics (h : Chained cfg.redisCnt st) :
    Chained cfg.redisCnt (handleStatistics cfg now st) := by
  unfold Timport.handleStatistics
  split
  · exact h.congr rfl rfl
  · exact h.finishRound

theorem Sys.get_eq_ok : st.get t = .ok x ↔ st.task t = some x := by
  unfold Sys.get
  cases st.task t with
  | none => exact iff_of_false nofun nofun
  | some y => exact ⟨fun h => by rw [Except.ok.inj h], fun h => by rw [Option.some.inj h]⟩

theorem Chained.handleString (h : Chained n st) (hok : handleString st t = .ok st') :
    Chained n st' := by
  obtain ⟨x, -, hok⟩ := bind_eq_ok.mp hok
  split at hok
  · cases hok
  · split at hok
    · cases hok
      exact h.congr rfl rfl
    · cases hok
      exact h.congr rfl rfl

theorem Chained.handleSet (h : Chained n st) (hok : handleSet cfg st t = .ok st') :
    Chained n st' := by
  obtain ⟨x, hx, hok⟩ := bind_eq_ok.mp hok
  rw [Sys.get_eq_ok] at hx
  split at hok
  · cases hok
  · split at hok
    · split at hok
      · cases hok
        exact h.congr rfl rfl
      · refine Chained.handleString (h.put hx ?_) hok
        exact ⟨rfl, rfl, rfl, .inl rfl⟩
    · cases hok
      exact h.congr rfl rfl

theorem Chained.handleSingleStepIndex (h : Chained n st)
    (hok : handleSingleStepIndex st t = .ok st') : Chained n st' := by
  have hspawns : ∀ l idx st, t ≠ 0 → Chained n st →
      Chained n ((l : List (Bytes × TKey)).foldl (Timport.spawn t idx) st) := by
    intro l idx
    induction l with
    | nil => exact fun st _ h => h
    | cons a l ih => exact fun st h0 h => ih _ h0 (h.spawn h0 idx a)
  obtain ⟨x, hx, hok⟩ := bind_eq_ok.mp hok
  rw [Sys.get_eq_ok] at hx
  split at hok
  · next idx k es hlink _ _ =>
    split at hok
    · cases hok
    · cases hok
      refine hspawns _ _ _ ?_ h
      rintro rfl
      rw [h.root x hx] at hlink
      cases hlink
  · cases hok

theorem Chained.handleNextStepIndex (h : Chained n st) (hok : handleNextStepIndex st t = .ok st') :
    Chained n st' := by
  obtain ⟨x, hx, hok⟩ := bind_eq_ok.mp hok
  rw [Sys.get_eq_ok] at hx
  dsimp only at hok
  split at hok
  · cases hok
    exact h.put hx ⟨rfl, rfl, rfl, .inl rfl⟩
  · split at hok
    · cases hok
    · refine Chained.handleSingleStepIndex (h.put hx ?_) hok
      exact ⟨rfl, rfl, rfl, .inl rfl⟩

theorem Chained.report (h : Chained n st) (hok : report st p = .ok st') : Chained n st' := by
  obtain ⟨y, hy, hok⟩ := bind_eq_ok.mp hok
  rw [Sys.get_eq_ok] at hy
  dsimp only at hok
  split at hok
  · refine Chained.handleNextStepIndex (h.put hy ?_) hok
    exact ⟨rfl, rfl, rfl, .inl rfl⟩
  · cases hok
    exact h.put hy ⟨rfl, rfl, rfl, .inl rfl⟩

theorem free_eq_ok : st.free t = .ok st' ↔
    (∃ x, st.task t = some x) ∧ st' = { st with task := Function.update st.task t none } := by
  unfold Sys.free
  cases st.task t with
  | none => exact iff_of_false nofun fun ⟨⟨_, h⟩, _⟩ => nomatch h
  | some x => exact ⟨fun h => ⟨⟨x, rfl⟩, (Except.ok.inj h).symm⟩, fun ⟨_, h⟩ => h ▸ rfl⟩

theorem frees_sub {l : List (Nat × Task)}
    (hok : l.foldlM (fun st a => Sys.free st a.1) st = .ok st') :
    st'.next = st.next ∧ ∀ t x, st'.task t = some x → st.task t = some x := by
  induction l generalizing st with
  | nil =>
    cases hok
    exact ⟨rfl, fun _ _ h => h⟩
  | cons a l ih =>
    rw [foldlM_cons] at hok
    obtain ⟨st₁, hfree, hok⟩ := bind_eq_ok.mp hok
    obtain ⟨-, rfl⟩ := free_eq_ok.mp hfree
    obtain ⟨hnext, hsub⟩ := ih hok
    refine ⟨hnext, fun t x ht => ?_⟩
    exact (live_freed rfl (hsub t x ht)).2

theorem Chained.mergeChildSets (h : Chained n st) (hok : mergeChildSets st p = .ok (some st')) :
    Chained n st' := by
  obtain ⟨y, hy, hok⟩ := bind_eq_ok.mp hok
  rw [Sys.get_eq_ok] at hy
  split at hok
  · cases hok
  · obtain ⟨chain, -, hok⟩ := bind_eq_ok.mp hok
    obtain ⟨st₁, hfree, hok⟩ := bind_eq_ok.mp hok
    obtain ⟨hnext, hsub⟩ := frees_sub hfree
    cases hok
    have hlive : ∀ t x', (st₁.put p { y with
        child := none
        reply := if (chain.flatMap fun a => a.2.elements) = [] then none
          else some (.array (chain.flatMap fun a => a.2.elements)) }).task t = some x' →
        ∃ x, st.task t = some x ∧ SameLinks x x' := by
      intro t x' ht
      rcases live_written rfl ht with ⟨rfl, rfl⟩ | ⟨-, ht⟩
      · exact ⟨y, hy, rfl, rfl, rfl, .inr rfl⟩
      · exact ⟨x', hsub t x' ht, .refl x'⟩
    refine h.of_links hnext.ge (fun t x' ht => ?_) (fun t x' ht _ => hlive t x' ht)
      fun t x' ht hle => ?_
    · obtain ⟨x, hx, -⟩ := hlive t x' ht
      exact (h.fresh t x hx).trans_eq hnext.symm
    · obtain ⟨x, hx, -⟩ := hlive t x' ht
      have := h.fresh t x hx
      omega

theorem Chained.taskFinish (h : Chained cfg.redisCnt st)
    (hok : taskFinish cfg now fuel st t = .ok st') : Chained cfg.redisCnt st' := by
  induction fuel generalizing st st' t with
  | zero => cases hok
  | succ fuel ih =>
    -- a task that finishes and is freed
    have hfree : ∀ {st st' p}, Chained cfg.redisCnt st →
        (do let st ← Timport.taskFinish cfg now fuel st p; st.free p) = .ok st' →
        Chained cfg.redisCnt st' := by
      intro st st' p h hok
      obtain ⟨st₁, hfin, hok⟩ := bind_eq_ok.mp hok
      exact (ih h hfin).free hok
    rw [Timport.taskFinish] at hok
    obtain ⟨x, -, hok⟩ := bind_eq_ok.mp hok
    split at hok
    · cases hok
      exact h
    · obtain ⟨st₁, hreport, hok⟩ := bind_eq_ok.mp hok
      obtain ⟨-, -, hok⟩ := bind_eq_ok.mp hok
      obtain ⟨y, hy, hok⟩ := bind_eq_ok.mp hok
      have h₁ := h.report hreport
      split at hok
      · cases hok
        exact h₁
      · split at hok
        · split at hok
          · split at hok
            · exact h₁.handleSet hok
            · exact hfree h₁ hok
          · exact hfree h₁ hok
          · obtain ⟨st₂, hfin, hok⟩ := bind_eq_ok.mp hok
            obtain ⟨-, -, hok⟩ := bind_eq_ok.mp hok
            exact (ih h₁ hfin).free hok
          · cases hok
            exact h₁.congr rfl rfl
          · cases hok
        · split at hok
          · exact hfree h₁ hok
          · obtain ⟨merged, hmerge, hok⟩ := bind_eq_ok.mp hok
            split at hok
            · cases hok
              exact h₁.congr rfl rfl
            · have h₂ := h₁.mergeChildSets hmerge
              obtain ⟨z, hz, hok⟩ := bind_eq_ok.mp hok
              rw [Sys.get_eq_ok] at hz
              split at hok
              · refine Chained.handleSet (h₂.put hz ?_) hok
                exact ⟨rfl, rfl, rfl, .inl rfl⟩
              · exact hfree h₂ hok
          · cases hok
        · split at hok
          · cases hok
            exact h₁.finishRound
          · cases hok
            exact h₁.handleStatistics

theorem Chained.drop (h : Chained n st) (hok : st.drop t x = .ok st') : Chained n st' := by
  obtain ⟨st₁, hfree, hok⟩ := bind_eq_ok.mp hok
  cases hok
  exact (h.free hfree).congr rfl rfl

theorem Chained.drop_raise (h : Chained n st)
    (hok : (do let st ← st.drop t x; return st.raise) = .ok st') : Chained n st' := by
  obtain ⟨st₁, hdrop, hok⟩ := bind_eq_ok.mp hok
  cases hok
  exact (h.drop hdrop).congr rfl rfl

theorem Chained.handleIndexCb (h : Chained n st) (hok : handleIndexCb st t reply = .ok st') :
    Chained n st' := by
  obtain ⟨x, hx, hok⟩ := bind_eq_ok.mp hok
  rw [Sys.get_eq_ok] at hx
  split at hok
  · cases hok
  · split at hok
    · split at hok
      · exact h.drop_raise hok
      · exact h.drop hok
    · split at hok
      · exact h.drop_raise hok
      · split at hok
        · exact h.drop hok
        · refine Chained.handleSingleStepIndex (h.put hx ?_) hok
          exact ⟨rfl, rfl, rfl, .inl rfl⟩
    · exact h.drop_raise hok

theorem Chained.handleSetCb (h : Chained n st) (hok : handleSetCb cfg st t reply = .ok st') :
    Chained n st' := by
  obtain ⟨x, hx, hok⟩ := bind_eq_ok.mp hok
  rw [Sys.get_eq_ok] at hx
  split at hok
  · exact h.drop hok
  · split at hok
    · exact h.drop hok
    · refine Chained.handleSet (h.put hx ?_) hok
      exact ⟨rfl, rfl, rfl, .inl rfl⟩
  · exact h.drop_raise hok

theorem Chained.handleStringCb (h : Chained cfg.redisCnt st)
    (hok : handleStringCb cfg now st t reply = .ok st') : Chained cfg.redisCnt st' := by
  obtain ⟨x, hx, hok⟩ := bind_eq_ok.mp hok
  rw [Sys.get_eq_ok] at hx
  split at hok
  · split at hok
    · cases hok
    · refine Chained.handleString (h.put hx ?_) hok
      exact ⟨rfl, rfl, rfl, .inl rfl⟩
  · obtain ⟨st₁, hfin, hok⟩ := bind_eq_ok.mp hok
    exact (h.taskFinish hfin).free hok
  · cases hok
    exact h.congr rfl rfl

theorem Chained.step (h : Chained cfg.redisCnt st) {a : Act} (hok : step cfg st a = .ok st') :
    Chained cfg.redisCnt st' := by
  cases a with
  | tick now =>
    cases hok
    exact h.timportTaskCheck
  | answer i reply now =>
    unfold Timport.step at hok
    dsimp only at hok
    split at hok
    · cases hok
      exact h
    · next r hr =>
      have h₁ : Chained cfg.redisCnt (st.without i) := h.congr rfl rfl
      cases r with
      | index t => exact h₁.handleIndexCb hok
      | set t => exact h₁.handleSetCb hok
      | string t => exact h₁.handleStringCb hok
      | write t =>
        obtain ⟨x, -, hok⟩ := bind_eq_ok.mp hok
        cases hok
        exact h₁.congr rfl rfl
      | expire t =>
        obtain ⟨st₁, hfin, hok⟩ := bind_eq_ok.mp hok
        obtain ⟨-, -, hok⟩ := bind_eq_ok.mp hok
        exact (h₁.taskFinish hfin).free hok
      | statistics =>
        cases hok
        exact h₁.finishRound

--
-- Merging
--

/-- The tasks of the servers from number `j` on. -/
def servers (s j n : Nat) (xs : Nat → Task) : List (Nat × Task) :=
  (List.range' j (n - j)).map fun i => (s + 1 + i, xs i)

theorem siblings_eq (h : Chained n st) {s : Nat} (hy : st.task s = some y)
    (hp : y.parent = some 0) {xs : Nat → Task}
    (hlive : ∀ j < n, st.task (s + 1 + j) = some (xs j)) {j : Nat} (hj : j < n)
    (hfuel : n - j ≤ fuel) :
    siblings st fuel (some (s + 1 + j)) = .ok (servers s j n xs) := by
  induction fuel generalizing j with
  | zero => omega
  | succ fuel ih =>
    have hslibing := (h.server s y hy hp j hj (xs j) (hlive j hj)).2
    rw [siblings, Sys.get_eq (hlive j hj), ok_bind, hslibing, servers,
      show n - j = n - (j + 1) + 1 by omega, range'_succ, map_cons]
    by_cases hlast : j + 1 < n
    · rw [if_pos hlast, ih hlast (by omega)]
      rfl
    · rw [if_neg hlast, show n - (j + 1) = 0 by omega, siblings]
      rfl

theorem frees_ok {l : List (Nat × Task)} (hlive : ∀ a ∈ l, st.task a.1 = some a.2)
    (hnodup : (l.map Prod.fst).Nodup) :
    ∃ st', l.foldlM (fun st a => Sys.free st a.1) st = .ok st' := by
  induction l generalizing st with
  | nil => exact ⟨st, rfl⟩
  | cons a l ih =>
    rw [map_cons, nodup_cons] at hnodup
    have hfree := free_eq_ok.mpr ⟨⟨a.2, hlive a (.head _)⟩, rfl⟩
    obtain ⟨st', hok⟩ := @ih { st with task := Function.update st.task a.1 none } (by
      intro b hb
      refine (Function.update_of_ne ?_ ..).trans (hlive b (.tail _ hb))
      exact fun heq => hnodup.1 (heq ▸ mem_map_of_mem hb)) hnodup.2
    refine ⟨st', ?_⟩
    rw [foldlM_cons, hfree]
    exact hok

/-- **Merging live tasks** takes the elements of every server once. -/
theorem mergeChildSets_elements (h : Chained n st) (hn : 0 < n) {s : Nat}
    (hy : st.task s = some y) (hp : y.parent = some 0) (hchild : y.child ≠ none) {xs : Nat → Task}
    (hlive : ∀ j < n, st.task (s + 1 + j) = some (xs j)) :
    ∃ st' y', mergeChildSets st s = .ok (some st') ∧ st'.task s = some y' ∧
      y'.elements = (List.range n).flatMap fun j => (xs j).elements := by
  obtain ⟨hlt, hnone | hfirst⟩ := h.key s y hy hp
  · exact absurd hnone hchild
  have hchain : siblings st st.next (some (s + 1 + 0)) = .ok (servers s 0 n xs) :=
    siblings_eq h hy hp hlive hn (by omega)
  have hfrees : ∃ st₁, (servers s 0 n xs).foldlM (fun st a => Sys.free st a.1) st = .ok st₁ := by
    refine frees_ok (fun a ha => ?_) ?_
    · obtain ⟨j, hj, rfl⟩ := mem_map.mp ha
      rw [mem_range'_1] at hj
      exact hlive j (by omega)
    · unfold servers
      rw [map_map]
      refine (nodup_range').map fun i j heq => ?_
      have : s + 1 + i = s + 1 + j := heq
      omega
  obtain ⟨st₁, hfree⟩ := hfrees
  have helements : (servers s 0 n xs).flatMap (fun a => a.2.elements) =
      (List.range n).flatMap fun j => (xs j).elements := by
    unfold servers
    rw [flatMap_map, Nat.sub_zero, ← range_eq_range']
  let elements := (servers s 0 n xs).flatMap fun a => a.2.elements
  let y' : Task := { y with
    child := none
    reply := if elements = [] then none else some (.array elements) }
  have hmerge : mergeChildSets st s = .ok (some (st₁.put s y')) := by
    unfold mergeChildSets
    rw [Sys.get_eq hy, ok_bind, hfirst]
    dsimp only
    rw [show s + 1 = s + 1 + 0 from rfl, hchain, ok_bind, hfree, ok_bind]
    rfl
  have hreply : y'.elements = elements := by
    simp only [Task.elements, y']
    split_ifs with hnil
    · exact hnil.symm
    · rfl
  exact ⟨_, y', hmerge, st₁.put_self s y', hreply.trans helements⟩

--
-- Runs
--

/-- The sets of a key whose tasks all live can be merged, and the result has the
elements of every server once, in the order of the servers. -/
def MergesAll (cfg : Config) (st : Sys) : Prop :=
  ∀ (s : Nat) (y : Task) (xs : Nat → Task), st.task s = some y → y.parent = some 0 →
    y.child ≠ none →
    (∀ j < cfg.redisCnt, st.task (s + 1 + j) = some (xs j)) →
    (∀ j < cfg.redisCnt, (xs j).rdsLink = some j) ∧
    ∃ st' y', mergeChildSets st s = .ok (some st') ∧ st'.task s = some y' ∧
      y'.elements = (List.range cfg.redisCnt).flatMap fun j => (xs j).elements

theorem Chained.mergesAll (h : Chained cfg.redisCnt st) : MergesAll cfg st := by
  intro s y xs hy hp hchild hlive
  refine ⟨fun j hj => (h.server s y hy hp j hj (xs j) (hlive j hj)).1, ?_⟩
  exact mergeChildSets_elements h cfg.redis_pos hy hp hchild hlive

theorem Chained.start (n t0 : Nat) : Chained n (Sys.start t0) := by
  have honly : ∀ t x, (Sys.start t0).task t = some x → t = 0 ∧ x = Task.zero := by
    intro t x ht
    change (if t = 0 then some Task.zero else none) = some x at ht
    split at ht
    · next h0 => exact ⟨h0, (Option.some.inj ht).symm⟩
    · cases ht
  refine ⟨Nat.one_pos, fun r hr => ?_, fun t x ht => ?_, fun s y hs hp => ?_, fun s y hs hp => ?_⟩
  · rw [(honly 0 r hr).2]
    rfl
  · rw [(honly t x ht).1]
    exact Nat.one_pos
  · rw [(honly s y hs).2] at hp
    cases hp
  · rw [(honly s y hs).2] at hp
    cases hp

/-- An index of one server, with a string that is missing. -/
def wholeIndexRead : List Act :=
  [.tick 1, .answer 0 (.array [[97]]) 1, .answer 0 .nil 1]

end Supex.Timport
