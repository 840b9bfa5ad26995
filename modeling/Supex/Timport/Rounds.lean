import Supex.Timport.Report
import Mathlib.Order.Interval.Finset.Nat

/-!
# timport — rounds

* `startKey_eq` — the tasks for a key: one for the key, and one for each server.
* `timportTaskCheck_spec`, `finishRound_spec` — a round starts, and one ends.
-/

namespace Supex.Timport

open Function (update update_apply update_of_ne update_self)

variable {cfg : Config} {st st' : Sys} {Z : List Nat} {o m t p t0 : Nat} {x y : Task}

--
-- Where a round is
--

/-- The keys that are imported at a time. -/
def imported (cfg : Config) (tmstamp : Nat) : List TKey :=
  cfg.tktree.filter fun k => !skipped cfg tmstamp k

/-- One round ends for each that has started, with all its tasks finished. -/
structure Rounds (cfg : Config) (t0 : Nat) (st : Sys) : Prop where
  time : st.startTmstamp = t0 + cfg.interval * st.ended.length
  started : st.started = st.ended.length + if st.working = true then 1 else 0
  ended : ∀ e ∈ st.ended, e.pending = [] ∧
    ∀ t x, e.task t = some x → x.finishTaskCount = x.totalTaskCount

/-- Without a round the root is not waited for; in a round it is, unless nothing
was imported. -/
structure Phase (cfg : Config) (st : Sys) : Prop where
  idle : st.working = false →
    (∀ r, st.task 0 = some r → r.finishTaskCount = r.totalTaskCount) ∧ .statistics ∉ st.pending
  stats : .statistics ∈ st.pending → st.working = true ∧
    ∀ r, st.task 0 = some r → r.finishTaskCount = r.totalTaskCount
  busy : st.working = true → st.quit = false → ∀ r, st.task 0 = some r →
    r.totalTaskCount = (imported cfg st.startTmstamp).length ∧
      (.statistics ∈ st.pending ∨ r.finishTaskCount < r.totalTaskCount ∨ r.totalTaskCount = 0)

theorem Rounds.within (h : Rounds cfg t0 st) (hw : Within cfg st st') : Rounds cfg t0 st' := by
  refine ⟨?_, ?_, ?_⟩
  · rw [hw.startTmstamp, hw.ended]
    exact h.time
  · rw [hw.started, hw.ended, hw.working]
    exact h.started
  · rw [hw.ended]
    exact h.ended

theorem Phase.within (h : Phase cfg st) (hw : Within cfg st st') : Phase cfg st' := by
  refine ⟨?_, ?_, ?_⟩
  · rw [hw.working, hw.root, hw.stats]
    exact h.idle
  · rw [hw.working, hw.root, hw.stats]
    exact h.stats
  · rw [hw.working, hw.root, hw.stats, hw.startTmstamp]
    refine fun hworking hquit => h.busy hworking ?_
    cases hq : st.quit with
    | false => rfl
    | true =>
      rw [hw.quit hq] at hquit
      cases hquit

theorem Core.rest (h : Core st Z o 0) {r : Task} (hr : st.task 0 = some r)
    (hdone : r.finishTaskCount = r.totalTaskCount) (hstats : .statistics ∉ st.pending) :
    st.pending = [] ∧ ∀ t x, st.task t = some x → x.finishTaskCount = x.totalTaskCount := by
  obtain ⟨r', hr', -, hlink, -⟩ := h.root
  rw [hr, Option.some.injEq] at hr'
  subst hr'
  have hnokids : kids st Z 0 = ∅ := by
    have hcount := h.count 0 r hr h.zero_notMem
    have hcreated : r.created = r.totalTaskCount := if_pos hlink
    refine Finset.card_eq_zero.mp ?_
    omega
  -- by induction on the number: the parent has a smaller one
  have hall : ∀ t x, st.task t = some x → t ≠ 0 → t ∈ Z := by
    intro t
    induction t using Nat.strong_induction_on with
    | _ t ih =>
      intro x hx h0
      by_contra hZ
      obtain ⟨p, k, hplaced⟩ := h.placed t x hx h0
      obtain ⟨hpZ, y, hy⟩ := h.held t x p hx hZ hplaced.parent
      by_cases hp0 : p = 0
      · have hmem : t ∈ kids st Z 0 :=
          mem_kids.mpr ⟨h.fresh t x hx, hZ, x, hx, hp0 ▸ hplaced.parent⟩
        rw [hnokids] at hmem
        exact Finset.notMem_empty t hmem
      · exact hpZ (ih p hplaced.lt y hy hp0)
  refine ⟨List.eq_nil_iff_forall_not_mem.mpr fun r₁ hr₁ => ?_, fun t x hx => ?_⟩
  · cases hrt : r₁.task with
    | none =>
      have : r₁ = .statistics := by
        cases r₁ with
        | statistics => rfl
        | index _ | set _ | string _ | write _ | expire _ => cases hrt
      exact hstats (this ▸ hr₁)
    | some t =>
      obtain ⟨h0, hZ, x, hx, -⟩ := h.asks r₁ hr₁ t hrt
      exact hZ (hall t x hx h0)
  · by_cases h0 : t = 0
    · subst h0
      rw [hr, Option.some.injEq] at hx
      exact hx ▸ hdone
    · obtain ⟨-, -, x', hx', hfin⟩ := h.gone t (hall t x hx h0)
      rw [hx, Option.some.injEq] at hx'
      exact hx' ▸ hfin.1

--
-- The tasks of a key
--

/-- The task of a key, with the tasks of `n` servers. -/
def keyTask (k : TKey) (s n : Nat) : Task :=
  { Task.zero with
    tkey := if n = 0 then none else some k
    totalTaskCount := n
    child := if n = 0 then none else some (s + 1)
    parent := some 0 }

/-- The task of a server. -/
def serverTask (k : TKey) (s n j : Nat) : Task :=
  { Task.zero with
    tkey := some k
    rdsLink := some j
    slibing := if j + 1 < n then some (s + j + 2) else none
    parent := some s }

/-- The system with the tasks of a key that has number `s`. -/
def withServers (st : Sys) (k : TKey) (s n : Nat) : Sys :=
  { st with
    task := fun t =>
      if t = s then some (keyTask k s n)
      else if s < t ∧ t ≤ s + n then some (serverTask k s n (t - s - 1))
      else st.task t
    next := s + n + 1
    pending := st.pending ++ (List.range n).map fun j => .index (s + j + 1) }

theorem foldl_startServer (st : Sys) (k : TKey) (n : Nat) :
    (List.range n).foldl (startServer k st.next)
        (st.alloc { Task.zero with parent := some 0 }, none) =
      (withServers st k st.next n, if n = 0 then none else some (st.next + n)) := by
  induction n with
  | zero =>
    refine Prod.ext ?_ rfl
    show Sys.alloc st _ = _
    unfold Sys.alloc withServers
    rw [List.range_zero, List.map_nil, List.append_nil]
    congr 1
    funext t
    rw [update_apply]
    split
    · rfl
    · rw [if_neg (by omega)]
  | succ n ih =>
    rw [List.range_succ, List.foldl_append, ih, List.foldl_cons, List.foldl_nil,
      if_neg (Nat.succ_ne_zero n)]
    refine Prod.ext ?_ rfl
    unfold startServer Sys.ask
    rw [withServers, withServers, List.range_succ, List.map_append, ← List.append_assoc]
    cases n with
    | zero =>
      rw [if_pos rfl]
      unfold Sys.modify Sys.alloc
      dsimp only
      congr 1
      funext t
      by_cases hself : t = st.next
      · subst hself
        simp [keyTask]
      by_cases hnew : t = st.next + 1
      · subst hnew
        simp [serverTask, Task.zero]
      · simp only [update_apply, Nat.add_zero, if_neg hself, if_neg hnew]
        rw [if_neg (by omega), if_neg (by omega)]
    | succ n =>
      rw [if_neg (Nat.succ_ne_zero n)]
      unfold Sys.modify Sys.alloc
      dsimp only
      congr 1
      funext t
      by_cases hself : t = st.next
      · subst hself
        rw [update_of_ne (by omega), update_self,
          update_of_ne (by omega),
          if_pos rfl, if_pos rfl]
        rfl
      by_cases hnew : t = st.next + (n + 1) + 1
      · subst hnew
        rw [update_of_ne (by omega), update_of_ne (by omega),
          update_self,
          if_neg (by omega), if_pos (by omega), serverTask, if_neg (by omega)]
        congr 3
        omega
      by_cases hlast : t = st.next + (n + 1)
      · subst hlast
        rw [update_self, update_of_ne (by omega),
          update_of_ne (by omega),
          if_neg (by omega), if_pos (by omega), if_neg (by omega), if_pos (by omega), serverTask,
          serverTask, if_neg (by omega), if_pos (by omega), Option.map_some]
        congr 3
        omega
      rw [update_of_ne hlast, update_of_ne hself, update_of_ne hnew,
        if_neg hself, if_neg hself]
      by_cases hin : st.next < t ∧ t ≤ st.next + (n + 1)
      · rw [if_pos hin, if_pos (by omega), serverTask, serverTask, if_pos (by omega),
          if_pos (by omega)]
      · rw [if_neg hin, if_neg (by omega)]

/-- The root with one more task. -/
def Task.more (r : Task) : Task := { r with totalTaskCount := r.totalTaskCount + 1 }

theorem startKey_eq (cfg : Config) (st : Sys) (k : TKey) :
    startKey cfg st k = (withServers st k st.next cfg.redisCnt).modify 0 Task.more := by
  unfold startKey
  dsimp only
  rw [foldl_startServer]
  rfl

/-- What is where when a key has started. -/
structure KeyStarted (st st' : Sys) (k : TKey) (n : Nat) (r : Task) : Prop where
  root : st'.task 0 = some r.more
  key : st'.task st.next = some (keyTask k st.next n)
  server : ∀ t, st.next < t → t ≤ st.next + n →
    st'.task t = some (serverTask k st.next n (t - st.next - 1))
  other : ∀ t, t ≠ 0 → (t < st.next ∨ st.next + n < t) → st'.task t = st.task t
  next : st'.next = st.next + n + 1
  pending : st'.pending = st.pending ++ (List.range n).map fun j => .index (st.next + j + 1)
  quit : st'.quit = st.quit
  dropped : st'.dropped = st.dropped
  working : st'.working = st.working
  startTmstamp : st'.startTmstamp = st.startTmstamp
  started : st'.started = st.started
  ended : st'.ended = st.ended

theorem keyStarted (cfg : Config) (k : TKey) {r : Task} (hr : st.task 0 = some r)
    (hnext : 0 < st.next) : KeyStarted st (startKey cfg st k) k cfg.redisCnt r := by
  rw [startKey_eq]
  refine ⟨?_, ?_, ?_, ?_, rfl, rfl, rfl, rfl, rfl, rfl, rfl, rfl⟩
  · unfold Sys.modify
    dsimp only
    rw [update_self]
    show Option.map _ (if 0 = st.next then _ else _) = _
    rw [if_neg hnext.ne, if_neg (by omega), hr]
    rfl
  · show update _ 0 _ _ = _
    rw [update_of_ne hnext.ne']
    exact if_pos rfl
  · intro t hlow hhigh
    show update _ 0 _ _ = _
    rw [update_of_ne (by omega)]
    show (if t = st.next then _ else _) = _
    rw [if_neg hlow.ne', if_pos ⟨hlow, hhigh⟩]
  · intro t h0 hout
    show update _ 0 _ _ = _
    rw [update_of_ne h0]
    show (if t = st.next then _ else _) = _
    rw [if_neg (by omega), if_neg (by omega)]

section KeyStarted

variable {k : TKey} {n : Nat} {r : Task} (hk : KeyStarted st st' k n r)
include hk

theorem KeyStarted.cases (ht : st'.task t = some x) :
    t = 0 ∧ x = r.more ∨ t = st.next ∧ x = keyTask k st.next n ∨
      (st.next < t ∧ t ≤ st.next + n) ∧ x = serverTask k st.next n (t - st.next - 1) ∨
      t ≠ 0 ∧ st.task t = some x := by
  by_cases h0 : t = 0
  · rw [h0, hk.root, Option.some.injEq] at ht
    exact .inl ⟨h0, ht.symm⟩
  by_cases hs : t = st.next
  · rw [hs, hk.key, Option.some.injEq] at ht
    exact .inr (.inl ⟨hs, ht.symm⟩)
  by_cases hin : st.next < t ∧ t ≤ st.next + n
  · rw [hk.server t hin.1 hin.2, Option.some.injEq] at ht
    exact .inr (.inr (.inl ⟨hin, ht.symm⟩))
  · rw [hk.other t h0 (by omega)] at ht
    exact .inr (.inr (.inr ⟨h0, ht⟩))

theorem KeyStarted.old (h : Core st Z o m) (h0 : t ≠ 0) (ht : st.task t = some x) :
    st'.task t = some x := by
  rw [hk.other t h0 (.inl (h.fresh t x ht))]
  exact ht

theorem KeyStarted.live (h : Core st Z o m) (ht : st.task t = some x) :
    ∃ x', st'.task t = some x' := by
  by_cases h0 : t = 0
  · exact ⟨r.more, h0 ▸ hk.root⟩
  · exact ⟨x, hk.old h h0 ht⟩

theorem KeyStarted.kids (h : Core st Z o m) (hr : st.task 0 = some r) (q : Nat) :
    (kids st' Z q).card = (kids st Z q).card + (if q = 0 then 1 else 0) +
      if q = st.next then n else 0 := by
  obtain ⟨r', hr', hparent, -⟩ := h.root
  rw [hr, Option.some.injEq] at hr'
  subst hr'
  have hpos := h.next_pos
  have hmem : ∀ t, t ∈ Timport.kids st' Z q ↔ t ∈ Timport.kids st Z q ∨
      t = st.next ∧ q = 0 ∨ t ∈ Finset.Ioc st.next (st.next + n) ∧ q = st.next := by
    intro t
    rw [mem_kids, mem_kids, hk.next, Finset.mem_Ioc]
    constructor
    · rintro ⟨-, hZ, x, hx, hq⟩
      rcases hk.cases hx with ⟨-, rfl⟩ | ⟨rfl, rfl⟩ | ⟨hin, rfl⟩ | ⟨h0, hx⟩
      · rw [show r.more.parent = none from hparent] at hq
        cases hq
      · exact .inr (.inl ⟨rfl, (Option.some.inj hq).symm⟩)
      · exact .inr (.inr ⟨hin, (Option.some.inj hq).symm⟩)
      · exact .inl ⟨h.fresh t x hx, hZ, x, hx, hq⟩
    · rintro (⟨hlt, hZ, x, hx, hq⟩ | ⟨rfl, rfl⟩ | ⟨hin, rfl⟩)
      · have h0 : t ≠ 0 := by
          rintro rfl
          rw [hr, Option.some.injEq] at hx
          rw [← hx, hparent] at hq
          cases hq
        exact ⟨by omega, hZ, x, hk.old h h0 hx, hq⟩
      · exact ⟨by omega, h.fresh_notMem le_rfl, _, hk.key, rfl⟩
      · exact ⟨by omega, h.fresh_notMem hin.1.le, _, hk.server t hin.1 hin.2, rfl⟩
  by_cases hq0 : q = 0
  · have hinsert : Timport.kids st' Z q = insert st.next (Timport.kids st Z q) := by
      ext t
      rw [hmem, Finset.mem_insert]
      simp [hq0, hpos.ne, or_comm]
    have hfresh : st.next ∉ Timport.kids st Z q := fun hin => (mem_kids.mp hin).1.ne rfl
    rw [hinsert, Finset.card_insert_of_notMem hfresh, if_pos hq0, if_neg (by omega)]
  by_cases hqs : q = st.next
  · have hnone := h.kids_fresh hqs.ge
    have hioc : Timport.kids st' Z q = Finset.Ioc st.next (st.next + n) := by
      ext t
      rw [hmem, hnone]
      simp [hqs]
      intro _ h0
      omega
    rw [hioc, hnone, Nat.card_Ioc, Finset.card_empty, if_neg hq0, if_pos hqs]
    omega
  · have hsame : Timport.kids st' Z q = Timport.kids st Z q := by
      ext t
      rw [hmem]
      simp [hq0, hqs]
    rw [hsame, if_neg hq0, if_neg hqs]
    rfl

theorem KeyStarted.asked (t : Nat) :
    Timport.asked st' t ↔ Timport.asked st t ∨ st.next < t ∧ t ≤ st.next + n := by
  unfold Timport.asked
  rw [hk.pending]
  constructor
  · rintro ⟨r₁, hr₁, ht⟩
    rcases List.mem_append.mp hr₁ with hr₁ | hr₁
    · exact .inl ⟨r₁, hr₁, ht⟩
    · obtain ⟨j, hj, rfl⟩ := List.mem_map.mp hr₁
      rw [List.mem_range] at hj
      have heq : st.next + j + 1 = t := Option.some.inj ht
      omega
  · rintro (⟨r₁, hr₁, ht⟩ | ⟨hlow, hhigh⟩)
    · exact ⟨r₁, List.mem_append_left _ hr₁, ht⟩
    · refine ⟨.index t, List.mem_append_right _ (List.mem_map.mpr ⟨t - st.next - 1, ?_, ?_⟩), rfl⟩
      · rw [List.mem_range]
        omega
      · congr 1
        omega

theorem KeyStarted.core (h : Core st Z o 0) (hr : st.task 0 = some r) (hn : 0 < n)
    (hloaded : k.Loaded) : Core st' Z o 0 := by
  obtain ⟨r', hr', hparent, hlink, hnext⟩ := h.root
  rw [hr, Option.some.injEq] at hr'
  subst hr'
  have hpos := h.next_pos
  have hkey : (keyTask k st.next n).tkey = some k := if_neg hn.ne'
  constructor
  case root => exact ⟨r.more, hk.root, hparent, hlink, hnext⟩
  case fresh =>
    intro t x ht
    rw [hk.next]
    rcases hk.cases ht with ⟨rfl, -⟩ | ⟨rfl, -⟩ | ⟨hin, -⟩ | ⟨-, ht⟩
    · omega
    · omega
    · omega
    · have := h.fresh t x ht
      omega
  case placed =>
    intro t x ht h0
    rcases hk.cases ht with ⟨rfl, -⟩ | ⟨rfl, rfl⟩ | ⟨hin, rfl⟩ | ⟨-, ht⟩
    · exact absurd rfl h0
    · exact ⟨0, k, rfl, hpos, iff_of_true rfl rfl, hkey, hloaded⟩
    · exact ⟨st.next, k, rfl, hin.1, iff_of_false nofun hpos.ne', rfl, hloaded⟩
    · exact h.placed t x ht h0
  case held =>
    intro t x q ht hZ hq
    rcases hk.cases ht with ⟨-, rfl⟩ | ⟨rfl, rfl⟩ | ⟨hin, rfl⟩ | ⟨-, ht⟩
    · rw [show r.more.parent = none from hparent] at hq
      cases hq
    · obtain rfl : 0 = q := Option.some.inj hq
      exact ⟨h.zero_notMem, _, hk.root⟩
    · obtain rfl : st.next = q := Option.some.inj hq
      exact ⟨h.fresh_notMem le_rfl, _, hk.key⟩
    · obtain ⟨hqZ, y, hy⟩ := h.held t x q ht hZ hq
      exact ⟨hqZ, hk.live h hy⟩
  case gone =>
    intro z hz
    obtain ⟨h0, hd, x, hx, hdone⟩ := h.gone z hz
    rw [hk.dropped]
    exact ⟨h0, hd, x, hk.old h h0 hx, hdone⟩
  case asks =>
    intro r₁ hr₁ t ht
    rw [hk.pending] at hr₁
    rcases List.mem_append.mp hr₁ with hr₁ | hr₁
    · obtain ⟨h0, hZ, x, hx, hfits⟩ := h.asks r₁ hr₁ t ht
      exact ⟨h0, hZ, x, hk.old h h0 hx, hfits⟩
    · obtain ⟨j, hj, rfl⟩ := List.mem_map.mp hr₁
      rw [List.mem_range] at hj
      obtain rfl : st.next + j + 1 = t := Option.some.inj ht
      exact ⟨by omega, h.fresh_notMem (by omega), _, hk.server _ (by omega) (by omega), nofun,
        fun _ _ => rfl⟩
  case once =>
    rw [hk.pending, List.map_append, List.map_map]
    refine h.once.append (List.nodup_range.map fun i j heq => ?_) fun q hq hq' => ?_
    · have : st.next + i + 1 = st.next + j + 1 := Option.some.inj heq
      omega
    · obtain ⟨r₁, hr₁, rfl⟩ := List.mem_map.mp hq
      obtain ⟨j, -, heq⟩ := List.mem_map.mp hq'
      obtain ⟨-, -, x, hx, -⟩ := h.asks r₁ hr₁ _ heq.symm
      have := h.fresh _ x hx
      omega
  case count =>
    intro q z hz hqZ
    rw [hk.kids h hr q, hk.dropped, ite_self]
    rcases hk.cases hz with ⟨rfl, rfl⟩ | ⟨rfl, rfl⟩ | ⟨hin, rfl⟩ | ⟨h0, hz⟩
    · have hcount := h.count 0 r hr hqZ
      have hcreated : r.created = r.totalTaskCount := if_pos hlink
      have hmore : r.more.created = r.totalTaskCount + 1 := if_pos hlink
      have hfin : r.more.finishTaskCount = r.finishTaskCount := rfl
      rw [ite_self] at hcount
      rw [if_pos rfl, if_neg hpos.ne, hmore, hfin]
      omega
    · have hempty := h.kids_fresh le_rfl
      rw [hempty, h.fresh_count le_rfl, if_neg hpos.ne', if_pos rfl, Finset.card_empty]
      show 0 + (0 + 0 + n) + 0 + 0 = n
      omega
    · have hempty := h.kids_fresh hin.1.le
      rw [hempty, h.fresh_count hin.1.le, if_neg (by omega), if_neg hin.1.ne', Finset.card_empty]
      rfl
    · have hcount := h.count q z hz hqZ
      have := h.fresh q z hz
      rw [ite_self] at hcount
      rw [if_neg h0, if_neg (by omega)]
      exact hcount
  case sound =>
    intro t x ht hZ h0
    rcases hk.cases ht with ⟨rfl, -⟩ | ⟨rfl, rfl⟩ | ⟨hin, rfl⟩ | ⟨-, ht⟩
    · exact absurd rfl h0
    · refine ⟨le_rfl, fun ha => ?_, fun _ => .inr hn, fun hne => absurd rfl hne, fun _ => rfl⟩
      rcases (hk.asked st.next).mp ha with ⟨r₁, hr₁, ht₁⟩ | ⟨hlt, -⟩
      · obtain ⟨-, -, x, hx, -⟩ := h.asks r₁ hr₁ _ ht₁
        exact absurd (h.fresh _ x hx) (Nat.lt_irrefl _)
      · exact absurd hlt (Nat.lt_irrefl _)
    · exact ⟨le_rfl, fun _ => rfl, fun _ => .inl ((hk.asked t).mpr (.inr hin)),
        fun _ hlt => absurd hlt (Nat.lt_irrefl 0), fun hnone => nomatch hnone⟩
    · obtain ⟨hle, hdone, hmoves, hwaits, hflat⟩ := h.sound t x ht hZ h0
      have hold := h.fresh t x ht
      have hiff : Timport.asked st' t ↔ Timport.asked st t := by
        rw [hk.asked t]
        exact or_iff_left (by omega)
      refine ⟨hle, fun ha => hdone (hiff.mp ha), fun hq => ?_, hwaits, hflat⟩
      rw [hiff]
      exact hmoves (hk.quit ▸ hq)
  case dropped =>
    intro q hq
    rw [hk.dropped] at hq
    rw [hk.next]
    have := h.dropped q hq
    omega

end KeyStarted

--
-- A round starts
--

/-- The top keys have intervals. -/
def Config.Timed (cfg : Config) : Prop := ∀ k ∈ cfg.tktree, k.interval ≠ .unknown

/-- Keys were started. -/
structure KeysStarted (cfg : Config) (st st' : Sys) (ks : List TKey) (r r' : Task) : Prop where
  root : st'.task 0 = some r'
  finish : r'.finishTaskCount = r.finishTaskCount
  total : st'.quit = false → r'.totalTaskCount = r.totalTaskCount + ks.length
  working : st'.working = st.working
  startTmstamp : st'.startTmstamp = st.startTmstamp
  started : st'.started = st.started
  ended : st'.ended = st.ended
  stats : .statistics ∈ st'.pending ↔ .statistics ∈ st.pending
  quit : (∀ k ∈ ks, k.interval ≠ .unknown) → st'.quit = st.quit
  dropped : st'.dropped = st.dropped
  converts : Converts cfg st → Converts cfg st'

theorem KeyStarted.converts {k : TKey} {n : Nat} {r : Task} (hk : KeyStarted st st' k n r)
    (hr : st.task 0 = some r) (h : Converts cfg st) : Converts cfg st' := by
  intro t x k' es ht htkey htype hreply
  rcases hk.cases ht with ⟨rfl, rfl⟩ | ⟨rfl, rfl⟩ | ⟨-, rfl⟩ | ⟨-, ht⟩
  · exact h 0 r k' es hr htkey htype hreply
  · cases hreply
  · cases hreply
  · exact h t x k' es ht htkey htype hreply

theorem KeyStarted.statistics {k : TKey} {n : Nat} {r : Task} (hk : KeyStarted st st' k n r) :
    .statistics ∈ st'.pending ↔ .statistics ∈ st.pending := by
  rw [hk.pending, List.mem_append]
  refine or_iff_left fun hmem => ?_
  obtain ⟨j, -, heq⟩ := List.mem_map.mp hmem
  cases heq

theorem startKeys_spec (tmstamp : Nat) {ks : List TKey} (hloaded : ∀ k ∈ ks, k.Loaded)
    {r : Task} (h : Core st Z o 0) (hr : st.task 0 = some r) :
    Core (startKeys cfg tmstamp st ks) Z o 0 ∧ ∃ r', KeysStarted cfg st
      (startKeys cfg tmstamp st ks) (ks.filter fun k => !skipped cfg tmstamp k) r r' := by
  induction ks generalizing st r with
  | nil =>
    exact ⟨h, r, hr, rfl, fun _ => rfl, rfl, rfl, rfl, rfl, Iff.rfl, fun _ => rfl, rfl, id⟩
  | cons k ks ih =>
    have hrest : ∀ k ∈ ks, k.Loaded := fun k hk => hloaded k (.tail _ hk)
    unfold startKeys
    by_cases hskip : skipped cfg tmstamp k = true
    · rw [if_pos hskip, List.filter_cons_of_neg (by rw [hskip]; decide)]
      exact ih hrest h hr
    rw [if_neg hskip, List.filter_cons_of_pos (by rw [Bool.eq_false_of_not_eq_true hskip]; rfl)]
    by_cases hunknown : k.interval = .unknown
    · -- the process quits
      rw [if_pos hunknown]
      refine ⟨h.raise, r, hr, rfl, nofun, rfl, rfl, rfl, rfl, Iff.rfl, fun hall => ?_, rfl, id⟩
      exact absurd hunknown (hall k (.head _))
    rw [if_neg hunknown]
    have hk := keyStarted cfg k hr h.next_pos
    have hcore := hk.core h hr cfg.redis_pos (hloaded k (.head _))
    obtain ⟨hcore', r', hs⟩ := ih hrest hcore hk.root
    refine ⟨hcore', r', hs.root, hs.finish, fun hq => ?_, hs.working.trans hk.working,
      hs.startTmstamp.trans hk.startTmstamp, hs.started.trans hk.started, hs.ended.trans hk.ended,
      hs.stats.trans hk.statistics, fun hall => ?_, hs.dropped.trans hk.dropped,
      fun hc => hs.converts (hk.converts hr hc)⟩
    · rw [hs.total hq, List.length_cons]
      show r.totalTaskCount + 1 + _ = _
      omega
    · exact (hs.quit fun k' hk' => hall k' (.tail _ hk')).trans hk.quit

theorem timportTaskCheck_spec (now : Nat) (h : Core st Z o 0) (hrounds : Rounds cfg t0 st)
    (hphase : Phase cfg st) :
    Core (timportTaskCheck cfg now st) Z o 0 ∧ Rounds cfg t0 (timportTaskCheck cfg now st) ∧
      Phase cfg (timportTaskCheck cfg now st) ∧
      (cfg.Timed → Smooth cfg st → Smooth cfg (timportTaskCheck cfg now st)) := by
  unfold timportTaskCheck
  by_cases hstart : st.startTmstamp + cfg.delayTime < now ∧ st.working = false
  swap
  · rw [if_neg hstart]
    exact ⟨h, hrounds, hphase, fun _ => id⟩
  rw [if_pos hstart]
  obtain ⟨r, hr, hparent, hlink, hnext⟩ := h.root
  obtain ⟨hidle, hstats⟩ := hphase.idle hstart.2
  have hdone := hidle r hr
  have hcreated : r.created = r.totalTaskCount := if_pos hlink
  let r₀ : Task := { r with finishTaskCount := 0, totalTaskCount := 0 }
  let st₀ : Sys := { st with
    working := true
    started := st.started + 1
    counts := fun _ => (0, 0)
    task := update st.task 0 (some r₀) }
  have hst₀ : timportTaskStart cfg { st with working := true, started := st.started + 1 }
      st.startTmstamp = startKeys cfg st.startTmstamp st₀ cfg.tktree := by
    unfold timportTaskStart Sys.modify
    dsimp only
    rw [hr]
    rfl
  rw [hst₀]
  have hcore : Core st₀ Z o 0 := by
    have hput : Core (st.put 0 r₀) Z 0 0 := by
      refine (h.paid 0).put hr h.zero_notMem ⟨rfl, rfl, rfl⟩ (fun _ => hnext)
        (fun hne => absurd rfl hne) (fun r₁ hr₁ ht => ?_) ?_
      · exact absurd rfl (h.asks r₁ hr₁ 0 ht).1
      · have hcreated₀ : r₀.created = 0 := if_pos hlink
        rw [hcreated₀, hcreated, hdone]
        exact (Nat.zero_add _).symm
    have hsame : Core st₀ Z 0 0 := hput.congr rfl rfl rfl id rfl
    exact hsame.paid o
  have hroot : st₀.task 0 = some r₀ := by
    show update st.task 0 (some r₀) 0 = some r₀
    rw [update_self]
  obtain ⟨hcore', r', hs⟩ := startKeys_spec st.startTmstamp cfg.loaded hcore hroot
  refine ⟨hcore', ⟨?_, ?_, ?_⟩, ⟨?_, ?_, ?_⟩, ?_⟩
  · rw [hs.startTmstamp, hs.ended]
    exact hrounds.time
  · rw [hs.started, hs.ended, hs.working, if_pos rfl]
    have hstarted := hrounds.started
    rw [hstart.2, if_neg (by decide)] at hstarted
    exact congrArg (· + 1) hstarted
  · rw [hs.ended]
    exact hrounds.ended
  · rw [hs.working]
    exact nofun
  · rw [hs.stats]
    exact fun hmem => absurd hmem hstats
  · intro _ hquit r₁ hr₁
    rw [hs.root, Option.some.injEq] at hr₁
    subst hr₁
    have hfinish : r'.finishTaskCount = 0 := hs.finish
    have htotal : r'.totalTaskCount = 0 + (imported cfg st.startTmstamp).length := hs.total hquit
    rw [hs.startTmstamp]
    refine ⟨htotal.trans (Nat.zero_add _), .inr ?_⟩
    omega
  · intro htimed hsmooth
    have hput : Smooth cfg (st.put 0 r₀) := hsmooth.put fun k es htkey htype hreply =>
      hsmooth.converts 0 r k es hr htkey htype hreply
    refine ⟨?_, hs.dropped.trans hsmooth.dropped, hs.converts hput.converts⟩
    exact (hs.quit fun k hk => htimed k (List.mem_of_mem_filter hk)).trans hsmooth.quit

--
-- A round ends
--

theorem finishRound_spec (now : Nat) (h : Core st Z o 0) (hrounds : Rounds cfg t0 st)
    (hworking : st.working = true) (hstats : .statistics ∉ st.pending)
    (hdone : ∀ r, st.task 0 = some r → r.finishTaskCount = r.totalTaskCount) :
    Core (finishRound cfg now st) Z o 0 ∧ Rounds cfg t0 (finishRound cfg now st) ∧
      Phase cfg (finishRound cfg now st) ∧
      (cfg.Timed → Smooth cfg st → Smooth cfg (finishRound cfg now st)) := by
  obtain ⟨r, hr, -⟩ := h.root
  obtain ⟨hpending, hall⟩ := h.rest hr (hdone r hr) hstats
  let st₁ : Sys := { st with
    startTmstamp := st.startTmstamp + cfg.interval
    ended := st.ended ++ [⟨st.pending, st.task⟩]
    working := false }
  have hround : finishRound cfg now st = timportTaskCheck cfg now st₁ := by
    unfold finishRound
    rw [if_pos hworking]
  rw [hround]
  have hcore : Core st₁ Z o 0 := h.congr rfl rfl rfl id rfl
  have hsmooth₁ : Smooth cfg st → Smooth cfg st₁ := fun hs => ⟨hs.quit, hs.dropped, hs.converts⟩
  have hrounds₁ : Rounds cfg t0 st₁ := by
    refine ⟨?_, ?_, ?_⟩
    · show st.startTmstamp + cfg.interval = t0 + cfg.interval * (st.ended ++ [_]).length
      rw [hrounds.time, List.length_append, List.length_singleton, Nat.mul_add, Nat.mul_one,
        Nat.add_assoc]
    · have hstarted := hrounds.started
      rw [hworking, if_pos rfl] at hstarted
      rw [hstarted, List.length_append]
      rfl
    · intro e he
      rcases List.mem_append.mp he with he | he
      · exact hrounds.ended e he
      · rw [List.mem_singleton.mp he]
        exact ⟨hpending, hall⟩
  have hphase₁ : Phase cfg st₁ :=
    ⟨fun _ => ⟨hdone, hstats⟩, fun hmem => absurd hmem hstats, nofun⟩
  obtain ⟨hcore', hrounds', hphase', hsmooth'⟩ := timportTaskCheck_spec now hcore hrounds₁ hphase₁
  exact ⟨hcore', hrounds', hphase', fun ht hs => hsmooth' ht (hsmooth₁ hs)⟩

theorem Request.task_eq_none {r : Request} : r.task = none ↔ r = .statistics := by
  cases r with
  | statistics => exact iff_of_true rfl rfl
  | index _ | set _ | string _ | write _ | expire _ => exact iff_of_false nofun nofun

theorem Core.ask_statistics (h : Core st Z o m) (hstats : .statistics ∉ st.pending) :
    Core (st.ask .statistics) Z o m := by
  have hmem : ∀ {r : Request} {t}, r ∈ st.pending ++ [.statistics] → r.task = some t →
      r ∈ st.pending := by
    intro r t hr ht
    rcases List.mem_append.mp hr with hr | hr
    · exact hr
    · rw [List.mem_singleton.mp hr] at ht
      cases ht
  have hasked : ∀ t, asked (st.ask .statistics) t ↔ asked st t := by
    intro t
    constructor
    · rintro ⟨r, hr, ht⟩
      exact ⟨r, hmem hr ht, ht⟩
    · rintro ⟨r, hr, ht⟩
      exact ⟨r, List.mem_append_left _ hr, ht⟩
  refine ⟨h.root, h.fresh, h.placed, h.held, h.gone, fun r hr t ht => h.asks r (hmem hr ht) t ht,
    ?_,
    h.count, fun t x hx hZ h0 => ?_, h.dropped⟩
  · show ((st.pending ++ [Request.statistics]).map Request.task).Nodup
    rw [List.map_append]
    refine h.once.append (List.nodup_singleton _) fun q hq hq' => ?_
    obtain ⟨r, hr, rfl⟩ := List.mem_map.mp hq
    rw [List.map_cons, List.map_nil, List.mem_singleton] at hq'
    exact hstats (Request.task_eq_none.mp hq' ▸ hr)
  · obtain ⟨hle, hfin, hmoves, hwaits, hflat⟩ := h.sound t x hx hZ h0
    refine ⟨hle, fun ha => hfin ((hasked t).mp ha), fun hq => ?_, hwaits, hflat⟩
    rw [hasked]
    exact hmoves hq

theorem handleStatistics_spec (now : Nat) (h : Core st Z o 0) (hrounds : Rounds cfg t0 st)
    (hworking : st.working = true) (hstats : .statistics ∉ st.pending)
    (hdone : ∀ r, st.task 0 = some r → r.finishTaskCount = r.totalTaskCount)
    (htotal : st.quit = false → ∀ r, st.task 0 = some r →
      r.totalTaskCount = (imported cfg st.startTmstamp).length) :
    Core (handleStatistics cfg now st) Z o 0 ∧ Rounds cfg t0 (handleStatistics cfg now st) ∧
      Phase cfg (handleStatistics cfg now st) ∧
      (cfg.Timed → Smooth cfg st → Smooth cfg (handleStatistics cfg now st)) := by
  unfold handleStatistics
  split
  · refine ⟨h.ask_statistics hstats, ⟨hrounds.time, hrounds.started, hrounds.ended⟩,
      ⟨fun hnot => ?_, fun _ => ⟨hworking, hdone⟩, fun _ hq r hr => ?_⟩,
        fun _ hs => ⟨hs.quit, hs.dropped, hs.converts⟩⟩
    · rw [show (st.ask .statistics).working = st.working from rfl, hworking] at hnot
      cases hnot
    · exact ⟨htotal hq r hr, .inl (List.mem_append_right _ (.head _))⟩
  · exact finishRound_spec now h hrounds hworking hstats hdone

end Supex.Timport
