import Supex.Imx.Steps

/-!
# IMX exchange — the gateways

The exchange keeps a list of the connected gateways of each kind and a current
one. When a gateway ends that is not the current one, its node stays in the
list.

Main results: `tracked_iff`, `stale_gateway`.
-/

namespace Supex.Imx

open List

open Lib (run Along Throughout)
open Function (update update_apply update_of_ne update_self)

variable {st st' : Sys}

/-- There is an open connection of the kind under the descriptor. -/
def Sys.Has (st : Sys) (kind : RouterType) (fd : Int) : Prop :=
  ∃ (n k : Nat), fd = n ∧ st.conns n = some ⟨k, kind⟩

/-- The list of every kind of gateway is the connected ones, once each, the
current one is connected, and a connected stream gateway is picked when there is
one. -/
structure Tracked (st : Sys) : Prop where
  once : ∀ kind, kind ≠ .client → (st.exc.list kind).Nodup
  listed : ∀ kind, kind ≠ .client → ∀ fd, fd ∈ st.exc.list kind ↔ st.Has kind fd
  current : ∀ kind, kind ≠ .client → st.exc.gatewayFd kind = 0 ∨
    st.Has kind (st.exc.gatewayFd kind)
  best : (∃ fd, st.Has .stream fd) → st.Has .stream (findBestGateway st.exc)

/-- A gateway that ends is the current one. -/
def EndsCurrent (st : Sys) (act : Act) : Prop :=
  ∀ fd c, act.Ends fd c → st.conns fd = some c → c.kind ≠ .client → st.exc.gatewayFd c.kind = fd

theorem Tracked.of_lists
    (honce : ∀ kind, kind ≠ .client → (st.exc.list kind).Nodup)
    (hlisted : ∀ kind, kind ≠ .client → ∀ fd, fd ∈ st.exc.list kind ↔ st.Has kind fd)
    (hcurrent : ∀ kind, kind ≠ .client → st.exc.gatewayFd kind = 0 ∨
      st.Has kind (st.exc.gatewayFd kind)) : Tracked st := by
  refine ⟨honce, hlisted, hcurrent, fun ⟨fd, hfd⟩ => ?_⟩
  unfold findBestGateway fdmanListTop
  by_cases hpos : 0 < st.exc.gatewayFd .stream
  · rw [if_pos hpos]
    exact (hcurrent .stream nofun).resolve_left hpos.ne'
  · rw [if_neg hpos]
    cases hlist : st.exc.list .stream with
    | nil =>
      have := (hlisted .stream nofun fd).mpr hfd
      rw [hlist] at this
      cases this
    | cons x l =>
      refine (hlisted .stream nofun x).mp ?_
      rw [hlist]
      exact .head _

theorem Tracked.congr (h : Tracked st) (hconns : st'.conns = st.conns)
    (hlist : st'.exc.list = st.exc.list) (hgateway : st'.exc.gatewayFd = st.exc.gatewayFd) :
    Tracked st' := by
  have hhas : ∀ kind fd, st'.Has kind fd ↔ st.Has kind fd := fun kind fd => by
    unfold Sys.Has
    rw [hconns]
  refine Tracked.of_lists ?_ ?_ ?_
  · rw [hlist]
    exact h.once
  · intro kind hkind fd
    rw [hlist, hhas]
    exact h.listed kind hkind fd
  · intro kind hkind
    rw [hgateway, hhas]
    exact h.current kind hkind

--
-- Steps
--

variable {kind : RouterType}

theorem has_opened {kind' : RouterType} {fd : Nat} {uuid : Uuid} (hfree : st.conns fd = none)
    (x : Int) : (st.opened kind fd uuid).Has kind' x ↔ st.Has kind' x ∨ kind' = kind ∧ x = fd := by
  constructor
  · rintro ⟨n, k, rfl, hc⟩
    change update st.conns fd (some ⟨st.next, kind⟩) n = _ at hc
    by_cases hn : n = fd
    · rw [hn, update_self, Option.some.injEq, Conn.mk.injEq] at hc
      exact .inr ⟨hc.2.symm, by rw [hn]⟩
    · rw [update_of_ne hn] at hc
      exact .inl ⟨n, k, rfl, hc⟩
  · rintro (⟨n, k, rfl, hc⟩ | ⟨rfl, rfl⟩)
    · have hn : n ≠ fd := by
        rintro rfl
        rw [hfree] at hc
        cases hc
      exact ⟨n, k, rfl, (update_of_ne hn ..).trans hc⟩
    · exact ⟨fd, st.next, rfl, update_self ..⟩

theorem has_closed {fd : Nat} {c : Conn} (x : Int) :
    (st.closed fd c).Has kind x ↔ st.Has kind x ∧ x ≠ fd := by
  constructor
  · rintro ⟨n, k, rfl, hc⟩
    obtain ⟨hne, hc⟩ := closed_conns.mp hc
    exact ⟨⟨n, k, rfl, hc⟩, fun heq => hne (by exact_mod_cast heq)⟩
  · rintro ⟨⟨n, k, rfl, hc⟩, hne⟩
    exact ⟨n, k, rfl, closed_conns.mpr ⟨fun heq => hne (by rw [heq]), hc⟩⟩

theorem Sys.Has.kind_eq {fd : Nat} {c : Conn} (h : st.Has kind fd) (hc : st.conns fd = some c) :
    kind = c.kind := by
  obtain ⟨n, k, heq, hn⟩ := h
  obtain rfl : fd = n := by exact_mod_cast heq
  rw [hc, Option.some.injEq] at hn
  rw [hn]

theorem Tracked.opened (h : Tracked st) {fd : Nat} {uuid : Uuid} (hfree : st.conns fd = none) :
    Tracked (st.opened kind fd uuid) := by
  have hnot : ∀ kind', ¬ st.Has kind' fd := by
    rintro kind' ⟨n, k, heq, hc⟩
    obtain rfl : fd = n := by exact_mod_cast heq
    rw [hfree] at hc
    cases hc
  have hlist : ∀ kind', kind' ≠ .client → (st.opened kind fd uuid).exc.list kind' =
      if kind' = kind then st.exc.list kind ++ [(fd : Int)] else st.exc.list kind' := by
    intro kind' hkind'
    show (st.exc.opened kind fd uuid.text).list kind' = _
    by_cases hkind : kind = .client
    · rw [hkind, Exchange.opened_client, if_neg hkind']
    · rw [Exchange.opened_gateway _ _ _ hkind]
      exact update_apply ..
  have hgateway : ∀ kind', kind' ≠ .client → (st.opened kind fd uuid).exc.gatewayFd kind' =
      if kind' = kind then (fd : Int) else st.exc.gatewayFd kind' := by
    intro kind' hkind'
    show (st.exc.opened kind fd uuid.text).gatewayFd kind' = _
    by_cases hkind : kind = .client
    · rw [hkind, Exchange.opened_client, if_neg hkind']
    · rw [Exchange.opened_gateway _ _ _ hkind]
      exact update_apply ..
  refine Tracked.of_lists (fun kind' hkind' => ?_) (fun kind' hkind' x => ?_) fun kind' hkind' => ?_
  · rw [hlist kind' hkind']
    split
    · next heq =>
      subst heq
      refine List.Nodup.append (h.once _ hkind') (nodup_singleton _) fun x hx hx' => ?_
      rw [mem_singleton] at hx'
      exact hnot _ ((h.listed _ hkind' fd).mp (hx' ▸ hx))
    · exact h.once kind' hkind'
  · rw [hlist kind' hkind', has_opened hfree]
    split
    · next heq =>
      subst heq
      rw [mem_append, mem_singleton, h.listed _ hkind' x]
      simp
    · next hne =>
      rw [h.listed kind' hkind' x]
      simp [hne]
  · rw [hgateway kind' hkind', has_opened hfree]
    split
    · next heq => exact .inr (.inr ⟨heq, rfl⟩)
    · exact (h.current kind' hkind').imp_right .inl

/-- Closing keeps the lists exact if and only if it is not a gateway that is not
the current one. -/
theorem tracked_closed_iff (h : Tracked st) {fd : Nat} {c : Conn} (hc : st.conns fd = some c) :
    Tracked (st.closed fd c) ↔ (c.kind ≠ .client → st.exc.gatewayFd c.kind = fd) := by
  by_cases hkind : c.kind = .client
  · refine iff_of_true ?_ fun hne => absurd hkind hne
    obtain ⟨-, -, -, hlist, hgateway, -, -⟩ :=
      eraseClient_frame { st.exc with slot := update st.exc.slot fd .zero } fd
    have hexc : (st.closed fd c).exc = eraseClient
        { st.exc with slot := update st.exc.slot fd .zero } fd := by
      show st.exc.closed c.kind fd = _
      rw [hkind]
      rfl
    -- a client is in no list of gateways
    have hhas : ∀ kind, kind ≠ .client → ∀ x, (st.closed fd c).Has kind x ↔ st.Has kind x := by
      intro kind hne x
      rw [has_closed]
      refine and_iff_left_of_imp fun hx heq => ?_
      subst heq
      exact hne ((hx.kind_eq hc).trans hkind)
    refine Tracked.of_lists (fun kind hne => ?_) (fun kind hne x => ?_) fun kind hne => ?_
    · rw [hexc, hlist]
      exact h.once kind hne
    · rw [hexc, hlist, hhas kind hne]
      exact h.listed kind hne x
    · rw [hexc, hgateway, hhas kind hne]
      exact h.current kind hne
  have hmem : (fd : Int) ∈ st.exc.list c.kind :=
    (h.listed c.kind hkind fd).mpr ⟨fd, c.number, rfl, hc⟩
  have hexc : (st.closed fd c).exc = st.exc.closed c.kind fd := rfl
  rw [Exchange.closed_gateway _ _ hkind] at hexc
  constructor
  · intro h' _
    -- otherwise the node is still in the list
    by_contra hcur
    rw [if_neg hcur] at hexc
    have hstale : (fd : Int) ∈ (st.closed fd c).exc.list c.kind := by
      rw [hexc]
      exact hmem
    exact (has_closed _).mp ((h'.listed c.kind hkind fd).mp hstale) |>.2 rfl
  · intro hcur
    rw [if_pos (hcur hkind)] at hexc
    refine Tracked.of_lists (fun kind hne => ?_) (fun kind hne x => ?_) fun kind hne => ?_
    · rw [hexc]
      show (update st.exc.list c.kind _ kind).Nodup
      by_cases heq : kind = c.kind
      · rw [heq, update_self]
        exact (h.once c.kind hkind).erase _
      · rw [update_of_ne heq]
        exact h.once kind hne
    · rw [hexc, has_closed]
      show x ∈ update st.exc.list c.kind _ kind ↔ _
      by_cases heq : kind = c.kind
      · rw [heq, update_self, (h.once c.kind hkind).mem_erase_iff,
          h.listed c.kind hkind x]
        exact and_comm
      · rw [update_of_ne heq, h.listed kind hne x]
        refine (and_iff_left_of_imp fun hx hfd => ?_).symm
        subst hfd
        exact heq (hx.kind_eq hc)
    · rw [hexc, has_closed]
      show update st.exc.gatewayFd c.kind 0 kind = 0 ∨
        st.Has kind (update st.exc.gatewayFd c.kind 0 kind) ∧
          update st.exc.gatewayFd c.kind 0 kind ≠ fd
      by_cases heq : kind = c.kind
      · rw [heq, update_self]
        exact .inl rfl
      · rw [update_of_ne heq]
        refine (h.current kind hne).imp_right fun hx => ⟨hx, fun hfd => ?_⟩
        rw [hfd] at hx
        exact heq (hx.kind_eq hc)

theorem tracked_step_iff (h : Tracked st) {act : Act} (hmoved : Moved st act st') :
    Tracked st' ↔ EndsCurrent st act := by
  cases hmoved with
  | idle hidle =>
    refine iff_of_true h fun fd c hends hc hkind => ?_
    rcases hends with rfl | ⟨rfl, hclient⟩
    · exact absurd (fun hnone => by rw [hc] at hnone; cases hnone) hidle
    · exact absurd hclient hkind
  | opened hfree hlt =>
    refine iff_of_true (h.opened hfree) fun fd c hends _ _ => ?_
    rcases hends with hends | ⟨hends, -⟩ <;> cases hends
  | @closed _ fd c hends hc =>
    rw [tracked_closed_iff h hc]
    constructor
    · intro hcur fd' c' hends' hc' hkind'
      obtain rfl := hends.fd_eq hends'
      rw [hc, Option.some.injEq] at hc'
      subst hc'
      exact hcur hkind'
    · exact fun hall => hall fd c hends hc
  | bound _ _ _ hquiet =>
    refine iff_of_true (h.congr rfl (hquiet.list _ rfl) (hquiet.gatewayFd _ rfl))
      fun fd c hends _ _ => ?_
    rcases hends with hends | ⟨hends, -⟩ <;> cases hends
  | joined _ _ _ hquiet =>
    refine iff_of_true (h.congr rfl (hquiet.list _ rfl) (hquiet.gatewayFd _ rfl))
      fun fd c hends _ _ => ?_
    rcases hends with hends | ⟨hends, -⟩ <;> cases hends
  | commanded _ hquiet =>
    refine iff_of_true (h.congr rfl (hquiet.list _ rfl) (hquiet.gatewayFd _ rfl))
      fun fd c hends _ _ => ?_
    rcases hends with hends | ⟨hends, -⟩ <;> cases hends
  | relayed said =>
    refine iff_of_true (h.congr rfl rfl rfl) fun fd c hends _ _ => ?_
    rcases hends with hends | ⟨hends, -⟩ <;> cases hends

--
-- Runs
--

theorem Tracked.start (host : Bytes) (port : Nat) : Tracked (Sys.start host port) :=
  Tracked.of_lists (fun _ _ => nodup_nil)
    (fun _ _ _ => ⟨nofun, fun ⟨_, _, _, hc⟩ => nomatch hc⟩) fun _ _ => .inl rfl

/-- **The gateways are tracked** throughout a run if and only if every gateway
that ends is the current one of its kind. -/
theorem tracked_iff {host : Bytes} {port : Nat} {l : List Act}
    (hrun : run step (Sys.start host port) l = .ok st') :
    Throughout step Tracked (Sys.start host port) l ↔
      Along step EndsCurrent (Sys.start host port) l :=
  Lib.throughout_iff_along (I := Steady) (D := fun _ _ => True)
    (fun _ _ _ hs _ hstep => hs.moved (step_cases hs hstep))
    (fun _ _ _ hs ht _ hstep => tracked_step_iff ht (step_cases hs hstep))
    (Steady.start host port) (Tracked.start host port) (Along.of_forall fun _ _ _ => trivial) hrun

/-- A uuid, for runs on fixed inputs. -/
def sampleUuid : Uuid where
  text := List.replicate 36 97
  length_eq := length_replicate
  noBar := by decide
  noZero := by decide

def sampleHost : Bytes := ascii "h"

theorem sampleHost_ok : HostOk sampleHost 80 :=
  ⟨by decide, by decide, by decide, by decide, by decide, by decide⟩

/-- Two stream gateways; the second ends and another one connects in its place. -/
def replacedGateways : List Act :=
  [.connect .stream 5 sampleUuid, .connect .stream 6 sampleUuid, .disconnect 6,
    .connect .stream 6 sampleUuid]

theorem tracked_replacedGateways :
    ∃ st, run step (Sys.start sampleHost 80) replacedGateways = .ok st ∧
      (Throughout step Tracked (Sys.start sampleHost 80) replacedGateways ↔
        Along step EndsCurrent (Sys.start sampleHost 80) replacedGateways) := by
  have hok : (run step (Sys.start sampleHost 80) replacedGateways).isOk = true := by decide +kernel
  cases hrun : run step (Sys.start sampleHost 80) replacedGateways with
  | error e =>
    rw [hrun] at hok
    cases hok
  | ok st =>
    exact ⟨st, rfl, tracked_iff hrun⟩

/-- Two stream gateways; the first ends, then the second. -/
def firstEndsFirst : List Act :=
  [.connect .stream 5 sampleUuid, .connect .stream 6 sampleUuid, .disconnect 5,
    .connect .stream 7 sampleUuid, .disconnect 7]

/-- The first is picked although it is gone, while the second is connected. -/
theorem stale_gateway :
    ∃ st, run step (Sys.start sampleHost 80) firstEndsFirst = .ok st ∧
      findBestGateway st.exc = 5 ∧ st.conns 5 = none ∧ st.Has .stream 6 ∧ ¬ Tracked st := by
  have hstate : (run step (Sys.start sampleHost 80) firstEndsFirst).toOption.map
      (fun st => (findBestGateway st.exc, st.conns 5, st.conns 6)) =
      some (5, none, some ⟨1, .stream⟩) := by decide +kernel
  cases hrun : run step (Sys.start sampleHost 80) firstEndsFirst with
  | error e =>
    rw [hrun] at hstate
    cases hstate
  | ok st =>
    rw [hrun] at hstate
    have heq : (findBestGateway st.exc, st.conns 5, st.conns 6) =
        (5, none, some ⟨1, .stream⟩) := Option.some.inj hstate
    rw [Prod.mk.injEq, Prod.mk.injEq] at heq
    obtain ⟨hbest, hgone, hopen⟩ := heq
    have hhas : st.Has .stream 6 := ⟨6, 1, rfl, hopen⟩
    refine ⟨st, rfl, hbest, hgone, hhas, fun h => ?_⟩
    obtain ⟨n, k, hn, hc⟩ := h.best ⟨6, hhas⟩
    rw [hbest] at hn
    obtain rfl : 5 = n := by exact_mod_cast hn
    rw [hgone] at hc
    cases hc

end Supex.Imx
