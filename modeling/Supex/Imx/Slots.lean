import Supex.Imx.Gateways

/-!
# IMX exchange — the slot table

`fdman_slot_del` asserts that the slot is in use, and none of the functions on
slots checks that its index is in the table. The command `status … closed`
releases the slot of the client it names and then closes the connection, whose
callback releases the slot again.

Main results: `slots_safe_iff`, `closed_command_aborts`.
-/

namespace Supex.Imx

open Lib (run Along bind_eq_error)

variable {exc : Exchange} {st st' : Sys}

/-- No connection gets the first descriptor behind the table, and no manage
gateway has a client of this server closed. -/
def SlotSafe (st : Sys) : Act → Prop
  | .connect _ fd _ => st.conns fd = none → fd ≠ FD_CAPACITY
  | .receive via frames => (∃ k, st.conns via = some ⟨k, .manage⟩) → closesFd st.exc frames = none
  | _ => True

--
-- Steps
--

theorem Steady.relay_not_ofSlot (h : Steady st) {via : Nat} {c : Conn}
    (hvia : st.conns via = some c) (hkind : c.kind ≠ .manage) {frames : List Bytes} {e : Abort}
    (herror : st.dispatch via frames = .error e) : ¬ e.OfSlot := by
  rcases bind_eq_error.mp herror with herror | ⟨d, hd, herror⟩
  · rw [h.messageDispatch hvia] at herror
    cases hk : c.kind with
    | client =>
      rw [hk] at herror
      cases hsaid : dispatchClient st.exc via frames with
      | error e' =>
        unfold dispatchClient at hsaid
        split at hsaid
        · rw [getCid_of_lt (h.fd_lt via c hvia)] at hsaid
          cases hsaid
        · cases hsaid
      | ok said =>
        rw [hsaid] at herror
        cases herror
    | stream =>
      rw [hk] at herror
      cases hsaid : dispatchStream st.exc frames with
      | error e' =>
        rw [hsaid] at herror
        rw [← Except.error.inj herror]
        exact dispatchStream_not_ofSlot hsaid
      | ok said =>
        rw [hsaid] at herror
        cases herror
    | manage => exact absurd hk hkind
    | status =>
      rw [hk] at herror
      cases herror
  · obtain ⟨said, rfl⟩ := messageDispatch_relays h hvia hkind hd
    cases herror

theorem Steady.quiet_not_ofSlot (h : Steady st) {via k : Nat}
    (hvia : st.conns via = some ⟨k, .manage⟩) {frames : List Bytes}
    (hnone : closesFd st.exc frames = none) {e : Abort}
    (herror : st.dispatch via frames = .error e) : ¬ e.OfSlot := by
  rcases dispatchManage_cases st.exc frames with ⟨fd, hfd, -⟩ | ⟨-, hquiet⟩
  · rw [hnone] at hfd
    cases hfd
  · rw [dispatch_quiet h hvia hquiet] at herror
    cases hcmd : dispatchManage st.exc frames with
    | error e' =>
      rw [hcmd] at herror
      rw [← Except.error.inj herror]
      exact hquiet.error e' hcmd
    | ok r =>
      rw [hcmd] at herror
      cases herror

theorem step_ofSlot_iff (h : Steady st) (act : Act) :
    (∃ e, step st act = .error e ∧ e.OfSlot) ↔ ¬ SlotSafe st act := by
  have hsafe : SlotSafe st act → (∀ e, step st act = .error e → ¬ e.OfSlot) →
      ((∃ e, step st act = .error e ∧ e.OfSlot) ↔ ¬ SlotSafe st act) := fun hs hno =>
    iff_of_false (fun ⟨e, he, hof⟩ => hno e he hof) (not_not.mpr hs)
  cases act with
  | connect kind fd uuid =>
    cases hfd : st.conns fd with
    | some c =>
      refine hsafe (fun hnone => by rw [hfd] at hnone; cases hnone) fun e he => ?_
      unfold step at he
      dsimp only at he
      rw [hfd] at he
      cases he
    | none =>
      have hstep : ∀ e, step st (.connect kind fd uuid) = .error e ↔
          excEventNotifyInit kind st.exc fd uuid.text = .error e := by
        intro e
        unfold step
        dsimp only
        rw [hfd]
        rw [bind_eq_error]
        exact ⟨fun h => h.elim id fun ⟨r, _, hr⟩ => (nomatch hr), .inl⟩
      by_cases hcap : fd = FD_CAPACITY
      · refine iff_of_true ⟨.index, ?_, .inl rfl⟩ fun hs => hs hfd hcap
        rw [hstep, hcap]
        have hset : ∀ des, fdmanSlotSet st.exc FD_CAPACITY des = .error .index := by
          intro des
          unfold fdmanSlotSet
          rw [if_neg (lt_irrefl _), if_neg fun hand => lt_irrefl _ hand.2]
        cases kind with
        | client => exact bind_eq_error.mpr (.inl (hset _))
        | status => exact bind_eq_error.mpr (.inl (hset _))
        | stream => exact bind_eq_error.mpr (.inl (hset _))
        | manage => exact bind_eq_error.mpr (.inl (hset _))
      · refine hsafe (fun _ => hcap) fun e he => ?_
        rcases excEventNotifyInit_error ((hstep e).mp he) with ⟨heq, -⟩ | ⟨-, rfl⟩
        · exact absurd heq hcap
        · rintro (hof | hof) <;> cases hof
  | disconnect fd =>
    refine hsafe trivial fun e he => ?_
    unfold step at he
    dsimp only at he
    split at he
    · cases he
    · next c hc =>
      rw [Sys.close_eq h hc] at he
      cases he
  | error fd =>
    refine hsafe trivial fun e he => ?_
    unfold step at he
    dsimp only at he
    split at he
    · next hc =>
      rw [commapiClose_of_some hc, Sys.close_eq h hc] at he
      cases he
    · cases he
  | uidmap via fd uid =>
    refine hsafe trivial fun e he => ?_
    unfold step at he
    dsimp only at he
    split at he
    · next hvia hfd =>
      rcases bind_eq_error.mp he with he | ⟨cid, -, he⟩
      · rw [getCid_of_lt (h.fd_lt fd _ hfd)] at he
        cases he
      · rcases bind_eq_error.mp he with he | ⟨st₁, -, he⟩
        · exact h.quiet_not_ofSlot hvia rfl he
        · cases he
    · cases he
  | gidmap via fd gids =>
    refine hsafe trivial fun e he => ?_
    unfold step at he
    dsimp only at he
    split at he
    · next hvia hfd =>
      rcases bind_eq_error.mp he with he | ⟨cid, -, he⟩
      · rw [getCid_of_lt (h.fd_lt fd _ hfd)] at he
        cases he
      · rcases bind_eq_error.mp he with he | ⟨st₁, -, he⟩
        · exact h.quiet_not_ofSlot hvia rfl he
        · cases he
    · cases he
  | receive via frames =>
    cases hvia : st.conns via with
    | none =>
      refine hsafe (fun ⟨k, hk⟩ => by rw [hvia] at hk; cases hk) fun e he => ?_
      unfold step at he
      dsimp only at he
      rw [hvia] at he
      cases he
    | some c =>
      have hstep : step st (.receive via frames) = st.dispatch via frames := by
        unfold step
        dsimp only
        rw [hvia]
      rw [hstep]
      by_cases hkind : c.kind = .manage
      swap
      · refine iff_of_false (fun ⟨e, he, hof⟩ => h.relay_not_ofSlot hvia hkind he hof)
          (not_not.mpr fun ⟨k, hk⟩ => ?_)
        rw [hvia, Option.some.injEq] at hk
        exact absurd (by rw [hk]) hkind
      · obtain ⟨k, rfl⟩ : ∃ k, c = ⟨k, .manage⟩ := ⟨c.number, by rw [← hkind]⟩
        rcases dispatchManage_cases st.exc frames with ⟨fd, hfd, hcmd⟩ | ⟨hnone, -⟩
        · refine iff_of_true (dispatch_closes h hvia hcmd) fun hs => ?_
          rw [hs ⟨k, hvia⟩] at hfd
          cases hfd
        · exact iff_of_false (fun ⟨e, he, hof⟩ => h.quiet_not_ofSlot hvia hnone he hof)
            (not_not.mpr fun _ => hnone)

--
-- Runs
--

/-- **The slots are safe.** A run uses no slot outside the table and releases
none twice if and only if no connection gets the descriptor `FD_CAPACITY` and no
manage gateway sends `status … closed` for a cid of this server. -/
theorem slots_safe_iff (host : Bytes) (port : Nat) (l : List Act) :
    (∀ e, run step (Sys.start host port) l = .error e → e ≠ .index ∧ e ≠ .released) ↔
      Along step SlotSafe (Sys.start host port) l := by
  have hiff := Lib.error_iff_along (I := Steady) (B := Abort.OfSlot) (C := SlotSafe)
    (fun _ _ _ hs _ hstep => hs.moved (step_cases hs hstep))
    (fun _ act hs => step_ofSlot_iff hs act) (l := l) (Steady.start host port)
  rw [← hiff]
  refine forall₂_congr fun e _ => ?_
  exact not_or.symm

/-- A manage gateway has an open client closed. -/
def closedByCommand : List Act :=
  [.connect .manage 4 sampleUuid, .connect .client 5 sampleUuid,
    .receive 4 (closedCommand (cidText sampleUuid.text sampleHost 80 5))]

/-- The callback of the connection finds its slot released. -/
theorem closed_command_aborts :
    (run step (Sys.start sampleHost 80) closedByCommand).map (fun _ => ()) = .error .released := by
  decide +kernel

end Supex.Imx
