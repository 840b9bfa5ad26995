import Supex.Pole.Flow

/-!
# pole — clients that die and start again

When a client process dies, what was sent to it stays in its channel, and the
next process takes it. The worker cannot tell the answers to such messages from
the answers to the batch it sends after the restart.

Main result: `restarts_orderly`.
-/

namespace Supex.Pole

open Supex.Lib Supex.Xmq

/-- The server keeps running, and the restarts of clients are orderly. -/
def ClientsRestart (s : Sys) : Action → Prop
  | .serverRestart => False
  | a => Orderly s a

instance (s : Sys) : ∀ a, Decidable (ClientsRestart s a)
  | .serverRestart => isFalse not_false
  | .work c => inferInstanceAs (Decidable (Orderly s (.work c)))
  | .dispense c => inferInstanceAs (Decidable (Orderly s (.dispense c)))
  | .push _ | .pushRecord _ | .pushCount | .pushFail | .startIncr _ _ | .startDump _ _
  | .recv _ _ | .recvDump _ | .crash _ _ => isTrue trivial

theorem ClientsRestart.orderly {s : Sys} {a : Action} (h : ClientsRestart s a) :
    Orderly s a ∧ a ≠ .serverRestart := by
  cases a <;> first | exact h.elim | exact ⟨h, nofun⟩

theorem Flow.step_clientsRestart {s s' : Sys} {a : Action} (h : Flow s) (hcond : ClientsRestart s a)
    (hstep : Pole.step s a = .ok s') : Flow s' := by
  obtain ⟨horder, hne⟩ := hcond.orderly
  exact h.step horder (fun ha => absurd ha hne) (step_ok hstep)

/-- **Restarts.** In every run in which the restarts of clients are orderly, from
any initial state and with any number of clients, crashes and restarts: the only
assertion that can fail is `have == 1`, and none fails if no position passes the
write counter; and no process is handed the same number twice. -/
theorem restarts_orderly (s₀ : Sys) (h₀ : Initial s₀) (l : List Action)
    (hl : Along step ClientsRestart s₀ l) :
    (∀ e, run step s₀ l = .error e → e = .haveNotOne) ∧
      (Along step WithinCounter s₀ l → ∃ s, run step s₀ l = .ok s) ∧
      ∀ s, run step s₀ l = .ok s → ∀ c, (s.procs c).seqs.Nodup := by
  have hflow : ∀ s a s', Flow s → ClientsRestart s a → step s a = .ok s' → Flow s' :=
    fun s a s' h hcond hstep => h.step_clientsRestart hcond hstep
  have hone : ∀ e, run step s₀ l = .error e → e = .haveNotOne := by
    intro e herr
    by_contra hne
    exact run_ne_error_along hflow (fun s a h _ hfail => hne (h.error hfail)) h₀.flow hl herr
  refine ⟨hone, fun hcounter => ?_, fun s hrun c => ?_⟩
  · cases hrun : run step s₀ l with
    | ok s => exact ⟨s, rfl⟩
    | error e =>
      have hbatches : ∀ s a s', Batches s → WithinCounter s a → step s a = .ok s' → Batches s' :=
        fun s a s' hb hcond h => hb.step hcond (step_ok h)
      rw [hone e hrun] at hrun
      exact absurd hrun (run_ne_error_along hbatches (fun s a hb _ => hb.step_ne_haveNotOne)
        h₀.batches hcounter)
  · have hlink := (run_inv_along hflow h₀.flow hl hrun).link c
    exact hlink.seqsOk.imp Nat.ne_of_lt

/-- One message is sent and stays in the channel; the process dies and is started
again, and takes the message and its repetition. -/
def oneLeft : List Action :=
  [.push [1], .startIncr nodeA 0, .dispense nodeA.bytes, .work nodeA.bytes, .work nodeA.bytes,
    .crash nodeA.bytes .waiting, .startIncr nodeA 0, .dispense nodeA.bytes, .work nodeA.bytes,
    .work nodeA.bytes, .recv nodeA.bytes .succ, .recv nodeA.bytes .succ, .dispense nodeA.bytes,
    .work nodeA.bytes]

theorem oneLeft_survived : ∃ s, run step emptySys oneLeft = .ok s :=
  (restarts_orderly emptySys emptySys_initial oneLeft (by decide)).2.1 (by decide)

/-- Two messages are sent and stay in the channel. The worker sends both again,
and the third event of the new process has a number below its last one; or the
new process answers before the worker sends. -/
theorem twoLeft_aborts :
    run step emptySys [.push [1], .push [2], .startIncr nodeA 0, .dispense nodeA.bytes,
        .work nodeA.bytes, .work nodeA.bytes, .crash nodeA.bytes .waiting, .startIncr nodeA 0,
        .dispense nodeA.bytes, .work nodeA.bytes, .work nodeA.bytes, .recv nodeA.bytes .succ,
        .recv nodeA.bytes .succ, .recv nodeA.bytes .succ] = .error .clientSeq ∧
      run step emptySys [.push [1], .push [2], .startIncr nodeA 0, .dispense nodeA.bytes,
        .work nodeA.bytes, .work nodeA.bytes, .crash nodeA.bytes .waiting, .startIncr nodeA 0,
        .dispense nodeA.bytes, .work nodeA.bytes, .recv nodeA.bytes .succ, .dispense nodeA.bytes,
        .work nodeA.bytes] = .error .chkNotRestart :=
  ⟨rfl, rfl⟩

end Supex.Pole
