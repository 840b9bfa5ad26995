import Supex.Linkup.Pool

/-!
# Where the connections are

Every open connection is in one slot of one queue, or used by one running command, as long
as no queue is full when a connection comes back to it; and every member that a command can
choose has a queue, as long as `add_to_pool` adds no member with an address that has none.

Main result: `pool_kept`.
-/

namespace Supex.Linkup

open Supex.Lib List
open Function (update update_eq_self update_idem update_of_ne update_self)

--
-- Places
--

/-- Where a connection can be. -/
inductive Place where
  | slot (addr : Bytes) (i : Int)
  | command (co : Nat)
  deriving DecidableEq

def Pool.inside (s : Pool) : Place → Option Nat
  | .slot addr i => (s.skts addr).bind fun queue => queue.value i
  | .command co => (s.running co).map Cmd.sock

def Pool.custody (s : Pool) : Custody Place where
  inside := s.inside
  alive := s.isOpen
  next := s.tries

/-- The member that a command can choose has a queue. -/
def Pool.Served (env : Env) (s : Pool) : Prop :=
  ∀ sel memb, s.fetch env sel = some memb → s.skts memb.addr ≠ none

/-- Every open connection is in exactly one place, and a connection in a place is open. -/
def Pool.Kept (env : Env) (s : Pool) : Prop := s.Served env ∧ s.custody.Exact

/-- The queues are rings, and a running command has one. -/
structure Pool.Sound (s : Pool) : Prop where
  queues : ∀ addr queue, s.skts addr = some queue → queue.WF
  queued : ∀ co c, s.running co = some c → s.skts c.memb.addr ≠ none
  fresh : s.custody.Fresh

/-- What the parts of a step do to the connections. -/
structure Carries (s s' : Pool) : Prop where
  moves : s.custody.Moves s'.custody
  queues : ∀ addr queue, s'.skts addr = some queue → queue.WF
  queued : ∀ co c, s'.running co = some c → s'.skts c.memb.addr ≠ none
  grows : ∀ addr, s.skts addr ≠ none → s'.skts addr ≠ none
  pools : s'.pools = s.pools

variable {env : Env} {s s₁ s' : Pool} {addr : Bytes} {co : Nat}

theorem Carries.refl (hs : s.Sound) : Carries s s :=
  ⟨.refl _, hs.queues, hs.queued, fun _ h => h, rfl⟩

theorem Carries.trans (h : Carries s s₁) (h' : Carries s₁ s') : Carries s s' :=
  ⟨h.moves.trans h'.moves, h'.queues, h'.queued, fun addr ha => h'.grows addr (h.grows addr ha),
    h'.pools.trans h.pools⟩

theorem Carries.sound (h : Carries s s') (hs : s.Sound) : s'.Sound :=
  ⟨h.queues, h.queued, h.moves.fresh hs.fresh⟩

--
-- The queues
--

variable {queue : Queue} {c : Cmd} {save : Save} {name : Bytes} {memb : Memb}

theorem inside_setQueue {queue' : Queue} {i : Int} {v : Option Nat} (hq : s.skts addr = some queue)
    (hv : queue'.value = update queue.value i v) :
    Pool.inside { s with skts := update s.skts addr (some queue') } =
      update s.inside (.slot addr i) v := by
  funext p
  cases p with
  | command co =>
    have hne : Place.command co ≠ .slot addr i := nofun
    rw [update_of_ne hne]
    rfl
  | slot addr' j =>
    by_cases ha : addr' = addr
    · subst ha
      by_cases hj : j = i
      · subst hj
        simp [Pool.inside, hv]
      · simp [Pool.inside, hv, hq, hj]
    · have hne : Place.slot addr' j ≠ .slot addr i := fun h => ha (Place.slot.inj h).1
      simp [Pool.inside, hne, ha]

theorem inside_setRunning (s : Pool) (co : Nat) (c : Option Cmd) :
    Pool.inside { s with running := update s.running co c } =
      update s.inside (.command co) (c.map Cmd.sock) := by
  funext p
  cases p with
  | slot addr i =>
    have hne : Place.slot addr i ≠ .command co := nofun
    rw [update_of_ne hne]
    rfl
  | command co' =>
    by_cases h : co' = co
    · subst h
      simp [Pool.inside]
    · have hne : Place.command co' ≠ .command co := fun h' => h (Place.command.inj h')
      simp [Pool.inside, h, hne]

theorem pull_cases (hs : s.Sound) (addr : Bytes) :
    (s.pull addr = (none, s) ∧ ∀ queue, s.skts addr = some queue → queue.counter = 0) ∨
      ∃ queue sock, s.skts addr = some queue ∧ queue.counter ≠ 0 ∧
        queue.value queue.first = some sock ∧ s.pull addr = (some sock,
          { s with skts := update s.skts addr (some queue.pull.2) }) := by
  rw [Pool.pull]
  split
  · rename_i hnone
    refine .inl ⟨rfl, fun queue hq => ?_⟩
    rw [hnone] at hq
    cases hq
  · rename_i queue hq
    by_cases hzero : queue.counter = 0
    · refine .inl ⟨?_, fun queue' hq' => ?_⟩
      · have hpull : queue.pull = (none, queue) := by rw [Queue.pull, if_pos hzero]
        rw [hpull, ← hq, update_eq_self]
      · rw [hq] at hq'
        exact Option.some.inj hq' ▸ hzero
    · obtain ⟨sock, hsock⟩ := (hs.queues addr queue hq).pull_filled hzero
      refine .inr ⟨queue, sock, hq, hzero, hsock, ?_⟩
      have hpull : queue.pull.1 = some sock := by rw [Queue.pull, if_neg hzero, hsock]
      rw [hpull]

theorem value_pull (h : queue.counter ≠ 0) :
    queue.pull.2.value = update queue.value queue.first none := by
  rw [Queue.pull, if_neg h]

theorem value_push (h : ¬queue.Full) (sock : Nat) :
    (queue.push sock).2.value =
      update queue.value ((queue.last + 1) % queue.maxindex) (some sock) := by
  rw [Queue.push, if_neg h]

theorem queues_setQueue (hs : s.Sound) (hq : queue.WF) :
    ∀ addr' queue', update s.skts addr (some queue) addr' = some queue' → queue'.WF := by
  intro addr' queue' h
  by_cases ha : addr' = addr
  · subst ha
    rw [update_self] at h
    exact Option.some.inj h ▸ hq
  · rw [update_of_ne ha] at h
    exact hs.queues addr' queue' h

theorem grows_setQueue (addr' : Bytes) (h : s.skts addr' ≠ none) :
    update s.skts addr (some queue) addr' ≠ none := by
  by_cases ha : addr' = addr
  · subst ha
    rw [update_self]
    nofun
  · rwa [update_of_ne ha]

--
-- Rounds
--

theorem queued_setRunning {skts : Bytes → Option Queue} {running : Nat → Option Cmd}
    (h : ∀ co c, running co = some c → skts c.memb.addr ≠ none) (hc : skts c.memb.addr ≠ none) :
    ∀ co' c', update running co (some c) co' = some c' → skts c'.memb.addr ≠ none := by
  intro co' c' h'
  by_cases hco : co' = co
  · subst hco
    rw [update_self] at h'
    exact Option.some.inj h' ▸ hc
  · rw [update_of_ne hco] at h'
    exact h co' c' h'

theorem queued_clearRunning {skts : Bytes → Option Queue} {running : Nat → Option Cmd}
    (h : ∀ co c, running co = some c → skts c.memb.addr ≠ none) :
    ∀ co' c', update running co none co' = some c' → skts c'.memb.addr ≠ none := by
  intro co' c' h'
  by_cases hco : co' = co
  · subst hco
    rw [update_self] at h'
    cases h'
  · rw [update_of_ne hco] at h'
    exact h co' c' h'

/-- The state with a new connection that nobody has. -/
def Pool.opened (s : Pool) : Pool :=
  { s with tries := s.tries + 1, isOpen := Function.update s.isOpen s.tries true }

theorem newConnect_up (h : env.up s.tries = true) :
    s.newConnect env = (some s.tries, s.opened) := by
  rw [Pool.newConnect, if_pos h]
  rfl

theorem newConnect_down (h : ¬env.up s.tries = true) :
    s.newConnect env = (none, { s with tries := s.tries + 1 }) := by
  rw [Pool.newConnect, if_neg h]

theorem custody_take {sock : Nat} (hq : s.skts addr = some queue) (hsome : queue.counter ≠ 0)
    (hc : c.sock = sock) :
    Pool.custody { s with
      skts := update s.skts addr (some queue.pull.2)
      running := update s.running co (some c) } =
      s.custody.move (.slot addr queue.first) (.command co) sock := by
  have hqueue := inside_setQueue hq (value_pull hsome)
  have hrunning := inside_setRunning
    { s with skts := update s.skts addr (some queue.pull.2) } co (some c)
  rw [Pool.custody, hrunning, hqueue, Option.map_some, hc]
  rfl

theorem custody_new (hc : c.sock = s.tries) :
    Pool.custody { s.opened with
      running := update s.running co (some c) } = s.custody.enter (.command co) := by
  have hrunning := inside_setRunning s co (some c)
  rw [Option.map_some, hc] at hrunning
  exact congrArg (fun f => Custody.mk f (update s.isOpen s.tries true) (s.tries + 1))
    hrunning

theorem await_carries (hs : s.Sound) (hco : s.running co = none) (hqueue : s.skts memb.addr ≠ none)
    (rest left : Nat) : Carries s (Pool.await co memb rest (s.rounds env memb.addr left)) := by
  induction left generalizing s with
  | zero => exact .refl hs
  | succ left ih =>
    have hplace : s.inside (.command co) = none := by rw [Pool.inside, hco]; rfl
    rw [Pool.rounds]
    rcases pull_cases hs memb.addr with ⟨hpull, -⟩ | ⟨queue, sock, hq, hsome, hsock, hpull⟩
    · by_cases hup : env.up s.tries = true
      · simp only [hpull, newConnect_up hup]
        refine ⟨?_, hs.queues, queued_setRunning hs.queued hqueue, fun _ h => h, rfl⟩
        refine .enter (.command co) hplace ?_
        rw [← custody_new (c := ⟨memb, s.tries, left, rest⟩) rfl]
        exact .refl _
      · have hskip : Carries s { s with tries := s.tries + 1 } :=
          ⟨.skip (.refl _), hs.queues, hs.queued, fun _ h => h, rfl⟩
        simp only [hpull, newConnect_down hup]
        exact hskip.trans (ih (hskip.sound hs) hco hqueue)
    · simp only [hpull]
      refine ⟨?_, queues_setQueue hs (hs.queues _ queue hq).pull, queued_setRunning
        (fun co c hc => grows_setQueue _ (hs.queued co c hc)) (grows_setQueue _ hqueue),
        fun _ => grows_setQueue _, rfl⟩
      have hslot : s.inside (.slot memb.addr queue.first) = some sock := by
        rw [Pool.inside, hq]
        exact hsock
      refine .move (.slot memb.addr queue.first) (.command co) sock hslot hplace ?_
      rw [← custody_take (c := ⟨memb, sock, left, rest⟩) hq hsome rfl]
      exact .refl _

theorem launch_carries (env : Env) (hs : s.Sound) (hco : s.running co = none) (memb : Memb)
    (calls : Nat) :
    Carries s (s.launch env co memb calls) := by
  unfold Pool.launch
  split
  · exact .refl hs
  · split
    · exact .refl hs
    · rename_i queue hq
      refine await_carries hs hco ?_ _ _
      rw [hq]
      nofun

--
-- Replies
--

/-- The queue of the address has no space. -/
def Pool.Full (s : Pool) (addr : Bytes) : Prop := ∃ queue, s.skts addr = some queue ∧ queue.Full

/-- A connection is open, and nobody has it. -/
def Pool.Leaks (s : Pool) : Prop := ∃ c, s.custody.Lost c

theorem Pool.Leaks.not_exact (h : s.Leaks) : ¬s.custody.Exact := by
  obtain ⟨c, hlost⟩ := h
  exact hlost.not_exact

theorem Pool.Leaks.carries (h : s.Leaks) (hs : s.Sound) (h' : Carries s s') : s'.Leaks := by
  obtain ⟨c, hlost⟩ := h
  exact ⟨c, h'.moves.lost hs.fresh hlost⟩

theorem custody_giveBack {sock : Nat} (hq : s.skts addr = some queue) (hspace : ¬queue.Full) :
    Pool.custody { s with
      skts := update s.skts addr (some (queue.push sock).2)
      running := update s.running co none } =
      s.custody.move (.command co) (.slot addr ((queue.last + 1) % queue.maxindex)) sock := by
  have hrunning := inside_setRunning s co none
  have hqueue := inside_setQueue (s := { s with running := update s.running co none })
    hq (value_push hspace sock)
  rw [Pool.custody, hqueue, hrunning]
  rfl

theorem running_clear : (update s.running co none) co = none := update_self ..

theorem inside_command (hco : s.running co = some c) : s.inside (.command co) = some c.sock := by
  rw [Pool.inside, hco]
  rfl

theorem reply_ok_carries (env : Env) (hs : s.Sound) (hco : s.running co = some c)
    (hspace : ¬s.Full c.memb.addr) : Carries s (s.reply env co true c) := by
  obtain ⟨queue, hq⟩ := Option.ne_none_iff_exists'.mp (hs.queued co c hco)
  have hspace : ¬queue.Full := fun hfull => hspace ⟨queue, hq, hfull⟩
  have hpush : Pool.push { s with running := update s.running co none } c.memb.addr
    c.sock =
      { s with
        skts := update s.skts c.memb.addr (some (queue.push c.sock).2)
        running := update s.running co none } := by
    rw [Pool.push]
    simp only [hq]
  have hback : Carries s { s with
      skts := update s.skts c.memb.addr (some (queue.push c.sock).2)
      running := update s.running co none } := by
    refine ⟨?_, queues_setQueue hs ((hs.queues _ queue hq).push hspace _), queued_clearRunning
      fun co c hc => grows_setQueue _ (hs.queued co c hc), fun _ => grows_setQueue _, rfl⟩
    have hslot : s.inside (.slot c.memb.addr ((queue.last + 1) % queue.maxindex)) = none := by
      rw [Pool.inside, hq]
      exact (hs.queues _ queue hq).push_empty hspace
    refine .move (.command co) (.slot c.memb.addr ((queue.last + 1) % queue.maxindex)) c.sock
      (inside_command hco) hslot ?_
    rw [← custody_giveBack hq hspace]
    exact .refl _
  rw [Pool.reply, if_pos rfl, hpush]
  exact hback.trans (launch_carries env (hback.sound hs) running_clear c.memb c.rest)

theorem reply_fail_carries (env : Env) (hs : s.Sound) (hco : s.running co = some c) :
    Carries s (s.reply env co false c) := by
  have hclose : Carries s (Pool.close { s with running := update s.running co none }
    c.sock) := by
    refine ⟨?_, hs.queues, queued_clearRunning hs.queued, fun _ h => h, rfl⟩
    refine .leave (.command co) c.sock (inside_command hco) ?_
    have hrunning := inside_setRunning s co none
    have hcustody : Pool.custody
        (Pool.close { s with running := update s.running co none } c.sock) =
        s.custody.leave (.command co) c.sock :=
      congrArg (fun f => Custody.mk f (update s.isOpen c.sock false) s.tries) hrunning
    rw [← hcustody]
    exact .refl _
  rw [Pool.reply, if_neg nofun]
  exact hclose.trans (await_carries (hclose.sound hs) running_clear
    (hs.queued co c hco) c.rest c.rounds)

theorem reply_full (env : Env) (hs : s.Sound) (hco : s.running co = some c)
    (hfull : s.Full c.memb.addr) :
    (s.reply env co true c).Sound ∧ (s.custody.Exact → (s.reply env co true c).Leaks) := by
  obtain ⟨queue, hq, hfull⟩ := hfull
  have hpush : Pool.push { s with running := update s.running co none } c.memb.addr
    c.sock =
      { s with running := update s.running co none } := by
    have hsame : (queue.push c.sock).2 = queue := by rw [Queue.push, if_pos hfull]
    rw [Pool.push]
    simp only [hq, hsame]
    rw [← hq, update_eq_self]
  have hinside {p : Place} {d : Nat} :
      Pool.inside { s with running := update s.running co none } p = some d ↔
        p ≠ .command co ∧ s.inside p = some d := by
    have h : Pool.inside { s with running := update s.running co none } =
      update s.inside (.command co) none := inside_setRunning s co none
    rw [h, Custody.update_none_eq_some]
  have hsound : Pool.Sound { s with running := update s.running co none } :=
    ⟨hs.queues, queued_clearRunning hs.queued,
      fun p d hp => hs.fresh.inside p d (hinside.mp hp).2, hs.fresh.alive⟩
  have hlaunch := launch_carries env hsound running_clear c.memb c.rest
  rw [Pool.reply, if_pos rfl, hpush]
  refine ⟨hlaunch.sound hsound, fun hexact => ?_⟩
  have hleaks : Pool.Leaks { s with running := update s.running co none } := by
    refine ⟨c.sock, (hexact.alive_iff c.sock).mpr ⟨.command co, inside_command hco⟩,
      fun p hp => ?_⟩
    obtain ⟨hne, hp⟩ := hinside.mp hp
    exact hne (hexact.unique _ _ _ hp (inside_command hco))
  exact hleaks.carries hsound hlaunch

--
-- The members that `init` opens
--

theorem ensure_carries (hs : s.Sound) (addr : Bytes) : Carries s (s.ensure addr) := by
  unfold Pool.ensure
  split
  · exact .refl hs
  · rename_i hnone
    have hinside : Pool.inside { s with
        skts := update s.skts addr (some (Queue.new MAX_SAME_SOCK)) } = s.inside := by
      funext p
      cases p with
      | command co => rfl
      | slot addr' i =>
        by_cases ha : addr' = addr
        · subst ha
          simp [Pool.inside, hnone, Queue.new]
        · simp [Pool.inside, ha]
    refine ⟨?_, queues_setQueue hs (.new (by decide)),
      fun co c hc => grows_setQueue _ (hs.queued co c hc), fun _ => grows_setQueue _, rfl⟩
    have hcustody : Pool.custody { s with
        skts := update s.skts addr (some (Queue.new MAX_SAME_SOCK)) } = s.custody :=
      congrArg (fun f => Custody.mk f s.isOpen s.tries) hinside
    rw [hcustody]
    exact .refl _

theorem skts_ensure (s : Pool) (addr : Bytes) :
    ∃ queue, (s.ensure addr).skts addr = some queue ∧ (queue.Full ↔ s.Full addr) := by
  unfold Pool.ensure
  split
  · rename_i queue hq
    refine ⟨queue, hq, fun hfull => ⟨queue, hq, hfull⟩, ?_⟩
    rintro ⟨queue', hq', hfull⟩
    rw [hq] at hq'
    exact Option.some.inj hq' ▸ hfull
  · rename_i hnone
    refine ⟨_, update_self .., iff_of_false (by decide) ?_⟩
    rintro ⟨queue, hq, -⟩
    rw [hnone] at hq
    cases hq

theorem full_congr {queue' : Queue} (hq : s.skts addr = some queue)
    (hq' : s'.skts addr = some queue') (hfull : queue'.Full ↔ queue.Full)
    (hother : ∀ a, a ≠ addr → s'.skts a = s.skts a) (a : Bytes) : s'.Full a ↔ s.Full a := by
  by_cases ha : a = addr
  · subst ha
    simp only [Pool.Full, hq, hq', Option.some.injEq, exists_eq_left', hfull]
  · rw [Pool.Full, Pool.Full, hother a ha]

theorem full_ensure (s : Pool) (addr addr' : Bytes) :
    (s.ensure addr).Full addr' ↔ s.Full addr' := by
  by_cases ha : addr' = addr
  · subst ha
    obtain ⟨queue, hq, hfull⟩ := skts_ensure s addr'
    rw [← hfull]
    constructor
    · rintro ⟨queue', hq', h⟩
      rw [hq] at hq'
      exact Option.some.inj hq' ▸ h
    · exact fun h => ⟨queue, hq, h⟩
  · have hsame : (s.ensure addr).skts addr' = s.skts addr' := by
      unfold Pool.ensure
      split
      · rfl
      · exact update_of_ne ha _ _
    rw [Pool.Full, Pool.Full, hsame]

/-- The state with a new connection behind the others of a queue. -/
def Pool.enqueue (s : Pool) (addr : Bytes) (queue : Queue) : Pool :=
  { s with
    skts := Function.update s.skts addr (some (queue.push s.tries).2)
    tries := s.tries + 1
    isOpen := Function.update s.isOpen s.tries true }

theorem enqueue_carries (hs : s.Sound) (hq : s.skts addr = some queue) (hspace : ¬queue.Full) :
    Carries s (s.enqueue addr queue) := by
  have hwf := hs.queues addr queue hq
  refine ⟨?_, queues_setQueue hs (hwf.push hspace _),
    fun co c hc => grows_setQueue _ (hs.queued co c hc), fun _ => grows_setQueue _, rfl⟩
  have hslot : s.inside (.slot addr ((queue.last + 1) % queue.maxindex)) = none := by
    rw [Pool.inside, hq]
    exact hwf.push_empty hspace
  have hqueue := inside_setQueue hq (value_push hspace s.tries)
  have hcustody : (s.enqueue addr queue).custody =
      s.custody.enter (.slot addr ((queue.last + 1) % queue.maxindex)) :=
    congrArg (fun f => Custody.mk f (update s.isOpen s.tries true) (s.tries + 1)) hqueue
  rw [hcustody]
  exact .enter (.slot addr ((queue.last + 1) % queue.maxindex)) hslot (.refl _)

theorem custody_dequeue {sock : Nat} (hq : s.skts addr = some queue) (hsome : queue.counter ≠ 0) :
    Pool.custody { s with
      skts := update s.skts addr (some queue.pull.2)
      isOpen := update s.isOpen sock false } =
      s.custody.leave (.slot addr queue.first) sock := by
  have hqueue := inside_setQueue hq (value_pull hsome)
  exact congrArg (fun f => Custody.mk f (update s.isOpen sock false) s.tries) hqueue

theorem pullClose_carries (hs : s.Sound) (hq : s.skts addr = some queue)
    (hsome : queue.counter ≠ 0) :
    ∃ sock, s.pull addr = (some sock,
        { s with skts := update s.skts addr (some queue.pull.2) }) ∧
      Carries s (Pool.close
        { s with skts := update s.skts addr (some queue.pull.2) } sock) := by
  rcases pull_cases hs addr with ⟨-, hzero⟩ | ⟨queue', sock, hq', -, hsock, hpull⟩
  · exact absurd (hzero queue hq) hsome
  · obtain rfl : queue' = queue := Option.some.inj (hq'.symm.trans hq)
    refine ⟨sock, hpull, ?_⟩
    refine ⟨?_, queues_setQueue hs (hs.queues addr _ hq).pull,
      fun co c hc => grows_setQueue _ (hs.queued co c hc), fun _ => grows_setQueue _, rfl⟩
    have hslot : s.inside (.slot addr queue'.first) = some sock := by
      rw [Pool.inside, hq]
      exact hsock
    refine .leave (.slot addr queue'.first) sock hslot ?_
    rw [← custody_dequeue hq hsome]
    exact .refl _

@[simp] theorem ensure_tries (s : Pool) (addr : Bytes) : (s.ensure addr).tries = s.tries := by
  unfold Pool.ensure
  split <;> rfl

/-- What every probe does. -/
structure Probed (addr : Bytes) (s s' : Pool) : Prop where
  sound : s'.Sound
  tries : s'.tries = s.tries + 1
  pools : s'.pools = s.pools
  served : s'.skts addr ≠ none
  grows : ∀ a, s.skts a ≠ none → s'.skts a ≠ none

theorem Probed.of_carries (hs : s.Sound) (h : Carries (s.ensure addr) s')
    (htries : s'.tries = s.tries + 1) : Probed addr s s' := by
  have hensure := ensure_carries hs addr
  refine ⟨h.sound (hensure.sound hs), htries, h.pools.trans hensure.pools, h.grows addr ?_,
    (hensure.trans h).grows⟩
  obtain ⟨queue, hq, -⟩ := skts_ensure s addr
  rw [hq]
  nofun

theorem probe_down (hs : s.Sound) (addr : Bytes) (hup : ¬env.up s.tries = true) :
    Probed addr s (s.probe env addr) ∧ Carries s (s.probe env addr) ∧
      ∀ a, (s.probe env addr).Full a ↔ s.Full a := by
  have hprobe : s.probe env addr = { s.ensure addr with tries := s.tries + 1 } := by
    have hup : ¬env.up (s.ensure addr).tries = true := by rwa [ensure_tries]
    rw [Pool.probe, newConnect_down hup, ensure_tries]
  have hensure := ensure_carries hs addr
  have hsound := hensure.sound hs
  have hskip : Carries (s.ensure addr) { s.ensure addr with tries := s.tries + 1 } := by
    refine ⟨?_, hsound.queues, hsound.queued, fun _ h => h, rfl⟩
    rw [← ensure_tries s addr]
    exact .skip (.refl _)
  rw [hprobe]
  exact ⟨.of_carries hs hskip rfl, hensure.trans hskip, full_ensure s addr⟩

theorem probe_up (hs : s.Sound) (addr : Bytes) (hup : env.up s.tries = true)
    (hspace : ¬s.Full addr) :
    Probed addr s (s.probe env addr) ∧ Carries s (s.probe env addr) ∧
      ∀ a, (s.probe env addr).Full a ↔ s.Full a := by
  obtain ⟨queue, hq, hfull⟩ := skts_ensure s addr
  have hspace : ¬queue.Full := fun h => hspace (hfull.mp h)
  have hensure := ensure_carries hs addr
  have hsound := hensure.sound hs
  have henqueue := enqueue_carries hsound hq hspace
  have hq₁ : ((s.ensure addr).enqueue addr queue).skts addr =
      some (queue.push (s.ensure addr).tries).2 := update_self ..
  have hpushed : (queue.push (s.ensure addr).tries).2.counter = queue.counter + 1 ∧
      (queue.push (s.ensure addr).tries).2.maxindex = queue.maxindex := by
    rw [Queue.push, if_neg hspace]
    exact ⟨rfl, rfl⟩
  obtain ⟨sock, hpull, hclose⟩ := pullClose_carries (henqueue.sound hsound) hq₁
    (by rw [hpushed.1]; exact Nat.succ_ne_zero _)
  have hprobe : s.probe env addr = Pool.close { (s.ensure addr).enqueue addr queue with
      skts := update ((s.ensure addr).enqueue addr queue).skts addr
        (some (queue.push (s.ensure addr).tries).2.pull.2) } sock := by
    have hup : env.up (s.ensure addr).tries = true := by rwa [ensure_tries]
    have hpush : (s.ensure addr).opened.push addr (s.ensure addr).tries =
        (s.ensure addr).enqueue addr queue := by
      have hq : (s.ensure addr).opened.skts addr = some queue := hq
      rw [Pool.push]
      simp only [hq]
      rfl
    rw [Pool.probe]
    simp only [newConnect_up hup, hpush, hpull]
  rw [hprobe]
  refine ⟨.of_carries hs (henqueue.trans hclose) ?_, hensure.trans (henqueue.trans hclose),
    fun a => ?_⟩
  · exact congrArg (· + 1) (ensure_tries s addr)
  · rw [← full_ensure s addr]
    refine full_congr hq (update_self ..) ?_ (fun a ha => ?_) a
    · rw [Queue.Full, Queue.Full, Queue.pull, hpushed.1, if_neg (Nat.succ_ne_zero _)]
      change (queue.push (s.ensure addr).tries).2.maxindex ≤ queue.counter ↔ _
      rw [hpushed.2]
    · exact (update_of_ne ha _ _).trans (update_of_ne ha _ _)

theorem probe_full (hs : s.Sound) (addr : Bytes) (hup : env.up s.tries = true)
    (hfull : s.Full addr) : Probed addr s (s.probe env addr) ∧ (s.probe env addr).Leaks := by
  obtain ⟨queue, hq, hiff⟩ := skts_ensure s addr
  have hfull : queue.Full := hiff.mpr hfull
  have hensure := ensure_carries hs addr
  have hsound := hensure.sound hs
  have hopen : (s.ensure addr).opened.Sound := by
    refine ⟨hsound.queues, hsound.queued, fun p c hp => ?_, fun c hc => ?_⟩
    · exact Nat.lt_succ_of_lt (hsound.fresh.inside p c hp)
    · change update (s.ensure addr).isOpen (s.ensure addr).tries true c = true at hc
      by_cases hnext : c = (s.ensure addr).tries
      · exact hnext ▸ Nat.lt_succ_self _
      · rw [update_of_ne hnext] at hc
        exact Nat.lt_succ_of_lt (hsound.fresh.alive c hc)
  have hleaks : (s.ensure addr).opened.Leaks :=
    ⟨(s.ensure addr).tries, update_self ..,
      fun p hp => absurd (hsound.fresh.inside p _ hp) (Nat.lt_irrefl _)⟩
  have hq : (s.ensure addr).opened.skts addr = some queue := hq
  have hsome : queue.counter ≠ 0 := by
    have hle : queue.maxindex ≤ queue.counter := hfull
    have := (hopen.queues addr queue hq).pos
    omega
  obtain ⟨sock, hpull, hclose⟩ := pullClose_carries hopen hq hsome
  have hprobe : s.probe env addr = Pool.close { (s.ensure addr).opened with
      skts := update (s.ensure addr).skts addr (some queue.pull.2) } sock := by
    have hup : env.up (s.ensure addr).tries = true := by rwa [ensure_tries]
    have hpush : (s.ensure addr).opened.push addr (s.ensure addr).tries =
        (s.ensure addr).opened := by
      have hsame : (queue.push (s.ensure addr).tries).2 = queue := by rw [Queue.push, if_pos hfull]
      rw [Pool.push]
      simp only [hq, hsame]
      rw [← hq, update_eq_self]
    rw [Pool.probe]
    simp only [newConnect_up hup, hpush, hpull]
    rfl
  rw [hprobe]
  refine ⟨⟨hclose.sound hopen, ?_, hclose.pools.trans hensure.pools, hclose.grows addr ?_,
    fun a ha => hclose.grows a (hensure.grows a ha)⟩, hleaks.carries hopen hclose⟩
  · exact congrArg (· + 1) (ensure_tries s addr)
  · rw [hq]
    simp

--
-- What `init` does to the pools
--

/-- The same connections with other tables. -/
def Pool.withTables (s : Pool) (lists : Bytes → Option PoolConf) (pools : Bytes → Option Save) :
    Pool := { s with lists := lists, pools := pools }

theorem probe_withTables (s : Pool) (lists : Bytes → Option PoolConf)
    (pools : Bytes → Option Save) (addr : Bytes) :
    (s.withTables lists pools).probe env addr = (s.probe env addr).withTables lists pools := by
  have hensure : (s.withTables lists pools).ensure addr =
    (s.ensure addr).withTables lists pools := by
    simp only [Pool.ensure, Pool.withTables]
    cases s.skts addr <;> rfl
  have hpull (s : Pool) : (s.withTables lists pools).pull addr =
      ((s.pull addr).1, (s.pull addr).2.withTables lists pools) := by
    simp only [Pool.pull, Pool.withTables]
    cases s.skts addr <;> rfl
  have hpush (s : Pool) (sock : Nat) : (s.withTables lists pools).push addr sock =
      (s.push addr sock).withTables lists pools := by
    simp only [Pool.push, Pool.withTables]
    cases s.skts addr <;> rfl
  rw [Pool.probe, Pool.probe, hensure]
  by_cases hup : env.up (s.ensure addr).tries = true
  · have hup' : env.up ((s.ensure addr).withTables lists pools).tries = true := hup
    have hopened : ((s.ensure addr).withTables lists pools).opened =
        (s.ensure addr).opened.withTables lists pools := rfl
    have htries : ((s.ensure addr).withTables lists pools).tries = (s.ensure addr).tries := rfl
    simp only [newConnect_up hup, newConnect_up hup', hopened, htries, hpush, hpull]
    rcases ((s.ensure addr).opened.push addr (s.ensure addr).tries).pull addr with ⟨_ | sock, s'⟩
    · rfl
    · rfl
  · have hup' : ¬env.up ((s.ensure addr).withTables lists pools).tries = true := hup
    simp only [newConnect_down hup, newConnect_down hup']
    rfl

/-- Probes one after the other. -/
def Pool.probeAll (env : Env) : List Memb → Pool → Pool
  | [], s => s
  | memb :: list, s => Pool.probeAll env list (s.probe env memb.addr)

theorem probeAll_append (l₁ l₂ : List Memb) (s : Pool) :
    Pool.probeAll env (l₁ ++ l₂) s = Pool.probeAll env l₂ (Pool.probeAll env l₁ s) := by
  induction l₁ generalizing s with
  | nil => rfl
  | cons memb l₁ ih => exact ih _

theorem probeAll_withTables (list : List Memb) (s : Pool) (lists : Bytes → Option PoolConf)
    (pools : Bytes → Option Save) :
    Pool.probeAll env list (s.withTables lists pools) =
      (Pool.probeAll env list s).withTables lists pools := by
  induction list generalizing s with
  | nil => rfl
  | cons memb list ih => rw [Pool.probeAll, probe_withTables, ih, Pool.probeAll]

theorem probe_tables (env : Env) (s : Pool) (addr : Bytes) :
    (s.probe env addr).lists = s.lists ∧ (s.probe env addr).pools = s.pools := by
  have h : s.probe env addr = (s.probe env addr).withTables s.lists s.pools :=
    probe_withTables s s.lists s.pools addr
  constructor
  · rw [h]
    rfl
  · rw [h]
    rfl

def Save.members (save : Save) : List Memb := save.list ++ save.marks.map Prod.snd

/-- What a part of `init` does: it probes the members of `list`, and makes them, and those
of `save`, the members of a pool. -/
structure Inits (env : Env) (name : Bytes) (save : Save) (list : List Memb) (s s' : Pool) :
    Prop where
  conns : s' = (Pool.probeAll env list s).withTables s.lists s'.pools
  pools : ∃ save', s'.pools = Function.update s.pools name (some save') ∧
    ∀ memb ∈ save'.members, memb ∈ save.members ∨ memb ∈ list

theorem Inits.nil (h : s.pools name = some save) : Inits env name save [] s s := by
  refine ⟨rfl, save, ?_, fun memb hm => .inl hm⟩
  rw [← h, update_eq_self]

theorem Inits.cons {save₁ : Save} {list : List Memb}
    (hsave : ∀ m ∈ save₁.members, m ∈ save.members ∨ m = memb)
    (h : Inits env name save₁ list ((s.probe env memb.addr).setPool name save₁) s') :
    Inits env name save (memb :: list) s s' := by
  obtain ⟨hlists, hpools⟩ := probe_tables env s memb.addr
  obtain ⟨hconns, save', hsave', hmembers⟩ := h
  refine ⟨?_, save', ?_, fun m hm => ?_⟩
  · have hset : (s.probe env memb.addr).setPool name save₁ =
        (s.probe env memb.addr).withTables s.lists (update s.pools name (some save₁)) := by
      rw [Pool.setPool, Pool.withTables, hpools, ← hlists]
    rw [hset, probeAll_withTables] at hconns
    exact hconns
  · rw [hsave', Pool.setPool, hpools]
    exact update_idem ..
  · rcases hmembers m hm with hm | hm
    · rcases hsave m hm with hm | rfl
      · exact .inl hm
      · exact .inr (.head _)
    · exact .inr (.tail _ hm)

theorem initCustomer_inits (list : List Memb) (h : s.pools name = some save) :
    Inits env name save list s (Pool.initCustomer env name save list s) := by
  induction list generalizing save s with
  | nil => exact .nil h
  | cons memb list ih =>
    refine .cons (fun m hm => ?_) (ih (update_self ..))
    simp only [Save.members, mem_append, mem_singleton] at hm ⊢
    tauto

theorem initConsistent_inits (list : List Memb) (h : s.pools name = some save) :
    Inits env name save list s (Pool.initConsistent env name save list s) := by
  induction list generalizing save s with
  | nil => exact .nil h
  | cons memb list ih =>
    refine .cons (fun m hm => ?_) (ih (update_self ..))
    simp only [Save.members, mem_append, mem_singleton] at hm ⊢
    tauto

/-- The members up to a mark that is there, and whether there is none. -/
def Save.appointed : Save → List Memb → Bool × List Memb
  | _, [] => (true, [])
  | save, memb :: list =>
    if save.marked memb.mark then (false, [])
    else
      let r := Save.appointed { save with marks := save.marks ++ [(memb.mark, memb)] } list
      (r.1, memb :: r.2)

theorem initAppoint_inits (env : Env) (list : List Memb) (h : s.pools name = some save) :
    (Pool.initAppoint env name save list s).1 = (save.appointed list).1 ∧
      Inits env name save (save.appointed list).2 s (Pool.initAppoint env name save list s).2 := by
  induction list generalizing save s with
  | nil => exact ⟨rfl, .nil h⟩
  | cons memb list ih =>
    rw [Pool.initAppoint, Save.appointed]
    split
    · exact ⟨rfl, .nil h⟩
    · obtain ⟨hflag, hinits⟩ := ih (s := (s.probe env memb.addr).setPool name
        { save with marks := save.marks ++ [(memb.mark, memb)] }) (update_self ..)
      refine ⟨hflag, .cons (fun m hm => ?_) hinits⟩
      simp only [Save.members, mem_append, map_append, map_cons, map_nil,
        mem_singleton] at hm ⊢
      tauto

/-- The members that `init` probes for a list, and whether it goes on with the next one. -/
def PoolConf.probed (list : PoolConf) : Bool × List Memb :=
  if list.list = [] then (true, [list.single])
  else
    match list.hash with
    | .customer => (true, list.list)
    | .consistent => (true, list.list)
    | .appoint => Save.appointed { Save.empty with hash := some .appoint } list.list
    | .other => (false, [])

theorem Inits.setPool {save₀ : Save} {ms : List Memb}
    (h : Inits env name save ms (s.setPool name save₀) s') : Inits env name save ms s s' := by
  obtain ⟨hconns, save', hsave', hmembers⟩ := h
  have hprobe : Pool.probeAll env ms (s.setPool name save₀) =
      (Pool.probeAll env ms s).withTables s.lists (s.setPool name save₀).pools :=
    probeAll_withTables ms s s.lists (s.setPool name save₀).pools
  refine ⟨?_, save', ?_, hmembers⟩
  · rw [hprobe] at hconns
    exact hconns
  · rw [hsave', Pool.setPool, update_idem]

theorem initPool_inits (env : Env) (s : Pool) (name : Bytes) (list : PoolConf) :
    (s.initPool env name list).1 = list.probed.1 ∧ ∃ save, save.members = [] ∧
      Inits env name save list.probed.2 s (s.initPool env name list).2 := by
  rw [Pool.initPool, PoolConf.probed]
  by_cases hnil : list.list = []
  · rw [if_pos hnil, if_pos hnil]
    refine ⟨rfl, .empty, rfl, .setPool (.cons (fun m hm => ?_) (.nil (update_self ..)))⟩
    exact .inr (mem_singleton.mp hm)
  · rw [if_neg hnil, if_neg hnil]
    cases list.hash with
    | customer =>
      exact ⟨rfl, _, rfl, .setPool (.setPool (initCustomer_inits _ (update_self ..)))⟩
    | consistent =>
      exact ⟨rfl, _, rfl, .setPool (.setPool (initConsistent_inits _ (update_self ..)))⟩
    | appoint =>
      have hsave : ((s.setPool name .empty).setPool name
          { Save.empty with hash := some .appoint }).pools name =
          some { Save.empty with hash := some .appoint } := update_self ..
      obtain ⟨hflag, hinits⟩ := initAppoint_inits env list.list hsave
      exact ⟨hflag, _, rfl, .setPool (.setPool hinits)⟩
    | other =>
      refine ⟨rfl, .empty, rfl, rfl, .empty, rfl, nofun⟩

/-- The members that `init` probes. -/
def probed (lists : Bytes → Option PoolConf) : List Bytes → List Memb
  | [] => []
  | name :: order =>
    match lists name with
    | none => probed lists order
    | some list =>
      match list.probed with
      | (true, ms) => ms ++ probed lists order
      | (false, ms) => ms

theorem initAll_spec (env : Env) (order : List Bytes) (s : Pool) :
    s.initAll env order = (Pool.probeAll env (probed s.lists order) s).withTables s.lists
      (s.initAll env order).pools ∧
    ∀ name, (s.initAll env order).pools name = s.pools name ∨
      ∃ save, (s.initAll env order).pools name = some save ∧
        ∀ memb ∈ save.members, memb ∈ probed s.lists order := by
  induction order generalizing s with
  | nil => exact ⟨rfl, fun name => .inl rfl⟩
  | cons name order ih =>
    rw [Pool.initAll, probed]
    cases hlist : s.lists name with
    | none => exact ih s
    | some list =>
      obtain ⟨hflag, save, hnone, hinits⟩ := initPool_inits env s name list
      rcases hr : s.initPool env name list with ⟨b, s₁⟩
      rcases hp : list.probed with ⟨b', ms⟩
      rw [hr, hp] at hflag hinits
      obtain rfl : b = b' := hflag
      have hinits : Inits env name save ms s s₁ := hinits
      obtain ⟨hconns, save', hsave', hmembers⟩ := hinits
      simp only [hr, hp]
      have hms : ∀ memb ∈ save'.members, memb ∈ ms := by
        intro memb hm
        refine (hmembers memb hm).resolve_left ?_
        rw [hnone]
        nofun
      have hpools (name' : Bytes) : s₁.pools name' = s.pools name' ∨
          (s₁.pools name' = some save' ∧ ∀ memb ∈ save'.members, memb ∈ ms) := by
        rw [hsave']
        by_cases hname : name' = name
        · subst hname
          exact .inr ⟨update_self .., hms⟩
        · exact .inl (update_of_ne hname _ _)
      cases b with
      | false =>
        refine ⟨hconns, fun name' => ?_⟩
        rcases hpools name' with h | ⟨h, hm⟩
        · exact .inl h
        · exact .inr ⟨save', h, hm⟩
      | true =>
        have hlists : s₁.lists = s.lists := by
          rw [hconns]
          rfl
        obtain ⟨hrest, hnames⟩ := ih s₁
        rw [hlists] at hrest hnames
        refine ⟨?_, fun name' => ?_⟩
        · have hall : Pool.probeAll env (probed s.lists order) s₁ =
              (Pool.probeAll env (ms ++ probed s.lists order) s).withTables s.lists s₁.pools := by
            rw [probeAll_append, ← probeAll_withTables, ← hconns]
          rw [hall] at hrest
          exact hrest
        · rcases hnames name' with h | ⟨save, h, hm⟩
          · rcases hpools name' with h' | ⟨h', hm⟩
            · exact .inl (h.trans h')
            · exact .inr ⟨save', h.trans h', fun memb hmemb =>
                mem_append_left _ (hm memb hmemb)⟩
          · exact .inr ⟨save, h, fun memb hmemb => mem_append_right _ (hm memb hmemb)⟩

--
-- Steps
--

theorem probe_cases (env : Env) (hs : s.Sound) (addr : Bytes) :
    Probed addr s (s.probe env addr) ∧
      ((¬(env.up s.tries = true ∧ s.Full addr) ∧ Carries s (s.probe env addr) ∧
          ∀ a, (s.probe env addr).Full a ↔ s.Full a) ∨
        (env.up s.tries = true ∧ s.Full addr ∧ (s.probe env addr).Leaks)) := by
  by_cases hup : env.up s.tries = true
  · by_cases hfull : s.Full addr
    · obtain ⟨hprobed, hleaks⟩ := probe_full hs addr hup hfull
      exact ⟨hprobed, .inr ⟨hup, hfull, hleaks⟩⟩
    · obtain ⟨hprobed, hcarries, hsame⟩ := probe_up hs addr hup hfull
      exact ⟨hprobed, .inl ⟨fun h => hfull h.2, hcarries, hsame⟩⟩
  · obtain ⟨hprobed, hcarries, hsame⟩ := probe_down hs addr hup
    exact ⟨hprobed, .inl ⟨fun h => hup h.1, hcarries, hsame⟩⟩

/-- What a list of probes does: connections are lost exactly if one of them meets a full
queue. -/
structure ProbedAll (env : Env) (list : List Memb) (s s' : Pool) : Prop where
  sound : s'.Sound
  grows : ∀ a, s.skts a ≠ none → s'.skts a ≠ none
  served : ∀ memb ∈ list, s'.skts memb.addr ≠ none
  leaks : s.Leaks → s'.Leaks
  moves : (∀ (k : Nat) memb, list[k]? = some memb → env.up (s.tries + k) = true →
    ¬s.Full memb.addr) → s.custody.Moves s'.custody
  loses : ∀ (k : Nat) memb, list[k]? = some memb → env.up (s.tries + k) = true →
    s.Full memb.addr → s'.Leaks

theorem probeAll_spec (env : Env) (list : List Memb) (hs : s.Sound) :
    ProbedAll env list s (Pool.probeAll env list s) := by
  induction list generalizing s with
  | nil => exact ⟨hs, fun _ h => h, nofun, fun h => h, fun _ => .refl _, nofun⟩
  | cons memb list ih =>
    obtain ⟨hprobed, hcases⟩ := probe_cases env hs memb.addr
    have hrest := ih hprobed.sound
    have htries (k : Nat) : (s.probe env memb.addr).tries + k = s.tries + (k + 1) := by
      rw [hprobed.tries]
      omega
    rw [Pool.probeAll]
    refine ⟨hrest.sound, fun a ha => hrest.grows a (hprobed.grows a ha), ?_, ?_, ?_, ?_⟩
    · intro memb' hm
      rcases mem_cons.mp hm with rfl | hm
      · exact hrest.grows _ hprobed.served
      · exact hrest.served memb' hm
    · intro hleaks
      rcases hcases with ⟨-, hcarries, -⟩ | ⟨-, -, hleaks'⟩
      · exact hrest.leaks (hleaks.carries hs hcarries)
      · exact hrest.leaks hleaks'
    · intro hfits
      rcases hcases with ⟨-, hcarries, hsame⟩ | ⟨hup, hfull, -⟩
      · refine hcarries.moves.trans (hrest.moves fun k memb' hk hup => ?_)
        rw [hsame]
        rw [htries] at hup
        exact hfits (k + 1) memb' hk hup
      · exact absurd hfull (hfits 0 memb rfl hup)
    · intro k memb' hk hup hfull
      rcases hcases with ⟨hnot, -, hsame⟩ | ⟨-, -, hleaks⟩
      · cases k with
        | zero =>
          obtain rfl : memb = memb' := Option.some.inj hk
          exact absurd ⟨hup, hfull⟩ hnot
        | succ k =>
          refine hrest.loses k memb' hk ?_ ((hsame _).mpr hfull)
          rwa [htries]
      · exact hrest.leaks hleaks

--
-- The members that a command can choose
--

def Select.redname : Select → Bytes
  | .just redname _ => redname
  | .hash redname _ => redname
  | .only redname => redname

theorem lookup_mem {key : Option Bytes} (h : save.lookup env key = some memb) :
    memb ∈ save.members := by
  unfold Save.lookup at h
  split at h
  · dsimp only at h
    split at h
    · cases h
    · exact mem_append_left _ (mem_of_getElem? h)
  · obtain ⟨node, -, h⟩ := Option.bind_eq_some_iff.mp h
    obtain ⟨i, -, h⟩ := Option.bind_eq_some_iff.mp h
    exact mem_append_left _ (mem_of_getElem? h)
  · rename_i key hhash
    obtain ⟨l₁, l₂, hmarks, -⟩ := List.lookup_eq_some_iff.mp h
    refine mem_append_right _ (mem_map.mpr ⟨(key, memb), ?_, rfl⟩)
    rw [hmarks]
    simp
  · cases h

theorem fetch_mem {sel : Select} (h : s.fetch env sel = some memb) :
    ∃ save, s.pools sel.redname = some save ∧ memb ∈ save.members := by
  cases sel with
  | just redname justkey =>
    obtain ⟨save, hsave, h⟩ := Option.bind_eq_some_iff.mp h
    exact ⟨save, hsave, lookup_mem h⟩
  | hash redname hashkey =>
    obtain ⟨key, -, h⟩ := Option.bind_eq_some_iff.mp h
    obtain ⟨save, hsave, h⟩ := Option.bind_eq_some_iff.mp h
    refine ⟨save, hsave, ?_⟩
    split at h
    · cases h
    · split at h
      · exact lookup_mem h
      · exact mem_append_left _ (mem_of_getElem? h)
  | only redname =>
    obtain ⟨save, hsave, h⟩ := Option.bind_eq_some_iff.mp h
    exact ⟨save, hsave, mem_append_left _ (mem_of_getElem? h)⟩

theorem fetch_congr {sel : Select} (h : s'.pools sel.redname = s.pools sel.redname) :
    s'.fetch env sel = s.fetch env sel := by
  cases sel <;> simp only [Pool.fetch, Select.redname] at h ⊢ <;> rw [h]

theorem Pool.Served.of_tables (h : s.Served env)
    (hgrows : ∀ addr, s.skts addr ≠ none → s'.skts addr ≠ none)
    (htables : ∀ name, s'.pools name = s.pools name ∨ ∀ save, s'.pools name = some save →
      ∀ memb ∈ save.members, s'.skts memb.addr ≠ none) : s'.Served env := by
  intro sel memb hfetch
  rcases htables sel.redname with hsame | hnew
  · rw [fetch_congr hsame] at hfetch
    exact hgrows _ (h sel memb hfetch)
  · obtain ⟨save, hsave, hmem⟩ := fetch_mem hfetch
    exact hnew save hsave memb hmem

theorem Carries.kept (h : Carries s s') (hs : s.Sound) (hkept : s.Kept env) : s'.Kept env :=
  ⟨hkept.1.of_tables h.grows fun name => .inl (congrFun h.pools name),
    h.moves.exact hs.fresh hkept.2⟩

--
-- Steps
--

/-- A member is added only if its address has a queue, and no connection comes back to a
full queue. -/
def Fits (env : Env) (s : Pool) : Act → Prop
  | .init order => ∀ (k : Nat) memb, (probed s.lists order)[k]? = some memb →
      env.up (s.tries + k) = true → ¬s.Full memb.addr
  | .add redname host port =>
    let list := (s.lists redname).getD ⟨.other, host, port, []⟩
    s.pools redname = none → list.list = [] → s.skts list.single.addr ≠ none
  | .reply co true => ∀ c, s.running co = some c → ¬s.Full c.memb.addr
  | _ => True

theorem init_spec (hs : s.Sound) (order : List Bytes) :
    (s.initAll env order).Sound ∧
      (s.Kept env → ((s.initAll env order).Kept env ↔ Fits env s (.init order))) := by
  obtain ⟨hconns, htables⟩ := initAll_spec env order s
  have hall := probeAll_spec env (probed s.lists order) hs
  have hskts : (s.initAll env order).skts =
      (Pool.probeAll env (probed s.lists order) s).skts := by
    rw [hconns]
    rfl
  have hcustody : (s.initAll env order).custody =
      (Pool.probeAll env (probed s.lists order) s).custody := by
    rw [hconns]
    rfl
  have hrunning : (s.initAll env order).running =
      (Pool.probeAll env (probed s.lists order) s).running := by
    rw [hconns]
    rfl
  refine ⟨⟨?_, ?_, ?_⟩, fun hkept => ⟨?_, fun hfits => ⟨?_, ?_⟩⟩⟩
  · rw [hskts]
    exact hall.sound.queues
  · rw [hskts, hrunning]
    exact hall.sound.queued
  · rw [hcustody]
    exact hall.sound.fresh
  · rintro ⟨-, hexact⟩ k memb hk hup hfull
    obtain ⟨c, hlost⟩ := hall.loses k memb hk hup hfull
    rw [← hcustody] at hlost
    exact hlost.not_exact hexact
  · refine hkept.1.of_tables (fun addr ha => ?_) fun name => ?_
    · rw [hskts]
      exact hall.grows addr ha
    · rcases htables name with hsame | ⟨save, hsave, hmem⟩
      · exact .inl hsame
      · refine .inr fun save' hsave' memb hm => ?_
        rw [hsave] at hsave'
        obtain rfl := Option.some.inj hsave'
        rw [hskts]
        exact hall.served memb (hmem memb hm)
  · rw [hcustody]
    exact (hall.moves hfits).exact hs.fresh hkept.2

theorem Pool.Sound.of_tables (hs : s.Sound) (lists : Bytes → Option PoolConf)
    (pools : Bytes → Option Save) : (s.withTables lists pools).Sound :=
  ⟨hs.queues, hs.queued, hs.fresh⟩

theorem add_spec (hs : s.Sound) (redname host : Bytes) (port : Nat) :
    (s.addToPool redname host port).Sound ∧ (s.Kept env →
      ((s.addToPool redname host port).Kept env ↔ Fits env s (.add redname host port))) := by
  unfold Pool.addToPool Fits
  dsimp only
  generalize (s.lists redname).getD ⟨.other, host, port, []⟩ = list
  split
  · rename_i save hsave
    refine ⟨hs.of_tables _ s.pools, fun hkept => iff_of_true ⟨?_, hkept.2⟩ fun hnone => ?_⟩
    · exact hkept.1.of_tables (fun _ h => h) fun name => .inl rfl
    · rw [hsave] at hnone
      cases hnone
  · rename_i hnone
    split
    · rename_i hlist
      refine ⟨hs.of_tables _ _, fun hkept => ⟨?_, fun hfits => ⟨?_, hkept.2⟩⟩⟩
      · rintro ⟨hserved, -⟩ - -
        refine hserved (.only redname) list.single ?_
        simp [Pool.fetch, Pool.setPool]
      · refine hkept.1.of_tables (fun _ h => h) fun name => ?_
        by_cases hname : name = redname
        · subst hname
          refine .inr fun save hsave memb hm => ?_
          simp only [Pool.setPool, update_self, Option.some.injEq] at hsave
          subst hsave
          obtain rfl : memb = list.single := mem_singleton.mp hm
          exact hfits hnone hlist
        · refine .inl ?_
          simp only [Pool.setPool]
          rw [update_of_ne hname, update_of_ne hname]
    · rename_i hlist
      refine ⟨hs.of_tables _ _, fun hkept => iff_of_true ⟨?_, hkept.2⟩
        fun _ h => absurd h hlist⟩
      refine hkept.1.of_tables (fun _ h => h) fun name => ?_
      by_cases hname : name = redname
      · subst hname
        refine .inr fun save hsave memb hm => ?_
        simp only [Pool.setPool, update_self, Option.some.injEq] at hsave
        subst hsave
        cases hm
      · exact .inl (update_of_ne hname _ _)

theorem next_spec (hs : s.Sound) (a : Act) :
    (s.next env a).Sound ∧ (s.Kept env → ((s.next env a).Kept env ↔ Fits env s a)) := by
  have hcarries {s' : Pool} (h : Carries s s') : s'.Sound ∧ (s.Kept env → s'.Kept env) :=
    ⟨h.sound hs, h.kept hs⟩
  cases a with
  | init order => exact init_spec hs order
  | add redname host port => exact add_spec hs redname host port
  | del redname =>
    unfold Pool.next Pool.delFromPool
    dsimp only
    split
    · exact ⟨hs, fun hkept => iff_of_true hkept trivial⟩
    · refine ⟨hs.of_tables _ _, fun hkept => iff_of_true ⟨?_, hkept.2⟩ trivial⟩
      refine hkept.1.of_tables (fun _ h => h) fun name => ?_
      by_cases hname : name = redname
      · subst hname
        refine .inr fun save hsave => ?_
        simp only [update_self] at hsave
        cases hsave
      · exact .inl (update_of_ne hname _ _)
  | start co sel calls =>
    rw [Pool.next]
    split
    · rename_i memb hco hfetch
      have h := hcarries (launch_carries env hs hco memb calls)
      exact ⟨h.1, fun hkept => iff_of_true (h.2 hkept) trivial⟩
    · exact ⟨hs, fun hkept => iff_of_true hkept trivial⟩
  | reply co ok =>
    rw [Pool.next]
    cases hco : s.running co with
    | none =>
      refine ⟨hs, fun hkept => iff_of_true hkept ?_⟩
      cases ok with
      | false => trivial
      | true =>
        intro c hc
        rw [hco] at hc
        cases hc
    | some c =>
      cases ok with
      | false =>
        have h := hcarries (reply_fail_carries env hs hco)
        exact ⟨h.1, fun hkept => iff_of_true (h.2 hkept) trivial⟩
      | true =>
        by_cases hfull : s.Full c.memb.addr
        · obtain ⟨hsound, hleaks⟩ := reply_full env hs hco hfull
          refine ⟨hsound, fun hkept => iff_of_false ?_ fun hfits => hfits c hco hfull⟩
          exact fun hkept' => (hleaks hkept.2).not_exact hkept'.2
        · have h := hcarries (reply_ok_carries env hs hco hfull)
          refine ⟨h.1, fun hkept => iff_of_true (h.2 hkept) fun c' hc' => ?_⟩
          rw [hco] at hc'
          exact Option.some.inj hc' ▸ hfull

theorem init_sound (lists : Bytes → Option PoolConf) : (Pool.init lists).Sound where
  queues _ _ h := by cases h
  queued _ _ h := by cases h
  fresh := by
    refine ⟨fun p c hp => ?_, fun c hc => ?_⟩
    · cases p <;> cases hp
    · cases hc

theorem init_kept (env : Env) (lists : Bytes → Option PoolConf) : (Pool.init lists).Kept env := by
  refine ⟨fun sel memb h => ?_, fun c => ?_, fun p q c hp => ?_⟩
  · obtain ⟨save, hsave, -⟩ := fetch_mem h
    cases hsave
  · refine iff_of_false nofun ?_
    rintro ⟨p, hp⟩
    cases p <;> cases hp
  · cases p <;> cases hp

/-- **The pools keep their connections.** In every run, members that can be chosen have
queues and open connections are in exactly one place throughout, if and only if no member is
added whose address has no queue, and no connection comes back to a full queue. -/
theorem pool_kept (env : Env) (lists : Bytes → Option PoolConf) (acts : List Act) :
    Throughout (Pool.step env) (Pool.Kept env) (.init lists) acts ↔
      Along (Pool.step env) (Fits env) (.init lists) acts := by
  have hI : ∀ s a s', Pool.Sound s → True → s.step env a = .ok s' → s'.Sound := by
    intro s a s' hs _ h
    exact Except.ok.inj h ▸ (next_spec hs a).1
  have hP : ∀ s a s', Pool.Sound s → s.Kept env → True → s.step env a = .ok s' →
      (s'.Kept env ↔ Fits env s a) := by
    intro s a s' hs hkept _ h
    exact Except.ok.inj h ▸ (next_spec hs a).2 hkept
  have hrun : ∃ s', run (Pool.step env) (.init lists) acts = .ok s' :=
    (run_of_along (I := fun _ => True) (P := fun _ _ => True)
      (fun s a _ _ => ⟨s.next env a, rfl, trivial⟩) trivial
      (Along.of_forall fun _ _ _ => trivial)).imp fun _ h => h.1
  obtain ⟨s', hrun⟩ := hrun
  exact throughout_iff_along hI hP (init_sound lists) (init_kept env lists)
    (Along.of_forall fun _ _ _ => trivial) hrun

/-- No address is configured, and every attempt to connect succeeds. -/
def quietEnv : Env where
  up _ := true
  customHash _ _ := 0
  conhash _ _ := none

/-- `add_to_pool` makes a member, and no queue for it. -/
theorem not_kept_added : ¬∀ (env : Env) (lists : Bytes → Option PoolConf) (acts : List Act),
    Throughout (Pool.step env) (Pool.Kept env) (.init lists) acts := by
  intro h
  have hadd := (h quietEnv (fun _ => none) [.add (ascii "tsdb") (ascii "10.0.0.1") 7001]).2 _ rfl
  exact hadd.1 (.only (ascii "tsdb")) ⟨ascii "M", [], ascii "10.0.0.1", 7001, 0⟩ rfl rfl

end Supex.Linkup
