import Supex.Lib.Run
import Supex.Xmq.Queue

/-!
# libxmq — what consumers see when writes fail

`xmq_push_tail` has up to three effects on the medium, one after the other: it
opens a database, writes the message record, writes the write position. Each
of them can fail, and then the push returns `-1`. Readers do not look at the
write position: `xmq_pull_that` asks the database of a number for its record.

A push that fails while the database is opened or while the record is written
leaves what readers see as it was. A push that fails behind the record does
not: the record stays, under a number no push has returned 0 for, and the next
push writes another record over it. `Torn` is that case, in terms of the state
the push is called in and of the writes that fail.

Main results: `Held.push`, `torn_push_seen`, `seen_stable_of_untorn`.
-/

namespace Supex.Xmq

open List Nat

open Function (update update_of_ne update_self)

--
-- Failing writes
--

/-- Which of the effects of one push fail. -/
structure Faults where
  openDb : Bool
  message : Bool
  position : Bool

/-- The callbacks during a push with the given failures; a failed call leaves
the medium as it is. The message record is the only one of the push outside
`./kvstate`. -/
def failing {W : Type} (f : Faults) (ops : XmqOps W) : XmqOps W where
  kvCtxInit dbName w := if f.openDb then none else ops.kvCtxInit dbName w
  kvPut kvCtx key value w :=
    if (if kvCtx = kvstate then f.position else f.message) then (false, w)
    else ops.kvPut kvCtx key value w
  kvGet := ops.kvGet

/-- The next number lies in an open database, or in the one the push opens. -/
def InReach (f : Faults) (ctx : XmqCtx) : Prop :=
  (getDbHandler ctx ctx.lastWriteDbSeq).isSome ∨
    ctx.lastWriteDbSeq % ctx.kvMaxRecords = 1 ∧ f.openDb = false ∧
      ctx.lastWriteDbSeq + (ctx.kvMaxRecords - 1) < u64Size

instance (f : Faults) (ctx : XmqCtx) : Decidable (InReach f ctx) :=
  inferInstanceAs (Decidable (_ ∨ _))

/-- The push in `ctx` writes its record where a reader finds it, and then fails
to write the position. -/
def Torn (f : Faults) (ctx : XmqCtx) : Prop :=
  ctx.lastWriteDbSeq ≠ XMQ_U64_MAX ∧ InReach f ctx ∧ f.message = false ∧ f.position = true

instance (f : Faults) (ctx : XmqCtx) : Decidable (Torn f ctx) :=
  inferInstanceAs (Decidable (_ ∧ _))

--
-- Runs of pushes and pulls
--

/-- A call of a producer or of a consumer. -/
inductive Call where
  | push (f : Faults) (msg : XmqMsg)
  | pull (seq : Nat)

/-- What the callers see: a push of the number `seq` returned 0 or `-1`, a pull
of `seq` returned a message or `NULL`. -/
inductive Seen where
  | pushed (seq : Nat) (ok : Bool)
  | pulled (seq : Nat) (msg : Option Bytes)

/-- A queue and everything its callers have seen, in order. -/
structure Served (W : Type) where
  ctx : XmqCtx
  medium : W
  seen : List Seen

/-- One call. -/
def serve {W : Type} (ops : XmqOps W) (st : Served W) : Call → Except Fault (Served W)
  | .push f msg =>
    match xmqPushTail (failing f ops) st.ctx msg st.medium with
    | .error e => .error e
    | .ok (ok, ctx, w) => .ok ⟨ctx, w, st.seen ++ [.pushed st.ctx.lastWriteDbSeq ok]⟩
  | .pull seq =>
    match xmqPullThat ops st.ctx seq st.medium with
    | .error e => .error e
    | .ok msg => .ok { st with seen := st.seen ++ [.pulled seq msg] }

/-- The push of this call is not torn. -/
def Untorn {W : Type} (st : Served W) : Call → Prop
  | .push f _ => ¬Torn f st.ctx
  | .pull _ => True

instance {W : Type} (st : Served W) : (call : Call) → Decidable (Untorn st call)
  | .push f _ => inferInstanceAs (Decidable (¬Torn f st.ctx))
  | .pull _ => isTrue trivial

/-- What consumers see is stable: a number that was pulled keeps its message,
and only numbers that a push has returned 0 for have one. -/
structure Stable (seen : List Seen) : Prop where
  same : ∀ before between after seq msg r,
    seen = before ++ .pulled seq (some msg) :: (between ++ .pulled seq r :: after) → r = some msg
  null : ∀ before after seq msg,
    seen = before ++ .pulled seq (some msg) :: after → .pushed seq true ∈ before

theorem Stable.nil : Stable [] := by
  refine ⟨fun before between after seq msg r h => ?_, fun before after seq msg h => ?_⟩
  · simp at h
  · simp at h

variable {seen : List Seen}

theorem Stable.pushed (h : Stable seen) (seq : Nat) (ok : Bool) :
    Stable (seen ++ [.pushed seq ok]) := by
  refine ⟨fun before between after s msg r heq => ?_, fun before after s msg heq => ?_⟩
  · obtain ⟨-, -, hx⟩ | ⟨l, hl, hafter⟩ := Lib.concat_eq_append_cons heq
    · cases hx
    · obtain ⟨-, -, hx⟩ | ⟨l', rfl, -⟩ := Lib.concat_eq_append_cons hafter.symm
      · cases hx
      · exact h.same _ _ _ _ _ _ hl
  · obtain ⟨-, -, hx⟩ | ⟨l, hl, -⟩ := Lib.concat_eq_append_cons heq
    · cases hx
    · exact h.null _ _ _ _ hl

theorem Stable.pulled (h : Stable seen) {seq : Nat} {r : Option Bytes}
    (hsame : ∀ msg, Seen.pulled seq (some msg) ∈ seen → r = some msg)
    (hnull : r ≠ none → Seen.pushed seq true ∈ seen) : Stable (seen ++ [.pulled seq r]) := by
  refine ⟨fun before between after s msg r' heq => ?_, fun before after s msg heq => ?_⟩
  · obtain ⟨hnil, -, -⟩ | ⟨l, hl, hafter⟩ := Lib.concat_eq_append_cons heq
    · simp at hnil
    · obtain ⟨-, -, hx⟩ | ⟨l', rfl, -⟩ := Lib.concat_eq_append_cons hafter.symm
      · -- the later of the two pulls is the new one
        cases hx
        apply hsame
        rw [hl]
        simp
      · exact h.same _ _ _ _ _ _ hl
  · obtain ⟨-, rfl, hx⟩ | ⟨l, hl, -⟩ := Lib.concat_eq_append_cons heq
    · cases hx
      exact hnull nofun
    · exact h.null _ _ _ _ hl

--
-- What the queue holds
--

section Held

variable {W : Type} {ops : XmqOps W} {view : W → Bytes → Bytes → Option Bytes}
  {path : Bytes} {k m : Nat} {hist : List Bytes} {ctx : XmqCtx} {w : W}

/-- The context and the medium hold the messages `hist` in `m` open databases.
With capacity 1 no database is ever opened behind the first, and the records
from the second on lie outside its interval. -/
structure Held (view : W → Bytes → Bytes → Option Bytes) (path : Bytes) (k m : Nat)
    (hist : List Bytes) (ctx : XmqCtx) (w : W) : Prop where
  path_eq : ctx.kvDbPath = path
  max_eq : ctx.kvMaxRecords = k
  state_eq : ctx.gStateCtx = kvstate
  seq_eq : ctx.lastWriteDbSeq = hist.length + 1
  seq_le : hist.length + 1 ≤ XMQ_U64_MAX
  max_pos : 1 ≤ k
  some_db : 1 ≤ m
  dbs_lt : m * k < u64Size
  dbs_eq : ctx.listDatabases = (List.range m).map (dbAt path k)
  low : (m - 1) * k ≤ hist.length
  high : 2 ≤ k → hist.length ≤ m * k
  last : hist.length < m * k ∨ k = 1 → ctx.lastWriteDb = some (dbAt path k (m - 1))
  records : ∀ j s, j < m → j * k + 1 ≤ s → s ≤ j * k + k →
    view w (dbAt path k j).dbHandler (seqKey s ++ [0]) = hist[s - 1]?
  unopened : ∀ j s, m ≤ j → j * k + k < u64Size → j * k + 1 ≤ s → s ≤ j * k + k →
    view w (dbAt path k j).dbHandler (seqKey s ++ [0]) = none

theorem interval_le {j : Nat} (hj : j < m) : j * k + k ≤ m * k := by
  have hle := Nat.mul_le_mul_right k (succ_le_of_lt hj)
  rw [succ_mul] at hle
  exact hle

theorem Held.pred_add (h : Held view path k m hist ctx w) : (m - 1) * k + k = m * k := by
  obtain ⟨m', rfl⟩ : ∃ m', m = m' + 1 := ⟨m - 1, by have := h.some_db; omega⟩
  rw [Nat.add_sub_cancel]
  ring

theorem Held.getDbHandler_eq (h : Held view path k m hist ctx w) (s : Nat) :
    getDbHandler ctx s = if 1 ≤ s ∧ s ≤ m * k then some (dbAt path k ((s - 1) / k)) else none :=
  Xmq.getDbHandler_eq h.max_pos h.dbs_lt h.dbs_eq s

theorem Held.pull (hkv : LawfulKv ops view) (h : Held view path k m hist ctx w) (s : Nat) :
    xmqPullThat ops ctx s w = .ok (if 1 ≤ s ∧ s ≤ m * k then hist[s - 1]? else none) := by
  rw [xmqPullThat]
  by_cases hmax : s = XMQ_U64_MAX
  · have hseq := h.seq_le
    rw [if_pos hmax, getElem?_eq_none (by omega), ite_self]
  · rw [if_neg hmax, h.getDbHandler_eq]
    by_cases hin : 1 ≤ s ∧ s ≤ m * k
    · have hdiv := div_add_mod (s - 1) k
      have hmod : (s - 1) % k < k := mod_lt _ h.max_pos
      have hcomm : k * ((s - 1) / k) = (s - 1) / k * k := Nat.mul_comm ..
      have hlt : (s - 1) / k < m := by
        rw [Nat.div_lt_iff_lt_mul h.max_pos]
        omega
      rw [if_pos hin, if_pos hin]
      dsimp only
      rw [loadStringBin_eq hkv, h.records _ s hlt (by omega) (by omega)]
      cases hist[s - 1]? <;> rfl
    · rw [if_neg hin, if_neg hin]

variable {w' : W}

theorem Held.of_view (h : Held view path k m hist ctx w) (hv : view w' = view w) :
    Held view path k m hist ctx w' := by
  refine { h with records := ?_, unopened := ?_ } <;> rw [hv]
  · exact h.records
  · exact h.unopened

/-- The next record, written where the queue writes it, is `msg`; nothing else
a reader finds has changed. -/
theorem Held.records_written (h : Held view path k m hist ctx w) (msg : Bytes)
    (hv : ∀ j, view w' (dbAt path k j).dbHandler = update (view w)
      (dbAt path k (m - 1)).dbHandler (update (view w (dbAt path k (m - 1)).dbHandler)
        (seqKey (hist.length + 1) ++ [0]) (some msg)) (dbAt path k j).dbHandler) :
    (∀ j s, j < m → j * k + 1 ≤ s → s ≤ j * k + k →
      view w' (dbAt path k j).dbHandler (seqKey s ++ [0]) = (hist ++ [msg])[s - 1]?) ∧
    (∀ j s, m ≤ j → j * k + k < u64Size → j * k + 1 ≤ s → s ≤ j * k + k →
      view w' (dbAt path k j).dbHandler (seqKey s ++ [0]) = none) := by
  have hm := h.some_db
  have hpred := h.pred_add
  have hdbs := h.dbs_lt
  have hlow := h.low
  have hseq := h.seq_le
  unfold XMQ_U64_MAX at hseq
  constructor
  · intro j s hj hlo hhi
    rw [hv]
    by_cases hlast : j = m - 1
    · subst hlast
      rw [update_self]
      by_cases hs : s = hist.length + 1
      · subst hs
        rw [update_self]
        simp
      · rw [update_of_ne fun heq => hs (seqKey_inj (by omega) (by omega) heq),
          h.records _ s hj hlo hhi]
        by_cases hlt : s - 1 < hist.length
        · rw [getElem?_append_left hlt]
        · rw [getElem?_eq_none (by omega), getElem?_eq_none (by simp; omega)]
    · -- a database before the last one holds old numbers only
      have hold : j * k + k ≤ (m - 1) * k := by
        have hle := Nat.mul_le_mul_right k (show j + 1 ≤ m - 1 by omega)
        rw [succ_mul] at hle
        exact hle
      rw [update_of_ne fun heq => hlast
          (dbHandler_inj h.max_pos (by omega) (by omega) heq),
        h.records j s hj hlo hhi, getElem?_append_left (by omega)]
  · intro j s hj hjk hlo hhi
    rw [hv, update_of_ne, h.unopened j s hj hjk hlo hhi]
    intro heq
    have := dbHandler_inj h.max_pos hjk (by omega) heq
    omega

--
-- Opening a database
--

/-- The first step of `xmq_push_tail`. -/
def openStep (ops : XmqOps W) (ctx : XmqCtx) (w : W) : Option (XmqCtx × W) :=
  if ctx.lastWriteDbSeq % ctx.kvMaxRecords = 1 then openDatabase ops ctx ctx.lastWriteDbSeq w
  else some (ctx, w)

/-- A database whose end would lie behind the last number wraps, and contains
no number: the lookup right after opening it finds nothing. -/
theorem find_wrapped (hk : 1 ≤ k) (hm : 1 ≤ m) (hmk : m * k < u64Size)
    (hwrap : u64Size ≤ m * k + k) :
    ((List.range (m + 1)).map (dbAt path k)).reverse.find?
      (fun db => decide (db.dbStart ≤ m * k + 1) && decide (m * k + 1 ≤ db.dbEnd)) = none := by
  have hkm : k ≤ m * k := Nat.le_mul_of_pos_left k hm
  have hend : (dbAt path k m).dbEnd = m * k + k - u64Size := by
    rw [dbAt_end path hk, mod_eq_sub_mod hwrap, mod_eq_of_lt (by omega)]
  have hbefore : ¬(m * k + 1 ≤ (dbAt path k m).dbEnd) := by omega
  rw [range_succ, map_append, reverse_append, map_singleton,
    reverse_singleton, singleton_append, find?_cons, decide_eq_false hbefore,
    Bool.and_false]
  rw [find_dbAt hk hmk, if_neg (by omega)]

theorem Held.due (h : Held view path k m hist ctx w) (hk : 2 ≤ k) (hfull : hist.length = m * k) :
    ctx.lastWriteDbSeq % ctx.kvMaxRecords = 1 := by
  rw [h.seq_eq, h.max_eq, succ_mod_eq_one hk, hfull]
  exact mul_mod_left _ _

theorem Held.getDbHandler_full (h : Held view path k m hist ctx w) (hfull : hist.length = m * k) :
    getDbHandler ctx ctx.lastWriteDbSeq = none := by
  rw [h.getDbHandler_eq, h.seq_eq, if_neg (by omega)]

/-- The context with its next database loaded. -/
def withNext (path : Bytes) (k m : Nat) (ctx : XmqCtx) : XmqCtx :=
  { ctx with listDatabases := ctx.listDatabases ++ [dbAt path k m] }

theorem Held.withNext_dbs (h : Held view path k m hist ctx w) :
    (withNext path k m ctx).listDatabases = (List.range (m + 1)).map (dbAt path k) := by
  rw [range_succ, map_append, withNext, h.dbs_eq]
  rfl

theorem Held.openStep_full (hkv : LawfulKv ops view) (h : Held view path k m hist ctx w)
    (hk : 2 ≤ k) (hfull : hist.length = m * k) {f : Faults} (hf : f.openDb = false) :
    ∃ w', view w' = view w ∧ openStep (failing f ops) ctx w =
      some ({ withNext path k m ctx with
        lastWriteDb := getDbHandler (withNext path k m ctx) (hist.length + 1) }, w') := by
  have hname : getKVDbname (hist.length + 1) (ctx.kvMaxRecords - 1) = dbNameAt k m := by
    rw [dbNameAt, h.max_eq, hfull]
  obtain ⟨w', hinit, hview⟩ := hkv.init (ctx.kvDbPath ++ 47 :: dbNameAt k m) w
  refine ⟨w', hview, ?_⟩
  unfold openStep openDatabase
  rw [if_pos (h.due hk hfull), h.getDbHandler_full hfull]
  rw [h.seq_eq, hname, loadDatabase]
  simp only [failing, hf, hinit]
  rw [withNext, h.path_eq]
  rfl

theorem Held.next (h : Held view path k m hist ctx w) (hfull : hist.length = m * k)
    (hroom : m * k + k < u64Size) :
    getDbHandler (withNext path k m ctx) (hist.length + 1) = some (dbAt path k m) ∧
      Held view path k (m + 1) hist
        { withNext path k m ctx with lastWriteDb := some (dbAt path k m) } w := by
  have hmul : (m + 1) * k = m * k + k := by ring
  have hdbs := h.withNext_dbs
  have hpos := h.max_pos
  constructor
  · rw [Xmq.getDbHandler_eq hpos (by omega) hdbs, if_pos (by omega), Nat.add_sub_cancel, hfull,
      Nat.mul_div_cancel _ hpos]
  · refine { h with
      some_db := by omega
      dbs_lt := by omega
      dbs_eq := hdbs
      low := by rw [Nat.add_sub_cancel, hfull]
      high := fun _ => by omega
      last := fun _ => by rw [Nat.add_sub_cancel]
      records := fun j s hj hlo hhi => ?_
      unopened := fun j s hj => h.unopened j s (by omega) }
    rcases Nat.lt_succ_iff_lt_or_eq.mp hj with hj | rfl
    · exact h.records j s hj hlo hhi
    · rw [h.unopened _ s le_rfl hroom hlo hhi, getElem?_eq_none (by omega)]

theorem Held.next_wrapped (h : Held view path k m hist ctx w) (hfull : hist.length = m * k)
    (hwrap : u64Size ≤ m * k + k) :
    getDbHandler (withNext path k m ctx) (hist.length + 1) = none := by
  have hdbs := h.withNext_dbs
  rw [getDbHandler, hdbs, hfull]
  exact find_wrapped h.max_pos h.some_db h.dbs_lt hwrap

/-- **Opening.** The first step of a push fails, or it leaves no database to
write to, or the queue holds what it held and the next record goes to the last
of its databases. The last case is the only one in reach. -/
theorem Held.opened (hkv : LawfulKv ops view) (h : Held view path k m hist ctx w) (f : Faults) :
    (openStep (failing f ops) ctx w = none ∧ ¬InReach f ctx) ∨
    (∃ ctx' w', openStep (failing f ops) ctx w = some (ctx', w') ∧ ctx'.lastWriteDb = none ∧
      ¬InReach f ctx) ∨
    ∃ ctx' w' m', m ≤ m' ∧ openStep (failing f ops) ctx w = some (ctx', w') ∧
      ctx'.lastWriteDb = some (dbAt path k (m' - 1)) ∧ Held view path k m' hist ctx' w' ∧
      (InReach f ctx ↔ hist.length + 1 ≤ m' * k) ∧ (2 ≤ k → hist.length + 1 ≤ m' * k) := by
  by_cases hroom : hist.length + 1 ≤ m * k
  · -- the next number lies in the last database, which may have been opened before
    have hsome : getDbHandler ctx ctx.lastWriteDbSeq = some (dbAt path k (hist.length / k)) := by
      rw [h.getDbHandler_eq, h.seq_eq, if_pos ⟨by omega, hroom⟩, Nat.add_sub_cancel]
    have hreach : InReach f ctx := .inl (by rw [hsome]; rfl)
    refine .inr (.inr ⟨ctx, w, m, le_rfl, ?_, h.last (.inl hroom), h,
      ⟨fun _ => hroom, fun _ => hreach⟩,
      fun _ => hroom⟩)
    unfold openStep openDatabase
    rw [hsome]
    exact ite_self _
  · have hnone : getDbHandler ctx ctx.lastWriteDbSeq = none := by
      rw [h.getDbHandler_eq, h.seq_eq, if_neg fun hs => hroom hs.2]
    by_cases hone : k = 1
    · -- with capacity 1 a database is never due
      have hdue : ¬(ctx.lastWriteDbSeq % ctx.kvMaxRecords = 1) := by
        rw [h.max_eq, hone, mod_one]
        omega
      refine .inr (.inr ⟨ctx, w, m, le_rfl, if_neg hdue, h.last (.inr hone), h,
        ⟨?_, fun hs => absurd hs hroom⟩, by omega⟩)
      rintro (hs | ⟨hs, -⟩)
      · rw [hnone] at hs
        cases hs
      · exact absurd hs hdue
    · have hk : 2 ≤ k := by
        have := h.max_pos
        omega
      have hfull : hist.length = m * k := by
        have := h.high hk
        omega
      have hreach : InReach f ctx ↔ f.openDb = false ∧ m * k + k < u64Size := by
        have hend : ctx.lastWriteDbSeq + (ctx.kvMaxRecords - 1) = m * k + k := by
          rw [h.seq_eq, h.max_eq, hfull]
          omega
        unfold InReach
        rw [hnone, hend]
        simp [h.due hk hfull]
      cases hf : f.openDb with
      | true =>
        refine .inl ⟨?_, by rw [hreach, hf]; simp⟩
        unfold openStep openDatabase
        rw [if_pos (h.due hk hfull), hnone]
        simp [loadDatabase, failing, hf]
      | false =>
        obtain ⟨w', hview, hopen⟩ := h.openStep_full hkv hk hfull hf
        by_cases hfit : m * k + k < u64Size
        · obtain ⟨hget, hnext⟩ := h.next hfull hfit
          rw [hget] at hopen
          have hmul : (m + 1) * k = m * k + k := by ring
          exact .inr (.inr ⟨_, w', m + 1, by omega, hopen, by rw [Nat.add_sub_cancel],
            hnext.of_view hview, ⟨fun _ => by omega, fun _ => hreach.mpr ⟨hf, hfit⟩⟩,
              fun _ => by omega⟩)
        · rw [h.next_wrapped hfull (by omega)] at hopen
          exact .inr (.inl ⟨_, w', hopen, rfl, fun hr => hfit (hreach.mp hr).2⟩)

--
-- Writing a message
--

/-- The rest of `xmq_push_tail`: the record, then the position. -/
def writeStep (ops : XmqOps W) (seq : Nat) (msg : XmqMsg) (ctx : XmqCtx) (w : W) :
    Except Fault (Bool × XmqCtx × W) :=
  match ctx.lastWriteDb with
  | none => .error .memory
  | some db =>
    match writeStringBin ops db.dbHandler (seqKey seq) msg.bytes w with
    | (false, w) => .ok (false, ctx, w)
    | (true, w) =>
      match writeUint64 ops ctx.gStateCtx XMQ_DATABASE_WRITEPOS ((seq + 1) % u64Size) w with
      | (false, w) => .ok (false, ctx, w)
      | (true, w) => .ok (true, { ctx with lastWriteDbSeq := (seq + 1) % u64Size }, w)

theorem xmqPushTail_eq (ops : XmqOps W) (ctx : XmqCtx) (msg : XmqMsg) (w : W) :
    xmqPushTail ops ctx msg w =
      if ctx.lastWriteDbSeq = XMQ_U64_MAX then .ok (false, ctx, w)
      else
        match openStep ops ctx w with
        | none => .ok (false, ctx, w)
        | some (ctx', w') => writeStep ops ctx.lastWriteDbSeq msg ctx' w' := rfl

theorem Held.writeStep_eq (hkv : LawfulKv ops view) (h : Held view path k m hist ctx w)
    (hdb : ctx.lastWriteDb = some (dbAt path k (m - 1))) (f : Faults) (msg : XmqMsg) :
    if f.message then writeStep (failing f ops) (hist.length + 1) msg ctx w = .ok (false, ctx, w)
    else ∃ w₁ w₂,
      view w₁ = update (view w) (dbAt path k (m - 1)).dbHandler
        (update (view w (dbAt path k (m - 1)).dbHandler)
          (seqKey (hist.length + 1) ++ [0]) (some msg.bytes)) ∧
      (∀ j, view w₂ (dbAt path k j).dbHandler = view w₁ (dbAt path k j).dbHandler) ∧
      writeStep (failing f ops) (hist.length + 1) msg ctx w =
        if f.position then .ok (false, ctx, w₁)
        else .ok (true, { ctx with lastWriteDbSeq := (hist.length + 1 + 1) % u64Size }, w₂) := by
  have hstate := dbHandler_ne_kvstate path k (m - 1)
  unfold writeStep
  rw [hdb]
  dsimp only
  rw [writeStringBin, if_neg (msg_bytes_length_ne msg), h.state_eq]
  cases hf : f.message with
  | true => simp [failing, hstate, hf]
  | false =>
    obtain ⟨w₁, hput₁, hv₁⟩ := hkv.put (dbAt path k (m - 1)).dbHandler
      (seqKey (hist.length + 1) ++ [0]) msg.bytes w
    obtain ⟨w₂, hput₂, hv₂⟩ := hkv.put kvstate (XMQ_DATABASE_WRITEPOS ++ [0])
      (le64 ((hist.length + 1 + 1) % u64Size)) w₁
    refine ⟨w₁, w₂, hv₁, fun j => ?_, ?_⟩
    · rw [hv₂, update_of_ne (dbHandler_ne_kvstate path k j)]
    · have hrecord : (failing f ops).kvPut (dbAt path k (m - 1)).dbHandler
          (seqKey (hist.length + 1) ++ [0]) msg.bytes w = (true, w₁) := by
        simp [failing, hstate, hf, hput₁]
      rw [hrecord]
      dsimp only
      rw [writeUint64, writeStringBin, if_neg (by simp)]
      cases hp : f.position with
      | true => simp [failing, hp]
      | false => simp [failing, hp, hput₂]

theorem Held.written (h : Held view path k m hist ctx w) (msg : Bytes)
    (hseq : ctx.lastWriteDbSeq ≠ XMQ_U64_MAX) (hdb : ctx.lastWriteDb = some (dbAt path k (m - 1)))
    (hhigh : 2 ≤ k → hist.length + 1 ≤ m * k)
    (hv : ∀ j, view w' (dbAt path k j).dbHandler = update (view w)
      (dbAt path k (m - 1)).dbHandler (update (view w (dbAt path k (m - 1)).dbHandler)
        (seqKey (hist.length + 1) ++ [0]) (some msg)) (dbAt path k j).dbHandler) :
    Held view path k m (hist ++ [msg])
      { ctx with lastWriteDbSeq := (hist.length + 1 + 1) % u64Size } w' := by
  obtain ⟨hrecords, hunopened⟩ := h.records_written msg hv
  have hlen : (hist ++ [msg]).length = hist.length + 1 := by simp
  have hle := h.seq_le
  rw [h.seq_eq] at hseq
  have hlast : XMQ_U64_MAX + 1 = u64Size := by decide
  refine { h with
    seq_eq := ?_
    seq_le := ?_
    low := ?_
    high := ?_
    last := fun _ => hdb
    records := hrecords
    unopened := hunopened }
  · rw [hlen]
    exact mod_eq_of_lt (by omega)
  · rw [hlen]
    omega
  · rw [hlen]
    exact le_trans h.low (le_succ _)
  · rw [hlen]
    exact hhigh

theorem Held.written_outside (h : Held view path k m hist ctx w) (msg : Bytes)
    (hout : m * k < hist.length + 1) (hv : ∀ j, view w' (dbAt path k j).dbHandler = update (view w)
      (dbAt path k (m - 1)).dbHandler (update (view w (dbAt path k (m - 1)).dbHandler)
        (seqKey (hist.length + 1) ++ [0]) (some msg)) (dbAt path k j).dbHandler) :
    Held view path k m hist ctx w' := by
  obtain ⟨hrecords, hunopened⟩ := h.records_written msg hv
  refine { h with records := fun j s hj hlo hhi => ?_, unopened := hunopened }
  have hjk := interval_le (k := k) hj
  rw [hrecords j s hj hlo hhi, getElem?_append_left (by omega)]

/-- **Push.** A push that is not torn appends its message if it returns 0, and
leaves what the queue holds as it was if it returns `-1`. -/
theorem Held.push (hkv : LawfulKv ops view) (h : Held view path k m hist ctx w) {f : Faults}
    (htorn : ¬Torn f ctx) {msg : XmqMsg} {ok : Bool} {ctx' : XmqCtx}
    (hpush : xmqPushTail (failing f ops) ctx msg w = .ok (ok, ctx', w')) :
    ∃ m', m ≤ m' ∧ Held view path k m' (if ok then hist ++ [msg.bytes] else hist) ctx' w' := by
  rw [xmqPushTail_eq] at hpush
  by_cases hmax : ctx.lastWriteDbSeq = XMQ_U64_MAX
  · rw [if_pos hmax] at hpush
    cases hpush
    exact ⟨m, le_rfl, h⟩
  rw [if_neg hmax] at hpush
  rcases h.opened hkv f with ⟨hopen, -⟩ | ⟨ctx₁, w₁, hopen, hdb, -⟩ |
    ⟨ctx₁, w₁, m', hm, hopen, hdb, h₁, hreach, hhigh⟩
  · rw [hopen] at hpush
    cases hpush
    exact ⟨m, le_rfl, h⟩
  · -- no database to write to: the push does not return
    rw [hopen] at hpush
    dsimp only at hpush
    rw [writeStep, hdb] at hpush
    cases hpush
  · rw [hopen] at hpush
    dsimp only at hpush
    rw [h.seq_eq] at hpush
    have hwrite := h₁.writeStep_eq hkv hdb f msg
    cases hf : f.message with
    | true =>
      rw [hf, if_pos rfl] at hwrite
      rw [hwrite] at hpush
      cases hpush
      exact ⟨m', hm, h₁⟩
    | false =>
      rw [hf, if_neg (by simp)] at hwrite
      obtain ⟨w₂, w₃, hv₂, hv₃, hwrite⟩ := hwrite
      rw [hwrite] at hpush
      cases hp : f.position with
      | true =>
        rw [hp, if_pos rfl] at hpush
        cases hpush
        -- the record stays, but the push is not torn
        have hout : ¬InReach f ctx := fun hr => htorn ⟨hmax, hr, hf, hp⟩
        rw [hreach] at hout
        exact ⟨m', hm, h₁.written_outside msg.bytes (by omega) fun j => by rw [hv₂]⟩
      | false =>
        rw [hp, if_neg (by simp)] at hpush
        cases hpush
        have hseq : ctx₁.lastWriteDbSeq ≠ XMQ_U64_MAX := by
          rw [h₁.seq_eq, ← h.seq_eq]
          exact hmax
        exact ⟨m', hm, h₁.written msg.bytes hseq hdb hhigh fun j => by rw [hv₃, hv₂]⟩

/-- **A torn push is seen.** It returns `-1`, does not count, and the next pull
of its number returns its message. -/
theorem torn_push_seen (hkv : LawfulKv ops view) (h : Held view path k m hist ctx w) {f : Faults}
    (htorn : Torn f ctx) (msg : XmqMsg) :
    ∃ ctx' w', xmqPushTail (failing f ops) ctx msg w = .ok (false, ctx', w') ∧
      xmqPullThat ops ctx' ctx.lastWriteDbSeq w' = .ok (some msg.bytes) := by
  obtain ⟨hmax, hin, hf, hp⟩ := htorn
  rcases h.opened hkv f with ⟨-, hout⟩ | ⟨ctx₁, w₁, -, -, hout⟩ |
    ⟨ctx₁, w₁, m', -, hopen, hdb, h₁, hreach, hhigh⟩
  · exact absurd hin hout
  · exact absurd hin hout
  · have hroom := hreach.mp hin
    have hwrite := h₁.writeStep_eq hkv hdb f msg
    rw [hf, if_neg (by simp)] at hwrite
    obtain ⟨w₂, w₃, hv₂, -, hwrite⟩ := hwrite
    rw [hp, if_pos rfl] at hwrite
    have hseq : ctx₁.lastWriteDbSeq ≠ XMQ_U64_MAX := by
      rw [h₁.seq_eq, ← h.seq_eq]
      exact hmax
    -- readers cannot tell the queue from one whose push has returned 0
    have h₂ := h₁.written msg.bytes hseq hdb hhigh fun j => by rw [hv₂]
    refine ⟨ctx₁, w₂, ?_, ?_⟩
    · rw [xmqPushTail_eq, if_neg hmax, hopen]
      dsimp only
      rw [h.seq_eq, hwrite]
    · have hpull := h₂.pull hkv (hist.length + 1)
      rw [if_pos ⟨by omega, hroom⟩] at hpull
      have hget : (hist ++ [msg.bytes])[hist.length + 1 - 1]? = some msg.bytes := by simp
      rw [hget] at hpull
      rw [h.seq_eq]
      exact hpull

--
-- Runs
--

/-- What the callers have seen agrees with what the queue holds. -/
structure SeenInv (m k : Nat) (hist : List Bytes) (seen : List Seen) : Prop where
  stable : Stable seen
  pushed : ∀ s, 1 ≤ s → s ≤ hist.length → Seen.pushed s true ∈ seen
  pulled : ∀ s msg, Seen.pulled s (some msg) ∈ seen → 1 ≤ s ∧ s ≤ m * k ∧ hist[s - 1]? = some msg

/-- The invariant of a run without torn pushes. -/
def ServedInv (view : W → Bytes → Bytes → Option Bytes) (path : Bytes) (k : Nat)
    (st : Served W) : Prop :=
  ∃ m hist, Held view path k m hist st.ctx st.medium ∧ SeenInv m k hist st.seen

theorem SeenInv.push (h : SeenInv m k hist seen) {m' : Nat} (hm : m ≤ m') (msg : Bytes)
    (ok : Bool) :
    SeenInv m' k (if ok then hist ++ [msg] else hist)
      (seen ++ [.pushed (hist.length + 1) ok]) := by
  have hmk : m * k ≤ m' * k := Nat.mul_le_mul_right k hm
  refine ⟨h.stable.pushed _ _, fun s h₁ hs => ?_, fun s msg' hmem => ?_⟩
  · by_cases hold : s ≤ hist.length
    · exact mem_append_left _ (h.pushed s h₁ hold)
    · cases ok with
      | false => exact absurd hs hold
      | true =>
        have hlen : (hist ++ [msg]).length = hist.length + 1 := by simp
        rw [if_pos rfl, hlen] at hs
        obtain rfl : s = hist.length + 1 := by omega
        exact mem_append_right _ (mem_singleton.mpr rfl)
  · obtain ⟨h₁, hle, hget⟩ := h.pulled s msg' (by simpa using hmem)
    refine ⟨h₁, by omega, ?_⟩
    have hlt : s - 1 < hist.length := (List.getElem?_eq_some_iff.mp hget).1
    cases ok with
    | false => exact hget
    | true => rw [if_pos rfl, getElem?_append_left hlt, hget]

theorem SeenInv.pull (h : SeenInv m k hist seen) (s : Nat) :
    SeenInv m k hist
      (seen ++ [.pulled s (if 1 ≤ s ∧ s ≤ m * k then hist[s - 1]? else none)]) := by
  refine ⟨h.stable.pulled (fun msg hmem => ?_) (fun hsome => ?_), fun t h₁ ht => ?_,
    fun t msg hmem => ?_⟩
  · obtain ⟨h₁, hle, hget⟩ := h.pulled s msg hmem
    rw [if_pos ⟨h₁, hle⟩, hget]
  · by_cases hin : 1 ≤ s ∧ s ≤ m * k
    · rw [if_pos hin, Option.ne_none_iff_exists'] at hsome
      obtain ⟨msg, hget⟩ := hsome
      have hlt := (List.getElem?_eq_some_iff.mp hget).1
      exact h.pushed s hin.1 (by omega)
    · rw [if_neg hin] at hsome
      exact absurd rfl hsome
  · exact mem_append_left _ (h.pushed t h₁ ht)
  · rcases mem_append.mp hmem with hmem | hmem
    · exact h.pulled t msg hmem
    · rw [mem_singleton, Seen.pulled.injEq] at hmem
      obtain ⟨rfl, hget⟩ := hmem
      by_cases hin : 1 ≤ t ∧ t ≤ m * k
      · rw [if_pos hin] at hget
        exact ⟨hin.1, hin.2, hget.symm⟩
      · rw [if_neg hin] at hget
        cases hget

theorem ServedInv.serve (hkv : LawfulKv ops view) {st st' : Served W} {call : Call}
    (h : ServedInv view path k st) (huntorn : Untorn st call)
    (hstep : serve ops st call = .ok st') : ServedInv view path k st' := by
  obtain ⟨m, hist, hheld, hseen⟩ := h
  cases call with
  | push f msg =>
    dsimp only [Xmq.serve] at hstep
    cases hpush : xmqPushTail (failing f ops) st.ctx msg st.medium with
    | error e =>
      rw [hpush] at hstep
      cases hstep
    | ok r =>
      obtain ⟨ok, ctx', w'⟩ := r
      rw [hpush] at hstep
      cases hstep
      obtain ⟨m', hm, hheld'⟩ := hheld.push hkv huntorn hpush
      refine ⟨m', _, hheld', ?_⟩
      rw [hheld.seq_eq]
      exact hseen.push hm msg.bytes ok
  | pull s =>
    dsimp only [Xmq.serve] at hstep
    rw [hheld.pull hkv s] at hstep
    cases hstep
    exact ⟨m, hist, hheld, hseen.pull s⟩

theorem servedInv_init (hkv : LawfulKv ops view) (hk : k < u64Size)
    (hfresh : FreshStore view (path.take 255) k w) {ctx : XmqCtx}
    (hinit : xmqContextInit ops path k w = .ok (some (ctx, w'))) :
    ServedInv view (path.take 255) k ⟨ctx, w', []⟩ := by
  obtain ⟨hpos, hmax⟩ := capacity_of_init hkv hk hfresh hinit
  obtain ⟨ctx₁, w₁, hinit₁, hinv⟩ := xmqContextInit_fresh hkv hpos hmax hfresh
  rw [hinit₁] at hinit
  cases hinit
  obtain ⟨m, hm, hlow, -, hdbs, hlast⟩ := hinv.databases
  obtain rfl : m = 1 := by
    rw [length_nil, le_zero, Nat.mul_eq_zero] at hlow
    omega
  refine ⟨1, [], ?_, Stable.nil, fun s h₁ hs => ?_, fun s msg hmem => ?_⟩
  · exact {
      path_eq := hinv.path_eq
      max_eq := hinv.max_eq
      state_eq := hinv.state_eq
      seq_eq := hinv.seq_eq
      seq_le := by decide
      max_pos := hpos
      some_db := hm
      dbs_lt := by omega
      dbs_eq := hdbs
      low := by omega
      high := fun _ => Nat.zero_le _
      last := fun _ => hlast (by rw [length_nil]; omega)
      records := fun j s hj => by
        obtain rfl : j = 0 := by omega
        exact hinv.store.records 0 s (by omega)
      unopened := fun j s _ hj hlo hhi => hinv.store.records j s hj hlo hhi }
  · rw [length_nil] at hs
    omega
  · cases hmem

/-- **Stability.** From the first `xmq_context_init` on, in a run of pushes and
pulls in which any write of any push may fail, as long as no push is torn, a
number that was pulled keeps its message, and only numbers a push has returned
0 for have one. -/
theorem seen_stable_of_untorn (hkv : LawfulKv ops view) (path : Bytes) (k : Nat)
    (hk : k < u64Size) (w₀ : W) (hfresh : FreshStore view (path.take 255) k w₀)
    {ctx : XmqCtx} {w : W} (hinit : xmqContextInit ops path k w₀ = .ok (some (ctx, w)))
    (calls : List Call) (huntorn : Lib.Along (serve ops) Untorn ⟨ctx, w, []⟩ calls)
    {st : Served W} (hrun : Lib.run (serve ops) ⟨ctx, w, []⟩ calls = .ok st) :
    Stable st.seen := by
  have hinv : ServedInv view (path.take 255) k st :=
    Lib.run_inv_along (fun _ _ _ h hu hstep => h.serve hkv hu hstep)
      (servedInv_init hkv hk hfresh hinit) huntorn hrun
  obtain ⟨m, hist, -, hseen⟩ := hinv
  exact hseen.stable

end Held

--
-- Two runs
--

/-- The queue of capacity 2 on an empty medium, before any call. -/
def emptyQueue : Served KvMaps :=
  match xmqContextInit mapOps (ascii "/data") 2 (fun _ _ => none) with
  | .ok (some (ctx, w)) => ⟨ctx, w, []⟩
  | _ => ⟨⟨[], 0, [], [], [], [], none, 0⟩, fun _ _ => none, []⟩

theorem emptyQueue_eq : xmqContextInit mapOps (ascii "/data") 2 (fun _ _ => none) =
    .ok (some (emptyQueue.ctx, emptyQueue.medium)) := by
  obtain ⟨ctx, w, hinit, -⟩ := xmqContextInit_fresh mapOps_lawful (k := 2) (by decide) (by decide)
    (freshStore_empty ((ascii "/data").take 255) 2)
  unfold emptyQueue
  rw [hinit]

/-- A push whose record is not written is invisible; so is one whose database
cannot be opened; the others are there to stay. -/
def retries : List Call :=
  [.push ⟨false, true, false⟩ emptyMsg, .pull 1, .push ⟨false, false, false⟩ emptyMsg, .pull 1,
    .push ⟨false, false, false⟩ emptyMsg, .push ⟨true, false, false⟩ emptyMsg, .pull 3, .pull 1]

theorem seen_stable_retries :
    ∃ st, Lib.run (serve mapOps) emptyQueue retries = .ok st ∧ Stable st.seen := by
  have hok : (Lib.run (serve mapOps) emptyQueue retries).isOk = true := by decide +kernel
  cases hrun : Lib.run (serve mapOps) emptyQueue retries with
  | error e =>
    rw [hrun] at hok
    cases hok
  | ok st =>
    exact ⟨st, rfl, seen_stable_of_untorn mapOps_lawful (ascii "/data") 2 (by decide) _
      (freshStore_empty _ _) emptyQueue_eq retries (by decide +kernel) hrun⟩

/-- One push that fails on the position of an empty queue: the pull behind it
returns a message no push has returned 0 for. -/
theorem torn_push_unstable :
    ∃ st, Lib.run (serve mapOps) emptyQueue [.push ⟨false, false, true⟩ emptyMsg, .pull 1] =
      .ok st ∧ ¬Stable st.seen := by
  obtain ⟨m, hist, hheld, -⟩ := servedInv_init mapOps_lawful (k := 2) (by decide)
    (freshStore_empty _ _) emptyQueue_eq
  obtain ⟨ctx, w, hpush, hpull⟩ := torn_push_seen mapOps_lawful hheld
    (f := ⟨false, false, true⟩) (by decide +kernel) emptyMsg
  have hseq : emptyQueue.ctx.lastWriteDbSeq = 1 := by decide +kernel
  have hseen : emptyQueue.seen = [] := by
    unfold emptyQueue
    split <;> rfl
  refine ⟨⟨ctx, w, [.pushed 1 false, .pulled 1 (some emptyMsg.bytes)]⟩, ?_, fun hstable => ?_⟩
  · have hfirst : serve mapOps emptyQueue (.push ⟨false, false, true⟩ emptyMsg) =
        .ok ⟨ctx, w, [.pushed 1 false]⟩ := by
      dsimp only [serve]
      rw [hpush, hseq, hseen]
      rfl
    have hsecond : serve mapOps ⟨ctx, w, [.pushed 1 false]⟩ (.pull 1) =
        .ok ⟨ctx, w, [.pushed 1 false, .pulled 1 (some emptyMsg.bytes)]⟩ := by
      rw [hseq] at hpull
      dsimp only [serve]
      rw [hpull]
      rfl
    rw [Lib.run_cons hfirst, Lib.run_cons hsecond]
    rfl
  · have := hstable.null [.pushed 1 false] [] 1 emptyMsg.bytes rfl
    simp at this

end Supex.Xmq
