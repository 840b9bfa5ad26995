import Supex.Xmq.Queue

/-!
# pole — events and the shared queue

`pole-M` (the server) and `pole-S` (its clients) exchange events of one fixed
header and a variable body. All clients share one libxmq queue; each of them
has a consumer in it, which is a stored fetch position.

Main results: `pullThat_eq_xmqPullThat`, `pushTail_represents`, `pullThat_pushRecord`.
-/

namespace Supex.Pole

open Supex.Xmq List

--
-- Events
--

/-- The size of an identity buffer, its terminating NUL included. -/
def IDENTITY_SIZE : Nat := 32

/-- `enum evt_type`. -/
inductive EvType where
  | dumpReq
  | dumpRep
  | incrementReq
  | incrementRep
  deriving DecidableEq, Repr

/-- `enum evt_state`. -/
inductive EvState where
  | none
  | succ
  | fail
  | fatal
  deriving DecidableEq, Repr

/-- `evt_t`. `id` is the C string in the identity buffer; `evData` is the whole
body, so its length is `ev_size`. -/
structure Evt where
  id : Bytes
  evType : EvType
  evState : EvState
  taskSeq : Nat
  rows : Nat
  evData : Bytes
  deriving DecidableEq, Repr

def Evt.evSize (e : Evt) : Nat := e.evData.length

/-- The C string in the body: the other client of a dump event. -/
def Evt.peer (e : Evt) : Bytes := cstr e.evData

/-- The exchange of identity and body. A body with room for the identity is
overwritten in place and keeps its size; otherwise a new event is allocated. -/
def Evt.swapIdData (e : Evt) : Evt :=
  if e.id.length ≤ (cstr e.evData).length then
    { e with id := cstr e.evData, evData := strcpyInto e.evData e.id }
  else
    { e with id := cstr e.evData, evData := e.id ++ [0] }

namespace Evt

@[simp] theorem swapIdData_id (e : Evt) : e.swapIdData.id = e.peer := by
  unfold swapIdData peer
  split <;> rfl

@[simp] theorem swapIdData_evType (e : Evt) : e.swapIdData.evType = e.evType := by
  unfold swapIdData
  split <;> rfl

@[simp] theorem swapIdData_evState (e : Evt) : e.swapIdData.evState = e.evState := by
  unfold swapIdData
  split <;> rfl

/-- **Exchange.** In both layouts the body then reads as the old identity. -/
theorem swapIdData_peer {e : Evt} (h : (0 : UInt8) ∉ e.id) : e.swapIdData.peer = e.id := by
  unfold swapIdData peer
  split
  · exact cstr_strcpyInto h
  · exact cstr_append_nul h

end Evt

--
-- The queue
--

/-- The queue of the server. `hist` holds the counted messages, the first of
them under number 1. `uncounted` is the record under the next number, which is
there from the moment a push has written it; `pushing` says that this push
still holds the lock. `consumers` are the registered fetch positions. -/
structure Queue where
  hist : List Bytes
  uncounted : Option Bytes
  pushing : Bool
  consumers : Bytes → Option Nat

variable {q : Queue}

namespace Queue

def lastWriteDbSeq (q : Queue) : Nat := q.hist.length + 1

/-- `xmq_pull_that`. -/
def pullThat (q : Queue) (seq : Nat) : Option Bytes :=
  if seq = XMQ_U64_MAX then none
  else if seq = q.lastWriteDbSeq then q.uncounted
  else if seq = 0 then none
  else q.hist[seq - 1]?

/-- The first half of `xmq_push_tail`, up to the record. An empty message never
gets here (`xmq_msg_new_data` returns `NULL`), and a full queue refuses. -/
def pushRecord (q : Queue) (data : Bytes) : Queue :=
  if q.pushing ∨ data = [] ∨ q.lastWriteDbSeq = XMQ_U64_MAX then q
  else { q with uncounted := some data, pushing := true }

/-- The second half of `xmq_push_tail`: the counter. -/
def pushCount (q : Queue) : Queue :=
  match q.pushing, q.uncounted with
  | true, some data => { q with hist := q.hist ++ [data], uncounted := none, pushing := false }
  | _, _ => q

/-- The failing second half: the counter stays, and so does the record. -/
def pushFail (q : Queue) : Queue := { q with pushing := false }

/-- `xmq_push_tail` as one step. -/
def pushTail (q : Queue) (data : Bytes) : Queue :=
  if q.pushing then q else (q.pushRecord data).pushCount

/-- `last_fetch_seq` of a consumer. Registration starts it at 1. -/
def fetchPos (q : Queue) (c : Bytes) : Nat := (q.consumers c).getD 1

/-- `xmq_update_that`. -/
def updateThat (q : Queue) (c : Bytes) (seq : Nat) : Queue :=
  { q with consumers := Function.update q.consumers c (some seq) }

/-- `xmq_register_consumer`. -/
def registerConsumer (q : Queue) (c : Bytes) : Queue :=
  match q.consumers c with
  | some _ => q
  | none => q.updateThat c 1

/-- `xmq_unregister_consumer`. -/
def unregisterConsumer (q : Queue) (c : Bytes) : Queue :=
  { q with consumers := Function.update q.consumers c none }

--
-- Fetch positions
--

@[simp] theorem fetchPos_updateThat (q : Queue) (c x : Bytes) (seq : Nat) :
    (q.updateThat c seq).fetchPos x = if x = c then seq else q.fetchPos x := by
  unfold fetchPos updateThat
  by_cases h : x = c
  · subst h
    simp
  · simp [h]

@[simp] theorem fetchPos_registerConsumer (q : Queue) (c x : Bytes) :
    (q.registerConsumer c).fetchPos x = q.fetchPos x := by
  unfold registerConsumer
  split
  · rfl
  · next h =>
    rw [fetchPos_updateThat]
    split
    · next hx => rw [hx, fetchPos, h, Option.getD_none]
    · rfl

@[simp] theorem fetchPos_unregisterConsumer (q : Queue) (c x : Bytes) :
    (q.unregisterConsumer c).fetchPos x = if x = c then 1 else q.fetchPos x := by
  unfold fetchPos unregisterConsumer
  by_cases h : x = c
  · subst h
    simp
  · simp [h]

theorem fetchPos_pushRecord (q : Queue) (data c : Bytes) :
    (q.pushRecord data).fetchPos c = q.fetchPos c := by
  unfold pushRecord
  split <;> rfl

theorem fetchPos_pushCount (q : Queue) (c : Bytes) : q.pushCount.fetchPos c = q.fetchPos c := by
  unfold pushCount
  split <;> rfl

theorem fetchPos_pushTail (q : Queue) (data c : Bytes) :
    (q.pushTail data).fetchPos c = q.fetchPos c := by
  unfold pushTail
  split
  · rfl
  · rw [fetchPos_pushCount, fetchPos_pushRecord]

--
-- The messages are those of the pushes
--

/-- The part of the queue that consumers do not write. -/
def SameMessages (q q' : Queue) : Prop :=
  q'.hist = q.hist ∧ q'.uncounted = q.uncounted ∧ q'.pushing = q.pushing

theorem SameMessages.refl (q : Queue) : SameMessages q q := ⟨rfl, rfl, rfl⟩

theorem SameMessages.trans {q₁ q₂ q₃ : Queue} (h₁ : SameMessages q₁ q₂)
    (h₂ : SameMessages q₂ q₃) : SameMessages q₁ q₃ :=
  ⟨h₂.1.trans h₁.1, h₂.2.1.trans h₁.2.1, h₂.2.2.trans h₁.2.2⟩

theorem sameMessages_updateThat (q : Queue) (c : Bytes) (seq : Nat) :
    SameMessages q (q.updateThat c seq) := ⟨rfl, rfl, rfl⟩

theorem sameMessages_registerConsumer (q : Queue) (c : Bytes) :
    SameMessages q (q.registerConsumer c) := by
  unfold registerConsumer
  split
  · exact .refl q
  · exact sameMessages_updateThat q c 1

theorem SameMessages.lastWriteDbSeq {q' : Queue} (h : SameMessages q q') :
    q'.lastWriteDbSeq = q.lastWriteDbSeq := by
  unfold Queue.lastWriteDbSeq
  rw [h.1]

theorem pullThat_some {seq : Nat} {data : Bytes} (h : q.pullThat seq = some data) :
    seq ≠ XMQ_U64_MAX ∧ (seq = q.lastWriteDbSeq ∧ q.uncounted = some data ∨
      1 ≤ seq ∧ seq < q.lastWriteDbSeq ∧ q.hist[seq - 1]? = some data) := by
  unfold pullThat at h
  split at h
  · cases h
  · next hmax =>
    refine ⟨hmax, ?_⟩
    split at h
    · next hlast => exact .inl ⟨hlast, h⟩
    · split at h
      · cases h
      · next hzero =>
        have hlt := (List.getElem?_eq_some_iff.mp h).1
        exact .inr ⟨by omega, by unfold lastWriteDbSeq; omega, h⟩

theorem pullThat_of_lt {seq : Nat} (h1 : 1 ≤ seq) (hlt : seq < q.lastWriteDbSeq)
    (hmax : q.lastWriteDbSeq ≤ XMQ_U64_MAX) : ∃ data, q.pullThat seq = some data := by
  unfold pullThat
  rw [if_neg (by omega), if_neg (by omega), if_neg (by omega)]
  unfold lastWriteDbSeq at hlt
  exact ⟨_, getElem?_eq_getElem (by omega)⟩

end Queue

--
-- libxmq represents the queue
--

section Represents

variable {W : Type} {ops : XmqOps W} {view : W → Bytes → Bytes → Option Bytes}

/-- The memory image of the message that carries `data`. -/
def msgBytes (data : Bytes) : Bytes := le64 data.length ++ data

/-- A pull, written as a read of one list: the counted messages and the
uncounted record behind them. -/
theorem Queue.pullThat_eq_list (hfull : q.lastWriteDbSeq < XMQ_U64_MAX) (s : Nat) :
    q.pullThat s = if 1 ≤ s then (q.hist ++ q.uncounted.toList)[s - 1]? else none := by
  unfold Queue.pullThat
  unfold Queue.lastWriteDbSeq at hfull ⊢
  by_cases hmax : s = XMQ_U64_MAX
  · have hlen : (q.hist ++ q.uncounted.toList).length ≤ q.hist.length + 1 := by
      cases q.uncounted <;> simp
    rw [if_pos hmax, getElem?_eq_none (by omega)]
    simp
  · rw [if_neg hmax]
    by_cases hlast : s = q.hist.length + 1
    · rw [if_pos hlast, if_pos (by omega), getElem?_append_right (by omega)]
      cases q.uncounted <;> simp [hlast]
    · rw [if_neg hlast]
      by_cases hzero : s = 0
      · rw [if_pos hzero, if_neg (by omega)]
      · rw [if_neg hzero, if_pos (by omega)]
        by_cases hlt : s - 1 < q.hist.length
        · rw [getElem?_append_left hlt]
        · rw [getElem?_eq_none (by omega), getElem?_eq_none]
          cases q.uncounted <;> simp <;> omega

/-- **Pull.** Between two pushes, `xmq_pull_that` over the medium is the pull of
the queue. -/
theorem pullThat_eq_xmqPullThat (hkv : LawfulKv ops view) {path : Bytes} {k : Nat} (hk : 1 ≤ k)
    {ctx : XmqCtx} {w : W} (hinv : QueueInv view path k (q.hist.map msgBytes) ctx w)
    (hn : q.lastWriteDbSeq + k < u64Size) (hq : q.uncounted = none) (s : Nat) :
    xmqPullThat ops ctx s w = .ok ((q.pullThat s).map msgBytes) := by
  have hlen : (q.hist.map msgBytes).length = q.hist.length := length_map ..
  unfold Queue.lastWriteDbSeq at hn
  rw [xmqPullThat_eq hkv hk hinv (by omega), Queue.pullThat_eq_list, hq]
  · split <;> simp
  · unfold Queue.lastWriteDbSeq XMQ_U64_MAX
    omega

/-- **Push.** `xmq_push_tail` over the medium is the push of the queue. -/
theorem pushTail_represents (hkv : LawfulKv ops view) {path : Bytes} {k : Nat} (hk : 2 ≤ k)
    {ctx : XmqCtx} {w : W} (hinv : QueueInv view path k (q.hist.map msgBytes) ctx w)
    (hn : q.lastWriteDbSeq + k < u64Size) (hq : q.pushing = false) {data : Bytes}
    (hdata : data ≠ []) (hlen : data.length < u64Size) :
    ∃ ctx' w', xmqPushTail ops ctx ⟨data, hlen⟩ w = .ok (true, ctx', w') ∧
      QueueInv view path k ((q.pushTail data).hist.map msgBytes) ctx' w' := by
  unfold Queue.lastWriteDbSeq at hn
  obtain ⟨ctx', w', hpush, hinv'⟩ := xmqPushTail_inv hkv hk hinv (by simpa using hn) ⟨data, hlen⟩
  refine ⟨ctx', w', hpush, ?_⟩
  have hroom : ¬(q.pushing = true ∨ data = [] ∨ q.lastWriteDbSeq = XMQ_U64_MAX) := by
    unfold Queue.lastWriteDbSeq XMQ_U64_MAX
    simp only [hq, hdata, Bool.false_eq_true, false_or]
    omega
  have hhist : (q.pushTail data).hist = q.hist ++ [data] := by
    unfold Queue.pushTail Queue.pushRecord Queue.pushCount
    rw [if_neg hroom, hq]
    rfl
  rw [hhist, map_append]
  exact hinv'

/-- **The record before the counter.** Between its two writes `xmq_push_tail`
has changed what a pull finds, and the queue says how. -/
theorem pullThat_pushRecord (hkv : LawfulKv ops view) {path : Bytes} {k : Nat} (hk : 2 ≤ k)
    {ctx : XmqCtx} {w : W} (hinv : QueueInv view path k (q.hist.map msgBytes) ctx w)
    (hn : q.lastWriteDbSeq + 1 + k < u64Size) (hq : q.pushing = false) {data : Bytes}
    (hdata : data ≠ []) :
    ∃ ctx₁ w₁ db w₂,
      (if ctx.lastWriteDbSeq % ctx.kvMaxRecords = 1
        then openDatabase ops ctx ctx.lastWriteDbSeq w else some (ctx, w)) = some (ctx₁, w₁) ∧
      ctx₁.lastWriteDb = some db ∧
      writeStringBin ops db.dbHandler (seqKey ctx.lastWriteDbSeq) (msgBytes data) w₁ =
        (true, w₂) ∧
      ∀ s, xmqPullThat ops ctx₁ s w₂ = .ok (((q.pushRecord data).pullThat s).map msgBytes) := by
  have hmap : (q.hist.map msgBytes).length = q.hist.length := length_map ..
  unfold Queue.lastWriteDbSeq at hn
  obtain ⟨ctx₁, w₁, hopen, -, hinv₁, j, hjlo, hjhi, hdbs₁, hdb₁⟩ :=
    openForPush hkv hk hinv (by omega)
  obtain ⟨w₂, hput₂, hv₂⟩ := hkv.put (dbAt path k j).dbHandler
    (seqKey (q.hist.length + 1) ++ [0]) (msgBytes data) w₁
  refine ⟨ctx₁, w₁, dbAt path k j, w₂, hopen, hdb₁, ?_, fun s => ?_⟩
  · have hne : (msgBytes data).length ≠ 0 := by simp [msgBytes]
    rw [hinv.seq_eq, hmap, writeStringBin, if_neg hne, hput₂]
  -- the pull does not read the counter, so it may as well be written already
  obtain ⟨w₃, -, hv₃⟩ := hkv.put kvstate (XMQ_DATABASE_WRITEPOS ++ [0])
    (le64 (q.hist.length + 1 + 1)) w₂
  have hstore : StoreInv view path k (q.hist.map msgBytes ++ [msgBytes data]) w₃ := by
    apply hinv₁.store.push (by omega) (msgBytes data) (j := j) (by omega) (by omega) (by omega)
    · rw [hmap]
      exact hv₂
    · rw [hmap]
      exact hv₃
  have hinv₃ : QueueInv view path k (q.hist.map msgBytes ++ [msgBytes data])
      { ctx₁ with lastWriteDbSeq := q.hist.length + 1 + 1 } w₃ := by
    refine ⟨hinv₁.path_eq, hinv₁.max_eq, hinv₁.state_eq, by simp, ?_, hstore⟩
    refine ⟨j + 1, by omega, by simp; omega, ?_, hdbs₁, fun _ => by simpa using hdb₁⟩
    rw [show (j + 1) * k = j * k + k by ring, length_append, length_singleton]
    omega
  have hsame : xmqPullThat ops ctx₁ s w₂ =
      xmqPullThat ops { ctx₁ with lastWriteDbSeq := q.hist.length + 1 + 1 } s w₃ := by
    have hget : getDbHandler { ctx₁ with lastWriteDbSeq := q.hist.length + 1 + 1 } s =
        getDbHandler ctx₁ s := rfl
    unfold xmqPullThat
    rw [hget]
    split
    · rfl
    · cases hdb : getDbHandler ctx₁ s with
      | none => rfl
      | some db =>
        -- a message database is not the database of global state
        have hne : db.dbHandler ≠ kvstate := by
          have hmem := mem_of_find?_eq_some hdb
          rw [hdbs₁] at hmem
          obtain ⟨i, -, rfl⟩ := mem_map.mp (mem_reverse.mp hmem)
          exact dbHandler_ne_kvstate path k i
        dsimp only
        rw [loadStringBin_eq hkv, loadStringBin_eq hkv, hv₃, Function.update_of_ne hne]
  have hroom : ¬(q.pushing = true ∨ data = [] ∨ q.lastWriteDbSeq = XMQ_U64_MAX) := by
    unfold Queue.lastWriteDbSeq XMQ_U64_MAX
    simp only [hq, hdata, Bool.false_eq_true, false_or]
    omega
  rw [hsame, xmqPullThat_eq hkv (by omega) hinv₃ (by simp; omega), Queue.pullThat_eq_list]
  · unfold Queue.pushRecord
    rw [if_neg hroom]
    dsimp only [Option.toList]
    rw [show q.hist.map msgBytes ++ [msgBytes data] = (q.hist ++ [data]).map msgBytes by simp]
    split
    · rw [getElem?_map]
    · rfl
  · unfold Queue.pushRecord
    rw [if_neg hroom]
    show q.hist.length + 1 < u64Size - 1
    omega

end Represents

theorem queueInv_fresh : ∃ ctx w, @QueueInv KvMaps id [] 2 [] ctx w := by
  have hreg : RegistryOk id fun _ _ => none := by constructor <;> simp [ListOk]
  obtain ⟨ctx, w, -, hinv⟩ := @xmqContextInit_fresh 2 KvMaps mapOps id _ [] mapOps_lawful
    (by decide) (by decide) ⟨rfl, fun _ _ => rfl, hreg⟩
  exact ⟨ctx, w, hinv⟩

theorem pushTail_represents_fresh : ∃ ctx w r,
    xmqPushTail mapOps ctx ⟨[1], by decide⟩ w = .ok r := by
  obtain ⟨ctx, w, hinv⟩ := queueInv_fresh
  obtain ⟨_, _, h, -⟩ := pushTail_represents (q := ⟨[], none, false, fun _ => none⟩)
    mapOps_lawful le_rfl hinv (by decide) rfl (cons_ne_nil 1 []) (by decide)
  exact ⟨ctx, w, _, h⟩

theorem pullThat_pushRecord_fresh : ∃ ctx w, ∀ s, xmqPullThat mapOps ctx s w =
    .ok (((Queue.pushRecord ⟨[], none, false, fun _ => none⟩ [1]).pullThat s).map msgBytes) := by
  obtain ⟨_, _, hinv⟩ := queueInv_fresh
  obtain ⟨ctx, -, -, w, -, -, -, h⟩ := pullThat_pushRecord (q := ⟨[], none, false, fun _ => none⟩)
    mapOps_lawful le_rfl hinv (by decide) rfl (cons_ne_nil 1 [])
  exact ⟨ctx, w, h⟩

end Supex.Pole
