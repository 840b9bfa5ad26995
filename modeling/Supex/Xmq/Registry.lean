import Supex.Lib.Roster
import Supex.Xmq.Queue

/-!
# libxmq — the registry and its stored lists

Producers and consumers are kept twice: in the lists of the context, and as
comma-joined strings under `XMQ_PRODUCERS` and `XMQ_CONSUMERS` in `./kvstate`,
with the position of every consumer under a key of its own. `xmq_context_init`
rebuilds the lists from the strings.

Registering appends to both. Unregistering is meant to delete from both, but
`__write_back_delete` tests the pointer it has loaded where it means to test
the result of the load, so it never deletes anything: the strings are a log of
everybody who ever registered, and each side of the registry is a
`Lib.Roster`.

Main results: `reload_eq`, `registry_durable_iff`.
-/

namespace Supex.Xmq

open List
open Lib (run log_eq_live_iff live_length)

open Function (update update_of_ne update_self)

--
-- Calls
--

/-- An identity as the callers give it: a nonempty C string without a comma
that fits the `identity` array. -/
structure Identity where
  bytes : Bytes
  ne_nil : bytes ≠ []
  comma_free : comma ∉ bytes
  nul_free : (0 : UInt8) ∉ bytes
  short : bytes.length < XMQ_IDENTITY_LEN

/-- A call of the registry. -/
inductive RegCall where
  | registerProducer (pid : Identity)
  | registerConsumer (cid : Identity)
  | unregisterProducer (pid : Identity)
  | unregisterConsumer (cid : Identity)
  | updateThat (cid : Identity) (seq : Fin u64Size)

section Calls

variable {W : Type}

/-- One call, whatever it returns. -/
def regStep (ops : XmqOps W) (st : XmqCtx × W) : RegCall → Except Fault (XmqCtx × W)
  | .registerProducer pid => .ok (xmqRegisterProducer ops st.1 pid.bytes st.2)
  | .registerConsumer cid => .ok (xmqRegisterConsumer ops st.1 cid.bytes st.2)
  | .unregisterProducer pid => (xmqUnregisterProducer ops st.1 pid.bytes st.2).map (·.2)
  | .unregisterConsumer cid => (xmqUnregisterConsumer ops st.1 cid.bytes st.2).map (·.2)
  | .updateThat cid seq => (xmqUpdateThat ops st.1 cid.bytes seq st.2).map (·.2)

/-- What a call does to the roster of producers. -/
def producerMove : RegCall → Option (Lib.Move Bytes)
  | .registerProducer pid => some (.join pid.bytes)
  | .unregisterProducer pid => some (.leave pid.bytes)
  | _ => none

/-- What a call does to the roster of consumers. -/
def consumerMove : RegCall → Option (Lib.Move Bytes)
  | .registerConsumer cid => some (.join cid.bytes)
  | .unregisterConsumer cid => some (.leave cid.bytes)
  | _ => none

/-- `xmq_context_init` on the medium yields the producers, the consumers and
their positions that are in memory. -/
def Reloads (ops : XmqOps W) (path : Bytes) (k : Nat) (st : XmqCtx × W) : Prop :=
  ∃ ctx w, xmqContextInit ops path k st.2 = .ok (some (ctx, w)) ∧
    ctx.listProducers = st.1.listProducers ∧ ctx.listConsumers = st.1.listConsumers

/-- After the calls the registry reloads, and an identity that was unregistered
last is in none of its lists. -/
def RegistryDurable (ops : XmqOps W) (path : Bytes) (k : Nat) (calls : List RegCall)
    (st : XmqCtx × W) : Prop :=
  Reloads ops path k st ∧
    (∀ before pid, calls = before ++ [.unregisterProducer pid] →
      ∀ p ∈ st.1.listProducers, p.identity ≠ pid.bytes) ∧
    (∀ before cid, calls = before ++ [.unregisterConsumer cid] →
      ∀ c ∈ st.1.listConsumers, c.identity ≠ cid.bytes)

/-- Nobody is unregistered after having been registered, and the numbers of
distinct producers and consumers are not negative as `int`s. -/
structure RegistryKept (calls : List RegCall) : Prop where
  producers : Lib.Stays (calls.filterMap producerMove)
  consumers : Lib.Stays (calls.filterMap consumerMove)
  producers_int : 0 ≤ toInt32 (Lib.joined (calls.filterMap producerMove)).dedup.length
  consumers_int : 0 ≤ toInt32 (Lib.joined (calls.filterMap consumerMove)).dedup.length

end Calls

--
-- Stored lists
--

/-- The stored form of a list of identities; nothing is stored for none. -/
def stored (ids : List Bytes) : Option Bytes :=
  if ids = [] then none else some ((joinFields ids).dropLast ++ [0])

variable {ids : List Bytes}

theorem joinFields_dropLast (hne : ids ≠ []) :
    (joinFields ids).dropLast ++ [comma] = joinFields ids := by
  obtain ⟨ids', id, rfl⟩ := eq_nil_or_concat ids |>.resolve_left hne
  rw [concat_eq_append, joinFields_append, joinFields_cons, show joinFields [] = [] from rfl]
  rw [← append_assoc, dropLast_concat]

theorem joinFields_concat (hne : ids ≠ []) (id : Bytes) :
    (joinFields (ids ++ [id])).dropLast = (joinFields ids).dropLast ++ [comma] ++ id := by
  rw [joinFields_dropLast hne, joinFields_append, joinFields_cons,
    show joinFields [] = [] from rfl, ← append_assoc, dropLast_concat]

theorem nul_notMem_joinFields (h : ∀ id ∈ ids, (0 : UInt8) ∉ id) :
    (0 : UInt8) ∉ joinFields ids := by
  induction ids with
  | nil => simp [joinFields]
  | cons id ids ih =>
    rw [joinFields_cons, mem_append, mem_cons]
    rintro (hmem | hcomma | hmem)
    · exact h id (.head _) hmem
    · revert hcomma
      decide
    · exact ih (fun i hi => h i (.tail _ hi)) hmem

theorem cstr_stored (h : ∀ id ∈ ids, (0 : UInt8) ∉ id) :
    cstr ((joinFields ids).dropLast ++ [0]) = (joinFields ids).dropLast :=
  cstr_append_nul fun hmem => nul_notMem_joinFields h (mem_of_mem_dropLast hmem)

section Registry

variable {W : Type} {ops : XmqOps W} {view : W → Bytes → Bytes → Option Bytes}

variable {ctx : XmqCtx}

theorem writeBackAppend_stored (hkv : LawfulKv ops view) (hctx : ctx.gStateCtx = kvstate)
    {key : Bytes} (id : Bytes) {w : W} (hids : ∀ i ∈ ids, (0 : UInt8) ∉ i)
    (hview : view w kvstate (key ++ [0]) = stored ids) :
    ∃ w', writeBackAppend ops ctx key id w = (true, w') ∧
      view w' = update (view w) kvstate
        (update (view w kvstate) (key ++ [0]) (stored (ids ++ [id]))) := by
  have hstored : stored (ids ++ [id]) = some ((joinFields (ids ++ [id])).dropLast ++ [0]) :=
    if_neg (by simp)
  obtain ⟨w', hput, hv⟩ := hkv.put kvstate (key ++ [0])
    ((joinFields (ids ++ [id])).dropLast ++ [0]) w
  refine ⟨w', ?_, by rw [hv, hstored]⟩
  unfold writeBackAppend
  rw [hctx, loadStringBin_eq hkv, hview]
  by_cases hne : ids = []
  · subst hne
    have hone : (joinFields ([] ++ [id])).dropLast = id := by
      rw [nil_append, joinFields_cons, show joinFields [] = [] from rfl,
        dropLast_concat]
    rw [hone] at hput
    rw [stored, if_pos rfl]
    rw [stringAppend, writeStringString, writeStringBin, if_neg (by simp), hctx, hput]
  · rw [joinFields_concat hne] at hput
    rw [stored, if_neg hne]
    dsimp only
    rw [cstr_stored hids, stringAppend, writeStringString, writeStringBin, if_neg (by simp), hctx,
      hput]

theorem writeBackDelete_eq (hkv : LawfulKv ops view) (ctx : XmqCtx) (key id : Bytes) (w : W) :
    writeBackDelete ops ctx key id w = .ok (false, w) := by
  unfold writeBackDelete
  rw [loadStringBin_eq hkv]
  cases view w ctx.gStateCtx (key ++ [0]) with
  | none => rfl
  | some value => rfl

--
-- Keys
--

theorem fetchKey_inj {cid cid' : Bytes}
    (h : keyOfConsumerFetchpos cid ++ [0] = keyOfConsumerFetchpos cid' ++ [0]) : cid = cid' := by
  have h' := append_cancel_right h
  exact append_cancel_left (append_cancel_right h')

theorem fetchKey_ne_of_end {cid key : Bytes} (hkey : key.reverse.take 3 ≠ ascii "SOP") :
    keyOfConsumerFetchpos cid ++ [0] ≠ key ++ [0] := by
  intro h
  apply hkey
  rw [← append_cancel_right h]
  simp only [keyOfConsumerFetchpos, reverse_append]
  rw [take_append_of_le_length (by decide)]
  decide

theorem fetchKey_ne_producers (cid : Bytes) :
    keyOfConsumerFetchpos cid ++ [0] ≠ XMQ_PRODUCERS ++ [0] :=
  fetchKey_ne_of_end (by decide)

theorem fetchKey_ne_consumers (cid : Bytes) :
    keyOfConsumerFetchpos cid ++ [0] ≠ XMQ_CONSUMERS ++ [0] :=
  fetchKey_ne_of_end (by decide)

theorem producers_ne_consumers : XMQ_PRODUCERS ++ [0] ≠ XMQ_CONSUMERS ++ [0] := by decide

--
-- Loading
--

theorem csvToListProducers_eq (ctx : XmqCtx) (hids : ∀ id ∈ ids, id.length < XMQ_IDENTITY_LEN) :
    csvToListProducers ctx ids = .ok (true, { ctx with
      listProducers := ctx.listProducers ++ ids.map fun id => ⟨id⟩ }) := by
  induction ids generalizing ctx with
  | nil => simp [csvToListProducers]
  | cons id ids ih =>
    have hshort := hids id (.head _)
    rw [csvToListProducers, if_neg (by omega), ih _ fun i hi => hids i (.tail _ hi)]
    simp

/-- A consumer with the position `pos` gives it. -/
def consumerAt (pos : Bytes → Nat) (id : Bytes) : XmqConsumer :=
  ⟨id, keyOfConsumerFetchpos id, pos id⟩

theorem csvToListConsumers_eq (hkv : LawfulKv ops view) {w : W} (hctx : ctx.gStateCtx = kvstate)
    {pos : Bytes → Nat} (hids : ∀ id ∈ ids, id.length < XMQ_IDENTITY_LEN)
    (hpos : ∀ id ∈ ids, pos id < u64Size ∧
      view w kvstate (keyOfConsumerFetchpos id ++ [0]) = some (le64 (pos id))) :
    csvToListConsumers ops w ctx ids = .ok (true, { ctx with
      listConsumers := ctx.listConsumers ++ ids.map (consumerAt pos) }) := by
  induction ids generalizing ctx with
  | nil => simp [csvToListConsumers]
  | cons id ids ih =>
    have hshort := hids id (.head _)
    obtain ⟨hlt, hview⟩ := hpos id (.head _)
    have hload : loadUint64 ops ctx.gStateCtx (keyOfConsumerFetchpos id) w =
        .ok (.succ (pos id)) := by
      rw [loadUint64, hctx, loadStringBin_eq hkv, hview]
      dsimp only
      rw [if_pos (le64_length _), leVal_le64 hlt]
    rw [csvToListConsumers, if_neg (by omega), hload]
    dsimp only
    have hrest := @ih { ctx with listConsumers := ctx.listConsumers ++ [consumerAt pos id] } hctx
      (fun i hi => hids i (.tail _ hi))
      (fun i hi => hpos i (.tail _ hi))
    unfold consumerAt at hrest ⊢
    rw [hrest]
    simp

theorem loadRegistryList_stored (hkv : LawfulKv ops view) {w : W} {key : Bytes}
    (csvToList : XmqCtx → List Bytes → Except Fault (Bool × XmqCtx)) {ctx' : XmqCtx}
    (hctx : ctx.gStateCtx = kvstate) (hids : ∀ id ∈ ids, comma ∉ id ∧ id ≠ [] ∧ (0 : UInt8) ∉ id)
    (hview : view w kvstate (key ++ [0]) = stored ids) (hnil : csvToList ctx [] = .ok (true, ctx))
    (hconv : csvToList ctx ids = .ok (true, ctx')) :
    loadRegistryList ops key csvToList ctx w =
      if toInt32 ids.length = -1 then .ok (-1, ctx) else .ok (toInt32 ids.length, ctx') := by
  unfold loadRegistryList
  rw [hctx, loadStringBin_eq hkv, hview]
  by_cases hne : ids = []
  · subst hne
    obtain rfl : ctx = ctx' := by
      rw [hnil, Except.ok.injEq, Prod.mk.injEq] at hconv
      exact hconv.2
    rw [stored, if_pos rfl]
    rfl
  · rw [stored, if_neg hne]
    dsimp only
    rw [cstr_stored fun i hi => (hids i hi).2.2, csvParse_eq,
      runs_joinFields fun i hi => ⟨(hids i hi).1, (hids i hi).2.1⟩]
    dsimp only
    rw [hconv]

--
-- The invariant
--

/-- The registry after the given moves of producers and of consumers, with the
positions `pos`: the lists of the context are the members, the stored strings
are the logs. -/
structure RegInv (view : W → Bytes → Bytes → Option Bytes) (ps cs : List (Lib.Move Bytes))
    (pos : Bytes → Nat) (st : XmqCtx × W) : Prop where
  state_eq : st.1.gStateCtx = kvstate
  writepos : view st.2 kvstate (XMQ_DATABASE_WRITEPOS ++ [0]) = some (le64 1)
  producers : view st.2 kvstate (XMQ_PRODUCERS ++ [0]) = stored (Lib.Roster.after ps).log
  consumers : view st.2 kvstate (XMQ_CONSUMERS ++ [0]) = stored (Lib.Roster.after cs).log
  pids : ∀ id ∈ (Lib.Roster.after ps).log, ∃ i : Identity, i.bytes = id
  cids : ∀ id ∈ (Lib.Roster.after cs).log, ∃ i : Identity, i.bytes = id
  known : ∀ id ∈ (Lib.Roster.after cs).live, id ∈ (Lib.Roster.after cs).log
  positions : ∀ id ∈ (Lib.Roster.after cs).log, pos id < u64Size ∧
    view st.2 kvstate (keyOfConsumerFetchpos id ++ [0]) = some (le64 (pos id))
  listProducers : st.1.listProducers = (Lib.Roster.after ps).live.map fun id => ⟨id⟩
  listConsumers : st.1.listConsumers = (Lib.Roster.after cs).live.map (consumerAt pos)

variable {ps cs : List (Lib.Move Bytes)} {pos : Bytes → Nat} {st st' : XmqCtx × W}

theorem loadRegistry_stored (hkv : LawfulKv ops view) (h : RegInv view ps cs pos st)
    (hctx : ctx.gStateCtx = kvstate) {w : W} (hw : view w = view st.2) :
    loadRegistry ops ctx w =
      if 0 ≤ toInt32 (Lib.Roster.after ps).log.length ∧
          0 ≤ toInt32 (Lib.Roster.after cs).log.length then
        .ok (some { ctx with
          listProducers := ctx.listProducers ++ (Lib.Roster.after ps).log.map fun id => ⟨id⟩
          listConsumers := ctx.listConsumers ++ (Lib.Roster.after cs).log.map (consumerAt pos) })
      else .ok none := by
  have hpids : ∀ id ∈ (Lib.Roster.after ps).log,
      comma ∉ id ∧ id ≠ [] ∧ (0 : UInt8) ∉ id := by
    intro id hid
    obtain ⟨i, rfl⟩ := h.pids id hid
    exact ⟨i.comma_free, i.ne_nil, i.nul_free⟩
  have hcids : ∀ id ∈ (Lib.Roster.after cs).log,
      comma ∉ id ∧ id ≠ [] ∧ (0 : UInt8) ∉ id := by
    intro id hid
    obtain ⟨i, rfl⟩ := h.cids id hid
    exact ⟨i.comma_free, i.ne_nil, i.nul_free⟩
  set ctx₁ : XmqCtx := { ctx with
    listProducers := ctx.listProducers ++ (Lib.Roster.after ps).log.map fun id => ⟨id⟩ }
    with hctx₁
  have hload₁ := loadRegistryList_stored hkv csvToListProducers hctx hpids
    (by rw [hw, h.producers]) rfl (csvToListProducers_eq ctx fun id hid => by
      obtain ⟨i, rfl⟩ := h.pids id hid
      exact i.short)
  have hsame : ctx₁.gStateCtx = kvstate := hctx
  have hload₂ := loadRegistryList_stored hkv (csvToListConsumers ops w) hsame hcids
    (by rw [hw, h.consumers]) rfl
    (csvToListConsumers_eq hkv hsame (fun id hid => by
      obtain ⟨i, rfl⟩ := h.cids id hid
      exact i.short) (by rw [hw]; exact h.positions))
  unfold loadRegistry
  rw [hload₁]
  generalize toInt32 (Lib.Roster.after ps).log.length = np
  rw [← hctx₁]
  by_cases hp : np = -1
  · rw [if_pos hp, if_neg (by omega)]
    rfl
  · rw [if_neg hp]
    dsimp only
    by_cases hneg : np < 0
    · rw [if_pos hneg, if_neg (by omega)]
    · rw [if_neg hneg, hload₂]
      generalize toInt32 (Lib.Roster.after cs).log.length = nc
      by_cases hc : nc = -1
      · rw [if_pos hc, if_neg (by omega)]
        rfl
      · rw [if_neg hc]
        dsimp only
        by_cases hneg' : nc < 0
        · rw [if_pos hneg', if_neg (by omega)]
        · rw [if_neg hneg', if_pos (by omega)]

/-- **Reload.** `xmq_context_init` makes the two logs of the medium. -/
theorem reload_eq (hkv : LawfulKv ops view) (path : Bytes) {k : Nat} (hk : 1 ≤ k)
    (hk' : 1 + k < u64Size) (h : RegInv view ps cs pos st) :
    ∃ w, xmqContextInit ops path k st.2 =
      if 0 ≤ toInt32 (Lib.Roster.after ps).log.length ∧
          0 ≤ toInt32 (Lib.Roster.after cs).log.length then
        .ok (some ({ reloaded (path.take 255) k 0 with
          listProducers := (Lib.Roster.after ps).log.map fun id => ⟨id⟩
          listConsumers := (Lib.Roster.after cs).log.map (consumerAt pos) }, w))
      else .ok none := by
  obtain ⟨w₁, hinit, hv₁⟩ := hkv.init kvstate st.2
  have hwp : loadWritePos ops w₁ = .ok (some (0 + 1, w₁)) := by
    rw [loadWritePos, loadUint64, loadStringBin_eq hkv, hv₁, h.writepos]
    dsimp only
    rw [if_pos (le64_length _), leVal_le64 (by decide)]
  have hfit : RestartFits k 0 := by
    rw [RestartFits, Nat.zero_add, getNeedCount_one hk]
    decide
  obtain ⟨w, hv, hload⟩ := loadAll_registry hkv (n := 0) hk (by omega) hinit hwp
    (Eq.refl { reloaded (path.take 255) k 0 with
      listDatabases := [], lastWriteDb := none, lastWriteDbSeq := 0 })
  rw [if_pos hfit, loadRegistry_stored hkv h rfl (hv.trans hv₁)] at hload
  refine ⟨w, ?_⟩
  rw [xmqContextInit, if_pos (show k > 0 by omega)]
  refine hload.trans ?_
  by_cases hint : 0 ≤ toInt32 (Lib.Roster.after ps).log.length ∧
      0 ≤ toInt32 (Lib.Roster.after cs).log.length
  · rw [if_pos hint, if_pos hint]
    rfl
  · rw [if_neg hint, if_neg hint]

theorem reloads_iff (hkv : LawfulKv ops view) (path : Bytes) {k : Nat} (hk : 1 ≤ k)
    (hk' : 1 + k < u64Size) (h : RegInv view ps cs pos st) :
    Reloads ops path k st ↔
      ((Lib.Roster.after ps).log = (Lib.Roster.after ps).live ∧
        (Lib.Roster.after cs).log = (Lib.Roster.after cs).live) ∧
      0 ≤ toInt32 (Lib.Roster.after ps).log.length ∧
      0 ≤ toInt32 (Lib.Roster.after cs).log.length := by
  obtain ⟨w, hinit⟩ := reload_eq hkv path hk hk' h
  constructor
  · rintro ⟨ctx', w', hinit', hps, hcs⟩
    rw [hinit] at hinit'
    split at hinit'
    · next hint =>
      rw [Except.ok.injEq, Option.some.injEq, Prod.mk.injEq] at hinit'
      obtain ⟨rfl, -⟩ := hinit'
      rw [h.listProducers] at hps
      rw [h.listConsumers] at hcs
      refine ⟨⟨?_, ?_⟩, hint⟩
      · simpa [Function.comp_def] using congrArg (List.map XmqProducer.identity) hps
      · simpa [Function.comp_def, consumerAt] using congrArg (List.map XmqConsumer.identity) hcs
    · cases hinit'
  · rintro ⟨⟨hps, hcs⟩, hint⟩
    rw [if_pos hint] at hinit
    refine ⟨_, w, hinit, ?_, ?_⟩
    · rw [h.listProducers, ← hps]
    · rw [h.listConsumers, ← hcs]

--
-- Steps
--

theorem identity_take (id : Identity) : id.bytes.take (XMQ_IDENTITY_LEN - 1) = id.bytes := by
  have := id.short
  exact take_of_length_le (by omega)

theorem RegInv.registerProducer (hkv : LawfulKv ops view) (h : RegInv view ps cs pos st)
    (pid : Identity) :
    RegInv view (ps ++ [.join pid.bytes]) cs pos (xmqRegisterProducer ops st.1 pid.bytes st.2) := by
  have hany : st.1.listProducers.any (·.identity = pid.bytes) ↔
      pid.bytes ∈ (Lib.Roster.after ps).live := by
    rw [h.listProducers]
    simp
  unfold xmqRegisterProducer
  by_cases hmem : pid.bytes ∈ (Lib.Roster.after ps).live
  · -- the producer is there already
    have hsame : Lib.Roster.after (ps ++ [.join pid.bytes]) = Lib.Roster.after ps := by
      rw [Lib.Roster.after_concat, Lib.Roster.step, if_pos hmem]
    rw [if_pos (hany.mpr hmem)]
    exact { h with
      producers := by rw [hsame]; exact h.producers
      pids := by rw [hsame]; exact h.pids
      listProducers := by rw [hsame]; exact h.listProducers }
  · have hnew : Lib.Roster.after (ps ++ [.join pid.bytes]) =
        ⟨(Lib.Roster.after ps).live ++ [pid.bytes], (Lib.Roster.after ps).log ++ [pid.bytes]⟩ := by
      rw [Lib.Roster.after_concat, Lib.Roster.step, if_neg hmem]
    obtain ⟨w', happend, hv⟩ := writeBackAppend_stored hkv h.state_eq pid.bytes
      (fun i hi => by obtain ⟨j, rfl⟩ := h.pids i hi; exact j.nul_free) h.producers
    have hother : ∀ key, key ≠ XMQ_PRODUCERS ++ [0] →
        view w' kvstate key = view st.2 kvstate key := by
      intro key hkey
      rw [hv, update_self, update_of_ne hkey]
    rw [if_neg (fun hh => hmem (hany.mp hh)), identity_take]
    dsimp only
    rw [happend]
    refine {
      state_eq := h.state_eq
      writepos := (hother _ writepos_ne_producers).trans h.writepos
      producers := by rw [hv, update_self, update_self, hnew]
      consumers := (hother _ producers_ne_consumers.symm).trans h.consumers
      pids := ?_
      cids := h.cids
      known := h.known
      positions := fun id hid => ⟨(h.positions id hid).1,
        (hother _ (fetchKey_ne_producers id)).trans (h.positions id hid).2⟩
      listProducers := by rw [hnew, h.listProducers]; simp
      listConsumers := h.listConsumers }
    rw [hnew]
    intro id hid
    rcases mem_append.mp hid with hid | hid
    · exact h.pids id hid
    · exact ⟨pid, (mem_singleton.mp hid).symm⟩

theorem RegInv.position_frame (h : RegInv view ps cs pos st) {id : Bytes} {p : Nat}
    (hp : p < u64Size) {w' : W}
    (hv : view w' = update (view st.2) kvstate (update (view st.2 kvstate)
      (keyOfConsumerFetchpos id ++ [0]) (some (le64 p)))) :
    view w' kvstate (XMQ_DATABASE_WRITEPOS ++ [0]) = some (le64 1) ∧
    view w' kvstate (XMQ_PRODUCERS ++ [0]) = stored (Lib.Roster.after ps).log ∧
    view w' kvstate (XMQ_CONSUMERS ++ [0]) = stored (Lib.Roster.after cs).log ∧
    ∀ i, i = id ∨ i ∈ (Lib.Roster.after cs).log → update pos id p i < u64Size ∧
      view w' kvstate (keyOfConsumerFetchpos i ++ [0]) =
        some (le64 (update pos id p i)) := by
  have hother : ∀ key, keyOfConsumerFetchpos id ++ [0] ≠ key →
      view w' kvstate key = view st.2 kvstate key := by
    intro key hkey
    rw [hv, update_self, update_of_ne hkey.symm]
  refine ⟨?_, ?_, ?_, fun i hi => ?_⟩
  · rw [hother _ (fetchKey_ne_writepos id), h.writepos]
  · rw [hother _ (fetchKey_ne_producers id), h.producers]
  · rw [hother _ (fetchKey_ne_consumers id), h.consumers]
  · by_cases heq : i = id
    · subst heq
      rw [update_self, hv, update_self, update_self]
      exact ⟨hp, rfl⟩
    · rw [update_of_ne heq, hother _ fun hk => heq (fetchKey_inj hk).symm]
      exact h.positions i (hi.resolve_left heq)

theorem map_consumerAt_update {id : Bytes} (h : id ∉ ids) (p : Nat) :
    ids.map (consumerAt (update pos id p)) = ids.map (consumerAt pos) := by
  apply map_congr_left
  intro i hi
  have hne : i ≠ id := fun heq => h (heq ▸ hi)
  rw [consumerAt, consumerAt, update_of_ne hne]

theorem RegInv.registerConsumer (hkv : LawfulKv ops view) (h : RegInv view ps cs pos st)
    (cid : Identity) :
    ∃ pos', RegInv view ps (cs ++ [.join cid.bytes]) pos'
      (xmqRegisterConsumer ops st.1 cid.bytes st.2) := by
  have hany : st.1.listConsumers.any (·.identity = cid.bytes) ↔
      cid.bytes ∈ (Lib.Roster.after cs).live := by
    rw [h.listConsumers]
    simp only [any_map, any_eq_true, Function.comp_apply, consumerAt]
    constructor
    · rintro ⟨id, hid, heq⟩
      exact of_decide_eq_true heq ▸ hid
    · intro hid
      exact ⟨cid.bytes, hid, decide_eq_true rfl⟩
  unfold xmqRegisterConsumer
  by_cases hmem : cid.bytes ∈ (Lib.Roster.after cs).live
  · -- the consumer is there already
    have hsame : Lib.Roster.after (cs ++ [.join cid.bytes]) = Lib.Roster.after cs := by
      rw [Lib.Roster.after_concat, Lib.Roster.step, if_pos hmem]
    rw [if_pos (hany.mpr hmem)]
    exact ⟨pos, { h with
      consumers := by rw [hsame]; exact h.consumers
      cids := by rw [hsame]; exact h.cids
      known := by rw [hsame]; exact h.known
      positions := by rw [hsame]; exact h.positions
      listConsumers := by rw [hsame]; exact h.listConsumers }⟩
  · have hnew : Lib.Roster.after (cs ++ [.join cid.bytes]) =
        ⟨(Lib.Roster.after cs).live ++ [cid.bytes], (Lib.Roster.after cs).log ++ [cid.bytes]⟩ := by
      rw [Lib.Roster.after_concat, Lib.Roster.step, if_neg hmem]
    -- first the position, then the list
    obtain ⟨w₁, hput, hv₁⟩ := hkv.put kvstate (keyOfConsumerFetchpos cid.bytes ++ [0]) (le64 1) st.2
    obtain ⟨hwp, hps, hcs, hpos⟩ := h.position_frame (p := 1) (by decide) hv₁
    obtain ⟨w₂, happend, hv₂⟩ := writeBackAppend_stored hkv h.state_eq cid.bytes
      (fun i hi => by obtain ⟨j, rfl⟩ := h.cids i hi; exact j.nul_free) hcs
    have hother : ∀ key, key ≠ XMQ_CONSUMERS ++ [0] → view w₂ kvstate key =
      view w₁ kvstate key := by
      intro key hkey
      rw [hv₂, update_self, update_of_ne hkey]
    rw [if_neg (fun hh => hmem (hany.mp hh)), identity_take]
    dsimp only
    rw [h.state_eq, writeUint64, writeStringBin, if_neg (by simp), hput]
    dsimp only
    rw [happend]
    refine ⟨update pos cid.bytes 1, {
      state_eq := rfl
      writepos := (hother _ writepos_ne_consumers).trans hwp
      producers := (hother _ producers_ne_consumers).trans hps
      consumers := by rw [hv₂, update_self, update_self, hnew]
      pids := h.pids
      cids := ?_
      known := ?_
      positions := ?_
      listProducers := h.listProducers
      listConsumers := ?_ }⟩
    · rw [hnew]
      intro id hid
      rcases mem_append.mp hid with hid | hid
      · exact h.cids id hid
      · exact ⟨cid, (mem_singleton.mp hid).symm⟩
    · rw [hnew]
      intro id hid
      rcases mem_append.mp hid with hid | hid
      · exact mem_append_left _ (h.known id hid)
      · exact mem_append_right _ hid
    · rw [hnew]
      intro id hid
      have hid' : id = cid.bytes ∨ id ∈ (Lib.Roster.after cs).log := by
        rcases mem_append.mp hid with hid | hid
        · exact .inr hid
        · exact .inl (mem_singleton.mp hid)
      exact ⟨(hpos id hid').1, (hother _ (fetchKey_ne_consumers id)).trans (hpos id hid').2⟩
    · rw [hnew, map_append, map_consumerAt_update hmem, h.listConsumers, map_singleton,
        consumerAt, update_self]

theorem xmqUnregisterProducer_eq (hkv : LawfulKv ops view) (ctx : XmqCtx) (pid : Bytes) (w : W) :
    (xmqUnregisterProducer ops ctx pid w).map (·.2) = .ok ({ ctx with
      listProducers := ctx.listProducers.eraseP (·.identity = pid) }, w) := by
  unfold xmqUnregisterProducer
  cases hfind : ctx.listProducers.find? (·.identity = pid) with
  | none =>
    rw [eraseP_of_forall_not (find?_eq_none.mp hfind)]
    rfl
  | some p =>
    dsimp only
    rw [writeBackDelete_eq hkv]
    rfl

theorem xmqUnregisterConsumer_eq (hkv : LawfulKv ops view) (ctx : XmqCtx) (cid : Bytes) (w : W) :
    (xmqUnregisterConsumer ops ctx cid w).map (·.2) = .ok ({ ctx with
      listConsumers := ctx.listConsumers.eraseP (·.identity = cid) }, w) := by
  unfold xmqUnregisterConsumer
  cases hfind : ctx.listConsumers.find? (·.identity = cid) with
  | none =>
    rw [eraseP_of_forall_not (find?_eq_none.mp hfind)]
    rfl
  | some c =>
    dsimp only
    rw [writeBackDelete_eq hkv]
    rfl

theorem after_leave (moves : List (Lib.Move Bytes)) (id : Bytes) :
    Lib.Roster.after (moves ++ [.leave id]) =
      ⟨(Lib.Roster.after moves).live.eraseP fun i => decide (i = id),
        (Lib.Roster.after moves).log⟩ := by
  rw [Lib.Roster.after_concat, Lib.Roster.step]

theorem RegInv.unregisterProducer (hkv : LawfulKv ops view) (h : RegInv view ps cs pos st)
    (pid : Identity)
    (hstep : (xmqUnregisterProducer ops st.1 pid.bytes st.2).map (·.2) = .ok st') :
    RegInv view (ps ++ [.leave pid.bytes]) cs pos st' := by
  rw [xmqUnregisterProducer_eq hkv, Except.ok.injEq] at hstep
  subst hstep
  refine { h with producers := ?_, pids := ?_, listProducers := ?_ } <;> rw [after_leave]
  · exact h.producers
  · exact h.pids
  · rw [h.listProducers, eraseP_map]
    rfl

theorem RegInv.unregisterConsumer (hkv : LawfulKv ops view) (h : RegInv view ps cs pos st)
    (cid : Identity)
    (hstep : (xmqUnregisterConsumer ops st.1 cid.bytes st.2).map (·.2) = .ok st') :
    RegInv view ps (cs ++ [.leave cid.bytes]) pos st' := by
  rw [xmqUnregisterConsumer_eq hkv, Except.ok.injEq] at hstep
  subst hstep
  refine { h with
    consumers := ?_
    cids := ?_
    known := ?_
    positions := ?_
    listConsumers := ?_ } <;> rw [after_leave]
  · exact h.consumers
  · exact h.cids
  · exact fun id hid => h.known id (mem_of_mem_eraseP hid)
  · exact h.positions
  · rw [h.listConsumers, eraseP_map]
    rfl

theorem set_consumerAt (pos : Bytes → Nat) (hnodup : ids.Nodup) {id : Bytes} (hid : id ∈ ids)
    (p : Nat) :
    (ids.map (consumerAt pos)).set
        ((ids.map (consumerAt pos)).findIdx fun c => decide (c.identity = id))
        (consumerAt (update pos id p) id) =
      ids.map (consumerAt (update pos id p)) := by
  induction ids with
  | nil => cases hid
  | cons i ids ih =>
    obtain ⟨hi, hnodup⟩ := nodup_cons.mp hnodup
    rw [map_cons, findIdx_cons, map_cons]
    by_cases heq : i = id
    · subst heq
      rw [show (decide ((consumerAt pos i).identity = i)) = true from decide_eq_true rfl]
      rw [cond_true, set_cons_zero, map_consumerAt_update hi]
    · have hmem : id ∈ ids := (mem_cons.mp hid).resolve_left (Ne.symm heq)
      have hhead : consumerAt (update pos id p) i = consumerAt pos i := by
        rw [consumerAt, consumerAt, update_of_ne heq]
      rw [show (decide ((consumerAt pos i).identity = id)) = false from decide_eq_false heq]
      rw [cond_false, set_cons_succ, ih hnodup hmem, hhead]

theorem RegInv.updateThat (hkv : LawfulKv ops view) (h : RegInv view ps cs pos st)
    (cid : Identity) (seq : Fin u64Size)
    (hstep : (xmqUpdateThat ops st.1 cid.bytes seq st.2).map (·.2) = .ok st') :
    ∃ pos', RegInv view ps cs pos' st' := by
  unfold xmqUpdateThat at hstep
  cases hfind : st.1.listConsumers.find? (·.identity = cid.bytes) with
  | none =>
    rw [hfind] at hstep
    cases hstep
  | some c =>
    have hc : c.identity = cid.bytes := by simpa using find?_some hfind
    have hlist : c ∈ (Lib.Roster.after cs).live.map (consumerAt pos) :=
      h.listConsumers ▸ mem_of_find?_eq_some hfind
    obtain ⟨id, hid, rfl⟩ := mem_map.mp hlist
    obtain rfl : id = cid.bytes := hc
    obtain ⟨w', hput, hv⟩ := hkv.put kvstate (keyOfConsumerFetchpos cid.bytes ++ [0])
      (le64 seq) st.2
    obtain ⟨hwp, hps, hcs, hpos⟩ := h.position_frame seq.isLt hv
    rw [hfind] at hstep
    dsimp only at hstep
    rw [h.state_eq, show (consumerAt pos cid.bytes).fetchKey = keyOfConsumerFetchpos cid.bytes
      from rfl, writeUint64, writeStringBin, if_neg (by simp), hput] at hstep
    cases hstep
    refine ⟨update pos cid.bytes seq, {
      state_eq := rfl
      writepos := hwp
      producers := hps
      consumers := hcs
      pids := h.pids
      cids := h.cids
      known := h.known
      positions := fun i hi => hpos i (.inr hi)
      listProducers := h.listProducers
      listConsumers := ?_ }⟩
    have hset := set_consumerAt pos (Lib.rosterInv cs).nodup hid seq
    rw [← hset, ← h.listConsumers, consumerAt, consumerAt, update_self]

theorem RegInv.step (hkv : LawfulKv ops view) (h : RegInv view ps cs pos st) (call : RegCall)
    (hstep : regStep ops st call = .ok st') :
    ∃ pos', RegInv view (ps ++ (producerMove call).toList) (cs ++ (consumerMove call).toList)
      pos' st' := by
  cases call with
  | registerProducer pid =>
    rw [regStep, Except.ok.injEq] at hstep
    subst hstep
    have := h.registerProducer hkv pid
    exact ⟨pos, by simpa [producerMove, consumerMove] using this⟩
  | registerConsumer cid =>
    rw [regStep, Except.ok.injEq] at hstep
    subst hstep
    obtain ⟨pos', hinv⟩ := h.registerConsumer hkv cid
    exact ⟨pos', by simpa [producerMove, consumerMove] using hinv⟩
  | unregisterProducer pid =>
    have := h.unregisterProducer hkv pid hstep
    exact ⟨pos, by simpa [producerMove, consumerMove] using this⟩
  | unregisterConsumer cid =>
    have := h.unregisterConsumer hkv cid hstep
    exact ⟨pos, by simpa [producerMove, consumerMove] using this⟩
  | updateThat cid seq =>
    obtain ⟨pos', hinv⟩ := h.updateThat hkv cid seq hstep
    exact ⟨pos', by simpa [producerMove, consumerMove] using hinv⟩

--
-- Runs
--

theorem RegInv.run (hkv : LawfulKv ops view) (h : RegInv view ps cs pos st)
    (calls : List RegCall) (hrun : run (regStep ops) st calls = .ok st') :
    ∃ pos', RegInv view (ps ++ calls.filterMap producerMove) (cs ++ calls.filterMap consumerMove)
      pos' st' := by
  induction calls generalizing ps cs pos st with
  | nil =>
    rw [run, Except.ok.injEq] at hrun
    subst hrun
    exact ⟨pos, by simpa using h⟩
  | cons call calls ih =>
    obtain ⟨st₁, hstep, hrest⟩ := Lib.run_cons_ok hrun
    obtain ⟨pos₁, h₁⟩ := h.step hkv call hstep
    obtain ⟨pos', h'⟩ := ih h₁ hrest
    refine ⟨pos', ?_⟩
    rw [append_assoc, append_assoc] at h'
    rw [filterMap_cons, filterMap_cons]
    cases hp : producerMove call <;> cases hc : consumerMove call <;>
      simpa [hp, hc] using h'

/-- A medium nothing was ever written to. -/
structure BlankStore (view : W → Bytes → Bytes → Option Bytes) (path : Bytes) (k : Nat)
    (w : W) : Prop where
  state : ∀ key, view w kvstate key = none
  records : ∀ j key, view w (dbAt path k j).dbHandler key = none

theorem BlankStore.fresh {path : Bytes} {k : Nat} {w : W} (h : BlankStore view path k w) :
    FreshStore view path k w where
  writepos := h.state _
  records := h.records
  registry :=
    { producers := fun value hv => by rw [h.state] at hv; cases hv
      consumers := fun value hv => by rw [h.state] at hv; cases hv
      positions := fun cid value hv => by rw [h.state] at hv; cases hv }

theorem regInv_init (hkv : LawfulKv ops view) {path : Bytes} {k : Nat} (hk : 1 ≤ k)
    (hk' : 1 + k < u64Size) {w : W} (hblank : BlankStore view (path.take 255) k w)
    (hinit : xmqContextInit ops path k w = .ok (some st)) :
    RegInv view [] [] (fun _ => 0) st := by
  obtain ⟨w₁, hopen, hv₁⟩ := hkv.init kvstate w
  obtain ⟨w₂, hwp, hv₂⟩ := loadWritePos_fresh (w := w₁) hkv (by rw [hv₁, hblank.state])
  have hnone : ∀ key, key ≠ XMQ_DATABASE_WRITEPOS ++ [0] → view w₂ kvstate key = none := by
    intro key hkey
    rw [hv₂, update_self, update_of_ne hkey, hv₁, hblank.state]
  have hempty : ∀ w₃, view w₃ = view w₂ →
      RegInv view [] [] (fun _ => 0) (reloaded (path.take 255) k 0, w₃) := by
    intro w₃ hv
    exact {
      state_eq := rfl
      writepos := by rw [hv, hv₂, update_self, update_self]
      producers := by rw [hv, hnone _ writepos_ne_producers.symm]; rfl
      consumers := by rw [hv, hnone _ writepos_ne_consumers.symm]; rfl
      pids := nofun
      cids := nofun
      known := nofun
      positions := nofun
      listProducers := rfl
      listConsumers := rfl }
  have hfit : RestartFits k 0 := by
    rw [RestartFits, Nat.zero_add, getNeedCount_one hk]
    decide
  obtain ⟨w₃, hv₃, hload⟩ := loadAll_registry hkv (n := 0) hk (by omega) hopen hwp
    (Eq.refl { reloaded (path.take 255) k 0 with
      listDatabases := [], lastWriteDb := none, lastWriteDbSeq := 0 })
  rw [if_pos hfit, loadRegistry_stored hkv (hempty w₃ hv₃) rfl rfl, if_pos (by decide)] at hload
  rw [xmqContextInit, if_pos (show k > 0 by omega)] at hinit
  obtain rfl : _ = st := by simpa using hload.symm.trans hinit
  exact hempty w₃ hv₃

theorem notMem_live_of_leave {moves : List (Lib.Move Bytes)} {id : Bytes}
    (hstays : Lib.Stays (moves ++ [.leave id])) :
    id ∉ (Lib.Roster.after (moves ++ [.leave id])).live := by
  intro hmem
  have hjoin := (Lib.rosterInv _).joined id hmem
  exact (Lib.stays_concat.mp hstays).2 id rfl (by simpa using hjoin)

/-- **Durability.** After a run of registry calls from the first
`xmq_context_init` on a blank medium, the registry reloads as it is in memory,
and whoever was unregistered last is gone, if and only if nobody was
unregistered after having been registered and the numbers of producers and
consumers are not negative as `int`s. -/
theorem registry_durable_iff (hkv : LawfulKv ops view) (path : Bytes) (k : Nat) (hk : k < u64Size)
    (w₀ : W) (hblank : BlankStore view (path.take 255) k w₀)
    (hinit : xmqContextInit ops path k w₀ = .ok (some st)) (calls : List RegCall)
    (hrun : run (regStep ops) st calls = .ok st') :
    RegistryDurable ops path k calls st' ↔ RegistryKept calls := by
  obtain ⟨hpos, hmax⟩ := capacity_of_init hkv hk hblank.fresh hinit
  obtain ⟨pos, h⟩ := (regInv_init hkv hpos hmax hblank hinit).run hkv calls hrun
  rw [nil_append, nil_append] at h
  unfold RegistryDurable
  rw [reloads_iff hkv path hpos hmax h, log_eq_live_iff, log_eq_live_iff]
  constructor
  · rintro ⟨⟨⟨hps, hcs⟩, hpint, hcint⟩, -⟩
    refine ⟨hps, hcs, ?_, ?_⟩
    · rw [← live_length hps, ← (log_eq_live_iff _).mpr hps]
      exact hpint
    · rw [← live_length hcs, ← (log_eq_live_iff _).mpr hcs]
      exact hcint
  · rintro ⟨hps, hcs, hpint, hcint⟩
    refine ⟨⟨⟨hps, hcs⟩, ?_, ?_⟩, ?_, ?_⟩
    · rw [(log_eq_live_iff _).mpr hps, live_length hps]
      exact hpint
    · rw [(log_eq_live_iff _).mpr hcs, live_length hcs]
      exact hcint
    · intro before pid heq p hp hid
      rw [heq, filterMap_append] at hps
      have hgone := notMem_live_of_leave hps
      rw [h.listProducers, heq, filterMap_append] at hp
      obtain ⟨id, hmem, rfl⟩ := mem_map.mp hp
      obtain rfl : id = pid.bytes := hid
      exact hgone hmem
    · intro before cid heq c hc hid
      rw [heq, filterMap_append] at hcs
      have hgone := notMem_live_of_leave hcs
      rw [h.listConsumers, heq, filterMap_append] at hc
      obtain ⟨id, hmem, rfl⟩ := mem_map.mp hc
      obtain rfl : id = cid.bytes := hid
      exact hgone hmem

end Registry

--
-- Two runs
--

theorem blankStore_empty (path : Bytes) (k : Nat) :
    BlankStore (fun w : KvMaps => w) path k (fun _ _ => none) where
  state _ := rfl
  records _ _ := rfl

/-- The identity `"A"`. -/
def identityA : Identity := ⟨ascii "A", by decide, by decide, by decide, by decide⟩

/-- The identity `"B"`. -/
def identityB : Identity := ⟨ascii "B", by decide, by decide, by decide, by decide⟩

/-- A run on the blank medium, from the first `xmq_context_init`. -/
def runRegistry (calls : List RegCall) : Except Fault (Option (XmqCtx × KvMaps)) :=
  match xmqContextInit mapOps (ascii "/data") 2 (fun _ _ => none) with
  | .error e => .error e
  | .ok none => .ok none
  | .ok (some st) => (run (regStep mapOps) st calls).map some

theorem exists_of_runRegistry (calls : List RegCall)
    (h : ((runRegistry calls).toOption.bind fun st => st).isSome = true) :
    ∃ st st', xmqContextInit mapOps (ascii "/data") 2 (fun _ _ => none) = .ok (some st) ∧
      run (regStep mapOps) st calls = .ok st' := by
  unfold runRegistry at h
  rcases hinit : xmqContextInit mapOps (ascii "/data") 2 (fun _ _ => none) with e | _ | st
  · rw [hinit] at h
    cases h
  · rw [hinit] at h
    cases h
  · rw [hinit] at h
    cases hrun : run (regStep mapOps) st calls with
    | error e =>
      dsimp only at h
      rw [hrun] at h
      cases h
    | ok st' => exact ⟨st, st', rfl, hrun⟩

/-- A producer and a consumer come to stay, and somebody else is unregistered. -/
def newcomers : List RegCall :=
  [.registerProducer identityA, .registerConsumer identityB, .updateThat identityB ⟨7, by decide⟩,
    .unregisterConsumer identityA]

theorem registryKept_newcomers : RegistryKept newcomers := by
  have hps : newcomers.filterMap producerMove = [] ++ [.join (ascii "A")] := rfl
  have hcs : newcomers.filterMap consumerMove =
      ([] ++ [.join (ascii "B")]) ++ [.leave (ascii "A")] := rfl
  have hnil : Lib.Stays ([] : List (Lib.Move Bytes)) := (Lib.rosterInv []).agree.mp rfl
  refine ⟨?_, ?_, by decide, by decide⟩
  · rw [hps, Lib.stays_concat]
    exact ⟨hnil, nofun⟩
  · rw [hcs, Lib.stays_concat, Lib.stays_concat]
    refine ⟨⟨hnil, nofun⟩, fun x hx => ?_⟩
    obtain rfl : ascii "A" = x := by simpa using hx
    simp [ascii]

theorem registry_durable_newcomers : ∃ st st',
    xmqContextInit mapOps (ascii "/data") 2 (fun _ _ => none) = .ok (some st) ∧
    run (regStep mapOps) st newcomers = .ok st' ∧
    RegistryDurable mapOps (ascii "/data") 2 newcomers st' := by
  obtain ⟨st, st', hinit, hrun⟩ := exists_of_runRegistry newcomers (by decide +kernel)
  exact ⟨st, st', hinit, hrun, (registry_durable_iff mapOps_lawful (ascii "/data") 2 (by decide) _
    (blankStore_empty _ _) hinit newcomers hrun).mpr registryKept_newcomers⟩

/-- A producer that is registered and unregistered is back after a reload. -/
theorem registry_remembers : ∃ st st',
    xmqContextInit mapOps (ascii "/data") 2 (fun _ _ => none) = .ok (some st) ∧
    run (regStep mapOps) st [.registerProducer identityA, .unregisterProducer identityA] =
      .ok st' ∧
    ¬RegistryDurable mapOps (ascii "/data") 2
      [.registerProducer identityA, .unregisterProducer identityA] st' := by
  obtain ⟨st, st', hinit, hrun⟩ := exists_of_runRegistry
    [.registerProducer identityA, .unregisterProducer identityA] (by decide +kernel)
  refine ⟨st, st', hinit, hrun, fun hdurable => ?_⟩
  have h := regInv_init mapOps_lawful (by decide) (by decide) (blankStore_empty _ _) hinit
  obtain ⟨pos, h⟩ := h.run mapOps_lawful _ hrun
  have hreload := (reloads_iff mapOps_lawful (ascii "/data") (by decide) (by decide) h).mp
    hdurable.1
  revert hreload
  decide

end Supex.Xmq
