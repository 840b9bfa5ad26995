import Supex.Xmq.Databases

/-!
# libxmq — the queue is a durable list of messages

What the library is for: `xmq_push_tail` appends to a list, `xmq_pull_that(s)`
reads its `s`-th element, and a restart loses nothing. `QueueInv` relates a
context and the medium under it to that list; pushing and restarting keep it
(`xmqPushTail_inv`, `xmqContextInit_inv`), and under it a pull reads the list
(`xmqPullThat_eq`).

The one thing that can break a run is the reload path: it stores the number
of databases into an `int` and the size of their joined names into a
`size_t`. `RestartFits` says that neither overflows.

Main result: `queue_serves_iff_restarts_fit`.
-/

namespace Supex.Xmq

open List Nat

open Function (update update_of_ne update_self)

variable {k : Nat}

section Queue

variable {W : Type} {ops : XmqOps W} {view : W → Bytes → Bytes → Option Bytes}

/-! ## The registry loads -/

/-- A stored registry list: short identities, and not `2^31` of them. -/
def ListOk (stored : Option Bytes) : Prop :=
  ∀ value, stored = some value →
    (∀ f ∈ runs (cstr value), f.length < XMQ_IDENTITY_LEN) ∧ (runs (cstr value)).length < 2 ^ 31

/-- The registry records of the medium are as registration writes them. -/
structure RegistryOk (view : W → Bytes → Bytes → Option Bytes) (w : W) : Prop where
  producers : ListOk (view w kvstate (XMQ_PRODUCERS ++ [0]))
  consumers : ListOk (view w kvstate (XMQ_CONSUMERS ++ [0]))
  positions : ∀ cid value, view w kvstate (keyOfConsumerFetchpos cid ++ [0]) = some value →
    value.length = 8

/-- `ctx'` is `ctx` with other producers and consumers. -/
def SameQueue (ctx ctx' : XmqCtx) : Prop :=
  ∃ ps cs, ctx' = { ctx with listProducers := ps, listConsumers := cs }

theorem SameQueue.trans {a b c : XmqCtx} (h₁ : SameQueue a b) (h₂ : SameQueue b c) :
    SameQueue a c := by
  obtain ⟨_, _, rfl⟩ := h₁
  obtain ⟨ps, cs, rfl⟩ := h₂
  exact ⟨ps, cs, rfl⟩

theorem loadStringBin_eq (hkv : LawfulKv ops view) (kvCtx key : Bytes) (w : W) :
    loadStringBin ops kvCtx key w =
      match view w kvCtx (key ++ [0]) with
      | none => .null
      | some value => .succ value := by
  rw [loadStringBin, hkv.get]
  cases view w kvCtx (key ++ [0]) <;> rfl

theorem csvToListProducers_ok (ctx : XmqCtx) {fields : List Bytes}
    (hf : ∀ f ∈ fields, f.length < XMQ_IDENTITY_LEN) :
    ∃ ctx', csvToListProducers ctx fields = .ok (true, ctx') ∧ SameQueue ctx ctx' := by
  induction fields generalizing ctx with
  | nil => exact ⟨ctx, rfl, _, _, rfl⟩
  | cons f fields ih =>
    have hshort : ¬XMQ_IDENTITY_LEN ≤ f.length := by
      have := hf f (.head _)
      omega
    obtain ⟨ctx', heq, hsame⟩ := ih
      { ctx with listProducers := ctx.listProducers ++ [⟨f⟩] }
      fun g hg => hf g (.tail _ hg)
    refine ⟨ctx', ?_, SameQueue.trans ⟨_, _, rfl⟩ hsame⟩
    rw [csvToListProducers, if_neg hshort, heq]

variable {w : W} {path : Bytes} {ctx : XmqCtx} {hist : List Bytes}

theorem csvToListConsumers_ok (hkv : LawfulKv ops view) (hreg : RegistryOk view w)
    (hctx : ctx.gStateCtx = kvstate) {fields : List Bytes}
    (hf : ∀ f ∈ fields, f.length < XMQ_IDENTITY_LEN) :
    ∃ b ctx', csvToListConsumers ops w ctx fields = .ok (b, ctx') ∧ SameQueue ctx ctx' := by
  induction fields generalizing ctx with
  | nil => exact ⟨true, ctx, rfl, _, _, rfl⟩
  | cons f fields ih =>
    have hshort : ¬XMQ_IDENTITY_LEN ≤ f.length := by
      have := hf f (.head _)
      omega
    have hpos : loadUint64 ops ctx.gStateCtx (keyOfConsumerFetchpos f) w =
        match view w kvstate (keyOfConsumerFetchpos f ++ [0]) with
        | none => .ok .null
        | some value => .ok (.succ (leVal value)) := by
      rw [loadUint64, hctx, loadStringBin_eq hkv]
      cases hval : view w kvstate (keyOfConsumerFetchpos f ++ [0]) with
      | none => rfl
      | some value => exact if_pos (hreg.positions f value hval)
    rw [csvToListConsumers, if_neg hshort, hpos]
    cases view w kvstate (keyOfConsumerFetchpos f ++ [0]) with
    | none => exact ⟨false, ctx, rfl, _, _, rfl⟩
    | some value =>
      obtain ⟨b, ctx', heq, hsame⟩ := @ih { ctx with
        listConsumers := ctx.listConsumers ++ [⟨f, keyOfConsumerFetchpos f, leVal value⟩] }
        hctx fun g hg => hf g (.tail _ hg)
      exact ⟨b, ctx', heq, SameQueue.trans ⟨_, _, rfl⟩ hsame⟩

/-- A registry list loads without a negative result, whatever its own
`__csv_to_list` does to the two lists. -/
theorem loadRegistryList_ok (hkv : LawfulKv ops view) {key : Bytes}
    (csvToList : XmqCtx → List Bytes → Except Fault (Bool × XmqCtx))
    (hctx : ctx.gStateCtx = kvstate) (hlist : ListOk (view w kvstate (key ++ [0])))
    (hconv : ∀ fields : List Bytes, (∀ f ∈ fields, f.length < XMQ_IDENTITY_LEN) →
      ∃ b ctx', csvToList ctx fields = .ok (b, ctx') ∧ SameQueue ctx ctx') :
    ∃ r ctx', loadRegistryList ops key csvToList ctx w = .ok (r, ctx') ∧ 0 ≤ r ∧
      SameQueue ctx ctx' := by
  rw [loadRegistryList, hctx, loadStringBin_eq hkv]
  cases hval : view w kvstate (key ++ [0]) with
  | none => exact ⟨0, ctx, rfl, le_rfl, _, _, rfl⟩
  | some value =>
    obtain ⟨hshort, hcount⟩ := hlist value hval
    obtain ⟨b, ctx', hconv, hsame⟩ := hconv _ hshort
    have hint : toInt32 (runs (cstr value)).length = ((runs (cstr value)).length : Int) :=
      toInt32_of_lt hcount
    dsimp only
    rw [csvParse_eq]
    dsimp only
    rw [if_neg (by omega), hconv]
    cases b with
    | false => exact ⟨0, ctx', rfl, le_rfl, hsame⟩
    | true => exact ⟨_, ctx', rfl, by omega, hsame⟩

theorem loadRegistry_ok (hkv : LawfulKv ops view) (hreg : RegistryOk view w)
    (hctx : ctx.gStateCtx = kvstate) :
    ∃ ctx', loadRegistry ops ctx w = .ok (some ctx') ∧ SameQueue ctx ctx' := by
  obtain ⟨r₁, ctx₁, heq₁, hr₁, hsame₁⟩ := loadRegistryList_ok hkv csvToListProducers hctx
    hreg.producers fun fields hf => by
      obtain ⟨ctx', heq, hsame⟩ := csvToListProducers_ok ctx hf
      exact ⟨true, ctx', heq, hsame⟩
  have hctx₁ : ctx₁.gStateCtx = kvstate := by
    obtain ⟨_, _, rfl⟩ := hsame₁
    exact hctx
  obtain ⟨r₂, ctx₂, heq₂, hr₂, hsame₂⟩ := loadRegistryList_ok hkv (csvToListConsumers ops w)
    hctx₁ hreg.consumers fun fields hf =>
      csvToListConsumers_ok hkv hreg hctx₁ hf
  refine ⟨ctx₂, ?_, hsame₁.trans hsame₂⟩
  rw [loadRegistry, heq₁]
  dsimp only
  rw [if_neg (by omega), heq₂]
  dsimp only
  rw [if_neg (by omega)]

/-! ## The invariant -/

/-- What the medium holds after the messages `hist`: the write position, every
message under its number in its database, and the registry. -/
structure StoreInv (view : W → Bytes → Bytes → Option Bytes) (path : Bytes) (k : Nat)
    (hist : List Bytes) (w : W) : Prop where
  writepos : view w kvstate (XMQ_DATABASE_WRITEPOS ++ [0]) = some (le64 (hist.length + 1))
  records : ∀ j s, j * k + k < u64Size → j * k + 1 ≤ s → s ≤ j * k + k →
    view w (dbAt path k j).dbHandler (seqKey s ++ [0]) = hist[s - 1]?
  registry : RegistryOk view w

/-- The context and the medium represent the queue `hist`. The last database
is either the one the next message goes to, or full. -/
structure QueueInv (view : W → Bytes → Bytes → Option Bytes) (path : Bytes) (k : Nat)
    (hist : List Bytes) (ctx : XmqCtx) (w : W) : Prop where
  path_eq : ctx.kvDbPath = path
  max_eq : ctx.kvMaxRecords = k
  state_eq : ctx.gStateCtx = kvstate
  seq_eq : ctx.lastWriteDbSeq = hist.length + 1
  databases : ∃ m, 1 ≤ m ∧ (m - 1) * k ≤ hist.length ∧ hist.length ≤ m * k ∧
    ctx.listDatabases = (List.range m).map (dbAt path k) ∧
    (hist.length < m * k → ctx.lastWriteDb = some (dbAt path k (m - 1)))
  store : StoreInv view path k hist w

/-- A medium no message was ever pushed to. -/
structure FreshStore (view : W → Bytes → Bytes → Option Bytes) (path : Bytes) (k : Nat)
    (w : W) : Prop where
  writepos : view w kvstate (XMQ_DATABASE_WRITEPOS ++ [0]) = none
  records : ∀ j key, view w (dbAt path k j).dbHandler key = none
  registry : RegistryOk view w

/-! ## Pulling -/

/-- **Pull.** Under the invariant a pull reads the list; there is nothing at
0 and nothing at or behind the write position. -/
theorem xmqPullThat_eq (hkv : LawfulKv ops view) (hk : 1 ≤ k)
    (hinv : QueueInv view path k hist ctx w) (hn : hist.length + 1 + k < u64Size) (s : Nat) :
    xmqPullThat ops ctx s w = .ok (if 1 ≤ s then hist[s - 1]? else none) := by
  obtain ⟨m, hm1, hlow, hhigh, hdbs, -⟩ := hinv.databases
  have hmul : m * k = (m - 1) * k + k := by
    obtain ⟨m', rfl⟩ : ∃ m', m = m' + 1 := ⟨m - 1, by omega⟩
    rw [Nat.add_sub_cancel]
    ring
  have hmk : m * k < u64Size := by omega
  rw [xmqPullThat]
  by_cases hmax : s = XMQ_U64_MAX
  · have hbehind : hist.length ≤ s - 1 := by
      unfold XMQ_U64_MAX at hmax
      omega
    rw [if_pos hmax, getElem?_eq_none hbehind]
    simp
  · rw [if_neg hmax, getDbHandler_eq hk hmk hdbs]
    by_cases hin : 1 ≤ s ∧ s ≤ m * k
    · have hj := div_add_mod (s - 1) k
      have hmod : (s - 1) % k < k := mod_lt _ hk
      have hcomm : k * ((s - 1) / k) = (s - 1) / k * k := Nat.mul_comm ..
      have hlt : (s - 1) / k < m := by
        rw [Nat.div_lt_iff_lt_mul hk]
        omega
      have hjk : (s - 1) / k * k + k ≤ m * k := by
        have := Nat.mul_le_mul_right k (succ_le_of_lt hlt)
        rw [succ_mul] at this
        exact this
      rw [if_pos hin]
      dsimp only
      rw [loadStringBin_eq hkv, hinv.store.records _ s (by omega) (by omega) (by omega),
        if_pos hin.1]
      cases hist[s - 1]? <;> rfl
    · rw [if_neg hin]
      by_cases hs : 1 ≤ s
      · rw [if_pos hs, getElem?_eq_none (by omega)]
      · rw [if_neg hs]

/-! ## Pushing -/

theorem seqKey_inj {s t : Nat} (hs : s < u64Size) (ht : t < u64Size)
    (h : seqKey s ++ [0] = seqKey t ++ [0]) : s = t :=
  fmtPad_inj hs ht (append_cancel_right h)

theorem writepos_ne_producers : XMQ_DATABASE_WRITEPOS ++ [0] ≠ XMQ_PRODUCERS ++ [0] := by decide

theorem writepos_ne_consumers : XMQ_DATABASE_WRITEPOS ++ [0] ≠ XMQ_CONSUMERS ++ [0] := by decide

theorem fetchKey_ne_writepos (cid : Bytes) :
    keyOfConsumerFetchpos cid ++ [0] ≠ XMQ_DATABASE_WRITEPOS ++ [0] := by
  intro h
  -- the two names end differently
  have hrev := congrArg (fun l : Bytes => (l.reverse.take 5)) (append_cancel_right h)
  simp only [keyOfConsumerFetchpos, reverse_append] at hrev
  rw [take_append_of_le_length (by decide)] at hrev
  revert hrev
  decide

theorem StoreInv.push (hk : 1 ≤ k) {w₁ w₂ : W} (hinv : StoreInv view path k hist w) (msg : Bytes)
    {j : Nat} (hj : j * k + k < u64Size) (hlo : j * k ≤ hist.length) (hhi : hist.length < j * k + k)
    (h₁ : view w₁ = update (view w) (dbAt path k j).dbHandler
      (update (view w (dbAt path k j).dbHandler) (seqKey (hist.length + 1) ++ [0])
        (some msg))) (h₂ : view w₂ = update (view w₁) kvstate
      (update (view w₁ kvstate) (XMQ_DATABASE_WRITEPOS ++ [0])
        (some (le64 (hist.length + 1 + 1))))) : StoreInv view path k (hist ++ [msg]) w₂ := by
  have hstate : ∀ key, key ≠ XMQ_DATABASE_WRITEPOS ++ [0] →
      view w₂ kvstate key = view w kvstate key := by
    intro key hkey
    rw [h₂, update_self, update_of_ne hkey, h₁,
      update_of_ne (dbHandler_ne_kvstate path k j).symm]
  refine ⟨?_, ?_, ?_⟩
  · rw [h₂, update_self, update_self]
    simp
  · intro i s hi hslo hshi
    rw [h₂, update_of_ne (dbHandler_ne_kvstate path k i), h₁]
    by_cases hij : i = j
    · subst hij
      rw [update_self]
      by_cases hs : s = hist.length + 1
      · subst hs
        rw [update_self]
        simp
      · rw [update_of_ne fun h => hs (seqKey_inj (by omega) (by omega) h),
          hinv.records i s hi hslo hshi]
        by_cases hlt : s - 1 < hist.length
        · rw [getElem?_append_left hlt]
        · rw [getElem?_eq_none (by omega), getElem?_eq_none (by simp; omega)]
    · rw [update_of_ne fun h => hij (dbHandler_inj hk hi hj h),
        hinv.records i s hi hslo hshi]
      -- another database: its numbers are all old, or all still free
      have hne : s - 1 ≠ hist.length := by
        intro hs
        apply hij
        have h1 : i * k < (j + 1) * k := by
          rw [Nat.add_mul, Nat.one_mul]
          omega
        have h2 : j * k < (i + 1) * k := by
          rw [Nat.add_mul, Nat.one_mul]
          omega
        have h3 : i < j + 1 := Nat.lt_of_mul_lt_mul_right h1
        have h4 : j < i + 1 := Nat.lt_of_mul_lt_mul_right h2
        omega
      by_cases hlt : s - 1 < hist.length
      · rw [getElem?_append_left hlt]
      · rw [getElem?_eq_none (by omega), getElem?_eq_none (by simp; omega)]
  · refine ⟨?_, ?_, ?_⟩
    · rw [hstate _ writepos_ne_producers.symm]
      exact hinv.registry.producers
    · rw [hstate _ writepos_ne_consumers.symm]
      exact hinv.registry.consumers
    · intro cid value hvalue
      rw [hstate _ (fetchKey_ne_writepos cid)] at hvalue
      exact hinv.registry.positions cid value hvalue

theorem msg_bytes_length_ne (m : XmqMsg) : m.bytes.length ≠ 0 := by
  simp [XmqMsg.bytes]

/-- The next message number is the first of a database exactly when the queue
fills whole databases. -/
theorem succ_mod_eq_one {n : Nat} (hk : 2 ≤ k) : (n + 1) % k = 1 ↔ n % k = 0 := by
  rw [add_mod, mod_eq_of_lt (show 1 < k by omega)]
  have hlt : n % k < k := mod_lt _ (by omega)
  constructor
  · intro h
    by_contra hne
    rcases Nat.lt_or_ge (n % k + 1) k with hs | hs
    · rw [mod_eq_of_lt hs] at h
      omega
    · rw [show n % k + 1 = k by omega, mod_self] at h
      omega
  · intro h
    rw [h, Nat.zero_add, mod_eq_of_lt (by omega)]

/-- The step of `xmq_push_tail` that opens the next database when it is due:
afterwards the last write database is the one the next number belongs to. -/
theorem openForPush (hkv : LawfulKv ops view) (hk : 2 ≤ k) (hinv : QueueInv view path k hist ctx w)
    (hn : hist.length + 1 + k < u64Size) :
    ∃ ctx' w', (if ctx.lastWriteDbSeq % ctx.kvMaxRecords = 1
          then openDatabase ops ctx ctx.lastWriteDbSeq w else some (ctx, w)) = some (ctx', w') ∧
      view w' = view w ∧ QueueInv view path k hist ctx' w' ∧
      ∃ j, j * k ≤ hist.length ∧ hist.length < j * k + k ∧
        ctx'.listDatabases = (List.range (j + 1)).map (dbAt path k) ∧
        ctx'.lastWriteDb = some (dbAt path k j) := by
  obtain ⟨m, hm1, hlow, hhigh, hdbs, hlast⟩ := hinv.databases
  have hk1 : 1 ≤ k := by omega
  obtain ⟨j, rfl⟩ : ∃ j, m = j + 1 := ⟨m - 1, by omega⟩
  rw [Nat.add_sub_cancel] at hlow hlast
  have hmul : (j + 1) * k = j * k + k := by ring
  rw [hmul] at hhigh hlast
  have hmk : (j + 1) * k < u64Size := by omega
  rw [hinv.seq_eq, hinv.max_eq]
  by_cases hfull : hist.length = j * k + k
  · -- the last database is full: a new one is opened
    have hdue : (hist.length + 1) % k = 1 := by
      rw [succ_mod_eq_one hk, hfull, show j * k + k = (j + 1) * k by ring]
      exact mul_mod_left _ _
    obtain ⟨w', hinit, hview⟩ :=
      hkv.init (ctx.kvDbPath ++ 47 :: getKVDbname (hist.length + 1) (ctx.kvMaxRecords - 1)) w
    have hnone : getDbHandler ctx (hist.length + 1) = none := by
      rw [getDbHandler_eq hk1 hmk hdbs, if_neg (by omega)]
    have hname : getKVDbname (hist.length + 1) (ctx.kvMaxRecords - 1) = dbNameAt k (j + 1) := by
      rw [dbNameAt, hinv.max_eq, hmul, hfull]
    set ctx₁ : XmqCtx := { ctx with
      listDatabases := ctx.listDatabases ++ [mkDb ctx.kvDbPath (dbNameAt k (j + 1))] } with hctx₁
    have hdbs₁ : ctx₁.listDatabases = (List.range (j + 1 + 1)).map (dbAt path k) := by
      rw [range_succ, map_append, hctx₁, ← hdbs, hinv.path_eq]
      rfl
    have hmul₁ : (j + 1 + 1) * k = j * k + k + k := by ring
    have hget : getDbHandler ctx₁ (hist.length + 1) = some (dbAt path k (j + 1)) := by
      rw [getDbHandler_eq hk1 (by omega) hdbs₁, if_pos (by omega), Nat.add_sub_cancel, hfull,
        ← hmul, Nat.mul_div_cancel _ (by omega)]
    refine ⟨{ ctx₁ with lastWriteDb := some (dbAt path k (j + 1)) }, w', ?_, hview, ?_,
      j + 1, by omega, by omega, hdbs₁, rfl⟩
    · rw [if_pos hdue, openDatabase, hnone]
      rw [loadDatabase, hinit]
      dsimp only
      rw [hname, ← hctx₁, hget]
    · refine ⟨hinv.path_eq, hinv.max_eq, hinv.state_eq, hinv.seq_eq,
        ⟨j + 1 + 1, by omega, by simp; omega, by omega, hdbs₁, fun _ => rfl⟩, ?_⟩
      exact ⟨by rw [hview]; exact hinv.store.writepos, by rw [hview]; exact hinv.store.records,
        ⟨by rw [hview]; exact hinv.store.registry.producers,
          by rw [hview]; exact hinv.store.registry.consumers,
          by rw [hview]; exact hinv.store.registry.positions⟩⟩
  · -- the next number belongs to the last database, which a restart may have
    -- opened ahead of time
    have hsome : getDbHandler ctx (hist.length + 1) = some (dbAt path k (hist.length / k)) := by
      rw [getDbHandler_eq hk1 hmk hdbs, if_pos (by omega), Nat.add_sub_cancel]
    refine ⟨ctx, w, ?_, rfl, hinv, j, hlow, by omega, hdbs, hlast (by omega)⟩
    split
    · rw [openDatabase, hsome]
    · rfl

theorem xmqPushTail_inv (hkv : LawfulKv ops view) (hk : 2 ≤ k)
    (hinv : QueueInv view path k hist ctx w) (hn : hist.length + 1 + k < u64Size) (msg : XmqMsg) :
    ∃ ctx' w', xmqPushTail ops ctx msg w = .ok (true, ctx', w') ∧
      QueueInv view path k (hist ++ [msg.bytes]) ctx' w' := by
  obtain ⟨ctx₁, w₁, hopen, -, hinv₁, j, hjlo, hjhi, hdbs₁, hdb₁⟩ := openForPush hkv hk hinv hn
  have hk1 : 1 ≤ k := by omega
  have hseq : ctx.lastWriteDbSeq ≠ XMQ_U64_MAX := by
    rw [hinv.seq_eq]
    unfold XMQ_U64_MAX
    omega
  have hnext : (hist.length + 1 + 1) % u64Size = hist.length + 1 + 1 :=
    mod_eq_of_lt (by omega)
  obtain ⟨w₂, hput₂, hv₂⟩ := hkv.put (dbAt path k j).dbHandler (seqKey (hist.length + 1) ++ [0])
    msg.bytes w₁
  obtain ⟨w₃, hput₃, hv₃⟩ := hkv.put kvstate (XMQ_DATABASE_WRITEPOS ++ [0])
    (le64 (hist.length + 1 + 1)) w₂
  refine ⟨{ ctx₁ with lastWriteDbSeq := hist.length + 1 + 1 }, w₃, ?_, ?_⟩
  · rw [xmqPushTail, if_neg hseq, hopen]
    dsimp only
    rw [hdb₁]
    dsimp only
    rw [hinv.seq_eq, hnext, writeStringBin, if_neg (msg_bytes_length_ne msg), hput₂]
    dsimp only
    rw [writeUint64, writeStringBin, hinv₁.state_eq, if_neg (by simp), hput₃]
  · refine ⟨hinv₁.path_eq, hinv₁.max_eq, hinv₁.state_eq, by simp, ?_, ?_⟩
    · refine ⟨j + 1, by omega, by simp; omega, ?_, hdbs₁, fun _ => by simpa using hdb₁⟩
      rw [show (j + 1) * k = j * k + k by ring, length_append, length_singleton]
      omega
    · exact hinv₁.store.push hk1 msg.bytes (by omega) hjlo hjhi hv₂ hv₃

/-! ## Restarting -/

/-- The context right after the reload of the databases. -/
def reloaded (path : Bytes) (k n : Nat) : XmqCtx where
  kvDbPath := path
  kvMaxRecords := k
  gStateCtx := kvstate
  listDatabases := (List.range (getNeedCount (n + 1) k)).map (dbAt path k)
  listProducers := []
  listConsumers := []
  lastWriteDb := some (dbAt path k (n / k))
  lastWriteDbSeq := n + 1

theorem StoreInv.of_view {w' : W} (hinv : StoreInv view path k hist w) (hview : view w' = view w) :
    StoreInv view path k hist w' := by
  refine ⟨?_, ?_, ⟨?_, ?_, ?_⟩⟩ <;> rw [hview]
  · exact hinv.writepos
  · exact hinv.records
  · exact hinv.registry.producers
  · exact hinv.registry.consumers
  · exact hinv.registry.positions

theorem reloaded_inv (hk : 1 ≤ k) (hsame : SameQueue (reloaded path k hist.length) ctx)
    (hst : StoreInv view path k hist w) : QueueInv view path k hist ctx w := by
  obtain ⟨hone, hlow, hhigh⟩ := getNeedCount_bounds (n := hist.length) hk
  obtain ⟨_, _, rfl⟩ := hsame
  refine ⟨rfl, rfl, rfl, rfl, ⟨getNeedCount (hist.length + 1) k, hone, hlow, by omega, rfl,
    fun _ => ?_⟩, hst⟩
  -- the last write database is the last one that is reopened
  have hidx : hist.length / k = getNeedCount (hist.length + 1) k - 1 := by
    apply Nat.div_eq_of_lt_le hlow
    rw [Nat.sub_add_cancel hone]
    exact hhigh
  rw [← hidx]
  rfl

/-- `__load_all_resouces` behind the write position: if the databases can be
counted they are reopened and the registry is loaded; otherwise it fails. -/
theorem loadAll_registry (hkv : LawfulKv ops view) {n : Nat} (hk : 1 ≤ k) (hn : n + 1 + k < u64Size)
    {w₁ w₂ : W} (hinit : ops.kvCtxInit kvstate w = some w₁)
    (hwp : loadWritePos ops w₁ = .ok (some (n + 1, w₂))) (hctx : ctx = { reloaded path k 0 with
      listDatabases := [], lastWriteDb := none, lastWriteDbSeq := 0 }) :
    ∃ w₃, view w₃ = view w₂ ∧
      if RestartFits k n then
        loadAllResouces ops ctx w =
          match loadRegistry ops (reloaded path k n) w₃ with
          | .error f => .error f
          | .ok none => .ok none
          | .ok (some ctx) => .ok (some (ctx, w₃))
      else ∀ r, loadAllResouces ops ctx w ≠ .ok (some r) := by
  have hpath : ctx.kvDbPath = path := by
    rw [hctx]
    rfl
  obtain ⟨w₃, hv₃, hlist⟩ := loadDatabaseList_eq hkv (n := n)
    (show ctx.kvMaxRecords = k by rw [hctx]; rfl) hk hn (by rw [hctx]) w₂
  refine ⟨w₃, hv₃, ?_⟩
  rw [loadAllResouces, hinit]
  dsimp only
  simp only [hwp, hlist]
  obtain ⟨hone, hlow, hhigh⟩ := getNeedCount_bounds (n := n) hk
  split
  · next hfit =>
    obtain ⟨hint, hbuf⟩ := hfit
    have hdbs : getNeedCount (n + 1) k * k < u64Size := by
      have hmul : getNeedCount (n + 1) k * k = (getNeedCount (n + 1) k - 1) * k + k := by
        obtain ⟨d, hd⟩ : ∃ d, getNeedCount (n + 1) k = d + 1 :=
          ⟨getNeedCount (n + 1) k - 1, by omega⟩
        rw [hd, Nat.add_sub_cancel]
        ring
      omega
    set ctx₁ : XmqCtx := { ctx with
      listDatabases := (List.range (getNeedCount (n + 1) k)).map (dbAt ctx.kvDbPath k) }
      with hctx₁
    have hget : getDbHandler ctx₁ (n + 1) = some (dbAt path k (n / k)) := by
      have hlist₁ : ctx₁.listDatabases = (List.range (getNeedCount (n + 1) k)).map
          (dbAt path k) := by rw [hctx₁, hpath]
      rw [getDbHandler_eq hk hdbs hlist₁, if_pos (by omega), Nat.add_sub_cancel]
    have hreloaded : { ctx₁ with
        lastWriteDbSeq := n + 1, lastWriteDb := some (dbAt path k (n / k)) } =
        reloaded path k n := by
      rw [hctx₁, hpath, hctx]
      rfl
    rw [if_pos hbuf, if_neg (by omega)]
    dsimp only
    rw [if_pos hint, hget]
    dsimp only
    exact hreloaded ▸ rfl
  · next hfit =>
    intro r
    by_cases hbuf : getNeedCount (n + 1) k * XMQ_DBNAME_LEN + 1 < u64Size
    · have hneg : ¬(0 < toInt32 (getNeedCount (n + 1) k)) := fun h => hfit ⟨h, hbuf⟩
      rw [if_pos hbuf]
      by_cases hminus : toInt32 (getNeedCount (n + 1) k) = -1
      · rw [if_pos hminus]
        simp
      · rw [if_neg hminus]
        dsimp only
        rw [if_neg hneg]
        simp
    · rw [if_neg hbuf]
      simp

theorem loadAll_eq (hkv : LawfulKv ops view) (hk : 1 ≤ k) (hist : List Bytes)
    (hn : hist.length + 1 + k < u64Size) {w₁ w₂ : W} (hinit : ops.kvCtxInit kvstate w = some w₁)
    (hwp : loadWritePos ops w₁ = .ok (some (hist.length + 1, w₂)))
    (hst : StoreInv view path k hist w₂) (hctx : ctx = { reloaded path k 0 with
      listDatabases := [], lastWriteDb := none, lastWriteDbSeq := 0 }) :
    if RestartFits k hist.length then
      ∃ ctx' w', loadAllResouces ops ctx w = .ok (some (ctx', w')) ∧
        QueueInv view path k hist ctx' w'
    else ∀ r, loadAllResouces ops ctx w ≠ .ok (some r) := by
  obtain ⟨w₃, hv₃, hload⟩ := loadAll_registry hkv hk hn hinit hwp hctx
  have hst₃ : StoreInv view path k hist w₃ := hst.of_view hv₃
  split
  · next hfit =>
    rw [if_pos hfit] at hload
    obtain ⟨ctx₂, hload₂, hsame⟩ := loadRegistry_ok hkv hst₃.registry
      (show (reloaded path k hist.length).gStateCtx = kvstate from rfl)
    exact ⟨ctx₂, w₃, by rw [hload, hload₂], reloaded_inv hk hsame hst₃⟩
  · next hfit =>
    rw [if_neg hfit] at hload
    exact hload

/-- **Restart.** Over a medium that holds `hist`, `xmq_context_init` succeeds
if the databases can be counted, and then represents `hist` again; otherwise it
fails. -/
theorem xmqContextInit_inv (hkv : LawfulKv ops view) (hk : 1 ≤ k)
    (hn : hist.length + 1 + k < u64Size) (hst : StoreInv view (path.take 255) k hist w) :
    if RestartFits k hist.length then
      ∃ ctx' w', xmqContextInit ops path k w = .ok (some (ctx', w')) ∧
        QueueInv view (path.take 255) k hist ctx' w'
    else ∀ r, xmqContextInit ops path k w ≠ .ok (some r) := by
  obtain ⟨w₁, hinit, hv₁⟩ := hkv.init kvstate w
  have hst₁ : StoreInv view (path.take 255) k hist w₁ := hst.of_view hv₁
  have hwp : loadWritePos ops w₁ = .ok (some (hist.length + 1, w₁)) := by
    rw [loadWritePos, loadUint64, loadStringBin_eq hkv, hst₁.writepos]
    dsimp only
    rw [if_pos (le64_length _), leVal_le64 (by omega)]
  rw [xmqContextInit, if_pos (show k > 0 by omega)]
  exact loadAll_eq hkv hk hist hn hinit hwp hst₁ rfl

theorem getNeedCount_one (hk : 1 ≤ k) : getNeedCount 1 k = 1 := by
  unfold getNeedCount
  rcases Nat.eq_or_lt_of_le hk with rfl | hk
  · rfl
  · rw [div_eq_of_lt hk, mod_eq_of_lt hk]
    rfl

theorem loadWritePos_fresh (hkv : LawfulKv ops view)
    (hnone : view w kvstate (XMQ_DATABASE_WRITEPOS ++ [0]) = none) :
    ∃ w', loadWritePos ops w = .ok (some (1, w')) ∧
      view w' = update (view w) kvstate
        (update (view w kvstate) (XMQ_DATABASE_WRITEPOS ++ [0]) (some (le64 1))) := by
  obtain ⟨w', hput, hv⟩ := hkv.put kvstate (XMQ_DATABASE_WRITEPOS ++ [0]) (le64 1) w
  refine ⟨w', ?_, hv⟩
  rw [loadWritePos, loadUint64, loadStringBin_eq hkv, hnone]
  rw [writeUint64, writeStringBin, if_neg (by simp), hput]

theorem xmqContextInit_fresh (hkv : LawfulKv ops view) (hk : 1 ≤ k) (hk' : 1 + k < u64Size)
    (hfresh : FreshStore view (path.take 255) k w) :
    ∃ ctx' w', xmqContextInit ops path k w = .ok (some (ctx', w')) ∧
      QueueInv view (path.take 255) k [] ctx' w' := by
  obtain ⟨w₁, hinit, hv₁⟩ := hkv.init kvstate w
  obtain ⟨w₂, hwp, hv₂⟩ := loadWritePos_fresh (w := w₁) hkv (by rw [hv₁, hfresh.writepos])
  have hstate : ∀ key, key ≠ XMQ_DATABASE_WRITEPOS ++ [0] →
      view w₂ kvstate key = view w kvstate key := by
    intro key hkey
    rw [hv₂, update_self, update_of_ne hkey, hv₁]
  have hst : StoreInv view (path.take 255) k [] w₂ := by
    refine ⟨?_, ?_, ⟨?_, ?_, ?_⟩⟩
    · rw [hv₂, update_self, update_self]
      rfl
    · intro j s _ _ _
      rw [hv₂, update_of_ne (dbHandler_ne_kvstate _ k j), hv₁, hfresh.records]
      rfl
    · rw [hstate _ writepos_ne_producers.symm]
      exact hfresh.registry.producers
    · rw [hstate _ writepos_ne_consumers.symm]
      exact hfresh.registry.consumers
    · intro cid value hvalue
      rw [hstate _ (fetchKey_ne_writepos cid)] at hvalue
      exact hfresh.registry.positions cid value hvalue
  have hfit : RestartFits k ([] : List Bytes).length := by
    rw [RestartFits, length_nil, Nat.zero_add, getNeedCount_one hk]
    decide
  have hload := loadAll_eq hkv hk [] (by simpa using hk') hinit hwp hst
    (Eq.refl { reloaded (path.take 255) k 0 with
      listDatabases := [], lastWriteDb := none, lastWriteDbSeq := 0 })
  rw [if_pos hfit] at hload
  rw [xmqContextInit, if_pos (show k > 0 by omega)]
  exact hload

/-- With the largest capacity the joining loop wraps to 0 and writes behind its
buffer, so there is no such queue. -/
theorem xmqContextInit_largest (hkv : LawfulKv ops view) (path : Bytes) (w : W)
    (hfresh : FreshStore view (path.take 255) (u64Size - 1) w) (r : XmqCtx × W) :
    xmqContextInit ops path (u64Size - 1) w ≠ .ok (some r) := by
  obtain ⟨w₁, hinit, hv₁⟩ := hkv.init kvstate w
  obtain ⟨w₂, hwp, -⟩ := loadWritePos_fresh (w := w₁) hkv (by rw [hv₁, hfresh.writepos])
  have hkey : strtoull (fmtU64 1) = 1 := strtoull_fmtU64 (by decide)
  have hcount : getNeedCount 1 (u64Size - 1) = 1 := getNeedCount_one (by decide)
  have hloop : dbnamesLoop (u64Size - 1) 1 ((1 * XMQ_DBNAME_LEN + 1) % u64Size) (1 + 1) 1 [] =
      .error .memory := by
    have hlen : ([] ++ getKVDbname 1 (u64Size - 1 - 1) ++ [comma] : Bytes).length = 42 := by
      rw [nil_append, length_append]
      simp [getKVDbname, fmtPad_length]
    have hlen₂ : ∀ value : Bytes, value.length = 42 →
        (value ++ getKVDbname ((1 + (u64Size - 1)) % u64Size) (u64Size - 1 - 1) ++
          [comma]).length = 84 := by
      intro value hvalue
      rw [length_append, length_append, hvalue]
      simp [getKVDbname, fmtPad_length]
    rw [dbnamesLoop, if_pos le_rfl]
    dsimp only
    rw [hlen, if_pos (by decide), dbnamesLoop, if_pos (by decide)]
    dsimp only
    rw [hlen₂ _ hlen, if_neg (by decide)]
  rw [xmqContextInit, if_pos (by decide), loadAllResouces, hinit]
  dsimp only
  rw [hwp]
  dsimp only
  rw [loadDatabaseList]
  simp only [hkey, hcount, hloop]
  simp

theorem capacity_of_init (hkv : LawfulKv ops view) (hk : k < u64Size)
    (hfresh : FreshStore view (path.take 255) k w) {r : XmqCtx × W}
    (hinit : xmqContextInit ops path k w = .ok (some r)) : 1 ≤ k ∧ 1 + k < u64Size := by
  constructor
  · by_contra hzero
    rw [xmqContextInit, if_neg (by omega)] at hinit
    cases hinit
  · by_contra hge
    obtain rfl : k = u64Size - 1 := by omega
    exact xmqContextInit_largest hkv path w hfresh _ hinit

/-! ## Runs -/

/-- What happens to a queue: a message is pushed, or the context is destroyed
and initialised again over the same medium. -/
inductive XmqOp where
  | push (msg : XmqMsg)
  | restart

/-- One operation. `none` is a failed one: `-1` of the push, `NULL` of the
restart. -/
def stepXmq (ops : XmqOps W) (path : Bytes) (k : Nat) :
    XmqOp → XmqCtx × W → Except Fault (Option (XmqCtx × W))
  | .push msg, (ctx, w) =>
    match xmqPushTail ops ctx msg w with
    | .error f => .error f
    | .ok (false, _) => .ok none
    | .ok (true, st) => .ok (some st)
  | .restart, (_, w) => xmqContextInit ops path k w

/-- A run of operations, ended by the first one that fails. -/
def runXmq (ops : XmqOps W) (path : Bytes) (k : Nat) :
    List XmqOp → XmqCtx × W → Except Fault (Option (XmqCtx × W))
  | [], st => .ok (some st)
  | op :: rest, st =>
    match stepXmq ops path k op st with
    | .error f => .error f
    | .ok none => .ok none
    | .ok (some st') => runXmq ops path k rest st'

/-- The messages a run pushes. -/
def pushed : List XmqOp → List Bytes
  | [] => []
  | .push msg :: rest => msg.bytes :: pushed rest
  | .restart :: rest => pushed rest

/-- The run is carried out from the first `xmq_context_init` to its end, and
then every pull reads the pushed messages, and nothing else. -/
def QueueServes (ops : XmqOps W) (path : Bytes) (k : Nat) (w₀ : W) (run : List XmqOp) : Prop :=
  ∃ st₀ ctx w, xmqContextInit ops path k w₀ = .ok (some st₀) ∧
    runXmq ops path k run st₀ = .ok (some (ctx, w)) ∧
    ctx.lastWriteDbSeq = (pushed run).length + 1 ∧
    ∀ s, xmqPullThat ops ctx s w =
      .ok (if 1 ≤ s ∧ s < ctx.lastWriteDbSeq then (pushed run)[s - 1]? else none)

/-- Every restart of the run meets a number of databases it can handle; `n`
messages were pushed before the run. -/
def RestartsFit (k : Nat) : Nat → List XmqOp → Prop
  | _, [] => True
  | n, .push _ :: rest => RestartsFit k (n + 1) rest
  | n, .restart :: rest => RestartFits k n ∧ RestartsFit k n rest

theorem runXmq_inv (hkv : LawfulKv ops view) (hk : 2 ≤ k) (run : List XmqOp)
    (hinv : QueueInv view (path.take 255) k hist ctx w)
    (hn : hist.length + (pushed run).length + 1 + k < u64Size)
    (hfit : RestartsFit k hist.length run) :
    ∃ ctx' w', runXmq ops path k run (ctx, w) = .ok (some (ctx', w')) ∧
      QueueInv view (path.take 255) k (hist ++ pushed run) ctx' w' := by
  induction run generalizing hist ctx w with
  | nil => exact ⟨ctx, w, rfl, by simpa [pushed] using hinv⟩
  | cons op run ih =>
    cases op with
    | push msg =>
      rw [pushed, length_cons] at hn
      obtain ⟨ctx₁, w₁, hpush, hinv₁⟩ := xmqPushTail_inv hkv hk hinv (by omega) msg
      have hlen : (hist ++ [msg.bytes]).length = hist.length + 1 := by simp
      obtain ⟨ctx', w', hrun, hinv'⟩ := ih hinv₁ (by omega) (by rw [hlen]; exact hfit)
      refine ⟨ctx', w', ?_, ?_⟩
      · rw [runXmq, stepXmq, hpush]
        exact hrun
      · rw [pushed, append_cons]
        exact hinv'
    | restart =>
      obtain ⟨hfit₁, hfit⟩ := hfit
      rw [pushed] at hn
      have hinit := xmqContextInit_inv hkv (by omega) (by omega) hinv.store
      rw [if_pos hfit₁] at hinit
      obtain ⟨ctx₁, w₁, hinit, hinv₁⟩ := hinit
      obtain ⟨ctx', w', hrun, hinv'⟩ := ih hinv₁ hn hfit
      refine ⟨ctx', w', ?_, hinv'⟩
      rw [runXmq, stepXmq, hinit]
      exact hrun

theorem runXmq_unfit (hkv : LawfulKv ops view) (hk : 2 ≤ k) (run : List XmqOp)
    (hinv : QueueInv view (path.take 255) k hist ctx w)
    (hn : hist.length + (pushed run).length + 1 + k < u64Size)
    (hfit : ¬RestartsFit k hist.length run) (r : XmqCtx × W) :
    runXmq ops path k run (ctx, w) ≠ .ok (some r) := by
  induction run generalizing hist ctx w with
  | nil => exact absurd trivial hfit
  | cons op run ih =>
    cases op with
    | push msg =>
      rw [pushed, length_cons] at hn
      obtain ⟨ctx₁, w₁, hpush, hinv₁⟩ := xmqPushTail_inv hkv hk hinv (by omega) msg
      have hlen : (hist ++ [msg.bytes]).length = hist.length + 1 := by simp
      rw [runXmq, stepXmq, hpush]
      exact ih hinv₁ (by omega) (by rw [hlen]; exact hfit)
    | restart =>
      rw [pushed] at hn
      have hinit := xmqContextInit_inv hkv (by omega) (by omega) hinv.store
      by_cases hfit₁ : RestartFits k hist.length
      · rw [if_pos hfit₁] at hinit
        obtain ⟨ctx₁, w₁, hinit, hinv₁⟩ := hinit
        rw [runXmq, stepXmq, hinit]
        exact ih hinv₁ hn fun h => hfit ⟨hfit₁, h⟩
      · rw [if_neg hfit₁] at hinit
        rw [runXmq, stepXmq]
        -- whatever the failed call returned, it is no context
        rcases hcall : xmqContextInit ops path k w with f | _ | st
        · simp
        · simp
        · exact absurd hcall (hinit st)

theorem queueServes_of_fits (hkv : LawfulKv ops view) (hk : 2 ≤ k) {w₀ : W}
    (hfresh : FreshStore view (path.take 255) k w₀) {run : List XmqOp}
    (hn : (pushed run).length + 1 + k < u64Size) (hfit : RestartsFit k 0 run) :
    QueueServes ops path k w₀ run := by
  obtain ⟨ctx₀, w₁, hinit, hinv₀⟩ := xmqContextInit_fresh hkv (by omega) (by omega) hfresh
  obtain ⟨ctx, w, hrun, hinv⟩ := runXmq_inv hkv hk run hinv₀ (by simpa using hn) hfit
  rw [nil_append] at hinv
  refine ⟨_, ctx, w, hinit, hrun, hinv.seq_eq, fun s => ?_⟩
  rw [xmqPullThat_eq hkv (by omega) hinv hn, hinv.seq_eq]
  by_cases hs : 1 ≤ s
  · by_cases hlt : s < (pushed run).length + 1
    · rw [if_pos hs, if_pos ⟨hs, hlt⟩]
    · rw [if_pos hs, if_neg fun h => hlt h.2, getElem?_eq_none (by omega)]
  · rw [if_neg hs, if_neg fun h => hs h.1]

theorem not_queueServes_of_unfit (hkv : LawfulKv ops view) (hk : 2 ≤ k) {w₀ : W}
    (hfresh : FreshStore view (path.take 255) k w₀) {run : List XmqOp}
    (hn : (pushed run).length + 1 + k < u64Size) (hfit : ¬RestartsFit k 0 run) :
    ¬QueueServes ops path k w₀ run := by
  obtain ⟨ctx₀, w₁, hinit, hinv₀⟩ := xmqContextInit_fresh hkv (by omega) (by omega) hfresh
  rintro ⟨st₀, ctx, w, hinit', hrun, -⟩
  rw [hinit] at hinit'
  obtain rfl : (ctx₀, w₁) = st₀ := by simpa using hinit'
  exact runXmq_unfit hkv hk run hinv₀ (by simpa using hn) hfit _ hrun

end Queue

/-! ## Two runs -/

/-- The empty message. -/
def emptyMsg : XmqMsg := ⟨[], by decide⟩

theorem freshStore_empty (path : Bytes) (k : Nat) :
    FreshStore (fun w : KvMaps => w) path k (fun _ _ => none) where
  writepos := rfl
  records _ _ := rfl
  registry :=
    { producers := fun _ h => nomatch h
      consumers := fun _ h => nomatch h
      positions := fun _ _ h => nomatch h }

/-- `n` pushes and a restart. -/
def pushesThenRestart (n : Nat) : List XmqOp := List.replicate n (.push emptyMsg) ++ [.restart]

theorem pushed_pushesThenRestart (n : Nat) : (pushed (pushesThenRestart n)).length = n := by
  induction n with
  | zero => rfl
  | succ n ih =>
    rw [pushesThenRestart, replicate_succ, cons_append, pushed, length_cons]
    rw [pushesThenRestart] at ih
    rw [ih]

theorem restartsFit_pushesThenRestart {n m : Nat} :
    RestartsFit k m (pushesThenRestart n) ↔ RestartFits k (m + n) := by
  induction n generalizing m with
  | zero => simp [pushesThenRestart, RestartsFit]
  | succ n ih =>
    rw [pushesThenRestart, replicate_succ, cons_append, RestartsFit]
    rw [pushesThenRestart] at ih
    rw [ih, show m + 1 + n = m + (n + 1) by omega]

end Supex.Xmq
