import Supex.Xmq.Failure
import Supex.Xmq.Registry

/-!
# libxmq — where a message is put

At `xmq_context_init` the databases are listed anew: `__load_string_list`
steps a 64-bit counter by `kv_max_records` from 1 to the write position and
names an interval at every step. From then on `xmq_push_tail` writes every
message to `last_write_db`, and opens the next database when the sequence
number is 1 modulo the capacity.

The counter runs off its buffer when the step behind the write position wraps,
or when the size of the buffer did. With a capacity of 1 no number is 1 modulo
the capacity, so no database but the last one listed is ever written to.

Main results: `databaseFields_eq`, `placement_iff`.
-/

namespace Supex.Xmq

open List Nat

--
-- The list of databases
--

/-- The database fields `__load_string_list` makes of the write position `p`. -/
def databaseFields (k p : Nat) : Except Fault (List Bytes) :=
  let len := (getNeedCount p k * XMQ_DBNAME_LEN + 1) % u64Size
  match dbnamesLoop k p len (p + 1) 1 [] with
  | .error f => .error f
  | .ok value =>
    if len < 2 then .error .memory
    else csvParse (value.take (len - 2))

/-- The number `s` is in the interval of the database. -/
def XmqDb.Holds (db : XmqDb) (s : Nat) : Prop := db.dbStart ≤ s ∧ s ≤ db.dbEnd

instance (db : XmqDb) (s : Nat) : Decidable (db.Holds s) := inferInstanceAs (Decidable (_ ∧ _))

/-- The loop ends, and the databases it names are disjoint and cover `1 … p`. -/
def IntervalsPlaced (k p : Nat) : Prop :=
  ∃ fields, databaseFields k p = .ok fields ∧ ∀ path,
    (fields.map (mkDb path)).Pairwise (fun a b => ∀ s, ¬(a.Holds s ∧ b.Holds s)) ∧
    ∀ s, 1 ≤ s → s ≤ p → ∃ db ∈ fields.map (mkDb path), db.Holds s

section Model

variable {W : Type}

theorem loadDatabaseList_fields (ops : XmqOps W) (ctx : XmqCtx) (key : Bytes) (w : W) :
    loadDatabaseList ops ctx key w =
      match databaseFields ctx.kvMaxRecords (strtoull key) with
      | .error f => .error f
      | .ok fields =>
        if toInt32 fields.length = -1 then .ok (-1, ctx, w)
        else
          match csvToListDatabases ops ctx fields w with
          | .error f => .error f
          | .ok none => .ok (0, ctx, w)
          | .ok (some (ctx', w')) => .ok (toInt32 fields.length, ctx', w') := by
  rw [loadDatabaseList, databaseFields]
  rcases dbnamesLoop ctx.kvMaxRecords (strtoull key) _ _ 1 [] with f | value
  · rfl
  · dsimp only
    split
    · rfl
    · rcases csvParse _ with f | fields <;> rfl

--
-- The calls
--

/-- A call of the library. -/
inductive XmqCall where
  | push (msg : XmqMsg)
  | registry (call : RegCall)

/-- One call, whatever it returns. -/
def callStep (ops : XmqOps W) (st : XmqCtx × W) : XmqCall → Except Fault (XmqCtx × W)
  | .push msg =>
    match xmqPushTail ops st.1 msg st.2 with
    | .error f => .error f
    | .ok (_, st') => .ok st'
  | .registry call => regStep ops st call

/-- A `kv_put` of one pair. -/
structure KvPut where
  kvCtx : Bytes
  key : Bytes
  value : Bytes

/-- The callbacks, with a record of the `kv_put` calls that were made. -/
def recorded (ops : XmqOps W) : XmqOps (W × List KvPut) where
  kvCtxInit dbName w := (ops.kvCtxInit dbName w.1).map fun w' => (w', w.2)
  kvPut kvCtx key value w :=
    let (ok, w') := ops.kvPut kvCtx key value w.1
    (ok, w', w.2 ++ [⟨kvCtx, key, value⟩])
  kvGet kvCtx key w := ops.kvGet kvCtx key w.1

/-- What a push puts is the position record, or a message record in a database
whose interval holds its number. -/
def PushPlaced (ops : XmqOps W) (ctx : XmqCtx) (msg : XmqMsg) (w : W) : Prop :=
  ∀ ok ctx' w' puts, xmqPushTail (recorded ops) ctx msg (w, []) = .ok (ok, ctx', w', puts) →
    ∀ put ∈ puts,
      (put.kvCtx = ctx.gStateCtx ∧ put.key = XMQ_DATABASE_WRITEPOS ++ [0]) ∨
      (put.key = seqKey ctx.lastWriteDbSeq ++ [0] ∧
        ∃ db ∈ ctx'.listDatabases, db.dbHandler = put.kvCtx ∧ db.Holds ctx.lastWriteDbSeq)

end Model

/-- Whatever the callbacks do, from an `xmq_context_init` that finds the write
position `p` on, every message goes to a database whose interval holds its
number. -/
def MessagesPlaced (k p : Nat) : Prop :=
  ∀ (W : Type) (ops : XmqOps W) (path : Bytes) (w₀ : W) (st st' : XmqCtx × W)
    (calls : List XmqCall) (msg : XmqMsg),
    xmqContextInit ops path k w₀ = .ok (some st) → st.1.lastWriteDbSeq = p →
    Lib.run (callStep ops) st calls = .ok st' → PushPlaced ops st'.1 msg st'.2

/-- The placement of the messages behind the write position `p`. -/
def Placement (k p : Nat) : Prop := IntervalsPlaced k p ∧ MessagesPlaced k p

/-- Neither the counter nor the buffer of the loop wraps, and the capacity is
not 1, or the number of databases is no positive `int`. -/
def PlacementFits (k p : Nat) : Prop :=
  getNeedCount p k * k + 1 < u64Size ∧ getNeedCount p k * XMQ_DBNAME_LEN + 1 < u64Size ∧
    (2 ≤ k ∨ toInt32 (getNeedCount p k) ≤ 0)

instance (k p : Nat) : Decidable (PlacementFits k p) := inferInstanceAs (Decidable (_ ∧ _))

--
-- The loop
--

theorem getKVDbname_length (start offset : Nat) : (getKVDbname start offset).length = 41 := by
  simp [getKVDbname, fmtPad_length]

theorem mod_back {x b : Nat} (h : b ≤ x) (h' : x < b + b) : x % b = x - b := by
  rw [mod_eq_sub_mod h, mod_eq_of_lt (by omega)]

/-- What is left of the loop at the `j`-th name, the names before it in the
buffer: all the names, unless the counter wraps or they do not fit. -/
theorem dbnamesLoop_rest {k p len fuel j : Nat} (hk : 1 ≤ k) (hk' : k < u64Size)
    (hp : p < XMQ_U64_MAX) (hj : j ≤ getNeedCount p k) (hfuel : getNeedCount p k - j < fuel)
    (hlen : len ≤ getNeedCount p k * 42 + 1) (hroom : j = getNeedCount p k → j * 42 + 1 ≤ len) :
    dbnamesLoop k p len fuel ((j * k + 1) % u64Size) (joinFields (dbNames k j)) =
      if getNeedCount p k * k + 1 < u64Size ∧ getNeedCount p k * 42 + 1 ≤ len then
        .ok (joinFields (dbNames k (getNeedCount p k)))
      else .error .memory := by
  unfold XMQ_U64_MAX at hp
  induction fuel generalizing j with
  | zero => omega
  | succ fuel ih =>
    rw [dbnamesLoop]
    by_cases hlast : j = getNeedCount p k
    · -- behind the last name: the counter is past the position, or it wrapped
      have hroom' := hroom hlast
      have hstop : ¬(getNeedCount p k * k + 1 ≤ p) := fun h => by
        have := (lt_getNeedCount hk p (getNeedCount p k)).mpr h
        omega
      have hup : getNeedCount p k * k < p + k := by
        rcases Nat.eq_zero_or_pos (getNeedCount p k) with hzero | hpos
        · rw [hzero, Nat.zero_mul]
          omega
        · have hbefore := (lt_getNeedCount hk p (getNeedCount p k - 1)).mp (by omega)
          obtain ⟨n, hn⟩ : ∃ n, getNeedCount p k = n + 1 := ⟨getNeedCount p k - 1, by omega⟩
          rw [hn, Nat.add_sub_cancel] at hbefore
          rw [hn, succ_mul]
          omega
      subst hlast
      by_cases hwrap : getNeedCount p k * k + 1 < u64Size
      · rw [mod_eq_of_lt hwrap, if_neg hstop, if_pos ⟨hwrap, hroom'⟩]
      · have hback : (getNeedCount p k * k + 1) % u64Size = getNeedCount p k * k + 1 - u64Size :=
          mod_back (by omega) (by omega)
        have hgo : getNeedCount p k * k + 1 - u64Size ≤ p := by omega
        have hover : ¬(joinFields (dbNames k (getNeedCount p k)) ++
            getKVDbname (getNeedCount p k * k + 1 - u64Size) (k - 1) ++ [comma]).length + 1 ≤
              len := by
          rw [length_append, length_append, joinFields_dbNames_length,
            getKVDbname_length, length_singleton]
          omega
        have hno : ¬(getNeedCount p k * k + 1 < u64Size ∧ getNeedCount p k * 42 + 1 ≤ len) :=
          fun h => hwrap h.1
        rw [hback, if_pos hgo, if_neg hno]
        rw [if_neg hover]
    · have hgo : j * k + 1 ≤ p := (lt_getNeedCount hk _ _).mp (by omega)
      have hvalue : joinFields (dbNames k j) ++ getKVDbname (j * k + 1) (k - 1) ++ [comma] =
          joinFields (dbNames k (j + 1)) := by
        rw [dbNames_succ, joinFields_append, joinFields_cons]
        simp [joinFields, dbNameAt]
      have hnext : (j * k + 1 + k) % u64Size = ((j + 1) * k + 1) % u64Size := by
        congr 1
        ring
      rw [mod_eq_of_lt (show j * k + 1 < u64Size by omega), if_pos hgo]
      simp only [hvalue, hnext, joinFields_dbNames_length]
      by_cases hfit : (j + 1) * 42 + 1 ≤ len
      · rw [if_pos hfit]
        exact ih (by omega) (by omega) (fun _ => hfit)
      · have hno : ¬(getNeedCount p k * k + 1 < u64Size ∧ getNeedCount p k * 42 + 1 ≤ len) := by
          rintro ⟨-, h⟩
          omega
        rw [if_neg hfit, if_neg hno]

/-- **The loop.** It names the first `getNeedCount p k` databases, unless its
counter or the size of its buffer wraps; then it writes behind the buffer. -/
theorem databaseFields_eq {k p : Nat} (hk : 1 ≤ k) (hk' : k < u64Size) (hp₁ : 1 ≤ p)
    (hp : p < XMQ_U64_MAX) :
    databaseFields k p =
      if getNeedCount p k * k + 1 < u64Size ∧ getNeedCount p k * XMQ_DBNAME_LEN + 1 < u64Size then
        .ok (dbNames k (getNeedCount p k))
      else .error .memory := by
  have hone : 0 < getNeedCount p k := (lt_getNeedCount hk p 0).mpr (by omega)
  have hcount : getNeedCount p k ≤ p := by
    by_contra hcon
    have := (lt_getNeedCount hk p p).mp (by omega)
    have hle : p * 1 ≤ p * k := Nat.mul_le_mul_left _ hk
    omega
  have hsize : XMQ_DBNAME_LEN = 42 := rfl
  rw [databaseFields, hsize]
  set len := (getNeedCount p k * 42 + 1) % u64Size with hlen
  have hle : len ≤ getNeedCount p k * 42 + 1 := mod_le _ _
  have hloop := @dbnamesLoop_rest k p len (p + 1) 0 hk hk' hp (by omega) (by omega) hle (by omega)
  have hstart : (0 * k + 1) % u64Size = 1 := by
    rw [Nat.zero_mul]
    rfl
  rw [hstart, show joinFields (dbNames k 0) = [] from rfl] at hloop
  have hfit : getNeedCount p k * 42 + 1 ≤ len ↔ getNeedCount p k * 42 + 1 < u64Size := by
    constructor
    · intro h
      have hlt : len < u64Size := mod_lt _ (by unfold u64Size; omega)
      omega
    · intro h
      rw [hlen, mod_eq_of_lt h]
  simp only [hfit] at hloop
  simp only [hloop]
  by_cases hok : getNeedCount p k * k + 1 < u64Size ∧ getNeedCount p k * 42 + 1 < u64Size
  · have hlenEq : len = getNeedCount p k * 42 + 1 := mod_eq_of_lt hok.2
    have hfields : ∀ f ∈ dbNames k (getNeedCount p k), comma ∉ f ∧ f ≠ [] := by
      intro f hf
      obtain ⟨j, -, rfl⟩ := mem_map.mp hf
      exact ⟨comma_notMem_dbNameAt k j, dbNameAt_ne_nil k j⟩
    have htake : (joinFields (dbNames k (getNeedCount p k))).take (len - 2) =
        (joinFields (dbNames k (getNeedCount p k))).dropLast := by
      rw [dropLast_eq_take, joinFields_dbNames_length, hlenEq]
      congr 1
    simp only [if_pos hok]
    rw [if_neg (by omega), htake, csvParse_eq, runs_joinFields hfields]
  · simp only [if_neg hok]

theorem dbAt_holds {path : Bytes} {k m j : Nat} (hk : 1 ≤ k) (hm : m * k < u64Size) (hj : j < m)
    (s : Nat) : (dbAt path k j).Holds s ↔ j * k + 1 ≤ s ∧ s ≤ j * k + k := by
  have hle : (j + 1) * k ≤ m * k := Nat.mul_le_mul_right k hj
  rw [succ_mul] at hle
  obtain ⟨hstart, hend⟩ := dbAt_interval path hk (show j * k + k < u64Size by omega)
  rw [XmqDb.Holds, hstart, hend]

theorem intervalsPlaced_iff {k p : Nat} (hk : 1 ≤ k) (hk' : k < u64Size) (hp₁ : 1 ≤ p)
    (hp : p < XMQ_U64_MAX) :
    IntervalsPlaced k p ↔
      getNeedCount p k * k + 1 < u64Size ∧ getNeedCount p k * XMQ_DBNAME_LEN + 1 < u64Size := by
  rw [IntervalsPlaced, databaseFields_eq hk hk' hp₁ hp]
  constructor
  · rintro ⟨fields, hfields, -⟩
    by_contra hno
    rw [if_neg hno] at hfields
    exact nomatch hfields
  · intro hfits
    refine ⟨_, if_pos hfits, fun path => ?_⟩
    have hm : getNeedCount p k * k < u64Size := by omega
    have hmap : (dbNames k (getNeedCount p k)).map (mkDb path) =
        (List.range (getNeedCount p k)).map (dbAt path k) := by
      rw [dbNames, map_map]
      rfl
    rw [hmap]
    constructor
    · rw [pairwise_map]
      refine pairwise_lt_range.imp_of_mem ?_
      intro i j hi hj hij s hs
      rw [dbAt_holds hk hm (mem_range.mp hi), dbAt_holds hk hm (mem_range.mp hj)] at hs
      have hle : (i + 1) * k ≤ j * k := Nat.mul_le_mul_right k hij
      rw [succ_mul] at hle
      omega
    · intro s hs₁ hsp
      have hdiv := div_add_mod (s - 1) k
      have hmod : (s - 1) % k < k := mod_lt _ hk
      rw [Nat.mul_comm] at hdiv
      have hlt : (s - 1) / k < getNeedCount p k := (lt_getNeedCount hk _ _).mpr (by omega)
      refine ⟨dbAt path k ((s - 1) / k), mem_map_of_mem (mem_range.mpr hlt), ?_⟩
      rw [dbAt_holds hk hm hlt]
      omega

--
-- Initialisation
--

variable {ctx' : XmqCtx}

section Init

variable {W : Type} {ops : XmqOps W}

theorem csvToListDatabases_ok {ctx : XmqCtx} {fields : List Bytes} {w w' : W}
    (h : csvToListDatabases ops ctx fields w = .ok (some (ctx', w'))) :
    ctx' = { ctx with listDatabases := ctx.listDatabases ++ fields.map (mkDb ctx.kvDbPath) } := by
  induction fields generalizing ctx w with
  | nil =>
    obtain ⟨rfl, -⟩ : ctx = ctx' ∧ w = w' := by simpa [csvToListDatabases] using h
    simp
  | cons f fields ih =>
    rw [csvToListDatabases] at h
    split at h
    · simp at h
    · rw [loadDatabase] at h
      rcases hopen : ops.kvCtxInit (ctx.kvDbPath ++ 47 :: f) w with - | w₁
      · simp [hopen] at h
      · rw [hopen] at h
        rw [ih h]
        simp

theorem csvToListProducers_same {ctx : XmqCtx} {fields : List Bytes} {b : Bool}
    (h : csvToListProducers ctx fields = .ok (b, ctx')) : SameQueue ctx ctx' := by
  induction fields generalizing ctx with
  | nil =>
    obtain ⟨-, rfl⟩ : true = b ∧ ctx = ctx' := by simpa [csvToListProducers] using h
    exact ⟨_, _, rfl⟩
  | cons f fields ih =>
    rw [csvToListProducers] at h
    split at h
    · simp at h
    · exact SameQueue.trans ⟨_, _, rfl⟩ (ih h)

theorem csvToListConsumers_same {w : W} {ctx : XmqCtx} {fields : List Bytes} {b : Bool}
    (h : csvToListConsumers ops w ctx fields = .ok (b, ctx')) : SameQueue ctx ctx' := by
  induction fields generalizing ctx with
  | nil =>
    obtain ⟨-, rfl⟩ : true = b ∧ ctx = ctx' := by simpa [csvToListConsumers] using h
    exact ⟨_, _, rfl⟩
  | cons f fields ih =>
    rw [csvToListConsumers] at h
    split at h
    · simp at h
    · split at h
      · simp at h
      · exact SameQueue.trans ⟨_, _, rfl⟩ (ih h)
      · obtain ⟨-, rfl⟩ : false = b ∧ ctx = ctx' := by simpa using h
        exact ⟨_, _, rfl⟩

theorem loadRegistryList_same {w : W} {key : Bytes}
    {csvToList : XmqCtx → List Bytes → Except Fault (Bool × XmqCtx)} {ctx : XmqCtx} {r : Int}
    (hlist : ∀ fields b ctx', csvToList ctx fields = .ok (b, ctx') → SameQueue ctx ctx')
    (h : loadRegistryList ops key csvToList ctx w = .ok (r, ctx')) : SameQueue ctx ctx' := by
  rw [loadRegistryList] at h
  have hself : SameQueue ctx ctx := ⟨_, _, rfl⟩
  split at h
  · obtain ⟨-, rfl⟩ : -1 = r ∧ ctx = ctx' := by simpa using h
    exact hself
  · obtain ⟨-, rfl⟩ : 0 = r ∧ ctx = ctx' := by simpa using h
    exact hself
  · split at h
    · simp at h
    · split at h
      · obtain ⟨-, rfl⟩ : -1 = r ∧ ctx = ctx' := by simpa using h
        exact hself
      · split at h
        · simp at h
        · next hlist' =>
          obtain ⟨-, rfl⟩ := Prod.mk.inj (Except.ok.inj h)
          exact hlist _ _ _ hlist'
        · next hlist' =>
          obtain ⟨-, rfl⟩ := Prod.mk.inj (Except.ok.inj h)
          exact hlist _ _ _ hlist'

theorem loadRegistry_same {ctx : XmqCtx} {w : W} (h : loadRegistry ops ctx w = .ok (some ctx')) :
    SameQueue ctx ctx' := by
  rw [loadRegistry] at h
  split at h
  · simp at h
  · next hproducers =>
    have hsame := loadRegistryList_same (fun _ _ _ => csvToListProducers_same) hproducers
    split at h
    · simp at h
    · split at h
      · simp at h
      · next hconsumers =>
        have hsame' := loadRegistryList_same (fun _ _ _ => csvToListConsumers_same) hconsumers
        split at h
        · simp at h
        · obtain rfl := Option.some.inj (Except.ok.inj h)
          exact hsame.trans hsame'

theorem loadAllResouces_ok {ctx : XmqCtx} {w w' : W}
    (h : loadAllResouces ops ctx w = .ok (some (ctx', w'))) :
    ∃ writePos w₁ databases ctx₁ w₂ db,
      loadDatabaseList ops ctx (fmtU64 writePos) w₁ = .ok (databases, ctx₁, w₂) ∧
      0 < databases ∧ getDbHandler ctx₁ writePos = some db ∧
      SameQueue { ctx₁ with lastWriteDbSeq := writePos, lastWriteDb := some db } ctx' := by
  rw [loadAllResouces] at h
  split at h
  · simp at h
  · split at h
    · simp at h
    · simp at h
    · next writePos w₁ hpos =>
      split at h
      · simp at h
      · next databases ctx₁ w₂ hlist =>
        split at h
        · next hsome =>
          split at h
          · simp at h
          · next db hdb =>
            dsimp only at h
            split at h
            · simp at h
            · simp at h
            · next ctx₂ hregistry =>
              obtain ⟨rfl, rfl⟩ := Prod.mk.inj (Option.some.inj (Except.ok.inj h))
              exact ⟨writePos, w₁, databases, ctx₁, w₂, db, hlist, hsome, hdb,
                loadRegistry_same hregistry⟩
        · simp at h

/-- The context lists the first `j + 1` databases and writes to the last one;
the next number belongs to it, or is the one behind it. -/
structure PlaceInv (path : Bytes) (k j : Nat) (ctx : XmqCtx) : Prop where
  path_eq : ctx.kvDbPath = path
  max_eq : ctx.kvMaxRecords = k
  seq_lt : ctx.lastWriteDbSeq < u64Size
  low : j * k < ctx.lastWriteDbSeq
  high : ctx.lastWriteDbSeq ≤ j * k + k + 1
  room : j * k + k < u64Size
  databases : ctx.listDatabases = (List.range (j + 1)).map (dbAt path k)
  last : ctx.lastWriteDb = some (dbAt path k j)

theorem PlaceInv.same {path : Bytes} {k j : Nat} {ctx : XmqCtx} (h : PlaceInv path k j ctx)
    (hsame : SameQueue ctx ctx') : PlaceInv path k j ctx' := by
  obtain ⟨_, _, rfl⟩ := hsame
  exact ⟨h.path_eq, h.max_eq, h.seq_lt, h.low, h.high, h.room, h.databases, h.last⟩

/-- **Initialisation.** It starts with the database of the write position. -/
theorem xmqContextInit_place {path : Bytes} {k p : Nat} (hk : 1 ≤ k) (hk' : k < u64Size)
    (hp₁ : 1 ≤ p) (hp : p < XMQ_U64_MAX) (hcount : getNeedCount p k * k + 1 < u64Size)
    {w : W} {st : XmqCtx × W} (hinit : xmqContextInit ops path k w = .ok (some st))
    (hseq : st.1.lastWriteDbSeq = p) :
    0 < toInt32 (getNeedCount p k) ∧ ∃ j, PlaceInv (path.take 255) k j st.1 := by
  rw [xmqContextInit, if_pos (show k > 0 by omega)] at hinit
  obtain ⟨ctx', w'⟩ := st
  obtain ⟨writePos, w₁, databases, ctx₁, w₂, db, hlist, hsome, hdb, hsame⟩ :=
    loadAllResouces_ok hinit
  have hpos : writePos = p := by
    obtain ⟨_, _, hctx⟩ := hsame
    rw [← hseq, hctx]
  subst hpos
  have hkey : strtoull (fmtU64 writePos) = writePos := by
    apply strtoull_fmtU64
    unfold XMQ_U64_MAX at hp
    omega
  rw [loadDatabaseList_fields, hkey, databaseFields_eq hk hk' hp₁ hp] at hlist
  by_cases hbuf : getNeedCount writePos k * XMQ_DBNAME_LEN + 1 < u64Size
  · rw [if_pos ⟨hcount, hbuf⟩] at hlist
    have hlength : (dbNames k (getNeedCount writePos k)).length = getNeedCount writePos k := by
      simp [dbNames]
    have hmap : ∀ path, (dbNames k (getNeedCount writePos k)).map (mkDb path) =
        (List.range (getNeedCount writePos k)).map (dbAt path k) := by
      intro path
      rw [dbNames, map_map]
      rfl
    dsimp only at hlist
    rw [hlength] at hlist
    split at hlist
    · obtain ⟨rfl, -⟩ := Prod.mk.inj (Except.ok.inj hlist)
      omega
    · split at hlist
      · simp at hlist
      · obtain ⟨rfl, -⟩ := Prod.mk.inj (Except.ok.inj hlist)
        omega
      · next ctx₂ w₃ hopened =>
        obtain ⟨rfl, hrest⟩ := Prod.mk.inj (Except.ok.inj hlist)
        obtain ⟨rfl, -⟩ := Prod.mk.inj hrest
        have hctx := csvToListDatabases_ok hopened
        rw [hmap, nil_append] at hctx
        refine ⟨hsome, getNeedCount writePos k - 1, ?_⟩
        have hone : 0 < getNeedCount writePos k := (lt_getNeedCount hk writePos 0).mpr (by omega)
        obtain ⟨n, hn⟩ : ∃ n, writePos = n + 1 := ⟨writePos - 1, by omega⟩
        obtain ⟨-, hlow, hhigh⟩ := getNeedCount_bounds (n := n) hk
        rw [← hn] at hlow hhigh
        obtain ⟨j, hj⟩ : ∃ j, getNeedCount writePos k = j + 1 :=
          ⟨getNeedCount writePos k - 1, by omega⟩
        rw [hj, Nat.add_sub_cancel] at hlow ⊢
        rw [hj, succ_mul] at hhigh hcount
        have hmk : (j + 1) * k < u64Size := by
          rw [succ_mul]
          omega
        have hdbs : ctx₂.listDatabases = (List.range (j + 1)).map (dbAt (path.take 255) k) := by
          rw [hctx, hj]
        have hlast : db = dbAt (path.take 255) k j := by
          have hidx : (writePos - 1) / k = j := by
            apply Nat.div_eq_of_lt_le
            · omega
            · rw [succ_mul]
              omega
          rw [getDbHandler_eq hk hmk hdbs, if_pos (by rw [succ_mul]; omega), hidx] at hdb
          exact (Option.some.inj hdb).symm
        refine PlaceInv.same ?_ hsame
        refine ⟨?_, ?_, by dsimp only; omega, by dsimp only; omega, by dsimp only; omega, by omega,
          hdbs, congrArg some hlast⟩
        · rw [hctx]
        · rw [hctx]
  · rw [if_neg fun h => hbuf h.2] at hlist
    simp at hlist

end Init

--
-- Calls
--

section Calls

variable {W : Type} {ops : XmqOps W} {path : Bytes} {k j : Nat} {ctx : XmqCtx}

/-- **Opening.** The database the next number belongs to is the last one, or a
new one; where that one wraps there is none to write to. -/
theorem PlaceInv.open (hk : 2 ≤ k) (hinv : PlaceInv path k j ctx) {w w' : W}
    (h : openStep ops ctx w = some (ctx', w')) :
    ctx'.lastWriteDb = none ∨
      ∃ j', PlaceInv path k j' ctx' ∧ ctx'.lastWriteDbSeq = ctx.lastWriteDbSeq ∧
        ctx'.gStateCtx = ctx.gStateCtx ∧ ctx.lastWriteDbSeq ≤ j' * k + k := by
  have hmul : (j + 1) * k = j * k + k := succ_mul ..
  have hlow := hinv.low
  have hhigh := hinv.high
  have hroom := hinv.room
  rw [openStep, hinv.max_eq] at h
  by_cases hfull : ctx.lastWriteDbSeq = (j + 1) * k + 1
  · -- the last database is full
    have hdue : ctx.lastWriteDbSeq % k = 1 := by
      rw [hfull, succ_mod_eq_one hk]
      exact mul_mod_left _ _
    have hnone : getDbHandler ctx ctx.lastWriteDbSeq = none := by
      rw [getDbHandler_eq (by omega) (by omega) hinv.databases, if_neg (by omega)]
    have hname : getKVDbname ctx.lastWriteDbSeq (ctx.kvMaxRecords - 1) = dbNameAt k (j + 1) := by
      rw [dbNameAt, hinv.max_eq, hfull]
    rw [if_pos hdue, openDatabase, hnone] at h
    rw [loadDatabase, hname] at h
    rcases hopen : ops.kvCtxInit (ctx.kvDbPath ++ 47 :: dbNameAt k (j + 1)) w with - | w₁
    · rw [hopen] at h
      cases h
    · rw [hopen] at h
      obtain ⟨rfl, -⟩ := Prod.mk.inj (Option.some.inj h)
      have hdbs : (withNext path k (j + 1) ctx).listDatabases =
          (List.range (j + 1 + 1)).map (dbAt path k) := by
        rw [range_succ, map_append, ← hinv.databases]
        rfl
      have hmk : mkDb ctx.kvDbPath (dbNameAt k (j + 1)) = dbAt path k (j + 1) := by
        rw [hinv.path_eq]
        rfl
      rw [hmk]
      by_cases hwrap : u64Size ≤ (j + 1) * k + k
      · left
        show getDbHandler (withNext path k (j + 1) ctx) ctx.lastWriteDbSeq = none
        rw [getDbHandler, hdbs, hfull]
        exact find_wrapped (by omega) (by omega) (by omega) hwrap
      · right
        have hmul' : (j + 1 + 1) * k = (j + 1) * k + k := succ_mul ..
        have hget : getDbHandler (withNext path k (j + 1) ctx) ctx.lastWriteDbSeq =
            some (dbAt path k (j + 1)) := by
          rw [getDbHandler_eq (by omega) (by omega) hdbs, if_pos (by omega), hfull,
            Nat.add_sub_cancel, Nat.mul_div_cancel _ (by omega)]
        refine ⟨j + 1, ⟨hinv.path_eq, hinv.max_eq, hinv.seq_lt, ?_, ?_, by omega, hdbs, hget⟩,
          rfl, rfl, by omega⟩
        · show (j + 1) * k < ctx.lastWriteDbSeq
          omega
        · show ctx.lastWriteDbSeq ≤ (j + 1) * k + k + 1
          omega
  · have hsome : getDbHandler ctx ctx.lastWriteDbSeq =
        some (dbAt path k ((ctx.lastWriteDbSeq - 1) / k)) := by
      rw [getDbHandler_eq (by omega) (by omega) hinv.databases, if_pos (by omega)]
    have hsame : ctx = ctx' := by
      split at h
      · rw [openDatabase, hsome] at h
        exact (Prod.mk.inj (Option.some.inj h)).1
      · exact (Prod.mk.inj (Option.some.inj h)).1
    subst hsame
    exact .inr ⟨j, hinv, rfl, rfl, by omega⟩

theorem PlaceInv.push (hk : 2 ≤ k) (hinv : PlaceInv path k j ctx) {msg : XmqMsg} {ok : Bool}
    {w w' : W} (h : xmqPushTail ops ctx msg w = .ok (ok, ctx', w')) :
    ∃ j', PlaceInv path k j' ctx' := by
  rw [xmqPushTail_eq] at h
  split at h
  · obtain ⟨-, hrest⟩ := Prod.mk.inj (Except.ok.inj h)
    obtain ⟨rfl, -⟩ := Prod.mk.inj hrest
    exact ⟨j, hinv⟩
  · next hmax =>
    rcases hopen : openStep ops ctx w with - | ⟨ctx₁, w₁⟩
    · rw [hopen] at h
      obtain ⟨-, hrest⟩ := Prod.mk.inj (Except.ok.inj h)
      obtain ⟨rfl, -⟩ := Prod.mk.inj hrest
      exact ⟨j, hinv⟩
    · rw [hopen] at h
      dsimp only at h
      rw [writeStep] at h
      rcases hinv.open hk hopen with hnone | ⟨j', hinv', hseq, -, hle⟩
      · rw [hnone] at h
        cases h
      · rw [hinv'.last] at h
        dsimp only at h
        split at h
        · obtain ⟨-, hrest⟩ := Prod.mk.inj (Except.ok.inj h)
          obtain ⟨rfl, -⟩ := Prod.mk.inj hrest
          exact ⟨j', hinv'⟩
        · split at h
          · obtain ⟨-, hrest⟩ := Prod.mk.inj (Except.ok.inj h)
            obtain ⟨rfl, -⟩ := Prod.mk.inj hrest
            exact ⟨j', hinv'⟩
          · obtain ⟨-, hrest⟩ := Prod.mk.inj (Except.ok.inj h)
            obtain ⟨rfl, -⟩ := Prod.mk.inj hrest
            have hlow := hinv'.low
            have hlt := hinv'.seq_lt
            have hlast : XMQ_U64_MAX + 1 = u64Size := by decide
            have hnext : (ctx.lastWriteDbSeq + 1) % u64Size = ctx.lastWriteDbSeq + 1 :=
              mod_eq_of_lt (by omega)
            rw [hnext]
            rw [hseq] at hlow hlt
            refine ⟨j', hinv'.path_eq, hinv'.max_eq, ?_, ?_, ?_, hinv'.room, hinv'.databases, rfl⟩
            · dsimp only
              omega
            · dsimp only
              omega
            · dsimp only
              omega

theorem regStep_same {st st' : XmqCtx × W} {call : RegCall} (h : regStep ops st call = .ok st') :
    SameQueue st.1 st'.1 := by
  have hself : ∀ c : XmqCtx, SameQueue c c := fun _ => ⟨_, _, rfl⟩
  cases call with
  | registerProducer pid =>
    obtain rfl := Except.ok.inj h
    rw [xmqRegisterProducer]
    split
    · exact hself _
    · dsimp only
      split
      · exact hself _
      · exact ⟨_, _, rfl⟩
  | registerConsumer cid =>
    obtain rfl := Except.ok.inj h
    rw [xmqRegisterConsumer]
    split
    · exact hself _
    · dsimp only
      split
      · exact hself _
      · split
        · exact hself _
        · exact ⟨_, _, rfl⟩
  | unregisterProducer pid =>
    obtain ⟨r, hr, rfl⟩ := Lib.map_eq_ok h
    rw [xmqUnregisterProducer] at hr
    split at hr
    · obtain rfl := Except.ok.inj hr
      exact hself _
    · dsimp only at hr
      split at hr
      · exact nomatch hr
      · obtain rfl := Except.ok.inj hr
        exact ⟨_, _, rfl⟩
  | unregisterConsumer cid =>
    obtain ⟨r, hr, rfl⟩ := Lib.map_eq_ok h
    rw [xmqUnregisterConsumer] at hr
    split at hr
    · obtain rfl := Except.ok.inj hr
      exact hself _
    · dsimp only at hr
      split at hr
      · exact nomatch hr
      · obtain rfl := Except.ok.inj hr
        exact ⟨_, _, rfl⟩
  | updateThat cid seq =>
    obtain ⟨r, hr, rfl⟩ := Lib.map_eq_ok h
    rw [xmqUpdateThat] at hr
    split at hr
    · exact nomatch hr
    · split at hr
      · obtain rfl := Except.ok.inj hr
        exact hself _
      · obtain rfl := Except.ok.inj hr
        exact ⟨_, _, rfl⟩

/-- **A call.** Whatever it returns, the databases and the last one stay in step. -/
theorem PlaceInv.call (hk : 2 ≤ k) {st st' : XmqCtx × W} (hinv : ∃ j, PlaceInv path k j st.1)
    {call : XmqCall} (h : callStep ops st call = .ok st') : ∃ j, PlaceInv path k j st'.1 := by
  obtain ⟨j, hinv⟩ := hinv
  cases call with
  | push msg =>
    rw [callStep] at h
    rcases hpush : xmqPushTail ops st.1 msg st.2 with f | ⟨ok, ctx', w'⟩
    · rw [hpush] at h
      exact nomatch h
    · rw [hpush] at h
      obtain rfl := Except.ok.inj h
      exact hinv.push hk hpush
  | registry call => exact ⟨j, hinv.same (regStep_same h)⟩

theorem openStep_recorded {w : W} {puts : List KvPut} {w' : W × List KvPut}
    (h : openStep (recorded ops) ctx (w, puts) = some (ctx', w')) : w'.2 = puts := by
  rw [openStep] at h
  split at h
  · rw [openDatabase] at h
    split at h
    · obtain ⟨-, rfl⟩ := Prod.mk.inj (Option.some.inj h)
      rfl
    · split at h
      · cases h
      · next hload =>
        obtain ⟨-, rfl⟩ := Prod.mk.inj (Option.some.inj h)
        rw [loadDatabase] at hload
        split at hload
        · cases hload
        · next hinit =>
          obtain ⟨-, rfl⟩ := Prod.mk.inj (Option.some.inj hload)
          obtain ⟨_, -, rfl⟩ := Option.map_eq_some_iff.mp hinit
          rfl
  · obtain ⟨-, rfl⟩ := Prod.mk.inj (Option.some.inj h)
    rfl

/-- **The record of a push.** It goes to the last database, which holds its
number. -/
theorem PlaceInv.placed (hk : 2 ≤ k) (hinv : PlaceInv path k j ctx) (msg : XmqMsg) (w : W) :
    PushPlaced ops ctx msg w := by
  intro ok ctx' w' puts h put hput
  rw [xmqPushTail_eq] at h
  split at h
  · obtain ⟨-, hrest⟩ := Prod.mk.inj (Except.ok.inj h)
    obtain ⟨-, hrest⟩ := Prod.mk.inj hrest
    obtain ⟨-, rfl⟩ := Prod.mk.inj hrest
    cases hput
  · rcases hopen : openStep (recorded ops) ctx (w, []) with - | ⟨ctx₁, w₁⟩
    · rw [hopen] at h
      obtain ⟨-, hrest⟩ := Prod.mk.inj (Except.ok.inj h)
      obtain ⟨-, hrest⟩ := Prod.mk.inj hrest
      obtain ⟨-, rfl⟩ := Prod.mk.inj hrest
      cases hput
    · have hempty := openStep_recorded hopen
      rw [hopen] at h
      dsimp only at h
      rw [writeStep] at h
      rcases hinv.open hk hopen with hnone | ⟨j', hinv', hseq, hstate, hle⟩
      · rw [hnone] at h
        cases h
      · have hlow := hinv'.low
        rw [hseq] at hlow
        have hholds : (dbAt path k j').Holds ctx.lastWriteDbSeq := by
          rw [dbAt_holds (m := j' + 1) (by omega)
            (by rw [succ_mul]; exact hinv'.room) (by omega)]
          omega
        have hmem : dbAt path k j' ∈ ctx₁.listDatabases := by
          rw [hinv'.databases]
          exact mem_map_of_mem (mem_range.mpr (by omega))
        have hmsg : ∀ value, put = ⟨(dbAt path k j').dbHandler,
            seqKey ctx.lastWriteDbSeq ++ [0], value⟩ →
            put.key = seqKey ctx.lastWriteDbSeq ++ [0] ∧ ∃ db ∈ ctx₁.listDatabases,
              db.dbHandler = put.kvCtx ∧ db.Holds ctx.lastWriteDbSeq := by
          rintro value rfl
          exact ⟨rfl, _, hmem, rfl, hholds⟩
        rw [hinv'.last] at h
        simp only [writeStringBin, if_neg (msg_bytes_length_ne msg), recorded, hempty,
          nil_append, writeUint64, le64_length] at h
        split at h
        · next heq =>
          obtain ⟨-, heq⟩ := Prod.mk.inj heq
          obtain ⟨-, hrest⟩ := Prod.mk.inj (Except.ok.inj h)
          obtain ⟨rfl, rfl⟩ := Prod.mk.inj hrest
          obtain ⟨-, rfl⟩ := Prod.mk.inj heq
          exact .inr (hmsg _ (mem_singleton.mp hput))
        · next heq =>
          obtain ⟨-, rfl⟩ := Prod.mk.inj heq
          split at h
          · next heq =>
            obtain ⟨-, heq⟩ := Prod.mk.inj heq
            obtain ⟨-, hrest⟩ := Prod.mk.inj (Except.ok.inj h)
            obtain ⟨rfl, rfl⟩ := Prod.mk.inj hrest
            obtain ⟨-, rfl⟩ := Prod.mk.inj heq
            rcases mem_append.mp hput with hput | hput
            · exact .inr (hmsg _ (mem_singleton.mp hput))
            · obtain rfl := mem_singleton.mp hput
              exact .inl ⟨hstate, rfl⟩
          · next heq =>
            obtain ⟨-, heq⟩ := Prod.mk.inj heq
            obtain ⟨-, hrest⟩ := Prod.mk.inj (Except.ok.inj h)
            obtain ⟨rfl, rfl⟩ := Prod.mk.inj hrest
            obtain ⟨-, rfl⟩ := Prod.mk.inj heq
            rcases mem_append.mp hput with hput | hput
            · exact .inr (hmsg _ (mem_singleton.mp hput))
            · obtain rfl := mem_singleton.mp hput
              exact .inl ⟨hstate, rfl⟩

end Calls

--
-- Capacity 1
--

section CapacityOne

variable {W : Type} {ops : XmqOps W} {view : W → Bytes → Bytes → Option Bytes}

theorem recorded_lawful (hkv : LawfulKv ops view) :
    LawfulKv (recorded ops) (fun w => view w.1) where
  init dbName w := by
    obtain ⟨w', hinit, hview⟩ := hkv.init dbName w.1
    exact ⟨(w', w.2), by simp [recorded, hinit], hview⟩
  put kvCtx key value w := by
    obtain ⟨w', hput, hview⟩ := hkv.put kvCtx key value w.1
    exact ⟨(w', w.2 ++ [⟨kvCtx, key, value⟩]), by simp [recorded, hput], hview⟩
  get kvCtx key w := hkv.get kvCtx key w.1

theorem xmqPushTail_one (hkv : LawfulKv ops view) {ctx : XmqCtx} {db : XmqDb}
    (hmax : ctx.kvMaxRecords = 1) (hlast : ctx.lastWriteDb = some db)
    (hseq : ctx.lastWriteDbSeq ≠ XMQ_U64_MAX) (msg : XmqMsg) (w : W) :
    ∃ w₁ w₂, ops.kvPut db.dbHandler (seqKey ctx.lastWriteDbSeq ++ [0]) msg.bytes w = (true, w₁) ∧
      ops.kvPut ctx.gStateCtx (XMQ_DATABASE_WRITEPOS ++ [0])
        (le64 ((ctx.lastWriteDbSeq + 1) % u64Size)) w₁ = (true, w₂) ∧
      xmqPushTail ops ctx msg w =
        .ok (true, { ctx with lastWriteDbSeq := (ctx.lastWriteDbSeq + 1) % u64Size }, w₂) := by
  obtain ⟨w₁, hput₁, -⟩ := hkv.put db.dbHandler (seqKey ctx.lastWriteDbSeq ++ [0]) msg.bytes w
  obtain ⟨w₂, hput₂, -⟩ := hkv.put ctx.gStateCtx (XMQ_DATABASE_WRITEPOS ++ [0])
    (le64 ((ctx.lastWriteDbSeq + 1) % u64Size)) w₁
  have hnot : ¬(ctx.lastWriteDbSeq % ctx.kvMaxRecords = 1) := by
    rw [hmax, mod_one]
    omega
  refine ⟨w₁, w₂, hput₁, hput₂, ?_⟩
  rw [xmqPushTail_eq, if_neg hseq, openStep, if_neg hnot]
  dsimp only
  rw [writeStep, hlast]
  dsimp only
  rw [writeStringBin, if_neg (msg_bytes_length_ne msg), hput₁]
  dsimp only
  rw [writeUint64, writeStringBin, if_neg (by simp), hput₂]

/-- The medium that holds nothing but the write position `p`. -/
def positionOnly (p : Nat) : KvMaps :=
  fun kvCtx key => if kvCtx = kvstate ∧ key = XMQ_DATABASE_WRITEPOS ++ [0] then some (le64 p)
    else none

theorem positionOnly_registry (p : Nat) : RegistryOk (fun w : KvMaps => w) (positionOnly p) := by
  have hnone : ∀ key, key ≠ XMQ_DATABASE_WRITEPOS ++ [0] → positionOnly p kvstate key = none :=
    fun key hkey => if_neg fun h => hkey h.2
  refine ⟨?_, ?_, ?_⟩
  · intro value hvalue
    rw [hnone _ writepos_ne_producers.symm] at hvalue
    exact nomatch hvalue
  · intro value hvalue
    rw [hnone _ writepos_ne_consumers.symm] at hvalue
    exact nomatch hvalue
  · intro cid value hvalue
    rw [hnone _ (fetchKey_ne_writepos cid)] at hvalue
    exact nomatch hvalue

/-- **Capacity 1.** The second message behind the write position goes to the
database of the first. -/
theorem not_messagesPlaced_one {p : Nat} (hp₁ : 1 ≤ p) (hbuf : p * XMQ_DBNAME_LEN + 1 < u64Size)
    (hint : 0 < toInt32 p) : ¬MessagesPlaced 1 p := by
  intro hplaced
  have hsize : XMQ_DBNAME_LEN = 42 := rfl
  rw [hsize] at hbuf
  obtain ⟨n, rfl⟩ : ∃ n, p = n + 1 := ⟨p - 1, by omega⟩
  have hcount : getNeedCount (n + 1) 1 = n + 1 := by
    simp [getNeedCount, mod_one]
  have hfits : RestartFits 1 n := by
    rw [RestartFits, hcount, hsize]
    exact ⟨hint, hbuf⟩
  have hwp : loadWritePos mapOps (positionOnly (n + 1)) =
      .ok (some (n + 1, positionOnly (n + 1))) := by
    have hstored : positionOnly (n + 1) kvstate (XMQ_DATABASE_WRITEPOS ++ [0]) =
        some (le64 (n + 1)) := if_pos ⟨rfl, rfl⟩
    rw [loadWritePos, loadUint64, loadStringBin_eq mapOps_lawful, hstored]
    dsimp only
    rw [if_pos (le64_length _), leVal_le64 (by omega)]
  obtain ⟨w₃, hv₃, hload⟩ := loadAll_registry mapOps_lawful (le_refl 1) (by omega)
    (show mapOps.kvCtxInit kvstate (positionOnly (n + 1)) = some (positionOnly (n + 1)) from rfl)
    hwp (Eq.refl { reloaded [] 1 0 with
      listDatabases := [], lastWriteDb := none, lastWriteDbSeq := 0 })
  rw [if_pos hfits] at hload
  have hregistry : RegistryOk (fun w : KvMaps => w) w₃ := by
    rw [show w₃ = positionOnly (n + 1) from hv₃]
    exact positionOnly_registry (n + 1)
  obtain ⟨ctx, hctx, ps, cs, rfl⟩ := loadRegistry_ok mapOps_lawful hregistry
    (show (reloaded [] 1 n).gStateCtx = kvstate from rfl)
  rw [hctx] at hload
  set ctx : XmqCtx := { reloaded [] 1 n with listProducers := ps, listConsumers := cs } with hset
  have hinit : xmqContextInit mapOps [] 1 (positionOnly (n + 1)) = .ok (some (ctx, w₃)) := by
    rw [xmqContextInit, if_pos (by omega)]
    exact hload
  have hlastMax : XMQ_U64_MAX + 1 = u64Size := by decide
  have hlast : ctx.lastWriteDb = some (dbAt [] 1 n) := by
    show some (dbAt [] 1 (n / 1)) = some (dbAt [] 1 n)
    rw [Nat.div_one]
  have hnext : (n + 1 + 1) % u64Size = n + 1 + 1 := mod_eq_of_lt (by omega)
  -- the first push leaves the last database as it is
  obtain ⟨w₄, w₅, -, -, hpush⟩ := xmqPushTail_one mapOps_lawful (show ctx.kvMaxRecords = 1 from rfl)
    hlast (show n + 1 ≠ XMQ_U64_MAX by omega) emptyMsg w₃
  set ctx₂ : XmqCtx := { ctx with lastWriteDbSeq := (n + 1 + 1) % u64Size } with hset₂
  have hrun : Lib.run (callStep mapOps) (ctx, w₃) [.push emptyMsg] = .ok (ctx₂, w₅) := by
    have hcall : callStep mapOps (ctx, w₃) (.push emptyMsg) = .ok (ctx₂, w₅) := by
      rw [callStep, hpush]
      rfl
    rw [Lib.run_cons hcall]
    rfl
  -- the second one writes to it
  obtain ⟨w₆, w₇, hput, hpos, hpush₂⟩ := xmqPushTail_one (recorded_lawful mapOps_lawful)
    (show ctx₂.kvMaxRecords = 1 from rfl) (show ctx₂.lastWriteDb = _ from hlast)
    (show (n + 1 + 1) % u64Size ≠ XMQ_U64_MAX by omega) emptyMsg (w₅, [])
  have hlog : ⟨(dbAt [] 1 n).dbHandler, seqKey ctx₂.lastWriteDbSeq ++ [0], emptyMsg.bytes⟩ ∈
      w₇.2 := by
    obtain ⟨-, rfl⟩ := Prod.mk.inj hput
    obtain ⟨-, rfl⟩ := Prod.mk.inj hpos
    simp
  rcases hplaced KvMaps mapOps [] _ (ctx, w₃) (ctx₂, w₅) _ emptyMsg hinit rfl hrun
    _ _ w₇.1 w₇.2 hpush₂ _ hlog with ⟨hstate, -⟩ | ⟨-, db, hdb, -, hholds⟩
  · exact dbHandler_ne_kvstate [] 1 n hstate
  · have hdbs : db ∈ (List.range (getNeedCount (n + 1) 1)).map (dbAt [] 1) := hdb
    rw [hcount] at hdbs
    obtain ⟨j, hj, rfl⟩ := mem_map.mp hdbs
    rw [mem_range] at hj
    have hseq : ctx₂.lastWriteDbSeq = n + 1 + 1 := hnext
    rw [hseq, dbAt_holds le_rfl (show (n + 1) * 1 < u64Size by omega) hj] at hholds
    omega

end CapacityOne

--
-- Placement
--

/-- **Placement.** From the write position `p` on, the database intervals are
disjoint and cover `1 … p`, and every message goes to the database whose
interval holds its number, if and only if neither the counter nor the buffer
of the loop wraps and the capacity is not 1, or the number of databases is no
positive `int`. -/
theorem placement_iff (k p : Nat) (hk : 1 ≤ k) (hk' : k < u64Size) (hp₁ : 1 ≤ p)
    (hp : p < XMQ_U64_MAX) : Placement k p ↔ PlacementFits k p := by
  constructor
  · rintro ⟨hintervals, hmessages⟩
    obtain ⟨hcount, hbuf⟩ := (intervalsPlaced_iff hk hk' hp₁ hp).mp hintervals
    refine ⟨hcount, hbuf, ?_⟩
    by_cases hone : k = 1
    · subst hone
      right
      by_contra hint
      have hneed : getNeedCount p 1 = p := by simp [getNeedCount, mod_one]
      rw [hneed] at hbuf hint
      exact not_messagesPlaced_one hp₁ hbuf (by omega) hmessages
    · exact .inl (by omega)
  · rintro ⟨hcount, hbuf, hcap⟩
    refine ⟨(intervalsPlaced_iff hk hk' hp₁ hp).mpr ⟨hcount, hbuf⟩, ?_⟩
    intro W ops path w₀ st st' calls msg hinit hseq hrun
    obtain ⟨hint, hinv⟩ := xmqContextInit_place hk hk' hp₁ hp hcount hinit hseq
    have hk2 : 2 ≤ k := hcap.resolve_right (by omega)
    obtain ⟨j, hplace⟩ := Lib.run_inv (I := fun st => ∃ j, PlaceInv (path.take 255) k j st.1)
      (fun _ _ _ hinv hcall => PlaceInv.call hk2 hinv hcall) hinv hrun
    exact hplace.placed hk2 msg st'.2

/-- The capacity of the tests, with a write position in the third database. -/
theorem placement_thirdDatabase : Placement 500000 1000001 :=
  (placement_iff 500000 1000001 (by decide) (by decide) (by decide) (by decide)).mpr (by decide)

/-- With capacity 1 the message 2 goes to the database of the message 1. -/
theorem not_placement_one : ¬Placement 1 1 :=
  fun h => not_messagesPlaced_one (by decide) (by decide) (by decide) h.2

end Supex.Xmq
