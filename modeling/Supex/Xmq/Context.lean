import Supex.Lib.Decimal
import Supex.Xmq.Csv

/-!
# libxmq — the persistent queue

A faithful model of `xmq.c`: the context, the databases opened on the fly
while pushing, the interval lookup while pulling, the registry of producers
and consumers, and the reload at `xmq_context_init`.

The K/V medium is supplied by the user of the library as four callbacks
(`xmq_ops_t`); `XmqOps` keeps them as a parameter over a world `W`, and
`LawfulKv` states the contract the library relies on: every name is a map
that keeps what was written. `mapOps` is the plain in-memory instance.

Conventions:

* `uint64_t` and `size_t` are naturals; every addition the C code makes on
  them is reduced modulo `u64Size`.
* A `void *` handle of an open database is its path; `NULL`/`-1` is `none`.
* A failed `assert`, a write outside a buffer and a loop that never ends are
  `Fault`s. Allocation and `mkdir` are taken to succeed.
-/

namespace Supex.Xmq

open Function (update)

/-! ## The K/V callbacks -/

/-- `struct _xmq_ops`, over the state `W` of the K/V medium. -/
structure XmqOps (W : Type) where
  /-- `kv_ctx_init`: opens the database with the given name. -/
  kvCtxInit : (dbName : Bytes) → W → Option W
  /-- `kv_put` of one pair; `false` is the return value `-1`. -/
  kvPut : (kvCtx key value : Bytes) → W → Bool × W
  /-- `kv_get` of one key; `none` is `-1`, `some none` a `NULL` value. -/
  kvGet : (kvCtx key : Bytes) → W → Option (Option Bytes)

/-- What libxmq assumes of the medium: `view` gives each name its map, opening
and writing succeed, and what was written is read back. -/
structure LawfulKv {W : Type} (ops : XmqOps W) (view : W → Bytes → Bytes → Option Bytes) :
    Prop where
  init : ∀ dbName w, ∃ w', ops.kvCtxInit dbName w = some w' ∧ view w' = view w
  put : ∀ kvCtx key value w, ∃ w', ops.kvPut kvCtx key value w = (true, w') ∧
    view w' = update (view w) kvCtx
      (update (view w kvCtx) key (some value))
  get : ∀ kvCtx key w, ops.kvGet kvCtx key w = some (view w kvCtx key)

/-- A medium held in memory: one map per name. -/
abbrev KvMaps := Bytes → Bytes → Option Bytes

/-- The callbacks of `KvMaps`. -/
def mapOps : XmqOps KvMaps where
  kvCtxInit _ w := some w
  kvPut kvCtx key value w :=
    (true, update w kvCtx (update (w kvCtx) key (some value)))
  kvGet kvCtx key w := some (w kvCtx key)

theorem mapOps_lawful : LawfulKv mapOps (fun w => w) where
  init _ w := ⟨w, rfl, rfl⟩
  put _ _ _ _ := ⟨_, rfl, rfl⟩
  get _ _ _ := rfl

/-! ## Constants -/

def XMQ_KEY_LEN : Nat := 21
def XMQ_U64_MAX : Nat := u64Size - 1
def XMQ_DBNAME_LEN : Nat := 42
def XMQ_IDENTITY_LEN : Nat := 32

def XMQ_PRODUCERS : Bytes := ascii "XMQ_PRODUCERS"
def XMQ_CONSUMERS : Bytes := ascii "XMQ_CONSUMERS"
def XMQ_DATABASE_WRITEPOS : Bytes := ascii "XMQ_DATABASE_WRITEPOS"
/-- The name of the database of global state. -/
def kvstate : Bytes := ascii "./kvstate"

/-! ## Data -/

/-- `xmq_msg_t`: a length word and that many bytes. -/
structure XmqMsg where
  data : Bytes
  data_lt : data.length < u64Size

/-- The memory image of a message, `xmq_msg_total_size` bytes of it. -/
def XmqMsg.bytes (m : XmqMsg) : Bytes := le64 m.data.length ++ m.data

/-- `struct _xmq_db`. -/
structure XmqDb where
  dbStart : Nat
  dbEnd : Nat
  dbName : Bytes
  dbHandler : Bytes
  deriving DecidableEq

/-- `struct _xmq_producer`. -/
structure XmqProducer where
  identity : Bytes
  deriving DecidableEq

/-- `struct _xmq_consumer`. -/
structure XmqConsumer where
  identity : Bytes
  fetchKey : Bytes
  lastFetchSeq : Nat
  deriving DecidableEq

/-- `struct _xmq_ctx`, without its locks. -/
structure XmqCtx where
  kvDbPath : Bytes
  kvMaxRecords : Nat
  gStateCtx : Bytes
  listDatabases : List XmqDb
  listProducers : List XmqProducer
  listConsumers : List XmqConsumer
  lastWriteDb : Option XmqDb
  lastWriteDbSeq : Nat

/-- The `KV_LOAD_*` results. -/
inductive KvLoad (α : Type) where
  | fail
  | null
  | succ (value : α)

section Model

variable {W : Type} (ops : XmqOps W)

/-! ## Records -/

/-- `__write_string_bin`: the key is stored with its NUL. -/
def writeStringBin (kvCtx key value : Bytes) (w : W) : Bool × W :=
  if value.length = 0 then (false, w) else ops.kvPut kvCtx (key ++ [0]) value w

def writeUint64 (kvCtx key : Bytes) (value : Nat) (w : W) : Bool × W :=
  writeStringBin ops kvCtx key (le64 value) w

def writeStringString (ctx : XmqCtx) (key value : Bytes) (w : W) : Bool × W :=
  writeStringBin ops ctx.gStateCtx key (value ++ [0]) w

def loadStringBin (kvCtx key : Bytes) (w : W) : KvLoad Bytes :=
  match ops.kvGet kvCtx (key ++ [0]) w with
  | none => .fail
  | some none => .null
  | some (some value) => .succ value

/-- `__load_uint64`, with its `assert(len == sizeof(uint64_t))`. -/
def loadUint64 (kvCtx key : Bytes) (w : W) : Except Fault (KvLoad Nat) :=
  match loadStringBin ops kvCtx key w with
  | .fail => .ok .fail
  | .null => .ok .null
  | .succ value => if value.length = 8 then .ok (.succ (leVal value)) else .error .assertion

/-! ## Databases -/

/-- The key of a message record, `"%020llu"`. -/
def seqKey (seq : Nat) : Bytes := fmtPad 20 seq

/-- `__get_KV_dbname`: e.g. `[1,5000]` is start 1 with offset 4999. -/
def getKVDbname (start offset : Nat) : Bytes :=
  fmtPad 20 start ++ 45 :: fmtPad 20 ((start + offset) % u64Size)

/-- `__get_db_handler` walks the list backwards. -/
def getDbHandler (ctx : XmqCtx) (fetchpos : Nat) : Option XmqDb :=
  ctx.listDatabases.reverse.find? fun db =>
    decide (db.dbStart ≤ fetchpos) && decide (fetchpos ≤ db.dbEnd)

/-- The record `__load_database` makes of a database name. -/
def mkDb (kvDbPath name : Bytes) : XmqDb where
  dbStart := strtoull name
  dbEnd := strtoull (name.drop XMQ_KEY_LEN)
  dbName := name
  dbHandler := kvDbPath ++ 47 :: name

def loadDatabase (ctx : XmqCtx) (name : Bytes) (w : W) : Option (XmqCtx × W) :=
  match ops.kvCtxInit (ctx.kvDbPath ++ 47 :: name) w with
  | none => none
  | some w' =>
    some ({ ctx with listDatabases := ctx.listDatabases ++ [mkDb ctx.kvDbPath name] }, w')

def openDatabase (ctx : XmqCtx) (lastWritepos : Nat) (w : W) : Option (XmqCtx × W) :=
  match getDbHandler ctx lastWritepos with
  | some _ => some (ctx, w)
  | none =>
    match loadDatabase ops ctx (getKVDbname lastWritepos (ctx.kvMaxRecords - 1)) w with
    | none => none
    | some (ctx', w') => some ({ ctx' with lastWriteDb := getDbHandler ctx' lastWritepos }, w')

/-! ## Push and pull -/

/-- `xmq_push_tail`; the producer only contributes its context. `false` is the
return value `-1`. -/
def xmqPushTail (ctx : XmqCtx) (msg : XmqMsg) (w : W) : Except Fault (Bool × XmqCtx × W) :=
  let seq := ctx.lastWriteDbSeq
  if seq = XMQ_U64_MAX then .ok (false, ctx, w)
  else
    match (if seq % ctx.kvMaxRecords = 1 then openDatabase ops ctx seq w else some (ctx, w)) with
    | none => .ok (false, ctx, w)
    | some (ctx, w) =>
      match ctx.lastWriteDb with
      | none => .error .memory
      | some db =>
        match writeStringBin ops db.dbHandler (seqKey seq) msg.bytes w with
        | (false, w) => .ok (false, ctx, w)
        | (true, w) =>
          match writeUint64 ops ctx.gStateCtx XMQ_DATABASE_WRITEPOS ((seq + 1) % u64Size) w with
          | (false, w) => .ok (false, ctx, w)
          | (true, w) => .ok (true, { ctx with lastWriteDbSeq := (seq + 1) % u64Size }, w)

def xmqPullThat (ctx : XmqCtx) (seq : Nat) (w : W) : Except Fault (Option Bytes) :=
  if seq = XMQ_U64_MAX then .ok none
  else
    match getDbHandler ctx seq with
    | none => .ok none
    | some db =>
      match loadStringBin ops db.dbHandler (seqKey seq) w with
      | .fail => .error .assertion
      | .null => .ok none
      | .succ value => .ok (some value)

/-! ## The registry -/

def keyOfConsumerFetchpos (cid : Bytes) : Bytes := ascii "XMQ_" ++ cid ++ ascii "_FETCHPOS"

/-- `__string_append_3rd` with one string to append. -/
def stringAppend (prefixStr : Option Bytes) (split first : Bytes) : Bytes :=
  match prefixStr with
  | none => first
  | some p => p ++ split ++ first

/-- `__write_back_append`. The stored list is read as a C string. -/
def writeBackAppend (ctx : XmqCtx) (key append : Bytes) (w : W) : Bool × W :=
  match loadStringBin ops ctx.gStateCtx key w with
  | .fail => (false, w)
  | .null => writeStringString ops ctx key (stringAppend none [comma] append) w
  | .succ old => writeStringString ops ctx key (stringAppend (some (cstr old)) [comma] append) w

/-- `xmq_register_producer`; the new context when the call returned 0. -/
def xmqRegisterProducer (ctx : XmqCtx) (pid : Bytes) (w : W) : XmqCtx × W :=
  if ctx.listProducers.any (·.identity = pid) then (ctx, w)
  else
    let identity := pid.take (XMQ_IDENTITY_LEN - 1)
    match writeBackAppend ops ctx XMQ_PRODUCERS identity w with
    | (false, w) => (ctx, w)
    | (true, w) => ({ ctx with listProducers := ctx.listProducers ++ [⟨identity⟩] }, w)

/-- `xmq_register_consumer`: first the position, then the list. -/
def xmqRegisterConsumer (ctx : XmqCtx) (cid : Bytes) (w : W) : XmqCtx × W :=
  if ctx.listConsumers.any (·.identity = cid) then (ctx, w)
  else
    let identity := cid.take (XMQ_IDENTITY_LEN - 1)
    let consumer : XmqConsumer := ⟨identity, keyOfConsumerFetchpos identity, 1⟩
    match writeUint64 ops ctx.gStateCtx consumer.fetchKey 1 w with
    | (false, w) => (ctx, w)
    | (true, w) =>
      match writeBackAppend ops ctx XMQ_CONSUMERS identity w with
      | (false, w) => (ctx, w)
      | (true, w) => ({ ctx with listConsumers := ctx.listConsumers ++ [consumer] }, w)

/-- `strstr`: the position of the first occurrence. -/
def strstr (substr : Bytes) : Bytes → Option Nat
  | [] => if substr = [] then some 0 else none
  | c :: s => if substr.isPrefixOf (c :: s) then some 0 else (strstr substr s).map (· + 1)

/-- The loop of `__string_delete_by_substr`: `before` is the part of the string
in front of `pos`. An occurrence is taken out when it ends the string, or when
what follows it is exactly the separator. -/
def stringDeleteLoop (substr split : Bytes) : Nat → Bytes → Bytes → Except Fault Bytes
  | 0, _, _ => .error .diverge
  | fuel + 1, before, pos =>
    match strstr substr pos with
    | none => .ok (before ++ pos)
    | some i =>
      let rest := pos.drop (i + substr.length)
      if rest ≠ split ∧ rest ≠ [] then
        stringDeleteLoop substr split fuel (before ++ pos.take (i + substr.length)) rest
      else stringDeleteLoop substr split fuel (before ++ pos.take i) rest

/-- `__string_delete_by_substr`; `none` is `NULL`, in and out. -/
def stringDeleteBySubstr (src : Option Bytes) (substr split : Bytes) :
    Except Fault (Option Bytes) :=
  match src with
  | none => .ok none
  | some s =>
    match stringDeleteLoop substr split (s.length + 1) [] s with
    | .error f => .error f
    | .ok s' => .ok (some s')

/-- `__write_back_delete`. It goes on when the loaded pointer, not the result of
the load, equals `KV_LOAD_SUCC`, that is when it is `NULL`. -/
def writeBackDelete (ctx : XmqCtx) (key delete : Bytes) (w : W) : Except Fault (Bool × W) :=
  let valueOld : Option Bytes :=
    match loadStringBin ops ctx.gStateCtx key w with
    | .succ value => some (cstr value)
    | _ => none
  if valueOld ≠ none then .ok (false, w)
  else
    match stringDeleteBySubstr valueOld delete [comma] with
    | .error f => .error f
    | .ok none => .ok (false, w)
    | .ok (some value) => .ok (writeStringString ops ctx key value w)

/-- `xmq_unregister_producer`: out of the list first, then out of the store.
`false` is the return value `-1`. -/
def xmqUnregisterProducer (ctx : XmqCtx) (pid : Bytes) (w : W) :
    Except Fault (Bool × XmqCtx × W) :=
  match ctx.listProducers.find? (·.identity = pid) with
  | none => .ok (true, ctx, w)
  | some producer =>
    let ctx := { ctx with listProducers := ctx.listProducers.eraseP (·.identity = pid) }
    match writeBackDelete ops ctx XMQ_PRODUCERS producer.identity w with
    | .error f => .error f
    | .ok (ok, w) => .ok (ok, ctx, w)

def xmqUnregisterConsumer (ctx : XmqCtx) (cid : Bytes) (w : W) :
    Except Fault (Bool × XmqCtx × W) :=
  match ctx.listConsumers.find? (·.identity = cid) with
  | none => .ok (true, ctx, w)
  | some consumer =>
    let ctx := { ctx with listConsumers := ctx.listConsumers.eraseP (·.identity = cid) }
    match writeBackDelete ops ctx XMQ_CONSUMERS consumer.identity w with
    | .error f => .error f
    | .ok (ok, w) => .ok (ok, ctx, w)

/-- `xmq_update_that` on the consumer `xmq_get_consumer` finds under `cid`; there
must be one. -/
def xmqUpdateThat (ctx : XmqCtx) (cid : Bytes) (seq : Nat) (w : W) :
    Except Fault (Bool × XmqCtx × W) :=
  match ctx.listConsumers.find? (·.identity = cid) with
  | none => .error .assertion
  | some consumer =>
    match writeUint64 ops ctx.gStateCtx consumer.fetchKey seq w with
    | (false, w) => .ok (false, ctx, w)
    | (true, w) =>
      let i := ctx.listConsumers.findIdx (·.identity = cid)
      .ok (true, { ctx with
        listConsumers := ctx.listConsumers.set i { consumer with lastFetchSeq := seq } }, w)

/-! ## Loading the state -/

def getNeedCount (idx div : Nat) : Nat := idx / div + (if idx % div ≥ 1 then 1 else 0)

/-- The loop of `__load_string_list` that joins the database names into a
buffer of `len` bytes; `i` wraps like the C counter. -/
def dbnamesLoop (kvMaxRecords lastWritePos len : Nat) : Nat → Nat → Bytes → Except Fault Bytes
  | 0, _, _ => .error .diverge
  | fuel + 1, i, value =>
    if i ≤ lastWritePos then
      let value' := value ++ getKVDbname i (kvMaxRecords - 1) ++ [comma]
      if value'.length + 1 ≤ len then
        dbnamesLoop kvMaxRecords lastWritePos len fuel ((i + kvMaxRecords) % u64Size) value'
      else .error .memory
    else .ok value

/-- `__csv_to_list` for databases; `none` is the return value `-1`. -/
def csvToListDatabases (ctx : XmqCtx) : List Bytes → W → Except Fault (Option (XmqCtx × W))
  | [], w => .ok (some (ctx, w))
  | field :: fields, w =>
    if XMQ_DBNAME_LEN ≤ field.length then .error .memory
    else
      match loadDatabase ops ctx field w with
      | none => .ok none
      | some (ctx', w') => csvToListDatabases ctx' fields w'

/-- `__csv_to_list` for producers. -/
def csvToListProducers (ctx : XmqCtx) : List Bytes → Except Fault (Bool × XmqCtx)
  | [] => .ok (true, ctx)
  | field :: fields =>
    if XMQ_IDENTITY_LEN ≤ field.length then .error .memory
    else csvToListProducers { ctx with listProducers := ctx.listProducers ++ [⟨field⟩] } fields

/-- `__csv_to_list` for consumers: it gives up at the first consumer without a
stored position, keeping those before it. -/
def csvToListConsumers (w : W) (ctx : XmqCtx) : List Bytes → Except Fault (Bool × XmqCtx)
  | [] => .ok (true, ctx)
  | field :: fields =>
    if XMQ_IDENTITY_LEN ≤ field.length then .error .memory
    else
      match loadUint64 ops ctx.gStateCtx (keyOfConsumerFetchpos field) w with
      | .error f => .error f
      | .ok (.succ fetchpos) =>
        let consumer : XmqConsumer := ⟨field, keyOfConsumerFetchpos field, fetchpos⟩
        csvToListConsumers w { ctx with listConsumers := ctx.listConsumers ++ [consumer] } fields
      | .ok _ => .ok (false, ctx)

/-- `__load_string_list` with `XMQ_TYPE_DATABASE`; the first component is its
return value, the number of fields stored into an `int`. -/
def loadDatabaseList (ctx : XmqCtx) (key : Bytes) (w : W) : Except Fault (Int × XmqCtx × W) :=
  let lastWritePos := strtoull key
  let dbs := getNeedCount lastWritePos ctx.kvMaxRecords
  let len := (dbs * XMQ_DBNAME_LEN + 1) % u64Size
  match dbnamesLoop ctx.kvMaxRecords lastWritePos len (lastWritePos + 1) 1 [] with
  | .error f => .error f
  | .ok value =>
    if len < 2 then .error .memory
    else
      -- value[len - 2] = '\0'
      match csvParse (value.take (len - 2)) with
      | .error f => .error f
      | .ok fields =>
        if toInt32 fields.length = -1 then .ok (-1, ctx, w)
        else
          match csvToListDatabases ops ctx fields w with
          | .error f => .error f
          | .ok none => .ok (0, ctx, w)
          | .ok (some (ctx', w')) => .ok (toInt32 fields.length, ctx', w')

/-- `__load_string_list` for producers and consumers, with their `__csv_to_list`. -/
def loadRegistryList (key : Bytes) (csvToList : XmqCtx → List Bytes → Except Fault (Bool × XmqCtx))
    (ctx : XmqCtx) (w : W) : Except Fault (Int × XmqCtx) :=
  match loadStringBin ops ctx.gStateCtx key w with
  | .fail => .ok (-1, ctx)
  | .null => .ok (0, ctx)
  | .succ value =>
    match csvParse (cstr value) with
    | .error f => .error f
    | .ok fields =>
      if toInt32 fields.length = -1 then .ok (-1, ctx)
      else
        match csvToList ctx fields with
        | .error f => .error f
        | .ok (false, ctx) => .ok (0, ctx)
        | .ok (true, ctx) => .ok (toInt32 fields.length, ctx)

/-- The stored write position, created as 1 the first time. -/
def loadWritePos (w : W) : Except Fault (Option (Nat × W)) :=
  match loadUint64 ops kvstate XMQ_DATABASE_WRITEPOS w with
  | .error f => .error f
  | .ok .fail => .ok none
  | .ok .null =>
    match writeUint64 ops kvstate XMQ_DATABASE_WRITEPOS 1 w with
    | (false, _) => .ok none
    | (true, w') => .ok (some (1, w'))
  | .ok (.succ writePos) => .ok (some (writePos, w))

/-- The second half of `__load_all_resouces`: producers, then consumers. -/
def loadRegistry (ctx : XmqCtx) (w : W) : Except Fault (Option XmqCtx) :=
  match loadRegistryList ops XMQ_PRODUCERS csvToListProducers ctx w with
  | .error f => .error f
  | .ok (producers, ctx) =>
    if producers < 0 then .ok none
    else
      match loadRegistryList ops XMQ_CONSUMERS (csvToListConsumers ops w) ctx w with
      | .error f => .error f
      | .ok (consumers, ctx) => if consumers < 0 then .ok none else .ok (some ctx)

/-- `__load_all_resouces`; `none` is the return value `-1`. -/
def loadAllResouces (ctx : XmqCtx) (w : W) : Except Fault (Option (XmqCtx × W)) :=
  match ops.kvCtxInit kvstate w with
  | none => .ok none
  | some w =>
    match loadWritePos ops w with
    | .error f => .error f
    | .ok none => .ok none
    | .ok (some (writePos, w)) =>
      match loadDatabaseList ops ctx (fmtU64 writePos) w with
      | .error f => .error f
      | .ok (databases, ctx, w) =>
        if databases > 0 then
          match getDbHandler ctx writePos with
          | none => .error .assertion
          | some db =>
            let ctx := { ctx with lastWriteDbSeq := writePos, lastWriteDb := some db }
            match loadRegistry ops ctx w with
            | .error f => .error f
            | .ok none => .ok none
            | .ok (some ctx) => .ok (some (ctx, w))
        else .ok none

/-- `xmq_context_init`; `none` is `NULL`. -/
def xmqContextInit (kvDbPath : Bytes) (kvMaxRecords : Nat) (w : W) :
    Except Fault (Option (XmqCtx × W)) :=
  if kvMaxRecords > 0 then
    loadAllResouces ops
      { kvDbPath := kvDbPath.take 255, kvMaxRecords := kvMaxRecords, gStateCtx := kvstate,
        listDatabases := [], listProducers := [], listConsumers := [],
        lastWriteDb := none, lastWriteDbSeq := 0 } w
  else .ok none

end Model

end Supex.Xmq
