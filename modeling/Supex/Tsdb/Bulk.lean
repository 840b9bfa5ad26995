import Supex.Lib.Access
import Supex.Lib.Resp
import Supex.Tsdb.Scan

/-!
# TSDB — the replies of KEYS, VALUES and LRANGE

A faithful model of how `ldb_keys`, `ldb_values` and `ldb_lrangeget`
(`ldb_priv.c`) put a reply together: the matches are saved in a chain of chunks
of `SOME_KV_NODES_COUNT` nodes, their lengths and digits are added up, a buffer
of whole pages is allocated for the size computed, and a second pass over the
chain writes the bulks. The three functions differ in whether they save values.

Counters and sizes are `int`s and wrap. Memory is available: `malloc` fails for a
negative `int` only, which is an enormous `size_t`.

* `saveAll_saved` — the chain holds the matches in order, the counters their sums.

Main results: `setBulkAt_ok`, `putBulks_ok`, `reply_right_iff`, `sent_eq_reply`.
-/

namespace Supex.Tsdb

open Supex.Lib
open List hiding Mem

--
-- set_bulk
--

/-- `set_bulk` at `dst`: the writes, and the pointer behind them. `sprintf` ends
its text with a NUL, which what comes next overwrites. A negative length is an
enormous one for `memcpy`. -/
def setBulkAt (dst : Int) (put : Bytes) (len : Int) : Except Fault (Writes × Int) :=
  if len < 0 then .error .memory
  else
    let head := 36 :: fmtInt len ++ crlf
    let ptr := dst + head.length
    .ok ([(dst, head ++ [0]), (ptr, put.take len.toNat), (ptr + len, crlf)], ptr + len + 2)

/-- The line in front of a bulk. -/
def bulkHead (put : Bytes) : Bytes := 36 :: fmtU64 put.length ++ crlf

theorem setBulk_eq (put : Bytes) : setBulk put = bulkHead put ++ (put ++ crlf) :=
  append_assoc _ _ _

/-- **`set_bulk`** with the length of the string: the bulk is written, and nothing
else. -/
theorem setBulkAt_ok (dst : Int) {put : Bytes} (h : put.length < 2 ^ 31) :
    ∃ ws, setBulkAt dst put (toInt32 put.length) = .ok (ws, dst + (setBulk put).length) ∧
      (∀ m : Mem, m.write ws = m.store dst (setBulk put)) ∧
      ws.Within dst (dst + (setBulk put).length) := by
  have hhead : (36 :: fmtInt (put.length : Int) ++ crlf : Bytes) = bulkHead put := by
    unfold fmtInt bulkHead
    rw [if_neg (by omega), Int.natAbs_natCast]
  have hlen : (setBulk put).length = (bulkHead put).length + put.length + 2 := by
    rw [setBulk_eq, length_append, length_append]
    rfl
  have hstop : dst + (bulkHead put).length + put.length + 2 =
      dst + ((setBulk put).length : Int) := by
    rw [hlen]
    push_cast
    ring
  refine ⟨[(dst, bulkHead put ++ [0]), (dst + (bulkHead put).length, put),
    (dst + (bulkHead put).length + put.length, crlf)], ?_, fun m => ?_, ?_⟩
  · unfold setBulkAt
    rw [toInt32_of_lt h, if_neg (by omega)]
    dsimp only
    rw [hhead, Int.toNat_natCast, take_length, hstop]
  · -- the NUL is overwritten by the string or, if that is empty, by the end of the line
    obtain ⟨y, ys, hys⟩ : ∃ y ys, put ++ crlf = y :: ys := by
      cases put with
      | nil => exact ⟨13, [10], rfl⟩
      | cons b put => exact ⟨b, put ++ crlf, rfl⟩
    show ((m.store dst (bulkHead put ++ [0])).store (dst + (bulkHead put).length) put).store
      (dst + (bulkHead put).length + put.length) crlf = _
    rw [Mem.store_append, hys, Mem.store_cover, ← hys, setBulk_eq]
  · have hzero : (bulkHead put ++ [0]).length = (bulkHead put).length + 1 := by
      rw [length_append, length_singleton]
    have hcrlf : crlf.length = 2 := rfl
    simp only [Writes.within_cons, Writes.within_nil, and_true, writeSpan, hzero, hcrlf, hlen]
    refine ⟨fun _ => ?_, fun _ => ?_, fun _ => ?_⟩ <;> dsimp only <;> omega

/-- Bulks one behind the other. -/
def putBulks : List Bytes → Int → Except Fault (Writes × Int)
  | [], dst => .ok ([], dst)
  | put :: puts, dst => do
    let (ws, dst) ← setBulkAt dst put (toInt32 put.length)
    let (vs, dst) ← putBulks puts dst
    pure (ws ++ vs, dst)

theorem putBulks_append (xs ys : List Bytes) (dst : Int) :
    putBulks (xs ++ ys) dst =
      (putBulks xs dst).bind fun r => (putBulks ys r.2).bind fun q => .ok (r.1 ++ q.1, q.2) := by
  induction xs generalizing dst with
  | nil =>
    show putBulks ys dst = (putBulks ys dst).bind fun r => .ok ([] ++ r.1, r.2)
    cases putBulks ys dst <;> rfl
  | cons x xs ih =>
    rw [cons_append, putBulks, putBulks]
    cases setBulkAt dst x (toInt32 x.length) with
    | error f => rfl
    | ok r =>
      show (putBulks (xs ++ ys) r.2).bind (fun q => .ok (r.1 ++ q.1, q.2)) =
        ((putBulks xs r.2).bind fun q => .ok (r.1 ++ q.1, q.2)).bind fun q =>
          (putBulks ys q.2).bind fun p => .ok (q.1 ++ p.1, p.2)
      rw [ih]
      cases putBulks xs r.2 with
      | error f => rfl
      | ok q =>
        show ((putBulks ys q.2).bind fun p => .ok (q.1 ++ p.1, p.2)).bind
          (fun p => .ok (r.1 ++ p.1, p.2)) =
            (putBulks ys q.2).bind fun p => .ok (r.1 ++ q.1 ++ p.1, p.2)
        cases putBulks ys q.2 with
        | error f => rfl
        | ok p =>
          show Except.ok (r.1 ++ (q.1 ++ p.1), p.2) = _
          rw [← append_assoc]
          rfl

/-- **The bulks** are written one behind the other, and nothing else. -/
theorem putBulks_ok (puts : List Bytes) (h : ∀ put ∈ puts, put.length < 2 ^ 31) (dst : Int) :
    ∃ ws, putBulks puts dst = .ok (ws, dst + (puts.map setBulk).flatten.length) ∧
      (∀ m : Mem, m.write ws = m.store dst (puts.map setBulk).flatten) ∧
      ws.Within dst (dst + (puts.map setBulk).flatten.length) := by
  induction puts generalizing dst with
  | nil => exact ⟨[], by simp [putBulks], fun m => (Mem.store_nil m dst).symm,
      Writes.within_nil _ _⟩
  | cons put puts ih =>
    obtain ⟨hput, hputs⟩ := forall_mem_cons.mp h
    obtain ⟨ws, hws, hstore, hwithin⟩ := setBulkAt_ok dst hput
    obtain ⟨vs, hvs, hstore', hwithin'⟩ := ih hputs (dst + (setBulk put).length)
    have hstop : dst + ((setBulk put).length : Int) + (puts.map setBulk).flatten.length =
        dst + ((List.map setBulk (put :: puts)).flatten.length : Int) := by
      rw [map_cons, flatten_cons, length_append]
      push_cast
      ring
    refine ⟨ws ++ vs, ?_, fun m => ?_, ?_⟩
    · rw [putBulks, hws]
      show (putBulks puts (dst + (setBulk put).length)).bind (fun r => .ok (ws ++ r.1, r.2)) = _
      rw [hvs, ← hstop]
      rfl
    · rw [Mem.write_append, hstore, hstore', Mem.store_append]
      rfl
    · rw [← hstop]
      refine Writes.within_append.mpr ⟨fun w hw => (hwithin w hw).mono le_rfl (by omega),
        fun w hw => (hwithin' w hw).mono (by omega) le_rfl⟩

/-- **A text and the bulks behind it.** The NUL that ends the text is overwritten by
the first bulk. -/
theorem headed_bulks_ok (head : Bytes) {puts : List Bytes} (hne : puts ≠ [])
    (h : ∀ put ∈ puts, put.length < 2 ^ 31) :
    ∃ ws, putBulks puts head.length = .ok (ws, (head ++ (puts.map setBulk).flatten).length) ∧
      (∀ m : Mem, m.write ((0, head ++ [0]) :: ws) =
        m.store 0 (head ++ (puts.map setBulk).flatten)) ∧
      Writes.Within 0 (head ++ (puts.map setBulk).flatten).length ((0, head ++ [0]) :: ws) := by
  obtain ⟨ws, hws, hstore, hwithin⟩ := putBulks_ok puts h (head.length : Int)
  have hstop : (head.length : Int) + (puts.map setBulk).flatten.length =
      (head ++ (puts.map setBulk).flatten).length := by
    rw [length_append]
    rfl
  rw [hstop] at hws hwithin
  have hbulks : (puts.map setBulk).flatten ≠ [] := by
    obtain ⟨put, puts, rfl⟩ := exists_cons_of_ne_nil hne
    exact nofun
  have hpos := length_pos_of_ne_nil hbulks
  refine ⟨ws, hws, fun m => ?_, Writes.within_cons.mpr ⟨fun _ => ?_, fun w hw => ?_⟩⟩
  · obtain ⟨y, ys, hys⟩ := exists_cons_of_ne_nil hbulks
    have hcover := Mem.store_cover m 0 head 0 y ys
    rw [Int.zero_add, ← hys] at hcover
    rw [Mem.write, hstore, hcover]
  · have hhead : (head ++ [0] : Bytes).length = head.length + 1 := by
      rw [length_append, length_singleton]
    rw [length_append, writeSpan]
    dsimp only
    omega
  · exact (hwithin w hw).mono (Int.natCast_nonneg _) le_rfl

--
-- The chain of matches
--

def SOME_KV_NODES_COUNT : Nat := 1024

def getNeedCount (idx div : Int) : Int := idx.tdiv div + if idx.tmod div ≥ 1 then 1 else 0

/-- `struct kv_node`: copies of a key and of a value. -/
structure KvNode where
  key : Bytes
  val : Bytes
  deriving DecidableEq

/-- The nodes of a `struct some_kv`. -/
abbrev SomeKv := Nat → KvNode

/-- `struct kv_list`: the chain starts with `head`, and its last chunk is the one
being filled. -/
structure KvList where
  count : Int
  klens : Int
  vlens : Int
  knubs : Int
  vnubs : Int
  chunks : List SomeKv

/-- A chunk behind `memset`. -/
def emptyChunk : SomeKv := fun _ => ⟨[], []⟩

/-- `list = { 0 }`. -/
def emptyList : KvList := ⟨0, 0, 0, 0, 0, [emptyChunk]⟩

/-- A match is saved: `/* save parse */` to `/* save val */`. -/
def KvList.save (withVal : Bool) (list : KvList) (e : Bytes × Bytes) : KvList :=
  let count := wrap32 (list.count + 1)
  let index := count.tmod SOME_KV_NODES_COUNT
  let chunks :=
    if count.tdiv SOME_KV_NODES_COUNT ≥ 1 ∧ index = 1 then list.chunks ++ [emptyChunk]
    else list.chunks
  let index : Int := if index = 0 then SOME_KV_NODES_COUNT else index
  let node : KvNode := ⟨e.1, if withVal then e.2 else []⟩
  { count := count
    klens := wrap32 (list.klens + e.1.length)
    knubs := wrap32 (list.knubs + getNumberLen e.1.length)
    vlens := if withVal then wrap32 (list.vlens + e.2.length) else list.vlens
    vnubs := if withVal then wrap32 (list.vnubs + getNumberLen e.2.length) else list.vnubs
    chunks := chunks.modify (chunks.length - 1) fun nodes =>
      Function.update nodes (index - 1).toNat node }

/-- The matches are saved one after the other. -/
def saveAll (withVal : Bool) (es : List (Bytes × Bytes)) : KvList :=
  es.foldl (KvList.save withVal) emptyList

/-- The bulks of a node. -/
def nodeBulks (withVal : Bool) (node : KvNode) (dst : Int) : Except Fault (Writes × Int) := do
  let (ws, dst) ← setBulkAt dst node.key (toInt32 node.key.length)
  if withVal then
    let (vs, dst) ← setBulkAt dst node.val (toInt32 node.val.length)
    pure (ws ++ vs, dst)
  else pure (ws, dst)

/-- The loop over the nodes of a chunk, at node `j` with `z` matches to go. -/
def chunkLoop (withVal : Bool) (nodes : SomeKv) :
    Nat → Nat → Nat → Int → Except Fault (Writes × Int × Nat)
  | 0, _, z, dst => .ok ([], dst, z)
  | fuel + 1, j, z, dst =>
    if z > 0 then do
      let (ws, dst) ← nodeBulks withVal (nodes j) dst
      let (vs, dst, z) ← chunkLoop withVal nodes fuel (j + 1) (z - 1) dst
      pure (ws ++ vs, dst, z)
    else .ok ([], dst, z)

/-- The loop over the chunks. -/
def chainLoop (withVal : Bool) : Nat → List SomeKv → Nat → Int → Except Fault (Writes × Int)
  | 0, _, _, dst => .ok ([], dst)
  | _, [], _, dst => .ok ([], dst)
  | index + 1, nodes :: chunks, z, dst => do
    let (ws, dst, z) ← chunkLoop withVal nodes SOME_KV_NODES_COUNT 0 z dst
    let (vs, dst) ← chainLoop withVal index chunks z dst
    pure (ws ++ vs, dst)

/-- What the three functions hand to their callers: the buffer's size, the writes
to it and `p_dst` behind the last one, or `NULL`, and `*size`. -/
structure Result where
  result : Option (Int × Writes × Int)
  size : Int

/-- `/* create result */`. -/
def createResult (page : Int) (withVal : Bool) (list : KvList) : Except Fault Result :=
  if list.count > 0 then
    let n := if withVal then wrap32 (list.count * 2) else list.count
    let size := wrap32 (3 + getNumberLen n.toNat + 5 * n + list.knubs + list.klens +
      list.vnubs + list.vlens)
    let index := wrap32 (getNeedCount size page * page)
    if index < 0 then .ok ⟨none, -1⟩
    else do
      let head := 42 :: fmtInt n ++ crlf
      let (ws, dst) ← chainLoop withVal (getNeedCount list.count SOME_KV_NODES_COUNT).toNat
        list.chunks list.count.toNat head.length
      pure ⟨some (index, (0, head ++ [0]) :: ws, dst), size⟩
  else .ok ⟨none, 0⟩

/-- `ldb_lrangeget` on the pairs it walks over. -/
def ldbLrangeget (page : Int) (es : List (Bytes × Bytes)) : Except Fault Result :=
  createResult page true (saveAll true es)

/-- `ldb_keys` on the pairs it walks over. -/
def ldbKeys (page : Int) (es : List (Bytes × Bytes)) : Except Fault Result :=
  createResult page false (saveAll false es)

/-- `ldb_values` on the pairs that match. -/
def ldbValues (page : Int) (es : List (Bytes × Bytes)) : Except Fault Result :=
  createResult page false (saveAll false es)

def OPT_EMPTY_MULTI : Bytes := ascii "*0" ++ crlf

/-- What the handlers append of a result. -/
def Result.sent (r : Result) : Bytes :=
  match r.result with
  | some (_, ws, _) => (Mem.write (fun _ => 0) ws).load 0 r.size.toNat
  | none => if r.size = 0 then OPT_EMPTY_MULTI else OPT_INTERIOR_ERROR

--
-- The chain holds the matches
--

/-- Node `k` of the chain. -/
def slot (chunks : List SomeKv) (k : Nat) : KvNode :=
  chunks.getD (k / SOME_KV_NODES_COUNT) emptyChunk (k % SOME_KV_NODES_COUNT)

/-- What a match is saved as. -/
def savedNode (withVal : Bool) (e : Bytes × Bytes) : KvNode := ⟨e.1, if withVal then e.2 else []⟩

/-- The strings of the reply for a match. -/
def fieldsOf (withVal : Bool) (e : Bytes × Bytes) : List Bytes :=
  if withVal then [e.1, e.2] else [e.1]

/-- The strings of a reply. -/
def replyFields (withVal : Bool) (es : List (Bytes × Bytes)) : List Bytes :=
  es.flatMap (fieldsOf withVal)

/-- The chunks a list of `n` matches takes. -/
def chunksFor (n : Nat) : Nat := max 1 ((n + 1023) / 1024)

/-- The lengths and the digits of some strings. -/
def lengthSum (ss : List Bytes) : Nat := (ss.map List.length).sum

def digitSum (ss : List Bytes) : Nat := (ss.map fun s => getNumberLen s.length).sum

/-- **The chain** holds the matches in order, and the counters their sums. -/
structure Saved (withVal : Bool) (es : List (Bytes × Bytes)) (list : KvList) : Prop where
  count : list.count = es.length
  klens : list.klens = lengthSum (es.map Prod.fst)
  knubs : list.knubs = digitSum (es.map Prod.fst)
  vlens : list.vlens = if withVal then (lengthSum (es.map Prod.snd) : Int) else 0
  vnubs : list.vnubs = if withVal then (digitSum (es.map Prod.snd) : Int) else 0
  chunks : list.chunks.length = chunksFor es.length
  slot : ∀ k e, es[k]? = some e → slot list.chunks k = savedNode withVal e

theorem saved_nil (withVal : Bool) : Saved withVal [] emptyList where
  count := rfl
  klens := rfl
  knubs := rfl
  vlens := by cases withVal <;> rfl
  vnubs := by cases withVal <;> rfl
  chunks := rfl
  slot _ _ h := by cases h

/-- The bytes of a reply behind its first line. -/
def weight (withVal : Bool) (es : List (Bytes × Bytes)) : Nat :=
  (if withVal then 10 else 5) * es.length + lengthSum (es.map Prod.fst) +
    digitSum (es.map Prod.fst) +
    if withVal then lengthSum (es.map Prod.snd) + digitSum (es.map Prod.snd) else 0

theorem lengthSum_concat (ss : List Bytes) (s : Bytes) :
    lengthSum (ss ++ [s]) = lengthSum ss + s.length := by
  simp [lengthSum]

theorem digitSum_concat (ss : List Bytes) (s : Bytes) :
    digitSum (ss ++ [s]) = digitSum ss + getNumberLen s.length := by
  simp [digitSum]

theorem tdiv_natCast (n d : Nat) : (n : Int).tdiv d = ((n / d : Nat) : Int) := by
  rw [Int.tdiv_eq_ediv_of_nonneg (by omega)]
  rfl

theorem tmod_natCast (n d : Nat) : (n : Int).tmod d = ((n % d : Nat) : Int) := by
  rw [Int.tmod_eq_emod_of_nonneg (by omega)]
  rfl

/-- The chunks before a match is saved, and where it goes: the next node of the
last chunk, which is a new one behind every full chunk. -/
theorem save_chunks {chunks : List SomeKv} {n : Nat} (hlen : chunks.length = chunksFor n) :
    let chunks' := if (n + 1) / 1024 ≥ 1 ∧ (n + 1) % 1024 = 1 then chunks ++ [emptyChunk]
      else chunks
    chunks'.length = chunksFor (n + 1) ∧ chunks'.length - 1 = n / 1024 ∧
      ∀ k < n, slot chunks' k = slot chunks k := by
  intro chunks'
  unfold chunksFor at *
  by_cases hnew : (n + 1) / 1024 ≥ 1 ∧ (n + 1) % 1024 = 1
  · have heq : chunks' = chunks ++ [emptyChunk] := if_pos hnew
    rw [heq, length_append, length_singleton]
    refine ⟨by omega, by omega, fun k hk => ?_⟩
    unfold slot SOME_KV_NODES_COUNT
    rw [getD_append _ _ _ _ (by omega)]
  · have heq : chunks' = chunks := if_neg hnew
    rw [heq]
    exact ⟨by omega, by omega, fun _ _ => rfl⟩

theorem slot_modify {chunks : List SomeKv} {n : Nat} (hlen : n / 1024 < chunks.length)
    (node : KvNode) (k : Nat) :
    slot (chunks.modify (n / 1024) fun nodes => Function.update nodes (n % 1024) node) k =
      if k = n then node else slot chunks k := by
  unfold slot SOME_KV_NODES_COUNT
  rw [getD_eq_getElem?_getD, getD_eq_getElem?_getD, getElem?_modify]
  by_cases hchunk : n / 1024 = k / 1024
  · rw [← hchunk, getElem?_eq_getElem hlen]
    show (if n / 1024 = n / 1024 then Function.update chunks[n / 1024] (n % 1024) node
      else chunks[n / 1024]) (k % 1024) = _
    rw [if_pos rfl]
    by_cases hnode : k % 1024 = n % 1024
    · rw [hnode, Function.update_self, if_pos (by omega)]
    · rw [Function.update_of_ne hnode, if_neg (by rintro rfl; exact hnode rfl)]
      rfl
  · simp only [if_neg hchunk]
    rw [if_neg (by rintro rfl; exact hchunk rfl)]
    simp

variable {es : List (Bytes × Bytes)}

theorem Saved.save {withVal : Bool} {list : KvList} (h : Saved withVal es list) (e : Bytes × Bytes)
    (hfits : weight withVal (es ++ [e]) < 2 ^ 31) :
    Saved withVal (es ++ [e]) (list.save withVal e) := by
  have hweight := hfits
  unfold weight at hweight
  simp only [map_append, map_singleton, lengthSum_concat, digitSum_concat,
    length_append, length_singleton] at hweight
  have hcount : wrap32 (list.count + 1) = ((es.length + 1 : Nat) : Int) := by
    rw [h.count, wrap32_of_range (by omega) (by split at hweight <;> omega)]
    rfl
  have hdiv : (wrap32 (list.count + 1)).tdiv SOME_KV_NODES_COUNT =
      (((es.length + 1) / 1024 : Nat) : Int) := by
    rw [hcount]
    exact tdiv_natCast _ _
  have hmod : (wrap32 (list.count + 1)).tmod SOME_KV_NODES_COUNT =
      (((es.length + 1) % 1024 : Nat) : Int) := by
    rw [hcount]
    exact tmod_natCast _ _
  have hnew : ((wrap32 (list.count + 1)).tdiv SOME_KV_NODES_COUNT ≥ 1 ∧
      (wrap32 (list.count + 1)).tmod SOME_KV_NODES_COUNT = 1) ↔
      ((es.length + 1) / 1024 ≥ 1 ∧ (es.length + 1) % 1024 = 1) := by
    rw [hdiv, hmod]
    omega
  have hindex : ((if (wrap32 (list.count + 1)).tmod SOME_KV_NODES_COUNT = 0
      then (SOME_KV_NODES_COUNT : Int)
      else (wrap32 (list.count + 1)).tmod SOME_KV_NODES_COUNT) - 1).toNat = es.length % 1024 := by
    rw [hmod]
    unfold SOME_KV_NODES_COUNT
    split <;> omega
  obtain ⟨hlen, hlast, hkeep⟩ := save_chunks h.chunks
  constructor
  · rw [length_append, length_singleton]
    exact hcount
  · show wrap32 (list.klens + e.1.length) = _
    rw [h.klens, wrap32_of_range (by omega) (by split at hweight <;> omega), map_append,
      map_singleton, lengthSum_concat]
    rfl
  · show wrap32 (list.knubs + getNumberLen e.1.length) = _
    rw [h.knubs, wrap32_of_range (by omega) (by split at hweight <;> omega), map_append,
      map_singleton, digitSum_concat]
    rfl
  · cases withVal with
    | false => exact h.vlens
    | true =>
      have hv : list.vlens = lengthSum (es.map Prod.snd) := h.vlens
      simp only [if_true] at hweight
      show wrap32 (list.vlens + e.2.length) = (lengthSum ((es ++ [e]).map Prod.snd) : Int)
      rw [hv, wrap32_of_range (by omega) (by omega), map_append, map_singleton,
        lengthSum_concat]
      rfl
  · cases withVal with
    | false => exact h.vnubs
    | true =>
      have hv : list.vnubs = digitSum (es.map Prod.snd) := h.vnubs
      simp only [if_true] at hweight
      show wrap32 (list.vnubs + getNumberLen e.2.length) =
        (digitSum ((es ++ [e]).map Prod.snd) : Int)
      rw [hv, wrap32_of_range (by omega) (by omega), map_append, map_singleton,
        digitSum_concat]
      rfl
  · unfold KvList.save
    rw [length_modify, length_append, length_singleton]
    simp only [hnew]
    exact hlen
  · intro k e' hk
    unfold KvList.save
    simp only [hnew, hindex]
    rw [hlast, slot_modify (by rw [← hlast, hlen]; unfold chunksFor; omega)]
    by_cases hkn : k = es.length
    · rw [if_pos hkn]
      rw [hkn, getElem?_append_right le_rfl, Nat.sub_self] at hk
      rw [← Option.some.inj hk]
      rfl
    · have hlt : k < es.length := by
        have := (List.getElem?_eq_some_iff.mp hk).1
        rw [length_append, length_singleton] at this
        omega
      rw [if_neg hkn, hkeep k hlt]
      rw [getElem?_append_left hlt] at hk
      exact h.slot k e' hk

theorem weight_concat_le (withVal : Bool) (es : List (Bytes × Bytes)) (e : Bytes × Bytes) :
    weight withVal es ≤ weight withVal (es ++ [e]) := by
  unfold weight
  simp only [map_append, map_singleton, lengthSum_concat, digitSum_concat,
    length_append, length_singleton]
  split <;> omega

theorem saveAll_saved (withVal : Bool) (es : List (Bytes × Bytes))
    (hfits : weight withVal es < 2 ^ 31) : Saved withVal es (saveAll withVal es) := by
  induction es using List.reverseRecOn with
  | nil => exact saved_nil withVal
  | append_singleton es e ih =>
    have hsaved := ih (lt_of_le_of_lt (weight_concat_le withVal es e) hfits)
    have hfold : saveAll withVal (es ++ [e]) = (saveAll withVal es).save withVal e := by
      unfold saveAll
      rw [foldl_append]
      rfl
    rw [hfold]
    exact hsaved.save e hfits

--
-- The second pass
--

/-- The strings of a node. -/
def nodeFields (withVal : Bool) (node : KvNode) : List Bytes :=
  if withVal then [node.key, node.val] else [node.key]

theorem nodeFields_savedNode (withVal : Bool) (e : Bytes × Bytes) :
    nodeFields withVal (savedNode withVal e) = fieldsOf withVal e := by
  cases withVal <;> rfl

theorem nodeBulks_eq (withVal : Bool) (node : KvNode) (dst : Int) :
    nodeBulks withVal node dst = putBulks (nodeFields withVal node) dst := by
  cases withVal with
  | false =>
    show (setBulkAt dst node.key (toInt32 node.key.length)).bind (fun r => .ok (r.1, r.2)) =
      (setBulkAt dst node.key (toInt32 node.key.length)).bind (fun r => .ok (r.1 ++ [], r.2))
    simp only [append_nil]
  | true =>
    show (setBulkAt dst node.key (toInt32 node.key.length)).bind (fun r =>
        (setBulkAt r.2 node.val (toInt32 node.val.length)).bind fun q => .ok (r.1 ++ q.1, q.2)) =
      (setBulkAt dst node.key (toInt32 node.key.length)).bind (fun r =>
        ((setBulkAt r.2 node.val (toInt32 node.val.length)).bind fun q =>
          .ok (q.1 ++ [], q.2)).bind fun q => .ok (r.1 ++ q.1, q.2))
    simp only [append_nil]
    cases setBulkAt dst node.key (toInt32 node.key.length) with
    | error f => rfl
    | ok r =>
      show (setBulkAt r.2 node.val (toInt32 node.val.length)).bind _ =
        ((setBulkAt r.2 node.val (toInt32 node.val.length)).bind _).bind _
      cases setBulkAt r.2 node.val (toInt32 node.val.length) <;> rfl

theorem chunkLoop_eq (withVal : Bool) (nodes : SomeKv) (fuel j z : Nat) (dst : Int) :
    chunkLoop withVal nodes fuel j z dst =
      (putBulks ((List.range' j (min fuel z)).flatMap fun k => nodeFields withVal (nodes k))
        dst).map fun r => (r.1, r.2, z - min fuel z) := by
  induction fuel generalizing j z dst with
  | zero => rw [Nat.zero_min]; rfl
  | succ fuel ih =>
    cases z with
    | zero => rfl
    | succ z =>
      rw [chunkLoop, if_pos (Nat.succ_pos z), Nat.add_min_add_right, range'_succ,
        flatMap_cons, putBulks_append, ← nodeBulks_eq]
      cases nodeBulks withVal (nodes j) dst with
      | error f => rfl
      | ok r =>
        show (chunkLoop withVal nodes fuel (j + 1) (z + 1 - 1) r.2).bind
          (fun q => .ok (r.1 ++ q.1, q.2.1, q.2.2)) = _
        rw [Nat.add_sub_cancel, ih]
        show _ = ((putBulks _ r.2).bind fun q => .ok (r.1 ++ q.1, q.2)).map _
        cases putBulks ((List.range' (j + 1) (min fuel z)).flatMap fun k =>
            nodeFields withVal (nodes k)) r.2 with
        | error f => rfl
        | ok q =>
          show Except.ok (r.1 ++ q.1, q.2, z - min fuel z) =
            .ok (r.1 ++ q.1, q.2, z + 1 - (min fuel z + 1))
          rw [Nat.add_sub_add_right]

/-- **The chain is walked** node by node, as far as there are matches. -/
theorem chainLoop_eq (withVal : Bool) (index : Nat) (chunks : List SomeKv) (z : Nat) (dst : Int)
    (hindex : chunks.length ≤ index) (hz : z ≤ 1024 * chunks.length) :
    chainLoop withVal index chunks z dst =
      putBulks ((List.range z).flatMap fun k => nodeFields withVal (slot chunks k)) dst := by
  induction chunks generalizing index z dst with
  | nil =>
    obtain rfl : z = 0 := by
      rw [length_nil] at hz
      omega
    cases index <;> rfl
  | cons nodes chunks ih =>
    rw [length_cons] at hindex hz
    obtain ⟨index, rfl⟩ : ∃ k, index = k + 1 := ⟨index - 1, by omega⟩
    -- the matches of this chunk, and the rest
    have hsplit : List.range z = List.range (min 1024 z) ++
        (List.range (z - min 1024 z)).map (min 1024 z + ·) := by
      rw [← range_add]
      congr 1
      omega
    have hfirst : ∀ k ∈ List.range (min 1024 z), slot (nodes :: chunks) k = nodes k := by
      intro k hk
      rw [mem_range] at hk
      unfold slot SOME_KV_NODES_COUNT
      rw [Nat.div_eq_of_lt (by omega), Nat.mod_eq_of_lt (by omega)]
      rfl
    have hrest : ∀ k ∈ List.range (z - min 1024 z),
        slot (nodes :: chunks) (min 1024 z + k) = slot chunks k := by
      intro k hk
      rw [mem_range] at hk
      unfold slot SOME_KV_NODES_COUNT
      rw [show (min 1024 z + k) / 1024 = k / 1024 + 1 by omega,
        show (min 1024 z + k) % 1024 = k % 1024 by omega, getD_cons_succ]
    have hnodes : ((List.range' 0 (min 1024 z)).flatMap fun k => nodeFields withVal (nodes k)) =
        (List.range (min 1024 z)).flatMap fun k =>
          nodeFields withVal (slot (nodes :: chunks) k) := by
      rw [← range_eq_range']
      exact flatMap_congr fun k hk => by rw [hfirst k hk]
    have htail : ((List.range (z - min 1024 z)).flatMap fun k =>
          nodeFields withVal (slot chunks k)) =
        ((List.range (z - min 1024 z)).map (min 1024 z + ·)).flatMap fun k =>
          nodeFields withVal (slot (nodes :: chunks) k) := by
      rw [flatMap_map]
      exact flatMap_congr fun k hk => by rw [hrest k hk]
    rw [chainLoop, hsplit, flatMap_append, putBulks_append, ← hnodes, ← htail]
    rw [show SOME_KV_NODES_COUNT = 1024 from rfl, chunkLoop_eq]
    cases putBulks ((List.range' 0 (min 1024 z)).flatMap fun k => nodeFields withVal (nodes k))
        dst with
    | error f => rfl
    | ok r =>
      show (chainLoop withVal index chunks (z - min 1024 z) r.2).bind
        (fun q => .ok (r.1 ++ q.1, q.2)) = _
      rw [ih index (z - min 1024 z) r.2 (by omega) (by omega)]
      rfl

theorem chainLoop_saved {withVal : Bool} {list : KvList} (h : Saved withVal es list) (dst : Int) :
    chainLoop withVal (getNeedCount list.count SOME_KV_NODES_COUNT).toNat list.chunks
        list.count.toNat dst = putBulks (replyFields withVal es) dst := by
  have hchunks := h.chunks
  unfold chunksFor at hchunks
  by_cases hes : es = []
  · subst hes
    have hcount : list.count = 0 := h.count
    rw [hcount]
    rfl
  · have hpos := length_pos_of_ne_nil hes
    have hindex : (getNeedCount list.count SOME_KV_NODES_COUNT).toNat =
        (es.length + 1023) / 1024 := by
      unfold getNeedCount SOME_KV_NODES_COUNT
      rw [h.count, tdiv_natCast, tmod_natCast]
      split <;> omega
    rw [hindex, h.count, Int.toNat_natCast,
      chainLoop_eq _ _ _ _ _ (by omega) (by omega)]
    congr 1
    have hes : es = (List.range es.length).map fun k => es.getD k ([], []) := by
      apply ext_getElem
      · simp
      · intro k h₁ h₂
        rw [getElem_map, getElem_range, getD_eq_getElem _ _ h₁]
    unfold replyFields
    conv_rhs => rw [hes, flatMap_map]
    refine flatMap_congr fun k hk => ?_
    rw [mem_range] at hk
    rw [h.slot k _ (getElem?_eq_getElem hk), nodeFields_savedNode,
      getD_eq_getElem _ _ hk]

--
-- The reply
--

theorem multiBulk_eq_array (fields : List Bytes) : multiBulk fields = Resp.array fields := rfl

theorem bulks_length (withVal : Bool) (es : List (Bytes × Bytes)) :
    ((replyFields withVal es).map setBulk).flatten.length = weight withVal es := by
  induction es using List.reverseRecOn with
  | nil => cases withVal <;> rfl
  | append_singleton es e ih =>
    have hconcat : replyFields withVal (es ++ [e]) =
        replyFields withVal es ++ fieldsOf withVal e := by
      unfold replyFields
      rw [flatMap_append, flatMap_singleton]
    rw [hconcat, map_append, flatten_append, length_append, ih]
    unfold weight fieldsOf
    simp only [map_append, map_singleton, lengthSum_concat, digitSum_concat,
      length_append, length_singleton]
    cases withVal with
    | false =>
      simp only [Bool.false_eq_true, if_false, map_cons, map_nil, flatten_cons,
        flatten_nil, append_nil, setBulk_length]
      omega
    | true =>
      simp only [if_true, map_cons, map_nil, flatten_cons, flatten_nil,
        append_nil, length_append, setBulk_length]
      omega

theorem replyFields_length (withVal : Bool) (es : List (Bytes × Bytes)) :
    (replyFields withVal es).length = if withVal then es.length * 2 else es.length := by
  unfold replyFields fieldsOf
  cases withVal with
  | false => simp
  | true => simp

theorem multiBulk_length (withVal : Bool) (es : List (Bytes × Bytes)) :
    (multiBulk (replyFields withVal es)).length =
      3 + getNumberLen (replyFields withVal es).length + weight withVal es := by
  unfold multiBulk
  rw [length_append, bulks_length, length_append, length_cons]
  have hdigits : (fmtU64 (replyFields withVal es).length).length =
      getNumberLen (replyFields withVal es).length := decDigits_length 20 _
  rw [hdigits]
  have hcrlf : crlf.length = 2 := rfl
  omega

theorem length_lt_of_mem_replyFields {withVal : Bool} {s : Bytes}
    (hs : s ∈ replyFields withVal es) : s.length < (multiBulk (replyFields withVal es)).length := by
  have hle : (setBulk s).length ≤ ((replyFields withVal es).map setBulk).flatten.length :=
    List.Sublist.length_le (sublist_flatten_of_mem (mem_map_of_mem hs))
  rw [setBulk_length, bulks_length] at hle
  rw [multiBulk_length]
  omega

/-- The size of a page, as `getpagesize` returns it. -/
abbrev PageSize := { page : Int // 0 < page ∧ page < 2 ^ 31 }

theorem pages_bounds (size : Nat) (page : PageSize) :
    (size : Int) ≤ getNeedCount size page.1 * page.1 ∧
      getNeedCount size page.1 * page.1 < size + page.1 := by
  obtain ⟨page, hpos, -⟩ := page
  dsimp only
  unfold getNeedCount
  rw [Int.tdiv_eq_ediv_of_nonneg (by omega), Int.tmod_eq_emod_of_nonneg (by omega)]
  have hdiv := Int.mul_ediv_add_emod (size : Int) page
  have hlo := Int.emod_nonneg (size : Int) (ne_of_gt hpos)
  have hhi := Int.emod_lt_of_pos (size : Int) hpos
  rw [add_mul, mul_comm (_ / page)]
  split <;> omega

/-- The three listings. -/
inductive Listing where
  | lrange
  | keys
  | values
  deriving DecidableEq

/-- Values are listed, too. -/
def Listing.withVal : Listing → Bool
  | .lrange => true
  | .keys => false
  | .values => false

/-- What the function of a listing builds of the matches. -/
def Listing.build (page : Int) : Listing → List (Bytes × Bytes) → Except Fault Result
  | .lrange => ldbLrangeget page
  | .keys => ldbKeys page
  | .values => ldbValues page

theorem Listing.build_eq (page : Int) (l : Listing) (es : List (Bytes × Bytes)) :
    l.build page es = createResult page l.withVal (saveAll l.withVal es) := by
  cases l <;> rfl

/-- The reply of a listing is right: the bytes written number `*size` and lie in
the buffer, there is no buffer only where there is no match, and what is sent
reads as the keys of the matches, with the values where they are listed. -/
def ReplyRight (page : Int) (l : Listing) (es : List (Bytes × Bytes)) : Prop :=
  ∃ r, l.build page es = .ok r ∧
    (match r.result with
      | some (buf, ws, stop) => stop = r.size ∧ ws.Within 0 buf ∧ r.size ≤ buf
      | none => es = [] ∧ r.size = 0) ∧
    Resp.readArray r.sent = some (replyFields l.withVal es, [])

theorem Saved.fieldCount {withVal : Bool} (hsaved : Saved withVal es (saveAll withVal es))
    (hweight : weight withVal es < 2 ^ 31) :
    (if withVal then wrap32 ((saveAll withVal es).count * 2) else (saveAll withVal es).count) =
      ((replyFields withVal es).length : Int) := by
  rw [hsaved.count, replyFields_length]
  cases withVal with
  | false => rfl
  | true =>
    unfold weight at hweight
    simp only [if_true] at hweight ⊢
    rw [wrap32_of_range (by omega) (by omega)]
    push_cast
    ring

/-- **The size** that is added up of the counters is that of the reply. -/
theorem Saved.size {withVal : Bool} (hsaved : Saved withVal es (saveAll withVal es))
    (hfits : (multiBulk (replyFields withVal es)).length < 2 ^ 31) :
    wrap32 (3 + getNumberLen ((replyFields withVal es).length : Int).toNat +
      5 * ((replyFields withVal es).length : Int) + (saveAll withVal es).knubs +
      (saveAll withVal es).klens + (saveAll withVal es).vnubs + (saveAll withVal es).vlens) =
        ((multiBulk (replyFields withVal es)).length : Int) := by
  have htotal : 3 + (getNumberLen (replyFields withVal es).length : Int) +
      5 * ((replyFields withVal es).length : Int) + (saveAll withVal es).knubs +
      (saveAll withVal es).klens + (saveAll withVal es).vnubs + (saveAll withVal es).vlens =
        ((multiBulk (replyFields withVal es)).length : Int) := by
    rw [multiBulk_length, hsaved.knubs, hsaved.klens, hsaved.vnubs, hsaved.vlens,
      replyFields_length]
    unfold weight
    cases withVal with
    | false =>
      push_cast
      ring
    | true =>
      simp only [if_true]
      push_cast
      ring
  rw [Int.toNat_natCast, htotal, wrap32_of_range (by omega) (by omega)]

theorem createResult_eq (page : PageSize) {withVal : Bool} (hne : es ≠ [])
    (hfits : (multiBulk (replyFields withVal es)).length < 2 ^ 31) :
    if getNeedCount (multiBulk (replyFields withVal es)).length page.1 * page.1 < 2 ^ 31 then
      ∃ ws, createResult page.1 withVal (saveAll withVal es) =
          .ok ⟨some (getNeedCount (multiBulk (replyFields withVal es)).length page.1 * page.1, ws,
            (multiBulk (replyFields withVal es)).length),
            (multiBulk (replyFields withVal es)).length⟩ ∧
        (∀ m : Mem, m.write ws = m.store 0 (multiBulk (replyFields withVal es))) ∧
        ws.Within 0 (multiBulk (replyFields withVal es)).length
    else createResult page.1 withVal (saveAll withVal es) = .ok ⟨none, -1⟩ := by
  have hlen := multiBulk_length withVal es
  have hsaved := saveAll_saved withVal es (by omega)
  have hbounds := pages_bounds (multiBulk (replyFields withVal es)).length page
  have hpos := length_pos_of_ne_nil hne
  have hcount : (saveAll withVal es).count > 0 := by
    rw [hsaved.count]
    omega
  unfold createResult
  rw [if_pos hcount]
  dsimp only
  rw [hsaved.fieldCount (by omega), hsaved.size hfits]
  split
  · next hround =>
    -- the first line and the bulks behind it
    have hhead : (42 :: fmtInt ((replyFields withVal es).length : Int) ++ crlf : Bytes) =
        42 :: fmtU64 (replyFields withVal es).length ++ crlf := by
      unfold fmtInt
      rw [if_neg (by omega), Int.natAbs_natCast]
    have hfields : replyFields withVal es ≠ [] := by
      refine ne_nil_of_length_pos ?_
      rw [replyFields_length]
      split <;> omega
    obtain ⟨ws, hws, hstore, hwithin⟩ := headed_bulks_ok
      (42 :: fmtU64 (replyFields withVal es).length ++ crlf) hfields fun s hs =>
        (length_lt_of_mem_replyFields hs).trans hfits
    rw [wrap32_of_range (by omega) hround, if_neg (by omega), hhead, chainLoop_saved hsaved, hws]
    exact ⟨_, rfl, hstore, hwithin⟩
  · next hround =>
    have hwrapped : wrap32 (getNeedCount (multiBulk (replyFields withVal es)).length page.1 *
        page.1) < 0 := by
      unfold wrap32
      rw [Int.bmod_def]
      split <;> omega
    rw [if_pos hwrapped]

theorem createResult_sent {page : PageSize} {withVal : Bool} (hne : es ≠ [])
    (hfits : (multiBulk (replyFields withVal es)).length < 2 ^ 31)
    (hround : getNeedCount (multiBulk (replyFields withVal es)).length page.1 * page.1 < 2 ^ 31) :
    ∃ ws, createResult page.1 withVal (saveAll withVal es) =
        .ok ⟨some (getNeedCount (multiBulk (replyFields withVal es)).length page.1 * page.1, ws,
          (multiBulk (replyFields withVal es)).length),
          (multiBulk (replyFields withVal es)).length⟩ ∧
      ws.Within 0 (multiBulk (replyFields withVal es)).length ∧
      (Mem.write (fun _ => 0) ws).load 0 (multiBulk (replyFields withVal es)).length =
        multiBulk (replyFields withVal es) := by
  have hresult := createResult_eq page hne hfits
  rw [if_pos hround] at hresult
  obtain ⟨ws, hcreate, hstore, hwithin⟩ := hresult
  refine ⟨ws, hcreate, hwithin, ?_⟩
  rw [hstore]
  exact Mem.holds_store _ _ _

/-- **Replies.** A reply whose size is an `int` is right exactly when there is no
match, or the size in whole pages is still an `int`. -/
theorem reply_right_iff (page : PageSize) (l : Listing) (es : List (Bytes × Bytes))
    (hfits : (multiBulk (replyFields l.withVal es)).length < 2 ^ 31) :
    ReplyRight page.1 l es ↔
      es = [] ∨
        getNeedCount (multiBulk (replyFields l.withVal es)).length page.1 * page.1 < 2 ^ 31 := by
  have hread : Resp.readArray (multiBulk (replyFields l.withVal es)) =
      some (replyFields l.withVal es, []) := by
    have hlen := multiBulk_length l.withVal es
    have hcount : (replyFields l.withVal es).length ≤ weight l.withVal es := by
      rw [replyFields_length]
      unfold weight
      split <;> omega
    have harray := Resp.readArray_array (replyFields l.withVal es)
      (by norm_num; omega) (fun s hs => by
        have := length_lt_of_mem_replyFields hs
        omega) []
    rw [multiBulk_eq_array]
    rwa [append_nil] at harray
  unfold ReplyRight
  rw [l.build_eq]
  by_cases hes : es = []
  · subst hes
    refine iff_of_true ⟨⟨none, 0⟩, ?_, ⟨rfl, rfl⟩, ?_⟩ (.inl rfl)
    · rfl
    · rfl
  · have hbounds := (pages_bounds (multiBulk (replyFields l.withVal es)).length page).1
    by_cases hround : getNeedCount (multiBulk (replyFields l.withVal es)).length page.1 *
        page.1 < 2 ^ 31
    · obtain ⟨ws, hcreate, hwithin, hload⟩ := createResult_sent hes hfits hround
      refine iff_of_true ⟨_, hcreate, ⟨rfl, fun w hw => (hwithin w hw).mono le_rfl hbounds,
        hbounds⟩, ?_⟩ (.inr hround)
      unfold Result.sent
      dsimp only
      rw [Int.toNat_natCast, hload, hread]
    · have hresult := createResult_eq page hes hfits
      rw [if_neg hround] at hresult
      refine iff_of_false ?_ (not_or_intro hes hround)
      rintro ⟨r, hr, hright, -⟩
      rw [hresult] at hr
      obtain rfl := Except.ok.inj hr
      exact hes hright.1

/-- One short key. -/
theorem reply_right_iff_one :
    ReplyRight 4096 .keys [([107], [118])] ↔
      ([([107], [118])] : List (Bytes × Bytes)) = [] ∨
        getNeedCount (multiBulk (replyFields false [([107], [118])])).length 4096 * 4096 <
          2 ^ 31 :=
  reply_right_iff ⟨4096, by decide⟩ .keys [([107], [118])] (by decide)

theorem oneKey_length (key : Bytes) :
    (multiBulk (replyFields false [(key, [])])).length =
      9 + getNumberLen key.length + key.length := by
  have hone : getNumberLen 1 = 1 := rfl
  rw [multiBulk_length, replyFields_length]
  unfold weight lengthSum digitSum
  simp only [Bool.false_eq_true, if_false, map_cons, map_nil, sum_cons,
    sum_nil, length_cons, length_nil, Nat.zero_add, hone]
  omega

/-- A key whose reply is an `int` long, but not in whole pages: the reply is lost,
and the client is told of an error. -/
theorem keys_reply_lost :
    (multiBulk (replyFields false [(List.replicate (2 ^ 31 - 100) 107, [])])).length < 2 ^ 31 ∧
      ldbKeys 4096 [(List.replicate (2 ^ 31 - 100) 107, [])] = .ok ⟨none, -1⟩ ∧
      ¬ ReplyRight 4096 .keys [(List.replicate (2 ^ 31 - 100) 107, [])] := by
  generalize hkey : List.replicate (2 ^ 31 - 100) (107 : UInt8) = key
  have hlen : (multiBulk (replyFields false [(key, [])])).length = 2147483567 := by
    have hdigits : getNumberLen 2147483548 = 10 := by decide
    have hlong : key.length = 2147483548 := by
      rw [← hkey, length_replicate]
      norm_num
    rw [oneKey_length, hlong, hdigits]
  have hlost : ldbKeys 4096 [(key, [])] = .ok ⟨none, -1⟩ := by
    have hresult := createResult_eq ⟨4096, by decide⟩ (cons_ne_nil (key, []) [])
      (show (multiBulk (replyFields false [(key, [])])).length < 2 ^ 31 by rw [hlen]; decide)
    rwa [hlen, if_neg (by decide)] at hresult
  refine ⟨by rw [hlen]; decide, hlost, ?_⟩
  rintro ⟨r, hr, hright, -⟩
  rw [show Listing.build 4096 .keys [(key, [])] = _ from hlost] at hr
  obtain rfl := Except.ok.inj hr
  exact cons_ne_nil _ _ hright.1

/-- The listing of a query. -/
def Query.listing : Query → Listing
  | .lrange .. => .lrange
  | .keys .. => .keys
  | .values .. => .values

/-- **Queries.** What is sent of the matches of a query is its reply. -/
theorem sent_eq_reply (page : PageSize) {db : Ldb} {q : Query} (hscan : q.scan db = .ok es)
    (hfits : (multiBulk (replyFields q.listing.withVal es)).length < 2 ^ 31)
    (hround : getNeedCount (multiBulk (replyFields q.listing.withVal es)).length page.1 *
      page.1 < 2 ^ 31) : ∃ r, q.listing.build page.1 es = .ok r ∧ q.reply db = .ok r.sent := by
  have hreply : q.reply db = .ok (multiBulk (replyFields q.listing.withVal es)) := by
    have hmap : es.map Prod.fst = es.flatMap fun e => [e.1] := map_eq_flatMap
    unfold Query.reply
    rw [hscan]
    cases q with
    | lrange => rfl
    | keys =>
      show Except.ok (multiBulk (es.map Prod.fst)) = _
      rw [hmap]
      rfl
    | values =>
      show Except.ok (multiBulk (es.map Prod.fst)) = _
      rw [hmap]
      rfl
  rw [hreply, q.listing.build_eq]
  by_cases hes : es = []
  · subst hes
    exact ⟨⟨none, 0⟩, rfl, by cases q <;> rfl⟩
  · obtain ⟨ws, hcreate, -, hload⟩ := createResult_sent hes hfits hround
    refine ⟨_, hcreate, ?_⟩
    unfold Result.sent
    dsimp only
    rw [Int.toNat_natCast, hload]

theorem sent_eq_reply_one :
    ∃ r, ldbKeys 4096 [([97], [120])] = .ok r ∧ (Query.keys [97]).reply dbA = .ok r.sent :=
  sent_eq_reply ⟨4096, by decide⟩ (q := .keys [97]) rfl (by decide) (by decide)

end Supex.Tsdb
