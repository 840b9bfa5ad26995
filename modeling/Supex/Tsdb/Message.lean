import Supex.Tsdb.Bulk

/-!
# TSDB — the messages of the slave thread

`get_binlog` (`binlog.c`) with what it does to the buffer it is given: the size of
the message is computed from the lengths and their digits and checked, one byte
more is cleared, and `strcpy` and `set_bulk` build the message. `Binlog` has the
same function by its result; there the cleared byte is a `Fault`.

* `getBinlog_msg` — it is the message of `Binlog`'s `getBinlog`.

Main results: `fillMsgAt_ok`, `message_right_iff`.
-/

namespace Supex.Tsdb

open Supex.Lib
open List hiding Mem

--
-- get_binlog
--

/-- What `get_binlog` returns, `*length`, the writes to `msg`, and `tmp` behind the
last of them. -/
structure MsgResult where
  ret : Int
  length : Nat
  writes : Writes
  tmp : Int

/-- `bvlen` of a `SET`. -/
def syncsetSize (key value : Bytes) : Nat :=
  2 + 3 + 7 * 2 + 1 + 7 + getNumberLen key.length + key.length + getNumberLen value.length +
    value.length

/-- `bvlen` of a `DEL`. -/
def syncdelSize (key : Bytes) : Nat :=
  2 + 2 + 5 * 2 + 1 + 7 + getNumberLen key.length + key.length

/-- The end of both branches: the size is checked, `bzero`, `strcpy`, a `set_bulk`
for every string, and the size is checked again. -/
def fillMsgAt (bvlen length : Nat) (head : Bytes) (puts : List Bytes) : Except Fault MsgResult :=
  if bvlen > length then .ok ⟨-1, length, [], 0⟩
  else do
    let (ws, tmp) ← putBulks puts head.length
    pure ⟨if tmp ≠ bvlen then -1 else 1, bvlen,
      (0, List.replicate (bvlen + 1) 0) :: (0, head ++ [0]) :: ws, tmp⟩

/-- `get_binlog` with a message buffer of `length` bytes. -/
def getBinlogAt (db : Ldb) (seq length : Nat) : Except Fault MsgResult :=
  match (db.get (encodeSeqKey seq)).getD [] with
  | [] => .ok ⟨0, 0, [], 0⟩
  | binValue =>
    match decodeSeqValue binValue with
    | .error f => .error f
    | .ok none => .ok ⟨-1, length, [], 0⟩
    | .ok (some (cmd, key)) =>
      if cmd = CMD_SET then
        if leveldbGetLen db key = 0 then .ok ⟨0, 0, [], 0⟩
        else
          let value := (db.get key).getD []
          fillMsgAt (syncsetSize key value) length syncsetHead [key, value]
      else if cmd = CMD_DEL then fillMsgAt (syncdelSize key) length syncdelHead [key]
      else .ok ⟨-1, length, [], 0⟩

--
-- The message
--

variable {length : Nat}

/-- **The message** is written as it was computed, and the cleared byte behind it is
inside the buffer exactly when the message does not fill it. -/
theorem fillMsgAt_ok {bvlen : Nat} {head : Bytes} {puts : List Bytes} (hne : puts ≠ [])
    (hputs : ∀ put ∈ puts, put.length < 2 ^ 31)
    (hsize : (head ++ (puts.map setBulk).flatten).length = bvlen) (hle : bvlen ≤ length) :
    ∃ ws, fillMsgAt bvlen length head puts = .ok ⟨1, bvlen, ws, bvlen⟩ ∧
      (∀ m : Mem, (m.write ws).load 0 bvlen = head ++ (puts.map setBulk).flatten) ∧
      (ws.Within 0 length ↔ bvlen ≠ length) := by
  obtain ⟨ws, hws, hstore, hwithin⟩ := headed_bulks_ok head hne hputs
  rw [hsize] at hws hwithin
  refine ⟨(0, List.replicate (bvlen + 1) 0) :: (0, head ++ [0]) :: ws, ?_, fun m => ?_, ?_⟩
  · unfold fillMsgAt
    rw [if_neg (by omega), hws]
    show Except.ok (MsgResult.mk (if (bvlen : Int) ≠ bvlen then -1 else 1) bvlen _ bvlen) = _
    rw [if_neg (not_not_intro rfl)]
  · rw [Mem.write, hstore, ← hsize]
    exact Mem.holds_store _ _ _
  · have hclear : (List.replicate (bvlen + 1) (0 : UInt8)).length = bvlen + 1 :=
      length_replicate
    constructor
    · intro h hfull
      have hzero := (Writes.within_cons.mp h).1
      rw [writeSpan, hclear, Span.within_of_pos (by omega)] at hzero
      omega
    · intro hfull
      refine Writes.within_cons.mpr ⟨?_, fun w hw => (hwithin w hw).mono le_rfl (by omega)⟩
      rw [writeSpan, hclear, Span.within_of_pos (by omega)]
      omega

theorem fillMsgAt_fail {bvlen : Nat} (h : length < bvlen) (head : Bytes) (puts : List Bytes) :
    fillMsgAt bvlen length head puts = .ok ⟨-1, length, [], 0⟩ := by
  exact if_pos h

theorem getNumberLenLoop_le (fuel n : Nat) : getNumberLenLoop fuel n ≤ fuel := by
  induction fuel generalizing n with
  | zero => exact le_rfl
  | succ fuel ih =>
    rw [getNumberLenLoop]
    have hloop := ih (n / 10)
    split <;> omega

/-- A value that no `int` can count: its length is taken for a smaller one, and the
size is found to be wrong, or for a negative one. -/
theorem fillMsgAt_long {key value : Bytes} (hkey : key.length < 2 ^ 31)
    (hvalue : 2 ^ 31 ≤ value.length) (hle : syncsetSize key value ≤ length) :
    if toInt32 value.length < 0 then
      fillMsgAt (syncsetSize key value) length syncsetHead [key, value] = .error .memory
    else ∃ r, fillMsgAt (syncsetSize key value) length syncsetHead [key, value] = .ok r ∧
      r.ret = -1 := by
  obtain ⟨ws, hws, -, -⟩ := setBulkAt_ok syncsetHead.length hkey
  have hfill : fillMsgAt (syncsetSize key value) length syncsetHead [key, value] =
      (putBulks [key, value] syncsetHead.length).bind fun q =>
        .ok ⟨if q.2 ≠ syncsetSize key value then -1 else 1, syncsetSize key value,
          (0, List.replicate (syncsetSize key value + 1) 0) :: (0, syncsetHead ++ [0]) :: q.1,
          q.2⟩ := by
    exact if_neg (by omega)
  have hputs : putBulks [key, value] syncsetHead.length =
      (setBulkAt (syncsetHead.length + ((setBulk key).length : Int)) value
        (toInt32 value.length)).bind fun q => .ok (ws ++ (q.1 ++ []), q.2) := by
    have hlast (dst : Int) : putBulks [value] dst =
        (setBulkAt dst value (toInt32 value.length)).bind fun q => .ok (q.1 ++ [], q.2) := by
      rw [putBulks]
      rfl
    show (setBulkAt syncsetHead.length key (toInt32 key.length)).bind
      (fun p => (putBulks [value] p.2).bind fun q => .ok (p.1 ++ q.1, q.2)) = _
    rw [hws]
    show (putBulks [value] (syncsetHead.length + (setBulk key).length)).bind
      (fun q => .ok (ws ++ q.1, q.2)) = _
    rw [hlast]
    cases setBulkAt (syncsetHead.length + ((setBulk key).length : Int)) value
      (toInt32 value.length) <;> rfl
  rw [hfill, hputs]
  unfold setBulkAt
  split
  · rfl
  · next hlen =>
    refine ⟨_, rfl, if_pos ?_⟩
    -- the length that was written is short by a multiple of `2 ^ 32`
    have hshort : toInt32 value.length ≤ value.length - 2 ^ 32 := by
      unfold toInt32 at hlen ⊢
      split at hlen <;> omega
    have hdigits : (fmtInt (toInt32 value.length)).length ≤ 20 := by
      unfold fmtInt
      rw [if_neg hlen, fmtU64, decDigits_length]
      exact getNumberLenLoop_le 20 _
    have hhead : syncsetHead.length = 17 := by decide
    have hcrlf : crlf.length = 2 := rfl
    unfold syncsetSize
    rw [setBulk_length, hhead, length_append, length_cons, hcrlf]
    omega

theorem syncset_eq (key value : Bytes) :
    syncsetHead ++ ([key, value].map setBulk).flatten =
      Resp.array [ascii "SYNCSET", key, value] := by
  have hhead : syncsetHead = 42 :: fmtU64 3 ++ Resp.CRLF ++ Resp.bulk (ascii "SYNCSET") := by
    decide
  rw [hhead, append_assoc]
  rfl

theorem syncdel_eq (key : Bytes) :
    syncdelHead ++ ([key].map setBulk).flatten = Resp.array [ascii "SYNCDEL", key] := by
  have hhead : syncdelHead = 42 :: fmtU64 2 ++ Resp.CRLF ++ Resp.bulk (ascii "SYNCDEL") := by
    decide
  rw [hhead, append_assoc]
  rfl

theorem syncset_size (key value : Bytes) :
    (syncsetHead ++ ([key, value].map setBulk).flatten).length = syncsetSize key value := by
  have hflat : ([key, value].map setBulk).flatten = setBulk key ++ (setBulk value ++ []) := rfl
  rw [hflat, append_nil, ← append_assoc]
  exact syncset_length key value

theorem syncdel_size (key : Bytes) :
    (syncdelHead ++ ([key].map setBulk).flatten).length = syncdelSize key := by
  have hflat : ([key].map setBulk).flatten = setBulk key ++ [] := rfl
  rw [hflat, append_nil]
  exact syncdel_length key

--
-- The cases of get_binlog
--

variable {db : Ldb} {seq : Nat} {cmd : UInt8} {key value : Bytes}

theorem getBinlogAt_record (hrec : db.get (encodeSeqKey seq) = some (cmd :: key))
    (hkey : key.length ≤ BINLOG_MAX_VAL_SIZE) (length : Nat) :
    getBinlogAt db seq length =
      if cmd = CMD_SET then
        if leveldbGetLen db key = 0 then .ok ⟨0, 0, [], 0⟩
        else fillMsgAt (syncsetSize key ((db.get key).getD [])) length syncsetHead
          [key, (db.get key).getD []]
      else if cmd = CMD_DEL then fillMsgAt (syncdelSize key) length syncdelHead [key]
      else .ok ⟨-1, length, [], 0⟩ := by
  have hdecode : decodeSeqValue (cmd :: key) = .ok (some (cmd, key)) := if_pos hkey
  unfold getBinlogAt
  rw [hrec]
  dsimp only [Option.getD_some]
  rw [hdecode]

theorem getBinlogAt_set (hrec : db.get (encodeSeqKey seq) = some (CMD_SET :: key))
    (hkey : key.length ≤ BINLOG_MAX_VAL_SIZE) (hvalue : db.get key = some value)
    (hne : value ≠ []) (length : Nat) :
    getBinlogAt db seq length =
      fillMsgAt (syncsetSize key value) length syncsetHead [key, value] := by
  have hlen : leveldbGetLen db key ≠ 0 := by
    rw [Ne, leveldbGetLen_eq_zero, hvalue, not_or]
    exact ⟨nofun, fun h => hne (Option.some.inj h)⟩
  rw [getBinlogAt_record hrec hkey, if_pos rfl, if_neg hlen, hvalue, Option.getD_some]

theorem getBinlogAt_del (hrec : db.get (encodeSeqKey seq) = some (CMD_DEL :: key))
    (hkey : key.length ≤ BINLOG_MAX_VAL_SIZE) (length : Nat) :
    getBinlogAt db seq length = fillMsgAt (syncdelSize key) length syncdelHead [key] := by
  rw [getBinlogAt_record hrec hkey, if_neg (by decide), if_pos rfl]

--
-- Right messages
--

/-- The command a record stands for. -/
def syncCommand (db : Ldb) (seq : Nat) : Option (List Bytes) :=
  match db.get (encodeSeqKey seq) with
  | some (cmd :: key) =>
    if cmd = CMD_SET then (db.get key).map fun value => [ascii "SYNCSET", key, value]
    else if cmd = CMD_DEL then some [ascii "SYNCDEL", key]
    else none
  | _ => none

/-- A message is right: `get_binlog` returns, and where it returns 1 it has written
`*length` bytes, nothing outside the buffer, and what it has written reads as the
command. -/
def MessageRight (db : Ldb) (seq length : Nat) : Prop :=
  ∃ r, getBinlogAt db seq length = .ok r ∧
    (r.ret = 1 → r.tmp = r.length ∧ r.writes.Within 0 length ∧
      ∃ fields, syncCommand db seq = some fields ∧
        ∀ m : Mem, Resp.readArray ((m.write r.writes).load 0 r.length) = some (fields, []))

/-- The record leaves room: its key fits into `r_val`, the length of a value is not
taken for a negative one, and the message does not fill the buffer. -/
def MessageFits (db : Ldb) (seq length : Nat) : Prop :=
  ∀ cmd key, db.get (encodeSeqKey seq) = some (cmd :: key) →
    key.length ≤ BINLOG_MAX_VAL_SIZE ∧
      (cmd = CMD_SET → ∀ value, db.get key = some value → value ≠ [] →
        syncsetSize key value ≤ length →
          0 ≤ toInt32 value.length ∧ (value.length < 2 ^ 31 → syncsetSize key value ≠ length)) ∧
      (cmd = CMD_DEL → syncdelSize key ≠ length)

theorem neg_one_ne_one : (-1 : Int) ≠ 1 := by decide

theorem messageRight_of_ret {r : MsgResult} (h : getBinlogAt db seq length = .ok r)
    (hret : r.ret ≠ 1) : MessageRight db seq length :=
  ⟨r, h, fun hone => absurd hone hret⟩

theorem messageRight_iff_of_fill {bvlen : Nat} {head : Bytes} {puts fields : List Bytes}
    (hfill : getBinlogAt db seq length = fillMsgAt bvlen length head puts) (hne : puts ≠ [])
    (hputs : ∀ put ∈ puts, put.length < 2 ^ 31)
    (hsize : (head ++ (puts.map setBulk).flatten).length = bvlen) (hle : bvlen ≤ length)
    (hcommand : syncCommand db seq = some fields)
    (hread : Resp.readArray (head ++ (puts.map setBulk).flatten) = some (fields, [])) :
    MessageRight db seq length ↔ bvlen ≠ length := by
  obtain ⟨ws, hws, hload, hwithin⟩ := fillMsgAt_ok hne hputs hsize hle
  constructor
  · rintro ⟨r, hr, hright⟩
    rw [hfill, hws] at hr
    obtain rfl := Except.ok.inj hr
    exact hwithin.mp (hright rfl).2.1
  · intro hfull
    refine ⟨_, hfill.trans hws, fun _ => ⟨rfl, hwithin.mpr hfull, fields, hcommand, fun m => ?_⟩⟩
    rw [hload, hread]

theorem readArray_small {fields : List Bytes} (hcount : fields.length ≤ 3)
    (h : ∀ s ∈ fields, s.length < 2 ^ 31) :
    Resp.readArray (Resp.array fields) = some (fields, []) := by
  have hread := Resp.readArray_array fields (by norm_num; omega)
    (fun s hs => (h s hs).trans (by norm_num)) []
  rwa [append_nil] at hread

theorem messageRight_sent (hrec : db.get (encodeSeqKey seq) = some (CMD_SET :: key))
    (hkey : key.length ≤ BINLOG_MAX_VAL_SIZE) (hvalue : db.get key = some value) (hne : value ≠ [])
    (hle : syncsetSize key value ≤ length) :
    MessageRight db seq length ↔ 0 ≤ toInt32 value.length ∧
      (value.length < 2 ^ 31 → syncsetSize key value ≠ length) := by
  have hfill := getBinlogAt_set hrec hkey hvalue hne length
  have hsmall : key.length < 2 ^ 31 := hkey.trans_lt (by decide)
  have hcommand : syncCommand db seq = some [ascii "SYNCSET", key, value] := by
    unfold syncCommand
    rw [hrec]
    show (if CMD_SET = CMD_SET then _ else _) = _
    rw [if_pos rfl, hvalue]
    rfl
  by_cases hlong : value.length < 2 ^ 31
  · rw [messageRight_iff_of_fill hfill (cons_ne_nil _ _) ?_ (syncset_size key value) hle
      hcommand ?_]
    · have hcount : toInt32 value.length = value.length := toInt32_of_lt hlong
      exact ⟨fun h => ⟨by omega, fun _ => h⟩, fun h => h.2 hlong⟩
    · exact forall_mem_cons.mpr ⟨hsmall, forall_mem_singleton.mpr hlong⟩
    · rw [syncset_eq]
      exact readArray_small le_rfl (forall_mem_cons.mpr
        ⟨by decide, forall_mem_cons.mpr ⟨hsmall, forall_mem_singleton.mpr hlong⟩⟩)
  · have hres := fillMsgAt_long hsmall (by omega) hle
    split at hres
    · next hneg =>
      refine iff_of_false ?_ fun h => absurd h.1 (by omega)
      rintro ⟨r, hr, -⟩
      rw [hfill, hres] at hr
      cases hr
    · next hpos =>
      obtain ⟨r, hr, hret⟩ := hres
      exact iff_of_true (messageRight_of_ret (hfill.trans hr) (by omega))
        ⟨by omega, fun h => absurd h hlong⟩

theorem messageRight_set (hrec : db.get (encodeSeqKey seq) = some (CMD_SET :: key))
    (hkey : key.length ≤ BINLOG_MAX_VAL_SIZE) (length : Nat) :
    MessageRight db seq length ↔ ∀ value, db.get key = some value → value ≠ [] →
      syncsetSize key value ≤ length →
        0 ≤ toInt32 value.length ∧ (value.length < 2 ^ 31 → syncsetSize key value ≠ length) := by
  by_cases hlen : leveldbGetLen db key = 0
  · have hresult := getBinlogAt_record hrec hkey length
    rw [if_pos rfl, if_pos hlen] at hresult
    refine iff_of_true (messageRight_of_ret hresult (by decide)) fun value hvalue hne => ?_
    obtain hnone | hnil := leveldbGetLen_eq_zero.mp hlen
    · rw [hnone] at hvalue
      cases hvalue
    · rw [hnil] at hvalue
      exact absurd (Option.some.inj hvalue).symm hne
  · rw [leveldbGetLen_eq_zero, not_or] at hlen
    obtain ⟨value, hvalue⟩ := Option.ne_none_iff_exists'.mp hlen.1
    have hne : value ≠ [] := fun h => hlen.2 (hvalue.trans (congrArg some h))
    have hall : (∀ value', db.get key = some value' → value' ≠ [] →
        syncsetSize key value' ≤ length → 0 ≤ toInt32 value'.length ∧
          (value'.length < 2 ^ 31 → syncsetSize key value' ≠ length)) ↔
        (syncsetSize key value ≤ length → 0 ≤ toInt32 value.length ∧
          (value.length < 2 ^ 31 → syncsetSize key value ≠ length)) := by
      refine ⟨fun h => h value hvalue hne, fun h value' hvalue' _ => ?_⟩
      rw [hvalue] at hvalue'
      rwa [← Option.some.inj hvalue']
    rw [hall]
    by_cases hle : syncsetSize key value ≤ length
    · rw [messageRight_sent hrec hkey hvalue hne hle]
      exact ⟨fun h _ => h, fun h => h hle⟩
    · have hresult := getBinlogAt_set hrec hkey hvalue hne length
      rw [fillMsgAt_fail (by omega)] at hresult
      exact iff_of_true (messageRight_of_ret hresult neg_one_ne_one) fun h => absurd h hle

theorem messageRight_del (hrec : db.get (encodeSeqKey seq) = some (CMD_DEL :: key))
    (hkey : key.length ≤ BINLOG_MAX_VAL_SIZE) (length : Nat) :
    MessageRight db seq length ↔ syncdelSize key ≠ length := by
  have hresult := getBinlogAt_del hrec hkey length
  by_cases hle : syncdelSize key ≤ length
  · have hsmall : key.length < 2 ^ 31 := hkey.trans_lt (by decide)
    have hcommand : syncCommand db seq = some [ascii "SYNCDEL", key] := by
      unfold syncCommand
      rw [hrec]
      show (if CMD_DEL = CMD_SET then _ else _) = _
      rw [if_neg (by decide), if_pos rfl]
    refine messageRight_iff_of_fill hresult (cons_ne_nil _ _) ?_ (syncdel_size key) hle
      hcommand ?_
    · exact forall_mem_singleton.mpr hsmall
    · rw [syncdel_eq]
      exact readArray_small (Nat.le_succ 2)
        (forall_mem_cons.mpr ⟨by decide, forall_mem_singleton.mpr hsmall⟩)
  · rw [fillMsgAt_fail (by omega)] at hresult
    exact iff_of_true (messageRight_of_ret hresult neg_one_ne_one) (by omega)

theorem messageRight_none (h : (db.get (encodeSeqKey seq)).getD [] = []) (length : Nat) :
    MessageRight db seq length := by
  have hresult : getBinlogAt db seq length = .ok ⟨0, 0, [], 0⟩ := by
    unfold getBinlogAt
    rw [h]
  exact messageRight_of_ret hresult (by decide)

theorem not_messageRight_of_long (hrec : db.get (encodeSeqKey seq) = some (cmd :: key))
    (hkey : BINLOG_MAX_VAL_SIZE < key.length) (length : Nat) : ¬ MessageRight db seq length := by
  have hdecode : decodeSeqValue (cmd :: key) = .error .memory := if_neg (by omega)
  have hfault : getBinlogAt db seq length = .error .memory := by
    unfold getBinlogAt
    rw [hrec]
    dsimp only [Option.getD_some]
    rw [hdecode]
  rintro ⟨r, hr, -⟩
  rw [hfault] at hr
  cases hr

/-- **Messages** are right exactly when they leave room in the buffer. -/
theorem message_right_iff (db : Ldb) (seq length : Nat) :
    MessageRight db seq length ↔ MessageFits db seq length := by
  by_cases hnone : (db.get (encodeSeqKey seq)).getD [] = []
  · refine iff_of_true (messageRight_none hnone length) fun cmd key h => ?_
    rw [h] at hnone
    cases hnone
  · obtain ⟨cmd, key, hrec⟩ : ∃ cmd key, db.get (encodeSeqKey seq) = some (cmd :: key) := by
      cases hget : db.get (encodeSeqKey seq) with
      | none => exact absurd (by rw [hget]; rfl) hnone
      | some rec =>
        cases rec with
        | nil => exact absurd (by rw [hget]; rfl) hnone
        | cons cmd key => exact ⟨cmd, key, rfl⟩
    have hone : MessageFits db seq length ↔ key.length ≤ BINLOG_MAX_VAL_SIZE ∧
        (cmd = CMD_SET → ∀ value, db.get key = some value → value ≠ [] →
          syncsetSize key value ≤ length → 0 ≤ toInt32 value.length ∧
            (value.length < 2 ^ 31 → syncsetSize key value ≠ length)) ∧
        (cmd = CMD_DEL → syncdelSize key ≠ length) := by
      refine ⟨fun h => h cmd key hrec, fun h cmd' key' h' => ?_⟩
      rw [hrec] at h'
      obtain ⟨rfl, rfl⟩ := List.cons.inj (Option.some.inj h')
      exact h
    rw [hone]
    by_cases hkey : key.length ≤ BINLOG_MAX_VAL_SIZE
    · by_cases hset : cmd = CMD_SET
      · subst hset
        rw [messageRight_set hrec hkey]
        exact ⟨fun h => ⟨hkey, fun _ => h, fun h' => absurd h' (by decide)⟩, fun h => h.2.1 rfl⟩
      · by_cases hdel : cmd = CMD_DEL
        · subst hdel
          rw [messageRight_del hrec hkey]
          exact ⟨fun h => ⟨hkey, fun h' => absurd h' hset, fun _ => h⟩, fun h => h.2.2 rfl⟩
        · have hresult := getBinlogAt_record hrec hkey length
          rw [if_neg hset, if_neg hdel] at hresult
          exact iff_of_true (messageRight_of_ret hresult neg_one_ne_one)
            ⟨hkey, fun h => absurd h hset, fun h => absurd h hdel⟩
    · exact iff_of_false (not_messageRight_of_long hrec (by omega) length) fun h => hkey h.1

/-- The store after a `SET` of one key. -/
def setDb (key value : Bytes) : Ldb :=
  (OrdMap.empty.insert (encodeSeqKey 1) (CMD_SET :: key)).insert key value

theorem past_end_of {value : Bytes} (hlen : value.length = 33554395) :
    ¬ MessageRight (setDb [107] value) 1 SEND_BUF_SIZE := by
  have hsize : syncsetSize [107] value = SEND_BUF_SIZE := by
    have hkey : getNumberLen [(107 : UInt8)].length = 1 := rfl
    have hdigits : getNumberLen 33554395 = 8 := by decide
    unfold syncsetSize SEND_BUF_SIZE
    rw [hlen, hkey, hdigits, length_singleton]
  have hrec : (setDb [107] value).get (encodeSeqKey 1) = some (CMD_SET :: [107]) := by
    unfold setDb
    rw [OrdMap.get_insert, if_neg (by decide), OrdMap.get_insert, if_pos rfl]
  have hvalue : (setDb [107] value).get [107] = some value := by
    unfold setDb
    rw [OrdMap.get_insert, if_pos rfl]
  have hne : value ≠ [] := ne_nil_of_length_pos (by omega)
  rw [messageRight_sent hrec (by decide) hvalue hne hsize.le]
  exact fun h => h.2 (by omega) hsize

/-- `SET k v..v` with 33554395 bytes: the byte behind `send_buf` is cleared. -/
theorem message_past_end :
    ¬ MessageRight (setDb [107] (List.replicate 33554395 118)) 1 SEND_BUF_SIZE :=
  past_end_of length_replicate

--
-- The function by its result
--

theorem fillMsgAt_msg {bvlen : Nat} {head msg : Bytes} {puts : List Bytes}
    (hlength : length < 2 ^ 31) (hne : puts ≠ [])
    (hsize : (head ++ (puts.map setBulk).flatten).length = bvlen)
    (h : fillMsg bvlen length (head ++ (puts.map setBulk).flatten) = .ok (.msg msg)) :
    ∃ r, fillMsgAt bvlen length head puts = .ok r ∧ r.ret = 1 ∧ r.length = msg.length ∧
      ∀ m : Mem, (m.write r.writes).load 0 r.length = msg := by
  unfold fillMsg at h
  split at h
  · cases h
  · next hle =>
    rw [if_neg (not_not_intro hsize)] at h
    split at h
    · cases h
    · obtain rfl := BinlogRead.msg.inj (Except.ok.inj h)
      have hputs : ∀ put ∈ puts, put.length < 2 ^ 31 := by
        intro put hput
        have hsub : (setBulk put).length ≤ (puts.map setBulk).flatten.length :=
          List.Sublist.length_le (sublist_flatten_of_mem (mem_map_of_mem hput))
        rw [setBulk_length] at hsub
        rw [length_append] at hsize
        omega
      have hle : bvlen ≤ length := by omega
      obtain ⟨ws, hws, hload, -⟩ := fillMsgAt_ok hne hputs hsize hle
      exact ⟨⟨1, bvlen, ws, bvlen⟩, hws, rfl, hsize.symm, hload⟩

theorem decodeSeqValue_some {seqVal : Bytes} (h : decodeSeqValue seqVal = .ok (some (cmd, key))) :
    seqVal = cmd :: key ∧ key.length ≤ BINLOG_MAX_VAL_SIZE := by
  unfold decodeSeqValue at h
  split at h
  · cases h
  · split at h
    · next hkey =>
      obtain ⟨rfl, rfl⟩ := Prod.mk.inj (Option.some.inj (Except.ok.inj h))
      exact ⟨rfl, hkey⟩
    · cases h

theorem getBinlog_msg {msg : Bytes} (hlength : length < 2 ^ 31)
    (h : getBinlog db seq length = .ok (.msg msg)) :
    ∃ r, getBinlogAt db seq length = .ok r ∧ r.ret = 1 ∧ r.length = msg.length ∧
      ∀ m : Mem, (m.write r.writes).load 0 r.length = msg := by
  unfold getBinlog at h
  split at h
  · cases h
  · next binValue hrec =>
    split at h
    · cases h
    · cases h
    · next cmd key hdecode =>
      obtain ⟨hbin, hkey⟩ := decodeSeqValue_some hdecode
      have hrec : db.get (encodeSeqKey seq) = some (cmd :: key) := by
        cases hget : db.get (encodeSeqKey seq) with
        | none =>
          rw [hget] at hbin
          cases hbin
        | some rec =>
          rw [hget] at hbin
          exact congrArg some hbin
      rw [getBinlogAt_record hrec hkey]
      split at h
      · next hset =>
        split at h
        · cases h
        · next hlen =>
          rw [if_pos hset, if_neg hlen]
          have hsize := syncset_size key ((db.get key).getD [])
          have hflat : ([key, (db.get key).getD []].map setBulk).flatten =
              setBulk key ++ (setBulk ((db.get key).getD []) ++ []) := rfl
          rw [append_nil] at hflat
          dsimp only at h
          rw [append_assoc, ← hflat] at h
          exact fillMsgAt_msg hlength (cons_ne_nil _ _) hsize h
      · next hset =>
        split at h
        · next hdel =>
          rw [if_neg hset, if_pos hdel]
          have hflat : ([key].map setBulk).flatten = setBulk key ++ [] := rfl
          rw [append_nil] at hflat
          rw [← hflat] at h
          exact fillMsgAt_msg hlength (cons_ne_nil _ _) (syncdel_size key) h
        · cases h

theorem getBinlog_msg_one : ∃ r, getBinlogAt (setDb [107] [118]) 1 99 = .ok r :=
  (getBinlog_msg (by decide) rfl).imp fun _ => And.left

end Supex.Tsdb
