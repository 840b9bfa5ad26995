import Supex.Lredis.Stream

/-!
# lredis: the commands

Each command of the list has a function that sends its name and its arguments through
`custom_request`. `hmset` has one of its own, which lays the pairs of a table out as
arguments; it hands `self` on to `custom_request`, which is no parameter of it but a
global that nothing sets.

Main result: `encodes_iff`.
-/

namespace Supex.Lredis.Requests

open Supex.Lib List

def commands : List String :=
  ["append", "auth", "bgrewriteaof", "bgsave", "bitcount", "bitop", "blpop", "brpop", "brpoplpush",
    "client", "config", "dbsize", "debug", "decr", "decrby", "del", "discard", "dump", "echo",
    "eval", "exec", "exists", "expire", "expireat", "flushall", "flushdb", "get", "getbit",
    "getrange", "getset", "hdel", "hexists", "hget", "hgetall", "hincrby", "hincrbyfloat", "hkeys",
    "hlen", "hmget", "hscan", "hset", "hsetnx", "hvals", "incr", "incrby", "incrbyfloat", "info",
    "keys", "lastsave", "lindex", "linsert", "llen", "lpop", "lpush", "lpushx", "lrange", "lrem",
    "lset", "ltrim", "mget", "migrate", "monitor", "move", "mset", "msetnx", "multi", "object",
    "persist", "pexpire", "pexpireat", "ping", "psetex", "pttl", "publish", "pubsub", "quit",
    "randomkey", "rename", "renamenx", "restore", "rpop", "rpoplpush", "rpush", "rpushx", "sadd",
    "save", "scan", "scard", "script", "sdiff", "sdiffstore", "select", "set", "setbit", "setex",
    "setnx", "setrange", "shutdown", "sinter", "sinterstore", "sismember", "slaveof", "slowlog",
    "smembers", "smove", "sort", "spop", "srandmember", "srem", "sscan", "strlen", "sunion",
    "sunionstore", "sync", "time", "ttl", "type", "unwatch", "watch", "zadd", "zcard", "zcount",
    "zincrby", "zinterstore", "zrange", "zrangebyscore", "zrank", "zrem", "zremrangebyrank",
    "zremrangebyscore", "zrevrange", "zrevrangebyscore", "zrevrank", "zscan", "zscore",
    "zunionstore", "evalsha", "geoadd", "geopos", "geodist", "georadius", "georadiusbymember",
    "geohash"]

/-- A call of one of `lredis.commands`; the pairs of a table stand in the order of `pairs`. -/
inductive Call where
  | command (cmd : String) (listed : cmd ∈ commands) (args : List Bytes)
  | hmset (hashname : Bytes) (args : List Bytes)
  | hmsetTable (hashname : Bytes) (t : List (Bytes × Bytes))

/-- The bytes that the socket takes in the loop of `custom_request`. -/
def written : List Nat → Bytes → Bytes
  | [], _ => []
  | out :: outs, req =>
    req.take out ++ if req.drop out = [] then [] else written outs (req.drop out)

/-- The first half of `custom_request`: how the loop ends, and what is written. The client
is the numbers that its `send` returns; `nil` has no `network`. -/
def customRequest (client : Option (List Nat)) (args : List Bytes) :
    Option (Except LredisErr Unit × Bytes) := do
  let outs ← client
  if args = [] then return (.error .noCommand, [])
  return (writeLoop (outs.map .sent) (genReq args), written outs (genReq args))

/-- The global. -/
def self : Option (List Nat) := none

/-- `cmds`; one argument of `hmset` is taken for a table, and a string has no `pairs`. -/
def Call.run (outs : List Nat) : Call → Option (Except LredisErr Unit × Bytes)
  | .command cmd _ args => customRequest (some outs) (ascii cmd :: args)
  | .hmset _ [_] => none
  | .hmset hashname args => customRequest self (ascii "hmset" :: hashname :: args)
  | .hmsetTable hashname t =>
    customRequest self (ascii "hmset" :: hashname :: t.flatMap fun kv => [kv.1, kv.2])

--
-- What they are for
--

def Call.name : Call → String
  | .command cmd .. => cmd
  | .hmset .. | .hmsetTable .. => "hmset"

/-- The strings of a request, those of a table in some order. -/
def Call.Items (items : List Bytes) : Call → Prop
  | .command cmd _ args => items = ascii cmd :: args
  | .hmset hashname args => items = ascii "hmset" :: hashname :: args
  | .hmsetTable hashname t => ∃ t' : List (Bytes × Bytes), t'.Perm t ∧
    items = ascii "hmset" :: hashname :: t'.flatMap fun kv => [kv.1, kv.2]

/-- Whatever the socket takes at a time: one array in front of it, and all of it once the
loop ends, as it does when each `send` takes something. -/
def Encodes (c : Call) : Prop :=
  ∀ outs, ∃ items, c.Items items ∧ ∃ res out, c.run outs = some (res, out) ∧
    let req := (Reply.array (items.map Reply.bulk)).encode
    out <+: req ∧ (res = .ok () → out = req) ∧
      ((∀ n ∈ outs, 0 < n) → req.length ≤ outs.length → res = .ok ())

--
-- The loop
--

theorem genReq_eq (args : List Bytes) : genReq args = (Reply.array (args.map .bulk)).encode := by
  have hall : (args.map fun arg => onLine (36 :: decimal arg.length) ++ onLine arg).flatten =
      encodeAll (args.map .bulk) := by
    induction args with
    | nil => rw [map_nil, map_nil, encodeAll, flatten_nil]
    | cons arg args ih =>
      rw [map_cons, flatten_cons, ih, map_cons, encodeAll, Reply.encode]
  rw [genReq, hall, Reply.encode, length_map]

theorem written_le (outs : List Nat) (req : Bytes) : written outs req <+: req := by
  induction outs generalizing req with
  | nil => exact nil_prefix
  | cons out outs ih =>
    rw [written]
    split
    · rw [append_nil]
      exact take_prefix out req
    · conv_rhs => rw [← take_append_drop out req]
      exact prefix_append_right_inj _ |>.mpr (ih _)

theorem written_of_ok {outs : List Nat} {req : Bytes}
    (h : writeLoop (outs.map .sent) req = .ok ()) : written outs req = req := by
  induction outs generalizing req with
  | nil => cases h
  | cons out outs ih =>
    rw [map_cons, writeLoop] at h
    rw [written]
    split at h
    · next hdone =>
      rw [if_pos hdone, append_nil]
      exact take_of_length_le (drop_eq_nil_iff.mp hdone)
    · next hmore => rw [if_neg hmore, ih h, take_append_drop]

theorem writeLoop_ok {outs : List Nat} {req : Bytes} (hpos : ∀ n ∈ outs, 0 < n) (hreq : req ≠ [])
    (hlen : req.length ≤ outs.length) : writeLoop (outs.map .sent) req = .ok () := by
  induction outs generalizing req with
  | nil => exact absurd (length_eq_zero_iff.mp (Nat.le_zero.mp hlen)) hreq
  | cons out outs ih =>
    obtain ⟨hout, hpos⟩ := forall_mem_cons.mp hpos
    rw [map_cons, writeLoop]
    split
    · rfl
    · next hmore =>
      refine ih hpos hmore ?_
      rw [length_cons] at hlen
      rw [length_drop]
      omega

/-- **The request** goes out as one array of bulk strings, but for `hmset`. -/
theorem encodes_iff (c : Call) : Encodes c ↔ c.name ≠ "hmset" := by
  have hlost : ∀ {c : Call}, c.run [] = none → ¬Encodes c := fun hnone h => by
    obtain ⟨_, -, _, _, hrun, -⟩ := h []
    rw [hnone] at hrun
    cases hrun
  cases c with
  | command cmd listed args =>
    refine iff_of_true (fun outs => ⟨_, rfl, _, _, rfl, ?_⟩) ?_
    · rw [← genReq_eq]
      refine ⟨written_le _ _, written_of_ok, fun hpos hlen => writeLoop_ok hpos ?_ hlen⟩
      exact append_ne_nil_of_left_ne_nil (cons_ne_nil _ _) _
    · rintro rfl
      exact absurd listed (by decide)
  | hmset hashname args =>
    refine iff_of_false (hlost ?_) fun h => h rfl
    rw [Call.run.eq_def]
    split <;> first | rfl | contradiction
  | hmsetTable hashname t => exact iff_of_false (hlost rfl) fun h => h rfl

/-- `client:hmset("h", {k = "v"})`. -/
theorem not_encodes_hmset : ¬Encodes (.hmsetTable (ascii "h") [(ascii "k", ascii "v")]) := by
  intro h
  obtain ⟨_, -, _, _, hrun, -⟩ := h []
  cases hrun

end Supex.Lredis.Requests
