import Supex.Lib.Bytes

/-!
# cachekv — redis with a local copy

`pull` asks the local store first and redis where that has nothing; what redis
says is put into the local store. `push` runs its commands in redis and then in
the local store.

Both are stores of strings, sets and hashes; a key is used with one type, so that
a store is three maps, and every command succeeds. One server and one hash are
modelled. A key's time to live is looked up and not set: the call is commented
out in the source, so that `setexpiretime` always returns `true, 1`.
-/

namespace Supex.Cachekv

--
-- Stores
--

inductive Cmd where
  | get (key : Bytes)
  | smembers (key : Bytes)
  | hget (key field : Bytes)
  | set (key value : Bytes)
  | sadd (key : Bytes) (members : List Bytes)
  | hset (key field value : Bytes)
  | del (keys : List Bytes)
  | srem (key : Bytes) (members : List Bytes)
  | hdel (key : Bytes) (fields : List Bytes)
  deriving DecidableEq, Repr

/-- The commands of a call: one, or a list of them in a table. -/
inductive Args where
  | one (cmd : Cmd)
  | list (cmds : List Cmd)
  deriving DecidableEq, Repr

/-- A set is kept in the order its members are listed in. -/
structure Store where
  str : Bytes → Option Bytes
  set : Bytes → List Bytes
  nodup : ∀ key, (set key).Nodup
  hash : Bytes → Bytes → Option Bytes

def Store.empty : Store := ⟨fun _ => none, fun _ => [], fun _ => List.nodup_nil, fun _ _ => none⟩

/-- A Lua value, or that a call is not supported. -/
inductive Reply where
  | nil
  | str (value : Bytes)
  | list (members : List Bytes)
  | num (n : Nat)
  | notSupported
  deriving DecidableEq, Repr

def Reply.ofOption : Option Bytes → Reply
  | none => .nil
  | some value => .str value

/-- What a command of reading returns. -/
def Store.reply (s : Store) : Cmd → Reply
  | .get key => .ofOption (s.str key)
  | .smembers key => .list (s.set key)
  | .hget key field => .ofOption (s.hash key field)
  | _ => .nil

/-- What a command makes of the set of a key. -/
def Cmd.onSet (key : Bytes) (l : List Bytes) : Cmd → List Bytes
  | .sadd key' members => if key' = key then members ∪ l else l
  | .srem key' members => if key' = key then l.filter fun m => decide (m ∉ members) else l
  | .del keys => if key ∈ keys then [] else l
  | _ => l

/-- What a command makes of the string of a key. -/
def Cmd.onStr (key : Bytes) (v : Option Bytes) : Cmd → Option Bytes
  | .set key' value => if key' = key then some value else v
  | .del keys => if key ∈ keys then none else v
  | _ => v

/-- What a command makes of the field of a hash. -/
def Cmd.onHash (key field : Bytes) (v : Option Bytes) : Cmd → Option Bytes
  | .hset key' field' value => if key' = key ∧ field' = field then some value else v
  | .hdel key' fields => if key' = key ∧ field ∈ fields then none else v
  | .del keys => if key ∈ keys then none else v
  | _ => v

theorem Cmd.onSet_nodup {key : Bytes} {l : List Bytes} (c : Cmd) (h : l.Nodup) :
    (c.onSet key l).Nodup := by
  unfold Cmd.onSet
  split
  · split
    · exact h.union _
    · exact h
  · split
    · exact h.filter _
    · exact h
  · split
    · exact List.nodup_nil
    · exact h
  · exact h

/-- A command in a store. -/
def Store.exec (s : Store) (c : Cmd) : Store where
  str key := c.onStr key (s.str key)
  set key := c.onSet key (s.set key)
  nodup key := c.onSet_nodup (s.nodup key)
  hash key field := c.onHash key field (s.hash key field)

--
-- pull
--

/-- Redis and the local store. -/
structure Sys where
  redis : Store
  kv : Store

/-- What a call returns: `true`, `false` or `nil`, and a value. -/
abbrev Answer := Option Bool × Reply

/-- `not result or #result == 0`. -/
def Reply.isEmpty : Reply → Bool
  | .nil => true
  | .str value => value.isEmpty
  | .list members => members.isEmpty
  | _ => false

/-- `cmd_map_list`: how the local store takes what redis replied. -/
def fill (kv : Store) : Cmd → Reply → Store
  | .get key, .str value => kv.exec (.set key value)
  | .smembers key, .list members => kv.exec (.sadd key [List.intercalate [32] members])
  | .hget key field, .str value => kv.exec (.hset key field value)
  | _, _ => kv

def Cmd.isRead : Cmd → Bool
  | .get _ => true
  | .smembers _ => true
  | .hget _ _ => true
  | _ => false

def getcachekv (st : Sys) : Args → Answer × Sys
  | .list _ => ((some false, .notSupported), st)
  | .one cmd =>
    if cmd.isRead = false then ((some false, .notSupported), st)
    else
      let result := st.kv.reply cmd
      if result.isEmpty then
        let result := st.redis.reply cmd
        if result.isEmpty then ((some true, result), st)
        else ((some true, result), { st with kv := fill st.kv cmd result })
      else ((some true, result), st)

--
-- push
--

def setexpiretime : Answer := (some true, .num 1)

def setexptm : Cmd → Answer
  | .set _ _ => setexpiretime
  | .sadd _ _ => setexpiretime
  | .hset _ _ _ => setexpiretime
  | _ => (none, .nil)

/-- The loop over a table; the first argument is what is returned behind it. -/
def setexptmAll (answer : Answer) : List Cmd → Answer
  | [] => answer
  | c :: rest =>
    let answer := setexptm c
    if answer.1 = some true then setexptmAll answer rest else answer

/-- A table without a command leaves `ok` unset in the stores. -/
def setcachekv (st : Sys) : Args → Answer × Sys
  | .one cmd => (setexptm cmd, ⟨st.redis.exec cmd, st.kv.exec cmd⟩)
  | .list [] => ((none, .nil), st)
  | .list (c :: rest) =>
    (setexptmAll (some true, .nil) (c :: rest),
      ⟨(c :: rest).foldl Store.exec st.redis, (c :: rest).foldl Store.exec st.kv⟩)

--
-- Calls
--

inductive Op where
  | pull (args : Args)
  | push (args : Args)

def answer (st : Sys) : Op → Answer
  | .pull args => (getcachekv st args).1
  | .push args => (setcachekv st args).1

/-- A call never fails as a whole. -/
def step (st : Sys) : Op → Except Empty Sys
  | .pull args => .ok (getcachekv st args).2
  | .push args => .ok (setcachekv st args).2

/-- Redis with any content, and an empty local store. -/
def start (redis : Store) : Sys := ⟨redis, Store.empty⟩

end Supex.Cachekv
