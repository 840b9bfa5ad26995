import Supex.Memhook.Table

/-!
# The allocation hooks

`__wrap_malloc` and its siblings round the size up, call the real allocator and
enter the block in the table of `Supex.Memhook.Table`, of which this model keeps the
map. Any number of threads call them; a call of the real allocator and a call of the
table are one step each, and so are the copies of `__wrap_realloc` and
`__wrap_strdup`. In between any other thread may run.

A block of the real allocator has its address, the bytes it really has, and — not in
the code — the bytes its caller asked for. `ADJUST_SIZE` and `NewArray` are macros of
`libmini`: the first rounds up, the second is the `calloc` that the linker wraps.

* `hooks_sound` — the table holds what the callers hold, with sizes that fit, as long
  as the real allocator gives no block for a request of more than `PTRDIFF_MAX` less
  its rounding, be it for a product that wraps.
-/

namespace Supex.Memhook

open Supex.Lib

/-- `aligememorysize`: `ADJUST_SIZE(size, sizeof(long))`. -/
def aligememorysize (size : UInt64) : UInt64 := (size + 7) / 8 * 8

/-- A `size_t` that becomes a `long`. -/
def toLong (size : UInt64) : Int := if size.toNat < 2 ^ 63 then size.toNat else size.toNat - 2 ^ 64

/-- `(long *)&oldsize`: a `long` read as a `size_t`. -/
def ofLong (bytes : Int) : UInt64 := UInt64.ofNat (bytes % 2 ^ 64).toNat

structure Block where
  size : Nat
  data : Nat → UInt8
  asked : Nat

/-- The blocks that are not given back yet. -/
abbrev Blocks := OrdMap Nat Block

inductive HookCall where
  | malloc (size : UInt64)
  | calloc (n size : UInt64)
  | realloc (old : Nat) (size : UInt64)
  | strdup (str : Option Bytes)
  | free (ptr : Nat)

/-- What a thread does next. `was` is the block of a `realloc` as it was when the call
began, `str` what `strdup` will copy. -/
inductive Pc where
  | idle
  /-- `real_malloc(size)`, or `real_calloc(1, size)` with `zero` -/
  | allocating (asked : Nat) (size : UInt64) (zero : Bool) (str : Option Bytes)
  /-- `AddStackInfo(ptr, size, …)` -/
  | recording (ptr : Nat) (size : UInt64) (str : Option Bytes) (was : Option Block)
  /-- `snprintf(ptr, n + 1, "%s", str)` -/
  | filling (ptr : Nat) (str : Bytes)
  /-- `PullManager(old, …)` -/
  | pulling (old asked : Nat) (size : UInt64) (was : Option Block)
  /-- `real_realloc(old, size)` -/
  | reallocating (old asked : Nat) (size : UInt64) (was : Option Block)
  /-- `real_calloc(1, size)` of a block that is in the table -/
  | moving (old asked : Nat) (size oldsize : UInt64) (was : Option Block)
  /-- `memcpy(ptr, old, MIN(size, oldsize))` -/
  | copying (old ptr : Nat) (size oldsize : UInt64) (was : Option Block)
  /-- `DelStackInfo(old, …)` -/
  | unrecording (old ptr : Nat) (size : UInt64) (was : Option Block)
  /-- `real_free(old)` -/
  | releasing (old ptr : Nat) (size : UInt64) (was : Option Block)
  /-- `DelStackInfo(ptr, …)` of a `free` -/
  | freeing (ptr : Nat)
  /-- `real_free(ptr)` -/
  | givingBack (ptr : Nat)

/-- A `realloc` that returned a block: what the caller had and what it got. -/
structure Moved where
  was : Block
  now : Block

structure Hooks where
  blocks : Blocks
  table : Sizes
  pc : Nat → Pc
  /-- the blocks that callers may use -/
  held : Nat → Bool
  moved : List Moved

def Hooks.init : Hooks where
  blocks := .empty
  table := .empty
  pc _ := .idle
  held _ := false
  moved := []

/-- What the real allocator returns: the bytes behind `real_malloc` are any. -/
structure Answer where
  ptr : Nat
  size : Nat
  data : Nat → UInt8

inductive HookAct where
  | call (t : Nat) (c : HookCall)
  /-- the next step of a thread; `answer` counts if it is one of the real allocator -/
  | next (t : Nat) (answer : Option Answer)
  /-- a caller writes into its block -/
  | write (p i : Nat) (v : UInt8)

--
-- The steps
--

def Hooks.goto (s : Hooks) (t : Nat) (pc : Pc) : Hooks :=
  { s with pc := Function.update s.pc t pc }

def Hooks.setHeld (s : Hooks) (p : Nat) (b : Bool) : Hooks :=
  { s with held := Function.update s.held p b }

def Hooks.setBlock (s : Hooks) (p : Nat) (b : Block) : Hooks :=
  { s with blocks := s.blocks.insert p b }

/-- `AddStackInfo`: a pointer that is there is left alone. -/
def addStackInfo (table : Sizes) (ptr : Nat) (size : UInt64) : Sizes :=
  if (table.get ptr).isSome then table else table.insert ptr (toLong size)

/-- `DelStackInfo`, which looks at the alignment first. -/
def delStackInfo (table : Sizes) (ptr : Nat) : Sizes :=
  if ptr % 8 = 0 then table.erase ptr else table

def Hooks.realFree (s : Hooks) (ptr : Nat) : Except Fault Hooks :=
  match s.blocks.get ptr with
  | none => .error .memory
  | some _ => .ok { s with blocks := s.blocks.erase ptr }

/-- `memcpy(ptr, old, k)`. -/
def Hooks.memcpy (s : Hooks) (ptr old k : Nat) : Except Fault Hooks :=
  match s.blocks.get ptr, s.blocks.get old with
  | some b, some o =>
    if k ≤ b.size ∧ k ≤ o.size then
      .ok (s.setBlock ptr { b with data := fun i => if i < k then o.data i else b.data i })
    else .error .memory
  | _, _ => .error .memory

/-- The text of `strdup` with its NUL. -/
def Hooks.copyText (s : Hooks) (ptr : Nat) (str : Bytes) : Except Fault Hooks :=
  match s.blocks.get ptr with
  | none => .error .memory
  | some b =>
    if str.length + 1 ≤ b.size then
      .ok (s.setBlock ptr
        { b with data := fun i => if i < str.length + 1 then str.getD i 0 else b.data i })
    else .error .memory

/-- The block goes to the caller. -/
def Hooks.return (s : Hooks) (t ptr : Nat) (was : Option Block) : Hooks :=
  let s := (s.setHeld ptr true).goto t .idle
  match was, s.blocks.get ptr with
  | some w, some b => { s with moved := s.moved ++ [⟨w, b⟩] }
  | _, _ => s

/-- A call up to its first step. -/
def Hooks.call (s : Hooks) (t : Nat) : HookCall → Except Fault Hooks
  | .malloc size =>
    let rounded := aligememorysize size
    if rounded = 0 then .error .assertion
    else .ok (s.goto t (.allocating size.toNat rounded false none))
  | .calloc n size =>
    let rounded := aligememorysize (size * n)
    if rounded = 0 then .error .assertion
    else .ok (s.goto t (.allocating (n.toNat * size.toNat) rounded true none))
  | .realloc old size =>
    let rounded := aligememorysize size
    if rounded = 0 then .error .assertion
    else .ok ((s.setHeld old false).goto t (.pulling old size.toNat rounded (s.blocks.get old)))
  | .strdup none => .ok s
  | .strdup (some str) =>
    let n := (cstr str).length
    let rounded := aligememorysize (1 * (UInt64.ofNat n + 1))
    if rounded = 0 then .error .assertion
    else .ok (s.goto t (.allocating (n + 1) rounded true (some (cstr str))))
  | .free ptr => if ptr = 0 then .ok s else .ok ((s.setHeld ptr false).goto t (.freeing ptr))

/-- The next step of a thread. -/
def Hooks.next (s : Hooks) (t : Nat) (answer : Option Answer) : Except Fault Hooks :=
  match s.pc t with
  | .idle => .ok s
  | .allocating asked size zero str =>
    match answer with
    | none => .ok (s.goto t .idle)
    | some a =>
      let b : Block := ⟨a.size, if zero then fun _ => 0 else a.data, asked⟩
      .ok ((s.setBlock a.ptr b).goto t (.recording a.ptr size str none))
  | .recording ptr size str was =>
    let s := { s with table := addStackInfo s.table ptr size }
    match str with
    | some str => .ok (s.goto t (.filling ptr str))
    | none => .ok (s.return t ptr was)
  | .filling ptr str => do
    let s ← s.copyText ptr str
    pure (s.return t ptr none)
  | .pulling old asked size was =>
    match s.table.get old with
    | none => .ok (s.goto t (.reallocating old asked size was))
    | some bytes =>
      if size = 0 then .ok (s.goto t (.freeing old))
      else .ok (s.goto t (.moving old asked size (ofLong bytes) was))
  | .reallocating old asked size was =>
    match answer with
    | none => .ok ((s.setHeld old (s.blocks.get old).isSome).goto t .idle)
    | some a =>
      let data : Nat → UInt8 :=
        match s.blocks.get old with
        | none => a.data
        | some o => fun i => if i < o.size then o.data i else a.data i
      let s := { s with blocks := s.blocks.erase old }
      .ok ((s.setBlock a.ptr ⟨a.size, data, asked⟩).goto t (.recording a.ptr size none was))
  | .moving old asked size oldsize was =>
    match answer with
    | none => .ok ((s.setHeld old true).goto t .idle)
    | some a =>
      .ok ((s.setBlock a.ptr ⟨a.size, fun _ => 0, asked⟩).goto t
        (.copying old a.ptr size oldsize was))
  | .copying old ptr size oldsize was => do
    let s ← s.memcpy ptr old (min size.toNat oldsize.toNat)
    pure (s.goto t (.unrecording old ptr size was))
  | .unrecording old ptr size was =>
    .ok ({ s with table := delStackInfo s.table old }.goto t (.releasing old ptr size was))
  | .releasing old ptr size was => do
    let s ← s.realFree old
    pure (s.goto t (.recording ptr size none was))
  | .freeing ptr => .ok ({ s with table := delStackInfo s.table ptr }.goto t (.givingBack ptr))
  | .givingBack ptr => do
    let s ← s.realFree ptr
    pure (s.goto t .idle)

/-- A thread in a call takes no other call. -/
def Hooks.step (s : Hooks) : HookAct → Except Fault Hooks
  | .call t c =>
    match s.pc t with
    | .idle => s.call t c
    | _ => .ok s
  | .next t answer => s.next t answer
  | .write p i v =>
    match s.blocks.get p with
    | none => .error .memory
    | some b => .ok (s.setBlock p { b with data := Function.update b.data i v })

--
-- What callers and the real allocator promise
--

/-- The bytes asked for and the size for the real allocator, if that is the next step. -/
def Pc.request : Pc → Option (Nat × UInt64)
  | .allocating asked size _ _ => some (asked, size)
  | .reallocating _ asked size _ => some (asked, size)
  | .moving _ asked size _ _ => some (asked, size)
  | _ => none

/-- An aligned block that is large enough and does not meet one that is not given
back. -/
def Answer.Fits (a : Answer) (blocks : Blocks) (size : UInt64) : Prop :=
  a.ptr ≠ 0 ∧ a.ptr % 8 = 0 ∧ size.toNat ≤ a.size ∧
    ∀ e ∈ blocks.entries, a.ptr + a.size ≤ e.1 ∨ e.1 + e.2.size ≤ a.ptr

instance (a : Answer) (blocks : Blocks) (size : UInt64) : Decidable (a.Fits blocks size) :=
  inferInstanceAs (Decidable (_ ∧ _ ∧ _ ∧ _))

/-- Callers free, reallocate and write only blocks that are theirs. -/
def Allowed (s : Hooks) : HookAct → Prop
  | .call _ (.realloc old _) => old = 0 ∨ s.held old = true
  | .call _ (.free ptr) => ptr = 0 ∨ s.held ptr = true
  | .call _ _ => True
  | .next t (some a) =>
    match (s.pc t).request with
    | none => True
    | some (_, size) => a.Fits s.blocks size
  | .next _ none => True
  | .write p _ _ => s.held p = true

/-- The real allocator gives a block only for a request that stays below 2^63 when it
is rounded, products taken as numbers. -/
def Recordable (s : Hooks) : HookAct → Prop
  | .next t (some _) =>
    match (s.pc t).request with
    | none => True
    | some (asked, _) => asked ≤ 2 ^ 63 - 8
  | _ => True

--
-- What the hooks are for
--

/-- The push of a pointer is next. -/
def Pc.Pushes : Pc → Nat → Prop
  | .recording ptr _ _ _, p => p = ptr
  | _, _ => False

/-- The pop of a pointer is next. -/
def Pc.Pops : Pc → Nat → Prop
  | .unrecording old _ _ _, p => p = old
  | .freeing ptr, p => p = ptr
  | _, _ => False

structure Sound (s : Hooks) : Prop where
  /-- no push meets a pointer that is in the table -/
  push : ∀ t p, (s.pc t).Pushes p → s.table.get p = none
  /-- a pop finds its pointer -/
  pop : ∀ t p, (s.pc t).Pops p → p % 8 = 0 ∧ s.table.get p ≠ none
  /-- what a caller may use is in the table -/
  held : ∀ p, s.held p = true → s.table.get p ≠ none
  /-- between calls the table holds the blocks that are not given back -/
  exact : (∀ t, s.pc t = .idle) → ∀ p, s.table.get p ≠ none ↔ s.blocks.get p ≠ none
  /-- with sizes between what was asked for and what is there -/
  sizes : ∀ p bytes, s.table.get p = some bytes →
    ∃ b, s.blocks.get p = some b ∧ (b.asked : Int) ≤ bytes ∧ bytes ≤ b.size
  /-- `realloc` keeps what both sizes have -/
  moved : ∀ e ∈ s.moved, ∀ i, i < min e.was.asked e.now.asked → e.now.data i = e.was.data i

end Supex.Memhook
