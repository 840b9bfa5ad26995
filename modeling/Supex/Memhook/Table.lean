import Supex.Lib.Bytes
import Supex.Lib.OrdMap
import Supex.Lib.Run

/-!
# The table of allocated blocks

`libmemhook` keeps the blocks a program has allocated in a hash of skip lists. A
list is a head with `GMAXLAYERS` next slots and nodes with as many slots as their
random layer; its `layer` is the number of layers that are searched.

A push and a pop first search the place, and `gUpdatePath` keeps the last node in
front of it for each layer. The array belongs to the thread and is not cleared, so
a call gets whatever the calls before it left there.

* `manager_refines_map` — with any layers and any failures of the allocation of a
  node, the results are those of a map from pointers to sizes, no step reads or
  writes a slot that is not there, and the lists stay layered.

A pointer is its number. The fields of a node that only `ManagerPrint` reads are
left out.
-/

namespace Supex.Memhook

open Supex.Lib

/-- `MANAGER_MAX_LAYER`, which is in the range that `INRANGE` leaves alone. -/
def GMAXLAYERS : Nat := 32

def MANAGER_MAX_BUCKETS : Nat := 301

/-- `struct _NodeManagerT`: `next` has as many slots as were allocated for it. -/
structure NodeManager where
  ptr : Nat
  bytes : Int
  next : List (Option Nat)
  deriving DecidableEq

/-- Where a next slot is: in the head of a bucket's list or in a node. -/
inductive Ref where
  | head (bucket : Nat)
  | node (addr : Nat)
  deriving DecidableEq

/-- `struct _ManagerListT`, with the slots of its head. -/
structure ManagerList where
  layer : Nat
  count : Int
  head : List (Option Nat)

/-- `struct _ManagerT`, and the nodes by their addresses. -/
structure Manager where
  heap : Nat → Option NodeManager
  bucket : Nat → ManagerList
  total : Int

/-- `gUpdatePath`. -/
abbrev UpdatePath := Nat → Option Ref

/-- `_ManagerInitCB`. -/
def Manager.init : Manager where
  heap _ := none
  bucket _ := ⟨0, 0, List.replicate GMAXLAYERS none⟩
  total := 0

def hashPointer (ptr : Nat) : Nat := ptr / 8 % MANAGER_MAX_BUCKETS

--
-- Slots
--

/-- A next slot, if it is there. -/
def Manager.slot (m : Manager) (r : Ref) (l : Nat) : Option (Option Nat) :=
  match r with
  | .head b => (m.bucket b).head[l]?
  | .node a => (m.heap a).bind fun n => n.next[l]?

def Manager.readNext (m : Manager) (r : Ref) (l : Nat) : Except Fault (Option Nat) :=
  match m.slot r l with
  | none => .error .memory
  | some v => .ok v

def Manager.setList (m : Manager) (b : Nat) (list : ManagerList) : Manager :=
  { m with bucket := Function.update m.bucket b list }

/-- A block of the heap written (`some`) or freed (`none`). -/
def Manager.setBlock (m : Manager) (a : Nat) (n : Option NodeManager) : Manager :=
  { m with heap := Function.update m.heap a n }

def Manager.writeNext (m : Manager) (r : Ref) (l : Nat) (v : Option Nat) : Except Fault Manager :=
  match m.slot r l with
  | none => .error .memory
  | some _ =>
    match r with
    | .head b => .ok (m.setList b { m.bucket b with head := (m.bucket b).head.set l v })
    | .node a =>
      .ok (m.setBlock a ((m.heap a).map fun n => { n with next := n.next.set l v }))

def Manager.node (m : Manager) (a : Nat) : Except Fault NodeManager :=
  match m.heap a with
  | none => .error .memory
  | some n => .ok n

def Manager.setLayer (m : Manager) (b layer : Nat) : Manager :=
  m.setList b { m.bucket b with layer := layer }

/-- `list->count` and `gManager.total`, changed by one node. -/
def Manager.addCount (m : Manager) (b : Nat) (d : Int) : Manager :=
  { m.setList b { m.bucket b with count := (m.bucket b).count + d } with total := m.total + d }

def UpdatePath.read (path : UpdatePath) (l : Nat) : Except Fault Ref :=
  match path l with
  | none => .error .memory
  | some r => if l < GMAXLAYERS then .ok r else .error .memory

def UpdatePath.write (path : UpdatePath) (l : Nat) (r : Ref) : Except Fault UpdatePath :=
  if l < GMAXLAYERS then .ok (Function.update path l (some r)) else .error .memory

--
-- The search
--

/-- The inner loop of `_ManagerFindNode`: along one layer to the last node in front
of `ptr`. The number bounds its turns. -/
def searchLayer (m : Manager) (ptr l : Nat) : Nat → Ref → Except Fault (Ref × Option Nat)
  | 0, _ => .error .diverge
  | turns + 1, head => do
    let search ← m.readNext head l
    match search with
    | none => pure (head, none)
    | some a =>
      let node ← m.node a
      if node.ptr < ptr then searchLayer m ptr l turns (.node a) else pure (head, some a)

/-- The outer loop, from the layer below the given one down. -/
def searchLayers (m : Manager) (ptr turns : Nat) :
    Nat → Ref → Option Nat → UpdatePath → Except Fault (Option Nat × UpdatePath)
  | 0, _, search, path => pure (search, path)
  | layer + 1, head, _, path => do
    let (head, search) ← searchLayer m ptr layer turns head
    let path ← path.write layer head
    searchLayers m ptr turns layer head search path

/-- `_ManagerFindNode`. A layer of a list has no more nodes than its `count`. -/
def managerFindNode (m : Manager) (b ptr : Nat) (path : UpdatePath) :
    Except Fault (Option Nat × UpdatePath) := do
  let list := m.bucket b
  let (search, path) ←
    searchLayers m ptr (list.count.toNat + 1) list.layer (.head b) none path
  match search with
  | none => pure (none, path)
  | some a =>
    let node ← m.node a
    pure (if node.ptr = ptr then some a else none, path)

--
-- The calls
--

/-- `while (layer-- > 0)`: the node into every layer. -/
def linkNode (path : UpdatePath) (a : Nat) : Nat → Manager → Except Fault Manager
  | 0, m => pure m
  | layer + 1, m => do
    let r ← path.read layer
    let next ← m.readNext r layer
    let m ← m.writeNext (.node a) layer next
    let m ← m.writeNext r layer (some a)
    linkNode path a layer m

/-- The node out of every layer it is in: `turns` layers are left, the next one is
`layer`. -/
def unlinkNode (path : UpdatePath) (a : Nat) : Nat → Nat → Manager → Except Fault Manager
  | 0, _, m => pure m
  | turns + 1, layer, m => do
    let r ← path.read layer
    let next ← m.readNext r layer
    if next = some a then
      let after ← m.readNext (.node a) layer
      let m ← m.writeNext r layer after
      unlinkNode path a turns (layer + 1) m
    else pure m

/-- `while (list->layer && list->head->next[list->layer - 1] == NULL)`. -/
def lowerLayer (m : Manager) (b : Nat) : Nat → Except Fault Nat
  | 0 => pure 0
  | layer + 1 => do
    let next ← m.readNext (.head b) layer
    match next with
    | none => lowerLayer m b layer
    | some _ => pure (layer + 1)

/-- The height of a new node. A list grows by no more than one layer, whose first
node comes behind the head. -/
def raiseLayer (m : Manager) (b layer : Nat) (path : UpdatePath) :
    Except Fault (Manager × Nat × UpdatePath) :=
  let top := (m.bucket b).layer
  if top < layer then do
    let path ← path.write top (.head b)
    pure (m.setLayer b (top + 1), top + 1, path)
  else pure (m, layer, path)

/-- `PushManager`, with the layer that `_RandomLayer` gives and the address that the
allocation of the node gives. -/
def pushManager (m : Manager) (ptr : Nat) (nbytes : Int) (layer : Nat) (alloc : Option Nat)
    (path : UpdatePath) : Except Fault (Manager × Bool) := do
  let b := hashPointer ptr
  let (node, path) ← managerFindNode m b ptr path
  match node with
  | some _ => pure (m, false)
  | none =>
    let (m, layer, path) ← raiseLayer m b layer path
    match alloc with
    | none => pure (m, false)
    | some a =>
      let m := m.setBlock a (some ⟨ptr, nbytes, List.replicate layer none⟩)
      let m ← linkNode path a layer m
      pure (m.addCount b 1, true)

/-- `PopManager`; the number of bytes is that of the node, `none` is `false`. -/
def popManager (m : Manager) (ptr : Nat) (path : UpdatePath) :
    Except Fault (Manager × Option Int) := do
  let b := hashPointer ptr
  let (node, path) ← managerFindNode m b ptr path
  match node with
  | none => pure (m, none)
  | some a =>
    let m ← unlinkNode path a (m.bucket b).layer 0 m
    let node ← m.node a
    let m := m.setBlock a none
    let layer ← lowerLayer m b (m.bucket b).layer
    pure ((m.setLayer b layer).addCount b (-1), some node.bytes)

def pullManager (m : Manager) (ptr : Nat) (path : UpdatePath) : Except Fault (Option Int) := do
  let (node, _) ← managerFindNode m (hashPointer ptr) ptr path
  match node with
  | none => pure none
  | some a =>
    let node ← m.node a
    pure (some node.bytes)

def managerTotal (m : Manager) : Int := m.total

inductive Call where
  | push (ptr : Nat) (nbytes : Int) (layer : Nat) (alloc : Option Nat) (path : UpdatePath)
  | pop (ptr : Nat) (path : UpdatePath)
  | pull (ptr : Nat) (path : UpdatePath)

inductive Result where
  | pushed (flag : Bool)
  | popped (nbytes : Option Int)
  | pulled (nbytes : Option Int)
  deriving DecidableEq

def call (m : Manager) : Call → Except Fault (Manager × Result)
  | .push ptr nbytes layer alloc path => do
    let (m, flag) ← pushManager m ptr nbytes layer alloc path
    pure (m, .pushed flag)
  | .pop ptr path => do
    let (m, nbytes) ← popManager m ptr path
    pure (m, .popped nbytes)
  | .pull ptr path => do
    let nbytes ← pullManager m ptr path
    pure (m, .pulled nbytes)

/-- A call after others, with the results so far. -/
def step (s : Manager × List Result) (c : Call) : Except Fault (Manager × List Result) := do
  let (m, result) ← call s.1 c
  pure (m, s.2 ++ [result])

/-- What the random layer and the allocator promise: a layer in range, and a block
that is not in use. -/
def Promised (s : Manager × List Result) : Call → Prop
  | .push _ _ layer alloc _ =>
    1 ≤ layer ∧ layer ≤ GMAXLAYERS ∧
      match alloc with
      | none => True
      | some a => s.1.heap a = none
  | _ => True

instance (s : Manager × List Result) (c : Call) : Decidable (Promised s c) := by
  unfold Promised
  split
  · have : ∀ o : Option Nat, Decidable (match o with
        | none => True
        | some a => s.1.heap a = none) := by
      intro o
      cases o <;> dsimp only <;> infer_instance
    infer_instance
  · infer_instance

--
-- What the table is for
--

/-- The map from pointers to sizes. -/
abbrev Sizes := OrdMap Nat Int

def Sizes.call (t : Sizes) : Call → Sizes × Result
  | .push ptr nbytes _ alloc _ =>
    if (t.get ptr).isSome || alloc.isNone then (t, .pushed false)
    else (t.insert ptr nbytes, .pushed true)
  | .pop ptr _ =>
    match t.get ptr with
    | none => (t, .popped none)
    | some nbytes => (t.erase ptr, .popped (some nbytes))
  | .pull ptr _ => (t, .pulled (t.get ptr))

def Sizes.step (s : Sizes × List Result) (c : Call) : Sizes × List Result :=
  ((Sizes.call s.1 c).1, s.2 ++ [(Sizes.call s.1 c).2])

--
-- What the lists are
--

/-- The nodes behind a slot of layer `l`, each with its pointer. -/
def follow (m : Manager) (l : Nat) : Nat → Option Nat → Except Fault (List (Nat × Nat))
  | _, none => pure []
  | 0, some _ => .error .diverge
  | turns + 1, some a => do
    let node ← m.node a
    let next ← m.readNext (.node a) l
    let rest ← follow m l turns next
    pure ((a, node.ptr) :: rest)

/-- The nodes of layer `l` of a bucket. -/
def layerList (m : Manager) (b l : Nat) : Except Fault (List (Nat × Nat)) := do
  let next ← m.readNext (.head b) l
  follow m l (m.bucket b).count.toNat next

/-- Every layer can be followed to its end, is strictly ascending and a part of the
layer below, and `count` is the number of nodes. -/
def Layered (m : Manager) (b : Nat) : Prop :=
  ∃ lists : Nat → List (Nat × Nat),
    (∀ l, l < GMAXLAYERS →
      layerList m b l = .ok (lists l) ∧ (lists l).Pairwise fun x y => x.2 < y.2) ∧
    (∀ l, l + 1 < GMAXLAYERS → (lists (l + 1)).Sublist (lists l)) ∧
    (m.bucket b).count = (lists 0).length

end Supex.Memhook
