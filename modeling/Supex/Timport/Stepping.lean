import Supex.Lib.Memory
import Supex.Timport.Counts
import Mathlib.Order.Interval.Finset.Nat

/-!
# timport — the steps of an index

The elements of an index reply are taken a few at a time: `handle_index_cb` starts
the first step, and when the last child task of a step reports, `task_finish` has
`handle_next_step_index` start the next one. `Task` has these functions as part of a
round; here are the `int`s they count with, the texts and filters that every child
task goes through before it is queued, and the record of the children created.

A child is known by the place of its element in the reply and the place of its key
among the children of the index key. `raise(SIGQUIT)` leaves the children of a step
that breaks off queued and not started.

Main results: `elementLoop_ok`, `index_stepped`, `empty_element_breaks_off`.
-/

namespace Supex.Timport.Stepping

open Supex.Lib List

--
-- The key of a child task
--

def MAX_KEY_SIZE : Nat := 128

/-- What a child task is made with of `timport_key_t`. A parameter is the string of an
element, `none` when it has none. A key filter that fails returns a negative length, a
redis filter a negative server. -/
structure ChildKey where
  key : Bytes
  paramCnt : Int
  paramTmPos : Int
  redisFilter : Option (Option Bytes → Int)
  keyFilter : Option (Bytes → Option Bytes)

/-- The bytes that are copied of a parameter; `memcpy` takes a negative length for an
enormous one. -/
def ChildKey.copied (k : ChildKey) (param : Bytes) : Except Fault Bytes :=
  match k.keyFilter with
  | none => .ok param
  | some f =>
    match f param with
    | some dst => .ok dst
    | none => .error .overflow

/-- A text in `key`, with its NUL. -/
def keyText (text : Bytes) : Except Fault Bytes :=
  if text.length < MAX_KEY_SIZE then .ok text else .error .overflow

/-- `fmt_task_key` of a task with a time; `none` is `-1`. `strcat` goes on where the
first NUL is. -/
def fmtTaskKey (k : ChildKey) (ftime : Bytes) (param : Option Bytes) :
    Except Fault (Option Bytes) :=
  if k.paramCnt = 1 then
    match param with
    | none => do
      let text ← keyText (k.key ++ [58] ++ ftime)
      return some text
    | some param => do
      let dst ← k.copied param
      let text ← keyText (k.key ++ [58] ++ dst)
      return some text
  else
    match param with
    | none => return none
    | some param =>
      if k.paramCnt = 2 ∧ 0 < param.length then
        if k.paramTmPos = 0 then do
          let dst ← k.copied param
          let text ← keyText (k.key ++ [58] ++ ftime ++ [58] ++ dst)
          return some text
        else do
          let dst ← k.copied param
          let text ← keyText (k.key ++ [58] ++ dst)
          let text ← keyText (cstr text ++ [58] ++ ftime)
          return some text
      else return none

/-- `sfd_list[idx]` for the server of the redis filter. -/
def filterServer (k : ChildKey) (param : Option Bytes) : Except Fault Unit :=
  match k.redisFilter with
  | none => .ok ()
  | some f => if 0 ≤ f param ∧ f param < MAX_REDIS_SIZE then .ok () else .error .overflow

--
-- The steps
--

/-- The counters of a `timport_task_t`, and what its children are made of. -/
structure IndexTask where
  elements : List (Option Bytes)
  child : List ChildKey
  ftime : Bytes
  link : Nat
  totalResultCount : Int
  finishResultCount : Int
  totalTaskCount : Int
  finishTaskCount : Int
  nextTaskCount : Int
  step : Int

def IndexTask.childCnt (x : IndexTask) : Int := toInt32 x.child.length

/-- An index task, its children in the order they were queued, those that are
running, and whether the process quits. -/
structure State where
  task : IndexTask
  created : List (Nat × Nat)
  running : List (Nat × Nat)
  quit : Bool

/-- The children of one element; `false` is `goto fail`. -/
def childLoop (ftime : Bytes) (index : Nat) (param : Option Bytes) :
    Nat → List ChildKey → Except Fault (List (Nat × Nat) × Bool)
  | _, [] => .ok ([], true)
  | j, k :: ks => do
    match ← fmtTaskKey k ftime param with
    | none => return ([], false)
    | some _ =>
      filterServer k param
      let (more, ok) ← childLoop ftime index param (j + 1) ks
      return ((index, j) :: more, ok)

/-- The loop over the elements of a step, from `element[index]` on. -/
def elementLoop (x : IndexTask) : Nat → Int → Except Fault (List (Nat × Nat) × Bool)
  | 0, _ => .ok ([], true)
  | i + 1, index =>
    if index < 0 then .error .overflow
    else
      match x.elements[index.toNat]? with
      | none => .error .overflow
      | some param => do
        let (cs, ok) ← childLoop x.ftime index.toNat param 0 x.child
        if ok then
          let (more, ok) ← elementLoop x i (index + 1)
          return (cs ++ more, ok)
        else return (cs, false)

def handleSingleStepIndex (st : State) : Except Fault State :=
  if MAX_REDIS_SIZE ≤ st.task.link then .error .overflow
  else do
    let (cs, ok) ← elementLoop st.task st.task.step.toNat st.task.finishResultCount
    if ok then return { st with created := st.created ++ cs, running := st.running ++ cs }
    else return { st with created := st.created ++ cs, quit := true }

def handleNextStepIndex (st : State) : Except Fault State :=
  let x := { st.task with
    finishResultCount := wrap32 (st.task.finishResultCount + st.task.step) }
  if x.finishResultCount ≥ x.totalResultCount then .ok { st with task := x }
  else
    let left := wrap32 (x.totalResultCount - x.finishResultCount)
    let x := { x with step := if left < x.step then left else x.step }
    let x := { x with nextTaskCount := wrap32 (x.nextTaskCount + wrap32 (x.step * x.childCnt)) }
    handleSingleStepIndex { st with task := x }

/-- `handle_index_cb` for an array; `none` when the task is dropped. -/
def handleIndexCb (link : Nat) (ftime : Bytes) (child : List ChildKey)
    (elements : List (Option Bytes)) : Except Fault (Option State) :=
  if toInt32 child.length ≤ 0 ∨ elements.length = 0 then .ok none
  else do
    let count := toInt32 elements.length
    let step := min count MAX_STEP_COUNT
    let st ← handleSingleStepIndex
      { task :=
          { elements := elements
            child := child
            ftime := ftime
            link := link
            totalResultCount := count
            finishResultCount := 0
            totalTaskCount := wrap32 (count * toInt32 child.length)
            finishTaskCount := 0
            nextTaskCount := wrap32 (0 + wrap32 (step * toInt32 child.length))
            step := step }
        created := []
        running := []
        quit := false }
    return some st

/-- The part of `task_finish` that counts, for a child of the index task. -/
def taskFinish (st : State) : Except Fault State :=
  let x := { st.task with finishTaskCount := wrap32 (st.task.finishTaskCount + 1) }
  if x.nextTaskCount = x.finishTaskCount then handleNextStepIndex { st with task := x }
  else .ok { st with task := x }

/-- A child task finishes; one that is not running does not. -/
def childFinish (st : State) (c : Nat × Nat) : Except Fault State :=
  if c ∈ st.running then taskFinish { st with running := st.running.erase c } else .ok st

--
-- A step
--

/-- A child for every key, for every element from `f` on, `s` of them. -/
def pairs (f s cc : Nat) : List (Nat × Nat) :=
  (List.range' f s).flatMap fun i => (List.range cc).map fun j => (i, j)

theorem pairs_append (f s t cc : Nat) :
    pairs f s cc ++ pairs (f + s) t cc = pairs f (s + t) cc := by
  unfold pairs
  rw [← flatMap_append, range'_append_1]

theorem pairs_succ (f s cc : Nat) :
    pairs f (s + 1) cc = ((List.range cc).map fun j => (f, j)) ++ pairs (f + 1) s cc := by
  unfold pairs
  rw [range'_succ, flatMap_cons]

theorem pairs_length (f s cc : Nat) : (pairs f s cc).length = s * cc := by
  unfold pairs
  simp [length_flatMap]

variable {f s : Nat} {st : State}

theorem mem_pairs {cc : Nat} {c : Nat × Nat} (h : c ∈ pairs f s cc) : f ≤ c.1 ∧ c.1 < f + s := by
  obtain ⟨i, hi, hc⟩ := mem_flatMap.mp h
  obtain ⟨j, -, rfl⟩ := mem_map.mp hc
  exact mem_range'_1.mp hi

/-- The element and the key of a child. -/
def childOf {α β : Type} (es : List α) (ks : List β) (c : Nat × Nat) : Option (α × β) :=
  (es[c.1]?).bind fun e => (ks[c.2]?).map fun k => (e, k)

theorem filterMap_childOf {α β : Type} {es : List α} (h : f < es.length) (ks : List β) :
    ((List.range ks.length).map fun j => (f, j)).filterMap (childOf es ks) =
      ks.map fun k => (es[f], k) := by
  have hrow : (childOf es ks ∘ fun j => (f, j)) =
      (Option.map fun k => (es[f], k)) ∘ fun j => ks[j]? := by
    funext j
    show (es[f]?).bind _ = _
    rw [getElem?_eq_getElem h]
    rfl
  have hkeys : (List.range ks.length).map (fun j => ks[j]?) = ks.map some := by
    refine ext_getElem (by simp) ?_
    intro j hj hj'
    simp
  rw [filterMap_map, hrow, ← filterMap_map, hkeys, filterMap_map]
  exact congrFun filterMap_eq_map ks

theorem pairs_childOf {α β : Type} {es : List α} (ks : List β) (h : f + s ≤ es.length) :
    (pairs f s ks.length).filterMap (childOf es ks) =
      ((es.drop f).take s).flatMap fun e => ks.map fun k => (e, k) := by
  induction s generalizing f with
  | zero => rfl
  | succ s ih =>
    have hf : f < es.length := by omega
    rw [pairs_succ, filterMap_append, filterMap_childOf hf, ih (by omega),
      drop_eq_getElem_cons hf, take_succ_cons, flatMap_cons]

theorem round_step {st : Sys} {t idx : Nat} {x : Task} {k : TKey} {es : List Bytes}
    (hx : st.task t = some x) (hlink : x.rdsLink = some idx) (htkey : x.tkey = some k)
    (hreply : x.reply = some (.array es)) (hidx : idx < MAX_REDIS_SIZE)
    (h : x.finishResultCount + x.step ≤ es.length) :
    Timport.handleSingleStepIndex st t =
      .ok (((pairs x.finishResultCount x.step k.child.length).filterMap
        (childOf es k.child)).foldl (spawn t idx) st) := by
  have hinside : ¬ (MAX_REDIS_SIZE ≤ idx ∨ es.length < x.finishResultCount + x.step) := by omega
  unfold Timport.handleSingleStepIndex
  rw [pairs_childOf k.child h, Sys.get_eq hx, ok_bind, hlink, htkey, hreply]
  exact if_neg hinside

/-- What every child task of an index needs: the servers are in `sfd_list`, a key that
fits can be made of every element, and the tasks can be counted. -/
structure Ready (link : Nat) (ftime : Bytes) (child : List ChildKey) (es : List (Option Bytes)) :
    Prop where
  link : link < MAX_REDIS_SIZE
  texts : ∀ e ∈ es, ∀ k ∈ child, ∃ text, fmtTaskKey k ftime e = .ok (some text)
  servers : ∀ e ∈ es, ∀ k ∈ child, filterServer k e = .ok ()
  count : es.length * child.length < 2 ^ 31

variable {link : Nat} {ftime : Bytes} {child : List ChildKey} {es : List (Option Bytes)}

theorem childLoop_ok {param : Option Bytes} {ks : List ChildKey}
    (htexts : ∀ k ∈ ks, ∃ text, fmtTaskKey k ftime param = .ok (some text))
    (hservers : ∀ k ∈ ks, filterServer k param = .ok ()) (index j : Nat) :
    childLoop ftime index param j ks =
      .ok ((List.range' j ks.length).map fun j => (index, j), true) := by
  induction ks generalizing j with
  | nil => rfl
  | cons k ks ih =>
    obtain ⟨htext, htexts⟩ := forall_mem_cons.mp htexts
    obtain ⟨hserver, hservers⟩ := forall_mem_cons.mp hservers
    obtain ⟨text, htext⟩ := htext
    rw [childLoop, htext, length_cons, range'_succ, map_cons]
    rw [hserver, ih htexts hservers]
    rfl

/-- **The loop of a step** queues a child for every key, for every element in turn. -/
theorem elementLoop_ok {x : IndexTask} (hready : Ready link ftime child es)
    (helements : x.elements = es) (hchild : x.child = child) (hftime : x.ftime = ftime)
    (h : f + s ≤ es.length) : elementLoop x s f = .ok (pairs f s child.length, true) := by
  induction s generalizing f with
  | zero => rfl
  | succ s ih =>
    have hget : x.elements[((f : Int)).toNat]? = some es[f] := by
      rw [Int.toNat_natCast, helements]
      exact getElem?_eq_getElem (by omega)
    have hmem : es[f] ∈ es := getElem_mem (by omega)
    have hloop := childLoop_ok (hready.texts _ hmem) (hready.servers _ hmem) f 0
    rw [elementLoop, if_neg (by omega), hget]
    show (childLoop x.ftime ((f : Int)).toNat es[f] 0 x.child).bind _ = _
    rw [hftime, hchild, Int.toNat_natCast, hloop]
    have hnext := ih (show f + 1 + s ≤ es.length by omega)
    rw [Int.natCast_add, Int.natCast_one] at hnext
    rw [hnext, pairs_succ, range_eq_range']
    rfl

/-- What the steps leave alone. -/
structure Fixed (link : Nat) (ftime : Bytes) (child : List ChildKey) (es : List (Option Bytes))
    (x : IndexTask) : Prop where
  elements_eq : x.elements = es
  child_eq : x.child = child
  ftime_eq : x.ftime = ftime
  link_eq : x.link = link
  totalResult : x.totalResultCount = es.length
  totalTask : x.totalTaskCount = (es.length * child.length : Nat)

theorem handleSingleStepIndex_ok (hready : Ready link ftime child es)
    (hfixed : Fixed link ftime child es st.task) (hfinish : st.task.finishResultCount = f)
    (hstep : st.task.step = s) (h : f + s ≤ es.length) :
    handleSingleStepIndex st =
      .ok { st with
        created := st.created ++ pairs f s child.length
        running := st.running ++ pairs f s child.length } := by
  have hserver : ¬ MAX_REDIS_SIZE ≤ st.task.link := by
    rw [hfixed.link_eq]
    exact Nat.not_le_of_lt hready.link
  rw [handleSingleStepIndex, if_neg hserver, hstep, hfinish, Int.toNat_natCast,
    elementLoop_ok hready hfixed.elements_eq hfixed.child_eq hfixed.ftime_eq h]
  rfl

--
-- Counting
--

theorem Ready.counts (hready : Ready link ftime child es) (hes : es ≠ []) (hchild : child ≠ []) :
    es.length < 2 ^ 31 ∧ child.length < 2 ^ 31 ∧ 0 < es.length ∧ 0 < child.length := by
  have hes := length_pos_iff.mpr hes
  have hchild := length_pos_iff.mpr hchild
  exact ⟨Nat.lt_of_le_of_lt (Nat.le_mul_of_pos_right _ hchild) hready.count,
    Nat.lt_of_le_of_lt (Nat.le_mul_of_pos_left _ hes) hready.count, hes, hchild⟩

theorem Ready.tasks_lt (hready : Ready link ftime child es) {m : Nat} (h : m ≤ es.length) :
    m * child.length < 2 ^ 31 :=
  Nat.lt_of_le_of_lt (Nat.mul_le_mul_right _ h) hready.count

theorem wrap32_natCast {n : Nat} (h : n < 2 ^ 31) : wrap32 n = n :=
  wrap32_of_range (by omega) (by omega)

theorem Ready.next (hready : Ready link ftime child es) (h : f + s ≤ es.length) :
    wrap32 ((f * child.length : Nat) + wrap32 ((s : Int) * (child.length : Int))) =
      ((f + s) * child.length : Nat) := by
  have hs := hready.tasks_lt (show s ≤ es.length by omega)
  have hm := hready.tasks_lt h
  rw [← Int.natCast_mul, wrap32_natCast hs, ← Int.natCast_add, ← Nat.add_mul, wrap32_natCast hm]

--
-- Between the steps
--

/-- The children of the first `m` elements were created. -/
structure Begun (link : Nat) (ftime : Bytes) (child : List ChildKey) (es : List (Option Bytes))
    (st : State) (m : Nat) : Prop where
  fixed : Fixed link ftime child es st.task
  next : st.task.nextTaskCount = (m * child.length : Nat)
  bound : m ≤ es.length
  created : st.created = pairs 0 m child.length
  quit : st.quit = false

/-- The children of the `s` elements from `f` on were started, some are running. -/
structure Going (link : Nat) (ftime : Bytes) (child : List ChildKey) (es : List (Option Bytes))
    (st : State) (f s : Nat) : Prop where
  begun : Begun link ftime child es st (f + s)
  finish : st.task.finishResultCount = f
  step : st.task.step = s
  small : s ≤ MAX_STEP_COUNT
  within : ∀ c ∈ st.running, f ≤ c.1 ∧ c.1 < f + s
  started : 0 ≤ st.task.finishTaskCount
  counted : st.task.finishTaskCount + st.running.length = ((f + s) * child.length : Nat)
  busy : st.running ≠ []

/-- A step is going on, or there is none left. -/
def Underway (link : Nat) (ftime : Bytes) (child : List ChildKey) (es : List (Option Bytes))
    (st : State) : Prop :=
  (∃ f s, Going link ftime child es st f s) ∨
    (Begun link ftime child es st es.length ∧ st.running = [])

/-- **A step starts** when no child is running and all those before have finished. -/
theorem single_going (st : State) (hready : Ready link ftime child es) (hchild : 0 < child.length)
    (hfixed : Fixed link ftime child es st.task) (hfinish : st.task.finishResultCount = f)
    (hstep : st.task.step = s) (hpos : 0 < s) (hsmall : s ≤ MAX_STEP_COUNT)
    (hbound : f + s ≤ es.length) (hnext : st.task.nextTaskCount = ((f + s) * child.length : Nat))
    (hcounted : st.task.finishTaskCount = (f * child.length : Nat))
    (hcreated : st.created = pairs 0 f child.length) (hrunning : st.running = [])
    (hquit : st.quit = false) :
    ∃ st', handleSingleStepIndex st = .ok st' ∧ Going link ftime child es st' f s := by
  have hlen : (pairs f s child.length).length = s * child.length := pairs_length f s _
  refine ⟨_, handleSingleStepIndex_ok hready hfixed hfinish hstep hbound, ?_⟩
  constructor
  case begun =>
    refine ⟨hfixed, hnext, hbound, ?_, hquit⟩
    have happend := pairs_append 0 f s child.length
    rw [Nat.zero_add] at happend
    rw [hcreated, happend]
  case finish => exact hfinish
  case step => exact hstep
  case small => exact hsmall
  case within =>
    intro c hc
    rw [hrunning, nil_append] at hc
    exact mem_pairs hc
  case started =>
    show 0 ≤ st.task.finishTaskCount
    omega
  case counted =>
    rw [hrunning, nil_append, hlen, hcounted, ← Int.natCast_add, ← Nat.add_mul]
  case busy =>
    have hlong : 0 < (pairs f s child.length).length := hlen ▸ Nat.mul_pos hpos hchild
    rw [hrunning, nil_append]
    exact ne_nil_of_length_pos hlong

/-- The counters at the next step. -/
def IndexTask.advance (x : IndexTask) (finish step next : Int) : IndexTask :=
  { x with finishResultCount := finish, step := step, nextTaskCount := next }

theorem Fixed.advance {x : IndexTask} (h : Fixed link ftime child es x) (finish step next : Int) :
    Fixed link ftime child es (x.advance finish step next) :=
  ⟨h.elements_eq, h.child_eq, h.ftime_eq, h.link_eq, h.totalResult, h.totalTask⟩

theorem handleNextStepIndex_last {m : Nat}
    (hm : wrap32 (st.task.finishResultCount + st.task.step) = m)
    (h : st.task.totalResultCount ≤ m) :
    handleNextStepIndex st =
      .ok { st with task := st.task.advance m st.task.step st.task.nextTaskCount } := by
  unfold handleNextStepIndex
  rw [hm, if_pos h]
  rfl

theorem handleNextStepIndex_more (hready : Ready link ftime child es) (hes : es ≠ [])
    (hchild : child ≠ []) (hfixed : Fixed link ftime child es st.task) {m : Nat}
    (hm : wrap32 (st.task.finishResultCount + st.task.step) = m) (hstep : st.task.step = s)
    (hnext : st.task.nextTaskCount = (m * child.length : Nat)) (h : m < es.length) :
    handleNextStepIndex st = handleSingleStepIndex { st with
      task := st.task.advance m (min (es.length - m) s : Nat)
        ((m + min (es.length - m) s) * child.length : Nat) } := by
  obtain ⟨hn, hcc, -, -⟩ := hready.counts hes hchild
  have hleft : wrap32 ((es.length : Int) - m) = (es.length - m : Nat) := by
    rw [← Int.natCast_sub (Nat.le_of_lt h)]
    exact wrap32_natCast (by omega)
  have hmin : (if ((es.length - m : Nat) : Int) < (s : Int) then ((es.length - m : Nat) : Int)
      else s) = (min (es.length - m) s : Nat) := by
    split <;> omega
  have hcounts := hready.next (show m + min (es.length - m) s ≤ es.length by omega)
  unfold handleNextStepIndex IndexTask.childCnt
  dsimp only
  rw [hm, hfixed.totalResult, if_neg (by omega), hleft, hstep, hmin, hfixed.child_eq,
    toInt32_of_lt hcc, hnext, hcounts, ← hfixed.totalResult, ← hfixed.child_eq]
  rfl

/-- **The next step**, when the children of the one before have all finished. -/
theorem handleNextStepIndex_underway (hready : Ready link ftime child es) (hes : es ≠ [])
    (hchild : child ≠ []) (hbegun : Begun link ftime child es st (f + s))
    (hfinish : st.task.finishResultCount = f) (hstep : st.task.step = s) (hpos : 0 < s)
    (hsmall : s ≤ MAX_STEP_COUNT)
    (hcounted : st.task.finishTaskCount = ((f + s) * child.length : Nat))
    (hrunning : st.running = []) :
    ∃ st', handleNextStepIndex st = .ok st' ∧ Underway link ftime child es st' := by
  obtain ⟨hn, -, -, hcpos⟩ := hready.counts hes hchild
  have hbound := hbegun.bound
  have hwrap : wrap32 (st.task.finishResultCount + st.task.step) = (f + s : Nat) := by
    rw [hfinish, hstep, ← Int.natCast_add]
    exact wrap32_natCast (by omega)
  rcases Nat.lt_or_ge (f + s) es.length with hmore | hall
  · rw [handleNextStepIndex_more hready hes hchild hbegun.fixed hwrap hstep hbegun.next hmore]
    obtain ⟨st', hok, hgoing⟩ := single_going (f := f + s) (s := min (es.length - (f + s)) s)
      { st with
        task := st.task.advance (f + s : Nat) (min (es.length - (f + s)) s : Nat)
          ((f + s + min (es.length - (f + s)) s) * child.length : Nat) }
      hready hcpos (hbegun.fixed.advance _ _ _) rfl rfl (by omega) (by omega) (by omega) rfl
      hcounted hbegun.created hrunning hbegun.quit
    exact ⟨st', hok, .inl ⟨_, _, hgoing⟩⟩
  · have hend : f + s = es.length := by omega
    rw [handleNextStepIndex_last hwrap (by rw [hbegun.fixed.totalResult]; omega)]
    refine ⟨_, rfl, .inr ⟨⟨hbegun.fixed.advance _ _ _, ?_, Nat.le_refl _, ?_, hbegun.quit⟩,
      hrunning⟩⟩
    · exact hend ▸ hbegun.next
    · exact hend ▸ hbegun.created

theorem childFinish_underway (hready : Ready link ftime child es) (hes : es ≠ [])
    (hchild : child ≠ []) (h : Underway link ftime child es st) (c : Nat × Nat) :
    ∃ st', childFinish st c = .ok st' ∧ Underway link ftime child es st' := by
  by_cases hc : c ∈ st.running
  case neg => exact ⟨st, if_neg hc, h⟩
  rw [childFinish, if_pos hc]
  obtain ⟨f, s, hgoing⟩ | ⟨-, hover⟩ := h
  case inr =>
    rw [hover] at hc
    cases hc
  have hlen := length_erase_of_mem hc
  have hlong := length_pos_of_mem hc
  have htasks := hready.tasks_lt hgoing.begun.bound
  have hcounted := hgoing.counted
  have hstarted := hgoing.started
  have hwrap : wrap32 (st.task.finishTaskCount + 1) = st.task.finishTaskCount + 1 :=
    wrap32_of_range (by omega) (by omega)
  have hfixed : Fixed link ftime child es
      { st.task with finishTaskCount := st.task.finishTaskCount + 1 } :=
    ⟨hgoing.begun.fixed.elements_eq, hgoing.begun.fixed.child_eq, hgoing.begun.fixed.ftime_eq,
      hgoing.begun.fixed.link_eq, hgoing.begun.fixed.totalResult, hgoing.begun.fixed.totalTask⟩
  unfold taskFinish
  rw [hwrap]
  by_cases hlast : st.task.nextTaskCount = st.task.finishTaskCount + 1
  · -- the last child of the step
    rw [if_pos hlast]
    have hnext := hgoing.begun.next
    have hempty : st.running.erase c = [] := length_eq_zero_iff.mp (by omega)
    have hpos : 0 < s := by
      have := hgoing.within c hc
      omega
    exact handleNextStepIndex_underway hready hes hchild
      ⟨hfixed, hgoing.begun.next, hgoing.begun.bound, hgoing.begun.created, hgoing.begun.quit⟩
      hgoing.finish hgoing.step hpos hgoing.small (hlast.symm.trans hnext) hempty
  · rw [if_neg hlast]
    refine ⟨_, rfl, .inl ⟨f, s, ?_⟩⟩
    constructor
    case begun =>
      exact ⟨hfixed, hgoing.begun.next, hgoing.begun.bound, hgoing.begun.created,
        hgoing.begun.quit⟩
    case finish => exact hgoing.finish
    case step => exact hgoing.step
    case small => exact hgoing.small
    case within => exact fun c' hc' => hgoing.within c' (mem_of_mem_erase hc')
    case started =>
      show 0 ≤ st.task.finishTaskCount + 1
      omega
    case counted =>
      show st.task.finishTaskCount + 1 + ((st.running.erase c).length : Nat) = _
      omega
    case busy =>
      have hnext := hgoing.begun.next
      refine ne_nil_of_length_pos ?_
      show 0 < (st.running.erase c).length
      omega

theorem handleIndexCb_underway (hready : Ready link ftime child es) (hes : es ≠ [])
    (hchild : child ≠ []) :
    ∃ st, handleIndexCb link ftime child es = .ok (some st) ∧ Underway link ftime child es st := by
  obtain ⟨hn, hcc, hnpos, hcpos⟩ := hready.counts hes hchild
  have hmin : min (es.length : Int) MAX_STEP_COUNT = (min es.length MAX_STEP_COUNT : Nat) := by
    omega
  have htotal : wrap32 ((es.length : Int) * child.length) = (es.length * child.length : Nat) := by
    rw [← Int.natCast_mul]
    exact wrap32_natCast hready.count
  have hnext := hready.next (show 0 + min es.length MAX_STEP_COUNT ≤ es.length by omega)
  rw [Nat.zero_mul, Nat.zero_add, Int.natCast_zero] at hnext
  have hgo : ¬ ((child.length : Int) ≤ 0 ∨ es.length = 0) := by omega
  unfold handleIndexCb
  dsimp only
  rw [toInt32_of_lt hcc, toInt32_of_lt hn, if_neg hgo, hmin, htotal, hnext]
  have hstep : 0 < min es.length MAX_STEP_COUNT := Nat.lt_min.mpr ⟨hnpos, by decide⟩
  obtain ⟨st, hok, hgoing⟩ := single_going (f := 0) (s := min es.length MAX_STEP_COUNT)
    ⟨⟨es, child, ftime, link, es.length, 0, (es.length * child.length : Nat), 0,
      (min es.length MAX_STEP_COUNT * child.length : Nat), (min es.length MAX_STEP_COUNT : Nat)⟩,
      [], [], false⟩ hready hcpos ⟨rfl, rfl, rfl, rfl, rfl, rfl⟩ rfl rfl hstep
    (Nat.min_le_right _ _) (by omega) (by rw [Nat.zero_add]) (by rw [Nat.zero_mul]; rfl) rfl rfl
    rfl
  rw [hok]
  exact ⟨st, rfl, .inl ⟨_, _, hgoing⟩⟩

--
-- Every order of reports
--

/-- The children of an index of `n` elements under `cc` keys: those of a beginning of the
elements, in order and each once, and all of them when none is running. -/
structure Stepped (n cc : Nat) (st : State) : Prop where
  created : ∃ m ≤ n, st.created = pairs 0 m cc
  once : st.created.Nodup
  all : st.running = [] → st.created = pairs 0 n cc
  outstanding : (st.running.map Prod.fst).toFinset.card ≤ MAX_STEP_COUNT
  total : st.task.totalTaskCount = (n * cc : Nat)
  next : st.task.nextTaskCount ≤ st.task.totalTaskCount
  quit : st.quit = false

theorem pairs_nodup (f s cc : Nat) : (pairs f s cc).Nodup := by
  refine nodup_flatMap.mpr ⟨fun i _ => ?_, ?_⟩
  · exact nodup_range.map fun a b h => (Prod.mk.injEq .. ▸ h).2
  · have hrange : (List.range' f s).Nodup := nodup_range'
    refine hrange.imp ?_
    intro i i' hne c hc hc'
    obtain ⟨j, -, rfl⟩ := mem_map.mp hc
    obtain ⟨j', -, h⟩ := mem_map.mp hc'
    exact hne (congrArg Prod.fst h).symm

theorem Begun.next_le {m : Nat} (h : Begun link ftime child es st m) :
    st.task.nextTaskCount ≤ st.task.totalTaskCount := by
  have hle : m * child.length ≤ es.length * child.length := Nat.mul_le_mul_right _ h.bound
  rw [h.next, h.fixed.totalTask]
  omega

theorem Going.outstanding (h : Going link ftime child es st f s) :
    (st.running.map Prod.fst).toFinset.card ≤ MAX_STEP_COUNT := by
  have hsub : (st.running.map Prod.fst).toFinset ⊆ Finset.Ico f (f + s) := by
    intro i hi
    obtain ⟨c, hc, rfl⟩ := mem_map.mp (mem_toFinset.mp hi)
    exact Finset.mem_Ico.mpr (h.within c hc)
  calc (st.running.map Prod.fst).toFinset.card
      ≤ (Finset.Ico f (f + s)).card := Finset.card_le_card hsub
    _ = s := by rw [Nat.card_Ico, Nat.add_sub_cancel_left]
    _ ≤ MAX_STEP_COUNT := h.small

theorem Underway.stepped (h : Underway link ftime child es st) :
    Stepped es.length child.length st := by
  obtain ⟨f, s, hgoing⟩ | ⟨hbegun, hover⟩ := h
  · exact ⟨⟨f + s, hgoing.begun.bound, hgoing.begun.created⟩,
      hgoing.begun.created ▸ pairs_nodup .., fun h => (hgoing.busy h).elim, hgoing.outstanding,
      hgoing.begun.fixed.totalTask, hgoing.begun.next_le, hgoing.begun.quit⟩
  · refine ⟨⟨es.length, Nat.le_refl _, hbegun.created⟩, hbegun.created ▸ pairs_nodup ..,
      fun _ => hbegun.created, ?_, hbegun.fixed.totalTask, hbegun.next_le, hbegun.quit⟩
    rw [hover]
    exact Nat.zero_le _

/-- **Index stepping**, over any order of reports. -/
theorem index_stepped (hes : es ≠ []) (hchild : child ≠ []) (hready : Ready link ftime child es)
    (cs : List (Nat × Nat)) :
    ∃ st₀ st, handleIndexCb link ftime child es = .ok (some st₀) ∧
      run childFinish st₀ cs = .ok st ∧ Stepped es.length child.length st := by
  obtain ⟨st₀, hok, h⟩ := handleIndexCb_underway hready hes hchild
  obtain ⟨st, hrun, h⟩ := run_of_along
    (fun st c h (_ : True) => childFinish_underway hready hes hchild h c) h
    (Along.of_forall fun c (_ : c ∈ cs) _ => trivial)
  exact ⟨st₀, st, hok, hrun, h.stepped⟩

/-- Six elements under one key take two steps. -/
theorem index_stepped_six :
    ∃ st₀ st, handleIndexCb 0 [57] [⟨[107], 1, 0, none, none⟩]
        (List.map some [[97], [98], [99], [100], [101], [102]]) = .ok (some st₀) ∧
      run childFinish st₀ [(1, 0), (0, 0), (4, 0), (2, 0), (3, 0), (5, 0)] = .ok st ∧
      Stepped 6 1 st := by
  refine index_stepped (by decide) (by decide) ⟨by decide, ?_, ?_, by decide⟩ _
  · intro e he k hk
    rw [mem_singleton] at hk
    subst hk
    refine ⟨[107, 58] ++ e.getD [], ?_⟩
    revert e
    decide
  · intro e he k hk
    rw [mem_singleton] at hk
    subst hk
    revert e
    decide

/-- **An empty element** ends the steps at a key with two parameters: nothing can be
looked up for it, and the elements behind it get no children. -/
theorem empty_element_breaks_off :
    ∃ st, handleIndexCb 0 [57] [⟨[107], 2, 1, none, none⟩] [some [], some [97]] = .ok (some st) ∧
      st.created = [] ∧ st.running = [] ∧ st.quit = true ∧ ¬ Stepped 2 1 st := by
  refine ⟨_, rfl, rfl, rfl, rfl, fun h => ?_⟩
  have hall := h.all rfl
  revert hall
  decide

end Supex.Timport.Stepping
