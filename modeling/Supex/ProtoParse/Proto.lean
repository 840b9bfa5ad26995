import Supex.Lib.Memory
import Mathlib.Algebra.Order.BigOperators.Group.List

/-!
# proto_parse: framing

`proto_pack` writes the number of elements, their lengths and their bytes behind each
other, into a buffer that is as large as the list says; `proto_parse` walks the lengths
and the bytes with two cursors.

The size of the list is an `int`, and a `size_t` is stored into it; a count of elements
that overflows has no value. `malloc` returns `NULL` for a size below zero only, and what
is read or written outside a buffer has no value.

Main result: `roundTrip_iff`.
-/

namespace Supex.ProtoParse

open List

open Lib (wrap32 wrap32_of_range)

--
-- Lists
--

/-- `struct list`; the length of a node is that of its value. -/
structure NodeList where
  nodes : List Bytes
  textCount : Int

def listcreate : NodeList := ⟨[], 0⟩

def listInsert (list : NodeList) (value : Bytes) : Option NodeList :=
  if list.nodes.length + 1 < 2 ^ 31 then
    some ⟨list.nodes ++ [value], wrap32 (list.textCount + 4 + value.length)⟩
  else none

/-- `proto_append`, of each element. -/
def protoAppend (items : List Bytes) (list : NodeList) : Option NodeList :=
  items.foldlM listInsert list

--
-- The buffer
--

/-- A write behind what was written into a buffer of this size. -/
def put (size : Int) (buf bytes : Bytes) : Option Bytes :=
  if buf.length + bytes.length ≤ size then some (buf ++ bytes) else none

/-- An `int`. -/
def int (n : Nat) : Bytes := leBytes 4 n

/-- `proto_pack`: `set[0]`, the lengths, the values. -/
def protoPack (list : NodeList) : Option Bytes :=
  (int list.nodes.length :: (list.nodes.map (int ·.length) ++ list.nodes)).foldlM
    (put (list.textCount + 4)) []

/-- The `int` at a place of the buffer. -/
def intAt (t : Bytes) (i : Nat) : Option Int :=
  if i + 4 ≤ t.length then some (toInt32 (leVal ((t.drop i).take 4))) else none

/-- The loop of `proto_parse`: the turns left, the two cursors and the list. -/
def parseLoop (t : Bytes) : Nat → Nat → Nat → NodeList → Option NodeList
  | 0, _, _, list => some list
  | n + 1, i, p, list => do
    let l ← intAt t i
    guard (0 ≤ l ∧ p + l.toNat ≤ t.length)
    let list ← listInsert list ((t.drop p).take l.toNat)
    parseLoop t n (i + 4) (p + l.toNat) list

def protoParse (list : NodeList) (t : Bytes) : Option NodeList := do
  let ll ← intAt t 0
  parseLoop t ll.toNat 4 (4 + 4 * ll.toNat) list

/-- The elements are appended, packed and parsed again. -/
def roundTrip (items : List Bytes) : Option (List Bytes) := do
  let list ← protoAppend items listcreate
  let t ← protoPack list
  let list ← protoParse listcreate t
  return list.nodes

--
-- Packing
--

/-- What a list takes. -/
def textSize (items : List Bytes) : Nat := 4 * items.length + items.flatten.length

theorem protoAppend_cases (items : List Bytes) (list : NodeList) :
    protoAppend items list = none ∧ 2 ^ 31 ≤ list.nodes.length + items.length ∨
      protoAppend items list = some ⟨list.nodes ++ items,
        items.foldl (fun c v => wrap32 (c + 4 + v.length)) list.textCount⟩ := by
  unfold protoAppend
  induction items generalizing list with
  | nil => exact .inr (congrArg (fun nodes => some (NodeList.mk nodes _)) (append_nil _).symm)
  | cons v items ih =>
    rw [foldlM_cons, listInsert, length_cons, foldl_cons]
    split
    · next hcount =>
      rcases ih ⟨list.nodes ++ [v], wrap32 (list.textCount + 4 + v.length)⟩ with ⟨h, hle⟩ | h
      · refine .inl ⟨h, ?_⟩
        rw [length_append, length_singleton] at hle
        omega
      · refine .inr (h.trans ?_)
        rw [append_assoc, singleton_append]
    · next hcount => exact .inl ⟨rfl, by omega⟩

theorem textCount_eq (items : List Bytes) (c : Int) :
    items.foldl (fun c v => wrap32 (c + 4 + v.length)) (wrap32 c) =
      wrap32 (c + textSize items) := by
  induction items generalizing c with
  | nil => simp [textSize]
  | cons v items ih =>
    have hwrap : wrap32 (wrap32 c + 4 + v.length) = wrap32 (c + 4 + v.length) := by
      unfold wrap32
      rw [Int.add_assoc, Int.bmod_add_bmod, Int.add_assoc]
    rw [foldl_cons, hwrap, ih]
    congr 1
    simp only [textSize, length_cons, flatten_cons, length_append]
    omega

theorem le_of_foldlM_put {size : Int} {ws : List Bytes} {buf t : Bytes}
    (hbuf : buf.length ≤ size) (h : ws.foldlM (put size) buf = some t) :
    t = buf ++ ws.flatten ∧ t.length ≤ size := by
  induction ws generalizing buf with
  | nil =>
    obtain rfl := Option.some.inj h
    exact ⟨(append_nil _).symm, hbuf⟩
  | cons w ws ih =>
    rw [foldlM_cons, put] at h
    split at h
    · next hw =>
      obtain ⟨rfl, hle⟩ := ih (by rw [length_append]; push_cast; exact hw) h
      exact ⟨by rw [flatten_cons, append_assoc], hle⟩
    · cases h

theorem foldlM_put {size : Int} {ws : List Bytes} {buf : Bytes}
    (h : buf.length + ws.flatten.length ≤ size) :
    ws.foldlM (put size) buf = some (buf ++ ws.flatten) := by
  induction ws generalizing buf with
  | nil => exact congrArg some (append_nil _).symm
  | cons w ws ih =>
    rw [flatten_cons, length_append] at h
    have hput : put size buf w = some (buf ++ w) := if_pos (by omega)
    rw [foldlM_cons, hput, flatten_cons, ← append_assoc]
    refine ih ?_
    rw [length_append]
    omega

/-- What `proto_pack` writes. -/
def packed (items : List Bytes) : Bytes :=
  int items.length ++ ((items.map (int ·.length)).flatten ++ items.flatten)

theorem length_int (n : Nat) : (int n).length = 4 := leBytes_length 4 n

theorem length_ints (items : List Bytes) :
    ((items.map (int ·.length)).flatten).length = 4 * items.length := by
  induction items with
  | nil => rfl
  | cons v items ih =>
    rw [map_cons, flatten_cons, length_append, ih, length_cons, length_int]
    omega

theorem length_packed (items : List Bytes) : (packed items).length = 4 + textSize items := by
  rw [packed, length_append, length_append, length_ints, length_int, textSize]

theorem protoPack_eq (list : NodeList) :
    protoPack list =
      if (textSize list.nodes : Int) ≤ list.textCount then some (packed list.nodes) else none := by
  have hlen := length_packed list.nodes
  have hpacked : packed list.nodes =
      (int list.nodes.length :: (list.nodes.map (int ·.length) ++ list.nodes)).flatten := by
    rw [packed, flatten_cons, flatten_append]
  split
  · next hle =>
    rw [hpacked] at hlen ⊢
    exact @foldlM_put _ _ [] (by rw [hlen, length_nil]; push_cast; omega)
  · next hle =>
    refine Option.eq_none_iff_forall_ne_some.mpr fun t ht => hle ?_
    rw [protoPack, foldlM_cons, put] at ht
    split at ht
    · next hfirst =>
      obtain ⟨rfl, ht⟩ := @le_of_foldlM_put _ _ ([] ++ _) _ (by simpa using hfirst) ht
      rw [nil_append, ← flatten_cons, ← hpacked, hlen] at ht
      omega
    · cases ht

--
-- Parsing
--

theorem intAt_int {n : Nat} (hn : n < 2 ^ 31) (x y : Bytes) :
    intAt (x ++ (int n ++ y)) x.length = some (n : Int) := by
  rw [intAt, if_pos (by simp only [length_append, length_int]; omega), drop_left,
    ← length_int n, take_left, int, leVal_leBytes (by omega), toInt32_of_lt hn]

theorem parseLoop_succ {t : Bytes} {n i p l : Nat} {list list' : NodeList}
    (hl : intAt t i = some (l : Int)) (hp : p + l ≤ t.length)
    (hinsert : listInsert list ((t.drop p).take l) = some list') :
    parseLoop t (n + 1) i p list = parseLoop t n (i + 4) (p + l) list' := by
  rw [parseLoop, hl]
  simp [guard, hp, hinsert]

theorem parseLoop_eq {items : List Bytes} (hlt : ∀ v ∈ items, v.length < 2 ^ 31) (x y : Bytes)
    {list : NodeList} (hcount : list.nodes.length + items.length < 2 ^ 31) :
    ∃ list', parseLoop (x ++ ((items.map (int ·.length)).flatten ++ (y ++ items.flatten)))
        items.length x.length (x ++ ((items.map (int ·.length)).flatten ++ y)).length list =
      some list' ∧ list'.nodes = list.nodes ++ items := by
  induction items generalizing x y list with
  | nil => exact ⟨list, rfl, (append_nil _).symm⟩
  | cons v items ih =>
    obtain ⟨hv, hlt⟩ := forall_mem_cons.mp hlt
    rw [length_cons] at hcount
    have hinsert : listInsert list v =
        some ⟨list.nodes ++ [v], wrap32 (list.textCount + 4 + v.length)⟩ := if_pos (by omega)
    obtain ⟨list', hloop, hnodes⟩ := @ih hlt (x ++ int v.length) (y ++ v)
      ⟨list.nodes ++ [v], wrap32 (list.textCount + 4 + v.length)⟩
      (by rw [length_append, length_singleton]; omega)
    refine ⟨list', ?_, by rw [hnodes, append_assoc, singleton_append]⟩
    simp only [map_cons, flatten_cons, append_assoc] at hloop ⊢
    -- the value stands at the second cursor
    have hsplit : x ++ (int v.length ++ ((items.map (int ·.length)).flatten ++
        (y ++ (v ++ items.flatten)))) = (x ++ (int v.length ++
          ((items.map (int ·.length)).flatten ++ y))) ++ (v ++ items.flatten) := by
      simp only [append_assoc]
    refine (parseLoop_succ (intAt_int hv _ _) ?_
      (by rw [hsplit, drop_left, take_left, hinsert])).trans ?_
    · simp only [length_append]
      omega
    rw [← hloop]
    congr 1
    · rw [length_append, length_int]
    · simp only [length_append]
      omega

--
-- The round trip
--

theorem textSize_lt {items ls : List Bytes} (h : roundTrip items = some ls) :
    textSize items < 2 ^ 31 := by
  obtain ⟨list, happend, h⟩ := Option.bind_eq_some_iff.mp h
  obtain ⟨t, hpack, -⟩ := Option.bind_eq_some_iff.mp h
  rcases protoAppend_cases items listcreate with ⟨hnone, -⟩ | hsome
  · rw [hnone] at happend
    cases happend
  · rw [hsome, Option.some.injEq] at happend
    subst happend
    rw [protoPack_eq] at hpack
    split at hpack
    · next hle =>
      have hwrap : wrap32 (textSize items) < 2 ^ 31 := Int.bmod_lt (by omega)
      have hcount := textCount_eq items 0
      rw [show wrap32 0 = 0 from rfl, Int.zero_add] at hcount
      have hle : (textSize items : Int) ≤ wrap32 (textSize items) := hcount ▸ hle
      omega
    · cases hpack

/-- **Framing.** Elements of less than 2^31 bytes come back if and only if they have less
than 2^31 bytes together with their lengths. -/
theorem roundTrip_iff {items : List Bytes} (h : items.flatten.length < 2 ^ 31) :
    roundTrip items = some items ↔ 4 * items.length + items.flatten.length < 2 ^ 31 := by
  refine ⟨fun hback => textSize_lt hback, fun hlt => ?_⟩
  have hsize : wrap32 (textSize items) = textSize items :=
    wrap32_of_range (by omega) (by unfold textSize; omega)
  have happend : protoAppend items listcreate = some ⟨items, (textSize items : Nat)⟩ := by
    rcases protoAppend_cases items listcreate with ⟨-, hle⟩ | hsome
    · rw [listcreate, length_nil] at hle
      omega
    · have hcount := textCount_eq items 0
      rw [show wrap32 0 = 0 from rfl, Int.zero_add, hsize] at hcount
      rw [hsome, listcreate, nil_append, hcount]
  have hitems : ∀ v ∈ items, v.length < 2 ^ 31 := fun v hv =>
    (sublist_flatten_of_mem hv).length_le.trans_lt h
  obtain ⟨list', hloop, hnodes⟩ := @parseLoop_eq _ hitems (int items.length) []
    listcreate (by rw [listcreate, length_nil]; omega)
  rw [nil_append, append_nil] at hloop
  have hparse : protoParse listcreate (packed items) = some list' := by
    have hcount := intAt_int (n := items.length) (by omega) []
      ((items.map (int ·.length)).flatten ++ items.flatten)
    rw [nil_append, length_nil] at hcount
    rw [protoParse, packed, hcount, Option.bind_eq_bind, Option.bind_some, Int.toNat_natCast]
    rw [length_append, length_ints, length_int] at hloop
    exact hloop
  simp only [roundTrip, happend, protoPack_eq, le_refl, if_true, Option.bind_eq_bind,
    Option.bind_some, hparse, hnodes]
  rfl

/-- Two elements, one of them empty. -/
theorem roundTrip_two : roundTrip [ascii "ab", []] = some [ascii "ab", []] ↔
    4 * [ascii "ab", []].length + [ascii "ab", []].flatten.length < 2 ^ 31 :=
  roundTrip_iff (by decide)

/-- 2^29 empty elements: their lengths alone are too much for the size. -/
theorem not_roundTrip_empty : ¬∀ items : List Bytes, items.flatten.length < 2 ^ 31 →
    roundTrip items = some items := by
  intro h
  have hlt : ∀ n : Nat, 4 * n < 2 ^ 31 := fun n => by
    have hflat : (List.replicate n ([] : Bytes)).flatten = [] := flatten_replicate_nil
    have := textSize_lt (h (List.replicate n []) (by rw [hflat]; exact Nat.two_pow_pos 31))
    rw [textSize, length_replicate] at this
    omega
  exact absurd (hlt (2 ^ 29)) (by decide)

end Supex.ProtoParse
