import Supex.Timport.Table

/-!
# The decoder on any string

`decode_impl` copies what stands in front of the first `*` and behind it into `str_xy`,
and `strtol` reads a number from each part. It then walks over as many fields as their
product says, with the end of each field as an `int`. A string without a `*`, with a part
too long for `str_xy`, with a product that is no `int` or with too few fields leads it out
of the string or of its buffers.

Places in the string are numbers; what is outside an object, or an `int` that overflows,
has no value.

Main result: `safe_iff`.
-/

namespace Supex.Timport.Decoder

open Supex.Lib Table List
open Option (bind_eq_bind bind_some bind_none)

/-- `Property`: `data` is a place in the string. -/
structure Property where
  data : Nat
  len : Int

/-- `memcpy(&str_xy[..], src + from, len)`. -/
def memcpyXy (xy : Bytes) (pos : Nat) (src : Bytes) (start len : Int) : Option Bytes :=
  if 0 ≤ start ∧ 0 ≤ len ∧ start + len ≤ src.length + 1 then
    copyXy xy pos (((src ++ [0]).drop start.toNat).take len.toNat)
  else none

/-- `parse_header`: `*x` and `*y`. -/
def parseHeader (src : Bytes) : Option (Int × Int) := do
  let star ← strchr src star
  let len := wrap32 star
  let xy ← memcpyXy (List.replicate 20 0) 0 src 0 len
  let stop ← strchr src at'
  let len' := wrap32 (stop - len - 1)
  let xy ← memcpyXy xy 10 src (len + 1) len'
  let x ← stringIn xy
  let y ← stringIn (xy.drop 10)
  return (wrap32 (strtolAuto x), wrap32 (strtolAuto y))

/-- `ptr - tmp`, or `strlen(tmp)`. -/
def fieldLen (tmp : Bytes) : Nat :=
  match strchr tmp sep with
  | some ptr => ptr
  | none => tmp.length

/-- The loop of `decode_impl`, from `tmp` on. -/
def decodeLoop (src : Bytes) : Nat → Int → Option (List Property)
  | 0, _ => some []
  | n + 1, tmp =>
    if 0 ≤ tmp ∧ tmp ≤ src.length then do
      let len := wrap32 (fieldLen (src.drop tmp.toNat))
      let more ← decodeLoop src n (tmp + len + 1)
      return ⟨tmp.toNat, len⟩ :: more
    else none

/-- What `decode_impl` returns, `*x`, `*y` and `*ppro`. -/
structure Decoded where
  ret : Int
  x : Int
  y : Int
  pro : List Property

/-- `decode_impl`; `malloc` says which sizes there is memory for. -/
def decodeImpl (malloc : Nat → Bool) (src : Bytes) : Option Decoded := do
  let (x, y) ← parseHeader src
  if x ≤ 0 ∨ y ≤ 0 then return ⟨1, x, y, []⟩
  let count ← int (x.toNat * y.toNat)
  guard (malloc (16 * count))
  let stop ← strchr src at'
  let pro ← decodeLoop src count (stop + 1)
  return ⟨0, x, y, pro⟩

--
-- What it is for
--

def Inside (src : Bytes) (p : Property) : Prop := 0 ≤ p.len ∧ p.data + p.len ≤ src.length

/-- `x*y@`, and as many fields. -/
def IsTable (src : Bytes) : Prop :=
  ∃ xs ys body, src = xs ++ star :: (ys ++ at' :: body) ∧ (∀ b ∈ xs, isDigit b = true) ∧
    (∀ b ∈ ys, isDigit b = true) ∧ 0 < digitsVal xs * digitsVal ys ∧
    digitsVal xs * digitsVal ys ≤ (body.splitOn sep).length

/-- `decode_impl` stays inside, reports what is inside, and refuses what is no table. -/
def Safe (malloc : Nat → Bool) (src : Bytes) : Prop :=
  ∃ d, decodeImpl malloc src = some d ∧ (∀ p ∈ d.pro, Inside src p) ∧ (¬IsTable src → d.ret ≠ 0)

/-- `str_xy` with the two parts in it; the first may run into the place of the second. -/
def strXy (xs ys : Bytes) : Bytes :=
  (xs ++ List.replicate (20 - xs.length) 0).take 10 ++ ys ++
    (xs ++ List.replicate (20 - xs.length) 0).drop (10 + ys.length)

/-- The number of a part, as an `int`. -/
def number (s : Bytes) : Int := wrap32 (strtolAuto (cstr s))

/-- The first `n` fields are there and end where an `int` says. -/
def Fields (n : Nat) (body : Bytes) : Prop :=
  n ≤ (body.splitOn sep).length ∧
    (∀ f ∈ (body.splitOn sep).take (n - 1), f.length < 2 ^ 31) ∧
    ∀ f, (body.splitOn sep)[n - 1]? = some f → 0 ≤ wrap32 f.length

/-- The parts have room in `str_xy`; a number is not positive, or it is a table that has
memory and whose fields are there. -/
def Sound (malloc : Nat → Bool) (src : Bytes) : Prop :=
  ∃ i j : Nat, strchr src star = some i ∧ strchr src at' = some j ∧
    ∃ l m : Nat, wrap32 i = l ∧ l < 20 ∧ wrap32 (j - l - 1) = m ∧ m < 10 ∧
      let xy := strXy (src.take l) ((src.drop (l + 1)).take m)
      let x := number xy
      let y := number (xy.drop 10)
      x ≤ 0 ∨ y ≤ 0 ∨
        IsTable src ∧ x.toNat * y.toNat < 2 ^ 31 ∧ malloc (16 * (x.toNat * y.toNat)) = true ∧
          Fields (x.toNat * y.toNat) (src.drop (j + 1))

--
-- A field
--

variable {src s f : Bytes}

/-- `f` is what stands in front of the first `|` of `s`. -/
def First (s f : Bytes) : Prop := sep ∉ f ∧ (s = f ∨ ∃ t, s = f ++ sep :: t)

theorem exists_first (s : Bytes) : ∃ f, First s f := by
  by_cases h : sep ∈ s
  · obtain ⟨f, t, hs, hf⟩ := eq_append_cons_of_mem h
    exact ⟨f, hf, .inr ⟨t, hs⟩⟩
  · exact ⟨s, h, .inl rfl⟩

theorem First.fieldLen (h : First s f) : fieldLen s = f.length := by
  obtain ⟨hf, rfl | ⟨t, rfl⟩⟩ := h
  · rw [Decoder.fieldLen, strchr, if_neg hf]
  · rw [Decoder.fieldLen, strchr_append hf]

theorem First.drop (h : First s f) {k : Nat} (hk : k ≤ f.length) : First (s.drop k) (f.drop k) := by
  obtain ⟨hf, hs⟩ := h
  refine ⟨fun hmem => hf (mem_of_mem_drop hmem), ?_⟩
  rcases hs with rfl | ⟨t, rfl⟩
  · exact .inl rfl
  · exact .inr ⟨t, drop_append_of_le_length hk⟩

theorem First.length_le (h : First s f) : f.length ≤ s.length := by
  obtain ⟨-, rfl | ⟨t, rfl⟩⟩ := h
  · exact le_refl _
  · rw [length_append]
    exact Nat.le_add_right _ _

theorem fields_one (h : First s f) : Fields 1 s ↔ 0 ≤ wrap32 f.length := by
  have hlen : 1 ≤ (s.splitOn sep).length :=
    length_pos_of_ne_nil (splitOn_ne_nil sep s)
  have hget : (s.splitOn sep)[0]? = some f := by
    obtain ⟨hf, rfl | ⟨t, rfl⟩⟩ := h
    · rw [splitOn_eq_singleton hf]
      rfl
    · rw [splitOn_append_cons_self_of_not_mem hf]
      rfl
  rw [Fields, Nat.sub_self, take_zero, hget]
  exact ⟨fun h => h.2.2 f rfl, fun h => ⟨hlen, nofun, by rintro _ ⟨⟩; exact h⟩⟩

theorem fields_succ (n : Nat) (h : First s f) :
    Fields (n + 2) s ↔ f.length < 2 ^ 31 ∧ ∃ t, s = f ++ sep :: t ∧ Fields (n + 1) t := by
  obtain ⟨hf, rfl | ⟨t, rfl⟩⟩ := h
  · rw [Fields, splitOn_eq_singleton hf]
    refine iff_of_false (fun h => absurd h.1 (by rw [length_singleton]; omega)) ?_
    rintro ⟨-, t, ht, -⟩
    rw [ht] at hf
    exact hf (mem_append_right _ (.head _))
  · have hsplit := splitOn_append_cons_self_of_not_mem hf t
    have hfields : Fields (n + 2) (f ++ sep :: t) ↔ f.length < 2 ^ 31 ∧ Fields (n + 1) t := by
      have hcount : n + 2 ≤ (t.splitOn sep).length + 1 ↔ n + 1 ≤ (t.splitOn sep).length := by
        omega
      simp only [Fields, hsplit, length_cons, hcount, Nat.add_sub_cancel,
        show n + 2 - 1 = n + 1 from rfl, take_succ_cons, forall_mem_cons,
        getElem?_cons_succ]
      tauto
    rw [hfields]
    refine and_congr_right fun _ => ⟨fun h => ⟨t, rfl, h⟩, ?_⟩
    rintro ⟨t', ht', h⟩
    rwa [List.cons.inj (append_cancel_left ht') |>.2]

--
-- The walk over the fields
--

theorem wrap32_emod (x : Int) : wrap32 x % 4294967296 = x % 4294967296 := Int.bmod_emod

theorem wrap32_bounds (x : Int) : -2147483648 ≤ wrap32 x ∧ wrap32 x < 2147483648 :=
  ⟨Int.le_bmod (by decide), Int.bmod_lt (by decide)⟩

theorem wrap32_le {x : Int} (hlo : -2147483648 ≤ x) (h : 0 ≤ wrap32 x) : wrap32 x ≤ x := by
  have hmod := wrap32_emod x
  have hbounds := wrap32_bounds x
  omega

theorem le_of_wrap32 {i l : Nat} (h : wrap32 i = l) : l ≤ i := by
  have hle := @wrap32_le i (by omega) (by omega)
  omega

theorem le_of_wrap32_sub {j l m : Nat} (hl : l ≤ 20) (h : wrap32 (j - l - 1) = m) :
    l + 1 + m ≤ j := by
  have hle := @wrap32_le (j - l - 1) (by omega) (by omega)
  omega

theorem wrap32_left {n k : Nat} (hlong : ¬n < 2 ^ 31) (hk : wrap32 n = k) :
    k + 1 ≤ n ∧ wrap32 (n - (k + 1) : Nat) < 0 := by
  have hmod := wrap32_emod n
  have hbounds := wrap32_bounds n
  have hmod' := wrap32_emod (n - (k + 1) : Nat)
  have hbounds' := wrap32_bounds (n - (k + 1) : Nat)
  omega

/-- The loop stays in the string, and so do the fields it finds. -/
def Walks (src : Bytes) (n : Nat) (tmp : Int) : Prop :=
  ∃ pro, decodeLoop src n tmp = some pro ∧ ∀ p ∈ pro, Inside src p

theorem walks_zero (tmp : Int) : Walks src 0 tmp := ⟨[], rfl, nofun⟩

variable {n tmp : Nat}

theorem walks_succ (h : tmp ≤ src.length) (hf : First (src.drop tmp) f) :
    Walks src (n + 1) tmp ↔ Inside src ⟨tmp, wrap32 f.length⟩ ∧
      Walks src n (tmp + wrap32 f.length + 1) := by
  rw [Walks, decodeLoop, if_pos ⟨by omega, by omega⟩, Int.toNat_natCast, hf.fieldLen]
  constructor
  · rintro ⟨_, hloop, hall⟩
    obtain ⟨pro, hpro, h⟩ := Option.bind_eq_some_iff.mp hloop
    obtain rfl := Option.some.inj h
    exact ⟨hall _ (.head _), pro, hpro, fun p hp => hall p (.tail _ hp)⟩
  · rintro ⟨hin, pro, hpro, hall⟩
    exact ⟨_ :: pro, by simp only [hpro]; rfl, forall_mem_cons.mpr ⟨hin, hall⟩⟩

theorem not_walks (h : (src.length : Int) < tmp) : ¬Walks src (n + 1) tmp := by
  rintro ⟨pro, hloop, -⟩
  rw [decodeLoop, if_neg (by omega)] at hloop
  cases hloop

theorem stays_iff (h : tmp ≤ src.length) (hf : First (src.drop tmp) f) :
    Inside src ⟨tmp, wrap32 f.length⟩ ↔ 0 ≤ wrap32 f.length := by
  have hlen := hf.length_le
  rw [length_drop] at hlen
  rw [Inside]
  dsimp only
  refine and_iff_left_of_imp fun h0 => ?_
  have hle := wrap32_le (by omega) h0
  omega

theorem not_walks_long (h : tmp ≤ src.length) (hf : First (src.drop tmp) f)
    (hlong : ¬f.length < 2 ^ 31) : ¬Walks src (n + 2) tmp := by
  intro hwalks
  rw [walks_succ h hf, stays_iff h hf] at hwalks
  obtain ⟨h0, hwalks⟩ := hwalks
  obtain ⟨k, hk⟩ := Int.eq_ofNat_of_zero_le h0
  obtain ⟨hle, hneg⟩ := wrap32_left hlong hk
  have hlen := hf.length_le
  rw [length_drop] at hlen
  have hnext := hf.drop hle
  rw [drop_drop] at hnext
  rw [hk, show (tmp : Int) + k + 1 = ((tmp + (k + 1) : Nat) : Int) by push_cast; omega,
    walks_succ (by omega) hnext, stays_iff (by omega) hnext] at hwalks
  rw [← length_drop] at hneg
  exact absurd hwalks.1 (not_le_of_gt hneg)

theorem walks_iff (h : tmp ≤ src.length) :
    Walks src (n + 1) tmp ↔ Fields (n + 1) (src.drop tmp) := by
  induction n generalizing tmp with
  | zero =>
    obtain ⟨f, hf⟩ := exists_first (src.drop tmp)
    rw [walks_succ h hf, stays_iff h hf, fields_one hf, and_iff_left (walks_zero _)]
  | succ n ih =>
    obtain ⟨f, hf⟩ := exists_first (src.drop tmp)
    rw [fields_succ n hf]
    by_cases hlong : f.length < 2 ^ 31
    · have hwrap : wrap32 f.length = f.length := wrap32_of_range (by omega) (by omega)
      have hlen := hf.length_le
      rw [length_drop] at hlen
      have hnext : (tmp : Int) + f.length + 1 = ((tmp + f.length + 1 : Nat) : Int) := by
        rfl
      rw [walks_succ h hf, stays_iff h hf, hwrap, hnext, and_iff_right hlong,
        and_iff_right (by omega)]
      obtain ⟨hfree, hs | ⟨t, ht⟩⟩ := hf
      · -- the last field: the next one would be behind the NUL
        refine iff_of_false (not_walks ?_) ?_
        · have := congrArg List.length hs
          rw [length_drop] at this
          omega
        · rintro ⟨t, ht, -⟩
          rw [hs] at ht
          exact hfree (ht ▸ mem_append_right _ (.head _))
      · have hdrop : src.drop (tmp + f.length + 1) = t := by
          rw [Nat.add_assoc, ← drop_drop, ht, drop_append_cons]
        have hlt := congrArg List.length ht
        rw [length_drop, length_append, length_cons] at hlt
        rw [ih (by omega), hdrop, ht]
        refine ⟨fun h => ⟨t, rfl, h⟩, ?_⟩
        rintro ⟨t', ht', h⟩
        rwa [(List.cons.inj (append_cancel_left ht')).2]
    · exact iff_of_false (not_walks_long h hf hlong) fun h => hlong h.1

--
-- The header
--

variable {xy part : Bytes} {i j l m pos : Nat} {x y : Int}

theorem strchr_lt {c : UInt8} (h : strchr src c = some i) : i < src.length := by
  rw [strchr] at h
  split at h
  · next hc =>
    obtain ⟨s, t, rfl, hs⟩ := eq_append_cons_of_mem hc
    have htake := strchr_append (t := t) hs
    rw [strchr, if_pos hc, h] at htake
    rw [Option.some.inj htake, length_append, length_cons]
    omega
  · cases h

theorem memcpyXy_eq (h : i + l ≤ src.length) :
    memcpyXy xy pos src i l = copyXy xy pos ((src.drop i).take l) := by
  rw [memcpyXy, if_pos ⟨by omega, by omega, by omega⟩, Int.toNat_natCast, Int.toNat_natCast,
    drop_append_of_le_length (by omega),
    take_append_of_le_length (by rw [length_drop]; omega)]

theorem nonneg_of_memcpyXy {start len : Int} {out : Bytes}
    (h : memcpyXy xy pos src start len = some out) : 0 ≤ len := by
  rw [memcpyXy] at h
  split at h
  · next hle => exact hle.2.1
  · cases h

theorem nul_mem_iff {xs ys : Bytes} (hx : 0 ∉ xs) (hy : 0 ∉ ys) (hxs : xs.length ≤ 20) :
    0 ∈ (strXy xs ys).drop 10 ↔ xs.length < 20 ∧ ys.length < 10 := by
  have hlen : ((xs ++ List.replicate (20 - xs.length) (0 : UInt8)).take 10).length = 10 := by
    rw [length_take, length_append, length_replicate]
    omega
  rw [strXy, append_assoc, drop_left' hlen, mem_append, or_iff_right hy,
    drop_append, drop_replicate, mem_append,
    or_iff_right fun h => hx (mem_of_mem_drop h), mem_replicate, eq_self, and_true]
  omega

theorem memcpyXy_first (h : l ≤ src.length) :
    memcpyXy (List.replicate 20 0) 0 src 0 l =
      if l ≤ 20 then some (src.take l ++ List.replicate (20 - l) 0) else none := by
  have hcopy := @memcpyXy_eq src (List.replicate 20 0) 0 l 0 (by omega)
  have hlen : (src.take l).length = l := by
    rw [length_take]
    omega
  rw [Nat.cast_zero, drop_zero, copyXy, hlen, length_replicate, Nat.zero_add,
    take_zero, nil_append, drop_replicate] at hcopy
  exact hcopy

theorem memcpyXy_second (h : l + 1 + m ≤ src.length) (hl : l ≤ 20) :
    memcpyXy (src.take l ++ List.replicate (20 - l) 0) 10 src (l + 1) m =
      if m ≤ 10 then some (strXy (src.take l) ((src.drop (l + 1)).take m)) else none := by
  have hcopy := @memcpyXy_eq src (src.take l ++ List.replicate (20 - l) 0) (l + 1) m 10 h
  have hlen : (src.take l).length = l := by
    rw [length_take]
    omega
  have hpart : ((src.drop (l + 1)).take m).length = m := by
    rw [length_take, length_drop]
    omega
  have hroom : 10 + m ≤ l + (20 - l) ↔ m ≤ 10 := by omega
  rw [Nat.cast_add, Nat.cast_one, copyXy, length_append, length_replicate, hlen, hpart]
    at hcopy
  rw [hcopy, strXy, hlen, hpart]
  simp only [hroom]

theorem numbers_eq (xy : Bytes) :
    ((stringIn xy).bind fun x => (stringIn (xy.drop 10)).bind fun y =>
        some (wrap32 (strtolAuto x), wrap32 (strtolAuto y))) =
      if 0 ∈ xy.drop 10 then some (number xy, number (xy.drop 10)) else none := by
  by_cases hy : 0 ∈ xy.drop 10
  · rw [stringIn, if_pos (mem_of_mem_drop hy), stringIn, if_pos hy, if_pos hy]
    rfl
  · rw [if_neg hy, stringIn.eq_1 (xy.drop 10), if_neg hy]
    exact Option.bind_fun_none _

theorem parseHeader_eq (h : 0 ∉ src) (hi : strchr src star = some i) (hj : strchr src at' = some j)
    (hl : wrap32 i = l) (hm : wrap32 (j - l - 1) = m) :
    parseHeader src =
      if l < 20 ∧ m < 10 then
        some (number (strXy (src.take l) ((src.drop (l + 1)).take m)),
          number ((strXy (src.take l) ((src.drop (l + 1)).take m)).drop 10))
      else none := by
  have hilt := strchr_lt hi
  have hjlt := strchr_lt hj
  have hli := le_of_wrap32 hl
  rw [parseHeader, hi, bind_eq_bind, bind_some]
  simp only [hl, memcpyXy_first (by omega : l ≤ src.length), hj]
  by_cases hl20 : l ≤ 20
  · have hmj := le_of_wrap32_sub hl20 hm
    have hx : 0 ∉ src.take l := fun hmem => h (mem_of_mem_take hmem)
    have hy : 0 ∉ (src.drop (l + 1)).take m := fun hmem =>
      h (mem_of_mem_drop (mem_of_mem_take hmem))
    have hxlen : (src.take l).length = l := by
      rw [length_take]
      omega
    have hylen : ((src.drop (l + 1)).take m).length = m := by
      rw [length_take, length_drop]
      omega
    have hnul := nul_mem_iff hx hy (by omega)
    rw [hxlen, hylen] at hnul
    rw [if_pos hl20, bind_eq_bind, bind_some, bind_some]
    simp only [hm, memcpyXy_second (by omega : l + 1 + m ≤ src.length) hl20]
    by_cases hm10 : m ≤ 10
    · rw [if_pos hm10, bind_some]
      exact (numbers_eq _).trans (if_congr hnul rfl rfl)
    · rw [if_neg hm10, if_neg fun h => hm10 (by omega), bind_none]
  · rw [if_neg hl20, if_neg fun h => hl20 (by omega), bind_eq_bind, bind_none]

theorem parseHeader_iff (h : 0 ∉ src) :
    parseHeader src = some (x, y) ↔
      ∃ i j : Nat, strchr src star = some i ∧ strchr src at' = some j ∧
        ∃ l m : Nat, wrap32 i = l ∧ l < 20 ∧ wrap32 (j - l - 1) = m ∧ m < 10 ∧
          number (strXy (src.take l) ((src.drop (l + 1)).take m)) = x ∧
          number ((strXy (src.take l) ((src.drop (l + 1)).take m)).drop 10) = y := by
  constructor
  · intro hp
    obtain ⟨i, hi, hstage⟩ := Option.bind_eq_some_iff.mp hp
    obtain ⟨base, hbase, hstage⟩ := Option.bind_eq_some_iff.mp hstage
    obtain ⟨j, hj, hstage⟩ := Option.bind_eq_some_iff.mp hstage
    obtain ⟨xy, hxy, -⟩ := Option.bind_eq_some_iff.mp hstage
    obtain ⟨l, hl⟩ := Int.eq_ofNat_of_zero_le (nonneg_of_memcpyXy hbase)
    rw [hl] at hxy
    obtain ⟨m, hm⟩ := Int.eq_ofNat_of_zero_le (nonneg_of_memcpyXy hxy)
    rw [parseHeader_eq h hi hj hl hm] at hp
    split at hp
    · next hroom =>
      obtain ⟨hx, hy⟩ := Prod.mk.inj (Option.some.inj hp)
      exact ⟨i, j, hi, hj, l, m, hl, hroom.1, hm, hroom.2, hx, hy⟩
    · cases hp
  · rintro ⟨i, j, hi, hj, l, m, hl, hl20, hm, hm10, rfl, rfl⟩
    rw [parseHeader_eq h hi hj hl hm, if_pos ⟨hl20, hm10⟩]

--
-- The decoder
--

theorem decodeImpl_refuses {malloc : Nat → Bool} (hp : parseHeader src = some (x, y))
    (hxy : x ≤ 0 ∨ y ≤ 0) : Safe malloc src := by
  refine ⟨⟨1, x, y, []⟩, ?_, nofun, fun _ => one_ne_zero⟩
  simp only [decodeImpl, hp, bind_eq_bind, bind_some, if_pos hxy]
  rfl

theorem safe_of_pos {malloc : Nat → Bool} (hp : parseHeader src = some (x, y))
    (hj : strchr src at' = some j) (hxy : ¬(x ≤ 0 ∨ y ≤ 0)) :
    Safe malloc src ↔ IsTable src ∧ x.toNat * y.toNat < 2 ^ 31 ∧
      malloc (16 * (x.toNat * y.toNat)) = true ∧ Fields (x.toNat * y.toNat) (src.drop (j + 1)) := by
  have hjlt := strchr_lt hj
  obtain ⟨n, hn⟩ : ∃ n, x.toNat * y.toNat = n + 1 :=
    Nat.exists_eq_succ_of_ne_zero (Nat.mul_ne_zero (by omega) (by omega))
  have hwalks := @walks_iff src n (j + 1) (by omega)
  rw [Nat.cast_add, Nat.cast_one] at hwalks
  rw [hn, ← hwalks]
  simp only [Safe, decodeImpl, hp, hj, hn, bind_eq_bind, bind_some, if_neg hxy]
  constructor
  · rintro ⟨d, hd, hin, htable⟩
    obtain ⟨count, hcount, hd⟩ := Option.bind_eq_some_iff.mp hd
    obtain ⟨_, hmalloc, hd⟩ := Option.bind_eq_some_iff.mp hd
    obtain ⟨pro, hpro, hd⟩ := Option.bind_eq_some_iff.mp hd
    obtain rfl := Option.some.inj hd
    have hint : x.toNat * y.toNat < 2 ^ 31 := by
      by_contra hlong
      rw [hn] at hlong
      rw [int_of_not_lt hlong] at hcount
      cases hcount
    rw [← hn, int_of_lt hint] at hcount
    obtain rfl := Option.some.inj hcount
    have hmem : malloc (16 * (n + 1)) = true := by
      by_contra hfail
      rw [hn, guard, if_neg hfail] at hmalloc
      cases hmalloc
    exact ⟨by_contra fun h => htable h rfl, by omega, hmem, pro, hn ▸ hpro, hin⟩
  · rintro ⟨htable, hint, hmalloc, pro, hpro, hin⟩
    refine ⟨⟨0, x, y, pro⟩, ?_, hin, fun h => absurd htable h⟩
    rw [int_of_lt hint, bind_some, hmalloc, hpro]
    rfl

/-- **The decoder is safe** on the strings whose header it can keep and whose fields are all
there, or whose numbers it refuses. -/
theorem safe_iff (malloc : Nat → Bool) (h : 0 ∉ src) : Safe malloc src ↔ Sound malloc src := by
  constructor
  · intro hsafe
    obtain ⟨d, hd, -⟩ := id hsafe
    obtain ⟨⟨x, y⟩, hp, -⟩ := Option.bind_eq_some_iff.mp hd
    obtain ⟨i, j, hi, hj, l, m, hl, hl20, hm, hm10, rfl, rfl⟩ := (parseHeader_iff h).mp hp
    refine ⟨i, j, hi, hj, l, m, hl, hl20, hm, hm10, ?_⟩
    rw [← or_assoc]
    exact or_iff_not_imp_left.mpr fun hxy => (safe_of_pos hp hj hxy).mp hsafe
  · rintro ⟨i, j, hi, hj, l, m, hl, hl20, hm, hm10, hxy⟩
    have hp := (parseHeader_iff h).mpr ⟨i, j, hi, hj, l, m, hl, hl20, hm, hm10, rfl, rfl⟩
    rw [← or_assoc] at hxy
    rcases Classical.em (_ ∨ _) with hneg | hpos
    · exact decodeImpl_refuses hp hneg
    · exact (safe_of_pos hp hj hpos).mpr (hxy.resolve_left hpos)

/-- `1*1@a`. -/
theorem safe_iff_one :
    Safe (fun _ => true) [49, star, 49, at', 97] ↔ Sound (fun _ => true) [49, star, 49, at', 97] :=
  safe_iff _ (by decide)

/-- `1*2@a`: the second field would be behind the NUL. -/
theorem not_safe_few : ¬Safe (fun _ => true) [49, star, 50, at', 97] := by
  rintro ⟨d, hd, -⟩
  have hnone : (decodeImpl (fun _ => true) [49, star, 50, at', 97]).isNone = true := by
    decide +kernel
  rw [hd] at hnone
  cases hnone

end Supex.Timport.Decoder
