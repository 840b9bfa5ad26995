import Supex.Lib.Delimited
import Supex.Lib.Memory
import Supex.Lib.Strtol
import Mathlib.Algebra.BigOperators.Group.List.Basic

/-!
# timport — tables as strings

`set_to_string` writes the rows of a reply into one string: the number of rows and of
columns, then the rows, with a `|` behind each. `decode_impl` of the Lua decoder reads
the two numbers and cuts the rest at the `|`s; the rows have them between their columns,
so that the rows come back if `get_column_count` counts as the decoder cuts.

The decoder keeps ten bytes for each of the two numbers, and none for a NUL behind a
number of ten digits.

A string has at most `INT_MAX` characters; `int`s that overflow have no value, and what
is read behind the end of an object has none.

Main result: `table_iff`.
-/

namespace Supex.Timport.Table

open Supex.Lib List
open Option (bind_eq_bind bind_some)

--
-- timport
--

/-- An `int`. -/
def int (n : Nat) : Option Nat := if n < 2 ^ 31 then some n else none

/-- `'|'`. -/
def sep : UInt8 := 124

/-- `'*'`. -/
def star : UInt8 := 42

/-- `'@'`. -/
def at' : UInt8 := 64

/-- An element of the reply: `str`, and `len`, the length of `str`. -/
structure Row where
  str : Bytes
  nul_free : (0 : UInt8) ∉ str
  len_lt : str.length < 2 ^ 31

/-- The loop of `get_column_count`; at the end of the string there is no `sep`. -/
def columnLoop (sep : UInt8) : Bytes → Nat
  | [] => 0
  | _ :: row => 1 + columnLoop sep (row.dropWhile (· ≠ sep))
  termination_by row => row.length
  decreasing_by
    rw [length_cons]
    exact Nat.lt_succ_of_le (dropWhile_sublist _).length_le

def getColumnCount (row : Bytes) (sep : UInt8) : Nat :=
  if row.head? = some sep then 0 else columnLoop sep row

def totalLen : Nat → List Row → Option Nat
  | total, [] => some total
  | total, r :: rs => do
    let total ← int (total + (r.str.length + 1))
    totalLen total rs

/-- The loop that copies the rows behind `str`; the inner `none` is `-1`. -/
def copyLoop (total cols : Nat) (ignoreError : Bool) : Bytes → List Row → Option (Option Bytes)
  | str, [] => some (some str)
  | str, r :: rs => do
    let len ← int (str.length + r.str.length)
    if total ≤ len then return none
    if cols ≠ getColumnCount r.str sep ∧ ignoreError = false then return none
    copyLoop total cols ignoreError (str ++ r.str ++ [sep]) rs

/-- `struct redis_reply` of a string: what is written, and the size of the buffer. -/
structure Reply where
  str : Bytes
  size : Nat

/-- `"%ld*%d@"`. -/
def header (elements cols : Nat) : Bytes :=
  fmtLong (Int.bmod elements (2 ^ 64)) ++ star :: fmtLong cols ++ [at']

/-- `set_to_string`; the inner `none` is `-1`. The loops go up to `(int)elements`. -/
def setToString (src : List Row) (ignoreError : Bool) : Option (Option Reply) :=
  match src with
  | [] => some none
  | first :: _ => do
    let rows := src.take (toInt32 src.length).toNat
    let total ← totalLen 32 rows
    let cols := getColumnCount first.str sep
    if cols = 0 then return none
    let str ← copyLoop total cols ignoreError (header src.length cols) rows
    return str.map (⟨·, total⟩)

--
-- The decoder
--

/-- `strchr(s, c) - s`. -/
def strchr (s : Bytes) (c : UInt8) : Option Nat :=
  if c ∈ s then some (s.takeWhile (· ≠ c)).length else none

/-- `memcpy` into `str_xy`. -/
def copyXy (xy : Bytes) (pos : Nat) (s : Bytes) : Option Bytes :=
  if pos + s.length ≤ xy.length then some (xy.take pos ++ s ++ xy.drop (pos + s.length)) else none

/-- The string at the start of a buffer. -/
def stringIn (buf : Bytes) : Option Bytes := if 0 ∈ buf then some (cstr buf) else none

/-- `parse_header`, of a string that has both characters: `*x` and `*y`. The two parts of
`str_xy` stand one behind the other. -/
def parseHeader (src : Bytes) : Option (Int × Int) := do
  let len ← strchr src star
  let stop ← strchr src at'
  guard (len < stop)
  let xy ← copyXy (List.replicate 20 0) 0 (src.take len)
  let xy ← copyXy xy 10 ((src.drop (len + 1)).take (stop - len - 1))
  let x ← stringIn xy
  let y ← stringIn (xy.drop 10)
  return (wrap32 (strtolAuto x), wrap32 (strtolAuto y))

/-- The loop of `decode_impl` from `tmp` on: `data` and `len` of each property. -/
def decodeLoop : Nat → Bytes → Option (List Bytes)
  | 0, _ => some []
  | n + 1, tmp =>
    match strchr tmp sep with
    | some len => do
      let more ← decodeLoop n (tmp.drop (len + 1))
      return tmp.take len :: more
    | none => if n = 0 then some [tmp] else none

/-- What `decode_impl` returns, `*x`, `*y` and the properties. -/
structure Decoded where
  ret : Int
  x : Int
  y : Int
  fields : List Bytes

def decodeImpl (src : Bytes) : Option Decoded := do
  let (x, y) ← parseHeader src
  if x ≤ 0 ∨ y ≤ 0 then return ⟨1, x, y, []⟩
  let count ← int (x.toNat * y.toNat)
  let stop ← strchr src at'
  let fields ← decodeLoop count (src.drop (stop + 1))
  return ⟨0, x, y, fields⟩

--
-- What they are for
--

/-- The string is inside its buffer, and its rows come back, `cols` columns each. -/
def RoundTrip (src : List Row) (cols : Nat) (reply : Reply) : Prop :=
  reply.str.length < reply.size ∧
    ∃ fields, decodeImpl reply.str = some ⟨0, src.length, cols, fields⟩ ∧
      fields.length = src.length * cols ∧
      ∀ i r, src[i]? = some r →
        List.intercalate [sep] ((fields.drop (i * cols)).take cols) = r.str

--
-- Columns
--

theorem columnLoop_dropWhile (c : UInt8) (row : Bytes) :
    columnLoop c (row.dropWhile (· ≠ c)) = row.count c := by
  induction row with
  | nil => rw [dropWhile_nil, columnLoop, count_nil]
  | cons b row ih =>
    by_cases hb : b = c
    · rw [hb, dropWhile_cons, if_neg (by simp), columnLoop, ih, count_cons_self,
        Nat.add_comm]
    · rw [dropWhile_cons, if_pos (by simpa using hb), ih, count_cons_of_ne hb]

theorem getColumnCount_cons {b c : UInt8} (rest : Bytes) (h : b ≠ c) :
    getColumnCount (b :: rest) c = rest.count c + 1 := by
  have hhead : (b :: rest).head? ≠ some c := fun heq => h (Option.some.inj heq)
  rw [getColumnCount, if_neg hhead, columnLoop, columnLoop_dropWhile, Nat.add_comm]

theorem getColumnCount_cases (row : Bytes) (c : UInt8) :
    getColumnCount row c = 0 ∨
      ∃ b rest, row = b :: rest ∧ b ≠ c ∧ getColumnCount row c = rest.count c + 1 := by
  cases row with
  | nil => exact .inl (by rw [getColumnCount, if_neg nofun, columnLoop])
  | cons b rest =>
    by_cases hb : b = c
    · exact .inl (if_pos (congrArg some hb))
    · exact .inr ⟨b, rest, rfl, hb, getColumnCount_cons rest hb⟩

theorem getColumnCount_le (row : Bytes) (c : UInt8) : getColumnCount row c ≤ row.length := by
  rcases getColumnCount_cases row c with h | ⟨b, rest, rfl, -, h⟩
  · rw [h]
    exact Nat.zero_le _
  · rw [h, length_cons]
    exact Nat.succ_le_succ count_le_length

theorem getColumnCount_of_pos {row : Bytes} {c : UInt8} (h : 0 < getColumnCount row c) :
    getColumnCount row c = row.count c + 1 := by
  rcases getColumnCount_cases row c with h0 | ⟨b, rest, rfl, hb, heq⟩
  · omega
  · rw [heq, count_cons_of_ne hb]

--
-- What `set_to_string` writes
--

variable {cols n : Nat} {rows : List Row} {reply : Reply}

theorem int_of_lt (h : n < 2 ^ 31) : int n = some n := if_pos h

theorem int_of_not_lt (h : ¬n < 2 ^ 31) : int n = none := if_neg h

/-- The rows, each with its `|`. -/
def body (rows : List Row) : Bytes := rows.flatMap fun r => r.str ++ [sep]

theorem body_cons (r : Row) (rs : List Row) : body (r :: rs) = r.str ++ sep :: body rs := by
  rw [body, flatMap_cons, append_assoc, singleton_append]
  rfl

theorem length_body_cons (r : Row) (rs : List Row) :
    (body (r :: rs)).length = r.str.length + 1 + (body rs).length := by
  rw [body_cons, length_append, length_cons]
  omega

theorem totalLen_eq (total : Nat) (rows : List Row) (h : total < 2 ^ 31) :
    totalLen total rows =
      if total + (body rows).length < 2 ^ 31 then some (total + (body rows).length) else none := by
  induction rows generalizing total with
  | nil => exact (if_pos h).symm
  | cons r rs ih =>
    rw [totalLen, length_body_cons]
    by_cases hr : total + (r.str.length + 1) < 2 ^ 31
    · rw [int_of_lt hr, bind_eq_bind, bind_some, ih _ hr, Nat.add_assoc]
    · rw [int_of_not_lt hr, if_neg (by omega)]
      rfl

theorem copyLoop_cons (total cols : Nat) (str : Bytes) (r : Row) (rs : List Row) :
    copyLoop total cols false str (r :: rs) =
      if str.length + r.str.length < 2 ^ 31 then
        if str.length + r.str.length < total ∧ getColumnCount r.str sep = cols then
          copyLoop total cols false (str ++ r.str ++ [sep]) rs
        else some none
      else none := by
  rw [copyLoop]
  by_cases hint : str.length + r.str.length < 2 ^ 31
  · rw [int_of_lt hint, bind_eq_bind, bind_some, if_pos hint]
    by_cases htotal : total ≤ str.length + r.str.length
    · rw [if_pos htotal, if_neg fun h => Nat.not_lt.mpr htotal h.1]
      rfl
    · by_cases hcols : getColumnCount r.str sep = cols
      · rw [if_neg htotal, if_neg fun h => h.1 hcols.symm, if_pos ⟨Nat.not_le.mp htotal, hcols⟩]
      · rw [if_neg htotal, if_pos ⟨fun h => hcols h.symm, rfl⟩, if_neg fun h => hcols h.2]
        rfl
  · rw [int_of_not_lt hint, if_neg hint]
    rfl

theorem copyLoop_some {total : Nat} {str out : Bytes}
    (h : copyLoop total cols false str rows = some (some out)) :
    out = str ++ body rows ∧ ∀ r ∈ rows, getColumnCount r.str sep = cols := by
  induction rows generalizing str with
  | nil =>
    obtain rfl : str = out := Option.some.inj (Option.some.inj h)
    exact ⟨(append_nil str).symm, nofun⟩
  | cons r rs ih =>
    rw [copyLoop_cons] at h
    split at h
    · split at h
      · rename_i hstep
        obtain ⟨hout, hall⟩ := ih h
        refine ⟨?_, ?_⟩
        · rw [hout, body_cons, append_assoc, append_assoc, singleton_append]
        · intro q hq
          rcases mem_cons.mp hq with rfl | hq
          · exact hstep.2
          · exact hall q hq
      · cases h
    · cases h

theorem copyLoop_ok {total : Nat} {str : Bytes}
    (hcols : ∀ r ∈ rows, getColumnCount r.str sep = cols)
    (hlen : str.length + (body rows).length < total) (htotal : total < 2 ^ 31) :
    copyLoop total cols false str rows = some (some (str ++ body rows)) := by
  induction rows generalizing str with
  | nil => exact congrArg (fun s => some (some s)) (append_nil str).symm
  | cons r rs ih =>
    rw [length_body_cons] at hlen
    have hlen' : (str ++ r.str ++ [sep]).length = str.length + r.str.length + 1 := by
      rw [length_append, length_append, length_singleton]
    have hrest := @ih (str ++ r.str ++ [sep])
      (fun q hq => hcols q (mem_cons_of_mem r hq)) (by omega)
    rw [copyLoop_cons, if_pos (by omega), if_pos ⟨by omega, hcols r (.head _)⟩, hrest,
      body_cons, append_assoc, append_assoc, singleton_append]

theorem mul_le_body (hcols : ∀ r ∈ rows, getColumnCount r.str sep = cols) :
    rows.length * (cols + 1) ≤ (body rows).length := by
  induction rows with
  | nil =>
    rw [length_nil, Nat.zero_mul]
    exact Nat.zero_le _
  | cons r rs ih =>
    have hr := getColumnCount_le r.str sep
    rw [hcols r (.head _)] at hr
    have hrs := ih fun q hq => hcols q (mem_cons_of_mem r hq)
    rw [length_cons, length_body_cons, Nat.succ_mul]
    omega

theorem setToString_some {first : Row} {rest : List Row} (hlen : (first :: rest).length < 2 ^ 31)
    (h : setToString (first :: rest) false = some (some reply)) :
    0 < getColumnCount first.str sep ∧
      (∀ r ∈ first :: rest, getColumnCount r.str sep = getColumnCount first.str sep) ∧
      reply.str = header (first :: rest).length (getColumnCount first.str sep) ++
        body (first :: rest) ∧
      reply.size = 32 + (body (first :: rest)).length ∧ reply.size < 2 ^ 31 := by
  have htake : (first :: rest).take (toInt32 (first :: rest).length).toNat = first :: rest := by
    rw [toInt32_of_lt hlen, Int.toNat_natCast, take_length]
  simp only [setToString, htake, totalLen_eq 32 _ (by decide : 32 < 2 ^ 31)] at h
  split at h
  · rename_i htotal
    rw [bind_eq_bind, bind_some] at h
    split at h
    · cases h
    · rename_i hcols
      obtain ⟨out, hout, hreply⟩ := Option.bind_eq_some_iff.mp h
      cases out with
      | none => cases hreply
      | some out =>
        obtain ⟨hstr, hall⟩ := copyLoop_some hout
        obtain rfl : Reply.mk out (32 + (body (first :: rest)).length) = reply :=
          Option.some.inj (Option.some.inj hreply)
        exact ⟨Nat.pos_of_ne_zero hcols, hall, hstr, rfl, htotal⟩
  · cases h

theorem setToString_ok {first : Row} {rest : List Row}
    (hcols : 0 < getColumnCount first.str sep)
    (hall : ∀ r ∈ first :: rest, getColumnCount r.str sep = getColumnCount first.str sep)
    (hheader : (header (first :: rest).length (getColumnCount first.str sep)).length < 32)
    (htotal : 32 + (body (first :: rest)).length < 2 ^ 31) :
    setToString (first :: rest) false = some (some
      ⟨header (first :: rest).length (getColumnCount first.str sep) ++ body (first :: rest),
        32 + (body (first :: rest)).length⟩) := by
  have hmul := mul_le_body hall
  have hlen : (first :: rest).length < 2 ^ 31 := by
    have hle : (first :: rest).length ≤
        (first :: rest).length * (getColumnCount first.str sep + 1) :=
      Nat.le_mul_of_pos_right _ (Nat.succ_pos _)
    omega
  have htake : (first :: rest).take (toInt32 (first :: rest).length).toNat = first :: rest := by
    rw [toInt32_of_lt hlen, Int.toNat_natCast, take_length]
  have hcopy := copyLoop_ok hall (Nat.add_lt_add_right hheader _) htotal
  simp only [setToString, htake, totalLen_eq 32 _ (by decide : 32 < 2 ^ 31)]
  rw [if_pos htotal, bind_eq_bind, bind_some, if_neg hcols.ne', hcopy]
  rfl

--
-- What the decoder reads of it
--

theorem strchr_append {s t : Bytes} {c : UInt8} (h : c ∉ s) :
    strchr (s ++ c :: t) c = some s.length := by
  have htake : (s ++ c :: t).takeWhile (· ≠ c) = s :=
    takeWhile_append_stop (fun x hx => by simpa using fun heq : x = c => h (heq ▸ hx)) (by simp)
  rw [strchr, if_pos (mem_append_right s (.head _)), htake]

theorem drop_append_cons (s t : Bytes) (c : UInt8) : (s ++ c :: t).drop (s.length + 1) = t := by
  rw [drop_append, drop_eq_nil_of_le (Nat.le_succ _), nil_append,
    Nat.add_sub_cancel_left, drop_succ_cons, drop_zero]

theorem decodeLoop_fields {fs : List Bytes} (h : ∀ f ∈ fs, sep ∉ f) (n : Nat) (rest : Bytes) :
    decodeLoop (fs.length + n) ((fs.map (· ++ [sep])).flatten ++ rest) =
      (decodeLoop n rest).map (fs ++ ·) := by
  induction fs with
  | nil =>
    rw [length_nil, Nat.zero_add]
    exact Option.map_id'.symm
  | cons f fs ih =>
    have hflat : ((f :: fs).map (· ++ [sep])).flatten ++ rest =
        f ++ sep :: ((fs.map (· ++ [sep])).flatten ++ rest) := by
      rw [map_cons, flatten_cons, append_assoc, append_assoc,
        singleton_append]
    rw [hflat, length_cons, Nat.add_right_comm, decodeLoop,
      strchr_append (h f (.head _))]
    simp only [drop_append_cons, take_left', ih fun g hg => h g (mem_cons_of_mem f hg)]
    cases decodeLoop n rest with
    | none => rfl
    | some more => rfl

theorem decodeLoop_body (hpos : 0 < cols) (hcols : ∀ r ∈ rows, getColumnCount r.str sep = cols) :
    ∃ fields, decodeLoop (rows.length * cols) (body rows) = some fields ∧
      fields.length = rows.length * cols ∧
      ∀ i r, rows[i]? = some r →
        List.intercalate [sep] ((fields.drop (i * cols)).take cols) = r.str := by
  induction rows with
  | nil =>
    refine ⟨[], ?_, ?_, nofun⟩
    · rw [length_nil, Nat.zero_mul]
      rfl
    · rw [length_nil, length_nil, Nat.zero_mul]
  | cons r rs ih =>
    obtain ⟨fields, hdecode, hlen, hrows⟩ := ih fun q hq => hcols q (mem_cons_of_mem r hq)
    obtain ⟨fs, hfree, hfs, hjoin, hflat⟩ := exists_pieces sep r.str
    have hr := hcols r (.head _)
    have hcount : fs.length = cols := by
      rw [hfs, ← hr, getColumnCount_of_pos (by rw [hr]; exact hpos)]
    refine ⟨fs ++ fields, ?_, ?_, ?_⟩
    · have hbody : body (r :: rs) = (fs.map (· ++ [sep])).flatten ++ body rs := by
        rw [body_cons, hflat, append_assoc, singleton_append]
      rw [length_cons, Nat.succ_mul, Nat.add_comm, ← hcount, hbody, decodeLoop_fields hfree,
        hcount, hdecode]
      rfl
    · rw [length_append, hcount, hlen, length_cons, Nat.succ_mul, Nat.add_comm]
    · intro i q hq
      cases i with
      | zero =>
        obtain rfl : r = q := Option.some.inj hq
        rw [Nat.zero_mul, drop_zero, take_append_of_le_length hcount.ge,
          take_of_length_le hcount.le, hjoin]
      | succ i =>
        rw [Nat.succ_mul, Nat.add_comm, ← hcount, drop_append, hcount]
        rw [drop_eq_nil_of_le (by omega), nil_append, Nat.add_sub_cancel_left]
        exact hrows i q hq

theorem parseHeader_eq {nd cd : Bytes} (hnd : ∀ b ∈ nd, isDigit b = true)
    (hcd : ∀ b ∈ cd, isDigit b = true) (hn : nd.length ≤ 10) (hc : cd.length ≤ 10)
    (rest : Bytes) :
    parseHeader (nd ++ star :: (cd ++ at' :: rest)) =
      (stringIn (nd ++ List.replicate (10 - nd.length) 0 ++
          (cd ++ List.replicate (10 - cd.length) 0))).bind fun x =>
        (stringIn (cd ++ List.replicate (10 - cd.length) 0)).bind fun y =>
          some (wrap32 (strtolAuto x), wrap32 (strtolAuto y)) := by
  have hfree : ∀ {ds : Bytes} {c : UInt8}, isDigit c = false → (∀ b ∈ ds, isDigit b = true) →
      c ∉ ds := by
    intro ds c hc hds hmem
    rw [hds c hmem] at hc
    cases hc
  have hstop : strchr (nd ++ star :: (cd ++ at' :: rest)) at' =
      some (nd.length + 1 + cd.length) := by
    have hshape : nd ++ star :: (cd ++ at' :: rest) = (nd ++ star :: cd) ++ at' :: rest := by
      rw [append_assoc, cons_append]
    have hnot : at' ∉ nd ++ star :: cd := by
      rw [mem_append, mem_cons, not_or, not_or]
      exact ⟨hfree (by decide) hnd, by decide, hfree (by decide) hcd⟩
    rw [hshape, strchr_append hnot, length_append, length_cons]
    congr 1
    omega
  have htake : (nd ++ star :: (cd ++ at' :: rest)).take nd.length = nd := take_left
  have hdrop : ((nd ++ star :: (cd ++ at' :: rest)).drop (nd.length + 1)).take
      (nd.length + 1 + cd.length - nd.length - 1) = cd := by
    rw [drop_append_cons, show nd.length + 1 + cd.length - nd.length - 1 = cd.length by omega,
      take_left]
  have hfirst : copyXy (List.replicate 20 0) 0 nd =
      some (nd ++ List.replicate (10 - nd.length) 0 ++ List.replicate 10 0) := by
    rw [copyXy, if_pos (by rw [length_replicate]; omega), take_zero, nil_append,
      drop_replicate, Nat.zero_add, append_assoc, ← replicate_add]
    congr 3
    omega
  have hsecond : copyXy (nd ++ List.replicate (10 - nd.length) 0 ++ List.replicate 10 0) 10 cd =
      some (nd ++ List.replicate (10 - nd.length) 0 ++
        (cd ++ List.replicate (10 - cd.length) 0)) := by
    have hlen : (nd ++ List.replicate (10 - nd.length) (0 : UInt8)).length = 10 := by
      rw [length_append, length_replicate]
      omega
    have hroom : 10 + cd.length ≤ (nd ++ List.replicate (10 - nd.length) 0 ++
        List.replicate 10 (0 : UInt8)).length := by
      rw [length_append, hlen, length_replicate]
      omega
    have hhead : (nd ++ List.replicate (10 - nd.length) 0 ++
        List.replicate 10 (0 : UInt8)).take 10 = nd ++ List.replicate (10 - nd.length) 0 :=
      take_left' hlen
    rw [copyXy, if_pos hroom, hhead, append_assoc (nd ++ _), ← drop_drop,
      drop_left' hlen, drop_replicate]
  have hsplit : (nd ++ List.replicate (10 - nd.length) 0 ++
      (cd ++ List.replicate (10 - cd.length) (0 : UInt8))).drop 10 =
      cd ++ List.replicate (10 - cd.length) 0 := by
    refine drop_left' ?_
    rw [length_append, length_replicate]
    omega
  rw [parseHeader, strchr_append (hfree (by decide) hnd), hstop]
  have hguard : guard (nd.length < nd.length + 1 + cd.length) = some () := if_pos (by omega)
  simp only [bind_eq_bind, bind_some, hguard, htake, hdrop, hfirst, hsecond, hsplit]
  rfl

--
-- The two numbers
--

theorem fmtU64_isDigit (n : Nat) : ∀ b ∈ fmtU64 n, isDigit b = true := decDigits_isDigit 20 n

theorem fmtU64_val (h : n < u64Size) : digitsVal (fmtU64 n) = n :=
  digitsVal_decDigits (lt_ten_pow_of_u64 h)

theorem fmtU64_noNul (n : Nat) : (0 : UInt8) ∉ fmtU64 n := by
  intro h
  cases fmtU64_isDigit n 0 h

theorem fmtU64_short (h : n < 10 ^ 9) : (fmtU64 n).length ≤ 9 :=
  decDigits_length_le_of_lt 20 (by decide) h

theorem fmtU64_long (hlo : 10 ^ 9 ≤ n) (hhi : n < 2 ^ 31) : (fmtU64 n).length = 10 := by
  have hle : (fmtU64 n).length ≤ 10 := decDigits_length_le_of_lt 20 (by decide) (by omega)
  refine Nat.le_antisymm hle (Nat.not_lt.mp fun hlt => ?_)
  have hval := digitsVal_lt (fmtU64_isDigit n)
  rw [fmtU64_val (by unfold u64Size; omega)] at hval
  have hpow : 10 ^ (fmtU64 n).length ≤ 10 ^ 9 :=
    Nat.pow_le_pow_right (by decide) (Nat.le_of_lt_succ hlt)
  omega

theorem fmtLong_natCast (n : Nat) : fmtLong n = fmtU64 n := if_neg (by omega)

theorem header_eq (h : n < 2 ^ 31) (c : Nat) :
    header n c = fmtU64 n ++ star :: (fmtU64 c ++ [at']) := by
  have hlong : Int.bmod n (2 ^ 64) = n := by
    rw [Int.bmod_eq_of_le] <;> omega
  rw [header, hlong, fmtLong_natCast, fmtLong_natCast]
  simp only [append_assoc, cons_append]

theorem header_short {c : Nat} (hn : n < 10 ^ 9) (hc : c < 10 ^ 9) : (header n c).length < 32 := by
  have hnlen := fmtU64_short hn
  have hclen := fmtU64_short hc
  rw [header_eq (by omega), length_append, length_cons, length_append,
    length_singleton]
  omega

theorem stringIn_padded {s t : Bytes} (h : (0 : UInt8) ∉ s) {k : Nat} (hk : 0 < k) :
    stringIn (s ++ List.replicate k 0 ++ t) = some s := by
  obtain ⟨k, rfl⟩ := Nat.exists_eq_succ_of_ne_zero hk.ne'
  rw [replicate_succ, append_assoc, cons_append, stringIn,
    if_pos (mem_append_right s (.head _)), cstr_append_nul h]

theorem strtolAuto_row (hn : 0 < n) (h : n < 2 ^ 31) : wrap32 (strtolAuto (fmtU64 n)) = n := by
  have hread := @strtolAuto_fmtU64 n hn (by unfold u64Size; omega) [] nofun
  rw [append_nil, fmtU64_val (by unfold u64Size; omega)] at hread
  rw [hread, min_eq_left (by omega), wrap32_of_range (by omega) (by omega)]

theorem shape_header (h : n < 2 ^ 31) (c : Nat) (rest : Bytes) :
    header n c ++ rest = fmtU64 n ++ star :: (fmtU64 c ++ at' :: rest) := by
  rw [header_eq h]
  simp only [append_assoc, cons_append, nil_append]

theorem parseHeader_short {c : Nat} (hn : 0 < n) (hc : 0 < c) (hn9 : n < 10 ^ 9) (hc9 : c < 10 ^ 9)
    (rest : Bytes) : parseHeader (header n c ++ rest) = some ((n : Int), (c : Int)) := by
  have hnlen := fmtU64_short hn9
  have hclen := fmtU64_short hc9
  have hy : stringIn (fmtU64 c ++ List.replicate (10 - (fmtU64 c).length) 0) = some (fmtU64 c) := by
    have h := stringIn_padded (t := []) (fmtU64_noNul c) (by omega : 0 < 10 - (fmtU64 c).length)
    rwa [append_nil] at h
  rw [shape_header (by omega), parseHeader_eq (fmtU64_isDigit n) (fmtU64_isDigit c) (by omega)
    (by omega), stringIn_padded (fmtU64_noNul n) (by omega), hy]
  simp only [bind_some, strtolAuto_row hn (by omega : n < 2 ^ 31),
    strtolAuto_row hc (by omega : c < 2 ^ 31)]

theorem parseHeader_long_cols {c : Nat} (hn : n < 2 ^ 31) (hlo : 10 ^ 9 ≤ c) (hhi : c < 2 ^ 31)
    (rest : Bytes) : parseHeader (header n c ++ rest) = none := by
  have hnlen : (fmtU64 n).length ≤ 10 := decDigits_length_le_of_lt 20 (by decide) (by omega)
  have hclen := fmtU64_long hlo hhi
  have hy : stringIn (fmtU64 c ++ List.replicate (10 - (fmtU64 c).length) 0) = none := by
    rw [hclen, Nat.sub_self, replicate_zero, append_nil]
    exact if_neg (fmtU64_noNul c)
  rw [shape_header hn, parseHeader_eq (fmtU64_isDigit n) (fmtU64_isDigit c) hnlen hclen.le, hy]
  exact Option.bind_fun_none _

theorem parseHeader_long_rows (hlo : 10 ^ 9 ≤ n) (hhi : n < 2 ^ 31) (rest : Bytes) :
    parseHeader (header n 1 ++ rest) = some (wrap32 (n * 10 + 1), 1) := by
  have hnlen := fmtU64_long hlo hhi
  have hone : fmtU64 1 = [49] := rfl
  have hx : stringIn (fmtU64 n ++ List.replicate (10 - (fmtU64 n).length) 0 ++
      ([49] ++ List.replicate (10 - [(49 : UInt8)].length) 0)) = some (fmtU64 n ++ [49]) := by
    have hnoNul : (0 : UInt8) ∉ fmtU64 n ++ [49] := by
      rw [mem_append, not_or]
      exact ⟨fmtU64_noNul n, by decide⟩
    have h := stringIn_padded (t := []) hnoNul (by decide : 0 < 9)
    rw [append_nil, append_assoc] at h
    rw [hnlen, Nat.sub_self, replicate_zero, append_nil]
    exact h
  have hval : strtolAuto (fmtU64 n ++ [49]) = n * 10 + 1 := by
    rw [strtolAuto_fmtU64 (by omega) (by unfold u64Size; omega) (all_eq_true.mp rfl),
      digitsVal_append_singleton, fmtU64_val (by unfold u64Size; omega)]
    have h49 : (49 : UInt8).toNat - 48 = 1 := rfl
    rw [h49]
    omega
  rw [shape_header hhi, parseHeader_eq (fmtU64_isDigit n) (fmtU64_isDigit 1) hnlen.le (by decide),
    hone, hx]
  simp only [bind_some, hval]
  rfl

--
-- The round trip
--

theorem parseHeader_x_lt {src : Bytes} {x y : Int} (h : parseHeader src = some (x, y)) :
    x < 2 ^ 31 := by
  have hwrap : ∀ z : Int, wrap32 z < 2 ^ 31 := by
    intro z
    unfold wrap32
    have hlt := Int.bmod_lt (x := z) (m := 2 ^ 32) (by decide)
    omega
  obtain ⟨len, -, h⟩ := Option.bind_eq_some_iff.mp h
  obtain ⟨stop, -, h⟩ := Option.bind_eq_some_iff.mp h
  obtain ⟨-, -, h⟩ := Option.bind_eq_some_iff.mp h
  obtain ⟨xy, -, h⟩ := Option.bind_eq_some_iff.mp h
  obtain ⟨xy', -, h⟩ := Option.bind_eq_some_iff.mp h
  obtain ⟨sx, -, h⟩ := Option.bind_eq_some_iff.mp h
  obtain ⟨sy, -, h⟩ := Option.bind_eq_some_iff.mp h
  have hx : wrap32 (strtolAuto sx) = x := congrArg Prod.fst (Option.some.inj h)
  rw [← hx]
  exact hwrap _

theorem RoundTrip.decodes {src : List Row} (h : RoundTrip src cols reply) :
    ∃ x y, parseHeader reply.str = some (x, y) ∧ x = src.length := by
  obtain ⟨-, fields, hdecode, -⟩ := h
  obtain ⟨⟨x, y⟩, hhead, h⟩ := Option.bind_eq_some_iff.mp hdecode
  refine ⟨x, y, hhead, ?_⟩
  by_cases hpos : x ≤ 0 ∨ y ≤ 0
  · simp only [if_pos hpos] at h
    have hret : (1 : Int) = 0 := congrArg Decoded.ret (Option.some.inj h)
    exact absurd hret (by decide)
  · simp only [if_neg hpos] at h
    obtain ⟨count, -, h⟩ := Option.bind_eq_some_iff.mp h
    obtain ⟨stop, -, h⟩ := Option.bind_eq_some_iff.mp h
    obtain ⟨fields', -, h⟩ := Option.bind_eq_some_iff.mp h
    exact congrArg Decoded.x (Option.some.inj h)

theorem roundTrip_short {src : List Row} (hne : src ≠ []) (hpos : 0 < cols)
    (hcols : ∀ r ∈ src, getColumnCount r.str sep = cols)
    (hstr : reply.str = header src.length cols ++ body src)
    (hsize : reply.size = 32 + (body src).length) (htotal : reply.size < 2 ^ 31)
    (hn9 : src.length < 10 ^ 9) (hc9 : cols < 10 ^ 9) : RoundTrip src cols reply := by
  have hn : 0 < src.length := length_pos_of_ne_nil hne
  have hheader := header_short hn9 hc9
  obtain ⟨fields, hfields, hlen, hrows⟩ := decodeLoop_body hpos hcols
  refine ⟨?_, fields, ?_, hlen, hrows⟩
  · rw [hstr, hsize, length_append]
    omega
  · have hcount : src.length * cols < 2 ^ 31 := by
      have hmul := mul_le_body hcols
      rw [Nat.mul_succ] at hmul
      omega
    have hhead := parseHeader_short hn hpos hn9 hc9 (body src)
    have hnotAt : at' ∉ fmtU64 src.length ++ star :: fmtU64 cols := by
      rw [mem_append, mem_cons, not_or, not_or]
      refine ⟨fun h => ?_, by decide, fun h => ?_⟩
      · cases fmtU64_isDigit _ _ h
      · cases fmtU64_isDigit _ _ h
    have hshape : header src.length cols ++ body src =
        (fmtU64 src.length ++ star :: fmtU64 cols) ++ at' :: body src := by
      rw [shape_header (by omega), append_assoc, cons_append]
    have hstop : strchr (header src.length cols ++ body src) at' =
        some (fmtU64 src.length ++ star :: fmtU64 cols).length := by
      rw [hshape]
      exact strchr_append hnotAt
    have hbody : (header src.length cols ++ body src).drop
        ((fmtU64 src.length ++ star :: fmtU64 cols).length + 1) = body src := by
      rw [hshape, drop_append_cons]
    have hpositive : ¬((src.length : Int) ≤ 0 ∨ (cols : Int) ≤ 0) := by omega
    rw [hstr, decodeImpl, hhead]
    simp only [bind_eq_bind, bind_some, if_neg hpositive, Int.toNat_natCast,
      int_of_lt hcount, hstop, hbody, hfields]
    rfl

theorem wrap32_row_ne {n : Int} (hlo : 10 ^ 9 ≤ n) (hhi : n < 1073741824) :
    wrap32 (n * 10 + 1) ≠ n := by
  intro h
  have hmod : wrap32 (n * 10 + 1) % (2 ^ 32 : Nat) = (n * 10 + 1) % (2 ^ 32 : Nat) :=
    Int.bmod_emod
  rw [h] at hmod
  omega

theorem not_roundTrip_rows {src : List Row} (hpos : 0 < cols)
    (hcols : ∀ r ∈ src, getColumnCount r.str sep = cols)
    (hstr : reply.str = header src.length cols ++ body src)
    (hsize : reply.size = 32 + (body src).length) (htotal : reply.size < 2 ^ 31)
    (hlo : 10 ^ 9 ≤ src.length) (hhi : src.length < 2 ^ 31) : ¬RoundTrip src cols reply := by
  intro h
  have hone : cols = 1 := by
    -- the rows of two columns would not fit
    have hmul := mul_le_body hcols
    by_contra hne
    have hle : src.length * 3 ≤ src.length * (cols + 1) :=
      Nat.mul_le_mul_left _ (by omega)
    omega
  obtain ⟨x, y, hhead, hx⟩ := h.decodes
  rw [hstr, hone, parseHeader_long_rows hlo hhi] at hhead
  obtain ⟨hbad, -⟩ := Prod.mk.inj (Option.some.inj hhead)
  have hmul := mul_le_body hcols
  rw [hone] at hmul
  have hlo' : (10 : Int) ^ 9 ≤ src.length := by omega
  have hhi' : (src.length : Int) < 1073741824 := by omega
  exact wrap32_row_ne hlo' hhi' (hbad.trans hx)

/-- Both numbers have to fit into nine digits for the rows to come back. -/
theorem table_iff (first : Row) (rest : List Row) (reply : Reply)
    (h : setToString (first :: rest) false = some (some reply)) :
    RoundTrip (first :: rest) (getColumnCount first.str sep) reply ↔
      (first :: rest).length < 10 ^ 9 ∧ getColumnCount first.str sep < 10 ^ 9 := by
  by_cases hlen : (first :: rest).length < 2 ^ 31
  · obtain ⟨hpos, hcols, hstr, hsize, htotal⟩ := setToString_some hlen h
    constructor
    · intro hround
      constructor
      · by_contra hlong
        exact not_roundTrip_rows hpos hcols hstr hsize htotal (by omega) hlen hround
      · by_contra hlong
        have hwide := (getColumnCount_le first.str sep).trans_lt first.len_lt
        obtain ⟨x, y, hhead, -⟩ := hround.decodes
        rw [hstr, parseHeader_long_cols hlen (by omega) hwide] at hhead
        cases hhead
    · rintro ⟨hn9, hc9⟩
      exact roundTrip_short (cons_ne_nil _ _) hpos hcols hstr hsize htotal hn9 hc9
  · refine iff_of_false ?_ fun h => hlen (by omega)
    intro hround
    obtain ⟨x, y, hhead, hx⟩ := hround.decodes
    have hlt := parseHeader_x_lt hhead
    omega

/-- The row `a|b`. -/
def twoColumns : Row := ⟨[97, sep, 98], by decide, by decide⟩

/-- The row `a`. -/
def oneColumn : Row := ⟨[97], by decide, by decide⟩

theorem table_iff_two_rows :
    RoundTrip [twoColumns, twoColumns] (getColumnCount twoColumns.str sep)
        ⟨header 2 2 ++ body [twoColumns, twoColumns], 40⟩ ↔
      [twoColumns, twoColumns].length < 10 ^ 9 ∧ getColumnCount twoColumns.str sep < 10 ^ 9 := by
  have hcols : getColumnCount twoColumns.str sep = 2 := getColumnCount_cons [sep, 98] (by decide)
  refine table_iff twoColumns [twoColumns] ⟨header 2 2 ++ body [twoColumns, twoColumns], 40⟩ ?_
  have hok := @setToString_ok twoColumns [twoColumns]
    (by rw [hcols]; decide) (by simp) (by rw [hcols]; exact header_short (by decide) (by decide))
    (by decide)
  rw [hcols] at hok
  exact hok

theorem length_body_replicate (n : Nat) (r : Row) :
    (body (List.replicate n r)).length = n * (r.str.length + 1) := by
  induction n with
  | zero => rw [replicate_zero, Nat.zero_mul]; rfl
  | succ n ih => rw [replicate_succ, length_body_cons, ih, Nat.succ_mul, Nat.add_comm]

theorem not_roundTrip_replicate (hlo : 10 ^ 9 ≤ n) (hhi : 32 + n * 2 < 2 ^ 31) :
    ∃ reply, setToString (List.replicate n oneColumn) false = some (some reply) ∧
      ¬RoundTrip (List.replicate n oneColumn) (getColumnCount oneColumn.str sep) reply := by
  obtain ⟨m, rfl⟩ := Nat.exists_eq_succ_of_ne_zero (by omega : n ≠ 0)
  have hone : getColumnCount oneColumn.str sep = 1 := getColumnCount_cons [] (by decide)
  have hall : ∀ r ∈ oneColumn :: List.replicate m oneColumn,
      getColumnCount r.str sep = getColumnCount oneColumn.str sep := by
    intro r hr
    rw [← replicate_succ] at hr
    rw [eq_of_mem_replicate hr]
  have hlen : (oneColumn :: List.replicate m oneColumn).length = m + 1 := by
    rw [← replicate_succ, length_replicate]
  have hbody : (body (oneColumn :: List.replicate m oneColumn)).length = (m + 1) * 2 := by
    rw [← replicate_succ, length_body_replicate]
    rfl
  have hheader : (header (m + 1) 1).length < 32 := by
    have hnlen := fmtU64_long hlo (by omega)
    rw [header_eq (by omega), length_append, length_cons, length_append,
      length_singleton, hnlen]
    decide
  have hok := @setToString_ok oneColumn (List.replicate m oneColumn)
    (by rw [hone]; decide) hall (by rw [hone, hlen]; exact hheader) (by rw [hbody]; exact hhi)
  rw [replicate_succ]
  refine ⟨_, hok, not_roundTrip_rows (by rw [hone]; decide) hall rfl rfl ?_ ?_ ?_⟩
  · rw [hbody]
    exact hhi
  · rw [hlen]
    exact hlo
  · rw [hlen]
    omega

/-- A thousand million rows. -/
theorem not_roundTrip_many :
    ∃ reply, setToString (List.replicate (10 ^ 9) oneColumn) false = some (some reply) ∧
      ¬RoundTrip (List.replicate (10 ^ 9) oneColumn) (getColumnCount oneColumn.str sep) reply :=
  not_roundTrip_replicate (le_refl (10 ^ 9)) (by decide)

end Supex.Timport.Table
