import Supex.Lib.Decimal

/-!
# RESP: arrays of bulk strings

The requests and the multi-bulk replies of the Redis protocol: `*` and a count,
then for every string `$`, its length and its bytes, each line and each string
ended by CRLF. The reader is that of the grammar; it knows nothing of how a
message was put together.

* `Resp.readArray_array` — the message says the strings it was made of.
-/

namespace Supex.Lib.Resp

open Supex List

/-- The end of a line. -/
def CRLF : Bytes := [13, 10]

/-- A bulk string. -/
def bulk (s : Bytes) : Bytes := 36 :: fmtU64 s.length ++ CRLF ++ s ++ CRLF

/-- An array of bulk strings. -/
def array (fields : List Bytes) : Bytes :=
  42 :: fmtU64 fields.length ++ CRLF ++ (fields.map bulk).flatten

/-- A number and the end of its line. -/
def readNumber (s : Bytes) : Option (Nat × Bytes) :=
  let digits := s.takeWhile isDigit
  match digits, s.drop digits.length with
  | [], _ => none
  | _ :: _, 13 :: 10 :: rest => some (digitsVal digits, rest)
  | _, _ => none

/-- The bytes of a string of length `n` and the end of its line. -/
def readBody (n : Nat) (s : Bytes) : Option (Bytes × Bytes) :=
  match s.drop n with
  | 13 :: 10 :: rest => some (s.take n, rest)
  | _ => none

/-- A bulk string. -/
def readBulk (s : Bytes) : Option (Bytes × Bytes) := do
  match s with
  | 36 :: s =>
    let (n, s) ← readNumber s
    readBody n s
  | _ => none

/-- `n` bulk strings. -/
def readBulks : Nat → Bytes → Option (List Bytes × Bytes)
  | 0, s => some ([], s)
  | n + 1, s => do
    let (field, s) ← readBulk s
    let (fields, s) ← readBulks n s
    some (field :: fields, s)

/-- An array of bulk strings. -/
def readArray (s : Bytes) : Option (List Bytes × Bytes) := do
  match s with
  | 42 :: s =>
    let (n, s) ← readNumber s
    readBulks n s
  | _ => none

theorem readNumber_fmtU64 {n : Nat} (h : n < 10 ^ 20) (rest : Bytes) :
    readNumber (fmtU64 n ++ CRLF ++ rest) = some (n, rest) := by
  have hdigits : (fmtU64 n ++ CRLF ++ rest).takeWhile isDigit = fmtU64 n := by
    have hall : ∀ b ∈ fmtU64 n, isDigit b = true := decDigits_isDigit 20 n
    rw [append_assoc, takeWhile_append_of_pos hall]
    exact append_nil _
  obtain ⟨d, ds, hd⟩ := exists_cons_of_ne_nil (decDigits_ne_nil 19 n)
  have hcons : fmtU64 n = d :: ds := hd
  unfold readNumber
  dsimp only
  rw [hdigits, append_assoc, drop_left, hcons]
  show some (digitsVal (d :: ds), rest) = _
  rw [← hcons, fmtU64, digitsVal_decDigits h]

theorem readBody_append (s rest : Bytes) :
    readBody s.length (s ++ CRLF ++ rest) = some (s, rest) := by
  unfold readBody
  rw [append_assoc, drop_left, take_left]
  rfl

theorem readBulk_bulk {s : Bytes} (h : s.length < 10 ^ 20) (rest : Bytes) :
    readBulk (bulk s ++ rest) = some (s, rest) := by
  have hsplit : bulk s ++ rest = 36 :: (fmtU64 s.length ++ CRLF ++ (s ++ CRLF ++ rest)) := by
    unfold bulk
    simp only [cons_append, append_assoc]
  rw [hsplit]
  show (readNumber (fmtU64 s.length ++ CRLF ++ (s ++ CRLF ++ rest))).bind
    (fun p => readBody p.1 p.2) = _
  rw [readNumber_fmtU64 h]
  exact readBody_append s rest

theorem readBulks_bulks {fields : List Bytes} (h : ∀ s ∈ fields, s.length < 10 ^ 20)
    (rest : Bytes) :
    readBulks fields.length ((fields.map bulk).flatten ++ rest) = some (fields, rest) := by
  induction fields with
  | nil => rfl
  | cons s fields ih =>
    obtain ⟨hs, hfields⟩ := forall_mem_cons.mp h
    rw [length_cons, readBulks, map_cons, flatten_cons, append_assoc,
      readBulk_bulk hs]
    show (readBulks fields.length ((fields.map bulk).flatten ++ rest)).bind
      (fun p => some (s :: p.1, p.2)) = _
    rw [ih hfields]
    rfl

theorem readArray_array (fields : List Bytes) (hcount : fields.length < 10 ^ 20)
    (h : ∀ s ∈ fields, s.length < 10 ^ 20) (rest : Bytes) :
    readArray (array fields ++ rest) = some (fields, rest) := by
  have hsplit : array fields ++ rest =
      42 :: (fmtU64 fields.length ++ CRLF ++ ((fields.map bulk).flatten ++ rest)) := by
    unfold array
    simp only [cons_append, append_assoc]
  rw [hsplit]
  show (readNumber (fmtU64 fields.length ++ CRLF ++ ((fields.map bulk).flatten ++ rest))).bind
    (fun p => readBulks p.1 p.2) = _
  rw [readNumber_fmtU64 hcount]
  exact readBulks_bulks h rest

example : readArray (array [ascii "a", []]) = some ([ascii "a", []], []) := by decide

end Supex.Lib.Resp
