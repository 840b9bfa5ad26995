import Supex.Lib.Bytes

/-!
# Lua patterns

`string.match` of Lua for the patterns made of single characters, `+`, `?` and
captures that are not nested: a character that may be repeated is repeated as
often as possible, and less often only where the rest of the pattern does not
match otherwise; a pattern may start anywhere in the string.

* `doMatch_plus` — a run of characters of a class that ends where the next
  character is of another class is taken whole.
* `stringMatch_of_doMatch` — a match at the start of the string is the match.
-/

namespace Supex.Lib

--
-- Patterns
--

/-- The items of a pattern: a character of a class once, once or more, at most
once; the two ends of a capture. -/
inductive PatItem where
  | single (cls : UInt8 → Bool)
  | plus (cls : UInt8 → Bool)
  | opt (cls : UInt8 → Bool)
  | openCapture
  | closeCapture

/-- A character that stands for itself. -/
def PatItem.lit (b : UInt8) : PatItem := .single fun c => c == b

/-- `max_expand` of Lua: the first success, from the longest repetition down. -/
def maxExpand {ρ : Type} (f : Nat → Option ρ) : Nat → Option ρ
  | 0 => none
  | n + 1 =>
    match f (n + 1) with
    | some r => some r
    | none => maxExpand f n

/-- `match` of Lua: the captures of a match at the start of the string; the last
argument holds what was read since the last capture was opened. -/
def doMatch : List PatItem → Bytes → Bytes → Option (List Bytes)
  | [], _, _ => some []
  | .openCapture :: ps, s, _ => doMatch ps s []
  | .closeCapture :: ps, s, cap => (doMatch ps s cap).map (cap :: ·)
  | .single cls :: ps, s, cap =>
    match s with
    | [] => none
    | c :: t => if cls c then doMatch ps t (cap ++ [c]) else none
  | .opt cls :: ps, s, cap =>
    match s with
    | [] => doMatch ps [] cap
    | c :: t =>
      if cls c then
        match doMatch ps t (cap ++ [c]) with
        | some r => some r
        | none => doMatch ps (c :: t) cap
      else doMatch ps (c :: t) cap
  | .plus cls :: ps, s, cap =>
    maxExpand (fun i => doMatch ps (s.drop i) (cap ++ s.take i)) (s.takeWhile cls).length

/-- `string.match(s, pattern)`: the captures of the first match. -/
def stringMatch (ps : List PatItem) : Bytes → Option (List Bytes)
  | [] => doMatch ps [] []
  | c :: t =>
    match doMatch ps (c :: t) [] with
    | some r => some r
    | none => stringMatch ps t

--
-- Matches
--

variable {ps : List PatItem} {cls : UInt8 → Bool} {c : UInt8} {s t cap : Bytes} {r : List Bytes}

@[simp] theorem doMatch_nil : doMatch [] s cap = some [] := rfl

@[simp] theorem doMatch_open : doMatch (.openCapture :: ps) s cap = doMatch ps s [] := rfl

@[simp] theorem doMatch_close :
    doMatch (.closeCapture :: ps) s cap = (doMatch ps s cap).map (cap :: ·) := rfl

theorem doMatch_single (h : cls c = true) :
    doMatch (.single cls :: ps) (c :: t) cap = doMatch ps t (cap ++ [c]) := by
  simp [doMatch, h]

@[simp] theorem doMatch_lit :
    doMatch (.lit c :: ps) (c :: t) cap = doMatch ps t (cap ++ [c]) := by
  apply doMatch_single
  simp

theorem doMatch_opt (h : cls c = true) (ht : doMatch ps t (cap ++ [c]) = some r) :
    doMatch (.opt cls :: ps) (c :: t) cap = some r := by
  simp [doMatch, h, ht]

theorem doMatch_opt_skip (h : ∀ b ∈ s.head?, cls b = false) :
    doMatch (.opt cls :: ps) s cap = doMatch ps s cap := by
  rcases s with _ | ⟨c, t⟩
  · simp [doMatch]
  · have hc : cls c = false := h c (by simp)
    simp [doMatch, hc]

theorem maxExpand_last {ρ : Type} {f : Nat → Option ρ} {n : Nat} {x : ρ} (hn : 0 < n)
    (h : f n = some x) : maxExpand f n = some x := by
  obtain ⟨m, rfl⟩ := Nat.exists_eq_succ_of_ne_zero (Nat.ne_of_gt hn)
  simp [maxExpand, h]

theorem takeWhile_run (hs : ∀ b ∈ s, cls b = true) (ht : ∀ b ∈ t.head?, cls b = false) :
    (s ++ t).takeWhile cls = s := by
  rw [List.takeWhile_append_of_pos hs]
  rcases t with _ | ⟨c, t⟩
  · simp
  · have hc : cls c = false := ht c (by simp)
    simp [hc]

theorem doMatch_plus (hs : ∀ b ∈ s, cls b = true) (hne : s ≠ [])
    (ht : ∀ b ∈ t.head?, cls b = false) (h : doMatch ps t (cap ++ s) = some r) :
    doMatch (.plus cls :: ps) (s ++ t) cap = some r := by
  rw [doMatch, takeWhile_run hs ht]
  apply maxExpand_last (List.length_pos_of_ne_nil hne)
  simpa using h

theorem stringMatch_of_doMatch (h : doMatch ps s [] = some r) : stringMatch ps s = some r := by
  rcases s with _ | ⟨c, t⟩
  · exact h
  · simp [stringMatch, h]

end Supex.Lib
