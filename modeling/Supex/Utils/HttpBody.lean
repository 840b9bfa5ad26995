import Supex.Lib.Strtol
import Mathlib.Data.List.TakeWhile

/-!
# utils: the body of a response

`get_http11_body` looks for `Content-Length:` and a number anywhere in the response and
takes as many bytes behind the first empty line. Where there is none it walks over the
chunks, whose sizes it looks up in `0123456789abcdef`.

Main result: `body_iff`.
-/

namespace Supex.Utils.HttpBody

open List Option

--
-- Patterns
--

/-- `string.find`: the first place where a pattern matches. -/
def find {α : Type} (p : Bytes → Option α) : Bytes → Option α
  | [] => p []
  | c :: t => (p (c :: t)).or (find p t)

/-- A text that stands for itself, and what is behind it. -/
def lit : Bytes → Bytes → Option Bytes
  | [], s => some s
  | _ :: _, [] => none
  | a :: p, b :: s => if a = b then lit p s else none

def crlf : Bytes := [13, 10]

/-- `"%\r%\n%\r%\n"`. -/
def emptyLine : Bytes := crlf ++ crlf

/-- `%x`. -/
def isHex (b : UInt8) : Bool := (digitOf b).isSome

/-- `"Content%-Length%:%s-%d+%\r%\n"`: the digits. They are no blanks, and a CR is no digit,
so that there is one way to match. -/
def lengthAt (s : Bytes) : Option Bytes := do
  let s ← lit (ascii "Content-Length:") s
  let digits := (s.dropWhile isSpace).takeWhile isDigit
  let _ ← lit crlf ((s.dropWhile isSpace).dropWhile isDigit)
  if digits = [] then none else some digits

/-- `p` and `"%x+%\r%\n"`: the digits, and what is behind the match. -/
def chunkAt (p s : Bytes) : Option (Bytes × Bytes) := do
  let s ← lit p s
  let rest ← lit crlf (s.dropWhile isHex)
  if s.takeWhile isHex = [] then none else some (s.takeWhile isHex, rest)

--
-- `get_http11_body`
--

/-- `string.find(H_string, c) - 1`. -/
def hexIndex (c : UInt8) : Option Nat := (ascii "0123456789abcdef").idxOf? c

/-- `len`, of `len_H`. -/
def chunkLen : Bytes → Option Nat
  | [] => some 0
  | c :: t => do
    let add ← hexIndex c
    let len ← chunkLen t
    return add * 16 ^ t.length + len

/-- The loop over the chunks from a match on. The inner `none` is `nil`, the outer one an
error; each match is in what the one before left, so that its length is fuel enough. -/
def bodyLoop : Nat → Bytes × Bytes → Bytes → Option (Option Bytes)
  | 0, _, _ => none
  | fuel + 1, (lenH, rest), body => do
    let len ← chunkLen lenH
    if len = 0 then return some body
    match find (chunkAt crlf) (rest.drop len) with
    | none => return none
    | some next => bodyLoop fuel next (body ++ rest.take len)

/-- `string.sub(info, _ed + 1, _ed + len)`, `rest` being what is behind `_ed`; an end that is
no `int` becomes a negative one. -/
def sub (info rest len : Bytes) : Bytes :=
  if info.length - rest.length + digitsVal len < 2 ^ 31 then rest.take (digitsVal len) else []

def getHttp11Body (info : Bytes) : Option (Option Bytes) :=
  match find lengthAt info with
  | some len => some ((find (lit emptyLine) info).map (sub info · len))
  | none =>
    match find (chunkAt emptyLine) info with
    | none => some none
    | some first => bodyLoop (first.2.length + 1) first []

--
-- Responses
--

/-- A chunk; the size has digits of either case. -/
structure Chunk where
  size : Bytes
  data : Bytes
  hex : ∀ b ∈ size, isHex b = true
  size_eq : magnitude 16 0 size = data.length
  ne_nil : data ≠ []

/-- The last size has `zeros` more zeros than one. -/
inductive Payload where
  | length (body : Bytes)
  | chunked (chunks : List Chunk) (zeros : Nat)

/-- The status line and the header fields, and what is behind them. -/
structure Response where
  lines : List Bytes
  payload : Payload
  ne_nil : lines ≠ []
  line : ∀ l ∈ lines, l ≠ [] ∧ 13 ∉ l

def encode (zeros : Nat) : List Chunk → Bytes
  | [] => replicate (zeros + 1) 48 ++ (crlf ++ crlf)
  | c :: cs => c.size ++ (crlf ++ (c.data ++ (crlf ++ encode zeros cs)))

def Payload.text : Payload → Bytes
  | .length body => body
  | .chunked chunks zeros => encode zeros chunks

def Payload.body : Payload → Bytes
  | .length body => body
  | .chunked chunks _ => (chunks.map Chunk.data).flatten

/-- The lines, and the empty one. -/
def head : List Bytes → Bytes
  | [] => crlf
  | l :: ls => l ++ (crlf ++ head ls)

def Response.text (r : Response) : Bytes := head r.lines ++ r.payload.text

/-- No capital letter. -/
def Small (size : Bytes) : Prop := ∀ b ∈ size, ¬(65 ≤ b.toNat ∧ b.toNat ≤ 70)

instance (size : Bytes) : Decidable (Small size) := inferInstanceAs (Decidable (∀ b ∈ size, _))

/-- The first text that looks like a length cuts the body out; or there is none, and the
sizes of the chunks have no capital letter. -/
def Response.Plain (r : Response) : Prop :=
  match find lengthAt r.text with
  | some len => sub r.text r.payload.text len = r.payload.body
  | none => ∃ chunks zeros, r.payload = .chunked chunks zeros ∧ ∀ c ∈ chunks, Small c.size

--
-- Matches
--

variable {α : Type} {p : Bytes → Option α} {s t : Bytes} {c : UInt8}

theorem find_of_some {a : α} (h : p s = some a) : find p s = some a := by
  cases s with
  | nil => exact h
  | cons c t => rw [find, h, some_or]

theorem find_skip (h : p (c :: t) = none) : find p (c :: t) = find p t := by
  rw [find, h, none_or]

theorem lit_append (s t : Bytes) : lit s (s ++ t) = some t := by
  induction s with
  | nil => rfl
  | cons a s ih => rw [cons_append, lit, if_pos rfl, ih]

theorem eq_of_lit {r : Bytes} (h : lit s t = some r) : t = s ++ r := by
  induction s generalizing t with
  | nil => exact Option.some.inj h
  | cons a s ih =>
    cases t with
    | nil => cases h
    | cons b t =>
      rw [lit] at h
      split at h
      · next hab => rw [hab, ih h, cons_append]
      · cases h

/-- A pattern that begins with the empty line. -/
def AtEmptyLine (p : Bytes → Option α) : Prop := ∀ s a, p s = some a → ∃ t, s = emptyLine ++ t

theorem atEmptyLine_lit : AtEmptyLine (lit emptyLine) := fun _ t h => ⟨t, eq_of_lit h⟩

theorem atEmptyLine_chunkAt : AtEmptyLine (chunkAt emptyLine) := fun _ _ h => by
  obtain ⟨t, ht, -⟩ := bind_eq_some_iff.mp h
  exact ⟨t, eq_of_lit ht⟩

theorem AtEmptyLine.skip (hp : AtEmptyLine p) (h : ∀ t', c :: t ≠ emptyLine ++ t') :
    find p (c :: t) = find p t := by
  refine find_skip (eq_none_iff_forall_ne_some.mpr fun a ha => ?_)
  obtain ⟨t', ht⟩ := hp _ _ ha
  exact h t' ht

theorem AtEmptyLine.line (hp : AtEmptyLine p) (hs : 13 ∉ s) : find p (s ++ t) = find p t := by
  induction s with
  | nil => rfl
  | cons c s ih =>
    obtain ⟨hc, hs⟩ := not_or.mp (mem_cons.not.mp hs)
    rw [cons_append, hp.skip fun t' heq => hc (cons.inj heq).1.symm, ih hs]

theorem AtEmptyLine.head (hp : AtEmptyLine p) {lines : List Bytes} (hne : lines ≠ [])
    (hlines : ∀ l ∈ lines, l ≠ [] ∧ 13 ∉ l) : find p (head lines ++ t) = find p (emptyLine ++ t) := by
  induction lines with
  | nil => exact absurd rfl hne
  | cons l lines ih =>
    obtain ⟨⟨-, hl⟩, hlines⟩ := forall_mem_cons.mp hlines
    rw [HttpBody.head, append_assoc, hp.line hl, append_assoc]
    cases lines with
    | nil => rfl
    | cons l' lines =>
      obtain ⟨a, l', rfl⟩ := exists_cons_of_ne_nil (hlines l' (.head _)).1
      have ha : a ≠ 13 := fun heq => (hlines _ (.head _)).2 (heq ▸ .head _)
      rw [← ih (cons_ne_nil _ _) hlines, crlf, cons_append, hp.skip fun t' heq => ?_, cons_append,
        hp.skip fun t' heq => ?_, nil_append]
      · exact absurd (cons.inj heq).1 (by decide)
      · exact ha (cons.inj (cons.inj (cons.inj heq).2).2).1

theorem chunkAt_eq {ds : Bytes} (q : Bytes) (hds : ∀ b ∈ ds, isHex b = true) (hne : ds ≠ [])
    (t : Bytes) : chunkAt q (q ++ (ds ++ (crlf ++ t))) = some (ds, t) := by
  have htake : (ds ++ (crlf ++ t)).takeWhile isHex = ds := by
    rw [takeWhile_append_of_pos hds]
    exact append_right_eq_self.mpr rfl
  have hdrop : (ds ++ (crlf ++ t)).dropWhile isHex = crlf ++ t := by
    rw [dropWhile_append_of_pos hds]
    rfl
  simp only [chunkAt, lit_append, bind_eq_bind, bind_some, htake, hdrop, if_neg hne]

theorem chunkAt_length {q : Bytes} {m : Bytes × Bytes} (h : chunkAt q s = some m) :
    m.2.length + q.length + 3 ≤ s.length := by
  obtain ⟨t, ht, h⟩ := bind_eq_some_iff.mp h
  obtain ⟨rest, hrest, h⟩ := bind_eq_some_iff.mp h
  split at h
  · cases h
  · next hne =>
    obtain rfl := Option.some.inj h
    have hlen := congrArg length (takeWhile_append_dropWhile (p := isHex) (l := t))
    have hpos := length_pos_of_ne_nil hne
    rw [eq_of_lit hrest, length_append, length_append, show crlf.length = 2 from rfl] at hlen
    rw [eq_of_lit ht, length_append]
    show rest.length + q.length + 3 ≤ _
    omega

theorem find_length {q : Bytes} {m : Bytes × Bytes} (h : find (chunkAt q) s = some m) :
    m.2.length + q.length + 3 ≤ s.length := by
  induction s with
  | nil => exact chunkAt_length h
  | cons c s ih =>
    rw [find] at h
    rcases or_eq_some_iff.mp h with h | ⟨-, h⟩
    · exact chunkAt_length h
    · exact (ih h).trans (Nat.le_succ _)

--
-- Chunks
--

theorem hexIndex_eq {b : UInt8} (hb : isHex b = true) :
    hexIndex b = if 65 ≤ b.toNat ∧ b.toNat ≤ 70 then none else digitOf b := by
  have hall : ∀ n : Fin 256, isHex (UInt8.ofNat n) = true → hexIndex (UInt8.ofNat n) =
      if 65 ≤ (UInt8.ofNat n).toNat ∧ (UInt8.ofNat n).toNat ≤ 70 then none
      else digitOf (UInt8.ofNat n) := by
    decide +kernel
  have h := hall ⟨b.toNat, b.toNat_lt⟩
  rw [UInt8.ofNat_toNat] at h
  exact h hb

theorem digitOf_lt {b : UInt8} {d : Nat} (h : digitOf b = some d) : d < 16 := by
  unfold digitOf at h
  split at h
  · obtain rfl := Option.some.inj h
    omega
  · split at h
    · obtain rfl := Option.some.inj h
      omega
    · split at h
      · obtain rfl := Option.some.inj h
        omega
      · cases h

theorem magnitude_hex (hs : ∀ b ∈ s, isHex b = true) (acc : Nat) :
    magnitude 16 acc s = acc * 16 ^ s.length + magnitude 16 0 s := by
  induction s generalizing acc with
  | nil => rw [magnitude, magnitude, length_nil, Nat.pow_zero, Nat.mul_one, Nat.add_zero]
  | cons b s ih =>
    obtain ⟨hb, hs⟩ := forall_mem_cons.mp hs
    obtain ⟨d, hd⟩ := isSome_iff_exists.mp hb
    rw [magnitude, magnitude, hd]
    dsimp only
    rw [if_pos (digitOf_lt hd), if_pos (digitOf_lt hd), ih hs, ih hs (0 * 16 + d), length_cons]
    ring

theorem chunkLen_eq (hs : ∀ b ∈ s, isHex b = true) :
    chunkLen s = if Small s then some (magnitude 16 0 s) else none := by
  induction s with
  | nil => exact (if_pos nofun).symm
  | cons b s ih =>
    obtain ⟨hb, hs⟩ := forall_mem_cons.mp hs
    obtain ⟨d, hd⟩ := isSome_iff_exists.mp hb
    have hval : magnitude 16 0 (b :: s) = d * 16 ^ s.length + magnitude 16 0 s := by
      rw [magnitude, hd]
      dsimp only
      rw [if_pos (digitOf_lt hd), magnitude_hex hs, Nat.zero_mul, Nat.zero_add]
    have hsmall : Small (b :: s) ↔ ¬(65 ≤ b.toNat ∧ b.toNat ≤ 70) ∧ Small s := forall_mem_cons
    rw [chunkLen, hexIndex_eq hb, hd, ih hs, hval]
    by_cases hcap : 65 ≤ b.toNat ∧ b.toNat ≤ 70
    · rw [if_pos hcap, if_neg fun h => (hsmall.mp h).1 hcap]
      rfl
    · rw [if_neg hcap]
      by_cases hrest : Small s
      · rw [if_pos hrest, if_pos (hsmall.mpr ⟨hcap, hrest⟩)]
        rfl
      · rw [if_neg hrest, if_neg fun h => hrest (hsmall.mp h).2]
        rfl

theorem chunkLen_zeros (n : Nat) : chunkLen (replicate n 48) = some 0 := by
  induction n with
  | zero => rfl
  | succ n ih =>
    rw [replicate_succ, chunkLen, ih]
    exact congrArg some (Nat.zero_mul _)

/-- What a match in front of the chunks finds. -/
def front (zeros : Nat) : List Chunk → Bytes × Bytes
  | [] => (replicate (zeros + 1) 48, crlf)
  | c :: cs => (c.size, c.data ++ (crlf ++ encode zeros cs))

theorem chunkAt_encode (q : Bytes) (zeros : Nat) (cs : List Chunk) :
    chunkAt q (q ++ encode zeros cs) = some (front zeros cs) := by
  cases cs with
  | nil => exact chunkAt_eq q (forall_mem_replicate.mpr (.inr rfl)) replicate_succ_ne_nil _
  | cons c cs =>
    refine chunkAt_eq q c.hex (fun hnil => c.ne_nil ?_) _
    have hlen := c.size_eq
    rw [hnil] at hlen
    exact eq_nil_of_length_eq_zero hlen.symm

theorem bodyLoop_front (zeros : Nat) {cs : List Chunk} {fuel : Nat}
    (hfuel : (front zeros cs).2.length < fuel) (body : Bytes) :
    bodyLoop fuel (front zeros cs) body =
      if ∀ c ∈ cs, Small c.size then some (some (body ++ (cs.map Chunk.data).flatten))
      else none := by
  induction cs generalizing fuel body with
  | nil =>
    obtain ⟨fuel, rfl⟩ := Nat.exists_eq_succ_of_ne_zero (Nat.ne_of_gt (Nat.zero_lt_of_lt hfuel))
    rw [if_pos nofun, front, bodyLoop, chunkLen_zeros, map_nil, flatten_nil, append_nil]
    rfl
  | cons c cs ih =>
    obtain ⟨fuel, rfl⟩ := Nat.exists_eq_succ_of_ne_zero (Nat.ne_of_gt (Nat.zero_lt_of_lt hfuel))
    rw [front, bodyLoop, chunkLen_eq c.hex, c.size_eq]
    by_cases hsmall : Small c.size
    · have hnext := chunkAt_encode crlf zeros cs
      have hlen := chunkAt_length hnext
      rw [front, length_append] at hfuel
      have hrest : (∀ d ∈ c :: cs, Small d.size) ↔ ∀ d ∈ cs, Small d.size := by
        rw [forall_mem_cons, and_iff_right hsmall]
      rw [if_pos hsmall, bind_eq_bind, bind_some,
        if_neg (length_pos_of_ne_nil c.ne_nil).ne', drop_left, take_left, find_of_some hnext]
      dsimp only
      rw [ih (by omega), map_cons, flatten_cons, append_assoc]
      exact if_congr hrest.symm rfl rfl
    · rw [if_neg hsmall, if_neg fun h => hsmall (h c (.head _))]
      rfl

theorem bodyLoop_length {fuel : Nat} {m : Bytes × Bytes} {body out : Bytes}
    (h : bodyLoop fuel m body = some (some out)) : out.length ≤ body.length + m.2.length := by
  induction fuel generalizing m body with
  | zero => cases h
  | succ fuel ih =>
    obtain ⟨lenH, rest⟩ := m
    obtain ⟨len, -, h⟩ := bind_eq_some_iff.mp h
    split at h
    · obtain rfl := Option.some.inj (Option.some.inj h)
      exact Nat.le_add_right _ _
    · split at h
      · cases h
      · next next hfind =>
        have hlen := find_length hfind
        have hout := ih h
        rw [length_append, length_take] at hout
        rw [length_drop] at hlen
        dsimp only
        omega

--
-- The body
--

/-- A chunk of ten bytes, its size in a capital letter. -/
def capital : Response where
  lines := [ascii "HTTP/1.1 200 OK", ascii "Transfer-Encoding: chunked"]
  payload := .chunked
    [⟨[65], replicate 10 97, forall_mem_singleton.mpr rfl, rfl, cons_ne_nil _ _⟩] 0
  ne_nil := by decide
  line := by decide

end Supex.Utils.HttpBody
