import Supex.Lib.Bytes

/-!
# JSON texts

The grammar of JSON as a relation between values and texts, one constructor for each
production. A number and a string are kept as they are written. Objects keep their
members in order, so a name may be there twice.

`scan` reads a text with a memory of one byte: outside of strings, no comma stands behind
an opening brace or a comma, and no closing brace behind a comma. All texts of the
grammar pass, so a text that does not is no JSON text.

* `Text.join` — two lists of members, joined with a comma.
* `Text.scan_ok` — every text of the grammar passes.
-/

namespace Supex.Lib

open List
open Option (bind_some)

--
-- The grammar
--

inductive Json where
  | null
  | bool (b : Bool)
  | num (lexeme : Bytes)
  | str (lexeme : Bytes)
  | arr (items : List Json)
  | obj (members : List (Bytes × Json))

/-- White space. -/
def IsWs (w : Bytes) : Prop := ∀ b ∈ w, b = 32 ∨ b = 9 ∨ b = 10 ∨ b = 13

def IsDigits (ds : Bytes) : Prop := ds ≠ [] ∧ ∀ b ∈ ds, 48 ≤ b ∧ b ≤ 57

def IsHex (b : UInt8) : Prop := 48 ≤ b ∧ b ≤ 57 ∨ 65 ≤ b ∧ b ≤ 70 ∨ 97 ≤ b ∧ b ≤ 102

/-- A number: sign, integer, fraction and exponent. -/
structure IsNumber (sign int frac exp : Bytes) : Prop where
  sign : sign = [] ∨ sign = [45]
  int : IsDigits int ∧ (int = [48] ∨ int.head? ≠ some 48)
  frac : frac = [] ∨ ∃ ds, frac = 46 :: ds ∧ IsDigits ds
  exp : exp = [] ∨ ∃ e s ds, exp = e :: (s ++ ds) ∧ (e = 101 ∨ e = 69) ∧
    (s = [] ∨ s = [43] ∨ s = [45]) ∧ IsDigits ds

/-- What stands between the quotes of a string. -/
inductive IsString : Bytes → Prop where
  | nil : IsString []
  | char {b : UInt8} {s : Bytes} (hb : 32 ≤ b) (hq : b ≠ 34) (hs : b ≠ 92) :
      IsString s → IsString (b :: s)
  | escape {b : UInt8} {s : Bytes} (hb : b ∈ ascii "\"\\/bfnrt") :
      IsString s → IsString (92 :: b :: s)
  | unicode {b c d e : UInt8} {s : Bytes} (hb : IsHex b) (hc : IsHex c) (hd : IsHex d)
      (he : IsHex e) : IsString s → IsString (92 :: 117 :: b :: c :: d :: e :: s)

/-- What a text may be: a value, alone or between white space, a member of an object, or
a list of them. -/
inductive Shape where
  | value (v : Json)
  | item (v : Json)
  | member (m : Bytes × Json)
  | items (vs : List Json)
  | members (ms : List (Bytes × Json))

inductive Text : Shape → Bytes → Prop where
  | null : Text (.value .null) (ascii "null")
  | boolTrue : Text (.value (.bool true)) (ascii "true")
  | boolFalse : Text (.value (.bool false)) (ascii "false")
  | num {sign int frac exp : Bytes} (h : IsNumber sign int frac exp) :
      Text (.value (.num (sign ++ int ++ frac ++ exp))) (sign ++ int ++ frac ++ exp)
  | str {s : Bytes} (h : IsString s) : Text (.value (.str s)) (34 :: (s ++ [34]))
  | arr {vs : List Json} {t : Bytes} (h : Text (.items vs) t) :
      Text (.value (.arr vs)) (91 :: (t ++ [93]))
  | obj {ms : List (Bytes × Json)} {t : Bytes} (h : Text (.members ms) t) :
      Text (.value (.obj ms)) (123 :: (t ++ [125]))
  | item {v : Json} {w t w' : Bytes} (hw : IsWs w) (h : Text (.value v) t) (hw' : IsWs w') :
      Text (.item v) (w ++ (t ++ w'))
  | member {k : Bytes} {v : Json} {w w' t : Bytes} (hw : IsWs w) (hk : IsString k)
      (hw' : IsWs w') (h : Text (.item v) t) :
      Text (.member (k, v)) (w ++ 34 :: (k ++ 34 :: (w' ++ 58 :: t)))
  | noItems {w : Bytes} (hw : IsWs w) : Text (.items []) w
  | lastItem {v : Json} {t : Bytes} (h : Text (.item v) t) : Text (.items [v]) t
  | consItem {v v' : Json} {vs : List Json} {t rest : Bytes} (h : Text (.item v) t)
      (hrest : Text (.items (v' :: vs)) rest) : Text (.items (v :: v' :: vs)) (t ++ 44 :: rest)
  | noMembers {w : Bytes} (hw : IsWs w) : Text (.members []) w
  | lastMember {m : Bytes × Json} {t : Bytes} (h : Text (.member m) t) : Text (.members [m]) t
  | consMember {m m' : Bytes × Json} {ms : List (Bytes × Json)} {t rest : Bytes}
      (h : Text (.member m) t) (hrest : Text (.members (m' :: ms)) rest) :
      Text (.members (m :: m' :: ms)) (t ++ 44 :: rest)

/-- A JSON text that is an object with these members. -/
def ObjectText (ms : List (Bytes × Json)) (t : Bytes) : Prop := Text (.item (.obj ms)) t

theorem objectText_iff {ms : List (Bytes × Json)} {t : Bytes} :
    ObjectText ms t ↔ ∃ w inner w', IsWs w ∧ Text (.members ms) inner ∧ IsWs w' ∧
      t = w ++ 123 :: (inner ++ 125 :: w') := by
  constructor
  · intro h
    cases h with
    | @item _ w _ w' hw h hw' =>
      cases h with
      | @obj _ inner h => exact ⟨w, inner, w', hw, h, hw', by simp⟩
  · rintro ⟨w, inner, w', hw, h, hw', rfl⟩
    have := Text.item hw (.obj h) hw'
    rw [ObjectText]
    simpa using this

theorem Text.join {ms ns : List (Bytes × Json)} {t u : Bytes} (ht : Text (.members ms) t)
    (hms : ms ≠ []) (hu : Text (.members ns) u) (hns : ns ≠ []) :
    Text (.members (ms ++ ns)) (t ++ 44 :: u) := by
  induction ms generalizing t with
  | nil => exact absurd rfl hms
  | cons m ms ih =>
    obtain ⟨n, ns, rfl⟩ := exists_cons_of_ne_nil hns
    cases ht with
    | lastMember h => exact .consMember h hu
    | consMember h hrest =>
      have := Text.consMember h (ih hrest (by simp))
      simpa using this

--
-- Bytes
--

theorem IsWs.ne {w : Bytes} (h : IsWs w) {b : UInt8} (h32 : b ≠ 32) (h9 : b ≠ 9) (h10 : b ≠ 10)
    (h13 : b ≠ 13) : b ∉ w := by
  intro hb
  rcases h b hb with rfl | rfl | rfl | rfl
  · exact h32 rfl
  · exact h9 rfl
  · exact h10 rfl
  · exact h13 rfl

/-- The bytes of a number. -/
def IsNumberByte (b : UInt8) : Prop := b = 43 ∨ b = 45 ∨ b = 46 ∨ b = 69 ∨ b = 101 ∨
  48 ≤ b ∧ b ≤ 57

theorem IsNumber.bytes {sign int frac exp : Bytes} (h : IsNumber sign int frac exp) :
    ∀ b ∈ sign ++ int ++ frac ++ exp, IsNumberByte b := by
  have hdigits : ∀ {ds : Bytes}, IsDigits ds → ∀ b ∈ ds, IsNumberByte b :=
    fun hds b hb => .inr (.inr (.inr (.inr (.inr (hds.2 b hb)))))
  intro b hb
  simp only [mem_append] at hb
  rcases hb with ((hb | hb) | hb) | hb
  · rcases h.sign with rfl | rfl
    · simp at hb
    · simp only [mem_singleton] at hb
      exact .inr (.inl hb)
  · exact hdigits h.int.1 b hb
  · rcases h.frac with rfl | ⟨ds, rfl, hds⟩
    · simp at hb
    · rcases mem_cons.mp hb with rfl | hb
      · exact .inr (.inr (.inl rfl))
      · exact hdigits hds b hb
  · rcases h.exp with rfl | ⟨e, s, ds, rfl, he, hs, hds⟩
    · simp at hb
    · rcases mem_cons.mp hb with rfl | hb
      · rcases he with rfl | rfl
        · exact .inr (.inr (.inr (.inr (.inl rfl))))
        · exact .inr (.inr (.inr (.inl rfl)))
      · rcases mem_append.mp hb with hb | hb
        · rcases hs with rfl | rfl | rfl
          · simp at hb
          · exact .inl (mem_singleton.mp hb)
          · exact .inr (.inl (mem_singleton.mp hb))
        · exact hdigits hds b hb

theorem IsNumber.ne_nil {sign int frac exp : Bytes} (h : IsNumber sign int frac exp) :
    sign ++ int ++ frac ++ exp ≠ [] := by
  have := h.int.1.1
  simp [this]

theorem IsString.zero_notMem {s : Bytes} (h : IsString s) : (0 : UInt8) ∉ s := by
  induction h with
  | nil => simp
  | char hb _ _ _ ih =>
    rintro (_ | ⟨_, h⟩)
    · exact absurd hb (by decide)
    · exact ih h
  | @escape b s hb _ ih =>
    have : (0 : UInt8) ≠ b := by
      rintro rfl
      exact absurd hb (by decide)
    simp [this, ih]
  | @unicode b c d e s hb hc hd he _ ih =>
    have hne : ∀ {x : UInt8}, IsHex x → (0 : UInt8) ≠ x := by
      rintro x hx rfl
      exact absurd hx (by unfold IsHex; decide)
    simp [hne hb, hne hc, hne hd, hne he, ih]

theorem Text.zero_notMem {sh : Shape} {t : Bytes} (h : Text sh t) : (0 : UInt8) ∉ t := by
  have hws : ∀ {w : Bytes}, IsWs w → (0 : UInt8) ∉ w :=
    fun hw => hw.ne (by decide) (by decide) (by decide) (by decide)
  induction h with
  | null => decide
  | boolTrue => decide
  | boolFalse => decide
  | num h =>
    intro h0
    exact absurd (h.bytes 0 h0) (by unfold IsNumberByte; decide)
  | str h => simp [h.zero_notMem]
  | arr _ ih => simp [ih]
  | obj _ ih => simp [ih]
  | item hw _ hw' ih => simp [hws hw, hws hw', ih]
  | member hw hk hw' _ ih => simp [hws hw, hws hw', hk.zero_notMem, ih]
  | noItems hw => exact hws hw
  | lastItem _ ih => exact ih
  | consItem _ _ ih ih' => simp [ih, ih']
  | noMembers hw => exact hws hw
  | lastMember _ ih => exact ih
  | consMember _ _ ih ih' => simp [ih, ih']

--
-- Reading a text with a memory of one byte
--

/-- Outside of strings, with the last byte that is not white space; inside a string;
behind a backslash. -/
inductive Scan where
  | out (last : UInt8)
  | str
  | esc
  deriving DecidableEq

/-- White space and bytes that a text may have anywhere outside of strings. -/
def isBlank (b : UInt8) : Bool := b = 32 || b = 9 || b = 10 || b = 13

def Scan.next : Scan → UInt8 → Option Scan
  | .out last, b =>
    if isBlank b then some (.out last)
    else if b = 34 then some .str
    else if b = 44 ∧ (last = 44 ∨ last = 123) ∨ b = 125 ∧ last = 44 then none
    else some (.out b)
  | .str, b => some (if b = 34 then .out 34 else if b = 92 then .esc else .str)
  | .esc, _ => some .str

def scan : Scan → Bytes → Option Scan
  | s, [] => some s
  | s, b :: t => (s.next b).bind fun s' => scan s' t

theorem scan_append (s : Scan) (t u : Bytes) :
    scan s (t ++ u) = (scan s t).bind fun s' => scan s' u := by
  induction t generalizing s with
  | nil => rfl
  | cons b t ih =>
    rw [cons_append, scan, scan, Option.bind_assoc]
    exact congrArg _ (funext ih)

theorem scan_ws {w : Bytes} (h : IsWs w) (last : UInt8) :
    scan (.out last) w = some (.out last) := by
  induction w with
  | nil => rfl
  | cons b w ih =>
    have hb : isBlank b = true := by
      rcases h b (.head _) with rfl | rfl | rfl | rfl <;> decide
    rw [scan, Scan.next, if_pos hb]
    exact ih fun x hx => h x (.tail _ hx)

theorem scan_string {s : Bytes} (h : IsString s) (rest : Bytes) :
    scan .str (s ++ 34 :: rest) = scan (.out 34) rest := by
  induction h with
  | nil => rfl
  | char hb hq hs _ ih =>
    rw [cons_append, scan, Scan.next, if_neg hq, if_neg hs]
    exact ih
  | escape _ _ ih => exact ih
  | @unicode b c d e s hb hc hd he _ ih =>
    have hstr : ∀ {x : UInt8} {t : Bytes}, IsHex x → scan .str (x :: t) = scan .str t := by
      intro x t hx
      have hq : x ≠ 34 := by
        rintro rfl
        exact absurd hx (by unfold IsHex; decide)
      have hs : x ≠ 92 := by
        rintro rfl
        exact absurd hx (by unfold IsHex; decide)
      rw [scan, Scan.next, if_neg hq, if_neg hs]
      rfl
    change scan .str (b :: c :: d :: e :: (s ++ 34 :: rest)) = _
    rw [hstr hb, hstr hc, hstr hd, hstr he, ih]

/-- A byte that only stands for itself. -/
def isPlain (b : UInt8) : Bool := !isBlank b && b ≠ 34 && b ≠ 44 && b ≠ 123 && b ≠ 125

theorem Scan.next_plain {b : UInt8} (h : isPlain b = true) (last : UInt8) :
    (Scan.out last).next b = some (.out b) := by
  simp only [isPlain, Bool.and_eq_true, Bool.not_eq_true', decide_eq_true_eq] at h
  obtain ⟨⟨⟨⟨hblank, hq⟩, hc⟩, -⟩, hb⟩ := h
  rw [Scan.next, if_neg (by simp [hblank]), if_neg hq, if_neg]
  rintro (⟨h, -⟩ | ⟨h, -⟩)
  · exact hc h
  · exact hb h

theorem scan_plain {t : Bytes} (h : ∀ b ∈ t, isPlain b = true) (hne : t ≠ []) (last : UInt8) :
    ∃ last', scan (.out last) t = some (.out last') ∧ isPlain last' = true := by
  induction t generalizing last with
  | nil => exact absurd rfl hne
  | cons b t ih =>
    have hb := h b (.head _)
    rw [scan, Scan.next_plain hb]
    cases t with
    | nil => exact ⟨b, rfl, hb⟩
    | cons c t => exact ih (fun x hx => h x (.tail _ hx)) (by simp) b

theorem isPlain_iff {b : UInt8} : isPlain b = true ↔
    b ∉ [32, 9, 10, 13, 34, 44, 123, 125] := by
  simp [isPlain, isBlank, and_assoc]

theorem IsNumberByte.isPlain {b : UInt8} (h : IsNumberByte b) : isPlain b = true := by
  rw [isPlain_iff]
  intro hb
  simp only [mem_cons, not_mem_nil, or_false] at hb
  rcases hb with rfl | rfl | rfl | rfl | rfl | rfl | rfl | rfl
  all_goals exact absurd h (by unfold IsNumberByte; decide)

/-- A list without elements. -/
def Shape.Bare : Shape → Prop
  | .items [] => True
  | .members [] => True
  | _ => False

theorem Scan.next_close {last : UInt8} (h : last ≠ 44) :
    (Scan.out last).next 125 = some (.out 125) := by
  rw [Scan.next, if_neg (by decide), if_neg (by decide), if_neg]
  rintro (⟨h', -⟩ | ⟨-, h'⟩)
  · exact absurd h' (by decide)
  · exact h h'

theorem Scan.next_comma {last : UInt8} (h : last ≠ 44) (h' : last ≠ 123) :
    (Scan.out last).next 44 = some (.out 44) := by
  rw [Scan.next, if_neg (by decide), if_neg (by decide), if_neg]
  rintro (⟨-, hl⟩ | ⟨hb, -⟩)
  · exact hl.elim h h'
  · exact absurd hb (by decide)

/-- How a text of this shape passes, behind any byte: a bare list leaves the last byte, and
everything else a byte behind which a comma or a closing brace may stand. -/
def Passes (sh : Shape) (t : Bytes) : Prop :=
  ∀ last, ∃ last', scan (.out last) t = some (.out last') ∧ (sh.Bare → last' = last) ∧
    (¬sh.Bare → last' ≠ 44 ∧ last' ≠ 123)

theorem Text.scan_ok {sh : Shape} {t : Bytes} (h : Text sh t) : Passes sh t := by
  have hplain : ∀ {sh : Shape} {t : Bytes}, ¬sh.Bare → (∀ b ∈ t, isPlain b = true) → t ≠ [] →
      Passes sh t := by
    intro sh t hbare ht hne last
    obtain ⟨last', heq, hl⟩ := scan_plain ht hne last
    refine ⟨last', heq, fun hb => absurd hb hbare, fun _ => ⟨?_, ?_⟩⟩
    · rintro rfl
      exact absurd hl (by decide)
    · rintro rfl
      exact absurd hl (by decide)
  -- an element or member, a comma and the rest of its list
  have hcomma : ∀ {sh sh₁ sh₂ : Shape} {t rest : Bytes}, ¬sh₁.Bare → ¬sh₂.Bare → ¬sh.Bare →
      Passes sh₁ t → Passes sh₂ rest → Passes sh (t ++ 44 :: rest) := by
    intro sh sh₁ sh₂ t rest h₁ h₂ hsh ht hrest last
    obtain ⟨l₁, heq₁, -, hfull₁⟩ := ht last
    obtain ⟨l₂, heq₂, -, hfull₂⟩ := hrest 44
    refine ⟨l₂, ?_, fun hb => absurd hb hsh, fun _ => hfull₂ h₂⟩
    rw [scan_append, heq₁, bind_some, scan, Scan.next_comma (hfull₁ h₁).1 (hfull₁ h₁).2,
      bind_some, heq₂]
  induction h with
  | null => exact hplain id (all_eq_true.mp rfl) nofun
  | boolTrue => exact hplain id (all_eq_true.mp rfl) nofun
  | boolFalse => exact hplain id (all_eq_true.mp rfl) nofun
  | num h => exact hplain id (fun b hb => (h.bytes b hb).isPlain) h.ne_nil
  | str h =>
    intro last
    refine ⟨34, ?_, fun hb => hb.elim, fun _ => by decide⟩
    exact scan_string h []
  | arr _ ih =>
    intro last
    obtain ⟨last', heq, -, -⟩ := ih 91
    refine ⟨93, ?_, fun hb => hb.elim, fun _ => by decide⟩
    rw [scan, Scan.next_plain (by decide), bind_some, scan_append, heq, bind_some,
      scan, Scan.next_plain (by decide)]
    rfl
  | @obj ms t _ ih =>
    intro last
    obtain ⟨last', heq, hbare, hfull⟩ := ih 123
    have hl : last' ≠ 44 := by
      by_cases hms : (Shape.members ms).Bare
      · rw [hbare hms]
        decide
      · exact (hfull hms).1
    refine ⟨125, ?_, fun hb => hb.elim, fun _ => by decide⟩
    have hopen : (Scan.out last).next 123 = some (.out 123) := rfl
    rw [scan, hopen, bind_some, scan_append, heq, bind_some, scan, Scan.next_close hl]
    rfl
  | item hw _ hw' ih =>
    intro last
    obtain ⟨last', heq, -, hfull⟩ := ih last
    refine ⟨last', ?_, fun hb => hb.elim, fun _ => hfull id⟩
    simp only [scan_append, scan_ws hw, bind_some, heq, scan_ws hw']
  | @member k v w w' t hw hk hw' _ ih =>
    intro last
    obtain ⟨last', heq, -, hfull⟩ := ih 58
    refine ⟨last', ?_, fun hb => hb.elim, fun _ => hfull id⟩
    have hquote : scan (.out last) (34 :: (k ++ 34 :: (w' ++ 58 :: t))) =
        scan .str (k ++ 34 :: (w' ++ 58 :: t)) := rfl
    rw [scan_append, scan_ws hw, bind_some, hquote, scan_string hk, scan_append,
      scan_ws hw', bind_some, scan, Scan.next_plain (by decide), bind_some, heq]
  | noItems hw =>
    exact fun last => ⟨last, scan_ws hw last, fun _ => rfl, fun hb => absurd trivial hb⟩
  | lastItem _ ih =>
    intro last
    obtain ⟨last', heq, -, hfull⟩ := ih last
    exact ⟨last', heq, fun hb => hb.elim, fun _ => hfull id⟩
  | consItem _ _ ih ih' => exact hcomma id id id ih ih'
  | noMembers hw =>
    exact fun last => ⟨last, scan_ws hw last, fun _ => rfl, fun hb => absurd trivial hb⟩
  | lastMember _ ih =>
    intro last
    obtain ⟨last', heq, -, hfull⟩ := ih last
    exact ⟨last', heq, fun hb => hb.elim, fun _ => hfull id⟩
  | consMember _ _ ih ih' => exact hcomma id id id ih ih'

end Supex.Lib
