import Supex.Lib.Percent
import Supex.Lib.Strtol
import Mathlib.Data.List.TakeWhile

/-!
# utils: URL forms

`url_encode` writes a line feed with a carriage return in front and then every byte that
is no letter and no digit as `%` and two digits; `url_decode` undoes it from the last
step on. `gen_url` joins the entries of a table, `parse_url` looks for them again.

`gen_url` joins the first entry with `..` and the others with `string.format`, whose `%s`
cuts a string of less than 100 bytes at its first NUL.

Main result: `url_iff`.
-/

namespace Supex.Utils

open List

open Lib (percent hexDigit escape)

--
-- The codec
--

/-- `%w`. -/
def isAlnum (c : UInt8) : Bool :=
  (48 ≤ c && c ≤ 57) || (65 ≤ c && c ≤ 90) || (97 ≤ c && c ≤ 122)

/-- `gsub(str, "\n", "\r\n")`. -/
def expandLines (s : Bytes) : Bytes := s.flatMap fun c => if c = 10 then [13, 10] else [c]

/-- `url_encode`. No blank is left for the last `gsub`. -/
def urlEncode (s : Bytes) : Bytes :=
  ((expandLines s).flatMap fun c => if isAlnum c then [c] else escape 97 c).map
    fun c => if c = 32 then 43 else c

/-- `string.char(tonumber(h, 16))`. -/
def unhex (h₁ h₂ : UInt8) : Option UInt8 := do
  let d₁ ← digitOf h₁
  let d₂ ← digitOf h₂
  return UInt8.ofNat (d₁ * 16 + d₂)

/-- `gsub(str, "%%(%x%x)", ..)`. -/
def unescape : Bytes → Bytes
  | 37 :: h₁ :: h₂ :: rest =>
    match unhex h₁ h₂ with
    | some c => c :: unescape rest
    | none => 37 :: unescape (h₁ :: h₂ :: rest)
  | c :: rest => c :: unescape rest
  | [] => []

/-- `gsub(str, "\r\n", "\n")`. -/
def joinLines : Bytes → Bytes
  | 13 :: 10 :: rest => 10 :: joinLines rest
  | c :: rest => c :: joinLines rest
  | [] => []

def urlDecode (s : Bytes) : Bytes :=
  joinLines (unescape (s.map fun c => if c = 43 then 32 else c))

--
-- Tables
--

abbrev Table := Bytes → Option Bytes

/-- The table after the assignments `t[k] = v`. -/
def tableOf (l : List (Bytes × Bytes)) : Table :=
  l.foldl (fun t e => Function.update t e.1 (some e.2)) fun _ => none

/-- `%s` of `string.format`. -/
def fmtS (s : Bytes) : Bytes := if 100 ≤ s.length then s else cstr s

/-- A step of the loop of `gen_url`. -/
def genEntry (url : Option Bytes) (e : Bytes × Bytes) : Option Bytes :=
  match url with
  | some url => some (fmtS url ++ 38 :: (fmtS e.1 ++ 61 :: fmtS e.2))
  | none => some (e.1 ++ 61 :: e.2)

/-- `gen_url`, of a table that `pairs` enumerates in this order. -/
def genUrl (l : List (Bytes × Bytes)) : Option Bytes := l.foldl genEntry none

/-- `[^=&]`. -/
def isPart (c : UInt8) : Bool := c ≠ 61 && c ≠ 38

/-- `gmatch(s, "([^=&]+)=([^=&]*)")`: a key is as long as it can be, and so is a value. -/
def entries : Bytes → List (Bytes × Bytes)
  | [] => []
  | c :: rest =>
    let t := rest.dropWhile isPart
    if isPart c ∧ t.head? = some 61 then
      (c :: rest.takeWhile isPart, t.tail.takeWhile isPart) :: entries (t.tail.dropWhile isPart)
    else entries rest
  termination_by s => s.length
  decreasing_by
    · have h₁ := (dropWhile_sublist isPart (l := rest)).length_le
      have h₂ := (dropWhile_sublist isPart (l := (rest.dropWhile isPart).tail)).length_le
      rw [length_tail] at h₂
      simp only [length_cons]
      omega
    · exact Nat.lt_succ_self _

def parseUrl (s : Option Bytes) : Option Table :=
  s.map fun s => tableOf ((entries s).map fun e => (e.1, urlDecode e.2))

--
-- The codec comes back
--

theorem unhex_hexDigits (c : UInt8) :
    unhex (hexDigit 97 (c.toNat / 16)) (hexDigit 97 (c.toNat % 16)) = some c :=
  Lib.join_hexDigits (f := some) (by decide +kernel) c

/-- The bytes of an encoded text. -/
def isText (c : UInt8) : Bool := isAlnum c || c == percent

theorem isText_escape (c : UInt8) : ∀ x ∈ escape 97 c, isText x = true := by
  have hdigit : ∀ n : Fin 16, isText (hexDigit 97 n) = true := by decide +kernel
  have hc := c.toNat_lt
  refine forall_mem_cons.mpr ⟨rfl, forall_mem_cons.mpr ⟨?_, ?_⟩⟩
  · exact hdigit ⟨c.toNat / 16, by omega⟩
  · intro x hx
    rw [mem_singleton.mp hx]
    exact hdigit ⟨c.toNat % 16, by omega⟩

/-- The text before blanks are replaced. -/
def escaped (s : Bytes) : Bytes := s.flatMap fun c => if isAlnum c then [c] else escape 97 c

theorem isText_escaped (s : Bytes) : ∀ x ∈ escaped s, isText x = true := by
  intro x hx
  obtain ⟨c, -, hx⟩ := mem_flatMap.mp hx
  split at hx
  · next hc =>
    rw [mem_singleton.mp hx, isText, hc, Bool.true_or]
  · exact isText_escape c x hx

theorem map_replace {s : Bytes} {a b : UInt8} (hs : ∀ x ∈ s, isText x = true)
    (ha : isText a = false) : s.map (fun c => if c = a then b else c) = s := by
  refine (map_congr_left fun c hc => if_neg fun heq => ?_).trans (map_id _)
  exact absurd (hs c hc) (by rw [heq, ha]; exact Bool.false_ne_true)

theorem unescape_escaped (s : Bytes) : unescape (escaped s) = s := by
  unfold escaped
  induction s with
  | nil => rfl
  | cons c s ih =>
    rw [flatMap_cons]
    split
    · next hc =>
      have hpercent : c ≠ 37 := fun heq => by
        rw [heq] at hc
        cases hc
      rw [singleton_append, unescape, ih]
      exact fun _ _ _ heq => absurd heq hpercent
    · show unescape (37 :: _ :: _ :: _) = _
      rw [unescape, unhex_hexDigits]
      exact congrArg (c :: ·) ih

theorem joinLines_expandLines (s : Bytes) : joinLines (expandLines s) = s := by
  unfold expandLines
  induction s with
  | nil => rfl
  | cons c s ih =>
    rw [flatMap_cons]
    split
    · next hc =>
      rw [hc]
      show joinLines (13 :: 10 :: s.flatMap _) = _
      rw [joinLines, ih]
    · next hc =>
      rw [singleton_append, joinLines, ih]
      -- a line feed stands behind a carriage return only
      rintro rest - heq
      cases s with
      | nil => cases heq
      | cons d s =>
        rw [flatMap_cons] at heq
        split at heq
        · cases heq
        · next hd => exact hd (List.cons.inj heq).1

theorem urlEncode_eq (s : Bytes) : urlEncode s = escaped (expandLines s) :=
  map_replace (isText_escaped _) rfl

theorem urlDecode_urlEncode (s : Bytes) : urlDecode (urlEncode s) = s := by
  rw [urlEncode_eq, urlDecode, map_replace (isText_escaped _) rfl, unescape_escaped,
    joinLines_expandLines]

--
-- Entries
--

theorem entries_cons_of_not {c : UInt8} (h : isPart c = false) (rest : Bytes) :
    entries (c :: rest) = entries rest := by
  rw [entries]
  exact if_neg fun hc => by rw [h] at hc; exact Bool.false_ne_true hc.1

theorem entries_amp (s t : Bytes) : entries (s ++ 38 :: t) = entries s ++ entries t := by
  have htake : ∀ r : Bytes, (r ++ 38 :: t).takeWhile isPart = r.takeWhile isPart := by
    intro r
    induction r with
    | nil => rfl
    | cons c r ih => rw [cons_append, takeWhile_cons, takeWhile_cons, ih]
  have hdrop : ∀ r : Bytes, (r ++ 38 :: t).dropWhile isPart = r.dropWhile isPart ++ 38 :: t := by
    intro r
    induction r with
    | nil => rfl
    | cons c r ih =>
      rw [cons_append, dropWhile_cons, dropWhile_cons, ih]
      split <;> rfl
  induction s using entries.induct with
  | case1 => exact (entries_cons_of_not rfl t).trans (by rw [entries]; rfl)
  | case2 c rest r hc ih =>
    obtain ⟨t', ht'⟩ := head?_eq_some_iff.mp hc.2
    have hr : rest.dropWhile isPart = 61 :: t' := ht'
    rw [cons_append, entries, entries, hdrop, hr, htake]
    rw [show r = 61 :: t' from hr] at ih
    simp only [cons_append, head?_cons, tail_cons, hc.1, and_self, if_true, htake,
      hdrop]
    rw [tail_cons] at ih
    rw [ih]
  | case3 c rest r hc ih =>
    rw [cons_append, entries, entries, if_neg hc, ih, hdrop]
    refine if_neg fun h => hc ⟨h.1, ?_⟩
    cases hr : rest.dropWhile isPart with
    | nil =>
      rw [hr] at h
      exact absurd h.2 (by simp)
    | cons d t' =>
      rw [hr] at h
      rw [show r = d :: t' from hr]
      exact h.2

theorem entries_single {k v : Bytes} (hne : k ≠ []) (hk : ∀ c ∈ k, isPart c = true)
    (hv : ∀ c ∈ v, isPart c = true) : entries (k ++ 61 :: v) = [(k, v)] := by
  obtain ⟨c, ks, rfl⟩ := exists_cons_of_ne_nil hne
  obtain ⟨hc, hks⟩ := forall_mem_cons.mp hk
  have hdrop : (ks ++ 61 :: v).dropWhile isPart = 61 :: v := by
    rw [dropWhile_append_of_pos hks]
    rfl
  rw [cons_append, entries, hdrop, takeWhile_append_stop hks rfl]
  simp only [head?_cons, tail_cons, hc, and_self, if_true]
  rw [takeWhile_eq_self_iff.mpr hv, dropWhile_eq_nil_iff.mpr hv, entries]

theorem mem_of_mem_entries {s : Bytes} {e : Bytes × Bytes} (he : e ∈ entries s) {x : UInt8}
    (hx : x ∈ e.1) : x ∈ s := by
  induction s using entries.induct with
  | case1 =>
    rw [entries] at he
    cases he
  | case2 c rest t hc ih =>
    rw [entries, if_pos hc] at he
    rcases mem_cons.mp he with rfl | he
    · rcases mem_cons.mp hx with rfl | hx
      · exact .head _
      · exact .tail _ ((takeWhile_sublist _).mem hx)
    · have hsub := (dropWhile_sublist isPart (l := t.tail)).trans (tail_sublist t)
      exact .tail _ ((hsub.trans (dropWhile_sublist _)).mem (ih he))
  | case3 c rest t hc ih =>
    rw [entries, if_neg hc] at he
    exact .tail _ (ih he)

--
-- Joining
--

/-- An entry that can be found again. -/
structure Entry (e : Bytes × Bytes) : Prop where
  ne_nil : e.1 ≠ []
  key : ∀ c ∈ e.1, isPart c = true
  value : ∀ c ∈ e.2, isPart c = true
  nul_free : 0 ∉ e.2

/-- `%s` keeps the string. -/
def Keeps (s : Bytes) : Prop := 0 ∈ s → 100 ≤ s.length

theorem fmtS_of_keeps {s : Bytes} (h : Keeps s) : fmtS s = s := by
  unfold fmtS
  split
  · rfl
  · next hlen =>
    refine takeWhile_eq_self_iff.mpr fun c hc => ?_
    have hc0 : c ≠ 0 := fun heq => hlen (h (heq ▸ hc))
    simpa using hc0

theorem fmtS_cases (s : Bytes) : Keeps s ∧ fmtS s = s ∨ 0 ∉ fmtS s := by
  by_cases h : Keeps s
  · exact .inl ⟨h, fmtS_of_keeps h⟩
  · obtain ⟨-, hlen⟩ := Classical.not_imp.mp h
    refine .inr fun hmem => ?_
    rw [fmtS, if_neg hlen] at hmem
    simpa using mem_takeWhile_imp hmem

variable {l : List (Bytes × Bytes)} {url k v : Bytes}

theorem genLoop_entries (hurl : Keeps url) (hl : ∀ e ∈ l, Entry e ∧ Keeps e.1) :
    ∃ url', l.foldl genEntry (some url) = some url' ∧ entries url' = entries url ++ l := by
  induction l generalizing url with
  | nil => exact ⟨url, rfl, (append_nil _).symm⟩
  | cons e l ih =>
    obtain ⟨⟨he, hkeeps⟩, hl⟩ := forall_mem_cons.mp hl
    have hstep : genEntry (some url) e = some (url ++ 38 :: (e.1 ++ 61 :: e.2)) := by
      rw [genEntry, fmtS_of_keeps hurl, fmtS_of_keeps hkeeps,
        fmtS_of_keeps fun h => absurd h he.nul_free]
    have hurl' : Keeps (url ++ 38 :: (e.1 ++ 61 :: e.2)) := by
      intro hmem
      simp only [length_append, length_cons]
      simp only [mem_append, mem_cons, he.nul_free, or_false] at hmem
      rcases hmem with hmem | hmem | hmem | hmem
      · have := hurl hmem
        omega
      · cases hmem
      · have := hkeeps hmem
        omega
      · cases hmem
    obtain ⟨url', hfold, hentries⟩ := ih hurl' hl
    refine ⟨url', by rw [foldl_cons, hstep, hfold], ?_⟩
    rw [hentries, entries_amp, entries_single he.ne_nil he.key he.value, append_assoc]
    rfl

theorem genLoop_lost (hk : 0 ∈ k) (hshort : k.length < 100) (hurl : ∀ e ∈ entries url, e.1 ≠ k)
    (hl : ∀ e ∈ l, Entry e) :
    ∃ url', l.foldl genEntry (some url) = some url' ∧ ∀ e ∈ entries url', e.1 ≠ k := by
  induction l generalizing url with
  | nil => exact ⟨url, rfl, hurl⟩
  | cons e l ih =>
    obtain ⟨he, hl⟩ := forall_mem_cons.mp hl
    -- a key of a text without a NUL has none
    have hfree : ∀ {s : Bytes}, 0 ∉ s → ∀ e' ∈ entries s, e'.1 ≠ k := fun hs e' he' heq =>
      hs (mem_of_mem_entries he' (heq ▸ hk))
    refine @ih (fmtS url ++ 38 :: (fmtS e.1 ++ 61 :: fmtS e.2)) (fun e' he' => ?_) hl
    rw [fmtS_of_keeps (s := e.2) fun h => absurd h he.nul_free, entries_amp] at he'
    rcases mem_append.mp he' with he' | he'
    · rcases fmtS_cases url with ⟨-, heq⟩ | hnul
      · exact hurl e' (heq ▸ he')
      · exact hfree hnul e' he'
    · rcases fmtS_cases e.1 with ⟨hkeeps, heq⟩ | hnul
      · rw [heq, entries_single he.ne_nil he.key he.value] at he'
        rw [mem_singleton.mp he']
        intro heq'
        have := hkeeps (heq' ▸ hk)
        rw [heq'] at this
        omega
      · refine hfree (fun hmem => ?_) e' he'
        rcases mem_append.mp hmem with hmem | hmem
        · exact hnul hmem
        · rcases mem_cons.mp hmem with hmem | hmem
          · cases hmem
          · exact he.nul_free hmem

--
-- Tables
--

theorem assign_of_notMem (t : Table) (h : ∀ e ∈ l, e.1 ≠ k) :
    l.foldl (fun (t : Table) e => Function.update t e.1 (some e.2)) t k = t k := by
  induction l generalizing t with
  | nil => rfl
  | cons e l ih =>
    rw [foldl_cons, ih _ fun x hx => h x (.tail _ hx),
      Function.update_of_ne (h e (.head _)).symm]

theorem tableOf_of_mem (hnodup : (l.map Prod.fst).Nodup) (h : (k, v) ∈ l) :
    tableOf l k = some v := by
  unfold tableOf
  generalize (fun _ => none : Table) = t
  induction l generalizing t with
  | nil => cases h
  | cons e l ih =>
    obtain ⟨hnot, hnodup⟩ := nodup_cons.mp hnodup
    rw [foldl_cons]
    rcases mem_cons.mp h with rfl | h
    · have hl : ∀ x ∈ l, x.1 ≠ k := fun x hx heq => hnot (mem_map.mpr ⟨x, hx, heq⟩)
      rw [assign_of_notMem _ hl, Function.update_self]
    · exact ih hnodup h _

theorem tableOf_perm {l' : List (Bytes × Bytes)} (h : l'.Perm l) (hnodup : (l.map Prod.fst).Nodup) :
    tableOf l' = tableOf l := by
  funext k
  by_cases hk : ∃ e ∈ l, e.1 = k
  · obtain ⟨e, he, rfl⟩ := hk
    rw [tableOf_of_mem hnodup he,
      tableOf_of_mem ((h.map Prod.fst).nodup_iff.mpr hnodup) (h.mem_iff.mpr he)]
  · have hl : ∀ e ∈ l, e.1 ≠ k := fun e he heq => hk ⟨e, he, heq⟩
    have hl' : ∀ e ∈ l', e.1 ≠ k := fun e he => hl e (h.mem_iff.mp he)
    rw [tableOf, assign_of_notMem _ hl', tableOf, assign_of_notMem _ hl]

/-- A table of values, its keys being what the form can hold. -/
structure Params where
  list : List (Bytes × Bytes)
  nodup : (list.map Prod.fst).Nodup
  keys : ∀ e ∈ list, e.1 ≠ [] ∧ 61 ∉ e.1 ∧ 38 ∉ e.1

/-- The entries with their values encoded. -/
def encoded (l : List (Bytes × Bytes)) : List (Bytes × Bytes) := l.map fun e => (e.1, urlEncode e.2)

theorem Params.entry (T : Params) (h : l.Perm T.list) : ∀ e ∈ encoded l, Entry e := by
  intro e he
  obtain ⟨x, hx, rfl⟩ := mem_map.mp he
  obtain ⟨hne, heq, hamp⟩ := T.keys x (h.mem_iff.mp hx)
  have htext : ∀ c ∈ urlEncode x.2, isText c = true := by
    rw [urlEncode_eq]
    exact isText_escaped _
  refine ⟨hne, fun c hc => ?_, fun c hc => ?_, fun hc => absurd (htext 0 hc) (by decide)⟩
  · have h61 : c ≠ 61 := fun h => heq (h ▸ hc)
    have h38 : c ≠ 38 := fun h => hamp (h ▸ hc)
    simp [isPart, h61, h38]
  · have h61 : c ≠ 61 := fun h => absurd (htext c hc) (by rw [h]; decide)
    have h38 : c ≠ 38 := fun h => absurd (htext c hc) (by rw [h]; decide)
    simp [isPart, h61, h38]

theorem parseUrl_of_entries (h : entries url = encoded l) : parseUrl (some url) = some (tableOf l) := by
  rw [parseUrl, Option.map_some, h, encoded, map_map]
  refine congrArg (some ∘ tableOf) ((map_congr_left fun e _ => ?_).trans (map_id _))
  exact Prod.ext rfl (urlDecode_urlEncode e.2)

/-- **URL forms.** Every string comes back from its encoding; a table comes back from its
form in every order if and only if it has an entry, and only one or no key of less than
100 bytes with a NUL. -/
theorem url_iff (T : Params) :
    ((∀ s, urlDecode (urlEncode s) = s) ∧
      ∀ l, l.Perm T.list → parseUrl (genUrl (encoded l)) = some (tableOf T.list)) ↔
    T.list ≠ [] ∧ (T.list.length = 1 ∨ ∀ e ∈ T.list, 0 ∈ e.1 → 100 ≤ e.1.length) := by
  constructor
  · rintro ⟨-, h⟩
    have hne : T.list ≠ [] := by
      intro hnil
      have := h [] (hnil ▸ List.Perm.nil)
      cases this
    refine ⟨hne, or_iff_not_imp_left.mpr fun hone e he hk => ?_⟩
    by_contra hshort
    -- the key stands behind another one
    have hperm := perm_cons_erase he
    obtain ⟨q, rest, hrest⟩ : ∃ q rest, T.list.erase e = q :: rest := by
      refine exists_cons_of_ne_nil fun hnil => hone ?_
      rw [hperm.length_eq, hnil, length_singleton]
    rw [hrest] at hperm
    have hl := (List.Perm.swap e q rest).trans hperm.symm
    have hq : q.1 ≠ e.1 := by
      have hnodup := (hl.map Prod.fst).nodup_iff.mpr T.nodup
      exact fun heq => (nodup_cons.mp hnodup).1 (heq ▸ .head _)
    obtain ⟨hentry, hentries⟩ := forall_mem_cons.mp (T.entry hl)
    obtain ⟨url, hfold, hlost⟩ := genLoop_lost hk (Nat.not_le.mp hshort) (fun e' he' => by
      rw [entries_single hentry.ne_nil hentry.key hentry.value] at he'
      rw [mem_singleton.mp he']
      exact hq) hentries
    have hparse := h _ hl
    rw [show genUrl (encoded (q :: e :: rest)) = some url from hfold, parseUrl, Option.map_some,
      Option.some.injEq] at hparse
    have hsome := tableOf_of_mem T.nodup (k := e.1) (v := e.2) he
    rw [← hparse, tableOf, assign_of_notMem] at hsome
    · cases hsome
    · intro e' he'
      obtain ⟨x, hx, rfl⟩ := mem_map.mp he'
      exact hlost x hx
  · rintro ⟨hne, hkeeps⟩
    refine ⟨urlDecode_urlEncode, fun l hl => ?_⟩
    have hentry := T.entry hl
    cases l with
    | nil => exact absurd (nil_perm.mp hl) hne
    | cons e l =>
      obtain ⟨he, hentries⟩ := forall_mem_cons.mp hentry
      have hfirst := entries_single he.ne_nil he.key he.value
      rw [← tableOf_perm hl T.nodup]
      rcases hkeeps with hone | hkeeps
      · rw [← hl.length_eq, length_cons, Nat.succ_inj, length_eq_zero_iff] at hone
        subst hone
        exact parseUrl_of_entries hfirst
      · have hkeys : ∀ x ∈ e :: l, Keeps x.1 := fun x hx => hkeeps x (hl.mem_iff.mp hx)
        have hurl : Keeps (e.1 ++ 61 :: urlEncode e.2) := by
          intro hmem
          have hmem : 0 ∈ e.1 := by
            rcases mem_append.mp hmem with hmem | hmem
            · exact hmem
            · rcases mem_cons.mp hmem with hmem | hmem
              · cases hmem
              · exact absurd hmem he.nul_free
          have := hkeys e (.head _) hmem
          rw [length_append]
          omega
        obtain ⟨url, hfold, hurl⟩ := genLoop_entries hurl (l := encoded l) fun x hx => by
          obtain ⟨y, hy, rfl⟩ := mem_map.mp hx
          exact ⟨hentries _ hx, hkeys y (.tail _ hy)⟩
        rw [show genUrl (encoded (e :: l)) = some url from hfold]
        exact parseUrl_of_entries (hurl.trans (congrArg (· ++ encoded l) hfirst))

/-- A table without entries comes back as `nil`. -/
theorem not_url_empty : ¬∀ T : Params, (∀ s, urlDecode (urlEncode s) = s) ∧
    ∀ l, l.Perm T.list → parseUrl (genUrl (encoded l)) = some (tableOf T.list) := by
  intro h
  have hback := (h ⟨[], nodup_nil, nofun⟩).2 [] (List.Perm.refl _)
  cases hback

end Supex.Utils
