import Supex.TimportNew.Cache

/-!
# timport_new — names of nodes

The nodes below `/tsdb` are named by what they stand for. A well-formed name is
read as what it was written from, whatever digits it has.

* `parseExpansionNode_name`, `parseKeysetNode_name`, `parseDatanode_name` — what
  the three patterns capture.
* `ExpansionName.inj`, `KeysetName.inj` — a name stands for one thing.
-/

namespace Supex.TimportNew

open List

open Lib (PatItem stringMatch stringMatch_of_doMatch doMatch_plus doMatch_opt doMatch_opt_skip
  doMatch doMatch_single doMatch_lit doMatch_open doMatch_close doMatch_nil)

--
-- Well-formed names
--

def IsNumeral (s : Bytes) : Prop := s ≠ [] ∧ ∀ b ∈ s, isDigit b = true

def IsWord (s : Bytes) : Prop := s ≠ [] ∧ ∀ b ∈ s, isAlpha b = true

def IsSigned (s : Bytes) : Prop := IsNumeral s ∨ ∃ d, s = minus :: d ∧ IsNumeral d

/-- What an expansion set is named by: its mode and its range of times. -/
structure Expansion where
  mode : Bytes
  sTime : Int
  eTime : Int

/-- `mode:s_time:e_time`. -/
inductive ExpansionName : Bytes → Expansion → Prop where
  | mk {mode s e : Bytes} (hmode : IsWord mode) (hs : IsNumeral s) (he : IsSigned e) :
      ExpansionName (mode ++ colon :: (s ++ colon :: e)) ⟨mode, tonumber s, endTime e⟩

structure KeyRange where
  sKey : Int
  eKey : Int

/-- `s_key:e_key`. -/
inductive KeysetName : Bytes → KeyRange → Prop where
  | mk {s e : Bytes} (hs : IsNumeral s) (he : IsNumeral e) :
      KeysetName (s ++ colon :: e) ⟨tonumber s, tonumber e⟩

/-- Four numbers with dots between them. -/
def IsAddress (ip : Bytes) : Prop :=
  ∃ a b c d, IsNumeral a ∧ IsNumeral b ∧ IsNumeral c ∧ IsNumeral d ∧
    ip = a ++ dot :: (b ++ dot :: (c ++ dot :: d))

/-- `mode:id:role:ip:w_port:r_port:s_time:e_time`. -/
inductive DatanodeName : Bytes → NodeName → Prop where
  | mk {mode id role ip wPort rPort s e : Bytes} (hmode : mode = ascii "RO" ∨ mode = ascii "RW")
      (hid : IsNumeral id) (hrole : IsWord role) (hip : IsAddress ip) (hw : IsNumeral wPort)
      (hr : IsNumeral rPort) (hs : IsNumeral s) (he : IsSigned e) :
      DatanodeName
        (mode ++ colon :: (id ++ colon :: (role ++ colon :: (ip ++ colon ::
          (wPort ++ colon :: (rPort ++ colon :: (s ++ colon :: e)))))))
        ⟨mode, tonumber id, role, ip, wPort, rPort, tonumber s, endTime e⟩

--
-- Parts of patterns
--

variable {ps : List PatItem} {s e t cap : Bytes} {r : List Bytes}

theorem not_digit_of_head {c : UInt8} (hc : isDigit c = false) :
    ∀ b ∈ (c :: t).head?, isDigit b = false := by
  intro b hb
  simp only [head?_cons, Option.mem_def, Option.some.injEq] at hb
  rw [← hb, hc]

theorem doMatch_numeral (hs : IsNumeral s) (ht : ∀ b ∈ t.head?, isDigit b = false)
    (h : doMatch ps t (cap ++ s) = some r) :
    doMatch (.plus isDigit :: ps) (s ++ t) cap = some r :=
  doMatch_plus hs.2 hs.1 ht h

theorem doMatch_digits (hs : IsNumeral s) (ht : ∀ b ∈ t.head?, isDigit b = false)
    (h : doMatch ps t s = some r) :
    doMatch (digits ++ ps) (s ++ t) cap = some (s :: r) := by
  apply doMatch_numeral hs ht
  simp [h]

theorem doMatch_letters (hs : IsWord s) (ht : ∀ b ∈ t.head?, isAlpha b = false)
    (h : doMatch ps t s = some r) :
    doMatch (letters ++ ps) (s ++ t) cap = some (s :: r) := by
  apply doMatch_plus hs.2 hs.1 ht
  simp [h]

theorem doMatch_numeral_end (hs : IsNumeral s) :
    doMatch [.plus isDigit, .closeCapture] s cap = some [cap ++ s] := by
  have h : doMatch [.plus isDigit, .closeCapture] (s ++ []) cap = some [cap ++ s] := by
    apply doMatch_numeral hs
    · simp
    · simp
  rwa [append_nil] at h

theorem doMatch_digits_end (hs : IsNumeral s) : doMatch digits s cap = some [s] :=
  doMatch_numeral_end hs

theorem doMatch_signed_end (he : IsSigned e) : doMatch signedDigits e cap = some [e] := by
  simp only [signedDigits, doMatch_open]
  rcases he with hnum | ⟨d, rfl, hd⟩
  · rw [doMatch_opt_skip]
    · exact doMatch_numeral_end hnum
    · intro b hb
      have hdigit : isDigit b = true := hnum.2 b (mem_of_mem_head? hb)
      have hbounds := isDigit_bounds hdigit
      simp only [minus, beq_eq_false_iff_ne, ne_eq]
      intro h
      rw [h] at hbounds
      simp at hbounds
  · apply doMatch_opt
    · simp
    · exact doMatch_numeral_end hd

theorem colon_not_digit : isDigit colon = false := by decide

theorem colon_not_alpha : isAlpha colon = false := by decide

theorem doMatch_digits_colon (hs : IsNumeral s) (h : doMatch ps t (s ++ [colon]) = some r) :
    doMatch (digits ++ .lit colon :: ps) (s ++ colon :: t) cap = some (s :: r) := by
  apply doMatch_digits hs (not_digit_of_head colon_not_digit)
  rw [doMatch_lit, h]

theorem doMatch_letters_colon (hs : IsWord s) (h : doMatch ps t (s ++ [colon]) = some r) :
    doMatch (letters ++ .lit colon :: ps) (s ++ colon :: t) cap = some (s :: r) := by
  apply doMatch_letters hs
  · simp [colon_not_alpha]
  · rw [doMatch_lit, h]

theorem doMatch_mode (hs : s = ascii "RO" ∨ s = ascii "RW")
    (h : doMatch ps t (s ++ [colon]) = some r) :
    doMatch ([.openCapture, .lit 82, .single fun b => b == 79 || b == 87, .closeCapture,
      .lit colon] ++ ps) (s ++ colon :: t) cap = some (s :: r) := by
  have hsplit : ∃ c : UInt8, (c == 79 || c == 87) = true ∧ s = [82, c] := by
    rcases hs with rfl | rfl
    · exact ⟨79, rfl, rfl⟩
    · exact ⟨87, rfl, rfl⟩
  obtain ⟨c, hc, rfl⟩ := hsplit
  simp only [cons_append, nil_append, doMatch_open, doMatch_lit]
  rw [doMatch_single hc]
  simpa using h

theorem dot_not_digit : isDigit dot = false := by decide

theorem doMatch_numeral_dot (hs : IsNumeral s) (h : doMatch ps t (cap ++ s ++ [dot]) = some r) :
    doMatch (.plus isDigit :: .lit dot :: ps) (s ++ dot :: t) cap = some r := by
  apply doMatch_numeral hs (not_digit_of_head dot_not_digit)
  rw [doMatch_lit, h]

theorem doMatch_address (hs : IsAddress s) (h : ∀ cap, doMatch ps t cap = some r) :
    doMatch ([.openCapture, .plus isDigit, .lit dot, .plus isDigit, .lit dot, .plus isDigit,
      .lit dot, .plus isDigit, .closeCapture, .lit colon] ++ ps) (s ++ colon :: t) cap =
      some (s :: r) := by
  obtain ⟨a, b, c, d, ha, hb, hc, hd, rfl⟩ := hs
  simp only [cons_append, nil_append, append_assoc, doMatch_open]
  apply doMatch_numeral_dot ha
  apply doMatch_numeral_dot hb
  apply doMatch_numeral_dot hc
  apply doMatch_numeral hd (not_digit_of_head colon_not_digit)
  simp [h]

--
-- Names
--

theorem parseExpansionNode_name (es : ExpansionSet) {node : Bytes} {x : Expansion}
    (h : ExpansionName node x) :
    parseExpansionNode node es =
      (true, { es with mode := some x.mode, sTime := some x.sTime, eTime := some x.eTime }) := by
  obtain ⟨hmode, hs, he⟩ := h
  rename_i mode s e
  have hmatch : stringMatch expansionPattern (mode ++ colon :: (s ++ colon :: e)) =
      some [mode, s, e] := by
    apply stringMatch_of_doMatch
    apply doMatch_letters_colon hmode
    apply doMatch_digits_colon hs
    exact doMatch_signed_end he
  simp [parseExpansionNode, hmatch]

theorem parseKeysetNode_name (ks : KeySet) {node : Bytes} {x : KeyRange} (h : KeysetName node x) :
    parseKeysetNode node ks =
      (true, { ks with sKey := some x.sKey, eKey := some x.eKey }) := by
  obtain ⟨hs, he⟩ := h
  rename_i s e
  have hmatch : stringMatch keysetPattern (s ++ colon :: e) = some [s, e] := by
    apply stringMatch_of_doMatch
    apply doMatch_digits_colon hs
    exact doMatch_digits_end he
  simp [parseKeysetNode, hmatch]

theorem parseDatanode_name {node : Bytes} {x : NodeName} (h : DatanodeName node x) :
    parseDatanode node = some x := by
  obtain ⟨hmode, hid, hrole, hip, hw, hr, hs, he⟩ := h
  rename_i mode id role ip wPort rPort s e
  have hmatch : stringMatch datanodePattern
      (mode ++ colon :: (id ++ colon :: (role ++ colon :: (ip ++ colon ::
        (wPort ++ colon :: (rPort ++ colon :: (s ++ colon :: e))))))) =
      some [mode, id, role, ip, wPort, rPort, s, e] := by
    apply stringMatch_of_doMatch
    rw [datanodePattern, append_assoc]
    apply doMatch_mode hmode
    apply doMatch_digits_colon hid
    apply doMatch_letters_colon hrole
    rw [append_assoc]
    apply doMatch_address hip
    intro cap
    apply doMatch_digits_colon hw
    apply doMatch_digits_colon hr
    apply doMatch_digits_colon hs
    exact doMatch_signed_end he
  simp [parseDatanode, hmatch]

theorem ExpansionName.inj {node : Bytes} {x y : Expansion} (hx : ExpansionName node x)
    (hy : ExpansionName node y) : x = y := by
  have hsame := (parseExpansionNode_name ⟨[], none, none, none, [], false⟩ hx).symm.trans
    (parseExpansionNode_name _ hy)
  simp only [Prod.mk.injEq, ExpansionSet.mk.injEq, Option.some.injEq, true_and, and_true] at hsame
  obtain ⟨hmode, hs, he⟩ := hsame
  rcases x with ⟨mode, s, e⟩
  simp_all

theorem KeysetName.inj {node : Bytes} {x y : KeyRange} (hx : KeysetName node x)
    (hy : KeysetName node y) : x = y := by
  have hsame := (parseKeysetNode_name ⟨[], none, none, false, [], false⟩ hx).symm.trans
    (parseKeysetNode_name _ hy)
  simp only [Prod.mk.injEq, KeySet.mk.injEq, Option.some.injEq, true_and, and_true] at hsame
  obtain ⟨hs, he⟩ := hsame
  rcases x with ⟨s, e⟩
  simp_all

end Supex.TimportNew
