import Mathlib.Data.List.Basic

/-!
# Lines of a text that grows at its end

A text is a list, `stop` the element that ends a line. A line is complete when
its `stop` is there; what follows the last one is not a line yet.

* `HasLine.of_append` — something without `stop` adds no line.
* `HasLine.append_line` — a line added at the start of a line is the one new line.
-/

namespace Supex.Lib

open List

variable {α : Type} {stop : α} {text line l w : List α}

/-- Nothing stands behind the last `stop`. -/
def AtLineStart (stop : α) (text : List α) : Prop := text = [] ∨ text.getLast? = some stop

/-- `line` is a complete line of the text. -/
def HasLine (stop : α) (text line : List α) : Prop :=
  stop ∉ line ∧ ∃ before after, text = before ++ (line ++ [stop]) ++ after ∧ AtLineStart stop before

instance [DecidableEq α] (stop : α) (text : List α) : Decidable (AtLineStart stop text) :=
  inferInstanceAs (Decidable (_ ∨ _))

theorem not_hasLine_nil : ¬HasLine stop [] line := by
  rintro ⟨-, before, after, h, -⟩
  have hlen := congrArg List.length h
  simp only [length_nil, length_append, length_singleton] at hlen
  omega

theorem AtLineStart.eq_nil_of_append {a b : List α} (h : AtLineStart stop (a ++ b))
    (hb : stop ∉ b) : b = [] := by
  rcases eq_nil_or_concat b with rfl | ⟨b', x, rfl⟩
  · rfl
  · exfalso
    rw [concat_eq_append] at *
    rcases h with h | h
    · have hlen := congrArg List.length h
      simp only [length_append, length_singleton, length_nil] at hlen
      omega
    · rw [← append_assoc, getLast?_concat] at h
      exact hb (by simp [Option.some.inj h])

theorem append_line_cases {before after : List α}
    (h : text ++ w = before ++ (line ++ [stop]) ++ after) :
    (∃ rest, text = before ++ (line ++ [stop]) ++ rest) ∨
    ∃ c, w = (c ++ [stop]) ++ after ∧ text ++ c = before ++ line := by
  rcases append_eq_append_iff.mp h.symm with ⟨rest, htext, -⟩ | ⟨c, hline, hw⟩
  · exact .inl ⟨rest, htext⟩
  · rcases eq_nil_or_concat c with rfl | ⟨c, x, rfl⟩
    · exact .inl ⟨[], by rw [hline, append_nil, append_nil]⟩
    · right
      rw [concat_eq_append, ← append_assoc, ← append_assoc] at hline
      obtain ⟨hfront, hlast⟩ := append_inj' hline rfl
      obtain rfl : stop = x := by simpa using hlast
      exact ⟨c, by rw [hw, concat_eq_append], hfront.symm⟩

theorem HasLine.of_append (h : HasLine stop (text ++ w) line) (hw : stop ∉ w) :
    HasLine stop text line := by
  obtain ⟨hline, before, after, heq, hstart⟩ := h
  rcases append_line_cases heq with ⟨rest, htext⟩ | ⟨c, hwc, -⟩
  · exact ⟨hline, before, rest, htext, hstart⟩
  · exact absurd (hwc ▸ by simp) hw

theorem HasLine.append_line (h : HasLine stop (text ++ (l ++ [stop])) line)
    (htext : AtLineStart stop text) (hl : stop ∉ l) : HasLine stop text line ∨ line = l := by
  obtain ⟨hline, before, after, heq, hstart⟩ := h
  rcases append_line_cases heq with ⟨rest, hrest⟩ | ⟨c, hwc, hfront⟩
  · exact .inl ⟨hline, before, rest, hrest, hstart⟩
  · right
    -- the only `stop` added is the last element
    have hafter : after = [] := by
      rcases eq_nil_or_concat after with rfl | ⟨after', x, rfl⟩
      · rfl
      · rw [concat_eq_append, ← append_assoc] at hwc
        obtain ⟨hl', -⟩ := append_inj' hwc rfl
        exact absurd (hl' ▸ by simp) hl
    subst hafter
    rw [append_nil] at hwc
    obtain ⟨rfl, -⟩ := append_inj' hwc rfl
    rcases append_eq_append_iff.mp hfront with ⟨a, hbefore, hla⟩ | ⟨a, htexta, hla⟩
    · have ha : a = [] := (hbefore ▸ hstart).eq_nil_of_append fun ha => hl (hla ▸ by simp [ha])
      rw [hla, ha, nil_append]
    · have ha : a = [] := (htexta ▸ htext).eq_nil_of_append fun ha => hline (hla ▸ by simp [ha])
      rw [hla, ha, nil_append]

end Supex.Lib
