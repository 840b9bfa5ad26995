import Mathlib.Data.List.Induction

/-!
# Runs of a step function

A system is a step function `step : σ → α → Except ε σ`: an action takes a
state to the next one or ends the run with an error. A run is a list of
actions, which also fixes the interleaving of whatever parties the actions
belong to.

* `run_inv_along` — what a step keeps under a condition holds after a run along it.
* `bind_eq_ok`, `bind_eq_error` — how a sequence succeeds or fails; `mapM_eq_ok` —
  how a list of computations succeeds; `foldlM_inv` — what a loop keeps;
  `foldlM_decided` — when a loop succeeds.
* `concat_eq_append_cons` — where a list with one more element at its end has a
  given one, for properties of the list of what happened so far.

Main results: `run_inv`, `run_of_along`, `run_refines`.
-/

namespace Supex.Lib

open List

variable {σ α ε : Type} (step : σ → α → Except ε σ)

/-- The state after a list of actions. -/
def run : σ → List α → Except ε σ
  | s, [] => .ok s
  | s, a :: l =>
    match step s a with
    | .error e => .error e
    | .ok s' => run s' l

/-- Every action of the run is taken in a state that meets `P`. -/
def Along (P : σ → α → Prop) : σ → List α → Prop
  | _, [] => True
  | s, a :: l => P s a ∧ ∀ s', step s a = .ok s' → Along P s' l

/-- Every state of the run, the first included, meets `P`. -/
def Throughout (P : σ → Prop) : σ → List α → Prop
  | s, [] => P s
  | s, a :: l => P s ∧ ∀ s', step s a = .ok s' → Throughout P s' l

variable {step}

theorem run_cons {s s' : σ} {a : α} {l : List α} (h : step s a = .ok s') :
    run step s (a :: l) = run step s' l := by
  rw [run, h]

theorem run_cons_ok {s s' : σ} {a : α} {l : List α} (h : run step s (a :: l) = .ok s') :
    ∃ s₁, step s a = .ok s₁ ∧ run step s₁ l = .ok s' := by
  rw [run] at h
  cases hstep : step s a with
  | error e =>
    rw [hstep] at h
    cases h
  | ok s₁ =>
    rw [hstep] at h
    exact ⟨s₁, rfl, h⟩

/-- **Invariants.** What every step keeps holds at the end of every run. -/
theorem run_inv {I : σ → Prop} (hstep : ∀ s a s', I s → step s a = .ok s' → I s')
    {s s' : σ} {l : List α} (hs : I s) (h : run step s l = .ok s') : I s' := by
  induction l generalizing s with
  | nil =>
    rw [run, Except.ok.injEq] at h
    exact h ▸ hs
  | cons a l ih =>
    obtain ⟨s₁, h₁, hrun⟩ := run_cons_ok h
    exact ih (hstep s a s₁ hs h₁) hrun

theorem Along.cons {P : σ → α → Prop} {s s' : σ} {a : α} {l : List α} (hstep : step s a = .ok s')
    (ha : P s a) (hl : Along step P s' l) : Along step P s (a :: l) := by
  refine ⟨ha, fun s'' h => ?_⟩
  rw [hstep, Except.ok.injEq] at h
  exact h ▸ hl

theorem Along.of_forall {P : σ → α → Prop} {s : σ} {l : List α} (h : ∀ a ∈ l, ∀ s, P s a) :
    Along step P s l := by
  induction l generalizing s with
  | nil => trivial
  | cons a l ih =>
    exact ⟨h a (.head _) s,
      fun s' _ => ih fun b hb => h b (.tail _ hb)⟩

theorem Along.and {P Q : σ → α → Prop} {s : σ} {l : List α} (hP : Along step P s l)
    (hQ : Along step Q s l) : Along step (fun s a => P s a ∧ Q s a) s l := by
  induction l generalizing s with
  | nil => trivial
  | cons a l ih => exact ⟨⟨hP.1, hQ.1⟩, fun s' hs' => ih (hP.2 s' hs') (hQ.2 s' hs')⟩

theorem Along.take {P : σ → α → Prop} {s : σ} {l₁ l₂ : List α}
    (h : Along step P s (l₁ ++ l₂)) : Along step P s l₁ := by
  induction l₁ generalizing s with
  | nil => trivial
  | cons a l₁ ih => exact ⟨h.1, fun s' hs' => ih (h.2 s' hs')⟩

theorem Along.drop {P : σ → α → Prop} {s s' : σ} {l₁ l₂ : List α}
    (h : Along step P s (l₁ ++ l₂)) (hrun : run step s l₁ = .ok s') : Along step P s' l₂ := by
  induction l₁ generalizing s with
  | nil =>
    rw [run, Except.ok.injEq] at hrun
    exact hrun ▸ h
  | cons a l₁ ih =>
    obtain ⟨s₁, hstep, hrun⟩ := run_cons_ok hrun
    exact ih (h.2 s₁ hstep) hrun

theorem run_inv_along {I : σ → Prop} {P : σ → α → Prop}
    (hstep : ∀ s a s', I s → P s a → step s a = .ok s' → I s')
    {s s' : σ} {l : List α} (hs : I s) (hl : Along step P s l) (h : run step s l = .ok s') :
    I s' := by
  induction l generalizing s with
  | nil =>
    rw [run, Except.ok.injEq] at h
    exact h ▸ hs
  | cons a l ih =>
    obtain ⟨s₁, h₁, hrun⟩ := run_cons_ok h
    exact ih (hstep s a s₁ hs hl.1 h₁) (hl.2 s₁ h₁) hrun

theorem Along.of_inv {I : σ → Prop} {P Q : σ → α → Prop}
    (hstep : ∀ s a s', I s → P s a → step s a = .ok s' → I s') (hQ : ∀ s a, I s → P s a → Q s a)
    {s : σ} {l : List α} (hs : I s) (hl : Along step P s l) : Along step Q s l := by
  induction l generalizing s with
  | nil => trivial
  | cons a l ih =>
    exact ⟨hQ s a hs hl.1, fun s' hs' => ih (hstep s a s' hs hl.1 hs') (hl.2 s' hs')⟩

theorem run_ne_error_along {I : σ → Prop} {P : σ → α → Prop} {e : ε}
    (hstep : ∀ s a s', I s → P s a → step s a = .ok s' → I s')
    (hne : ∀ s a, I s → P s a → step s a ≠ .error e)
    {s : σ} {l : List α} (hs : I s) (hl : Along step P s l) : run step s l ≠ .error e := by
  induction l generalizing s with
  | nil => exact nofun
  | cons a l ih =>
    rw [run]
    cases h : step s a with
    | error e' =>
      dsimp only
      exact h ▸ hne s a hs hl.1
    | ok s₁ => exact ih (hstep s a s₁ hs hl.1 h) (hl.2 s₁ h)

/-- A condition that can be decided step by step can be decided for a run. -/
instance decidableAlong {P : σ → α → Prop} [∀ s a, Decidable (P s a)] :
    ∀ (s : σ) (l : List α), Decidable (Along step P s l)
  | _, [] => isTrue trivial
  | s, a :: l =>
    match h : step s a with
    | .error _ => decidable_of_iff (P s a) ⟨fun ha => ⟨ha, fun s' h' => by rw [h] at h'; cases h'⟩,
        fun hl => hl.1⟩
    | .ok s' =>
      have : Decidable (Along step P s' l) := decidableAlong s' l
      decidable_of_iff (P s a ∧ Along step P s' l) ⟨fun hl => Along.cons h hl.1 hl.2,
        fun hl => ⟨hl.1, hl.2 s' h⟩⟩

/-- **Conditional runs.** If under `P` every step from a state of the invariant
succeeds and keeps it, then a run along `P` succeeds and keeps it. -/
theorem run_of_along {I : σ → Prop} {P : σ → α → Prop}
    (hstep : ∀ s a, I s → P s a → ∃ s', step s a = .ok s' ∧ I s')
    {s : σ} {l : List α} (hs : I s) (hl : Along step P s l) :
    ∃ s', run step s l = .ok s' ∧ I s' := by
  induction l generalizing s with
  | nil => exact ⟨s, rfl, hs⟩
  | cons a l ih =>
    obtain ⟨s₁, h₁, hI₁⟩ := hstep s a hs hl.1
    obtain ⟨s', hrun, hI'⟩ := ih hI₁ (hl.2 s₁ h₁)
    exact ⟨s', by rw [run_cons h₁, hrun], hI'⟩

theorem run_of_along_or {I : σ → Prop} {P : σ → α → Prop} {e : ε}
    (hstep : ∀ s a, I s → P s a → (∃ s', step s a = .ok s' ∧ I s') ∨ step s a = .error e)
    {s : σ} {l : List α} (hs : I s) (hl : Along step P s l) :
    (∃ s', run step s l = .ok s' ∧ I s') ∨ run step s l = .error e := by
  induction l generalizing s with
  | nil => exact Or.inl ⟨s, rfl, hs⟩
  | cons a l ih =>
    rcases hstep s a hs hl.1 with ⟨s₁, h₁, hI₁⟩ | herror
    · rw [run_cons h₁]
      exact ih hI₁ (hl.2 s₁ h₁)
    · right
      rw [run, herror]

/-- **Refinement.** If under `P` every step from a state related to an abstract one
succeeds and leads to a state related to the next abstract one, so does a run. -/
theorem run_refines {τ : Type} {R : σ → τ → Prop} {P : σ → α → Prop} {spec : τ → α → τ}
    (hstep : ∀ s t a, R s t → P s a → ∃ s', step s a = .ok s' ∧ R s' (spec t a))
    {s : σ} {t : τ} {l : List α} (hs : R s t) (hl : Along step P s l) :
    ∃ s', run step s l = .ok s' ∧ R s' (l.foldl spec t) := by
  induction l generalizing s t with
  | nil => exact ⟨s, rfl, hs⟩
  | cons a l ih =>
    obtain ⟨s₁, h₁, hR₁⟩ := hstep s t a hs hl.1
    obtain ⟨s', hrun, hR'⟩ := ih hR₁ (hl.2 s₁ h₁)
    exact ⟨s', by rw [run_cons h₁, hrun], hR'⟩

/-- **Exact conditions.** Let a step keep `P` if and only if it is taken under
`C`. Then `P` holds throughout a run if and only if the run is along `C`. -/
theorem throughout_iff_along {I P : σ → Prop} {D C : σ → α → Prop}
    (hI : ∀ s a s', I s → D s a → step s a = .ok s' → I s')
    (hP : ∀ s a s', I s → P s → D s a → step s a = .ok s' → (P s' ↔ C s a))
    {s s' : σ} {l : List α} (hs : I s) (hs' : P s) (hD : Along step D s l)
    (hrun : run step s l = .ok s') : Throughout step P s l ↔ Along step C s l := by
  induction l generalizing s with
  | nil => exact iff_of_true hs' trivial
  | cons a l ih =>
    obtain ⟨s₁, hstep, hrun⟩ := run_cons_ok hrun
    have hiff := hP s a s₁ hs hs' hD.1 hstep
    have hsame : ∀ s₂, step s a = .ok s₂ → s₂ = s₁ := by
      intro s₂ h
      rw [hstep] at h
      exact (Except.ok.inj h).symm
    constructor
    · intro hall
      have hrest := hall.2 s₁ hstep
      have hs₁ : P s₁ := by
        cases l with
        | nil => exact hrest
        | cons b l => exact hrest.1
      exact Along.cons hstep (hiff.mp hs₁)
        ((ih (hI s a s₁ hs hD.1 hstep) hs₁ (hD.2 s₁ hstep) hrun).mp hrest)
    · intro halong
      have hs₁ := hiff.mpr halong.1
      refine ⟨hs', fun s₂ h => ?_⟩
      rw [hsame s₂ h]
      exact (ih (hI s a s₁ hs hD.1 hstep) hs₁ (hD.2 s₁ hstep) hrun).mpr (halong.2 s₁ hstep)

theorem Throughout.last {P : σ → Prop} {s s' : σ} {l : List α} (h : Throughout step P s l)
    (hrun : run step s l = .ok s') : P s' := by
  induction l generalizing s with
  | nil =>
    rw [run, Except.ok.injEq] at hrun
    exact hrun ▸ h
  | cons a l ih =>
    obtain ⟨s₁, hstep, hrun⟩ := run_cons_ok hrun
    exact ih (h.2 s₁ hstep) hrun

theorem Throughout.along {I P : σ → Prop} {Q : σ → α → Prop} {s : σ} {l : List α}
    (h : Throughout step P s l) (hI : ∀ s a s', I s → step s a = .ok s' → I s')
    (hQ : ∀ s a, I s → P s → (∀ s', step s a = .ok s' → P s') → Q s a) (hs : I s) :
    Along step Q s l := by
  induction l generalizing s with
  | nil => trivial
  | cons a l ih =>
    refine ⟨hQ s a hs h.1 fun s' hs' => ?_, fun s' hs' => ih (h.2 s' hs') (hI s a s' hs hs')⟩
    have hrest := h.2 s' hs'
    cases l with
    | nil => exact hrest
    | cons b l => exact hrest.1

/-- Let a step end with an error in `B` if and only if it is not taken under `C`.
Then a run ends with none of them if and only if it is along `C`. -/
theorem error_iff_along {I : σ → Prop} {C : σ → α → Prop} {B : ε → Prop}
    (hI : ∀ s a s', I s → C s a → step s a = .ok s' → I s')
    (hB : ∀ s a, I s → ((∃ e, step s a = .error e ∧ B e) ↔ ¬ C s a))
    {s : σ} {l : List α} (hs : I s) :
    (∀ e, run step s l = .error e → ¬ B e) ↔ Along step C s l := by
  induction l generalizing s with
  | nil => exact iff_of_true nofun trivial
  | cons a l ih =>
    cases hstep : step s a with
    | error e =>
      have hrun : run step s (a :: l) = .error e := by rw [run, hstep]
      constructor
      · intro h
        refine ⟨?_, fun s' h' => by rw [hstep] at h'; cases h'⟩
        by_contra hC
        obtain ⟨e', he', hB'⟩ := (hB s a hs).mpr hC
        rw [hstep, Except.error.injEq] at he'
        exact h e hrun (he' ▸ hB')
      · intro h e' he' hB'
        rw [hrun, Except.error.injEq] at he'
        exact (hB s a hs).mp ⟨e, hstep, he' ▸ hB'⟩ h.1
    | ok s₁ =>
      have hC : C s a := by
        by_contra hC
        obtain ⟨e', he', -⟩ := (hB s a hs).mpr hC
        rw [hstep] at he'
        cases he'
      have hih := ih (hI s a s₁ hs hC hstep)
      rw [run_cons hstep]
      exact ⟨fun h => Along.cons hstep hC (hih.mp h), fun h => hih.mpr (h.2 s₁ hstep)⟩

variable {β : Type}

theorem ok_bind {γ : Type} (b : β) (f : β → Except ε γ) : (Except.ok b >>= f) = f b := rfl

theorem bind_eq_ok {γ : Type} {x : Except ε β} {f : β → Except ε γ} {c : γ} :
    x >>= f = .ok c ↔ ∃ b, x = .ok b ∧ f b = .ok c := by
  cases x with
  | error e => exact ⟨nofun, fun ⟨b, hb, _⟩ => nomatch hb⟩
  | ok b => exact ⟨fun h => ⟨b, rfl, h⟩, fun ⟨b', hb, h⟩ => (Except.ok.inj hb) ▸ h⟩

theorem map_eq_ok {γ : Type} {x : Except ε β} {f : β → γ} {c : γ} (h : x.map f = .ok c) :
    ∃ b, x = .ok b ∧ f b = c := by
  cases x with
  | error e => exact nomatch h
  | ok b => exact ⟨b, rfl, Except.ok.inj h⟩

theorem exists_ok_of_any {x : Except ε β} {p : β → Bool} (h : x.toOption.any p = true) :
    ∃ b, x = .ok b ∧ p b = true := by
  cases x with
  | error e => cases h
  | ok b => exact ⟨b, rfl, h⟩

theorem bind_eq_error {γ : Type} {x : Except ε β} {f : β → Except ε γ} {e : ε} :
    x >>= f = .error e ↔ x = .error e ∨ ∃ b, x = .ok b ∧ f b = .error e := by
  cases x with
  | error e' =>
    show Except.error e' = Except.error e ↔ _
    rw [Except.error.injEq, Except.error.injEq]
    exact ⟨.inl, fun h => h.elim id fun ⟨b, hb, _⟩ => nomatch hb⟩
  | ok b =>
    refine ⟨fun h => .inr ⟨b, rfl, h⟩, fun h => ?_⟩
    rcases h with h | ⟨b', hb, h⟩
    · cases h
    · exact (Except.ok.inj hb) ▸ h

theorem foldlM_inv {I : List α → σ → Prop}
    (hstep : ∀ xs a s s', I xs s → step s a = .ok s' → I (xs ++ [a]) s') {xs l : List α}
    {s s' : σ} (hs : I xs s) (h : l.foldlM step s = .ok s') : I (xs ++ l) s' := by
  induction l generalizing xs s with
  | nil =>
    cases h
    rwa [append_nil]
  | cons a l ih =>
    rw [foldlM_cons] at h
    obtain ⟨s₁, h₁, h⟩ := bind_eq_ok.mp h
    rw [append_cons]
    exact ih (hstep xs a s s₁ hs h₁) h

/-- **A loop that may fail.** If the elements so far and the next one decide whether
the next step succeeds, then `F`, which collects these conditions, decides whether the
loop does. -/
theorem foldlM_decided {I : List α → σ → Prop} {C : List α → α → Prop} {F : List α → Prop}
    {P : α → Prop}
    (hok : ∀ xs a s, P a → I xs s → C xs a → ∃ s', step s a = .ok s' ∧ I (xs ++ [a]) s')
    (hfail : ∀ xs a s, P a → I xs s → ¬C xs a → ∃ e, step s a = .error e) (hnil : F [])
    (hsnoc : ∀ xs a, (∀ b ∈ xs ++ [a], P b) → (F (xs ++ [a]) ↔ F xs ∧ C xs a)) {s : σ}
    (hs : I [] s) {l : List α} (hl : ∀ a ∈ l, P a) :
    (F l → ∃ s', l.foldlM step s = .ok s' ∧ I l s') ∧
      (¬F l → ∃ e, l.foldlM step s = .error e) := by
  induction l using List.reverseRecOn with
  | nil => exact ⟨fun _ => ⟨s, rfl, hs⟩, fun h => absurd hnil h⟩
  | append_singleton xs a ih =>
    obtain ⟨hxs, hnxs⟩ := ih fun b hb => hl b (mem_append_left _ hb)
    have ha : P a := hl a (mem_append_right _ (.head _))
    have hlast (s₁ : σ) : [a].foldlM step s₁ = step s₁ a := by
      rw [foldlM_cons]
      exact bind_pure (step s₁ a)
    rw [hsnoc xs a hl, foldlM_append]
    constructor
    · rintro ⟨hF, hC⟩
      obtain ⟨s₁, hs₁, hI⟩ := hxs hF
      obtain ⟨s', hs', hI'⟩ := hok xs a s₁ ha hI hC
      exact ⟨s', by rw [hs₁, ok_bind, hlast, hs'], hI'⟩
    · intro h
      by_cases hF : F xs
      · obtain ⟨s₁, hs₁, hI⟩ := hxs hF
        obtain ⟨e, he⟩ := hfail xs a s₁ ha hI fun hC => h ⟨hF, hC⟩
        exact ⟨e, by rw [hs₁, ok_bind, hlast, he]⟩
      · obtain ⟨e, he⟩ := hnxs hF
        exact ⟨e, by rw [he]; rfl⟩

theorem mapM_eq_ok {f : α → Except ε β} {xs : List α} {ys : List β} :
    xs.mapM f = .ok ys ↔ xs.map f = ys.map Except.ok := by
  induction xs generalizing ys with
  | nil =>
    rw [mapM_nil, map_nil]
    constructor
    · intro h
      rw [← Except.ok.inj h, map_nil]
    · intro h
      rw [map_eq_nil_iff.mp h.symm]
      rfl
  | cons x xs ih =>
    rw [mapM_cons, map_cons, bind_eq_ok]
    constructor
    · rintro ⟨y, hy, h⟩
      obtain ⟨rest, hrest, h⟩ := bind_eq_ok.mp h
      rw [← Except.ok.inj h, map_cons, hy, ih.mp hrest]
    · intro h
      rcases ys with _ | ⟨y, ys⟩
      · cases h
      · rw [map_cons, List.cons.injEq] at h
        exact ⟨y, h.1, bind_eq_ok.mpr ⟨ys, ih.mpr h.2, rfl⟩⟩

theorem concat_eq_append_cons {l l₁ l₂ : List α} {x y : α} (h : l ++ [x] = l₁ ++ y :: l₂) :
    (l₂ = [] ∧ l = l₁ ∧ x = y) ∨ ∃ l₃, l = l₁ ++ y :: l₃ ∧ l₂ = l₃ ++ [x] := by
  rcases eq_nil_or_concat l₂ with rfl | ⟨l₃, z, rfl⟩
  · left
    obtain ⟨h₁, h₂⟩ := append_inj' h rfl
    exact ⟨rfl, h₁, by simpa using h₂⟩
  · right
    have h' : l ++ [x] = (l₁ ++ y :: l₃) ++ [z] := by simpa using h
    obtain ⟨h₁, h₂⟩ := append_inj' h' rfl
    obtain rfl : x = z := by simpa using h₂
    exact ⟨l₃, h₁, concat_eq_append⟩

end Supex.Lib
