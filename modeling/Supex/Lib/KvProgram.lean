import Mathlib.Data.Set.Basic

/-!
# Programs over a key-value store

Code that reaches a store only through two callbacks, one that reads a key and
one that writes a list of pairs, is a tree: every read and every write is a
node, with a branch for each answer. The tree says which keys the code can
touch, whatever the answers are (`Within`).

Main results: `KvProgram.run_lawful`, `Within.frame`, `Within.exec`, `exec_congr`.
-/

namespace Supex.Lib

open Function (update update_of_ne update_self)

variable {κ ν ε α β W : Type}

/-- A program that ends with a value or a fault, or asks the store. An answer
`none` to a read is a failure of the callback, `some none` a missing key. -/
inductive KvProgram (κ ν ε α : Type) where
  | ret (a : α)
  | fail (e : ε)
  | get (key : κ) (next : Option (Option ν) → KvProgram κ ν ε α)
  | put (pairs : List (κ × ν)) (next : Bool → KvProgram κ ν ε α)

namespace KvProgram

/-- One program after the other. -/
def bind : KvProgram κ ν ε α → (α → KvProgram κ ν ε β) → KvProgram κ ν ε β
  | .ret a, f => f a
  | .fail e, _ => .fail e
  | .get key next, f => .get key fun r => (next r).bind f
  | .put pairs next, f => .put pairs fun ok => (next ok).bind f

instance : Monad (KvProgram κ ν ε) where
  pure := .ret
  bind := .bind

theorem bind_def (p : KvProgram κ ν ε α) (f : α → KvProgram κ ν ε β) : p >>= f = p.bind f := rfl

theorem bind_assoc {γ : Type} (p : KvProgram κ ν ε α) (f : α → KvProgram κ ν ε β)
    (g : β → KvProgram κ ν ε γ) : p >>= f >>= g = p >>= fun a => f a >>= g := by
  simp only [bind_def]
  induction p with
  | ret a => rfl
  | fail e => rfl
  | get key next ih =>
    rw [bind, bind, bind]
    simp only [ih]
  | put pairs next ih =>
    rw [bind, bind, bind]
    simp only [ih]

/-- A computation without the store. -/
def lift : Except ε α → KvProgram κ ν ε α
  | .ok a => .ret a
  | .error e => .fail e

end KvProgram

--
-- Media
--

/-- The two callbacks; `false` and `none` are their failures. -/
structure KvMedium (κ ν W : Type) where
  putKVs : List (κ × ν) → W → Bool × W
  getKVs : κ → W → Option (Option ν)

/-- The program on a medium. -/
def KvProgram.run (m : KvMedium κ ν W) : KvProgram κ ν ε α → W → Except ε (α × W)
  | .ret a, w => .ok (a, w)
  | .fail e, _ => .error e
  | .get key next, w => (next (m.getKVs key w)).run m w
  | .put pairs next, w => (next (m.putKVs pairs w).1).run m (m.putKVs pairs w).2

theorem KvProgram.run_bind (m : KvMedium κ ν W) (p : KvProgram κ ν ε α)
    (f : α → KvProgram κ ν ε β) (w : W) :
    (p.bind f).run m w =
      match p.run m w with
      | .error e => .error e
      | .ok (a, w') => (f a).run m w' := by
  induction p generalizing w with
  | ret a => rfl
  | fail e => rfl
  | get key next ih => exact ih _ w
  | put pairs next ih => exact ih _ _

theorem KvProgram.run_do (m : KvMedium κ ν W) (p : KvProgram κ ν ε α)
    (f : α → KvProgram κ ν ε β) (w : W) :
    (p >>= f).run m w =
      match p.run m w with
      | .error e => .error e
      | .ok (a, w') => (f a).run m w' := run_bind m p f w

theorem KvProgram.run_do_ok {m : KvMedium κ ν W} {p : KvProgram κ ν ε α}
    {f : α → KvProgram κ ν ε β} {w : W} {r : β × W} (h : (p >>= f).run m w = .ok r) :
    ∃ a w', p.run m w = .ok (a, w') ∧ (f a).run m w' = .ok r := by
  rw [run_do] at h
  rcases hp : p.run m w with e | ⟨a, w'⟩
  · rw [hp] at h
    exact nomatch h
  · rw [hp] at h
    exact ⟨a, w', rfl, h⟩

theorem KvProgram.ok_inj {a a' : α} {b b' : β} {w w' : W}
    (h : (.ok ((a, b), w) : Except ε ((α × β) × W)) = .ok ((a', b'), w')) :
    a = a' ∧ b = b' ∧ w = w' := by
  obtain ⟨hr, hw⟩ := Prod.mk.inj (Except.ok.inj h)
  obtain ⟨ha, hb⟩ := Prod.mk.inj hr
  exact ⟨ha, hb, hw⟩

theorem KvProgram.run_lift_ok {m : KvMedium κ ν W} {x : Except ε α} {w w' : W} {a : α}
    (h : (KvProgram.lift x : KvProgram κ ν ε α).run m w = .ok (a, w')) : x = .ok a ∧ w' = w := by
  cases x with
  | error e => exact nomatch h
  | ok b =>
    obtain ⟨rfl, rfl⟩ := Prod.mk.inj (Except.ok.inj h)
    exact ⟨rfl, rfl⟩

section Exec

variable [DecidableEq κ]

/-- A list of pairs written into a map, in order. -/
def putAll (store : κ → Option ν) (pairs : List (κ × ν)) : κ → Option ν :=
  pairs.foldl (fun s p => Function.update s p.1 (some p.2)) store

/-- The medium is a map that keeps what is written. -/
structure LawfulMedium (m : KvMedium κ ν W) (view : W → κ → Option ν) : Prop where
  put : ∀ pairs w, ∃ w', m.putKVs pairs w = (true, w') ∧ view w' = putAll (view w) pairs
  get : ∀ key w, m.getKVs key w = some (view w key)

/-- The medium is a map whose callbacks may fail: a write that fails changes
nothing, and a read that does not is right. -/
structure FaithfulMedium (m : KvMedium κ ν W) (view : W → κ → Option ν) : Prop where
  put_ok : ∀ pairs w, (m.putKVs pairs w).1 = true →
    view (m.putKVs pairs w).2 = putAll (view w) pairs
  put_fail : ∀ pairs w, (m.putKVs pairs w).1 = false → view (m.putKVs pairs w).2 = view w
  get : ∀ key w value, m.getKVs key w = some value → value = view w key

theorem LawfulMedium.faithful {m : KvMedium κ ν W} {view : W → κ → Option ν}
    (hm : LawfulMedium m view) : FaithfulMedium m view where
  put_ok pairs w _ := by
    obtain ⟨w', hput, hview⟩ := hm.put pairs w
    rw [hput]
    exact hview
  put_fail pairs w hfail := by
    obtain ⟨w', hput, -⟩ := hm.put pairs w
    rw [hput] at hfail
    exact nomatch hfail
  get key w value hget := by
    rw [hm.get] at hget
    exact (Option.some.inj hget).symm

/-- The medium that keeps a list of pairs, the last one first. -/
def pairsMedium : KvMedium κ ν (List (κ × ν)) where
  putKVs pairs w := (true, pairs.reverse ++ w)
  getKVs key w := some (w.lookup key)

/-- The map of such a list. -/
def pairsView (w : List (κ × ν)) (key : κ) : Option ν := w.lookup key

theorem pairsMedium_lawful :
    LawfulMedium (pairsMedium : KvMedium κ ν (List (κ × ν))) pairsView where
  put pairs w := by
    refine ⟨_, rfl, ?_⟩
    induction pairs generalizing w with
    | nil => rfl
    | cons p pairs ih =>
      have hcons : pairsView (p :: w) = update (pairsView w) p.1 (some p.2) := by
        funext key
        unfold pairsView
        rw [List.lookup_cons]
        by_cases hkey : key = p.1
        · rw [hkey, update_self, beq_self_eq_true]
        · rw [update_of_ne hkey, beq_eq_false_iff_ne.mpr hkey]
      rw [List.reverse_cons, List.append_assoc, List.singleton_append, ih, hcons]
      rfl
  get _ _ := rfl

/-- The program on a map: its result, and the pairs it has written. -/
def KvProgram.exec : KvProgram κ ν ε α → (κ → Option ν) → Except ε (α × List (κ × ν))
  | .ret a, _ => .ok (a, [])
  | .fail e, _ => .error e
  | .get key next, s => (next (some (s key))).exec s
  | .put pairs next, s => ((next true).exec (putAll s pairs)).map fun r => (r.1, pairs ++ r.2)

theorem putAll_append (s : κ → Option ν) (l₁ l₂ : List (κ × ν)) :
    putAll s (l₁ ++ l₂) = putAll (putAll s l₁) l₂ := by
  unfold putAll
  rw [List.foldl_append]

theorem putAll_cons (s : κ → Option ν) (p : κ × ν) (l : List (κ × ν)) :
    putAll s (p :: l) = putAll (update s p.1 (some p.2)) l := rfl

theorem putAll_of_notMem {s : κ → Option ν} {l : List (κ × ν)} {key : κ}
    (h : ∀ p ∈ l, p.1 ≠ key) : putAll s l key = s key := by
  induction l generalizing s with
  | nil => rfl
  | cons p l ih =>
    rw [putAll_cons, ih fun q hq => h q (.tail _ hq),
      update_of_ne (h p (.head _)).symm]

/-- Two stores agree behind the same writes where they agreed before, and on
every key that is written. -/
theorem putAll_agree {s t : κ → Option ν} {l : List (κ × ν)} {key : κ}
    (h : s key = t key ∨ ∃ p ∈ l, p.1 = key) : putAll s l key = putAll t l key := by
  induction l generalizing s t with
  | nil =>
    rcases h with h | ⟨p, hp, -⟩
    · exact h
    · cases hp
  | cons p l ih =>
    rw [putAll_cons, putAll_cons]
    apply ih
    by_cases hp : p.1 = key
    · left
      rw [← hp, update_self, update_self]
    · rcases h with h | ⟨q, hq, hqk⟩
      · left
        rw [update_of_ne (Ne.symm hp), update_of_ne (Ne.symm hp), h]
      · rcases List.mem_cons.mp hq with rfl | hq
        · exact absurd hqk hp
        · exact .inr ⟨q, hq, hqk⟩

/-- **Lawful media.** On a lawful medium the program does what it does on the
map the medium holds. -/
theorem KvProgram.run_lawful {m : KvMedium κ ν W} {view : W → κ → Option ν}
    (hm : LawfulMedium m view) (p : KvProgram κ ν ε α) (w : W) :
    match p.exec (view w) with
    | .error e => p.run m w = .error e
    | .ok (a, pairs) => ∃ w', p.run m w = .ok (a, w') ∧ view w' = putAll (view w) pairs := by
  induction p generalizing w with
  | ret a => exact ⟨w, rfl, rfl⟩
  | fail e => rfl
  | get key next ih =>
    rw [exec, run, hm.get]
    exact ih _ w
  | put pairs next ih =>
    obtain ⟨w', hput, hv⟩ := hm.put pairs w
    rw [exec, run, hput]
    have := ih true w'
    rw [hv] at this
    cases hexec : (next true).exec (putAll (view w) pairs) with
    | error e =>
      rw [hexec] at this
      exact this
    | ok r =>
      rw [hexec] at this
      obtain ⟨w₂, hrun, hv₂⟩ := this
      exact ⟨w₂, hrun, by rw [hv₂, putAll_append]⟩

theorem KvProgram.exec_bind (p : KvProgram κ ν ε α) (f : α → KvProgram κ ν ε β)
    (s : κ → Option ν) :
    (p.bind f).exec s =
      match p.exec s with
      | .error e => .error e
      | .ok (a, l) => ((f a).exec (putAll s l)).map fun r => (r.1, l ++ r.2) := by
  induction p generalizing s with
  | ret a =>
    rw [bind, exec]
    show _ = ((f a).exec s).map fun r => (r.1, r.2)
    cases (f a).exec s <;> rfl
  | fail e => rfl
  | get key next ih =>
    rw [bind, exec, exec]
    exact ih _ s
  | put pairs next ih =>
    rw [bind, exec, exec, ih]
    cases (next true).exec (putAll s pairs) with
    | error e => rfl
    | ok r =>
      dsimp only [Except.map]
      rw [putAll_append]
      cases (f r.1).exec (putAll (putAll s pairs) r.2) with
      | error e => rfl
      | ok r' => simp

theorem KvProgram.exec_map {p : KvProgram κ ν ε α} {f : α → KvProgram κ ν ε β}
    {s : κ → Option ν} {a : α} {b : β} {l : List (κ × ν)} (h : p.exec s = .ok (a, l))
    (hf : f a = .ret b) : (p.bind f).exec s = .ok (b, l) := by
  rw [exec_bind, h]
  show ((f a).exec _).map _ = _
  rw [hf]
  exact congrArg (fun l => Except.ok (b, l)) (List.append_nil l)

theorem KvProgram.exec_bind_ok {p : KvProgram κ ν ε α} {f : α → KvProgram κ ν ε β}
    {s : κ → Option ν} {b : β} {l : List (κ × ν)} (h : (p.bind f).exec s = .ok (b, l)) :
    ∃ a l₁ l₂, p.exec s = .ok (a, l₁) ∧ (f a).exec (putAll s l₁) = .ok (b, l₂) ∧
      l = l₁ ++ l₂ := by
  rw [exec_bind] at h
  cases hp : p.exec s with
  | error e =>
    rw [hp] at h
    cases h
  | ok r =>
    rw [hp] at h
    dsimp only at h
    cases hf : (f r.1).exec (putAll s r.2) with
    | error e =>
      rw [hf] at h
      cases h
    | ok r' =>
      rw [hf, Except.map, Except.ok.injEq, Prod.mk.injEq] at h
      exact ⟨r.1, r.2, r'.2, rfl, by rw [hf, ← h.1], h.2.symm⟩

end Exec

--
-- Footprints
--

/-- Every key the program may read is in `R`, every key it may write in `K`, and
whatever it returns, on any answers, meets `Q`. -/
def KvProgram.Within (R K : Set κ) (Q : α → Prop) : KvProgram κ ν ε α → Prop
  | .ret a => Q a
  | .fail _ => True
  | .get key next => key ∈ R ∧ ∀ r, (next r).Within R K Q
  | .put pairs next => (∀ p ∈ pairs, p.1 ∈ K) ∧ ∀ ok, (next ok).Within R K Q

theorem KvProgram.Within.bind {R K : Set κ} {P : α → Prop} {Q : β → Prop} {p : KvProgram κ ν ε α}
    {f : α → KvProgram κ ν ε β} (hp : p.Within R K P) (hf : ∀ a, P a → (f a).Within R K Q) :
    (p.bind f).Within R K Q := by
  induction p with
  | ret a => exact hf a hp
  | fail e => trivial
  | get key next ih => exact ⟨hp.1, fun r => ih r (hp.2 r)⟩
  | put pairs next ih => exact ⟨hp.1, fun ok => ih ok (hp.2 ok)⟩

theorem KvProgram.Within.lift_bind {R K : Set κ} {Q : β → Prop} {x : Except ε α}
    {f : α → KvProgram κ ν ε β} (hf : ∀ a, x = .ok a → (f a).Within R K Q) :
    ((KvProgram.lift x : KvProgram κ ν ε α).bind f).Within R K Q := by
  cases x with
  | error e => trivial
  | ok a => exact hf a rfl

theorem KvProgram.Within.mono {R K : Set κ} {P Q : α → Prop} {p : KvProgram κ ν ε α}
    (hp : p.Within R K P) (h : ∀ a, P a → Q a) : p.Within R K Q := by
  induction p with
  | ret a => exact h a hp
  | fail e => trivial
  | get key next ih => exact ⟨hp.1, fun r => ih r (hp.2 r)⟩
  | put pairs next ih => exact ⟨hp.1, fun ok => ih ok (hp.2 ok)⟩

theorem KvProgram.Within.run {R K : Set κ} {Q : α → Prop} {p : KvProgram κ ν ε α}
    (hp : p.Within R K Q) {m : KvMedium κ ν W} {w w' : W} {a : α} (h : p.run m w = .ok (a, w')) :
    Q a := by
  induction p generalizing w with
  | ret b =>
    rw [KvProgram.run, Except.ok.injEq, Prod.mk.injEq] at h
    exact h.1 ▸ hp
  | fail e => cases h
  | get key next ih => exact ih _ (hp.2 _) h
  | put pairs next ih => exact ih _ (hp.2 _) h

/-- **Frame.** On a faithful medium a program leaves the keys alone that it may
not write, whichever callbacks fail. -/
theorem KvProgram.Within.frame [DecidableEq κ] {R K : Set κ} {Q : α → Prop}
    {p : KvProgram κ ν ε α} (hp : p.Within R K Q) {m : KvMedium κ ν W} {view : W → κ → Option ν}
    (hm : FaithfulMedium m view) {w w' : W} {a : α} (h : p.run m w = .ok (a, w')) {key : κ}
    (hkey : key ∉ K) : view w' key = view w key := by
  induction p generalizing w with
  | ret b =>
    rw [KvProgram.run, Except.ok.injEq, Prod.mk.injEq] at h
    rw [h.2]
  | fail e => cases h
  | get key' next ih => exact ih _ (hp.2 _) h
  | put pairs next ih =>
    rw [ih _ (hp.2 _) h]
    cases hput : (m.putKVs pairs w).1 with
    | false => rw [hm.put_fail pairs w hput]
    | true =>
      rw [hm.put_ok pairs w hput]
      apply putAll_of_notMem
      rintro q hq rfl
      exact hkey (hp.1 q hq)

/-- **Congruence.** A program does the same on two stores that agree on
everything it may read. -/
theorem KvProgram.exec_congr [DecidableEq κ] {R K : Set κ} {Q : α → Prop} {p : KvProgram κ ν ε α}
    (hp : p.Within R K Q) {s t : κ → Option ν} (h : ∀ key ∈ R, s key = t key) :
    p.exec s = p.exec t := by
  induction p generalizing s t with
  | ret a => rfl
  | fail e => rfl
  | get key next ih =>
    rw [exec, exec, h key hp.1]
    exact ih _ (hp.2 _) h
  | put pairs next ih =>
    rw [exec, exec, ih true (hp.2 true) fun key hkey => putAll_agree (.inl (h key hkey))]

theorem KvProgram.Within.exec [DecidableEq κ] {R K : Set κ} {Q : α → Prop}
    {p : KvProgram κ ν ε α} (hp : p.Within R K Q) {s : κ → Option ν} {a : α} {l : List (κ × ν)}
    (h : p.exec s = .ok (a, l)) : Q a ∧ ∀ q ∈ l, q.1 ∈ K := by
  induction p generalizing s a l with
  | ret b =>
    rw [KvProgram.exec, Except.ok.injEq, Prod.mk.injEq] at h
    rw [← h.1, ← h.2]
    exact ⟨hp, nofun⟩
  | fail e => cases h
  | get key next ih => exact ih _ (hp.2 _) h
  | put pairs next ih =>
    rw [KvProgram.exec] at h
    cases hnext : (next true).exec (putAll s pairs) with
    | error e =>
      rw [hnext] at h
      cases h
    | ok r =>
      rw [hnext, Except.map, Except.ok.injEq, Prod.mk.injEq] at h
      obtain ⟨hQ, hK⟩ := ih true (hp.2 true) hnext
      rw [← h.1, ← h.2]
      refine ⟨hQ, fun q hq => ?_⟩
      rcases List.mem_append.mp hq with hq | hq
      · exact hp.1 q hq
      · exact hK q hq

end Supex.Lib
