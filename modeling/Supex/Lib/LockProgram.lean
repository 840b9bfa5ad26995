import Supex.Lib.KvProgram

/-!
# Programs under a lock

A program over a key-value store that also takes and drops one lock that is not
recursive. A run keeps whether the lock is held: taking it while it is held,
and dropping it while it is not, is a misuse.

* `LockProgram.run_bind` — a sequence is run part by part.
* `LockProgram.run_ofKv` — a program without the lock leaves it as it is.
* `LockProgram.run_erase` — a run without misuse does what the program does
  without its lock.
-/

namespace Supex.Lib

variable {κ ν ε α β W : Type}

/-- A program that may also take and drop the lock. -/
inductive LockProgram (κ ν ε α : Type) where
  | ret (a : α)
  | fail (e : ε)
  | get (key : κ) (next : Option (Option ν) → LockProgram κ ν ε α)
  | put (pairs : List (κ × ν)) (next : Bool → LockProgram κ ν ε α)
  | lock (next : LockProgram κ ν ε α)
  | unlock (next : LockProgram κ ν ε α)

/-- How a run ends. -/
inductive LockOutcome (ε α W : Type) where
  | misuse
  | fault (e : ε)
  | done (a : α) (w : W) (held : Bool)
  deriving DecidableEq

namespace LockProgram

/-- One program after the other. -/
def bind : LockProgram κ ν ε α → (α → LockProgram κ ν ε β) → LockProgram κ ν ε β
  | .ret a, f => f a
  | .fail e, _ => .fail e
  | .get key next, f => .get key fun r => (next r).bind f
  | .put pairs next, f => .put pairs fun ok => (next ok).bind f
  | .lock next, f => .lock (next.bind f)
  | .unlock next, f => .unlock (next.bind f)

instance : Monad (LockProgram κ ν ε) where
  pure := .ret
  bind := .bind

/-- A program that does not know the lock. -/
def ofKv : KvProgram κ ν ε α → LockProgram κ ν ε α
  | .ret a => .ret a
  | .fail e => .fail e
  | .get key next => .get key fun r => ofKv (next r)
  | .put pairs next => .put pairs fun ok => ofKv (next ok)

/-- The program without its lock. -/
def erase : LockProgram κ ν ε α → KvProgram κ ν ε α
  | .ret a => .ret a
  | .fail e => .fail e
  | .get key next => .get key fun r => (next r).erase
  | .put pairs next => .put pairs fun ok => (next ok).erase
  | .lock next => next.erase
  | .unlock next => next.erase

/-- The program on a medium; `held` tells whether the lock is held. -/
def run (m : KvMedium κ ν W) : LockProgram κ ν ε α → Bool → W → LockOutcome ε α W
  | .ret a, held, w => .done a w held
  | .fail e, _, _ => .fault e
  | .get key next, held, w => (next (m.getKVs key w)).run m held w
  | .put pairs next, held, w => (next (m.putKVs pairs w).1).run m held (m.putKVs pairs w).2
  | .lock next, held, w => if held then .misuse else next.run m true w
  | .unlock next, held, w => if held then next.run m false w else .misuse

/-- From a free lock on, it is never misused, and free again at the end. -/
def Disciplined (m : KvMedium κ ν W) (p : LockProgram κ ν ε α) (w : W) : Prop :=
  match p.run m false w with
  | .misuse => False
  | .fault _ => True
  | .done _ _ held => held = false

--
-- Runs
--

theorem run_bind (m : KvMedium κ ν W) (p : LockProgram κ ν ε α) (f : α → LockProgram κ ν ε β)
    (held : Bool) (w : W) :
    (p >>= f).run m held w =
      match p.run m held w with
      | .misuse => .misuse
      | .fault e => .fault e
      | .done a w' held' => (f a).run m held' w' := by
  induction p generalizing held w with
  | ret a => rfl
  | fail e => rfl
  | get key next ih => exact ih _ held w
  | put pairs next ih => exact ih _ held _
  | lock next ih =>
    cases held with
    | true => rfl
    | false => exact ih true w
  | unlock next ih =>
    cases held with
    | true => exact ih false w
    | false => rfl

theorem run_ofKv (m : KvMedium κ ν W) (p : KvProgram κ ν ε α) (held : Bool) (w : W) :
    (ofKv p).run m held w =
      match p.run m w with
      | .error e => .fault e
      | .ok (a, w') => .done a w' held := by
  induction p generalizing w with
  | ret a => rfl
  | fail e => rfl
  | get key next ih => exact ih _ w
  | put pairs next ih => exact ih _ _

theorem disciplined_ofKv (m : KvMedium κ ν W) (p : KvProgram κ ν ε α) (w : W) :
    Disciplined m (ofKv p) w := by
  unfold Disciplined
  rw [run_ofKv]
  rcases p.run m w with e | ⟨a, w'⟩
  · trivial
  · rfl

theorem disciplined_of_done {m : KvMedium κ ν W} {p : LockProgram κ ν ε α} {a : α} {w w' : W}
    (h : p.run m false w = .done a w' false) : Disciplined m p w := by
  rw [Disciplined, h]

theorem disciplined_bind_ret (m : KvMedium κ ν W) (p : LockProgram κ ν ε α) (f : α → β) (w : W) :
    Disciplined m (p >>= fun a => .ret (f a)) w ↔ Disciplined m p w := by
  unfold Disciplined
  rw [run_bind]
  cases p.run m false w <;> rfl

--
-- Without the lock
--

theorem erase_bind (p : LockProgram κ ν ε α) (f : α → LockProgram κ ν ε β) :
    (p >>= f).erase = p.erase >>= fun a => (f a).erase := by
  show (p.bind f).erase = p.erase.bind fun a => (f a).erase
  induction p with
  | ret a => rfl
  | fail e => rfl
  | get key next ih =>
    rw [bind, erase, erase, KvProgram.bind]
    simp only [ih]
  | put pairs next ih =>
    rw [bind, erase, erase, KvProgram.bind]
    simp only [ih]
  | lock next ih => exact ih
  | unlock next ih => exact ih

theorem erase_ofKv (p : KvProgram κ ν ε α) : (ofKv p).erase = p := by
  induction p with
  | ret a => rfl
  | fail e => rfl
  | get key next ih =>
    rw [ofKv, erase]
    simp only [ih]
  | put pairs next ih =>
    rw [ofKv, erase]
    simp only [ih]

/-- **Erasure.** A run that does not misuse the lock does what the program does
without it. -/
theorem run_erase (m : KvMedium κ ν W) (p : LockProgram κ ν ε α) (held : Bool) (w : W) :
    match p.run m held w with
    | .misuse => True
    | .fault e => p.erase.run m w = .error e
    | .done a w' _ => p.erase.run m w = .ok (a, w') := by
  induction p generalizing held w with
  | ret a => rfl
  | fail e => rfl
  | get key next ih => exact ih _ held w
  | put pairs next ih => exact ih _ held _
  | lock next ih =>
    cases held with
    | true => trivial
    | false => exact ih true w
  | unlock next ih =>
    cases held with
    | true => exact ih false w
    | false => trivial

end LockProgram

end Supex.Lib
