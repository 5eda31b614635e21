import Mathlib.Init
import Mathlib.Tactic.Common

/-!
Computations that may fail, with or without a state: what it takes for one to succeed, operation by operation.
-/

namespace Effectus.Fallible

variable {ε σ α β : Type}

/-! ### Without a state -/

section

variable {x : Except ε α} {f : α → Except ε β} {a : α} {b : β}

theorem bind_ok : (x >>= f) = .ok b ↔ ∃ a, x = .ok a ∧ f a = .ok b := by
  cases x with
  | error err => simp [bind, Except.bind]
  | ok a => simp [bind, Except.bind]

theorem pure_ok {a' : α} : (pure a : Except ε α) = .ok a' ↔ a = a' := by
  simp [pure, Except.pure]

theorem throw_ok {err : ε} : ¬(throw err : Except ε α) = .ok a := by
  simp [throw, throwThe, MonadExceptOf.throw]

theorem throw_bind {err : ε} {g : α → Except ε β} : ¬(throw err >>= g) = .ok b := by
  rw [bind_ok]
  rintro ⟨a, h, -⟩
  exact throw_ok h

/-- A check that fails before the rest runs. -/
theorem guard_ok {p : Prop} [Decidable p] {err : ε} {g : β → Except ε α} :
    (if p then throw err >>= g else x) = .ok a ↔ ¬p ∧ x = .ok a := by
  split
  · rename_i hp
    exact ⟨fun h => absurd h throw_bind, fun h => absurd hp h.1⟩
  · rename_i hp
    exact ⟨fun h => ⟨hp, h⟩, fun h => h.2⟩

theorem ite_error_ok {p : Prop} [Decidable p] {err : ε} {y : Except ε α} :
    (if p then .error err else y) = .ok a ↔ ¬p ∧ y = .ok a := by
  by_cases h : p <;> simp [h]

theorem map_ok {g : α → β} : x.map g = .ok b ↔ ∃ a, x = .ok a ∧ g a = b := by
  cases x with
  | error err => simp [Except.map]
  | ok a => simp [Except.map]

theorem mapError_ok {ε' : Type} {g : ε → ε'} : x.mapError g = .ok a ↔ x = .ok a := by
  cases x with
  | error err => simp [Except.mapError]
  | ok a => simp [Except.mapError]

/-- A result that passes a test is a result. -/
theorem ok_of_any {p : α → Bool} (h : x.toOption.any p = true) : ∃ a, x = .ok a ∧ p a = true := by
  cases x with
  | error err => cases h
  | ok a => exact ⟨a, rfl, h⟩

theorem forM_ok {xs : List α} {g : α → Except ε Unit} : xs.forM g = .ok () ↔ ∀ x ∈ xs, g x = .ok () := by
  induction xs with
  | nil => simp [pure_ok]
  | cons x xs ih =>
    rw [show (x :: xs).forM g = (g x >>= fun _ => xs.forM g) from rfl, bind_ok, List.forall_mem_cons, ← ih]
    exact ⟨fun ⟨_, hx, hxs⟩ => ⟨hx, hxs⟩, fun ⟨hx, hxs⟩ => ⟨(), hx, hxs⟩⟩

end

/-! ### With a state -/

section

variable {x : StateT σ (Except ε) α} {f : α → StateT σ (Except ε) β} {s : σ} {r : α × σ} {q : β × σ}

theorem run_bind_ok : (x >>= f) s = .ok q ↔ ∃ a s', x s = .ok (a, s') ∧ f a s' = .ok q := by
  rw [show (x >>= f) s = (x s >>= fun p => f p.1 p.2) from rfl, bind_ok]
  constructor
  · rintro ⟨⟨a, s'⟩, hx, hf⟩
    exact ⟨a, s', hx, hf⟩
  · rintro ⟨a, s', hx, hf⟩
    exact ⟨(a, s'), hx, hf⟩

/-- What follows a computation that has returned. -/
theorem run_bind_of_ok {a : α} {s' : σ} (h : x s = .ok (a, s')) : (x >>= f) s = f a s' := by
  rw [show (x >>= f) s = (x s >>= fun p => f p.1 p.2) from rfl, h]
  rfl

theorem run_bind_of_error {err : ε} (h : x s = .error err) : (x >>= f) s = .error err := by
  rw [show (x >>= f) s = (x s >>= fun p => f p.1 p.2) from rfl, h]
  rfl

theorem run_get_bind {g : σ → StateT σ (Except ε) β} : ((get : StateT σ (Except ε) σ) >>= g) s = g s s := rfl

theorem run_pure_ok {a : α} : (pure a : StateT σ (Except ε) α) s = .ok r ↔ r = (a, s) := by
  rw [show (pure a : StateT σ (Except ε) α) s = .ok (a, s) from rfl, Except.ok.injEq, eq_comm]

theorem run_throw_ok {err : ε} : ¬(throw err : StateT σ (Except ε) α) s = .ok r := by
  rw [show (throw err : StateT σ (Except ε) α) s = .error err from rfl]
  exact nofun

theorem run_throw_bind {err : ε} : ¬(throw err >>= f) s = .ok q := by
  rw [run_bind_ok]
  rintro ⟨a, s', h, -⟩
  exact run_throw_ok h

/-- A check that fails before the rest runs. -/
theorem run_guard_ok {p : Prop} [Decidable p] {err : ε} {g : β → StateT σ (Except ε) α} :
    (if p then throw err >>= g else x) s = .ok r ↔ ¬p ∧ x s = .ok r := by
  split
  · rename_i hp
    exact ⟨fun h => absurd h run_throw_bind, fun h => absurd hp h.1⟩
  · rename_i hp
    exact ⟨fun h => ⟨hp, h⟩, fun h => h.2⟩

theorem run_get_ok {r : σ × σ} : (get : StateT σ (Except ε) σ) s = .ok r ↔ r = (s, s) := by
  rw [show (get : StateT σ (Except ε) σ) s = .ok (s, s) from rfl, Except.ok.injEq, eq_comm]

theorem run_modify_ok {g : σ → σ} {r : Unit × σ} : (modify g : StateT σ (Except ε) Unit) s = .ok r ↔ r = ((), g s) := by
  rw [show (modify g : StateT σ (Except ε) Unit) s = .ok ((), g s) from rfl, Except.ok.injEq, eq_comm]

theorem run_lift_ok {y : Except ε α} : (liftM y : StateT σ (Except ε) α) s = .ok r ↔ ∃ a, y = .ok a ∧ r = (a, s) := by
  rw [show (liftM y : StateT σ (Except ε) α) s = (y >>= fun a => .ok (a, s)) from rfl, bind_ok]
  simp only [Except.ok.injEq, eq_comm]

theorem run_tryCatch_ok {handler : ε → StateT σ (Except ε) α} (hfail : ∀ err q, ¬handler err s = .ok q) :
    (tryCatch x handler) s = .ok r ↔ x s = .ok r := by
  rw [show (tryCatch x handler) s = (match x s with
    | .error err => handler err s
    | .ok r => .ok r) from ?_]
  · cases hx : x s with
    | error err => simpa using hfail err r
    | ok q => rfl
  · show Except.tryCatch (x s) (fun err => handler err s) = _
    cases x s <;> rfl

end

/-! ### Runs of a computation with a state -/

/-- The computation returns `a` and leaves `s'`. -/
def Runs (x : StateT σ (Except ε) α) (s : σ) (a : α) (s' : σ) : Prop := x s = .ok (a, s')

end Effectus.Fallible
