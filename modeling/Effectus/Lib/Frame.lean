import Effectus.Lib.Fallible

/-!
A part of the state that a computation leaves alone, whatever it does to the rest.
-/

namespace Effectus.Fallible

variable {ε σ τ α β : Type} {f : σ → τ} {x : StateT σ (Except ε) α} {g : α → StateT σ (Except ε) β}

/-- A computation that returns does so with this part of the state as it was. -/
def Keeps (f : σ → τ) (x : StateT σ (Except ε) α) : Prop := ∀ ⦃s a s'⦄, x s = .ok (a, s') → f s' = f s

theorem keeps_pure (a : α) : Keeps f (pure a : StateT σ (Except ε) α) := by
  intro s b s' h
  obtain ⟨rfl, rfl⟩ := Prod.mk.inj (run_pure_ok.1 h)
  rfl

theorem keeps_throw (err : ε) : Keeps f (throw err : StateT σ (Except ε) α) := fun _ _ _ h => absurd h run_throw_ok

theorem keeps_get : Keeps f (get : StateT σ (Except ε) σ) := by
  intro s b s' h
  obtain ⟨rfl, rfl⟩ := Prod.mk.inj (run_get_ok.1 h)
  rfl

theorem keeps_modify {u : σ → σ} (hu : ∀ s, f (u s) = f s) : Keeps f (modify u : StateT σ (Except ε) Unit) := by
  intro s b s' h
  obtain ⟨-, rfl⟩ := Prod.mk.inj (run_modify_ok.1 h)
  exact hu s

theorem keeps_lift (y : Except ε α) : Keeps f (liftM y : StateT σ (Except ε) α) := by
  intro s b s' h
  obtain ⟨a, -, heq⟩ := run_lift_ok.1 h
  obtain ⟨rfl, rfl⟩ := Prod.mk.inj heq
  rfl

theorem Keeps.bind (hx : Keeps f x) (hg : ∀ a, Keeps f (g a)) : Keeps f (x >>= g) := by
  intro s b s' h
  obtain ⟨a, s₁, hxs, hgs⟩ := run_bind_ok.1 h
  exact (hg a hgs).trans (hx hxs)

theorem Keeps.ite {p : Prop} [Decidable p] {y : StateT σ (Except ε) α} (hx : Keeps f x) (hy : Keeps f y) :
    Keeps f (if p then x else y) := by
  split
  · exact hx
  · exact hy

/-- A check before the rest. -/
theorem Keeps.guard {p : Prop} [Decidable p] {err : ε} {u : β → StateT σ (Except ε) α} (hx : Keeps f x) :
    Keeps f (if p then throw err >>= u else x) :=
  .ite (fun _ _ _ h => absurd h run_throw_bind) hx

/-- A computation whose errors are put in other words. -/
theorem Keeps.rethrow {h : ε → ε} (hx : Keeps f x) : Keeps f (tryCatch x fun err => throw (h err)) :=
  fun _ _ _ hrun => hx ((run_tryCatch_ok fun _ _ => run_throw_ok).1 hrun)

end Effectus.Fallible
