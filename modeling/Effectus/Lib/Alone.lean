import Effectus.Lib.Threads

/-!
A program that runs alone, with its calls served by some implementation of them.
-/

namespace Effectus.Prog

variable {S : System} {α β σ : Type}

/-- How an implementation with states `σ` serves a call; one it cannot serve stops the program. -/
abbrev Server (S : System) (σ : Type) := (c : S.Call) → σ → Option (S.Reply c × σ)

/-- The result of a program and the state it leaves. -/
def eval (serve : Server S σ) : Prog S α → σ → Option (α × σ)
  | .ret a, s => some (a, s)
  | .call c k, s => (serve c s).bind fun r => (k r.1).eval serve r.2

variable {serve : Server S σ} {s : σ}

theorem eval_call (c : S.Call) (k : S.Reply c → Prog S α) :
    (call c k).eval serve s = (serve c s).bind fun r => (k r.1).eval serve r.2 := rfl

theorem eval_bind (p : Prog S α) (f : α → Prog S β) :
    (p.bind f).eval serve s = (p.eval serve s).bind fun r => (f r.1).eval serve r.2 := by
  induction p generalizing s with
  | ret a => rfl
  | call c k ih =>
    rw [Prog.bind, eval_call, eval_call, Option.bind_assoc]
    congr 1
    funext r
    exact ih r.1

/-- A call and what follows its reply. -/
theorem eval_perform_bind {c : S.Call} {f : S.Reply c → Prog S β} {r : S.Reply c} {s' : σ}
    (h : serve c s = some (r, s')) : ((perform c).bind f).eval serve s = (f r).eval serve s' := by
  rw [perform, Prog.bind, eval_call, h]
  rfl

/-- A program that another server brings to its end without a state of its own ends so here, if this one gives
the same replies and keeps its state. -/
theorem eval_of_quiet {quiet : Server S Unit} (hq : ∀ c r, quiet c () = some r → serve c s = some (r.1, s)) {a : α} :
    ∀ {p : Prog S α}, p.eval quiet () = some (a, ()) → p.eval serve s = some (a, s)
  | .ret _, h => by
    obtain rfl := (Prod.mk.inj (Option.some.inj h)).1
    rfl
  | .call c k, h => by
    rw [eval_call] at h ⊢
    obtain ⟨r, hr, hk⟩ := Option.bind_eq_some_iff.1 h
    rw [hq c r hr]
    exact eval_of_quiet hq hk

end Effectus.Prog
