import Mathlib.Data.List.TakeWhile

/-!
Parsers that take tokens from the front of a list, or do not match. What a parser reads is described by a relation
between its result and the tokens it took, all of which are known to be well formed; the relation of a composed parser
follows from those of its parts.
-/

namespace Effectus.Parsing

variable {τ α β : Type}

/-- Whenever the parser matches, it takes tokens from the front that are related to its result. -/
def Reads (W : τ → Prop) (p : StateT (List τ) Option α) (Q : α → List τ → Prop) : Prop :=
  ∀ ts a rest, (∀ x ∈ ts, W x) → p ts = some (a, rest) → ∃ taken, ts = taken ++ rest ∧ Q a taken

namespace Reads

variable {W : τ → Prop} {p q : StateT (List τ) Option α} {Q R : α → List τ → Prop} {f : α → StateT (List τ) Option β}
  {S : β → List τ → Prop}

theorem mono (hp : Reads W p Q) (hQR : ∀ a taken, Q a taken → R a taken) : Reads W p R := by
  intro ts a rest hw h
  obtain ⟨taken, hts, hq⟩ := hp ts a rest hw h
  exact ⟨taken, hts, hQR a taken hq⟩

theorem pure {a : α} (h : Q a []) : Reads W (Pure.pure a) Q := by
  rintro ts _ _ - ⟨⟩
  exact ⟨[], rfl, h⟩

theorem failure : Reads W (failure : StateT (List τ) Option α) Q := by
  rintro ts a rest - ⟨⟩

/-- One parser after another. -/
theorem bind (hp : Reads W p Q)
    (hf : ∀ a before, Q a before → Reads W (f a) fun b taken => S b (before ++ taken)) : Reads W (p >>= f) S := by
  intro ts b rest hw h
  obtain ⟨⟨a, mid⟩, hfirst, hsecond⟩ := Option.bind_eq_some_iff.1 h
  obtain ⟨before, rfl, hq⟩ := hp ts a mid hw hfirst
  obtain ⟨after, rfl, hs⟩ := hf a before hq mid b rest (fun x hx => hw x (List.mem_append_right _ hx)) hsecond
  exact ⟨before ++ after, (List.append_assoc ..).symm, hs⟩

theorem orElse (hp : Reads W p Q) (hq : Reads W q Q) : Reads W (p <|> q) Q := by
  intro ts a rest hw h
  have h' : (p ts <|> q ts) = some (a, rest) := h
  cases hfirst : p ts with
  | none =>
    rw [hfirst] at h'
    exact hq ts a rest hw h'
  | some found =>
    rw [hfirst] at h'
    cases h'
    exact hp ts a rest hw hfirst

theorem ite {c : Prop} [Decidable c] (hp : c → Reads W p Q) (hq : ¬c → Reads W q Q) :
    Reads W (if c then p else q) Q := by
  split
  · exact hp ‹_›
  · exact hq ‹_›

/-- Looking at the tokens takes none. -/
theorem get {Q : List τ → List τ → Prop} (h : ∀ ts, Q ts []) : Reads W get Q := by
  rintro ts _ _ - ⟨⟩
  exact ⟨[], rfl, h ts⟩

/-- Every token as long as a condition holds. -/
theorem dropWhile {c : τ → Bool} {Q : PUnit → List τ → Prop}
    (h : ∀ taken : List τ, (∀ x ∈ taken, c x = true) → Q ⟨⟩ taken) : Reads W (modify (List.dropWhile c)) Q := by
  rintro ts _ _ - ⟨⟩
  exact ⟨ts.takeWhile c, (List.takeWhile_append_dropWhile ..).symm, h _ fun x hx => List.mem_takeWhile_imp hx⟩

end Reads

end Effectus.Parsing
