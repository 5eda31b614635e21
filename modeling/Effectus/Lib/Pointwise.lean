import Effectus.Lib.Fallible
import Effectus.Lib.Keyed
import Mathlib.Data.List.Forall2

/-!
Two lists that agree record by record.
-/

namespace Effectus.Pointwise

open List

variable {α β : Type} {R : α → β → Prop} {xs : List α} {ys : List β} {x : α} {y : β}

/-- The records that agree are in the lists. -/
theorem with_mem (h : Forall₂ R xs ys) : Forall₂ (fun x y => R x y ∧ x ∈ xs ∧ y ∈ ys) xs ys := by
  induction h with
  | nil => exact .nil
  | @cons a b as bs hab _ ih =>
    refine .cons ⟨hab, mem_cons_self .., mem_cons_self ..⟩ (ih.imp ?_)
    rintro x y ⟨hxy, hx, hy⟩
    exact ⟨hxy, mem_cons_of_mem _ hx, mem_cons_of_mem _ hy⟩

theorem mem_left (h : Forall₂ R xs ys) (hx : x ∈ xs) : ∃ y ∈ ys, R x y := by
  induction h with
  | nil => cases hx
  | @cons a b as bs hab _ ih =>
    rcases mem_cons.1 hx with rfl | hx
    · exact ⟨b, mem_cons_self .., hab⟩
    · obtain ⟨y, hy, hxy⟩ := ih hx
      exact ⟨y, mem_cons_of_mem _ hy, hxy⟩

theorem mem_right (h : Forall₂ R xs ys) (hy : y ∈ ys) : ∃ x ∈ xs, R x y := by
  obtain ⟨x, hx, hxy⟩ := mem_left (R := fun y x => R x y) h.flip hy
  exact ⟨x, hx, hxy⟩

theorem map_eq {γ : Type} {f : α → γ} {g : β → γ} (h : Forall₂ R xs ys) (hf : ∀ x y, R x y → f x = g y) :
    xs.map f = ys.map g := by
  induction h with
  | nil => rfl
  | cons hab _ ih => rw [map_cons, map_cons, hf _ _ hab, ih]

/-- What a function that may fail makes of the records, one by one. -/
theorem forall₂_of_mapM {ε : Type} {f : α → Except ε β} : ∀ {xs : List α} {ys : List β}, xs.mapM f = .ok ys →
    Forall₂ (fun x y => f x = .ok y) xs ys
  | [], ys, h => by
    cases h
    exact .nil
  | x :: xs, ys, h => by
    rw [mapM_cons] at h
    obtain ⟨y, hy, h⟩ := Fallible.bind_ok.1 h
    obtain ⟨others, hothers, h⟩ := Fallible.bind_ok.1 h
    cases h
    exact .cons hy (forall₂_of_mapM hothers)

theorem forall₂_of_mapM_run {ε σ : Type} {f : α → StateT σ (Except ε) β} : ∀ {xs : List α} {ys : List β} {s s' : σ},
    xs.mapM f s = .ok (ys, s') → Forall₂ (fun x y => ∃ s s', f x s = .ok (y, s')) xs ys
  | [], ys, s, s', h => by
    cases h
    exact .nil
  | x :: xs, ys, s, s', h => by
    rw [mapM_cons] at h
    obtain ⟨y, s₁, hy, h⟩ := Fallible.run_bind_ok.1 h
    obtain ⟨others, s₂, hothers, h⟩ := Fallible.run_bind_ok.1 h
    cases Fallible.run_pure_ok.1 h
    exact .cons ⟨s, s₁, hy⟩ (forall₂_of_mapM_run hothers)

/-- What holds between any two records on one side holds on the other. -/
theorem pairwise {S : α → α → Prop} {T : β → β → Prop} (h : Forall₂ R xs ys) (hT : ys.Pairwise T)
    (hS : ∀ x y x' y', R x y → R x' y' → T y y' → S x x') : xs.Pairwise S := by
  induction h with
  | nil => exact .nil
  | @cons x y xs ys hxy hrest ih =>
    obtain ⟨hfirst, hothers⟩ := pairwise_cons.1 hT
    refine pairwise_cons.2 ⟨fun x' hx' => ?_, ih hothers⟩
    obtain ⟨y', hy', hxy'⟩ := mem_left hrest hx'
    exact hS _ _ _ _ hxy hxy' (hfirst y' hy')

end Effectus.Pointwise
