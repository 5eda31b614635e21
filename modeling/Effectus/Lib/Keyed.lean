import Mathlib.Data.List.Basic
import Mathlib.Data.List.Nodup
import Mathlib.Data.List.Perm.Basic

/-!
A finite map kept as a list of records, each under a key of its own. Looking a key up finds the one
record under it, and an update rewrites that record in place.
-/

namespace Effectus.Keyed

section

variable {α κ : Type} [DecidableEq κ] (key : α → κ)

/-- The record under `k`. -/
def get? (xs : List α) (k : κ) : Option α := xs.find? fun x => decide (key x = k)

/-- Rewrite the record under `k`. -/
def modify (xs : List α) (k : κ) (f : α → α) : List α := xs.map fun x => if key x = k then f x else x

/-- No two records share a key. -/
def Unique (xs : List α) : Prop := (xs.map key).Nodup

end

section

variable {α κ : Type} {key : α → κ} {xs : List α} {x y : α}

/-- Under unique keys a record is the one its key finds. -/
theorem Unique.eq_of_key (hu : Unique key xs) (hx : x ∈ xs) (hy : y ∈ xs) (h : key x = key y) :
    x = y :=
  List.inj_on_of_nodup_map hu hx hy h

theorem Unique.append (hu : Unique key xs) (hx : ∀ y ∈ xs, key y ≠ key x) :
    Unique key (xs ++ [x]) := by
  rw [Unique, List.map_append, List.nodup_append]
  refine ⟨hu, by simp, ?_⟩
  rintro a ha b hb rfl
  obtain ⟨y, hy, rfl⟩ := List.mem_map.1 ha
  exact hx y hy (by simpa using hb)

/-- Keys that determine unique ones are unique. -/
theorem Unique.of_key {κ' : Type} {key' : α → κ'} (hu : Unique key xs)
    (h : ∀ x ∈ xs, ∀ y ∈ xs, key' x = key' y → key x = key y) : Unique key' xs :=
  (List.Nodup.of_map _ hu).map_on fun x hx y hy he => hu.eq_of_key hx hy (h x hx y hy he)

end

section

variable {α κ : Type} [DecidableEq κ] {key : α → κ} {xs : List α} {k : κ} {x y : α} {f : α → α}

theorem mem_of_get? (h : get? key xs k = some x) : x ∈ xs := List.mem_of_find?_eq_some h

theorem key_of_get? (h : get? key xs k = some x) : key x = k := by
  have := List.find?_some h
  simpa using this

theorem get?_eq_none : get? key xs k = none ↔ ∀ x ∈ xs, key x ≠ k := by
  simp [get?, List.find?_eq_none]

theorem Unique.get?_of_mem (hu : Unique key xs) (hx : x ∈ xs) : get? key xs (key x) = some x := by
  cases hg : get? key xs (key x) with
  | none => exact absurd rfl (get?_eq_none.1 hg x hx)
  | some y =>
    rw [hu.eq_of_key (mem_of_get? hg) hx (key_of_get? hg)]

theorem mem_modify : y ∈ modify key xs k f ↔
    (∃ x ∈ xs, key x = k ∧ y = f x) ∨ (y ∈ xs ∧ key y ≠ k) := by
  simp only [modify, List.mem_map]
  constructor
  · rintro ⟨x, hx, rfl⟩
    by_cases h : key x = k
    · exact .inl ⟨x, hx, h, if_pos h⟩
    · rw [if_neg h]
      exact .inr ⟨hx, h⟩
  · rintro (⟨x, hx, h, rfl⟩ | ⟨hy, h⟩)
    · exact ⟨x, hx, if_pos h⟩
    · exact ⟨y, hy, if_neg h⟩

/-- Under unique keys an update rewrites the one record it finds. -/
theorem Unique.mem_modify (hu : Unique key xs) (hx : x ∈ xs) (hk : key x = k) :
    y ∈ modify key xs k f ↔ y = f x ∨ (y ∈ xs ∧ key y ≠ k) := by
  rw [Keyed.mem_modify]
  constructor
  · rintro (⟨z, hz, hzk, rfl⟩ | h)
    · rw [hu.eq_of_key hz hx (hzk.trans hk.symm)]
      exact .inl rfl
    · exact .inr h
  · rintro (rfl | h)
    · exact .inl ⟨x, hx, hk, rfl⟩
    · exact .inr h

/-- An update that keeps a part of the record keeps it in the whole list. -/
theorem map_modify {β : Type} {g : α → β} (hf : ∀ x ∈ xs, key x = k → g (f x) = g x) :
    (modify key xs k f).map g = xs.map g := by
  simp only [modify, List.map_map]
  refine List.map_congr_left fun x hx => ?_
  by_cases h : key x = k
  · simp [h, hf x hx h]
  · simp [h]

/-- Looking up commutes with a rewriting that keeps keys. -/
theorem get?_map {g : α → α} (hg : ∀ x ∈ xs, key (g x) = key x) :
    get? key (xs.map g) k = (get? key xs k).map g := by
  induction xs with
  | nil => rfl
  | cons x xs ih =>
    have hx := hg x (List.mem_cons_self ..)
    have ih := ih fun y hy => hg y (List.mem_cons_of_mem _ hy)
    simp only [get?, List.map_cons, List.find?_cons, hx] at ih ⊢
    by_cases h : key x = k
    · simp [h]
    · simpa [h] using ih

theorem get?_modify_of_ne {k' : κ} (hf : ∀ x ∈ xs, key x = k → key (f x) = k) (h : k' ≠ k) :
    get? key (modify key xs k f) k' = get? key xs k' := by
  have hkeep : ∀ x ∈ xs, key (if key x = k then f x else x) = key x := by
    intro x hx
    split
    · rename_i hk
      rw [hf x hx hk, hk]
    · rfl
  rw [modify, get?_map hkeep]
  cases hg : get? key xs k' with
  | none => rfl
  | some x =>
    have hne : key x ≠ k := by
      rw [key_of_get? hg]
      exact h
    simp [hne]

/-- The record an update rewrote is found under its key. -/
theorem get?_modify_self (h : get? key xs k = some x) (hf : ∀ y ∈ xs, key y = k → key (f y) = k) :
    get? key (modify key xs k f) k = some (f x) := by
  have hkeep : ∀ y ∈ xs, key (if key y = k then f y else y) = key y := by
    intro y hy
    split
    · rename_i hk
      rw [hf y hy hk, hk]
    · rfl
  rw [modify, get?_map hkeep, h, Option.map_some, if_pos (key_of_get? h)]

theorem get?_append {ys : List α} : get? key (xs ++ ys) k = (get? key xs k).or (get? key ys k) :=
  List.find?_append

theorem Unique.modify (hu : Unique key xs) (hf : ∀ x ∈ xs, key x = k → key (f x) = key x) :
    Unique key (modify key xs k f) := by
  rw [Unique, map_modify hf]
  exact hu

end

end Effectus.Keyed
