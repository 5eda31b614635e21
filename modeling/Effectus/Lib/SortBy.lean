import Effectus.Lib.Text
import Mathlib.Data.List.Sort

/-!
Sorting by a text. Where the texts differ, the order things were given in does not matter.
-/

namespace Effectus

instance : Std.Total fun a b : Text => Text.lt b a = false :=
  ⟨fun a b => by simpa [Text.lt] using List.le_total a b⟩

instance : IsTrans Text fun a b => Text.lt b a = false :=
  ⟨fun a b c hab hbc => by
    simp only [Text.lt, decide_eq_false_iff_not, List.not_lt] at hab hbc ⊢
    exact List.le_trans hab hbc⟩

theorem Text.lt_of_not_lt {a b : Text} (h : Text.lt b a = false) (hne : a ≠ b) : Text.lt a b = true := by
  simp only [Text.lt, decide_eq_false_iff_not, List.not_lt, decide_eq_true_eq] at *
  exact not_not.1 fun hnot => hne (List.le_antisymm h (List.not_lt.1 hnot))

namespace SortBy

section

variable {α : Type} (key : α → Text)

instance : Std.Total fun a b : α => Text.lt (key b) (key a) = false :=
  ⟨fun a b => Std.Total.total (r := fun a b : Text => Text.lt b a = false) (key a) (key b)⟩

instance : IsTrans α fun a b => Text.lt (key b) (key a) = false :=
  ⟨fun a b c hab hbc => IsTrans.trans (r := fun a b : Text => Text.lt b a = false) (key a) (key b) (key c) hab hbc⟩

theorem sort_sorted (xs : List α) :
    (xs.insertionSort fun a b => Text.lt (key b) (key a) = false).Pairwise fun a b => Text.lt (key b) (key a) = false :=
  List.pairwise_insertionSort _ xs

theorem sort_sort (xs : List α) :
    ((xs.insertionSort fun a b => Text.lt (key b) (key a) = false).insertionSort fun a b => Text.lt (key b) (key a) = false) =
      xs.insertionSort fun a b => Text.lt (key b) (key a) = false :=
  (sort_sorted key xs).insertionSort_eq

variable {key}

/-- Different texts come in strict order. -/
theorem sort_strict {xs : List α} (h : (xs.map key).Nodup) :
    (xs.insertionSort fun a b => Text.lt (key b) (key a) = false).Pairwise fun a b => Text.lt (key a) (key b) = true := by
  have hperm := List.perm_insertionSort (fun a b : α => Text.lt (key b) (key a) = false) xs
  have hdistinct : (xs.insertionSort fun a b => Text.lt (key b) (key a) = false).Pairwise fun a b => key a ≠ key b :=
    List.pairwise_map.1 ((hperm.map _).nodup_iff.2 h)
  exact ((sort_sorted key xs).and hdistinct).imp fun h => Text.lt_of_not_lt h.1 h.2

theorem sort_perm {xs ys : List α} (hperm : xs.Perm ys) (h : (xs.map key).Nodup) :
    (xs.insertionSort fun a b => Text.lt (key b) (key a) = false) =
      ys.insertionSort fun a b => Text.lt (key b) (key a) = false := by
  have hys : (ys.map key).Nodup := (hperm.map _).nodup_iff.1 h
  refine List.Perm.eq_of_pairwise ?_ (sort_strict h) (sort_strict hys) ?_
  · intro a b _ _ hab hba
    simp only [Text.lt, decide_eq_true_eq] at hab hba
    exact absurd hba (List.lt_asymm hab)
  · exact ((List.perm_insertionSort _ xs).trans hperm).trans (List.perm_insertionSort _ ys).symm

end

end SortBy

end Effectus
