import Mathlib.Data.List.Perm.Basic

/-!
The running upper bound of a list under a preorder that need not be total. The bound is raised to an element above it and
kept for an element below it; an element that is neither ends the run without a bound. A bound that is found is above every
element, whatever the order, but whether one is found depends on the order exactly when some element is above all others
while two others are incomparable.
-/

namespace Effectus

namespace RunningBound

variable {α : Type} (le : α → α → Bool)

/-- The bound of the elements from `m` on. -/
def from? : α → List α → Option α
  | m, [] => some m
  | m, x :: xs => if le x m then from? m xs else if le m x then from? x xs else none

def bound? : List α → Option α
  | [] => none
  | x :: xs => from? le x xs

/-- Some element is above all. -/
def HasGreatest (xs : List α) : Prop := ∃ m ∈ xs, ∀ x ∈ xs, le x m = true

/-- Any two elements compare. -/
def IsChain (xs : List α) : Prop := ∀ x ∈ xs, ∀ y ∈ xs, le x y = true ∨ le y x = true

variable {le} {xs ys : List α} {m u : α}

theorem from?_spec (htrans : ∀ a b c : α, le a b = true → le b c = true → le a c = true) :
    ∀ {xs : List α} {m u : α}, (∀ x ∈ m :: xs, le x x = true) → from? le m xs = some u →
      u ∈ m :: xs ∧ ∀ x ∈ m :: xs, le x u = true
  | [], m, u, hrefl, h => by
    cases h
    exact ⟨List.mem_cons_self .., fun x hx => by
      rw [List.mem_singleton.1 hx]
      exact hrefl m (List.mem_cons_self ..)⟩
  | y :: xs, m, u, hrefl, h => by
    obtain ⟨hm, hrest⟩ := List.forall_mem_cons.1 hrefl
    obtain ⟨hy, hxs⟩ := List.forall_mem_cons.1 hrest
    rw [from?] at h
    split at h
    · rename_i hle
      obtain ⟨hmem, habove⟩ := from?_spec htrans (List.forall_mem_cons.2 ⟨hm, hxs⟩) h
      obtain ⟨hmu, hxu⟩ := List.forall_mem_cons.1 habove
      refine ⟨?_, List.forall_mem_cons.2 ⟨hmu, List.forall_mem_cons.2 ⟨htrans _ _ _ hle hmu, hxu⟩⟩⟩
      rcases List.mem_cons.1 hmem with rfl | hmem
      · exact List.mem_cons_self ..
      · exact List.mem_cons_of_mem _ (List.mem_cons_of_mem _ hmem)
    split at h
    · rename_i hle
      obtain ⟨hmem, habove⟩ := from?_spec htrans hrest h
      obtain ⟨hyu, -⟩ := List.forall_mem_cons.1 habove
      exact ⟨List.mem_cons_of_mem _ hmem, List.forall_mem_cons.2 ⟨htrans _ _ _ hle hyu, habove⟩⟩
    · cases h

/-- A bound is one of the elements and above all of them. -/
theorem bound?_spec (htrans : ∀ a b c : α, le a b = true → le b c = true → le a c = true)
    (hrefl : ∀ x ∈ xs, le x x = true) (h : bound? le xs = some u) : u ∈ xs ∧ ∀ x ∈ xs, le x u = true := by
  cases xs with
  | nil => cases h
  | cons x xs => exact from?_spec htrans hrefl h

theorem from?_of_isChain : ∀ {xs : List α} {m : α}, IsChain le (m :: xs) → ∃ u, from? le m xs = some u
  | [], m, _ => ⟨m, rfl⟩
  | y :: xs, m, h => by
    have hsub : ∀ {z}, z ∈ m :: y :: xs → IsChain le (z :: xs) := by
      intro z hz a ha b hb
      have hmem : ∀ {c}, c ∈ z :: xs → c ∈ m :: y :: xs := by
        intro c hc
        rcases List.mem_cons.1 hc with rfl | hc
        · exact hz
        · exact List.mem_cons_of_mem _ (List.mem_cons_of_mem _ hc)
      exact h a (hmem ha) b (hmem hb)
    have hy : y ∈ m :: y :: xs := List.mem_cons_of_mem _ (List.mem_cons_self ..)
    have hm : m ∈ m :: y :: xs := List.mem_cons_self ..
    rw [from?]
    split
    · exact from?_of_isChain (hsub hm)
    split
    · exact from?_of_isChain (hsub hy)
    · rename_i hym hmy
      exact absurd (h y hy m hm) (by simp [hym, hmy])

theorem bound?_of_isChain (hne : xs ≠ []) (h : IsChain le xs) : ∃ u, bound? le xs = some u := by
  cases xs with
  | nil => exact absurd rfl hne
  | cons x xs => exact from?_of_isChain h

/-- A greatest element that comes first stays the bound. -/
theorem from?_of_greatest : ∀ {xs : List α}, (∀ x ∈ xs, le x m = true) → from? le m xs = some m
  | [], _ => rfl
  | x :: xs, h => by
    obtain ⟨hx, hxs⟩ := List.forall_mem_cons.1 h
    rw [from?, if_pos hx]
    exact from?_of_greatest hxs

theorem IsChain.perm (h : IsChain le xs) (hp : ys.Perm xs) : IsChain le ys := fun x hx y hy =>
  h x (hp.mem_iff.1 hx) y (hp.mem_iff.1 hy)

theorem perm_of_mem {x : α} (h : x ∈ xs) : ∃ rest, xs.Perm (x :: rest) := by
  obtain ⟨front, back, rfl⟩ := List.append_of_mem h
  exact ⟨front ++ back, List.perm_middle⟩

/-- Whether a bound is found does not depend on the order exactly when a greatest element comes with a chain. -/
theorem order_free_iff (htrans : ∀ a b c : α, le a b = true → le b c = true → le a c = true) (hne : xs ≠ [])
    (hrefl : ∀ x ∈ xs, le x x = true) :
    (∀ ys zs : List α, ys.Perm xs → zs.Perm xs → ((bound? le ys).isSome ↔ (bound? le zs).isSome)) ↔
      (HasGreatest le xs → IsChain le xs) := by
  constructor
  · rintro h ⟨m, hm, hgreatest⟩ x hx y hy
    -- With the greatest element first there is a bound, so there is one with `x` and `y` first.
    obtain ⟨others, hothers⟩ := perm_of_mem hm
    have hfound : bound? le (m :: others) = some m :=
      from?_of_greatest fun z hz => hgreatest z (hothers.mem_iff.2 (List.mem_cons_of_mem _ hz))
    obtain ⟨rest, hrest⟩ := perm_of_mem hx
    rcases List.mem_cons.1 (hrest.mem_iff.1 hy) with rfl | hy
    · exact .inl (hrefl y hx)
    obtain ⟨rest, hrest'⟩ := perm_of_mem hy
    have hperm : (x :: y :: rest).Perm xs := ((hrest'.cons x).symm.trans hrest.symm)
    have hsome := (h _ _ hothers.symm hperm).1 (by rw [hfound]; rfl)
    by_contra hn
    rw [not_or] at hn
    rw [bound?, from?, if_neg hn.2, if_neg hn.1] at hsome
    cases hsome
  · intro h
    have hfree : ∀ {ys : List α}, ys.Perm xs → ((bound? le ys).isSome ↔ HasGreatest le xs) := by
      intro ys hp
      constructor
      · intro hsome
        obtain ⟨u, hu⟩ := Option.isSome_iff_exists.1 hsome
        obtain ⟨hmem, habove⟩ := bound?_spec htrans (fun x hx => hrefl x (hp.mem_iff.1 hx)) hu
        exact ⟨u, hp.mem_iff.1 hmem, fun x hx => habove x (hp.mem_iff.2 hx)⟩
      · intro hgreatest
        obtain ⟨u, hu⟩ := bound?_of_isChain (fun hnil => hne (List.perm_nil.1 (hnil ▸ hp.symm))) ((h hgreatest).perm hp)
        rw [hu]
        rfl
    exact fun ys zs hy hz => (hfree hy).trans (hfree hz).symm

end RunningBound

end Effectus
