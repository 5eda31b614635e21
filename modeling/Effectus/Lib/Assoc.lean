import Mathlib.Data.List.Basic
import Mathlib.Data.List.Nodup
import Mathlib.Data.List.Pairwise
import Mathlib.Data.List.Perm.Subperm

/-!
Finite maps as association lists in key order. Reading is a search, assignment keeps the order, and two
ordered lists that read alike are the same list.
-/

namespace Effectus

namespace Assoc

section

variable {κ α β : Type} [LT κ] [DecidableLT κ] [DecidableEq κ]

/-- The value under a key. -/
def get? : List (κ × α) → κ → Option α
  | [], _ => none
  | (k', v) :: xs, k => if k' = k then some v else get? xs k

/-- Assignment. -/
def set : List (κ × α) → κ → α → List (κ × α)
  | [], k, v => [(k, v)]
  | (k', v') :: xs, k, v =>
    if k < k' then (k, v) :: (k', v') :: xs
    else if k = k' then (k, v) :: xs
    else (k', v') :: set xs k v

/-- Keys strictly increase. -/
def Ordered (xs : List (κ × α)) : Prop := xs.Pairwise fun x y => x.1 < y.1

instance (xs : List (κ × α)) : Decidable (Ordered xs) := inferInstanceAs (Decidable (List.Pairwise _ _))

end

section

variable {κ α β : Type} [DecidableEq κ] {xs ys : List (κ × α)} {k k' : κ} {v : α}

@[simp] theorem get?_nil : get? ([] : List (κ × α)) k = none := rfl

theorem get?_cons : get? ((k', v) :: xs) k = if k' = k then some v else get? xs k := rfl

theorem mem_of_get? (h : get? xs k = some v) : (k, v) ∈ xs := by
  induction xs with
  | nil => simp at h
  | cons x xs ih =>
    obtain ⟨k', v'⟩ := x
    rw [get?_cons] at h
    split at h
    · rename_i hk
      cases h
      exact hk ▸ List.mem_cons_self ..
    · exact List.mem_cons_of_mem _ (ih h)

theorem get?_eq_none : get? xs k = none ↔ ∀ v, (k, v) ∉ xs := by
  induction xs with
  | nil => simp
  | cons x xs ih =>
    obtain ⟨k', v'⟩ := x
    rw [get?_cons]
    split
    · rename_i hk
      subst hk
      exact ⟨fun h => absurd h (by simp), fun h => absurd (List.mem_cons_self ..) (h v')⟩
    · rename_i hk
      simp [ih, Ne.symm hk]

theorem get?_isSome : (get? xs k).isSome ↔ k ∈ xs.map Prod.fst := by
  rw [← not_iff_not, Bool.not_eq_true, Option.isSome_eq_false_iff, Option.isNone_iff_eq_none, get?_eq_none]
  simp

theorem get?_map (f : α → β) : get? (xs.map fun x => (x.1, f x.2)) k = (get? xs k).map f := by
  induction xs with
  | nil => rfl
  | cons x xs ih =>
    obtain ⟨k', v'⟩ := x
    rw [List.map_cons, get?_cons, get?_cons, ih]
    split <;> rfl

end

section

variable {κ α : Type} [LT κ] [DecidableLT κ] [DecidableEq κ] {xs ys : List (κ × α)} {k k' : κ} {v : α}

theorem get?_set_self : get? (set xs k v) k = some v := by
  induction xs with
  | nil => simp [set, get?_cons]
  | cons x xs ih =>
    obtain ⟨k', v'⟩ := x
    unfold set
    split
    · simp [get?_cons]
    · split
      · simp [get?_cons]
      · rename_i hne
        rw [get?_cons, if_neg (Ne.symm hne), ih]

theorem get?_set_of_ne (h : k' ≠ k) : get? (set xs k v) k' = get? xs k' := by
  induction xs with
  | nil => simp [set, get?_cons, Ne.symm h]
  | cons x xs ih =>
    obtain ⟨k₁, v₁⟩ := x
    unfold set
    split
    · rw [get?_cons, if_neg (Ne.symm h)]
    · split
      · rename_i he
        rw [get?_cons, get?_cons, if_neg (Ne.symm h), if_neg (he ▸ Ne.symm h)]
      · rw [get?_cons, get?_cons, ih]

theorem get?_set : get? (set xs k v) k' = if k' = k then some v else get? xs k' := by
  split
  · rename_i h
    rw [h, get?_set_self]
  · rename_i h
    exact get?_set_of_ne h

theorem mem_set {x : κ × α} (h : x ∈ set xs k v) : x = (k, v) ∨ x ∈ xs := by
  induction xs with
  | nil => simpa [set] using h
  | cons y xs ih =>
    obtain ⟨k', v'⟩ := y
    unfold set at h
    split at h
    · simpa using h
    · split at h
      · rcases List.mem_cons.1 h with h | h
        · exact .inl h
        · exact .inr (List.mem_cons_of_mem _ h)
      · rcases List.mem_cons.1 h with h | h
        · exact .inr (h ▸ List.mem_cons_self ..)
        · exact (ih h).imp_right (List.mem_cons_of_mem _)

end

section

variable {κ α : Type} [LT κ] [DecidableLT κ] [DecidableEq κ] {xs ys : List (κ × α)} {k k' : κ} {v : α}

variable [Std.Irrefl fun a b : κ => a < b] [Trans (fun a b : κ => a < b) (fun a b : κ => a < b) fun a b : κ => a < b]
  [Std.Trichotomous fun a b : κ => a < b]

omit [DecidableLT κ] [DecidableEq κ] [Std.Irrefl fun a b : κ => a < b]
  [Trans (fun a b : κ => a < b) (fun a b : κ => a < b) fun a b : κ => a < b] in
theorem lt_of_not_lt (h : ¬k < k') (hne : k ≠ k') : k' < k := by
  by_contra hn
  exact hne (Std.Trichotomous.trichotomous k k' h hn)

omit [Std.Irrefl fun a b : κ => a < b] in
theorem Ordered.set (h : Ordered xs) : Ordered (set xs k v) := by
  induction xs with
  | nil => simp [Assoc.set, Ordered]
  | cons x xs ih =>
    obtain ⟨k', v'⟩ := x
    obtain ⟨hx, hxs⟩ := List.pairwise_cons.1 h
    unfold Assoc.set
    split
    · rename_i hlt
      refine List.pairwise_cons.2 ⟨fun y hy => ?_, h⟩
      rcases List.mem_cons.1 hy with rfl | hy
      · exact hlt
      · exact Trans.trans hlt (hx y hy)
    · split
      · rename_i he
        exact List.pairwise_cons.2 ⟨he ▸ hx, hxs⟩
      · rename_i hlt hne
        refine List.pairwise_cons.2 ⟨fun y hy => ?_, ih hxs⟩
        rcases mem_set hy with rfl | hy
        · exact lt_of_not_lt hlt hne
        · exact hx y hy

omit [DecidableLT κ] [DecidableEq κ] [Trans (fun a b : κ => a < b) (fun a b : κ => a < b) fun a b : κ => a < b]
  [Std.Trichotomous fun a b : κ => a < b] in
theorem Ordered.nodup_keys (h : Ordered xs) : (xs.map Prod.fst).Nodup := by
  refine List.pairwise_map.2 (h.imp fun {x y} hlt he => ?_)
  rw [he] at hlt
  exact Std.Irrefl.irrefl (r := fun a b : κ => a < b) y.1 hlt

theorem set_comm_of_lt {a b : κ} {w : α} (h : a < b) : set (set xs a v) b w = set (set xs b w) a v := by
  have hlate : ¬b < a := fun hb => Std.Irrefl.irrefl (r := fun a b : κ => a < b) a (Trans.trans h hb)
  have hne : b ≠ a := fun he => Std.Irrefl.irrefl (r := fun a b : κ => a < b) a (he ▸ h)
  induction xs with
  | nil => simp only [Assoc.set, if_neg hlate, if_neg hne, if_pos h]
  | cons x xs ih =>
    obtain ⟨c, u⟩ := x
    by_cases hc : a < c
    · -- Both go before what is there, or the first of them does.
      have hfirst : set (set ((c, u) :: xs) b w) a v = (a, v) :: set ((c, u) :: xs) b w := by
        rw [Assoc.set.eq_def ((c, u) :: xs)]
        dsimp only
        split
        · rw [Assoc.set, if_pos h]
        · split
          · rw [Assoc.set, if_pos h]
          · rw [Assoc.set, if_pos hc]
      rw [hfirst, Assoc.set.eq_def ((c, u) :: xs) a v]
      dsimp only
      rw [if_pos hc, Assoc.set, if_neg hlate, if_neg hne]
    · by_cases he : a = c
      · subst he
        simp only [Assoc.set, if_neg hc, if_true, if_neg hlate, if_neg hne]
      · have hb : c < b := Trans.trans (lt_of_not_lt hc he) h
        have hbc : ¬b < c := fun hb' => Std.Irrefl.irrefl (r := fun a b : κ => a < b) c (Trans.trans hb hb')
        have hbe : b ≠ c := fun he' => Std.Irrefl.irrefl (r := fun a b : κ => a < b) c (he' ▸ hb)
        simp only [Assoc.set, if_neg hc, if_neg he, if_neg hbc, if_neg hbe, ih]

/-- Two keys can be assigned in either order. -/
theorem set_comm {a b : κ} {w : α} (h : a ≠ b) : set (set xs a v) b w = set (set xs b w) a v := by
  by_cases hlt : a < b
  · exact set_comm_of_lt hlt
  · exact (set_comm_of_lt (lt_of_not_lt hlt h)).symm

omit [DecidableLT κ] [Trans (fun a b : κ => a < b) (fun a b : κ => a < b) fun a b : κ => a < b]
  [Std.Trichotomous fun a b : κ => a < b] in
theorem Ordered.get?_of_mem (h : Ordered xs) (hm : (k, v) ∈ xs) : get? xs k = some v := by
  induction xs with
  | nil => simp at hm
  | cons x xs ih =>
    obtain ⟨k', v'⟩ := x
    obtain ⟨hx, hxs⟩ := List.pairwise_cons.1 h
    rw [get?_cons]
    rcases List.mem_cons.1 hm with he | hm
    · cases he
      exact if_pos rfl
    · have hne : k' ≠ k := by
        rintro rfl
        exact Std.Irrefl.irrefl k' (hx _ hm)
      rw [if_neg hne, ih hxs hm]

omit [DecidableLT κ] [Std.Trichotomous fun a b : κ => a < b] in
/-- Ordered lists that read alike are equal. -/
theorem Ordered.ext (hx : Ordered xs) (hy : Ordered ys) (h : ∀ k, get? xs k = get? ys k) : xs = ys := by
  induction xs generalizing ys with
  | nil =>
    cases ys with
    | nil => rfl
    | cons y ys =>
      have hy := h y.1
      rw [get?_cons, if_pos rfl] at hy
      simp at hy
  | cons x xs ih =>
    obtain ⟨k, v⟩ := x
    obtain ⟨hxk, hxs⟩ := List.pairwise_cons.1 hx
    cases ys with
    | nil =>
      have hk := h k
      rw [get?_cons, if_pos rfl] at hk
      simp at hk
    | cons y ys =>
      obtain ⟨k', v'⟩ := y
      obtain ⟨hyk, hys⟩ := List.pairwise_cons.1 hy
      -- Each head is in the other list, so neither key is below the other.
      have hkk : k = k' := by
        by_contra hne
        have h₁ : (k, v) ∈ (k', v') :: ys := mem_of_get? (by rw [← h k, get?_cons, if_pos rfl])
        have h₂ : (k', v') ∈ (k, v) :: xs := mem_of_get? (by rw [h k', get?_cons, if_pos rfl])
        have hlt : k' < k := hyk _ ((List.mem_cons.1 h₁).resolve_left fun he => hne (Prod.mk.inj he).1)
        have hgt : k < k' := hxk _ ((List.mem_cons.1 h₂).resolve_left fun he => hne (Prod.mk.inj he).1.symm)
        exact Std.Irrefl.irrefl k (Trans.trans hgt hlt)
      subst hkk
      have hv : v = v' := by simpa [get?_cons] using h k
      subst hv
      refine congrArg _ (ih hxs hys fun j => ?_)
      by_cases hj : k = j
      · subst hj
        rw [get?_eq_none.2 fun w hw => Std.Irrefl.irrefl k (hxk _ hw),
          get?_eq_none.2 fun w hw => Std.Irrefl.irrefl k (hyk _ hw)]
      · have hjj := h j
        rwa [get?_cons, get?_cons, if_neg hj, if_neg hj] at hjj

omit [DecidableLT κ] [Std.Trichotomous fun a b : κ => a < b] in
/-- An ordered list whose entries another one reads back, and that is as long, is that list. -/
theorem Ordered.eq_of_reads (hx : Ordered xs) (hy : Ordered ys) (hl : ys.length ≤ xs.length)
    (h : ∀ x ∈ xs, get? ys x.1 = some x.2) : xs = ys := by
  have hnodup : xs.Nodup := by
    refine List.Pairwise.imp ?_ hx
    rintro x _ hlt rfl
    exact Std.Irrefl.irrefl _ hlt
  have hperm : xs.Perm ys := (List.subperm_of_subset hnodup fun x hm => mem_of_get? (h x hm)).perm_of_length_le hl
  refine hx.ext hy fun k => ?_
  cases hk : get? xs k with
  | some v => exact (h _ (mem_of_get? hk)).symm
  | none => exact (get?_eq_none.2 fun v hv => get?_eq_none.1 hk v (hperm.mem_iff.2 hv)).symm

end

/-! ### Maps that carry their order -/

section

variable {κ α β ε : Type} [LT κ]

theorem Ordered.of_keys {xs : List (κ × α)} {ys : List (κ × β)} (h : Ordered xs)
    (hk : ys.map Prod.fst = xs.map Prod.fst) : Ordered ys := by
  rw [Ordered, ← List.pairwise_map (f := Prod.fst) (R := fun a b : κ => a < b)] at h ⊢
  exact hk ▸ h

/-- Each value through a function that may fail, in key order. -/
def mapM (f : κ → α → Except ε β) : List (κ × α) → Except ε (List (κ × β))
  | [] => .ok []
  | (k, v) :: xs =>
    match f k v with
    | .error err => .error err
    | .ok w =>
      match mapM f xs with
      | .error err => .error err
      | .ok ys => .ok ((k, w) :: ys)

omit [LT κ] in
theorem keys_mapM {f : κ → α → Except ε β} : ∀ {xs : List (κ × α)} {ys : List (κ × β)},
    mapM f xs = .ok ys → ys.map Prod.fst = xs.map Prod.fst
  | [], ys, h => by
    cases h
    rfl
  | (k, v) :: xs, ys, h => by
    simp only [mapM] at h
    split at h
    · cases h
    · split at h
      · cases h
      · rename_i ys' hys
        cases h
        rw [List.map_cons, List.map_cons, keys_mapM hys]

omit [LT κ] in
theorem get?_mapM [DecidableEq κ] {f : κ → α → Except ε β} {k : κ} : ∀ {xs : List (κ × α)} {ys : List (κ × β)},
    mapM f xs = .ok ys → ∀ {w : β}, get? ys k = some w → ∃ v, get? xs k = some v ∧ f k v = .ok w
  | [], ys, h, w, hw => by
    cases h
    simp at hw
  | (k', v) :: xs, ys, h, w, hw => by
    simp only [mapM] at h
    split at h
    · cases h
    · rename_i w' hf
      split at h
      · cases h
      · rename_i ys' hys
        cases h
        rw [get?_cons] at hw
        split at hw
        · rename_i hk
          subst hk
          cases hw
          exact ⟨v, by rw [get?_cons, if_pos rfl], hf⟩
        · rename_i hk
          obtain ⟨v', hv', hf'⟩ := get?_mapM hys hw
          exact ⟨v', by rw [get?_cons, if_neg hk, hv'], hf'⟩

omit [LT κ] in
theorem mem_mapM {f : κ → α → Except ε β} {k : κ} {w : β} : ∀ {xs : List (κ × α)} {ys : List (κ × β)},
    mapM f xs = .ok ys → (k, w) ∈ ys → ∃ v, (k, v) ∈ xs ∧ f k v = .ok w
  | [], ys, h, hm => by
    cases h
    simp at hm
  | (k', v) :: xs, ys, h, hm => by
    simp only [mapM] at h
    split at h
    · cases h
    · rename_i w' hf
      split at h
      · cases h
      · rename_i ys' hys
        cases h
        rcases List.mem_cons.1 hm with he | hm
        · cases he
          exact ⟨v, List.mem_cons_self .., hf⟩
        · obtain ⟨v', hv', hf'⟩ := mem_mapM hys hm
          exact ⟨v', List.mem_cons_of_mem _ hv', hf'⟩

omit [LT κ] in
theorem mapM_self {f : κ → α → Except ε α} : ∀ {xs : List (κ × α)}, (∀ x ∈ xs, f x.1 x.2 = .ok x.2) → mapM f xs = .ok xs
  | [], _ => rfl
  | (k, v) :: xs, h => by
    have hv := h _ (List.mem_cons_self ..)
    simp only [mapM, hv, mapM_self fun x hx => h x (List.mem_cons_of_mem _ hx)]

omit [LT κ] in
theorem exists_mem_mapM {f : κ → α → Except ε β} {k : κ} {v : α} : ∀ {xs : List (κ × α)} {ys : List (κ × β)},
    mapM f xs = .ok ys → (k, v) ∈ xs → ∃ w, f k v = .ok w ∧ (k, w) ∈ ys
  | [], ys, _, hm => by simp at hm
  | (k', v') :: xs, ys, h, hm => by
    simp only [mapM] at h
    split at h
    · cases h
    · rename_i w hf
      split at h
      · cases h
      · rename_i ys' hys
        cases h
        rcases List.mem_cons.1 hm with he | hm
        · cases he
          exact ⟨w, hf, List.mem_cons_self ..⟩
        · obtain ⟨w', hw', hmem⟩ := exists_mem_mapM hys hm
          exact ⟨w', hw', List.mem_cons_of_mem _ hmem⟩

end

section

variable {κ α : Type} [LT κ] [DecidableLT κ] [DecidableEq κ] [Std.Irrefl fun a b : κ => a < b]
  [Trans (fun a b : κ => a < b) (fun a b : κ => a < b) fun a b : κ => a < b]

/-- Assignment above every key appends. -/
theorem set_of_lt {k : κ} {v : α} : ∀ {xs : List (κ × α)}, (∀ x ∈ xs, x.1 < k) → set xs k v = xs ++ [(k, v)]
  | [], _ => rfl
  | (k', v') :: xs, h => by
    have hlt : k' < k := h _ (List.mem_cons_self ..)
    have hnot : ¬k < k' := fun hgt => Std.Irrefl.irrefl k (Trans.trans hgt hlt)
    have hne : k ≠ k' := by
      rintro rfl
      exact Std.Irrefl.irrefl k hlt
    rw [set, if_neg hnot, if_neg hne, set_of_lt fun x hx => h x (List.mem_cons_of_mem _ hx), List.cons_append]

end

end Assoc

/-- A finite map: entries in key order. -/
structure Dict (κ α : Type) [LT κ] where
  entries : List (κ × α)
  ordered : Assoc.Ordered entries

namespace Dict

variable {κ α β ε : Type} [LT κ]

def empty : Dict κ α := ⟨[], List.Pairwise.nil⟩

def get? [DecidableEq κ] (m : Dict κ α) (k : κ) : Option α := Assoc.get? m.entries k

/-- The same keys with other values. -/
def map (f : α → β) (m : Dict κ α) : Dict κ β :=
  ⟨m.entries.map fun x => (x.1, f x.2), m.ordered.of_keys (by simp)⟩

/-- Each value through a function that may fail, in key order. -/
def mapM (f : κ → α → Except ε β) (m : Dict κ α) : Except ε (Dict κ β) :=
  match h : Assoc.mapM f m.entries with
  | .error err => .error err
  | .ok ys => .ok ⟨ys, m.ordered.of_keys (Assoc.keys_mapM h)⟩

section

variable [DecidableLT κ] [DecidableEq κ] [Trans (fun a b : κ => a < b) (fun a b : κ => a < b) fun a b : κ => a < b]
  [Std.Trichotomous fun a b : κ => a < b]

def set (m : Dict κ α) (k : κ) (v : α) : Dict κ α := ⟨Assoc.set m.entries k v, m.ordered.set⟩

/-- The map that a list of assignments makes, one after another. -/
def ofEntries (xs : List (κ × α)) : Dict κ α := xs.foldl (fun m x => m.set x.1 x.2) empty

end

@[simp] theorem get?_map [DecidableEq κ] {f : α → β} {m : Dict κ α} {k : κ} : (m.map f).get? k = (m.get? k).map f :=
  Assoc.get?_map f

theorem get?_mapM [DecidableEq κ] {f : κ → α → Except ε β} {m : Dict κ α} {n : Dict κ β} (h : m.mapM f = .ok n) {k : κ}
    {w : β} (hw : n.get? k = some w) : ∃ v, m.get? k = some v ∧ f k v = .ok w := by
  unfold mapM at h
  split at h
  · cases h
  · rename_i ys hys
    cases h
    exact Assoc.get?_mapM hys hw

theorem ext {m n : Dict κ α} (h : m.entries = n.entries) : m = n := by
  cases m
  cases n
  cases h
  rfl

theorem entries_mapM {f : κ → α → Except ε β} {m : Dict κ α} {n : Dict κ β} (h : m.mapM f = .ok n) :
    Assoc.mapM f m.entries = .ok n.entries := by
  unfold mapM at h
  split at h
  · cases h
  · rename_i ys hys
    cases h
    exact hys

theorem mapM_eq {f : κ → α → Except ε β} {m : Dict κ α} {n : Dict κ β} (h : Assoc.mapM f m.entries = .ok n.entries) :
    m.mapM f = .ok n := by
  unfold mapM
  split
  · rename_i err herr
    rw [h] at herr
    cases herr
  · rename_i ys hys
    rw [h] at hys
    cases hys
    rfl

theorem mapM_self {f : κ → α → Except ε α} {m : Dict κ α} (h : ∀ x ∈ m.entries, f x.1 x.2 = .ok x.2) :
    m.mapM f = .ok m :=
  mapM_eq (Assoc.mapM_self h)

theorem map_self {f : α → α} {m : Dict κ α} (h : ∀ x ∈ m.entries, f x.2 = x.2) : m.map f = m := by
  have hentries : m.entries.map (fun x => (x.1, f x.2)) = m.entries := by
    conv_rhs => rw [← List.map_id m.entries]
    exact List.map_congr_left fun x hx => Prod.ext rfl (h x hx)
  unfold map
  congr

end Dict

end Effectus
