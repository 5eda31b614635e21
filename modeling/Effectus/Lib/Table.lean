import Mathlib.Data.List.Sort
import Mathlib.Data.List.Nodup
import Mathlib.Data.List.Perm.Basic

/-!
Relational tables as lists of rows: the statements that rewrite them, and the two kinds of constraint a
schema declares, unique indexes and references. A row order stands for the physical order, so a sort that
keeps equal rows in it can break ties in any way.
-/

namespace Effectus.Table

section

variable {ρ σ κ : Type}

/-- `UPDATE … SET f WHERE p`. -/
def update (p : ρ → Bool) (f : ρ → ρ) (rows : List ρ) : List ρ := rows.map fun r => if p r then f r else r

/-- `DELETE … WHERE p`. -/
def delete (p : ρ → Bool) (rows : List ρ) : List ρ := rows.filter fun r => !p r

/-- `ORDER BY … LIMIT n`, where `late a b` says that `a` comes after `b`. -/
def first (late : ρ → ρ → Bool) (n : Nat) (rows : List ρ) : List ρ :=
  (rows.insertionSort fun a b => late a b = false).take n

/-- A unique index on `key` over the rows it covers. -/
def Indexed (covers : ρ → Bool) (key : ρ → κ) (rows : List ρ) : Prop := ((rows.filter covers).map key).Nodup

/-- A primary key or a unique constraint: an index over every row. -/
def Unique (key : ρ → κ) (rows : List ρ) : Prop := (rows.map key).Nodup

/-- A foreign key. -/
def References (source : ρ → κ) (rows : List ρ) (target : σ → κ) (targets : List σ) : Prop :=
  ∀ r ∈ rows, ∃ t ∈ targets, target t = source r

instance [DecidableEq κ] (covers : ρ → Bool) (key : ρ → κ) (rows : List ρ) : Decidable (Indexed covers key rows) :=
  inferInstanceAs (Decidable (List.Nodup _))

instance [DecidableEq κ] (key : ρ → κ) (rows : List ρ) : Decidable (Unique key rows) :=
  inferInstanceAs (Decidable (List.Nodup _))

instance [DecidableEq κ] (source : ρ → κ) (rows : List ρ) (target : σ → κ) (targets : List σ) :
    Decidable (References source rows target targets) :=
  inferInstanceAs (Decidable (∀ r ∈ rows, ∃ t ∈ targets, target t = source r))

end

/-! ### Deletions -/

section

variable {ρ σ κ : Type} {p : ρ → Bool} {q : σ → Bool} {key : ρ → κ} {rows : List ρ} {targets : List σ}
  {source : ρ → κ} {target : σ → κ}

theorem mem_delete {r : ρ} : r ∈ delete p rows ↔ r ∈ rows ∧ p r = false := by
  simp [delete, List.mem_filter]

theorem Unique.eq_of_key (h : Unique key rows) {r s : ρ} (hr : r ∈ rows) (hs : s ∈ rows) (he : key r = key s) : r = s :=
  List.inj_on_of_nodup_map h hr hs he

/-- Rows that refer may go. -/
theorem References.delete (h : References source rows target targets) :
    References source (delete p rows) target targets :=
  fun r hr => h r (mem_delete.1 hr).1

/-- Rows referred to may go once nothing refers to them. -/
theorem References.delete_target (h : References source rows target targets)
    (hfree : ∀ r ∈ rows, ∀ t ∈ targets, target t = source r → q t = false) :
    References source rows target (Table.delete q targets) := by
  intro r hr
  obtain ⟨t, ht, he⟩ := h r hr
  exact ⟨t, mem_delete.2 ⟨ht, hfree r hr t ht he⟩, he⟩

/-- What is deleted and what is left make up the table. -/
theorem length_delete : (rows.filter p).length + (delete p rows).length = rows.length :=
  (List.length_eq_length_filter_add p).symm

end

/-! ### Insertions and updates -/

section

variable {ρ σ κ : Type} {p covers : ρ → Bool} {q : σ → Bool} {f : ρ → ρ} {g : σ → σ} {key : ρ → κ} {rows : List ρ}
  {targets : List σ} {source : ρ → κ} {target : σ → κ} {r : ρ} {t : σ}

theorem mem_update : r ∈ update p f rows ↔ ∃ x ∈ rows, r = if p x then f x else x := by
  simp only [update, List.mem_map, eq_comm]

/-- An update that keeps a column. -/
theorem map_update {β : Type} {column : ρ → β} (hf : ∀ r ∈ rows, p r = true → column (f r) = column r) :
    (update p f rows).map column = rows.map column := by
  rw [update, List.map_map]
  refine List.map_congr_left fun r hr => ?_
  by_cases hp : p r = true
  · simp [hp, hf r hr hp]
  · simp [hp]

theorem Unique.update (h : Unique key rows) (hf : ∀ r ∈ rows, p r = true → key (f r) = key r) :
    Unique key (update p f rows) := by
  rw [Unique, map_update hf]
  exact h

theorem Unique.concat (h : Unique key rows) (hnew : ∀ x ∈ rows, key x ≠ key r) : Unique key (rows ++ [r]) := by
  rw [Unique, List.map_append, List.nodup_append]
  refine ⟨h, by simp, ?_⟩
  rintro k hk k' hk' rfl
  obtain ⟨x, hx, rfl⟩ := List.mem_map.1 hk
  exact hnew x hx (by simpa using hk')

/-- An update that brings no row under the index. -/
theorem Indexed.update (h : Indexed covers key rows) (hkey : ∀ r ∈ rows, p r = true → key (f r) = key r)
    (hcovers : ∀ r ∈ rows, p r = true → covers (f r) = true → covers r = true) :
    Indexed covers key (update p f rows) := by
  have hsub : ((Table.update p f rows).filter covers).map key |>.Sublist ((rows.filter covers).map key) := by
    clear h
    induction rows with
    | nil => exact List.Sublist.refl _
    | cons r rows ih =>
      have ih := ih (fun x hx => hkey x (List.mem_cons_of_mem _ hx)) fun x hx => hcovers x (List.mem_cons_of_mem _ hx)
      have hkey := hkey r (List.mem_cons_self ..)
      have hcovers := hcovers r (List.mem_cons_self ..)
      by_cases hp : p r = true
      · by_cases hc : covers (f r) = true
        · simpa [Table.update, hp, hc, hcovers hp hc, hkey hp] using ih
        · by_cases hr : covers r = true
          · simpa [Table.update, hp, hc, hr] using ih.cons (key r)
          · simpa [Table.update, hp, hc, hr] using ih
      · by_cases hr : covers r = true
        · simpa [Table.update, hp, hr] using ih
        · simpa [Table.update, hp, hr] using ih
  exact h.sublist hsub

theorem References.update (h : References source rows target targets)
    (hf : ∀ r ∈ rows, p r = true → source (f r) = source r) : References source (update p f rows) target targets := by
  intro r hr
  obtain ⟨x, hx, rfl⟩ := mem_update.1 hr
  obtain ⟨t, ht, he⟩ := h x hx
  refine ⟨t, ht, ?_⟩
  split
  · rename_i hp
    rw [hf x hx hp, he]
  · exact he

theorem References.concat (h : References source rows target targets) (hr : ∃ t ∈ targets, target t = source r) :
    References source (rows ++ [r]) target targets := by
  intro x hx
  rcases List.mem_append.1 hx with hx | hx
  · exact h x hx
  · rw [List.mem_singleton.1 hx]
    exact hr

theorem References.concat_target (h : References source rows target targets) :
    References source rows target (targets ++ [t]) := by
  intro r hr
  obtain ⟨x, hx, he⟩ := h r hr
  exact ⟨x, List.mem_append_left _ hx, he⟩

end

/-! ### The first rows of a table -/

section

variable {ρ κ : Type} {late : ρ → ρ → Bool} {n : Nat} {rows : List ρ} {key : ρ → κ}

theorem mem_of_mem_first {r : ρ} (h : r ∈ first late n rows) : r ∈ rows :=
  (List.mem_insertionSort _).1 (List.mem_of_mem_take h)

theorem Unique.first (h : Unique key rows) : Unique key (first late n rows) := by
  have hsort : ((rows.insertionSort fun a b => late a b = false).map key).Nodup :=
    ((List.perm_insertionSort _ rows).map key).nodup_iff.2 h
  exact hsort.sublist ((List.take_sublist ..).map key)

theorem Unique.filter (h : Unique key rows) (p : ρ → Bool) : Unique key (rows.filter p) :=
  h.sublist (List.filter_sublist.map key)

variable [BEq κ] [LawfulBEq κ]

/-- Among rows with a key of their own, those with a key from `picked` are as many as `picked`. -/
theorem length_filter_contains {picked : List κ} (h : Unique key rows) (hn : picked.Nodup)
    (hsub : ∀ k ∈ picked, ∃ r ∈ rows, key r = k) :
    (rows.filter fun r => picked.contains (key r)).length = picked.length := by
  have hperm : ((rows.filter fun r => picked.contains (key r)).map key).Perm picked := by
    rw [List.perm_ext_iff_of_nodup (h.filter _) hn]
    intro k
    simp only [List.mem_map, List.mem_filter, List.contains_iff_mem]
    constructor
    · rintro ⟨r, ⟨-, hr⟩, rfl⟩
      exact hr
    · intro hk
      obtain ⟨r, hr, rfl⟩ := hsub k hk
      exact ⟨r, ⟨hr, hk⟩, rfl⟩
  simpa using hperm.length_eq

end

/-! ### Ranks -/

/-- `late` is the strict order of an `ORDER BY` whose columns tell rows apart. -/
structure Orders {ρ : Type} (late : ρ → ρ → Bool) : Prop where
  asymm : ∀ {a b}, late a b = true → late b a = false
  trans : ∀ {a b c}, late a b = false → late b c = false → late a c = false

section

variable {ρ κ : Type} {late : ρ → ρ → Bool} {n : Nat} {rows : List ρ} {key : ρ → κ}

/-- How many rows come before a row. -/
def rank (late : ρ → ρ → Bool) (rows : List ρ) (r : ρ) : Nat := rows.countP fun x => late r x

theorem Orders.pairwise (ho : Orders late) : (rows.insertionSort fun a b => late a b = false).Pairwise
    fun a b => late a b = false := by
  have : Std.Total fun a b : ρ => late a b = false := ⟨fun a b => by
    cases h : late a b with
    | true => exact .inr (ho.asymm h)
    | false => exact .inl rfl⟩
  have : IsTrans ρ fun a b => late a b = false := ⟨fun _ _ _ => ho.trans⟩
  exact List.pairwise_insertionSort _ rows

/-- A row is among the first `n` exactly when fewer than `n` come before it. -/
theorem mem_first (ho : Orders late) (hu : Unique key rows)
    (ht : ∀ a ∈ rows, ∀ b ∈ rows, key a ≠ key b → late a b = true ∨ late b a = true) {r : ρ} (hr : r ∈ rows) :
    r ∈ first late n rows ↔ rank late rows r < n := by
  have hperm := List.perm_insertionSort (fun a b => late a b = false) rows
  have hsorted : (rows.insertionSort fun a b => late a b = false).Pairwise fun a b => late a b = false := ho.pairwise
  obtain ⟨pre, post, he⟩ := List.append_of_mem (hperm.mem_iff.2 hr)
  rw [rank, ← hperm.countP_eq, first]
  have hkeys : ((rows.insertionSort fun a b => late a b = false).map key).Nodup := (hperm.map key).nodup_iff.2 hu
  have hin : ∀ x ∈ pre, x ∈ rows := fun x hx => hperm.mem_iff.1 (he ▸ List.mem_append_left _ hx)
  rw [he] at hsorted hkeys ⊢
  rw [List.pairwise_append, List.pairwise_cons] at hsorted
  rw [List.map_append, List.map_cons, List.nodup_append, List.nodup_cons] at hkeys
  obtain ⟨-, ⟨hpost, -⟩, hpre⟩ := hsorted
  -- The rows before it in the sorted table are the rows it comes after.
  have hrank : (pre ++ r :: post).countP (fun x => late r x) = pre.length := by
    rw [List.countP_append, List.countP_eq_length.2, List.countP_eq_zero.2, Nat.add_zero]
    · intro x hx
      rcases List.mem_cons.1 hx with rfl | hx
      · cases h : late x x with
        | true => simpa [h] using ho.asymm h
        | false => simp
      · simp [hpost x hx]
    · intro x hx
      have hne : key r ≠ key x := fun h => hkeys.2.2 (key x) (List.mem_map_of_mem hx) (key r) (List.mem_cons_self ..) h.symm
      have hlate := ht r hr x (hin x hx) hne
      rwa [hpre x hx r (List.mem_cons_self ..), Bool.false_eq_true, or_false] at hlate
  rw [hrank]
  constructor
  · intro hm
    by_contra hge
    rw [List.take_append_of_le_length (not_lt.1 hge)] at hm
    have hm := List.mem_of_mem_take hm
    exact hkeys.2.2 (key r) (List.mem_map_of_mem hm) (key r) (List.mem_cons_self ..) rfl
  · intro hlt
    rw [List.take_append, List.mem_append]
    right
    obtain ⟨k, hk⟩ : ∃ k, n - pre.length = k + 1 := ⟨n - pre.length - 1, by omega⟩
    rw [hk, List.take_succ_cons]
    exact List.mem_cons_self ..

end

end Effectus.Table
