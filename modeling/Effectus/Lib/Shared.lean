import Mathlib.Algebra.BigOperators.Group.List.Basic
import Mathlib.Algebra.Order.BigOperators.Group.List
import Mathlib.Algebra.Order.Group.Nat
import Mathlib.Data.Multiset.Count
import Mathlib.Data.Multiset.OrderedMonoid

/-!
Entries shared by their users. A table holds at most one entry for each key. Who finds no entry makes one, who finds one joins
it, and the last to leave takes it out of the table. Entries are numbered in the order they were made and keep their number,
so that one that was taken out is not mistaken for the next one under its key.
-/

namespace Effectus.Shared

/-! ### Sums over a list of parties -/

section

variable {α M : Type} [AddCommMonoid M]

/-- What all parties have together. -/
def total (f : α → M) (l : List α) : M := (l.map f).sum

@[simp] theorem total_nil (f : α → M) : total f [] = 0 := rfl

@[simp] theorem total_cons (f : α → M) (a : α) (l : List α) : total f (a :: l) = f a + total f l := by
  simp [total]

@[simp] theorem total_append (f : α → M) (l l' : List α) : total f (l ++ l') = total f l + total f l' := by
  simp [total]

/-- One party moves from `a` to `b`. -/
theorem total_set (f : α → M) {l : List α} {i : Nat} {a : α} (h : l[i]? = some a) (b : α) :
    total f (l.set i b) + f a = total f l + f b := by
  induction l generalizing i with
  | nil => cases h
  | cons c l ih =>
    cases i with
    | zero =>
      cases h
      simp only [List.set_cons_zero, total_cons]
      rw [add_comm (f b + _), ← add_assoc, add_right_comm]
    | succ i =>
      simp only [List.set_cons_succ, total_cons, add_assoc]
      rw [ih h]

theorem total_set_eq (f : α → M) {l : List α} {i : Nat} {a b : α} (h : l[i]? = some a) (hf : f b = f a) :
    total f (l.set i b) = total f l := by
  induction l generalizing i with
  | nil => cases h
  | cons c l ih =>
    cases i with
    | zero =>
      cases h
      simp [hf]
    | succ i => simp [ih h]

theorem total_set_gain {f : α → M} {l : List α} {i : Nat} {a b : α} (h : l[i]? = some a) (ha : f a = 0) :
    total f (l.set i b) = f b + total f l := by
  rw [add_comm, ← total_set f h b, ha, add_zero]

theorem total_set_loss {f : α → M} {l : List α} {i : Nat} {a b : α} (h : l[i]? = some a) (hb : f b = 0) :
    total f l = f a + total f (l.set i b) := by
  rw [add_comm, total_set f h b, hb, add_zero]

theorem total_eq_zero {f : α → M} {l : List α} (h : ∀ a ∈ l, f a = 0) : total f l = 0 := by
  induction l with
  | nil => rfl
  | cons a l ih => rw [total_cons, h a List.mem_cons_self, ih fun b hb => h b (List.mem_cons_of_mem _ hb), add_zero]

theorem le_total_of_mem [PartialOrder M] [CanonicallyOrderedAdd M] {f : α → M} {l : List α} {a : α} (h : a ∈ l) :
    f a ≤ total f l := by
  induction l with
  | nil => cases h
  | cons c l ih =>
    rw [total_cons]
    rcases List.mem_cons.1 h with rfl | h
    · exact le_self_add
    · exact (ih h).trans le_add_self

end

section

variable {α β : Type}

/-- What there is once is with one party. -/
theorem index_eq_of_count_le_one [DecidableEq β] {f : α → Multiset β} {l : List α} {b : β} (h : (total f l).count b ≤ 1)
    {i j : Nat} {a a' : α} (hi : l[i]? = some a) (hj : l[j]? = some a') (ha : b ∈ f a) (ha' : b ∈ f a') : i = j := by
  induction l generalizing i j with
  | nil => cases hi
  | cons c l ih =>
    rw [total_cons, Multiset.count_add] at h
    have hrest : ∀ {k : Nat} {c' : α}, l[k]? = some c' → b ∈ f c' → 1 ≤ (total f l).count b := fun hk hc' =>
      Multiset.one_le_count_iff_mem.2 (Multiset.mem_of_le (le_total_of_mem (List.mem_of_getElem? hk)) hc')
    cases i with
    | zero =>
      cases hi
      cases j with
      | zero => rfl
      | succ j =>
        have hhead := Multiset.one_le_count_iff_mem.2 ha
        have htail := hrest hj ha'
        omega
    | succ i =>
      cases j with
      | zero =>
        cases hj
        have hhead := Multiset.one_le_count_iff_mem.2 ha'
        have htail := hrest hi ha
        omega
      | succ j => rw [ih (by omega) hi hj]

theorem mem_total {f : α → Multiset β} {l : List α} {b : β} : b ∈ total f l ↔ ∃ a ∈ l, b ∈ f a := by
  induction l with
  | nil => simp
  | cons a l ih => simp [ih]

end

/-! ### The table -/

structure Entry (ε : Type) where
  users : Nat
  value : ε

structure Table (κ ε : Type) where
  current : κ → Option Nat
  entries : List (Entry ε)

namespace Table

variable {κ ε : Type}

def empty : Table κ ε := ⟨fun _ => none, []⟩

/-- The value of an entry by its number, also after it was taken out. -/
def value? (t : Table κ ε) (n : Nat) : Option ε := t.entries[n]?.map Entry.value

def put (t : Table κ ε) (n : Nat) (v : ε) : Table κ ε :=
  { t with entries := t.entries.modify n fun e => { e with value := v } }

variable [DecidableEq κ]

/-- The number of the entry that is joined, which is new if there was none. -/
def join (t : Table κ ε) (k : κ) (init : ε) : Nat × Table κ ε :=
  match t.current k with
  | some n => (n, { t with entries := t.entries.modify n fun e => { e with users := e.users + 1 } })
  | none =>
    (t.entries.length, ⟨Function.update t.current k (some t.entries.length), t.entries ++ [⟨1, init⟩]⟩)

/-- Whether the one that leaves is the last. -/
def leave (t : Table κ ε) (k : κ) (n : Nat) : Bool × Table κ ε :=
  let entries := t.entries.modify n fun e => { e with users := e.users - 1 }
  let last := entries[n]?.any fun e => e.users == 0
  (last, ⟨if last then Function.update t.current k none else t.current, entries⟩)

theorem leave_last {t : Table κ ε} {n : Nat} {e : Entry ε} (he : t.entries[n]? = some e) (k : κ) :
    (t.leave k n).1 = decide (e.users - 1 = 0) := by
  simp [leave, he]
  rfl

end Table

/-! ### Counting users -/

/-- The table of the parties that have joined and not left, each with its key and the entry it joined. -/
structure Counts {κ ε : Type} (t : Table κ ε) (users : Multiset (κ × Nat)) : Prop where
  count : ∀ n e, t.entries[n]? = some e → e.users = (users.map Prod.snd).count n
  current : ∀ k n, t.current k = some n ↔ (k, n) ∈ users
  key : ∀ k k' n, (k, n) ∈ users → (k', n) ∈ users → k = k'
  made : ∀ k n, (k, n) ∈ users → n < t.entries.length

namespace Counts

variable {κ ε : Type} {t : Table κ ε} {users : Multiset (κ × Nat)} {k : κ} {n : Nat}

theorem start : Counts (Table.empty : Table κ ε) 0 := by
  constructor <;> simp [Table.empty]

/-- Under one key there is one entry. -/
theorem same (h : Counts t users) {n' : Nat} (hn : (k, n) ∈ users) (hn' : (k, n') ∈ users) : n = n' :=
  Option.some.inj (((h.current k n).2 hn).symm.trans ((h.current k n').2 hn'))

theorem entry (h : Counts t users) (hn : (k, n) ∈ users) : ∃ e, t.entries[n]? = some e ∧ 0 < e.users := by
  have hlt := h.made k n hn
  refine ⟨t.entries[n], List.getElem?_eq_getElem hlt, ?_⟩
  rw [h.count n _ (List.getElem?_eq_getElem hlt)]
  exact Multiset.count_pos.2 (Multiset.mem_map_of_mem Prod.snd hn)

theorem unused (h : Counts t 0) : (∀ k, t.current k = none) ∧ ∀ (n : Nat) (e : Entry ε), t.entries[n]? = some e → e.users = 0 := by
  refine ⟨fun k => ?_, fun n e he => by simpa using h.count n e he⟩
  cases hk : t.current k with
  | none => rfl
  | some n => exact absurd ((h.current k n).1 hk) (Multiset.notMem_zero _)

theorem put (h : Counts t users) (n : Nat) (v : ε) : Counts (t.put n v) users where
  count m e he := by
    simp only [Table.put, List.getElem?_modify, Option.map_eq_map, Option.map_eq_some_iff] at he
    obtain ⟨e', he', rfl⟩ := he
    rw [← h.count m e' he']
    split <;> rfl
  current := h.current
  key := h.key
  made k' m hm := by
    rw [Table.put, List.length_modify]
    exact h.made k' m hm

variable [DecidableEq κ]

theorem join (h : Counts t users) (k : κ) (init : ε) :
    Counts (t.join k init).2 ((k, (t.join k init).1) ::ₘ users) := by
  unfold Table.join
  split
  · rename_i n hn
    have hmem := (h.current k n).1 hn
    constructor
    · intro m e he
      simp only [List.getElem?_modify, Option.map_eq_map, Option.map_eq_some_iff] at he
      obtain ⟨e', he', rfl⟩ := he
      rw [Multiset.map_cons, Multiset.count_cons, ← h.count m e' he']
      by_cases hm : n = m
      · simp [hm]
      · simp [hm, Ne.symm hm]
    · intro k' m
      rw [Multiset.mem_cons]
      refine ⟨fun hm => .inr ((h.current k' m).1 hm), ?_⟩
      rintro (hm | hm)
      · cases hm
        exact hn
      · exact (h.current k' m).2 hm
    · intro k' k'' m hm hm'
      exact h.key k' k'' m ((Multiset.mem_cons.1 hm).elim (fun he => he ▸ hmem) id)
        ((Multiset.mem_cons.1 hm').elim (fun he => he ▸ hmem) id)
    · intro k' m hm
      rw [List.length_modify]
      exact h.made k' m ((Multiset.mem_cons.1 hm).elim (fun he => he ▸ hmem) id)
  · rename_i hk
    -- No party has the number of the entry that is made.
    have hfresh : ∀ k' m, (k', m) ∈ users → m ≠ t.entries.length := fun k' m hm => (h.made k' m hm).ne
    have hnone : ∀ m, (k, m) ∉ users := fun m hm => by
      rw [(h.current k m).2 hm] at hk
      cases hk
    constructor
    · intro m e he
      rw [Multiset.map_cons, Multiset.count_cons]
      rcases lt_or_ge m t.entries.length with hm | hm
      · rw [List.getElem?_append_left hm] at he
        rw [if_neg hm.ne, h.count m e he, add_zero]
      · rw [List.getElem?_append_right hm, List.getElem?_singleton] at he
        split at he
        · rename_i hsub
          cases he
          have heq : m = t.entries.length := by omega
          have hcount : (users.map Prod.snd).count m = 0 := by
            rw [Multiset.count_eq_zero, Multiset.mem_map]
            rintro ⟨⟨k', m'⟩, hm', rfl⟩
            exact hfresh k' _ hm' heq
          rw [hcount, if_pos heq]
        · cases he
    · intro k' m
      rw [Multiset.mem_cons]
      dsimp only
      by_cases hk' : k' = k
      · subst hk'
        rw [Function.update_self]
        refine ⟨fun hm => .inl (by cases hm; rfl), ?_⟩
        rintro (hm | hm)
        · cases hm
          rfl
        · exact absurd hm (hnone m)
      · rw [Function.update_of_ne hk', h.current]
        exact ⟨.inr, fun hm => hm.resolve_left fun he => hk' (congrArg Prod.fst he)⟩
    · intro k' k'' m hm hm'
      rw [Multiset.mem_cons] at hm hm'
      rcases hm with hm | hm <;> rcases hm' with hm' | hm'
      · cases hm
        cases hm'
        rfl
      · cases hm
        exact absurd rfl (hfresh k'' _ hm')
      · cases hm'
        exact absurd rfl (hfresh k' _ hm)
      · exact h.key k' k'' m hm hm'
    · intro k' m hm
      rw [List.length_append, List.length_singleton]
      rcases Multiset.mem_cons.1 hm with hm | hm
      · cases hm
        exact Nat.lt_succ_self _
      · exact (h.made k' m hm).trans (Nat.lt_succ_self _)

theorem leave (h : Counts t ((k, n) ::ₘ users)) :
    Counts (t.leave k n).2 users ∧ ((t.leave k n).1 = true ↔ ∀ k', (k', n) ∉ users) := by
  obtain ⟨e, he, -⟩ := h.entry (Multiset.mem_cons_self _ _)
  have hcount := h.count n e he
  rw [Multiset.map_cons, Multiset.count_cons_self] at hcount
  have hlast : (t.leave k n).1 = true ↔ ∀ k', (k', n) ∉ users := by
    rw [Table.leave_last he, decide_eq_true_iff, hcount, Nat.add_sub_cancel, Multiset.count_eq_zero, Multiset.mem_map]
    exact ⟨fun hnone k' hk' => hnone ⟨_, hk', rfl⟩, fun hnone ⟨⟨k', _⟩, hk', heq⟩ => hnone k' (heq ▸ hk')⟩
  refine ⟨⟨?_, ?_, ?_, ?_⟩, hlast⟩
  · intro m e' he'
    simp only [Table.leave, List.getElem?_modify, Option.map_eq_map, Option.map_eq_some_iff] at he'
    obtain ⟨e'', he'', rfl⟩ := he'
    have hcount' := h.count m e'' he''
    rw [Multiset.map_cons, Multiset.count_cons] at hcount'
    by_cases hm : n = m
    · subst hm
      simp [hcount']
    · simp [hm, hcount', Ne.symm hm]
  · intro k' m
    have hcurrent : (t.leave k n).2.current = if (t.leave k n).1 then Function.update t.current k none else t.current := rfl
    rw [hcurrent]
    have hall := h.current k' m
    rw [Multiset.mem_cons] at hall
    split
    · rename_i hlast'
      have hnone := hlast.1 hlast'
      by_cases hk' : k' = k
      · subst hk'
        rw [Function.update_self]
        refine ⟨nofun, fun hm => ?_⟩
        have := h.same (Multiset.mem_cons_self _ _) (Multiset.mem_cons_of_mem hm)
        exact absurd (this ▸ hm) (hnone k')
      · rw [Function.update_of_ne hk', hall]
        exact ⟨fun hm => hm.resolve_left fun he => hk' (congrArg Prod.fst he), .inr⟩
    · rename_i hlast'
      rw [hall]
      refine ⟨fun hm => hm.elim (fun heq => ?_) id, .inr⟩
      cases heq
      -- Another party is left at the entry, and it has the same key.
      have hsome : ∃ k'', (k'', n) ∈ users := by
        by_contra hnone
        exact hlast' (hlast.2 fun k'' hk'' => hnone ⟨k'', hk''⟩)
      obtain ⟨k'', hk''⟩ := hsome
      rw [h.key k k'' n (Multiset.mem_cons_self _ _) (Multiset.mem_cons_of_mem hk'')]
      exact hk''
  · exact fun k' k'' m hm hm' => h.key k' k'' m (Multiset.mem_cons_of_mem hm) (Multiset.mem_cons_of_mem hm')
  · intro k' m hm
    simp only [Table.leave, List.length_modify]
    exact h.made k' m (Multiset.mem_cons_of_mem hm)

end Counts

/-! ### What the entries hold -/

namespace Table

variable {κ ε M : Type} [AddCommMonoid M]

/-- What the entries in the table hold together. -/
def weigh (w : ε → M) (t : Table κ ε) : M := total (fun e : Entry ε => if e.users = 0 then 0 else w e.value) t.entries

variable {w : ε → M} {t : Table κ ε} {users : Multiset (κ × Nat)} {k : κ} {n : Nat}

theorem weigh_unused (h : Counts t 0) (w : ε → M) : t.weigh w = 0 := by
  refine total_eq_zero fun e he => ?_
  obtain ⟨n, hn⟩ := List.mem_iff_getElem?.1 he
  rw [if_pos (h.unused.2 n e hn)]

theorem modify_eq_set {α : Type} {l : List α} {n : Nat} {a : α} (h : l[n]? = some a) (f : α → α) :
    l.modify n f = l.set n (f a) := by
  rw [List.modify_eq_set_getElem?, h]
  rfl

theorem value?_eq {e : Entry ε} (h : t.entries[n]? = some e) : t.value? n = some e.value := by
  rw [value?, h]
  rfl

theorem weigh_put (h : Counts t users) (hn : (k, n) ∈ users) {v : ε} (hv : t.value? n = some v) (v' : ε) :
    (t.put n v').weigh w + w v = t.weigh w + w v' := by
  obtain ⟨e, he, hpos⟩ := h.entry hn
  cases (value?_eq he).symm.trans hv
  have hall := total_set (fun e : Entry ε => if e.users = 0 then 0 else w e.value) he { e with value := v' }
  rw [if_neg hpos.ne', if_neg hpos.ne'] at hall
  rw [weigh, put, modify_eq_set he]
  exact hall

theorem le_weigh [PartialOrder M] [CanonicallyOrderedAdd M] (h : Counts t users) (hn : (k, n) ∈ users) {v : ε}
    (hv : t.value? n = some v) : w v ≤ t.weigh w := by
  obtain ⟨e, he, hpos⟩ := h.entry hn
  cases (value?_eq he).symm.trans hv
  have hle := le_total_of_mem (f := fun e : Entry ε => if e.users = 0 then 0 else w e.value) (List.mem_of_getElem? he)
  rwa [if_neg hpos.ne'] at hle

theorem value?_put (hn : n < t.entries.length) (v : ε) (m : Nat) :
    (t.put n v).value? m = if n = m then some v else t.value? m := by
  simp only [value?, put, List.getElem?_modify]
  split
  · rename_i hm
    subst hm
    rw [List.getElem?_eq_getElem hn]
    rfl
  · cases t.entries[m]? <;> rfl

variable [DecidableEq κ]

/-- A new entry holds nothing. -/
theorem weigh_join (h : Counts t users) (k : κ) {init : ε} (hinit : w init = 0) : (t.join k init).2.weigh w = t.weigh w := by
  unfold join
  split
  · rename_i n hn
    obtain ⟨e, he, hpos⟩ := h.entry ((h.current k n).1 hn)
    rw [weigh, modify_eq_set he]
    exact total_set_eq _ he (by simp [hpos.ne'])
  · simp [weigh, hinit]

/-- The last to leave takes out what its entry holds. -/
theorem weigh_leave (h : Counts t ((k, n) ::ₘ users)) {v : ε} (hv : t.value? n = some v) :
    t.weigh w = (t.leave k n).2.weigh w + if (t.leave k n).1 then w v else 0 := by
  obtain ⟨e, he, hpos⟩ := h.entry (Multiset.mem_cons_self _ _)
  cases (value?_eq he).symm.trans hv
  have hentries : (t.leave k n).2.weigh w =
      total (fun e : Entry ε => if e.users = 0 then 0 else w e.value) (t.entries.set n { e with users := e.users - 1 }) := by
    rw [weigh, leave, modify_eq_set he]
  rw [hentries, leave_last he]
  by_cases hone : e.users - 1 = 0
  · have hall := total_set (fun e : Entry ε => if e.users = 0 then 0 else w e.value) he { e with users := e.users - 1 }
    rw [if_neg hpos.ne', if_pos hone, add_zero] at hall
    rw [if_pos (decide_eq_true hone), hall, weigh]
  · rw [total_set_eq _ he (by rw [if_neg hone, if_neg hpos.ne']), if_neg (by simpa using hone), add_zero, weigh]

theorem value?_join (t : Table κ ε) (k : κ) (init : ε) (m : Nat) :
    (t.join k init).2.value? m =
      if t.current k = none ∧ m = t.entries.length then some init else t.value? m := by
  unfold join
  cases t.current k with
  | some n =>
    simp only [value?, List.getElem?_modify, reduceCtorEq, false_and, if_false]
    cases t.entries[m]? with
    | none => rfl
    | some e =>
      simp only [Option.map_some]
      split <;> rfl
  | none =>
    simp only [value?, true_and]
    rcases lt_trichotomy m t.entries.length with hm | hm | hm
    · rw [List.getElem?_append_left hm, if_neg hm.ne]
    · simp [hm]
    · rw [if_neg hm.ne', List.getElem?_eq_none hm.le, List.getElem?_eq_none (by simpa using Nat.succ_le_of_lt hm)]

theorem value?_leave (t : Table κ ε) (k : κ) (n m : Nat) : (t.leave k n).2.value? m = t.value? m := by
  simp only [value?, leave, List.getElem?_modify]
  cases t.entries[m]? with
  | none => rfl
  | some e =>
    simp only [Option.map_some]
    split <;> rfl

end Table

end Effectus.Shared
