import Effectus.Lib.Keyed

/-!
Loops over a finite map in an order the program does not choose. Each turn looks a key up, rewrites the
record under it in place and moves the loop's own state on; the keys come in any order, each of them
once.
-/

namespace Effectus.Keyed

section

variable {α β κ : Type} [DecidableEq κ] (key : α → κ) (body : β → α → β × α)

/-- One turn of the loop, at the key `k`. -/
def turn (p : β × List α) (k : κ) : β × List α :=
  match get? key p.2 k with
  | none => p
  | some x => ((body p.1 x).1, modify key p.2 k fun _ => (body p.1 x).2)

/-- The loop over the keys `ks`, from the state `b`. -/
def range (ks : List κ) (b : β) (xs : List α) : β × List α := ks.foldl (turn key body) (b, xs)

/-- The records under the keys `ks` rewritten, the others as they were. -/
def rewritten (f : α → α) (ks : List κ) (xs : List α) : List α := xs.map fun x => if key x ∈ ks then f x else x

end

section

variable {α β κ : Type} [DecidableEq κ] {key : α → κ} {body : β → α → β × α} {xs : List α} {f : α → α}
variable {ks : List κ} {k : κ} {x : α}

theorem rewritten_key (hf : ∀ x ∈ xs, key (f x) = key x) :
    ∀ x ∈ xs, key (if key x ∈ ks then f x else x) = key x := by
  intro x hx
  split
  · exact hf x hx
  · rfl

theorem get?_rewritten (hf : ∀ x ∈ xs, key (f x) = key x) (hk : k ∉ ks) (hx : get? key xs k = some x) :
    get? key (rewritten key f ks xs) k = some x := by
  have hne : key x ∉ ks := key_of_get? hx ▸ hk
  rw [rewritten, get?_map (rewritten_key hf), hx, Option.map_some, if_neg hne]

theorem modify_rewritten (hu : Unique key xs) (hf : ∀ x ∈ xs, key (f x) = key x) (hx : get? key xs k = some x) :
    modify key (rewritten key f ks xs) k (fun _ => f x) = rewritten key f (ks ++ [k]) xs := by
  rw [modify, rewritten, rewritten, List.map_map]
  refine List.map_congr_left fun y hy => ?_
  simp only [Function.comp_apply, rewritten_key hf y hy, List.mem_append, List.mem_singleton]
  by_cases hyk : key y = k
  · obtain rfl : y = x := hu.eq_of_key hy (mem_of_get? hx) (hyk.trans (key_of_get? hx).symm)
    simp [hyk]
  · simp [hyk]

theorem rewritten_of_perm (hk : ks.Perm (xs.map key)) : rewritten key f ks xs = xs.map f := by
  refine List.map_congr_left fun x hx => if_pos ?_
  exact hk.mem_iff.2 (List.mem_map_of_mem hx)

/-- The rule for such a loop: if after the keys `js` its state is `F js`, and a turn at a key not seen yet
rewrites the record as `f` does, then the loop ends in `F ks` with every record rewritten. -/
theorem range_eq {F : List κ → β} (hu : Unique key xs) (hf : ∀ x ∈ xs, key (f x) = key x)
    (hk : ks.Perm (xs.map key))
    (step : ∀ js k x, get? key xs k = some x → k ∉ js → body (F js) x = (F (js ++ [k]), f x)) :
    range key body ks (F []) xs = (F ks, xs.map f) := by
  -- The keys seen so far are `js`; those still to come are found, and seen once.
  have main : ∀ (ls js : List κ), (js ++ ls).Nodup → (∀ k ∈ ls, k ∈ xs.map key) →
      ls.foldl (turn key body) (F js, rewritten key f js xs) = (F (js ++ ls), rewritten key f (js ++ ls) xs) := by
    intro ls
    induction ls with
    | nil =>
      intro js _ _
      simp
    | cons k ls ih =>
      intro js hn hm
      obtain ⟨x, hx, rfl⟩ := List.mem_map.1 (hm k (List.mem_cons_self ..))
      have hget := hu.get?_of_mem hx
      have hjs : key x ∉ js := fun h =>
        List.disjoint_of_nodup_append hn h (List.mem_cons_self ..)
      have hturn : turn key body (F js, rewritten key f js xs) (key x) =
          (F (js ++ [key x]), rewritten key f (js ++ [key x]) xs) := by
        simp only [turn, get?_rewritten hf hjs hget, step js _ x hget hjs, modify_rewritten hu hf hget]
      have hn' : ((js ++ [key x]) ++ ls).Nodup := by simpa using hn
      rw [List.foldl_cons, hturn, ih _ hn' fun k hk => hm k (List.mem_cons_of_mem _ hk)]
      simp
  have hnil : rewritten key f [] xs = xs := by simp [rewritten]
  have hrun := main ks [] (hk.nodup_iff.2 hu) fun k h => hk.mem_iff.1 h
  rw [hnil, List.nil_append, rewritten_of_perm hk] at hrun
  exact hrun

/-- The records a walk over all keys meets are those of the map. -/
theorem perm_filterMap_get? (hu : Unique key xs) (hk : ks.Perm (xs.map key)) :
    (ks.filterMap (get? key xs)).Perm xs := by
  have hself : (xs.map key).filterMap (get? key xs) = xs := by
    rw [List.filterMap_map]
    have : ∀ x ∈ xs, (get? key xs ∘ key) x = some x := fun x hx => hu.get?_of_mem hx
    rw [List.filterMap_congr this, List.filterMap_some]
  exact (hk.filterMap _).trans (.of_eq hself)

/-- A loop whose rewriting does not read its state: the state is folded over the records as they were. -/
theorem range_fold {g : β → α → β} (hu : Unique key xs) (hf : ∀ x ∈ xs, key (f x) = key x)
    (hk : ks.Perm (xs.map key)) (hbody : ∀ b x, body b x = (g b x, f x)) (b : β) :
    range key body ks b xs = ((ks.filterMap (get? key xs)).foldl g b, xs.map f) := by
  refine range_eq (F := fun js => (js.filterMap (get? key xs)).foldl g b) hu hf hk fun js k x hx _ => ?_
  simp [hbody, List.filterMap_append, hx]

end

end Effectus.Keyed
