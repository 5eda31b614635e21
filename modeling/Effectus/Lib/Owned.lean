import Mathlib.Data.List.Perm.Basic
import Mathlib.Data.List.Nodup
import Mathlib.Data.List.Perm.Lattice

/-!
Resources that are acquired one after another, and released in reverse order where a later step fails. A step gets a resource
from outside, which it keeps, or rejects and releases. As long as no resource is given out twice, each that was given out is
either held, in the order of acquisition, or has been released once.
-/

namespace Effectus

namespace Owned

variable {ρ ε α : Type}

/-- What was given out so far, with whether it was kept, and what was released. -/
structure Trace (ρ : Type) where
  calls : Nat
  returned : List (ρ × Bool)
  released : List ρ

namespace Trace

def all (t : Trace ρ) : List ρ := t.returned.map Prod.fst

def kept (t : Trace ρ) : List ρ := (t.returned.filter (·.2)).map Prod.fst

def rejected (t : Trace ρ) : List ρ := (t.returned.filter (!·.2)).map Prod.fst

/-- A call that may give out a resource. -/
def called (t : Trace ρ) (resource : Option ρ) (isKept : Bool) : Trace ρ :=
  { t with calls := t.calls + 1, returned := t.returned ++ resource.toList.map (·, isKept) }

def release (t : Trace ρ) (resource : ρ) : Trace ρ := { t with released := t.released ++ [resource] }

def releaseAll (t : Trace ρ) (held : List ρ) : Trace ρ := held.reverse.foldl release t

theorem foldl_release (t : Trace ρ) (rs : List ρ) :
    rs.foldl release t = { t with released := t.released ++ rs } := by
  induction rs generalizing t with
  | nil => rw [List.append_nil]; rfl
  | cons r rs ih => rw [List.foldl_cons, ih, release, List.append_assoc]; rfl

theorem releaseAll_eq (t : Trace ρ) (held : List ρ) :
    t.releaseAll held = { t with released := t.released ++ held.reverse } := foldl_release t held.reverse

end Trace

/-- The steps over a list, each of which may acquire a resource; what was acquired is released when one fails. -/
def acquireEach (step : α → Trace ρ → Except ε (Option ρ) × Trace ρ) :
    List α → List ρ → Trace ρ → Except ε (List ρ) × Trace ρ
  | [], held, t => (.ok held, t)
  | a :: rest, held, t =>
    match step a t with
    | (.error err, t) => (.error err, t.releaseAll held)
    | (.ok resource, t) => acquireEach step rest (held ++ resource.toList) t

/-! ### One step -/

/-- What a step may do. A resource comes from the call it was given out by. -/
inductive Acquires (source : Nat → ρ → Prop) (t : Trace ρ) : Except ε (Option ρ) → Trace ρ → Prop
  | idle {result : Except ε (Option ρ)} (h : ∀ r, result ≠ .ok (some r)) : Acquires source t result t
  | none {result : Except ε (Option ρ)} (h : ∀ r, result ≠ .ok (some r)) (isKept : Bool) :
    Acquires source t result (t.called none isKept)
  | kept {r : ρ} (h : source t.calls r) : Acquires source t (.ok (some r)) (t.called (some r) true)
  | rejected {r : ρ} (h : source t.calls r) (err : ε) :
    Acquires source t (.error err) ((t.called (some r) false).release r)

/-- What is held is what was kept, and all else was released. -/
structure Held (source : Nat → ρ → Prop) (t : Trace ρ) (held : List ρ) : Prop where
  kept : t.kept = held
  released : t.released = t.rejected
  origins : ∀ r ∈ t.all, ∃ n < t.calls, source n r
  nodup : t.all.Nodup

/-- Everything was released once, what was kept in reverse order. -/
structure Settled [DecidableEq ρ] (t : Trace ρ) : Prop where
  once : t.released.Perm t.all
  nodup : t.released.Nodup
  order : (t.released.filter fun r => decide (r ∈ t.kept)) = t.kept.reverse

section

variable {source : Nat → ρ → Prop} {t t' : Trace ρ} {held : List ρ}

theorem held_start (source : Nat → ρ → Prop) : Held source ⟨0, [], []⟩ ([] : List ρ) :=
  ⟨rfl, rfl, nofun, List.nodup_nil⟩

theorem Held.without (h : Held source t held) (isKept : Bool) : Held source (t.called none isKept) held where
  kept := by simpa [Trace.kept, Trace.called] using h.kept
  released := by simpa [Trace.rejected, Trace.called] using h.released
  origins := by
    intro r hr
    obtain ⟨n, hn, hsource⟩ := h.origins r (by simpa [Trace.all, Trace.called] using hr)
    exact ⟨n, Nat.lt_succ_of_lt hn, hsource⟩
  nodup := by simpa [Trace.all, Trace.called] using h.nodup

/-- A resource that a call gives out is none of those before. -/
theorem Held.fresh (h : Held source t held) (hdistinct : ∀ m n r, source m r → source n r → m = n) {r : ρ}
    (hr : source t.calls r) (isKept : Bool) : (t.called (some r) isKept).all.Nodup ∧
      ∀ r' ∈ (t.called (some r) isKept).all, ∃ n < t.calls + 1, source n r' := by
  have hall : (t.called (some r) isKept).all = t.all ++ [r] := by simp [Trace.all, Trace.called]
  rw [hall]
  constructor
  · refine List.nodup_append.2 ⟨h.nodup, List.nodup_singleton r, fun a ha b hb => ?_⟩
    rintro rfl
    obtain ⟨n, hn, hsource⟩ := h.origins a ha
    have := hdistinct _ _ _ hsource (List.mem_singleton.1 hb ▸ hr)
    omega
  · intro r' hr'
    rcases List.mem_append.1 hr' with hr' | hr'
    · obtain ⟨n, hn, hsource⟩ := h.origins r' hr'
      exact ⟨n, Nat.lt_succ_of_lt hn, hsource⟩
    · exact ⟨t.calls, Nat.lt_succ_self _, List.mem_singleton.1 hr' ▸ hr⟩

/-- A step that succeeds holds what it acquired besides. -/
theorem Held.acquired (h : Held source t held) (hdistinct : ∀ m n r, source m r → source n r → m = n)
    {resource : Option ρ} (hstep : Acquires source t (.ok resource : Except ε (Option ρ)) t') :
    Held source t' (held ++ resource.toList) := by
  cases hstep with
  | idle hnone =>
    cases resource with
    | none => simpa using h
    | some r => exact absurd rfl (hnone r)
  | none hnone isKept =>
    cases resource with
    | none => simpa using h.without isKept
    | some r => exact absurd rfl (hnone r)
  | @kept r hr =>
    obtain ⟨hnodup, horigins⟩ := h.fresh hdistinct hr true
    refine ⟨?_, ?_, horigins, hnodup⟩
    · simp [Trace.kept, Trace.called, ← h.kept]
    · simpa [Trace.rejected, Trace.called] using h.released

/-- A step that fails holds what was held. -/
theorem Held.failed (h : Held source t held) (hdistinct : ∀ m n r, source m r → source n r → m = n) {err : ε}
    (hstep : Acquires source t (.error err : Except ε (Option ρ)) t') : Held source t' held := by
  cases hstep with
  | idle => exact h
  | none _ isKept => exact h.without isKept
  | @rejected r hr =>
    obtain ⟨hnodup, horigins⟩ := h.fresh hdistinct hr false
    refine ⟨?_, ?_, horigins, hnodup⟩
    · simpa [Trace.kept, Trace.called, Trace.release] using h.kept
    · simpa [Trace.rejected, Trace.called, Trace.release] using h.released

theorem Trace.perm_all (t : Trace ρ) : (t.kept ++ t.rejected).Perm t.all := by
  have hperm := (List.filter_append_perm (fun x : ρ × Bool => x.2) t.returned).map Prod.fst
  rwa [List.map_append] at hperm

/-- Once what is held is released, everything is. -/
theorem Held.settled [DecidableEq ρ] (h : Held source t held) : Settled (t.releaseAll held) := by
  have hreleased : (t.releaseAll held).released = t.rejected ++ t.kept.reverse := by
    rw [Trace.releaseAll_eq, ← h.kept, ← h.released]
  have hperm : (t.rejected ++ t.kept.reverse).Perm t.all :=
    ((t.kept.reverse_perm.append_left _).trans List.perm_append_comm).trans t.perm_all
  have hreturned : (t.releaseAll held).returned = t.returned := by rw [Trace.releaseAll_eq]
  have hkept : (t.releaseAll held).kept = t.kept := by rw [Trace.kept, hreturned, ← Trace.kept]
  have hdisjoint := List.nodup_append.1 (t.perm_all.nodup_iff.2 h.nodup)
  refine ⟨?_, ?_, ?_⟩
  · rw [hreleased, Trace.all, hreturned]
    exact hperm
  · rw [hreleased]
    exact hperm.nodup_iff.2 h.nodup
  · rw [hreleased, hkept, List.filter_append, List.filter_eq_nil_iff.2, List.nil_append, List.filter_eq_self.2]
    · simp
    · intro r hr hm
      exact hdisjoint.2.2 r (of_decide_eq_true hm) r hr rfl

theorem Acquires.rejected_eq {resource : Option ρ} (h : Acquires source t (.ok resource : Except ε (Option ρ)) t') :
    t'.rejected = t.rejected := by
  cases h with
  | idle => rfl
  | none | kept => simp [Trace.rejected, Trace.called]

/-- The steps over a list: all succeed and everything acquired is held, or one fails and everything is released. -/
theorem Held.acquireEach [DecidableEq ρ] (hdistinct : ∀ m n r, source m r → source n r → m = n)
    {step : α → Trace ρ → Except ε (Option ρ) × Trace ρ} (hstep : ∀ a t, Acquires source t (step a t).1 (step a t).2) :
    ∀ {xs : List α} {held : List ρ} {t : Trace ρ}, Held source t held → t.rejected = [] →
      match Owned.acquireEach step xs held t with
      | (.ok out, t') => Held source t' out ∧ t'.rejected = []
      | (.error _, t') => Settled t'
  | [], _, _, h, hclean => ⟨h, hclean⟩
  | a :: rest, held, t, h, hclean => by
    have ha := hstep a t
    rw [Owned.acquireEach]
    generalize step a t = out at ha
    obtain ⟨result, t'⟩ := out
    cases result with
    | error err => exact (h.failed hdistinct ha).settled
    | ok resource => exact Held.acquireEach hdistinct hstep (h.acquired hdistinct ha) (ha.rejected_eq.trans hclean)

theorem acquireEach_start [DecidableEq ρ] (hdistinct : ∀ m n r, source m r → source n r → m = n)
    {step : α → Trace ρ → Except ε (Option ρ) × Trace ρ} (hstep : ∀ a t, Acquires source t (step a t).1 (step a t).2)
    (xs : List α) :
    match Owned.acquireEach step xs [] ⟨0, [], []⟩ with
    | (.ok out, t) => Held source t out ∧ t.rejected = []
    | (.error _, t) => Settled t :=
  Held.acquireEach hdistinct hstep (held_start source) rfl

/-- Where nothing was rejected, nothing was released, and everything is held in the order it was given out. -/
theorem Held.clean (h : Held source t held) (hclean : t.rejected = []) : t.released = [] ∧ held = t.all := by
  refine ⟨h.released.trans hclean, ?_⟩
  have hkept : ∀ x ∈ t.returned, x.2 = true := by
    intro x hx
    by_contra hno
    have hm : x.1 ∈ t.rejected := List.mem_map_of_mem (List.mem_filter.2 ⟨hx, by simpa using hno⟩)
    rw [hclean] at hm
    cases hm
  rw [← h.kept, Trace.kept, List.filter_eq_self.2 hkept, Trace.all]

end

end Owned

end Effectus
