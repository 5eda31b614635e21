import Effectus.Theorems.Outbox.Moves

/-! The records of a dispatch's attempts, by the state the dispatch is in. An attempt that was followed by
    another was never completed, or its outcome allowed a retry; a dispatch that ended for good has only
    attempts before the last that are known not to have committed. -/

namespace Effectus
namespace Store

variable {s t : Store}

/-- Completed, and known not to have committed. -/
def NotCommitted (a : DispatchAttempt) : Prop := a.completedAt ≠ 0 ∧ a.outcome = .retryableKnownNotCommitted

/-- Never completed. -/
def Open (a : DispatchAttempt) : Prop := a.outcome = .unset ∧ a.completedAt = 0

/-- An attempt another one may follow. -/
def Retried (a : DispatchAttempt) : Prop :=
  Open a ∨ a.outcome = .retryableKnownNotCommitted ∨ a.outcome = .unknown

structure History (d : Dispatch) (as : List DispatchAttempt) : Prop where
  numbers : as.map (·.attempt) = List.range' 1 d.attempt
  owner : ∀ a ∈ as, a.dispatchID = d.id
  queued : d.state = .queued → d.attempt = 0
  lease : d.state = .inFlight → ∃ prior last, as = prior ++ [last] ∧ Open last ∧ last.leaseToken = d.leaseToken ∧
    ∀ a ∈ prior, Retried a
  retry : d.state = .retryWait → ∀ a ∈ as, Retried a
  failed : d.state = .failedPermanent → ∃ prior last, as = prior ++ [last] ∧ (∀ a ∈ prior, NotCommitted a) ∧
    (last.outcome = .permanentFailure ∨ last.outcome = .retryableKnownNotCommitted)
  fenced : d.state = .blockedFence → ∃ prior last, as = prior ++ [last] ∧ (∀ a ∈ prior, NotCommitted a) ∧
    last.outcome = .staleFence
  canceled : d.state = .canceled → ∀ a ∈ as, NotCommitted a

namespace History

variable {d d' : Dispatch} {as as' : List DispatchAttempt}

theorem length_eq (h : History d as) : as.length = d.attempt := by
  have := congrArg List.length h.numbers
  simpa using this

/-- The last attempt is the current one, and the others come before. -/
theorem last_attempt (hh : History d as) {prior : List DispatchAttempt}
    {last : DispatchAttempt} (has : as = prior ++ [last]) :
    last.attempt = d.attempt ∧ ∀ a ∈ prior, a.attempt < d.attempt := by
  have hlen : prior.length + 1 = d.attempt := by
    have := hh.length_eq
    rwa [has, List.length_append, List.length_singleton] at this
  have hnum := hh.numbers
  rw [has, ← hlen, List.map_append, List.range'_concat] at hnum
  obtain ⟨hprior, hlast⟩ := List.append_inj hnum (by simp)
  have hlast : last.attempt = 1 + 1 * prior.length := by simpa using hlast
  refine ⟨by omega, fun a ha => ?_⟩
  have hmem : a.attempt ∈ List.range' 1 prior.length := hprior ▸ List.mem_map_of_mem ha
  rw [List.mem_range'_1] at hmem
  omega

theorem modifyLast_concat {α : Type} (f : α → α) (xs : List α) (x : α) : modifyLast f (xs ++ [x]) = xs ++ [f x] := by
  simp [modifyLast]

/-- The attempts before the last, when the store found them known not to have committed. -/
theorem notCommitted_of_prior {prior : List DispatchAttempt} {last : DispatchAttempt} {n : Nat}
    (h : priorAttemptsKnownNotCommitted (prior ++ [last]) n = true) : ∀ a ∈ prior, NotCommitted a := by
  simp only [priorAttemptsKnownNotCommitted, Bool.and_eq_true, decide_eq_true_eq, List.length_append,
    List.length_singleton, List.all_eq_true, Bool.or_eq_true] at h
  obtain ⟨hlen, hall⟩ := h
  intro a ha
  obtain ⟨i, hi, rfl⟩ := List.getElem_of_mem ha
  have hmem : (prior[i], i) ∈ (prior ++ [last]).zipIdx := by
    rw [List.mem_zipIdx_iff_getElem?]
    simp [List.getElem?_append_left hi]
  obtain ⟨hnum, hor⟩ := hall _ hmem
  -- The record's number is below the current attempt's, so it is not the current one.
  rcases hor with hcur | hdone
  · simp only at hnum hcur
    omega
  · exact hdone

theorem fresh (hf : Fresh d) : History d [] where
  numbers := by simp [hf.2]
  owner := by simp
  queued := fun _ => hf.2
  lease := by simp [hf.1]
  retry := by simp
  failed := by simp [hf.1]
  fenced := by simp [hf.1]
  canceled := by simp

theorem retried_of_waiting (h : History d as)
    (hw : d.state = .queued ∨ d.state = .retryWait ∨ d.state = .inFlight) : ∀ a ∈ as, Retried a := by
  rcases hw with hw | hw | hw
  · have hnil : as = [] := List.eq_nil_of_length_eq_zero (h.length_eq.trans (h.queued hw))
    simp [hnil]
  · exact h.retry hw
  · obtain ⟨prior, last, rfl, hopen, -, hprior⟩ := h.lease hw
    intro a ha
    rcases List.mem_append.1 ha with ha | ha
    · exact hprior a ha
    · rw [List.mem_singleton.1 ha]
      exact .inl hopen

theorem move (h : History d as) (hm : Move d as d' as') : History d' as' := by
  cases hm with
  | same => exact h
  | claim waiting =>
    refine ⟨?_, ?_, by simp [leased], fun _ => ⟨as, _, rfl, ⟨rfl, rfl⟩, rfl, h.retried_of_waiting waiting⟩,
      by simp [leased], by simp [leased], by simp [leased], by simp [leased]⟩
    · rw [List.map_append, h.numbers]
      simp [newAttempt, leased, List.range'_concat, Nat.add_comm]
    · intro a ha
      rcases List.mem_append.1 ha with ha | ha
      · exact h.owner a ha
      · rw [List.mem_singleton.1 ha]
        rfl
  | grant inFlight =>
    obtain ⟨prior, last, rfl, hopen, htok, hprior⟩ := h.lease inFlight
    rw [modifyLast_concat]
    refine ⟨?_, ?_, by simp [inFlight], fun _ => ⟨prior, _, rfl, hopen, htok, hprior⟩, by simp [inFlight],
      by simp [inFlight], by simp [inFlight], by simp [inFlight]⟩
    · have := h.numbers
      simpa using this
    · have := h.owner
      simpa [or_imp, forall_and] using this
  | @complete c state inFlight settles =>
    obtain ⟨prior, last, rfl, hopen, htok, hprior⟩ := h.lease inFlight
    rw [modifyLast_concat]
    refine ⟨?_, ?_, fun hq => absurd hq settles.ended.1, fun hq => absurd hq settles.ended.2.1, ?_, ?_, ?_,
      fun hq => absurd hq settles.ended.2.2⟩
    · have := h.numbers
      simpa [completedAttempt, completedDispatch] using this
    · have := h.owner
      simpa [or_imp, forall_and, completedAttempt, completedDispatch] using this
    · intro hr a ha
      rcases List.mem_append.1 ha with ha | ha
      · exact hprior a ha
      · rw [List.mem_singleton.1 ha]
        exact .inr (settles.retry hr)
    · intro hf
      obtain ⟨hout, hk⟩ := settles.failed hf
      exact ⟨prior, _, rfl, notCommitted_of_prior hk, hout⟩
    · intro hf
      obtain ⟨hout, hk⟩ := settles.fenced hf
      exact ⟨prior, _, rfl, notCommitted_of_prior hk, hout⟩
  | @cancel now reason idle =>
    refine ⟨h.numbers, h.owner, by simp [cancelDispatch], by simp [cancelDispatch], by simp [cancelDispatch],
      by simp [cancelDispatch], by simp [cancelDispatch], fun _ => ?_⟩
    rcases idle with hq | ⟨hr, hcertain⟩
    · have hnil : as = [] := List.eq_nil_of_length_eq_zero (h.length_eq.trans (h.queued hq))
      simp [hnil]
    · intro a ha
      obtain ⟨hne, hdone⟩ := hcertain.2 a ha
      rcases h.retry hr a ha with hopen | hout | hout
      · exact absurd hopen.2 hdone
      · exact ⟨hdone, hout⟩
      · exact absurd hout hne
  | expire inFlight =>
    exact ⟨h.numbers, h.owner, by simp [blockExpiredDispatch], by simp [blockExpiredDispatch],
      by simp [blockExpiredDispatch], by simp [blockExpiredDispatch], by simp [blockExpiredDispatch],
      by simp [blockExpiredDispatch]⟩
  | blockRetry retry =>
    exact ⟨h.numbers, h.owner, by simp [blockUnknownRetryDispatch], by simp [blockUnknownRetryDispatch],
      by simp [blockUnknownRetryDispatch], by simp [blockUnknownRetryDispatch], by simp [blockUnknownRetryDispatch],
      by simp [blockUnknownRetryDispatch]⟩

end History

/-! ### Whole stores -/

/-- Every dispatch has the records its state calls for, and no others have any. -/
structure Histories (s : Store) : Prop where
  each : ∀ d ∈ s.dispatches, History d (s.attempts d.id)
  none : ∀ id, s.dispatch? id = none → s.attempts id = []

theorem histories_empty : Histories empty := ⟨by simp [empty], fun _ _ => rfl⟩

theorem Histories.moves (h : Histories s) (hm : Moves s t) : Histories t := by
  obtain ⟨f, new, hd, hmove, hnew, hrest⟩ := hm
  refine ⟨fun d' hd' => ?_, fun id hn => ?_⟩
  · rw [hd] at hd'
    rcases List.mem_append.1 hd' with hd' | hd'
    · obtain ⟨d, hm, rfl⟩ := List.mem_map.1 hd'
      have := hmove d hm
      rw [this.id]
      exact (h.each d hm).move this
    · obtain ⟨hf, hnone⟩ := hnew d' hd'
      rw [hrest _ hnone, h.none _ hnone]
      exact .fresh hf
  · have hnone : s.dispatch? id = Option.none := by
      refine Keyed.get?_eq_none.2 fun d hm he => ?_
      refine Keyed.get?_eq_none.1 hn (f d) ?_ ((hmove d hm).id.trans he)
      rw [hd]
      exact List.mem_append_left _ (List.mem_map.2 ⟨d, hm, rfl⟩)
    rw [hrest _ hnone, h.none _ hnone]

section

variable [Platform]

theorem run_histories (ops : List Op) : Histories (empty.run ops) :=
  (run_keeps (P := Histories) (fun hs hp h => hp.moves (h.moves hs)) shape_empty histories_empty ops).2

end

end Store
end Effectus
