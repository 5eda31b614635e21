import Effectus.Theorems.Outbox.Records
import Effectus.Theorems.Outbox.Serial

/-! No uncertainty is masked. A dispatch that ended for good, or was canceled, has only attempts that are
    known not to have committed behind it; so a saga that undoes its effects does not leave one behind that
    may have been made. -/

namespace Effectus

/-- The store reads its clock for a completion that names no time; the reading is not the zero time. -/
def Op.ClockSet : Op → Prop
  | .completeDispatch _ readAt _ completion => completion.now = 0 → readAt ≠ 0
  | _ => True

namespace Store

open Protocol (Effect)

variable {s t : Store}

/-! ### Completion times -/

/-- A recorded outcome has its time. -/
def Stamped (s : Store) : Prop := ∀ id, ∀ a ∈ s.attempts id, a.outcome = .unset ∨ a.completedAt ≠ 0

theorem stamped_now {completion : Completion} {readAt : Time} (h : completion.now = 0 → readAt ≠ 0) :
    (stamped completion readAt).now ≠ 0 := by
  unfold stamped
  dsimp only
  split
  · exact h ‹_›
  · assumption

section

variable [Platform]

theorem Stamped.after (h : Stamped s) {op : Op} (hop : op.ClockSet) : Stamped (s.after op) := by
  intro id a ha
  have hrec := after_records s op id
  generalize (s.after op).attempts id = as at hrec ha
  cases hrec with
  | same => exact h id a ha
  | started =>
    rcases List.mem_append.1 ha with ha | ha
    · exact h id a ha
    · rw [List.mem_singleton.1 ha]
      exact .inl rfl
  | granted =>
    rcases mem_modifyLast ha with ha | ⟨b, hb, rfl⟩
    · exact h id a ha
    · exact h id b hb
  | completed hcall =>
    rcases mem_modifyLast ha with ha | ⟨b, hb, rfl⟩
    · exact h id a ha
    · rw [hcall] at hop
      exact .inr (stamped_now hop)

theorem run_stamped {ops : List Op} (h : ∀ op ∈ ops, op.ClockSet) (hs : Stamped s) : Stamped (s.run ops) := by
  induction ops generalizing s with
  | nil => exact hs
  | cons op ops ih =>
    exact ih (fun x hx => h x (List.mem_cons_of_mem _ hx)) (hs.after (h op (List.mem_cons_self ..)))

/-- Once a saga undoes its effects, a forward dispatch that did not succeed failed at every attempt. -/
theorem failed_of_undoing (hs : Shape s) (h : Sound s) (hh : Histories s) {saga : SagaInstance} {d : Dispatch}
    (hsaga : saga ∈ s.sagas) (hundoes : saga.state = .compensating ∨ saga.state = .compensated)
    (hd : d ∈ s.forwardsOf saga.sagaID) (hne : d.state ≠ .succeeded) :
    ∀ a ∈ s.attempts d.id, a.outcome = .permanentFailure ∨ a.outcome = .retryableKnownNotCommitted := by
  have hm := List.mem_filter.1 hd
  obtain ⟨hid, hdir⟩ : d.sagaID = saga.sagaID ∧ d.direction = .forward := by simpa using hm.2
  obtain ⟨x, hx, hk⟩ := hs.step_of_dispatch hm.1
  have hof := hs.dispatchOf?_of_mem hm.1 hk
  rw [hdir] at hof
  have hforward : (s.effect x).forward = jobOf d := by simp [effect, hof]
  have heach := (h.inv _ _ (view_eq (hs.sagas.get?_of_mem hsaga))).each _
    (mem_effects.2 ⟨x, hx, (Prod.mk.inj hk).1.trans hid, rfl⟩)
  have hhist := hh.each d hm.1
  rcases heach.settled hundoes with hdone | hfailed | ⟨hzero, -⟩
  · rw [Effect.Done, hforward] at hdone
    exact absurd hdone hne
  · rw [hforward] at hfailed
    obtain ⟨prior, last, has, hprior, hlast⟩ := hhist.failed hfailed
    intro a ha
    rw [has] at ha
    rcases List.mem_append.1 ha with ha | ha
    · exact .inr (hprior a ha).2
    · rw [List.mem_singleton.1 ha]
      exact hlast
  · rw [hforward] at hzero
    have hnil : s.attempts d.id = [] := List.eq_nil_of_length_eq_zero (hhist.length_eq.trans hzero)
    simp [hnil]

/-- In every reachable store: a dispatch that failed or was fenced has one record for each of its attempts, and
    those before the last are known not to have committed; so are all records of a canceled dispatch; and once a
    saga undoes its effects, no forward dispatch that did not succeed has an attempt whose outcome is unknown or
    not recorded. -/
theorem run_uncertainty (ops : List Op) (hrun : empty.run ops = s) :
    (∀ d ∈ s.dispatches, d.state = .failedPermanent ∨ d.state = .blockedFence →
        (s.attempts d.id).map (·.attempt) = List.range' 1 d.attempt ∧
          ∀ a ∈ (s.attempts d.id).dropLast, a.completedAt ≠ 0 ∧ a.outcome = .retryableKnownNotCommitted) ∧
      (∀ d ∈ s.dispatches, d.state = .canceled →
        ∀ a ∈ s.attempts d.id, a.completedAt ≠ 0 ∧ a.outcome = .retryableKnownNotCommitted) ∧
      ∀ saga ∈ s.sagas, saga.state = .compensating ∨ saga.state = .compensated →
        ∀ d ∈ s.forwardsOf saga.sagaID, d.state ≠ .succeeded →
          ∀ a ∈ s.attempts d.id, a.outcome ≠ .unknown ∧ a.outcome ≠ .unset ∧
            ((∀ op ∈ ops, op.ClockSet) → a.completedAt ≠ 0) := by
  have hs : Shape s := hrun ▸ run_shape ops
  have h : Sound s := hrun ▸ run_sound ops
  have hh : Histories s := hrun ▸ run_histories ops
  refine ⟨fun d hd hstate => ?_, fun d hd hc => (hh.each d hd).canceled hc, fun saga hsaga hundoes d hd hne a ha => ?_⟩
  · refine ⟨(hh.each d hd).numbers, ?_⟩
    obtain ⟨prior, last, has, hprior⟩ : ∃ prior last, s.attempts d.id = prior ++ [last] ∧ ∀ a ∈ prior, NotCommitted a := by
      rcases hstate with hf | hf
      · obtain ⟨prior, last, has, hprior, -⟩ := (hh.each d hd).failed hf
        exact ⟨prior, last, has, hprior⟩
      · obtain ⟨prior, last, has, hprior, -⟩ := (hh.each d hd).fenced hf
        exact ⟨prior, last, has, hprior⟩
    rw [has, List.dropLast_concat]
    exact hprior
  · have hout := failed_of_undoing hs h hh hsaga hundoes hd hne a ha
    refine ⟨?_, ?_, fun hclock => ?_⟩
    · rcases hout with ho | ho <;> simp [ho]
    · rcases hout with ho | ho <;> simp [ho]
    · have hstamped : Stamped s := hrun ▸ run_stamped hclock fun _ _ ha => by cases ha
      refine (hstamped d.id a ha).resolve_left ?_
      rcases hout with ho | ho <;> simp [ho]

end

section

attribute [local instance] reference

theorem run_uncertainty_sample : ∃ saga ∈ (empty.run sample).sagas, saga.state = .compensating ∧
    ∃ d ∈ (empty.run sample).forwardsOf saga.sagaID, d.state = .failedPermanent ∧ (empty.run sample).attempts d.id ≠ [] ∧
      ∀ a ∈ (empty.run sample).attempts d.id, a.outcome ≠ .unknown ∧ a.outcome ≠ .unset ∧ a.completedAt ≠ 0 := by
  have hsaga : ∃ saga ∈ (empty.run sample).sagas, saga.state = .compensating ∧
      ∃ d ∈ (empty.run sample).forwardsOf saga.sagaID, d.state = .failedPermanent ∧
        (empty.run sample).attempts d.id ≠ [] := by decide +kernel
  have hclock : ∀ op ∈ sample, op.ClockSet := by
    intro op hop
    simp only [sample, sampleStart, sampleClaim, List.cons_append, List.nil_append, List.mem_cons, List.not_mem_nil,
      or_false] at hop
    rcases hop with rfl | rfl | rfl | rfl | rfl | rfl | rfl <;> simp [Op.ClockSet]
  obtain ⟨saga, hmem, hc, d, hd, hfailed, hne⟩ := hsaga
  refine ⟨saga, hmem, hc, d, hd, hfailed, hne, fun a ha => ?_⟩
  have h := (run_uncertainty sample rfl).2.2 saga hmem (.inl hc) d hd (by simp [hfailed]) a ha
  exact ⟨h.1, h.2.1, h.2.2 hclock⟩

end

end Store
end Effectus
