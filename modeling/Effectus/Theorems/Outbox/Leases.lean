import Effectus.Theorems.Outbox.Compensation
import Effectus.Theorems.Outbox.Records

/-! Leases fence. The records of a dispatch's attempts are the leases given out on it, in order; only the
    holder of the last lease completes the dispatch, once, and what is recorded then stays. -/

namespace Effectus
namespace Store

variable {s t : Store}

/-! ### Records are leases -/

/-- A record's number and token. -/
def leaseOf (a : DispatchAttempt) : Nat × Text := (a.attempt, a.leaseToken)

/-- The leases on one dispatch. -/
def leasesOn (id : Text) (ls : List Dispatch) : List Dispatch := ls.filter fun l => decide (l.id = id)

theorem modifyLast_map {α β : Type} {f : α → α} {g : α → β} (h : ∀ x, g (f x) = g x) (xs : List α) :
    (modifyLast f xs).map g = xs.map g := by
  induction xs using List.reverseRecOn with
  | nil => rfl
  | append_singleton xs x => simp [modifyLast, h]

/-- The last record of a dispatch in flight is its lease. -/
theorem History.last_lease {d : Dispatch} {as : List DispatchAttempt} (h : History d as)
    (hin : d.state = .inFlight) : ∃ prior, as.map leaseOf = prior ++ [(d.attempt, d.leaseToken)] := by
  obtain ⟨prior, last, rfl, -, htok, -⟩ := h.lease hin
  have hlen := h.length_eq
  have hnum := h.numbers
  rw [List.map_append, List.map_singleton] at hnum
  have hlast : last.attempt = d.attempt := by
    have := congrArg List.getLast? hnum
    rw [List.getLast?_concat, List.getLast?_range'] at this
    rw [List.length_append, List.length_singleton] at hlen
    split at this
    · omega
    · simp only [Option.some.injEq] at this
      omega
  exact ⟨prior.map leaseOf, by simp [leaseOf, hlast, htok]⟩

/-- An attempt that is over stays over. -/
theorem Move.over {d d' : Dispatch} {as as' : List DispatchAttempt} (h : Move d as d' as') {n : Nat}
    (hover : n < d.attempt ∨ d.attempt = n ∧ d.state ≠ .inFlight) :
    n < d'.attempt ∨ d'.attempt = n ∧ d'.state ≠ .inFlight := by
  cases h with
  | same => exact hover
  | claim waiting =>
    rcases hover with hlt | ⟨heq, -⟩
    · exact .inl (Nat.lt_succ_of_lt hlt)
    · exact .inl (heq ▸ Nat.lt_succ_self _)
  | grant inFlight | complete inFlight | expire inFlight => exact .inl (hover.resolve_right fun h => h.2 inFlight)
  | cancel idle | blockRetry retry => exact hover.imp_right fun h => ⟨h.1, fun hin => by cases hin⟩

/-- Only the last record, while it is open, is rewritten. -/
theorem Move.record {d d' : Dispatch} {as as' : List DispatchAttempt} (h : Move d as d' as') (hh : History d as)
    {i : Nat} {a : DispatchAttempt} (ha : as[i]? = some a) (hdone : ¬Open a) : as'[i]? = some a := by
  have hlast : ∀ {f : DispatchAttempt → DispatchAttempt}, d.state = .inFlight → (modifyLast f as)[i]? = some a := by
    intro f hin
    obtain ⟨prior, last, rfl, hopen, -⟩ := hh.lease hin
    have hlt : i < prior.length := by
      obtain ⟨hi, hget⟩ := List.getElem?_eq_some_iff.1 ha
      rw [List.length_append, List.length_singleton] at hi
      by_contra hge
      have heq : i = prior.length := by omega
      subst heq
      rw [List.getElem_concat_length rfl] at hget
      exact hdone (hget ▸ hopen)
    rw [List.getElem?_append_left hlt] at ha
    rw [History.modifyLast_concat, List.getElem?_append_left hlt, ha]
  cases h with
  | same | cancel | expire | blockRetry => exact ha
  | claim =>
    obtain ⟨hi, -⟩ := List.getElem?_eq_some_iff.1 ha
    rw [List.getElem?_append_left hi, ha]
  | grant inFlight | complete inFlight => exact hlast inFlight

/-- The records of every dispatch are the leases given out on it. -/
def Leases (s : Store) (ls : List Dispatch) : Prop :=
  ∀ id, (s.attempts id).map leaseOf = (leasesOn id ls).map fun l => (l.attempt, l.leaseToken)

/-- The numbers of the records of a dispatch are all different. -/
theorem leases_numbers (hh : Histories s) {ls : List Dispatch} (hl : Leases s ls) (id : Text) :
    ((leasesOn id ls).map (·.attempt)).Nodup := by
  have hmap : (leasesOn id ls).map (·.attempt) = (s.attempts id).map (·.attempt) := by
    have := congrArg (List.map Prod.fst) (hl id)
    simpa [leaseOf, Function.comp_def] using this.symm
  rw [hmap]
  cases hd : s.dispatch? id with
  | none => simp [hh.none id hd]
  | some d =>
    rw [← id_of_dispatch? hd, (hh.each d (mem_of_dispatch? hd)).numbers]
    exact List.nodup_range'

/-- The attempt and token are those of the last lease on the dispatch, and of no lease before it. -/
def Latest (ls : List Dispatch) (id : Text) (attempt : Nat) (token : Text) : Prop :=
  ∃ prior l, leasesOn id ls = prior ++ [l] ∧ l.attempt = attempt ∧ l.leaseToken = token ∧
    ∀ l' ∈ prior, l'.attempt ≠ attempt ∧ l'.leaseToken ≠ token

/-- A dispatch in flight holds the last lease. -/
theorem latest_of_inFlight (hh : Histories s) {ls : List Dispatch} (hl : Leases s ls) {d : Dispatch} {id : Text}
    (hd : s.dispatch? id = some d) (hin : d.state = .inFlight)
    (htok : ((leasesOn id ls).map (·.leaseToken)).Nodup) : Latest ls id d.attempt d.leaseToken := by
  obtain ⟨prior, hlast⟩ := (hh.each d (mem_of_dispatch? hd)).last_lease hin
  rw [id_of_dispatch? hd, hl id] at hlast
  obtain ⟨ls₁, ls₂, hsplit, -, hls₂⟩ := List.map_eq_append_iff.1 hlast
  obtain ⟨l, rfl, hlease⟩ := List.map_eq_singleton_iff.1 hls₂
  obtain ⟨h₁, h₂⟩ := Prod.mk.inj hlease
  have hnum := leases_numbers hh hl id
  rw [hsplit, List.map_append, List.nodup_append] at hnum htok
  refine ⟨ls₁, l, hsplit, h₁, h₂, fun l' hl' => ⟨fun he => ?_, fun he => ?_⟩⟩
  · exact hnum.2.2 _ (List.mem_map_of_mem hl') _ (by simp) (he.trans h₁.symm)
  · exact htok.2.2 _ (List.mem_map_of_mem hl') _ (by simp) (he.trans h₂.symm)

section

variable [Platform]

theorem Leases.after {ls : List Dispatch} (h : Leases s ls) (op : Op) :
    Leases (s.after op) (ls ++ (s.claimed? op).toList) := by
  intro id
  have hrec := after_records s op id
  generalize (s.after op).attempts id = as at hrec
  have hnone : (∀ d, s.claimed? op = some d → d.id ≠ id) →
      leasesOn id (ls ++ (s.claimed? op).toList) = leasesOn id ls := fun hno => by
    cases hc : s.claimed? op with
    | none => simp
    | some d => simp [leasesOn, hno d hc]
  cases hrec with
  | same hclaim => rw [hnone hclaim, h id]
  | @started d now hclaim hid =>
    rw [hclaim, List.map_append, h id]
    simp [leasesOn, hid, leaseOf, newAttempt]
  | granted hclaim =>
    rw [hnone (by simp [hclaim])]
    refine (modifyLast_map ?_ _).trans (h id)
    exact fun _ => rfl
  | completed hop =>
    have hclaim : s.claimed? op = none := by rw [hop]; rfl
    rw [hnone (by simp [hclaim])]
    refine (modifyLast_map ?_ _).trans (h id)
    exact fun _ => rfl

theorem run_leases_from {ls : List Dispatch} (h : Leases s ls) (ops : List Op) :
    Leases (s.run ops) (ls ++ s.claims ops) := by
  induction ops generalizing s ls with
  | nil => simpa [claims] using h
  | cons op ops ih =>
    have := ih (h.after op)
    rwa [List.append_assoc] at this

theorem run_claims (ops : List Op) : Leases (empty.run ops) (empty.claims ops) := by
  have hempty : Leases empty [] := fun _ => rfl
  simpa using run_leases_from hempty ops

/-! ### Completions and grants need the last lease -/

/-- A completion call and that it succeeded. -/
def Completes (s : Store) (op : Op) (c : Completion) : Prop :=
  ∃ ctx readAt checkedAt, op = .completeDispatch ctx readAt checkedAt c ∧ (s.apply op).1 = .done (.ok ())

theorem Completes.inv {op : Op} {c : Completion} (h : Completes s op c) :
    ∃ d step saga readAt, s.dispatch? c.dispatchID = some d ∧ d.state = .inFlight ∧ d.attempt = c.attempt ∧
      d.leaseToken = c.leaseToken ∧ s.saga? d.sagaID = some saga ∧ s.step? d.sagaID d.effectID = some step ∧
      validateCompletion (stamped c readAt) = .ok () ∧ s.after op = s.settle d step saga (stamped c readAt) := by
  obtain ⟨ctx, readAt, checkedAt, rfl, hok⟩ := h
  rcases completeDispatch_inv (Prod.mk.eta (p := s.completeDispatch ctx readAt checkedAt c)).symm with
    ⟨-, err, herr⟩ | ⟨d, step, saga, hd, hl, hsaga, hstep, hvalid, -, ht⟩
  · simp [apply, herr] at hok
  · obtain ⟨hin, hatt, -, htok, -⟩ := currentLeaseAt_iff.1 hl
    exact ⟨d, step, saga, readAt, hd, hin, hatt, htok, hsaga, hstep, hvalid, ht⟩

/-- A call that saves the grants of an attempt and that it succeeded. -/
def Grants (s : Store) (op : Op) (id : Text) (attempt : Nat) (token : Text) : Prop :=
  ∃ ctx checkedAt updatedAt grants, op = .saveFencingGrants ctx checkedAt updatedAt id attempt token grants ∧
    (s.apply op).1 = .done (.ok ())

theorem Grants.inv {op : Op} {id token : Text} {attempt : Nat} (h : Grants s op id attempt token) :
    ∃ d, s.dispatch? id = some d ∧ d.state = .inFlight ∧ d.attempt = attempt ∧ d.leaseToken = token := by
  obtain ⟨ctx, checkedAt, updatedAt, grants, rfl, hok⟩ := h
  rcases saveFencingGrants_inv (Prod.mk.eta
    (p := s.saveFencingGrants ctx checkedAt updatedAt id attempt token grants)).symm with
    ⟨-, err, herr⟩ | ⟨d, hd, hl, -⟩
  · simp [apply, herr] at hok
  · obtain ⟨hin, hatt, -, htok, -⟩ := currentLeaseAt_iff.1 hl
    exact ⟨d, hd, hin, hatt, htok⟩

/-! ### Completion happens once -/

/-- The attempt is over: a later one was started, or it is no longer in flight. -/
def Over (id : Text) (n : Nat) (s : Store) : Prop :=
  ∃ d ∈ s.dispatches, d.id = id ∧ (n < d.attempt ∨ d.attempt = n ∧ d.state ≠ .inFlight)

theorem Over.trans {id : Text} {n : Nat} (hs : Shape s) (h : Over id n s) (ht : Trans s t) : Over id n t := by
  obtain ⟨d, hd, hid, hover⟩ := h
  obtain ⟨d', hd', hm⟩ := (ht.moves hs).mem hd
  exact ⟨d', hd', hm.id.trans hid, hm.over hover⟩

theorem mem_enqueueCompensation {d : Dispatch} (hd : d ∈ s.dispatches) (saga : SagaInstance) (step : SagaStep)
    (now : Time) : d ∈ (s.enqueueCompensation saga step now).dispatches := by
  rcases enqueueCompensation_cases s saga step now with ⟨-, h⟩ | ⟨-, h⟩
  · rwa [h]
  · rw [h]
    exact List.mem_append_left _ hd

/-- The settled dispatch is in the store. -/
theorem mem_settle {d : Dispatch} {step : SagaStep} {saga : SagaInstance} {c : Completion} (hd : d ∈ s.dispatches) :
    completedDispatch d c (s.outcomeStates d step saga c).1 ∈ (s.settle d step saga c).dispatches := by
  have hrec : completedDispatch d c (s.outcomeStates d step saga c).1 ∈
      (s.recordCompletion d step saga c).dispatches := Keyed.mem_modify.2 (.inl ⟨d, hd, rfl, rfl⟩)
  rw [settle_eq]
  split
  · unfold startCompensation
    split
    · exact hrec
    · exact mem_enqueueCompensation (s := (s.recordCompletion d step saga c).setSaga _) hrec ..
  split
  · unfold enqueueNextCompensation
    split
    · exact hrec
    · exact mem_enqueueCompensation hrec ..
  · exact hrec

theorem Completes.over {op : Op} {c : Completion} (h : Completes s op c) : Over c.dispatchID c.attempt (s.after op) := by
  obtain ⟨d, step, saga, readAt, hd, hin, hatt, htok, hsaga, hstep, hvalid, ht⟩ := h.inv
  rw [ht]
  have hsettles : Settles (s.attempts d.id) d.attempt (stamped c readAt)
    (s.outcomeStates d step saga (stamped c readAt)).1 := settles_outcome hvalid
  refine ⟨_, mem_settle (mem_of_dispatch? hd), ?_, .inr ⟨hatt, hsettles.ended.2.1⟩⟩
  exact (id_of_dispatch? hd : d.id = c.dispatchID)

theorem Completes.not_over (hs : Shape s) {op : Op} {c : Completion} (h : Completes s op c) :
    ¬Over c.dispatchID c.attempt s := by
  obtain ⟨d, step, saga, readAt, hd, hin, hatt, -⟩ := h.inv
  rintro ⟨d', hd', hid, hover⟩
  rw [hs.dispatches.eq_of_key hd' (mem_of_dispatch? hd) (hid.trans (id_of_dispatch? hd).symm)] at hover
  rcases hover with hlt | ⟨-, hne⟩
  · omega
  · exact hne hin

/-! ### What is recorded stays -/

/-- The record at a place. -/
def RecordAt (id : Text) (i : Nat) (a : DispatchAttempt) (s : Store) : Prop :=
  Histories s ∧ (s.attempts id)[i]? = some a

theorem RecordAt.trans {id : Text} {i : Nat} {a : DispatchAttempt} (hdone : ¬Open a) (hs : Shape s)
    (h : RecordAt id i a s) (ht : Trans s t) : RecordAt id i a t := by
  obtain ⟨hh, ha⟩ := h
  have hm := ht.moves hs
  refine ⟨hh.moves hm, ?_⟩
  cases hd : s.dispatch? id with
  | none =>
    rw [hh.none id hd] at ha
    simp at ha
  | some d =>
    obtain ⟨d', -, hmove⟩ := hm.mem (mem_of_dispatch? hd)
    have hid := id_of_dispatch? hd
    rw [hid] at hmove
    exact hmove.record (hid ▸ hh.each d (mem_of_dispatch? hd)) ha hdone

theorem run_record {pre ops : List Op} (hpre : pre <+: ops) {id : Text} {i : Nat} {a : DispatchAttempt}
    (ha : ((empty.run pre).attempts id)[i]? = some a) (hdone : ¬Open a) :
    ((empty.run ops).attempts id)[i]? = some a := by
  obtain ⟨post, hpost⟩ := run_extends hpre
  rw [← hpost]
  exact (run_keeps (P := RecordAt id i a) (RecordAt.trans hdone) (run_shape pre) ⟨run_histories pre, ha⟩ post).2.2

theorem run_grows {pre ops : List Op} (hpre : pre <+: ops) : Grows (empty.run pre) (empty.run ops) := by
  obtain ⟨post, hpost⟩ := run_extends hpre
  rw [← hpost]
  refine (run_keeps (P := Grows (empty.run pre)) ?_ (run_shape pre) (.refl _) post).2
  exact fun hs h ht => h.trans (ht.grows hs.toKeys)

theorem run_dispatch? {pre ops : List Op} (hpre : pre <+: ops) {d : Dispatch} (hd : d ∈ (empty.run pre).dispatches) :
    ∃ d', (empty.run ops).dispatch? d.id = some d' ∧ d'.core = d.core := by
  obtain ⟨d', hd', hc⟩ := (run_grows hpre).dispatch_mem hd
  refine ⟨d', ?_, hc⟩
  rw [← (Dispatch.core_eq.1 hc).1]
  exact (run_shape ops).dispatches.get?_of_mem hd'

theorem run_step? {pre ops : List Op} (hpre : pre <+: ops) {step : SagaStep} (hm : step ∈ (empty.run pre).steps) :
    ∃ step', (empty.run ops).step? step.sagaID step.effectID = some step' ∧ step'.core = step.core := by
  obtain ⟨step', hm', hc⟩ := (run_grows hpre).step_mem hm
  obtain ⟨h₁, h₂, -⟩ := SagaStep.core_eq.1 hc
  refine ⟨step', ?_, hc⟩
  have := (run_shape ops).steps.get?_of_mem hm'
  rwa [stepKey, h₁, h₂] at this

/-- A call that fails on its lease, or for any other reason, leaves the store as it was. -/
theorem after_of_err {op : Op} {err : Err} (herr : (s.apply op).1.err? = some err)
    (hop : (∃ ctx readAt checkedAt c, op = .completeDispatch ctx readAt checkedAt c) ∨
      ∃ ctx checkedAt updatedAt id attempt token grants,
        op = .saveFencingGrants ctx checkedAt updatedAt id attempt token grants) : s.after op = s := by
  rcases hop with ⟨ctx, readAt, checkedAt, c, rfl⟩ | ⟨ctx, checkedAt, updatedAt, id, attempt, token, grants, rfl⟩
  · rcases completeDispatch_inv (Prod.mk.eta (p := s.completeDispatch ctx readAt checkedAt c)).symm with
      ⟨h, -⟩ | ⟨d, step, saga, -, -, -, -, -, hok, -⟩
    · exact h
    · simp [apply, hok, Reply.err?] at herr
  · rcases saveFencingGrants_inv (Prod.mk.eta
      (p := s.saveFencingGrants ctx checkedAt updatedAt id attempt token grants)).symm with
      ⟨h, -⟩ | ⟨d, -, -, hok, -⟩
    · exact h
    · simp [apply, hok, Reply.err?] at herr

/-! ### Every run -/

/-- For every run whose lease tokens never repeat. A completion that succeeds holds the latest lease on its
    dispatch, and none succeeds again for the same attempt. Grants are saved under the latest lease only. So no
    call with an earlier attempt or token succeeds. The records of a dispatch are numbered from one to its attempt with different tokens, and one that is
    complete never changes. A completion or grant that fails on its lease changes nothing. What a dispatch and
    its step were created with stays. -/
theorem run_leases (ops : List Op) (htokens : ((empty.claims ops).map (·.leaseToken)).Nodup) :
    (∀ pre op post c, ops = pre ++ op :: post → Completes (empty.run pre) op c →
        Latest (empty.claims pre) c.dispatchID c.attempt c.leaseToken ∧
        ∀ mid op' rest c', post = mid ++ op' :: rest → Completes (empty.run (pre ++ op :: mid)) op' c' →
          c'.dispatchID = c.dispatchID → c'.attempt ≠ c.attempt) ∧
      (∀ pre op post id attempt token, ops = pre ++ op :: post → Grants (empty.run pre) op id attempt token →
        Latest (empty.claims pre) id attempt token) ∧
      (∀ pre, pre <+: ops → ∀ d ∈ (empty.run pre).dispatches,
        ((empty.run pre).attempts d.id).map (·.attempt) = List.range' 1 d.attempt ∧
          (((empty.run pre).attempts d.id).map (·.leaseToken)).Nodup ∧
          ∀ (i : Nat) (a : DispatchAttempt), ((empty.run pre).attempts d.id)[i]? = some a → ¬(a.outcome = .unset ∧ a.completedAt = 0) →
            ((empty.run ops).attempts d.id)[i]? = some a) ∧
      (∀ pre op post err, ops = pre ++ op :: post →
        ((∃ ctx readAt checkedAt c, op = .completeDispatch ctx readAt checkedAt c) ∨
          ∃ ctx checkedAt updatedAt id attempt token grants,
            op = .saveFencingGrants ctx checkedAt updatedAt id attempt token grants) →
        ((empty.run pre).apply op).1.err? = some err → err.is .staleLease →
          (empty.run pre).after op = empty.run pre) ∧
      ∀ pre, pre <+: ops →
        (∀ d ∈ (empty.run pre).dispatches, ∃ d', (empty.run ops).dispatch? d.id = some d' ∧ d'.id = d.id ∧
          d'.idempotencyKey = d.idempotencyKey ∧ d'.verb = d.verb ∧ d'.contractHash = d.contractHash ∧
          d'.arguments = d.arguments ∧ d'.argumentHash = d.argumentHash ∧ d'.fencing = d.fencing) ∧
        ∀ x ∈ (empty.run pre).steps, ∃ x', (empty.run ops).step? x.sagaID x.effectID = some x' ∧
          x'.arguments = x.arguments ∧ x'.argumentHash = x.argumentHash ∧
          x'.compensationVerb = x.compensationVerb ∧ x'.compensationContract = x.compensationContract ∧
          x'.compensationArguments = x.compensationArguments ∧
          x'.compensationArgumentHash = x.compensationArgumentHash := by
  -- The tokens of one dispatch at one time are among the tokens of the run.
  have htok : ∀ pre, pre <+: ops → ∀ id, ((leasesOn id (empty.claims pre)).map (·.leaseToken)).Nodup := by
    rintro pre ⟨post, rfl⟩ id
    rw [claims_append, List.map_append] at htokens
    exact (htokens.sublist (List.sublist_append_left ..)).sublist (List.filter_sublist.map _)
  refine ⟨fun pre op post c hops hc => ⟨?_, fun mid op' rest c' hpost hc' hid heq => ?_⟩,
    fun pre op post id attempt token hops hg => ?_, fun pre hpre d hd => ⟨?_, ?_, ?_⟩,
    fun pre op post err hops hop herr _ => after_of_err herr hop, fun pre hpre => ⟨fun d hd => ?_, fun x hx => ?_⟩⟩
  · obtain ⟨d, -, -, -, hd, hin, hatt, htoken, -⟩ := hc.inv
    rw [← hatt, ← htoken]
    exact latest_of_inFlight (run_histories pre) (run_claims pre) hd hin (htok pre ⟨_, hops.symm⟩ _)
  · have hover := hc.over
    have hs := run_shape (pre ++ [op])
    rw [run_append, run_cons, run_nil] at hs
    have hlater := (run_keeps (P := Over c.dispatchID c.attempt) Over.trans hs hover mid).2
    rw [← run_cons, ← run_append, ← hid, ← heq] at hlater
    exact hc'.not_over (run_shape _) hlater
  · obtain ⟨d, hd, hin, rfl, rfl⟩ := hg.inv
    exact latest_of_inFlight (run_histories pre) (run_claims pre) hd hin (htok pre ⟨_, hops.symm⟩ id)
  · exact ((run_histories pre).each d hd).numbers
  · have := congrArg (List.map Prod.snd) (run_claims pre d.id)
    simp only [List.map_map, leaseOf, Function.comp_def] at this
    rw [this]
    exact htok pre hpre d.id
  · exact fun i a ha hdone => run_record hpre ha hdone
  · obtain ⟨d', hd', hc⟩ := run_dispatch? hpre hd
    obtain ⟨h₁, -, -, -, -, h₂, h₃, h₄, h₅, h₆, h₇, -⟩ := Dispatch.core_eq.1 hc
    exact ⟨d', hd', h₁, h₆, h₂, h₃, h₄, h₅, h₇⟩
  · obtain ⟨x', hx', hc⟩ := run_step? hpre hx
    obtain ⟨-, -, -, -, -, h₁, h₂, h₃, h₄, h₅, h₆, -⟩ := SagaStep.core_eq.1 hc
    exact ⟨x', hx', h₁, h₂, h₃, h₄, h₅, h₆⟩

end

section

attribute [local instance] reference

theorem run_leases_sample : (empty.claims sample).map (·.leaseToken) = [("one" : Text), ("two" : Text)] ∧
    ∃ prior l, leasesOn (sampleCompletion "second" "two" .permanentFailure).dispatchID (empty.claims sampleStart) =
      prior ++ [l] ∧ l.leaseToken = ("two" : Text) := by
  have htokens : (empty.claims sample).map (·.leaseToken) = [("one" : Text), ("two" : Text)] := by decide +kernel
  have hok : ((empty.run sampleStart).completeDispatch none 7 7
      (sampleCompletion "second" "two" .permanentFailure)).1.isOk = true := by decide +kernel
  have hcompletes : Completes (empty.run sampleStart)
      (.completeDispatch none 7 7 (sampleCompletion "second" "two" .permanentFailure))
      (sampleCompletion "second" "two" .permanentFailure) := by
    refine ⟨none, 7, 7, rfl, ?_⟩
    rw [apply, Prod.map_fst]
    generalize (Store.completeDispatch _ _ _ _ _).1 = r at hok
    cases r with
    | error => cases hok
    | ok => rfl
  have hnodup : ((empty.claims sample).map (·.leaseToken)).Nodup := by
    rw [htokens]
    decide
  obtain ⟨prior, l, hsplit, -, htoken, -⟩ := ((run_leases sample hnodup).1 _ _ _ _ rfl hcompletes).1
  exact ⟨htokens, prior, l, hsplit, htoken⟩

end

end Store
end Effectus
