import Effectus.Theorems.Ledger.Transitions

/-! Safety of the ledger over whole runs: identities stay paired with executions, what an admission fixed
    never changes, a terminal record is final, and a revision is written from at most once. -/

namespace Effectus
namespace Ledger

variable {l l' : Ledger} {r r' : ExecutionRecord}

/-- What an admission fixes of a record. -/
structure SameIdentity (r r' : ExecutionRecord) : Prop where
  executionID : r'.executionID = r.executionID
  admissionIdentity : r'.admissionIdentity = r.admissionIdentity
  requestHash : r'.requestHash = r.requestHash
  labels : r'.ruleset = r.ruleset ∧ r'.version = r.version ∧ r'.tenantNamespace = r.tenantNamespace ∧
    r'.mergePolicy = r.mergePolicy
  generationDigest : r'.generationDigest = r.generationDigest
  effectiveFacts : r'.effectiveFacts = r.effectiveFacts
  plans : r'.plans.map (fun p => (p.executionID, p.planID, p.sagaID, p.ordinal)) =
    r.plans.map fun p => (p.executionID, p.planID, p.sagaID, p.ordinal)

theorem SameIdentity.refl (r : ExecutionRecord) : SameIdentity r r := ⟨rfl, rfl, rfl, ⟨rfl, rfl, rfl, rfl⟩, rfl, rfl, rfl⟩

theorem SameIdentity.trans {r'' : ExecutionRecord} (h : SameIdentity r r') (h' : SameIdentity r' r'') :
    SameIdentity r r'' where
  executionID := h'.executionID.trans h.executionID
  admissionIdentity := h'.admissionIdentity.trans h.admissionIdentity
  requestHash := h'.requestHash.trans h.requestHash
  labels := ⟨h'.labels.1.trans h.labels.1, h'.labels.2.1.trans h.labels.2.1, h'.labels.2.2.1.trans h.labels.2.2.1,
    h'.labels.2.2.2.trans h.labels.2.2.2⟩
  generationDigest := h'.generationDigest.trans h.generationDigest
  effectiveFacts := h'.effectiveFacts.trans h.effectiveFacts
  plans := h'.plans.trans h.plans

theorem sameIdentity_disposed (r : ExecutionRecord) (state : ExecutionState) : SameIdentity r (disposed r state) :=
  ⟨rfl, rfl, rfl, ⟨rfl, rfl, rfl, rfl⟩, rfl, rfl, by simp [disposed]⟩

theorem Rewrite.sameIdentity (h : Rewrite r r') : SameIdentity r r' := by
  cases h with
  | @set state => exact (sameIdentity_disposed r state).trans ⟨rfl, rfl, rfl, ⟨rfl, rfl, rfl, rfl⟩, rfl, rfl, rfl⟩
  | lease => exact ⟨rfl, rfl, rfl, ⟨rfl, rfl, rfl, rfl⟩, rfl, rfl, rfl⟩
  | @finish _ _ _ state =>
    have hrecord : SameIdentity r (if state = .other [] then r else disposed r state) := by
      split
      · exact ⟨rfl, rfl, rfl, ⟨rfl, rfl, rfl, rfl⟩, rfl, rfl, rfl⟩
      · exact sameIdentity_disposed r state
    exact hrecord.trans ⟨rfl, rfl, rfl, ⟨rfl, rfl, rfl, rfl⟩, rfl, rfl, rfl⟩

/-! ### The invariant -/

/-- What holds of one record: an execution under a lease is not terminal, and no deadline is left without a
token. -/
structure Settled (r : ExecutionRecord) : Prop where
  terminal : isTerminalExecutionState r.state = true → r.recoveryToken = []
  unleased : r.recoveryToken = [] → r.recoveryDeadline ≤ 0

structure Safe (l : Ledger) : Prop where
  ids : Keyed.Unique (·.executionID) l.executions
  identities : Keyed.Unique Prod.fst l.byAdmission
  paired : ∀ identity id, (identity, id) ∈ l.byAdmission ↔
    ∃ r ∈ l.executions, r.admissionIdentity = identity ∧ r.executionID = id
  settled : ∀ r ∈ l.executions, Settled r

theorem safe_empty : Safe empty where
  ids := List.nodup_nil
  identities := List.nodup_nil
  paired := by simp [empty]
  settled := by simp [empty]

/-- An empty token is never under a lease while the clock is set. -/
theorem Settled.token_ne_nil (h : Settled r) {lease : ExecutionLease} {now : Time} (hheld : holdsLease r lease now = true)
    (hclock : 0 ≤ now) : r.recoveryToken ≠ [] := by
  intro hnil
  have hdeadline := h.unleased hnil
  simp only [holdsLease, decide_eq_true_eq] at hheld
  exact absurd (hclock.trans_lt hheld.2.2.2) (not_lt.2 hdeadline)

theorem Settled.not_terminal (h : Settled r) (hne : r.recoveryToken ≠ []) : isTerminalExecutionState r.state = false := by
  cases hterm : isTerminalExecutionState r.state with
  | false => rfl
  | true => exact absurd (h.terminal hterm) hne

/-- Whatever is rewritten was not terminal. -/
theorem Rewrite.running (h : Rewrite r r') (hs : Settled r) : isTerminalExecutionState r.state = false := by
  cases h with
  | set running => exact running
  | lease running => exact running
  | finish held clock => exact hs.not_terminal (hs.token_ne_nil held clock)

theorem Rewrite.settled (h : Rewrite r r') (hs : Settled r) : Settled r' := by
  cases h with
  | set running free => exact ⟨fun _ => free, hs.unleased⟩
  | lease running drawn =>
    exact ⟨fun hterm => absurd hterm (by simpa [underLease] using running), fun hnil => absurd hnil drawn⟩
  | finish => exact ⟨fun _ => rfl, fun _ => le_refl _⟩

/-! ### Replacing one record -/

section

variable (hs : Safe l) (hfound : l.execution? r.executionID = some r) (hid : r'.executionID = r.executionID)
  (hidentity : r'.admissionIdentity = r.admissionIdentity)

include hs hfound hid in
theorem mem_setExecution {x : ExecutionRecord} :
    x ∈ (l.setExecution r').executions ↔ x = r' ∨ (x ∈ l.executions ∧ x.executionID ≠ r.executionID) := by
  have h := hs.ids.mem_modify (y := x) (f := fun _ => r') (mem_of_execution? hfound) (rfl : r.executionID = r.executionID)
  rw [setExecution, hid]
  exact h

include hs hfound hid hidentity in
theorem Safe.setExecution (hsettled : Settled r') : Safe (l.setExecution r') where
  ids := hs.ids.modify fun x _ hx => hx.symm
  identities := hs.identities
  paired := by
    intro identity id
    have hmem := mem_of_execution? hfound
    rw [setExecution_byAdmission, hs.paired]
    constructor
    · rintro ⟨x, hx, hxi, hxid⟩
      by_cases he : x.executionID = r.executionID
      · obtain rfl := hs.ids.eq_of_key hx hmem he
        exact ⟨r', (mem_setExecution hs hfound hid).2 (.inl rfl), hidentity.trans hxi, hid.trans hxid⟩
      · exact ⟨x, (mem_setExecution hs hfound hid).2 (.inr ⟨hx, he⟩), hxi, hxid⟩
    · rintro ⟨x, hx, hxi, hxid⟩
      rcases (mem_setExecution hs hfound hid).1 hx with rfl | ⟨hx, -⟩
      · exact ⟨r, hmem, hidentity.symm.trans hxi, hid.symm.trans hxid⟩
      · exact ⟨x, hx, hxi, hxid⟩
  settled := by
    intro x hx
    rcases (mem_setExecution hs hfound hid).1 hx with rfl | ⟨hx, -⟩
    · exact hsettled
    · exact hs.settled x hx

end

theorem Trans.safe (h : Trans l l') (hs : Safe l) : Safe l' := by
  cases h with
  | store => exact ⟨hs.ids, hs.identities, hs.paired, hs.settled⟩
  | @accept record named new unclaimed accepted unleased =>
    have hnew : ∀ x ∈ l.executions, x.executionID ≠ record.executionID := Keyed.get?_eq_none.1 new
    have hfresh : ∀ e ∈ l.byAdmission, e.1 ≠ record.admissionIdentity := by
      rintro ⟨identity, id⟩ he rfl
      -- An entry under the identity would lead to its record.
      obtain ⟨x, hx, -, rfl⟩ := (hs.paired _ _).1 he
      have hentry := hs.identities.get?_of_mem he
      have hrecord := hs.ids.get?_of_mem hx
      simp only [admitted?, execution?] at unclaimed
      rw [hentry] at unclaimed
      simp [hrecord] at unclaimed
    refine ⟨hs.ids.append hnew, hs.identities.append hfresh, fun identity id => ?_, fun x hx => ?_⟩
    · simp only [List.mem_append, List.mem_singleton, Prod.mk.injEq, hs.paired]
      constructor
      · rintro (⟨x, hx, hxi, hxid⟩ | ⟨rfl, rfl⟩)
        · exact ⟨x, .inl hx, hxi, hxid⟩
        · exact ⟨record, .inr rfl, rfl, rfl⟩
      · rintro ⟨x, hx | rfl, hxi, hxid⟩
        · exact .inl ⟨x, hx, hxi, hxid⟩
        · exact .inr ⟨hxi.symm, hxid.symm⟩
    · rcases List.mem_append.1 hx with hx | hx
      · exact hs.settled x hx
      · rw [List.mem_singleton.1 hx]
        refine ⟨fun hterm => ?_, fun hnil => le_of_eq (unleased hnil)⟩
        rw [accepted] at hterm
        cases hterm
  | rewrite found rewritten =>
    exact hs.setExecution found rewritten.executionID rewritten.sameIdentity.admissionIdentity
      (rewritten.settled (hs.settled _ (mem_of_execution? found)))

theorem Renewed.safe (h : Renewed l l') (hs : Safe l) : Safe l' := by
  cases h with
  | same => exact hs
  | @moved r lease now deadline found held running clock later =>
    have hsettled := hs.settled r (mem_of_execution? found)
    refine hs.setExecution found rfl rfl ⟨hsettled.terminal, fun hnil => ?_⟩
    exact absurd hnil (hsettled.token_ne_nil held clock)

/-! ### How records evolve -/

/-- Every record is still there, unchanged or with a higher revision; only one that was not terminal
changed. -/
def Evolves (l l' : Ledger) : Prop :=
  ∀ r ∈ l.executions, ∃ r' ∈ l'.executions, SameIdentity r r' ∧
    (r' = r ∨ (r.revision < r'.revision ∧ isTerminalExecutionState r.state = false))

theorem Evolves.refl (l : Ledger) : Evolves l l := fun r hr => ⟨r, hr, .refl r, .inl rfl⟩

theorem Evolves.trans {l'' : Ledger} (h : Evolves l l') (h' : Evolves l' l'') : Evolves l l'' := by
  intro r hr
  obtain ⟨r', hr', hsame, hgrown⟩ := h r hr
  obtain ⟨r'', hr'', hsame', hgrown'⟩ := h' r' hr'
  refine ⟨r'', hr'', hsame.trans hsame', ?_⟩
  rcases hgrown with rfl | ⟨hlt, hopen⟩
  · exact hgrown'
  · rcases hgrown' with rfl | ⟨hlt', -⟩
    · exact .inr ⟨hlt, hopen⟩
    · exact .inr ⟨hlt.trans hlt', hopen⟩

theorem Trans.evolves (h : Trans l l') (hs : Safe l) : Evolves l l' := by
  cases h with
  | store => exact Evolves.refl l
  | accept => exact fun x hx => ⟨x, List.mem_append_left _ hx, .refl x, .inl rfl⟩
  | @rewrite r r' found rewritten =>
    intro x hx
    have hmem := mem_of_execution? found
    by_cases he : x.executionID = r.executionID
    · obtain rfl := hs.ids.eq_of_key hx hmem he
      refine ⟨r', (mem_setExecution hs found rewritten.executionID).2 (.inl rfl), rewritten.sameIdentity, .inr ⟨?_, ?_⟩⟩
      · rw [rewritten.revision]
        exact Nat.lt_succ_self _
      · exact rewritten.running (hs.settled x hmem)
    · exact ⟨x, (mem_setExecution hs found rewritten.executionID).2 (.inr ⟨hx, he⟩), .refl x, .inl rfl⟩

theorem evolves_of_steps (h : Relation.ReflTransGen Trans l l') (hs : Safe l) : Safe l' ∧ Evolves l l' := by
  induction h with
  | refl => exact ⟨hs, .refl l⟩
  | tail _ hstep ih => exact ⟨hstep.safe ih.1, ih.2.trans (hstep.evolves ih.1)⟩

/-- A renewal moves one deadline back and changes nothing else. -/
def Prolongs (l l' : Ledger) : Prop :=
  ∀ r ∈ l.executions, ∃ deadline, r.recoveryDeadline ≤ deadline ∧ renewedTo r deadline ∈ l'.executions ∧
    (isTerminalExecutionState r.state = true → deadline = r.recoveryDeadline)

theorem Renewed.prolongs (h : Renewed l l') (hs : Safe l) : Prolongs l l' := by
  cases h with
  | same => exact fun r hr => ⟨r.recoveryDeadline, le_refl _, hr, fun _ => rfl⟩
  | @moved r lease now deadline found held running clock later =>
    have hid : (renewedTo r deadline).executionID = r.executionID := rfl
    intro x hx
    by_cases he : x.executionID = r.executionID
    · obtain rfl := hs.ids.eq_of_key hx (mem_of_execution? found) he
      refine ⟨deadline, later, (mem_setExecution hs found hid).2 (.inl rfl), fun hterm => ?_⟩
      rw [running] at hterm
      cases hterm
    · exact ⟨x.recoveryDeadline, le_refl _, (mem_setExecution hs found hid).2 (.inr ⟨hx, he⟩), fun _ => rfl⟩

/-- What both have in common: records keep their identity, revisions never fall and terminal records
stay. -/
def Grows (l l' : Ledger) : Prop :=
  ∀ r ∈ l.executions, ∃ r' ∈ l'.executions, SameIdentity r r' ∧ r.revision ≤ r'.revision ∧
    (isTerminalExecutionState r.state = true → r' = r)

theorem Grows.refl (l : Ledger) : Grows l l := fun r hr => ⟨r, hr, .refl r, le_refl _, fun _ => rfl⟩

theorem Grows.trans {l'' : Ledger} (h : Grows l l') (h' : Grows l' l'') : Grows l l'' := by
  intro r hr
  obtain ⟨r', hr', hsame, hle, hterm⟩ := h r hr
  obtain ⟨r'', hr'', hsame', hle', hterm'⟩ := h' r' hr'
  refine ⟨r'', hr'', hsame.trans hsame', hle.trans hle', fun ht => ?_⟩
  obtain rfl := hterm ht
  exact hterm' ht

theorem Evolves.grows (h : Evolves l l') : Grows l l' := by
  intro r hr
  obtain ⟨r', hr', hsame, rfl | ⟨hlt, hopen⟩⟩ := h r hr
  · exact ⟨r', hr', hsame, le_refl _, fun _ => rfl⟩
  · refine ⟨r', hr', hsame, hlt.le, fun ht => ?_⟩
    rw [hopen] at ht
    cases ht

theorem Prolongs.grows (h : Prolongs l l') : Grows l l' := by
  intro r hr
  obtain ⟨deadline, -, hmem, hterm⟩ := h r hr
  refine ⟨_, hmem, ⟨rfl, rfl, rfl, ⟨rfl, rfl, rfl, rfl⟩, rfl, rfl, rfl⟩, le_refl _, fun ht => ?_⟩
  rw [hterm ht]
  rfl

/-! ### Runs -/

/-- The calls of a run meet what is asked of their clock and of their admissions. -/
def Proper (ops : List LedgerOp) : Prop := ∀ op ∈ ops, op.ClockSet ∧ op.AdmitsUnleased

theorem Proper.append {ops more : List LedgerOp} (h : Proper (ops ++ more)) : Proper ops ∧ Proper more :=
  ⟨fun op hop => h op (List.mem_append_left _ hop), fun op hop => h op (List.mem_append_right _ hop)⟩

theorem Proper.cons {op : LedgerOp} {more : List LedgerOp} (h : Proper (op :: more)) : Proper [op] ∧ Proper more :=
  Proper.append (show Proper ([op] ++ more) from h)

section

variable [Platform]

theorem after_safe {op : LedgerOp} (hs : Safe l) (hclock : op.ClockSet) (hunleased : op.AdmitsUnleased) :
    Safe (l.after op) ∧ Grows l (l.after op) := by
  cases hop : op.isRenewal with
  | true =>
    have h := after_renewed (l := l) hclock hop
    exact ⟨h.safe hs, (h.prolongs hs).grows⟩
  | false =>
    obtain ⟨hsafe, hevolves⟩ := evolves_of_steps (after_steps hs.ids hclock hunleased hop) hs
    exact ⟨hsafe, hevolves.grows⟩

theorem run_safe {ops : List LedgerOp} (hs : Safe l) (h : Proper ops) : Safe (l.run ops) ∧ Grows l (l.run ops) := by
  induction ops generalizing l with
  | nil => exact ⟨hs, .refl l⟩
  | cons op ops ih =>
    obtain ⟨hclock, hunleased⟩ := h op (List.mem_cons_self ..)
    obtain ⟨hsafe, hgrows⟩ := after_safe hs hclock hunleased
    obtain ⟨hsafe', hgrows'⟩ := ih hsafe fun x hx => h x (List.mem_cons_of_mem _ hx)
    exact ⟨hsafe', hgrows.trans hgrows'⟩

end

/-- A revision never falls from one ledger of a run to a later one. -/
theorem Grows.revision_le (h : Grows l l') (hs : Safe l') {id : Text} (hr : l.execution? id = some r)
    (hr' : l'.execution? id = some r') : r.revision ≤ r'.revision := by
  obtain ⟨x, hx, hsame, hle, -⟩ := h r (mem_of_execution? hr)
  have hkey : x.executionID = r'.executionID := by
    rw [hsame.executionID, id_of_execution? hr, id_of_execution? hr']
  obtain rfl := hs.ids.eq_of_key hx (mem_of_execution? hr') hkey
  exact hle

end Ledger
end Effectus
