import Effectus.Ledger.Run
import Mathlib.Logic.Relation

/-! What one call can do to the ledger. Every call but a renewal is a chain of three kinds of write: an
    artifact is stored, an execution is admitted, or one record is rewritten with a higher revision. -/

namespace Effectus

/-- The clock is never behind Go's zero time. -/
def LedgerOp.ClockSet : LedgerOp → Prop
  | .renewExecutionLease _ now _ _ => 0 ≤ now
  | .finishExecutionLease _ checkedAt _ _ _ _ => 0 ≤ checkedAt
  | _ => True

/-- The random source never fails. -/
def LedgerOp.DrawsTokens : LedgerOp → Prop
  | .leaseExecutions _ _ random _ _ _ => ∀ index, ∃ entropy, random index = .ok entropy
  | _ => True

/-- An admission whose record has no recovery token has no recovery deadline either. -/
def LedgerOp.AdmitsUnleased : LedgerOp → Prop
  | .admitExecution _ _ admission => admission.execution.recoveryToken = [] → admission.execution.recoveryDeadline = 0
  | _ => True

def LedgerOp.isRenewal : LedgerOp → Bool
  | .renewExecutionLease .. => true
  | _ => false

namespace Ledger

variable {l l' : Ledger} {r r' : ExecutionRecord}

/-- A record rewritten by a call that is not a renewal. -/
inductive Rewrite (r : ExecutionRecord) : ExecutionRecord → Prop
  | set {state : ExecutionState} {message : Text} {now : Time} (running : isTerminalExecutionState r.state = false)
      (free : r.recoveryToken = []) : Rewrite r (stateSet r state message now)
  | lease {owner token : Text} {now : Time} {duration : Int} (running : isTerminalExecutionState r.state = false)
      (drawn : token ≠ []) : Rewrite r (underLease r owner token now duration)
  | finish {lease : ExecutionLease} {checkedAt updatedAt : Time} {state : ExecutionState} {message : Text}
      (held : holdsLease r lease checkedAt = true) (clock : 0 ≤ checkedAt) :
      Rewrite r (leaseFinished r state message updatedAt)

/-- One write. -/
inductive Trans (l : Ledger) : Ledger → Prop
  | store {artifact : ExecutionArtifact} : Trans l { l with artifacts := l.artifacts ++ [artifact] }
  | accept {record : ExecutionRecord} (named : record.executionID ≠ []) (new : l.execution? record.executionID = none)
      (unclaimed : l.admitted? record.admissionIdentity = none) (accepted : record.state = .accepted)
      (unleased : record.recoveryToken = [] → record.recoveryDeadline = 0) :
      Trans l { l with
        executions := l.executions ++ [record]
        byAdmission := l.byAdmission ++ [(record.admissionIdentity, record.executionID)] }
  | rewrite {r r' : ExecutionRecord} (found : l.execution? r.executionID = some r) (rewritten : Rewrite r r') :
      Trans l (l.setExecution r')

/-- A lease's deadline moved back, and nothing else. -/
inductive Renewed (l : Ledger) : Ledger → Prop
  | same : Renewed l l
  | moved {r : ExecutionRecord} {lease : ExecutionLease} {now deadline : Time}
      (found : l.execution? r.executionID = some r) (held : holdsLease r lease now = true)
      (running : isTerminalExecutionState r.state = false) (clock : 0 ≤ now) (later : r.recoveryDeadline ≤ deadline) :
      Renewed l (l.setExecution (renewedTo r deadline))

theorem id_of_execution? {id : Text} (h : l.execution? id = some r) : r.executionID = id := Keyed.key_of_get? h

theorem mem_of_execution? {id : Text} (h : l.execution? id = some r) : r ∈ l.executions := Keyed.mem_of_get? h

theorem Rewrite.executionID (h : Rewrite r r') : r'.executionID = r.executionID := by
  cases h with
  | set => rfl
  | lease => rfl
  | @finish _ _ _ state =>
    show (if state = .other [] then r else disposed r state).executionID = _
    split <;> rfl

theorem Rewrite.revision (h : Rewrite r r') : r'.revision = r.revision + 1 := by
  cases h <;> rfl

theorem execution?_setExecution_of_ne {id : Text} (h : id ≠ r.executionID) :
    (l.setExecution r).execution? id = l.execution? id :=
  Keyed.get?_modify_of_ne (fun _ _ _ => rfl) h

theorem setExecution_byAdmission : (l.setExecution r).byAdmission = l.byAdmission := rfl

/-! ### Leasing -/

theorem executionLeaseToken_ne_nil {entropy : Except Err Entropy} {token : Text}
    (h : executionLeaseToken entropy = .ok token) : token ≠ [] := by
  cases entropy with
  | error err => cases h
  | ok e =>
    cases h
    obtain ⟨bytes, hlen⟩ := e
    cases bytes with
    | nil => simp at hlen
    | cons b rest => simp [hexEncode]

section

variable {owner : Text} {now : Time} {duration : Int} {random : Nat → Except Err Entropy}

theorem leaseEach_steps : ∀ (records : List ExecutionRecord) (index : Nat) (l : Ledger),
    (records.map (·.executionID)).Nodup →
    (∀ r ∈ records, l.execution? r.executionID = some r ∧ isTerminalExecutionState r.state = false) →
    Relation.ReflTransGen Trans l (leaseEach owner now duration random index records l).2
  | [], _, _, _, _ => .refl
  | record :: rest, index, l, hn, hf => by
    obtain ⟨hx, hn⟩ := List.nodup_cons.1 hn
    obtain ⟨hfound, hopen⟩ := hf record (List.mem_cons_self ..)
    unfold leaseEach
    split
    · exact .refl
    · rename_i token htoken
      have hstep : Trans l (l.setExecution (underLease record owner token now duration)) :=
        .rewrite hfound (.lease hopen (executionLeaseToken_ne_nil htoken))
      have ih := leaseEach_steps rest (index + 1) (l.setExecution (underLease record owner token now duration)) hn
        fun r hr => by
          have hne : r.executionID ≠ record.executionID := fun he => hx (List.mem_map.2 ⟨r, hr, he⟩)
          rw [execution?_setExecution_of_ne (r := underLease record owner token now duration) hne]
          exact hf r (List.mem_cons_of_mem _ hr)
      dsimp only
      split
      · rename_i heq
        rw [heq] at ih
        exact .head hstep ih
      · rename_i heq
        rw [heq] at ih
        exact .head hstep ih

/-- A token source that never fails leases every record. -/
theorem leaseEach_ok (hdraw : ∀ index, ∃ entropy, random index = .ok entropy) :
    ∀ (records : List ExecutionRecord) (index : Nat) (l : Ledger),
      ∃ leases, (leaseEach owner now duration random index records l).1 = .ok leases
  | [], _, _ => ⟨[], rfl⟩
  | record :: rest, index, l => by
    obtain ⟨entropy, hentropy⟩ := hdraw index
    obtain ⟨leases, hleases⟩ := leaseEach_ok hdraw rest (index + 1)
      (l.setExecution (underLease record owner (hexEncode entropy.1) now duration))
    unfold leaseEach
    rw [hentropy]
    simp only [executionLeaseToken, Except.map]
    split
    · rename_i heq
      rw [heq] at hleases
      cases hleases
    · exact ⟨_, rfl⟩

end

/-! ### Calls -/

theorem putArtifact_inv {ctx : Option Err} {artifact : ExecutionArtifact} {reply : Except Err Unit}
    (h : l.putArtifact ctx artifact = (reply, l')) :
    l' = l ∨ (err? reply = none ∧ l' = { l with artifacts := l.artifacts ++ [artifact] }) := by
  unfold putArtifact storeArtifact at h
  split at h
  · cases h
    exact .inl rfl
  · cases h
    exact .inl rfl
  · split at h
    · split at h <;> cases h <;> exact .inl rfl
    · cases h
      exact .inr ⟨rfl, rfl⟩

theorem setExecutionState_inv {ctx : Option Err} {now : Time} {id : Text} {revision : Nat} {state : ExecutionState}
    {message : Text} {reply : Except Err ExecutionRecord}
    (h : l.setExecutionState ctx now id revision state message = (reply, l')) :
    (l' = l ∧ (err? reply).isSome) ∨ ∃ r, l.execution? id = some r ∧ r.revision = revision ∧
      isTerminalExecutionState r.state = false ∧ r.recoveryToken = [] ∧ err? reply = none ∧
      l' = l.setExecution (stateSet r state message now) := by
  unfold setExecutionState at h
  split at h
  · cases h
    exact .inl ⟨rfl, rfl⟩
  · cases h
    exact .inl ⟨rfl, rfl⟩
  · rename_i r hr
    split at h
    · cases h
      exact .inl ⟨rfl, rfl⟩
    · rename_i hno
      simp only [not_or, not_not, Bool.not_eq_true] at hno
      cases h
      exact .inr ⟨r, hr, hno.1, hno.2.1, hno.2.2, rfl, rfl⟩

theorem renewExecutionLease_inv {ctx : Option Err} {now : Time} {lease : ExecutionLease} {duration : Int}
    {reply : Except Err ExecutionLease} (h : l.renewExecutionLease ctx now lease duration = (reply, l')) :
    (l' = l ∧ (err? reply).isSome) ∨ ∃ r, l.execution? lease.executionID = some r ∧ holdsLease r lease now = true ∧
      isTerminalExecutionState r.state = false ∧ err? reply = none ∧
      l' = l.setExecution (renewedTo r (max r.recoveryDeadline (now + duration))) := by
  unfold renewExecutionLease at h
  split at h
  · cases h
    exact .inl ⟨rfl, rfl⟩
  · split at h
    · cases h
      exact .inl ⟨rfl, rfl⟩
    · split at h
      · cases h
        exact .inl ⟨rfl, rfl⟩
      · rename_i r hr
        split at h
        · rename_i hheld
          simp only [Bool.and_eq_true, Bool.not_eq_eq_eq_not, Bool.not_true] at hheld
          cases h
          exact .inr ⟨r, hr, hheld.1, hheld.2, rfl, rfl⟩
        · cases h
          exact .inl ⟨rfl, rfl⟩

theorem finishExecutionLease_inv {ctx : Option Err} {checkedAt updatedAt : Time} {lease : ExecutionLease}
    {state : ExecutionState} {message : Text} {reply : Except Err Unit}
    (h : l.finishExecutionLease ctx checkedAt updatedAt lease state message = (reply, l')) :
    (l' = l ∧ (err? reply).isSome) ∨ ∃ r, l.execution? lease.executionID = some r ∧ holdsLease r lease checkedAt = true ∧
      err? reply = none ∧ l' = l.setExecution (leaseFinished r state message updatedAt) := by
  unfold finishExecutionLease at h
  split at h
  · cases h
    exact .inl ⟨rfl, rfl⟩
  · cases h
    exact .inl ⟨rfl, rfl⟩
  · rename_i r hr
    split at h
    · rename_i hheld
      cases h
      exact .inr ⟨r, hr, hheld, rfl, rfl⟩
    · cases h
      exact .inl ⟨rfl, rfl⟩

theorem mem_leasable {records : List ExecutionRecord} {now : Time} {limit : Nat}
    (hr : r ∈ ((records.filter (isLeasable now)).insertionSort fun a b => leasesBefore b a = false).take limit) :
    r ∈ records ∧ isTerminalExecutionState r.state = false := by
  have hm := (List.mem_insertionSort _).1 (List.mem_of_mem_take hr)
  obtain ⟨hmem, hlease⟩ := List.mem_filter.1 hm
  simp only [isLeasable, Bool.and_eq_true, Bool.not_eq_eq_eq_not, Bool.not_true] at hlease
  exact ⟨hmem, hlease.1⟩

theorem nodup_leasable {now : Time} {limit : Nat} (hu : Keyed.Unique (·.executionID) l.executions) :
    ((((l.executions.filter (isLeasable now)).insertionSort fun a b => leasesBefore b a = false).take limit).map
      (·.executionID)).Nodup := by
  have hperm := (List.perm_insertionSort (fun a b => leasesBefore b a = false)
    (l.executions.filter (isLeasable now))).map (·.executionID)
  have hnodup := hperm.nodup_iff.2 (hu.sublist (List.filter_sublist.map _))
  exact hnodup.sublist ((List.take_sublist ..).map _)

theorem leaseExecutions_steps {ctx : Option Err} {now : Time} {random : Nat → Except Err Entropy} {owner : Text}
    {limit duration : Int} (hu : Keyed.Unique (·.executionID) l.executions) :
    Relation.ReflTransGen Trans l (l.leaseExecutions ctx now random owner limit duration).2 := by
  unfold leaseExecutions
  split
  · exact .refl
  · split
    · exact .refl
    · refine leaseEach_steps _ _ _ (nodup_leasable hu) fun r hr => ?_
      obtain ⟨hmem, hopen⟩ := mem_leasable hr
      exact ⟨hu.get?_of_mem hmem, hopen⟩

section

variable [Platform]

theorem admitExecution_inv {ctx : Option Err} {now : Time} {admission : DurableAdmission}
    {reply : Except Err (ExecutionRecord × Bool)} (h : l.admitExecution ctx now admission = (reply, l')) :
    (l' = l) ∨ ∃ record, record = admittedRecord admission now ∧ validateDurableAdmission admission = .ok () ∧
      l.execution? record.executionID = none ∧ l.admitted? record.admissionIdentity = none ∧
      reply = .ok (record, true) ∧
      l' = { l with
        executions := l.executions ++ [record]
        byAdmission := l.byAdmission ++ [(record.admissionIdentity, record.executionID)] } := by
  unfold admitExecution at h
  dsimp only at h
  split at h
  · cases h
    exact .inl rfl
  · cases h
    exact .inl rfl
  · rename_i hvalid
    split at h
    · split at h <;> cases h <;> exact .inl rfl
    · split at h <;> cases h <;> exact .inl rfl
    · rename_i hidentity hid
      split at h
      · cases h
        exact .inr ⟨_, rfl, hvalid, hid, hidentity, rfl, rfl⟩
      · cases h
        exact .inl rfl

theorem executionID_ne_nil {admission : DurableAdmission} (h : validateDurableAdmission admission = .ok ()) :
    admission.execution.executionID ≠ [] := by
  intro hnil
  unfold validateDurableAdmission at h
  cases hartifact : validateExecutionArtifact admission.artifact with
  | error err => simp [hartifact, bind, Except.bind] at h
  | ok =>
    have hblank : (Text.trimSpace ([] : Text)) = [] := rfl
    simp [hartifact, bind, Except.bind, blank?, hnil, hblank, throw, throwThe, MonadExceptOf.throw] at h

/-- A call that is no renewal is a chain of writes. -/
theorem after_steps (hu : Keyed.Unique (·.executionID) l.executions) {op : LedgerOp} (hclock : op.ClockSet)
    (hunleased : op.AdmitsUnleased) (hop : op.isRenewal = false) : Relation.ReflTransGen Trans l (l.after op) := by
  have same : ∀ {t : Ledger}, t = l → Relation.ReflTransGen Trans l t := fun h => h ▸ .refl
  cases op with
  | putArtifact ctx artifact =>
    rcases putArtifact_inv (Prod.mk.eta (p := l.putArtifact ctx artifact)).symm with h | ⟨-, h⟩
    · exact same h
    · rw [after, apply]
      exact h ▸ .single .store
  | admitExecution ctx now admission =>
    rcases admitExecution_inv (Prod.mk.eta (p := l.admitExecution ctx now admission)).symm with
      h | ⟨record, hrecord, hvalid, hid, hidentity, -, h⟩
    · exact same h
    · rw [after, apply]
      refine h ▸ .single (.accept ?_ hid hidentity ?_ ?_)
      · rw [hrecord]
        exact executionID_ne_nil hvalid
      · rw [hrecord]
        rfl
      · rw [hrecord]
        exact hunleased
  | setExecutionState ctx now id revision state message =>
    rcases setExecutionState_inv (Prod.mk.eta (p := l.setExecutionState ctx now id revision state message)).symm with
      ⟨h, -⟩ | ⟨r, hr, -, hopen, hfree, -, h⟩
    · exact same h
    · rw [after, apply]
      exact h ▸ .single (.rewrite (id_of_execution? hr ▸ hr) (.set hopen hfree))
  | leaseExecutions ctx now random owner limit duration => exact leaseExecutions_steps hu
  | renewExecutionLease => cases hop
  | finishExecutionLease ctx checkedAt updatedAt lease state message =>
    rcases finishExecutionLease_inv
      (Prod.mk.eta (p := l.finishExecutionLease ctx checkedAt updatedAt lease state message)).symm with
      ⟨h, -⟩ | ⟨r, hr, hheld, -, h⟩
    · exact same h
    · rw [after, apply]
      exact h ▸ .single (.rewrite (id_of_execution? hr ▸ hr) (.finish hheld hclock))

theorem after_renewed {op : LedgerOp} (hclock : op.ClockSet) (hop : op.isRenewal = true) : Renewed l (l.after op) := by
  cases op with
  | renewExecutionLease ctx now lease duration =>
    rcases renewExecutionLease_inv (Prod.mk.eta (p := l.renewExecutionLease ctx now lease duration)).symm with
      ⟨h, -⟩ | ⟨r, hr, hheld, hopen, -, h⟩
    · have hsame : l.after (.renewExecutionLease ctx now lease duration) = l := h
      rw [hsame]
      exact .same
    · rw [after, apply]
      exact h ▸ .moved (id_of_execution? hr ▸ hr) hheld hopen hclock (le_max_left ..)
  | _ => cases hop

end

end Ledger
end Effectus
