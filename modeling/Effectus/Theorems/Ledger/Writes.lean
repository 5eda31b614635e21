import Effectus.Theorems.Ledger.Safety
import Effectus.Go.Reference

/-! Writes against a revision, and leases. A call that names a revision succeeds only while the record has
    it, and leaves a higher one, so a second call with the same revision fails; a lease is the revision its
    grant left, so one granted later puts it out of use. -/

namespace Effectus

/-- The execution and revision a write is issued with. -/
def LedgerOp.write? : LedgerOp → Option (Text × Nat)
  | .setExecutionState _ _ id revision _ _ => some (id, revision)
  | .finishExecutionLease _ _ _ lease _ _ => some (lease.executionID, lease.revision)
  | _ => none

/-- The lease a call is made under, and the clock it is checked against. -/
def LedgerOp.handle? : LedgerOp → Option (ExecutionLease × Time)
  | .renewExecutionLease _ now lease _ => some (lease, now)
  | .finishExecutionLease _ checkedAt _ lease _ _ => some (lease, checkedAt)
  | _ => none

namespace Ledger

variable {l l' : Ledger} {r r' : ExecutionRecord}

/-- The leases a call hands out. -/
def granted (l : Ledger) : LedgerOp → List ExecutionLease
  | .leaseExecutions ctx now random owner limit duration =>
    match (l.leaseExecutions ctx now random owner limit duration).1 with
    | .ok leases => leases
    | .error _ => []
  | _ => []

/-! ### Leases handed out -/

section

variable (owner : Text) (now : Time) (duration : Int) (random : Nat → Except Err Entropy)

/-- A record that is not in the list is left as it is. -/
theorem leaseEach_execution?_of_not_mem {id : Text} : ∀ (records : List ExecutionRecord) (index : Nat) (l : Ledger),
    (∀ r ∈ records, r.executionID ≠ id) →
    (leaseEach owner now duration random index records l).2.execution? id = l.execution? id
  | [], _, _, _ => rfl
  | record :: rest, index, l, hne => by
    have hhead : id ≠ record.executionID := (hne record (List.mem_cons_self ..)).symm
    unfold leaseEach
    split
    · rfl
    · rename_i token _
      have ih := leaseEach_execution?_of_not_mem rest (index + 1)
        (l.setExecution (underLease record owner token now duration)) fun r hr => hne r (List.mem_cons_of_mem _ hr)
      rw [execution?_setExecution_of_ne (r := underLease record owner token now duration) hhead] at ih
      dsimp only
      split
      · rename_i heq
        rw [heq] at ih
        exact ih
      · rename_i heq
        rw [heq] at ih
        exact ih

/-- A lease is for one of the records, at the revision the grant leaves it with. -/
theorem leaseEach_granted {lease : ExecutionLease} :
    ∀ (records : List ExecutionRecord) (index : Nat) (l : Ledger) (leases : List ExecutionLease),
      (records.map (·.executionID)).Nodup → (∀ r ∈ records, l.execution? r.executionID = some r) →
      (leaseEach owner now duration random index records l).1 = .ok leases → lease ∈ leases →
      ∃ r ∈ records, lease.executionID = r.executionID ∧ lease.revision = r.revision + 1 ∧
        ∃ r', (leaseEach owner now duration random index records l).2.execution? r.executionID = some r' ∧
          r'.revision = lease.revision
  | [], _, _, _, _, _, hok, hm => by
    cases hok
    cases hm
  | record :: rest, index, l, leases, hn, hf, hok, hm => by
    obtain ⟨hx, hn⟩ := List.nodup_cons.1 hn
    have hfound := hf record (List.mem_cons_self ..)
    have hnotin : ∀ r ∈ rest, r.executionID ≠ record.executionID := fun r hr he => hx (List.mem_map.2 ⟨r, hr, he⟩)
    unfold leaseEach at hok ⊢
    cases htoken : executionLeaseToken (random index) with
    | error err =>
      rw [htoken] at hok
      cases hok
    | ok token =>
      rw [htoken] at hok
      simp only at hok ⊢
      have hself : (l.setExecution (underLease record owner token now duration)).execution? record.executionID =
          some (underLease record owner token now duration) :=
        Keyed.get?_modify_self hfound fun _ _ _ => rfl
      have hkept := leaseEach_execution?_of_not_mem owner now duration random rest (index + 1)
        (l.setExecution (underLease record owner token now duration)) hnotin
      have ih := @leaseEach_granted lease rest (index + 1) (l.setExecution (underLease record owner token now duration))
      generalize leaseEach owner now duration random (index + 1) rest
        (l.setExecution (underLease record owner token now duration)) = result at hok hkept ih ⊢
      obtain ⟨reply, after⟩ := result
      cases reply with
      | error err => cases hok
      | ok more =>
        cases hok
        rcases List.mem_cons.1 hm with rfl | hm
        · exact ⟨record, List.mem_cons_self .., rfl, rfl, _, hkept.trans hself, rfl⟩
        · obtain ⟨r, hr, hid, hrev, hlast⟩ := ih more hn (fun r hr => by
            rw [execution?_setExecution_of_ne (r := underLease record owner token now duration) (hnotin r hr)]
            exact hf r (List.mem_cons_of_mem _ hr)) rfl hm
          exact ⟨r, List.mem_cons_of_mem _ hr, hid, hrev, hlast⟩

end

section

variable [Platform]

/-- A lease is one revision above its record before the grant, and the record has that revision after. -/
theorem granted_revision (hs : Safe l) {op : LedgerOp} {lease : ExecutionLease} (h : lease ∈ granted l op) :
    ∃ r r', l.execution? lease.executionID = some r ∧ lease.revision = r.revision + 1 ∧
      (l.after op).execution? lease.executionID = some r' ∧ r'.revision = lease.revision := by
  cases op with
  | leaseExecutions ctx now random owner limit duration =>
    simp only [granted] at h
    split at h
    · rename_i leases hok
      show ∃ r r', _ ∧ _ ∧ (l.leaseExecutions ctx now random owner limit duration).2.execution? _ = _ ∧ _
      unfold leaseExecutions at hok ⊢
      split at hok
      · cases hok
      · split at hok
        · cases hok
        · rename_i hok'
          obtain ⟨r, hr, hid, hrev, r', hr', hrev'⟩ := leaseEach_granted owner now duration random _ 0 l leases
            (nodup_leasable hs.ids) (fun r hr => hs.ids.get?_of_mem (mem_leasable hr).1) hok h
          simp only [hok', if_false]
          exact ⟨r, r', hid ▸ hs.ids.get?_of_mem (mem_leasable hr).1, hrev, hid ▸ hr', hrev'⟩
    · cases h
  | _ => cases h

/-! ### Calls that fail -/

theorem after_of_failure {op : LedgerOp} (hdraw : op.DrawsTokens) (h : (l.failure? op).isSome) : l.after op = l := by
  cases op with
  | putArtifact ctx artifact =>
    rcases putArtifact_inv (Prod.mk.eta (p := l.putArtifact ctx artifact)).symm with hsame | ⟨hok, -⟩
    · exact hsame
    · simp [failure?, apply, hok] at h
  | admitExecution ctx now admission =>
    rcases admitExecution_inv (Prod.mk.eta (p := l.admitExecution ctx now admission)).symm with
      hsame | ⟨_, _, _, _, _, hok, _⟩
    · exact hsame
    · simp [failure?, apply, hok, err?] at h
  | setExecutionState ctx now id revision state message =>
    rcases setExecutionState_inv (Prod.mk.eta (p := l.setExecutionState ctx now id revision state message)).symm with
      ⟨hsame, -⟩ | ⟨_, _, _, _, _, hok, _⟩
    · exact hsame
    · simp [failure?, apply, hok] at h
  | leaseExecutions ctx now random owner limit duration =>
    show (l.leaseExecutions ctx now random owner limit duration).2 = l
    simp only [failure?, apply, Prod.map] at h
    unfold leaseExecutions at h ⊢
    split
    · rfl
    · split
      · rfl
      · rename_i hargs
        have hok : ∀ records, ∃ leases, (leaseEach owner now duration random 0 records l).1 = .ok leases :=
          fun records => leaseEach_ok hdraw records 0 l
        obtain ⟨leases, hok⟩ := hok
          (((l.executions.filter (isLeasable now)).insertionSort fun a b => leasesBefore b a = false).take limit.toNat)
        simp [hargs, hok, err?] at h
  | renewExecutionLease ctx now lease duration =>
    rcases renewExecutionLease_inv (Prod.mk.eta (p := l.renewExecutionLease ctx now lease duration)).symm with
      ⟨hsame, -⟩ | ⟨_, _, _, _, hok, _⟩
    · exact hsame
    · simp [failure?, apply, hok] at h
  | finishExecutionLease ctx checkedAt updatedAt lease state message =>
    rcases finishExecutionLease_inv
      (Prod.mk.eta (p := l.finishExecutionLease ctx checkedAt updatedAt lease state message)).symm with
      ⟨hsame, -⟩ | ⟨_, _, _, hok, _⟩
    · exact hsame
    · simp [failure?, apply, hok] at h

/-- A write that succeeds finds the revision it names and leaves a higher one. -/
theorem write_revision {op : LedgerOp} {id : Text} {revision : Nat} (hw : op.write? = some (id, revision))
    (hclock : op.ClockSet) (h : l.failure? op = none) :
    ∃ r r', l.execution? id = some r ∧ r.revision = revision ∧
      (l.after op).execution? id = some r' ∧ revision < r'.revision := by
  have key : ∀ {r r' : ExecutionRecord}, l.execution? id = some r → Rewrite r r' →
      (l.setExecution r').execution? id = some r' := by
    intro r r' hr hrewrite
    have hid : r'.executionID = id := hrewrite.executionID.trans (id_of_execution? hr)
    rw [← hid] at hr ⊢
    exact Keyed.get?_modify_self hr fun _ _ _ => rfl
  cases op with
  | setExecutionState ctx now execution rev state message =>
    cases hw
    rcases setExecutionState_inv (Prod.mk.eta (p := l.setExecutionState ctx now id revision state message)).symm with
      ⟨-, herr⟩ | ⟨r, hr, hrev, hopen, hfree, -, hafter⟩
    · rw [failure?, apply, Prod.map] at h
      simp only at h
      simp [h] at herr
    · have hrewrite : Rewrite r (stateSet r state message now) := .set hopen hfree
      refine ⟨r, _, hr, hrev, ?_, by rw [hrewrite.revision, hrev]; exact Nat.lt_succ_self _⟩
      show (l.setExecutionState ctx now id revision state message).2.execution? id = _
      rw [hafter]
      exact key hr hrewrite
  | finishExecutionLease ctx checkedAt updatedAt lease state message =>
    cases hw
    rcases finishExecutionLease_inv
      (Prod.mk.eta (p := l.finishExecutionLease ctx checkedAt updatedAt lease state message)).symm with
      ⟨-, herr⟩ | ⟨r, hr, hheld, -, hafter⟩
    · rw [failure?, apply, Prod.map] at h
      simp only at h
      simp [h] at herr
    · have hrewrite : Rewrite r (leaseFinished r state message updatedAt) := .finish hheld hclock
      have hrev : r.revision = lease.revision := by
        simp only [holdsLease, decide_eq_true_eq] at hheld
        exact hheld.2.2.1
      refine ⟨r, _, hr, hrev, ?_, by rw [hrewrite.revision, hrev]; exact Nat.lt_succ_self _⟩
      show (l.finishExecutionLease ctx checkedAt updatedAt lease state message).2.execution? lease.executionID = _
      rw [hafter]
      exact key hr hrewrite
  | _ => cases hw

/-- A call under a lease succeeds only while the record is under that lease and its deadline has not passed. -/
theorem handle_current {op : LedgerOp} {lease : ExecutionLease} {now : Time} (hh : op.handle? = some (lease, now))
    (h : l.failure? op = none) : ∃ r, l.execution? lease.executionID = some r ∧ holdsLease r lease now = true := by
  cases op with
  | renewExecutionLease ctx clock handle duration =>
    cases hh
    rcases renewExecutionLease_inv (Prod.mk.eta (p := l.renewExecutionLease ctx now lease duration)).symm with
      ⟨-, herr⟩ | ⟨r, hr, hheld, -, -, -⟩
    · rw [failure?, apply, Prod.map] at h
      simp only at h
      simp [h] at herr
    · exact ⟨r, hr, hheld⟩
  | finishExecutionLease ctx checkedAt updatedAt handle state message =>
    cases hh
    rcases finishExecutionLease_inv
      (Prod.mk.eta (p := l.finishExecutionLease ctx now updatedAt lease state message)).symm with
      ⟨-, herr⟩ | ⟨r, hr, hheld, -, -⟩
    · rw [failure?, apply, Prod.map] at h
      simp only at h
      simp [h] at herr
    · exact ⟨r, hr, hheld⟩
  | _ => cases hh

end

/-! ### Whole runs -/

/-- What one call does to each record: it keeps its identity, it does not touch a terminal one, and a change
raises the revision unless it is a renewal, which only moves the deadline back. -/
def StepSafe (l : Ledger) (renewal : Bool) (l' : Ledger) : Prop :=
  ∀ r ∈ l.executions, ∃ r' ∈ l'.executions, SameIdentity r r' ∧
    (isTerminalExecutionState r.state = true → r' = r) ∧
    (r' = r ∨ r.revision < r'.revision ∨
      (renewal = true ∧ ∃ deadline, r.recoveryDeadline ≤ deadline ∧ r' = renewedTo r deadline))

section

variable [Platform]

theorem after_stepSafe (hs : Safe l) {op : LedgerOp} (hclock : op.ClockSet) (hunleased : op.AdmitsUnleased) :
    StepSafe l op.isRenewal (l.after op) := by
  intro r hr
  cases hop : op.isRenewal with
  | true =>
    obtain ⟨deadline, hle, hmem, hterm⟩ := (after_renewed (l := l) hclock hop).prolongs hs r hr
    refine ⟨_, hmem, ⟨rfl, rfl, rfl, ⟨rfl, rfl, rfl, rfl⟩, rfl, rfl, rfl⟩, fun ht => ?_, ?_⟩
    · rw [hterm ht]
      rfl
    · exact .inr (.inr ⟨rfl, deadline, hle, rfl⟩)
  | false =>
    obtain ⟨-, hevolves⟩ := evolves_of_steps (after_steps hs.ids hclock hunleased hop) hs
    obtain ⟨r', hr', hsame, rfl | ⟨hlt, hopen⟩⟩ := hevolves r hr
    · exact ⟨r', hr', hsame, fun _ => rfl, .inl rfl⟩
    · refine ⟨r', hr', hsame, fun ht => ?_, .inr (.inl hlt)⟩
      rw [hopen] at ht
      cases ht

/-- Of two writes with one execution and revision, the second fails once the first succeeded. -/
theorem second_write_fails {ops : List LedgerOp} {x y : LedgerOp} (hs : Safe l) (hx : Proper [x]) (hy : Proper [y])
    (hops : Proper ops) {id : Text} {revision : Nat} (hwx : x.write? = some (id, revision))
    (hwy : y.write? = some (id, revision)) (h : l.failure? x = none) : (((l.after x).run ops).failure? y).isSome := by
  have hprop : ∀ {z : LedgerOp}, Proper [z] → z.ClockSet ∧ z.AdmitsUnleased := fun hz => hz _ (List.mem_singleton_self _)
  obtain ⟨-, r', -, -, hr', hlt⟩ := write_revision hwx (hprop hx).1 h
  obtain ⟨hsx, -⟩ := after_safe hs (hprop hx).1 (hprop hx).2
  obtain ⟨hsafe, hgrows⟩ := run_safe hsx hops
  cases hy' : ((l.after x).run ops).failure? y with
  | some err => rfl
  | none =>
    obtain ⟨s, -, hfound, hrev, -⟩ := write_revision hwy (hprop hy).1 hy'
    have hle := hgrows.revision_le hsafe hr' hfound
    omega

/-- A lease is of no use once its execution was leased again. -/
theorem released_lease_fails {between later : List LedgerOp} {x y z : LedgerOp} (hs : Safe l) (hx : Proper [x])
    (hbetween : Proper between) (hy : Proper [y]) (hlater : Proper later) {lease next held : ExecutionLease} {now : Time}
    (hlease : lease ∈ granted l x) (hnext : next ∈ granted ((l.after x).run between) y)
    (hid : next.executionID = lease.executionID) (hheld : z.handle? = some (held, now))
    (heid : held.executionID = lease.executionID) (herev : held.revision = lease.revision) :
    (((((l.after x).run between).after y).run later).failure? z).isSome := by
  have hprop : ∀ {z : LedgerOp}, Proper [z] → z.ClockSet ∧ z.AdmitsUnleased := fun hz => hz _ (List.mem_singleton_self _)
  obtain ⟨-, r₁, -, -, hr₁, hrev₁⟩ := granted_revision hs hlease
  obtain ⟨hsx, -⟩ := after_safe hs (hprop hx).1 (hprop hx).2
  obtain ⟨hsb, hgb⟩ := run_safe hsx hbetween
  obtain ⟨r₂, r₃, hr₂, hrev₂, hr₃, hrev₃⟩ := granted_revision hsb hnext
  obtain ⟨hsy, -⟩ := after_safe hsb (hprop hy).1 (hprop hy).2
  obtain ⟨hsl, hgl⟩ := run_safe hsy hlater
  cases hz : ((((l.after x).run between).after y).run later).failure? z with
  | some err => rfl
  | none =>
    obtain ⟨r₄, hr₄, hcurrent⟩ := handle_current hheld hz
    simp only [holdsLease, decide_eq_true_eq] at hcurrent
    rw [hid] at hr₂ hr₃
    rw [heid] at hr₄
    have hle₁ := hgb.revision_le hsb hr₁ hr₂
    have hle₂ := hgl.revision_le hsl hr₃ hr₄
    have hrev₄ := hcurrent.2.2.1
    omega

theorem run_ledger_safety (ops : List LedgerOp) (hclock : ∀ op ∈ ops, op.ClockSet) (hdraw : ∀ op ∈ ops, op.DrawsTokens)
    (hunleased : ∀ op ∈ ops, op.AdmitsUnleased) :
    -- Identities and IDs correspond one to one, and a leased execution is not terminal.
    ((∀ identity id, (identity, id) ∈ (empty.run ops).byAdmission ↔
        ∃ r ∈ (empty.run ops).executions, r.admissionIdentity = identity ∧ r.executionID = id) ∧
      Keyed.Unique (·.executionID) (empty.run ops).executions ∧ Keyed.Unique Prod.fst (empty.run ops).byAdmission ∧
      Keyed.Unique (·.admissionIdentity) (empty.run ops).executions) ∧
    (∀ r ∈ (empty.run ops).executions, r.recoveryToken ≠ [] → isTerminalExecutionState r.state = false) ∧
    -- From then on identities and terminal records stay.
    (∀ before after, ops = before ++ after → ∀ r ∈ (empty.run before).executions,
      ∃ r' ∈ (empty.run ops).executions, SameIdentity r r' ∧ (isTerminalExecutionState r.state = true → r' = r)) ∧
    -- One call: what it may change, what its failure leaves, and when it holds a lease.
    (∀ before op after, ops = before ++ op :: after →
      StepSafe (empty.run before) op.isRenewal ((empty.run before).after op) ∧
      (((empty.run before).failure? op).isSome → (empty.run before).after op = empty.run before) ∧
      ∀ lease now, op.handle? = some (lease, now) → (empty.run before).failure? op = none →
        ∃ r, (empty.run before).execution? lease.executionID = some r ∧ r.recoveryOwner = lease.owner ∧
          r.recoveryToken = lease.token ∧ r.revision = lease.revision ∧ now < r.recoveryDeadline) ∧
    -- Two writes with one execution and revision.
    (∀ before x between y after, ops = before ++ x :: (between ++ y :: after) →
      ∀ id revision, x.write? = some (id, revision) → y.write? = some (id, revision) →
        ((empty.run before).failure? x).isSome ∨ ((((empty.run before).after x).run between).failure? y).isSome) ∧
    -- A lease whose execution was leased again.
    (∀ before x between y later z after, ops = before ++ x :: (between ++ y :: (later ++ z :: after)) →
      ∀ lease ∈ granted (empty.run before) x, ∀ next ∈ granted (((empty.run before).after x).run between) y,
        next.executionID = lease.executionID →
        ∀ held now, z.handle? = some (held, now) → held.executionID = lease.executionID → held.revision = lease.revision →
          (((((((empty.run before).after x).run between).after y).run later)).failure? z).isSome) := by
  have hproper : Proper ops := fun op hop => ⟨hclock op hop, hunleased op hop⟩
  obtain ⟨hsafe, -⟩ := run_safe safe_empty hproper
  refine ⟨⟨hsafe.paired, hsafe.ids, hsafe.identities, ?_⟩, fun r hr hne => (hsafe.settled r hr).not_terminal hne, ?_, ?_, ?_, ?_⟩
  · refine hsafe.ids.of_key fun r hr r' hr' he => ?_
    have hr := (hsafe.paired _ _).2 ⟨r, hr, rfl, rfl⟩
    have hr' := (hsafe.paired _ _).2 ⟨r', hr', rfl, rfl⟩
    exact congrArg Prod.snd (hsafe.identities.eq_of_key hr hr' he)
  · rintro before after rfl r hr
    obtain ⟨hbefore, hafter⟩ := hproper.append
    obtain ⟨hs, -⟩ := run_safe safe_empty hbefore
    obtain ⟨-, hgrows⟩ := run_safe hs hafter
    obtain ⟨r', hr', hsame, -, hterm⟩ := hgrows r hr
    rw [run_append]
    exact ⟨r', hr', hsame, hterm⟩
  · rintro before op after rfl
    obtain ⟨hbefore, hafter⟩ := hproper.append
    obtain ⟨hs, -⟩ := run_safe safe_empty hbefore
    obtain ⟨hc, ha⟩ := hafter op (List.mem_cons_self ..)
    have hd := hdraw op (List.mem_append_right _ (List.mem_cons_self ..))
    refine ⟨after_stepSafe hs hc ha, after_of_failure hd, fun lease now hhandle hok => ?_⟩
    obtain ⟨r, hr, hheld⟩ := handle_current hhandle hok
    simp only [holdsLease, decide_eq_true_eq] at hheld
    exact ⟨r, hr, hheld⟩
  · rintro before x between y after rfl id revision hwx hwy
    obtain ⟨hbefore, hrest⟩ := hproper.append
    obtain ⟨hx, hrest⟩ := hrest.cons
    obtain ⟨hbetween, hrest⟩ := hrest.append
    obtain ⟨hy, -⟩ := hrest.cons
    obtain ⟨hs, -⟩ := run_safe safe_empty hbefore
    cases hfail : (empty.run before).failure? x with
    | some err => exact .inl rfl
    | none => exact .inr (second_write_fails hs hx hy hbetween hwx hwy hfail)
  · rintro before x between y later z after rfl lease hlease next hnext hid held now hheld heid herev
    obtain ⟨hbefore, hrest⟩ := hproper.append
    obtain ⟨hx, hrest⟩ := hrest.cons
    obtain ⟨hbetween, hrest⟩ := hrest.append
    obtain ⟨hy, hrest⟩ := hrest.cons
    obtain ⟨hlater, -⟩ := hrest.append
    obtain ⟨hs, -⟩ := run_safe safe_empty hbefore
    exact released_lease_fails hs hx hbetween hy hlater hlease hnext hid hheld heid herev

end

/-! ### Instances -/

section

attribute [local instance] reference

/-- The empty environment. -/
def sampleArtifact : ExecutionArtifact where
  generationDigest := "generation"
  irDigest := "ir"
  irBytes := "bytes"
  environment := "\x7b\x7d"
  executorManifest := "[]"
  functionManifest := "\x7b\"ruleset\":\"orders\",\"version\":\"1\"\x7d"
  sourceDigest := "source"
  compilerMetadata := "null"

/-- An admission without plans, with a recovery deadline of the caller's. -/
def sampleAdmission (deadline : Time) : DurableAdmission where
  artifact := sampleArtifact
  execution := {
    executionID := "execution", admissionIdentity := "delivery", requestHash := "payload", ruleset := "orders"
    version := "1", tenantNamespace := "tenant", mergePolicy := "merge", generationDigest := "generation"
    effectiveFacts := "null", state := .admitting, revision := 0, recoveryOwner := [], recoveryToken := []
    recoveryDeadline := deadline, lastError := [], updatedAt := 0, plans := [] }
  factApplication := ⟨"execution", "delivery", "merge", "null", 1⟩
  plans := []
  sagas := []
  initialSteps := []

def sampleEntropy : Entropy := ⟨List.replicate 16 7, rfl⟩

/-- Admit, lease for recovery, finish as completed, and try to write again. -/
def sampleRun : List LedgerOp :=
  [.putArtifact none sampleArtifact, .admitExecution none 1 (sampleAdmission 0),
    .leaseExecutions none 2 (fun _ => .ok sampleEntropy) "worker" 1 10,
    .finishExecutionLease none 3 3 ⟨"execution", "worker", hexEncode sampleEntropy.1, 12, 2⟩ .completed [],
    .setExecutionState none 4 "execution" 3 .failed []]

theorem run_ledger_safety_sample :
    (∃ r ∈ (empty.run (sampleRun.take 4)).executions, isTerminalExecutionState r.state = true) ∧
      ∀ r ∈ (empty.run (sampleRun.take 4)).executions, isTerminalExecutionState r.state = true →
        ∃ r' ∈ (empty.run sampleRun).executions, r' = r := by
  have hclock : ∀ op ∈ sampleRun, op.ClockSet := by simp [sampleRun, LedgerOp.ClockSet]
  have hdraw : ∀ op ∈ sampleRun, op.DrawsTokens := by simp [sampleRun, LedgerOp.DrawsTokens, sampleEntropy]
  have hunleased : ∀ op ∈ sampleRun, op.AdmitsUnleased := by simp [sampleRun, LedgerOp.AdmitsUnleased, sampleAdmission]
  refine ⟨by decide +kernel, fun r hr hterm => ?_⟩
  obtain ⟨-, -, hstays, -⟩ := run_ledger_safety sampleRun hclock hdraw hunleased
  obtain ⟨r', hr', -, hsame⟩ := hstays (sampleRun.take 4) (sampleRun.drop 4) (List.take_append_drop ..).symm r hr
  exact ⟨r', hr', hsame hterm⟩

/-- Admit with a deadline and no token, complete, and finish a lease that was never granted. -/
def openedRun : List LedgerOp :=
  [.putArtifact none sampleArtifact, .admitExecution none 1 (sampleAdmission 100),
    .setExecutionState none 2 "execution" 1 .completed [],
    .finishExecutionLease none 3 3 ⟨"execution", [], [], 100, 2⟩ .failed []]

theorem terminal_record_reopened :
    (∀ op ∈ openedRun, op.ClockSet ∧ op.DrawsTokens) ∧
      ((empty.run (openedRun.take 3)).execution? "execution").map (·.state) = some .completed ∧
      ((empty.run openedRun).execution? "execution").map (·.state) = some .failed := by
  refine ⟨?_, by decide +kernel, by decide +kernel⟩
  simp [openedRun, LedgerOp.ClockSet, LedgerOp.DrawsTokens]

end

end Ledger
end Effectus
