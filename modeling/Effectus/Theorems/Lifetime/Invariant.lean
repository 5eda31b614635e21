import Effectus.Runtime.Lifetime

/-!
Generations from the past live as long as they are used. Users are counted by the calls that joined an entry and have not
left it, and every generation the resolver returned is at any time in one place: with the call that resolved it, in an entry
that is in use, with the call that closes it, or among the closed ones.
-/

namespace Effectus.Lifetime

open Shared

/-! ### What a call has -/

namespace Work

/-- The entry of a generation that the call uses or waits for. -/
def entries : Work → Multiset (Text × Nat)
  | .resolving digest entry | .rejecting digest entry _ _ | .publishing digest entry _ _ | .awaiting digest entry
  | .holding digest entry _ | .dropping digest entry _ => {(digest, entry)}
  | _ => 0

/-- The entry that the call has to fill. -/
def leads : Work → Multiset Nat
  | .resolving _ entry | .rejecting _ entry _ _ | .publishing _ entry _ _ => {entry}
  | _ => 0

/-- The generation that is with the call alone. -/
def carries : Work → Multiset Nat
  | .rejecting _ _ generation _ | .publishing _ _ (some generation) _ | .closing generation => {generation}
  | _ => 0

/-- The call received this generation from the entry and its release has not run. -/
def Received : Work → Nat → Nat → Prop
  | .holding _ entry generation, n, g => entry = n ∧ generation = some g
  | .dropping _ entry generation, n, g => entry = n ∧ generation = some g
  | _, _, _ => False

/-- There is a generation to publish, or an error. -/
def Judged : Work → Prop
  | .publishing _ _ generation err => (generation.isSome ↔ err = none)
  | .holding _ _ generation => generation.isSome
  | _ => True

end Work

namespace Phase

/-- What a call has because of its work. -/
def during {M : Type} [Zero M] (f : Work → M) : Phase → M
  | .inside _ work => f work
  | _ => 0

def gates (id : Text) : Phase → Multiset (Text × Nat)
  | .waiting gate | .inside gate _ | .leaving gate => {(id, gate)}
  | _ => 0

def permits : Phase → Multiset Nat
  | .inside gate _ => {gate}
  | _ => 0

def isInside : Phase → Bool
  | .inside _ _ => true
  | _ => false

/-- Whether the engine waits for the call when it is closed. -/
def active : Phase → Nat
  | .called | .returned => 0
  | _ => 1

end Phase

namespace Call

def gates (call : Call) : Multiset (Text × Nat) := call.phase.gates call.id

def permits (call : Call) : Multiset Nat := call.phase.permits

def active (call : Call) : Nat := call.phase.active

def entries (call : Call) : Multiset (Text × Nat) := call.phase.during Work.entries

def leads (call : Call) : Multiset Nat := call.phase.during Work.leads

def carries (call : Call) : Multiset Nat := call.phase.during Work.carries

/-- The call is past `beginExecution`, at this work. -/
def At (call : Call) (work : Work) : Prop := ∃ gate, call.phase = .inside gate work

end Call

/-! ### Invariants -/

/-- Calls at gates: their users are counted, and who is inside has the permit. -/
structure Gates (s : State) : Prop where
  counts : Counts s.executions (total Call.gates s.calls)
  permit : ∀ n gate, s.executions.value? n = some gate →
    (total Call.permits s.calls).count n = if gate.permit then 1 else 0
  active : s.active = total Call.active s.calls

/-- An entry is filled once it is ready: with a generation, or with an error. -/
def HistoricalGeneration.Sound (entry : HistoricalGeneration) : Prop :=
  if entry.ready then (entry.generation.isSome ↔ entry.err = none) else entry.generation = none

/-- Calls at entries: their users are counted, and an entry that is not ready has one call to fill it. -/
structure Entries (s : State) : Prop where
  counts : Counts s.historical (total Call.entries s.calls)
  leader : ∀ n entry, s.historical.value? n = some entry →
    (total Call.leads s.calls).count n = if entry.ready then 0 else 1
  sound : ∀ n entry, s.historical.value? n = some entry → entry.Sound
  judged : ∀ call ∈ s.calls, ∀ work, call.At work → work.Judged
  received : ∀ call ∈ s.calls, ∀ work, call.At work → ∀ n g, work.Received n g →
    s.historical.value? n = some ⟨true, some g, none⟩

def HistoricalGeneration.keeps (entry : HistoricalGeneration) : Multiset Nat := entry.generation.toList

/-- Every generation is in one place. -/
structure Owned (engine : EngineConfig) (s : State) : Prop where
  places : (↑(s.returned ++ if s.closing = .finished then [engine.generation] else []) : Multiset Nat) =
    ↑s.closes + total Call.carries s.calls + s.historical.weigh HistoricalGeneration.keeps
  nodup : s.returned.Nodup
  fresh : engine.generation ∉ s.returned

/-- How far `Engine.Close` is. -/
structure Stops (engine : EngineConfig) (s : State) : Prop where
  closed : s.closed = false ↔ s.closing = .before
  idle : s.closing = .drained ∨ s.closing = .finished → s.active = 0
  last : s.closing = .finished → ∃ closes, s.closes = closes ++ [engine.generation]

structure Inv (engine : EngineConfig) (s : State) : Prop where
  gates : Gates s
  entries : Entries s
  owned : Owned engine s
  stops : Stops engine s

theorem inv_start (engine : EngineConfig) : Inv engine .start where
  gates := ⟨.start, nofun, rfl⟩
  entries := ⟨.start, nofun, nofun, nofun, nofun⟩
  owned := ⟨rfl, .nil, List.not_mem_nil⟩
  stops := ⟨⟨fun _ => rfl, fun _ => rfl⟩, nofun, nofun⟩

/-! ### One call moves -/

section

variable {engine : EngineConfig} {s s' : State} {i : Nat} {call call' : Call}

/-- A call moves and keeps its gate. -/
theorem Gates.move (h : Gates s) (hi : s.calls[i]? = some call) (hcalls : s'.calls = s.calls.set i call')
    (hexecutions : s'.executions = s.executions) (hactive : s'.active = s.active) (hgates : call'.gates = call.gates)
    (hpermits : call'.permits = call.permits) (hweight : call'.active = call.active) : Gates s' where
  counts := by
    rw [hexecutions, hcalls, total_set_eq _ hi hgates]
    exact h.counts
  permit n gate hn := by
    rw [hexecutions] at hn
    rw [hcalls, total_set_eq _ hi hpermits]
    exact h.permit n gate hn
  active := by
    rw [hactive, hcalls, total_set_eq _ hi hweight]
    exact h.active

theorem forall_set {P : Call → Prop} (h : ∀ call ∈ s.calls, P call) (hcall : P call') :
    ∀ call ∈ s.calls.set i call', P call := by
  intro c hc
  rcases List.mem_or_eq_of_mem_set hc with hc | rfl
  · exact h c hc
  · exact hcall

/-- A call moves and keeps its entry. -/
theorem Entries.move (h : Entries s) (hi : s.calls[i]? = some call) (hcalls : s'.calls = s.calls.set i call')
    (hhistorical : s'.historical = s.historical) (hentries : call'.entries = call.entries)
    (hleads : call'.leads = call.leads) (hjudged : ∀ work, call'.At work → work.Judged)
    (hreceived : ∀ work, call'.At work → ∀ n g, work.Received n g → s.historical.value? n = some ⟨true, some g, none⟩) :
    Entries s' where
  counts := by
    rw [hhistorical, hcalls, total_set_eq _ hi hentries]
    exact h.counts
  leader n entry hn := by
    rw [hhistorical] at hn
    rw [hcalls, total_set_eq _ hi hleads]
    exact h.leader n entry hn
  sound := by
    rw [hhistorical]
    exact h.sound
  judged := by
    rw [hcalls]
    exact forall_set h.judged hjudged
  received := by
    rw [hcalls, hhistorical]
    exact forall_set h.received hreceived

/-- A call moves and keeps what it carries. -/
theorem Owned.move (h : Owned engine s) (hi : s.calls[i]? = some call) (hcalls : s'.calls = s.calls.set i call')
    (hhistorical : s'.historical.weigh HistoricalGeneration.keeps = s.historical.weigh HistoricalGeneration.keeps)
    (hreturned : s'.returned = s.returned) (hclosing : s'.closing = s.closing) (hcloses : s'.closes = s.closes)
    (hcarries : call'.carries = call.carries) : Owned engine s' where
  places := by
    rw [hreturned, hclosing, hcloses, hcalls, total_set_eq _ hi hcarries, hhistorical]
    exact h.places
  nodup := hreturned ▸ h.nodup
  fresh := hreturned ▸ h.fresh

/-! ### At the gates -/

/-- Who has a permit uses the gate. -/
theorem gates_of_permits {calls : List Call} {n : Nat} (h : n ∈ total Call.permits calls) :
    ∃ id, (id, n) ∈ total Call.gates calls := by
  obtain ⟨call, hcall, hn⟩ := mem_total.1 h
  refine ⟨call.id, mem_total.2 ⟨call, hcall, ?_⟩⟩
  unfold Call.permits at hn
  unfold Call.gates
  cases hphase : call.phase with
  | inside gate work =>
    rw [hphase] at hn
    simp only [Phase.permits, Multiset.mem_singleton] at hn
    simp [Phase.gates, hn]
  | called | waiting | leaving | counted | returned =>
    rw [hphase] at hn
    exact absurd hn (Multiset.notMem_zero _)

theorem Gates.begin (h : Gates s) (hi : s.calls[i]? = some call) (hphase : call.phase = .called)
    (hexecutions : s'.executions = (s.executions.join call.id ⟨false⟩).2) (hactive : s'.active = s.active + 1)
    (hcalls : s'.calls = s.calls.set i { call with phase := .waiting (s.executions.join call.id ⟨false⟩).1 }) :
    Gates s' where
  counts := by
    rw [hcalls, hexecutions, total_set_gain hi (by rw [Call.gates, hphase]; rfl)]
    exact h.counts.join call.id ⟨false⟩
  permit n gate hn := by
    rw [hcalls, total_set_eq _ hi (by simp [Call.permits, hphase, Phase.permits])]
    rw [hexecutions, Table.value?_join] at hn
    split at hn
    · rename_i hnew
      cases hn
      rw [if_neg (by simp), Multiset.count_eq_zero]
      intro hmem
      obtain ⟨id, hid⟩ := gates_of_permits hmem
      exact absurd hnew.2 (h.counts.made id n hid).ne
    · exact h.permit n gate hn
  active := by
    rw [hactive, hcalls, h.active, total_set_gain hi (by rw [Call.active, hphase]; rfl), add_comm]
    rfl

/-- A call takes the permit of its gate, or gives it back. -/
theorem Gates.pass (h : Gates s) (hi : s.calls[i]? = some call) (hcalls : s'.calls = s.calls.set i call') {gate : Nat}
    {before after : Bool} (hgate : call.gates = {(call.id, gate)})
    (hbefore : s.executions.value? gate = some ⟨before⟩) (hexecutions : s'.executions = s.executions.put gate ⟨after⟩)
    (hactive : s'.active = s.active) (hgates : call'.gates = call.gates) (hweight : call'.active = call.active)
    (hpermits : ∀ n, call'.permits.count n + (if n = gate ∧ before then 1 else 0) =
      call.permits.count n + if n = gate ∧ after then 1 else 0) : Gates s' where
  counts := by
    rw [hexecutions, hcalls, total_set_eq _ hi hgates]
    exact h.counts.put ..
  permit n permit hn := by
    have hall := congrArg (Multiset.count n) (total_set Call.permits hi call')
    rw [Multiset.count_add, Multiset.count_add, ← hcalls] at hall
    have hmem : (call.id, gate) ∈ total Call.gates s.calls := mem_total.2 ⟨call, List.mem_of_getElem? hi, by simp [hgate]⟩
    rw [hexecutions, Table.value?_put (h.counts.made _ _ hmem)] at hn
    have hstep := hpermits n
    split at hn
    · rename_i heq
      subst heq
      cases hn
      have hold := h.permit gate _ hbefore
      simp only [true_and] at hstep hold ⊢
      omega
    · rename_i hne
      have hold := h.permit n permit hn
      simp only [Ne.symm hne, false_and, if_false] at hstep
      omega
  active := by
    rw [hactive, hcalls, total_set_eq _ hi hweight]
    exact h.active

/-- Who is inside has the permit of its gate. -/
theorem Gates.taken (h : Gates s) (hi : s.calls[i]? = some call) {gate : Nat} {work : Work}
    (hphase : call.phase = .inside gate work) : ∃ permit, s.executions.value? gate = some ⟨permit⟩ ∧ permit = true := by
  have hmem := List.mem_of_getElem? hi
  have hgate : (call.id, gate) ∈ total Call.gates s.calls :=
    mem_total.2 ⟨call, hmem, by simp [Call.gates, hphase, Phase.gates]⟩
  have hpermit : gate ∈ total Call.permits s.calls :=
    mem_total.2 ⟨call, hmem, by simp [Call.permits, hphase, Phase.permits]⟩
  obtain ⟨e, he, -⟩ := h.counts.entry hgate
  refine ⟨e.value.permit, Table.value?_eq he, ?_⟩
  have hcount := h.permit gate _ (Table.value?_eq he)
  have hpos := Multiset.count_pos.2 hpermit
  by_contra hfree
  rw [if_neg hfree] at hcount
  omega

theorem Gates.leave (h : Gates s) (hi : s.calls[i]? = some call) {gate : Nat} (hphase : call.phase = .leaving gate)
    (hcalls : s'.calls = s.calls.set i { call with phase := .counted })
    (hexecutions : s'.executions = (s.executions.leave call.id gate).2) (hactive : s'.active = s.active) : Gates s' where
  counts := by
    have hall := h.counts
    rw [total_set_loss hi (show Call.gates { call with phase := .counted } = 0 from rfl), Call.gates, hphase] at hall
    rw [hcalls, hexecutions]
    exact (Counts.leave hall).1
  permit n permit hn := by
    rw [hexecutions, Table.value?_leave] at hn
    rw [hcalls, total_set_eq _ hi (by simp [Call.permits, hphase, Phase.permits])]
    exact h.permit n permit hn
  active := by
    rw [hactive, hcalls, total_set_eq _ hi (by simp [Call.active, hphase, Phase.active])]
    exact h.active

theorem Gates.returns (h : Gates s) (hi : s.calls[i]? = some call) (hphase : call.phase = .counted)
    (hcalls : s'.calls = s.calls.set i { call with phase := .returned }) (hexecutions : s'.executions = s.executions)
    (hactive : s'.active = s.active - 1) : Gates s' where
  counts := by
    rw [hexecutions, hcalls, total_set_eq _ hi (by simp [Call.gates, hphase, Phase.gates])]
    exact h.counts
  permit n permit hn := by
    rw [hexecutions] at hn
    rw [hcalls, total_set_eq _ hi (by simp [Call.permits, hphase, Phase.permits])]
    exact h.permit n permit hn
  active := by
    rw [hactive, hcalls, h.active, total_set_loss hi (show Call.active { call with phase := .returned } = 0 from rfl),
      Call.active, hphase]
    exact Nat.add_sub_cancel_left ..

/-! ### At the entries -/

/-- Who has to fill an entry uses it. -/
theorem entries_of_leads {calls : List Call} {n : Nat} (h : n ∈ total Call.leads calls) :
    ∃ digest, (digest, n) ∈ total Call.entries calls := by
  obtain ⟨call, hcall, hn⟩ := mem_total.1 h
  suffices hall : ∃ digest, (digest, n) ∈ call.entries from
    hall.imp fun digest hdigest => mem_total.2 ⟨call, hcall, hdigest⟩
  unfold Call.leads at hn
  unfold Call.entries
  cases hphase : call.phase with
  | inside gate work =>
    rw [hphase] at hn
    cases work with
    | resolving digest entry | rejecting digest entry | publishing digest entry =>
      cases Multiset.mem_singleton.1 hn
      exact ⟨digest, Multiset.mem_singleton_self _⟩
    | loading | joining | awaiting | holding | dropping | closing | done => exact absurd hn (Multiset.notMem_zero _)
  | called | waiting | leaving | counted | returned =>
    rw [hphase] at hn
    exact absurd hn (Multiset.notMem_zero _)

variable {gate : Nat} {work work' : Work}

theorem at_work {call : Call} {gate : Nat} {work work' : Work} (h : Call.At { call with phase := .inside gate work } work') :
    work' = work := by
  obtain ⟨gate', h⟩ := h
  cases h
  rfl

/-- The call goes on with the same entry. -/
theorem Entries.goesOn (h : Entries s) (hi : s.calls[i]? = some call) (hphase : call.phase = .inside gate work)
    (hcalls : s'.calls = s.calls.set i { call with phase := .inside gate work' })
    (hhistorical : s'.historical = s.historical) (hentries : work'.entries = work.entries) (hleads : work'.leads = work.leads)
    (hjudged : work'.Judged)
    (hreceived : ∀ n g, work'.Received n g → s.historical.value? n = some ⟨true, some g, none⟩) : Entries s' := by
  refine h.move hi hcalls hhistorical ?_ ?_ (fun work hw => at_work hw ▸ hjudged) (fun work hw => at_work hw ▸ hreceived)
  · rw [Call.entries, Call.entries, hphase]
    exact hentries
  · rw [Call.leads, Call.leads, hphase]
    exact hleads

theorem carries_inside (h : call.phase = .inside gate work) : call.carries = work.carries := by
  rw [Call.carries, h]
  rfl

/-- An entry of the table before is as it was, and a new one is not ready. -/
theorem value?_joinHistorical (s : State) (digest : Text) (n : Nat) :
    (joinHistorical s digest).2.historical.value? n =
      if s.historical.current digest = none ∧ n = s.historical.entries.length then some ⟨false, none, none⟩
      else s.historical.value? n :=
  Table.value?_join ..

theorem joinHistorical_work (s : State) (digest : Text) :
    (joinHistorical s digest).1 =
      if s.historical.current digest = none then .resolving digest s.historical.entries.length
      else .awaiting digest (s.historical.join digest ⟨false, none, none⟩).1 := by
  unfold joinHistorical Table.join
  cases s.historical.current digest <;> rfl

theorem value?_lt {t : Table Text HistoricalGeneration} {n : Nat} {entry : HistoricalGeneration}
    (h : t.value? n = some entry) : n < t.entries.length := by
  unfold Table.value? at h
  by_contra hn
  rw [List.getElem?_eq_none (not_lt.1 hn)] at h
  cases h

theorem Entries.join (h : Entries s) (hi : s.calls[i]? = some call) {digest : Text}
    (hphase : call.phase = .inside gate (.joining digest))
    (hhistorical : s'.historical = (joinHistorical s digest).2.historical)
    (hcalls : s'.calls = s.calls.set i { call with phase := .inside gate (joinHistorical s digest).1 }) : Entries s' where
  counts := by
    have hentries : Call.entries { call with phase := .inside gate (joinHistorical s digest).1 } =
        {(digest, (s.historical.join digest ⟨false, none, none⟩).1)} := by
      unfold joinHistorical Call.entries
      dsimp only
      split <;> rfl
    rw [hhistorical, hcalls, total_set_gain hi (by rw [Call.entries, hphase]; rfl), hentries]
    exact h.counts.join digest ⟨false, none, none⟩
  leader n entry hn := by
    rw [hcalls, total_set_gain hi (by rw [Call.leads, hphase]; rfl), Multiset.count_add, Call.leads, Phase.during,
      joinHistorical_work]
    rw [hhistorical, value?_joinHistorical] at hn
    by_cases hnone : s.historical.current digest = none
    · rw [if_pos hnone, Work.leads, Multiset.count_singleton]
      by_cases heq : n = s.historical.entries.length
      · rw [if_pos ⟨hnone, heq⟩] at hn
        cases hn
        have hzero : (total Call.leads s.calls).count n = 0 := by
          rw [Multiset.count_eq_zero]
          intro hmem
          obtain ⟨other, hother⟩ := entries_of_leads hmem
          exact absurd heq (h.counts.made other n hother).ne
        rw [hzero, if_pos heq]
        rfl
      · rw [if_neg fun hnew => heq hnew.2] at hn
        rw [if_neg heq, zero_add]
        exact h.leader n entry hn
    · rw [if_neg fun hnew => hnone hnew.1] at hn
      rw [if_neg hnone, show (Work.awaiting digest _).leads = 0 from rfl, Multiset.count_zero, zero_add]
      exact h.leader n entry hn
  sound n entry hn := by
    rw [hhistorical, value?_joinHistorical] at hn
    split at hn
    · cases hn
      rfl
    · exact h.sound n entry hn
  judged := by
    rw [hcalls]
    refine forall_set h.judged fun work hwork => ?_
    rw [at_work hwork, joinHistorical_work]
    split <;> trivial
  received := by
    rw [hcalls, hhistorical]
    refine forall_set (fun c hc work hwork n g hr => ?_) fun work hwork n g hr => ?_
    · have hold := h.received c hc work hwork n g hr
      rw [value?_joinHistorical, if_neg fun hnew => (value?_lt hold).ne hnew.2]
      exact hold
    · rw [at_work hwork, joinHistorical_work] at hr
      split at hr <;> exact hr.elim

/-- The call that resolved a generation fills its entry. -/
theorem Entries.publish (h : Entries s) (hi : s.calls[i]? = some call) {digest : Text} {entry : Nat}
    {generation : Option Nat} {err : Option Err} (hphase : call.phase = .inside gate (.publishing digest entry generation err))
    (hhistorical : s'.historical = s.historical.put entry ⟨true, generation, err⟩)
    (hcalls : s'.calls = s.calls.set i { call with phase := .inside gate (.awaiting digest entry) }) : Entries s' := by
  have hmem : (digest, entry) ∈ total Call.entries s.calls :=
    mem_total.2 ⟨call, List.mem_of_getElem? hi, by simp [Call.entries, hphase, Phase.during, Work.entries]⟩
  have hlt := h.counts.made digest entry hmem
  have hloss : total Call.leads s.calls = {entry} + total Call.leads s'.calls := by
    rw [hcalls, total_set_loss hi (show Call.leads { call with phase := .inside gate (.awaiting digest entry) } = 0 from rfl),
      Call.leads, hphase]
    rfl
  constructor
  · rw [hhistorical, hcalls, total_set_eq _ hi (by simp [Call.entries, hphase, Phase.during, Work.entries])]
    exact h.counts.put ..
  · intro n e hn
    rw [hhistorical, Table.value?_put hlt] at hn
    split at hn
    · rename_i heq
      subst heq
      cases hn
      -- Nobody else had to fill it.
      obtain ⟨old, hold⟩ : ∃ old, s.historical.value? entry = some old := by
        obtain ⟨e, he, -⟩ := h.counts.entry hmem
        exact ⟨_, Table.value?_eq he⟩
      have hleader := h.leader entry old hold
      rw [hloss, Multiset.count_add, Multiset.count_singleton_self] at hleader
      rw [if_pos rfl]
      split at hleader <;> omega
    · rename_i hne
      have hleader := h.leader n e hn
      rw [hloss, Multiset.count_add, Multiset.count_singleton, if_neg (Ne.symm hne), zero_add] at hleader
      exact hleader
  · intro n e hn
    rw [hhistorical, Table.value?_put hlt] at hn
    split at hn
    · cases hn
      exact h.judged call (List.mem_of_getElem? hi) _ ⟨gate, hphase⟩
    · exact h.sound n e hn
  · rw [hcalls]
    refine forall_set h.judged fun work hwork => ?_
    rw [at_work hwork]
    trivial
  · rw [hcalls, hhistorical]
    refine forall_set (fun c hc work hwork n g hr => ?_) fun work hwork n g hr => ?_
    · have hold := h.received c hc work hwork n g hr
      rw [Table.value?_put hlt, if_neg]
      · exact hold
      · rintro rfl
        have hleader := h.leader entry _ hold
        rw [hloss, Multiset.count_add, Multiset.count_singleton_self, if_pos rfl] at hleader
        omega
    · rw [at_work hwork] at hr
      exact hr.elim

theorem Entries.release (h : Entries s) (hi : s.calls[i]? = some call) {digest : Text} {entry : Nat} {received : Option Nat}
    (hphase : call.phase = .inside gate (.dropping digest entry received))
    (hhistorical : s'.historical = (s.historical.leave digest entry).2)
    (hcalls : s'.calls = s.calls.set i { call with phase := .inside gate work })
    (hwork : work.entries = 0 ∧ work.leads = 0 ∧ work.Judged ∧ ∀ n g, ¬ work.Received n g) : Entries s' where
  counts := by
    have hall := h.counts
    rw [total_set_loss hi (b := { call with phase := .inside gate work }) hwork.1, Call.entries, hphase] at hall
    rw [hhistorical, hcalls]
    exact (Counts.leave hall).1
  leader n e hn := by
    rw [hhistorical, Table.value?_leave] at hn
    rw [hcalls, total_set_eq _ hi (show Call.leads _ = Call.leads _ by rw [Call.leads, Call.leads, hphase]; exact hwork.2.1)]
    exact h.leader n e hn
  sound n e hn := by
    rw [hhistorical, Table.value?_leave] at hn
    exact h.sound n e hn
  judged := by
    rw [hcalls]
    refine forall_set h.judged fun work' hwork' => ?_
    rw [at_work hwork']
    exact hwork.2.2.1
  received := by
    rw [hcalls, hhistorical]
    refine forall_set (fun c hc work hwork n g hr => ?_) fun work' hwork' n g hr => ?_
    · rw [Table.value?_leave]
      exact h.received c hc work hwork n g hr
    · rw [at_work hwork'] at hr
      exact (hwork.2.2.2 n g hr).elim

/-! ### Generations change hands -/

/-- A call gets what the resolver returns. -/
theorem Owned.resolve (h : Owned engine s) (hi : s.calls[i]? = some call) (hcalls : s'.calls = s.calls.set i call')
    (hhistorical : s'.historical = s.historical) (hclosing : s'.closing = s.closing) (hcloses : s'.closes = s.closes)
    {new : Option Nat} (hreturned : s'.returned = s.returned ++ new.toList)
    (hnew : ∀ g ∈ new, g ∉ s.returned ∧ g ≠ engine.generation) (hbefore : call.carries = 0)
    (hafter : call'.carries = ↑new.toList) : Owned engine s' where
  places := by
    have hall := h.places
    rw [hreturned, hclosing, hcloses, hcalls, hhistorical, total_set_gain hi hbefore, hafter]
    rw [← Multiset.coe_add] at hall ⊢
    rw [← Multiset.coe_add, add_right_comm, hall]
    ac_rfl
  nodup := by
    rw [hreturned, List.nodup_append]
    refine ⟨h.nodup, by cases new <;> simp, fun a ha b hb hab => ?_⟩
    exact (hnew b (by simpa using hb)).1 (hab ▸ ha)
  fresh := by
    rw [hreturned, List.mem_append]
    rintro (hmem | hmem)
    · exact h.fresh hmem
    · exact (hnew _ (by simpa using hmem)).2 rfl

/-- A call closes what it carries. -/
theorem Owned.close (h : Owned engine s) (hi : s.calls[i]? = some call) (hcalls : s'.calls = s.calls.set i call')
    (hhistorical : s'.historical = s.historical) (hclosing : s'.closing = s.closing) {g : Nat}
    (hcloses : s'.closes = s.closes ++ [g]) (hreturned : s'.returned = s.returned) (hbefore : call.carries = {g})
    (hafter : call'.carries = 0) : Owned engine s' where
  places := by
    have hall := h.places
    rw [total_set_loss hi hafter, hbefore] at hall
    rw [hreturned, hclosing, hcloses, hcalls, hhistorical, hall, ← Multiset.coe_add, Multiset.coe_singleton]
    ac_rfl
  nodup := hreturned ▸ h.nodup
  fresh := hreturned ▸ h.fresh

/-- What a call carries goes to an entry that it uses. -/
theorem Owned.publish (h : Owned engine s) (hentries : Entries s) (hi : s.calls[i]? = some call) {digest : Text} {entry : Nat}
    {generation : Option Nat} {err : Option Err} (hphase : call.phase = .inside gate (.publishing digest entry generation err))
    (hhistorical : s'.historical = s.historical.put entry ⟨true, generation, err⟩)
    (hcalls : s'.calls = s.calls.set i { call with phase := .inside gate (.awaiting digest entry) })
    (hclosing : s'.closing = s.closing) (hcloses : s'.closes = s.closes) (hreturned : s'.returned = s.returned) :
    Owned engine s' where
  places := by
    have hcarries : call.carries = ↑generation.toList := by
      rw [Call.carries, hphase]
      cases generation <;> rfl
    have hmem : (digest, entry) ∈ total Call.entries s.calls :=
      mem_total.2 ⟨call, List.mem_of_getElem? hi, by simp [Call.entries, hphase, Phase.during, Work.entries]⟩
    have hlead : entry ∈ total Call.leads s.calls :=
      mem_total.2 ⟨call, List.mem_of_getElem? hi, by simp [Call.leads, hphase, Phase.during, Work.leads]⟩
    obtain ⟨e, he, -⟩ := hentries.counts.entry hmem
    have hvalue := Table.value?_eq he
    -- The entry was empty, for it still had to be filled.
    have hempty : HistoricalGeneration.keeps e.value = 0 := by
      have hleader := hentries.leader entry _ hvalue
      have hsound := hentries.sound entry _ hvalue
      have hpos := Multiset.count_pos.2 hlead
      unfold HistoricalGeneration.Sound at hsound
      split at hsound
      · rename_i hready
        rw [hready, if_pos rfl] at hleader
        omega
      · rw [HistoricalGeneration.keeps, hsound]
        rfl
    have hput := Table.weigh_put (w := HistoricalGeneration.keeps) hentries.counts hmem hvalue ⟨true, generation, err⟩
    rw [hempty, add_zero] at hput
    have hall := h.places
    rw [total_set_loss hi (show Call.carries { call with phase := .inside gate (.awaiting digest entry) } = 0 from rfl),
      hcarries] at hall
    rw [hreturned, hclosing, hcloses, hcalls, hhistorical, hput, hall, HistoricalGeneration.keeps]
    ac_rfl
  nodup := hreturned ▸ h.nodup
  fresh := hreturned ▸ h.fresh

/-- Before the engine is closed no entry holds the active generation. -/
theorem Owned.ne_active (h : Owned engine s) (hclosing : s.closing ≠ .finished) {g : Nat}
    (hg : g ∈ s.historical.weigh HistoricalGeneration.keeps) : g ≠ engine.generation := by
  rintro rfl
  have hall := h.places
  rw [if_neg hclosing, List.append_nil] at hall
  exact h.fresh (Multiset.mem_coe.1 (hall ▸ Multiset.mem_add.2 (.inr hg)))

theorem releaseHistorical_work (s : State) (digest : Text) (entry : Nat) {v : HistoricalGeneration}
    (hv : s.historical.value? entry = some v) :
    (releaseHistorical engine s digest entry).1 =
      match v.generation with
      | some g => if (s.historical.leave digest entry).1 ∧ g ≠ engine.generation then .closing g else .done
      | none => .done := by
  unfold releaseHistorical
  dsimp only
  rw [Table.value?_leave, hv]
  show (match v.generation with | some g => _ | none => _ : Work × State).1 = _
  cases v.generation <;> rfl

theorem releaseHistorical_historical (engine : EngineConfig) (s : State) (digest : Text) (entry : Nat) :
    (releaseHistorical engine s digest entry).2 = { s with historical := (s.historical.leave digest entry).2 } := by
  unfold releaseHistorical
  dsimp only
  split <;> rfl

/-- The last to leave an entry carries what was in it. -/
theorem Owned.release (h : Owned engine s) (hentries : Entries s) (hbusy : s.closing ≠ .finished)
    (hi : s.calls[i]? = some call) {digest : Text} {entry : Nat} {received : Option Nat}
    (hphase : call.phase = .inside gate (.dropping digest entry received))
    (hhistorical : s'.historical = (s.historical.leave digest entry).2)
    (hcalls : s'.calls = s.calls.set i { call with phase := .inside gate (releaseHistorical engine s digest entry).1 })
    (hclosing : s'.closing = s.closing) (hcloses : s'.closes = s.closes) (hreturned : s'.returned = s.returned) :
    Owned engine s' where
  places := by
    have hcounts := hentries.counts
    rw [total_set_loss hi (show Call.entries { call with phase := .called } = 0 from rfl), Call.entries, hphase] at hcounts
    have hmem : (digest, entry) ∈ total Call.entries s.calls :=
      mem_total.2 ⟨call, List.mem_of_getElem? hi, by simp [Call.entries, hphase, Phase.during, Work.entries]⟩
    obtain ⟨e, he, -⟩ := hentries.counts.entry hmem
    have hvalue := Table.value?_eq he
    have hweigh := Table.weigh_leave (w := HistoricalGeneration.keeps) hcounts hvalue
    have hcarries : (releaseHistorical engine s digest entry).1.carries =
        if (s.historical.leave digest entry).1 then HistoricalGeneration.keeps e.value else 0 := by
      rw [releaseHistorical_work s digest entry hvalue]
      cases hg : e.value.generation with
      | none => simp [HistoricalGeneration.keeps, hg, Work.carries]
      | some g =>
        by_cases hlast : (s.historical.leave digest entry).1 = true
        · have hne : g ≠ engine.generation := by
            refine h.ne_active hbusy ?_
            rw [hweigh, if_pos hlast]
            exact Multiset.mem_add.2 (.inr (by simp [HistoricalGeneration.keeps, hg]))
          simp [hlast, hne, HistoricalGeneration.keeps, hg, Work.carries]
        · simp [hlast, Work.carries]
    have hall := h.places
    rw [hreturned, hclosing, hcloses, hcalls, hhistorical,
      total_set_gain hi (show Call.carries call = 0 by rw [Call.carries, hphase]; rfl),
      show Call.carries { call with phase := .inside gate (releaseHistorical engine s digest entry).1 } = _ from hcarries,
      hall, hweigh]
    ac_rfl
  nodup := hreturned ▸ h.nodup
  fresh := hreturned ▸ h.fresh

/-- Who waits goes on with the generation of the entry, or gives it up. -/
theorem awaitHistorical_spec (h : Entries s) {ctxDone canceled : Bool} {digest : Text} {entry : Nat}
    (hwork : awaitHistorical s ctxDone canceled digest entry = some work) :
    work.entries = {(digest, entry)} ∧ work.leads = 0 ∧ work.carries = 0 ∧ work.Judged ∧
      ∀ n g, work.Received n g → s.historical.value? n = some ⟨true, some g, none⟩ := by
  unfold awaitHistorical at hwork
  split at hwork
  · split at hwork
    · cases hwork
      exact ⟨rfl, rfl, rfl, trivial, fun n g hr => nomatch hr.2⟩
    · cases hwork
  · split at hwork
    · rename_i generation hvalue
      cases hwork
      have hsound : generation.isSome ↔ none = none := h.sound entry _ hvalue
      refine ⟨rfl, rfl, rfl, hsound.2 rfl, ?_⟩
      rintro n g ⟨rfl, rfl⟩
      exact hvalue
    · cases hwork
      exact ⟨rfl, rfl, rfl, trivial, fun n g hr => nomatch hr.2⟩
    · cases hwork

/-- What the leader does with a reply. It has the generation if there is one, and publishes it only without an error. -/
structure Resolved (engine : EngineConfig) (s : State) (digest : Text) (entry : Nat) (new : Option Nat) (out : Work × State) :
    Prop where
  fresh : ∀ g ∈ new, g ∉ s.returned ∧ g ≠ engine.generation
  state : out.2 = { s with returned := s.returned ++ new.toList }
  entries : out.1.entries = {(digest, entry)}
  leads : out.1.leads = {entry}
  carries : out.1.carries = ↑new.toList
  judged : out.1.Judged
  received : ∀ n g, ¬ out.1.Received n g

theorem resolve_resolved {reply : Option ResolvedGeneration × Option Err}
    (hfresh : ∀ generation ∈ reply.1, generation.id ∉ s.returned ∧ generation.id ≠ engine.generation) (digest : Text)
    (entry : Nat) : ∃ new, Resolved engine s digest entry new (resolve engine reply s digest entry) := by
  have hfresh' : ∀ generation ∈ (if engine.hasResolver then reply else
      (none, some (.new "no immutable artifact resolver is configured"))).1,
      generation.id ∉ s.returned ∧ generation.id ≠ engine.generation := by
    split
    · exact hfresh
    · nofun
  unfold resolve
  generalize (if engine.hasResolver then reply else
    (none, some (.new "no immutable artifact resolver is configured"))) = out at hfresh' ⊢
  obtain ⟨generation, err⟩ := out
  refine ⟨generation.map ResolvedGeneration.id, ?_⟩
  have hnew : ∀ g ∈ generation.map ResolvedGeneration.id, g ∉ s.returned ∧ g ≠ engine.generation := by
    intro g hg
    obtain ⟨generation, hgeneration, rfl⟩ := Option.map_eq_some_iff.1 hg
    exact hfresh' generation hgeneration
  dsimp only
  cases generation with
  | none =>
    have hsome : (if err.isNone && isRefused digest none then
        some (Err.new "resolved generation does not match the pinned executable artifact") else err) ≠ none := by
      cases err <;> simp [isRefused]
    split
    · rename_i h _
      cases h
    · exact ⟨hnew, rfl, rfl, rfl, rfl, by simpa [Work.Judged] using hsome, fun _ _ => id⟩
  | some generation =>
    split
    · rename_i h _
      cases h
      rw [if_pos (hfresh' generation rfl).2]
      exact ⟨hnew, rfl, rfl, rfl, rfl, trivial, fun _ _ => id⟩
    · rename_i hnone
      refine ⟨hnew, rfl, rfl, rfl, rfl, ?_, fun _ _ => id⟩
      show _ ↔ _
      refine ⟨fun _ => ?_, fun _ => rfl⟩
      cases herr : (if err.isNone && isRefused digest (some generation) then
        some (Err.new "resolved generation does not match the pinned executable artifact") else err) with
      | none => rfl
      | some err' => exact (hnone generation err' rfl herr).elim

end

end Effectus.Lifetime
