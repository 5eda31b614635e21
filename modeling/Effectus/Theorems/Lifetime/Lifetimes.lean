import Effectus.Theorems.Lifetime.Steps

/-!
How long generations live, read off the invariants.
-/

namespace Effectus.Lifetime

open Shared

/-! ### Runs -/

instance (engine : EngineConfig) (s : State) : (event : Event) → Decidable (IsFresh engine s event)
  | .advance _ input =>
    inferInstanceAs (Decidable (∀ generation ∈ input.reply.1, generation.id ∉ s.returned ∧ generation.id ≠ engine.generation))
  | .call _ | .cancel _ | .close => .isTrue trivial

/-- Several steps, as long as the resolver returns fresh generations. -/
def run (engine : EngineConfig) : State → List Event → Option State
  | s, [] => some s
  | s, event :: events => if IsFresh engine s event then (step engine s event).bind (run engine · events) else none

section

variable {engine : EngineConfig} {s s' : State}

theorem reachable_run (h : Reachable engine s) {events : List Event} (hrun : run engine s events = some s') :
    Reachable engine s' := by
  induction events generalizing s with
  | nil =>
    cases hrun
    exact h
  | cons event events ih =>
    unfold run at hrun
    split at hrun
    · rename_i hfresh
      obtain ⟨s₁, hstep, hrest⟩ := Option.bind_eq_some_iff.1 hrun
      exact ih (.step event h hfresh hstep) hrest
    · cases hrun

/-! ### Lifetimes -/

/-- The call received this generation and its release has not run. -/
def Call.Received (call : Call) (g : Nat) : Prop := ∃ work, call.At work ∧ ∃ entry, work.Received entry g

theorem Inv.nodup (h : Inv engine s) :
    ((↑s.closes : Multiset Nat) + total Call.carries s.calls + s.historical.weigh HistoricalGeneration.keeps).Nodup := by
  rw [← h.owned.places, Multiset.coe_nodup, List.nodup_append]
  refine ⟨h.owned.nodup, by split <;> simp, fun a ha b hb hab => ?_⟩
  split at hb
  · cases List.mem_singleton.1 hb
    exact h.owned.fresh (hab ▸ ha)
  · cases hb

/-- What a call received is in an entry that it uses. -/
theorem Inv.open_of_received (h : Inv engine s) {call : Call} (hcall : call ∈ s.calls) {g : Nat} (hg : call.Received g) :
    g ∉ s.closes := by
  obtain ⟨work, hat, entry, hreceived⟩ := hg
  have hvalue := h.entries.received call hcall work hat entry g hreceived
  obtain ⟨digest, hmem⟩ : ∃ digest, (digest, entry) ∈ total Call.entries s.calls := by
    suffices hall : ∃ digest, (digest, entry) ∈ work.entries by
      obtain ⟨gate, hphase⟩ := hat
      refine hall.imp fun digest hdigest => mem_total.2 ⟨call, hcall, ?_⟩
      rw [Call.entries, hphase]
      exact hdigest
    cases work with
    | holding digest entry' generation | dropping digest entry' generation =>
      cases hreceived.1
      exact ⟨digest, Multiset.mem_singleton_self _⟩
    | loading | joining | resolving | rejecting | publishing | awaiting | closing | done => exact hreceived.elim
  have hle := Table.le_weigh (w := HistoricalGeneration.keeps) h.entries.counts hmem hvalue
  have hkept : g ∈ s.historical.weigh HistoricalGeneration.keeps :=
    Multiset.mem_of_le hle (Multiset.mem_coe.2 (List.mem_singleton_self g))
  intro hclosed
  exact Multiset.disjoint_left.1 (Multiset.nodup_add.1 h.nodup).2.2 (Multiset.mem_add.2 (.inl hclosed)) hkept

theorem value?_of_count {t : Table Text HistoricalGeneration} {users : Multiset (Text × Nat)} (h : Counts t users)
    {digest : Text} {entry : Nat} (hmem : (digest, entry) ∈ users) : ∃ v, t.value? entry = some v :=
  let ⟨_, he, _⟩ := h.entry hmem
  ⟨_, Table.value?_eq he⟩

/-- An entry has one call that fills it. -/
theorem Inv.leads_once (h : Inv engine s) (entry : Nat) : (total Call.leads s.calls).count entry ≤ 1 := by
  by_cases hmem : entry ∈ total Call.leads s.calls
  · obtain ⟨digest, hdigest⟩ := entries_of_leads hmem
    obtain ⟨v, hv⟩ := value?_of_count h.entries.counts hdigest
    rw [h.entries.leader entry v hv]
    split <;> omega
  · rw [Multiset.count_eq_zero.2 hmem]
    exact Nat.zero_le 1

/-- A gate has one call inside. -/
theorem Inv.permits_once (h : Inv engine s) (gate : Nat) : (total Call.permits s.calls).count gate ≤ 1 := by
  by_cases hmem : gate ∈ total Call.permits s.calls
  · obtain ⟨id, hid⟩ := gates_of_permits hmem
    obtain ⟨e, he, -⟩ := h.gates.counts.entry hid
    rw [h.gates.permit gate _ (Table.value?_eq he)]
    split <;> omega
  · rw [Multiset.count_eq_zero.2 hmem]
    exact Nat.zero_le 1

theorem Inv.closed_last (h : Inv engine s) (hclosed : engine.generation ∈ s.closes) :
    ∃ closes, s.closes = closes ++ [engine.generation] ∧ closes.Perm s.returned := by
  have hfinished : s.closing = .finished := by
    by_contra hnot
    have hplaces := h.owned.places
    rw [if_neg hnot, List.append_nil] at hplaces
    refine h.owned.fresh (Multiset.mem_coe.1 ?_)
    rw [hplaces, Multiset.mem_add, Multiset.mem_add]
    exact .inl (.inl hclosed)
  obtain ⟨closes, hcloses⟩ := h.stops.last hfinished
  have hall := (h.settled (h.idle (h.stops.idle (.inr hfinished)))).2.2
  rw [if_pos hfinished, hcloses] at hall
  exact ⟨closes, hcloses, ((List.perm_append_right_iff _).1 (Multiset.coe_eq_coe.1 hall)).symm⟩

/-- What holds of generations and calls at any time. -/
structure Lifetimes (engine : EngineConfig) (s : State) : Prop where
  /-- What a call received is not closed before its release has run. -/
  received : ∀ call ∈ s.calls, ∀ g, call.Received g → g ∉ s.closes
  /-- Nothing is closed twice. -/
  once : s.closes.Nodup
  /-- The active generation is closed last, when all that the resolver returned are closed. -/
  last : engine.generation ∈ s.closes → ∃ closes, s.closes = closes ++ [engine.generation] ∧ closes.Perm s.returned
  /-- Calls that use or wait for a digest share one resolution. -/
  shared : ∀ call ∈ s.calls, ∀ call' ∈ s.calls, ∀ digest entry entry',
    (digest, entry) ∈ call.entries → (digest, entry') ∈ call'.entries → entry = entry'
  /-- One call resolves a digest. -/
  resolving : ∀ (i j : Nat) (call call' : Call) (digest : Text) (entry entry' : Nat),
    s.calls[i]? = some call → s.calls[j]? = some call' → (digest, entry) ∈ call.entries → entry ∈ call.leads →
    (digest, entry') ∈ call'.entries → entry' ∈ call'.leads → i = j
  /-- One call of an execution ID is past `beginExecution`. -/
  alone : ∀ (i j : Nat) (call call' : Call), s.calls[i]? = some call → s.calls[j]? = some call' → call.id = call'.id →
    call.phase.isInside → call'.phase.isInside → i = j
  /-- When no call is active the maps are empty and all that the resolver returned are closed. -/
  idle : (∀ call ∈ s.calls, call.active = 0) → (∀ g ∈ s.returned, g ∈ s.closes) ∧
    (∀ id, s.executions.current id = none) ∧ ∀ digest, s.historical.current digest = none

theorem historical_lifetimes (h : Reachable engine s) : Lifetimes engine s := by
  have hinv := inv_reachable h
  have hshared : ∀ call ∈ s.calls, ∀ call' ∈ s.calls, ∀ digest entry entry',
      (digest, entry) ∈ call.entries → (digest, entry') ∈ call'.entries → entry = entry' :=
    fun call hcall call' hcall' digest entry entry' he he' =>
      hinv.entries.counts.same (mem_total.2 ⟨call, hcall, he⟩) (mem_total.2 ⟨call', hcall', he'⟩)
  constructor
  case received => exact fun call hcall g hg => hinv.open_of_received hcall hg
  case once => exact Multiset.coe_nodup.1 (Multiset.nodup_add.1 (Multiset.nodup_add.1 hinv.nodup).1).1
  case last => exact hinv.closed_last
  case shared => exact hshared
  case resolving =>
    intro i j call call' digest entry entry' hi hj he hl he' hl'
    cases hshared call (List.mem_of_getElem? hi) call' (List.mem_of_getElem? hj) digest entry entry' he he'
    exact index_eq_of_count_le_one (hinv.leads_once entry) hi hj hl hl'
  case alone =>
    intro i j call call' hi hj hid hin hin'
    obtain ⟨gate, work, hphase⟩ : ∃ gate work, call.phase = .inside gate work := by
      cases hphase : call.phase <;> simp_all [Phase.isInside]
    obtain ⟨gate', work', hphase'⟩ : ∃ gate work, call'.phase = .inside gate work := by
      cases hphase' : call'.phase <;> simp_all [Phase.isInside]
    have hmem : (call.id, gate) ∈ total Call.gates s.calls :=
      mem_total.2 ⟨call, List.mem_of_getElem? hi, by simp [Call.gates, hphase, Phase.gates]⟩
    have hmem' : (call.id, gate') ∈ total Call.gates s.calls :=
      mem_total.2 ⟨call', List.mem_of_getElem? hj, by simp [Call.gates, hphase', Phase.gates, hid]⟩
    cases hinv.gates.counts.same hmem hmem'
    exact index_eq_of_count_le_one (hinv.permits_once gate) hi hj (by simp [Call.permits, hphase, Phase.permits])
      (by simp [Call.permits, hphase', Phase.permits])
  case idle =>
    intro hactive
    obtain ⟨hgates, hentries, hclosed⟩ := hinv.settled hactive
    have hcounts := hinv.gates.counts
    have hcounts' := hinv.entries.counts
    rw [hgates] at hcounts
    rw [hentries] at hcounts'
    refine ⟨fun g hg => ?_, hcounts.unused.1, hcounts'.unused.1⟩
    rw [← Multiset.mem_coe, ← hclosed]
    exact Multiset.mem_coe.2 (List.mem_append_left _ hg)

end

/-! ### Two executions of one old generation -/

def sampleEngine : EngineConfig := ⟨0, "active", true⟩

/-- The second call joins the first while it resolves. The engine is closed when both have returned. -/
def sampleEvents : List Event :=
  let go (i : Nat) : Event := .advance i ⟨false, some "old", some ⟨1, true, false, "old"⟩, none⟩
  let on (i : Nat) : Event := .advance i ⟨false, none, none, none⟩
  [.call "a", .call "b", go 0, on 0, .advance 0 ⟨false, some "old", none, none⟩, on 0, on 1, on 1,
    .advance 1 ⟨false, some "old", none, none⟩, on 1, go 0, on 0, on 0, on 1, .close, on 0, on 0, on 1, on 1, on 1, on 1,
    on 1, on 1, on 0, on 0, on 0, .close, .close]

theorem historical_lifetimes_sample : ∃ s, run sampleEngine .start sampleEvents = some s ∧ s.closes = [1, 0] ∧
    Lifetimes sampleEngine s := by
  have hrun : (run sampleEngine .start sampleEvents).any (fun s => decide (s.closes = [1, 0])) = true := by
    decide
  obtain ⟨s, hs, hcloses⟩ := (Option.any_eq_true _ _).1 hrun
  exact ⟨s, hs, of_decide_eq_true hcloses, historical_lifetimes (reachable_run .start hs)⟩

end Effectus.Lifetime
