import Effectus.Theorems.Lifetime.Invariant

/-!
The invariants along any run: every step of a call and of `Engine.Close` keeps them, so do new calls and cancellations.
-/

namespace Effectus.Lifetime

open Shared

section

variable {engine : EngineConfig} {s s' : State} {i : Nat} {call call' : Call} {gate : Nat} {work work' : Work}

/-! ### One step -/

/-- A call that is away from the entries. -/
structure Call.Light (call : Call) : Prop where
  entries : call.entries = 0
  leads : call.leads = 0
  carries : call.carries = 0
  judged : ∀ work, call.At work → work.Judged
  received : ∀ work, call.At work → ∀ n g, ¬ work.Received n g

theorem light_inside {call : Call} {gate : Nat} {work : Work} (hphase : call.phase = .inside gate work)
    (hentries : work.entries = 0) (hleads : work.leads = 0) (hcarries : work.carries = 0) (hjudged : work.Judged)
    (hreceived : ∀ n g, ¬ work.Received n g) : call.Light := by
  have hat : ∀ work', call.At work' → work' = work := by
    rintro work' ⟨gate', h⟩
    rw [hphase] at h
    cases h
    rfl
  refine ⟨?_, ?_, (carries_inside hphase).trans hcarries, fun work' h => hat work' h ▸ hjudged,
    fun work' h => hat work' h ▸ hreceived⟩
  · rw [Call.entries, hphase]
    exact hentries
  · rw [Call.leads, hphase]
    exact hleads

theorem light_outside {call : Call} (h : call.phase.isInside = false) : call.Light := by
  have hphase : ∀ {M : Type} [Zero M] (f : Work → M), call.phase.during f = 0 := by
    intro M _ f
    cases hp : call.phase with
    | inside gate work =>
      rw [hp] at h
      cases h
    | called | waiting | leaving | counted | returned => rfl
  have hat : ∀ work, ¬ call.At work := by
    rintro work ⟨gate, hw⟩
    rw [hw] at h
    cases h
  exact ⟨hphase _, hphase _, hphase _, fun work hw => (hat work hw).elim, fun work hw => (hat work hw).elim⟩

theorem Inv.light (h : Inv engine s) (hi : s.calls[i]? = some call) (hbefore : call.Light) (hafter : call'.Light)
    (hcalls : s'.calls = s.calls.set i call') (hhistorical : s'.historical = s.historical)
    (hreturned : s'.returned = s.returned) (hclosing : s'.closing = s.closing) (hcloses : s'.closes = s.closes) :
    Entries s' ∧ Owned engine s' :=
  ⟨h.entries.move hi hcalls hhistorical (hafter.entries.trans hbefore.entries.symm) (hafter.leads.trans hbefore.leads.symm)
      hafter.judged fun work hw n g hr => (hafter.received work hw n g hr).elim,
    h.owned.move hi hcalls (by rw [hhistorical]) hreturned hclosing hcloses (hafter.carries.trans hbefore.carries.symm)⟩

theorem Stops.keep (h : Stops engine s) (hclosed : s'.closed = s.closed) (hclosing : s'.closing = s.closing)
    (hcloses : s'.closes = s.closes) (hactive : s.active = 0 → s'.active = 0) : Stops engine s' where
  closed := by
    rw [hclosed, hclosing]
    exact h.closed
  idle hidle := hactive (h.idle (hclosing ▸ hidle))
  last hlast := by
    rw [hcloses]
    exact h.last (hclosing ▸ hlast)

/-- While a call runs the engine is not closed further. -/
theorem Inv.busy (h : Inv engine s) (hi : s.calls[i]? = some call) (hactive : call.active = 1) :
    s.closing ≠ .drained ∧ s.closing ≠ .finished := by
  have hpos : 1 ≤ s.active := by
    rw [h.gates.active, ← hactive]
    exact le_total_of_mem (List.mem_of_getElem? hi)
  exact ⟨fun hc => by have := h.stops.idle (.inl hc); omega, fun hc => by have := h.stops.idle (.inr hc); omega⟩

theorem Stops.closes (h : Stops engine s) (hbusy : s.closing ≠ .drained ∧ s.closing ≠ .finished)
    (hclosed : s'.closed = s.closed) (hclosing : s'.closing = s.closing) : Stops engine s' where
  closed := by
    rw [hclosed, hclosing]
    exact h.closed
  idle hidle := by
    rw [hclosing] at hidle
    exact (hidle.elim hbusy.1 hbusy.2).elim
  last hlast := (hbusy.2 (hclosing ▸ hlast)).elim

/-- The work of a call with its permit. -/
theorem Inv.advanceWork (h : Inv engine s) {input : Input} (hi : s.calls[i]? = some call)
    (hphase : call.phase = .inside gate work)
    (hfresh : ∀ generation ∈ input.reply.1, generation.id ∉ s.returned ∧ generation.id ≠ engine.generation)
    {s₁ : State} (hadvance : Lifetime.advanceWork engine input call.canceled s work = some (work', s₁)) :
    Inv engine { s₁ with calls := s₁.calls.set i { call with phase := .inside gate work' } } := by
  have hbusy := h.busy hi (by rw [Call.active, hphase]; rfl)
  have hcarries := carries_inside hphase
  have hgates : ∀ {s' : State} {work' : Work}, s'.executions = s.executions → s'.active = s.active →
      s'.calls = s.calls.set i { call with phase := .inside gate work' } → Gates s' := by
    intro s' work' hexecutions hactive hcalls
    exact h.gates.move hi hcalls hexecutions hactive (by simp [Call.gates, hphase, Phase.gates])
      (by simp [Call.permits, hphase, Phase.permits]) (by simp [Call.active, hphase, Phase.active])
  cases work with
  | loading =>
    have hlight : ∀ {work' : Work}, work'.entries = 0 → work'.leads = 0 → work'.carries = 0 → work'.Judged →
        (∀ n g, ¬ work'.Received n g) →
        Inv engine { s with calls := s.calls.set i { call with phase := .inside gate work' } } :=
      fun hentries hleads hcarries' hjudged hreceived =>
        ⟨hgates rfl rfl rfl,
          h.entries.goesOn hi hphase rfl rfl hentries hleads hjudged fun n g hr => (hreceived n g hr).elim,
          h.owned.move hi rfl rfl rfl rfl rfl (hcarries'.trans hcarries.symm), h.stops.keep rfl rfl rfl id⟩
    unfold Lifetime.advanceWork at hadvance
    dsimp only at hadvance
    split at hadvance
    · split at hadvance
      · cases hadvance
        exact hlight rfl rfl rfl trivial fun _ _ => id
      · cases hadvance
        exact hlight rfl rfl rfl trivial fun _ _ => id
    · cases hadvance
      exact hlight rfl rfl rfl trivial fun _ _ => id
  | joining digest =>
    cases hadvance
    refine ⟨hgates rfl rfl rfl, h.entries.join hi hphase rfl rfl, h.owned.move hi rfl ?_ rfl rfl rfl ?_,
      h.stops.keep rfl rfl rfl id⟩
    · exact Table.weigh_join h.entries.counts digest rfl
    · rw [hcarries]
      show (joinHistorical s digest).1.carries = 0
      rw [joinHistorical_work]
      split <;> rfl
  | resolving digest entry =>
    obtain ⟨rfl, rfl⟩ : work' = (resolve engine input.reply s digest entry).1 ∧
        s₁ = (resolve engine input.reply s digest entry).2 := by
      rw [show resolve engine input.reply s digest entry = (work', s₁) from Option.some.inj hadvance]
      exact ⟨rfl, rfl⟩
    obtain ⟨new, hr⟩ := resolve_resolved hfresh digest entry
    rw [hr.state]
    exact ⟨hgates rfl rfl rfl,
      h.entries.goesOn hi hphase rfl rfl hr.entries hr.leads hr.judged fun n g hreceived => (hr.received n g hreceived).elim,
      h.owned.resolve hi rfl rfl rfl rfl rfl hr.fresh hcarries hr.carries, h.stops.keep rfl rfl rfl id⟩
  | rejecting digest entry generation err =>
    cases hadvance
    exact ⟨hgates rfl rfl rfl, h.entries.goesOn hi hphase rfl rfl rfl rfl (by simp [Work.Judged]) fun _ _ hr => hr.elim,
      h.owned.close hi rfl rfl rfl rfl rfl hcarries rfl, h.stops.closes hbusy rfl rfl⟩
  | publishing digest entry generation err =>
    cases hadvance
    exact ⟨hgates rfl rfl rfl, h.entries.publish hi hphase rfl rfl, h.owned.publish h.entries hi hphase rfl rfl rfl rfl rfl,
      h.stops.keep rfl rfl rfl id⟩
  | awaiting digest entry =>
    obtain ⟨next, hnext, heq⟩ := Option.map_eq_some_iff.1 hadvance
    cases heq
    obtain ⟨hentries, hleads, hcarries', hjudged, hreceived⟩ := awaitHistorical_spec h.entries hnext
    exact ⟨hgates rfl rfl rfl, h.entries.goesOn hi hphase rfl rfl hentries hleads hjudged hreceived,
      h.owned.move hi rfl rfl rfl rfl rfl (hcarries'.trans hcarries.symm), h.stops.keep rfl rfl rfl id⟩
  | holding digest entry generation =>
    cases hadvance
    exact ⟨hgates rfl rfl rfl,
      h.entries.goesOn hi hphase rfl rfl rfl rfl trivial
        (fun n g hr => h.entries.received call (List.mem_of_getElem? hi) _ ⟨gate, hphase⟩ n g hr),
      h.owned.move hi rfl rfl rfl rfl rfl hcarries.symm, h.stops.keep rfl rfl rfl id⟩
  | dropping digest entry received =>
    obtain ⟨rfl, rfl⟩ : work' = (releaseHistorical engine s digest entry).1 ∧
        s₁ = (releaseHistorical engine s digest entry).2 := by
      rw [show releaseHistorical engine s digest entry = (work', s₁) from Option.some.inj hadvance]
      exact ⟨rfl, rfl⟩
    rw [releaseHistorical_historical]
    refine ⟨hgates rfl rfl rfl, h.entries.release hi hphase rfl rfl ?_,
      h.owned.release h.entries hbusy.2 hi hphase rfl rfl rfl rfl rfl, h.stops.keep rfl rfl rfl id⟩
    have hwork : (releaseHistorical engine s digest entry).1 = .done ∨
        ∃ g, (releaseHistorical engine s digest entry).1 = .closing g := by
      unfold releaseHistorical
      dsimp only
      split
      · split
        · exact .inr ⟨_, rfl⟩
        · exact .inl rfl
      · exact .inl rfl
    rcases hwork with hwork | ⟨g, hwork⟩ <;> rw [hwork] <;> exact ⟨rfl, rfl, trivial, fun _ _ => id⟩
  | closing generation =>
    cases hadvance
    exact ⟨hgates rfl rfl rfl, h.entries.goesOn hi hphase rfl rfl rfl rfl trivial fun _ _ hr => hr.elim,
      h.owned.close hi rfl rfl rfl rfl rfl hcarries rfl, h.stops.closes hbusy rfl rfl⟩
  | done => cases hadvance

/-- Any step of a call. -/
theorem Inv.advance (h : Inv engine s) {input : Input} (hi : s.calls[i]? = some call)
    (hfresh : ∀ generation ∈ input.reply.1, generation.id ∉ s.returned ∧ generation.id ≠ engine.generation)
    {phase : Phase} {s₁ : State} (hadvance : Lifetime.advance engine input s call = some (phase, s₁)) :
    Inv engine { s₁ with calls := s₁.calls.set i { call with phase := phase } } := by
  have hstops : s₁.closed = s.closed → s₁.closing = s.closing → s₁.closes = s.closes → (s.active = 0 → s₁.active = 0) →
      Stops engine { s₁ with calls := s₁.calls.set i { call with phase := phase } } :=
    fun hclosed hclosing hcloses hactive => h.stops.keep hclosed hclosing hcloses hactive
  have hlight : call.Light → Call.Light { call with phase := phase } → s₁.calls = s.calls → s₁.historical = s.historical →
      s₁.returned = s.returned → s₁.closing = s.closing → s₁.closes = s.closes →
      Entries { s₁ with calls := s₁.calls.set i { call with phase := phase } } ∧
        Owned engine { s₁ with calls := s₁.calls.set i { call with phase := phase } } :=
    fun hbefore hafter hcalls hhistorical hreturned hclosing hcloses =>
      h.light hi hbefore hafter (by rw [hcalls]) hhistorical hreturned hclosing hcloses
  unfold Lifetime.advance at hadvance
  cases hphase : call.phase with
  | called =>
    have hbefore : call.Light := light_outside (by rw [hphase]; rfl)
    simp only [hphase] at hadvance
    unfold beginExecution at hadvance
    split at hadvance
    · cases hadvance
      obtain ⟨hentries, howned⟩ := hlight hbefore (light_outside rfl) rfl rfl rfl rfl rfl
      refine ⟨h.gates.move hi rfl rfl rfl ?_ ?_ ?_, hentries, howned, hstops rfl rfl rfl id⟩
      · simp [Call.gates, hphase, Phase.gates]
      · simp [Call.permits, hphase, Phase.permits]
      · simp [Call.active, hphase, Phase.active]
    · rename_i hopen
      cases hadvance
      obtain ⟨hentries, howned⟩ := hlight hbefore (light_outside rfl) rfl rfl rfl rfl rfl
      have hclosing : s.closing = .before := h.stops.closed.1 (by simpa using hopen)
      exact ⟨h.gates.begin hi hphase rfl rfl rfl, hentries, howned,
        h.stops.closes ⟨by simp [hclosing], by simp [hclosing]⟩ rfl rfl⟩
  | waiting gate =>
    have hbefore : call.Light := light_outside (by rw [hphase]; rfl)
    simp only [hphase] at hadvance
    split at hadvance
    · split at hadvance
      · cases hadvance
        obtain ⟨hentries, howned⟩ := hlight hbefore (light_outside rfl) rfl rfl rfl rfl rfl
        refine ⟨h.gates.move hi rfl rfl rfl ?_ ?_ ?_, hentries, howned, hstops rfl rfl rfl id⟩
        · simp [Call.gates, hphase, Phase.gates]
        · simp [Call.permits, hphase, Phase.permits]
        · simp [Call.active, hphase, Phase.active]
      · cases hadvance
    · unfold takePermit at hadvance
      split at hadvance
      · rename_i hvalue
        cases hadvance
        obtain ⟨hentries, howned⟩ := hlight hbefore (light_inside rfl rfl rfl rfl trivial fun _ _ => id) rfl rfl rfl rfl rfl
        refine ⟨h.gates.pass hi rfl ?_ hvalue rfl rfl ?_ ?_ fun n => ?_, hentries, howned, hstops rfl rfl rfl id⟩
        · rw [Call.gates, hphase]; rfl
        · rw [Call.gates, Call.gates, hphase]; rfl
        · rw [Call.active, Call.active, hphase]; rfl
        · simp [Call.permits, hphase, Phase.permits, Multiset.count_singleton]
      · cases hadvance
  | inside gate work =>
    by_cases hdone : work = .done
    · subst hdone
      have hbefore : call.Light := light_inside hphase rfl rfl rfl trivial fun _ _ => id
      simp only [hphase] at hadvance
      cases hadvance
      obtain ⟨hentries, howned⟩ := hlight hbefore (light_outside rfl) rfl rfl rfl rfl rfl
      obtain ⟨permit, hvalue, htaken⟩ := h.gates.taken hi hphase
      refine ⟨h.gates.pass hi rfl ?_ hvalue rfl rfl ?_ ?_ fun n => ?_, hentries, howned, hstops rfl rfl rfl id⟩
      · rw [Call.gates, hphase]; rfl
      · rw [Call.gates, Call.gates, hphase]; rfl
      · rw [Call.active, Call.active, hphase]; rfl
      · simp [Call.permits, hphase, Phase.permits, Multiset.count_singleton, htaken]
    · have hwork : (Lifetime.advanceWork engine input call.canceled s work).map
          (fun out => (Phase.inside gate out.1, out.2)) = some (phase, s₁) := by
        rw [hphase] at hadvance
        cases work with
        | done => exact absurd rfl hdone
        | loading | joining | resolving | rejecting | publishing | awaiting | holding | dropping | closing => exact hadvance
      obtain ⟨⟨work', s₂⟩, hwork', heq⟩ := Option.map_eq_some_iff.1 hwork
      cases heq
      exact h.advanceWork hi hphase hfresh hwork'
  | leaving gate =>
    have hbefore : call.Light := light_outside (by rw [hphase]; rfl)
    simp only [hphase] at hadvance
    cases hadvance
    obtain ⟨hentries, howned⟩ := hlight hbefore (light_outside rfl) rfl rfl rfl rfl rfl
    exact ⟨h.gates.leave hi hphase rfl rfl rfl, hentries, howned, hstops rfl rfl rfl id⟩
  | counted =>
    have hbefore : call.Light := light_outside (by rw [hphase]; rfl)
    simp only [hphase] at hadvance
    cases hadvance
    obtain ⟨hentries, howned⟩ := hlight hbefore (light_outside rfl) rfl rfl rfl rfl rfl
    exact ⟨h.gates.returns hi hphase rfl rfl rfl, hentries, howned, hstops rfl rfl rfl fun hzero => by simp [hzero]⟩
  | returned =>
    simp only [hphase] at hadvance
    cases hadvance

end

/-! ### Any run -/

theorem total_append_zero {M : Type} [AddCommMonoid M] {f : Call → M} (calls : List Call) {call : Call} (h : f call = 0) :
    total f (calls ++ [call]) = total f calls := by
  rw [total_append, total_cons, total_nil, h, add_zero, add_zero]

section

variable {engine : EngineConfig} {s s' : State}

/-- A new call has nothing. -/
theorem Inv.call (h : Inv engine s) (id : Text) : Inv engine { s with calls := s.calls ++ [⟨id, false, .called⟩] } := by
  have hat : ∀ work, ¬ Call.At ⟨id, false, .called⟩ work := by
    rintro work ⟨gate, hw⟩
    cases hw
  have hmem : ∀ {P : Call → Prop}, (∀ call ∈ s.calls, P call) → P ⟨id, false, .called⟩ →
      ∀ call ∈ s.calls ++ [⟨id, false, .called⟩], P call := by
    intro P hall hnew call hcall
    rcases List.mem_append.1 hcall with hcall | hcall
    · exact hall call hcall
    · cases List.mem_singleton.1 hcall
      exact hnew
  refine ⟨⟨?_, ?_, ?_⟩, ⟨?_, ?_, h.entries.sound, ?_, ?_⟩, ⟨?_, h.owned.nodup, h.owned.fresh⟩,
    h.stops.keep rfl rfl rfl fun hactive => hactive⟩
  · rw [total_append_zero _ rfl]
    exact h.gates.counts
  · rw [total_append_zero _ rfl]
    exact h.gates.permit
  · rw [total_append_zero _ rfl]
    exact h.gates.active
  · rw [total_append_zero _ rfl]
    exact h.entries.counts
  · rw [total_append_zero _ rfl]
    exact h.entries.leader
  · exact hmem h.entries.judged fun work hw => (hat work hw).elim
  · exact hmem h.entries.received fun work hw => (hat work hw).elim
  · rw [total_append_zero _ rfl]
    exact h.owned.places

theorem Inv.cancel (h : Inv engine s) {i : Nat} {call : Call} (hi : s.calls[i]? = some call) :
    Inv engine { s with calls := s.calls.set i { call with canceled := true } } :=
  ⟨h.gates.move hi rfl rfl rfl rfl rfl rfl,
    h.entries.move hi rfl rfl rfl rfl (h.entries.judged call (List.mem_of_getElem? hi))
      (h.entries.received call (List.mem_of_getElem? hi)),
    h.owned.move hi rfl rfl rfl rfl rfl rfl, h.stops.keep rfl rfl rfl id⟩

/-- A call that is not active has nothing. -/
theorem Call.nothing {call : Call} (h : call.active = 0) : call.gates = 0 ∧ call.entries = 0 ∧ call.carries = 0 := by
  unfold Call.active at h
  unfold Call.gates Call.entries Call.carries
  cases hphase : call.phase with
  | called | returned => exact ⟨rfl, rfl, rfl⟩
  | waiting | inside | leaving | counted =>
    rw [hphase] at h
    cases h

/-- When no call is active all generations from the past are closed. -/
theorem Inv.settled (h : Inv engine s) (hactive : ∀ call ∈ s.calls, call.active = 0) :
    total Call.gates s.calls = 0 ∧ total Call.entries s.calls = 0 ∧
      (↑(s.returned ++ if s.closing = .finished then [engine.generation] else []) : Multiset Nat) = ↑s.closes := by
  have hentries : total Call.entries s.calls = 0 := total_eq_zero fun call hcall => (Call.nothing (hactive call hcall)).2.1
  refine ⟨total_eq_zero fun call hcall => (Call.nothing (hactive call hcall)).1, hentries, ?_⟩
  have hplaces := h.owned.places
  have hcounts := h.entries.counts
  rw [hentries] at hcounts
  rw [total_eq_zero fun call hcall => (Call.nothing (hactive call hcall)).2.2, Table.weigh_unused hcounts, add_zero,
    add_zero] at hplaces
  exact hplaces

theorem Inv.idle (h : Inv engine s) (hactive : s.active = 0) : ∀ call ∈ s.calls, call.active = 0 := by
  intro call hcall
  have hle : call.active ≤ total Call.active s.calls := le_total_of_mem hcall
  rw [← h.gates.active, hactive] at hle
  exact Nat.le_zero.1 hle

theorem Inv.close (h : Inv engine s) (hclose : advanceClose engine s = some s') : Inv engine s' := by
  have hplaces := h.owned.places
  have hgates : ∀ closed closing closes, Gates { s with closed := closed, closing := closing, closes := closes } :=
    fun _ _ _ => ⟨h.gates.counts, h.gates.permit, h.gates.active⟩
  have hentries : ∀ closed closing closes, Entries { s with closed := closed, closing := closing, closes := closes } :=
    fun _ _ _ => ⟨h.entries.counts, h.entries.leader, h.entries.sound, h.entries.judged, h.entries.received⟩
  have hclosed : s.closing ≠ .before → s.closed ≠ false := fun hclosing hopen => hclosing (h.stops.closed.1 hopen)
  unfold advanceClose at hclose
  split at hclose
  · rename_i hclosing
    cases hclose
    rw [if_neg (by rw [hclosing]; nofun)] at hplaces
    exact ⟨hgates .., hentries .., ⟨hplaces, h.owned.nodup, h.owned.fresh⟩, ⟨nofun, nofun⟩,
      (by rintro (hidle | hidle) <;> cases hidle), nofun⟩
  · rename_i hclosing
    split at hclose
    · rename_i hactive
      cases hclose
      rw [if_neg (by rw [hclosing]; nofun)] at hplaces
      exact ⟨hgates .., hentries .., ⟨hplaces, h.owned.nodup, h.owned.fresh⟩,
        ⟨fun hopen => (hclosed (by rw [hclosing]; nofun) hopen).elim, nofun⟩, fun _ => hactive, nofun⟩
    · cases hclose
  · rename_i hclosing
    cases hclose
    rw [if_neg (by rw [hclosing]; nofun), List.append_nil] at hplaces
    refine ⟨hgates .., hentries .., ⟨?_, h.owned.nodup, h.owned.fresh⟩,
      ⟨fun hopen => (hclosed (by rw [hclosing]; nofun) hopen).elim, nofun⟩, fun _ => h.stops.idle (.inl hclosing),
      fun _ => ⟨_, rfl⟩⟩
    show (↑(s.returned ++ [engine.generation]) : Multiset Nat) = ↑(s.closes ++ [engine.generation]) + _ + _
    rw [← Multiset.coe_add, ← Multiset.coe_add, hplaces]
    ac_rfl
  · cases hclose

theorem inv_reachable (h : Reachable engine s) : Inv engine s := by
  induction h with
  | start => exact inv_start engine
  | @step s s' event _ hfresh hstep ih =>
    cases event with
    | call id =>
      cases hstep
      exact ih.call id
    | cancel i =>
      obtain ⟨call, hi, rfl⟩ := Option.map_eq_some_iff.1 hstep
      exact ih.cancel hi
    | advance i input =>
      simp only [Lifetime.step, Option.bind_eq_bind, Option.bind_eq_some_iff] at hstep
      obtain ⟨call, hi, ⟨phase, s₁⟩, hadvance, heq⟩ := hstep
      cases heq
      exact ih.advance hi hfresh hadvance
    | close => exact ih.close hstep

end

end Effectus.Lifetime
