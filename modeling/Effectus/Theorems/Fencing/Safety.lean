import Effectus.Go.Reference
import Effectus.Theorems.Fencing.Dispatch

/-!
Fencing tokens order their holders: what holds of the provider, of the dispatchers and of their executors in every
interleaving of dispatches with each other and with calls from outside.
-/

namespace Effectus

open Fencing

section

variable [Platform]

attribute [local instance] memoryFencing

namespace World.Call

/-- The resource a call on the provider is about. -/
def pair? : World.Call → Option (Text × Text)
  | .acquireFence request => some (request.authority, request.resource)
  | .renewFence lease _ | .releaseFence _ lease => some (lease.authority, lease.resource)
  | _ => none

/-- No zero bytes in the names of the resource. -/
def NulFree (c : World.Call) : Prop := ∀ pair ∈ c.pair?, Fencing.NulFree pair.1 ∧ Fencing.NulFree pair.2

instance (c : World.Call) : Decidable c.NulFree := inferInstanceAs (Decidable (∀ _ ∈ _, _))

end World.Call

/-- The clock is read within a call and then within the next, and never goes back. -/
def ClockOrdered (h : Trace world) : Prop :=
  (∀ e ∈ h, e.ambient.now ≤ e.ambient.later) ∧ h.Pairwise fun e e' => e.ambient.later ≤ e'.ambient.now

instance (h : Trace world) : Decidable (ClockOrdered h) := inferInstanceAs (Decidable (_ ∧ _))

/-- What the calls did to the provider. -/
def changes (h : Trace world) : List Change := h.map Event.change

/-- Fencing over a whole run. -/
structure FencesOrdered (h : Trace world) : Prop where
  /-- The leases of a resource have increasing tokens. -/
  tokens : h.Pairwise fun e e' => ∀ l m, e.change.taken? = some l → e'.change.taken? = some m → l.SamePair m →
    l.token < m.token
  /-- A call changes no resource but its own. -/
  frame : ∀ e ∈ h, ∀ authority resource, NulFree authority → NulFree resource →
    e.call.pair? ≠ some (authority, resource) →
    e.after.fences.counters (resourceKey authority resource) = e.before.fences.counters (resourceKey authority resource) ∧
      e.after.fences.leases (resourceKey authority resource) = e.before.fences.leases (resourceKey authority resource)
  /-- At any moment one lease of a resource is held and has not ended. -/
  single : ∀ g, g <+: h → ∀ t, (∀ e ∈ g, e.ambient.later ≤ t) → ∀ l m : Lease, l.Clean → m.SamePair l →
    HeldAt (changes g) l t → HeldAt (changes g) m t → l = m
  /-- No lease is taken while one is held. -/
  exclusive : ∀ g e, g ++ [e] <+: h → ∀ l, e.change.taken? = some l → ∀ m : Lease, m.SamePair l →
    ¬HeldAt (changes g) m e.ambient.now
  /-- Renewing or releasing a lease that is not the last of its resource does nothing. -/
  stale : ∀ g e, g ++ [e] <+: h → ∀ lease,
    ((∃ fresh, e.call = .releaseFence fresh lease) ∨ ∃ ttl, e.call = .renewFence lease ttl) →
    latest (changes g) lease.authority lease.resource ≠ some lease → e.after.fences = e.before.fences
  /-- A dispatch that was refused a fence goes on once every lease it took was released and is over. -/
  rollback : ∀ g e, g ++ [e] <+: h → ∀ i, e.thread = some i → Refused i g →
    (∀ fresh lease, e.call ≠ .releaseFence fresh lease) →
    ∀ lease ∈ taken i g, Released i lease g ∧ e.before.fences.isCurrent lease = false
  /-- Two calls of executors carry grants of different leases of a resource, and their tokens are in the order in which
  the two dispatches took them. -/
  executors : ∀ (m n : Nat) (e e' : Event world), h[m]? = some e → h[n]? = some e' → m ≠ n → ∀ request request',
    e.call = .invoke request → e'.call = .invoke request' → ∀ g ∈ request.fencingGrants, ∀ g' ∈ request'.fencingGrants,
    g.authority = g'.authority → g.resource = g'.resource → ∃ (a b : Nat) (x y : Event world) (l l' : Lease),
      h[a]? = some x ∧ h[b]? = some y ∧ x.thread = e.thread ∧ y.thread = e'.thread ∧ x.change.taken? = some l ∧
      l.grant = g ∧ y.change.taken? = some l' ∧ l'.grant = g' ∧ g.token ≠ g'.token ∧ (a < b ↔ g.token < g'.token)

/-! ### Events -/

theorem Event.change_pair {e : Event world} (h : world.step e.call e.ambient e.before = some (e.reply, e.after))
    {lease : Lease} (hlease : e.change.lease? = some lease) :
    e.call.pair? = some (lease.authority, lease.resource) := by
  obtain ⟨thread, call, a, reply, before, after⟩ := e
  cases call
  case acquireFence request =>
    obtain ⟨hreply, hafter⟩ := Prod.mk.inj (Option.some.inj h)
    cases reply with
    | error err => cases hlease
    | ok l =>
      cases hlease
      obtain ⟨-, ha, hr⟩ := acquire_happens (Prod.ext hreply (congrArg World.fences hafter))
      exact congrArg some (Prod.ext ha.symm hr.symm)
  case renewFence l ttl =>
    cases reply with
    | error err => cases hlease
    | ok u =>
      cases hlease
      rfl
  case releaseFence fresh l =>
    cases reply with
    | error err => cases hlease
    | ok u =>
      cases hlease
      rfl
  all_goals cases hlease

theorem Event.change_clean {e : Event world} (h : world.step e.call e.ambient e.before = some (e.reply, e.after))
    (hclean : e.call.NulFree) {lease : Lease} (hlease : e.change.lease? = some lease) : lease.Clean :=
  hclean _ (Event.change_pair h hlease)

theorem mem_changes {h : Trace world} {l : Lease} {now expiresAt : Time} (hm : .took l now expiresAt ∈ changes h) :
    ∃ e ∈ h, e.change.taken? = some l ∧ now = e.ambient.now := by
  obtain ⟨e, he, hchange⟩ := List.mem_map.1 hm
  refine ⟨e, he, by rw [hchange]; rfl, ?_⟩
  obtain ⟨thread, call, a, reply, before, after⟩ := e
  cases call
  case acquireFence request =>
    cases reply with
    | error err => cases hchange
    | ok lease =>
      cases hchange
      rfl
  case renewFence | releaseFence => cases reply <;> cases hchange
  all_goals cases hchange

theorem mem_leasesOf_changes {h : Trace world} {e : Event world} (he : e ∈ h) {l : Lease} (hl : e.change.taken? = some l) :
    l ∈ leasesOf (changes h) l.authority l.resource := by
  refine List.mem_filter.2 ⟨List.mem_filterMap.2 ⟨e.change, List.mem_map_of_mem he, hl⟩, by simp⟩

/-! ### Runs -/

section

variable {s₀ : World} {h : Trace world} {s : World}

/-- The provider keeps track of every resource along a run that started with an empty one. -/
theorem tracks_run (hstart : s₀.fences = Memory.empty) (hv : Valid (S := world) s₀ Fenced h s)
    (hclean : ∀ e ∈ h, e.call.NulFree) {authority : Text} (ha : NulFree authority) (resource : Text) :
    Tracks (changes h) s.fences authority resource := by
  refine hv.invariant (P := fun h s => (∀ e : Event world, e ∈ h → e.call.NulFree) → Tracks (changes h) s.fences authority resource)
    ?_ ?_ hclean
  · intro _
    rw [hstart]
    exact tracks_empty authority resource
  · intro h e _ hstep _ ih hclean
    have hnew : changes (h ++ [e]) = changes h ++ [e.change] := List.map_append
    rw [hnew]
    exact (ih fun x hx => hclean x (List.mem_append_left _ hx)).step ha
      (fun lease hlease => Event.change_clean hstep (hclean e (List.mem_append_right _ (List.mem_singleton_self _))) hlease)
      (Event.change_happens hstep)

theorem tokens_run (hstart : s₀.fences = Memory.empty) (hv : Valid (S := world) s₀ Fenced h s)
    (hclean : ∀ e ∈ h, e.call.NulFree) :
    h.Pairwise fun e e' => ∀ l m, e.change.taken? = some l → e'.change.taken? = some m → l.SamePair m →
      l.token < m.token := by
  refine hv.invariant (P := fun h _ => (∀ e : Event world, e ∈ h → e.call.NulFree) → h.Pairwise fun e e' => ∀ l m,
    e.change.taken? = some l → e'.change.taken? = some m → l.SamePair m → l.token < m.token) ?_ ?_ hclean
  · exact fun _ => List.Pairwise.nil
  · intro h e hv hstep _ ih hclean
    have hbefore : ∀ x ∈ h, x.call.NulFree := fun x hx => hclean x (List.mem_append_left _ hx)
    refine List.pairwise_append.2 ⟨ih hbefore, List.pairwise_singleton .., fun x hx y hy l m hl hm hpair => ?_⟩
    rw [List.mem_singleton.1 hy] at hm
    have hlease : e.change.lease? = some m := by
      cases hc : e.change <;> rw [hc] at hm <;> cases hm
      rfl
    have hmclean : m.Clean :=
      Event.change_clean hstep (hclean e (List.mem_append_right _ (List.mem_singleton_self _))) hlease
    have htracks := tracks_run hstart hv hbefore hmclean.1 m.resource
    have hle : l.token ≤ e.before.fences.counters m.key := by
      refine htracks.counted l ?_
      have := mem_leasesOf_changes hx hl
      rwa [hpair.1, hpair.2] at this
    have hhappens := Event.change_happens hstep
    cases hc : e.change with
    | took lease now expiresAt =>
      rw [hc] at hm hhappens
      cases hm
      obtain ⟨-, htoken, -⟩ := hhappens
      omega
    | extended | gaveBack | nothing =>
      rw [hc] at hm
      cases hm

/-- A run up to one of its calls. -/
theorem valid_prefix {g : Trace world} {e : Event world} (hv : Valid (S := world) s₀ Fenced h s) (hp : g ++ [e] <+: h) :
    Valid (S := world) s₀ Fenced g e.before ∧ world.step e.call e.ambient e.before = some (e.reply, e.after) ∧
      Fenced g e := by
  obtain ⟨rest, rfl⟩ := hp
  rw [List.append_assoc] at hv
  exact hv.split

theorem take_append_of_getElem? {m : Nat} {e : Event world} (he : h[m]? = some e) : h.take m ++ [e] <+: h := by
  obtain ⟨hm, rfl⟩ := List.getElem?_eq_some_iff.1 he
  exact ⟨h.drop (m + 1), by rw [List.append_assoc, List.singleton_append, List.getElem_cons_drop, List.take_append_drop]⟩

/-- An executor is called by a dispatch, once, and each grant it gets is of a lease the dispatch took. -/
theorem invoke_source (hv : Valid (S := world) s₀ Fenced h s) {m : Nat} {e : Event world} (he : h[m]? = some e)
    {request : InvocationRequest} (hcall : e.call = .invoke request) :
    ∃ i, e.thread = some i ∧ ¬Invoked i (h.take m) ∧ ∀ g ∈ request.fencingGrants,
      ∃ (a : Nat) (x : Event world) (l : Lease), h[a]? = some x ∧ x.thread = some i ∧ x.change.taken? = some l ∧ l.grant = g := by
  obtain ⟨-, -, hfenced⟩ := valid_prefix hv (take_append_of_getElem? he)
  cases hthread : e.thread with
  | none =>
    rw [Fenced, hthread] at hfenced
    exact absurd hcall (hfenced request)
  | some i =>
    rw [Fenced, hthread] at hfenced
    obtain ⟨huncalled, hgrants⟩ := hfenced.1 request hcall
    refine ⟨i, rfl, huncalled, fun g hg => ?_⟩
    rw [hgrants] at hg
    obtain ⟨l, hl, rfl⟩ := List.mem_map.1 hg
    obtain ⟨x, hx, htaken⟩ := List.mem_filterMap.1 hl
    obtain ⟨a, ha⟩ := List.mem_iff_getElem?.1 hx
    have hi : x.thread = some i := by
      by_contra hne
      rw [if_neg hne] at htaken
      cases htaken
    rw [if_pos hi] at htaken
    have hget : h[a]? = some x := by
      rw [List.getElem?_take] at ha
      split at ha
      · exact ha
      · cases ha
    exact ⟨a, x, l, hget, hi, htaken, rfl⟩

theorem valid_of_prefix {g : Trace world} (hv : Valid (S := world) s₀ Fenced h s) (hp : g <+: h) :
    ∃ s', Valid (S := world) s₀ Fenced g s' := by
  obtain ⟨rest, rfl⟩ := hp
  cases rest with
  | nil => exact ⟨s, by rwa [List.append_nil] at hv⟩
  | cons e rest => exact ⟨_, hv.split.1⟩

section

variable (hstart : s₀.fences = Memory.empty) (hv : Valid (S := world) s₀ Fenced h s) (hclean : ∀ e ∈ h, e.call.NulFree)

include hv hclean

theorem frame_run {e : Event world} (he : e ∈ h) {authority resource : Text} (ha : NulFree authority)
    (hpair : e.call.pair? ≠ some (authority, resource)) :
    e.after.fences.counters (resourceKey authority resource) = e.before.fences.counters (resourceKey authority resource) ∧
      e.after.fences.leases (resourceKey authority resource) = e.before.fences.leases (resourceKey authority resource) := by
  obtain ⟨m, hm⟩ := List.mem_iff_getElem?.1 he
  obtain ⟨-, hstep, -⟩ := valid_prefix hv (take_append_of_getElem? hm)
  refine (Event.change_happens hstep).frame fun lease hlease hkey => hpair ?_
  obtain ⟨rfl, rfl⟩ := resourceKey_inj (Event.change_clean hstep (hclean _ he) hlease).1 ha hkey
  exact Event.change_pair hstep hlease

include hstart

theorem single_run (hlater : ∀ e ∈ h, e.ambient.now ≤ e.ambient.later) {g : Trace world} (hp : g <+: h) {t : Time}
    (htime : ∀ e ∈ g, e.ambient.later ≤ t) {l m : Lease} (hl : l.Clean) (hpair : m.SamePair l)
    (hheld : HeldAt (changes g) l t) (hheld' : HeldAt (changes g) m t) : l = m := by
  obtain ⟨s', hv'⟩ := valid_of_prefix hv hp
  have htracks := tracks_run hstart hv' (fun x hx => hclean x (hp.subset hx)) hl.1 l.resource
  refine htracks.single hpair (fun lease now expiresAt hm => ?_) hheld hheld'
  obtain ⟨e, he, -, rfl⟩ := mem_changes hm
  exact (hlater e (hp.subset he)).trans (htime e he)

theorem exclusive_run (hclock : ClockOrdered h) {g : Trace world} {e : Event world} (hp : g ++ [e] <+: h) {l m : Lease}
    (hl : e.change.taken? = some l) (hpair : m.SamePair l) : ¬HeldAt (changes g) m e.ambient.now := by
  obtain ⟨hvalid, hstep, -⟩ := valid_prefix hv hp
  have he : e ∈ h := hp.subset (List.mem_append_right _ (List.mem_singleton_self _))
  have hhappens := Event.change_happens hstep
  have hleaseClean : ∀ lease, e.change.lease? = some lease → lease.Clean := fun _ => Event.change_clean hstep (hclean e he)
  obtain ⟨now, expiresAt, hchange⟩ : ∃ now expiresAt, e.change = .took l now expiresAt := by
    cases hc : e.change <;> rw [hc] at hl <;> cases hl
    exact ⟨_, _, rfl⟩
  have hnow : now = e.ambient.now := by
    have hm : .took l now expiresAt ∈ changes [e] := by
      rw [changes, List.map_singleton, hchange]
      exact List.mem_singleton_self _
    obtain ⟨x, hx, -, rfl⟩ := mem_changes hm
    rw [List.mem_singleton.1 hx]
  rw [hchange] at hhappens hleaseClean
  have hltracks := tracks_run hstart hvalid (fun x hx => hclean x (hp.subset (List.mem_append_left _ hx)))
    (hleaseClean l rfl).1 l.resource
  rw [← hnow]
  refine hltracks.free hhappens hpair fun lease now' expiresAt' hm => ?_
  obtain ⟨x, hx, -, rfl⟩ := mem_changes hm
  rw [hnow]
  have hordered : x.ambient.later ≤ e.ambient.now :=
    (List.pairwise_append.1 (hclock.2.sublist hp.sublist)).2.2 x hx e (List.mem_singleton_self _)
  exact (hclock.1 x (hp.subset (List.mem_append_left _ hx))).trans hordered

theorem stale_run {g : Trace world} {e : Event world} (hp : g ++ [e] <+: h) {lease : Lease}
    (hcall : (∃ fresh, e.call = .releaseFence fresh lease) ∨ ∃ ttl, e.call = .renewFence lease ttl)
    (hlatest : latest (changes g) lease.authority lease.resource ≠ some lease) : e.after.fences = e.before.fences := by
  obtain ⟨hvalid, hstep, -⟩ := valid_prefix hv hp
  have he : e ∈ h := hp.subset (List.mem_append_right _ (List.mem_singleton_self _))
  have hhappens := Event.change_happens hstep
  have hleaseClean : lease.Clean := by
    refine hclean e he (lease.authority, lease.resource) ?_
    rcases hcall with ⟨fresh, hcall⟩ | ⟨ttl, hcall⟩
    · rw [hcall]
      rfl
    · rw [hcall]
      rfl
  have htracks := tracks_run hstart hvalid (fun x hx => hclean x (hp.subset (List.mem_append_left _ hx)))
    hleaseClean.1 lease.resource
  -- A call that failed did nothing; one that succeeded was on this lease.
  obtain ⟨thread, call, a, reply, before, after⟩ := e
  rcases hcall with ⟨fresh, rfl⟩ | ⟨ttl, rfl⟩
  · cases reply with
    | error err => exact hhappens
    | ok u => exact htracks.stale hhappens rfl rfl hlatest
  · cases reply with
    | error err => exact hhappens
    | ok u => exact htracks.stale hhappens rfl rfl hlatest

theorem executors_run {m n : Nat} {e e' : Event world} (he : h[m]? = some e) (he' : h[n]? = some e') (hne : m ≠ n)
    {request request' : InvocationRequest} (hcall : e.call = .invoke request) (hcall' : e'.call = .invoke request')
    {g g' : FencingGrant} (hg : g ∈ request.fencingGrants) (hg' : g' ∈ request'.fencingGrants)
    (ha : g.authority = g'.authority) (hr : g.resource = g'.resource) : ∃ (a b : Nat) (x y : Event world) (l l' : Lease),
      h[a]? = some x ∧ h[b]? = some y ∧ x.thread = e.thread ∧ y.thread = e'.thread ∧ x.change.taken? = some l ∧
      l.grant = g ∧ y.change.taken? = some l' ∧ l'.grant = g' ∧ g.token ≠ g'.token ∧ (a < b ↔ g.token < g'.token) := by
  have htokens := tokens_run hstart hv hclean
  have hordered : ∀ {a b : Nat} {x y : Event world} {l l' : Lease}, h[a]? = some x → h[b]? = some y → a < b →
      x.change.taken? = some l → y.change.taken? = some l' → l.SamePair l' → l.token < l'.token := by
    intro a b x y l l' hx hy hlt hl hl' hpair
    obtain ⟨ha, rfl⟩ := List.getElem?_eq_some_iff.1 hx
    obtain ⟨hb, rfl⟩ := List.getElem?_eq_some_iff.1 hy
    exact List.pairwise_iff_getElem.1 htokens a b ha hb hlt l l' hl hl' hpair
  obtain ⟨i, hi, huncalled, hsource⟩ := invoke_source hv he hcall
  obtain ⟨j, hj, huncalled', hsource'⟩ := invoke_source hv he' hcall'
  obtain ⟨a, x, l, hx, hxi, hl, rfl⟩ := hsource g hg
  obtain ⟨b, y, l', hy, hyj, hl', rfl⟩ := hsource' g' hg'
  -- Each dispatch calls its executor once, so these are two dispatches.
  have hthreads : i ≠ j := by
    rintro rfl
    rcases Nat.lt_or_gt_of_ne hne with hlt | hlt
    · refine huncalled' ⟨e, ?_, hi, request, hcall⟩
      exact List.mem_iff_getElem?.2 ⟨m, by rw [List.getElem?_take_of_lt hlt, he]⟩
    · refine huncalled ⟨e', ?_, hj, request', hcall'⟩
      exact List.mem_iff_getElem?.2 ⟨n, by rw [List.getElem?_take_of_lt hlt, he']⟩
  have hab : a ≠ b := by
    rintro rfl
    rw [hx] at hy
    cases hy
    rw [hxi] at hyj
    exact hthreads (Option.some.inj hyj)
  have hpair : l.SamePair l' := ⟨ha, hr⟩
  refine ⟨a, b, x, y, l, l', hx, hy, hxi.trans hi.symm, hyj.trans hj.symm, hl, rfl, hl', rfl, ?_⟩
  show l.token ≠ l'.token ∧ (a < b ↔ l.token < l'.token)
  rcases Nat.lt_or_gt_of_ne hab with hlt | hlt
  · have h' := hordered hx hy hlt hl hl' hpair
    exact ⟨h'.ne, iff_of_true hlt h'⟩
  · have h' := hordered hy hx hlt hl' hl ⟨ha.symm, hr.symm⟩
    exact ⟨h'.ne', iff_of_false hlt.not_gt h'.not_gt⟩

end

theorem rollback_run (hv : Valid (S := world) s₀ Fenced h s) {g : Trace world} {e : Event world} (hp : g ++ [e] <+: h)
    {i : Nat} (hi : e.thread = some i) (hrefused : Refused i g) (hother : ∀ fresh lease, e.call ≠ .releaseFence fresh lease)
    {lease : Lease} (hm : lease ∈ taken i g) : Released i lease g ∧ e.before.fences.isCurrent lease = false := by
  obtain ⟨-, -, hfenced⟩ := valid_prefix hv hp
  rw [Fenced, hi] at hfenced
  obtain ⟨hreleased, -, hnot⟩ := hfenced.2 hrefused hother lease hm
  refine ⟨hreleased, ?_⟩
  cases hcurrent : e.before.fences.leases lease.key with
  | none => rw [Memory.isCurrent, hcurrent, Option.any_none]
  | some current =>
    rw [Memory.isCurrent, hcurrent, Option.any_some]
    exact decide_eq_false (hnot current hcurrent)

end

/-- Everything but a call of an executor. -/
def World.Call.isOther : World.Call → Bool
  | .invoke _ => false
  | _ => true

/-- Any number of dispatches, any other calls in between, an empty provider at first: the tokens order the holders, and a
dispatch that was refused a fence returns with every lease it took released. -/
theorem fencing_orders_holders {threads : List (Act Dispatched)}
    (hthreads : ∀ p ∈ threads, ∃ (d : Dispatcher) (target : Text), d.External ∧ p = d.dispatch target)
    (turns : List (Turn world))
    (hclean : ∀ e ∈ (Config.run World.Call.isOther ⟨threads, World.initial Memory.empty, []⟩ turns).trace, e.call.NulFree)
    (hclock : ClockOrdered (Config.run World.Call.isOther ⟨threads, World.initial Memory.empty, []⟩ turns).trace) :
    FencesOrdered (Config.run World.Call.isOther ⟨threads, World.initial Memory.empty, []⟩ turns).trace ∧
      ∀ i result, (Config.run World.Call.isOther ⟨threads, World.initial Memory.empty, []⟩ turns).threads[i]? =
          some (.ret result) →
        Refused i (Config.run World.Call.isOther ⟨threads, World.initial Memory.empty, []⟩ turns).trace →
        ∀ lease ∈ taken i (Config.run World.Call.isOther ⟨threads, World.initial Memory.empty, []⟩ turns).trace,
          Released i lease (Config.run World.Call.isOther ⟨threads, World.initial Memory.empty, []⟩ turns).trace := by
  have hk : Kept (S := world) (World.initial Memory.empty) Fenced
      (fun i _ h => Refused i h → Over (World.initial Memory.empty) i h)
      (Config.run World.Call.isOther ⟨threads, World.initial Memory.empty, []⟩ turns) := by
    refine run_kept (fun h c a r s t _ hc _ request hcall => ?_) (fun i p hp => ?_) turns
    · cases hcall
      cases hc
    · obtain ⟨d, target, hd, rfl⟩ := hthreads p (List.mem_of_getElem? hp)
      exact dispatch_keeps hd target
  have hv := hk.1
  refine ⟨{
    tokens := tokens_run rfl hv hclean
    frame := fun e he authority resource ha _ hpair => frame_run hv hclean he ha hpair
    single := fun g hp t htime l m hl hpair => single_run rfl hv hclean hclock.1 hp htime hl hpair
    exclusive := fun g e hp l hl m hpair => exclusive_run rfl hv hclean hclock hp hl hpair
    stale := fun g e hp lease hcall hlatest => stale_run rfl hv hclean hp hcall hlatest
    rollback := fun g e hp i hi hrefused hother lease hm => rollback_run hv hp hi hrefused hother hm
    executors := fun m n e e' he he' hne request request' hcall hcall' g hg g' hg' ha hr =>
      executors_run rfl hv hclean he he' hne hcall hcall' hg hg' ha hr }, ?_⟩
  intro i result hi hrefused
  obtain ⟨h, ho, hover⟩ := hk.result hi
  have hx : Extends i Quiet h _ := (Extends.refl ..).others ho
  exact ((hover (hx.quiet.2.1.1 hrefused)).quiet hx).released

end

/-! ### A run -/

section

attribute [local instance] reference memoryFencing

/-- Nothing fails at this time, and the executors succeed. -/
def plainAmbient (now : Nat) : Ambient where
  fault := none
  now := now + 1
  later := now + 1
  token := .ok "token"
  random := fun _ => .error (.new "none")
  fencing := ()
  outcome := ⟨.success, .nil, none⟩
  generation := .error (.new "none")
  now_set := (Int.natCast_succ_pos now).ne'

def fencedDispatcher : Dispatcher where
  options := ⟨"worker", [], 100, 50, 3, 10, 20, false⟩
  hasProvider := true
  invoke := fun request => act (.invoke request)
  retryUnknownOutcome := none

def fencedSaga : Text := stableSagaID "execution" "plan"

def fencedStep : EnqueueStepRequest where
  sagaID := fencedSaga
  effectID := "effect"
  sequence := 1
  verb := "verb"
  contractHash := "contract"
  arguments := none
  compensationVerb := []
  compensationContract := []
  compensationArguments := none
  fencing := [⟨"store", "left"⟩, ⟨"store", "right"⟩]

/-- Somebody holds the right one for a while; the first dispatch takes the left one and gives it back, the second takes
both. -/
def fencedTurns : List (Turn world) :=
  [.outside (.createSaga ⟨"namespace", fencedSaga, "execution", "plan", "digest", true, false⟩) (plainAmbient 1),
    .outside (.enqueueStep fencedStep) (plainAmbient 2),
    .outside (.acquireFence ⟨"store", "right", "somebody", 30⟩) (plainAmbient 3)] ++
    (List.range 8).map (fun k => .thread 0 (plainAmbient (4 + k))) ++
    (List.range 15).map fun k => .thread 1 (plainAmbient (40 + k))

def fencedRun : Config world Dispatched :=
  Config.run World.Call.isOther ⟨[fencedDispatcher.dispatch [], fencedDispatcher.dispatch []], World.initial Memory.empty, []⟩
    fencedTurns

/-- Whether the first thread has returned. -/
def firstReturned (cfg : Config world Dispatched) : Bool :=
  match cfg.threads[0]? with
  | some (Prog.ret _) => true
  | _ => false

theorem thread_of_firstReturned {cfg : Config world Dispatched} (h : firstReturned cfg = true) :
    ∃ result, cfg.threads[0]? = some (.ret result) := by
  unfold firstReturned at h
  split at h
  · exact ⟨_, ‹_›⟩
  · cases h

theorem fencing_orders_holders_run : FencesOrdered fencedRun.trace ∧ (taken 0 fencedRun.trace).map Lease.token = [1] ∧
    (∀ lease ∈ taken 0 fencedRun.trace, Released 0 lease fencedRun.trace) ∧
    (taken 1 fencedRun.trace).map Lease.token = [2, 2] := by
  have hthreads : ∀ p ∈ [fencedDispatcher.dispatch [], fencedDispatcher.dispatch []],
      ∃ (d : Dispatcher) (target : Text), d.External ∧ p = d.dispatch target := by
    intro p hp
    refine ⟨fencedDispatcher, [], fun request => .inl rfl, ?_⟩
    simpa using hp
  obtain ⟨hordered, hreleased⟩ := fencing_orders_holders hthreads fencedTurns
    (show ∀ e ∈ fencedRun.trace, e.call.NulFree by decide +kernel) (show ClockOrdered fencedRun.trace by decide +kernel)
  have hrefused : Refused 0 fencedRun.trace :=
    (by decide +kernel : ∃ e ∈ fencedRun.trace, e.thread = some 0 ∧ e.isRefused = true)
  obtain ⟨result, hresult⟩ := thread_of_firstReturned (show firstReturned fencedRun = true by decide +kernel)
  exact ⟨hordered, by decide +kernel, hreleased 0 result hresult hrefused, by decide +kernel⟩

end

end Effectus
