import Effectus.Runtime.Workflow
import Effectus.Theorems.Fencing.Tokens
import Effectus.Theorems.Runtime.Dispatcher
import Effectus.Theorems.Runtime.World

/-!
Dispatchers over the provider in memory. Any number of dispatches take, use and release leases, interleaved with each
other and with calls from outside. A dispatch that does not get all its fences gives back those it has before it goes on,
and what it hands to its executor are the grants of the leases it took itself.
-/

namespace Effectus

open Fencing

section

variable [Platform]

attribute [local instance] memoryFencing

/-! ### What a call does to the provider -/

namespace Event

/-- What an event did to the provider. -/
def change : Event world → Change
  | ⟨_, .acquireFence request, a, .ok lease, _, _⟩ => .took lease a.now (a.now + request.ttl)
  | ⟨_, .renewFence lease ttl, a, .ok _, _, _⟩ => .extended lease (a.later + ttl)
  | ⟨_, .releaseFence _ lease, _, .ok _, _, _⟩ => .gaveBack lease
  | _ => .nothing

/-- A fence that was not to be had. -/
def isRefused : Event world → Bool
  | ⟨_, .acquireFence _, _, .error _, _, _⟩ => true
  | _ => false

theorem change_happens {e : Event world} (h : world.step e.call e.ambient e.before = some (e.reply, e.after)) :
    e.change.Happens e.before.fences e.after.fences := by
  obtain ⟨thread, call, a, reply, before, after⟩ := e
  have hstep : World.step call a before = some (reply, after) := h
  cases call
  case acquireFence request =>
    obtain ⟨hreply, hafter⟩ := Prod.mk.inj (Option.some.inj h)
    cases reply with
    | ok lease => exact (acquire_happens (Prod.ext hreply (congrArg World.fences hafter))).1
    | error err => exact acquire_error (Prod.ext hreply (congrArg World.fences hafter))
  case renewFence lease ttl =>
    obtain ⟨hreply, hafter⟩ := Prod.mk.inj (Option.some.inj h)
    cases reply with
    | ok u => exact renew_happens (Prod.ext hreply (congrArg World.fences hafter))
    | error err => exact renew_error (Prod.ext hreply (congrArg World.fences hafter))
  case releaseFence fresh lease =>
    obtain ⟨hreply, hafter⟩ := Prod.mk.inj (Option.some.inj h)
    cases reply with
    | ok u => exact release_happens (Prod.ext hreply (congrArg World.fences hafter))
    | error err => exact (release_error (Prod.ext hreply (congrArg World.fences hafter))).1
  all_goals exact World.step_fences rfl hstep

/-- Only an acquisition takes a lease. -/
theorem taken_acquire {e : Event world} {lease : Lease} (h : e.change.taken? = some lease) :
    ∃ request, e.call = .acquireFence request := by
  obtain ⟨thread, call, a, reply, before, after⟩ := e
  cases call
  case acquireFence request => exact ⟨request, rfl⟩
  case renewFence | releaseFence => cases reply <;> cases h
  all_goals cases h

end Event

/-! ### What a dispatch has done so far -/

/-- The leases a thread took. -/
def taken (i : Nat) (h : Trace world) : List Lease :=
  h.filterMap fun e => if e.thread = some i then e.change.taken? else none

/-- A fence the thread asked for was not to be had. -/
def Refused (i : Nat) (h : Trace world) : Prop := ∃ e ∈ h, e.thread = some i ∧ e.isRefused = true

/-- The thread has called its executor. -/
def Invoked (i : Nat) (h : Trace world) : Prop := ∃ e ∈ h, e.thread = some i ∧ ∃ request, e.call = .invoke request

/-- The thread has released this lease. -/
def Released (i : Nat) (lease : Lease) (h : Trace world) : Prop :=
  ∃ e ∈ h, e.thread = some i ∧ e.call = .releaseFence true lease

/-- A call that neither asks for a fence nor calls an executor. -/
def Quiet (c : World.Call) : Prop := (∀ request, c ≠ .acquireFence request) ∧ ∀ request, c ≠ .invoke request

/-- What every call of a dispatch keeps to. The executor is called once, with the grants of what was taken. Once a fence
was refused, nothing but releases is done until every lease that was taken is over. From outside come no calls of
executors. -/
def Fenced (h : Trace world) (e : Event world) : Prop :=
  match e.thread with
  | none => ∀ request, e.call ≠ .invoke request
  | some i =>
    (∀ request, e.call = .invoke request → ¬Invoked i h ∧ request.fencingGrants = (taken i h).map Lease.grant) ∧
    (Refused i h → (∀ fresh lease, e.call ≠ .releaseFence fresh lease) →
      ∀ lease ∈ taken i h, Released i lease h ∧ Gone lease e.before.fences)

section

variable {i : Nat} {h h' : Trace world}

theorem taken_append : taken i (h ++ h') = taken i h ++ taken i h' := List.filterMap_append ..

theorem taken_of_quiet {since : Trace world} (hs : ∀ e ∈ since, e.thread = some i → Quiet e.call) :
    taken i since = [] := by
  refine List.filterMap_eq_nil_iff.2 fun e he => ?_
  by_cases hi : e.thread = some i
  · rw [if_pos hi]
    cases ht : e.change.taken? with
    | none => rfl
    | some lease =>
      obtain ⟨request, hcall⟩ := Event.taken_acquire ht
      exact absurd hcall ((hs e he hi).1 request)
  · exact if_neg hi

/-- A thread that makes only such calls has taken, been refused and called no more than before. -/
theorem Extends.quiet (hx : Extends i Quiet h h') :
    taken i h' = taken i h ∧ (Refused i h' ↔ Refused i h) ∧ (Invoked i h' ↔ Invoked i h) := by
  obtain ⟨since, rfl, hs⟩ := hx
  refine ⟨?_, ⟨?_, ?_⟩, ⟨?_, ?_⟩⟩
  · rw [taken_append, taken_of_quiet hs, List.append_nil]
  · rintro ⟨e, he, hi, hr⟩
    rcases List.mem_append.1 he with he | he
    · exact ⟨e, he, hi, hr⟩
    · obtain ⟨thread, call, a, reply, before, after⟩ := e
      cases call <;> first | cases hr | exact absurd rfl ((hs _ he hi).1 _)
  · rintro ⟨e, he, hi, hr⟩
    exact ⟨e, List.mem_append_left _ he, hi, hr⟩
  · rintro ⟨e, he, hi, request, hcall⟩
    rcases List.mem_append.1 he with he | he
    · exact ⟨e, he, hi, request, hcall⟩
    · exact absurd hcall ((hs _ he hi).2 request)
  · rintro ⟨e, he, hi, hr⟩
    exact ⟨e, List.mem_append_left _ he, hi, hr⟩

end

/-! ### Programs -/

section

variable {s₀ : World} {i : Nat} {h : Trace world} {α : Type}

/-- The lease was taken, and stays behind the counter. -/
def Issued (lease : Lease) (w : World) : Prop := lease.token ≤ w.fences.counters lease.key

theorem issued_stable (lease : Lease) : Stable (S := world) s₀ Fenced (Issued lease) :=
  fun _ _ _ hstep _ hle => hle.trans ((Event.change_happens hstep).counters_le _)

theorem gone_stable (lease : Lease) : Stable (S := world) s₀ Fenced fun w => Gone lease w.fences :=
  fun _ _ _ hstep _ hgone => hgone.step (Event.change_happens hstep)

/-- A dispatch that holds these leases. -/
structure Holds (s₀ : World) (i : Nat) (leases : List Lease) (h : Trace world) : Prop where
  taken : taken i h = leases
  granted : ¬Refused i h
  issued : ∀ lease ∈ leases, Since (S := world) s₀ Fenced (Issued lease) h

/-- A dispatch that gave back what it had. -/
structure Over (s₀ : World) (i : Nat) (h : Trace world) : Prop where
  released : ∀ lease ∈ taken i h, Released i lease h
  gone : ∀ lease ∈ taken i h, Since (S := world) s₀ Fenced (fun w => Gone lease w.fences) h

theorem Holds.quiet {leases : List Lease} {h' : Trace world} (hh : Holds s₀ i leases h) (hx : Extends i Quiet h h') :
    Holds s₀ i leases h' := by
  obtain ⟨htaken, hrefused, -⟩ := hx.quiet
  exact ⟨htaken.trans hh.taken, hrefused.not.2 hh.granted, fun lease hm => (hh.issued lease hm).extend hx.isPrefix⟩

theorem Over.quiet {h' : Trace world} (ho : Over s₀ i h) (hx : Extends i Quiet h h') : Over s₀ i h' := by
  obtain ⟨htaken, -, -⟩ := hx.quiet
  refine ⟨fun lease hm => ?_, fun lease hm => (ho.gone lease (htaken ▸ hm)).extend hx.isPrefix⟩
  obtain ⟨e, he, hi, hcall⟩ := ho.released lease (htaken ▸ hm)
  exact ⟨e, hx.isPrefix.subset he, hi, hcall⟩

/-- What makes only quiet calls keeps to it, before a fence is refused and once all is over. -/
theorem quiet_keeps {p : Act α} (hp : p.Calls Quiet) (hh : Refused i h → Over s₀ i h) :
    Keeps (S := world) s₀ Fenced i p h fun _ => Extends i Quiet h := by
  refine Keeps.of_calls hp fun c hc h' s hx hv a r t hstep => ⟨fun request hcall => absurd hcall (hc.2 request), ?_⟩
  intro hrefused _ lease hm
  have hover := (hh (hx.quiet.2.1.1 hrefused)).quiet hx
  exact ⟨hover.released lease hm, hover.gone lease hm h' s List.prefix_rfl hv⟩

/-- A lease may be released at any time. -/
theorem fenced_release (h : Trace world) (lease : Lease) (a : Ambient) (r : Except Err Unit) (s t : World) :
    Fenced h ⟨some i, .releaseFence true lease, a, r, s, t⟩ := by
  constructor
  · intro request hcall
    cases hcall
  · intro _ hne
    exact absurd rfl (hne true lease)

/-- Releasing leaves every lease released and over. -/
theorem releaseFences_keeps : ∀ {leases : List Lease} {h : Trace world},
    (∀ lease ∈ leases, Since (S := world) s₀ Fenced (Issued lease) h) →
    Keeps (S := world) s₀ Fenced i (Dispatcher.releaseFences leases) h fun _ h' => Extends i Quiet h h' ∧
      ∀ lease ∈ leases, Released i lease h' ∧ Since (S := world) s₀ Fenced (fun w => Gone lease w.fences) h'
  | [], h, _ => ⟨Extends.refl .., nofun⟩
  | lease :: rest, h, hissued => by
    refine Keeps.bind (Keeps.mono ?_ (releaseFences_keeps fun l hl => hissued l (List.mem_cons_of_mem _ hl)))
    rintro ⟨⟩ h₁ hp ⟨hx, hrest⟩
    intro h₂ s ho hv a r t hstep
    let e : Event world := ⟨some i, .releaseFence true lease, a, r, s, t⟩
    have hfenced : Fenced h₂ e := fenced_release h₂ lease a r s t
    have hx₂ : Extends i Quiet h (h₂ ++ [e]) := (hx.others ho).snoc fun _ => ⟨nofun, nofun⟩
    have hprefix : h₁ <+: h₂ ++ [e] := ho.isPrefix.trans (List.prefix_append ..)
    have hissuedNow : Issued lease s := hissued lease (List.mem_cons_self ..) h₂ s (hp.trans ho.isPrefix) hv
    have hgoneNow : Gone lease t.fences := by
      obtain ⟨hreply, hafter⟩ := Prod.mk.inj (Option.some.inj hstep)
      exact release_gone (Prod.ext hreply (congrArg World.fences hafter)) hissuedNow
    refine ⟨hfenced, hx₂, fun l hl => ?_⟩
    rcases List.mem_cons.1 hl with rfl | hl
    · have hvalid : Valid (S := world) s₀ Fenced (h₂ ++ [e]) t := .snoc (e := e) hv hstep hfenced
      exact ⟨⟨e, List.mem_append_right _ (List.mem_singleton_self _), rfl, rfl⟩,
        Since.intro (gone_stable l) hvalid hgoneNow⟩
    · obtain ⟨⟨x, hm, hi, hcall⟩, hgone⟩ := hrest l hl
      exact ⟨⟨x, hprefix.subset hm, hi, hcall⟩, hgone.extend hprefix⟩

/-- Another lease. -/
theorem Holds.acquire {leases : List Lease} {request : FencingRequest} {a : Ambient} {lease : Lease} {s t : World}
    (hh : Holds s₀ i leases h) (hv : Valid (S := world) s₀ Fenced h s)
    (hstep : world.step (.acquireFence request) a s = some (.ok lease, t))
    (hfenced : Fenced h ⟨some i, .acquireFence request, a, .ok lease, s, t⟩) :
    Holds s₀ i (leases ++ [lease]) (h ++ [⟨some i, .acquireFence request, a, .ok lease, s, t⟩]) := by
  let e : Event world := ⟨some i, .acquireFence request, a, .ok lease, s, t⟩
  have hvalid : Valid (S := world) s₀ Fenced (h ++ [e]) t := .snoc (e := e) hv hstep hfenced
  refine ⟨?_, ?_, ?_⟩
  · rw [taken_append, hh.taken]
    exact congrArg (leases ++ ·) (List.filterMap_cons_some (if_pos rfl))
  · rintro ⟨x, hm, hi, hrefused⟩
    rcases List.mem_append.1 hm with hm | hm
    · exact hh.granted ⟨x, hm, hi, hrefused⟩
    · rw [List.mem_singleton.1 hm] at hrefused
      cases hrefused
  · intro l hl
    rcases List.mem_append.1 hl with hl | hl
    · exact (hh.issued l hl).extend (List.prefix_append ..)
    · rw [List.mem_singleton.1 hl]
      refine Since.intro (issued_stable lease) hvalid ?_
      obtain ⟨-, htoken, hafter⟩ := Event.change_happens (e := e) hstep
      show lease.token ≤ t.fences.counters lease.key
      have hcounter : t.fences.counters lease.key = lease.token := by
        rw [show t.fences = _ from hafter, htoken]
        exact Function.update_self lease.key _ _
      exact hcounter.ge

theorem acquireEach_keeps (d : Dispatcher) (holder : Text) : ∀ {requirements : List FencingRequirement}
    {leases : List Lease} {h : Trace world}, Holds s₀ i leases h → ¬Invoked i h →
    Keeps (S := world) s₀ Fenced i (d.acquireEach holder requirements leases) h fun
      | .ok leases, h' => Holds s₀ i leases h' ∧ ¬Invoked i h'
      | .error _, h' => Over s₀ i h'
  | [], _, _, hh, hn => ⟨hh, hn⟩
  | requirement :: rest, leases, h, hh, hn => by
    intro h' s ho hv a r t hstep
    let request : FencingRequest := ⟨requirement.authority, requirement.resource, holder, d.options.leaseDuration⟩
    have hx : Extends i Quiet h h' := (Extends.refl ..).others ho
    have hh' : Holds s₀ i leases h' := hh.quiet hx
    have hfenced : Fenced h' ⟨some i, .acquireFence request, a, r, s, t⟩ := by
      constructor
      · intro request hcall
        cases hcall
      · intro hrefused
        exact absurd hrefused hh'.granted
    refine ⟨hfenced, ?_⟩
    cases r with
    | ok lease =>
      refine acquireEach_keeps d holder (hh'.acquire hv hstep hfenced) ?_
      rintro ⟨x, hm, hi, request', hcall⟩
      rcases List.mem_append.1 hm with hm | hm
      · exact hn (hx.quiet.2.2.1 ⟨x, hm, hi, request', hcall⟩)
      · rw [List.mem_singleton.1 hm] at hcall
        cases hcall
    | error err =>
      -- The failed call took nothing, so what is to be released are the leases so far.
      let e : Event world := ⟨some i, .acquireFence request, a, .error err, s, t⟩
      have htaken : taken i (h' ++ [e]) = leases := by
        rw [taken_append, hh'.taken, show taken i [e] = [] from List.filterMap_cons_none (if_pos rfl), List.append_nil]
      show Keeps (S := world) s₀ Fenced i ((Dispatcher.releaseFences leases).bind fun _ =>
        .ret (Except.error (α := List Lease) err)) (h' ++ [e]) _
      refine Keeps.bind (Keeps.mono ?_ (releaseFences_keeps fun lease hm => (hh'.issued lease hm).extend
        (List.prefix_append ..)))
      rintro ⟨⟩ h'' - ⟨hx, hover⟩
      have htaken' : taken i h'' = leases := hx.quiet.1.trans htaken
      exact ⟨fun lease hm => (hover lease (htaken' ▸ hm)).1, fun lease hm => (hover lease (htaken' ▸ hm)).2⟩

theorem acquireFences_keeps (d : Dispatcher) (dispatch : Dispatch) (hh : Holds s₀ i [] h) (hn : ¬Invoked i h) :
    Keeps (S := world) s₀ Fenced i (d.acquireFences dispatch) h fun
      | .ok leases, h' => Holds s₀ i leases h' ∧ ¬Invoked i h'
      | .error _, h' => Refused i h' → Over s₀ i h' := by
  unfold Dispatcher.acquireFences
  split
  · exact ⟨hh, hn⟩
  split
  · exact fun hrefused => absurd hrefused hh.granted
  split
  · exact fun hrefused => absurd hrefused hh.granted
  · refine Keeps.mono ?_ (acquireEach_keeps d _ hh hn)
    rintro (err | leases) h' - hq
    · exact fun _ => hq
    · exact hq

/-! ### Dispatches -/

/-- What completes a dispatch is quiet. -/
theorem settles_keeps {p : Act α} (hp : Dispatcher.Settles p) (hh : Refused i h → Over s₀ i h) :
    Keeps (S := world) s₀ Fenced i p h fun _ => Extends i Quiet h := by
  refine quiet_keeps (hp.mono fun c hc => ⟨fun request hcall => ?_, fun request hcall => ?_⟩) hh
  · rw [hcall] at hc
    cases hc
  · rw [hcall] at hc
    cases hc

/-- A quiet call and what follows it. -/
theorem quiet_act {c : World.Call} {k : c.Reply → Act α} {Q : α → Trace world → Prop} (hc : Quiet c)
    (hh : Refused i h → Over s₀ i h)
    (hk : ∀ r h', Extends i Quiet h h' → Keeps (S := world) s₀ Fenced i (k r) h' Q) :
    Keeps (S := world) s₀ Fenced i (act c >>= k) h Q :=
  Keeps.bind (Keeps.mono (fun r h' _ hx => hk r h' hx) (quiet_keeps (Prog.calls_perform hc) hh))

/-- The executor is called once. -/
theorem invoke_keeps {leases : List Lease} {request : InvocationRequest} (hh : Holds s₀ i leases h) (hn : ¬Invoked i h)
    (hgrants : request.fencingGrants = leases.map Lease.grant) :
    Keeps (S := world) s₀ Fenced i (act (.invoke request)) h fun _ => Holds s₀ i leases := by
  intro h' s ho hv a r t hstep
  have hx : Extends i Quiet h h' := (Extends.refl ..).others ho
  have hh' : Holds s₀ i leases h' := hh.quiet hx
  have hfenced : Fenced h' ⟨some i, .invoke request, a, r, s, t⟩ := by
    constructor
    · intro request' hcall
      cases hcall
      exact ⟨fun hinvoked => hn (hx.quiet.2.2.1 hinvoked), by rw [hgrants, hh'.taken]⟩
    · intro hrefused
      exact absurd hrefused hh'.granted
  refine ⟨hfenced, ?_, ?_, ?_⟩
  · rw [taken_append, hh'.taken, show taken i [⟨some i, .invoke request, a, r, s, t⟩] = [] from
      List.filterMap_cons_none (if_pos rfl), List.append_nil]
  · rintro ⟨x, hm, hi, hrefused⟩
    rcases List.mem_append.1 hm with hm | hm
    · exact hh'.granted ⟨x, hm, hi, hrefused⟩
    · rw [List.mem_singleton.1 hm] at hrefused
      cases hrefused
  · exact fun lease hm => (hh'.issued lease hm).extend (List.prefix_append ..)

theorem Holds.over {leases : List Lease} (hh : Holds s₀ i leases h) : Refused i h → Over s₀ i h :=
  fun hrefused => absurd hrefused hh.granted

theorem external_keeps {d : Dispatcher} (hd : d.External) {leases : List Lease} {request : InvocationRequest}
    (hh : Holds s₀ i leases h) (hn : ¬Invoked i h) (hgrants : request.fencingGrants = leases.map Lease.grant) :
    Keeps (S := world) s₀ Fenced i (d.invoke request) h fun _ => Holds s₀ i leases := by
  rcases hd request with hcall | ⟨g, planID, hcall⟩
  · rw [hcall]
    exact invoke_keeps hh hn hgrants
  · rw [hcall]
    refine quiet_act ⟨nofun, nofun⟩ hh.over fun r h' hx => ?_
    have hh' := hh.quiet hx
    cases r with
    | error err => exact hh'
    | ok saga =>
      dsimp only
      split
      · exact hh'
      split
      · exact hh'
      split
      · exact hh'
      split
      · exact hh'
      · exact invoke_keeps hh' (hx.quiet.2.2.not.2 hn) hgrants

theorem invokeBefore_keeps {d : Dispatcher} (hd : d.External) {leases : List Lease} (leaseDeadline : Time)
    (dispatch : Dispatch) (arguments : Option FactMap) (saga : SagaInstance) (hh : Holds s₀ i leases h) (hn : ¬Invoked i h) :
    Keeps (S := world) s₀ Fenced i
      (d.invokeBefore leaseDeadline dispatch (leases.map Lease.grant) arguments saga) h fun _ => Holds s₀ i leases := by
  refine quiet_act ⟨nofun, nofun⟩ hh.over fun now h₁ hx₁ => ?_
  have hh₁ := hh.quiet hx₁
  dsimp only
  split
  · exact hh₁
  · refine quiet_act ⟨nofun, nofun⟩ hh₁.over fun err h₂ hx₂ => ?_
    have hh₂ := hh₁.quiet hx₂
    have hn₂ : ¬Invoked i h₂ := hx₂.quiet.2.2.not.2 (hx₁.quiet.2.2.not.2 hn)
    cases err with
    | some err => exact hh₂
    | none =>
      refine Keeps.bind (Keeps.mono ?_ (external_keeps hd hh₂ hn₂ rfl))
      intro outcome h₃ _ hh₃
      exact Keeps.mono (fun _ h' _ hx => hh₃.quiet hx) (settles_keeps (Dispatcher.completeOutcome_settles ..) hh₃.over)

theorem underFences_keeps {d : Dispatcher} (hd : d.External) {leases : List Lease} (leaseDeadline : Time)
    (dispatch : Dispatch) (hh : Holds s₀ i leases h) (hn : ¬Invoked i h) :
    Keeps (S := world) s₀ Fenced i (d.underFences leaseDeadline dispatch (leases.map Lease.grant)) h fun _ =>
      Holds s₀ i leases := by
  refine quiet_act ⟨nofun, nofun⟩ hh.over fun saved h₁ hx₁ => ?_
  have hh₁ := hh.quiet hx₁
  have hn₁ : ¬Invoked i h₁ := hx₁.quiet.2.2.not.2 hn
  cases saved with
  | error err => exact hh₁
  | ok u =>
    dsimp only
    split
    · exact Keeps.mono (fun _ h' _ hx => hh₁.quiet hx) (settles_keeps (Dispatcher.completeUnknown_settles ..) hh₁.over)
    · rename_i arguments _
      refine quiet_act ⟨nofun, nofun⟩ hh₁.over fun found h₂ hx₂ => ?_
      have hh₂ := hh₁.quiet hx₂
      cases found with
      | error err => exact hh₂
      | ok saga => exact invokeBefore_keeps hd leaseDeadline _ arguments saga hh₂ (hx₂.quiet.2.2.not.2 hn₁)

/-- Every call of a dispatch keeps to what is asked of it, and a dispatch that was refused a fence ends with nothing. -/
theorem dispatch_keeps {d : Dispatcher} (hd : d.External) (target : Text) :
    Keeps (S := world) s₀ Fenced i (d.dispatch target) [] fun _ h => Refused i h → Over s₀ i h := by
  have hstart : Holds s₀ i [] [] := ⟨rfl, fun ⟨_, hm, _⟩ => List.not_mem_nil hm, fun _ hm => absurd hm List.not_mem_nil⟩
  have hfresh : ¬Invoked i [] := fun ⟨_, hm, _⟩ => List.not_mem_nil hm
  refine quiet_act ⟨nofun, nofun⟩ hstart.over fun started h₁ hx₁ => ?_
  have hh₁ := hstart.quiet hx₁
  refine quiet_act ⟨nofun, nofun⟩ hh₁.over fun claimed h₂ hx₂ => ?_
  have hh₂ := hh₁.quiet hx₂
  have hn₂ : ¬Invoked i h₂ := hx₂.quiet.2.2.not.2 (hx₁.quiet.2.2.not.2 hfresh)
  cases claimed with
  | error err => exact hh₂.over
  | ok dispatch =>
    dsimp only
    split
    · exact Keeps.mono (fun _ _ _ hx => (hh₂.quiet hx).over) (settles_keeps (Dispatcher.completeExhaustedClaim_settles ..) hh₂.over)
    · refine Keeps.bind (Keeps.mono ?_ (acquireFences_keeps d dispatch hh₂ hn₂))
      rintro (err | leases) h₃ - hq
      · refine Keeps.mono (fun _ _ _ hx hrefused => ?_) (settles_keeps (Dispatcher.completeUnfenced_settles ..) hq)
        exact (hq (hx.quiet.2.1.1 hrefused)).quiet hx
      · refine Keeps.bind (Keeps.mono ?_ (underFences_keeps hd _ dispatch hq.1 hq.2))
        intro result h₄ _ hh₄
        exact Keeps.bind (Keeps.mono (fun _ _ _ hr => (hh₄.quiet hr.1).over) (releaseFences_keeps hh₄.issued))

end

end

end Effectus
