import Effectus.Runtime.Fencing
import Mathlib.Data.List.Pairwise
import Mathlib.Logic.Function.Basic

/-!
The leases of the provider in memory over its whole history. Each call takes a lease, extends one, gives one back or does
nothing; what was taken numbers the leases of a resource, and a lease that is not the last of its resource has expired
by the time the last one was taken.
-/

namespace Effectus

namespace Fencing

/-! ### Keys -/

/-- Without zero bytes the key of a resource tells it from every other. -/
def NulFree (t : Text) : Prop := (0 : UInt8) ∉ t

instance (t : Text) : Decidable (NulFree t) := inferInstanceAs (Decidable (_ ∉ _))

theorem resourceKey_inj : ∀ {a a' r r' : Text}, NulFree a → NulFree a' → resourceKey a r = resourceKey a' r' →
    a = a' ∧ r = r'
  | [], [], _, _, _, _, h => ⟨rfl, (List.cons.inj h).2⟩
  | [], b :: a', _, _, _, ha', h => by
    obtain ⟨hb, -⟩ := List.cons.inj h
    exact absurd (hb ▸ List.mem_cons_self ..) ha'
  | b :: a, [], _, _, ha, _, h => by
    obtain ⟨hb, -⟩ := List.cons.inj h
    exact absurd (hb ▸ List.mem_cons_self ..) ha
  | b :: a, b' :: a', r, r', ha, ha', h => by
    obtain ⟨rfl, htail⟩ := List.cons.inj (show b :: resourceKey a r = b' :: resourceKey a' r' from h)
    obtain ⟨rfl, hr⟩ := resourceKey_inj (fun hm => ha (List.mem_cons_of_mem _ hm))
      (fun hm => ha' (List.mem_cons_of_mem _ hm)) htail
    exact ⟨rfl, hr⟩

namespace Lease

/-- The two names of a lease's resource have no zero bytes. -/
def Clean (lease : Lease) : Prop := NulFree lease.authority ∧ NulFree lease.resource

/-- Both leases are of one resource. -/
def SamePair (l m : Lease) : Prop := l.authority = m.authority ∧ l.resource = m.resource

theorem ext {l m : Lease} (hp : l.SamePair m) (hh : l.holder = m.holder) (ht : l.token = m.token) : l = m := by
  cases l
  cases m
  obtain ⟨rfl, rfl⟩ := hp
  cases hh
  cases ht
  rfl

end Lease

/-! ### Changes -/

/-- What a call did to the provider. -/
inductive Change where
  | took (lease : Lease) (now expiresAt : Time)
  | extended (lease : Lease) (expiresAt : Time)
  | gaveBack (lease : Lease)
  | nothing

namespace Change

/-- The lease a call is about. -/
def lease? : Change → Option Lease
  | .took lease _ _ | .extended lease _ | .gaveBack lease => some lease
  | .nothing => none

/-- The lease a call took. -/
def taken? : Change → Option Lease
  | .took lease _ _ => some lease
  | _ => none

/-- The provider before and after. -/
def Happens (p p' : Memory) : Change → Prop
  | .took lease now expiresAt =>
    p.isLeased lease.key now = false ∧ lease.token = p.counters lease.key + 1 ∧
      p' = p.leaseTo lease.key lease.holder expiresAt
  | .extended lease expiresAt =>
    ∃ current, p.leases lease.key = some current ∧ current.holder = lease.holder ∧ current.token = lease.token ∧
      p' = { p with leases := Function.update p.leases lease.key (some { current with expiresAt := expiresAt }) }
  | .gaveBack lease =>
    (p.leases lease.key = none ∧ p' = p) ∨
      ∃ current, p.leases lease.key = some current ∧ current.holder = lease.holder ∧ current.token = lease.token ∧
        p' = { p with leases := Function.update p.leases lease.key none }
  | .nothing => p' = p

/-- When a lease ends, after one more change. -/
def expiryAfter (lease : Lease) (before : Option Time) : Change → Option Time
  | .took other _ expiresAt | .extended other expiresAt => if other = lease then some expiresAt else before
  | .gaveBack other => if other = lease then none else before
  | .nothing => before

/-- A change of one resource leaves every other as it was. -/
theorem Happens.frame {c : Change} {p p' : Memory} (h : c.Happens p p') {key : Text}
    (hkey : ∀ lease, c.lease? = some lease → lease.key ≠ key) :
    p'.counters key = p.counters key ∧ p'.leases key = p.leases key := by
  cases c with
  | took lease now expiresAt =>
    obtain ⟨-, -, rfl⟩ := h
    have hne := (hkey lease rfl).symm
    exact ⟨Function.update_of_ne hne .., Function.update_of_ne hne ..⟩
  | extended lease expiresAt =>
    obtain ⟨current, -, -, -, rfl⟩ := h
    exact ⟨rfl, Function.update_of_ne (hkey lease rfl).symm ..⟩
  | gaveBack lease =>
    rcases h with ⟨-, rfl⟩ | ⟨current, -, -, -, rfl⟩
    · exact ⟨rfl, rfl⟩
    · exact ⟨rfl, Function.update_of_ne (hkey lease rfl).symm ..⟩
  | nothing =>
    cases h
    exact ⟨rfl, rfl⟩

/-- No counter goes back. -/
theorem Happens.counters_le {c : Change} {p p' : Memory} (h : c.Happens p p') (key : Text) :
    p.counters key ≤ p'.counters key := by
  cases c with
  | took lease now expiresAt =>
    obtain ⟨-, -, rfl⟩ := h
    show p.counters key ≤ Function.update p.counters lease.key (p.counters lease.key + 1) key
    by_cases hkey : key = lease.key
    · subst hkey
      rw [Function.update_self]
      exact Nat.le_succ _
    · rw [Function.update_of_ne hkey]
  | extended lease expiresAt =>
    obtain ⟨current, -, -, -, rfl⟩ := h
    exact le_rfl
  | gaveBack lease =>
    rcases h with ⟨-, rfl⟩ | ⟨current, -, -, -, rfl⟩
    · exact le_rfl
    · exact le_rfl
  | nothing =>
    cases h
    exact le_rfl

end Change

/-! ### Calls -/

theorem acquire_happens {p p' : Memory} {ctx : Option Err} {now : Time} {request : FencingRequest} {lease : Lease}
    (h : p.acquire ctx now request = (.ok lease, p')) :
    (Change.took lease now (now + request.ttl)).Happens p p' ∧ lease.authority = request.authority ∧
      lease.resource = request.resource := by
  unfold Memory.acquire at h
  split at h
  · cases h
  · cases h
  · dsimp only at h
    split at h
    · cases h
    · rename_i hfree
      cases h
      exact ⟨⟨Bool.eq_false_iff.2 hfree, rfl, rfl⟩, rfl, rfl⟩

theorem acquire_error {p p' : Memory} {ctx : Option Err} {now : Time} {request : FencingRequest} {err : Err}
    (h : p.acquire ctx now request = (.error err, p')) : p' = p := by
  unfold Memory.acquire at h
  split at h
  · cases h
    rfl
  · cases h
    rfl
  · dsimp only at h
    split at h
    · cases h
      rfl
    · cases h

theorem renew_happens {p p' : Memory} {ctx : Option Err} {checkedAt renewedAt : Time} {lease : Lease} {ttl : Int}
    (h : p.renew ctx checkedAt renewedAt lease ttl = (.ok (), p')) :
    (Change.extended lease (renewedAt + ttl)).Happens p p' := by
  unfold Memory.renew at h
  split at h
  · cases h
  · split at h
    · cases h
    · split at h
      · cases h
      · rename_i current hcurrent
        split at h
        · cases h
        · rename_i hsame
          cases h
          simp only [not_or, not_not] at hsame
          exact ⟨current, hcurrent, hsame.1, hsame.2.1, rfl⟩

theorem renew_error {p p' : Memory} {ctx : Option Err} {checkedAt renewedAt : Time} {lease : Lease} {ttl : Int} {err : Err}
    (h : p.renew ctx checkedAt renewedAt lease ttl = (.error err, p')) : p' = p := by
  unfold Memory.renew at h
  split at h
  · cases h
    rfl
  · split at h
    · cases h
      rfl
    · split at h
      · cases h
        rfl
      · split at h
        · cases h
          rfl
        · cases h

theorem release_happens {p p' : Memory} {ctx : Option Err} {lease : Lease} (h : p.release ctx lease = (.ok (), p')) :
    (Change.gaveBack lease).Happens p p' := by
  unfold Memory.release at h
  split at h
  · cases h
  · rename_i hfree
    cases h
    exact .inl ⟨hfree, rfl⟩
  · rename_i current hcurrent
    split at h
    · cases h
    · rename_i hsame
      cases h
      simp only [not_or, not_not] at hsame
      exact .inr ⟨current, hcurrent, hsame.1, hsame.2, rfl⟩

theorem release_error {p p' : Memory} {ctx : Option Err} {lease : Lease} {err : Err}
    (h : p.release ctx lease = (.error err, p')) : p' = p ∧ (ctx = none → ∀ current, p.leases lease.key = some current →
      ¬(current.holder = lease.holder ∧ current.token = lease.token)) := by
  unfold Memory.release at h
  split at h
  · cases h
    exact ⟨rfl, (nomatch ·)⟩
  · cases h
  · rename_i current hcurrent
    split at h
    · rename_i hother
      cases h
      refine ⟨rfl, ?_⟩
      rintro - current' hcurrent' ⟨hholder, htoken⟩
      rw [hcurrent] at hcurrent'
      cases hcurrent'
      rcases hother with hne | hne
      · exact hne hholder
      · exact hne htoken
    · cases h

/-! ### Histories -/

/-- When a lease ends, as far as its holder knows. -/
def expiry (h : List Change) (lease : Lease) : Option Time := h.foldl (Change.expiryAfter lease) none

/-- The leases of a resource, in the order they were taken. -/
def leasesOf (h : List Change) (authority resource : Text) : List Lease :=
  (h.filterMap Change.taken?).filter fun lease => lease.authority = authority ∧ lease.resource = resource

/-- The last lease of a resource. -/
def latest (h : List Change) (authority resource : Text) : Option Lease := (leasesOf h authority resource).getLast?

/-- A lease that was neither given back nor has ended at `t`. -/
def HeldAt (h : List Change) (lease : Lease) (t : Time) : Prop := ∃ x, expiry h lease = some x ∧ t < x

section

variable {h : List Change} {c : Change} {authority resource : Text} {lease : Lease}

theorem expiry_snoc : expiry (h ++ [c]) lease = c.expiryAfter lease (expiry h lease) := by
  rw [expiry, List.foldl_append]
  rfl

theorem leasesOf_snoc_of_none (hc : c.taken? = none) : leasesOf (h ++ [c]) authority resource = leasesOf h authority resource := by
  simp [leasesOf, List.filterMap_append, hc]

theorem leasesOf_snoc_of_some (hc : c.taken? = some lease) :
    leasesOf (h ++ [c]) authority resource =
      leasesOf h authority resource ++ if lease.authority = authority ∧ lease.resource = resource then [lease] else [] := by
  simp only [leasesOf, List.filterMap_append, List.filterMap_cons, hc, List.filterMap_nil, List.filter_append,
    List.filter_cons, List.filter_nil, decide_eq_true_eq]

theorem mem_leasesOf : lease ∈ leasesOf h authority resource ↔
    (∃ now expiresAt, .took lease now expiresAt ∈ h) ∧ lease.authority = authority ∧ lease.resource = resource := by
  simp only [leasesOf, List.mem_filter, List.mem_filterMap, decide_eq_true_eq]
  refine and_congr_left fun _ => ⟨?_, ?_⟩
  · rintro ⟨c, hc, hlease⟩
    cases c <;> cases hlease
    exact ⟨_, _, hc⟩
  · rintro ⟨now, expiresAt, hm⟩
    exact ⟨_, hm, rfl⟩

end

/-! ### The invariant -/

/-- What the provider keeps of its history, for one resource. -/
structure Tracks (h : List Change) (p : Memory) (authority resource : Text) : Prop where
  increasing : (leasesOf h authority resource).Pairwise fun l m => l.token < m.token
  counted : ∀ lease ∈ leasesOf h authority resource, lease.token ≤ p.counters (resourceKey authority resource)
  current : ∀ current, p.leases (resourceKey authority resource) = some current → ∃ lease,
    latest h authority resource = some lease ∧ current.holder = lease.holder ∧ current.token = lease.token
  ended : ∀ lease ∈ leasesOf h authority resource, ∀ x, expiry h lease = some x →
    p.leases (resourceKey authority resource) = some ⟨lease.holder, lease.token, x⟩ ∨
      ∃ other now expiresAt, .took other now expiresAt ∈ h ∧ x ≤ now
  taken : ∀ lease, lease.authority = authority → lease.resource = resource → ∀ x, expiry h lease = some x →
    lease ∈ leasesOf h authority resource

theorem tracks_empty (authority resource : Text) : Tracks [] .empty authority resource where
  increasing := List.Pairwise.nil
  counted := nofun
  current := nofun
  ended := nofun
  taken := nofun

section

variable {h : List Change} {p p' : Memory} {c : Change} {authority resource : Text}

/-- A change of another resource. -/
theorem Tracks.other (ht : Tracks h p authority resource) (hc : c.Happens p p')
    (hother : ∀ lease, c.lease? = some lease → lease.key ≠ resourceKey authority resource) :
    Tracks (h ++ [c]) p' authority resource := by
  obtain ⟨hcounters, hleases⟩ := hc.frame hother
  have hof : leasesOf (h ++ [c]) authority resource = leasesOf h authority resource := by
    cases htaken : c.taken? with
    | none => exact leasesOf_snoc_of_none htaken
    | some lease =>
      rw [leasesOf_snoc_of_some htaken, if_neg, List.append_nil]
      rintro ⟨rfl, rfl⟩
      cases c <;> cases htaken
      exact hother _ rfl rfl
  have hexpiry : ∀ lease, lease.authority = authority → lease.resource = resource →
      expiry (h ++ [c]) lease = expiry h lease := by
    rintro lease rfl rfl
    rw [expiry_snoc]
    cases c with
    | nothing => rfl
    | took other now expiresAt | extended other expiresAt | gaveBack other =>
      refine if_neg ?_
      rintro rfl
      exact hother _ rfl rfl
  have hpair : ∀ lease ∈ leasesOf h authority resource, lease.authority = authority ∧ lease.resource = resource :=
    fun lease hm => (mem_leasesOf.1 hm).2
  refine ⟨?_, ?_, ?_, ?_, ?_⟩
  · rw [hof]
    exact ht.increasing
  · rw [hof, hcounters]
    exact ht.counted
  · rw [latest, hof, hleases]
    exact ht.current
  · intro lease hm x hx
    rw [hof] at hm
    rw [hexpiry lease (hpair lease hm).1 (hpair lease hm).2] at hx
    rw [hleases]
    rcases ht.ended lease hm x hx with hheld | ⟨other, now, expiresAt, hmem, hle⟩
    · exact .inl hheld
    · exact .inr ⟨other, now, expiresAt, List.mem_append_left _ hmem, hle⟩
  · intro lease ha hr x hx
    rw [hof]
    rw [hexpiry lease ha hr] at hx
    exact ht.taken lease ha hr x hx

/-- The lease the provider has as current is the last one taken. -/
theorem Tracks.latest_eq {lease : Lease} (ht : Tracks h p lease.authority lease.resource) {current : LeaseState}
    (hcurrent : p.leases lease.key = some current) (hholder : current.holder = lease.holder)
    (htoken : current.token = lease.token) : latest h lease.authority lease.resource = some lease := by
  obtain ⟨last, hlast, hh, ht'⟩ := ht.current current hcurrent
  have hm := List.mem_of_getLast? hlast
  have hpair : last.SamePair lease := (mem_leasesOf.1 hm).2
  rw [hlast, Lease.ext hpair (hh.symm.trans hholder) (ht'.symm.trans htoken)]

theorem Tracks.took {lease : Lease} {now expiresAt : Time} (ht : Tracks h p lease.authority lease.resource)
    (hc : (Change.took lease now expiresAt).Happens p p') :
    Tracks (h ++ [.took lease now expiresAt]) p' lease.authority lease.resource := by
  obtain ⟨hfree, htoken, rfl⟩ := hc
  have hof : leasesOf (h ++ [.took lease now expiresAt]) lease.authority lease.resource =
      leasesOf h lease.authority lease.resource ++ [lease] := by
    rw [leasesOf_snoc_of_some rfl, if_pos ⟨rfl, rfl⟩]
  have hnew : ∀ l ∈ leasesOf h lease.authority lease.resource, l.token < lease.token := by
    intro l hl
    have hle : l.token ≤ p.counters lease.key := ht.counted l hl
    omega
  have hcounter : (p.leaseTo lease.key lease.holder expiresAt).counters (resourceKey lease.authority lease.resource) =
      lease.token := (Function.update_self ..).trans htoken.symm
  have hlease : (p.leaseTo lease.key lease.holder expiresAt).leases (resourceKey lease.authority lease.resource) =
      some ⟨lease.holder, lease.token, expiresAt⟩ := by
    rw [htoken]
    exact Function.update_self ..
  refine ⟨?_, ?_, ?_, ?_, ?_⟩
  · rw [hof, List.pairwise_append]
    exact ⟨ht.increasing, List.pairwise_singleton .., fun l hl m hm => List.mem_singleton.1 hm ▸ hnew l hl⟩
  · intro l hl
    rw [hcounter]
    rw [hof] at hl
    rcases List.mem_append.1 hl with hl | hl
    · exact (hnew l hl).le
    · rw [List.mem_singleton.1 hl]
  · intro current hcurrent
    rw [hlease] at hcurrent
    cases hcurrent
    exact ⟨lease, by rw [latest, hof, List.getLast?_concat], rfl, rfl⟩
  · intro l hl x hx
    rw [expiry_snoc] at hx
    rw [hof] at hl
    rcases List.mem_append.1 hl with hl | hl
    · -- An earlier lease had ended, or the resource would not have been free.
      have hne : lease ≠ l := by
        rintro rfl
        exact absurd (hnew _ hl) (lt_irrefl _)
      have hx : expiry h l = some x := (if_neg hne).symm.trans hx
      right
      rcases ht.ended l hl x hx with hheld | ⟨other, now', expiresAt', hmem, hle⟩
      · refine ⟨lease, now, expiresAt, List.mem_append_right _ (List.mem_singleton_self _), ?_⟩
        have hheld : p.leases lease.key = some ⟨l.holder, l.token, x⟩ := hheld
        rw [Memory.isLeased, hheld] at hfree
        simpa using hfree
      · exact ⟨other, now', expiresAt', List.mem_append_left _ hmem, hle⟩
    · rw [List.mem_singleton.1 hl] at hx ⊢
      have hx : some expiresAt = some x := (if_pos rfl).symm.trans hx
      cases hx
      exact .inl hlease
  · intro l ha hr x hx
    rw [hof]
    rw [expiry_snoc] at hx
    by_cases hl : lease = l
    · exact hl ▸ List.mem_append_right _ (List.mem_singleton_self _)
    · exact List.mem_append_left _ (ht.taken l ha hr x ((if_neg hl).symm.trans hx))

/-- A change of the current lease that takes no other. -/
theorem Tracks.kept {lease : Lease} (ht : Tracks h p lease.authority lease.resource) (htaken : c.taken? = none)
    {current : LeaseState} (hcurrent : p.leases lease.key = some current) (hholder : current.holder = lease.holder)
    (htoken : current.token = lease.token) (expiresAt : Option Time)
    (hexpiry : ∀ l, c.expiryAfter l (expiry h l) = if lease = l then expiresAt else expiry h l) :
    Tracks (h ++ [c]) { p with
      leases := Function.update p.leases lease.key (expiresAt.map fun x => { current with expiresAt := x }) }
      lease.authority lease.resource := by
  have hof : leasesOf (h ++ [c]) lease.authority lease.resource = leasesOf h lease.authority lease.resource :=
    leasesOf_snoc_of_none htaken
  have hlast := ht.latest_eq hcurrent hholder htoken
  have hself : Function.update p.leases lease.key (expiresAt.map fun x => { current with expiresAt := x })
      (resourceKey lease.authority lease.resource) = expiresAt.map fun x => { current with expiresAt := x } :=
    Function.update_self ..
  refine ⟨?_, ?_, ?_, ?_, ?_⟩
  · rw [hof]
    exact ht.increasing
  · rw [hof]
    exact ht.counted
  · intro current' hcurrent'
    rw [latest, hof]
    dsimp only at hcurrent'
    rw [hself] at hcurrent'
    obtain ⟨x, -, rfl⟩ := Option.map_eq_some_iff.1 hcurrent'
    exact ⟨lease, hlast, hholder, htoken⟩
  · intro l hl x hx
    rw [hof] at hl
    rw [expiry_snoc, hexpiry] at hx
    dsimp only
    rw [hself]
    by_cases hne : lease = l
    · subst hne
      rw [if_pos rfl] at hx
      left
      rw [hx, ← hholder, ← htoken]
      rfl
    · -- Another lease of the resource is not the current one, so it had ended before.
      rw [if_neg hne] at hx
      right
      rcases ht.ended l hl x hx with hheld | ⟨other, now, expiresAt', hmem, hle⟩
      · have hl' := mem_leasesOf.1 hl
        have hheld : p.leases lease.key = some ⟨l.holder, l.token, x⟩ := hheld
        rw [hcurrent] at hheld
        cases hheld
        exact absurd (Lease.ext ⟨hl'.2.1.symm, hl'.2.2.symm⟩ hholder.symm htoken.symm) hne
      · exact ⟨other, now, expiresAt', List.mem_append_left _ hmem, hle⟩
  · intro l ha hr x hx
    rw [hof]
    rw [expiry_snoc, hexpiry] at hx
    by_cases hl : lease = l
    · exact hl ▸ List.mem_of_getLast? hlast
    · rw [if_neg hl] at hx
      exact ht.taken l ha hr x hx

/-- A resource that nobody holds may be given back all the same. -/
theorem Tracks.gaveBack_free {lease : Lease} (ht : Tracks h p lease.authority lease.resource) :
    Tracks (h ++ [.gaveBack lease]) p lease.authority lease.resource := by
  have hof : leasesOf (h ++ [.gaveBack lease]) lease.authority lease.resource =
      leasesOf h lease.authority lease.resource := leasesOf_snoc_of_none rfl
  have hback : ∀ l x, expiry (h ++ [.gaveBack lease]) l = some x → expiry h l = some x := by
    intro l x hx
    rw [expiry_snoc] at hx
    have hx : (if lease = l then none else expiry h l) = some x := hx
    split at hx
    · cases hx
    · exact hx
  refine ⟨?_, ?_, ?_, ?_, ?_⟩
  · rw [hof]
    exact ht.increasing
  · rw [hof]
    exact ht.counted
  · rw [latest, hof]
    exact ht.current
  · intro l hl x hx
    rw [hof] at hl
    rcases ht.ended l hl x (hback l x hx) with hheld | ⟨other, now, expiresAt, hmem, hle⟩
    · exact .inl hheld
    · exact .inr ⟨other, now, expiresAt, List.mem_append_left _ hmem, hle⟩
  · intro l ha hr x hx
    rw [hof]
    exact ht.taken l ha hr x (hback l x hx)

/-- Every change keeps track of every resource. -/
theorem Tracks.step (ha : NulFree authority) (ht : Tracks h p authority resource)
    (hclean : ∀ lease, c.lease? = some lease → lease.Clean) (hc : c.Happens p p') :
    Tracks (h ++ [c]) p' authority resource := by
  by_cases hother : ∀ lease, c.lease? = some lease → lease.key ≠ resourceKey authority resource
  · exact ht.other hc hother
  · push Not at hother
    obtain ⟨lease, hlease, hkey⟩ := hother
    obtain ⟨rfl, rfl⟩ := resourceKey_inj (hclean lease hlease).1 ha hkey
    cases c with
    | nothing => cases hlease
    | took other now expiresAt =>
      cases hlease
      exact ht.took hc
    | extended other expiresAt =>
      cases hlease
      obtain ⟨current, hcurrent, hholder, htoken, rfl⟩ := hc
      exact ht.kept rfl hcurrent hholder htoken (some expiresAt) fun l => rfl
    | gaveBack other =>
      cases hlease
      rcases hc with ⟨-, rfl⟩ | ⟨current, hcurrent, hholder, htoken, rfl⟩
      · exact ht.gaveBack_free
      · exact ht.kept rfl hcurrent hholder htoken none fun l => rfl

/-- At any time past what was read so far, one lease of a resource is held. -/
theorem Tracks.single {l m : Lease} (ht : Tracks h p l.authority l.resource) (hpair : m.SamePair l) {t : Time}
    (htime : ∀ lease now expiresAt, .took lease now expiresAt ∈ h → now ≤ t) (hl : HeldAt h l t) (hm : HeldAt h m t) :
    l = m := by
  have hheld : ∀ lease : Lease, lease.SamePair l → HeldAt h lease t →
      ∃ x, p.leases (resourceKey l.authority l.resource) = some ⟨lease.holder, lease.token, x⟩ := by
    rintro lease ⟨ha, hr⟩ ⟨x, hx, hlt⟩
    rcases ht.ended lease (ht.taken lease ha hr x hx) x hx with hcurrent | ⟨other, now, expiresAt, hmem, hle⟩
    · exact ⟨x, hcurrent⟩
    · exact absurd (hle.trans (htime _ _ _ hmem)) (not_le.2 hlt)
  obtain ⟨x, hx⟩ := hheld l ⟨rfl, rfl⟩ hl
  obtain ⟨y, hy⟩ := hheld m hpair hm
  rw [hx] at hy
  injection hy with hy
  injection hy with hholder htoken _
  exact Lease.ext ⟨hpair.1.symm, hpair.2.symm⟩ hholder htoken

/-- Nothing is taken while it is held. -/
theorem Tracks.free {lease m : Lease} {now expiresAt : Time} (ht : Tracks h p lease.authority lease.resource)
    (hc : (Change.took lease now expiresAt).Happens p p') (hpair : m.SamePair lease)
    (htime : ∀ lease now' expiresAt, .took lease now' expiresAt ∈ h → now' ≤ now) : ¬HeldAt h m now := by
  rintro ⟨x, hx, hlt⟩
  rcases ht.ended m (ht.taken m hpair.1 hpair.2 x hx) x hx with hcurrent | ⟨other, now', expiresAt', hmem, hle⟩
  · have hfree := hc.1
    rw [Memory.isLeased, show p.leases lease.key = _ from hcurrent] at hfree
    exact absurd (by simpa using hfree) (not_le.2 hlt)
  · exact absurd (hle.trans (htime _ _ _ hmem)) (not_le.2 hlt)

/-- A lease that is not the last of its resource is neither extended nor given back. -/
theorem Tracks.stale {lease : Lease} (ht : Tracks h p lease.authority lease.resource) (hc : c.Happens p p')
    (hlease : c.lease? = some lease) (htaken : c.taken? = none)
    (hlatest : latest h lease.authority lease.resource ≠ some lease) : p' = p := by
  cases c with
  | nothing => exact hc
  | took other now expiresAt => cases htaken
  | extended other expiresAt =>
    cases hlease
    obtain ⟨current, hcurrent, hholder, htoken, -⟩ := hc
    exact absurd (ht.latest_eq hcurrent hholder htoken) hlatest
  | gaveBack other =>
    cases hlease
    rcases hc with ⟨-, rfl⟩ | ⟨current, hcurrent, hholder, htoken, -⟩
    · rfl
    · exact absurd (ht.latest_eq hcurrent hholder htoken) hlatest

end

/-! ### Leases that are over -/

/-- A lease that was taken and is not the current one of its resource. -/
def Gone (lease : Lease) (p : Memory) : Prop :=
  lease.token ≤ p.counters lease.key ∧
    ∀ current, p.leases lease.key = some current → ¬(current.holder = lease.holder ∧ current.token = lease.token)

/-- After a release under a live context the lease is over, whatever came of it. -/
theorem release_gone {p p' : Memory} {lease : Lease} {reply : Except Err Unit} (h : p.release none lease = (reply, p'))
    (hissued : lease.token ≤ p.counters lease.key) : Gone lease p' := by
  cases reply with
  | ok u =>
    have hc := release_happens h
    refine ⟨hissued.trans (hc.counters_le _), ?_⟩
    intro current hcurrent
    rcases hc with ⟨hfree, rfl⟩ | ⟨_, -, -, -, rfl⟩
    · rw [hfree] at hcurrent
      cases hcurrent
    · dsimp only at hcurrent
      rw [Function.update_self] at hcurrent
      cases hcurrent
  | error err =>
    obtain ⟨rfl, hother⟩ := release_error h
    exact ⟨hissued, hother rfl⟩

/-- Such a lease never comes back: later ones have larger tokens. -/
theorem Gone.step {lease : Lease} {p p' : Memory} {c : Change} (h : Gone lease p) (hc : c.Happens p p') :
    Gone lease p' := by
  by_cases hother : ∀ l, c.lease? = some l → l.key ≠ lease.key
  · obtain ⟨hcounters, hleases⟩ := hc.frame hother
    exact ⟨hcounters ▸ h.1, hleases ▸ h.2⟩
  · push Not at hother
    obtain ⟨l, hl, hkey⟩ := hother
    cases c with
    | nothing => cases hl
    | took other now expiresAt =>
      cases hl
      obtain ⟨-, htoken, rfl⟩ := hc
      have hcounter : (p.leaseTo l.key l.holder expiresAt).counters lease.key = p.counters lease.key + 1 := by
        rw [← hkey]
        exact Function.update_self ..
      refine ⟨hcounter ▸ Nat.le_succ_of_le h.1, ?_⟩
      rintro current hcurrent ⟨-, heq⟩
      have hself : (p.leaseTo l.key l.holder expiresAt).leases lease.key =
          some ⟨l.holder, p.counters l.key + 1, expiresAt⟩ := by
        rw [← hkey]
        exact Function.update_self ..
      rw [hself] at hcurrent
      cases hcurrent
      have hle := h.1
      rw [← hkey] at hle
      have heq : p.counters l.key + 1 = lease.token := heq
      omega
    | extended other expiresAt =>
      cases hl
      obtain ⟨current, hcurrent, hholder, htoken, rfl⟩ := hc
      refine ⟨h.1, ?_⟩
      intro current' hcurrent'
      dsimp only at hcurrent'
      rw [← hkey, Function.update_self] at hcurrent'
      cases hcurrent'
      exact h.2 current (hkey ▸ hcurrent)
    | gaveBack other =>
      cases hl
      rcases hc with ⟨-, rfl⟩ | ⟨current, -, -, -, rfl⟩
      · exact h
      · refine ⟨h.1, ?_⟩
        intro current' hcurrent'
        dsimp only at hcurrent'
        rw [← hkey, Function.update_self] at hcurrent'
        cases hcurrent'

end Fencing

end Effectus
