import Mathlib.Data.List.Induction

/-!
Programs that share a state. A program asks the system for one atomic call at a time and goes on with
the reply; any number of programs run interleaved, and calls from outside come in between. What a reply
depends on besides the state is the call's ambient input, so a schedule fixes a run.

A guarantee says of each call what holds when it is made, given the calls made before. A program keeps a
guarantee if its calls meet it in every trace the others may leave it in, as long as they keep it too;
if every program keeps it, every call of every run meets it.
-/

namespace Effectus

/-- The calls of a system, what each returns, and what each does. A call that returns nothing has to
wait. -/
structure System where
  Call : Type
  Reply : Call → Type
  Ambient : Type
  State : Type
  step : (c : Call) → Ambient → State → Option (Reply c × State)

/-- A program: a result, or a call and what follows its reply. -/
inductive Prog (S : System) (α : Type) where
  | ret (a : α)
  | call (c : S.Call) (k : S.Reply c → Prog S α)

namespace Prog

variable {S : System} {α β γ : Type}

def bind : Prog S α → (α → Prog S β) → Prog S β
  | .ret a, f => f a
  | .call c k, f => .call c fun r => (k r).bind f

instance : Monad (Prog S) where
  pure := .ret
  bind := .bind

/-- One call. -/
def perform (c : S.Call) : Prog S (S.Reply c) := .call c .ret

/-- Every call the program can come to is one of these. -/
def Calls (K : S.Call → Prop) : Prog S α → Prop
  | .ret _ => True
  | .call c k => K c ∧ ∀ r, (k r).Calls K

@[simp] theorem bind_eq (p : Prog S α) (f : α → Prog S β) : p >>= f = p.bind f := rfl

theorem Calls.bind {K : S.Call → Prop} {f : α → Prog S β} (hf : ∀ a, (f a).Calls K) :
    ∀ {p : Prog S α}, p.Calls K → (p.bind f).Calls K
  | .ret a, _ => hf a
  | .call _ _, h => ⟨h.1, fun r => Calls.bind hf (h.2 r)⟩

theorem Calls.mono {K L : S.Call → Prop} (hKL : ∀ c, K c → L c) : ∀ {p : Prog S α}, p.Calls K → p.Calls L
  | .ret _, _ => trivial
  | .call _ _, h => ⟨hKL _ h.1, fun r => Calls.mono hKL (h.2 r)⟩

theorem calls_perform {K : S.Call → Prop} {c : S.Call} (h : K c) : (perform c).Calls K := ⟨h, fun _ => trivial⟩

end Prog

/-- A call that was made, by a program or from outside. -/
structure Event (S : System) where
  thread : Option Nat
  call : S.Call
  ambient : S.Ambient
  reply : S.Reply call
  before : S.State
  after : S.State

/-- The calls made so far, in order. -/
abbrev Trace (S : System) := List (Event S)

/-! ### Runs -/

/-- The programs as far as they have come, the state and the trace. -/
structure Config (S : System) (α : Type) where
  threads : List (Prog S α)
  state : S.State
  trace : Trace S

/-- What a schedule does next. -/
inductive Turn (S : System) where
  | thread (i : Nat) (ambient : S.Ambient)
  | outside (c : S.Call) (ambient : S.Ambient)

namespace Config

variable {S : System} {α : Type}

/-- One turn: a program's next call, or a call from outside if it is allowed there. -/
def step (allowed : S.Call → Bool) (cfg : Config S α) : Turn S → Config S α
  | .thread i a =>
    match cfg.threads[i]? with
    | some (.call c k) =>
      match S.step c a cfg.state with
      | some (r, s) => ⟨cfg.threads.set i (k r), s, cfg.trace ++ [⟨some i, c, a, r, cfg.state, s⟩]⟩
      | none => cfg
    | _ => cfg
  | .outside c a =>
    if allowed c then
      match S.step c a cfg.state with
      | some (r, s) => ⟨cfg.threads, s, cfg.trace ++ [⟨none, c, a, r, cfg.state, s⟩]⟩
      | none => cfg
    else cfg

def run (allowed : S.Call → Bool) (cfg : Config S α) (turns : List (Turn S)) : Config S α :=
  turns.foldl (step allowed) cfg

end Config

section

variable {S : System} {α β : Type} {s₀ : S.State} {G : Trace S → Event S → Prop}

/-- A trace from `s₀` to a state, each call of which met the guarantee. -/
inductive Valid (s₀ : S.State) (G : Trace S → Event S → Prop) : Trace S → S.State → Prop
  | nil : Valid s₀ G [] s₀
  | snoc {h : Trace S} {e : Event S} : Valid s₀ G h e.before →
      S.step e.call e.ambient e.before = some (e.reply, e.after) → G h e → Valid s₀ G (h ++ [e]) e.after

/-- Others may have made calls since. -/
def Others (i : Nat) (h h' : Trace S) : Prop := ∃ since, h' = h ++ since ∧ ∀ e ∈ since, e.thread ≠ some i

theorem Others.refl (i : Nat) (h : Trace S) : Others i h h := ⟨[], by simp, by simp⟩

theorem Others.snoc {i : Nat} {h h' : Trace S} {e : Event S} (ho : Others i h h') (he : e.thread ≠ some i) :
    Others i h (h' ++ [e]) := by
  obtain ⟨since, rfl, hs⟩ := ho
  refine ⟨since ++ [e], by simp, fun x hx => ?_⟩
  rcases List.mem_append.1 hx with hx | hx
  · exact hs x hx
  · rw [List.mem_singleton.1 hx]
    exact he

theorem Others.isPrefix {i : Nat} {h h' : Trace S} (ho : Others i h h') : h <+: h' := by
  obtain ⟨since, rfl, -⟩ := ho
  exact List.prefix_append ..

/-- Since then thread `i` made only calls among these. -/
def Extends (i : Nat) (K : S.Call → Prop) (h h' : Trace S) : Prop :=
  ∃ since, h' = h ++ since ∧ ∀ e ∈ since, e.thread = some i → K e.call

namespace Extends

variable {i : Nat} {K : S.Call → Prop} {h h' h'' : Trace S}

theorem refl (i : Nat) (K : S.Call → Prop) (h : Trace S) : Extends i K h h := ⟨[], by simp, by simp⟩

theorem isPrefix (he : Extends i K h h') : h <+: h' := by
  obtain ⟨since, rfl, -⟩ := he
  exact List.prefix_append ..

theorem trans (he : Extends i K h h') (he' : Extends i K h' h'') : Extends i K h h'' := by
  obtain ⟨since, rfl, hs⟩ := he
  obtain ⟨more, rfl, hm⟩ := he'
  refine ⟨since ++ more, by simp, fun e hmem => ?_⟩
  rcases List.mem_append.1 hmem with hmem | hmem
  · exact hs e hmem
  · exact hm e hmem

theorem others (he : Extends i K h h') (ho : Others i h' h'') : Extends i K h h'' := by
  obtain ⟨since, rfl, hs⟩ := ho
  exact he.trans ⟨since, rfl, fun e hm ht => absurd ht (hs e hm)⟩

theorem snoc {e : Event S} (he : Extends i K h h') (hc : e.thread = some i → K e.call) : Extends i K h (h' ++ [e]) :=
  he.trans ⟨[e], rfl, fun x hx => by rw [List.mem_singleton.1 hx]; exact hc⟩

end Extends

/-- Whatever the calls of thread `i` tell satisfies `P`. -/
def Tells (i : Nat) (tell : Event S → Option β) (P : β → Prop) (h : Trace S) : Prop :=
  ∀ e ∈ h, e.thread = some i → ∀ x, tell e = some x → P x

namespace Tells

variable {i : Nat} {tell : Event S → Option β} {P Q : β → Prop} {h h' : Trace S}

theorem nil : Tells i tell P ([] : Trace S) := by simp [Tells]

theorem append (ht : Tells i tell P h) (ht' : Tells i tell P h') : Tells i tell P (h ++ h') := fun e he =>
  (List.mem_append.1 he).elim (ht e) (ht' e)

theorem snoc {e : Event S} (ht : Tells i tell P h) (he : ∀ x, tell e = some x → P x) : Tells i tell P (h ++ [e]) :=
  ht.append fun x hx _ => by
    rw [List.mem_singleton.1 hx]
    exact he

theorem silent {e : Event S} (ht : Tells i tell P h) (he : tell e = none) : Tells i tell P (h ++ [e]) :=
  ht.snoc fun x hx => by
    rw [he] at hx
    cases hx

theorem mono (hPQ : ∀ x, P x → Q x) (ht : Tells i tell P h) : Tells i tell Q h :=
  fun e he hi x hx => hPQ x (ht e he hi x hx)

/-- Calls that tell nothing change nothing. -/
theorem extend {K : S.Call → Prop} (hK : ∀ e : Event S, K e.call → tell e = none) (he : Extends i K h h')
    (ht : Tells i tell P h) : Tells i tell P h' := by
  obtain ⟨since, rfl, hs⟩ := he
  refine ht.append fun e hm hi x hx => ?_
  rw [hK e (hs e hm hi)] at hx
  cases hx

theorem others (ho : Others i h h') (ht : Tells i tell P h) : Tells i tell P h' :=
  ht.extend (K := fun _ => False) (fun _ h => h.elim) ((Extends.refl ..).others ho)

end Tells

/-! ### What a trace settles -/

namespace Valid

variable {h h' : Trace S} {s s' : S.State}

/-- What holds at first and is kept by every call that meets the guarantee holds throughout. -/
theorem invariant {P : Trace S → S.State → Prop} (init : P [] s₀)
    (step : ∀ h e, Valid s₀ G h e.before → S.step e.call e.ambient e.before = some (e.reply, e.after) → G h e →
      P h e.before → P (h ++ [e]) e.after) (hv : Valid s₀ G h s) : P h s := by
  induction hv with
  | nil => exact init
  | snoc hv hstep hg ih => exact step _ _ hv hstep hg ih

/-- The calls of a trace before one of them lead to the state it was made in. -/
theorem split {e : Event S} {rest : Trace S} (hv : Valid s₀ G (h ++ e :: rest) s) :
    Valid s₀ G h e.before ∧ S.step e.call e.ambient e.before = some (e.reply, e.after) ∧ G h e := by
  generalize hg : h ++ e :: rest = g at hv
  induction hv generalizing rest with
  | nil => simp at hg
  | @snoc g x hv hstep hG ih =>
    rcases List.eq_nil_or_concat rest with rfl | ⟨more, y, rfl⟩
    · obtain ⟨rfl, hx⟩ := List.append_inj' hg rfl
      cases hx
      exact ⟨hv, hstep, hG⟩
    · have heq : (h ++ e :: more) ++ [y] = g ++ [x] := by simpa using hg
      exact ih (List.append_inj' heq rfl).1

theorem state_unique (hv : Valid s₀ G h s) (hv' : Valid s₀ G h s') : s = s' := by
  cases hv with
  | nil =>
    generalize hh : ([] : Trace S) = g at hv'
    cases hv' with
    | nil => rfl
    | snoc => simp at hh
  | @snoc g e =>
    generalize hh : g ++ [e] = g' at hv'
    cases hv' with
    | nil => simp at hh
    | snoc =>
      have := (List.append_inj' hh rfl).2
      cases this
      rfl

end Valid

/-- A property of the state every call keeps. -/
def Stable (s₀ : S.State) (G : Trace S → Event S → Prop) (P : S.State → Prop) : Prop :=
  ∀ h e, Valid s₀ G h e.before → S.step e.call e.ambient e.before = some (e.reply, e.after) → G h e →
    P e.before → P e.after

/-- The property holds now and in every state to come. -/
def Since (s₀ : S.State) (G : Trace S → Event S → Prop) (P : S.State → Prop) (h : Trace S) : Prop :=
  ∀ h' s, h <+: h' → Valid s₀ G h' s → P s

namespace Since

variable {P Q : S.State → Prop} {h h' : Trace S} {s : S.State}

theorem intro (hP : Stable s₀ G P) (hv : Valid s₀ G h s) (hs : P s) : Since s₀ G P h := by
  rintro h' t ⟨since, rfl⟩ hv'
  induction since using List.reverseRecOn generalizing t with
  | nil =>
    rw [List.append_nil] at hv'
    exact hv.state_unique hv' ▸ hs
  | append_singleton since e ih =>
    rw [← List.append_assoc] at hv'
    obtain ⟨hbefore, hstep, hg⟩ := (show Valid s₀ G ((h ++ since) ++ e :: []) t from hv').split
    have hafter : Valid s₀ G (h ++ since ++ [e]) e.after := .snoc hbefore hstep hg
    exact hafter.state_unique hv' ▸ hP _ e hbefore hstep hg (ih _ hbefore)

theorem extend (hs : Since s₀ G P h) (hp : h <+: h') : Since s₀ G P h' :=
  fun g s hg hv => hs g s (hp.trans hg) hv

end Since

/-- The program, as thread `i` after a trace, meets the guarantee with every call and ends in a result
and a trace that satisfy `Q`. -/
def Keeps (s₀ : S.State) (G : Trace S → Event S → Prop) (i : Nat) :
    Prog S α → Trace S → (α → Trace S → Prop) → Prop
  | .ret a, h, Q => Q a h
  | .call c k, h, Q => ∀ h' s, Others i h h' → Valid s₀ G h' s → ∀ a r t, S.step c a s = some (r, t) →
      G h' ⟨some i, c, a, r, s, t⟩ ∧ Keeps s₀ G i (k r) (h' ++ [⟨some i, c, a, r, s, t⟩]) Q

namespace Keeps

variable {i : Nat} {p : Prog S α} {h : Trace S} {Q R : α → Trace S → Prop}

theorem mono (hQ : ∀ a h', h <+: h' → Q a h' → R a h') (hp : Keeps s₀ G i p h Q) : Keeps s₀ G i p h R := by
  induction p generalizing h with
  | ret a => exact hQ a h (List.prefix_rfl) hp
  | call c k ih =>
    intro h' s ho hv a r t hstep
    obtain ⟨hg, hk⟩ := hp h' s ho hv a r t hstep
    refine ⟨hg, ih r (fun b h'' hp' => hQ b h'' ?_) hk⟩
    exact ho.isPrefix.trans ((List.prefix_append ..).trans hp')

theorem bind {f : α → Prog S β} {Q : β → Trace S → Prop}
    (hp : Keeps s₀ G i p h fun a h' => Keeps s₀ G i (f a) h' Q) : Keeps s₀ G i (p.bind f) h Q := by
  induction p generalizing h with
  | ret a => exact hp
  | call c k ih =>
    intro h' s ho hv a r t hstep
    obtain ⟨hg, hk⟩ := hp h' s ho hv a r t hstep
    exact ⟨hg, ih r hk⟩

/-- A program all of whose calls meet the guarantee, whatever the trace, keeps it. What it did is one of
those calls; nothing is known of its result. -/
theorem of_calls {K : S.Call → Prop} (hp : p.Calls K)
    (hK : ∀ c, K c → ∀ h' s, Extends i K h h' → Valid s₀ G h' s → ∀ a r t, S.step c a s = some (r, t) →
      G h' ⟨some i, c, a, r, s, t⟩) : Keeps s₀ G i p h fun _ => Extends i K h := by
  suffices hs : ∀ (q : Prog S α) (g : Trace S), Extends i K h g → q.Calls K → Keeps s₀ G i q g fun _ => Extends i K h from
    hs p h (Extends.refl ..) hp
  intro q
  induction q with
  | ret a => exact fun g hg _ => hg
  | call c k ih =>
    intro g hg hc h' s ho hv a r t hstep
    have hh : Extends i K h h' := hg.others ho
    exact ⟨hK c hc.1 h' s hh hv a r t hstep, ih r _ (hh.snoc fun _ => hc.1) (hc.2 r)⟩

end Keeps

/-- Every thread has come to a program that keeps the guarantee from a trace since which only others
made calls, and that ends as it should. -/
def Kept (s₀ : S.State) (G : Trace S → Event S → Prop) (Q : Nat → α → Trace S → Prop) (cfg : Config S α) : Prop :=
  Valid s₀ G cfg.trace cfg.state ∧
    ∀ i p, cfg.threads[i]? = some p → ∃ h, Others i h cfg.trace ∧ Keeps s₀ G i p h (Q i)

section

variable {allowed : S.Call → Bool} {Q : Nat → α → Trace S → Prop}

theorem kept_step {cfg : Config S α}
    (houtside : ∀ h c a r s t, Valid s₀ G h s → allowed c = true → S.step c a s = some (r, t) →
      G h ⟨none, c, a, r, s, t⟩) (hk : Kept s₀ G Q cfg) (m : Turn S) : Kept s₀ G Q (cfg.step allowed m) := by
  obtain ⟨hv, ht⟩ := hk
  cases m with
  | thread i a =>
    simp only [Config.step]
    split
    · rename_i c k hi
      split
      · rename_i r s hstep
        obtain ⟨h, ho, hp⟩ := ht i _ hi
        obtain ⟨hg, hk⟩ := hp _ _ ho hv a r s hstep
        refine ⟨.snoc (e := ⟨some i, c, a, r, cfg.state, s⟩) hv hstep hg, fun j q hj => ?_⟩
        by_cases hij : i = j
        · subst hij
          rw [List.getElem?_set_self (List.getElem?_eq_some_iff.1 hi).1] at hj
          cases hj
          exact ⟨_, Others.refl .., hk⟩
        · rw [List.getElem?_set_ne hij] at hj
          obtain ⟨h', ho', hp'⟩ := ht j q hj
          exact ⟨h', ho'.snoc (by simpa using hij), hp'⟩
      · exact ⟨hv, ht⟩
    · exact ⟨hv, ht⟩
  | outside c a =>
    simp only [Config.step]
    split
    · rename_i hc
      split
      · rename_i r s hstep
        refine ⟨.snoc (e := ⟨none, c, a, r, cfg.state, s⟩) hv hstep (houtside _ _ _ _ _ _ hv hc hstep), fun j q hj => ?_⟩
        obtain ⟨h', ho', hp'⟩ := ht j q hj
        exact ⟨h', ho'.snoc (by simp), hp'⟩
      · exact ⟨hv, ht⟩
    · exact ⟨hv, ht⟩

/-- If every program keeps the guarantee, and calls from outside meet it, every call of every run does, and a program
that has ended has ended as it should. -/
theorem run_kept {threads : List (Prog S α)}
    (houtside : ∀ h c a r s t, Valid s₀ G h s → allowed c = true → S.step c a s = some (r, t) →
      G h ⟨none, c, a, r, s, t⟩)
    (hthreads : ∀ i p, threads[i]? = some p → Keeps s₀ G i p [] (Q i)) (turns : List (Turn S)) :
    Kept s₀ G Q (Config.run allowed ⟨threads, s₀, []⟩ turns) := by
  suffices h : ∀ cfg : Config S α, Kept s₀ G Q cfg → Kept s₀ G Q (cfg.run allowed turns) from
    h ⟨threads, s₀, []⟩ ⟨.nil, fun i p hi => ⟨[], Others.refl .., hthreads i p hi⟩⟩
  induction turns with
  | nil => exact fun _ h => h
  | cons m turns ih => exact fun cfg h => ih _ (kept_step houtside h m)

theorem Kept.result {cfg : Config S α} (hk : Kept s₀ G Q cfg) {i : Nat} {a : α} (hi : cfg.threads[i]? = some (.ret a)) :
    ∃ h, Others i h cfg.trace ∧ Q i a h :=
  hk.2 i _ hi

end

end

end Effectus
