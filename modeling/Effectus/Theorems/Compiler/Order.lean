import Effectus.Compiler.Lower
import Effectus.Go.Reference
import Effectus.IR.Wire
import Effectus.Theorems.Compiler.Blocks
import Effectus.Theorems.Compiler.Frontend
import Effectus.Theorems.IR.Distinct
import Effectus.Theorems.IR.Environment
import Mathlib.Data.List.Perm.Subperm

/-!
The order of compiled plans. Sources are read by path and declarations by position, each dialect numbers its own, and
the plans are sorted by dialect, priority and number. A priority is narrowed to 32 bits on the way.
-/

namespace Effectus

namespace Compiler

open Fallible

/-! ### Declarations -/

/-- A rule or a flow as it is written: its name, and what orders it among the others. -/
structure Declaration where
  dialect : SourceDialect
  name : Text
  priority : Int
  path : Text
  pos : Position

section

variable {N K L M : Type} {path : Text} {read : N → Text}

/-- The declarations of the tree of a source. -/
def File.declarations (path : Text) (read : N → Text) (file : File N L) : List Declaration :=
  file.rules.map (fun rule => ⟨.list, read rule.name, rule.priority, path, rule.pos⟩) ++
    file.flows.map fun flow => ⟨.flow, read flow.name, flow.priority, path, flow.pos⟩

theorem File.declarations_pos (file : File N L) : (file.declarations path read).map (·.pos) = file.positions := by
  simp [File.declarations, File.positions, Function.comp_def]

theorem File.declarations_map {read : K → Text} (g : N → K) (f : L → M) (file : File N L) :
    (file.map g f).declarations path read = file.declarations path (read ∘ g) := by
  simp [File.declarations, File.map, Rule.map, Flow.map, Function.comp_def]

theorem restore_declarations {file restored : File N L} {content : Text}
    (h : restoreCheckedPredicateText file content = .ok restored) :
    restored.declarations path read = file.declarations path read := by
  obtain ⟨texts, -, h⟩ := bind_ok.1 h
  obtain ⟨⟨tree, left⟩, htree, h⟩ := bind_ok.1 h
  obtain ⟨-, h⟩ := guard_ok.1 h
  cases h
  obtain ⟨rules, s₁, hrules, h⟩ := run_bind_ok.1 htree
  obtain ⟨flows, s₂, hflows, h⟩ := run_bind_ok.1 h
  cases run_pure_ok.1 h
  unfold File.declarations
  congr 1
  · refine (Pointwise.map_eq (Pointwise.forall₂_of_mapM_run hrules) ?_).symm
    rintro rule rule' ⟨s, s', hrule⟩
    obtain ⟨blocks, s₁, -, h⟩ := run_bind_ok.1 hrule
    cases run_pure_ok.1 h
    rfl
  · refine (Pointwise.map_eq (Pointwise.forall₂_of_mapM_run hflows) ?_).symm
    rintro flow flow' ⟨s, s', hflow⟩
    obtain ⟨text, s₁, -, h⟩ := run_bind_ok.1 hflow
    cases run_pure_ok.1 h
    rfl

theorem normalize_declarations {read : Text → Text} (file : File Text AstLiteral) :
    (normalizeCheckedSourceAST file).declarations path read = file.declarations path (read ∘ unquoteString) := by
  simp [File.declarations, normalizeCheckedSourceAST, Rule.map, Flow.map, Function.comp_def]

theorem bindings_declarations {file file' : File N L} (h : normalizeFlowBindings file = .ok file') :
    file'.declarations path read = file.declarations path read := by
  obtain ⟨hrules, hflows⟩ := normalizeFlowBindings_ok h
  unfold File.declarations
  rw [hrules]
  congr 1
  refine (Pointwise.map_eq hflows fun flow flow' hflow => ?_).symm
  obtain ⟨steps, -, rfl⟩ := normalizeFlow_ok hflow
  rfl

end

/-- The declarations of a source. -/
def declarationsOf (source : Source) : List Declaration :=
  match normalizeSourcePath source.path, parse source.content with
  | .ok path, some tree => tree.declarations path fun name => unquoteString name.text
  | _, _ => []

def ParsedSource.declarations (parsed : ParsedSource) : List Declaration := parsed.file.declarations parsed.path id

theorem ReadFrom.declarations {source : Source} {parsed : ParsedSource} (h : ReadFrom source parsed) :
    parsed.declarations = declarationsOf source := by
  obtain ⟨-, tree, file, hread⟩ := parseSource_ok h.file
  rw [ParsedSource.declarations, bindings_declarations hread.normalizes, normalize_declarations,
    restore_declarations hread.restores, File.declarations_map, declarationsOf, h.path, hread.parses]
  rfl

/-! ### Orders -/

/-- By path, and by position in a source. -/
def Declaration.Earlier (a b : Declaration) : Prop :=
  Text.lt a.path b.path = true ∨ a.path = b.path ∧ a.pos.Before b.pos

/-- Rules before flows, in a dialect the higher rank first, and then the earlier one. -/
def Declaration.Before (rank : Int → Int) (a b : Declaration) : Prop :=
  a.dialect = .list ∧ b.dialect = .flow ∨
    a.dialect = b.dialect ∧ (rank b.priority < rank a.priority ∨ rank a.priority = rank b.priority ∧ a.Earlier b)

theorem Declaration.Earlier.asymm {a b : Declaration} (h : a.Earlier b) : ¬b.Earlier a := by
  unfold Declaration.Earlier Position.Before at *
  simp only [Text.lt, decide_eq_true_eq] at *
  rintro (hpath | ⟨hpath, hpos⟩)
  · rcases h with h | ⟨h, -⟩
    · exact List.lt_asymm h hpath
    · rw [h] at hpath
      exact List.lt_irrefl _ hpath
  · rcases h with h | ⟨-, h⟩
    · rw [hpath] at h
      exact List.lt_irrefl _ h
    · omega

theorem Declaration.Before.asymm {rank : Int → Int} {a b : Declaration} (h : a.Before rank b) : ¬b.Before rank a := by
  rintro (⟨hb, ha⟩ | ⟨hdialect, hrank⟩)
  · rcases h with ⟨ha', -⟩ | ⟨hdialect, -⟩
    · exact nomatch ha'.symm.trans ha
    · rw [ha, hb] at hdialect
      cases hdialect
  · rcases h with ⟨ha', hb'⟩ | ⟨-, hrank'⟩
    · rw [ha', hb'] at hdialect
      cases hdialect
    · rcases hrank with hlt | ⟨heq, hearlier⟩
      · rcases hrank' with hlt' | ⟨heq', -⟩ <;> omega
      · rcases hrank' with hlt' | ⟨-, hearlier'⟩
        · omega
        · exact hearlier.asymm hearlier'

/-! ### Sources by path -/

theorem parseEach_eq : ∀ {sources : List Source} {parsed : List ParsedSource} {seen : List Text},
    List.Forall₂ ReadFrom sources parsed → (parsed.map (·.path)).Nodup → (∀ x ∈ parsed, x.path ∉ seen) →
    parseEach seen sources = .ok parsed
  | _, _, seen, .nil, _, _ => rfl
  | source :: sources, first :: parsed, seen, .cons hfirst hrest, hnodup, hseen => by
    obtain ⟨hfresh, hnodup⟩ := List.nodup_cons.1 hnodup
    obtain ⟨hfirstSeen, hrestSeen⟩ := List.forall_mem_cons.1 hseen
    have hothers : parseEach (first.path :: seen) sources = .ok parsed := by
      refine parseEach_eq hrest hnodup fun x hx hm => ?_
      rcases List.mem_cons.1 hm with heq | hm
      · exact hfresh (List.mem_map.2 ⟨x, hx, heq⟩)
      · exact hrestSeen x hx hm
    refine bind_ok.2 ⟨first.path, hfirst.path, guard_ok.2 ⟨by simpa using hfirstSeen, guard_ok.2 ⟨?_, ?_⟩⟩⟩
    · rintro ⟨heff, heffx⟩
      exact hfirst.extension.elim heff heffx
    · exact bind_ok.2 ⟨first, hfirst.file, bind_ok.2 ⟨parsed, hothers, rfl⟩⟩

/-- The order the sources are given in does not matter. -/
theorem parseSources_perm {sources sources' : List Source} {ordered : List ParsedSource}
    (h : parseSources sources = .ok ordered) (hperm : sources'.Perm sources) : parseSources sources' = .ok ordered := by
  obtain ⟨parsed, hread, hnodup, rfl⟩ := parseSources_ok h
  obtain ⟨parsed', hread', hperm'⟩ := List.perm_comp_forall₂ hperm hread
  have hnodup' : (parsed'.map (·.path)).Nodup := (hperm'.map _).nodup_iff.2 hnodup
  exact bind_ok.2 ⟨parsed', parseEach_eq hread' hnodup' (fun _ _ => List.not_mem_nil),
    congrArg Except.ok (SortBy.sort_perm hperm' hnodup')⟩

theorem ParsedSource.declarations_path {parsed : ParsedSource} : ∀ d ∈ parsed.declarations, d.path = parsed.path := by
  intro d hd
  rcases List.mem_append.1 hd with hd | hd <;>
  · obtain ⟨x, -, rfl⟩ := List.mem_map.1 hd
    rfl

theorem ReadFrom.positions {source : Source} {parsed : ParsedSource} (h : ReadFrom source parsed) :
    parsed.file.positions.Pairwise Position.Before := by
  obtain ⟨-, tree, file, hread⟩ := parseSource_ok h.file
  have hdeclarations := h.declarations
  rw [declarationsOf, h.path, hread.parses] at hdeclarations
  have hpos := congrArg (List.map (·.pos)) hdeclarations
  rw [ParsedSource.declarations, File.declarations_pos, File.declarations_pos] at hpos
  rw [hpos]
  exact parse_ordered hread.parses

theorem ReadFrom.earlier {source : Source} {parsed : ParsedSource} (h : ReadFrom source parsed) :
    parsed.declarations.Pairwise Declaration.Earlier := by
  have hpos : parsed.declarations.Pairwise fun a b => a.pos.Before b.pos := by
    refine List.pairwise_map.1 ?_
    rw [ParsedSource.declarations, File.declarations_pos]
    exact h.positions
  refine hpos.imp_of_mem fun {a b} ha hb hab => .inr ⟨?_, hab⟩
  rw [ParsedSource.declarations_path a ha, ParsedSource.declarations_path b hb]

theorem dialect_of_mem {ordered : List ParsedSource} :
    ∀ d ∈ ordered.flatMap ParsedSource.declarations, d.dialect = .list ∨ d.dialect = .flow := by
  intro d hd
  obtain ⟨p, -, hd⟩ := List.mem_flatMap.1 hd
  rcases List.mem_append.1 hd with hd | hd
  · obtain ⟨rule, -, rfl⟩ := List.mem_map.1 hd
    exact .inl rfl
  · obtain ⟨flow, -, rfl⟩ := List.mem_map.1 hd
    exact .inr rfl

/-- All declarations, by path and position. -/
theorem declarations_earlier {sources : List Source} {ordered : List ParsedSource}
    (h : parseSources sources = .ok ordered) :
    (ordered.flatMap ParsedSource.declarations).Perm (sources.flatMap declarationsOf) ∧
      (ordered.flatMap ParsedSource.declarations).Pairwise Declaration.Earlier ∧
      ∀ p ∈ ordered, ∃ source, ReadFrom source p := by
  obtain ⟨parsed, hread, hnodup, rfl⟩ := parseSources_ok h
  have hperm := List.perm_insertionSort (fun a b : ParsedSource => Text.lt b.path a.path = false) parsed
  have hreads : ∀ p ∈ parsed.insertionSort (fun a b => Text.lt b.path a.path = false), ∃ source, ReadFrom source p := by
    intro p hp
    obtain ⟨source, -, hsource⟩ := Pointwise.mem_right hread (hperm.mem_iff.1 hp)
    exact ⟨source, hsource⟩
  refine ⟨?_, ?_, hreads⟩
  · have heq : parsed.map ParsedSource.declarations = sources.map declarationsOf :=
      (Pointwise.map_eq hread fun _ _ hp => hp.declarations.symm).symm
    rw [List.flatMap_def (l := sources), ← heq, ← List.flatMap_def]
    exact hperm.flatMap_right _
  · refine List.pairwise_flatMap.2 ⟨fun p hp => ?_, (SortBy.sort_strict hnodup).imp fun {p q} hpq a ha b hb => .inl ?_⟩
    · obtain ⟨source, hsource⟩ := hreads p hp
      exact hsource.earlier
    · rwa [ParsedSource.declarations_path a ha, ParsedSource.declarations_path b hb]

/-! ### Lowering -/

/-- The plan of a declaration, numbered in its dialect. -/
structure Lowered (d : Declaration) (order : Nat) (plan : Plan) : Prop where
  id : plan.id = d.name
  dialect : plan.sourceDialect = d.dialect
  priority : plan.priority = .ofInt d.priority
  order : plan.sourceOrder = .ofNat order

/-- The plans of declarations, each dialect numbered from its own number on. -/
inductive Lowers : (SourceDialect → Nat) → List Declaration → List Plan → Prop
  | nil (next : SourceDialect → Nat) : Lowers next [] []
  | cons {next : SourceDialect → Nat} {d : Declaration} {plan : Plan} {ds : List Declaration} {plans : List Plan}
      (head : Lowered d (next d.dialect) plan)
      (more : Lowers (Function.update next d.dialect (next d.dialect + 1)) ds plans) : Lowers next (d :: ds) (plan :: plans)

theorem lowerEach_lowers {D : Type} {path : Text} {pos : D → Position} {lower : D → Nat → Except Err Plan}
    {declared : D → Declaration} (dialect : SourceDialect) (hdialect : ∀ x, (declared x).dialect = dialect)
    (hlower : ∀ x order plan, lower x order = .ok plan → Lowered (declared x) order plan) :
    ∀ (next : SourceDialect → Nat) {xs : List D} {plans : List Plan} {ds : List Declaration} {more : List Plan},
    lowerEach path pos lower (next dialect) xs = .ok plans →
    Lowers (Function.update next dialect (next dialect + plans.length)) ds more →
    Lowers next (xs.map declared ++ ds) (plans ++ more)
  | next, [], plans, ds, more, h, hmore => by
    cases h
    simpa using hmore
  | next, x :: xs, plans, ds, more, h, hmore => by
    obtain ⟨plan, hplan, h⟩ := bind_ok.1 h
    obtain ⟨others, hothers, h⟩ := bind_ok.1 h
    cases h
    refine .cons ?_ ?_
    · rw [hdialect]
      exact hlower x _ plan (mapError_ok.1 hplan)
    · rw [hdialect]
      refine lowerEach_lowers dialect hdialect hlower _ (by simpa using hothers) ?_
      have hcount : next dialect + (plan :: others).length = next dialect + 1 + others.length := by
        rw [List.length_cons]
        omega
      rw [hcount] at hmore
      simpa using hmore

/-- The numbers rules and flows go on from. -/
def nextOrders (listOrder flowOrder : Nat) : SourceDialect → Nat
  | .list => listOrder
  | .flow => flowOrder
  | _ => 0

theorem nextOrders_zero : nextOrders 0 0 = fun _ => 0 := by
  funext dialect
  cases dialect <;> rfl

theorem nextOrders_rules (listOrder flowOrder n : Nat) :
    Function.update (nextOrders listOrder flowOrder) .list (listOrder + n) = nextOrders (listOrder + n) flowOrder := by
  funext dialect
  cases dialect <;> simp [Function.update, nextOrders]

theorem nextOrders_flows (listOrder flowOrder n : Nat) :
    Function.update (nextOrders listOrder flowOrder) .flow (flowOrder + n) = nextOrders listOrder (flowOrder + n) := by
  funext dialect
  cases dialect <;> simp [Function.update, nextOrders]

theorem insertionSort_declared {D : Type} {pos : D → Position} {xs : List D}
    (h : (xs.map pos).Pairwise Position.Before) :
    (xs.insertionSort fun a b => declarationBefore (pos b) (pos a) = false) = xs := by
  refine List.Pairwise.insertionSort_eq ((List.pairwise_map.1 h).imp fun {a b} hab => ?_)
  unfold Position.Before at hab
  unfold declarationBefore
  split
  · simp only [decide_eq_false_iff_not]
    omega
  · simp only [decide_eq_false_iff_not]
    omega

section

variable [Platform] [ExprParser]

theorem lowerListRule_lowered {rule : Rule Text AstLiteral} {order : Nat} {environment : Environment}
    {policy : ExecutionPolicy} {plan : Plan} {path : Text} (h : lowerListRule rule order environment policy = .ok plan) :
    Lowered ⟨.list, rule.name, rule.priority, path, rule.pos⟩ order plan := by
  obtain ⟨-, h⟩ := guard_ok.1 h
  obtain ⟨predicates, -, h⟩ := bind_ok.1 h
  obtain ⟨steps, -, h⟩ := bind_ok.1 h
  cases h
  exact ⟨rfl, rfl, rfl, rfl⟩

theorem lowerFlow_lowered {flow : Flow Text AstLiteral} {order : Nat} {environment : Environment}
    {policy : ExecutionPolicy} {plan : Plan} {path : Text} (h : lowerFlow flow order environment policy = .ok plan) :
    Lowered ⟨.flow, flow.name, flow.priority, path, flow.pos⟩ order plan := by
  obtain ⟨-, h⟩ := guard_ok.1 h
  split at h <;>
  · obtain ⟨predicate, -, h⟩ := bind_ok.1 h
    obtain ⟨steps, -, h⟩ := bind_ok.1 h
    cases h
    exact ⟨rfl, rfl, rfl, rfl⟩

theorem lowerParsed_lowers {environment : Environment} {policy : ExecutionPolicy} :
    ∀ {ordered : List ParsedSource} {listOrder flowOrder : Nat} {plans : List Plan},
    (∀ p ∈ ordered, ∃ source, ReadFrom source p) →
    lowerParsed environment policy listOrder flowOrder ordered = .ok plans →
    Lowers (nextOrders listOrder flowOrder) (ordered.flatMap ParsedSource.declarations) plans
  | [], listOrder, flowOrder, plans, _, h => by
    cases h
    exact .nil _
  | p :: ordered, listOrder, flowOrder, plans, hread, h => by
    obtain ⟨⟨source, hp⟩, hrest⟩ := List.forall_mem_cons.1 hread
    obtain ⟨-, tree, file, htree⟩ := parseSource_ok hp.file
    obtain ⟨hrules, hflows, -⟩ := List.pairwise_append.1 hp.positions
    rw [lowerParsed] at h
    rw [List.flatMap_cons, ParsedSource.declarations, File.declarations]
    split at h
    · rename_i hext
      rw [insertionSort_declared hrules] at h
      obtain ⟨first, hfirst, h⟩ := bind_ok.1 h
      obtain ⟨others, hothers, h⟩ := bind_ok.1 h
      cases h
      rw [htree.rules hext, List.map_nil, List.append_nil]
      refine lowerEach_lowers .list (fun _ => rfl) (fun _ _ _ h => lowerListRule_lowered h)
        (nextOrders listOrder flowOrder) hfirst ?_
      rw [show nextOrders listOrder flowOrder .list = listOrder from rfl, nextOrders_rules]
      exact lowerParsed_lowers hrest hothers
    · rename_i hext
      rw [insertionSort_declared hflows] at h
      obtain ⟨first, hfirst, h⟩ := bind_ok.1 h
      obtain ⟨others, hothers, h⟩ := bind_ok.1 h
      cases h
      rw [htree.flows (hp.extension.resolve_left hext), List.map_nil, List.nil_append]
      refine lowerEach_lowers .flow (fun _ => rfl) (fun _ _ _ h => lowerFlow_lowered h)
        (nextOrders listOrder flowOrder) hfirst ?_
      rw [show nextOrders listOrder flowOrder .flow = flowOrder from rfl, nextOrders_flows]
      exact lowerParsed_lowers hrest hothers

end

/-! ### Numbers -/

/-- How many plans there are of a dialect. -/
def countOf (dialect : SourceDialect) (plans : List Plan) : Nat := plans.countP fun plan => plan.sourceDialect = dialect

theorem length_le_of_lt {numbers : List Nat} {n : Nat} (h : numbers.Nodup) (hlt : ∀ k ∈ numbers, k < n) :
    numbers.length ≤ n := by
  have hsub : numbers.Subperm (List.range n) := List.subperm_of_subset h fun k hk => List.mem_range.2 (hlt k hk)
  simpa using hsub.length_le

/-- With no number taken twice there are no more plans than numbers. -/
theorem countOf_le {plans : List Plan} (h : (plans.map fun plan => (plan.sourceDialect, plan.sourceOrder)).Nodup)
    (dialect : SourceDialect) : countOf dialect plans ≤ 2 ^ 32 := by
  have hnodup : ((plans.filter fun plan => plan.sourceDialect = dialect).map fun plan => plan.sourceOrder.toNat).Nodup := by
    refine List.pairwise_map.2 (((List.pairwise_map.1 h).filter _).imp_of_mem fun {a b} ha hb hne heq => hne ?_)
    have ha := (List.mem_filter.1 ha).2
    have hb := (List.mem_filter.1 hb).2
    simp only [decide_eq_true_eq] at ha hb
    rw [ha, hb, UInt32.toNat_inj.1 heq]
  have hlt : ∀ k ∈ (plans.filter fun plan => plan.sourceDialect = dialect).map fun plan => plan.sourceOrder.toNat,
      k < 2 ^ 32 := by
    intro k hk
    obtain ⟨plan, -, rfl⟩ := List.mem_map.1 hk
    exact plan.sourceOrder.toNat_lt
  have hlength := length_le_of_lt hnodup hlt
  rwa [List.length_map, ← List.countP_eq_length_filter] at hlength

theorem Lowers.order_of_mem {next : SourceDialect → Nat} {ds : List Declaration} {plans : List Plan}
    (h : Lowers next ds plans) : ∀ plan ∈ plans, ∃ order, plan.sourceOrder = .ofNat order ∧
      next plan.sourceDialect ≤ order ∧ order < next plan.sourceDialect + countOf plan.sourceDialect plans := by
  induction h with
  | nil => exact nofun
  | @cons next d plan ds plans head more ih =>
    have hcount : ∀ dialect, countOf dialect (plan :: plans) =
        countOf dialect plans + if d.dialect = dialect then 1 else 0 := by
      intro dialect
      simp [countOf, List.countP_cons, head.dialect]
    refine List.forall_mem_cons.2 ⟨⟨next d.dialect, head.order, ?_⟩, fun plan' hplan' => ?_⟩
    · rw [head.dialect, hcount, if_pos rfl]
      omega
    · obtain ⟨order, horder, hlow, hhigh⟩ := ih plan' hplan'
      refine ⟨order, horder, ?_⟩
      rw [hcount]
      simp only [Function.update_apply] at hlow hhigh
      split at hlow
      · rename_i heq
        rw [if_pos heq] at hhigh
        rw [if_pos heq.symm, heq]
        rw [heq] at hhigh
        omega
      · rename_i hne
        rw [if_neg hne] at hhigh
        rw [if_neg (Ne.symm hne)]
        omega

/-- Of two declarations with their plans: the earlier one has the lower number in its dialect. -/
def NumberedBy (x y : Declaration × Plan) : Prop :=
  x.1.Earlier y.1 ∧ (x.2.sourceDialect = y.2.sourceDialect → x.2.sourceOrder < y.2.sourceOrder)

theorem Lowers.numberedBy {next : SourceDialect → Nat} {ds : List Declaration} {plans : List Plan}
    (h : Lowers next ds plans) (hearlier : ds.Pairwise Declaration.Earlier)
    (hcount : ∀ dialect, next dialect + countOf dialect plans ≤ 2 ^ 32) : (ds.zip plans).Pairwise NumberedBy := by
  induction h with
  | nil => exact .nil
  | @cons next d plan ds plans head more ih =>
    obtain ⟨hfirst, hrest⟩ := List.pairwise_cons.1 hearlier
    have hcons : ∀ dialect, countOf dialect (plan :: plans) =
        countOf dialect plans + if d.dialect = dialect then 1 else 0 := by
      intro dialect
      simp [countOf, List.countP_cons, head.dialect]
    have hnext : ∀ dialect, Function.update next d.dialect (next d.dialect + 1) dialect + countOf dialect plans ≤ 2 ^ 32 := by
      intro dialect
      have := hcount dialect
      rw [hcons] at this
      by_cases heq : dialect = d.dialect
      · subst heq
        rw [Function.update_self]
        simp only [if_true] at this
        omega
      · rw [Function.update_of_ne heq]
        omega
    rw [List.zip_cons_cons]
    refine List.pairwise_cons.2 ⟨?_, ih hrest hnext⟩
    rintro ⟨d', plan'⟩ hmem
    obtain ⟨hd', hplan'⟩ := List.of_mem_zip hmem
    refine ⟨hfirst d' hd', fun hdialect => ?_⟩
    obtain ⟨order, horder, hlow, hhigh⟩ := more.order_of_mem plan' hplan'
    have hsize := hnext plan'.sourceDialect
    show plan.sourceOrder < plan'.sourceOrder
    have hsame : plan'.sourceDialect = d.dialect := hdialect.symm.trans head.dialect
    rw [hsame] at hlow hhigh hsize
    rw [Function.update_self] at hlow hhigh hsize
    rw [head.order, horder, UInt32.ofNat_lt_iff_lt]
    · omega
    · show next d.dialect < 2 ^ 32
      omega
    · show order < 2 ^ 32
      omega

/-! ### Plans in order -/

/-- What `comparePlans` says of plans of the two dialects. -/
def PlanBefore (a b : Plan) : Prop :=
  a.sourceDialect = .list ∧ b.sourceDialect = .flow ∨ a.sourceDialect = b.sourceDialect ∧
    (b.priority < a.priority ∨ a.priority = b.priority ∧
      (a.sourceOrder < b.sourceOrder ∨ a.sourceOrder = b.sourceOrder ∧ Text.lt a.id b.id = true))

theorem planBefore_of_compare {a b : Plan} (ha : a.sourceDialect = .list ∨ a.sourceDialect = .flow)
    (hb : b.sourceDialect = .list ∨ b.sourceDialect = .flow) (h : Checker.comparePlans a b < 0) : PlanBefore a b := by
  unfold Checker.comparePlans at h
  split at h
  · rename_i hne
    rcases ha with ha | ha <;> rcases hb with hb | hb <;> rw [ha, hb] at h hne
    · exact absurd rfl hne
    · exact .inl ⟨ha, hb⟩
    · exact absurd h (by decide)
    · exact absurd rfl hne
  rename_i hdialect
  refine .inr ⟨not_not.1 hdialect, ?_⟩
  split at h
  · split at h
    · rename_i hpriority
      exact .inl hpriority
    · omega
  rename_i hpriority
  refine .inr ⟨not_not.1 hpriority, ?_⟩
  split at h
  · split at h
    · rename_i horder
      exact .inl horder
    · omega
  rename_i horder
  refine .inr ⟨not_not.1 horder, ?_⟩
  split at h
  · assumption
  · split at h <;> omega

instance : Trans PlanBefore PlanBefore PlanBefore where
  trans := by
    rintro a b c (⟨ha, hb⟩ | ⟨hab, h⟩) (⟨hb', hc⟩ | ⟨hbc, h'⟩)
    · exact .inl ⟨ha, hc⟩
    · exact .inl ⟨ha, hbc ▸ hb⟩
    · exact .inl ⟨hab.trans hb', hc⟩
    · refine .inr ⟨hab.trans hbc, ?_⟩
      simp only [Text.lt, decide_eq_true_eq, Int32.lt_iff_toInt_lt, UInt32.lt_iff_toNat_lt] at *
      rcases h with h | ⟨hp, h⟩ <;> rcases h' with h' | ⟨hp', h'⟩
      · exact .inl (h'.trans h)
      · exact .inl (hp' ▸ h)
      · exact .inl (hp ▸ h')
      · refine .inr ⟨hp.trans hp', ?_⟩
        rcases h with h | ⟨ho, h⟩ <;> rcases h' with h' | ⟨ho', h'⟩
        · exact .inl (h.trans h')
        · exact .inl (ho' ▸ h)
        · exact .inl (ho ▸ h')
        · exact .inr ⟨ho.trans ho', List.lt_trans h h'⟩

/-- What is left of a priority in a plan. -/
def narrow (priority : Int) : Int := (Int32.ofInt priority).toInt

/-- Plans in order have declarations in order, as far as what is left of their priorities tells. -/
theorem before_of_planBefore {d d' : Declaration} {plan plan' : Plan} {order order' : Nat} (h : Lowered d order plan)
    (h' : Lowered d' order' plan') (hnumbered : NumberedBy (d, plan) (d', plan') ∨ NumberedBy (d', plan') (d, plan))
    (hbefore : PlanBefore plan plan') : d.Before narrow d' := by
  rcases hbefore with ⟨hlist, hflow⟩ | ⟨hdialect, hbefore⟩
  · exact .inl ⟨h.dialect.symm.trans hlist, h'.dialect.symm.trans hflow⟩
  refine .inr ⟨by rw [← h.dialect, ← h'.dialect, hdialect], ?_⟩
  rw [h.priority, h'.priority, Int32.lt_iff_toInt_lt] at hbefore
  refine hbefore.imp id fun ⟨hpriority, horder⟩ => ⟨congrArg Int32.toInt hpriority, ?_⟩
  rcases hnumbered with ⟨hearlier, -⟩ | ⟨-, hnumbers⟩
  · exact hearlier
  · -- The other way round the numbers would be in the other order, too.
    have hlt : plan'.sourceOrder.toNat < plan.sourceOrder.toNat := UInt32.lt_iff_toNat_lt.1 (hnumbers hdialect.symm)
    rcases horder with horder | ⟨horder, -⟩
    · have := UInt32.lt_iff_toNat_lt.1 horder
      omega
    · rw [horder] at hlt
      omega

theorem Lowers.lowered {next : SourceDialect → Nat} {ds : List Declaration} {plans : List Plan} (h : Lowers next ds plans) :
    List.Forall₂ (fun d plan => ∃ order, Lowered d order plan) ds plans := by
  induction h with
  | nil => exact .nil
  | cons head _ ih => exact .cons ⟨_, head⟩ ih

/-- The plans of declarations, sorted and accepted: declarations in the order the plans tell. -/
theorem Lowers.sorted {ds : List Declaration} {plans sorted : List Plan} (h : Lowers (fun _ => 0) ds plans)
    (hearlier : ds.Pairwise Declaration.Earlier) (hperm : sorted.Perm plans) (hids : (sorted.map (·.id)).Nodup)
    (horders : (sorted.map fun plan => (plan.sourceDialect, plan.sourceOrder)).Nodup)
    (hsorted : sorted.Pairwise PlanBefore) :
    ∃ ds', ds'.Perm ds ∧ ds'.Pairwise (Declaration.Before narrow) ∧
      List.Forall₂ (fun d plan => ∃ order, Lowered d order plan) ds' sorted := by
  let Paired (d : Declaration) (plan : Plan) : Prop := (d, plan) ∈ ds.zip plans ∧ ∃ order, Lowered d order plan
  have hpaired : List.Forall₂ Paired ds plans := by
    obtain ⟨hlength, hlowered⟩ := List.forall₂_iff_zip.1 h.lowered
    exact List.forall₂_iff_zip.2 ⟨hlength, fun hmem => ⟨hmem, hlowered hmem⟩⟩
  obtain ⟨ds', hflipped, hds'⟩ := List.perm_comp_forall₂ hperm hpaired.flip
  have hpaired' : List.Forall₂ Paired ds' sorted := hflipped.flip
  refine ⟨ds', hds', ?_, hpaired'.imp fun _ _ h => h.2⟩
  have hcount : ∀ dialect, 0 + countOf dialect plans ≤ 2 ^ 32 := fun dialect => by
    rw [Nat.zero_add]
    exact countOf_le ((hperm.map _).nodup_iff.1 horders) dialect
  have hnumbered := (h.numberedBy hearlier hcount).imp fun {x y} hxy => (Or.inl hxy : NumberedBy x y ∨ NumberedBy y x)
  have : Std.Symm fun x y => NumberedBy x y ∨ NumberedBy y x := ⟨fun _ _ => Or.symm⟩
  refine Pointwise.pairwise hpaired' (hsorted.and (List.pairwise_map.1 hids)) ?_
  rintro d plan d' plan' ⟨hmem, order, hlowered⟩ ⟨hmem', order', hlowered'⟩ ⟨hbefore, hne⟩
  refine before_of_planBefore hlowered hlowered' (hnumbered.forall hmem hmem' fun heq => hne ?_) hbefore
  rw [(Prod.mk.inj heq).2]

/-! ### Compiling -/

section

variable [Platform] [Protobuf] [ExprParser]

/-- The compiled plans are the declarations of the sources, in the order of what is left of their priorities. -/
theorem compileChecked_sorted {bundle : SourceBundle} {options : CompileOptions} {checked : Checked}
    (h : compileChecked lowerSources bundle options = .ok checked) :
    ∃ ds : List Declaration, ds.Perm (bundle.sources.flatMap declarationsOf) ∧ ds.Pairwise (Declaration.Before narrow) ∧
      (ds.map (·.name)).Nodup ∧
      checked.artifact.plans.map (fun plan => (plan.sourceDialect, plan.id)) = ds.map fun d => (d.dialect, d.name) := by
  obtain ⟨policy, -, h⟩ := bind_ok.1 h
  obtain ⟨sorted, hlower, h⟩ := bind_ok.1 h
  obtain ⟨digest, -, h⟩ := bind_ok.1 h
  obtain ⟨ordered, hordered, hlower⟩ := bind_ok.1 (mapError_ok.1 hlower)
  obtain ⟨plans, hplans, hsorted⟩ := bind_ok.1 hlower
  cases hsorted
  obtain ⟨hperm, hearlier, hread⟩ := declarations_earlier hordered
  have hlowers := lowerParsed_lowers hread hplans
  rw [nextOrders_zero] at hlowers
  have hcheck := mapError_ok.1 h
  obtain ⟨hids, horders, hchain⟩ := checkArtifact_distinct hcheck
  have hsort : (canonicalPlanOrder plans).Perm plans := List.perm_insertionSort ..
  have hdialect : ∀ plan ∈ canonicalPlanOrder plans, plan.sourceDialect = .list ∨ plan.sourceDialect = .flow := by
    intro plan hplan
    obtain ⟨d, hd, order, hlowered⟩ := Pointwise.mem_right hlowers.lowered (hsort.mem_iff.1 hplan)
    rw [hlowered.dialect]
    exact dialect_of_mem d hd
  have hpairwise : (canonicalPlanOrder plans).Pairwise PlanBefore := by
    refine List.isChain_iff_pairwise.1 (List.isChain_iff_getElem.2 fun i hi => ?_)
    exact planBefore_of_compare (hdialect _ (List.getElem_mem _)) (hdialect _ (List.getElem_mem _))
      (List.isChain_iff_getElem.1 hchain i hi)
  obtain ⟨ds, hds, hbefore, hlowered⟩ := hlowers.sorted hearlier hsort hids horders hpairwise
  have hnames : (canonicalPlanOrder plans).map (fun plan => (plan.sourceDialect, plan.id)) =
      ds.map fun d => (d.dialect, d.name) := by
    refine (Pointwise.map_eq hlowered fun d plan ⟨order, h⟩ => ?_).symm
    rw [h.dialect, h.id]
  refine ⟨ds, hds.trans hperm, hbefore, ?_, ?_⟩
  · have := congrArg (List.map Prod.snd) hnames
    simp only [List.map_map, Function.comp_def] at this
    rwa [← this]
  · obtain ⟨env, full, -, -, haccepted⟩ := checkArtifact_inv hcheck
    rw [← hnames]
    refine (Pointwise.map_eq haccepted.plans fun plan plan' h => ?_).symm
    rw [h.same]

theorem compileChecked_perm {bundle : SourceBundle} {options : CompileOptions} {checked : Checked}
    (h : compileChecked lowerSources bundle options = .ok checked) {sources : List Source}
    (hperm : sources.Perm bundle.sources) :
    compileChecked lowerSources { bundle with sources := sources } options = .ok checked := by
  obtain ⟨policy, hpolicy, h⟩ := bind_ok.1 h
  obtain ⟨sorted, hlower, h⟩ := bind_ok.1 h
  obtain ⟨ordered, hordered, hlower⟩ := bind_ok.1 (mapError_ok.1 hlower)
  refine bind_ok.2 ⟨policy, hpolicy, bind_ok.2 ⟨sorted, mapError_ok.2 ?_, h⟩⟩
  exact bind_ok.2 ⟨ordered, parseSources_perm hordered hperm, hlower⟩

/-- Whether a plan order that goes by what is left of the priorities is the one that goes by the priorities. -/
def KeepsPriorities (ds : List Declaration) : Prop :=
  ∀ a ∈ ds, ∀ b ∈ ds, a.dialect = b.dialect → b.priority < a.priority →
    narrow b.priority < narrow a.priority ∨ narrow a.priority = narrow b.priority ∧ a.Earlier b

omit [Platform] [Protobuf] [ExprParser] in
theorem before_of_keepsPriorities {ds : List Declaration} (hkeeps : KeepsPriorities ds) {a b : Declaration} (ha : a ∈ ds)
    (hb : b ∈ ds) (h : a.Before narrow b) : a.Before id b := by
  rcases h with hdialects | ⟨hdialect, h⟩
  · exact .inl hdialects
  refine .inr ⟨hdialect, ?_⟩
  rcases lt_trichotomy b.priority a.priority with hlt | heq | hgt
  · exact .inl hlt
  · refine .inr ⟨heq.symm, ?_⟩
    rcases h with h | ⟨-, hearlier⟩
    · rw [heq] at h
      omega
    · exact hearlier
  · -- Then the higher one would come first in both orders.
    have hother : b.Before narrow a := .inr ⟨hdialect.symm, hkeeps b hb a ha hdialect.symm hgt⟩
    exact absurd (Declaration.Before.asymm (.inr ⟨hdialect, h⟩)) (not_not.2 hother)

omit [Platform] [Protobuf] [ExprParser] in
theorem eq_of_map_name {ds ds' : List Declaration} (hperm : ds.Perm ds') (hnames : (ds'.map (·.name)).Nodup)
    (heq : ds.map (fun d => (d.dialect, d.name)) = ds'.map fun d => (d.dialect, d.name)) : ds = ds' := by
  have hsame : List.Forall₂ Eq (ds.map fun d => (d.dialect, d.name)) (ds'.map fun d => (d.dialect, d.name)) := by
    rw [heq, List.forall₂_eq_eq_eq]
  rw [List.forall₂_map_left_iff, List.forall₂_map_right_iff] at hsame
  have heach : List.Forall₂ Eq ds ds' := by
    refine (Pointwise.with_mem hsame).imp fun a b ⟨hab, ha, hb⟩ => ?_
    exact List.inj_on_of_nodup_map hnames (hperm.mem_iff.1 ha) hb (Prod.mk.inj hab).2
  rwa [List.forall₂_eq_eq_eq] at heach

/-- The plans are the declarations in the documented order exactly if narrowing the priorities keeps them in it. The
order the sources are given in makes no difference. -/
theorem plans_in_documented_order {bundle : SourceBundle} {options : CompileOptions} {checked : Checked}
    (h : compileChecked lowerSources bundle options = .ok checked) :
    ((∃ ds : List Declaration, ds.Perm (bundle.sources.flatMap declarationsOf) ∧ ds.Pairwise (Declaration.Before id) ∧
      checked.artifact.plans.map (fun plan => (plan.sourceDialect, plan.id)) = ds.map fun d => (d.dialect, d.name)) ↔
      KeepsPriorities (bundle.sources.flatMap declarationsOf)) ∧
    ∀ sources : List Source, sources.Perm bundle.sources →
      compileChecked lowerSources { bundle with sources := sources } options = .ok checked := by
  obtain ⟨ds, hperm, hbefore, hnames, hplans⟩ := compileChecked_sorted h
  refine ⟨⟨?_, fun hkeeps => ⟨ds, hperm, ?_, hplans⟩⟩, fun sources hsources => ?_⟩
  · rintro ⟨ds', hperm', hdocumented, hplans'⟩
    obtain rfl : ds' = ds := eq_of_map_name (hperm'.trans hperm.symm) hnames (hplans'.symm.trans hplans)
    intro a ha b hb hdialect hlt
    have hdialects : ¬(a.dialect = .list ∧ b.dialect = .flow) ∧ ¬(b.dialect = .list ∧ a.dialect = .flow) := by
      rw [hdialect]
      constructor <;> exact fun h => nomatch h.1.symm.trans h.2
    have : Std.Symm fun x y : Declaration => (x.Before id y ∧ x.Before narrow y) ∨ (y.Before id x ∧ y.Before narrow x) :=
      ⟨fun _ _ => Or.symm⟩
    have hboth := (hdocumented.and hbefore).imp fun {x y} hxy =>
      (Or.inl hxy : (x.Before id y ∧ x.Before narrow y) ∨ (y.Before id x ∧ y.Before narrow x))
    have hne : a ≠ b := by
      rintro rfl
      exact lt_irrefl _ hlt
    rcases hboth.forall (hperm.mem_iff.2 ha) (hperm.mem_iff.2 hb) hne with ⟨-, hab⟩ | ⟨hba, -⟩
    · exact (hab.resolve_left hdialects.1).2
    · rcases (hba.resolve_left hdialects.2).2 with hgt | ⟨heq, -⟩
      · exact absurd hgt (not_lt.2 hlt.le)
      · exact absurd heq hlt.ne
  · exact hbefore.imp_of_mem fun ha hb hab =>
      before_of_keepsPriorities hkeeps (hperm.mem_iff.1 ha) (hperm.mem_iff.1 hb) hab
  · exact compileChecked_perm h hsources

end

/-! ### A priority beyond 32 bits -/

/-- Predicates are not parsed where there are none. -/
@[reducible] def noPredicates : ExprParser := ⟨fun _ => .error (.new "unexpected predicate")⟩

attribute [local instance] reference wireFormat noPredicates

/-- Two rules without blocks, the first with this priority. -/
def ruleBundle (priority : Text) : SourceBundle where
  name := "rules"
  version := "1"
  sources :=
    [⟨"a.eff", ("rule \"a\" priority " : Text) ++ priority ++ (" \x7b \x7d rule \"b\" priority 1 \x7b \x7d" : Text)⟩]
  environment := ⟨.empty, .empty, .empty, .empty⟩
  executors := .empty
  digest := []

def plainOptions : CompileOptions := ⟨.unspecified, .zero⟩

/-- The dialects and names of the plans. -/
def compiledNames (bundle : SourceBundle) : Option (List (SourceDialect × Text)) :=
  (compileChecked lowerSources bundle plainOptions).toOption.map fun checked =>
    checked.artifact.plans.map fun plan => (plan.sourceDialect, plan.id)

theorem exists_of_compiledNames {bundle : SourceBundle} {names : List (SourceDialect × Text)}
    (h : compiledNames bundle = some names) : ∃ checked, compileChecked lowerSources bundle plainOptions = .ok checked ∧
      checked.artifact.plans.map (fun plan => (plan.sourceDialect, plan.id)) = names := by
  unfold compiledNames at h
  cases hcompile : compileChecked lowerSources bundle plainOptions with
  | error err =>
    rw [hcompile] at h
    cases h
  | ok checked =>
    rw [hcompile] at h
    exact ⟨checked, rfl, Option.some.inj h⟩

theorem wide_priority_last : ∃ checked,
    compileChecked lowerSources (ruleBundle "2147483648") plainOptions = .ok checked ∧
    ¬∃ ds : List Declaration, ds.Perm ((ruleBundle "2147483648").sources.flatMap declarationsOf) ∧
      ds.Pairwise (Declaration.Before id) ∧
      checked.artifact.plans.map (fun plan => (plan.sourceDialect, plan.id)) = ds.map fun d => (d.dialect, d.name) := by
  have hnames : compiledNames (ruleBundle "2147483648") = some [(SourceDialect.list, ("b" : Text)), (.list, "a")] := by decide +kernel
  have hpriority : ∀ d ∈ (ruleBundle "2147483648").sources.flatMap declarationsOf,
      (d.name = ("b" : Text) → d.priority = 1) ∧ (d.name = ("a" : Text) → d.priority = 2147483648) := by decide +kernel
  obtain ⟨checked, hcompile, hplans⟩ := exists_of_compiledNames hnames
  refine ⟨checked, hcompile, ?_⟩
  rintro ⟨ds, hperm, hbefore, heq⟩
  rw [hplans] at heq
  obtain ⟨first, second, rfl⟩ := List.length_eq_two.1 ((List.length_map ..).symm.trans (congrArg List.length heq).symm)
  obtain ⟨hfirst, hsecond⟩ := List.cons.inj heq
  obtain ⟨hdialect, hname⟩ := Prod.mk.inj (List.cons.inj hsecond).1
  have hone := (hpriority first (hperm.mem_iff.1 (List.mem_cons_self ..))).1 (Prod.mk.inj hfirst).2.symm
  have hwide := (hpriority second (hperm.mem_iff.1 (List.mem_cons_of_mem _ (List.mem_cons_self ..)))).2 hname.symm
  rcases List.rel_of_pairwise_cons hbefore (List.mem_singleton_self _) with ⟨-, hflow⟩ | ⟨-, hrank | ⟨hrank, -⟩⟩
  · exact nomatch hdialect.trans hflow
  · rw [hone, hwide] at hrank
    exact absurd hrank (by decide)
  · rw [hone, hwide] at hrank
    exact absurd hrank (by decide)

theorem plans_in_documented_order_two : ∃ checked,
    compileChecked lowerSources (ruleBundle "2") plainOptions = .ok checked ∧
    ((∃ ds : List Declaration, ds.Perm ((ruleBundle "2").sources.flatMap declarationsOf) ∧
      ds.Pairwise (Declaration.Before id) ∧
      checked.artifact.plans.map (fun plan => (plan.sourceDialect, plan.id)) = ds.map fun d => (d.dialect, d.name)) ↔
      KeepsPriorities ((ruleBundle "2").sources.flatMap declarationsOf)) := by
  have hnames : compiledNames (ruleBundle "2") = some [(SourceDialect.list, ("a" : Text)), (.list, "b")] := by decide +kernel
  obtain ⟨checked, hcompile, -⟩ := exists_of_compiledNames hnames
  exact ⟨checked, hcompile, (plans_in_documented_order hcompile).1⟩

end Compiler

end Effectus
