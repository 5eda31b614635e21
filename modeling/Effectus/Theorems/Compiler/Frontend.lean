import Effectus.Compiler.Frontend
import Effectus.Lib.Pointwise

/-!
What the front end accepts: which trees the parsed sources come from, and what of a tree restoring and normalizing keep.
-/

namespace Effectus

namespace Compiler

open Fallible

/-! ### One source -/

/-- A source that is parsed under a path. -/
structure ReadsTree (content : Text) (parsed : ParsedSource) (tree : File Quoted Written)
    (file : File Text AstLiteral) : Prop where
  parses : parse content = some tree
  restores : restoreCheckedPredicateText (tree.map Quoted.text Written.capture) content = .ok file
  normalizes : normalizeFlowBindings (normalizeCheckedSourceAST file) = .ok parsed.file
  rules : pathExtension parsed.path = (".eff" : Text) → parsed.file.flows = []
  flows : pathExtension parsed.path = (".effx" : Text) → parsed.file.rules = []

theorem parseSource_ok {path content : Text} {parsed : ParsedSource} (h : parseSource path content = .ok parsed) :
    parsed.path = path ∧ ∃ tree file, ReadsTree content parsed tree file := by
  unfold parseSource at h
  cases htree : parse content with
  | none =>
    rw [htree] at h
    cases h
  | some tree =>
  rw [htree] at h
  obtain ⟨restored, hrestored, h⟩ := bind_ok.1 h
  obtain ⟨file, hfile, h⟩ := bind_ok.1 h
  obtain ⟨hrules, h⟩ := guard_ok.1 h
  obtain ⟨hflows, h⟩ := guard_ok.1 h
  cases h
  refine ⟨rfl, tree, restored, htree, mapError_ok.1 hrestored, mapError_ok.1 hfile, fun hext => ?_, fun hext => ?_⟩
  · exact not_not.1 fun hne => hrules ⟨hext, hne⟩
  · exact not_not.1 fun hne => hflows ⟨hext, hne⟩

/-- A parsed source of a bundle. -/
structure ReadFrom (source : Source) (parsed : ParsedSource) : Prop where
  path : normalizeSourcePath source.path = .ok parsed.path
  extension : pathExtension parsed.path = (".eff" : Text) ∨ pathExtension parsed.path = (".effx" : Text)
  file : parseSource parsed.path source.content = .ok parsed

theorem parseEach_ok : ∀ {sources : List Source} {seen : List Text} {parsed : List ParsedSource},
    parseEach seen sources = .ok parsed →
    List.Forall₂ ReadFrom sources parsed ∧ (parsed.map (·.path)).Nodup ∧ ∀ x ∈ parsed, x.path ∉ seen
  | [], seen, parsed, h => by
    cases h
    exact ⟨.nil, List.nodup_nil, nofun⟩
  | source :: sources, seen, parsed, h => by
    obtain ⟨path, hpath, h⟩ := bind_ok.1 h
    obtain ⟨hfresh, h⟩ := guard_ok.1 h
    obtain ⟨hextension, h⟩ := guard_ok.1 h
    obtain ⟨first, hfirst, h⟩ := bind_ok.1 h
    obtain ⟨others, hothers, h⟩ := bind_ok.1 h
    cases h
    obtain ⟨rfl, -⟩ := parseSource_ok hfirst
    obtain ⟨hread, hnodup, hseen⟩ := parseEach_ok hothers
    refine ⟨.cons ⟨hpath, by tauto, hfirst⟩ hread, ?_, ?_⟩
    · refine List.nodup_cons.2 ⟨fun hm => ?_, hnodup⟩
      obtain ⟨x, hx, heq⟩ := List.mem_map.1 hm
      exact hseen x hx (heq ▸ List.mem_cons_self ..)
    · refine List.forall_mem_cons.2 ⟨by simpa using hfresh, fun x hx hm => hseen x hx (List.mem_cons_of_mem _ hm)⟩

/-- The parsed sources of a bundle, by path. -/
theorem parseSources_ok {sources : List Source} {ordered : List ParsedSource} (h : parseSources sources = .ok ordered) :
    ∃ parsed, List.Forall₂ ReadFrom sources parsed ∧ (parsed.map (·.path)).Nodup ∧
      ordered = parsed.insertionSort fun a b => Text.lt b.path a.path = false := by
  obtain ⟨parsed, hparsed, h⟩ := bind_ok.1 h
  cases h
  obtain ⟨hread, hnodup, -⟩ := parseEach_ok hparsed
  exact ⟨parsed, hread, hnodup, rfl⟩

/-! ### What is kept of a tree -/

theorem normalizeFlow_ok {N L : Type} {flow flow' : Flow N L} (h : normalizeFlow flow = .ok flow') :
    ∃ steps, flow.steps.mapM normalizeBinding = .ok steps ∧ flow' = { flow with steps := steps } := by
  obtain ⟨steps, hsteps, h⟩ := bind_ok.1 h
  cases h
  exact ⟨steps, hsteps, rfl⟩

theorem normalizeFlowBindings_ok {N L : Type} {file file' : File N L} (h : normalizeFlowBindings file = .ok file') :
    file'.rules = file.rules ∧ List.Forall₂ (fun flow flow' => normalizeFlow flow = .ok flow') file.flows file'.flows := by
  obtain ⟨flows, hflows, h⟩ := bind_ok.1 h
  cases h
  exact ⟨rfl, Pointwise.forall₂_of_mapM hflows⟩

end Compiler

end Effectus
