import Peg.Proofs.Compile.Visited
import Peg.Proofs.Grammar.History
import Peg.Proofs.Grammar.Modes

/-!
# Sources that cannot be read

A source is compiled as a whole or not at all. With a fault in it, or without a source at the root of
its tree, nothing of it reaches the grammar, however many of its rules are sound. Otherwise no rule that
has a name and a body is lost, and nothing that is reported looks like a fault.

* `Tree.mem_names_flatMap_entries`: the names that a source defines, by the trees it consists of.
* `Registry.mem_ruleNames_finish_load`: the names of the rules that a source registers.
* `Placed.ne_malformedSource_of_mem_reports`: compiling a body reports no malformed source.
* `Parse.compile_all_or_nothing`: the two kinds of grammar, and which sources give which.
-/

namespace Peg

open Text (Span)

/-! ## Rules that are kept -/

theorem Grammar.contains_iff {grammar : Grammar} {name : String} :
    grammar.contains name = true ↔ name ∈ grammar.ruleNames := by
  rw [contains, ← not_iff_not, Bool.not_eq_true, Option.isSome_eq_false_iff,
    Option.isNone_iff_eq_none, get?_eq_none_iff]

theorem RegistryEntry.names_append (entries others : List RegistryEntry) :
    names (entries ++ others) = names entries ++ names others := by
  rw [names, definitions, List.filterMap_append, List.map_append]
  rfl

/-- An example defines no name. -/
theorem RegistryEntry.names_map_exampleOf (tokens : List Token) (doc : String) :
    names (tokens.map fun token => .exampleOf token.text doc) = [] := by
  simp [names, definitions, definition?]

/-- A node defines a name if it is a rule that has this name and a body. -/
theorem Placed.mem_names_entries {child : Placed} {name : String} :
    name ∈ RegistryEntry.names child.entries ↔
      ∃ span children, child = .node .rule span children ∧
        (namesAmong children).head?.map Token.text = some name ∧ bodiesAmong children ≠ [] := by
  constructor
  · intro member
    unfold entries at member
    split at member
    · next span children =>
        split at member
        · next token tokens body others names bodies =>
            refine ⟨span, children, rfl, ?_, ?_⟩
            · rw [names, List.mem_singleton.mp member]
              rfl
            · simp [bodies]
        · cases member
    · rw [RegistryEntry.names_map_exampleOf] at member
      cases member
    · cases member
  · intro complete
    rcases complete with ⟨span, children, rfl, named, bodied⟩
    obtain ⟨token, first, rfl⟩ := Option.map_eq_some_iff.mp named
    obtain ⟨tokens, names⟩ := List.head?_eq_some_iff.mp first
    obtain ⟨body, others, bodies⟩ := List.exists_cons_of_ne_nil bodied
    rw [entries, names, bodies]
    exact List.mem_singleton_self _

/-- A tree that is laid out defines a name if it is a rule that has this name and a body. -/
theorem Tree.mem_names_entries_of_isLaidOut {tree : Tree} {child : Placed} {name : String}
    (laid : tree.IsLaidOut child) :
    name ∈ RegistryEntry.names child.entries ↔
      ∃ children, tree = .node .rule children ∧ CompletesRule name children := by
  obtain ⟨offset, rfl⟩ := laid
  rw [Placed.mem_names_entries]
  constructor
  · intro defined
    rcases defined with ⟨span, children, same, complete⟩
    cases tree with
    | token => cases same
    | node kind parts =>
        cases same
        exact ⟨parts, rfl, (completesRule_iff_of_laid (forall₂_placeAll parts offset)).mpr complete⟩
  · intro defined
    rcases defined with ⟨parts, rfl, complete⟩
    exact ⟨_, _, rfl, (completesRule_iff_of_laid (forall₂_placeAll parts offset)).mp complete⟩

/-- Trees that are laid out define the names of the rules among them that have a name and a body. -/
theorem Tree.mem_names_flatMap_entries {trees : List Tree} {nodes : List Placed} {name : String}
    (laid : List.Forall₂ IsLaidOut trees nodes) :
    name ∈ RegistryEntry.names (nodes.flatMap Placed.entries) ↔
      ∃ children, .node .rule children ∈ trees ∧ CompletesRule name children := by
  induction laid with
  | nil => simp [RegistryEntry.names, RegistryEntry.definitions]
  | cons head _ ih =>
      rw [List.flatMap_cons, RegistryEntry.names_append, List.mem_append, ih,
        mem_names_entries_of_isLaidOut head]
      simp only [List.mem_cons, or_and_right, exists_or, eq_comm]

/-- A source registers the names that it defines, and no others. -/
theorem Registry.mem_ruleNames_finish_load {id : GrammarId} {urn : String} {mode : Mode}
    {source : Placed} {name : String} :
    name ∈ ((new id urn mode).load source).finish.ruleNames ↔
      name ∈ RegistryEntry.names (Call.load source).entries := by
  have gathers := (Gathers.new id urn mode).enterAll (Call.load source).entries
  rw [← load_eq, List.nil_append] at gathers
  rw [ruleNames_finish, gathers.bodies, mem_map_fst_firsts]
  rfl

/-! ## Reports -/

/-- Compiling a body reports no malformed source. -/
theorem Placed.ne_malformedSource_of_mem_reports {placed : Placed} {mode : Mode} {d : Diagnostic}
    (member : d ∈ placed.reports mode) : d.anomaly ≠ .malformedSource := by
  obtain ⟨node, -, rfl | rfl | rfl | rfl⟩ := exists_visited_of_mem_reports member
  · exact nofun
  · exact nofun
  · exact nofun
  · exact nofun

/-- Registering a source and compiling what was registered report no malformed source. -/
theorem Registry.ne_malformedSource_of_mem_diagnostics {registry : Registry}
    (reports : registry.ReportsRegistration) :
    ∀ d ∈ registry.finish.diagnostics, d.anomaly ≠ .malformedSource := by
  intro d member
  rcases List.mem_append.mp member with registered | compiled
  · rcases reports d registered with anomaly | anomaly
    · rw [anomaly]
      exact nofun
    · rw [anomaly]
      exact nofun
  · obtain ⟨rule, -, reported⟩ := List.mem_flatMap.mp compiled
    exact Placed.ne_malformedSource_of_mem_reports reported

/-! ## Sources -/

namespace Parse

variable {parse : Parse}

theorem not_isReadable_iff : ¬parse.IsReadable ↔ parse.faults ≠ [] ∨ parse.kind ≠ .source := by
  rw [IsReadable, not_and_or, or_comm]

/-- The root of a tree covers its text. -/
theorem span_root (parse : Parse) : parse.root.span = ⟨0, parse.tree.text.utf8ByteSize⟩ := by
  rw [Tree.utf8ByteSize_text]
  show Span.mk 0 (0 + Tree.byteSizeOfAll parse.children) = _
  rw [Nat.zero_add, tree, Tree.byteSize]

/-- Every fault is reported. -/
theorem errorReports_of_faults (faulty : parse.faults ≠ []) :
    parse.errorReports = parse.faults.map fun fault =>
      ⟨.malformedSource, fault.span, fault.message, .error, none⟩ := by
  rw [errorReports, isOk, if_neg (mt List.isEmpty_iff.mp faulty)]
  rfl

/-- Without a fault the whole text is reported. -/
theorem errorReports_of_not_faults (clean : parse.faults = []) :
    parse.errorReports =
      [⟨.malformedSource, ⟨0, parse.tree.text.utf8ByteSize⟩, "grammar tree has no source root", .error,
        none⟩] := by
  rw [errorReports, isOk, if_pos (List.isEmpty_iff.mpr clean), span_root]
  rfl

/-- **A source is compiled as a whole or not at all.** A grammar is marked as erroneous exactly if its
source has a fault or no source at the root of its tree. Such a grammar has neither rules nor examples,
and reports every fault as an error, in order and in its place, or an error about the whole text if there
is no fault. Any other grammar reports nothing of the kind, and its rules are those among the children
of the root that have a name and a body. -/
theorem compile_all_or_nothing (parse : Parse) (id : GrammarId) (urn : String) (mode : Mode) :
    let grammar := parse.compile id urn mode
    (grammar.hasError = true ↔ parse.faults ≠ [] ∨ parse.kind ≠ .source) ∧
      (grammar.hasError = true →
        grammar.rules = [] ∧ grammar.examples = [] ∧
          (parse.faults ≠ [] → grammar.diagnostics = parse.faults.map fun fault =>
            ⟨.malformedSource, fault.span, fault.message, .error, none⟩) ∧
          (parse.faults = [] → grammar.diagnostics =
            [⟨.malformedSource, ⟨0, parse.tree.text.utf8ByteSize⟩, "grammar tree has no source root",
              .error, none⟩])) ∧
      (grammar.hasError = false →
        (∀ d ∈ grammar.diagnostics, d.anomaly ≠ .malformedSource) ∧
          ∀ name, grammar.contains name = true ↔
            ∃ children, .node .rule children ∈ parse.children ∧ Tree.CompletesRule name children) := by
  intro grammar
  rw [← not_isReadable_iff]
  by_cases readable : parse.IsReadable
  · have eq : grammar = ((Registry.new id urn mode).load parse.root).finish :=
      compile_readable readable
    have sound : grammar.hasError = false := by rw [eq]; rfl
    have reports : ((Registry.new id urn mode).load parse.root).ReportsRegistration :=
      Registry.ReportsRegistration.load (fun d member => by cases member) parse.root
    refine ⟨by simp [sound, readable], by simp [sound], fun _ => ⟨?_, fun name => ?_⟩⟩
    · rw [eq]
      exact Registry.ne_malformedSource_of_mem_diagnostics reports
    · rw [Grammar.contains_iff, eq, Registry.mem_ruleNames_finish_load]
      exact Tree.mem_names_flatMap_entries (Tree.forall₂_placeAll parse.children 0)
  · have eq : grammar = _ := compile_unreadable readable
    have erroneous : grammar.hasError = true := by rw [eq]
    refine ⟨by simp [erroneous, readable], fun _ => ?_, by simp [erroneous]⟩
    rw [eq]
    exact ⟨rfl, rfl, errorReports_of_faults, errorReports_of_not_faults⟩

/-- Without a fault `a` is kept and `"b"`, which has no body, is not; with one fault nothing is kept. -/
theorem compile_all_or_nothing_repeatedRules :
    let sound := (Parse.mk .source Registry.repeatedRules []).compile ⟨1⟩ "" .full
    let faulty := (Parse.mk .source Registry.repeatedRules [⟨"expected a body", ⟨7, 7⟩⟩]).compile ⟨1⟩ ""
      .full
    sound.hasError = false ∧ sound.contains "a" = true ∧ sound.contains "\"b\"" = false ∧
      faulty.hasError = true ∧ faulty.rules = [] ∧ faulty.examples = [] ∧
      faulty.diagnostics = [⟨.malformedSource, ⟨7, 7⟩, "expected a body", .error, none⟩] := by
  intro sound faulty
  obtain ⟨-, -, kept⟩ :=
    compile_all_or_nothing ⟨.source, Registry.repeatedRules, []⟩ ⟨1⟩ "" .full
  obtain ⟨-, names⟩ := kept rfl
  obtain ⟨erroneous, lost, -⟩ := compile_all_or_nothing
    ⟨.source, Registry.repeatedRules, [⟨"expected a body", ⟨7, 7⟩⟩]⟩ ⟨1⟩ "" .full
  have error := erroneous.mpr (Or.inl (List.cons_ne_nil _ _))
  obtain ⟨rules, examples, reports, -⟩ := lost error
  have complete : Tree.CompletesRule "a"
      [.token .ident "a", .token .eq "=", .node .any [.token .dot "."]] :=
    ⟨⟨[], .ident, _, rfl, Or.inl rfl, fun _ _ member => by cases member⟩,
      ⟨.any, [.token .dot "."], by simp, rfl⟩⟩
  have named : sound.contains "a" = true := (names "a").mpr ⟨_, List.mem_cons_self, complete⟩
  exact ⟨rfl, named, rfl, error, rules, examples, reports (List.cons_ne_nil _ _)⟩

end Parse

end Peg
