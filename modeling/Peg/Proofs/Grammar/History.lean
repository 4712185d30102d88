import Mathlib.Algebra.GroupWithZero.Nat
import Mathlib.Data.List.Induction
import Mathlib.Data.List.Nodup
import Peg.Proofs.Compile.Visited
import Peg.Proofs.Grammar.Registration
import Peg.Proofs.Grammar.Statements

/-!
# The history of a registry

What a registry gathers, whatever calls are made on it and in whatever order, is a function of what
those calls bring up for registration.

* `RegistryEntry`: one thing brought up for registration; `Placed.entries` lists those of a node in a
  source, by what stands inside the node, and `Call.entries` those of a call.
* `firsts`: of definitions under the same name, the first.
* `Gathers`: what a registry holds is what a history of entries makes up. `Gathers.enter` for one entry,
  `Gathers.performAll` for any calls.
* `Registry.finish_performAll`: the finished grammar, the answers, and how rules and reports add up.
-/

namespace Peg

open Text (Span)

/-! ## First definitions -/

section Firsts

variable {α : Type}

/-- Of definitions under the same name, the first. -/
def firsts (definitions : List (String × α)) : List (String × α) :=
  definitions.eraseDupsBy (·.1 == ·.1)

theorem firsts_cons (definition : String × α) (definitions : List (String × α)) :
    firsts (definition :: definitions) =
      definition :: firsts (definitions.filter (·.1 ≠ definition.1)) := by
  rw [firsts, List.eraseDupsBy_cons, firsts]
  congr 3
  funext other
  simp

/-- A further definition counts if its name is new. -/
theorem firsts_concat (definitions : List (String × α)) (definition : String × α) :
    firsts (definitions ++ [definition]) =
      if definition.1 ∈ definitions.map Prod.fst then firsts definitions
      else firsts definitions ++ [definition] := by
  -- The recursion of `firsts` filters the tail, so the induction is on the length.
  induction length : definitions.length using Nat.strongRecOn generalizing definitions with
  | ind n ih =>
      cases definitions with
      | nil => rfl
      | cons first others =>
          have shorter : (others.filter (·.1 ≠ first.1)).length < n := by
            have bound := List.length_filter_le (fun other => other.1 ≠ first.1) others
            simp only [List.length_cons] at length
            omega
          rw [List.cons_append, firsts_cons, firsts_cons, List.filter_append]
          by_cases same : definition.1 = first.1
          · simp [same]
          · have step := ih _ shorter (others.filter (·.1 ≠ first.1)) rfl
            have known : definition.1 ∈ (others.filter (·.1 ≠ first.1)).map Prod.fst ↔
                definition.1 ∈ others.map Prod.fst := by
              simp only [List.mem_map, List.mem_filter]
              constructor
              · rintro ⟨other, ⟨member, -⟩, name⟩
                exact ⟨other, member, name⟩
              · rintro ⟨other, member, name⟩
                exact ⟨other, ⟨member, by simpa [name] using same⟩, name⟩
            have kept : [definition].filter (·.1 ≠ first.1) = [definition] := by simp [same]
            rw [kept, step]
            simp only [known, List.map_cons, List.mem_cons, same, false_or]
            split
            · rfl
            · rfl

theorem map_fst_firsts_concat (definitions : List (String × α)) (definition : String × α) :
    (firsts (definitions ++ [definition])).map Prod.fst =
      if definition.1 ∈ definitions.map Prod.fst then (firsts definitions).map Prod.fst
      else (firsts definitions).map Prod.fst ++ [definition.1] := by
  rw [firsts_concat]
  split
  · rfl
  · simp

theorem mem_map_fst_firsts {definitions : List (String × α)} {name : String} :
    name ∈ (firsts definitions).map Prod.fst ↔ name ∈ definitions.map Prod.fst := by
  induction definitions using List.reverseRecOn with
  | nil => exact Iff.rfl
  | append_singleton definitions definition ih =>
      rw [map_fst_firsts_concat, List.map_append, List.mem_append]
      split
      · next known =>
        rw [ih]
        constructor
        · exact Or.inl
        · rintro (old | new)
          · exact old
          · rw [List.map_singleton, List.mem_singleton] at new
            exact new ▸ known
      · rw [List.mem_append, ih]
        rfl

theorem nodup_map_fst_firsts (definitions : List (String × α)) :
    ((firsts definitions).map Prod.fst).Nodup := by
  induction definitions using List.reverseRecOn with
  | nil => exact List.nodup_nil
  | append_singleton definitions definition ih =>
      rw [map_fst_firsts_concat]
      split
      · exact ih
      · next fresh =>
        refine ih.append (List.nodup_singleton _) ?_
        rw [List.disjoint_singleton, mem_map_fst_firsts]
        exact fresh

end Firsts

/-! ## Entries -/

/-- One thing that is brought up for registration. -/
inductive RegistryEntry where
  | definition (name : String) (span : Span) (body : Placed)
  /-- A rule without a name or body. -/
  | incomplete (span : Span)
  | exampleOf (name doc : String)

namespace RegistryEntry

/-- The body that is defined, under its name. -/
def definition? : RegistryEntry → Option (String × Placed)
  | .definition name _ body => some (name, body)
  | .incomplete _ | .exampleOf .. => none

def example? : RegistryEntry → Option (String × String)
  | .exampleOf name doc => some (name, doc)
  | .definition .. | .incomplete _ => none

/-- A definition, or a rule that should have been one. -/
def isRule : RegistryEntry → Bool
  | .definition .. | .incomplete _ => true
  | .exampleOf .. => false

/-- What is reported about an entry when some names are defined already. -/
def reports (defined : List String) : RegistryEntry → List Diagnostic
  | .definition name span _ =>
    if name ∈ defined then [.of .redefinedName span ("redefined name " ++ name)] else []
  | .incomplete span => [.of .unexpectedNode span "rule without a name or body"]
  | .exampleOf .. => []

/-- The bodies defined by some entries, repeated names included. -/
def definitions (entries : List RegistryEntry) : List (String × Placed) :=
  entries.filterMap definition?

/-- The names defined by some entries. -/
def names (entries : List RegistryEntry) : List String :=
  (definitions entries).map Prod.fst

/-- The reports about entries, each given the names that the entries before it define; `earlier` stand
before all of them. -/
def reportsAfter (earlier : List RegistryEntry) : List RegistryEntry → List Diagnostic
  | [] => []
  | entry :: entries =>
    entry.reports (names earlier) ++ reportsAfter (earlier ++ [entry]) entries

theorem definitions_concat (entries : List RegistryEntry) (entry : RegistryEntry) :
    definitions (entries ++ [entry]) = definitions entries ++ entry.definition?.toList := by
  cases entry with
  | definition => simp [definitions, definition?]
  | incomplete => simp [definitions, definition?]
  | exampleOf => simp [definitions, definition?]

theorem reportsAfter_concat (earlier entries : List RegistryEntry) (entry : RegistryEntry) :
    reportsAfter earlier (entries ++ [entry]) =
      reportsAfter earlier entries ++ entry.reports (names (earlier ++ entries)) := by
  induction entries generalizing earlier with
  | nil => simp [reportsAfter]
  | cons first entries ih =>
      rw [List.cons_append, reportsAfter, reportsAfter, ih, List.append_assoc, List.append_assoc,
        List.singleton_append]

end RegistryEntry

/-- What a child of a source's root brings up. A rule defines its first body under its first name, and is
incomplete if it has no name or no body; an example comes up for each of its names. -/
def Placed.entries : Placed → List RegistryEntry
  | .node .rule span children =>
    match namesAmong children, bodiesAmong children with
    | name :: _, body :: _ => [.definition name.text name.span body]
    | _, _ => [.incomplete span]
  | .node .exampleStmt _ children =>
    (namesAmong children).map fun name => .exampleOf name.text (docAmong children)
  | _ => []

/-- A node that is no statement brings up nothing. -/
theorem Placed.entries_eq_nil {child : Placed} (unread : child.statement? = none) :
    child.entries = [] := by
  unfold entries
  split
  · cases unread
  · cases unread
  · rfl

/-- A node that is a rule. -/
def Placed.isRule : Placed → Bool
  | .node .rule .. => true
  | _ => false

namespace Registry

/-- What a call brings up. -/
def Call.entries : Call → List RegistryEntry
  | .load (.node _ _ children) => children.flatMap Placed.entries
  | .load (.token _) => []
  | .register name span body => [.definition name span body]
  | .recordExample name doc => [.exampleOf name doc]

/-- How many rules a call is about: a registration is about one, and a source is about those among the
children of its root. -/
def Call.ruleCount : Call → Nat
  | .load (.node _ _ children) => children.countP Placed.isRule
  | .load (.token _) => 0
  | .register .. => 1
  | .recordExample .. => 0

/-- The answer to a call after some entries: a body is kept if no entry defines its name. -/
def Call.answer (earlier : List RegistryEntry) : Call → Option Bool
  | .register name _ _ => some (name ∉ RegistryEntry.names earlier)
  | .load _ | .recordExample .. => none

/-- The answers to calls, each given the entries that the calls before it bring up; `earlier` stand before
all of them. -/
def Call.answersAfter (earlier : List RegistryEntry) : List Call → List (Option Bool)
  | [] => []
  | call :: calls => call.answer earlier :: answersAfter (earlier ++ call.entries) calls

/-! ## What a registry holds -/

/-- A registry takes in one entry. -/
def enter (registry : Registry) : RegistryEntry → Registry
  | .definition name span body => registry.register name span body
  | .incomplete span =>
    registry.report (.of .unexpectedNode span "rule without a name or body")
  | .exampleOf name doc => registry.recordExample name doc

variable {registry : Registry} {id : GrammarId} {mode : Mode} {history : List RegistryEntry}

/-- A statement is taken in as what its node brings up. -/
theorem loadStatement_eq {child : Placed} {statement : Statement}
    (read : child.statement? = some statement) (registry : Registry) :
    registry.loadStatement statement = child.entries.foldl enter registry := by
  unfold Placed.statement? at read
  split at read
  · next span children =>
      rw [View.firstToken?_eq_head?, View.find?_isExpression_eq_head?] at read
      cases read
      rw [Placed.entries]
      cases Placed.namesAmong children with
      | nil => rfl
      | cons name names =>
          cases Placed.bodiesAmong children with
          | nil => rfl
          | cons body bodies => rfl
  · next span children =>
      cases read
      rw [View.filter_tokensOf_eq_namesAmong, Placed.entries, List.foldl_map, loadStatement,
        View.doc?_eq_docAmong]
      rfl
  · cases read

theorem load_eq (registry : Registry) (source : Placed) :
    registry.load source = (Call.load source).entries.foldl enter registry := by
  cases source with
  | token => rfl
  | node kind span children =>
      show (children.filterMap Placed.statement?).foldl loadStatement registry =
        (children.flatMap Placed.entries).foldl enter registry
      induction children generalizing registry with
      | nil => rfl
      | cons child children ih =>
          rw [List.flatMap_cons, List.foldl_append, List.filterMap_cons]
          cases read : child.statement? with
          | none =>
              rw [Placed.entries_eq_nil read]
              exact ih registry
          | some statement =>
              rw [← loadStatement_eq read]
              exact ih _

/-- The registry after a call has taken in what the call brings up. -/
theorem perform_eq (registry : Registry) (call : Call) :
    (registry.perform call).2 = call.entries.foldl enter registry := by
  cases call with
  | load source => exact registry.load_eq source
  | register => rfl
  | recordExample => rfl

/-- A registry holds what a history of entries makes up: of every name the first definition, every
example, and a report for every definition of a name that was defined before it and for every incomplete
rule. -/
structure Gathers (registry : Registry) (id : GrammarId) (mode : Mode) (history : List RegistryEntry) :
    Prop where
  id : registry.id = id
  mode : registry.mode = mode
  bodies : registry.bodies = firsts (RegistryEntry.definitions history)
  examples : registry.examples = history.filterMap RegistryEntry.example?
  diagnostics : registry.diagnostics = RegistryEntry.reportsAfter [] history
  /-- Every rule was kept or is reported on. -/
  count : registry.bodies.length + registry.diagnostics.length = history.countP RegistryEntry.isRule

theorem Gathers.new (id : GrammarId) (urn : String) (mode : Mode) :
    (Registry.new id urn mode).Gathers id mode [] :=
  ⟨rfl, rfl, rfl, rfl, rfl, rfl⟩

theorem Gathers.isRegistered_iff (gathers : registry.Gathers id mode history) (name : String) :
    registry.isRegistered name = true ↔ name ∈ RegistryEntry.names history := by
  rw [isRegistered, gathers.bodies, List.any_eq_true, RegistryEntry.names, ← mem_map_fst_firsts,
    List.mem_map]
  simp only [beq_iff_eq]

/-- A registry that has taken in one more entry, by what becomes of each part of it. -/
theorem Gathers.concat (gathers : registry.Gathers id mode history) {entry : RegistryEntry}
    {registry' : Registry}
    (frame : registry'.id = registry.id ∧ registry'.mode = registry.mode)
    (bodies : registry'.bodies = firsts (RegistryEntry.definitions (history ++ [entry])))
    (examples : registry'.examples = registry.examples ++ entry.example?.toList)
    (diagnostics :
      registry'.diagnostics = registry.diagnostics ++ entry.reports (RegistryEntry.names history))
    (count : registry'.bodies.length + (entry.reports (RegistryEntry.names history)).length =
      registry.bodies.length + if entry.isRule then 1 else 0) :
    registry'.Gathers id mode (history ++ [entry]) where
  id := frame.1.trans gathers.id
  mode := frame.2.trans gathers.mode
  bodies := bodies
  examples := by
    rw [examples, gathers.examples, List.filterMap_append]
    cases entry with
    | definition | incomplete | exampleOf => rfl
  diagnostics := by
    rw [diagnostics, gathers.diagnostics, RegistryEntry.reportsAfter_concat, List.nil_append]
  count := by
    have before := gathers.count
    rw [diagnostics, List.length_append, List.countP_append, List.countP_singleton]
    omega

theorem Gathers.enter (gathers : registry.Gathers id mode history) (entry : RegistryEntry) :
    (registry.enter entry).Gathers id mode (history ++ [entry]) := by
  have unchanged : entry.definition? = none →
      registry.bodies = firsts (RegistryEntry.definitions (history ++ [entry])) := by
    intro none
    rw [RegistryEntry.definitions_concat, none, Option.toList_none, List.append_nil]
    exact gathers.bodies
  cases entry with
  | incomplete span =>
      exact gathers.concat ⟨rfl, rfl⟩ (unchanged rfl) (List.append_nil _).symm rfl rfl
  | exampleOf name doc =>
      exact gathers.concat ⟨rfl, rfl⟩ (unchanged rfl) rfl (List.append_nil _).symm rfl
  | definition name span body =>
      have known := gathers.isRegistered_iff name
      have added : firsts (RegistryEntry.definitions (history ++ [.definition name span body])) =
          if name ∈ RegistryEntry.names history then registry.bodies
          else registry.bodies ++ [(name, body)] := by
        rw [RegistryEntry.definitions_concat, gathers.bodies]
        exact firsts_concat _ _
      show (registry.offer name span body).2.Gathers id mode _
      unfold offer
      by_cases taken : registry.isRegistered name = true
      · have defined := known.mp taken
        have reported : (RegistryEntry.definition name span body).reports (RegistryEntry.names history) =
            [.of .redefinedName span ("redefined name " ++ name)] := if_pos defined
        rw [if_pos taken]
        rw [if_pos defined] at added
        refine gathers.concat ⟨rfl, rfl⟩ added.symm ?_ ?_ ?_
        · exact (List.append_nil _).symm
        · rw [reported]
          rfl
        · rw [reported]
          rfl
      · have fresh := mt known.mpr taken
        have silent : (RegistryEntry.definition name span body).reports (RegistryEntry.names history) = [] :=
          if_neg fresh
        rw [if_neg taken]
        rw [if_neg fresh] at added
        refine gathers.concat ⟨rfl, rfl⟩ added.symm ?_ ?_ ?_
        · exact (List.append_nil _).symm
        · rw [silent, List.append_nil]
        · rw [silent]
          simp [RegistryEntry.isRule]

/-- Whatever entries a registry takes in, it holds what they make up. -/
theorem Gathers.enterAll (gathers : registry.Gathers id mode history) (entries : List RegistryEntry) :
    (entries.foldl Registry.enter registry).Gathers id mode (history ++ entries) := by
  induction entries generalizing registry history with
  | nil => simpa using gathers
  | cons entry entries ih =>
      rw [List.foldl_cons, ← List.singleton_append, ← List.append_assoc]
      exact ih (gathers.enter entry)

theorem Gathers.perform (gathers : registry.Gathers id mode history) (call : Call) :
    (registry.perform call).2.Gathers id mode (history ++ call.entries) := by
  rw [perform_eq]
  exact gathers.enterAll call.entries

/-- A call is answered by what was defined before it. -/
theorem Gathers.answer (gathers : registry.Gathers id mode history) (call : Call) :
    (registry.perform call).1 = call.answer history := by
  cases call with
  | load | recordExample => rfl
  | register name span body =>
      have known := gathers.isRegistered_iff name
      show some (registry.offer name span body).1 = some (decide (name ∉ RegistryEntry.names history))
      unfold offer
      by_cases taken : registry.isRegistered name = true
      · rw [if_pos taken, decide_eq_false (not_not_intro (known.mp taken))]
      · rw [if_neg taken, decide_eq_true (mt known.mpr taken)]

/-- Whatever calls are performed, the registry holds what they bring up, and each of them is answered by
what the calls before it brought up. -/
theorem Gathers.performAll (gathers : registry.Gathers id mode history) (calls : List Call) :
    (registry.performAll calls).2.Gathers id mode (history ++ calls.flatMap Call.entries) ∧
      (registry.performAll calls).1 = Call.answersAfter history calls := by
  induction calls generalizing registry history with
  | nil =>
      rw [List.flatMap_nil, List.append_nil]
      exact ⟨gathers, rfl⟩
  | cons call calls ih =>
      obtain ⟨held, answers⟩ := ih (gathers.perform call)
      constructor
      · rw [List.flatMap_cons, ← List.append_assoc]
        exact held
      · show (registry.perform call).1 :: ((registry.perform call).2.performAll calls).1 = _
        rw [answers, gathers.answer]
        rfl

end Registry

/-! ## Reports -/

/-- The report is on a name that is defined again. -/
def Diagnostic.isRedefinition (d : Diagnostic) : Bool :=
  d.anomaly = .redefinedName

/-- The report is on a rule without a name or body. -/
def Diagnostic.isIncompleteRule (d : Diagnostic) : Bool :=
  d.anomaly = .unexpectedNode ∧ d.message = "rule without a name or body"

/-- A report on registration is on one of two things. -/
theorem RegistryEntry.isIncompleteRule_of_mem_reportsAfter {earlier entries : List RegistryEntry} :
    ∀ d ∈ reportsAfter earlier entries, d.isIncompleteRule = !d.isRedefinition := by
  induction entries generalizing earlier with
  | nil => exact fun d member => nomatch member
  | cons entry entries ih =>
      intro d member
      rcases List.mem_append.mp member with here | later
      · cases entry with
        | definition name span body =>
            obtain ⟨-, rfl⟩ := List.mem_ite_nil_right.mp here |>.imp_right List.mem_singleton.mp
            rfl
        | incomplete span =>
            rw [List.mem_singleton.mp here]
            rfl
        | exampleOf => cases here
      · exact ih d later

/-- The reports on nodes without meaning are told from those on incomplete rules by their message. -/
theorem unexpected_node_message_ne (kind : Kind) :
    "unexpected syntax node " ++ kind.display ≠ "rule without a name or body" := by
  intro same
  have first := congrArg (fun message => message.toList.head?) same
  simp [String.toList_append] at first

/-- Compiling a body reports neither on names that are defined again nor on incomplete rules. -/
theorem Placed.not_registration_of_mem_reports {mode : Mode} {placed : Placed} :
    ∀ d ∈ placed.reports mode, d.isRedefinition = false ∧ d.isIncompleteRule = false := by
  intro d member
  obtain ⟨node, -, rfl | rfl | rfl | rfl⟩ := exists_visited_of_mem_reports member
  · exact ⟨rfl, rfl⟩
  · exact ⟨rfl, decide_eq_false fun both => unexpected_node_message_ne node.kind both.2⟩
  · exact ⟨rfl, rfl⟩
  · exact ⟨rfl, rfl⟩

/-- Nodes that are rules bring up one rule each. -/
theorem Placed.countP_entries (child : Placed) :
    child.entries.countP RegistryEntry.isRule = if child.isRule then 1 else 0 := by
  unfold entries
  split
  · split
    · rfl
    · rfl
  · rw [List.countP_map]
    exact List.countP_eq_zero.mpr fun name _ => Bool.false_ne_true
  · next others _ =>
      unfold isRule
      split
      · exact (others _ _ rfl).elim
      · rfl

namespace Registry

theorem Call.countP_entries (call : Call) :
    call.entries.countP RegistryEntry.isRule = call.ruleCount := by
  match call with
  | .register .. | .recordExample .. | .load (.token _) => rfl
  | .load (.node _ _ children) =>
      show (children.flatMap Placed.entries).countP RegistryEntry.isRule =
        children.countP Placed.isRule
      induction children with
      | nil => rfl
      | cons child children ih =>
          rw [List.flatMap_cons, List.countP_append, List.countP_cons, ih,
            Placed.countP_entries, Nat.add_comm]

/-- Every report on registration is counted once, and no report on compiling is counted. -/
theorem countP_registration {registered compiled : List Diagnostic}
    (either : ∀ d ∈ registered, d.isIncompleteRule = !d.isRedefinition)
    (neither : ∀ d ∈ compiled, d.isRedefinition = false ∧ d.isIncompleteRule = false) :
    (registered ++ compiled).countP Diagnostic.isRedefinition +
        (registered ++ compiled).countP Diagnostic.isIncompleteRule = registered.length := by
  have redefinitions : compiled.countP Diagnostic.isRedefinition = 0 :=
    List.countP_eq_zero.mpr fun d member => Bool.eq_false_iff.mp (neither d member).1
  have incomplete : compiled.countP Diagnostic.isIncompleteRule = 0 :=
    List.countP_eq_zero.mpr fun d member => Bool.eq_false_iff.mp (neither d member).2
  have others : registered.countP Diagnostic.isIncompleteRule =
      registered.countP (fun d => !d.isRedefinition) :=
    List.countP_congr fun d member => by rw [either d member]
  have split := List.length_eq_countP_add_countP Diagnostic.isRedefinition (l := registered)
  simp only [Bool.not_eq_true, Bool.decide_eq_false] at split
  rw [List.countP_append, List.countP_append, redefinitions, incomplete, others]
  omega

/-- **What a registry makes of its calls.** Take any calls on a new registry, and what they bring up.

* A registration is answered by whether no call before it defined the name.
* The finished grammar has one rule for every name that is defined, in the order of the first
  definitions, and the rule is the compiled first definition.
* The examples are those brought up, in order.
* The reports are, in order, one for every definition of a name that was defined before it, at the place
  of the repeated name, and one for every rule statement without a name or body; then those on compiling
  the kept bodies, rule by rule.
* So the rule statements and the registrations together are as many as the rules, the reports on repeated
  names and the reports on incomplete rules. -/
theorem finish_performAll (id : GrammarId) (urn : String) (mode : Mode) (calls : List Call) :
    let answers := ((new id urn mode).performAll calls).1
    let grammar := ((new id urn mode).performAll calls).2.finish
    let entries := calls.flatMap Call.entries
    let kept := firsts (RegistryEntry.definitions entries)
    answers = Call.answersAfter [] calls ∧
      grammar.rules = kept.map (fun rule => (rule.1, rule.2.compile id mode)) ∧
      grammar.ruleNames.Nodup ∧
      grammar.examples = entries.filterMap RegistryEntry.example? ∧
      grammar.diagnostics =
        RegistryEntry.reportsAfter [] entries ++ kept.flatMap (fun rule => rule.2.reports mode) ∧
      (calls.map Call.ruleCount).sum =
        grammar.rules.length + grammar.diagnostics.countP Diagnostic.isRedefinition +
          grammar.diagnostics.countP Diagnostic.isIncompleteRule := by
  intro answers grammar entries kept
  obtain ⟨held, answered⟩ := (Gathers.new id urn mode).performAll calls
  have rules : grammar.rules = kept.map (fun rule => (rule.1, rule.2.compile id mode)) := by
    show List.map _ _ = _
    rw [held.bodies, held.id, held.mode]
    rfl
  have diagnostics : grammar.diagnostics =
      RegistryEntry.reportsAfter [] entries ++ kept.flatMap (fun rule => rule.2.reports mode) := by
    show _ ++ List.flatMap _ _ = _
    rw [held.diagnostics, held.bodies, held.mode]
    rfl
  refine ⟨answered, rules, ?_, held.examples, diagnostics, ?_⟩
  · rw [Grammar.ruleNames, rules, List.map_map]
    exact nodup_map_fst_firsts _
  · have brought : (calls.map Call.ruleCount).sum = entries.countP RegistryEntry.isRule := by
      rw [List.countP_flatMap]
      congr 1
      exact List.map_congr_left fun call _ => call.countP_entries.symm
    have compiled : ∀ d ∈ kept.flatMap (fun rule => rule.2.reports mode),
        d.isRedefinition = false ∧ d.isIncompleteRule = false := by
      intro d member
      obtain ⟨rule, -, member⟩ := List.mem_flatMap.mp member
      exact Placed.not_registration_of_mem_reports d member
    have registered : ∀ d ∈ RegistryEntry.reportsAfter [] entries,
        d.isIncompleteRule = !d.isRedefinition := RegistryEntry.isIncompleteRule_of_mem_reportsAfter
    have reported := countP_registration registered compiled
    have count := held.count
    rw [held.bodies, held.diagnostics, List.nil_append] at count
    rw [brought, rules, diagnostics, List.length_map, Nat.add_assoc, reported, ← count]

/-- The children of a source that defines `a` twice, leaves `"b"` without a body and gives an example for
`a` and for `c`. -/
def repeatedRules : List Tree :=
  [.node .rule [.token .ident "a", .token .eq "=", .node .any [.token .dot "."]],
    .node .rule [.token .quotedName "\"b\"", .token .eq "="],
    .node .rule [.token .ident "a", .token .eq "=", .node .name [.token .ident "c"]],
    .node .exampleStmt
      [.token .exampleKw "example", .token .whitespace " ", .token .ident "a", .token .comma ",",
        .token .ident "c",
        .node .doc [.token .docDelim "'''", .token .text "x", .token .docDelim "'''"]]]

/-- Calls that load the source, then register an unordered choice as `c`, register `a` once more, and
record an example. -/
def repeatedCalls : List Call :=
  [.load ((Tree.node .source repeatedRules).place 0),
    .register "c" ⟨0, 1⟩ (.node .alt ⟨2, 5⟩ [.node .any ⟨2, 3⟩ [], .node .empty ⟨4, 5⟩ []]),
    .register "a" ⟨5, 6⟩ (.node .empty ⟨7, 9⟩ []), .recordExample "c" "y"]

/-- The first body of `a` is kept, whether the source or a registration repeats the name, and the rule
without a body is reported in its place. The report on the unordered choice comes last, although the
choice is registered before `a` is repeated. -/
theorem finish_performAll_repeatedRules :
    let performed := (new ⟨1⟩ "" .full).performAll repeatedCalls
    performed.1 = [none, some true, some false, none] ∧
      performed.2.finish.rules = [("a", .any), ("c", .choice [.any, .empty])] ∧
      performed.2.finish.examples = [("a", "x"), ("c", "x"), ("c", "y")] ∧
      performed.2.finish.diagnostics =
        [.of .unexpectedNode ⟨3, 7⟩ "rule without a name or body",
          .of .redefinedName ⟨7, 8⟩ "redefined name a", .of .redefinedName ⟨5, 6⟩ "redefined name a",
          (Diagnostic.of .unorderedChoice ⟨2, 5⟩ "unordered choice is not supported").withHint
            "use '/' for ordered choice"] := by
  obtain ⟨answers, rules, -, examples, diagnostics, -⟩ :=
    finish_performAll ⟨1⟩ "" .full repeatedCalls
  exact ⟨answers, rules, examples, diagnostics⟩

end Registry

end Peg
