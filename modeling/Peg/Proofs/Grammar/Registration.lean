import Peg.Registry

/-!
# Registration

What a source registers, before any body is compiled.

* `Registry.load_relabel`: neither identity nor name nor mode of a grammar matter to what is registered.
* `Registry.ReportsRegistration`: the only reports are on names defined again and on rules without a
  name or body, which every statement preserves.
* `Parse.compile_readable`, `Parse.compile_unreadable`: the two ways in which a source is compiled.
-/

namespace Peg

open Text (Span)

namespace Registry

variable {registry : Registry} {id : GrammarId} {urn : String} {mode : Mode}

/-- The registry with the same content for another grammar. -/
def relabel (registry : Registry) (id : GrammarId) (urn : String) (mode : Mode) : Registry :=
  { registry with id := id, urn := urn, mode := mode }

theorem register_relabel (name : String) (span : Span) (body : Placed) :
    (registry.relabel id urn mode).register name span body =
      (registry.register name span body).relabel id urn mode := by
  unfold register offer
  by_cases taken : registry.isRegistered name = true
  · rw [if_pos taken, if_pos (show (registry.relabel id urn mode).isRegistered name = true from taken)]
    rfl
  · rw [if_neg taken, if_neg (show ¬(registry.relabel id urn mode).isRegistered name = true from taken)]
    rfl

theorem recordExamples_relabel (names : List Token) (text : String) :
    names.foldl (fun registry name => registry.recordExample name.text text)
        (registry.relabel id urn mode) =
      (names.foldl (fun registry name => registry.recordExample name.text text) registry).relabel
        id urn mode := by
  induction names generalizing registry with
  | nil => rfl
  | cons name names ih => exact @ih (registry.recordExample name.text text)

theorem loadStatement_relabel (statement : Statement) :
    (registry.relabel id urn mode).loadStatement statement =
      (registry.loadStatement statement).relabel id urn mode := by
  match statement with
  | .rule _ (some name) (some body) => exact register_relabel name.text name.span body
  | .rule _ none _ => rfl
  | .rule _ (some _) none => rfl
  | .exampleOf _ names doc => exact recordExamples_relabel names _

theorem load_relabel (source : Placed) :
    (registry.relabel id urn mode).load source = (registry.load source).relabel id urn mode := by
  unfold load
  induction source.statements generalizing registry with
  | nil => rfl
  | cons statement statements ih =>
      rw [List.foldl_cons, loadStatement_relabel, ih]
      rfl

/-- A registry for a grammar with another identity, name or mode gathers the same. -/
theorem load_new (id id' : GrammarId) (urn urn' : String) (mode mode' : Mode) (source : Placed) :
    (new id' urn' mode').load source = ((new id urn mode).load source).relabel id' urn' mode' := by
  rw [← load_relabel]
  rfl

/-! ## Reports -/

/-- Every report is on a name that is defined again or on a rule without a name or body. -/
def ReportsRegistration (registry : Registry) : Prop :=
  ∀ d ∈ registry.diagnostics, d.anomaly = .redefinedName ∨ d.anomaly = .unexpectedNode

theorem ReportsRegistration.report (reports : registry.ReportsRegistration) {d : Diagnostic}
    (anomaly : d.anomaly = .redefinedName ∨ d.anomaly = .unexpectedNode) :
    (registry.report d).ReportsRegistration := by
  intro d' member
  rcases List.mem_append.mp member with old | new
  · exact reports d' old
  · rw [List.mem_singleton.mp new]
    exact anomaly

theorem ReportsRegistration.register (reports : registry.ReportsRegistration) (name : String)
    (span : Span) (body : Placed) :
    (registry.register name span body).ReportsRegistration := by
  unfold Registry.register Registry.offer
  split
  · exact reports.report (Or.inl rfl)
  · exact reports

theorem ReportsRegistration.recordExamples (reports : registry.ReportsRegistration)
    (names : List Token) (text : String) :
    (names.foldl (fun registry name => registry.recordExample name.text text)
      registry).ReportsRegistration := by
  induction names generalizing registry with
  | nil => exact reports
  | cons name names ih => exact @ih (registry.recordExample name.text text) reports

theorem ReportsRegistration.loadStatement (reports : registry.ReportsRegistration)
    (statement : Statement) : (registry.loadStatement statement).ReportsRegistration := by
  match statement with
  | .rule _ (some name) (some body) => exact reports.register name.text name.span body
  | .rule _ none _ => exact reports.report (Or.inr rfl)
  | .rule _ (some _) none => exact reports.report (Or.inr rfl)
  | .exampleOf _ names doc => exact reports.recordExamples names _

theorem ReportsRegistration.load (reports : registry.ReportsRegistration) (source : Placed) :
    (registry.load source).ReportsRegistration := by
  unfold Registry.load
  induction source.statements generalizing registry with
  | nil => exact reports
  | cons statement statements ih => exact ih (reports.loadStatement statement)

end Registry

/-! ## Sources -/

namespace Parse

variable {parse : Parse} {id : GrammarId} {urn : String} {mode : Mode}

/-- The tree is that of a source, and no fault was found in it. -/
def IsReadable (parse : Parse) : Prop :=
  parse.kind = .source ∧ parse.faults = []

theorem compile_readable (readable : parse.IsReadable) :
    parse.compile id urn mode = ((Registry.new id urn mode).load parse.root).finish := by
  have source : parse.source? = some parse.root := if_pos readable.1
  have ok : parse.isOk = true := List.isEmpty_iff.mpr readable.2
  rw [compile, source, ok]

theorem compile_unreadable (unreadable : ¬parse.IsReadable) :
    parse.compile id urn mode =
      { Grammar.new id urn with hasError := true, diagnostics := parse.errorReports } := by
  unfold compile
  split
  · next source ok =>
      unfold source? at source
      split at source
      · next kind => exact (unreadable ⟨kind, List.isEmpty_iff.mp ok⟩).elim
      · cases source
  · rfl

/-- A source is compiled under the name that is given. -/
theorem urn_compile (parse : Parse) (id : GrammarId) (urn : String) (mode : Mode) :
    (parse.compile id urn mode).urn = urn := by
  by_cases readable : parse.IsReadable
  · rw [compile_readable readable, Registry.load_new id id urn urn mode mode]
    rfl
  · rw [compile_unreadable readable]
    rfl

end Parse

end Peg
