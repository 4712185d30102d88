import Peg.Compile
import Peg.Grammar

/-!
# Registering rules and finishing a grammar

A registry gathers rule bodies and examples before any body is compiled, so a rule may refer to rules
that follow it. The first definition of a name is kept.

* `Registry.register`, `Registry.load`: add one body, or all statements of a source.
* `Registry.perform`: a call on a registry, with its answer.
* `Registry.finish`: compile what was gathered.
* `Parse.compile`: the grammar for a source that has been read.
-/

namespace Peg

open Text (Span)

/-- Rule bodies and examples gathered for one grammar. -/
structure Registry where
  id : GrammarId
  urn : String
  mode : Mode
  /-- The kept bodies under their names, in the order of registration. -/
  bodies : List (String × Placed)
  examples : List (String × String)
  diagnostics : List Diagnostic

namespace Registry

def new (id : GrammarId) (urn : String) (mode : Mode) : Registry :=
  ⟨id, urn, mode, [], [], []⟩

def isRegistered (registry : Registry) (name : String) : Bool :=
  registry.bodies.any (·.1 == name)

def report (registry : Registry) (diagnostic : Diagnostic) : Registry :=
  { registry with diagnostics := registry.diagnostics ++ [diagnostic] }

/-- Keeps a body under a name and answers `true`. A name that is taken is reported at `span` instead,
and the answer is `false`. -/
def offer (registry : Registry) (name : String) (span : Span) (body : Placed) : Bool × Registry :=
  if registry.isRegistered name then
    (false, registry.report (.of .redefinedName span ("redefined name " ++ name)))
  else (true, { registry with bodies := registry.bodies ++ [(name, body)] })

/-- The registry after a body was offered. -/
def register (registry : Registry) (name : String) (span : Span) (body : Placed) : Registry :=
  (registry.offer name span body).2

def recordExample (registry : Registry) (name doc : String) : Registry :=
  { registry with examples := registry.examples ++ [(name, doc)] }

def loadStatement (registry : Registry) : Statement → Registry
  | .rule _ (some name) (some body) => registry.register name.text name.span body
  | .rule span _ _ => registry.report (.of .unexpectedNode span "rule without a name or body")
  | .exampleOf _ names doc =>
    let text := (doc.map Doc.text).getD ""
    names.foldl (fun registry name => registry.recordExample name.text text) registry

def load (registry : Registry) (source : Placed) : Registry :=
  source.statements.foldl loadStatement registry

/-- A call on a registry. -/
inductive Call where
  | load (source : Placed)
  | register (name : String) (span : Span) (body : Placed)
  | recordExample (name doc : String)

/-- Performs a call. Only the registration of a body has an answer: whether the body is kept. -/
def perform (registry : Registry) : Call → Option Bool × Registry
  | .load source => (none, registry.load source)
  | .register name span body =>
    let (kept, registry) := registry.offer name span body
    (some kept, registry)
  | .recordExample name doc => (none, registry.recordExample name doc)

/-- Performs calls one after the other and collects their answers. -/
def performAll (registry : Registry) : List Call → List (Option Bool) × Registry
  | [] => ([], registry)
  | call :: calls =>
    let (answer, registry) := registry.perform call
    let (answers, registry) := registry.performAll calls
    (answer :: answers, registry)

/-- Compiles the kept bodies. Their reports follow those of registration, rule by rule. -/
def finish (registry : Registry) : Grammar where
  id := registry.id
  urn := registry.urn
  rules := registry.bodies.map fun (name, body) => (name, body.compile registry.id registry.mode)
  examples := registry.examples
  hasError := false
  diagnostics :=
    registry.diagnostics ++ registry.bodies.flatMap fun (_, body) => body.reports registry.mode

end Registry

namespace Parse

/-- What is reported about a source that could not be read: its faults, or that its tree is not that
of a source. -/
def errorReports (parse : Parse) : List Diagnostic :=
  if parse.isOk then
    [.of .malformedSource parse.root.span "grammar tree has no source root"]
  else parse.faults.map fun fault => .of .malformedSource fault.span fault.message

/-- The grammar for a source. One with faults, or without a source at the root of its tree, yields a
grammar without rules that is marked as erroneous. -/
def compile (parse : Parse) (id : GrammarId) (urn : String) (mode : Mode) : Grammar :=
  match parse.source?, parse.isOk with
  | some source, true => ((Registry.new id urn mode).load source).finish
  | _, _ => { Grammar.new id urn with hasError := true, diagnostics := parse.errorReports }

end Parse

end Peg
