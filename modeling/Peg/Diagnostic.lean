import Peg.Text.Span

/-!
# Diagnostics

What is reported about a grammar's source while it is compiled. Reporting never stops the work.

* `Anomaly`: the documented causes of a report, each with a code, a severity and a default message.
* `Diagnostic`: a report about a place in the source.
-/

namespace Peg

open Text (Span)

/-- How serious a report is. -/
inductive Severity where
  /-- The grammar cannot be used as written. -/
  | error
  /-- A construct was replaced by its documented fallback. -/
  | warning
deriving DecidableEq, Repr

def Severity.display : Severity → String
  | .error => "error"
  | .warning => "warning"

/-- The cause of a report. -/
inductive Anomaly where
  /-- A rule is defined again; the first definition is kept. -/
  | redefinedName
  /-- Unordered choice is compiled as ordered choice. -/
  | unorderedChoice
  /-- An action has no effect in a pure recognizer. -/
  | idleAction
  | missingArgument
  | malformedSource
  /-- A node stands where it has no meaning. -/
  | unexpectedNode
deriving DecidableEq, Repr

namespace Anomaly

/-- Every anomaly, warnings first. -/
def all : List Anomaly :=
  [.redefinedName, .unorderedChoice, .idleAction, .missingArgument, .malformedSource,
    .unexpectedNode]

def code : Anomaly → String
  | .redefinedName => "W0101"
  | .unorderedChoice => "W0102"
  | .idleAction => "W0103"
  | .missingArgument => "W0104"
  | .malformedSource => "E0201"
  | .unexpectedNode => "E0202"

def ofCode? (code : String) : Option Anomaly :=
  all.find? (·.code == code)

/-- The severity of a report unless it says otherwise. -/
def severity : Anomaly → Severity
  | .redefinedName | .unorderedChoice | .idleAction | .missingArgument => .warning
  | .malformedSource | .unexpectedNode => .error

/-- What anomalies of this severity are called. -/
def category (anomaly : Anomaly) : String :=
  match anomaly.severity with
  | .warning => "semantic warning"
  | .error => "syntax error"

/-- The message of a report unless it says otherwise. -/
def defaultMessage : Anomaly → String
  | .redefinedName => "redefined name"
  | .unorderedChoice => "unordered choice is not supported"
  | .idleAction => "action has no effect in a pure grammar"
  | .missingArgument => "action expects an argument"
  | .malformedSource => "syntax error in grammar"
  | .unexpectedNode => "unexpected syntax node"

end Anomaly

/-- A report about a place in a grammar's source. -/
structure Diagnostic where
  anomaly : Anomaly
  span : Span
  message : String
  severity : Severity
  hint : Option String
deriving DecidableEq, Repr

namespace Diagnostic

/-- A report with the severity of its anomaly and no hint. -/
def of (anomaly : Anomaly) (span : Span) (message : String) : Diagnostic :=
  ⟨anomaly, span, message, anomaly.severity, none⟩

/-- A report with the message of its anomaly. -/
def ofAnomaly (anomaly : Anomaly) (span : Span) : Diagnostic :=
  of anomaly span anomaly.defaultMessage

/-- The report with a suggestion for mending the grammar. -/
def withHint (diagnostic : Diagnostic) (hint : String) : Diagnostic :=
  { diagnostic with hint := some hint }

def withSeverity (diagnostic : Diagnostic) (severity : Severity) : Diagnostic :=
  { diagnostic with severity := severity }

def isError (diagnostic : Diagnostic) : Bool :=
  diagnostic.severity == .error

/-- The report as shown: severity, code and message, and the hint on a line of its own. -/
def display (diagnostic : Diagnostic) : String :=
  diagnostic.severity.display ++ "[" ++ diagnostic.anomaly.code ++ "]: " ++ diagnostic.message ++
    match diagnostic.hint with
    | some hint => "\n  hint: " ++ hint
    | none => ""

def errorCount (diagnostics : List Diagnostic) : Nat :=
  diagnostics.countP isError

def warningCount (diagnostics : List Diagnostic) : Nat :=
  diagnostics.countP (·.severity == .warning)

def withAnomaly (anomaly : Anomaly) (diagnostics : List Diagnostic) : List Diagnostic :=
  diagnostics.filter (·.anomaly == anomaly)

end Diagnostic

end Peg
