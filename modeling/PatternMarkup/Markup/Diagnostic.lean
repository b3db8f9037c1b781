import PatternMarkup.Markup.Span
/-!
Reports about a document. A collection of reports keeps at most one per span, the first that
was made; this is part of its type.
-/

namespace PatternMarkup

/-- Whether a report makes a document unusable or only doubtful. -/
inductive Severity where
  | error
  | warning
deriving Repr, DecidableEq, Inhabited

/-- The stage whose rules a document breaks: its markup, its meaning, or its evaluation. -/
inductive DiagnosticKind where
  | form
  | meaning
  | evaluation
deriving Repr, DecidableEq, Inhabited

/-- One report, at a place in the source. -/
structure Diagnostic where
  span : Span
  message : String
  severity : Severity
  kind : DiagnosticKind
  cause : Option String
deriving Repr, DecidableEq, Inhabited

namespace Severity

/-- The word a report shows for its severity. -/
def name : Severity → String
  | error => "error"
  | warning => "warning"

end Severity

namespace DiagnosticKind

/-- The word a report shows for its kind. -/
def name : DiagnosticKind → String
  | form => "syntax"
  | meaning => "semantic"
  | evaluation => "evaluation"

end DiagnosticKind

namespace Diagnostic

/-- A report of an error. -/
def error (kind : DiagnosticKind) (span : Span) (message : String) : Diagnostic :=
  ⟨span, message, .error, kind, none⟩

/-- A report of something doubtful. -/
def warning (kind : DiagnosticKind) (span : Span) (message : String) : Diagnostic :=
  ⟨span, message, .warning, kind, none⟩

/-- The same report with what brought it about. -/
def because (d : Diagnostic) (cause : String) : Diagnostic := { d with cause := some cause }

/-- Whether the report is of an error. -/
def isError (d : Diagnostic) : Bool := d.severity == .error

/-- One line with the place, the severity, the message and the cause, if there is one. -/
def text (d : Diagnostic) : String :=
  toString d.span.line ++ ":" ++ toString d.span.column ++ ": " ++ d.severity.name ++ ": " ++
    d.message ++ (match d.cause with
      | some cause => " (" ++ cause ++ ")"
      | none => "")

end Diagnostic

/-- Reports in the order they were made, no two of them at the same span. -/
structure Diagnostics where
  items : List Diagnostic := []
  distinct : (items.map Diagnostic.span).Nodup := by exact List.nodup_nil

namespace Diagnostics

/-- No reports. -/
def empty : Diagnostics := {}

instance : Inhabited Diagnostics := ⟨empty⟩

/-- Whether some report is made at the span. -/
def covers (ds : Diagnostics) (span : Span) : Bool := decide (span ∈ ds.items.map Diagnostic.span)

/-- Adds a report unless there is one at its span. -/
def push (ds : Diagnostics) (d : Diagnostic) : Diagnostics :=
  if h : d.span ∈ ds.items.map Diagnostic.span then ds
  else
    { items := ds.items ++ [d]
      distinct := by
        rw [List.map_append, List.nodup_append]
        refine ⟨ds.distinct, by simp, ?_⟩
        intro s hs t ht
        simp only [List.map_cons, List.map_nil, List.mem_singleton] at ht
        subst ht
        exact fun heq => h (heq ▸ hs) }

/-- Adds reports one after another. -/
def pushAll (ds : Diagnostics) (more : List Diagnostic) : Diagnostics := more.foldl push ds

/-- The reports of a list, the first at each span. -/
def ofList (items : List Diagnostic) : Diagnostics := empty.pushAll items

theorem items_push_of_mem {ds : Diagnostics} {d : Diagnostic}
    (h : d.span ∈ ds.items.map Diagnostic.span) : (ds.push d).items = ds.items := by
  rw [push, dif_pos h]

theorem items_push_of_not_mem {ds : Diagnostics} {d : Diagnostic}
    (h : d.span ∉ ds.items.map Diagnostic.span) : (ds.push d).items = ds.items ++ [d] := by
  rw [push, dif_neg h]

/-- The number of reports. -/
def size (ds : Diagnostics) : Nat := ds.items.length

/-- Whether there are no reports. -/
def isEmpty (ds : Diagnostics) : Bool := ds.items.isEmpty

/-- The number of errors among the reports. -/
def errorCount (ds : Diagnostics) : Nat := ds.items.countP Diagnostic.isError

/-- Whether an error is among the reports. -/
def hasErrors (ds : Diagnostics) : Bool := ds.items.any Diagnostic.isError

end Diagnostics

end PatternMarkup
