import PatternMarkup.Json.Basic
import PatternMarkup.Markup.Diagnostic
/-!
How reports and their places are written as JSON.
-/

namespace PatternMarkup

/-- A span, member by member. -/
def Span.json (s : Span) : Json :=
  .object [("offset", .count s.offset), ("line", .count s.line), ("column", .count s.column),
    ("length", .count s.length)]

/-- A report; a missing cause is left out. -/
def Diagnostic.json (d : Diagnostic) : Json :=
  .objectOf [("span", d.span.json), ("message", some (.string d.message)),
    ("severity", some (.string d.severity.name)), ("kind", some (.string d.kind.name)),
    ("cause", d.cause.map Json.string)]

/-- All reports of a document. -/
def Diagnostics.json (ds : Diagnostics) : Json :=
  .object [("items", .list (ds.items.map Diagnostic.json))]

end PatternMarkup
