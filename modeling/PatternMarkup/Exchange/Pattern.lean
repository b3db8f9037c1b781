import PatternMarkup.Exchange.Figure
import PatternMarkup.Exchange.Tree
import PatternMarkup.Pattern.Bind.Document
import PatternMarkup.Pattern.InstanceBinding
/-!
How patterns, bound documents and instances are written as JSON.
-/

namespace PatternMarkup

/-! ### Arguments -/

/-- A value as written, with what it was read as. -/
def WrittenValue.json (w : WrittenValue Float) : Json :=
  .object [("text", .string w.text), ("span", w.span.json), ("value", w.value.json)]

/-- The name of a source. -/
def ArgumentSource.name : ArgumentSource → String
  | singular => "singular"
  | numbered => "numbered"
  | entry => "entry"

/-- What all arguments have, member by member; `source` tells where the value comes from. -/
def argumentMembers (name var : String) (type : ValueType) (optional : Bool)
    (fallback sample : Option (WrittenValue Float)) (source : List (String × Json))
    (test : Option (Expression Float Bool)) (message : Option String) (span : Span) : Json :=
  .objectOf [("name", some (.string name)), ("var", some (.string var)), ("ty", some type.json),
    ("optional", some (.bool optional)), ("default", fallback.map WrittenValue.json),
    ("example", sample.map WrittenValue.json), ("source", some (.object source)),
    ("test", addition test), ("message", message.map Json.string), ("span", some span.json)]

/-- An argument with a value of its own. -/
def PlainArgument.json (a : PlainArgument Float) : Json :=
  argumentMembers a.name a.var a.type a.optional a.fallback a.sample
    [("source", .string a.source.name)] a.test a.message a.span

/-- An argument. -/
def Argument.json : Argument Float → Json
  | plain a => a.json
  | group g =>
      argumentMembers g.name g.var g.type g.optional none none
        [("source", .string "grouped"), ("members", .list (g.members.map PlainArgument.json))]
        g.test g.message g.span

/-- A validation. -/
def Validation.json (v : Validation Float) : Json :=
  .object [("test", v.test.json), ("message", .string v.message), ("span", v.span.json)]

/-! ### Patterns -/

/-- What a usable pattern holds beside its arguments, member by member. -/
def PatternContent.members (c : PatternContent Float) : List (String × Option Json) :=
  [("description", c.description.map Json.string), ("title", c.title.map Json.string),
    ("example_size", c.exampleSize.map Size.json),
    ("example_canvas", c.exampleCanvas.map Size.json), ("body", some c.body.json)]

/-- A pattern. -/
def Pattern.json (p : Pattern Float) : Json :=
  .objectOf ([("name", some (.string p.name)), ("library", some (.string p.library)),
    ("qualified_name", some (.string p.qualifiedName)),
    ("kind", some (.optional (fun c => .string c.kind.name) p.content)),
    ("arguments", some (.list (p.arguments.map Argument.json))),
    ("validations", some (.list (p.validations.map Validation.json))),
    ("is_error", some (.bool p.isError)), ("node", some (.count p.node)),
    ("span", some p.span.json),
    ("diagnostics", some (.list (p.diagnostics.map Diagnostic.json)))] ++
    (p.content.map PatternContent.members).getD [])

/-- An error of binding. -/
def BindError.json (e : BindError) : Json :=
  match e with
  | .source _ => problemJson "Source" e.message
  | .patternNotFound _ => problemJson "PatternNotFound" e.message

/-! ### Documents -/

/-- Which figures come from which nodes, both ways. -/
def IdentityMap.json (m : IdentityMap) : Json :=
  .object [
    ("by_node", .object (m.nodes.map fun node =>
      (toString node, .counts (m.figuresOf node)))),
    ("by_element", .object (m.figures.map fun i => (toString i.figure, .count i.node))),
    ("origins", .object (m.figures.map fun i => (toString i.figure, .count i.source)))]

/-- A bound document, member by member. -/
def BoundDocument.members (d : BoundDocument Float) : List (String × Json) :=
  [("patterns", .list (d.patterns.map Pattern.json)), ("diagnostics", d.diagnostics.json),
    ("identity", d.identity.json)]

/-- The figures of all patterns, each with its nodes and the role it has as an area. -/
def BoundDocument.walk (d : BoundDocument Float) : Json :=
  let bodies := d.patterns.filterMap fun p => p.content.map (·.body)
  .list ((bodies.flatMap Figure.heads).map fun h =>
    .list [.string ("e" ++ toString h.id), .optional Json.count (d.identity.nodeOf? h.id),
      .optional Json.count (d.identity.sourceOf? h.id), .optional Json.string h.role?])

/-! ### Instances -/

/-- An attribute of an instance. -/
def InstanceAttribute.json (a : InstanceAttribute) : Json :=
  .object [("name", .string a.name), ("value", .string a.value),
    ("name_span", a.nameSpan.json), ("value_span", a.valueSpan.json)]

/-- An instance. -/
def Instance.json (i : Instance Float) : Json :=
  .object [("attributes", .list (i.attributes.map InstanceAttribute.json)),
    ("entries", .object (i.entries.map fun (name, v) => (name, v.json))), ("span", i.span.json)]

/-- The value of an argument. -/
def ArgumentValue.json : ArgumentValue Float → Json
  | single e => e.json
  | group members => .object (members.map fun (name, e) => (name, e.json))

/-- The values of an instance. -/
def ArgumentValues.json (vs : ArgumentValues Float) : Json :=
  .object [("values", .object (vs.values.map fun (var, b) =>
    (var, .object [("ty", b.type.json), ("value", .optional ArgumentValue.json b.value)])))]

/-- Each variable of an instance: whether it has a value, and whether that is known. -/
def ArgumentValues.report (vs : ArgumentValues Float) : Json :=
  .object (vs.values.map fun (var, b) =>
    (var, .object [("bound", .bool (vs.isBound var)),
      ("constant", .optional (fun v => outcomeJson (.ok v)) (vs.constant? var)),
      ("is_constant", .optional (fun v => .bool v.isConstant) b.value)]))

end PatternMarkup
