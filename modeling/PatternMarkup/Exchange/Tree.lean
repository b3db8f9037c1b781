import PatternMarkup.Exchange.Problem
import PatternMarkup.Markup.Walk
/-!
How tokens and trees of markup are written as JSON.
-/

namespace PatternMarkup

/-- An attribute of a token. -/
def RawAttribute.json (a : RawAttribute) : Json :=
  .object [("name", .string a.name), ("name_span", a.nameSpan.json), ("value", .string a.value),
    ("value_span", a.valueSpan.json), ("verbatim", .bool a.verbatim)]

/-- What a token says, member by member. -/
def TokenKind.members : TokenKind → List (String × Json)
  | startTag name nameSpan attributes selfClosing =>
      [("token", .string "start"), ("name", .string name), ("name_span", nameSpan.json),
        ("attributes", .list (attributes.map RawAttribute.json)),
        ("self_closing", .bool selfClosing)]
  | endTag name => [("token", .string "end"), ("name", .string name)]
  | text content blank =>
      [("token", .string "text"), ("content", .string content), ("blank", .bool blank)]
  | comment content => [("token", .string "comment"), ("content", .string content)]
  | skipped => [("token", .string "skipped")]

/-- A token and its place. -/
def Token.json (t : Token) : Json := .object (("span", t.span.json) :: t.kind.members)

/-- Tokens and the faults found among them. -/
def TokenStream.json (stream : TokenStream) : Json :=
  .object [("tokens", .list (stream.tokens.map Token.json)),
    ("errors", .list (stream.faults.map PlacedFault.json))]

/-- An attribute of an element. -/
def Attribute.json (a : Attribute) : Json :=
  .object [("name", .string a.name), ("value", .string a.value), ("name_span", a.nameSpan.json),
    ("value_span", a.valueSpan.json), ("owner", .count a.owner), ("index", .count a.index),
    ("verbatim", .bool a.verbatim)]

/-- What a node is. -/
def NodeKind.json : NodeKind → Json
  | element e => .object [("Element", .object [("name", .string e.name),
      ("name_span", e.nameSpan.json), ("attributes", .list (e.attributes.map Attribute.json)),
      ("children", .counts e.children), ("end_tag", .optional Json.count e.endTag),
      ("self_closing", .bool e.selfClosing)])]
  | text content blank =>
      .object [("Text", .object [("content", .string content), ("blank", .bool blank)])]
  | comment content => .object [("Comment", .string content)]
  | endTag name => .object [("EndTag", .string name)]

/-- A node and its place in the tree. -/
def Node.json (n : Node) : Json :=
  .object [("kind", n.kind.json), ("span", n.span.json),
    ("parent", .optional Json.count n.parent), ("origin", .optional Json.count n.origin)]

/-- All nodes. -/
def Arena.json (a : Arena) : Json := .object [("nodes", .list (a.nodes.toList.map Node.json))]

/-- A document, member by member. -/
def Document.members (doc : Document) : List (String × Json) :=
  [("arena", doc.arena.json), ("root", .optional Json.count doc.root),
    ("top_level", .counts doc.topLevel), ("skipped", .list (doc.skipped.map Span.json)),
    ("diagnostics", doc.diagnostics.json)]

/-- A node met on a walk. -/
def Visit.json : Visit → Json
  | element id e => .list [.string "element", .count id, .string e.name]
  | attr id a => .list [.string "attribute", .count id, .string a.name]
  | text id content _ => .list [.string "text", .count id, .string content]
  | comment id content => .list [.string "comment", .count id, .string content]

end PatternMarkup
