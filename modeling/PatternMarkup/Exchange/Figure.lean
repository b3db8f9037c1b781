import PatternMarkup.Exchange.Formula
import PatternMarkup.Exchange.Markup
import PatternMarkup.Pattern.Figure
/-!
How figures are written as JSON. What a figure does not have is null where it is one of a
figure's measures, and left out where it is an addition.
-/

namespace PatternMarkup

/-- An expression that may be missing, as a measure. -/
def measure {τ : Type} [Exported τ] (e : Option (Expression Float τ)) : Json :=
  .optional Expression.json e

/-- An expression that may be missing, as an addition. -/
def addition {τ : Type} [Exported τ] (e : Option (Expression Float τ)) : Option Json :=
  e.map Expression.json

/-- How a figure's inside is sliced. -/
def SliceFormulas.json (f : SliceFormulas Float) : Json :=
  .object [("reference", f.reference.json), ("xs", f.xs.json), ("ys", f.ys.json)]

/-- A frame, member by member. -/
def FigureFrame.members (f : FigureFrame Float) : List (String × Option Json) :=
  [("x", measure f.x), ("y", measure f.y), ("width", measure f.width),
    ("height", measure f.height), ("margin", measure f.margin),
    ("slicing", f.slicing.map SliceFormulas.json)]

/-- A shape, member by member. -/
def Shape.members : Shape Float → List (String × Json)
  | rect x y width height rx ry =>
      [("shape", .string "rect"), ("x", x.json), ("y", y.json), ("width", width.json),
        ("height", height.json), ("rx", measure rx), ("ry", measure ry)]
  | ellipse cx cy rx ry =>
      [("shape", .string "ellipse"), ("cx", cx.json), ("cy", cy.json), ("rx", rx.json),
        ("ry", ry.json)]
  | circle cx cy r =>
      [("shape", .string "circle"), ("cx", cx.json), ("cy", cy.json), ("r", r.json)]
  | line x1 y1 x2 y2 =>
      [("shape", .string "line"), ("x1", x1.json), ("y1", y1.json), ("x2", x2.json),
        ("y2", y2.json)]
  | corners points closed =>
      [("shape", .string "poly"), ("points", points.json), ("closed", .bool closed)]
  | path data => [("shape", .string "path"), ("data", data.json)]

/-- What a figure is, member by member. -/
def FigureKind.members : FigureKind Float → List (String × Option Json)
  | div frame => ("kind", some (.string "div")) :: frame.members
  | area role frame =>
      [("kind", some (.string "area")), ("role", some (.string role)),
        ("frame", some (.objectOf frame.members))]
  | group => [("kind", some (.string "group"))]
  | shape s => (("kind", .string "shape") :: s.members).map fun (name, j) => (name, some j)
  | text run =>
      [("kind", some (.string "text")), ("x", some run.x.json), ("y", some run.y.json),
        ("font_size", some run.fontSize.json), ("font_family", addition run.fontFamily),
        ("anchor", some (.string run.anchor.name)), ("content", some run.content.json)]
  | image p =>
      [("kind", some (.string "image")), ("x", some p.x.json), ("y", some p.y.json),
        ("width", some (measure p.width)), ("height", some (measure p.height)),
        ("href", some p.href.json)]
  | field s =>
      [("kind", some (.string "field")), ("name", some (.string s.name)), ("x", some s.x.json),
        ("y", some s.y.json), ("width", some (measure s.width)),
        ("height", some (measure s.height))]

/-- A stop of a gradient. -/
def GradientStop.json (s : GradientStop Float) : Json :=
  .object [("offset", s.offset.json), ("color", s.color.json)]

/-- A paint. -/
def Paint.json : Paint Float → Json
  | color c => .object [("paint", .string "color"), ("color", c.json)]
  | linear x1 y1 x2 y2 stops =>
      .object [("paint", .string "linear"), ("x1", x1.json), ("y1", y1.json), ("x2", x2.json),
        ("y2", y2.json), ("stops", .list (stops.map GradientStop.json))]
  | radial cx cy r stops =>
      .object [("paint", .string "radial"), ("cx", cx.json), ("cy", cy.json), ("r", r.json),
        ("stops", .list (stops.map GradientStop.json))]

/-- A style. -/
def Style.json (s : Style Float) : Json :=
  .objectOf [("fill", s.fill.map Paint.json), ("stroke", s.stroke.map Paint.json),
    ("stroke_width", some s.strokeWidth.json), ("text_color", addition s.textColor),
    ("visible", some s.visible.json), ("transform", some s.transform.json),
    ("local_transform", addition s.ownTransform), ("clip", some (.bool s.clip))]

/-- A loop. -/
def Loop.json (l : Loop Float) : Json :=
  .objectOf [("item", some (.string l.item)), ("index", l.index.map Json.string),
    ("items", some l.items.json), ("item_type", some l.itemType.json)]

/-- A variable. -/
def Variable.json (v : Variable Float) : Json :=
  .object [("name", .string v.name), ("ty", v.type.json), ("value", measure v.value),
    ("span", v.span.json)]

/-- A list, left out if it is empty. -/
def listUnlessEmpty (items : List Json) : Option Json :=
  if items.isEmpty then none else some (.list items)

/-- A figure without those in it, member by member. -/
def FigureHead.members (h : FigureHead Float) : List (String × Option Json) :=
  [("id", some (.count h.id)), ("node", some (.count h.node)), ("span", some h.span.json),
    ("kind", some (.objectOf h.kind.members)), ("style", some h.style.json),
    ("for_each", h.loop.map Loop.json), ("vars", listUnlessEmpty (h.vars.map Variable.json))]

mutual

/-- A figure and those in it. -/
def Figure.json : Figure Float → Json
  | .mk head children =>
      .objectOf (head.members ++ [("children", listUnlessEmpty (figuresJson children))])

/-- Several figures. -/
def figuresJson : List (Figure Float) → List Json
  | [] => []
  | figure :: rest => figure.json :: figuresJson rest

end

end PatternMarkup
