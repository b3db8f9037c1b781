import PatternMarkup.Geometry.Basic
/-!
Slicing cuts each axis of a reference rectangle into parts that alternate between fixed and
proportional, the first one fixed. Drawn longer, fixed parts keep their length and proportional
parts share the rest; drawn shorter than its fixed parts, the axis shrinks them and gives the
others nothing. A cut belongs to the fixed part beside it. An axis without cuts is stretched.
-/

namespace PatternMarkup

/-- Whether a part of an axis keeps its length. -/
inductive SegmentKind where
  | fixed
  | proportional
deriving Repr, DecidableEq, Inhabited

/-- The kind of the next part. -/
def SegmentKind.next : SegmentKind → SegmentKind
  | fixed => proportional
  | proportional => fixed

/-- The two axes of the plane. -/
inductive Axis where
  | x
  | y
deriving Repr, DecidableEq, Inhabited

namespace Axis

/-- The name of an axis. -/
def name : Axis → String
  | x => "x"
  | y => "y"

/-- The variable that holds the extent along an axis. -/
def extentName : Axis → String
  | x => "width"
  | y => "height"

end Axis

/-- Why a rectangle cannot be sliced. -/
inductive SliceError (α : Type) where
  | invalidReference (axis : Axis) (length : α)
  | cutOutOfRange (axis : Axis) (index : Nat) (value reference : α)
  | notIncreasing (axis : Axis) (index : Nat) (value previous : α)
  | degenerate (axis : Axis) (reason : String)
deriving Repr, Inhabited

/-- The reference rectangle's size and the cuts of both axes. -/
structure SliceValues (α : Type) where
  reference : Size α
  xs : List α
  ys : List α
deriving Repr, BEq, Inhabited

variable {α : Type} [Number α]

/-- What a report says about the error. -/
def SliceError.message : SliceError α → String
  | invalidReference axis length =>
      "reference " ++ axis.name ++ " length must be positive and finite, got " ++
        Number.text length
  | cutOutOfRange axis index value reference =>
      axis.name ++ " cut " ++ toString index ++ " at " ++ Number.text value ++
        " is outside (0, " ++ Number.text reference ++ ")"
  | notIncreasing axis index value previous =>
      axis.name ++ " cuts must be strictly increasing: cut " ++ toString index ++ " (" ++
        Number.text value ++ ") <= previous (" ++ Number.text previous ++ ")"
  | degenerate axis reason => "cannot infer " ++ axis.name ++ " scaling: " ++ reason

namespace SliceValues

/-- Checks cuts from the one of the given index on; `previous` is the cut before it. -/
def checkCuts (axis : Axis) (reference : α) (index : Nat) (previous : Option α) :
    List α → Except (SliceError α) Unit
  | [] => .ok ()
  | value :: rest =>
      if Number.isFinite value && decide (Number.zero < value) && decide (value < reference) then
        match previous with
        | some p =>
            if value ≤ p then .error (.notIncreasing axis index value p)
            else checkCuts axis reference (index + 1) (some value) rest
        | none => checkCuts axis reference (index + 1) (some value) rest
      else .error (.cutOutOfRange axis index value reference)

/-- Checks one axis: its length is positive and finite, and its cuts increase inside it. -/
def checkAxis (axis : Axis) (reference : α) (cuts : List α) : Except (SliceError α) Unit :=
  if Number.isFinite reference && decide (Number.zero < reference) then
    checkCuts axis reference 0 none cuts
  else .error (.invalidReference axis reference)

/-- Slices a reference rectangle if both axes can be cut so. -/
def make (reference : Size α) (xs ys : List α) : Except (SliceError α) (SliceValues α) := do
  checkAxis .x reference.width xs
  checkAxis .y reference.height ys
  return ⟨reference, xs, ys⟩

/-- No cuts: both axes are stretched. -/
def stretch (reference : Size α) : Except (SliceError α) (SliceValues α) := make reference [] []

/-- The length of an axis and its cuts. -/
def axis (values : SliceValues α) : Axis → α × List α
  | .x => (values.reference.width, values.xs)
  | .y => (values.reference.height, values.ys)

end SliceValues

/-! ### The parts of an axis -/

/-- A part of an axis between two coordinates. -/
structure AxisPart (α : Type) where
  kind : SegmentKind
  low : α
  high : α
deriving Repr, BEq, DecidableEq, Inhabited

namespace AxisPart

/-- The length of a part. -/
def length (part : AxisPart α) : α := part.high - part.low

/-- Whether a coordinate belongs to this part or one before it: a fixed part has its upper
bound, a proportional part does not. -/
def reaches (part : AxisPart α) (p : α) : Bool :=
  match part.kind with
  | .fixed => decide (p ≤ part.high)
  | .proportional => decide (p < part.high)

/-- The parts between the coordinate `low` and the bounds after it. -/
def alternating (kind : SegmentKind) (low : α) : List α → List (AxisPart α)
  | [] => []
  | high :: rest => ⟨kind, low, high⟩ :: alternating kind.next high rest

/-- The length of all parts of a kind together. -/
def total (kind : SegmentKind) (parts : List (AxisPart α)) : α :=
  parts.foldl (fun sum part => if part.kind = kind then sum + part.length else sum) Number.zero

end AxisPart

/-- A part of an axis where it is in the reference and where it is drawn. -/
structure Segment (α : Type) where
  kind : SegmentKind
  low : α
  high : α
  drawnLow : α
  drawnHigh : α
deriving Repr, BEq, DecidableEq, Inhabited

namespace Segment

/-- The part of the reference. -/
def reference (s : Segment α) : AxisPart α := ⟨s.kind, s.low, s.high⟩

/-- The part as it is drawn. -/
def drawn (s : Segment α) : AxisPart α := ⟨s.kind, s.drawnLow, s.drawnHigh⟩

end Segment

/-- The linear map that sends one part to another; a part without length goes to one point. -/
def AxisPart.mapLinear (source target : AxisPart α) (v : α) : α :=
  let span := source.high - source.low
  if Number.abs span ≤ Number.epsilon then target.low
  else target.low + (v - source.low) * (target.high - target.low) / span

/-- The first of several things whose part reaches a coordinate, or else the last one. -/
def locate {β : Type} (part : β → AxisPart α) (p : α) (first : β) : List β → β
  | [] => first
  | second :: rest =>
      if (part first).reaches p then first else locate part p second rest

/-- An axis laid out: the scale of its fixed parts, and all parts in order. -/
structure AxisScaling (α : Type) where
  scale : α
  first : Segment α
  rest : List (Segment α)
deriving Repr, BEq, Inhabited

namespace AxisScaling

/-- Lays parts out one after another from the coordinate `cursor` on. -/
def layOut (length : AxisPart α → α) (cursor : α) : List (AxisPart α) → List (Segment α)
  | [] => []
  | part :: rest =>
      let stop := cursor + length part
      ⟨part.kind, part.low, part.high, cursor, stop⟩ :: layOut length stop rest

/-- The scale at which fixed parts of a total length fit into the length available. -/
def fixedScale (fixedTotal length : α) : α :=
  if fixedTotal ≤ length ∨ fixedTotal ≤ Number.zero then Number.one else length / fixedTotal

/-- The drawn length of a part. -/
def drawnLength (scale remainder weightTotal : α) (part : AxisPart α) : α :=
  match part.kind with
  | .fixed => part.length * scale
  | .proportional =>
      if Number.zero < weightTotal then remainder * part.length / weightTotal else Number.zero

/-- Lays an axis of the length `reference` out from `start` over `length`. -/
def compute (reference : α) (cuts : List α) (start length : α) : AxisScaling α :=
  let length := Number.positivePart length
  match cuts with
  | [] =>
      let scale := if Number.zero < reference then length / reference else Number.one
      ⟨scale, ⟨.proportional, Number.zero, reference, start, start + length⟩, []⟩
  | cut :: cuts =>
      let front : AxisPart α := ⟨.fixed, Number.zero, cut⟩
      let back := AxisPart.alternating .proportional cut (cuts ++ [reference])
      let fixedTotal := AxisPart.total .fixed (front :: back)
      let weightTotal := AxisPart.total .proportional (front :: back)
      let scale := fixedScale fixedTotal length
      let remainder := Number.positivePart (length - fixedTotal * scale)
      let drawn := drawnLength scale remainder weightTotal
      let stop := start + drawn front
      ⟨scale, ⟨.fixed, Number.zero, cut, start, stop⟩, layOut drawn stop back⟩

/-- All parts in order. -/
def segments (s : AxisScaling α) : List (Segment α) := s.first :: s.rest

/-- The bounds of the parts in the reference. -/
def referenceBounds (s : AxisScaling α) : List α := s.first.low :: s.segments.map (·.high)

/-- The bounds of the parts as they are drawn. -/
def drawnBounds (s : AxisScaling α) : List α := s.first.drawnLow :: s.segments.map (·.drawnHigh)

/-- The kinds of the parts. -/
def kinds (s : AxisScaling α) : List SegmentKind := s.segments.map (·.kind)

/-- The drawn lengths of the parts. -/
def drawnLengths (s : AxisScaling α) : List α :=
  s.segments.map fun segment => segment.drawnHigh - segment.drawnLow

/-- The drawn length of the axis. -/
def drawnTotal (s : AxisScaling α) : α :=
  ((s.rest.getLast?).getD s.first).drawnHigh - s.first.drawnLow

/-- Where a coordinate of the reference is drawn. -/
def transform (s : AxisScaling α) (p : α) : α :=
  let segment := locate Segment.reference p s.first s.rest
  segment.reference.mapLinear segment.drawn p

/-- The coordinate of the reference that is drawn at `q`. -/
def inverse (s : AxisScaling α) (q : α) : α :=
  let segment := locate Segment.drawn q s.first s.rest
  segment.drawn.mapLinear segment.reference q

end AxisScaling

/-- A reference rectangle laid out in a target rectangle. -/
structure SliceScaling (α : Type) where
  target : Rect α
  x : AxisScaling α
  y : AxisScaling α
deriving Repr, BEq, Inhabited

namespace SliceScaling

/-- Lays a sliced rectangle out in a target. -/
def compute (values : SliceValues α) (target : Rect α) : SliceScaling α :=
  let target := target.normalized
  ⟨target, .compute values.reference.width values.xs target.x target.width,
    .compute values.reference.height values.ys target.y target.height⟩

/-- The smaller of the scales of both axes, which widths and type sizes follow. -/
def uniformScale (s : SliceScaling α) : α := Number.min s.x.scale s.y.scale

/-- Where a point of the reference is drawn. -/
def transform (s : SliceScaling α) (p : Point α) : Point α :=
  ⟨s.x.transform p.x, s.y.transform p.y⟩

/-- The point of the reference that is drawn at `q`. -/
def inverse (s : SliceScaling α) (q : Point α) : Point α := ⟨s.x.inverse q.x, s.y.inverse q.y⟩

/-- Where a rectangle of the reference is drawn. -/
def transformRect (s : SliceScaling α) (r : Rect α) : Rect α :=
  let n := r.normalized
  .ofPoints (s.transform n.origin) (s.transform n.corner)

/-- The rectangle of the reference that is drawn at `r`. -/
def inverseRect (s : SliceScaling α) (r : Rect α) : Rect α :=
  let n := r.normalized
  .ofPoints (s.inverse n.origin) (s.inverse n.corner)

end SliceScaling

end PatternMarkup
