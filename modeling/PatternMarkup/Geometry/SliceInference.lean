import PatternMarkup.Geometry.Slicing
/-!
Slicing run backwards: from a rectangle of the reference and the place where it is drawn, the
target in which the whole is laid out.
-/

namespace PatternMarkup

variable {α : Type} [Number α]

/-- The lengths of fixed and of proportional parts before a coordinate, added to those given.
Beyond the last part a coordinate counts as belonging to it. -/
def lengthsBefore (p : α) (fixed weight : α) (first : AxisPart α) :
    List (AxisPart α) → α × α
  | [] => take fixed weight first (p - first.low)
  | second :: rest =>
      if first.reaches p then take fixed weight first (p - first.low)
      else
        let (fixed, weight) := take fixed weight first first.length
        lengthsBefore p fixed weight second rest
where
  /-- Adds a length to the total of the part's kind. -/
  take (fixed weight : α) (part : AxisPart α) (length : α) : α × α :=
    match part.kind with
    | .fixed => (fixed + length, weight)
    | .proportional => (fixed, weight + length)

/-- The distance below which coordinates count as the same. -/
def sliceTolerance : α := Number.ofDecimal 1 (-9)

/-- Start and length of a stretched axis on which the range from `p₁` to `p₂` is drawn from `q₁`
to `q₂`. -/
def inferStretched (axis : Axis) (reference p₁ p₂ q₁ q₂ : α) :
    Except (SliceError α) (α × α) :=
  let drawn := q₂ - q₁
  let inner := p₂ - p₁
  if Number.abs inner ≤ Number.epsilon then
    .error (.degenerate axis "inner reference extent is zero")
  else
    let length := drawn * reference / inner
    if length < Number.zero then .error (.degenerate axis "drawn extent is inverted")
    else .ok (q₁ - p₁ * length / reference, length)

/-- The length of a sliced axis on which a range holding the given lengths of fixed and
proportional parts, the latter as a fraction of all of them, has the length `drawn`. -/
def inferLength (axis : Axis) (reference fixedTotal fixed fraction drawn : α) :
    Except (SliceError α) α :=
  if fixed ≤ drawn + sliceTolerance then
    if Number.epsilon < fraction then .ok (fixedTotal + (drawn - fixed) / fraction)
    else if Number.abs (drawn - fixed) ≤ sliceTolerance then
      .ok (Number.max reference fixedTotal)
    else .error (.degenerate axis "drawn extent exceeds the fixed content it spans")
  else if Number.epsilon < fixed then .ok (fixedTotal * drawn / fixed)
  else .error (.degenerate axis "inner reference extent is zero")

/-- Start and length of an axis on which the range from `p₁` to `p₂` is drawn from `q₁` to
`q₂`. -/
def inferAxis (values : SliceValues α) (axis : Axis) (p₁ p₂ q₁ q₂ : α) :
    Except (SliceError α) (α × α) := do
  let (reference, cuts) := values.axis axis
  match cuts with
  | [] => inferStretched axis reference p₁ p₂ q₁ q₂
  | cut :: more =>
      let front : AxisPart α := ⟨.fixed, Number.zero, cut⟩
      let back := AxisPart.alternating .proportional cut (more ++ [reference])
      let fixedTotal := AxisPart.total .fixed (front :: back)
      let weightTotal := AxisPart.total .proportional (front :: back)
      let (fixed₁, weight₁) := lengthsBefore p₁ Number.zero Number.zero front back
      let (fixed₂, weight₂) := lengthsBefore p₂ Number.zero Number.zero front back
      let drawn := q₂ - q₁
      if drawn < Number.zero then throw (.degenerate axis "drawn extent is inverted")
      let length ← inferLength axis reference fixedTotal (fixed₂ - fixed₁)
        ((weight₂ - weight₁) / weightTotal) drawn
      let layout := AxisScaling.compute reference cuts Number.zero length
      return (q₁ - layout.transform p₁, length)

/-- The layout in which the rectangle `inner` of the reference is drawn at `drawn`. -/
def SliceScaling.infer (values : SliceValues α) (inner drawn : Rect α) :
    Except (SliceError α) (SliceScaling α) := do
  let r := inner.normalized
  let d := drawn.normalized
  let (x, width) ← inferAxis values .x r.x (r.x + r.width) d.x (d.x + d.width)
  let (y, height) ← inferAxis values .y r.y (r.y + r.height) d.y (d.y + d.height)
  return .compute values ⟨x, y, width, height⟩

end PatternMarkup
