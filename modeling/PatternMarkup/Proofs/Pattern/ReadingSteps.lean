import PatternMarkup.Pattern.Bind.Document
import PatternMarkup.Proofs.Pattern.Marks
/-!
What reading attributes and elements leaves alone. All of it is put together from a few kinds of
steps; none of them copies a node or numbers a figure, and no report is ever taken back.
-/

namespace PatternMarkup

namespace Binder

variable {β γ : Type}

/-! ### Results of steps -/

-- A tactic proof, so that `simp` rewrites with it and leaves no unfolding to the kernel.
theorem bind_apply (step : Binder β) (next : β → Binder γ) (r : DocumentReading) :
    (step >>= next) r = next (step r).1 (step r).2 := by
  rfl

theorem pure_apply (x : β) (r : DocumentReading) : (Pure.pure x : Binder β) r = (x, r) := rfl

theorem get_apply (r : DocumentReading) : (get : Binder DocumentReading) r = (r, r) := rfl

section

variable {P : β → Prop} {Q : γ → Prop}

/-- Whatever was found before, the result of a step has a property. -/
def Gives (step : Binder β) (P : β → Prop) : Prop := ∀ r, P (step r).1

theorem Gives.pure {x : β} (h : P x) : Gives (Pure.pure x : Binder β) P := fun _ => h

theorem Gives.bind {step : Binder β} {next : β → Binder γ} (h : Gives step P)
    (hnext : ∀ x, P x → Gives (next x) Q) : Gives (step >>= next) Q :=
  fun r => hnext _ (h r) _

theorem Gives.of_next {step : Binder β} {next : β → Binder γ} (hnext : ∀ x, Gives (next x) Q) :
    Gives (step >>= next) Q :=
  fun _ => hnext _ _

theorem Gives.of_pure {x : β} {next : β → Binder γ} (hnext : Gives (next x) Q) :
    Gives ((Pure.pure x : Binder β) >>= next) Q :=
  hnext

theorem Gives.none : Gives (Pure.pure none : Binder (Option β)) fun found => ∀ x ∈ found, P x :=
  .pure fun x hx => absurd hx (Option.not_mem_none x)

theorem Gives.some {x : β} (h : P x) :
    Gives (Pure.pure (some x) : Binder (Option β)) fun found => ∀ y ∈ found, P y :=
  .pure fun _ hy => Option.mem_some_iff.mp hy ▸ h

theorem Gives.nil : Gives (Pure.pure [] : Binder (List β)) fun found => ∀ x ∈ found, P x :=
  .pure (List.forall_mem_nil _)

end

/-! ### Steps that only read -/

/-- Steps that look at what was found, record what they read, and report. -/
inductive Reads : {β : Type} → Binder β → Prop where
  | pure {β : Type} (x : β) : Reads (Pure.pure x)
  | look : Reads (get : Binder DocumentReading)
  | report (d : Diagnostic) : Reads (report d)
  | mark (f : Usage → Usage) (hf : ∀ u : Usage, u.GrowsTo (f u)) : Reads (mark f)
  | areas (f : List (String × Span) → List (String × Span)) :
      Reads (modify fun r => { r with areas := f r.areas })
  | bind {β γ : Type} {step : Binder β} {next : β → Binder γ} (hstep : Reads step)
      (hnext : ∀ x, Reads (next x)) : Reads (step >>= next)

theorem reads_forM {l : List β} {f : β → Binder Unit} (h : ∀ x, Reads (f x)) :
    Reads (l.forM f) := by
  induction l with
  | nil => exact .pure _
  | cons x l ih => exact (h x).bind fun _ => ih

theorem reads_mapM {l : List β} {f : β → Binder γ} (h : ∀ x, Reads (f x)) :
    Reads (l.mapM f) := by
  induction l with
  | nil => exact .pure _
  | cons x l ih =>
      rw [List.mapM_cons]
      exact (h x).bind fun _ => ih.bind fun _ => .pure _

theorem reads_forIn {l : List β} {start : γ} {f : β → γ → Binder (ForInStep γ)}
    (h : ∀ x y, Reads (f x y)) : Reads (forIn l start f) := by
  induction l generalizing start with
  | nil => exact .pure _
  | cons x l ih =>
      rw [List.forIn_cons]
      refine (h x start).bind fun step => ?_
      cases step with
      | done y => exact .pure y
      | yield y => exact ih

/-! ### Single attributes and elements -/

theorem reads_error (span : Span) (message : String) : Reads (error span message) := .report _

theorem reads_errorBecause (span : Span) (message cause : String) :
    Reads (errorBecause span message cause) := .report _

theorem reads_warning (span : Span) (message : String) : Reads (warning span message) := .report _

theorem reads_markNode (tree : Tree) : Reads (markNode tree) :=
  .mark _ fun u => (u.adds_markSource _).growsTo

theorem reads_markTree (tree : Tree) : Reads (markTree tree) :=
  .mark _ fun u => u.growsTo_markTree tree

theorem reads_markAttribute (a : Attribute) : Reads (mark (·.markAttribute a)) :=
  .mark _ fun u => (u.adds_markAttribute a).growsTo

theorem reads_wasRead (tree : Tree) : Reads (wasRead tree) := .bind .look fun _ => .pure _

theorem reads_reject (tree : Tree) (message : String) : Reads (reject tree message) :=
  (reads_error ..).bind fun _ => reads_markTree tree

theorem reads_attribute? (e : Element) (name : String) : Reads (attribute? e name) := by
  unfold attribute?
  split
  · exact (reads_markAttribute _).bind fun _ => .pure _
  · exact .pure _

theorem reads_requiredAttribute? (e : Element) (name : String) :
    Reads (requiredAttribute? e name) := by
  unfold requiredAttribute?
  refine (reads_attribute? e name).bind fun a => ?_
  cases a with
  | some a => exact .pure _
  | none => exact (reads_error ..).bind fun _ => .pure _

theorem reads_attributeText? (e : Element) (name : String) : Reads (attributeText? e name) :=
  (reads_attribute? e name).bind fun _ => .pure _

theorem reads_flag (e : Element) (name : String) : Reads (flag e name) := by
  unfold flag
  refine (reads_attribute? e name).bind fun a => ?_
  cases a with
  | none => exact .pure _
  | some a =>
      simp only
      split
      all_goals first | exact .pure _ | exact (reads_error ..).bind fun _ => .pure _

theorem reads_reference? (index : DocumentIndex) (a : Attribute) : Reads (reference? index a) := by
  unfold reference?
  split
  · exact (reads_error ..).bind fun _ => .pure _
  · split
    · exact .pure _
    · exact (reads_error ..).bind fun _ => .pure _

theorem reads_acceptsVariable (name : String) (span : Span) :
    Reads (acceptsVariable name span) := by
  unfold acceptsVariable
  split
  · exact (reads_error ..).bind fun _ => .pure _
  · split
    · exact (reads_error ..).bind fun _ => .pure _
    · exact .pure _

end Binder

open Binder

/-! ### Typed attributes -/

variable {α : Type} [Number α]

namespace Attribute

theorem reads_expression? (a : Attribute) (type : ValueType) (s : Scope α) (axis : Option Axis) :
    Reads (a.expression? type s axis) := by
  unfold expression?
  split
  · exact (reads_errorBecause ..).bind fun _ => .pure _
  · exact (reads_forM fun _ => reads_error ..).bind fun _ => .pure _

theorem reads_typed? {τ : Type} [Typed α τ] (a : Attribute) (s : Scope α) (axis : Option Axis) :
    Reads (a.typed? s axis : Binder (Option (Expression α τ))) := by
  unfold Attribute.typed?
  refine (a.reads_expression? _ s axis).bind fun e => ?_
  cases e with
  | none => exact .pure _
  | some e =>
      simp only
      split
      · exact .pure _
      · exact (reads_error ..).bind fun _ => .pure _

end Attribute

namespace Binder

variable {τ : Type} [Typed α τ]

theorem reads_typed? (e : Element) (name : String) (s : Scope α) (axis : Option Axis) :
    Reads (typed? e name s axis : Binder (Option (Expression α τ))) := by
  unfold typed?
  refine (reads_attribute? e name).bind fun a => ?_
  cases a with
  | none => exact .pure _
  | some a => exact a.reads_typed? s axis

theorem reads_typedOr (e : Element) (name : String) (s : Scope α) (axis : Option Axis)
    (default : Expression α τ) : Reads (typedOr e name s axis default) :=
  (reads_typed? e name s axis).bind fun _ => .pure _

theorem reads_required (e : Element) (name : String) (s : Scope α) (axis : Option Axis)
    (otherwise : Expression α τ) : Reads (required e name s axis otherwise) := by
  unfold required
  refine (reads_requiredAttribute? e name).bind fun a => ?_
  cases a with
  | none => exact .pure _
  | some a => exact (a.reads_typed? s axis).bind fun _ => .pure _

theorem reads_constant? (e : Element) (name : String) :
    Reads (constant? (α := α) e name : Binder (Option τ)) := by
  unfold constant?
  refine (reads_attribute? e name).bind fun a => ?_
  cases a with
  | none => exact .pure _
  | some a =>
      refine (a.reads_typed? _ none).bind fun found => ?_
      rcases found with _ | ⟨v⟩ | f
      · exact .pure _
      · exact .pure _
      · exact (reads_error ..).bind fun _ => .pure _

theorem reads_type? (e : Element) (what : String) : Reads (type? e what) := by
  unfold type?
  refine (reads_attributeText? e _).bind fun members => (reads_attribute? e _).bind fun a => ?_
  cases a with
  | none => exact .pure _
  | some a =>
      simp only
      split
      · exact .pure _
      · exact (reads_error ..).bind fun _ => .pure _

end Binder

/-! ### Arguments -/

theorem reads_argumentVar? (e : Element) (name : String) (isMember : Bool) :
    Reads (argumentVar? e name isMember) := by
  have hcheck : ∀ var : String × Span, Reads (do
      if !isIdentifier var.1 then
        error var.2 ("'" ++ var.1 ++ "' is not a valid variable name")
        return none
      else if !isMember && Canvas.isReserved var.1 then
        error var.2 ("'" ++ var.1 ++ "' is reserved by the canvas")
        return none
      else return some var.1) := by
    intro var
    split
    · exact (reads_error ..).bind fun _ => .pure _
    · split
      · exact (reads_error ..).bind fun _ => .pure _
      · exact .pure _
  unfold argumentVar?
  refine (reads_attribute? e _).bind fun a => ?_
  cases a with
  | none => exact (Reads.pure _).bind hcheck
  | some a => exact (Reads.pure _).bind hcheck

theorem reads_argumentSource (e : Element) (isMember : Bool) :
    Reads (argumentSource e isMember) := by
  unfold argumentSource
  refine (reads_flag e _).bind fun numbered => (reads_flag e _).bind fun entry => ?_
  split
  · exact (reads_error ..).bind fun _ => .pure _
  · split
    · exact (reads_error ..).bind fun _ => .pure _
    · split
      · exact .pure _
      · split <;> exact .pure _

theorem reads_argumentTest (e : Element) (var : String) (type : ValueType) :
    Reads (argumentTest (α := α) e var type) :=
  (reads_typed? e _ _ none).bind fun _ => (reads_attributeText? e _).bind fun _ => .pure _

theorem reads_writtenValue? (e : Element) (name : String) (type : ValueType) :
    Reads (writtenValue? (α := α) e name type) := by
  unfold writtenValue?
  refine (reads_attribute? e name).bind fun a => ?_
  cases a with
  | none => exact .pure _
  | some a => exact (a.reads_expression? ..).bind fun _ => .pure _

theorem reads_keepPassing (arg : PlainArgument α) (what : String) (w : Option (WrittenValue α)) :
    Reads (keepPassing arg what w) := by
  unfold keepPassing
  cases w with
  | none => exact .pure _
  | some w =>
      simp only
      split
      · exact (Reads.report _).bind fun _ => .pure _
      · exact .pure _

theorem reads_argumentType (e : Element) (name : String) : Reads (argumentType e name) := by
  unfold argumentType
  refine (reads_type? e _).bind fun type => ?_
  cases type with
  | some type => exact .pure _
  | none => exact (reads_error ..).bind fun _ => .pure _

theorem reads_plainArgument? (tree : Tree) (e : Element) (isMember : Bool) :
    Reads (plainArgument? (α := α) tree e isMember) := by
  unfold plainArgument?
  refine (reads_markNode tree).bind fun _ => (reads_requiredAttribute? e _).bind fun a => ?_
  cases a with
  | none => exact .pure _
  | some a =>
      refine (reads_argumentVar? e _ isMember).bind fun var => ?_
      cases var with
      | none => exact .pure _
      | some var =>
          refine (reads_argumentType e _).bind fun type => (reads_flag e _).bind fun optional =>
            (reads_argumentSource e isMember).bind fun source =>
              (reads_argumentTest e _ _).bind fun test => ?_
          refine (reads_writtenValue? e _ _).bind fun fallback =>
            (reads_writtenValue? e _ _).bind fun sample => ?_
          simp only
          split
          · exact (Reads.pure _).bind fun _ => (reads_keepPassing ..).bind fun _ => .pure _
          · exact (reads_keepPassing ..).bind fun _ => (reads_keepPassing ..).bind fun _ => .pure _

theorem reads_groupMembers (group : String) (members : List (PlainArgument α))
    (elements : List (Tree × Element × Tag)) : Reads (groupMembers group members elements) := by
  induction elements generalizing members with
  | nil => exact .pure _
  | cons found rest ih =>
      obtain ⟨tree, e, tag⟩ := found
      unfold groupMembers
      split
      · refine (reads_plainArgument? tree e true).bind fun m => ?_
        cases m with
        | none => exact ih members
        | some m =>
            simp only
            split
            · exact (reads_error ..).bind fun _ => ih members
            · exact ih _
      · exact (reads_markTree tree).bind fun _ => ih members
      · exact (reads_markTree tree).bind fun _ => ih members
      · exact (reads_reject tree _).bind fun _ => ih members

theorem reads_argumentGroup? (tree : Tree) (e : Element) :
    Reads (argumentGroup? (α := α) tree e) := by
  unfold argumentGroup?
  refine (reads_markNode tree).bind fun _ => (reads_requiredAttribute? e _).bind fun a => ?_
  cases a with
  | none => exact .pure _
  | some a =>
      refine (reads_argumentVar? e _ false).bind fun var => ?_
      cases var with
      | none => exact .pure _
      | some var =>
          refine (reads_flag e _).bind fun optional =>
            (reads_groupMembers _ _ _).bind fun members => ?_
          simp only
          split
          · exact (reads_warning ..).bind fun _ => (reads_argumentTest ..).bind fun _ => .pure _
          · exact (reads_argumentTest ..).bind fun _ => .pure _

theorem reads_argument? (tree : Tree) (e : Element) (tag : Tag) :
    Reads (argument? (α := α) tree e tag) := by
  unfold argument?
  split
  · exact (reads_plainArgument? tree e false).bind fun _ => .pure _
  · exact (reads_argumentGroup? tree e).bind fun _ => .pure _
  · exact .pure _

omit [Number α] in
theorem reads_addArgument (names vars : List String) (arg : Argument α) :
    Reads (addArgument names vars arg) := by
  unfold addArgument
  split
  · exact (reads_error ..).bind fun _ => .pure _
  · split
    · exact (reads_error ..).bind fun _ => .pure _
    · exact .pure _

theorem reads_declaredArguments (names vars : List String)
    (elements : List (Tree × Element × Tag)) :
    Reads (declaredArguments (α := α) names vars elements) := by
  induction elements generalizing names vars with
  | nil => exact .pure _
  | cons found rest ih =>
      obtain ⟨tree, e, tag⟩ := found
      unfold declaredArguments
      refine (reads_argument? tree e tag).bind fun arg => ?_
      cases arg with
      | none => exact ih names vars
      | some arg => exact (reads_addArgument _ _ arg).bind fun _ => (ih _ _).bind fun _ => .pure _

theorem reads_validation? (s : Scope α) (tree : Tree) (e : Element) :
    Reads (validation? s tree e) := by
  unfold validation?
  refine (reads_markNode tree).bind fun _ => (reads_attributeText? e _).bind fun _ =>
    (reads_requiredAttribute? e _).bind fun a => ?_
  cases a with
  | none => exact .pure _
  | some a =>
      refine Reads.bind ?_ fun _ => .pure _
      exact a.reads_typed? s none

theorem reads_declaredValidations (s : Scope α) (elements : List (Tree × Element × Tag)) :
    Reads (declaredValidations s elements) := by
  induction elements with
  | nil => exact .pure _
  | cons found rest ih =>
      obtain ⟨tree, e, tag⟩ := found
      unfold declaredValidations
      simp only
      split
      · exact (reads_validation? s tree e).bind fun _ => ih.bind fun _ => .pure _
      · exact (Reads.pure _).bind fun _ => ih.bind fun _ => .pure _

/-! ### Loops and variables -/

theorem reads_loopNames? (a : Attribute) (text : List Char) : Reads (loopNames? a text) := by
  have haccept : ∀ names : List String, ∀ found : Option (String × Option String), Reads (do
      for name in names do
        unless ← acceptsVariable name a.valueSpan do return none
      return found) := by
    intro names found
    refine Reads.bind (reads_forIn fun name _ => ?_) fun left => ?_
    · refine (reads_acceptsVariable name _).bind fun accepted => ?_
      cases accepted <;> exact .pure _
    · rcases left with ⟨_ | found, _⟩ <;> exact .pure _
  unfold loopNames?
  simp only
  split
  · exact haccept _ _
  · exact haccept _ _
  · exact (reads_error ..).bind fun _ => .pure _

theorem reads_loopItems? (a : Attribute) (s : Scope α) (text : Fragment) :
    Reads (loopItems? a s text) := by
  unfold loopItems?
  split
  · exact (reads_error ..).bind fun _ => .pure _
  · split
    · exact (reads_error ..).bind fun _ => .pure _
    · refine (reads_forM fun _ => reads_error ..).bind fun _ => ?_
      split
      · exact .pure _
      · exact .pure _
      · exact (reads_error ..).bind fun _ => .pure _

theorem reads_loop? (a : Attribute) (s : Scope α) : Reads (loop? a s) := by
  unfold loop?
  split
  · exact (reads_error ..).bind fun _ => .pure _
  · refine (reads_loopNames? a _).bind fun names => ?_
    cases names with
    | none => exact .pure _
    | some names =>
        refine (reads_loopItems? a s _).bind fun items => ?_
        cases items <;> exact .pure _

theorem reads_figureLoop (e : Element) (s : Scope α) : Reads (figureLoop e s) := by
  unfold figureLoop
  refine (reads_attribute? e _).bind fun a => ?_
  cases a with
  | none => exact .pure _
  | some a =>
      refine (reads_loop? a s).bind fun loop => ?_
      cases loop <;> exact .pure _

theorem reads_declaredVariable? (before : List DeclaredVariable) (tree : Tree) (e : Element) :
    Reads (declaredVariable? before tree e) := by
  unfold declaredVariable?
  refine (reads_markNode tree).bind fun _ => (reads_requiredAttribute? e _).bind fun a => ?_
  cases a with
  | none => exact .pure _
  | some a =>
      refine (reads_acceptsVariable ..).bind fun accepted => ?_
      split
      · exact .pure _
      · split
        · exact (reads_error ..).bind fun _ => .pure _
        · exact (reads_type? e _).bind fun _ => (reads_requiredAttribute? e _).bind fun _ => .pure _

theorem reads_declaredVariables (before : List DeclaredVariable)
    (elements : List (Tree × Element × Tag)) : Reads (declaredVariables before elements) := by
  induction elements generalizing before with
  | nil => exact .pure _
  | cons found rest ih =>
      obtain ⟨tree, e, tag⟩ := found
      unfold declaredVariables
      split
      · exact (reads_declaredVariable? before tree e).bind fun _ => ih _
      · exact (Reads.pure _).bind fun _ => ih _

theorem reads_reportCycle (declared : List DeclaredVariable) (cycle : List Nat) :
    Reads (reportCycle declared cycle) := by
  unfold reportCycle
  simp only
  split
  · exact .pure _
  · exact reads_error ..

theorem reads_figureVariables (children : List Tree) (s : Scope α) :
    Reads (figureVariables children s) :=
  (reads_declaredVariables ..).bind fun _ =>
    (reads_mapM fun d => d.value.reads_expression? ..).bind fun _ =>
      (reads_forM fun _ => reads_reportCycle ..).bind fun _ => .pure _

/-! ### Kinds of figures -/

theorem reads_coordinate? (e : Element) (name : String) (s : Scope α) (axis : Axis) :
    Reads (coordinate? e name s axis) := reads_typed? e name s _

theorem reads_coordinate (e : Element) (name : String) (s : Scope α) (axis : Axis) :
    Reads (coordinate e name s axis) := reads_typedOr e name s _ _

theorem reads_requiredCoordinate (e : Element) (name : String) (s : Scope α) (axis : Axis) :
    Reads (requiredCoordinate e name s axis) := reads_required e name s _ _

theorem reads_slicing? (e : Element) (s : Scope α) : Reads (slicing? e s) := by
  unfold slicing?
  refine (reads_typed? e _ s none).bind fun xs => (reads_typed? e _ s none).bind fun ys =>
    (reads_attribute? e _).bind fun a => ?_
  cases a with
  | none =>
      simp only
      split
      · exact (reads_error ..).bind fun _ => .pure _
      · exact (Reads.pure _).bind fun _ => .pure _
  | some a =>
      refine (a.reads_typed? s none).bind fun reference => ?_
      cases reference with
      | none => exact .pure _
      | some reference =>
          simp only
          split
          · exact .pure _
          · exact (reads_errorBecause ..).bind fun _ => .pure _

theorem reads_figureFrame (e : Element) (s : Scope α) : Reads (figureFrame e s) :=
  (reads_coordinate? ..).bind fun _ => (reads_coordinate? ..).bind fun _ =>
    (reads_coordinate? ..).bind fun _ => (reads_coordinate? ..).bind fun _ =>
      (reads_typed? ..).bind fun _ => (reads_slicing? e s).bind fun _ => .pure _

theorem reads_corners (e : Element) (s : Scope α) (closed : Bool) : Reads (corners e s closed) := by
  unfold corners
  refine (reads_required ..).bind fun points => ?_
  split
  · split
    · exact (reads_error ..).bind fun _ => .pure _
    · exact (Reads.pure _).bind fun _ => .pure _
  · exact (Reads.pure _).bind fun _ => .pure _

theorem reads_pathData (e : Element) : Reads (pathData (α := α) e) := by
  unfold pathData
  refine (reads_requiredAttribute? e _).bind fun a => ?_
  cases a with
  | none => exact .pure _
  | some a =>
      simp only
      split
      · exact .pure _
      · exact (reads_errorBecause ..).bind fun _ => .pure _

theorem reads_figureShape (kind : ShapeKind) (e : Element) (s : Scope α) :
    Reads (figureShape kind e s) := by
  cases kind with
  | rect =>
      exact (reads_coordinate ..).bind fun _ => (reads_coordinate ..).bind fun _ =>
        (reads_typedOr ..).bind fun _ => (reads_typedOr ..).bind fun _ =>
          (reads_coordinate? ..).bind fun _ => (reads_coordinate? ..).bind fun _ => .pure _
  | ellipse =>
      exact (reads_coordinate ..).bind fun _ => (reads_coordinate ..).bind fun _ =>
        (reads_requiredCoordinate ..).bind fun _ => (reads_requiredCoordinate ..).bind fun _ =>
          .pure _
  | circle =>
      exact (reads_coordinate ..).bind fun _ => (reads_coordinate ..).bind fun _ =>
        (reads_requiredCoordinate ..).bind fun _ => .pure _
  | line =>
      exact (reads_coordinate ..).bind fun _ => (reads_coordinate ..).bind fun _ =>
        (reads_coordinate ..).bind fun _ => (reads_coordinate ..).bind fun _ => .pure _
  | polyline => exact reads_corners e s false
  | polygon => exact reads_corners e s true
  | path => exact (reads_pathData e).bind fun _ => .pure _

theorem reads_textAnchor (e : Element) : Reads (textAnchor e) := by
  unfold textAnchor
  refine (reads_attribute? e _).bind fun a => ?_
  cases a with
  | none => exact .pure _
  | some a =>
      simp only
      split
      · exact .pure _
      · exact (reads_error ..).bind fun _ => .pure _

theorem reads_childText (text : String) (span : Option Span) (trees : List Tree) :
    Reads (childText text span trees) := by
  induction trees generalizing text span with
  | nil => exact .pure _
  | cons tree rest ih =>
      unfold childText
      simp only
      split
      · exact (reads_markNode tree).bind fun _ => ih _ _
      · exact (reads_reject tree _).bind fun _ => ih _ _
      · exact ih _ _

theorem reads_runContent (e : Element) (children : List Tree) (s : Scope α) :
    Reads (runContent e children s) := by
  unfold runContent
  refine (reads_childText "" none children).bind fun found => ?_
  simp only
  split
  · exact (reads_errorBecause ..).bind fun _ => .pure _
  · refine (reads_forM fun _ => reads_error ..).bind fun _ => ?_
    split <;> exact .pure _

theorem reads_textRun (e : Element) (children : List Tree) (s : Scope α) :
    Reads (textRun e children s) :=
  (reads_textAnchor e).bind fun _ => (reads_runContent e children s).bind fun _ =>
    (reads_coordinate ..).bind fun _ => (reads_coordinate ..).bind fun _ =>
      (reads_typedOr ..).bind fun _ => (reads_typed? ..).bind fun _ => .pure _

theorem reads_picture (index : DocumentIndex) (e : Element) (s : Scope α) :
    Reads (picture index e s) :=
  (reads_required ..).bind fun _ => (reads_coordinate ..).bind fun _ =>
    (reads_coordinate ..).bind fun _ => (reads_coordinate? ..).bind fun _ =>
      (reads_coordinate? ..).bind fun _ => .pure _

theorem reads_slot (e : Element) (s : Scope α) : Reads (slot e s) :=
  (reads_requiredAttribute? e _).bind fun _ => (reads_coordinate ..).bind fun _ =>
    (reads_coordinate ..).bind fun _ => (reads_coordinate? ..).bind fun _ =>
      (reads_coordinate? ..).bind fun _ => .pure _

omit [Number α] in
theorem reads_areaKind (e : Element) (frame : FigureFrame α) : Reads (areaKind e frame) := by
  unfold areaKind
  refine (reads_requiredAttribute? e _).bind fun a => ?_
  cases a with
  | none => exact .pure _
  | some a => exact (Reads.areas fun areas => areas ++ [_]).bind fun _ => .pure _

theorem reads_figureKind (index : DocumentIndex) (tag : FigureTag) (e : Element)
    (children : List Tree) (s : Scope α) : Reads (figureKind index tag e children s) := by
  cases tag with
  | div => exact (reads_figureFrame e s).bind fun _ => .pure _
  | area =>
      exact (reads_figureFrame e s).bind fun frame => (reads_areaKind e frame).bind fun _ => .pure _
  | group => exact .pure _
  | shape kind => exact (reads_figureShape kind e s).bind fun _ => .pure _
  | text => exact (reads_textRun e children s).bind fun _ => .pure _
  | image => exact (reads_picture index e s).bind fun _ => .pure _
  | field => exact (reads_slot e s).bind fun _ => .pure _

/-! ### Styles -/

theorem reads_gradientStops (s : Scope α) (elements : List (Tree × Element × Tag)) :
    Reads (gradientStops s elements) := by
  induction elements with
  | nil => exact .pure _
  | cons found rest ih =>
      obtain ⟨tree, e, tag⟩ := found
      unfold gradientStops
      split
      · exact (reads_markNode tree).bind fun _ => (reads_required ..).bind fun _ =>
          (reads_required ..).bind fun _ => ih.bind fun _ => .pure _
      · exact (reads_reject tree _).bind fun _ => ih

theorem reads_gradient (s : Scope α) (tree : Tree) : Reads (gradient s tree) := by
  unfold gradient
  refine (reads_gradientStops s _).bind fun stops => ?_
  simp only
  split
  · exact (reads_warning ..).bind fun _ => .pure _
  · exact (Reads.pure _).bind fun _ => .pure _

theorem reads_paintNumber (s : Scope α) (e : Element) (name : String) (default : α) :
    Reads (paintNumber s e name default) := reads_typedOr ..

theorem reads_paintElement (s : Scope α) (kind : PaintKind) (tree : Tree) (e : Element) :
    Reads (paintElement s kind tree e) := by
  refine (reads_markNode tree).bind fun _ => ?_
  cases kind with
  | solid => exact (reads_required ..).bind fun _ => .pure _
  | linear =>
      exact (reads_paintNumber ..).bind fun _ => (reads_paintNumber ..).bind fun _ =>
        (reads_paintNumber ..).bind fun _ => (reads_paintNumber ..).bind fun _ =>
          (reads_gradient s tree).bind fun _ => .pure _
  | radial =>
      exact (reads_paintNumber ..).bind fun _ => (reads_paintNumber ..).bind fun _ =>
        (reads_paintNumber ..).bind fun _ => (reads_gradient s tree).bind fun _ => .pure _

theorem reads_paint? (index : DocumentIndex) (a : Attribute) (s : Scope α) :
    Reads (paint? index a s) := by
  unfold paint?
  split
  · exact (a.reads_typed? s none).bind fun _ => .pure _
  · refine (reads_reference? index a).bind fun target => ?_
    cases target with
    | none => exact .pure _
    | some target =>
        refine Reads.look.bind fun r => ?_
        simp only
        split
        · exact (reads_paintElement ..).bind fun _ => .pure _
        · exact (reads_error ..).bind fun _ => .pure _

theorem reads_figurePaint? (index : DocumentIndex) (e : Element) (name : String) (s : Scope α) :
    Reads (figurePaint? index e name s) := by
  unfold figurePaint?
  refine (reads_attribute? e name).bind fun a => ?_
  cases a with
  | none => exact .pure _
  | some a => exact reads_paint? index a s

theorem reads_figureClip (e : Element) : Reads (figureClip e) := by
  unfold figureClip
  refine (reads_attribute? e _).bind fun a => ?_
  cases a with
  | none => exact .pure _
  | some a =>
      simp only
      split
      all_goals first | exact .pure _ | exact (reads_error ..).bind fun _ => .pure _

theorem reads_withTransform (style : Style α) (e : Element)
    (outer own : Expression α (Transform α)) : Reads (style.withTransform e outer own) := by
  unfold Style.withTransform
  split
  · exact .pure _
  · split
    · exact (reads_error ..).bind fun _ => .pure _
    · exact (Reads.pure _).bind fun _ => .pure _

theorem reads_figureStyle (index : DocumentIndex) (e : Element) (s : Scope α) (outer : Style α) :
    Reads (figureStyle index e s outer) := by
  unfold figureStyle
  refine (reads_figurePaint? ..).bind fun _ => (reads_figurePaint? ..).bind fun _ =>
    (reads_typed? ..).bind fun _ => (reads_typed? ..).bind fun _ => (reads_typed? ..).bind fun _ =>
      (reads_typed? ..).bind fun own => ?_
  cases own with
  | none => exact (Reads.pure _).bind fun _ => (reads_figureClip e).bind fun _ => .pure _
  | some own =>
      exact (reads_withTransform ..).bind fun _ => (reads_figureClip e).bind fun _ => .pure _

/-! ### Uses and other elements -/

theorem reads_useTarget? (index : DocumentIndex) (tree : Tree) (e : Element) :
    Reads (useTarget? index tree e) := by
  unfold useTarget?
  refine (reads_markNode tree).bind fun _ => (reads_requiredAttribute? e _).bind fun href => ?_
  cases href with
  | none => exact .pure _
  | some href => exact (reads_reference? index href).bind fun _ => .pure _

theorem reads_refuseUse (href : Attribute) : Reads (refuseUse href) := reads_error ..

theorem reads_rejectDeclaration (tree : Tree) (name : String) :
    Reads (rejectDeclaration tree name) := by
  unfold rejectDeclaration
  refine (reads_wasRead tree).bind fun read => ?_
  cases read with
  | true => exact .pure _
  | false => exact reads_reject tree _

theorem reads_passOver (tree : Tree) (e : Element) (tag : Tag) : Reads (passOver tree e tag) := by
  unfold passOver
  split
  · exact .pure _
  · exact reads_rejectDeclaration tree _
  · exact reads_rejectDeclaration tree _
  · exact reads_rejectDeclaration tree _
  · exact reads_markTree tree
  · exact reads_markTree tree
  · exact .pure _
  · exact reads_markNode tree
  · exact reads_reject tree _
  · exact reads_reject tree _

/-! ### Patterns and libraries -/

theorem reads_innerText (tree : Tree) : Reads (innerText tree) :=
  (reads_markTree tree).bind fun _ => .pure _

theorem reads_firstText (tag : Tag) (known : Option String)
    (elements : List (Tree × Element × Tag)) : Reads (firstText tag known elements) := by
  induction elements generalizing known with
  | nil => exact .pure _
  | cons found rest ih =>
      obtain ⟨tree, e, found⟩ := found
      unfold firstText
      split
      · exact (reads_innerText tree).bind fun _ => ih _
      · exact ih _

theorem reads_patternName? (e : Element) : Reads (patternName? e) :=
  (reads_attributeText? e _).bind fun _ => .pure _

theorem reads_reportUnusable (e : Element) (name : Option String) (written : Option Attribute)
    (kind : Option PatternKind) : Reads (reportUnusable e name written kind) := by
  unfold reportUnusable
  split
  · exact .report _
  · exact .pure _

theorem reads_patternHead (tree : Tree) (e : Element) : Reads (patternHead tree e) :=
  (reads_markNode tree).bind fun _ => (reads_patternName? e).bind fun _ =>
    (reads_attribute? e _).bind fun _ => (reads_reportUnusable ..).bind fun _ => .pure _

theorem reads_patternParts (tree : Tree) (e : Element) (kind : PatternKind) :
    Reads (patternParts (α := α) tree e kind) :=
  (reads_declaredArguments ..).bind fun _ => (reads_declaredValidations ..).bind fun _ =>
    (reads_constant? ..).bind fun _ => (reads_constant? ..).bind fun _ =>
      (reads_attributeText? ..).bind fun _ => (reads_firstText ..).bind fun _ =>
        (reads_firstText ..).bind fun _ => (Reads.areas fun _ => []).bind fun _ => .pure _

theorem reads_checkAreas (kind : PatternKind) (seen : List String)
    (areas : List (String × Span)) : Reads (checkAreas kind seen areas) := by
  induction areas generalizing seen with
  | nil => exact .pure _
  | cons area rest ih =>
      obtain ⟨role, span⟩ := area
      unfold checkAreas
      split
      · exact (reads_error ..).bind fun _ => ih _
      · split
        · exact (reads_error ..).bind fun _ => ih _
        · exact ih _

theorem reads_checkRoles (kind : PatternKind) (e : Element) : Reads (checkRoles kind e) := by
  unfold checkRoles
  refine Reads.look.bind fun r => (Reads.areas fun _ => []).bind fun _ =>
    (reads_checkAreas ..).bind fun seen => ?_
  simp only
  split
  · exact .pure _
  · exact reads_error ..

theorem reads_collectIds (ids : List (String × NodeId)) (attributes : List Attribute) :
    Reads (collectIds ids attributes) := by
  induction attributes generalizing ids with
  | nil => exact .pure _
  | cons a rest ih =>
      unfold collectIds
      refine (reads_markAttribute _).bind fun _ => ?_
      simp only
      split
      · exact (reads_error ..).bind fun _ => ih _
      · exact ih _

theorem reads_bindLibraryName (o : BindOptions) (e : Element) : Reads (bindLibraryName o e) := by
  unfold bindLibraryName
  refine (reads_attributeText? e _).bind fun name => ?_
  split
  · split
    · exact (reads_error ..).bind fun _ => .pure _
    · exact .pure _
  · exact (reads_error ..).bind fun _ => .pure _

omit [Number α] in
theorem reads_reportDuplicate (names : List String) (e : Element) (p : Pattern α) :
    Reads (reportDuplicate names e p) := by
  unfold reportDuplicate
  split
  · exact reads_error ..
  · exact .pure _

end PatternMarkup
