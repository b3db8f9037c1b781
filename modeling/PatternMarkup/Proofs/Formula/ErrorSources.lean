import PatternMarkup.Proofs.Formula.GrammarReading
import PatternMarkup.Proofs.Formula.NamesRead
/-!
Where the errors of evaluation come from. Operators and functions fail for the values they are
given. Every other error of a formula comes from reading a name in it, from a call in it of an
unknown function or with a wrong number of arguments, or from a function of the surroundings.
-/

namespace PatternMarkup

variable {α β γ : Type}

/-! ### Results -/

/-- Every error that a result is has a property. -/
def FailsOnly (p : EvalError → Prop) (result : Except EvalError β) : Prop :=
  ∀ e, result = .error e → p e

section Results

variable {p q : EvalError → Prop}

@[simp] theorem failsOnly_ok (x : β) : FailsOnly p (.ok x : Except EvalError β) := by
  intro e h
  cases h

@[simp] theorem failsOnly_error {e : EvalError} :
    FailsOnly p (.error e : Except EvalError β) ↔ p e := by
  simp [FailsOnly]

@[simp] theorem failsOnly_throw {e : EvalError} :
    FailsOnly p (throw e : Except EvalError β) ↔ p e :=
  failsOnly_error

theorem FailsOnly.bind {result : Except EvalError β} {next : β → Except EvalError γ}
    (h : FailsOnly p result) (hnext : ∀ x, result = .ok x → FailsOnly p (next x)) :
    FailsOnly p (result >>= next) := by
  cases result with
  | ok x => exact hnext x rfl
  | error e => exact failsOnly_error.mpr (failsOnly_error.mp h)

theorem FailsOnly.map {result : Except EvalError β} (h : FailsOnly p result) (f : β → γ) :
    FailsOnly p (result.map f) := by
  cases result with
  | ok x => exact failsOnly_ok (f x)
  | error e => exact failsOnly_error.mpr (failsOnly_error.mp h)

theorem FailsOnly.mono {result : Except EvalError β} (h : FailsOnly p result)
    (hpq : ∀ e, p e → q e) : FailsOnly q result :=
  fun e he => hpq e (h e he)

end Results

/-- The error tells of values that an operation cannot take. -/
def EvalError.IsOfValues : EvalError → Prop
  | undefinedName _ => False
  | unbound _ => False
  | arity .. => False
  | recursion _ => False
  | _ => True

open EvalError (IsOfValues)

/-! ### Operators, members and indices -/

section Values

variable [Number α]

omit [Number α] in
theorem Value.failsOnly_asCondition (v : Value α) : FailsOnly IsOfValues v.asCondition := by
  unfold asCondition
  split <;> simp [IsOfValues]

theorem UnaryOp.failsOnly_apply (op : UnaryOp) (v : Value α) :
    FailsOnly IsOfValues (op.apply v) := by
  unfold apply
  repeat' split
  all_goals simp [IsOfValues]

namespace BinaryOp

theorem failsOnly_numbers (op : BinaryOp) (left right : Value α) :
    FailsOnly IsOfValues (op.numbers left right) := by
  unfold numbers
  split <;> simp [refuse, IsOfValues]

theorem failsOnly_arithmetic (op : BinaryOp) (ints : Int → Int → Int) (reals : α → α → α)
    (left right : Value α) : FailsOnly IsOfValues (arithmetic op ints reals left right) := by
  unfold arithmetic
  split
  · simp
  · exact (op.failsOnly_numbers left right).map _

theorem failsOnly_sum (left right : Value α) : FailsOnly IsOfValues (sum left right) := by
  unfold sum
  split
  · simp
  · simp
  · simp
  · simp
  · exact failsOnly_arithmetic _ _ _ _ _

theorem failsOnly_product (left right : Value α) : FailsOnly IsOfValues (product left right) := by
  have hnumbers : FailsOnly IsOfValues (arithmetic .multiply (· * ·) (· * ·) left right) :=
    failsOnly_arithmetic _ _ _ _ _
  unfold product
  simp only
  repeat' split
  all_goals first
    | exact hnumbers
    | simp

theorem failsOnly_remainder (left right : Value α) :
    FailsOnly IsOfValues (remainder left right) := by
  unfold remainder
  repeat' split
  all_goals first
    | exact failsOnly_arithmetic _ _ _ _ _
    | simp

theorem failsOnly_compare (op : BinaryOp) (texts : String → String → Bool)
    (reals : α → α → Bool) (left right : Value α) :
    FailsOnly IsOfValues (compare op texts reals left right) := by
  unfold compare
  split
  · simp
  · exact (op.failsOnly_numbers _ _).map _

theorem failsOnly_apply (op : BinaryOp) (left right : Value α) :
    FailsOnly IsOfValues (op.apply left right) := by
  cases op with
  | add => exact failsOnly_sum left right
  | subtract =>
      unfold apply
      simp only
      split
      · simp
      · exact failsOnly_arithmetic _ _ _ _ _
  | multiply => exact failsOnly_product left right
  | divide =>
      refine (failsOnly_numbers _ left right).bind fun (x, y) _ => ?_
      by_cases hzero : (y == Number.zero) = true
      · simp only [hzero, if_true]
        exact (failsOnly_throw.mpr trivial).bind fun _ _ => failsOnly_ok _
      · simp only [hzero]
        exact failsOnly_ok _
  | modulo =>
      refine (failsOnly_numbers _ left right).bind fun (x, y) _ => ?_
      by_cases hzero : (y == Number.zero) = true
      · simp only [hzero, if_true]
        exact (failsOnly_throw.mpr trivial).bind fun _ _ => failsOnly_remainder left right
      · simp only [hzero]
        exact failsOnly_remainder left right
  | equals | notEquals => exact failsOnly_ok _
  | lessThan | lessThanOrEqual | greaterThan | greaterThanOrEqual =>
      rw [apply]
      exact failsOnly_compare _ _ _ left right
  | and | or =>
      unfold apply
      simp only
      split <;> simp [refuse, IsOfValues]

end BinaryOp

namespace Value

omit [Number α] in
theorem failsOnly_member (v : Value α) (name : String) : FailsOnly IsOfValues (v.member name) := by
  unfold member
  simp only
  split <;> simp [IsOfValues]

theorem failsOnly_asIndex (v : Value α) : FailsOnly IsOfValues v.asIndex := by
  unfold asIndex
  repeat' split
  all_goals simp [IsOfValues]

theorem failsOnly_item (v index : Value α) : FailsOnly IsOfValues (v.item index) := by
  unfold item
  split
  · refine (failsOnly_asIndex index).bind fun i _ => ?_
    split
    · exact failsOnly_ok _
    · simp [IsOfValues]
  · simp [IsOfValues]

end Value

end Values

/-! ### Functions -/

namespace Arity

theorem accepts_between {least greatest count : Nat} :
    (between least greatest).accepts count = true ↔ least ≤ count ∧ count ≤ greatest := by
  change (decide (least ≤ count) && decide (count ≤ greatest)) = true ↔ _
  simp

theorem accepts_exactly {n count : Nat} : (exactly n).accepts count = true ↔ count = n := by
  change (between n n).accepts count = true ↔ _
  rw [accepts_between]
  omega

end Arity

namespace Builtin

/-- The message of an argument that is no number. -/
def IsNoNumber (message : String) : Prop :=
  ∃ type : ValueType, message = "expected a number, got " ++ type.text

/-- The function refuses values for what they are, not for being no numbers. -/
def RefusesContent (b : Builtin) (e : EvalError) : Prop :=
  ∃ message, e = b.refuse message ∧ ¬ IsNoNumber message

theorem RefusesContent.isOfValues {b : Builtin} {e : EvalError} (h : b.RefusesContent e) :
    e.IsOfValues := by
  obtain ⟨message, rfl, -⟩ := h
  trivial

/-- A message that starts in another way is not that of an argument that is no number. -/
theorem not_isNoNumber {message : String}
    (h : ("expected a number".toList.isPrefixOf message.toList) = false) :
    ¬ IsNoNumber message := by
  rintro ⟨type, rfl⟩
  have hstart : "expected a number".toList <+: "expected a number, got ".toList := by decide
  have hprefix :
      "expected a number".toList <+: ("expected a number, got " ++ type.text).toList := by
    rw [String.toList_append]
    exact hstart.trans (List.prefix_append _ _)
  rw [← List.isPrefixOf_iff_prefix, h] at hprefix
  cases hprefix

theorem exists_getLast?_text (type : ValueType) :
    ∃ last, type.text.toList.getLast? = some last ∧ last ≠ '0' := by
  have hclosed (front : String) (last : Char) :
      (front ++ String.singleton last).toList.getLast? = some last := by simp
  cases type with
  | enum members => exact ⟨')', hclosed _ ')', by decide⟩
  | list item => exact ⟨')', hclosed _ ')', by decide⟩
  | record fields => exact ⟨'\x7d', hclosed _ '\x7d', by decide⟩
  | _ => exact ⟨_, rfl, by decide⟩

/-- No text of a type ends in the digit that the limit of `range` ends in. -/
theorem not_isNoNumber_count (count : String) :
    ¬ IsNoNumber (count ++ " items exceeds the limit of " ++ toString rangeLimit) := by
  rintro ⟨type, h⟩
  have hlimit : (toString rangeLimit).toList = "100000".toList ++ ['0'] := by decide
  have hcount : (count ++ " items exceeds the limit of " ++ toString rangeLimit).toList.getLast? =
      some '0' := by
    rw [String.toList_append, hlimit, ← List.append_assoc, List.getLast?_concat]
  obtain ⟨last, hlast, hne⟩ := exists_getLast?_text type
  rw [h, String.toList_append, List.getLast?_append, hlast] at hcount
  exact hne (Option.some.inj hcount)

/-- The function is one of numbers only. -/
def isOfNumbers : Builtin → Bool
  | min | max | abs | len | hex | str | int | choose => false
  | _ => true

section Values

variable [Number α]

/-- The function refuses one of the values for being no number. -/
def RefusesKind (b : Builtin) (values : List (Value α)) (e : EvalError) : Prop :=
  ∃ v ∈ values, v.number? = none ∧ e = b.refuse ("expected a number, got " ++ v.type.text)

theorem RefusesKind.isOfValues {b : Builtin} {values : List (Value α)} {e : EvalError}
    (h : b.RefusesKind values e) : e.IsOfValues := by
  obtain ⟨v, -, -, rfl⟩ := h
  trivial

theorem RefusesKind.of_subset {b : Builtin} {values more : List (Value α)} (h : values ⊆ more)
    {e : EvalError} (he : b.RefusesKind values e) : b.RefusesKind more e := by
  obtain ⟨v, hv, hrefuse⟩ := he
  exact ⟨v, h hv, hrefuse⟩

theorem failsOnly_number (b : Builtin) (v : Value α) :
    FailsOnly (b.RefusesKind [v]) (b.number v) := by
  unfold number
  split
  · exact failsOnly_ok _
  · rename_i hnone
    exact failsOnly_error.mpr ⟨v, List.mem_singleton_self v, hnone, rfl⟩

theorem failsOnly_numbers (b : Builtin) (values : List (Value α)) :
    FailsOnly (b.RefusesKind values) (b.numbers values) := by
  induction values with
  | nil => exact failsOnly_ok _
  | cons v rest ih =>
      have hfirst : FailsOnly (b.RefusesKind (v :: rest)) (b.number v) :=
        (b.failsOnly_number v).mono fun _ => RefusesKind.of_subset (by simp)
      have hrest : FailsOnly (b.RefusesKind (v :: rest)) (b.numbers rest) :=
        ih.mono fun _ => RefusesKind.of_subset (List.subset_cons_self v rest)
      exact hfirst.bind fun x _ => hrest.bind fun xs _ => failsOnly_ok _

theorem length_numbers {b : Builtin} {values : List (Value α)} {xs : List α}
    (h : b.numbers values = .ok xs) : xs.length = values.length := by
  induction values generalizing xs with
  | nil => cases h; rfl
  | cons v rest ih =>
      obtain ⟨x, -, h⟩ := FormulaParser.exists_of_bind_eq_ok h
      obtain ⟨ys, hys, h⟩ := FormulaParser.exists_of_bind_eq_ok h
      rw [← Except.ok.inj h, List.length_cons, List.length_cons, ih hys]

theorem failsOnly_rangeOf (start stop : α) :
    FailsOnly range.RefusesContent (rangeOf start stop) := by
  unfold rangeOf
  split
  · exact failsOnly_error.mpr ⟨_, rfl, not_isNoNumber (by decide)⟩
  · simp only
    split
    · exact failsOnly_error.mpr ⟨_, rfl, not_isNoNumber_count _⟩
    · exact failsOnly_ok _

/-- A function of numbers has a result for as many as it takes, or refuses them. The cases are the
functions by how many numbers they take. -/
theorem failsOnly_ofNumbers {b : Builtin} (hb : b.isOfNumbers = true) {xs : List α}
    (h : b.arity.accepts xs.length = true) : FailsOnly b.RefusesContent (b.ofNumbers xs) := by
  cases b with
  | min | max | abs | len | hex | str | int | choose => cases hb
  | floor | ceil | round | sin | cos | tan | gray | skewX | skewY =>
      match xs, Arity.accepts_exactly.mp h with
      | [_], _ => exact failsOnly_ok _
  | sqrt =>
      match xs, Arity.accepts_exactly.mp h with
      | [x], _ =>
          rw [ofNumbers]
          split
          · exact failsOnly_error.mpr ⟨_, rfl, not_isNoNumber (by decide)⟩
          · exact failsOnly_ok _
  | atan2 | pow | size | point =>
      match xs, Arity.accepts_exactly.mp h with
      | [_, _], _ => exact failsOnly_ok _
  | rgb =>
      match xs, Arity.accepts_exactly.mp h with
      | [_, _, _], _ => exact failsOnly_ok _
  | clamp =>
      match xs, Arity.accepts_exactly.mp h with
      | [x, low, high], _ =>
          rw [ofNumbers]
          split
          · exact failsOnly_error.mpr ⟨_, rfl, not_isNoNumber (by decide)⟩
          · exact failsOnly_ok _
  | rgba | rect =>
      match xs, Arity.accepts_exactly.mp h with
      | [_, _, _, _], _ => exact failsOnly_ok _
  | matrix =>
      match xs, Arity.accepts_exactly.mp h with
      | [_, _, _, _, _, _], _ => exact failsOnly_ok _
  | range =>
      match xs, Arity.accepts_between.mp h with
      | [stop], _ => exact failsOnly_rangeOf _ stop
      | [start, stop], _ => exact failsOnly_rangeOf start stop
  | translate | scale =>
      match xs, Arity.accepts_between.mp h with
      | [_], _ => exact failsOnly_ok _
      | [_, _], _ => exact failsOnly_ok _
  | rotate =>
      match xs, Arity.accepts_between.mp h with
      | [_], _ => exact failsOnly_ok _
      | [_, _], _ => exact failsOnly_error.mpr ⟨_, rfl, not_isNoNumber (by decide)⟩
      | [_, _, _], _ => exact failsOnly_ok _
  | margins =>
      rw [ofNumbers]
      split
      · exact failsOnly_ok _
      · exact failsOnly_error.mpr ⟨_, rfl, not_isNoNumber (by decide)⟩

theorem failsOnly_extreme (b : Builtin) (ofInts : Int64 → Int64 → Int64) (ofReals : α → α → α)
    (arguments : List (Value α)) :
    FailsOnly (b.RefusesKind arguments) (b.extreme ofInts ofReals arguments) := by
  unfold extreme
  split
  · exact failsOnly_ok _
  · exact failsOnly_ok _
  · refine (b.failsOnly_numbers arguments).bind fun xs _ => ?_
    split <;> exact failsOnly_ok _

omit [Number α] in
theorem failsOnly_lengthOf (v : Value α) : FailsOnly IsOfValues (lengthOf v) := by
  unfold lengthOf
  split <;> simp [IsOfValues]

theorem failsOnly_colorOf (v : Value α) : FailsOnly IsOfValues (colorOf v) := by
  unfold colorOf
  repeat' split
  all_goals simp [IsOfValues, refuse]

theorem failsOnly_toInteger (v : Value α) : FailsOnly IsOfValues (toInteger v) := by
  unfold toInteger
  repeat' split
  all_goals simp [IsOfValues]

/-- What a function does with as many arguments as it takes, and what comes of it. -/
inductive Evaluates : Builtin → List (Value α) → Except EvalError (Value α) → Prop
  | numbers (b : Builtin) (hb : b.isOfNumbers = true) (arguments : List (Value α)) :
      Evaluates b arguments (b.numbers arguments >>= b.ofNumbers)
  | min (arguments : List (Value α)) :
      Evaluates .min arguments
        (Builtin.min.extreme (fun m n => if n < m then n else m) Number.min arguments)
  | max (arguments : List (Value α)) :
      Evaluates .max arguments
        (Builtin.max.extreme (fun m n => if m < n then n else m) Number.max arguments)
  | absOfInt (n : Int64) :
      Evaluates .abs [.int n] (.ok (.int (Int64.ofInt n.toInt.natAbs)))
  | abs (v : Value α) (hv : ∀ n, v ≠ .int n) :
      Evaluates .abs [v] ((Builtin.abs.number v).map fun x => .scalar (Number.abs x))
  | len (v : Value α) : Evaluates .len [v] (lengthOf v)
  | hex (v : Value α) : Evaluates .hex [v] (colorOf v)
  | str (v : Value α) : Evaluates .str [v] (.ok (.string v.text))
  | int (v : Value α) : Evaluates .int [v] (toInteger v)
  | choose (condition then_ else_ : Value α) :
      Evaluates .choose [condition, then_, else_]
        (condition.asCondition.map fun taken => if taken then then_ else else_)

theorem evaluates_abs (v : Value α) : Evaluates .abs [v] (Builtin.abs.evaluate [v]) := by
  cases v with
  | int n => exact .absOfInt n
  | _ => exact .abs _ nofun

theorem evaluates {b : Builtin} {arguments : List (Value α)}
    (h : b.arity.accepts arguments.length = true) :
    Evaluates b arguments (b.evaluate arguments) := by
  cases b with
  | min => exact .min arguments
  | max => exact .max arguments
  | abs =>
      match arguments, Arity.accepts_exactly.mp h with
      | [v], _ => exact evaluates_abs v
  | len =>
      match arguments, Arity.accepts_exactly.mp h with
      | [v], _ => exact .len v
  | hex =>
      match arguments, Arity.accepts_exactly.mp h with
      | [v], _ => exact .hex v
  | str =>
      match arguments, Arity.accepts_exactly.mp h with
      | [v], _ => exact .str v
  | int =>
      match arguments, Arity.accepts_exactly.mp h with
      | [v], _ => exact .int v
  | choose =>
      match arguments, Arity.accepts_exactly.mp h with
      | [condition, then_, else_], _ =>
          have hchoose : choose.evaluate [condition, then_, else_] = _ :=
            call_choose condition then_ else_
          rw [hchoose]
          exact .choose condition then_ else_
  | _ => exact .numbers _ rfl arguments

theorem failsOnly_evaluate {b : Builtin} {arguments : List (Value α)}
    (h : b.arity.accepts arguments.length = true) :
    FailsOnly IsOfValues (b.evaluate arguments) := by
  have hevaluates := evaluates h
  generalize b.evaluate arguments = result at hevaluates ⊢
  cases hevaluates with
  | numbers _ hb =>
      have hnumbers : FailsOnly IsOfValues (b.numbers arguments) :=
        (b.failsOnly_numbers arguments).mono fun _ => RefusesKind.isOfValues
      refine hnumbers.bind fun xs hxs => ?_
      rw [← length_numbers hxs] at h
      exact (failsOnly_ofNumbers hb h).mono fun _ => RefusesContent.isOfValues
  | min => exact (failsOnly_extreme _ _ _ arguments).mono fun _ => RefusesKind.isOfValues
  | max => exact (failsOnly_extreme _ _ _ arguments).mono fun _ => RefusesKind.isOfValues
  | absOfInt n => exact failsOnly_ok _
  | abs v =>
      exact ((failsOnly_number _ v).mono fun _ => RefusesKind.isOfValues).map _
  | len v => exact failsOnly_lengthOf v
  | hex v => exact failsOnly_colorOf v
  | str v => exact failsOnly_ok _
  | int v => exact failsOnly_toInteger v
  | choose condition then_ else_ => exact condition.failsOnly_asCondition.map _

/-- A function fails for the values it is given, or for their number if it does not take as many. -/
theorem failsOnly_call (b : Builtin) (arguments : List (Value α)) :
    FailsOnly (fun e => e.IsOfValues ∨ b.arity.accepts arguments.length = false ∧
      e = .arity b.name b.arity arguments.length) (b.call arguments) := by
  unfold call
  split
  · rename_i h
    exact (failsOnly_evaluate h).mono fun _ => .inl
  · rename_i h
    exact failsOnly_error.mpr (.inr ⟨Bool.eq_false_iff.mpr h, rfl⟩)

end Values

end Builtin

/-! ### Formulas -/

variable [Number α] {env : Environment α}

/-- What a call of a function with some number of arguments can fail with besides the errors of
the arguments and of their values. -/
inductive Environment.CallFails (env : Environment α) (function : String) (count : Nat) :
    EvalError → Prop
  | unknown (hfunction : env.function? function = none)
      (hname : Builtin.ofName? function = none) :
      CallFails env function count (.undefinedName function)
  | hostCount (host : HostFunction α) (hfunction : env.function? function = some host)
      (hcount : count ≠ host.parameters.length) :
      CallFails env function count (.arity function (.exactly host.parameters.length) count)
  | count (b : Builtin) (hfunction : env.function? function = none)
      (hname : Builtin.ofName? function = some b) (hcount : b.arity.accepts count = false) :
      CallFails env function count (.arity b.name b.arity count)
  | host (host : HostFunction α) (hfunction : env.function? function = some host)
      (values : List (Value α)) (e : EvalError) (h : host.call values = .error e) :
      CallFails env function count e

namespace Ast

/-- Where an error of a formula comes from. -/
inductive ErrorSource (env : Environment α) (ast : Ast α) (e : EvalError) : Prop
  | name (n : String) (range : ByteRange) (hmem : .name n range ∈ ast.subterms)
      (h : env.read n = .error e)
  | call (function : String) (arguments : List (Ast α)) (range : ByteRange)
      (hmem : .call function arguments range ∈ ast.subterms)
      (h : env.CallFails function arguments.length e)
  | values (h : e.IsOfValues)

omit [Number α] in
theorem ErrorSource.of_mem_children {child ast : Ast α} (hchild : child ∈ ast.children)
    {e : EvalError} (h : child.ErrorSource env e) : ast.ErrorSource env e := by
  have hsubset := subterms_subset_of_mem_children hchild
  cases h with
  | name n range hmem h => exact .name n range (hsubset hmem) h
  | call function arguments range hmem h => exact .call function arguments range (hsubset hmem) h
  | values h => exact .values h

section Lists

variable {p : EvalError → Prop} {asts : List (Ast α)}

theorem length_evaluateAll {values : List (Value α)} (h : evaluateAll env asts = .ok values) :
    values.length = asts.length := by
  induction asts generalizing values with
  | nil =>
      rw [evaluateAll] at h
      cases h
      rfl
  | cons ast rest ih =>
      rw [evaluateAll] at h
      obtain ⟨v, -, h⟩ := FormulaParser.exists_of_bind_eq_ok h
      obtain ⟨more, hmore, h⟩ := FormulaParser.exists_of_bind_eq_ok h
      rw [← Except.ok.inj h, List.length_cons, List.length_cons, ih hmore]

theorem failsOnly_evaluateAll (h : ∀ ast ∈ asts, FailsOnly p (ast.evaluateWith env)) :
    FailsOnly p (evaluateAll env asts) := by
  induction asts with
  | nil =>
      rw [evaluateAll]
      exact failsOnly_ok _
  | cons ast rest ih =>
      rw [evaluateAll]
      have hrest := ih fun t ht => h t (List.mem_cons_of_mem ast ht)
      exact (h ast List.mem_cons_self).bind fun v _ => hrest.bind fun values _ => failsOnly_ok _

theorem failsOnly_evaluateText (h : ∀ ast ∈ asts, FailsOnly p (ast.evaluateWith env)) :
    FailsOnly p (evaluateText env asts) := by
  induction asts with
  | nil =>
      rw [evaluateText]
      exact failsOnly_ok _
  | cons ast rest ih =>
      rw [evaluateText]
      have hrest := ih fun t ht => h t (List.mem_cons_of_mem ast ht)
      exact (h ast List.mem_cons_self).bind fun v _ => hrest.bind fun text _ => failsOnly_ok _

/-- One of two formulas by a condition. -/
theorem failsOnly_choice {condition then_ else_ : Ast α} (hvalues : ∀ e, e.IsOfValues → p e)
    (hcondition : FailsOnly p (condition.evaluateWith env))
    (hthen : FailsOnly p (then_.evaluateWith env)) (helse : FailsOnly p (else_.evaluateWith env)) :
    FailsOnly p (do
      let v ← condition.evaluateWith env
      if ← v.asCondition then then_.evaluateWith env else else_.evaluateWith env) := by
  refine hcondition.bind fun v _ => (v.failsOnly_asCondition.mono hvalues).bind fun taken _ => ?_
  cases taken with
  | true => exact hthen
  | false => exact helse

/-- Values that are given to a function. -/
theorem failsOnly_call_values {b : Builtin} (hvalues : ∀ e, e.IsOfValues → p e)
    (hcount : b.arity.accepts asts.length = false → p (.arity b.name b.arity asts.length))
    (h : ∀ ast ∈ asts, FailsOnly p (ast.evaluateWith env)) :
    FailsOnly p (do b.call (← evaluateAll env asts)) := by
  refine (failsOnly_evaluateAll h).bind fun values hall => ?_
  rw [← length_evaluateAll hall] at hcount
  refine (b.failsOnly_call values).mono fun e he => ?_
  rcases he with he | ⟨hnot, rfl⟩
  · exact hvalues e he
  · exact hcount hnot

theorem failsOnly_evaluateChoice (hvalues : ∀ e, e.IsOfValues → p e)
    (hcount : Builtin.choose.arity.accepts asts.length = false →
      p (.arity Builtin.choose.name Builtin.choose.arity asts.length))
    (h : ∀ ast ∈ asts, FailsOnly p (ast.evaluateWith env)) :
    FailsOnly p (evaluateChoice env asts) := by
  unfold evaluateChoice
  split
  · exact failsOnly_choice hvalues (h _ (by simp)) (h _ (by simp)) (h _ (by simp))
  · exact failsOnly_call_values hvalues hcount h

end Lists

theorem failsOnly_evaluateWith_call {function : String} {arguments : List (Ast α)}
    {range : ByteRange}
    (h : ∀ ast ∈ arguments,
      FailsOnly ((call function arguments range).ErrorSource env) (ast.evaluateWith env)) :
    FailsOnly ((call function arguments range).ErrorSource env)
      ((call function arguments range).evaluateWith env) := by
  have hcall : ∀ e, env.CallFails function arguments.length e →
      (call function arguments range).ErrorSource env e :=
    fun e he => .call function arguments range (mem_subterms_self _) he
  rw [evaluateWith]
  cases hfunction : env.function? function with
  | some host =>
      simp only
      split
      · refine (failsOnly_evaluateAll h).bind fun values _ e he => ?_
        exact hcall e (.host host hfunction values e he)
      · rename_i hcount
        exact failsOnly_error.mpr (hcall _ (.hostCount host hfunction hcount))
  | none =>
      cases hname : Builtin.ofName? function with
      | none => exact failsOnly_error.mpr (hcall _ (.unknown hfunction hname))
      | some b =>
          have hcount : b.arity.accepts arguments.length = false →
              (call function arguments range).ErrorSource env
                (.arity b.name b.arity arguments.length) :=
            fun hnot => hcall _ (.count b hfunction hname hnot)
          cases b with
          | choose => exact failsOnly_evaluateChoice (fun _ => .values) hcount h
          | _ => exact failsOnly_call_values (fun _ => .values) hcount h

/-- Every error of a formula comes from a name or a call in it, or from values. The induction is
on the formula: what is the source of a part's error is one of the whole. -/
theorem failsOnly_evaluateWith (ast : Ast α) :
    FailsOnly (ast.ErrorSource env) (ast.evaluateWith env) := by
  induction ast using induction_on_children with
  | step ast ih =>
  have hparts : ∀ child ∈ ast.children,
      FailsOnly (ast.ErrorSource env) (child.evaluateWith env) :=
    fun child hchild => (ih child hchild).mono fun e => ErrorSource.of_mem_children hchild
  cases ast with
  | literal value range =>
      rw [evaluateWith]
      exact failsOnly_ok _
  | name n range =>
      rw [evaluateWith]
      exact fun e he => .name n range (mem_subterms_self _) he
  | list items range =>
      rw [evaluateWith]
      exact (failsOnly_evaluateAll hparts).bind fun values _ => failsOnly_ok _
  | unary op operand range =>
      rw [evaluateWith]
      have hoperand := hparts operand (by simp [children])
      exact hoperand.bind fun v _ => (op.failsOnly_apply v).mono fun _ => .values
  | binary op left right range =>
      rw [evaluateWith]
      have hleft := hparts left (by simp [children])
      have hright := hparts right (by simp [children])
      refine hleft.bind fun v _ => ?_
      cases op.shortcut? v with
      | some w => exact failsOnly_ok w
      | none => exact hright.bind fun w _ => (op.failsOnly_apply v w).mono fun _ => .values
  | conditional condition then_ else_ range =>
      rw [evaluateWith]
      have hcondition := hparts condition (by simp [children])
      have hthen := hparts then_ (by simp [children])
      have helse := hparts else_ (by simp [children])
      exact failsOnly_choice (fun _ => .values) hcondition hthen helse
  | call function arguments range => exact failsOnly_evaluateWith_call hparts
  | member object m range =>
      rw [evaluateWith]
      have hobject := hparts object (by simp [children])
      exact hobject.bind fun v _ => (v.failsOnly_member m).mono fun _ => .values
  | index object i range =>
      rw [evaluateWith]
      have hobject := hparts object (by simp [children])
      have hi := hparts i (by simp [children])
      exact hobject.bind fun v _ => hi.bind fun w _ =>
        (v.failsOnly_item w).mono fun _ => .values
  | interpolation parts range =>
      rw [evaluateWith]
      exact (failsOnly_evaluateText hparts).bind fun text _ => failsOnly_ok _

end Ast

end PatternMarkup
