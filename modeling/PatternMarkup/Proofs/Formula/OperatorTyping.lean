import PatternMarkup.Proofs.Formula.Conformance
/-!
What operators, members and indices make of values that belong to the types their check has seen:
a value of the type the check has found, or an error that does not come from a wrong type.
-/

namespace PatternMarkup

variable {α : Type} [Number α] {widened casts : Prop}

/-! ### Operators -/

theorem ValueType.exists_number?_of_admits {v : Value α} (h : scalar.Admits widened v) :
    ∃ x, v.number? = some x := by
  rcases h with ⟨x, rfl⟩ | ⟨n, rfl⟩
  · exact ⟨x, rfl⟩
  · exact ⟨Number.ofInt64 n, rfl⟩

omit [Number α] in
/-- Integers are numbers. -/
theorem ValueType.admits_scalar {type : ValueType} {v : Value α}
    (htype : type = .scalar ∨ type = .int) (h : type.Admits widened v) :
    scalar.Admits widened v := by
  rcases htype with rfl | rfl
  · exact h
  · exact admits_of_accepts scalar rfl rfl h

theorem UnaryOp.admits_negate_int {n : Int64}
    (hfit : Number.fitsInt (-n.toInt) = false → widened) :
    ∃ w : Value α, negate.apply (.int n) = .ok w ∧ ValueType.int.Admits widened w := by
  by_cases hn : Number.fitsInt (-n.toInt)
  · exact ⟨.int (Int64.ofInt (-n.toInt)), by simp [apply, hn], .inl ⟨_, rfl⟩⟩
  · have hwidened := hfit (Bool.eq_false_iff.mpr hn)
    exact ⟨.scalar (-(Number.ofInt64 n)), by simp [apply, hn], .inr ⟨hwidened, _, rfl⟩⟩

theorem UnaryOp.admits_negate_number {v : Value α} (h : ValueType.scalar.Admits widened v) :
    ∃ w, negate.apply v = .ok w ∧ ValueType.scalar.Admits widened w := by
  rcases h with ⟨x, rfl⟩ | ⟨n, rfl⟩
  · exact ⟨_, rfl, .inl ⟨_, rfl⟩⟩
  · by_cases hn : Number.fitsInt (-n.toInt)
    · exact ⟨.int (Int64.ofInt (-n.toInt)), by simp [apply, hn], .inr ⟨_, rfl⟩⟩
    · exact ⟨.scalar (-(Number.ofInt64 n)), by simp [apply, hn], .inl ⟨_, rfl⟩⟩

/-- An operator takes the values of the types that its check lets pass. -/
theorem UnaryOp.admits_apply {op : UnaryOp} {type result : ValueType} {v : Value α}
    (h : op.resultType? type = some result) (hany : type.mentionsAny = false)
    (hv : type.Admits widened v)
    (hfit : ∀ n, op = .negate → v = .int n → Number.fitsInt (-n.toInt) = false → widened) :
    ∃ w, op.apply v = .ok w ∧ result.Admits widened w := by
  unfold resultType? at h
  split at h
  · cases hany
  · obtain rfl := Option.some.inj h
    exact admits_negate_number hv
  · obtain rfl := Option.some.inj h
    rcases hv with ⟨n, rfl⟩ | ⟨hwidened, x, rfl⟩
    · exact admits_negate_int (hfit n rfl rfl)
    · exact ⟨_, rfl, .inr ⟨hwidened, _, rfl⟩⟩
  · obtain rfl := Option.some.inj h
    obtain ⟨p, rfl⟩ := hv
    exact ⟨_, rfl, _, rfl⟩
  · obtain rfl := Option.some.inj h
    obtain ⟨b, rfl⟩ := hv
    exact ⟨_, rfl, _, rfl⟩
  · cases h

namespace BinaryOp

open ValueType (admits_scalar exists_number?_of_admits)

/-- The result of an operation on two integers does not fit 64 bits; for the remainder it is the
quotient that does not. -/
def overflows (op : BinaryOp) (m n : Int) : Bool :=
  match op with
  | add => !Number.fitsInt (m + n)
  | subtract => !Number.fitsInt (m - n)
  | multiply => !Number.fitsInt (m * n)
  | modulo => decide (m = Number.leastInt ∧ n = -1)
  | _ => false

theorem numbers_of_admits (op : BinaryOp) {v w : Value α}
    (hv : ValueType.scalar.Admits widened v) (hw : ValueType.scalar.Admits widened w) :
    ∃ x y, op.numbers v w = .ok (x, y) := by
  obtain ⟨x, hx⟩ := exists_number?_of_admits hv
  obtain ⟨y, hy⟩ := exists_number?_of_admits hw
  exact ⟨x, y, by rw [numbers, hx, hy]⟩

theorem numericType_eq {l r : ValueType} (hl : l = .scalar ∨ l = .int)
    (hr : r = .scalar ∨ r = .int) :
    numericType l r = .scalar ∨ l = .int ∧ r = .int ∧ numericType l r = .int := by
  rcases hl with rfl | rfl <;> rcases hr with rfl | rfl
  · exact .inl rfl
  · exact .inl rfl
  · exact .inl rfl
  · exact .inr ⟨rfl, rfl, rfl⟩

/-- Arithmetic gives an integer or a number, and a number only if an operand is one or the result
is too large for an integer. -/
theorem admits_arithmetic (op : BinaryOp) {ints : Int → Int → Int} {reals : α → α → α}
    {l r : ValueType} {v w : Value α} (hl : l = .scalar ∨ l = .int) (hr : r = .scalar ∨ r = .int)
    (hv : l.Admits widened v) (hw : r.Admits widened w)
    (hfit : ∀ m n, v = .int m → w = .int n →
      Number.fitsInt (ints m.toInt n.toInt) = false → widened) :
    ∃ u, op.arithmetic ints reals v w = .ok u ∧ (numericType l r).Admits widened u := by
  have htype := numericType_eq hl hr
  unfold arithmetic
  split
  · rename_i u hu
    have hint : ∃ k, u = .int k := by
      unfold onInts? at hu
      split at hu
      · simp only [Option.ite_none_right_eq_some, Option.some.injEq] at hu
        exact ⟨_, hu.2.symm⟩
      · cases hu
    obtain ⟨k, rfl⟩ := hint
    refine ⟨_, rfl, ?_⟩
    rcases htype with htype | ⟨_, _, htype⟩ <;> rw [htype]
    · exact .inr ⟨k, rfl⟩
    · exact .inl ⟨k, rfl⟩
  · rename_i hints
    obtain ⟨x, y, hnumbers⟩ := op.numbers_of_admits (admits_scalar hl hv) (admits_scalar hr hw)
    refine ⟨.scalar (reals x y), by rw [hnumbers]; rfl, ?_⟩
    rcases htype with htype | ⟨rfl, rfl, htype⟩ <;> rw [htype]
    · exact .inl ⟨_, rfl⟩
    · refine .inr ⟨?_, _, rfl⟩
      rcases hv with ⟨m, rfl⟩ | ⟨hwidened, _⟩
      · rcases hw with ⟨n, rfl⟩ | ⟨hwidened, _⟩
        · refine hfit m n rfl rfl ?_
          simpa [onInts?] using hints
        · exact hwidened
      · exact hwidened

/-- The types of operands that arithmetic takes are those of numbers. -/
theorem numbers_of_arithmeticType? {l r result : ValueType}
    (h : arithmeticType? l r = some result) (hl : l.mentionsAny = false)
    (hr : r.mentionsAny = false) :
    (l = .scalar ∨ l = .int) ∧ (r = .scalar ∨ r = .int) ∧ result = numericType l r := by
  unfold arithmeticType? at h
  split at h
  · rename_i hnumeric
    rw [Bool.and_eq_true, ValueType.isNumeric_iff hl, ValueType.isNumeric_iff hr] at hnumeric
    exact ⟨hnumeric.1, hnumeric.2, (Option.some.inj h).symm⟩
  · split at h
    · rename_i hany
      rw [Bool.or_eq_true, ValueType.beq_any, ValueType.beq_any] at hany
      rcases hany with rfl | rfl
      · cases hl
      · cases hr
    · cases h

/-- The operands of `op` are checked to be of the types `l` and `r`, and belong to them. -/
structure Checked (widened : Prop) (op : BinaryOp) (l r : ValueType) (v w : Value α) : Prop where
  left_known : l.mentionsAny = false
  right_known : r.mentionsAny = false
  left : l.Admits widened v
  right : r.Admits widened w
  overflow : ∀ m n, v = .int m → w = .int n → op.overflows m.toInt n.toInt = true → widened

variable {op : BinaryOp} {l r result : ValueType} {v w : Value α}

theorem sum_eq_arithmetic {v w : Value α} (hv : ValueType.scalar.Admits widened v)
    (hw : ValueType.scalar.Admits widened w) :
    sum v w = arithmetic .add (· + ·) (· + ·) v w := by
  rcases hv with ⟨_, rfl⟩ | ⟨_, rfl⟩ <;> rcases hw with ⟨_, rfl⟩ | ⟨_, rfl⟩ <;> rfl

theorem Checked.admits_sum (h : Checked widened .add l r v w)
    (htype : add.resultType? l r = some result)
    (hlists : ∀ item more, l = .list item → r = .list more → item.accepts more = true) :
    ∃ u, sum v w = .ok u ∧ result.Admits widened u := by
  obtain ⟨hl, hr, hv, hw, hfit⟩ := h
  unfold resultType? at htype
  simp only at htype
  split at htype
  · obtain rfl := Option.some.inj htype
    obtain ⟨s, rfl⟩ := hv
    exact ⟨_, rfl, _, rfl⟩
  · obtain rfl := Option.some.inj htype
    obtain ⟨s, rfl⟩ := hw
    cases v <;> exact ⟨_, rfl, _, rfl⟩
  · rename_i item more
    obtain rfl := Option.some.inj htype
    obtain ⟨items, rfl, hitems⟩ := hv
    obtain ⟨others, rfl, hothers⟩ := hw
    refine ⟨_, rfl, items ++ others, rfl, fun x hx => ?_⟩
    rcases List.mem_append.mp hx with hx | hx
    · exact hitems x hx
    · exact ValueType.admits_of_accepts item (hlists item more rfl rfl) hr (hothers x hx)
  · obtain rfl := Option.some.inj htype
    obtain ⟨p, rfl⟩ := hv
    obtain ⟨q, rfl⟩ := hw
    exact ⟨_, rfl, _, rfl⟩
  · obtain ⟨hl', hr', rfl⟩ := numbers_of_arithmeticType? htype hl hr
    rw [sum_eq_arithmetic (admits_scalar hl' hv) (admits_scalar hr' hw)]
    exact admits_arithmetic .add hl' hr' hv hw
      fun m n hm hn hfits => hfit m n hm hn (by simp [overflows, hfits])

theorem Checked.admits_difference (h : Checked widened .subtract l r v w)
    (htype : subtract.resultType? l r = some result) :
    ∃ u, subtract.apply v w = .ok u ∧ result.Admits widened u := by
  obtain ⟨hl, hr, hv, hw, hfit⟩ := h
  unfold resultType? at htype
  simp only at htype
  split at htype
  · obtain rfl := Option.some.inj htype
    obtain ⟨p, rfl⟩ := hv
    obtain ⟨q, rfl⟩ := hw
    exact ⟨_, rfl, _, rfl⟩
  · obtain ⟨hl', hr', rfl⟩ := numbers_of_arithmeticType? htype hl hr
    have happly : subtract.apply v w = arithmetic .subtract (· - ·) (· - ·) v w := by
      rcases admits_scalar hl' hv with ⟨_, rfl⟩ | ⟨_, rfl⟩ <;> rfl
    rw [happly]
    exact admits_arithmetic .subtract hl' hr' hv hw
      fun m n hm hn hfits => hfit m n hm hn (by simp [overflows, hfits])

theorem Checked.admits_product (h : Checked widened .multiply l r v w)
    (htype : multiply.resultType? l r = some result) :
    ∃ u, product v w = .ok u ∧ result.Admits widened u := by
  obtain ⟨hl, hr, hv, hw, hfit⟩ := h
  unfold resultType? at htype
  simp only at htype
  split at htype
  · obtain rfl := Option.some.inj htype
    obtain ⟨m, rfl⟩ := hv
    obtain ⟨n, rfl⟩ := hw
    exact ⟨_, rfl, _, rfl⟩
  · split at htype
    · rename_i hnumeric
      obtain rfl := Option.some.inj htype
      obtain ⟨p, rfl⟩ := hv
      have hw := admits_scalar ((ValueType.isNumeric_iff hr).mp hnumeric) hw
      rcases hw with ⟨_, rfl⟩ | ⟨_, rfl⟩ <;> exact ⟨_, rfl, _, rfl⟩
    · obtain ⟨hpoint | hpoint, _⟩ := numbers_of_arithmeticType? htype hl hr <;> cases hpoint
  · split at htype
    · rename_i hnumeric
      obtain rfl := Option.some.inj htype
      obtain ⟨p, rfl⟩ := hw
      have hv := admits_scalar ((ValueType.isNumeric_iff hl).mp hnumeric) hv
      rcases hv with ⟨_, rfl⟩ | ⟨_, rfl⟩ <;> exact ⟨_, rfl, _, rfl⟩
    · obtain ⟨_, hpoint | hpoint, _⟩ := numbers_of_arithmeticType? htype hl hr <;> cases hpoint
  · obtain ⟨hl', hr', rfl⟩ := numbers_of_arithmeticType? htype hl hr
    have hproduct : product v w = arithmetic .multiply (· * ·) (· * ·) v w := by
      rcases admits_scalar hl' hv with ⟨_, rfl⟩ | ⟨_, rfl⟩ <;>
        rcases admits_scalar hr' hw with ⟨_, rfl⟩ | ⟨_, rfl⟩ <;> rfl
    rw [hproduct]
    exact admits_arithmetic .multiply hl' hr' hv hw
      fun m n hm hn hfits => hfit m n hm hn (by simp [overflows, hfits])

/-- Operands whose types are numeric are numbers. -/
theorem Checked.exists_numbers (h : Checked widened op l r v w)
    (hnumeric : (l.isNumeric && r.isNumeric) = true) :
    ((l = .scalar ∨ l = .int) ∧ (r = .scalar ∨ r = .int)) ∧ ∃ x y, op.numbers v w = .ok (x, y) := by
  rw [Bool.and_eq_true, ValueType.isNumeric_iff h.left_known,
    ValueType.isNumeric_iff h.right_known] at hnumeric
  obtain ⟨hl, hr⟩ := hnumeric
  exact ⟨⟨hl, hr⟩, op.numbers_of_admits (admits_scalar hl h.left) (admits_scalar hr h.right)⟩

theorem Checked.admits_remainder (h : Checked widened .modulo l r v w)
    (hl : l = .scalar ∨ l = .int) (hr : r = .scalar ∨ r = .int) :
    ∃ u, remainder v w = .ok u ∧ (numericType l r).Admits widened u := by
  unfold remainder
  split
  · rename_i m n
    by_cases hleast : m.toInt = Number.leastInt ∧ n.toInt = -1
    · have hwidened := h.overflow m n rfl rfl (decide_eq_true hleast)
      refine ⟨_, if_pos hleast, ?_⟩
      rcases numericType_eq hl hr with htype | ⟨_, _, htype⟩ <;> rw [htype]
      · exact .inl ⟨_, rfl⟩
      · exact .inr ⟨hwidened, _, rfl⟩
    · refine ⟨_, if_neg hleast, ?_⟩
      rcases numericType_eq hl hr with htype | ⟨_, _, htype⟩ <;> rw [htype]
      · exact .inr ⟨_, rfl⟩
      · exact .inl ⟨_, rfl⟩
  · rename_i hints
    exact admits_arithmetic .modulo hl hr h.left h.right
      fun m n hm hn _ => absurd hn (hints m n hm)

theorem Checked.admits_comparison (h : Checked widened op l r v w) {texts : String → String → Bool}
    {reals : α → α → Bool}
    (htype : (l.isNumeric && r.isNumeric) || (l == .string && r == .string) || l == .any ||
      r == .any) :
    ∃ b, op.compare texts reals v w = .ok (.bool b) := by
  simp only [Bool.or_eq_true, Bool.and_eq_true, ValueType.beq_any, ValueType.beq_string,
    ValueType.isNumeric_iff h.left_known, ValueType.isNumeric_iff h.right_known] at htype
  rcases htype with ((⟨hl, hr⟩ | ⟨rfl, rfl⟩) | rfl) | rfl
  · have hv := admits_scalar hl h.left
    obtain ⟨x, y, hnumbers⟩ := op.numbers_of_admits hv (admits_scalar hr h.right)
    refine ⟨reals x y, ?_⟩
    rcases hv with ⟨_, rfl⟩ | ⟨_, rfl⟩ <;> simp [compare, hnumbers, Except.map]
  · obtain ⟨s, rfl⟩ := h.left
    obtain ⟨t, rfl⟩ := h.right
    exact ⟨texts s t, rfl⟩
  · cases h.left_known
  · cases h.right_known

omit [Number α] in
theorem Checked.exists_bools (h : Checked widened op l r v w)
    (htype : (mayBeBool l && mayBeBool r) = true) : (∃ a, v = .bool a) ∧ ∃ b, w = .bool b := by
  simp only [mayBeBool, Bool.and_eq_true, Bool.or_eq_true, ValueType.beq_bool,
    ValueType.beq_any] at htype
  obtain ⟨rfl | rfl, hr⟩ := htype
  · rcases hr with rfl | rfl
    · exact ⟨h.left, h.right⟩
    · cases h.right_known
  · cases h.left_known

omit [Number α] in
/-- What makes a right operand unnecessary is a truth value, and so is the type of the operator. -/
theorem admits_of_shortcut? (h : op.shortcut? v = some w) (htype : op.resultType? l r = some result) :
    result.Admits widened w := by
  have hbool : (∃ b, w = .bool b) ∧ (op = .and ∨ op = .or) := by
    unfold shortcut? at h
    split at h
    · exact ⟨⟨false, (Option.some.inj h).symm⟩, .inl rfl⟩
    · exact ⟨⟨true, (Option.some.inj h).symm⟩, .inr rfl⟩
    · cases h
  obtain ⟨hw, rfl | rfl⟩ := hbool
  all_goals
    obtain rfl := Option.some.inj (Option.ite_none_right_eq_some.mp htype).2
    exact hw

/-- An operator takes the values of the types that its check lets pass. -/
theorem Checked.delivers_apply (h : Checked widened op l r v w)
    (htype : op.resultType? l r = some result)
    (hlists : ∀ item more, op = .add → l = .list item → r = .list more →
      item.accepts more = true) :
    Delivers casts (result.Admits widened) (op.apply v w) := by
  have hok : ∀ {r : Except EvalError (Value α)},
      (∃ u, r = .ok u ∧ result.Admits widened u) → Delivers casts (result.Admits widened) r := by
    rintro _ ⟨u, rfl, hu⟩
    exact hu
  have hbool : ∀ {r : Except EvalError (Value α)}, (∃ b, r = .ok (.bool b)) →
      some ValueType.bool = some result → Delivers casts (result.Admits widened) r := by
    rintro _ ⟨b, rfl⟩ hresult
    obtain rfl := Option.some.inj hresult
    exact ⟨b, rfl⟩
  cases op with
  | add => exact hok (h.admits_sum htype fun item more => hlists item more rfl)
  | subtract => exact hok (h.admits_difference htype)
  | multiply => exact hok (h.admits_product htype)
  | divide =>
      rw [resultType?, Option.ite_none_right_eq_some] at htype
      obtain rfl := Option.some.inj htype.2
      obtain ⟨_, x, y, hnumbers⟩ := h.exists_numbers htype.1
      simp only [apply, hnumbers, bind, Except.bind]
      split
      · trivial
      · exact .inl ⟨_, rfl⟩
  | modulo =>
      rw [resultType?, Option.ite_none_right_eq_some] at htype
      obtain rfl := Option.some.inj htype.2
      obtain ⟨⟨hl, hr⟩, x, y, hnumbers⟩ := h.exists_numbers htype.1
      simp only [apply, hnumbers, bind, Except.bind]
      split
      · trivial
      · exact hok (h.admits_remainder hl hr)
  | equals | notEquals => exact hbool ⟨_, rfl⟩ htype
  | and | or =>
      simp only [resultType?, Option.ite_none_right_eq_some] at htype
      obtain ⟨⟨a, rfl⟩, ⟨b, rfl⟩⟩ := h.exists_bools htype.1
      exact hbool ⟨_, rfl⟩ htype.2
  | _ =>
      simp only [resultType?, Option.ite_none_right_eq_some] at htype
      rw [apply]
      exact hbool (h.admits_comparison htype.1) htype.2

end BinaryOp

/-! ### Members and indices -/

omit [Number α] in
theorem Value.exists_numberMember? {type result : ValueType} {v : Value α} {m : String}
    (h : type.member? m = some result) (hany : type.mentionsAny = false)
    (hrecord : ∀ fields, type ≠ .record fields) (hv : type.Admits widened v) :
    ∃ x, v.numberMember? m = some x ∧ result = .scalar := by
  have hnames : ∀ {names : List String}, (∀ n ∈ names, ∃ x, v.numberMember? n = some x) →
      (if names.contains m then some ValueType.scalar else none) = some result →
        ∃ x, v.numberMember? m = some x ∧ result = .scalar := by
    intro names hnames h
    rw [Option.ite_none_right_eq_some, List.contains_iff_mem] at h
    obtain ⟨x, hx⟩ := hnames m h.1
    exact ⟨x, hx, (Option.some.inj h.2).symm⟩
  cases type with
  | any => cases hany
  | record fields => exact absurd rfl (hrecord fields)
  | rect | size | point | margins | color =>
      obtain ⟨parts, rfl⟩ := hv
      exact hnames (by simp [numberMember?]) h
  | _ => cases h

omit [Number α] in
/-- A value has the members that its type has. -/
theorem Value.admits_member {type result : ValueType} {v : Value α} {m : String}
    (h : type.member? m = some result) (hany : type.mentionsAny = false)
    (hv : type.Admits widened v) : ∃ w, v.member m = .ok w ∧ result.Admits widened w := by
  by_cases hrecord : ∃ fields, type = .record fields
  · obtain ⟨fields, rfl⟩ := hrecord
    obtain ⟨values, rfl, _, hvalues⟩ := hv
    obtain ⟨w, hw, hadmits⟩ := hvalues.exists_of_get? h
    exact ⟨w, by simp [member, hw], hadmits⟩
  · have hrecord := not_exists.mp hrecord
    obtain ⟨x, hx, rfl⟩ := exists_numberMember? h hany hrecord hv
    refine ⟨.scalar x, ?_, .inl ⟨x, rfl⟩⟩
    cases v with
    | record fields => cases hx
    | _ => simp [member, hx]

/-- An index into a list gives an item or is out of range; a number that came of integers may not
be whole. -/
theorem Value.delivers_item {item : ValueType} {v i : Value α}
    (hv : (ValueType.list item).Admits widened v) (hi : ValueType.int.Admits widened i)
    (hcasts : widened → casts) : Delivers casts (item.Admits widened) (v.item i) := by
  obtain ⟨items, rfl, hitems⟩ := hv
  have hindex : Delivers casts (fun _ => True) i.asIndex := by
    rcases hi with ⟨n, rfl⟩ | ⟨hwidened, x, rfl⟩
    · trivial
    · simp only [asIndex]
      split
      · trivial
      · exact hcasts hwidened
  refine Delivers.bind hindex fun n _ _ => ?_
  split
  · rename_i w hw
    rw [Option.ite_none_left_eq_some] at hw
    exact hitems w (List.mem_of_getElem? hw.2)
  · trivial

end PatternMarkup
