import PatternMarkup.Number.Double
import PatternMarkup.Proofs.Formula.ErrorSources
/-!
Integers in operators and functions. A result of integers is the exact one as an integer if it fits
64 bits, and a number if it does not. Two results are not: the least integer is its own absolute
value, and its remainder by minus one is a number. The bounds of `clamp` are compared only one way,
which lets a bound pass that is not a number.
-/

namespace PatternMarkup

variable {α : Type}

/-! ### Integers of 64 bits -/

namespace Number

theorem fitsInt_iff {n : Int} :
    fitsInt n = true ↔ -9223372036854775808 ≤ n ∧ n ≤ 9223372036854775807 :=
  decide_eq_true_iff

theorem fitsInt_toInt (n : Int64) : fitsInt n.toInt = true := by
  have hleast := n.le_toInt
  have hgreatest := n.toInt_lt
  rw [fitsInt_iff]
  omega

theorem toInt_ofInt_of_fitsInt {n : Int} (h : fitsInt n = true) : (Int64.ofInt n).toInt = n := by
  rw [fitsInt_iff] at h
  exact Int64.toInt_ofInt_of_le (by omega) (by omega)

end Number

open Number (fitsInt leastInt)

/-- The value is the integer if that fits 64 bits, and a number if it does not. -/
inductive Value.IsExactly (n : Int) : Value α → Prop
  | int (k : Int64) (h : k.toInt = n) : IsExactly n (.int k)
  | scalar (x : α) (h : fitsInt n = false) : IsExactly n (.scalar x)

theorem Value.isExactly_ofInt {n : Int} (h : fitsInt n = true) :
    (Value.int (Int64.ofInt n) : Value α).IsExactly n :=
  .int _ (Number.toInt_ofInt_of_fitsInt h)

/-- The exact result is there: an integer or a number, by whether it fits. -/
def IsExactResult (n : Int) (result : Except EvalError (Value α)) : Prop :=
  ∃ v, result = .ok v ∧ v.IsExactly n

variable [Number α]

/-! ### Operators -/

namespace BinaryOp

/-- The exact results of sums, differences and products. -/
def onIntegers? : BinaryOp → Option (Int → Int → Int)
  | add => some (· + ·)
  | subtract => some (· - ·)
  | multiply => some (· * ·)
  | _ => none

theorem isExactResult_arithmetic (op : BinaryOp) (ints : Int → Int → Int) (reals : α → α → α)
    (m n : Int64) :
    IsExactResult (ints m.toInt n.toInt) (arithmetic op ints reals (.int m) (.int n)) := by
  unfold arithmetic onInts?
  by_cases h : fitsInt (ints m.toInt n.toInt) = true
  · simp only [h, if_true]
    exact ⟨_, rfl, Value.isExactly_ofInt h⟩
  · simp only [h]
    exact ⟨_, rfl, .scalar _ (Bool.eq_false_iff.mpr h)⟩

theorem isExactResult_apply {op : BinaryOp} {f : Int → Int → Int} (hop : op.onIntegers? = some f)
    (m n : Int64) :
    IsExactResult (f m.toInt n.toInt) (op.apply (.int m : Value α) (.int n)) := by
  cases op with
  | add | subtract | multiply =>
      obtain rfl := Option.some.inj hop
      exact isExactResult_arithmetic _ _ _ m n
  | _ => cases hop

theorem fitsInt_emod (m n : Int64) : fitsInt (m.toInt % n.toInt) = true := by
  by_cases hn : n.toInt = 0
  · rw [hn, Int.emod_zero]
    exact Number.fitsInt_toInt m
  · have hleast := Int.emod_nonneg m.toInt hn
    have hgreatest := Int.emod_lt m.toInt hn
    have hbound := Number.fitsInt_iff.mp (Number.fitsInt_toInt n)
    rw [Number.fitsInt_iff]
    omega

theorem apply_modulo_of_zero (m : Int64) {n : Int64}
    (hzero : (Number.ofInt64 n == (Number.zero : α)) = true) :
    modulo.apply (.int m : Value α) (.int n) = .error .divisionByZero := by
  simp only [apply, numbers, Value.number?, bind, Except.bind, hzero, if_true]
  rfl

/-- Remainders are exact but for the least integer by minus one. -/
theorem isExactResult_modulo {m n : Int64}
    (hzero : (Number.ofInt64 n == (Number.zero : α)) = false)
    (h : ¬ (m.toInt = leastInt ∧ n.toInt = -1)) :
    IsExactResult (m.toInt % n.toInt) (modulo.apply (.int m : Value α) (.int n)) := by
  have happly : modulo.apply (.int m : Value α) (.int n) = remainder (.int m) (.int n) := by
    simp [apply, numbers, Value.number?, hzero, bind, Except.bind]
  rw [happly, remainder, if_neg h]
  exact ⟨_, rfl, Value.isExactly_ofInt (fitsInt_emod m n)⟩

end BinaryOp

theorem UnaryOp.isExactResult_negate (n : Int64) :
    IsExactResult (-n.toInt) (negate.apply (.int n : Value α)) := by
  unfold apply
  by_cases h : fitsInt (-n.toInt) = true
  · simp only [h, if_true]
    exact ⟨_, rfl, Value.isExactly_ofInt h⟩
  · simp only [h]
    exact ⟨_, rfl, .scalar _ (Bool.eq_false_iff.mpr h)⟩

/-! ### Functions -/

namespace Builtin

theorem isExactResult_abs {n : Int64} (h : n.toInt ≠ leastInt) :
    IsExactResult n.toInt.natAbs (abs.call [(.int n : Value α)]) := by
  have hfits : fitsInt n.toInt.natAbs = true := by
    have hn := Number.fitsInt_iff.mp (Number.fitsInt_toInt n)
    rw [leastInt] at h
    rw [Number.fitsInt_iff]
    omega
  exact ⟨_, rfl, Value.isExactly_ofInt hfits⟩

omit [Number α] in
theorem ints?_map_int (ns : List Int64) : ints? (ns.map (.int : Int64 → Value α)) = some ns := by
  induction ns with
  | nil => rfl
  | cons n rest ih => rw [List.map_cons, ints?, ih, Option.map_some]

theorem toInt_foldl {f : Int64 → Int64 → Int64} {g : Int → Int → Int}
    (h : ∀ m n, (f m n).toInt = g m.toInt n.toInt) (n : Int64) (rest : List Int64) :
    (rest.foldl f n).toInt = (rest.map Int64.toInt).foldl g n.toInt := by
  induction rest generalizing n with
  | nil => rfl
  | cons m rest ih => rw [List.foldl_cons, ih, h, List.map_cons, List.foldl_cons]

theorem isExactResult_extreme (b : Builtin) {ofInts : Int64 → Int64 → Int64}
    {g : Int → Int → Int} (h : ∀ m n, (ofInts m n).toInt = g m.toInt n.toInt)
    (ofReals : α → α → α) (n : Int64) (rest : List Int64) :
    IsExactResult ((rest.map Int64.toInt).foldl g n.toInt)
      (b.extreme ofInts ofReals ((n :: rest).map .int)) := by
  unfold extreme
  rw [ints?_map_int]
  exact ⟨_, rfl, .int _ (toInt_foldl h n rest)⟩

/-- The lesser of two integers of 64 bits is that of the integers they stand for. -/
theorem toInt_lesser (m n : Int64) :
    (if n < m then n else m).toInt = Min.min m.toInt n.toInt := by
  simp only [apply_ite Int64.toInt, Int64.lt_iff_toInt_lt]
  omega

theorem toInt_greater (m n : Int64) :
    (if m < n then n else m).toInt = Max.max m.toInt n.toInt := by
  simp only [apply_ite Int64.toInt, Int64.lt_iff_toInt_lt]
  omega

theorem isExactResult_min {ns : List Int64} {k : Int} (hk : (ns.map Int64.toInt).min? = some k) :
    IsExactResult k (min.call (ns.map (.int : Int64 → Value α))) := by
  cases ns with
  | nil => cases hk
  | cons n rest =>
      rw [List.map_cons, List.min?_cons'] at hk
      obtain rfl := Option.some.inj hk
      exact isExactResult_extreme .min toInt_lesser Number.min n rest

theorem isExactResult_max {ns : List Int64} {k : Int} (hk : (ns.map Int64.toInt).max? = some k) :
    IsExactResult k (max.call (ns.map (.int : Int64 → Value α))) := by
  cases ns with
  | nil => cases hk
  | cons n rest =>
      rw [List.map_cons, List.max?_cons'] at hk
      obtain rfl := Option.some.inj hk
      exact isExactResult_extreme .max toInt_greater Number.max n rest

omit [Number α] in
/-- The items of a range follow one another from its start, which fits 64 bits as all of them do. -/
theorem isExactly_of_mem_rangeValues {start stop : Int} (hstart : fitsInt start = true)
    (hstop : fitsInt stop = true) {i : Nat} {v : Value α}
    (h : (rangeValues start stop)[i]? = some v) : v.IsExactly (start + i) := by
  rw [rangeValues, List.getElem?_map, Option.map_eq_some_iff] at h
  obtain ⟨j, hj, rfl⟩ := h
  obtain ⟨hi, rfl⟩ := List.getElem?_eq_some_iff.mp hj
  rw [List.length_range] at hi
  rw [List.getElem_range]
  rw [Number.fitsInt_iff] at hstart hstop
  have hfits : fitsInt (start + i) = true := by
    rw [Number.fitsInt_iff]
    omega
  exact Value.isExactly_ofInt hfits

theorem exists_of_rangeOf {start stop : α} {v : Value α} (h : rangeOf start stop = .ok v) :
    v = .list (rangeValues (Number.toInt (Number.trunc start))
      (Number.toInt (Number.trunc stop))) := by
  unfold rangeOf at h
  split at h
  · cases h
  · simp only at h
    split at h
    · cases h
    · exact (Except.ok.inj h).symm

theorem exists_rangeOf_of_call {arguments : List (Value α)} {v : Value α}
    (h : range.call arguments = .ok v) : ∃ start stop : α, rangeOf start stop = .ok v := by
  rw [call] at h
  split at h
  · rename_i hcount
    have h : range.numbers arguments >>= range.ofNumbers = .ok v := h
    obtain ⟨xs, hxs, h⟩ := FormulaParser.exists_of_bind_eq_ok h
    rw [← length_numbers hxs] at hcount
    match xs, Arity.accepts_between.mp hcount with
    | [stop], _ => exact ⟨_, stop, h⟩
    | [start, stop], _ => exact ⟨start, stop, h⟩
  · cases h

/-- Ranges hold integers that follow one another, if numbers are brought into 64 bits. -/
theorem isExactly_range (hfits : ∀ x : α, fitsInt (Number.toInt x) = true)
    {arguments : List (Value α)} {v : Value α} (h : range.call arguments = .ok v) :
    ∃ (start : Int) (items : List (Value α)), v = .list items ∧
      ∀ (i : Nat) (w : Value α), items[i]? = some w → w.IsExactly (start + i) := by
  obtain ⟨start, stop, hrange⟩ := exists_rangeOf_of_call h
  exact ⟨_, _, exists_of_rangeOf hrange, fun i w hw =>
    isExactly_of_mem_rangeValues (hfits _) (hfits _) hw⟩

/-- `clamp` refuses bounds only where the upper one is below the lower one. -/
theorem call_clamp {v low high : Value α} {x l h : α} (hv : v.number? = some x)
    (hlow : low.number? = some l) (hhigh : high.number? = some h) :
    clamp.call [v, low, high] =
      if h < l then .error (clamp.refuse "lower bound above upper bound")
      else .ok (.scalar (Number.clamp x l h)) := by
  change clamp.numbers [v, low, high] >>= clamp.ofNumbers = _
  simp [numbers, number, hv, hlow, hhigh, bind, Except.bind, pure, Except.pure, ofNumbers]

end Builtin

/-- Sums, differences, products, negations, remainders, absolute values, the least and the greatest
of integers are exact, and so are the items of ranges. A function that has as many arguments as it
takes fails for their values only, and `clamp` refuses its bounds where the upper one is below the
lower one. -/
theorem integers_exact (hfits : ∀ x : α, fitsInt (Number.toInt x) = true) :
    (∀ (op : BinaryOp) (f : Int → Int → Int), op.onIntegers? = some f → ∀ m n : Int64,
      IsExactResult (f m.toInt n.toInt) (op.apply (.int m : Value α) (.int n))) ∧
    (∀ n : Int64, IsExactResult (-n.toInt) (UnaryOp.negate.apply (.int n : Value α))) ∧
    (∀ m n : Int64, (Number.ofInt64 n == (Number.zero : α)) = true →
      BinaryOp.modulo.apply (.int m : Value α) (.int n) = .error .divisionByZero) ∧
    (∀ m n : Int64, (Number.ofInt64 n == (Number.zero : α)) = false →
      ¬ (m.toInt = leastInt ∧ n.toInt = -1) →
        IsExactResult (m.toInt % n.toInt) (BinaryOp.modulo.apply (.int m : Value α) (.int n))) ∧
    (∀ n : Int64, n.toInt ≠ leastInt →
      IsExactResult n.toInt.natAbs (Builtin.abs.call [(.int n : Value α)])) ∧
    (∀ (ns : List Int64) (k : Int), (ns.map Int64.toInt).min? = some k →
      IsExactResult k (Builtin.min.call (ns.map (.int : Int64 → Value α)))) ∧
    (∀ (ns : List Int64) (k : Int), (ns.map Int64.toInt).max? = some k →
      IsExactResult k (Builtin.max.call (ns.map (.int : Int64 → Value α)))) ∧
    (∀ (arguments : List (Value α)) (v : Value α), Builtin.range.call arguments = .ok v →
      ∃ (start : Int) (items : List (Value α)), v = .list items ∧
        ∀ (i : Nat) (w : Value α), items[i]? = some w → w.IsExactly (start + i)) ∧
    (∀ (b : Builtin) (arguments : List (Value α)), b.arity.accepts arguments.length = true →
      FailsOnly EvalError.IsOfValues (b.call arguments)) ∧
    ∀ (v low high : Value α) (x l h : α), v.number? = some x → low.number? = some l →
      high.number? = some h →
        ((∃ w, Builtin.clamp.call [v, low, high] = .ok w) ↔ ¬ h < l) := by
  refine ⟨fun op f hop => BinaryOp.isExactResult_apply hop, UnaryOp.isExactResult_negate,
    fun m n => BinaryOp.apply_modulo_of_zero m, fun m n => BinaryOp.isExactResult_modulo,
    fun n => Builtin.isExactResult_abs, fun ns k => Builtin.isExactResult_min,
    fun ns k => Builtin.isExactResult_max, fun arguments v => Builtin.isExactly_range hfits,
    fun b arguments hcount => ?_, fun v low high x l h hv hlow hhigh => ?_⟩
  · rw [Builtin.call, if_pos hcount]
    exact Builtin.failsOnly_evaluate hcount
  · rw [Builtin.call_clamp hv hlow hhigh]
    by_cases hbelow : h < l
    · simp [hbelow]
    · simp [hbelow]

/-- The product `4611686018427387904 * 2` does not fit 64 bits, and the remainder of `-7` by `3` is
not negative. -/
theorem integers_exact_double :
    IsExactResult 9223372036854775808
        (BinaryOp.multiply.apply (.int 4611686018427387904 : Value Float) (.int 2)) ∧
      IsExactResult 2 (BinaryOp.modulo.apply (.int (-7) : Value Float) (.int 3)) := by
  have hfits : ∀ x : Float, fitsInt (Number.toInt x) = true := fun x =>
    Number.fitsInt_toInt x.toInt64
  obtain ⟨hbinary, -, -, hmodulo, -⟩ := integers_exact hfits
  exact ⟨hbinary .multiply (· * ·) rfl 4611686018427387904 2,
    hmodulo (-7) 3 (by decide) (by decide)⟩

/-- The least integer is its own absolute value, its remainder by minus one is a number although
zero fits, and an upper bound of `clamp` passes that is not a number. -/
theorem integers_inexact :
    let least : Int64 := -9223372036854775808
    let bound : Float := Number.ofDecimal 1 999 - Number.ofDecimal 1 999
    (Builtin.abs.call [(.int least : Value Float)] = .ok (.int least) ∧
      ¬ IsExactResult 9223372036854775808 (Builtin.abs.call [(.int least : Value Float)])) ∧
    ((∃ x, BinaryOp.modulo.apply (.int least : Value Float) (.int (-1)) = .ok (.scalar x)) ∧
      ¬ IsExactResult 0 (BinaryOp.modulo.apply (.int least : Value Float) (.int (-1)))) ∧
    (Number.isNaN bound = true ∧
      ∃ w, Builtin.clamp.call [.int 1, .int 0, .scalar bound] = .ok w) := by
  intro least bound
  have habs : Builtin.abs.call [(.int least : Value Float)] = .ok (.int least) := rfl
  have hmodulo : ∃ x, BinaryOp.modulo.apply (.int least : Value Float) (.int (-1)) =
      .ok (.scalar x) := ⟨_, rfl⟩
  refine ⟨⟨habs, ?_⟩, ⟨hmodulo, ?_⟩, by decide, ?_⟩
  · rw [habs]
    rintro ⟨v, hv, hexact⟩
    cases hv
    cases hexact with
    | int k h => exact absurd h (by decide)
  · obtain ⟨x, hx⟩ := hmodulo
    rw [hx]
    rintro ⟨v, hv, hexact⟩
    cases hv
    cases hexact with
    | scalar x h => exact absurd h (by decide)
  · have hbound : ¬ bound < (Number.ofInt64 0 : Float) := by decide
    rw [Builtin.call_clamp rfl rfl rfl, if_neg hbound]
    exact ⟨_, rfl⟩

end PatternMarkup
