import PatternMarkup.Proofs.Formula.ExactIntegers
import PatternMarkup.Proofs.Number.IntegerDoubles
/-!
Comparisons of integers. The operands are compared as doubles, so a comparison is that of the
integers nearest to them: two integers above `2 ^ 53` may count as equal. The order is never turned
round, one of less, equal and greater is always found, and up to `2 ^ 53` comparisons are exact.
-/

namespace PatternMarkup

open Double (nearest)

namespace BinaryOp

/-- The relation of integers that a comparison stands for. -/
def relation? : BinaryOp → Option (Int → Int → Bool)
  | equals => some fun a b => decide (a = b)
  | notEquals => some fun a b => !decide (a = b)
  | lessThan => some fun a b => decide (a < b)
  | lessThanOrEqual => some fun a b => decide (a ≤ b)
  | greaterThan => some fun a b => decide (b < a)
  | greaterThanOrEqual => some fun a b => decide (b ≤ a)
  | _ => none

/-- The comparison of two integers is true. -/
def IsTrueOf (op : BinaryOp) (a b : Int64) : Prop :=
  op.apply (.int a : Value Float) (.int b) = .ok (.bool true)

theorem holds_ofInt64 (n : Int64) :
    Double.Holds (Number.ofInt64 n : Float).toModel.unpack (nearest n.toInt) := by
  refine Double.holds_ofInt ?_
  have hleast := n.le_toInt
  have hgreatest := n.toInt_lt
  omega

/-- Comparing two integers compares the integers nearest to them. -/
theorem apply_ints {op : BinaryOp} {r : Int → Int → Bool} (hop : op.relation? = some r)
    (a b : Int64) :
    op.apply (.int a : Value Float) (.int b) =
      .ok (.bool (r (nearest a.toInt) (nearest b.toInt))) := by
  have ha := holds_ofInt64 a
  have hb := holds_ofInt64 b
  have hequals : ((Number.ofInt64 a : Float) == Number.ofInt64 b) =
      decide (nearest a.toInt = nearest b.toInt) :=
    Bool.eq_iff_iff.mpr ((Double.beq_iff_of_holds ha hb).trans decide_eq_true_iff.symm)
  let result : Bool → Except EvalError (Value Float) := fun c => .ok (.bool c)
  cases op with
  | equals =>
      obtain rfl := Option.some.inj hop
      exact congrArg result hequals
  | notEquals =>
      obtain rfl := Option.some.inj hop
      exact congrArg (result ∘ not) hequals
  | lessThan =>
      obtain rfl := Option.some.inj hop
      exact congrArg result (decide_eq_decide.mpr (Double.lt_iff_of_holds ha hb))
  | lessThanOrEqual =>
      obtain rfl := Option.some.inj hop
      exact congrArg result (decide_eq_decide.mpr (Double.le_iff_of_holds ha hb))
  | greaterThan =>
      obtain rfl := Option.some.inj hop
      exact congrArg result (decide_eq_decide.mpr (Double.lt_iff_of_holds hb ha))
  | greaterThanOrEqual =>
      obtain rfl := Option.some.inj hop
      exact congrArg result (decide_eq_decide.mpr (Double.le_iff_of_holds hb ha))
  | _ => cases hop

/-- A comparison is exact unless the nearest of two different integers are the same. -/
theorem relation_nearest {op : BinaryOp} {r : Int → Int → Bool} (hop : op.relation? = some r)
    {a b : Int} (h : nearest a = nearest b → a = b) : r (nearest a) (nearest b) = r a b := by
  have heq : nearest a = nearest b ↔ a = b := ⟨h, congrArg nearest⟩
  have hle : nearest a ≤ nearest b ↔ a ≤ b := by
    refine ⟨fun hle => ?_, Double.nearest_mono⟩
    by_contra hmore
    have hback := Double.nearest_mono (Int.le_of_lt (Int.not_le.mp hmore))
    exact hmore (Int.le_of_eq (h (Int.le_antisymm hle hback)))
  have hge : nearest b ≤ nearest a ↔ b ≤ a := by
    refine ⟨fun hge => ?_, Double.nearest_mono⟩
    by_contra hless
    have hback := Double.nearest_mono (Int.le_of_lt (Int.not_le.mp hless))
    exact hless (Int.le_of_eq (h (Int.le_antisymm hback hge)).symm)
  have hlt : nearest a < nearest b ↔ a < b := by rw [← Int.not_le, ← Int.not_le, hge]
  have hgt : nearest b < nearest a ↔ b < a := by rw [← Int.not_le, ← Int.not_le, hle]
  cases op <;> cases hop <;> simp only [heq, hle, hge, hlt, hgt]

/-- All comparisons of two integers are exact just if they are not two that are rounded to the same
one: equality tells whether they are. -/
theorem exact_iff (a b : Int64) :
    (∀ (op : BinaryOp) (r : Int → Int → Bool), op.relation? = some r →
        op.apply (.int a : Value Float) (.int b) = .ok (.bool (r a.toInt b.toInt))) ↔
      (nearest a.toInt = nearest b.toInt → a = b) := by
  constructor
  · intro hexact hsame
    have hequals := hexact equals _ rfl
    rw [apply_ints rfl, decide_eq_true hsame, Except.ok.injEq, Value.bool.injEq] at hequals
    exact Int64.toInt_inj.mp (of_decide_eq_true hequals.symm)
  · intro h op r hop
    have hint : nearest a.toInt = nearest b.toInt → a.toInt = b.toInt := fun heq =>
      congrArg Int64.toInt (h heq)
    rw [apply_ints hop, relation_nearest hop hint]

theorem isTrueOf_iff {op : BinaryOp} {r : Int → Int → Bool} (hop : op.relation? = some r)
    (a b : Int64) : op.IsTrueOf a b ↔ r (nearest a.toInt) (nearest b.toInt) = true := by
  rw [IsTrueOf, apply_ints hop, Except.ok.injEq, Value.bool.injEq]

theorem equals_isTrueOf (a b : Int64) :
    equals.IsTrueOf a b ↔ nearest a.toInt = nearest b.toInt :=
  (isTrueOf_iff rfl a b).trans decide_eq_true_iff

theorem lessThan_isTrueOf (a b : Int64) :
    lessThan.IsTrueOf a b ↔ nearest a.toInt < nearest b.toInt :=
  (isTrueOf_iff rfl a b).trans decide_eq_true_iff

theorem greaterThan_isTrueOf (a b : Int64) :
    greaterThan.IsTrueOf a b ↔ nearest b.toInt < nearest a.toInt :=
  (isTrueOf_iff rfl a b).trans decide_eq_true_iff

/-- The lesser integer is found not to be above the greater one. -/
theorem lessThanOrEqual_isTrueOf {a b : Int64} (h : a.toInt ≤ b.toInt) :
    lessThanOrEqual.IsTrueOf a b :=
  (isTrueOf_iff rfl a b).mpr (decide_eq_true (Double.nearest_mono h))

end BinaryOp

namespace Builtin

theorem exists_of_isExactResult {ns : List Int64} {k : Int}
    {result : Except EvalError (Value Float)}
    (hk : k ∈ ns.map Int64.toInt) (h : IsExactResult k result) :
    ∃ n ∈ ns, n.toInt = k ∧ result = .ok (.int n) := by
  obtain ⟨n, hn, rfl⟩ := List.mem_map.mp hk
  obtain ⟨v, rfl, hv⟩ := h
  cases hv with
  | int m hm => exact ⟨n, hn, rfl, by rw [Int64.toInt_inj.mp hm]⟩
  | scalar x hx => exact absurd (Number.fitsInt_toInt n) (Bool.eq_false_iff.mp hx)

/-- The least of some integers is one of them, and none compares below it. -/
theorem exists_min {ns : List Int64} (h : ns ≠ []) :
    ∃ n ∈ ns, min.call (ns.map (.int : Int64 → Value Float)) = .ok (.int n) ∧
      ∀ k ∈ ns, BinaryOp.lessThanOrEqual.IsTrueOf n k := by
  obtain ⟨least, hleast⟩ : ∃ least, (ns.map Int64.toInt).min? = some least :=
    Option.isSome_iff_exists.mp (List.isSome_min?_of_ne_nil (by simpa using h))
  obtain ⟨hmem, hle⟩ := List.min?_eq_some_iff.mp hleast
  obtain ⟨n, hn, rfl, hcall⟩ := exists_of_isExactResult hmem (isExactResult_min hleast)
  exact ⟨n, hn, hcall, fun k hk =>
    BinaryOp.lessThanOrEqual_isTrueOf (hle _ (List.mem_map_of_mem hk))⟩

/-- The greatest of some integers is one of them, and none compares above it. -/
theorem exists_max {ns : List Int64} (h : ns ≠ []) :
    ∃ n ∈ ns, max.call (ns.map (.int : Int64 → Value Float)) = .ok (.int n) ∧
      ∀ k ∈ ns, BinaryOp.lessThanOrEqual.IsTrueOf k n := by
  obtain ⟨greatest, hgreatest⟩ : ∃ greatest, (ns.map Int64.toInt).max? = some greatest :=
    Option.isSome_iff_exists.mp (List.isSome_max?_of_ne_nil (by simpa using h))
  obtain ⟨hmem, hle⟩ := List.max?_eq_some_iff.mp hgreatest
  obtain ⟨n, hn, rfl, hcall⟩ := exists_of_isExactResult hmem (isExactResult_max hgreatest)
  exact ⟨n, hn, hcall, fun k hk =>
    BinaryOp.lessThanOrEqual_isTrueOf (hle _ (List.mem_map_of_mem hk))⟩

/-- Of two integers the greater one is told by their own order. -/
theorem max_pair (a b : Int64) :
    max.call [.int a, (.int b : Value Float)] = .ok (.int (if a < b then b else a)) := rfl

end Builtin

/-- Comparing two integers gives the truth of the relation between the integers nearest to them
among those of 53 bits. So all comparisons of two integers are exact just if they are not rounded to
the same one, as up to `2 ^ 53`. For any two integers one of less, equal and greater is true;
equality is transitive; and the least and the greatest of some integers compare as such to all of
them. -/
theorem integers_compared (a b : Int64) :
    (∀ (op : BinaryOp) (r : Int → Int → Bool), op.relation? = some r →
      op.apply (.int a : Value Float) (.int b) =
        .ok (.bool (r (nearest a.toInt) (nearest b.toInt)))) ∧
    ((∀ (op : BinaryOp) (r : Int → Int → Bool), op.relation? = some r →
        op.apply (.int a : Value Float) (.int b) = .ok (.bool (r a.toInt b.toInt))) ↔
      (nearest a.toInt = nearest b.toInt → a = b)) ∧
    (∀ n : Int, n.natAbs ≤ 2 ^ 53 → nearest n = n) ∧
    ((BinaryOp.lessThan.IsTrueOf a b ∧ ¬ BinaryOp.equals.IsTrueOf a b ∧
        ¬ BinaryOp.greaterThan.IsTrueOf a b) ∨
      (¬ BinaryOp.lessThan.IsTrueOf a b ∧ BinaryOp.equals.IsTrueOf a b ∧
        ¬ BinaryOp.greaterThan.IsTrueOf a b) ∨
      (¬ BinaryOp.lessThan.IsTrueOf a b ∧ ¬ BinaryOp.equals.IsTrueOf a b ∧
        BinaryOp.greaterThan.IsTrueOf a b)) ∧
    (∀ c : Int64, BinaryOp.equals.IsTrueOf a b → BinaryOp.equals.IsTrueOf b c →
      BinaryOp.equals.IsTrueOf a c) ∧
    (∀ ns : List Int64, ns ≠ [] →
      (∃ n ∈ ns, Builtin.min.call (ns.map (.int : Int64 → Value Float)) = .ok (.int n) ∧
        ∀ k ∈ ns, BinaryOp.lessThanOrEqual.IsTrueOf n k) ∧
      ∃ n ∈ ns, Builtin.max.call (ns.map (.int : Int64 → Value Float)) = .ok (.int n) ∧
        ∀ k ∈ ns, BinaryOp.lessThanOrEqual.IsTrueOf k n) := by
  refine ⟨fun op r hop => BinaryOp.apply_ints hop a b, BinaryOp.exact_iff a b,
    fun n => Double.nearest_of_natAbs_le, ?_, fun c hab hbc => ?_,
    fun ns hns => ⟨Builtin.exists_min hns, Builtin.exists_max hns⟩⟩
  · rw [BinaryOp.lessThan_isTrueOf, BinaryOp.equals_isTrueOf, BinaryOp.greaterThan_isTrueOf]
    omega
  · rw [BinaryOp.equals_isTrueOf] at *
    exact hab.trans hbc

/-- Two integers that follow one another compare as equal, although the functions and the equality
of lists tell them apart. -/
theorem integers_confused :
    let a : Int64 := 9007199254740992
    let b : Int64 := 9007199254740993
    a.toInt < b.toInt ∧
      BinaryOp.equals.apply (.int a : Value Float) (.int b) = .ok (.bool true) ∧
      BinaryOp.lessThan.apply (.int a : Value Float) (.int b) = .ok (.bool false) ∧
      BinaryOp.equals.apply (.list [.int a] : Value Float) (.list [.int b]) = .ok (.bool false) ∧
      Builtin.max.call [.int a, (.int b : Value Float)] = .ok (.int b) := by
  intro a b
  have hdifferent : (a == b && true) = false := by decide
  have hless : a < b := by decide
  have hsame : nearest a.toInt = nearest b.toInt := by decide
  refine ⟨by decide, ?_, ?_, ?_, by rw [Builtin.max_pair, if_pos hless]⟩
  · rw [BinaryOp.apply_ints rfl, decide_eq_true hsame]
  · rw [BinaryOp.apply_ints rfl, hsame, decide_eq_false (Int.lt_irrefl _)]
  · exact congrArg (fun c => Except.ok (Value.bool c)) hdifferent

end PatternMarkup
