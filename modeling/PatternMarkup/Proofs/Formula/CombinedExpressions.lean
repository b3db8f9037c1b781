import PatternMarkup.Proofs.Formula.Delivery
import PatternMarkup.Proofs.Formula.FoldedReading
/-!
Expressions combined by an operator. Two constants are combined as values of their type. With a
formula on either side the trees are joined, so the operator is applied to the values of the trees
as they are, and only its result is brought to the type. Both are the same unless an operand is a
value of another kind that the operator takes: two integers for numbers, a number that is no integer
for integers, a point and a number for points, two numbers for margins.
-/

namespace PatternMarkup

variable {α : Type} [Number α]

/-! ### Arithmetic -/

/-- Whether a value is of a kind that is calculated. -/
def Value.isCalculated : Value α → Bool
  | .scalar _ => true
  | .int _ => true
  | .string _ => true
  | .list _ => true
  | .point _ => true
  | .transform _ => true
  | _ => false

namespace BinaryOp

/-- Whether the operator calculates. -/
def isArithmetic : BinaryOp → Bool
  | add => true
  | subtract => true
  | multiply => true
  | divide => true
  | modulo => true
  | _ => false

/-- What an operator that calculates makes of two values: numbers of numbers, text of text and
anything else, and lists, points and maps of values of their kind. -/
inductive Computes (op : BinaryOp) : Value α → Value α → Value α → Prop
  | numbers {v w r : Value α} (hv : v.number?.isSome) (hw : w.number?.isSome)
      (hr : r.number?.isSome) : Computes op v w r
  | textLeft {w : Value α} {s t : String} (hop : op = add) : Computes op (.string s) w (.string t)
  | textRight {v : Value α} {s t : String} (hop : op = add) : Computes op v (.string s) (.string t)
  | lists {items more : List (Value α)} (hop : op = add) :
      Computes op (.list items) (.list more) (.list (items ++ more))
  | points {p q r : Point α} : Computes op (.point p) (.point q) (.point r)
  | stretchedLeft {p r : Point α} {w : Value α} (hop : op = multiply) (hw : w.number?.isSome) :
      Computes op (.point p) w (.point r)
  | stretchedRight {v : Value α} {q r : Point α} (hop : op = multiply) (hv : v.number?.isSome) :
      Computes op v (.point q) (.point r)
  | transforms {m n k : Transform α} : Computes op (.transform m) (.transform n) (.transform k)

variable {op : BinaryOp} {v w r : Value α}

theorem exists_of_numbers {xy : α × α} (h : op.numbers v w = .ok xy) :
    v.number? = some xy.1 ∧ w.number? = some xy.2 := by
  unfold numbers at h
  split at h
  · rename_i x y hx hy
    cases h
    exact ⟨hx, hy⟩
  · cases h

theorem computes_arithmetic {ints : Int → Int → Int} {reals : α → α → α}
    (h : arithmetic op ints reals v w = .ok r) : Computes op v w r := by
  unfold arithmetic at h
  split at h
  · rename_i u hu
    cases h
    unfold onInts? at hu
    split at hu
    · dsimp only at hu
      split at hu
      · cases hu
        exact .numbers rfl rfl rfl
      · cases hu
    · cases hu
  · cases hxy : op.numbers v w with
    | error e =>
        rw [hxy] at h
        cases h
    | ok xy =>
        rw [hxy] at h
        cases h
        obtain ⟨hx, hy⟩ := exists_of_numbers hxy
        exact .numbers (by rw [hx]; rfl) (by rw [hy]; rfl) rfl

theorem computes_sum (h : sum v w = .ok r) : Computes add v w r := by
  unfold sum at h
  split at h
  · cases h
    exact .textLeft rfl
  · cases h
    exact .textRight rfl
  · cases h
    exact .lists rfl
  · cases h
    exact .points
  · exact computes_arithmetic h

theorem computes_product (h : product v w = .ok r) : Computes multiply v w r := by
  unfold product at h
  dsimp only at h
  split at h
  · cases h
    exact .transforms
  · split at h
    · rename_i k hk
      cases h
      exact .stretchedLeft rfl (by rw [hk]; rfl)
    · exact computes_arithmetic h
  · split at h
    · rename_i k hk
      cases h
      exact .stretchedRight rfl (by rw [hk]; rfl)
    · exact computes_arithmetic h
  · exact computes_arithmetic h

theorem computes_remainder (h : remainder v w = .ok r) : Computes modulo v w r := by
  unfold remainder at h
  split at h
  · split at h
    · cases h
      exact .numbers rfl rfl rfl
    · cases h
      exact .numbers rfl rfl rfl
  · exact computes_arithmetic h

/-- The results of an operator that calculates. -/
theorem computes_apply (hop : op.isArithmetic = true) (h : op.apply v w = .ok r) :
    Computes op v w r := by
  cases op with
  | add => exact computes_sum h
  | subtract =>
      simp only [apply] at h
      split at h
      · cases h
        exact .points
      · exact computes_arithmetic h
  | multiply => exact computes_product h
  | divide =>
      obtain ⟨xy, hxy, h⟩ := FormulaParser.exists_of_bind_eq_ok h
      obtain ⟨hx, hy⟩ := exists_of_numbers hxy
      obtain ⟨x, y⟩ := xy
      dsimp only at h
      split at h
      · cases h
      · cases h
        exact .numbers (by rw [hx]; rfl) (by rw [hy]; rfl) rfl
  | modulo =>
      obtain ⟨xy, hxy, h⟩ := FormulaParser.exists_of_bind_eq_ok h
      obtain ⟨x, y⟩ := xy
      dsimp only at h
      split at h
      · cases h
      · exact computes_remainder h
  | _ => cases hop

theorem Computes.isCalculated (h : Computes op v w r) : r.isCalculated = true := by
  cases h with
  | numbers hv hw hr => cases r <;> first | rfl | cases hr
  | _ => rfl

theorem numbers_eq {x y : α} (hv : v.number? = some x) (hw : w.number? = some y) :
    op.numbers v w = .ok (x, y) := by
  unfold numbers
  rw [hv, hw]

theorem exists_arithmetic {x y : α} (hv : v.number? = some x) (hw : w.number? = some y)
    (ints : Int → Int → Int) (reals : α → α → α) :
    ∃ r, arithmetic op ints reals v w = .ok r := by
  unfold arithmetic
  split
  · exact ⟨_, rfl⟩
  · rw [numbers_eq hv hw]
    exact ⟨_, rfl⟩

theorem apply_modulo_eq {x y : α} (hv : v.number? = some x) (hw : w.number? = some y) :
    modulo.apply v w = if y == Number.zero then .error .divisionByZero else remainder v w := by
  unfold apply
  rw [numbers_eq hv hw]
  rfl

/-- Integers are calculated with whenever the numbers that they are can be. -/
theorem exists_apply_ints_iff (hop : op.isArithmetic = true) (m n : Int64) :
    (∃ r : Value α, op.apply (.int m) (.int n) = .ok r) ↔
      ∃ r : Value α,
        op.apply (.scalar (Number.ofInt64 m)) (.scalar (Number.ofInt64 n)) = .ok r := by
  cases op with
  | divide => rfl
  | modulo =>
      rw [apply_modulo_eq rfl rfl, apply_modulo_eq rfl rfl]
      split
      · exact iff_of_false nofun nofun
      · refine iff_of_true ?_ ⟨_, rfl⟩
        unfold remainder
        dsimp only
        split <;> exact ⟨_, rfl⟩
  | add => exact iff_of_true (exists_arithmetic rfl rfl _ _) ⟨_, rfl⟩
  | subtract => exact iff_of_true (exists_arithmetic rfl rfl _ _) ⟨_, rfl⟩
  | multiply => exact iff_of_true (exists_arithmetic rfl rfl _ _) ⟨_, rfl⟩
  | _ => cases hop

/-- The operator takes the operands as they are, although brought to the type first they would be
other values, or none. -/
def Mixes (op : BinaryOp) (type : ValueType) (v w : Value α) : Prop :=
  match type, v, w with
  | .scalar, .int _, .int _ => op ≠ .divide
  | .int, .scalar _, _ => True
  | .int, _, .scalar _ => True
  | .point, .point _, w => op = .multiply ∧ w.number?.isSome
  | .point, v, .point _ => op = .multiply ∧ v.number?.isSome
  | .margins, v, w => v.number?.isSome ∧ w.number?.isSome
  | _, _, _ => False

theorem exists_ints_of_mixes (h : op.Mixes .scalar v w) :
    ∃ m n, v = .int m ∧ w = .int n := by
  cases v with
  | int m =>
      cases w with
      | int n => exact ⟨m, n, rfl, rfl⟩
      | _ => cases h
  | _ => cases h

end BinaryOp

/-! ### Types -/

namespace Typed

/-- The types of this library. -/
inductive IsOfLibrary (α : Type) [Number α] : (τ : Type) → Typed α τ → Prop
  | number : IsOfLibrary α α inferInstance
  | int : IsOfLibrary α Int64 inferInstance
  | bool : IsOfLibrary α Bool inferInstance
  | string : IsOfLibrary α String inferInstance
  | path : IsOfLibrary α FilePath inferInstance
  | color : IsOfLibrary α (Color α) inferInstance
  | transform : IsOfLibrary α (Transform α) inferInstance
  | rect : IsOfLibrary α (Rect α) inferInstance
  | size : IsOfLibrary α (Size α) inferInstance
  | point : IsOfLibrary α (Point α) inferInstance
  | margins : IsOfLibrary α (Margins α) inferInstance
  | value : IsOfLibrary α (Value α) inferInstance
  | list {τ : Type} {typed : Typed α τ} (item : IsOfLibrary α τ typed) :
      IsOfLibrary α (List τ) inferInstance

theorem HoldsFormula.isOfLibrary {τ : Type} {typed : Typed α τ} (h : HoldsFormula α τ typed) :
    IsOfLibrary α τ typed := by
  induction h with
  | list item ih => exact .list ih
  | _ => constructor

/-- The value is read as an element of the type. -/
def Reads {τ : Type} [Typed α τ] (v : Value α) (x : τ) : Prop :=
  (ofValue v : Except EvalError τ) = .ok x

variable {τ : Type}

omit [Number α] in
theorem mapM_ofValue_toValue [Typed α τ] (h : ∀ x : τ, Reads (toValue x : Value α) x)
    (xs : List τ) :
    ((xs.map toValue : List (Value α)).mapM ofValue : Except EvalError (List τ)) = .ok xs := by
  induction xs with
  | nil => rfl
  | cons x rest ih =>
      rw [List.map_cons, List.mapM_cons, h, ih]
      rfl

/-- What a type writes it reads. -/
theorem IsOfLibrary.reads_toValue {typed : Typed α τ} (h : IsOfLibrary α τ typed) (x : τ) :
    Reads (toValue x : Value α) x := by
  induction h with
  | list item ih => exact mapM_ofValue_toValue ih x
  | _ => rfl

/-- The value is one that literals of the type can have: text for the types that are written as
text. -/
def IsWritten (type : ValueType) (v : Value α) : Prop :=
  type = .string ∨ type = .path → ∃ s, v = .string s

/-- The result of an operator as an element of a type. -/
def applyAs (τ : Type) [Typed α τ] (op : BinaryOp) (v w : Value α) : Except EvalError τ := do
  ofValue (← op.apply v w)

/-- Applying an operator to two values as they are gives in a type what applying it to them as
elements of the type gives. -/
def Agree (τ : Type) [Typed α τ] (op : BinaryOp) (v w : Value α) : Prop :=
  ∀ x : τ, applyAs τ op v w = .ok x ↔
    ∃ u z : τ, Reads v u ∧ Reads w z ∧ applyAs τ op (toValue u : Value α) (toValue z) = .ok x

variable [Typed α τ] {op : BinaryOp} {v w : Value α}

theorem applyAs_eq_ok_iff {x : τ} :
    applyAs τ op v w = .ok x ↔ ∃ r, op.apply v w = .ok r ∧ Reads r x :=
  bind_eq_ok_iff

/-- The results are the same if both operands are the values that the type writes. -/
theorem agree_of_exact (hv : ∀ u : τ, Reads v u → v = toValue u)
    (hw : ∀ u : τ, Reads w u → w = toValue u)
    (hreads : ∀ (r : Value α) (x : τ), op.apply v w = .ok r → Reads r x →
      (∃ u : τ, Reads v u) ∧ ∃ z : τ, Reads w z) : Agree τ op v w := by
  intro x
  constructor
  · intro h
    obtain ⟨r, hr, hx⟩ := applyAs_eq_ok_iff.mp h
    obtain ⟨⟨u, hu⟩, z, hz⟩ := hreads r x hr hx
    rw [hv u hu, hw z hz] at h
    exact ⟨u, z, hu, hz, h⟩
  · rintro ⟨u, z, hu, hz, h⟩
    rw [hv u hu, hw z hz]
    exact h

/-- The results are the same if the type reads nothing that is calculated. -/
theorem agree_of_never (hop : op.isArithmetic = true)
    (h : ∀ (r : Value α) (x : τ), Reads r x → r.isCalculated = false) : Agree τ op v w := by
  have hnever : ∀ (v w : Value α) (x : τ), applyAs τ op v w ≠ .ok x := by
    intro v w x hx
    obtain ⟨r, hr, hx⟩ := applyAs_eq_ok_iff.mp hx
    have hcalculated := (BinaryOp.computes_apply hop hr).isCalculated
    rw [h r x hx] at hcalculated
    cases hcalculated
  intro x
  constructor
  · intro hx
    exact absurd hx (hnever v w x)
  · rintro ⟨u, z, -, -, hx⟩
    exact absurd hx (hnever _ _ x)

/-! ### Agreement, type by type -/

section

omit [Typed α τ]

theorem reads_number {v : Value α} {x : α} (h : v.number? = some x) : Reads v x := by
  simp only [Reads, ofValue, h]

theorem Reads.number {v : Value α} {x : α} (h : Reads v x) : v.number? = some x := by
  cases hv : v.number? with
  | some y => rw [Except.ok.inj ((reads_number hv).symm.trans h)]
  | none =>
      simp only [Reads, ofValue, hv] at h
      cases h

theorem exists_of_isSome_number? {v : Value α} (h : v.number?.isSome) :
    (∃ x, v = .scalar x) ∨ ∃ n, v = .int n := by
  cases v with
  | scalar x => exact .inl ⟨x, rfl⟩
  | int n => exact .inr ⟨n, rfl⟩
  | _ => cases h

/-- Two numbers are calculated with as such, unless both are integers. -/
theorem apply_of_numbers (hop : op.isArithmetic = true) {x y : α} (hv : v.number? = some x)
    (hw : w.number? = some y) (hmixes : ¬ op.Mixes .scalar v w) :
    op.apply v w = op.apply (.scalar x) (.scalar y) := by
  rcases exists_of_isSome_number? (Option.isSome_of_eq_some hv) with ⟨x, rfl⟩ | ⟨m, rfl⟩ <;>
    rcases exists_of_isSome_number? (Option.isSome_of_eq_some hw) with ⟨y, rfl⟩ | ⟨n, rfl⟩ <;>
    cases hv <;> cases hw
  case inr.inr =>
    obtain rfl : op = .divide := not_not.mp hmixes
    rfl
  all_goals cases op <;> first | rfl | cases hop

theorem agree_number (hop : op.isArithmetic = true) (hmixes : ¬ op.Mixes .scalar v w) :
    Agree α op v w := by
  intro x
  constructor
  · intro h
    obtain ⟨r, hr, hx⟩ := applyAs_eq_ok_iff.mp h
    have hnumbers : v.number?.isSome ∧ w.number?.isSome := by
      have hnumber := hx.number
      cases BinaryOp.computes_apply hop hr with
      | numbers hv hw hr => exact ⟨hv, hw⟩
      | _ => cases hnumber
    obtain ⟨y, hy⟩ := Option.isSome_iff_exists.mp hnumbers.1
    obtain ⟨z, hz⟩ := Option.isSome_iff_exists.mp hnumbers.2
    rw [applyAs, apply_of_numbers hop hy hz hmixes] at h
    exact ⟨y, z, reads_number hy, reads_number hz, h⟩
  · rintro ⟨y, z, hy, hz, h⟩
    rw [applyAs, apply_of_numbers hop hy.number hz.number hmixes]
    exact h

theorem exists_applyAs_numbers_iff (hop : op.isArithmetic = true) (hv : v.number?.isSome)
    (hw : w.number?.isSome) : (∃ x, applyAs α op v w = .ok x) ↔ ∃ r, op.apply v w = .ok r := by
  constructor
  · rintro ⟨x, hx⟩
    obtain ⟨r, hr, -⟩ := applyAs_eq_ok_iff.mp hx
    exact ⟨r, hr⟩
  · rintro ⟨r, hr⟩
    have hnumber : r.number?.isSome := by
      cases BinaryOp.computes_apply hop hr with
      | numbers hv hw hr => exact hr
      | _ => first | cases hv | cases hw
    obtain ⟨x, hx⟩ := Option.isSome_iff_exists.mp hnumber
    exact ⟨x, applyAs_eq_ok_iff.mpr ⟨r, hr, reads_number hx⟩⟩

/-- Integers that are mixed with numbers change a result, but not whether there is one. -/
theorem exists_applyAs_number_iff (hop : op.isArithmetic = true) (v w : Value α) :
    (∃ x, applyAs α op v w = .ok x) ↔
      ∃ x u z : α, Reads v u ∧ Reads w z ∧ applyAs α op (.scalar u) (.scalar z) = .ok x := by
  by_cases hmixes : op.Mixes .scalar v w
  · obtain ⟨m, n, rfl, rfl⟩ := BinaryOp.exists_ints_of_mixes hmixes
    rw [exists_applyAs_numbers_iff hop rfl rfl, BinaryOp.exists_apply_ints_iff hop,
      ← exists_applyAs_numbers_iff hop rfl rfl]
    refine exists_congr fun x => ⟨fun h => ⟨_, _, rfl, rfl, h⟩, ?_⟩
    rintro ⟨_, _, ⟨⟩, ⟨⟩, h⟩
    exact h
  · exact exists_congr fun x => agree_number hop hmixes x

theorem agree_int (hop : op.isArithmetic = true) (hmixes : ¬ op.Mixes .int v w) :
    Agree Int64 op v w := by
  have hexact : ∀ {v : Value α} {n : Int64}, (∀ x, v ≠ .scalar x) → Reads v n → v = .int n := by
    intro v n hscalar h
    cases v with
    | int m =>
        obtain rfl : m = n := Except.ok.inj h
        rfl
    | scalar x => exact absurd rfl (hscalar x)
    | _ => cases h
  have hv : ∀ x, v ≠ .scalar x := by
    rintro x rfl
    exact hmixes trivial
  have hw : ∀ x, w ≠ .scalar x := by
    rintro x rfl
    cases v <;> exact hmixes trivial
  refine agree_of_exact (fun u => hexact hv) (fun u => hexact hw) fun r n hr hn => ?_
  cases BinaryOp.computes_apply hop hr with
  | numbers hleft hright hr =>
      rcases exists_of_isSome_number? hleft with ⟨x, rfl⟩ | ⟨m, rfl⟩
      · exact absurd rfl (hv x)
      · rcases exists_of_isSome_number? hright with ⟨x, rfl⟩ | ⟨k, rfl⟩
        · exact absurd rfl (hw x)
        · exact ⟨⟨m, rfl⟩, k, rfl⟩
  | _ => cases hn

theorem agree_string (hv : IsWritten .string v) (hw : IsWritten .string w) :
    Agree String op v w := by
  obtain ⟨s, rfl⟩ := hv (.inl rfl)
  obtain ⟨t, rfl⟩ := hw (.inl rfl)
  refine agree_of_exact ?_ ?_ fun _ _ _ _ => ⟨⟨s, rfl⟩, t, rfl⟩
  · rintro u ⟨⟩
    rfl
  · rintro u ⟨⟩
    rfl

theorem agree_path (hv : IsWritten .path v) (hw : IsWritten .path w) :
    Agree FilePath op v w := by
  obtain ⟨s, rfl⟩ := hv (.inr rfl)
  obtain ⟨t, rfl⟩ := hw (.inr rfl)
  refine agree_of_exact ?_ ?_ fun _ _ _ _ => ⟨⟨⟨s⟩, rfl⟩, ⟨t⟩, rfl⟩
  · rintro u ⟨⟩
    rfl
  · rintro u ⟨⟩
    rfl

theorem agree_transform (hop : op.isArithmetic = true) : Agree (Transform α) op v w := by
  have hexact : ∀ {v : Value α} {m : Transform α}, Reads v m → v = .transform m := by
    intro v m h
    cases v <;> cases h
    rfl
  refine agree_of_exact (fun _ => hexact) (fun _ => hexact) fun r k hr hk => ?_
  obtain rfl := hexact hk
  cases BinaryOp.computes_apply hop hr with
  | numbers hv hw hr => cases hr
  | @transforms m n _ => exact ⟨⟨m, rfl⟩, n, rfl⟩

theorem agree_point (hop : op.isArithmetic = true) (hmixes : ¬ op.Mixes .point v w) :
    Agree (Point α) op v w := by
  have hexact : ∀ {v : Value α} {p : Point α}, Reads v p → v = .point p := by
    intro v p h
    cases v <;> cases h
    rfl
  refine agree_of_exact (fun _ => hexact) (fun _ => hexact) fun r k hr hk => ?_
  obtain rfl := hexact hk
  cases BinaryOp.computes_apply hop hr with
  | numbers hv hw hr => cases hr
  | @points p q _ => exact ⟨⟨p, rfl⟩, q, rfl⟩
  | stretchedLeft hmultiply hw => exact absurd ⟨hmultiply, hw⟩ hmixes
  | stretchedRight hmultiply hv =>
      cases v with
      | point p => exact ⟨⟨p, rfl⟩, _, rfl⟩
      | _ => exact absurd ⟨hmultiply, hv⟩ hmixes

theorem agree_margins (hop : op.isArithmetic = true) (hmixes : ¬ op.Mixes .margins v w) :
    Agree (Margins α) op v w := by
  have hresult : ∀ {v w r : Value α} {m : Margins α}, op.Computes v w r → Reads r m →
      v.number?.isSome ∧ w.number?.isSome := by
    intro v w r m hr hm
    cases hr with
    | numbers hv hw hr => exact ⟨hv, hw⟩
    | _ => cases hm
  intro x
  constructor
  · intro h
    obtain ⟨r, hr, hx⟩ := applyAs_eq_ok_iff.mp h
    exact absurd (hresult (BinaryOp.computes_apply hop hr) hx) hmixes
  · rintro ⟨u, z, -, -, h⟩
    obtain ⟨r, hr, hx⟩ := applyAs_eq_ok_iff.mp h
    cases (hresult (BinaryOp.computes_apply hop hr) hx).1

theorem agree_value : Agree (Value α) op v w := by
  refine agree_of_exact ?_ ?_ fun _ _ _ _ => ⟨⟨v, rfl⟩, w, rfl⟩
  · rintro u ⟨⟩
    rfl
  · rintro u ⟨⟩
    rfl

end

theorem mapM_append_eq_ok_iff {β γ ε : Type} {f : β → Except ε γ} {xs ys : List β}
    {zs : List γ} : (xs ++ ys).mapM f = .ok zs ↔
      ∃ us ws, xs.mapM f = .ok us ∧ ys.mapM f = .ok ws ∧ us ++ ws = zs := by
  rw [List.mapM_append, bind_eq_ok_iff]
  simp only [bind_eq_ok_iff]
  constructor
  · rintro ⟨us, hus, ws, hws, ⟨⟩⟩
    exact ⟨us, ws, hus, hws, rfl⟩
  · rintro ⟨us, ws, hus, hws, rfl⟩
    exact ⟨us, hus, ws, hws, rfl⟩

/-- Lists are joined, whether their items have been read or not. -/
theorem agree_list (hop : op.isArithmetic = true)
    (hitem : ∀ x : τ, Reads (toValue x : Value α) x) : Agree (List τ) op v w := by
  have hexact : ∀ {v : Value α} {xs : List τ}, Reads v xs →
      ∃ items, v = .list items ∧ (items.mapM ofValue : Except EvalError (List τ)) = .ok xs := by
    intro v xs h
    cases v with
    | list items => exact ⟨items, rfl, h⟩
    | _ => cases h
  have hjoined : ∀ {v w : Value α} {xs : List τ}, applyAs (List τ) op v w = .ok xs →
      op = .add ∧ ∃ items more, v = .list items ∧ w = .list more := by
    intro v w xs h
    obtain ⟨r, hr, hx⟩ := applyAs_eq_ok_iff.mp h
    obtain ⟨all, rfl, -⟩ := hexact hx
    cases BinaryOp.computes_apply hop hr with
    | numbers hv hw hr => cases hr
    | @lists items more hadd => exact ⟨hadd, items, more, rfl, rfl⟩
  intro xs
  constructor
  · intro h
    obtain ⟨rfl, items, more, rfl, rfl⟩ := hjoined h
    obtain ⟨us, zs, hus, hzs, rfl⟩ := mapM_append_eq_ok_iff.mp h
    exact ⟨us, zs, hus, hzs, mapM_append_eq_ok_iff.mpr
      ⟨us, zs, mapM_ofValue_toValue hitem us, mapM_ofValue_toValue hitem zs, rfl⟩⟩
  · rintro ⟨us, zs, hus, hzs, h⟩
    obtain ⟨items, rfl, hitems⟩ := hexact hus
    obtain ⟨more, rfl, hmore⟩ := hexact hzs
    obtain ⟨rfl, -⟩ := hjoined h
    obtain ⟨us', zs', hus', hzs', rfl⟩ := mapM_append_eq_ok_iff.mp h
    rw [mapM_ofValue_toValue hitem] at hus' hzs'
    obtain rfl := Except.ok.inj hus'
    obtain rfl := Except.ok.inj hzs'
    exact mapM_append_eq_ok_iff.mpr ⟨us, zs, hitems, hmore, rfl⟩

omit [Typed α τ] in
/-- For every type of this library, unless the operands are a mixture that the operator takes as it
is. -/
theorem IsOfLibrary.agree {typed : Typed α τ} (h : IsOfLibrary α τ typed)
    (hop : op.isArithmetic = true) (hv : IsWritten (valueType α τ) v)
    (hw : IsWritten (valueType α τ) w) (hmixes : ¬ op.Mixes (valueType α τ) v w) :
    Agree τ op v w := by
  cases h with
  | number => exact agree_number hop hmixes
  | int => exact agree_int hop hmixes
  | string => exact agree_string hv hw
  | path => exact agree_path hv hw
  | transform => exact agree_transform hop
  | point => exact agree_point hop hmixes
  | margins => exact agree_margins hop hmixes
  | value => exact agree_value
  | list item => exact agree_list hop item.reads_toValue
  | _ => exact agree_of_never hop fun r x h => by cases r <;> first | rfl | cases h

end Typed

/-! ### Expressions -/

theorem Fragment.isWritten_of_template {c s : Scope α} {type : ValueType} {text : Fragment}
    {ast : Ast α} (h : type = .string ∨ type = .path → text.template c = .ok ast)
    (hnone : ast.literal? = none) {v : Value α} (hv : ast.evaluate s = .ok v) :
    Typed.IsWritten type v := by
  intro htype
  obtain ⟨parts, -, hparts⟩ := FormulaParser.exists_of_bind_eq_ok (h htype)
  obtain rfl := Except.ok.inj hparts
  rcases ofParts_cases text.range parts with ⟨w, range, hliteral⟩ | ⟨ps, hinterpolation⟩
  · rw [hliteral, Ast.fold, Ast.foldWith] at hnone
    cases hnone
  · rw [hinterpolation, Ast.fold, Ast.foldWith, Ast.foldOnLiterals] at hnone hv
    split at hv
    · rename_i values hvalues
      rw [hvalues] at hnone
      cases hnone
    · exact exists_string_of_interpolation hv

namespace Expression

variable {τ : Type} {op : BinaryOp}

theorem evaluate_toAst_of_constant [Typed α τ] (x : τ) (s : Scope α) :
    (constant x : Expression α τ).toAst.evaluate s = .ok (Typed.toValue x) :=
  Ast.evaluateWith_of_literal? rfl

/-- The values of the tree of an expression that is read from a text. -/
theorem isWritten_of_readAs {typed : Typed α τ} (hτ : Typed.IsOfLibrary α τ typed)
    {context : LiteralContext α} {text : String} {a : Expression α τ}
    (h : readAs context text = .ok a) {s : Scope α} {v : Value α}
    (hv : a.toAst.evaluate s = .ok v) : Typed.IsWritten (Typed.valueType α τ) v := by
  obtain ⟨e, hread, hcast⟩ := FormulaParser.exists_of_bind_eq_ok h
  obtain ⟨ast, hsettle, htemplate⟩ := exists_settle_of_readTyped hread
  cases a with
  | constant x =>
      rw [evaluate_toAst_of_constant] at hv
      obtain rfl := Except.ok.inj hv
      intro htype
      cases hτ with
      | string => exact ⟨x, rfl⟩
      | path => exact ⟨x.text, rfl⟩
      | _ => rcases htype with htype | htype <;> cases htype
  | formula f =>
      rcases settle_cases hsettle with ⟨-, w, -, rfl⟩ | ⟨hnone, rfl⟩
      · rw [cast] at hcast
        cases hx : (Typed.ofValue w : Except EvalError τ) with
        | ok x =>
            rw [hx] at hcast
            cases hcast
        | error error =>
            rw [hx] at hcast
            cases hcast
      · obtain rfl := Expression.formula.inj (Except.ok.inj hcast)
        exact Fragment.isWritten_of_template htemplate hnone hv

variable [Typed α τ]

/-- An operator applied to the values of two expressions. -/
def operate (op : BinaryOp) (s : Scope α) (a b : Expression α τ) : Except EvalError τ := do
  let u ← a.evaluate s
  let z ← b.evaluate s
  Typed.applyAs τ op (Typed.toValue u : Value α) (Typed.toValue z)

/-- An operator applied to the values of the trees of two expressions, of whatever kind they are;
only its result is brought to the type. -/
def operateTrees (op : BinaryOp) (s : Scope α) (a b : Expression α τ) : Except EvalError τ := do
  let v ← a.toAst.evaluate s
  let w ← b.toAst.evaluate s
  Typed.applyAs τ op v w

/-- The trees of two expressions have values that an operator takes as they are, although the
expressions have others or none. -/
def Mixed (op : BinaryOp) (s : Scope α) (a b : Expression α τ) : Prop :=
  ∃ v w, a.toAst.evaluate s = .ok v ∧ b.toAst.evaluate s = .ok w ∧
    op.Mixes (Typed.valueType α τ) v w

omit [Typed α τ] in
/-- The value of an expression is the value of its tree, read as an element of the type. -/
theorem evaluate_eq {typed : Typed α τ} (hτ : Typed.IsOfLibrary α τ typed) (a : Expression α τ)
    (s : Scope α) : a.evaluate s = (a.toAst.evaluate s >>= Typed.ofValue) := by
  cases a with
  | constant x =>
      rw [evaluate_toAst_of_constant]
      exact (hτ.reads_toValue x).symm
  | formula f => rfl

omit [Number α] [Typed α τ] in
theorem shortcut?_of_isArithmetic (hop : op.isArithmetic = true) (v : Value α) :
    op.shortcut? v = none := by
  cases op <;> first | rfl | cases hop

theorem evaluate_ofBinary (hop : op.isArithmetic = true) (left right : Ast α) (s : Scope α) :
    (Ast.ofBinary op left right).evaluate s = (do
      let v ← left.evaluate s
      let w ← right.evaluate s
      op.apply v w) := by
  rw [Ast.ofBinary, Ast.evaluate, Ast.evaluateWith]
  simp only [shortcut?_of_isArithmetic hop]
  rfl

/-- Two constants combine to the constant that the operator makes of them, and anything else to the
tree of both. -/
theorem combine_cases (op : BinaryOp) (a b : Expression α τ) :
    (∃ u z, a = constant u ∧ b = constant z ∧
      combine op a b =
        (Typed.applyAs τ op (Typed.toValue u : Value α) (Typed.toValue z)).map constant) ∨
    combine op a b = .ok (formula ⟨.ofBinary op a.toAst b.toAst, a.valueType⟩) := by
  cases a with
  | constant u =>
      cases b with
      | constant z =>
          refine .inl ⟨u, z, rfl, rfl, ?_⟩
          rw [combine, Typed.applyAs]
          cases op.apply (Typed.toValue u : Value α) (Typed.toValue z) with
          | error error => rfl
          | ok r => rfl
      | formula g => exact .inr rfl
  | formula f => exact .inr rfl

/-- A combination has the value of its operator on the values of the trees. -/
theorem evaluate_of_combine (hop : op.isArithmetic = true) {a b e : Expression α τ}
    (h : combine op a b = .ok e) (s : Scope α) : e.evaluate s = operateTrees op s a b := by
  rcases combine_cases op a b with ⟨u, z, rfl, rfl, heq⟩ | heq
  · rw [operateTrees, evaluate_toAst_of_constant, evaluate_toAst_of_constant]
    rw [heq] at h
    cases hx : Typed.applyAs τ op (Typed.toValue u : Value α) (Typed.toValue z) with
    | error error =>
        rw [hx] at h
        cases h
    | ok x =>
        rw [hx] at h
        cases h
        exact hx.symm
  · rw [heq] at h
    cases h
    change (Ast.ofBinary op a.toAst b.toAst).evaluate s >>= Typed.ofValue = _
    rw [evaluate_ofBinary hop, operateTrees]
    simp only [bind_assoc]
    rfl

/-- Nothing but constants fails to combine, and then the operator fails on them. -/
theorem operate_of_combine {a b : Expression α τ} {error : EvalError}
    (h : combine op a b = .error error) (s : Scope α) : operate op s a b = .error error := by
  rcases combine_cases op a b with ⟨u, z, rfl, rfl, heq⟩ | heq
  · rw [heq] at h
    cases hx : Typed.applyAs τ op (Typed.toValue u : Value α) (Typed.toValue z) with
    | error error' =>
        rw [hx] at h
        cases h
        exact hx
    | ok x =>
        rw [hx] at h
        cases h
  · rw [heq] at h
    cases h

omit [Typed α τ] in
theorem operate_eq_ok_iff {typed : Typed α τ} (hτ : Typed.IsOfLibrary α τ typed)
    {a b : Expression α τ} {s : Scope α} {x : τ} :
    operate op s a b = .ok x ↔
      ∃ v w, a.toAst.evaluate s = .ok v ∧ b.toAst.evaluate s = .ok w ∧
        ∃ u z : τ, Typed.Reads v u ∧ Typed.Reads w z ∧
          Typed.applyAs τ op (Typed.toValue u : Value α) (Typed.toValue z) = .ok x := by
  rw [operate, evaluate_eq hτ, evaluate_eq hτ]
  simp only [bind_eq_ok_iff]
  constructor
  · rintro ⟨u, ⟨v, hv, hu⟩, z, ⟨w, hw, hz⟩, h⟩
    exact ⟨v, w, hv, hw, u, z, hu, hz, h⟩
  · rintro ⟨v, w, hv, hw, u, z, hu, hz, h⟩
    exact ⟨u, ⟨v, hv, hu⟩, z, ⟨w, hw, hz⟩, h⟩

theorem operateTrees_eq_ok_iff {a b : Expression α τ} {s : Scope α} {x : τ} :
    operateTrees op s a b = .ok x ↔
      ∃ v w, a.toAst.evaluate s = .ok v ∧ b.toAst.evaluate s = .ok w ∧
        Typed.applyAs τ op v w = .ok x := by
  rw [operateTrees]
  simp only [bind_eq_ok_iff]
  constructor
  · rintro ⟨v, hv, w, hw, h⟩
    exact ⟨v, w, hv, hw, h⟩
  · rintro ⟨v, w, hv, hw, h⟩
    exact ⟨v, hv, w, hw, h⟩

/-- Numbers combine exactly if their values do. -/
theorem exists_operateTrees_iff (hop : op.isArithmetic = true) {a b : Expression α α}
    {s : Scope α} :
    (∃ x, operateTrees op s a b = .ok x) ↔ ∃ x, operate op s a b = .ok x := by
  simp only [operateTrees_eq_ok_iff, operate_eq_ok_iff .number]
  constructor
  · rintro ⟨x, v, w, hv, hw, h⟩
    obtain ⟨y, hy⟩ := (Typed.exists_applyAs_number_iff hop v w).mp ⟨x, h⟩
    exact ⟨y, v, w, hv, hw, hy⟩
  · rintro ⟨x, v, w, hv, hw, h⟩
    obtain ⟨y, hy⟩ := (Typed.exists_applyAs_number_iff hop v w).mpr ⟨x, h⟩
    exact ⟨y, v, w, hv, hw, hy⟩

end Expression

open Expression (combine operate operateTrees Mixed)

/-- Combining two expressions that are read as ones of a type, and evaluating them. -/
theorem combine_evaluate {τ : Type} {typed : Typed α τ} (hτ : Typed.IsOfLibrary α τ typed)
    {op : BinaryOp} (hop : op.isArithmetic = true) {context context' : LiteralContext α}
    {text text' : String} {a b : Expression α τ} (ha : readAs context text = .ok a)
    (hb : readAs context' text' = .ok b) (s : Scope α) :
    match combine op a b with
    | .ok e =>
        e.evaluate s = operateTrees op s a b ∧
        (¬ Mixed op s a b → ∀ x, e.evaluate s = .ok x ↔ operate op s a b = .ok x) ∧
        (Typed.valueType α τ = .scalar →
          ((∃ x, e.evaluate s = .ok x) ↔ ∃ x, operate op s a b = .ok x))
    | .error error => operate op s a b = .error error := by
  cases hcombine : combine op a b with
  | error error => exact Expression.operate_of_combine hcombine s
  | ok e =>
      have hevaluate := Expression.evaluate_of_combine hop hcombine s
      refine ⟨hevaluate, fun hmixed x => ?_, fun htype => ?_⟩
      · rw [hevaluate, Expression.operateTrees_eq_ok_iff, Expression.operate_eq_ok_iff hτ]
        refine exists_congr fun v => exists_congr fun w => and_congr_right fun hv =>
          and_congr_right fun hw => ?_
        exact hτ.agree hop (Expression.isWritten_of_readAs hτ ha hv)
          (Expression.isWritten_of_readAs hτ hb hw) (fun h => hmixed ⟨v, w, hv, hw, h⟩) x
      · rw [hevaluate]
        cases hτ with
        | number => exact Expression.exists_operateTrees_iff hop
        | _ => cases htype

/-- The formula `n` for an integer `n` and the constant `4` are read as integers, and their sum is
that of both. -/
theorem combine_evaluate_sum :
    let s : Scope Float := ⟨[{ bindings := [("n", .ofValue (.int 3))] }]⟩
    let a : Expression Float Int64 := .formula ⟨.name "n" ⟨1, 2⟩, .int⟩
    ∃ e : Expression Float Int64, combine .add a (.constant 4) = .ok e ∧
      (∀ n, e.evaluate s = .ok n ↔ operate .add s a (.constant 4) = .ok n) ∧
      e.evaluate s = .ok 7 := by
  intro s a
  have ha : readAs ⟨s, none⟩ "\x7bn\x7d" = .ok a := by cbv
  have hb : readAs ⟨s, none⟩ "4" = .ok (.constant 4 : Expression Float Int64) := by cbv
  have hn : a.toAst.evaluate s = .ok (.int 3) := by cbv
  have hmixed : ¬ Mixed .add s a (.constant 4) := by
    rintro ⟨v, w, hv, hw, hmixes⟩
    rw [hn] at hv
    rw [Expression.evaluate_toAst_of_constant] at hw
    cases hv
    cases hw
    exact hmixes
  have hsum := (combine_evaluate .int rfl ha hb s).2.1 hmixed
  have hseven : operate .add s a (.constant 4) = .ok 7 := by cbv
  exact ⟨_, rfl, hsum, (hsum 7).mpr hseven⟩

theorem readAs_of_readFolded {τ : Type} [Typed α τ] {context : LiteralContext α} {text : String}
    {inner : Fragment} {ast : Ast α}
    (htype : Typed.valueType α τ ≠ .string ∧ Typed.valueType α τ ≠ .path)
    (hbraced : (Fragment.ofString text 0).braced? = some inner)
    (hread : Ast.readFolded context.scope inner = .ok ast) (hnone : ast.literal? = none) :
    readAs context text = .ok (.formula ⟨ast, Typed.valueType α τ⟩ : Expression α τ) := by
  have htyped : readTyped context (Typed.valueType α τ) (Fragment.ofString text 0) =
      .ok (.formula ⟨ast, Typed.valueType α τ⟩) := by
    rw [readTyped_of_braced? htype hbraced, hread]
    change (Fragment.ofString text 0).settle (Typed.valueType α τ) ast = _
    rw [Fragment.settle, hnone]
  rw [readAs, htyped]
  rfl

/-- A scope of two values. -/
def operandScope (v w : Value Float) : Scope Float :=
  ⟨[{ bindings := [("x", .ofValue v), ("y", .ofValue w)] }]⟩

/-- The names of two values are read as expressions of a type that combine to one with a value,
which the expressions do not give. -/
def Strays (τ : Type) [Typed Float τ] (op : BinaryOp) (v w : Value Float) : Prop :=
  let s := operandScope v w
  ∃ (a b e : Expression Float τ) (x : τ), readAs ⟨s, none⟩ "\x7bx\x7d" = .ok a ∧
    readAs ⟨s, none⟩ "\x7by\x7d" = .ok b ∧ combine op a b = .ok e ∧
    e.evaluate s = .ok x ∧ operate op s a b ≠ .ok x

theorem strays_of_applyAs {τ : Type} {typed : Typed Float τ} (hτ : Typed.HoldsFormula Float τ typed)
    {op : BinaryOp} (hop : op.isArithmetic = true) {v w : Value Float} {x : τ}
    (hx : Typed.applyAs τ op v w = .ok x)
    (hnot : ∀ u z : τ, Typed.Reads v u → Typed.Reads w z →
      Typed.applyAs τ op (Typed.toValue u : Value Float) (Typed.toValue z) ≠ .ok x) :
    Strays τ op v w := by
  have hlibrary := hτ.isOfLibrary
  let s := operandScope v w
  let a : Expression Float τ := .formula ⟨.name "x" ⟨1, 2⟩, Typed.valueType Float τ⟩
  let b : Expression Float τ := .formula ⟨.name "y" ⟨1, 2⟩, Typed.valueType Float τ⟩
  have hread : Ast.readFolded s ⟨1, ['x']⟩ = .ok (.name "x" ⟨1, 2⟩) := by cbv
  have hread' : Ast.readFolded s ⟨1, ['y']⟩ = .ok (.name "y" ⟨1, 2⟩) := by cbv
  have ha : readAs ⟨s, none⟩ "\x7bx\x7d" = .ok a :=
    readAs_of_readFolded hτ.valueType_ne (by cbv) hread rfl
  have hb : readAs ⟨s, none⟩ "\x7by\x7d" = .ok b :=
    readAs_of_readFolded hτ.valueType_ne (by cbv) hread' rfl
  have hv : a.toAst.evaluate s = .ok v := by cbv
  have hw : b.toAst.evaluate s = .ok w := by cbv
  obtain ⟨e, he⟩ : ∃ e, combine op a b = .ok e := ⟨_, rfl⟩
  refine ⟨a, b, e, x, ha, hb, he, ?_, fun hstray => ?_⟩
  · rw [Expression.evaluate_of_combine hop he, Expression.operateTrees, hv, hw]
    exact hx
  · obtain ⟨v', w', hv', hw', u, z, hu, hz, h⟩ :=
      (Expression.operate_eq_ok_iff hlibrary).mp hstray
    obtain rfl := Except.ok.inj (hv.symm.trans hv')
    obtain rfl := Except.ok.inj (hw.symm.trans hw')
    exact hnot u z hu hz h

/-- Integers are added up before they become numbers. -/
theorem applyAs_add_ints {m n : Int64} (h : Number.fitsInt (m.toInt + n.toInt) = true) :
    Typed.applyAs α .add (.int m : Value α) (.int n) =
      .ok (Number.ofInt64 (Int64.ofInt (m.toInt + n.toInt))) := by
  have hints : BinaryOp.onInts? (· + ·) (.int m : Value α) (.int n) =
      some (.int (Int64.ofInt (m.toInt + n.toInt))) := if_pos h
  have happly : BinaryOp.add.apply (.int m : Value α) (.int n) =
      .ok (.int (Int64.ofInt (m.toInt + n.toInt))) := by
    unfold BinaryOp.apply BinaryOp.sum BinaryOp.arithmetic
    simp only [hints]
  exact Typed.applyAs_eq_ok_iff.mpr ⟨_, happly, rfl⟩

/-- Operands that are mixed: integers are added up exactly before they become numbers, a number
stretches a point, numbers add up to margins, and numbers that are no integers may add up to one. -/
theorem combine_strays :
    Strays Float .add (.int 9007199254740993) (.int (-9007199254740992)) ∧
    Strays (Point Float) .multiply (.point ⟨1, 2⟩) (.int 2) ∧
    Strays (Margins Float) .add (.int 1) (.int 2) ∧
    ∀ x : Float, Value.isInteger x = false → Value.isInteger (x + x) = true →
      Strays Int64 .add (.scalar x) (.scalar x) := by
  refine ⟨?_, ?_, ?_, fun x hx hdouble => ?_⟩
  · have hfits : Number.fitsInt (Int64.toInt 9007199254740993 + Int64.toInt (-9007199254740992)) =
        true := by decide
    refine strays_of_applyAs .number rfl (applyAs_add_ints hfits) fun u z hu hz h => ?_
    have hone : Int64.ofInt (Int64.toInt 9007199254740993 + Int64.toInt (-9007199254740992)) = 1 :=
      by decide
    have hrounded : (Number.ofInt64 9007199254740993 + Number.ofInt64 (-9007199254740992) : Float) ≠
        Number.ofInt64 1 := by decide +kernel
    obtain rfl := Option.some.inj hu.number
    obtain rfl := Option.some.inj hz.number
    exact hrounded ((Except.ok.inj h).trans (congrArg Number.ofInt64 hone))
  · have hproduct : Typed.applyAs (Point Float) .multiply (.point ⟨1, 2⟩) (.int 2 : Value Float) =
        .ok (Point.scale ⟨1, 2⟩ (Number.ofInt64 2)) := rfl
    exact strays_of_applyAs .point rfl hproduct fun u z _ hz => by cases hz
  · have hsum : Typed.applyAs (Margins Float) .add (.int 1 : Value Float) (.int 2) =
        .ok (.uniform (Number.ofInt64 3)) := rfl
    refine strays_of_applyAs .margins rfl hsum fun u z _ _ h => ?_
    cases h
  · have hsum : Typed.applyAs Int64 .add (.scalar x : Value Float) (.scalar x) =
        .ok (Number.toInt64 (x + x)) :=
      Typed.applyAs_eq_ok_iff.mpr ⟨.scalar (x + x), rfl, if_pos hdouble⟩
    refine strays_of_applyAs .int rfl hsum fun u z hu => ?_
    cases (if_neg (Bool.eq_false_iff.mp hx)).symm.trans hu

end PatternMarkup
