import PatternMarkup.Formula.Pieces
import PatternMarkup.Pattern.Instance
import PatternMarkup.Proofs.Fields
import PatternMarkup.Proofs.Formula.LiteralTrees
import PatternMarkup.Proofs.Pattern.AttributeReaders
/-!
Instances made of examples: which attributes and entries they have, and which of them an argument
finds there. An argument finds its own example as long as no other argument has an example in an
attribute that it seeks. The text of a list is cut into items twice, where it is read as a list and
where it is given to a numbered argument item by item; on plain lists the two agree.
-/

namespace PatternMarkup

/-- Whether a character can stand in a plain list: it neither groups nor quotes, and if it is a
blank, it is one that separates items. -/
def isPlainInList (c : Char) : Bool :=
  !(['"', '\'', '\x7b', '(', '[', '\x7d', ')', ']'].contains c) &&
    (!isBlank c || [' ', '\t', '\n', '\r'].contains c)

/-- Whether there is an item between any two commas. `comma` tells that a comma came last, apart
from blanks. -/
def commasApart (comma : Bool) : List Char → Bool
  | [] => true
  | c :: rest =>
      if c = ',' then !comma && commasApart true rest else commasApart (comma && isBlank c) rest

/-- A plain character separates items exactly if it is a comma or a blank. -/
theorem writtenItems_cons {c : Char} (hc : isPlainInList c = true) (start offset : Nat)
    (item rest : List Char) :
    writtenItems 0 none start item offset (c :: rest) =
      if c = ',' ∨ isBlank c then
        pieceOf (if item.isEmpty then offset else start) item ++
          writtenItems 0 none (offset + c.utf8Size) [] (offset + c.utf8Size) rest
      else
        writtenItems 0 none (if item.isEmpty then offset else start) (c :: item)
          (offset + c.utf8Size) rest := by
  simp only [isPlainInList, Bool.and_eq_true, Bool.not_eq_true', List.contains_eq_mem,
    decide_eq_false_iff_not, List.mem_cons, List.not_mem_nil, or_false, not_or] at hc
  obtain ⟨⟨h1, h2, h3, h4, h5, h6, h7, h8⟩, -⟩ := hc
  rw [writtenItems]
  simp only [h1, h2, h3, h4, h5, h6, h7, h8, or_self, if_false, true_and]
  rfl

theorem chars_pieceOf (start start' : Nat) (item : List Char) :
    (pieceOf start item).map (·.chars) = (pieceOf start' item).map (·.chars) := by
  unfold pieceOf
  split <;> rfl

/-- Both readings find the same items in a plain list. The induction follows the reading of lists;
a comma can only be the last thing seen while there is no item. -/
theorem chars_piecesFrom {start start' offset offset' : Nat} {item : List Char} {comma : Bool}
    {text : List Char} (hplain : text.all isPlainInList = true)
    (hcomma : item ≠ [] → comma = false) (hapart : commasApart comma text = true) :
    (piecesFrom start item comma offset text).map (·.chars) =
      (writtenItems 0 none start' item offset' text).map (·.chars) := by
  have hplainCons : ∀ {c : Char} {rest : List Char}, (c :: rest).all isPlainInList = true →
      isPlainInList c = true ∧ rest.all isPlainInList = true :=
    fun h => Bool.and_eq_true_iff.mp (List.all_cons.symm.trans h)
  fun_induction piecesFrom start item comma offset text generalizing start' offset' with
  | case1 start item comma offset => exact chars_pieceOf ..
  | case2 => exact absurd (hplainCons hplain).1 (by decide)
  | case3 => exact absurd (hplainCons hplain).1 (by decide)
  | case4 start item comma offset rest empty hopen =>
      rename_i ih
      obtain ⟨hc, hrest⟩ := hplainCons hplain
      rw [commasApart, if_pos rfl, Bool.and_eq_true_iff, Bool.not_eq_true'] at hapart
      have hempty : empty = [] := by
        simp only [empty, hapart.1, Bool.and_false]
        rfl
      rw [writtenItems_cons hc, if_pos (.inl rfl), hempty, List.nil_append, List.map_append,
        List.map_append, chars_pieceOf, ih hrest (fun h => absurd rfl h) hapart.2]
  | case5 start item comma offset c rest hopen hnot hgap ih =>
      obtain ⟨hc, hrest⟩ := hplainCons hplain
      have hblank : isBlank c = true := by
        rcases hgap with rfl | rfl | rfl | rfl <;> decide
      rw [commasApart, if_neg hnot, hblank, Bool.and_true] at hapart
      rw [writtenItems_cons hc, if_pos (.inr hblank), List.map_append, List.map_append,
        chars_pieceOf, ih hrest (fun h => absurd rfl h) hapart]
  | case6 start item comma offset c rest hopen hnot hgap ih =>
      obtain ⟨hc, hrest⟩ := hplainCons hplain
      have hblank : isBlank c = false := by
        simp only [isPlainInList, Bool.and_eq_true, Bool.or_eq_true, Bool.not_eq_true',
          List.contains_eq_mem, decide_eq_true_eq, List.mem_cons, List.not_mem_nil,
          or_false] at hc
        exact hc.2.resolve_right hgap
      rw [commasApart, if_neg hnot, hblank, Bool.and_false] at hapart
      rw [writtenItems_cons hc, if_neg (by simp [hnot, hblank])]
      exact ih hrest (fun _ => rfl) hapart

/-! ### Examples of numbered arguments -/

variable {α : Type}

/-- The items that a written value gives one by one. -/
def WrittenValue.items (w : WrittenValue α) : List Fragment :=
  writtenItems 0 none 0 [] 0 w.text.toList

/-- A written value gives one by one the items that it has where it is read as a list. There are
not too many for their numbers. -/
structure WrittenValue.IsListed (w : WrittenValue α) : Prop where
  unbraced : (Fragment.ofString w.text 0).braced? = none
  items : (Fragment.ofString w.text 0).pieces.map (·.chars) = w.items.map (·.chars)
  few : w.items.length < 4294967296

/-- Plain lists give the items that they have. -/
theorem WrittenValue.isListed_of_plain {w : WrittenValue α}
    (hplain : w.text.toList.all isPlainInList = true)
    (hapart : commasApart false w.text.toList = true) (hfew : w.items.length < 4294967296) :
    w.IsListed := by
  refine ⟨?_, chars_piecesFrom hplain (fun _ => rfl) hapart, hfew⟩
  unfold Fragment.braced?
  split
  · next rest htrim =>
      have hbrace : '\x7b' ∈ w.text.toList :=
        trim_subset w.text.toList (htrim ▸ List.mem_cons_self)
      exact absurd (List.all_eq_true.mp hplain _ hbrace) (by decide)
  · rfl

/-! ### Attributes -/

/-- The attributes that give the example of an argument or of a member. -/
def AttributeReader.exampleAttributes (r : AttributeReader α) : List InstanceAttribute :=
  match r.arg.sample, r.arg.source with
  | none, _ => []
  | some w, .singular => [⟨r.name, w.text, w.span, w.span⟩]
  | some w, .numbered => numberedExample r.name w
  | some _, .entry => []

/-- The attributes that give the example of an argument. -/
def Argument.exampleAttributes (arg : Argument α) : List InstanceAttribute :=
  arg.readers.flatMap (·.exampleAttributes)

theorem PlainArgument.attributes_addExample (arg : PlainArgument α) (name : String)
    (i : Instance α) : (arg.addExample name i).attributes =
      i.attributes ++ AttributeReader.exampleAttributes ⟨arg, name⟩ := by
  unfold addExample AttributeReader.exampleAttributes
  cases arg.sample with
  | none => exact (List.append_nil _).symm
  | some w =>
      cases arg.source with
      | singular => rfl
      | numbered => rfl
      | entry =>
          simp only [List.append_nil]
          cases w.value.constant? <;> rfl

theorem Argument.attributes_addExample (arg : Argument α) (i : Instance α) :
    (arg.addExample i).attributes = i.attributes ++ arg.exampleAttributes := by
  cases arg with
  | plain arg =>
      rw [exampleAttributes, readers, List.flatMap_singleton]
      exact arg.attributes_addExample arg.name i
  | group g =>
      rw [exampleAttributes, readers, List.flatMap_map, addExample]
      induction g.members generalizing i with
      | nil => exact (List.append_nil _).symm
      | cons m rest ih =>
          rw [List.foldl_cons, ih, m.attributes_addExample, List.flatMap_cons, List.append_assoc]

/-- The attributes of an instance made of examples are those of its arguments, in their order. -/
theorem Pattern.attributes_exampleInstance (p : Pattern α) :
    p.exampleInstance.attributes = p.arguments.flatMap (·.exampleAttributes) := by
  have hfold : ∀ i : Instance α, (p.arguments.foldl Argument.addExample i).attributes =
      i.attributes ++ p.arguments.flatMap (·.exampleAttributes) := by
    induction p.arguments with
    | nil => exact fun i => (List.append_nil _).symm
    | cons arg rest ih =>
        intro i
        rw [List.foldl_cons, ih, arg.attributes_addExample, List.flatMap_cons, List.append_assoc]
  exact hfold _

/-- No other argument of the pattern has an example in an attribute that an argument seeks. -/
def Pattern.KeepsApart (p : Pattern α) (arg : Argument α) : Prop :=
  ∀ other ∈ p.arguments, other.name ≠ arg.name →
    ∀ a ∈ other.exampleAttributes, arg.seeks a.name = false

/-- Whether the attributes that an argument seeks are its own among the examples. -/
def Pattern.keepsApart (p : Pattern α) (arg : Argument α) : Bool :=
  p.arguments.all fun other =>
    other.name == arg.name || other.exampleAttributes.all fun a => !arg.seeks a.name

theorem Pattern.keepsApart_iff {p : Pattern α} {arg : Argument α} :
    p.keepsApart arg = true ↔ p.KeepsApart arg := by
  simp [keepsApart, KeepsApart, or_iff_not_imp_left]

/-- Of the examples an argument finds its own. -/
theorem Pattern.KeepsApart.filter_exampleInstance {p : Pattern α} {arg : Argument α}
    (h : p.KeepsApart arg) (hnames : (p.arguments.map (·.name)).Nodup) (harg : arg ∈ p.arguments) :
    p.exampleInstance.attributes.filter (fun a => arg.seeks a.name) =
      arg.exampleAttributes.filter fun a => arg.seeks a.name := by
  obtain ⟨before, after, harguments⟩ := List.append_of_mem harg
  have hothers : ∀ others ⊆ p.arguments, arg.name ∉ others.map (·.name) →
      (others.flatMap (·.exampleAttributes)).filter (fun a => arg.seeks a.name) = [] := by
    intro others hothers hnot
    refine List.filter_eq_nil_iff.mpr fun a ha => ?_
    obtain ⟨other, hother, ha⟩ := List.mem_flatMap.mp ha
    have hname : other.name ≠ arg.name := fun heq => hnot (List.mem_map.mpr ⟨other, hother, heq⟩)
    exact Bool.eq_false_iff.mp (h other (hothers hother) hname a ha)
  rw [harguments] at hnames hothers
  rw [List.map_append, List.map_cons, List.nodup_middle, List.nodup_cons, List.mem_append,
    not_or] at hnames
  rw [p.attributes_exampleInstance, harguments, List.flatMap_append, List.flatMap_cons,
    List.filter_append, List.filter_append, hothers before (by simp) hnames.1.1,
    hothers after (fun x hx => by simp [hx]) hnames.1.2, List.append_nil, List.nil_append]

/-! ### What an argument finds -/

/-- The attributes of a numbered example have the numbers from one on. -/
theorem filterMap_numberedExample (name : String) {w : WrittenValue α}
    (hfew : w.items.length < 4294967296) :
    (numberedExample name w).filterMap
        (fun a => (numberAfter? name a.name).map fun n => (n, a)) =
      (List.range' 1 (numberedExample name w).length).zip (numberedExample name w) := by
  let attribute_ (n : Nat) (item : Fragment) : InstanceAttribute :=
    let span := w.span.narrow w.text item.range
    ⟨name ++ toString n, item.text, span, span⟩
  have hfrom : ∀ (items : List Fragment) (first : Nat), 0 < first →
      first + items.length ≤ 4294967296 →
      (items.mapIdx fun i => attribute_ (i + first)).filterMap
          (fun a => (numberAfter? name a.name).map fun n => (n, a)) =
        (List.range' first items.length).zip (items.mapIdx fun i => attribute_ (i + first)) := by
    intro items
    induction items with
    | nil => exact fun first _ _ => rfl
    | cons item rest ih =>
        intro first hpos hfits
        rw [List.length_cons] at hfits
        have hnumber : numberAfter? name (attribute_ (0 + first) item).name = some first := by
          rw [Nat.zero_add]
          exact numberAfter?_append hpos (by omega) name
        have hnext : ∀ i, i + 1 + first = i + (first + 1) := by omega
        rw [List.mapIdx_cons, List.filterMap_cons, hnumber, List.length_cons, List.range'_succ,
          List.zip_cons_cons]
        simp only [hnext, Option.map_some]
        rw [ih (first + 1) (by omega) (by omega)]
  have hlength : (numberedExample name w).length = w.items.length := List.length_mapIdx
  rw [hlength]
  exact hfrom w.items 1 Nat.one_pos (by omega)

theorem values_numberedExample (name : String) (w : WrittenValue α) :
    (numberedExample name w).map (·.value) = w.items.map (·.text) := by
  refine List.ext_getElem? fun k => ?_
  rw [numberedExample, List.getElem?_map, List.getElem?_map, List.getElem?_mapIdx, Option.map_map,
    WrittenValue.items]
  rfl

section

variable {p : Pattern α} {arg : PlainArgument α} {w : WrittenValue α}

theorem Argument.seeks_plain (arg : PlainArgument α) (given : String) :
    (Argument.plain arg).seeks given = AttributeReader.seeks ⟨arg, arg.name⟩ given := by
  rw [seeks, readers, List.any_cons, List.any_nil, Bool.or_false]

theorem Pattern.KeepsApart.attribute?_exampleInstance (h : p.KeepsApart (.plain arg))
    (hnames : (p.arguments.map (·.name)).Nodup) (harg : .plain arg ∈ p.arguments)
    (hsource : arg.source = .singular) (hw : arg.sample = some w) :
    p.exampleInstance.attribute? arg.name = some ⟨arg.name, w.text, w.span, w.span⟩ := by
  have hseeks : ∀ a : InstanceAttribute,
      (Argument.plain arg).seeks a.name = (a.name == arg.name) := by
    intro a
    rw [Argument.seeks_plain, AttributeReader.seeks, hsource]
  have hown : (Argument.plain arg).exampleAttributes = [⟨arg.name, w.text, w.span, w.span⟩] := by
    rw [Argument.exampleAttributes, Argument.readers, List.flatMap_singleton,
      AttributeReader.exampleAttributes]
    simp only [hw, hsource]
  have hfound := h.filter_exampleInstance hnames harg
  simp only [hseeks, hown] at hfound
  rw [Instance.attribute?, ← List.head?_filter, hfound]
  simp

theorem Pattern.KeepsApart.numberedAttributes_exampleInstance (h : p.KeepsApart (.plain arg))
    (hnames : (p.arguments.map (·.name)).Nodup) (harg : .plain arg ∈ p.arguments)
    (hsource : arg.source = .numbered) (hw : arg.sample = some w)
    (hfew : w.items.length < 4294967296) :
    let numbered := numberedAttributes arg.name p.exampleInstance.attributes
    numbered.map (·.1) = List.range' 1 w.items.length ∧
      numbered.map (·.2.2.value) = w.items.map (·.text) := by
  have hseeks : ∀ a : InstanceAttribute,
      (Argument.plain arg).seeks a.name = (numberAfter? arg.name a.name).isSome := by
    intro a
    rw [Argument.seeks_plain, AttributeReader.seeks, hsource]
  have hown : (Argument.plain arg).exampleAttributes = numberedExample arg.name w := by
    rw [Argument.exampleAttributes, Argument.readers, List.flatMap_singleton,
      AttributeReader.exampleAttributes]
    simp only [hw, hsource]
  have hsought : ∀ attributes : List InstanceAttribute,
      attributes.filterMap (fun a => (numberAfter? arg.name a.name).map fun n => (n, a)) =
        (attributes.filter fun a => (Argument.plain arg).seeks a.name).filterMap
          fun a => (numberAfter? arg.name a.name).map fun n => (n, a) := by
    intro attributes
    rw [List.filterMap_filter]
    refine List.filterMap_congr fun a _ => ?_
    rw [hseeks]
    cases numberAfter? arg.name a.name <;> rfl
  have hnumbered : p.exampleInstance.attributes.filterMap
      (fun a => (numberAfter? arg.name a.name).map fun n => (n, a)) =
        (List.range' 1 (numberedExample arg.name w).length).zip (numberedExample arg.name w) := by
    rw [hsought, h.filter_exampleInstance hnames harg, ← hsought, hown,
      filterMap_numberedExample arg.name hfew]
  have hlength : (numberedExample arg.name w).length = w.items.length := List.length_mapIdx
  have hnumbers : ((List.range' 1 (numberedExample arg.name w).length).zip
      (numberedExample arg.name w)).map (·.1) = List.range' 1 w.items.length := by
    rw [← hlength, List.map_fst_zip (by rw [List.length_range'])]
  have hpairs : (numberedAttributes arg.name p.exampleInstance.attributes).map
      (fun t => (t.1, t.2.2)) =
        (List.range' 1 (numberedExample arg.name w).length).zip (numberedExample arg.name w) := by
    rw [← hnumbered]
    refine numberedAttributes_of_sorted ?_
    rw [hnumbered, ← List.pairwise_map, hnumbers]
    exact (List.pairwise_lt_range' 1).imp Nat.le_of_lt
  constructor
  · rw [← hnumbers, ← hpairs, List.map_map]
    rfl
  · have hvalues : (numberedAttributes arg.name p.exampleInstance.attributes).map (·.2.2.value) =
        (((numberedAttributes arg.name p.exampleInstance.attributes).map
          fun t => (t.1, t.2.2)).map (·.2)).map (·.value) := by
      rw [List.map_map, List.map_map]
      rfl
    rw [hvalues, hpairs, List.map_snd_zip (by rw [List.length_range']), values_numberedExample]

end

/-! ### Entries -/

theorem PlainArgument.get?_entries_addExample_of_ne {arg : PlainArgument α} {n : String}
    (h : arg.source = .entry → n ≠ arg.name) (name : String) (i : Instance α) :
    Fields.get? n (arg.addExample name i).entries = Fields.get? n i.entries := by
  unfold addExample
  split
  · rfl
  · rfl
  · rfl
  · next hsource =>
      split
      · exact Fields.get?_insert_of_ne (h hsource) ..
      · rfl

theorem Argument.get?_entries_addExample_of_ne [Number α] {arg : Argument α} (hsound : arg.IsSound)
    {n : String} (h : n ≠ arg.name) (i : Instance α) :
    Fields.get? n (arg.addExample i).entries = Fields.get? n i.entries := by
  cases arg with
  | plain arg => exact arg.get?_entries_addExample_of_ne (fun _ => h) arg.name i
  | group g =>
      have hfold : ∀ members : List (PlainArgument α), (∀ m ∈ members, m.source = .singular) →
          ∀ i : Instance α, Fields.get? n (members.foldl
            (fun i m => m.addExample (memberAttribute g.name m.name) i) i).entries =
              Fields.get? n i.entries := by
        intro members
        induction members with
        | nil => exact fun _ i => rfl
        | cons m rest ih =>
            intro hmembers i
            obtain ⟨hm, hrest⟩ := List.forall_mem_cons.mp hmembers
            rw [List.foldl_cons, ih hrest]
            exact m.get?_entries_addExample_of_ne (fun hentry => nomatch hm.symm.trans hentry) _ i
      exact hfold g.members (fun m hm => (hsound.members m hm).2) i

/-- The entry of an argument is its example. -/
theorem Pattern.get?_entries_exampleInstance [Number α] {p : Pattern α}
    (hsound : ∀ arg ∈ p.arguments, arg.IsSound) (hnames : (p.arguments.map (·.name)).Nodup)
    {arg : PlainArgument α} (harg : .plain arg ∈ p.arguments) (hsource : arg.source = .entry)
    {w : WrittenValue α} (hw : arg.sample = some w) {v : Value α}
    (hv : w.value = .constant v) : Fields.get? arg.name p.exampleInstance.entries = some v := by
  obtain ⟨before, after, harguments⟩ := List.append_of_mem harg
  rw [harguments] at hsound hnames
  have hafter : ∀ i : Instance α, Fields.get? arg.name
      (after.foldl Argument.addExample i).entries = Fields.get? arg.name i.entries := by
    have hothers : ∀ other ∈ after, other.IsSound ∧ arg.name ≠ other.name := by
      intro other hother
      refine ⟨hsound other (by simp [hother]), fun hname => ?_⟩
      rw [List.map_append, List.map_cons, List.nodup_append, List.nodup_cons] at hnames
      exact hnames.2.1.1 (List.mem_map.mpr ⟨other, hother, hname.symm⟩)
    clear hsound hnames harguments
    induction after with
    | nil => exact fun i => rfl
    | cons other rest ih =>
        intro i
        obtain ⟨⟨hother, hname⟩, hrest⟩ := List.forall_mem_cons.mp hothers
        rw [List.foldl_cons, ih hrest, Argument.get?_entries_addExample_of_ne hother hname]
  rw [exampleInstance, harguments, List.foldl_append, List.foldl_cons, hafter,
    Argument.addExample, PlainArgument.addExample]
  simp only [hw, hsource, hv, Expression.constant?]
  exact Fields.get?_insert_self ..

end PatternMarkup
