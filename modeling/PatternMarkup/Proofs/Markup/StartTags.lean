import PatternMarkup.Proofs.Markup.FaultPlaces
import PatternMarkup.Proofs.Markup.TreeInvariant
/-!
The elements of a document are those of its start tags: an attribute belongs to the element in
whose tag it stands and has the position at which it stands there, and the names in a tag come one
after another.
-/

namespace PatternMarkup

/-- The names of attributes start one after another, between two bytes. -/
structure NamesBetween (raws : List RawAttribute) (start stop : Nat) : Prop where
  increasing : raws.Pairwise fun a b => a.nameSpan.offset < b.nameSpan.offset
  inside : ∀ a ∈ raws, start < a.nameSpan.offset ∧ a.nameSpan.offset < stop

namespace NamesBetween

variable {raws : List RawAttribute} {start stop : Nat}

theorem nil (start stop : Nat) : NamesBetween [] start stop :=
  ⟨.nil, List.forall_mem_nil _⟩

theorem mono (h : NamesBetween raws start stop) {stop' : Nat} (hstop : stop ≤ stop') :
    NamesBetween raws start stop' :=
  ⟨h.increasing, fun a ha => ⟨(h.inside a ha).1, Nat.lt_of_lt_of_le (h.inside a ha).2 hstop⟩⟩

/-- A name that starts where the others have ended. -/
theorem concat (h : NamesBetween raws start stop) {a : RawAttribute} {stop' : Nat}
    (hstart : start < a.nameSpan.offset) (hle : stop ≤ a.nameSpan.offset)
    (hstop : a.nameSpan.offset < stop') : NamesBetween (raws ++ [a]) start stop' := by
  constructor
  · refine List.pairwise_append.mpr ⟨h.increasing, List.pairwise_singleton _ _, ?_⟩
    intro b hb c hc
    rw [List.mem_singleton.mp hc]
    exact Nat.lt_of_lt_of_le (h.inside b hb).2 hle
  · intro b hb
    rcases List.mem_append.mp hb with hb | hb
    · exact (h.mono (Nat.le_trans hle (Nat.le_of_lt hstop))).inside b hb
    · rw [List.mem_singleton.mp hb]
      exact ⟨hstart, hstop⟩

end NamesBetween

/-- Whether the token is no start tag, or one in which the names come one after another. -/
def Token.NamesInOrder (t : Token) : Prop :=
  ∀ name nameSpan raws selfClosing, t.kind = .startTag name nameSpan raws selfClosing →
    NamesBetween raws t.span.offset t.span.stop

namespace Scanner

variable {cursor : Cursor}

/-! ### Names in a tag -/

theorem namesBetween_admit? {start : Position} {attributes admitted : List RawAttribute}
    {duplicate : List PlacedFault} {c : Char} {rest : List Char}
    (h : NamesBetween attributes start.offset cursor.place.offset)
    (hc : start.offset < cursor.place.offset) (hrest : cursor.rest = c :: rest)
    (hname : isNameStart c = true)
    (hentry : admit? attributes (scanAttribute cursor).value = (admitted, duplicate)) :
    NamesBetween admitted start.offset (scanAttribute cursor).cursor.place.offset := by
  have hscanned := placed_scanAttribute hrest (isNameChar_of_isNameStart hname)
  have hoffset : (scanAttribute cursor).value.nameSpan.offset = cursor.place.offset := by
    rw [hscanned.nameSpan_eq]
    rfl
  have hpos : 0 < byteLength (cursor.rest.takeWhile isNameChar) := by
    refine byteLength_pos ?_
    rw [hrest, List.takeWhile_cons_of_pos (isNameChar_of_isNameStart hname)]
    exact List.cons_ne_nil _ _
  have hstop : cursor.place.offset < (scanAttribute cursor).cursor.place.offset :=
    Nat.lt_of_lt_of_le (Nat.lt_add_of_pos_right hpos) hscanned.stop_le
  unfold admit? at hentry
  split at hentry
  · cases hentry
    exact h.mono (Nat.le_of_lt hstop)
  · cases hentry
    exact h.concat (hoffset ▸ hc) hoffset.ge (hoffset ▸ hstop)

theorem namesBetween_tagBody {start : Position} (tag : String) {attributes : List RawAttribute}
    (h : NamesBetween attributes start.offset cursor.place.offset)
    (hc : start.offset < cursor.place.offset) :
    NamesBetween (tagBody start tag attributes cursor).attributes start.offset
      (tagBody start tag attributes cursor).cursor.place.offset := by
  fun_induction tagBody start tag attributes cursor with
  | case1 => exact h
  | case2 attributes cursor c rest hrest after hblank ih =>
      have hafter := (Cursor.reaches_next hrest).offset_le
      exact ih (h.mono hafter) (Nat.lt_of_lt_of_le hc hafter)
  | case3 attributes cursor rest hrest after hblank =>
      exact h.mono (Cursor.reaches_next hrest).offset_le
  | case4 attributes cursor => exact h.mono (cursor.reaches_advance 2).offset_le
  | case5 attributes cursor rest hrest after hblank hgreater hslash ih =>
      have hafter := (Cursor.reaches_next hrest).offset_le
      exact ih (h.mono hafter) (Nat.lt_of_lt_of_le hc hafter)
  | case6 => exact h
  | case7 attributes cursor c rest hrest hblank hgreater hslash hslash' hless hname scanned
      admitted duplicate hentry hcut => exact namesBetween_admit? h hc hrest hname hentry
  | case8 attributes cursor c rest hrest hblank hgreater hslash hslash' hless hname scanned
      admitted duplicate hentry hcut ih =>
      have hafter := (reaches_scanAttribute cursor).offset_le
      exact ih (namesBetween_admit? h hc hrest hname hentry) (Nat.lt_of_lt_of_le hc hafter)
  | case9 attributes cursor c rest hrest after hblank hgreater hslash hslash' hless hname ih =>
      have hafter := (Cursor.reaches_next hrest).offset_le
      exact ih (h.mono hafter) (Nat.lt_of_lt_of_le hc hafter)

theorem namesInOrder_startTag {first : Char} {rest : List Char}
    (hrest : cursor.rest = first :: rest) : (startTag cursor).token.NamesInOrder := by
  have hstart : cursor.place.offset < (cursor.advance 1).place.offset := by
    rw [Cursor.advance, hrest, Position.offset_after]
    exact Nat.lt_add_of_pos_right (byteLength_pos (List.cons_ne_nil _ _))
  have hname : cursor.place.offset < ((cursor.advance 1).skip isNameChar).place.offset :=
    Nat.lt_of_lt_of_le hstart ((cursor.advance 1).reaches_skip isNameChar).offset_le
  have hbody := namesBetween_tagBody
    (String.ofList ((cursor.advance 1).rest.takeWhile isNameChar)) (NamesBetween.nil _ _) hname
  have hstop : (startTag cursor).token.span.stop = (startTag cursor).cursor.place.offset :=
    Position.stop_spanTo (reaches_startTag cursor).offset_le
  rintro name nameSpan raws selfClosing ⟨⟩
  rw [hstop]
  exact hbody

theorem namesInOrder_endTag (cursor : Cursor) : (endTag cursor).token.NamesInOrder := by
  simp only [endTag]
  split <;> rintro _ _ _ _ ⟨⟩

theorem namesInOrder_comment (cursor : Cursor) : (comment cursor).token.NamesInOrder := by
  simp only [comment]
  split <;> rintro _ _ _ _ ⟨⟩

theorem namesInOrder_declaration (cursor : Cursor) :
    (declaration cursor).token.NamesInOrder := by
  simp only [declaration]
  split <;> rintro _ _ _ _ ⟨⟩

theorem namesInOrder_textRun (cursor : Cursor) : (textRun cursor).token.NamesInOrder := by
  rintro _ _ _ _ ⟨⟩

theorem namesInOrder_token (cursor : Cursor) : (token cursor).token.NamesInOrder := by
  unfold token
  split
  · rename_i rest hrest
    split
    · split
      · exact namesInOrder_endTag cursor
      · exact namesInOrder_comment cursor
      · exact namesInOrder_declaration cursor
      · exact namesInOrder_declaration cursor
      · exact namesInOrder_startTag hrest
    · exact namesInOrder_textRun cursor
  · exact namesInOrder_textRun cursor

theorem namesInOrder_scanAll (cursor : Cursor) :
    ∀ s ∈ scanAll cursor, s.token.NamesInOrder := by
  fun_induction scanAll cursor with
  | case1 => exact List.forall_mem_nil _
  | case2 cursor hrest scanned ih =>
      intro s hs
      rcases List.mem_cons.mp hs with rfl | hs
      · exact namesInOrder_token cursor
      · exact ih s hs

end Scanner

theorem TokenStream.namesInOrder_ofSource (source : String) :
    ∀ t ∈ (ofSource source).tokens, t.NamesInOrder := by
  intro t ht
  obtain ⟨s, hs, rfl⟩ := List.mem_map.mp ht
  exact Scanner.namesInOrder_scanAll _ s hs

/-! ### Elements and their tags -/

/-- The node, of the given number, is no copy, and if it is an element then one of the tokens is
its start tag. -/
structure Node.IsRead (n : Node) (tokens : List Token) (id : NodeId) : Prop where
  origin : n.origin = none
  element : ∀ e, n.element? = some e → ∃ t ∈ tokens, t.span = n.span ∧
    ∃ name nameSpan raws selfClosing, t.kind = .startTag name nameSpan raws selfClosing ∧
      e.attributes = TreeBuilder.ownedAttributes id raws

variable {tokens : List Token}

theorem Node.IsRead.mapElement {n : Node} {id : NodeId} (h : n.IsRead tokens id)
    {f : Element → Element} (hf : ∀ e, (f e).attributes = e.attributes) :
    (n.mapElement f).IsRead tokens id := by
  obtain ⟨kind, span, parent, origin⟩ := n
  cases kind with
  | element e =>
      refine ⟨h.origin, fun e' he' => ?_⟩
      obtain rfl : f e = e' := Option.some.inj he'
      rw [hf]
      exact h.element e rfl
  | _ => exact h

theorem Node.isRead_of_not_element {n : Node} {id : NodeId} (hn : n.element? = none)
    (horigin : n.origin = none) : n.IsRead tokens id :=
  ⟨horigin, fun e he => by rw [hn] at he; cases he⟩

namespace Arena

/-- Whether every node is as it was read from the tokens. -/
def IsRead (a : Arena) (tokens : List Token) : Prop := ∀ id, (a.node id).IsRead tokens id

variable {a : Arena}

/-- A new child changes nothing but the list of children of its parent. -/
theorem node_addChild_or (a : Arena) (parent child id : NodeId) :
    (a.addChild parent child).node id = a.node id ∨ (a.addChild parent child).node id
      = (a.node id).mapElement fun e => { e with children := e.children ++ [child] } := by
  by_cases hlt : parent < child ∧ child < a.size
  · by_cases hid : id = parent
    · subst hid
      exact .inr (node_addChild_self a hlt.1 hlt.2)
    · exact .inl (node_addChild_of_ne a child hid)
  · exact .inl (by rw [addChild, dif_neg (show ¬(parent < child ∧ child < a.nodes.size) from hlt)])

theorem IsRead.add (h : a.IsRead tokens) {n : Node} (hn : n.IsRead tokens a.size) :
    (a.add n).IsRead tokens := by
  intro id
  rcases Nat.lt_trichotomy id a.size with hlt | rfl | hgt
  · rw [node_add_of_lt a n hlt]
    exact h id
  · rw [node_add_size]
    exact hn.mapElement fun _ => rfl
  · rw [node_of_size_le _ (by rw [size_add]; exact hgt)]
    exact Node.isRead_of_not_element rfl rfl

theorem IsRead.addChild (h : a.IsRead tokens) (parent child : NodeId) :
    (a.addChild parent child).IsRead tokens := by
  intro id
  rcases a.node_addChild_or parent child id with heq | heq
  · rw [heq]
    exact h id
  · rw [heq]
    exact (h id).mapElement fun _ => rfl

theorem IsRead.updateElement (h : a.IsRead tokens) (id : NodeId) {f : Element → Element}
    (hf : ∀ e, (f e).children = e.children) (hattributes : ∀ e, (f e).attributes = e.attributes) :
    (a.updateElement id f hf).IsRead tokens := by
  intro other
  by_cases hother : other = id
  · subst hother
    rw [node_updateElement_self]
    exact (h other).mapElement hattributes
  · rw [node_updateElement_of_ne a f hf hother]
    exact h other

theorem isRead_empty (tokens : List Token) : Arena.empty.IsRead tokens := fun id => by
  rw [empty.node_of_size_le (Nat.zero_le id)]
  exact Node.isRead_of_not_element rfl rfl

end Arena

namespace TreeBuilder

variable {b : TreeBuilder}

theorem isRead_attach (h : b.arena.IsRead tokens) {kind : NodeKind} {span : Span}
    (hkind : ∀ parent, Node.IsRead ⟨kind, span, parent, none⟩ tokens b.arena.size) :
    (b.attach kind span).arena.IsRead tokens := by
  unfold attach
  split
  · exact h.add (hkind none)
  · exact (h.add (hkind _)).addChild _ _

theorem isRead_startTag (h : b.arena.IsRead tokens) {t : Token} (ht : t ∈ tokens) {name : String}
    {nameSpan : Span} {raws : List RawAttribute} {selfClosing : Bool}
    (hkind : t.kind = .startTag name nameSpan raws selfClosing) :
    (b.startTag name nameSpan raws selfClosing t.span).arena.IsRead tokens := by
  have hnode : ∀ parent, Node.IsRead ⟨.element ⟨name, nameSpan,
      ownedAttributes b.arena.size raws, [], none, selfClosing⟩, t.span, parent, none⟩
      tokens b.arena.size := by
    refine fun parent => ⟨rfl, ?_⟩
    rintro e ⟨⟩
    exact ⟨t, ht, rfl, name, nameSpan, raws, selfClosing, hkind, rfl⟩
  unfold startTag
  simp only
  split <;> split <;> split
  all_goals first
    | exact isRead_attach h hnode
    | exact isRead_attach (b := b.report _ _) h hnode

theorem isRead_endTag (h : b.arena.IsRead tokens) (name : String) (span : Span) :
    (b.endTag name span).arena.IsRead tokens := by
  unfold endTag
  split
  · exact h
  · next inner closing outer heq =>
      obtain ⟨faults, hfaults⟩ := foldl_reportUnclosed inner.reverse b
      simp only [hfaults]
      refine (h.add ?_).updateElement _ _ fun _ => rfl
      exact Node.isRead_of_not_element rfl rfl

theorem isRead_token (h : b.arena.IsRead tokens) (keepComments : Bool) {t : Token}
    (ht : t ∈ tokens) : (b.token keepComments t).arena.IsRead tokens := by
  unfold token
  split
  · next hkind => exact isRead_startTag h ht hkind
  · exact isRead_endTag h _ _
  · simp only
    split
    · exact isRead_attach (b := b.report _ _) h fun _ => Node.isRead_of_not_element rfl rfl
    · exact isRead_attach h fun _ => Node.isRead_of_not_element rfl rfl
  · split
    · exact isRead_attach h fun _ => Node.isRead_of_not_element rfl rfl
    · exact h
  · exact h

theorem isRead_foldl_token (h : b.arena.IsRead tokens) (keepComments : Bool)
    {later : List Token} (hlater : later ⊆ tokens) :
    (later.foldl (token keepComments) b).arena.IsRead tokens := by
  induction later generalizing b with
  | nil => exact h
  | cons t later ih =>
      obtain ⟨ht, hlater⟩ := List.cons_subset.mp hlater
      exact ih (isRead_token h keepComments ht) hlater

end TreeBuilder

theorem Document.isRead_ofSource (source : String) (keepComments : Bool) :
    (ofSource source keepComments).arena.IsRead (TokenStream.ofSource source).tokens := by
  have hfold := TreeBuilder.isRead_foldl_token (b := {}) (Arena.isRead_empty _) keepComments
    (List.Subset.refl (TokenStream.ofSource source).tokens)
  obtain ⟨faults, hfaults⟩ := TreeBuilder.foldl_reportUnclosed
    ((TokenStream.ofSource source).tokens.foldl (TreeBuilder.token keepComments)
      {}).unclosed.reverse
    ((TokenStream.ofSource source).tokens.foldl (TreeBuilder.token keepComments) {})
  simpa only [ofSource, TreeBuilder.ofTokens, TreeBuilder.finish, hfaults] using hfold

/-! ### Attributes of an element -/

/-- An attribute of a node that was read belongs to that node, at the position where it is. -/
theorem Node.IsRead.attribute {n : Node} {id : NodeId} (h : n.IsRead tokens id) {e : Element}
    (he : n.element? = some e) {i : Nat} {x : Attribute} (hx : e.attributes[i]? = some x) :
    x.owner = id ∧ x.index = i := by
  obtain ⟨t, -, -, name, nameSpan, raws, selfClosing, -, hattributes⟩ := h.element e he
  rw [hattributes, TreeBuilder.ownedAttributes, List.getElem?_mapIdx] at hx
  obtain ⟨raw, -, rfl⟩ := Option.map_eq_some_iff.mp hx
  exact ⟨rfl, rfl⟩

/-- The names of the attributes of an element come one after another in its tag. -/
theorem Node.IsRead.names {n : Node} {id : NodeId} (h : n.IsRead tokens id)
    (htokens : ∀ t ∈ tokens, t.NamesInOrder) {e : Element} (he : n.element? = some e) :
    e.attributes.Pairwise (fun x y => x.nameSpan.offset < y.nameSpan.offset) ∧
      ∀ x ∈ e.attributes, n.span.offset < x.nameSpan.offset ∧
        x.nameSpan.offset < n.span.stop := by
  obtain ⟨t, ht, hspan, name, nameSpan, raws, selfClosing, hkind, hattributes⟩ := h.element e he
  have hnames := htokens t ht _ _ _ _ hkind
  have hspans : (TreeBuilder.ownedAttributes id raws).map (·.nameSpan)
      = raws.map (·.nameSpan) := by
    refine List.ext_getElem (by simp [TreeBuilder.ownedAttributes]) fun i hi hi' => ?_
    simp [TreeBuilder.ownedAttributes]
  rw [hattributes, ← hspan]
  constructor
  · have hincreasing : (raws.map (·.nameSpan)).Pairwise fun s s' => s.offset < s'.offset :=
      List.pairwise_map.mpr hnames.increasing
    rw [← hspans] at hincreasing
    exact (List.pairwise_map (f := Attribute.nameSpan)).mp hincreasing
  · intro x hx
    have hmem : x.nameSpan ∈ (TreeBuilder.ownedAttributes id raws).map (·.nameSpan) :=
      List.mem_map.mpr ⟨x, hx, rfl⟩
    rw [hspans] at hmem
    obtain ⟨raw, hraw, heq⟩ := List.mem_map.mp hmem
    rw [← heq]
    exact hnames.inside raw hraw

end PatternMarkup
