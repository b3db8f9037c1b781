import PatternMarkup.Proofs.Pattern.UnusablePatterns
/-!
Styles that are taken over. A figure takes over the expressions of the style around it that its
element does not set, and gives names to its items and variables that are none of the canvas. All
figures of a document are so, copies too.
-/

namespace PatternMarkup

open Binder

variable {α : Type}

/-! ### What a figure takes over -/

/-- The names that a loop gives to its items and their places. -/
def Loop.names (loop : Loop α) : List String := loop.item :: loop.index.toList

/-- The names that a figure gives to the items of its loop and to its variables. -/
def FigureHead.names (head : FigureHead α) : List String :=
  head.loop.elim [] Loop.names ++ head.vars.map (·.name)

/-- What a figure takes over, if its element does not set it, from the style around it. Its own
names are none of the canvas. -/
structure FigureHead.TakesOver (a : Arena) (outer : Style α) (head : FigureHead α) : Prop where
  node_lt : head.node < a.size
  strokeWidth : a.attribute? head.node "stroke-width" = none →
    head.style.strokeWidth = outer.strokeWidth
  textColor : a.attribute? head.node "text-color" = none →
    head.style.textColor = outer.textColor
  names : ∀ n ∈ head.names, Canvas.isReserved n = false

mutual

/-- All that is in a figure takes over the style of the figure that it is in. -/
def Figure.Cascades (a : Arena) (outer : Style α) : Figure α → Prop
  | .mk head children => head.TakesOver a outer ∧ AllCascade a head.style.inherited children

/-- Several figures take over the style around them, and so do those in them. -/
def AllCascade (a : Arena) (outer : Style α) : List (Figure α) → Prop
  | [] => True
  | figure :: rest => figure.Cascades a outer ∧ AllCascade a outer rest

end

theorem allCascade_append {a : Arena} {outer : Style α} {figures more : List (Figure α)}
    (h : AllCascade a outer figures) (hmore : AllCascade a outer more) :
    AllCascade a outer (figures ++ more) := by
  induction figures with
  | nil => exact hmore
  | cons figure rest ih => exact ⟨h.1, ih h.2⟩

theorem Arena.GrowsTo.attribute?_eq {a b : Arena} (h : a.GrowsTo b) {id : NodeId}
    (hid : id < a.size) (name : String) : b.attribute? id name = a.attribute? id name := by
  rw [Arena.attribute?, Arena.element?, h.kept id hid]
  rfl

theorem FigureHead.TakesOver.mono {a b : Arena} (hgrows : a.GrowsTo b) {outer : Style α}
    {head : FigureHead α} (h : head.TakesOver a outer) : head.TakesOver b outer := by
  refine ⟨Nat.lt_of_lt_of_le h.node_lt hgrows.size, ?_, ?_, h.names⟩
  · rw [hgrows.attribute?_eq h.node_lt]
    exact h.strokeWidth
  · rw [hgrows.attribute?_eq h.node_lt]
    exact h.textColor

mutual

theorem Figure.Cascades.mono {a b : Arena} (hgrows : a.GrowsTo b) {outer : Style α} :
    {figure : Figure α} → figure.Cascades a outer → figure.Cascades b outer
  | .mk _ _, h => ⟨h.1.mono hgrows, AllCascade.mono hgrows h.2⟩

theorem AllCascade.mono {a b : Arena} (hgrows : a.GrowsTo b) {outer : Style α} :
    {figures : List (Figure α)} → AllCascade a outer figures → AllCascade b outer figures
  | [], _ => trivial
  | _ :: _, h => ⟨h.1.mono hgrows, AllCascade.mono hgrows h.2⟩

end

/-! ### Names of loops and variables -/

theorem gives_acceptsVariable (name : String) (span : Span) :
    Gives (acceptsVariable name span) fun accepted =>
      accepted = true → Canvas.isReserved name = false := by
  unfold acceptsVariable
  split
  · exact .of_next fun _ => .pure nofun
  · split
    · exact .of_next fun _ => .pure nofun
    · rename_i hreserved
      exact .pure fun _ => Bool.eq_false_iff.mpr hreserved

/-- A loop over a list is left early, or goes through the whole list and keeps what each step
keeps. -/
theorem gives_forIn {β γ : Type} {l : List β} {start : γ} {f : β → γ → Binder (ForInStep γ)}
    (Left Kept : γ → Prop) {P : β → Prop} (hstart : Kept start)
    (h : ∀ x y, Gives (f x y) fun step =>
      (∃ z, step = .done z ∧ Left z) ∨ ∃ z, step = .yield z ∧ Kept z ∧ P x) :
    Gives (forIn l start f) fun found => Left found ∨ Kept found ∧ ∀ x ∈ l, P x := by
  induction l generalizing start with
  | nil => exact .pure (.inr ⟨hstart, List.forall_mem_nil _⟩)
  | cons x l ih =>
      rw [List.forIn_cons]
      refine (h x start).bind fun step hstep => ?_
      rcases hstep with ⟨z, rfl, hz⟩ | ⟨z, rfl, hkept, hx⟩
      · exact .pure (.inl hz)
      · exact fun r => (ih hkept r).imp_right fun hl =>
          ⟨hl.1, List.forall_mem_cons.mpr ⟨hx, hl.2⟩⟩

theorem gives_loopNames? (a : Attribute) (text : List Char) :
    Gives (loopNames? a text) fun found => ∀ names ∈ found,
      ∀ n ∈ names.1 :: names.2.toList, Canvas.isReserved n = false := by
  have haccept : ∀ (all : List String) (found : Option (String × Option String)),
      (∀ names ∈ found, all = names.1 :: names.2.toList) →
      Gives (do
        for name in all do
          unless ← acceptsVariable name a.valueSpan do return none
        return found) fun left => ∀ names ∈ left,
          ∀ n ∈ names.1 :: names.2.toList, Canvas.isReserved n = false := by
    intro all found hall
    refine (gives_forIn (fun left => left.1 = some none) (fun left => left.1 = none)
      (P := fun n => Canvas.isReserved n = false) rfl fun name _ => ?_).bind fun left hleft => ?_
    · refine (gives_acceptsVariable name a.valueSpan).bind fun accepted haccepted => ?_
      cases accepted with
      | false => exact .pure (.inl ⟨_, rfl, rfl⟩)
      | true => exact .pure (.inr ⟨_, rfl, rfl, haccepted rfl⟩)
    · obtain ⟨returned, last⟩ := left
      rcases hleft with rfl | ⟨rfl, hnames⟩
      · exact .none
      · exact .pure fun names hnames' => hall names hnames' ▸ hnames
  unfold loopNames?
  simp only
  split
  · exact haccept _ _ (by simp)
  · exact haccept _ _ (by simp)
  · exact .of_next fun _ => .none

section

variable [Number α]

theorem gives_figureLoop (e : Element) (s : Scope α) :
    Gives (figureLoop e s) fun result => ∀ loop ∈ result.1,
      ∀ n ∈ loop.names, Canvas.isReserved n = false := by
  have hloop : ∀ a : Attribute, Gives (loop? a s) fun found => ∀ loop ∈ found,
      ∀ n ∈ loop.names, Canvas.isReserved n = false := by
    intro a
    unfold loop?
    split
    · exact .of_next fun _ => .none
    · refine (gives_loopNames? a _).bind fun names hnames => ?_
      cases names with
      | none => exact .none
      | some names =>
          refine .of_next fun items => ?_
          cases items with
          | none => exact .none
          | some items => exact .some (hnames names rfl)
  unfold figureLoop
  refine .of_next fun a => ?_
  cases a with
  | none => exact .pure nofun
  | some a =>
      refine (hloop a).bind fun loop hnames => ?_
      cases loop with
      | none => exact .pure nofun
      | some loop => exact .pure hnames

theorem gives_declaredVariables_names {before : List DeclaredVariable}
    (hbefore : ∀ d ∈ before, Canvas.isReserved d.name = false)
    (elements : List (Tree × Element × Tag)) :
    Gives (declaredVariables before elements) fun declared =>
      ∀ d ∈ declared, Canvas.isReserved d.name = false := by
  have hvariable : ∀ before tree e, Gives (declaredVariable? before tree e) fun found =>
      ∀ d ∈ found, Canvas.isReserved d.name = false := by
    intro before tree e
    unfold declaredVariable?
    refine .of_next fun _ => .of_next fun a => ?_
    cases a with
    | none => exact .none
    | some a =>
        refine (gives_acceptsVariable _ a.valueSpan).bind fun accepted haccepted => ?_
        split
        · exact .none
        · split
          · exact .of_next fun _ => .none
          · rename_i haccepts _
            refine .of_next fun type => .of_next fun value => .pure fun d hd => ?_
            obtain ⟨v, -, rfl⟩ := Option.map_eq_some_iff.mp hd
            exact haccepted (by simpa using haccepts)
  induction elements generalizing before with
  | nil => exact .pure hbefore
  | cons found elements ih =>
      obtain ⟨tree, e, tag⟩ := found
      have hnext : ∀ found : Option DeclaredVariable,
          (∀ d ∈ found, Canvas.isReserved d.name = false) →
          Gives (declaredVariables (before ++ found.toList) elements) fun declared =>
            ∀ d ∈ declared, Canvas.isReserved d.name = false :=
        fun found hfound => ih (List.forall_mem_append.mpr ⟨hbefore, by simpa using hfound⟩)
      rw [declaredVariables]
      split
      · exact (hvariable before tree e).bind hnext
      · exact hnext none nofun

theorem gives_figureVariables_names (children : List Tree) (s : Scope α) :
    Gives (figureVariables children s) fun result =>
      ∀ v ∈ result.1, Canvas.isReserved v.name = false := by
  unfold figureVariables
  refine (gives_declaredVariables_names (List.forall_mem_nil _) _).bind fun declared hnames =>
    .of_next fun values => .of_next fun _ => .pure fun v hv => ?_
  obtain ⟨⟨d, value⟩, hpair, rfl⟩ := List.mem_map.mp hv
  exact hnames d (List.of_mem_zip hpair).1

theorem gives_typed?_none {τ : Type} [Typed α τ] {e : Element} {name : String}
    (h : e.attribute? name = none) (s : Scope α) (axis : Option Axis) :
    Gives (typed? e name s axis : Binder (Option (Expression α τ))) fun found => found = none := by
  unfold typed? attribute?
  rw [h]
  exact .of_pure (.pure rfl)

theorem gives_withTransform (style : Style α) (e : Element)
    (outer own : Expression α (Transform α)) :
    Gives (style.withTransform e outer own) fun found =>
      found.strokeWidth = style.strokeWidth ∧ found.textColor = style.textColor := by
  unfold Style.withTransform
  split
  · exact .pure ⟨rfl, rfl⟩
  · split
    · exact .of_next fun _ => .pure ⟨rfl, rfl⟩
    · exact .of_pure (.pure ⟨rfl, rfl⟩)

/-- A style keeps of the style around it what its element does not set. -/
theorem gives_figureStyle (index : DocumentIndex) (e : Element) (s : Scope α) (outer : Style α) :
    Gives (figureStyle index e s outer) fun style =>
      (e.attribute? "stroke-width" = none → style.strokeWidth = outer.strokeWidth) ∧
      (e.attribute? "text-color" = none → style.textColor = outer.textColor) := by
  have hwidth : Gives (typed? e "stroke-width" s none : Binder (Option (Expression α α)))
      fun found => e.attribute? "stroke-width" = none → found = none :=
    fun r h => gives_typed?_none h s none r
  have hcolor : Gives (typed? e "text-color" s none : Binder (Option (Expression α (Color α))))
      fun found => e.attribute? "text-color" = none → found = none :=
    fun r h => gives_typed?_none h s none r
  unfold figureStyle
  refine .of_next fun fill => .of_next fun stroke => hwidth.bind fun strokeWidth hwidth =>
    hcolor.bind fun textColor hcolor => .of_next fun visible => .of_next fun transform => ?_
  have hclip : ∀ style : Style α,
      (e.attribute? "stroke-width" = none → style.strokeWidth = outer.strokeWidth) →
      (e.attribute? "text-color" = none → style.textColor = outer.textColor) →
      Gives (figureClip e >>= fun clip => pure { style with clip }) fun style : Style α =>
        (e.attribute? "stroke-width" = none → style.strokeWidth = outer.strokeWidth) ∧
        (e.attribute? "text-color" = none → style.textColor = outer.textColor) :=
    fun style hw hc => .of_next fun clip => .pure ⟨hw, hc⟩
  have hset : (e.attribute? "stroke-width" = none →
      strokeWidth.getD outer.inherited.strokeWidth = outer.strokeWidth) ∧
      (e.attribute? "text-color" = none →
        textColor.or outer.inherited.textColor = outer.textColor) := by
    refine ⟨fun h => ?_, fun h => ?_⟩
    · rw [hwidth h]
      rfl
    · rw [hcolor h]
      rfl
  cases transform with
  | none => exact .of_pure (hclip _ hset.1 hset.2)
  | some own =>
      refine (gives_withTransform _ e outer.transform own).bind fun style hstyle =>
        hclip style ?_ ?_
      · rw [hstyle.1]
        exact hset.1
      · rw [hstyle.2]
        exact hset.2

/-! ### Figures of a document -/

/-- The head of a figure takes over the style of the place where it is read, and those in it are
read where they take over its own. -/
theorem gives_openFigure (index : DocumentIndex) (tag : FigureTag) {tree : Tree} {e : Element}
    (place : Place α) {a : Arena} (htree : tree.StandsIn a)
    (helement : tree.content.element? = some e) :
    Gives (openFigure index tag tree e place) fun opened =>
      opened.1.TakesOver a place.style ∧ opened.2.style = opened.1.style.inherited := by
  have hattribute : ∀ name, a.attribute? tree.id name = e.attribute? name := by
    intro name
    obtain ⟨id, content, children⟩ := tree
    obtain ⟨-, rfl, -⟩ := htree
    rw [Arena.attribute?, Arena.element?]
    exact congrArg (Option.bind · _) helement
  refine .of_next fun _ => .of_next fun id => (gives_figureLoop e place.scope).bind
    fun loop hloop => (gives_figureVariables_names tree.children _).bind fun vars hvars =>
      .of_next fun kind => (gives_figureStyle index e _ place.style).bind fun style hstyle =>
        .pure ⟨⟨htree.id_lt, ?_, ?_, fun n hn => ?_⟩, rfl⟩
  · intro h
    rw [hattribute] at h
    exact hstyle.1 h
  · intro h
    rw [hattribute] at h
    exact hstyle.2 h
  · rcases List.mem_append.mp hn with hn | hn
    · obtain ⟨found, s⟩ := loop
      cases found with
      | none => cases hn
      | some loop => exact hloop loop rfl n hn
    · obtain ⟨v, hv, rfl⟩ := List.mem_map.mp hn
      exact hvars v hv

section

variable {base : Arena} {index : DocumentIndex} {expand : NodeId → Option (TreeBinder α)}

theorem cascades_bindFigure {tag : FigureTag} {tree : Tree} {e : Element} {place : Place α}
    {inside : Place α → Binder (List (Figure α))} {r : DocumentReading}
    (htree : tree.StandsIn r.arena) (helement : tree.content.element? = some e)
    (hgrows : r.arena.GrowsTo (bindFigure index tag tree e place inside r).2.arena)
    (hinside : ∀ inner r', r.arena.GrowsTo r'.arena →
      AllCascade (inside inner r').2.arena inner.style (inside inner r').1) :
    (bindFigure index tag tree e place inside r).1.Cascades
      (bindFigure index tag tree e place inside r).2.arena place.style := by
  have hopened := gives_openFigure index tag place htree helement r
  have hopen := (openFigure_finds index tag tree e place r).arena
  rcases hrun : openFigure index tag tree e place r with ⟨⟨head, inner⟩, r'⟩
  rw [hrun] at hopened hopen
  obtain ⟨hhead, hinner⟩ := hopened
  simp only [bindFigure, bind_apply, hrun] at hgrows ⊢
  by_cases htext : tag = .text
  · simp only [if_pos htext] at hgrows ⊢
    exact ⟨hhead.mono hgrows, trivial⟩
  · simp only [if_neg htext] at hgrows ⊢
    have hchildren := hinside inner r' hopen
    rw [hinner] at hchildren
    exact ⟨hhead.mono hgrows, hchildren⟩

/-- Whether what a step finds in a state takes over a style. -/
def Binder.Cascades (step : Binder (Option (Figure α))) (outer : Style α) (r : DocumentReading) :
    Prop :=
  ∀ figure ∈ (step r).1, figure.Cascades (step r).2.arena outer

omit [Number α] in
theorem cascades_none (step : Binder Unit) (outer : Style α) (r : DocumentReading) :
    (step >>= fun _ => pure none).Cascades outer r :=
  fun figure hfigure => absurd hfigure (Option.not_mem_none figure)

omit [Number α] in
theorem cascades_some {step : Binder (Figure α)} {outer : Style α} {r : DocumentReading}
    (h : (step r).1.Cascades (step r).2.arena outer) :
    (step >>= fun figure => pure (some figure)).Cascades outer r :=
  fun _ hfigure => Option.some.inj hfigure ▸ h

/-- Whether a way to read trees gives figures that take over the style of their place, in any arena
that holds a document and copies of its nodes. -/
def TreeBinder.CascadesAll (base : Arena) (bindTree : TreeBinder α) : Prop :=
  ∀ tree place r, base.GrowsTo r.arena → tree.StandsIn r.arena →
    (bindTree tree place).Cascades place.style r

omit [Number α] in
theorem cascades_bindReference (hbase : base.IsWritten)
    (hexpand : ∀ target bindCopy, expand target = some bindCopy → bindCopy.CascadesAll base)
    (e : Element) (href : Attribute) {target : NodeId} (htarget : target < base.size)
    (place : Place α) {r : DocumentReading} (hgrows : base.GrowsTo r.arena) :
    (bindReference expand e href target place).Cascades place.style r := by
  unfold bindReference
  split
  · exact cascades_none (refuseUse href) place.style r
  · next bindCopy hexpanded =>
      obtain ⟨hcopy, hstands⟩ := finds_useCopy? (α := α) hbase hgrows htarget e href
      rw [Cascades, bind_apply]
      generalize useCopy? e href target r = copied at hcopy hstands ⊢
      obtain ⟨_ | copy, r'⟩ := copied
      · exact cascades_none (pure ()) place.style r'
      · exact hexpand target bindCopy hexpanded copy place r' (hgrows.trans hcopy.arena)
          (hstands copy rfl)

omit [Number α] in
theorem cascades_bindUse (hbase : base.IsWritten) (hindex : index.PointsInto base)
    (hexpand : ∀ target bindCopy, expand target = some bindCopy → bindCopy.CascadesAll base)
    (tree : Tree) (e : Element) (place : Place α) {r : DocumentReading}
    (hgrows : base.GrowsTo r.arena) :
    (bindUse index expand tree e place).Cascades place.style r := by
  have hread := (reads_useTarget? index tree e).finds (α := α) r
  have htarget := gives_useTarget? index tree e r
  rw [Cascades, bindUse, bind_apply]
  generalize useTarget? index tree e r = found at hread htarget ⊢
  obtain ⟨_ | ⟨href, target⟩, r'⟩ := found
  · exact cascades_none (pure ()) place.style r'
  · exact cascades_bindReference hbase hexpand e href (hindex target (htarget _ rfl)) place
      (hgrows.trans hread.arena)

mutual

theorem cascades_bindTree (hbase : base.IsWritten) (hindex : index.PointsInto base)
    (hfinds : ∀ target bindCopy, expand target = some bindCopy → bindCopy.FindsAll base)
    (hexpand : ∀ target bindCopy, expand target = some bindCopy → bindCopy.CascadesAll base) :
    ∀ tree, ∀ (place : Place α) (r : DocumentReading), base.GrowsTo r.arena →
      tree.StandsIn r.arena → (bindTree index expand tree place).Cascades place.style r
  | .node id content children, place, r, hgrows, hstands => by
      unfold bindTree
      simp only
      split
      · exact cascades_none (pure ()) place.style r
      · next e tag hfound =>
          obtain ⟨e', he', hsome⟩ := Option.map_eq_some_iff.mp hfound
          obtain ⟨rfl, -⟩ := Prod.mk.inj hsome
          have haccounts : (bindFigure index tag _ e' place _).Accounts Figure.heads r :=
            accounts_bindFigure hstands fun inner r' hr' =>
              accounts_bindTrees hbase hindex hfinds children inner r' (hgrows.trans hr')
                (Tree.AllStandIn.mono hr' hstands.2.2)
          have hfigure := cascades_bindFigure hstands he' haccounts.arena fun inner r' hr' =>
            cascades_bindTrees hbase hindex hfinds hexpand children inner r' (hgrows.trans hr')
              (Tree.AllStandIn.mono hr' hstands.2.2)
          exact cascades_some hfigure
      · exact cascades_bindUse hbase hindex hexpand _ _ place hgrows
      · exact cascades_none (passOver _ _ _) place.style r

theorem cascades_bindTrees (hbase : base.IsWritten) (hindex : index.PointsInto base)
    (hfinds : ∀ target bindCopy, expand target = some bindCopy → bindCopy.FindsAll base)
    (hexpand : ∀ target bindCopy, expand target = some bindCopy → bindCopy.CascadesAll base) :
    ∀ trees, ∀ (place : Place α) (r : DocumentReading), base.GrowsTo r.arena →
      Tree.AllStandIn r.arena trees →
        AllCascade (bindTrees index expand trees place r).2.arena place.style
          (bindTrees index expand trees place r).1
  | [], _, _, _, _ => trivial
  | tree :: rest, place, r, hgrows, hstand => by
      have hfound := accounts_bindTree hbase hindex hfinds tree place r hgrows hstand.1
      have hfirst := cascades_bindTree hbase hindex hfinds hexpand tree place r hgrows hstand.1
      have hmore := accounts_bindTrees hbase hindex hfinds rest place _
        (hgrows.trans hfound.arena) (hstand.2.mono hfound.arena)
      have hrest := cascades_bindTrees hbase hindex hfinds hexpand rest place _
        (hgrows.trans hfound.arena) (hstand.2.mono hfound.arena)
      simp only [bindTrees, bind_apply, pure_apply]
      refine allCascade_append ?_ hrest
      cases hfigure : (bindTree index expand tree place r).1 with
      | none => trivial
      | some figure => exact ⟨(hfirst figure hfigure).mono hmore.arena, trivial⟩

end

/-- In copies as well figures take over the style of their place; the induction is on the targets
that are left. -/
theorem cascades_expandTarget (hbase : base.IsWritten) (hindex : index.PointsInto base)
    (expanding : List NodeId) (target : NodeId) (bindCopy : TreeBinder α)
    (h : expandTarget index expanding target = some bindCopy) : bindCopy.CascadesAll base := by
  rw [expandTarget] at h
  split at h
  · next hfree =>
      obtain rfl := Option.some.inj h
      have := index.length_freeTargets_lt hfree
      exact cascades_bindTree hbase hindex (finds_expandTarget hbase hindex _)
        fun inner bindInner hinner =>
          cascades_expandTarget hbase hindex (target :: expanding) inner bindInner hinner
  · cases h
termination_by (index.freeTargets expanding).length

theorem cascades_bindOutermost (hbase : base.IsWritten) (hindex : index.PointsInto base)
    (tag : FigureTag) {tree : Tree} {e : Element} (helement : tree.content.element? = some e)
    (place : Place α) {r : DocumentReading} (hgrows : base.GrowsTo r.arena)
    (hstands : tree.StandsIn r.arena) :
    (bindOutermost index tag tree e place r).1.Cascades
      (bindOutermost index tag tree e place r).2.arena place.style := by
  have haccounts := accounts_bindOutermost hbase hindex tag e place hgrows hstands
  exact cascades_bindFigure hstands helement haccounts.arena fun inner r' hr' =>
    cascades_bindTrees hbase hindex (finds_expandTarget hbase hindex [])
      (cascades_expandTarget hbase hindex []) tree.children inner r' (hgrows.trans hr')
        (hstands.mono hr').children

/-- What a pattern draws takes over the style outside all figures. -/
def Pattern.Cascades (a : Arena) (p : Pattern α) : Prop :=
  ∀ content ∈ p.content, content.body.Cascades a .initial

theorem gives_patternParts_style (tree : Tree) (e : Element) (kind : PatternKind) :
    Gives (patternParts (α := α) tree e kind) fun parts =>
      parts.2.style = .initial ∧ ∀ body, (parts.1 body).body = body :=
  .of_next fun _ => .of_next fun _ => .of_next fun _ => .of_next fun _ => .of_next fun _ =>
    .of_next fun _ => .of_next fun _ => .of_next fun _ => .pure ⟨rfl, fun _ => rfl⟩

theorem cascades_patternContent (hbase : base.IsWritten) (hindex : index.PointsInto base)
    {tree : Tree} {e : Element} (helement : tree.content.element? = some e) (kind : PatternKind)
    {r : DocumentReading} (hgrows : base.GrowsTo r.arena) (hstands : tree.StandsIn r.arena) :
    (patternContent (α := α) index tree e kind r).1.body.Cascades
      (patternContent (α := α) index tree e kind r).2.arena .initial := by
  have hparts := (reads_patternParts (α := α) tree e kind).finds (α := α) r
  have hmade := gives_patternParts_style (α := α) tree e kind r
  rcases hrun : patternParts (α := α) tree e kind r with ⟨⟨content, place⟩, r'⟩
  rw [hrun] at hparts hmade
  obtain ⟨hstyle, hbodies⟩ := hmade
  have hbody := cascades_bindOutermost hbase hindex .div helement place
    (hgrows.trans hparts.arena) (hstands.mono hparts.arena)
  have hroles := (reads_checkRoles kind e).finds (α := α)
    (bindOutermost index .div tree e place r').2
  dsimp only at hstyle
  rw [hstyle] at hbody
  simp only [patternContent, bind_apply, pure_apply, hrun]
  dsimp only at hbodies
  rw [hbodies]
  exact hbody.mono hroles.arena

theorem cascades_bindPattern (hbase : base.IsWritten) (hindex : index.PointsInto base)
    (library : String) {tree : Tree} {e : Element} (helement : tree.content.element? = some e)
    {r : DocumentReading} (hgrows : base.GrowsTo r.arena) (hstands : tree.StandsIn r.arena) :
    (bindPattern (α := α) index library tree e r).1.Cascades
      (bindPattern (α := α) index library tree e r).2.arena := by
  have hhead := (reads_patternHead tree e).finds (α := α) r
  rcases hrun : patternHead tree e r with ⟨⟨name, kind⟩, r'⟩
  rw [hrun] at hhead
  rcases name with _ | name
  · simp only [bindPattern, bind_apply, get_apply, hrun]
    intro content hcontent
    cases hcontent
  · rcases kind with _ | kind
    · simp only [bindPattern, bind_apply, get_apply, hrun]
      intro content hcontent
      cases hcontent
    · have hcontent := cascades_patternContent (α := α) hbase hindex helement kind
        (hgrows.trans hhead.arena) (hstands.mono hhead.arena)
      simp only [bindPattern, bind_apply, get_apply, pure_apply, hrun]
      exact fun _ h => Option.some.inj h ▸ hcontent

theorem Pattern.Cascades.mono {a b : Arena} (hgrows : a.GrowsTo b) {p : Pattern α}
    (h : p.Cascades a) : p.Cascades b :=
  fun content hcontent => (h content hcontent).mono hgrows

/-- Whether the patterns that a step gives in a state cascade their styles. -/
def Binder.CascadesPatterns (step : Binder (List (Pattern α))) (r : DocumentReading) : Prop :=
  ∀ p ∈ (step r).1, p.Cascades (step r).2.arena

theorem cascades_bindEntries (hbase : base.IsWritten) (hindex : index.PointsInto base)
    (library : String) (names : List String) (entries : List (Tree × Element × Tag))
    {r : DocumentReading} (hgrows : base.GrowsTo r.arena)
    (hstand : ∀ entry ∈ entries, entry.1.StandsIn r.arena)
    (helements : ∀ entry ∈ entries, entry.1.content.element? = some entry.2.1) :
    (bindEntries (α := α) index library names entries).CascadesPatterns r := by
  induction entries generalizing names r with
  | nil => exact List.forall_mem_nil _
  | cons entry entries ih =>
      obtain ⟨tree, e, tag⟩ := entry
      obtain ⟨helement, hothers⟩ := List.forall_mem_cons.mp helements
      obtain ⟨hstands, hlater⟩ := List.forall_mem_cons.mp hstand
      have hpassed : ∀ {step : Binder Unit}, Reads step → (do
          step
          bindEntries (α := α) index library names entries).CascadesPatterns r :=
        fun {step} hstep =>
          have hread := hstep.finds (α := α) r
          ih names (hgrows.trans hread.arena)
            (fun entry hentry => (hlater entry hentry).mono hread.arena) hothers
      unfold bindEntries
      split
      · have haccounts := accounts_bindPattern (α := α) hbase hindex library e hgrows hstands
        have hpattern := cascades_bindPattern (α := α) hbase hindex library helement hgrows hstands
        rw [Accounts] at haccounts
        rw [CascadesPatterns, bind_apply]
        generalize bindPattern (α := α) index library tree e r = found at haccounts hpattern ⊢
        obtain ⟨p, r'⟩ := found
        have hreported := (reads_reportDuplicate names e p).finds (α := α) r'
        have hsofar := haccounts.arena.trans hreported.arena
        have hmore := accounts_bindEntries (α := α) hbase hindex library
          (if p.isError then names else p.name :: names) entries (hgrows.trans hsofar)
          fun entry hentry => (hlater entry hentry).mono hsofar
        have hrest := ih (if p.isError then names else p.name :: names) (hgrows.trans hsofar)
          (fun entry hentry => (hlater entry hentry).mono hsofar) hothers
        exact List.forall_mem_cons.mpr
          ⟨hpattern.mono (hreported.arena.trans hmore.arena), hrest⟩
      · exact hpassed (reads_markNode tree)
      · exact hpassed (reads_markTree tree)
      · exact hpassed (reads_markTree tree)
      · exact hpassed (.pure ())
      · exact hpassed (reads_reject tree _)
      · exact hpassed (reads_reject tree _)

theorem cascades_bindRoot (hbase : base.IsWritten) (hindex : index.PointsInto base)
    (o : BindOptions) {tree : Tree} {r : DocumentReading} (hgrows : base.GrowsTo r.arena)
    (hstands : tree.element?.isSome → tree.StandsIn r.arena) :
    (bindRoot (α := α) index o tree).CascadesPatterns r := by
  unfold bindRoot
  split
  · next e hfound =>
      have hstands := hstands (by rw [hfound]; rfl)
      have hopen := ((reads_markNode tree).bind fun _ => reads_bindLibraryName o e).finds (α := α) r
      exact cascades_bindEntries hbase hindex _ [] _ (hgrows.trans hopen.arena)
        (fun entry hentry =>
          Tree.standsIn_of_mem_elements (hstands.mono hopen.arena).children hentry)
        fun entry hentry => Tree.element_of_mem_elements hentry
  · next e hfound =>
      obtain ⟨e', he', heq⟩ := Option.map_eq_some_iff.1 hfound
      obtain rfl : e' = e := congrArg Prod.fst heq
      exact List.forall_mem_singleton.mpr
        (cascades_bindPattern hbase hindex o.libraryName he' hgrows (hstands (by rw [hfound]; rfl)))
  · exact List.forall_mem_nil _

end

theorem cascades_bindPatterns (o : BindOptions) {doc : Document} (hdoc : doc.arena.IsWritten)
    {r : DocumentReading} (hr : r.arena = doc.arena) :
    (bindPatterns (α := α) o doc).CascadesPatterns r := by
  have hread := (reads_collectIds [] (idAttributes doc.arena)).finds (α := α) r
  have hgrows : doc.arena.GrowsTo (collectIds [] (idAttributes doc.arena) r).2.arena :=
    hr ▸ hread.arena
  unfold bindPatterns
  cases doc.root with
  | none => exact List.forall_mem_nil _
  | some root =>
      exact cascades_bindRoot hdoc (pointsInto_collectIds hdoc o.sourceFolder r) o hgrows
        fun helement => (Arena.standsIn_of_element helement).mono hgrows

/-- The patterns of a document cascade their styles. -/
theorem cascades_bindSource (source : String) (o : BindOptions) :
    ∀ p ∈ (bindSource source o : BoundDocument α).patterns,
      p.Cascades (bindSource source o : BoundDocument α).document.arena :=
  cascades_bindPatterns o (Document.isWritten_ofSource source o.keepComments) rfl

end

end PatternMarkup
