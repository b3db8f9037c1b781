import PatternMarkup.Markup.Document
/-!
Printing markup. A tree of elements, text and comments is written with its references escaped;
decoding what is written gives the text back, and nothing that is written is a fault.
-/

namespace PatternMarkup

/-- A tree of markup without places. An element that closes itself has no children. -/
inductive MarkupTree where
  | element (name : String) (attributes : List (String × String)) (children : List MarkupTree)
  | selfClosed (name : String) (attributes : List (String × String))
  | text (content : String)
  | comment (content : String)

namespace MarkupTree

/-! ### Printing -/

/-- A character as it is written: as a reference where it would start one or a tag and, between
quotes, where it would end the value. -/
def escapeChar (quoted : Bool) (c : Char) : List Char :=
  if c = '&' then Entity.written ['a', 'm', 'p']
  else if c = '<' then Entity.written ['l', 't']
  else if c = '"' ∧ quoted then Entity.written ['q', 'u', 'o', 't']
  else [c]

/-- Text as it is written. -/
def escape (quoted : Bool) (text : List Char) : List Char := text.flatMap (escapeChar quoted)

/-- The attributes of a start tag as they are written. -/
def printAttributes : List (String × String) → List Char
  | [] => []
  | (name, value) :: rest =>
      ' ' :: (name.toList ++ '=' :: '"' ::
        (escape true value.toList ++ '"' :: printAttributes rest))

mutual

/-- A tree as it is written. -/
def print : MarkupTree → List Char
  | element name attributes children =>
      '<' :: (name.toList ++ (printAttributes attributes ++
        '>' :: (printAll children ++ '<' :: '/' :: (name.toList ++ ['>']))))
  | selfClosed name attributes => '<' :: (name.toList ++ (printAttributes attributes ++ ['/', '>']))
  | text content => escape false content.toList
  | comment content => '<' :: '!' :: '-' :: '-' :: (content.toList ++ ['-', '-', '>'])

/-- Trees as they are written one after another. -/
def printAll : List MarkupTree → List Char
  | [] => []
  | tree :: rest => tree.print ++ printAll rest

end

/-! ### Trees that can be read -/

/-- A name of the markup: it starts like one, and goes on with characters of names. -/
def IsName : List Char → Prop
  | [] => False
  | c :: rest => isNameStart c ∧ rest.all isNameChar

instance decidableIsName : (name : List Char) → Decidable (IsName name)
  | [] => inferInstanceAs (Decidable False)
  | c :: rest => inferInstanceAs (Decidable (isNameStart c ∧ rest.all isNameChar))

/-- Text whose blanks are single spaces. -/
structure IsNormalText (text : List Char) : Prop where
  nonempty : text ≠ []
  spaces : ∀ c ∈ text, isBlank c → c = ' '
  single : ¬ [' ', ' '] <:+: text

/-- Attributes with names, no name twice. -/
structure AreAttributes (attributes : List (String × String)) : Prop where
  names : ∀ a ∈ attributes, IsName a.1.toList
  distinct : (attributes.map Prod.fst).Nodup

/-- Whether a tree is text. -/
def isText : MarkupTree → Bool
  | text _ => true
  | _ => false

/-- Whether a tree is an element. -/
def isElement : MarkupTree → Bool
  | element .. => true
  | selfClosed .. => true
  | _ => false

mutual

/-- A tree that reads back as it is printed: names are names of the markup, text is normal and
not next to other text, and no comment holds its own end. -/
def WellFormed : MarkupTree → Prop
  | element name attributes children =>
      IsName name.toList ∧ AreAttributes attributes ∧ AllWellFormed children
  | selfClosed name attributes => IsName name.toList ∧ AreAttributes attributes
  | text content => IsNormalText content.toList
  | comment content => ¬ ['-', '-', '>'] <:+: content.toList

/-- Neighbours of which each is well formed and no two are text. -/
def AllWellFormed : List MarkupTree → Prop
  | [] => True
  | tree :: rest =>
      tree.WellFormed ∧ (tree.isText → ∀ next ∈ rest.head?, ¬ next.isText) ∧ AllWellFormed rest

end

/-! ### Trees of a document -/

/-- The tree of an element that was read, given those of its children. -/
def ofElement? (e : Element) (children : List MarkupTree) : Option MarkupTree :=
  let attributes := e.attributes.map fun a => (a.name, a.value)
  if e.selfClosing then
    if children.isEmpty then some (.selfClosed e.name attributes) else none
  else some (.element e.name attributes children)

end MarkupTree

mutual

/-- The markup a tree of nodes stands for. -/
def Tree.markup? : Tree → Option MarkupTree
  | .node _ content children =>
      match content.kind with
      | .element e => (Tree.markups? children).bind (MarkupTree.ofElement? e)
      | .text content _ => some (.text content)
      | .comment content => some (.comment content)
      | .endTag _ => none

/-- The markup several trees of nodes stand for. -/
def Tree.markups? : List Tree → Option (List MarkupTree)
  | [] => some []
  | tree :: rest => do return (← tree.markup?) :: (← Tree.markups? rest)

end

/-! ### References that are written -/

namespace Entity

/-- What stands between `&` and `;` is short enough for a reference and stands for a
character. -/
structure Denotes (body : List Char) (c : Char) : Prop where
  chars : body.all isBodyChar
  nonempty : body ≠ []
  short : body.length ≤ 10
  decoded : decode? body = some c

theorem Denotes.split? {body : List Char} {c : Char} (h : Denotes body c) (rest : List Char) :
    Entity.split? (body ++ ';' :: rest) = some (body, rest) := by
  have hsemicolon : isBodyChar ';' = false := by decide
  have hchars := List.all_eq_true.mp h.chars
  have htake : (body ++ ';' :: rest).takeWhile isBodyChar = body := by
    rw [List.takeWhile_append_of_pos hchars, List.takeWhile_cons_of_neg (by simp [hsemicolon]),
      List.append_nil]
  have hdrop : (body ++ ';' :: rest).dropWhile isBodyChar = ';' :: rest := by
    rw [List.dropWhile_append_of_pos hchars, List.dropWhile_cons_of_neg (by simp [hsemicolon])]
  have hsize : (body.isEmpty || decide (10 < body.length)) = false := by
    simp [h.nonempty, h.short]
  simp [Entity.split?, htake, hdrop, hsize]

theorem decode_nil : decode [] = [] := by rw [decode]

theorem decode_cons_of_ne {c : Char} (h : c ≠ '&') (rest : List Char) :
    decode (c :: rest) = c :: decode rest := by
  rw [decode, if_neg h]

theorem Denotes.decode_written {body : List Char} {c : Char} (h : Denotes body c)
    (rest : List Char) : decode (written body ++ rest) = c :: decode rest := by
  have hwritten : written body ++ rest = '&' :: (body ++ ';' :: rest) := by simp [written]
  rw [hwritten, decode, if_pos rfl]
  split
  case h_1 _ after hsplit =>
    rw [h.split?] at hsplit
    cases hsplit
    rw [h.decoded, List.singleton_append]
  case h_2 hsplit =>
    rw [h.split?] at hsplit
    cases hsplit

end Entity

namespace Scanner

theorem runFaults_nil (betweenTags : Bool) (place : Position) :
    runFaults betweenTags place [] = [] := by
  rw [runFaults]

theorem runFaults_cons_of_ne {c : Char} (hamp : c ≠ '&') (hless : c ≠ '<') (betweenTags : Bool)
    (place : Position) (rest : List Char) :
    runFaults betweenTags place (c :: rest) = runFaults betweenTags (place.next c) rest := by
  rw [runFaults, if_neg hamp, if_neg (by simp [hless])]

theorem runFaults_written {body : List Char} {c : Char} (h : Entity.Denotes body c)
    (betweenTags : Bool) (place : Position) (rest : List Char) :
    runFaults betweenTags place (Entity.written body ++ rest)
      = runFaults betweenTags (place.after (Entity.written body)) rest := by
  have hwritten : Entity.written body ++ rest = '&' :: (body ++ ';' :: rest) := by
    simp [Entity.written]
  rw [hwritten, runFaults, if_pos rfl]
  split
  case h_1 _ after hsplit =>
    rw [h.split?] at hsplit
    cases hsplit
    rw [if_pos (by simp [h.decoded])]
  case h_2 hsplit =>
    rw [h.split?] at hsplit
    cases hsplit

end Scanner

namespace MarkupTree

theorem escapeChar_cases (quoted : Bool) (c : Char) :
    (escapeChar quoted c = [c] ∧ c ≠ '&' ∧ c ≠ '<' ∧ (quoted → c ≠ '"'))
      ∨ ∃ body, escapeChar quoted c = Entity.written body ∧ Entity.Denotes body c := by
  unfold escapeChar
  split
  case isTrue h => exact .inr ⟨_, rfl, by decide, by decide, by decide, h ▸ rfl⟩
  case isFalse hamp =>
    split
    case isTrue h => exact .inr ⟨_, rfl, by decide, by decide, by decide, h ▸ rfl⟩
    case isFalse hless =>
      split
      case isTrue h => exact .inr ⟨_, rfl, by decide, by decide, by decide, h.1 ▸ rfl⟩
      case isFalse hquote => exact .inl ⟨rfl, hamp, hless, fun hq hc => hquote ⟨hc, hq⟩⟩

theorem escape_cons (quoted : Bool) (c : Char) (rest : List Char) :
    escape quoted (c :: rest) = escapeChar quoted c ++ escape quoted rest := rfl

/-- Decoding undoes escaping. -/
theorem decode_escape (quoted : Bool) (text : List Char) :
    Entity.decode (escape quoted text) = text := by
  induction text with
  | nil => exact Entity.decode_nil
  | cons c rest ih =>
      rw [escape_cons]
      rcases escapeChar_cases quoted c with ⟨hc, hamp, -, -⟩ | ⟨body, hc, hbody⟩
      · rw [hc, List.singleton_append, Entity.decode_cons_of_ne hamp, ih]
      · rw [hc, hbody.decode_written, ih]

/-- What is escaped holds no fault. -/
theorem runFaults_escape (quoted betweenTags : Bool) (place : Position) (text : List Char) :
    Scanner.runFaults betweenTags place (escape quoted text) = [] := by
  induction text generalizing place with
  | nil => exact Scanner.runFaults_nil betweenTags place
  | cons c rest ih =>
      rw [escape_cons]
      rcases escapeChar_cases quoted c with ⟨hc, hamp, hless, -⟩ | ⟨body, hc, hbody⟩
      · rw [hc, List.singleton_append, Scanner.runFaults_cons_of_ne hamp hless, ih]
      · rw [hc, Scanner.runFaults_written hbody, ih]

/-- What is escaped starts no tag and, between quotes, ends no value. -/
theorem ne_of_mem_escape {quoted : Bool} {text : List Char} {d : Char}
    (h : d ∈ escape quoted text) : d ≠ '<' ∧ (quoted → d ≠ '"') := by
  obtain ⟨c, -, hd⟩ := List.mem_flatMap.mp h
  rcases escapeChar_cases quoted c with ⟨hc, -, hless, hquote⟩ | ⟨body, hc, hbody⟩
  · rw [hc, List.mem_singleton] at hd
    subst hd
    exact ⟨hless, hquote⟩
  · rw [hc, Entity.written, List.cons_append, List.mem_cons, List.mem_append,
      List.mem_singleton] at hd
    rcases hd with rfl | hd | rfl
    · exact ⟨by decide, fun _ => by decide⟩
    · have hchar := List.all_eq_true.mp hbody.chars d hd
      refine ⟨?_, fun _ => ?_⟩
      · rintro rfl
        exact absurd hchar (by decide)
      · rintro rfl
        exact absurd hchar (by decide)
    · exact ⟨by decide, fun _ => by decide⟩

/-! ### Blanks -/

/-- Text whose blanks are single spaces stays as it is. -/
theorem collapseBlanks_of_single {text : List Char} (hspaces : ∀ c ∈ text, isBlank c → c = ' ')
    (hsingle : ¬ [' ', ' '] <:+: text) : collapseBlanks text = text := by
  induction text with
  | nil => rfl
  | cons c rest ih =>
      have htail := ih (fun d hd => hspaces d (List.mem_cons_of_mem c hd))
        fun h => hsingle (h.trans (List.suffix_cons c rest).isInfix)
      unfold collapseBlanks
      split
      case isFalse => rw [htail]
      case isTrue hblank =>
        obtain rfl : c = ' ' := hspaces c List.mem_cons_self hblank
        cases rest with
        | nil => rfl
        | cons d rest =>
            dsimp only
            rw [if_neg, htail]
            intro hd
            obtain rfl : d = ' ' := hspaces d (by simp) hd
            exact hsingle ⟨[], rest, rfl⟩

/-- Normal text is read back from what is written. -/
theorem textContent_escape {text : List Char} (h : IsNormalText text) :
    textContent (escape false text) = text := by
  rw [textContent, decode_escape, collapseBlanks_of_single h.spaces h.single]

end MarkupTree

end PatternMarkup
