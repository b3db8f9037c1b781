import PatternMarkup.Markup.Diagnostic
import PatternMarkup.Markup.Entity
import PatternMarkup.Text.Blank
/-!
The tokens of a markup text: tags, text, comments, and what is skipped. Names, values and text
are functions of the characters that a token covers. Whatever can be wrong with the form of the
text, no fault stops reading: each becomes a report at its span, and reading goes on from the
nearest place that makes sense.
-/

namespace PatternMarkup

/-- A fault in the form of a markup text. -/
inductive MarkupFault where
  | strayLessThan
  | unexpectedCharacter (found : Char) (tag : String)
  | unterminatedTag (tag : String)
  | expectedTagEnd (tag : String)
  | missingAttributeValue (name : String)
  | unquotedAttributeValue (name : String)
  | duplicateAttribute (name : String)
  | unknownEntity (entity : String)
  | unterminatedEntity
  | emptyEndTag
  | unmatchedEndTag (name : String)
  | unclosedElement (name : String)
  | unexpectedEnd (within : String)
  | multipleRoots
  | textOutsideRoot
deriving Repr, DecidableEq, Inhabited

/-- A fault and where it stands. -/
structure PlacedFault where
  fault : MarkupFault
  span : Span
deriving Repr, DecidableEq, Inhabited

namespace MarkupFault

/-- What a report says about the fault. -/
def message : MarkupFault → String
  | strayLessThan => "'<' does not start a tag; write &lt; for a literal '<'"
  | unexpectedCharacter found tag =>
      "unexpected character '" ++ String.ofList [found] ++ "' in tag <" ++ tag ++ ">"
  | unterminatedTag tag => "tag <" ++ tag ++ "> is not closed before the next '<'"
  | expectedTagEnd tag => "expected '>' after '/' in tag <" ++ tag ++ ">"
  | missingAttributeValue name => "attribute '" ++ name ++ "' has no value"
  | unquotedAttributeValue name => "value of attribute '" ++ name ++ "' should be quoted"
  | duplicateAttribute name => "duplicate attribute '" ++ name ++ "'; the first one is used"
  | unknownEntity entity => "unknown entity '" ++ entity ++ "'"
  | unterminatedEntity => "'&' does not start an entity; write &amp; for a literal '&'"
  | emptyEndTag => "end tag is missing a name"
  | unmatchedEndTag name => "end tag </" ++ name ++ "> does not match any open element"
  | unclosedElement name => "element <" ++ name ++ "> is not closed"
  | unexpectedEnd within => "unexpected end of input inside " ++ within
  | multipleRoots => "more than one top-level element; only the first is used"
  | textOutsideRoot => "text outside the root element"

/-- Only a value that is missing or not quoted leaves a document merely doubtful. -/
def severity : MarkupFault → Severity
  | unquotedAttributeValue _ => .warning
  | missingAttributeValue _ => .warning
  | _ => .error

end MarkupFault

/-- The report of a fault. -/
def PlacedFault.diagnostic (f : PlacedFault) : Diagnostic :=
  ⟨f.span, f.fault.message, f.fault.severity, .form, none⟩

/-! ### Tokens -/

/-- An attribute as it stands in a start tag. -/
structure RawAttribute where
  name : String
  nameSpan : Span
  value : String
  valueSpan : Span
  /-- Whether the value stands in the source as it is, with no reference replaced. -/
  verbatim : Bool
deriving Repr, DecidableEq, Inhabited

/-- A token without its place. -/
inductive TokenKind where
  | startTag (name : String) (nameSpan : Span) (attributes : List RawAttribute)
      (selfClosing : Bool)
  | endTag (name : String)
  | text (content : String) (blank : Bool)
  | comment (content : String)
  /-- A declaration, a processing instruction or an end tag without a name. -/
  | skipped
deriving Repr, DecidableEq, Inhabited

/-- A token and the source it covers. -/
structure Token where
  kind : TokenKind
  span : Span
deriving Repr, DecidableEq, Inhabited

/-- Whether a name may start with the character. -/
def isNameStart (c : Char) : Bool := c.isAlpha || c == '_'

/-- Whether a name may hold the character. -/
def isNameChar (c : Char) : Bool := c.isAlphanum || c == '_' || c == '.' || c == ':' || c == '-'

/-- Whether a `<` before the text starts a tag, a comment or a declaration. -/
def startsTag : List Char → Bool
  | c :: _ => isNameStart c || c == '/' || c == '!' || c == '?'
  | [] => false

/-- The text of a run: references are replaced, then blanks collapse. -/
def textContent (run : List Char) : List Char := collapseBlanks (Entity.decode run)

/-- The token of a text run. -/
def TokenKind.ofText (run : List Char) : TokenKind :=
  .text (String.ofList (textContent run)) ((Entity.decode run).all isBlank)

/-- The attribute with the given name and value as they stand in the source. -/
def RawAttribute.ofSource (name : String) (nameSpan : Span) (place : Position)
    (written : List Char) : RawAttribute :=
  ⟨name, nameSpan, String.ofList (Entity.decode written), place.spanOf written,
    !Entity.hasKnown written⟩

/-- The attribute with the given name and no value; it counts as written. -/
def RawAttribute.withoutValue (name : String) (nameSpan : Span) : RawAttribute :=
  ⟨name, nameSpan, "", nameSpan.atEnd, true⟩

end PatternMarkup
