import PatternMarkup.Formula.Literal
import PatternMarkup.Proofs.Formula.ByteScanning
import PatternMarkup.Proofs.Formula.LiteralTrees
import PatternMarkup.Proofs.Formula.ScanCuts
/-!
Reading literals by byte offsets. Every slice of the text is taken between offsets that the
scanners found: the items of a list, the names and the values of transforms, the formulas between
braces and, once more, the tokens of these. Main statement: no slice is a fault, and the literal or
the error is the one found by characters.
-/

namespace PatternMarkup

/-- A reading that takes slices of a text. It ends with a result, or there is none at all where it
met a fault. -/
abbrev Sliced (β : Type) := ExceptT FormatError Option β

namespace Sliced

variable {β γ : Type}

/-- The end of a reading that met a fault. -/
def fault : Sliced β := none

/-- The reading meets no fault and ends with a result. -/
def Gives (read : Sliced β) (result : Except FormatError β) : Prop := read = some result

theorem gives_ofExcept (result : Except FormatError β) :
    (ofExcept result : Sliced β).Gives result := by
  cases result <;> rfl

theorem gives_pure (x : β) : Gives (pure x) (.ok x) := rfl

theorem gives_throw (e : FormatError) : Gives (throw e : Sliced β) (.error e) := rfl

theorem Gives.bind {read : Sliced β} {next : β → Sliced γ} {result : Except FormatError β}
    {more : β → Except FormatError γ} (h : read.Gives result)
    (hnext : ∀ x, (next x).Gives (more x)) : (read >>= next).Gives (result >>= more) := by
  obtain rfl : read = some result := h
  cases result with
  | ok x => exact hnext x
  | error e => rfl

theorem Gives.map {read : Sliced β} {result : Except FormatError β} (h : read.Gives result)
    (f : β → γ) : Gives (do return f (← read)) (result.map f) := by
  obtain rfl : read = some result := h
  cases result <;> rfl

/-- After a slice that is no fault. -/
theorem gives_slice {slice : Option β} {x : β} (h : slice = some x) {next : β → Sliced γ}
    {result : Except FormatError γ} (hnext : (next x).Gives result) :
    Gives (do next (← slice)) result := by
  subst h
  exact hnext

theorem gives_mapM {read : β → Sliced γ} {result : β → Except FormatError γ}
    (h : ∀ x, (read x).Gives (result x)) (xs : List β) :
    Gives (xs.mapM read) (xs.mapM result) := by
  induction xs with
  | nil => rfl
  | cons x rest ih =>
      rw [List.mapM_cons, List.mapM_cons]
      exact (h x).bind fun y => ih.bind fun ys => gives_pure (y :: ys)

end Sliced

open Sliced

variable {α : Type} [Number α]

namespace Utf8

/-! ### Formulas -/

/-- What stands at a range of bytes, which are counted from where the text starts. -/
def cut? (text : Fragment) (range : ByteRange) : Option (List Char) :=
  if text.offset ≤ range.start ∧ text.offset ≤ range.stop then
    slice? text.chars (range.start - text.offset) (range.stop - text.offset)
  else none

/-- A token with what stands at its place in the text; of quoted text, what is between the
quotes. -/
def tokenAgain (text : Fragment) (t : PlacedToken) : Option PlacedToken := do
  let written ← cut? text t.range
  match t.token with
  | .word _ => return ⟨.word (String.ofList written), t.range⟩
  | .number _ => return ⟨.number written, t.range⟩
  | .text _ => return ⟨.text (← slice? written 1 (byteLength written - 1)), t.range⟩
  | .truth _ | .sign _ => return t

/-- Reads a formula from the tokens at their places. -/
def formula (text : Fragment) : Sliced (Ast α) := do
  let found ← ofExcept text.tokens
  let tokens ← (found.mapM (tokenAgain text) : Option (List PlacedToken))
  ofExcept (FormulaParser.whole text.stop tokens)

/-- Reads a formula and folds it. -/
def folded (s : Scope α) (text : Fragment) : Sliced (Ast α) := do
  return (← formula text).fold s

/-! ### Literals -/

/-- The parts of a text from the byte `i` on. `literal` holds the characters read since the byte
`start`, the last one first. -/
def partsFrom (text : Fragment) (start : Nat) (literal : List Char) (i : Nat) :
    Sliced (List (Ast α)) :=
  if _hend : byteLength text.chars ≤ i then
    return literalPart (text.offset + start) literal text.stop
  else
    match sign? text.chars i with
    | some '\x7b' =>
        if sign? text.chars (i + 1) = some '\x7b' then
          partsFrom text start ('\x7b' :: literal) (i + 2)
        else do
          match ← findClose text.chars i with
          | none => throw ⟨.unclosedBrace, ⟨text.offset + i, text.offset + i + 1⟩⟩
          | some close => do
              let inner ← slice? text.chars (i + 1) close
              let ast ← formula ⟨text.offset + i + 1, inner⟩
              if _hnext : i ≤ close then
                let later ← partsFrom text (close + 1) [] (close + 1)
                return literalPart (text.offset + start) literal (text.offset + i) ++ ast :: later
              else fault
    | some '\x7d' =>
        if sign? text.chars (i + 1) = some '\x7d' then
          partsFrom text start ('\x7d' :: literal) (i + 2)
        else throw ⟨.unmatchedBrace, ⟨text.offset + i, text.offset + i + 1⟩⟩
    | _ => do
        match ← from? text.chars i with
        | [] => fault
        | c :: _ => partsFrom text start (c :: literal) (i + c.utf8Size)
termination_by byteLength text.chars - i
decreasing_by
  all_goals first
    | omega
    | have := c.utf8Size_pos
      omega

/-- Reads text with formulas in it and folds it. -/
def template (s : Scope α) (text : Fragment) : Sliced (Ast α) := do
  let parts ← partsFrom text 0 [] 0
  return (ofParts text.range parts).fold s

/-- A number that is not a formula. -/
def plainItem (s : Scope α) (axis : Option Axis) (text : Fragment) : Except FormatError (Ast α) :=
  match (readPercent? text.chars : Option (Option α)), axis with
  | some none, _ => .error (text.refuse "percentage")
  | some (some fraction), none => .ok (.literal (.scalar fraction) text.range)
  | some (some fraction), some axis => fractionOf s axis fraction text.range
  | none, _ =>
      match readNumber? text.chars with
      | some x => .ok (.literal (.scalar x) text.range)
      | none => .error (text.refuse "number")

/-- One number: digits, a percentage, or a formula. -/
def numberItem (s : Scope α) (axis : Option Axis) (text : Fragment) : Sliced (Ast α) := do
  match ← braced text with
  | some inner => folded s inner
  | none => ofExcept (plainItem s axis text)

/-- Numbers, each with its axis. -/
def numberItems (s : Scope α) (axes : List (Option Axis)) (items : List Fragment) :
    Sliced (List (Ast α)) :=
  (items.zip axes).mapM fun (item, axis) => numberItem s axis item

/-- As many numbers as there are axes, as the arguments of a function. -/
def tuple (s : Scope α) (b : Builtin) (axes : List (Option Axis)) (text : Fragment) :
    Sliced (Ast α) := do
  let items ← splitItems text none false 0
  if items.length = axes.length then
    let arguments ← numberItems s axes items
    return (Ast.call b.name arguments text.range).fold s
  else throw ⟨.wrongCount b.name (toString axes.length) items.length, text.range⟩

/-- Reads margins. -/
def marginsItem (s : Scope α) (text : Fragment) : Sliced (Ast α) := do
  let items ← splitItems text none false 0
  match sidesOf items with
  | some sides =>
      let arguments ← numberItems s [some .y, some .x, some .y, some .x] sides
      return (Ast.call Builtin.margins.name arguments text.range).fold s
  | none => throw ⟨.wrongCount Builtin.margins.name "1, 2 or 4" items.length, text.range⟩

/-- One call of a list of transforms: its name, its values, and the bytes of all of it. -/
def transformCall (s : Scope α) (b : Builtin) (axes : List (Option Axis)) (name values : Fragment) :
    Sliced (Ast α) := do
  let items ← splitItems values none false 0
  let range : ByteRange := ⟨name.offset, values.stop + 1⟩
  if transformTakes b items.length then
    return .call b.name (← numberItems s axes items) range
  else throw ⟨.wrongCount name.text b.arity.text items.length, range⟩

theorem le_skip (kind : Char → Bool) (text : List Char) (i : Nat) : i ≤ skip kind text i := by
  fun_induction skip kind text i with
  | case1 => exact Nat.le_refl _
  | case2 _ _ _ ih => exact Nat.le_of_succ_le ih
  | case3 => exact Nat.le_refl _

/-- The calls of a text from the byte `i` on. -/
def transformCalls (s : Scope α) (text : Fragment) (i : Nat) : Sliced (List (Ast α)) :=
  let first := skip separatesCalls text.chars i
  if _hend : byteLength text.chars ≤ first then return []
  else do
    let behind := skip Char.isAlpha text.chars first
    let name ← slice? text.chars first behind
    if name.isEmpty ∨ sign? text.chars behind ≠ some '(' then
      let rest ← from? text.chars first
      throw ⟨.invalidLiteral ValueType.transform.text (String.ofList (trim rest)),
        ⟨text.offset + first, text.stop⟩⟩
    else
      match transformFunction? (String.ofList name) with
      | none =>
          throw ⟨.unknownTransform (String.ofList name),
            ⟨text.offset + first, text.offset + behind⟩⟩
      | some (b, axes) =>
          match ← closeParenAt text.chars (behind + 1) with
          | none => throw ⟨.unexpectedEnd "')'", ⟨text.stop, text.stop⟩⟩
          | some close => do
              let values ← slice? text.chars (behind + 1) close
              let call ← transformCall s b axes ⟨text.offset + first, name⟩
                ⟨text.offset + behind + 1, values⟩
              if _hnext : first ≤ close then
                let more ← transformCalls s text (close + 1)
                return call :: more
              else fault
termination_by byteLength text.chars - i
decreasing_by
  have := le_skip separatesCalls text.chars i
  omega

/-- Reads transforms, applied from the last to the first. -/
def transforms (s : Scope α) (text : Fragment) : Sliced (Ast α) := do
  let word := trim text.chars
  if word.isEmpty ∨ word = "none".toList then
    return .literal (.transform .identity) text.range
  match ← transformCalls s text 0 with
  | [] => return .literal (.transform .identity) text.range
  | first :: more => return (more.foldl (.ofBinary .multiply) first).fold s

/-- Reads text that is neither a formula nor a list. Words need no slices. -/
def plain (context : LiteralContext α) (type : ValueType) (text : Fragment) : Sliced (Ast α) :=
  let s := context.scope
  let word := text.trimmed
  match type with
  | .scalar => numberItem s context.axis word
  | .transform => transforms s text
  | .rect => tuple s .rect [some .x, some .y, some .x, some .y] text
  | .size => tuple s .size [some .x, some .y] text
  | .point => tuple s .point [some .x, some .y] text
  | .margins => marginsItem s text
  | .any =>
      match (plainValue? word.chars : Option (Value α)) with
      | some v => return .literal v word.range
      | none => template s text
  | type => ofExcept (text.plain context type)

/-- Reads a formula between braces as one of a type, and other text as `other` does. -/
def settleBraced (s : Scope α) (text : Fragment) (type : ValueType) (other : Sliced (Ast α)) :
    Sliced (Expression α (Value α)) := do
  match ← braced text with
  | some inner => ofExcept (text.settle type (← folded s inner))
  | none => ofExcept (text.settle type (← other))

/-- Reads text as an expression of a type. -/
def readTyped (context : LiteralContext α) : ValueType → Fragment →
    Sliced (Expression α (Value α))
  | .string, text => do ofExcept (text.settle .string (← template context.scope text))
  | .path, text => do ofExcept (text.settle .path (← template context.scope text))
  | .list .scalar, text =>
      settleBraced context.scope text (.list .scalar) do
        let items ← splitItems text none false 0
        let numbers ← items.mapM fun item => numberItem context.scope context.axis item
        return (Ast.list numbers text.trimmed.range).fold context.scope
  | .list type, text =>
      settleBraced context.scope text (.list type) do
        let items ← splitItems text none false 0
        let literals ← items.mapM fun item => readTyped context type item
        return (Ast.list (literals.map (·.toAst)) text.trimmed.range).fold context.scope
  | type, text => settleBraced context.scope text type (plain context type text)


/-! ### Tokens at their places -/

open TokenReading FormulaScan

/-- The characters are those of the token: what is written, between quotes if it is text. -/
def IsWritten (token : FormulaToken) (written : List Char) : Prop :=
  match token with
  | .word name => name.toList = written
  | .number digits => digits = written
  | .text body => ∃ quote : Char, quote.toNat < 128 ∧ written = quote :: (body ++ [quote])
  | .truth _ | .sign _ => True

/-- The quote that closes a text is the last character of its extent. -/
theorem exists_of_quotedExtent {quote : Char} {rest : List Char} {count : Nat}
    (h : quotedExtent quote rest = (true, count)) :
    ∃ body later, rest = body ++ quote :: later ∧ count = body.length + 1 := by
  fun_induction quotedExtent quote rest generalizing count with
  | case1 => cases h
  | case2 => cases h
  | case3 => cases h
  | case4 c rest hc closed n hext ih =>
      obtain ⟨rfl, rfl⟩ := Prod.mk.inj h
      obtain ⟨body, later, rfl, rfl⟩ := ih hext
      exact ⟨'\\' :: c :: body, later, rfl, rfl⟩
  | case5 rest hend hescape =>
      obtain ⟨-, rfl⟩ := Prod.mk.inj h
      exact ⟨[], rest, rfl, rfl⟩
  | case6 c rest hend hescape hc closed n hext ih =>
      obtain ⟨rfl, rfl⟩ := Prod.mk.inj h
      obtain ⟨body, later, rfl, rfl⟩ := ih hext
      exact ⟨c :: body, later, rfl, rfl⟩

theorem isWritten_ofWord (word : List Char) : IsWritten (ofWord word) word := by
  unfold ofWord
  split
  · trivial
  · split
    · trivial
    · exact String.toList_ofList

theorem isWritten_ofQuoted {quote : Char} {rest : List Char} {token : FormulaToken}
    (hquote : quote = '"' ∨ quote = '\'')
    (h : ofQuoted quote rest = ⟨some token, rest.length + 1⟩) :
    IsWritten token (quote :: rest) := by
  unfold ofQuoted at h
  obtain ⟨⟨closed, count⟩, hextent⟩ : ∃ extent, quotedExtent quote rest = extent := ⟨_, rfl⟩
  rw [hextent] at h
  cases closed with
  | false => cases h
  | true =>
      obtain ⟨htoken, hcount⟩ := TokenReading.mk.inj h
      obtain ⟨body, later, rfl, rfl⟩ := exists_of_quotedExtent hextent
      obtain rfl : later = [] := by
        rw [List.length_append, List.length_cons] at hcount
        exact List.length_eq_zero_iff.mp (by omega)
      cases htoken
      refine ⟨quote, ?_, by simp⟩
      rcases hquote with rfl | rfl <;> decide

/-- A token that is read from all of a text is written there. -/
theorem isWritten_of_read {c : Char} {rest : List Char} {token : FormulaToken}
    (h : read c rest = ⟨some token, rest.length + 1⟩) : IsWritten token (c :: rest) := by
  unfold TokenReading.read at h
  split at h
  case isTrue =>
    obtain ⟨htoken, hcount⟩ := TokenReading.mk.inj h
    have hword : rest.takeWhile isWordChar = rest :=
      (List.takeWhile_prefix isWordChar).eq_of_length (Nat.succ.inj hcount)
    cases htoken
    rw [hword]
    exact isWritten_ofWord (c :: rest)
  case isFalse =>
    split at h
    case isTrue =>
      obtain ⟨htoken, hcount⟩ := TokenReading.mk.inj h
      cases htoken
      exact (append_isPrefix (mantissa_isPrefix _) (exponentPart_isPrefix _)).eq_of_length hcount
    case isFalse =>
      split at h
      case isTrue hquote => exact isWritten_ofQuoted hquote h
      case isFalse =>
        unfold ofSign at h
        split at h
        · cases (TokenReading.mk.inj h).1
          trivial
        · obtain ⟨s, -, rfl⟩ := Option.map_eq_some_iff.mp (TokenReading.mk.inj h).1
          trivial

theorem tokenAgain_of_isWritten {text : Fragment} {t : PlacedToken} {written : List Char}
    (hcut : cut? text t.range = some written) (h : IsWritten t.token written) :
    tokenAgain text t = some t := by
  obtain ⟨token, range⟩ := t
  unfold tokenAgain
  rw [hcut]
  cases token with
  | truth b => rfl
  | sign s => rfl
  | number digits =>
      obtain rfl : digits = written := h
      rfl
  | word name =>
      obtain rfl : name.toList = written := h
      simp
  | text body =>
      obtain ⟨quote, hquote, rfl⟩ := h
      have hslice := slice?_append [quote] body [quote]
      have hsize := utf8Size_of_lt hquote
      have hstop : byteLength (quote :: (body ++ [quote])) - 1 = 1 + byteLength body := by
        simp only [byteLength_cons, byteLength_append, byteLength_nil, hsize]
        omega
      rw [byteLength_cons, byteLength_nil, hsize, List.singleton_append] at hslice
      simp only [Option.bind_eq_bind, Option.bind_some, hstop, hslice]
      rfl

theorem cut?_append (offset : Nat) (front piece back : List Char) :
    cut? ⟨offset, front ++ (piece ++ back)⟩ ⟨offset + byteLength front,
      offset + byteLength front + byteLength piece⟩ = some piece := by
  have hslice := slice?_append front piece back
  rw [cut?, if_pos ⟨Nat.le_add_right _ _, by simp only; omega⟩]
  simpa [Nat.add_assoc] using hslice

/-- Every token of a text is found again at its place. -/
theorem tokenAgain_eq (base : Nat) (before : List Char) {offset : Nat} {text : List Char}
    {tokens : List PlacedToken} (h : Scans offset text tokens)
    (hoffset : offset = base + byteLength before) :
    ∀ t ∈ tokens, tokenAgain ⟨base, before ++ text⟩ t = some t := by
  induction h generalizing before with
  | nil => exact List.forall_mem_nil _
  | @space offset c rest tokens hc later ih =>
      have hlater := ih (before ++ [c]) (by rw [byteLength_concat, hoffset, Nat.add_assoc])
      rwa [← List.append_cons] at hlater
  | @token offset c written rest token tokens reads later ih =>
      have hlater := ih (before ++ c :: written) (by
        rw [byteLength_append, hoffset, Nat.add_assoc])
      rw [List.append_assoc, List.cons_append] at hlater
      refine List.forall_mem_cons.mpr ⟨?_, hlater⟩
      have hread := reads [] List.nil_prefix
      rw [List.append_nil] at hread
      refine tokenAgain_of_isWritten ?_ (isWritten_of_read hread)
      rw [hoffset]
      exact cut?_append base before (c :: written) rest

theorem mapM_tokenAgain {text : Fragment} {tokens : List PlacedToken}
    (h : ∀ t ∈ tokens, tokenAgain text t = some t) :
    tokens.mapM (tokenAgain text) = some tokens := by
  induction tokens with
  | nil => rfl
  | cons t rest ih =>
      obtain ⟨hfirst, hrest⟩ := List.forall_mem_cons.mp h
      rw [List.mapM_cons, hfirst, ih hrest]
      rfl

/-- A formula is read without a fault. -/
theorem gives_formula (text : Fragment) : (formula text).Gives (Ast.read (α := α) text) := by
  cases htokens : text.tokens with
  | error e =>
      rw [formula, Ast.read, htokens]
      rfl
  | ok tokens =>
      have hagain := tokenAgain_eq text.offset [] (scans_of_scanFormula htokens) rfl
      rw [formula, Ast.read, htokens]
      exact gives_slice (mapM_tokenAgain hagain) (gives_ofExcept _)

theorem gives_folded (s : Scope α) (text : Fragment) :
    (folded s text).Gives (Ast.readFolded s text) := (gives_formula text).map (Ast.fold s)

/-! ### Parts -/

theorem sign?_next {c : Char} (hc : c.toNat < 128) (before rest : List Char) :
    sign? (before ++ c :: rest) (byteLength before + 1) = sign? rest 0 := by
  have happend := sign?_append (before ++ [c]) rest 0
  rwa [byteLength_concat, utf8Size_of_lt hc, ← List.append_cons] at happend

theorem sign?_zero_ne {d : Char} {rest : List Char} (h : ∀ later, rest ≠ d :: later) :
    sign? rest 0 ≠ some d := by
  cases rest with
  | nil => nofun
  | cons c rest =>
      rw [sign?_cons_zero]
      split
      · rintro ⟨rfl⟩
        exact h rest rfl
      · nofun

/-- No second brace of the kind follows one. -/
theorem sign?_next_ne {c d : Char} (hc : c.toNat < 128) {before rest : List Char}
    (h : ∀ later, rest ≠ d :: later) :
    sign? (before ++ c :: rest) (byteLength before + 1) ≠ some d := by
  rw [sign?_next hc]
  exact sign?_zero_ne h

section Steps

variable {base : Nat} {before rest : List Char} (start : Nat) (literal : List Char)

/-- A doubled brace is a brace of the text. -/
theorem partsFrom_double {c : Char} (hc : c = '\x7b' ∨ c = '\x7d') :
    partsFrom (α := α) ⟨base, before ++ c :: c :: rest⟩ start literal (byteLength before) =
      partsFrom ⟨base, before ++ c :: c :: rest⟩ start (c :: literal) (byteLength before + 2) := by
  have hlow : c.toNat < 128 := by rcases hc with rfl | rfl <;> decide
  have hnext := (sign?_next hlow before (c :: rest)).trans (sign?_cons_zero c rest)
  rw [partsFrom, dif_neg (Nat.not_le.mpr (lt_byteLength before c (c :: rest))), sign?_at, hnext,
    if_pos hlow]
  rcases hc with rfl | rfl <;> rfl

theorem partsFrom_unmatched (h : ∀ later, rest ≠ '\x7d' :: later) :
    (partsFrom (α := α) ⟨base, before ++ '\x7d' :: rest⟩ start literal (byteLength before)).Gives
      (.error ⟨.unmatchedBrace, ⟨base + byteLength before, base + byteLength before + 1⟩⟩) := by
  have hnext : sign? (before ++ '\x7d' :: rest) (byteLength before + 1) ≠ some '\x7d' :=
    sign?_next_ne (by decide) h
  rw [partsFrom, dif_neg (Nat.not_le.mpr (lt_byteLength before _ rest)), sign?_at]
  simp only [if_neg hnext]
  rfl

theorem partsFrom_unclosed (h : ∀ later, rest ≠ '\x7b' :: later)
    (hclose : closeBrace 0 none rest = none) :
    (partsFrom (α := α) ⟨base, before ++ '\x7b' :: rest⟩ start literal (byteLength before)).Gives
      (.error ⟨.unclosedBrace, ⟨base + byteLength before, base + byteLength before + 1⟩⟩) := by
  have hnext : sign? (before ++ '\x7b' :: rest) (byteLength before + 1) ≠ some '\x7b' :=
    sign?_next_ne (by decide) h
  rw [partsFrom, dif_neg (Nat.not_le.mpr (lt_byteLength before _ rest)), sign?_at]
  simp only [if_neg hnext, findClose_eq, hclose]
  rfl

/-- A formula is read between its braces, and the parts after it from behind the brace that
closes. -/
theorem partsFrom_formula (h : ∀ later, rest ≠ '\x7b' :: later) {inner after : List Char}
    (hclose : closeBrace 0 none rest = some (inner, after)) {next : Nat}
    (hnext : next = byteLength before + byteLength inner + 2)
    {later : Except FormatError (List (Ast α))}
    (hlater : (partsFrom ⟨base, before ++ '\x7b' :: rest⟩ next [] next).Gives later) :
    (partsFrom ⟨base, before ++ '\x7b' :: rest⟩ start literal (byteLength before)).Gives (do
      let ast ← Ast.read ⟨base + byteLength before + 1, inner⟩
      return literalPart (base + start) literal (base + byteLength before) ++
        ast :: (← later)) := by
  have hsingle : sign? (before ++ '\x7b' :: rest) (byteLength before + 1) ≠ some '\x7b' :=
    sign?_next_ne (by decide) h
  have hslice : slice? (before ++ '\x7b' :: rest) (byteLength before + 1)
      (byteLength before + 1 + byteLength inner) = some inner := by
    rw [eq_append_of_closeBrace hclose]
    exact slice?_after before inner '\x7b' ('\x7d' :: after)
  have hbehind : byteLength before + 1 + byteLength inner + 1 = next := by omega
  have hle : byteLength before ≤ byteLength before + 1 + byteLength inner := by omega
  rw [partsFrom, dif_neg (Nat.not_le.mpr (lt_byteLength before _ rest)), sign?_at]
  simp only [if_neg hsingle, findClose_eq, hclose, cutAt, Option.map_some]
  refine gives_slice hslice ((gives_formula _).bind fun ast => ?_)
  rw [dif_pos hle, hbehind]
  exact hlater.bind fun parts => gives_pure _

/-- A character that is no brace is one of the text. -/
theorem partsFrom_ordinary {c : Char} (hc : c ≠ '\x7b' ∧ c ≠ '\x7d') :
    partsFrom (α := α) ⟨base, before ++ c :: rest⟩ start literal (byteLength before) =
      partsFrom ⟨base, before ++ c :: rest⟩ start (c :: literal)
        (byteLength before + c.utf8Size) := by
  have hsign : ∀ d, sign? (before ++ c :: rest) (byteLength before) = some d →
      d ≠ '\x7b' ∧ d ≠ '\x7d' := of_sign?_at hc
  rw [partsFrom, dif_neg (Nat.not_le.mpr (lt_byteLength before c rest))]
  split
  case h_1 h => exact absurd rfl (hsign _ h).1
  case h_2 h => exact absurd rfl (hsign _ h).2
  case h_3 =>
    rw [from?_append]
    rfl

end Steps

/-- From a place between two characters on, the parts of a text are found without a fault. -/
theorem gives_partsFrom (base : Nat) {before : List Char} {start begin offset : Nat}
    {literal text : List Char} (hbegin : begin = base + start)
    (hoffset : offset = base + byteLength before) :
    (partsFrom ⟨base, before ++ text⟩ start literal (byteLength before)).Gives
      (templateParts (α := α) begin literal offset text) := by
  fun_induction templateParts (α := α) begin literal offset text generalizing before start with
  | case1 begin literal offset =>
      rw [partsFrom, dif_pos (by rw [List.append_nil])]
      rw [hbegin, hoffset, List.append_nil]
      rfl
  | case2 begin literal offset rest ih =>
      have hnext : byteLength (before ++ ['\x7b', '\x7b']) = byteLength before + 2 :=
        byteLength_append before _
      have hlater := @ih (before ++ ['\x7b', '\x7b']) start hbegin (by rw [hnext, hoffset]; rfl)
      rw [hnext, List.append_assoc] at hlater
      rw [partsFrom_double start literal (.inl rfl)]
      exact hlater
  | case3 begin literal offset rest ih =>
      have hnext : byteLength (before ++ ['\x7d', '\x7d']) = byteLength before + 2 :=
        byteLength_append before _
      have hlater := @ih (before ++ ['\x7d', '\x7d']) start hbegin (by rw [hnext, hoffset]; rfl)
      rw [hnext, List.append_assoc] at hlater
      rw [partsFrom_double start literal (.inr rfl)]
      exact hlater
  | case4 begin literal offset rest hdouble =>
      rw [hoffset]
      exact partsFrom_unmatched start literal hdouble
  | case5 begin literal offset rest hdouble hclose =>
      rw [hoffset]
      exact partsFrom_unclosed start literal hdouble hclose
  | case6 begin literal offset rest hdouble inner after =>
      rename_i hclose ih
      have hrest := eq_append_of_closeBrace hclose
      have hnext : byteLength (before ++ '\x7b' :: (inner ++ ['\x7d'])) =
          byteLength before + byteLength inner + 2 := by
        rw [byteLength_concat_braced]
        omega
      have hplace : offset + byteLength inner + 2 =
          base + byteLength (before ++ '\x7b' :: (inner ++ ['\x7d'])) := by
        rw [hnext, hoffset]
        omega
      have hlater := ih hplace hplace
      rw [List.append_assoc, List.cons_append, ← List.append_cons, ← hrest] at hlater
      subst hbegin hoffset
      exact partsFrom_formula start literal hdouble hclose hnext hlater
  | case7 begin literal offset c rest =>
      rename_i hclose hopen ih
      have hlater := @ih (before ++ [c]) start hbegin (by
        rw [byteLength_concat, hoffset, Nat.add_assoc])
      rw [byteLength_concat, ← List.append_cons] at hlater
      rw [partsFrom_ordinary start literal ⟨hopen, hclose⟩]
      exact hlater

/-- Text with formulas in it is read without a fault. -/
theorem gives_template (s : Scope α) (text : Fragment) :
    (template s text).Gives (text.template s) := by
  have hparts : (partsFrom ⟨text.offset, [] ++ text.chars⟩ 0 [] (byteLength [])).Gives
      (templateParts (α := α) text.offset [] text.offset text.chars) :=
    gives_partsFrom text.offset rfl rfl
  exact hparts.bind fun _ => gives_pure _

/-! ### Numbers and lists of them -/

theorem numberItem_eq (s : Scope α) (axis : Option Axis) (text : Fragment) :
    text.numberItem s axis =
      match text.braced? with
      | some inner => Ast.readFolded s inner
      | none => plainItem s axis text := rfl

theorem gives_numberItem (s : Scope α) (axis : Option Axis) (text : Fragment) :
    (numberItem s axis text).Gives (text.numberItem s axis) := by
  rw [numberItem_eq, numberItem]
  refine gives_slice (braced_eq text) ?_
  cases text.braced? with
  | some inner => exact gives_folded s inner
  | none => exact gives_ofExcept _

theorem gives_numberItems (s : Scope α) (axes : List (Option Axis)) (items : List Fragment) :
    (numberItems s axes items).Gives (PatternMarkup.numberItems s axes items) :=
  gives_mapM (fun (item, axis) => gives_numberItem s axis item) _

theorem gives_tuple (s : Scope α) (b : Builtin) (axes : List (Option Axis)) (text : Fragment) :
    (tuple s b axes text).Gives (text.tuple s b axes) := by
  rw [tuple, Fragment.tuple]
  refine gives_slice (splitItems_pieces text) ?_
  split
  case isTrue => exact (gives_numberItems s axes text.pieces).bind fun _ => gives_pure _
  case isFalse => exact gives_throw _

theorem gives_marginsItem (s : Scope α) (text : Fragment) :
    (marginsItem s text).Gives (text.marginsItem s) := by
  rw [marginsItem, Fragment.marginsItem]
  refine gives_slice (splitItems_pieces text) ?_
  cases sidesOf text.pieces with
  | some sides => exact (gives_numberItems s _ sides).bind fun _ => gives_pure _
  | none => exact gives_throw _

/-! ### Transforms -/

theorem toNat_lt_of_separatesCalls (c : Char) (h : separatesCalls c = true) : c.toNat < 128 := by
  simp only [separatesCalls, Bool.or_eq_true, beq_iff_eq] at h
  rcases h with ((((rfl | rfl) | rfl) | rfl) | rfl) | rfl <;> decide

theorem toNat_lt_of_isAlpha (c : Char) (h : c.isAlpha = true) : c.toNat < 128 := by
  rcases Bool.or_eq_true_iff.mp h with hupper | hlower
  · have hrange : 'A'.val ≤ c.val ∧ c.val ≤ 'Z'.val := of_decide_eq_true hupper
    exact Nat.lt_of_le_of_lt hrange.2 (by decide)
  · have hrange : 'a'.val ≤ c.val ∧ c.val ≤ 'z'.val :=
      (Bool.and_eq_true_iff.mp hlower).imp of_decide_eq_true of_decide_eq_true
    exact Nat.lt_of_le_of_lt hrange.2 (by decide)

theorem gives_transformCall (s : Scope α) (b : Builtin) (axes : List (Option Axis))
    (name values : Fragment) :
    (transformCall s b axes name values).Gives
      (PatternMarkup.transformCall s b axes name values) := by
  rw [transformCall, PatternMarkup.transformCall]
  refine gives_slice (splitItems_pieces values) ?_
  dsimp only
  split
  case isTrue => exact (gives_numberItems s axes values.pieces).bind fun _ => gives_pure _
  case isFalse => exact gives_throw _

/-- Where a call is looked for from the byte `i` on: the letters of its name are from `first` up to
`behind`, `body` is all from them on, and `upto` all before their end. -/
structure CallAt (text : List Char) (i first behind : Nat) (body upto : List Char) : Prop where
  first_eq : skip separatesCalls text i = first
  behind_eq : skip Char.isAlpha text first = behind
  first_lt : first < byteLength text
  name : slice? text first behind = some (body.takeWhile Char.isAlpha)
  rest : from? text first = some body
  split : upto ++ body.dropWhile Char.isAlpha = text
  behind_of : byteLength upto = behind

theorem callAt (before text : List Char) (h : text.dropWhile separatesCalls ≠ []) :
    CallAt (before ++ text) (byteLength before)
      (byteLength before + byteLength (text.takeWhile separatesCalls))
      (byteLength before + byteLength (text.takeWhile separatesCalls) +
        byteLength ((text.dropWhile separatesCalls).takeWhile Char.isAlpha))
      (text.dropWhile separatesCalls)
      (before ++ text.takeWhile separatesCalls ++
        (text.dropWhile separatesCalls).takeWhile Char.isAlpha) := by
  have hskip := skip_eq toNat_lt_of_separatesCalls before text
  obtain ⟨front, hfront⟩ : ∃ front, text.takeWhile separatesCalls = front := ⟨_, rfl⟩
  obtain ⟨body, hbody⟩ : ∃ body, text.dropWhile separatesCalls = body := ⟨_, rfl⟩
  obtain rfl : front ++ body = text := by
    rw [← hfront, ← hbody, List.takeWhile_append_dropWhile]
  rw [hfront] at hskip ⊢
  rw [hbody] at h ⊢
  rw [← List.append_assoc, ← byteLength_append]
  obtain ⟨name, hname⟩ : ∃ name, body.takeWhile Char.isAlpha = name := ⟨_, rfl⟩
  obtain ⟨behind, hbehind⟩ : ∃ behind, body.dropWhile Char.isAlpha = behind := ⟨_, rfl⟩
  have hparts : body = name ++ behind := by
    rw [← hname, ← hbehind, List.takeWhile_append_dropWhile]
  refine ⟨?_, ?_, ?_, ?_, from?_append _ _, ?_, byteLength_append _ _⟩
  · rw [List.append_assoc, byteLength_append]
    exact hskip
  · exact skip_eq toNat_lt_of_isAlpha (before ++ front) body
  · have hpos := byteLength_pos h
    rw [byteLength_append _ body]
    omega
  · rw [hname, hparts]
    exact slice?_append (before ++ front) name behind
  · rw [List.append_assoc, List.takeWhile_append_dropWhile]

section Calls

variable {base i first behind begin stop : Nat} {text body upto : List Char}

theorem CallAt.sign (h : CallAt text i first behind body upto) :
    sign? text behind = sign? (body.dropWhile Char.isAlpha) 0 := by
  obtain rfl := h.split
  obtain rfl := h.behind_of
  exact sign?_append upto _ 0

/-- No letters, or no parenthesis after them. -/
theorem CallAt.invalid (h : CallAt text i first behind body upto) (s : Scope α)
    (hcall : body.takeWhile Char.isAlpha = [] ∨
      ∀ inside, body.dropWhile Char.isAlpha ≠ '(' :: inside)
    (hbegin : begin = base + first) (hstop : stop = base + byteLength text) :
    (transformCalls s ⟨base, text⟩ i).Gives
      (.error ⟨.invalidLiteral ValueType.transform.text (String.ofList (trim body)),
        ⟨begin, stop⟩⟩) := by
  have hnone : (body.takeWhile Char.isAlpha).isEmpty ∨ sign? text behind ≠ some '(' := by
    refine hcall.imp List.isEmpty_iff.mpr fun hopen => ?_
    rw [h.sign]
    exact sign?_zero_ne hopen
  subst hbegin hstop
  rw [transformCalls]
  simp only [h.first_eq, h.behind_eq, dif_neg (Nat.not_le.mpr h.first_lt)]
  refine gives_slice h.name ?_
  rw [if_pos hnone]
  refine gives_slice h.rest ?_
  exact gives_throw _

variable {inside : List Char} (hname : body.takeWhile Char.isAlpha ≠ [])
  (hopen : body.dropWhile Char.isAlpha = '(' :: inside)

include hname hopen in
theorem CallAt.opened (h : CallAt text i first behind body upto) :
    ¬ ((body.takeWhile Char.isAlpha).isEmpty ∨ sign? text behind ≠ some '(') := by
  rw [h.sign, hopen, sign?_cons_zero, List.isEmpty_iff]
  rintro (hempty | hsign)
  · exact hname hempty
  · exact hsign rfl

include hname hopen in
theorem CallAt.unknown (h : CallAt text i first behind body upto) (s : Scope α)
    (hfunction : transformFunction? (String.ofList (body.takeWhile Char.isAlpha)) = none)
    (hbegin : begin = base + first) (hstop : stop = base + behind) :
    (transformCalls s ⟨base, text⟩ i).Gives
      (.error ⟨.unknownTransform (String.ofList (body.takeWhile Char.isAlpha)),
        ⟨begin, stop⟩⟩) := by
  subst hbegin hstop
  rw [transformCalls]
  simp only [h.first_eq, h.behind_eq, dif_neg (Nat.not_le.mpr h.first_lt)]
  refine gives_slice h.name ?_
  rw [if_neg (h.opened hname hopen), hfunction]
  exact gives_throw _

include hopen in
/-- The parenthesis that closes a call is looked for behind the one that opens it. -/
theorem CallAt.closeParenAt_eq (h : CallAt text i first behind body upto) :
    closeParenAt text (behind + 1) = some (cutAt (behind + 1) (closeParen inside)) := by
  have hclose := Utf8.closeParenAt_eq (upto ++ ['(']) inside
  rw [byteLength_concat, h.behind_of, ← List.append_cons, ← hopen, h.split] at hclose
  exact hclose

include hopen in
/-- A text is cut behind a call. -/
theorem CallAt.split_call (h : CallAt text i first behind body upto) {values after : List Char}
    (hclose : closeParen inside = some (values, after)) :
    ∃ front, front ++ after = text ∧ byteLength front = behind + 1 + byteLength values + 1 := by
  refine ⟨upto ++ '(' :: (values ++ [')']), ?_, ?_⟩
  · rw [List.append_assoc, List.cons_append, ← List.append_cons,
      ← eq_append_of_closeParen hclose, ← hopen]
    exact h.split
  · rw [byteLength_append, h.behind_of, byteLength_cons, byteLength_concat, Nat.add_assoc,
      Nat.add_assoc]
    rfl

section Function

variable {b : Builtin} {axes : List (Option Axis)}
  (hfunction : transformFunction? (String.ofList (body.takeWhile Char.isAlpha)) = some (b, axes))

include hname hopen hfunction in
theorem CallAt.unclosed (h : CallAt text i first behind body upto) (s : Scope α)
    (hclose : closeParen inside = none) (hstop : stop = base + byteLength text) :
    (transformCalls s ⟨base, text⟩ i).Gives (.error ⟨.unexpectedEnd "')'", ⟨stop, stop⟩⟩) := by
  subst hstop
  rw [transformCalls]
  simp only [h.first_eq, h.behind_eq, dif_neg (Nat.not_le.mpr h.first_lt)]
  refine gives_slice h.name ?_
  rw [if_neg (h.opened hname hopen), hfunction]
  refine gives_slice (h.closeParenAt_eq hopen) ?_
  rw [hclose]
  exact gives_throw _

include hname hopen hfunction in
/-- The values of a call are read between its parentheses, and the calls after it from behind the
one that closes. -/
theorem CallAt.call (h : CallAt text i first behind body upto) (s : Scope α)
    {values after : List Char} (hclose : closeParen inside = some (values, after)) {next : Nat}
    (hbegin : begin = base + first) (hstop : stop = base + behind)
    (hnext : next = behind + 1 + byteLength values + 1)
    {later : Except FormatError (List (Ast α))}
    (hlater : (transformCalls s ⟨base, text⟩ next).Gives later) :
    (transformCalls s ⟨base, text⟩ i).Gives (do
      let call ← PatternMarkup.transformCall s b axes
        ⟨begin, body.takeWhile Char.isAlpha⟩ ⟨stop + 1, values⟩
      return call :: (← later)) := by
  have hslice : slice? text (behind + 1) (behind + 1 + byteLength values) = some values := by
    have hafter := slice?_after upto values '(' (')' :: after)
    rw [← eq_append_of_closeParen hclose, h.behind_of, ← hopen, h.split] at hafter
    exact hafter
  have hle : first ≤ behind + 1 + byteLength values := by
    have hskip := le_skip Char.isAlpha text first
    rw [h.behind_eq] at hskip
    omega
  subst hbegin hstop
  rw [transformCalls]
  simp only [h.first_eq, h.behind_eq, dif_neg (Nat.not_le.mpr h.first_lt)]
  refine gives_slice h.name ?_
  rw [if_neg (h.opened hname hopen), hfunction]
  refine gives_slice (h.closeParenAt_eq hopen) ?_
  rw [hclose]
  refine gives_slice hslice ?_
  refine (gives_transformCall s b axes _ _).bind fun call => ?_
  rw [dif_pos hle, ← hnext]
  exact hlater.bind fun more => gives_pure (call :: more)

end Function

end Calls

section Offsets

variable {base offset : Nat} {before : List Char} (text : List Char)
  (hoffset : offset = base + byteLength before)

include hoffset in
theorem begin_eq : offset + byteLength (text.takeWhile separatesCalls) =
    base + (byteLength before + byteLength (text.takeWhile separatesCalls)) := by
  omega

include hoffset in
theorem stop_eq :
    offset + byteLength (text.takeWhile separatesCalls) +
        byteLength (text.dropWhile separatesCalls) = base + byteLength (before ++ text) := by
  rw [Nat.add_assoc, ← byteLength_append, List.takeWhile_append_dropWhile, byteLength_append,
    hoffset, Nat.add_assoc]

include hoffset in
theorem behind_eq (name : List Char) :
    offset + byteLength (text.takeWhile separatesCalls) + byteLength name =
      base + (byteLength before + byteLength (text.takeWhile separatesCalls) +
        byteLength name) := by
  omega

end Offsets

/-- From a place between two characters on, the calls of a text are found without a fault. -/
theorem gives_transformCalls (s : Scope α) (base : Nat) (before text : List Char) {offset : Nat}
    (hoffset : offset = base + byteLength before) :
    (transformCalls s ⟨base, before ++ text⟩ (byteLength before)).Gives
      (PatternMarkup.transformCalls s offset text) := by
  fun_induction PatternMarkup.transformCalls s offset text generalizing before with
  | case1 offset text body hbody =>
      have hskip := skip_eq toNat_lt_of_separatesCalls before text
      have hstop := stop_eq text hoffset
      have hnil : text.dropWhile separatesCalls = [] := List.isEmpty_iff.mp hbody
      rw [hnil, byteLength_nil] at hstop
      rw [transformCalls, dif_pos (by simp only [hskip]; omega)]
      exact gives_pure []
  | case2 offset text front body begin hbody name invalid hname =>
      have h := callAt before text (mt List.isEmpty_iff.mpr hbody)
      exact h.invalid s (.inl (List.isEmpty_iff.mp hname)) (begin_eq text hoffset)
        (stop_eq text hoffset)
  | case3 offset text front body begin hbody name hname inside hopen hfunction =>
      have h := callAt before text (mt List.isEmpty_iff.mpr hbody)
      exact h.unknown (mt List.isEmpty_iff.mpr hname) hopen s hfunction (begin_eq text hoffset)
        (behind_eq text hoffset name)
  | case4 offset text front body begin hbody name hname inside hopen b axes hfunction hclose =>
      have h := callAt before text (mt List.isEmpty_iff.mpr hbody)
      exact h.unclosed (mt List.isEmpty_iff.mpr hname) hopen hfunction s hclose
        (stop_eq text hoffset)
  | case5 offset text front body begin hbody name hname inside hopen b axes hfunction values =>
      rename_i after hclose first ih
      have h := callAt before text (mt List.isEmpty_iff.mpr hbody)
      have hbehind := behind_eq text hoffset name
      obtain ⟨upto, hwhole, hnext⟩ := h.split_call hopen hclose
      have hlater := ih upto (by
        rw [hnext]
        simp only [first, begin, front, name, body] at hbehind ⊢
        omega)
      rw [hwhole, hnext] at hlater
      exact h.call (mt List.isEmpty_iff.mpr hname) hopen hfunction s hclose
        (begin_eq text hoffset) hbehind rfl hlater
  | case6 offset text front body begin hbody name invalid hname hopen =>
      have h := callAt before text (mt List.isEmpty_iff.mpr hbody)
      exact h.invalid s (.inr hopen) (begin_eq text hoffset) (stop_eq text hoffset)

theorem gives_transforms (s : Scope α) (text : Fragment) :
    (transforms s text).Gives (text.transforms s) := by
  have hcalls := gives_transformCalls s text.offset [] text.chars rfl
  rw [transforms, Fragment.transforms]
  split
  case isTrue => exact gives_pure _
  case isFalse =>
    refine hcalls.bind fun calls => ?_
    cases calls with
    | nil => exact gives_pure _
    | cons first more => exact gives_pure _

/-! ### All types -/

theorem gives_plain (context : LiteralContext α) (type : ValueType) (text : Fragment) :
    (plain context type text).Gives (text.plain context type) := by
  cases type with
  | scalar => exact gives_numberItem context.scope context.axis text.trimmed
  | transform => exact gives_transforms context.scope text
  | rect => exact gives_tuple context.scope .rect _ text
  | size => exact gives_tuple context.scope .size _ text
  | point => exact gives_tuple context.scope .point _ text
  | margins => exact gives_marginsItem context.scope text
  | any =>
      rw [plain, Fragment.plain]
      cases (plainValue? text.trimmed.chars : Option (Value α)) with
      | some v => exact gives_pure _
      | none => exact gives_template context.scope text
  | _ =>
      unfold plain
      exact gives_ofExcept _

theorem gives_settleBraced (s : Scope α) (text : Fragment) (type : ValueType)
    {other : Sliced (Ast α)} {result : Except FormatError (Ast α)} (h : other.Gives result) :
    (settleBraced s text type other).Gives (text.settleBraced s type result) := by
  rw [settleBraced, Fragment.settleBraced]
  refine gives_slice (braced_eq text) ?_
  cases text.braced? with
  | some inner => exact (gives_folded s inner).bind fun ast => gives_ofExcept _
  | none => exact h.bind fun ast => gives_ofExcept _

/-- A literal of any type is read without a fault. The induction is on the type: a list of literals
reads its items as literals of the type inside. -/
theorem readTyped_gives (context : LiteralContext α) (type : ValueType) (text : Fragment) :
    (readTyped context type text).Gives (PatternMarkup.readTyped context type text) := by
  fun_induction PatternMarkup.readTyped context type text with
  | case1 text => exact (gives_template context.scope text).bind fun ast => gives_ofExcept _
  | case2 text => exact (gives_template context.scope text).bind fun ast => gives_ofExcept _
  | case3 text =>
      rw [readTyped]
      refine gives_settleBraced context.scope text _ (gives_slice (splitItems_pieces text) ?_)
      exact (gives_mapM (gives_numberItem context.scope context.axis) text.pieces).bind
        fun _ => gives_pure _
  | case4 type text hscalar ih =>
      rw [readTyped.eq_4 _ _ _ hscalar]
      refine gives_settleBraced context.scope text _ (gives_slice (splitItems_pieces text) ?_)
      exact (gives_mapM ih text.pieces).bind fun _ => gives_pure _
  | case5 type text hstring hpath hscalars hlist =>
      rw [readTyped.eq_5 _ _ _ hstring hpath hscalars hlist]
      exact gives_settleBraced context.scope text type (gives_plain context type text)

end Utf8

end PatternMarkup
