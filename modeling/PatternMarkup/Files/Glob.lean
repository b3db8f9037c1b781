/-!
Wildcards for paths. `?` stands for any character, `[…]` for one out of a set, `*` for any text,
slashes included, and `**` between slashes for any number of folders or for all that is left.
-/

namespace PatternMarkup

/-- Which characters may stand at a place. -/
inductive GlobClass where
  | any
  | only (c : Char)
  /-- Characters of some ranges, or all others. -/
  | set (ranges : List (Char × Char)) (excluded : Bool)
deriving Repr, DecidableEq, Inhabited

/-- A part of a pattern of wildcards. -/
inductive GlobToken where
  | one (kind : GlobClass)
  | sequence
  | folders
deriving Repr, DecidableEq, Inhabited

/-- What is wrong with a pattern of wildcards. -/
inductive GlobProblem where
  | tooManyStars
  | foldersNotAlone
  | invalidSet
deriving Repr, DecidableEq, Inhabited

/-- A problem and the character at which it shows, counted from zero. -/
structure GlobError where
  problem : GlobProblem
  position : Nat
deriving Repr, DecidableEq, Inhabited

/-- What is said about a problem. -/
def GlobProblem.message : GlobProblem → String
  | tooManyStars => "wildcards are either regular `*` or recursive `**`"
  | foldersNotAlone => "recursive wildcards must form a single path component"
  | invalidSet => "invalid range pattern"

/-- What a report says about the error. -/
def GlobError.message (e : GlobError) : String :=
  "Pattern syntax error near position " ++ toString e.position ++ ": " ++ e.problem.message

/-- A pattern of wildcards. -/
structure Glob where
  tokens : List GlobToken
deriving Repr, DecidableEq, Inhabited

/-! ### Reading -/

/-- The ranges of a set; a character alone is a range of its own. -/
def charRanges : List Char → List (Char × Char)
  | low :: '-' :: high :: rest => (low, high) :: charRanges rest
  | c :: rest => (c, c) :: charRanges rest
  | [] => []

/-- A set whose first character is `first`, and what follows its bracket. The first character
never closes the set. -/
def closeSet? (excluded : Bool) (first : Char) (rest : List Char) :
    Option (GlobClass × List Char) :=
  match rest.dropWhile (· != ']') with
  | _ :: after =>
      some (.set (charRanges (first :: rest.takeWhile (· != ']'))) excluded, after)
  | [] => none

/-- A set after its opening bracket, and what follows it. -/
def readSet? : List Char → Option (GlobClass × List Char)
  | '!' :: first :: rest => closeSet? true first rest
  | '!' :: [] => none
  | first :: rest => closeSet? false first rest
  | [] => none

theorem length_dropWhile_le {β : Type} (p : β → Bool) (text : List β) :
    (text.dropWhile p).length ≤ text.length :=
  (List.dropWhile_sublist p).length_le

theorem length_closeSet_lt {excluded : Bool} {first : Char} {rest after : List Char}
    {kind : GlobClass} (h : closeSet? excluded first rest = some (kind, after)) :
    after.length < rest.length := by
  unfold closeSet? at h
  have hle := length_dropWhile_le (· != ']') rest
  split at h
  · rename_i heq
    simp only [Option.some.injEq, Prod.mk.injEq] at h
    obtain ⟨_, rfl⟩ := h
    rw [heq, List.length_cons] at hle
    omega
  · simp at h

theorem length_readSet_lt {text after : List Char} {kind : GlobClass}
    (h : readSet? text = some (kind, after)) : after.length < text.length := by
  unfold readSet? at h
  split at h
  · have := length_closeSet_lt h
    simp only [List.length_cons]
    omega
  · simp at h
  · have := length_closeSet_lt h
    simp only [List.length_cons]
    omega
  · simp at h

/-- The parts of a pattern from the character `position` on, after the character `before`. -/
def globTokens (before : Option Char) (position : Nat) (text : List Char) :
    Except GlobError (List GlobToken) :=
  match text with
  | [] => .ok []
  | '*' :: rest =>
      match (rest.takeWhile (· == '*')).length with
      | 0 => do return .sequence :: (← globTokens (some '*') (position + 1) rest)
      | 1 =>
          if before.all (· == '/') then
            match h : rest.dropWhile (· == '*') with
            | [] => .ok [.folders]
            | '/' :: inner => do
                return .folders :: (← globTokens (some '/') (position + 3) inner)
            | _ => .error ⟨.foldersNotAlone, position + 2⟩
          else .error ⟨.foldersNotAlone, position - 1⟩
      | _ => .error ⟨.tooManyStars, position + 2⟩
  | '[' :: rest =>
      match h : readSet? rest with
      | some (kind, after) => do
          let next := position + 1 + (rest.length - after.length)
          return .one kind :: (← globTokens (some ']') next after)
      | none => .error ⟨.invalidSet, position⟩
  | '?' :: rest => do return .one .any :: (← globTokens (some '?') (position + 1) rest)
  | c :: rest => do return .one (.only c) :: (← globTokens (some c) (position + 1) rest)
termination_by text.length
decreasing_by
  · simp
  · have := length_dropWhile_le (· == '*') rest
    rw [h] at this
    simp only [List.length_cons] at *
    omega
  · have := length_readSet_lt h
    simp only [List.length_cons]
    omega
  · simp
  · simp

/-- Reads a pattern of wildcards. -/
def Glob.read (text : String) : Except GlobError Glob :=
  (globTokens none 0 text.toList).map Glob.mk

/-! ### Matching -/

/-- Whether a character may stand at a place. -/
def GlobClass.accepts (c : Char) : GlobClass → Bool
  | any => true
  | only d => c == d
  | set ranges excluded =>
      ranges.any (fun (low, high) => decide (low ≤ c ∧ c ≤ high)) != excluded

/-! A row tells of each end of a text, from the text itself down to the empty one, whether the
parts of a pattern that are still to come cover it. -/

/-- The row of no parts: they cover only the empty end. -/
def emptyRow (text : List Char) : List Bool := text.map (fun _ => false) ++ [true]

/-- The row of one character before what `row` tells of. -/
def oneRow (kind : GlobClass) : List Char → List Bool → List Bool
  | c :: text, _ :: row => (kind.accepts c && row.headD false) :: oneRow kind text row
  | _, _ => [false]

/-- The row of any text before what `row` tells of: whether any end from here on is covered. -/
def sequenceRow : List Bool → List Bool
  | [] => []
  | covered :: row =>
      let later := sequenceRow row
      (covered || later.headD false) :: later

/-- Whether, after each end of a text, a covered one stands after a slash, or the empty one is
covered. -/
def laterFolders : List Char → List Bool → List Bool
  | c :: text, _ :: row =>
      let later := laterFolders text row
      (later.headD false || c == '/' && row.headD false) :: later
  | _, row => row

/-- The row of folders before what `row` tells of. -/
def foldersRow (text : List Char) (row : List Bool) : List Bool :=
  row.zipWith (· || ·) (laterFolders text row)

/-- The row of the parts of a pattern. -/
def coverRow (text : List Char) : List GlobToken → List Bool
  | [] => emptyRow text
  | .one kind :: tokens => oneRow kind text (coverRow text tokens)
  | .sequence :: tokens => sequenceRow (coverRow text tokens)
  | .folders :: tokens => foldersRow text (coverRow text tokens)

/-- Whether a pattern covers a path. -/
def Glob.covers (g : Glob) (path : String) : Bool := (coverRow path.toList g.tokens).headD false

end PatternMarkup
