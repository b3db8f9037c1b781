import Mathlib.Data.List.Basic
import PatternMarkup.Files.Path
/-!
Normalised paths. Normalising a path that has been normalised changes nothing. Seen from a directory
that is deep enough, a path is normalised to the directory it leads to; normalised on its own first,
it leads to the same place exactly if it never climbs more than one directory above its start, since
a step up that has to stay is undone by the next one.
-/

namespace PatternMarkup

/-! ### Text of paths -/

theorem splitSlashes_nil : splitSlashes [] = [[]] := rfl

theorem splitSlashes_slash (text : List Char) :
    splitSlashes ('/' :: text) = [] :: splitSlashes text :=
  rfl

theorem splitSlashes_ne_nil (text : List Char) : splitSlashes text ≠ [] := by
  cases text with
  | nil => exact List.cons_ne_nil _ _
  | cons c rest =>
      rw [splitSlashes]
      split_ifs
      · exact List.cons_ne_nil _ _
      · split <;> exact List.cons_ne_nil _ _

theorem splitSlashes_cons {c : Char} (hc : c ≠ '/') {text piece : List Char}
    {pieces : List (List Char)} (h : splitSlashes text = piece :: pieces) :
    splitSlashes (c :: text) = (c :: piece) :: pieces := by
  rw [splitSlashes, if_neg hc, h]

/-- A slash between two texts is one between their pieces. -/
theorem splitSlashes_append_slash (front back : List Char) :
    splitSlashes (front ++ '/' :: back) = splitSlashes front ++ splitSlashes back := by
  induction front with
  | nil => rw [List.nil_append, splitSlashes_slash, splitSlashes_nil, List.singleton_append]
  | cons c rest ih =>
      rw [List.cons_append]
      by_cases hc : c = '/'
      · subst hc
        rw [splitSlashes_slash, splitSlashes_slash, ih, List.cons_append]
      · obtain ⟨piece, pieces, hpieces⟩ := List.exists_cons_of_ne_nil (splitSlashes_ne_nil rest)
        rw [hpieces, List.cons_append] at ih
        rw [splitSlashes_cons hc ih, splitSlashes_cons hc hpieces, List.cons_append]

theorem splitSlashes_of_notMem {text : List Char} (h : '/' ∉ text) :
    splitSlashes text = [text] := by
  induction text with
  | nil => rfl
  | cons c rest ih =>
      rw [List.mem_cons, not_or] at h
      exact splitSlashes_cons (Ne.symm h.1) (ih h.2)

theorem notMem_of_mem_splitSlashes {text piece : List Char} (h : piece ∈ splitSlashes text) :
    '/' ∉ piece := by
  induction text generalizing piece with
  | nil =>
      rw [splitSlashes_nil, List.mem_singleton] at h
      rw [h]
      exact List.not_mem_nil
  | cons c rest ih =>
      by_cases hc : c = '/'
      · subst hc
        rw [splitSlashes_slash, List.mem_cons] at h
        rcases h with rfl | h
        · exact List.not_mem_nil
        · exact ih h
      · obtain ⟨first, pieces, hpieces⟩ := List.exists_cons_of_ne_nil (splitSlashes_ne_nil rest)
        rw [splitSlashes_cons hc hpieces, List.mem_cons] at h
        rw [hpieces] at ih
        rcases h with rfl | h
        · rw [List.mem_cons, not_or]
          exact ⟨Ne.symm hc, ih List.mem_cons_self⟩
        · exact ih (List.mem_cons_of_mem first h)

namespace PathComponent

/-- Whether the text between two slashes is a name. -/
structure IsName (text : List Char) : Prop where
  ne_nil : text ≠ []
  ne_here : text ≠ ['.']
  ne_up : text ≠ ['.', '.']
  noSlash : '/' ∉ text

/-- A component as it can stand behind the start of a path: a step up or a name. -/
def IsPart : PathComponent → Prop
  | up => True
  | name text => IsName text
  | _ => False

theorem IsName.ofPiece? {text : List Char} (h : IsName text) :
    ofPiece? text = some (name text) := by
  rw [PathComponent.ofPiece?, if_neg (not_or.mpr ⟨h.ne_nil, h.ne_here⟩), if_neg h.ne_up]

theorem IsPart.ofPiece?_text {c : PathComponent} (h : c.IsPart) : ofPiece? c.text = some c := by
  cases c with
  | up => rfl
  | name text => exact IsName.ofPiece? h
  | root => cases h
  | here => cases h

theorem IsPart.noSlash {c : PathComponent} (h : c.IsPart) : '/' ∉ c.text := by
  cases c with
  | up => decide
  | name text => exact IsName.noSlash h
  | root => cases h
  | here => cases h

theorem IsPart.text_ne_nil {c : PathComponent} (h : c.IsPart) : c.text ≠ [] := by
  cases c with
  | up => decide
  | name text => exact IsName.ne_nil h
  | root => cases h
  | here => cases h

theorem isPart_of_ofPiece? {piece : List Char} {c : PathComponent} (hpiece : '/' ∉ piece)
    (h : ofPiece? piece = some c) : c.IsPart := by
  unfold ofPiece? at h
  split_ifs at h with hnone hup
  · cases h
    trivial
  · cases h
    rw [not_or] at hnone
    exact ⟨hnone.1, hnone.2, hup, hpiece⟩

/-- The parts that the pieces of a text stand for. -/
def ofText (text : List Char) : List PathComponent := (splitSlashes text).filterMap ofPiece?

theorem isPart_of_mem_ofText {text : List Char} {c : PathComponent} (h : c ∈ ofText text) :
    c.IsPart := by
  obtain ⟨piece, hpiece, hc⟩ := List.mem_filterMap.mp h
  exact isPart_of_ofPiece? (notMem_of_mem_splitSlashes hpiece) hc

theorem ofText_append_slash (front back : List Char) :
    ofText (front ++ '/' :: back) = ofText front ++ ofText back := by
  rw [ofText, splitSlashes_append_slash, List.filterMap_append]
  rfl

theorem ofText_slash (text : List Char) : ofText ('/' :: text) = ofText text := by
  rw [ofText, splitSlashes_slash]
  rfl

theorem joined_cons {c d : PathComponent} (hc : c.IsPart) (rest : List PathComponent) :
    joined (c :: d :: rest) = c.text ++ '/' :: joined (d :: rest) := by
  cases c with
  | root => cases hc
  | _ => rfl

/-- Parts with slashes between them are the pieces of their text. -/
theorem splitSlashes_joined {cs : List PathComponent} (hne : cs ≠ []) (h : ∀ c ∈ cs, c.IsPart) :
    splitSlashes (joined cs) = cs.map text := by
  induction cs with
  | nil => exact absurd rfl hne
  | cons c rest ih =>
      have hc := h c List.mem_cons_self
      cases rest with
      | nil => exact splitSlashes_of_notMem hc.noSlash
      | cons d rest =>
          have hrest := ih (List.cons_ne_nil d rest) fun e he => h e (List.mem_cons_of_mem c he)
          rw [joined_cons hc, splitSlashes_append_slash, splitSlashes_of_notMem hc.noSlash, hrest]
          rfl

theorem ofText_joined {cs : List PathComponent} (h : ∀ c ∈ cs, c.IsPart) :
    ofText (joined cs) = cs := by
  cases cs with
  | nil => rfl
  | cons c rest =>
      have hsome : ∀ d ∈ c :: rest, (ofPiece? ∘ text) d = some d :=
        fun d hd => (h d hd).ofPiece?_text
      rw [ofText, splitSlashes_joined (List.cons_ne_nil c rest) h, List.filterMap_map,
        List.filterMap_congr hsome, List.filterMap_some]

/-! ### Where a path leads -/

/-- How many directories above its start a path is where it is highest. -/
def ascent : List PathComponent → Nat
  | [] => 0
  | up :: rest => ascent rest + 1
  | name _ :: rest => ascent rest - 1
  | root :: rest => ascent rest
  | here :: rest => ascent rest

/-- The directory that a path leads to, as the names on the way there; nothing is above the start
of that way. -/
def walk (dirs : List (List Char)) : List PathComponent → List (List Char)
  | [] => dirs
  | up :: rest => walk dirs.dropLast rest
  | name text :: rest => walk (dirs ++ [text]) rest
  | root :: rest => walk dirs rest
  | here :: rest => walk dirs rest

theorem ascent_nil : ascent [] = 0 := rfl

theorem ascent_up (rest : List PathComponent) : ascent (up :: rest) = ascent rest + 1 := rfl

theorem ascent_name (text : List Char) (rest : List PathComponent) :
    ascent (name text :: rest) = ascent rest - 1 :=
  rfl

theorem walk_nil (dirs : List (List Char)) : walk dirs [] = dirs := rfl

theorem walk_up (dirs : List (List Char)) (rest : List PathComponent) :
    walk dirs (up :: rest) = walk dirs.dropLast rest :=
  rfl

theorem walk_name (dirs : List (List Char)) (text : List Char) (rest : List PathComponent) :
    walk dirs (name text :: rest) = walk (dirs ++ [text]) rest :=
  rfl

theorem ascent_map_name_append (names : List (List Char)) (cs : List PathComponent) :
    ascent (names.map name ++ cs) = ascent cs - names.length := by
  induction names with
  | nil => rfl
  | cons text rest ih =>
      rw [List.map_cons, List.cons_append, ascent_name, ih, List.length_cons, Nat.sub_sub]

theorem walk_map_name_append (dirs names : List (List Char)) (cs : List PathComponent) :
    walk dirs (names.map name ++ cs) = walk (dirs ++ names) cs := by
  induction names generalizing dirs with
  | nil => rw [List.map_nil, List.nil_append, List.append_nil]
  | cons text rest ih =>
      rw [List.map_cons, List.cons_append, walk_name, ih, List.append_assoc, List.singleton_append]

/-- A path climbs no higher than by all its steps up. -/
theorem ascent_le_count (cs : List PathComponent) : ascent cs ≤ cs.count up := by
  induction cs with
  | nil => exact Nat.le_refl 0
  | cons c rest ih =>
      have hrest : rest.count up ≤ (c :: rest).count up := List.count_le_count_cons
      cases c with
      | up =>
          rw [ascent_up, List.count_cons_self]
          exact Nat.succ_le_succ ih
      | name text => exact Nat.le_trans (Nat.sub_le _ 1) (Nat.le_trans ih hrest)
      | root => exact Nat.le_trans ih hrest
      | here => exact Nat.le_trans ih hrest

/-- What a path leads to from a directory: it takes away as many of the last names as it climbs,
and adds the same names everywhere. -/
theorem walk_append (dirs names : List (List Char)) (cs : List PathComponent) :
    walk (dirs ++ names) cs =
      dirs.take (dirs.length - (ascent cs - names.length)) ++ walk names cs := by
  induction cs generalizing dirs names with
  | nil => rw [walk_nil, walk_nil, ascent_nil, Nat.zero_sub, Nat.sub_zero, List.take_length]
  | cons c rest ih =>
      cases c with
      | up =>
          rw [walk_up, walk_up, ascent_up]
          rcases List.eq_nil_or_concat names with rfl | ⟨front, last, rfl⟩
          · have hdrop := ih dirs.dropLast []
            rw [List.append_nil] at hdrop
            rw [List.append_nil, hdrop, List.dropLast_eq_take, List.take_take, List.length_take]
            congr 2
            simp only [List.length_nil]
            omega
          · rw [List.concat_eq_append, ← List.append_assoc, List.dropLast_concat,
              List.dropLast_concat, ih, List.length_append, List.length_singleton,
              Nat.add_sub_add_right]
      | name text =>
          rw [walk_name, walk_name, ascent_name, List.append_assoc, ih, List.length_append,
            List.length_singleton, Nat.sub_sub, Nat.add_comm 1]
      | root => exact ih dirs names
      | here => exact ih dirs names

theorem walk_eq (dirs : List (List Char)) (cs : List PathComponent) :
    walk dirs cs = dirs.take (dirs.length - ascent cs) ++ walk [] cs := by
  have h := walk_append dirs [] cs
  rwa [List.append_nil, List.length_nil, Nat.sub_zero] at h

/-- The names of the directory a path leads to are those of the start and those in the path. -/
theorem mem_walk {dirs : List (List Char)} {cs : List PathComponent} {text : List Char}
    (h : text ∈ walk dirs cs) : text ∈ dirs ∨ name text ∈ cs := by
  induction cs generalizing dirs with
  | nil => exact .inl h
  | cons c rest ih =>
      cases c with
      | up =>
          rcases ih h with h | h
          · exact .inl (List.dropLast_subset dirs h)
          · exact .inr (List.mem_cons_of_mem _ h)
      | name other =>
          rcases ih h with h | h
          · rcases List.mem_append.mp h with h | h
            · exact .inl h
            · rw [List.mem_singleton.mp h]
              exact .inr List.mem_cons_self
          · exact .inr (List.mem_cons_of_mem _ h)
      | root => exact (ih h).imp_right (List.mem_cons_of_mem _)
      | here => exact (ih h).imp_right (List.mem_cons_of_mem _)

/-! ### Normalised components -/

/-- What normalising keeps of a path that climbs so often and ends in the given names: of any two
steps up one undoes the other. -/
def settled (climbs : Nat) (names : List (List Char)) : List PathComponent :=
  (if climbs % 2 = 1 then [up] else []) ++ names.map name

/-- The start of a path: nothing, or the root. -/
def IsStart (start : List PathComponent) : Prop := start = [] ∨ start = [root]

section Settled

variable {start : List PathComponent} (climbs : Nat)

theorem normalStep_name (path : List PathComponent) (names : List (List Char)) (text : List Char) :
    normalStep (path ++ settled climbs names) (name text) =
      path ++ settled climbs (names ++ [text]) := by
  simp [normalStep, settled]

theorem normalStep_up_concat (path : List PathComponent) (names : List (List Char))
    (text : List Char) :
    normalStep (path ++ settled climbs (names ++ [text])) up = path ++ settled climbs names := by
  have hlast : path ++ settled climbs (names ++ [text]) =
      (path ++ settled climbs names) ++ [name text] := by
    simp [settled]
  rw [hlast, normalStep, List.getLast?_concat, List.dropLast_concat]

theorem normalStep_up_nil (hstart : IsStart start) :
    normalStep (start ++ settled climbs []) up = start ++ settled (climbs + 1) [] := by
  rcases Nat.mod_two_eq_zero_or_one climbs with heven | hodd
  · have hnext : (climbs + 1) % 2 = 1 := by omega
    simp only [settled, heven, hnext]
    rcases hstart with rfl | rfl <;> rfl
  · have hnext : (climbs + 1) % 2 = 0 := by omega
    simp only [settled, hodd, hnext]
    rcases hstart with rfl | rfl <;> rfl

/-- Normalising on, behind a start: the names come out as on the way there, and of the steps up
that lead above the start every second one is left. -/
theorem foldl_normalStep (hstart : IsStart start) (names : List (List Char))
    {cs : List PathComponent} (hcs : root ∉ cs) :
    cs.foldl normalStep (start ++ settled climbs names) =
      start ++ settled (climbs + (ascent cs - names.length)) (walk names cs) := by
  induction cs generalizing climbs names with
  | nil => rw [List.foldl_nil, ascent_nil, walk_nil, Nat.zero_sub, Nat.add_zero]
  | cons c rest ih =>
      rw [List.mem_cons, not_or] at hcs
      rw [List.foldl_cons]
      cases c with
      | up =>
          rw [ascent_up, walk_up]
          rcases List.eq_nil_or_concat names with rfl | ⟨front, last, rfl⟩
          · rw [normalStep_up_nil climbs hstart, ih _ _ hcs.2, List.dropLast_nil]
            congr 2
            simp only [List.length_nil]
            omega
          · rw [List.concat_eq_append, normalStep_up_concat, ih _ _ hcs.2, List.dropLast_concat,
              List.length_append, List.length_singleton, Nat.add_sub_add_right]
      | name text =>
          rw [normalStep_name, ih _ _ hcs.2, ascent_name, walk_name, List.length_append,
            List.length_singleton, Nat.sub_sub, Nat.add_comm 1]
      | here => exact ih climbs names hcs.2
      | root => exact absurd rfl hcs.1

end Settled

theorem ascent_settled (climbs : Nat) (names : List (List Char)) :
    ascent (settled climbs names) = climbs % 2 := by
  have hnames := ascent_map_name_append names []
  rw [List.append_nil, ascent_nil, Nat.zero_sub] at hnames
  rcases Nat.mod_two_eq_zero_or_one climbs with h | h
  · simp [settled, h, hnames]
  · simp [settled, h, ascent_up, hnames]

theorem walk_nil_settled (climbs : Nat) (names : List (List Char)) :
    walk [] (settled climbs names) = names := by
  have hnames := walk_map_name_append [] names []
  rw [List.append_nil, List.nil_append, walk_nil] at hnames
  rcases Nat.mod_two_eq_zero_or_one climbs with h | h
  · simp [settled, h, hnames]
  · simp [settled, h, walk_up, hnames]

theorem settled_mod_two (climbs : Nat) (names : List (List Char)) :
    settled (climbs % 2) names = settled climbs names := by
  rw [settled, Nat.mod_mod, settled]

/-- A path normalised behind its start. -/
theorem normalized_append {start cs : List PathComponent} (hstart : IsStart start)
    (hcs : root ∉ cs) : normalized (start ++ cs) = start ++ settled (ascent cs) (walk [] cs) := by
  have hfirst : normalized start = start ++ settled 0 [] := by
    rcases hstart with rfl | rfl <;> rfl
  rw [normalized, List.foldl_append, ← normalized, hfirst, foldl_normalStep 0 hstart [] hcs,
    Nat.zero_add, List.length_nil, Nat.sub_zero]

end PathComponent

namespace FilePath

open PathComponent

/-! ### Components of paths -/

/-- What stands behind the start of a path, without the dot it may begin with. -/
def parts (p : FilePath) : List PathComponent := ofText p.text.toList

/-- The start of a path. -/
def start (p : FilePath) : List PathComponent := if p.isAbsolute then [root] else []

theorem isStart_start (p : FilePath) : IsStart p.start := by
  unfold start
  split
  · exact .inr rfl
  · exact .inl rfl

theorem root_notMem_parts (p : FilePath) : root ∉ p.parts := fun h => isPart_of_mem_ofText h

theorem isAbsolute_iff {p : FilePath} :
    p.isAbsolute = true ↔ ∃ rest, p.text.toList = '/' :: rest := by
  rw [isAbsolute]
  cases p.text.toList with
  | nil => simp
  | cons c rest =>
      rw [List.isPrefixOf_cons_cons, List.isPrefixOf_nil_left, Bool.and_true, beq_iff_eq]
      constructor
      · rintro rfl
        exact ⟨rest, rfl⟩
      · rintro ⟨_, h⟩
        exact (List.cons.inj h).1.symm

/-- A path is its start and its parts, but for a dot in front. -/
theorem components_eq (p : FilePath) :
    p.components = p.start ++ p.parts ∨ p.start = [] ∧ p.components = here :: p.parts := by
  have habsolute := @isAbsolute_iff p
  unfold components start parts ofText
  cases htext : p.text.toList with
  | nil =>
      rw [htext] at habsolute
      have hrelative : p.isAbsolute = false := by simpa using habsolute
      simp [splitSlashes_nil, hrelative]
  | cons c rest =>
      rw [htext] at habsolute
      by_cases hc : c = '/'
      · subst hc
        have hroot : p.isAbsolute = true := habsolute.mpr ⟨rest, rfl⟩
        rw [splitSlashes_slash]
        simp [hroot]
      · have hrelative : p.isAbsolute = false := by simpa [hc] using habsolute
        obtain ⟨piece, pieces, hpieces⟩ := List.exists_cons_of_ne_nil (splitSlashes_ne_nil rest)
        rw [splitSlashes_cons hc hpieces, hrelative]
        simp only
        split
        · next h => cases h
        · exact .inr ⟨rfl, rfl⟩
        · exact .inl rfl

/-- Normalising goes by the start and the parts alone. -/
theorem normalized_components (p : FilePath) :
    normalized p.components = p.start ++ settled (ascent p.parts) (walk [] p.parts) := by
  rw [← normalized_append p.isStart_start p.root_notMem_parts]
  rcases p.components_eq with h | ⟨hstart, h⟩
  · rw [h]
  · rw [h, hstart]
    rfl

theorem ascent_components {p : FilePath} (h : p.isAbsolute = false) :
    ascent p.components = ascent p.parts := by
  have hstart : p.start = [] := by simp [start, h]
  rcases p.components_eq with h | ⟨-, h⟩
  · rw [h, hstart, List.nil_append]
  · rw [h]
    rfl

theorem walk_components {p : FilePath} (h : p.isAbsolute = false) (dirs : List (List Char)) :
    walk dirs p.components = walk dirs p.parts := by
  have hstart : p.start = [] := by simp [start, h]
  rcases p.components_eq with h | ⟨-, h⟩
  · rw [h, hstart, List.nil_append]
  · rw [h]
    rfl

/-! ### Paths of components -/

theorem joined_root (cs : List PathComponent) : joined (root :: cs) = '/' :: joined cs := by
  cases cs <;> rfl

/-- A path made of a start and parts has just these. -/
theorem ofComponents_append {start cs : List PathComponent} (hstart : IsStart start)
    (hcs : ∀ c ∈ cs, c.IsPart) :
    (ofComponents (start ++ cs)).start = start ∧ (ofComponents (start ++ cs)).parts = cs := by
  have hparts := ofText_joined hcs
  unfold FilePath.start FilePath.parts ofComponents
  rcases hstart with rfl | rfl
  · have hrelative : ¬ (⟨String.ofList (joined ([] ++ cs))⟩ : FilePath).isAbsolute = true := by
      rw [isAbsolute_iff, String.toList_ofList, List.nil_append]
      rintro ⟨rest, hrest⟩
      cases cs with
      | nil => cases hrest
      | cons c cs =>
          have hpieces := splitSlashes_joined (List.cons_ne_nil c cs) hcs
          rw [hrest, splitSlashes_slash, List.map_cons] at hpieces
          exact (hcs c List.mem_cons_self).text_ne_nil (List.cons.inj hpieces).1.symm
    rw [if_neg hrelative, String.toList_ofList, List.nil_append, hparts]
    exact ⟨rfl, rfl⟩
  · have habsolute : (⟨String.ofList (joined ([root] ++ cs))⟩ : FilePath).isAbsolute = true := by
      rw [isAbsolute_iff]
      exact ⟨joined cs, by rw [String.toList_ofList, List.singleton_append, joined_root]⟩
    rw [habsolute, String.toList_ofList, List.singleton_append, joined_root, ofText_slash, hparts]
    exact ⟨rfl, rfl⟩

/-- What a path is normalised to, as components. -/
theorem normalize_components (p : FilePath) :
    p.normalize.start = p.start ∧
      p.normalize.parts = settled (ascent p.parts) (walk [] p.parts) := by
  rw [normalize, normalized_components]
  refine ofComponents_append p.isStart_start fun c hc => ?_
  rcases List.mem_append.mp hc with hc | hc
  · split at hc
    · rw [List.mem_singleton.mp hc]
      trivial
    · cases hc
  · obtain ⟨text, htext, rfl⟩ := List.mem_map.mp hc
    exact isPart_of_mem_ofText ((mem_walk htext).resolve_left List.not_mem_nil)

/-- Normalising twice is normalising once. -/
theorem normalize_idem (p : FilePath) : p.normalize.normalize = p.normalize := by
  obtain ⟨hstart, hparts⟩ := p.normalize_components
  rw [normalize, normalized_components, hstart, hparts, ascent_settled, walk_nil_settled,
    settled_mod_two, normalize, normalized_components]

/-! ### Paths seen from a directory -/

theorem start_of_isAbsolute {p : FilePath} (h : p.isAbsolute = true) : p.start = [root] := if_pos h

theorem isAbsolute_of_start {p : FilePath} (h : p.start = []) : p.isAbsolute = false := by
  rw [Bool.eq_false_iff]
  intro habsolute
  rw [start_of_isAbsolute habsolute] at h
  cases h

/-- A relative path seen from an absolute directory: there is a slash between the two, whether or
not the directory ends in one. -/
theorem join_components {base p : FilePath} (hbase : base.isAbsolute = true)
    (hp : p.isAbsolute = false) :
    (base.join p).start = [root] ∧ (base.join p).parts = base.parts ++ p.parts := by
  obtain ⟨rest, hrest⟩ := isAbsolute_iff.mp hbase
  have hstart : ∀ (q : FilePath) (tail : List Char), q.text.toList = base.text.toList ++ tail →
      q.start = [root] := fun q tail hq =>
    start_of_isAbsolute (isAbsolute_iff.mpr ⟨rest ++ tail, by rw [hq, hrest, List.cons_append]⟩)
  unfold join
  rw [if_neg (Bool.eq_false_iff.mp hp)]
  by_cases hlast : base.text.toList.getLast? = some '/'
  · obtain ⟨front, hfront⟩ := List.getLast?_eq_some_iff.mp hlast
    have htext : (⟨base.text ++ p.text⟩ : FilePath).text.toList =
        base.text.toList ++ p.text.toList := String.toList_append
    rw [if_pos (by simp [hlast])]
    refine ⟨hstart _ _ htext, ?_⟩
    rw [parts, htext, parts, hfront, List.append_assoc, List.singleton_append, ofText_append_slash,
      ofText_append_slash]
    simp [ofText, splitSlashes_nil, ofPiece?, parts]
  · have hempty : base.text.isEmpty = false := by
      rw [Bool.eq_false_iff]
      intro h
      rw [String.isEmpty_iff.mp h] at hrest
      cases hrest
    have htext : (⟨base.text ++ "/" ++ p.text⟩ : FilePath).text.toList =
        base.text.toList ++ '/' :: p.text.toList := by
      simp [String.toList_append]
    rw [if_neg (by simp [hlast, hempty])]
    refine ⟨hstart _ _ htext, ?_⟩
    rw [parts, htext, ofText_append_slash]
    rfl

/-- An absolute path of names and what its text says. -/
theorem parts_of_components {base : FilePath} {dirs : List (List Char)}
    (h : base.components = root :: dirs.map name) :
    base.isAbsolute = true ∧ base.parts = dirs.map name := by
  have hno := base.root_notMem_parts
  rcases base.components_eq with hcs | ⟨-, hcs⟩
  · rw [h] at hcs
    unfold start at hcs
    split at hcs
    · next habsolute => exact ⟨habsolute, (List.cons.inj hcs).2.symm⟩
    · rw [List.nil_append] at hcs
      rw [← hcs] at hno
      exact absurd List.mem_cons_self hno
  · rw [h] at hcs
    cases (List.cons.inj hcs).1

theorem isName_of_mem_walk {base : FilePath} {dirs : List (List Char)}
    (hbase : base.components = root :: dirs.map name) (p : FilePath) :
    ∀ text ∈ walk dirs p.parts, IsName text := by
  intro text htext
  rcases mem_walk htext with hdir | hpart
  · have hmem : name text ∈ base.parts := by
      rw [(parts_of_components hbase).2]
      exact List.mem_map_of_mem hdir
    exact isPart_of_mem_ofText hmem
  · exact isPart_of_mem_ofText hpart

/-- A path that does not lead above the root is normalised to the directory it leads to. -/
theorem normalize_join_eq {base p : FilePath} {dirs : List (List Char)}
    (hbase : base.components = root :: dirs.map name) (hp : p.isAbsolute = false)
    (hdeep : ascent p.parts ≤ dirs.length) :
    (base.join p).normalize = ofComponents (root :: (walk dirs p.parts).map name) := by
  obtain ⟨habsolute, hdirs⟩ := parts_of_components hbase
  obtain ⟨hstart, hparts⟩ := join_components habsolute hp
  have hnone : ascent p.parts - dirs.length = 0 := Nat.sub_eq_zero_of_le hdeep
  rw [normalize, normalized_components, hstart, hparts, hdirs, ascent_map_name_append,
    walk_map_name_append, hnone]
  rfl

/-- Two ways from the root are the same path only if they are the same way. -/
theorem ofComponents_eq_iff {dirs dirs' : List (List Char)} (h : ∀ text ∈ dirs, IsName text)
    (h' : ∀ text ∈ dirs', IsName text) :
    ofComponents (root :: dirs.map name) = ofComponents (root :: dirs'.map name) ↔
      dirs = dirs' := by
  have hparts : ∀ names : List (List Char), (∀ text ∈ names, IsName text) →
      (ofComponents (root :: names.map name)).parts = names.map name := by
    intro names hnames
    refine (ofComponents_append (.inr rfl) fun c hc => ?_).2
    obtain ⟨text, htext, rfl⟩ := List.mem_map.mp hc
    exact hnames text htext
  constructor
  · intro heq
    have hmap : dirs.map name = dirs'.map name := by
      rw [← hparts dirs h, ← hparts dirs' h', heq]
    exact List.map_injective_iff.mpr (fun _ _ hname => PathComponent.name.inj hname) hmap
  · rintro rfl
    rfl

/-- Normalising keeps the form of paths, and from a directory that is deep enough a path is
normalised to the directory it leads to. Normalising it first keeps that place exactly if the path
is never more than one directory above its start. -/
theorem normalize_join (p : FilePath) :
    p.normalize.normalize = p.normalize ∧
      ∀ (base : FilePath) (dirs : List (List Char)), p.isAbsolute = false →
        base.components = root :: dirs.map name → p.components.count up ≤ dirs.length →
        (base.join p).normalize = ofComponents (root :: (walk dirs p.components).map name) ∧
          ((base.join p).normalize = (base.join p.normalize).normalize ↔
            ascent p.components ≤ 1) := by
  refine ⟨p.normalize_idem, fun base dirs hp hbase hcount => ?_⟩
  have hclimb := Nat.le_trans (ascent_le_count p.components) hcount
  rw [ascent_components hp] at hclimb
  rw [ascent_components hp, walk_components hp]
  have hwalk := normalize_join_eq hbase hp hclimb
  refine ⟨hwalk, ?_⟩
  obtain ⟨hstart, hparts⟩ := p.normalize_components
  have hrelative : p.normalize.isAbsolute = false := by
    apply isAbsolute_of_start
    rw [hstart, start, hp]
    rfl
  have hnormal : (base.join p.normalize).normalize =
      ofComponents (root :: (walk dirs (settled (ascent p.parts) (walk [] p.parts))).map name) := by
    rw [← hparts]
    apply normalize_join_eq hbase hrelative
    rw [hparts, ascent_settled]
    exact Nat.le_trans (Nat.mod_le _ 2) hclimb
  have hnames := isName_of_mem_walk hbase p.normalize
  rw [hparts] at hnames
  rw [hwalk, hnormal, ofComponents_eq_iff (isName_of_mem_walk hbase p) hnames,
    walk_eq dirs p.parts, walk_eq dirs (settled _ _), ascent_settled, walk_nil_settled]
  constructor
  · intro hsame
    have hlength := congrArg List.length (List.append_cancel_right hsame)
    rw [List.length_take, List.length_take] at hlength
    omega
  · intro hone
    rw [Nat.mod_eq_of_lt (Nat.lt_succ_of_le hone)]

/-- A path that steps back out of a directory and then out of the one it started in. -/
theorem normalize_join_sibling :
    let base : FilePath := ⟨"/a//b/"⟩
    let p : FilePath := ⟨"x/../../c/."⟩
    p.isAbsolute = false ∧ base.components = root :: [['a'], ['b']].map name ∧
      p.components.count up ≤ [['a'], ['b']].length ∧ ascent p.components ≤ 1 ∧
      p.normalize.text = "../c" ∧ p.normalize.normalize = p.normalize ∧
      (base.join p).normalize.text = "/a/c" ∧
      (base.join p).normalize = (base.join p.normalize).normalize := by
  intro base p
  have hp : p.isAbsolute = false := by decide
  have hbase : base.components = root :: [['a'], ['b']].map name := by decide
  have hdeep : p.components.count up ≤ [['a'], ['b']].length := by decide
  have hascent : ascent p.components ≤ 1 := by decide
  obtain ⟨hidem, hjoin⟩ := normalize_join p
  obtain ⟨hwalk, hiff⟩ := hjoin base [['a'], ['b']] hp hbase hdeep
  refine ⟨hp, hbase, hdeep, hascent, by decide, hidem, ?_, hiff.mpr hascent⟩
  rw [hwalk]
  decide

/-- Two steps up are normalised to none, which from a directory leads to that directory and not to
the one two above it. -/
theorem normalize_join_grandparent :
    ¬ ∀ (base p : FilePath) (dirs : List (List Char)), p.isAbsolute = false →
      base.components = root :: dirs.map name → p.components.count up ≤ dirs.length →
      ((base.join p).normalize == (base.join p.normalize).normalize) = true := by
  intro h
  have hsame := h ⟨"/a/b"⟩ ⟨"../.."⟩ [['a'], ['b']] (by decide) (by decide) (by decide)
  revert hsame
  decide

end FilePath

end PatternMarkup
