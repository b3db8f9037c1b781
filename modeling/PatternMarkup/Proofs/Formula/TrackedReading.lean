import Mathlib.Data.List.TakeWhile
import PatternMarkup.Formula.Evaluate
/-!
Evaluation that keeps the variables being read in a list of its own. A variable is put at the end
of the list before its formula is evaluated and taken off afterwards. Main statement: if formulas
may nest as deep as there are variables, evaluation ends, leaves the list as it was, also when it
fails, and gives what evaluation gives that passes the variables on.
-/

namespace PatternMarkup

/-- A reading whose state is the list of the variables being read, the last one at the end. The
state is there after an error as well; there is no result at all where formulas nest too deep. -/
abbrev Tracked (β : Type) := ExceptT EvalError (StateT (List VariableKey) Option) β

namespace Tracked

variable {β γ : Type}

/-- A result that does not depend on the list. -/
def ofExcept (result : Except EvalError β) : Tracked β := fun reading => some (result, reading)

/-- The end of a reading that nests too deep. -/
def tooDeep : Tracked β := fun _ => none

/-- Reads with a variable at the end of the list and takes it off again, whatever comes of it. One
that is on the list is not read a second time: the error names the variables from it on. -/
def visit (key : VariableKey) (read : Tracked β) : Tracked β := fun reading =>
  match reading.dropWhile (· != key) with
  | [] => (read (reading ++ [key])).map fun (result, after) => (result, after.dropLast)
  | cycle => some (.error (.recursion (cycle.map (·.1) ++ [key.1])), reading)

/-- The reading ends with a result and leaves the list as it was. -/
def Returns (read : Tracked β) (reading : List VariableKey) (result : Except EvalError β) : Prop :=
  read reading = some (result, reading)

theorem returns_ofExcept (result : Except EvalError β) (reading : List VariableKey) :
    (ofExcept result).Returns reading result := rfl

theorem Returns.bind {read : Tracked β} {next : β → Tracked γ} {reading : List VariableKey}
    {result : Except EvalError β} {more : β → Except EvalError γ} (h : read.Returns reading result)
    (hnext : ∀ x, (next x).Returns reading (more x)) :
    (read >>= next).Returns reading (result >>= more) := by
  have hrun : (read >>= next) reading = (read reading).bind fun
      | (.ok x, after) => next x after
      | (.error e, after) => some (.error e, after) := by
    change (read reading).bind _ = _
    congr 1
    funext ⟨result, after⟩
    cases result <;> rfl
  unfold Returns
  rw [hrun, h]
  cases result with
  | ok x => exact hnext x
  | error e => rfl

theorem dropWhile_of_not_mem {key : VariableKey} {reading : List VariableKey}
    (hkey : key ∉ reading) : reading.dropWhile (· != key) = [] := by
  rw [List.dropWhile_eq_nil_iff]
  intro other hother
  rw [bne_iff_ne]
  rintro rfl
  exact hkey hother

theorem Returns.visit {key : VariableKey} {read : Tracked β} {reading : List VariableKey}
    {result : Except EvalError β} (hkey : key ∉ reading)
    (h : read.Returns (reading ++ [key]) result) : (visit key read).Returns reading result := by
  unfold Returns Tracked.visit
  rw [dropWhile_of_not_mem hkey, h]
  simp

/-- Where a list of distinct variables is cut at one of them. -/
theorem dropWhile_append_cons {key : VariableKey} {before after : List VariableKey}
    (hkey : key ∉ before) : (before ++ key :: after).dropWhile (· != key) = key :: after := by
  rw [List.dropWhile_append, dropWhile_of_not_mem hkey]
  simp

theorem recursionChain_append_cons {key : VariableKey} {before after : List VariableKey}
    (hkey : key ∉ after) :
    recursionChain (before ++ key :: after).reverse key =
      (key :: after).map (·.1) ++ [key.1] := by
  have htake : ((after.reverse ++ [key]) ++ before.reverse).takeWhile (· != key) =
      after.reverse := by
    rw [List.append_assoc, List.takeWhile_append_of_pos]
    · simp
    · intro other hother
      rw [bne_iff_ne]
      rintro rfl
      exact hkey (List.mem_reverse.mp hother)
  rw [recursionChain, List.reverse_append, List.reverse_cons, htake, List.reverse_reverse]
  rfl

/-- A variable that is on the list ends the reading with the names from it on. -/
theorem returns_visit_of_mem {key : VariableKey} {read : Tracked β} {reading : List VariableKey}
    (hdistinct : reading.Nodup) (hkey : key ∈ reading) :
    (visit key read).Returns reading
      (.error (.recursion (recursionChain reading.reverse key))) := by
  obtain ⟨before, after, rfl⟩ := List.append_of_mem hkey
  rw [List.nodup_append, List.nodup_cons] at hdistinct
  obtain ⟨-, ⟨hafter, -⟩, hapart⟩ := hdistinct
  have hbefore : key ∉ before := fun hmem => hapart key hmem key List.mem_cons_self rfl
  unfold Returns visit
  rw [dropWhile_append_cons hbefore, recursionChain_append_cons hafter]

end Tracked

/-! ### Levels -/

variable {α : Type}

theorem resolveIn_suffix {name : String} {frames owner : List (Frame α)} {b : Binding α}
    (h : resolveIn name frames = some (b, owner)) : owner <:+ frames := by
  induction frames with
  | nil => cases h
  | cons frame outer ih =>
      rw [resolveIn] at h
      split at h
      · cases h
        exact List.suffix_rfl
      · exact (ih h).trans (List.suffix_cons frame outer)

/-- The level that binds a name gives it the same meaning. -/
theorem resolveIn_owner {name : String} {frames owner : List (Frame α)} {b : Binding α}
    (h : resolveIn name frames = some (b, owner)) : resolveIn name owner = some (b, owner) := by
  induction frames with
  | nil => cases h
  | cons frame outer ih =>
      rw [resolveIn] at h
      split at h
      · rename_i found hfound
        cases h
        rw [resolveIn, hfound]
      · exact ih h

theorem exists_mem_of_resolveIn {name : String} {frames owner : List (Frame α)} {b : Binding α}
    (h : resolveIn name frames = some (b, owner)) :
    ∃ frame outer, owner = frame :: outer ∧ (name, b) ∈ frame.bindings := by
  induction frames with
  | nil => cases h
  | cons frame outer ih =>
      rw [resolveIn] at h
      split at h
      · rename_i found hfound
        cases h
        obtain ⟨⟨name', b'⟩, hfind, rfl⟩ := Option.map_eq_some_iff.mp hfound
        have hname : name' = name := by simpa using List.find?_some hfind
        subst hname
        exact ⟨frame, outer, rfl, List.mem_of_find?_eq_some hfind⟩
      · exact ih h

theorem formulaKeys_subset {inner frames : List (Frame α)} (h : inner <:+ frames) :
    formulaKeys inner ⊆ formulaKeys frames := by
  induction frames with
  | nil =>
      rw [List.suffix_nil] at h
      rw [h]
      exact List.Subset.refl _
  | cons frame outer ih =>
      rcases List.suffix_cons_iff.mp h with rfl | h
      · exact List.Subset.refl _
      · exact List.Subset.trans (ih h) (List.subset_append_right _ _)

/-- A name that stands for a formula is one of the variables of the levels around it. -/
theorem mem_formulaKeys {name : String} {frames owner : List (Frame α)} {b : Binding α}
    (h : resolveIn name frames = some (b, owner)) (hb : b.formula?.isSome) :
    (name, owner.length) ∈ formulaKeys frames := by
  apply formulaKeys_subset (resolveIn_suffix h)
  obtain ⟨frame, outer, rfl, hmem⟩ := exists_mem_of_resolveIn h
  rw [formulaKeys, List.mem_append, List.mem_map]
  exact .inl ⟨(name, b), List.mem_filter.mpr ⟨hmem, hb⟩, rfl⟩

/-! ### Formulas -/

variable [Number α]

namespace Ast

mutual

/-- The value of a formula whose names are read one after another with the list. -/
def track (read : String → Tracked (Value α)) (function? : String → Option (HostFunction α)) :
    Ast α → Tracked (Value α)
  | literal value _ => .ofExcept (.ok value)
  | name n _ => read n
  | list items _ => do
      let values ← trackAll read function? items
      .ofExcept (.ok (.list values))
  | unary op operand _ => do
      let v ← operand.track read function?
      .ofExcept (op.apply v)
  | binary op left right _ => do
      let v ← left.track read function?
      match op.shortcut? v with
      | some w => .ofExcept (.ok w)
      | none => do
          let w ← right.track read function?
          .ofExcept (op.apply v w)
  | conditional condition then_ else_ _ => do
      let v ← condition.track read function?
      let taken ← Tracked.ofExcept v.asCondition
      if taken then then_.track read function? else else_.track read function?
  | call function arguments _ =>
      match function? function with
      | some host =>
          if arguments.length = host.parameters.length then do
            let values ← trackAll read function? arguments
            .ofExcept (host.call values)
          else
            .ofExcept
              (.error (.arity function (.exactly host.parameters.length) arguments.length))
      | none =>
          match Builtin.ofName? function with
          | none => .ofExcept (.error (.undefinedName function))
          | some .choose => trackChoice read function? arguments
          | some b => do
              let values ← trackAll read function? arguments
              .ofExcept (b.call values)
  | member object m _ => do
      let v ← object.track read function?
      .ofExcept (v.member m)
  | index object i _ => do
      let v ← object.track read function?
      let w ← i.track read function?
      .ofExcept (v.item w)
  | interpolation parts _ => do
      let text ← trackText read function? parts
      .ofExcept (.ok (.string text))

/-- The values of several formulas, one after another. -/
def trackAll (read : String → Tracked (Value α)) (function? : String → Option (HostFunction α)) :
    List (Ast α) → Tracked (List (Value α))
  | [] => .ofExcept (.ok [])
  | ast :: rest => do
      let v ← ast.track read function?
      let values ← trackAll read function? rest
      .ofExcept (.ok (v :: values))

/-- The value that `if` takes. -/
def trackChoice (read : String → Tracked (Value α))
    (function? : String → Option (HostFunction α)) : List (Ast α) → Tracked (Value α)
  | [condition, then_, else_] => do
      let v ← condition.track read function?
      let taken ← Tracked.ofExcept v.asCondition
      if taken then then_.track read function? else else_.track read function?
  | arguments => do
      let values ← trackAll read function? arguments
      .ofExcept (Builtin.choose.call values)

/-- The texts of the values of several formulas, one after another. -/
def trackText (read : String → Tracked (Value α)) (function? : String → Option (HostFunction α)) :
    List (Ast α) → Tracked String
  | [] => .ofExcept (.ok "")
  | ast :: rest => do
      let v ← ast.track read function?
      let text ← trackText read function? rest
      .ofExcept (.ok (v.text ++ text))

end

open Tracked (returns_ofExcept)

variable {read : String → Tracked (Value α)} {env : Environment α} {reading : List VariableKey}

mutual

/-- If every name that is read leaves the list as it was, so does a formula. The induction is on
the formula: what is done with the values of its parts does not look at the list. -/
theorem returns_track (hread : ∀ n, (read n).Returns reading (env.read n)) :
    (ast : Ast α) → (ast.track read env.function?).Returns reading (ast.evaluateWith env)
  | literal value range => by
      rw [track, evaluateWith]
      exact returns_ofExcept _ _
  | name n range => by
      rw [track, evaluateWith]
      exact hread n
  | list items range => by
      rw [track, evaluateWith]
      exact (returns_trackAll hread items).bind fun values => returns_ofExcept _ _
  | unary op operand range => by
      rw [track, evaluateWith]
      exact (returns_track hread operand).bind fun v => returns_ofExcept _ _
  | binary op left right range => by
      rw [track, evaluateWith]
      refine (returns_track hread left).bind fun v => ?_
      cases op.shortcut? v with
      | some w => exact returns_ofExcept _ _
      | none => exact (returns_track hread right).bind fun w => returns_ofExcept _ _
  | conditional condition then_ else_ range => by
      rw [track, evaluateWith]
      refine (returns_track hread condition).bind fun v => ?_
      refine (returns_ofExcept v.asCondition reading).bind fun taken => ?_
      cases taken with
      | true => exact returns_track hread then_
      | false => exact returns_track hread else_
  | call function arguments range => by
      have hvalues := returns_trackAll hread arguments
      rw [track, evaluateWith]
      cases env.function? function with
      | some host =>
          by_cases hlength : arguments.length = host.parameters.length
          · simp only [hlength, if_true]
            exact hvalues.bind fun values => returns_ofExcept _ _
          · simp only [hlength, if_false]
            exact returns_ofExcept _ _
      | none =>
          cases Builtin.ofName? function with
          | none => exact returns_ofExcept _ _
          | some b =>
              cases b with
              | choose => exact returns_trackChoice hread arguments
              | _ => exact hvalues.bind fun values => returns_ofExcept _ _
  | member object m range => by
      rw [track, evaluateWith]
      exact (returns_track hread object).bind fun v => returns_ofExcept _ _
  | index object i range => by
      rw [track, evaluateWith]
      refine (returns_track hread object).bind fun v => ?_
      exact (returns_track hread i).bind fun w => returns_ofExcept _ _
  | interpolation parts range => by
      rw [track, evaluateWith]
      exact (returns_trackText hread parts).bind fun text => returns_ofExcept _ _

theorem returns_trackAll (hread : ∀ n, (read n).Returns reading (env.read n)) :
    (asts : List (Ast α)) →
      (trackAll read env.function? asts).Returns reading (evaluateAll env asts)
  | [] => by
      rw [trackAll, evaluateAll]
      exact returns_ofExcept _ _
  | ast :: rest => by
      rw [trackAll, evaluateAll]
      refine (returns_track hread ast).bind fun v => ?_
      exact (returns_trackAll hread rest).bind fun values => returns_ofExcept _ _

theorem returns_trackChoice (hread : ∀ n, (read n).Returns reading (env.read n))
    (arguments : List (Ast α)) :
    (trackChoice read env.function? arguments).Returns reading (evaluateChoice env arguments) := by
  by_cases hthree : ∃ condition then_ else_, arguments = [condition, then_, else_]
  · obtain ⟨condition, then_, else_, rfl⟩ := hthree
    rw [trackChoice, evaluateChoice]
    refine (returns_track hread condition).bind fun v => ?_
    refine (returns_ofExcept v.asCondition reading).bind fun taken => ?_
    cases taken with
    | true => exact returns_track hread then_
    | false => exact returns_track hread else_
  · have hother : ∀ condition then_ else_, arguments = [condition, then_, else_] → False :=
      fun condition then_ else_ h => hthree ⟨condition, then_, else_, h⟩
    rw [trackChoice.eq_2 _ _ _ hother, evaluateChoice.eq_2 _ _ hother]
    exact (returns_trackAll hread arguments).bind fun values => returns_ofExcept _ _

theorem returns_trackText (hread : ∀ n, (read n).Returns reading (env.read n)) :
    (asts : List (Ast α)) →
      (trackText read env.function? asts).Returns reading (evaluateText env asts)
  | [] => by
      rw [trackText, evaluateText]
      exact returns_ofExcept _ _
  | ast :: rest => by
      rw [trackText, evaluateText]
      refine (returns_track hread ast).bind fun v => ?_
      exact (returns_trackText hread rest).bind fun text => returns_ofExcept _ _

end

end Ast

/-! ### Names -/

/-- The value of a name, its formula read with the list. Names may be read one within another to a
depth. -/
def trackName : Nat → List (Frame α) → String → Tracked (Value α)
  | 0, _, _ => .tooDeep
  | depth + 1, frames, name =>
      match resolveIn name frames with
      | none =>
          match Builtin.constant? name with
          | some v => .ofExcept (.ok v)
          | none => .ofExcept (.error (.undefinedName name))
      | some (b, owner) =>
          match b.content with
          | .bound (.constant v) => .ofExcept (.ok v)
          | .bound (.formula f) =>
              .visit (name, owner.length)
                (f.ast.track (trackName depth owner) fun n => functionIn n owner)
          | _ => .ofExcept (.error (b.missing name))

/-- The list has no variable twice, and the variables of some levels that are not on it are the
unread ones. -/
structure Splits (frames : List (Frame α)) (reading unread : List VariableKey) : Prop where
  distinct : reading.Nodup
  unread_iff : ∀ key ∈ formulaKeys frames, key ∈ unread ↔ key ∉ reading

omit [Number α] in
theorem Splits.visit {frames owner : List (Frame α)} {reading unread : List VariableKey}
    {key : VariableKey} (h : Splits frames reading unread) (howner : owner <:+ frames)
    (hkey : key ∉ reading) : Splits owner (reading ++ [key]) (dropKey key unread) where
  distinct := by
    rw [List.nodup_append]
    refine ⟨h.distinct, by simp, ?_⟩
    rintro other hother k hk rfl
    rw [List.mem_singleton] at hk
    exact hkey (hk ▸ hother)
  unread_iff k hk := by
    have hk := h.unread_iff k (formulaKeys_subset howner hk)
    simp [dropKey, hk]

/-- Reading a name ends and leaves the list as it was. The induction is on the depth: where a
variable is put on the list, one variable less is unread. -/
theorem returns_trackName {depth : Nat} {frames : List (Frame α)}
    {reading unread : List VariableKey} (h : Splits frames reading unread)
    (hdepth : unread.length < depth) (name : String) :
    (trackName depth frames name).Returns reading
      (readName frames reading.reverse unread name) := by
  induction depth generalizing frames reading unread name with
  | zero => exact absurd hdepth (Nat.not_lt_zero _)
  | succ depth ih =>
      rw [trackName, readName]
      cases hresolve : resolveIn name frames with
      | none =>
          cases (Builtin.constant? name : Option (Value α)) <;>
            exact Tracked.returns_ofExcept _ _
      | some found =>
          obtain ⟨b, owner⟩ := found
          simp only
          cases hcontent : b.content with
          | declared => exact Tracked.returns_ofExcept _ _
          | failed error => exact Tracked.returns_ofExcept _ _
          | bound value =>
              cases value with
              | constant v => exact Tracked.returns_ofExcept _ _
              | formula f =>
                  simp only
                  let key : VariableKey := (name, owner.length)
                  have hkey := h.unread_iff key
                    (mem_formulaKeys hresolve (by simp [Binding.formula?, hcontent]))
                  by_cases hmem : key ∈ unread
                  · have hnew : key ∉ reading := hkey.mp hmem
                    have hdepth' : (dropKey key unread).length < depth :=
                      Nat.lt_of_lt_of_le (length_dropKey_lt hmem) (Nat.le_of_lt_succ hdepth)
                    have hread := ih (h.visit (resolveIn_suffix hresolve) hnew) hdepth'
                    rw [List.reverse_append] at hread
                    rw [if_pos hmem]
                    apply Tracked.Returns.visit hnew
                    let env : Environment α :=
                      ⟨readName owner (key :: reading.reverse) (dropKey key unread),
                        fun n => functionIn n owner⟩
                    have hread : ∀ n, (trackName depth owner n).Returns (reading ++ [key])
                        (env.read n) := hread
                    exact Ast.returns_track hread f.ast
                  · have hold : key ∈ reading := not_not.mp (mt hkey.mpr hmem)
                    rw [if_neg hmem]
                    exact Tracked.returns_visit_of_mem h.distinct hold

/-- The value of a formula in a scope, read with the list of the variables being read. -/
def Ast.evaluateTracked (s : Scope α) (depth : Nat) (ast : Ast α) : Tracked (Value α) :=
  ast.track (trackName depth s.frames) s.function?

/-- With a depth above the number of variables, the reading of a formula in a scope ends and leaves
the list as it was; with no variable on it, it gives the value of the formula. -/
theorem Ast.returns_evaluateTracked (s : Scope α) (ast : Ast α) {reading : List VariableKey}
    (hdistinct : reading.Nodup) {depth : Nat} (hdepth : (formulaKeys s.frames).length < depth) :
    ∃ result, (ast.evaluateTracked s depth).Returns reading result ∧
      (reading = [] → result = ast.evaluate s) := by
  let unread := (formulaKeys s.frames).filter (· ∉ reading)
  have hsplits : Splits s.frames reading unread :=
    ⟨hdistinct, fun key hkey => by simp [unread, hkey]⟩
  have hlength : unread.length < depth := Nat.lt_of_le_of_lt (List.length_filter_le _ _) hdepth
  let env : Environment α := ⟨readName s.frames reading.reverse unread, s.function?⟩
  have hread : ∀ n, (trackName depth s.frames n).Returns reading (env.read n) :=
    returns_trackName hsplits hlength
  refine ⟨ast.evaluateWith env, returns_track hread ast, ?_⟩
  rintro rfl
  have hall : unread = formulaKeys s.frames := by simp [unread]
  rw [evaluate]
  simp only [env, hall]
  rfl

end PatternMarkup
