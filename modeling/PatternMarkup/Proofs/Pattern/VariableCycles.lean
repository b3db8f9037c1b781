import PatternMarkup.Pattern.Bind.Variable
import PatternMarkup.Proofs.Formula.Recursion
import PatternMarkup.Proofs.Pattern.FinishOrder
import PatternMarkup.Proofs.Pattern.ReadingSteps
/-!
The variables of a figure never need themselves. Reading them reports cycles and cuts the variables
on them; whatever cycles stay unreported, no evaluation of a variable ends with an error of
recursion, if none does in the scope around the figure.
-/

namespace PatternMarkup

variable {α : Type}

/-! ### Levels -/

theorem Frame.binding?_bind (frame : Frame α) (name : String) (b : Binding α) (n : String) :
    (frame.bind name b).binding? n = if name = n then some b else frame.binding? n := by
  unfold bind binding?
  by_cases hname : name = n
  · rw [if_pos hname, List.find?_cons_of_pos (by simpa using hname)]
    rfl
  · rw [if_neg hname, List.find?_cons_of_neg (by simpa using hname), List.find?_filter]
    congr 2
    funext found
    by_cases hfound : found.1 = n
    · simp [hfound, Ne.symm hname]
    · simp [hfound]

/-- The level of some variables. -/
def variableFrame (vars : List (Variable α)) : Frame α :=
  vars.foldl (fun frame v => frame.bind v.name v.binding) {}

theorem binding?_foldl_bind_of_notMem {vars : List (Variable α)} {n : String}
    (hn : ∀ v ∈ vars, v.name ≠ n) (frame : Frame α) :
    (vars.foldl (fun frame v => frame.bind v.name v.binding) frame).binding? n =
      frame.binding? n := by
  induction vars generalizing frame with
  | nil => rfl
  | cons v vars ih =>
      rw [List.foldl_cons, ih fun w hw => hn w (List.mem_cons_of_mem v hw), Frame.binding?_bind,
        if_neg (hn v List.mem_cons_self)]

theorem binding?_variableFrame_of_notMem {vars : List (Variable α)} {n : String}
    (hn : ∀ v ∈ vars, v.name ≠ n) : (variableFrame vars).binding? n = none :=
  binding?_foldl_bind_of_notMem hn {}

/-- A variable stands for its value, if no other one has its name. -/
theorem binding?_variableFrame {vars : List (Variable α)}
    (hnames : (vars.map (·.name)).Nodup) {v : Variable α} (hv : v ∈ vars) :
    (variableFrame vars).binding? v.name = some v.binding := by
  obtain ⟨before, after, rfl⟩ := List.append_of_mem hv
  rw [List.map_append, List.map_cons, List.nodup_append, List.nodup_cons] at hnames
  have hafter : ∀ w ∈ after, w.name ≠ v.name := fun w hw hname =>
    hnames.2.1.1 (List.mem_map.mpr ⟨w, hw, hname⟩)
  rw [variableFrame, List.foldl_append, List.foldl_cons, binding?_foldl_bind_of_notMem hafter,
    Frame.binding?_bind, if_pos rfl]

theorem functions_variableFrame (vars : List (Variable α)) :
    (variableFrame vars).functions = [] := by
  have hfold : ∀ frame : Frame α,
      (vars.foldl (fun frame v => frame.bind v.name v.binding) frame).functions
        = frame.functions := by
    induction vars with
    | nil => exact fun _ => rfl
    | cons v vars ih => exact fun frame => ih (frame.bind v.name v.binding)
  exact hfold {}

theorem variableScope_of_mem {vars : List (Variable α)} {v : Variable α} (hv : v ∈ vars)
    (outer : Scope α) : variableScope outer vars = ⟨variableFrame vars :: outer.frames⟩ := by
  have hfold : ∀ frame : Frame α,
      vars.foldl (fun s v => s.bind v.name v.binding) (⟨frame :: outer.frames⟩ : Scope α) =
        ⟨vars.foldl (fun frame v => frame.bind v.name v.binding) frame :: outer.frames⟩ := by
    clear hv
    induction vars with
    | nil => exact fun _ => rfl
    | cons v vars ih => exact fun frame => ih (frame.bind v.name v.binding)
  rw [variableScope, if_neg (by simpa using List.ne_nil_of_mem hv)]
  exact hfold {}

/-- What splits the variables of some levels splits those of the levels around them. -/
theorem Splits.of_suffix {frames outer : List (Frame α)} {reading unread : List VariableKey}
    (h : Splits frames reading unread) (houter : outer <:+ frames) :
    Splits outer reading unread :=
  ⟨h.distinct, fun key hkey => h.unread_iff key (formulaKeys_subset houter hkey)⟩

variable [Number α]

/-- Names are read alike where they are resolved alike. -/
theorem readName_congr {frames frames' : List (Frame α)} {n : String}
    (h : resolveIn n frames = resolveIn n frames') (reading unread : List VariableKey) :
    readName frames reading unread n = readName frames' reading unread n := by
  rw [readName, readName, h]

/-- Variables of levels further in that are being read change nothing for a name of the levels
around them. -/
theorem readName_of_splits {frames : List (Frame α)}
    {inner reading unread unread' : List VariableKey}
    (h : Splits frames (inner ++ reading) unread) (h' : Splits frames reading unread')
    (hinner : ∀ key ∈ inner, frames.length < key.2) (n : String) :
    readName frames (inner ++ reading).reverse unread n =
      readName frames reading.reverse unread' n := by
  induction hlength : unread.length using Nat.strong_induction_on
    generalizing frames reading unread unread' n with
  | _ length ih =>
  rw [readName, readName]
  cases hresolve : resolveIn n frames with
  | none => rfl
  | some found =>
      obtain ⟨b, owner⟩ := found
      simp only
      cases hcontent : b.content with
      | declared => rfl
      | failed error => rfl
      | bound value =>
          cases value with
          | constant v => rfl
          | formula f =>
              simp only
              let key : VariableKey := (n, owner.length)
              have hsuffix := resolveIn_suffix hresolve
              have hmem : key ∈ formulaKeys frames :=
                mem_formulaKeys hresolve (by simp [Binding.formula?, hcontent])
              have hkeyInner : key ∉ inner := fun hkey =>
                Nat.not_lt_of_le hsuffix.length_le (hinner key hkey)
              have hboth : key ∈ inner ++ reading ↔ key ∈ reading := by
                rw [List.mem_append, or_iff_right hkeyInner]
              have hunread : key ∈ unread ↔ key ∈ unread' := by
                rw [h.unread_iff key hmem, h'.unread_iff key hmem, hboth]
              by_cases hnew : key ∈ unread'
              · have hfresh : key ∉ reading := (h'.unread_iff key hmem).mp hnew
                rw [if_pos (hunread.mpr hnew), if_pos hnew]
                have hvisit := h.visit hsuffix (mt hboth.mp hfresh)
                rw [List.append_assoc] at hvisit
                have hread : ∀ m,
                    readName owner (key :: (inner ++ reading).reverse) (dropKey key unread) m =
                      readName owner (key :: reading.reverse) (dropKey key unread') m := by
                  intro m
                  have hstep := ih _ (hlength ▸ length_dropKey_lt (hunread.mpr hnew)) hvisit
                    (h'.visit hsuffix hfresh)
                    (fun k hk => Nat.lt_of_le_of_lt hsuffix.length_le (hinner k hk)) m rfl
                  rwa [← List.append_assoc, List.reverse_concat, List.reverse_concat] at hstep
                exact congrArg (fun read => f.ast.evaluateWith ⟨read, fun m => functionIn m owner⟩)
                  (funext hread)
              · have hold : key ∈ reading := not_not.mp (mt (h'.unread_iff key hmem).mpr hnew)
                rw [if_neg (mt hunread.mp hnew), if_neg hnew]
                obtain ⟨before, after, rfl⟩ := List.append_of_mem hold
                have hafter : key ∉ after := by
                  have hdistinct := h'.distinct
                  rw [List.nodup_append, List.nodup_cons] at hdistinct
                  exact hdistinct.2.1.1
                rw [← List.append_assoc, Tracked.recursionChain_append_cons hafter,
                  Tracked.recursionChain_append_cons hafter]

/-! ### Evaluation -/

/-- No name and no function of a scope makes an error of recursion. -/
structure Scope.NeverRecurs (s : Scope α) : Prop where
  name_ne : ∀ n range chain, (Ast.name n range).evaluate s ≠ .error (.recursion chain)
  call_ne : ∀ n host, s.function? n = some host → ∀ values chain,
    host.call values ≠ .error (.recursion chain)

theorem evaluate_name (s : Scope α) (n : String) (range : ByteRange) :
    (Ast.name n range).evaluate s = readName s.frames [] (formulaKeys s.frames) n := by
  rw [Ast.evaluate, Ast.evaluateWith]
  rfl

/-- The values of variables need only variables of a lower rank. -/
def Ranked (vars : List (Variable α)) (rank : String → Nat) : Prop :=
  ∀ v ∈ vars, ∀ f, v.value = some (.formula f) → ∀ n ∈ f.ast.freeNames, ∀ w ∈ vars, w.name = n →
    rank n < rank v.name

/-- Reading a variable makes no error of recursion while only variables of a higher rank are being
read. The induction is on the rank. -/
theorem onRecursion_readName_variable {s : Scope α} (hs : s.NeverRecurs) {vars : List (Variable α)}
    (hnames : (vars.map (·.name)).Nodup) {rank : String → Nat} (hranked : Ranked vars rank)
    {reading unread : List VariableKey}
    (hsplits : Splits (variableFrame vars :: s.frames) reading unread)
    {v : Variable α} (hv : v ∈ vars)
    (hreading : ∀ key ∈ reading, key.2 = s.frames.length + 1 ∧ rank v.name < rank key.1) :
    OnRecursion (fun _ => False)
      (readName (variableFrame vars :: s.frames) reading.reverse unread v.name) := by
  induction hrank : rank v.name using Nat.strong_induction_on generalizing v reading unread with
  | _ r ih =>
  have hresolve : resolveIn v.name (variableFrame vars :: s.frames) =
      some (v.binding, variableFrame vars :: s.frames) := by
    rw [resolveIn, binding?_variableFrame hnames hv]
  cases hvalue : v.value with
  | none =>
      have hcontent : v.binding.content = .declared := by
        rw [Variable.binding, hvalue, Binding.declared]
      rw [readName, hresolve]
      simp [hcontent, Binding.missing, Binding.failure?]
  | some value =>
      cases value with
      | constant c =>
          have hcontent : v.binding.content = .bound (.constant c) := by
            rw [Variable.binding, hvalue]
          rw [readName, hresolve]
          simp [hcontent]
      | formula f =>
          have hcontent : v.binding.content = .bound (.formula f) := by
            rw [Variable.binding, hvalue]
          let d : Definition α := ⟨v.name, _, v.binding, f, hresolve, hcontent⟩
          have hmem : d.key ∈ formulaKeys (variableFrame vars :: s.frames) :=
            mem_formulaKeys hresolve (by simp [Binding.formula?, hcontent])
          have hfresh : d.key ∉ reading := fun hkey => Nat.lt_irrefl _ (hreading d.key hkey).2
          have hvisit := hsplits.visit List.suffix_rfl hfresh
          have hhigher : ∀ key ∈ reading ++ [d.key],
              key.2 = s.frames.length + 1 ∧ rank v.name ≤ rank key.1 := by
            intro key hkey
            rcases List.mem_append.mp hkey with hkey | hkey
            · exact ⟨(hreading key hkey).1, Nat.le_of_lt (hreading key hkey).2⟩
            · rw [List.mem_singleton.mp hkey]
              exact ⟨rfl, Nat.le_refl _⟩
          rw [readName_of_resolved (d := d) hresolve,
            if_pos ((hsplits.unread_iff d.key hmem).mpr hfresh)]
          refine Ast.onRecursion_evaluateWith (fun n host hhost values chain => ?_) f.ast
            fun n hn => ?_
          · simp only [d, functionIn, Frame.function?, functions_variableFrame, List.find?_nil,
              Option.none_or] at hhost
            exact hs.call_ne n host hhost values chain
          · show OnRecursion _
              (readName d.owner (d.key :: reading.reverse) (dropKey d.key unread) n)
            rw [← List.reverse_concat]
            by_cases hvar : ∃ w ∈ vars, w.name = n
            · obtain ⟨w, hw, rfl⟩ := hvar
              have hlt := hranked v hv f hvalue w.name hn w hw rfl
              exact ih _ (hrank ▸ hlt) hvisit hw (fun key hkey =>
                ⟨(hhigher key hkey).1, Nat.lt_of_lt_of_le hlt (hhigher key hkey).2⟩) rfl
            · -- A name that is no variable is read as in the scope around the figure.
              have hnone := binding?_variableFrame_of_notMem (n := n) fun w hw hname =>
                hvar ⟨w, hw, hname⟩
              have hother : resolveIn n d.owner = resolveIn n s.frames := by
                simp only [d, resolveIn, hnone]
              have houter :
                  Splits s.frames ((reading ++ [d.key]) ++ []) (dropKey d.key unread) := by
                rw [List.append_nil]
                exact hvisit.of_suffix (List.suffix_cons _ _)
              have hall : Splits s.frames [] (formulaKeys s.frames) := ⟨List.nodup_nil, by simp⟩
              have hread := readName_of_splits houter hall (fun key hkey => by
                rw [(hhigher key hkey).1]
                exact Nat.lt_succ_self _) n
              rw [List.append_nil] at hread
              rw [readName_congr hother, hread, List.reverse_nil, ← evaluate_name s n ⟨0, 0⟩]
              exact hs.name_ne n ⟨0, 0⟩

/-- Evaluating a variable makes no error of recursion if the values need only variables of a lower
rank. -/
theorem evaluate_variable_ne {s : Scope α} (hs : s.NeverRecurs) {vars : List (Variable α)}
    (hnames : (vars.map (·.name)).Nodup) {rank : String → Nat} (hranked : Ranked vars rank)
    {v : Variable α} (hv : v ∈ vars) (range : ByteRange) (chain : List String) :
    (Ast.name v.name range).evaluate (variableScope s vars) ≠ .error (.recursion chain) := by
  have hsplits : Splits (variableFrame vars :: s.frames) []
      (formulaKeys (variableFrame vars :: s.frames)) := ⟨List.nodup_nil, by simp⟩
  rw [variableScope_of_mem hv, evaluate_name]
  exact onRecursion_readName_variable hs hnames hranked hsplits hv nofun chain

/-! ### Cutting cycles -/

theorem idxOf_of_getElem? {names : List String} (hnames : names.Nodup) {i : Nat} {n : String}
    (h : names[i]? = some n) : names.idxOf n = i := by
  obtain ⟨hi, rfl⟩ := List.getElem?_eq_some_iff.mp h
  exact hnames.idxOf_getElem i hi

omit [Number α] in
/-- A value depends on every variable that it names. -/
theorem idxOf_mem_dependencies {names : List String}
    {values : List (Option (Expression α (Value α)))} {i : Nat} {e : Expression α (Value α)}
    (hvalue : values[i]? = some (some e)) {n : String} (hn : n ∈ e.freeNames) (hname : n ∈ names) :
    names.idxOf n ∈ (dependencies names values).getD i [] := by
  have hfound : names.findIdx? (· == n) = some (names.idxOf n) :=
    List.findIdx?_eq_some_iff_findIdx_eq.mpr ⟨List.idxOf_lt_length_of_mem hname, rfl⟩
  rw [dependencies, List.getD_eq_getElem?_getD, List.getElem?_map, hvalue]
  exact List.mem_filterMap.mpr ⟨n, hn, hfound⟩

omit [Number α] in
/-- The variables that are left of some values when those on the reported cycles are cut. -/
theorem ranked_of_cut {names : List String} (hnames : names.Nodup)
    (values : List (Option (Expression α (Value α)))) {vars : List (Variable α)}
    (hvars : ∀ v ∈ vars, ∃ i, names[i]? = some v.name ∧ i < values.length ∧ ∀ e, v.value = some e →
      values[i]? = some (some e) ∧ ∀ cycle ∈ cyclesOf (dependencies names values), i ∉ cycle) :
    ∃ rank, Ranked vars rank := by
  obtain ⟨rank, hrank⟩ := exists_rank_of_cyclesOf (dependencies names values)
  refine ⟨fun n => rank (names.idxOf n), fun v hv f hvalue n hn w hw hname => ?_⟩
  obtain ⟨i, hi, hvalues, hkept⟩ := hvars v hv
  obtain ⟨j, hj, hlt, -⟩ := hvars w hw
  obtain ⟨hat, hcycles⟩ := hkept (.formula f) hvalue
  have hlength : (dependencies names values).length = values.length := List.length_map _
  rw [hname] at hj
  have hedge := idxOf_mem_dependencies hat hn (List.mem_of_getElem? hj)
  rw [idxOf_of_getElem? hnames hj] at hedge
  simp only [idxOf_of_getElem? hnames hi, idxOf_of_getElem? hnames hj]
  exact hrank i (hlength ▸ hvalues) hcycles j hedge (hlength ▸ hlt)

/-! ### Variables of a figure -/

open Binder

/-- A new variable has a name that no earlier one has. -/
theorem gives_declaredVariable? (before : List DeclaredVariable) (tree : Tree) (e : Element) :
    Gives (declaredVariable? before tree e) fun found =>
      ∀ d ∈ found, d.name ∉ before.map (·.name) := by
  unfold declaredVariable?
  refine .of_next fun _ => .of_next fun a => ?_
  cases a with
  | none => exact .pure nofun
  | some a =>
      refine .of_next fun accepted => ?_
      split
      · exact .pure nofun
      · split
        · exact .of_next fun _ => .pure nofun
        · rename_i hfresh
          refine .of_next fun type => .of_next fun value => .pure fun d hd => ?_
          obtain ⟨v, -, rfl⟩ := Option.map_eq_some_iff.mp hd
          simpa using hfresh

theorem gives_declaredVariables {before : List DeclaredVariable}
    (hbefore : (before.map (·.name)).Nodup) (elements : List (Tree × Element × Tag)) :
    Gives (declaredVariables before elements) fun declared => (declared.map (·.name)).Nodup := by
  induction elements generalizing before with
  | nil => exact .pure hbefore
  | cons found elements ih =>
      obtain ⟨tree, e, tag⟩ := found
      have hnext : ∀ found : Option DeclaredVariable, (∀ d ∈ found, d.name ∉ before.map (·.name)) →
          Gives (declaredVariables (before ++ found.toList) elements) fun declared =>
            (declared.map (·.name)).Nodup := by
        intro found hfound
        refine ih ?_
        cases found with
        | none => simpa using hbefore
        | some d =>
            rw [Option.toList_some, List.map_append, List.nodup_append]
            refine ⟨hbefore, by simp, ?_⟩
            rintro name hname _ hlast rfl
            obtain rfl : name = d.name := by simpa using hlast
            exact hfound d rfl hname
      rw [declaredVariables]
      split
      · exact (gives_declaredVariable? before tree e).bind hnext
      · exact hnext none nofun

/-- Among the variables of a figure, each has its own name, and those that have a value need only
variables of a lower rank. -/
theorem gives_figureVariables (children : List Tree) (s : Scope α) :
    Gives (figureVariables children s) fun result =>
      result.2 = variableScope s result.1 ∧ (result.1.map (·.name)).Nodup ∧
        ∃ rank, Ranked result.1 rank := by
  have hempty : (([] : List DeclaredVariable).map (·.name)).Nodup := List.nodup_nil
  unfold figureVariables
  refine (gives_declaredVariables hempty _).bind fun declared hnames =>
    .of_next fun values => .of_next fun _ => .pure ⟨rfl, ?_, ?_⟩
  · generalize (values.mapIdx _) = cut
    have hzip : (declared.zip cut).map Prod.fst =
        declared.take (min declared.length cut.length) := by
      rw [List.zip_eq_zip_take_min, List.map_fst_zip (by simp)]
    have hsub := (List.take_sublist (min declared.length cut.length) declared).map (·.name)
    rw [← hzip, List.map_map] at hsub
    rw [List.map_map]
    exact hsub.nodup hnames
  · refine ranked_of_cut hnames values fun v hv => ?_
    obtain ⟨⟨d, value⟩, hpair, rfl⟩ := List.mem_map.mp hv
    obtain ⟨i, hi⟩ := List.mem_iff_getElem?.mp hpair
    obtain ⟨hd, hvalue⟩ := List.getElem?_zip_eq_some.mp hi
    rw [List.getElem?_mapIdx] at hvalue
    obtain ⟨written, hwritten, rfl⟩ := Option.map_eq_some_iff.mp hvalue
    refine ⟨i, by rw [List.getElem?_map, hd]; rfl, (List.getElem?_eq_some_iff.mp hwritten).1,
      fun e he => ?_⟩
    simp only at he
    split at he
    · cases he
    · rename_i hcut
      rw [he] at hwritten
      refine ⟨hwritten, fun cycle hcycle hin => hcut ?_⟩
      exact List.any_eq_true.mpr ⟨cycle, hcycle, by simpa using hin⟩

/-- Evaluating a variable of a figure never ends with an error of recursion, whatever cycles its
variables form, if no name and no function of the scope around the figure makes such an error. -/
theorem figureVariables_never_recur (children : List Tree) {s : Scope α} (hs : s.NeverRecurs)
    (r : DocumentReading) :
    ∀ v ∈ (figureVariables children s r).1.1, ∀ range chain,
      (Ast.name v.name range).evaluate (figureVariables children s r).1.2
        ≠ .error (.recursion chain) := by
  obtain ⟨hscope, hnames, rank, hranked⟩ := gives_figureVariables children s r
  generalize figureVariables children s r = result at *
  intro v hv range chain
  rw [hscope]
  exact evaluate_variable_ne hs hnames hranked hv range chain

/-- The element of a variable. -/
def variableTree (name value : String) : Tree :=
  .node 0 ⟨.element ⟨"var", .origin,
    [⟨"name", name, .origin, .origin, 0, 0, true⟩, ⟨"value", value, .origin, .origin, 0, 1, true⟩],
    [], none, true⟩, .origin, none, none⟩ []

/-- Variables each of which needs itself through the others. -/
def knot : List Tree :=
  [variableTree "a" "{b}", variableTree "b" "{c + d}", variableTree "c" "{a}",
    variableTree "d" "{c}"]

theorem neverRecurs_empty : (Scope.empty : Scope Float).NeverRecurs where
  name_ne n range chain h := by
    have hunresolved : resolveIn n (Scope.empty : Scope Float).frames = none := rfl
    rw [evaluate_name, readName, hunresolved] at h
    cases hconstant : (Builtin.constant? n : Option (Value Float)) <;> simp [hconstant] at h
  call_ne n host h := by cases h

theorem figureVariables_never_recur_knot :
    (Scope.empty : Scope Float).NeverRecurs ∧
      (figureVariables knot (Scope.empty : Scope Float) ⟨.empty, .empty, {}, {}, [], 0⟩).1.1.map
        (·.name) = ["a", "b", "c", "d"] ∧
      ∀ v ∈ (figureVariables knot (Scope.empty : Scope Float)
          ⟨.empty, .empty, {}, {}, [], 0⟩).1.1, ∀ range chain,
        (Ast.name v.name range).evaluate
            (figureVariables knot (Scope.empty : Scope Float)
              ⟨.empty, .empty, {}, {}, [], 0⟩).1.2
          ≠ .error (.recursion chain) :=
  ⟨neverRecurs_empty, by decide +kernel, figureVariables_never_recur knot neverRecurs_empty _⟩

end PatternMarkup
