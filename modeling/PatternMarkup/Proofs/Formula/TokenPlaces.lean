import PatternMarkup.Proofs.Formula.ScanCuts
/-!
Where the tokens of a formula stand. They follow each other without overlap, and the bytes that
some of them span are a text of their own, which has just these tokens.
-/

namespace PatternMarkup

/-! ### Runs of tokens -/

/-- No token is empty, and each ends before the next one starts. -/
structure InTurn (tokens : List PlacedToken) : Prop where
  nonempty : ∀ t ∈ tokens, t.range.start < t.range.stop
  apart : tokens.Pairwise fun t u => t.range.stop ≤ u.range.start

/-- The bytes from the start of the first token to the end of the last. -/
structure Spans (tokens : List PlacedToken) (range : ByteRange) : Prop where
  start : tokens.head?.map (·.range.start) = some range.start
  stop : tokens.getLast?.map (·.range.stop) = some range.stop

theorem InTurn.sublist {part tokens : List PlacedToken} (h : InTurn tokens)
    (hpart : part.Sublist tokens) : InTurn part :=
  ⟨fun t ht => h.nonempty t (hpart.subset ht), h.apart.sublist hpart⟩

theorem InTurn.tail {t : PlacedToken} {tokens : List PlacedToken} (h : InTurn (t :: tokens)) :
    InTurn tokens :=
  h.sublist (List.sublist_cons_self t tokens)

namespace Spans

variable {tokens front back : List PlacedToken} {range first last : ByteRange}

theorem singleton (t : PlacedToken) : Spans [t] t.range := ⟨rfl, rfl⟩

/-- From the first token of one run to the last of another, whatever stands between them. -/
theorem through (hfirst : Spans front first) (hlast : Spans back last)
    (between : List PlacedToken) : Spans (front ++ (between ++ back)) (first.through last) := by
  constructor
  · rw [List.head?_append]
    obtain ⟨t, ht, hstart⟩ := Option.map_eq_some_iff.mp hfirst.start
    rw [ht, Option.some_or, Option.map_some, hstart, ByteRange.through]
  · rw [List.getLast?_append, List.getLast?_append]
    obtain ⟨t, ht, hstop⟩ := Option.map_eq_some_iff.mp hlast.stop
    rw [ht, Option.some_or, Option.some_or, Option.map_some, hstop, ByteRange.through]

theorem exists_first (h : Spans tokens range) :
    ∃ t later, tokens = t :: later ∧ t.range.start = range.start := by
  obtain ⟨t, ht, hstart⟩ := Option.map_eq_some_iff.mp h.start
  obtain ⟨later, rfl⟩ := List.head?_eq_some_iff.mp ht
  exact ⟨t, later, rfl, hstart⟩

theorem exists_last (h : Spans tokens range) :
    ∃ earlier t, tokens = earlier ++ [t] ∧ t.range.stop = range.stop := by
  obtain ⟨t, ht, hstop⟩ := Option.map_eq_some_iff.mp h.stop
  obtain ⟨earlier, rfl⟩ := List.getLast?_eq_some_iff.mp ht
  exact ⟨earlier, t, rfl, hstop⟩

theorem ne_nil (h : Spans tokens range) : tokens ≠ [] := by
  obtain ⟨t, later, rfl, -⟩ := h.exists_first
  exact List.cons_ne_nil t later

/-- Every token of a run lies in the bytes it spans. -/
theorem start_le (h : Spans tokens range) (hturn : InTurn tokens) {t : PlacedToken}
    (ht : t ∈ tokens) : range.start ≤ t.range.start := by
  obtain ⟨first, later, rfl, hstart⟩ := h.exists_first
  rw [← hstart]
  rcases List.mem_cons.mp ht with rfl | hlater
  · exact Nat.le_refl _
  · have hfirst := hturn.nonempty first List.mem_cons_self
    have hnext := (List.pairwise_cons.mp hturn.apart).1 t hlater
    omega

theorem le_stop (h : Spans tokens range) (hturn : InTurn tokens) {t : PlacedToken}
    (ht : t ∈ tokens) : t.range.stop ≤ range.stop := by
  obtain ⟨earlier, last, rfl, hstop⟩ := h.exists_last
  rw [← hstop]
  rcases List.mem_append.mp ht with hearlier | hlast
  · have hlast := hturn.nonempty last (by simp)
    have hnext := (List.pairwise_append.mp hturn.apart).2.2 t hearlier last (by simp)
    omega
  · rw [List.mem_singleton.mp hlast]

theorem start_lt_stop (h : Spans tokens range) (hturn : InTurn tokens) :
    range.start < range.stop := by
  obtain ⟨t, ht⟩ := List.exists_mem_of_ne_nil tokens h.ne_nil
  have hstart := h.start_le hturn ht
  have hstop := h.le_stop hturn ht
  have hnonempty := hturn.nonempty t ht
  omega

/-- The bytes of a part lie in those of the whole. -/
theorem within (h : Spans tokens range) (hturn : InTurn tokens) {part : List PlacedToken}
    {inner : ByteRange} (hinner : Spans part inner) (hpart : part <:+: tokens) :
    range.start ≤ inner.start ∧ inner.stop ≤ range.stop := by
  obtain ⟨first, hfirst, hstart⟩ := Option.map_eq_some_iff.mp hinner.start
  obtain ⟨last, hlast, hstop⟩ := Option.map_eq_some_iff.mp hinner.stop
  have hle := h.start_le hturn (hpart.subset (List.mem_of_head? hfirst))
  have hge := h.le_stop hturn (hpart.subset (List.mem_of_getLast? hlast))
  exact ⟨hstart ▸ hle, hstop ▸ hge⟩

/-- Of two runs, the later one starts behind the earlier one. -/
theorem apart (hfirst : Spans front first) (hlast : Spans back last)
    (hturn : InTurn (front ++ back)) : first.stop ≤ last.start := by
  obtain ⟨t, ht, hstop⟩ := Option.map_eq_some_iff.mp hfirst.stop
  obtain ⟨u, hu, hstart⟩ := Option.map_eq_some_iff.mp hlast.start
  have hapart := (List.pairwise_append.mp hturn.apart).2.2 t (List.mem_of_getLast? ht) u
    (List.mem_of_head? hu)
  rw [← hstop, ← hstart]
  exact hapart

/-- Of two runs one after the other, the bytes of both reach from one to the other. -/
theorem union_eq (hfirst : Spans front first) (hlast : Spans back last)
    (hturn : InTurn (front ++ back)) : first.union last = first.through last := by
  have hapart := hfirst.apart hlast hturn
  have hfront := hfirst.start_lt_stop (hturn.sublist (List.sublist_append_left front back))
  have hback := hlast.start_lt_stop (hturn.sublist (List.sublist_append_right front back))
  rw [ByteRange.union, ByteRange.through, Nat.min_eq_left (by omega), Nat.max_eq_right (by omega)]

end Spans

namespace FormulaScan

/-! ### Texts of runs -/

variable {offset : Nat} {text : List Char} {tokens front back : List PlacedToken}

/-- The tokens of a text stand in it, in turn. -/
theorem Scans.inTurn (h : Scans offset text tokens) :
    InTurn tokens ∧ ∀ t ∈ tokens,
      offset ≤ t.range.start ∧ t.range.stop ≤ offset + byteLength text := by
  induction h with
  | nil offset => exact ⟨⟨by simp, .nil⟩, by simp⟩
  | @space offset c rest tokens hc later ih =>
      refine ⟨ih.1, fun t ht => ?_⟩
      have hplace := ih.2 t ht
      rw [byteLength_cons]
      omega
  | @token offset c written rest token tokens reads later ih =>
      obtain ⟨⟨hnonempty, hapart⟩, hplaces⟩ := ih
      have hpos := byteLength_pos (List.cons_ne_nil c written)
      rw [← List.cons_append, byteLength_append]
      refine ⟨⟨?_, ?_⟩, ?_⟩
      · refine List.forall_mem_cons.mpr ⟨?_, hnonempty⟩
        simp only
        omega
      · exact List.pairwise_cons.mpr ⟨fun t ht => (hplaces t ht).1, hapart⟩
      · refine List.forall_mem_cons.mpr ⟨?_, fun t ht => ?_⟩
        · simp only
          omega
        · have hplace := hplaces t ht
          omega

/-- A text that is cut where a token starts keeps the tokens from there on. -/
theorem Scans.exists_later (h : Scans offset text tokens) (htokens : tokens = front ++ back)
    (hback : back ≠ []) :
    ∃ before after, text = before ++ after ∧ Scans (offset + byteLength before) after back ∧
      back.head?.map (·.range.start) = some (offset + byteLength before) := by
  induction h generalizing front with
  | nil offset => exact absurd (List.append_eq_nil_iff.mp htokens.symm).2 hback
  | @space offset c rest tokens hc later ih =>
      obtain ⟨before, after, rfl, hafter, hstart⟩ := ih htokens
      refine ⟨c :: before, after, rfl, ?_, ?_⟩ <;>
        rw [byteLength_cons, ← Nat.add_assoc] <;> assumption
  | @token offset c written rest token tokens reads later ih =>
      rcases front with _ | ⟨t, front⟩
      · rw [List.nil_append] at htokens
        subst htokens
        exact ⟨[], _, rfl, .token reads later, rfl⟩
      · obtain ⟨before, after, rfl, hafter, hstart⟩ := ih (List.cons_eq_cons.mp htokens).2
        refine ⟨c :: written ++ before, after, by simp, ?_, ?_⟩ <;>
          rw [byteLength_append, ← Nat.add_assoc] <;> assumption

/-- A text that is cut where a token ends keeps the tokens up to there. -/
theorem Scans.exists_earlier (h : Scans offset text tokens) (htokens : tokens = front ++ back)
    (hfront : front ≠ []) :
    ∃ before after, text = before ++ after ∧ Scans offset before front ∧
      front.getLast?.map (·.range.stop) = some (offset + byteLength before) := by
  induction h generalizing front with
  | nil offset => exact absurd (List.append_eq_nil_iff.mp htokens.symm).1 hfront
  | @space offset c rest tokens hc later ih =>
      obtain ⟨before, after, rfl, hbefore, hstop⟩ := ih htokens hfront
      refine ⟨c :: before, after, rfl, .space hc hbefore, ?_⟩
      rw [byteLength_cons, ← Nat.add_assoc]
      exact hstop
  | @token offset c written rest token tokens reads later ih =>
      rcases front with _ | ⟨t, _ | ⟨u, front⟩⟩
      · exact absurd rfl hfront
      · obtain ⟨rfl, -⟩ := List.cons_eq_cons.mp htokens
        refine ⟨c :: (written ++ []), rest, by simp, ?_, by simp⟩
        refine .token (fun cut hcut => reads cut (hcut.trans List.nil_prefix)) (.nil _)
      · obtain ⟨rfl, hmore⟩ := List.cons_eq_cons.mp htokens
        obtain ⟨before, after, rfl, hbefore, hstop⟩ := ih hmore (List.cons_ne_nil u front)
        refine ⟨c :: (written ++ before), after, by simp, ?_, ?_⟩
        · exact .token (fun cut hcut => reads cut (hcut.trans (List.prefix_append _ _))) hbefore
        · rw [← List.cons_append, byteLength_append, ← Nat.add_assoc]
          exact hstop

/-- The bytes that a run of tokens spans have just these tokens. -/
theorem Scans.exists_slice (h : Scans offset text tokens) {part : List PlacedToken}
    {range : ByteRange} (hpart : part <:+: tokens) (hrange : Spans part range) :
    ∃ piece, sliceBytes? text ⟨range.start - offset, range.stop - offset⟩ = some piece ∧
      Scans range.start piece part := by
  obtain ⟨earlier, later, rfl⟩ := hpart
  have hne : part ++ later ≠ [] := List.append_ne_nil_of_left_ne_nil hrange.ne_nil later
  obtain ⟨before, after, rfl, hafter, hstart⟩ :=
    h.exists_later (List.append_assoc earlier part later) hne
  obtain ⟨piece, rest, rfl, hpiece, hstop⟩ := hafter.exists_earlier rfl hrange.ne_nil
  obtain ⟨t, more, rfl, ht⟩ := hrange.exists_first
  rw [List.cons_append, List.head?_cons, Option.map_some, ht] at hstart
  rw [hrange.stop] at hstop
  refine ⟨piece, ?_, ?_⟩
  · rw [Option.some.inj hstart, Option.some.inj hstop, Nat.add_sub_cancel_left, Nat.add_assoc,
      Nat.add_sub_cancel_left]
    exact sliceBytes?_append before piece rest
  · rw [Option.some.inj hstart]
    exact hpiece

end FormulaScan

end PatternMarkup
