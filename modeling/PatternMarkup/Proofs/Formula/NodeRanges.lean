import Mathlib
import PatternMarkup.Number.Double
import PatternMarkup.Proofs.Formula.PlacedReading
import PatternMarkup.Proofs.Formula.Relocation
/-!
The bytes a formula knows are the bytes it was read from. They lie in the text, hold those of the
formulas right inside it, one after another, and are themselves a text that is read as just that
formula.
-/

namespace PatternMarkup

open FormulaParser FormulaScan

variable {α : Type} [Number α]

/-- The bytes of a formula are its own in a text that starts at the byte `base`. -/
structure Ast.IsPlacedIn (base : Nat) (text : List Char) (ast : Ast α) : Prop where
  nonempty : ast.range.start < ast.range.stop
  base_le : base ≤ ast.range.start
  le_stop : ast.range.stop ≤ base + byteLength text
  holds : ∀ child ∈ ast.children,
    ast.range.start ≤ child.range.start ∧ child.range.stop ≤ ast.range.stop
  inOrder : ast.children.Pairwise fun child later => child.range.stop ≤ later.range.start
  readsBack : ∃ piece,
    sliceBytes? text ⟨ast.range.start - base, ast.range.stop - base⟩ = some piece ∧
      Ast.read ⟨ast.range.start, piece⟩ = .ok ast

namespace FormulaParser

theorem whole_of_leaves {stop : Nat} {tokens : List PlacedToken} {ast : Ast α}
    (h : Leaves (expression stop) tokens ast []) : whole stop tokens = .ok ast := by
  obtain ⟨⟨read, rest, hshort⟩, hread, rfl, hrest⟩ := h
  obtain rfl : rest = [] := hrest
  rw [whole, hread]
  rfl

variable {base : Nat} {text : List Char} {tokens part : List PlacedToken} {ast : Ast α}

/-- A formula with a run of the tokens of a text has the bytes of that run. -/
theorem Placed.isPlacedIn (h : Placed part ast) (hpart : part <:+: tokens)
    (hscan : Scans base text tokens) : ast.IsPlacedIn base text := by
  obtain ⟨hturn, hplaces⟩ := hscan.inTurn
  have hturnPart := hturn.sublist hpart.sublist
  cases h with
  | intro parts spans reads children inTurn placed =>
      have hspans : ∀ inner ∈ parts, Spans inner.1 inner.2.range :=
        fun inner hinner => (placed inner hinner).spans
      obtain ⟨first, hfirst, hstart⟩ := Option.map_eq_some_iff.mp spans.start
      obtain ⟨last, hlast, hstop⟩ := Option.map_eq_some_iff.mp spans.stop
      constructor
      case nonempty => exact spans.start_lt_stop hturnPart
      case base_le =>
        rw [← hstart]
        exact (hplaces first (hpart.subset (List.mem_of_head? hfirst))).1
      case le_stop =>
        rw [← hstop]
        exact (hplaces last (hpart.subset (List.mem_of_getLast? hlast))).2
      case holds =>
        rw [← children]
        intro child hchild
        obtain ⟨inner, hinner, rfl⟩ := List.mem_map.mp hchild
        exact spans.within hturnPart (hspans inner hinner)
          (inTurn.infix_of_mem (List.mem_map_of_mem hinner))
      case inOrder =>
        rw [← children, List.pairwise_map]
        refine (List.pairwise_map.mp inTurn.pairwise).imp_of_mem ?_
        intro inner later hinner hlater hsub
        exact (hspans inner hinner).apart (hspans later hlater) (hturnPart.sublist hsub)
      case readsBack =>
        obtain ⟨piece, hslice, hpiece⟩ := hscan.exists_slice hpart spans
        refine ⟨piece, hslice, ?_⟩
        rw [Ast.read, Fragment.tokens, hpiece.scanFormula_eq]
        exact whole_of_leaves (reads _)

/-- So have the formulas in it. The induction is on how deep these are. -/
theorem Placed.subterms_arePlacedIn (h : Placed part ast) (hpart : part <:+: tokens)
    (hscan : Scans base text tokens) : ∀ t ∈ ast.subterms, t.IsPlacedIn base text := by
  induction h with
  | @intro part ast parts spans reads children inTurn placed ih =>
      intro t ht
      rw [Ast.subterms_eq, List.mem_cons, Ast.mem_subtermsOfAll] at ht
      rcases ht with rfl | ⟨child, hchild, ht⟩
      · exact (Placed.intro parts spans reads children inTurn placed).isPlacedIn hpart hscan
      · rw [← children] at hchild
        obtain ⟨inner, hinner, rfl⟩ := List.mem_map.mp hchild
        have hinside := inTurn.infix_of_mem (List.mem_map_of_mem hinner)
        exact ih inner hinner (hinside.trans hpart) t ht

theorem placed_of_whole {stop : Nat} (hturn : InTurn tokens) (h : whole stop tokens = .ok ast) :
    Placed tokens ast := by
  rw [whole] at h
  obtain ⟨⟨read, rest, hshort⟩, hread, h⟩ := exists_of_bind_eq_ok h
  obtain ⟨used, htokens, -, hplaced⟩ := expression_takes stop tokens hturn _ hread
  cases rest with
  | nil =>
      cases h
      obtain rfl : tokens = used := htokens.trans (List.append_nil used)
      exact hplaced
  | cons t rest => cases h

end FormulaParser

namespace Ast

/-- Wherever a text stands, every formula in the formula read from it has bytes of its own there:
some, in the text, holding those of the formulas right inside it in the order they are written, and
read as just that formula again. The text that starts `base` bytes further on is read as the same
formula, or fails with the same error, every place `base` bytes further on. -/
theorem read_ranges_faithful (base : Nat) (text : List Char) :
    (∀ ast : Ast α, Ast.read ⟨base, text⟩ = .ok ast →
        ∀ t ∈ ast.subterms, t.IsPlacedIn base text) ∧
      Ast.read (α := α) ⟨base, text⟩ =
        ((Ast.read ⟨0, text⟩).map (Ast.shift base)).mapError (FormatError.shift base) := by
  refine ⟨fun ast hread => ?_, read_shift base text⟩
  obtain ⟨tokens, htokens, hwhole⟩ := exists_of_bind_eq_ok hread
  have hscan := scans_of_scanFormula htokens
  have hplaced := placed_of_whole hscan.inTurn.1 hwhole
  exact hplaced.subterms_arePlacedIn List.infix_rfl hscan

/-- The sign of a sum in parentheses, with a letter of two bytes in it. -/
theorem read_ranges_faithful_sum :
    ∃ ast : Ast Float, Ast.read ⟨3, "-(a + 'é')".toList⟩ = .ok ast ∧
      (∀ t ∈ ast.subterms, t.IsPlacedIn 3 "-(a + 'é')".toList) ∧
      (.literal (.string "é") ⟨9, 13⟩) ∈ ast.subterms := by
  let ast : Ast Float :=
    .unary .negate (.binary .add (.name "a" ⟨5, 6⟩) (.literal (.string "é") ⟨9, 13⟩) ⟨4, 14⟩)
      ⟨3, 14⟩
  have hread : Ast.read ⟨3, "-(a + 'é')".toList⟩ = .ok ast := by cbv
  refine ⟨ast, hread, (read_ranges_faithful 3 _).1 ast hread, ?_⟩
  simp [ast, subterms]

end Ast

end PatternMarkup
