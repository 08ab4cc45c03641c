import Glob.Proofs.ByteOffset
import Glob.Proofs.Literal
import Glob.Proofs.Pattern.Units
import Glob.Proofs.Text.Verbatim
/-!
# Patterns that stand for one name

Whoever has a name and wants the pattern of just this name puts a backslash before the five marks that mean something,
whatever else is in it.  That such a text is always accepted is read off the outline: without its escapes it has neither
classes nor braces, and no backslash at the end (`exists_parse_of_literal`).  The rest is what literal patterns do.
-/
namespace Glob

open Reading (EndsEscaping outline outlineFrom)

variable {p t u : Text}

/-- A text that loses its escapes has no backslash that escapes nothing. -/
theorem not_endsEscaping_of_unescape? (h : Text.unescape? p = some u) : ¬ EndsEscaping p := by
  fun_induction Text.unescape? p generalizing u with
  | case1 => exact Reading.not_endsEscaping_nil
  | case2 => cases h
  | case3 c t ih =>
    obtain ⟨v, hv, -⟩ := Option.map_eq_some_iff.1 h
    exact mt Reading.endsEscaping_escaped.1 (ih hv)
  | case4 c t hend hescape ih =>
    obtain ⟨v, hv, -⟩ := Option.map_eq_some_iff.1 h
    exact mt (Reading.endsEscaping_cons (Text.ne_backslash hend hescape)).1 (ih hv)

/-- Neither a class nor a brace begins where no wildcard stands. -/
theorem outlineFrom_of_wildcards (h : Text.wildcards t = false) : outlineFrom p [] t = ⟨[], []⟩ := by
  fun_induction Text.wildcards t with
  | case1 => rw [outlineFrom]
  | case2 => rw [outlineFrom, List.tail_nil, outlineFrom]
  | case3 c t ih => rw [outlineFrom, List.tail_cons, ih h]
  | case4 c t hend hescape ih =>
    obtain ⟨hc, ht⟩ := Bool.or_eq_false_iff.1 h
    have hbackslash := Text.ne_backslash hend hescape
    simp only [List.contains_eq_mem, decide_eq_false_iff_not, List.mem_cons, List.not_mem_nil, or_false, not_or] at hc
    by_cases hclose : c = Mark.closeBrace
    · rw [hclose, outlineFrom, List.tail_nil, ih ht]
    · rw [Parser.outlineFrom_other (by simp [hc, hbackslash, hclose]), ih ht]

/-- **A text without wildcards and without a lone backslash is the pattern of what it says.** -/
theorem exists_parse_of_literal (hplain : Text.wildcards p = false) (htext : Text.unescape? p = some t) :
    ∃ tree, Pattern.parse p = .ok tree ∧ tree.isLiteral = true ∧ tree.literalText = t := by
  have hparse := parse_unescaped (not_endsEscaping_of_unescape? htext)
  rw [outline, outlineFrom_of_wildcards hplain] at hparse
  obtain ⟨tree, htree⟩ := hparse
  have hliteral : tree.isLiteral = true := by rw [parse_isLiteral htree, hplain]; rfl
  refine ⟨tree, htree, hliteral, ?_⟩
  exact Option.some.inj ((parse_literalText htree hliteral).symm.trans htext)

/-- **Bytes that are made to stand for themselves match themselves and no other bytes**, be they UTF-8 or not: they make
a literal pattern, and its matcher has an answer for all bytes. -/
theorem verbatim_matches {c : Cache} (hc : c.Reached) (o : Options) (ho : o.caseSensitive = true) (b : Bytes) :
    ∃ m, (c.compileLike o (.bytes b.verbatim)).1 = .ok m ∧ m.isLiteral = true ∧
      m.literal = some (Utf8.decodeLossless b) ∧
      ∀ b' : Bytes, m.accepts <$> (PathLike.bytes b').decode = .ok (decide (b' = b)) := by
  have hdecode : (PathLike.bytes b.verbatim).decode = .ok (Utf8.decodeLossless b).verbatim :=
    congrArg Except.ok (Utf8.decodeLossless_verbatim b)
  obtain ⟨tree, htree, hliteral, htext⟩ := exists_parse_of_literal
    (Text.wildcards_verbatim (Utf8.decodeLossless b)) (Text.unescape?_verbatim _)
  have hm := ofPattern?_of_parse htree o
  rw [compileLike_faithful hc.faithful o hdecode, hm]
  have hcompared : (if tree.isLiteral && o.caseSensitive then some tree.literalText else none) =
      some (Utf8.decodeLossless b) := by rw [hliteral, ho, htext]; rfl
  refine ⟨_, rfl, hliteral, hcompared, fun b' => ?_⟩
  refine congrArg Except.ok ?_
  rw [Matcher.accepts, hcompared, Bool.eq_iff_iff, beq_iff_eq, decide_eq_true_iff]
  exact Utf8.decodeLossless_inj

/-- The byte FF, a `*`, and two bytes of a sequence of three with a `[` behind them. -/
theorem verbatim_matches_stray :
    let b : Bytes := [0xFF, 0x2A, 0xE2, 0x82, 0x5B]
    b.verbatim = [0xFF, 0x5C, 0x2A, 0xE2, 0x82, 0x5C, 0x5B] ∧
      ∃ m, (Cache.empty.compileLike {} (.bytes b.verbatim)).1 = .ok m ∧ m.isLiteral = true ∧
        ∀ b' : Bytes, m.accepts <$> (PathLike.bytes b').decode = .ok (decide (b' = b)) := by
  intro b
  obtain ⟨m, hm, hliteral, -, hmatches⟩ := verbatim_matches .empty {} rfl b
  exact ⟨by decide, m, hm, hliteral, hmatches⟩

end Glob
