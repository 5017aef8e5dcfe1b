import PanelSchema.Proofs.Grammar.Bound
import PanelSchema.Proofs.Syntax.Declaration
import PanelSchema.Proofs.Syntax.Expression
import PanelSchema.Proofs.Syntax.Literal
import PanelSchema.Proofs.Syntax.Statement
import PanelSchema.Proofs.Traced
import PanelSchema.Syntax.Parse

/-!
How parsing ends. A text is blank, or the grammar does not match it, or the tree of what it
matched is built; that fails for the two faults of matched sources only.
-/

namespace PanelSchema.Syntax

open Source (Rule grammar style textRules)
open Grammar Build Reading

variable {file : String} {p q : Piece Rule} {l : Latitude}

theorem Kith.twin (h : Kith l (ofPiece file p) (ofPiece file q)) :
    Twin l (ofPiece file p) (ofPiece file q) := by
  refine .mk h.rule h.bond h.shaped h.pieces h.inner ⟨?_, ?_, ?_, ?_, ?_, ?_⟩
  · rw [expr_ofPiece, expr_ofPiece]
    simpa using meets_operand h
  · intro hrule
    rw [unary_ofPiece, unary_ofPiece]
    simpa using meets_unary (h.known hrule rfl)
  · rw [stmt_ofPiece, stmt_ofPiece]
    simpa using meets_stmt h
  · rw [stmt_ofPiece, stmt_ofPiece]
    simpa using meets_stmt_else h
  · rw [decl_ofPiece, decl_ofPiece]
    simpa using meets_decl h
  · intro hrule
    have hrule' : (ofPiece file q).rule ∈ textRules := h.rule ▸ hrule
    rw [decl_ofPiece, decl_ofPiece]
    exact ⟨declaration_text (by simpa using hrule), declaration_text (by simpa using hrule')⟩

/-- Pieces that are alike have readings that are twins, where the texts that are kept are. -/
theorem twin_of_alike {sp : Spacing} (h : Shaped grammar sp p) (hsp : sp = .loose)
    (halike : Alike (fun p q => Bond l (ofPiece file p) (ofPiece file q)) p q) :
    Twin l (ofPiece file p) (ofPiece file q) := by
  induction h generalizing q with
  | @mk sp p hleft hinner ih =>
    subst hsp
    have hpieces : (p.inner.map (ofPiece file)).map (·.piece) = p.inner := by
      simp [Function.comp_def]
    refine Kith.twin ⟨by simpa using halike.rule, halike.isKin, ?_, ?_, fun hplain => ?_⟩
    · rw [piece_ofPiece]
      exact .mk hleft hinner
    · rw [piece_ofPiece, inner_ofPiece, hpieces]
    · -- Below a token nothing is asked for.
      rw [rule_ofPiece] at hplain
      have hstyle : grammar.style p.rule = .plain := hplain
      rw [inner_ofPiece, inner_ofPiece, List.forall₂_map_left_iff, List.forall₂_map_right_iff]
      refine ((List.forall₂_and_left _ _).2 ⟨fun x hx => hx, halike.inner⟩).imp fun x y hx => ?_
      exact ih x hx.1 (by rw [hstyle]; rfl) hx.2

theorem bond_refl (r : Reading) : Bond Eq r r where
  types _ := List.forall₂_same.2 fun _ _ _ => rfl
  exact _ := rfl
  literal _ := rfl

theorem match_sourceFile {cs : List Char} {ps : List (Piece Rule)}
    (h : grammar.match? .sourceFile cs = .ok ps) :
    ∃ root, ps = [root] ∧ root.rule = .sourceFile ∧ Shaped grammar .loose root := by
  have hleaves := shaped_match Source.blankLeavesNothing h
  obtain ⟨root, rfl, hroot⟩ := (Source.leaves_piece (by decide)).1 hleaves
  exact ⟨root, rfl, hroot.rule, hleaves.shaped root (List.mem_singleton_self root)⟩

/-! ### The four ways to end -/

section

variable {content : String}

theorem parse_of_blank (hblank : content.toList.all isBlank = true) :
    (parse file content).result = .error (.problem (.emptySource file)) := by
  unfold parse
  rw [if_pos hblank]
  rfl

theorem parse_of_mismatch (hblank : content.toList.all isBlank = false)
    {mismatch : Mismatch Rule} (h : grammar.match? .sourceFile content.toList = .error mismatch) :
    (parse file content).result = .error (.problem (Source.mismatchProblem file mismatch)) := by
  unfold parse
  simp only [hblank, h]
  rfl

theorem parse_of_match (hblank : content.toList.all isBlank = false) {root : Piece Rule}
    (h : grammar.match? .sourceFile content.toList = .ok [root]) :
    (∀ tree, (sourceTree (ofPiece file root)).outcome {} = .ok tree →
      (parse file content).result = .ok tree) ∧
    ∀ p, (sourceTree (ofPiece file root)).outcome {} = .error p →
      (parse file content).result = .error (.problem p) := by
  have hrun : (Build.run (sourceTree (ofPiece file root))).result =
      ((sourceTree (ofPiece file root)).outcome {}).mapError .problem := rfl
  unfold parse
  simp only [hblank, h]
  constructor
  · intro tree htree
    rw [htree] at hrun
    rw [if_neg Bool.false_ne_true, Traced.result_bind_of_ok hrun]
    rfl
  · intro p hp
    rw [hp] at hrun
    rw [if_neg Bool.false_ne_true, Traced.result_bind_eq_error]
    exact .inl hrun

end

theorem parse_cases (file content : String) :
    content.toList.all isBlank = true ∧
        (parse file content).result = .error (.problem (.emptySource file)) ∨
      content.toList.all isBlank = false ∧
        ((∃ mismatch, grammar.match? .sourceFile content.toList = .error mismatch ∧
          (parse file content).result =
            .error (.problem (Source.mismatchProblem file mismatch))) ∨
        ∃ root, grammar.match? .sourceFile content.toList = .ok [root] ∧
          (Clean root ∧ (∃ tree, (parse file content).result = .ok tree) ∨
            ¬Clean root ∧
              ∃ p, p.IsMalformed ∧ (parse file content).result = .error (.problem p))) := by
  cases hblank : content.toList.all isBlank with
  | true => exact .inl ⟨rfl, parse_of_blank hblank⟩
  | false =>
    refine .inr ⟨rfl, ?_⟩
    cases hmatch : grammar.match? .sourceFile content.toList with
    | error mismatch => exact .inl ⟨mismatch, rfl, parse_of_mismatch hblank hmatch⟩
    | ok ps =>
      obtain ⟨root, rfl, hrule, hshaped⟩ := match_sourceFile hmatch
      have htwin : Twin Eq (ofPiece file root) (ofPiece file root) :=
        twin_of_alike hshaped rfl (hshaped.alike fun _ => bond_refl _)
      have hmeets := meets_sourceTree (htwin.known (by simpa using hrule) rfl)
      rw [piece_ofPiece] at hmeets
      refine .inr ⟨root, rfl, ?_⟩
      by_cases hclean : Clean root
      · obtain ⟨tree, htree⟩ := hmeets.ok hclean
        exact .inl ⟨hclean, tree, (parse_of_match hblank hmatch).1 tree htree⟩
      · obtain ⟨p, hp, houtcome⟩ := hmeets.error hclean
        exact .inr ⟨hclean, p, hp, (parse_of_match hblank hmatch).2 p houtcome⟩

theorem unvalued_reason {cs : List Char} {root q : Piece Rule}
    (hmatch : grammar.match? .sourceFile cs = .ok [root]) (hq : Reads root q)
    (hunvalued : Unvalued q) : TooLarge q.chars ∨ HexDecimal q.chars := by
  obtain ⟨_, hroot, -, hshaped⟩ := match_sourceFile hmatch
  cases hroot
  obtain ⟨sp, hshaped⟩ := hq.shaped hshaped
  cases hshaped with
  | mk h _ =>
    obtain ⟨hrule, hnone⟩ := hunvalued
    rw [hrule] at h
    exact unvalued_cases (h.chars (by cases sp <;> decide)) hnone

/-- Parsing ends in one of four ways. A blank text is empty, and one that the grammar does not
match is rejected. What it matches gives a tree, unless the reading comes to a number without a
value or to a statement without the one it governs, which is malformed. Only integers have no
value: those that are too large, and those to the base sixteen that are marked as decimals. -/
theorem parse_outcome (file content : String) :
    ((parse file content).result = .error (.problem (.emptySource file)) ↔
      content.toList.all isBlank = true) ∧
    ((∃ reason place, (parse file content).result = .error (.problem (.rejected reason place))) ↔
      content.toList.all isBlank = false ∧
        ∃ mismatch, grammar.match? .sourceFile content.toList = .error mismatch) ∧
    ((∃ tree, (parse file content).result = .ok tree) ↔
      content.toList.all isBlank = false ∧
        ∃ root, grammar.match? .sourceFile content.toList = .ok [root] ∧
          ∀ q, Reads root q → ¬(Unvalued q ∨ Bodiless q)) ∧
    ((∃ p, p.IsMalformed ∧ (parse file content).result = .error (.problem p)) ↔
      content.toList.all isBlank = false ∧
        ∃ root, grammar.match? .sourceFile content.toList = .ok [root] ∧
          ∃ q, Reads root q ∧ (Unvalued q ∨ Bodiless q)) ∧
    (∀ e, (parse file content).result = .error e →
      e = .problem (.emptySource file) ∨ (∃ reason place, e = .problem (.rejected reason place)) ∨
        ∃ p, p.IsMalformed ∧ e = .problem p) ∧
    ∀ root, grammar.match? .sourceFile content.toList = .ok [root] →
      ∀ q, Reads root q → Unvalued q → TooLarge q.chars ∨ HexDecimal q.chars := by
  have hreason : ∀ root, grammar.match? .sourceFile content.toList = .ok [root] →
      ∀ q, Reads root q → Unvalued q → TooLarge q.chars ∨ HexDecimal q.chars :=
    fun root hmatch q hq => unvalued_reason hmatch hq
  have hclean : ∀ root, (∀ q, Reads root q → ¬(Unvalued q ∨ Bodiless q)) ↔ Clean root :=
    fun _ => Iff.rfl
  have hfaulty : ∀ root, (∃ q, Reads root q ∧ (Unvalued q ∨ Bodiless q)) ↔ ¬Clean root :=
    fun _ => not_clean_iff.symm
  simp only [hclean, hfaulty]
  rcases parse_cases file content with ⟨hblank, h⟩ | ⟨hblank, ⟨mismatch, hmatch, h⟩ |
    ⟨root, hmatch, ⟨hroot, tree, h⟩ | ⟨hroot, p, ⟨message, issuer, place, span, rfl⟩, h⟩⟩⟩
  · refine ⟨?_, ?_, ?_, ?_, ?_, hreason⟩ <;> simp [h, hblank, Problem.IsMalformed]
  · refine ⟨?_, ?_, ?_, ?_, ?_, hreason⟩ <;>
      simp [h, hblank, hmatch, Problem.IsMalformed, Source.mismatchProblem]
  · refine ⟨?_, ?_, ?_, ?_, ?_, hreason⟩ <;>
      simp [h, hblank, hmatch, hroot, Problem.IsMalformed]
  · refine ⟨?_, ?_, ?_, ?_, ?_, hreason⟩ <;>
      simp [h, hblank, hmatch, hroot, Problem.IsMalformed]

/-- A test that governs the empty statement, in a text without a digit. -/
def unguardedSource : String :=
  "class Panel \x7b\n  void OnGUI() \x7b\n    MakeEffect(\"A\");\n    if (ready) ;\n  \x7d\n\x7d"

theorem parse_unguarded :
    unguardedSource.toList.any Char.isDigit = false ∧
      (parse "Panel.cs" unguardedSource).result =
        .error (.problem (.malformed "Expected more inner pairs but found none."
          "guiscribe.ast.rules.fetch_next_pair" (some ⟨"Panel.cs", 4, 5⟩)
          (some ⟨⟨"Panel.cs", 4, 5⟩, ⟨"Panel.cs", 5, 3⟩⟩))) := by
  rw [← Traced.stopped?_eq_some]
  decide +kernel

end PanelSchema.Syntax
