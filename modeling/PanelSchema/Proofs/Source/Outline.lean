import PanelSchema.Proofs.Grammar.Leaves
import PanelSchema.Source.Grammar

/-!
The outlines of the pieces of a source. An outline says which pieces come after one another,
and that of a rule is computed from the grammar. It forgets how pieces go together where a
phrase of several is optional or repeated; the few rules for which that matters have their
shapes at the end.
-/

namespace PanelSchema.Source

open Phrase (all any many1 anyBut)
open Grammar

/-- How many pieces an entry of an outline stands for. -/
inductive Extent where
  | one
  | atMostOne
  | several
deriving DecidableEq, Repr

/-- Pieces of some rules. -/
structure Entry where
  extent : Extent
  rules : List Rule
deriving DecidableEq, Repr

abbrev Outline := List Entry

namespace Outline

def loosen (o : Outline) : Outline :=
  if o.isEmpty then [] else [⟨.several, o.flatMap (·.rules)⟩]

def optional (o : Outline) : Outline :=
  match o with
  | [⟨.one, rs⟩] => [⟨.atMostOne, rs⟩]
  | [⟨.atMostOne, rs⟩] => [⟨.atMostOne, rs⟩]
  | o => o.loosen

def choice (o o' : Outline) : Outline :=
  match o, o' with
  | [], o' => o'.optional
  | o, [] => o.optional
  | [⟨.one, rs⟩], [⟨.one, rs'⟩] => [⟨.one, rs ++ rs'⟩]
  | [⟨.one, rs⟩], [⟨.atMostOne, rs'⟩] => [⟨.atMostOne, rs ++ rs'⟩]
  | o, o' => loosen (o ++ o')

/-- The pieces are those of the outline, entry by entry. -/
inductive Fits : Outline → List (Piece Rule) → Prop where
  | nil : Fits [] []
  | one {rs : List Rule} {o : Outline} {p : Piece Rule} {ps : List (Piece Rule)}
      (hp : p.rule ∈ rs) (h : Fits o ps) : Fits (⟨.one, rs⟩ :: o) (p :: ps)
  | absent {rs : List Rule} {o : Outline} {ps : List (Piece Rule)} (h : Fits o ps) :
      Fits (⟨.atMostOne, rs⟩ :: o) ps
  | present {rs : List Rule} {o : Outline} {p : Piece Rule} {ps : List (Piece Rule)}
      (hp : p.rule ∈ rs) (h : Fits o ps) : Fits (⟨.atMostOne, rs⟩ :: o) (p :: ps)
  | several {rs : List Rule} {o : Outline} {qs ps : List (Piece Rule)}
      (hqs : ∀ q ∈ qs, q.rule ∈ rs) (h : Fits o ps) : Fits (⟨.several, rs⟩ :: o) (qs ++ ps)

variable {o o' : Outline} {ps qs : List (Piece Rule)}

section

variable {rs : List Rule}

@[simp] theorem fits_nil : Fits [] ps ↔ ps = [] :=
  ⟨fun h => by cases h; rfl, fun h => h ▸ .nil⟩

@[simp] theorem fits_one :
    Fits (⟨.one, rs⟩ :: o) ps ↔ ∃ p qs, p.rule ∈ rs ∧ Fits o qs ∧ ps = p :: qs := by
  constructor
  · intro h
    cases h with
    | one hp h => exact ⟨_, _, hp, h, rfl⟩
  · rintro ⟨p, qs, hp, h, rfl⟩
    exact .one hp h

@[simp] theorem fits_atMostOne :
    Fits (⟨.atMostOne, rs⟩ :: o) ps ↔
      Fits o ps ∨ ∃ p qs, p.rule ∈ rs ∧ Fits o qs ∧ ps = p :: qs := by
  constructor
  · intro h
    cases h with
    | absent h => exact .inl h
    | present hp h => exact .inr ⟨_, _, hp, h, rfl⟩
  · rintro (h | ⟨p, qs, hp, h, rfl⟩)
    · exact .absent h
    · exact .present hp h

@[simp] theorem fits_several :
    Fits (⟨.several, rs⟩ :: o) ps ↔
      ∃ qs qs', (∀ q ∈ qs, q.rule ∈ rs) ∧ Fits o qs' ∧ ps = qs ++ qs' := by
  constructor
  · intro h
    cases h with
    | several hqs h => exact ⟨_, _, hqs, h, rfl⟩
  · rintro ⟨qs, qs', hqs, h, rfl⟩
    exact .several hqs h

end

theorem Fits.append (h : Fits o ps) (h' : Fits o' qs) : Fits (o ++ o') (ps ++ qs) := by
  induction h with
  | nil => exact h'
  | one hp _ ih => exact .one hp ih
  | absent _ ih => exact .absent ih
  | present hp _ ih => exact .present hp ih
  | several hqs _ ih =>
    rw [List.append_assoc]
    exact .several hqs ih

theorem Fits.of_append (h : Fits (o ++ o') ps) :
    ∃ qs qs', Fits o qs ∧ Fits o' qs' ∧ ps = qs ++ qs' := by
  induction o generalizing ps with
  | nil => exact ⟨[], ps, .nil, h, rfl⟩
  | cons e o ih =>
    cases h with
    | one hp h =>
      obtain ⟨qs, qs', hqs, hqs', rfl⟩ := ih h
      exact ⟨_ :: qs, qs', .one hp hqs, hqs', rfl⟩
    | absent h =>
      obtain ⟨qs, qs', hqs, hqs', rfl⟩ := ih h
      exact ⟨qs, qs', .absent hqs, hqs', rfl⟩
    | present hp h =>
      obtain ⟨qs, qs', hqs, hqs', rfl⟩ := ih h
      exact ⟨_ :: qs, qs', .present hp hqs, hqs', rfl⟩
    | several hps h =>
      obtain ⟨qs, qs', hqs, hqs', rfl⟩ := ih h
      exact ⟨_ ++ qs, qs', .several hps hqs, hqs', (List.append_assoc ..).symm⟩

theorem Fits.mem_rules (h : Fits o ps) : ∀ p ∈ ps, p.rule ∈ o.flatMap (·.rules) := by
  induction h with
  | nil => simp
  | one hp _ ih | present hp _ ih => grind
  | absent _ ih => grind
  | several hqs _ ih => grind

theorem Fits.loosen (h : ∀ p ∈ ps, p.rule ∈ o.flatMap (·.rules)) : Fits o.loosen ps := by
  unfold Outline.loosen
  split
  · rename_i hempty
    rw [List.isEmpty_iff] at hempty
    subst hempty
    have hnone : ps = [] := List.eq_nil_iff_forall_not_mem.2 fun p hp => by simpa using h p hp
    subst hnone
    exact .nil
  · have hall : Fits [⟨.several, o.flatMap (·.rules)⟩] (ps ++ []) := .several h .nil
    rwa [List.append_nil] at hall

theorem Fits.absent_optional : Fits o.optional [] := by
  unfold Outline.optional
  split
  · exact .absent .nil
  · exact .absent .nil
  · exact Fits.loosen (by simp)

theorem Fits.optional (h : Fits o ps) : Fits o.optional ps := by
  unfold Outline.optional
  split
  · cases h with
    | one hp h => exact .present hp h
  · exact h
  · exact Fits.loosen h.mem_rules

theorem Fits.choice_left (h : Fits o ps) : Fits (o.choice o') ps := by
  unfold Outline.choice
  split
  · cases h
    exact Fits.absent_optional
  · exact h.optional
  · cases h with
    | one hp h => exact .one (List.mem_append_left _ hp) h
  · cases h with
    | one hp h => exact .present (List.mem_append_left _ hp) h
  · apply Fits.loosen
    intro p hp
    rw [List.flatMap_append]
    exact List.mem_append_left _ (h.mem_rules p hp)

theorem Fits.choice_right (h : Fits o' ps) : Fits (o.choice o') ps := by
  unfold Outline.choice
  split
  · exact h.optional
  · cases h
    exact Fits.absent_optional
  · cases h with
    | one hp h => exact .one (List.mem_append_right _ hp) h
  · cases h with
    | absent h => exact .absent h
    | present hp h => exact .present (List.mem_append_right _ hp) h
  · apply Fits.loosen
    intro p hp
    rw [List.flatMap_append]
    exact List.mem_append_right _ (h.mem_rules p hp)

def holdsNone (kind : Rule → Bool) (o : Outline) : Bool :=
  o.all fun e => !e.rules.any kind

def holdsAtMostOne (kind : Rule → Bool) : Outline → Bool
  | [] => true
  | e :: o =>
    if e.rules.any kind then e.extent != .several && holdsNone kind o else holdsAtMostOne kind o

def holdsOne (kind : Rule → Bool) (o : Outline) : Bool :=
  o.any fun e => e.extent == .one && e.rules.all kind

section

variable {kind : Rule → Bool}

theorem Fits.not_of_holdsNone (h : Fits o ps) (hnone : o.holdsNone kind = true) :
    ∀ p ∈ ps, kind p.rule = false := by
  intro p hp
  have hrule := h.mem_rules p hp
  rw [List.mem_flatMap] at hrule
  obtain ⟨e, he, hrule⟩ := hrule
  simp only [holdsNone, List.all_eq_true, Bool.not_eq_true', List.any_eq_false] at hnone
  simpa using hnone e he p.rule hrule

theorem Fits.eq_of_holdsAtMostOne (h : Fits o ps) (hmost : o.holdsAtMostOne kind = true) :
    ∀ p ∈ ps, ∀ q ∈ ps, kind p.rule = true → kind q.rule = true → p = q := by
  induction h with
  | nil => simp
  | one _ h ih | present _ h ih | absent h ih =>
    rw [holdsAtMostOne] at hmost
    split at hmost
    · have hnone := h.not_of_holdsNone (by simpa using hmost)
      grind
    · grind
  | several hqs h ih =>
    rw [holdsAtMostOne] at hmost
    split at hmost
    · simp at hmost
    · grind

theorem Fits.exists_of_holdsOne (h : Fits o ps) (hone : o.holdsOne kind = true) :
    ∃ p ∈ ps, kind p.rule = true := by
  induction h with
  | nil => cases hone
  | one hp _ ih | present hp _ ih | several hp _ ih | absent _ ih =>
    simp only [holdsOne, List.any_cons, Bool.or_eq_true] at hone ih
    grind

end

end Outline

def statementRules : List Rule :=
  [.block, .ifStmt, .switchStmt, .usingStmt, .foreachStmt, .forStmt, .whileStmt, .doStmt,
    .returnStmt, .breakStmt, .continueStmt, .localDecl, .expressionStmt, .skippedStmt]

def silentOutline : Rule → Outline
  | .topItem => [⟨.atMostOne, [.namespaceDecl, .typeDecl, .skippedMember]⟩]
  | .attributeSection => [⟨.one, [.attributeItem]⟩, ⟨.several, [.attributeItem]⟩]
  | .typeParameters => [⟨.one, [.identifier]⟩, ⟨.several, [.identifier]⟩]
  | .baseList => [⟨.one, [.typeName]⟩, ⟨.several, [.typeName]⟩]
  | .classMember => [⟨.one, [.typeDecl, .methodDecl, .fieldDecl, .skippedMember]⟩]
  | .parameterModifier => [⟨.atMostOne, [.kwRef]⟩]
  | .statement => [⟨.atMostOne, statementRules⟩]
  | .switchLabel => [⟨.one, [.caseLabel, .defaultLabel]⟩]
  | .postfixOp =>
    [⟨.one, [.memberAccess, .callArgs, .indexAccess, .postfixInc, .postfixDec]⟩]
  | .argumentName => [⟨.one, [.identifier]⟩]
  | .primary =>
    [⟨.one, [.stringLiteral, .charLiteral, .number, .boolean, .nullLiteral, .typeofExpr,
      .newExpr, .expression, .genericName, .identifier]⟩]
  | .parenExpr => [⟨.one, [.expression]⟩]
  | .initializerElement => [⟨.one, [.arrayInitializer, .expression]⟩]
  | _ => []

def outline : Phrase Rule → Outline
  | .rule r => if style r = .silent then silentOutline r else [⟨.one, [r]⟩]
  | .seq a b => outline a ++ outline b
  | .alt a b => (outline a).choice (outline b)
  | .opt a => (outline a).optional
  | .many a => (outline a).loosen
  | _ => []

theorem outline_silent {r : Rule} (h : style r = .silent) :
    outline (body r) = silentOutline r := by
  cases r <;> cases h <;> decide

theorem fits_outline {phrase : Phrase Rule} {ps : List (Piece Rule)}
    (h : Leaves grammar .loose phrase ps) : (outline phrase).Fits ps := by
  generalize hsp : Spacing.loose = sp at h
  induction h with
  | @silent sp r ps hstyle _ ih =>
    have hsilent : style r = .silent := hstyle
    rw [outline, if_pos hsilent, ← outline_silent hsilent]
    exact ih hsp
  | @kept sp p hstyle _ _ _ _ =>
    have hkept : style p.rule ≠ .silent := hstyle
    rw [outline, if_neg hkept]
    exact .one (List.mem_singleton_self _) .nil
  | @dropped sp r ps hstyle hdropped _ _ =>
    subst hsp
    revert hdropped
    unfold outerSpacing outerMode
    split <;> simp
  | seq _ _ iha ihb => exact (iha hsp).append (ihb hsp)
  | left _ ih => exact (ih hsp).choice_left
  | right _ ih => exact (ih hsp).choice_right
  | absent => exact Outline.Fits.absent_optional
  | present _ ih => exact (ih hsp).optional
  | done => exact Outline.Fits.loosen (by simp)
  | more _ _ iha ihb =>
    apply Outline.Fits.loosen
    intro p hp
    rcases List.mem_append.1 hp with hp | hp
    · exact (iha hsp).mem_rules p hp
    · have hrules := (ihb hsp).mem_rules p hp
      rw [outline, Outline.loosen] at hrules
      split at hrules <;> simp_all
  | _ => exact .nil

/-! ### Rules that name only each other -/

def mentions : Phrase Rule → List Rule
  | .rule r => [r]
  | .seq a b | .alt a b => mentions a ++ mentions b
  | .opt a | .many a => mentions a
  | _ => []

def IsClosed (rules : List Rule) : Prop :=
  ∀ r ∈ rules, ∀ r' ∈ mentions (body r), r' ∈ rules

instance decidableIsClosed (rules : List Rule) : Decidable (IsClosed rules) :=
  inferInstanceAs (Decidable (∀ r ∈ rules, ∀ r' ∈ mentions (body r), r' ∈ rules))

theorem leaves_closed {rules : List Rule} (hclosed : IsClosed rules) {sp : Spacing}
    {phrase : Phrase Rule} {ps : List (Piece Rule)} (h : Leaves grammar sp phrase ps)
    (hphrase : ∀ r ∈ mentions phrase, r ∈ rules) :
    ∀ p ∈ ps, p.rule ∈ rules ∧ style p.rule ≠ .silent := by
  induction h with
  | @silent _ r _ _ _ ih | @dropped _ r _ _ _ _ ih =>
    exact ih (hclosed r (hphrase r (List.mem_singleton_self r)))
  | kept hstyle =>
    intro q hq
    rw [List.mem_singleton.1 hq]
    exact ⟨hphrase _ (List.mem_singleton_self _), hstyle⟩
  | seq _ _ iha ihb | more _ _ iha ihb => grind [mentions]
  | left _ ih | right _ ih | present _ ih => grind [mentions]
  | _ => simp

theorem blankLeavesNothing : grammar.BlankLeavesNothing := by
  intro ps h
  have hclosed : IsClosed [.whitespace, .comment] := by decide
  have hsilent : ∀ r ∈ [Rule.whitespace, .comment], style r = .silent := by decide
  rw [List.eq_nil_iff_forall_not_mem]
  intro p hp
  obtain ⟨hrule, hstyle⟩ := leaves_closed hclosed h (by decide) p hp
  exact hstyle (hsilent p.rule hrule)

/-- Names, types, operators and skipped code, whose texts are taken as they stand. -/
def textRules : List Rule :=
  [.endOfInput, .identStart, .identChar, .keyword, .identifier, .kwReturn, .kwNew, .kwElse,
    .kwType, .kwEnum, .kwRef, .modifier, .qualifiedName, .genericArgs, .arrayRank, .typeName,
    .stringInner, .stringLiteral, .charLiteral, .boolean, .nullLiteral, .balancedBraces,
    .skippedMember, .defaultLabel, .breakStmt, .continueStmt, .skippedStmt, .assignOp,
    .ternaryOp, .opCoalesce, .opOr, .opAnd, .opBitOr, .opXor, .opBitAnd, .opEquality,
    .opRelational, .opAdditive, .opMultiplicative, .prefixOp, .cast, .memberAccess,
    .postfixInc, .postfixDec, .typeofExpr, .genericName]

theorem isClosed_textRules : IsClosed textRules := by
  decide

/-! ### Operators -/

def wordsOf? : Phrase Rule → Option (List (List Char))
  | .text cs => some [cs]
  | .never _ => some [[]]
  | .seq a b => do
    let ws ← wordsOf? a
    let ws' ← wordsOf? b
    some (ws.flatMap fun w => ws'.map (w ++ ·))
  | .alt a b => do
    let ws ← wordsOf? a
    let ws' ← wordsOf? b
    some (ws ++ ws')
  | _ => none

theorem mem_wordsOf {phrase : Phrase Rule} {cs : List Char} (h : Spells grammar phrase cs) :
    ∀ {ws : List (List Char)}, wordsOf? phrase = some ws → cs ∈ ws := by
  induction h with
  | text | never =>
    intro ws hws
    cases hws
    exact List.mem_singleton_self _
  | seq _ _ iha ihb =>
    intro ws hws
    simp only [wordsOf?, Option.bind_eq_bind, Option.bind_eq_some_iff] at hws
    obtain ⟨ws₁, h₁, ws₂, h₂, hws⟩ := hws
    cases hws
    exact List.mem_flatMap.2 ⟨_, iha h₁, List.mem_map_of_mem (ihb h₂)⟩
  | left _ ih =>
    intro ws hws
    simp only [wordsOf?, Option.bind_eq_bind, Option.bind_eq_some_iff] at hws
    obtain ⟨ws₁, h₁, ws₂, h₂, hws⟩ := hws
    cases hws
    exact List.mem_append_left _ (ih h₁)
  | right _ ih =>
    intro ws hws
    simp only [wordsOf?, Option.bind_eq_bind, Option.bind_eq_some_iff] at hws
    obtain ⟨ws₁, h₁, ws₂, h₂, hws⟩ := hws
    cases hws
    exact List.mem_append_right _ (ih h₂)
  | _ =>
    intro ws hws
    cases hws

theorem chars_of_words {r : Rule} {p : Piece Rule} (good : List Char → Bool)
    (h : Left grammar .loose r p) (hstyle : style r = .atomic)
    (hwords : (wordsOf? (body r)).any (·.all good) = true) : good p.chars = true := by
  have hatomic : grammar.style r = .atomic := hstyle
  have hspells : Spells grammar (body r) p.chars :=
    h.chars (by simp [innerSpacing, innerMode, hatomic])
  rw [Option.any_eq_true] at hwords
  obtain ⟨ws, hws, hgood⟩ := hwords
  exact List.all_eq_true.1 hgood p.chars (mem_wordsOf hspells hws)

/-! ### Shapes of expressions -/

theorem leaves_piece {r : Rule} {ps : List (Piece Rule)} (hstyle : style r ≠ .silent) :
    Leaves grammar .loose (.rule r) ps ↔ ∃ p, ps = [p] ∧ Left grammar .loose r p := by
  apply leaves_kept hstyle
  unfold outerSpacing outerMode
  split <;> simp

/-- The operand and the operator of a level of binary expressions. -/
def level? : Rule → Option (Rule × Rule)
  | .coalesce => some (.logicalOr, .opCoalesce)
  | .logicalOr => some (.logicalAnd, .opOr)
  | .logicalAnd => some (.bitwiseOr, .opAnd)
  | .bitwiseOr => some (.bitwiseXor, .opBitOr)
  | .bitwiseXor => some (.bitwiseAnd, .opXor)
  | .bitwiseAnd => some (.equality, .opBitAnd)
  | .equality => some (.relational, .opEquality)
  | .relational => some (.additive, .opRelational)
  | .additive => some (.multiplicative, .opAdditive)
  | .multiplicative => some (.unary, .opMultiplicative)
  | _ => none

/-- Rounds of an operator and an operand. -/
inductive Rounds (operand operator : Rule) : List (Piece Rule) → Prop where
  | nil : Rounds operand operator []
  | cons {o p : Piece Rule} {ps : List (Piece Rule)} (ho : Left grammar .loose operator o)
      (hp : p.rule = operand) (h : Rounds operand operator ps) :
      Rounds operand operator (o :: p :: ps)

section

variable {r operand operator : Rule} {ps : List (Piece Rule)}

theorem leaves_pair (hfirst : style operator ≠ .silent) (hsecond : style operand ≠ .silent)
    (h : Leaves grammar .loose (.seq (.rule operator) (.rule operand)) ps) :
    ∃ o p, Left grammar .loose operator o ∧ p.rule = operand ∧ ps = [o, p] := by
  simp only [leaves_seq, leaves_piece hfirst, leaves_piece hsecond] at h
  obtain ⟨_, _, ⟨o, rfl, ho⟩, ⟨p, rfl, hp⟩, rfl⟩ := h
  exact ⟨o, p, ho, hp.rule, rfl⟩

theorem rounds_of_many (hoperator : style operator ≠ .silent) (hoperand : style operand ≠ .silent)
    (h : Leaves grammar .loose (.many (.seq (.rule operator) (.rule operand))) ps) :
    Rounds operand operator ps := by
  obtain ⟨rounds, hrounds, rfl⟩ := leaves_many.1 h
  clear h
  induction rounds with
  | nil => exact .nil
  | cons round rounds ih =>
    rw [List.forall_mem_cons] at hrounds
    obtain ⟨o, p, ho, hp, rfl⟩ := leaves_pair hoperator hoperand hrounds.1
    exact .cons ho hp (ih hrounds.2)

theorem shape_level (hlevel : level? r = some (operand, operator))
    (h : Leaves grammar .loose (body r) ps) :
    ∃ p rest, p.rule = operand ∧ Rounds operand operator rest ∧ ps = p :: rest := by
  have hbody : body r = .seq (.rule operand) (.many (.seq (.rule operator) (.rule operand))) := by
    cases r <;> cases hlevel <;> rfl
  have hoperand : style operand ≠ .silent := by
    cases r <;> cases hlevel <;> decide
  have hoperator : style operator ≠ .silent := by
    cases r <;> cases hlevel <;> decide
  rw [hbody, leaves_seq] at h
  obtain ⟨_, rest, hfirst, hrest, rfl⟩ := h
  obtain ⟨p, rfl, hp⟩ := (leaves_piece hoperand).1 hfirst
  exact ⟨p, rest, hp.rule, rounds_of_many hoperator hoperand hrest, rfl⟩

-- The rules below are unfolded by these equations.
attribute [local simp] body

theorem shape_expression (h : Leaves grammar .loose (body .expression) ps) :
    (∃ c, c.rule = .conditional ∧ ps = [c]) ∨
      ∃ c o v, c.rule = .conditional ∧ Left grammar .loose .assignOp o ∧
        (v.rule = .arrayInitializer ∨ v.rule = .expression) ∧ ps = [c, o, v] := by
  simp (disch := decide) only [body, any, all, leaves_alt, leaves_seq, leaves_opt,
    leaves_piece] at h
  obtain ⟨_, _, ⟨c, rfl, hc⟩, rfl | ⟨_, _, ⟨o, rfl, ho⟩, hv, rfl⟩, rfl⟩ := h
  · exact .inl ⟨c, hc.rule, rfl⟩
  · rcases hv with ⟨v, rfl, hv⟩ | ⟨v, rfl, hv⟩
    · exact .inr ⟨c, o, v, hc.rule, ho, .inl hv.rule, rfl⟩
    · exact .inr ⟨c, o, v, hc.rule, ho, .inr hv.rule, rfl⟩

theorem shape_conditional (h : Leaves grammar .loose (body .conditional) ps) :
    (∃ c, c.rule = .coalesce ∧ ps = [c]) ∨
      ∃ c o y n, c.rule = .coalesce ∧ o.rule = .ternaryOp ∧ y.rule = .expression ∧
        n.rule = .expression ∧ ps = [c, o, y, n] := by
  simp (disch := decide) only [body, all, leaves_seq, leaves_opt, leaves_text, leaves_piece] at h
  obtain ⟨_, _, ⟨c, rfl, hc⟩, rfl | h, rfl⟩ := h
  · exact .inl ⟨c, hc.rule, rfl⟩
  · obtain ⟨_, _, ⟨o, rfl, ho⟩, ⟨_, _, ⟨y, rfl, hy⟩, ⟨_, _, rfl, ⟨n, rfl, hn⟩, rfl⟩, rfl⟩, rfl⟩ := h
    exact .inr ⟨c, o, y, n, hc.rule, ho.rule, hy.rule, hn.rule, rfl⟩

theorem shape_unary (h : Leaves grammar .loose (body .unary) ps) :
    (∃ o p, (o.rule = .prefixOp ∨ o.rule = .cast) ∧ p.rule = .unary ∧ ps = [o, p]) ∨
      ∃ p, p.rule = .postfixExpr ∧ ps = [p] := by
  simp only [body, any, all, leaves_alt] at h
  rcases h with h | h | h
  · obtain ⟨o, p, ho, hp, rfl⟩ := leaves_pair (by decide) (by decide) h
    exact .inl ⟨o, p, .inl ho.rule, hp, rfl⟩
  · obtain ⟨o, p, ho, hp, rfl⟩ := leaves_pair (by decide) (by decide) h
    exact .inl ⟨o, p, .inr ho.rule, hp, rfl⟩
  · obtain ⟨p, rfl, hp⟩ := (leaves_piece (by decide)).1 h
    exact .inr ⟨p, hp.rule, rfl⟩

end

end PanelSchema.Source
