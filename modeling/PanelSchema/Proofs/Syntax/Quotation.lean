import PanelSchema.Proofs.Source.Literals
import PanelSchema.Proofs.Syntax.Chains

/-!
Text literals. A literal ends at the first quotation mark that no backslash takes with it, so the
text between the marks decides alone where that is. A field whose value is an ordinary literal has
the text that was escaped in it.
-/

namespace PanelSchema.Syntax

open Source (Rule Identifier Solid Content grammar layer)
open Grammar Build Reading

/-! ### A value of one operand -/

/-- The piece is read as a primary expression of that kind, and nothing is applied to it. -/
def ReadsPrimary (P : Piece Rule → Prop) (p : Piece Rule) : Prop :=
  ∃ q, P q ∧ ∀ file, (ofPiece file p).expr = Build.primary (ofPiece file q)

section

variable {v : List Char} {P : Piece Rule → Prop}
  (hprimary : Takes grammar .loose (.rule .primary) v closing (Single P))
  (hplain : ∀ p, P p → p.rule ≠ .genericName)
  (hsign : Refuses grammar .loose (.rule .prefixOp) (v ++ closing))
  (hcast : Refuses grammar .loose (.rule .cast) (v ++ closing))

include hprimary hplain hsign hcast

theorem takes_unary_lone :
    Takes grammar .loose (.rule .unary) v closing (Single (ReadsPrimary P)) := by
  have hsuffix : Refuses grammar .loose (.rule .postfixOp) closing :=
    refuses_closing 20 (by decide)
  have hpostfix : Takes grammar .loose (.rule .postfixExpr) v closing _ :=
    Source.takes_plain rfl (Source.takes_alone hprimary solid_closing hsuffix.many)
  have hunary : Takes grammar .loose (.rule .unary) v closing _ :=
    Source.takes_plain rfl (.right hsign.seq (.right hcast.seq hpostfix))
  refine hunary.mono ?_
  rintro _ ⟨p, rfl, hp, -, q, hq, hpostfix, -, r, hr, hP⟩
  refine ⟨p, rfl, r, hP, fun file => ?_⟩
  rw [expr_ofPiece, hp, hq]
  simp [Build.expression, Build.unary, hpostfix, Build.suffixed, hr, hplain r hP, Build.suffixes]

theorem takes_layer_lone {k : Nat} (hk : k ≤ 10) :
    Takes grammar .loose (.rule (layer k)) v closing (Single (ReadsPrimary P)) := by
  induction hk using Nat.decreasingInduction with
  | self => exact takes_unary_lone hprimary hplain hsign hcast
  | of_succ k hk ih =>
    have hoperator : Refuses grammar .loose (.rule (Source.operatorRule k)) (onward []) :=
      refuses_operator hk nofun
    have hbody : Takes grammar .loose (Source.body (layer k)) v closing
        (Single (ReadsPrimary P)) := by
      rw [Source.body_of_level (Source.level?_layer hk)]
      exact Source.takes_alone ih solid_closing hoperator.seq.many
    refine (Source.takes_plain (Source.style_layer k) hbody).mono ?_
    rintro _ ⟨p, rfl, hp, -, q, hq, r, hr, hread⟩
    refine ⟨p, rfl, r, hr, fun file => ?_⟩
    rw [expr_ofPiece, hp, hq, expression_layer hk, List.map_singleton, Build.binary, hread]
    simp [Build.chain]

theorem takes_expression_lone :
    Takes grammar .loose (.rule .expression) v closing
      (Single fun p => p.rule = .expression ∧ ReadsPrimary P p) := by
  have hchain := takes_layer_lone hprimary hplain hsign hcast (Nat.zero_le 10)
  have hternary : Refuses grammar .loose (.rule .ternaryOp) closing :=
    refuses_closing 20 (by decide)
  have hassign : Refuses grammar .loose (.rule .assignOp) closing :=
    refuses_closing 20 (by decide)
  have hconditional : Takes grammar .loose (.rule .conditional) v closing _ :=
    Source.takes_plain rfl (Source.takes_alone hchain solid_closing hternary.seq.opt)
  have hexpression : Takes grammar .loose (.rule .expression) v closing _ :=
    Source.takes_plain rfl (Source.takes_alone hconditional solid_closing hassign.seq.opt)
  refine hexpression.mono ?_
  rintro _ ⟨p, rfl, hrule, -, q, hq, -, -, r, hr, s, hs, hread⟩
  refine ⟨p, rfl, hrule, s, hs, fun file => ?_⟩
  rw [expr_ofPiece, hrule]
  simp [Build.expression, Build.conditional, hq, hr, hread]

end

/-! ### Literals -/

/-- A literal with that content. Behind an at sign it is taken as it stands. -/
def quotation (raw : Bool) (w : List Char) : List Char :=
  (if raw then ['@'] else []) ++ (['"'] ++ (w ++ ['"']))

theorem fits_quotation (raw : Bool) (w rest : List Char) :
    Fits false ((if raw then ['@', '"'] else ['"']).map .exactly) (quotation raw w ++ rest) := by
  cases raw with
  | true => exact .known ['@', '"'] (w ++ ['"'] ++ rest)
  | false => exact .known ['"'] (w ++ ['"'] ++ rest)

theorem refuses_quotation (fuel : Nat) {sp : Spacing} {phrase : Phrase Rule}
    (hraw : grammar.glance false fuel sp phrase (['@', '"'].map .exactly) = .refused)
    (hplain : grammar.glance false fuel sp phrase (['"'].map .exactly) = .refused)
    (raw : Bool) (w rest : List Char) : Refuses grammar sp phrase (quotation raw w ++ rest) := by
  refine refuses_of_glance fuel (fits_quotation raw w rest) ?_
  cases raw with
  | true => exact hraw
  | false => exact hplain

def IsQuotation (raw : Bool) (w : List Char) (p : Piece Rule) : Prop :=
  Covers .stringLiteral (quotation raw w) (Single (Covers .stringInner w Bare)) p

theorem takes_quotation {w : List Char} (hw : Content w) (raw : Bool) (rest : List Char) :
    Takes grammar .loose (.rule .stringLiteral) (quotation raw w) rest
      (Single (IsQuotation raw w)) := by
  have hinner : Takes grammar .compound (.rule .stringInner) w (['"'] ++ rest)
      (Single (Covers .stringInner w Bare)) :=
    .piece (by decide) (by decide) (Source.takes_content hw (Source.refuses_quote (by decide) rest))
  have hmarked := (takes_text ['"'] _).tight (by decide)
    (hinner.tight (by decide) (takes_text ['"'] rest))
  rw [then_bare, bare_then] at hmarked
  have hfits : Fits false [.exactly '"'] (['"'] ++ (w ++ ['"']) ++ rest) :=
    .known ['"'] _
  have hsign : Takes grammar .compound
      (.opt (.alt (.text ['$', '@']) (.alt (.text ['@', '$']) (.alt (.text ['@']) (.text ['$'])))))
      (if raw then ['@'] else []) (['"'] ++ (w ++ ['"']) ++ rest) Bare := by
    cases raw with
    | true => exact takes_of_glance 20 hfits (by decide)
    | false => exact takes_of_glance 20 hfits (by decide)
  have hbody := hsign.tight (by decide) hmarked
  rw [bare_then] at hbody
  exact .piece (by decide) (by decide) hbody

theorem takesValue_quotation {w : List Char} (hw : Content w) (raw : Bool) :
    TakesValue (quotation raw w) (ReadsPrimary (IsQuotation raw w)) where
  solid := ⟨refuses_quotation 20 (by decide) (by decide) raw w _,
    refuses_quotation 20 (by decide) (by decide) raw w _⟩
  not_list := refuses_quotation 20 (by decide) (by decide) raw w _
  takes :=
    takes_expression_lone (.silent rfl (takes_quotation hw raw closing).left)
      (fun p hp => by rw [hp.rule]; decide)
      (refuses_quotation 20 (by decide) (by decide) raw w _)
      (refuses_quotation 20 (by decide) (by decide) raw w _)

/-- The text that a literal with that content stands for. -/
def quotedText (raw : Bool) (w : List Char) : String :=
  String.ofList (if raw then w else unescape w)

theorem yields_quotation {raw : Bool} {w : List Char} {file : String} {p : Piece Rule}
    (h : ReadsPrimary (IsQuotation raw w) p) :
    (ofPiece file p).expr.Yields fun e => ∃ m, e = .string m (quotedText raw w) := by
  obtain ⟨q, ⟨hrule, hchars, r, hr, hinner⟩, hread⟩ := h
  have htext : textOf (ofPiece file q) = quotedText raw w := by
    cases raw <;> simp [textOf, quotedText, quotation, hchars, hr, hinner.chars]
  rw [hread]
  unfold Build.primary
  simp only [rule_ofPiece, hrule, htext]
  exact yields_marked _ fun m => ⟨m, rfl⟩

theorem parse_quotation (file : String) (f : FieldFrame) (raw : Bool) {w : List Char}
    (hw : Content w) :
    ∃ tree m m' m'',
      (parse file (f.around (quotation raw w))).result = .ok tree ∧
      tree.body = [.classDecl m [] (String.ofList f.owner.text)
        [.field m' [] [] (String.ofList f.type.text) (String.ofList f.name.text)
          (some (.string m'' (quotedText raw w)))]] := by
  obtain ⟨tree, m, m', e, hparse, hbody, m'', rfl⟩ :=
    FieldFrame.parse_around (fun p hp => yields_quotation hp) f (takesValue_quotation hw raw)
  exact ⟨tree, m, m', m'', hparse, hbody⟩

/-! ### Escapes -/

/-- The letter that stands for a character behind a backslash. -/
def letterFor? : Char → Option Char
  | '\n' => some 'n'
  | '\t' => some 't'
  | '\r' => some 'r'
  | '\x00' => some '0'
  | _ => none

/-- A character as it is written in an ordinary literal. One that has a letter may be written by
it. -/
def writtenChar (byLetter : Bool) (x : Char) : List Char :=
  if x = '\\' ∨ x = '"' then ['\\', x]
  else
    match (if byLetter then letterFor? x else none) with
    | some letter => ['\\', letter]
    | none => [x]

/-- A text as it is written in an ordinary literal. For each place in it is told whether a
character that has a letter is written by it. -/
def escaped (byLetter : Nat → Bool) : List Char → List Char
  | [] => []
  | x :: s => writtenChar (byLetter 0) x ++ escaped (fun i => byLetter (i + 1)) s

theorem unescape_other {x : Char} (hx : x ≠ '\\') (w : List Char) :
    unescape (x :: w) = x :: unescape w := by
  rw [unescape]
  · exact fun h _ => hx h
  · exact fun _ _ h _ => hx h

/-- A written character is a backslash with one that stands for it, or the character itself, if
that ends nothing and takes nothing with it. -/
theorem writtenChar_cases (byLetter : Bool) (x : Char) :
    (∃ y, writtenChar byLetter x = ['\\', y] ∧ ∀ w, unescape ('\\' :: y :: w) = x :: unescape w) ∨
      writtenChar byLetter x = [x] ∧ x ≠ '\\' ∧ x ≠ '"' := by
  unfold writtenChar
  split
  · rename_i hx
    refine .inl ⟨x, rfl, fun w => ?_⟩
    rcases hx with rfl | rfl <;> rfl
  · rename_i hx
    rw [not_or] at hx
    cases hletter : (if byLetter then letterFor? x else none) with
    | none => exact .inr ⟨rfl, hx⟩
    | some letter =>
      refine .inl ⟨letter, rfl, fun w => ?_⟩
      cases byLetter with
      | false => cases hletter
      | true =>
        rw [if_pos rfl] at hletter
        unfold letterFor? at hletter
        split at hletter <;> cases hletter <;> rfl

theorem content_escaped (byLetter : Nat → Bool) (s : List Char) : Content (escaped byLetter s) := by
  induction s generalizing byLetter with
  | nil => exact .nil
  | cons x s ih =>
    rw [escaped]
    rcases writtenChar_cases (byLetter 0) x with ⟨y, hy, -⟩ | ⟨hx, hbackslash, hmark⟩
    · rw [hy]
      exact .escape y (ih _)
    · rw [hx]
      exact .plain hbackslash hmark (ih _)

theorem unescape_escaped (byLetter : Nat → Bool) (s : List Char) :
    unescape (escaped byLetter s) = s := by
  induction s generalizing byLetter with
  | nil => rfl
  | cons x s ih =>
    rw [escaped]
    rcases writtenChar_cases (byLetter 0) x with ⟨y, hy, hread⟩ | ⟨hx, hbackslash, -⟩
    · rw [hy, List.cons_append, List.cons_append, List.nil_append, hread, ih]
    · rw [hx, List.singleton_append, unescape_other hbackslash, ih]

/-- A field whose value is a text in an ordinary literal is read, whatever the text is and
whichever of its characters are written by their letters. Its value is that text. -/
theorem parse_escaped (file : String) (f : FieldFrame) (byLetter : Nat → Bool) (s : String) :
    ∃ tree m m' m'',
      (parse file (f.around ('"' :: (escaped byLetter s.toList ++ ['"'])))).result = .ok tree ∧
      tree.body = [.classDecl m [] (String.ofList f.owner.text)
        [.field m' [] [] (String.ofList f.type.text) (String.ofList f.name.text)
          (some (.string m'' s))]] := by
  have h := parse_quotation file f false (content_escaped byLetter s.toList)
  have htext : quotedText false (escaped byLetter s.toList) = s := by
    simp [quotedText, unescape_escaped]
  rwa [htext] at h

/-- Every escape, with what ends a literal, a field and a class, and what starts a comment. -/
theorem parse_escaped_marks :
    ∃ tree m m' m'',
      (parse "K.cs" "class K \x7b T f = \"\\\\\\\"; \x7d // /*\\n\\t\\r\\0\\\\\"; \x7d").result =
        .ok tree ∧
      tree.body = [.classDecl m [] "K"
        [.field m' [] [] "T" "f" (some (.string m'' "\\\"; \x7d // /*\n\t\r\x00\\"))]] :=
  parse_escaped "K.cs" smallFrame (fun _ => true) "\\\"; \x7d // /*\n\t\r\x00\\"

end PanelSchema.Syntax
