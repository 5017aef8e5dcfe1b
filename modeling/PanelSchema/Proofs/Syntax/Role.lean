import PanelSchema.Proofs.Syntax.Agreement
import PanelSchema.Proofs.Syntax.Build
import PanelSchema.Proofs.Syntax.Fault

/-!
The roles in which the pieces of a source are read, for two pieces of the same rules that are
nested in the same way. What a piece is read from is known by the outline of its rule: its pieces
come in a fixed order, or there is at most one of a kind. Where the texts that are kept differ no
more than a latitude allows, so do the trees that are built.
-/

namespace PanelSchema.Syntax

open Source (Rule Outline grammar style body outline statementRules textRules)
open Grammar

namespace Reading

variable {file : String}

@[simp] theorem ofPieces_eq_map (ps : List (Piece Rule)) :
    ofPieces file ps = ps.map (ofPiece file) := by
  induction ps with
  | nil => rw [ofPieces, List.map_nil]
  | cons p ps ih => rw [ofPieces, List.map_cons, ih]

theorem ofPiece_eq (p : Piece Rule) :
    ofPiece file p = step file p (p.inner.map (ofPiece file)) := by
  rw [← ofPieces_eq_map]
  cases p
  rw [ofPiece]

@[simp] theorem rule_ofPiece (p : Piece Rule) : (ofPiece file p).rule = p.rule := by
  rw [ofPiece_eq]
  rfl

@[simp] theorem piece_ofPiece (p : Piece Rule) : (ofPiece file p).piece = p := by
  rw [ofPiece_eq]
  rfl

@[simp] theorem inner_ofPiece (p : Piece Rule) :
    (ofPiece file p).inner = p.inner.map (ofPiece file) := by
  rw [ofPiece_eq]
  rfl

@[simp] theorem span_ofPiece (p : Piece Rule) : (ofPiece file p).span = p.span file := by
  rw [ofPiece_eq]
  rfl

theorem expr_ofPiece (p : Piece Rule) :
    (ofPiece file p).expr =
      Build.expression (p.span file) p.rule (p.inner.map (ofPiece file)) := by
  rw [ofPiece_eq]
  rfl

theorem unary_ofPiece (p : Piece Rule) :
    (ofPiece file p).unary = Build.unary (p.span file) (p.inner.map (ofPiece file)) := by
  rw [ofPiece_eq]
  rfl

theorem stmt_ofPiece (p : Piece Rule) :
    (ofPiece file p).stmt =
      Build.statement (p.span file) p (p.inner.map (ofPiece file)) := by
  rw [ofPiece_eq]
  rfl

theorem decl_ofPiece (p : Piece Rule) :
    (ofPiece file p).decl? =
      Build.declaration? (p.span file) p (p.inner.map (ofPiece file)) := by
  rw [ofPiece_eq]
  rfl

end Reading

open Build Reading

def operandRules : List Rule :=
  [.expression, .arrayInitializer, .conditional, .coalesce, .logicalOr, .logicalAnd, .bitwiseOr,
    .bitwiseXor, .bitwiseAnd, .equality, .relational, .additive, .multiplicative, .unary]

def exactRules : List Rule :=
  [.identifier, .qualifiedName, .number, .boolean, .charLiteral, .modifier, .skippedStmt, .prefixOp,
    .assignOp, .opCoalesce, .opOr, .opAnd, .opBitOr, .opXor, .opBitAnd, .opEquality, .opRelational,
    .opAdditive, .opMultiplicative]

/-- Rules of what has types that are not kept. -/
def untypedRules : List Rule :=
  [.baseList, .enumDecl]

def primaryRules : List Rule :=
  [.stringLiteral, .charLiteral, .number, .boolean, .nullLiteral, .typeofExpr, .newExpr,
    .expression, .genericName, .identifier]

def suffixRules : List Rule :=
  [.memberAccess, .callArgs, .indexAccess, .postfixInc, .postfixDec]

def declarationRules : List Rule :=
  [.namespaceDecl, .typeDecl, .methodDecl, .fieldDecl]

theorem leaves_of_shaped {r : Rule} {p : Piece Rule} (h : Shaped grammar .loose p)
    (hrule : p.rule = r) (hplain : style r = .plain) :
    Leaves grammar .loose (body r) p.inner ∧ ∀ q ∈ p.inner, Shaped grammar .loose q := by
  have hspacing : innerSpacing (grammar.style p.rule) .loose = .loose := by
    have hstyle : grammar.style p.rule = .plain := hrule ▸ hplain
    rw [hstyle]
    rfl
  cases h with
  | mk h hinner =>
    have hleaves := h.inner
    rw [hspacing] at hleaves hinner
    rw [hrule] at hleaves
    exact ⟨hleaves, hinner⟩

/-- The texts that are kept of two readings. -/
structure Bond (l : Latitude) (r r' : Reading) : Prop where
  types : r.rule ∉ untypedRules →
    List.Forall₂ (fun x x' => x.rule = .typeName → l x.typeText x'.typeText) r.inner r'.inner
  exact : r.rule ∈ exactRules → r'.piece.chars = r.piece.chars
  literal : r.rule = .stringLiteral → textOf r' = textOf r

theorem Bond.text_eq {l : Latitude} {r r' : Reading} (h : Bond l r r') (hr : r.rule ∈ exactRules) :
    r'.text = r.text := by
  rw [Reading.text, Reading.text, Piece.text, Piece.text, h.exact hr]

/-- In each role both readings succeed where the first is clean, with trees that agree. -/
structure Roles (l : Latitude) (r r' : Reading) : Prop where
  expr : r.rule ∈ operandRules → Meets (Clean r.piece) (Expr.Agree l) r.expr r'.expr
  unary : r.rule = .unary → Meets (Clean r.piece) (Expr.Agree l) r.unary r'.unary
  stmt : r.rule ∈ statementRules → Meets (Clean r.piece) (Stmt.Agree l) r.stmt r'.stmt
  /-- What stands for a missing first branch is no statement. -/
  otherwise : r.rule = .elseClause → Meets False (Stmt.Agree l) r.stmt r'.stmt
  decl : r.rule ∈ declarationRules → ∃ b b', r.decl? = some b ∧ r'.decl? = some b' ∧
    Meets (Clean r.piece) (Decl.Agree l) b b'
  text : r.rule ∈ textRules → r.decl? = none ∧ r'.decl? = none

/-- Readings of one rule that build alike in every role. Below a token nothing is asked for. -/
inductive Twin (l : Latitude) : Reading → Reading → Prop where
  | mk {r r' : Reading} (hrule : r'.rule = r.rule) (hbond : Bond l r r')
      (hshaped : Shaped grammar .loose r.piece) (hpieces : r.piece.inner = r.inner.map (·.piece))
      (hinner : style r.rule = .plain → List.Forall₂ (Twin l) r.inner r'.inner)
      (hroles : Roles l r r') : Twin l r r'

/-- What is known of two readings before their roles are. -/
structure Kith (l : Latitude) (r r' : Reading) : Prop where
  rule : r'.rule = r.rule
  bond : Bond l r r'
  shaped : Shaped grammar .loose r.piece
  pieces : r.piece.inner = r.inner.map (·.piece)
  inner : style r.rule = .plain → List.Forall₂ (Twin l) r.inner r'.inner

/-- Readings of a rule that is no token. -/
structure Known (l : Latitude) (k : Rule) (r r' : Reading) : Prop where
  rule : r.piece.rule = k
  rule' : r'.piece.rule = k
  bond : Bond l r r'
  pieces : r.piece.inner = r.inner.map (·.piece)
  leaves : Leaves grammar .loose (body k) (r.inner.map (·.piece))
  shaped : ∀ x ∈ r.inner, Shaped grammar .loose x.piece
  twins : List.Forall₂ (Twin l) r.inner r'.inner

section

variable {l : Latitude} {r r' : Reading} {k : Rule}

theorem Known.types (h : Known l k r r') (hk : k ∉ untypedRules) :
    List.Forall₂ (fun x x' => x.rule = .typeName → l x.typeText x'.typeText) r.inner r'.inner :=
  h.bond.types (show r.piece.rule ∉ _ from h.rule ▸ hk)

theorem Kith.known (h : Kith l r r') (hr : r.rule = k) (hplain : style k = .plain) :
    Known l k r r' where
  rule := hr
  rule' := h.rule.trans hr
  bond := h.bond
  pieces := h.pieces
  leaves := h.pieces ▸ (leaves_of_shaped h.shaped hr hplain).1
  shaped := by
    have hshaped := (leaves_of_shaped h.shaped hr hplain).2
    rwa [h.pieces, List.forall_mem_map] at hshaped
  twins := h.inner (hr ▸ hplain)

namespace Twin

theorem kith (h : Twin l r r') : Kith l r r' := by
  cases h with
  | mk hrule hbond hshaped hpieces hinner => exact ⟨hrule, hbond, hshaped, hpieces, hinner⟩

theorem rule (h : Twin l r r') : r'.rule = r.rule :=
  h.kith.rule

theorem bond (h : Twin l r r') : Bond l r r' :=
  h.kith.bond

theorem roles (h : Twin l r r') : Roles l r r' := by
  cases h with
  | mk _ _ _ _ _ hroles => exact hroles

theorem known (h : Twin l r r') (hr : r.rule = k) (hplain : style k = .plain) : Known l k r r' :=
  h.kith.known hr hplain

theorem clean (h : Twin l r r') (hr : r.rule ∈ textRules) : Clean r.piece :=
  clean_text h.kith.shaped hr

theorem stmt (h : Twin l r r') (hr : r.rule ∈ statementRules) :
    Meets (Clean r.piece) (Stmt.Agree l) r.stmt r'.stmt :=
  h.roles.stmt hr

theorem value (h : Twin l r r') (hr : r.rule ∈ [.arrayInitializer, .expression]) :
    Meets (Clean r.piece) (Expr.Agree l) r.expr r'.expr := by
  have hvalues : ∀ k ∈ [Rule.arrayInitializer, .expression], k ∈ operandRules := by decide
  exact h.roles.expr (hvalues r.rule hr)

theorem expr (h : Twin l r r') (hr : r.rule = .expression) :
    Meets (Clean r.piece) (Expr.Agree l) r.expr r'.expr :=
  h.value (by simp [hr])

end Twin

/-! ### Readings of an outline -/

def Twins (l : Latitude) (o : Outline) (rs rs' : List Reading) : Prop :=
  o.Fits (rs.map (·.piece)) ∧ List.Forall₂ (Twin l) rs rs'

variable {o : Outline} {ks : List Rule} {rs rs' : List Reading}

theorem twins_nil : Twins l [] rs rs' ↔ rs = [] ∧ rs' = [] := by
  constructor
  · rintro ⟨hfits, h⟩
    cases h with
    | nil => exact ⟨rfl, rfl⟩
    | cons => cases hfits
  · rintro ⟨rfl, rfl⟩
    exact ⟨.nil, .nil⟩

theorem twins_one : Twins l (⟨.one, ks⟩ :: o) rs rs' ↔
    ∃ x x' xs xs', x.rule ∈ ks ∧ Twin l x x' ∧ Twins l o xs xs' ∧ rs = x :: xs ∧ rs' = x' :: xs' := by
  constructor
  · rintro ⟨hfits, h⟩
    cases h with
    | nil => cases hfits
    | cons hx h =>
      cases hfits with
      | one hrule hfits => exact ⟨_, _, _, _, hrule, hx, ⟨hfits, h⟩, rfl, rfl⟩
  · rintro ⟨x, x', xs, xs', hrule, hx, ⟨hfits, h⟩, rfl, rfl⟩
    exact ⟨.one hrule hfits, .cons hx h⟩

theorem twins_atMostOne : Twins l (⟨.atMostOne, ks⟩ :: o) rs rs' ↔
    Twins l o rs rs' ∨ Twins l (⟨.one, ks⟩ :: o) rs rs' := by
  unfold Twins
  simp [or_and_right]

theorem Twins.imp {o' : Outline} (h : Twins l (⟨.one, ks⟩ :: o) rs rs')
    (himp : ∀ xs xs', Twins l o xs xs' → Twins l o' xs xs') :
    Twins l (⟨.one, ks⟩ :: o') rs rs' := by
  obtain ⟨x, x', xs, xs', hrule, hx, h, hrs⟩ := twins_one.1 h
  exact twins_one.2 ⟨x, x', xs, xs', hrule, hx, himp xs xs' h, hrs⟩

theorem twins_several : Twins l [⟨.several, ks⟩] rs rs' ↔
    List.Forall₂ (fun x x' => x.rule ∈ ks ∧ Twin l x x') rs rs' := by
  have hrules : (∀ x ∈ rs, x.rule ∈ ks) ↔ ∀ p ∈ rs.map (·.piece), p.rule ∈ ks := by
    simp [Reading.rule]
  rw [List.forall₂_and_left, hrules]
  unfold Twins
  simp

theorem Twins.of_concat (h : Twins l (o ++ [⟨.one, ks⟩]) rs rs') :
    ∃ xs xs' y y', o.Fits (xs.map (·.piece)) ∧ y.rule ∈ ks ∧ Twin l y y' ∧ rs = xs ++ [y] ∧
      rs' = xs' ++ [y'] := by
  obtain ⟨hfits, h⟩ := h
  obtain ⟨ps, qs, hps, hqs, hsplit⟩ := hfits.of_append
  obtain ⟨xs, ys, rfl, rfl, rfl⟩ := List.map_eq_append_iff.1 hsplit
  have hys := List.forall₂_drop xs.length h
  rw [List.drop_left] at hys
  obtain ⟨y, y', _, _, hrule, hy, hnil, rfl, hdrop⟩ := twins_one.1 ⟨hqs, hys⟩
  obtain ⟨rfl, rfl⟩ := twins_nil.1 hnil
  refine ⟨xs, rs'.take xs.length, y, y', hps, hrule, hy, rfl, ?_⟩
  rw [← hdrop, List.take_append_drop]

def Over (l : Latitude) (ps : List (Piece Rule)) (rs rs' : List Reading) : Prop :=
  rs.map (·.piece) = ps ∧ List.Forall₂ (Twin l) rs rs'

theorem over_nil : Over l [] rs rs' ↔ rs = [] ∧ rs' = [] := by
  constructor
  · rintro ⟨hps, h⟩
    cases h with
    | nil => exact ⟨rfl, rfl⟩
    | cons => cases hps
  · rintro ⟨rfl, rfl⟩
    exact ⟨rfl, .nil⟩

theorem over_cons {p : Piece Rule} {ps : List (Piece Rule)} : Over l (p :: ps) rs rs' ↔
    ∃ x x' xs xs', x.piece = p ∧ Twin l x x' ∧ Over l ps xs xs' ∧ rs = x :: xs ∧
      rs' = x' :: xs' := by
  constructor
  · rintro ⟨hps, h⟩
    cases h with
    | nil => cases hps
    | cons hx h =>
      obtain ⟨hp, hps⟩ := List.cons.inj hps
      exact ⟨_, _, _, _, hp, hx, ⟨hps, h⟩, rfl, rfl⟩
  · rintro ⟨x, x', xs, xs', rfl, hx, ⟨rfl, h⟩, rfl, rfl⟩
    exact ⟨rfl, .cons hx h⟩

namespace Known

variable (h : Known l k r r')

include h

theorem laid (ho : outline (body k) = o) : Twins l o r.inner r'.inner :=
  ⟨ho ▸ Source.fits_outline h.leaves, h.twins⟩

theorem mem_rules (hks : (outline (body k)).flatMap (·.rules) = ks) :
    ∀ x ∈ r.inner, x.rule ∈ ks := by
  intro x hx
  exact hks ▸ (h.laid rfl).1.mem_rules x.piece (List.mem_map_of_mem hx)

theorem each (good : Rule → Bool)
    (hgood : ((outline (body k)).flatMap (·.rules)).all good = true) :
    List.Forall₂ (fun x x' => good x.rule = true ∧ Twin l x x') r.inner r'.inner :=
  (List.forall₂_and_left _ _).2
    ⟨fun x hx => List.all_eq_true.1 hgood _ (h.mem_rules rfl x hx), h.twins⟩

theorem every {k' : Rule} (hrules : ((outline (body k)).flatMap (·.rules)).all (· == k') = true)
    (hplain : style k' = .plain) : List.Forall₂ (Known l k') r.inner r'.inner :=
  (h.each (· == k') hrules).imp fun _ _ hx => hx.2.known (by simpa using hx.1) hplain

theorem clean_whole (hk : k ∉ .number :: .parameterList :: .indexAccess :: governingRules) :
    Clean r.piece ↔ ∀ x ∈ r.inner, Clean x.piece := by
  rw [Syntax.clean_whole (h.rule ▸ hk), h.pieces, List.forall_mem_map]

theorem clean_governing (hk : k ∈ governingRules) :
    Clean r.piece ↔
      (∃ x ∈ r.inner, x.rule ∈ statementRules) ∧ ∀ x ∈ r.inner, Clean x.piece := by
  rw [Syntax.clean_governing (h.rule ▸ hk), h.pieces, List.forall_mem_map]
  simp [Reading.rule]

end Known

/-! ### Readings of a kind -/

theorem find_cases {R : Reading → Reading → Prop} (h : List.Forall₂ R rs rs')
    (hR : ∀ x x', R x x' → x'.rule = x.rule) (kind : Rule → Bool) :
    rs.find? (fun x => kind x.rule) = none ∧ rs'.find? (fun x => kind x.rule) = none ∨
      ∃ x x', x ∈ rs ∧ kind x.rule = true ∧ R x x' ∧
        rs.find? (fun x => kind x.rule) = some x ∧ rs'.find? (fun x => kind x.rule) = some x' := by
  induction h with
  | nil => exact .inl ⟨rfl, rfl⟩
  | @cons x x' _ _ hx _ ih =>
    rw [List.find?_cons, List.find?_cons, hR x x' hx]
    cases hkind : kind x.rule with
    | true => exact .inr ⟨x, x', List.mem_cons_self, hkind, hx, rfl, rfl⟩
    | false =>
      rcases ih with hnone | ⟨y, y', hy, hfound⟩
      · exact .inl hnone
      · exact .inr ⟨y, y', List.mem_cons_of_mem _ hy, hfound⟩

section

variable {α β : Type} {S : β → β → Prop} (h : Known l k r r') (kind : Rule → Bool)

include h

theorem Known.clean_found (hone : (outline (body k)).holdsAtMostOne kind = true) {x : Reading}
    (hx : x ∈ r.inner) (hkind : kind x.rule = true) :
    Clean x.piece ↔ ∀ y ∈ r.inner, kind y.rule = true → Clean y.piece := by
  constructor
  · intro hclean y hy hkind'
    have heq : y.piece = x.piece := (h.laid rfl).1.eq_of_holdsAtMostOne hone _
      (List.mem_map_of_mem hy) _ (List.mem_map_of_mem hx) hkind' hkind
    rwa [heq]
  · intro hall
    exact hall x hx hkind

theorem Known.found {f : Reading → Build β}
    (hone : (outline (body k)).holdsAtMostOne kind = true)
    (hf : ∀ x x', Twin l x x' → x.rule ∈ (outline (body k)).flatMap (·.rules) →
      kind x.rule = true → Meets (Clean x.piece) S (f x) (f x')) :
    Meets (∀ x ∈ r.inner, kind x.rule = true → Clean x.piece) (Option.Rel S)
      ((r.inner.find? fun x => kind x.rule).mapM f)
      ((r'.inner.find? fun x => kind x.rule).mapM f) := by
  rcases find_cases h.twins (fun _ _ => Twin.rule) kind with
    ⟨hnone, hnone'⟩ | ⟨x, x', hx, hkind, htwin, hfound, hfound'⟩
  · rw [hnone, hnone']
    rw [List.find?_eq_none] at hnone
    exact (meets_pure .none).of_iff
      ⟨fun _ x hx hkind => absurd hkind (hnone x hx), fun _ => trivial⟩
  · rw [hfound, hfound', Option.mapM_some, Option.mapM_some]
    have hmeets := hf x x' htwin (h.mem_rules rfl x hx) hkind
    exact (hmeets.map fun _ _ => .some).of_iff (h.clean_found kind hone hx hkind)

theorem Known.exists_found (hsome : (outline (body k)).holdsOne kind = true)
    {R : Reading → Reading → Prop} (hR : List.Forall₂ R r.inner r'.inner) :
    ∃ x x', x ∈ r.inner ∧ kind x.rule = true ∧ Twin l x x' ∧ R x x' ∧
      r.inner.find? (fun x => kind x.rule) = some x ∧
      r'.inner.find? (fun x => kind x.rule) = some x' := by
  have hboth : List.Forall₂ (fun x x' => Twin l x x' ∧ R x x') r.inner r'.inner :=
    List.Forall₂.mp (fun _ _ hx hR => ⟨hx, hR⟩) h.twins hR
  obtain ⟨p, hp, hkind⟩ := (h.laid rfl).1.exists_of_holdsOne hsome
  obtain ⟨x, hx, rfl⟩ := List.mem_map.1 hp
  rcases find_cases hboth (fun _ _ hx => hx.1.rule) kind with
    ⟨hnone, -⟩ | ⟨y, y', hy, hkind', ⟨htwin, hrelated⟩, hfound⟩
  · exact absurd hkind (List.find?_eq_none.1 hnone x hx)
  · exact ⟨y, y', hy, hkind', htwin, hrelated, hfound⟩

theorem Known.clean_iff_kinds (kind' : Rule → Bool)
    (hwhole : k ∉ .number :: .parameterList :: .indexAccess :: governingRules)
    (hrules : ((outline (body k)).flatMap (·.rules)).all (fun r =>
      kind r || kind' r || textRules.contains r || r == .parameterList) = true) :
    (∀ x ∈ r.inner, kind x.rule = true → Clean x.piece) ∧
      (∀ x ∈ r.inner, kind' x.rule = true → Clean x.piece) ↔ Clean r.piece := by
  rw [h.clean_whole hwhole]
  constructor
  · rintro ⟨hkind, hkind'⟩ x hx
    have hrule := List.all_eq_true.1 hrules x.rule (h.mem_rules rfl x hx)
    simp only [Bool.or_eq_true, List.contains_iff_mem, beq_iff_eq] at hrule
    rcases hrule with ((hrule | hrule) | htext) | hlist
    · exact hkind x hx hrule
    · exact hkind' x hx hrule
    · exact clean_text (h.shaped x hx) htext
    · exact clean_parameterList hlist
  · exact fun hall => ⟨fun x hx _ => hall x hx, fun x hx _ => hall x hx⟩

end

theorem meets_filterMap {α α' β β' : Type} {S : β → β' → Prop} {f : α → Build β}
    {f' : α' → Build β'} {g : Reading → Option α} {g' : Reading → Option α'}
    (h : List.Forall₂ (fun x x' => g x = none ∧ g' x' = none ∧ Clean x.piece ∨
      ∃ a a', g x = some a ∧ g' x' = some a' ∧ Meets (Clean x.piece) S (f a) (f' a')) rs rs') :
    Meets (∀ x ∈ rs, Clean x.piece) (List.Forall₂ S) ((rs.filterMap g).mapM f)
      ((rs'.filterMap g').mapM f') := by
  induction h with
  | nil => exact (meets_pure .nil).of_iff (by simp)
  | cons hx _ ih =>
    rw [List.forall_mem_cons]
    rcases hx with ⟨hnone, hnone', hclean⟩ | ⟨a, a', ha, ha', hmeets⟩
    · rw [List.filterMap_cons_none hnone, List.filterMap_cons_none hnone']
      exact ih.of_iff (by simp [hclean])
    · rw [List.filterMap_cons_some ha, List.filterMap_cons_some ha', List.mapM_cons,
        List.mapM_cons]
      exact hmeets.bind fun y y' hy => ih.andThen fun ys ys' hys => meets_pure (.cons hy hys)

end

end PanelSchema.Syntax
