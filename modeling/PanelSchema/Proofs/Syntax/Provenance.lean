import PanelSchema.Proofs.Grammar.Takes
import PanelSchema.Proofs.Syntax.Parse

/-!
Where the texts of a tree come from. A field whose value is a text has a literal of it in the
source.
-/

namespace PanelSchema.Syntax

open Source (Rule grammar)
open Grammar Build Reading

def LiteralOf (file t : String) (q : Piece Rule) : Prop :=
  q.rule = .stringLiteral ∧ textOf (ofPiece file q) = t ∨
    q.rule = .charLiteral ∧ String.ofList (unescape (q.chars.drop 1).dropLast) = t

/-- If the expression is a text, a literal of it stands in the source. -/
def Sourced (file : String) (source : List Char) (e : Expr) : Prop :=
  ∀ m t, e = .string m t → ∃ q, Stands grammar source q ∧ LiteralOf file t q

/-- If it is a field with a text, a literal of it stands in the source. -/
def FieldSourced (file : String) (source : List Char) : Decl → Prop
  | .field _ _ _ _ _ (some e) => Sourced file source e
  | _ => True

/-- The fields of a class, if it is one, have their texts from the source. -/
def Declared (file : String) (source : List Char) : Decl → Prop
  | .classDecl _ _ _ body => ∀ d ∈ body, FieldSourced file source d
  | d => FieldSourced file source d

theorem Declared.field {file : String} {source : List Char} {d : Decl}
    (h : Declared file source d) : FieldSourced file source d := by
  cases d with
  | classDecl => trivial
  | _ => exact h

/-- In each role that a piece may have, a text that is read comes from the source. -/
structure Traces (file : String) (source : List Char) (p : Piece Rule) : Prop where
  expr : (ofPiece file p).expr.Ensures (Sourced file source)
  conditional : (Build.conditional (ofPiece file p).span (ofPiece file p).inner).Ensures
    (Sourced file source)
  suffixed : (Build.suffixed (ofPiece file p).span (ofPiece file p).inner).Ensures
    (Sourced file source)
  primary : (Build.primary (ofPiece file p)).Ensures (Sourced file source)
  classDecl : ∀ attributes,
    (Build.classDecl attributes (ofPiece file p)).Ensures (Declared file source)
  decl : ∀ b, (ofPiece file p).decl? = some b → b.Ensures (Declared file source)

section

variable {file : String} {source : List Char}

theorem ensures_chain {span : Span} {left : Expr} (hleft : Sourced file source left)
    (rs : List Reading) : (Build.chain span left rs).Ensures (Sourced file source) := by
  fun_induction Build.chain span left rs with
  | case1 => exact ensures_pure hleft
  | case2 | case4 => exact ensures_malformed _ _ _
  | case3 _ _ _ _ _ _ ih => exact .after fun r => .after fun m => ih r m nofun

theorem ensures_suffixes {e : Expr} (he : Sourced file source e) (pending : List String)
    (rs : List Reading) : (Build.suffixes e pending rs).Ensures (Sourced file source) := by
  fun_induction Build.suffixes e pending rs with
  | case1 => exact ensures_pure he
  | case2 | case5 | case9 => exact ensures_malformed _ _ _
  | case3 _ _ _ _ _ _ _ _ ih => exact .after fun m => ih m nofun
  | case4 _ _ _ _ _ ih => exact .after fun args => .after fun m => ih args m nofun
  | case6 _ _ _ _ _ _ _ _ ih => exact .after fun i => .after fun m => ih i m nofun
  | case7 _ _ _ _ _ ih => exact .after fun m => ih m nofun
  | case8 _ _ _ _ _ ih => exact .after fun m => ih m nofun

theorem ensures_assignment (span : Span) (left : Expr) (operator value : Reading) :
    (Build.assignment span left operator value).Ensures (Sourced file source) := by
  refine .after fun v => ?_
  split
  · exact .after fun m => ensures_pure nofun
  · split
    · exact .after fun combined => .after fun m => ensures_pure nofun
    · exact ensures_malformed _ _ _

end

section

variable {file : String} {source : List Char} {ps : List (Piece Rule)}
  (h : ∀ q ∈ ps, Traces file source q)

include h

theorem ensures_conditional (span : Span) :
    (Build.conditional span (ps.map (ofPiece file))).Ensures (Sourced file source) := by
  match ps with
  | [] => exact ensures_malformed _ _ _
  | test :: rest =>
    refine (h test (by simp)).expr.bind fun t ht => ?_
    match rest with
    | [] => exact ensures_pure ht
    | [_] | [_, _] => exact ensures_malformed _ _ _
    | _ :: yes :: no :: _ =>
      exact .after fun y => .after fun n => .after fun m => ensures_pure nofun

theorem ensures_suffixed (span : Span) :
    (Build.suffixed span (ps.map (ofPiece file))).Ensures (Sourced file source) := by
  cases ps with
  | nil => exact ensures_malformed _ _ _
  | cons first rest =>
    rw [List.map_cons, Build.suffixed]
    split
    · split
      · exact ensures_malformed _ _ _
      · refine .after fun m => ensures_suffixes ?_ _ _
        intro _ _ hstring
        cases hstring
    · exact (h first (by simp)).primary.bind fun e he => ensures_suffixes he _ _

theorem ensures_unary (span : Span) :
    (Build.unary span (ps.map (ofPiece file))).Ensures (Sourced file source) := by
  match ps with
  | [] => exact ensures_malformed _ _ _
  | first :: rest =>
    rw [List.map_cons]
    unfold Build.unary
    dsimp only
    split
    · exact .after fun e => .after fun m => ensures_pure nofun
    · exact .after fun e => .after fun m => ensures_pure nofun
    · exact ensures_malformed _ _ _
    · exact ensures_malformed _ _ _
    · exact (h first (by simp)).suffixed
    · exact ensures_malformed _ _ _

theorem ensures_binary (span : Span) :
    (Build.binary span (ps.map (ofPiece file))).Ensures (Sourced file source) := by
  match ps with
  | [] => exact ensures_malformed _ _ _
  | left :: rest => exact (h left (by simp)).expr.bind fun l hl => ensures_chain hl _

theorem ensures_expression (span : Span) (rule : Rule) :
    (Build.expression span rule (ps.map (ofPiece file))).Ensures (Sourced file source) := by
  unfold Build.expression
  split
  · match ps with
    | [] => exact ensures_malformed _ _ _
    | left :: rest =>
      refine (h left (by simp)).conditional.bind fun l hl => ?_
      match rest with
      | [] => exact ensures_pure hl
      | [_] => exact ensures_malformed _ _ _
      | operator :: value :: _ =>
        exact ensures_assignment span l _ _
  · exact .after fun es => .after fun m => ensures_pure nofun
  · exact ensures_conditional h span
  iterate 10
    · exact ensures_binary h span
  · exact ensures_unary h span
  · exact ensures_malformed _ _ _

/-! ### Declarations -/

theorem ensures_found (kind : Reading → Bool) :
    Build.Ensures (((ps.map (ofPiece file)).find? kind).mapM (·.expr)) fun value =>
      ∀ e, value = some e → Sourced file source e := by
  cases hfound : (ps.map (ofPiece file)).find? kind with
  | none => exact ensures_pure nofun
  | some r =>
    obtain ⟨q, hq, rfl⟩ := List.mem_map.1 (List.mem_of_find?_eq_some hfound)
    refine (h q hq).expr.bind fun e he => ensures_pure ?_
    rintro _ ⟨⟩
    exact he

theorem ensures_field (span : Span) :
    (Build.field span (ps.map (ofPiece file))).Ensures (Declared file source) := by
  refine .after fun attributes => ?_
  refine (ensures_found h _).bind fun value hvalue => ?_
  split
  · refine .after fun m => ensures_pure ?_
    cases value with
    | none => trivial
    | some e => exact hvalue e rfl
  · exact ensures_malformed _ _ _

theorem ensures_decls :
    (Build.decls (ps.map (ofPiece file))).Ensures fun ds => ∀ d ∈ ds, Declared file source d := by
  refine ensures_mapM fun b hb => ?_
  obtain ⟨r, hr, hdecl⟩ := List.mem_filterMap.1 hb
  obtain ⟨q, hq, rfl⟩ := List.mem_map.1 hr
  exact (h q hq).decl b hdecl

theorem ensures_typeDecl (span : Span) :
    (Build.typeDecl span (ps.map (ofPiece file))).Ensures (Declared file source) := by
  refine .after fun attributes => ?_
  split
  · exact ensures_malformed _ _ _
  · rename_i r hfound
    obtain ⟨q, hq, rfl⟩ := List.mem_map.1 (List.mem_of_find?_eq_some hfound)
    split
    · exact (h q hq).classDecl attributes
    · refine .after fun members => ?_
      split
      · exact .after fun m => ensures_pure trivial
      · exact ensures_malformed _ _ _

theorem ensures_declaration (span : Span) (p : Piece Rule) (b : Build Decl)
    (hb : Build.declaration? span p (ps.map (ofPiece file)) = some b) :
    b.Ensures (Declared file source) := by
  unfold Build.declaration? at hb
  split at hb <;> cases hb
  · exact ensures_malformed _ _ _
  · exact .after fun ds => .after fun m => ensures_pure trivial
  · exact ensures_typeDecl h span
  · refine .after fun attributes => .after fun params => .after fun body => ?_
    split
    · exact .after fun m => ensures_pure trivial
    · exact ensures_malformed _ _ _
  · exact ensures_field h span

end

section

variable {file : String} {source : List Char} {p : Piece Rule}

theorem ensures_primary (hp : Stands grammar source p)
    (h : ∀ q ∈ p.inner, Traces file source q) :
    (Build.primary (ofPiece file p)).Ensures (Sourced file source) := by
  have hexpr : (ofPiece file p).expr.Ensures (Sourced file source) := by
    rw [expr_ofPiece]
    exact ensures_expression h _ _
  unfold Build.primary
  split
  · rename_i hrule
    rw [rule_ofPiece] at hrule
    refine .after fun m => ensures_pure ?_
    rintro _ _ ⟨⟩
    exact ⟨p, hp, .inl ⟨hrule, rfl⟩⟩
  · rename_i hrule
    rw [rule_ofPiece] at hrule
    refine .after fun m => ensures_pure ?_
    rintro _ _ ⟨⟩
    exact ⟨p, hp, .inr ⟨hrule, by rw [piece_ofPiece]⟩⟩
  · unfold Build.number
    split
    · exact .after fun m => ensures_pure nofun
    · exact .after fun m => ensures_pure nofun
    · exact ensures_malformed _ _ _
  · exact .after fun m => ensures_pure nofun
  · exact .after fun m => ensures_pure nofun
  · exact .after fun m => ensures_pure nofun
  · exact .after fun m => ensures_pure nofun
  · exact .after fun args => .after fun initializer => .after fun m => ensures_pure nofun
  · exact hexpr
  · exact hexpr
  · exact ensures_malformed _ _ _

theorem traces_of_stands (hp : Stands grammar source p) : Traces file source p := by
  have hstands := hp
  induction hp with
  | mk _ _ _ hinner ih =>
    have h := fun q hq => ih q hq (hinner q hq)
    exact {
      expr := by
        rw [expr_ofPiece]
        exact ensures_expression h _ _
      conditional := by
        rw [inner_ofPiece]
        exact ensures_conditional h _
      suffixed := by
        rw [inner_ofPiece]
        exact ensures_suffixed h _
      primary := ensures_primary hstands h
      classDecl := by
        intro attributes
        unfold Build.classDecl
        split
        · rw [inner_ofPiece]
          refine (ensures_decls h).bind fun ds hds => .after fun m => ensures_pure ?_
          exact fun d hd => (hds d hd).field
        · exact ensures_malformed _ _ _
      decl := by
        rw [decl_ofPiece]
        exact ensures_declaration h _ _ }

theorem match_of_parse {content : String} {tree : SourceTree}
    (h : (parse file content).result = .ok tree) :
    ∃ root, grammar.match? .sourceFile content.toList = .ok [root] ∧
      (Build.sourceTree (ofPiece file root)).outcome {} = .ok tree := by
  cases hblank : content.toList.all isBlank with
  | true =>
    rw [parse_of_blank hblank] at h
    cases h
  | false =>
    cases hmatch : grammar.match? .sourceFile content.toList with
    | error mismatch =>
      rw [parse_of_mismatch hblank hmatch] at h
      cases h
    | ok ps =>
      obtain ⟨root, rfl, -⟩ := match_sourceFile hmatch
      obtain ⟨hok, herror⟩ := parse_of_match hblank hmatch
      refine ⟨root, rfl, ?_⟩
      cases houtcome : (Build.sourceTree (ofPiece file root)).outcome {} with
      | error p =>
        rw [herror p houtcome] at h
        cases h
      | ok tree' =>
        rw [hok tree' houtcome] at h
        cases h
        rfl

theorem ensures_sourceTree (hp : Stands grammar source p) :
    (Build.sourceTree (ofPiece file p)).Ensures fun tree =>
      ∀ d ∈ tree.body, Declared file source d := by
  unfold Build.sourceTree
  rw [inner_ofPiece]
  refine (ensures_decls fun q hq => traces_of_stands (hp.inner q hq)).bind fun ds hds => ?_
  exact .after fun m => ensures_pure hds

theorem literal_of_parse {content : String} {tree : SourceTree} {m m' m'' : Mark}
    {owner type name t : String} (hparse : (parse file content).result = .ok tree)
    (hbody : tree.body =
      [.classDecl m [] owner [.field m' [] [] type name (some (.string m'' t))]]) :
    ∃ q, Stands grammar content.toList q ∧ LiteralOf file t q := by
  obtain ⟨root, hmatch, htree⟩ := match_of_parse hparse
  have hroot := stands_match hmatch root (List.mem_singleton_self root)
  have hdeclared : ∀ d ∈ tree.body, Declared file content.toList d :=
    ensures_sourceTree hroot {} tree htree
  rw [hbody] at hdeclared
  exact hdeclared _ (List.mem_singleton_self _) _ (List.mem_singleton_self _) m'' t rfl

end

end PanelSchema.Syntax
