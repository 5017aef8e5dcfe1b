import PanelSchema.Note
import PanelSchema.Problem
import PanelSchema.Source.Grammar
import PanelSchema.Syntax.Literal
import PanelSchema.Syntax.Tree
import PanelSchema.Text.Blank

/-!
From matched pieces to the syntax tree. A piece is read in the role its parent
gives it, as an expression, a statement or a declaration; `Reading` holds the
roles of a piece, and a node is built, and so numbered, only when its role is
asked for.
-/

namespace PanelSchema.Syntax

open Source (Rule)

structure BuildState where
  nextId : Nat := 1
  /-- Latest first. -/
  notes : List Note := []

abbrev Build := ExceptT Problem (StateM BuildState)

namespace Build

def note (level : NoteLevel) (text : String) : Build Unit :=
  modify fun s => { s with notes := { level, text } :: s.notes }

def mark (span : Span) : Build Mark :=
  modifyGet fun s => ({ id := s.nextId, span }, { s with nextId := s.nextId + 1 })

end Build

structure Reading where
  piece : Piece Rule
  inner : List Reading
  span : Span
  expr : Build Expr
  /-- An operand under signs and casts, whatever the piece is. -/
  unary : Build Expr
  stmt : Build Stmt
  /-- Absent for pieces that declare nothing. -/
  decl? : Option (Build Decl)

namespace Reading

def rule (r : Reading) : Rule :=
  r.piece.rule

def text (r : Reading) : String :=
  r.piece.text

/-- The text of a type, without its white space. -/
def typeText (r : Reading) : String :=
  String.ofList (r.piece.chars.filter (! isBlank ·))

/-- A name without the sign that lets a keyword be one. -/
def plainName (r : Reading) : String :=
  match r.piece.chars with
  | '@' :: rest => String.ofList rest
  | cs => String.ofList cs

/-- Keywords are pieces only to keep them apart from longer names. -/
def isKeyword : Rule → Bool
  | .kwReturn | .kwNew | .kwElse | .kwType | .kwEnum | .kwRef => true
  | _ => false

def significant (r : Reading) : List Reading :=
  r.inner.filter fun c => !isKeyword c.rule

end Reading

open Reading

namespace Build

def malformed {α : Type} (span : Span) (issuer message : String) : Build α :=
  throw (.malformed message issuer (some span.start) (some span))

/-- A piece is missing inside the one at `span`. -/
def missing {α : Type} (span : Span) : Build α :=
  malformed span "guiscribe.ast.rules.fetch_next_pair"
    "Expected more inner pairs but found none."

def args (r : Reading) : Build (List Expr) :=
  (r.inner.filterMap fun argument => argument.significant.getLast?).mapM (·.expr)

def attributeItem (r : Reading) : Build Attribute :=
  match r.inner with
  | [] => missing r.span
  | [name] => pure { name := name.text, args := [] }
  | name :: list :: _ => do
    let args ← args list
    pure { name := name.text, args }

def attributes (r : Reading) : Build (List Attribute) :=
  r.inner.mapM attributeItem

/-- The attributes among the parts of a declaration. -/
def attributesOf (parts : List Reading) : Build (List Attribute) := do
  let found ← (parts.find? (·.rule == .attributes)).mapM attributes
  pure (found.getD [])

def typeArgs (r : Reading) : List String :=
  r.inner.map typeText

/-! ### Expressions -/

def number (span : Span) (cs : List Char) : Build Expr :=
  match numberValue? cs with
  | some (.integer value) => do
    let m ← mark span
    pure (.integer m value)
  | some (.float value) => do
    let m ← mark span
    pure (.float m value)
  | none =>
    malformed span "guiscribe.ast.expr.parse_primary_rule"
      s!"Invalid number literal '{String.ofList cs}'."

/-- The content of a text literal. Escapes mean nothing after an at sign. -/
def textOf (r : Reading) : String :=
  let content := (r.inner.head?.map (·.piece.chars)).getD []
  let raw :=
    match r.piece.chars with
    | '@' :: _ => true
    | '$' :: '@' :: _ => true
    | _ => false
  String.ofList (if raw then content else unescape content)

/-- The list of initial values takes a number of its own although only its
elements are kept. -/
def elements (r : Reading) : Build (List Expr) := do
  let elements ← r.inner.mapM (·.expr)
  let _ ← mark r.span
  pure elements

/-- The parts of a creation, in source order. -/
def creation (span : Span) (parts : List Reading) : Build Expr := do
  let type := (parts.find? (·.rule == .typeName)).map typeText
  let args ← (parts.find? (·.rule == .callArgs)).mapM args
  let initializer ← (parts.find? (·.rule == .arrayInitializer)).mapM elements
  let m ← mark span
  pure (.new m type (args.getD []) initializer)

/-- What suffixes and operators are applied to. -/
def primary (r : Reading) : Build Expr :=
  match r.rule with
  | .stringLiteral => do
    let m ← mark r.span
    pure (.string m (textOf r))
  | .charLiteral => do
    let m ← mark r.span
    pure (.string m (String.ofList (unescape (r.piece.chars.drop 1).dropLast)))
  | .number => number r.span r.piece.chars
  | .boolean => do
    let m ← mark r.span
    pure (.bool m (r.text == "true"))
  | .nullLiteral => do
    let m ← mark r.span
    pure (.null m)
  | .identifier => do
    let m ← mark r.span
    pure (.name m r.plainName)
  | .typeofExpr => do
    let m ← mark r.span
    pure (.typeOf m ((r.inner.head?.map typeText).getD ""))
  | .newExpr => creation r.span r.inner
  | .expression | .arrayInitializer => r.expr
  | rule =>
    malformed r.span "guiscribe.ast.expr.parse_primary_rule"
      s!"Unexpected primary expression: {rule.name}"

/-- Applies what follows a primary expression, from left to right. Type
arguments wait for the call they belong to. -/
def suffixes : Expr → List String → List Reading → Build Expr
  | e, _, [] => pure e
  | e, pending, s :: rest =>
    match s.rule with
    | .memberAccess =>
      match s.inner with
      | [] => missing s.span
      | name :: more => do
        let m ← mark s.span
        suffixes (.member m e name.plainName) ((more.head?.map typeArgs).getD pending) rest
    | .callArgs => do
      let args ← args s
      let m ← mark s.span
      suffixes (.call m e pending args) [] rest
    | .indexAccess =>
      match s.inner with
      | [] => missing s.span
      | index :: _ => do
        let i ← index.expr
        let m ← mark s.span
        suffixes (.index m e i) pending rest
    | .postfixInc => do
      let m ← mark s.span
      suffixes (.unary m .inc e) pending rest
    | .postfixDec => do
      let m ← mark s.span
      suffixes (.unary m .dec e) pending rest
    | rule =>
      malformed s.span "guiscribe.ast.expr.parse_postfix_rule"
        s!"Unexpected postfix operator: {rule.name}"

/-- A primary expression and what follows it. -/
def suffixed (span : Span) : List Reading → Build Expr
  | [] => missing span
  | first :: rest =>
    if first.rule = .genericName then
      match first.inner with
      | [] => missing span
      | name :: more => do
        let m ← mark name.span
        suffixes (.name m name.plainName) ((more.head?.map typeArgs).getD []) rest
    else do
      let e ← primary first
      suffixes e [] rest

def unaryOp (token : List Char) : UnaryOp :=
  match token with
  | ['+', '+'] => .inc
  | ['-', '-'] => .dec
  | ['!'] => .not
  | ['~'] => .bitNot
  | ['-'] => .minus
  | _ => .plus

def unary (span : Span) : List Reading → Build Expr
  | [] => missing span
  | first :: rest =>
    match first.rule, rest with
    | .prefixOp, operand :: _ => do
      let e ← operand.unary
      let m ← mark span
      pure (.unary m (unaryOp first.piece.chars) e)
    | .cast, operand :: _ => do
      let e ← operand.unary
      let m ← mark span
      pure (.cast m ((first.inner.head?.map typeText).getD "") e)
    | .prefixOp, [] | .cast, [] => missing span
    | .postfixExpr, _ => suffixed first.span first.inner
    | rule, _ =>
      malformed span "guiscribe.ast.expr.parse_unary_rule"
        s!"Unexpected unary expression: {rule.name}"

/-- `(operator operand)*` behind a first operand, grouped from the left. A node
stands where its operator does. -/
def chain (span : Span) : Expr → List Reading → Build Expr
  | left, [] => pure left
  | left, operator :: rest =>
    match BinaryOp.ofToken? operator.piece.chars with
    | some op =>
      match rest with
      | [] =>
        malformed span "guiscribe.ast.expr.parse_binary_rule"
          "Missing right-hand operand for binary operator."
      | right :: rest => do
        let r ← right.expr
        let m ← mark operator.span
        chain span (.binary m left op r) rest
    | none =>
      malformed span "guiscribe.ast.expr.parse_binary_rule"
        s!"Invalid binary operator '{operator.text}'."

def binary (span : Span) : List Reading → Build Expr
  | [] => missing span
  | left :: rest => do
    let l ← left.expr
    chain span l rest

def conditional (span : Span) : List Reading → Build Expr
  | [] => missing span
  | test :: rest => do
    let t ← test.expr
    match rest with
    | [] => pure t
    | _ :: yes :: no :: _ => do
      let y ← yes.expr
      let n ← no.expr
      let m ← mark span
      pure (.conditional m t y n)
    | _ => missing span

/-- A compound assignment assigns what its operator makes of both sides. -/
def assignment (span : Span) (left : Expr) (operator value : Reading) : Build Expr := do
  let v ← value.expr
  if operator.piece.chars = ['='] then
    let m ← mark span
    pure (.assign m left v)
  else
    match BinaryOp.ofToken? operator.piece.chars with
    | some op =>
      let combined ← mark span
      let m ← mark span
      pure (.assign m left (.binary combined left op v))
    | none =>
      malformed span "guiscribe.ast.expr.parse_expression_rule"
        s!"Unknown assignment operator '{operator.text}'."

def expression (span : Span) (rule : Rule) (inner : List Reading) : Build Expr :=
  match rule with
  | .expression =>
    match inner with
    | [] => missing span
    | left :: rest => do
      let l ← conditional left.span left.inner
      match rest with
      | [] => pure l
      | [_] => missing span
      | operator :: value :: _ => assignment span l operator value
  | .arrayInitializer => do
    let es ← inner.mapM (·.expr)
    let m ← mark span
    pure (.list m es)
  | .conditional => conditional span inner
  | .coalesce | .logicalOr | .logicalAnd | .bitwiseOr | .bitwiseXor | .bitwiseAnd
  | .equality | .relational | .additive | .multiplicative => binary span inner
  | .unary => unary span inner
  | rule =>
    malformed span "guiscribe.ast.expr.parse_operand_rule"
      s!"Unexpected expression type: {rule.name}"

/-! ### Statements -/

/-- A declaration of a local, also as the resource of a `using` statement. -/
def localDecl (span : Span) (parts : List Reading) : Build Stmt :=
  match parts with
  | type :: name :: rest => do
    let value ← rest.head?.mapM (·.expr)
    let m ← mark span
    pure
      (.localDecl m type.typeText
        (String.ofList (name.piece.chars.dropWhile (· == '@'))) value)
  | _ => missing span

/-- A label or a statement of the section at `span`. -/
def sectionItem (span : Span) (item : Reading) : Build (Option (Option Expr) × Option Stmt) :=
  match item.rule with
  | .caseLabel =>
    match item.inner with
    | [] => missing span
    | value :: _ => do
      let e ← value.expr
      pure (some (some e), none)
  | .defaultLabel => pure (some none, none)
  | _ => do
    let s ← item.stmt
    pure (none, some s)

def switchSection (r : Reading) : Build SwitchSection := do
  let parts ← r.inner.mapM (sectionItem r.span)
  let m ← mark r.span
  pure (.mk m (parts.filterMap (·.1)) (parts.filterMap (·.2)))

def statement (span : Span) (p : Piece Rule) (inner : List Reading) : Build Stmt :=
  match p.rule, inner with
  | .block, body => do
    let ss ← body.mapM (·.stmt)
    let m ← mark span
    pure (.block m ss)
  | .ifStmt, test :: body :: rest => do
    let t ← test.expr
    let yes ← body.stmt
    match rest with
    | [] => do
      let m ← mark span
      pure (.ifThen m t yes)
    | otherwise :: _ =>
      match otherwise.significant with
      | [] =>
        malformed span "guiscribe.ast.stmt.parse_if_statement_rule"
          "Expected a statement after 'else'."
      | s :: _ => do
        let no ← s.stmt
        let m ← mark span
        pure (.ifElse m t yes no)
  | .switchStmt, subject :: sections => do
    let e ← subject.expr
    let ss ← sections.mapM switchSection
    let m ← mark span
    pure (.switch m e ss)
  | .usingStmt, resource :: body :: _ => do
    let r ←
      if resource.rule = .usingDeclaration then
        localDecl resource.span resource.inner
      else
        .expr <$> resource.expr
    let s ← body.stmt
    let m ← mark span
    pure (.usingBlock m r s)
  | .foreachStmt, body :: _ | .forStmt, body :: _ => do
    let s ← body.stmt
    let m ← mark span
    pure (.loop m s)
  | .whileStmt, test :: body :: _ => do
    let t ← test.expr
    let s ← body.stmt
    let m ← mark span
    pure (.whileLoop m t s)
  | .doStmt, body :: test :: _ => do
    let s ← body.stmt
    let t ← test.expr
    let m ← mark span
    pure (.doWhile m s t)
  | .localDecl, parts => localDecl span parts
  | .expressionStmt, e :: _ => .expr <$> e.expr
  | .returnStmt, parts => do
    let value ← (parts.find? (!isKeyword ·.rule)).mapM (·.expr)
    let m ← mark span
    pure (.returns m value)
  | .breakStmt, _ => do
    let m ← mark span
    pure (.breaks m)
  | .continueStmt, _ => do
    let m ← mark span
    pure (.continues m)
  | .skippedStmt, _ => do
    let l := span.start
    note .trace
      (s!"skipping statement at Some(Location \x7b file: {quoted l.file}, line: {l.line}, "
        ++ s!"column: {l.column} \x7d): {p.text}")
    let m ← mark span
    pure (.skipped m p.text)
  | .ifStmt, _ | .switchStmt, _ | .usingStmt, _ | .foreachStmt, _ | .forStmt, _
  | .whileStmt, _ | .doStmt, _ | .expressionStmt, _ => missing span
  | rule, _ =>
    malformed span "guiscribe.ast.stmt.parse_statement_rule"
      s!"Unexpected statement type: {rule.name}"

/-! ### Declarations -/

def nameOf? (parts : List Reading) : Option String :=
  (parts.find? (·.rule == .identifier)).map (·.text)

def typeOf? (parts : List Reading) : Option String :=
  (parts.find? (·.rule == .typeName)).map typeText

def decls (parts : List Reading) : Build (List Decl) :=
  (parts.filterMap (·.decl?)).mapM id

def enumMember (r : Reading) : Build EnumMember := do
  let attributes ← attributesOf r.inner
  let value ← (r.inner.find? fun p => p.rule != .attributes && p.rule != .identifier).mapM (·.expr)
  let m ← mark r.span
  pure { mark := m, attributes, name := (nameOf? r.inner).getD "", value }

def parameter (r : Reading) : Build Parameter :=
  match typeOf? r.inner, nameOf? r.inner with
  | some type, some name => pure { type, name }
  | _, _ =>
    malformed r.span "guiscribe.ast.item.parse_parameter_rule"
      "Incomplete parameter declaration."

def parameters (r : Reading) : Build (List Parameter) :=
  r.inner.mapM parameter

def classDecl (attributes : List Attribute) (r : Reading) : Build Decl :=
  match nameOf? r.inner with
  | some name => do
    let body ← decls r.inner
    let m ← mark r.span
    pure (.classDecl m attributes name body)
  | none =>
    malformed r.span "guiscribe.ast.item.parse_class_rule"
      "Class declaration without a name."

def enumDecl (attributes : List Attribute) (r : Reading) : Build Decl := do
  let members ← (r.inner.filter (·.rule == .enumMember)).mapM enumMember
  match nameOf? r.inner with
  | some name => do
    let m ← mark r.span
    pure (.enumDecl m attributes name members)
  | none =>
    malformed r.span "guiscribe.ast.item.parse_enum_rule"
      "Enum declaration without a name."

/-- A class or an enum, with the attributes that stand before it. -/
def typeDecl (span : Span) (parts : List Reading) : Build Decl := do
  let attributes ← attributesOf parts
  match parts.find? fun p => p.rule == .classDecl || p.rule == .enumDecl with
  | none =>
    malformed span "guiscribe.ast.item.parse_type_declaration_rule"
      "Type declaration without a class or enum body."
  | some r => if r.rule = .classDecl then classDecl attributes r else enumDecl attributes r

def method (span : Span) (parts : List Reading) : Build Decl := do
  let attributes ← attributesOf parts
  let params ← (parts.find? (·.rule == .parameterList)).mapM parameters
  let body ← (parts.find? (·.rule == .block)).mapM (·.stmt)
  match typeOf? parts, nameOf? parts, body with
  | some type, some name, some body => do
    let m ← mark span
    pure (.method m attributes type name (params.getD []) body)
  | _, _, _ =>
    malformed span "guiscribe.ast.item.parse_method_rule" "Incomplete method declaration."

def field (span : Span) (parts : List Reading) : Build Decl := do
  let attributes ← attributesOf parts
  let modifiers := (parts.filter (·.rule == .modifier)).map (·.text)
  let value ←
    (parts.find? fun p => p.rule == .expression || p.rule == .arrayInitializer).mapM (·.expr)
  match typeOf? parts, nameOf? parts with
  | some type, some name => do
    let m ← mark span
    pure (.field m attributes modifiers type name value)
  | _, _ =>
    malformed span "guiscribe.ast.item.parse_field_rule" "Incomplete field declaration."

def declaration? (span : Span) (p : Piece Rule) (inner : List Reading) : Option (Build Decl) :=
  match p.rule, inner with
  | .namespaceDecl, [] => some (missing span)
  | .namespaceDecl, name :: body => some do
    let ds ← decls body
    let m ← mark span
    pure (.namespaceDecl m name.text ds)
  | .typeDecl, parts => some (typeDecl span parts)
  | .methodDecl, parts => some (method span parts)
  | .fieldDecl, parts => some (field span parts)
  | _, _ => none

end Build

/-- The roles of a piece, given those of the pieces inside it. -/
def Reading.step (file : String) (p : Piece Rule) (inner : List Reading) : Reading :=
  let span := p.span file
  { piece := p
    inner
    span
    expr := Build.expression span p.rule inner
    unary := Build.unary span inner
    stmt := Build.statement span p inner
    decl? := Build.declaration? span p inner }

mutual

def Reading.ofPiece (file : String) : Piece Rule → Reading
  | ⟨rule, start, stop, source, inner⟩ =>
    Reading.step file ⟨rule, start, stop, source, inner⟩ (Reading.ofPieces file inner)

def Reading.ofPieces (file : String) : List (Piece Rule) → List Reading
  | [] => []
  | p :: rest => Reading.ofPiece file p :: Reading.ofPieces file rest

end

def Build.sourceTree (r : Reading) : Build SourceTree := do
  let body ← Build.decls r.inner
  let m ← Build.mark r.span
  pure { mark := m, body }

end PanelSchema.Syntax
