/-! The rules of the source grammar, in grammar order. -/

namespace PanelSchema.Source

inductive Rule where
  | endOfInput
  | whitespace
  | comment
  | identStart
  | identChar
  | keyword
  | identifier
  | kwReturn
  | kwNew
  | kwElse
  | kwType
  | kwEnum
  | kwRef
  | modifier
  | qualifiedName
  | genericArgs
  | arrayRank
  | typeName
  | stringInner
  | stringLiteral
  | charLiteral
  | number
  | boolean
  | nullLiteral
  | sourceFile
  | topItem
  | usingDirective
  | namespaceDecl
  | attributeTarget
  | attributeItem
  | attributeSection
  | attributes
  | typeDecl
  | classDecl
  | typeParameters
  | baseList
  | constraintClause
  | enumDecl
  | enumMember
  | classMember
  | methodDecl
  | parameterList
  | parameter
  | parameterModifier
  | fieldDecl
  | balancedBraces
  | skippedMember
  | block
  | statement
  | ifStmt
  | elseClause
  | switchStmt
  | switchSection
  | switchLabel
  | caseLabel
  | defaultLabel
  | usingStmt
  | usingDeclaration
  | parenGroup
  | loopHeader
  | foreachStmt
  | forStmt
  | whileStmt
  | doStmt
  | returnStmt
  | breakStmt
  | continueStmt
  | localDecl
  | expressionStmt
  | emptyStmt
  | skippedStmt
  | expression
  | assignOp
  | conditional
  | ternaryOp
  | coalesce
  | logicalOr
  | logicalAnd
  | bitwiseOr
  | bitwiseXor
  | bitwiseAnd
  | equality
  | relational
  | additive
  | multiplicative
  | opCoalesce
  | opOr
  | opAnd
  | opBitOr
  | opXor
  | opBitAnd
  | opEquality
  | opRelational
  | opAdditive
  | opMultiplicative
  | unary
  | prefixOp
  | cast
  | postfixExpr
  | postfixOp
  | memberAccess
  | callArgs
  | argument
  | argumentName
  | indexAccess
  | postfixInc
  | postfixDec
  | primary
  | parenExpr
  | typeofExpr
  | genericName
  | newExpr
  | arrayInitializer
  | initializerElement
deriving DecidableEq, Repr, Inhabited

namespace Rule

/-- The name used in messages. -/
def name : Rule → String
  | .endOfInput => "EOI"
  | .whitespace => "WHITESPACE"
  | .comment => "COMMENT"
  | .identStart => "ident_start"
  | .identChar => "ident_char"
  | .keyword => "keyword"
  | .identifier => "identifier"
  | .kwReturn => "kw_return"
  | .kwNew => "kw_new"
  | .kwElse => "kw_else"
  | .kwType => "kw_type"
  | .kwEnum => "kw_enum"
  | .kwRef => "kw_ref"
  | .modifier => "modifier"
  | .qualifiedName => "qualified_name"
  | .genericArgs => "generic_args"
  | .arrayRank => "array_rank"
  | .typeName => "type_name"
  | .stringInner => "string_inner"
  | .stringLiteral => "string_literal"
  | .charLiteral => "char_literal"
  | .number => "number"
  | .boolean => "boolean"
  | .nullLiteral => "null_literal"
  | .sourceFile => "source_file"
  | .topItem => "top_item"
  | .usingDirective => "using_directive"
  | .namespaceDecl => "namespace_decl"
  | .attributeTarget => "attribute_target"
  | .attributeItem => "attribute"
  | .attributeSection => "attribute_section"
  | .attributes => "attributes"
  | .typeDecl => "type_decl"
  | .classDecl => "class_decl"
  | .typeParameters => "type_parameters"
  | .baseList => "base_list"
  | .constraintClause => "constraint_clause"
  | .enumDecl => "enum_decl"
  | .enumMember => "enum_member"
  | .classMember => "class_member"
  | .methodDecl => "method_decl"
  | .parameterList => "parameter_list"
  | .parameter => "parameter"
  | .parameterModifier => "parameter_modifier"
  | .fieldDecl => "field_decl"
  | .balancedBraces => "balanced_braces"
  | .skippedMember => "skipped_member"
  | .block => "block"
  | .statement => "statement"
  | .ifStmt => "if_stmt"
  | .elseClause => "else_clause"
  | .switchStmt => "switch_stmt"
  | .switchSection => "switch_section"
  | .switchLabel => "switch_label"
  | .caseLabel => "case_label"
  | .defaultLabel => "default_label"
  | .usingStmt => "using_stmt"
  | .usingDeclaration => "using_declaration"
  | .parenGroup => "paren_group"
  | .loopHeader => "loop_header"
  | .foreachStmt => "foreach_stmt"
  | .forStmt => "for_stmt"
  | .whileStmt => "while_stmt"
  | .doStmt => "do_stmt"
  | .returnStmt => "return_stmt"
  | .breakStmt => "break_stmt"
  | .continueStmt => "continue_stmt"
  | .localDecl => "local_decl"
  | .expressionStmt => "expression_stmt"
  | .emptyStmt => "empty_stmt"
  | .skippedStmt => "skipped_stmt"
  | .expression => "expression"
  | .assignOp => "assign_op"
  | .conditional => "conditional"
  | .ternaryOp => "ternary_op"
  | .coalesce => "coalesce"
  | .logicalOr => "logical_or"
  | .logicalAnd => "logical_and"
  | .bitwiseOr => "bitwise_or"
  | .bitwiseXor => "bitwise_xor"
  | .bitwiseAnd => "bitwise_and"
  | .equality => "equality"
  | .relational => "relational"
  | .additive => "additive"
  | .multiplicative => "multiplicative"
  | .opCoalesce => "op_coalesce"
  | .opOr => "op_or"
  | .opAnd => "op_and"
  | .opBitOr => "op_bit_or"
  | .opXor => "op_xor"
  | .opBitAnd => "op_bit_and"
  | .opEquality => "op_equality"
  | .opRelational => "op_relational"
  | .opAdditive => "op_additive"
  | .opMultiplicative => "op_multiplicative"
  | .unary => "unary"
  | .prefixOp => "prefix_op"
  | .cast => "cast"
  | .postfixExpr => "postfix"
  | .postfixOp => "postfix_op"
  | .memberAccess => "member_access"
  | .callArgs => "call_args"
  | .argument => "argument"
  | .argumentName => "argument_name"
  | .indexAccess => "index_access"
  | .postfixInc => "postfix_inc"
  | .postfixDec => "postfix_dec"
  | .primary => "primary"
  | .parenExpr => "paren_expr"
  | .typeofExpr => "typeof_expr"
  | .genericName => "generic_name"
  | .newExpr => "new_expr"
  | .arrayInitializer => "array_initializer"
  | .initializerElement => "initializer_element"

def all : List Rule :=
  [.endOfInput,
    .whitespace, .comment, .identStart, .identChar, .keyword, .identifier, .kwReturn,
    .kwNew, .kwElse, .kwType, .kwEnum, .kwRef, .modifier, .qualifiedName, .genericArgs,
    .arrayRank, .typeName, .stringInner, .stringLiteral, .charLiteral, .number, .boolean,
    .nullLiteral, .sourceFile, .topItem, .usingDirective, .namespaceDecl,
    .attributeTarget, .attributeItem, .attributeSection, .attributes, .typeDecl,
    .classDecl, .typeParameters, .baseList, .constraintClause, .enumDecl, .enumMember,
    .classMember, .methodDecl, .parameterList, .parameter, .parameterModifier,
    .fieldDecl, .balancedBraces, .skippedMember, .block, .statement, .ifStmt,
    .elseClause, .switchStmt, .switchSection, .switchLabel, .caseLabel, .defaultLabel,
    .usingStmt, .usingDeclaration, .parenGroup, .loopHeader, .foreachStmt, .forStmt,
    .whileStmt, .doStmt, .returnStmt, .breakStmt, .continueStmt, .localDecl,
    .expressionStmt, .emptyStmt, .skippedStmt, .expression, .assignOp, .conditional,
    .ternaryOp, .coalesce, .logicalOr, .logicalAnd, .bitwiseOr, .bitwiseXor, .bitwiseAnd,
    .equality, .relational, .additive, .multiplicative, .opCoalesce, .opOr, .opAnd,
    .opBitOr, .opXor, .opBitAnd, .opEquality, .opRelational, .opAdditive,
    .opMultiplicative, .unary, .prefixOp, .cast, .postfixExpr, .postfixOp, .memberAccess,
    .callArgs, .argument, .argumentName, .indexAccess, .postfixInc, .postfixDec,
    .primary, .parenExpr, .typeofExpr, .genericName, .newExpr, .arrayInitializer,
    .initializerElement]

def ofName? (name : String) : Option Rule :=
  all.find? (·.name == name)

end Rule

end PanelSchema.Source
