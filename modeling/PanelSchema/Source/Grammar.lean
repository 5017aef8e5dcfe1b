import PanelSchema.Grammar.Match
import PanelSchema.Source.Rule

/-!
The grammar of editor sources. Only the shapes the walk cares about are
spelled out; any other member or statement is matched as skipped text, so that
one exotic construct does not sink a file.
-/

namespace PanelSchema.Source

open Phrase (all any many1 anyBut)

/-- One of the words, if it is not the front of a longer name. -/
def word (words : List String) : Phrase Rule :=
  all [any (words.map fun w => .text w.toList), .never (.rule .identChar)]

/-- `operand (operator operand)*` -/
def chain (operand operator : Rule) : Phrase Rule :=
  all [.rule operand, .many (all [.rule operator, .rule operand])]

/-- `item (, item)*` -/
def commaList (item : Phrase Rule) : Phrase Rule :=
  all [item, .many (all [",", item])]

def newline : Phrase Rule :=
  any ["\n", "\r\n", "\r"]

/-- What ends text that is only skipped over. -/
def skippedEnd : Phrase Rule :=
  any [";", all [.rule .balancedBraces, .opt ";"]]

def initialValue : Phrase Rule :=
  .opt (all ["=", any [.rule .arrayInitializer, .rule .expression]])

def condition : Phrase Rule :=
  all ["(", .rule .expression, ")"]

def style : Rule → RuleStyle
  | .whitespace | .comment | .identStart | .identChar | .topItem | .usingDirective
  | .attributeTarget | .attributeSection | .typeParameters | .baseList
  | .constraintClause | .classMember | .parameterModifier | .balancedBraces
  | .statement | .switchLabel | .parenGroup | .loopHeader | .emptyStmt | .postfixOp
  | .argumentName | .primary | .parenExpr | .initializerElement => .silent
  | .keyword | .identifier | .kwReturn | .kwNew | .kwElse | .kwType | .kwEnum | .kwRef
  | .modifier | .stringInner | .charLiteral | .number | .boolean | .nullLiteral
  | .assignOp | .ternaryOp | .opCoalesce | .opOr | .opAnd | .opBitOr | .opXor
  | .opBitAnd | .opEquality | .opRelational | .opAdditive | .opMultiplicative
  | .prefixOp => .atomic
  | .qualifiedName | .stringLiteral => .compound
  | _ => .plain

def body : Rule → Phrase Rule
  | .endOfInput => .endOfInput
  | .whitespace => any [" ", "\t", "\r", "\n", "\uFEFF"]
  | .comment =>
    any
      [all ["//", .many (anyBut newline)],
        all ["/*", .many (anyBut "*/"), "*/"],
        all ["#", .many (anyBut newline)]]
  | .identStart => any [.one .letter, "_"]
  | .identChar => any [.one .alphanumeric, "_"]
  | .keyword =>
    word
      ["abstract", "as", "break", "case", "catch", "checked", "class", "const",
        "continue", "default", "delegate", "do", "else", "enum", "event", "extern",
        "false", "finally", "fixed", "foreach", "for", "goto", "if", "interface",
        "internal", "in", "is", "lock", "namespace", "new", "null", "operator", "out",
        "override", "params", "private", "protected", "public", "readonly", "ref",
        "return", "sealed", "static", "struct", "switch", "throw", "true", "try",
        "typeof", "unchecked", "unsafe", "using", "virtual", "while"]
  | .identifier =>
    all [.opt "@", .never (.rule .keyword), .rule .identStart, .many (.rule .identChar)]
  | .kwReturn => word ["return"]
  | .kwNew => word ["new"]
  | .kwElse => word ["else"]
  | .kwType => word ["class", "struct", "interface", "record"]
  | .kwEnum => word ["enum"]
  | .kwRef => word ["ref", "out", "in"]
  | .modifier =>
    word
      ["public", "private", "protected", "internal", "static", "readonly", "const",
        "override", "virtual", "sealed", "abstract", "partial", "new", "unsafe",
        "extern", "async", "volatile"]
  | .qualifiedName => all [.rule .identifier, .many (all [".", .rule .identifier])]
  | .genericArgs => all ["<", commaList (.rule .typeName), ">"]
  | .arrayRank => all ["[", .many ",", "]"]
  | .typeName =>
    all [.rule .qualifiedName, .opt (.rule .genericArgs), .opt "?", .many (.rule .arrayRank)]
  | .stringInner => .many (any [all ["\\", .one .any], anyBut "\""])
  | .stringLiteral =>
    all [.opt (any ["$@", "@$", "@", "$"]), "\"", .rule .stringInner, "\""]
  | .charLiteral =>
    all ["'", any [all ["\\", .one .any], anyBut "'"], .many (anyBut "'"), "'"]
  | .number =>
    let digits := many1 (.one .digit)
    let exponent := all [any ["e", "E"], .opt (any ["+", "-"]), digits]
    all
      [any
        [all ["0", any ["x", "X"], many1 (.one .hexDigit)],
          all
            [any [all [digits, .opt (all [".", digits])], all [".", digits]],
              .opt exponent]],
        .opt (any ["ul", "UL", "f", "F", "d", "D", "m", "M", "u", "U", "l", "L"])]
  | .boolean => word ["true", "false"]
  | .nullLiteral => word ["null"]
  | .sourceFile => all [.startOfInput, .many (.rule .topItem), .rule .endOfInput]
  | .topItem =>
    any
      [.rule .usingDirective, .rule .namespaceDecl, .rule .typeDecl, .rule .skippedMember]
  | .usingDirective => all ["using", .never "(", many1 (anyBut ";"), ";"]
  | .namespaceDecl =>
    all
      ["namespace", .rule .qualifiedName,
        any [all ["\x7b", .many (.rule .topItem), "\x7d"], ";"]]
  | .attributeTarget =>
    all [any ["assembly", "module", "field", "method", "type", "param", "property"], ":"]
  | .attributeItem => all [.rule .qualifiedName, .opt (.rule .callArgs)]
  | .attributeSection =>
    all
      ["[", .opt (.rule .attributeTarget), .rule .attributeItem,
        .many (all [",", .rule .attributeItem]), "]"]
  | .attributes => many1 (.rule .attributeSection)
  | .typeDecl =>
    all
      [.opt (.rule .attributes), .many (.rule .modifier),
        any [.rule .classDecl, .rule .enumDecl]]
  | .classDecl =>
    all
      [.rule .kwType, .rule .identifier, .opt (.rule .typeParameters),
        .opt (.rule .baseList), .many (.rule .constraintClause), "\x7b",
        .many (.rule .classMember), "\x7d", .opt ";"]
  | .typeParameters => all ["<", commaList (.rule .identifier), ">"]
  | .baseList => all [":", commaList (.rule .typeName)]
  | .constraintClause => all ["where", many1 (anyBut (any ["\x7b", "where"]))]
  | .enumDecl =>
    all
      [.rule .kwEnum, .rule .identifier, .opt (all [":", .rule .typeName]), "\x7b",
        .opt (all [commaList (.rule .enumMember), .opt ","]), "\x7d", .opt ";"]
  | .enumMember =>
    all [.opt (.rule .attributes), .rule .identifier, .opt (all ["=", .rule .expression])]
  | .classMember =>
    any [.rule .typeDecl, .rule .methodDecl, .rule .fieldDecl, .rule .skippedMember]
  | .methodDecl =>
    all
      [.opt (.rule .attributes), .many (.rule .modifier), .rule .typeName,
        .rule .identifier, .opt (.rule .typeParameters), "(",
        .opt (.rule .parameterList), ")", .many (.rule .constraintClause), .rule .block]
  | .parameterList => commaList (.rule .parameter)
  | .parameter =>
    all
      [.opt (.rule .attributes), .many (.rule .parameterModifier), .rule .typeName,
        .rule .identifier, .opt (all ["=", .rule .expression])]
  | .parameterModifier => any [.rule .kwRef, "params", "this"]
  | .fieldDecl =>
    all
      [.opt (.rule .attributes), .many (.rule .modifier), .rule .typeName,
        .rule .identifier, initialValue, ";"]
  | .balancedBraces =>
    all
      ["\x7b", .many (any [.rule .balancedBraces, anyBut (any ["\x7b", "\x7d"])]), "\x7d"]
  | .skippedMember => all [many1 (anyBut (any ["\x7b", "\x7d", ";"])), skippedEnd]
  | .block => all ["\x7b", .many (.rule .statement), "\x7d"]
  | .statement =>
    any
      [.rule .block, .rule .ifStmt, .rule .switchStmt, .rule .usingStmt,
        .rule .foreachStmt, .rule .forStmt, .rule .whileStmt, .rule .doStmt,
        .rule .returnStmt, .rule .breakStmt, .rule .continueStmt, .rule .localDecl,
        .rule .expressionStmt, .rule .emptyStmt, .rule .skippedStmt]
  | .ifStmt => all ["if", condition, .rule .statement, .opt (.rule .elseClause)]
  | .elseClause => all [.rule .kwElse, .rule .statement]
  | .switchStmt =>
    all ["switch", condition, "\x7b", .many (.rule .switchSection), "\x7d"]
  | .switchSection => all [many1 (.rule .switchLabel), .many (.rule .statement)]
  | .switchLabel => any [.rule .caseLabel, .rule .defaultLabel]
  | .caseLabel => all ["case", .rule .expression, ":"]
  | .defaultLabel => all ["default", ":"]
  | .usingStmt =>
    all
      ["using", "(", any [.rule .usingDeclaration, .rule .expression], ")",
        .rule .statement]
  | .usingDeclaration => all [.rule .typeName, .rule .identifier, "=", .rule .expression]
  | .parenGroup =>
    all ["(", .many (any [.rule .parenGroup, anyBut (any ["(", ")"])]), ")"]
  | .loopHeader => .many (any [.rule .parenGroup, anyBut (any ["(", ")"])])
  | .foreachStmt => all ["foreach", "(", .rule .loopHeader, ")", .rule .statement]
  | .forStmt => all ["for", "(", .rule .loopHeader, ")", .rule .statement]
  | .whileStmt => all ["while", condition, .rule .statement]
  | .doStmt => all ["do", .rule .statement, "while", condition, ";"]
  | .returnStmt => all [.rule .kwReturn, .opt (.rule .expression), ";"]
  | .breakStmt => all ["break", ";"]
  | .continueStmt => all ["continue", ";"]
  | .localDecl =>
    all [.opt "const", .rule .typeName, .rule .identifier, initialValue, ";"]
  | .expressionStmt => all [.rule .expression, ";"]
  | .emptyStmt => ";"
  | .skippedStmt =>
    all
      [.never (any [.rule .caseLabel, .rule .defaultLabel]),
        many1 (anyBut (any [";", "\x7b", "\x7d"])), skippedEnd]
  | .expression =>
    all
      [.rule .conditional,
        .opt (all [.rule .assignOp, any [.rule .arrayInitializer, .rule .expression]])]
  | .assignOp =>
    any
      ["??=", "+=", "-=", "*=", "/=", "%=", "|=", "&=", "^=",
        all ["=", .never (any ["=", ">"])]]
  | .conditional =>
    all
      [.rule .coalesce,
        .opt (all [.rule .ternaryOp, .rule .expression, ":", .rule .expression])]
  | .ternaryOp => all ["?", .never (any ["?", "."])]
  | .coalesce => chain .logicalOr .opCoalesce
  | .logicalOr => chain .logicalAnd .opOr
  | .logicalAnd => chain .bitwiseOr .opAnd
  | .bitwiseOr => chain .bitwiseXor .opBitOr
  | .bitwiseXor => chain .bitwiseAnd .opXor
  | .bitwiseAnd => chain .equality .opBitAnd
  | .equality => chain .relational .opEquality
  | .relational => chain .additive .opRelational
  | .additive => chain .multiplicative .opAdditive
  | .multiplicative => chain .unary .opMultiplicative
  | .opCoalesce => all ["??", .never "="]
  | .opOr => "||"
  | .opAnd => "&&"
  | .opBitOr => all ["|", .never (any ["|", "="])]
  | .opXor => all ["^", .never "="]
  | .opBitAnd => all ["&", .never (any ["&", "="])]
  | .opEquality => any ["==", "!="]
  | .opRelational =>
    any ["<=", ">=", all ["<", .never (any ["<", "="])], all [">", .never (any [">", "="])]]
  | .opAdditive =>
    any [all ["+", .never (any ["+", "="])], all ["-", .never (any ["-", "=", ">"])]]
  | .opMultiplicative => all [any ["*", "/", "%"], .never "="]
  | .unary =>
    any
      [all [.rule .prefixOp, .rule .unary], all [.rule .cast, .rule .unary],
        .rule .postfixExpr]
  | .prefixOp =>
    any ["++", "--", "!", "~", all ["-", .never "-"], all ["+", .never "+"]]
  | .cast =>
    all
      ["(", .rule .typeName, ")",
        .ahead (any [.rule .identifier, "(", .rule .stringLiteral, .rule .number, "!"])]
  | .postfixExpr => all [.rule .primary, .many (.rule .postfixOp)]
  | .postfixOp =>
    any
      [.rule .memberAccess, .rule .callArgs, .rule .indexAccess, .rule .postfixInc,
        .rule .postfixDec]
  | .memberAccess =>
    all
      [any ["?.", "."], .rule .identifier, .opt (all [.rule .genericArgs, .ahead "("])]
  | .callArgs => all ["(", .opt (commaList (.rule .argument)), ")"]
  | .argument => all [.opt (.rule .argumentName), .opt (.rule .kwRef), .rule .expression]
  | .argumentName => all [.rule .identifier, ":", .never ":"]
  | .indexAccess => all ["[", commaList (.rule .expression), "]"]
  | .postfixInc => "++"
  | .postfixDec => "--"
  | .primary =>
    any
      [.rule .stringLiteral, .rule .charLiteral, .rule .number, .rule .boolean,
        .rule .nullLiteral, .rule .typeofExpr, .rule .newExpr, .rule .parenExpr,
        .rule .genericName, .rule .identifier]
  | .parenExpr => condition
  | .typeofExpr => all ["typeof", "(", .rule .typeName, ")"]
  | .genericName => all [.rule .identifier, .rule .genericArgs, .ahead "("]
  | .newExpr =>
    all
      [.rule .kwNew, .opt (.rule .typeName), .opt (.rule .arrayRank),
        .opt (.rule .callArgs), .opt (.rule .arrayInitializer)]
  | .arrayInitializer =>
    all
      ["\x7b", .opt (all [commaList (.rule .initializerElement), .opt ","]), "\x7d"]
  | .initializerElement => any [.rule .arrayInitializer, .rule .expression]

/-- Blanks, and comments with the blanks after them. -/
def blank : Phrase Rule :=
  all
    [.many (.rule .whitespace),
      .many (all [.rule .comment, .many (.rule .whitespace)])]

def grammar : Grammar Rule where
  style := style
  body := body
  blank := blank
  depth := 20000

end PanelSchema.Source
