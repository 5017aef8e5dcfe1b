import PanelSchema.Grammar.Match

/-!
The grammar of one property declaration:
`[Attr] [Attr(args)] _Name ("Display", Type) = default`
-/

namespace PanelSchema.Declaration

open Phrase (all any many1 anyBut)

inductive Rule where
  | endOfInput
  | whitespace
  | propertyLine
  | attributeItem
  | attrName
  | attrArgs
  | attrArg
  | propName
  | display
  | displayInner
  | propType
  | rangeType
  | typeToken
  | number
  | defaultValue
  | vectorDefault
  | textureDefault
  | textureName
deriving DecidableEq, Repr, Inhabited

def style : Rule → RuleStyle
  | .whitespace => .silent
  | .attrName | .attrArg | .propName | .displayInner | .typeToken | .number
  | .textureName => .atomic
  | .display | .textureDefault => .compound
  | _ => .plain

private def wordChar : Phrase Rule :=
  any [.one .alphanumeric, "_"]

private def commaSeparated (item : Rule) : Phrase Rule :=
  all [.rule item, .many (all [",", .rule item])]

def body : Rule → Phrase Rule
  | .endOfInput => .endOfInput
  | .whitespace => any [" ", "\t"]
  | .propertyLine =>
    all
      [.startOfInput, .many (.rule .attributeItem), .rule .propName, "(", .rule .display,
        ",", .rule .propType, ")", "=", .rule .defaultValue, .rule .endOfInput]
  | .attributeItem =>
    all ["[", .rule .attrName, .opt (all ["(", .opt (.rule .attrArgs), ")"]), "]"]
  | .attrName => many1 (any [.one .alphanumeric, "_", "."])
  | .attrArgs => commaSeparated .attrArg
  | .attrArg => many1 (anyBut (any [",", ")", "]"]))
  | .propName => all ["_", .many wordChar]
  | .display => all ["\"", .rule .displayInner, "\""]
  | .displayInner => .many (anyBut "\"")
  | .propType => any [.rule .rangeType, .rule .typeToken]
  | .rangeType =>
    all [.caseless "Range".toList, "(", .rule .number, ",", .rule .number, ")"]
  | .typeToken => many1 wordChar
  | .number =>
    let digits := many1 (.one .digit)
    all
      [.opt (any ["-", "+"]),
        any
          [all [digits, .opt (all [".", .many (.one .digit)])], all [".", digits]],
        .opt (all [any ["e", "E"], .opt (any ["+", "-"]), digits]),
        .opt (any ["f", "F"])]
  | .defaultValue => any [.rule .vectorDefault, .rule .textureDefault, .rule .number]
  | .vectorDefault => all ["(", commaSeparated .number, ")"]
  | .textureDefault =>
    all
      ["\"", .rule .textureName, "\"", .many (.rule .whitespace),
        .opt (all ["\x7b", .many (anyBut "\x7d"), "\x7d"])]
  | .textureName => .many (anyBut "\"")

def grammar : Grammar Rule where
  style := style
  body := body
  blank := .many (.rule .whitespace)
  depth := 2000

end PanelSchema.Declaration
