import PanelSchema.Proofs.Grammar.Glance
import PanelSchema.Source.Grammar
import PanelSchema.Text.Blank

/-!
The tokens of the source grammar: words, names and blanks, and which phrases refuse a text for
its first characters or for one that it lacks.
-/

namespace PanelSchema

/-! ### Enough for each character -/

namespace Source

def rank : Rule → Nat
  | .statement => 20
  | .expressionStmt | .argument | .initializerElement => 19
  | .expression => 18
  | .conditional => 17
  | .coalesce => 16
  | .logicalOr => 15
  | .logicalAnd => 14
  | .bitwiseOr => 13
  | .bitwiseXor => 12
  | .bitwiseAnd => 11
  | .equality => 10
  | .relational => 9
  | .additive => 8
  | .multiplicative => 7
  | .classMember | .parameterList | .unary => 6
  | .sourceFile | .methodDecl | .parameter | .fieldDecl | .usingDeclaration | .localDecl
  | .postfixExpr => 5
  | .typeName | .topItem | .attributeItem | .primary => 4
  | .qualifiedName | .typeDecl | .enumMember | .switchSection | .argumentName | .genericName => 3
  | .identifier | .attributes | .classDecl | .enumDecl | .parameterModifier | .elseClause
  | .switchLabel | .loopHeader | .returnStmt | .skippedStmt | .postfixOp | .newExpr => 2
  | _ => 1

/-- No rule nests eighty phrases before it comes to one that stands lower. -/
def measure : Measure Rule where
  solid r := !(r matches .endOfInput | .stringInner | .loopHeader | .sourceFile)
  height loose r := 80 * rank r + (if loose then 100 else 0)
  blank := 100

theorem bounded : grammar.Bounded measure where
  solid := by
    intro r
    cases r <;> decide
  fits := by
    intro loose r
    cases loose <;> cases r <;> decide +kernel
  height := by
    intro loose r
    cases loose <;> cases r <;> decide +kernel
  fits_blank := by decide
  blank := by decide

end Source

/-! ### Names -/

def isNameStart (x : Char) : Bool :=
  x.isAlpha || x == '_'

def isNamePart (x : Char) : Bool :=
  x.isAlphanum || x == '_'

theorem isNamePart_of_isNameStart {x : Char} (h : isNameStart x = true) : isNamePart x = true := by
  delta isNameStart at h
  delta isNamePart Char.isAlphanum
  cases hx : x.isAlpha <;> simp_all

theorem isDigit_of_isNameStart {x : Char} (h : isNameStart x = true) : x.isDigit = false := by
  delta isNameStart Char.isAlpha Char.isUpper Char.isLower at h
  simp only [Bool.or_eq_true, Bool.and_eq_true, decide_eq_true_eq, UInt32.le_iff_toNat_le,
    beq_iff_eq, ge_iff_le] at h
  rw [Bool.eq_false_iff]
  delta Char.isDigit
  simp only [ne_eq, Bool.and_eq_true, decide_eq_true_eq, UInt32.le_iff_toNat_le, ge_iff_le]
  have hdigits : '0'.val.toNat = 48 ∧ '9'.val.toNat = 57 := by decide
  have hletters : 'A'.val.toNat = 65 ∧ 'Z'.val.toNat = 90 ∧ 'a'.val.toNat = 97 := by decide
  rcases h with (h | h) | rfl
  · omega
  · omega
  · decide

theorem isBlank_of_isNamePart {x : Char} (h : isNamePart x = true) : isBlank x = false := by
  have hrange : 48 ≤ x.toNat ∧ x.toNat ≤ 122 := by
    delta isNamePart Char.isAlphanum Char.isAlpha Char.isUpper Char.isLower Char.isDigit at h
    simp only [Bool.or_eq_true, Bool.and_eq_true, decide_eq_true_eq, UInt32.le_iff_toNat_le,
      beq_iff_eq, ge_iff_le] at h
    have hdigits : '0'.val.toNat = 48 ∧ '9'.val.toNat = 57 := by decide
    have hletters : 'A'.val.toNat = 65 ∧ 'Z'.val.toNat = 90 ∧ 'a'.val.toNat = 97 ∧
        'z'.val.toNat = 122 := by decide
    have hx : x.toNat = x.val.toNat := rfl
    rcases h with ((h | h) | h) | rfl
    · omega
    · omega
    · omega
    · decide
  rw [Bool.eq_false_iff]
  simp only [isBlank, ne_eq, Bool.or_eq_true, Bool.and_eq_true, decide_eq_true_eq, beq_iff_eq]
  omega

def Clue.nameStart : Clue where
  holds x := isNameStart x = true
  is? y := if isNameStart y then none else some false
  isOf?
    | .any => some true
    | .digit => some false
    | _ => none
  is_sound := by
    intro x y b hx h
    split at h
    · cases h
    · rename_i hy
      cases h
      rw [beq_eq_false_iff_ne]
      rintro rfl
      exact hy hx
  isOf_sound := by
    intro x k b hx h
    cases k <;> cases h
    · rfl
    · exact isDigit_of_isNameStart hx

namespace Source

open Grammar

def keywords : List String :=
  ["abstract", "as", "break", "case", "catch", "checked", "class", "const", "continue", "default",
    "delegate", "do", "else", "enum", "event", "extern", "false", "finally", "fixed", "foreach",
    "for", "goto", "if", "interface", "internal", "in", "is", "lock", "namespace", "new", "null",
    "operator", "out", "override", "params", "private", "protected", "public", "readonly", "ref",
    "return", "sealed", "static", "struct", "switch", "throw", "true", "try", "typeof",
    "unchecked", "unsafe", "using", "virtual", "while"]

def modifiers : List String :=
  ["public", "private", "protected", "internal", "static", "readonly", "const", "override",
    "virtual", "sealed", "abstract", "partial", "new", "unsafe", "extern", "async", "volatile"]

theorem keywords_parts : keywords.all (·.toList.all isNamePart) = true := by
  decide

theorem body_keyword : body .keyword = word keywords := rfl

theorem body_modifier : body .modifier = word modifiers := rfl

/-- A name, maybe behind an at sign. -/
structure Identifier where
  verbatim : Bool := false
  first : Char
  others : List Char
  isNameStart_first : isNameStart first = true
  isNamePart_others : ∀ x ∈ others, isNamePart x = true
  not_keyword : String.ofList (first :: others) ∉ keywords

namespace Identifier

def chars (a : Identifier) : List Char :=
  a.first :: a.others

def name (a : Identifier) : String :=
  String.ofList a.chars

def text (a : Identifier) : List Char :=
  if a.verbatim then '@' :: a.chars else a.chars

theorem isNamePart_chars (a : Identifier) : ∀ x ∈ a.chars, isNamePart x = true :=
  List.forall_mem_cons.2 ⟨isNamePart_of_isNameStart a.isNameStart_first, a.isNamePart_others⟩

end Identifier

def EndsName (rest : List Char) : Prop :=
  ∀ x ∈ rest.head?, isNamePart x = false

section

variable {sp : Spacing} {cs rest text : List Char} {x : Char}

theorem takes_identStart (hx : isNameStart x = true) (rest : List Char) :
    Takes grammar sp (.rule .identStart) [x] rest Bare := by
  apply Takes.silent rfl
  by_cases halpha : x.isAlpha = true
  · exact (takes_one (k := .letter) halpha rest).left
  · have hunder : x = '_' := by simpa [isNameStart, halpha] using hx
    subst hunder
    exact .right (refuses_one fun y hy => by cases hy; rfl) (takes_text ['_'] rest)

theorem takes_identChar (hx : isNamePart x = true) (rest : List Char) :
    Takes grammar sp (.rule .identChar) [x] rest Bare := by
  apply Takes.silent rfl
  by_cases halnum : x.isAlphanum = true
  · exact (takes_one (k := .alphanumeric) halnum rest).left
  · have hunder : x = '_' := by simpa [isNamePart, halnum] using hx
    subst hunder
    exact .right (refuses_one fun y hy => by cases hy; rfl) (takes_text ['_'] rest)

theorem refuses_identChar (h : EndsName rest) : Refuses grammar sp (.rule .identChar) rest := by
  apply Refuses.silent rfl
  refine .alt (refuses_one fun x hx => ?_) (refuses_text fun hunder => ?_)
  · have := h x hx
    simp only [isNamePart, Bool.or_eq_false_iff] at this
    exact this.1
  · obtain ⟨tail, rfl⟩ := hunder
    exact absurd (h '_' rfl) (by decide)

theorem takes_identChars (hsp : sp ≠ .loose) (hcs : ∀ x ∈ cs, isNamePart x = true)
    (hrest : EndsName rest) : Takes grammar sp (.many (.rule .identChar)) cs rest Bare := by
  induction cs with
  | nil => exact (refuses_identChar hrest).many
  | cons x cs ih =>
    rw [List.forall_mem_cons] at hcs
    have h := (takes_identChar hcs.1 (cs ++ rest)).more_tight hsp (ih hcs.2)
    rwa [then_bare] at h

theorem any_words (words : List String) (text : List Char) :
    Refuses grammar sp (Phrase.any (words.map fun w => .text w.toList)) text ∨
      ∃ w ∈ words, ∃ rest, text = w.toList ++ rest ∧
        Takes grammar sp (Phrase.any (words.map fun w => .text w.toList)) w.toList rest Bare := by
  induction words with
  | nil => exact .inl (takes_text [] text).starts.never
  | cons w words ih =>
    by_cases hw : w.toList <+: text
    · obtain ⟨rest, rfl⟩ := hw
      refine .inr ⟨w, by simp, rest, rfl, ?_⟩
      cases words with
      | nil => exact takes_text _ _
      | cons w' words => exact (takes_text _ _).left
    · have hrefuses : Refuses grammar sp (.text w.toList) text := refuses_text hw
      cases words with
      | nil => exact .inl hrefuses
      | cons w' words =>
        rcases ih with ih | ⟨v, hv, rest, rfl, ih⟩
        · exact .inl (hrefuses.alt ih)
        · exact .inr ⟨v, List.mem_cons_of_mem _ hv, rest, rfl, .right hrefuses ih⟩

theorem goes_on {word rest' : List Char} (hword : ∀ x ∈ word, isNamePart x = true)
    (hcs : ∀ x ∈ cs, isNamePart x = true) (hrest : EndsName rest) (hne : cs ≠ word)
    (heq : cs ++ rest = word ++ rest') : ∃ y ys, rest' = y :: ys ∧ isNamePart y = true := by
  rcases List.append_eq_append_iff.1 heq with ⟨ds, hds, hrest'⟩ | ⟨ds, hds, hrest'⟩
  · cases ds with
    | nil => exact absurd (by simpa using hds.symm) hne
    | cons y ds =>
      have hy := hword y (by simp [hds])
      exact absurd (hrest y (by simp [hrest'])) (by simp [hy])
  · cases ds with
    | nil => exact absurd (by simpa using hds) hne
    | cons y ds => exact ⟨y, ds ++ rest, by simpa using hrest', hcs y (by simp [hds])⟩

/-- A name that is none of the words is not taken for one, even if it starts with one. -/
theorem refuses_word {words : List String} (hsp : sp ≠ .loose)
    (hwords : words.all (·.toList.all isNamePart) = true)
    (hcs : ∀ x ∈ cs, isNamePart x = true) (hrest : EndsName rest)
    (hfree : String.ofList cs ∉ words) : Refuses grammar sp (word words) (cs ++ rest) := by
  rcases any_words words (cs ++ rest) with h | ⟨w, hw, rest', heq, h⟩
  · exact h.seq
  · have hne : cs ≠ w.toList := by
      rintro rfl
      exact hfree (by simpa using hw)
    have hword := List.all_eq_true.1 (List.all_eq_true.1 hwords w hw)
    obtain ⟨y, ys, rfl, hy⟩ := goes_on hword hcs hrest hne heq
    rw [heq]
    exact .tight hsp h (takes_identChar hy ys).starts.never

theorem endsName_cons (hx : isNamePart x = false) (rest : List Char) : EndsName (x :: rest) := by
  intro y hy
  cases hy
  exact hx

theorem refuses_words {r : Rule} {words : List String} (hstyle : style r = .atomic)
    (hbody : body r = word words) (hwords : words.all (·.toList.all isNamePart) = true)
    (hcs : ∀ x ∈ cs, isNamePart x = true) (hrest : EndsName rest)
    (hfree : String.ofList cs ∉ words) : Refuses grammar sp (.rule r) (cs ++ rest) := by
  have hinner : innerSpacing (grammar.style r) sp = .atomic := by
    change innerSpacing (style r) sp = .atomic
    rw [hstyle]
    rfl
  apply Refuses.rule (by change style r ≠ .silent; rw [hstyle]; decide)
  change Refuses grammar _ (body r) _
  rw [hbody, hinner]
  exact refuses_word (by decide) hwords hcs hrest hfree

/-! ### Blanks -/

/-- The text starts with nothing that is skipped. -/
structure Solid (rest : List Char) : Prop where
  whitespace : Refuses grammar .atomic (.rule .whitespace) rest
  comment : Refuses grammar .atomic (.rule .comment) rest

theorem solid_of_known (fuel : Nat) (cs rest : List Char)
    (hwhitespace :
      grammar.glance false fuel .atomic (.rule .whitespace) (cs.map .exactly) = .refused)
    (hcomment : grammar.glance false fuel .atomic (.rule .comment) (cs.map .exactly) = .refused) :
    Solid (cs ++ rest) :=
  ⟨refuses_of_known fuel cs rest hwhitespace, refuses_of_known fuel cs rest hcomment⟩

theorem solid_nil : Solid [] := by
  have hends : Fits true [] [] := fun _ => rfl
  exact ⟨refuses_of_glance 20 hends (by decide), refuses_of_glance 20 hends (by decide)⟩

section

variable (h : Solid rest)

include h

theorem Solid.skips_comments :
    Takes grammar .atomic
      (.many (.seq (.rule .comment) (.many (.rule .whitespace)))) [] rest Bare :=
  h.comment.seq.many

theorem Solid.skips_nothing : Takes grammar .atomic blank [] rest Bare := by
  have hblank := Takes.tight (by decide) h.whitespace.many h.skips_comments
  rwa [then_bare] at hblank

theorem Solid.skips_space : Takes grammar .atomic blank [' '] rest Bare := by
  have hspace : Takes grammar .atomic (.rule .whitespace) [' '] ([] ++ rest) Bare :=
    .silent rfl (takes_text [' '] rest).left
  have hspaces := hspace.more_tight (by decide) h.whitespace.many
  have hblank := Takes.tight (by decide) hspaces h.skips_comments
  rwa [then_bare, then_bare] at hblank

end

section

variable {a b : Phrase Rule} {ds : List Char} {P Q : List (Piece Rule) → Prop}

theorem takes_spaced (ha : Takes grammar .loose a cs (' ' :: (ds ++ rest)) P)
    (hsolid : Solid (ds ++ rest)) (hb : Takes grammar .loose b ds rest Q) :
    Takes grammar .loose (.seq a b) (cs ++ ' ' :: ds) rest (Then P Q) :=
  Takes.loose ha hsolid.skips_space hb

theorem takes_joined (ha : Takes grammar .loose a cs (ds ++ rest) P)
    (hsolid : Solid (ds ++ rest)) (hb : Takes grammar .loose b ds rest Q) :
    Takes grammar .loose (.seq a b) (cs ++ ds) rest (Then P Q) :=
  Takes.loose ha hsolid.skips_nothing hb

theorem takes_behind (ha : Takes grammar .loose a [] (ds ++ rest) Bare)
    (hsolid : Solid (ds ++ rest)) (hb : Takes grammar .loose b ds rest Q) :
    Takes grammar .loose (.seq a b) ds rest Q := by
  have h := takes_joined ha hsolid hb
  rwa [bare_then] at h

theorem refuses_behind (ha : Takes grammar .loose a [] text Bare) (hsolid : Solid text)
    (hb : Refuses grammar .loose b text) : Refuses grammar .loose (.seq a b) text := by
  have h : Refuses grammar .loose (.seq a b) ([] ++ ([] ++ text)) :=
    .loose ha hsolid.skips_nothing hb
  exact h

theorem takes_alone (ha : Takes grammar .loose a cs rest P) (hsolid : Solid rest)
    (hb : Takes grammar .loose b [] rest Bare) : Takes grammar .loose (.seq a b) cs rest P := by
  have h : Takes grammar .loose (.seq a b) (cs ++ []) rest (Then P Bare) :=
    takes_joined ha hsolid hb
  rwa [List.append_nil, then_bare] at h

end

theorem takes_plain {r : Rule} (hstyle : style r = .plain) {P : List (Piece Rule) → Prop}
    (h : Takes grammar .loose (body r) cs rest P) :
    Takes grammar .loose (.rule r) cs rest (Single (Covers r cs P)) := by
  have hgrammar : grammar.style r = .plain := hstyle
  refine .piece (by simp [hgrammar]) (by rw [hgrammar]; decide) ?_
  rwa [hgrammar]

/-! ### Texts that lack a character -/

theorem refuses_lacking {r : Rule} (hwants : (body r).wants x = true) (hx : x ∉ text) :
    Refuses grammar sp (.rule r) text := by
  by_cases hstyle : grammar.style r = .silent
  · exact .silent hstyle (refuses_of_wants bounded (bounded.fits _ r) hwants hx)
  · exact .rule hstyle (refuses_of_wants bounded (bounded.fits _ r) hwants hx)

/-! ### Names before a text -/

namespace Identifier

variable (a : Identifier)

theorem fits_text (rest : List Char) :
    Fits false (if a.verbatim then [.exactly '@', .nameStart] else [.nameStart])
      (a.text ++ rest) := by
  have hstart : Fits false [.nameStart] (a.chars ++ rest) :=
    ⟨a.first, a.others ++ rest, rfl, a.isNameStart_first, nofun⟩
  unfold text
  split
  · exact ⟨'@', a.chars ++ rest, rfl, rfl, hstart⟩
  · exact hstart

theorem refuses (fuel : Nat) {phrase : Phrase Rule}
    (hplain : grammar.glance false fuel sp phrase [.nameStart] = .refused)
    (hverbatim : grammar.glance false fuel sp phrase [.exactly '@', .nameStart] = .refused)
    (rest : List Char) : Refuses grammar sp phrase (a.text ++ rest) := by
  refine refuses_of_glance fuel (a.fits_text rest) ?_
  split
  · exact hverbatim
  · exact hplain

theorem solid (rest : List Char) : Solid (a.text ++ rest) :=
  ⟨a.refuses 20 (by decide) (by decide) rest,
    a.refuses 20 (by decide) (by decide) rest⟩

theorem refuses_words (fuel : Nat) {r : Rule} {words : List String} (hstyle : style r = .atomic)
    (hbody : body r = word words) (hwords : words.all (·.toList.all isNamePart) = true)
    (hverbatim : grammar.glance false fuel sp (.rule r) [.exactly '@', .nameStart] = .refused)
    (hfree : a.verbatim = false → a.name ∉ words) (hrest : EndsName rest) :
    Refuses grammar sp (.rule r) (a.text ++ rest) := by
  have hfits := a.fits_text rest
  cases hat : a.verbatim with
  | true =>
    rw [hat] at hfits
    exact refuses_of_glance fuel hfits hverbatim
  | false =>
    have htext : a.text = a.chars := by simp [text, hat]
    rw [htext]
    exact Source.refuses_words hstyle hbody hwords a.isNamePart_chars hrest (hfree hat)

theorem refuses_reserved (fuel : Nat) {r : Rule} {words : List String} (hstyle : style r = .atomic)
    (hbody : body r = word words) (hwords : ∀ w ∈ words, w ∈ keywords)
    (hverbatim : grammar.glance false fuel sp (.rule r) [.exactly '@', .nameStart] = .refused)
    (hrest : EndsName rest) : Refuses grammar sp (.rule r) (a.text ++ rest) := by
  have hparts : words.all (·.toList.all isNamePart) = true :=
    List.all_eq_true.2 fun w hw => List.all_eq_true.1 keywords_parts w (hwords w hw)
  exact a.refuses_words fuel hstyle hbody hparts hverbatim
    (fun _ h => a.not_keyword (hwords _ h)) hrest

theorem takes_name (hrest : EndsName rest) :
    Takes grammar .atomic (body .identifier) a.text rest Bare := by
  have hkeyword : Refuses grammar .atomic (.rule .keyword) (a.chars ++ rest) :=
    Source.refuses_words rfl body_keyword keywords_parts a.isNamePart_chars hrest
      a.not_keyword
  have hstart : Takes grammar .atomic (.rule .identStart) [a.first] (a.others ++ rest) Bare :=
    takes_identStart a.isNameStart_first _
  have hname := hstart.tight (by decide) (takes_identChars (by decide) a.isNamePart_others hrest)
  have hfree := hkeyword.never.tight (by decide) hname
  rw [then_bare, then_bare] at hfree
  have hat : Takes grammar .atomic (.opt (.text ['@'])) (if a.verbatim then ['@'] else [])
      (a.chars ++ rest) Bare := by
    split
    · exact (takes_text _ _).present
    · refine (refuses_text fun hat => ?_).opt
      obtain ⟨tail, hat⟩ := hat
      have hfirst := a.isNameStart_first
      rw [← (List.cons.inj hat).1] at hfirst
      exact absurd hfirst (by decide)
  have hbody := hat.tight (by decide) hfree
  have htext : (if a.verbatim then ['@'] else []) ++ a.chars = a.text := by
    unfold text
    split <;> rfl
  rw [then_bare] at hbody
  exact htext ▸ hbody

theorem takes_identifier (hrest : EndsName rest) (hsp : sp ≠ .atomic) :
    Takes grammar sp (.rule .identifier) a.text rest (Single (Covers .identifier a.text Bare)) := by
  have hkept : outerSpacing (grammar.style .identifier) sp ≠ .atomic := hsp
  exact .piece (by decide) hkept (a.takes_name hrest)

end Identifier

end

end Source

end PanelSchema
