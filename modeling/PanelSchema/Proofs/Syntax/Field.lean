import PanelSchema.Proofs.Source.Outline
import PanelSchema.Proofs.Source.Tokens
import PanelSchema.Proofs.Syntax.Parse

/-!
A source with one class and one field in it. Where the rule of expressions takes the value of
the field whole, the source is read, and the field has what the value is read as.
-/

namespace PanelSchema.Syntax

open Source (Rule Identifier EndsName Solid grammar)
open Grammar Build Reading

def closing : List Char :=
  [';', ' ', '\x7d']

theorem solid_closing : Solid closing :=
  Source.solid_of_known 20 [';'] [' ', '\x7d'] (by decide) (by decide)

theorem refuses_closing (fuel : Nat) {phrase : Phrase Rule}
    (h : grammar.glance false fuel .loose phrase [.exactly ';'] = .refused) :
    Refuses grammar .loose phrase closing :=
  refuses_of_known fuel [';'] [' ', '\x7d'] h

/-- A value that is taken as an expression up to where the field ends. -/
structure TakesValue (v : List Char) (P : Piece Rule → Prop) : Prop where
  solid : Solid (v ++ closing)
  not_list : Refuses grammar .loose (.rule .arrayInitializer) (v ++ closing)
  takes : Takes grammar .loose (.rule .expression) v closing
    (Single fun p => p.rule = .expression ∧ P p)

def assigned (v : List Char) : List Char :=
  (['='] ++ ' ' :: v) ++ [';']

/-- What a field with a value stands in. A name that is a modifier is no type. -/
structure FieldFrame where
  owner : Identifier
  type : Identifier
  name : Identifier
  type_not_modifier : type.name ∉ Source.modifiers

namespace FieldFrame

variable (f : FieldFrame)

/-- The field, as its rule takes it. -/
def member (v : List Char) : List Char :=
  (f.type.text ++ [' ']) ++ (f.name.text ++ ' ' :: assigned v)

def declaration (v : List Char) : List Char :=
  ['c', 'l', 'a', 's', 's'] ++
    ' ' :: (f.owner.text ++ ' ' :: (['\x7b'] ++ ' ' :: (f.member v ++ ' ' :: ['\x7d'])))

/-- A class with one field of that value. -/
def around (v : List Char) : String :=
  String.ofList
    ("class ".toList ++ f.owner.text ++ " \x7b ".toList ++ f.type.text ++ " ".toList ++ f.name.text
      ++ " = ".toList ++ v ++ "; \x7d".toList)

theorem toList_around (v : List Char) : (f.around v).toList = f.declaration v := by
  unfold around declaration member assigned
  rw [String.toList_ofList]
  simp

theorem member_append (v rest : List Char) :
    f.member v ++ rest = f.type.text ++ ' ' :: (f.name.text ++ ' ' :: (assigned v ++ rest)) := by
  simp [member]

end FieldFrame

/-! ### The field -/

theorem takes_typeName (t n : Identifier) (rest : List Char) :
    Takes grammar .loose (.rule .typeName) (t.text ++ [' ']) (n.text ++ rest)
      (Single (Covers .typeName (t.text ++ [' ']) fun _ => True)) := by
  have hends : EndsName (' ' :: (n.text ++ rest)) := Source.endsName_cons (by decide) _
  have hdot : Refuses grammar .compound (.text ['.']) (' ' :: (n.text ++ rest)) :=
    refuses_of_known 20 [' '] _ (by decide)
  have hdots : Takes grammar .compound (.many (.seq (.text ['.']) (.rule .identifier))) []
      (' ' :: (n.text ++ rest)) Bare := hdot.seq.many
  have hname := (t.takes_identifier hends (by decide)).tight (by decide) hdots
  rw [List.append_nil] at hname
  have hqualified : Takes grammar .loose (.rule .qualifiedName) t.text
      (' ' :: (n.text ++ rest)) _ :=
    .piece (by decide) (by decide) hname
  have hgeneric : Refuses grammar .loose (.rule .genericArgs) (n.text ++ rest) :=
    n.refuses 20 (by decide) (by decide) rest
  have hoptional : Refuses grammar .loose (.text ['?']) (n.text ++ rest) :=
    n.refuses 20 (by decide) (by decide) rest
  have harray : Refuses grammar .loose (.rule .arrayRank) (n.text ++ rest) :=
    n.refuses 20 (by decide) (by decide) rest
  have hsolid := n.solid rest
  have hsuffix := Source.takes_alone hgeneric.opt hsolid
    (Source.takes_alone hoptional.opt hsolid harray.many)
  have hbody : Takes grammar .loose (Source.body .typeName) (t.text ++ ' ' :: [])
      (n.text ++ rest) _ :=
    Source.takes_spaced hqualified hsolid hsuffix
  exact Source.takes_plain rfl (hbody.mono fun _ _ => trivial)

section

variable {v : List Char} {P : Piece Rule → Prop}

theorem takes_initialValue (hv : TakesValue v P) :
    Takes grammar .loose Source.initialValue (['='] ++ ' ' :: v) closing
      (Single fun p => p.rule = .expression ∧ P p) := by
  have hvalue := Source.takes_spaced (takes_text ['='] _) hv.solid (.right hv.not_list hv.takes)
  rw [bare_then] at hvalue
  exact hvalue.present

theorem takes_assigned (hv : TakesValue v P) :
    Takes grammar .loose (.seq Source.initialValue (.text [';'])) (assigned v) [' ', '\x7d']
      (Single fun p => p.rule = .expression ∧ P p) := by
  have hvalue : Takes grammar .loose (.seq Source.initialValue (.text [';'])) (assigned v)
      [' ', '\x7d'] _ :=
    Source.takes_joined (takes_initialValue hv) solid_closing (takes_text [';'] _)
  rwa [then_bare] at hvalue

end

theorem solid_assigned (v rest : List Char) : Solid (assigned v ++ rest) :=
  Source.solid_of_known 20 ['='] _ (by decide) (by decide)

theorem refuses_assigned (fuel : Nat) {phrase : Phrase Rule}
    (h : grammar.glance false fuel .loose phrase [.exactly '='] = .refused) (v rest : List Char) :
    Refuses grammar .loose phrase (assigned v ++ rest) :=
  refuses_of_known fuel ['='] _ h

namespace FieldFrame

variable (f : FieldFrame) (v : List Char)

theorem solid_member (rest : List Char) : Solid (f.member v ++ rest) := by
  rw [f.member_append]
  exact f.type.solid _

theorem refuses_before (rest : List Char) :
    Refuses grammar .loose (.rule .attributes) (f.member v ++ rest) ∧
      Refuses grammar .loose (.rule .modifier) (f.member v ++ rest) := by
  rw [f.member_append]
  exact ⟨f.type.refuses 20 (by decide) (by decide) _,
    f.type.refuses_words 40 rfl Source.body_modifier (by decide) (by decide)
      (fun _ => f.type_not_modifier) (Source.endsName_cons (by decide) _)⟩

theorem takes_name (rest : List Char) :
    Takes grammar .loose (.rule .identifier) f.name.text (' ' :: (assigned v ++ rest))
      (Single (Covers .identifier f.name.text Bare)) :=
  f.name.takes_identifier (Source.endsName_cons (by decide) _) (by decide)

theorem refuses_named {phrase : Phrase Rule} {rest : List Char}
    (h : Refuses grammar .loose phrase (assigned v ++ rest)) :
    Refuses grammar .loose (.seq (.rule .identifier) phrase)
      (f.name.text ++ ' ' :: (assigned v ++ rest)) :=
  Refuses.loose (f.takes_name v rest) (solid_assigned v rest).skips_space h

theorem refuses_classBody (rest : List Char) :
    Refuses grammar .loose
      (.seq (.opt (.rule .typeParameters)) (.seq (.opt (.rule .baseList))
        (.seq (.many (.rule .constraintClause)) (.seq (.text ['\x7b'])
          (.seq (.many (.rule .classMember)) (.seq (.text ['\x7d']) (.opt (.text [';']))))))))
      (assigned v ++ rest) := by
  have hparameters : Refuses grammar .loose (.rule .typeParameters) (assigned v ++ rest) :=
    refuses_assigned 20 (by decide) v rest
  have hbase : Refuses grammar .loose (.rule .baseList) (assigned v ++ rest) :=
    refuses_assigned 20 (by decide) v rest
  have hconstraint : Refuses grammar .loose (.rule .constraintClause) (assigned v ++ rest) :=
    refuses_assigned 20 (by decide) v rest
  have hbrace : Refuses grammar .loose (.text ['\x7b']) (assigned v ++ rest) :=
    refuses_assigned 20 (by decide) v rest
  have hsolid := solid_assigned v rest
  exact Source.refuses_behind hparameters.opt hsolid (Source.refuses_behind hbase.opt hsolid
    (Source.refuses_behind hconstraint.many hsolid hbrace.seq))

/-- The word for a record is no keyword, so it may be the type, but a record has a body where the
field has its value. -/
theorem refuses_classDecl (rest : List Char) :
    Refuses grammar .loose (.rule .classDecl) (f.member v ++ rest) := by
  rw [f.member_append]
  apply Refuses.rule (by decide)
  by_cases hrecord : f.type.text = ['r', 'e', 'c', 'o', 'r', 'd']
  · have hword : Takes grammar .atomic (grammar.body .kwType) ['r', 'e', 'c', 'o', 'r', 'd']
        (' ' :: (f.name.text ++ ' ' :: (assigned v ++ rest))) Bare :=
      takes_of_glance 20 (Fits.known [' '] _) (by decide)
    have hkeyword : Takes grammar .loose (.rule .kwType) ['r', 'e', 'c', 'o', 'r', 'd']
        (' ' :: (f.name.text ++ ' ' :: (assigned v ++ rest))) _ :=
      hword.piece (by decide) (by decide)
    rw [hrecord]
    exact Refuses.loose hkeyword (f.name.solid _).skips_space
      (f.refuses_named v (refuses_classBody v rest))
  · have hfree : f.type.verbatim = false →
        f.type.name ∉ ["class", "struct", "interface", "record"] := by
      intro hverbatim hmem
      have hwords : ∀ w ∈ ["class", "struct", "interface", "record"],
          w ∈ Source.keywords ∨ w = "record" := by decide
      rcases hwords _ hmem with hkeyword | hname
      · exact f.type.not_keyword hkeyword
      · have hchars : f.type.chars = ['r', 'e', 'c', 'o', 'r', 'd'] := by
          rw [← String.toList_ofList (l := f.type.chars)]
          exact congrArg String.toList hname
        exact hrecord (by simp [Identifier.text, hverbatim, hchars])
    have hkeyword : Refuses grammar .loose (.rule .kwType)
        (f.type.text ++ ' ' :: (f.name.text ++ ' ' :: (assigned v ++ rest))) :=
      f.type.refuses_words 40 rfl rfl (by decide) (by decide) hfree
        (Source.endsName_cons (by decide) _)
    exact hkeyword.seq

theorem refuses_enumDecl (rest : List Char) :
    Refuses grammar .loose (.rule .enumDecl) (f.member v ++ rest) := by
  rw [f.member_append]
  have hkeyword : Refuses grammar .loose (.rule .kwEnum)
      (f.type.text ++ ' ' :: (f.name.text ++ ' ' :: (assigned v ++ rest))) :=
    f.type.refuses_reserved 20 rfl rfl (by decide) (by decide)
      (Source.endsName_cons (by decide) _)
  exact .rule (by decide) hkeyword.seq

theorem refuses_typeDecl (rest : List Char) :
    Refuses grammar .loose (.rule .typeDecl) (f.member v ++ rest) := by
  obtain ⟨hattributes, hmodifier⟩ := f.refuses_before v rest
  have hmember := f.solid_member v rest
  exact .rule (by decide) (Source.refuses_behind hattributes.opt hmember
    (Source.refuses_behind hmodifier.many hmember
      ((f.refuses_classDecl v rest).alt (f.refuses_enumDecl v rest))))

theorem refuses_methodDecl (rest : List Char) :
    Refuses grammar .loose (.rule .methodDecl) (f.member v ++ rest) := by
  obtain ⟨hattributes, hmodifier⟩ := f.refuses_before v rest
  have hmember := f.solid_member v rest
  have hparameters : Refuses grammar .loose (.rule .typeParameters) (assigned v ++ rest) :=
    refuses_assigned 20 (by decide) v rest
  have hopen : Refuses grammar .loose (.text ['(']) (assigned v ++ rest) :=
    refuses_assigned 20 (by decide) v rest
  have hname := f.refuses_named v (Source.refuses_behind hparameters.opt (solid_assigned v rest)
    (hopen.seq (b := .seq (.opt (.rule .parameterList)) (.seq (.text [')'])
      (.seq (.many (.rule .constraintClause)) (.rule .block))))))
  have htyped : Refuses grammar .loose _
      (f.type.text ++ [' '] ++ ([] ++ (f.name.text ++ ' ' :: (assigned v ++ rest)))) :=
    .loose (takes_typeName f.type f.name (' ' :: (assigned v ++ rest)))
      (f.name.solid _).skips_nothing hname
  have htext : f.type.text ++ [' '] ++ ([] ++ (f.name.text ++ ' ' :: (assigned v ++ rest))) =
      f.member v ++ rest := by
    simp [member]
  rw [htext] at htyped
  exact .rule (by decide) (Source.refuses_behind hattributes.opt hmember
    (Source.refuses_behind hmodifier.many hmember htyped))

section

variable {v} {P : Piece Rule → Prop}

def IsField (v : List Char) (P : Piece Rule → Prop) (p : Piece Rule) : Prop :=
  Covers .fieldDecl (f.member v)
    (Then (Single (Covers .typeName (f.type.text ++ [' ']) fun _ => True))
      (Then (Single (Covers .identifier f.name.text Bare))
        (Single fun p => p.rule = .expression ∧ P p))) p

theorem takes_field (hv : TakesValue v P) :
    Takes grammar .loose (.rule .fieldDecl) (f.member v) [' ', '\x7d']
      (Single (f.IsField v P)) := by
  have hname := Source.takes_spaced (f.takes_name v [' ', '\x7d']) (solid_assigned v _)
    (takes_assigned hv)
  have htype := takes_typeName f.type f.name (' ' :: assigned v ++ [' ', '\x7d'])
  have hsolid := f.name.solid (' ' :: assigned v ++ [' ', '\x7d'])
  rw [← List.append_assoc] at htype hsolid
  have htyped := Source.takes_joined htype hsolid hname
  obtain ⟨hattributes, hmodifier⟩ := f.refuses_before v [' ', '\x7d']
  have hmember := f.solid_member v [' ', '\x7d']
  exact Source.takes_plain rfl (Source.takes_behind hattributes.opt hmember
    (Source.takes_behind hmodifier.many hmember htyped))

/-! ### The class -/

theorem takes_member (hv : TakesValue v P) :
    Takes grammar .loose (.rule .classMember) (f.member v) [' ', '\x7d']
      (Single (f.IsField v P)) :=
  .silent rfl (.right (f.refuses_typeDecl v _)
    (.right (f.refuses_methodDecl v _) (f.takes_field hv).left))

def IsClass (v : List Char) (P : Piece Rule → Prop) (p : Piece Rule) : Prop :=
  Covers .classDecl (f.declaration v)
    (Then (Single fun p => p.rule = .kwType)
      (Then (Single (Covers .identifier f.owner.text Bare)) (Single (f.IsField v P)))) p

theorem takes_body (hv : TakesValue v P) :
    Takes grammar .loose
      (.seq (.text ['\x7b'])
        (.seq (.many (.rule .classMember)) (.seq (.text ['\x7d']) (.opt (.text [';'])))))
      (['\x7b'] ++ ' ' :: (f.member v ++ ' ' :: ['\x7d'])) [] (Single (f.IsField v P)) := by
  have hends : Fits true [] [] := fun _ => rfl
  have hsemicolon : Refuses grammar .loose (.text [';']) [] :=
    refuses_of_glance 20 hends (by decide)
  have hclose := Source.takes_alone (takes_text ['\x7d'] []) Source.solid_nil hsemicolon.opt
  have hbrace : Solid ['\x7d'] := Source.solid_of_known 20 ['\x7d'] [] (by decide) (by decide)
  have hnone : Refuses grammar .loose (.rule .classMember) ['\x7d'] :=
    refuses_of_known 100 ['\x7d'] [] (by decide)
  have hmembers := (f.takes_member hv).last hbrace.skips_space hnone
  have hrest : Takes grammar .loose _ (f.member v ++ ' ' :: ['\x7d']) [] _ :=
    Source.takes_spaced hmembers hbrace hclose
  have hsolid : Solid (f.member v ++ ' ' :: ['\x7d'] ++ []) := by
    rw [List.append_assoc]
    exact f.solid_member v _
  have hbody := Source.takes_spaced (takes_text ['\x7b'] _) hsolid hrest
  rwa [bare_then, then_bare] at hbody

theorem takes_class (hv : TakesValue v P) :
    Takes grammar .loose (.rule .classDecl) (f.declaration v) [] (Single (f.IsClass v P)) := by
  let text := ['\x7b'] ++ ' ' :: (f.member v ++ ' ' :: ['\x7d'])
  have hbrace : Solid (text ++ []) := Source.solid_of_known 20 ['\x7b'] _ (by decide) (by decide)
  have hparameters : Refuses grammar .loose (.rule .typeParameters) (text ++ []) :=
    refuses_of_known 20 ['\x7b'] _ (by decide)
  have hbase : Refuses grammar .loose (.rule .baseList) (text ++ []) :=
    refuses_of_known 20 ['\x7b'] _ (by decide)
  have hconstraint : Refuses grammar .loose (.rule .constraintClause) (text ++ []) :=
    refuses_of_known 20 ['\x7b'] _ (by decide)
  have hbody := Source.takes_behind hparameters.opt hbrace
    (Source.takes_behind hbase.opt hbrace
      (Source.takes_behind hconstraint.many hbrace (f.takes_body hv)))
  have hnamed := Source.takes_spaced (f.owner.takes_identifier (Source.endsName_cons (by decide) _)
    (by decide)) hbrace hbody
  have hkeyword : Takes grammar .loose (.rule .kwType) ['c', 'l', 'a', 's', 's']
      (' ' :: (f.owner.text ++ ' ' :: text ++ [])) (Single fun p => p.rule = .kwType) := by
    have hfits := Fits.known [' '] (f.owner.text ++ ' ' :: text ++ [])
    have hword : Takes grammar .atomic (grammar.body .kwType) ['c', 'l', 'a', 's', 's']
        (' ' :: (f.owner.text ++ ' ' :: text ++ [])) Bare :=
      takes_of_glance 20 hfits (by decide)
    refine (hword.piece (by decide) (by decide)).mono ?_
    rintro _ ⟨p, rfl, hp⟩
    exact ⟨p, rfl, hp.rule⟩
  have hsolid : Solid (f.owner.text ++ ' ' :: text ++ []) := by
    rw [List.append_assoc]
    exact f.owner.solid _
  exact Source.takes_plain rfl (Source.takes_spaced hkeyword hsolid hnamed)

end

/-! ### The source -/

theorem declaration_append (rest : List Char) :
    ∃ more, f.declaration v ++ rest = ['c', 'l', 'a', 's', 's', ' '] ++ more :=
  ⟨_, rfl⟩

theorem solid_declaration (rest : List Char) : Solid (f.declaration v ++ rest) := by
  obtain ⟨more, hmore⟩ := f.declaration_append v rest
  rw [hmore]
  exact Source.solid_of_known 20 _ more (by decide) (by decide)

theorem refuses_declaration (fuel : Nat) {phrase : Phrase Rule}
    (h : grammar.glance false fuel .loose phrase
      (['c', 'l', 'a', 's', 's', ' '].map .exactly) = .refused) (rest : List Char) :
    Refuses grammar .loose phrase (f.declaration v ++ rest) := by
  obtain ⟨more, hmore⟩ := f.declaration_append v rest
  rw [hmore]
  exact refuses_of_known fuel _ more h

section

variable {v} {P : Piece Rule → Prop}

theorem takes_item (hv : TakesValue v P) :
    Takes grammar .loose (.rule .topItem) (f.declaration v) []
      (Single (Covers .typeDecl (f.declaration v) (Single (f.IsClass v P)))) := by
  have hattributes : Refuses grammar .loose (.rule .attributes) (f.declaration v ++ []) :=
    f.refuses_declaration v 20 (by decide) []
  have hmodifier : Refuses grammar .loose (.rule .modifier) (f.declaration v ++ []) :=
    f.refuses_declaration v 40 (by decide) []
  have husing : Refuses grammar .loose (.rule .usingDirective) (f.declaration v ++ []) :=
    f.refuses_declaration v 20 (by decide) []
  have hnamespace : Refuses grammar .loose (.rule .namespaceDecl) (f.declaration v ++ []) :=
    f.refuses_declaration v 20 (by decide) []
  have hsolid := f.solid_declaration v []
  have htype : Takes grammar .loose (.rule .typeDecl) (f.declaration v) [] _ :=
    Source.takes_plain rfl (Source.takes_behind hattributes.opt hsolid
      (Source.takes_behind hmodifier.many hsolid (f.takes_class hv).left))
  exact .silent rfl (.right husing (.right hnamespace htype.left))

def IsSource (v : List Char) (P : Piece Rule → Prop) (ps : List (Piece Rule)) : Prop :=
  Then (Single (Covers .typeDecl (f.declaration v) (Single (f.IsClass v P))))
    (Single fun p => p.rule = .endOfInput) ps

theorem match_declaration (hv : TakesValue v P) :
    ∃ root, grammar.match? .sourceFile (f.declaration v) = .ok [root] ∧
      f.IsSource v P root.inner := by
  have hends : Fits true [] [] := fun _ => rfl
  have hnone : Refuses grammar .loose (.rule .topItem) [] :=
    refuses_of_glance 100 hends (by decide)
  have hitems : Takes grammar .loose (.many (.rule .topItem)) (f.declaration v) ([] ++ []) _ :=
    (f.takes_item hv).last Source.solid_nil.skips_nothing hnone
  have hend : Takes grammar .loose (.rule .endOfInput) [] []
      (Single fun p => p.rule = .endOfInput) := by
    have hbody : Takes grammar .loose (Source.body .endOfInput) [] [] fun _ => True := by
      intro c hc
      have h : Answers grammar .loose .endOfInput c _ := .endOfInput
      rw [hc] at h
      exact ⟨c, [], h, .rfl, trivial⟩
    refine (Source.takes_plain rfl hbody).mono ?_
    rintro _ ⟨p, rfl, hp⟩
    exact ⟨p, rfl, hp.rule⟩
  have hrest := Source.takes_joined hitems Source.solid_nil hend
  rw [List.append_nil] at hrest
  -- Only the start of the input depends on where the text stands.
  let c : Cursor := { rest := f.declaration v }
  have hstart : Answers grammar .loose .startOfInput c (some (c, [])) := .startOfInput
  obtain ⟨d, _, hblank, htook, rfl⟩ :=
    (f.solid_declaration v []).skips_nothing c (List.append_nil _).symm
  obtain ⟨e, ps, hps, -, hpieces⟩ := hrest d (htook.rest_eq (List.append_nil _).symm)
  have hsource : Answers grammar .loose (.rule .sourceFile) c _ :=
    .rule (by decide) (.seq_loose hstart hblank hps)
  exact ⟨_, match_of_answers Source.bounded (by decide) hsource, hpieces⟩

end

/-! ### What is read -/

theorem typeText_ofPiece {file : String} {t : Identifier} {p : Piece Rule}
    (h : p.chars = t.text ++ [' ']) : (ofPiece file p).typeText = String.ofList t.text := by
  have hnone : ∀ x ∈ t.text, isBlank x = false := by
    have hchars : ∀ x ∈ t.chars, isBlank x = false := fun x hx =>
      isBlank_of_isNamePart (t.isNamePart_chars x hx)
    unfold Identifier.text
    split
    · exact List.forall_mem_cons.2 ⟨by decide, hchars⟩
    · exact hchars
  unfold typeText
  rw [piece_ofPiece, h, List.filter_append, List.filter_eq_self.2 (by simpa using hnone)]
  simp [isBlank]

def Declares (Q : Expr → Prop) (d : Decl) : Prop :=
  ∃ m e, d = .field m [] [] (String.ofList f.type.text) (String.ofList f.name.text) (some e) ∧ Q e

section

variable {f v} {file : String} {P : Piece Rule → Prop} {Q : Expr → Prop}
  (hread : ∀ p, P p → (ofPiece file p).expr.Yields Q)

include hread

theorem IsField.yields {p : Piece Rule} (h : f.IsField v P p) :
    ∃ b, (ofPiece file p).decl? = some b ∧ b.Yields (f.Declares Q) := by
  obtain ⟨hrule, -, _, _, ⟨t, rfl, ht⟩,
    ⟨_, _, ⟨n, rfl, hn⟩, ⟨x, rfl, hx, hP⟩, rfl⟩, hinner⟩ := h
  refine ⟨Build.field (p.span file) (p.inner.map (ofPiece file)), ?_, ?_⟩
  · rw [decl_ofPiece]
    unfold declaration?
    rw [hrule]
  · have hbuild : Build.field (p.span file) (p.inner.map (ofPiece file)) =
        (ofPiece file x).expr >>= fun e => mark (p.span file) >>= fun m =>
          pure (.field m [] [] (ofPiece file t).typeText (ofPiece file n).text (some e)) := by
      simp [Build.field, attributesOf, typeOf?, nameOf?, hinner, ht.rule, hn.rule, hx]
    rw [hbuild, typeText_ofPiece ht.chars]
    refine (hread x hP).bind fun e he => yields_marked _ fun m => ?_
    exact ⟨m, e, by rw [text, piece_ofPiece, Piece.text, hn.chars], he⟩

omit hread in
theorem decl_eq_none {p : Piece Rule} (h : p.rule ∈ [.kwType, .identifier, .endOfInput]) :
    (ofPiece file p).decl? = none := by
  rw [decl_ofPiece]
  unfold declaration?
  simp only [List.mem_cons, List.not_mem_nil, or_false] at h
  rcases h with h | h | h <;> rw [h]

theorem IsClass.yields {p : Piece Rule} (h : f.IsClass v P p) :
    (Build.classDecl [] (ofPiece file p)).Yields fun d =>
      ∃ m field, d = .classDecl m [] (String.ofList f.owner.text) [field] ∧
        f.Declares Q field := by
  obtain ⟨-, -, _, _, ⟨k, rfl, hk⟩, ⟨_, _, ⟨n, rfl, hn⟩, ⟨x, rfl, hx⟩, rfl⟩, hinner⟩ := h
  obtain ⟨b, hb, hyields⟩ := hx.yields hread
  have hkeyword : (ofPiece file k).decl? = none := decl_eq_none (by simp [hk])
  have hname : (ofPiece file n).decl? = none := decl_eq_none (by simp [hn.rule])
  have hbuild : Build.classDecl [] (ofPiece file p) =
      b >>= fun field => mark (p.span file) >>= fun m =>
        pure (.classDecl m [] (ofPiece file n).text [field]) := by
    simp [Build.classDecl, nameOf?, decls, hinner, hk, hn.rule, hkeyword, hname, hb]
  rw [hbuild]
  refine hyields.bind fun field hfield => yields_marked _ fun m => ?_
  exact ⟨m, field, by rw [text, piece_ofPiece, Piece.text, hn.chars], hfield⟩

theorem IsSource.yields {root : Piece Rule} (h : f.IsSource v P root.inner) :
    (Build.sourceTree (ofPiece file root)).Yields fun tree =>
      ∃ m field, tree.body = [.classDecl m [] (String.ofList f.owner.text) [field]] ∧
        f.Declares Q field := by
  obtain ⟨_, _, ⟨t, rfl, htype, -, c, hc, hclass⟩, ⟨e, rfl, he⟩, hinner⟩ := h
  have hend : (ofPiece file e).decl? = none := decl_eq_none (by simp [he])
  have hdecl : (ofPiece file t).decl? = some (Build.classDecl [] (ofPiece file c)) := by
    rw [decl_ofPiece]
    unfold declaration?
    rw [htype]
    simp [Build.typeDecl, attributesOf, hc, hclass.rule]
  have hbuild : Build.sourceTree (ofPiece file root) =
      Build.classDecl [] (ofPiece file c) >>= fun d => mark (root.span file) >>= fun m =>
        pure { mark := m, body := [d] } := by
    simp [Build.sourceTree, decls, hinner, hdecl, hend]
  rw [hbuild]
  refine (hclass.yields hread).bind fun d hd => yields_marked _ fun m => ?_
  obtain ⟨m', field, rfl, hfield⟩ := hd
  exact ⟨m', field, rfl, hfield⟩

theorem parse_around (f : FieldFrame) (hv : TakesValue v P) :
    ∃ tree m m' e,
      (parse file (f.around v)).result = .ok tree ∧
      tree.body = [.classDecl m [] (String.ofList f.owner.text)
        [.field m' [] [] (String.ofList f.type.text) (String.ofList f.name.text) (some e)]] ∧
      Q e := by
  obtain ⟨root, hmatch, hpieces⟩ := f.match_declaration hv
  obtain ⟨tree, htree, m, field, hbody, m', e, rfl, he⟩ := hpieces.yields hread {}
  rw [← f.toList_around v] at hmatch
  have hblank : (f.around v).toList.all isBlank = false := by
    rw [f.toList_around]
    rfl
  exact ⟨tree, m, m', e, (parse_of_match hblank hmatch).1 tree htree, hbody, he⟩

end

end FieldFrame

def letter (x : Char) (h : isNameStart x = true ∧ String.ofList [x] ∉ Source.keywords) :
    Identifier where
  first := x
  others := []
  isNameStart_first := h.1
  isNamePart_others := nofun
  not_keyword := h.2

def smallFrame : FieldFrame where
  owner := letter 'K' (by decide)
  type := letter 'T' (by decide)
  name := letter 'f' (by decide)
  type_not_modifier := by decide

end PanelSchema.Syntax
