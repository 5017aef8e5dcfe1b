import Mathlib.Data.Nat.Init
import PanelSchema.Proofs.Syntax.Field
import PanelSchema.Proofs.Syntax.Formula

/-!
How chains of binary operators are read. A rule for each level takes the operands and operators
of that level and of tighter ones, and leaves the looser ones to the rule that asked for it, so
the value of a field is grouped by the levels of its operators.
-/

namespace PanelSchema

namespace Source

/-- The rule of the operators of a level and of tighter ones. Operands stand above them all. -/
def layer : Nat → Rule
  | 0 => .coalesce
  | 1 => .logicalOr
  | 2 => .logicalAnd
  | 3 => .bitwiseOr
  | 4 => .bitwiseXor
  | 5 => .bitwiseAnd
  | 6 => .equality
  | 7 => .relational
  | 8 => .additive
  | 9 => .multiplicative
  | _ => .unary

def operatorRule : Nat → Rule
  | 0 => .opCoalesce
  | 1 => .opOr
  | 2 => .opAnd
  | 3 => .opBitOr
  | 4 => .opXor
  | 5 => .opBitAnd
  | 6 => .opEquality
  | 7 => .opRelational
  | 8 => .opAdditive
  | _ => .opMultiplicative

theorem level?_layer {k : Nat} (hk : k < 10) :
    level? (layer k) = some (layer (k + 1), operatorRule k) := by
  have h : ∀ k < 10, level? (layer k) = some (layer (k + 1), operatorRule k) := by decide
  exact h k hk

theorem style_layer (k : Nat) : style (layer k) = .plain := by
  unfold layer
  split <;> rfl

theorem body_of_level {r operand operator : Rule} (h : level? r = some (operand, operator)) :
    body r = .seq (.rule operand) (.many (.seq (.rule operator) (.rule operand))) := by
  cases r <;> cases h <;> rfl

end Source

namespace Syntax

open Source (Rule Identifier EndsName Solid grammar layer operatorRule)
open Grammar Build Reading

/-- What is joined to a name, in the order of the text. -/
abbrev Joined := List (BinaryOp × Identifier)

/-! ### The text -/

/-- The text that is joined to a name, with single spaces. -/
def joined (ops : Joined) : List Char :=
  ops.flatMap fun x => ' ' :: (x.1.token ++ ' ' :: x.2.text)

/-- The space before the next operator, if there is one. -/
def gap : Joined → List Char
  | [] => []
  | _ :: _ => [' ']

def onward : Joined → List Char
  | [] => closing
  | (op, b) :: ops => op.token ++ ' ' :: (b.text ++ (joined ops ++ closing))

/-- The text from the next operator on, up to where the others go on. -/
def rounds (others : Joined) : Joined → List Char
  | [] => []
  | (op, b) :: ops => op.token ++ ' ' :: (b.text ++ (joined ops ++ gap others))

theorem joined_append (ops others : Joined) :
    joined (ops ++ others) = joined ops ++ joined others :=
  List.flatMap_append

theorem joined_closing (ops : Joined) : joined ops ++ closing = gap ops ++ onward ops := by
  cases ops with
  | nil => rfl
  | cons x ops => simp [joined, gap, onward]

theorem onward_append (ops others : Joined) :
    onward (ops ++ others) = rounds others ops ++ onward others := by
  cases ops with
  | nil => rfl
  | cons x ops =>
    have hothers := joined_closing others
    rw [List.cons_append, onward, rounds, joined_append]
    simp [hothers]

theorem joined_gap (ops others : Joined) :
    joined ops ++ gap others = gap (ops ++ others) ++ rounds others ops := by
  cases ops with
  | nil => simp [joined, rounds]
  | cons x ops => simp [joined, gap, rounds]

/-- The characters by which other operands, calls and types are told. -/
def foreign : List Char :=
  ['(', '"', '\'', '\x7b']

section

variable {x : Char} (hx : x ∈ foreign)

include hx

theorem foreign_not_mem_text (a : Identifier) : x ∉ a.text := by
  have hforeign : foreign.all (fun y => !isNamePart y && y != '@') = true := by decide
  have hother := List.all_eq_true.1 hforeign x hx
  rw [Bool.and_eq_true, Bool.not_eq_true', bne_iff_ne] at hother
  have hchars : x ∉ a.chars := fun hmem => by simp [a.isNamePart_chars x hmem] at hother
  unfold Identifier.text
  split
  · simp [hother.2, hchars]
  · exact hchars

theorem foreign_not_mem_token (op : BinaryOp) : x ∉ op.token := by
  have htoken : op.token.all (fun y => !foreign.contains y) = true := by
    cases op <;> decide
  intro hmem
  simpa [hx] using List.all_eq_true.1 htoken x hmem

theorem foreign_not_mem_closing : x ∉ closing := by
  have hclosing : closing.all (fun y => !foreign.contains y) = true := by decide
  intro hmem
  simpa [hx] using List.all_eq_true.1 hclosing x hmem

theorem foreign_not_mem_joined (ops : Joined) : x ∉ joined ops := by
  have hspace : x ≠ ' ' := by
    rintro rfl
    exact foreign_not_mem_closing hx (by simp [closing])
  simp [joined, hspace, foreign_not_mem_token hx, foreign_not_mem_text hx]

theorem foreign_not_mem_operand (a : Identifier) (ops : Joined) :
    x ∉ a.text ++ (joined ops ++ closing) := by
  simp [foreign_not_mem_text hx, foreign_not_mem_joined hx, foreign_not_mem_closing hx]

end

/-! ### Operands -/

/-- The next operator or the end of the value, as far as it is known. -/
def frontOf : Joined → List Char
  | [] => [';']
  | (op, _) :: _ => op.token ++ [' ']

theorem fits_onward (ops : Joined) : Fits false ((frontOf ops).map .exactly) (onward ops) := by
  cases ops with
  | nil => exact .known [';'] [' ', '\x7d']
  | cons x ops =>
    simpa [frontOf, onward] using
      Fits.known (x.1.token ++ [' ']) (x.2.text ++ (joined ops ++ closing))

theorem refuses_onward (fuel : Nat) {sp : Spacing} {phrase : Phrase Rule} (ops : Joined)
    (hclosing : grammar.glance false fuel sp phrase [.exactly ';'] = .refused)
    (htoken : ∀ op ∈ ops.head?.map (·.1),
      grammar.glance false fuel sp phrase ((op.token ++ [' ']).map .exactly) = .refused) :
    Refuses grammar sp phrase (onward ops) := by
  refine refuses_of_glance fuel (fits_onward ops) ?_
  cases ops with
  | nil => exact hclosing
  | cons x ops => exact htoken x.1 rfl

theorem solid_onward (ops : Joined) : Solid (onward ops) :=
  ⟨refuses_onward 20 ops (by decide) fun op _ => by cases op <;> decide,
    refuses_onward 20 ops (by decide) fun op _ => by cases op <;> decide⟩

theorem takes_gap_onward (ops : Joined) :
    Takes grammar .atomic grammar.blank (gap ops) (onward ops) Bare := by
  cases ops with
  | nil => exact (solid_onward []).skips_nothing
  | cons x ops => exact (solid_onward (x :: ops)).skips_space

theorem refuses_postfixOp (ops : Joined) :
    Refuses grammar .loose (.rule .postfixOp) (onward ops) :=
  refuses_onward 20 ops (by decide) fun op _ => by cases op <;> decide

theorem endsName_joined (ops : Joined) : EndsName (joined ops ++ closing) := by
  cases ops with
  | nil => exact Source.endsName_cons (by decide) _
  | cons x ops =>
    rw [joined_closing]
    exact Source.endsName_cons (by decide) _

theorem takes_primary (a : Identifier) (ops : Joined) :
    Takes grammar .loose (.rule .primary) a.text (joined ops ++ closing)
      (Single (Covers .identifier a.text Bare)) := by
  have hends := endsName_joined ops
  have hlacks : ∀ x ∈ foreign, x ∉ a.text ++ (joined ops ++ closing) :=
    fun x hx => foreign_not_mem_operand hx a ops
  have hboolean : Refuses grammar .loose (.rule .boolean) (a.text ++ (joined ops ++ closing)) :=
    a.refuses_reserved 20 rfl rfl (by decide) (by decide) hends
  have hnull : Refuses grammar .loose (.rule .nullLiteral) (a.text ++ (joined ops ++ closing)) :=
    a.refuses_reserved 20 rfl rfl (by decide) (by decide) hends
  have hnew : Refuses grammar .loose (.rule .kwNew) (a.text ++ (joined ops ++ closing)) :=
    a.refuses_reserved 20 rfl rfl (by decide) (by decide) hends
  have hnumber : Refuses grammar .loose (.rule .number) (a.text ++ (joined ops ++ closing)) :=
    a.refuses 20 (by decide) (by decide) _
  apply Takes.silent rfl
  refine .right (Source.refuses_lacking rfl (hlacks '"' (by decide))) ?_
  refine .right (Source.refuses_lacking rfl (hlacks '\'' (by decide))) ?_
  refine .right hnumber (.right hboolean (.right hnull ?_))
  refine .right (Source.refuses_lacking rfl (hlacks '(' (by decide))) ?_
  refine .right (.rule (by decide) hnew.seq) ?_
  refine .right (Source.refuses_lacking rfl (hlacks '(' (by decide))) ?_
  refine .right (Source.refuses_lacking rfl (hlacks '(' (by decide))) ?_
  exact a.takes_identifier hends (by decide)

theorem takes_postfixExpr (a : Identifier) (ops : Joined) :
    Takes grammar .loose (.rule .postfixExpr) (a.text ++ gap ops) (onward ops)
      (Single (Covers .postfixExpr (a.text ++ gap ops)
        (Single (Covers .identifier a.text Bare)))) := by
  have hprimary := takes_primary a ops
  rw [joined_closing] at hprimary
  have hbody := Takes.loose hprimary (takes_gap_onward ops) (refuses_postfixOp ops).many
  rw [then_bare, List.append_nil] at hbody
  exact .piece (by decide) (by decide) hbody

/-! ### What is read -/

def named (ops : Joined) : List (BinaryOp × String) :=
  ops.map fun x => (x.1, x.2.name)

/-- The expression of a chain, grouped by the levels. The level is the least it may have. -/
def Groups (level : Nat) (a : Identifier) (ops : Joined) (e : Expr) : Prop :=
  ∃ t, e.formula? = some t ∧ t.Grouped ∧ level ≤ t.level ∧ t.chain = (a.name, named ops)

def ReadsAs (level : Nat) (a : Identifier) (ops : Joined) (p : Piece Rule) : Prop :=
  ∀ file, (ofPiece file p).expr.Yields (Groups level a ops)

theorem plainName_ofPiece {file : String} {a : Identifier} {p : Piece Rule}
    (h : p.chars = a.text) : (ofPiece file p).plainName = a.name := by
  unfold plainName
  rw [piece_ofPiece, h]
  unfold Identifier.text Identifier.name Identifier.chars
  split <;> rename_i heq
  · split at heq
    · cases heq
      rfl
    · have hfirst := a.isNameStart_first
      rw [(List.cons.inj heq).1] at hfirst
      exact absurd hfirst (by decide)
  · split at heq
    · exact absurd rfl (heq _)
    · rename_i hverbatim
      rw [if_neg hverbatim]

theorem readsAs_operand {cs ds : List Char} {a : Identifier} {p : Piece Rule}
    (h : Covers .unary cs (Single (Covers .postfixExpr ds
      (Single (Covers .identifier a.text Bare)))) p) : ReadsAs 10 a [] p := by
  obtain ⟨hrule, -, q, hq, hpostfix, -, r, hr, hname⟩ := h
  intro file
  rw [expr_ofPiece, hrule, hq]
  have hread : Build.expression (p.span file) .unary ([q].map (ofPiece file)) =
      mark (r.span file) >>= fun m => pure (.name m (ofPiece file r).plainName) := by
    simp [Build.expression, Build.unary, hpostfix, Build.suffixed, hr, hname.rule, Build.primary,
      Build.suffixes]
  rw [hread, plainName_ofPiece hname.chars]
  exact yields_marked _ fun m => ⟨.name a.name, rfl, trivial, Nat.le_refl _, rfl⟩

theorem Groups.binary {k : Nat} {a b : Identifier} {op : BinaryOp} {ops more : Joined}
    {left right : Expr} (hop : op.level = k) (hleft : Groups k a ops left)
    (hright : Groups (k + 1) b more right) (m : Mark) :
    Groups k a (ops ++ (op, b) :: more) (.binary m left op right) := by
  obtain ⟨t, ht, hgrouped, hlevel, hchain⟩ := hleft
  obtain ⟨u, hu, hgrouped', hlevel', hchain'⟩ := hright
  refine ⟨.binary t op u, ?_, ⟨hgrouped, hgrouped', ?_, ?_⟩, ?_, ?_⟩
  · simp [Expr.formula?, ht, hu]
  · omega
  · omega
  · exact Nat.le_of_eq hop.symm
  · simp [Formula.chain, hchain, hchain', named]

/-- The pieces of the rounds of a level carry on what is read before them. -/
def Folds (k : Nat) (ops : Joined) (ps : List (Piece Rule)) : Prop :=
  ∀ (file : String) (span : Span) (a : Identifier) (before : Joined) (left : Expr),
    Groups k a before left →
      (Build.chain span left (ps.map (ofPiece file))).Yields (Groups k a (before ++ ops))

theorem folds_nil (k : Nat) : Folds k [] [] := by
  intro file span a before left hleft
  rw [List.append_nil]
  exact yields_pure hleft

theorem folds_round {k : Nat} {op : BinaryOp} {b : Identifier} {more ops : Joined} {r : Rule}
    {ps qs : List (Piece Rule)} (hop : op.level = k)
    (hround : Then (Single (Covers r op.token Bare)) (Single (ReadsAs (k + 1) b more)) ps)
    (hrest : Folds k ops qs) : Folds k ((op, b) :: more ++ ops) (ps ++ qs) := by
  obtain ⟨_, _, ⟨o, rfl, ho⟩, ⟨p, rfl, hp⟩, rfl⟩ := hround
  intro file span a before left hleft
  have htoken : BinaryOp.ofToken? (ofPiece file o).piece.chars = some op := by
    rw [piece_ofPiece, ho.chars, BinaryOp.ofToken?_token]
  simp only [List.cons_append, List.nil_append, List.map_cons, Build.chain, htoken]
  refine (hp file).bind fun right hright => (yields_mark _).bind fun m _ => ?_
  have hnext := hrest file span a _ _ (hleft.binary hop hright m)
  rwa [List.append_assoc] at hnext

theorem Groups.mono {k l : Nat} {a : Identifier} {ops : Joined} {e : Expr} (h : Groups l a ops e)
    (hkl : k ≤ l) : Groups k a ops e := by
  obtain ⟨t, ht, hgrouped, hlevel, hchain⟩ := h
  exact ⟨t, ht, hgrouped, Nat.le_trans hkl hlevel, hchain⟩

theorem expression_layer {k : Nat} (hk : k < 10) (span : Span) (readings : List Reading) :
    Build.expression span (layer k) readings = binary span readings := by
  match k, hk with
  | 0, _ | 1, _ | 2, _ | 3, _ | 4, _ | 5, _ | 6, _ | 7, _ | 8, _ | 9, _ => rfl

theorem readsAs_level {k : Nat} (hk : k < 10) {cs : List Char} {a : Identifier}
    {tighter more : Joined} {p : Piece Rule}
    (h : Covers (layer k) cs (Then (Single (ReadsAs (k + 1) a tighter)) (Folds k more)) p) :
    ReadsAs k a (tighter ++ more) p := by
  obtain ⟨hrule, -, _, ps, ⟨q, rfl, hq⟩, hps, hinner⟩ := h
  intro file
  rw [expr_ofPiece, hrule, expression_layer hk, hinner]
  exact (hq file).bind fun left hleft =>
    hps file _ a tighter left (hleft.mono (Nat.le_succ k))

/-! ### Levels -/

/-- The rule of a level takes what operators of that level and of tighter ones join. -/
def TakesLayer (k : Nat) : Prop :=
  ∀ (a : Identifier) (mine others : Joined), (∀ x ∈ mine, k ≤ x.1.level) →
    (∀ x ∈ others.head?, x.1.level < k) →
    Takes grammar .loose (.rule (layer k)) (a.text ++ (joined mine ++ gap others)) (onward others)
      (Single (ReadsAs k a mine))

theorem takesLayer_operand : TakesLayer 10 := by
  intro a mine others hmine hothers
  cases mine with
  | cons x mine =>
    have hlevel := hmine x (by simp)
    have := x.1.level_lt
    omega
  | nil =>
    have hprefix : Refuses grammar .loose (.rule .prefixOp)
        (a.text ++ gap others ++ onward others) := by
      rw [List.append_assoc]
      exact a.refuses 20 (by decide) (by decide) _
    have hlacks : '(' ∉ a.text ++ gap others ++ onward others := by
      rw [List.append_assoc, ← joined_closing]
      exact foreign_not_mem_operand (by decide) a others
    have hcast : Refuses grammar .loose (.rule .cast) (a.text ++ gap others ++ onward others) :=
      Source.refuses_lacking rfl hlacks
    have hbody : Takes grammar .loose (grammar.body .unary) (a.text ++ gap others)
        (onward others) _ :=
      .right hprefix.seq (.right hcast.seq (takes_postfixExpr a others))
    have hunary : Takes grammar .loose (.rule .unary) (a.text ++ gap others) (onward others) _ :=
      .piece (by decide) (by decide) hbody
    refine hunary.mono ?_
    rintro _ ⟨p, rfl, hp⟩
    exact ⟨p, rfl, readsAs_operand hp⟩

theorem takes_operator (op : BinaryOp) (rest : List Char) :
    Takes grammar .loose (.rule (operatorRule op.level)) op.token (' ' :: rest)
      (Single (Covers (operatorRule op.level) op.token Bare)) := by
  have hfits : Fits false [.exactly ' '] (' ' :: rest) := ⟨' ', rest, rfl, rfl, nofun⟩
  cases op <;>
    exact .piece (by decide) (by decide) (takes_of_glance 20 hfits (by decide))

theorem refuses_operator {k : Nat} (hk : k < 10) {others : Joined}
    (h : ∀ x ∈ others.head?, x.1.level < k) :
    Refuses grammar .loose (.rule (operatorRule k)) (onward others) := by
  have hclosing : ∀ k < 10,
      grammar.glance false 20 .loose (.rule (operatorRule k)) [.exactly ';'] = .refused := by
    decide
  have htoken : ∀ op : BinaryOp, ∀ k < 10, op.level < k →
      grammar.glance false 20 .loose (.rule (operatorRule k)) ((op.token ++ [' ']).map .exactly) =
        .refused := by
    intro op
    cases op <;> decide
  refine refuses_onward 20 others (hclosing k hk) fun op hop => ?_
  obtain ⟨x, hx, rfl⟩ := Option.map_eq_some_iff.1 hop
  exact htoken x.1 k hk (h x hx)

theorem exists_split {k : Nat} {ops : Joined} (h : ∀ x ∈ ops, k ≤ x.1.level) :
    ∃ tighter more, ops = tighter ++ more ∧ (∀ x ∈ tighter, k + 1 ≤ x.1.level) ∧
      (∀ x ∈ more.head?, x.1.level = k) ∧ ∀ x ∈ more, k ≤ x.1.level := by
  refine ⟨ops.takeWhile (k < ·.1.level), ops.dropWhile (k < ·.1.level),
    List.takeWhile_append_dropWhile.symm, fun x hx => ?_, fun x hx => ?_,
    fun x hx => h x (List.dropWhile_subset _ hx)⟩
  · exact of_decide_eq_true (List.all_eq_true.1 List.all_takeWhile x hx)
  · have hnot := List.head?_dropWhile_not (k < ·.1.level) ops
    rw [hx] at hnot
    have hle := h x (List.dropWhile_subset _ (List.mem_of_mem_head? hx))
    simp at hnot
    omega

section

variable {k : Nat} (hlayer : TakesLayer (k + 1)) {others : Joined}
  (hothers : ∀ x ∈ others.head?, x.1.level < k)

include hlayer hothers

theorem takes_operand (b : Identifier) {tighter more : Joined}
    (htighter : ∀ x ∈ tighter, k + 1 ≤ x.1.level) (hmore : ∀ x ∈ more.head?, x.1.level = k) :
    Takes grammar .loose (.rule (layer (k + 1)))
      (b.text ++ (joined tighter ++ gap (more ++ others))) (onward (more ++ others))
      (Single (ReadsAs (k + 1) b tighter)) := by
  refine hlayer b tighter (more ++ others) htighter fun x hx => ?_
  cases more with
  | nil => exact Nat.lt_succ_of_lt (hothers x hx)
  | cons y more => exact Nat.lt_succ_of_le (Nat.le_of_eq (hmore x hx))

theorem takes_round {op : BinaryOp} (hop : op.level = k) (b : Identifier) {tighter more : Joined}
    (htighter : ∀ x ∈ tighter, k + 1 ≤ x.1.level) (hmore : ∀ x ∈ more.head?, x.1.level = k) :
    Takes grammar .loose (.seq (.rule (operatorRule k)) (.rule (layer (k + 1))))
      (op.token ++ ' ' :: (b.text ++ (joined tighter ++ gap (more ++ others))))
      (onward (more ++ others))
      (Then (Single (Covers (operatorRule k) op.token Bare))
        (Single (ReadsAs (k + 1) b tighter))) := by
  have hoperand := takes_operand hlayer hothers b htighter hmore
  have hsolid : Solid (b.text ++ (joined tighter ++ gap (more ++ others)) ++
      onward (more ++ others)) := by
    rw [List.append_assoc]
    exact b.solid _
  subst hop
  exact Source.takes_spaced (takes_operator op _) hsolid hoperand

theorem takes_rounds (hk : k < 10) {mine : Joined} (hmine : ∀ x ∈ mine, k ≤ x.1.level)
    (hhead : ∀ x ∈ mine.head?, x.1.level = k) :
    Takes grammar .loose (.many (.seq (.rule (operatorRule k)) (.rule (layer (k + 1)))))
      (rounds others mine) (onward others) (Folds k mine) := by
  -- By the length: a round also takes the tighter operators behind its own.
  induction hlength : mine.length using Nat.strongRecOn generalizing mine with
  | ind n ih =>
  cases mine with
  | nil =>
    refine (refuses_operator hk hothers).seq.many.mono ?_
    rintro _ rfl
    exact folds_nil k
  | cons y mine =>
    obtain ⟨op, b⟩ := y
    rw [List.forall_mem_cons] at hmine
    obtain ⟨tighter, more, rfl, htighter, hmore, hmore'⟩ := exists_split hmine.2
    have hop : op.level = k := hhead (op, b) rfl
    have hround := takes_round hlayer hothers hop b htighter hmore
    have hblank := (solid_onward (more ++ others)).skips_nothing
    have htext : rounds others ((op, b) :: (tighter ++ more)) =
        op.token ++ ' ' :: (b.text ++ (joined tighter ++ gap (more ++ others))) ++
          ([] ++ rounds others more) := by
      have hjoined := joined_gap more others
      rw [rounds, joined_append, List.append_assoc, hjoined]
      simp
    rw [htext]
    cases more with
    | nil =>
      have hlast := hround.last hblank (refuses_operator hk hothers).seq
      rw [rounds, List.append_nil, List.append_nil]
      refine hlast.mono fun ps hps => ?_
      simpa using folds_round hop hps (folds_nil k)
    | cons x more =>
      have hshorter : (x :: more).length < n := by simp at hlength ⊢; omega
      have hrest := ih _ hshorter hmore' hmore rfl
      have hstarts := hrest.starts_of_many (by simp [rounds])
      rw [onward_append] at hround hblank
      refine (hround.more hblank hstarts hrest).mono ?_
      rintro _ ⟨ps, qs, hps, hqs, rfl⟩
      exact folds_round hop hps hqs

end

/-- Each level takes its operators if the next tighter one does. -/
theorem TakesLayer.step {k : Nat} (hk : k < 10) (h : TakesLayer (k + 1)) : TakesLayer k := by
  intro a mine others hmine hothers
  obtain ⟨tighter, more, rfl, htighter, hmore, hmore'⟩ := exists_split hmine
  have hfirst := takes_operand h hothers a htighter hmore
  have hsolid := solid_onward (more ++ others)
  rw [onward_append] at hfirst hsolid
  have hbody := Source.takes_joined hfirst hsolid (takes_rounds h hothers hk hmore' hmore)
  have htext : a.text ++ (joined tighter ++ gap (more ++ others)) ++ rounds others more =
      a.text ++ (joined (tighter ++ more) ++ gap others) := by
    have hjoined := joined_gap more others
    rw [joined_append, List.append_assoc (joined tighter), hjoined]
    simp
  rw [htext, ← Source.body_of_level (Source.level?_layer hk)] at hbody
  refine (Source.takes_plain (Source.style_layer k) hbody).mono ?_
  rintro _ ⟨p, rfl, hp⟩
  exact ⟨p, rfl, readsAs_level hk hp⟩

theorem takesLayer {k : Nat} (hk : k ≤ 10) : TakesLayer k := by
  induction hk using Nat.decreasingInduction with
  | self => exact takesLayer_operand
  | of_succ k hk ih => exact TakesLayer.step hk ih

/-! ### Values -/

theorem takes_expression (a : Identifier) (ops : Joined) :
    Takes grammar .loose (.rule .expression) (a.text ++ joined ops) closing
      (Single fun p => p.rule = .expression ∧ ReadsAs 0 a ops p) := by
  have hchain := takesLayer (Nat.zero_le 10) a ops [] (fun x _ => Nat.zero_le _) nofun
  rw [gap, List.append_nil] at hchain
  have hternary : Refuses grammar .loose (.rule .ternaryOp) closing :=
    refuses_closing 20 (by decide)
  have hassign : Refuses grammar .loose (.rule .assignOp) closing :=
    refuses_closing 20 (by decide)
  have hconditional : Takes grammar .loose (.rule .conditional) (a.text ++ joined ops) closing _ :=
    Source.takes_plain rfl (Source.takes_alone hchain solid_closing hternary.seq.opt)
  have hexpression : Takes grammar .loose (.rule .expression) (a.text ++ joined ops) closing _ :=
    Source.takes_plain rfl (Source.takes_alone hconditional solid_closing hassign.seq.opt)
  refine hexpression.mono ?_
  rintro _ ⟨p, rfl, hrule, -, q, hq, -, -, r, hr, hreads⟩
  refine ⟨p, rfl, hrule, fun file => ?_⟩
  have hread : (ofPiece file p).expr = (ofPiece file r).expr := by
    rw [expr_ofPiece, hrule]
    simp [Build.expression, Build.conditional, hq, hr]
  rw [hread]
  exact hreads file

end Syntax

end PanelSchema
