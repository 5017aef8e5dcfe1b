import Mathlib.Data.List.Infix
import PanelSchema.Proofs.Source.Spacing
import PanelSchema.Proofs.Syntax.Inserted

/-!
Blanks and comments between tokens. A source stays one when they are added, and its tree is the
same but for positions and for the texts of types, which keep the comments in them. A name with
dots in a type takes no blanks, so nothing is said of a place in one.
-/

namespace PanelSchema.Syntax

open Source (Rule spreads grammar style)
open Grammar Build Reading

/-- What is added is in the text of the piece. The place is inside it, or at its end in a way that
has what follows taken with it. -/
def Engulfs (i : Insertion) (p : Piece Rule) : Prop :=
  ∃ x y, x ≠ [] ∧ i.Splits x y p ∧ (y = [] → Source.Overruns i p x)

section

variable {file : String} {i : Insertion} {p q : Piece Rule}

theorem sameChars_of_rule (h : i.Kin (spreads i) p q)
    (hrule : ∀ x y, i.Widened x y p q → ¬spreads i p x y) : q.chars = p.chars := by
  rcases h with h | ⟨x, y, hspreads, hwidened⟩
  · exact h
  · exact absurd hspreads (hrule x y hwidened)

theorem sameChars_of_token (h : i.Kin (spreads i) p q)
    (hrule : p.rule ∉ [.sourceFile, .stringInner, .stringLiteral, .charLiteral])
    (hstyle : style p.rule ≠ .plain) : q.chars = p.chars := by
  refine sameChars_of_rule h fun x y _ hspreads => ?_
  simp only [List.mem_cons, List.not_mem_nil, or_false, not_or] at hrule
  simp [spreads, hrule, hstyle] at hspreads

theorem sameChars_of_literal (hwhole : ¬i.Within p)
    (hrule : p.rule ∈ [.stringLiteral, .charLiteral]) (h : i.Kin (spreads i) p q) :
    q.chars = p.chars := by
  refine sameChars_of_rule h fun x y hwidened hspreads => hwhole ?_
  simp only [List.mem_cons, List.not_mem_nil, or_false] at hrule
  -- a literal that ends at the place is the same in both texts
  have hsides : x ≠ [] ∧ y ≠ [] := by
    rcases hrule with hrule | hrule <;> simpa [spreads, hrule, Source.style] using hspreads
  exact ⟨x, y, hsides.1, hsides.2, hwidened.splits⟩

theorem sameChars_of_plain (hwhole : ¬Engulfs i p)
    (hrule : p.rule ∉ [.sourceFile, .stringInner, .stringLiteral, .charLiteral])
    (h : i.Kin (spreads i) p q) : q.chars = p.chars := by
  refine sameChars_of_rule h fun x y hwidened hspreads => hwhole ?_
  simp only [List.mem_cons, List.not_mem_nil, or_false, not_or] at hrule
  simp only [spreads, hrule, or_self, false_and, or_false, false_or] at hspreads
  obtain ⟨hx, -, hends⟩ := hspreads
  exact ⟨x, y, hx, hwidened.splits, hends⟩

/-- What is kept of the pieces is the same where the place is in none of them that keeps its text,
but for types. -/
theorem bond_spaced {l : Latitude}
    (hliteral : ∀ p, HasPiece i.bare p → p.rule ∈ [.stringLiteral, .charLiteral] → ¬i.Within p)
    (hskipped : ∀ p, HasPiece i.bare p → p.rule = .skippedStmt → ¬Engulfs i p)
    (htype : ∀ p, HasPiece i.bare p → p.rule ∉ untypedRules → ∀ x x', x ∈ p.inner →
      x.rule = .typeName → i.Kin (spreads i) x x' →
        l (ofPiece file x).typeText (ofPiece file x').typeText)
    (h : Alike (i.Kin (spreads i)) p q) (hpiece : HasPiece i.bare p)
    (hstands : Stands grammar i.bare p) (hstands' : Stands grammar i.filled q) :
    Bond l (ofPiece file p) (ofPiece file q) := by
  have hkin := h.isKin
  refine bond_of_alike h hstands hstands' (fun hk => ?_) fun hk x x' hmem hx hrule =>
    htype p hpiece hk x x' hmem hrule hx.isKin
  by_cases hkept : p.rule ∈ [.stringLiteral, .charLiteral]
  · exact sameChars_of_literal (hliteral p hpiece hkept) hkept hkin
  by_cases hskip : p.rule = .skippedStmt
  · exact sameChars_of_plain (hskipped p hpiece hskip) (by simp [hskip]) hkin
  · have hrules : ∀ r ∈ Rule.stringLiteral :: exactRules,
        r ∉ [.stringLiteral, .charLiteral] → r ≠ .skippedStmt →
          r ∉ [.sourceFile, .stringInner, .stringLiteral, .charLiteral] ∧ style r ≠ .plain := by
      decide
    obtain ⟨hrule, hstyle⟩ := hrules p.rule hk hkept hskip
    exact sameChars_of_token hkin hrule hstyle

theorem type_of_blank (hblank : ∀ x ∈ i.added, isBlank x = true) (h : i.Kin (spreads i) p q) :
    (ofPiece file p).typeText = (ofPiece file q).typeText := by
  have hnone : i.added.filter (! isBlank ·) = [] := by simpa using hblank
  rcases textWith_type file h with h | ⟨x, y, hp, hq⟩
  · exact h.symm
  · rw [hp, hq, hnone, List.nil_append]

theorem type_of_whole (hwhole : ¬Engulfs i p) (hrule : p.rule = .typeName)
    (h : i.Kin (spreads i) p q) : (ofPiece file p).typeText = (ofPiece file q).typeText := by
  have hchars := sameChars_of_plain hwhole (by simp [hrule]) h
  simp [typeText, hchars]

/-- Something that is added leaves a text that is not blank so. -/
theorem filled_not_blank (h : i.bare.all isBlank = false) : i.filled.all isBlank = false := by
  simp only [Insertion.bare, Insertion.filled, List.all_append] at h ⊢
  revert h
  cases i.front.all isBlank <;> cases i.back.all isBlank <;> simp

/-- Blanks and comments between tokens do not matter where the place is as `Spaced` says, in no
literal and in no skipped statement, but for comments in the text of a type. -/
theorem parse_filled (h : Source.Spaced i)
    (hliteral : ∀ p, HasPiece i.bare p → p.rule ∈ [.stringLiteral, .charLiteral] → ¬i.Within p)
    (hskipped : ∀ p, HasPiece i.bare p → p.rule = .skippedStmt → ¬Engulfs i p)
    {tree : SourceTree} (htree : (parse file (String.ofList i.bare)).result = .ok tree) :
    ∃ tree', (parse file (String.ofList i.filled)).result = .ok tree' ∧
      tree.Agree (TextWith (i.added.filter (! isBlank ·))) tree' ∧
      ((∀ x ∈ i.added, isBlank x = true) ∨
          (∀ p, HasPiece i.bare p → p.rule ∉ untypedRules → ∀ x ∈ p.inner, x.rule = .typeName →
            ¬Engulfs i x) →
        tree.Agree Eq tree') := by
  have hblank : i.bare.all isBlank = false := by
    cases hall : i.bare.all isBlank with
    | false => rfl
    | true =>
      rw [parse_of_blank (by simpa using hall)] at htree
      cases htree
  have halike := fun {l} => @parsesAlike_inserted file l i (i.Kin (spreads i)) i.Meets
    (Source.carries_spaced h) hblank (filled_not_blank hblank)
  have hamended := halike fun p q =>
    bond_spaced (l := TextWith (i.added.filter (! isBlank ·))) hliteral hskipped
      fun p _ _ x x' _ _ => textWith_type file
  rw [htree] at hamended
  obtain ⟨tree', htree', hagree⟩ := hamended.exists_ok
  refine ⟨tree', htree', hagree, fun hexact => ?_⟩
  have hsame := halike fun p q =>
    bond_spaced (l := Eq) hliteral hskipped
      fun p hpiece htyped x x' hx hrule hkin => ?_
  · rw [htree, htree'] at hsame
    cases hsame with
    | ok hagree => exact hagree
  · rcases hexact with hblanks | htypes
    · exact type_of_blank hblanks hkin
    · exact type_of_whole (htypes p hpiece htyped x hx hrule) hrule hkin

end

/-! ### Checking a place -/

/-- Rules of pieces that the place may not be in or right behind. -/
def keptRules : List Rule :=
  [.qualifiedName, .typeName, .stringLiteral, .charLiteral, .skippedStmt]

def isClear (i : Insertion) (p : Piece Rule) : Bool :=
  !(keptRules.contains p.rule && (i.back.length < p.source.length &&
    p.source.length ≤ p.chars.length + i.back.length))

/-- No literal that is asked is open at the place, and what is found is clear of it. -/
def isSettled (i : Insertion) (fuel : Nat) : Phrase Rule → Cursor → Bool
  | .rule r, c => !Source.opensLiteral r (c.rest.take (c.rest.length - i.back.length)) &&
    (Source.typeRules.contains r ||
      (grammar.answer? fuel .loose (.rule r) c).any (·.all (·.2.all (Piece.every (isClear i)))))
  | _, _ => true

section

variable {i : Insertion} {p : Piece Rule}

theorem apart_of_isClear (hclear : isClear i p = true) (hrule : p.rule ∈ keptRules) :
    ¬i.Within p ∧ ¬Engulfs i p := by
  have hnot : ∀ x y, x ≠ [] → ¬i.Splits x y p := by
    intro x y hx h
    have hsource := congrArg List.length h.source
    have hchars := congrArg List.length h.chars
    have hpos := List.length_pos_of_ne_nil hx
    rw [List.length_append] at hsource hchars
    simp only [isClear, List.contains_iff_mem.2 hrule, Bool.true_and, Bool.not_eq_true',
      Bool.and_eq_false_iff, decide_eq_false_iff_not] at hclear
    omega
  constructor
  · rintro ⟨x, y, hx, -, h⟩
    exact hnot x y hx h
  · rintro ⟨x, y, hx, h, -⟩
    exact hnot x y hx h

variable {fuel n : Nat} {r : Rule} {c d : Cursor}
  (h : grammar.passes (isSettled i fuel) n (.rule .sourceFile) { rest := i.bare } = true)
  (hasks : Source.AsksBare i .loose (.rule r) c)

include h hasks

theorem not_opens_of_passes {w : List Char} (hrest : c.rest = w ++ i.back) :
    Source.opensLiteral r w = false := by
  have htest := hasks.tested h
  rw [isSettled, hrest, List.length_append, Nat.add_sub_cancel, List.take_left,
    Bool.and_eq_true, Bool.not_eq_true'] at htest
  exact htest.1

theorem whole_of_passes {ps : List (Piece Rule)} (hr : r ∉ Source.typeRules)
    (hfound : Answers grammar .loose (.rule r) c (some (d, ps))) :
    ∀ p ∈ ps, ¬Source.Torn i p := by
  rintro p hp ⟨-, q, hbelow, hrule, hwithin⟩
  have htest := hasks.tested h
  rw [isSettled, Bool.and_eq_true, Bool.or_eq_true, List.contains_iff_mem] at htest
  have hall := List.all_eq_true.1 (hfound.of_answer (htest.2.resolve_left hr)) p hp
  exact (apart_of_isClear (hbelow.holds hall) (by simp [keptRules, hrule])).1 hwithin

end

/-- A comment with a quote in it, before the dot of a member access. -/
def access : Insertion :=
  ⟨"class K \x7b T s = \"\" + t".toList, "/*\"*/".toList, ".u; \x7d".toList⟩

theorem passes_access : grammar.passes (isSettled access 2000) 2000 (.rule .sourceFile)
    { rest := access.bare } = true := by
  decide +kernel

theorem spaced_access : Source.Spaced access where
  filler := .inr ⟨['"'], by decide, rfl⟩
  sunders := .inl <| by
    rintro x hx text (rfl | rfl) y hy <;> cases hx <;> cases hy <;> decide
  number := by
    intro w _ hw _ _ hnumerals
    have hnone : ∀ w ∈ access.front.tails, w.all Source.isNumeral = true → w = [] := by decide
    obtain rfl := hnone w ((List.mem_tails ..).2 hw) (by simpa using hnumerals)
    rintro text (rfl | rfl) <;> decide
  literal := by
    intro r w c _ hasks hrest hopens
    rw [not_opens_of_passes passes_access hasks hrest] at hopens
    cases hopens
  comments := by
    intro w hw
    have hnone : ∀ w ∈ access.front.tails, w ≠ ['/'] ∧ Source.opensLine w = false ∧
        Source.opensBlock w = false := by decide
    obtain ⟨hslash, hline, hblock⟩ := hnone w ((List.mem_tails ..).2 hw.suffix)
    exact ⟨fun h => absurd h hslash, by simp [hline], by simp [hblock]⟩
  whole _ _ _ _ hr hasks := whole_of_passes passes_access hasks hr

theorem parse_filled_access :
    ∃ tree tree', (parse "K.cs" (String.ofList access.bare)).result = .ok tree ∧
      (parse "K.cs" (String.ofList access.filled)).result = .ok tree' ∧ tree.Agree Eq tree' := by
  have hok : (parse "K.cs" (String.ofList access.bare)).result.isOk = true := by decide +kernel
  have hapart : ∀ p, HasPiece access.bare p → p.rule ∈ keptRules →
      ¬access.Within p ∧ ¬Engulfs access p := fun p hp =>
    apart_of_isClear (good_of_hasPiece (isClear access) (by decide +kernel) hp)
  have hliterals : [Rule.stringLiteral, .charLiteral] ⊆ keptRules := by decide
  cases htree : (parse "K.cs" (String.ofList access.bare)).result with
  | error e =>
    rw [htree] at hok
    cases hok
  | ok tree =>
    obtain ⟨tree', htree', -, hagree⟩ := parse_filled spaced_access
      (fun p hp hrule => (hapart p hp (hliterals hrule)).1)
      (fun p hp hrule => (hapart p hp (by simp [keptRules, hrule])).2) htree
    refine ⟨tree, tree', rfl, htree', hagree (.inr fun p hp _ q hq hrule => ?_)⟩
    obtain ⟨root, hmatch, hbelow⟩ := hp
    exact (hapart q ⟨root, hmatch, .inside hbelow hq⟩ (by simp [keptRules, hrule])).2

/-- A comment behind the type of a field. -/
def remark : Insertion :=
  ⟨"class K \x7b T".toList, "/*c*/".toList, " f; \x7d".toList⟩

/-- A blank before the dot in the type of a field. -/
def sundered : Insertion :=
  ⟨"class K \x7b A".toList, [' '], ".B f; \x7d".toList⟩

/-- Both sources are accepted, with trees that differ in more than positions. -/
def Alters (i : Insertion) : Prop :=
  ∃ tree tree', (parse "K.cs" (String.ofList i.bare)).result = .ok tree ∧
    (parse "K.cs" (String.ofList i.filled)).result = .ok tree' ∧ ¬tree.Agree Eq tree'

/-- The type keeps the comment, and the field with a blank in its type is no field any more. -/
theorem alters_filled : Alters remark ∧ Alters sundered := by
  constructor
  · exact not_agree_of_classTexts ["K", "T"] ["K", "T/*c*/"] (by decide +kernel)
      (by decide +kernel) (by decide)
  · exact not_agree_of_classTexts ["K", "A.B"] ["K"] (by decide +kernel) (by decide +kernel)
      (by decide)

end PanelSchema.Syntax
