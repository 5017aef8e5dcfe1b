import PanelSchema.Proofs.Source.Joints
import PanelSchema.Proofs.Source.Literals

/-!
Literals in a text to which something is added. A number before the place is read as it was. A
literal in quotes ends before the place too, or it runs across it and has in it what is added.
-/

namespace PanelSchema

namespace Source

open Grammar Insertion
open Phrase (anyBut many1)

section

variable {i : Insertion} {sp : Spacing} {a b : Phrase Rule} {w cs text : List Char}

/-! ### Numbers -/

def startsDigit (text : List Char) : Bool :=
  text.head?.any Char.isDigit

def startsFraction : List Char → Bool
  | '.' :: text => startsDigit text
  | _ => false

def startsPower : List Char → Bool
  | '+' :: text => startsDigit text
  | '-' :: text => startsDigit text
  | text => startsDigit text

/-- From its end, the text is a number before the letter of a power. -/
def endsBase : List Char → Bool
  | 'e' :: text => startsDigit text
  | 'E' :: text => startsDigit text
  | _ => false

/-- A number may run from the first text, here from its end, into the second. -/
def runsInto : List Char → List Char → Bool
  | [], _ => false
  | x :: front, text =>
    x == '.' && startsDigit text || x.isDigit && startsFraction text ||
      endsBase (x :: front) && startsPower text ||
      (x == '+' || x == '-') && endsBase front && startsDigit text

def digits : Phrase Rule :=
  many1 (.one .digit)

def fraction : Phrase Rule :=
  .seq (.text ['.']) digits

def power : Phrase Rule :=
  .seq (.alt (.text ['e']) (.text ['E']))
    (.seq (.opt (.alt (.text ['+']) (.text ['-']))) digits)

def mantissa : Phrase Rule :=
  .alt (.seq digits (.opt fraction)) fraction

def hexadecimal : Phrase Rule :=
  .seq (.text ['0']) (.seq (.alt (.text ['x']) (.text ['X'])) (many1 (.one .hexDigit)))

def numberSuffix : Phrase Rule :=
  Phrase.any ["ul", "UL", "f", "F", "d", "D", "m", "M", "u", "U", "l", "L"]

theorem body_number :
    body .number =
      .seq (.alt hexadecimal (.seq mantissa (.opt power))) (.opt numberSuffix) := rfl

theorem last_digit {ps : List (Piece Rule)} (hfills : (edges (ruleEdges 0) a).fills = true)
    (hends : ∀ p ∈ (edges (ruleEdges 0) a).ends, (p matches .one .digit) = true)
    (h : Reads grammar .atomic a cs ps) : ∃ x, cs.getLast? = some x ∧ x.isDigit = true := by
  have hspells := (h.explained blankLeavesNothing).2 (by decide)
  obtain ⟨x, hx, p, hp, hholds⟩ := last_of_reads 0 (by decide) h ((spelled_edges hspells).1 hfills)
  have hdigit := hends p hp
  split at hdigit
  · exact ⟨x, hx, hholds⟩
  · cases hdigit

/-- Characters of numbers without letters other than that of a power. -/
def isNumeral (x : Char) : Bool :=
  x.isDigit || x == '.' || x == 'e' || x == 'E' || x == '+' || x == '-'

theorem numerals_digits (h : Spells grammar digits cs) : ∀ x ∈ cs, isNumeral x = true := by
  have hone : ∀ ds, Spells grammar (.one .digit) ds → ∀ x ∈ ds, isNumeral x = true := by
    intro ds hds x hx
    cases hds with
    | one hdigit =>
      rw [List.mem_singleton.1 hx]
      simp [isNumeral, show Char.isDigit _ = true from hdigit]
  obtain ⟨_, _, hfirst, hrest, rfl⟩ := spells_seq.1 h
  exact List.forall_mem_append.2 ⟨hone _ hfirst, spells_many_forall hone hrest⟩

theorem numerals_fraction (h : Spells grammar fraction cs) : ∀ x ∈ cs, isNumeral x = true := by
  obtain ⟨_, _, hpoint, hdigits, rfl⟩ := spells_seq.1 h
  rw [spells_text.1 hpoint]
  exact List.forall_mem_append.2 ⟨by simp [isNumeral], numerals_digits hdigits⟩

theorem numerals_mantissa (h : Spells grammar mantissa cs) : ∀ x ∈ cs, isNumeral x = true := by
  rcases spells_alt.1 h with h | h
  · obtain ⟨_, _, hdigits, hfraction, rfl⟩ := spells_seq.1 h
    refine List.forall_mem_append.2 ⟨numerals_digits hdigits, ?_⟩
    cases hfraction with
    | present h => exact numerals_fraction h
    | absent => simp
  · exact numerals_fraction h

theorem spells_of_reads {ps : List (Piece Rule)} (h : Reads grammar .atomic a cs ps) :
    Spells grammar a cs :=
  (h.explained blankLeavesNothing).2 (by decide)

theorem refuses_digits (h : startsDigit text = false) : Refuses grammar sp digits text := by
  refine Refuses.seq (refuses_one fun x hx => ?_)
  rw [startsDigit, show text.head? = some x from hx] at h
  exact h

theorem refuses_fraction (h : startsFraction text = false) :
    Refuses grammar .atomic fraction text := by
  by_cases hpoint : ['.'] <+: text
  · obtain ⟨tail, rfl⟩ := hpoint
    exact Refuses.tight (by decide) (takes_text ['.'] tail) (refuses_digits h)
  · exact (refuses_text hpoint).seq

theorem refuses_power (h : startsPower text = false) :
    Refuses grammar .atomic (.seq (.opt (.alt (.text ['+']) (.text ['-']))) digits) text := by
  by_cases hplus : ['+'] <+: text
  · obtain ⟨tail, rfl⟩ := hplus
    exact Refuses.tight (by decide) (takes_text ['+'] tail).left.present (refuses_digits h)
  · by_cases hminus : ['-'] <+: text
    · obtain ⟨tail, rfl⟩ := hminus
      exact Refuses.tight (by decide) (Takes.right (refuses_text hplus)
        (takes_text ['-'] tail)).present (refuses_digits h)
    · have hdigit : startsDigit text = false := by
        unfold startsPower at h
        split at h
        · exact absurd ⟨_, rfl⟩ hplus
        · exact absurd ⟨_, rfl⟩ hminus
        · exact h
      have hsign : Refuses grammar .atomic (.alt (.text ['+']) (.text ['-'])) text :=
        (refuses_text hplus).alt (refuses_text hminus)
      exact Refuses.tight (by decide) hsign.opt (refuses_digits hdigit)

variable (i) in
/-- A number that begins with `w` does not run across the place. -/
def EndsNumber (w : List Char) : Prop :=
  (∀ x ∈ w, isNumeral x = true) → ∀ text, i.Onward text → runsInto w.reverse text = false

section

variable (hsunders : i.Sunders isJoint)

include hsunders

theorem keeps_fraction (hnumber : EndsNumber i (cs ++ w)) (hcs : ∀ x ∈ cs, isNumeral x = true)
    (hsuffix : w <:+ i.front) (hw : w ≠ []) : i.Keeps grammar .atomic fraction w := by
  refine Keeps.seq (by decide) (keeps_joined hsunders hsuffix hw rfl) ?_
  rintro ds w' ps rfl hreads
  obtain ⟨rfl, -⟩ := hreads.text
  by_cases hw' : w' = []
  · subst hw'
    refine keeps_refused fun text htext => refuses_digits ?_
    have h := hnumber (List.forall_mem_append.2 ⟨hcs, by simp [isNumeral]⟩) text htext
    simp only [List.append_nil, List.reverse_append, List.reverse_singleton, List.singleton_append,
      runsInto, Bool.or_eq_false_iff] at h
    simpa using h.1.1.1
  · exact keeps_whole hsunders (by decide) (by decide) ((List.suffix_append ['.'] w').trans hsuffix)
      hw'

theorem keeps_mantissa (hnumber : EndsNumber i w) (hsuffix : w <:+ i.front) (hw : w ≠ []) :
    i.Keeps grammar .atomic mantissa w := by
  have hempty : EndsNumber i ([] ++ w) := hnumber
  refine .alt ?_ (keeps_fraction hsunders hempty (by simp) hsuffix hw)
  refine Keeps.seq (by decide) (keeps_whole hsunders (by decide) (by decide) hsuffix hw) ?_
  rintro cs w' ps rfl hreads
  have hcs := numerals_digits (spells_of_reads hreads)
  by_cases hw' : w' = []
  · subst hw'
    refine (keeps_refused fun text htext => refuses_fraction ?_).opt
    obtain ⟨x, hx, hdigit⟩ := last_digit (by decide) (by decide) hreads
    obtain ⟨ds, rfl⟩ := List.getLast?_eq_some_iff.1 hx
    rw [List.append_nil] at hnumber
    have h := hnumber hcs text htext
    simp only [List.reverse_append, List.reverse_singleton, List.singleton_append, runsInto, hdigit,
      Bool.true_and, Bool.or_eq_false_iff] at h
    exact h.1.1.2
  · exact (keeps_fraction hsunders hnumber hcs ((List.suffix_append cs w').trans hsuffix) hw').opt

theorem keeps_power {ps : List (Piece Rule)} (hnumber : EndsNumber i (cs ++ w))
    (hreads : Reads grammar .atomic mantissa cs ps) (hsuffix : cs ++ w <:+ i.front) :
    i.Keeps grammar .atomic power w := by
  have hcs := numerals_mantissa (spells_of_reads hreads)
  obtain ⟨x, hx, hdigit⟩ := last_digit (by decide) (by decide) hreads
  have hsuffix' := (List.suffix_append cs w).trans hsuffix
  by_cases hw : w = []
  · subst hw
    rw [List.append_nil] at hsuffix
    exact keeps_idle hsunders 0 (by decide) hreads (by rintro rfl; cases hx) hsuffix (by decide)
  · obtain ⟨front, rfl⟩ := List.getLast?_eq_some_iff.1 hx
    refine Keeps.seq (by decide) (keeps_whole hsunders (by decide) (by decide) hsuffix' hw) ?_
    rintro es w₁ ps rfl hreads
    -- the letter of a power, behind a digit
    have hletter : ∃ e, es = [e] ∧ isNumeral e = true ∧
        ∀ text, endsBase (e :: x :: text) = true := by
      rcases hreads.alt with h | h
      · exact ⟨'e', h.text.1, rfl, fun _ => hdigit⟩
      · exact ⟨'E', h.text.1, rfl, fun _ => hdigit⟩
    obtain ⟨e, rfl, he, hbase⟩ := hletter
    by_cases hw₁ : w₁ = []
    · subst hw₁
      refine keeps_refused fun text htext => refuses_power ?_
      have h := hnumber (List.forall_mem_append.2 ⟨hcs, by simpa using he⟩) text htext
      have := hbase front.reverse
      simp_all [runsInto]
    · have hsuffix₁ := (List.suffix_append [e] w₁).trans hsuffix'
      refine Keeps.seq (by decide)
        (keeps_whole hsunders (by decide) (by decide) hsuffix₁ hw₁).opt ?_
      rintro ss w₂ ps₁ rfl hreads₁
      by_cases hw₂ : w₂ = []
      · subst hw₂
        refine keeps_refused fun text htext => refuses_digits ?_
        have hsigns : ∃ s, ss = [s] ∧ (s = '+' ∨ s = '-') := by
          rcases reads_opt hreads₁ with ⟨rfl, -⟩ | hsign
          · exact absurd rfl hw₁
          · rcases hsign.alt with hsign | hsign
            · exact ⟨'+', hsign.text.1, .inl rfl⟩
            · exact ⟨'-', hsign.text.1, .inr rfl⟩
        obtain ⟨s, rfl, hs⟩ := hsigns
        have hsign : isNumeral s = true := by rcases hs with rfl | rfl <;> rfl
        have h := hnumber (List.forall_mem_append.2 ⟨hcs, by simp [he, hsign]⟩) text htext
        have := hbase front.reverse
        rcases hs with rfl | rfl <;> simp_all [runsInto]
      · exact keeps_whole hsunders (by decide) (by decide)
          ((List.suffix_append ss w₂).trans hsuffix₁) hw₂

theorem keeps_number (hnumber : EndsNumber i w) (hsuffix : w <:+ i.front) (hw : w ≠ []) :
    i.Keeps grammar sp (.rule .number) w := by
  apply Keeps.rule
  change i.Keeps grammar .atomic (body .number) w
  rw [body_number]
  have hdecimal : i.Keeps grammar .atomic (.seq mantissa (.opt power)) w := by
    refine Keeps.seq (by decide) (keeps_mantissa hsunders hnumber hsuffix hw) ?_
    rintro cs w' ps rfl hreads
    exact (keeps_power hsunders hnumber hreads hsuffix).opt
  refine Keeps.seq (by decide)
    (.alt (keeps_whole hsunders (by decide) (by decide) hsuffix hw) hdecimal) ?_
  rintro cs w' ps rfl hreads
  by_cases hw' : w' = []
  · subst hw'
    rw [List.append_nil] at hsuffix hw
    exact keeps_idle hsunders 0 (by decide) hreads hw hsuffix (by decide)
  · exact keeps_whole hsunders (by decide) (by decide) ((List.suffix_append cs w').trans hsuffix)
      hw'

end

/-! ### Literals -/

/-- What is added does not end a literal that runs across the place, and none of its characters is
taken with a backslash. -/
structure Unquoted (i : Insertion) : Prop where
  added : ∀ x ∈ i.added, x ≠ '"' ∧ x ≠ '\'' ∧ x ≠ '\\'
  escape : i.front.getLast? ≠ some '\\'
  quote : i.front.getLast? = some '\'' → ∀ x ∈ i.back.head?, x ≠ '\'' ∧ x ≠ '\\'

def isBelow (r : Rule) : Bool :=
  !(r matches .sourceFile)

theorem isInner_body (r : Rule) (h : isBelow r = true) : (body r).isInner isBelow = true := by
  revert h
  cases r <;> decide

theorem loose_of_not {r : Rule} (h : ¬(style r = .atomic ∨ style r = .compound)) :
    style r = .plain ∨ style r = .silent := by
  revert h
  cases style r <;> simp

theorem innerSpacing_of_loose {r : Rule} (h : style r = .plain ∨ style r = .silent) :
    innerSpacing (grammar.style r) .loose = .loose := by
  change innerSpacing (style r) .loose = .loose
  rcases h with h | h <;> rw [h] <;> rfl

theorem carries_same {c c' : Cursor} (ha : a.isInner isBelow = true) (h : SameRest c c') :
    Carries grammar SameRest SameChars sp a c c' :=
  carries_of_sameRest (g := grammar) isInner_body (by decide) ha h

section

variable {x quote : Char} {c c' : Cursor}

theorem keeps_char (hsunders : i.Sunders isJoint) (hsuffix : w <:+ i.front) (hw : w ≠ []) :
    i.Keeps grammar sp (.text [quote]) w :=
  keeps_joined hsunders hsuffix hw (by simp)

theorem keeps_anyBut (hsunders : i.Sunders isJoint) (hsp : sp ≠ .loose) (hsuffix : w <:+ i.front)
    (hw : w ≠ []) : i.Keeps grammar sp (anyBut (.text [quote])) w := by
  refine Keeps.seq hsp (keeps_char hsunders hsuffix hw).never ?_
  rintro cs w' ps rfl hreads
  cases reads_never hreads
  exact keeps_one hw

theorem keeps_literalChar (hsunders : i.Sunders isJoint) (hescape : i.front.getLast? ≠ some '\\')
    (hsp : sp ≠ .loose) (hsuffix : w <:+ i.front) (hw : w ≠ []) :
    i.Keeps grammar sp (literalChar quote) w := by
  refine .alt (Keeps.seq hsp (keeps_char hsunders hsuffix hw) ?_)
    (keeps_anyBut hsunders hsp hsuffix hw)
  rintro cs w' ps rfl hreads
  obtain ⟨rfl, -⟩ := hreads.text
  refine keeps_one ?_
  rintro rfl
  exact hescape (getLast_of_suffix hsuffix hw)

theorem ne_nil_of_anyBut {ps : List (Piece Rule)} (hsp : sp ≠ .loose)
    (h : Reads grammar sp (anyBut (.text [quote])) cs ps) : cs ≠ [] := by
  obtain ⟨cs₁, cs₂, ps₁, ps₂, -, h₂, rfl, -⟩ := h.tight hsp
  obtain ⟨x, rfl, -⟩ := reads_one h₂
  simp

theorem ne_nil_of_literalChar {ps : List (Piece Rule)} (hsp : sp ≠ .loose)
    (h : Reads grammar sp (literalChar quote) cs ps) : cs ≠ [] := by
  rcases h.alt with h | h
  · obtain ⟨cs₁, cs₂, ps₁, ps₂, h₁, -, rfl, -⟩ := h.tight hsp
    simp [h₁.text.1]
  · exact ne_nil_of_anyBut hsp h

theorem carries_opened (hadded : i.added ≠ []) (hplain : ∀ x ∈ i.added, x ≠ quote ∧ x ≠ '\\')
    (hback : ∀ x ∈ i.back.head?, x ≠ quote ∧ x ≠ '\\')
    (hfits : grammar.fits measure (Spacing.atomic == .loose)
      (.seq (literalChar quote) (.seq (.many (anyBut (.text [quote]))) (.text [quote]))) = true)
    (hahead : i.Ahead [] c c') :
    Carries grammar i.Clears SameChars .atomic
      (.seq (literalChar quote) (.seq (.many (anyBut (.text [quote]))) (.text [quote]))) c c' := by
  obtain ⟨z, added, hz⟩ := List.exists_cons_of_ne_nil hadded
  rw [hz, List.forall_mem_cons] at hplain
  cases hy : i.back with
  | nil =>
    have hwants : Phrase.wants quote (.seq (literalChar quote)
        (.seq (.many (anyBut (.text [quote]))) (.text [quote]))) = true := by
      simp [Phrase.wants]
    apply carries_of_refuses
    · rw [hahead.rest, hy]
      exact refuses_of_wants bounded hfits hwants (by simp)
    · rw [hahead.rest', hy, hz]
      refine refuses_of_wants bounded hfits hwants ?_
      simp only [List.nil_append, List.append_nil, List.mem_cons, not_or]
      exact ⟨hplain.1.1.symm, fun hmem => (hplain.2 quote hmem).1 rfl⟩
  | cons y back =>
    obtain ⟨hquote, hescape⟩ := hback y (by rw [hy]; rfl)
    have htight : Spacing.atomic ≠ .loose := by decide
    obtain ⟨d, _, hd, htook, rfl⟩ :=
      takes_literalChar htight hquote hescape back c (by rw [hahead.rest, hy]; rfl)
    obtain ⟨d', _, hd', htook', rfl⟩ := takes_literalChar htight hplain.1.1 hplain.1.2
      (added ++ i.back) c' (by rw [hahead.rest', hz]; rfl)
    have hrest : d'.rest = (added ++ [y]) ++ d.rest := by
      rw [htook'.rest_eq (by rw [hahead.rest', hz]; rfl),
        htook.rest_eq (by rw [hahead.rest, hy]; rfl), hy]
      simp
    have hrun : ∀ x ∈ added ++ [y], x ≠ quote := by
      intro x hx
      rcases List.mem_append.1 hx with hx | hx
      · exact (hplain.2 x hx).1
      · rwa [List.mem_singleton.1 hx]
    have htail : Carries grammar SameRest SameChars .atomic
        (.seq (.many (anyBut (.text [quote]))) (.text [quote])) d d' :=
      Carries.seq (by decide)
        (carries_many_past (by decide) (fun x hx => takes_anyBut (by decide) (hrun x hx))
          (fun _ _ => carries_same rfl) hrest)
        fun _ _ => carries_same rfl
    have hdrest : i.back = y :: d.rest := by rw [htook.rest_eq (by rw [hahead.rest, hy]; rfl), hy]
    intro x hx
    cases hx with
    | seq_refused hnone => cases hnone.unique hd
    | seq_tight _ ha hb =>
      cases ha.unique hd
      obtain ⟨x', hx', hfollows⟩ := htail _ hb
      refine ⟨_, .seq_tight (by decide) hd' hx', ?_⟩
      cases hfollows with
      | refused => exact .refused
      | took hends halike =>
        refine .took (.inr ⟨⟨?_, hends⟩, ?_⟩) halike
        · rw [hdrest]
          exact hb.suffix.trans (List.suffix_cons y d.rest)
        · rw [hdrest, List.length_cons]
          exact Nat.lt_succ_of_le hb.suffix.length_le

theorem carries_quote (hsunders : i.Sunders isJoint) (h : i.Faces c c') :
    Carries grammar i.Clears SameChars sp (.text [quote]) c c' := by
  rcases h with ⟨w, hw, h⟩ | h
  · exact (keeps_char hsunders h.suffix hw c c' h).mono (fun _ _ => .inl) fun _ _ => id
  · intro x hx
    obtain ⟨x', hx', hfollows⟩ := h.carries (carries_same rfl h.same) x hx
    refine ⟨x', hx', ?_⟩
    cases hfollows with
    | refused => exact .refused
    | took hends halike =>
      have hlength := congrArg List.length hx.took_text.rest
      have := h.suffix.length_le
      refine .took (.inr ⟨hends, ?_⟩) halike
      simp only [List.length_append, List.length_singleton] at hlength
      omega

end

section

variable {c c' : Cursor} {allows : Piece Rule → List Char → List Char → Prop}

theorem clears_literal {r : Rule}
    (hallows : ∀ p x y, p.rule = r → x ≠ [] → y ≠ [] → allows p x y)
    (hahead : i.Ahead w c c') (hw : w ≠ []) : Seals grammar i.Clears (i.Kin allows) sp r c c' := by
  refine hahead.seals ?_
  rintro d d' (hd | ⟨hd, hlength⟩)
  · exact .inl hd
  · refine .inr ⟨hd, fun y hy p hp => hallows p w y hp hw ?_⟩
    rintro rfl
    rw [hy] at hlength
    exact Nat.lt_irrefl _ hlength

theorem keeps_closedString {rest : List Char} (hrest : quoteRest? w = some rest) :
    i.Keeps grammar .compound (.seq (.text ['"']) (.seq (.rule .stringInner) (.text ['"'])))
      ('"' :: w) := by
  obtain ⟨content, rfl, hcontent⟩ := content_of_quoteRest hrest
  have hquote : ∀ w more, Takes grammar .compound (.text ['"']) ['"'] (w ++ more) Bare :=
    fun _ _ => takes_text _ _
  have hkeeps : ∀ w, i.Keeps grammar .compound (.text ['"']) (['"'] ++ w) :=
    fun _ => keeps_of_takes (hquote _ _) (hquote _ _)
  have htakes : ∀ more,
      Takes grammar .atomic (body .stringInner) content ('"' :: rest ++ more) Bare :=
    fun more => takes_content hcontent (refuses_quote (by decide) (rest ++ more))
  have hinner : i.Keeps grammar .compound (.rule .stringInner) (content ++ '"' :: rest) :=
    Keeps.rule (keeps_of_takes (htakes _) (htakes _))
  exact (hkeeps _).seq_takes (by decide) (hquote _ _)
    (hinner.seq_takes (by decide) (.piece (by decide) (by decide) (htakes _)) (hkeeps _))

theorem keeps_closedChar (h : opensChar ('\'' :: w) = false) :
    i.Keeps grammar .atomic (body .charLiteral) ('\'' :: w) := by
  rw [body_charLiteral]
  have hquote : ∀ more, Takes grammar .atomic (.text ['\'']) ['\''] (w ++ more) Bare :=
    fun _ => takes_text _ _
  have hbegin : i.Keeps grammar .atomic (.text ['\'']) (['\''] ++ w) :=
    keeps_of_takes (hquote _) (hquote _)
  refine hbegin.seq_takes (by decide) (hquote _) ?_
  rcases takes_charLiteral h with ⟨rest, rfl⟩ | ⟨cs, rest, rfl, htakes⟩
  · exact keeps_of_refuses (refuses_quote (by decide) _).seq (refuses_quote (by decide) _).seq
  · exact keeps_of_takes (htakes _) (htakes _)

variable (hsunders : i.Sunders isJoint) (hadded : i.added ≠ [])

include hsunders hadded

theorem exists_behind_signs {ps : List (Piece Rule)} (hw : cs ++ w ≠ [])
    (hsuffix : cs ++ w <:+ i.front)
    (hsign : Reads grammar sp (.opt (Phrase.any ["$@", "@$", "@", "$"])) cs ps) :
    (∃ x text, w = x :: text) ∧ ∀ x ∈ cs, x = '@' ∨ x = '$' := by
  have hcs : cs = [] ∨ cs = ['$', '@'] ∨ cs = ['@', '$'] ∨ cs = ['@'] ∨ cs = ['$'] := by
    rcases reads_opt hsign with ⟨rfl, -⟩ | h
    · exact .inl rfl
    rcases h.alt with h | h
    · exact .inr (.inl h.text.1)
    rcases h.alt with h | h
    · exact .inr (.inr (.inl h.text.1))
    rcases h.alt with h | h
    · exact .inr (.inr (.inr (.inl h.text.1)))
    · exact .inr (.inr (.inr (.inr h.text.1)))
  refine ⟨List.exists_cons_of_ne_nil ?_, ?_⟩
  · rintro rfl
    have hlast := getLast_of_suffix hsuffix hw
    rcases hcs with rfl | rfl | rfl | rfl | rfl
    · exact hw rfl
    all_goals
      obtain ⟨hat, hdollar⟩ := ne_sign_of_sunders hsunders hadded hlast
      first | exact hat rfl | exact hdollar rfl
  · rcases hcs with rfl | rfl | rfl | rfl | rfl <;> simp

theorem carries_stringLiteral (hquoted : opensString w = true → Unquoted i)
    (hinner : ∀ p x y, p.rule = .stringInner → allows p x y)
    (hallows : ∀ p x y, p.rule = .stringLiteral → x ≠ [] → y ≠ [] → allows p x y)
    (hahead : i.Ahead w c c') (hw : w ≠ []) :
    Carries grammar i.Clears (i.Kin allows) sp (.rule .stringLiteral) c c' := by
  refine carries_rule (clears_literal hallows hahead hw) ?_
  change Carries grammar i.Clears _ .compound (.seq _ (.seq _ (.seq (.rule .stringInner) _))) c c'
  refine carries_seq (by decide) kin_of_same
    (keeps_whole hsunders (by decide) (by decide) hahead.suffix hw).opt ?_ hahead
  rintro cs w₁ ps rfl hsign d d' hd
  obtain ⟨⟨x, w₂, rfl⟩, hsigns⟩ := exists_behind_signs hsunders hadded hw hahead.suffix hsign
  by_cases hx : x = '"'
  · subst hx
    have hopens : opensString (cs ++ '"' :: w₂) = (quoteRest? w₂).isNone := by
      rw [opensString, List.dropWhile_append_of_pos (by simpa using hsigns)]
      rfl
    cases hrest : quoteRest? w₂ with
    | some rest => exact (keeps_closedString hrest).carries (fun _ _ => .inl) hd
    | none =>
      obtain ⟨hplain, hescape, -⟩ := hquoted (by rw [hopens, hrest]; rfl)
      refine carries_seq (by decide) kin_of_same (keeps_char hsunders hd.suffix (by simp)) ?_ hd
      rintro cs₁ w₃ ps₁ - - e e' he
      have hseals : Seals grammar i.Faces (i.Kin allows) .atomic .stringInner e e' := by
        refine he.seals ?_
        rintro f f' (⟨w, -, hf⟩ | hf)
        · exact .inl ⟨w, hf⟩
        · exact .inr ⟨hf, fun y _ p hp => hinner p _ y hp⟩
      refine Carries.seq (by decide) (carries_rule hseals ?_)
        fun f f' hf => (carries_quote hsunders hf).mono (fun _ _ => id) kin_of_same
      change Carries grammar i.Faces _ .atomic (body .stringInner) e e'
      rw [body_stringInner]
      exact (carries_run (by decide) (fun _ _ => ne_nil_of_literalChar (by decide))
        (fun w' hw' hne => keeps_literalChar hsunders hescape (by decide) hw' hne)
        (fun x hx => takes_literalChar (by decide) (hplain x hx).1 (hplain x hx).2.2)
        (fun d d' hsame => carries_same (by decide) hsame) he).mono (fun _ _ => id) kin_of_same
  · apply carries_of_refuses
    · rw [hd.rest]
      exact (refuses_char hx _).seq
    · rw [hd.rest']
      exact (refuses_char hx _).seq

theorem carries_charLiteral (hquoted : opensChar w = true → Unquoted i)
    (hallows : ∀ p x y, p.rule = .charLiteral → x ≠ [] → y ≠ [] → allows p x y)
    (hahead : i.Ahead w c c') (hw : w ≠ []) :
    Carries grammar i.Clears (i.Kin allows) sp (.rule .charLiteral) c c' := by
  refine carries_rule (clears_literal hallows hahead hw) ?_
  have hatomic : innerSpacing (grammar.style .charLiteral) sp = .atomic := by
    cases sp <;> rfl
  rw [hatomic]
  change Carries grammar i.Clears _ .atomic (body .charLiteral) c c'
  obtain ⟨x, w, rfl⟩ := List.exists_cons_of_ne_nil hw
  by_cases hx : x = '\''
  · subst hx
    cases hopens : opensChar ('\'' :: w) with
    | false => exact (keeps_closedChar hopens).carries (fun _ _ => .inl) hahead
    | true =>
      obtain ⟨hplain, hescape, hback⟩ := hquoted hopens
      rw [body_charLiteral]
      have htail : ∀ d d', i.Faces d d' →
          Carries grammar i.Clears (i.Kin allows) .atomic (.text ['\'']) d d' :=
        fun d d' hd => (carries_quote hsunders hd).mono (fun _ _ => id) kin_of_same
      refine carries_seq (by decide) kin_of_same (keeps_char hsunders hahead.suffix hw) ?_ hahead
      intro cs w₁ ps heq hquote d d' hd
      by_cases hw₁ : w₁ = []
      · subst hw₁
        have hlast : i.front.getLast? = some '\'' := by
          rw [getLast_of_suffix hahead.suffix hw, heq, hquote.text.1]
          rfl
        exact (carries_opened hadded (fun x hx => (hplain x hx).2) (hback hlast) (by decide)
          hd).mono (fun _ _ => id) kin_of_same
      · refine carries_seq (by decide) kin_of_same
          (keeps_literalChar hsunders hescape (by decide) hd.suffix hw₁) ?_ hd
        rintro cs₁ w₂ ps₁ rfl hfirst e e' he
        exact Carries.seq (by decide) ((carries_run (by decide)
          (fun _ _ => ne_nil_of_anyBut (by decide))
          (fun w' hw' hne => keeps_anyBut hsunders (by decide) hw' hne)
          (fun x hx => takes_anyBut (by decide) (hplain x hx).2.1)
          (fun d d' hsame => carries_same (by decide) hsame) he).mono (fun _ _ => id) kin_of_same)
          htail
  · rw [body_charLiteral]
    apply carries_of_refuses
    · rw [hahead.rest]
      exact (refuses_char hx _).seq
    · rw [hahead.rest']
      exact (refuses_char hx _).seq

end

end

end Source

end PanelSchema
