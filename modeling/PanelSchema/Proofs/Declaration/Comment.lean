import Mathlib.Algebra.Group.Nat.Even
import Mathlib.Data.List.Basic
import PanelSchema.Declaration.Line

/-!
Comments behind a declaration. A comment starts at the first pair of slashes
outside quotes; what stands before it is all that is read of a line.
-/

namespace PanelSchema.Declaration

theorem concat_eq_split {α : Type} {xs before after : List α} {x y : α}
    (h : xs ++ [x] = before ++ y :: after) :
    (after = [] ∧ xs = before ∧ x = y) ∨
      ∃ rest, after = rest ++ [x] ∧ xs = before ++ y :: rest := by
  obtain rfl | ⟨rest, last, rfl⟩ := List.eq_nil_or_concat' after
  · obtain ⟨hxs, hlast⟩ := List.append_inj' h rfl
    exact .inl ⟨rfl, hxs, List.singleton_inj.1 hlast⟩
  · rw [← List.cons_append, ← List.append_assoc] at h
    obtain ⟨hxs, hlast⟩ := List.append_inj' h rfl
    exact .inr ⟨rest, by rw [List.singleton_inj.1 hlast], hxs⟩

/-- The quotes of the text close what was open before it, and no more is opened. -/
def Outside (inQuotes : Bool) (text : List Char) : Prop :=
  Even (text.count '"') ↔ inQuotes = false

/-- Every pair of slashes stands inside quotes. -/
def Uncommented (inQuotes : Bool) (text : List Char) : Prop :=
  ∀ before after, text = before ++ '/' :: '/' :: after → ¬Outside inQuotes before

/-- A line without its comment. -/
inductive Stripped (inQuotes : Bool) (line : List Char) : List Char → Prop where
  | whole : Uncommented inQuotes line → Stripped inQuotes line line
  | cut {text comment : List Char} : line = text ++ '/' :: '/' :: comment →
      Outside inQuotes text → Uncommented inQuotes (text ++ ['/']) → Stripped inQuotes line text

variable {inQuotes : Bool} {c : Char} {line text : List Char}

theorem outside_nil : Outside inQuotes [] ↔ inQuotes = false := by
  simp [Outside]

theorem outside_quote : Outside inQuotes ('"' :: text) ↔ Outside (!inQuotes) text := by
  cases inQuotes <;> simp [Outside, Nat.even_add_one]

theorem outside_cons (hc : c ≠ '"') : Outside inQuotes (c :: text) ↔ Outside inQuotes text := by
  rw [Outside, List.count_cons_of_ne hc, Outside]

theorem outside_append_slash : Outside inQuotes (text ++ ['/']) ↔ Outside inQuotes text := by
  simp [Outside]

def afterChar (inQuotes : Bool) (c : Char) : Bool :=
  if c = '"' then !inQuotes else inQuotes

theorem outside_cons_iff : Outside inQuotes (c :: text) ↔ Outside (afterChar inQuotes c) text := by
  by_cases hc : c = '"'
  · rw [hc]
    exact outside_quote
  · rw [outside_cons hc, afterChar, if_neg hc]

theorem uncommented_cons (hpair : ¬(c = '/' ∧ inQuotes = false ∧ text.head? = some '/'))
    (h : Uncommented (afterChar inQuotes c) text) : Uncommented inQuotes (c :: text) := by
  intro before after heq houtside
  cases before with
  | nil =>
    obtain ⟨rfl, rfl⟩ := List.cons.inj heq
    exact hpair ⟨rfl, outside_nil.1 houtside, rfl⟩
  | cons b before =>
    obtain ⟨rfl, rfl⟩ := List.cons.inj heq
    exact h before after rfl (outside_cons_iff.1 houtside)

theorem Stripped.cons (hpair : ¬(c = '/' ∧ inQuotes = false ∧ line.head? = some '/'))
    (h : Stripped (afterChar inQuotes c) line text) :
    Stripped inQuotes (c :: line) (c :: text) := by
  cases h with
  | whole h => exact .whole (uncommented_cons hpair h)
  | @cut _ comment hline houtside h =>
    refine .cut (by rw [hline, List.cons_append]) (outside_cons_iff.2 houtside) ?_
    refine uncommented_cons (fun hp => hpair ⟨hp.1, hp.2.1, ?_⟩) h
    rw [hline]
    cases text with
    | nil => rfl
    | cons => exact hp.2.2

theorem stripped_dropComment (inQuotes : Bool) (line : List Char) :
    Stripped inQuotes line (dropComment inQuotes line) := by
  induction line generalizing inQuotes with
  | nil => exact .whole fun before after h => by simp at h
  | cons c line ih =>
    rw [dropComment]
    by_cases hc : c = '"'
    · rw [if_pos hc]
      refine Stripped.cons (fun h => absurd (hc.symm.trans h.1) (by decide)) ?_
      rw [afterChar, if_pos hc]
      exact ih _
    · rw [if_neg hc]
      by_cases hpair : c = '/' ∧ inQuotes = false ∧ line.head? = some '/'
      · rw [if_pos hpair]
        obtain ⟨rfl, rfl, hhead⟩ := hpair
        obtain ⟨comment, rfl⟩ := List.head?_eq_some_iff.1 hhead
        refine .cut rfl (outside_nil.2 rfl) fun before after h => ?_
        have hlength := congrArg List.length h
        simp only [List.length_append, List.length_cons, List.length_nil] at hlength
        omega
      · rw [if_neg hpair]
        refine Stripped.cons hpair ?_
        rw [afterChar, if_neg hc]
        exact ih _

theorem Stripped.length_le {before after : List Char} (h : Stripped inQuotes line text)
    (hline : line = before ++ '/' :: '/' :: after) (houtside : Outside inQuotes before) :
    text.length ≤ before.length := by
  cases h with
  | whole h => exact absurd houtside (h before after hline)
  | @cut _ comment hcut _ h =>
    by_contra hlt
    have hbefore : before ++ ['/', '/'] <+: line := ⟨after, by simp [hline]⟩
    have htext : text ++ ['/'] <+: line := ⟨'/' :: comment, by simp [hcut]⟩
    have hle : (before ++ ['/', '/']).length ≤ (text ++ ['/']).length := by
      simp only [List.length_append, List.length_cons, List.length_nil]
      omega
    obtain ⟨rest, hrest⟩ := List.prefix_of_prefix_length_le hbefore htext hle
    exact h before rest (by simp [← hrest]) houtside

theorem Stripped.isPrefix (h : Stripped inQuotes line text) : text <+: line := by
  cases h with
  | whole => exact List.prefix_rfl
  | cut hline => exact ⟨_, hline.symm⟩

theorem Stripped.unique {text' : List Char} (h : Stripped inQuotes line text)
    (h' : Stripped inQuotes line text') : text = text' := by
  have hle : ∀ {s t}, Stripped inQuotes line s → Stripped inQuotes line t →
      s.length ≤ t.length := by
    intro s t hs ht
    cases ht with
    | whole => exact hs.isPrefix.length_le
    | cut hline houtside => exact hs.length_le hline houtside
  have hlength : text.length = text'.length := Nat.le_antisymm (hle h h') (hle h' h)
  have hstarts := List.prefix_of_prefix_length_le h.isPrefix h'.isPrefix (Nat.le_of_eq hlength)
  exact hstarts.eq_of_length hlength

theorem dropComment_eq_self_iff : dropComment inQuotes text = text ↔ Uncommented inQuotes text := by
  constructor
  · intro h
    have hstripped := stripped_dropComment inQuotes text
    rw [h] at hstripped
    cases hstripped with
    | whole h => exact h
    | cut hline => exact absurd (congrArg List.length hline) (by simp)
  · intro h
    exact (stripped_dropComment inQuotes text).unique (.whole h)

instance decidableUncommented : Decidable (Uncommented inQuotes text) :=
  decidable_of_iff _ dropComment_eq_self_iff

theorem uncommented_append_slash (h : Uncommented inQuotes text)
    (hlast : text.getLast? = some '/' → ¬Outside inQuotes text) :
    Uncommented inQuotes (text ++ ['/']) := by
  intro before after heq houtside
  obtain ⟨hnil, -⟩ | ⟨rest, hrest, htext⟩ := concat_eq_split heq
  · cases hnil
  · cases rest with
    | nil =>
      refine hlast (by simp [htext]) ?_
      rwa [htext, outside_append_slash]
    | cons c rest =>
      obtain ⟨rfl, -⟩ := List.cons.inj hrest
      exact h before rest htext houtside

theorem Stripped.append_comment (comment : List Char) (h : Stripped false line text)
    (heven : Even (line.count '"')) (hlast : line.getLast? ≠ some '/') :
    Stripped false (line ++ '/' :: '/' :: comment) text := by
  cases h with
  | @cut _ first hline houtside h =>
    have hline' : line ++ '/' :: '/' :: comment =
        text ++ '/' :: '/' :: (first ++ '/' :: '/' :: comment) := by
      rw [hline, List.append_assoc, List.cons_append, List.cons_append]
    exact .cut hline' houtside h
  | whole h =>
    have houtside : Outside false line := by simpa [Outside] using heven
    exact .cut rfl houtside (uncommented_append_slash h fun h => absurd h hlast)

/-- A pair of slashes inside quotes is kept unless a comment starts before it. -/
theorem Stripped.keeps_quoted {before after : List Char} (h : Stripped inQuotes line text)
    (hline : line = before ++ '/' :: '/' :: after) (hquoted : ¬Outside inQuotes before)
    (hbefore : Uncommented inQuotes before) : before ++ ['/', '/'] <+: text := by
  have hstarts : before ++ ['/', '/'] <+: line := ⟨after, by simp [hline]⟩
  have hquoted' : ¬Outside inQuotes (before ++ ['/']) := by rwa [outside_append_slash]
  have huncommented : Uncommented inQuotes (before ++ ['/', '/']) := by
    have hslash := uncommented_append_slash hbefore fun _ => hquoted
    simpa using uncommented_append_slash hslash fun _ => hquoted'
  cases h with
  | whole => exact hstarts
  | @cut _ comment hcut houtside =>
    have htext : text <+: line := ⟨_, hcut.symm⟩
    refine List.prefix_of_prefix_length_le hstarts htext ?_
    by_contra hlt
    simp only [List.length_append, List.length_cons, List.length_nil] at hlt
    by_cases hle : text.length ≤ before.length
    · have hpair : text ++ ['/', '/'] <+: line := ⟨comment, by simp [hcut]⟩
      obtain ⟨rest, hrest⟩ := List.prefix_of_prefix_length_le hpair hstarts (by simpa using hle)
      exact huncommented text rest (by simp [← hrest]) houtside
    · have hslash : before ++ ['/'] <+: line := ⟨'/' :: after, by simp [hline]⟩
      have hlength : text.length = (before ++ ['/']).length := by
        rw [List.length_append, List.length_singleton]
        omega
      have hstarts := List.prefix_of_prefix_length_le htext hslash (Nat.le_of_eq hlength)
      exact hquoted' (hstarts.eq_of_length hlength ▸ houtside)

/-- A comment says nothing, whatever it holds; what is quoted is no comment. -/
theorem ofLine?_append_comment {l : List Char} (heven : Even (l.count '"'))
    (hlast : l.getLast? ≠ some '/') (c : List Char) :
    ofLine? (l ++ '/' :: '/' :: c) = ofLine? l ∧
      ∀ before after, l = before ++ '/' :: '/' :: after → ¬Even (before.count '"') →
        Uncommented false before →
          before ++ ['/', '/'] <+: dropComment false (l ++ '/' :: '/' :: c) := by
  have hstripped := (stripped_dropComment false l).append_comment c heven hlast
  have hdrop : dropComment false (l ++ '/' :: '/' :: c) = dropComment false l :=
    (stripped_dropComment _ _).unique hstripped
  refine ⟨by rw [ofLine?, hdrop, ← ofLine?], fun before after hl hodd hbefore => ?_⟩
  rw [hdrop]
  exact (stripped_dropComment false l).keeps_quoted hl (by simpa [Outside] using hodd) hbefore

/-- Slashes in both quotations, one alone, and a comment with a quote in it. -/
theorem ofLine?_append_comment_quoted :
    let l := "[A(x/y)] _T (\"a//b\", 2D) = \"c//d\" \x7b\x7d ".toList
    let c := " say \"x // y".toList
    (Even (l.count '"') ∧ l.getLast? ≠ some '/') ∧ ofLine? (l ++ '/' :: '/' :: c) = ofLine? l ∧
      "[A(x/y)] _T (\"a//b\", 2D) = \"c//".toList <+: dropComment false (l ++ '/' :: '/' :: c) ∧
      (ofLine? l).map (·.displayName) = some (some "a//b") := by
  intro l c
  have heven : Even (l.count '"') := by decide
  have hlast : l.getLast? ≠ some '/' := by decide
  obtain ⟨hread, hkept⟩ := ofLine?_append_comment heven hlast c
  refine ⟨⟨heven, hlast⟩, hread, ?_, by decide⟩
  exact hkept "[A(x/y)] _T (\"a//b\", 2D) = \"c".toList _ rfl (by decide) (by decide)

end PanelSchema.Declaration
