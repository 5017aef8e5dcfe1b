import Mathlib.Data.List.Induction
import PanelSchema.Proofs.Declaration.Comment

/-!
Texts read one after the other. Where a text is cut at a line feed makes no
difference, and of the lines that declare an identifier the last one counts.
-/

namespace PanelSchema

theorem trimEnd_append_blank {cs : List Char} {b : Char} (hb : isBlank b) :
    trimEnd (cs ++ [b]) = trimEnd cs := by
  rw [trimEnd, List.reverse_append, List.reverse_singleton, List.singleton_append,
    List.dropWhile_cons_of_pos hb, trimEnd]

theorem trim_append_blank {cs : List Char} {b : Char} (hb : isBlank b) :
    trim (cs ++ [b]) = trim cs := by
  rw [trim, trim, trimStart, trimStart, List.dropWhile_append]
  split
  case isTrue hall =>
    rw [List.isEmpty_iff.1 hall, List.dropWhile_cons_of_pos hb, List.dropWhile_nil]
  case isFalse => exact trimEnd_append_blank hb

namespace Declaration

/-! ### Lines -/

theorem Stripped.concat {inQuotes : Bool} {line text : List Char} {b : Char} (hb : b ≠ '/')
    (h : Stripped inQuotes line text) :
    Stripped inQuotes (line ++ [b]) text ∨ Stripped inQuotes (line ++ [b]) (text ++ [b]) := by
  cases h with
  | @cut _ comment hline houtside h =>
    have hline' : line ++ [b] = text ++ '/' :: '/' :: (comment ++ [b]) := by
      rw [hline, List.append_assoc, List.cons_append, List.cons_append]
    exact .inl (.cut hline' houtside h)
  | whole h =>
    refine .inr (.whole fun before after heq => ?_)
    obtain ⟨hnil, -⟩ | ⟨rest, hrest, htext⟩ := concat_eq_split heq
    · cases hnil
    · cases rest with
      | nil => exact absurd (List.cons.inj hrest).1.symm hb
      | cons c rest =>
        obtain ⟨rfl, -⟩ := List.cons.inj hrest
        exact h before rest htext

theorem ofLine?_append_blank (line : List Char) {b : Char} (hb : isBlank b) :
    ofLine? (line ++ [b]) = ofLine? line := by
  have hslash : b ≠ '/' := fun h => absurd (h ▸ hb) (by decide)
  have htrim : trim (dropComment false (line ++ [b])) = trim (dropComment false line) := by
    obtain h | h := (stripped_dropComment false line).concat hslash
    · rw [(stripped_dropComment false _).unique h]
    · rw [(stripped_dropComment false _).unique h, trim_append_blank hb]
  rw [ofLine?, htrim, ← ofLine?]

theorem filterMap_linesOf (cs : List Char) :
    (linesOf cs).filterMap ofLine? = (cs.splitOn '\n').filterMap ofLine? := by
  have hreturn : ∀ line : List Char,
      ofLine? (if line.getLast? = some '\r' then line.dropLast else line) = ofLine? line := by
    intro line
    split
    case isTrue h =>
      obtain ⟨first, rfl⟩ := List.getLast?_eq_some_iff.1 h
      rw [List.dropLast_concat, ofLine?_append_blank _ rfl]
    case isFalse => rfl
  have hlines : ∀ parts : List (List Char),
      (parts.map fun line => if line.getLast? = some '\r' then line.dropLast else line).filterMap
        ofLine? = parts.filterMap ofLine? := by
    intro parts
    rw [List.filterMap_map]
    exact congrArg (List.filterMap · parts) (funext hreturn)
  obtain ⟨parts, last, hparts⟩ : ∃ parts last, cs.splitOn '\n' = parts ++ [last] :=
    ⟨_, _, (List.dropLast_concat_getLast (List.splitOn_ne_nil '\n' cs)).symm⟩
  unfold linesOf
  dsimp only
  rw [hparts, List.dropLast_concat, List.getLast?_concat, List.filterMap_append]
  cases last with
  | nil => exact (hlines parts).trans (List.append_nil _).symm
  | cons c cs => rw [List.filterMap_append, hlines]

theorem ofText_append_newline (a b : String) : ofText (a ++ "\n" ++ b) = ofText a ++ ofText b := by
  have htext : (a ++ "\n" ++ b).toList = a.toList ++ '\n' :: b.toList := by simp
  rw [ofText, ofText, ofText, filterMap_linesOf, filterMap_linesOf, filterMap_linesOf, htext,
    List.splitOn_append_cons_self, List.filterMap_append]

/-! ### The table -/

/-- The last of the lines that declare the identifier declares this. -/
def IsLast (lines : List (List Char)) (identifier : String) (d : Declaration) : Prop :=
  ∃ before line after, lines = before ++ line :: after ∧ ofLine? line = some d ∧
    d.identifier = identifier ∧
      ∀ l ∈ after, ∀ d', ofLine? l = some d' → d'.identifier ≠ identifier

variable {lines : List (List Char)} {line : List Char} {identifier : String} {d : Declaration}

theorem not_isLast_nil : ¬IsLast [] identifier d := by
  rintro ⟨before, line, after, h, -⟩
  simp at h

theorem isLast_concat_self {new : Declaration} (h : ofLine? line = some new) :
    IsLast (lines ++ [line]) new.identifier d ↔ new = d := by
  constructor
  · rintro ⟨before, l, after, heq, hl, -, hafter⟩
    obtain ⟨-, -, rfl⟩ | ⟨rest, rfl, -⟩ := concat_eq_split heq
    · exact Option.some.inj (h.symm.trans hl)
    · exact absurd rfl (hafter line (by simp) new h)
  · rintro rfl
    exact ⟨lines, line, [], rfl, h, rfl, by simp⟩

theorem isLast_concat_other (h : ∀ d', ofLine? line = some d' → d'.identifier ≠ identifier) :
    IsLast (lines ++ [line]) identifier d ↔ IsLast lines identifier d := by
  constructor
  · rintro ⟨before, l, after, heq, hl, hd, hafter⟩
    obtain ⟨-, -, rfl⟩ | ⟨rest, rfl, hlines⟩ := concat_eq_split heq
    · exact absurd hd (h d hl)
    · exact ⟨before, l, rest, hlines, hl, hd, fun l' hl' => hafter l' (by simp [hl'])⟩
  · rintro ⟨before, l, after, rfl, hl, hd, hafter⟩
    refine ⟨before, l, after ++ [line], by simp, hl, hd, fun l' hl' => ?_⟩
    obtain hl' | hl' := List.mem_append.1 hl'
    · exact hafter l' hl'
    · exact List.mem_singleton.1 hl' ▸ h

theorem exists_isLast_iff : (∃ d, IsLast lines identifier d) ↔
    ∃ line ∈ lines, ∃ d, ofLine? line = some d ∧ d.identifier = identifier := by
  constructor
  · rintro ⟨d, before, line, after, rfl, hline, hd, -⟩
    exact ⟨line, by simp, d, hline, hd⟩
  · intro h
    induction lines using List.reverseRecOn with
    | nil => simp at h
    | append_singleton lines last ih =>
      by_cases hlast : ∃ d, ofLine? last = some d ∧ d.identifier = identifier
      · obtain ⟨d, hd, rfl⟩ := hlast
        exact ⟨d, (isLast_concat_self hd).2 rfl⟩
      · obtain ⟨line, hmem, hline⟩ := h
        obtain hmem | hmem := List.mem_append.1 hmem
        · obtain ⟨d, hd⟩ := ih ⟨line, hmem, hline⟩
          exact ⟨d, (isLast_concat_other fun d' h hd' => hlast ⟨d', h, hd'⟩).2 hd⟩
        · exact absurd (List.mem_singleton.1 hmem ▸ hline) hlast

theorem get?_foldl_add (lines : List (List Char)) (identifier : String) (d : Declaration) :
    ((lines.filterMap ofLine?).foldl DeclarationTable.add Dict.empty).get? identifier = some d ↔
      IsLast lines identifier d := by
  induction lines using List.reverseRecOn with
  | nil => simp [not_isLast_nil]
  | append_singleton lines line ih =>
    rw [List.filterMap_append, List.foldl_append]
    cases hline : ofLine? line with
    | none =>
      rw [isLast_concat_other (by simp [hline]), ← ih]
      simp [hline]
    | some new =>
      simp only [List.filterMap_cons, hline, List.filterMap_nil, List.foldl_cons, List.foldl_nil,
        DeclarationTable.add, Dict.get?_insert]
      split
      case isTrue hkey =>
        obtain rfl := beq_iff_eq.1 hkey
        rw [isLast_concat_self hline, Option.some.injEq]
      case isFalse hkey =>
        rw [ih, isLast_concat_other]
        intro d' hd' hidentifier
        obtain rfl := Option.some.inj (hline.symm.trans hd')
        exact hkey (beq_iff_eq.2 hidentifier.symm)

end Declaration

open Declaration (ofLine? IsLast)

/-- The table after several texts. -/
def DeclarationTable.scanAll (t : DeclarationTable) (texts : List String) : DeclarationTable :=
  texts.foldl (fun t text => (t.scan text).1) t

theorem DeclarationTable.scanAll_eq (texts : List String) (t : DeclarationTable) :
    t.scanAll texts =
      ((texts.flatMap (·.toList.splitOn '\n')).filterMap ofLine?).foldl DeclarationTable.add t := by
  induction texts generalizing t with
  | nil => rfl
  | cons text texts ih =>
    rw [List.flatMap_cons, List.filterMap_append, List.foldl_append,
      ← Declaration.filterMap_linesOf]
    exact ih (t.scan text).1

theorem DeclarationTable.scan_append_newline (t : DeclarationTable) (a b : String) :
    (t.scan (a ++ "\n" ++ b)).1 = ((t.scan a).1.scan b).1 ∧
      (t.scan (a ++ "\n" ++ b)).2 = (t.scan a).2 + ((t.scan a).1.scan b).2 := by
  simp only [DeclarationTable.scan, Declaration.ofText_append_newline, List.foldl_append,
    List.length_append, and_self]

/-- Reading a text is reading its parts between line feeds in turn, with the counts added up. A
table that starts empty holds for an identifier what the last line says that declares it, and holds
only identifiers that some line declares. -/
theorem DeclarationTable.scan_in_parts :
    (∀ (t : DeclarationTable) (a b : String),
      (t.scan (a ++ "\n" ++ b)).1 = ((t.scan a).1.scan b).1 ∧
        (t.scan (a ++ "\n" ++ b)).2 = (t.scan a).2 + ((t.scan a).1.scan b).2) ∧
      ∀ (texts : List String) (identifier : String),
        (∀ d, (DeclarationTable.scanAll Dict.empty texts).get? identifier = some d ↔
          IsLast (texts.flatMap (·.toList.splitOn '\n')) identifier d) ∧
        ((DeclarationTable.scanAll Dict.empty texts).contains identifier ↔
          ∃ text ∈ texts, ∃ line ∈ text.toList.splitOn '\n', ∃ d,
            ofLine? line = some d ∧ d.identifier = identifier) := by
  refine ⟨DeclarationTable.scan_append_newline, fun texts identifier => ?_⟩
  have hget := Declaration.get?_foldl_add (texts.flatMap (·.toList.splitOn '\n')) identifier
  rw [← DeclarationTable.scanAll_eq] at hget
  refine ⟨hget, ?_⟩
  rw [Dict.contains, Option.isSome_iff_exists]
  simp only [hget, Declaration.exists_isLast_iff, List.mem_flatMap]
  constructor
  · rintro ⟨line, ⟨text, htext, hline⟩, hd⟩
    exact ⟨text, htext, line, hline, hd⟩
  · rintro ⟨text, htext, line, hline, hd⟩
    exact ⟨line, ⟨text, htext, hline⟩, hd⟩

end PanelSchema
