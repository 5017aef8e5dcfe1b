import PanelSchema.Proofs.Json.Scalars

/-!
A JSON value is read from the text it is written as, whatever it holds and however deep it is
nested, up to the limit of the reader.
-/

namespace PanelSchema

namespace Json

mutual

/-- A value in which every number has a text that is read as one, and in which no more than
`depth` lists and objects stand in each other. -/
def Readable (depth : Nat) : Json → Prop
  | .int n => IsWord n
  | .float x => IsWritten x
  | .arr items => 1 < depth ∧ ReadableItems (depth - 1) items
  | .obj fields => 1 < depth ∧ ReadableFields (depth - 1) fields
  | _ => True

def ReadableItems (depth : Nat) : List Json → Prop
  | [] => True
  | j :: rest => j.Readable depth ∧ ReadableItems depth rest

def ReadableFields (depth : Nat) : List (String × Json) → Prop
  | [] => True
  | (_, j) :: rest => j.Readable depth ∧ ReadableFields depth rest

end

mutual

def asRead : Json → Document
  | .null => .null
  | .bool b => .bool b
  | .int n => .int n
  | .float x => .float (rereadFloat x)
  | .str s => .str s
  | .arr items => .arr (itemsAsRead items) none
  | .obj fields => .obj (fieldsAsRead fields) .closed

def itemsAsRead : List Json → List Document
  | [] => []
  | j :: rest => j.asRead :: itemsAsRead rest

def fieldsAsRead : List (String × Json) → List (String × Document × Option JsonFault)
  | [] => []
  | (key, j) :: rest => (key, j.asRead, none) :: fieldsAsRead rest

end

/-! ### Lines between brackets -/

/-- The lines after the first one, with the closing bracket. -/
def laterLines (depth : Nat) (closing : String) : List String → List Char
  | [] => '\n' :: ((margin depth).toList ++ closing.toList)
  | line :: rest =>
    ',' :: '\n' :: ((margin (depth + 1)).toList ++ (line.toList ++ laterLines depth closing rest))

def allLines (depth : Nat) (closing : String) : List String → List Char
  | [] => closing.toList
  | line :: rest =>
    '\n' :: ((margin (depth + 1)).toList ++ (line.toList ++ laterLines depth closing rest))

theorem bracketed_toList (opening closing : String) (depth : Nat) (lines : List String) :
    (bracketed opening closing depth lines).toList =
      opening.toList ++ allLines depth closing lines := by
  have hlater : ∀ (line : String) (rest : List String),
      (",\n".intercalate ((line :: rest).map (margin (depth + 1) ++ ·)) ++ "\n" ++ margin depth
          ++ closing).toList =
        (margin (depth + 1)).toList ++ (line.toList ++ laterLines depth closing rest) := by
    intro line rest
    induction rest generalizing line with
    | nil => simp [laterLines]
    | cons next rest ih =>
      have hnext := ih next
      simp only [List.map_cons, String.intercalate_cons_cons, laterLines, String.toList_append,
        List.append_assoc] at hnext ⊢
      rw [hnext]
      simp
  cases lines with
  | nil => exact String.toList_append
  | cons line rest =>
    have hall := hlater line rest
    unfold bracketed
    rw [if_neg (by simp)]
    simp only [String.toList_append, List.append_assoc] at hall ⊢
    rw [hall]
    rfl

/-- The lines with which a list or an object starts, or goes on. -/
def linesFrom (first : Bool) (depth : Nat) (closing : String) (lines : List String) : List Char :=
  if first then allLines depth closing lines else laterLines depth closing lines

theorem skipSpace_margin (depth : Nat) (cs : List Char) :
    skipSpace ('\n' :: ((margin depth).toList ++ cs)) = skipSpace cs := by
  have hspaces : ∀ c ∈ List.replicate (2 * depth) ' ', isSpace c = true := by
    intro c hc
    rw [List.eq_of_mem_replicate hc]
    rfl
  unfold skipSpace margin
  rw [List.dropWhile_cons, if_pos (by decide), String.toList_ofList,
    List.dropWhile_append_of_pos hspaces]

theorem skipSpace_of_not {c : Char} (h : isSpace c = false) (cs : List Char) :
    skipSpace (c :: cs) = c :: cs := by
  unfold skipSpace
  rw [List.dropWhile_cons, h]
  rfl

theorem linesFrom_cons (first : Bool) (depth : Nat) (closing line : String)
    (lines : List String) (rest : List Char) :
    linesFrom first depth closing (line :: lines) ++ rest =
      (if first then [] else [',']) ++ '\n' :: ((margin (depth + 1)).toList ++
        (line.toList ++ (laterLines depth closing lines ++ rest))) := by
  cases first <;> simp [linesFrom, allLines, laterLines]

theorem skipSpace_linesFrom_nil (first : Bool) (depth : Nat) {closing : String} {c : Char}
    (hclosing : closing.toList = [c]) (hc : isSpace c = false) (rest : List Char) :
    skipSpace (linesFrom first depth closing [] ++ rest) = c :: rest := by
  cases first with
  | true =>
    change skipSpace (closing.toList ++ rest) = _
    rw [hclosing]
    exact skipSpace_of_not hc rest
  | false =>
    change skipSpace ('\n' :: ((margin depth).toList ++ closing.toList ++ rest)) = _
    rw [hclosing, List.append_assoc, skipSpace_margin]
    exact skipSpace_of_not hc rest

end Json

namespace Document

open Json

variable {fuel depth : Nat} {cs rest r t : List Char} {c : Char}

/-! ### Single steps -/

theorem readNumber_head {n : Number} (h : readNumber cs = .ok (n, r)) :
    ∃ c t, cs = c :: t ∧ (c = '-' ∨ c.isDigit = true) := by
  unfold readNumber at h
  split at h
  · exact ⟨'-', _, rfl, .inl rfl⟩
  · cases cs with
    | nil => cases h
    | cons c t =>
      refine ⟨c, t, rfl, .inr ?_⟩
      unfold readUnsigned at h
      dsimp only at h
      split at h
      · cases h
      · rename_i hdigit
        simpa using hdigit

theorem not_isSpace_of_number (hc : c = '-' ∨ c.isDigit = true) : isSpace c = false := by
  rw [Bool.eq_false_iff]
  intro hspace
  have : c = ' ' ∨ c = '\n' ∨ c = '\t' ∨ c = '\r' := by simpa [isSpace, or_assoc] using hspace
  rcases this with rfl | rfl | rfl | rfl <;> simp at hc

theorem readValue_of_readNumber {n : Number} (h : readNumber cs = .ok (n, r)) :
    readValue (fuel + 1) depth cs = (ofNumber n, some r) := by
  obtain ⟨c, t, rfl, hc⟩ := readNumber_head h
  unfold readValue
  rw [skipSpace_of_not (not_isSpace_of_number hc)]
  -- the words and brackets that the reader tells apart start with no digit
  split <;> rename_i heq
  case h_8 =>
    cases heq
    rw [if_pos hc, h]
    rfl
  all_goals
    cases heq
  all_goals simp at hc

theorem readValue_str {s : String} (h : readString cs = .ok (s, rest)) :
    readValue (fuel + 1) depth ('"' :: cs) = (.str s, some rest) := by
  rw [readValue, skipSpace_of_not rfl]
  split <;> rename_i heq
  case h_5 =>
    cases heq
    rw [h]
  case h_8 =>
    cases heq
    contradiction
  all_goals simp at heq

theorem readValue_arr {items : List Document} {fault : Option JsonFault}
    {last : Option (List Char)} (hdepth : 1 < depth)
    (h : readItems fuel (depth - 1) true cs = ((items, fault), last)) :
    readValue (fuel + 1) depth ('[' :: cs) = (.arr items fault, last) := by
  have hread : readValue (fuel + 1) depth ('[' :: cs) =
      if depth ≤ 1 then fail .tooDeep
      else
        (.arr (readItems fuel (depth - 1) true cs).1.1 (readItems fuel (depth - 1) true cs).1.2,
          (readItems fuel (depth - 1) true cs).2) := rfl
  rw [hread, if_neg (Nat.not_le.2 hdepth), h]

theorem readValue_obj {fields : List (String × Document × Option JsonFault)}
    {fin : ObjectEnd Document} {last : Option (List Char)} (hdepth : 1 < depth)
    (h : readFields fuel (depth - 1) true cs = ((fields, fin), last)) :
    readValue (fuel + 1) depth ('\x7b' :: cs) = (.obj fields fin, last) := by
  have hread : readValue (fuel + 1) depth ('\x7b' :: cs) =
      if depth ≤ 1 then fail .tooDeep
      else
        (.obj (readFields fuel (depth - 1) true cs).1.1 (readFields fuel (depth - 1) true cs).1.2,
          (readFields fuel (depth - 1) true cs).2) := rfl
  rw [hread, if_neg (Nat.not_le.2 hdepth), h]

theorem readValue_skipSpace (h : skipSpace cs = skipSpace t) :
    readValue fuel depth cs = readValue fuel depth t := by
  cases fuel with
  | zero => rfl
  | succ fuel => rw [readValue, readValue, h]

theorem readItems_closed {first : Bool} (h : skipSpace cs = ']' :: rest) :
    readItems (fuel + 1) depth first cs = (([], none), some rest) := by
  rw [readItems, h]
  rfl

section

variable {d : Document} {ds : List Document} {fault : Option JsonFault}
  {last : Option (List Char)}

theorem readItems_first (h : skipSpace cs = c :: t) (hc : c ≠ ']')
    (hvalue : readValue fuel depth (c :: t) = (d, some r))
    (hlater : readItems fuel depth false r = ((ds, fault), last)) :
    readItems (fuel + 1) depth true cs = ((d :: ds, fault), last) := by
  rw [readItems, h]
  split <;> rename_i heq
  · cases heq
  · cases heq
    exact absurd rfl hc
  · cases heq
    simp only [hvalue, hlater, if_true]

theorem readItems_next (h : skipSpace cs = ',' :: rest) (hnext : skipSpace rest = c :: t)
    (hc : c ≠ ']') (hvalue : readValue fuel depth (c :: t) = (d, some r))
    (hlater : readItems fuel depth false r = ((ds, fault), last)) :
    readItems (fuel + 1) depth false cs = ((d :: ds, fault), last) := by
  rw [readItems, h]
  split <;> rename_i heq
  · cases heq
  · simp at heq
  · cases heq
    rw [if_neg (by decide), if_pos rfl, hnext]
    split <;> rename_i heq
    · cases heq
    · cases heq
      exact absurd rfl hc
    · simp only [hvalue, hlater]

end

theorem readFields_closed {first : Bool} (h : skipSpace cs = '\x7d' :: rest) :
    readFields (fuel + 1) depth first cs = (([], .closed), some rest) := by
  rw [readFields, h]
  rfl

section

variable {key : String} {d : Document} {fields : List (String × Document × Option JsonFault)}
  {fin : ObjectEnd Document} {last : Option (List Char)} {t' after : List Char}

theorem readFields_first (h : skipSpace cs = '"' :: t) (hkey : readString t = .ok (key, t'))
    (hcolon : skipSpace t' = ':' :: after) (hvalue : readValue fuel depth after = (d, some r))
    (hlater : readFields fuel depth false r = ((fields, fin), last)) :
    readFields (fuel + 1) depth true cs = (((key, d, none) :: fields, fin), last) := by
  rw [readFields, h]
  split <;> rename_i heq
  · cases heq
  · simp at heq
  · cases heq
    rw [if_pos rfl]
    dsimp only
    split
    · rename_i heq
      cases heq
      rw [hkey]
      dsimp only
      rw [hcolon]
      split <;> rename_i heq
      · cases heq
      · cases heq
        simp only [hvalue, hlater]
      · exact absurd rfl (heq _)
    · rename_i hnot
      exact absurd rfl (hnot _)

theorem readFields_next (h : skipSpace cs = ',' :: rest) (hnext : skipSpace rest = '"' :: t) :
    readFields (fuel + 1) depth false cs = readFields (fuel + 1) depth true rest := by
  have hfirst : ∀ d : Part (List (String × Document × Option JsonFault) × ObjectEnd Document),
      readFields (fuel + 1) depth true rest = d → readFields (fuel + 1) depth false cs = d := by
    intro d hd
    rw [readFields, hnext] at hd
    rw [readFields, h]
    split <;> rename_i heq
    · cases heq
    · simp at heq
    · cases heq
      rw [if_neg (by decide), if_pos rfl, hnext]
      exact hd
  exact hfirst _ rfl

end

/-! ### Whole values -/

/-- The text of a value starts with neither a blank nor a closing bracket. -/
theorem textAt_head {j : Json} (hj : j.Readable depth) (k : Nat) :
    ∃ c t, (j.textAt k).toList = c :: t ∧ isSpace c = false ∧ c ≠ ']' := by
  have hnumber : ∀ {cs : List Char} {n : Number}, readNumber cs = .ok (n, []) →
      ∃ c t, cs = c :: t ∧ isSpace c = false ∧ c ≠ ']' := by
    intro cs n h
    obtain ⟨c, t, rfl, hc⟩ := readNumber_head h
    refine ⟨c, t, rfl, not_isSpace_of_number hc, ?_⟩
    rintro rfl
    simp at hc
  cases j with
  | null => exact ⟨'n', ['u', 'l', 'l'], by rw [textAt]; rfl, rfl, by decide⟩
  | bool b =>
    cases b with
    | true => exact ⟨'t', ['r', 'u', 'e'], by rw [textAt]; rfl, rfl, by decide⟩
    | false => exact ⟨'f', ['a', 'l', 's', 'e'], by rw [textAt]; rfl, rfl, by decide⟩
  | int n =>
    rw [textAt]
    exact hnumber (readNumber_int hj)
  | float x =>
    rw [textAt]
    exact hnumber hj
  | str s =>
    rw [textAt]
    exact ⟨'"', _, escaped_toList s, rfl, by decide⟩
  | arr items =>
    rw [textAt]
    exact ⟨'[', _, bracketed_toList .., rfl, by decide⟩
  | obj fields =>
    rw [textAt]
    exact ⟨'\x7b', _, bracketed_toList .., rfl, by decide⟩

theorem endsNumber_laterLines (k : Nat) (closing : String) (lines : List String)
    (rest : List Char) : EndsNumber (laterLines k closing lines ++ rest) := by
  cases lines <;> (intro c hc; cases hc; decide)

theorem readItems_cons {j : Json} {items : List Json} {fuel depth k : Nat} {rest : List Char}
    (hj : j.Readable depth)
    (hvalue : ∀ rest, EndsNumber rest →
      readValue fuel depth ((j.textAt (k + 1)).toList ++ rest) = (j.asRead, some rest))
    (hlater : readItems fuel depth false
        (linesFrom false k "]" (itemTexts (k + 1) items) ++ rest) =
      ((itemsAsRead items, none), some rest)) (first : Bool) :
    readItems (fuel + 1) depth first
        (linesFrom first k "]" (itemTexts (k + 1) (j :: items)) ++ rest) =
      ((itemsAsRead (j :: items), none), some rest) := by
  have hends := endsNumber_laterLines k "]" (itemTexts (k + 1) items) rest
  rw [itemTexts, linesFrom_cons]
  change readItems fuel depth false (laterLines k "]" (itemTexts (k + 1) items) ++ rest) = _
    at hlater
  generalize laterLines k "]" (itemTexts (k + 1) items) ++ rest = more at hlater hends ⊢
  obtain ⟨c, t, htext, hspace, hc⟩ := textAt_head hj (k + 1)
  have hstart : skipSpace ('\n' :: ((margin (k + 1)).toList ++
      ((j.textAt (k + 1)).toList ++ more))) = c :: (t ++ more) := by
    rw [skipSpace_margin, htext, List.cons_append, skipSpace_of_not hspace]
  have hitem := hvalue more hends
  rw [htext, List.cons_append] at hitem
  cases first with
  | true => exact readItems_first hstart hc hitem hlater
  | false => exact readItems_next (skipSpace_of_not rfl _) hstart hc hitem hlater

theorem readFields_cons {key : String} {j : Json} {fields : List (String × Json)}
    {fuel depth k : Nat} {rest : List Char}
    (hvalue : ∀ rest, EndsNumber rest →
      readValue fuel depth ((j.textAt (k + 1)).toList ++ rest) = (j.asRead, some rest))
    (hlater : readFields fuel depth false
        (linesFrom false k "\x7d" (fieldTexts (k + 1) fields) ++ rest) =
      ((fieldsAsRead fields, .closed), some rest)) (first : Bool) :
    readFields (fuel + 1) depth first
        (linesFrom first k "\x7d" (fieldTexts (k + 1) ((key, j) :: fields)) ++ rest) =
      ((fieldsAsRead ((key, j) :: fields), .closed), some rest) := by
  have hends := endsNumber_laterLines k "\x7d" (fieldTexts (k + 1) fields) rest
  rw [fieldTexts, linesFrom_cons]
  change readFields fuel depth false (laterLines k "\x7d" (fieldTexts (k + 1) fields) ++ rest) = _
    at hlater
  generalize laterLines k "\x7d" (fieldTexts (k + 1) fields) ++ rest = more at hlater hends ⊢
  have hstart : skipSpace ('\n' :: ((margin (k + 1)).toList ++
      ((escaped key ++ ": " ++ j.textAt (k + 1)).toList ++ more))) =
        '"' :: (key.toList.flatMap (fun c => (escapeChar c).toList) ++
          '"' :: ':' :: ' ' :: ((j.textAt (k + 1)).toList ++ more)) := by
    rw [skipSpace_margin, String.toList_append, String.toList_append, escaped_toList]
    simp only [List.cons_append, List.append_assoc]
    exact skipSpace_of_not rfl _
  have hblank : skipSpace (' ' :: ((j.textAt (k + 1)).toList ++ more)) =
      skipSpace ((j.textAt (k + 1)).toList ++ more) := rfl
  have hitem := (readValue_skipSpace hblank).trans (hvalue more hends)
  have hfirst := readFields_first hstart (readString_written key _) (skipSpace_of_not rfl _) hitem
    hlater
  cases first with
  | true => exact hfirst
  | false => exact (readFields_next (skipSpace_of_not rfl _) hstart).trans hfirst

theorem length_linesFrom_pos (first : Bool) (k : Nat) {closing : String}
    (hclosing : closing.toList.length = 1) (lines : List String) :
    0 < (linesFrom first k closing lines).length := by
  cases first <;> cases lines <;> simp [linesFrom, allLines, laterLines, hclosing]

theorem length_linesFrom_cons (first : Bool) (k : Nat) (closing line : String)
    (lines : List String) :
    line.toList.length + (linesFrom false k closing lines).length + 1 ≤
      (linesFrom first k closing (line :: lines)).length := by
  cases first <;> simp [linesFrom, allLines, laterLines]
  all_goals omega

mutual

/-- A value is read from its text, at any depth and before any text that ends a number. Three
steps for each character of the text are enough. -/
theorem readValue_textAt (j : Json) {fuel depth : Nat} (k : Nat) (rest : List Char)
    (hj : j.Readable depth) (hfuel : 3 * (j.textAt k).toList.length < fuel)
    (hrest : EndsNumber rest) :
    readValue fuel depth ((j.textAt k).toList ++ rest) = (j.asRead, some rest) := by
  obtain ⟨fuel, rfl⟩ := Nat.exists_eq_succ_of_ne_zero (by omega : fuel ≠ 0)
  cases j with
  | null => rw [textAt]; rfl
  | bool b => cases b <;> rw [textAt] <;> rfl
  | int n =>
    rw [textAt]
    exact readValue_of_readNumber (readNumber_append (readNumber_int hj) hrest)
  | float x =>
    rw [textAt]
    exact readValue_of_readNumber (readNumber_append hj hrest)
  | str s =>
    rw [textAt, escaped_toList, List.cons_append, List.append_assoc]
    exact readValue_str (readString_written s rest)
  | arr items =>
    rw [textAt, bracketed_toList, List.length_append] at hfuel
    rw [textAt, bracketed_toList, List.append_assoc]
    change 3 * (1 + (linesFrom true k "]" _).length) < _ at hfuel
    exact readValue_arr hj.1 (readItems_textAt items k rest hj.2 (by omega))
  | obj fields =>
    rw [textAt, bracketed_toList, List.length_append] at hfuel
    rw [textAt, bracketed_toList, List.append_assoc]
    change 3 * (1 + (linesFrom true k "\x7d" _).length) < _ at hfuel
    exact readValue_obj hj.1 (readFields_textAt fields k rest hj.2 (by omega))

theorem readItems_textAt (items : List Json) {fuel depth : Nat} (k : Nat) (rest : List Char)
    (hitems : ReadableItems depth items) {first : Bool}
    (hfuel : 3 * (linesFrom first k "]" (itemTexts (k + 1) items)).length ≤ fuel) :
    readItems fuel depth first (linesFrom first k "]" (itemTexts (k + 1) items) ++ rest) =
      ((itemsAsRead items, none), some rest) := by
  have hpos := length_linesFrom_pos first k (rfl : "]".toList.length = 1) (itemTexts (k + 1) items)
  obtain ⟨fuel, rfl⟩ := Nat.exists_eq_succ_of_ne_zero (by omega : fuel ≠ 0)
  cases items with
  | nil =>
    rw [itemTexts]
    exact readItems_closed (skipSpace_linesFrom_nil first k rfl rfl rest)
  | cons j items =>
    have hlength := length_linesFrom_cons first k "]" (j.textAt (k + 1)) (itemTexts (k + 1) items)
    rw [itemTexts] at hfuel
    exact readItems_cons hitems.1
      (fun rest => readValue_textAt j (k + 1) rest hitems.1 (by omega))
      (readItems_textAt items k rest hitems.2 (by omega)) first

theorem readFields_textAt (fields : List (String × Json)) {fuel depth : Nat} (k : Nat)
    (rest : List Char) (hfields : ReadableFields depth fields) {first : Bool}
    (hfuel : 3 * (linesFrom first k "\x7d" (fieldTexts (k + 1) fields)).length ≤ fuel) :
    readFields fuel depth first (linesFrom first k "\x7d" (fieldTexts (k + 1) fields) ++ rest) =
      ((fieldsAsRead fields, .closed), some rest) := by
  have hpos :=
    length_linesFrom_pos first k (rfl : "\x7d".toList.length = 1) (fieldTexts (k + 1) fields)
  obtain ⟨fuel, rfl⟩ := Nat.exists_eq_succ_of_ne_zero (by omega : fuel ≠ 0)
  cases fields with
  | nil =>
    rw [fieldTexts]
    exact readFields_closed (skipSpace_linesFrom_nil first k rfl rfl rest)
  | cons field fields =>
    have hlength := length_linesFrom_cons first k "\x7d"
      (escaped field.1 ++ ": " ++ field.2.textAt (k + 1)) (fieldTexts (k + 1) fields)
    rw [fieldTexts] at hfuel
    rw [String.toList_append, List.length_append] at hlength
    exact readFields_cons
      (fun rest => readValue_textAt field.2 (k + 1) rest hfields.1 (by omega))
      (readFields_textAt fields k rest hfields.2 (by omega)) first

end

/-- A value is read from the text it is written as. -/
theorem read_pretty {j : Json} (hj : j.Readable greatestDepth) :
    read j.pretty = (j.asRead, some []) := by
  have hfuel : 3 * (j.textAt 0).toList.length < 3 * (j.textAt 0).toList.length + 3 := by omega
  have hread := readValue_textAt j 0 [] hj hfuel .nil
  rw [List.append_nil] at hread
  exact hread

end Document

end PanelSchema
