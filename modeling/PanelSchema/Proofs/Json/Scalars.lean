import Mathlib.Data.List.TakeWhile
import Mathlib.Tactic.IntervalCases
import PanelSchema.Json.Document

/-!
Scalars are read as they were written: a number up to where it ends, an integer of 64 bits and
every string. A float is read from its own text, which need not give the same float.
-/

namespace PanelSchema.Json

/-! ### Where a number ends -/

def EndsNumber (rest : List Char) : Prop :=
  ∀ c ∈ rest.head?, c.isDigit = false ∧ c ≠ '.' ∧ c ≠ 'e' ∧ c ≠ 'E'

namespace EndsNumber

variable {rest : List Char}

theorem nil : EndsNumber [] := by
  intro c hc
  cases hc

theorem takeDigits (h : EndsNumber rest) : rest.takeWhile Char.isDigit = [] := by
  cases rest with
  | nil => rfl
  | cons c rest => rw [List.takeWhile_cons, (h c rfl).1]; rfl

theorem dropDigits (h : EndsNumber rest) : rest.dropWhile Char.isDigit = rest := by
  cases rest with
  | nil => rfl
  | cons c rest => rw [List.dropWhile_cons, (h c rfl).1]; rfl

theorem takeWhile_append (h : EndsNumber rest) (cs : List Char) :
    (cs ++ rest).takeWhile Char.isDigit = cs.takeWhile Char.isDigit := by
  rw [List.takeWhile_append, h.takeDigits, List.append_nil]
  split
  · rename_i hall
    exact ((List.takeWhile_prefix _).eq_of_length hall).symm
  · rfl

theorem dropWhile_append (h : EndsNumber rest) (cs : List Char) :
    (cs ++ rest).dropWhile Char.isDigit = cs.dropWhile Char.isDigit ++ rest := by
  rw [List.dropWhile_append, h.dropDigits]
  split
  · rename_i hnone
    rw [List.isEmpty_iff.1 hnone, List.nil_append]
  · rfl

end EndsNumber

theorem exists_of_bind_eq_ok {ε α β : Type} {x : Except ε α} {f : α → Except ε β} {b : β}
    (h : x >>= f = .ok b) : ∃ a, x = .ok a ∧ f a = .ok b := by
  cases x with
  | error e => cases h
  | ok a => exact ⟨a, rfl, h⟩

variable {negative : Bool} {significand : Nat} {power : Int} {cs rest r : List Char} {n : Number}

theorem powerSign_append {down : Bool} {c : Char} {ds : List Char}
    (h : powerSign cs = (down, c :: ds)) : powerSign (cs ++ rest) = (down, c :: (ds ++ rest)) := by
  unfold powerSign at h
  split at h
  · cases h
    rfl
  · cases h
    rfl
  · rename_i hplus hminus
    cases h
    rw [List.cons_append, powerSign]
    · intro tail heq
      cases heq
      exact hplus _ rfl
    · intro tail heq
      cases heq
      exact hminus _ rfl

theorem readPower_append (h : readPower negative significand power cs = .ok (n, r))
    (hrest : EndsNumber rest) :
    readPower negative significand power (cs ++ rest) = .ok (n, r ++ rest) := by
  cases hsign : powerSign cs with
  | mk down ds =>
    cases ds with
    | nil =>
      unfold readPower at h
      rw [hsign] at h
      cases h
    | cons c ds =>
      unfold readPower at h ⊢
      rw [hsign] at h
      rw [powerSign_append hsign]
      dsimp only at h ⊢
      rw [← List.cons_append, hrest.takeWhile_append, hrest.dropWhile_append]
      split at h
      · cases h
      · rename_i hdigit
        rw [if_neg hdigit]
        split at h
        · rename_i hgreat
          rw [if_pos hgreat]
          split at h
          · cases h
          · rename_i hzero
            cases h
            rw [if_neg hzero]
        · rename_i hsmall
          rw [if_neg hsmall]
          obtain ⟨x, hx, h⟩ := exists_of_bind_eq_ok h
          cases h
          rw [hx]
          rfl

theorem readPower?_append (h : readPower? negative significand power cs = .ok (n, r))
    (hrest : EndsNumber rest) :
    readPower? negative significand power (cs ++ rest) = .ok (n, r ++ rest) := by
  cases cs with
  | nil =>
    obtain ⟨x, hx, h⟩ := exists_of_bind_eq_ok h
    cases h
    cases rest with
    | nil => rw [List.nil_append, readPower?, hx]; rfl
    | cons c rest =>
      have hmark : ¬(c = 'e' ∨ c = 'E') := not_or.2 (hrest c rfl).2.2
      rw [List.nil_append, readPower?, if_neg hmark, hx]
      rfl
  | cons c cs =>
    rw [List.cons_append]
    unfold readPower? at h ⊢
    dsimp only at h ⊢
    split at h
    · rename_i hmark
      rw [if_pos hmark]
      exact readPower_append h hrest
    · rename_i hmark
      obtain ⟨x, hx, h⟩ := exists_of_bind_eq_ok h
      cases h
      rw [if_neg hmark, hx]
      rfl

theorem readFraction_append (h : readFraction negative significand power cs = .ok (n, r))
    (hrest : EndsNumber rest) :
    readFraction negative significand power (cs ++ rest) = .ok (n, r ++ rest) := by
  unfold readFraction at h ⊢
  rw [hrest.takeWhile_append, hrest.dropWhile_append]
  dsimp only at h ⊢
  split at h
  · cases h
  · rename_i hsome
    rw [if_neg hsome]
    exact readPower?_append h hrest

theorem head?_append_mark (hrest : EndsNumber rest) (cs : List Char) {mark : Char}
    (hmark : mark = 'e' ∨ mark = 'E') :
    ((cs ++ rest).head? == some mark) = (cs.head? == some mark) := by
  cases cs with
  | cons c cs => rfl
  | nil =>
    cases rest with
    | nil => rfl
    | cons c rest =>
      have hc : c ≠ mark := by
        rintro rfl
        exact (not_or.2 (hrest c rfl).2.2) hmark
      simp [hc]

theorem isDigit_head?_append (hrest : EndsNumber rest) (cs : List Char) :
    ((cs ++ rest).head?.map Char.isDigit).getD false =
      (cs.head?.map Char.isDigit).getD false := by
  cases cs with
  | cons d ds => rfl
  | nil =>
    cases rest with
    | nil => rfl
    | cons d rest => exact (hrest d rfl).1

theorem append_ne_point (hrest : EndsNumber rest) (h : ∀ part, cs ≠ '.' :: part)
    (part : List Char) : cs ++ rest ≠ '.' :: part := by
  intro heq
  cases cs with
  | nil => exact (hrest '.' (congrArg List.head? heq)).2.1 rfl
  | cons d ds => exact h ds (congrArg (· :: ds) (List.cons.inj heq).1)

theorem readUnsigned_append (h : readUnsigned negative cs = .ok (n, r))
    (hrest : EndsNumber rest) : readUnsigned negative (cs ++ rest) = .ok (n, r ++ rest) := by
  cases cs with
  | nil => cases h
  | cons c cs =>
    rw [List.cons_append]
    unfold readUnsigned at h ⊢
    dsimp only at h ⊢
    rw [isDigit_head?_append hrest, ← List.cons_append, hrest.takeWhile_append, hrest.dropWhile_append,
      head?_append_mark hrest _ (.inl rfl), head?_append_mark hrest _ (.inr rfl)]
    split at h
    · cases h
    · rename_i hdigit
      rw [if_neg hdigit]
      split at h
      · cases h
      · rename_i hzero
        rw [if_neg hzero]
        generalize (c :: cs).dropWhile Char.isDigit = after at h ⊢
        split at h
        · rename_i part
          rw [List.cons_append]
          exact readFraction_append h hrest
        · rename_i hpoint
          split
          · rename_i heq
            exact absurd heq (append_ne_point hrest hpoint _)
          · split at h
            · rename_i hexact
              rw [if_pos hexact]
              exact readPower?_append h hrest
            · rename_i hexact
              rw [if_neg hexact]
              split at h
              · rename_i hpositive
                cases h
                rw [if_pos hpositive]
              · rename_i hnegative
                rw [if_neg hnegative]
                split at h
                · rename_i hfloat
                  cases h
                  rw [if_pos hfloat]
                · rename_i hint
                  cases h
                  rw [if_neg hint]

theorem readNumber_append (h : readNumber cs = .ok (n, r)) (hrest : EndsNumber rest) :
    readNumber (cs ++ rest) = .ok (n, r ++ rest) := by
  unfold readNumber at h
  split at h
  · exact readUnsigned_append h hrest
  · rename_i hminus
    have hreads := readUnsigned_append h hrest
    cases cs with
    | nil => cases h
    | cons c cs =>
      rw [List.cons_append] at hreads ⊢
      rw [readNumber]
      · exact hreads
      · intro tail heq
        cases heq
        exact hminus _ rfl

/-! ### Integers -/

theorem le_ofDigitChars (ds : List Char) (n : Nat) : n ≤ Nat.ofDigitChars 10 ds n := by
  induction ds generalizing n with
  | nil => rw [Nat.ofDigitChars_nil]
  | cons d ds ih =>
    rw [Nat.ofDigitChars_cons]
    exact Nat.le_trans (by omega) (ih _)

theorem takeDigits_of_le {ds : List Char} {n count : Nat}
    (h : Nat.ofDigitChars 10 ds n ≤ greatestSignificand) :
    takeDigits n count ds = (Nat.ofDigitChars 10 ds n, count + ds.length, []) := by
  induction ds generalizing n count with
  | nil => rw [takeDigits, Nat.ofDigitChars_nil]; rfl
  | cons d ds ih =>
    have hstep : n * 10 + (d.toNat - '0'.toNat) = 10 * n + (d.toNat - '0'.toNat) := by
      rw [Nat.mul_comm]
    rw [Nat.ofDigitChars_cons] at h ⊢
    have hfits := (le_ofDigitChars ds _).trans h
    rw [takeDigits, hstep, if_neg (Nat.not_lt.2 hfits), ih h, List.length_cons, Nat.add_assoc,
      Nat.add_comm 1]

/-- Zero is the only number whose digits start with a zero. -/
theorem tail_toDigits {n : Nat} {ds : List Char} (h : Nat.toDigits 10 n = '0' :: ds) : ds = [] := by
  induction n using Nat.strongRecOn generalizing ds with
  | ind n ih =>
    rw [Nat.toDigits_eq_if (by decide)] at h
    split at h
    · exact (List.cons.inj h).2.symm
    · rename_i hten
      cases hdigits : Nat.toDigits 10 (n / 10) with
      | nil => exact absurd hdigits Nat.toDigits_ne_nil
      | cons e es =>
        rw [hdigits, List.cons_append] at h
        obtain ⟨rfl, -⟩ := List.cons.inj h
        have hnone := ih (n / 10) (by omega) hdigits
        have hzero : n / 10 = 0 := by
          rw [← Nat.ofDigitChars_ten_toDigits (n := n / 10), hdigits, hnone]
          rfl
        omega

theorem readUnsigned_toDigits {n : Nat} (hn : n ≤ greatestSignificand) (negative : Bool) :
    readUnsigned negative (Nat.toDigits 10 n) =
      if !negative then .ok (.int n, [])
      else if n = 0 ∨ 0x8000000000000000 < n then .ok (.float (-floatOfDecimal n 0), [])
      else .ok (.int (-n), []) := by
  have hall : ∀ c ∈ Nat.toDigits 10 n, c.isDigit = true :=
    fun c hc => Nat.isDigit_of_mem_toDigits (by decide) (by decide) hc
  have htake : (Nat.toDigits 10 n).takeWhile Char.isDigit = Nat.toDigits 10 n :=
    List.takeWhile_eq_self_iff.2 hall
  have hdrop : (Nat.toDigits 10 n).dropWhile Char.isDigit = [] :=
    List.dropWhile_eq_nil_iff.2 hall
  have hvalue : takeDigits 0 0 (Nat.toDigits 10 n) = (n, (Nat.toDigits 10 n).length, []) := by
    rw [takeDigits_of_le (by rwa [Nat.ofDigitChars_ten_toDigits]), Nat.ofDigitChars_ten_toDigits,
      Nat.zero_add]
  cases hdigits : Nat.toDigits 10 n with
  | nil => exact absurd hdigits Nat.toDigits_ne_nil
  | cons d ds =>
    have hd : ¬(!d.isDigit) = true := by
      rw [hall d (by rw [hdigits]; exact List.mem_cons_self)]
      decide
    have hlead : ¬(d = '0' ∧ (ds.head?.map Char.isDigit).getD false = true) := by
      rintro ⟨rfl, hnext⟩
      rw [tail_toDigits hdigits] at hnext
      cases hnext
    rw [hdigits] at htake hdrop hvalue
    unfold readUnsigned
    dsimp only
    rw [if_neg hd, if_neg hlead, htake, hdrop, hvalue]
    rfl

def IsWord (n : Int) : Prop :=
  leastInt ≤ n ∧ n ≤ greatestSignificand

theorem readNumber_int {n : Int} (hn : IsWord n) :
    readNumber (toString n).toList = .ok (.int n, []) := by
  unfold IsWord leastInt greatestSignificand at hn
  rw [Int.toString_eq_repr, Int.repr_eq_if]
  split
  · rename_i hpositive
    rw [Nat.toList_repr, readNumber]
    · rw [readUnsigned_toDigits (by unfold greatestSignificand; omega)]
      simp [hpositive]
    · intro tail heq
      have hminus : '-' ∈ Nat.toDigits 10 n.toNat := by rw [heq]; exact List.mem_cons_self
      exact absurd (Nat.isDigit_of_mem_toDigits (by decide) (by decide) hminus) (by decide)
  · rename_i hnegative
    have hsmall : ¬((-n).toNat = 0 ∨ 0x8000000000000000 < (-n).toNat) := by omega
    have hvalue : -((-n).toNat : Int) = n := by omega
    rw [String.toList_append, Nat.toList_repr]
    change readUnsigned true (Nat.toDigits 10 (-n).toNat) = _
    rw [readUnsigned_toDigits (by unfold greatestSignificand; omega), if_neg (by decide),
      if_neg hsmall, hvalue]

/-! ### Floats -/

/-- The float that the text of a float gives. It may be a neighbour of the one that was written. -/
def rereadFloat (x : Float) : Float :=
  match readNumber (floatText x).toList with
  | .ok (.float y, _) => y
  | _ => x

def IsWritten (x : Float) : Prop :=
  readNumber (floatText x).toList = .ok (.float (rereadFloat x), [])

/-! ### Strings -/

theorem readEscape_control {k : Nat} (hk : k < 0x20) (cs : List Char) :
    readEscape ('u' :: (if k < 0x10 then "000" else "00").toList ++ (Nat.toDigits 16 k ++ cs)) =
      .ok (Char.ofNat k, cs) := by
  interval_cases k <;> rfl

theorem readStringWithin_of_escape {c : Char} (h : readEscape cs = .ok (c, rest)) (fuel : Nat) :
    readStringWithin (fuel + 1) ('\\' :: cs) =
      (readStringWithin fuel rest).map fun (xs, rest) => (c :: xs, rest) := by
  rw [readStringWithin, h]
  simp only [bind, Except.bind]
  cases readStringWithin fuel rest <;> rfl

theorem readStringWithin_escapeChar (c : Char) (fuel : Nat) (cs : List Char) :
    readStringWithin (fuel + 1) ((escapeChar c).toList ++ cs) =
      (readStringWithin fuel cs).map fun (xs, rest) => (c :: xs, rest) := by
  unfold escapeChar
  iterate 7
    split
    · subst c
      exact readStringWithin_of_escape rfl fuel
  split
  · rename_i hcontrol
    have hread := readEscape_control hcontrol cs
    rw [Char.ofNat_toNat] at hread
    rw [← readStringWithin_of_escape hread, hexText, String.toList_append, String.toList_ofList,
      List.append_assoc]
    split <;> rfl
  · rename_i hquote hslash _ _ _ _ _ hcontrol
    rw [Char.toString_eq_singleton, String.toList_singleton]
    change readStringWithin (fuel + 1) (c :: cs) = _
    rw [readStringWithin, if_neg hcontrol]
    · cases readStringWithin fuel cs <;> rfl
    · exact hquote
    · exact hslash

theorem readStringWithin_written (cs rest : List Char) {fuel : Nat} (hfuel : cs.length < fuel) :
    readStringWithin fuel (cs.flatMap (fun c => (escapeChar c).toList) ++ '"' :: rest) =
      .ok (cs, rest) := by
  induction cs generalizing fuel with
  | nil =>
    obtain ⟨fuel, rfl⟩ := Nat.exists_eq_succ_of_ne_zero (Nat.ne_of_gt hfuel)
    rfl
  | cons c cs ih =>
    obtain ⟨fuel, rfl⟩ := Nat.exists_eq_succ_of_ne_zero (Nat.ne_zero_of_lt hfuel)
    rw [List.flatMap_cons, List.append_assoc, readStringWithin_escapeChar,
      ih (Nat.lt_of_succ_lt_succ hfuel)]
    rfl

theorem escaped_toList (s : String) :
    (escaped s).toList = '"' :: (s.toList.flatMap (fun c => (escapeChar c).toList) ++ ['"']) := by
  unfold escaped
  rw [String.toList_append, String.toList_append, String.toList_join, List.flatMap_map]
  rfl

theorem escapeChar_length (c : Char) : 1 ≤ (escapeChar c).toList.length := by
  unfold escapeChar
  repeat' split
  all_goals simp

theorem readString_written (s : String) (rest : List Char) :
    readString (s.toList.flatMap (fun c => (escapeChar c).toList) ++ '"' :: rest) =
      .ok (s, rest) := by
  have hlength : ∀ cs : List Char,
      cs.length ≤ (cs.flatMap fun c => (escapeChar c).toList).length := by
    intro cs
    induction cs with
    | nil => exact Nat.le_refl 0
    | cons c cs ih =>
      have hc := escapeChar_length c
      rw [List.flatMap_cons, List.length_append, List.length_cons]
      omega
  have hfuel := hlength s.toList
  unfold readString
  rw [readStringWithin_written]
  · simp [Except.map]
  · simp only [List.length_append, List.length_cons]
    omega

end PanelSchema.Json
