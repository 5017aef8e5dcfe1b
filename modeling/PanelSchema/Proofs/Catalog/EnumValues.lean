import PanelSchema.Proofs.Catalog
import PanelSchema.Proofs.Catalog.Independence
import PanelSchema.Proofs.Number.Rounding

/-!
The values of an enum. A member without a value is one more than the member before it. A value
that is written down, and one that is taken from an earlier member, pass through a float on their
way, so the enum is counted exactly if and only if a float holds all of these.
-/

namespace PanelSchema.Catalog

open Rounding (Carries roundInt_neg)
open Syntax (Expr EnumMember)

/-! ### Counting -/

/-- What is left of an integer that has passed through a float. -/
def stored (n : Int) : Int :=
  clampInt (roundInt n)

/-- An integer with or without a minus sign. -/
def integerLiteral? : Expr → Option Int
  | .integer _ n => some n
  | .unary _ .minus (.integer _ n) => some (-n)
  | _ => none

/-- The values of an enum, counted from the first member on. What `keep` leaves of an integer that
is written down, or of the value of an earlier member, is the value of the member. -/
structure Counted (keep : Int → Int) (ms : List EnumMember) (vs : List Int) : Prop where
  length : vs.length = ms.length
  first : ∀ m : EnumMember, ms[0]? = some m → m.value = none → vs[0]? = some 0
  next : ∀ (i : Nat) (m : EnumMember) (v : Int), ms[i + 1]? = some m → m.value = none →
    vs[i]? = some v → vs[i + 1]? = some (min greatestInt (v + 1))
  literal : ∀ (i : Nat) (m : EnumMember) (e : Expr) (n : Int), ms[i]? = some m →
    m.value = some e → integerLiteral? e = some n → vs[i]? = some (keep n)
  copy : ∀ (i j : Nat) (m m' : EnumMember) (mark : Syntax.Mark) (v : Int), j < i →
    ms[i]? = some m → ms[j]? = some m' → m.value = some (.name mark m'.name) →
    vs[j]? = some v → vs[i]? = some (keep v)

/-- A member has no value, an integer of 64 bits, or that of an earlier member whose name is not
also that of a numeric constant. -/
inductive States (c : Catalog) (earlier : List EnumMember) : Option Expr → Prop where
  | nothing : States c earlier none
  | integer (m : Syntax.Mark) {n : Int} (hn : IsInt n) : States c earlier (some (.integer m n))
  | negated (m m' : Syntax.Mark) {n : Int} (hn : IsInt n) :
      States c earlier (some (.unary m .minus (.integer m' n)))
  | member (m : Syntax.Mark) {z : String} (hz : z ∈ earlier.map (·.name))
      (hc : c.number? z = none) : States c earlier (some (.name m z))

/-- The members have different names, each of them an identifier. -/
structure Countable (c : Catalog) (ms : List EnumMember) : Prop where
  nodup : (ms.map (·.name)).Nodup
  plain : ∀ m ∈ ms, '.' ∉ m.name.toList
  states : ∀ (i : Nat) (m : EnumMember), ms[i]? = some m → States c (ms.take i) m.value

/-! ### One member -/

theorem carries_ofInt {n : Int} (h : IsInt n) : Carries (Float.ofInt n) (roundInt n) := by
  unfold IsInt leastInt greatestInt at h
  exact Rounding.carries_ofInt (by omega)

/-- The value of a member that has none of its own, behind the cases that are done. -/
def nextOf (done : List EnumCase) : Int :=
  (done.getLast?.map fun d => nextInt d.value).getD 0

def caseValue (c : Catalog) (done : List EnumCase) (m : EnumMember) : Int :=
  (m.value.bind (c.explicitValue? done)).getD (nextOf done)

theorem nextOf_concat (done : List EnumCase) (d : EnumCase) :
    nextOf (done ++ [d]) = nextInt d.value := by
  simp [nextOf]

theorem enumCases_append (c : Catalog) (before after : List EnumMember) (done : List EnumCase) :
    c.enumCases (before ++ after) done (nextOf done) =
      c.enumCases after (c.enumCases before done (nextOf done))
        (nextOf (c.enumCases before done (nextOf done))) := by
  induction before generalizing done with
  | nil => rfl
  | cons m before ih =>
    have hnext := nextOf_concat done
      { ident := m.name, label := caseLabel m, value := c.caseValue done m }
    rw [List.cons_append, enumCases, enumCases]
    change c.enumCases (before ++ after) _ (nextInt (c.caseValue done m)) =
      c.enumCases after (c.enumCases before _ (nextInt (c.caseValue done m)))
        (nextOf (c.enumCases before _ (nextInt (c.caseValue done m))))
    rw [← hnext]
    exact ih _

theorem map_ident_enumCases (c : Catalog) (ms : List EnumMember) (done : List EnumCase)
    (next : Int) :
    (c.enumCases ms done next).map (·.ident) = done.map (·.ident) ++ ms.map (·.name) := by
  induction ms generalizing done next with
  | nil => simp [enumCases]
  | cons m ms ih =>
    rw [enumCases, ih]
    simp

/-- The cases of the members before the `i`-th one. -/
def doneBefore (c : Catalog) (ms : List EnumMember) (i : Nat) : List EnumCase :=
  c.enumCases (ms.take i) [] 0

section

variable {c : Catalog} {name : String} {ms : List EnumMember} {i j : Nat} {m : EnumMember}

theorem length_doneBefore (hi : i ≤ ms.length) : (c.doneBefore ms i).length = i := by
  have hidents := congrArg List.length (map_ident_enumCases c (ms.take i) [] 0)
  simpa [doneBefore, hi] using hidents

theorem cases_split (c : Catalog) (name : String) (h : ms[i]? = some m) :
    ∃ rest, (c.enumDef name ms).cases =
      c.doneBefore ms i ++
        { ident := m.name, label := caseLabel m, value := c.caseValue (c.doneBefore ms i) m } ::
          rest := by
  obtain ⟨hlt, rfl⟩ := List.getElem?_eq_some_iff.1 h
  have happend := enumCases_append c (ms.take i) (ms[i] :: ms.drop (i + 1)) []
  rw [← List.drop_eq_getElem_cons hlt, List.take_append_drop, List.drop_eq_getElem_cons hlt,
    enumCases] at happend
  obtain ⟨rest, hrest⟩ := earlier_prefix_enumCases c (ms.drop (i + 1))
    (c.doneBefore ms i ++ [{ ident := ms[i].name, label := caseLabel ms[i],
                             value := c.caseValue (c.doneBefore ms i) ms[i] }])
    (nextInt (c.caseValue (c.doneBefore ms i) ms[i]))
  refine ⟨rest, ?_⟩
  rw [← List.singleton_append, ← List.append_assoc, hrest]
  exact happend

theorem getElem?_values (h : ms[i]? = some m) :
    (c.enumDef name ms).values[i]? = some (c.caseValue (c.doneBefore ms i) m) := by
  obtain ⟨rest, hcases⟩ := cases_split c name h
  have hlength := length_doneBefore (c := c) (List.getElem?_eq_some_iff.1 h).1.le
  rw [EnumDef.values, hcases, List.getElem?_map, List.getElem?_append_right (by omega), hlength]
  simp

theorem getElem?_values_before (c : Catalog) (name : String) (h : ms[i]? = some m)
    (hj : j < i) :
    (c.enumDef name ms).values[j]? = (c.doneBefore ms i)[j]?.map (·.value) := by
  obtain ⟨rest, hcases⟩ := cases_split c name h
  have hlength := length_doneBefore (c := c) (List.getElem?_eq_some_iff.1 h).1.le
  rw [EnumDef.values, hcases, List.getElem?_map, List.getElem?_append_left (by omega)]

theorem getElem?_doneBefore {m' : EnumMember} {v : Int} (h : ms[i]? = some m) (hj : j < i)
    (hm' : ms[j]? = some m') (hv : (c.enumDef name ms).values[j]? = some v) :
    ∃ d, (c.doneBefore ms i)[j]? = some d ∧ d.ident = m'.name ∧ d.value = v := by
  rw [getElem?_values_before c name h hj] at hv
  obtain ⟨d, hd, rfl⟩ := Option.map_eq_some_iff.1 hv
  have hident := congrArg (·[j]?) (map_ident_enumCases c (ms.take i) [] 0)
  simp only [List.map_nil, List.nil_append, List.getElem?_map, List.getElem?_take_of_lt hj, hm',
    Option.map_some] at hident
  rw [doneBefore] at hd
  rw [hd, Option.map_some] at hident
  exact ⟨d, hd, Option.some.inj hident, rfl⟩

theorem isInt_of_getElem?_values {v : Int} (h : (c.enumDef name ms).values[i]? = some v) :
    IsInt v := by
  obtain ⟨d, hd, rfl⟩ := List.mem_map.1 (List.mem_of_getElem? h)
  exact c.inRange_enumDef name ms d hd

/-! ### Each kind of value -/

theorem caseValue_literal {e : Expr} {n : Int} {earlier : List EnumMember}
    (hstates : States c earlier m.value) (hvalue : m.value = some e)
    (hn : integerLiteral? e = some n) (done : List EnumCase) :
    c.caseValue done m = stored n := by
  rw [hvalue] at hstates
  rw [caseValue, hvalue, Option.bind_some, explicitValue?]
  cases hstates with
  | integer mark hint =>
    cases hn
    exact (carries_ofInt hint).toInt
  | negated mark mark' hint =>
    cases hn
    rw [stored, roundInt_neg]
    exact (carries_ofInt hint).neg.toInt
  | member => cases hn

theorem evalNumber?_of_plain {z : String} (mark : Syntax.Mark) (hz : '.' ∉ z.toList)
    (hc : c.number? z = none) : c.evalNumber? (.name mark z) = none := by
  have henum : c.enumValue? z = none := by
    unfold enumValue?
    rw [dottedParts_of_plain hz]
    rfl
  have hdotted : (Expr.name mark z).dotted? = some z := rfl
  rw [evalNumber?_of_dotted c hdotted, hc, henum]
  rfl

theorem find?_doneBefore (hnodup : (ms.map (·.name)).Nodup) {d : EnumCase}
    (hd : (c.doneBefore ms i)[j]? = some d) :
    (c.doneBefore ms i).find? (·.ident == d.ident) = some d := by
  have hidents : ((c.doneBefore ms i).map (·.ident)).Nodup := by
    rw [doneBefore, map_ident_enumCases, List.map_nil, List.nil_append, List.map_take]
    exact hnodup.sublist (List.take_sublist _ _)
  generalize c.doneBefore ms i = done at hd hidents
  have hmem := List.mem_of_getElem? hd
  cases hfind : done.find? (·.ident == d.ident) with
  | none =>
    have := List.find?_eq_none.1 hfind d hmem
    simp at this
  | some d' =>
    have hd' := List.mem_of_find?_eq_some hfind
    have hsame : d'.ident = d.ident := by simpa using List.find?_some hfind
    rw [List.inj_on_of_nodup_map hidents hd' hmem hsame]

theorem caseValue_copy (hc : Countable c ms) {m' : EnumMember} {mark : Syntax.Mark} {v : Int}
    (h : ms[i]? = some m) (hj : j < i) (hm' : ms[j]? = some m')
    (hvalue : m.value = some (.name mark m'.name)) (hnumber : c.number? m'.name = none)
    (hv : (c.enumDef name ms).values[j]? = some v) :
    c.caseValue (c.doneBefore ms i) m = stored v := by
  obtain ⟨d, hd, hident, rfl⟩ := getElem?_doneBefore h hj hm' hv
  have hfind := find?_doneBefore hc.nodup hd
  have hnone := evalNumber?_of_plain mark (hc.plain m' (List.mem_of_getElem? hm')) hnumber
  rw [hident] at hfind
  rw [caseValue, hvalue, Option.bind_some, explicitValue?, hnone]
  simp only [Expr.asName?, Option.bind_some, hfind, Option.map_some, Option.getD_some]
  exact (carries_ofInt (isInt_of_getElem?_values hv)).toInt

theorem nextInt_eq_min {v : Int} (h : IsInt v) : nextInt v = min greatestInt (v + 1) := by
  unfold nextInt clampInt
  unfold IsInt at h
  omega

end

/-! ### The whole enum -/

section

variable {c : Catalog} {ms : List EnumMember}

/-- The values of an enum are counted, and each value that is stated passes through a float. -/
theorem counted_stored (hc : Countable c ms) (name : String) :
    Counted stored ms (c.enumDef name ms).values where
  length := by
    have hidents := congrArg List.length (map_ident_enumCases c ms [] 0)
    simpa [EnumDef.values, enumDef] using hidents
  first := by
    intro m h hvalue
    rw [getElem?_values h, caseValue, hvalue]
    rfl
  next := by
    intro i m v h hvalue hv
    have hbefore := getElem?_values_before c name h (Nat.lt_succ_self i)
    obtain ⟨d, hd, rfl⟩ := Option.map_eq_some_iff.1 (hbefore.symm.trans hv)
    have hlast : (c.doneBefore ms (i + 1)).getLast? = some d := by
      rw [List.getLast?_eq_getElem?, length_doneBefore (List.getElem?_eq_some_iff.1 h).1.le]
      exact hd
    rw [getElem?_values h, caseValue, hvalue, ← nextInt_eq_min (isInt_of_getElem?_values hv)]
    simp [nextOf, hlast]
  literal := by
    intro i m e n h hvalue hn
    rw [getElem?_values h, caseValue_literal (hc.states i m h) hvalue hn]
  copy := by
    intro i j m m' mark v hj h hm' hvalue hv
    have hstates := hc.states i m h
    rw [hvalue] at hstates
    cases hstates with
    | member _ _ hnumber => rw [getElem?_values h, caseValue_copy hc h hj hm' hvalue hnumber hv]

end

/-- An enum with different names, each of whose members has no value, an integer literal of 64
bits with or without a minus sign, or the name of an earlier member. Its values are counted, with
each stated value rounded as a float rounds it. They are the exact ones if and only if a float
holds every integer that is written down and every value that is taken from a member. -/
theorem enumDef_values_exact_iff {c : Catalog} {ms : List EnumMember} (hc : Countable c ms)
    (name : String) :
    Counted stored ms (c.enumDef name ms).values ∧
      (Counted (fun n => n) ms (c.enumDef name ms).values ↔
        (∀ m ∈ ms, ∀ e n, m.value = some e → integerLiteral? e = some n → stored n = n) ∧
        ∀ (i j : Nat) (m m' : EnumMember) (mark : Syntax.Mark) (v : Int), j < i →
          ms[i]? = some m → ms[j]? = some m' → m.value = some (.name mark m'.name) →
          (c.enumDef name ms).values[j]? = some v → stored v = v) := by
  have hstored := counted_stored hc name
  refine ⟨hstored, fun hexact => ⟨?_, ?_⟩, fun ⟨hliteral, hcopy⟩ => ?_⟩
  · intro m hm e n hvalue hn
    obtain ⟨i, hi⟩ := List.getElem?_of_mem hm
    have hsame := (hstored.literal i m e n hi hvalue hn).symm.trans
      (hexact.literal i m e n hi hvalue hn)
    exact Option.some.inj hsame
  · intro i j m m' mark v hj hi hm' hvalue hv
    have hsame := (hstored.copy i j m m' mark v hj hi hm' hvalue hv).symm.trans
      (hexact.copy i j m m' mark v hj hi hm' hvalue hv)
    exact Option.some.inj hsame
  · refine { hstored with literal := ?_, copy := ?_ }
    · intro i m e n hi hvalue hn
      rw [hstored.literal i m e n hi hvalue hn,
        hliteral m (List.mem_of_getElem? hi) e n hvalue hn]
    · intro i j m m' mark v hj hi hm' hvalue hv
      rw [hstored.copy i j m m' mark v hj hi hm' hvalue hv,
        hcopy i j m m' mark v hj hi hm' hvalue hv]

def memberNamed (name : String) (value : Option Expr) : EnumMember :=
  { mark := default, attributes := [], name, value }

/-- `A, B = -9007199254740992, C, D = C, E = 9223372036854775807, F, G = F` -/
def wideEnum : List EnumMember :=
  [memberNamed "A" none,
    memberNamed "B" (some (.unary default .minus (.integer default 9007199254740992))),
    memberNamed "C" none,
    memberNamed "D" (some (.name default "C")),
    memberNamed "E" (some (.integer default 9223372036854775807)),
    memberNamed "F" none,
    memberNamed "G" (some (.name default "F"))]

/-- At the ends of what a float holds, beside a constant of another name. -/
theorem enumDef_values_exact_iff_wide :
    let c : Catalog := { numbers := Dict.empty.insert "K" 1.5 }
    Countable c wideEnum ∧ Counted (fun n => n) wideEnum (c.enumDef "Wide" wideEnum).values ∧
      (c.enumDef "Wide" wideEnum).values =
        [0, -9007199254740992, -9007199254740991, -9007199254740991, 9223372036854775807,
          9223372036854775807, 9223372036854775807] := by
  intro c
  have hvalues : (c.enumDef "Wide" wideEnum).values =
      [0, -9007199254740992, -9007199254740991, -9007199254740991, 9223372036854775807,
        9223372036854775807, 9223372036854775807] := by decide +kernel
  have hc : Countable c wideEnum := by
    refine ⟨by decide, by decide, fun i m h => ?_⟩
    match i, h with
    | 0, rfl | 2, rfl | 5, rfl => exact .nothing
    | 1, rfl => exact .negated _ _ (by decide)
    | 3, rfl => exact .member _ (by decide) (by decide +kernel)
    | 4, rfl => exact .integer _ (by decide)
    | 6, rfl => exact .member _ (by decide) (by decide +kernel)
  refine ⟨hc, (enumDef_values_exact_iff hc "Wide").2.2 ⟨fun m hm e n hvalue hn => ?_, ?_⟩, hvalues⟩
  · have hmem : n ∈ wideEnum.filterMap (·.value.bind integerLiteral?) :=
      List.mem_filterMap.2 ⟨m, hm, by rw [hvalue, Option.bind_some, hn]⟩
    have hall : ∀ n ∈ wideEnum.filterMap (·.value.bind integerLiteral?), stored n = n := by decide
    exact hall n hmem
  · intro i j m m' mark v _ _ _ _ hv
    have hall : ∀ v ∈ (c.enumDef "Wide" wideEnum).values, stored v = v := by
      rw [hvalues]
      decide
    exact hall v (List.mem_of_getElem? hv)

/-- The first integer that no float holds is read as the one before it. -/
theorem enumDef_values_rounded :
    let ms := [memberNamed "A" (some (.integer default 9007199254740993))]
    Countable {} ms ∧ (({} : Catalog).enumDef "E" ms).values = [9007199254740992] ∧
      ¬Counted (fun n => n) ms (({} : Catalog).enumDef "E" ms).values := by
  intro ms
  have hvalues : (({} : Catalog).enumDef "E" ms).values = [9007199254740992] := by decide +kernel
  refine ⟨⟨by decide, by decide, fun i m h => ?_⟩, hvalues, fun h => ?_⟩
  · match i, h with
    | 0, rfl => exact .integer _ (by decide)
  · have hfirst := h.literal 0 _ _ 9007199254740993 rfl rfl rfl
    rw [hvalues] at hfirst
    exact absurd hfirst (by decide)

end PanelSchema.Catalog
