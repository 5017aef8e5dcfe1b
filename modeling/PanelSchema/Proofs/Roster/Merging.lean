import Mathlib.Data.List.DropRight
import Mathlib.Data.List.Induction
import PanelSchema.Proofs.Distinct
import PanelSchema.Proofs.Roster

/-!
What a roster holds after any calls. Every property is given by the drafts of its identifier
that were attached, each field by a rule of its own: the first that is present, any of them,
or all of them without repetition.
-/

namespace PanelSchema

/-! ### Calls -/

/-- A call that changes a roster. -/
inductive RosterCall where
  | attach (d : Draft) (v : Visibility)
  | hint (identifier text : String)

namespace RosterCall

def draft? (id : String) : RosterCall → Option Draft
  | .attach d _ => if d.identifier = id then some d else none
  | .hint .. => none

def visibility? (id : String) : RosterCall → Option Visibility
  | .attach d v => if d.identifier = id then some v else none
  | .hint .. => none

def about : RosterCall → String
  | .attach d _ => d.identifier
  | .hint identifier _ => identifier

def identifier? : RosterCall → Option String
  | .attach d _ => if d.identifier = "" then none else some d.identifier
  | .hint .. => none

/-- The hints for an identifier. One that is given alone is not empty. -/
def hints (id : String) : RosterCall → List String
  | .attach d _ => if d.identifier = id then d.hints else []
  | .hint identifier text => if identifier = id ∧ text ≠ "" then [text] else []

end RosterCall

namespace Roster

def after (r : Roster) : RosterCall → Roster
  | .attach d v => (r.attach d v).1
  | .hint id text => r.hint id text

/-- A new roster after some calls. -/
def ofCalls (policy : ConditionPolicy) (calls : List RosterCall) : Roster :=
  calls.foldl after { policy }

/-- The identifiers that were attached, in the order in which they first were. -/
def attached (calls : List RosterCall) : List String :=
  (calls.filterMap RosterCall.identifier?).eraseDups

def draftsOf (calls : List RosterCall) (id : String) : List Draft :=
  calls.filterMap (RosterCall.draft? id)

def visibilitiesOf (calls : List RosterCall) (id : String) : List Visibility :=
  calls.filterMap (RosterCall.visibility? id)

/-- The calls from the first on that attaches an identifier. -/
def sinceAttached (calls : List RosterCall) (id : String) : List RosterCall :=
  calls.dropWhile fun c => (c.draft? id).isNone

/-- The hints for an identifier since it was attached. -/
def hintsOf (calls : List RosterCall) (id : String) : List String :=
  ((sinceAttached calls id).flatMap (RosterCall.hints id)).eraseDups

/-- A range if there is one, else the first type that is known. -/
def typeOf (types : List PropertyType) : PropertyType :=
  if types.contains .range then .range else (types.find? (· != .unknown)).getD .unknown

/-- What the drafts of an identifier make of its property, but for the conditions. -/
def merged (calls : List RosterCall) (id : String) : Property :=
  let drafts := draftsOf calls id
  { identifier := id
    rawIdentifier := ((drafts.map (·.rawIdentifier)).find? (· != "")).getD ""
    name := displayKey id
    displayName := drafts.findSome? (·.displayName)
    type := typeOf (drafts.map (·.type))
    range := drafts.findSome? (·.range)
    default := drafts.findSome? (·.default)
    enumType := drafts.findSome? (·.enumType)
    enumValues := ((drafts.map (·.enumValues)).find? (· != [])).getD []
    toggle := drafts.any (·.toggle)
    indented := drafts.any (·.indented)
    hints := hintsOf calls id }

/-- The conditions that showings leave. Under the policy that defers clearing, they are
cleared in the end. -/
def collected (policy : ConditionPolicy) (vs : List Visibility) : List Condition :=
  let asking : List Visibility :=
    match policy with
    | .lastUnconditionalWins => vs.rtakeWhile fun v => !v.isAlways
    | .disjunction => vs
  (asking.flatMap (·.conditions)).eraseDups

/-- The hints a property holds. Those it was made with stay as they were, repeated or not. -/
def heldHints (calls : List RosterCall) (id : String) : List String :=
  match sinceAttached calls id with
  | [] => []
  | first :: later => (later.flatMap (RosterCall.hints id)).foldl addHint (first.hints id)

/-- What calls make of a property before the end. -/
def entry (policy : ConditionPolicy) (calls : List RosterCall) (id : String) : Property :=
  { merged calls id with
    hints := heldHints calls id
    conditions := collected policy (visibilitiesOf calls id) }

variable {policy : ConditionPolicy} {calls : List RosterCall} {id : String}

theorem ofCalls_concat (c : RosterCall) :
    ofCalls policy (calls ++ [c]) = (ofCalls policy calls).after c := by
  rw [ofCalls, List.foldl_append]
  rfl

theorem draftsOf_concat (c : RosterCall) :
    draftsOf (calls ++ [c]) id = draftsOf calls id ++ (c.draft? id).toList := by
  rw [draftsOf, List.filterMap_append]
  cases hd : c.draft? id <;> simp [draftsOf, hd]

theorem visibilitiesOf_concat (c : RosterCall) :
    visibilitiesOf (calls ++ [c]) id =
      visibilitiesOf calls id ++ (c.visibility? id).toList := by
  rw [visibilitiesOf, List.filterMap_append]
  cases hv : c.visibility? id <;> simp [visibilitiesOf, hv]

theorem attached_concat (c : RosterCall) :
    attached (calls ++ [c]) =
      match c.identifier? with
      | some id => if (attached calls).contains id then attached calls else attached calls ++ [id]
      | none => attached calls := by
  rw [attached, List.filterMap_append]
  cases hid : c.identifier? with
  | none => simp [attached, hid]
  | some id =>
    rw [List.filterMap_cons_some hid, List.filterMap_nil, eraseDups_concat]
    rfl

theorem mem_attached : id ∈ attached calls ↔ id ≠ "" ∧ draftsOf calls id ≠ [] := by
  unfold attached draftsOf
  rw [List.mem_eraseDups, List.mem_filterMap, Ne, Ne, List.filterMap_eq_nil_iff]
  constructor
  · rintro ⟨c, hc, hid⟩
    cases c with
    | hint identifier text => cases hid
    | attach d v =>
      rw [RosterCall.identifier?] at hid
      split at hid
      · cases hid
      · cases hid
        rename_i hne
        refine ⟨hne, fun h => ?_⟩
        have := h _ hc
        simp [RosterCall.draft?] at this
  · rintro ⟨hne, h⟩
    rw [Classical.not_forall] at h
    obtain ⟨c, h⟩ := h
    rw [Classical.not_imp] at h
    obtain ⟨hc, h⟩ := h
    refine ⟨c, hc, ?_⟩
    cases c with
    | hint identifier text => simp [RosterCall.draft?] at h
    | attach d v =>
      have hid : d.identifier = id := by simpa [RosterCall.draft?] using h
      simp [RosterCall.identifier?, hid, hne]

/-! ### One more call -/

theorem sinceAttached_eq_nil : sinceAttached calls id = [] ↔ draftsOf calls id = [] := by
  rw [sinceAttached, List.dropWhile_eq_nil_iff, draftsOf, List.filterMap_eq_nil_iff]
  simp

theorem visibilitiesOf_eq_nil : visibilitiesOf calls id = [] ↔ draftsOf calls id = [] := by
  rw [visibilitiesOf, List.filterMap_eq_nil_iff, draftsOf, List.filterMap_eq_nil_iff]
  refine forall₂_congr fun c _ => ?_
  cases c <;> simp [RosterCall.visibility?, RosterCall.draft?]

theorem heldHints_concat_first (hid : draftsOf calls id = []) (c : RosterCall) :
    heldHints (calls ++ [c]) id = if (c.draft? id).isNone then [] else c.hints id := by
  have hnone := sinceAttached_eq_nil.2 hid
  rw [sinceAttached] at hnone
  unfold heldHints sinceAttached
  rw [List.dropWhile_append, hnone]
  cases hc : (c.draft? id).isNone <;> simp [hc]

theorem heldHints_concat (hid : draftsOf calls id ≠ []) (c : RosterCall) :
    heldHints (calls ++ [c]) id = (c.hints id).foldl addHint (heldHints calls id) := by
  have hsome : (sinceAttached calls id).isEmpty = false := by
    simpa [sinceAttached_eq_nil] using hid
  have hsince : sinceAttached (calls ++ [c]) id = sinceAttached calls id ++ [c] := by
    rw [sinceAttached] at hsome ⊢
    rw [List.dropWhile_append, hsome]
    rfl
  unfold heldHints
  rw [hsince]
  cases hcalls : sinceAttached calls id with
  | nil => simp [hcalls] at hsome
  | cons first later => simp

theorem heldHints_eq_hintsOf (hnodup : ∀ d v, RosterCall.attach d v ∈ calls → d.hints.Nodup) :
    heldHints calls id = hintsOf calls id := by
  unfold heldHints hintsOf
  cases hcalls : sinceAttached calls id with
  | nil => rfl
  | cons first later =>
    have hfirst : first ∈ calls :=
      (List.dropWhile_sublist _).subset (List.mem_of_mem_head? (congrArg List.head? hcalls))
    have hhints : (first.hints id).Nodup := by
      cases first with
      | attach d v =>
        rw [RosterCall.hints]
        split
        · exact hnodup d v hfirst
        · exact List.nodup_nil
      | hint identifier text =>
        rw [RosterCall.hints]
        split <;> simp
    have hadd : ∀ xs ys : List String, ys.foldl addHint xs.eraseDups = (xs ++ ys).eraseDups :=
      foldl_adding_eq_eraseDups
    rw [List.flatMap_cons, ← hadd, eraseDups_of_nodup hhints]

/-- The first element other than `e`, with one more at the end. -/
theorem firstOther_concat {α : Type} [BEq α] [LawfulBEq α] (e : α) (xs : List α) (x : α) :
    ((xs ++ [x]).find? (· != e)).getD e =
      if (xs.find? (· != e)).getD e == e then x else (xs.find? (· != e)).getD e := by
  rw [List.find?_append]
  cases hfound : xs.find? (· != e) with
  | some y =>
    have hy : y ≠ e := by simpa using List.find?_some hfound
    simp [hy]
  | none => by_cases hx : x = e <;> simp [hx]

theorem typeOf_concat (types : List PropertyType) (type : PropertyType) :
    typeOf (types ++ [type]) = (typeOf types).join type := by
  have hfirst := firstOther_concat .unknown types type
  unfold typeOf PropertyType.join PropertyType.isUnknown
  rw [hfirst, List.contains_append]
  by_cases hrange : types.contains .range = true
  · rw [hrange]
    cases type <;> rfl
  · rw [Bool.not_eq_true] at hrange
    rw [hrange]
    generalize ((types.find? (· != .unknown)).getD .unknown) = old
    cases old <;> cases type <;> rfl

theorem collected_concat (vs : List Visibility) (v : Visibility) :
    collected policy (vs ++ [v]) =
      if v.isAlways then
        match policy with
        | .lastUnconditionalWins => []
        | .disjunction => collected policy vs
      else
        v.conditions.foldl (fun cs c => if cs.contains c then cs else cs ++ [c])
          (collected policy vs) := by
  cases hv : v.isAlways with
  | true =>
    have hnone : v.conditions = [] := List.isEmpty_iff.1 hv
    cases policy <;> simp [collected, hv, hnone]
  | false =>
    have hadd : ∀ xs ys : List Condition,
        ys.foldl (fun cs c => if cs.contains c then cs else cs ++ [c]) xs.eraseDups =
          (xs ++ ys).eraseDups := foldl_adding_eq_eraseDups
    cases policy <;> simp [collected, hv, hadd]

/-- What a showing under a policy does to its property before the end. -/
def showing (policy : ConditionPolicy) (v : Visibility) (p : Property) : Property :=
  if v.isAlways then
    match policy with
    | .lastUnconditionalWins => { p with conditions := [] }
    | .disjunction => p
  else
    p.showUnder v

theorem entry_attach_first {d : Draft} (hd : draftsOf calls d.identifier = []) (v : Visibility) :
    entry policy (calls ++ [.attach d v]) d.identifier = showing policy v d.toProperty := by
  have hdraft : (RosterCall.attach d v).draft? d.identifier = some d := if_pos rfl
  have hvisibility : (RosterCall.attach d v).visibility? d.identifier = some v := if_pos rfl
  have hhints : (RosterCall.attach d v).hints d.identifier = d.hints := if_pos rfl
  have hconditions : collected policy [] = [] := by cases policy <;> rfl
  have htype : typeOf [d.type] = d.type := by cases d.type <;> rfl
  have hraw := firstOther_concat "" [] d.rawIdentifier
  have hvalues := firstOther_concat [] [] d.enumValues
  unfold entry merged
  rw [heldHints_concat_first hd, hdraft, hhints, draftsOf_concat, hd, hdraft,
    visibilitiesOf_concat, visibilitiesOf_eq_nil.2 hd, hvisibility, Option.toList_some,
    Option.toList_some, collected_concat, hconditions]
  unfold showing Draft.toProperty Property.showUnder
  simp only [List.nil_append, List.map_cons, List.map_nil, htype] at hraw hvalues ⊢
  rw [hraw, hvalues]
  cases v.isAlways with
  | true => cases policy <;> simp
  | false => simp

theorem entry_attach_again {d : Draft} (hd : draftsOf calls d.identifier ≠ []) (v : Visibility) :
    entry policy (calls ++ [.attach d v]) d.identifier =
      showing policy v ((entry policy calls d.identifier).absorb d) := by
  have hdraft : (RosterCall.attach d v).draft? d.identifier = some d := if_pos rfl
  have hvisibility : (RosterCall.attach d v).visibility? d.identifier = some v := if_pos rfl
  have hhints : (RosterCall.attach d v).hints d.identifier = d.hints := if_pos rfl
  unfold entry merged
  rw [heldHints_concat hd, hhints, draftsOf_concat, hdraft, visibilitiesOf_concat, hvisibility,
    Option.toList_some, Option.toList_some, collected_concat]
  unfold showing Property.absorb Property.showUnder
  simp only [List.map_append, List.map_cons, List.map_nil, firstOther_concat, typeOf_concat,
    List.findSome?_append, List.any_append]
  cases v.isAlways with
  | true => cases policy <;> simp
  | false => simp

theorem entry_of_about_ne {c : RosterCall} (hc : c.about ≠ id) :
    entry policy (calls ++ [c]) id = entry policy calls id := by
  have hdraft : c.draft? id = none := by
    cases c with
    | attach d v => exact if_neg hc
    | hint identifier text => rfl
  have hvisibility : c.visibility? id = none := by
    cases c with
    | attach d v => exact if_neg hc
    | hint identifier text => rfl
  have hhints : c.hints id = [] := by
    cases c with
    | attach d v => exact if_neg hc
    | hint identifier text => exact if_neg fun h => hc h.1
  have hheld : heldHints (calls ++ [c]) id = heldHints calls id := by
    by_cases hid : draftsOf calls id = []
    · rw [heldHints_concat_first hid, hdraft, heldHints, sinceAttached_eq_nil.2 hid]
      rfl
    · rw [heldHints_concat hid, hhints]
      rfl
  unfold entry merged
  rw [hheld, draftsOf_concat, hdraft, visibilitiesOf_concat, hvisibility]
  simp

theorem entry_hint_self (hid : draftsOf calls id ≠ []) (text : String) :
    entry policy (calls ++ [.hint id text]) id =
      { entry policy calls id with
        hints := addGivenHint (entry policy calls id).hints text } := by
  have hheld : heldHints (calls ++ [.hint id text]) id =
      addGivenHint (heldHints calls id) text := by
    rw [heldHints_concat hid, addGivenHint]
    by_cases htext : text = "" <;> simp [RosterCall.hints, htext]
  unfold entry merged
  rw [hheld, draftsOf_concat, visibilitiesOf_concat]
  simp [RosterCall.draft?, RosterCall.visibility?]

/-! ### All properties -/

theorem policy_after (r : Roster) (c : RosterCall) : (r.after c).policy = r.policy := by
  cases c with
  | attach d v =>
    by_cases hd : d.identifier = ""
    · rw [after, attach_of_empty r hd]
    · rw [after, attach_of_ne hd, policy_showAt, policy_enter]
  | hint identifier text =>
    rw [after, hint]
    split <;> rfl

theorem policy_ofCalls : (ofCalls policy calls).policy = policy := by
  induction calls using List.reverseRecOn with
  | nil => rfl
  | append_singleton calls c ih => rw [ofCalls_concat, policy_after, ih]

theorem properties_showAt (r : Roster) (i : Nat) (v : Visibility) :
    (r.showAt i v).properties = r.properties.modify i (showing r.policy v) := by
  unfold showAt showing
  split
  · cases r.policy with
    | lastUnconditionalWins => rfl
    | disjunction =>
      have hsame := List.modify_id i r.properties
      dsimp only
      split <;> exact hsame.symm
  · rfl

theorem modify_map_of_place {ids : List String} (hdistinct : ids.Nodup) {f g : String → Property}
    {change : Property → Property} {i : Nat} (hi : ids[i]? = some id) (hself : change (f id) = g id)
    (hothers : ∀ other, other ≠ id → f other = g other) :
    (ids.map f).modify i change = ids.map g := by
  apply List.ext_getElem?
  intro j
  rw [List.getElem?_modify, List.getElem?_map, List.getElem?_map]
  by_cases hij : i = j
  · subst hij
    simp [hi, hself]
  · cases hj : ids[j]? with
    | none => rfl
    | some other =>
      have hother : other ≠ id := by
        rintro rfl
        have hlt := (List.getElem?_eq_some_iff.1 hi).1
        exact hij ((List.getElem?_inj hlt hdistinct).1 (hi.trans hj.symm))
      simp [hij, hothers other hother]

theorem getElem?_of_idxOf? {ids : List String} {i : Nat} (hi : ids.idxOf? id = some i) :
    ids[i]? = some id := by
  obtain ⟨hlt, hid, -⟩ := List.findIdx?_eq_some_iff_getElem.1 hi
  rw [List.getElem?_eq_getElem hlt, LawfulBEq.eq_of_beq hid]

/-- Every property is what its identifier's calls make of it, and they stand in the order in
which the identifiers were first attached. -/
def Collects (policy : ConditionPolicy) (calls : List RosterCall) (r : Roster) : Prop :=
  r.properties = (attached calls).map (entry policy calls)

theorem Collects.index?_eq {r : Roster} (h : r.Collects policy calls) (id : String) :
    r.index? id = (attached calls).idxOf? id := by
  rw [index?, h, List.findIdx?_map, List.idxOf?]
  rfl

/-- A call that no identifier listed so far is about changes no property. -/
theorem Collects.of_unlisted {r : Roster} {c : RosterCall} (h : r.Collects policy calls)
    (hattached : attached (calls ++ [c]) = attached calls) (hc : c.about ∉ attached calls) :
    r.Collects policy (calls ++ [c]) := by
  rw [Collects, hattached]
  refine h.trans (List.map_congr_left fun other hother => (entry_of_about_ne ?_).symm)
  rintro rfl
  exact hc hother

theorem Collects.hint {r : Roster} (h : r.Collects policy calls) (id text : String) :
    (r.hint id text).Collects policy (calls ++ [.hint id text]) := by
  have hattached : attached (calls ++ [.hint id text]) = attached calls := attached_concat _
  rw [Roster.hint, h.index?_eq]
  cases hi : (attached calls).idxOf? id with
  | some i =>
    have hplace := getElem?_of_idxOf? hi
    have hid := (mem_attached.1 (List.mem_of_getElem? hplace)).2
    dsimp only [update]
    rw [Collects, hattached, h]
    exact modify_map_of_place (nodup_eraseDups _) hplace (entry_hint_self hid text).symm
      fun other hother => (entry_of_about_ne (Ne.symm hother)).symm
  | none =>
    rw [List.idxOf?_eq_none_iff] at hi
    exact h.of_unlisted hattached hi

theorem Collects.attach_named {r : Roster} (h : r.Collects policy calls)
    (hpolicy : r.policy = policy) {d : Draft} (hd : d.identifier ≠ "") (v : Visibility) :
    (r.attach d v).1.Collects policy (calls ++ [.attach d v]) := by
  have hself : (RosterCall.attach d v).identifier? = some d.identifier := if_neg hd
  have hothers : ∀ other, other ≠ d.identifier →
      entry policy calls other = entry policy (calls ++ [.attach d v]) other :=
    fun other hother => (entry_of_about_ne (Ne.symm hother)).symm
  rw [Collects, attach_of_ne hd, properties_showAt, policy_enter, hpolicy, enter, h.index?_eq,
    attached_concat, hself]
  cases hi : (attached calls).idxOf? d.identifier with
  | some i =>
    have hplace := getElem?_of_idxOf? hi
    have hmem := List.mem_of_getElem? hplace
    dsimp only [update]
    rw [if_pos (List.contains_iff_mem.2 hmem), h, List.modify_modify_eq]
    exact modify_map_of_place (nodup_eraseDups _) hplace
      (entry_attach_again (mem_attached.1 hmem).2 v).symm hothers
  | none =>
    rw [List.idxOf?_eq_none_iff] at hi
    have hfirst : draftsOf calls d.identifier = [] := by
      by_contra hne
      exact hi (mem_attached.2 ⟨hd, hne⟩)
    have hlast : ∀ (ps : List Property) (p : Property) (f : Property → Property),
        (ps ++ [p]).modify ps.length f = ps ++ [f p] :=
      fun ps p f => List.modifyTailIdx_add (List.modifyHead f) 0 ps [p]
    dsimp only
    rw [if_neg (mt List.contains_iff_mem.1 hi), List.map_append, List.map_singleton,
      entry_attach_first hfirst, hlast, h]
    congr 1
    exact List.map_congr_left fun other hother =>
      hothers other (ne_of_mem_of_not_mem hother hi)

theorem collects_ofCalls : (ofCalls policy calls).Collects policy calls := by
  induction calls using List.reverseRecOn with
  | nil => rfl
  | append_singleton calls c ih =>
    rw [ofCalls_concat]
    cases c with
    | hint id text => exact ih.hint id text
    | attach d v =>
      by_cases hd : d.identifier = ""
      · rw [after, attach_of_empty _ hd]
        refine ih.of_unlisted ?_ fun hmem => (mem_attached.1 hmem).1 hd
        rw [attached_concat, RosterCall.identifier?, if_pos hd]
      · exact ih.attach_named policy_ofCalls hd v

theorem properties_ofCalls :
    (ofCalls policy calls).properties = (attached calls).map (entry policy calls) :=
  collects_ofCalls

theorem attached_prefix (before later : List RosterCall) :
    attached before <+: attached (before ++ later) := by
  induction later using List.reverseRecOn with
  | nil => exact (List.append_nil before).symm ▸ List.prefix_refl _
  | append_singleton later c ih =>
    refine ih.trans ?_
    rw [← List.append_assoc, attached_concat]
    split
    · split
      · exact List.prefix_refl _
      · exact List.prefix_append _ _
    · exact List.prefix_refl _

theorem idxOf?_attached {d : Draft} (hd : d.identifier ≠ "") (v : Visibility) :
    (attached (calls ++ [.attach d v])).idxOf? d.identifier =
      some ((ofCalls policy calls).enter d).2 := by
  have hself : (RosterCall.attach d v).identifier? = some d.identifier := if_neg hd
  rw [attached_concat, hself, enter, collects_ofCalls.index?_eq]
  cases hi : (attached calls).idxOf? d.identifier with
  | some i =>
    have hmem := List.mem_of_getElem? (getElem?_of_idxOf? hi)
    dsimp only
    rw [if_pos (List.contains_iff_mem.2 hmem), hi]
  | none =>
    have hnew := List.idxOf?_eq_none_iff.1 hi
    dsimp only
    rw [if_neg (mt List.contains_iff_mem.1 hnew), List.idxOf?, List.findIdx?_append,
      properties_ofCalls, List.length_map]
    rw [List.idxOf?] at hi
    rw [hi]
    simp

/-- Attaching gives the place at which the identifier stands ever after. -/
theorem attach_place (before later : List RosterCall) (d : Draft) (v : Visibility) :
    ((ofCalls policy before).attach d v).2 =
      (attached (before ++ .attach d v :: later)).idxOf? d.identifier := by
  by_cases hd : d.identifier = ""
  · have hnone : "" ∉ attached (before ++ .attach d v :: later) := fun h => (mem_attached.1 h).1 rfl
    rw [attach_of_empty _ hd, hd, List.idxOf?_eq_none_iff.2 hnone]
  · have hplace : _ = some ((ofCalls policy before).enter d).2 := idxOf?_attached hd v
    obtain ⟨rest, hrest⟩ := attached_prefix (before ++ [.attach d v]) later
    rw [attach_of_ne hd, List.append_cons, ← hrest, List.idxOf?, List.findIdx?_append]
    rw [List.idxOf?] at hplace
    rw [hplace]
    rfl

/-- What a property is but for its conditions. -/
def withoutConditions (p : Property) : Property :=
  { p with conditions := [] }

theorem finish_withoutConditions (r : Roster) :
    r.finish.map withoutConditions = r.properties.map withoutConditions := by
  unfold finish
  apply List.ext_getElem?
  intro i
  simp only [List.getElem?_map, List.getElem?_mapIdx, Option.map_map]
  congr 1
  funext p
  dsimp only [Function.comp]
  split <;> rfl

/-- Calls on a new roster, in any order and for any identifiers: there is one property for each
identifier that was attached, each field of it follows the drafts by its own rule, and its
place is given back whenever it is attached. -/
theorem ofCalls_merges (policy : ConditionPolicy) (calls : List RosterCall)
    (hnodup : ∀ d v, RosterCall.attach d v ∈ calls → d.hints.Nodup) :
    (ofCalls policy calls).properties.map withoutConditions =
        (attached calls).map (merged calls) ∧
      (ofCalls policy calls).finish.map withoutConditions =
        (attached calls).map (merged calls) ∧
      ∀ before d v later, calls = before ++ .attach d v :: later →
        ((ofCalls policy before).attach d v).2 = (attached calls).idxOf? d.identifier := by
  have hfields : (ofCalls policy calls).properties.map withoutConditions =
      (attached calls).map (merged calls) := by
    rw [properties_ofCalls, List.map_map]
    refine List.map_congr_left fun id _ => ?_
    dsimp only [Function.comp]
    unfold withoutConditions entry
    rw [heldHints_eq_hintsOf hnodup]
    rfl
  refine ⟨hfields, finish_withoutConditions _ ▸ hfields, ?_⟩
  rintro before d v later rfl
  exact attach_place before later d v

/-- Two identifiers in turn, with hints before, between and without text. -/
def mixedCalls : List RosterCall :=
  [.hint "_Grid" "early",
    .attach { identifier := "_Grid", type := .float, hints := ["a"] } .always,
    .attach { identifier := "_Blend", type := .toggle, toggle := true } .always,
    .attach
      { identifier := "_Grid", displayName := some "Grid", type := .range, hints := ["b", "a"] }
      (.single "_Blend" (.bool true)),
    .hint "_Grid" "", .hint "_Grid" "c"]

theorem ofCalls_merges_mixedCalls :
    ((ofCalls .disjunction mixedCalls).finish.map withoutConditions).map
        (fun p => (p.identifier, p.displayName, p.type, p.toggle, p.hints)) =
      [("_Grid", some "Grid", .range, false, ["a", "b", "c"]),
        ("_Blend", none, .toggle, true, [])] := by
  have hnodup : ∀ d v, RosterCall.attach d v ∈ mixedCalls → d.hints.Nodup := by
    intro d v h
    simp only [mixedCalls, List.mem_cons, RosterCall.attach.injEq, reduceCtorEq, List.not_mem_nil,
      false_or, or_false] at h
    rcases h with ⟨rfl, -⟩ | ⟨rfl, -⟩ | ⟨rfl, -⟩ <;> decide
  rw [(ofCalls_merges .disjunction mixedCalls hnodup).2.1]
  decide

end Roster

end PanelSchema
