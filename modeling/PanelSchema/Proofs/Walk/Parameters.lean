import Mathlib.Data.List.Induction
import PanelSchema.Proofs.Renaming.Walk
import PanelSchema.Proofs.Walk.Equations

/-!
Parameters and their arguments. Parameters are bound one after the other, so an argument is
looked up where the parameters before it are bound already. It means what it meant to the
caller unless one of them takes a name that the argument is looked up by.
-/

namespace PanelSchema

theorem Dict.get?_set {α : Type} (d : Dict α) (key k : String) (value : Option α) :
    (d.set key value).get? k = if k = key then value else d.get? k := by
  cases value with
  | none => simp [Dict.set, Dict.get?_erase]
  | some a => simp [Dict.set, Dict.get?_insert]

namespace Walk

open Syntax (Expr)

theorem meaningOf_setMeaning (w : Walk) (name n : String) (m : LocalMeaning) :
    (w.setMeaning name m).meaningOf n = if n = name then m else w.meaningOf n := by
  unfold setMeaning meaningOf
  dsimp only
  rw [Dict.get?_set, Dict.get?_set, Dict.get?_set, Dict.get?_set]
  split <;> rfl

/-! ### Names in arguments -/

section

variable {w v : Walk}

theorem draftLocal?_of_names : ∀ {e : Expr},
    (∀ n ∈ e.names, v.meaningOf n = w.meaningOf n) → v.draftLocal? e = w.draftLocal? e
  | .name _ n, h => by
    have hn : v.drafts.get? n = w.drafts.get? n :=
      congrArg LocalMeaning.draft (h n (List.mem_singleton_self n))
    rw [draftLocal?, draftLocal?, Dict.contains, Dict.contains, hn]
  | .member _ object n, h => by
    rw [Expr.names, List.forall_mem_append] at h
    rw [draftLocal?_member, draftLocal?_member, draftLocal?_of_names h.1]
    cases hthis : object.isThis with
    | false => rfl
    | true =>
      have hn : v.drafts.get? n = w.drafts.get? n :=
        congrArg LocalMeaning.draft (h.2 n (by simp [hthis]))
      rw [Dict.contains, Dict.contains, hn]
  | .cast _ _ e, h => draftLocal?_of_names (e := e) h
  | .binary _ l _ r, h => by
    rw [Expr.names, List.forall_mem_append] at h
    rw [draftLocal?, draftLocal?, draftLocal?_of_names h.1, draftLocal?_of_names h.2]
  | .unary .., _ | .assign .., _ | .conditional .., _ | .call .., _ | .index .., _ | .new .., _
  | .typeOf .., _ | .string .., _ | .integer .., _ | .float .., _ | .bool .., _ | .list .., _
  | .null _, _ => rfl

theorem mem_names_of_draftLocal? : ∀ {e : Expr} {l : String}, w.draftLocal? e = some l →
    l ∈ e.names
  | .name _ n, l, h => by
    rw [draftLocal?] at h
    split at h
    · cases h
      exact List.mem_singleton_self _
    · cases h
  | .member _ object n, l, h => by
    rw [draftLocal?_member] at h
    rw [Expr.names, List.mem_append]
    cases hthis : object.isThis with
    | false =>
      rw [hthis] at h
      exact .inl (mem_names_of_draftLocal? h)
    | true =>
      rw [hthis, if_pos rfl] at h
      split at h
      · cases h
        exact .inr (List.mem_singleton_self _)
      · cases h
  | .cast _ _ e, l, h => mem_names_of_draftLocal? (e := e) h
  | .binary _ left _ right, l, h => by
    rw [draftLocal?] at h
    rw [Expr.names, List.mem_append]
    cases hleft : w.draftLocal? left with
    | some n =>
      rw [hleft] at h
      cases h
      exact .inl (mem_names_of_draftLocal? hleft)
    | none =>
      rw [hleft] at h
      exact .inr (mem_names_of_draftLocal? h)

theorem resolve?_of_names : ∀ {e : Expr},
    (∀ n ∈ e.names, v.meaningOf n = w.meaningOf n) →
      v.bindings.resolve? e = w.bindings.resolve? e
  | .name _ n, h => congrArg LocalMeaning.binding (h n (List.mem_singleton_self n))
  | .member _ object _, h => by
    cases object with
    | name m n =>
      exact congrArg LocalMeaning.binding (h n (List.mem_append_left _ (List.mem_singleton_self n)))
    | _ => rfl
  | .cast _ _ e, h => resolve?_of_names (e := e) h
  | .unary .., _ | .binary .., _ | .assign .., _ | .conditional .., _ | .call .., _
  | .index .., _ | .new .., _ | .typeOf .., _ | .string .., _ | .integer .., _ | .float .., _
  | .bool .., _ | .list .., _ | .null _, _ => rfl

/-- What an argument is known as depends on the names in it only. -/
theorem argumentMeaning_of_names (c : Catalog) {e : Expr}
    (h : ∀ n ∈ e.names, v.meaningOf n = w.meaningOf n) :
    v.argumentMeaning c e = w.argumentMeaning c e := by
  have hdraft : (v.draftLocal? e).bind v.drafts.get? = (w.draftLocal? e).bind w.drafts.get? := by
    rw [draftLocal?_of_names h]
    cases hl : w.draftLocal? e with
    | none => rfl
    | some l => exact congrArg LocalMeaning.draft (h l (mem_names_of_draftLocal? hl))
  have hnamed : ∀ n, e.asName? = some n → v.meaningOf n = w.meaningOf n := by
    intro n hn
    apply h n
    cases e <;> cases hn
    exact List.mem_singleton_self n
  have htoggle : e.asName?.bind v.toggles.get? = e.asName?.bind w.toggles.get? := by
    cases hn : e.asName? with
    | none => rfl
    | some n => exact congrArg LocalMeaning.toggle (hnamed n hn)
  have htext : e.asName?.bind v.strings.get? = e.asName?.bind w.strings.get? := by
    cases hn : e.asName? with
    | none => rfl
    | some n => exact congrArg LocalMeaning.string (hnamed n hn)
  unfold argumentMeaning string?
  rw [hdraft, resolve?_of_names h, htoggle, htext]

end

/-! ### Parameters -/

/-- Gives all parameters at once what their arguments mean in `w`. -/
def bindTogether (c : Catalog) (params : List (String × Expr)) (w : Walk) : Walk :=
  params.foldl (fun v p => v.setMeaning p.1 (w.argumentMeaning c p.2)) w

section

variable {c : Catalog} {w : Walk} {params : List (String × Expr)}

theorem bindTogether_concat (before : List (String × Expr)) (p : String × Expr) :
    w.bindTogether c (before ++ [p]) =
      (w.bindTogether c before).setMeaning p.1 (w.argumentMeaning c p.2) := by
  rw [bindTogether, List.foldl_append]
  rfl

/-- A name means what it meant, or what the argument of some parameter of that name does. -/
theorem meaningOf_bindTogether (n : String) :
    (w.bindTogether c params).meaningOf n = w.meaningOf n ∧ n ∉ params.map (·.1) ∨
      ∃ p ∈ params, p.1 = n ∧
        (w.bindTogether c params).meaningOf n = w.argumentMeaning c p.2 := by
  induction params using List.reverseRecOn with
  | nil => exact .inl ⟨rfl, List.not_mem_nil⟩
  | append_singleton before p ih =>
    rw [bindTogether_concat, meaningOf_setMeaning]
    by_cases hn : n = p.1
    · rw [if_pos hn]
      exact .inr ⟨p, by simp, hn.symm, rfl⟩
    · rw [if_neg hn]
      rcases ih with ⟨hsame, hnot⟩ | ⟨q, hq, hname, hmeaning⟩
      · exact .inl ⟨hsame, by simpa [hn] using hnot⟩
      · exact .inr ⟨q, List.mem_append_left _ hq, hname, hmeaning⟩

theorem meaningOf_bindParams_of_not_mem {n : String} (hn : n ∉ params.map (·.1)) (v : Walk) :
    (bindParams c params v).1.meaningOf n = v.meaningOf n := by
  induction params generalizing v with
  | nil => rfl
  | cons p params ih =>
    rw [List.map_cons, List.mem_cons, not_or] at hn
    rw [bindParams]
    dsimp only
    rw [ih hn.2, meaningOf_setMeaning, if_neg hn.1]

/-- The parameters after those in `before`, which are bound as their arguments ask. -/
theorem bindParams_after_iff (before : List (String × Expr))
    (hdistinct : (params.map (·.1)).Nodup) :
    (∀ p ∈ params, (bindParams c params (w.bindTogether c before)).1.meaningOf p.1 =
        w.argumentMeaning c p.2) ↔
      ∀ i p, params[i]? = some p →
        (w.bindTogether c (before ++ params.take i)).argumentMeaning c p.2 =
          w.argumentMeaning c p.2 := by
  induction params generalizing before with
  | nil => simp
  | cons q params ih =>
    rw [List.map_cons, List.nodup_cons] at hdistinct
    have hfirst : (bindParams c (q :: params) (w.bindTogether c before)).1.meaningOf q.1 =
        (w.bindTogether c before).argumentMeaning c q.2 := by
      rw [bindParams]
      dsimp only
      rw [meaningOf_bindParams_of_not_mem hdistinct.1, meaningOf_setMeaning, if_pos rfl]
    have hrest : (w.bindTogether c before).argumentMeaning c q.2 = w.argumentMeaning c q.2 →
        (bindParams c (q :: params) (w.bindTogether c before)).1 =
          (bindParams c params (w.bindTogether c (before ++ [q]))).1 := by
      intro hq
      rw [bindParams, bindTogether_concat, hq]
    rw [List.forall_mem_cons, hfirst]
    constructor
    · rintro ⟨hq, hothers⟩ i p hp
      cases i with
      | zero =>
        cases hp
        simpa using hq
      | succ i =>
        rw [hrest hq] at hothers
        simpa using (ih (before ++ [q]) hdistinct.2).1 hothers i p hp
    · intro h
      have hq : (w.bindTogether c before).argumentMeaning c q.2 = w.argumentMeaning c q.2 := by
        simpa using h 0 q rfl
      refine ⟨hq, ?_⟩
      rw [hrest hq]
      apply (ih (before ++ [q]) hdistinct.2).2
      intro i p hp
      simpa using h (i + 1) p hp

/-- All arguments mean what they meant to the caller exactly if each of them still does once
the parameters before it are bound. -/
theorem bindParams_iff (hdistinct : (params.map (·.1)).Nodup) :
    (∀ p ∈ params, (bindParams c params w).1.meaningOf p.1 = w.argumentMeaning c p.2) ↔
      ∀ i p, params[i]? = some p →
        (w.bindTogether c (params.take i)).argumentMeaning c p.2 = w.argumentMeaning c p.2 :=
  bindParams_after_iff [] hdistinct

theorem argumentMeaning_bindTogether {e : Expr}
    (h : ∀ q ∈ params, q.1 ∈ e.names → w.argumentMeaning c q.2 = w.meaningOf q.1) :
    (w.bindTogether c params).argumentMeaning c e = w.argumentMeaning c e := by
  apply argumentMeaning_of_names
  intro n hn
  rcases meaningOf_bindTogether n with ⟨hsame, -⟩ | ⟨q, hq, hname, hmeaning⟩
  · exact hsame
  · rw [hmeaning, h q hq (hname ▸ hn), hname]

end

/-- The body of a routine is walked where the other names mean what they meant to the caller
and each parameter means what its argument did, exactly if no argument is disturbed by the
parameters before it. None is if it names no parameter before it, or only such as keep what
they mean. -/
theorem followWithin_binds_iff {s : Setting} {rounds : Nat} {stack : List String}
    {routine : Routine} {args : List Expr} {f : Frame} {w : Walk}
    (hdistinct : (routine.params.map (·.name)).Nodup)
    (hfollowed : refuses s stack routine = false) :
    let params := (routine.params.map (·.name)).zip args
    let bound := bindParams s.catalog params w
    followWithin s (rounds + 1) stack routine args f w =
      (walkStmt s (followWithin s rounds (routine.name :: stack)) routine.body f bound.1 >>=
        fun after => pure (after.1, restore bound.2 after.2)) ∧
    (∀ n, n ∉ params.map (·.1) → bound.1.meaningOf n = w.meaningOf n) ∧
    ((∀ p ∈ params, bound.1.meaningOf p.1 = w.argumentMeaning s.catalog p.2) ↔
      ∀ i p, params[i]? = some p →
        (w.bindTogether s.catalog (params.take i)).argumentMeaning s.catalog p.2 =
          w.argumentMeaning s.catalog p.2) ∧
    ((∀ i p, params[i]? = some p → ∀ q ∈ params.take i, q.1 ∈ p.2.names →
        w.argumentMeaning s.catalog q.2 = w.meaningOf q.1) →
      ∀ p ∈ params, bound.1.meaningOf p.1 = w.argumentMeaning s.catalog p.2) := by
  intro params bound
  have hnames : (params.map (·.1)).Nodup := by
    rw [show params = (routine.params.map (·.name)).zip args from rfl, List.zip_eq_zip_take_min,
      List.map_fst_zip (by simp)]
    exact hdistinct.sublist (List.take_sublist _ _)
  refine ⟨followWithin_succ s f w rounds stack routine args hfollowed, ?_, ?_, ?_⟩
  · intro n hn
    exact meaningOf_bindParams_of_not_mem hn w
  · exact bindParams_iff hnames
  · intro h
    apply (bindParams_iff hnames).2
    intro i p hp
    exact argumentMeaning_bindTogether (h i p hp)

/-! ### Two locals as arguments -/

def holdingTwo : Walk :=
  { drafts := ⟨[("a", { identifier := "_A" }), ("b", { identifier := "_B" })]⟩ }

def twoParameters (first second : String) : Routine :=
  { name := "Pair"
    params := [{ type := "MaterialProperty", name := first },
      { type := "MaterialProperty", name := second }]
    body := .block default [] }

def twoArguments : List Expr :=
  [.name default "a", .name default "b"]

theorem followWithin_binds_iff_newNames :
    let routine := twoParameters "x" "y"
    let params := (routine.params.map (·.name)).zip twoArguments
    (routine.params.map (·.name)).Nodup ∧ refuses {} [] routine = false ∧
      ∀ p ∈ params, (bindParams {} params holdingTwo).1.meaningOf p.1 =
        holdingTwo.argumentMeaning {} p.2 := by
  intro routine params
  have hdistinct : (routine.params.map (·.name)).Nodup := by decide
  have hfollowed : refuses {} [] routine = false := by decide
  refine ⟨hdistinct, hfollowed, ?_⟩
  apply (@followWithin_binds_iff {} 0 [] routine twoArguments {} holdingTwo hdistinct
    hfollowed).2.2.2
  have heither : ∀ p ∈ params, p = ("x", .name default "a") ∨ p = ("y", .name default "b") := by
    simp [params, routine, twoParameters, twoArguments]
  intro i p hp q hq hnamed
  rcases heither p (List.mem_of_getElem? hp) with rfl | rfl <;>
    rcases heither q (List.mem_of_mem_take hq) with rfl | rfl <;>
    simp [Expr.names] at hnamed

/-- Where the parameters have the names of the locals, but exchanged, the second one is bound
to the property of the first argument. -/
theorem bindParams_disturbs_argument :
    let routine := twoParameters "b" "a"
    let params := (routine.params.map (·.name)).zip twoArguments
    (routine.params.map (·.name)).Nodup ∧ refuses {} [] routine = false ∧
      ∃ p ∈ params, (bindParams {} params holdingTwo).1.meaningOf p.1 ≠
        holdingTwo.argumentMeaning {} p.2 := by
  refine ⟨by decide, by decide, ("a", .name default "b"),
    by simp [twoParameters, twoArguments], ?_⟩
  intro hsame
  have hdraft := congrArg (fun m : LocalMeaning => m.draft.map (·.identifier)) hsame
  revert hdraft
  decide

end Walk

end PanelSchema
