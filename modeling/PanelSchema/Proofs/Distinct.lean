import Mathlib.Data.List.Induction

/-!
Lists without repetition. Equality of elements need be neither reflexive nor that of Lean:
elements are told apart by comparing them.
-/

namespace PanelSchema

variable {α β : Type} [BEq α]

/-! ### Comparing -/

instance listPartialEquivBEq [PartialEquivBEq α] : PartialEquivBEq (List α) where
  symm := by
    intro xs
    induction xs with
    | nil => intro ys h; cases ys <;> simp_all
    | cons x xs ih =>
      intro ys h
      cases ys with
      | nil => simp at h
      | cons y ys =>
        rw [List.cons_beq_cons, Bool.and_eq_true] at h ⊢
        exact ⟨PartialEquivBEq.symm h.1, ih h.2⟩
  trans := by
    intro xs
    induction xs with
    | nil => intro ys zs hxy hyz; cases ys <;> cases zs <;> simp_all
    | cons x xs ih =>
      intro ys zs hxy hyz
      cases ys with
      | nil => simp at hxy
      | cons y ys =>
        cases zs with
        | nil => simp at hyz
        | cons z zs =>
          rw [List.cons_beq_cons, Bool.and_eq_true] at hxy hyz ⊢
          exact ⟨PartialEquivBEq.trans hxy.1 hyz.1, ih hxy.2 hyz.2⟩

instance pairPartialEquivBEq [BEq β] [PartialEquivBEq α] [PartialEquivBEq β] :
    PartialEquivBEq (α × β) where
  symm := by
    intro x y h
    obtain ⟨h₁, h₂⟩ := Bool.and_eq_true_iff.1 h
    exact Bool.and_eq_true_iff.2 ⟨PartialEquivBEq.symm h₁, PartialEquivBEq.symm h₂⟩
  trans := by
    intro x y z hxy hyz
    obtain ⟨hxy₁, hxy₂⟩ := Bool.and_eq_true_iff.1 hxy
    obtain ⟨hyz₁, hyz₂⟩ := Bool.and_eq_true_iff.1 hyz
    exact Bool.and_eq_true_iff.2
      ⟨PartialEquivBEq.trans hxy₁ hyz₁, PartialEquivBEq.trans hxy₂ hyz₂⟩

/-! ### Distinct elements -/

def Distinct (xs : List α) : Prop :=
  ∀ (i j : Nat) (a b : α), xs[i]? = some a → xs[j]? = some b → (a == b) = true → i = j

theorem distinct_iff_pairwise [PartialEquivBEq α] {xs : List α} :
    Distinct xs ↔ xs.Pairwise fun a b => (a == b) = false := by
  rw [List.pairwise_iff_getElem]
  constructor
  · intro h i j hi hj hij
    rw [Bool.eq_false_iff]
    intro heq
    have hsame := h i j _ _ (List.getElem?_eq_getElem hi) (List.getElem?_eq_getElem hj) heq
    omega
  · intro h i j a b ha hb heq
    obtain ⟨hi, rfl⟩ := List.getElem?_eq_some_iff.1 ha
    obtain ⟨hj, rfl⟩ := List.getElem?_eq_some_iff.1 hb
    rcases Nat.lt_trichotomy i j with hij | hij | hij
    · rw [h i j hi hj hij] at heq
      cases heq
    · exact hij
    · rw [BEq.comm, h j i hj hi hij] at heq
      cases heq

theorem distinct_nil : Distinct ([] : List α) := by
  intro i j a b ha
  simp at ha

theorem distinct_singleton (a : α) : Distinct [a] := by
  intro i j b c hb hc
  obtain ⟨hi, -⟩ := List.getElem?_eq_some_iff.1 hb
  obtain ⟨hj, -⟩ := List.getElem?_eq_some_iff.1 hc
  simp only [List.length_singleton] at hi hj
  omega

def adding (xs : List α) (a : α) : List α :=
  if xs.contains a then xs else xs ++ [a]

theorem Distinct.adding [PartialEquivBEq α] {xs : List α} (h : Distinct xs) (a : α) :
    Distinct (adding xs a) := by
  unfold PanelSchema.adding
  split
  · exact h
  · rename_i hnew
    rw [Bool.not_eq_true, List.contains_eq_any_beq, List.any_eq_false] at hnew
    rw [distinct_iff_pairwise] at h ⊢
    rw [List.pairwise_append]
    refine ⟨h, List.pairwise_singleton _ _, fun b hb c hc => ?_⟩
    rw [List.mem_singleton.1 hc, BEq.comm]
    exact Bool.eq_false_iff.2 (hnew b hb)

theorem Distinct.foldl_adding [PartialEquivBEq α] {xs : List α} (h : Distinct xs)
    (ys : List α) : Distinct (ys.foldl PanelSchema.adding xs) := by
  induction ys generalizing xs with
  | nil => exact h
  | cons y ys ih => exact ih (h.adding y)

/-- Adding elements one by one, each unless it is there, leaves the first of equal ones. -/
theorem foldl_adding_eq_eraseDups (xs ys : List α) :
    ys.foldl adding xs.eraseDups = (xs ++ ys).eraseDups := by
  have hloop : ∀ zs bs : List α, List.eraseDupsBy.loop (· == ·) zs bs =
      zs.foldl adding bs.reverse := by
    intro zs
    induction zs with
    | nil =>
      intro bs
      rfl
    | cons z zs ih =>
      intro bs
      have hany : bs.reverse.contains z = bs.any (z == ·) := by
        rw [List.contains_eq_any_beq, List.any_reverse]
      rw [List.eraseDupsBy.loop, List.foldl_cons, adding, hany]
      cases bs.any (z == ·) with
      | true => exact ih bs
      | false =>
        rw [ih (z :: bs), List.reverse_cons]
        rfl
  have herase : ∀ zs : List α, zs.eraseDups = zs.foldl adding [] :=
    fun zs => hloop zs []
  rw [herase, herase, List.foldl_append]

theorem eraseDups_concat (xs : List α) (a : α) :
    (xs ++ [a]).eraseDups = adding xs.eraseDups a :=
  (foldl_adding_eq_eraseDups xs [a]).symm

theorem distinct_eraseDups [PartialEquivBEq α] (xs : List α) : Distinct xs.eraseDups :=
  foldl_adding_eq_eraseDups [] xs ▸ distinct_nil.foldl_adding xs

theorem nodup_eraseDups [LawfulBEq α] (xs : List α) : xs.eraseDups.Nodup :=
  (distinct_iff_pairwise.1 (distinct_eraseDups xs)).imp ne_of_beq_false

theorem eraseDups_of_nodup [LawfulBEq α] {xs : List α} (h : xs.Nodup) : xs.eraseDups = xs := by
  induction xs using List.reverseRecOn with
  | nil => rfl
  | append_singleton xs x ih =>
    rw [List.nodup_append] at h
    have hnew : xs.contains x = false := by
      simpa using fun hx => h.2.2 x hx x (by simp) rfl
    rw [eraseDups_concat, ih h.1, adding, hnew]
    rfl

/-! ### Stable sorting -/

section Sorting

variable {γ : Type}

private theorem key_trans (key : γ → Int) (a b c : γ) (hab : decide (key a ≤ key b) = true)
    (hbc : decide (key b ≤ key c) = true) : decide (key a ≤ key c) = true := by
  simp only [decide_eq_true_eq] at hab hbc ⊢
  omega

private theorem key_total (key : γ → Int) (a b : γ) :
    (decide (key a ≤ key b) || decide (key b ≤ key a)) = true := by
  simp only [Bool.or_eq_true, decide_eq_true_eq]
  omega

theorem filter_mergeSort (key : γ → Int) (xs : List γ) (k : Int) :
    (xs.mergeSort fun a b => key a ≤ key b).filter (key · == k) = xs.filter (key · == k) := by
  have hsorted : (xs.filter (key · == k)).Pairwise fun a b => decide (key a ≤ key b) = true := by
    rw [List.pairwise_iff_forall_sublist]
    intro a b hab
    have ha : key a = k := by
      simpa using (List.mem_filter.1 (hab.subset List.mem_cons_self)).2
    have hb : key b = k := by
      simpa using (List.mem_filter.1 (hab.subset (List.mem_cons_of_mem a List.mem_cons_self))).2
    simp [ha, hb]
  have hsub := (List.sublist_mergeSort (key_trans key) (key_total key) hsorted
    List.filter_sublist).filter (key · == k)
  simp only [List.filter_filter, Bool.and_self] at hsub
  symm
  apply hsub.eq_of_length
  exact ((List.mergeSort_perm xs _).filter _).length_eq.symm

/-- A list that is sorted by a key is in order of the keys, and of its own where these are
equal. -/
theorem pairwise_mergeSort_key (key : γ → Int) {R : γ → γ → Prop} {xs : List γ}
    (h : xs.Pairwise R) :
    (xs.mergeSort fun a b => key a ≤ key b).Pairwise
      fun a b => key a < key b ∨ key a = key b ∧ R a b := by
  have hsorted := List.pairwise_mergeSort (key_trans key) (key_total key) xs
  rw [List.pairwise_iff_forall_sublist] at hsorted h ⊢
  intro a b hab
  have hle := of_decide_eq_true (hsorted hab)
  rcases Int.lt_or_eq_of_le hle with hlt | heq
  · exact .inl hlt
  · refine .inr ⟨heq, h ?_⟩
    have hsub := hab.filter (key · == key b)
    rw [filter_mergeSort] at hsub
    simp only [List.filter_cons, heq, beq_self_eq_true, if_true, List.filter_nil] at hsub
    exact hsub.trans List.filter_sublist

end Sorting

end PanelSchema
