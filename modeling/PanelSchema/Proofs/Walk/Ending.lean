import PanelSchema.Proofs.Walk.History

/-!
How walks end. A walk that stops has gone from point to point until it came to a task that
cannot be done. So there is one point where a walk ends, and what the walk comes to can be
read off there.
-/

namespace PanelSchema

namespace Point

def Leads (s : Setting) (c : Point) (e : Stop) : Prop :=
  ∃ c', Reaches s c c' ∧ c'.Stops s e

variable {s : Setting} {e : Stop} {c c' : Point}

theorem Stops.not_step (h : c.Stops s e) : ¬Step s c c' := by
  obtain ⟨task, rest, htasks, herror⟩ := h
  rintro ⟨task', rest', htasks', hok⟩
  rw [htasks, List.cons.injEq] at htasks'
  obtain ⟨rfl, rfl⟩ := htasks'
  rw [herror] at hok
  cases hok

theorem not_step_of_end (h : c.tasks = []) : ¬Step s c c' := by
  rintro ⟨task, rest, htasks, -⟩
  rw [h] at htasks
  cases htasks

/-- There is one way to go, so two points from which it does not go on are the same. -/
theorem Reaches.eq_of_final {d : Point} (h : Reaches s c c') (hd : Reaches s c d)
    (hfinal : ∀ x, ¬Step s c' x) (hfinal' : ∀ x, ¬Step s d x) : c' = d := by
  obtain hreaches | hreaches :=
    Relation.ReflTransGen.total_of_right_unique (step_rightUnique s) h hd
  · obtain heq | ⟨x, hstep, -⟩ := Relation.ReflTransGen.cases_head hreaches
    · exact heq
    · exact absurd hstep (hfinal x)
  · obtain heq | ⟨x, hstep, -⟩ := Relation.ReflTransGen.cases_head hreaches
    · exact heq.symm
    · exact absurd hstep (hfinal' x)

theorem Reaches.acc (h : Reaches s c c') (hfinal : ∀ x, ¬Step s c' x) :
    Acc (fun next point => Step s point next) c := by
  induction h using Relation.ReflTransGen.head_induction_on with
  | refl => exact ⟨_, fun x hstep => absurd hstep (hfinal x)⟩
  | @head a b hstep _ ih =>
    refine ⟨_, fun x hx => ?_⟩
    rw [step_rightUnique s hx hstep]
    exact ih

/-- What is known where the walk of a routine ends. -/
inductive EndsIn (s : Setting) (c : Point) : Except Stop (Frame × Walk) → Prop where
  | ok (h : c.tasks = []) : EndsIn s c (.ok (c.frame, c.walk))
  | error {stop : Stop} (h : c.Stops s stop) : EndsIn s c (.error stop)

theorem EndsIn.not_step {r : Except Stop (Frame × Walk)} (h : EndsIn s c r) : ¬Step s c c' := by
  cases h with
  | ok h => exact not_step_of_end h
  | error h => exact h.not_step

/-- The walk of a routine goes from its start to a last point, and comes to what is known
there. -/
theorem exists_endsIn (s : Setting) (entry : Routine) :
    ∃ c, Reaches s (start s entry) c ∧ EndsIn s c (walkOf s entry).result := by
  have hcomes : Comes s _ (start s entry) (walkOf s entry).result :=
    runs_stmt (follows_within s _ _) entry.body {} {} []
  generalize (walkOf s entry).result = r at hcomes
  cases hcomes with
  | ok hreaches hdone =>
    cases hdone
    exact ⟨_, hreaches, .ok rfl⟩
  | error hreaches hstops => exact ⟨_, hreaches, .error hstops⟩

theorem walkOf_result_eq_error {entry : Routine} :
    (walkOf s entry).result = .error e ↔ Leads s (start s entry) e := by
  obtain ⟨c, hreaches, hends⟩ := exists_endsIn s entry
  constructor
  · intro h
    rw [h] at hends
    cases hends with
    | error hstops => exact ⟨c, hreaches, hstops⟩
  · rintro ⟨d, hd, hstops⟩
    have heq : c = d := hreaches.eq_of_final hd (fun _ => hends.not_step) fun _ => hstops.not_step
    subst heq
    generalize (walkOf s entry).result = r at hends
    obtain ⟨task, rest, htasks, herror⟩ := hstops
    cases hends with
    | ok hend =>
      rw [hend] at htasks
      cases htasks
    | error hstops' =>
      obtain ⟨task', rest', htasks', herror'⟩ := hstops'
      rw [htasks, List.cons.injEq] at htasks'
      obtain ⟨rfl, rfl⟩ := htasks'
      rw [herror, Except.error.injEq] at herror'
      rw [herror']

theorem walkOf_result_of_end {entry : Routine} (h : Reaches s (start s entry) c)
    (hend : c.tasks = []) : (walkOf s entry).result = .ok (c.frame, c.walk) := by
  obtain ⟨d, hd, hends⟩ := exists_endsIn s entry
  have heq : d = c := hd.eq_of_final h (fun _ => hends.not_step) fun _ => not_step_of_end hend
  subst heq
  generalize (walkOf s entry).result = r at hends
  cases hends with
  | ok => rfl
  | error hstops =>
    obtain ⟨task, rest, htasks, -⟩ := hstops
    rw [hend] at htasks
    cases htasks

/-- Nothing is left to do at both points, or their first tasks lead to points that are related
again, or stop both. -/
inductive Matches (R : Point → Point → Prop) (s s' : Setting) (c c' : Point) : Prop where
  | ended (h : c.tasks = []) (h' : c'.tasks = [])
  | next {task task' : Task} {rest rest' : List Task} (h : c.tasks = task :: rest)
      (h' : c'.tasks = task' :: rest')
      (hnext : Traced.Alike R (perform s { c with tasks := rest } task)
        (perform s' { c' with tasks := rest' } task'))

section

variable {R : Point → Point → Prop} {s' : Setting}

theorem Matches.step (h : Matches R s s' c c') {d : Point} (hstep : Step s c d) :
    ∃ d', Step s' c' d' ∧ R d d' := by
  obtain ⟨task, rest, htasks, hok⟩ := hstep
  cases h with
  | ended h => simp [h] at htasks
  | next h h' hnext =>
    rw [h, List.cons.injEq] at htasks
    obtain ⟨rfl, rfl⟩ := htasks
    obtain ⟨d', hok', hd⟩ := hnext.of_ok hok
    exact ⟨d', ⟨_, _, h', hok'⟩, hd⟩

theorem Matches.stops (h : Matches R s s' c c') (hstops : c.Stops s e) : c'.Stops s' e := by
  obtain ⟨task, rest, htasks, herror⟩ := hstops
  cases h with
  | ended h => simp [h] at htasks
  | next h h' hnext =>
    rw [h, List.cons.injEq] at htasks
    obtain ⟨rfl, rfl⟩ := htasks
    exact ⟨_, _, h', hnext.of_error herror⟩

/-- Walks whose points are related at the start and stay so end alike. -/
theorem walkOf_alike {entry entry' : Routine} (hstart : R (start s entry) (start s' entry'))
    (hmatches : ∀ c c', Reaches s (start s entry) c → R c c' → Matches R s s' c c') :
    Traced.Alike (fun r r' => ∃ c c', R c c' ∧ r = (c.frame, c.walk) ∧ r' = (c'.frame, c'.walk))
      (walkOf s entry) (walkOf s' entry') := by
  have hboth : ∀ c, Reaches s (start s entry) c → ∃ c', Reaches s' (start s' entry') c' ∧ R c c' := by
    intro c hreaches
    induction hreaches with
    | refl => exact ⟨_, .refl, hstart⟩
    | tail hreaches hstep ih =>
      obtain ⟨b', hreaches', hrelated⟩ := ih
      obtain ⟨d', hstep', hnext⟩ := (hmatches _ _ hreaches hrelated).step hstep
      exact ⟨d', hreaches'.tail hstep', hnext⟩
  obtain ⟨c, hreaches, hends⟩ := exists_endsIn s entry
  obtain ⟨c', hreaches', hrelated⟩ := hboth c hreaches
  have hmatch := hmatches c c' hreaches hrelated
  unfold Traced.Alike
  generalize (walkOf s entry).result = r at hends
  cases hends with
  | ok hend =>
    cases hmatch with
    | ended _ hend' =>
      rw [walkOf_result_of_end hreaches' hend']
      exact .ok ⟨c, c', hrelated, rfl, rfl⟩
    | next h => simp [h] at hend
  | error hstops =>
    rw [walkOf_result_eq_error.2 ⟨c', hreaches', hmatch.stops hstops⟩]
    exact .error _

end

theorem walkEntry_result_eq_error {entry : Routine} :
    (Walk.walkEntry s entry {}).result = .error e ↔ Leads s (start s entry) e := by
  rw [← walkOf_result_eq_error]
  change ((walkOf s entry) >>= fun after => Walk.finishModule after.2).result = _ ↔ _
  rw [Traced.result_bind_eq_error]
  simp [(Walk.gives_finishModule _).result]

end Point

end PanelSchema
