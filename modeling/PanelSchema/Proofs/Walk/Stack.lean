import Mathlib.Data.List.Nodup
import PanelSchema.Proofs.Catalog
import PanelSchema.Proofs.Walk.Ending
import PanelSchema.Proofs.Walk.Steps

/-!
The routines being walked. A step enters a routine, leaves one or lets them be, and every
routine that is entered is left by a task that waits below its body. So what is to be done
is done, and then the routines are those that were being walked before it.
-/

namespace PanelSchema

open Syntax (Expr Stmt)

namespace Point

/-- How many routines are left while the tasks are done. -/
def leaves (ts : List Task) : Nat :=
  ts.countP Task.isLeave

theorem leaves_append (ts us : List Task) : leaves (ts ++ us) = leaves ts + leaves us :=
  List.countP_append

theorem leaves_cons (t : Task) (ts : List Task) :
    leaves (t :: ts) = leaves ts + if t.isLeave then 1 else 0 :=
  List.countP_cons

theorem leaves_eq_zero {ts : List Task} (h : ∀ t ∈ ts, t.isLeave = false) : leaves ts = 0 := by
  apply List.countP_eq_zero.2
  intro t ht
  simp [h t ht]

variable {s : Setting} {c c' : Point}

/-- The routines being walked stay the same, and none is to be left for what is new to do. -/
structure Stays (c c' : Point) : Prop where
  stack : c'.stack = c.stack
  rounds : c'.rounds = c.rounds
  tasks : ∃ ts, (∀ t ∈ ts, t.isLeave = false) ∧ c'.tasks = ts ++ c.tasks

theorem Stays.of_tasks (ts : List Task) (h : ∀ t ∈ ts, t.isLeave = false)
    (htasks : c'.tasks = ts ++ c.tasks) (hstack : c'.stack = c.stack)
    (hrounds : c'.rounds = c.rounds) : c.Stays c' :=
  ⟨hstack, hrounds, ts, h, htasks⟩

theorem Stays.of_eq (htasks : c'.tasks = c.tasks) (hstack : c'.stack = c.stack)
    (hrounds : c'.rounds = c.rounds) : c.Stays c' :=
  .of_tasks [] (by simp) htasks hstack hrounds

/-- A routine of the source is entered, and left again before what was to be done. -/
structure Enters (s : Setting) (c : Point) (routine : Routine) (c' : Point) : Prop where
  known : ∃ name, s.catalog.routine? name = some routine
  free : Walk.refuses s c.stack routine = false
  stack : c'.stack = routine.name :: c.stack
  rounds : c.rounds = c'.rounds + 1
  tasks : ∃ saved, c'.tasks = .stmt routine.body :: .leave saved :: c.tasks
  point : ∃ args, c' = c.enter s routine args

/-- What a task does to the routines being walked. -/
inductive Moves (s : Setting) (c : Point) (task : Task) (c' : Point) : Prop where
  | stay (htask : task.isLeave = false) (h : c.Stays c')
  | enter (htask : task.isLeave = false) (routine : Routine) (h : c.Enters s routine c')
  | leave (htask : task.isLeave = true) (hstack : c'.stack = c.stack.tail)
      (hrounds : c'.rounds = c.rounds + 1) (htasks : c'.tasks = c.tasks)

theorem enter_moves {routine : Routine} (hknown : ∃ name, s.catalog.routine? name = some routine)
    (args : List Expr) (c : Point) :
    c.Stays (c.enter s routine args) ∨ c.Enters s routine (c.enter s routine args) := by
  generalize hc' : c.enter s routine args = c'
  have hpoint := hc'.symm
  unfold enter at hc'
  split at hc'
  · cases hc'
    exact .inl (.of_eq rfl rfl rfl)
  · rename_i hfree
    split at hc' <;> cases hc'
    · exact .inl (.of_eq rfl rfl rfl)
    · rename_i rounds hrounds
      exact .inr ⟨hknown, by simpa using hfree, rfl, hrounds, ⟨_, rfl⟩, args, hpoint⟩

theorem perform_moves {task : Task} (h : (perform s c task).result = .ok c') :
    Moves s c task c' := by
  cases perform_does h with
  | call | text | copy | ended | resume | indent => exact .stay rfl (.of_eq rfl rfl rfl)
  | enter args hknown =>
    rcases enter_moves hknown args c with hstays | henters
    · exact .stay rfl hstays
    · exact .enter rfl _ henters
  | push ts htask hts =>
    exact .stay (Task.not_isLeave_of_isLocal htask)
      (.of_tasks ts (fun t ht => Task.not_isLeave_of_isLocal (hts t ht)) rfl rfl rfl)
  | run ts hf hts =>
    exact .stay rfl (.of_tasks ts (fun t ht => Task.not_isLeave_of_isLocal (hts t ht)) rfl rfl rfl)
  | ifThen | switch | part =>
    exact .stay rfl (.of_tasks [_, _] (by simp [Task.isLeave]) rfl rfl rfl)
  | ifElse => exact .stay rfl (.of_tasks [_, _, _, _] (by simp [Task.isLeave]) rfl rfl rfl)
  | leave => exact .leave rfl rfl rfl rfl

/-! ### Bounds -/

/-- The names that the routines being walked can have. -/
def names (s : Setting) (entry : Routine) : List String :=
  entry.name :: s.catalog.routines.entries.map (·.2.name)

theorem length_names (s : Setting) (entry : Routine) :
    (names s entry).length = s.catalog.routines.size + 1 := by
  simp [names, Dict.size]

theorem mem_names {entry routine : Routine}
    (h : ∃ name, s.catalog.routine? name = some routine) : routine.name ∈ names s entry := by
  obtain ⟨name, hname⟩ := h
  obtain ⟨key, hkey⟩ := Catalog.exists_get?_of_find? hname
  apply List.mem_cons_of_mem
  exact List.mem_map.2 ⟨(key, routine), Dict.mem_entries_of_get? hkey, rfl⟩

/-- No routine is walked inside itself, and there are as many rounds left as the routines
being walked leave over. -/
structure Bounded (s : Setting) (entry : Routine) (c : Point) : Prop where
  nodup : c.stack.Nodup
  known : c.stack ⊆ names s entry
  length_le : c.stack.length ≤ max 1 s.settings.maxInlineDepth
  length_eq : c.stack.length = leaves c.tasks + 1
  rounds : c.rounds + c.stack.length = (names s entry).length

variable {entry : Routine}

theorem bounded_start (s : Setting) (entry : Routine) : Bounded s entry (start s entry) where
  nodup := by simp [start]
  known := by simp [start, names]
  length_le := Nat.le_max_left 1 _
  length_eq := by simp [start, leaves, Task.isLeave]
  rounds := by simp [start, length_names]

theorem not_refuses {stack : List String} {routine : Routine}
    (h : Walk.refuses s stack routine = false) :
    routine.name ∉ stack ∧ stack.length < s.settings.maxInlineDepth := by
  simpa [Walk.refuses] using h

theorem Bounded.rounds_pos (hc : Bounded s entry c) {routine : Routine}
    (hknown : ∃ name, s.catalog.routine? name = some routine)
    (hfree : Walk.refuses s c.stack routine = false) : 0 < c.rounds := by
  have hnodup : (routine.name :: c.stack).Nodup :=
    List.nodup_cons.2 ⟨(not_refuses hfree).1, hc.nodup⟩
  have hsub : routine.name :: c.stack ⊆ names s entry :=
    List.cons_subset.2 ⟨mem_names hknown, hc.known⟩
  have hle := (List.subperm_of_subset hnodup hsub).length_le
  have hrounds := hc.rounds
  rw [List.length_cons] at hle
  omega

theorem Step.bounded (h : Step s c c') (hc : Bounded s entry c) : Bounded s entry c' := by
  obtain ⟨task, rest, htasks, h⟩ := h
  have hlength := hc.length_eq
  have hrounds := hc.rounds
  rw [htasks, leaves_cons] at hlength
  cases perform_moves h with
  | stay htask hstays =>
    obtain ⟨ts, hts, htasks'⟩ := hstays.tasks
    refine ⟨hstays.stack ▸ hc.nodup, hstays.stack ▸ hc.known, hstays.stack ▸ hc.length_le, ?_, ?_⟩
    · rw [hstays.stack, hlength, htasks', leaves_append, leaves_eq_zero hts, htask]
      simp
    · rw [hstays.stack, hstays.rounds]
      exact hrounds
  | enter htask routine henters =>
    obtain ⟨hnew, hdepth⟩ := not_refuses henters.free
    obtain ⟨saved, htasks'⟩ := henters.tasks
    have hfewer := henters.rounds
    dsimp only at hfewer hnew hdepth
    refine ⟨?_, ?_, ?_, ?_, ?_⟩ <;> rw [henters.stack]
    · exact List.nodup_cons.2 ⟨hnew, hc.nodup⟩
    · exact List.cons_subset.2 ⟨mem_names henters.known, hc.known⟩
    · dsimp only
      rw [List.length_cons]
      omega
    · rw [List.length_cons, hlength, htasks', leaves_cons, leaves_cons, htask]
      simp [Task.isLeave]
    · dsimp only
      rw [List.length_cons]
      omega
  | leave htask hstack hmore htasks' =>
    dsimp only at hstack hmore htasks'
    rw [htask, if_pos rfl] at hlength
    refine ⟨?_, ?_, ?_, ?_, ?_⟩ <;> rw [hstack]
    · exact hc.nodup.tail
    · exact fun n hn => hc.known (List.mem_of_mem_tail hn)
    · have hle := hc.length_le
      rw [List.length_tail]
      omega
    · rw [List.length_tail, htasks']
      omega
    · rw [List.length_tail, hmore]
      omega

theorem Reaches.bounded (h : Reaches s c c') (hc : Bounded s entry c) : Bounded s entry c' := by
  induction h with
  | refl => exact hc
  | tail _ hstep ih => exact hstep.bounded ih

/-! ### Balance -/

/-- A step while something is left to do before `rest`. -/
def StepBefore (s : Setting) (rest : List Task) (c c' : Point) : Prop :=
  Step s c c' ∧ ∃ task ts, c.tasks = task :: (ts ++ rest)

/-- The points that a walk goes through before it goes on with `rest`. -/
def ReachesBefore (s : Setting) (rest : List Task) : Point → Point → Prop :=
  Relation.ReflTransGen (StepBefore s rest)

/-- The routines being walked, once those entered since `base` are left again. -/
def Above (base : List String) (rest : List Task) (c : Point) : Prop :=
  ∃ ts entered, c.tasks = ts ++ rest ∧ c.stack = entered ++ base ∧ entered.length = leaves ts

theorem StepBefore.above {base : List String} {rest : List Task} (h : StepBefore s rest c c')
    (hc : Above base rest c) : Above base rest c' := by
  obtain ⟨⟨task, others, htasks, h⟩, task', ts, hsplit⟩ := h
  obtain ⟨ts', entered, hts', hstack, hentered⟩ := hc
  rw [htasks, List.cons.injEq] at hsplit
  obtain ⟨rfl, rfl⟩ := hsplit
  have hcons : ts' = task :: ts := by
    rw [htasks, ← List.cons_append] at hts'
    exact (List.append_cancel_right hts').symm
  rw [hcons, leaves_cons] at hentered
  cases perform_moves h with
  | stay htask hstays =>
    obtain ⟨us, hus, htasks'⟩ := hstays.tasks
    refine ⟨us ++ ts, entered, ?_, hstays.stack.trans hstack, ?_⟩
    · rw [htasks', List.append_assoc]
    · rw [hentered, leaves_append, leaves_eq_zero hus, htask]
      simp
  | enter htask routine henters =>
    obtain ⟨saved, htasks'⟩ := henters.tasks
    refine ⟨.stmt routine.body :: .leave saved :: ts, routine.name :: entered, htasks', ?_, ?_⟩
    · rw [henters.stack]
      exact congrArg (routine.name :: ·) hstack
    · rw [List.length_cons, hentered, leaves_cons, leaves_cons, htask]
      simp [Task.isLeave]
  | leave htask hleft hmore htasks' =>
    rw [htask, if_pos rfl] at hentered
    -- The task that is done leaves a routine entered since.
    obtain ⟨name, entered, rfl⟩ := List.exists_cons_of_length_eq_add_one hentered
    refine ⟨ts, entered, htasks', ?_, by simpa using hentered⟩
    dsimp only at hleft
    rw [hleft, hstack]
    rfl

theorem ReachesBefore.above {base : List String} {rest : List Task}
    (h : ReachesBefore s rest c c') (hc : Above base rest c) : Above base rest c' := by
  induction h with
  | refl => exact hc
  | tail _ hstep ih => exact hstep.above ih

theorem ReachesBefore.stack_eq {task : Task} {rest : List Task} (h : ReachesBefore s rest c c')
    (htasks : c.tasks = task :: rest) (htask : task.isLeave = false) (hdone : c'.tasks = rest) :
    c'.stack = c.stack := by
  have habove : Above c.stack rest c :=
    ⟨[task], [], htasks, rfl, by simp [leaves, htask]⟩
  obtain ⟨ts, entered, hts, hstack, hentered⟩ := h.above habove
  have hnil : ts = [] := by
    apply List.append_left_eq_self.1
    rw [← hts, hdone]
  subst hnil
  rw [hstack, List.length_eq_zero_iff.1 hentered, List.nil_append]

theorem Moves.tasks {task : Task} (h : Moves s c task c') : ∃ ts, c'.tasks = ts ++ c.tasks := by
  cases h with
  | stay htask hstays =>
    obtain ⟨ts, -, htasks⟩ := hstays.tasks
    exact ⟨ts, htasks⟩
  | enter htask routine henters =>
    obtain ⟨saved, htasks⟩ := henters.tasks
    exact ⟨[_, _], htasks⟩
  | leave htask hstack hrounds htasks => exact ⟨[], htasks⟩

/-- Where there is no endless run, what is to be done before `rest` is done, unless the walk
stops at it. -/
theorem exists_done (hacc : Acc (fun next point => Step s point next) c) {ts rest : List Task}
    (htasks : c.tasks = ts ++ rest) :
    (∃ c', ReachesBefore s rest c c' ∧ c'.tasks = rest) ∨
      ∃ c' e, ReachesBefore s rest c c' ∧ c'.Stops s e := by
  induction hacc generalizing ts with
  | intro c _ ih =>
    cases ts with
    | nil => exact .inl ⟨c, .refl, htasks⟩
    | cons task ts =>
      cases hresult : (perform s { c with tasks := ts ++ rest } task).result with
      | error e => exact .inr ⟨c, e, .refl, task, _, htasks, hresult⟩
      | ok d =>
        have hstep : Step s c d := ⟨task, _, htasks, hresult⟩
        obtain ⟨us, hus⟩ := (perform_moves hresult).tasks
        have hd : d.tasks = (us ++ ts) ++ rest := by rw [hus, List.append_assoc]
        have hbefore : StepBefore s rest c d := ⟨hstep, task, ts, htasks⟩
        rcases ih d hstep hd with ⟨c', hreaches, hdone⟩ | ⟨c', e, hreaches, hstops⟩
        · exact .inl ⟨c', .head hbefore hreaches, hdone⟩
        · exact .inr ⟨c', e, .head hbefore hreaches, hstops⟩

theorem Reaches.acc_of_acc (h : Reaches s c c')
    (hacc : Acc (fun next point => Step s point next) c) :
    Acc (fun next point => Step s point next) c' := by
  induction h with
  | refl => exact hacc
  | tail _ hstep ih => exact ih.inv hstep

/-- The walk of a routine ends. On its way no routine is walked inside itself and no more of
them than the settings allow, and a routine that may be entered always finds a round left.
Whatever is met is done, unless the walk stops at it, and leaves the routines being walked as
it finds them. -/
theorem walk_bounded_balanced (s : Setting) (entry : Routine) :
    Acc (fun next point => Step s point next) (start s entry) ∧
      (∃ c, Reaches s (start s entry) c ∧ EndsIn s c (walkOf s entry).result) ∧
      ∀ c, Reaches s (start s entry) c →
        (c.stack.Nodup ∧ c.stack.length ≤ max 1 s.settings.maxInlineDepth) ∧
        (∀ name routine, s.catalog.routine? name = some routine →
          Walk.refuses s c.stack routine = false → 0 < c.rounds) ∧
        ∀ task rest, c.tasks = task :: rest → task.isLeave = false →
          ((∃ c', ReachesBefore s rest c c' ∧ c'.tasks = rest) ∨
            ∃ c' e, ReachesBefore s rest c c' ∧ c'.Stops s e) ∧
          ∀ c', ReachesBefore s rest c c' → c'.tasks = rest → c'.stack = c.stack := by
  obtain ⟨last, hreaches, hends⟩ := exists_endsIn s entry
  have hacc := hreaches.acc fun _ => hends.not_step
  refine ⟨hacc, ⟨last, hreaches, hends⟩, fun c hc => ?_⟩
  have hbounded := Reaches.bounded hc (bounded_start s entry)
  refine ⟨⟨hbounded.nodup, hbounded.length_le⟩, ?_, ?_⟩
  · intro name routine hname hfree
    exact hbounded.rounds_pos ⟨name, hname⟩ hfree
  · intro task rest htasks htask
    refine ⟨exists_done (Reaches.acc_of_acc hc hacc) (show c.tasks = [task] ++ rest from htasks), ?_⟩
    intro c' hbefore hdone
    exact hbefore.stack_eq htasks htask hdone

end Point

end PanelSchema
