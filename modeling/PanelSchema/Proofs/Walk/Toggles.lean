import PanelSchema.Proofs.Extract
import PanelSchema.Proofs.Walk.Parameters
import PanelSchema.Proofs.Walk.Return
import PanelSchema.Proofs.Walk.Stack

/-!
The locals that open a section. They are forgotten when a module starts, so that what they
open is a section of the current module, with one exception: a routine that is left gives its
parameters back what they meant where it was called, also if another module started since.
-/

namespace PanelSchema

open Syntax (Expr Stmt Decl SourceTree)

theorem Layout.isSome_handle? {l : Layout} {name : String} :
    (l.handle? name).isSome = true ↔ name ∈ l.outline.map (·.1) := by
  constructor
  · intro h
    obtain ⟨handle, hhandle⟩ := Option.isSome_iff_exists.1 h
    obtain ⟨hlt, hname, -⟩ := List.findIdx?_eq_some_iff_getElem.1 hhandle
    rw [← eq_of_beq hname, outline, List.map_map]
    exact List.mem_map_of_mem (List.getElem_mem hlt)
  · intro h
    rw [Option.isSome_iff_ne_none]
    exact fun hnone => not_mem_names_of_handle? hnone h

theorem Layout.mem_names_visit {l : Layout} {n name : String} {label parent : Option String}
    {order : Option Int} :
    n ∈ (l.visit name label parent order).1.outline.map (·.1) ↔
      n ∈ l.outline.map (·.1) ∨ n = name := by
  obtain ⟨hmem, heq⟩ | ⟨-, heq⟩ := outline_visit l name label parent order
  · rw [heq]
    constructor
    · exact .inl
    · rintro (hn | rfl)
      · exact hn
      · exact hmem
  · rw [heq, List.map_append, List.mem_append, List.map_singleton, List.mem_singleton]

namespace Walk

def Opens (w : Walk) (name : String) : Prop :=
  ∃ l, w.toggles.get? l = some name

def HasSection (w : Walk) (name : String) : Prop :=
  ∃ m, w.current = some m ∧ (m.layout.handle? name).isSome = true

variable {w : Walk} {name : String}

theorem Opens.of_toggles {w' : Walk} (h : w'.Opens name) (htoggles : w'.toggles = w.toggles) :
    w.Opens name := by
  obtain ⟨l, hl⟩ := h
  exact ⟨l, htoggles ▸ hl⟩

theorem not_opens_of_empty (h : w.toggles = {}) : ¬w.Opens name := by
  rintro ⟨l, hl⟩
  rw [h] at hl
  cases hl

theorem Opens.of_insert {w' : Walk} (h : w'.Opens name) {l opened : String}
    (htoggles : w'.toggles = w.toggles.insert l opened) : w.Opens name ∨ name = opened := by
  obtain ⟨l', hl'⟩ := h
  rw [htoggles, Dict.get?_insert] at hl'
  split at hl'
  · exact .inr (Option.some_inj.1 hl').symm
  · exact .inl ⟨l', hl'⟩

/-! ### Parameters -/

theorem Opens.of_setMeaning {n : String} {m : LocalMeaning} (h : (w.setMeaning n m).Opens name) :
    w.Opens name ∨ m.toggle = some name := by
  obtain ⟨l, hl⟩ := h
  rw [setMeaning, Dict.get?_set] at hl
  split at hl
  · exact .inr hl
  · exact .inl ⟨l, hl⟩

theorem opens_of_argumentMeaning {c : Catalog} {arg : Expr}
    (h : (w.argumentMeaning c arg).toggle = some name) : w.Opens name := by
  obtain ⟨l, -, hl⟩ := Option.bind_eq_some_iff.1 h
  exact ⟨l, hl⟩

theorem Opens.of_bound {c : Catalog} {n : String} {arg : Expr}
    (h : (w.setMeaning n (w.argumentMeaning c arg)).Opens name) : w.Opens name :=
  h.of_setMeaning.elim id opens_of_argumentMeaning

theorem Opens.of_bindParams {c : Catalog} {params : List (String × Expr)}
    (h : (bindParams c params w).1.Opens name) : w.Opens name := by
  induction params generalizing w with
  | nil => exact h
  | cons p params ih => exact (ih h).of_bound

theorem opens_of_saved {c : Catalog} {params : List (String × Expr)}
    {p : String × LocalMeaning} (hp : p ∈ (bindParams c params w).2)
    (h : p.2.toggle = some name) : w.Opens name := by
  induction params generalizing w with
  | nil => cases hp
  | cons q params ih =>
    rcases List.mem_cons.1 hp with rfl | hp
    · exact ⟨_, h⟩
    · exact (ih hp).of_bound

theorem Opens.of_restore {saved : List (String × LocalMeaning)}
    (h : (restore saved w).Opens name) :
    w.Opens name ∨ ∃ p ∈ saved, p.2.toggle = some name := by
  induction saved generalizing w with
  | nil => exact .inl h
  | cons q saved ih =>
    rcases ih h with hrest | ⟨p, hp, hname⟩
    · rcases hrest.of_setMeaning with hw | hq
      · exact .inl hw
      · exact .inr ⟨q, List.mem_cons_self, hq⟩
    · exact .inr ⟨p, List.mem_cons_of_mem q hp, hname⟩

/-! ### Calls -/

theorem toggles_started (s : Setting) (n : String) (keywords : List String) (target : Target)
    (w : Walk) : (w.started s n keywords target).toggles = {} := by
  unfold started
  split <;> rfl

theorem toggles_drawn (s : Setting) (method : String) (type : PropertyType)
    (typeArgs : List String) (args : List Expr) (f : Frame) (target : Target) (w : Walk) :
    (w.drawn s method type typeArgs args f target).toggles = w.toggles := by
  unfold drawn
  split
  · rfl
  · unfold keptAs shown
    dsimp only
    split
    · split <;> rfl
    · rfl

theorem toggles_hint (s : Setting) (args : List Expr) (w : Walk) :
    (w.hint s args).toggles = w.toggles := by
  unfold hint
  split
  · rfl
  · dsimp only
    split <;> rfl

theorem opens_sectioned {s : Setting} {args : List Expr} {f : Frame} {target : Target}
    (h : (w.sectioned s args f target).Opens name) :
    w.Opens name ∨ (w.sectioned s args f target).HasSection name := by
  unfold sectioned at h ⊢
  split at h
  · rename_i m n hm hn
    dsimp only at h ⊢
    cases htarget : target.name? with
    | none =>
      rw [htarget] at h
      exact .inl h
    | some l =>
      rw [htarget] at h
      rcases h.of_insert (w := w) rfl with hw | rfl
      · exact .inl hw
      · refine .inr ⟨_, rfl, ?_⟩
        exact Layout.isSome_handle?.2 (Layout.mem_names_visit.2 (.inr rfl))
  · exact .inl h

theorem opens_shaped {s : Setting} {shape : CallShape} {method : String}
    {typeArgs : List String} {args : List Expr} {f : Frame} {target : Target}
    (h : (w.shaped s shape method typeArgs args f target).2.Opens name) :
    w.Opens name ∨ (w.shaped s shape method typeArgs args f target).2.HasSection name := by
  unfold shaped at h ⊢
  cases shape with
  | propertyLookup =>
    dsimp only at h
    cases htarget : target.name? with
    | none =>
      rw [htarget] at h
      exact .inl h
    | some l =>
      rw [htarget] at h
      exact .inl (h.of_toggles rfl)
  | effect =>
    dsimp only [effected] at h
    split at h
    · exact .inl h
    · exact absurd h (not_opens_of_empty (toggles_started _ _ _ _ _))
  | subEffect => exact opens_sectioned h
  | bind type => exact .inl (h.of_toggles (toggles_drawn _ _ _ _ _ _ _ _))
  | hint => exact .inl (h.of_toggles (toggles_hint _ _ _))
  | indent | unindent | unrecognized => exact .inl h

theorem opens_aliasLocal {source l : String} (h : (w.aliasLocal source l).Opens name) :
    w.Opens name := by
  cases hsource : w.toggles.get? source with
  | none => exact h.of_toggles (by simp [aliasLocal, hsource])
  | some n =>
    have htoggles : (w.aliasLocal source l).toggles = w.toggles.insert l n := by
      simp [aliasLocal, hsource]
    rcases h.of_insert htoggles with hw | rfl
    · exact hw
    · exact ⟨source, hsource⟩

end Walk

namespace Point

variable {s : Setting} {c c' : Point} {name : String}

/-! ### Steps -/

theorem opens_enter {routine : Routine} {args : List Expr}
    (h : (c.enter s routine args).walk.Opens name) : c.walk.Opens name := by
  unfold enter at h
  split at h
  · exact h
  · split at h
    · exact h
    · exact h.of_bindParams

/-- What a local opens was opened by one before, is a section that the step made, or is given
back where a routine is left. -/
theorem Step.opens (h : Step s c c') (hopens : c'.walk.Opens name) :
    c.walk.Opens name ∨ c'.walk.HasSection name ∨
      ∃ saved rest, c.tasks = .leave saved :: rest ∧ c'.walk = c.walk.restore saved := by
  cases hcall : c.call? with
  | some call =>
    rw [(h.of_call hcall).2.2] at hopens ⊢
    rcases Walk.opens_shaped hopens with hc | hnew
    · exact .inl hc
    · exact .inr (.inl hnew)
  | none =>
    obtain ⟨task, rest, htasks, hdoes⟩ := h.does
    cases hdoes with
    | call hof => simp [call?_of_tasks htasks, hof] at hcall
    | copy => exact .inl (Walk.opens_aliasLocal hopens)
    | enter => exact .inl (opens_enter (c := { c with tasks := rest }) hopens)
    | leave => exact .inr (.inr ⟨_, rest, htasks, rfl⟩)
    | _ => exact .inl hopens

theorem Step.not_opens (h : Step s c c') (hstarts : c.Starts s) : ¬c'.walk.Opens name := by
  obtain ⟨call, hcall, hshape, htexts⟩ := hstarts
  rw [(h.of_call hcall).2.2]
  unfold after Walk.shaped
  rw [hshape]
  dsimp only [Walk.effected]
  split
  · rename_i hnone
    exact absurd (List.reverse_eq_nil_iff.1 hnone) htexts
  · exact Walk.not_opens_of_empty (Walk.toggles_started _ _ _ _ _)

theorem Touch.names {m m' : ModuleDraft} (h : Touch s c m m') :
    m.layout.outline.map (·.1) ⊆ m'.layout.outline.map (·.1) := by
  cases h with
  | declared label order h =>
    exact fun n hn => Layout.mem_names_visit.2 (.inl hn)
  | shown h =>
    rw [ModuleDraft.outline_shown]
    exact List.Subset.refl _
  | hinted id hints h => exact List.Subset.refl _

theorem Step.hasSection (h : Step s c c') (hsame : c'.walk.generation = c.walk.generation)
    (hc : c.walk.HasSection name) : c'.walk.HasSection name := by
  obtain ⟨m, hm, hname⟩ := hc
  cases h.change with
  | keep hkeep hact => exact ⟨m, hkeep.current.trans hm, hname⟩
  | start n keywords hact hmodules hcurrent hgeneration => omega
  | @touch m₁ m₂ htouch hm₁ hm₂ hmodules hgeneration =>
    rw [hm, Option.some_inj] at hm₁
    subst hm₁
    refine ⟨m₂, hm₂, ?_⟩
    rw [Layout.isSome_handle?] at hname ⊢
    exact htouch.names hname

theorem Reaches.hasSection (h : Reaches s c c')
    (hsame : c'.walk.generation = c.walk.generation) (hc : c.walk.HasSection name) :
    c'.walk.HasSection name := by
  induction h with
  | refl => exact hc
  | @tail d d' hreaches hstep ih =>
    have hle := Reaches.generation_le hreaches
    have hle' := hstep.generation_le
    exact hstep.hasSection (by omega) (ih (by omega))

theorem Reaches.exists_current (h : Reaches s c c')
    (hlt : c.walk.generation < c'.walk.generation) : ∃ m, c'.walk.current = some m := by
  induction h with
  | refl => omega
  | @tail d d' hreaches hstep ih =>
    cases hstep.change with
    | keep hkeep hact =>
      rw [hkeep.generation] at hlt
      rw [hkeep.current]
      exact ih hlt
    | start n keywords hact hmodules hcurrent hgeneration => exact ⟨_, hcurrent⟩
    | touch htouch hm hm' hmodules hgeneration => exact ⟨_, hm'⟩

/-! ### Routines -/

/-- At `c` a routine is entered, to be left again before `rest`, and at `d` it is not left
yet. -/
def Inside (s : Setting) (c : Point) (saved : List (String × Walk.LocalMeaning))
    (rest : List Task) (d : Point) : Prop :=
  ∃ task routine args, c.tasks = task :: rest ∧
    let entered := enter s routine args { c with tasks := rest }
    Step s c entered ∧ entered.tasks = .stmt routine.body :: .leave saved :: rest ∧
      ReachesBefore s (.leave saved :: rest) entered d

theorem enter_cases (routine : Routine) (args : List Expr) (c : Point) :
    c.enter s routine args = c ∨
      (c.enter s routine args).tasks = .stmt routine.body ::
        .leave (Walk.bindParams s.catalog ((routine.params.map (·.name)).zip args) c.walk).2 ::
          c.tasks := by
  unfold enter
  split
  · exact .inl rfl
  · split
    · exact .inl rfl
    · exact .inr rfl

theorem ReachesBefore.reaches {rest : List Task} (h : ReachesBefore s rest c c') :
    Reaches s c c' := by
  induction h with
  | refl => exact .refl
  | tail _ hstep ih => exact ih.tail hstep.1

theorem Inside.reaches {saved : List (String × Walk.LocalMeaning)} {rest : List Task}
    (h : Inside s c saved rest c') : Reaches s c c' := by
  obtain ⟨task, routine, args, htasks, hstep, hentered, hbefore⟩ := h
  exact Relation.ReflTransGen.head hstep hbefore.reaches

/-- What is given back is what the names meant where the routine was entered. -/
theorem Inside.opens {saved : List (String × Walk.LocalMeaning)} {rest : List Task}
    (h : Inside s c saved rest c') {p : String × Walk.LocalMeaning} (hp : p ∈ saved)
    (hname : p.2.toggle = some name) : c.walk.Opens name := by
  obtain ⟨task, routine, args, htasks, hstep, hentered, hbefore⟩ := h
  rcases enter_cases (s := s) routine args { c with tasks := rest } with heq | heq
  · have hlength := congrArg List.length hentered
    simp only [heq, List.length_cons] at hlength
    omega
  · rw [hentered] at heq
    cases heq
    exact Walk.opens_of_saved hp hname

theorem Inside.step {saved : List (String × Walk.LocalMeaning)} {rest : List Task} {d d' : Point}
    (h : Inside s c saved rest d) (hstep : Step s d d') {task : Task} {ts : List Task}
    (hd : d.tasks = task :: (ts ++ .leave saved :: rest)) : Inside s c saved rest d' := by
  obtain ⟨task', routine, args, htasks, hentry, hentered, hbefore⟩ := h
  exact ⟨task', routine, args, htasks, hentry, hentered, hbefore.tail ⟨hstep, task, ts, hd⟩⟩

/-- A routine entered at `c` is left at `d`, after another module started. A local comes to
open a section again that the module then current does not have. -/
structure GivesBack (s : Setting) (c : Point) (saved : List (String × Walk.LocalMeaning))
    (name : String) (d : Point) : Prop where
  leaves : ∃ rest, Inside s c saved rest d ∧ d.tasks = .leave saved :: rest
  started : c.walk.generation < d.walk.generation
  closed : ¬d.walk.Opens name
  opened : (d.walk.restore saved).Opens name
  missing : ¬d.walk.HasSection name

/-- A section of that name was given back since the current module started. -/
def GivenBack (s : Setting) (origin p : Point) (name : String) : Prop :=
  ∃ c saved d, Reaches s origin c ∧ GivesBack s c saved name d ∧ Reaches s d p ∧
    d.walk.generation = p.walk.generation

/-- What locals open is in the current module, or was given back since it started. -/
def Explained (s : Setting) (origin p : Point) : Prop :=
  ∀ name, p.walk.Opens name → p.walk.HasSection name ∨ GivenBack s origin p name

/-- Every routine that is to be left was entered on the way. -/
def Pending (s : Setting) (origin p : Point) : Prop :=
  ∀ ts saved rest, p.tasks = ts ++ .leave saved :: rest →
    ∃ c, Reaches s origin c ∧ Explained s origin c ∧ Inside s c saved rest p

variable {origin p p' : Point}

theorem Reaches.explains (h : Reaches s p p')
    (hsame : p'.walk.generation = p.walk.generation)
    (hp : p.walk.HasSection name ∨ GivenBack s origin p name) :
    p'.walk.HasSection name ∨ GivenBack s origin p' name := by
  rcases hp with hp | ⟨c, saved, d, hc, hback, hd, hgeneration⟩
  · exact .inl (h.hasSection hsame hp)
  · exact .inr ⟨c, saved, d, hc, hback, hd.trans h, hgeneration.trans hsame.symm⟩

theorem Step.explained (h : Step s p p') (hp : Explained s origin p)
    (hpending : Pending s origin p) : Explained s origin p' := by
  intro name hopens
  have hsame : p'.walk.generation = p.walk.generation := by
    by_contra hother
    by_cases hstarts : p.Starts s
    · exact h.not_opens hstarts hopens
    · exact hother (h.generation_of_not_starts hstarts)
  have hreaches : Reaches s p p' := .single h
  rcases h.opens hopens with hopen | hnew | ⟨saved, rest, htasks, hwalk⟩
  · exact hreaches.explains hsame (hp name hopen)
  · exact .inl hnew
  · obtain ⟨c, hc, hexplained, hinside⟩ := hpending [] saved rest htasks
    by_cases hopen : p.walk.Opens name
    · exact hreaches.explains hsame (hp name hopen)
    · rw [hwalk] at hopens
      obtain ⟨q, hq, hname⟩ := hopens.of_restore.resolve_left hopen
      have hbefore := hexplained name (hinside.opens hq hname)
      have hle := Reaches.generation_le hinside.reaches
      rcases Nat.eq_or_lt_of_le hle with heq | hlt
      · exact Reaches.explains (hinside.reaches.tail h) (hsame.trans heq.symm) hbefore
      · by_cases hsection : p.walk.HasSection name
        · exact .inl (h.hasSection hsame hsection)
        · have hback : GivesBack s c saved name p :=
            ⟨⟨rest, hinside, htasks⟩, hlt, hopen, hopens, hsection⟩
          exact .inr ⟨c, saved, p, hc, hback, hreaches, hsame.symm⟩

/-- The routines to be left after a step were to be left before it, or are entered by it. -/
theorem Step.pending (h : Step s p p') (horigin : Reaches s origin p)
    (hp : Explained s origin p) (hpending : Pending s origin p) : Pending s origin p' := by
  obtain ⟨task, others, htasks, hperform⟩ := h
  have hstep : Step s p p' := ⟨task, others, htasks, hperform⟩
  have hold : ∀ ts saved rest, others = ts ++ .leave saved :: rest →
      ∃ c, Reaches s origin c ∧ Explained s origin c ∧ Inside s c saved rest p' := by
    intro ts saved rest hothers
    rw [hothers] at htasks
    obtain ⟨c, hc, hexplained, hinside⟩ := hpending (task :: ts) saved rest htasks
    exact ⟨c, hc, hexplained, hinside.step hstep htasks⟩
  intro ts saved rest hts
  cases perform_moves hperform with
  | stay htask hstays =>
    obtain ⟨us, hus, htasks'⟩ := hstays.tasks
    rw [hts] at htasks'
    rcases List.append_eq_append_iff.1 htasks' with ⟨vs, rfl, hvs⟩ | ⟨vs, rfl, hvs⟩
    · cases vs with
      | nil => exact hold [] saved rest hvs.symm
      | cons v vs =>
        cases hvs
        cases hus _ (List.mem_append_right _ List.mem_cons_self)
    · exact hold vs saved rest hvs
  | enter htask routine henters =>
    obtain ⟨saved', htasks'⟩ := henters.tasks
    obtain ⟨args, rfl⟩ := henters.point
    rw [hts] at htasks'
    match ts, hts, htasks' with
    | [], hts, htasks' => cases htasks'
    | [t], hts, htasks' =>
      cases htasks'
      exact ⟨p, horigin, hp, task, routine, args, htasks, hstep, hts, .refl⟩
    | t :: u :: ts, hts, htasks' =>
      cases htasks'
      exact hold ts saved rest rfl
  | leave htask hstack hrounds htasks' => exact hold ts saved rest (htasks'.symm.trans hts)

theorem Reaches.explained {entry : Routine} (h : Reaches s (start s entry) p) :
    Explained s (start s entry) p ∧ Pending s (start s entry) p := by
  induction h with
  | refl =>
    constructor
    · intro name hopens
      exact absurd hopens (Walk.not_opens_of_empty rfl)
    · intro ts saved rest htasks
      cases ts with
      | nil => cases htasks
      | cons t ts => simp [start] at htasks
  | tail hreaches hstep ih =>
    exact ⟨hstep.explained ih.1 ih.2, hstep.pending hreaches ih.1 ih.2⟩

/-- What locals open at any point of a walk is a section of the current module, unless it was
given back, since that module started, by a routine that was left after a module had started
in it. Wherever one is given back like that, a local opens a section that the current module
does not have. -/
theorem toggles_in_module_or_givenBack (s : Setting) (entry : Routine) :
    (∀ p, Reaches s (start s entry) p → ∀ l name, p.walk.toggles.get? l = some name →
      (∃ m, p.walk.current = some m ∧ (m.layout.handle? name).isSome = true) ∨
        GivenBack s (start s entry) p name) ∧
    ∀ c saved name d, GivesBack s c saved name d →
      ∃ p, Step s d p ∧ ∃ l m, p.walk.toggles.get? l = some name ∧
        p.walk.current = some m ∧ m.layout.handle? name = none := by
  constructor
  · intro p hp l name hl
    exact (Reaches.explained hp).1 name ⟨l, hl⟩
  · rintro c saved name d ⟨⟨rest, hinside, htasks⟩, hlt, -, ⟨l, hl⟩, hmissing⟩
    obtain ⟨m, hm⟩ := Reaches.exists_current hinside.reaches hlt
    have hcurrent : (d.walk.restore saved).current = some m :=
      (Walk.sameModules_restore saved d.walk).current.trans hm
    refine ⟨_, ⟨.leave saved, rest, htasks, rfl⟩, l, m, hl, hcurrent, ?_⟩
    by_contra hknown
    exact hmissing ⟨m, hm, Option.isSome_iff_ne_none.2 hknown⟩

end Point

/-! ### A module started by a routine with a parameter -/

/-- A local that opens a section is given to a routine that starts the next module, and whose
parameter has the name of the local:

    void Next(bool open) { MakeEffect("B"); }
    void OnGUI() {
      MakeEffect("A");
      bool open = MakeSubEffect("Inner");
      Next(open);
    }
-/
def handedOnSource : SourceTree :=
  { mark := default
    body :=
      [.classDecl default [] "Panel"
        [.method default [] "void" "Next" [{ type := "bool", name := "open" }]
          (.block default [.expr (Expr.calling "MakeEffect" [.string default "B"])]),
        .method default [] "void" "OnGUI" []
          (.block default
            [.expr (Expr.calling "MakeEffect" [.string default "A"]),
            .localDecl default "bool" "open"
              (some (Expr.calling "MakeSubEffect" [.string default "Inner"])),
            .expr (Expr.calling "Next" [.name default "open"])])]] }

/-- At the end the local opens a section that only the first module has. -/
theorem handedOnSource_opens_foreign :
    ∃ p m, Visits handedOnSource {} {} p ∧ p.walk.toggles.get? "open" = some "Inner" ∧
      p.walk.current = some m ∧ m.name = "B" ∧ m.layout.handle? "Inner" = none := by
  have hends : ((Catalog.ofTree handedOnSource).routine? "OnGUI").bind (fun entry =>
      (Point.walkOf (.ofTree handedOnSource {} {}) entry).result.toOption.bind fun after =>
        after.2.current.map fun m =>
          (after.2.toggles.get? "open", m.name, m.layout.handle? "Inner")) =
      some (some "Inner", "B", none) := by
    decide +kernel
  obtain ⟨entry, hentry, hwalk⟩ := Option.bind_eq_some_iff.1 hends
  obtain ⟨⟨f, w⟩, hafter, hcurrent⟩ := Option.bind_eq_some_iff.1 hwalk
  obtain ⟨m, hm, hfound⟩ := Option.map_eq_some_iff.1 hcurrent
  have hok : (Point.walkOf (.ofTree handedOnSource {} {}) entry).result = .ok (f, w) := by
    cases hresult : (Point.walkOf (.ofTree handedOnSource {} {}) entry).result with
    | error e => simp [hresult, Except.toOption] at hafter
    | ok after => simpa [hresult, Except.toOption] using hafter
  simp only [Prod.mk.injEq] at hfound
  exact ⟨_, m, ⟨entry, hentry, Point.reaches_end hok⟩, hfound.1, hm, hfound.2⟩

end PanelSchema
