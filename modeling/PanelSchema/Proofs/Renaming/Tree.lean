import Mathlib.Logic.Equiv.Basic
import PanelSchema.Syntax.Tree

/-!
Sources with other names for their locals. A local is named where it is declared, as a
parameter, as a name of its own and as a member of `this`; members of anything else are no
locals. Renamings that agree on the names of a source rename it alike.
-/

namespace PanelSchema.Syntax

/-! ### Expressions -/

/-- Whether an expression is the object that a routine belongs to. -/
def Expr.isThis (e : Expr) : Bool :=
  e.asName? == some "this"

theorem Expr.isThis_iff {e : Expr} : e.isThis = true ↔ ∃ m, e = .name m "this" := by
  cases e <;> simp [Expr.isThis, Expr.asName?]

/-- The local that an expression is, with or without `this` before it. -/
def Expr.local? : Expr → Option String
  | .name _ n => some n
  | .member _ object n => if object.isThis then some n else none
  | _ => none

def Expr.root? : Expr → Option String
  | .name _ n => some n
  | .member _ object n => if object.isThis then some n else object.root?
  | _ => none

mutual

def Expr.mapNames (f : String → String) : Expr → Expr
  | .unary m op e => .unary m op (e.mapNames f)
  | .binary m l op r => .binary m (l.mapNames f) op (r.mapNames f)
  | .assign m target value => .assign m (target.mapNames f) (value.mapNames f)
  | .conditional m test yes no =>
    .conditional m (test.mapNames f) (yes.mapNames f) (no.mapNames f)
  | .cast m type e => .cast m type (e.mapNames f)
  | .call m callee typeArgs args =>
    .call m (callee.mapNames f) typeArgs (Expr.mapNamesAll f args)
  | .member m object n => .member m (object.mapNames f) (if object.isThis then f n else n)
  | .index m object i => .index m (object.mapNames f) (i.mapNames f)
  | .new m type args none => .new m type (Expr.mapNamesAll f args) none
  | .new m type args (some es) =>
    .new m type (Expr.mapNamesAll f args) (some (Expr.mapNamesAll f es))
  | .name m n => .name m (f n)
  | .list m es => .list m (Expr.mapNamesAll f es)
  | .typeOf m type => .typeOf m type
  | .string m s => .string m s
  | .integer m n => .integer m n
  | .float m x => .float m x
  | .bool m b => .bool m b
  | .null m => .null m

def Expr.mapNamesAll (f : String → String) : List Expr → List Expr
  | [] => []
  | e :: es => e.mapNames f :: Expr.mapNamesAll f es

end

mutual

/-- The names that a renaming reaches. -/
def Expr.names : Expr → List String
  | .unary _ _ e => e.names
  | .binary _ l _ r => l.names ++ r.names
  | .assign _ target value => target.names ++ value.names
  | .conditional _ test yes no => test.names ++ yes.names ++ no.names
  | .cast _ _ e => e.names
  | .call _ callee _ args => callee.names ++ Expr.namesAll args
  | .member _ object n => object.names ++ if object.isThis then [n] else []
  | .index _ object i => object.names ++ i.names
  | .new _ _ args none => Expr.namesAll args
  | .new _ _ args (some es) => Expr.namesAll args ++ Expr.namesAll es
  | .name _ n => [n]
  | .list _ es => Expr.namesAll es
  | .typeOf .. | .string .. | .integer .. | .float .. | .bool .. | .null _ => []

def Expr.namesAll : List Expr → List String
  | [] => []
  | e :: es => e.names ++ Expr.namesAll es

end

@[simp] theorem Expr.mapNamesAll_eq (f : String → String) (es : List Expr) :
    Expr.mapNamesAll f es = es.map (Expr.mapNames f) := by
  induction es with
  | nil => rfl
  | cons e es ih => rw [Expr.mapNamesAll, ih, List.map_cons]

section

variable {f g : String → String}

mutual

theorem Expr.mapNames_congr :
    ∀ e : Expr, (∀ n ∈ e.names, f n = g n) → e.mapNames f = e.mapNames g
  | .unary _ _ e, h | .cast _ _ e, h => by
    rw [Expr.mapNames, Expr.mapNames, Expr.mapNames_congr e h]
  | .binary _ l _ r, h | .assign _ l r, h | .index _ l r, h => by
    rw [Expr.names, List.forall_mem_append] at h
    rw [Expr.mapNames, Expr.mapNames, Expr.mapNames_congr l h.1, Expr.mapNames_congr r h.2]
  | .conditional _ test yes no, h => by
    rw [Expr.names, List.forall_mem_append, List.forall_mem_append] at h
    rw [Expr.mapNames, Expr.mapNames, Expr.mapNames_congr test h.1.1,
      Expr.mapNames_congr yes h.1.2, Expr.mapNames_congr no h.2]
  | .call _ callee _ args, h => by
    rw [Expr.names, List.forall_mem_append] at h
    rw [Expr.mapNames, Expr.mapNames, Expr.mapNames_congr callee h.1,
      Expr.mapNamesAll_congr args h.2]
  | .member _ object n, h => by
    rw [Expr.names, List.forall_mem_append] at h
    rw [Expr.mapNames, Expr.mapNames, Expr.mapNames_congr object h.1]
    cases hthis : object.isThis with
    | false => rfl
    | true =>
      have hn : f n = g n := h.2 n (by simp [hthis])
      rw [hn]
  | .new _ _ args none, h => by
    rw [Expr.mapNames, Expr.mapNames, Expr.mapNamesAll_congr args h]
  | .new _ _ args (some es), h => by
    rw [Expr.names, List.forall_mem_append] at h
    rw [Expr.mapNames, Expr.mapNames, Expr.mapNamesAll_congr args h.1,
      Expr.mapNamesAll_congr es h.2]
  | .name _ n, h => by
    rw [Expr.mapNames, Expr.mapNames, h n (by simp [Expr.names])]
  | .list _ es, h => by
    rw [Expr.mapNames, Expr.mapNames, Expr.mapNamesAll_congr es h]
  | .typeOf .., _ | .string .., _ | .integer .., _ | .float .., _ | .bool .., _ | .null _, _ =>
    rfl

theorem Expr.mapNamesAll_congr :
    ∀ es : List Expr, (∀ n ∈ Expr.namesAll es, f n = g n) →
      Expr.mapNamesAll f es = Expr.mapNamesAll g es
  | [], _ => rfl
  | e :: es, h => by
    rw [Expr.namesAll, List.forall_mem_append] at h
    rw [Expr.mapNamesAll, Expr.mapNamesAll, Expr.mapNames_congr e h.1,
      Expr.mapNamesAll_congr es h.2]

end

theorem Expr.map_mapNames_congr {es : List Expr}
    (h : ∀ n ∈ es.flatMap Expr.names, f n = g n) :
    es.map (Expr.mapNames f) = es.map (Expr.mapNames g) := by
  apply List.map_congr_left
  intro e he
  exact Expr.mapNames_congr e fun n hn => h n (List.mem_flatMap.2 ⟨e, he, hn⟩)

theorem Expr.optionMap_mapNames_congr {o : Option Expr}
    (h : ∀ n ∈ o.toList.flatMap Expr.names, f n = g n) :
    o.map (Expr.mapNames f) = o.map (Expr.mapNames g) := by
  cases o with
  | none => rfl
  | some e => exact congrArg some (Expr.mapNames_congr e fun n hn => h n (by simpa using hn))

end

/-! ### Statements -/

mutual

def Stmt.mapNames (f : String → String) : Stmt → Stmt
  | .block m body => .block m (Stmt.mapNamesAll f body)
  | .localDecl m type name value => .localDecl m type (f name) (value.map (Expr.mapNames f))
  | .ifThen m test body => .ifThen m (test.mapNames f) (body.mapNames f)
  | .ifElse m test yes no =>
    .ifElse m (test.mapNames f) (yes.mapNames f) (no.mapNames f)
  | .switch m subject sections =>
    .switch m (subject.mapNames f) (SwitchSection.mapNamesAll f sections)
  | .usingBlock m resource body => .usingBlock m (resource.mapNames f) (body.mapNames f)
  | .whileLoop m test body => .whileLoop m (test.mapNames f) (body.mapNames f)
  | .loop m body => .loop m (body.mapNames f)
  | .doWhile m body test => .doWhile m (body.mapNames f) (test.mapNames f)
  | .returns m value => .returns m (value.map (Expr.mapNames f))
  | .breaks m => .breaks m
  | .continues m => .continues m
  | .skipped m text => .skipped m text
  | .expr e => .expr (e.mapNames f)

def SwitchSection.mapNames (f : String → String) : SwitchSection → SwitchSection
  | .mk m labels body =>
    .mk m (labels.map (Option.map (Expr.mapNames f))) (Stmt.mapNamesAll f body)

def Stmt.mapNamesAll (f : String → String) : List Stmt → List Stmt
  | [] => []
  | stmt :: rest => stmt.mapNames f :: Stmt.mapNamesAll f rest

def SwitchSection.mapNamesAll (f : String → String) : List SwitchSection → List SwitchSection
  | [] => []
  | sec :: rest => sec.mapNames f :: SwitchSection.mapNamesAll f rest

end

mutual

def Stmt.names : Stmt → List String
  | .block _ body => Stmt.namesAll body
  | .localDecl _ _ name value => name :: value.toList.flatMap Expr.names
  | .ifThen _ test body => test.names ++ body.names
  | .ifElse _ test yes no => test.names ++ yes.names ++ no.names
  | .switch _ subject sections => subject.names ++ SwitchSection.namesAll sections
  | .usingBlock _ resource body => resource.names ++ body.names
  | .whileLoop _ test body => test.names ++ body.names
  | .loop _ body => body.names
  | .doWhile _ body test => body.names ++ test.names
  | .returns _ value => value.toList.flatMap Expr.names
  | .breaks _ | .continues _ | .skipped .. => []
  | .expr e => e.names

def SwitchSection.names : SwitchSection → List String
  | .mk _ labels body =>
    (labels.flatMap fun label => label.toList.flatMap Expr.names) ++ Stmt.namesAll body

def Stmt.namesAll : List Stmt → List String
  | [] => []
  | stmt :: rest => stmt.names ++ Stmt.namesAll rest

def SwitchSection.namesAll : List SwitchSection → List String
  | [] => []
  | sec :: rest => sec.names ++ SwitchSection.namesAll rest

end

@[simp] theorem Stmt.mapNamesAll_eq (f : String → String) (body : List Stmt) :
    Stmt.mapNamesAll f body = body.map (Stmt.mapNames f) := by
  induction body with
  | nil => rfl
  | cons stmt rest ih => rw [Stmt.mapNamesAll, ih, List.map_cons]

@[simp] theorem SwitchSection.mapNamesAll_eq (f : String → String)
    (sections : List SwitchSection) :
    SwitchSection.mapNamesAll f sections = sections.map (SwitchSection.mapNames f) := by
  induction sections with
  | nil => rfl
  | cons sec rest ih => rw [SwitchSection.mapNamesAll, ih, List.map_cons]

section

variable {f g : String → String}

theorem mapNames_labels_congr {labels : List (Option Expr)}
    (h : ∀ n ∈ labels.flatMap fun label => label.toList.flatMap Expr.names, f n = g n) :
    labels.map (Option.map (Expr.mapNames f)) = labels.map (Option.map (Expr.mapNames g)) := by
  apply List.map_congr_left
  intro label hlabel
  exact Expr.optionMap_mapNames_congr fun n hn => h n (List.mem_flatMap.2 ⟨label, hlabel, hn⟩)

mutual

theorem Stmt.mapNames_congr :
    ∀ stmt : Stmt, (∀ n ∈ stmt.names, f n = g n) → stmt.mapNames f = stmt.mapNames g
  | .block _ body, h => by
    rw [Stmt.mapNames, Stmt.mapNames, Stmt.mapNamesAll_congr body h]
  | .localDecl _ _ name value, h => by
    rw [Stmt.names, List.forall_mem_cons] at h
    rw [Stmt.mapNames, Stmt.mapNames, h.1, Expr.optionMap_mapNames_congr h.2]
  | .ifThen _ test body, h | .whileLoop _ test body, h => by
    rw [Stmt.names, List.forall_mem_append] at h
    rw [Stmt.mapNames, Stmt.mapNames, Expr.mapNames_congr test h.1, Stmt.mapNames_congr body h.2]
  | .ifElse _ test yes no, h => by
    rw [Stmt.names, List.forall_mem_append, List.forall_mem_append] at h
    rw [Stmt.mapNames, Stmt.mapNames, Expr.mapNames_congr test h.1.1,
      Stmt.mapNames_congr yes h.1.2, Stmt.mapNames_congr no h.2]
  | .switch _ subject sections, h => by
    rw [Stmt.names, List.forall_mem_append] at h
    rw [Stmt.mapNames, Stmt.mapNames, Expr.mapNames_congr subject h.1,
      SwitchSection.mapNamesAll_congr sections h.2]
  | .usingBlock _ resource body, h => by
    rw [Stmt.names, List.forall_mem_append] at h
    rw [Stmt.mapNames, Stmt.mapNames, Stmt.mapNames_congr resource h.1,
      Stmt.mapNames_congr body h.2]
  | .loop _ body, h => by
    rw [Stmt.mapNames, Stmt.mapNames, Stmt.mapNames_congr body h]
  | .doWhile _ body test, h => by
    rw [Stmt.names, List.forall_mem_append] at h
    rw [Stmt.mapNames, Stmt.mapNames, Stmt.mapNames_congr body h.1, Expr.mapNames_congr test h.2]
  | .returns _ value, h => by
    rw [Stmt.mapNames, Stmt.mapNames, Expr.optionMap_mapNames_congr h]
  | .expr e, h => by
    rw [Stmt.mapNames, Stmt.mapNames, Expr.mapNames_congr e h]
  | .breaks _, _ | .continues _, _ | .skipped .., _ => rfl

theorem SwitchSection.mapNames_congr :
    ∀ sec : SwitchSection, (∀ n ∈ sec.names, f n = g n) → sec.mapNames f = sec.mapNames g
  | .mk _ labels body, h => by
    rw [SwitchSection.names, List.forall_mem_append] at h
    rw [SwitchSection.mapNames, SwitchSection.mapNames, mapNames_labels_congr h.1,
      Stmt.mapNamesAll_congr body h.2]

theorem Stmt.mapNamesAll_congr :
    ∀ body : List Stmt, (∀ n ∈ Stmt.namesAll body, f n = g n) →
      Stmt.mapNamesAll f body = Stmt.mapNamesAll g body
  | [], _ => rfl
  | stmt :: rest, h => by
    rw [Stmt.namesAll, List.forall_mem_append] at h
    rw [Stmt.mapNamesAll, Stmt.mapNamesAll, Stmt.mapNames_congr stmt h.1,
      Stmt.mapNamesAll_congr rest h.2]

theorem SwitchSection.mapNamesAll_congr :
    ∀ sections : List SwitchSection, (∀ n ∈ SwitchSection.namesAll sections, f n = g n) →
      SwitchSection.mapNamesAll f sections = SwitchSection.mapNamesAll g sections
  | [], _ => rfl
  | sec :: rest, h => by
    rw [SwitchSection.namesAll, List.forall_mem_append] at h
    rw [SwitchSection.mapNamesAll, SwitchSection.mapNamesAll, SwitchSection.mapNames_congr sec h.1,
      SwitchSection.mapNamesAll_congr rest h.2]

end

end

/-! ### Declarations -/

def Attribute.mapNames (f : String → String) (a : Attribute) : Attribute :=
  { a with args := a.args.map (Expr.mapNames f) }

def Parameter.mapNames (f : String → String) (p : Parameter) : Parameter :=
  { p with name := f p.name }

def EnumMember.mapNames (f : String → String) (m : EnumMember) : EnumMember :=
  { m with
    attributes := m.attributes.map (Attribute.mapNames f)
    value := m.value.map (Expr.mapNames f) }

mutual

/-- The declaration with other names inside. What it declares keeps its name. -/
def Decl.mapNames (f : String → String) : Decl → Decl
  | .namespaceDecl m name body => .namespaceDecl m name (Decl.mapNamesAll f body)
  | .classDecl m attributes name body =>
    .classDecl m (attributes.map (Attribute.mapNames f)) name (Decl.mapNamesAll f body)
  | .enumDecl m attributes name members =>
    .enumDecl m (attributes.map (Attribute.mapNames f)) name
      (members.map (EnumMember.mapNames f))
  | .field m attributes modifiers type name value =>
    .field m (attributes.map (Attribute.mapNames f)) modifiers type name
      (value.map (Expr.mapNames f))
  | .method m attributes returnType name params body =>
    .method m (attributes.map (Attribute.mapNames f)) returnType name
      (params.map (Parameter.mapNames f)) (body.mapNames f)

def Decl.mapNamesAll (f : String → String) : List Decl → List Decl
  | [] => []
  | d :: ds => d.mapNames f :: Decl.mapNamesAll f ds

end

def SourceTree.mapNames (f : String → String) (t : SourceTree) : SourceTree :=
  { t with body := Decl.mapNamesAll f t.body }

def Attribute.names (a : Attribute) : List String :=
  a.args.flatMap Expr.names

def EnumMember.names (m : EnumMember) : List String :=
  m.name :: (m.attributes.flatMap Attribute.names ++ m.value.toList.flatMap Expr.names)

/-- The names that members are given by, each with the members before that it may stand for. -/
def EnumMember.compared : List EnumMember → List String → List (String × String)
  | [], _ => []
  | m :: ms, earlier =>
    (m.value.bind Expr.asName?).toList.flatMap (fun n => earlier.map (n, ·)) ++
      EnumMember.compared ms (earlier ++ [m.name])

mutual

def Decl.names : Decl → List String
  | .namespaceDecl _ _ body => Decl.namesAll body
  | .classDecl _ attributes _ body =>
    attributes.flatMap Attribute.names ++ Decl.namesAll body
  | .enumDecl _ attributes _ members =>
    attributes.flatMap Attribute.names ++ members.flatMap EnumMember.names
  | .field _ attributes _ _ _ value =>
    attributes.flatMap Attribute.names ++ value.toList.flatMap Expr.names
  | .method _ attributes _ _ params body =>
    attributes.flatMap Attribute.names ++ params.map (·.name) ++ body.names

def Decl.namesAll : List Decl → List String
  | [] => []
  | d :: ds => d.names ++ Decl.namesAll ds

end

/-- The names of a source that a renaming reaches, and those of the members of its enums. -/
def SourceTree.names (t : SourceTree) : List String :=
  Decl.namesAll t.body

mutual

def Decl.compared : Decl → List (String × String)
  | .namespaceDecl _ _ body | .classDecl _ _ _ body => Decl.comparedAll body
  | .enumDecl _ _ _ members => EnumMember.compared members []
  | .field .. | .method .. => []

def Decl.comparedAll : List Decl → List (String × String)
  | [] => []
  | d :: ds => d.compared ++ Decl.comparedAll ds

end

/-- The names that members of enums are given by, each with the members it may stand for. -/
def SourceTree.compared (t : SourceTree) : List (String × String) :=
  Decl.comparedAll t.body

/-- The source with the name `y` in place of `x`. -/
def SourceTree.rename (x y : String) (t : SourceTree) : SourceTree :=
  t.mapNames (Function.update id x y)

section

variable {f g : String → String}

theorem Attribute.map_mapNames_congr {attributes : List Attribute}
    (h : ∀ n ∈ attributes.flatMap Attribute.names, f n = g n) :
    attributes.map (Attribute.mapNames f) = attributes.map (Attribute.mapNames g) := by
  apply List.map_congr_left
  intro a ha
  have hargs : a.args.map (Expr.mapNames f) = a.args.map (Expr.mapNames g) :=
    Expr.map_mapNames_congr fun n hn => h n (List.mem_flatMap.2 ⟨a, ha, hn⟩)
  rw [Attribute.mapNames, Attribute.mapNames, hargs]

theorem Parameter.map_mapNames_congr {params : List Parameter}
    (h : ∀ n ∈ params.map (·.name), f n = g n) :
    params.map (Parameter.mapNames f) = params.map (Parameter.mapNames g) := by
  apply List.map_congr_left
  intro p hp
  rw [Parameter.mapNames, Parameter.mapNames, h p.name (List.mem_map_of_mem hp)]

theorem EnumMember.map_mapNames_congr {members : List EnumMember}
    (h : ∀ n ∈ members.flatMap EnumMember.names, f n = g n) :
    members.map (EnumMember.mapNames f) = members.map (EnumMember.mapNames g) := by
  apply List.map_congr_left
  intro m hm
  have hmember : ∀ n ∈ m.names, f n = g n :=
    fun n hn => h n (List.mem_flatMap.2 ⟨m, hm, hn⟩)
  rw [EnumMember.names, List.forall_mem_cons, List.forall_mem_append] at hmember
  obtain ⟨-, hattributes, hvalue⟩ := hmember
  rw [EnumMember.mapNames, EnumMember.mapNames, Attribute.map_mapNames_congr hattributes,
    Expr.optionMap_mapNames_congr hvalue]

mutual

theorem Decl.mapNames_congr :
    ∀ d : Decl, (∀ n ∈ d.names, f n = g n) → d.mapNames f = d.mapNames g
  | .namespaceDecl _ _ body, h => by
    rw [Decl.mapNames, Decl.mapNames, Decl.mapNamesAll_congr body h]
  | .classDecl _ _ _ body, h => by
    rw [Decl.names, List.forall_mem_append] at h
    rw [Decl.mapNames, Decl.mapNames, Attribute.map_mapNames_congr h.1,
      Decl.mapNamesAll_congr body h.2]
  | .enumDecl .., h => by
    rw [Decl.names, List.forall_mem_append] at h
    rw [Decl.mapNames, Decl.mapNames, Attribute.map_mapNames_congr h.1,
      EnumMember.map_mapNames_congr h.2]
  | .field .., h => by
    rw [Decl.names, List.forall_mem_append] at h
    rw [Decl.mapNames, Decl.mapNames, Attribute.map_mapNames_congr h.1,
      Expr.optionMap_mapNames_congr h.2]
  | .method _ _ _ _ _ body, h => by
    rw [Decl.names, List.forall_mem_append, List.forall_mem_append] at h
    rw [Decl.mapNames, Decl.mapNames, Attribute.map_mapNames_congr h.1.1,
      Parameter.map_mapNames_congr h.1.2, Stmt.mapNames_congr body h.2]

theorem Decl.mapNamesAll_congr :
    ∀ ds : List Decl, (∀ n ∈ Decl.namesAll ds, f n = g n) →
      Decl.mapNamesAll f ds = Decl.mapNamesAll g ds
  | [], _ => rfl
  | d :: ds, h => by
    rw [Decl.namesAll, List.forall_mem_append] at h
    rw [Decl.mapNamesAll, Decl.mapNamesAll, Decl.mapNames_congr d h.1,
      Decl.mapNamesAll_congr ds h.2]

end

theorem SourceTree.mapNames_congr {t : SourceTree} (h : ∀ n ∈ t.names, f n = g n) :
    t.mapNames f = t.mapNames g := by
  rw [SourceTree.mapNames, SourceTree.mapNames, Decl.mapNamesAll_congr t.body h]

theorem EnumMember.mem_names_of_compared {members : List EnumMember} {earlier : List String}
    {p : String × String} (hp : p ∈ EnumMember.compared members earlier) :
    p.1 ∈ members.flatMap EnumMember.names ∧
      (p.2 ∈ earlier ∨ p.2 ∈ members.flatMap EnumMember.names) := by
  induction members generalizing earlier with
  | nil => cases hp
  | cons m members ih =>
    rw [EnumMember.compared, List.mem_append, List.mem_flatMap] at hp
    rw [List.flatMap_cons, List.mem_append, List.mem_append]
    rcases hp with ⟨n, hn, hpair⟩ | hp
    · obtain ⟨k, hk, rfl⟩ := List.mem_map.1 hpair
      rw [Option.mem_toList] at hn
      obtain ⟨e, he, hname⟩ := Option.bind_eq_some_iff.1 hn
      have hvalue : n ∈ e.names := by
        cases e with
        | name => cases hname; exact List.mem_singleton_self _
        | _ => cases hname
      refine ⟨.inl ?_, .inl hk⟩
      simpa [EnumMember.names, he] using .inr (.inr hvalue)
    · obtain ⟨hfirst, hsecond⟩ := ih hp
      refine ⟨.inr hfirst, ?_⟩
      rcases hsecond with hsecond | hsecond
      · rcases List.mem_append.1 hsecond with hsecond | hsecond
        · exact .inl hsecond
        · rw [List.mem_singleton.1 hsecond]
          exact .inr (.inl List.mem_cons_self)
      · exact .inr (.inr hsecond)

mutual

theorem Decl.mem_names_of_compared :
    ∀ (d : Decl) {p : String × String}, p ∈ d.compared → p.1 ∈ d.names ∧ p.2 ∈ d.names
  | .namespaceDecl _ _ body, _, hp => Decl.mem_namesAll_of_compared body hp
  | .classDecl _ _ _ body, _, hp => by
    have hbody := Decl.mem_namesAll_of_compared body hp
    exact ⟨List.mem_append_right _ hbody.1, List.mem_append_right _ hbody.2⟩
  | .enumDecl .., _, hp => by
    obtain ⟨hfirst, hsecond⟩ := EnumMember.mem_names_of_compared hp
    exact ⟨List.mem_append_right _ hfirst,
      List.mem_append_right _ (hsecond.resolve_left List.not_mem_nil)⟩
  | .field .., _, hp | .method .., _, hp => by cases hp

theorem Decl.mem_namesAll_of_compared :
    ∀ (ds : List Decl) {p : String × String}, p ∈ Decl.comparedAll ds →
      p.1 ∈ Decl.namesAll ds ∧ p.2 ∈ Decl.namesAll ds
  | [], _, hp => by cases hp
  | d :: ds, _, hp => by
    rw [Decl.namesAll, List.mem_append, List.mem_append]
    rcases List.mem_append.1 hp with hp | hp
    · exact (Decl.mem_names_of_compared d hp).imp .inl .inl
    · exact (Decl.mem_namesAll_of_compared ds hp).imp .inr .inr

end

theorem SourceTree.mem_names_of_compared (t : SourceTree) {p : String × String}
    (hp : p ∈ t.compared) : p.1 ∈ t.names ∧ p.2 ∈ t.names :=
  Decl.mem_namesAll_of_compared t.body hp

theorem SourceTree.rename_eq_swap {t : SourceTree} {x y : String} (hy : y ∉ t.names) :
    t.rename x y = t.mapNames (Equiv.swap x y) := by
  apply SourceTree.mapNames_congr
  intro n hn
  have hne : n ≠ y := fun h => hy (h ▸ hn)
  by_cases hx : n = x
  · rw [hx, Function.update_self, Equiv.swap_apply_left]
  · rw [Function.update_of_ne hx, Equiv.swap_apply_of_ne_of_ne hx hne, id]

end

end PanelSchema.Syntax
