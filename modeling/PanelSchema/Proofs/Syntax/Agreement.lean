import Mathlib.Data.List.Forall2
import PanelSchema.Syntax.Tree

/-!
Trees that are the same up to positions, and up to types as far as a latitude lets one stand for
another.
-/

namespace PanelSchema.Syntax

/-- Which types of one tree may stand for which of another. -/
abbrev Latitude := String → String → Prop

inductive Expr.Agree (l : Latitude) : Expr → Expr → Prop where
  | unary {m m' : Mark} {op : UnaryOp} {e e' : Expr} (hm : m'.id = m.id) (h : Agree l e e') :
      Agree l (.unary m op e) (.unary m' op e')
  | binary {m m' : Mark} {op : BinaryOp} {a a' b b' : Expr} (hm : m'.id = m.id)
      (ha : Agree l a a') (hb : Agree l b b') : Agree l (.binary m a op b) (.binary m' a' op b')
  | assign {m m' : Mark} {a a' b b' : Expr} (hm : m'.id = m.id) (ha : Agree l a a')
      (hb : Agree l b b') : Agree l (.assign m a b) (.assign m' a' b')
  | conditional {m m' : Mark} {t t' y y' n n' : Expr} (hm : m'.id = m.id) (ht : Agree l t t')
      (hy : Agree l y y') (hn : Agree l n n') :
      Agree l (.conditional m t y n) (.conditional m' t' y' n')
  | cast {m m' : Mark} {type type' : String} {e e' : Expr} (hm : m'.id = m.id)
      (htype : l type type') (h : Agree l e e') : Agree l (.cast m type e) (.cast m' type' e')
  | call {m m' : Mark} {e e' : Expr} {types types' : List String} {args args' : List Expr}
      (hm : m'.id = m.id) (h : Agree l e e') (htypes : List.Forall₂ l types types')
      (hargs : List.Forall₂ (Agree l) args args') :
      Agree l (.call m e types args) (.call m' e' types' args')
  | member {m m' : Mark} {e e' : Expr} {name : String} (hm : m'.id = m.id) (h : Agree l e e') :
      Agree l (.member m e name) (.member m' e' name)
  | index {m m' : Mark} {a a' b b' : Expr} (hm : m'.id = m.id) (ha : Agree l a a')
      (hb : Agree l b b') : Agree l (.index m a b) (.index m' a' b')
  | new {m m' : Mark} {type type' : Option String} {args args' : List Expr}
      {init init' : Option (List Expr)} (hm : m'.id = m.id) (htype : Option.Rel l type type')
      (hargs : List.Forall₂ (Agree l) args args')
      (hinit : Option.Rel (List.Forall₂ (Agree l)) init init') :
      Agree l (.new m type args init) (.new m' type' args' init')
  | typeOf {m m' : Mark} {type type' : String} (hm : m'.id = m.id) (htype : l type type') :
      Agree l (.typeOf m type) (.typeOf m' type')
  | name {m m' : Mark} {name : String} (hm : m'.id = m.id) :
      Agree l (.name m name) (.name m' name)
  | string {m m' : Mark} {value : String} (hm : m'.id = m.id) :
      Agree l (.string m value) (.string m' value)
  | integer {m m' : Mark} {value : Int} (hm : m'.id = m.id) :
      Agree l (.integer m value) (.integer m' value)
  | float {m m' : Mark} {value : Float} (hm : m'.id = m.id) :
      Agree l (.float m value) (.float m' value)
  | bool {m m' : Mark} {value : Bool} (hm : m'.id = m.id) :
      Agree l (.bool m value) (.bool m' value)
  | list {m m' : Mark} {es es' : List Expr} (hm : m'.id = m.id)
      (h : List.Forall₂ (Agree l) es es') : Agree l (.list m es) (.list m' es')
  | null {m m' : Mark} (hm : m'.id = m.id) : Agree l (.null m) (.null m')

mutual

inductive Stmt.Agree (l : Latitude) : Stmt → Stmt → Prop where
  | block {m m' : Mark} {ss ss' : List Stmt} (hm : m'.id = m.id)
      (h : List.Forall₂ (Stmt.Agree l) ss ss') : Stmt.Agree l (.block m ss) (.block m' ss')
  | localDecl {m m' : Mark} {type type' name : String} {value value' : Option Expr}
      (hm : m'.id = m.id) (htype : l type type')
      (hvalue : Option.Rel (Expr.Agree l) value value') :
      Stmt.Agree l (.localDecl m type name value) (.localDecl m' type' name value')
  | ifThen {m m' : Mark} {t t' : Expr} {s s' : Stmt} (hm : m'.id = m.id) (ht : t.Agree l t')
      (h : Stmt.Agree l s s') : Stmt.Agree l (.ifThen m t s) (.ifThen m' t' s')
  | ifElse {m m' : Mark} {t t' : Expr} {y y' n n' : Stmt} (hm : m'.id = m.id)
      (ht : t.Agree l t') (hy : Stmt.Agree l y y') (hn : Stmt.Agree l n n') :
      Stmt.Agree l (.ifElse m t y n) (.ifElse m' t' y' n')
  | switch {m m' : Mark} {e e' : Expr} {ss ss' : List SwitchSection} (hm : m'.id = m.id)
      (he : e.Agree l e') (h : List.Forall₂ (SwitchSection.Agree l) ss ss') :
      Stmt.Agree l (.switch m e ss) (.switch m' e' ss')
  | usingBlock {m m' : Mark} {r r' s s' : Stmt} (hm : m'.id = m.id) (hr : Stmt.Agree l r r')
      (h : Stmt.Agree l s s') : Stmt.Agree l (.usingBlock m r s) (.usingBlock m' r' s')
  | whileLoop {m m' : Mark} {t t' : Expr} {s s' : Stmt} (hm : m'.id = m.id) (ht : t.Agree l t')
      (h : Stmt.Agree l s s') : Stmt.Agree l (.whileLoop m t s) (.whileLoop m' t' s')
  | loop {m m' : Mark} {s s' : Stmt} (hm : m'.id = m.id) (h : Stmt.Agree l s s') :
      Stmt.Agree l (.loop m s) (.loop m' s')
  | doWhile {m m' : Mark} {s s' : Stmt} {t t' : Expr} (hm : m'.id = m.id)
      (h : Stmt.Agree l s s') (ht : t.Agree l t') :
      Stmt.Agree l (.doWhile m s t) (.doWhile m' s' t')
  | returns {m m' : Mark} {value value' : Option Expr} (hm : m'.id = m.id)
      (hvalue : Option.Rel (Expr.Agree l) value value') :
      Stmt.Agree l (.returns m value) (.returns m' value')
  | breaks {m m' : Mark} (hm : m'.id = m.id) : Stmt.Agree l (.breaks m) (.breaks m')
  | continues {m m' : Mark} (hm : m'.id = m.id) : Stmt.Agree l (.continues m) (.continues m')
  | skipped {m m' : Mark} {text : String} (hm : m'.id = m.id) :
      Stmt.Agree l (.skipped m text) (.skipped m' text)
  | expr {e e' : Expr} (h : e.Agree l e') : Stmt.Agree l (.expr e) (.expr e')

inductive SwitchSection.Agree (l : Latitude) : SwitchSection → SwitchSection → Prop where
  | mk {m m' : Mark} {labels labels' : List (Option Expr)} {ss ss' : List Stmt}
      (hm : m'.id = m.id) (hlabels : List.Forall₂ (Option.Rel (Expr.Agree l)) labels labels')
      (h : List.Forall₂ (Stmt.Agree l) ss ss') :
      SwitchSection.Agree l (.mk m labels ss) (.mk m' labels' ss')

end

structure Attribute.Agree (l : Latitude) (a a' : Attribute) : Prop where
  name : a'.name = a.name
  args : List.Forall₂ (Expr.Agree l) a.args a'.args

structure Parameter.Agree (l : Latitude) (p p' : Parameter) : Prop where
  type : l p.type p'.type
  name : p'.name = p.name

structure EnumMember.Agree (l : Latitude) (e e' : EnumMember) : Prop where
  id : e'.mark.id = e.mark.id
  attributes : List.Forall₂ (Attribute.Agree l) e.attributes e'.attributes
  name : e'.name = e.name
  value : Option.Rel (Expr.Agree l) e.value e'.value

inductive Decl.Agree (l : Latitude) : Decl → Decl → Prop where
  | namespaceDecl {m m' : Mark} {name : String} {ds ds' : List Decl} (hm : m'.id = m.id)
      (h : List.Forall₂ (Agree l) ds ds') :
      Agree l (.namespaceDecl m name ds) (.namespaceDecl m' name ds')
  | classDecl {m m' : Mark} {as as' : List Attribute} {name : String} {ds ds' : List Decl}
      (hm : m'.id = m.id) (has : List.Forall₂ (Attribute.Agree l) as as')
      (h : List.Forall₂ (Agree l) ds ds') :
      Agree l (.classDecl m as name ds) (.classDecl m' as' name ds')
  | enumDecl {m m' : Mark} {as as' : List Attribute} {name : String} {es es' : List EnumMember}
      (hm : m'.id = m.id) (has : List.Forall₂ (Attribute.Agree l) as as')
      (h : List.Forall₂ (EnumMember.Agree l) es es') :
      Agree l (.enumDecl m as name es) (.enumDecl m' as' name es')
  | field {m m' : Mark} {as as' : List Attribute} {modifiers : List String}
      {type type' name : String} {value value' : Option Expr} (hm : m'.id = m.id)
      (has : List.Forall₂ (Attribute.Agree l) as as') (htype : l type type')
      (hvalue : Option.Rel (Expr.Agree l) value value') :
      Agree l (.field m as modifiers type name value) (.field m' as' modifiers type' name value')
  | method {m m' : Mark} {as as' : List Attribute} {type type' name : String}
      {ps ps' : List Parameter} {s s' : Stmt} (hm : m'.id = m.id)
      (has : List.Forall₂ (Attribute.Agree l) as as') (htype : l type type')
      (hps : List.Forall₂ (Parameter.Agree l) ps ps') (h : s.Agree l s') :
      Agree l (.method m as type name ps s) (.method m' as' type' name ps' s')

structure SourceTree.Agree (l : Latitude) (t t' : SourceTree) : Prop where
  id : t'.mark.id = t.mark.id
  body : List.Forall₂ (Decl.Agree l) t.body t'.body

end PanelSchema.Syntax
