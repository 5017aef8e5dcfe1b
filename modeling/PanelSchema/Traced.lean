import PanelSchema.Note
import PanelSchema.Problem

/-!
Work that leaves notes behind and may stop early. The notes made before a stop
are kept.
-/

namespace PanelSchema

inductive Stop where
  | problem (p : Problem)
  /-- The least integer was negated. -/
  | overflow
deriving DecidableEq, Repr

structure Traced (α : Type) where
  notes : List Note := []
  result : Except Stop α

namespace Traced

variable {α β : Type}

protected def pure (a : α) : Traced α :=
  { result := .ok a }

protected def bind (x : Traced α) (f : α → Traced β) : Traced β :=
  match x.result with
  | .ok a =>
    let y := f a
    { notes := x.notes ++ y.notes, result := y.result }
  | .error e => { notes := x.notes, result := .error e }

instance : Monad Traced where
  pure := Traced.pure
  bind := Traced.bind

instance : Inhabited (Traced α) := ⟨{ result := .error .overflow }⟩

def note (level : NoteLevel) (text : String) : Traced Unit :=
  { notes := [{ level, text }], result := .ok () }

/-- Adds notes that were collected elsewhere. -/
def notesOf (notes : List Note) : Traced Unit :=
  { notes, result := .ok () }

def stop (s : Stop) : Traced α :=
  { result := .error s }

def fail (p : Problem) : Traced α :=
  stop (.problem p)

@[simp] theorem result_pure (a : α) : (pure a : Traced α).result = .ok a := rfl

@[simp] theorem result_note (level : NoteLevel) (text : String) :
    (note level text).result = .ok () := rfl

@[simp] theorem result_notesOf (notes : List Note) : (notesOf notes).result = .ok () := rfl

/-- Notes do not bear on the result. -/
@[simp] theorem result_bind (x : Traced α) (f : α → Traced β) :
    (x >>= f).result = x.result >>= fun a => (f a).result := by
  change (Traced.bind x f).result = _
  unfold Traced.bind
  cases x.result <;> rfl

end Traced

end PanelSchema
