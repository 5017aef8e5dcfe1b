/-! Dictionaries from names to values, in the order of first insertion. -/

namespace PanelSchema

structure Dict (α : Type) where
  entries : List (String × α) := []

namespace Dict

variable {α : Type}

instance : Inhabited (Dict α) := ⟨{}⟩

def empty : Dict α := {}

def get? (d : Dict α) (key : String) : Option α :=
  d.entries.lookup key

def contains (d : Dict α) (key : String) : Bool :=
  (d.get? key).isSome

def size (d : Dict α) : Nat :=
  d.entries.length

def isEmpty (d : Dict α) : Bool :=
  d.entries.isEmpty

def putEntry (key : String) (value : α) :
    List (String × α) → List (String × α)
  | [] => [(key, value)]
  | (k, v) :: rest =>
    if key == k then (k, value) :: rest else (k, v) :: putEntry key value rest

/-- An existing key keeps its place. -/
def insert (d : Dict α) (key : String) (value : α) : Dict α :=
  { entries := putEntry key value d.entries }

def erase (d : Dict α) (key : String) : Dict α :=
  { entries := d.entries.filter (·.1 != key) }

def set (d : Dict α) (key : String) : Option α → Dict α
  | some value => d.insert key value
  | none => d.erase key

def insertAll (d : Dict α) (keys : List String) (value : α) : Dict α :=
  keys.foldl (fun d key => d.insert key value) d

/-- Keeps the value a key already has. -/
def insertNew (d : Dict α) (key : String) (value : α) : Dict α :=
  if d.contains key then d else d.insert key value

/-- The entries by increasing key. -/
def sorted (d : Dict α) : List (String × α) :=
  d.entries.mergeSort fun a b => a.1 ≤ b.1

@[simp] theorem get?_empty (key : String) : (empty : Dict α).get? key = none := rfl

private theorem lookup_putEntry (key k : String) (value : α) (es : List (String × α)) :
    (putEntry key value es).lookup k = if k == key then some value else es.lookup k := by
  induction es with
  | nil => cases here : k == key <;> simp [putEntry, List.lookup_cons, here]
  | cons e rest ih =>
    obtain ⟨k', v⟩ := e
    unfold putEntry
    by_cases same : key = k'
    · subst same
      by_cases here : k = key
      · simp [here]
      · have away : (k == key) = false := by simp [here]
        simp [List.lookup_cons, away]
    · by_cases here : k = k'
      · subst here
        have : ¬k = key := fun h => same h.symm
        simp [same, this]
      · have away : (k == k') = false := by simp [here]
        simp [List.lookup_cons, same, away, ih]

theorem get?_insert (d : Dict α) (key k : String) (value : α) :
    (d.insert key value).get? k = if k == key then some value else d.get? k :=
  lookup_putEntry key k value d.entries

@[simp] theorem get?_insert_self (d : Dict α) (key : String) (value : α) :
    (d.insert key value).get? key = some value := by
  simp [get?_insert]

theorem get?_erase (d : Dict α) (key k : String) :
    (d.erase key).get? k = if k == key then none else d.get? k := by
  unfold erase get?
  induction d.entries with
  | nil => simp
  | cons e rest ih =>
    obtain ⟨k', v⟩ := e
    by_cases drop : k' = key
    · subst drop
      by_cases here : k = k'
      · subst here
        simpa using ih
      · have away : (k == k') = false := by simp [here]
        simpa [List.lookup_cons, away] using ih
    · by_cases here : k = k'
      · subst here
        simp [drop]
      · have away : (k == k') = false := by simp [here]
        simpa [List.lookup_cons, drop, away] using ih

end Dict

end PanelSchema
