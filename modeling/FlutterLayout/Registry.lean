import FlutterLayout.Text.Basic

/-!
# Registries — maps that remember the order of registration

A registry maps names to values.  Listing it gives the names in the order they were first registered;
registering a name again replaces its value and keeps its place, removing it forgets the place.
-/

namespace FlutterLayout

/-- A map from names that keeps the order in which names were added. -/
structure Registry (α : Type) where
  entries : List (Text × α)
  deriving Repr

namespace Registry

variable {α : Type}

def empty : Registry α := ⟨[]⟩

instance : Inhabited (Registry α) := ⟨empty⟩

def get? (r : Registry α) (name : Text) : Option α :=
  r.entries.lookup name

def insertInto (name : Text) (value : α) : List (Text × α) → List (Text × α)
  | [] => [(name, value)]
  | (key, old) :: entries =>
    if key = name then (key, value) :: entries else (key, old) :: insertInto name value entries

def insert (r : Registry α) (name : Text) (value : α) : Registry α :=
  ⟨insertInto name value r.entries⟩

def insertAll (r : Registry α) (names : List Text) (value : α) : Registry α :=
  names.foldl (fun r name => r.insert name value) r

def erase (r : Registry α) (name : Text) : Registry α :=
  ⟨r.entries.filter fun (key, _) => key ≠ name⟩

def eraseAll (r : Registry α) (names : List Text) : Registry α :=
  names.foldl erase r

def size (r : Registry α) : Nat :=
  r.entries.length

def names (r : Registry α) : List Text :=
  r.entries.map Prod.fst

end Registry

end FlutterLayout
