import ClientGen.Api.Operation
import ClientGen.Text.Table
/-!
# Reachable definitions

`walk` lists the entries of a table that are reached from given keys, each once. The definitions of a
document are listed breadth first, and the types of a group depth first.
-/

namespace ClientGen

/-- The order in which entries are reached. -/
inductive WalkOrder where
  /-- What an entry leads to comes behind all that is still to be looked at. -/
  | breadthFirst
  /-- What an entry leads to comes before all that is still to be looked at. -/
  | depthFirst
deriving DecidableEq, Repr

/-- The keys to be looked at when `new` ones are found. -/
def WalkOrder.agenda (order : WalkOrder) (waiting new : List Text) : List Text :=
  match order with
  | .breadthFirst => waiting ++ new
  | .depthFirst => new ++ waiting

namespace Table

variable {α : Type}

theorem mem_keys_of_get? {t : Table α} {key : Text} {v : α} (h : t.get? key = some v) :
    key ∈ t.keys := by
  induction t with
  | nil => simp [get?] at h
  | cons e t ih =>
    obtain ⟨k, w⟩ := e
    simp only [get?] at h
    split at h
    · next hk => simp [keys, hk]
    · simp only [keys, List.map_cons, List.mem_cons]
      exact .inr (ih h)

/-- The number of keys that are not among those seen. -/
def unseen (t : Table α) (seen : List Text) : Nat := (t.keys.filter (· ∉ seen)).length

private theorem filter_unseen_cons (keys seen : List Text) (key : Text) :
    keys.filter (· ∉ key :: seen) = (keys.filter (· ∉ seen)).filter (· ≠ key) := by
  rw [List.filter_filter]
  apply List.filter_congr
  intro k _
  by_cases hk : k = key <;> simp [hk]

theorem unseen_cons_lt {t : Table α} {seen : List Text} {key : Text} {v : α}
    (h : t.get? key = some v) (hs : key ∉ seen) : t.unseen (key :: seen) < t.unseen seen := by
  have hmem : key ∈ t.keys.filter (· ∉ seen) :=
    List.mem_filter.2 ⟨mem_keys_of_get? h, decide_eq_true hs⟩
  rw [unseen, unseen, filter_unseen_cons]
  exact List.length_filter_lt_length_iff_exists.2 ⟨key, hmem, by simp⟩

end Table

/-- The entries of a table that are reached from the keys of the agenda, in order, without those seen.
Keys that are not in the table are passed over. -/
def walk {α : Type} (order : WalkOrder) (leadsTo : α → List Text) (table : Table α)
    (seen agenda : List Text) : List (Text × α) :=
  match agenda with
  | [] => []
  | key :: waiting =>
    if hs : key ∈ seen then walk order leadsTo table seen waiting
    else
      match h : table.get? key with
      | none => walk order leadsTo table seen waiting
      | some v =>
        have : table.unseen (key :: seen) < table.unseen seen := Table.unseen_cons_lt h hs
        (key, v) ::
          walk order leadsTo table (key :: seen) (order.agenda waiting (leadsTo v))
termination_by (table.unseen seen, agenda.length)

/-- The names of the definitions that a schema refers to. -/
def Schema.refNames (s : Schema) : List Text := s.refs.map Schema.refName

def namedType (displayName : Text → Text) (definition : Text) (s : Schema) : NamedType where
  definition
  name := displayName definition
  module := Naming.moduleName definition
  schema := s

/-- The definitions that are reached from references, breadth first. -/
def closure (displayName : Text → Text) (definitions : Table Schema) (refs : List Text) :
    List NamedType :=
  (walk .breadthFirst Schema.refNames definitions [] (refs.map Schema.refName)).map
    fun (definition, s) => namedType displayName definition s

/-- The types that the signatures of operations use, with all types these lead to, depth first. -/
def groupTypes (operations : List Operation) (types : List NamedType) : List NamedType :=
  let registry := Table.ofEntries (types.map fun t => (t.definition, t))
  let roots := operations.flatMap Operation.typeRefs
  (walk .depthFirst (fun t => t.schema.refNames) registry [] roots).map Prod.snd

/-- A declared name that several definitions have. -/
structure Collision where
  name : Text
  definitions : List Text
deriving DecidableEq, Repr

/-- The declared names that several definitions have, in order of first use. -/
def collisions (types : List NamedType) : List Collision :=
  let byName := Table.groupBy NamedType.name types
  let listed := byName.map fun (name, ts) => ⟨name, firstOccurrences (ts.map NamedType.definition)⟩
  listed.filter fun c => 1 < c.definitions.length

def Collision.message (c : Collision) : Text :=
  "Type name collision: " ++ Text.quoted c.name ++ " is produced by " ++
    Text.join ", " c.definitions ++ "; the last definition wins"

end ClientGen
