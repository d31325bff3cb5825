import DataGrid.Crash
import DataGrid.StableSort
import DataGrid.Store.Aggregation
import DataGrid.Store.Field

/-!
# A store of rows

A store holds named entities, each a list of records. `select` keeps the rows that
satisfy a predicate, in their stored order; `fetch` sorts them, and rows that tie
on every clause keep their order; `scalar` computes an aggregate of a projection.
A predicate or a count that names an entity that is not there is an error, and
only then: no stored value makes a predicate fail. Values of different types tie in
the order of rows, so that it may contradict itself, and a sort that comes upon this
ends the program.
-/

namespace DataGrid

open Number StableSort

/-- Why a query has no answer. -/
inductive QueryError where
  | unknownEntity (name : String)
  | execution (reason : String)
  | invalidAggregate (reason : String)
  /-- The program ends in the query. -/
  | crash (cause : Crash)
  deriving DecidableEq, Repr

namespace QueryError

def message : QueryError → String
  | unknownEntity name => s!"Unknown entity: {name}"
  | execution reason => s!"Execution error: {reason}"
  | invalidAggregate reason => s!"Invalid aggregate: {reason}"
  | crash cause => cause.message

/-- The error of a document that is no object of entities. -/
def malformedDocument : QueryError := execution "data document must be an object of entity arrays"

def notRows (entity : String) : QueryError :=
  execution s!"entity '{entity}' must be an array of records"

def notRecord (entity : String) : QueryError :=
  execution s!"entity '{entity}' contains a non-object row"

/-- The error of an aggregate that meets a value it cannot take. -/
def notNumeric (cause : NotNumeric) : QueryError :=
  invalidAggregate s!"{cause.aggregate.name} over non-numeric value {cause.value.render}"

end QueryError

/-- The elements that satisfy a condition which may fail; the first failure ends the search. -/
def keep {ε α : Type} (p : α → Except ε Bool) : List α → Except ε (List α)
  | [] => .ok []
  | a :: as =>
    match p a with
    | .error e => .error e
    | .ok true =>
      match keep p as with
      | .error e => .error e
      | .ok rest => .ok (a :: rest)
    | .ok false => keep p as

/-- Entities and their rows. A name that occurs twice means its first entity. -/
structure Store where
  entities : List (String × List Record) := []

namespace Store

/-- The rows of an entity. -/
def rows? (store : Store) (entity : String) : Option (List Record) :=
  store.entities.lookup entity

/-- The rows of an entity that has to be there. -/
def rows (store : Store) (entity : String) : Except QueryError (List Record) :=
  match store.rows? entity with
  | some rows => .ok rows
  | none => .error (.unknownEntity entity)

/-- The number of rows of an entity. -/
def length (store : Store) (entity : String) : Nat := ((store.rows? entity).getD []).length

/-- The store with the rows of an entity replaced, or the entity added. -/
def insert (store : Store) (entity : String) (rows : List Record) : Store :=
  ⟨(entity, rows) :: store.entities.filter (·.1 ≠ entity)⟩

/-- The items of a list as rows of an entity. -/
def records (entity : String) : List Json → Except QueryError (List Record)
  | [] => .ok []
  | .object fields :: rest => do return fields :: (← records entity rest)
  | _ :: _ => .error (.notRecord entity)

/-- The store with the entities that are the fields of a document. -/
def addEntities (store : Store) : Record → Except QueryError Store
  | [] => .ok store
  | (entity, .array items) :: rest => do
    addEntities (store.insert entity (← records entity items)) rest
  | (entity, _) :: _ => .error (.notRows entity)

/-- The store of a document: an object with a list of records for each entity. -/
def ofJson : Json → Except QueryError Store
  | .object fields => addEntities {} fields
  | _ => .error .malformedDocument

/-- Whether two rows agree on every pair of fields. A null field of the inner row agrees with
nothing. -/
def correlated (correlations : List (Path × Path)) (inner outer : Record) : Bool :=
  correlations.all fun (innerPath, outerPath) =>
    match inner.lookup? innerPath.segments, outer.lookup? outerPath.segments with
    | some a, some b => !a.isNull && a.sameValue b
    | _, _ => false

mutual

/-- Whether a row satisfies a predicate. Parts of a conjunction are tried from left to right,
and the first that does not hold or fails decides. -/
def holds (store : Store) : Predicate → Record → Except QueryError Bool
  | .compare path kind op value, row => .ok (op.holds ((row.read path kind).compare? value))
  | .matches path op pattern, row =>
    match row.lookup? path.segments with
    | some (.string s) => .ok (op.holds s pattern)
    | _ => .ok false
  | .count counted op bound, row =>
    match countRows store counted row with
    | .error e => .error e
    | .ok n => .ok (op.holds (some (Ord.compare n.toInt bound.toInt)))
  | .all parts, row => holdsAll store parts row

/-- Whether a row satisfies every predicate of a list. -/
def holdsAll (store : Store) : List Predicate → Record → Except QueryError Bool
  | [], _ => .ok true
  | p :: ps, row =>
    match holds store p row with
    | .error e => .error e
    | .ok false => .ok false
    | .ok true => holdsAll store ps row

/-- Whether a row satisfies a predicate, if there is one. -/
def holdsOption (store : Store) : Option Predicate → Record → Except QueryError Bool
  | none, _ => .ok true
  | some p, row => holds store p row

/-- The number of rows of a correlated count for an outer row. -/
def countRows (store : Store) : CorrelatedCount → Record → Except QueryError Int64
  | .mk entity filter correlations, outer =>
    match store.rows entity with
    | .error e => .error e
    | .ok rows =>
      match keep (fun row => holdsOption store filter row) rows with
      | .error e => .error e
      | .ok inner => .ok (wordOfCount (inner.filter (correlated correlations · outer)).length)

end

/-- The rows of a query's entity that satisfy its predicate, in stored order. -/
def select (store : Store) (q : Query) : Except QueryError (List Record) :=
  match store.rows q.entity with
  | .error e => .error e
  | .ok rows => keep (store.holdsOption q.predicate) rows

/-- The value of a sort field; a missing one counts as null. -/
def sortValue (row : Record) (path : Path) : Json := (row.lookup? path.segments).getD .null

/-- The order of two rows: the first clause that tells them apart decides. -/
def compareRows : List OrderClause → Record → Record → Ordering
  | [], _, _ => .eq
  | clause :: clauses, a, b =>
    (clause.direction.apply
      ((sortValue a clause.path).compare (sortValue b clause.path))).then
      (compareRows clauses a b)

/-- Rows in the order of clauses; rows that tie keep their order. The program ends where the sort
comes upon an order that contradicts itself. -/
def sortRows (clauses : List OrderClause) (rows : List Record) :
    Except QueryError (List Record) :=
  -- The order is asked of these rows alone, and may be in order for them where it is not for all.
  match stableSort (fun a b => compareRows clauses a.1 b.1) rows.attach with
  | none => .error (.crash .orderViolation)
  | some sorted => .ok sorted.unattach

/-- The selected rows in the query's order. -/
def fetch (store : Store) (q : Query) : Except QueryError (List Record) :=
  match store.select q with
  | .error e => .error e
  | .ok rows => sortRows q.order rows

/-- The value that a projection takes from a row. -/
def project (store : Store) : Projection → Record → Except QueryError Value
  | .field path kind, row => .ok (row.read path kind)
  | .count counted, row =>
    match store.countRows counted row with
    | .error e => .error e
    | .ok n => .ok (.int n)

/-- The values that a projection takes from a list of rows. -/
def projectAll (store : Store) (p : Projection) : List Record → Except QueryError (List Value)
  | [] => .ok []
  | row :: rows =>
    match store.project p row with
    | .error e => .error e
    | .ok v =>
      match projectAll store p rows with
      | .error e => .error e
      | .ok vs => .ok (v :: vs)

/-- The aggregate of the projected values that are not null. -/
def scalar (store : Store) (q : AggregateQuery) : Except QueryError Value :=
  match store.select q.source with
  | .error e => .error e
  | .ok rows =>
    match store.projectAll q.projection rows with
    | .error e => .error e
    | .ok values =>
      match q.aggregate.apply (values.filter (!·.isNull)) with
      | .error cause => .error (.notNumeric cause)
      | .ok value => .ok value

end Store

/-- What runs queries. -/
structure Executor where
  fetch : Query → Except QueryError (List Record)
  scalar : AggregateQuery → Except QueryError Value

/-- The executor that answers from a store. -/
def Store.executor (store : Store) : Executor := ⟨store.fetch, store.scalar⟩

end DataGrid
