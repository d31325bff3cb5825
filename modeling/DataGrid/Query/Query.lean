import DataGrid.Query.Predicate
import DataGrid.Sorting

/-!
# Queries

A query lists the rows of one entity under an optional predicate and an order. An
aggregate query computes one value from a projection of a query's rows. A
`Context` is the base query of a grid: everything the grid asks for is a
restriction of it.
-/

namespace DataGrid

/-- The rows of an entity under a predicate, in an order. -/
structure Query where
  entity : String
  predicate : Option Predicate := none
  order : List OrderClause := []

namespace Query

/-- The query restricted by one more predicate. -/
def filtered (q : Query) (p : Option Predicate) : Query :=
  { q with predicate := Predicate.andOption q.predicate p }

/-- The query in another order. -/
def ordered (q : Query) (order : List OrderClause) : Query := { q with order := order }

private def renderWhere : Option Predicate → String
  | none => ""
  | some p => s!" WHERE {p.render}"

def render (q : Query) : String :=
  let order :=
    if q.order.isEmpty then ""
    else " ORDER BY " ++ ", ".intercalate (q.order.map (·.render))
  q.entity ++ renderWhere q.predicate ++ order

end Query

/-- The one value that an aggregate takes from each row. -/
inductive Projection where
  | field (path : Path) (kind : Kind)
  | count (counted : CorrelatedCount)

def Projection.render : Projection → String
  | field path _ => path.render
  | count counted => Predicate.renderCount counted

/-- What an aggregate computes. `greatest` and `least` are the extremes of values that are not
numbers. -/
inductive Aggregate where
  | sum | average | max | min | greatest | least | count
  deriving DecidableEq, Repr

def Aggregate.name : Aggregate → String
  | sum => "SUM"
  | average => "AVG"
  | max => "MAX"
  | min => "MIN"
  | greatest => "GREATEST"
  | least => "LEAST"
  | count => "COUNT"

/-- An aggregate over the projection of a query's rows. -/
structure AggregateQuery where
  source : Query
  projection : Projection
  aggregate : Aggregate

def AggregateQuery.render (q : AggregateQuery) : String :=
  let condition := match q.source.predicate with
    | none => ""
    | some p => s!" WHERE {p.render}"
  s!"SELECT {q.aggregate.name}(total_column) FROM (SELECT {q.projection.render} " ++
    s!"AS total_column FROM {q.source.entity}{condition}) AS totals"

/-- The base query of a grid. -/
structure Context where
  base : Query

namespace Context

/-- Every row of an entity. -/
def ofEntity (entity : String) : Context := ⟨{ entity := entity }⟩

def entity (ctx : Context) : String := ctx.base.entity

/-- The base query restricted by a predicate. -/
def filtered (ctx : Context) (p : Option Predicate) : Query := ctx.base.filtered p

/-- The rows of the base query that share the outer row's value at `path`. -/
def countSameValue (ctx : Context) (path : Path) : CorrelatedCount :=
  .mk ctx.base.entity ctx.base.predicate [(path, path)]

end Context

/-- A relation from a row to rows of another entity: pairs of a field of the row and a field of
the related one. -/
structure Relation where
  entity : String
  keys : List (String × String)
  deriving DecidableEq, Repr

/-- The count of the related rows, if every key is a path. -/
def Relation.count? (r : Relation) : Option CorrelatedCount :=
  (r.keys.mapM fun (outer, inner) => do
    return (← Path.parse? inner, ← Path.parse? outer)).map (.mk r.entity none ·)

end DataGrid
