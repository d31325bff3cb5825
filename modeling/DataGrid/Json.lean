import DataGrid.Number.Binary64
import DataGrid.Number.Integer

/-!
# JSON values

Rows are JSON objects. An integer literal that fits a 64-bit word, signed or
unsigned, is an integer; every other number is a finite binary number, so `10.0`
is no integer. The fields of an object are sorted by name, each name once.

Two notions of equality matter: `structEq` is equality of documents, where an
integer never equals a binary number, and `sameValue` is equality of field
values, where numbers compare as binary numbers.
-/

namespace DataGrid

open Number

/-- A JSON number. -/
inductive JsonNumber where
  | integer (n : Int)
  | real (x : Finite)
  deriving DecidableEq, Repr

namespace JsonNumber

/-- The number as a binary number. -/
def toFinite : JsonNumber → Finite
  | integer n => Finite.ofInt n
  | real x => x

/-- The number as a signed 64-bit word, if it is an integer in that range. -/
def toInt64? : JsonNumber → Option Int64
  | integer n => int64At? n
  | real _ => none

/-- The order of the numbers as binary numbers. -/
def compare (a b : JsonNumber) : Ordering := a.toFinite.compare b.toFinite

/-- Equality of documents: an integer does not equal a binary number. -/
def structEq : JsonNumber → JsonNumber → Bool
  | integer a, integer b => a == b
  | real a, real b => a.compare b == .eq
  | _, _ => false

end JsonNumber

/-- A JSON value. -/
inductive Json where
  | null
  | bool (b : Bool)
  | number (n : JsonNumber)
  | string (s : String)
  | array (items : List Json)
  | object (fields : List (String × Json))
  deriving Inhabited

/-- The fields of an object. -/
abbrev Record := List (String × Json)

/-- The value of the field `name`. -/
def Record.get? (r : Record) (name : String) : Option Json := r.lookup name

/-- The record with the field `name` set: an old value is replaced, a new name is put in its
place in the order. -/
def Record.set (name : String) (value : Json) : Record → Record
  | [] => [(name, value)]
  | (n, v) :: rest =>
    if name < n then (name, value) :: (n, v) :: rest
    else if name = n then (name, value) :: rest
    else (n, v) :: Record.set name value rest

namespace Json

def isNull : Json → Bool
  | null => true
  | _ => false

mutual

/-- Equality of documents. -/
def structEq : Json → Json → Bool
  | null, null => true
  | bool a, bool b => a == b
  | number a, number b => a.structEq b
  | string a, string b => a == b
  | array as, array bs => itemsEq as bs
  | object as, object bs => fieldsEq as bs
  | _, _ => false

def itemsEq : List Json → List Json → Bool
  | [], [] => true
  | a :: as, b :: bs => structEq a b && itemsEq as bs
  | _, _ => false

def fieldsEq : List (String × Json) → List (String × Json) → Bool
  | [], [] => true
  | (n, a) :: as, (m, b) :: bs => n == m && structEq a b && fieldsEq as bs
  | _, _ => false

end

/-- Equality of field values: numbers are equal when they are the same binary number. -/
def sameValue : Json → Json → Bool
  | number a, number b => a.compare b == .eq
  | a, b => structEq a b

/-- The order of field values: null before all others, then within one type; values of
different types, lists and objects tie. -/
def compare : Json → Json → Ordering
  | null, null => .eq
  | null, _ => .lt
  | _, null => .gt
  | number a, number b => a.compare b
  | string a, string b => Ord.compare a b
  | bool a, bool b => Ord.compare a b
  | _, _ => .eq

/-- The value at the end of the path through the fields of objects. -/
def descend : Json → List String → Option Json
  | value, [] => some value
  | object fields, name :: rest => (Record.get? fields name).bind (descend · rest)
  | _, _ :: _ => none

end Json

/-- The value at a path of a record. -/
def Record.lookup? (r : Record) (path : List String) : Option Json :=
  match path with
  | [] => none
  | _ => Json.descend (.object r) path

end DataGrid
