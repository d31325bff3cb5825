import DataGrid.Total.Directive
import DataGrid.Value

/-!
# Totals

A total is the result of an aggregate or a calculation: a number, a temporal value
or a text, or absent when there was nothing to compute it from. Its default text
loses a number's trailing zeros; `render` applies a pattern and falls back to the
default text where the pattern does not fit.
-/

namespace DataGrid

open Number Calendar Text

/-- A computed total. -/
inductive Total where
  | absent
  | number (x : Decimal)
  | temporal (t : Temporal)
  | text (s : String)
  deriving DecidableEq

namespace Total

/-- A value as a total. Null, booleans and numbers without a decimal form have none. -/
def ofValue? (v : Value) : Option Total :=
  match v with
  | .int _ | .float _ | .decimal _ => v.asDecimal?.map number
  | .text s => some (text s)
  | _ => v.asTemporal?.map temporal

/-- The total of an aggregate's result: a result without a total form is absent. -/
def ofResult (v : Value) : Total := (ofValue? v).getD absent

def asDecimal? : Total → Option Decimal
  | number x => some x
  | _ => none

def asBinary64? (t : Total) : Option Binary64 := t.asDecimal?.map (·.toBinary64)

/-- The total as a value; an absent one is null. -/
def toValue : Total → Value
  | absent => .null
  | number x => .decimal x
  | temporal (.date d) => .date d
  | temporal (.time t) => .time t
  | temporal (.local m) => .dateTime m
  | temporal (.zoned m) => .zoned m
  | text s => .text s

/-- The default text; none for an absent total. -/
def text? : Total → Option String
  | absent => none
  | number x => some x.normalize.text
  | temporal t => some t.text
  | text s => some s

/-- The text under a pattern. -/
def format (t : Total) (pattern : String) : Except NoText String :=
  match t with
  | absent => .error .unfit
  | number x => (Directive.format pattern.toList (.number x)).map String.ofList
  | temporal t =>
    match t.format? pattern with
    | some shown => .ok shown
    | none => .error .unfit
  | text s => (Directive.format pattern.toList (.text s.toList)).map String.ofList

/-- The text under an optional pattern. Without a pattern, under a blank one and under one that
does not apply it is the default text. -/
def render (t : Total) (pattern : Option String) : Except Crash (Option String) :=
  match t.text?, pattern with
  | none, _ => .ok none
  | some default, none => .ok (some default)
  | some default, some p =>
    if (trim p.toList).isEmpty then .ok (some default)
    else
      match t.format p with
      | .ok shown => .ok (some shown)
      | .error .unfit => .ok (some default)
      | .error (.crash cause) => .error cause

end Total

end DataGrid
