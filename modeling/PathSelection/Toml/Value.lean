import PathSelection.Text.Basic

namespace PathSelection.Toml

/-- A value. Numbers with a fraction, dates and times are kept as they are written. -/
inductive Value where
  | string (text : Text)
  | integer (value : Int)
  | float (literal : Text)
  | boolean (value : Bool)
  | dateTime (literal : Text)
  | date (literal : Text)
  | time (literal : Text)
  | array (items : List Value)
  | table (entries : List (Text × Value))
deriving Repr, Inhabited

abbrev Table := List (Text × Value)

namespace Table

def get? (t : Table) (key : Text) : Option Value := t.lookup key

def has (t : Table) (key : Text) : Bool := (t.get? key).isSome

/-- Gives a key a value. A key that is there already keeps its position. -/
def put (t : Table) (key : Text) (value : Value) : Table :=
  if t.has key then t.map fun e => if e.1 = key then (key, value) else e else t ++ [(key, value)]

end Table

namespace Value

def kind : Value → Text
  | .string _ => "str"
  | .integer _ => "int"
  | .float _ => "float"
  | .boolean _ => "bool"
  | .dateTime _ => "datetime"
  | .date _ => "date"
  | .time _ => "time"
  | .array _ => "list"
  | .table _ => "dict"

def string? : Value → Option Text
  | .string t => some t
  | _ => none

def integer? : Value → Option Int
  | .integer n => some n
  | _ => none

def boolean? : Value → Option Bool
  | .boolean b => some b
  | _ => none

def table? : Value → Option Table
  | .table t => some t
  | _ => none

def strings? : Value → Option (List Text)
  | .string t => some [t]
  | .array vs => vs.mapM string?
  | _ => none

def integers? : Value → Option (List Int)
  | .integer n => some [n]
  | .array vs => vs.mapM integer?
  | _ => none

end Value
end PathSelection.Toml
