import ElmSuite.Number.Binary64
import ElmSuite.Yaml.Node

/-!
The values that nodes of a YAML document stand for.  A collection is a value by its kind alone; what
is in it is known from its node.  Values may be keys, of which two can be the same one although they
differ.
-/

namespace ElmSuite.Yaml

/-- The kinds of collections. -/
inductive Collection
  | list
  | mapping
  | set
deriving DecidableEq, Repr

/-- A value. -/
inductive Value
  | null
  | bool (value : Bool)
  | int (value : Int)
  | float (value : Binary64)
  /-- The floating point value that is no number, read from some node unless it is the common
  one. -/
  | notNumber (origin : Option NodeNumber)
  | string (codes : Codes)
  | binary (content : List UInt8)
  | timestamp (time : Timestamp)
  | collection (kind : Collection)
deriving DecidableEq, Repr

namespace Value

/-- The name of the kind of a value. -/
def kindName : Value → String
  | .null => "NoneType"
  | .bool _ => "bool"
  | .int _ => "int"
  | .float _ => "float"
  | .notNumber _ => "float"
  | .string _ => "str"
  | .binary _ => "bytes"
  | .timestamp time => if time.time.isSome then "datetime" else "date"
  | .collection .list => "list"
  | .collection .mapping => "dict"
  | .collection .set => "set"

/-- Whether a value may be a key. -/
def isKey : Value → Bool
  | .collection _ => false
  | _ => true

/-- The number that a key counts as. -/
def asNumber? : Value → Option Int
  | .bool value => some (if value then 1 else 0)
  | .int value => some value
  | .float value => value.toInt?
  | _ => none

/-- Whether two keys are the same one.  Truth, falsehood and numbers compare by their value, and
timestamps by the moment they name. -/
def sameKey (a b : Value) : Bool :=
  match a.asNumber?, b.asNumber? with
  | some m, some n => m == n
  | some _, none => false
  | none, some _ => false
  | none, none =>
      match a, b with
      | .timestamp s, .timestamp t => s.isSame t
      | a, b => a == b

/-- Entries with a value put under a key, in place or at the end. -/
def putEntry (key value : Value) : List (Value × Value) → List (Value × Value)
  | [] => [(key, value)]
  | entry :: rest =>
      if sameKey entry.1 key then (entry.1, value) :: rest else entry :: putEntry key value rest

/-- Entries of which later ones win. -/
def gather (entries : List (Value × Value)) : List (Value × Value) :=
  entries.foldl (fun found entry => putEntry entry.1 entry.2 found) []

/-- A key as messages show it: text as it is, truth and falsehood as numbers. -/
def keyLabel : Value → String
  | .null => "None"
  | .bool value => if value then "1" else "0"
  | .int value => toString value
  | .float value => value.text
  | .notNumber _ => Binary64.nan.text
  | .string codes => codes.lossy
  | .binary content => Text.quoteBytes content
  | .timestamp time => time.text
  | .collection kind => kindName (.collection kind)

end Value

end ElmSuite.Yaml
