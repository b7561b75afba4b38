import RegressionGate.Binary64.Basic

/-! The content of a TOML document: keys, scalars, arrays and tables, each with the stretch of the
document that spells it. -/

namespace RegressionGate.Toml

/-- A stretch of a document, by the number of characters left at its start and behind its end. -/
structure Span where
  startLeft : Nat
  stopLeft : Nat
deriving DecidableEq, Repr

def Span.between (start stop : List Char) : Span := ⟨start.length, stop.length⟩

structure Key where
  name : String
  span : Span
deriving DecidableEq, Repr

inductive Scalar
  | string (text : String)
  | integer (n : Int)
  | float (x : Binary64)
  | boolean (b : Bool)
  | dateTime
deriving DecidableEq, Repr

/-- How a table came to be: by a header or braces of its own, as the parent of another header, or
by a dotted key. -/
inductive Origin
  | own
  | parent
  | dotted
deriving DecidableEq, Repr

/-- A value of a document. Tables keep their entries in order; those that only dotted keys or other
headers brought about have no stretch of their own. -/
inductive Node
  | scalar (value : Scalar) (span : Span)
  | array (elements : List Node) (span : Span)
  | table (isInline : Bool) (origin : Origin) (span : Option Span) (entries : List (Key × Node))
  | tables (elements : List Node) (span : Option Span)
deriving Inhabited

namespace Node

def span? : Node → Option Span
  | scalar _ span | array _ span => some span
  | table _ _ span _ | tables _ span => span

def find? (name : String) (entries : List (Key × Node)) : Option Node :=
  (entries.find? fun e => e.1.name == name).map Prod.snd

def replace (name : String) (node : Node) (entries : List (Key × Node)) : List (Key × Node) :=
  entries.map fun e => if e.1.name = name then (e.1, node) else e

end Node

end RegressionGate.Toml
