import RegressionGate.Settings.Basic
import RegressionGate.Text.Quoted
import RegressionGate.Toml.Document
import RegressionGate.Toml.Excerpt
import RegressionGate.Tree.Basic

/-! Settings files: TOML documents in which every key is optional and no other key may stand. -/

namespace RegressionGate.Settings

/-- Why a valid document is no settings file. -/
inductive SchemaCause
  | unknownKey (key : String)
  | wrongKind (found : Toml.Node) (expected : String)
  | unknownFormat (name : String)
  | noFormat
  | severalFormats
  | nonemptyTable
  | nonemptyTables
  | notTable (found : Toml.Node)
  | neitherStringNorTable

/-- A cause, and the stretch of the document that it is about when that is known yet. -/
structure SchemaFault where
  cause : SchemaCause
  span : Option Toml.Span

/-- Why there are no settings in a file. -/
inductive FileError
  | access (error : AccessError)
  | grammar
  | schema (document : List Char) (span : Toml.Span) (cause : SchemaCause)

/-! ### Wording -/

def floatText (x : Binary64) : String :=
  let text := x.plain
  if x.IsFinite ∧ '.' ∉ text.toList then text ++ ".0" else text

def foundText : Toml.Node → String
  | .scalar (.string text) _ => "string " ++ Text.quoted text
  | .scalar (.integer n) _ => "integer `" ++ toString n ++ "`"
  | .scalar (.float x) _ => "floating point `" ++ floatText x ++ "`"
  | .scalar (.boolean b) _ => "boolean `" ++ toString b ++ "`"
  | .scalar .dateTime _ => "map"
  | .array .. => "sequence"
  | .table .. => "map"
  | .tables .. => "sequence"

def kindText : Toml.Node → String
  | .scalar (.string _) _ => "string"
  | .scalar (.integer _) _ => "integer"
  | .scalar (.float _) _ => "float"
  | .scalar (.boolean _) _ => "boolean"
  | .scalar .dateTime _ => "datetime"
  | .array .. => "array"
  | .table true .. => "inline table"
  | .table false .. => "table"
  | .tables .. => "array of tables"

def keys : List String := ["threshold", "baseline", "current", "target_dir", "format", "strict"]

def nameList (names : List String) : String :=
  String.intercalate ", " (names.map fun n => "`" ++ n ++ "`")

def SchemaCause.message : SchemaCause → String
  | unknownKey key => "unknown field `" ++ key ++ "`, expected one of " ++ nameList keys
  | wrongKind found expected => "invalid type: " ++ foundText found ++ ", expected " ++ expected
  | unknownFormat name => "unknown variant `" ++ name ++ "`, expected `text` or `json`"
  | noFormat => "wanted exactly 1 element, found 0 elements"
  | severalFormats => "wanted exactly 1 element, more than 1 element"
  | nonemptyTable => "expected empty table"
  | nonemptyTables => "expected empty array"
  | notTable found => "expected table, found " ++ kindText found
  | neitherStringNorTable => "wanted string or table"

/-- The wording of an error. Of a text outside the grammar of TOML it says nothing: where such a
text goes wrong, and how that is put, is not modelled. -/
def FileError.message : FileError → String
  | access e => e.message
  | grammar => ""
  | schema document span cause => Toml.excerpt document span cause.message

/-! ### Reading -/

def faultAt (node : Toml.Node) (cause : SchemaCause) : SchemaFault := ⟨cause, node.span?⟩

def readThreshold (node : Toml.Node) : Except SchemaFault Binary64 :=
  match node with
  | .scalar (.float x) _ => .ok x
  | .scalar (.integer n) _ =>
    .ok (if n < 0 then -.ofNat n.natAbs else .ofNat n.natAbs)
  | _ => .error (faultAt node (.wrongKind node "f64"))

def readString (expected : String) (node : Toml.Node) : Except SchemaFault String :=
  match node with
  | .scalar (.string text) _ => .ok text
  | _ => .error (faultAt node (.wrongKind node expected))

def readBoolean (node : Toml.Node) : Except SchemaFault Bool :=
  match node with
  | .scalar (.boolean b) _ => .ok b
  | _ => .error (faultAt node (.wrongKind node "a boolean"))

def formatOf? (name : String) : Option ReportFormat :=
  if name = "text" then some .text else if name = "json" then some .json else none

/-- The content of a format that is written as a key has to be empty. -/
def checkEmpty (node : Toml.Node) : Except SchemaFault Unit :=
  match node with
  | .array [] _ | .table _ _ _ [] | .tables [] _ => .ok ()
  | .array .. | .table .. => .error (faultAt node .nonemptyTable)
  | .tables .. => .error (faultAt node .nonemptyTables)
  | .scalar .. => .error (faultAt node (.notTable node))

/-- A report format, written as its name or as a table with its name as the only key. -/
def readFormat (node : Toml.Node) : Except SchemaFault ReportFormat :=
  match node with
  | .scalar (.string name) _ =>
    match formatOf? name with
    | some f => .ok f
    | none => .error (faultAt node (.unknownFormat name))
  | .table _ _ _ [] => .error (faultAt node .noFormat)
  | .table _ _ _ [(key, content)] =>
    match formatOf? key.name with
    | some f => do
      checkEmpty content
      .ok f
    | none => .error ⟨.unknownFormat key.name, some key.span⟩
  | .table .. => .error (faultAt node .severalFormats)
  | _ => .error (faultAt node .neitherStringNorTable)

def readEntry (o : Overrides) (name : String) (node : Toml.Node) :
    Except SchemaFault Overrides := do
  if name = "threshold" then .ok { o with threshold := ← readThreshold node }
  else if name = "baseline" then .ok { o with baseline := ← readString "a string" node }
  else if name = "current" then .ok { o with current := ← readString "a string" node }
  else if name = "target_dir" then
    .ok { o with build := Path.ofString (← readString "path string" node) }
  else if name = "format" then .ok { o with format := ← readFormat node }
  else if name = "strict" then .ok { o with strict := ← readBoolean node }
  else .error ⟨.unknownKey name, none⟩

/-- The overrides that the entries of a document's root table give. A fault without a stretch of
its own is about the value, or failing that about the key. -/
def readEntries (document : List Char) (entries : Toml.Entries) : Except FileError Overrides :=
  entries.foldlM (fun o (key, node) =>
    (readEntry o key.name node).mapError fun f =>
      let span :=
        match f.cause with
        | .unknownKey _ => key.span
        | _ => (f.span.or node.span?).getD key.span
      .schema document span f.cause) {}

def ofText (text : String) : Except FileError Overrides :=
  match Toml.parse? text.toList with
  | some entries => readEntries text.toList entries
  | none => .error .grammar

def ofFile (tree : Tree) (path : Path) : Except FileError Overrides := do
  ofText (← (tree.readText path).mapError .access)

end RegressionGate.Settings
