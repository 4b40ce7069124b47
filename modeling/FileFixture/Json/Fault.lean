import FileFixture.Decimal
import FileFixture.Text.Quoted
import FileFixture.Timestamp.Reader

/-!
What can be wrong with a JSON text: it ends too soon, it is no JSON, or it is JSON of another form than the
one asked for. Only the last kind says more, and what it says is fixed here.
-/
namespace FileFixture.Json

/-- A value met where another kind was asked for. -/
inductive Found where
  | null
  | boolean (b : Bool)
  | integer (n : Int)
  | decimal (d : Decimal)
  | string (s : String)
  | sequence
  | map
  deriving DecidableEq

inductive Mismatch where
  | wrongType (found : Found) (wanted : String)
  | outOfRange (n : Int) (wanted : String)
  | missingField (name : String)
  | duplicateField (name : String)
  | unknownField (name : String) (known : List String)
  | tooShort (length : Nat) (wanted : String)
  | time (fault : Timestamp.ReadFault)
  deriving DecidableEq

inductive Fault where
  | truncated
  | malformed
  | mismatch (m : Mismatch)
  deriving DecidableEq

/-- Decimals stand positionally from five places after the point to sixteen before it. -/
def decimalLayout : Decimal.Layout := ⟨-5, 15⟩

def Found.text : Found → String
  | .null => "null"
  | .boolean b => "boolean `" ++ (if b then "true" else "false") ++ "`"
  | .integer n => "integer `" ++ toString n ++ "`"
  | .decimal d => "floating point `" ++ String.ofList (decimalLayout.text d) ++ "`"
  | .string s => "string " ++ Text.quoted s
  | .sequence => "sequence"
  | .map => "map"

/-- Names between backquotes. -/
def fieldList (names : List String) : String :=
  String.intercalate ", " (names.map fun name => "`" ++ name ++ "`")

def Mismatch.message : Mismatch → String
  | .wrongType found wanted => "invalid type: " ++ found.text ++ ", expected " ++ wanted
  | .outOfRange n wanted => "invalid value: integer `" ++ toString n ++ "`, expected " ++ wanted
  | .missingField name => "missing field `" ++ name ++ "`"
  | .duplicateField name => "duplicate field `" ++ name ++ "`"
  | .unknownField name known =>
    "unknown field `" ++ name ++ "`, expected one of " ++ fieldList known
  | .tooShort length wanted => "invalid length " ++ toString length ++ ", expected " ++ wanted
  | .time fault => fault.message

/-- What is said of a value that is not of the form asked for. The wording for the other kinds is left out,
and so is the place in the text, with which every message ends. -/
def Fault.wording? : Fault → Option String
  | .truncated => none
  | .malformed => none
  | .mismatch m => some m.message

/-- The three categories, by the names that reports use. -/
def Fault.category : Fault → String
  | .truncated => "eof"
  | .malformed => "syntax"
  | .mismatch _ => "data"

end FileFixture.Json
