import FileFixture.Json.Fault
import FileFixture.Json.Value

/-!
Why an answer is refused. Two faults are the same when their codes and their texts are.
-/
namespace FileFixture

inductive Fault where
  | notFound (path : String)
  | notADirectory (path : String)
  | injected (message : String)
  | absPath (message : String)
  | settings (reason : String)
  | json (fault : Json.Fault)
  deriving DecidableEq

namespace Fault

def code : Fault → String
  | .notFound _ => "FS_NOT_FOUND"
  | .notADirectory _ => "FS_NOT_DIRECTORY"
  | .injected _ => "FS_INJECTED"
  | .absPath _ => "FS_ABS_PATH"
  | .settings _ => "FS_CONFIG"
  | .json _ => "FS_JSON_ERROR"

/-- The text of a fault. Of that of a fault in JSON it is the part that is fixed here. -/
def message : Fault → String
  | .notFound path => "Not found: " ++ path
  | .notADirectory path => "Not a directory: " ++ path
  | .injected message => message
  | .absPath message => message
  | .settings reason => "Invalid stub config: " ++ reason
  | .json fault => "JSON error: " ++ fault.wording?.getD ""

def isNotFound : Fault → Bool
  | .notFound _ => true
  | _ => false

def toJson (f : Fault) : Json.Value :=
  .object [("fsCode", .string f.code), ("message", .string f.message)]

def same (f g : Fault) : Bool := f.code == g.code && f.message == g.message

@[simp] theorem same_self (f : Fault) : f.same f = true := by simp [same]

end Fault
end FileFixture
