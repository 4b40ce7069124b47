/-!
Paths as texts and as lists of components. A path in normal form is `/`, or a slash before each of its
components, none of them empty, `.` or `..`. Everything here is defined on lists of characters first and
then stated for strings; the component list is the view that `normalize` computes through.
-/
namespace FileFixture.Path

def root : String := "/"

/-- A backslash separates components as a slash does. -/
def isSeparator (c : Char) : Bool := c == '/' || c == '\\'

/-- One component met on the way from the root. The stack holds the components so far, the last on top. -/
def step (stack : List (List Char)) (part : List Char) : List (List Char) :=
  if part = [] ∨ part = ['.'] then stack
  else if part = ['.', '.'] then stack.tail
  else part :: stack

@[simp] theorem step_empty (stack : List (List Char)) : step stack [] = stack := by simp [step]
@[simp] theorem step_dot (stack : List (List Char)) : step stack ['.'] = stack := by simp [step]
@[simp] theorem step_dots (stack : List (List Char)) : step stack ['.', '.'] = stack.tail := by
  simp [step]

theorem step_name (stack : List (List Char)) {part : List Char} (h₀ : part ≠ [])
    (h₁ : part ≠ ['.']) (h₂ : part ≠ ['.', '.']) : step stack part = part :: stack := by
  simp [step, h₀, h₁, h₂]

/-- The components that a text leads to from the root, outermost first. -/
def resolve (text : List Char) : List (List Char) :=
  ((text.splitOnP isSeparator).foldl step []).reverse

/-- A slash before each component; a lone slash where there is none. -/
def render : List (List Char) → List Char
  | [] => ['/']
  | part :: parts => (part :: parts).flatMap ('/' :: ·)

@[simp] theorem render_nil : render [] = ['/'] := rfl

def components (path : String) : List (List Char) := resolve path.toList

def normalize (path : String) : String := String.ofList (render (components path))

def join (base name : String) : String := normalize (base ++ "/" ++ name)

/-- What follows the last slash: the last component of a path in normal form, and empty for the root. -/
def baseName (path : String) : String :=
  String.ofList (path.toList.reverse.takeWhile (· != '/')).reverse

/-- The text after `start`, for a text that begins with it. -/
def dropStart? : (start text : List Char) → Option (List Char)
  | [], text => some text
  | _ :: _, [] => none
  | a :: start, c :: text => if a = c then dropStart? start text else none

theorem dropStart?_eq_some_iff {start text rest : List Char} :
    dropStart? start text = some rest ↔ text = start ++ rest := by
  induction start generalizing text with
  | nil => simp [dropStart?]
  | cons a start ih =>
    cases text with
    | nil => simp [dropStart?]
    | cons c text => by_cases h : a = c <;> simp [dropStart?, h, ih, Ne.symm]

/-- The path itself or anything below it. Below `/home/jo` there is `/home/jo/x`, but not `/home/john`. -/
def isWithin (path root : String) : Bool :=
  if root = Path.root then
    path.toList.head? == some '/'
  else
    match dropStart? root.toList path.toList with
    | some [] => true
    | some (c :: _) => c == '/'
    | none => false

/-- The name of an immediate child of a directory. -/
def childName (path dir : String) : Option String :=
  let base := if dir = Path.root then [] else dir.toList
  match dropStart? (base ++ ['/']) path.toList with
  | some name => if name = [] ∨ '/' ∈ name then none else some (String.ofList name)
  | none => none

/-- Both texts with exactly one slash where they meet. -/
def concat (base path : String) : String :=
  String.ofList ((base.toList.reverse.dropWhile (· == '/')).reverse ++
    '/' :: path.toList.dropWhile (· == '/'))

end FileFixture.Path
