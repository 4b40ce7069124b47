/-!
White space as the Unicode property `White_Space` lists it, and the trimming of texts by it. Control
separators U+001C to U+001F and the zero-width characters U+200B and U+FEFF are not white space.
-/
namespace FileFixture.Text

/-- The property `White_Space`: six short ranges and four single code points. -/
def isBlank (c : Char) : Bool :=
  let n := c.toNat
  (0x09 ≤ n && n ≤ 0x0D) || n == 0x20 || n == 0x85 || n == 0xA0 || n == 0x1680 ||
    (0x2000 ≤ n && n ≤ 0x200A) || n == 0x2028 || n == 0x2029 || n == 0x202F || n == 0x205F ||
    n == 0x3000

def trimStart (text : List Char) : List Char := text.dropWhile isBlank

def trimEnd (text : List Char) : List Char := (text.reverse.dropWhile isBlank).reverse

def trim (text : List Char) : List Char := trimEnd (trimStart text)

@[simp] theorem trimStart_nil : trimStart [] = [] := rfl
@[simp] theorem trimEnd_nil : trimEnd [] = [] := rfl
@[simp] theorem trim_nil : trim [] = [] := rfl

theorem trimStart_cons (c : Char) (text : List Char) :
    trimStart (c :: text) = if isBlank c then trimStart text else c :: text := by
  simp only [trimStart, List.dropWhile_cons]

/-- Nothing but white space. -/
def allBlank (text : List Char) : Bool := text.all isBlank

end FileFixture.Text
