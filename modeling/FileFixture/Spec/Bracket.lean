/-!
Brackets in a path spec. A round pair holds tags, a square pair holds children. Two counts are kept of them.
Where a text is split, both kinds are counted together, and a closer with nothing to close counts for
nothing. Where a group is closed, only the kind that opened it counts.
-/
namespace FileFixture.Spec

inductive Bracket where
  | round
  | square
  deriving DecidableEq, Repr

namespace Bracket

def opener : Bracket → Char
  | .round => '('
  | .square => '['

def closer : Bracket → Char
  | .round => ')'
  | .square => ']'

def ofOpener? (c : Char) : Option Bracket :=
  if c = '(' then some .round else if c = '[' then some .square else none

@[simp] theorem ofOpener?_opener (b : Bracket) : ofOpener? b.opener = some b := by cases b <;> rfl

theorem ofOpener?_eq_some_iff {c : Char} {b : Bracket} : ofOpener? c = some b ↔ c = b.opener := by
  constructor
  · unfold ofOpener?
    split
    · intro h; cases h; assumption
    · split
      · intro h; cases h; assumption
      · simp
  · rintro rfl; simp

/-- How many characters stand before the closer that balances one open bracket of this kind, with
`inner` more of the kind open inside it. -/
def reach? (b : Bracket) : (inner : Nat) → List Char → Option Nat
  | _, [] => none
  | inner, c :: text =>
    if c = b.opener then (b.reach? (inner + 1) text).map (· + 1)
    else if c = b.closer then
      match inner with
      | 0 => some 0
      | inner + 1 => (b.reach? inner text).map (· + 1)
    else (b.reach? inner text).map (· + 1)

end Bracket

def isOpener (c : Char) : Bool := c == '(' || c == '['

def isCloser (c : Char) : Bool := c == ')' || c == ']'

/-- Where the bracket at a position is closed. There is no answer if no bracket opens there. -/
def closing? (text : List Char) (position : Nat) : Option Nat :=
  match text.drop position with
  | [] => none
  | c :: rest =>
    (Bracket.ofOpener? c).bind fun b => (b.reach? 0 rest).map (position + 1 + ·)

/-- The depth after a character. -/
def deepen (depth : Nat) (c : Char) : Nat :=
  if isOpener c then depth + 1 else if isCloser c then depth - 1 else depth

def depthAfter (depth : Nat) (text : List Char) : Nat := text.foldl deepen depth

@[simp] theorem depthAfter_nil (depth : Nat) : depthAfter depth [] = depth := rfl
@[simp] theorem depthAfter_cons (depth : Nat) (c : Char) (text : List Char) :
    depthAfter depth (c :: text) = depthAfter (deepen depth c) text := rfl
theorem depthAfter_append (depth : Nat) (s t : List Char) :
    depthAfter depth (s ++ t) = depthAfter (depthAfter depth s) t := List.foldl_append

/-- The pieces between those separators that stand outside all brackets; there is one piece at least. -/
def splitFrom (separator : Char) : (depth : Nat) → List Char → List (List Char)
  | _, [] => [[]]
  | depth, c :: text =>
    if c = separator ∧ depth = 0 ∧ ¬(isOpener c ∨ isCloser c) then [] :: splitFrom separator depth text
    else (splitFrom separator (deepen depth c) text).modifyHead (c :: ·)

def split (separator : Char) (text : List Char) : List (List Char) := splitFrom separator 0 text

@[simp] theorem splitFrom_nil (separator : Char) (depth : Nat) : splitFrom separator depth [] = [[]] := rfl

theorem splitFrom_cons (separator : Char) (depth : Nat) (c : Char) (text : List Char) :
    splitFrom separator depth (c :: text) =
      if c = separator ∧ depth = 0 ∧ ¬(isOpener c ∨ isCloser c) then
        [] :: splitFrom separator depth text
      else (splitFrom separator (deepen depth c) text).modifyHead (c :: ·) := rfl

theorem splitFrom_ne_nil (separator : Char) (depth : Nat) (text : List Char) :
    splitFrom separator depth text ≠ [] := by
  induction text generalizing depth with
  | nil => simp
  | cons c text ih =>
    rw [splitFrom_cons]
    split
    · simp
    · cases h : splitFrom separator (deepen depth c) text with
      | nil => exact absurd h (ih _)
      | cons p ps => simp

/-- A separator where the depth has come back to zero parts the pieces before it from those after it. -/
theorem splitFrom_append {separator : Char} (hs : ¬(isOpener separator ∨ isCloser separator)) {depth : Nat}
    (s t : List Char) (h : depthAfter depth s = 0) :
    splitFrom separator depth (s ++ separator :: t) =
      splitFrom separator depth s ++ splitFrom separator 0 t := by
  induction s generalizing depth with
  | nil =>
    obtain rfl : depth = 0 := h
    rw [List.nil_append, splitFrom_cons, if_pos ⟨rfl, rfl, hs⟩]
    rfl
  | cons c s ih =>
    rw [List.cons_append, splitFrom_cons, splitFrom_cons]
    split
    case isTrue hc =>
      obtain ⟨rfl, rfl, hc⟩ := hc
      have hd : deepen 0 c = 0 := by simp only [deepen]; grind
      rw [depthAfter_cons, hd] at h
      rw [ih h, List.cons_append]
    case isFalse =>
      rw [ih h]
      cases hp : splitFrom separator (deepen depth c) s with
      | nil => exact absurd hp (splitFrom_ne_nil separator _ s)
      | cons p ps => rfl

end FileFixture.Spec
