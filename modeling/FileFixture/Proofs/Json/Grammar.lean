import FileFixture.Json.Value
import FileFixture.Proofs.Text.Digits

/-!
The grammar of JSON, as relations between a text and what is left of it behind a token or a value. White space may
stand around every value, key and mark, and every character of a string may be escaped. A value here is what the
grammar tells of it, so that a number is the digits it is written with.
-/
namespace FileFixture.Json

/-- A JSON value, numbers as they are written. -/
inductive Tree where
  | null
  | bool (b : Bool)
  | number (numeral : List Char)
  | string (s : String)
  | array (items : List Tree)
  | object (members : List (String × Tree))

/-- Any amount of white space, and the rest. -/
inductive Space : List Char → List Char → Prop
  | none {rest : List Char} : Space rest rest
  | more {c : Char} {text rest : List Char} :
      c ∈ [' ', '\t', '\n', '\r'] → Space text rest → Space (c :: text) rest

/-! Strings -/

def HexDigit (n : Nat) (c : Char) : Prop :=
  "0123456789abcdef".toList[n]? = some c ∨ "0123456789ABCDEF".toList[n]? = some c

/-- Four hexadecimal digits and the number that they make. -/
inductive HexUnit : Nat → List Char → List Char → Prop
  | digits {i j k l : Nat} {a b c d : Char} {rest : List Char} :
      HexDigit i a → HexDigit j b → HexDigit k c → HexDigit l d →
      HexUnit (((i * 16 + j) * 16 + k) * 16 + l) (a :: b :: c :: d :: rest) rest

/-- The letters behind a backslash, but for `u`, and what they stand for. -/
def shortEscapes : List (Char × Char) :=
  [('"', '"'), ('\\', '\\'), ('/', '/'), ('b', '\x08'), ('f', '\x0c'), ('n', '\n'), ('r', '\r'), ('t', '\t')]

/-- A character in a string: as it is, behind a backslash, by its number, or by the two numbers of a pair. -/
inductive SpellsChar (c : Char) : List Char → List Char → Prop
  | plain {rest : List Char} : 0x20 ≤ c.toNat → c ≠ '"' → c ≠ '\\' → SpellsChar c (c :: rest) rest
  | short {letter : Char} {rest : List Char} : (letter, c) ∈ shortEscapes → SpellsChar c ('\\' :: letter :: rest) rest
  | unit {n : Nat} {text rest : List Char} : HexUnit n text rest → c.toNat = n → SpellsChar c ('\\' :: 'u' :: text) rest
  | pair {high low : Nat} {text text' rest : List Char} :
      HexUnit high text ('\\' :: 'u' :: text') → HexUnit low text' rest →
      0xD800 ≤ high → high < 0xDC00 → 0xDC00 ≤ low → low < 0xE000 →
      c.toNat = 0x10000 + (high - 0xD800) * 0x400 + (low - 0xDC00) → SpellsChar c ('\\' :: 'u' :: text) rest

/-- Characters up to the quotation mark that closes them. -/
inductive SpellsChars : List Char → List Char → List Char → Prop
  | closing {rest : List Char} : SpellsChars [] ('"' :: rest) rest
  | char {c : Char} {cs text text' rest : List Char} :
      SpellsChar c text text' → SpellsChars cs text' rest → SpellsChars (c :: cs) text rest

inductive SpellsString (s : String) : List Char → List Char → Prop
  | quoted {text rest : List Char} : SpellsChars s.toList text rest → SpellsString s ('"' :: text) rest

/-! Numbers -/

open Text (IsDigits)

inductive IsFraction : List Char → Prop
  | none : IsFraction []
  | point {ds : List Char} : IsDigits ds → IsFraction ('.' :: ds)

inductive IsPower : List Char → Prop
  | none : IsPower []
  | power {e : Char} {sign ds : List Char} :
      e ∈ ['e', 'E'] → sign ∈ [[], ['+'], ['-']] → IsDigits ds → IsPower (e :: (sign ++ ds))

/-- A number. No zero stands before another digit of its whole part. -/
inductive IsNumeral : List Char → Prop
  | parts {sign whole fraction power : List Char} :
      sign ∈ [[], ['-']] → IsDigits whole → (whole.head? = some '0' → whole = ['0']) →
      IsFraction fraction → IsPower power → IsNumeral (sign ++ (whole ++ (fraction ++ power)))

/-! Values -/

/-- Parts with commas between them, one at least, and the bracket that closes them. -/
inductive Listed {α : Type} (Part : α → List Char → List Char → Prop) (closing : Char) :
    List α → List Char → List Char → Prop
  | last {a : α} {text rest : List Char} : Part a text (closing :: rest) → Listed Part closing [a] text rest
  | more {a : α} {as : List α} {text next rest : List Char} :
      Part a text (',' :: next) → Listed Part closing as next rest → Listed Part closing (a :: as) text rest

mutual
/-- The text begins with the value, and the rest comes behind it. -/
inductive Spells : Tree → List Char → List Char → Prop
  | null {rest : List Char} : Spells .null ("null".toList ++ rest) rest
  | bool (b : Bool) {rest : List Char} : Spells (.bool b) (boolText b ++ rest) rest
  | number {n rest : List Char} : IsNumeral n → Spells (.number n) (n ++ rest) rest
  | string {s : String} {text rest : List Char} : SpellsString s text rest → Spells (.string s) text rest
  | emptyArray {text rest : List Char} : Space text (']' :: rest) → Spells (.array []) ('[' :: text) rest
  | array {vs : List Tree} {text rest : List Char} :
      Listed SpellsAround ']' vs text rest → Spells (.array vs) ('[' :: text) rest
  | emptyObject {text rest : List Char} : Space text ('\x7d' :: rest) → Spells (.object []) ('\x7b' :: text) rest
  | object {ms : List (String × Tree)} {text rest : List Char} :
      Listed SpellsMember '\x7d' ms text rest → Spells (.object ms) ('\x7b' :: text) rest

/-- The value with white space around it. -/
inductive SpellsAround : Tree → List Char → List Char → Prop
  | around {v : Tree} {text start behind rest : List Char} :
      Space text start → Spells v start behind → Space behind rest → SpellsAround v text rest

/-- A key, a colon and a value. -/
inductive SpellsMember : String × Tree → List Char → List Char → Prop
  | keyed {key : String} {v : Tree} {text start behind after rest : List Char} :
      Space text start → SpellsString key start behind → Space behind (':' :: after) → SpellsAround v after rest →
      SpellsMember (key, v) text rest
end

/-- A whole text: a value and nothing else but white space. -/
def IsText (v : Tree) (text : String) : Prop := SpellsAround v text.toList []

/-! What comes behind a value is never mistaken for a part of it, and neither for the beginning of another. -/

/-- The characters that may come behind a value. -/
def delimiters : List Char := [' ', '\t', '\n', '\r', ',', ']', '\x7d']

/-- A delimiter comes next, or nothing. -/
def Ends (rest : List Char) : Prop := ∀ c ∈ rest.head?, c ∈ delimiters

theorem Ends.endsDigits {rest : List Char} (h : Ends rest) : Text.EndsDigits rest := by
  have hall : delimiters.all (!·.isDigit) = true := rfl
  exact fun c hc => Bool.not_eq_true' _ |>.mp (List.all_eq_true.mp hall c (h c hc))

theorem ends_nil : Ends [] := nofun

theorem ends_cons {c : Char} (hc : c ∈ delimiters) (rest : List Char) : Ends (c :: rest) := by
  rintro _ ⟨⟩
  exact hc

theorem Ends.of_space {text rest : List Char} (hrest : Ends rest) (h : Space text rest) : Ends text := by
  cases h with
  | none => exact hrest
  | more hc => exact ends_cons (List.mem_append_left [',', ']', '\x7d'] hc) _

theorem IsNumeral.exists_cons {n : List Char} (h : IsNumeral n) :
    ∃ c tail, n = c :: tail ∧ (c = '-' ∨ c.isDigit = true) := by
  cases h with
  | @parts sign whole fraction power hsign hwhole =>
    rcases List.mem_cons.mp hsign with rfl | hsign
    · cases whole with
      | nil => exact absurd rfl hwhole.ne_nil
      | cons d ds => exact ⟨d, _, rfl, Or.inr (hwhole.digit d List.mem_cons_self)⟩
    · rw [List.mem_singleton.mp hsign]
      exact ⟨'-', _, rfl, Or.inl rfl⟩

/-- Whether a text of the value can begin with the character. -/
def Tree.begins : Tree → Char → Bool
  | .null, c => c == 'n'
  | .bool b, c => c == 't' && b || c == 'f' && !b
  | .number _, c => c == '-' || c.isDigit
  | .string _, c => c == '"'
  | .array _, c => c == '['
  | .object _, c => c == '\x7b'

theorem Spells.exists_cons {v : Tree} {text rest : List Char} (h : Spells v text rest) :
    ∃ c tail, text = c :: tail ∧ v.begins c = true := by
  cases h with
  | null => exact ⟨'n', _, rfl, rfl⟩
  | bool b => cases b <;> exact ⟨_, _, rfl, rfl⟩
  | number hn =>
    obtain ⟨c, tail, rfl, hc⟩ := hn.exists_cons
    exact ⟨c, _, rfl, by simpa [Tree.begins] using hc⟩
  | string hs =>
    cases hs
    exact ⟨'"', _, rfl, rfl⟩
  | emptyArray | array => exact ⟨'[', _, rfl, rfl⟩
  | emptyObject | object => exact ⟨'\x7b', _, rfl, rfl⟩

theorem Spells.begins {v : Tree} {c : Char} {text rest : List Char} (h : Spells v (c :: text) rest) :
    v.begins c = true := by
  obtain ⟨d, _, htext, hd⟩ := h.exists_cons
  rw [(List.cons.inj htext).1]
  exact hd

theorem Spells.ne_nil {v : Tree} {text rest : List Char} (h : Spells v text rest) : text ≠ [] := by
  obtain ⟨c, tail, rfl, -⟩ := h.exists_cons
  exact List.cons_ne_nil c tail

theorem Tree.not_mem_delimiters {v : Tree} {c : Char} (h : v.begins c = true) : c ∉ delimiters := by
  intro hc
  simp only [delimiters, List.mem_cons, List.not_mem_nil, or_false] at hc
  rcases hc with rfl | rfl | rfl | rfl | rfl | rfl | rfl <;> cases v <;> exact Bool.false_ne_true h

theorem Tree.eq_null {v : Tree} (h : v.begins 'n' = true) : v = .null := by
  cases v with
  | null => rfl
  | bool | number | string | array | object => exact absurd h Bool.false_ne_true

/-! Nothing is put back: what is left is never longer than the text. -/

theorem Space.length_le {text rest : List Char} (h : Space text rest) : rest.length ≤ text.length := by
  induction h with
  | none => exact Nat.le_refl _
  | more _ _ ih => exact Nat.le_succ_of_le ih

theorem HexUnit.length_le {n : Nat} {text rest : List Char} (h : HexUnit n text rest) : rest.length ≤ text.length := by
  cases h
  simp only [List.length_cons]
  omega

theorem SpellsChar.length_lt {c : Char} {text rest : List Char} (h : SpellsChar c text rest) :
    rest.length < text.length := by
  cases h with
  | plain => exact Nat.lt_succ_self _
  | short => exact Nat.lt_succ_of_lt (Nat.lt_succ_self _)
  | unit h => exact Nat.lt_succ_of_le (Nat.le_succ_of_le h.length_le)
  | pair h h' =>
    have hlow := h'.length_le
    have hhigh := h.length_le
    simp only [List.length_cons] at hhigh ⊢
    omega

theorem SpellsChars.length_lt {cs text rest : List Char} (h : SpellsChars cs text rest) :
    cs.length < text.length ∧ rest.length < text.length := by
  induction h with
  | closing => exact ⟨Nat.succ_pos _, Nat.lt_succ_self _⟩
  | char h _ ih =>
    have hc := h.length_lt
    simp only [List.length_cons]
    omega

theorem SpellsString.length_lt {s : String} {text rest : List Char} (h : SpellsString s text rest) :
    rest.length < text.length := by
  cases h with
  | quoted h => exact Nat.lt_succ_of_lt h.length_lt.2

/-- One more part, and the comma behind it. -/
theorem Listed.length_cons {α : Type} {a : α} {as : List α} {text next rest : List Char}
    (ha : (',' :: next).length ≤ text.length) (has : as.length ≤ next.length ∧ rest.length < next.length) :
    (a :: as).length ≤ text.length ∧ rest.length < text.length :=
  ⟨Nat.le_trans (Nat.succ_le_succ has.1) ha, Nat.lt_trans has.2 ha⟩

mutual
theorem Spells.length_le {v : Tree} {text rest : List Char} : Spells v text rest → rest.length ≤ text.length
  | .null | .bool _ | .number _ => List.length_append ▸ Nat.le_add_left _ _
  | .string h => Nat.le_of_lt h.length_lt
  | .emptyArray h | .emptyObject h => Nat.le_succ_of_le (Nat.le_of_lt h.length_le)
  | .array h => Nat.le_succ_of_le (Nat.le_of_lt h.length_items.2)
  | .object h => Nat.le_succ_of_le (Nat.le_of_lt h.length_members.2)

theorem SpellsAround.length_le {v : Tree} {text rest : List Char} :
    SpellsAround v text rest → rest.length ≤ text.length
  | .around before h behind => Nat.le_trans behind.length_le (Nat.le_trans h.length_le before.length_le)

theorem SpellsMember.length_le {m : String × Tree} {text rest : List Char} :
    SpellsMember m text rest → rest.length ≤ text.length
  | .keyed before hkey colon h =>
    have hbehind := Nat.le_of_lt hkey.length_lt
    Nat.le_trans h.length_le (Nat.le_trans (Nat.le_of_lt colon.length_le) (Nat.le_trans hbehind before.length_le))

theorem Listed.length_items {vs : List Tree} {text rest : List Char} :
    Listed SpellsAround ']' vs text rest → vs.length ≤ text.length ∧ rest.length < text.length
  | .last h => ⟨Nat.le_trans (Nat.le_add_left 1 _) h.length_le, h.length_le⟩
  | .more h hs => Listed.length_cons h.length_le hs.length_items

theorem Listed.length_members {ms : List (String × Tree)} {text rest : List Char} :
    Listed SpellsMember '\x7d' ms text rest → ms.length ≤ text.length ∧ rest.length < text.length
  | .last h => ⟨Nat.le_trans (Nat.le_add_left 1 _) h.length_le, h.length_le⟩
  | .more h hs => Listed.length_cons h.length_le hs.length_members
end

end FileFixture.Json
