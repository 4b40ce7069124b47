import FileFixture.Proofs.Json.Grammar
import Mathlib.Data.List.Induction
import Mathlib.Tactic.SplitIfs

/-!
What is written is JSON: the compact and the pretty text of a value are texts of it in the grammar. They differ in
the white space between the parts alone.
-/
namespace FileFixture.Json

mutual
/-- The value as its texts tell it. -/
def Value.tree : Value → Tree
  | .null => .null
  | .bool b => .bool b
  | .number n => .number (numberText n)
  | .string s => .string s
  | .array items => .array (itemTrees items)
  | .object members => .object (memberTrees members)

def itemTrees : List Value → List Tree
  | [] => []
  | v :: vs => v.tree :: itemTrees vs

def memberTrees : List (String × Value) → List (String × Tree)
  | [] => []
  | (key, v) :: ms => (key, v.tree) :: memberTrees ms
end

theorem itemTrees_eq_map (vs : List Value) : itemTrees vs = vs.map Value.tree := by
  induction vs with
  | nil => rfl
  | cons v vs ih => rw [itemTrees, ih, List.map_cons]

def IsSpace (w : List Char) : Prop := ∀ c ∈ w, c ∈ [' ', '\t', '\n', '\r']

theorem isSpace_nil : IsSpace [] := fun _ hc => absurd hc List.not_mem_nil

theorem isSpace_newline (level : Nat) : IsSpace (Value.newline level) := by
  intro c hc
  rcases List.mem_cons.mp hc with rfl | hc
  · decide
  · rw [List.eq_of_mem_replicate hc]
    decide

theorem Space.of_isSpace {w : List Char} (h : IsSpace w) (rest : List Char) : Space (w ++ rest) rest := by
  induction w with
  | nil => exact .none
  | cons c w ih =>
    obtain ⟨hc, hw⟩ := List.forall_mem_cons.mp h
    exact .more hc (ih hw)

/-! Scalars -/

theorem hexDigit_digitChar {n : Nat} (h : n < 16) : HexDigit n n.digitChar := by
  have hall : ∀ n < 16, "0123456789abcdef".toList[n]? = some n.digitChar := by decide
  exact Or.inl (hall n h)

theorem leftpad_toDigits {n : Nat} (h : n < 0x20) :
    (Nat.toDigits 16 n).leftpad 4 '0' = ['0', '0', (n / 16).digitChar, (n % 16).digitChar] := by
  have hall : ∀ n < 0x20,
      (Nat.toDigits 16 n).leftpad 4 '0' = ['0', '0', (n / 16).digitChar, (n % 16).digitChar] := by decide
  exact hall n h

/-- The four digits of a control. -/
theorem hexUnit_leftpad {n : Nat} (h : n < 0x20) (rest : List Char) :
    HexUnit n ((Nat.toDigits 16 n).leftpad 4 '0' ++ rest) rest := by
  have hzero : HexDigit 0 '0' := Or.inl rfl
  have hhigh : HexDigit (n / 16) (n / 16).digitChar := hexDigit_digitChar (by omega)
  have hlow : HexDigit (n % 16) (n % 16).digitChar := hexDigit_digitChar (by omega)
  have hunit : HexUnit _ _ rest := .digits hzero hzero hhigh hlow
  have hn : ((0 * 16 + 0) * 16 + n / 16) * 16 + n % 16 = n := by omega
  rw [hn] at hunit
  rw [leftpad_toDigits h]
  exact hunit

theorem spellsChar_escapedChar (c : Char) (rest : List Char) : SpellsChar c (escapedChar c ++ rest) rest := by
  unfold escapedChar
  split_ifs with hquote hbackslash hb ht hn hf hr hcontrol
  case pos => subst hquote; exact .short (by decide)
  case pos => subst hbackslash; exact .short (by decide)
  case pos => subst hb; exact .short (by decide)
  case pos => subst ht; exact .short (by decide)
  case pos => subst hn; exact .short (by decide)
  case pos => subst hf; exact .short (by decide)
  case pos => subst hr; exact .short (by decide)
  case pos => exact .unit (hexUnit_leftpad hcontrol rest) rfl
  case neg => exact .plain (Nat.le_of_not_lt hcontrol) hquote hbackslash

theorem spellsChars_escaped (cs rest : List Char) : SpellsChars cs (cs.flatMap escapedChar ++ '"' :: rest) rest := by
  induction cs with
  | nil => exact .closing
  | cons c cs ih =>
    rw [List.flatMap_cons, List.append_assoc]
    exact .char (spellsChar_escapedChar c _) ih

theorem spellsString_stringText (s : String) (rest : List Char) : SpellsString s (stringText s ++ rest) rest := by
  have htext : stringText s ++ rest = '"' :: (s.toList.flatMap escapedChar ++ '"' :: rest) := by simp [stringText]
  rw [htext]
  exact .quoted (spellsChars_escaped _ _)

theorem isNumeral_numberText (n : Nat) : IsNumeral (numberText n) := by
  have hzero : (numberText n).head? = some '0' → numberText n = ['0'] := Text.toDigits_of_head?
  have h : IsNumeral ([] ++ (numberText n ++ ([] ++ []))) :=
    .parts List.mem_cons_self (Text.isDigits_toDigits n) hzero .none .none
  rwa [List.nil_append, List.append_nil, List.append_nil] at h

/-! Lists of parts -/

/-- A text of the value, whatever follows. -/
def Writes (v : Tree) (t : List Char) : Prop := ∀ rest, Spells v (t ++ rest) rest

/-- A text of the part, with white space before it and behind it. -/
def Fits {α : Type} (Part : α → List Char → List Char → Prop) (a : α) (t : List Char) : Prop :=
  ∀ text behind rest, Space text (t ++ behind) → Space behind rest → Part a text rest

theorem Writes.fits {v : Tree} {t : List Char} (h : Writes v t) : Fits SpellsAround v t :=
  fun _ behind _ hbefore hbehind => .around hbefore (h behind) hbehind

theorem Writes.fits_member {v : Tree} {t gap : List Char} (h : Writes v t) (hgap : IsSpace gap) (key : String) :
    Fits SpellsMember (key, v) (stringText key ++ ':' :: (gap ++ t)) := by
  intro text behind rest hbefore hbehind
  rw [List.append_assoc, List.cons_append, List.append_assoc] at hbefore
  exact .keyed hbefore (spellsString_stringText key _) .none (.around (.of_isSpace hgap _) (h behind) hbehind)

theorem listed_separated {α : Type} {Part : α → List Char → List Char → Prop} {closing : Char} {w w' : List Char}
    (hw : IsSpace w) (hw' : IsSpace w') {as : List α} {parts : List (List Char)}
    (h : List.Forall₂ (Fits Part) as parts) (hne : parts ≠ []) (rest : List Char) :
    Listed Part closing as (w ++ (separated (',' :: w) parts ++ (w' ++ closing :: rest))) rest := by
  induction h with
  | nil => exact absurd rfl hne
  | @cons a t as parts ha has ih =>
    by_cases hn : parts = []
    · subst hn
      cases has
      rw [separated, List.intercalate_singleton]
      exact .last (ha _ _ _ (.of_isSpace hw _) (.of_isSpace hw' _))
    · have htext : separated (',' :: w) (t :: parts) ++ (w' ++ closing :: rest) =
          t ++ ',' :: (w ++ (separated (',' :: w) parts ++ (w' ++ closing :: rest))) := by
        simp [separated, List.intercalate_cons_of_ne_nil hn]
      rw [htext]
      exact .more (ha _ _ _ (.of_isSpace hw _) .none) (ih hn)

section

variable {α : Type} {Part : α → List Char → List Char → Prop} {build : List α → Tree} {opening closing : Char}
  (hempty : ∀ text rest, Space text (closing :: rest) → Spells (build []) (opening :: text) rest)
  (hlisted : ∀ as text rest, Listed Part closing as text rest → Spells (build as) (opening :: text) rest)
  {as : List α} {parts : List (List Char)}

include hempty hlisted

theorem writes_compact (h : List.Forall₂ (Fits Part) as parts) :
    Writes (build as) (opening :: separated [','] parts ++ [closing]) := by
  intro rest
  by_cases hne : parts = []
  · subst hne
    cases h
    exact hempty _ _ .none
  · have hparts : Listed Part closing as _ rest := listed_separated isSpace_nil isSpace_nil h hne rest
    simpa using hlisted _ _ _ hparts

theorem writes_block (h : List.Forall₂ (Fits Part) as parts) (level : Nat) :
    Writes (build as) (Value.block level opening closing parts) := by
  intro rest
  by_cases hne : parts = []
  · subst hne
    cases h
    exact hempty _ _ .none
  · have hparts : Listed Part closing as _ rest :=
      listed_separated (isSpace_newline (level + 1)) (isSpace_newline level) h hne rest
    simpa [Value.block, hne] using hlisted _ _ _ hparts

end

mutual
theorem writes_compactText : ∀ v : Value, Writes v.tree v.compactText
  | .null => fun _ => .null
  | .bool b => fun _ => .bool b
  | .number n => fun _ => .number (isNumeral_numberText n)
  | .string s => fun rest => .string (spellsString_stringText s rest)
  | .array items => writes_compact (fun _ _ => .emptyArray) (fun _ _ _ => .array) (fits_compactItems items)
  | .object members => writes_compact (fun _ _ => .emptyObject) (fun _ _ _ => .object) (fits_compactMembers members)

theorem fits_compactItems :
    ∀ vs : List Value, List.Forall₂ (Fits SpellsAround) (itemTrees vs) (Value.compactItems vs)
  | [] => .nil
  | v :: vs => .cons (writes_compactText v).fits (fits_compactItems vs)

theorem fits_compactMembers :
    ∀ ms : List (String × Value), List.Forall₂ (Fits SpellsMember) (memberTrees ms) (Value.compactMembers ms)
  | [] => .nil
  | (key, v) :: ms => .cons ((writes_compactText v).fits_member isSpace_nil key) (fits_compactMembers ms)
end

theorem isSpace_blank : IsSpace [' '] := by simp [IsSpace]

mutual
theorem writes_prettyText : ∀ (level : Nat) (v : Value), Writes v.tree (v.prettyText level)
  | _, .null => fun _ => .null
  | _, .bool b => fun _ => .bool b
  | _, .number n => fun _ => .number (isNumeral_numberText n)
  | _, .string s => fun rest => .string (spellsString_stringText s rest)
  | level, .array items =>
    writes_block (fun _ _ => .emptyArray) (fun _ _ _ => .array) (fits_prettyItems (level + 1) items) level
  | level, .object members =>
    writes_block (fun _ _ => .emptyObject) (fun _ _ _ => .object) (fits_prettyMembers (level + 1) members) level

theorem fits_prettyItems :
    ∀ (level : Nat) (vs : List Value), List.Forall₂ (Fits SpellsAround) (itemTrees vs) (Value.prettyItems level vs)
  | _, [] => .nil
  | level, v :: vs => .cons (writes_prettyText level v).fits (fits_prettyItems level vs)

theorem fits_prettyMembers :
    ∀ (level : Nat) (ms : List (String × Value)),
      List.Forall₂ (Fits SpellsMember) (memberTrees ms) (Value.prettyMembers level ms)
  | _, [] => .nil
  | level, (key, v) :: ms =>
    .cons ((writes_prettyText level v).fits_member isSpace_blank key) (fits_prettyMembers level ms)
end

theorem Writes.isText {v : Tree} {t : List Char} (h : Writes v t) : IsText v (String.ofList t) := by
  have hspells := h []
  rw [List.append_nil] at hspells
  rw [IsText, String.toList_ofList]
  exact .around .none hspells .none

theorem isText_compact (v : Value) : IsText v.tree v.compact := (writes_compactText v).isText

theorem isText_pretty (v : Value) : IsText v.tree v.pretty := (writes_prettyText 0 v).isText

end FileFixture.Json
