import FileFixture.Path
import Mathlib.Data.List.Induction

/-!
Normal form of paths. A list of names and the path that `render` makes of it determine each other, joining a
text to a path lets the text act on the components of the path, and the parent of a path has all of its
components but the last.
-/
namespace FileFixture.Path

/-- A component of a path in normal form. -/
structure IsName (part : List Char) : Prop where
  ne_nil : part ≠ []
  ne_dot : part ≠ ['.']
  ne_dots : part ≠ ['.', '.']
  plain : ∀ c ∈ part, isSeparator c = false

theorem isSeparator_slash : isSeparator '/' = true := rfl

theorem IsName.slash_notMem {part : List Char} (h : IsName part) : '/' ∉ part := fun hm =>
  Bool.false_ne_true ((h.plain '/' hm).symm.trans isSeparator_slash)

/-- The stack after the components of a text were met, one after the other. -/
def enter (stack : List (List Char)) (text : List Char) : List (List Char) :=
  (text.splitOnP isSeparator).foldl step stack

theorem resolve_eq_enter (text : List Char) : resolve text = (enter [] text).reverse := rfl

theorem enter_append {c : Char} (hc : isSeparator c = true) (stack : List (List Char))
    (a b : List Char) : enter stack (a ++ c :: b) = enter (enter stack a) b := by
  rw [enter, List.splitOnP_append_cons a b hc, List.foldl_append]
  rfl

theorem enter_plain {part : List Char} (h : ∀ c ∈ part, isSeparator c = false)
    (stack : List (List Char)) : enter stack part = step stack part := by
  rw [enter, List.splitOnP_eq_singleton h]
  rfl

theorem enter_nil (stack : List (List Char)) : enter stack [] = stack := by
  rw [enter_plain (by simp), step_empty]

theorem IsName.step {part : List Char} (h : IsName part) (stack : List (List Char)) :
    Path.step stack part = part :: stack := step_name stack h.ne_nil h.ne_dot h.ne_dots

theorem isName_of_step {stack : List (List Char)} {part : List Char}
    (hs : ∀ p ∈ stack, IsName p) (hp : ∀ c ∈ part, isSeparator c = false) :
    ∀ p ∈ step stack part, IsName p := by
  unfold step
  split
  case isTrue => exact hs
  case isFalse h₁ =>
    split
    case isTrue => exact fun p hm => hs p (List.mem_of_mem_tail hm)
    case isFalse h₂ =>
      intro p hm
      rcases List.mem_cons.mp hm with rfl | hm
      · exact ⟨fun h => h₁ (Or.inl h), fun h => h₁ (Or.inr h), h₂, hp⟩
      · exact hs p hm

theorem splitOnP_plain {f : Char → Bool} {text : List Char} :
    ∀ part ∈ text.splitOnP f, ∀ c ∈ part, f c = false := by
  induction text with
  | nil => simp
  | cons a text ih =>
    rw [List.splitOnP_cons_eq_if_modifyHead]
    cases hp : text.splitOnP f with
    | nil => exact absurd hp (List.splitOnP_ne_nil f text)
    | cons first rest =>
      rw [hp] at ih
      by_cases ha : f a = true
      · rw [if_pos ha]
        simpa using ih
      · rw [if_neg ha]
        simpa [ha] using ih

theorem isName_of_foldl {stack parts : List (List Char)} (hs : ∀ p ∈ stack, IsName p)
    (hp : ∀ part ∈ parts, ∀ c ∈ part, isSeparator c = false) :
    ∀ p ∈ parts.foldl step stack, IsName p := by
  induction parts generalizing stack with
  | nil => exact hs
  | cons part parts ih =>
    rw [List.forall_mem_cons] at hp
    exact ih (isName_of_step hs hp.1) hp.2

theorem isName_of_enter {stack : List (List Char)} (hs : ∀ p ∈ stack, IsName p) (text : List Char) :
    ∀ p ∈ enter stack text, IsName p := isName_of_foldl hs splitOnP_plain

theorem isName_of_mem_components {path : String} : ∀ p ∈ components path, IsName p := by
  intro p hp
  rw [components, resolve_eq_enter, List.mem_reverse] at hp
  exact isName_of_enter (by simp) _ p hp

theorem render_concat (parts : List (List Char)) (part : List Char) :
    render (parts ++ [part]) = parts.flatMap ('/' :: ·) ++ '/' :: part := by
  cases parts <;> simp [render]

theorem render_of_ne_nil {parts : List (List Char)} (h : parts ≠ []) :
    render parts = parts.flatMap ('/' :: ·) := by
  cases parts with
  | nil => exact absurd rfl h
  | cons => rfl

/-- The same text, said with the slashes between the components. -/
theorem render_eq_intercalate (parts : List (List Char)) : render parts = '/' :: ['/'].intercalate parts := by
  induction parts with
  | nil => rfl
  | cons part parts ih =>
    by_cases hn : parts = []
    · simp [hn, render]
    · rw [render_of_ne_nil (by simp), List.flatMap_cons, ← render_of_ne_nil hn, ih,
        List.intercalate_cons_of_ne_nil hn]
      simp

theorem enter_flatMap {parts : List (List Char)} (h : ∀ p ∈ parts, IsName p)
    (stack : List (List Char)) :
    enter stack (parts.flatMap ('/' :: ·)) = parts.reverse ++ stack := by
  induction parts using List.reverseRecOn with
  | nil => exact enter_nil stack
  | append_singleton parts part ih =>
    have hpart : IsName part := h part (by simp)
    have hparts := ih fun p hp => h p (by simp [hp])
    rw [List.flatMap_append, List.flatMap_singleton, enter_append isSeparator_slash, hparts,
      enter_plain hpart.plain, hpart.step]
    simp

theorem enter_render {parts : List (List Char)} (h : ∀ p ∈ parts, IsName p)
    (stack : List (List Char)) : enter stack (render parts) = parts.reverse ++ stack := by
  by_cases hn : parts = []
  · subst hn
    exact enter_append isSeparator_slash stack [] [] |>.trans (by simp [enter_nil])
  · rw [render_of_ne_nil hn, enter_flatMap h]

/-- The path with these components. -/
def ofComponents (parts : List (List Char)) : String := String.ofList (render parts)

theorem normalize_eq (path : String) : normalize path = ofComponents (components path) := rfl

@[simp] theorem ofComponents_nil : ofComponents [] = root := rfl

theorem components_ofComponents {parts : List (List Char)} (h : ∀ p ∈ parts, IsName p) :
    components (ofComponents parts) = parts := by
  rw [components, ofComponents, String.toList_ofList, resolve_eq_enter, enter_render h]
  simp

@[simp] theorem components_normalize (path : String) : components (normalize path) = components path :=
  components_ofComponents isName_of_mem_components

@[simp] theorem normalize_normalize (path : String) : normalize (normalize path) = normalize path := by
  rw [normalize_eq, components_normalize, normalize_eq]

@[simp] theorem components_root : components root = [] := by
  have h : ∀ p ∈ ([] : List (List Char)), IsName p := fun p hp => absurd hp List.not_mem_nil
  rw [← ofComponents_nil, components_ofComponents h]

@[simp] theorem normalize_root : normalize root = root := by
  rw [normalize_eq, components_root, ofComponents_nil]

/-- A path in normal form is told by its components. -/
theorem components_inj {p q : String} (hp : normalize p = p) (hq : normalize q = q)
    (h : components p = components q) : p = q := by
  rw [← hp, ← hq, normalize_eq, normalize_eq, h]

/-- Joining a text lets it act on the components, the last of them on top. -/
theorem components_join (base name : String) :
    components (join base name) = (enter (components base).reverse name.toList).reverse := by
  have hb : (components base).reverse = enter [] base.toList := by
    rw [components, resolve_eq_enter, List.reverse_reverse]
  rw [join, components_normalize, hb, ← enter_append isSeparator_slash, components,
    resolve_eq_enter]
  simp

theorem join_eq (base name : String) : join base name = ofComponents (components (join base name)) := by
  rw [join, components_normalize, normalize_eq]

theorem normalize_join (base name : String) : normalize (join base name) = join base name :=
  normalize_normalize _

theorem components_join_name {name : String} (h : IsName name.toList) (base : String) :
    components (join base name) = components base ++ [name.toList] := by
  rw [components_join, enter_plain h.plain, h.step]
  simp

theorem join_name {name : String} (h : IsName name.toList) (base : String) :
    join base name = ofComponents (components base ++ [name.toList]) := by
  rw [join_eq, components_join_name h]

/-- What follows the last slash is the base name. -/
theorem baseName_append {name : List Char} (h : '/' ∉ name) (start : List Char) :
    baseName (String.ofList (start ++ '/' :: name)) = String.ofList name := by
  have htake : (name.reverse ++ '/' :: start.reverse).takeWhile (· != '/') = name.reverse := by
    rw [List.takeWhile_append_of_pos, List.takeWhile_cons]
    · simp
    · intro c hc
      have hm : c ∈ name := List.mem_reverse.mp hc
      simpa using fun hs : c = '/' => h (hs ▸ hm)
  rw [baseName, String.toList_ofList, List.reverse_append, List.reverse_cons, List.append_assoc,
    List.singleton_append, htake, List.reverse_reverse]

theorem baseName_concat {part : List Char} (h : IsName part) (parts : List (List Char)) :
    baseName (ofComponents (parts ++ [part])) = String.ofList part := by
  rw [ofComponents, render_concat, baseName_append h.slash_notMem]

theorem toList_baseName_ofComponents {parts : List (List Char)} (h : ∀ p ∈ parts, IsName p) :
    (baseName (ofComponents parts)).toList = parts.getLast?.getD [] := by
  cases parts using List.reverseRecOn with
  | nil => rfl
  | append_singleton parts part =>
    rw [baseName_concat (h part (by simp)), String.toList_ofList, List.getLast?_concat, Option.getD_some]

theorem baseName_join {name : String} (h : IsName name.toList) (base : String) :
    baseName (join base name) = name := by
  rw [join_name h, baseName_concat h, String.ofList_toList]

/-- The path without its last component. -/
def parent (path : String) : String := ofComponents (components path).dropLast

theorem parent_join {name : String} (h : IsName name.toList) (base : String) :
    parent (join base name) = normalize base := by
  rw [parent, components_join_name h, List.dropLast_concat, normalize_eq]

end FileFixture.Path
