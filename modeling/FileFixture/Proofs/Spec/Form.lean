import FileFixture.Proofs.Spec.Balance
import FileFixture.Proofs.Spec.Groups

/-!
The form of a segment with groups: a name in front of the first opening bracket, and one group or two of different
kinds, with nothing but white space after each. A group ends where, counting from its start, its own brackets come out
even for the first time. A text has one such form at most, and this is how it is read; a text that has none is a name.
-/
namespace FileFixture.Spec

open Text (isBlank allBlank trim trimStart)

/-- A group with its brackets around it. -/
@[ext] structure Group where
  kind : Bracket
  inside : List Char
  deriving DecidableEq

namespace Group

variable {g : Group}

def text (g : Group) : List Char := g.kind.opener :: (g.inside ++ [g.kind.closer])

/-- The last bracket closes the first: there are as many openers of this kind as closers in the whole, but not in any
shorter text that it begins with. -/
structure Closed (g : Group) : Prop where
  balanced : g.kind.Balanced g.text
  first : ∀ start, start <+: g.text → start ≠ [] → start ≠ g.text → ¬g.kind.Balanced start

/-- The shorter texts that a group begins with end in front of its last bracket. -/
theorem exists_take_of_prefix {start : List Char} (h : start <+: g.text) (hnil : start ≠ []) (hne : start ≠ g.text) :
    ∃ m ≤ g.inside.length, start = g.kind.opener :: g.inside.take m := by
  have hlt : start.length < g.text.length := Nat.lt_of_le_of_ne h.length_le fun he => hne (h.eq_of_length he)
  have hpos : 0 < start.length := List.length_pos_iff.mpr hnil
  rw [text, List.length_cons, List.length_append, List.length_singleton] at hlt
  refine ⟨start.length - 1, by omega, ?_⟩
  obtain ⟨c, start, rfl⟩ := List.exists_cons_of_ne_nil hnil
  obtain ⟨rfl, hstart⟩ := List.cons_prefix_cons.mp h
  rw [List.length_cons] at hlt ⊢
  rw [List.prefix_iff_eq_take.mp hstart, List.take_append_of_le_length (by omega)]
  simp

theorem closed_iff_encloses : g.Closed ↔ g.kind.Encloses g.inside := by
  rw [Bracket.encloses_iff, ← Bracket.balanced_opener]
  constructor
  · rintro ⟨hbalanced, hfirst⟩
    refine ⟨hbalanced, fun m hm hsettles => ?_⟩
    have hstart : g.kind.opener :: g.inside.take (m + 1) <+: g.text :=
      List.cons_prefix_cons.mpr ⟨rfl, (List.take_prefix _ _).trans (List.prefix_append _ _)⟩
    have hne : g.kind.opener :: g.inside.take (m + 1) ≠ g.text := by
      intro he
      have hlength := congrArg List.length he
      simp only [text, List.length_cons, List.length_append, List.length_take, List.length_nil] at hlength
      omega
    exact hfirst _ hstart (List.cons_ne_nil _ _) hne (Bracket.balanced_opener.mpr hsettles)
  · rintro ⟨hbalanced, hfirst⟩
    refine ⟨hbalanced, fun start hstart hnil hne => ?_⟩
    obtain ⟨m, hm, rfl⟩ := exists_take_of_prefix hstart hnil hne
    rw [Bracket.balanced_opener]
    cases m with
    | zero => exact Bracket.not_settles_nil
    | succ m => exact hfirst m hm

instance (g : Group) : Decidable g.Closed := decidable_of_iff _ (closed_iff_encloses.trans Bracket.encloses_iff).symm

/-- What begins with a group is read as this group and the text after it. -/
theorem Closed.group?_append (h : g.Closed) (rest : List Char) : group? (g.text ++ rest) = some (g.kind, g.inside, rest) := by
  have htext : g.text ++ rest = g.kind.opener :: (g.inside ++ g.kind.closer :: rest) := by simp [text]
  rw [htext, group?_enclosed (closed_iff_encloses.mp h)]

end Group

namespace Segment

/-- A name with groups, piece by piece. -/
inductive Form where
  | one (pre : List Char) (group : Group) (after : List Char)
  | two (pre : List Char) (first : Group) (between : List Char) (second : Group) (after : List Char)
  deriving DecidableEq

namespace Form

def text : Form → List Char
  | one pre g after => pre ++ g.text ++ after
  | two pre g between g' after => pre ++ g.text ++ between ++ g'.text ++ after

def pre : Form → List Char
  | one pre .. => pre
  | two pre .. => pre

def groups : Form → List Group
  | one _ g _ => [g]
  | two _ g _ g' _ => [g, g']

/-- What the group of a kind holds, if there is one. -/
def inside (f : Form) (kind : Bracket) : Option (List Char) := (f.groups.find? (·.kind = kind)).map (·.inside)

def segment (f : Form) : Segment := ⟨trim f.pre, f.inside .round, f.inside .square⟩

/-- The name ends at the first opening bracket, each group at the bracket that closes it, and the rest is white space. -/
def Valid : Form → Prop
  | one pre g after => ('(' ∉ pre ∧ '[' ∉ pre) ∧ g.Closed ∧ allBlank after = true
  | two pre g between g' after =>
    ('(' ∉ pre ∧ '[' ∉ pre) ∧ (g.Closed ∧ g'.Closed ∧ g.kind ≠ g'.kind) ∧ allBlank between = true ∧ allBlank after = true

instance : DecidablePred Valid
  | one .. => inferInstanceAs (Decidable (_ ∧ _ ∧ _))
  | two .. => inferInstanceAs (Decidable (_ ∧ _ ∧ _ ∧ _))

theorem notMem_openers_iff {pre : List Char} : ('(' ∉ pre ∧ '[' ∉ pre) ↔ ∀ c ∈ pre, isOpener c = false := by
  simp only [isOpener, Bool.or_eq_false_iff, beq_eq_false_iff_ne]
  constructor
  · rintro ⟨hround, hsquare⟩ c hc
    exact ⟨fun h => hround (h ▸ hc), fun h => hsquare (h ▸ hc)⟩
  · intro h
    exact ⟨fun hm => (h _ hm).1 rfl, fun hm => (h _ hm).2 rfl⟩

theorem segment_one (pre : List Char) (g : Group) (after : List Char) :
    (one pre g after).segment = ofGroup (trim pre) g.kind g.inside := by
  obtain ⟨kind, inside⟩ := g
  cases kind <;> rfl

theorem segment_two (pre : List Char) {g g' : Group} (h : g.kind ≠ g'.kind) (between after : List Char) :
    (two pre g between g' after).segment = ofGroups (trim pre) g.kind g.inside g'.inside := by
  obtain ⟨kind, inside⟩ := g
  obtain ⟨kind', inside'⟩ := g'
  cases kind with
  | round =>
    cases kind' with
    | round => exact absurd rfl h
    | square => rfl
  | square =>
    cases kind' with
    | round => rfl
    | square => exact absurd rfl h

/-- These are the texts that are taken apart into groups. -/
theorem grouped_iff_exists {text : List Char} {s : Segment} :
    Grouped text s ↔ ∃ f : Form, f.Valid ∧ f.text = text ∧ f.segment = s := by
  constructor
  · rintro (@⟨pre, inside, rest, b, hpre, hi, hrest⟩ |
      @⟨pre, inside, between, inside', rest, a, b, hab, hpre, hi, hbetween, hi', hrest⟩)
    · refine ⟨one pre ⟨b, inside⟩ rest, ⟨notMem_openers_iff.mpr hpre, Group.closed_iff_encloses.mpr hi, hrest⟩, ?_,
        segment_one _ _ _⟩
      simp [Form.text, Group.text]
    · refine ⟨two pre ⟨a, inside⟩ between ⟨b, inside'⟩ rest, ⟨notMem_openers_iff.mpr hpre,
        ⟨Group.closed_iff_encloses.mpr hi, Group.closed_iff_encloses.mpr hi', hab⟩, hbetween, hrest⟩, ?_,
        segment_two _ hab _ _⟩
      simp [Form.text, Group.text]
  · rintro ⟨⟨pre, g, after⟩ | ⟨pre, g, between, g', after⟩, hf, rfl, rfl⟩
    · obtain ⟨hpre, hg, hafter⟩ := hf
      rw [segment_one]
      simpa [Form.text, Group.text] using
        Grouped.one (notMem_openers_iff.mp hpre) (Group.closed_iff_encloses.mp hg) hafter
    · obtain ⟨hpre, ⟨hg, hg', hkind⟩, hbetween, hafter⟩ := hf
      rw [segment_two _ hkind]
      simpa [Form.text, Group.text] using
        Grouped.two hkind (notMem_openers_iff.mp hpre) (Group.closed_iff_encloses.mp hg) hbetween
          (Group.closed_iff_encloses.mp hg') hafter

def first : Form → Group
  | one _ g _ => g
  | two _ g .. => g

/-- What stands behind the first group. -/
def rest : Form → List Char
  | one _ _ after => after
  | two _ _ between g' after => between ++ (g'.text ++ after)

variable {f f' : Form}

theorem text_eq (f : Form) : f.text = f.pre ++ (f.first.text ++ f.rest) := by
  cases f <;> simp [text, pre, first, rest]

theorem Valid.name (h : f.Valid) : ∀ c ∈ f.pre, isOpener c = false := by
  cases f <;> exact notMem_openers_iff.mp h.1

theorem Valid.first_closed (h : f.Valid) : f.first.Closed := by
  cases f with
  | one => exact h.2.1
  | two => exact h.2.1.1

theorem Valid.takeWhile_text (h : f.Valid) : f.text.takeWhile (!isOpener ·) = f.pre := by
  rw [text_eq, Group.text, List.cons_append, takeWhile_name h.name]

theorem Valid.group?_text (h : f.Valid) :
    group? (f.text.dropWhile (!isOpener ·)) = some (f.first.kind, f.first.inside, f.rest) := by
  rw [text_eq, Group.text, List.cons_append, dropWhile_name h.name, ← List.cons_append]
  exact h.first_closed.group?_append f.rest

/-- The name and the first group are found again, and what stands behind them. -/
theorem head_inj (hf : f.Valid) (hf' : f'.Valid) (h : f.text = f'.text) :
    f.pre = f'.pre ∧ f.first = f'.first ∧ f.rest = f'.rest := by
  have hpre : f.pre = f'.pre := by rw [← hf.takeWhile_text, h, hf'.takeWhile_text]
  have hread := hf.group?_text
  rw [h, hf'.group?_text, Option.some.injEq, Prod.mk.injEq, Prod.mk.injEq] at hread
  exact ⟨hpre, Group.ext hread.1.symm hread.2.1.symm, hread.2.2.symm⟩

theorem not_allBlank_group (between : List Char) (g : Group) (after : List Char) :
    allBlank (between ++ (g.text ++ after)) = false := by
  simp [Group.text, isBlank_opener]

/-- White space in front of a group does not hide where it begins. -/
theorem group_inj {between between' after after' : List Char} {g g' : Group} (hg : g.Closed) (hg' : g'.Closed)
    (hbetween : allBlank between = true) (hbetween' : allBlank between' = true)
    (h : between ++ (g.text ++ after) = between' ++ (g'.text ++ after')) :
    between = between' ∧ g = g' ∧ after = after' := by
  have hstart := congrArg trimStart h
  simp only [Group.text, List.cons_append] at hstart
  rw [trimStart_group hbetween, trimStart_group hbetween', ← List.cons_append, ← List.cons_append] at hstart
  have hread : some (g.kind, g.inside, after) = some (g'.kind, g'.inside, after') := by
    rw [← hg.group?_append, ← hg'.group?_append]
    exact congrArg group? hstart
  rw [Option.some.injEq, Prod.mk.injEq, Prod.mk.injEq] at hread
  obtain rfl : g = g' := Group.ext hread.1 hread.2.1
  obtain rfl := hread.2.2
  exact ⟨List.append_cancel_right h, rfl, rfl⟩

/-- A text has one form at most. -/
theorem text_inj (hf : f.Valid) (hf' : f'.Valid) (h : f.text = f'.text) : f = f' := by
  obtain ⟨hpre, hfirst, hrest⟩ := head_inj hf hf' h
  cases f with
  | one pre g after =>
    cases f' with
    | one pre' g' after' =>
      obtain ⟨rfl, rfl, rfl⟩ : pre = pre' ∧ g = g' ∧ after = after' := ⟨hpre, hfirst, hrest⟩
      rfl
    | two pre' g' between' second' after' =>
      have hafter : after = between' ++ (second'.text ++ after') := hrest
      have hblank : allBlank after = true := hf.2.2
      rw [hafter, not_allBlank_group] at hblank
      cases hblank
  | two pre g between second after =>
    cases f' with
    | one pre' g' after' =>
      have hafter : between ++ (second.text ++ after) = after' := hrest
      have hblank : allBlank after' = true := hf'.2.2
      rw [← hafter, not_allBlank_group] at hblank
      cases hblank
    | two pre' g' between' second' after' =>
      obtain ⟨-, ⟨-, hsecond, -⟩, hbetween, -⟩ := hf
      obtain ⟨-, ⟨-, hsecond', -⟩, hbetween', -⟩ := hf'
      obtain ⟨rfl, rfl, rfl⟩ := group_inj hsecond hsecond' hbetween hbetween' hrest
      obtain ⟨rfl, rfl⟩ : pre = pre' ∧ g = g' := ⟨hpre, hfirst⟩
      rfl

end Form

/-- A segment has groups just if its text has the form that says so, and then name and groups are those of the form. -/
theorem ofText_form (raw : List Char) :
    (∀ s, ofText raw = s ∧ (s.tags ≠ none ∨ s.children ≠ none) ↔
      ∃ f : Form, f.Valid ∧ f.text = raw ∧ f.segment = s) ∧
    (∀ f f' : Form, f.Valid → f'.Valid → f.text = raw → f'.text = raw → f = f') ∧
    ((¬∃ f : Form, f.Valid ∧ f.text = raw) → ofText raw = ⟨trim raw, none, none⟩) := by
  refine ⟨fun s => ?_, fun f f' hf hf' h h' => Form.text_inj hf hf' (h.trans h'.symm), fun hnone => ?_⟩
  · rw [← Form.grouped_iff_exists]
    constructor
    · rintro ⟨rfl, hgroups⟩
      exact grouped_of_groups hgroups
    · intro h
      exact ⟨ofText_of_grouped h, h.groups⟩
  · by_contra hne
    rcases grouped_or_literal raw with h | h
    · obtain ⟨f, hf, htext, -⟩ := Form.grouped_iff_exists.mp h
      exact hnone ⟨f, hf, htext⟩
    · exact hne h

/-- Opening brackets of the other kind inside of groups are no matter, but text behind a group is: then there is no form,
and the whole is the name. -/
theorem ofText_form_of_open_and_trailing :
    ofText " é (data=a[b) [x(] ".toList = ⟨"é".toList, some "data=a[b".toList, some "x(".toList⟩ ∧
    (∀ f : Form, f.Valid → f.text = " é (data=a[b) [x(] ".toList →
      f = .two " é ".toList ⟨.round, "data=a[b".toList⟩ " ".toList ⟨.square, "x(".toList⟩ " ".toList) ∧
    ofText "a(b)c".toList = ⟨"a(b)c".toList, none, none⟩ := by
  obtain ⟨hgroups, hunique, -⟩ := ofText_form " é (data=a[b) [x(] ".toList
  obtain ⟨hgroups', -, hliteral⟩ := ofText_form "a(b)c".toList
  have hf : (Form.two " é ".toList ⟨.round, "data=a[b".toList⟩ " ".toList ⟨.square, "x(".toList⟩ " ".toList).Valid := by
    decide
  have htext : (Form.two " é ".toList ⟨.round, "data=a[b".toList⟩ " ".toList ⟨.square, "x(".toList⟩ " ".toList).text =
      " é (data=a[b) [x(] ".toList := by
    decide
  have hnone : ¬∃ f : Form, f.Valid ∧ f.text = "a(b)c".toList := by
    rintro ⟨f, hvalid, hf'⟩
    have hsegment := (hgroups' f.segment).mpr ⟨f, hvalid, hf', rfl⟩
    rw [← hsegment.1] at hsegment
    exact absurd hsegment.2 (by decide)
  exact ⟨((hgroups _).mpr ⟨_, hf, htext, rfl⟩).1, fun f hvalid hf' => hunique f _ hvalid hf hf' htext, hliteral hnone⟩

end Segment
end FileFixture.Spec
