import FileFixture.Proofs.Spec.Placement
import Mathlib.Data.List.Infix

/-!
No entry is declared before the place that it stands in. The cursor only moves to places that have been
declared or that lie above such a place, so its ancestors are always known.
-/
namespace FileFixture.Spec

open FileFixture.Path (IsName ofComponents components parent)

/-- Each entry stands in the root, in a place known before, or in one that an entry before it declares. -/
def ParentsFirst (known : List String) : List Entry → Prop
  | [] => True
  | e :: es => (parent e.path = Path.root ∨ parent e.path ∈ known) ∧ ParentsFirst (e.path :: known) es

namespace ParentsFirst

variable {known known' : List String} {a b : List Entry}

theorem mono (hk : ∀ p ∈ known, p ∈ known') (h : ParentsFirst known a) : ParentsFirst known' a := by
  induction a generalizing known known' with
  | nil => trivial
  | cons e a ih =>
    refine ⟨h.1.imp_right (hk _), ih ?_ h.2⟩
    intro p hp
    rcases List.mem_cons.mp hp with rfl | hp
    · exact List.mem_cons_self
    · exact List.mem_cons_of_mem _ (hk p hp)

theorem append (ha : ParentsFirst known a) (hb : ParentsFirst known' b)
    (hk : ∀ p ∈ known', p ∈ known ∨ p ∈ a.map (·.path)) : ParentsFirst known (a ++ b) := by
  induction a generalizing known with
  | nil => exact hb.mono fun p hp => (hk p hp).resolve_right (by simp)
  | cons e a ih =>
    refine ⟨ha.1, ih ha.2 fun p hp => ?_⟩
    rcases hk p hp with hp | hp
    · exact Or.inl (List.mem_cons_of_mem _ hp)
    · rw [List.map_cons, List.mem_cons] at hp
      rcases hp with rfl | hp
      · exact Or.inl List.mem_cons_self
      · exact Or.inr hp

theorem of_forall (h : ∀ e ∈ a, parent e.path = Path.root ∨ parent e.path ∈ known) :
    ParentsFirst known a := by
  induction a generalizing known with
  | nil => trivial
  | cons e a ih =>
    obtain ⟨he, ha⟩ := List.forall_mem_cons.mp h
    exact ⟨he, ih fun e' he' => (ha e' he').imp_right (List.mem_cons_of_mem _)⟩

/-- The place of any one entry is the root, known, or declared by an entry before it in the list. -/
theorem of_append {before after : List Entry} {e : Entry}
    (h : ParentsFirst known (before ++ e :: after)) :
    parent e.path = Path.root ∨ parent e.path ∈ known ∨ ∃ e' ∈ before, e'.path = parent e.path := by
  induction before generalizing known with
  | nil => exact h.1.imp_right Or.inl
  | cons e' before ih =>
    rcases ih h.2 with hr | hk | ⟨x, hx, hp⟩
    · exact Or.inl hr
    · rcases List.mem_cons.mp hk with he | hk
      · exact Or.inr (Or.inr ⟨e', List.mem_cons_self, he.symm⟩)
      · exact Or.inr (Or.inl hk)
    · exact Or.inr (Or.inr ⟨x, List.mem_cons_of_mem _ hx, hp⟩)

end ParentsFirst

/-- A cursor in normal form, which stands like all of its ancestors at the root or at a known place. -/
structure Reached (known : List String) (cursor : String) : Prop where
  normal : Path.normalize cursor = cursor
  ancestors : ∀ parts, parts <+: components cursor → ofComponents parts = Path.root ∨ ofComponents parts ∈ known

namespace Reached

variable {known known' : List String} {cursor : String}

theorem mono (hk : ∀ p ∈ known, p ∈ known') (h : Reached known cursor) : Reached known' cursor :=
  ⟨h.normal, fun parts hp => (h.ancestors parts hp).imp_right (hk _)⟩

theorem here (h : Reached known cursor) : cursor = Path.root ∨ cursor ∈ known := by
  have hc := h.ancestors (components cursor) (List.prefix_refl _)
  rwa [← Path.normalize_eq, h.normal] at hc

theorem root (known : List String) : Reached known Path.root := by
  refine ⟨by decide, fun parts hp => Or.inl ?_⟩
  rw [Path.components_root] at hp
  rw [List.prefix_nil.mp hp, Path.ofComponents_nil]

/-- Names that only move lead to the same place or to the one above. -/
theorem move {s : Segment} (h : Reached known cursor) (hm : s.isMove = true) (hs : s.spans = false) :
    Reached known (s.target cursor) := by
  refine ⟨Path.normalize_join _ _, fun parts hp => h.ancestors parts (hp.trans ?_)⟩
  rw [Segment.components_target hs]
  simp only [Segment.isMove, Bool.or_eq_true, beq_iff_eq] at hm
  rcases hm with (hn | hn) | hn
  · rw [hn, Path.step_empty, List.reverse_reverse]
  · rw [hn, Path.step_dot, List.reverse_reverse]
  · rw [hn, Path.step_dots, List.tail_reverse, List.reverse_reverse]
    exact List.dropLast_prefix _

/-- Any other name leads to a new place, which is known once it is declared. -/
theorem enter {s : Segment} (h : Reached known cursor) (hn : IsName s.name) (hs : s.spans = false) :
    Reached (s.target cursor :: known) (s.target cursor) := by
  have hc : components (s.target cursor) = components cursor ++ [s.name] := by
    rw [Segment.components_target hs, hn.step]
    simp
  refine ⟨Path.normalize_join _ _, fun parts hp => ?_⟩
  rw [hc] at hp
  rcases List.prefix_concat_iff.mp hp with he | hp
  · rw [he, ← hc, ← Path.normalize_eq, Segment.target, Path.normalize_join]
    exact Or.inr List.mem_cons_self
  · exact (h.ancestors parts hp).imp_right (List.mem_cons_of_mem _)

theorem parent_of_declared {e : Entry} (h : Reached known cursor) (he : DeclaredAt cursor e) :
    parent e.path = Path.root ∨ parent e.path ∈ known := by
  rw [he.parent_eq, h.normal]
  exact h.here

theorem children {s : Segment} (h : Reached known cursor) : ParentsFirst known (s.childEntries cursor) :=
  .of_forall fun _ he => h.parent_of_declared (mem_childEntries he)

/-- One segment keeps the order, and the cursor after it is reached again. -/
theorem segment (h : Reached known cursor) (text : List Char) :
    ParentsFirst known ((Segment.ofText text).entries cursor) ∧
      Reached (((Segment.ofText text).entries cursor).map (·.path) ++ known)
        ((Segment.ofText text).advance cursor) := by
  have hname : (Segment.ofText text).isMove = false → (Segment.ofText text).spans = false →
      IsName (Segment.ofText text).name := Segment.isName_of_declares
  have hown : (Segment.ofText text).spans = false →
      ∀ e ∈ (Segment.ofText text).ownEntries cursor, DeclaredAt cursor e :=
    fun hs e he => mem_ownEntries hs he
  generalize Segment.ofText text = s at hname hown ⊢
  unfold Segment.entries Segment.advance
  cases hs : s.spans with
  | true => exact ⟨trivial, h⟩
  | false =>
    rw [if_neg Bool.false_ne_true, if_neg Bool.false_ne_true]
    cases hm : s.isMove with
    | true =>
      have hown' : s.ownEntries cursor = [] := by rw [Segment.ownEntries, if_pos hm]
      have ht := h.move hm hs
      rw [hown', List.nil_append]
      exact ⟨ht.children, ht.mono fun p hp => List.mem_append_right _ hp⟩
    | false =>
      have hown' : (s.ownEntries cursor).map (·.path) = [s.target cursor] := by
        rw [Segment.ownEntries, if_neg (by simp [hm])]
        rfl
      have ht := h.enter (hname hm hs) hs
      have hfirst : ParentsFirst known (s.ownEntries cursor) :=
        .of_forall fun e he => h.parent_of_declared (hown hs e he)
      refine ⟨hfirst.append ht.children ?_, ht.mono ?_⟩
      · intro p hp
        rw [hown', List.mem_singleton]
        exact (List.mem_cons.mp hp).symm
      · intro p hp
        rw [List.map_append, hown']
        rcases List.mem_cons.mp hp with rfl | hp
        · exact List.mem_append_left _ (List.mem_append_left _ List.mem_cons_self)
        · exact List.mem_append_right _ hp

end Reached

theorem parentsFirst_declare {known : List String} {cursor : String} (h : Reached known cursor)
    (texts : List (List Char)) : ParentsFirst known (declare cursor (texts.map Segment.ofText)) := by
  induction texts generalizing known cursor with
  | nil => trivial
  | cons text texts ih =>
    obtain ⟨hfirst, hnext⟩ := h.segment text
    rw [List.map_cons, declare_cons]
    exact hfirst.append (ih hnext) fun p hp => (List.mem_append.mp hp).symm

theorem parentsFirst_parse (known : List String) (spec : String) : ParentsFirst known (parse spec) := by
  rw [parse_eq_declare]
  exact parentsFirst_declare (.root known) _

end FileFixture.Spec
