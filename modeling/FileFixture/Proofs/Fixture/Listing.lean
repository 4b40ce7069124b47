import FileFixture.Fixture.Query
import FileFixture.Proofs.Path.Within

/-!
What a listing contains. The names of the children of a directory come in the order of their paths, and a
listing that is not refused has them in this order.
-/
namespace FileFixture

theorem Answer.bind_result_eq_ok {α β : Type} {a : Answer α} {next : α → Answer β} {b : β} :
    (a.bind next).result = .ok b ↔ ∃ x, a.result = .ok x ∧ (next x).result = .ok b := by
  rw [bind]
  cases a.result with
  | error => simp
  | ok x => simp

namespace Fixture

variable {dir key : String} {seen : List String} {e : Entry} {rest : List (String × Entry)} {es : List Entry}

/-- A binding in a listing that is not refused is left out, or heads what comes after it. -/
theorem children_cons_ok (h : (children dir seen ((key, e) :: rest)).result = .ok es) :
    (children dir seen rest).result = .ok es ∨
      ∃ name es', Path.childName key dir = some name ∧ es = e :: es' ∧
        (children dir (name :: seen) rest).result = .ok es' := by
  unfold children at h
  split at h
  case h_1 => exact Or.inl h
  case h_2 name hname =>
    split at h
    case isTrue => exact Or.inl h
    case isFalse =>
      split at h
      case h_1 => cases h
      case h_2 =>
        cases hr : (children dir (name :: seen) rest).result with
        | error fault =>
          rw [Answer.map, hr] at h
          cases h
        | ok es' =>
          rw [Answer.map, hr] at h
          cases h
          exact Or.inr ⟨name, es', hname, rfl, hr⟩

theorem mem_of_children (h : (children dir seen rest).result = .ok es) :
    ∀ e ∈ es, ∃ key name, (key, e) ∈ rest ∧ Path.childName key dir = some name := by
  induction rest generalizing seen es with
  | nil =>
    cases h
    exact fun e he => absurd he List.not_mem_nil
  | cons b rest ih =>
    intro e he
    rcases children_cons_ok h with hr | ⟨name, es', hname, rfl, hr⟩
    · obtain ⟨key, name, hm, hn⟩ := ih hr e he
      exact ⟨key, name, List.mem_cons_of_mem _ hm, hn⟩
    · rcases List.mem_cons.mp he with rfl | he
      · exact ⟨b.1, name, List.mem_cons_self, hname⟩
      · obtain ⟨key, name, hm, hn⟩ := ih hr e he
        exact ⟨key, name, List.mem_cons_of_mem _ hm, hn⟩

/-- Where every entry is named after its path, a listing ascends by name. -/
theorem children_pairwise (hlt : rest.Pairwise fun a b => a.1 < b.1)
    (hnamed : ∀ b ∈ rest, b.1 ≠ Path.root → b.2.name = Path.baseName b.1)
    (h : (children dir seen rest).result = .ok es) : es.Pairwise fun a b => a.name < b.name := by
  have hname : ∀ b ∈ rest, ∀ n, Path.childName b.1 dir = some n → b.2.name = n := fun b hb n hn =>
    (hnamed b hb (Path.ne_root_of_childName hn)).trans (Path.baseName_of_childName hn)
  clear hnamed
  induction rest generalizing seen es with
  | nil =>
    cases h
    exact .nil
  | cons b rest ih =>
    obtain ⟨hb, hrest⟩ := List.pairwise_cons.mp hlt
    obtain ⟨hn, hns⟩ := List.forall_mem_cons.mp hname
    rcases children_cons_ok h with hr | ⟨name, es', hc, rfl, hr⟩
    · exact ih hrest hr hns
    · refine List.pairwise_cons.mpr ⟨fun e' he' => ?_, ih hrest hr hns⟩
      obtain ⟨key', name', hm, hc'⟩ := mem_of_children hr e' he'
      rw [hn name hc, hns _ hm name' hc']
      exact Path.childName_lt hc hc' (hb _ hm)

theorem list_result_eq_ok {f : Fixture} (h : (f.list dir).result = .ok es) :
    (children dir [] f.entries.bindings).result = .ok es := by
  obtain ⟨_, _, h⟩ := Answer.bind_result_eq_ok.mp h
  obtain ⟨es', hc, h⟩ := Answer.bind_result_eq_ok.mp h
  cases h
  exact hc

end Fixture
end FileFixture
