import FileFixture.Catalog

/-!
A catalog as a map. Each name is bound once, so the list of bindings, the names with the values found under
them, and the values in the order of the names all tell the same.
-/
namespace FileFixture.Catalog

variable {α : Type}

theorem keys_pairwise (c : Catalog α) : c.keys.Pairwise (· < ·) := List.pairwise_map.mpr c.ascending

theorem find?_of_mem {bs : List (String × α)} (h : bs.Pairwise fun a b => a.1 < b.1) {key : String} {a : α}
    (hm : (key, a) ∈ bs) : find? key bs = some a := by
  induction bs with
  | nil => exact absurd hm List.not_mem_nil
  | cons b bs ih =>
    obtain ⟨k, b⟩ := b
    obtain ⟨hk, hbs⟩ := List.pairwise_cons.mp h
    rw [find?_cons]
    rcases List.mem_cons.mp hm with he | hm
    · cases he
      rw [if_pos rfl]
    · have hne : k ≠ key := fun he => String.lt_irrefl k (he ▸ hk _ hm)
      rw [if_neg hne, ih hbs hm]

theorem mem_of_find? {bs : List (String × α)} {key : String} {a : α} (h : find? key bs = some a) :
    (key, a) ∈ bs := by
  induction bs with
  | nil => exact absurd h (by simp)
  | cons b bs ih =>
    obtain ⟨k, b⟩ := b
    rw [find?_cons] at h
    split at h
    case isTrue hk =>
      cases h
      rw [hk]
      exact List.mem_cons_self
    case isFalse => exact List.mem_cons_of_mem _ (ih h)

theorem get?_eq_some_iff {c : Catalog α} {key : String} {a : α} :
    c.get? key = some a ↔ (key, a) ∈ c.bindings :=
  ⟨mem_of_find?, find?_of_mem c.ascending⟩

theorem mem_keys_iff {c : Catalog α} {key : String} : key ∈ c.keys ↔ ∃ a, c.get? key = some a := by
  rw [← contains_iff_mem_keys, contains, Option.isSome_iff_exists]

theorem values_map_some (c : Catalog α) : c.values.map some = c.keys.map c.get? := by
  rw [values, keys, List.map_map, List.map_map]
  apply List.map_congr_left
  intro b hb
  exact (get?_eq_some_iff.mpr hb).symm

theorem size_eq_length_keys (c : Catalog α) : c.size = c.keys.length := (List.length_map _).symm

theorem mem_keys_insert {c : Catalog α} {key k : String} {a : α} :
    k ∈ (c.insert key a).keys ↔ k = key ∨ k ∈ c.keys := by
  simp only [mem_keys_iff, get?_insert]
  by_cases h : key = k
  · simp [h]
  · simp [h, Ne.symm h]

theorem modify_of_absent {c : Catalog α} {key : String} (h : c.get? key = none) (f : α → α) :
    c.modify key f = c := by
  have hb : ∀ b ∈ c.bindings, (b.1, if b.1 = key then f b.2 else b.2) = id b := by
    intro b hb
    have hne : b.1 ≠ key := by
      intro he
      have hg : c.get? b.1 = some b.2 := get?_eq_some_iff.mpr hb
      rw [he, h] at hg
      cases hg
    rw [if_neg hne, id]
  exact ext ((List.map_congr_left hb).trans (List.map_id _))

end FileFixture.Catalog
