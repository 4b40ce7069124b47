/-!
Values kept by their names, in ascending order of the names. Names compare by code points, which is also the
order of their bytes in UTF-8. The list of bindings is the view that every operation is described through.
-/
namespace FileFixture

structure Catalog (α : Type) where
  bindings : List (String × α)
  ascending : bindings.Pairwise fun a b => a.1 < b.1

namespace Catalog

variable {α : Type}

theorem ext {c d : Catalog α} (h : c.bindings = d.bindings) : c = d := by
  cases c; cases d; cases h; rfl

instance [DecidableEq α] : DecidableEq (Catalog α) := fun c d =>
  decidable_of_iff (c.bindings = d.bindings) ⟨ext, fun h => h ▸ rfl⟩

def empty : Catalog α := ⟨[], .nil⟩

def keys (c : Catalog α) : List String := c.bindings.map (·.1)

def values (c : Catalog α) : List α := c.bindings.map (·.2)

def size (c : Catalog α) : Nat := c.bindings.length

def find? (key : String) : List (String × α) → Option α
  | [] => none
  | (k, a) :: rest => if k = key then some a else find? key rest

@[simp] theorem find?_nil (key : String) : find? key ([] : List (String × α)) = none := rfl

theorem find?_cons (key k : String) (a : α) (rest : List (String × α)) :
    find? key ((k, a) :: rest) = if k = key then some a else find? key rest := rfl

theorem find?_isSome_iff {key : String} {bs : List (String × α)} :
    (find? key bs).isSome ↔ key ∈ bs.map (·.1) := by
  induction bs with
  | nil => simp
  | cons b bs ih =>
    rw [find?_cons, List.map_cons, List.mem_cons]
    split
    case isTrue h => simp [h]
    case isFalse h => rw [ih, or_iff_right (Ne.symm h)]

def get? (c : Catalog α) (key : String) : Option α := find? key c.bindings

def contains (c : Catalog α) (key : String) : Bool := (c.get? key).isSome

/-- Puts a binding in its place, over one of the same name. -/
def place (key : String) (a : α) : List (String × α) → List (String × α)
  | [] => [(key, a)]
  | (k, b) :: rest =>
    if key < k then (key, a) :: (k, b) :: rest
    else if key = k then (key, a) :: rest
    else (k, b) :: place key a rest

theorem mem_place {key : String} {a : α} {bs : List (String × α)} {p : String × α}
    (h : p ∈ place key a bs) : p = (key, a) ∨ p ∈ bs := by
  induction bs with
  | nil => simp_all [place]
  | cons b bs ih => grind [place]

theorem place_ascending {key : String} {a : α} {bs : List (String × α)}
    (h : bs.Pairwise fun a b => a.1 < b.1) : (place key a bs).Pairwise fun a b => a.1 < b.1 := by
  induction bs with
  | nil => simp [place]
  | cons b bs ih =>
    obtain ⟨k, b⟩ := b
    obtain ⟨hk, hbs⟩ := List.pairwise_cons.1 h
    unfold place
    split
    case isTrue hlt =>
      refine List.pairwise_cons.2 ⟨fun p hp => ?_, h⟩
      rcases List.mem_cons.1 hp with rfl | hp
      · exact hlt
      · exact String.lt_trans hlt (hk p hp)
    case isFalse hlt =>
      split
      case isTrue heq => subst heq; exact List.pairwise_cons.2 ⟨hk, hbs⟩
      case isFalse hne =>
        refine List.pairwise_cons.2 ⟨fun p hp => ?_, ih hbs⟩
        rcases mem_place hp with rfl | hp
        · exact Std.lt_of_le_of_ne (String.not_lt.1 hlt) (Ne.symm hne)
        · exact hk p hp

def insert (c : Catalog α) (key : String) (a : α) : Catalog α :=
  ⟨place key a c.bindings, place_ascending c.ascending⟩

@[simp] theorem get?_empty (key : String) : (empty : Catalog α).get? key = none := rfl

theorem find?_place (key k : String) (a : α) (bs : List (String × α)) :
    find? k (place key a bs) = if key = k then some a else find? k bs := by
  induction bs with
  | nil => simp [place, find?]
  | cons b bs ih => grind [place, find?]

theorem get?_insert (c : Catalog α) (key k : String) (a : α) :
    (c.insert key a).get? k = if key = k then some a else c.get? k := find?_place key k a c.bindings

@[simp] theorem get?_insert_self (c : Catalog α) (key : String) (a : α) :
    (c.insert key a).get? key = some a := by simp [get?_insert]

theorem contains_iff_mem_keys {c : Catalog α} {key : String} : c.contains key ↔ key ∈ c.keys :=
  find?_isSome_iff

/-- Changes the value of one name, if it has one. -/
def modify (c : Catalog α) (key : String) (f : α → α) : Catalog α :=
  ⟨c.bindings.map fun (k, a) => (k, if k = key then f a else a), by
    rw [List.pairwise_map]; exact c.ascending⟩

@[simp] theorem keys_modify (c : Catalog α) (key : String) (f : α → α) :
    (c.modify key f).keys = c.keys := by
  simp [keys, modify]

theorem get?_modify (c : Catalog α) (key k : String) (f : α → α) :
    (c.modify key f).get? k = if k = key then (c.get? k).map f else c.get? k := by
  obtain ⟨bs, hbs⟩ := c
  simp only [get?, modify]
  clear hbs
  induction bs with
  | nil => simp
  | cons b bs ih =>
    rw [List.map_cons, find?_cons, find?_cons, ih]
    by_cases hk : b.1 = k
    · subst hk; by_cases h : b.1 = key <;> simp [h]
    · simp [hk]

/-- The bindings from a name on. -/
def bindingsFrom (c : Catalog α) (key : String) : List (String × α) :=
  c.bindings.dropWhile fun b => b.1 < key

end Catalog
end FileFixture
