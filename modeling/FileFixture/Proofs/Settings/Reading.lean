import FileFixture.Settings
import FileFixture.Proofs.Json.Layout
import FileFixture.Proofs.Json.Records
import Mathlib.Data.List.Perm.Subperm

/-!
Settings in JSON. The draft holds the settings of the keys that were read, whatever their order, so an object whose
members are some of those of the settings is read as the settings if the members left out are those of the initial
settings. An object that was read has only keys that are known, and each of them once.
-/
namespace FileFixture.Settings

open Json Json.Reader
open Text (exists_of_bind)

/-- What the settings are where nothing is said. -/
def initial : Settings := ⟨[], false, none, none⟩

/-- The members that tell the settings, one for each key. -/
def fields (s : Settings) : List (String × Tree) :=
  [("specs", .array (s.specs.map .string)), ("logging", .bool s.logging),
    ("absPrefix", (Value.ofOption .string s.absPrefix).tree), ("absError", (Value.ofOption .string s.absError).tree)]

/-- The members, in any order, are those of the settings; where one is left out, the settings are the initial ones. -/
structure Describes (s : Settings) (ms : List (String × Tree)) : Prop where
  subperm : ms.Subperm s.fields
  omitted : ∀ m ∈ s.fields, m ∉ ms → m ∈ initial.fields

variable {s : Settings} {ms : List (String × Tree)}

/-! Reading in any order -/

/-- The draft with the settings of some keys. -/
def Draft.of (s : Settings) (seen : List String) : Draft where
  specs := if "specs" ∈ seen then some s.specs else none
  logging := if "logging" ∈ seen then some s.logging else none
  absPrefix := if "absPrefix" ∈ seen then some s.absPrefix else none
  absError := if "absError" ∈ seen then some s.absError else none

theorem readSpecs_reads (specs : List String) : readSpecs.Reads (.array (specs.map .string)) specs :=
  list_reads (List.forall₂_map_left_iff.mpr (List.forall₂_same.mpr fun s _ => string_reads s))

theorem readText?_reads (text : Option String) : readText?.Reads (Value.ofOption .string text).tree text := by
  cases text with
  | none => exact null_reads string
  | some s => exact (string_reads s).optional nofun

/-- The next member, if its key is new. -/
theorem accept_of_mem {m : String × Tree} (hm : m ∈ s.fields) {seen : List String} (hnew : m.1 ∉ seen) :
    ∃ value, (Draft.of s seen).accept m.1 = .ok value ∧ value.Reads m.2 (Draft.of s (m.1 :: seen)) := by
  simp only [fields, List.mem_cons, List.not_mem_nil, or_false] at hm
  rcases hm with rfl | rfl | rfl | rfl
  · have hdraft : Draft.of s ("specs" :: seen) = { Draft.of s seen with specs := some s.specs } := by simp [Draft.of]
    rw [hdraft]
    exact ⟨_, once_of_none (if_neg hnew) _ _, (readSpecs_reads s.specs).then_pure _⟩
  · have hdraft : Draft.of s ("logging" :: seen) = { Draft.of s seen with logging := some s.logging } := by
      simp [Draft.of]
    rw [hdraft]
    exact ⟨_, once_of_none (if_neg hnew) _ _, (bool_reads s.logging).then_pure _⟩
  · have hdraft : Draft.of s ("absPrefix" :: seen) = { Draft.of s seen with absPrefix := some s.absPrefix } := by
      simp [Draft.of]
    rw [hdraft]
    exact ⟨_, once_of_none (if_neg hnew) _ _, (readText?_reads s.absPrefix).then_pure _⟩
  · have hdraft : Draft.of s ("absError" :: seen) = { Draft.of s seen with absError := some s.absError } := by
      simp [Draft.of]
    rw [hdraft]
    exact ⟨_, once_of_none (if_neg hnew) _ _, (readText?_reads s.absError).then_pure _⟩

theorem accepts_of_forall_mem (hms : ∀ m ∈ ms, m ∈ s.fields) {seen : List String}
    (hnodup : (ms.map Prod.fst).Nodup) (hnew : ∀ m ∈ ms, m.1 ∉ seen) :
    Accepts Draft.accept (Draft.of s seen) ms (Draft.of s ((ms.map Prod.fst).reverse ++ seen)) := by
  induction ms generalizing seen with
  | nil => exact .none
  | cons m ms ih =>
    obtain ⟨hm, hms⟩ := List.forall_mem_cons.mp hms
    obtain ⟨hkey, hkeys⟩ := List.forall_mem_cons.mp hnew
    rw [List.map_cons, List.nodup_cons] at hnodup
    obtain ⟨value, haccept, hreads⟩ := accept_of_mem hm hkey
    have hnext : ∀ n ∈ ms, n.1 ∉ m.1 :: seen := by
      intro n hn hmem
      rcases List.mem_cons.mp hmem with heq | hmem
      · exact hnodup.1 (heq ▸ List.mem_map_of_mem hn)
      · exact hkeys n hn hmem
    rw [List.map_cons, List.reverse_cons, List.append_assoc]
    exact .member haccept hreads (ih hms hnodup.2 hnext)

theorem fields_keys (s : Settings) : s.fields.map Prod.fst = members := rfl

theorem Describes.nodup (h : Describes s ms) : (ms.map Prod.fst).Nodup := by
  obtain ⟨fs, hperm, hsublist⟩ := h.subperm
  have hkeys : (s.fields.map Prod.fst).Nodup := by
    rw [fields_keys]
    decide
  exact (hperm.map Prod.fst).nodup_iff.mp (hkeys.sublist (hsublist.map Prod.fst))

theorem Describes.mem_initial (h : Describes s ms) {m : String × Tree} (hm : m ∈ s.fields)
    (hkey : m.1 ∉ ms.map Prod.fst) : m ∈ initial.fields :=
  h.omitted m hm fun hmem => hkey (List.mem_map_of_mem hmem)

/-- The settings are found again in the draft, or are the initial ones. -/
theorem getD_ite {α : Type} {p : Prop} [Decidable p] {a d : α} (h : ¬p → a = d) :
    (if p then some a else none).getD d = a := by
  split
  case isTrue => rfl
  case isFalse hp => exact (h hp).symm

theorem specs_eq_nil (h : ("specs", .array (s.specs.map .string)) ∈ initial.fields) : s.specs = [] := by
  simpa [fields, initial] using h

theorem logging_eq_false (h : ("logging", .bool s.logging) ∈ initial.fields) : s.logging = false := by
  simpa [fields, initial] using h

theorem eq_none_of_mem_initial {key : String} {text : Option String}
    (h : (key, (Value.ofOption .string text).tree) ∈ initial.fields) : text = none := by
  cases text with
  | none => rfl
  | some text => simp [fields, initial, Value.ofOption, Value.tree] at h

theorem Describes.finish (h : Describes s ms) {seen : List String}
    (hseen : ∀ key ∈ ms.map Prod.fst, key ∈ seen) : (Draft.of s seen).finish = .ok s := by
  have hmem : ∀ m ∈ s.fields, m.1 ∉ seen → m ∈ initial.fields := fun m hm hkey =>
    h.mem_initial hm fun hms => hkey (hseen m.1 hms)
  simp only [fields, List.forall_mem_cons] at hmem
  obtain ⟨hspecs, hlogging, hstart, herror, -⟩ := hmem
  simp only [Draft.finish, Draft.of]
  rw [getD_ite fun hkey => specs_eq_nil (hspecs hkey), getD_ite fun hkey => logging_eq_false (hlogging hkey),
    getD_ite fun hkey => eq_none_of_mem_initial (hstart hkey),
    getD_ite fun hkey => eq_none_of_mem_initial (herror hkey)]

theorem read_reads (h : Describes s ms) : read.Reads (.object ms) s := by
  have haccepts := accepts_of_forall_mem (fun m hm => h.subperm.subset hm) h.nodup fun _ _ => List.not_mem_nil
  exact record_reads haccepts (h.finish (by simp))

theorem describes_fields (s : Settings) : Describes s s.fields where
  subperm := .refl _
  omitted _ hm hnot := absurd hm hnot

theorem tree_toJson (s : Settings) : s.toJson.tree = .object s.fields := by
  change Tree.object (("specs", .array (itemTrees (s.specs.map .string))) :: s.fields.tail) = _
  rw [itemTrees_eq_map, List.map_map]
  rfl

/-! Keys -/

/-- The keys whose values the draft has. -/
def Draft.has (d : Draft) (key : String) : Bool :=
  key == "specs" && d.specs.isSome || key == "logging" && d.logging.isSome ||
    key == "absPrefix" && d.absPrefix.isSome || key == "absError" && d.absError.isSome

theorem careful_of_accept {d : Draft} {key : String} {value : Reader Draft} (h : d.accept key = .ok value) :
    value.Careful := by
  unfold Draft.accept at h
  split at h
  case h_1 =>
    obtain ⟨-, rfl⟩ := of_once_eq_ok h
    exact (list_careful string_careful).then_pure _
  case h_2 =>
    obtain ⟨-, rfl⟩ := of_once_eq_ok h
    exact bool_careful.then_pure _
  case h_3 | h_4 =>
    obtain ⟨-, rfl⟩ := of_once_eq_ok h
    exact string_careful.optional.then_pure _
  case h_5 => cases h

theorem has_of_accept {d : Draft} {key : String} {value : Reader Draft} (h : d.accept key = .ok value) :
    key ∈ members ∧ d.has key = false ∧
      ∀ text d' rest, value text = .ok (d', rest) → ∀ k, d'.has k = (k == key || d.has k) := by
  unfold Draft.accept at h
  split at h
  case h_1 | h_2 | h_3 | h_4 =>
    obtain ⟨hnone, rfl⟩ := of_once_eq_ok h
    refine ⟨by decide, by simp [Draft.has, hnone], fun text d' rest hrun k => ?_⟩
    obtain ⟨p, -, hd⟩ := exists_of_bind hrun
    cases hd
    simp [Draft.has, hnone, Bool.or_assoc, Bool.or_comm]
  case h_5 => cases h

theorem keys_of_passes {d d' : Draft} {keys : List String} (h : Passes Draft.accept d keys d') :
    keys.Nodup ∧ ∀ k ∈ keys, k ∈ members ∧ d.has k = false := by
  induction h with
  | none => exact ⟨.nil, fun _ hk => absurd hk List.not_mem_nil⟩
  | @key d _ _ key keys _ _ _ haccept hvalue _ ih =>
    obtain ⟨hkey, hnew, hhas⟩ := has_of_accept haccept
    obtain ⟨hnodup, hkeys⟩ := ih
    -- what the draft has after this key is this key and what it had before
    have hrest : ∀ k ∈ keys, k ∈ members ∧ k ≠ key ∧ d.has k = false := fun k hk => by
      obtain ⟨hmem, hk'⟩ := hkeys k hk
      rw [hhas _ _ _ hvalue, Bool.or_eq_false_iff] at hk'
      exact ⟨hmem, ne_of_beq_false hk'.1, hk'.2⟩
    have hnotMem : key ∉ keys := fun hk => (hrest key hk).2.1 rfl
    refine ⟨List.nodup_cons.mpr ⟨hnotMem, hnodup⟩, List.forall_mem_cons.mpr ⟨⟨hkey, hnew⟩, ?_⟩⟩
    exact fun k hk => ⟨(hrest k hk).1, (hrest k hk).2.2⟩

/-- Of an object with a key that is not known, or a key that comes twice, nothing is made. -/
theorem ofJson_error {text : String} (htext : IsText (.object ms) text)
    (hkeys : ¬((ms.map Prod.fst).Nodup ∧ ∀ k ∈ ms.map Prod.fst, k ∈ members)) :
    ∃ fault, ofJson text = .error (.json fault) := by
  cases hrun : document read text with
  | error fault =>
    refine ⟨fault, ?_⟩
    rw [ofJson, hrun]
  | ok s =>
    cases htext with
    | around hspace hspells hbehind =>
      obtain ⟨p, hp, -⟩ := exists_of_bind hrun
      obtain ⟨d, hpasses⟩ := passes_of_record (fun _ _ _ => careful_of_accept) hspace hspells hp
      obtain ⟨hnodup, hmem⟩ := keys_of_passes hpasses
      exact absurd ⟨hnodup, fun k hk => (hmem k hk).1⟩ hkeys

theorem ofJson_of_isText (h : Describes s ms) {text : String} (htext : IsText (.object ms) text) :
    ofJson text = s.validate.map fun _ => s := by
  rw [ofJson, document_of_reads (read_reads h) htext]
  cases hvalid : s.validate <;> simp only [hvalid] <;> rfl

/-! Validation -/

theorem validate_eq_ok (h : ∀ spec ∈ s.specs, isBlankSpec spec = false) : s.validate = .ok () := by
  rw [validate, List.findIdx?_eq_none_iff.mpr h]

theorem validate_eq_error {i : Nat} (hi : i < s.specs.length) (hblank : isBlankSpec s.specs[i] = true)
    (hfirst : ∀ j (hj : j < i), isBlankSpec s.specs[j] = false) :
    s.validate = .error (.settings ("spec " ++ toString i ++ " is empty")) := by
  have hfind : s.specs.findIdx? isBlankSpec = some i :=
    List.findIdx?_eq_some_iff_getElem.mpr ⟨hi, hblank, fun j hj => by simp [hfirst j hj]⟩
  rw [validate, hfind]

/-- An object whose members are those of the settings, in any order, but for some of those that are the initial ones,
is read as the settings, or refused for the first blank spec of theirs; the compact text is one of such an object. With
a member more, of a key that is not known or is there already, it is refused as JSON, wherever the member stands. -/
theorem ofJson_described (s : Settings) :
    (∀ ms text, Describes s ms → IsText (.object ms) text →
      ((∀ spec ∈ s.specs, isBlankSpec spec = false) → ofJson text = .ok s) ∧
      ∀ i (hi : i < s.specs.length), isBlankSpec s.specs[i] = true →
        (∀ j (hj : j < i), isBlankSpec s.specs[j] = false) →
          ofJson text = .error (.settings ("spec " ++ toString i ++ " is empty"))) ∧
    (Describes s s.fields ∧ IsText (.object s.fields) s.toJson.compact) ∧
    ∀ before after m text, m.1 ∉ members ∨ m.1 ∈ (before ++ after).map Prod.fst →
      IsText (.object (before ++ m :: after)) text →
        ∃ fault, ofJson text = .error fault ∧ fault.code = "FS_JSON_ERROR" := by
  refine ⟨fun ms text h htext => ⟨fun hspecs => ?_, fun i hi hblank hfirst => ?_⟩, ⟨describes_fields s, ?_⟩, ?_⟩
  · rw [ofJson_of_isText h htext, validate_eq_ok hspecs]
    rfl
  · rw [ofJson_of_isText h htext, validate_eq_error hi hblank hfirst]
    rfl
  · rw [← tree_toJson]
    exact isText_compact s.toJson
  · intro before after m text hm htext
    have hkeys : ((before ++ m :: after).map Prod.fst).Perm (m.1 :: (before ++ after).map Prod.fst) :=
      List.perm_middle.map Prod.fst
    obtain ⟨fault, hfault⟩ := ofJson_error htext fun ⟨hnodup, hmem⟩ => by
      rw [hkeys.nodup_iff, List.nodup_cons] at hnodup
      rcases hm with hm | hm
      · exact hm (hmem m.1 (hkeys.symm.subset List.mem_cons_self))
      · exact hnodup.1 hm
    exact ⟨.json fault, hfault, rfl⟩

/-- Two members in another order and the others left out; the second spec is blank, and another `logging` is refused. -/
theorem ofJson_described_reversed :
    let logging : String × Value := ("logging", .bool true)
    let specs : String × Value := ("specs", .array [.string "/a", .string " \t"])
    ofJson (Value.object [logging, specs]).pretty = .error (.settings "spec 1 is empty") ∧
      ∃ fault, ofJson (Value.object [("logging", .null), specs, logging]).compact = .error fault ∧
        fault.code = "FS_JSON_ERROR" := by
  intro logging specs
  let s : Settings := ⟨["/a", " \t"], true, none, none⟩
  have hdescribes : Describes s [("logging", logging.2.tree), ("specs", specs.2.tree)] := by
    refine ⟨⟨_, .swap _ _ [], List.sublist_append_left _ (s.fields.drop 2)⟩, ?_⟩
    simp only [fields, List.forall_mem_cons]
    exact ⟨fun hm => absurd (.tail _ (.head _)) hm, fun hm => absurd (.head _) hm,
      fun _ => .tail _ (.tail _ (.head _)), fun _ => .tail _ (.tail _ (.tail _ (.head _))), nofun⟩
  have hpretty := isText_pretty (.object [logging, specs])
  have hcompact := isText_compact (.object [("logging", .null), specs, logging])
  exact ⟨((ofJson_described s).1 _ _ hdescribes hpretty).2 1 (by decide) (by decide) (by decide),
    (ofJson_described s).2.2 [] _ ("logging", .null) _ (Or.inr (by decide)) hcompact⟩

end FileFixture.Settings
