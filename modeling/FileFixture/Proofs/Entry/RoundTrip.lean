import FileFixture.Fixture
import FileFixture.Proofs.Catalog
import FileFixture.Proofs.Json.Layout
import FileFixture.Proofs.Json.Records
import FileFixture.Proofs.Timestamp.Reading

/-!
Entries in JSON. An entry is read back from every text of its JSON value, so the writers may lay it out as they like:
nothing of an entry is lost in its compact text, and nothing of a table in its pretty text, but for a leap second that
is not at the end of a minute.
-/
namespace FileFixture.Entry

open Json Json.Reader
open Text (bind_of_ok)

/-- Four digits name the year that the entry was last changed in. -/
def Dated (e : Entry) : Prop := 0 ≤ e.modTime.date.year ∧ e.modTime.date.year ≤ 9999

instance (e : Entry) : Decidable e.Dated := by unfold Dated; infer_instance

/-- The entry as its text tells it. -/
def settled (e : Entry) : Entry := { e with modTime := e.modTime.settled }

theorem settled_eq_self_iff {e : Entry} : e.settled = e ↔ e.modTime.LeapAtEnd := by
  rw [← Timestamp.settled_eq_self_iff]
  constructor
  · exact congrArg modTime
  · intro h
    rw [settled, h]

theorem toJson_settled (e : Entry) : e.settled.toJson = e.toJson := by
  simp only [toJson, settled, Timestamp.toText_settled]

theorem readSize_reads (n : UInt64) : readSize.Reads (Value.number n.toNat).tree n := by
  have h := (natural_reads n.toNat_lt (Nat.le_refl (Nat.pow 2 64)) "u64").map UInt64.ofNat
  rw [UInt64.ofNat_toNat] at h
  exact h

theorem readMode_reads (n : UInt32) : readMode.Reads (Value.number n.toNat).tree n := by
  have h := (natural_reads n.toNat_lt (by decide : Nat.pow 2 32 ≤ Nat.pow 2 64) "u32").map UInt32.ofNat
  rw [UInt32.ofNat_toNat] at h
  exact h

theorem readTime_reads {t : Timestamp} (h₀ : 0 ≤ t.date.year) (h₁ : t.date.year ≤ 9999) :
    readTime.Reads (Value.string t.toText).tree t.settled := by
  intro text start rest hspace hspells hrest
  rw [readTime, bind_of_ok (stringAs_reads _ _ _ _ _ hspace hspells hrest), Timestamp.ofText_toText h₀ h₁]
  rfl

theorem readError_reads (error : Option String) : readError.Reads (Value.ofOption .string error).tree error := by
  cases error with
  | none => exact null_reads string
  | some s => exact (string_reads s).optional nofun

theorem byte_reads (b : UInt8) :
    (UInt8.ofNat <$> natural (Nat.pow 2 8) "u8" : Reader UInt8).Reads (Value.number b.toNat).tree b := by
  have h := (natural_reads b.toNat_lt (by decide : Nat.pow 2 8 ≤ Nat.pow 2 64) "u8").map UInt8.ofNat
  rw [UInt8.ofNat_toNat] at h
  exact h

theorem readContent_reads (content : Option (List UInt8)) :
    readContent.Reads (Value.ofOption (fun bytes => .array (bytes.map fun b => .number b.toNat)) content).tree
      content := by
  cases content with
  | none => exact null_reads _
  | some bytes =>
    refine Reads.optional ?_ nofun
    change (Reader.list _).Reads (.array (itemTrees _)) _
    rw [itemTrees_eq_map, List.map_map]
    refine list_reads (List.forall₂_map_left_iff.mpr (List.forall₂_same.mpr fun b _ => byte_reads b))

/-- The draft with every member of the entry. -/
def Draft.of (e : Entry) : Draft :=
  ⟨e.name, e.path, e.isDir, e.size, e.mode, e.modTime, some e.error, some e.content⟩

theorem accepts_members {e : Entry} (h : e.Dated) {ms : List (String × Tree)} (hms : e.toJson.tree = .object ms) :
    Accepts Draft.accept .empty ms (.of e.settled) := by
  cases hms
  refine .member rfl ((string_reads e.name).then_pure _) ?_
  refine .member rfl ((string_reads e.path).then_pure _) ?_
  refine .member rfl ((bool_reads e.isDir).then_pure _) ?_
  refine .member rfl ((readSize_reads e.size).then_pure _) ?_
  refine .member rfl ((readMode_reads e.mode).then_pure _) ?_
  refine .member rfl ((readTime_reads h.1 h.2).then_pure _) ?_
  refine .member rfl ((readError_reads e.error).then_pure _) ?_
  refine .member rfl ((readContent_reads e.content).then_pure _) ?_
  exact .none

theorem read_reads {e : Entry} (h : e.Dated) : Entry.read.Reads e.toJson.tree e.settled :=
  record_reads (accepts_members h rfl) rfl

theorem ofJson_of_isText {e : Entry} (h : e.Dated) {text : String} (htext : IsText e.toJson.tree text) :
    ofJson text = .ok e.settled := document_of_reads (read_reads h) htext

theorem isText_toJson (f : Fixture) : IsText (.array (f.entryList.map fun e => e.toJson.tree)) f.toJson := by
  have htext := isText_pretty (.array (f.entryList.map toJson))
  change IsText (.array (itemTrees _)) _ at htext
  rw [itemTrees_eq_map, List.map_map] at htext
  exact htext

theorem listOfJson_of_isText {es : List Entry} (h : ∀ e ∈ es, e.Dated) {text : String}
    (htext : IsText (.array (es.map fun e => e.toJson.tree)) text) : listOfJson text = .ok (es.map settled) := by
  refine document_of_reads (list_reads (List.forall₂_map_left_iff.mpr (List.forall₂_map_right_iff.mpr ?_))) htext
  exact List.forall₂_same.mpr fun e he => read_reads (h e he)

theorem settled_eq_of_compact {d e : Entry} (hd : d.Dated) (he : e.Dated) (h : d.toJson.compact = e.toJson.compact) :
    d.settled = e.settled := by
  have hread := ofJson_of_isText hd (isText_compact d.toJson)
  rw [h, ofJson_of_isText he (isText_compact e.toJson)] at hread
  exact (Except.ok.inj hread).symm

/-- Four digits name the year of the last change, and if it was in a leap second, this was at the end of a minute. -/
def Regular (e : Entry) : Prop := e.Dated ∧ e.modTime.LeapAtEnd

instance (e : Entry) : Decidable e.Regular := inferInstanceAs (Decidable (_ ∧ _))

namespace Regular

variable {e : Entry}

theorem settled_eq (h : e.Regular) : e.settled = e := settled_eq_self_iff.mpr h.2

theorem map_settled {es : List Entry} (h : ∀ e ∈ es, e.Regular) : es.map settled = es := by
  rw [List.map_congr_left fun e he => (h e he).settled_eq, List.map_id']

theorem ofJson_of_isText (h : e.Regular) {text : String} (htext : IsText e.toJson.tree text) : ofJson text = .ok e := by
  rw [Entry.ofJson_of_isText h.1 htext, h.settled_eq]

end Regular

/-- An entry of a year that four digits name, and of no leap second within a minute, is read back from its compact text,
and a table of such entries from its pretty text, as the array of the entries in the order of their keys. So the text
tells the entry, and also tells what is empty from what is not there. A leap second within a minute has the text of the
second after it, and is read as that. -/
theorem read_written :
    (∀ e : Entry, e.Regular → ofJson e.toJson.compact = .ok e) ∧
    (∀ f : Fixture, (∀ e ∈ f.entryList, e.Regular) →
      (∃ vs, IsText (.array vs) f.toJson ∧
        List.Forall₂ (fun v e => ∀ text, IsText v text → ofJson text = .ok e) vs f.entryList) ∧
      listOfJson f.toJson = .ok f.entryList ∧
      f.entryList.map some = f.paths.map f.get? ∧ f.paths.Pairwise (· < ·)) ∧
    (∀ d e : Entry, d.Regular → e.Regular → d ≠ e → d.toJson.compact ≠ e.toJson.compact) ∧
    (∀ e : Entry, e.Dated →
      { e with content := none }.toJson.compact ≠ { e with content := some [] }.toJson.compact ∧
      { e with error := none }.toJson.compact ≠ { e with error := some "" }.toJson.compact) ∧
    (∀ e : Entry, e.Dated → ¬e.modTime.LeapAtEnd →
      e.settled ≠ e ∧ e.settled.toJson.compact = e.toJson.compact ∧ ofJson e.toJson.compact = .ok e.settled) := by
  refine ⟨fun e he => he.ofJson_of_isText (isText_compact _), fun f hf => ⟨?_, ?_, ?_, ?_⟩, fun d e hd he hne htext => ?_,
    fun e he => ⟨?_, ?_⟩, fun e he hleap => ⟨?_, ?_, ?_⟩⟩
  · refine ⟨_, isText_toJson f, List.forall₂_map_left_iff.mpr (List.forall₂_same.mpr fun e he text htext => ?_)⟩
    exact (hf e he).ofJson_of_isText htext
  · rw [listOfJson_of_isText (fun e he => (hf e he).1) (isText_toJson f), Regular.map_settled hf]
  · exact f.entries.values_map_some
  · exact f.entries.keys_pairwise
  · have heq := settled_eq_of_compact hd.1 he.1 htext
    rw [hd.settled_eq, he.settled_eq] at heq
    exact hne heq
  · intro htext
    have heq := settled_eq_of_compact (d := { e with content := none }) (e := { e with content := some [] }) he he htext
    exact absurd (congrArg content heq) nofun
  · intro htext
    have heq := settled_eq_of_compact (d := { e with error := none }) (e := { e with error := some "" }) he he htext
    exact absurd (congrArg error heq) nofun
  · exact fun heq => hleap (settled_eq_self_iff.mp heq)
  · rw [toJson_settled]
  · exact Entry.ofJson_of_isText he (isText_compact _)

/-- In a leap second, with characters that are escaped, the largest size, and empty texts where there might be none. -/
theorem read_written_leap :
    let second : Timestamp := ⟨1483228799, 1500000000, by decide⟩
    let plain := { Entry.file "\x01\"é𝄞\\" with size := 0xFFFFFFFFFFFFFFFF, modTime := second }
    let leap := { plain with error := some "", content := some [] }
    let f : Fixture := { Fixture.empty with entries := Catalog.empty.insert "b" leap |>.insert "a" (Entry.dir "") }
    leap.Regular ∧ leap.modTime.toText = "2016-12-31T23:59:60.500Z" ∧ ofJson leap.toJson.compact = .ok leap ∧
      (∀ e ∈ f.entryList, e.Regular) ∧ listOfJson f.toJson = .ok [Entry.dir "", leap] := by
  intro second plain leap f
  have hleap : leap.Regular := by decide
  have hall : ∀ e ∈ f.entryList, e.Regular := by decide
  exact ⟨hleap, by decide, read_written.1 leap hleap, hall, (read_written.2.1 f hall).2.1⟩

/-- In a leap second after the first second of 1970 an entry is written as in the next second, and read as that. -/
theorem written_as_next_second :
    let within := { Entry.file "a" with modTime := ⟨0, 1333333333, by decide⟩ }
    let next := { Entry.file "a" with modTime := ⟨1, 333333333, by decide⟩ }
    within.Dated ∧ within ≠ next ∧ within.modTime.toText = "1970-01-01T00:00:01.333333333Z" ∧
      within.toJson.compact = next.toJson.compact ∧ ofJson within.toJson.compact = .ok next := by
  intro within next
  have hdated : within.Dated := by decide
  have hnext : within.settled = next := by decide
  have hread : ofJson within.toJson.compact = .ok next := hnext ▸ ofJson_of_isText hdated (isText_compact _)
  have htext : within.toJson.compact = next.toJson.compact := by rw [← hnext, toJson_settled]
  exact ⟨hdated, by decide, by decide, htext, hread⟩

end FileFixture.Entry
