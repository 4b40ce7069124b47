import FileFixture.Proofs.Spec.Balance
import FileFixture.Proofs.Spec.Groups
import Mathlib.Data.String.Basic

/-!
Segments read by byte offsets. A reader that keeps offsets into the bytes of a text, and a counter that is never
negative, can come to harm: an offset may lie beyond the text or within a character, and the counter may be taken down
when it is zero. The reader of this module stops where that happens. It never does, and so it reads every text as
`Segment.ofText` does.
-/
namespace FileFixture

open String (utf8Len)

/-- What stops a reader of bytes. -/
inductive Hazard where
  | offset
  | counter
  deriving DecidableEq

namespace Text

/-- The text from an offset on. -/
def sliceFrom (offset : Nat) : List Char → Except Hazard (List Char)
  | [] => if offset = 0 then .ok [] else .error .offset
  | c :: text =>
    if offset = 0 then .ok (c :: text)
    else if c.utf8Size ≤ offset then sliceFrom (offset - c.utf8Size) text
    else .error .offset

/-- The text between two offsets. -/
def slice (first last : Nat) (text : List Char) : Except Hazard (List Char) := do
  let rest ← sliceFrom first text
  let after ← sliceFrom last text
  if first ≤ last then .ok (rest.take (rest.length - after.length)) else .error .offset

theorem sliceFrom_append (start rest : List Char) : sliceFrom (utf8Len start) (start ++ rest) = .ok rest := by
  induction start with
  | nil => cases rest <;> rfl
  | cons c start ih =>
    have hpos := c.utf8Size_pos
    rw [List.cons_append, sliceFrom, String.utf8Len_cons, if_neg (by omega), if_pos (by omega), Nat.add_sub_cancel, ih]

/-- An offset is accepted only where a character begins, or at the end. -/
theorem exists_of_sliceFrom {offset : Nat} {text rest : List Char} (h : sliceFrom offset text = .ok rest) :
    ∃ start, text = start ++ rest ∧ utf8Len start = offset := by
  induction text generalizing offset with
  | nil =>
    rw [sliceFrom] at h
    split at h
    case isTrue h₀ => exact ⟨[], Except.ok.inj h, h₀.symm⟩
    case isFalse => cases h
  | cons c text ih =>
    rw [sliceFrom] at h
    split at h
    case isTrue h₀ => exact ⟨[], Except.ok.inj h, h₀.symm⟩
    case isFalse =>
      split at h
      case isTrue hle =>
        obtain ⟨start, rfl, hstart⟩ := ih h
        exact ⟨c :: start, rfl, by rw [String.utf8Len_cons]; omega⟩
      case isFalse => cases h

/-- The offsets that are accepted are the valid positions of the string. -/
theorem isValid_iff {offset : Nat} {text : List Char} :
    (String.Pos.Raw.mk offset).IsValid (String.ofList text) ↔ ∃ rest, sliceFrom offset text = .ok rest := by
  rw [String.Pos.Raw.isValid_iff_exists_append]
  constructor
  · rintro ⟨start, rest, htext, hoffset⟩
    have hlist : text = start.toList ++ rest.toList := by
      rw [← String.toList_append, ← htext, String.toList_ofList]
    have hsize : offset = utf8Len start.toList := by
      rw [← String.utf8ByteSize_ofList, String.ofList_toList]
      exact congrArg String.Pos.Raw.byteIdx hoffset
    exact ⟨rest.toList, by rw [hlist, hsize, sliceFrom_append]⟩
  · rintro ⟨rest, h⟩
    obtain ⟨start, rfl, rfl⟩ := exists_of_sliceFrom h
    refine ⟨String.ofList start, String.ofList rest, String.ofList_append, ?_⟩
    rw [String.rawEndPos, String.utf8ByteSize_ofList]

example : sliceFrom 1 ['é'] = .error .offset := by decide

theorem slice_append (start inside after : List Char) :
    slice (utf8Len start) (utf8Len (start ++ inside)) (start ++ (inside ++ after)) = .ok inside := by
  have hfirst := sliceFrom_append start (inside ++ after)
  have hlast := sliceFrom_append (start ++ inside) after
  rw [List.append_assoc] at hlast
  rw [slice, hfirst, hlast]
  simp [bind, Except.bind]

end Text

namespace Spec

open Text (isBlank allBlank trim trimStart sliceFrom slice)

/-- Looks for the bracket that takes the counter of open ones down to zero. -/
def Bracket.seek (b : Bracket) : (opened offset : Nat) → List Char → Except Hazard (Option Nat)
  | _, _, [] => .ok none
  | opened, offset, c :: text =>
    if c = b.opener then b.seek (opened + 1) (offset + c.utf8Size) text
    else if c = b.closer then
      match opened with
      | 0 => .error .counter
      | opened + 1 => if opened = 0 then .ok (some offset) else b.seek opened (offset + c.utf8Size) text
    else b.seek opened (offset + c.utf8Size) text

/-- The offset at which the bracket at an offset is closed. -/
def closingOffset (text : List Char) (offset : Nat) : Except Hazard (Option Nat) := do
  match ← sliceFrom offset text with
  | [] => .ok none
  | c :: rest =>
    match Bracket.ofOpener? c with
    | none => .ok none
    | some b => b.seek 0 offset (c :: rest)

namespace Segment

/-- Puts in what a group of a kind holds, unless there was one before. -/
def fill? (s : Segment) (inside : List Char) : Bracket → Option Segment
  | .round => if s.tags.isSome then none else some { s with tags := some inside }
  | .square => if s.children.isSome then none else some { s with children := some inside }

/-- How many groups may still come. -/
def vacancies (s : Segment) : Nat := (if s.tags.isSome then 0 else 1) + (if s.children.isSome then 0 else 1)

theorem vacancies_lt {s s' : Segment} {b : Bracket} {inside : List Char} (h : s.fill? inside b = some s') :
    s'.vacancies < s.vacancies := by
  cases b <;> simp only [fill?, Option.ite_none_left_eq_some, Option.some.injEq] at h <;>
    obtain ⟨hnone, rfl⟩ := h <;> simp [vacancies, hnone]

/-- Reads groups from an offset on, until there is only white space left. -/
def readGroups (raw : List Char) (s : Segment) (offset : Nat) : Except Hazard Segment :=
  if offset < utf8Len raw then do
    let rest ← sliceFrom offset raw
    if allBlank rest then return s
    let start := offset + (utf8Len rest - utf8Len (trimStart rest))
    let some close ← closingOffset raw start | return literal raw
    let inside ← slice (start + 1) close raw
    let group ← sliceFrom start raw
    match h : s.fill? inside (if group.head? = some '(' then .round else .square) with
    | none => return literal raw
    | some s' => readGroups raw s' (close + 1)
  else return s
termination_by s.vacancies
decreasing_by exact vacancies_lt h

/-- The segment of a text, read by offsets. -/
def readOffsets (raw : List Char) : Except Hazard Segment :=
  if raw.any isOpener then do
    let start := utf8Len (raw.takeWhile (!isOpener ·))
    let name ← slice 0 start raw
    readGroups raw ⟨trim name, none, none⟩ start
  else return literal raw

end Segment

/-- The counter has `inner` for the brackets that are open inside, and one more for that which is to be closed. -/
theorem Bracket.seek_eq (b : Bracket) (inner offset : Nat) (text : List Char) :
    b.seek (inner + 1) offset text = .ok ((b.reach? inner text).map fun n => offset + utf8Len (text.take n)) := by
  induction text generalizing inner offset with
  | nil => rfl
  | cons c text ih =>
    have hstep : ∀ o : Option Nat, o.map (fun n => offset + c.utf8Size + utf8Len (text.take n)) =
        (o.map (· + 1)).map fun n => offset + utf8Len ((c :: text).take n) := by
      intro o
      cases o with
      | none => rfl
      | some n => simp only [Option.map_some, List.take_succ_cons, String.utf8Len_cons, Option.some.injEq]; omega
    by_cases ho : c = b.opener
    · rw [seek, if_pos ho, ih, hstep, ho, reach?_opener]
    · by_cases hc : c = b.closer
      · rw [seek, if_neg ho, if_pos hc]
        cases inner with
        | zero => simp [hc, reach?_closer_zero]
        | succ inner => rw [if_neg (Nat.succ_ne_zero inner), ih, hstep, hc, reach?_closer_succ]
      · rw [seek, if_neg ho, if_neg hc, ih, hstep, reach?_other ho hc]

example : Bracket.round.seek 0 0 [')'] = .error .counter := rfl

theorem Bracket.utf8Size_opener (b : Bracket) : b.opener.utf8Size = 1 := by cases b <;> decide

theorem Bracket.utf8Size_closer (b : Bracket) : b.closer.utf8Size = 1 := by cases b <;> decide

theorem closingOffset_append (start rest : List Char) :
    closingOffset (start ++ rest) (utf8Len start) =
      .ok ((closing? rest 0).map fun j => utf8Len (start ++ rest.take j)) := by
  rw [closingOffset, Text.sliceFrom_append]
  cases rest with
  | nil => rfl
  | cons c rest =>
    cases hb : Bracket.ofOpener? c with
    | none => simp [bind, Except.bind, closing?, hb]
    | some b =>
      obtain rfl := Bracket.ofOpener?_eq_some_iff.mp hb
      have hseek : b.seek 0 (utf8Len start) (b.opener :: rest) = b.seek 1 (utf8Len start + 1) rest := by
        rw [Bracket.seek, if_pos rfl, b.utf8Size_opener]
      simp only [bind, Except.bind, hb, hseek, b.seek_eq, closing?, List.drop_zero, Option.bind_some, Option.map_map]
      congr 2
      funext n
      simp [Nat.add_comm 1 n, b.utf8Size_opener]
      omega

/-- Where a bracket is closed does not depend on what stands before it. -/
theorem closing?_drop (text : List Char) (i : Nat) : closing? text i = (closing? (text.drop i) 0).map (i + ·) := by
  rw [closing?, closing?, List.drop_zero]
  cases text.drop i with
  | nil => rfl
  | cons c rest =>
    cases hb : Bracket.ofOpener? c with
    | none => simp [hb]
    | some b =>
      have hadd : (i + 1 + ·) = (i + ·) ∘ (0 + 1 + ·) := by
        funext n
        simp only [Function.comp]
        omega
      simp only [hb, Option.bind_some, Option.map_map, hadd]

/-- The two readers find the same closer, and the counter is positive until it is found. -/
theorem closingOffset_take (text : List Char) (i : Nat) :
    closingOffset text (utf8Len (text.take i)) = .ok ((closing? text i).map fun j => utf8Len (text.take j)) := by
  have h := closingOffset_append (text.take i) (text.drop i)
  rw [List.take_append_drop] at h
  rw [h, closing?_drop text i, Option.map_map]
  congr 2
  funext j
  rw [Function.comp, List.take_add]

/-- A group at the head of a text ends where its bracket is closed. -/
theorem closing?_zero (text : List Char) : closing? text 0 = (group? text).map fun g => g.2.1.length + 1 := by
  cases text with
  | nil => rfl
  | cons c text =>
    rw [group?_cons, closing?, List.drop_zero]
    cases hb : Bracket.ofOpener? c with
    | none => simp [hb]
    | some b =>
      cases hn : b.reach? 0 text with
      | none => simp [hb, hn]
      | some n =>
        have hlt : n < text.length := Bracket.reach?_lt hn
        simp [hb, hn]
        omega

namespace Segment

variable {s : Segment} {b : Bracket} {start rest inside after : List Char}

theorem readGroups_blank (h : allBlank rest = true) : readGroups (start ++ rest) s (utf8Len start) = .ok s := by
  rw [readGroups, Text.sliceFrom_append]
  split
  case isTrue => simp [bind, Except.bind, pure, Except.pure, h]
  case isFalse => rfl

/-- White space is left out by its size. -/
theorem exists_lead (start rest : List Char) : ∃ lead, start ++ rest = lead ++ trimStart rest ∧
    utf8Len start + (utf8Len rest - utf8Len (trimStart rest)) = utf8Len lead := by
  have hsplit : rest.takeWhile isBlank ++ trimStart rest = rest := List.takeWhile_append_dropWhile
  have hsize : utf8Len rest = utf8Len (rest.takeWhile isBlank) + utf8Len (trimStart rest) := by
    rw [← String.utf8Len_append, hsplit]
  refine ⟨start ++ rest.takeWhile isBlank, by rw [List.append_assoc, hsplit], ?_⟩
  rw [hsize, String.utf8Len_append]
  omega

theorem offset_lt (h : allBlank rest = false) : utf8Len start < utf8Len (start ++ rest) := by
  cases rest with
  | nil => cases h
  | cons c rest =>
    have hpos := c.utf8Size_pos
    rw [String.utf8Len_append, String.utf8Len_cons]
    omega

theorem readGroups_literal (h : allBlank rest = false) (hg : group? (trimStart rest) = none) :
    readGroups (start ++ rest) s (utf8Len start) = .ok (literal (start ++ rest)) := by
  obtain ⟨lead, hraw, hlead⟩ := exists_lead start rest
  have hclose : closingOffset (start ++ rest) (utf8Len lead) = .ok none := by
    rw [hraw, closingOffset_append, closing?_zero, hg]
    rfl
  rw [readGroups, if_pos (offset_lt h), Text.sliceFrom_append]
  simp [bind, Except.bind, pure, Except.pure, h, hlead, hclose]

/-- A group fills its place if that is free, and reading goes on behind its closer. -/
theorem readGroups_group (s : Segment) (start : List Char) (h : allBlank rest = false)
    (hg : group? (trimStart rest) = some (b, inside, after)) :
    ∃ before, start ++ rest = before ++ after ∧ readGroups (start ++ rest) s (utf8Len start) =
      match s.fill? inside b with
      | none => .ok (literal (start ++ rest))
      | some s' => readGroups (start ++ rest) s' (utf8Len before) := by
  obtain ⟨htrim, -⟩ := group?_eq_some_iff.mp hg
  obtain ⟨lead, hraw, hlead⟩ := exists_lead start rest
  have hclose : closingOffset (start ++ rest) (utf8Len lead) = .ok (some (utf8Len (lead ++ b.opener :: inside))) := by
    rw [hraw, closingOffset_append, closing?_zero, hg, htrim]
    simp
  have hinside : slice (utf8Len lead + 1) (utf8Len (lead ++ b.opener :: inside)) (start ++ rest) = .ok inside := by
    have hslice := Text.slice_append (lead ++ [b.opener]) inside (b.closer :: after)
    rw [String.utf8Len_append] at hslice
    rw [hraw, htrim]
    simpa [b.utf8Size_opener] using hslice
  have hgroup : sliceFrom (utf8Len lead) (start ++ rest) = .ok (trimStart rest) := by
    rw [hraw, Text.sliceFrom_append]
  have hkind : (if (trimStart rest).head? = some '(' then Bracket.round else Bracket.square) = b := by
    rw [htrim]
    cases b <;> rfl
  have hbehind : utf8Len (lead ++ b.opener :: inside) + 1 = utf8Len (lead ++ b.opener :: (inside ++ [b.closer])) := by
    simp [b.utf8Size_closer]
    omega
  refine ⟨lead ++ b.opener :: (inside ++ [b.closer]), by rw [hraw, htrim]; simp, ?_⟩
  rw [readGroups, if_pos (offset_lt h), Text.sliceFrom_append]
  simp only [bind, Except.bind, h, hlead, hclose, hinside, hgroup, hbehind]
  rw [if_neg Bool.false_ne_true]
  -- each case has an equation that says the kind as the reader does, from the first character of the group
  split
  case h_1 hfill =>
    rw [hkind] at hfill
    rw [hfill]
    rfl
  case h_2 s' hfill =>
    rw [hkind] at hfill
    rw [hfill]

theorem fill?_empty (name inside : List Char) (b : Bracket) :
    fill? ⟨name, none, none⟩ inside b = some (ofGroup name b inside) := by
  cases b <;> rfl

theorem fill?_ofGroup (name inside inside' : List Char) (a b : Bracket) :
    (ofGroup name a inside).fill? inside' b = if a = b then none else some (ofGroups name a inside inside') := by
  cases a <;> cases b <;> rfl

theorem fill?_ofGroups (name inside inside' more : List Char) (a b : Bracket) :
    (ofGroups name a inside inside').fill? more b = none := by
  cases a <;> cases b <;> rfl

/-- Nothing but white space may follow when there is no place left. -/
theorem readGroups_full (hfull : ∀ inside b, s.fill? inside b = none) (start rest : List Char) :
    readGroups (start ++ rest) s (utf8Len start) = .ok (if allBlank rest then s else literal (start ++ rest)) := by
  cases hblank : allBlank rest with
  | true => exact readGroups_blank hblank
  | false =>
    cases hg : group? (trimStart rest) with
    | none => exact readGroups_literal hblank hg
    | some g =>
      obtain ⟨before, -, hread⟩ := readGroups_group s start hblank hg
      rw [hread, hfull]
      rfl

/-- A second group has to be of the other kind. -/
theorem readGroups_second (name inside start rest : List Char) (a : Bracket) :
    readGroups (start ++ rest) (ofGroup name a inside) (utf8Len start) =
      .ok (if allBlank rest then ofGroup name a inside
        else match group? (trimStart rest) with
          | none => literal (start ++ rest)
          | some (b, inside', after) =>
            if a ≠ b ∧ allBlank after then ofGroups name a inside inside' else literal (start ++ rest)) := by
  cases hblank : allBlank rest with
  | true => exact readGroups_blank hblank
  | false =>
    cases hg : group? (trimStart rest) with
    | none => exact readGroups_literal hblank hg
    | some g =>
      obtain ⟨b, inside', after⟩ := g
      obtain ⟨before, hraw, hread⟩ := readGroups_group (ofGroup name a inside) start hblank hg
      rw [hread, fill?_ofGroup]
      by_cases hab : a = b
      · simp [hab]
      · simp only [if_neg hab, hraw, readGroups_full (fill?_ofGroups name inside inside' · a ·)]
        simp [hab]

/-- A text has no opening bracket or a first one. -/
theorem exists_first_opener (raw : List Char) :
    (∀ c ∈ raw, isOpener c = false) ∨
      ∃ (pre : List Char) (b : Bracket) (tail : List Char),
        (∀ c ∈ pre, isOpener c = false) ∧ raw = pre ++ b.opener :: tail := by
  induction raw with
  | nil => exact Or.inl fun c hc => absurd hc List.not_mem_nil
  | cons c raw ih =>
    cases hc : isOpener c with
    | true =>
      rcases Bool.or_eq_true_iff.mp hc with h | h
      · exact Or.inr ⟨[], .round, raw, by simp, by rw [eq_of_beq h]; rfl⟩
      · exact Or.inr ⟨[], .square, raw, by simp, by rw [eq_of_beq h]; rfl⟩
    | false =>
      rcases ih with h | ⟨pre, b, tail, hpre, rfl⟩
      · exact Or.inl (List.forall_mem_cons.mpr ⟨hc, h⟩)
      · exact Or.inr ⟨c :: pre, b, tail, List.forall_mem_cons.mpr ⟨hc, hpre⟩, rfl⟩

theorem readOffsets_name {pre : List Char} (hpre : ∀ c ∈ pre, isOpener c = false) (b : Bracket) (tail : List Char) :
    readOffsets (pre ++ b.opener :: tail) =
      readGroups (pre ++ b.opener :: tail) ⟨trim pre, none, none⟩ (utf8Len pre) := by
  have hany : (pre ++ b.opener :: tail).any isOpener = true := by simp
  have hname : slice 0 (utf8Len pre) (pre ++ b.opener :: tail) = .ok pre := Text.slice_append [] pre _
  rw [readOffsets, if_pos hany]
  simp only [takeWhile_name hpre, hname, bind, Except.bind]

/-- No slice of the reader by offsets misses, and no counter runs out: it reads the segment of the text. -/
theorem readOffsets_eq (raw : List Char) : readOffsets raw = .ok (ofText raw) := by
  rcases exists_first_opener raw with hplain | ⟨pre, b, tail, hpre, rfl⟩
  · have hany : raw.any isOpener = false := by simpa using hplain
    rw [readOffsets, hany, ofText_plain hplain]
    rfl
  · have hblank : allBlank (b.opener :: tail) = false := by simp [isBlank_opener]
    have htrim : trimStart (b.opener :: tail) = b.opener :: tail := @trimStart_group [] rfl b tail
    rw [readOffsets_name hpre, ofText, grouped?, takeWhile_name hpre, dropWhile_name hpre]
    cases hg : group? (b.opener :: tail) with
    | none => exact readGroups_literal hblank (htrim.symm ▸ hg)
    | some g =>
      obtain ⟨a, inside, after⟩ := g
      obtain ⟨before, hbefore, hgroup⟩ := readGroups_group ⟨trim pre, none, none⟩ pre hblank (htrim.symm ▸ hg)
      rw [hgroup, fill?_empty]
      simp only [Option.bind_eq_bind, Option.bind_some, hbefore]
      rw [readGroups_second]
      congr 1
      split
      · rfl
      · cases group? (trimStart after) with
        | none => rfl
        | some g =>
          obtain ⟨b', inside', after'⟩ := g
          simp only [Option.bind_some]
          split <;> rfl

end Segment

section Closing

variable {text : List Char} {i j : Nat} {b : Bracket}

theorem utf8Len_take_succ {c : Char} (h : text[i]? = some c) :
    utf8Len (text.take (i + 1)) = utf8Len (text.take i) + c.utf8Size := by
  rw [List.take_add_one, h, Option.toList_some, String.utf8Len_append, String.utf8Len_cons, String.utf8Len_nil]
  omega

theorem utf8Len_take_le (h : i ≤ j) : utf8Len (text.take i) ≤ utf8Len (text.take j) := by
  obtain ⟨n, rfl⟩ := Nat.exists_eq_add_of_le h
  rw [List.take_add, String.utf8Len_append]
  exact Nat.le_add_right _ _

theorem isValid_take (text : List Char) (n : Nat) :
    (String.Pos.Raw.mk (utf8Len (text.take n))).IsValid (String.ofList text) := by
  have h := Text.sliceFrom_append (text.take n) (text.drop n)
  rw [List.take_append_drop] at h
  exact Text.isValid_iff.mpr ⟨_, h⟩

/-- The offset of a bracket, the offset behind it, the offset of its closer and the offset behind that are positions in
the string, in this order. -/
structure Bounds (text : List Char) (first last : Nat) : Prop where
  first_valid : (String.Pos.Raw.mk first).IsValid (String.ofList text)
  inside_valid : (String.Pos.Raw.mk (first + 1)).IsValid (String.ofList text)
  last_valid : (String.Pos.Raw.mk last).IsValid (String.ofList text)
  after_valid : (String.Pos.Raw.mk (last + 1)).IsValid (String.ofList text)
  inside_le : first + 1 ≤ last
  after_le : last + 1 ≤ utf8Len text

theorem bounds_of_closing? (hi : text[i]? = some b.opener) (hj : closing? text i = some j) :
    Bounds text (utf8Len (text.take i)) (utf8Len (text.take j)) := by
  have hfirst : utf8Len (text.take (i + 1)) = utf8Len (text.take i) + 1 := by
    rw [utf8Len_take_succ hi, b.utf8Size_opener]
  have hlast : utf8Len (text.take (j + 1)) = utf8Len (text.take j) + 1 := by
    rw [utf8Len_take_succ (getElem?_of_closing? hi hj), b.utf8Size_closer]
  have hpoint : j ∈ balancePoints b text i := ((closing?_eq_some_iff hi).mp hj).1
  refine ⟨isValid_take text i, hfirst ▸ isValid_take text (i + 1), isValid_take text j, hlast ▸ isValid_take text (j + 1),
    ?_, ?_⟩
  · rw [← hfirst]
    exact utf8Len_take_le hpoint.1
  · have hle : utf8Len (text.take (j + 1)) ≤ utf8Len (text.take text.length) := utf8Len_take_le hpoint.2.1
    rwa [hlast, List.take_length] at hle

/-- A bracket is closed where its kind comes out even for the first time. The counter that finds the place is never
taken below zero, and whatever is cut out of a text along its groups is cut at positions of the string. -/
theorem closing_first_balance_and_safe (hi : text[i]? = some b.opener) :
    (∀ j, closing? text i = some j ↔ IsLeast (balancePoints b text i) j) ∧
    (∀ j, closing? text i = some j →
      text[j]? = some b.closer ∧ ∀ k, i ≤ k → k < j → b.Unclosed (stretch text i k)) ∧
    (closing? text i = none ↔ ¬∃ j, j ∈ balancePoints b text i) ∧
    closingOffset text (utf8Len (text.take i)) = .ok ((closing? text i).map fun j => utf8Len (text.take j)) ∧
    (∀ j, closing? text i = some j → Bounds text (utf8Len (text.take i)) (utf8Len (text.take j))) ∧
    ∀ raw, Segment.readOffsets raw = .ok (Segment.ofText raw) := by
  refine ⟨fun j => closing?_eq_some_iff hi, fun j hj => ⟨getElem?_of_closing? hi hj, fun k => unclosed_stretch hi hj⟩,
    closing?_eq_none_iff hi, closingOffset_take text i, fun j => bounds_of_closing? hi, Segment.readOffsets_eq⟩

/-- Characters of two and three bytes, a bracket of the same kind inside, and brackets of the other kind that do not
match. -/
theorem closing_first_balance_and_safe_interleaved :
    "é(日[)[x]é](".toList[3]? = some Bracket.square.opener ∧
    closing? "é(日[)[x]é](".toList 3 = some 9 ∧
    IsLeast (balancePoints .square "é(日[)[x]é](".toList 3) 9 ∧
    closingOffset "é(日[)[x]é](".toList 6 = .ok (some 13) ∧
    Bounds "é(日[)[x]é](".toList 6 13 ∧
    Segment.readOffsets "é(日[)[x]é](".toList = .ok (Segment.literal "é(日[)[x]é](".toList) := by
  have hi : "é(日[)[x]é](".toList[3]? = some Bracket.square.opener := by decide
  have hj : closing? "é(日[)[x]é](".toList 3 = some 9 := by decide
  obtain ⟨hpoint, -, -, hoffset, hbounds, hread⟩ := closing_first_balance_and_safe hi
  refine ⟨hi, hj, (hpoint 9).mp hj, ?_, hbounds 9 hj, ?_⟩
  · rw [hj] at hoffset
    exact hoffset
  · rw [hread]
    decide

end Closing

end Spec
end FileFixture
