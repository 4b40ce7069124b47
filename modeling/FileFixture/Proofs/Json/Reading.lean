import FileFixture.Proofs.Json.Tokens
import Mathlib.Data.List.Forall2

/-!
Reading values. A reader reads a value as something if it takes every text of the value, whatever may come behind a
value; a list is read if its items are. A reader that fails on some values is careful if it takes the whole text of a
value whenever it does not fail.
-/
namespace FileFixture.Json.Reader

open Text (bind_of_ok exists_of_bind)

variable {α : Type} {v : Tree} {before text start rest rest' : List Char} {c : Char}

/-- The reader takes every text of the value, and nothing more, as this. -/
def Reads (r : Reader α) (v : Tree) (a : α) : Prop :=
  ∀ text start rest, Space text start → Spells v start rest → Ends rest → r text = .ok (a, rest)

/-- Where the reader does not fail on the text of a value, it takes all of it and nothing more. -/
def Careful (r : Reader α) : Prop :=
  ∀ v text start rest a rest', Space text start → Spells v start rest → Ends rest → r text = .ok (a, rest') →
    rest' = rest

theorem Reads.rest_eq {r : Reader α} {a b : α} (h : r.Reads v a) (hspace : Space text start)
    (hspells : Spells v start rest) (hrest : Ends rest) (hrun : r text = .ok (b, rest')) : rest' = rest := by
  rw [h _ _ _ hspace hspells hrest] at hrun
  cases hrun
  rfl

theorem Reads.around {r : Reader α} {a : α} (h : r.Reads v a) (hc : c ∈ delimiters)
    (hv : SpellsAround v text (c :: rest)) : ∃ behind, r text = .ok (a, behind) ∧ Space behind (c :: rest) := by
  cases hv with
  | around hspace hspells hbehind => exact ⟨_, h _ _ _ hspace hspells ((ends_cons hc _).of_space hbehind), hbehind⟩

theorem Careful.around {r : Reader α} {a : α} (h : r.Careful) (hc : c ∈ delimiters)
    (hv : SpellsAround v text (c :: rest)) (hrun : r text = .ok (a, rest')) : Space rest' (c :: rest) := by
  cases hv with
  | around hspace hspells hbehind =>
    rw [h _ _ _ _ _ _ hspace hspells ((ends_cons hc _).of_space hbehind) hrun]
    exact hbehind

theorem get_eq (text : List Char) : (get : Reader (List Char)) text = .ok (text, text) := rfl

theorem set_eq (text rest : List Char) : (set rest : Reader PUnit) text = .ok ((), rest) := rfl

theorem isSpace_eq_false (h : c ∉ delimiters) : isSpace c = false := by
  rw [← Bool.not_eq_true, isSpace_iff]
  exact fun hmem => h (List.mem_append_left [',', ']', '\x7d'] hmem)

theorem skipSpace_start (hspace : Space text start) (h : Spells v start rest) : skipSpace text = start := by
  obtain ⟨c, tail, rfl, hc⟩ := h.exists_cons
  rw [skipSpace_of_space hspace, skipSpace_cons (isSpace_eq_false (Tree.not_mem_delimiters hc))]

theorem skipSpace_mark (h : Space text (c :: rest)) (hc : isSpace c = false) : skipSpace text = c :: rest := by
  rw [skipSpace_of_space h, skipSpace_cons hc]

/-! Whatever stands where another kind of value was wanted is refused. -/

theorem bind_ne_ok {σ ε β γ : Type} {x : StateT σ (Except ε) β} {f : β → StateT σ (Except ε) γ} {s : σ}
    (h : ∀ b s' p, f b s' ≠ .ok p) (p : γ × σ) : (x >>= f) s ≠ .ok p := by
  change (x s >>= fun q => f q.1 q.2) ≠ .ok p
  cases x s with
  | error e => exact nofun
  | ok q => exact h q.1 q.2 p

theorem refuse_ne_ok (wanted : String) (text : List Char) (p : α × List Char) :
    (refuse wanted : Reader α) text ≠ .ok p := by
  have hmismatch : ∀ (m : Mismatch) text p, (mismatch m : Reader α) text ≠ .ok p := fun m text p => nofun
  rw [refuse, bind_of_ok (get_eq _)]
  generalize skipSpace text = start
  split
  case h_1 => exact nofun
  case h_2 | h_3 | h_4 => exact bind_ne_ok (fun _ _ => bind_ne_ok (fun _ => hmismatch _)) _
  case h_5 => exact bind_ne_ok (fun _ _ => bind_ne_ok (fun _ => hmismatch _)) _
  case h_6 | h_7 => exact hmismatch _ _ _
  case h_8 =>
    split
    case isTrue => exact bind_ne_ok (fun _ _ => bind_ne_ok (fun _ => hmismatch _)) _
    case isFalse => exact nofun

/-! Scalars -/

theorem stringAs_reads (wanted s : String) : (stringAs wanted).Reads (.string s) s := by
  intro text start rest hspace hspells _
  have hskip := skipSpace_start hspace hspells
  cases hspells with
  | string hs =>
    cases hs with
    | quoted hchars =>
      rw [stringAs, bind_of_ok (get_eq _), hskip]
      exact openString_of_spells hchars

theorem string_reads (s : String) : string.Reads (.string s) s := stringAs_reads "a string" s

theorem string_careful : string.Careful := by
  intro v text start rest s rest' hspace hspells hrest hrun
  have hskip := skipSpace_start hspace hspells
  cases v with
  | string s' => exact (string_reads s').rest_eq hspace hspells hrest hrun
  | _ =>
    rw [string, stringAs, bind_of_ok (get_eq _), hskip] at hrun
    split at hrun
    case h_1 => exact absurd hspells.begins Bool.false_ne_true
    case h_2 => exact absurd hrun (refuse_ne_ok _ _ _)

theorem word_announced (letters : List Char) (a : α) (text rest : List Char) :
    (set (letters ++ rest) >>= fun _ => word letters >>= fun _ => pure a : Reader α) text = .ok (a, rest) := by
  rw [bind_of_ok (set_eq _ _), bind_of_ok (word_append _ _)]
  rfl

theorem bool_reads (b : Bool) : bool.Reads (.bool b) b := by
  intro text start rest hspace hspells _
  have hskip := skipSpace_start hspace hspells
  cases hspells with
  | bool b =>
    rw [bool, bind_of_ok (get_eq _), hskip]
    cases b with
    | true => exact word_announced "rue".toList true text rest
    | false => exact word_announced "alse".toList false text rest

theorem bool_careful : bool.Careful := by
  intro v text start rest s rest' hspace hspells hrest hrun
  have hskip := skipSpace_start hspace hspells
  cases v with
  | bool b => exact (bool_reads b).rest_eq hspace hspells hrest hrun
  | _ =>
    rw [bool, bind_of_ok (get_eq _), hskip] at hrun
    split at hrun
    case h_1 | h_2 => exact absurd hspells.begins Bool.false_ne_true
    case h_3 => exact absurd hrun (refuse_ne_ok _ _ _)

theorem natural_reads {n bound : Nat} (hn : n < bound) (hbound : bound ≤ Nat.pow 2 64) (wanted : String) :
    (natural bound wanted).Reads (.number (numberText n)) n := by
  intro text start rest hspace hspells hrest
  have hskip := skipSpace_start hspace hspells
  obtain ⟨c, tail, hstart, -⟩ := hspells.exists_cons
  cases hspells with
  | number _ =>
    have hnumber := number_of_lt (Nat.lt_of_lt_of_le hn hbound) hrest
    have hdigit := Text.isDigit_of_append_eq_cons (Text.isDigits_toDigits n) hstart
    rw [natural, bind_of_ok (get_eq _), hskip]
    rw [hstart] at hnumber ⊢
    simp only
    rw [if_pos (Or.inr hdigit), bind_of_ok (set_eq _ _), bind_of_ok hnumber]
    simp only
    rw [if_pos (by omega)]
    rfl

/-! Values that may be missing -/

theorem null_reads (value : Reader α) : (optional value).Reads .null none := by
  intro text start rest hspace hspells _
  have hskip := skipSpace_start hspace hspells
  cases hspells with
  | null =>
    rw [optional, bind_of_ok (get_eq _), hskip]
    exact word_announced "ull".toList none text rest

/-- Any value but `null` is left to the reader of values. -/
theorem optional_start (value : Reader α) (hspace : Space text start) (h : Spells v start rest) (hv : v ≠ .null) :
    optional value text = (some <$> value : Reader (Option α)) text := by
  rw [optional, bind_of_ok (get_eq _), skipSpace_start hspace h]
  split
  case h_1 => exact absurd (Tree.eq_null h.begins) hv
  case h_2 => rfl

theorem map_eq {β : Type} (f : α → β) (r : Reader α) (text : List Char) :
    (f <$> r) text = r text >>= fun p => .ok (f p.1, p.2) := rfl

theorem Reads.map {β : Type} {r : Reader α} {a : α} (h : r.Reads v a) (f : α → β) :
    (f <$> r : Reader β).Reads v (f a) := by
  intro text start rest hspace hspells hrest
  rw [map_eq, h _ _ _ hspace hspells hrest]
  rfl

theorem Reads.then_pure {β : Type} {r : Reader α} {a : α} (h : r.Reads v a) (f : α → β) :
    (r >>= fun a => pure (f a) : Reader β).Reads v (f a) := h.map f

theorem Careful.map {β : Type} {r : Reader α} (h : r.Careful) (f : α → β) : (f <$> r : Reader β).Careful := by
  intro v text start rest b rest' hspace hspells hrest hrun
  obtain ⟨p, hr, hp⟩ := exists_of_bind hrun
  cases hp
  exact h _ _ _ _ _ _ hspace hspells hrest hr

theorem Careful.then_pure {β : Type} {r : Reader α} (h : r.Careful) (f : α → β) :
    (r >>= fun a => pure (f a) : Reader β).Careful := h.map f

theorem Reads.optional {value : Reader α} {a : α} (h : value.Reads v a) (hv : v ≠ .null) :
    (Reader.optional value).Reads v (some a) := by
  intro text start rest hspace hspells hrest
  rw [optional_start value hspace hspells hv]
  exact h.map some _ _ _ hspace hspells hrest

theorem Careful.optional {value : Reader α} (h : value.Careful) : (Reader.optional value).Careful := by
  intro v text start rest a rest' hspace hspells hrest hrun
  by_cases hv : v = .null
  · subst hv
    exact (null_reads value).rest_eq hspace hspells hrest hrun
  · rw [optional_start value hspace hspells hv] at hrun
    exact h.map some _ _ _ _ _ _ hspace hspells hrest hrun

/-! Lists -/

/-- Where a reader of parts stands when the next part begins here: behind the opening bracket, or before the comma. -/
inductive Ahead : Bool → List Char → List Char → Prop
  | opening {text : List Char} : Ahead true text text
  | comma {before text : List Char} : Space before (',' :: text) → Ahead false before text

theorem moreElements_start {first : Bool} (ha : Ahead first before text) (h : SpellsAround v text rest) :
    ∃ start, moreElements first before = .ok (true, start) ∧ SpellsAround v start rest := by
  cases h with
  | @around _ _ start behind _ hspace hspells hbehind =>
    refine ⟨start, ?_, .around .none hspells hbehind⟩
    have hskip := skipSpace_start hspace hspells
    cases ha with
    | opening =>
      rw [moreElements, bind_of_ok (get_eq _), hskip]
      split
      case h_1 => exact absurd rfl hspells.ne_nil
      case h_2 => exact absurd (by decide) (Tree.not_mem_delimiters hspells.begins)
      case h_3 => rfl
    | comma hcomma =>
      have hmark : skipSpace before = ',' :: text := skipSpace_mark hcomma rfl
      rw [moreElements, bind_of_ok (get_eq _)]
      generalize skipSpace before = ahead at hmark ⊢
      split
      case h_1 | h_2 => simp at hmark
      case h_3 =>
        cases hmark
        rw [if_neg Bool.false_ne_true, if_pos rfl, hskip]
        split
        case h_1 => exact absurd rfl hspells.ne_nil
        case h_2 => exact absurd (by decide) (Tree.not_mem_delimiters hspells.begins)
        case h_3 => rfl

theorem moreElements_bracket (h : Space text (']' :: rest)) (first : Bool) :
    moreElements first text = .ok (false, ']' :: rest) := by
  have hskip : skipSpace text = ']' :: rest := skipSpace_mark h rfl
  rw [moreElements, bind_of_ok (get_eq _), hskip]
  rfl

theorem endSequence_bracket (h : Space text (']' :: rest)) : endSequence text = .ok ((), rest) := by
  have hskip : skipSpace text = ']' :: rest := skipSpace_mark h rfl
  rw [endSequence, bind_of_ok (get_eq _), hskip]
  rfl

section

variable {element : Reader α} {first : Bool} {vs : List Tree} {as : List α} {fuel : Nat}

theorem elements_none (h : Space text (']' :: rest)) :
    elements element (fuel + 1) first text = .ok ([], ']' :: rest) := by
  rw [elements, bind_of_ok (moreElements_bracket h first)]
  rfl

theorem elements_some (h : moreElements first before = .ok (true, start)) :
    elements element (fuel + 1) first before =
      element start >>= fun p => elements element fuel false p.2 >>= fun q => .ok (p.1 :: q.1, q.2) := by
  rw [elements, bind_of_ok h]
  rfl

/-- One item is read, and the mark behind it comes next. -/
theorem elements_item {a : α} {after : List Char} (h : SpellsAround v text (c :: rest)) (ha : Ahead first before text)
    (hc : c ∈ delimiters) (hv : element.Reads v a)
    (hnext : ∀ behind, Space behind (c :: rest) → elements element fuel false behind = .ok (as, after)) :
    elements element (fuel + 1) first before = .ok (a :: as, after) := by
  obtain ⟨start, hmore, hpart⟩ := moreElements_start ha h
  obtain ⟨behind, hrun, hbehind⟩ := hv.around hc hpart
  rw [elements_some hmore, hrun]
  change (elements element fuel false behind >>= _) = _
  rw [hnext behind hbehind]
  rfl

theorem elements_reads (h : Listed SpellsAround ']' vs text rest) (has : List.Forall₂ element.Reads vs as)
    (ha : Ahead first before text) (hfuel : vs.length < fuel) :
    elements element fuel first before = .ok (as, ']' :: rest) := by
  induction h generalizing as fuel first before with
  | last hpart =>
    -- the bracket takes a step of its own
    obtain ⟨fuel, rfl⟩ := Nat.exists_eq_add_one_of_ne_zero (Nat.ne_zero_of_lt hfuel)
    obtain ⟨fuel, rfl⟩ := Nat.exists_eq_add_one_of_ne_zero (Nat.ne_zero_of_lt (Nat.lt_of_succ_lt_succ hfuel))
    cases has with
    | cons hv hnil =>
      cases hnil
      exact elements_item hpart ha (by decide) hv fun _ hbehind => elements_none hbehind
  | more hpart _ ih =>
    obtain ⟨fuel, rfl⟩ := Nat.exists_eq_add_one_of_ne_zero (Nat.ne_zero_of_lt hfuel)
    cases has with
    | cons hv hvs =>
      refine elements_item hpart ha (by decide) hv fun behind hbehind => ?_
      exact ih hvs (.comma hbehind) (Nat.lt_of_succ_lt_succ hfuel)

theorem item_of_elements (hcareful : element.Careful) (h : SpellsAround v text (c :: rest))
    (ha : Ahead first before text) (hc : c ∈ delimiters)
    (hrun : elements element (fuel + 1) first before = .ok (as, rest')) :
    ∃ behind as', Space behind (c :: rest) ∧ elements element fuel false behind = .ok (as', rest') := by
  obtain ⟨start, hmore, hpart⟩ := moreElements_start ha h
  rw [elements_some hmore] at hrun
  obtain ⟨p, hp, hrun⟩ := exists_of_bind hrun
  obtain ⟨q, hq, hrun⟩ := exists_of_bind hrun
  cases hrun
  exact ⟨p.2, q.1, hcareful.around hc hpart hp, hq⟩

theorem elements_careful (hcareful : element.Careful) (h : Listed SpellsAround ']' vs text rest)
    (ha : Ahead first before text) (hrun : elements element fuel first before = .ok (as, rest')) :
    rest' = ']' :: rest := by
  induction h generalizing as fuel first before with
  | last hpart =>
    match fuel with
    | 0 => cases hrun
    | 1 =>
      obtain ⟨behind, as', -, hrun⟩ := item_of_elements hcareful hpart ha (by decide) hrun
      cases hrun
    | fuel + 2 =>
      obtain ⟨behind, as', hbehind, hrun⟩ := item_of_elements hcareful hpart ha (by decide) hrun
      rw [elements_none hbehind] at hrun
      cases hrun
      rfl
  | more hpart _ ih =>
    match fuel with
    | 0 => cases hrun
    | fuel + 1 =>
      obtain ⟨behind, as', hbehind, hrun⟩ := item_of_elements hcareful hpart ha (by decide) hrun
      exact ih (.comma hbehind) hrun

/-- Behind the opening bracket, where it may be closed at once. -/
theorem list_eq (hstart : skipSpace before = '[' :: text) :
    list element before =
      elements element (text.length + 1) true text >>= fun p => endSequence p.2 >>= fun q => .ok (p.1, q.2) := by
  rw [list, bind_of_ok (get_eq _), hstart]
  rfl

theorem list_of_elements (hstart : skipSpace before = '[' :: text)
    (h : elements element (text.length + 1) true text = .ok (as, ']' :: rest)) :
    list element before = .ok (as, rest) := by
  rw [list_eq hstart, h]
  change (endSequence (']' :: rest) >>= fun q => .ok (as, q.2)) = _
  rw [endSequence_bracket .none]
  rfl

theorem elements_of_list (hstart : skipSpace before = '[' :: text) (h : list element before = .ok (as, rest'))
    (hclosing : ∀ behind, elements element (text.length + 1) true text = .ok (as, behind) → behind = ']' :: rest) :
    rest' = rest := by
  rw [list_eq hstart] at h
  obtain ⟨⟨bs, behind⟩, hp, h⟩ := exists_of_bind h
  obtain ⟨q, hq, h⟩ := exists_of_bind h
  cases h
  rw [hclosing behind hp, endSequence_bracket .none] at hq
  cases hq
  rfl

theorem list_reads (has : List.Forall₂ element.Reads vs as) : (list element).Reads (.array vs) as := by
  intro text start rest hspace hspells hrest
  have hskip := skipSpace_start hspace hspells
  cases hspells with
  | emptyArray hclosing =>
    cases has
    exact list_of_elements hskip (elements_none hclosing)
  | array hlisted =>
    have hfuel := Nat.lt_succ_of_le hlisted.length_items.1
    exact list_of_elements hskip (elements_reads hlisted has .opening hfuel)

theorem list_careful (hcareful : element.Careful) : (list element).Careful := by
  intro v text start rest as rest' hspace hspells hrest hrun
  have hskip := skipSpace_start hspace hspells
  cases v with
  | array vs =>
    cases hspells with
    | emptyArray hclosing =>
      refine elements_of_list hskip hrun fun behind hitems => ?_
      rw [elements_none hclosing] at hitems
      cases hitems
      rfl
    | array hlisted =>
      exact elements_of_list hskip hrun fun behind hitems => elements_careful hcareful hlisted .opening hitems
  | _ =>
    rw [list, bind_of_ok (get_eq _), hskip] at hrun
    split at hrun
    case h_1 => exact absurd hspells.begins Bool.false_ne_true
    case h_2 => exact absurd hrun (refuse_ne_ok _ _ _)

end

end FileFixture.Json.Reader
