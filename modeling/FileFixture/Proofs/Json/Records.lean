import FileFixture.Proofs.Json.Reading

/-!
Reading objects as records, and whole texts. A record is read from an object if its members are accepted one after
the other, in the order in which they stand; the other way round, a record that was read tells that every key of the
object was accepted.
-/
namespace FileFixture.Json.Reader

open Text (bind_of_ok exists_of_bind)

variable {α σ : Type} {v : Tree} {key : String} {before text start behind rest rest' : List Char} {first : Bool}

/-! Keys -/

theorem nextKey_start (ha : Ahead first before text) (h : SpellsMember (key, v) text rest) :
    ∃ behind after, nextKey first before = .ok (some key, behind) ∧ colon behind = .ok ((), after) ∧
      SpellsAround v after rest := by
  cases h with
  | @keyed _ _ _ _ behind after _ hspace hkey hcolon hvalue =>
    cases hkey with
    | @quoted text' _ hchars =>
      have hstring := openString_of_spells hchars
      have hskip : skipSpace text = '"' :: text' := skipSpace_mark hspace rfl
      refine ⟨behind, after, ?_, ?_, hvalue⟩
      · cases ha with
        | opening =>
          rw [nextKey, bind_of_ok (get_eq _), hskip]
          change (some <$> openString : Reader (Option String)) text' = _
          rw [map_eq, hstring]
          rfl
        | comma hcomma =>
          have hmark : skipSpace before = ',' :: text := skipSpace_mark hcomma rfl
          rw [nextKey, bind_of_ok (get_eq _)]
          generalize skipSpace before = ahead at hmark ⊢
          split
          case h_1 | h_2 => simp at hmark
          case h_3 =>
            cases hmark
            rw [if_neg Bool.false_ne_true, if_pos rfl, pure_bind, hskip]
            change (some <$> openString : Reader (Option String)) text' = _
            rw [map_eq, hstring]
            rfl
      · rw [colon, bind_of_ok (get_eq _), skipSpace_mark hcolon rfl]
        rfl

theorem nextKey_brace (h : Space text ('\x7d' :: rest)) (first : Bool) : nextKey first text = .ok (none, rest) := by
  have hskip : skipSpace text = '\x7d' :: rest := skipSpace_mark h rfl
  rw [nextKey, bind_of_ok (get_eq _), hskip]
  rfl

/-! Members -/

variable {accept : σ → String → Except Fault (Reader σ)} {s s' : σ} {ms : List (String × Tree)} {fuel : Nat}

theorem members_none (h : Space text ('\x7d' :: rest)) :
    members accept (fuel + 1) first s text = .ok (s, rest) := by
  rw [members, bind_of_ok (nextKey_brace h first)]
  rfl

theorem members_some {after : List Char} (hkey : nextKey first before = .ok (some key, behind))
    (hcolon : colon behind = .ok ((), after)) :
    members accept (fuel + 1) first s before =
      accept s key >>= fun value => value after >>= fun p => members accept fuel false p.1 p.2 := by
  rw [members, bind_of_ok hkey]
  cases hvalue : accept s key with
  | error fault =>
    simp only [hvalue]
    rfl
  | ok value =>
    simp only [hvalue]
    change (colon >>= fun _ => value >>= members accept fuel false : Reader σ) behind = _
    rw [bind_of_ok hcolon]
    rfl

/-- Each member is accepted in the state that those before it have led to, and leads on. -/
inductive Accepts (accept : σ → String → Except Fault (Reader σ)) : σ → List (String × Tree) → σ → Prop
  | none {s : σ} : Accepts accept s [] s
  | member {s s' s'' : σ} {key : String} {v : Tree} {ms : List (String × Tree)} {value : Reader σ} :
      accept s key = .ok value → value.Reads v s' → Accepts accept s' ms s'' → Accepts accept s ((key, v) :: ms) s''

/-- One member is read, and the mark behind it comes next. -/
theorem members_member {value : Reader σ} {c : Char} (h : SpellsMember (key, v) text (c :: rest))
    (ha : Ahead first before text) (haccept : accept s key = .ok value) (hreads : value.Reads v s')
    (hc : c ∈ delimiters) :
    ∃ behind, Space behind (c :: rest) ∧
      members accept (fuel + 1) first s before = members accept fuel false s' behind := by
  obtain ⟨_, after, hkey, hcolon, hvalue⟩ := nextKey_start ha h
  obtain ⟨behind, hrun, hbehind⟩ := hreads.around hc hvalue
  refine ⟨behind, hbehind, ?_⟩
  rw [members_some hkey hcolon, haccept]
  change (value after >>= fun p => members accept fuel false p.1 p.2) = _
  rw [hrun]
  rfl

theorem members_accepted (h : Listed SpellsMember '\x7d' ms text rest) (hms : Accepts accept s ms s')
    (ha : Ahead first before text) (hfuel : ms.length < fuel) :
    members accept fuel first s before = .ok (s', rest) := by
  induction h generalizing s fuel first before with
  | last hpart =>
    -- the brace takes a step of its own
    obtain ⟨fuel, rfl⟩ := Nat.exists_eq_add_one_of_ne_zero (Nat.ne_zero_of_lt hfuel)
    obtain ⟨fuel, rfl⟩ := Nat.exists_eq_add_one_of_ne_zero (Nat.ne_zero_of_lt (Nat.lt_of_succ_lt_succ hfuel))
    cases hms with
    | member haccept hreads hnone =>
      cases hnone
      obtain ⟨behind, hbehind, hrun⟩ := members_member hpart ha haccept hreads (by decide)
      rw [hrun]
      exact members_none hbehind
  | more hpart _ ih =>
    obtain ⟨fuel, rfl⟩ := Nat.exists_eq_add_one_of_ne_zero (Nat.ne_zero_of_lt hfuel)
    cases hms with
    | member haccept hreads hms =>
      obtain ⟨behind, hbehind, hrun⟩ := members_member hpart ha haccept hreads (by decide)
      rw [hrun]
      exact ih hms (.comma hbehind) (Nat.lt_of_succ_lt_succ hfuel)

/-- Each key is accepted in the state that those before it have led to; the reader it was accepted with has not failed
on some text. -/
inductive Passes (accept : σ → String → Except Fault (Reader σ)) : σ → List String → σ → Prop
  | none {s : σ} : Passes accept s [] s
  | key {s s' s'' : σ} {key : String} {keys : List String} {value : Reader σ} {text rest : List Char} :
      accept s key = .ok value → value text = .ok (s', rest) → Passes accept s' keys s'' →
      Passes accept s (key :: keys) s''

theorem member_of_members (hcareful : ∀ s key value, accept s key = .ok value → value.Careful)
    {m : String × Tree} {c : Char} (h : SpellsMember m text (c :: rest)) (ha : Ahead first before text)
    (hc : c ∈ delimiters) (hrun : members accept (fuel + 1) first s before = .ok (s', rest')) :
    ∃ value s₁ after behind, accept s m.1 = .ok value ∧ value after = .ok (s₁, behind) ∧ Space behind (c :: rest) ∧
      members accept fuel false s₁ behind = .ok (s', rest') := by
  obtain ⟨_, after, hkey, hcolon, hvalue⟩ := nextKey_start ha h
  rw [members_some hkey hcolon] at hrun
  obtain ⟨value, haccept, hrun⟩ := exists_of_bind hrun
  obtain ⟨p, hp, hrun⟩ := exists_of_bind hrun
  exact ⟨value, p.1, after, p.2, haccept, hp, (hcareful _ _ _ haccept).around hc hvalue hp, hrun⟩

theorem members_passes (hcareful : ∀ s key value, accept s key = .ok value → value.Careful)
    (h : Listed SpellsMember '\x7d' ms text rest) (ha : Ahead first before text)
    (hrun : members accept fuel first s before = .ok (s', rest')) : Passes accept s (ms.map Prod.fst) s' := by
  induction h generalizing s fuel first before with
  | @last m _ _ hpart =>
    match fuel with
    | 0 => cases hrun
    | 1 =>
      obtain ⟨value, s₁, after, behind, -, -, -, hrun⟩ := member_of_members hcareful hpart ha (by decide) hrun
      cases hrun
    | fuel + 2 =>
      obtain ⟨value, s₁, after, behind, haccept, hvalue, hbehind, hrun⟩ :=
        member_of_members hcareful hpart ha (by decide) hrun
      rw [members_none hbehind] at hrun
      cases hrun
      exact .key haccept hvalue .none
  | @more m _ _ _ _ hpart _ ih =>
    match fuel with
    | 0 => cases hrun
    | fuel + 1 =>
      obtain ⟨value, s₁, after, behind, haccept, hvalue, hbehind, hrun⟩ :=
        member_of_members hcareful hpart ha (by decide) hrun
      exact .key haccept hvalue (ih (.comma hbehind) hrun)

/-! Records -/

theorem once_of_none {β : Type} {present : Option β} (h : present = none) (name : String) (value : Reader σ) :
    once name present value = .ok value := by
  rw [once, h]
  rfl

theorem of_once_eq_ok {β : Type} {present : Option β} {name : String} {value value' : Reader σ}
    (h : once name present value = .ok value') : present = none ∧ value' = value := by
  cases present with
  | none => exact ⟨rfl, (Except.ok.inj h).symm⟩
  | some b => cases h

section

variable {wanted : String} {finish : σ → Except Fault α} {inOrder : Reader α} {a : α}

theorem record_eq (hstart : skipSpace before = '\x7b' :: text) :
    record wanted s accept finish inOrder before =
      members accept (text.length + 1) true s text >>= fun p => finish p.1 >>= fun a => .ok (a, p.2) := by
  rw [record, bind_of_ok (get_eq _), hstart]
  rfl

theorem record_reads (hms : Accepts accept s ms s') (hfinish : finish s' = .ok a) :
    (record wanted s accept finish inOrder).Reads (.object ms) a := by
  intro text start rest hspace hspells hrest
  have hskip := skipSpace_start hspace hspells
  cases hspells with
  | emptyObject hclosing =>
    cases hms
    rw [record_eq hskip, members_none hclosing]
    change (finish s >>= _) = _
    rw [hfinish]
    rfl
  | object hlisted =>
    have hfuel := Nat.lt_succ_of_le hlisted.length_members.1
    rw [record_eq hskip, members_accepted hlisted hms .opening hfuel]
    change (finish s' >>= _) = _
    rw [hfinish]
    rfl

theorem passes_of_record (hcareful : ∀ s key value, accept s key = .ok value → value.Careful)
    (hspace : Space text start) (h : Spells (.object ms) start rest)
    (hrun : record wanted s accept finish inOrder text = .ok (a, rest')) :
    ∃ s', Passes accept s (ms.map Prod.fst) s' := by
  have hskip := skipSpace_start hspace h
  cases h with
  | emptyObject => exact ⟨s, .none⟩
  | object hlisted =>
    rw [record_eq hskip] at hrun
    obtain ⟨p, hp, -⟩ := exists_of_bind hrun
    exact ⟨p.1, members_passes hcareful hlisted .opening hp⟩

/-! Whole texts -/

theorem document_of_reads {r : Reader α} (h : r.Reads v a) {text : String} (htext : IsText v text) :
    document r text = .ok a := by
  cases htext with
  | around hspace hspells hbehind =>
    rw [document, h _ _ _ hspace hspells (ends_nil.of_space hbehind)]
    change (if skipSpace _ = [] then _ else _) = _
    rw [skipSpace_of_space hbehind]
    rfl

end

end FileFixture.Json.Reader
