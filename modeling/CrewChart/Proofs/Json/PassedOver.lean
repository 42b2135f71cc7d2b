import CrewChart.Proofs.Json.Brackets
import CrewChart.Proofs.Json.Scalars

/-!
# Passing over a value ends where reading it ends

Less is asked of a value that is passed over than of one that is read, and it is done by other
functions.  Where both succeed they must stop at the same place, or the members after it would be
read differently.  `PassesOver p` says that passing over ends wherever `p` ends.

## What is here

* `skipScalar_of_scalar` — strings, numbers and keywords end at one place;
* `skipOpen_value` — a value passed over alone is passed over inside open brackets;
* `passesOver_value` — the two agree on every value that is read.
-/

set_option autoImplicit false

namespace CrewChart.Json

variable {s r : List Char}

/-! ## Strings -/

theorem skipString_quote (t : List Char) : skipString ('"' :: t) = .ok t := by
  rw [skipString.eq_def]
  rfl

theorem skipString_plain {c : Char} (hquote : c ≠ '"') (hslash : c ≠ '\\')
    (hlow : ¬ c.toNat < 0x20) (t : List Char) : skipString (c :: t) = skipString t := by
  rw [skipString.eq_def]
  simp only [if_neg hquote, if_neg hslash, if_neg hlow]

theorem skipString_unit {n : Nat} (h : codeUnit s = .ok n) :
    skipString ('\\' :: 'u' :: s) = skipString (s.drop 4) := by
  rw [skipString.eq_def]
  simp [h]

theorem skipString_letter {c d : Char} (hc : c ≠ 'u') (h : unescape? c = some d) (t : List Char) :
    skipString ('\\' :: c :: t) = skipString t := by
  rw [skipString.eq_def]
  simp [hc, h]

/-- The second half of a pair is an escape of its own where a string is passed over. -/
theorem skipString_trailingHalf {leading : Nat} {c : Char}
    (h : trailingHalf leading s = .ok (c, r)) : skipString s = skipString r := by
  rw [trailingHalf.eq_def] at h
  split at h
  · cases h
  · cases h
  · rename_i t
    cases hu : codeUnit t with
    | error f => rw [hu] at h; cases h
    | ok n =>
      rw [hu] at h
      simp only at h
      split_ifs at h
      simp only [Except.ok.injEq, Prod.mk.injEq] at h
      rw [← h.2]
      exact skipString_unit hu
  · cases h
  · cases h

/-- An escape that stands for a character is passed over, whether it is a letter, a code unit or a
pair of them. -/
theorem skipString_escaped {c : Char} (h : escaped s = .ok (c, r)) :
    skipString ('\\' :: s) = skipString r := by
  rw [escaped.eq_def] at h
  split at h
  · cases h
  · rename_i t
    cases hu : codeUnit t with
    | error f => rw [hu] at h; cases h
    | ok n =>
      rw [hu] at h
      simp only at h
      rw [skipString_unit hu]
      split_ifs at h
      · exact skipString_trailingHalf h
      · cases h; rfl
  · rename_i d t hd
    cases hu : unescape? d with
    | none => rw [hu] at h; cases h
    | some e =>
      rw [hu] at h
      cases h
      exact skipString_letter (fun h => hd h) hu _

/-- A string that is read is passed over to its closing quote. -/
theorem skipString_of_stringTail {taken : List Char} {x : String}
    (h : stringTail taken s = .ok (x, r)) : skipString s = .ok r := by
  fun_induction stringTail taken s with
  | case1 => cases h
  | case2 taken t => cases h; exact skipString_quote r
  | case3 => cases h
  | case4 taken t c u he _ _ ih => rw [skipString_escaped he]; exact ih h
  | case5 => cases h
  | case6 taken c t hquote hslash hlow ih =>
    rw [skipString_plain hquote hslash hlow]; exact ih h

/-! ## Numbers -/

/-- The digits that are no longer counted are passed over as well. -/
theorem skipDigits_gather (n : Nat) (s : List Char) :
    skipDigits (gather n s).2.2 = skipDigits s := by
  fun_induction gather n s with
  | case1 => rfl
  | case2 n c s hc m count t hr ih =>
    rw [hr] at ih
    rw [Bool.and_eq_true] at hc
    rw [skipDigits, skipDigits, List.dropWhile_cons_of_pos hc.1]
    exact ih
  | case3 => rfl

/-- An exponent ends with its digits, also one that is too great to be counted. -/
theorem powerDigits_snd (negative : Bool) (e : Nat) (s : List Char) :
    (powerDigits negative e s).2 = skipDigits s := by
  fun_induction powerDigits negative e s with
  | case1 => rfl
  | case2 e c s hc _ ih => rw [ih, skipDigits, skipDigits, List.dropWhile_cons_of_pos hc]
  | case3 e c s hc => rw [skipDigits, skipDigits, List.dropWhile_cons_of_pos hc]
  | case4 e c s hc => rw [skipDigits, List.dropWhile_cons_of_neg hc]

theorem skipPower_of_power {p : Option Power} (h : power s = .ok (p, r)) :
    skipPower s = .ok r := by
  cases s with
  | nil => cases h; rfl
  | cons c t =>
    rw [power] at h
    simp only [skipPower]
    split_ifs at h ⊢ with hc
    · cases hp : powerTail t with
      | error f => rw [hp] at h; cases h
      | ok x =>
        rw [hp] at h
        cases h
        obtain ⟨d, u, hd, ht⟩ := powerTail_eq_ok_iff.1 hp
        have hplus : d ≠ '+' := by rintro rfl; exact absurd hd (by decide)
        have hminus : d ≠ '-' := by rintro rfl; exact absurd hd (by decide)
        -- without a sign, with a plus, and with a minus
        rcases ht with ⟨rfl, rfl⟩ | ⟨rfl, rfl⟩ | ⟨rfl, rfl⟩
        · simp [hplus, hminus, hd, powerDigits_snd]
        · simp [hd, powerDigits_snd]
        · simp [hd, powerDigits_snd]
    · cases h; rfl

/-- What follows the whole digits of a number: a point and digits, an exponent, or nothing. -/
theorem skipFraction_of_numberTail {negative : Bool} {digits dropped : Nat} {n : Number}
    (h : numberTail negative digits dropped s = .ok (n, r)) : skipFraction s = .ok r := by
  by_cases hs : s.head? = some '.'
  · obtain ⟨t, rfl⟩ : ∃ t, s = '.' :: t := by cases s <;> simp_all
    cases t with
    | nil => cases h
    | cons c t =>
      simp only [numberTail] at h
      split_ifs at h with hc
      rw [skipDigits_gather] at h
      have hskip : skipDigits (c :: t) = skipDigits t := List.dropWhile_cons_of_pos hc
      rw [hskip] at h
      cases hp : power (skipDigits t) with
      | error f => rw [hp] at h; cases h
      | ok x =>
        obtain ⟨p, u⟩ := x
        rw [hp] at h
        rw [numberOf_rest h, skipFraction]
        simp only [if_pos hc]
        exact skipPower_of_power hp
  · have hskip : skipFraction s = skipPower s := by
      rw [skipFraction]
      rintro t rfl
      exact hs rfl
    cases hp : power s with
    | error f => rw [numberTail_of_error hs hp] at h; cases h
    | ok x =>
      obtain ⟨p, u⟩ := x
      rw [hskip, skipPower_of_power hp]
      -- without point and exponent it is an integer, if no digit has been dropped
      cases p with
      | none =>
        rw [numberTail_of_end hs hp] at h
        split_ifs at h
        · cases h; rfl
        · rw [numberOf_rest h]
      | some p =>
        rw [numberTail_of_power hs hp] at h
        rw [numberOf_rest h]

/-- A number that is read is passed over to its end. -/
theorem skipNumber_of_unsignedNumber {negative : Bool} {n : Number}
    (h : unsignedNumber negative s = .ok (n, r)) : skipNumber s = .ok r := by
  cases s with
  | nil => cases h
  | cons c t =>
    simp only [unsignedNumber] at h
    simp only [skipNumber]
    split_ifs at h ⊢
    · cases t with
      | nil => exact skipFraction_of_numberTail h
      | cons d u =>
        simp only at h ⊢
        split_ifs at h ⊢
        exact skipFraction_of_numberTail h
    · rw [skipDigits_gather] at h
      exact skipFraction_of_numberTail h

/-! ## Scalars -/

/-- **A scalar that is read is passed over to the same place.** -/
theorem skipScalar_of_scalar {v : Value} (h : scalar s = .ok (v, r)) : skipScalar s = .ok r := by
  cases s with
  | nil => cases h
  | cons c t =>
    rw [scalar] at h
    rw [skipScalar]
    split_ifs at h ⊢
    · obtain ⟨a, ha, hr⟩ := map_eq_ok h
      cases hr; exact ha
    · obtain ⟨a, ha, hr⟩ := map_eq_ok h
      cases hr; exact ha
    · obtain ⟨a, ha, hr⟩ := map_eq_ok h
      cases hr; exact ha
    · obtain ⟨⟨n, u⟩, ha, hr⟩ := map_eq_ok h
      cases hr; exact skipNumber_of_unsignedNumber ha
    · obtain ⟨⟨n, u⟩, ha, hr⟩ := map_eq_ok h
      cases hr; exact skipNumber_of_unsignedNumber ha
    · obtain ⟨⟨x, u⟩, ha, hr⟩ := map_eq_ok h
      cases hr; exact skipString_of_stringTail ha

/-! ## Open brackets -/

section Open

variable {b : Bracket} {bs outer : List Bracket} {first : Bool} {t : List Char}

theorem skipOpen_bracket (h : skipStart s = .ok (some b, t)) :
    skipOpen .value bs s = skipOpen (.rest true) (b :: bs) t := by
  rw [skipOpen]
  split
  · rename_i hs; rw [h] at hs; cases hs
  · rename_i hs; rw [h] at hs; cases hs; rfl
  · rename_i hs; rw [h] at hs; cases hs

theorem skipOpen_scalar (h : skipStart s = .ok (none, t)) :
    skipOpen .value bs s = skipOpen (.rest false) bs t := by
  rw [skipOpen]
  split
  · rename_i hs; rw [h] at hs; cases hs
  · rename_i hs; rw [h] at hs; cases hs
  · rename_i hs; rw [h] at hs; cases hs; rfl

theorem skipOpen_end (first : Bool) : skipOpen (.rest first) [] s = .ok s := by
  rw [skipOpen]

theorem skipOpen_more (h : skipRest first b s = .ok (true, t)) :
    skipOpen (.rest first) (b :: bs) s = skipOpen .value (b :: bs) t := by
  conv_lhs => rw [skipOpen]
  split
  · rename_i hs; rw [h] at hs; cases hs
  · rename_i hs; rw [h] at hs; cases hs; rfl
  · rename_i hs; rw [h] at hs; cases hs

theorem skipOpen_close (h : skipRest first b s = .ok (false, t)) :
    skipOpen (.rest first) (b :: bs) s = skipOpen (.rest false) bs t := by
  conv_lhs => rw [skipOpen]
  split
  · rename_i hs; rw [h] at hs; cases hs
  · rename_i hs; rw [h] at hs; cases hs
  · rename_i hs; rw [h] at hs; cases hs; rfl

/-- What closes some brackets goes on with those around them. -/
theorem skipOpen_append {pending : Pending} (h : skipOpen pending bs s = .ok r)
    (hp : pending = .rest true → bs ≠ []) :
    skipOpen pending (bs ++ outer) s = skipOpen (.rest false) outer r := by
  -- one case for each turn of the loop, and those in which it fails
  fun_induction skipOpen pending bs s with
  | case1 bs s f hs => cases h
  | case2 bs s b t hs _ ih =>
    rw [skipOpen_bracket hs]
    exact ih h fun _ => List.cons_ne_nil _ _
  | case3 bs s t hs _ ih =>
    rw [skipOpen_scalar hs]
    exact ih h fun h => by cases h
  | case4 s first =>
    cases h
    cases first with
    | true => exact absurd rfl (hp rfl)
    | false => rfl
  | case5 s first b bs f hs => cases h
  | case6 s first b bs t hs _ ih =>
    rw [List.cons_append, skipOpen_more hs]
    exact ih h fun h => by cases h
  | case7 s first b bs t hs _ ih =>
    rw [List.cons_append, skipOpen_close hs]
    exact ih h fun h => by cases h

/-- A value that is passed over alone is passed over inside open brackets. -/
theorem skipOpen_value (h : skipOpen .value [] s = .ok r) (bs : List Bracket) :
    skipOpen .value bs s = skipOpen (.rest false) bs r :=
  skipOpen_append h fun h => by cases h

/-- Blanks before a value make no difference. -/
theorem skipOpen_skipBlank (h : skipBlank s = skipBlank t) (ht : skipOpen .value bs t = .ok r) :
    skipOpen .value bs s = .ok r := by
  have hs : skipStart s = skipStart t := by rw [skipStart, skipStart, h]
  rw [skipOpen] at ht
  split at ht
  · cases ht
  · rename_i hx; rw [skipOpen_bracket (hs.trans hx)]; exact ht
  · rename_i hx; rw [skipOpen_scalar (hs.trans hx)]; exact ht

theorem skipStart_bracket {b : Bracket} {c : Char}
    (hc : b = .list ∧ c = '[' ∨ b = .object ∧ c = '\x7b') (h : skipBlank s = c :: t) :
    skipStart s = .ok (some b, t) := by
  rw [skipStart, h]
  rcases hc with ⟨rfl, rfl⟩ | ⟨rfl, rfl⟩ <;> rfl

end Open

namespace Reader

variable {α : Type}

/-- Passing over ends wherever reading ends. -/
def PassesOver (p : Reader α) : Prop :=
  ∀ {s r : List Char} {a : α}, p.run s = .ok (a, r) → skipOpen .value [] s = .ok r

/-- Items that are read are passed over to the bracket that closes them. -/
theorem skipOpen_items {p : Reader α} (hp : p.PassesOver) {first : Bool} {as : List α}
    (bs : List Bracket) (h : items p first s = .ok (as, r)) :
    skipOpen (.rest first) (.list :: bs) s = skipOpen (.rest false) bs r := by
  refine items_induction (P := fun first s _ =>
    skipOpen (.rest first) (.list :: bs) s = skipOpen (.rest false) bs r) ?_ ?_ h
  · rintro first s t hnext rfl
    obtain ⟨w, hs, rfl⟩ := nextItem_false_iff.1 hnext
    refine skipOpen_close ?_
    rw [skipRest, hs]
    rfl
  · intro first s t a u as hnext ha htail
    obtain ⟨c, w, rfl, hc, ⟨rfl, hs⟩ | ⟨rfl, x, hs, hx⟩⟩ := nextItem_true_iff.1 hnext
    · have hrest : skipRest true .list s = .ok (true, c :: w) := by
        rw [skipRest, hs]
        simp [Bracket.closing, hc, skipToItem, Except.map]
      rw [skipOpen_more hrest, skipOpen_value (hp ha)]
      exact htail
    · -- a reader looks past the blanks after a comma, and passing over leaves them for the value
      have hrest : skipRest false .list s = .ok (true, x) := by
        rw [skipRest, hs]
        rfl
      have hblank : skipBlank x = skipBlank (c :: w) := by rw [← hx, skipBlank_skipBlank]
      rw [skipOpen_more hrest, skipOpen_value (skipOpen_skipBlank hblank (hp ha))]
      exact htail

theorem skipKey_eq {t u : List Char} {key : String} (hs : skipBlank s = '"' :: t)
    (hk : stringTail [] t = .ok (key, r)) (hc : colon r = .ok u) : skipKey s = .ok u := by
  rw [skipKey, hs]
  simp [skipString_of_stringTail hk, hc]

/-- So are members. -/
theorem skipOpen_objectMembers {p : Reader Value} (hp : p.PassesOver) {first : Bool}
    {ms : List (String × Value)} (bs : List Bracket) (h : ObjectMembers p first s ms r) :
    skipOpen (.rest first) (.object :: bs) s = skipOpen (.rest false) bs (r.drop 1) := by
  induction h with
  | done hk =>
    obtain ⟨w, hs, rfl⟩ := nextKey_none_iff.1 hk
    refine skipOpen_close ?_
    rw [skipRest, hs]
    rfl
  | @more first s t u w r key v ms hk hc hv hms ih =>
    have hrest : skipRest first .object s = .ok (true, u) := by
      obtain ⟨x, hx, ⟨rfl, hs⟩ | ⟨rfl, y, hs, hy⟩⟩ := nextKey_some_iff.1 hk
      · have hkey := skipKey_eq (skipBlank_of_not_isBlank (c := '"') (by decide) x) hx hc
        rw [skipRest, hs]
        simp [Bracket.closing, skipToItem, hkey, Except.map]
      · have hkey := skipKey_eq hy hx hc
        rw [skipRest, hs]
        simp [Bracket.closing, skipToItem, hkey, Except.map]
    rw [skipOpen_more hrest, skipOpen_value (hp hv), ih]

/-! ## Values -/

theorem skipStart_scalar {v : Value} (h : scalar (skipBlank s) = .ok (v, r)) :
    skipStart s = .ok (none, r) := by
  rw [skipStart]
  cases hs : skipBlank s with
  | nil => rw [hs] at h; cases h
  | cons c t =>
    rw [hs] at h
    have hlist : c ≠ '[' := by rintro rfl; cases h
    have hobject : c ≠ '\x7b' := by rintro rfl; cases h
    simp only [if_neg hlist, if_neg hobject, skipScalar_of_scalar h]
    rfl

/-- **Passing over a value ends where reading it ends.** -/
theorem passesOver_value (levels : Nat) : (value levels).PassesOver := by
  induction levels with
  | zero =>
    intro s r v h
    rw [skipOpen_scalar (skipStart_scalar (run_value_zero_iff.1 h)), skipOpen_end]
  | succ levels ih =>
    intro s r v h
    rcases run_value_succ_iff.1 h with ⟨t, vs, hs, hi, rfl⟩ | ⟨t, ms, u, hs, hms, rfl, rfl⟩ | hsc
    · rw [skipOpen_bracket (skipStart_bracket (.inl ⟨rfl, rfl⟩) hs), skipOpen_items ih [] hi,
        skipOpen_end]
    · rw [skipOpen_bracket (skipStart_bracket (.inr ⟨rfl, rfl⟩) hs),
        skipOpen_objectMembers ih [] hms, skipOpen_end]
    · rw [skipOpen_scalar (skipStart_scalar hsc), skipOpen_end]

end Reader

end CrewChart.Json
