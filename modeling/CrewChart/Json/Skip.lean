import CrewChart.Json.Reader

/-!
# Passing over a value

A member nobody asked for is passed over.  It has to be well-formed, but as nothing of it is kept,
less is asked of it than of a value that is read: a number may be as large as it likes, half a
surrogate pair goes through, and brackets may nest to any depth.  The brackets that are open are
kept on a list, so the depth costs no recursion.
-/

set_option autoImplicit false

namespace CrewChart.Json

/-! ## Scalars -/

/-- The rest of a string after its opening quote. -/
def skipString (s : List Char) : Except Failure (List Char) :=
  match s with
  | [] => .error (.before (.unfinished .string) [])
  | c :: s =>
    if c = '"' then .ok s
    else if c = '\\' then
      match s with
      | [] => .error (.before (.unfinished .string) [])
      | d :: t =>
        if d = 'u' then
          match codeUnit t with
          | .error f => .error f
          | .ok _ => skipString (t.drop 4)
        else if (unescape? d).isSome then skipString t
        else .error (.atNext .badEscape (d :: t))
    else if c.toNat < 0x20 then .error (.before .controlCharacter (c :: s))
    else skipString s
termination_by s.length
decreasing_by all_goals simp only [List.length_cons, List.length_drop]; omega

theorem skipString_length {s r : List Char} (h : skipString s = .ok r) : r.length < s.length := by
  fun_induction skipString s with
  | case1 => simp at h
  | case2 s => simp only [Except.ok.injEq] at h; simp [← h]
  | case3 => simp at h
  | case4 => simp at h
  | case5 t _ _ _ ih =>
    have := ih h; simp only [List.length_drop, List.length_cons] at *; omega
  | case6 _ _ _ _ _ ih => have := ih h; simp only [List.length_cons]; omega
  | case7 => simp at h
  | case8 => simp at h
  | case9 c s _ _ _ ih => have := ih h; simp only [List.length_cons]; omega

/-- An exponent, if there is one. -/
def skipPower (s : List Char) : Except Failure (List Char) :=
  match s with
  | [] => .ok []
  | c :: t =>
    if c = 'e' ∨ c = 'E' then
      let u := match t with
        | d :: u => if d = '+' ∨ d = '-' then u else t
        | [] => []
      match u with
      | d :: v => if isDigit d then .ok (skipDigits v) else .error (.atNext .badNumber u)
      | [] => .error (.before .badNumber [])
    else .ok s

theorem skipPower_length {s r : List Char} (h : skipPower s = .ok r) : r.length ≤ s.length := by
  unfold skipPower at h
  split at h
  · simp only [Except.ok.injEq] at h; simp [← h]
  · rename_i c t
    split at h
    · -- With a sign or without one, the digits begin in a text no longer than `t`.
      have hu : ∀ u : List Char, u.length ≤ t.length →
          (match u with
            | d :: v =>
              if isDigit d then .ok (skipDigits v) else .error (.atNext .badNumber u)
            | [] => .error (.before .badNumber []) : Except Failure (List Char)) = .ok r →
          r.length ≤ (c :: t).length := by
        intro u hu h
        split at h
        · rename_i d v
          have := skipDigits_length v
          split at h
          · simp only [Except.ok.injEq] at h
            simp only [List.length_cons] at *; rw [← h]; omega
          · simp at h
        · simp at h
      refine hu _ ?_ h
      split
      · split <;> simp
      · simp
    · simp only [Except.ok.injEq] at h; simp [← h]

/-- The part of a number after its whole digits. -/
def skipFraction (s : List Char) : Except Failure (List Char) :=
  match s with
  | '.' :: t =>
    match t with
    | d :: u => if isDigit d then skipPower (skipDigits u) else .error (.atNext .badNumber t)
    | [] => .error (.before .badNumber [])
  | s => skipPower s

theorem skipFraction_length {s r : List Char} (h : skipFraction s = .ok r) :
    r.length ≤ s.length := by
  unfold skipFraction at h
  split at h
  · split at h
    · rename_i d u
      have := skipDigits_length u
      split at h
      · have := skipPower_length h; simp only [List.length_cons]; omega
      · simp at h
    · simp at h
  · exact skipPower_length h

/-- A number after its sign. -/
def skipNumber (s : List Char) : Except Failure (List Char) :=
  match s with
  | [] => .error (.before .badNumber [])
  | c :: t =>
    if c = '0' then
      match t with
      | d :: _ => if isDigit d then .error (.atNext .badNumber t) else skipFraction t
      | [] => .ok []
    else if isDigit c then skipFraction (skipDigits t)
    else .error (.atNext .badNumber s)

theorem skipNumber_length {s r : List Char} (h : skipNumber s = .ok r) : r.length < s.length := by
  unfold skipNumber at h
  split at h
  · simp at h
  · rename_i c t
    simp only [List.length_cons]
    split at h
    · split at h
      · split at h
        · simp at h
        · have := skipFraction_length h; omega
      · simp only [Except.ok.injEq] at h; simp [← h]
    · split at h
      · have := skipFraction_length h; have := skipDigits_length t; omega
      · simp at h

/-- A value that is neither an array nor an object. -/
def skipScalar (s : List Char) : Except Failure (List Char) :=
  match s with
  | [] => .error (.before (.unfinished .value) [])
  | c :: t =>
    if c = 'n' then keyword ['u', 'l', 'l'] t
    else if c = 't' then keyword ['r', 'u', 'e'] t
    else if c = 'f' then keyword ['a', 'l', 's', 'e'] t
    else if c = '-' then skipNumber t
    else if isDigit c then skipNumber s
    else if c = '"' then skipString t
    else .error (.atNext .noValue s)

theorem skipScalar_length {s r : List Char} (h : skipScalar s = .ok r) : r.length < s.length := by
  unfold skipScalar at h
  split at h
  · simp at h
  · rename_i c t
    simp only [List.length_cons]
    split at h
    · have := keyword_length h; omega
    split at h
    · have := keyword_length h; omega
    split at h
    · have := keyword_length h; omega
    split at h
    · have := skipNumber_length h; omega
    split at h
    · have := skipNumber_length h; simpa using this
    split at h
    · have := skipString_length h; omega
    · simp at h

/-! ## Nested values -/

inductive Bracket where
  | list
  | object
deriving DecidableEq

namespace Bracket

def closing : Bracket → Char
  | .list => ']'
  | .object => '\x7d'

def unfinished : Bracket → Cause
  | .list => .unfinished .list
  | .object => .unfinished .object

def noComma : Bracket → Cause
  | .list => .noCommaInList
  | .object => .noCommaInObject

end Bracket

/-- The key and colon before the value of a member. -/
def skipKey (s : List Char) : Except Failure (List Char) :=
  match skipBlank s with
  | [] => .error (.before (.unfinished .object) [])
  | c :: t =>
    if c = '"' then
      match skipString t with
      | .error f => .error f
      | .ok r => Reader.colon r
    else .error (.atNext .keyNotString (c :: t))

theorem skipKey_length {s r : List Char} (h : skipKey s = .ok r) : r.length ≤ s.length := by
  have hs := skipBlank_length s
  unfold skipKey at h
  split at h
  · simp at h
  · rename_i c t hc
    rw [hc] at hs
    split at h
    · split at h
      · simp at h
      · rename_i u hu
        have := skipString_length hu
        have := Reader.colon_length h
        simp only [List.length_cons] at hs; omega
    · simp at h

/-- What precedes the value of the next item inside a bracket. -/
def skipToItem (b : Bracket) (s : List Char) : Except Failure (List Char) :=
  match b with
  | .list => .ok s
  | .object => skipKey s

theorem skipToItem_length {b : Bracket} {s r : List Char} (h : skipToItem b s = .ok r) :
    r.length ≤ s.length := by
  cases b with
  | list => simp only [skipToItem, Except.ok.injEq] at h; simp [← h]
  | object => exact skipKey_length h

/-- What is to be passed over: a value and then the rest of the open brackets, or just the rest of
them, where `first` tells that the innermost has only just been opened. -/
inductive Pending where
  | value
  | rest (first : Bool)

/-- What a value begins with: an opening bracket, or all of a scalar. -/
def skipStart (s : List Char) : Except Failure (Option Bracket × List Char) :=
  match skipBlank s with
  | [] => .error (.before (.unfinished .value) [])
  | c :: t =>
    if c = '[' then .ok (some .list, t)
    else if c = '\x7b' then .ok (some .object, t)
    else (skipScalar (c :: t)).map (none, ·)

theorem skipStart_length {s r : List Char} {b : Option Bracket} (h : skipStart s = .ok (b, r)) :
    r.length < s.length := by
  have hs := skipBlank_length s
  unfold skipStart at h
  split at h
  · simp at h
  · rename_i c t hc
    rw [hc] at hs
    simp only [List.length_cons] at hs
    split at h
    · simp only [Except.ok.injEq, Prod.mk.injEq] at h; rw [← h.2]; omega
    split at h
    · simp only [Except.ok.injEq, Prod.mk.injEq] at h; rw [← h.2]; omega
    · obtain ⟨x, hx, hr⟩ := map_eq_ok h
      cases hr
      exact Nat.lt_of_lt_of_le (skipScalar_length hx) hs

/-- What follows inside a bracket: its end, or the value of another item. -/
def skipRest (first : Bool) (b : Bracket) (s : List Char) : Except Failure (Bool × List Char) :=
  match skipBlank s with
  | [] => .error (.before b.unfinished [])
  | c :: t =>
    if c = b.closing then .ok (false, t)
    else if first then (skipToItem b (c :: t)).map (true, ·)
    else if c = ',' then (skipToItem b t).map (true, ·)
    else .error (.atNext b.noComma (c :: t))

theorem skipRest_length {first : Bool} {b : Bracket} {s r : List Char} {more : Bool}
    (h : skipRest first b s = .ok (more, r)) :
    r.length ≤ s.length ∧ (more = false → r.length < s.length) := by
  have hs := skipBlank_length s
  -- Only the closing bracket owes the strict bound: the first item may begin right here.
  have key : ∀ {u : List Char}, (skipToItem b u).map (true, ·) = .ok (more, r) →
      r.length ≤ u.length ∧ more = true := by
    intro u h
    obtain ⟨x, hx, hr⟩ := map_eq_ok h
    cases hr
    exact ⟨skipToItem_length hx, rfl⟩
  unfold skipRest at h
  split at h
  · simp at h
  · rename_i c t hc
    rw [hc] at hs
    simp only [List.length_cons] at hs
    split at h
    · simp only [Except.ok.injEq, Prod.mk.injEq] at h; rw [← h.2]
      exact ⟨by omega, fun _ => by omega⟩
    split at h
    · obtain ⟨h1, h2⟩ := key h
      simp only [List.length_cons] at h1
      exact ⟨by omega, fun h3 => by simp [h2] at h3⟩
    split at h
    · obtain ⟨h1, h2⟩ := key h
      exact ⟨by omega, fun h3 => by simp [h2] at h3⟩
    · simp at h

/-- Passes over what is pending inside the open brackets, the innermost first. -/
def skipOpen (pending : Pending) (brackets : List Bracket) (s : List Char) :
    Except Failure (List Char) :=
  match pending with
  | .value =>
    match hs : skipStart s with
    | .error f => .error f
    | .ok (some b, r) =>
      have := skipStart_length hs
      skipOpen (.rest true) (b :: brackets) r
    | .ok (none, r) =>
      have := skipStart_length hs
      skipOpen (.rest false) brackets r
  | .rest first =>
    match brackets with
    | [] => .ok s
    | b :: outer =>
      match hs : skipRest first b s with
      | .error f => .error f
      | .ok (true, r) =>
        have := skipRest_length hs
        skipOpen .value (b :: outer) r
      | .ok (false, r) =>
        have := (skipRest_length hs).2 rfl
        skipOpen (.rest false) outer r
termination_by (s.length, match pending with | .value => 0 | .rest _ => 1)
decreasing_by
  · exact .left _ _ this
  · exact .left _ _ this
  · rcases Nat.lt_or_ge r.length s.length with hlt | hge
    · exact .left _ _ hlt
    · rw [show r.length = s.length by omega]; exact .right _ (by simp)
  · exact .left _ _ this

theorem skipOpen_length {pending : Pending} {brackets : List Bracket} {s r : List Char}
    (h : skipOpen pending brackets s = .ok r) :
    match pending with
    | .value => r.length < s.length
    | .rest _ => r.length ≤ s.length := by
  fun_induction skipOpen pending brackets s with
  | case1 brackets s f hs => rw [skipOpen] at h; grind
  | case2 brackets s b t hs _ ih => rw [skipOpen] at h; grind
  | case3 brackets s t hs _ ih => rw [skipOpen] at h; grind
  | case4 s first => rw [skipOpen] at h; grind
  | case5 s first b outer f hs => rw [skipOpen] at h; grind
  | case6 s first b outer t hs _ ih => rw [skipOpen] at h; grind
  | case7 s first b outer t hs _ ih => rw [skipOpen] at h; grind

/-- Any value, of which nothing is kept. -/
def Reader.skipped : Reader Unit where
  run s := (skipOpen .value [] s).map ((), ·)
  consumes := by
    intro s r a h
    obtain ⟨x, hx, hr⟩ := map_eq_ok h
    cases hr
    exact skipOpen_length hx

/-- Passes over the value of a member, with what was there before. -/
def Reader.skipThen {σ : Type} (st : σ) : Reader σ := Reader.skipped.map fun _ => st

end CrewChart.Json
