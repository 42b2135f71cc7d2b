import CrewChart.Json.Scalar

/-!
# Readers

A `Reader` takes a value off the front of a text and always takes something.  Documents are read
straight into what they describe, in one pass: a document of the wrong form is refused where that
shows, even if the text after that place is no JSON.

Two readers do the work of brackets.  `listOf` reads an array, item by item.  `record` reads an
object whose members are handed to a `Shape` one by one; the shape decides, from the key and from
what it has, what is to be read next or that the key is refused.

Brackets nest at most 127 deep in what is kept.  The number of levels still allowed is an argument
of the readers that need it.
-/

set_option autoImplicit false

namespace CrewChart.Json

structure Reader (α : Type) where
  run : List Char → Read α
  consumes : ∀ {s r : List Char} {a : α}, run s = .ok (a, r) → r.length < s.length

namespace Reader

variable {α β σ : Type}

/-- Passes what was read through `f`. -/
def map (f : α → β) (p : Reader α) : Reader β where
  run s := (p.run s).map fun (a, r) => (f a, r)
  consumes := by
    intro s r b h
    obtain ⟨x, hx, hr⟩ := map_eq_ok h
    cases hr
    exact p.consumes hx

/-- Passes what was read through a check that does not see the text. -/
def check (f : α → Except Cause β) (p : Reader α) : Reader β where
  run s :=
    match p.run s with
    | .error e => .error e
    | .ok (a, r) =>
      match f a with
      | .error cause => .error (.loose cause r)
      | .ok b => .ok (b, r)
  consumes := by
    intro s r b h
    split at h
    · simp at h
    · rename_i a t hp
      split at h
      · simp at h
      · simp only [Except.ok.injEq, Prod.mk.injEq] at h
        rw [← h.2]; exact p.consumes hp

/-- A reader for what follows optional blanks. -/
def afterBlank (f : List Char → Read α)
    (consumes : ∀ {s r : List Char} {a : α}, f s = .ok (a, r) → r.length < s.length) :
    Reader α where
  run s := f (skipBlank s)
  consumes h := Nat.lt_of_lt_of_le (consumes h) (skipBlank_length _)

/-! ## The whole of a text -/

/-- A document is one value, with nothing but blanks around it. -/
def read (p : Reader α) (text : String) : Except Report α :=
  match p.run text.toList with
  | .error f => .error (.ofFailure text.toList f)
  | .ok (a, r) =>
    match skipBlank r with
    | [] => .ok a
    | t => .error (.ofFailure text.toList (.atNext .trailingText t))

/-! ## A value of another type -/

/-- The refusal of a value that is not what was expected.  A scalar is read to its end first, and
is refused for its own fault if it has one. -/
def refuse (expected : String) (s : List Char) : Failure :=
  match s with
  | '[' :: _ => .before (.wrongType .list expected) s
  | '\x7b' :: _ => .before (.wrongType .object expected) s
  | _ =>
    match scalar s with
    | .error f => f
    | .ok (v, r) => .before (.wrongType (.ofValue v) expected) r

/-- A scalar that `accept` knows what to do with. -/
def ofScalar (expected : String) (accept : Value → Option (Except Cause α)) : Reader α :=
  afterBlank
    (fun s =>
      match scalar s with
      | .error _ => .error (refuse expected s)
      | .ok (v, r) =>
        match accept v with
        | none => .error (.before (.wrongType (.ofValue v) expected) r)
        | some (.error cause) => .error (.before cause r)
        | some (.ok a) => .ok (a, r))
    (by
      intro s r a h
      split at h
      · simp at h
      · rename_i v t hs
        split at h
        · simp at h
        · simp at h
        · simp only [Except.ok.injEq, Prod.mk.injEq] at h
          rw [← h.2]; exact scalar_length hs)

def string : Reader String :=
  ofScalar "a string" fun
    | .string s => some (.ok s)
    | _ => none

def boolean : Reader Bool :=
  ofScalar "a boolean" fun
    | .boolean b => some (.ok b)
    | _ => none

/-- A natural number that fits 64 bits. -/
def word : Reader Nat :=
  ofScalar "u64" fun
    | .number (.integer n _) => if 0 ≤ n then some (.ok n.toNat) else none
    | _ => none

/-- Any number, as a binary64 number. -/
def binary64 : Reader Binary64 :=
  ofScalar "f64" fun
    | .number n => some (.ok n.nearest)
    | _ => none

/-- A string that is one of a few names. -/
def variantName (known : List (String × α)) : Reader α :=
  ofScalar "variant identifier" fun
    | .string s =>
      match known.lookup s with
      | some a => some (.ok a)
      | none => some (.error (.unknownVariant s (known.map Prod.fst)))
    | _ => none

/-- `null` for nothing. -/
def optional (p : Reader α) : Reader (Option α) :=
  afterBlank
    (fun s =>
      match s with
      | 'n' :: t => (keyword ['u', 'l', 'l'] t).map (none, ·)
      | _ => (p.run s).map fun (a, r) => (some a, r))
    (by
      intro s r a h
      split at h
      · rename_i t
        obtain ⟨u, hu, hr⟩ := map_eq_ok h
        cases hr
        exact Nat.lt_succ_of_le (keyword_length hu)
      · obtain ⟨x, hx, hr⟩ := map_eq_ok h
        cases hr
        exact p.consumes hx)

/-! ## Arrays -/

/-- Whether another item of an array follows, and the text from it or from the closing bracket. -/
def nextItem (first : Bool) (s : List Char) : Read Bool :=
  match skipBlank s with
  | [] => .error (.before (.unfinished .list) [])
  | c :: t =>
    if c = ']' then .ok (false, c :: t)
    else if first then .ok (true, c :: t)
    else if c = ',' then
      match skipBlank t with
      | [] => .error (.before (.unfinished .value) [])
      | d :: u => if d = ']' then .error (.atNext .trailingComma (d :: u)) else .ok (true, d :: u)
    else .error (.atNext .noCommaInList (c :: t))

theorem nextItem_length {first : Bool} {s r : List Char} {more : Bool}
    (h : nextItem first s = .ok (more, r)) : r.length ≤ s.length := by
  have hs := skipBlank_length s
  unfold nextItem at h
  split at h
  · simp at h
  · rename_i c t hc
    rw [hc] at hs
    split at h
    · simp only [Except.ok.injEq, Prod.mk.injEq] at h; rw [← h.2]; exact hs
    split at h
    · simp only [Except.ok.injEq, Prod.mk.injEq] at h; rw [← h.2]; exact hs
    split at h
    · have ht := skipBlank_length t
      split at h
      · simp at h
      · rename_i d u hd
        rw [hd] at ht
        split at h
        · simp at h
        · simp only [Except.ok.injEq, Prod.mk.injEq] at h
          rw [← h.2]; simp only [List.length_cons] at *; omega
    · simp at h

/-- The text past a closing bracket, if one follows. -/
def pastBracket (bracket : Char) (s : List Char) : List Char :=
  match skipBlank s with
  | [] => []
  | c :: t => if c = bracket then t else c :: t

/-- A failure that was noticed away from the text is placed where the enclosing bracket has got
to. -/
def settle (bracket : Char) (f : Failure) : Failure :=
  if f.settled then f else .before f.cause (pastBracket bracket f.rest)

/-- The items of an array after its opening bracket, and the text after its closing one. -/
def items (p : Reader α) (first : Bool) (s : List Char) : Read (List α) :=
  match hn : nextItem first s with
  | .error f => .error f
  | .ok (false, r) => .ok ([], r.drop 1)
  | .ok (true, r) =>
    match hp : p.run r with
    | .error f => .error f
    | .ok (a, t) =>
      have := nextItem_length hn
      have := p.consumes hp
      match items p false t with
      | .error f => .error f
      | .ok (as, u) => .ok (a :: as, u)
termination_by s.length

theorem items_length {p : Reader α} {first : Bool} {s r : List Char} {as : List α}
    (h : items p first s = .ok (as, r)) : r.length ≤ s.length := by
  fun_induction items p first s generalizing as r with
  | case1 => simp at h
  | case2 first s t hn =>
    have := nextItem_length hn
    simp only [Except.ok.injEq, Prod.mk.injEq] at h
    rw [← h.2]; simp only [List.length_drop]; omega
  | case3 => simp at h
  | case4 => simp at h
  | case5 first s t hn a u hp _ _ as' v hi ih =>
    have := ih hi
    have := nextItem_length hn
    have := p.consumes hp
    simp only [Except.ok.injEq, Prod.mk.injEq] at h
    rw [← h.2]; omega

/-- An array of any length. -/
def listOf (levels : Nat) (p : Nat → Reader α) : Reader (List α) :=
  afterBlank
    (fun s =>
      match s with
      | '[' :: t =>
        match levels with
        | 0 => .error (.atNext .tooDeep s)
        | inner + 1 =>
          match items (p inner) true t with
          | .error f => .error (settle ']' f)
          | .ok x => .ok x
      | _ => .error (refuse "a sequence" s))
    (by
      intro s r a h
      split at h
      · split at h
        · simp at h
        · split at h
          · simp at h
          · rename_i x hi
            simp only [Except.ok.injEq] at h
            rw [h] at hi
            have := items_length hi
            simp only [List.length_cons]; omega
      · simp at h)

/-! ## Objects -/

/-- How the members of an object are taken in.  `take` is asked as soon as the key is read, before
its value is. -/
structure Shape (σ α : Type) where
  start : σ
  take : σ → String → Except Cause (Reader σ)
  finish : σ → Except Cause α

/-- The key of the next member and the text after it, or the text from the closing bracket. -/
def nextKey (first : Bool) (s : List Char) : Read (Option String) :=
  match skipBlank s with
  | [] => .error (.before (.unfinished .object) [])
  | c :: t =>
    if c = '\x7d' then .ok (none, c :: t)
    else if first then
      if c = '"' then (stringTail [] t).map fun (k, r) => (some k, r)
      else .error (.atNext .keyNotString (c :: t))
    else if c = ',' then
      match skipBlank t with
      | [] => .error (.before (.unfinished .value) [])
      | d :: u =>
        if d = '"' then (stringTail [] u).map fun (k, r) => (some k, r)
        else if d = '\x7d' then .error (.atNext .trailingComma (d :: u))
        else .error (.atNext .keyNotString (d :: u))
    else .error (.atNext .noCommaInObject (c :: t))

theorem nextKey_length {first : Bool} {s r : List Char} {key : Option String}
    (h : nextKey first s = .ok (key, r)) : r.length ≤ s.length := by
  have hs := skipBlank_length s
  -- A key is a string wherever it stands, so its rest is bounded once for both places.
  have hk : ∀ {t : List Char}, ((stringTail [] t).map fun (k, r) => (some k, r)) = .ok (key, r) →
      r.length < t.length := by
    intro t h
    obtain ⟨x, hx, hr⟩ := map_eq_ok h
    cases hr
    exact stringTail_length hx
  unfold nextKey at h
  split at h
  · simp at h
  · rename_i c t hc
    rw [hc] at hs
    simp only [List.length_cons] at hs
    split at h
    · simp only [Except.ok.injEq, Prod.mk.injEq] at h
      rw [← h.2]; simp only [List.length_cons]; omega
    split at h
    · split at h
      · have := hk h; omega
      · simp at h
    split at h
    · have ht := skipBlank_length t
      split at h
      · simp at h
      · rename_i d u hd
        rw [hd] at ht
        simp only [List.length_cons] at ht
        split at h
        · have := hk h; omega
        · split at h <;> simp at h
    · simp at h

/-- The text after the colon of a member. -/
def colon (s : List Char) : Except Failure (List Char) :=
  match skipBlank s with
  | [] => .error (.before (.unfinished .object) [])
  | c :: t => if c = ':' then .ok t else .error (.atNext .noColon (c :: t))

theorem colon_length {s r : List Char} (h : colon s = .ok r) : r.length ≤ s.length := by
  have hs := skipBlank_length s
  unfold colon at h
  split at h
  · simp at h
  · rename_i c t hc
    rw [hc] at hs
    split at h
    · simp only [Except.ok.injEq] at h; rw [← h]; simp only [List.length_cons] at hs; omega
    · simp at h

/-- The members of an object after its opening bracket, and the text from its closing one. -/
def members (shape : Shape σ α) (first : Bool) (st : σ) (s : List Char) : Read σ :=
  match hk : nextKey first s with
  | .error f => .error f
  | .ok (none, r) => .ok (st, r)
  | .ok (some key, r) =>
    match shape.take st key with
    | .error cause => .error (.loose cause r)
    | .ok p =>
      match hc : colon r with
      | .error f => .error f
      | .ok t =>
        match hp : p.run t with
        | .error f => .error f
        | .ok (st, u) =>
          have := nextKey_length hk
          have := colon_length hc
          have := p.consumes hp
          members shape false st u
termination_by s.length

theorem members_length {shape : Shape σ α} {first : Bool} {st st' : σ} {s r : List Char}
    (h : members shape first st s = .ok (st', r)) : r.length ≤ s.length := by
  fun_induction members shape first st s with
  | case1 => simp at h
  | case2 first st s t hk =>
    have := nextKey_length hk
    simp only [Except.ok.injEq, Prod.mk.injEq] at h
    rw [← h.2]; exact this
  | case3 => simp at h
  | case4 => simp at h
  | case5 => simp at h
  | case6 _ _ _ _ _ _ _ _ _ _ _ _ _ _ _ _ ih => have := ih h; omega

/-- The object whose opening bracket has been read. -/
def object (shape : Shape σ α) (s : List Char) : Read α :=
  match members shape true shape.start s with
  | .error f => .error (settle '\x7d' f)
  | .ok (st, r) =>
    match shape.finish st with
    | .error cause => .error (.before cause (r.drop 1))
    | .ok a => .ok (a, r.drop 1)

theorem object_length {shape : Shape σ α} {s r : List Char} {a : α}
    (h : object shape s = .ok (a, r)) : r.length ≤ s.length := by
  unfold object at h
  split at h
  · simp at h
  · rename_i st t hm
    have := members_length hm
    split at h
    · simp at h
    · simp only [Except.ok.injEq, Prod.mk.injEq] at h
      rw [← h.2]; simp only [List.length_drop]; omega

/-- An object; `expected` names it in a refusal. -/
def record (levels : Nat) (expected : String) (shape : Nat → Shape σ α) : Reader α :=
  afterBlank
    (fun s =>
      match s with
      | '\x7b' :: t =>
        match levels with
        | 0 => .error (.atNext .tooDeep s)
        | inner + 1 => object (shape inner) t
      | _ => .error (refuse expected s))
    (by
      intro s r a h
      split at h
      · split at h
        · simp at h
        · have := object_length h; simp only [List.length_cons]; omega
      · simp at h)

/-! ## Names -/

/-- What follows the name in the long form of a variant: `null` and the closing bracket. -/
def noContent (s : List Char) : Except Failure (List Char) :=
  match colon s with
  | .error f => .error f
  | .ok r =>
    match skipBlank r with
    | 'n' :: t =>
      match keyword ['u', 'l', 'l'] t with
      | .error f => .error f
      | .ok u =>
        match skipBlank u with
        | [] => .error (.before (.unfinished .object) [])
        | c :: v => if c = '\x7d' then .ok v else .error (.before .noValue (c :: v))
    | t => .error (refuse "unit" t)

theorem noContent_length {s r : List Char} (h : noContent s = .ok r) : r.length ≤ s.length := by
  unfold noContent at h
  split at h
  · simp at h
  · rename_i t ht
    have h1 := colon_length ht
    have h2 := skipBlank_length t
    split at h
    · rename_i u hu
      rw [hu] at h2
      split at h
      · simp at h
      · rename_i v hv
        have h3 := keyword_length hv
        have h4 := skipBlank_length v
        split at h
        · simp at h
        · rename_i c w hw
          rw [hw] at h4
          simp only [List.length_cons] at h2 h4
          split at h
          · simp only [Except.ok.injEq] at h; rw [← h]; omega
          · simp at h
    · simp at h

/-- The name that is the one key of an object whose opening bracket has been read. -/
def longName (known : List (String × α)) (s : List Char) : Read α :=
  match skipBlank s with
  | [] => .error (.before (.unfinished .object) [])
  | c :: t =>
    if c = '"' then
      match (variantName known).run (c :: t) with
      | .error f => .error f
      | .ok (a, r) => (noContent r).map (a, ·)
    else if c = '\x7d' then .error (.atNext .noValue (c :: t))
    else .error (.atNext .keyNotString (c :: t))

theorem longName_length {known : List (String × α)} {s r : List Char} {a : α}
    (h : longName known s = .ok (a, r)) : r.length ≤ s.length := by
  have hs := skipBlank_length s
  unfold longName at h
  split at h
  · simp at h
  · rename_i c t hc
    rw [hc] at hs
    split at h
    · split at h
      · simp at h
      · rename_i b u hb
        have h1 := (variantName known).consumes hb
        obtain ⟨x, hx, hr⟩ := map_eq_ok h
        cases hr
        have h2 := noContent_length hx
        omega
    · split at h <;> simp at h

/-- One of a few names: as a string, or as the one key of an object with nothing under it. -/
def variant (levels : Nat) (known : List (String × α)) : Reader α :=
  afterBlank
    (fun s =>
      match s with
      | [] => .error (.before (.unfinished .value) [])
      | '"' :: _ => (variantName known).run s
      | '\x7b' :: t =>
        match levels with
        | 0 => .error (.atNext .tooDeep s)
        | _ + 1 => longName known t
      | _ => .error (.atNext .noValue s))
    (by
      intro s r a h
      split at h
      · simp at h
      · exact (variantName known).consumes h
      · split at h
        · simp at h
        · have := longName_length h; simp only [List.length_cons]; omega
      · simp at h)

/-! ## Records without names

Some records may also be written as an array of their fields in a fixed order.  The array may stop
early where every field left can do without a value; it may not go on. -/

/-- Fields in order, each taken as a member of its name would be. -/
def fields (shape : Shape σ α) (short : Nat → Option Cause) (first : Bool) (index : Nat) (st : σ) :
    List String → List Char → Read σ
  | [], s => .ok (st, s)
  | key :: keys, s =>
    match nextItem first s with
    | .error f => .error f
    | .ok (false, r) =>
      match short index with
      | some cause => .error (.loose cause r)
      | none => fields shape short true (index + 1) st keys r
    | .ok (true, r) =>
      match shape.take st key with
      | .error cause => .error (.loose cause r)
      | .ok p =>
        match p.run r with
        | .error f => .error f
        | .ok (st, t) => fields shape short false (index + 1) st keys t

theorem fields_length {shape : Shape σ α} {short : Nat → Option Cause} {first : Bool} {index : Nat}
    {st st' : σ} {keys : List String} {s r : List Char}
    (h : fields shape short first index st keys s = .ok (st', r)) : r.length ≤ s.length := by
  fun_induction fields shape short first index st keys s with
  | case1 => simp only [Except.ok.injEq, Prod.mk.injEq] at h; simp [← h.2]
  | case2 => simp at h
  | case3 => simp at h
  | case4 _ _ _ _ _ _ _ hn _ ih =>
    have := nextItem_length hn; have := ih h; omega
  | case5 => simp at h
  | case6 => simp at h
  | case7 _ _ _ _ _ _ _ hn p _ _ _ hp ih =>
    have := nextItem_length hn; have := p.consumes hp; have := ih h; omega

/-- The end of such an array. -/
def endOfFields (s : List Char) : Except Failure (List Char) :=
  match skipBlank s with
  | [] => .error (.before (.unfinished .list) [])
  | c :: t =>
    if c = ']' then .ok t
    else if c = ',' then
      match skipBlank t with
      | [] => .error (.before .trailingText [])
      | d :: u =>
        if d = ']' then .error (.atNext .trailingComma (d :: u))
        else .error (.atNext .trailingText (d :: u))
    else .error (.atNext .trailingText (c :: t))

theorem endOfFields_length {s r : List Char} (h : endOfFields s = .ok r) :
    r.length ≤ s.length := by
  have hs := skipBlank_length s
  unfold endOfFields at h
  split at h
  · simp at h
  · rename_i c t hc
    rw [hc] at hs
    split at h
    · simp only [Except.ok.injEq] at h; rw [← h]; simp only [List.length_cons] at hs; omega
    split at h
    · split at h
      · simp at h
      · split at h <;> simp at h
    · simp at h

/-- The array of fields whose opening bracket has been read. -/
def tuple (shape : Shape σ α) (keys : List String) (short : Nat → Option Cause) (s : List Char) :
    Read α :=
  match fields shape short true 0 shape.start keys s with
  | .error f => .error (settle ']' f)
  | .ok (st, r) =>
    match endOfFields r with
    | .error f => .error f
    | .ok t =>
      match shape.finish st with
      | .error cause => .error (.before cause t)
      | .ok a => .ok (a, t)

theorem tuple_length {shape : Shape σ α} {keys : List String} {short : Nat → Option Cause}
    {s r : List Char} {a : α} (h : tuple shape keys short s = .ok (a, r)) :
    r.length ≤ s.length := by
  unfold tuple at h
  split at h
  · simp at h
  · rename_i st t hf
    have := fields_length hf
    split at h
    · simp at h
    · rename_i u he
      have := endOfFields_length he
      split at h
      · simp at h
      · simp only [Except.ok.injEq, Prod.mk.injEq] at h; rw [← h.2]; omega

/-- An object, or the array of its fields.  The two forms may differ in how a field is read. -/
def recordOrListed {τ : Type} (levels : Nat) (expected : String) (shape : Nat → Shape σ α)
    (listed : Nat → Shape τ α) (keys : List String) (short : Nat → Option Cause) : Reader α :=
  afterBlank
    (fun s =>
      match s with
      | '\x7b' :: t =>
        match levels with
        | 0 => .error (.atNext .tooDeep s)
        | inner + 1 => object (shape inner) t
      | '[' :: t =>
        match levels with
        | 0 => .error (.atNext .tooDeep s)
        | inner + 1 => tuple (listed inner) keys short t
      | _ => .error (refuse expected s))
    (by
      intro s r a h
      split at h
      · split at h
        · simp at h
        · have := object_length h; simp only [List.length_cons]; omega
      · split at h
        · simp at h
        · have := tuple_length h; simp only [List.length_cons]; omega
      · simp at h)

/-- An object, or the array of its fields, each read in the same way. -/
def recordOrTuple (levels : Nat) (expected : String) (shape : Nat → Shape σ α)
    (keys : List String) (short : Nat → Option Cause) : Reader α :=
  recordOrListed levels expected shape shape keys short

/-! ## Values -/

/-- The levels of brackets a document may have. -/
def maxLevels : Nat := 127

/-- The members of an object as they come, the last one first. -/
def rawShape (value : Reader Value) : Shape (List (String × Value)) Value where
  start := []
  take taken key := .ok (value.map fun v => (key, v) :: taken)
  finish taken := .ok (.object taken.reverse)

/-- Any value, as written. -/
def value : Nat → Reader Value
  | 0 => afterBlank
      (fun s =>
        match s with
        | '[' :: _ | '\x7b' :: _ => .error (.atNext .tooDeep s)
        | _ => scalar s)
      (by
        intro s r a h
        split at h
        · simp at h
        · simp at h
        · exact scalar_length h)
  | levels + 1 => afterBlank
      (fun s =>
        match s with
        | '[' :: t =>
          match items (value levels) true t with
          | .error f => .error (settle ']' f)
          | .ok (vs, r) => .ok (.array vs, r)
        | '\x7b' :: t => object (rawShape (value levels)) t
        | _ => scalar s)
      (by
        intro s r a h
        split at h
        · split at h
          · simp at h
          · rename_i vs u hi
            have := items_length hi
            simp only [Except.ok.injEq, Prod.mk.injEq] at h
            rw [← h.2]; simp only [List.length_cons]; omega
        · have := object_length h; simp only [List.length_cons]; omega
        · exact scalar_length h)

end Reader

/-- The value a text holds, in its kept form. -/
def Value.parse (text : String) : Except Report Value :=
  ((Reader.value Reader.maxLevels).read text).map Value.tidy

end CrewChart.Json
