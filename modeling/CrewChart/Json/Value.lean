import CrewChart.Json.Number

/-!
# JSON values

A `Value` is a JSON document as written: the members of an object keep their order, and a key may
occur twice.  What is *kept* from a document is `tidy`: in every object the members are sorted by
key and of a repeated key the last member counts.  Keys are compared by code point, which is also
the order of their UTF-8 bytes.

`Attributes` is the other way members are kept: in the order of the document, a repeated key at its
first place with its last value.  It is what a chart uses for the attributes it does not know.
-/

set_option autoImplicit false

namespace CrewChart.Json

inductive Value where
  | null
  | boolean (b : Bool)
  | number (n : Number)
  | string (s : String)
  | array (items : List Value)
  | object (members : List (String × Value))

instance : Inhabited Value := ⟨.null⟩

/-! ## Equality -/

mutual

def Value.decEq : (v w : Value) → Decidable (v = w)
  | .null, .null => isTrue rfl
  | .boolean a, .boolean b => decidable_of_iff (a = b) (by simp)
  | .number a, .number b => decidable_of_iff (a = b) (by simp)
  | .string a, .string b => decidable_of_iff (a = b) (by simp)
  | .array a, .array b =>
    have := Value.decEqItems a b
    decidable_of_iff (a = b) (by simp)
  | .object a, .object b =>
    have := Value.decEqMembers a b
    decidable_of_iff (a = b) (by simp)
  | .null, .boolean _ | .null, .number _ | .null, .string _ | .null, .array _ | .null, .object _
  | .boolean _, .null | .boolean _, .number _ | .boolean _, .string _ | .boolean _, .array _
  | .boolean _, .object _
  | .number _, .null | .number _, .boolean _ | .number _, .string _ | .number _, .array _
  | .number _, .object _
  | .string _, .null | .string _, .boolean _ | .string _, .number _ | .string _, .array _
  | .string _, .object _
  | .array _, .null | .array _, .boolean _ | .array _, .number _ | .array _, .string _
  | .array _, .object _
  | .object _, .null | .object _, .boolean _ | .object _, .number _ | .object _, .string _
  | .object _, .array _ => isFalse (by simp)

def Value.decEqItems : (v w : List Value) → Decidable (v = w)
  | [], [] => isTrue rfl
  | a :: as, b :: bs =>
    have := Value.decEq a b
    have := Value.decEqItems as bs
    decidable_of_iff (a = b ∧ as = bs) (by simp)
  | [], _ :: _ | _ :: _, [] => isFalse (by simp)

def Value.decEqMembers : (v w : List (String × Value)) → Decidable (v = w)
  | [], [] => isTrue rfl
  | (k, a) :: as, (l, b) :: bs =>
    have := Value.decEq a b
    have := Value.decEqMembers as bs
    decidable_of_iff ((k = l ∧ a = b) ∧ as = bs) (by simp)
  | [], _ :: _ | _ :: _, [] => isFalse (by simp)

end

instance : DecidableEq Value := Value.decEq

/-! ## Members of an object -/

/-- Members in the order they first appeared, each key once. -/
abbrev Attributes := List (String × Value)

/-- The last value of a repeated key takes the place of the first. -/
def Attributes.put : Attributes → String → Value → Attributes
  | [], key, v => [(key, v)]
  | (k, w) :: rest, key, v =>
    if k = key then (k, v) :: rest else (k, w) :: Attributes.put rest key v

def Attributes.ofMembers (members : List (String × Value)) : Attributes :=
  members.foldl (fun kept (k, v) => Attributes.put kept k v) []

theorem Attributes.mem_keys_put (kept : Attributes) (key : String) (v : Value) (k : String) :
    k ∈ (kept.put key v).map Prod.fst ↔ k = key ∨ k ∈ kept.map Prod.fst := by
  induction kept with
  | nil => simp [put]
  | cons m rest ih =>
    obtain ⟨l, w⟩ := m
    by_cases h : l = key
    · simp [put, h]
    · simp only [put, if_neg h, List.map_cons, List.mem_cons, ih]; grind

theorem Attributes.lookup_put (kept : Attributes) (key : String) (v : Value) (k : String) :
    (kept.put key v).lookup k = if k = key then some v else kept.lookup k := by
  induction kept with
  | nil => grind [put]
  | cons m rest ih => grind [put]

/-! ## The kept form -/

/-- Puts a member into sorted members; a member that is there with the same key is replaced. -/
def insertSorted (key : String) (v : Value) : List (String × Value) → List (String × Value)
  | [] => [(key, v)]
  | (k, w) :: rest =>
    if key < k then (key, v) :: (k, w) :: rest
    else if key = k then (key, v) :: rest
    else (k, w) :: insertSorted key v rest

def sortMembers (members : List (String × Value)) : List (String × Value) :=
  members.foldl (fun kept (k, v) => insertSorted k v kept) []

mutual

/-- Sorted members and the last of each key, at every depth. -/
def Value.tidy : Value → Value
  | .array items => .array (Value.tidyItems items)
  | .object members => .object (sortMembers (Value.tidyMembers members))
  | .null => .null
  | .boolean b => .boolean b
  | .number n => .number n
  | .string s => .string s

def Value.tidyItems : List Value → List Value
  | [] => []
  | v :: rest => v.tidy :: Value.tidyItems rest

def Value.tidyMembers : List (String × Value) → List (String × Value)
  | [] => []
  | (k, v) :: rest => (k, v.tidy) :: Value.tidyMembers rest

end

theorem Value.tidyItems_eq_map (items : List Value) :
    Value.tidyItems items = items.map Value.tidy := by
  induction items with
  | nil => rfl
  | cons v rest ih => rw [Value.tidyItems, ih, List.map_cons]

theorem Value.tidyMembers_eq_map (members : List (String × Value)) :
    Value.tidyMembers members = members.map fun m => (m.1, m.2.tidy) := by
  induction members with
  | nil => rfl
  | cons m rest ih => rw [Value.tidyMembers, ih, List.map_cons]

/-! ## Looking into a value -/

namespace Value

/-- The member named `key`, of an object. -/
def member? : Value → String → Option Value
  | .object members, key => members.lookup key
  | _, _ => none

def string? : Value → Option String
  | .string s => some s
  | _ => none

def boolean? : Value → Option Bool
  | .boolean b => some b
  | _ => none

@[simp] theorem bind_string?_map (s : Option String) : (s.map Value.string).bind string? = s := by
  cases s <;> rfl

@[simp] theorem bind_boolean?_map (b : Option Bool) : (b.map Value.boolean).bind boolean? = b := by
  cases b <;> rfl

/-- Fields of an object that is written out; an absent one is left out. -/
def ofFields (fields : List (String × Option Value)) : Value :=
  .object (fields.filterMap fun (key, v?) => v?.map (key, ·))

def ofNat (n : Nat) : Value := .number (.ofNat n)

end Value

end CrewChart.Json
