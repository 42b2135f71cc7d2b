import CrewChart.Graph.Sheet
import CrewChart.Proofs.Json.Tidy

/-!
# What a sheet holds after its attributes have been entered

Attributes are entered one by one, and a known one is refused the second time.  What stands in the
sheet in the end depends on the attributes as a whole: under a known key the normal form of its
value, and the unknown ones in the order they came.

## What is here

* `Sheet.enterAll_cons_iff` — one attribute and those after it;
* `Sheet.lookup_known_of_enterAll`, `Sheet.extra_of_enterAll` — what the sheet holds in the end;
* `Sheet.exists_enterAll` — when no attribute is refused;
* `Component.lookup_sheet_known` — the sheet of a component holds every known attribute in its form;
* `Component.ofSheet_congr` — a component depends only on what its sheet holds.
-/

set_option autoImplicit false

namespace CrewChart

open Json (Value)

namespace Sheet

variable {kind : Kind} {s s' : Sheet} {ms : List (String × Value)} {key : String}

/-- The attributes a kind does not know, as they are kept. -/
def unknown (kind : Kind) (ms : List (String × Value)) : List (String × Value) :=
  (ms.filter fun m => (kind.known.lookup m.1).isNone).map fun m => (m.1, m.2.tidy)

/-! ## One attribute -/

theorem mayEnter_eq_ok_iff {form : Form} (hk : kind.known.lookup key = some form) :
    s.mayEnter kind key = .ok () ↔ s.known.lookup key = none := by
  rw [mayEnter, hk]
  cases s.known.lookup key <;> simp

theorem mayEnter_of_unknown (hk : kind.known.lookup key = none) :
    s.mayEnter kind key = .ok () := by
  rw [mayEnter, hk]
  rfl

theorem enter_eq_ok_iff {form : Form} {v : Value} (hk : kind.known.lookup key = some form) :
    s.enter kind key v = .ok s' ↔
      ∃ v?, form.normal v.tidy = .ok v? ∧ s' = { s with known := (key, v?) :: s.known } := by
  rw [enter, hk]
  cases hn : form.normal v.tidy with
  | error cause => simp [hn, Except.map]
  | ok v? => simp [hn, Except.map, eq_comm]

theorem enter_of_unknown {v : Value} (hk : kind.known.lookup key = none) :
    s.enter kind key v = .ok { s with extra := s.extra.put key v.tidy } := by
  rw [enter, hk]

theorem enterAll_cons_iff {m : String × Value} :
    s.enterAll kind (m :: ms) = .ok s' ↔ ∃ s₁, s.mayEnter kind m.1 = .ok () ∧
      s.enter kind m.1 m.2 = .ok s₁ ∧ s₁.enterAll kind ms = .ok s' := by
  obtain ⟨key, v⟩ := m
  rw [enterAll]
  cases s.mayEnter kind key with
  | error cause => simp
  | ok u =>
    cases s.enter kind key v with
    | error cause => simp
    | ok s₁ => simp

/-! ## All of them -/

/-- What stands under a known key stays. -/
theorem lookup_known_stays {form : Form} (hk : kind.known.lookup key = some form)
    {v? : Option Value} (hs : s.known.lookup key = some v?) (h : s.enterAll kind ms = .ok s') :
    ms.lookup key = none ∧ s'.known.lookup key = some v? := by
  induction ms generalizing s with
  | nil => cases h; exact ⟨rfl, hs⟩
  | cons m ms ih =>
    obtain ⟨s₁, hmay, henter, h⟩ := enterAll_cons_iff.1 h
    have hne : key ≠ m.1 := by
      rintro rfl
      rw [mayEnter_eq_ok_iff hk, hs] at hmay
      cases hmay
    have hs₁ : s₁.known.lookup key = some v? := by
      cases hm : kind.known.lookup m.1 with
      | none =>
        rw [enter_of_unknown hm] at henter
        cases henter
        exact hs
      | some form' =>
        obtain ⟨w?, -, rfl⟩ := (enter_eq_ok_iff hm).1 henter
        rw [Json.lookup_cons_eq, if_neg hne]
        exact hs
    rw [Json.lookup_cons_eq, if_neg hne]
    exact ih hs₁ h

/-- **Under a known key stands the normal form of its value.** -/
theorem lookup_known_of_enterAll {form : Form} (hk : kind.known.lookup key = some form)
    (hs : s.known.lookup key = none) (h : s.enterAll kind ms = .ok s') :
    match ms.lookup key with
    | none => s'.known.lookup key = none
    | some v => ∃ v?, form.normal v.tidy = .ok v? ∧ s'.known.lookup key = some v? := by
  induction ms generalizing s with
  | nil => cases h; exact hs
  | cons m ms ih =>
    obtain ⟨s₁, -, henter, h⟩ := enterAll_cons_iff.1 h
    rw [Json.lookup_cons_eq]
    by_cases hkey : key = m.1
    · -- From here on the attribute stays: another one under its key would be refused.
      subst hkey
      obtain ⟨v?, hn, rfl⟩ := (enter_eq_ok_iff hk).1 henter
      rw [if_pos rfl]
      exact ⟨v?, hn, (lookup_known_stays hk (List.lookup_cons_self) h).2⟩
    · rw [if_neg hkey]
      refine ih ?_ h
      cases hm : kind.known.lookup m.1 with
      | none =>
        rw [enter_of_unknown hm] at henter
        cases henter
        exact hs
      | some form' =>
        obtain ⟨w?, -, rfl⟩ := (enter_eq_ok_iff hm).1 henter
        rw [Json.lookup_cons_eq, if_neg hkey]
        exact hs

/-- **The unknown attributes are kept in the order they came.** -/
theorem extra_of_enterAll (h : s.enterAll kind ms = .ok s') :
    s'.extra = s.extra.putAll (unknown kind ms) := by
  induction ms generalizing s with
  | nil => cases h; rfl
  | cons m ms ih =>
    obtain ⟨s₁, -, henter, h⟩ := enterAll_cons_iff.1 h
    rw [ih h, unknown, unknown]
    cases hm : kind.known.lookup m.1 with
    | none =>
      rw [enter_of_unknown hm] at henter
      cases henter
      rw [List.filter_cons_of_pos (by rw [hm]; rfl)]
      rfl
    | some form =>
      obtain ⟨w?, -, rfl⟩ := (enter_eq_ok_iff hm).1 henter
      rw [List.filter_cons_of_neg (by rw [hm]; exact Bool.false_ne_true)]

/-- **Distinct attributes are entered if every known one has a normal form.** -/
theorem exists_enterAll (hms : (ms.map Prod.fst).Nodup)
    (hs : ∀ m ∈ ms, s.known.lookup m.1 = none)
    (hn : ∀ m ∈ ms, ∀ form, kind.known.lookup m.1 = some form →
      ∃ v?, form.normal m.2.tidy = .ok v?) :
    ∃ s', s.enterAll kind ms = .ok s' := by
  -- Over the sheet as well: what is to be entered is not in it yet.
  induction ms generalizing s with
  | nil => exact ⟨s, rfl⟩
  | cons m ms ih =>
    obtain ⟨hm, hms⟩ := List.nodup_cons.1 hms
    have hrest : ∀ n ∈ ms, n.1 ≠ m.1 := fun n hmem heq => hm (heq ▸ List.mem_map_of_mem hmem)
    cases hk : kind.known.lookup m.1 with
    | none =>
      obtain ⟨s', h⟩ := ih (s := { s with extra := s.extra.put m.1 m.2.tidy }) hms
        (fun n hmem => hs n (List.mem_cons_of_mem m hmem))
        (fun n hmem => hn n (List.mem_cons_of_mem m hmem))
      exact ⟨s', enterAll_cons_iff.2 ⟨_, mayEnter_of_unknown hk, enter_of_unknown hk, h⟩⟩
    | some form =>
      obtain ⟨v?, hv⟩ := hn m List.mem_cons_self form hk
      obtain ⟨s', h⟩ := ih (s := { s with known := (m.1, v?) :: s.known }) hms
        (fun n hmem => by
          rw [Json.lookup_cons_eq, if_neg (hrest n hmem)]
          exact hs n (List.mem_cons_of_mem m hmem))
        (fun n hmem => hn n (List.mem_cons_of_mem m hmem))
      exact ⟨s', enterAll_cons_iff.2 ⟨_, (mayEnter_eq_ok_iff hk).2 (hs m List.mem_cons_self),
        (enter_eq_ok_iff hk).2 ⟨v?, hv, rfl⟩, h⟩⟩

end Sheet

/-! ## Components -/

/-- A value as far as it is in the form. -/
def Form.held : Form → Option Value → Option Value
  | .text, v? => (v?.bind Value.string?).map .string
  | .flag, v? => (v?.bind Value.boolean?).map .boolean

theorem Form.normal_of_held {form : Form} {v? : Option Value} {v : Value}
    (h : form.held v? = some v) : v.tidy = v ∧ form.normal v = .ok (some v) := by
  cases form with
  | text =>
    obtain ⟨s, -, rfl⟩ := Option.map_eq_some_iff.1 h
    exact ⟨rfl, rfl⟩
  | flag =>
    obtain ⟨b, -, rfl⟩ := Option.map_eq_some_iff.1 h
    exact ⟨rfl, rfl⟩

/-- A normal form is in the form. -/
theorem Form.held_of_normal {form : Form} {v : Value} {v? : Option Value}
    (h : form.normal v = .ok v?) : form.held v? = v? := by
  cases form with
  | text =>
    cases v with
    | array items => cases h
    | object members => cases h
    | _ => cases h; rfl
  | flag =>
    cases v with
    | null => cases h; rfl
    | boolean b => cases h; rfl
    | string s =>
      rw [normal] at h
      split_ifs at h
      · cases h; rfl
      · cases h; rfl
    | number n => cases h
    | array items => cases h
    | object members => cases h

namespace Kind

theorem nodup_known (kind : Kind) : (kind.known.map Prod.fst).Nodup := by
  cases kind <;> decide

theorem mem_known_iff {kind : Kind} {key : String} :
    key ∈ kind.known.map Prod.fst ↔ ∃ form, kind.known.lookup key = some form := by
  constructor
  · intro h
    obtain ⟨⟨k, form⟩, hm, rfl⟩ := List.mem_map.1 h
    exact ⟨form, Json.lookup_of_mem kind.nodup_known hm⟩
  · rintro ⟨form, h⟩
    exact Json.mem_keys_of_lookup h

end Kind

namespace Sheet

/-- The attributes of a sheet as it is saved. -/
def members (s : Sheet) : List (String × Value) :=
  (s.known.filterMap fun m => m.2.map (m.1, ·)) ++ s.extra

theorem ext {s t : Sheet} (hknown : s.known = t.known) (hextra : s.extra = t.extra) : s = t := by
  cases s
  cases t
  cases hknown
  cases hextra
  rfl

theorem toValue_eq (s : Sheet) : s.toValue = .object s.members := rfl

end Sheet

namespace Component

/-- A component is made of the attributes of an object. -/
theorem ofValue_eq_ok_iff {kind : Kind} {v : Value} {c : Component} :
    ofValue kind v = .ok c ↔
      ∃ ms s, v = .object ms ∧ ({} : Sheet).enterAll kind ms = .ok s ∧ ofSheet kind s = c := by
  cases v with
  | object ms =>
    rw [ofValue]
    cases hs : ({} : Sheet).enterAll kind ms <;> simp [Except.map, hs]
  | _ => simp [ofValue]

theorem sheet_ofSheet_known (kind : Kind) (s : Sheet) :
    (ofSheet kind s).sheet.known
      = kind.known.map fun m => (m.1, m.2.held (s.known.lookup m.1).join) := by
  cases kind <;> rfl

theorem sheet_ofSheet_extra (kind : Kind) (s : Sheet) : (ofSheet kind s).sheet.extra = s.extra := by
  cases kind <;> rfl

/-- A component depends only on what its sheet holds. -/
theorem ofSheet_congr {kind : Kind} {s t : Sheet}
    (h : ∀ key ∈ kind.known.map Prod.fst, (s.known.lookup key).join = (t.known.lookup key).join)
    (hextra : s.extra = t.extra) : ofSheet kind s = ofSheet kind t := by
  have hknown : (ofSheet kind s).sheet.known = (ofSheet kind t).sheet.known := by
    rw [sheet_ofSheet_known, sheet_ofSheet_known]
    exact List.map_congr_left fun m hm => by rw [h m.1 (List.mem_map_of_mem hm)]
  have hsheet : (ofSheet kind s).sheet = (ofSheet kind t).sheet :=
    Sheet.ext hknown (by rw [sheet_ofSheet_extra, sheet_ofSheet_extra, hextra])
  have hs := ofSheet_sheet (ofSheet kind s)
  have ht := ofSheet_sheet (ofSheet kind t)
  rw [kind_ofSheet] at hs ht
  rw [← hs, ← ht, hsheet]

/-- **The sheet of a component holds every known attribute in its form**, and no other. -/
theorem lookup_sheet_known (c : Component) (key : String) :
    c.sheet.known.lookup key = (c.kind.known.lookup key).map fun form =>
      form.held (c.sheet.known.lookup key).join := by
  have h := sheet_ofSheet_known c.kind c.sheet
  rw [ofSheet_sheet] at h
  conv_lhs => rw [h]
  exact Json.lookup_map (fun key (form : Form) => form.held (c.sheet.known.lookup key).join) _ key

theorem nodup_sheet_known (c : Component) : (c.sheet.known.map Prod.fst).Nodup := by
  rw [sheet_known_keys]
  exact c.kind.nodup_known

/-- What is saved under a key: a known attribute, or one of the others. -/
theorem lookup_sheet_members (c : Component) (key : String) :
    c.sheet.members.lookup key
      = ((c.sheet.known.lookup key).join).or (c.sheet.extra.lookup key) := by
  rw [Sheet.members, List.lookup_append, Json.lookup_filterMap c.nodup_sheet_known]

end Component

end CrewChart
