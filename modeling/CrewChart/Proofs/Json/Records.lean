import CrewChart.Proofs.Json.Decoding

/-!
# Records taken in member by member

A record is built up in a draft, one member after the other.  What the finished draft holds can be
told from the members without going through them again: under a key that may occur once is what is
made of its value, and the members that are kept for later are all there.

## What is here

* `mapM_eq_some_iff` — what is made of a list, item by item;
* `TakesOnce`, `takeAll_required`, `takeAll_optional` — a field that may be taken in once;
* `takesOnce_ite`, `TakesOnce.ite`, `Keeps.ite` — the same told from how a step goes by the key;
* `takeAll_later`, `takeAll_all_later` — members that are kept for later;
* `decodeTuple_preserves` — what each step preserves, where fields may also come without keys.
-/

set_option autoImplicit false

namespace CrewChart.Json.Reader

variable {α β σ : Type}

/-! ## Items -/

theorem mapM_eq_some_iff {decode : α → Option β} {as : List α} {bs : List β} :
    as.mapM decode = some bs ↔ List.Forall₂ (fun a b => decode a = some b) as bs := by
  induction as generalizing bs with
  | nil =>
    rw [List.mapM_nil, List.forall₂_nil_left_iff]
    exact ⟨fun h => (Option.some.inj h).symm, fun h => congrArg some h.symm⟩
  | cons a as ih =>
    rw [List.mapM_cons, List.forall₂_cons_left_iff]
    constructor
    · intro h
      obtain ⟨b, hb, h⟩ := Option.bind_eq_some_iff.1 h
      obtain ⟨cs, hcs, h⟩ := Option.bind_eq_some_iff.1 h
      cases h
      exact ⟨b, cs, hb, ih.1 hcs, rfl⟩
    · rintro ⟨b, cs, hb, hcs, rfl⟩
      rw [hb, ih.2 hcs]
      rfl

theorem decodeItems_eq_some_iff {decode : Value → Option α} {v : Value} {as : List α} :
    decodeItems decode v = some as ↔
      ∃ vs, v = .array vs ∧ List.Forall₂ (fun v a => decode v = some a) vs as := by
  cases v with
  | array vs => simp [decodeItems, mapM_eq_some_iff]
  | _ => simp [decodeItems]

theorem exists_mem_of_mapM {decode : α → Option β} {as : List α} {bs : List β}
    (h : as.mapM decode = some bs) {b : β} (hb : b ∈ bs) : ∃ a ∈ as, decode a = some b := by
  rw [mapM_eq_some_iff] at h
  induction h with
  | nil => cases hb
  | @cons a c as cs hac _ ih =>
    rcases List.mem_cons.1 hb with rfl | hb
    · exact ⟨a, List.mem_cons_self, hac⟩
    · obtain ⟨a', ha', hab⟩ := ih hb
      exact ⟨a', List.mem_cons_of_mem a ha', hab⟩

theorem map_eq_of_forall₂ {γ : Type} {R : α → β → Prop} {f : α → γ} {g : β → γ} {as : List α}
    {bs : List β} (h : List.Forall₂ R as bs) (hfg : ∀ a ∈ as, ∀ b ∈ bs, R a b → g b = f a) :
    bs.map g = as.map f := by
  induction h with
  | nil => rfl
  | @cons a b as bs hab _ ih =>
    rw [List.map_cons, List.map_cons, hfg a List.mem_cons_self b List.mem_cons_self hab,
      ih fun a' ha b' hb =>
        hfg a' (List.mem_cons_of_mem a ha) b' (List.mem_cons_of_mem b hb)]

/-- What is made of the items of an array comes from one level below. -/
theorem decodeItems_forall {P : α → Prop} {decode : Value → Option α} {levels : Nat} {v : Value}
    {as : List α} (hv : v.Within (levels + 1))
    (hP : ∀ {w : Value} {a : α}, w.Within levels → decode w = some a → P a)
    (h : decodeItems decode v = some as) : ∀ a ∈ as, P a := by
  cases v with
  | array vs =>
    intro a ha
    obtain ⟨w, hw, hwa⟩ := exists_mem_of_mapM h ha
    exact hP (hv w hw) hwa
  | _ => cases h

/-! ## Members -/

variable {step : σ → String → Value → Option σ} {st st' : σ} {ms : List (String × Value)}

theorem takeAll_cons_iff {m : String × Value} :
    takeAll step st (m :: ms) = some st' ↔
      ∃ st₁, step st m.1 m.2 = some st₁ ∧ takeAll step st₁ ms = some st' := by
  rw [takeAll, List.foldlM_cons]
  exact Option.bind_eq_some_iff

theorem once_eq_some_iff {taken : Option β} {decode : Value → Option β} {set : β → σ} {v : Value} :
    once taken decode set v = some st' ↔ taken = none ∧ ∃ b, decode v = some b ∧ set b = st' := by
  rw [once]
  cases taken with
  | none => simp
  | some b => simp

theorem once_taken {get : σ → Option β} {decode : Value → Option β} {set : β → σ} {v : Value}
    (h : once (get st) decode set v = some st') (hset : ∀ b, get (set b) = some b) :
    get st = none ∧ ∃ b, decode v = some b ∧ get st' = some b := by
  obtain ⟨hst, b, hb, rfl⟩ := once_eq_some_iff.1 h
  exact ⟨hst, b, hb, hset b⟩

/-- What is made of the value under `key` is taken in once, as the field `get`. -/
structure TakesOnce (step : σ → String → Value → Option σ) (key : String) (get : σ → Option β)
    (decode : Value → Option β) : Prop where
  /-- The field is filled in where it was not. -/
  taken : ∀ {st st' : σ} {v : Value}, step st key v = some st' →
    get st = none ∧ ∃ b, decode v = some b ∧ get st' = some b
  /-- No other member changes it. -/
  other : ∀ {st st' : σ} {k : String} {v : Value}, k ≠ key → step st k v = some st' →
    get st' = get st

/-- The field `get` is never changed. -/
structure Keeps {γ : Type} (step : σ → String → Value → Option σ) (get : σ → γ) : Prop where
  /-- Every member leaves it as it is. -/
  kept : ∀ {st st' : σ} {k : String} {v : Value}, step st k v = some st' → get st' = get st

/-! A step asks for one key after the other.  Under the key it asks for it takes in a field, and
under any other it goes by what comes after that. -/

section Ite

variable {γ δ : Type} {rest : σ → String → Value → Option σ} {key key' : String}
  {get : σ → Option β} {decode : Value → Option β} {taken : σ → Option γ}
  {decode' : Value → Option γ} {kept : σ → δ} {set : σ → γ → σ}

theorem keeps_some {put : σ → String → Value → σ} (hput : ∀ st k v, kept (put st k v) = kept st) :
    Keeps (fun st k v => some (put st k v)) kept where
  kept h := by rw [← Option.some.inj h, hput]

theorem kept_of_ite {k : String} {v : Value} (hset : ∀ st c, kept (set st c) = kept st)
    (hrest : rest st k v = some st' → kept st' = kept st)
    (h : (if k = key' then once (taken st) decode' (set st) else rest st k) v = some st') :
    kept st' = kept st := by
  by_cases hk : k = key'
  · rw [if_pos hk] at h
    obtain ⟨-, c, -, rfl⟩ := once_eq_some_iff.1 h
    exact hset st c
  · rw [if_neg hk] at h
    exact hrest h

/-- A step that takes in another field first keeps what the rest of it keeps. -/
theorem Keeps.ite (hset : ∀ st c, kept (set st c) = kept st) (hrest : Keeps rest kept) :
    Keeps (fun st k => if k = key' then once (taken st) decode' (set st) else rest st k) kept where
  kept h := kept_of_ite hset hrest.kept h

/-- **A field is taken in once** if its key is asked for, and what comes after that keeps it. -/
theorem takesOnce_ite {set : σ → β → σ} (hset : ∀ st b, get (set st b) = some b)
    (hrest : Keeps rest get) :
    TakesOnce (fun st k => if k = key then once (get st) decode (set st) else rest st k)
      key get decode where
  taken h := by
    rw [if_pos rfl] at h
    exact once_taken h (hset _)
  other hk h := by
    rw [if_neg hk] at h
    exact hrest.kept h

/-- A step that takes in another field first takes in once what the rest of it does. -/
theorem TakesOnce.ite (hkey : key ≠ key') (hset : ∀ st c, get (set st c) = get st)
    (hrest : TakesOnce rest key get decode) :
    TakesOnce (fun st k => if k = key' then once (taken st) decode' (set st) else rest st k)
      key get decode where
  taken h := by
    rw [if_neg hkey] at h
    exact hrest.taken h
  other hk h := kept_of_ite hset (hrest.other hk) h

end Ite

section Once

variable {key : String} {get : σ → Option β} {decode : Value → Option β}
  (hkey : TakesOnce step key get decode)
include hkey

theorem takeAll_taken (h : takeAll step st ms = some st') {b : β} (hst : get st = some b) :
    ms.lookup key = none ∧ get st' = some b := by
  induction ms generalizing st with
  | nil => cases h; exact ⟨rfl, hst⟩
  | cons m ms ih =>
    obtain ⟨st₁, hstep, h⟩ := takeAll_cons_iff.1 h
    by_cases hm : m.1 = key
    · rw [hm] at hstep
      rw [(hkey.taken hstep).1] at hst
      cases hst
    · rw [lookup_cons_eq, if_neg (Ne.symm hm)]
      exact ih h ((hkey.other hm hstep).trans hst)

/-- **A field is what is made of the value under its key**, and nothing if the key is not there. -/
theorem takeAll_once (h : takeAll step st ms = some st') (hst : get st = none) :
    (ms.lookup key).map decode = (get st').map some := by
  induction ms generalizing st with
  | nil => cases h; rw [hst]; rfl
  | cons m ms ih =>
    obtain ⟨st₁, hstep, h⟩ := takeAll_cons_iff.1 h
    by_cases hm : m.1 = key
    · rw [hm] at hstep
      obtain ⟨-, b, hb, hst₁⟩ := hkey.taken hstep
      rw [lookup_cons_eq, if_pos hm.symm, (takeAll_taken hkey h hst₁).2]
      exact congrArg some hb
    · rw [lookup_cons_eq, if_neg (Ne.symm hm)]
      exact ih h ((hkey.other hm hstep).trans hst)

theorem takeAll_required (h : takeAll step st ms = some st') (hst : get st = none) {b : β}
    (hb : get st' = some b) : ∃ v, ms.lookup key = some v ∧ decode v = some b := by
  have hlookup := takeAll_once hkey h hst
  rw [hb] at hlookup
  exact Option.map_eq_some_iff.1 hlookup

theorem takeAll_optional (h : takeAll step st ms = some st') (hst : get st = none) (b : β) :
    (ms.lookup key).elim (some b) decode = some ((get st').getD b) := by
  have hlookup := takeAll_once hkey h hst
  cases hv : ms.lookup key with
  | none =>
    rw [hv] at hlookup
    rw [Option.map_eq_none_iff.1 hlookup.symm]
    rfl
  | some v =>
    rw [hv] at hlookup
    obtain ⟨c, hc, hd⟩ := Option.map_eq_some_iff.1 hlookup.symm
    rw [hc]
    exact hd.symm

end Once

/-- **Members kept for later are all there**, last one first. -/
theorem takeAll_later {get : σ → List (String × Value)} {late : String → Bool}
    (hlate : ∀ {st st' : σ} {k : String} {v : Value}, step st k v = some st' →
      get st' = if late k then (k, v) :: get st else get st)
    (h : takeAll step st ms = some st') :
    get st' = (ms.filter fun m => late m.1).reverse ++ get st := by
  induction ms generalizing st with
  | nil => cases h; rfl
  | cons m ms ih =>
    obtain ⟨st₁, hstep, h⟩ := takeAll_cons_iff.1 h
    rw [ih h, hlate hstep, List.filter_cons]
    split_ifs <;> simp

/-- Members that are all kept for later change nothing else in a draft. -/
theorem takeAll_all_later {draft : List (String × Value) → σ}
    (hstep : ∀ later, ∀ m ∈ ms, step (draft later) m.1 m.2 = some (draft (m :: later)))
    (later : List (String × Value)) :
    takeAll step (draft later) ms = some (draft (ms.reverse ++ later)) := by
  induction ms generalizing later with
  | nil => rfl
  | cons m ms ih =>
    rw [takeAll_cons_iff]
    refine ⟨draft (m :: later), hstep later m List.mem_cons_self, ?_⟩
    rw [ih fun later n hn => hstep later n (List.mem_cons_of_mem m hn), List.reverse_cons,
      List.append_assoc, List.singleton_append]

/-! ## Invariants -/

theorem takeAll_preserves {P : σ → Prop}
    (hstep : ∀ {st st' : σ}, ∀ m ∈ ms, P st → step st m.1 m.2 = some st' → P st')
    (h : takeAll step st ms = some st') (hst : P st) : P st' := by
  induction ms generalizing st with
  | nil => cases h; exact hst
  | cons m ms ih =>
    obtain ⟨st₁, hst₁, h⟩ := takeAll_cons_iff.1 h
    exact ih (fun n hn => hstep n (List.mem_cons_of_mem m hn)) h
      (hstep m List.mem_cons_self hst hst₁)

theorem takeFields_preserves {P : σ → Prop} {short : Nat → Option Cause} {keys : List String}
    {vs : List Value} {index : Nat}
    (hstep : ∀ {st st' : σ} (key : String), ∀ v ∈ vs, P st → step st key v = some st' → P st')
    (h : takeFields short step index st keys vs = some st') (hst : P st) : P st' := by
  induction keys generalizing index st vs with
  | nil =>
    cases vs with
    | nil => cases h; exact hst
    | cons v vs => cases h
  | cons key keys ih =>
    cases vs with
    | nil =>
      rw [takeFields] at h
      split_ifs at h
      exact ih hstep h hst
    | cons v vs =>
      rw [takeFields] at h
      obtain ⟨st₁, hst₁, h⟩ := Option.bind_eq_some_iff.1 h
      exact ih (fun key w hw => hstep key w (List.mem_cons_of_mem v hw)) h
        (hstep key v List.mem_cons_self hst hst₁)

/-- **What every step preserves is true of the finished draft**, whether the fields came with their
keys or without. -/
theorem decodeTuple_preserves {P : σ → Prop} {shape : Shape σ α} {keys : List String}
    {short : Nat → Option Cause} {levels : Nat} {v : Value} {a : α} (hv : v.Within (levels + 1))
    (hstep : ∀ {st st' : σ} (key : String) (w : Value), w.Within levels → P st →
      step st key w = some st' → P st')
    (h : decodeTuple shape step keys short v = some a) (hstart : P shape.start) :
    ∃ st, P st ∧ shape.finish st = .ok a := by
  cases v with
  | array vs =>
    obtain ⟨st, hst, hfinish⟩ := Option.bind_eq_some_iff.1 h
    exact ⟨st, takeFields_preserves (fun key w hw => hstep key w (hv w hw)) hst hstart,
      toOption_eq_some_iff.1 hfinish⟩
  | object ms =>
    obtain ⟨st, hst, hfinish⟩ := Option.bind_eq_some_iff.1 h
    exact ⟨st, takeAll_preserves (fun m hm => hstep m.1 m.2 (hv m hm)) hst hstart,
      toOption_eq_some_iff.1 hfinish⟩
  | _ => cases h

end CrewChart.Json.Reader
