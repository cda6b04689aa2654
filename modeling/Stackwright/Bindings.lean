/-!
# Bindings

Keys with what they are bound to, in the order in which the keys first came. A
binding is found with `List.lookup`. There are few keys, so a list will do.

Binding a key changes what is found for this key alone (`lookup_put`), and a new key
comes last (`put_of_not_mem`). As long as the keys are apart, what is found for a key is
its one binding (`lookup_of_mem`).
-/

namespace Stackwright

/-- Keys with their values. -/
abbrev Bindings (κ β : Type) : Type := List (κ × β)

namespace Bindings

variable {κ β γ : Type} [BEq κ]

/-- The keys in their order. -/
def keys (bindings : Bindings κ β) : List κ := bindings.map Prod.fst

/-- Bind a key. One that is bound already stays in its place and gets the new value. -/
def put (bindings : Bindings κ β) (key : κ) (value : β) : Bindings κ β :=
  match bindings with
  | [] => [(key, value)]
  | entry :: rest =>
    if entry.1 == key then (key, value) :: rest else entry :: put rest key value

variable [LawfulBEq κ]

/-- A key that was just bound is found with its new value, and every other as before. -/
theorem lookup_put (bindings : Bindings κ β) (key : κ) (value : β) (other : κ) :
    (bindings.put key value).lookup other =
      if other == key then some value else bindings.lookup other := by
  induction bindings with
  | nil =>
    rw [put, List.lookup_cons]
    cases other == key <;> rfl
  | cons entry rest ih =>
    rw [put]
    by_cases here : entry.1 = key
    · rw [if_pos (by simpa using here), List.lookup_cons, List.lookup_cons, here]
      cases other == key <;> rfl
    · rw [if_neg (by simpa using here), List.lookup_cons, List.lookup_cons, ih]
      by_cases same : other = entry.1
      · simp [same, here]
      · rw [beq_false_of_ne same]

/-- A key without a binding is none of the keys. -/
theorem lookup_eq_none_iff {bindings : Bindings κ β} {key : κ} :
    bindings.lookup key = none ↔ key ∉ bindings.keys := by
  rw [List.lookup_eq_none_iff]
  constructor
  · intro other present
    obtain ⟨entry, mem, rfl⟩ := List.mem_map.mp present
    simpa using other entry mem
  · intro absent entry mem
    refine bne_iff_ne.mpr ?_
    rintro rfl
    exact absent (List.mem_map_of_mem mem)

/-- What does not bind a key is passed over when the key is looked up. -/
theorem lookup_append_of_not_mem {bindings : Bindings κ β} {key : κ}
    (absent : key ∉ bindings.keys) (rest : Bindings κ β) :
    (bindings ++ rest).lookup key = rest.lookup key := by
  rw [List.lookup_append, lookup_eq_none_iff.mpr absent, Option.none_or]

/-- What does not bind a key is passed over when the key is bound. -/
theorem put_append_of_not_mem {bindings : Bindings κ β} {key : κ} (absent : key ∉ bindings.keys)
    (rest : Bindings κ β) (value : β) :
    Bindings.put (bindings ++ rest) key value = bindings ++ rest.put key value := by
  induction bindings with
  | nil => rfl
  | cons entry bindings ih =>
    rw [keys, List.map_cons, List.mem_cons, not_or] at absent
    rw [List.cons_append, put, if_neg (by simpa using Ne.symm absent.1), ih absent.2]
    rfl

/-- A new key comes last. -/
theorem put_of_not_mem {bindings : Bindings κ β} {key : κ} (absent : key ∉ bindings.keys)
    (value : β) : bindings.put key value = bindings ++ [(key, value)] := by
  have put := put_append_of_not_mem absent [] value
  rwa [List.append_nil] at put

omit [BEq κ] [LawfulBEq κ] in
theorem keys_append (earlier later : Bindings κ β) :
    (earlier ++ later).keys = earlier.keys ++ later.keys := List.map_append

omit [BEq κ] [LawfulBEq κ] in
/-- Another binding at the end keeps the keys apart just if its key is new. -/
theorem nodup_keys_append_iff {bindings : Bindings κ β} {key : κ} {value : β} :
    (bindings ++ [(key, value)]).keys.Nodup ↔ bindings.keys.Nodup ∧ key ∉ bindings.keys := by
  rw [keys, List.map_append, List.nodup_append]
  constructor
  · rintro ⟨distinct, -, apart⟩
    exact ⟨distinct, fun present => apart key present key List.mem_cons_self rfl⟩
  · rintro ⟨distinct, new⟩
    refine ⟨distinct, by simp, ?_⟩
    rintro old present _ last rfl
    obtain rfl : old = key := List.mem_singleton.mp last
    exact new present

omit [LawfulBEq κ] in
/-- What is done to all values is done to the one that is found. -/
theorem lookup_map (f : β → γ) (bindings : Bindings κ β) (key : κ) :
    (bindings.map fun entry => (entry.1, f entry.2)).lookup key = (bindings.lookup key).map f := by
  induction bindings with
  | nil => rfl
  | cons entry rest ih =>
    rw [List.map_cons, List.lookup_cons, List.lookup_cons, ih]
    cases key == entry.1 <;> rfl

omit [LawfulBEq κ] in
/-- Binding a key is the same before it and after it. -/
theorem map_put (f : β → γ) (bindings : Bindings κ β) (key : κ) (value : β) :
    (bindings.put key value).map (fun entry => (entry.1, f entry.2)) =
      Bindings.put (bindings.map fun entry => (entry.1, f entry.2)) key (f value) := by
  induction bindings with
  | nil => rfl
  | cons entry rest ih =>
    rw [put, List.map_cons, put]
    split
    · rfl
    · rw [List.map_cons, ih]

/-- What is found is a binding. -/
theorem mem_of_lookup {bindings : Bindings κ β} {key : κ} {value : β}
    (found : bindings.lookup key = some value) : (key, value) ∈ bindings := by
  obtain ⟨before, after, rfl, -⟩ := List.lookup_eq_some_iff.mp found
  exact List.mem_append_right _ List.mem_cons_self

/-- If no key comes twice, each binding is the one that is found. -/
theorem lookup_of_mem {bindings : Bindings κ β} (h : bindings.keys.Nodup) {key : κ} {value : β}
    (mem : (key, value) ∈ bindings) : bindings.lookup key = some value := by
  induction bindings with
  | nil => cases mem
  | cons entry rest ih =>
    obtain ⟨apart, distinct⟩ := List.nodup_cons.mp h
    rw [List.lookup_cons]
    rcases List.mem_cons.mp mem with here | later
    · rw [← here, beq_self_eq_true]
    · have other : key ≠ entry.1 := by
        rintro rfl
        exact apart (List.mem_map.mpr ⟨_, later, rfl⟩)
      rw [beq_false_of_ne other]
      exact ih distinct later

end Bindings

end Stackwright
