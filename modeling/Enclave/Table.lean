/-!
# Tables

Text keys with values, in the order in which the keys were first put. Tables are small, so they
are searched from the front.
-/
namespace Enclave

abbrev Table (α : Type) := List (String × α)

namespace Table

variable {α : Type}

def get? : Table α → String → Option α
  | [], _ => none
  | (k, v) :: rest, key => if k = key then some v else get? rest key

def has (t : Table α) (key : String) : Bool :=
  (get? t key).isSome

/-- A key that is present keeps its place. -/
def put : Table α → String → α → Table α
  | [], key, value => [(key, value)]
  | (k, v) :: rest, key, value =>
    if k = key then (k, value) :: rest else (k, v) :: put rest key value

def erase : Table α → String → Table α
  | [], _ => []
  | (k, v) :: rest, key => if k = key then rest else (k, v) :: erase rest key

def keys (t : Table α) : List String :=
  t.map (·.1)

def values (t : Table α) : List α :=
  t.map (·.2)

@[simp]
theorem get?_put_self (t : Table α) (key : String) (v : α) : get? (put t key v) key = some v := by
  induction t with
  | nil => simp [put, get?]
  | cons entry rest ih =>
    obtain ⟨k, w⟩ := entry
    by_cases h : k = key <;> simp [put, get?, h, ih]

theorem get?_put_of_ne (t : Table α) {key other : String} (v : α) (h : other ≠ key) :
    get? (put t key v) other = get? t other := by
  induction t with
  | nil => simp [put, get?, Ne.symm h]
  | cons entry rest ih =>
    obtain ⟨k, w⟩ := entry
    by_cases hk : k = key
    · subst hk
      simp [put, get?, Ne.symm h]
    · simp only [put, hk, if_false, get?, ih]

/-- A new key goes to the end, an old one changes nothing. -/
theorem keys_put (t : Table α) (key : String) (v : α) :
    keys (put t key v) = if has t key then keys t else keys t ++ [key] := by
  induction t with
  | nil => simp [put, keys, has, get?]
  | cons entry rest ih =>
    obtain ⟨k, w⟩ := entry
    by_cases hk : k = key
    · simp [put, keys, has, get?, hk]
    · simp only [has, keys, get?, hk, if_false] at ih ⊢
      by_cases hr : (get? rest key).isSome = true <;> simp_all [put]

/-- Every key that is listed has a value. -/
theorem has_iff_mem_keys (t : Table α) (key : String) : t.has key = true ↔ key ∈ t.keys := by
  induction t with
  | nil => simp [has, get?, keys]
  | cons entry rest ih =>
    obtain ⟨k, v⟩ := entry
    by_cases hk : k = key
    · simp [has, get?, keys, hk]
    · simp only [has, keys] at ih
      simp [has, get?, keys, hk, Ne.symm hk, ih]

theorem nodup_keys_put {t : Table α} (h : t.keys.Nodup) (key : String) (v : α) :
    (t.put key v).keys.Nodup := by
  rw [keys_put]
  split
  · exact h
  · rename_i hnew
    have hkey : key ∉ t.keys := fun hmem => hnew ((has_iff_mem_keys t key).mpr hmem)
    exact List.nodup_append.mpr ⟨h, by simp, fun a ha b hb hab =>
      hkey (List.mem_singleton.mp hb ▸ hab ▸ ha)⟩

/-- What is put under a key takes the place of what was there, if anything. -/
theorem mem_values_put {t : Table α} {key : String} {v w : α} (h : w ∈ (t.put key v).values) :
    w = v ∨ w ∈ t.values := by
  induction t with
  | nil => exact .inl (List.mem_singleton.mp h)
  | cons entry rest ih =>
    obtain ⟨k, old⟩ := entry
    by_cases hk : k = key
    · simp only [put, hk, if_true] at h
      exact (List.mem_cons.mp h).imp id fun hrest => List.mem_cons_of_mem _ hrest
    · simp only [put, hk, if_false] at h
      rcases List.mem_cons.mp h with rfl | hrest
      · exact .inr List.mem_cons_self
      · exact (ih hrest).imp id fun hw => List.mem_cons_of_mem _ hw

end Table
end Enclave
