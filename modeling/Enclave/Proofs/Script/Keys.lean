import Mathlib.Data.List.Induction
import Enclave.Proofs.Script.Reaches

/-! # The keys of a literal

A literal has each of its keys once, at the place at which it is written first.
-/
namespace Enclave

open Act

variable {ks : List String} {m m' : Machine} {on : Surroundings}

/-! ## First writes -/

/-- One more key comes last, unless it is there already. -/
theorem eraseDups_concat (ks : List String) (key : String) :
    (ks ++ [key]).eraseDups = if key ∈ ks then ks.eraseDups else ks.eraseDups ++ [key] := by
  rw [List.eraseDups_append]
  by_cases hk : key ∈ ks
  · simp [hk, List.removeAll]
  · simp [hk, List.removeAll, List.eraseDups_cons]

theorem nodup_eraseDups (ks : List String) : ks.eraseDups.Nodup := by
  induction ks using List.reverseRecOn with
  | nil => simp
  | append_singleton ks key ih =>
    rw [eraseDups_concat]
    by_cases hk : key ∈ ks
    · rw [if_pos hk]
      exact ih
    · have hk' : key ∉ ks.eraseDups := fun h => hk (List.mem_eraseDups.mp h)
      rw [if_neg hk, List.nodup_append]
      refine ⟨ih, by simp, fun a ha b hb hab => hk' ?_⟩
      rwa [← List.mem_singleton.mp hb, ← hab]

/-! ## Literals -/

/-- The keys of a literal, in order, each as often as it is written. -/
def Properties.spelled : Properties → List String
  | .nil => []
  | .keyed key _ rest => (fromComputed key).toList ++ rest.spelled
  | .shorthand name rest => name :: rest.spelled
  | .spread _ => []
  | .other _ => []

theorem keys_addProperty {keys : List String} {key : String}
    (h : addProperty ks.eraseDups key m = .done keys m') : keys = (ks ++ [key]).eraseDups := by
  rw [eraseDups_concat]
  unfold addProperty at h
  cases hi : ks.eraseDups.findIdx? (· == key) with
  | some i =>
    have hmem : key ∈ ks := by
      obtain ⟨hlt, hkey, -⟩ := List.findIdx?_eq_some_iff_getElem.mp hi
      rw [← List.mem_eraseDups, ← eq_of_beq hkey]
      exact List.getElem_mem hlt
    rw [hi] at h
    cases h
    rw [if_pos hmem]
  | none =>
    have hmem : key ∉ ks := by
      intro hk
      have := List.findIdx?_eq_none_iff.mp hi key (List.mem_eraseDups.mpr hk)
      simp at this
    rw [hi] at h
    cases h
    rw [if_neg hmem]

/-- Evaluation of a literal collects its keys in the order of their first appearance. -/
theorem Properties.keys_eval :
    ∀ (properties : Properties) (ks : List String) (m : Machine) {keys : List String}
      {m' : Machine}, properties.eval on ks.eraseDups m = .done keys m' →
        keys = (ks ++ properties.spelled).eraseDups
  | .nil, ks, m, keys, m', h => by
    rw [Properties.eval] at h
    cases h
    rw [spelled, List.append_nil]
  | .keyed key value rest, ks, m, keys, m', h => by
    rw [Properties.eval] at h
    cases hk : fromComputed key with
    | none =>
      rw [hk] at h
      cases h
    | some k =>
      rw [hk] at h
      obtain ⟨_, m₁, -, h⟩ := bind_done_iff.mp h
      obtain ⟨keys₁, m₂, hadd, h⟩ := bind_done_iff.mp h
      obtain rfl := keys_addProperty hadd
      rw [rest.keys_eval (ks ++ [k]) m₂ h, spelled, hk]
      simp
  | .shorthand name rest, ks, m, keys, m', h => by
    rw [Properties.eval] at h
    obtain ⟨_, m₁, -, h⟩ := bind_done_iff.mp h
    obtain ⟨keys₁, m₂, hadd, h⟩ := bind_done_iff.mp h
    obtain rfl := keys_addProperty hadd
    rw [rest.keys_eval (ks ++ [name]) m₂ h, spelled]
    simp
  | .spread _, ks, m, keys, m', h => by
    rw [Properties.eval] at h
    cases h
  | .other _, ks, m, keys, m', h => by
    rw [Properties.eval] at h
    cases h

end Enclave
