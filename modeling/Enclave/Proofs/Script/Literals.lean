import Enclave.Proofs.Script.Heights

/-! # Objects under construction

A literal keeps the values of its properties on the stack until it has them all, one entry for each key.
The keys with their entries are a table at any time, and every property is put into it in turn.
-/
namespace Enclave

open Act

/-! ## Tables -/

namespace Table

variable {α : Type}

/-- A value goes under the key that is there already, or comes last under a new one. -/
theorem put_zip (keys : List String) (values : List α) (hl : keys.length = values.length)
    (key : String) (v : α) :
    put (keys.zip values) key v =
      match keys.findIdx? (· == key) with
      | some i => keys.zip (values.set i v)
      | none => (keys ++ [key]).zip (values ++ [v]) := by
  induction keys generalizing values with
  | nil =>
    cases values with
    | nil => rfl
    | cons => cases hl
  | cons k keys ih =>
    cases values with
    | nil => cases hl
    | cons value values =>
      have hrest := ih values (Nat.succ.inj hl)
      rw [List.zip_cons_cons, put, List.findIdx?_cons]
      by_cases hk : k = key
      · simp [hk]
      · have hbeq : (k == key) = false := beq_false_of_ne hk
        rw [if_neg hk, hrest, hbeq]
        cases keys.findIdx? (· == key) <;> rfl

/-- The keys that the entries of a stack go under. -/
theorem keys_zip {keys : List String} {values : List α} (hl : keys.length = values.length) :
    Table.keys (keys.zip values) = keys := by
  rw [Table.keys, List.map_fst_zip (Nat.le_of_eq hl)]

end Table

/-! ## One property -/

theorem reverse_set {α : Type} (l : List α) {i : Nat} (v : α) (hi : i < l.length) :
    (l.set (l.length - 1 - i) v).reverse = l.reverse.set i v := by
  apply List.ext_getElem
  · simp
  intro j h₁ h₂
  simp only [List.length_reverse, List.length_set] at h₁ h₂
  rw [List.getElem_reverse, List.getElem_set, List.getElem_set]
  simp only [List.length_set]
  by_cases hj : i = j
  · rw [if_pos (by omega), if_pos hj]
  · rw [if_neg (by omega), if_neg hj, List.getElem_reverse]

theorem World.newest_replaceBelow {w : World} {value : Slot} {rest : List Slot} {n i : Nat}
    (hs : w.stack = value :: rest) (hn : n ≤ rest.length) (hi : i < n) :
    (w.replaceBelow (n - 1 - i)).newest n = (rest.take n).reverse.set i value := by
  have hk : n - 1 - i < rest.length := by omega
  have hdrop : rest.drop (n - 1 - i) = rest[n - 1 - i] :: rest.drop (n - 1 - i + 1) :=
    List.drop_eq_getElem_cons hk
  have hlength : (rest.take n).length = n := by
    rw [List.length_take]
    omega
  have hset : rest.set (n - 1 - i) value =
      rest.take (n - 1 - i) ++ value :: rest.drop (n - 1 - i + 1) := by
    rw [List.set_eq_take_append_cons_drop, if_pos hk]
  have hreplaced : (w.replaceBelow (n - 1 - i)).stack = rest.set (n - 1 - i) value := by
    simp only [replaceBelow, hs, hdrop, hset]
  rw [newest, hreplaced, List.take_set, ← reverse_set _ value (hlength.symm ▸ hi), hlength]

/-- The newest entry is put under the key into the table of the keys and the entries beneath. -/
theorem Act.addProperty_eq {m : Machine} {value : Slot} {rest : List Slot} {keys : List String}
    (key : String) (hs : m.world.stack = value :: rest) (hrest : keys.length ≤ rest.length) :
    let table := Table.put (keys.zip (rest.take keys.length).reverse) key value
    ∃ m', addProperty keys key m = .done table.keys m' ∧
      table.keys.zip (m'.world.newest table.keys.length) = table := by
  have hlength : keys.length = (rest.take keys.length).reverse.length := by
    rw [List.length_reverse, List.length_take]
    omega
  dsimp only
  rw [Table.put_zip keys _ hlength]
  unfold addProperty
  cases hi : keys.findIdx? (· == key) with
  | none =>
    have hnewest : m.world.newest (keys ++ [key]).length =
        (rest.take keys.length).reverse ++ [value] := by
      rw [World.newest, hs, List.length_append, List.length_singleton, List.take_succ_cons,
        List.reverse_cons]
    have hl : (keys ++ [key]).length = ((rest.take keys.length).reverse ++ [value]).length := by
      rw [List.length_append, List.length_append, ← hlength]
      rfl
    dsimp only
    rw [Table.keys_zip hl]
    exact ⟨m, rfl, by rw [hnewest]⟩
  | some i =>
    obtain ⟨hlt, -⟩ := List.findIdx?_eq_some_iff_getElem.mp hi
    have hnewest := World.newest_replaceBelow hs hrest hlt
    have hl : keys.length = ((rest.take keys.length).reverse.set i value).length := by
      rw [List.length_set, ← hlength]
    dsimp only
    rw [Table.keys_zip hl]
    exact ⟨{ m with world := m.world.replaceBelow (keys.length - 1 - i) }, rfl, by rw [hnewest]⟩

/-! ## All properties -/

/-- What a literal comes to: each key that is written, with the slot that its value leaves. -/
inductive Properties.Collects (on : Surroundings) :
    Properties → List String → Machine → Table Slot → List String → Machine → Prop
  | nil (keys : List String) (m : Machine) : Collects on .nil keys m [] keys m
  | keyed {key : PropertyKey} {name : String} {value : Expr} {rest : Properties}
      {keys more keys' : List String} {entries : Table Slot} {m m₁ m₂ m' : Machine}
      (hk : fromComputed key = some name) (hvalue : value.eval on m = .done () m₁)
      (hadd : addProperty keys name m₁ = .done more m₂)
      (hrest : Collects on rest more m₂ entries keys' m') :
      Collects on (.keyed key value rest) keys m ((name, m₁.world.top) :: entries) keys' m'
  | shorthand {name : String} {rest : Properties} {keys more keys' : List String}
      {entries : Table Slot} {m m₁ m₂ m' : Machine}
      (hvalue : loadGlobal on.scope name m = .done () m₁)
      (hadd : addProperty keys name m₁ = .done more m₂)
      (hrest : Collects on rest more m₂ entries keys' m') :
      Collects on (.shorthand name rest) keys m ((name, m₁.world.top) :: entries) keys' m'

/-- The entries put into a table one after the other. -/
def Table.puts (table : Table Slot) (entries : Table Slot) : Table Slot :=
  entries.foldl (fun table e => table.put e.1 e.2) table

namespace Properties

variable {on : Surroundings} {t : Limits} {properties : Properties} {keys keys' : List String}
  {entries : Table Slot} {keep : List Slot} {m m' : Machine}

theorem collects_of_eval : ∀ (properties : Properties) (keys : List String) (m : Machine),
    properties.eval on keys m = .done keys' m' →
      ∃ entries, properties.Collects on keys m entries keys' m'
  | .nil, keys, m, h => by
    rw [Properties.eval] at h
    cases h
    exact ⟨[], .nil _ _⟩
  | .keyed key value rest, keys, m, h => by
    rw [Properties.eval] at h
    cases hk : fromComputed key with
    | none =>
      rw [hk] at h
      cases h
    | some name =>
      rw [hk] at h
      obtain ⟨_, m₁, hvalue, h⟩ := bind_done_iff.mp h
      obtain ⟨more, m₂, hadd, h⟩ := bind_done_iff.mp h
      obtain ⟨entries, hrest⟩ := rest.collects_of_eval more m₂ h
      exact ⟨_, .keyed hk hvalue hadd hrest⟩
  | .shorthand name rest, keys, m, h => by
    rw [Properties.eval] at h
    obtain ⟨_, m₁, hvalue, h⟩ := bind_done_iff.mp h
    obtain ⟨more, m₂, hadd, h⟩ := bind_done_iff.mp h
    obtain ⟨entries, hrest⟩ := rest.collects_of_eval more m₂ h
    exact ⟨_, .shorthand hvalue hadd hrest⟩
  | .spread _, keys, m, h => by
    rw [Properties.eval] at h
    cases h
  | .other _, keys, m, h => by
    rw [Properties.eval] at h
    cases h

/-- The value that an expression leaves is put into the table so far. -/
theorem puts_next {m₁ m₂ : Machine} {name : String} {value : Expr} {more : List String}
    (hsafe : on.call.Safe t) (htidy : on.call.Tidy) (hg : m.Good t keep)
    (hover : Over keys.length keep m.world.stack) (hvalue : value.eval on m = .done () m₁)
    (hadd : addProperty keys name m₁ = .done more m₂) :
    m₂.Good t keep ∧ Over more.length keep m₂.world.stack ∧
      more.zip (m₂.world.newest more.length) =
        Table.put (keys.zip (m.world.newest keys.length)) name m₁.world.top := by
  have hspec := (value.shifts_eval hsafe).spec (Nat.zero_le keys.length) keep
  obtain ⟨hg₁, hover₁⟩ := hspec.after hg hover hvalue
  obtain ⟨-, hs⟩ := value.eval_adds hsafe htidy (hg.raise hg.keeps (List.suffix_refl _)) hvalue
  have hover₂ : Over (keys.length + 1) keep m₁.world.stack := hover₁.mono (by omega)
  obtain ⟨hg₂, hover₃⟩ := Spec.after (shifts_addProperty keys name keep) hg₁ hover₂ hadd
  have hkeys : keys.length ≤ m.world.stack.length := Nat.le_trans (Nat.le_add_left _ _) hover.2
  obtain ⟨m₃, hadd', htable⟩ := addProperty_eq name hs hkeys
  rw [hadd] at hadd'
  cases hadd'
  exact ⟨hg₂, hover₃, htable⟩

/-- The table that a literal makes is that of its entries, put one after the other. -/
theorem Collects.puts (hsafe : on.call.Safe t) (htidy : on.call.Tidy)
    (h : properties.Collects on keys m entries keys' m') (hg : m.Good t keep)
    (hover : Over keys.length keep m.world.stack) :
    keys'.zip (m'.world.newest keys'.length) =
      Table.puts (keys.zip (m.world.newest keys.length)) entries := by
  induction h with
  | nil => rfl
  | keyed hk hvalue hadd _ ih =>
    obtain ⟨hg₂, hover₂, htable⟩ := puts_next hsafe htidy hg hover hvalue hadd
    rw [ih hg₂ hover₂, htable]
    rfl
  | @shorthand name rest keys more keys' entries m m₁ m₂ m' hvalue hadd _ ih =>
    have hload : (Expr.name name).eval on m = .done () m₁ := by
      rw [Expr.eval]
      exact hvalue
    obtain ⟨hg₂, hover₂, htable⟩ := puts_next hsafe htidy hg hover hload hadd
    rw [ih hg₂ hover₂, htable]
    rfl

end Properties
end Enclave
