import Mathlib.Data.Fintype.EquivFin
import Mathlib.Logic.Relation
import Enclave.Proofs.Heap.Release

/-! # What keeps cells alive

A live cell of a counted heap has a holder. Whoever goes from holder to holder either comes to one
outside the heap or, since there are only finitely many cells, meets a cell again.
-/
namespace Enclave.Heap

open Relation

variable {h h' : Heap} {out : CellId → Nat} {a b : CellId}

/-- A cell holds itself, perhaps through others. -/
def OnCycle (h : Heap) (a : CellId) : Prop :=
  TransGen h.Edge a a

/-- From a cell another one is reached along payload slots. -/
def Reaches (h : Heap) (a b : CellId) : Prop :=
  ReflTransGen h.Edge a b

theorem Edge.isLive (he : h.Edge a b) : h.isLive a = true := by
  obtain ⟨p, hp, -⟩ := he
  exact isLive_of_payload? hp

theorem exists_edge_of_held (hh : 0 < h.held b) : ∃ a, h.Edge a b := by
  rw [← holders_payloadSlots, holders_pos, payloadSlots, List.mem_flatMap] at hh
  obtain ⟨c, hc, hb⟩ := hh
  cases c with
  | none => cases hb
  | some cell =>
    obtain ⟨a, ha⟩ := List.mem_iff_getElem?.mp hc
    refine ⟨a, cell.payload, ?_, hb⟩
    rw [Array.getElem?_toList] at ha
    simp [payload?, cell?, ha]

/-- Every cell that is reached from a live one is alive. -/
theorem Counted.isLive_of_reaches (hc : h.Counted out) (ha : h.isLive a = true)
    (hr : h.Reaches a b) : h.isLive b = true := by
  induction hr with
  | refl => exact ha
  | tail _ he _ =>
    exact hc.isLive_of_holder (Nat.lt_of_lt_of_le (held_pos he) (Nat.le_add_right _ _))

theorem OnCycle.isLive (hr : h.OnCycle a) : h.isLive a = true := by
  obtain ⟨b, he, -⟩ := TransGen.head'_iff.mp hr
  exact he.isLive

/-- Cells below the number given out next that no cycle reaches can be put in an order in which
every cell comes after those that hold it. -/
theorem wellFounded_holders (h : Heap) :
    WellFounded fun x y : { i : Fin h.next // ∀ a, h.OnCycle a → ¬ h.Reaches a i } =>
      TransGen h.Edge x.1 y.1 := by
  have htrans : IsTrans { i : Fin h.next // ∀ a, h.OnCycle a → ¬ h.Reaches a i }
      fun x y => TransGen h.Edge x.1 y.1 := ⟨fun _ _ _ => TransGen.trans⟩
  have hirrefl : Std.Irrefl fun x y : { i : Fin h.next // ∀ a, h.OnCycle a → ¬ h.Reaches a i } =>
      TransGen h.Edge x.1 y.1 := ⟨fun x hx => x.2 _ hx ReflTransGen.refl⟩
  exact Finite.wellFounded_of_trans_of_irrefl _

/-- A live cell is reached from a holder outside the heap or from a cycle. -/
theorem Counted.exists_root (hc : h.Counted out) (hb : h.isLive b = true) :
    ∃ root, (0 < out root ∨ h.OnCycle root) ∧ h.Reaches root b := by
  by_cases hcycle : ∃ a, h.OnCycle a ∧ h.Reaches a b
  · obtain ⟨a, ha, hr⟩ := hcycle
    exact ⟨a, .inr ha, hr⟩
  · have hacyclic : ∀ a, h.OnCycle a → ¬ h.Reaches a b := fun a ha hr => hcycle ⟨a, ha, hr⟩
    obtain ⟨cell, hcell⟩ := isLive_iff.mp hb
    have hlt := lt_next_of_cell? hcell
    suffices hroot : ∀ x : { i : Fin h.next // ∀ a, h.OnCycle a → ¬ h.Reaches a i },
        h.isLive x.1 = true → ∃ root, 0 < out root ∧ h.Reaches root x.1 by
      obtain ⟨root, ho, hr⟩ := hroot ⟨⟨b, hlt⟩, hacyclic⟩ hb
      exact ⟨root, .inl ho, hr⟩
    intro x
    induction x using (wellFounded_holders h).induction with
    | _ x ih =>
      intro hx
      have hpos := hc.holder_of_isLive hx
      by_cases ho : 0 < out x.1
      · exact ⟨x.1, ho, ReflTransGen.refl⟩
      · obtain ⟨a, he⟩ := exists_edge_of_held (by omega : 0 < h.held x.1)
        obtain ⟨cell, hcell⟩ := isLive_iff.mp he.isLive
        have hno : ∀ c, h.OnCycle c → ¬ h.Reaches c a :=
          fun c hcy hr => x.2 c hcy (hr.tail he)
        obtain ⟨root, ho, hr⟩ :=
          ih ⟨⟨a, lt_next_of_cell? hcell⟩, hno⟩ (TransGen.single he) he.isLive
        exact ⟨root, ho, hr.tail he⟩

/-- The live cells are those that a holder outside the heap or a cycle leads to. -/
theorem Counted.isLive_iff_reached (hc : h.Counted out) (b : CellId) :
    h.isLive b = true ↔ ∃ root, (0 < out root ∨ h.OnCycle root) ∧ h.Reaches root b := by
  refine ⟨hc.exists_root, fun ⟨root, hroot, hr⟩ => hc.isLive_of_reaches ?_ hr⟩
  rcases hroot with ho | hcy
  · exact hc.isLive_of_holder (Nat.lt_of_lt_of_le ho (Nat.le_add_left _ _))
  · exact hcy.isLive

end Enclave.Heap
