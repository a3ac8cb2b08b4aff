import Enclave.Proofs.World.Deed
import Enclave.Script.Evaluate
import Enclave.Session.Shown

/-! # Worlds without exclusion

In a world without exclusion no access is ever refused, and nothing is hidden. As long as no access is
in progress a world with exclusion looks the same.
-/
namespace Enclave.World

variable {w : World} {f : World → World}

/-- The world in which accesses in progress keep nobody out. -/
def unlocked (w : World) : World :=
  { w with exclusion := false }

/-- Accesses that can be in progress together: shared ones, or a single one. -/
def Compatible (g : Guard) (held : List Guard) : Prop :=
  ∀ h ∈ held, h.exclusive = false ∧ g.exclusive = false

theorem compatible_nil (g : Guard) : Compatible g [] :=
  fun _ h => by cases h

theorem allows_unlocked (w : World) (g : Guard) : w.unlocked.allows g = true := by
  simp [allows, canRead, canWrite, unlocked]

theorem allows_of_compatible {g : Guard} (hg : Compatible g w.guards) : w.allows g = true := by
  unfold allows
  split
  · rename_i hx
    have hnil : w.guards = [] := List.eq_nil_iff_forall_not_mem.mpr fun h hh => by
      simp [(hg h hh).2] at hx
    simp [canWrite, hnil]
  · have hall : w.guards.all (fun h => h.place != g.place || !h.exclusive) = true :=
      List.all_eq_true.mpr fun h hh => by simp [(hg h hh).1]
    simp [canRead, hall]

theorem Deed.unlocked (hf : Deed f) (w : World) : f w.unlocked = (f w).unlocked := by
  have h := hf.framed w w.guards false w.ledger
  have hright : (f w).framed w.guards false w.ledger = (f w).unlocked := by
    rw [← hf.guards w, ← hf.ledger w]
    rfl
  exact h.trans hright

/-! ## What can be seen -/

theorem visible?_unlocked (h : w.guards = []) (id : CellId) :
    w.unlocked.visible? id = w.visible? id := by
  simp [visible?, canRead, unlocked, h]

theorem displayIn_unlocked (h : w.guards = []) (room : Nat) (s : Slot) :
    w.unlocked.displayIn room s = w.displayIn room s := by
  induction room generalizing s with
  | zero =>
    cases s with
    | scalar v => rfl
    | cell id => simp only [displayIn, visible?_unlocked h]
  | succ room ih =>
    cases s with
    | scalar v => rfl
    | cell id =>
      have hview : w.unlocked.displayIn room = w.displayIn room := funext ih
      simp only [displayIn, visible?_unlocked h, hview]

theorem display_unlocked (h : w.guards = []) (s : Slot) : w.unlocked.display s = w.display s :=
  displayIn_unlocked h _ s

theorem propertyName_unlocked (h : w.guards = []) (key : Slot) :
    w.unlocked.propertyName key = w.propertyName key := by
  unfold propertyName
  split
  · rfl
  · rfl
  · exact display_unlocked h _

theorem binary_unlocked (h : w.guards = []) (op : BinaryOp) (l r : Slot) :
    w.unlocked.binary op l r = w.binary op l r := by
  simp only [binary, display_unlocked h]

theorem className?_unlocked (h : w.guards = []) (id : CellId) :
    w.unlocked.className? id = w.className? id := by
  rw [className?, className?, visible?_unlocked h]

theorem showIn_unlocked (h : w.guards = []) (room : Nat) (s : Slot) :
    w.unlocked.showIn room s = w.showIn room s := by
  induction room generalizing s with
  | zero =>
    cases s with
    | scalar v => rfl
    | cell id =>
      have hseen := visible?_unlocked h id
      cases hv : w.visible? id with
      | none =>
        rw [showIn.eq_2 _ _ _ (hseen.trans hv), showIn.eq_2 _ _ _ hv]
        rfl
      | some p =>
        rw [showIn.eq_3 _ _ _ (hseen.trans hv), showIn.eq_3 _ _ _ hv]
        rfl
  | succ room ih =>
    cases s with
    | scalar v => rfl
    | cell id =>
      have hseen := visible?_unlocked h id
      cases hv : w.visible? id with
      | none =>
        rw [showIn.eq_2 _ _ _ (hseen.trans hv), showIn.eq_2 _ _ _ hv]
        rfl
      | some p =>
        rw [showIn.eq_4 _ _ _ _ (hseen.trans hv), showIn.eq_4 _ _ _ _ hv, funext ih]
        cases p <;> simp only [shownPayload, className?_unlocked h]

theorem showValue_unlocked (h : w.guards = []) (v : Value) :
    w.unlocked.showValue v = w.showValue v := by
  cases v with
  | scalar v => rfl
  | handle kind id =>
    rw [showValue, showValue, showSlot, showSlot, showIn_unlocked h]
    rfl

end Enclave.World
