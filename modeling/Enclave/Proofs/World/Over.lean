import Enclave.Proofs.World.Sound

/-! # Entries above a base

An act that works on the stack leaves alone what stood there when it began. A stack is `n` over a
base when the base is the lower part of it and at least `n` entries stand above.
-/
namespace Enclave

/-- The stack `l` has the lower part `o` and at least `n` entries above it. -/
def Over (n : Nat) (o l : List Slot) : Prop :=
  o <:+ l ∧ o.length + n ≤ l.length

variable {n k : Nat} {o l rest : List Slot} {s : Slot}

theorem over_zero : Over 0 o l ↔ o <:+ l :=
  ⟨fun h => h.1, fun h => ⟨h, h.length_le⟩⟩

theorem over_refl (o : List Slot) : Over 0 o o :=
  over_zero.mpr (List.suffix_refl o)

theorem Over.mono (h : Over n o l) (hk : k ≤ n) : Over k o l :=
  ⟨h.1, by have := h.2; omega⟩

theorem Over.cons (h : Over n o l) (s : Slot) : Over (n + 1) o (s :: l) :=
  ⟨h.1.trans (List.suffix_cons s l), by have := h.2; simp only [List.length_cons]; omega⟩

theorem Over.tail (h : Over (n + 1) o (s :: l)) : Over n o l := by
  obtain ⟨hs, hl⟩ := h
  simp only [List.length_cons] at hl
  refine ⟨?_, by omega⟩
  rcases List.suffix_cons_iff.mp hs with rfl | hs
  · simp only [List.length_cons] at hl
    omega
  · exact hs

theorem Over.drop (h : Over (n + k) o l) : Over n o (l.drop k) := by
  obtain ⟨hs, hl⟩ := h
  refine ⟨?_, by simp only [List.length_drop]; omega⟩
  obtain ⟨new, rfl⟩ := hs
  rw [List.length_append] at hl
  rw [List.drop_append_of_le_length (by omega)]
  exact List.suffix_append _ o

/-- What is `n` over a stack that is `k` over a base is both over the base. -/
theorem Over.trans {o' : List Slot} (h : Over k o o') (h' : Over n o' l) : Over (n + k) o l :=
  ⟨h.1.trans h'.1, by have := h.2; have := h'.2; omega⟩

/-- A stack that is `n` over a base is so because of its `n` newest entries. -/
theorem Over.split (h : Over (n + k) o l) : Over k (l.drop k) l := by
  refine ⟨List.drop_suffix k l, ?_⟩
  have := h.2
  simp only [List.length_drop]
  omega

theorem Over.append (h : Over k o l) (xs : List Slot) : Over (xs.length + k) o (xs ++ l) :=
  ⟨h.1.trans (List.suffix_append xs l), by have := h.2; simp only [List.length_append]; omega⟩

theorem Over.eq (h : Over 0 o l) (hl : l.length ≤ o.length) : l = o :=
  (h.1.eq_of_length (Nat.le_antisymm h.1.length_le hl)).symm

namespace World

variable {w : World}

theorem top_of_stack (hs : w.stack = s :: rest) : w.top = s := by
  rw [top, hs, List.headD_cons]

theorem over_push (h : Over n o w.stack) (v : Scalar) : Over (n + 1) o (w.push v).stack :=
  h.cons _

theorem over_share (h : Over n o w.stack) (s : Slot) : Over (n + 1) o (w.share s).stack := by
  unfold share
  split
  · exact h.cons _
  · split <;> exact h.cons _

theorem over_drop (h : Over (n + 1) o w.stack) : Over n o w.drop.stack := by
  unfold drop
  split
  · exact h.mono (Nat.le_succ n)
  · rename_i s rest hs
    rw [hs] at h
    exact h.tail

theorem over_settle (h : Over (n + 1 + k) o w.stack) : Over (n + 1) o (w.settle k).stack := by
  unfold settle
  split
  · exact h.mono (Nat.le_add_right _ k)
  · rename_i s rest hs
    rw [hs, Nat.add_right_comm] at h
    exact h.tail.drop.cons s

theorem over_unwind (h : Over 0 o w.stack) : (w.unwind o.length).stack = o := by
  have hl := h.1.length_le
  have hd : Over (0 + (w.stack.length - o.length)) o w.stack := ⟨h.1, by omega⟩
  refine hd.drop.eq ?_
  simp only [List.length_drop]
  omega

/-- With one entry or more over a base, the newest of them is what remains. -/
theorem over_settleTo (h : Over 1 o w.stack) :
    Over 1 o (w.settle (w.stack.length - 1 - o.length)).stack := by
  have hl := h.2
  have hs : Over (0 + 1 + (w.stack.length - 1 - o.length)) o w.stack := ⟨h.1, by omega⟩
  exact over_settle hs

theorem over_lift (h : Over n o w.stack) (hk : k < n) : Over n o (w.lift k).stack := by
  unfold lift
  split
  · exact h
  · rename_i s rest hs
    obtain ⟨⟨new, hnew⟩, hl⟩ := h
    rw [← hnew] at hs hl ⊢
    rw [List.length_append] at hl
    rw [List.drop_append_of_le_length (by omega)] at hs
    rw [List.take_append_of_le_length (by omega)]
    have hlen := congrArg List.length hs
    simp only [List.length_append, List.length_drop, List.length_cons] at hlen
    have hk' : Over (n - k) o (s :: rest) := by
      rw [← hs]
      exact (over_refl o).append (new.drop k) |>.mono (by simp only [List.length_drop]; omega)
    have hr : Over (n - k - 1) o rest := Over.tail (hk'.mono (by omega))
    refine ((hr.append (new.take k)).cons s).mono ?_
    simp only [List.length_take]
    omega

theorem over_replaceBelow (h : Over (n + k + 2) o w.stack) :
    Over (n + k + 1) o (w.replaceBelow k).stack := by
  unfold replaceBelow
  split
  · exact h.mono (Nat.le_succ _)
  · rename_i s rest hs
    rw [hs] at h
    split
    · exact (h.tail.cons s).mono (Nat.le_succ _) |> fun h => hs ▸ h
    · rename_i old deeper hd
      have hr : Over (n + 1 + k) o rest := h.tail.mono (by omega)
      have hdeep : Over n o deeper := by
        have := hr.drop
        rw [hd] at this
        exact this.tail
      have hlen : k ≤ rest.length := by
        have := hr.2
        omega
      refine ((hdeep.cons s).append (rest.take k)).mono ?_
      simp only [List.length_take]
      omega

/-- An entry that is found above the base and under the newest `k` entries is brought to the top. -/
theorem over_lift_found (h : Over k o w.stack) {wanted : Slot → Bool} {i : Nat}
    (hi : (w.above o.length k).findIdx? wanted = some i) :
    Over (k + i + 1) o (w.lift (k + i)).stack := by
  obtain ⟨hlt, -⟩ := List.findIdx?_eq_some_iff_getElem.mp hi
  simp only [above, List.length_drop, List.length_take] at hlt
  have hk : Over (k + i + 1) o w.stack := ⟨h.1, by have := h.2; omega⟩
  exact over_lift hk (Nat.lt_succ_self _)

/-- Whatever stands above the base and under the newest `k` entries can be brought to the top. -/
theorem over_secureUnder (h : Over k o w.stack) (s : Slot) :
    Over (k + 1) o (w.secureUnder o.length k s).stack := by
  unfold secureUnder
  split
  · exact h.cons _
  · split
    · rename_i id i hi
      exact (over_lift_found h hi).mono (by omega)
    · exact over_share h _

theorem over_secureAll (slots : List Slot) (h : Over k o w.stack) :
    Over (k + slots.length) o (w.secureAll o.length k slots).stack := by
  induction slots generalizing w k with
  | nil => exact h
  | cons s rest ih =>
    refine (ih (over_secureUnder h s)).mono ?_
    simp only [List.length_cons]
    omega

theorem over_discard (h : Over 0 o w.stack) (s : Slot) :
    Over 0 o (w.discard o.length s).stack := by
  unfold discard
  split
  · exact h
  · split
    · rename_i id i hi
      have hlift := over_lift_found h hi
      rw [Nat.zero_add] at hlift
      exact over_drop (hlift.mono (by omega))
    · exact h

theorem over_discardAll (slots : List Slot) (h : Over 0 o w.stack) :
    Over 0 o (w.discardAll o.length slots).stack := by
  induction slots generalizing w with
  | nil => exact h
  | cons s rest ih => exact ih (over_discard h s)

/-! ## Allocation and exchange -/

theorem over_install (h : Over (n + k) o w.stack) (p : Payload) :
    Over (n + 1) o ((w.pop k).install p).stack :=
  h.drop.cons _

theorem over_allocInstance (h : Over n o w.stack) (id : CellId) :
    Over (n + 1) o (w.allocInstance id).stack := by
  unfold allocInstance
  split <;> exact h.cons _

theorem over_bind (kinds : List Kind) (h : Over (n + kinds.length) o w.stack)
    (label : Option String) (body : HostFunction) : Over n o (w.bind label kinds body).stack :=
  h.drop

theorem over_exchangePayload (h : Over (n + 1) o w.stack) (id : CellId)
    (f : Payload → Slot → Option (Payload × Slot)) :
    Over (n + 1) o (w.exchangePayload id f).stack := by
  unfold exchangePayload
  split
  · rename_i s rest p hs hp
    rw [hs] at h
    split
    · exact h.tail.cons _
    · exact hs ▸ h
  · exact h

theorem over_exchangeGlobal (h : Over (n + 1) o w.stack) (id : ScopeId) (name : String) :
    Over (n + 1) o (w.exchangeGlobal id name).stack := by
  unfold exchangeGlobal
  split
  · rename_i s rest t hs ht
    rw [hs] at h
    exact h.tail.cons _
  · exact h

theorem over_exchangeRegister (h : Over (n + 1) o w.stack) (name : String) (kind : Kind) :
    Over (n + 1) o (w.exchangeRegister name kind).stack := by
  unfold exchangeRegister
  split
  · rename_i s rest hs
    rw [hs] at h
    exact h.tail.cons _
  · exact h

theorem over_keep (h : Over (n + 1) o w.stack) : Over n o w.keep.stack := by
  unfold keep
  split
  · rename_i s rest hs
    rw [hs] at h
    exact h.tail
  · exact h.mono (Nat.le_succ n)

theorem over_retrieve (h : Over n o w.stack) (i : Nat) : Over (n + 1) o (w.retrieve i).stack := by
  unfold retrieve
  split <;> exact h.cons _

end World
end Enclave
