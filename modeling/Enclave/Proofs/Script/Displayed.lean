import Enclave.Script.Display

/-! # Display text of nested arrays

Arrays may share elements and contain themselves. The text of a slot is given here by rules, one for each
kind of payload, with a condition on the arrays around it that says where an ellipsis stands. If none ever
does, the rules give no text to an array that contains itself. Cut at the depth of the display they give
one to every slot, and it is what is displayed.
-/
namespace Enclave

/-- The text of a payload that is not an array. -/
def Payload.label? : Payload → Option String
  | .array _ => none
  | .object _ _ => some "[object Object]"
  | .function _ => some "function () \x7b [native code] \x7d"
  | .classDesc name _ => some ("class " ++ name)
  | .task _ => some "[object Task]"

namespace World

variable {w : World} {cut : List CellId → Prop} {path : List CellId} {s : Slot} {a b : String}

/-- The text of a slot that stands inside the arrays of `path`, innermost first. An array is its elements
with commas between, and an ellipsis where the path with it is one that is cut. -/
inductive Shows (w : World) (cut : List CellId → Prop) : List CellId → Slot → String → Prop
  | scalar {path : List CellId} (v : Scalar) : Shows w cut path (.scalar v) v.display
  | missing {path : List CellId} {id : CellId} (h : w.heap.payload? id = none) :
      Shows w cut path (.cell id) "[object]"
  | labelled {path : List CellId} {id : CellId} {p : Payload} {a : String}
      (h : w.heap.payload? id = some p) (ha : p.label? = some a) : Shows w cut path (.cell id) a
  | ellipsis {path : List CellId} {id : CellId} {elements : Array Slot}
      (h : w.heap.payload? id = some (.array elements)) (hcut : cut (id :: path)) :
      Shows w cut path (.cell id) "..."
  | opened {path : List CellId} {id : CellId} {elements : Array Slot} {text : Slot → String}
      (h : w.heap.payload? id = some (.array elements)) (hcut : ¬ cut (id :: path))
      (htext : ∀ t ∈ elements.toList, Shows w cut (id :: path) t (text t)) :
      Shows w cut path (.cell id) (String.intercalate "," (elements.toList.map text))

/-- Arrays of which each is an element of the one before, the first being what the slot stands for. -/
inductive Chain (w : World) : Slot → List CellId → Prop
  | nil {s : Slot} : Chain w s []
  | last {id : CellId} {elements : Array Slot} (h : w.heap.payload? id = some (.array elements)) :
      Chain w (.cell id) [id]
  | cons {id : CellId} {elements : Array Slot} {t : Slot} {ids : List CellId}
      (h : w.heap.payload? id = some (.array elements)) (ht : t ∈ elements.toList)
      (hids : Chain w t ids) : Chain w (.cell id) (id :: ids)

/-- No access in progress hides a payload. -/
def Unhidden (w : World) : Prop :=
  ∀ id, ⟨.payload id, true⟩ ∉ w.guards

theorem Unhidden.visible? (hw : w.Unhidden) (id : CellId) : w.visible? id = w.heap.payload? id := by
  have hread : w.canRead (.payload id) = true := by
    simp only [canRead, Bool.or_eq_true, List.all_eq_true]
    right
    rintro ⟨place, exclusive⟩ hg
    by_cases hplace : place = .payload id
    · cases exclusive with
      | false => simp
      | true => exact absurd (hplace ▸ hg) (hw id)
    · simp [hplace]
  simp only [World.visible?, hread, if_true]

/-- A slot has at most one text. -/
theorem Shows.unique (ha : w.Shows cut path s a) (hb : w.Shows cut path s b) : a = b := by
  induction ha generalizing b with
  | scalar v =>
    cases hb
    rfl
  | missing h =>
    cases hb with
    | missing _ => rfl
    | labelled h' _ => cases h.symm.trans h'
    | ellipsis h' _ => cases h.symm.trans h'
    | opened h' _ _ => cases h.symm.trans h'
  | labelled h ha =>
    cases hb with
    | missing h' => cases h.symm.trans h'
    | labelled h' hb =>
      cases h.symm.trans h'
      exact Option.some.inj (ha.symm.trans hb)
    | ellipsis h' _ =>
      cases h.symm.trans h'
      cases ha
    | opened h' _ _ =>
      cases h.symm.trans h'
      cases ha
  | ellipsis h hcut =>
    cases hb with
    | missing h' => cases h.symm.trans h'
    | labelled h' hb =>
      cases h.symm.trans h'
      cases hb
    | ellipsis _ _ => rfl
    | opened _ hopen _ => exact absurd hcut hopen
  | opened h hopen _ ih =>
    cases hb with
    | missing h' => cases h.symm.trans h'
    | labelled h' hb =>
      cases h.symm.trans h'
      cases hb
    | ellipsis _ hcut => exact absurd hcut hopen
    | opened h' _ htext =>
      cases h.symm.trans h'
      congr 1
      apply List.map_congr_left
      intro t ht
      exact ih t ht (htext t ht)

/-- What is displayed with room for `room` arrays follows the rules, if of the paths that are not longer than
the room by more than one exactly the longest ones are cut. -/
theorem shows_displayIn (hw : w.Unhidden) (room : Nat)
    (hcut : ∀ ids, ids ≠ [] → w.Chain s ids → ids.length ≤ room + 1 →
      (cut (ids.reverse ++ path) ↔ ids.length = room + 1)) :
    w.Shows cut path s (w.displayIn room s) := by
  induction room generalizing s path with
  | zero =>
    rcases s with v | id
    · apply Shows.scalar
    · simp only [displayIn, hw.visible?]
      cases hp : w.heap.payload? id with
      | none => exact .missing hp
      | some p =>
        cases p with
        | array elements =>
          have hlast := hcut [id] (by simp) (.last hp) (by simp)
          exact .ellipsis hp (hlast.mpr rfl)
        | object _ _ => exact .labelled hp rfl
        | function _ => exact .labelled hp rfl
        | classDesc _ _ => exact .labelled hp rfl
        | task _ => exact .labelled hp rfl
  | succ room ih =>
    rcases s with v | id
    · apply Shows.scalar
    · simp only [displayIn, hw.visible?]
      cases hp : w.heap.payload? id with
      | none => exact .missing hp
      | some p =>
        cases p with
        | array elements =>
          have hfirst := hcut [id] (by simp) (.last hp) (by simp)
          apply Shows.opened hp
          · intro hc
            cases hfirst.mp hc
          · intro t ht
            apply ih
            intro ids hne hids hlen
            -- A chain from an element is one from the array, with the array in front.
            have hlonger := hcut (id :: ids) (by simp) (.cons hp ht hids) (by simpa using hlen)
            simpa using hlonger
        | object _ _ => exact .labelled hp rfl
        | function _ => exact .labelled hp rfl
        | classDesc _ _ => exact .labelled hp rfl
        | task _ => exact .labelled hp rfl

/-- **Display text is exact down to its depth.** While no access in progress hides a payload, the text
displayed for a slot is the one text that the rules give it when every array that is the 33rd on its path is
an ellipsis, and no other is. If at most 32 arrays ever stand in one another from that slot on, it is also
the one text that the rules give without any ellipsis. -/
theorem display_exact (hw : w.Unhidden) (s : Slot) :
    (∀ a, w.Shows (fun path => path.length = 33) [] s a ↔ w.display s = a) ∧
    ((∀ ids, w.Chain s ids → ids.length ≤ 32) →
      ∀ a, w.Shows (fun _ => False) [] s a ↔ w.display s = a) := by
  constructor
  · have hshows : w.Shows (fun path => path.length = 33) [] s (w.display s) := by
      apply shows_displayIn hw
      intro ids _ _ _
      simp [displayDepth]
    intro a
    constructor
    · exact hshows.unique
    · rintro rfl
      exact hshows
  · intro hshort
    have hshows : w.Shows (fun _ => False) [] s (w.display s) := by
      apply shows_displayIn hw
      intro ids _ hids _
      have hlen := hshort ids hids
      simp only [displayDepth, false_iff]
      omega
    intro a
    constructor
    · exact hshows.unique
    · rintro rfl
      exact hshows

/-- An array that contains itself before a text, and beside it an array in an array. -/
theorem display_exact_ring : ∃ w : World,
    w.Unhidden ∧ w.heap.payload? 0 = some (.array #[.cell 0, .scalar (.string "a")]) ∧
    w.Shows (fun path => path.length = 33) [] (.cell 0)
      ("..." ++ String.join (List.replicate 32 ",a")) ∧
    (∀ ids, w.Chain (.cell 2) ids → ids.length ≤ 32) ∧
    w.Shows (fun _ => False) [] (.cell 2) "b" := by
  let heap := ((Heap.empty.alloc (.array #[.cell 0, .scalar (.string "a")])).alloc
    (.array #[.scalar (.string "b")])).alloc (.array #[.cell 1])
  let w : World := { World.initial .default with heap := heap, stack := [.cell 2] }
  have hw : w.Unhidden := fun id h => by cases h
  have hinner : w.heap.payload? 1 = some (.array #[.scalar (.string "b")]) := rfl
  have houter : w.heap.payload? 2 = some (.array #[.cell 1]) := rfl
  have hshort : ∀ ids, w.Chain (.cell 2) ids → ids.length ≤ 32 := by
    intro ids hids
    rcases hids with _ | _ | ⟨h, ht, hids⟩
    · decide
    · decide
    · cases houter.symm.trans h
      cases List.mem_singleton.mp ht
      rcases hids with _ | _ | ⟨h, ht, hids⟩
      · decide
      · decide
      · cases hinner.symm.trans h
        cases List.mem_singleton.mp ht
        cases hids
        decide
  exact ⟨w, hw, rfl, ((display_exact hw (.cell 0)).1 _).mpr (by decide +kernel), hshort,
    ((display_exact hw (.cell 2)).2 hshort _).mpr (by decide +kernel)⟩

end World
end Enclave
