import Enclave.Proofs.Heap.Raised
import Enclave.Proofs.World.Over

/-! # References in hand that change owner

A call that takes values over finds their references among the entries above its base. As many of them
as there are leave the hand, in whatever order they are looked for: when the call comes to nothing they
are dropped, and else they come to the top, where only those that were missing are new.
-/
namespace Enclave

theorem holders_eq_zero {slots : List Slot} {id : CellId} (h : Slot.cell id ∉ slots) :
    holders slots id = 0 := by
  by_contra hne
  have hpos : 0 < holders slots id := by omega
  exact h (holders_pos.mp hpos)

namespace World

variable {w : World} {passed xs rest slots : List Slot} {base : Nat} {s : Slot} {id : CellId}

/-- What a share of a slot brings. -/
def found (w : World) : Slot → Slot
  | .scalar v => .scalar v
  | .cell id => if w.heap.isLive id then .cell id else .null

/-- A slot whose cell, if it names one, is alive. -/
def Alive (w : World) (s : Slot) : Prop :=
  ∀ id, s = .cell id → w.heap.isLive id = true

theorem alive_scalar (v : Scalar) : w.Alive (.scalar v) :=
  fun _ h => by cases h

theorem found_of_alive (h : w.Alive s) : w.found s = s := by
  cases s with
  | scalar v => rfl
  | cell id => rw [found, if_pos (h id rfl)]

/-- A slot that is found names a live cell, if it names one. -/
theorem alive_found (w : World) (s : Slot) : w.Alive (w.found s) := by
  cases s with
  | scalar v => exact alive_scalar v
  | cell x =>
    rw [found]
    split
    · rename_i hl
      rintro _ ⟨⟩
      exact hl
    · exact alive_scalar .null

theorem Alive.lt_next {id : CellId} (h : w.Alive (.cell id)) : id < w.heap.next := by
  obtain ⟨cell, hcell⟩ := Heap.isLive_iff.mp (h id rfl)
  exact Heap.lt_next_of_cell? hcell

/-! ## Entries above the base -/

theorem above_eq (hs : w.stack = passed ++ (xs ++ rest)) (hb : base = rest.length) :
    w.above base passed.length = xs := by
  have hn : w.stack.length - base = (passed ++ xs).length := by
    rw [hs, hb]
    simp only [List.length_append]
    omega
  rw [above, hn, hs, ← List.append_assoc, List.take_left, List.drop_left]

/-- The newest entry for a cell among some, if there is one. -/
theorem findIdx?_cell (id : CellId) (xs : List Slot) :
    (xs.findIdx? (fun t => t.cell? == some id) = none ∧ Slot.cell id ∉ xs) ∨
      ∃ front back, xs.findIdx? (fun t => t.cell? == some id) = some front.length ∧
        xs = front ++ .cell id :: back := by
  cases hi : xs.findIdx? (fun t => t.cell? == some id) with
  | none =>
    left
    refine ⟨rfl, fun hmem => ?_⟩
    have hno := List.findIdx?_eq_none_iff.mp hi _ hmem
    simp [Slot.cell?] at hno
  | some i =>
    right
    obtain ⟨hlt, hcell, -⟩ := List.findIdx?_eq_some_iff_getElem.mp hi
    have hget : xs[i] = .cell id := by
      cases hx : xs[i] with
      | scalar v => simp [hx, Slot.cell?] at hcell
      | cell x => simpa [hx, Slot.cell?] using hcell
    have hlength : (xs.take i).length = i := List.length_take_of_le (Nat.le_of_lt hlt)
    refine ⟨xs.take i, xs.drop (i + 1), by rw [hlength], ?_⟩
    rw [← hget, List.getElem_cons_drop, List.take_append_drop]

theorem lift_above {front back : List Slot}
    (hs : w.stack = passed ++ (front ++ .cell id :: back ++ rest)) :
    w.lift (passed.length + front.length) =
      { w with stack := .cell id :: (passed ++ (front ++ back ++ rest)) } := by
  have hs' : w.stack = (passed ++ front) ++ .cell id :: (back ++ rest) := by
    rw [hs]
    simp only [List.append_assoc, List.cons_append]
  have hn : passed.length + front.length = (passed ++ front).length := List.length_append.symm
  have hdrop : w.stack.drop (passed.length + front.length) = .cell id :: (back ++ rest) := by
    rw [hs', hn, List.drop_left]
  have htake : w.stack.take (passed.length + front.length) = passed ++ front := by
    rw [hs', hn, List.take_left]
  simp only [lift, hdrop, htake, List.append_assoc]

/-- What stands above the base, and under entries that are passed over, is brought to the top. -/
theorem secure_above (hs : w.stack = passed ++ (xs ++ rest)) (hb : base = rest.length)
    (hmem : Slot.cell id ∈ xs) :
    ∃ front back, xs = front ++ .cell id :: back ∧
      w.secureUnder base passed.length (.cell id) =
        { w with stack := .cell id :: (passed ++ (front ++ back ++ rest)) } := by
  rcases findIdx?_cell id xs with ⟨-, hno⟩ | ⟨front, back, hi, rfl⟩
  · exact absurd hmem hno
  · refine ⟨front, back, rfl, ?_⟩
    simp only [secureUnder, above_eq hs hb, hi]
    exact lift_above hs

/-- What does not stand above the base is secured by a new reference. -/
theorem secure_missing (hs : w.stack = passed ++ (xs ++ rest)) (hb : base = rest.length)
    (hmem : Slot.cell id ∉ xs) :
    w.secureUnder base passed.length (.cell id) = w.share (.cell id) := by
  rcases findIdx?_cell id xs with ⟨hi, -⟩ | ⟨front, back, -, rfl⟩
  · simp only [secureUnder, above_eq hs hb, hi]
  · simp at hmem

/-! ## Dropping -/

/-- The world without some references in hand. -/
def without (w : World) (dropped stack : List Slot) : World :=
  { w with stack := stack, heap := w.heap.releaseSlots dropped }

theorem without_nil (w : World) : w.without [] w.stack = w := by
  rw [without, Heap.releaseSlots_nil]

theorem without_without (w : World) (dropped more stack stack' : List Slot) :
    (w.without dropped stack).without more stack' = w.without (dropped ++ more) stack' := by
  simp only [without, Heap.releaseSlots_append]

theorem drop_eq (w : World) : w.drop = w.without [w.top] w.stack.tail := by
  cases hs : w.stack with
  | nil =>
    have htop : w.top = .null := by rw [top, hs, List.headD_nil]
    have hnone : w.heap.releaseSlots [.null] = w.heap := w.heap.releaseSlots_scalar .null
    rw [htop, without, hnone, List.tail_nil, ← hs]
    unfold drop
    split
    · rfl
    · simp_all
  | cons s rest =>
    have htop : w.top = s := by rw [top, hs, List.headD_cons]
    simp only [drop, hs, htop]
    rfl

theorem holders_tail (w : World) (id : CellId) :
    holders w.stack.tail id + w.top.owns id = holders w.stack id := by
  cases hs : w.stack with
  | nil => simp [top, hs]
  | cons s rest =>
    simp only [top, hs, List.headD_cons, List.tail_cons, holders_cons]
    omega

/-! ## Discarding -/

/-- Of the entries `xs`, `dropped` are as many as belong to `slots` too, and `left` are the others. -/
structure Splits (slots xs dropped left : List Slot) : Prop where
  shared : ∀ id, holders dropped id = min (holders slots id) (holders xs id)
  whole : ∀ id, holders left id + holders dropped id = holders xs id

theorem splits_nil (xs : List Slot) : Splits [] xs [] xs :=
  ⟨fun _ => by simp, fun _ => by simp⟩

/-- What is left after some slots have taken their part is there for further ones. -/
theorem Splits.append {more dropped dropped' left left' : List Slot}
    (h : Splits slots xs dropped left) (h' : Splits more left dropped' left') :
    Splits (slots ++ more) xs (dropped ++ dropped') left' := by
  constructor
  · intro id
    have hshared := h.shared id
    have hshared' := h'.shared id
    have hwhole := h.whole id
    simp only [holders_append]
    omega
  · intro id
    have hwhole := h.whole id
    have hwhole' := h'.whole id
    simp only [holders_append]
    omega

/-- A slot's reference in hand is dropped, if there is one. -/
theorem discard_above (hs : w.stack = xs ++ rest) (hb : base = rest.length) (s : Slot) :
    ∃ dropped left, w.discard base s = w.without dropped (left ++ rest) ∧
      Splits [s] xs dropped left := by
  have hstay : w = w.without [] (xs ++ rest) := by
    rw [← hs, without_nil]
  have hs' : w.stack = [] ++ (xs ++ rest) := hs
  have habove : w.above base 0 = xs := above_eq hs' hb
  cases s with
  | scalar v =>
    refine ⟨[], xs, hstay, ?_, ?_⟩
    · simp
    · simp
  | cell id =>
    rcases findIdx?_cell id xs with ⟨hi, hno⟩ | ⟨front, back, hi, rfl⟩
    · have hdiscard : w.discard base (.cell id) = w := by
        simp only [discard, habove, hi]
      refine ⟨[], xs, hdiscard.trans hstay, fun x => ?_, ?_⟩
      · by_cases hx : id = x
        · subst hx
          simp [holders_eq_zero hno]
        · simp [Slot.owns_cell, hx]
      · simp
    · have hlift := lift_above hs'
      rw [List.length_nil, Nat.zero_add] at hlift
      have hdiscard : w.discard base (.cell id) = w.without [.cell id] (front ++ back ++ rest) := by
        simp only [discard, habove, hi]
        rw [hlift]
        rfl
      refine ⟨[.cell id], front ++ back, hdiscard, fun x => ?_, fun x => ?_⟩
      · simp only [holders_cons, holders_append, holders_nil]
        omega
      · simp only [holders_cons, holders_append, holders_nil]
        omega

theorem discardAll_above (slots : List Slot) (hs : w.stack = xs ++ rest) (hb : base = rest.length) :
    ∃ dropped left, w.discardAll base slots = w.without dropped (left ++ rest) ∧
      Splits slots xs dropped left := by
  induction slots generalizing w xs with
  | nil =>
    refine ⟨[], xs, ?_, splits_nil xs⟩
    rw [← hs, without_nil]
    rfl
  | cons s slots ih =>
    obtain ⟨dropped, left, hdiscard, hsplit⟩ := discard_above hs hb s
    have hleft : (w.without dropped (left ++ rest)).stack = left ++ rest := rfl
    obtain ⟨dropped', left', hmore, hsplit'⟩ := ih hleft
    refine ⟨dropped ++ dropped', left', ?_, hsplit.append hsplit'⟩
    rw [discardAll, hdiscard, hmore, without_without]

/-! ## Securing -/

/-- How many of the references of some slots are in hand above a height. -/
def inHand (w : World) (base : Nat) (slots : List Slot) (id : CellId) : Nat :=
  min (holders slots id) (holders (w.above base 0) id)

/-- What is secured and then dropped has either been discarded, or it was not in hand. -/
theorem drop_secure (w : World) (base : Nat) (s : Slot) :
    (w.secure base s).drop = w.discard base s ∨
      w.secure base s = w.share s ∧ ∀ id, w.inHand base [s] id = 0 := by
  cases s with
  | scalar v =>
    right
    exact ⟨rfl, fun id => by simp [inHand]⟩
  | cell id =>
    rcases findIdx?_cell id (w.above base 0) with ⟨hi, hno⟩ | ⟨front, back, hi, -⟩
    · right
      constructor
      · simp only [secure, secureUnder, hi]
      · intro x
        by_cases hx : id = x
        · subst hx
          simp [inHand, holders_eq_zero hno]
        · simp [inHand, Slot.owns_cell, hx]
    · left
      simp only [secure, secureUnder, discard, hi, Nat.zero_add]

/-- What is alive comes to the top, and is taken from the hand if it is there. -/
theorem secure_alive (hs : w.stack = xs ++ rest) (hb : base = rest.length) (ha : w.Alive s) :
    ∃ heap stack, w.secure base s = { w with heap := heap, stack := s :: stack } ∧
      ∀ id, holders stack id + w.inHand base [s] id = holders w.stack id := by
  have hs' : w.stack = [] ++ (xs ++ rest) := hs
  have habove : w.above base 0 = xs := above_eq hs' hb
  cases s with
  | scalar v => exact ⟨w.heap, w.stack, rfl, fun id => by simp [inHand]⟩
  | cell id =>
    by_cases hmem : Slot.cell id ∈ xs
    · obtain ⟨front, back, hxs, hsecure⟩ := secure_above hs' hb hmem
      refine ⟨w.heap, front ++ back ++ rest, hsecure, fun x => ?_⟩
      rw [inHand, habove, hs, hxs]
      simp only [holders_append, holders_cons, holders_nil]
      omega
    · have hsecure : w.secure base (.cell id) = w.share (.cell id) := secure_missing hs' hb hmem
      rw [share, if_pos (ha id rfl)] at hsecure
      refine ⟨w.heap.retain id, w.stack, hsecure, fun x => ?_⟩
      rw [inHand, habove]
      by_cases hx : id = x
      · subst hx
        rw [holders_eq_zero hmem]
        simp
      · simp [Slot.owns_cell, hx]

/-- Slots whose references are in hand come to the top, and nothing else happens. -/
theorem secureAll_above (slots : List Slot) (hs : w.stack = passed ++ (xs ++ rest))
    (hb : base = rest.length) (hin : ∀ id, holders slots id ≤ holders xs id) :
    ∃ left, w.secureAll base passed.length slots =
        { w with stack := slots.reverse ++ passed ++ (left ++ rest) } ∧
      ∀ id, holders left id + holders slots id = holders xs id := by
  -- What has come to the top is in `passed`, and the rest of the hand is looked for beneath it.
  induction slots generalizing w passed xs with
  | nil => exact ⟨xs, by rw [secureAll, List.reverse_nil, List.nil_append, ← hs], fun _ => rfl⟩
  | cons s slots ih =>
    have hone : ∃ left, w.secureUnder base passed.length s =
        { w with stack := (s :: passed) ++ (left ++ rest) } ∧
        ∀ id, holders left id + s.owns id = holders xs id := by
      cases s with
      | scalar v =>
        refine ⟨xs, ?_, fun id => by simp⟩
        rw [secureUnder, push, hs, List.cons_append]
      | cell id =>
        have hmem : Slot.cell id ∈ xs := by
          have hall := hin id
          rw [holders_cons, Slot.owns_cell, if_pos rfl] at hall
          exact holders_pos.mp (by omega)
        obtain ⟨front, back, rfl, hsecure⟩ := secure_above hs hb hmem
        refine ⟨front ++ back, hsecure, fun x => ?_⟩
        simp only [holders_append, holders_cons]
        omega
    obtain ⟨left, hsecure, hleft⟩ := hone
    have hin' : ∀ id, holders slots id ≤ holders left id := by
      intro id
      have hall := hin id
      have hpart := hleft id
      rw [holders_cons] at hall
      omega
    have hstack : World.stack { w with stack := (s :: passed) ++ (left ++ rest) } =
        (s :: passed) ++ (left ++ rest) := rfl
    obtain ⟨left', hmore, hleft'⟩ := ih hstack hin'
    refine ⟨left', ?_, fun id => ?_⟩
    · rw [secureAll, hsecure]
      rw [List.length_cons] at hmore
      rw [hmore]
      simp
    · have hpart := hleft id
      have hpart' := hleft' id
      rw [holders_cons]
      omega

/-- Slots that are alive come to the top. -/
theorem secureAll_alive {base : Nat} {passed xs rest : List Slot} (slots : List Slot)
    (hs : w.stack = passed ++ (xs ++ rest)) (hb : base = rest.length)
    (halive : ∀ s ∈ slots, w.Alive s) :
    ∃ left, (w.secureAll base passed.length slots).stack =
      slots.reverse ++ passed ++ (left ++ rest) := by
  induction slots generalizing w passed xs with
  | nil => exact ⟨xs, hs⟩
  | cons s slots ih =>
    obtain ⟨hfirst, halive⟩ := List.forall_mem_cons.mp halive
    obtain ⟨left, hstack, hsame⟩ : ∃ left,
        (w.secureUnder base passed.length s).stack = (s :: passed) ++ (left ++ rest) ∧
        ∀ t, w.Alive t → (w.secureUnder base passed.length s).Alive t := by
      cases s with
      | scalar v => exact ⟨xs, congrArg _ hs, fun t ht => ht⟩
      | cell id =>
        by_cases hmem : Slot.cell id ∈ xs
        · obtain ⟨front, back, -, hsecure⟩ := secure_above hs hb hmem
          rw [hsecure]
          exact ⟨front ++ back, rfl, fun t ht => ht⟩
        · rw [secure_missing hs hb hmem, share, if_pos (hfirst id rfl)]
          refine ⟨xs, congrArg _ hs, fun t ht x hx => ?_⟩
          exact (((Heap.Raised.refl w.heap).retain id).isLive x).trans (ht x hx)
    obtain ⟨left', hrest⟩ := ih hstack fun t ht => hsame t (halive t ht)
    refine ⟨left', ?_⟩
    rw [List.length_cons] at hrest
    rw [secureAll, hrest]
    simp

/-! ## Nothing else -/

/-- The other world differs in nothing but its heap and its working stack. -/
def Restacks (w w' : World) : Prop :=
  ∃ heap stack, w' = { w with heap := heap, stack := stack }

theorem Restacks.trans {w₁ : World} (h₁₂ : w.Restacks w₁) (h₂₃ : w₁.Restacks w') : w.Restacks w' := by
  obtain ⟨_, _, rfl⟩ := h₁₂
  obtain ⟨heap, stack, rfl⟩ := h₂₃
  exact ⟨heap, stack, rfl⟩

theorem Restacks.engine (h : w.Restacks w') : w'.engine = w.engine := by
  obtain ⟨_, _, rfl⟩ := h
  rfl

theorem Restacks.scope? (h : w.Restacks w') (id : ScopeId) : w'.scope? id = w.scope? id := by
  obtain ⟨_, _, rfl⟩ := h
  rfl

theorem restacks_refl (w : World) : w.Restacks w :=
  ⟨w.heap, w.stack, rfl⟩

theorem restacks_lift (w : World) (n : Nat) : w.Restacks (w.lift n) := by
  unfold lift
  split
  · exact w.restacks_refl
  · exact ⟨w.heap, _, rfl⟩

theorem restacks_share (w : World) (s : Slot) : w.Restacks (w.share s) := by
  unfold share
  split
  · exact ⟨w.heap, _, rfl⟩
  · split
    · exact ⟨_, _, rfl⟩
    · exact ⟨w.heap, _, rfl⟩

theorem restacks_drop (w : World) : w.Restacks w.drop := by
  unfold drop
  split
  · exact w.restacks_refl
  · exact ⟨_, _, rfl⟩

theorem restacks_secureUnder (w : World) (base passed : Nat) (s : Slot) :
    w.Restacks (w.secureUnder base passed s) := by
  unfold secureUnder
  split
  · exact ⟨w.heap, _, rfl⟩
  · split
    · exact w.restacks_lift _
    · exact w.restacks_share _

theorem restacks_secureAll (w : World) (base passed : Nat) (slots : List Slot) :
    w.Restacks (w.secureAll base passed slots) := by
  induction slots generalizing w passed with
  | nil => exact w.restacks_refl
  | cons s rest ih => exact (w.restacks_secureUnder base passed s).trans (ih _ _)

theorem restacks_discard (w : World) (base : Nat) (s : Slot) : w.Restacks (w.discard base s) := by
  unfold discard
  split
  · exact w.restacks_refl
  · split
    · exact (w.restacks_lift _).trans (restacks_drop _)
    · exact w.restacks_refl

theorem restacks_discardAll (w : World) (base : Nat) (slots : List Slot) :
    w.Restacks (w.discardAll base slots) := by
  induction slots generalizing w with
  | nil => exact w.restacks_refl
  | cons s rest ih => exact (w.restacks_discard base s).trans (ih _)

end World
end Enclave
