import Enclave.Proofs.Number.Whole
import Enclave.Proofs.Script.Access

/-! # Two spellings of a key

A script can name a member by a number or by text. For an integer it makes no difference which: the decimal
form of the integer names the same property and addresses the same element, if there is one.
-/
namespace Enclave

open Act

section Spellings

variable {x : Float} {i : Int}

/-- An integer addresses an element if it is in range. -/
theorem elementIndex?_number (h : Number.toInteger? x = some i) :
    elementIndex? (.scalar (.number x)) = if 0 ≤ i ∧ i < 2 ^ 32 then some i.toNat else none := by
  have hwhole := Number.toWhole?_of_toInteger? h
  have hmax : maxElementIndex = 2 ^ 32 - 1 := rfl
  simp only [elementIndex?, Option.bind_some, hwhole]
  rcases Int.lt_or_le i 0 with hneg | hpos
  · rw [if_neg (by omega), if_neg (by omega)]
    rfl
  · rcases Int.lt_or_le i (2 ^ 32) with hlt | hge
    · rw [if_pos (show 0 ≤ i ∧ i < 2 ^ 32 from ⟨hpos, hlt⟩), if_pos hpos]
      exact Option.filter_some_pos (decide_eq_true (by omega))
    · rw [if_neg (show ¬ (0 ≤ i ∧ i < 2 ^ 32) by omega), if_pos hpos]
      have hout : ¬ i.toNat ≤ maxElementIndex := by omega
      exact Option.filter_some_neg (by simpa using hout)

/-- Its text addresses the same one. -/
theorem elementIndex?_text (h : Number.toInteger? x = some i) (hi : i.natAbs ≤ 2 ^ 53) :
    elementIndex? (.scalar (.string (Number.text x))) = elementIndex? (.scalar (.number x)) := by
  rw [elementIndex?_number h, ← elementIndex?_number (Number.toInteger?_ofInt hi)]
  simp only [elementIndex?, Number.text_of_toInteger? h hi, Number.read?_toString hi]

end Spellings

/-- Of two keys with the same text and the same element one is as good as the other. -/
theorem getMember_congr {key key' : Slot} (hn : ∀ w : World, w.propertyName key = w.propertyName key')
    (he : elementIndex? key = elementIndex? key') (target : Slot) :
    getMember target key = getMember target key' := by
  unfold getMember
  simp only [hn, he]

theorem setMember_congr {key key' : Slot} (hn : ∀ w : World, w.propertyName key = w.propertyName key')
    (he : elementIndex? key = elementIndex? key') (target : Slot) :
    setMember target key = setMember target key' := by
  unfold setMember
  simp only [hn, he]

/-- **Both spellings of a key name the same member.** Every integer of at most `2 ^ 53` in size is a
double. For every double that is this integer, the negative zero among them, the text is the decimal form
of the integer. A script that reads or writes a member of anything comes to the same, fault or not, whether
it gives the number or its text. Both address the same element of an array, and none if the integer is out
of range, and two integers with the same text are the same. -/
theorem spellings_agree (i : Int) (hi : i.natAbs ≤ 2 ^ 53) :
    Number.toInteger? (Float.ofInt i) = some i ∧
    ∀ x, Number.toInteger? x = some i →
      Number.text x = toString i ∧
      (∀ target, getMember target (.scalar (.number x)) =
        getMember target (.scalar (.string (Number.text x)))) ∧
      (∀ target, setMember target (.scalar (.number x)) =
        setMember target (.scalar (.string (Number.text x)))) ∧
      (∀ key ∈ [Slot.scalar (.number x), .scalar (.string (Number.text x))],
        elementIndex? key = if 0 ≤ i ∧ i < 2 ^ 32 then some i.toNat else none) ∧
      ∀ y j, Number.toInteger? y = some j → j.natAbs ≤ 2 ^ 53 →
        (Number.text x = Number.text y ↔ i = j) := by
  refine ⟨Number.toInteger?_ofInt hi, fun x hx => ?_⟩
  have htext := Number.text_of_toInteger? hx hi
  have hindex := elementIndex?_text hx hi
  have hname : ∀ w : World, w.propertyName (.scalar (.number x)) =
      w.propertyName (.scalar (.string (Number.text x))) := fun w => rfl
  refine ⟨htext, getMember_congr hname hindex.symm, setMember_congr hname hindex.symm, ?_, ?_⟩
  · intro key hkey
    simp only [List.mem_cons, List.not_mem_nil, or_false] at hkey
    rcases hkey with rfl | rfl
    · exact elementIndex?_number hx
    · exact hindex.trans (elementIndex?_number hx)
  · intro y j hy hj
    rw [htext, Number.text_of_toInteger? hy hj]
    constructor
    · intro heq
      -- What is read from the one text is what is read from the other.
      have hread := Number.read?_toString hi
      rw [heq, Number.read?_toString hj, Option.some.injEq] at hread
      have hinteger := Number.toInteger?_ofInt hi
      rw [← hread, Number.toInteger?_ofInt hj, Option.some.injEq] at hinteger
      exact hinteger.symm
    · rintro rfl
      rfl

/-- The negative zero, beside the first integer that is too large for an element. -/
theorem spellings_agree_negative_zero :
    (0 : Int).natAbs ≤ 2 ^ 53 ∧ Number.toInteger? (-0.0) = some 0 ∧
      Number.toInteger? 4294967296 = some 4294967296 ∧
      (∀ target, getMember target (.scalar (.number (-0.0))) =
        getMember target (.scalar (.string (Number.text (-0.0))))) ∧
      Number.text (-0.0) = "0" ∧ elementIndex? (.scalar (.string (Number.text (-0.0)))) = some 0 ∧
      Number.text (-0.0) ≠ Number.text 4294967296 := by
  have hzero : Number.toInteger? (-0.0) = some 0 := by decide +kernel
  have hlarge : Number.toInteger? 4294967296 = some 4294967296 := by decide +kernel
  obtain ⟨-, hspellings⟩ := spellings_agree 0 (by decide)
  obtain ⟨htext, hget, -, hindex, hdistinct⟩ := hspellings (-0.0) hzero
  refine ⟨by decide, hzero, hlarge, hget, htext, ?_, fun heq => ?_⟩
  · exact hindex _ (List.mem_cons_of_mem _ List.mem_cons_self)
  · exact absurd ((hdistinct 4294967296 4294967296 hlarge (by decide)).mp heq) (by decide)

end Enclave
