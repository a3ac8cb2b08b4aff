import Enclave.Proofs.Text.Utf8

/-! # How far text is carried

Bytes end at their first zero, so of a text the other side gets the longest start without one. The
cut is made on bytes and falls between two characters all the same: what is left is the UTF-8 of
that start, and all who read it find just that, whatever lies behind the zero in memory. Where text
must not be cut, it is refused instead.
-/
namespace Enclave

open Act Text

/-! ## The start of a text -/

/-- The longest start of a text without a zero character. -/
structure IsPlainStart (p s : String) : Prop where
  start : p.toList <+: s.toList
  plain : IsPlain p
  longest : ∀ q : String, q.toList <+: s.toList → IsPlain q → q.length ≤ p.length

theorem isPlainStart_cut (s : String) : IsPlainStart (cut s) s where
  start := by
    rw [cut, String.toList_ofList]
    exact List.takeWhile_prefix _
  plain := isPlain_cut s
  longest := by
    intro q hstart hplain
    obtain ⟨rest, hrest⟩ := hstart
    have hchars : ∀ c ∈ q.toList, (c != '\x00') = true := fun c hc =>
      bne_iff_ne.mpr (ne_of_mem_of_not_mem hc hplain)
    have hcut : (cut s).toList = q.toList ++ rest.takeWhile (· != '\x00') := by
      rw [cut, String.toList_ofList, ← hrest, List.takeWhile_append_of_pos hchars]
    rw [← String.length_toList, ← String.length_toList, hcut, List.length_append]
    exact Nat.le_add_right _ _

theorem cut_eq_self_iff {s : String} : cut s = s ↔ IsPlain s :=
  ⟨fun h => h ▸ isPlain_cut s, cut_eq_self⟩

/-! ## Readers -/

/-- A record of text, whatever its other fields say. -/
def Record.bearing (r : Record) (t : TextRef) : Record :=
  { r with code := Kind.string.code, text := some t }

theorem Record.slot_bearing (r : Record) (t : TextRef) :
    (r.bearing t).slot = .scalar (.string (readText t.bytes)) := rfl

theorem Value.ofRecord_bearing (r : Record) (t : TextRef) : ofRecord (r.bearing t) =
    match decode? (untilZero t.bytes) with
    | some s => .ok (string s)
    | none => .error (.malformed .brokenText) := rfl

/-- All who get the bytes find the text `p` in them: a strict reader, be it the standard one, a
lossy reader, the runtime when it makes a slot of a record and the host when it makes a value of
it. -/
structure ReadAs (bytes : Bytes) (p : String) : Prop where
  standard : String.fromUTF8? (untilZero bytes).toByteArray = some p
  strict : decode? (untilZero bytes) = some p
  lossy : readText bytes = p
  slot : ∀ (r : Record) (block : Option Nat),
    (r.bearing ⟨bytes, block⟩).slot = .scalar (.string p)
  value : ∀ (r : Record) (block : Option Nat),
    Value.ofRecord (r.bearing ⟨bytes, block⟩) = .ok (.string p)

/-- Readers find a text in just those bytes that are its UTF-8 up to their first zero. -/
theorem readAs_iff {bytes : Bytes} {p : String} : ReadAs bytes p ↔ untilZero bytes = encode p := by
  constructor
  · exact fun h => decode?_eq_some_iff.mp h.strict
  · intro h
    have hstrict : decode? (untilZero bytes) = some p := decode?_eq_some_iff.mpr h
    have hlossy : readText bytes = p := by rw [readText, h, decodeLossy_encode]
    refine ⟨?_, hstrict, hlossy, ?_, ?_⟩
    · rw [← decode?_eq_fromUTF8?, hstrict]
    · intro r block
      rw [Record.slot_bearing, hlossy]
    · intro r block
      rw [Value.ofRecord_bearing, hstrict]

/-- Of bytes with a zero after them, what lies behind it is not seen. -/
theorem untilZero_terminated {bytes : Bytes} (h : 0 ∉ bytes) (behind : Bytes) :
    untilZero (bytes ++ 0 :: behind) = bytes := by
  have hbytes : ∀ b ∈ bytes, (b != 0) = true := fun b hb =>
    bne_iff_ne.mpr (ne_of_mem_of_not_mem hb h)
  rw [untilZero, List.takeWhile_append_of_pos hbytes, List.takeWhile_cons_of_neg (by simp),
    List.append_nil]

theorem readAs_cut (s : String) : ReadAs (encode (cut s)) (cut s) :=
  readAs_iff.mpr (by rw [untilZero_encode, cut_cut])

theorem readAs_terminated (s : String) (behind : Bytes) :
    ReadAs (encode (cut s) ++ 0 :: behind) (cut s) :=
  readAs_iff.mpr (untilZero_terminated (fun h => zero_mem_encode.mp h (isPlain_cut s)) behind)

/-! ## Conversions -/

/-- A copy of a text in a block of its own and a text that is lent carry the same: the UTF-8 of the
longest start without a zero, in which all readers find that start. Text that the host sends has the
same bytes if that start is all of it, and is refused if it is not. -/
theorem text_conversions_agree (s : String) (m : Machine) :
    IsPlainStart (cut s) s ∧
    allocText s m = .done ⟨encode (cut s), some m.world.ledger.next⟩
      { m with world := m.world.allocText } ∧
    m.world.lend (.scalar (.string s)) = .ofText ⟨encode (cut s), none⟩ ∧
    (encode (cut s)).toByteArray = (cut s).toUTF8 ∧ (encode (cut s)).toByteArray.IsValidUTF8 ∧
    ReadAs (encode (cut s)) (cut s) ∧
    (∀ behind, ReadAs (encode (cut s) ++ 0 :: behind) (cut s)) ∧
    sentText s = if cut s = s then .ok (encode (cut s)) else .error (.interiorZero s) := by
  have hutf8 : (encode (cut s)).toByteArray = (cut s).toUTF8 := toByteArray_encode (cut s)
  refine ⟨isPlainStart_cut s, ?_, ?_, hutf8, ?_, readAs_cut s, readAs_terminated s, ?_⟩
  · rw [← untilZero_encode]
    rfl
  · rw [← untilZero_encode]
    rfl
  · rw [hutf8]
    exact (cut s).isValidUTF8
  · rw [sentText_eq]
    by_cases hplain : IsPlain s
    · rw [if_pos hplain, if_pos (cut_eq_self hplain), cut_eq_self hplain]
    · rw [if_neg hplain, if_neg fun h => hplain (cut_eq_self_iff.mp h)]

example : untilZero (encode "hé\x00llo") = [0x68, 0xC3, 0xA9] := by decide

end Enclave
