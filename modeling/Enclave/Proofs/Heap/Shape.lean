import Enclave.Proofs.Heap.Raised
import Enclave.Script.Member

/-! # The shape of a heap

What a payload may hold depends on what other cells are: an instance is linked to a class, and the
methods of a class are functions. Neither an object nor a class has two entries of one name. A heap that
evolves keeps all this. Each of its functions runs one and the same thing for as long as it lives, and
each of its objects is linked to one and the same class, or to none.
-/
namespace Enclave

namespace Heap

variable {h h' h₁ : Heap} {id : CellId} {kind : Kind} {p q : Payload} {n : Nat}

/-! ## Numbers and kinds -/

/-- The number was given out, and the cell behind it is of the kind, if it is still alive. -/
structure Made (h : Heap) (id : CellId) (kind : Kind) : Prop where
  given : id < h.next
  kind : ∀ k, h.kind? id = some k → k = kind

theorem made_of_kind? (hk : h.kind? id = some kind) : h.Made id kind := by
  obtain ⟨cell, hcell⟩ := isLive_iff.mp (isLive_of_kind? hk)
  exact ⟨lt_next_of_cell? hcell, fun k hk' => Option.some.inj (hk'.symm.trans hk)⟩

theorem Made.later (hm : h.Made id kind) (hl : h.Later h') : h'.Made id kind :=
  ⟨Nat.lt_of_lt_of_le hm.given hl.next, fun k hk => hm.kind k (hl.kind id k hm.given hk)⟩

theorem Made.kind?_eq (hm : h.Made id kind) (hlive : h.isLive id = true) :
    h.kind? id = some kind := by
  obtain ⟨cell, hcell⟩ := isLive_iff.mp hlive
  have hk : h.kind? id = some cell.kind := by simp [Heap.kind?, hcell]
  rw [hk, hm.kind _ hk]

end Heap

/-! ## Payloads -/

namespace Payload

/-- The payload suits what other cells of the heap are. -/
def Suits (h : Heap) : Payload → Prop
  | object properties classLink =>
    properties.keys.Nodup ∧ ∀ id, classLink = some id → h.Made id .classDesc
  | classDesc _ methods =>
    methods.keys.Nodup ∧ ∀ s ∈ methods.values, ∃ id, s = .cell id ∧ h.Made id .function
  | array _ | function _ | task _ => True

theorem Suits.later {h h' : Heap} {p : Payload} (hp : p.Suits h) (hl : h.Later h') :
    p.Suits h' := by
  cases p with
  | object properties classLink => exact ⟨hp.1, fun id hid => (hp.2 id hid).later hl⟩
  | classDesc name methods =>
    refine ⟨hp.1, fun s hs => ?_⟩
    obtain ⟨id, hid, hmade⟩ := hp.2 s hs
    exact ⟨id, hid, hmade.later hl⟩
  | array | function | task => trivial

/-- An object has become an object that is linked as it was. -/
def Relinks (p q : Payload) : Prop :=
  ∀ properties classLink, p = .object properties classLink →
    ∃ properties', q = .object properties' classLink

theorem Relinks.refl (p : Payload) : p.Relinks p :=
  fun properties _ h => ⟨properties, h⟩

theorem Relinks.trans {p₁ p₂ p₃ : Payload} (h₁₂ : p₁.Relinks p₂) (h₂₃ : p₂.Relinks p₃) :
    p₁.Relinks p₃ := by
  intro properties classLink h
  obtain ⟨properties', h'⟩ := h₁₂ properties classLink h
  exact h₂₃ properties' classLink h'

/-- An exchange that turns a payload which suits a heap into another one that does, and leaves
functions and links alone. -/
def Reshapes (f : Payload → Slot → Option (Payload × Slot)) : Prop :=
  ∀ p s q old, f p s = some (q, old) →
    (∀ g, p ≠ .function g) ∧ (∀ g, q ≠ .function g) ∧ p.Relinks q ∧
      ∀ h : Heap, p.Suits h → q.Suits h

theorem reshapes_putElement (index : Nat) : Reshapes (putElement index) := by
  intro p s q old hq
  cases p with
  | array elements =>
    unfold putElement at hq
    dsimp only at hq
    split at hq
    · cases hq
      exact ⟨nofun, nofun, nofun, fun _ _ => trivial⟩
    · cases hq
  | object | function | classDesc | task => cases hq

theorem reshapes_pushElement : Reshapes pushElement := by
  intro p s q old hq
  cases p with
  | array elements =>
    cases hq
    exact ⟨nofun, nofun, nofun, fun _ _ => trivial⟩
  | object | function | classDesc | task => cases hq

theorem reshapes_putProperty (key : String) : Reshapes (putProperty key) := by
  intro p s q old hq
  cases p with
  | object properties classLink =>
    cases hq
    refine ⟨nofun, nofun, ?_, fun h hp => ⟨Table.nodup_keys_put hp.1 key s, hp.2⟩⟩
    rintro _ _ ⟨⟩
    exact ⟨_, rfl⟩
  | array | function | classDesc | task => cases hq

/-- A method has to be a function. -/
theorem suits_putMethod {h : Heap} {p q : Payload} {key : String} {id : CellId} {old : Slot}
    (hid : h.Made id .function) (hp : p.Suits h)
    (hq : putMethod key p (.cell id) = some (q, old)) : q.Suits h := by
  cases p with
  | classDesc name methods =>
    cases hq
    refine ⟨Table.nodup_keys_put hp.1 key _, fun s hs => ?_⟩
    rcases Table.mem_values_put hs with rfl | hs
    · exact ⟨id, rfl, hid⟩
    · exact hp.2 s hs
  | array | object | function | task => cases hq

end Payload

namespace Heap

variable {h h' h₁ : Heap} {id : CellId} {p q : Payload} {n : Nat}

/-- Every payload suits the heap. -/
def Shaped (h : Heap) : Prop :=
  ∀ id p, h.payload? id = some p → p.Suits h

/-- Every function that runs a closure runs one of the first `n`. -/
def Bounded (h : Heap) (n : Nat) : Prop :=
  ∀ id i, h.payload? id = some (.function (.closure (some i))) → i < n

theorem Bounded.mono (hb : h.Bounded n) {k : Nat} (hk : n ≤ k) : h.Bounded k :=
  fun id i hi => Nat.lt_of_lt_of_le (hb id i hi) hk

/-- The heap comes to another one that keeps its shape. No function that is alive in both has become
another one, and no object that is alive in both has lost its link or got another. -/
structure Evolves (h h' : Heap) : Prop where
  later : h.Later h'
  shaped : h.Shaped → h'.Shaped
  functions : ∀ id f p, h.payload? id = some (.function f) → h'.payload? id = some p →
    p = .function f
  links : ∀ id p q, h.payload? id = some p → h'.payload? id = some q → p.Relinks q

theorem Evolves.refl (h : Heap) : h.Evolves h :=
  ⟨.refl h, fun hs => hs, fun _ _ _ hf hp => Option.some.inj (hp.symm.trans hf),
    fun _ p _ hp hq => Option.some.inj (hp.symm.trans hq) ▸ .refl p⟩

/-- Numbers are never given out twice, so a cell that is alive before and after is so in between. -/
theorem exists_between (h₁₂ : h.Later h₁) (h₂₃ : h₁.Later h') (hp : h.payload? id = some p)
    (hq : h'.payload? id = some q) : ∃ p₁, h₁.payload? id = some p₁ := by
  obtain ⟨cell, hcell, rfl⟩ := Option.map_eq_some_iff.mp hq
  have hlt : id < h₁.next := Nat.lt_of_lt_of_le (lt_next_of_payload? hp) h₁₂.next
  have hkind : h₁.kind? id = some cell.kind := h₂₃.kind id _ hlt (by simp [Heap.kind?, hcell])
  exact exists_payload? (isLive_of_kind? hkind)

theorem Evolves.trans (h₁₂ : h.Evolves h₁) (h₂₃ : h₁.Evolves h') : h.Evolves h' := by
  refine ⟨h₁₂.later.trans h₂₃.later, fun hs => h₂₃.shaped (h₁₂.shaped hs), fun id f p hf hp => ?_,
    fun id p q hp hq => ?_⟩
  · obtain ⟨p₁, hp₁⟩ := exists_between h₁₂.later h₂₃.later hf hp
    obtain rfl := h₁₂.functions id f p₁ hf hp₁
    exact h₂₃.functions id f _ hp₁ hp
  · obtain ⟨p₁, hp₁⟩ := exists_between h₁₂.later h₂₃.later hp hq
    exact (h₁₂.links id p p₁ hp hp₁).trans (h₂₃.links id p₁ q hp₁ hq)

theorem Evolves.held (he : h.Evolves h') {f : NativeFunction}
    (hf : h.payload? id = some (.function f)) (hlive : h'.isLive id = true) :
    h'.payload? id = some (.function f) := by
  obtain ⟨p, hp⟩ := exists_payload? hlive
  rw [hp, he.functions id f p hf hp]

theorem evolves_alloc (hp : p.Suits h) : h.Evolves (h.alloc p) := by
  have hl := later_alloc h p
  have hold : ∀ id p₀, h.payload? id = some p₀ → (h.alloc p).payload? id = some p₀ :=
    fun id p₀ hp₀ => by
      rw [payload?_alloc, if_neg (Nat.ne_of_lt (lt_next_of_payload? hp₀)), hp₀]
  refine ⟨hl, fun hs id q hq => ?_, fun id f q hf hq => ?_, fun id p₀ q hp₀ hq => ?_⟩
  · rw [payload?_alloc] at hq
    split at hq
    · cases hq
      exact hp.later hl
    · exact (hs id q hq).later hl
  · exact Option.some.inj (hq.symm.trans (hold id _ hf))
  · exact Option.some.inj ((hold id p₀ hp₀).symm.trans hq) ▸ .refl p₀

theorem Bounded.alloc (hb : h.Bounded n) (hp : ∀ i, p = .function (.closure (some i)) → i < n) :
    (h.alloc p).Bounded n := by
  intro id i hi
  rw [payload?_alloc] at hi
  split at hi
  · exact hp i (Option.some.inj hi)
  · exact hb id i hi

/-- The heap evolves and no function that runs a closure is new. -/
structure Ages (h h' : Heap) : Prop where
  evolves : h.Evolves h'
  bounded : ∀ n, h.Bounded n → h'.Bounded n

theorem Ages.refl (h : Heap) : h.Ages h :=
  ⟨.refl h, fun _ hb => hb⟩

theorem Ages.trans (h₁₂ : h.Ages h₁) (h₂₃ : h₁.Ages h') : h.Ages h' :=
  ⟨h₁₂.evolves.trans h₂₃.evolves, fun n hb => h₂₃.bounded n (h₁₂.bounded n hb)⟩

/-- Where no payload is new, what is left suits the heap as before. -/
theorem ages_of_survivors (hl : h.Later h')
    (hp : ∀ id p, h'.payload? id = some p → h.payload? id = some p) : h.Ages h' where
  evolves := ⟨hl, fun hs id p hid => (hs id p (hp id p hid)).later hl,
    fun id _ p hf hp' => Option.some.inj ((hp id p hp').symm.trans hf),
    fun id p q hp' hq => Option.some.inj (hp'.symm.trans (hp id q hq)) ▸ .refl p⟩
  bounded := fun _ hb id i hi => hb id i (hp id _ hi)

theorem ages_retain (h : Heap) (id : CellId) : h.Ages (h.retain id) :=
  ages_of_survivors (later_retain h id) fun x _ hx =>
    (((Raised.refl h).retain id).payload? x).symm.trans hx

theorem ages_releaseSlots (h : Heap) (slots : List Slot) : h.Ages (h.releaseSlots slots) :=
  ages_of_survivors (later_releaseSlots h slots) fun _ _ => payload?_of_releaseAll

theorem ages_alloc (hp : p.Suits h) (hf : ∀ i, p ≠ .function (.closure (some i))) :
    h.Ages (h.alloc p) :=
  ⟨evolves_alloc hp, fun _ hb => hb.alloc fun i hi => absurd hi (hf i)⟩

theorem ages_setPayload (hp : h.payload? id = some p) (hf : ∀ g, p ≠ .function g)
    (hf' : ∀ g, q ≠ .function g) (hlinks : p.Relinks q) (hq : h.Shaped → q.Suits h) :
    h.Ages (h.setPayload id q) := by
  have hl := later_setPayload h id q
  refine ⟨⟨hl, fun hs x r hr => ?_, fun x f r hx hr => ?_, fun x p₀ r hx hr => ?_⟩,
    fun n hb x i hi => ?_⟩
  · rw [payload?_setPayload hp] at hr
    split at hr
    · cases hr
      exact (hq hs).later hl
    · exact (hs x r hr).later hl
  · rw [payload?_setPayload hp] at hr
    split at hr
    · rename_i hxid
      rw [hxid, hp] at hx
      exact absurd (Option.some.inj hx) (hf f)
    · exact Option.some.inj (hr.symm.trans hx)
  · rw [payload?_setPayload hp] at hr
    split at hr
    · rename_i hxid
      cases hr
      rw [hxid, hp] at hx
      exact Option.some.inj hx ▸ hlinks
    · exact Option.some.inj (hx.symm.trans hr) ▸ .refl p₀
  · rw [payload?_setPayload hp] at hi
    split at hi
    · exact absurd (Option.some.inj hi) (hf' _)
    · exact hb x i hi

/-- The shape of a heap: each live cell is of the kind of its payload, neither an object nor a class has
two entries of one name, an instance is linked to a class, and what a class has for a method is a
function. -/
structure WellShaped (h : Heap) : Prop where
  kinds : ∀ id, h.isLive id = true → ∃ p, h.payload? id = some p ∧ h.kind? id = some p.kind
  properties : ∀ id properties classLink, h.payload? id = some (.object properties classLink) →
    properties.keys.Nodup
  methods : ∀ id name methods, h.payload? id = some (.classDesc name methods) → methods.keys.Nodup
  linked : ∀ id properties c, h.payload? id = some (.object properties (some c)) →
    ∃ name methods, h.payload? c = some (.classDesc name methods)
  functions : ∀ id name methods, h.payload? id = some (.classDesc name methods) →
    ∀ s ∈ methods.values, ∃ f function, s = .cell f ∧ h.payload? f = some (.function function)

/-- What is alive has a payload of the kind that it was made with. -/
theorem Made.exists_payload? {kind : Kind} (hm : h.Made id kind) (hp : h.Proper)
    (hlive : h.isLive id = true) : ∃ p, h.payload? id = some p ∧ p.kind = kind := by
  obtain ⟨p, hpayload⟩ := Heap.exists_payload? hlive
  have hkind := hm.kind?_eq hlive
  rw [hp.kind? id, hpayload] at hkind
  exact ⟨p, hpayload, Option.some.inj hkind⟩

/-- What a payload holds is alive, so it is of the kind that the payload needs it to be. -/
theorem Shaped.wellShaped (hs : h.Shaped) (hp : h.Proper) : h.WellShaped where
  kinds := fun id hlive => by
    obtain ⟨p, hpayload⟩ := exists_payload? hlive
    exact ⟨p, hpayload, by rw [hp.kind? id, hpayload, Option.map_some]⟩
  properties := fun id _ _ hid => (hs id _ hid).1
  methods := fun id _ _ hid => (hs id _ hid).1
  linked := fun id properties c hid => by
    have hlive : h.isLive c = true := hp.closed id _ hid c (by simp [Payload.slots])
    obtain ⟨p, hpayload, hkind⟩ := ((hs id _ hid).2 c rfl).exists_payload? hp hlive
    cases p with
    | classDesc name methods => exact ⟨name, methods, hpayload⟩
    | array | object | function | task => cases hkind
  functions := fun id _ methods hid s hmem => by
    obtain ⟨f, rfl, hmade⟩ := (hs id _ hid).2 s hmem
    obtain ⟨p, hpayload, hkind⟩ := hmade.exists_payload? hp (hp.closed id _ hid f hmem)
    cases p with
    | function g => exact ⟨f, g, rfl, hpayload⟩
    | array | object | classDesc | task => cases hkind

end Heap
end Enclave
