import Enclave.Proofs.Host.Echo

/-! # What a call of a closure passes

A closure looks at what it is passed in a fixed order: the count, the array, the arguments from the
first to the last, the receiver. What it passes is read as a whole, or there is a first thing that is
wrong with it.
-/
namespace Enclave

open Act Text

/-! ## What is passed -/

/-- Records that are read as values can each be read. -/
theorem Value.readable {records : List Record} {values : List Value}
    (h : records.map Value.ofRecord = values.map .ok) :
    ∀ r ∈ records, ∃ v, Value.ofRecord r = .ok v := by
  intro r hr
  have hmem : Value.ofRecord r ∈ values.map Except.ok := h ▸ List.mem_map_of_mem hr
  obtain ⟨v, -, hv⟩ := List.mem_map.mp hmem
  exact ⟨v, hv.symm⟩

namespace Passed

/-- The count is in range, and there is an array unless it is zero. -/
structure Counts (limit : Nat) (p : Passed) : Prop where
  natural : 0 ≤ p.argc
  inRange : p.argc ≤ limit
  array : p.argv = none → p.argc = 0

/-- The first thing that is wrong with a call, in the order in which a closure looks for it. -/
inductive Fails (limit : Nat) (p : Passed) : ClosureError → Prop
  | negative (h : p.argc < 0) : Fails limit p (.host (.malformed .negativeCount))
  | tooMany (h : limit < p.argc) : Fails limit p (.host (.malformed .tooManyArguments))
  | missing (h : 0 < p.argc) (hl : p.argc ≤ limit) (ha : p.argv = none) :
      Fails limit p (.host (.malformed .missingArguments))
  | argument {i : Nat} {r : Record} {e : HostError} (hc : p.Counts limit)
      (hr : p.records[i]? = some r) (he : Value.ofRecord r = .error e)
      (hfirst : ∀ j a, j < i → p.records[j]? = some a → ∃ v, Value.ofRecord a = .ok v) :
      Fails limit p (.argument i e.message)
  | receiver {r : Record} {e : HostError} (hc : p.Counts limit)
      (ha : ∀ a ∈ p.records, ∃ v, Value.ofRecord a = .ok v) (hr : p.receiver = some r)
      (he : Value.ofRecord r = .error e) : Fails limit p (.host e)

/-- All that is passed can be read, and as what; no receiver is null. -/
structure Reads (limit : Nat) (p : Passed) (args : List Value) (this : Value) : Prop where
  counts : p.Counts limit
  args : p.records.map Value.ofRecord = args.map .ok
  receiver : (p.receiver.map Value.ofRecord).getD (.ok .null) = .ok this

variable {limit : Nat} {p : Passed} {e e' : ClosureError} {args : List Value} {this : Value}

theorem Counts.of_argument {i : Nat} {r : Record} (hc : p.Counts limit)
    (hr : p.records[i]? = some r) : 0 < p.argc ∧ p.argv ≠ none := by
  have hi : i < p.records.length := (List.getElem?_eq_some_iff.mp hr).1
  simp only [records, List.length_take] at hi
  have hpos : 0 < p.argc := by omega
  refine ⟨hpos, fun hnone => ?_⟩
  have := hc.array hnone
  omega

/-- What can be read has nothing wrong with it. -/
theorem Reads.not_fails (h : p.Reads limit args this) : ¬ p.Fails limit e := by
  have hall := Value.readable h.args
  have hn := h.counts.natural
  have hl := h.counts.inRange
  intro hf
  cases hf with
  | negative hneg => omega
  | tooMany hmany => omega
  | missing hpos _ hnone =>
    have := h.counts.array hnone
    omega
  | argument _ hr he _ =>
    obtain ⟨v, hv⟩ := hall _ (List.mem_of_getElem? hr)
    rw [hv] at he
    cases he
  | receiver _ _ hr he =>
    have hthis := h.receiver
    rw [hr, Option.map_some, Option.getD_some, he] at hthis
    cases hthis

/-- What is read is read in one way. -/
theorem Reads.eq {args' : List Value} {this' : Value} (h : p.Reads limit args this)
    (h' : p.Reads limit args' this') : args = args' ∧ this = this' := by
  constructor
  · exact (List.map_inj_right fun _ _ h => Except.ok.inj h).mp (h.args.symm.trans h'.args)
  · exact Except.ok.inj (h.receiver.symm.trans h'.receiver)

/-- Nothing else is the first thing that is wrong. -/
theorem Fails.eq (h : p.Fails limit e) (h' : p.Fails limit e') : e = e' := by
  have hcounts : p.Counts limit → 0 ≤ p.argc ∧ p.argc ≤ limit := fun h => ⟨h.natural, h.inRange⟩
  cases h with
  | negative hneg =>
    cases h' with
    | negative => rfl
    | tooMany | missing => omega
    | argument hc | receiver hc =>
      have := hcounts hc
      omega
  | tooMany hmany =>
    cases h' with
    | tooMany => rfl
    | negative | missing => omega
    | argument hc | receiver hc =>
      have := hcounts hc
      omega
  | missing hpos hle hnone =>
    cases h' with
    | missing => rfl
    | negative | tooMany => omega
    | argument hc | receiver hc =>
      have := hc.array hnone
      omega
  | @argument i r _ hc hr he hfirst =>
    cases h' with
    | negative | tooMany =>
      have := hcounts hc
      omega
    | missing _ _ hnone => exact absurd hnone (hc.of_argument hr).2
    | @argument j r' _ _ hr' he' hfirst' =>
      rcases Nat.lt_trichotomy i j with hlt | rfl | hgt
      · obtain ⟨v, hv⟩ := hfirst' i r hlt hr
        rw [hv] at he
        cases he
      · rw [hr] at hr'
        cases hr'
        rw [he] at he'
        cases he'
        rfl
      · obtain ⟨v, hv⟩ := hfirst j r' hgt hr'
        rw [hv] at he'
        cases he'
    | receiver _ hall =>
      obtain ⟨v, hv⟩ := hall r (List.mem_of_getElem? hr)
      rw [hv] at he
      cases he
  | receiver hc hall hr he =>
    cases h' with
    | negative | tooMany =>
      have := hcounts hc
      omega
    | missing _ _ hnone =>
      have := hc.array hnone
      omega
    | argument _ hr' he' =>
      obtain ⟨v, hv⟩ := hall _ (List.mem_of_getElem? hr')
      rw [hv] at he'
      cases he'
    | receiver _ _ hr' he' =>
      rw [hr] at hr'
      cases hr'
      rw [he] at he'
      cases he'
      rfl

end Passed

/-! ## Reading what is passed -/

/-- The slots that a call takes for values read from records. -/
def World.takenFor (w : World) (values : List Value) : List Slot :=
  (values.map fun v => w.found v.slot).reverse

/-- The slots that a call has taken when all of it could be read. -/
def Passed.taken (w : World) (p : Passed) (args : List Value) (this : Value) : List Slot :=
  (p.receiver.map fun _ => w.found this.slot).toList ++ w.takenFor args

namespace Act

variable {m₀ : Machine} {ss : List Slot} {bs : List Nat} {es : List Event} {limit : Nat}

theorem turns_copyRead (r : Record) :
    Turns m₀ ⟨ss, bs, es⟩ (copyRecord r) fun v k => v = Value.ofRecord r ∧
      k = ⟨(v.toOption.map fun v => m₀.world.found v.slot).toList ++ ss, bs, es⟩ := by
  unfold copyRecord
  cases Value.ofRecord r with
  | ok v => exact (turns_shareFound v.slot).step (turns_pure _ ⟨rfl, rfl⟩)
  | error e => exact turns_pure _ ⟨rfl, rfl⟩

/-- Arguments are read up to the first that cannot be. -/
theorem turns_copyAll (records : List Record) (index : Nat) :
    Turns m₀ ⟨ss, bs, es⟩ (copyArguments index records) fun outcome k =>
      (∃ args, records.map Value.ofRecord = args.map .ok ∧ outcome = .ok args ∧
        k = ⟨m₀.world.takenFor args ++ ss, bs, es⟩) ∨
      ∃ i r e taken, records[i]? = some r ∧ Value.ofRecord r = .error e ∧
        (∀ j a, j < i → records[j]? = some a → ∃ v, Value.ofRecord a = .ok v) ∧
        outcome = .error (.argument (index + i) e.message) ∧ k = ⟨taken ++ ss, bs, es⟩ := by
  induction records generalizing ss index with
  | nil => exact turns_pure _ (.inl ⟨[], rfl, rfl, rfl⟩)
  | cons r rest ih =>
    apply (turns_copyRead r).bind
    rintro _ k ⟨rfl, rfl⟩
    cases hr : Value.ofRecord r with
    | error e =>
      refine turns_pure _ (.inr ⟨0, r, e, [], rfl, hr, ?_, rfl, rfl⟩)
      intro j a hj
      omega
    | ok v =>
      apply (ih (index + 1)).bind
      intro outcome k h
      apply turns_pure
      rcases h with ⟨args, hargs, rfl, rfl⟩ | ⟨i, a, e, taken, ha, he, hfirst, rfl, rfl⟩
      · refine .inl ⟨v :: args, ?_, rfl, ?_⟩
        · rw [List.map_cons, List.map_cons, hr, hargs]
        · simp [World.takenFor, Except.toOption]
      · refine .inr ⟨i + 1, a, e, taken ++ [m₀.world.found v.slot], ha, he, ?_, ?_, ?_⟩
        · intro j b hj hb
          cases j with
          | zero =>
            cases hb
            exact ⟨v, hr⟩
          | succ j => exact hfirst j b (by omega) hb
        · rw [show index + (i + 1) = index + 1 + i by omega]
          rfl
        · simp [Except.toOption]

theorem turns_collectRead (p : Passed) :
    Turns m₀ ⟨ss, bs, es⟩ (collectArguments limit p) fun outcome k =>
      (∃ args, p.Counts limit ∧ p.records.map Value.ofRecord = args.map .ok ∧
        outcome = .ok args ∧ k = ⟨m₀.world.takenFor args ++ ss, bs, es⟩) ∨
      ∃ e taken, p.Fails limit e ∧ outcome = .error e ∧ k = ⟨taken ++ ss, bs, es⟩ := by
  unfold collectArguments
  dsimp only
  by_cases hneg : p.argc < 0
  · rw [if_pos hneg]
    exact turns_pure _ (.inr ⟨_, [], .negative hneg, rfl, rfl⟩)
  rw [if_neg hneg]
  by_cases hmany : limit < p.argc.toNat
  · rw [if_pos hmany]
    exact turns_pure _ (.inr ⟨_, [], .tooMany (by omega), rfl, rfl⟩)
  rw [if_neg hmany]
  by_cases hzero : p.argc = 0
  · rw [if_pos hzero]
    have hrecords : p.records = [] := by simp [Passed.records, hzero]
    refine turns_pure _ (.inl ⟨[], ⟨by omega, by omega, fun _ => hzero⟩, ?_, rfl, rfl⟩)
    rw [hrecords]
    rfl
  rw [if_neg hzero]
  cases hv : p.argv with
  | none => exact turns_pure _ (.inr ⟨_, [], .missing (by omega) (by omega) hv, rfl, rfl⟩)
  | some records =>
    have hc : p.Counts limit := ⟨by omega, by omega, fun hnone => by simp [hv] at hnone⟩
    apply (turns_copyAll p.records 0).weaken
    intro outcome k h
    rcases h with ⟨args, hargs, rfl, rfl⟩ | ⟨i, r, e, taken, hr, he, hfirst, rfl, rfl⟩
    · exact .inl ⟨args, hc, hargs, rfl, rfl⟩
    · refine .inr ⟨_, taken, .argument hc hr he hfirst, ?_, rfl⟩
      rw [Nat.zero_add]

theorem turns_readReceiver (p : Passed) :
    Turns m₀ ⟨ss, bs, es⟩ (copyReceiver p) fun outcome k =>
      (∃ this, (p.receiver.map Value.ofRecord).getD (.ok .null) = .ok this ∧ outcome = .ok this ∧
        k = ⟨(p.receiver.map fun _ => m₀.world.found this.slot).toList ++ ss, bs, es⟩) ∨
      ∃ r e, p.receiver = some r ∧ Value.ofRecord r = .error e ∧ outcome = .error (.host e) ∧
        k = ⟨ss, bs, es⟩ := by
  unfold copyReceiver
  cases p.receiver with
  | none => exact turns_pure _ (.inl ⟨.null, rfl, rfl, rfl⟩)
  | some r =>
    apply (turns_copyRead r).bind
    rintro _ k ⟨rfl, rfl⟩
    cases hr : Value.ofRecord r with
    | ok this => exact turns_pure _ (.inl ⟨this, hr, rfl, rfl⟩)
    | error e => exact turns_pure _ (.inr ⟨r, e, rfl, hr, rfl, rfl⟩)

/-- Arguments and receiver of a call, before the closure takes over. -/
def readPassed (config : Config) (b : Binding) (p : Passed) :
    Act (Except String (List Value × Value)) := do
  match ← collectArguments config.maxArguments p with
  | .error e => pure (.error e.message)
  | .ok args => do
    match ← copyReceiver p with
    | .error e => pure (.error e.message)
    | .ok this => do
      note (.called b.label args this)
      pure (.ok (args, this))

theorem turns_readPassed (config : Config) (b : Binding) (p : Passed) :
    Turns m₀ ⟨ss, bs, es⟩ (readPassed config b p) fun outcome k =>
      (∃ args this, p.Reads config.maxArguments args this ∧ outcome = .ok (args, this) ∧
        k = ⟨p.taken m₀.world args this ++ ss, bs, .called b.label args this :: es⟩) ∨
      ∃ e taken, p.Fails config.maxArguments e ∧ outcome = .error e.message ∧
        k = ⟨taken ++ ss, bs, es⟩ := by
  apply (turns_collectRead p).bind
  intro outcome k h
  rcases h with ⟨args, hc, hargs, rfl, rfl⟩ | ⟨e, taken, he, rfl, rfl⟩
  · apply (turns_readReceiver p).bind
    intro outcome k h
    rcases h with ⟨this, hthis, rfl, rfl⟩ | ⟨r, e, hr, he, rfl, rfl⟩
    · refine (turns_note _).step (turns_pure _ (Or.inl ⟨args, this, ⟨hc, hargs, hthis⟩, rfl, ?_⟩))
      rw [Passed.taken, List.append_assoc]
    · exact turns_pure _ (Or.inr ⟨_, m₀.world.takenFor args,
        .receiver hc (Value.readable hargs) hr he, rfl, rfl⟩)
  · exact turns_pure _ (Or.inr ⟨e, taken, he, rfl, rfl⟩)

theorem shifts_readPassed (config : Config) (b : Binding) (p : Passed) :
    Shifts t False 0 (readPassed config b p) fun _ => 0 := by
  intro o
  refine (shifts_collectArguments _ p).bind (Nat.le_refl 0) fun collected => ?_
  cases collected with
  | error e => exact over_pure _ (Nat.zero_le _)
  | ok args =>
    refine (shifts_copyReceiver p).bind (Nat.le_refl 0) fun copied => ?_
    cases copied with
    | error e => exact over_pure _ (Nat.zero_le _)
    | ok this =>
      exact Spec.bind (spec_note rfl fun h => by cases h) fun _ => over_pure _ (Nat.zero_le _)

end Act
end Enclave
