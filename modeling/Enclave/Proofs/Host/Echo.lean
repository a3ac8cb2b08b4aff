import Enclave.Host.Stock
import Enclave.Proofs.Host.Reads
import Enclave.Proofs.Host.Sent

/-! # Closures that give back their argument

A closure sees the images of the slots that it is called with. What it gives back goes the same way in
the other direction, and the caller gets a slot cut as its argument was, with a reference of its own.
-/
namespace Enclave

open Text

/-- The body gives back its first argument, as it is or a clone of it. -/
def Echoes (body : HostFunction) : Prop :=
  ∀ captured v rest this, body captured (v :: rest) this = .finish v ∨
    body captured (v :: rest) this = .request (.clone v) .finish

theorem echoes_echo : Echoes Stock.echo :=
  fun _ _ _ _ => .inr rfl

namespace Act

variable {m₀ : Machine} {ss xs : List Slot} {bs b : List Nat} {es : List Event} {s e : Slot}
  {slots : List Slot} {r : Record} {on : Surroundings} {patience depth : Nat}

/-! ## Arguments -/

theorem turns_copyRecord (hp : m₀.world.heap.Proper) (hs : m₀.world.Alive s) :
    Turns m₀ ⟨ss, bs, es⟩ (copyRecord (m₀.world.lend s)) fun v k =>
      v = .ok (m₀.world.image s) ∧ k = ⟨s.cut :: ss, bs, es⟩ := by
  unfold copyRecord
  rw [Value.ofRecord_lend hp hs]
  have halive : m₀.world.Alive (m₀.world.image s).slot := by
    rw [World.slot_image]
    exact World.alive_cut hs
  refine (turns_share halive).step (turns_pure _ ⟨rfl, ?_⟩)
  rw [World.slot_image]

theorem turns_copyArguments (hp : m₀.world.heap.Proper) (hs : ∀ s ∈ slots, m₀.world.Alive s)
    (index : Nat) :
    Turns m₀ ⟨ss, bs, es⟩ (copyArguments index (slots.map m₀.world.lend)) fun v k =>
      v = .ok (slots.map m₀.world.image) ∧
        k = ⟨(slots.map Slot.cut).reverse ++ ss, bs, es⟩ := by
  induction slots generalizing ss index with
  | nil => exact turns_pure _ ⟨rfl, rfl⟩
  | cons s rest ih =>
    refine (turns_copyRecord hp (hs s (List.mem_cons_self ..))).then ?_
    refine (ih (fun s h => hs s (List.mem_cons_of_mem _ h)) (index + 1)).then ?_
    exact turns_pure _ ⟨rfl, by simp⟩

/-- What a call passes when it lends slots. -/
def lending (w : World) (slots : List Slot) (receiver : Option Slot) : Passed :=
  ⟨slots.length, some (slots.map w.lend), receiver.map w.lend⟩

theorem turns_collectArguments (hp : m₀.world.heap.Proper) (hs : ∀ s ∈ slots, m₀.world.Alive s)
    {limit : Nat} (hn : slots.length ≤ limit) (receiver : Option Slot) :
    Turns m₀ ⟨ss, bs, es⟩ (collectArguments limit (lending m₀.world slots receiver)) fun v k =>
      v = .ok (slots.map m₀.world.image) ∧
        k = ⟨(slots.map Slot.cut).reverse ++ ss, bs, es⟩ := by
  unfold collectArguments lending Passed.records
  have hrecords : (slots.map m₀.world.lend).take slots.length = slots.map m₀.world.lend := by
    rw [List.take_of_length_le]
    rw [List.length_map]
  simp only [Int.natCast_nonneg, Int.not_lt.mpr, if_false, Int.toNat_natCast, Nat.not_lt.mpr hn,
    Option.isNone_some, Bool.false_eq_true, Option.getD_some, hrecords]
  cases slots with
  | nil => exact turns_pure _ ⟨rfl, rfl⟩
  | cons s rest =>
    rw [if_neg (by simp; omega)]
    exact turns_copyArguments hp hs 0

theorem turns_copyReceiver (hp : m₀.world.heap.Proper) {receiver : Option Slot}
    (hs : ∀ s ∈ receiver, m₀.world.Alive s) :
    Turns m₀ ⟨ss, bs, es⟩ (copyReceiver (lending m₀.world slots receiver)) fun v k =>
      v = .ok ((receiver.map m₀.world.image).getD .null) ∧
        k = ⟨(receiver.map Slot.cut).toList ++ ss, bs, es⟩ := by
  cases receiver with
  | none => exact turns_pure _ ⟨rfl, rfl⟩
  | some s => exact (turns_copyRecord hp (hs s rfl)).then (turns_pure _ ⟨rfl, rfl⟩)

/-! ## Results -/

/-- The closure's code ends with the value that it was given, whatever else it holds. -/
theorem turns_echo {v : Value} {code : HostCode}
    (hcode : code = .finish v ∨ code = .request (.clone v) .finish) (hv : m₀.world.Alive v.slot)
    (hxs : v.slot ∈ xs) (n : Nat) (hn : n = ss.length + m₀.world.stack.length) :
    Turns m₀ ⟨xs ++ ss, bs, es⟩ (runCode on n code) fun r k =>
      r = .ok v ∧ ∃ beneath noted, k = ⟨v.slot :: (beneath ++ ss), bs, noted ++ es⟩ := by
  have hfinish : ∀ (xs : List Slot) (es : List Event), v.slot ∈ xs →
      Turns m₀ ⟨xs ++ ss, bs, es⟩ (runCode on n (.finish v)) fun r k =>
        r = .ok v ∧ ∃ beneath, k = ⟨v.slot :: (beneath ++ ss), bs, es⟩ := by
    intro xs es hxs
    refine (turns_secure n hn hxs).bind fun _ k hk => turns_pure _ ⟨rfl, hk⟩
  rcases hcode with rfl | rfl
  · apply (hfinish xs es hxs).weaken
    intro r k h
    obtain ⟨rfl, beneath, rfl⟩ := h
    exact ⟨rfl, beneath, [], rfl⟩
  · have hclone : Turns m₀ ⟨xs ++ ss, bs, es⟩ (perform on n (.clone v)) fun c k =>
        c = v ∧ k = ⟨v.slot :: (xs ++ ss), bs, es⟩ :=
      (turns_share hv).step (turns_pure _ ⟨rfl, rfl⟩)
    refine hclone.then ((turns_note .resumed).step ?_)
    apply (hfinish (v.slot :: xs) (.resumed :: es) (List.mem_cons_self ..)).weaken
    intro r k h
    obtain ⟨rfl, beneath, rfl⟩ := h
    exact ⟨rfl, beneath, [.resumed], rfl⟩

theorem turns_clearScalar (hp : m₀.world.heap.Proper) (c : Scalar) :
    Turns m₀ ⟨s :: ss, bs, es⟩ (clearScalar (.scalar c)) fun _ k => k = ⟨.null :: ss, bs, es⟩ :=
  (turns_drop hp).step (turns_push .null)

theorem turns_resultRecord (s : Slot) :
    Turns m₀ ⟨ss, bs, es⟩ (resultRecord (m₀.world.image s)) fun r k =>
      ∃ e b, m₀.world.Gives s.cut r e b ∧ k = ⟨ss, b ++ bs, es⟩ := by
  cases s with
  | scalar c =>
    cases c with
    | null => exact turns_pure _ ⟨_, _, .null, rfl⟩
    | number n => exact turns_pure _ ⟨_, _, .number n, rfl⟩
    | bool b => exact turns_pure _ ⟨_, _, .bool b, rfl⟩
    | string text =>
      apply (turns_allocText (cut text)).map
      intro t k ht
      obtain ⟨b, rfl, rfl⟩ := ht
      exact ⟨_, _, .text (cut text) b, rfl⟩
  | cell id => exact turns_pure _ ⟨_, _, .cell id, rfl⟩

/-- A value goes back as a record that gives out its slot. -/
theorem turns_handBack (hp : m₀.world.heap.Proper) (s : Slot) :
    Turns m₀ ⟨s.cut :: ss, bs, es⟩ (handBack (m₀.world.image s)) fun r k =>
      ∃ e b, m₀.world.Gives s.cut r e b ∧ k = ⟨e :: ss, b ++ bs, es⟩ := by
  apply (turns_resultRecord s).bind
  intro r k hr
  obtain ⟨e, b, hgives, rfl⟩ := hr
  have hclear : Turns m₀ ⟨s.cut :: ss, b ++ bs, es⟩ (clearScalar (m₀.world.image s)) fun _ k =>
      k = ⟨e :: ss, b ++ bs, es⟩ := by
    cases s with
    | scalar c =>
      have he : e = .null := by cases c <;> cases hgives <;> rfl
      rw [he]
      cases c <;> exact turns_clearScalar hp _
    | cell id =>
      cases hgives
      exact turns_pure _ rfl
  exact hclear.step (turns_pure _ ⟨e, b, hgives, rfl⟩)

/-- What the runtime makes of a record that gives out a slot. -/
theorem slot_of_gives (hp : m₀.world.heap.Proper) (hs : m₀.world.Alive s)
    (h : m₀.world.Gives s r e b) : r.slot = s.cut := by
  cases h with
  | null => rfl
  | number n => rfl
  | bool b => cases b <;> rfl
  | text text b =>
    change Slot.scalar (.string (decodeLossy (untilZero (untilZero (encode text))))) = _
    rw [untilZero_encode, untilZero_encode, cut_cut, decodeLossy_encode]
    rfl
  | cell id => exact Record.slot_ofHandle (World.isHandle_kindOf hp (hs id rfl)) id

/-- The runtime takes over what it is given. -/
theorem turns_adoptReturn (hp : m₀.world.heap.Proper) (hs : m₀.world.Alive s)
    (h : m₀.world.Gives s r e b) :
    Turns m₀ ⟨e :: ss, b ++ bs, es⟩ (adoptReturn r) fun _ k => k = ⟨s.cut :: ss, bs, es⟩ := by
  have hslot := slot_of_gives hp hs h
  have hconsume : Turns m₀ ⟨e :: ss, b ++ bs, es⟩ (consume r) fun _ k =>
      k = ⟨s.cut :: ss, b ++ bs, es⟩ := by
    unfold consume
    rw [hslot]
    cases h with
    | cell id => exact turns_pure _ rfl
    | null | number n | bool b | text text b => exact (turns_drop hp).step (turns_push _)
  refine hconsume.step ?_
  cases h with
  | text text b => exact turns_freeText b
  | null => exact turns_pure _ rfl
  | number n => exact turns_pure _ rfl
  | bool b => exact turns_pure _ rfl
  | cell id =>
    have hblock : (m₀.world.lend (.cell id)).textBlock? = none := by
      unfold Record.textBlock?
      split <;> rfl
    rw [hblock]
    exact turns_pure _ rfl

/-! ## Calls -/

theorem turns_borrowAll {records : List Record} (hs : ∀ r ∈ records, m₀.world.Alive r.slot) :
    Turns m₀ ⟨ss, bs, es⟩ (borrowAll records) fun slots k =>
      slots = records.map Record.slot ∧ k = ⟨(records.map Record.slot).reverse ++ ss, bs, es⟩ := by
  have hfound : records.map (fun r => m₀.world.found r.slot) = records.map Record.slot :=
    List.map_congr_left fun r hr => World.found_of_alive (hs r hr)
  apply (turns_borrowFound records).weaken
  rintro slots k ⟨rfl, rfl⟩
  rw [hfound]
  exact ⟨rfl, rfl⟩

variable {place : Nat} {binding : Binding} {receiver : Option Slot} {id : CellId}

/-- What a closure is noted to be called with. -/
def calledWith (w : World) (binding : Binding) (slots : List Slot) (receiver : Option Slot) : Event :=
  .called binding.label (slots.map w.image) ((receiver.map w.image).getD .null)

section Call

variable (hp : m₀.world.heap.Proper) (hrunning : m₀.world.engine.running = true)
  (hbinding : m₀.world.engine.bindings[place]? = some binding) (hecho : Echoes binding.body)
  (hn : (s :: slots).length ≤ m₀.world.engine.config.maxArguments)
  (hs : ∀ a ∈ s :: slots, m₀.world.Alive a) (hr : ∀ a ∈ receiver, m₀.world.Alive a)
include hp hrunning hbinding hecho hn hs hr

theorem turns_callClosure :
    Turns m₀ ⟨ss, bs, es⟩ (callClosure on (some place) (lending m₀.world (s :: slots) receiver))
      fun r k => ∃ e b noted, m₀.world.Gives s.cut r e b ∧ k = ⟨e :: ss, b ++ bs,
        noted ++ calledWith m₀.world binding (s :: slots) receiver :: es⟩ := by
  apply turns_world
  intro m hm
  rw [hm.engine, if_pos hrunning, Option.bind_some, hbinding]
  refine turns_height ?_
  let base := ss.length + m₀.world.stack.length
  let held := (receiver.map Slot.cut).toList ++ ((s :: slots).map Slot.cut).reverse
  have hbody : Turns m₀ ⟨ss, bs, es⟩
      (runBinding on base m₀.world.engine.config binding (lending m₀.world (s :: slots) receiver))
      fun r k => r = .ok (m₀.world.image s) ∧ ∃ beneath noted, k = ⟨s.cut :: (beneath ++ ss), bs,
        noted ++ calledWith m₀.world binding (s :: slots) receiver :: es⟩ := by
    refine (turns_collectArguments hp hs hn receiver).then ?_
    refine (turns_copyReceiver hp hr).then ((turns_note _).step ?_)
    rw [← List.append_assoc]
    have hcode := hecho binding.captured (m₀.world.image s) (slots.map m₀.world.image)
      ((receiver.map m₀.world.image).getD .null)
    have hslot := World.slot_image m₀.world s
    have halive : m₀.world.Alive (m₀.world.image s).slot :=
      hslot ▸ World.alive_cut (hs s (List.mem_cons_self ..))
    have hmem : (m₀.world.image s).slot ∈ held := by
      rw [hslot]
      simp [held]
    rw [← hslot]
    exact turns_echo hcode halive hmem base rfl
  apply hbody.bind
  intro r k h
  obtain ⟨rfl, beneath, noted, rfl⟩ := h
  refine (turns_settleTo hp base rfl).step ((turns_handBack hp s).weaken fun r k h => ?_)
  obtain ⟨e, b, hgives, rfl⟩ := h
  exact ⟨e, b, noted, hgives, rfl⟩

/-- A closure that gives back its first argument leaves the caller a slot cut as the argument was. -/
theorem turns_callEcho (hv : m₀.world.visible? id = some (.function (.closure (some place)))) :
    Turns m₀ ⟨ss, bs, es⟩
      (callSlot (callNative patience (depth + 1)) (.cell id) receiver (s :: slots)) fun _ k =>
        ∃ noted, k = ⟨s.cut :: ss, bs, noted ++ es⟩ ∧
          calledWith m₀.world binding (s :: slots) receiver ∈ noted := by
  have hnative : Turns m₀ ⟨ss, bs, es⟩ (nativeOf (.cell id)) fun f k =>
      f = some (.closure (some place)) ∧ k = ⟨ss, bs, es⟩ :=
    turns_reading hv (turns_pure _ ⟨rfl, rfl⟩)
  refine hnative.then (turns_world fun m hm => ?_)
  have hlend : (s :: slots).map m.world.lend = (s :: slots).map m₀.world.lend :=
    List.map_congr_left fun a _ => hm.lend a
  have hlend' : receiver.map m.world.lend = receiver.map m₀.world.lend :=
    congrArg (Option.map · receiver) (funext hm.lend)
  rw [hlend, hlend']
  let p := lending m₀.world (s :: slots) receiver
  have hcall : Turns m₀ ⟨ss, bs, es⟩ (callNative patience (depth + 1) (some id)
      (.closure (some place)) p.argc p.argv p.receiver) fun r k =>
        ∃ e b noted, m₀.world.Gives s.cut r e b ∧ k = ⟨e :: ss, b ++ bs, noted ++ es⟩ ∧
          calledWith m₀.world binding (s :: slots) receiver ∈ noted := by
    refine (turns_note _).step (Turns.bind (turns_world fun m hm =>
      turns_callClosure hp hrunning hbinding hecho hn hs hr) fun r k h => ?_)
    obtain ⟨e, b, noted, hgives, rfl⟩ := h
    refine (turns_note _).step (turns_pure _ ⟨e, b,
      .returned r :: (noted ++ [calledWith m₀.world binding (s :: slots) receiver,
        .entered (some id) (.closure (some place)) p.argc p.argv p.receiver]), hgives, ?_, ?_⟩)
    · simp
    · simp
  apply hcall.bind
  intro r k h
  obtain ⟨e, b, noted, hgives, rfl, hmem⟩ := h
  have halive := World.alive_cut (hs s (List.mem_cons_self ..))
  apply (turns_adoptReturn hp halive hgives).weaken
  intro _ k hk
  rw [hk, Slot.cut_cut]
  exact ⟨noted, rfl, hmem⟩

/-- The entry point for calls gives the slot out. -/
theorem turns_callFunction {records : List Record} {this : Option Record}
    (hv : m₀.world.visible? id = some (.function (.closure (some place))))
    (hrecords : records.map Record.slot = s :: slots) (hthis : this.map Record.slot = receiver) :
    Turns m₀ ⟨ss, bs, es⟩
      (callFunction (callNative patience (depth + 1)) true (some id) records.length (some records)
        this) fun given k => given.status = true ∧ ∃ e b noted,
          m₀.world.Gives s.cut given.record e b ∧ k = ⟨e :: ss, b ++ bs, noted ++ es⟩ ∧
          calledWith m₀.world binding (s :: slots) receiver ∈ noted := by
  have hs' : ∀ r ∈ records, m₀.world.Alive r.slot := fun r hmem =>
    hs r.slot (hrecords ▸ List.mem_map_of_mem hmem)
  have hr' : ∀ r ∈ this.toList, m₀.world.Alive r.slot := by
    intro r hmem
    refine hr r.slot ?_
    rw [← hthis, Option.mem_toList.mp hmem]
    rfl
  have halive : m₀.world.Alive (.cell id) := World.alive_of_visible hv
  have hreceiver : (this.toList.map Record.slot).head? = receiver := by
    rw [← hthis]
    cases this <;> rfl
  apply turns_world
  intro m hm
  have hc : m.world.cellOf? .function (some id) = some id := hm.cellOf?_of_visible hp hv
  have hcheck : (!true || decide ((records.length : Int) < 0) ||
      (records.length : Int) != 0 && (some records).isNone) = false := by
    simp
  have htake : ((some records).getD []).take (records.length : Int).toNat = records := by
    simp
  rw [hc]
  simp only [hcheck, Bool.false_eq_true, if_false, htake]
  refine turns_height ?_
  refine (turns_borrowAll hs').then ((turns_borrowAll hr').then ?_)
  refine (turns_share halive).step (turns_top ?_)
  rw [hreceiver, hrecords]
  apply (turns_callEcho hp hrunning hbinding hecho hn hs hr hv).recover.bind
  intro outcome k h
  obtain ⟨_, rfl, noted, rfl, hmem⟩ := h
  apply (turns_giveTop hp (World.alive_cut (hs s (List.mem_cons_self ..)))).bind
  intro given k h
  obtain ⟨hstatus, e, b, hgives, rfl⟩ := h
  have hsplit : Slot.cell id :: ((this.toList.map Record.slot).reverse ++
      ((s :: slots).reverse ++ ss)) = (Slot.cell id :: ((this.toList.map Record.slot).reverse ++
        (s :: slots).reverse)) ++ ss := by simp
  rw [hsplit]
  refine (turns_settleTo hp _ rfl).step (turns_pure _ ?_)
  exact ⟨hstatus, e, b, noted, hgives, rfl, hmem⟩

end Call

/-- Values that fit are lent as records of their slots. -/
theorem lend_all {w : World} {values : List Value} (hp : w.heap.Proper)
    (h : ∀ v ∈ values, w.Fits v) :
    ∃ records, values.mapM Value.lend = .ok records ∧
      records.map Record.slot = values.map Value.slot := by
  induction values with
  | nil => exact ⟨[], rfl, rfl⟩
  | cons v rest ih =>
    obtain ⟨r, hlend, hr⟩ := Value.lend_of_fits hp (h v (List.mem_cons_self ..))
    obtain ⟨records, hrest, hrecords⟩ := ih fun v h' => h v (List.mem_cons_of_mem _ h')
    refine ⟨r :: records, ?_, ?_⟩
    · rw [List.mapM_cons, hlend, hrest]
      rfl
    · rw [List.map_cons, List.map_cons, hr, hrecords]

/-- The slots of fitting values are cut already. -/
theorem calledWith_fits {w : World} {binding : Binding} {values : List Value} {this : Option Value}
    (h : ∀ v ∈ values, w.Fits v) (h' : ∀ v ∈ this, w.Fits v) :
    calledWith w binding (values.map Value.slot) (this.map Value.slot) =
      .called binding.label values (this.getD .null) := by
  have hvalues : (values.map Value.slot).map w.image = values := by
    rw [List.map_map]
    exact (List.map_congr_left fun v hv => World.image_of_fits (h v hv)).trans (List.map_id _)
  have hthis : (this.map Value.slot).map w.image = this := by
    cases this with
    | none => rfl
    | some v => exact congrArg some (World.image_of_fits (h' v rfl))
  rw [calledWith, hvalues, hthis]

section Call

variable {v this : Value} {rest : List Value} (hp : m₀.world.heap.Proper)
  (hrunning : m₀.world.engine.running = true)
  (hbinding : m₀.world.engine.bindings[place]? = some binding) (hecho : Echoes binding.body)
  (hn : (v :: rest).length ≤ m₀.world.engine.config.maxArguments)
  (hcount : (v :: rest).length ≤ maxCount)
  (hv : ∀ a ∈ v :: rest, m₀.world.Fits a) (hthis : m₀.world.Fits this)
  (hcell : m₀.world.visible? id = some (.function (.closure (some place))))
include hp hrunning hbinding hecho hn hcount hv hthis hcell

/-- A call through a view gives back the argument. -/
theorem turns_callView (scope : ScopeId) (patience' : Nat) :
    Turns m₀ ⟨ss, bs, es⟩
      (callView ⟨scope, callNative patience (depth + 1), patience'⟩ ⟨some id⟩ (v :: rest) this)
      fun a k => a = .ok v ∧ ∃ noted, k = ⟨v.slot :: ss, bs, noted ++ es⟩ ∧
        .called binding.label (v :: rest) this ∈ noted := by
  obtain ⟨records, hlend, hrecords⟩ := lend_all hp hv
  -- null stands for no receiver
  obtain ⟨receiver, lent, hlent, hreceiver, hfits, hnull⟩ : ∃ (receiver : Option Value)
      (lent : Option Record),
      (if this.isNull then .ok none else this.lend.map some : Except HostError (Option Record)) =
        .ok lent ∧
      lent.map Record.slot = receiver.map Value.slot ∧ (∀ a ∈ receiver, m₀.world.Fits a) ∧
      receiver.getD .null = this := by
    by_cases hnull : this.isNull = true
    · refine ⟨none, none, if_pos hnull, rfl, by simp, ?_⟩
      cases this with
      | scalar c => cases c <;> first | rfl | cases hnull
      | handle kind x => cases hnull
    · obtain ⟨r, hr, hslot⟩ := Value.lend_of_fits hp hthis
      refine ⟨some this, some r, ?_, congrArg some hslot, ?_, rfl⟩
      · rw [if_neg hnull, hr]
        rfl
      · rintro _ ⟨⟩
        exact hthis
  have hlength : records.length = (v :: rest).length := by
    simpa using congrArg List.length hrecords
  have hcalled : calledWith m₀.world binding ((v :: rest).map Value.slot)
      (receiver.map Value.slot) = _ := calledWith_fits hv hfits
  change Turns m₀ _ (whenOk ((v :: rest).mapM Value.lend) _) _
  rw [hlend]
  change Turns m₀ _ (if maxCount < records.length then _ else whenOk _ _) _
  rw [if_neg (by omega), hlent]
  have halive : ∀ a ∈ (v :: rest).map Value.slot, m₀.world.Alive a := by
    intro a ha
    obtain ⟨u, hu, rfl⟩ := List.mem_map.mp ha
    exact World.alive_of_fits (hv u hu)
  have halive' : ∀ a ∈ receiver.map Value.slot, m₀.world.Alive a := by
    intro a ha
    obtain ⟨u, hu, rfl⟩ := Option.map_eq_some_iff.mp ha
    exact World.alive_of_fits (hfits u hu)
  refine (turns_callFunction hp hrunning hbinding hecho (by simpa using hn) halive halive' hcell
    hrecords hreceiver).bind fun given k h => ?_
  obtain ⟨hstatus, e, b, noted, hgives, rfl, hmem⟩ := h
  have hcut := World.cut_of_fits (hv v (List.mem_cons_self ..))
  have himage := World.image_of_fits (hv v (List.mem_cons_self ..))
  rw [hcut] at hgives
  refine (turns_accept hp .functionCall (halive _ (List.mem_cons_self ..)) hstatus hgives).weaken
    fun a k h => ?_
  obtain ⟨rfl, rfl⟩ := h
  rw [hcut]
  refine ⟨congrArg Except.ok himage, noted, rfl, ?_⟩
  rw [← hnull, ← hcalled]
  exact hmem

end Call

end Act
end Enclave
