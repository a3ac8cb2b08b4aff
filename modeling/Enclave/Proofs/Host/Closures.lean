import Enclave.Proofs.Boundary.Failure
import Enclave.Proofs.Host.Answers

/-! # Calls of a closure's cell

The runtime lends a closure slots that are alive, so what it is passed can be read, and its code runs
unless the slots are too many. Between the end of the code and the end of the call nothing is noted but
the return.
-/
namespace Enclave

open Act Text

namespace Act

variable {α β : Type} {x : Act α} {f : α → Act β} {m m₁ : Machine}

/-! ## Acts that are silent -/

/-- The act succeeds from every machine and notes nothing. -/
def Silent (x : Act α) : Prop :=
  ∀ m, ∃ a m', x m = .done a m' ∧ m'.moments = m.moments

theorem silent_pure (a : α) : Silent (pure a : Act α) :=
  fun m => ⟨a, m, rfl, rfl⟩

theorem silent_change (f : World → World) : Silent (change f) :=
  fun m => ⟨(), { m with world := f m.world }, rfl, rfl⟩

theorem silent_world : Silent world :=
  fun m => ⟨m.world, m, rfl, rfl⟩

theorem Silent.bind (hx : Silent x) (hf : ∀ a, Silent (f a)) : Silent (x >>= f) := by
  intro m
  obtain ⟨a, m₁, hrun, hm₁⟩ := hx m
  obtain ⟨b, m₂, hrun', hm₂⟩ := hf a m₁
  exact ⟨b, m₂, (bind_done hrun).trans hrun', hm₂.trans hm₁⟩

theorem Silent.map (hx : Silent x) (c : α → β) : Silent (c <$> x) :=
  hx.bind fun a => silent_pure (c a)

theorem silent_top : Silent top :=
  silent_world.bind fun w => silent_pure w.top

theorem silent_allocText (s : String) : Silent (allocText s) :=
  silent_world.bind fun _ => (silent_change _).bind fun _ => silent_pure _

theorem silent_freeText (block : Option Nat) : Silent (freeText block) := by
  cases block with
  | none => exact silent_pure ()
  | some b => exact silent_change fun w => w.freeText b

theorem silent_consume (r : Record) : Silent (consume r) := by
  unfold consume
  cases r.slot with
  | cell id => exact silent_pure ()
  | scalar v => exact (silent_change _).bind fun _ => silent_change _

theorem silent_adoptReturn (r : Record) : Silent (adoptReturn r) :=
  (silent_consume r).bind fun _ => silent_freeText _

theorem silent_giveOut (s : Slot) : Silent (giveOut s) := by
  refine silent_world.bind fun w => ?_
  cases s with
  | cell id => exact (silent_change _).bind fun _ => silent_pure _
  | scalar v =>
    cases v with
    | string text =>
      exact (silent_allocText text).bind fun _ => (silent_change _).bind fun _ => silent_pure _
    | null | number n | bool b => exact (silent_change _).bind fun _ => silent_pure _

theorem silent_giveTop : Silent giveTop :=
  silent_top.bind fun s => (silent_giveOut s).bind fun _ =>
    (silent_change _).bind fun _ => silent_pure _

theorem silent_takeOver (r : Record) : Silent (takeOver r) := by
  have hkeep : ∀ v, Silent (keepScalar v) := by
    intro v
    cases v with
    | scalar s => exact (silent_change _).bind fun _ => silent_change _
    | handle kind id => exact silent_pure ()
  exact (hkeep _).bind fun _ => (silent_freeText _).bind fun _ => silent_pure _

theorem silent_accept (operation : Operation) (given : Given) : Silent (accept operation given) := by
  refine (silent_takeOver _).bind fun v => ?_
  cases given.status with
  | true => exact silent_pure _
  | false => exact (silent_change _).bind fun _ => silent_pure _

theorem silent_handBack (v : Value) : Silent (handBack v) := by
  have hrecord : Silent (resultRecord v) := by
    cases v with
    | handle kind id => exact silent_pure _
    | scalar c =>
      cases c with
      | string s => exact (silent_allocText s).map _
      | null | number n | bool b => exact silent_pure _
  have hclear : Silent (clearScalar v) := by
    cases v with
    | scalar c => exact (silent_change _).bind fun _ => silent_change _
    | handle kind id => exact silent_pure ()
  exact hrecord.bind fun _ => hclear.bind fun _ => silent_pure _

theorem silent_conclude (base : Nat) (marker : String) (outcome : Except String Value) :
    Silent (conclude base marker outcome) := by
  cases outcome with
  | ok v => exact (silent_change _).bind fun _ => silent_handBack v
  | error message =>
    exact (silent_change _).bind fun _ => (silent_change _).bind fun _ => silent_handBack _

/-! ## The call itself -/

section Call

variable {m₀ : Machine} {place : Nat} {b : Binding} {id : CellId} {slots : List Slot}
  {receiver : Option Slot} {patience depth : Nat}

theorem nativeOf_eq {f : NativeFunction} (hv : m.world.visible? id = some (.function f)) :
    nativeOf (.cell id) m = .done (some f) m := by
  rw [nativeOf_run, World.native?_eq_some_iff.mpr hv]

/-- Whatever slots are lent, they are read as their images. -/
theorem ofRecord_lent (hp : m.world.heap.Proper)
    (halive : ∀ s ∈ slots ++ receiver.toList, m.world.Alive s) :
    ∀ s ∈ slots ++ receiver.toList, Value.ofRecord (m.world.lend s) = .ok (m.world.image s) :=
  fun s hs => Value.ofRecord_lend hp (halive s hs)

/-- So nothing is wrong with a call that lends slots, if they are not too many. -/
theorem reads_lending (hp : m.world.heap.Proper)
    (halive : ∀ s ∈ slots ++ receiver.toList, m.world.Alive s) {limit : Nat}
    (hn : slots.length ≤ limit) :
    (lending m.world slots receiver).Reads limit (slots.map m.world.image)
      ((receiver.map m.world.image).getD .null) := by
  have hread := ofRecord_lent hp halive
  have hrecords : (lending m.world slots receiver).records = slots.map m.world.lend := by
    change ((slots.map m.world.lend).take slots.length) = _
    rw [List.take_of_length_le (by rw [List.length_map])]
  refine ⟨⟨by simp [lending], by simpa [lending] using hn, fun h => by cases h⟩, ?_, ?_⟩
  · rw [hrecords, List.map_map, List.map_map]
    exact List.map_congr_left fun s hs => hread s (List.mem_append_left _ hs)
  · cases receiver with
    | none => rfl
    | some s => exact hread s (by simp)

theorem fails_lending {limit : Nat} (hn : limit < slots.length) :
    (lending m.world slots receiver).Fails limit (.host (.malformed .tooManyArguments)) :=
  .tooMany (by simpa [lending] using hn)

def tooMany : ClosureError :=
  .host (.malformed .tooManyArguments)

/-- The text that a caller with too many arguments gets. -/
def refusal (config : Config) : String :=
  cut (config.errorMarker ++ tooMany.message)

/-- The event with which a call of the cell begins. -/
def entering (w : World) (id : CellId) (place : Nat) (slots : List Slot) (receiver : Option Slot) :
    Event :=
  .entered (some id) (.closure (some place)) slots.length (some (slots.map w.lend))
    (receiver.map w.lend)

/-- What host code runs in when it is called from so deep inside other calls. -/
def inside (w : World) (patience depth : Nat) : Surroundings :=
  ⟨w.engine.scope, callNative patience depth, patience⟩

/-- A call of a closure's cell is the call of the closure between two events, and then its answer is
adopted. -/
theorem callSlot_eq (hv : m.world.visible? id = some (.function (.closure (some place)))) :
    callSlot (callNative patience (depth + 1)) (.cell id) receiver slots m =
      (callClosure (inside m.world patience depth) (some place) (lending m.world slots receiver) >>=
        fun r => note (.returned r) >>= fun _ => adoptReturn r)
        (m.noting (entering m.world id place slots receiver)) := by
  unfold callSlot
  rw [bind_done (nativeOf_eq hv)]
  have hcall : callNative patience (depth + 1) (some id) (.closure (some place)) slots.length
      (some (slots.map m.world.lend)) (receiver.map m.world.lend) m =
        (callClosure (inside m.world patience depth) (some place)
          (lending m.world slots receiver) >>= fun r => note (.returned r) >>= fun _ => pure r)
          (m.noting (entering m.world id place slots receiver)) := rfl
  dsimp only [invoke, Slot.cell?]
  rw [bind_done (world_eq m), bind_congr hcall, bind_bind]
  rfl

variable (hp : m.world.heap.Proper) (hrunning : m.world.engine.running = true)
  (hbinding : m.world.engine.bindings[place]? = some b)
  (hv : m.world.visible? id = some (.function (.closure (some place))))
include hp hrunning hbinding hv

/-- With not too many arguments, the code runs on the images, and what follows notes the return. -/
theorem callSlot_reads (patience depth : Nat)
    (halive : ∀ s ∈ slots ++ receiver.toList, m.world.Alive s)
    (hn : slots.length ≤ m.world.engine.config.maxArguments) :
    ∃ taken m₂, m.Gains ⟨taken, [], [calledWith m.world b slots receiver,
        entering m.world id place slots receiver]⟩ m₂ ∧
      callSlot (callNative patience (depth + 1)) (.cell id) receiver slots m =
        (runCode (inside m.world patience depth) m.world.stack.length
            (b.body b.captured (slots.map m.world.image) ((receiver.map m.world.image).getD .null)) >>=
          fun outcome =>
            conclude m.world.stack.length m.world.engine.config.errorMarker outcome >>=
              fun r => note (.returned r) >>= fun _ => adoptReturn r) m₂ := by
  obtain ⟨m₂, -, hgains, hcall⟩ := callClosure_reads (inside m.world patience depth) hrunning hbinding
    (reads_lending hp halive hn)
    ((Machine.Gains.refl m).note (entering m.world id place slots receiver))
  refine ⟨_, m₂, hgains, ?_⟩
  rw [callSlot_eq hv, bind_congr hcall, bind_bind]
  rfl

/-- Too many arguments are answered with the text that says so, and no code runs. -/
theorem callSlot_fails (patience depth : Nat) (receiver : Option Slot)
    (hn : m.world.engine.config.maxArguments < slots.length) :
    ∃ block m', callSlot (callNative patience (depth + 1)) (.cell id) receiver slots m = .done () m' ∧
      m.Gains ⟨[.scalar (.string (refusal m.world.engine.config))], [],
        [.returned (marked m.world.engine.config tooMany.message block),
          entering m.world id place slots receiver]⟩ m' := by
  have hanswer : Turns m ⟨[], [], [entering m.world id place slots receiver]⟩
      (callClosure (inside m.world patience depth) (some place) (lending m.world slots receiver) >>=
        fun r => note (.returned r) >>= fun _ => adoptReturn r) fun _ k =>
          ∃ block, k = ⟨[.scalar (.string (refusal m.world.engine.config))], [],
            [.returned (marked m.world.engine.config tooMany.message block),
              entering m.world id place slots receiver]⟩ := by
    apply (turns_callFails _ hp hrunning hbinding (fails_lending hn)).bind
    rintro _ k ⟨block, rfl, rfl⟩
    refine (turns_note _).step ?_
    apply (turns_adoptReturn hp (World.alive_scalar _) (.text _ block)).weaken
    rintro _ k rfl
    exact ⟨block, rfl⟩
  obtain ⟨_, _, m', hrun, hgains, block, rfl⟩ := hanswer _
    ((Machine.Gains.refl m).note (entering m.world id place slots receiver))
  exact ⟨block, m', (callSlot_eq hv).trans hrun, hgains⟩

end Call

end Act
end Enclave
