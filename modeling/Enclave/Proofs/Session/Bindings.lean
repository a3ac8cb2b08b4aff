import Enclave.Proofs.Host.Delivery
import Enclave.Proofs.Session.Shapes

/-! # Closures in sessions

A function that a host makes for a closure names the place of the closure among those of the engine, and
there the closure stays for as long as the engine runs. Wherever the function has got to by the time it
is called, and whatever its name has come to mean, the call runs the closure that it was made for.
-/
namespace Enclave

open Act

/-- The function cell stands for the closure, which the engine has at the place. -/
structure World.Backs (w : World) (id : CellId) (place : Nat) (closure : Binding) : Prop where
  held : w.heap.payload? id = some (.function (.closure (some place)))
  bound : w.engine.bindings[place]? = some closure

namespace World

variable {w w' : World} {id : CellId} {place : Nat} {closure : Binding}

/-- A function that is still alive stands for what it stood for. -/
theorem Evolves.backs (h : w.Evolves w') (hb : w.Backs id place closure)
    (hrunning : w'.engine.running = true) (hlive : w'.heap.isLive id = true) :
    w'.Backs id place closure where
  held := h.heap.held hb.held hlive
  bound := by
    obtain ⟨-, hprefix⟩ := h.bindings hrunning
    have hplace := hb.bound
    rw [← Array.getElem?_toList] at hplace ⊢
    obtain ⟨hlt, rfl⟩ := List.getElem?_eq_some_iff.mp hplace
    exact List.prefix_iff_getElem?.mp hprefix place hlt

theorem exists_backs (hb : w.heap.Bounded w.engine.bindings.size)
    (hid : w.heap.payload? id = some (.function (.closure (some place)))) :
    ∃ closure, w.Backs id place closure :=
  ⟨_, hid, Array.getElem?_eq_getElem (hb id place hid)⟩

theorem backs_allocFunction (h : w.engine.bindings[place]? = some closure) :
    (w.allocFunction (.closure (some place))).Backs w.heap.next place closure :=
  ⟨(Heap.payload?_alloc _ _ _).trans (if_pos rfl), h⟩

theorem engine_exchangeGlobal (w : World) (id : ScopeId) (name : String) :
    (w.exchangeGlobal id name).engine = w.engine := by
  unfold exchangeGlobal
  split <;> rfl

end World

/-! ## New functions -/

/-- On the way from `m` to `m'` the engine has got the closure, and its bindings are else the same. -/
def Machine.Adds (m m' : Machine) (closure : Binding) : Prop :=
  m'.world.engine =
    { m.world.engine with bindings := m.world.engine.bindings.push closure }

theorem Machine.Adds.getElem?_size {m m' : Machine} {closure : Binding} (h : m.Adds m' closure) :
    m'.world.engine.bindings[m.world.engine.bindings.size]? = some closure :=
  (congrArg (·.bindings[m.world.engine.bindings.size]?) h).trans Array.getElem?_push_size

namespace Act

variable {t : Limits} {keep : List Slot} {m m' : Machine} {on : Surroundings} {label : Option String}
  {captured : List Value} {body : HostFunction}

/-- A closure is added at the next place. It captures what it is given, if that is alive. -/
theorem bindClosure_adds {place : Nat} (hk : keep <:+ m.world.stack)
    (h : bindClosure keep.length label captured body m = .done place m') :
    place = m.world.engine.bindings.size ∧
      ∃ values, m.Adds m' ⟨label, values, body⟩ ∧
        ((∀ v ∈ captured, m.world.Alive v.slot) → values = captured) := by
  obtain ⟨rfl, rfl⟩ := bindClosure_run h
  let secured := m.world.secureAll keep.length 0 (captured.map Value.slot)
  have hengine : secured.engine = m.world.engine := (m.world.restacks_secureAll _ _ _).engine
  refine ⟨congrArg (·.bindings.size) hengine,
    (captured.map Value.kind).zipWith Value.ofSlot (secured.newest (captured.map Value.kind).length),
    ?_, fun halive => ?_⟩
  · rw [Machine.Adds, ← hengine]
    rfl
  · obtain ⟨xs, hxs⟩ := hk
    have hs : m.world.stack = [] ++ (xs ++ keep) := hxs.symm
    obtain ⟨left, hstack⟩ := World.secureAll_alive (captured.map Value.slot) hs rfl
      (List.forall_mem_map.mpr halive)
    rw [List.append_nil] at hstack
    have hnewest := congrArg (·.engine.bindings.back?.map Binding.captured)
      (bind_captured hstack label body)
    simpa [World.bind, secured] using hnewest

/-- A function that is created stands for the closure that was added. -/
theorem createClosure_adds {view : View .function} (hk : keep <:+ m.world.stack)
    (h : createClosure keep.length label captured body m = .done view m') :
    ∃ id values, view = ⟨some id⟩ ∧ m.Adds m' ⟨label, values, body⟩ ∧
      m'.world.Backs id m.world.engine.bindings.size ⟨label, values, body⟩ ∧
      ((∀ v ∈ captured, m.world.Alive v.slot) → values = captured) := by
  obtain ⟨place, m₁, hbind, h⟩ := bind_done_iff.mp h
  obtain ⟨rfl, values, hadds, hcaptured⟩ := bindClosure_adds hk hbind
  cases h
  exact ⟨_, values, rfl, hadds, World.backs_allocFunction hadds.getElem?_size, hcaptured⟩

/-- A closure that is registered is added, and in a scope that is open its name becomes the one of a
function that stands for it. -/
theorem registerClosure_adds {name : String} (hg : m.Good t keep)
    (h : registerClosure on keep.length name label captured body m = .done (.ok ()) m') :
    ∃ values, m.Adds m' ⟨label, values, body⟩ ∧
      ((m.world.scope? on.scope).isSome = true →
        ∃ id, m'.world.global? on.scope name = some (.cell id) ∧
          m'.world.Backs id m.world.engine.bindings.size ⟨label, values, body⟩) ∧
      ((∀ v ∈ captured, m.world.Alive v.slot) → values = captured) := by
  have hspec : Spec t False keep (Over 0 keep)
    (registerClosure on keep.length name label captured body) _ := over_registerClosure _ _ _ _
  have hgood := (hspec.after hg (over_zero.mpr hg.keeps) h).1
  rcases registerClosure_cases h with ⟨e, hreply, -⟩ | ⟨bytes, place, m₁, hname, -, hbind, rfl⟩
  · cases hreply
  have hscope : m₁.world.scope? on.scope = m.world.scope? on.scope := by
    obtain ⟨-, rfl⟩ := bindClosure_run hbind
    exact (m.world.restacks_secureAll _ _ _).scope? _
  obtain ⟨rfl, values, hadds, hcaptured⟩ := bindClosure_adds hg.keeps hbind
  let w := m₁.world.allocFunction (.closure (some m.world.engine.bindings.size))
  have hadded : m.Adds ⟨(w.exchangeGlobal on.scope (readText bytes)).drop, m₁.moments⟩
      ⟨label, values, body⟩ :=
    (World.restacks_drop _).engine.trans ((w.engine_exchangeGlobal _ _).trans hadds)
  refine ⟨values, hadded, fun hopen => ?_, hcaptured⟩
  obtain ⟨globals, hglobals⟩ := Option.isSome_iff_exists.mp hopen
  have hw : w.scope? on.scope = some globals := hscope.trans hglobals
  have hstack : w.stack = .cell m₁.world.heap.next :: m₁.world.stack := rfl
  have hglobal : ((w.exchangeGlobal on.scope (readText bytes)).drop).global? on.scope name =
      some (.cell m₁.world.heap.next) := by
    rw [World.drop_exchangeGlobal _ hstack hw, readText_of_sent (sentText_of_sentName hname)]
    exact World.global?_put hw name _
  have hevolved := (w.evolves_exchangeGlobal on.scope (readText bytes)).trans (World.evolves_drop _)
  have hlive := World.isLive_of_global hgood.sound.counted hglobal
  have hmade := World.backs_allocFunction (w := m₁.world) hadds.getElem?_size
  exact ⟨_, hglobal, hevolved.heap.held hmade.held hlive, hadded.getElem?_size⟩

/-- A closure whose registration fails is not added. -/
theorem registerClosure_adds_none {base : Nat} {name : String} {e : HostError}
    (h : registerClosure on base name label captured body m = .done (.error e) m') :
    m'.world.engine = m.world.engine := by
  rcases registerClosure_cases h with ⟨_, -, rfl⟩ | ⟨_, _, _, -, hreply, -⟩
  · exact (m.world.restacks_discardAll _ _).engine
  · cases hreply

end Act

/-! ## Calls -/

namespace Moment

variable {mo : Moment} {callee : CellId} {function : NativeFunction} {argc : Int}
  {argv : Option (List Record)} {receiver : Option Record} {place : Nat} {closure : Binding}

/-- After earlier moments the call that begins at this one reads what is passed and runs the closure's
code on it, for the engine that the closure belongs to. -/
def Runs (mo : Moment) (older : List Moment) (callee : CellId) (function : NativeFunction) (p : Passed)
    (closure : Binding) : Prop :=
  ∀ patience depth, ∃ args this m₁,
    p.Reads mo.world.engine.config.maxArguments args this ∧
    callNative patience (depth + 1) (some callee) function p.argc p.argv p.receiver ⟨mo.world, older⟩ =
      (runCode (inside mo.world patience depth) mo.world.stack.length
          (closure.body closure.captured args this) >>= fun outcome =>
        conclude mo.world.stack.length mo.world.engine.config.errorMarker outcome >>= fun r =>
          note (.returned r) >>= fun _ => pure r) m₁

theorem Opens.held (h : mo.Opens callee)
    (hevent : mo.event = .entered (some callee) function argc argv receiver) :
    mo.world.heap.payload? callee = some (.function function) := by
  obtain ⟨_, _, _, hopening, hheld⟩ := h
  rw [hevent] at hopening
  cases hopening
  exact hheld

theorem Opens.calls (h : mo.Opens callee)
    (hevent : mo.event = .entered (some callee) (.closure (some place)) argc argv receiver)
    (hb : mo.world.Backs callee place closure) (hp : mo.world.heap.Proper)
    (hrunning : mo.world.engine.running = true) (hn : argc ≤ mo.world.engine.config.maxArguments)
    (older : List Moment) :
    mo.Runs older callee (.closure (some place)) ⟨argc, argv, receiver⟩ closure := by
  intro patience depth
  obtain ⟨args, this, m₁, hreads, hrun, -⟩ := h.runs hevent hp hrunning hb.bound hn
    (inside mo.world patience depth) (mo :: older)
  refine ⟨args, this, m₁, hreads, ?_⟩
  have hcall : callNative patience (depth + 1) (some callee) (.closure (some place)) argc argv receiver
      ⟨mo.world, older⟩ =
        (callClosure (inside mo.world patience depth) (some place) ⟨argc, argv, receiver⟩ >>= fun r =>
          note (.returned r) >>= fun _ => pure r) ⟨mo.world, mo :: older⟩ := by
    obtain ⟨event, w⟩ := mo
    cases hevent
    rfl
  rw [hcall, bind_congr hrun, bind_bind]

end Moment

/-! ## Sessions -/

/-- The end of an engine releases its globals while the closures are all there, and then the closures. -/
theorem Act.endEngine_eq (w : World) (moments : List Moment) :
    ∃ released : World, endEngine ⟨w, moments⟩ = .done () ⟨released.dropBindings, moments⟩ ∧
      (∀ name, released.global? w.engine.scope name = none) ∧
      (∀ globals, w.scope? w.engine.scope = some globals →
        released.heap = w.heap.releaseSlots globals.values) ∧
      released.engine = { w.engine with running := false } := by
  let stopped : World := { w with engine := { w.engine with running := false } }
  obtain ⟨hengine, -⟩ := stopped.dropScope_fields w.engine.scope
  refine ⟨stopped.dropScope w.engine.scope, rfl, fun name => ?_, fun globals hglobals => ?_, hengine⟩
  · rw [World.global?, World.scope?_dropScope, if_pos rfl]
    rfl
  · have hstopped : stopped.scope? w.engine.scope = some globals := hglobals
    rw [World.dropScope, hstopped]

/-- Functions keep their closures. While an engine runs its closures stay at their places, each function
for a closure stands for one, and what it stands for it stands for as long as it is alive. So a call of a
function runs, for that engine, the closure that the function has ever stood for. A function that is
created and one that is registered stand for a closure that is added then, and nothing is added when a
registration fails. At the end of the engine the globals go before the closures. -/
theorem functions_keep_closures (b : Budget) (s : Session) :
    ((s.runWithin b).observed.Pairwise fun earlier later => later.engine.running = true →
      earlier.engine.running = true ∧ later.engine.config = earlier.engine.config ∧
        later.engine.scope = earlier.engine.scope ∧
        earlier.engine.bindings.toList <+: later.engine.bindings.toList ∧
        ∀ id place closure, earlier.Backs id place closure → later.heap.isLive id = true →
          later.Backs id place closure) ∧
    ((s.runWithin b).Observes fun w => w.engine.running = true → ∀ id place,
      w.heap.payload? id = some (.function (.closure (some place))) →
        ∃ closure, w.Backs id place closure) ∧
    (∀ newer mo older, (s.runWithin b).moments = newer ++ mo :: older →
      ∀ callee function argc argv receiver,
        mo.event = .entered (some callee) function argc argv receiver →
        mo.world.heap.payload? callee = some (.function function) ∧
        ∀ w ∈ mo.world :: older.map (·.world), ∀ place closure, w.Backs callee place closure →
          mo.world.engine.running = true →
          function = .closure (some place) ∧ mo.world.Backs callee place closure ∧
          (argc ≤ mo.world.engine.config.maxArguments →
            mo.Runs older callee function ⟨argc, argv, receiver⟩ closure)) ∧
    (∀ t keep (m m' : Machine) label captured body, m.Good t keep →
      (∀ view, createClosure keep.length label captured body m = .done view m' →
        ∃ id values, view = ⟨some id⟩ ∧ m.Adds m' ⟨label, values, body⟩ ∧
          m'.world.Backs id m.world.engine.bindings.size ⟨label, values, body⟩ ∧
          ((∀ v ∈ captured, m.world.Alive v.slot) → values = captured)) ∧
      (∀ on name, registerClosure on keep.length name label captured body m = .done (.ok ()) m' →
        ∃ values, m.Adds m' ⟨label, values, body⟩ ∧
          ((m.world.scope? on.scope).isSome = true →
            ∃ id, m'.world.global? on.scope name = some (.cell id) ∧
              m'.world.Backs id m.world.engine.bindings.size ⟨label, values, body⟩) ∧
          ((∀ v ∈ captured, m.world.Alive v.slot) → values = captured)) ∧
      (∀ on name e, registerClosure on keep.length name label captured body m = .done (.error e) m' →
        m'.world.engine = m.world.engine)) ∧
    (∀ w moments, ∃ released : World,
      endEngine ⟨w, moments⟩ = .done () ⟨released.dropBindings, moments⟩ ∧
        (∀ name, released.global? w.engine.scope name = none) ∧
        (∀ globals, w.scope? w.engine.scope = some globals →
          released.heap = w.heap.releaseSlots globals.values) ∧
        released.engine = { w.engine with running := false }) := by
  have hevolved := s.evolved_runWithin b
  refine ⟨(Outcome.observed_evolves hevolved).imp fun h hrunning => ?_,
    Outcome.observes_iff.mpr fun w hw hrunning id place hid => ?_, ?_, ?_, Act.endEngine_eq⟩
  · obtain ⟨hearlier, hprefix⟩ := h.bindings hrunning
    exact ⟨hearlier, h.config, h.scope, hprefix, fun _ _ _ hb => h.backs hb hrunning⟩
  · have hbounded : (World.initial s.config).heap.Bounded 0 := fun id i hi => by
      simp [World.initial, Heap.payload?, Heap.cell?, Heap.empty] at hi
    have h := hevolved.since w (Outcome.mem_worlds_of_observed hw)
    exact World.exists_backs (h.bounded hrunning hbounded) hid
  · intro newer mo older hmoments callee function argc argv receiver hevent
    have hmo : mo ∈ (s.runWithin b).moments := by simp [hmoments]
    have hopens : mo.Opens callee := hevolved.openings mo (by rwa [Outcome.moments_eq]) callee
      (by rw [hevent]; rfl)
    have hheld := hopens.held hevent
    refine ⟨hheld, fun w hw place closure hb hrunning => ?_⟩
    have hbefore := hevolved.before ((Outcome.moments_eq _).trans hmoments) w hw
    have hnow := hbefore.backs hb hrunning (Heap.isLive_of_payload? hheld)
    obtain rfl : function = .closure (some place) :=
      Payload.function.inj (Option.some.inj (hheld.symm.trans hnow.held))
    exact ⟨rfl, hnow, fun hn =>
      hopens.calls hevent hnow (Heap.proper_runWithin b s mo hmo) hrunning hn older⟩
  · intro t keep m m' label captured body hg
    exact ⟨fun view h => createClosure_adds hg.keeps h, fun on name h => registerClosure_adds hg h,
      fun on name e h => registerClosure_adds_none h⟩

/-- The first function that a host creates. -/
theorem functions_keep_closures_first :
    let m : Machine := ⟨.initial .default, []⟩
    m.Good ⟨0, False, [], True⟩ [] ∧
      ∃ m', createClosure 0 none [] Stock.echo m = .done ⟨some 0⟩ m' ∧
        m.Adds m' ⟨none, [], Stock.echo⟩ ∧ m'.world.Backs 0 0 ⟨none, [], Stock.echo⟩ := by
  intro m
  have hg : m.Good ⟨0, False, [], True⟩ [] := Machine.good_initial .default False True
  obtain ⟨m', hrun⟩ : ∃ m', createClosure 0 none [] Stock.echo m = .done ⟨some 0⟩ m' := ⟨_, rfl⟩
  obtain ⟨-, -, -, hnew, -⟩ := functions_keep_closures Budget.standard ⟨.default, []⟩
  obtain ⟨hcreated, -⟩ := hnew _ [] m m' none [] Stock.echo hg
  obtain ⟨id, values, hview, hadds, hbacks, hvalues⟩ := hcreated _ hrun
  obtain rfl : values = [] := hvalues fun v hv => by cases hv
  obtain rfl : id = 0 := Option.some.inj (View.mk.inj hview).symm
  exact ⟨hg, m', hrun, hadds, hbacks⟩

end Enclave
