import Enclave.Proofs.Host.Echo

/-! # Values cross the boundary unchanged

Whatever the host reads, it gets the image of the slot that is there; whatever it hands over that fits,
the slot of the value is put in its place, and reading it back gives the value again. The count of a
cell goes with the number of its owners all the time.
-/
namespace Enclave

open Act Text

/-! ## Reading -/

/-- A place into which the host can look. -/
inductive Spot where
  | element (id : CellId) (index : Nat)
  | property (id : CellId) (key : String)
  | result (id : CellId)

namespace Spot

/-- What is there, if the host can get at it. -/
def slot? (w : World) : Spot → Option Slot
  | element id index =>
    if index ≤ maxCount then (w.visible? id).bind (Payload.element? index) else none
  | property id key =>
    if IsPlain key then (w.visible? id).bind (Payload.property? key) else none
  | result id => (w.visible? id).bind Payload.result?

/-- The host's read of the place. -/
def read : Spot → Act (Except HostError Value)
  | element id index => arrayElement ⟨some id⟩ index
  | property id key => keyedValue ⟨some id⟩ key
  | result id => Except.ok <$> settledResult (.handle .task id)

variable {m : Machine} {ss : List Slot} {bs : List Nat} {es : List Event} {s : Slot} {spot : Spot}

theorem alive_slot (hp : m.world.heap.Proper) (h : spot.slot? m.world = some s) :
    m.world.Alive s := by
  cases spot with
  | element id index =>
    simp only [slot?] at h
    split at h
    · obtain ⟨p, hv, hs⟩ := Option.bind_eq_some_iff.mp h
      exact World.alive_of_mem_visible hp hv (Payload.mem_slots_of_element? hs)
    · cases h
  | property id key =>
    simp only [slot?] at h
    split at h
    · obtain ⟨p, hv, hs⟩ := Option.bind_eq_some_iff.mp h
      exact World.alive_of_mem_visible hp hv (Payload.mem_slots_of_property? hs)
    · cases h
  | result id =>
    obtain ⟨p, hv, hs⟩ := Option.bind_eq_some_iff.mp h
    exact World.alive_of_mem_visible hp hv (Payload.mem_slots_of_result? hs)

/-- The host reads the image of what is there. -/
theorem turns_read (hp : m.world.heap.Proper) (h : spot.slot? m.world = some s) :
    Turns m ⟨ss, bs, es⟩ spot.read fun v k =>
      v = .ok (m.world.image s) ∧ k = ⟨s.cut :: ss, bs, es⟩ := by
  cases spot with
  | element id index =>
    simp only [slot?] at h
    split at h
    · rename_i hi
      obtain ⟨p, hv, hs⟩ := Option.bind_eq_some_iff.mp h
      cases p with
      | array elements =>
        have helement : elements[index]? = some s := by simpa [Payload.element?] using hs
        have hget : elements[index]?.getD .null = s := by rw [helement, Option.getD_some]
        rw [← hget]
        exact turns_arrayElement hp hv hi
      | object | function | classDesc | task => cases hs
    · cases h
  | property id key =>
    simp only [slot?] at h
    split at h
    · rename_i hkey
      obtain ⟨p, hv, hs⟩ := Option.bind_eq_some_iff.mp h
      cases p with
      | object table link =>
        have hproperty : table.get? key = some s := hs
        have hget : (table.get? key).getD .null = s := by rw [hproperty, Option.getD_some]
        rw [← hget]
        exact turns_keyedValue hp hv hkey
      | array | function | classDesc | task => cases hs
    · cases h
  | result id =>
    obtain ⟨p, hv, hs⟩ := Option.bind_eq_some_iff.mp h
    cases p with
    | task result =>
      cases hs
      apply (turns_settledResult hp hv).map
      intro v k hv
      obtain ⟨rfl, rfl⟩ := hv
      exact ⟨rfl, rfl⟩
    | array | object | function | classDesc => cases hs

/-- A value is there, and the host reads it back. -/
def Holds (v : Value) (m : Machine) (spot : Spot) : Prop :=
  spot.slot? m.world = some v.slot ∧
    Turns m .none spot.read fun a k => a = .ok v ∧ k = ⟨[v.slot], [], []⟩

theorem holds_of_slot {v : Value} (hp : m.world.heap.Proper) (hv : m.world.Fits v)
    (h : spot.slot? m.world = some v.slot) : spot.Holds v m := by
  have hread : Turns m .none spot.read fun a k =>
      a = .ok (m.world.image v.slot) ∧ k = ⟨[v.slot.cut], [], []⟩ := turns_read hp h
  rw [World.image_of_fits hv, World.cut_of_fits hv] at hread
  exact ⟨h, hread⟩

end Spot

/-! ## Globals -/

namespace Act

variable {β : Type} {m₀ m : Machine} {ss : List Slot} {bs : List Nat} {es : List Event} {s : Slot}
  {on : Surroundings} {name f x : String} {scope : ScopeId} {id : CellId} {place : Nat}
  {binding : Binding} {patience depth : Nat}

theorem turns_loadGlobal (hopen : m₀.world.canRead (.scope scope) = true)
    (hx : m₀.world.global? scope name = some s) (hs : m₀.world.Alive s) :
    Turns m₀ ⟨ss, bs, es⟩ (loadGlobal scope name) fun _ k => k = ⟨s :: ss, bs, es⟩ := by
  have hcopy : Turns m₀ ⟨ss, bs, es⟩ (copyGlobal scope name) fun found k =>
      found = true ∧ k = ⟨s :: ss, bs, es⟩ := by
    apply turns_world
    intro m hm
    have hallows : m.world.allows ⟨.scope scope, false⟩ = true := (hm.canRead _).trans hopen
    rw [if_pos hallows]
    refine Turns.guarded (turns_world fun m' hm' => ?_)
    have hglobal : m'.world.global? scope name = some s := by
      simp only [World.global?, World.scope?, hm'.scopes]
      exact hx
    rw [hglobal]
    have hs' : (m₀.guard ⟨.scope scope, false⟩).world.Alive s := hs
    exact (turns_share hs').step (turns_pure _ ⟨rfl, rfl⟩)
  exact hcopy.then (turns_pure _ rfl)

theorem turns_newest {f : List Slot → Act β} {R : β → Gain → Prop} {xs : List Slot}
    (hf : Turns m₀ ⟨xs ++ ss, bs, es⟩ (f xs.reverse) R) :
    Turns m₀ ⟨xs ++ ss, bs, es⟩ (newest xs.length >>= f) R := by
  intro m hm
  have hnewest : m.world.newest xs.length = xs.reverse := by
    rw [World.newest, hm.stack, List.append_assoc, List.take_left]
  rw [bind_done (newest_eq _ m), hnewest]
  exact hf m hm

/-- A script that calls a closure on a global. -/
theorem turns_callGlobal (hp : m₀.world.heap.Proper) (hrunning : m₀.world.engine.running = true)
    (hbinding : m₀.world.engine.bindings[place]? = some binding) (hecho : Echoes binding.body)
    (hn : 1 ≤ m₀.world.engine.config.maxArguments)
    (hv : m₀.world.visible? id = some (.function (.closure (some place))))
    (hopen : m₀.world.canRead (.scope on.scope) = true)
    (hcall : on.call = callNative patience (depth + 1))
    (hf : m₀.world.global? on.scope f = some (.cell id))
    (hx : m₀.world.global? on.scope x = some s) (hs : m₀.world.Alive s) :
    Turns m₀ ⟨ss, bs, es⟩ ((Expr.call (.name f) (.item (.name x) .nil)).eval on) fun _ k =>
      ∃ noted, k = ⟨s.cut :: ss, bs, noted ++ es⟩ ∧ calledWith m₀.world binding [s] none ∈ noted := by
  have halive : m₀.world.Alive (.cell id) := World.alive_of_visible hv
  change Turns m₀ _ ((loadGlobal on.scope x >>= fun _ => pure ()) >>= fun _ =>
    newest [s].length >>= fun given => loadGlobal on.scope f >>= fun _ => top >>= fun callee =>
      callSlot on.call callee none given >>= fun _ => settle 2) _
  refine Turns.step ((turns_loadGlobal hopen hx hs).step (turns_pure _ rfl)) ?_
  change Turns m₀ ⟨[s] ++ ss, bs, es⟩ _ _
  refine turns_newest ((turns_loadGlobal hopen hf halive).step (turns_top ?_))
  have hn' : [s].length ≤ m₀.world.engine.config.maxArguments := hn
  have hs' : ∀ a ∈ [s], m₀.world.Alive a := by simpa using hs
  rw [hcall]
  apply (turns_callEcho hp hrunning hbinding hecho hn' hs' (by simp) hv).bind
  intro _ k h
  obtain ⟨noted, rfl, hmem⟩ := h
  have hsettle : Turns m₀ ⟨s.cut :: ([.cell id, s] ++ ss), bs, noted ++ es⟩ (settle 2) fun _ k =>
      k = ⟨s.cut :: ss, bs, noted ++ es⟩ := turns_settle hp 2 rfl
  exact hsettle.weaken fun _ k hk => ⟨noted, hk, hmem⟩

end Act
/-! ## Handing over -/

/-- What the host's calls run in, with some room for calls inside them. -/
def Machine.calling (m : Machine) (patience depth : Nat) : Surroundings :=
  ⟨m.world.engine.scope, callNative patience (depth + 1), patience⟩

/-- Behind the cell is a closure of the running engine that gives back its first argument. -/
structure World.Echo (w : World) (id : CellId) (binding : Binding) : Prop where
  running : w.engine.running = true
  bound : ∃ place, w.visible? id = some (.function (.closure (some place))) ∧
    w.engine.bindings[place]? = some binding
  echoes : Echoes binding.body

/-- A way in which the host hands a value over: to a container, into a new task, to a global with a
reference of its own or with the one in hand, or as the first argument of a call. -/
inductive Way where
  | element (id : CellId) (index : Nat)
  | appended (id : CellId)
  | property (id : CellId) (key : String)
  | task
  | copied (name : String)
  | moved (name : String)
  | argument (id : CellId) (rest : List Value) (this : Value)

namespace Way

/-- What the host asks for. -/
def request (v : Value) : Way → Request
  | element id index => .arraySet ⟨some id⟩ index v
  | appended id => .arrayPush ⟨some id⟩ v
  | property id key => .objectSet ⟨some id⟩ key v
  | task => .createTask v
  | copied name => .declareCopy name v
  | moved name => .declareMove name v
  | argument id rest this => .call ⟨some id⟩ (v :: rest) this

/-- The container has an owner and can be written there, the scope is open and its name can be sent,
or the function is a closure that gives back the value. -/
def Open (w : World) : Way → Prop
  | element id index => Slot.cell id ∈ w.external ∧ index ≤ maxCount ∧ ∃ elements,
      w.writable? id = some (.array elements) ∧ isWritable elements.size index = true
  | appended id => Slot.cell id ∈ w.external ∧ ∃ elements,
      w.writable? id = some (.array elements)
  | property id key => Slot.cell id ∈ w.external ∧ IsPlain key ∧ ∃ table link,
      w.writable? id = some (.object table link)
  | task => w.canRead (.payload w.heap.next) = true
  | copied name | moved name => IsPlain name ∧ w.canWrite (.scope w.engine.scope) = true ∧
      ∃ globals, w.scope? w.engine.scope = some globals
  | argument id rest this => (∃ binding, w.Echo id binding) ∧
      rest.length + 1 ≤ w.engine.config.maxArguments ∧ rest.length + 1 ≤ maxCount ∧
      (∀ a ∈ rest, w.Fits a) ∧ w.Fits this

/-- A global has the value, and a script that calls a closure on it shows the closure the value and
gets its slot back. -/
def Bound (v : Value) (m : Machine) (name : String) : Prop :=
  m.world.global? m.world.engine.scope name = some v.slot ∧
    ∀ patience depth patience' f id binding, m.world.Echo id binding →
      1 ≤ m.world.engine.config.maxArguments →
      m.world.global? m.world.engine.scope f = some (.cell id) →
      Turns m .none ((Expr.call (.name f) (.item (.name name) .nil)).eval
        ⟨m.world.engine.scope, callNative patience (depth + 1), patience'⟩) fun _ k =>
          ∃ noted, k = ⟨[v.slot], [], noted⟩ ∧ .called binding.label [v] .null ∈ noted

/-- The slot of the value has arrived, and the value is what is read back. -/
def Lands (v : Value) (m m' : Machine) : (way : Way) → (way.request v).Reply → Prop
  | element id index, reply => reply = Except.ok () ∧ (Spot.element id index).Holds v m'
  | appended id, reply => reply = Except.ok () ∧ ∃ elements,
      m.world.visible? id = some (.array elements) ∧
      m'.world.visible? id = some (.array (elements.push v.slot)) ∧
      (elements.size ≤ maxCount → (Spot.element id elements.size).Holds v m')
  | property id key, reply => reply = Except.ok () ∧ (Spot.property id key).Holds v m'
  | task, reply => ∃ id, reply = Except.ok (.handle .task id) ∧ m.world.heap.isLive id = false ∧
      (Spot.result id).Holds v m'
  | copied name, reply => reply = Except.ok () ∧ Bound v m' name
  | moved name, reply => reply = Except.ok () ∧ Bound v m' name
  | argument _ rest this, reply => reply = Except.ok v ∧ ∃ label noted,
      m.Gains ⟨[v.slot], [], noted⟩ m' ∧ .called label (v :: rest) this ∈ noted

/-- The host can hand the value over in this way, it lands, and the counts go with the owners. -/
def Carries (way : Way) (v : Value) (m : Machine) (base : Nat) : Prop :=
  ∀ patience depth, ∃ reply m',
    perform (m.calling patience depth) base (way.request v) m = .done reply m' ∧
      way.Lands v m m' reply ∧ m.Follows m'

end Way

/-! ## Arrival -/

section Arrival

variable {t : Limits} {keep : List Slot} {m m' : Machine} {v : Value} {id : CellId}


/-- A value that is still in the world fits as it did before. -/
theorem World.fits_later {w w' : World} (hl : w.heap.Later w'.heap) (hv : w.Fits v)
    (ha : w'.Alive v.slot) : w'.Fits v := by
  refine hv.of_kind? ?_
  rintro kind id rfl
  exact hl.kind?_eq (World.alive_of_fits hv id rfl) (ha id rfl)

theorem Act.good_perform {patience depth : Nat} {r : Request} {reply : r.Reply} (hg : m.Good t keep)
    (hrun : perform (m.calling patience depth) keep.length r m = .done reply m') :
    m'.Good t keep := by
  have hsafe : (m.calling patience depth).call.Safe t := safe_callNative t patience (depth + 1)
  have hover : Spec t False keep (Over 0 keep) _ _ := over_perform hsafe r
  exact (hover.after hg (over_zero.mpr hg.keeps) hrun).1

/-- The value is read back from a place in a later world that has its slot. -/
theorem Spot.holds_later {spot : Spot} (hl : m.world.heap.Later m'.world.heap)
    (hg : m'.Good t keep) (hv : m.world.Fits v) (h : spot.slot? m'.world = some v.slot) :
    spot.Holds v m' := by
  have hp := hg.sound.counted.proper
  exact Spot.holds_of_slot hp (World.fits_later hl hv (Spot.alive_slot hp h)) h

/-- A container that was written shows its new payload. -/
theorem World.visible?_stored {w : World} {p q : Payload} {old : Slot}
    {f : Payload → Slot → Option (Payload × Slot)} (hs : w.Sound t) (hid : Slot.cell id ∈ w.external)
    (hw : w.writable? id = some p) (hf : f p v.slot = some (q, old)) (hx : Payload.Swaps f)
    (hv : w.Fits v) :
    (w.stored v.slot id q old).visible? id = some q ∧
      w.heap.Later (w.stored v.slot id q old).heap := by
  have hfound : f p (w.found v.slot) = some (q, old) := by
    rw [World.found_of_alive (World.alive_of_fits hv)]
    exact hf
  have hp := World.payload?_of_writable hw
  have hread : w.canRead (.payload id) = true := by
    unfold World.writable? at hw
    split at hw
    · rename_i hwrite
      exact World.canRead_of_canWrite hwrite
    · cases hw
  refine ⟨?_, (World.move_stored t hp hfound hx).later⟩
  change (if w.canRead (.payload id) then (w.stored v.slot id q old).heap.payload? id else none) = _
  rw [if_pos hread]
  exact World.payload?_stored hs hp hfound hx hid

/-- A reference to what the slot names comes to the top; beside it only the heap and the stack may
change. -/
def World.Brings (w : World) (s : Slot) (w' : World) : Prop :=
  ∃ heap stack, w' = { w with heap := heap, stack := s :: stack }

theorem World.brings_share {w : World} {s : Slot} (hs : w.Alive s) : w.Brings s (w.share s) := by
  rw [World.share_alive hs]
  exact ⟨_, _, rfl⟩

namespace Way

variable (hg : m.Good t keep) (hv : m.world.Fits v)
include hg hv

theorem carries_element {index : Nat} (h : (element id index).Open m.world) :
    (element id index).Carries v m keep.length := by
  intro patience depth
  obtain ⟨hid, hi, elements, hw, hgap⟩ := h
  obtain ⟨elements', old, hput, hget, hrun⟩ :=
    writeElement_fits hg.sound.counted.proper hv hw hi hgap
  have hperform : perform (m.calling patience depth) keep.length (.arraySet ⟨some id⟩ index v) m =
    .done _ _ := hrun
  have hg' := good_perform hg hperform
  obtain ⟨hvisible, hl⟩ :=
    World.visible?_stored hg.sound hid hw hput (Payload.swaps_putElement index) hv
  refine ⟨_, _, hrun, ⟨rfl, Spot.holds_later hl hg' hv ?_⟩, hg.follows hg' rfl⟩
  rw [Spot.slot?, if_pos hi, hvisible]
  simpa [Payload.element?] using hget

theorem carries_appended (h : (appended id).Open m.world) :
    (appended id).Carries v m keep.length := by
  intro patience depth
  obtain ⟨hid, elements, hw⟩ := h
  have hrun := appendElement_fits hg.sound.counted.proper hv hw
  have hperform : perform (m.calling patience depth) keep.length (.arrayPush ⟨some id⟩ v) m =
    .done _ _ := hrun
  have hg' := good_perform hg hperform
  obtain ⟨hvisible, hl⟩ := World.visible?_stored hg.sound hid hw rfl Payload.swaps_pushElement hv
  refine ⟨_, _, hrun, ⟨rfl, elements, World.visible?_of_writable hw, hvisible, fun hi => ?_⟩,
    hg.follows hg' rfl⟩
  refine Spot.holds_later hl hg' hv ?_
  rw [Spot.slot?, if_pos hi, hvisible]
  simp [Payload.element?]

theorem carries_property {key : String} (h : (property id key).Open m.world) :
    (property id key).Carries v m keep.length := by
  intro patience depth
  obtain ⟨hid, hkey, table, link, hw⟩ := h
  have hrun := writeKeyed_fits hg.sound.counted.proper hv hw hkey
  have hperform : perform (m.calling patience depth) keep.length (.objectSet ⟨some id⟩ key v) m =
    .done _ _ := hrun
  have hg' := good_perform hg hperform
  obtain ⟨hvisible, hl⟩ :=
    World.visible?_stored hg.sound hid hw rfl (Payload.swaps_putProperty key) hv
  refine ⟨_, _, hrun, ⟨rfl, Spot.holds_later hl hg' hv ?_⟩, hg.follows hg' rfl⟩
  rw [Spot.slot?, if_pos hkey, hvisible]
  exact Table.get?_put_self table key v.slot

theorem carries_task (h : task.Open m.world) : task.Carries v m keep.length := by
  intro patience depth
  have hrun := settledTask_fits hg.sound.counted.proper hv
  have hperform : perform (m.calling patience depth) keep.length (.createTask v) m =
    .done _ _ := hrun
  have hg' := good_perform hg hperform
  have hl : m.world.heap.Later (m.world.share v.slot).allocTask.heap :=
    ((World.move_share t m.world v.slot).trans (World.move_allocTask t _)).later
  have hfound := World.found_of_alive (World.alive_of_fits hv)
  have hnew : m.world.heap.isLive m.world.heap.next = false := by
    rw [Heap.isLive, Heap.cell?_next]
    rfl
  have hlost : (m.world.share v.slot).allocTask.lost = m.world.lost := by
    rw [World.share_eq]
    rfl
  refine ⟨_, _, hrun, ⟨_, rfl, hnew, Spot.holds_later hl hg' hv ?_⟩, hg.follows hg' hlost⟩
  have hread : (m.world.share v.slot).allocTask.canRead (.payload m.world.heap.next) = true := by
    rw [World.share_eq]
    exact h
  have hpayload : (m.world.share v.slot).allocTask.heap.payload? m.world.heap.next =
      some (.task v.slot) := by
    rw [World.share_eq, hfound]
    simp [World.allocTask, World.install, World.pop, World.top, Heap.payload?, Heap.cell?_alloc,
      Heap.next_retainSlot]
  simp [Spot.slot?, World.visible?, hread, hpayload, Payload.result?]

omit hg in
/-- A script that calls a closure on the global finds the value there. -/
theorem bound_of_global {name : String} (hg' : m'.Good t keep)
    (hl : m.world.heap.Later m'.world.heap)
    (hopen : m'.world.canRead (.scope m'.world.engine.scope) = true)
    (hx : m'.world.global? m'.world.engine.scope name = some v.slot) : Bound v m' name := by
  refine ⟨hx, fun patience depth patience' f id binding hecho hn hf => ?_⟩
  obtain ⟨place, hcell, hbinding⟩ := hecho.bound
  have halive : m'.world.Alive v.slot := by
    intro id hid
    refine World.isLive_of_external hg'.sound.counted (hid ▸ ?_)
    simp only [World.external, List.mem_append]
    exact .inl (.inl (.inl (.inl (.inl (World.mem_globals hx)))))
  have hfits := World.fits_later hl hv halive
  have hcalled : calledWith m'.world binding [v.slot] none = .called binding.label [v] .null := by
    have hvalues : ∀ a ∈ [v], m'.world.Fits a := by simpa using hfits
    have hthis : ∀ a ∈ (none : Option Value), m'.world.Fits a := by simp
    exact calledWith_fits hvalues hthis
  refine (turns_callGlobal hg'.sound.counted.proper hecho.running hbinding hecho.echoes hn hcell
    hopen rfl hf hx halive).weaken fun _ k h => ?_
  obtain ⟨noted, rfl, hmem⟩ := h
  refine ⟨noted, ?_, hcalled ▸ hmem⟩
  rw [World.cut_of_fits hv, List.append_nil]

/-- The reference in hand becomes the value of a global. -/
theorem lands_global {w : World} {name : String} (hm : World.Move t m.world w)
    (hw : m.world.Brings v.slot w) (h : (moved name).Open m.world) (on : Surroundings)
    (hscope : on.scope = m.world.engine.scope) :
    ∃ m', declareTop on name v { m with world := w } = .done (.ok ()) m' ∧
      (m'.Good t keep → Bound v m' name ∧ m.Follows m') := by
  obtain ⟨hname, hopen, globals, ht⟩ := h
  obtain ⟨heap, stack, rfl⟩ := hw
  have hsound := hm.sound hg.sound
  have halive : World.Alive { m.world with heap := heap, stack := v.slot :: stack } v.slot := by
    intro id hid
    refine World.isLive_of_stack hsound.counted ?_
    rw [hid]
    exact List.mem_cons_self ..
  let m₁ : Machine := { m with world := { m.world with heap := heap, stack := v.slot :: stack } }
  have hscope₁ : m₁.world.scope? on.scope = some globals := hscope ▸ ht
  have hopen₁ : m₁.world.canWrite (.scope on.scope) = true := hscope ▸ hopen
  have hrun := declareTop_fits hsound.counted.proper (World.fits_later hm.later hv halive) rfl hname
    hscope₁ hopen₁
  refine ⟨_, hrun, fun hg' => ⟨bound_of_global hv hg' ?_ ?_ ?_, hg.follows hg' rfl⟩⟩
  · exact hm.later.trans (Heap.later_releaseSlots _ _)
  · exact World.canRead_of_canWrite hopen
  · rw [hscope]
    exact World.global?_put ht name v.slot

theorem carries_copied {name : String} (h : (copied name).Open m.world) :
    (copied name).Carries v m keep.length := by
  intro patience depth
  obtain ⟨m', hrun, hlands⟩ := lands_global hg hv (World.move_share t m.world v.slot)
    (World.brings_share (World.alive_of_fits hv)) h (m.calling patience depth) rfl
  have hperform : perform (m.calling patience depth) keep.length (.declareCopy name v) m =
    .done (.ok ()) m' := hrun
  have hg' := good_perform hg hperform
  exact ⟨_, m', hperform, ⟨rfl, (hlands hg').1⟩, (hlands hg').2⟩

theorem carries_moved {name : String} (h : (moved name).Open m.world) :
    (moved name).Carries v m keep.length := by
  intro patience depth
  obtain ⟨xs, hxs⟩ := hg.keeps
  obtain ⟨heap, stack, hsecure, -⟩ := World.secure_alive hxs.symm rfl (World.alive_of_fits hv)
  obtain ⟨m', hrun, hlands⟩ := lands_global hg hv
    (World.move_secureUnder t m.world keep.length 0 v.slot) ⟨heap, stack, hsecure⟩ h
    (m.calling patience depth) rfl
  have hperform : perform (m.calling patience depth) keep.length (.declareMove name v) m =
    .done (.ok ()) m' := hrun
  have hg' := good_perform hg hperform
  exact ⟨_, m', hperform, ⟨rfl, (hlands hg').1⟩, (hlands hg').2⟩

/-- A call of a closure that gives back its first argument. -/
theorem carries_argument {rest : List Value} {this : Value}
    (h : (argument id rest this).Open m.world) :
    (argument id rest this).Carries v m keep.length := by
  intro patience depth
  obtain ⟨⟨binding, hecho⟩, hn, hcount, hrest, hthis⟩ := h
  obtain ⟨place, hcell, hbinding⟩ := hecho.bound
  have hall : ∀ a ∈ v :: rest, m.world.Fits a := by
    intro a ha
    rcases List.mem_cons.mp ha with rfl | ha
    · exact hv
    · exact hrest a ha
  have hcall : Turns m .none (callView (m.calling patience depth) ⟨some id⟩ (v :: rest) this)
      fun a k => a = .ok v ∧ ∃ noted, k = ⟨[v.slot], [], noted ++ []⟩ ∧
        .called binding.label (v :: rest) this ∈ noted :=
    turns_callView hg.sound.counted.proper hecho.running hbinding hecho.echoes hn hcount hall hthis
      hcell m.world.engine.scope patience
  obtain ⟨_, _, m', hrun, hgains, rfl, noted, rfl, hmem⟩ := hcall.run
  have hperform : perform (m.calling patience depth) keep.length (.call ⟨some id⟩ (v :: rest) this) m =
    .done _ _ := hrun
  have hg' := good_perform hg hperform
  exact ⟨_, m', hrun, ⟨rfl, binding.label, noted ++ [], hgains, by simpa using hmem⟩,
    hg.follows hg' hgains.lost⟩

/-- Whatever fits can be handed over in every open way. -/
theorem carries (way : Way) (h : way.Open m.world) : way.Carries v m keep.length := by
  cases way with
  | element id index => exact carries_element hg hv h
  | appended id => exact carries_appended hg hv h
  | property id key => exact carries_property hg hv h
  | task => exact carries_task hg hv h
  | copied name => exact carries_copied hg hv h
  | moved name => exact carries_moved hg hv h
  | argument id rest this => exact carries_argument hg hv h

omit hg hv in
/-- A way stays open when something is gained. -/
theorem Open.later {way : Way} {gain : Gain} (h : way.Open m.world) (hm : m.Gains gain m') :
    way.Open m'.world := by
  have hwritable : ∀ id, m'.world.writable? id = m.world.writable? id := fun id => by
    rw [World.writable?, hm.canWrite, hm.heap.payload?, World.writable?]
  have hfits : ∀ a, m.world.Fits a → m'.world.Fits a := fun a ha =>
    ha.of_kind? fun _ id _ => hm.heap.kind? id
  cases way with
  | element id index =>
    obtain ⟨hid, hi, elements, hw, hgap⟩ := h
    exact ⟨hm.external hid, hi, elements, (hwritable id).trans hw, hgap⟩
  | appended id =>
    obtain ⟨hid, elements, hw⟩ := h
    exact ⟨hm.external hid, elements, (hwritable id).trans hw⟩
  | property id key =>
    obtain ⟨hid, hkey, table, link, hw⟩ := h
    exact ⟨hm.external hid, hkey, table, link, (hwritable id).trans hw⟩
  | task =>
    change m'.world.canRead (.payload m'.world.heap.next) = true
    rw [hm.canRead, hm.heap.next]
    exact h
  | copied name | moved name =>
    obtain ⟨hname, hopen, globals, ht⟩ := h
    refine ⟨hname, ?_, globals, ?_⟩
    · rw [hm.canWrite, hm.engine]
      exact hopen
    · simp only [World.scope?, hm.engine, hm.scopes]
      exact ht
  | argument id rest this =>
    obtain ⟨⟨binding, hecho⟩, hn, hcount, hrest, hthis⟩ := h
    obtain ⟨place, hcell, hbinding⟩ := hecho.bound
    refine ⟨⟨binding, ?_, ⟨place, ?_, ?_⟩, hecho.echoes⟩, ?_, hcount, ?_, hfits this hthis⟩
    · rw [hm.engine]
      exact hecho.running
    · rw [hm.visible?]
      exact hcell
    · rw [hm.engine]
      exact hbinding
    · rw [hm.engine]
      exact hn
    · exact fun a ha => hfits a (hrest a ha)

end Way

/-- Reading is a shift of one entry where the read succeeds. -/
theorem Spot.shifts_read (spot : Spot) : Shifts t False 0 spot.read (whenOkay 1) := by
  cases spot with
  | element id index => exact shifts_arrayElement ⟨some id⟩ index
  | property id key => exact shifts_keyedValue ⟨some id⟩ key
  | result id => exact fun o => (shifts_settledResult _ o).map fun _ _ h => h

/-- Values cross the boundary unchanged. A slot that is passed to a closure which gives back its
argument comes back cut at its first zero. A slot that the host reads comes as its image, which stands
for the slot cut in the same way, and can be handed back in every open way. And whatever the host has
of its own lands in every open way as it is. In each case the counts go with the owners. -/
theorem crossing_preserves (hg : m.Good t keep) :
    (∀ id binding s slots receiver patience depth, m.world.Echo id binding →
      (s :: slots).length ≤ m.world.engine.config.maxArguments →
      (∀ a ∈ s :: slots, m.world.Alive a) → (∀ a ∈ receiver, m.world.Alive a) →
      ∃ noted m', callSlot (callNative patience (depth + 1)) (.cell id) receiver (s :: slots) m =
          .done () m' ∧
        calledWith m.world binding (s :: slots) receiver ∈ noted ∧
        m.Gains ⟨[s.cut], [], noted⟩ m' ∧ m.Follows m') ∧
    (∀ spot s, Spot.slot? m.world spot = some s → (m.world.image s).slot = s.cut ∧
      ∃ m₁, spot.read m = .done (.ok (m.world.image s)) m₁ ∧ m.Gains ⟨[s.cut], [], []⟩ m₁ ∧
        m.Follows m₁ ∧
        ∀ way, Way.Open m.world way → way.Carries (m.world.image s) m₁ keep.length) ∧
    ∀ v way, m.world.Fits v → Way.Open m.world way → way.Carries v m keep.length := by
  have hp := hg.sound.counted.proper
  constructor
  · intro id binding s slots receiver patience depth hecho hn hs hr
    obtain ⟨place, hcell, hbinding⟩ := hecho.bound
    have hcall : Turns m .none (callSlot (callNative patience (depth + 1)) (.cell id) receiver
        (s :: slots)) fun _ k => ∃ noted, k = ⟨[s.cut], [], noted ++ []⟩ ∧
          calledWith m.world binding (s :: slots) receiver ∈ noted :=
      turns_callEcho hp hecho.running hbinding hecho.echoes hn hs hr hcell
    obtain ⟨_, _, m', hrun, hgains, noted, rfl, hmem⟩ := hcall.run
    rw [List.append_nil] at hgains
    have halive := World.alive_cut (hs s (List.mem_cons_self ..))
    exact ⟨noted, m', hrun, hmem, hgains, hgains.follows (by simpa using halive)⟩
  constructor
  · intro spot s hslot
    have halive := Spot.alive_slot hp hslot
    have hread : Turns m .none spot.read fun a k =>
        a = .ok (m.world.image s) ∧ k = ⟨[s.cut], [], []⟩ := Spot.turns_read hp hslot
    obtain ⟨_, _, m₁, hrun, hgains, rfl, rfl⟩ := hread.run
    have hg₁ : m₁.Good t keep :=
      (Spec.after (Spot.shifts_read spot keep) hg (over_zero.mpr hg.keeps) hrun).1
    have hfits : m₁.world.Fits (m.world.image s) :=
      (World.fits_image halive).of_kind? fun _ x _ => hgains.heap.kind? x
    refine ⟨World.slot_image _ _, m₁, hrun, hgains, ?_, ?_⟩
    · exact hgains.follows (by simpa using World.alive_cut halive)
    · intro way hway
      exact way.carries hg₁ hfits (hway.later hgains)
  · intro v way hv hway
    exact way.carries hg hv hway

end Arrival

/-- A text with a zero inside is read from an array, and what comes of it goes to the end. -/
theorem crossing_preserves_text :
    let s : Slot := .scalar (.string "a\x00b")
    let m : Machine := ⟨(World.initial .default).install (.array #[s]), []⟩
    m.Good ⟨0, False, [], True⟩ [] ∧ m.world.image s = .string "a" ∧
      ∃ m₁, (Spot.element 0 0).read m = .done (.ok (.string "a")) m₁ ∧
        (Way.appended 0).Carries (.string "a") m₁ 0 := by
  intro s m
  have hmove : World.Move ⟨0, False, [], True⟩ (World.initial .default) m.world :=
    World.move_install _ _ 0 _ fun id => by simp [Payload.slots, s]
  have hg : m.Good ⟨0, False, [], True⟩ [] :=
    (Machine.good_initial .default False True).move hmove List.nil_suffix
  have hcut : cut "a\x00b" = "a" := by decide
  have himage : m.world.image s = .string "a" := congrArg Value.string hcut
  obtain ⟨-, m₁, hread, -, -, hways⟩ := (crossing_preserves hg).2.1 (.element 0 0) s rfl
  rw [himage] at hread hways
  have hopen : (Way.appended 0).Open m.world := ⟨List.mem_cons_self .., #[s], rfl⟩
  exact ⟨hg, himage, m₁, hread, hways (.appended 0) hopen⟩

end Enclave
