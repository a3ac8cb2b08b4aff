import Mathlib.Logic.Function.Basic
import Enclave.Proofs.Host.Reads
import Enclave.Proofs.Host.Sent
import Enclave.Proofs.Script.Access
import Enclave.Proofs.Script.Instances
import Enclave.Proofs.Script.Literals
import Enclave.Proofs.Shared.History

/-! # Objects are maps with a class behind them

An object is one table of own properties, for hosts and for scripts. A script that finds no own property
goes on to the methods that the class of the object has at that time; a host does not.
-/
namespace Enclave

open Act Text

/-! ## The model -/

/-- Objects with their properties and perhaps a class, and classes with their methods. -/
structure Shapes where
  objects : CellId → Table Slot × Option CellId
  methods : CellId → Table Slot

namespace Shapes

variable (s : Shapes)

/-- What a script reads: an own property whatever it holds, or a method of the class. -/
def member (id : CellId) (key : String) : Slot :=
  match (s.objects id).1.get? key with
  | some own => own
  | none =>
    match (s.objects id).2 with
    | some c => ((s.methods c).get? key).getD .null
    | none => .null

def putObject (id : CellId) (table : Table Slot) (classLink : Option CellId) : Shapes :=
  { s with objects := Function.update s.objects id (table, classLink) }

def putProperty (id : CellId) (key : String) (v : Slot) : Shapes :=
  s.putObject id ((s.objects id).1.put key v) (s.objects id).2

def putClass (id : CellId) (methods : Table Slot) : Shapes :=
  { s with methods := Function.update s.methods id methods }

end Shapes

def Payload.methods : Payload → Table Slot
  | classDesc _ methods => methods
  | _ => []

/-- The model has every object as it is, and the methods of whatever is a class. -/
structure World.HasShapes (w : World) (s : Shapes) : Prop where
  objects : ∀ id table classLink,
    w.heap.payload? id = some (.object table classLink) → s.objects id = (table, classLink)
  methods : ∀ id p, w.heap.payload? id = some p → s.methods id = p.methods
  fresh : ∀ id, w.heap.next ≤ id → s.methods id = []

namespace World

variable {w w' : World} {s s' : Shapes} {id : CellId} {p q : Payload} {table : Table Slot}
  {classLink : Option CellId}

theorem HasShapes.keeps (h : w.HasShapes s) (hkeeps : w.Keeps w') : w'.HasShapes s where
  objects id table classLink hp := h.objects id table classLink (hkeeps.payload id _ hp)
  methods id p hp := h.methods id p (hkeeps.payload id p hp)
  fresh id hid := h.fresh id (hkeeps.later.next.trans hid)

/-- A write to one cell is a change of the model at one place. -/
theorem HasShapes.sets (h : w.HasShapes s) (hsets : w.Sets id q w') (hid : id < w'.heap.next)
    (hobjects : ∀ x ≠ id, s'.objects x = s.objects x)
    (hmethods : ∀ x ≠ id, s'.methods x = s.methods x)
    (hobject : ∀ table classLink, q = .object table classLink → s'.objects id = (table, classLink))
    (hmethod : s'.methods id = q.methods) : w'.HasShapes s' := by
  refine ⟨fun x table classLink hp => ?_, fun x p hp => ?_, fun x hx => ?_⟩
  · have hx := hsets.payload x _ hp
    by_cases he : x = id
    · rw [if_pos he] at hx
      rw [he]
      exact hobject table classLink hx.symm
    · rw [if_neg he] at hx
      rw [hobjects x he]
      exact h.objects x table classLink hx
  · have hx := hsets.payload x _ hp
    by_cases he : x = id
    · rw [if_pos he] at hx
      rw [he, hx]
      exact hmethod
    · rw [if_neg he] at hx
      rw [hmethods x he]
      exact h.methods x p hx
  · have he : x ≠ id := (hid.trans_le hx).ne'
    rw [hmethods x he]
    exact h.fresh x (hsets.later.next.trans hx)

theorem HasShapes.setsObject (h : w.HasShapes s)
    (hp : w.heap.payload? id = some (.object table classLink)) {table' : Table Slot}
    (hsets : w.Sets id (.object table' classLink) w') :
    w'.HasShapes (s.putObject id table' classLink) := by
  have hid := (Heap.lt_next_of_payload? hp).trans_le hsets.later.next
  refine h.sets hsets hid (fun x hx => Function.update_of_ne hx _ _) (fun _ _ => rfl) ?_ ?_
  · rintro _ _ ⟨⟩
    exact Function.update_self _ _ _
  · exact (h.methods id _ hp).trans rfl

theorem HasShapes.setsClass (h : w.HasShapes s) {name name' : String} {methods methods' : Table Slot}
    (hp : w.heap.payload? id = some (.classDesc name methods))
    (hsets : w.Sets id (.classDesc name' methods') w') : w'.HasShapes (s.putClass id methods') := by
  have hid := (Heap.lt_next_of_payload? hp).trans_le hsets.later.next
  refine h.sets hsets hid (fun _ _ => rfl) (fun x hx => Function.update_of_ne hx _ _) ?_ ?_
  · rintro _ _ ⟨⟩
  · exact Function.update_self _ _ _

theorem HasShapes.newObject (h : w.HasShapes s) (stack : List Slot) (table : Table Slot)
    (classLink : Option CellId) :
    (install { w with stack := stack } (.object table classLink)).HasShapes
      (s.putObject w.heap.next table classLink) := by
  have hid : w.heap.next < (w.heap.alloc (.object table classLink)).next := by
    rw [Heap.next_alloc]
    exact Nat.lt_succ_self _
  refine h.sets (sets_install w stack _) hid (fun x hx => Function.update_of_ne hx _ _)
    (fun _ _ => rfl) ?_ ?_
  · rintro _ _ ⟨⟩
    exact Function.update_self _ _ _
  · exact h.fresh _ (Nat.le_refl _)

theorem HasShapes.newClass (h : w.HasShapes s) (stack : List Slot) (name : String) :
    (install { w with stack := stack } (.classDesc name [])).HasShapes
      (s.putClass w.heap.next []) := by
  have hid : w.heap.next < (w.heap.alloc (.classDesc name [])).next := by
    rw [Heap.next_alloc]
    exact Nat.lt_succ_self _
  refine h.sets (sets_install w stack _) hid (fun _ _ => rfl)
    (fun x hx => Function.update_of_ne hx _ _) ?_ ?_
  · rintro _ _ ⟨⟩
  · exact Function.update_self _ _ _

/-- Cells that are neither objects nor classes come and go. -/
theorem HasShapes.aside (hp : w.heap.Proper) (hp' : w'.heap.Proper) (h : w.HasShapes s)
    (hleaves : Leaves (fun k => k = .object ∨ k = .classDesc) w w') : w'.HasShapes s := by
  refine ⟨fun x table classLink hx => ?_, fun x p hx => ?_, fun x hx => ?_⟩
  · exact h.objects x table classLink (hleaves.payload x _ (.inl rfl) hx)
  · by_cases hclass : p.kind = .classDesc
    · exact h.methods x p (hleaves.payload x p (.inr hclass) hx)
    · have hnone : ∀ {p : Payload}, p.kind ≠ .classDesc → p.methods = [] := by
        intro p hp
        cases p with
        | classDesc => exact absurd rfl hp
        | array | object | function | task => rfl
      rw [hnone hclass]
      -- A cell that was there before had its kind then, so it was no class either.
      by_cases hold : x < w.heap.next
      · have hkind : w'.heap.kind? x = some p.kind := by rw [hp'.kind? x, hx, Option.map_some]
        have hbefore := hleaves.later.kind x _ hold hkind
        rw [hp.kind? x] at hbefore
        obtain ⟨q, hq, hk⟩ := Option.map_eq_some_iff.mp hbefore
        rw [h.methods x q hq]
        exact hnone (hk ▸ hclass)
      · exact h.fresh x (Nat.le_of_not_lt hold)
  · exact h.fresh x (hleaves.later.next.trans hx)

/-- A script finds in an object what the model has. -/
theorem HasShapes.member (hproper : w.heap.Proper) (h : w.HasShapes s) (hu : w.Unlocked)
    (hp : w.heap.payload? id = some (.object table classLink)) (key : Slot) :
    (Payload.object table classLink).member w key = s.member id (w.propertyName key) := by
  rw [Shapes.member, h.objects id table classLink hp, Payload.member]
  cases table.get? (w.propertyName key) with
  | some own => rfl
  | none =>
    cases classLink with
    | none => rfl
    | some c =>
      have hlink : Slot.cell c ∈ (Payload.object table (some c)).slots :=
        List.mem_append_right _ (List.mem_singleton_self _)
      obtain ⟨p, hclass⟩ := Heap.exists_payload? (hproper.closed id _ hp c hlink)
      have hvisible := (hu.sees hclass).2
      dsimp only
      rw [Option.bind_some, hvisible, h.methods c p hclass]
      cases p <;> rfl

end World

/-! ## Single accesses -/

namespace Act

variable {t : Limits} {keep : List Slot} {m : Machine} {id f : CellId} {name : String}

/-- A method that is handed over to a class goes under its name. -/
theorem addMethod_eq {rest : List Slot} {className : String} {methods : Table Slot}
    (hp : m.world.heap.Proper) (hs : m.world.stack = .cell f :: rest)
    (hf : m.world.heap.kind? f = some .function)
    (hw : m.world.writable? id = some (.classDesc className methods)) (hname : IsPlain name) :
    addMethod (some id) (some (encode name)) m = .done true { m with world := { m.world with
      heap := (m.world.heap.setPayload id (.classDesc className
        (methods.put name (.cell f)))).releaseSlots [(methods.get? name).getD .null],
      stack := rest } } := by
  have hfunction : m.world.cellOf? .function (Slot.cell f).cell? = some f := by
    simp [World.cellOf?, Slot.cell?, hf]
  have hclass : m.world.cellOf? .classDesc (some id) = some id :=
    World.cellOf?_of_visible hp (World.visible?_of_writable hw)
  have htop : m.world.top = .cell f := World.top_of_stack hs
  have hwrite : writing id
      (fun _ => do
        change (·.exchangePayload id (Payload.putMethod name))
        pure true)
      (pure false) m =
      .done true { m with world := m.world.exchangePayload id (Payload.putMethod name) } := by
    rw [writing_eq (fun p => (unguarded_exchange _ _).then_pure true) (unguarded_pure false), hw]
    rfl
  have hdrop := World.drop_exchangePayload (f := Payload.putMethod name) hs
    (World.payload?_of_writable hw) rfl
  rw [← hdrop]
  unfold addMethod
  rw [bind_done (top_eq m), bind_done (world_eq m), htop, hfunction, hclass]
  dsimp only
  rw [readText_encode, cut_eq_self hname]
  exact (bind_done hwrite).trans rfl

theorem installMethod_eq (hg : m.Good t keep) {className : String} {methods : Table Slot}
    (hf : m.world.heap.kind? f = some .function)
    (hw : m.world.writable? id = some (.classDesc className methods)) (hname : IsPlain name) :
    ∃ m', installMethod keep.length ⟨some id⟩ name ⟨some f⟩ m = .done (.ok ()) m' ∧
      m.world.Sets id (.classDesc className (methods.put name (.cell f))) m'.world := by
  have hlive : m.world.heap.isLive f = true := Heap.isLive_of_kind? hf
  have halive : m.world.Alive (.cell f) := by
    rintro x ⟨⟩
    exact hlive
  obtain ⟨xs, hxs⟩ := hg.keeps
  obtain ⟨heap, stack, hsecure, -⟩ := World.secure_alive hxs.symm rfl halive
  obtain ⟨secured, hsecured, hstack, hwrite⟩ : ∃ w, m.world.secure keep.length (.cell f) = w ∧
      w.stack = .cell f :: stack ∧ w.canWrite = m.world.canWrite := ⟨_, hsecure, rfl, rfl⟩
  have hkeeps := World.keeps_secure m.world keep.length (.cell f)
  have hpayload := World.payload?_secure m.world keep.length (.cell f) id
  have hmove : World.Move t m.world (m.world.secure keep.length (.cell f)) :=
    m.world.move_secureUnder t keep.length 0 (.cell f)
  rw [hsecured] at hkeeps hpayload hmove
  have hsound := hmove.sound hg.sound
  have hf' : secured.heap.kind? f = some .function := by
    have hlive' : secured.heap.isLive f = true :=
      World.isLive_of_stack hsound.counted (hstack ▸ List.mem_cons_self)
    rw [hmove.later.kind?_eq hlive hlive', hf]
  have hw' : secured.writable? id = some (.classDesc className methods) := by
    rw [World.writable?, hwrite, hpayload]
    exact hw
  have hadd := addMethod_eq (m := ⟨secured, m.moments⟩) hsound.counted.proper hstack hf' hw' hname
  have hrun : installMethod keep.length ⟨some id⟩ name ⟨some f⟩ m =
      (addMethod (some id) (some (encode name)) >>= confirm .addMethod) ⟨secured, m.moments⟩ := by
    unfold installMethod
    rw [sentText_plain hname]
    change (addMethod (some id) (some (encode name)) >>= confirm .addMethod)
      { m with world := m.world.secure keep.length (.cell f) } = _
    rw [hsecured]
  refine ⟨_, hrun.trans ((bind_done hadd).trans rfl), hkeeps.sets ?_⟩
  exact World.sets_write (World.payload?_of_writable hw') _ _ _

end Act

/-! ## Accesses to objects and classes -/

/-- What a host asks for, and what the parts of a script do. A literal has its entries on the stack
when it makes the object. -/
inductive ObjectOp where
  | createObject
  | createClass (name : String)
  | has (id : CellId) (key : String)
  | get (id : CellId) (key : String)
  | set (id : CellId) (key : String) (v : Value)
  | addMethod (id : CellId) (name : String) (f : CellId)
  | literal (keys : List String)
  | instantiate (id : CellId)
  | read (id : CellId) (key : Slot)
  | assign (id : CellId) (key : Slot) (op : AssignOp) (right : Slot)
  | update (id : CellId) (key : Slot) (grows returnsNew : Bool)

inductive ObjectReply where
  | object (view : View .object)
  | classDesc (r : Except HostError (View .classDesc))
  | found (b : Bool)
  | value (r : Except HostError Value)
  | status (r : Except HostError Unit)
  | made (constructor : Option Slot) (object : Slot)
  | slot (r : Except Fault Slot)

namespace ObjectOp

def act (on : Surroundings) (base : Nat) : ObjectOp → Act ObjectReply
  | createObject => .object <$> perform on base .createObject
  | createClass name => .classDesc <$> perform on base (.createClass name)
  | has id key => .found <$> perform on base (.objectHas ⟨some id⟩ key)
  | get id key => .value <$> perform on base (.objectGet ⟨some id⟩ key)
  | set id key v => .status <$> perform on base (.objectSet ⟨some id⟩ key v)
  | addMethod id name f => .status <$> perform on base (.addMethod ⟨some id⟩ name ⟨some f⟩)
  | literal keys => .slot <$> valueOf (change (·.allocObject keys))
  | instantiate id => (fun r => .made r.1 r.2) <$> Act.instantiate id
  | read _ _ => .slot <$> valueOf readMember
  | assign id key op _ => .slot <$> valueOf (assignTo on.scope (.member (.cell id) key) op)
  | update id key grows returnsNew =>
    .slot <$> valueOf (updateAt on.scope (.member (.cell id) key) grows returnsNew)

def needs : ObjectOp → Nat
  | literal keys => keys.length
  | read _ _ => 2
  | assign _ _ _ _ => 3
  | update _ _ _ _ => 2
  | _ => 0

def IsObject (w : World) (id : CellId) : Prop :=
  ∃ table classLink, w.heap.payload? id = some (.object table classLink)

def IsClass (w : World) (id : CellId) : Prop :=
  ∃ name methods, w.heap.payload? id = some (.classDesc name methods)

/-- Nothing is locked, and there is what the operation is on. -/
def Ready (w : World) (op : ObjectOp) : Prop :=
  w.Unlocked ∧
    match op with
    | createObject | literal _ => True
    | createClass name => IsPlain name
    | has id key | get id key => IsObject w id ∧ IsPlain key
    | set id key v => IsObject w id ∧ IsPlain key ∧ w.Fits v
    | addMethod id name f =>
      IsClass w id ∧ IsPlain name ∧ w.heap.kind? f = some .function
    | instantiate id => IsClass w id
    | read id key | update id key _ _ =>
      IsObject w id ∧ ∃ rest, w.stack = key :: .cell id :: rest
    | assign id key op right =>
      IsObject w id ∧ op ≠ .other ∧ ∃ rest, w.stack = right :: key :: .cell id :: rest

def answer (w : World) (s : Shapes) : ObjectOp → ObjectReply
  | createObject => .object ⟨some w.heap.next⟩
  | createClass _ => .classDesc (.ok ⟨some w.heap.next⟩)
  | has id key => .found ((s.objects id).1.has key)
  | get id key => .value (.ok (w.image (((s.objects id).1.get? key).getD .null)))
  | set _ _ _ => .status (.ok ())
  | addMethod _ _ _ => .status (.ok ())
  | literal _ => .slot (.ok (.cell w.heap.next))
  | instantiate id => .made ((s.methods id).get? constructorName) (.cell w.heap.next)
  | read id key => .slot (.ok (s.member id (w.propertyName key)))
  | assign id key op right =>
    .slot (.ok (assigned w op (s.member id (w.propertyName key)) right))
  | update id key grows returnsNew =>
    let numbers := updated grows (s.member id (w.propertyName key))
    .slot (.ok (.scalar (.number (if returnsNew then numbers.2 else numbers.1))))

def next (w : World) (s : Shapes) : ObjectOp → Shapes
  | createObject => s.putObject w.heap.next [] none
  | createClass _ => s.putClass w.heap.next []
  | set id key v => s.putProperty id key v.slot
  | addMethod id name f => s.putClass id ((s.methods id).put name (.cell f))
  | literal keys => s.putObject w.heap.next (keys.zip (w.newest keys.length)) none
  | instantiate id => s.putObject w.heap.next [] (some id)
  | assign id key op right =>
    let name := w.propertyName key
    s.putProperty id name (assigned w op (s.member id name) right)
  | update id key grows _ =>
    let name := w.propertyName key
    s.putProperty id name (.scalar (.number (updated grows (s.member id name)).2))
  | has _ _ | get _ _ | read _ _ => s

end ObjectOp

/-- Hosts and scripts with objects and classes, against maps. -/
def objects (on : Surroundings) : Accesses where
  Op := ObjectOp
  Reply := ObjectReply
  State := Shapes
  kinds k := k = .object ∨ k = .classDesc
  act := ObjectOp.act on
  needs := ObjectOp.needs
  Ready := ObjectOp.Ready
  Describes s w := w.HasShapes s
  answer := ObjectOp.answer
  next := ObjectOp.next

namespace ObjectOp

variable {on : Surroundings} {t : Limits} {keep : List Slot} {m : Machine} {s : Shapes}
  {id : CellId} {table : Table Slot} {classLink : Option CellId}

theorem spec_act (hc : on.call.Safe t) (keep : List Slot) (op : ObjectOp) :
    Spec t True keep (Over op.needs keep) (op.act on keep.length) fun _ _ => True := by
  have hhost : ∀ (r : Request) (f : r.Reply → ObjectReply),
      Spec t True keep (Over 0 keep) (f <$> perform on keep.length r) fun _ _ => True :=
    fun r f => (over_perform hc r).map fun _ _ _ => trivial
  have hscript : ∀ {n : Nat} {x : Act Unit}, (Shifts t True n x fun _ => 1) →
      Spec t True keep (Over n keep) (ObjectReply.slot <$> valueOf x) fun _ _ => True :=
    fun hx => (spec_valueOf hx).map fun _ _ _ => trivial
  cases op with
  | createObject => exact hhost .createObject _
  | createClass name => exact hhost (.createClass name) _
  | has id key => exact hhost (.objectHas ⟨some id⟩ key) _
  | get id key => exact hhost (.objectGet ⟨some id⟩ key) _
  | set id key v => exact hhost (.objectSet ⟨some id⟩ key v) _
  | addMethod id name f => exact hhost (.addMethod ⟨some id⟩ name ⟨some f⟩) _
  | literal keys => exact hscript (shifts_allocObject keys)
  | instantiate id => exact (spec_instantiate keep id).map fun _ _ _ => trivial
  | read => exact hscript shifts_readMember
  | assign id key op => exact hscript (shifts_assignTo on.scope (.member (.cell id) key) op)
  | update id key grows returnsNew =>
    exact hscript (shifts_updateAt on.scope (.member (.cell id) key) grows returnsNew)

/-- The model answers every operation as the machine does. -/
theorem answers (op : ObjectOp) (hg : m.Good t keep) (hs : m.world.HasShapes s)
    (hover : Over op.needs keep m.world.stack) (hready : op.Ready m.world) :
    ∃ m', op.act on keep.length m = .done (op.answer m.world s) m' ∧
      m'.world.HasShapes (op.next m.world s) := by
  obtain ⟨hunlocked, hready⟩ := hready
  have hp := hg.sound.counted.proper
  cases op with
  | createObject => exact ⟨_, rfl, hs.newObject m.world.stack [] none⟩
  | createClass name =>
    have hplain : IsPlain name := hready
    have hrun : perform on keep.length (.createClass name) m =
        .done (.ok ⟨some m.world.heap.next⟩)
          { m with world := m.world.install (.classDesc name []) } := by
      change whenOk (sentText name) _ m = _
      rw [sentText_plain hplain]
      change (change (·.allocClass (readText (encode name))) >>= fun _ => viewMade .classDesc) m = _
      rw [readText_encode, cut_eq_self hplain]
      rfl
    exact ⟨_, map_done hrun ObjectReply.classDesc, hs.newClass m.world.stack name⟩
  | literal keys =>
    exact ⟨_, map_done (valueOf_done rfl) ObjectReply.slot, hs.newObject _ _ none⟩
  | has id key =>
    obtain ⟨⟨table, classLink, hpayload⟩, hplain⟩ := hready
    have hv := (hunlocked.sees hpayload).2
    rw [answer, hs.objects id table classLink hpayload]
    exact (turns_hasKey hp hv hplain).answers (fun _ _ h => h.1) ObjectReply.found
      fun _ => hs.keeps
  | get id key =>
    obtain ⟨⟨table, classLink, hpayload⟩, hplain⟩ := hready
    have hv := (hunlocked.sees hpayload).2
    rw [answer, hs.objects id table classLink hpayload]
    exact (turns_keyedValue hp hv hplain).answers (fun _ _ h => h.1) ObjectReply.value
      fun _ => hs.keeps
  | set id key v =>
    obtain ⟨⟨table, classLink, hpayload⟩, hplain, hfits⟩ := hready
    have hrun := writeKeyed_fits hp hfits (hunlocked.sees hpayload).1 hplain
    have hsets := World.sets_stored hpayload v.slot (.object (table.put key v.slot) classLink)
      ((table.get? key).getD .null)
    rw [next, Shapes.putProperty, hs.objects id table classLink hpayload]
    exact ⟨_, map_done hrun ObjectReply.status, hs.setsObject hpayload hsets⟩
  | addMethod id name f =>
    obtain ⟨⟨className, methods, hpayload⟩, hplain, hf⟩ := hready
    obtain ⟨m', hrun, hsets⟩ := installMethod_eq hg hf (hunlocked.sees hpayload).1 hplain
    rw [next, hs.methods id _ hpayload]
    exact ⟨m', map_done hrun ObjectReply.status, hs.setsClass hpayload hsets⟩
  | instantiate id =>
    obtain ⟨className, methods, hpayload⟩ := hready
    have hv := (hunlocked.sees hpayload).2
    have halive := World.alive_methodOr hp hv constructorName
    obtain ⟨u, hkeeps, hnext, hmade⟩ := World.construct_install halive hpayload
    have hobject : (u.install (.object [] (some id))).HasShapes
        (s.putObject m.world.heap.next [] (some id)) :=
      hnext ▸ (hs.keeps hkeeps).newObject u.stack [] (some id)
    rw [answer, next, hs.methods id _ hpayload]
    exact ⟨_, map_done (instantiate_eq hp hv) (fun r => ObjectReply.made r.1 r.2), hmade ▸ hobject⟩
  | read id key =>
    obtain ⟨⟨table, classLink, hpayload⟩, rest, hstack⟩ := hready
    obtain ⟨m', hrun, hkeeps⟩ := readMember_eq hg (hunlocked.sees hpayload).2 hstack
    rw [hs.member hp hunlocked hpayload key] at hrun
    exact ⟨m', map_done hrun ObjectReply.slot, hs.keeps hkeeps⟩
  | assign id key op right =>
    obtain ⟨⟨table, classLink, hpayload⟩, hop, rest, hstack⟩ := hready
    obtain ⟨m', hrun, hbecomes⟩ :=
      assignTo_eq hg (hunlocked.sees hpayload).1 on.scope hop hstack
    rw [hs.member hp hunlocked hpayload key] at hrun hbecomes
    rw [next, Shapes.putProperty, hs.objects id table classLink hpayload]
    exact ⟨m', map_done hrun ObjectReply.slot, hs.setsObject hpayload hbecomes⟩
  | update id key grows returnsNew =>
    obtain ⟨⟨table, classLink, hpayload⟩, rest, hstack⟩ := hready
    obtain ⟨m', hrun, hbecomes⟩ :=
      updateAt_eq hg (hunlocked.sees hpayload).1 on.scope grows returnsNew hstack
    rw [hs.member hp hunlocked hpayload key] at hrun hbecomes
    rw [next, Shapes.putProperty, hs.objects id table classLink hpayload]
    exact ⟨m', map_done hrun ObjectReply.slot, hs.setsObject hpayload hbecomes⟩

end ObjectOp

/-! ## Histories -/

theorem correct_objects {on : Surroundings} {t : Limits} (hc : on.call.Safe t) :
    (objects on).Correct t where
  spec := ObjectOp.spec_act hc
  answers := ObjectOp.answers
  aside hg hg' := World.HasShapes.aside hg.sound.counted.proper hg'.sound.counted.proper

/-- The objects and classes of a world. -/
def World.shapes (w : World) : Shapes where
  objects id :=
    match w.heap.payload? id with
    | some (.object table classLink) => (table, classLink)
    | _ => ([], none)
  methods id := ((w.heap.payload? id).map Payload.methods).getD []

theorem World.hasShapes (w : World) : w.HasShapes w.shapes := by
  refine ⟨fun id table classLink hp => ?_, fun id p hp => ?_, fun id hid => ?_⟩
  · simp only [shapes, hp]
  · simp only [shapes, hp, Option.map_some, Option.getD_some]
  · cases hp : w.heap.payload? id with
    | none => simp only [shapes, hp, Option.map_none, Option.getD_none]
    | some p => exact absurd (Heap.lt_next_of_payload? hp) (Nat.not_lt.mpr hid)

namespace Shapes

variable (s : Shapes) (id : CellId) (key : String) (v : Slot)

/-- What a write leaves: the value under its key, and everything else. -/
theorem get?_putProperty (x : CellId) (other : String) :
    ((s.putProperty id key v).objects x).1.get? other =
      if x = id ∧ other = key then some v else (s.objects x).1.get? other := by
  by_cases hx : x = id
  · have hobject : (s.putProperty id key v).objects id =
        ((s.objects id).1.put key v, (s.objects id).2) := Function.update_self _ _ _
    rw [hx, hobject]
    by_cases hother : other = key
    · rw [if_pos ⟨rfl, hother⟩, hother]
      exact Table.get?_put_self _ key v
    · rw [if_neg fun h => hother h.2]
      exact Table.get?_put_of_ne _ v hother
  · have hobject : (s.putProperty id key v).objects x = s.objects x := Function.update_of_ne hx _ _
    rw [hobject, if_neg fun h => hx h.1]

/-- A method of a class is there at once for every instance that has no such property. -/
theorem member_putClass (c : CellId) :
    (s.putClass c ((s.methods c).put key v)).member id = fun name =>
      if name = key ∧ (s.objects id).1.get? name = none ∧ (s.objects id).2 = some c then v
      else s.member id name := by
  funext name
  have hobject : (s.putClass c ((s.methods c).put key v)).objects id = s.objects id := rfl
  rw [member, member, hobject]
  cases hown : (s.objects id).1.get? name with
  | some own =>
    rw [if_neg]
    rintro ⟨-, ⟨⟩, -⟩
  | none =>
    cases hlink : (s.objects id).2 with
    | none =>
      rw [if_neg]
      rintro ⟨-, -, ⟨⟩⟩
    | some x =>
      by_cases hx : x = c
      · have hmethods : (s.putClass c ((s.methods c).put key v)).methods c =
            (s.methods c).put key v := Function.update_self _ _ _
        subst hx
        dsimp only
        rw [hmethods]
        by_cases hname : name = key
        · rw [if_pos ⟨hname, rfl, rfl⟩, hname, Table.get?_put_self]
          rfl
        · rw [if_neg fun h => hname h.1, Table.get?_put_of_ne _ v hname]
      · have hmethods : (s.putClass c ((s.methods c).put key v)).methods x = s.methods x :=
          Function.update_of_ne hx _ _
        dsimp only
        rw [hmethods, if_neg fun h => hx (Option.some.inj h.2.2)]

end Shapes

/-- Whatever hosts and scripts do with objects and classes, in any order, every reply is the model's,
and the objects and classes end as the model has them. An operation that is ready is answered. A
literal makes an object of the entries that it comes to, put one after the other. A property that is
put leaves all other keys of all objects and all methods alone, and the keys in their order. A method
that is put is what all instances of the class have from then on, unless they have a property of that
name, and changes nothing else. -/
theorem objects_are_maps (b : Budget) (scope : ScopeId) {t : Limits} {keep keep' : List Slot}
    {m m' : Machine} {log : List (objects (b.surroundings scope)).Entry} (hg : m.Good t keep)
    (h : (objects (b.surroundings scope)).History t keep m log keep' m') :
    let shapes := (objects (b.surroundings scope)).after m.world.shapes log
    m'.Good t keep' ∧ (objects (b.surroundings scope)).Explains m.world.shapes log ∧
      m'.world.HasShapes shapes ∧
      (∀ op : ObjectOp, Over op.needs keep' m'.world.stack → op.Ready m'.world →
        ∃ m₁, op.act (b.surroundings scope) keep'.length m' =
          .done (op.answer m'.world shapes) m₁) ∧
      (∀ (properties : Properties) (keys : List String) (m₁ : Machine),
        properties.eval (b.surroundings scope) [] m' = .done keys m₁ →
        ∃ entries, properties.Collects (b.surroundings scope) [] m' entries keys m₁ ∧
          ∀ s, (ObjectOp.literal keys).next m₁.world s =
            s.putObject m₁.world.heap.next (Table.puts [] entries) none) ∧
      (∀ (s : Shapes) (id : CellId) (key : String) (v : Slot),
        (∀ x other, ((s.putProperty id key v).objects x).1.get? other =
          if x = id ∧ other = key then some v else (s.objects x).1.get? other) ∧
        (∀ x, ((s.putProperty id key v).objects x).2 = (s.objects x).2) ∧
        (s.putProperty id key v).methods = s.methods ∧
        ((s.putProperty id key v).objects id).1.keys =
          if (s.objects id).1.has key then (s.objects id).1.keys
          else (s.objects id).1.keys ++ [key]) ∧
      ∀ (s : Shapes) (c id : CellId) (name key : String) (v : Slot),
        (s.putClass c ((s.methods c).put name v)).objects = s.objects ∧
        (s.putClass c ((s.methods c).put name v)).member id key =
          if key = name ∧ (s.objects id).1.get? key = none ∧ (s.objects id).2 = some c then v
          else s.member id key := by
  intro shapes
  have hcorrect := correct_objects (b.safe_surroundings t scope)
  obtain ⟨hg', hexplains, hshapes⟩ := hcorrect.history hg m.world.hasShapes h
  refine ⟨hg', hexplains, hshapes, fun op hover hready => ?_, fun properties keys m₁ heval => ?_,
    fun s id key v => ?_, fun s c id name key v => ?_⟩
  · obtain ⟨m₁, hrun, -⟩ := hcorrect.answers op hg' hshapes hover hready
    exact ⟨m₁, hrun⟩
  · obtain ⟨entries, hcollects⟩ := properties.collects_of_eval [] m' heval
    have htidy : (b.surroundings scope).call.Tidy := tidy_callNative b.patience b.depth
    have htable := hcollects.puts (b.safe_surroundings t scope) htidy hg' (over_zero.mpr hg'.keeps)
    refine ⟨entries, hcollects, fun s => ?_⟩
    rw [ObjectOp.next, htable]
    rfl
  · have hobject : (s.putProperty id key v).objects id =
        ((s.objects id).1.put key v, (s.objects id).2) := Function.update_self _ _ _
    refine ⟨s.get?_putProperty id key v, fun x => ?_, rfl, ?_⟩
    · by_cases hx : x = id
      · rw [hx, hobject]
      · exact congrArg (·.2) (Function.update_of_ne hx _ s.objects)
    · rw [hobject]
      exact Table.keys_put _ key v
  · exact ⟨rfl, congrFun (s.member_putClass id name v c) key⟩

/-- A host makes an object and sets one of its properties. -/
theorem objects_are_maps_set :
    ∃ (log : List (objects (Budget.standard.surroundings 0)).Entry) (m' : Machine),
      (objects (Budget.standard.surroundings 0)).History ⟨0, False, [], True⟩ []
        ⟨.initial .default, []⟩ log [] m' ∧
      log.map (·.reply) = [.object ⟨some 0⟩, .status (.ok ())] ∧
      ∀ table classLink, m'.world.heap.payload? 0 = some (.object table classLink) →
        table = [("k", .scalar (.number 1))] := by
  let A := objects (Budget.standard.surroundings 0)
  let m₀ : Machine := ⟨.initial .default, []⟩
  let m₁ : Machine := ⟨m₀.world.install (.object [] none), []⟩
  have hg : m₀.Good ⟨0, False, [], True⟩ [] := Machine.good_initial .default False True
  have hunlocked : ∀ id, m₀.world.canWrite (.payload id) = true := fun id => rfl
  have hcreate : A.History ⟨0, False, [], True⟩ [] m₀
      [⟨m₀.world, .createObject, .object ⟨some 0⟩⟩] [] m₁ :=
    .access (over_refl _) ⟨hunlocked, trivial⟩ rfl (.done [] m₁)
  obtain ⟨-, -, -, hnext, -⟩ := objects_are_maps Budget.standard 0 hg hcreate
  have hready : (ObjectOp.set 0 "k" (.number 1)).Ready m₁.world :=
    ⟨hunlocked, ⟨[], none, rfl⟩, by decide, trivial⟩
  obtain ⟨m₂, hset⟩ := hnext (.set 0 "k" (.number 1)) (over_zero.mpr List.nil_suffix) hready
  have hwritten : A.History ⟨0, False, [], True⟩ [] m₁
      [⟨m₁.world, .set 0 "k" (.number 1), .status (.ok ())⟩] [] m₂ :=
    .access (over_zero.mpr List.nil_suffix) hready hset (.done [] m₂)
  have hboth : A.History ⟨0, False, [], True⟩ [] m₀ [⟨m₀.world, .createObject, .object ⟨some 0⟩⟩,
      ⟨m₁.world, .set 0 "k" (.number 1), .status (.ok ())⟩] [] m₂ :=
    .access (over_refl _) ⟨hunlocked, trivial⟩ rfl hwritten
  obtain ⟨-, -, hshapes, -⟩ := objects_are_maps Budget.standard 0 hg hboth
  refine ⟨_, m₂, hboth, rfl, fun table classLink hp => ?_⟩
  exact (congrArg (·.1) (hshapes.objects 0 table classLink hp)).symm

end Enclave
