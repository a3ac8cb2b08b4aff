import Enclave.Proofs.Heap.Shape
import Enclave.Proofs.Host.Blocks
import Enclave.Proofs.Host.Calls
import Enclave.Proofs.Host.Errors

/-! # Tags

Whatever tags came in, what the runtime gives out is tagged with the kind that its cell has. The tag of a
record is read off the cell when the record is made, the cell is then the newest entry, and it still is
when the host has taken the record over.
-/
namespace Enclave

/-- The record is for a cell, under a tag. -/
structure Record.Names (r : Record) (kind : Kind) (id : CellId) : Prop where
  tag : r.kind? = some kind
  isHandle : kind.isHandle = true
  handle : r.handle = some id

/-- If the record is for a cell its tag is the kind of the cell. -/
def Record.Matches (w : World) (r : Record) : Prop :=
  ∀ kind id, r.Names kind id → w.heap.kind? id = some kind

/-- If the value is for a cell its tag is the kind of the cell. -/
def Value.Matches (w : World) (v : Value) : Prop :=
  ∀ kind id, v = .handle kind id → w.heap.kind? id = some kind

namespace World

variable {w : World} {s : Slot} {kind : Kind} {id : CellId}

/-- What is lent has the tags of its cells. -/
theorem matches_lend (w : World) (s : Slot) : (w.lend s).Matches w := by
  rintro kind id ⟨hkind, hhandle, hid⟩
  cases s with
  | scalar v => cases v <;> cases hkind <;> cases hhandle
  | cell x =>
    have hk : some (w.kindOf (.cell x)) = some kind := (Kind.ofCode?_code _).symm.trans hkind
    cases hid
    cases hx : w.heap.kind? id with
    | none =>
      simp only [kindOf, hx] at hk
      cases hk
      cases hhandle
    | some k =>
      simp only [kindOf, hx] at hk
      exact hk

theorem matches_image (hp : w.heap.Proper) (hs : w.Alive s) : (w.image s).Matches w := by
  intro kind id himage
  cases s with
  | scalar v => cases v <;> cases himage
  | cell x =>
    cases himage
    obtain ⟨p, hpayload⟩ := Heap.exists_payload? (hs id rfl)
    simp [kindOf, hp.kind? id, hpayload]

/-- The newest entry is for a cell that was made with the kind. -/
structure Hands (w : World) (kind : Kind) (id : CellId) : Prop where
  made : w.heap.Made id kind
  top : w.top = .cell id

theorem Hands.later {w' : World} (h : w.Hands kind id) (hl : w.heap.Later w'.heap)
    (htop : w'.top = w.top) : w'.Hands kind id :=
  ⟨h.made.later hl, htop.trans h.top⟩

theorem top_settle (w : World) (n : Nat) : (w.settle n).top = w.top := by
  unfold settle
  split
  · rfl
  · rename_i hs
    rw [top, top, hs]
    rfl

theorem Hands.settle (h : w.Hands kind id) (n : Nat) : (w.settle n).Hands kind id :=
  h.later (w.keeps_settle n).later (w.top_settle n)

theorem hands_install (w : World) (p : Payload) : (w.install p).Hands p.kind w.heap.next := by
  refine ⟨Heap.made_of_kind? ?_, rfl⟩
  simp [install, Heap.kind?, Heap.cell?_alloc]

theorem hands_share (h : w.heap.kind? id = some kind) : (w.share (.cell id)).Hands kind id := by
  have halive : w.Alive (.cell id) := by
    rintro _ ⟨⟩
    exact Heap.isLive_of_kind? h
  rw [share_alive halive]
  exact ⟨(Heap.made_of_kind? h).later (Heap.later_retain _ _), rfl⟩

/-- In a counted world the newest entry keeps its cell alive. -/
theorem Hands.kind? (h : w.Hands kind id) (hc : w.heap.Counted w.outside) :
    w.heap.kind? id = some kind :=
  h.made.kind?_eq (isLive_of_stack hc (Act.covers_top w id (by simp [h.top])))

end World

/-- A value for a cell is read from a record for the cell. -/
theorem Value.names_of_ofRecord {r : Record} {kind : Kind} {id : CellId}
    (h : ofRecord r = .ok (.handle kind id)) : r.Names kind id := by
  unfold ofRecord at h
  split at h
  · cases h
  · cases h
  · cases h
  · cases h
  · split at h
    · cases h
    · split at h <;> cases h
  · rename_i k hnull hnumber hbool hstring hkind
    split at h
    · rename_i x hx
      cases h
      refine ⟨hkind, ?_, hx⟩
      cases kind with
      | null => exact absurd rfl hnull
      | number => exact absurd rfl hnumber
      | bool => exact absurd rfl hbool
      | string => exact absurd rfl hstring
      | function | array | object | classDesc | task => rfl
    · cases h

namespace Act

variable {α β : Type} {names : α → Kind → CellId → Prop} {names' : β → Kind → CellId → Prop}

/-- If the act gives out something that is for a cell, the cell is the newest entry, and it was made with
the kind that is the tag. -/
def Hands (x : Act α) (names : α → Kind → CellId → Prop) : Prop :=
  ∀ m a m', x m = .done a m' → ∀ kind id, names a kind id → m'.world.Hands kind id

theorem Hands.after {x : Act α} {f : α → Act β} (hf : ∀ a, Hands (f a) names') :
    Hands (x >>= f) names' := by
  intro m b m' hrun
  obtain ⟨a, m₁, -, hrest⟩ := bind_done_iff.mp hrun
  exact hf a m₁ b m' hrest

theorem Hands.then {x : Act α} {f : α → Act β} (hx : Hands x names)
    (hf : ∀ a m, (∀ kind id, names a kind id → m.world.Hands kind id) → ∀ b m',
      f a m = .done b m' → ∀ kind id, names' b kind id → m'.world.Hands kind id) :
    Hands (x >>= f) names' := by
  intro m b m' hrun
  obtain ⟨a, m₁, hfirst, hrest⟩ := bind_done_iff.mp hrun
  exact hf a m₁ (hx m a m₁ hfirst) b m' hrest

/-- Nothing is given out for a cell. -/
theorem hands_none {x : Act α} (h : ∀ m a m', x m = .done a m' → ∀ kind id, ¬ names a kind id) :
    Hands x names :=
  fun m a m' hrun kind id hname => absurd hname (h m a m' hrun kind id)

/-! ## Records that are given out -/

theorem null_names (kind : Kind) (id : CellId) : ¬ Record.null.Names kind id :=
  fun h => by cases h.handle

theorem hands_giveNothing (status : Bool) : Hands (giveNothing status) (·.record.Names) :=
  hands_none fun m given m' hrun kind id => by
    cases hrun
    exact null_names kind id

theorem hands_giveTop : Hands giveTop (·.record.Names) := by
  intro m given m' hrun kind id hnames
  unfold giveTop at hrun
  rw [bind_done (top_eq m)] at hrun
  cases hs : m.world.top with
  | scalar v =>
    rw [hs] at hrun
    have hscalar : given.record.kind? = some v.kind := by
      cases v <;> cases hrun <;> rfl
    have hkind := Option.some.inj (hscalar.symm.trans hnames.tag)
    have hhandle := hnames.isHandle
    rw [← hkind] at hhandle
    cases v <;> cases hhandle
  | cell x =>
    rw [hs] at hrun
    cases hrun
    have hkind := m.world.matches_lend (.cell x) kind id hnames
    cases hnames.handle
    exact (World.hands_share hkind).settle 1

theorem hands_giveFrom (kind : Kind) (handle : Option CellId) (find : Payload → Option Slot) :
    Hands (giveFrom kind handle find) (·.record.Names) := by
  refine Hands.after fun w => ?_
  split
  · refine Hands.after fun seen => ?_
    split
    · exact hands_giveTop
    · exact hands_giveNothing false
  · exact hands_giveNothing false

/-- Of all that a call held, the entry for its result stays. -/
theorem hands_callFunction (call : Caller) (running : Bool) (handle : Option CellId) (argc : Int)
    (argv : Option (List Record)) (receiver : Option Record) :
    Hands (callFunction call running handle argc argv receiver) (·.record.Names) := by
  refine Hands.after fun w => ?_
  split
  · split
    · exact hands_giveNothing false
    · refine Hands.after fun base => Hands.after fun args => Hands.after fun receivers => ?_
      refine Hands.after fun _ => Hands.after fun callee => Hands.after fun outcome => ?_
      cases outcome with
      | ok u =>
        refine hands_giveTop.then fun given m hm _ m' hrun kind id hnames => ?_
        cases hrun
        exact (hm kind id hnames).settle _
      | error fault => exact Hands.after fun _ => hands_giveNothing false
  · exact hands_giveNothing false

theorem hands_objectGet (handle : Option CellId) (key : Option Text.Bytes) :
    Hands (objectGet handle key) (·.record.Names) := by
  unfold objectGet
  split
  · exact hands_giveFrom _ _ _
  · exact hands_giveNothing false

/-! ## Values -/

/-- What the host takes over stays the newest entry. -/
theorem hands_takeOver {r : Record} {m m' : Machine} {v : Value}
    (hm : ∀ kind id, r.Names kind id → m.world.Hands kind id) (hrun : takeOver r m = .done v m')
    {kind : Kind} {id : CellId} (hv : v = .handle kind id) : m'.world.Hands kind id := by
  cases hread : Value.ofRecord r with
  | error e =>
    unfold takeOver at hrun
    rw [hread] at hrun
    obtain ⟨_, m₁, -, hrest⟩ := bind_done_iff.mp hrun
    obtain ⟨_, m₂, -, hrest⟩ := bind_done_iff.mp hrest
    cases hrest
    cases hv
  | ok u =>
    unfold takeOver at hrun
    rw [hread] at hrun
    obtain ⟨_, m₁, hkeep, hrest⟩ := bind_done_iff.mp hrun
    obtain ⟨_, m₂, hfree, hrest⟩ := bind_done_iff.mp hrest
    cases hrest
    obtain rfl : u = .handle kind id := hv
    cases hkeep
    have hhands := hm kind id (Value.names_of_ofRecord hread)
    cases hblock : r.textBlock? with
    | none =>
      rw [hblock] at hfree
      cases hfree
      exact hhands
    | some block =>
      rw [hblock] at hfree
      cases hfree
      exact hhands.later (.refl _) rfl

/-- What an operation answers with, if it is a value for a cell. -/
def Answers (reply : Except HostError Value) (kind : Kind) (id : CellId) : Prop :=
  reply = .ok (.handle kind id)

theorem Hands.accept {x : Act Given} (hx : Hands x (·.record.Names)) (operation : Operation) :
    Hands (x >>= accept operation) Answers := by
  refine hx.then fun given m hm reply m' hrun kind id hreply => ?_
  obtain ⟨v, m₁, htake, hrest⟩ := bind_done_iff.mp hrun
  by_cases hstatus : given.status = true
  · rw [if_pos hstatus] at hrest
    cases hrest
    exact hands_takeOver hm htake (Except.ok.inj hreply)
  · rw [if_neg hstatus] at hrest
    obtain ⟨_, m₂, -, hrest⟩ := bind_done_iff.mp hrest
    cases hrest
    cases hreply

theorem hands_giveNull : Hands giveNull Answers :=
  hands_none fun m reply m' hrun kind id hreply => by
    cases hrun
    cases hreply

theorem hands_error (e : HostError) : Hands (pure (.error e)) Answers :=
  hands_none fun m reply m' hrun kind id hreply => by
    cases hrun
    cases hreply

theorem Hands.whenOk {check : Except HostError α} {next : α → Act (Except HostError Value)}
    (hn : ∀ a, Hands (next a) Answers) : Hands (whenOk check next) Answers := by
  cases check with
  | ok a => exact hn a
  | error e => exact hands_error e

theorem hands_arrayElement (view : View .array) (index : Nat) :
    Hands (arrayElement view index) Answers := by
  unfold arrayElement
  split
  · split
    · exact (hands_giveFrom _ _ _).accept .arrayGet
    · exact hands_giveNull
  · exact hands_giveNull

theorem hands_keyedValue (view : View .object) (key : String) :
    Hands (keyedValue view key) Answers := by
  unfold keyedValue
  split
  · exact .whenOk fun bytes => (hands_objectGet _ _).accept .objectGet
  · exact hands_giveNull

theorem hands_callView (on : Surroundings) (view : View .function) (args : List Value)
    (receiver : Value) : Hands (callView on view args receiver) Answers := by
  refine .whenOk fun id => .whenOk fun argv => ?_
  split
  · exact hands_error _
  · exact .whenOk fun this => (hands_callFunction _ _ _ _ _ _).accept .functionCall

theorem hands_settledResult (v : Value) :
    Hands (settledResult v) fun result kind id => result = .handle kind id := by
  unfold settledResult
  split
  · refine (hands_giveFrom _ _ _).then fun given m hm result m' hrun kind id hresult => ?_
    exact hands_takeOver hm hrun hresult
  · exact hands_none fun m result m' hrun kind id hresult => by
      cases hrun
      cases hresult

theorem hands_settledTask (v : Value) : Hands (settledTask v) Answers := by
  refine .whenOk fun r m reply m' hrun kind id hreply => ?_
  cases hrun
  cases hreply
  exact World.hands_install _ _

/-! ## Cells that are made -/

/-- If the act leaves a cell for the newest entry, it has made it of the kind. -/
def Makes (x : Act Unit) (kind : Kind) : Prop :=
  ∀ m u m', x m = .done u m' → ∀ id, m'.world.top = .cell id → m'.world.Hands kind id

theorem makes_install (p : Payload) : Makes (change (·.install p)) p.kind := by
  intro m u m' hrun id htop
  cases hrun
  cases htop
  exact World.hands_install _ _

theorem makes_push (v : Scalar) (kind : Kind) : Makes (push v) kind := by
  intro m u m' hrun id htop
  cases hrun
  cases htop

theorem makes_createClass (running : Bool) (name : Option Text.Bytes) :
    Makes (createClass running name) .classDesc := by
  unfold createClass
  split
  · split
    · exact makes_install (.classDesc _ [])
    · exact makes_push .null _
  · exact makes_push .null _

theorem makes_createNative (f : Option NativeFunction) : Makes (createNative f) .function := by
  cases f with
  | none => exact makes_push .null _
  | some f => exact makes_install (.function f)

/-- What is made is seen under its kind. -/
theorem Makes.viewTop {x : Act Unit} {kind : Kind} (hx : Makes x kind) :
    Hands (x >>= fun _ => viewTop kind) fun view k id => view.value = .handle k id := by
  intro m view m' hrun k id hview
  obtain ⟨u, m₁, hmade, hrest⟩ := bind_done_iff.mp hrun
  cases hrest
  cases htop : m'.world.top with
  | scalar v =>
    rw [htop] at hview
    cases hview
  | cell x =>
    rw [htop] at hview
    cases hview
    exact hx m u m' hmade id htop

theorem Makes.viewMade {x : Act Unit} {kind : Kind} (hx : Makes x kind) :
    Hands (x >>= fun _ => viewMade kind) fun reply k id =>
      ∃ view, reply = .ok view ∧ view.value = .handle k id := by
  intro m reply m' hrun k id hreply
  obtain ⟨view, rfl, hview⟩ := hreply
  obtain ⟨u, m₁, hmade, hrest⟩ := bind_done_iff.mp hrun
  unfold Act.viewMade at hrest
  obtain ⟨seen, m₂, hseen, hrest⟩ := bind_done_iff.mp hrest
  cases hseen
  cases htop : m₁.world.top with
  | scalar v =>
    rw [htop] at hrest
    obtain ⟨_, m₂, -, hrest⟩ := bind_done_iff.mp hrest
    cases hrest
  | cell x =>
    rw [htop] at hrest
    cases hrest
    cases hview
    exact hx m u _ hmade id htop

theorem hands_createClosure (base : Nat) (label : Option String) (captured : List Value)
    (body : HostFunction) :
    Hands (createClosure base label captured body) fun view k id => view.value = .handle k id :=
  Hands.after fun i => (makes_createNative (some (.closure (some i)))).viewTop

/-- The elements of an array have the tags of their cells, all at once. -/
theorem matches_arrayElements {m m' : Machine} {id : CellId} {elements : Array Slot} {n : Nat}
    {reply : Except HostError (List Value)} (hp : m.world.heap.Proper)
    (hv : m.world.visible? id = some (.array elements)) (hn : n ≤ maxCount)
    (hrun : arrayElements ⟨some id⟩ 0 n m = .done reply m') :
    ∀ vs, reply = .ok vs → ∀ v ∈ vs, v.Matches m'.world := by
  have hread : Turns m .none (arrayElements ⟨some id⟩ 0 n) _ :=
    turns_arrayElements hp hv 0 n (by omega)
  obtain ⟨_, g, m₁, hrun', hgains, rfl⟩ := hread.run
  rw [hrun'] at hrun
  cases hrun
  rintro _ ⟨⟩ v hmem kind x hx
  obtain ⟨i, -, rfl⟩ := List.mem_map.mp hmem
  have halive : m.world.Alive (elements[i]?.getD .null) :=
    World.alive_found_visible hp hv fun s hs => Array.mem_toList_iff.mpr (Array.mem_of_getElem? hs)
  rw [hgains.heap.kind?]
  exact World.matches_image hp halive kind x hx

theorem matches_arrayToList {m m' : Machine} {view : View .array} {vs : List Value}
    (hp : m.world.heap.Proper)
    (hrun : (viewLength view >>= arrayElements view 0) m = .done (.ok vs) m') :
    ∀ v ∈ vs, v.Matches m'.world := by
  obtain ⟨n, m₁, hlength, hrest⟩ := bind_done_iff.mp hrun
  have hempty : n = 0 → ∀ v ∈ vs, v.Matches m'.world := by
    rintro rfl v hmem
    cases hrest
    cases hmem
  obtain ⟨handle⟩ := view
  cases handle with
  | none =>
    cases hlength
    exact hempty rfl
  | some id =>
    obtain ⟨rfl, hzero | ⟨x, elements, hx, hv, hn⟩⟩ := arrayLength_cases hlength
    · exact hempty hzero
    · cases hx
      have hcount : n ≤ maxCount := hn ▸ Nat.min_le_right _ _
      exact matches_arrayElements hp hv hcount hrest vs rfl

end Act

/-! ## Replies -/

namespace HostOperation

open Act

/-- The values that the runtime gives out in reply to an operation. What a host gets back of its own is
not among them: a clone or a view of a value, or a value that it kept. -/
def given : (o : HostOperation) → o.Result → List Value
  | request (.createClass _), reply => reply.toOption.toList.map View.value
  | request .createObject, view => [view.value]
  | request .createArray, view => [view.value]
  | request (.createTask _), reply => reply.toOption.toList
  | request (.taskResult _), v => [v]
  | request (.arrayGet _ _), reply => reply.toOption.toList
  | request (.arrayToList _), reply => reply.toOption.getD []
  | request (.objectGet _ _), reply => reply.toOption.toList
  | request (.call _ _ _), reply => reply.toOption.toList
  | createFunction _ _ _, view => [view.value]
  | _, _ => []

variable {t : Limits} {keep : List Slot} {m m' : Machine} {on : Surroundings}

theorem good_act (hc : on.call.Safe t) (hg : m.Good t keep) (o : HostOperation) {reply : o.Result}
    (h : o.act on keep.length m = .done reply m') : m'.Good t keep := by
  have hover := over_zero.mpr hg.keeps
  cases o with
  | request r =>
    have hspec : Spec t False keep (Over 0 keep) (perform on keep.length r) _ := over_perform hc r
    exact (hspec.after hg hover h).1
  | register name label captured body =>
    have hspec : Spec t False keep (Over 0 keep)
      (registerClosure on keep.length name label captured body) _ := over_registerClosure _ _ _ _
    exact (hspec.after hg hover h).1
  | createFunction label captured body =>
    have hspec : Spec t False keep (Over 0 keep) (createClosure keep.length label captured body) _ :=
      over_createClosure _ _ _
    exact (hspec.after hg hover h).1

/-- Whatever a host passes, the values that it is given have the tags of their cells. -/
theorem matches_given (hc : on.call.Safe t) (hg : m.Good t keep) (o : HostOperation)
    {reply : o.Result} (h : o.act on keep.length m = .done reply m') :
    ∀ v ∈ o.given reply, v.Matches m'.world := by
  have hcounted := (o.good_act hc hg h).sound.counted
  have hanswers : ∀ {x : Act (Except HostError Value)} {reply : Except HostError Value},
      Hands x Answers → x m = .done reply m' → ∀ v ∈ reply.toOption.toList, v.Matches m'.world := by
    intro x reply hx hrun v hmem kind id hv
    cases reply with
    | error e => cases hmem
    | ok u =>
      obtain rfl : v = u := by simpa [Except.toOption] using hmem
      exact (hx m _ m' hrun kind id (congrArg Except.ok hv)).kind? hcounted
  have hmade : ∀ {k : Kind} {x : Act (View k)} {view : View k},
      (Hands x fun view kind id => view.value = .handle kind id) → x m = .done view m' →
        ∀ v ∈ [view.value], v.Matches m'.world := by
    intro k x view hx hrun v hmem kind id hv
    obtain rfl := List.mem_singleton.mp hmem
    exact (hx m _ m' hrun kind id hv).kind? hcounted
  cases o with
  | request r =>
    cases r with
    | createClass name =>
      intro v hmem kind id hv
      obtain ⟨view, hview, rfl⟩ := List.mem_map.mp hmem
      obtain rfl : reply = .ok view := by
        cases reply with
        | error e => cases hview
        | ok u => exact congrArg Except.ok (by simpa [Except.toOption, eq_comm] using hview)
      cases hname : sentText name with
      | error e =>
        have hrun : whenOk (sentText name) _ m = .done (Except.ok view) m' := h
        rw [hname] at hrun
        cases hrun
      | ok bytes =>
        have hrun : whenOk (sentText name) _ m = .done (Except.ok view) m' := h
        rw [hname] at hrun
        exact ((makes_createClass true (some bytes)).viewMade m _ m' hrun kind id
          ⟨view, rfl, hv⟩).kind? hcounted
    | createObject => exact hmade (makes_install (.object [] none)).viewTop h
    | createArray => exact hmade (makes_install (.array #[])).viewTop h
    | createTask v => exact hanswers (hands_settledTask v) h
    | taskResult v =>
      intro u hmem kind id hu
      obtain rfl := List.mem_singleton.mp hmem
      exact (hands_settledResult v m _ m' h kind id hu).kind? hcounted
    | arrayGet view index => exact hanswers (hands_arrayElement view index) h
    | objectGet view key => exact hanswers (hands_keyedValue view key) h
    | call view args receiver => exact hanswers (hands_callView on view args receiver) h
    | arrayToList view =>
      intro v hmem
      cases reply with
      | error e => cases hmem
      | ok vs => exact matches_arrayToList hg.sound.counted.proper h v hmem
    | _ => exact fun v hmem => by cases hmem
  | register name label captured body => exact fun v hmem => by cases hmem
  | createFunction label captured body => exact hmade (hands_createClosure _ _ _ _) h

end HostOperation

/-! ## Callbacks -/

section Callbacks

variable {w : World} {r : Record} {p : Passed} {args : List Value} {this : Value} {limit : Nat}

/-- A value has the tag of the record that it is read from. -/
theorem Record.Matches.read {v : Value} (hr : r.Matches w) (h : Value.ofRecord r = .ok v) :
    v.Matches w := by
  rintro kind id rfl
  exact hr kind id (Value.names_of_ofRecord h)

/-- What a callback gets has the tags of the records that are passed. -/
theorem Passed.Reads.matches (h : p.Reads limit args this)
    (hp : ∀ r ∈ p.records ++ p.receiver.toList, r.Matches w) : ∀ v ∈ this :: args, v.Matches w := by
  refine List.forall_mem_cons.mpr ⟨?_, fun v hv => ?_⟩
  · cases hreceiver : p.receiver with
    | none =>
      have hthis := h.receiver
      rw [hreceiver] at hthis
      cases hthis
      intro kind id hv
      cases hv
    | some r =>
      have hthis := h.receiver
      rw [hreceiver] at hthis
      exact (hp r (by simp [hreceiver])).read hthis
  · have hmem : .ok v ∈ p.records.map Value.ofRecord := h.args ▸ List.mem_map_of_mem hv
    obtain ⟨r, hr, hread⟩ := List.mem_map.mp hmem
    exact (hp r (List.mem_append_left _ hr)).read hread

/-- Whatever is lent can be read, also if it names a cell that is there no more. -/
theorem World.readable_lend (hp : w.heap.Proper) (s : Slot) :
    ∃ v, Value.ofRecord (w.lend s) = .ok v := by
  cases s with
  | scalar v => exact ⟨_, Value.ofRecord_lend hp (World.alive_scalar v)⟩
  | cell id =>
    by_cases hlive : w.heap.isLive id = true
    · have halive : w.Alive (.cell id) := by
        rintro _ ⟨⟩
        exact hlive
      exact ⟨_, Value.ofRecord_lend hp halive⟩
    · have hkind : w.heap.kind? id = none := by
        cases hk : w.heap.kind? id with
        | none => rfl
        | some k => exact absurd (Heap.isLive_of_kind? hk) hlive
      exact ⟨.null, by simp [World.lend, World.kindOf, hkind]; rfl⟩

/-- So a call that lends slots can be read if they are not too many. -/
theorem World.exists_reads (hp : w.heap.Proper) (slots : List Slot) (receiver : Option Slot)
    (hn : slots.length ≤ limit) :
    ∃ args this, (Act.lending w slots receiver).Reads limit args this := by
  have hrecords : (Act.lending w slots receiver).records = slots.map w.lend := by
    change (slots.map w.lend).take slots.length = _
    rw [List.take_of_length_le (by rw [List.length_map])]
  choose value hvalue using World.readable_lend hp
  refine ⟨slots.map value, (receiver.map value).getD .null, ?_, ?_, ?_⟩
  · exact ⟨by simp [Act.lending], by simpa [Act.lending] using hn, fun h => by cases h⟩
  · rw [hrecords, List.map_map, List.map_map]
    exact List.map_congr_left fun s _ => hvalue s
  · cases receiver with
    | none => rfl
    | some s => exact hvalue s

end Callbacks

/-! ## Entry points -/

namespace Call

open Act

variable {t : Limits} {keep : List Slot} {m m' : Machine} {on : Surroundings} {verdict : Verdict}

theorem out_judged {α : Type} {accepted : α → Bool} {x : Act α}
    (h : judged accepted (fun _ => none) x m = .done verdict m') : verdict.out = none := by
  obtain ⟨a, m₁, -, hrest⟩ := bind_done_iff.mp h
  cases hrest
  rfl

theorem matches_judgedGiven {x : Act Given} {out : Bool} (hx : Hands x (·.record.Names))
    (hs : Shifts t False 0 x fun _ => 1) (hg : m.Good t keep)
    (h : judgedGiven out x m = .done verdict m') :
    ∀ r, verdict.out = some r → r.Matches m'.world := by
  obtain ⟨given, m₁, hgive, hrest⟩ := bind_done_iff.mp h
  cases out with
  | false =>
    cases hrest
    rintro r ⟨⟩
  | true =>
    cases hrest
    rintro r ⟨⟩ kind id hnames
    obtain ⟨hg', -⟩ := (hs keep).after hg (over_zero.mpr hg.keeps) hgive
    exact (hx m given m' hgive kind id hnames).kind? hg'.sound.counted

/-- Whatever comes in at an entry point, the record that is given out has the tag of its cell. -/
theorem matches_out (hc : on.call.Safe t) (hg : m.Good t keep) (c : Call)
    (h : c.act on keep.length m = .done verdict m') :
    ∀ r, verdict.out = some r → r.Matches m'.world := by
  cases c with
  | arrayGet handle index out =>
    exact matches_judgedGiven (hands_giveFrom _ _ _) (shifts_arrayGet handle index) hg h
  | objectGet handle key out =>
    exact matches_judgedGiven (hands_objectGet handle key) (shifts_objectGet handle key) hg h
  | callFunction running handle argc argv receiver out =>
    exact matches_judgedGiven (hands_callFunction _ _ _ _ _ _) (shifts_callFunction hc _ _ _ _ _) hg h
  | taskResult handle out =>
    exact matches_judgedGiven (hands_giveFrom _ _ _) (shifts_taskResult handle) hg h
  | _ =>
    intro r hr
    rw [out_judged h] at hr
    cases hr

/-- The cell that a call is about, and the kind of cells that the call is for. -/
def target? : Call → Option (Kind × CellId)
  | addMethod handle _ => handle.map (.classDesc, ·)
  | arrayLength handle | arrayGet handle _ _ | arraySet handle _ _ | arrayPush handle _ =>
    handle.map (.array, ·)
  | objectHas handle _ | objectGet handle _ _ | objectSet handle _ _ => handle.map (.object, ·)
  | callFunction _ handle _ _ _ _ => handle.map (.function, ·)
  | taskResult handle _ => handle.map (.task, ·)
  | _ => none

/-- The call without a handle for the cell that it is about. -/
def untargeted : Call → Call
  | addMethod _ name => addMethod none name
  | arrayLength _ => arrayLength none
  | arrayGet _ index out => arrayGet none index out
  | arraySet _ index v => arraySet none index v
  | arrayPush _ v => arrayPush none v
  | objectHas _ key => objectHas none key
  | objectGet _ key out => objectGet none key out
  | objectSet _ key v => objectSet none key v
  | callFunction running _ argc argv receiver out => callFunction running none argc argv receiver out
  | taskResult _ out => taskResult none out
  | c => c

/-- A call whose cell is not of the kind that it is for does what it does without one. -/
theorem act_untargeted (on : Surroundings) (base : Nat) {c : Call} {kind : Kind} {id : CellId}
    (ht : c.target? = some (kind, id)) (hk : m.world.heap.kind? id ≠ some kind) :
    c.act on base m = c.untargeted.act on base m := by
  have hnone : m.world.cellOf? kind (some id) = none := by simp [World.cellOf?, hk]
  have hgive : ∀ find, giveFrom kind (some id) find m = giveFrom kind none find m := fun find => by
    unfold giveFrom
    rw [bind_done (world_eq m), bind_done (world_eq m), hnone]
    rfl
  have hstore : ∀ v exchange, storeInto kind (some id) v exchange m = storeInto kind none v exchange m :=
    fun v exchange => by
      unfold storeInto
      rw [bind_done (world_eq m), bind_done (world_eq m), hnone]
      rfl
  cases c with
  | addMethod handle name =>
    obtain ⟨_, rfl, ⟨⟩⟩ := Option.map_eq_some_iff.mp ht
    refine bind_congr ?_
    unfold Act.addMethod
    rw [bind_done (top_eq m), bind_done (top_eq m), bind_done (world_eq m), bind_done (world_eq m),
      hnone]
    rfl
  | arrayLength handle =>
    obtain ⟨_, rfl, ⟨⟩⟩ := Option.map_eq_some_iff.mp ht
    refine bind_congr ?_
    unfold Act.arrayLength
    rw [bind_done (world_eq m), bind_done (world_eq m), hnone]
    rfl
  | arrayGet handle index out =>
    obtain ⟨_, rfl, ⟨⟩⟩ := Option.map_eq_some_iff.mp ht
    exact bind_congr (hgive _)
  | arraySet handle index v =>
    obtain ⟨_, rfl, ⟨⟩⟩ := Option.map_eq_some_iff.mp ht
    refine bind_congr ?_
    unfold Act.arraySet
    split
    · rfl
    · exact hstore _ _
  | arrayPush handle v =>
    obtain ⟨_, rfl, ⟨⟩⟩ := Option.map_eq_some_iff.mp ht
    exact bind_congr (hstore _ _)
  | objectHas handle key =>
    obtain ⟨_, rfl, ⟨⟩⟩ := Option.map_eq_some_iff.mp ht
    refine bind_congr ?_
    unfold Act.objectHas
    rw [bind_done (world_eq m), bind_done (world_eq m), hnone]
    rfl
  | objectGet handle key out =>
    obtain ⟨_, rfl, ⟨⟩⟩ := Option.map_eq_some_iff.mp ht
    refine bind_congr ?_
    unfold Act.objectGet
    split
    · exact hgive _
    · rfl
  | objectSet handle key v =>
    obtain ⟨_, rfl, ⟨⟩⟩ := Option.map_eq_some_iff.mp ht
    refine bind_congr ?_
    unfold Act.objectSet
    split
    · exact hstore _ _
    · rfl
  | callFunction running handle argc argv receiver out =>
    obtain ⟨_, rfl, ⟨⟩⟩ := Option.map_eq_some_iff.mp ht
    refine bind_congr ?_
    unfold Act.callFunction
    rw [bind_done (world_eq m), bind_done (world_eq m), hnone]
    rfl
  | taskResult handle out =>
    obtain ⟨_, rfl, ⟨⟩⟩ := Option.map_eq_some_iff.mp ht
    exact bind_congr (hgive _)
  | _ => cases ht

end Call

/-- What is no object has no keys. -/
theorem Act.objectKeys_untargeted {m : Machine} {id : CellId} (hk : m.world.heap.kind? id ≠ some .object) :
    objectKeys (some id) m = objectKeys none m := by
  have hnone : m.world.cellOf? .object (some id) = none := by simp [World.cellOf?, hk]
  unfold objectKeys
  rw [bind_done (world_eq m), bind_done (world_eq m), hnone]
  rfl

end Enclave
