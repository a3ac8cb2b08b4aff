import Enclave.Host.Native
import Enclave.Proofs.Boundary.Stored
import Enclave.Proofs.Boundary.Tidy

/-! # Host code is tidy

What host code asks for gives back every text block that it took out, and it starts and ends with no
access in progress. A call owes the block of its answer, which the runtime gives back when it takes the
answer over. By induction on host code for one call, and on the depth for calls inside one another.
-/
namespace Enclave.Act

variable {α β : Type} {rules : Rules} {held : List Guard} {due : List Nat} {on : Surroundings}

/-! ## Values and records -/

theorem tidy_clearScalar (v : Value) : Tidy rules held due (clearScalar v) fun _ => due := by
  unfold clearScalar
  split
  · exact tidy_drop.bind fun _ => tidy_push _
  · exact .pure _ rfl

theorem tidy_keepScalar (v : Value) : Tidy rules held due (keepScalar v) fun _ => due := by
  unfold keepScalar
  split
  · exact tidy_drop.bind fun _ => tidy_push _
  · exact .pure _ rfl

theorem tidy_copyRecord (r : Record) : Neat rules held (copyRecord r) := by
  unfold copyRecord
  split
  · exact (tidy_share _).bind fun _ => .pure _ rfl
  · exact .pure _ rfl

/-- What was given out is taken over together with its block. -/
theorem tidy_takeOver (r : Record) :
    Tidy rules held r.textBlock?.toList (takeOver r) fun _ => [] :=
  (tidy_keepScalar _).bind fun _ => (tidy_freeText _).bind fun _ => .pure _ rfl

theorem tidy_handOver (v : Value) : Neat rules held (handOver v) := by
  unfold handOver
  split
  · exact (tidy_clearScalar v).bind fun _ => .pure _ rfl
  · exact tidy_dropThen _

theorem tidy_resultRecord (v : Value) :
    Tidy rules held [] (resultRecord v) fun r => r.textBlock?.toList := by
  cases v with
  | scalar v =>
    cases v with
    | string s =>
      exact (tidy_allocText s).map fun t => by rw [Record.textBlock?_ofText]
    | null | number | bool => exact .pure _ rfl
  | handle kind id =>
    refine .pure _ ?_
    rw [Record.textBlock?_of_text rfl, Option.toList_none]

theorem tidy_handBack (v : Value) :
    Tidy rules held [] (handBack v) fun r => r.textBlock?.toList :=
  (tidy_resultRecord v).bind fun _ => (tidy_clearScalar v).bind fun _ => .pure _ rfl

/-! ## Views and replies -/

theorem tidy_viewTop (kind : Kind) : Neat rules held (viewTop kind) :=
  tidy_top fun _ => .pure _ rfl

theorem tidy_viewMade (kind : Kind) : Neat rules held (viewMade kind) := by
  refine (tidy_viewTop kind).bind fun view => ?_
  split
  · exact .pure _ rfl
  · exact tidy_dropThen _

theorem tidy_viewTaken (kind : Kind) (v : Value) : Neat rules held (viewTaken kind v) := by
  unfold viewTaken
  split
  · exact .pure _ rfl
  · exact tidy_dropThen _

theorem tidy_viewOf (kind : Kind) (v : Value) : Neat rules held (viewOf kind v) :=
  (tidy_share _).bind fun _ => tidy_viewTaken kind v

theorem tidy_accept (operation : Operation) (given : Given) :
    Tidy rules held given.due (accept operation given) fun _ => [] := by
  refine (tidy_takeOver _).bind fun v => ?_
  split
  · exact .pure _ rfl
  · exact tidy_dropThen _

theorem tidy_confirm (operation : Operation) (status : Bool) :
    Neat rules held (confirm operation status) :=
  .pure _ rfl

theorem tidy_giveNull : Neat rules held giveNull :=
  (tidy_push _).bind fun _ => .pure _ rfl

theorem tidy_whenOk {next : α → Act (Except HostError β)}
    (hn : ∀ a, Neat rules held (next a)) (check : Except HostError α) :
    Neat rules held (whenOk check next) := by
  cases check with
  | ok a => exact hn a
  | error e => exact .pure _ rfl

theorem tidy_whenTaken {next : α → Act (Except HostError β)}
    (hn : ∀ a, Neat rules held (next a)) (base : Nat) (taken : List Slot)
    (check : Except HostError α) : Neat rules held (whenTaken base taken check next) := by
  cases check with
  | ok a => exact hn a
  | error e => exact (Tidy.change (.discardAll base taken)).bind fun _ => .pure _ rfl

/-! ## Operations -/

theorem tidy_engineRun (hc : on.call.Conducts rules) (code : String) :
    Neat rules [] (engineRun on code) := by
  refine tidy_whenOk (fun bytes => (tidy_runText hc true _).bind fun text => ?_) _
  cases text with
  | some t => exact (tidy_freeText t.block).bind fun _ => .pure _ rfl
  | none => exact .pure _ rfl

theorem tidy_declareTop (name : String) (v : Value) :
    Neat rules [] (declareTop on name v) := by
  unfold declareTop
  split
  · exact tidy_dropThen _
  · refine (tidy_handOver v).bind fun handed => ?_
    cases handed with
    | error e => exact .pure _ rfl
    | ok r => exact (tidy_declareGlobal _ _ _ _).bind fun _ => tidy_confirm _ _

theorem tidy_arrayElement (view : View .array) (index : Nat) :
    Neat rules [] (arrayElement view index) := by
  unfold arrayElement
  split
  · split
    · exact (tidy_arrayGet _ _).bind fun given => tidy_accept _ given
    · exact tidy_giveNull
  · exact tidy_giveNull

theorem tidy_arrayElements (view : View .array) (index count : Nat) :
    Neat rules [] (arrayElements view index count) := by
  induction count generalizing index with
  | zero =>
    rw [arrayElements]
    exact .pure _ rfl
  | succ count ih =>
    rw [arrayElements]
    refine (tidy_arrayElement view index).bind fun element => ?_
    cases element with
    | error e => exact .pure _ rfl
    | ok v => exact (ih _).bind fun rest => .pure _ rfl

theorem tidy_viewLength (view : View .array) : Neat rules [] (viewLength view) := by
  unfold viewLength
  split
  · exact tidy_arrayLength _
  · exact .pure _ rfl

theorem tidy_writeElement (view : View .array) (index : Nat) (v : Value) :
    Neat rules [] (writeElement view index v) := by
  refine tidy_whenOk (fun id => ?_) _
  split
  · exact tidy_whenOk (fun r => (tidy_arraySet _ _ _).bind fun _ => tidy_confirm _ _) _
  · exact .pure _ rfl

theorem tidy_appendElement (view : View .array) (v : Value) :
    Neat rules [] (appendElement view v) :=
  tidy_whenOk (fun _ => tidy_whenOk (fun _ => (tidy_arrayPush _ _).bind fun _ =>
    tidy_confirm _ _) _) _

theorem tidy_hasKey (view : View .object) (key : String) :
    Neat rules [] (hasKey view key) := by
  unfold hasKey
  split
  · exact tidy_objectHas _ _
  · exact .pure _ rfl

theorem tidy_keyedValue (view : View .object) (key : String) :
    Neat rules [] (keyedValue view key) := by
  unfold keyedValue
  split
  · exact tidy_whenOk (fun _ => (tidy_objectGet _ _).bind fun given => tidy_accept _ given) _
  · exact tidy_giveNull

theorem tidy_writeKeyed (view : View .object) (key : String) (v : Value) :
    Neat rules [] (writeKeyed view key v) :=
  tidy_whenOk (fun _ => tidy_whenOk (fun _ => tidy_whenOk (fun _ =>
    (tidy_objectSet _ _ _).bind fun _ => tidy_confirm _ _) _) _) _

theorem tidy_ownKeys (view : View .object) : Neat rules [] (ownKeys view) := by
  unfold ownKeys
  split
  · exact (tidy_objectKeys _).bind fun t => (tidy_freeText t.block).bind fun _ => .pure _ rfl
  · exact .pure _ rfl

theorem tidy_callView (hc : on.call.Conducts rules) (view : View .function) (args : List Value)
    (receiver : Value) : Neat rules [] (callView on view args receiver) := by
  refine tidy_whenOk (fun id => tidy_whenOk (fun argv => ?_) _) _
  split
  · exact .pure _ rfl
  · refine tidy_whenOk (fun this => ?_) _
    exact (tidy_callFunction hc _ _ _ _ _).bind fun given => tidy_accept _ given

theorem tidy_installMethod (base : Nat) (view : View .classDesc) (name : String)
    (method : View .function) : Neat rules [] (installMethod base view name method) := by
  refine tidy_whenTaken (fun id => tidy_whenTaken (fun bytes => tidy_whenTaken (fun f => ?_)
    _ _ _) _ _ _) _ _ _
  refine (Tidy.change (.secure base _)).bind fun _ => ?_
  exact (tidy_addMethod _ _).bind fun _ => tidy_confirm _ _

theorem tidy_settledResult (v : Value) : Neat rules [] (settledResult v) := by
  unfold settledResult
  split
  · exact (tidy_taskResult _).bind fun given => tidy_takeOver _
  · exact (tidy_push _).bind fun _ => .pure _ rfl

theorem tidy_settledTask (v : Value) : Neat rules [] (settledTask v) :=
  tidy_whenOk (fun _ => (tidy_createTask _).bind fun _ => tidy_top fun _ => .pure _ rfl) _

theorem tidy_bindingCount : Neat rules [] bindingCount :=
  .surely (World.compatible_nil _) (.look (fun _ => .pure _ rfl) fun _ _ => rfl)

/-! ## Requests -/

theorem tidy_perform (hc : on.call.Conducts rules) (base : Nat) (r : Request) :
    Neat rules [] (perform on base r) := by
  cases r with
  | clone v => exact (tidy_share _).bind fun _ => .pure _ rfl
  | drop v => exact .change (.discard base _)
  | keep v => exact (Tidy.change (.secure base _)).bind fun _ => .change .keep
  | retrieve kind n =>
    exact (Tidy.change (.retrieve n)).bind fun _ => tidy_top fun _ => .pure _ rfl
  | view kind v => exact tidy_viewOf kind v
  | run code => exact tidy_engineRun hc code
  | bindingCount => exact tidy_bindingCount
  | createClass name =>
    exact tidy_whenOk (fun _ => (tidy_createClass _ _).bind fun _ => tidy_viewMade _) _
  | createObject => exact (Tidy.change .installObject).bind fun _ => tidy_viewTop _
  | createArray => exact (Tidy.change .installArray).bind fun _ => tidy_viewTop _
  | createTask v => exact tidy_settledTask v
  | taskResult v => exact tidy_settledResult v
  | declareCopy name v => exact (tidy_share _).bind fun _ => tidy_declareTop name v
  | declareMove name v =>
    exact (Tidy.change (.secure base _)).bind fun _ => tidy_declareTop name v
  | arrayLength view => exact tidy_viewLength view
  | arrayGet view index => exact tidy_arrayElement view index
  | arraySet view index v => exact tidy_writeElement view index v
  | arrayPush view v => exact tidy_appendElement view v
  | arrayToList view =>
    exact (tidy_viewLength view).bind fun n => tidy_arrayElements view 0 n
  | objectHas view key => exact tidy_hasKey view key
  | objectGet view key => exact tidy_keyedValue view key
  | objectSet view key v => exact tidy_writeKeyed view key v
  | objectKeys view => exact tidy_ownKeys view
  | call view args receiver => exact tidy_callView hc view args receiver
  | addMethod view name method => exact tidy_installMethod base view name method

theorem tidy_bindClosure (base : Nat) (label : Option String) (captured : List Value)
    (body : HostFunction) : Neat rules [] (bindClosure base label captured body) := by
  refine (Tidy.change (.secureAll base _)).bind fun _ => .look (fun w => ?_) fun _ _ => rfl
  refine (Tidy.surely (World.compatible_nil _) (.change (.bind label _ body))).bind fun _ => ?_
  exact .pure _ rfl

/-- When all that a closure captures is secured the closure is bound at the next place. -/
theorem bindClosure_run {base place : Nat} {label : Option String} {captured : List Value}
    {body : HostFunction} {m m' : Machine}
    (h : bindClosure base label captured body m = .done place m') :
    let secured := m.world.secureAll base 0 (captured.map Value.slot)
    place = secured.engine.bindings.size ∧
      m' = { m with world := secured.bind label (captured.map Value.kind) body } := by
  obtain ⟨_, m₁, hsecure, h⟩ := bind_done_iff.mp h
  cases hsecure
  obtain ⟨_, m₁, hworld, h⟩ := bind_done_iff.mp h
  cases hworld
  obtain ⟨_, m₁, hbind, h⟩ := bind_done_iff.mp h
  cases h
  rw [surely_change (fun w => by simp [World.bind, World.guard, World.unguard, World.newest])]
    at hbind
  split at hbind
  · cases hbind
    exact ⟨rfl, rfl⟩
  · cases hbind

/-- A closure is at its place as soon as it is bound. -/
theorem bindClosure_place {base place : Nat} {label : Option String} {captured : List Value}
    {body : HostFunction} {m m' : Machine}
    (h : bindClosure base label captured body m = .done place m') :
    place < m'.world.engine.bindings.size := by
  obtain ⟨rfl, rfl⟩ := bindClosure_run h
  simp [World.bind]

/-- A function cell for a closure that is bound is made at a place that there is. -/
theorem createNative_bound {place : Nat} {m : Machine}
    (h : place < m.world.engine.bindings.size) :
    createNative (some (.closure (some place))) m =
      change (World.only (World.Provides (.closure (some place)))
        (·.allocFunction (.closure (some place)))) m := by
  have hprovides : World.Provides (.closure (some place)) m.world := fun i hi => by
    cases hi
    exact h
  exact change_only hprovides (·.allocFunction (.closure (some place)))

theorem tidy_registerClosure (base : Nat) (name : String) (label : Option String)
    (captured : List Value) (body : HostFunction) :
    Neat rules [] (registerClosure on base name label captured body) := by
  refine tidy_whenTaken (fun bytes => ?_) _ _ _
  have hbound : (bindClosure base label captured body >>= fun i =>
      registerNative on.scope true (some bytes) (some (.closure (some i))) >>= fun status =>
        confirm .register status) =
      bindClosure base label captured body >>= fun i =>
        (change (World.only (World.Provides (.closure (some i)))
            (·.allocFunction (.closure (some i)))) >>= fun _ =>
          declare on.scope (readText bytes) >>= fun _ => pure true) >>= fun status =>
        confirm .register status := by
    funext m
    refine bind_congr_done fun i m' h => ?_
    exact bind_congr (bind_congr (createNative_bound (bindClosure_place h)))
  rw [hbound]
  refine (tidy_bindClosure base label captured body).bind fun i => ?_
  refine Neat.bind ?_ fun status => tidy_confirm _ _
  refine (Tidy.change (.allocFunction _)).bind fun _ => ?_
  exact (tidy_declare _ _).bind fun _ => .pure _ rfl

theorem tidy_createClosure (base : Nat) (label : Option String) (captured : List Value)
    (body : HostFunction) : Neat rules [] (createClosure base label captured body) := by
  have hbound : createClosure base label captured body =
      bindClosure base label captured body >>= fun i =>
        change (World.only (World.Provides (.closure (some i)))
          (·.allocFunction (.closure (some i)))) >>= fun _ => viewTop .function := by
    funext m
    exact bind_congr_done fun i m' h => bind_congr (createNative_bound (bindClosure_place h))
  rw [hbound]
  refine (tidy_bindClosure base label captured body).bind fun i => ?_
  exact (Tidy.change (.allocFunction _)).bind fun _ => tidy_viewTop _

/-! ## Host code -/

/-- Every tree of requests, whatever it asks for and however it ends. -/
theorem tidy_runCode (hc : on.call.Conducts rules) (base : Nat) (code : HostCode) :
    Neat rules [] (runCode on base code) := by
  induction code with
  | finish v =>
    rw [runCode]
    exact (Tidy.change (.secure base _)).bind fun _ => .pure _ rfl
  | fail e =>
    rw [runCode]
    exact .pure _ rfl
  | panic message =>
    rw [runCode]
    exact .pure _ rfl
  | request r next ih =>
    rw [runCode]
    exact (tidy_perform hc base r).bind fun reply => (Tidy.note _ fun _ => rfl).bind fun _ => ih reply
  | register name label captured body next _ ih =>
    rw [runCode]
    exact (tidy_registerClosure base name label captured body).bind fun reply =>
      (Tidy.note _ fun _ => rfl).bind fun _ => ih reply
  | createFunction label captured body next _ ih =>
    rw [runCode]
    exact (tidy_createClosure base label captured body).bind fun reply =>
      (Tidy.note _ fun _ => rfl).bind fun _ => ih reply

theorem tidy_copyArguments (records : List Record) (index : Nat) :
    Neat rules held (copyArguments index records) := by
  induction records generalizing index with
  | nil =>
    rw [copyArguments]
    exact .pure _ rfl
  | cons r rest ih =>
    rw [copyArguments]
    refine (tidy_copyRecord r).bind fun copied => ?_
    cases copied with
    | error e => exact .pure _ rfl
    | ok v => exact (ih _).bind fun more => .pure _ rfl

theorem tidy_collectArguments (limit : Nat) (p : Passed) :
    Neat rules held (collectArguments limit p) := by
  unfold collectArguments
  dsimp only
  split
  · exact .pure _ rfl
  · split
    · exact .pure _ rfl
    · split
      · exact .pure _ rfl
      · split
        · exact .pure _ rfl
        · exact tidy_copyArguments _ _

theorem tidy_copyReceiver (p : Passed) : Neat rules held (copyReceiver p) := by
  unfold copyReceiver
  split
  · exact .pure _ rfl
  · refine (tidy_copyRecord _).bind fun copied => ?_
    cases copied <;> exact .pure _ rfl

theorem tidy_runBinding (hc : on.call.Conducts rules) (base : Nat) (config : Config) (b : Binding)
    (p : Passed) : Neat rules [] (runBinding on base config b p) := by
  refine (tidy_collectArguments _ p).bind fun collected => ?_
  cases collected with
  | error e => exact .pure _ rfl
  | ok args =>
    refine (tidy_copyReceiver p).bind fun copied => ?_
    cases copied with
    | error e => exact .pure _ rfl
    | ok receiver => exact (Tidy.note _ fun _ => rfl).bind fun _ => tidy_runCode hc base _

/-! ## Calls -/

theorem tidy_callClosure (hc : on.call.Conducts rules) (place : Option Nat) (p : Passed) :
    Tidy rules [] [] (callClosure on place p) fun r => r.textBlock?.toList := by
  refine .look (fun w => ?_) fun _ _ => rfl
  split
  · exact (tidy_push _).bind fun _ => .pure _ rfl
  · refine tidy_height fun base => (tidy_runBinding hc base _ _ p).bind fun outcome => ?_
    cases outcome with
    | ok v => exact (tidy_settleTo base).bind fun _ => tidy_handBack v
    | error message =>
      exact (tidy_unwind base).bind fun _ => (tidy_push _).bind fun _ => tidy_handBack _

theorem tidy_endow (r : Record) :
    Tidy rules held [] (endow r) fun r => r.textBlock?.toList := by
  unfold endow
  split
  · rename_i t hkind htext
    have hmade : ∀ block, Tidy rules held [block]
        (push .null >>= fun _ => pure { r with text := some ⟨Text.untilZero t.bytes, some block⟩ })
        fun r => r.textBlock?.toList := fun block => by
      refine (tidy_push _).bind fun _ => .pure _ ?_
      have hkind' : Kind.ofCode? r.code = some .string := hkind
      simp [Record.textBlock?, Record.kind?, hkind']
    exact .alloc hmade
  · rename_i kind id hkind hhandle hstring
    have hnone : r.textBlock? = none := Record.textBlock?_eq_none fun t hk ht =>
      hstring t ht (Option.some.inj (hkind.symm.trans hk))
    split
    · exact (tidy_share _).bind fun _ => .pure _ (by rw [hnone, Option.toList_none])
    · exact (tidy_push _).bind fun _ => .pure _ (by rw [hnone, Option.toList_none])
  · rename_i hstring _
    have hnone : r.textBlock? = none := Record.textBlock?_eq_none hstring
    exact (tidy_push _).bind fun _ => .pure _ (by rw [hnone, Option.toList_none])

theorem tidy_callForeignCode (hc : on.call.Conducts rules) (code : HostCode) :
    Tidy rules [] [] (callForeignCode on code) fun r => r.textBlock?.toList := by
  refine tidy_height fun base => (tidy_runCode hc base code).bind fun outcome => ?_
  cases outcome with
  | ok v => exact (tidy_settleTo base).bind fun _ => tidy_handBack v
  | error message =>
    exact (tidy_unwind base).bind fun _ => (tidy_push _).bind fun _ => .pure _ rfl

theorem tidy_callForeign (hc : on.call.Conducts rules) (f : Foreign) (p : Passed) :
    Tidy rules [] [] (callForeign on f p) fun r => r.textBlock?.toList := by
  unfold callForeign
  split
  · exact (tidy_push _).bind fun _ => .pure _ rfl
  · refine (tidy_allocText _).bind fun t => (tidy_push _).bind fun _ => .pure _ ?_
    rw [Record.textBlock?_ofText]
  · exact tidy_endow _
  · exact tidy_callForeignCode hc _

theorem tidy_callPassed (hc : on.call.Conducts rules) (f : NativeFunction) (p : Passed) :
    Tidy rules [] [] (callPassed on f p) fun r => r.textBlock?.toList := by
  unfold callPassed
  split
  · exact tidy_callClosure hc _ p
  · exact tidy_callForeign hc _ p

/-- What a call comes to is noted. -/
theorem tidy_notedAnswer {patience : Nat} {call : Caller} (hc : call.Conducts rules)
    (f : NativeFunction) (p : Passed) :
    Tidy rules [] [] ((world >>= fun w => callPassed ⟨w.engine.scope, call, patience⟩ f p) >>=
      fun r => note (.returned r) >>= fun _ => pure r) fun r => r.textBlock?.toList := by
  refine .bind (.look (fun w => tidy_callPassed hc f _) fun _ _ => rfl) fun r => ?_
  exact (Tidy.note _ fun _ => rfl).bind fun _ => .pure _ rfl

/-- Calls to any depth conduct themselves by any rules. -/
theorem conducts_callNative (rules : Rules) (patience depth : Nat) :
    Caller.Conducts rules (callNative patience depth) := by
  induction depth with
  | zero =>
    refine ⟨fun _ _ _ _ => .exhausted, fun _ _ _ _ => .look (fun _ => ?_) fun _ _ => rfl⟩
    split <;> exact .exhausted
  | succ depth ih =>
    refine ⟨fun f argc argv receiver => ?_, fun callee f receiver args => ?_⟩
    · exact (Tidy.note _ fun _ => rfl).bind fun _ => tidy_notedAnswer ih f _
    · exact .enter callee f args receiver (fun w => tidy_notedAnswer ih f _) fun _ _ => rfl

/-- Calls to any depth are orderly. -/
theorem orderly_callNative (terms : Terms) (patience depth : Nat) :
    Caller.Orderly terms (callNative patience depth) := by
  cases depth with
  | zero => exact fun _ _ _ _ _ => .exhausted
  | succ depth =>
    exact fun callee f argc argv receiver => (Tidy.note _ False.elim).bind fun _ =>
      tidy_notedAnswer (conducts_callNative _ patience depth) f _

end Enclave.Act
