import Enclave.Proofs.Boundary.Stored
import Enclave.Proofs.Host.Native
import Enclave.Proofs.Host.Reads
import Enclave.Proofs.Script.Keys

/-! # Own keys

Whoever writes to an object, the host through a view, another host through an entry point, or a script
by a literal or an assignment, its keys are those it was written under, each at the place of its first
write. Enumeration gives them all back as they are.
-/
namespace Enclave

open Act Text

variable {α : Type} {t : Limits} {keep : List Slot} {id : CellId} {ks new : List String}
  {m m' : Machine} {on : Surroundings}

/-! ## First writes -/

theorem Table.keys_put_of_eraseDups {table : Table α} (h : table.keys = ks.eraseDups) (key : String)
    (v : α) : (table.put key v).keys = (ks ++ [key]).eraseDups := by
  have hmem : table.has key = true ↔ key ∈ ks := by
    rw [Table.has_iff_mem_keys, h, List.mem_eraseDups]
  rw [Table.keys_put, eraseDups_concat, h]
  by_cases hk : key ∈ ks
  · rw [if_pos (hmem.mpr hk), if_pos hk]
  · rw [if_neg (fun hhas => hk (hmem.mp hhas)), if_neg hk]

/-! ## Literals -/

/-- A literal makes a new object with its keys, and one entry that owns it. -/
theorem payload?_literal {properties : Properties} (hc : on.call.Safe t) (hg : m.Good t keep)
    (h : (Expr.object properties).eval on m = .done () m') (hid : m'.world.top = .cell id) :
    ∃ table, m'.world.heap.payload? id = some (.object table none) ∧
      table.keys = properties.spelled.eraseDups := by
  rw [Expr.eval] at h
  obtain ⟨keys, m₁, heval, h⟩ := bind_done_iff.mp h
  have hkeys : keys = properties.spelled.eraseDups := properties.keys_eval [] m heval
  have hover := properties.shifts_eval (t := t) hc [] m.world.stack m
    (hg.raise hg.keeps (List.suffix_refl _)) (over_refl _)
  rw [heval] at hover
  have hlength : keys.length ≤ m₁.world.stack.length := by
    have : m.world.stack.length + keys.length ≤ m₁.world.stack.length := hover.2.2.2
    omega
  cases h
  have hnewest : (m₁.world.newest keys.length).length = keys.length := by
    simp only [World.newest, List.length_reverse, List.length_take]
    omega
  obtain rfl : m₁.world.heap.next = id := by
    simpa [World.allocObject, World.install, World.top, World.pop] using hid
  refine ⟨keys.zip (m₁.world.newest keys.length), ?_, ?_⟩
  · simp [World.allocObject, World.install, World.pop, Heap.payload?, Heap.cell?_alloc]
  · rw [← hkeys]
    exact List.map_fst_zip (by omega)

/-! ## Assignments -/

/-- An assignment to a member of an object puts the newest entry under the key's name. -/
theorem setMember_object {key s : Slot} {rest : List Slot} (hs : m.world.stack = s :: rest)
    (hobject : ∀ p, m.world.heap.payload? id = some p → ∃ table link, p = .object table link)
    (h : setMember (.cell id) key m = .done () m') :
    ∃ table link dropped, m.world.heap.payload? id = some (.object table link) ∧
      m'.world.heap = (m.world.heap.setPayload id
        (.object (table.put (m.world.propertyName key) s) link)).releaseSlots dropped := by
  unfold setMember at h
  rw [bind_done (world_eq m)] at h
  obtain ⟨_, m₁, hwrite, hdrop⟩ := bind_done_iff.mp h
  rw [writing_eq (fun p => ?_) (unguarded_raise _)] at hwrite
  · cases hw : m.world.writable? id with
    | none =>
      rw [hw] at hwrite
      cases hwrite
    | some p =>
      have hp := World.payload?_of_writable hw
      obtain ⟨table, link, rfl⟩ := hobject p hp
      rw [hw] at hwrite
      cases hwrite
      cases hdrop
      refine ⟨table, link, [(table.get? (m.world.propertyName key)).getD .null], hp, ?_⟩
      exact congrArg World.heap (World.drop_exchangePayload hs hp rfl)
  · cases p with
    | array elements =>
      cases elementIndex? key with
      | none => exact unguarded_raise _
      | some index =>
        by_cases hi : isWritable elements.size index = true
        · simp only [hi, if_true]
          exact unguarded_exchange _ _
        · simp only [hi]
          exact unguarded_raise _
    | object table link => exact unguarded_exchange _ _
    | function | classDesc | task => exact unguarded_raise _

/-! ## Histories -/

/-- One step in the history of an object, with the keys that it writes: a write by the host or by a
script, or anything that leaves the payload alone. -/
inductive Writes (id : CellId) : Machine → List String → Machine → Prop
  | hosted {m m' : Machine} {key : String} {v : Value}
      (h : writeKeyed ⟨some id⟩ key v m = .done (.ok ()) m') : Writes id m [key] m'
  | entered {m m' : Machine} {key : Bytes} {v : Option Record}
      (h : objectSet (some id) (some key) v m = .done true m') : Writes id m [readText key] m'
  | assigned {m m' : Machine} {key s : Slot} {rest : List Slot} (hs : m.world.stack = s :: rest)
      (h : setMember (.cell id) key m = .done () m') : Writes id m [m.world.propertyName key] m'
  | elsewhere {m m' : Machine}
      (h : m'.world.heap.payload? id = m.world.heap.payload? id) : Writes id m [] m'

/-- The history of an object from its creation on: the keys under which it was written, in order. -/
inductive Written (id : CellId) : List String → Machine → Prop
  | created {m : Machine} {link : Option CellId}
      (h : m.world.heap.payload? id = some (.object [] link)) : Written id [] m
  | literal {m m' : Machine} {t : Limits} {keep : List Slot} {properties : Properties} (b : Budget)
      (scope : ScopeId) (hg : m.Good t keep)
      (h : (Expr.object properties).eval (b.surroundings scope) m = .done () m')
      (hid : m'.world.top = .cell id) : Written id properties.spelled m'
  | step {m m' : Machine} {ks new : List String} (h : Written id ks m) (hw : Writes id m new m') :
      Written id (ks ++ new) m'

/-- The cell is not alive, or it is an object with these keys, each where it first comes. -/
def Heap.Keyed (h : Heap) (id : CellId) (ks : List String) : Prop :=
  ∀ p, h.payload? id = some p → ∃ table link, p = .object table link ∧ table.keys = ks.eraseDups

/-- A write under a key to what is an object before. -/
theorem Heap.Keyed.put {h : Heap} {s : Slot} {dropped : List Slot} {table : Table Slot}
    {link : Option CellId} (hk : h.Keyed id ks) (hp : h.payload? id = some (.object table link))
    (key : String) :
    ((h.setPayload id (.object (table.put key s) link)).releaseSlots dropped).Keyed id
      (ks ++ [key]) := by
  intro p hp'
  obtain ⟨table', link', he, hkeys⟩ := hk _ hp
  cases he
  exact ⟨_, _, payload?_stored hp hp', Table.keys_put_of_eraseDups hkeys key s⟩

theorem keyed_of_objectSet {key : Bytes} {v : Option Record} (hk : m.world.heap.Keyed id ks)
    (h : objectSet (some id) (some key) v m = .done true m') :
    m'.world.heap.Keyed id (ks ++ [readText key]) := by
  obtain ⟨_, r, p, q, old, hc, -, hw, hf, rfl⟩ := stored_of_storeInto h
  cases World.handle_of_cellOf? hc
  have hp := World.payload?_of_writable hw
  obtain ⟨table, link, rfl, -⟩ := hk _ hp
  cases hf
  have hp' := (Heap.payload?_retainSlot m.world.heap r.slot id).trans hp
  refine Heap.Keyed.put (fun p' hp'' => hk p' ?_) hp' (readText key)
  exact (Heap.payload?_retainSlot _ _ _).symm.trans hp''

/-- A write through a view is a write under its key as it is. -/
theorem objectSet_of_writeKeyed {key : String} {v : Value}
    (h : writeKeyed ⟨some id⟩ key v m = .done (.ok ()) m') :
    ∃ r, objectSet (some id) (some (encode key)) (some r) m = .done true m' ∧ cut key = key := by
  change whenOk (sentText key) _ m = _ at h
  by_cases hplain : IsPlain key
  · rw [sentText_plain hplain] at h
    change whenOk v.lend _ m = _ at h
    cases hv : v.lend with
    | error e =>
      rw [hv] at h
      cases h
    | ok r =>
      rw [hv] at h
      obtain ⟨status, m₁, hset, hconfirm⟩ := bind_done_iff.mp h
      cases status with
      | false => cases hconfirm
      | true =>
        cases hconfirm
        exact ⟨r, hset, cut_eq_self hplain⟩
  · rw [sentText_eq, if_neg hplain] at h
    cases h

/-- One step adds its keys to those that are there. -/
theorem Writes.keyed (h : Writes id m new m') (hk : m.world.heap.Keyed id ks) :
    m'.world.heap.Keyed id (ks ++ new) := by
  cases h with
  | hosted h =>
    obtain ⟨r, hset, hkey⟩ := objectSet_of_writeKeyed h
    rw [← hkey, ← readText_encode]
    exact keyed_of_objectSet hk hset
  | entered h => exact keyed_of_objectSet hk h
  | assigned hs h =>
    have hobject : ∀ p, m.world.heap.payload? id = some p → ∃ table link, p = .object table link := by
      intro p hp
      obtain ⟨table, link, he, -⟩ := hk p hp
      exact ⟨table, link, he⟩
    obtain ⟨table, link, dropped, hp, hheap⟩ := setMember_object hs hobject h
    rw [hheap]
    exact hk.put hp _
  | elsewhere h =>
    rw [List.append_nil]
    intro p hp
    exact hk p (h ▸ hp)

/-- The keys of an object are those of its history. -/
theorem Written.keyed (h : Written id ks m) : m.world.heap.Keyed id ks := by
  induction h with
  | created h =>
    intro p hp
    rw [h] at hp
    cases hp
    exact ⟨_, _, rfl, rfl⟩
  | literal b scope hg h hid =>
    intro p hp
    obtain ⟨table, hp', hkeys⟩ := payload?_literal (b.safe_surroundings _ scope) hg h hid
    rw [hp'] at hp
    cases hp
    exact ⟨table, none, rfl, hkeys⟩
  | step h hw ih => exact hw.keyed ih

/-- Enumeration gives each key of an object once and as it is, in the order of first writes, whatever
wrote it and however the keys are spelled on their way. -/
theorem ownKeys_written (hg : m.Good t keep) (hw : Written id ks m)
    (hv : (m.world.visible? id).isSome = true) :
    ks.eraseDups.Nodup ∧
      Turns m .none (ownKeys ⟨some id⟩) (fun keys k => keys = ks.eraseDups ∧ k = .none) ∧
      ∀ text, KeyList.Spells ks.eraseDups text →
        KeyList.read (readText (untilZero (encode (String.ofList text)))) = ks.eraseDups := by
  obtain ⟨p, hv⟩ := Option.isSome_iff_exists.mp hv
  obtain ⟨table, link, rfl, hkeys⟩ := hw.keyed p (World.payload?_of_visible hv)
  refine ⟨nodup_eraseDups ks, ?_, fun text => KeyList.read_sent⟩
  rw [← hkeys]
  exact turns_ownKeys hg.sound.counted.proper hv

/-! ## A literal with one key -/

/-- A script can make an object under any key. -/
theorem eval_literal (key : String) (m : Machine) :
    (Expr.object (.keyed (.text key) .null .nil)).eval on m =
      .done () { m with world := (m.world.push .null).allocObject [key] } := by
  rfl

/-- A literal that was evaluated on its own. -/
theorem good_literal (key : String) :
    (⟨((World.initial .default).push .null).allocObject [key], []⟩ : Machine).Good
      ⟨0, False, [], True⟩ [] := by
  have hsafe := Budget.standard.safe_surroundings ⟨0, False, [], True⟩ 0
  have h := Expr.shifts_eval hsafe (.object (.keyed (.text key) .null .nil)) []
    ⟨.initial .default, []⟩ (Machine.good_initial .default False True) (over_refl _)
  rw [eval_literal] at h
  exact h.1

theorem visible?_literal (key : String) :
    (((World.initial .default).push .null).allocObject [key]).visible? 0 =
      some (.object [(key, .null)] none) := by
  rfl

/-- Both a quote and a zero are read back from the key of a literal. -/
theorem ownKeys_written_literal :
    let m : Machine := ⟨((World.initial .default).push .null).allocObject ["\"\x00"], []⟩
    Written 0 ["\"\x00"] m ∧
      Turns m .none (ownKeys ⟨some 0⟩) fun keys k => keys = ["\"\x00"] ∧ k = .none := by
  intro m
  have hw : Written 0 ["\"\x00"] m :=
    .literal Budget.standard 0 (Machine.good_initial .default False True) (eval_literal _ _) rfl
  exact ⟨hw, (ownKeys_written (good_literal _) hw rfl).2.1⟩

/-! ## Lookups -/

/-- Every key that is listed has its value, unless there is a zero in it: such a key cannot be sent,
so it is listed and yet not there. A key that is not listed is not there. -/
theorem listed_keys_found {table : Table Slot} {link : Option CellId} (hg : m.Good t keep)
    (hguards : ∀ g ∈ m.world.guards, ∀ x, g.place ≠ .payload x)
    (hp : m.world.heap.payload? id = some (.object table link)) :
    Turns m .none (ownKeys ⟨some id⟩) (fun keys k => keys = table.keys ∧ k = .none) ∧
      ∀ key,
        Turns m .none (hasKey ⟨some id⟩ key)
          (fun found k => (found = true ↔ key ∈ table.keys ∧ IsPlain key) ∧ k = .none) ∧
        (key ∈ table.keys → IsPlain key → ∃ s, table.get? key = some s ∧
          Turns m .none (keyedValue ⟨some id⟩ key) fun v k =>
            v = .ok (m.world.image s) ∧ k = ⟨[s.cut], [], []⟩) ∧
        (¬ IsPlain key → Turns m .none (keyedValue ⟨some id⟩ key) fun v k =>
          v = .error (.interiorZero key) ∧ k = .none) := by
  have hproper := hg.sound.counted.proper
  have hread : m.world.canRead (.payload id) = true := by
    simp only [World.canRead, List.all_eq_true, Bool.or_eq_true, bne_iff_ne]
    exact .inr fun g hg => .inl (hguards g hg id)
  have hv : m.world.visible? id = some (.object table link) := by
    rw [World.visible?, if_pos hread, hp]
  refine ⟨turns_ownKeys hproper hv, fun key => ?_⟩
  by_cases hplain : IsPlain key
  · refine ⟨?_, fun hkey _ => ?_, fun h => absurd hplain h⟩
    · apply (turns_hasKey hproper hv hplain).weaken
      intro found k hfound
      obtain ⟨rfl, rfl⟩ := hfound
      rw [Table.has_iff_mem_keys]
      exact ⟨⟨fun h => ⟨h, hplain⟩, fun h => h.1⟩, rfl⟩
    · obtain ⟨s, hs⟩ := Option.isSome_iff_exists.mp ((Table.has_iff_mem_keys table key).mpr hkey)
      refine ⟨s, hs, ?_⟩
      have hget : (table.get? key).getD .null = s := by rw [hs, Option.getD_some]
      rw [← hget]
      exact turns_keyedValue hproper hv hplain
  · refine ⟨?_, fun _ h => absurd h hplain, fun _ => ?_⟩
    · rw [hasKey_of_not_plain _ hplain]
      exact turns_pure false ⟨by simp [hplain], rfl⟩
    · rw [keyedValue_of_not_plain _ hplain]
      exact turns_pure _ ⟨rfl, rfl⟩

/-- A key with a zero inside, of an object that a literal made, is listed, but it is not there and has
no value. -/
theorem listed_key_not_found :
    ∃ m, (Expr.object (.keyed (.text "a\x00b") .null .nil)).eval
        (Budget.standard.surroundings 0) ⟨.initial .default, []⟩ = .done () m ∧
      m.world.guards = [] ∧
      Turns m .none (ownKeys ⟨some 0⟩) (fun keys _ => keys = ["a\x00b"]) ∧
      Turns m .none (hasKey ⟨some 0⟩ "a\x00b") (fun found _ => found = false) ∧
      Turns m .none (keyedValue ⟨some 0⟩ "a\x00b") fun v _ =>
        v = .error (.interiorZero "a\x00b") := by
  have hplain : ¬ IsPlain "a\x00b" := by decide
  refine ⟨_, eval_literal _ _, rfl, ?_, ?_, ?_⟩
  · exact (turns_ownKeys (good_literal _).sound.counted.proper (visible?_literal _)).weaken
      fun _ _ h => h.1
  · rw [hasKey_of_not_plain _ hplain]
    exact turns_pure false rfl
  · rw [keyedValue_of_not_plain _ hplain]
    exact turns_pure _ rfl

/-- The key of a literal is found. -/
theorem listed_keys_found_literal :
    let m : Machine := ⟨((World.initial .default).push .null).allocObject ["a"], []⟩
    (∀ g ∈ m.world.guards, ∀ x, g.place ≠ .payload x) ∧
      m.world.heap.payload? 0 = some (.object [("a", .null)] none) ∧
      Turns m .none (ownKeys ⟨some 0⟩) (fun keys _ => keys = ["a"]) ∧
      Turns m .none (hasKey ⟨some 0⟩ "a") fun found _ => found = true := by
  intro m
  have hguards : ∀ g ∈ m.world.guards, ∀ x, g.place ≠ .payload x := by
    intro g hg
    cases hg
  have hp : m.world.heap.payload? 0 = some (.object [("a", .null)] none) := rfl
  obtain ⟨hlisted, hkeys⟩ := listed_keys_found (good_literal "a") hguards hp
  refine ⟨hguards, hp, hlisted.weaken fun _ _ h => h.1, ?_⟩
  exact (hkeys "a").1.weaken fun found k h => h.1.mpr ⟨by decide, by decide⟩

end Enclave
