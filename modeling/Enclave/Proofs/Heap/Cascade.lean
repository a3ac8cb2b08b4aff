import Enclave.Proofs.Heap.Release

/-! # Cascades

What follows from dropping references, one counted reference at a time. A step of a cascade may take
any of the references that are pending, so its runs are all the orders in which references can be
dropped. Every step uses up one counted reference, so every run ends; no run drops a reference that
is not counted, or reclaims a cell twice; and all complete runs end with the same heap.
-/
namespace Enclave

/-- A heap, and references to its cells that are still to be dropped. -/
structure Cascade where
  heap : Heap
  pending : List CellId

namespace Cascade

open Heap

/-- One of the pending references is dropped. A cell whose last reference it was is reclaimed, and
the references of its payload are pending from then on. There is no step for a cell whose count is
used up. -/
inductive Step : Cascade → List CellId → Cascade → Prop
  | last {h : Heap} {pending rest : List CellId} {id : CellId} {cell : Cell}
      (hp : pending.Perm (id :: rest)) (hcell : h.cell? id = some cell) (hrefs : cell.refs = 1) :
      Step ⟨h, pending⟩ [id] ⟨h.reclaim id, cell.payload.references ++ rest⟩
  | more {h : Heap} {pending rest : List CellId} {id : CellId} {cell : Cell}
      (hp : pending.Perm (id :: rest)) (hcell : h.cell? id = some cell) (hrefs : 1 < cell.refs) :
      Step ⟨h, pending⟩ [] ⟨h.lower id cell, rest⟩

/-- Steps in a row: which cells they reclaim, and how many they are. -/
inductive Runs : Cascade → List CellId → Nat → Cascade → Prop
  | refl (c : Cascade) : Runs c [] 0 c
  | step {c c₁ c' : Cascade} {gone later : List CellId} {n : Nat} (h : c.Step gone c₁)
      (hr : Runs c₁ later n c') : Runs c (gone ++ later) (n + 1) c'

/-- All references are counted: the pending ones, those in payloads, and those that `out` says. -/
def Exact (c : Cascade) (out : CellId → Nat) : Prop :=
  c.heap.Exact fun x => c.pending.count x + out x

variable {c c' : Cascade} {h h' : Heap} {out : CellId → Nat} {gone pending : List CellId} {n : Nat}
  {id x : CellId} {S : CellId → Prop}

/-! ## One step -/

theorem Exact.perm {rest : List CellId} (hc : Cascade.Exact ⟨h, pending⟩ out)
    (hp : pending.Perm (id :: rest)) :
    h.Exact fun y => (Slot.cell id).owns y + (rest.count y + out y) := by
  refine Heap.Exact.congr hc fun y => ?_
  dsimp only
  rw [hp.count_eq, List.count_cons, Slot.owns_cell]
  simp only [beq_iff_eq]
  omega

theorem Step.exact (hs : c.Step gone c') (hc : c.Exact out) : c'.Exact out := by
  cases hs with
  | last hp hcell hrefs =>
    refine ((hc.perm hp).reclaim hcell (Nat.le_of_eq hrefs)).congr fun y => ?_
    rw [List.count_append, Payload.references, count_filterMap_cell?, Nat.add_assoc]
  | more hp hcell hrefs => exact (hc.perm hp).lower hcell hrefs

/-- A pending reference is counted, so there is a step that drops it. -/
theorem Exact.exists_step (hc : c.Exact out) (hid : id ∈ c.pending) :
    0 < c.heap.refs id ∧ ∃ gone c', c.Step gone c' ∧ gone ⊆ [id] := by
  obtain ⟨h, pending⟩ := c
  have hp : pending.Perm (id :: pending.erase id) := List.perm_cons_erase hid
  have hexact := hc.perm hp
  cases hcell : h.cell? id with
  | none =>
    have he := hexact.exact id
    simp only [refs, hcell, Option.map_none, Option.getD_none, Slot.owns_self] at he
    omega
  | some cell =>
    have hpos := hexact.positive id cell hcell
    refine ⟨by simpa [refs, hcell] using hpos, ?_⟩
    by_cases hrefs : cell.refs = 1
    · exact ⟨[id], _, .last hp hcell hrefs, List.Subset.refl _⟩
    · exact ⟨[], _, .more hp hcell (by omega), List.nil_subset _⟩

/-- A step uses up one of the references that are counted. -/
theorem Step.consumes (hs : c.Step gone c') :
    c'.heap.total cellRefs + 1 = c.heap.total cellRefs := by
  cases hs with
  | @last h _ _ id cell hp hcell hrefs =>
    have ht := total_setCell cellRefs h none hcell
    simp only [cellRefs, hrefs] at ht
    exact ht
  | @more h _ _ id cell hp hcell hrefs =>
    have ht := total_setCell cellRefs h (some { cell with refs := cell.refs - 1 }) hcell
    simp only [cellRefs] at ht
    change (h.setCell id (some { cell with refs := cell.refs - 1 })).total cellRefs + 1 =
      h.total cellRefs
    omega

/-- What a step reclaims was alive and is so no more. -/
theorem Step.reclaims (hs : c.Step gone c') (hx : x ∈ gone) :
    c.heap.isLive x = true ∧ c'.heap.isLive x = false := by
  cases hs with
  | last hp hcell hrefs =>
    rw [List.mem_singleton] at hx
    subst hx
    exact ⟨isLive_iff.mpr ⟨_, hcell⟩, by simp [isLive, cell?_reclaim hcell]⟩
  | more hp hcell hrefs => cases hx

/-- What a cell is apart from its count. -/
def body? (h : Heap) (x : CellId) : Option (Kind × Payload) :=
  (h.cell? x).map fun cell => (cell.kind, cell.payload)

theorem body?_eq_none : body? h x = none ↔ h.isLive x = false := by
  simp [body?, isLive]

theorem isLive_congr (hb : body? h x = body? h' x) : h.isLive x = h'.isLive x := by
  simpa [body?, isLive] using congrArg Option.isSome hb

theorem payload?_eq (h : Heap) (x : CellId) : h.payload? x = (body? h x).map Prod.snd := by
  rw [body?, Option.map_map]
  rfl

/-- Of the cells that a step does not reclaim none changes but in its count. -/
theorem Step.body? (hs : c.Step gone c') (hx : x ∉ gone) :
    body? c'.heap x = Cascade.body? c.heap x := by
  cases hs with
  | last hp hcell hrefs =>
    rw [List.mem_singleton] at hx
    simp [Cascade.body?, cell?_reclaim hcell, hx]
  | @more h _ _ id cell hp hcell hrefs =>
    simp only [Cascade.body?, cell?_lower hcell]
    split
    · rename_i he
      rw [he, hcell]
      rfl
    · rfl

/-- A step counts one reference as released and what it reclaims as freed, and nothing else. -/
theorem Step.tally (hs : c.Step gone c') :
    c'.heap.next = c.heap.next ∧ c'.heap.tally =
      { c.heap.tally with
        releases := c.heap.tally.releases + 1, freed := c.heap.tally.freed + gone.length } := by
  cases hs <;> exact ⟨by simp [Heap.next, reclaim, lower, setCell], rfl⟩

/-- Each of the cells in `S` is held by one of them, or by a reference that stays. -/
def Stands (h : Heap) (out : CellId → Nat) (S : CellId → Prop) : Prop :=
  ∀ b, S b → 0 < out b ∨ ∃ a, S a ∧ h.Edge a b

theorem Stands.congr (hS : Stands h out S)
    (hsame : ∀ x, S x → Cascade.body? h' x = Cascade.body? h x) : Stands h' out S := by
  refine fun b hb => (hS b hb).imp_right fun ⟨a, ha, p, hp, hmem⟩ => ⟨a, ha, p, ?_, hmem⟩
  rwa [payload?_eq, hsame a ha, ← payload?_eq]

/-- Cells that hold one another are not reclaimed. -/
theorem Step.spares (hs : c.Step gone c') (hc : c.Exact out) (hS : Stands c.heap out S)
    (hx : S x) : x ∉ gone := by
  cases hs with
  | @last h _ _ id cell hp hcell hrefs =>
    rw [List.mem_singleton]
    rintro rfl
    have he := (hc.perm hp).exact x
    simp only [refs, hcell, Option.map_some, Option.getD_some, Slot.owns_self] at he
    rcases hS x hx with hout | ⟨a, -, hedge⟩
    · omega
    · have hpos : 0 < h.held x := held_pos hedge
      omega
  | more hp hcell hrefs => exact List.not_mem_nil

/-! ## Runs -/

theorem Runs.exact (hr : Runs c gone n c') (hc : c.Exact out) : c'.Exact out := by
  induction hr with
  | refl c => exact hc
  | step h _ ih => exact ih (h.exact hc)

theorem Runs.consumes (hr : Runs c gone n c') :
    c'.heap.total cellRefs + n = c.heap.total cellRefs := by
  induction hr with
  | refl c => rfl
  | step h _ ih =>
    have := h.consumes
    omega

theorem Runs.tally (hr : Runs c gone n c') :
    c'.heap.next = c.heap.next ∧ c'.heap.tally =
      { c.heap.tally with
        releases := c.heap.tally.releases + n, freed := c.heap.tally.freed + gone.length } := by
  induction hr with
  | refl c => exact ⟨rfl, rfl⟩
  | step h _ ih =>
    refine ⟨ih.1.trans h.tally.1, ?_⟩
    rw [ih.2, h.tally.2]
    simp only [List.length_append, Tally.mk.injEq, true_and]
    omega

/-- What has been reclaimed stays so. -/
theorem Runs.dead (hr : Runs c gone n c') (hx : c.heap.isLive x = false) :
    x ∉ gone ∧ c'.heap.isLive x = false := by
  induction hr with
  | refl c => exact ⟨List.not_mem_nil, hx⟩
  | step h _ ih =>
    have hgone := fun hmem => Bool.false_ne_true (hx.symm.trans (h.reclaims hmem).1)
    rw [← body?_eq_none, ← h.body? hgone, body?_eq_none] at hx
    obtain ⟨hlater, hdead⟩ := ih hx
    exact ⟨fun hmem => (List.mem_append.mp hmem).elim hgone hlater, hdead⟩

/-- A run reclaims live cells, none of them twice, and leaves all others as they are but for their
counts. -/
theorem Runs.reclaims (hr : Runs c gone n c') :
    gone.Nodup ∧ (∀ x ∈ gone, c.heap.isLive x = true) ∧
      ∀ x, Cascade.body? c'.heap x = if x ∈ gone then none else Cascade.body? c.heap x := by
  induction hr with
  | refl c => exact ⟨List.nodup_nil, fun _ h => absurd h List.not_mem_nil, fun x => by simp⟩
  | @step c c₁ c' gone later n h hr ih =>
    obtain ⟨hlater, halive, hbody⟩ := ih
    have hapart := fun x (hx : x ∈ gone) => hr.dead (h.reclaims hx).2
    have hone : gone.Nodup := by cases h <;> simp
    refine ⟨List.nodup_append.mpr ⟨hone, hlater, fun x hx y hy he => (hapart x hx).1 (he ▸ hy)⟩,
      fun x hx => ?_, fun x => ?_⟩
    · by_cases hgone : x ∈ gone
      · exact (h.reclaims hgone).1
      · have hl := halive x ((List.mem_append.mp hx).resolve_left hgone)
        exact (isLive_congr (h.body? hgone)).symm.trans hl
    · by_cases hx : x ∈ gone
      · rw [if_pos (List.mem_append_left _ hx), body?_eq_none]
        exact (hapart x hx).2
      · rw [hbody x, h.body? hx]
        simp [hx]

theorem Runs.spares (hr : Runs c gone n c') (hc : c.Exact out) (hS : Stands c.heap out S)
    (hx : S x) : x ∉ gone := by
  induction hr with
  | refl c => exact List.not_mem_nil
  | step h _ ih =>
    have hgone := fun y (hy : S y) => h.spares hc hS hy
    have hlater := ih (h.exact hc) (hS.congr fun y hy => h.body? (hgone y hy))
    exact fun hmem => (List.mem_append.mp hmem).elim (hgone x hx) hlater

/-- It does not matter in which order references are pending. -/
theorem Runs.perm {order : List CellId} (hr : Runs ⟨h, pending⟩ gone n c')
    (ho : order.Perm pending) (hdone : c'.pending = []) : Runs ⟨h, order⟩ gone n c' := by
  cases hr with
  | refl =>
    obtain rfl : pending = [] := hdone
    rw [ho.eq_nil]
    exact .refl _
  | step hs hr =>
    refine .step ?_ hr
    cases hs with
    | last hp hcell hrefs => exact .last (ho.trans hp) hcell hrefs
    | more hp hcell hrefs => exact .more (ho.trans hp) hcell hrefs

/-- Of the references that are pending the first is dropped first, and what its cell held is dropped
before the others. -/
theorem runs_releaseAll (hc : Cascade.Exact ⟨h, pending⟩ out) :
    ∃ gone n, Runs ⟨h, pending⟩ gone n ⟨h.releaseAll pending, []⟩ := by
  induction h, pending using releaseAll_induct with
  | nil h =>
    rw [releaseAll_nil]
    exact ⟨[], 0, .refl _⟩
  | dead h id rest hcell ih =>
    have hpos := (hc.exists_step List.mem_cons_self).1
    simp [refs, hcell] at hpos
  | last h id rest cell hcell hrefs ih =>
    have hpos := Heap.Exact.positive hc id cell hcell
    have hs : Step ⟨h, id :: rest⟩ [id] ⟨h.reclaim id, cell.payload.references ++ rest⟩ :=
      .last (.refl _) hcell (Nat.le_antisymm hrefs hpos)
    obtain ⟨gone, n, hr⟩ := ih (hs.exact hc)
    rw [releaseAll_last hcell hrefs]
    exact ⟨_, _, .step hs hr⟩
  | more h id rest cell hcell hrefs ih =>
    have hs : Step ⟨h, id :: rest⟩ [] ⟨h.lower id cell, rest⟩ := .more (.refl _) hcell hrefs
    obtain ⟨gone, n, hr⟩ := ih (hs.exact hc)
    rw [releaseAll_more hcell hrefs]
    exact ⟨_, _, .step hs hr⟩

end Cascade

namespace Heap

open Cascade

variable {h h' : Heap} {out : CellId → Nat} {pending : List CellId} {S : CellId → Prop}

/-- Cells survive each of which is held by another of them, or from outside after the release. -/
theorem Counted.payload?_releaseAll (hc : h.Counted fun x => pending.count x + out x)
    (hS : Stands h out S) {x : CellId} (hx : S x) :
    (h.releaseAll pending).payload? x = h.payload? x := by
  obtain ⟨gone, n, hr⟩ := runs_releaseAll hc.exactly
  have hbody := hr.reclaims.2.2 x
  rw [if_neg (hr.spares hc.exactly hS hx)] at hbody
  rw [payload?_eq, hbody, ← payload?_eq]

/-! ## One heap for all orders -/

/-- What is alive holds itself up. -/
theorem Exact.stands (hc : h.Exact out) : Stands h out fun x => h.isLive x = true := by
  intro b hb
  have hpos := hc.holder_of_isLive hb
  by_cases hout : 0 < out b
  · exact .inl hout
  · have hheld : 0 < h.held b := by omega
    rw [← holders_payloadSlots, holders_pos, payloadSlots, List.mem_flatMap] at hheld
    obtain ⟨c, hmem, hslot⟩ := hheld
    obtain ⟨a, ha⟩ := List.mem_iff_getElem?.mp hmem
    rw [Array.getElem?_toList] at ha
    cases c with
    | none => cases hslot
    | some cell =>
      have hcell : h.cell? a = some cell := by rw [cell?, ha, Option.join_some]
      exact .inr ⟨a, isLive_iff.mpr ⟨cell, hcell⟩, cell.payload, congrArg (Option.map _) hcell, hslot⟩

/-- What payloads hold is determined by the payloads. -/
theorem held_congr (hn : h.next = h'.next) (hb : ∀ x, body? h x = body? h' x) (id : CellId) :
    h.held id = h'.held id := by
  have hslots : h.cells.toList.map cellSlots = h'.cells.toList.map cellSlots := by
    refine List.ext_getElem (by simpa [next] using hn) fun i hi hi' => ?_
    simp only [List.length_map, Array.length_toList] at hi hi'
    have := hb i
    simp only [body?, cell?, hi, hi', Array.getElem?_eq_getElem, Option.join_some] at this
    simp only [List.getElem_map, Array.getElem_toList]
    cases hc : h.cells[i] <;> cases hc' : h'.cells[i] <;> simp_all [cellSlots]
  have hmap := congrArg (fun l : List (List Slot) => (l.map fun s => holders s id).sum) hslots
  simpa [held, total_eq_sum, List.map_map, Function.comp_def] using hmap

/-- Where counts are exact, the cells of a heap are determined by all else that they are. -/
theorem Exact.cells_eq (hc : h.Exact out) (hc' : h'.Exact out) (hn : h.next = h'.next)
    (hb : ∀ x, body? h x = body? h' x) : h.cells = h'.cells := by
  have hcell : ∀ x, h.cell? x = h'.cell? x := by
    intro x
    have hrefs : h.refs x = h'.refs x := by rw [hc.exact, hc'.exact, held_congr hn hb]
    have hx := hb x
    simp only [body?, refs] at hx hrefs
    cases hl : h.cell? x <;> cases hl' : h'.cell? x <;> simp only [hl, hl'] at hx hrefs
    · rfl
    · cases hx
    · cases hx
    · rename_i cell cell'
      obtain ⟨refs, kind, payload⟩ := cell
      obtain ⟨refs', kind', payload'⟩ := cell'
      simp_all
  refine Array.ext (by exact hn) fun i hi hi' => ?_
  have := hcell i
  simpa [cell?, hi, hi'] using this

end Heap

namespace Cascade

open Heap

variable {c c₁ c₂ : Cascade} {h : Heap} {out : CellId → Nat} {gone₁ gone₂ pending : List CellId}
  {n₁ n₂ : Nat}

/-- What one complete run spares is spared by every other. -/
theorem Runs.subset (hr₁ : Runs c gone₁ n₁ c₁) (hr₂ : Runs c gone₂ n₂ c₂) (hc : c.Exact out)
    (hdone : c₁.pending = []) : gone₂ ⊆ gone₁ := by
  intro x hx
  by_contra hspared
  obtain ⟨-, -, hbody⟩ := hr₁.reclaims
  have hc₁ : c₁.heap.Exact out := Heap.Exact.congr (hr₁.exact hc) fun y => by simp [hdone]
  have hsame : ∀ y, c₁.heap.isLive y = true → Cascade.body? c.heap y = Cascade.body? c₁.heap y := by
    intro y hy
    have hne : Cascade.body? c₁.heap y ≠ none := fun he => by
      rw [body?_eq_none.mp he] at hy
      cases hy
    rw [hbody y] at hne ⊢
    split at hne
    · exact absurd rfl hne
    · rw [if_neg ‹_›]
  have hS : Stands c.heap out fun y => c₁.heap.isLive y = true := hc₁.stands.congr hsame
  have hx₁ := hbody x
  rw [if_neg hspared] at hx₁
  exact hr₂.spares hc hS ((isLive_congr hx₁).trans (hr₂.reclaims.2.1 x hx)) hx

/-- All complete runs end with the same heap. -/
theorem Runs.unique (hr₁ : Runs c gone₁ n₁ c₁) (hr₂ : Runs c gone₂ n₂ c₂) (hc : c.Exact out)
    (hdone₁ : c₁.pending = []) (hdone₂ : c₂.pending = []) : c₁.heap = c₂.heap := by
  have hc₁ : c₁.heap.Exact out := Heap.Exact.congr (hr₁.exact hc) fun y => by simp [hdone₁]
  have hc₂ : c₂.heap.Exact out := Heap.Exact.congr (hr₂.exact hc) fun y => by simp [hdone₂]
  have hgone : ∀ x, x ∈ gone₁ ↔ x ∈ gone₂ := fun x =>
    ⟨fun hx => hr₂.subset hr₁ hc hdone₂ hx, fun hx => hr₁.subset hr₂ hc hdone₁ hx⟩
  have hlength : gone₁.length = gone₂.length :=
    ((List.perm_ext_iff_of_nodup hr₁.reclaims.1 hr₂.reclaims.1).mpr hgone).length_eq
  have hbody : ∀ x, Cascade.body? c₁.heap x = Cascade.body? c₂.heap x := fun x => by
    rw [hr₁.reclaims.2.2 x, hr₂.reclaims.2.2 x]
    simp only [hgone x]
  obtain ⟨hnext₁, htally₁⟩ := hr₁.tally
  obtain ⟨hnext₂, htally₂⟩ := hr₂.tally
  have hcells := hc₁.cells_eq hc₂ (hnext₁.trans hnext₂.symm) hbody
  have hsteps : n₁ = n₂ := by
    have h₁ := hr₁.consumes
    have h₂ := hr₂.consumes
    simp only [total, hcells] at h₁ h₂
    omega
  rw [hlength, hsteps, ← htally₂] at htally₁
  obtain ⟨⟨cells₁, tally₁⟩, pending₁⟩ := c₁
  obtain ⟨⟨cells₂, tally₂⟩, pending₂⟩ := c₂
  simp only at hcells htally₁
  rw [hcells, htally₁]

end Cascade

namespace Heap

variable {h : Heap} {out : CellId → Nat} {owned : List CellId}

/-- References are dropped one after the other. -/
theorem foldl_releaseAll (h : Heap) (order : List CellId) :
    order.foldl (fun h id => h.releaseAll [id]) h = h.releaseAll order := by
  induction order generalizing h with
  | nil => rw [releaseAll_nil, List.foldl_nil]
  | cons id rest ih => rw [List.foldl_cons, ih, ← releaseAll_append, List.singleton_append]

/-- On every heap with exact counts references can be dropped in any order: every step of the cascade
uses up one counted reference, no reference is dropped that is not counted, no cell is reclaimed
twice, and what survives keeps its payload; whatever the order, it ends with the same heap, whose
counts are exact. -/
theorem released_in_any_order (hc : h.Exact fun x => owned.count x + out x) :
    (∀ gone n c, Cascade.Runs ⟨h, owned⟩ gone n c →
      c.heap.total cellRefs + n = h.total cellRefs ∧
      (∀ id ∈ c.pending, 0 < c.heap.refs id ∧ ∃ gone' c', c.Step gone' c' ∧ gone' ⊆ [id]) ∧
      gone.Nodup ∧ (∀ x ∈ gone, h.isLive x = true) ∧
      (∀ x, c.heap.payload? x = if x ∈ gone then none else h.payload? x) ∧
      (c.pending = [] → c.heap = h.releaseAll owned)) ∧
    (∃ gone n, Cascade.Runs ⟨h, owned⟩ gone n ⟨h.releaseAll owned, []⟩) ∧
    (h.releaseAll owned).Exact out ∧
    ∀ order : List CellId, order.Perm owned →
      order.foldl (fun h id => h.releaseAll [id]) h = h.releaseAll owned := by
  obtain ⟨gone₀, n₀, hr₀⟩ := Cascade.runs_releaseAll hc
  refine ⟨fun gone n c hr => ?_, ⟨gone₀, n₀, hr₀⟩,
    Exact.congr (hr₀.exact hc) fun y => by simp, fun order ho => ?_⟩
  · obtain ⟨hnodup, halive, hbody⟩ := hr.reclaims
    refine ⟨hr.consumes, fun id hid => (hr.exact hc).exists_step hid, hnodup, halive, fun x => ?_,
      fun hdone => hr.unique hr₀ hc hdone rfl⟩
    rw [Cascade.payload?_eq, hbody x, Cascade.payload?_eq]
    split <;> rfl
  · have hc' : Cascade.Exact ⟨h, order⟩ out := Exact.congr hc fun y => by simp only [ho.count_eq]
    obtain ⟨gone, n, hr⟩ := Cascade.runs_releaseAll hc'
    rw [foldl_releaseAll]
    exact (hr.perm ho.symm rfl).unique hr₀ hc rfl rfl

/-- Two arrays that hold each other, and a third one that holds the first; each is owned once. -/
def ring : Heap :=
  ⟨#[some ⟨3, .array, .array #[.cell 1]⟩, some ⟨2, .array, .array #[.cell 0]⟩,
    some ⟨1, .array, .array #[.cell 0]⟩], ⟨3, 0, 3, 0⟩⟩

theorem exact_ring : ring.Exact fun x => [2, 0, 1].count x + 0 := by
  refine ⟨fun id => ?_, fun id cell hcell => ?_⟩
  · rcases id with _ | _ | _ | id <;> rfl
  · have hrefs : ring.refs id = cell.refs := by simp [refs, hcell]
    rcases id with _ | _ | _ | id
    · exact hrefs ▸ (by decide : 0 < ring.refs 0)
    · exact hrefs ▸ (by decide : 0 < ring.refs 1)
    · exact hrefs ▸ (by decide : 0 < ring.refs 2)
    · cases hcell

/-- The two that hold each other survive in every order. -/
theorem released_in_any_order_ring :
    (ring.Exact fun x => [2, 0, 1].count x + 0) ∧
    ((ring.releaseAll [2, 0, 1]).Exact fun _ => 0) ∧
    [0, 1, 2].foldl (fun h id => h.releaseAll [id]) ring = ring.releaseAll [2, 0, 1] :=
  have h := released_in_any_order exact_ring
  ⟨exact_ring, h.2.2.1, h.2.2.2 [0, 1, 2] (by decide)⟩

end Heap
end Enclave
