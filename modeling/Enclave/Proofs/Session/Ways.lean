import Enclave.Proofs.Session.Tidy

/-! # The ways of sessions

A session goes on one way from its beginning to its end, also while the host accesses a cell itself. It
is a faithful one: by way of a function cell nothing is called but with what it is lent for the call.
-/
namespace Enclave.Act

variable {α : Type} {faithful : Prop} {on : Surroundings}

/-- The terms of sessions, kept faithfully. -/
def sessionRules : Rules :=
  ⟨sessionTerms, True⟩

theorem Ways.borrowing {x : Act α} (hx : Ways faithful x) (register : String) (exclusive : Bool) :
    Ways faithful (borrowing register exclusive x) := by
  refine ways_world fun w => ?_
  split
  · exact ways_pure _
  · refine (ways_change (.share _)).bind fun _ => (ways_change .hold).bind fun _ => ?_
    refine Ways.bind ?_ fun _ => (ways_change .letGo).bind fun _ => ways_pure _
    exact Ways.accessing (hx.bind fun _ => ways_pure _) (ways_pure _) _

theorem ways_reportStep (marks : Marks) (outcome : Except HostError Answer) :
    Ways True (reportStep marks outcome) :=
  have h : Neat sessionRules [] (reportStep marks outcome) := tidy_reportStep trivial marks outcome
  h.ways

mutual

theorem ways_performStep (hc : on.call.Conducts sessionRules) :
    ∀ (step : Step) (marks : Marks), Ways True (performStep on marks step)
  | .act action into, marks => by
    rw [performStep]
    exact (tidy_performAction trivial hc False.elim marks into).ways
  | .borrowed register exclusive steps, marks => by
    rw [performStep]
    refine ((ways_performSteps hc steps marks).borrowing register exclusive).bind fun outcome => ?_
    cases outcome with
    | ok reports => exact ways_reportStep _ _
    | error a => exact ways_reportStep _ _

theorem ways_performSteps (hc : on.call.Conducts sessionRules) :
    ∀ (steps : List Step) (marks : Marks), Ways True (performSteps on marks steps)
  | [], marks => by
    rw [performSteps]
    exact ways_pure _
  | step :: rest, marks => by
    rw [performSteps]
    exact (ways_performStep hc step marks).bind fun r =>
      (ways_performSteps hc rest r.2).bind fun _ => ways_pure _

end

theorem ways_session (b : Budget) (steps : List Step) : Ways True (Session.act b steps) := by
  have hnote : Neat sessionRules [] (note .closing) := .note _ fun _ => rfl
  have hend : Neat sessionRules [] endSession := tidy_endSession
  refine ways_world fun w => Ways.bind ?_ fun r => hnote.ways.bind fun _ =>
    hend.ways.bind fun _ => ways_world fun w => ways_pure _
  exact ways_performSteps (conducts_callNative _ _ _) steps _

end Enclave.Act
