import LineExchange.Conformance.Rig

/-!
# LineExchange.Conformance.Scenario

A scenario is a trial that every memory should pass, with the settings of its rig. Its name tells
scenarios apart and stands in the report of one that fails.
-/

namespace LineExchange

/-- A trial that every memory should pass. -/
structure Scenario where
  name : String
  config : Config := {}
  body : {M : Type} → [Memory M] → Trial M Unit

/-- How a scenario ends. -/
inductive Verdict where
  | passed
  /-- It broke off. If something was not as it should be, the fault says what. -/
  | broken (f : Fault)
  /-- It goes on past all that is followed. -/
  | endless
deriving DecidableEq

namespace Scenario

variable {M : Type} [Memory M]

def report (s : Scenario) (e : ScenarioError) : String := s!"run_{s.name} failed: {e.message}"

def verdictOf (s : Scenario) : TrialStop → Verdict
  | .failed e => .broken (.assertion (some (s.report e)))
  | .fault f => .broken f
  | .endless => .endless

def run (s : Scenario) (make : Nat → Except ScenarioError M) : Verdict :=
  match Rig.assemble make s.config with
  | .error e => s.verdictOf e
  | .ok rig =>
    match ((ExceptT.run s.body).run rig).1 with
    | .ok () => .passed
    | .error e => s.verdictOf e

end Scenario
end LineExchange
