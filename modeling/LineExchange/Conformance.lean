import LineExchange.Conformance.Defect
import LineExchange.Conformance.Delivery
import LineExchange.Conformance.Sharing
import LineExchange.Conformance.Turns

/-!
# LineExchange.Conformance

The scenarios that every memory should pass, by name.
-/

namespace LineExchange
namespace Scenario

def all : List Scenario := [
  loopback, inlineBoundary, alternation, capacity, unknownTag, alwaysExit, stuck, callAndReply,
  bringUp, isolation, sharedOwner, preemption]

def named? (name : String) : Option Scenario := all.find? (·.name = name)

def runOver (s : Scenario) (defects : List Defect) : Verdict := s.run (Defect.supply defects)

end Scenario
end LineExchange
