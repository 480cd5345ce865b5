import FlowAnalysis.Json.Record
import FlowAnalysis.Text.Blank

/-!
# Options

What an analysis looks for in a script.  Every option has a default, so
any part of them can be given.
-/

namespace FlowAnalysis

/-- The options of an analysis. -/
structure Options where
  /-- The class that a flow extends. -/
  flowBaseClass : String := "BubbleFlow"
  /-- The type whose members are the payloads of the triggers. -/
  triggerRegistryType : String := "BubbleTriggerEventRegistry"
  /-- The module that bubble classes are imported from. -/
  bubblePackage : String := "@bubblelab/bubble-core"
  /-- How many columns a constructor may be away from the place of a located bubble. -/
  locationTolerance : Nat := 8
  /-- Whether calls are expanded into the body of the function called. -/
  expandMethodCalls : Bool := true
  deriving DecidableEq, Repr, Inhabited

namespace Options

/-- The fields of the options. -/
def fields : List String :=
  ["flowBaseClass", "triggerRegistryType", "bubblePackage", "locationTolerance",
    "expandMethodCalls"]

/-- The options as JSON. -/
def toJson (o : Options) : Json :=
  .obj [("flowBaseClass", .str o.flowBaseClass),
    ("triggerRegistryType", .str o.triggerRegistryType),
    ("bubblePackage", .str o.bubblePackage), ("locationTolerance", .ofNat o.locationTolerance),
    ("expandMethodCalls", .bool o.expandMethodCalls)]

/-- Reads options; a missing field has its default. -/
def ofJson? (j : Json) : Option Options := do
  let d : Options := {}
  let r ← Json.Record.of? fields j
  let flowBaseClass ← r.defaulted "flowBaseClass" d.flowBaseClass Json.string?
  let triggerRegistryType ← r.defaulted "triggerRegistryType" d.triggerRegistryType Json.string?
  let bubblePackage ← r.defaulted "bubblePackage" d.bubblePackage Json.string?
  let locationTolerance ← r.defaulted "locationTolerance" d.locationTolerance Json.count?
  let expandMethodCalls ← r.defaulted "expandMethodCalls" d.expandMethodCalls Json.bool?
  return ⟨flowBaseClass, triggerRegistryType, bubblePackage, locationTolerance, expandMethodCalls⟩

/-- Reads options from text; a blank text stands for the defaults. -/
def ofText? (s : String) : Option Options :=
  if (Text.trim s).isEmpty then some {} else (Json.parse? s).bind ofJson?

end Options

end FlowAnalysis
