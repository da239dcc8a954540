import Datapath.Adder.Algorithm
import Datapath.Multiplier.Scheme
import Datapath.Netlist.Basic

/-!
# The construction log

What happens while a netlist is built, as events. An event has a level and a message; both are read
off the event when it is shown.
-/

namespace Datapath

/-- How much an event matters to the reader. -/
inductive Level where
  | error
  | warn
  | info
  | debug
  | trace
  deriving DecidableEq, Repr

namespace Level

/-- All levels, the most urgent first. -/
def all : List Level :=
  [.error, .warn, .info, .debug, .trace]

/-- The name of a level. -/
def name : Level → String
  | .error => "ERROR"
  | .warn => "WARN"
  | .info => "INFO"
  | .debug => "DEBUG"
  | .trace => "TRACE"

/-- Whether events of a level are shown where a limit is set. -/
def isWithin (level limit : Level) : Bool :=
  all.idxOf level ≤ all.idxOf limit

end Level

/-- Something that happened during construction. -/
inductive Event where
  | generatingAdder (width : Nat) (algorithm : Adder.Algorithm) (provider : String)
  | generatingMultiplier (width : Nat) (scheme : Multiplier.Scheme)
      (finalAdder : Adder.Algorithm) (multiplyAdd : Bool) (provider : String)
  | gatePlaced (name : String) (primitive : Primitive) (inputs : List SignalId)
  | decomposing (provider : String) (primitive : Primitive)
  | prefixCombined (target source : Nat)
  | prefixTree (algorithm : Adder.Algorithm) (width levels gates : Nat)
  | bitDropped (column : Nat)
  | boothMatrix (width rows : Nat) (heights : List Nat)
  | daddaSchedule (maxHeight : Nat) (targets : List Nat)
  | daddaStage (stage : Nat) (heights : List Nat)
  | daddaTotals (fullAdders halfAdders : Nat)
  | built (name : String) (gates signals : Nat)
  | depthFound (name : String) (depth : Nat)
  deriving DecidableEq, Repr

namespace Event

/-- The level of an event. -/
def level : Event → Level
  | .generatingAdder .. | .generatingMultiplier .. => .info
  | .prefixTree .. | .boothMatrix .. | .daddaSchedule .. | .daddaTotals .. | .built ..
  | .depthFound .. => .debug
  | .gatePlaced .. | .decomposing .. | .prefixCombined .. | .bitDropped .. | .daddaStage .. =>
    .trace

/-- The items of a list between brackets. -/
def bracketed (items : List String) : String :=
  "[" ++ ", ".intercalate items ++ "]"

/-- Numbers between brackets. -/
def numbers (items : List Nat) : String :=
  bracketed (items.map toString)

/-- A signal as messages name it. -/
def signalText (id : SignalId) : String :=
  "SignalRef \x7b id: " ++ toString id ++ " \x7d"

/-- The message of an event. -/
def message : Event → String
  | .generatingAdder width algorithm provider =>
    "generating " ++ toString width ++ "-bit " ++ algorithm.name ++ " adder with provider "
      ++ provider
  | .generatingMultiplier width scheme finalAdder multiplyAdd provider =>
    "generating " ++ toString width ++ "-bit " ++ scheme.name ++ " multiplier (final adder "
      ++ finalAdder.name ++ ", multiply_add " ++ (if multiplyAdd then "true" else "false")
      ++ ") with provider " ++ provider
  | .gatePlaced name primitive inputs =>
    name ++ " = " ++ primitive.mnemonic ++ "(" ++ bracketed (inputs.map signalText) ++ ")"
  | .decomposing provider primitive =>
    "provider " ++ provider ++ " lacks " ++ primitive.mnemonic ++ "; decomposing"
  | .prefixCombined target source =>
    "prefix combine " ++ toString target ++ " <- " ++ toString source
  | .prefixTree algorithm width levels gates =>
    algorithm.name ++ " prefix tree over " ++ toString width ++ " bits: " ++ toString levels
      ++ " levels, " ++ toString gates ++ " gates"
  | .bitDropped column =>
    "dropping bit for column " ++ toString column ++ " (out of range)"
  | .boothMatrix width rows heights =>
    "booth radix-4 " ++ toString width ++ "x" ++ toString width ++ ": " ++ toString rows
      ++ " rows, column heights " ++ numbers heights
  | .daddaSchedule maxHeight targets =>
    "dadda: max height " ++ toString maxHeight ++ ", schedule " ++ numbers targets
  | .daddaStage stage heights =>
    "dadda stage " ++ toString stage ++ " -> heights " ++ numbers heights
  | .daddaTotals fullAdders halfAdders =>
    "dadda: " ++ toString fullAdders ++ " full adders, " ++ toString halfAdders ++ " half adders"
  | .built name gates signals =>
    "built " ++ name ++ " with " ++ toString gates ++ " gates over " ++ toString signals
      ++ " signals"
  | .depthFound name depth =>
    name ++ ": comb depth " ++ toString depth

/-- The line that shows an event. -/
def line (event : Event) : String :=
  event.level.name ++ ": " ++ event.message

end Event

/-- Events in the order in which they happened. -/
abbrev Log := Array Event

end Datapath
