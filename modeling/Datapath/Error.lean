import Datapath.Adder.Algorithm
import Datapath.Fault
import Datapath.Primitive
import Datapath.Text.Quoted

/-!
# Errors

Each error is a cause; `message` gives its wording. A `ConfigError` refuses a choice of parameters
before anything is built, a `NetlistError` says what is wrong with a netlist. `Error` joins them
with the faults of callers, for operations that may meet any of them.
-/

namespace Datapath

/-- A choice of parameters that cannot be built. -/
inductive ConfigError where
  | zeroWidth
  /-- Prefix trees need as many bits as a power of two. -/
  | widthNotPowerOfTwo (topology : Adder.Topology) (width : Nat)
  /-- Radix-4 recoding takes the multiplier two bits at a time. -/
  | oddBoothWidth (width : Nat)
  | unknownAlgorithm (name : String)
  | unknownProcess (name : String)
  | unknownScheme (name : String)
  /-- The provider lacks a primitive that decompositions end in. -/
  | missingBasisPrimitive (provider : String) (primitive : Primitive)
  deriving DecidableEq, Repr

namespace ConfigError

/-- The wording of the error. -/
def message : ConfigError → String
  | .zeroWidth => "bit width must be at least 1"
  | .widthNotPowerOfTwo topology width =>
    (Adder.Algorithm.tree topology).name ++ " requires a power-of-two width; got "
      ++ toString width ++ " bits"
  | .oddBoothWidth width =>
    "booth radix-4 requires an even width; got " ++ toString width ++ " bits"
  | .unknownAlgorithm name =>
    "unknown adder algorithm " ++ Text.quoted name
      ++ "; expected one of brentkung, koggestone, hancarlson, inferred"
  | .unknownProcess name =>
    "unknown process " ++ Text.quoted name ++ "; expected one of none, sky130"
  | .unknownScheme name =>
    "unknown partial product scheme " ++ Text.quoted name
      ++ "; expected one of booth, schoolbook"
  | .missingBasisPrimitive provider primitive =>
    "gate provider " ++ provider ++ " cannot realize basis primitive " ++ primitive.mnemonic

end ConfigError

/-- A defect of a netlist, or a question about a port that it does not have. -/
inductive NetlistError where
  | signalOutOfBounds (signal count : Nat)
  | undrivenSignal (signal : Nat) (reader : String)
  | multiplyDrivenSignal (signal : Nat) (first second : String)
  /-- A gate drives an input or a literal. -/
  | drivenSource (signal : Nat) (gate : String)
  | portWidthMismatch (port : String) (expected actual : Nat)
  | arity (gate : String) (primitive : Primitive) (inputs outputs : Nat)
  | combinationalLoop (stuckGates : Nat)
  | unknownPort (name : String)
  deriving DecidableEq, Repr

namespace NetlistError

/-- The wording of the error. -/
def message : NetlistError → String
  | .signalOutOfBounds signal count =>
    "signal %" ++ toString signal ++ " is out of bounds (signal count " ++ toString count ++ ")"
  | .undrivenSignal signal reader =>
    "signal %" ++ toString signal ++ " read by " ++ reader ++ " has no driver"
  | .multiplyDrivenSignal signal first second =>
    "signal %" ++ toString signal ++ " is driven by both " ++ first ++ " and " ++ second
  | .drivenSource signal gate =>
    "gate " ++ gate ++ " drives %" ++ toString signal ++ " which is an input or literal"
  | .portWidthMismatch port expected actual =>
    "port " ++ port ++ " expected " ++ toString expected ++ " bits but has " ++ toString actual
  | .arity gate primitive inputs outputs =>
    "gate " ++ gate ++ " (" ++ primitive.mnemonic ++ ") has " ++ toString inputs
      ++ " inputs and " ++ toString outputs ++ " outputs"
  | .combinationalLoop stuckGates =>
    "combinational loop; " ++ toString stuckGates ++ " gates could not be ordered"
  | .unknownPort name => "no port named " ++ Text.quoted name

end NetlistError

/-- Anything that can keep an operation from its result. -/
inductive Error where
  | config (cause : ConfigError)
  | netlist (cause : NetlistError)
  | fault (cause : Fault)
  deriving DecidableEq, Repr

namespace Error

/-- The wording of an error that says which kind it is. A fault has no wording. -/
def message : Error → String
  | .config cause => "configuration error: " ++ cause.message
  | .netlist cause => "netlist error: " ++ cause.message
  | .fault _ => ""

/-- Lets a computation that can only meet a configuration error take part in any other. -/
instance : MonadLift (Except ConfigError) (Except Error) where
  monadLift := Except.mapError Error.config

instance : MonadLift (Except NetlistError) (Except Error) where
  monadLift := Except.mapError Error.netlist

instance : MonadLift (Except Fault) (Except Error) where
  monadLift := Except.mapError Error.fault

end Error

end Datapath
