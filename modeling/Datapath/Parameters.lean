import Datapath.Error
import Datapath.Multiplier.Scheme

/-!
# Checks on parameters

Which names and widths the generators accept.
-/

namespace Datapath

/-- Whether a number is a power of two. -/
def isPowerOfTwo (number : Nat) : Bool :=
  number == 1 <<< number.log2

namespace Adder.Algorithm

/-- The algorithm that a user named. -/
def ofName (text : String) : Except ConfigError Algorithm :=
  match ofName? text with
  | some algorithm => pure algorithm
  | none => throw (.unknownAlgorithm text)

/-- Accepts the widths that the algorithm can add: any but zero, and for trees the powers of two. -/
def checkWidth (algorithm : Algorithm) (width : Nat) : Except ConfigError Unit :=
  if width = 0 then
    throw .zeroWidth
  else match algorithm with
    | .tree topology =>
      if isPowerOfTwo width then pure () else throw (.widthNotPowerOfTwo topology width)
    | .inferred => pure ()

end Adder.Algorithm

namespace Multiplier.Scheme

/-- The scheme that a user named. -/
def ofName (text : String) : Except ConfigError Scheme :=
  match ofName? text with
  | some scheme => pure scheme
  | none => throw (.unknownScheme text)

/-- Accepts the widths that the scheme can multiply: any but zero, and for recoding even ones. -/
def checkWidth (scheme : Scheme) (width : Nat) : Except ConfigError Unit :=
  if width = 0 then
    throw .zeroWidth
  else match scheme with
    | .booth => if width % 2 = 0 then pure () else throw (.oddBoothWidth width)
    | .schoolbook => pure ()

end Multiplier.Scheme

end Datapath
