import Mathlib.Data.List.TakeWhile
import Datapath.Builder.Basic
import Datapath.Proofs.RoundTrip

/-!
# Names of wires and gates

The name of a wire is its label with the wire's position after it. A label that is a stem makes it a
name, and whatever the labels are, names of different positions differ, because the digits at the
end of a name are the position. The name of an input signal does not end in a digit.

The name of a gate has the number of the gate at its end, so the same holds of gates. Before the
number stands the short name of a primitive; where labels do not end like that, no wire has the name
of a gate, although their numbers are counted separately.
-/

namespace Datapath

open Verilog (IsName IsStem)

namespace Verilog

/-- The last character of a text is a digit. -/
def EndsInDigit (text : String) : Prop :=
  text.toList.getLast?.any Char.isDigit = true

instance (text : String) : Decidable (EndsInDigit text) :=
  inferInstanceAs (Decidable (_ = true))

theorem eq_of_append_right {left right rest : String} (same : left ++ rest = right ++ rest) :
    left = right := by
  have chars := congrArg String.toList same
  rw [String.toList_append, String.toList_append] at chars
  exact String.toList_inj.mp (List.append_cancel_right chars)

theorem endsInDigit_append_toString (stem : String) (number : Nat) :
    EndsInDigit (stem ++ toString number) := by
  have some : (toString number).toList ≠ [] := toList_toString number ▸ Nat.toDigits_ne_nil
  rw [EndsInDigit, String.toList_append, List.getLast?_append,
    List.getLast?_eq_some_getLast some, Option.some_or]
  exact isDigit_of_mem_toString (List.getLast_mem some)

/-- The digits at the end of a text. -/
def finalDigits (text : String) : List Char :=
  (text.toList.reverse.takeWhile Char.isDigit).reverse

theorem finalDigits_append_toString {stem : String} (ends : ¬ EndsInDigit stem) (number : Nat) :
    finalDigits (stem ++ toString number) = (toString number).toList := by
  have digits : ∀ char ∈ (toString number).toList.reverse, char.isDigit = true :=
    fun char member => isDigit_of_mem_toString (List.mem_reverse.mp member)
  have stops : stem.toList.reverse.takeWhile Char.isDigit = [] := by
    rw [EndsInDigit, ← List.head?_reverse] at ends
    cases reversed : stem.toList.reverse with
    | nil => rfl
    | cons char rest =>
        rw [reversed] at ends
        exact List.takeWhile_cons_of_neg ends
  rw [finalDigits, String.toList_append, List.reverse_append, List.takeWhile_append_of_pos digits,
    stops, List.append_nil, List.reverse_reverse]

theorem eq_of_append_toString {left right : String} {first second : Nat}
    (endsLeft : ¬ EndsInDigit left) (endsRight : ¬ EndsInDigit right)
    (same : left ++ toString first = right ++ toString second) : first = second := by
  have digits := congrArg finalDigits same
  rw [finalDigits_append_toString endsLeft, finalDigits_append_toString endsRight] at digits
  have numbers := congrArg String.toNat? (String.toList_inj.mp digits)
  have read (number : Nat) : (toString number).toNat? = some number := Nat.toNat?_repr number
  rw [read, read] at numbers
  exact Option.some.inj numbers

theorem IsStem.append {stem rest : String} (isStem : IsStem stem)
    (chars : rest.toList.all fun char => char.isAlphanum || char == '_') :
    IsStem (stem ++ rest) where
  starts := by
    have starts := isStem.starts
    rw [String.toList_append]
    cases first : stem.toList with
    | nil =>
        rw [first] at starts
        cases starts
    | cons char chars =>
        rw [first] at starts
        exact starts
  chars := by
    rw [String.toList_append, List.all_append, isStem.chars, chars, Bool.true_and]

/-- A stem with a number after it is a name, since no reserved word ends in a digit. -/
theorem IsStem.isName_append_toString {stem : String} (isStem : IsStem stem) (number : Nat) :
    IsName (stem ++ toString number) where
  toIsStem := by
    refine isStem.append (List.all_eq_true.mpr fun char member => ?_)
    rw [Char.isAlphanum, isDigit_of_mem_toString member]
    simp
  free member := by
    have ends : ∀ word ∈ reserved, ¬ EndsInDigit word := by decide
    exact ends _ member (endsInDigit_append_toString stem number)

/-- A name is a remark of its own, as it has no line breaks. -/
theorem IsStem.isRemark {text : String} (isStem : IsStem text) : IsRemark text :=
  fun member => absurd (List.all_eq_true.mp isStem.chars _ member) (by decide)

end Verilog

namespace Signal

open Verilog

/-- The name of a wire up to its position. -/
def stem : Option String → String
  | some label => label ++ "_"
  | none => "n"

theorem text_wire (label : Option String) (position : SignalId) :
    (wire label).text position = stem label ++ toString position := by
  cases label <;> rfl

theorem not_endsInDigit_stem (label : Option String) : ¬ EndsInDigit (stem label) := by
  cases label with
  | none => decide
  | some label =>
      rw [stem, EndsInDigit, String.toList_append, List.getLast?_append]
      exact (by decide : ¬ Option.any Char.isDigit (some '_') = true)

theorem isStem_stem {label : Option String} (isStem : ∀ text ∈ label, IsStem text) :
    IsStem (stem label) := by
  cases label with
  | none => decide
  | some label => exact (isStem label rfl).append (by decide)

/-- A wire whose label is a stem has a name. -/
theorem isName_text {label : Option String} (isStem : ∀ text ∈ label, IsStem text)
    (position : SignalId) : IsName ((wire label).text position) := by
  rw [text_wire]
  exact (isStem_stem isStem).isName_append_toString position

/-- Wires at different positions have different names, whatever their labels are. -/
theorem eq_of_text_eq {label other : Option String} {first second : SignalId}
    (same : (wire label).text first = (wire other).text second) : first = second := by
  rw [text_wire, text_wire] at same
  exact eq_of_append_toString (not_endsInDigit_stem label) (not_endsInDigit_stem other) same

theorem endsInDigit_text (label : Option String) (position : SignalId) :
    EndsInDigit ((wire label).text position) := by
  rw [text_wire]
  exact endsInDigit_append_toString _ position

/-- The name of an input signal ends in a bracket. -/
theorem not_endsInDigit_bitText (port : String) (bit : Nat) :
    ¬ EndsInDigit (bitText port bit) := by
  rw [bitText, EndsInDigit, String.toList_append, List.getLast?_append]
  exact (by decide : ¬ Option.any Char.isDigit (some ']') = true)

end Signal

namespace Verilog

/-- The part of a text after its last underscore, from its end. -/
def lastPart (text : String) : List Char :=
  text.toList.reverse.takeWhile (· ≠ '_')

theorem all_reverse_of_free {part : String} (free : '_' ∉ part.toList) :
    ∀ char ∈ part.toList.reverse, decide (char ≠ '_') = true := by
  intro char member
  refine decide_eq_true fun isUnderscore => free ?_
  exact isUnderscore ▸ List.mem_reverse.mp member

theorem lastPart_of_free {part : String} (free : '_' ∉ part.toList) :
    lastPart part = part.toList.reverse :=
  List.takeWhile_eq_self_iff.mpr (all_reverse_of_free free)

theorem lastPart_append {part : String} (free : '_' ∉ part.toList) (text : String) :
    lastPart (text ++ "_" ++ part) = part.toList.reverse := by
  rw [lastPart, String.toList_append, String.toList_append, List.reverse_append,
    List.reverse_append, List.takeWhile_append_of_pos (all_reverse_of_free free)]
  simp

/-- A label is a stem that does not end like the name of a gate before its number. -/
structure IsLabel (text : String) : Prop extends IsStem text where
  apart : ∀ primitive ∈ Primitive.all, lastPart text ≠ primitive.mnemonic.toList.reverse

instance (text : String) : Decidable (IsLabel text) :=
  decidable_of_iff _ ⟨fun ⟨isStem, apart⟩ => IsLabel.mk isStem apart,
    fun isLabel => And.intro isLabel.toIsStem isLabel.apart⟩

end Verilog

namespace Gate

open Verilog

/-- The name of a gate up to its number. -/
def stem (scope : Option String) (primitive : Primitive) : String :=
  match scope with
  | some scope => scope ++ "_" ++ primitive.mnemonic ++ "_"
  | none => primitive.mnemonic ++ "_"

/-- The gate is named for its primitive and a number. -/
def Numbered (number : Nat) (gate : Gate) : Prop :=
  ∃ scope, gate.name = stem scope gate.primitive ++ toString number

theorem getLast?_stem (scope : Option String) (primitive : Primitive) :
    (stem scope primitive).toList.getLast? = some '_' := by
  cases scope <;> rw [stem, String.toList_append, List.getLast?_append] <;> rfl

theorem not_endsInDigit_stem (scope : Option String) (primitive : Primitive) :
    ¬ EndsInDigit (stem scope primitive) := by
  rw [EndsInDigit, getLast?_stem]
  decide

theorem isStem_stem {scope : Option String} (isStem : ∀ text ∈ scope, IsStem text)
    (primitive : Primitive) : IsStem (stem scope primitive) := by
  have mnemonic : IsStem (primitive.mnemonic ++ "_") := by
    cases primitive <;> decide
  cases scope with
  | none => exact mnemonic
  | some scope =>
      rw [stem, String.append_assoc]
      exact ((isStem scope rfl).append (by decide)).append mnemonic.chars

theorem Numbered.endsInDigit {number : Nat} {gate : Gate} (numbered : gate.Numbered number) :
    EndsInDigit gate.name := by
  rcases numbered with ⟨scope, isName⟩
  exact isName ▸ endsInDigit_append_toString _ number

/-- Gates of different numbers have different names. -/
theorem Numbered.eq_of_name_eq {first second : Nat} {left right : Gate}
    (numberedLeft : left.Numbered first) (numberedRight : right.Numbered second)
    (same : left.name = right.name) : first = second := by
  rcases numberedLeft with ⟨scope, isLeft⟩
  rcases numberedRight with ⟨other, isRight⟩
  rw [isLeft, isRight] at same
  exact eq_of_append_toString (not_endsInDigit_stem scope _) (not_endsInDigit_stem other _) same

theorem lastPart_of_stem {text : String} {scope : Option String} {primitive : Primitive}
    (same : text ++ "_" = stem scope primitive) :
    lastPart text = primitive.mnemonic.toList.reverse := by
  have free : '_' ∉ primitive.mnemonic.toList := by
    cases primitive <;> decide
  cases scope with
  | none =>
      rw [eq_of_append_right same]
      exact lastPart_of_free free
  | some scope =>
      rw [eq_of_append_right same]
      exact lastPart_append free scope

/-- No wire whose label is one has the name of a gate. -/
theorem Numbered.name_ne_text {number : Nat} {gate : Gate} (numbered : gate.Numbered number)
    {label : Option String} (isLabel : ∀ text ∈ label, IsLabel text) (position : SignalId) :
    gate.name ≠ (Signal.wire label).text position := by
  intro same
  rcases numbered with ⟨scope, isName⟩
  rw [isName, Signal.text_wire] at same
  have sameNumber := eq_of_append_toString (not_endsInDigit_stem scope gate.primitive)
    (Signal.not_endsInDigit_stem label) same
  rw [sameNumber] at same
  have sameStem := eq_of_append_right same
  cases label with
  | none =>
      have last := congrArg (·.toList.getLast?) sameStem
      rw [getLast?_stem] at last
      exact absurd last (by decide)
  | some text =>
      exact (isLabel text rfl).apart gate.primitive (Primitive.mem_all _)
        (lastPart_of_stem sameStem.symm)

end Gate

namespace Netlist

/-- Every gate is named for its primitive and its number. -/
def Numbered (netlist : Netlist) : Prop :=
  ∀ (number : Nat) (gate : Gate), netlist.gates.toList[number]? = some gate → gate.Numbered number

/-- The names of the gates differ, as their numbers do. -/
theorem Numbered.nodup_names {netlist : Netlist} (numbered : netlist.Numbered) :
    (netlist.gates.toList.map (·.name)).Nodup := by
  refine List.pairwise_map.mpr (List.pairwise_iff_getElem.mpr ?_)
  intro first second isFirst isSecond before same
  have numberedFirst := numbered first _ (List.getElem?_eq_getElem isFirst)
  have numberedSecond := numbered second _ (List.getElem?_eq_getElem isSecond)
  exact Nat.ne_of_lt before (numberedFirst.eq_of_name_eq numberedSecond same)

end Netlist

namespace Builder

theorem gateName_eq (builder : Builder) (primitive : Primitive) :
    builder.gateName primitive =
      Gate.stem builder.scope primitive ++ toString builder.netlist.gates.size := by
  rw [gateName]
  cases builder.scope <;> simp only [Gate.stem, String.append_assoc]

/-- A new gate gets the next number, whatever the scope is. -/
theorem numbered_place {builder : Builder} (numbered : builder.netlist.Numbered)
    (primitive : Primitive) (realization : Realization) (inputs : List SignalId)
    (outputs : Nat) : (builder.place primitive realization inputs outputs).netlist.Numbered := by
  intro number gate found
  rw [place, Array.toList_push, List.getElem?_append] at found
  split at found
  · exact numbered number gate found
  · rename_i beyond
    rw [Array.length_toList] at beyond found
    rcases List.getElem?_eq_some_iff.mp found with ⟨inside, rfl⟩
    have last : number = builder.netlist.gates.size := by
      rw [List.length_singleton] at inside
      omega
    refine ⟨builder.scope, ?_⟩
    rw [List.getElem_singleton, last]
    exact gateName_eq builder primitive

end Builder

end Datapath
