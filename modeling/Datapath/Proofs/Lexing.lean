import Datapath.Verilog.Printer

/-!
# Words and signs of a text

How a text is cut into words and signs: remarks are left out, from two slashes to the end of the
line, characters of names and numbers join to words, blanks separate them, and every other character
is a sign of its own. The lexer works from the right, so what it makes of two texts side by side is
what it makes of each, unless a word ends one and begins the other: `lex_append`.
-/

namespace Datapath.Verilog

/-- A piece of a text. -/
inductive Token where
  | word (text : String)
  | sign (char : Char)
  deriving DecidableEq, Repr

/-- The characters of names and numbers. -/
def isWordChar (char : Char) : Bool :=
  char.isAlphanum || char == '_' || char == '\''

/-- A text without its remarks. Within a remark, everything up to the end of the line is left
out. -/
def withoutRemarks : (inRemark : Bool) → List Char → List Char
  | _, [] => []
  | true, char :: rest =>
    if char = '\n' then char :: withoutRemarks false rest else withoutRemarks true rest
  | false, char :: rest =>
    if char = '/' ∧ rest.head? = some '/' then withoutRemarks true rest
    else char :: withoutRemarks false rest

/-- Puts a character before the pieces of the text that follows it, which may go on with a word. -/
def prepend (char : Char) (goesOn : Bool) (tokens : List Token) : List Token :=
  if isWordChar char then
    match goesOn, tokens with
    | true, .word text :: rest => .word (.ofList (char :: text.toList)) :: rest
    | _, _ => .word (.singleton char) :: tokens
  else if char.isWhitespace then
    tokens
  else
    .sign char :: tokens

/-- The pieces of a text without remarks. -/
def lex : List Char → List Token
  | [] => []
  | char :: rest => prepend char (rest.head?.any isWordChar) (lex rest)

/-- The pieces of a text. -/
def tokenize (text : List Char) : List Token :=
  lex (withoutRemarks false text)

theorem exists_word_of_head {text : List Char} (goesOn : text.head?.any isWordChar = true) :
    ∃ word rest, lex text = .word word :: rest := by
  cases text with
  | nil => cases goesOn
  | cons char rest =>
      have isWord : isWordChar char = true := goesOn
      simp only [lex, prepend, if_pos isWord]
      split <;> exact ⟨_, _, rfl⟩

/-- Only a character of a word can join the word that follows. -/
theorem prepend_of_apart {char : Char} {goesOn : Bool} (tokens : List Token)
    (apart : (isWordChar char && goesOn) = false) :
    prepend char goesOn tokens = prepend char false tokens := by
  by_cases isWord : isWordChar char = true
  · rw [isWord, Bool.true_and] at apart
    rw [apart]
  · unfold prepend
    rw [if_neg isWord, if_neg isWord]

theorem prepend_append {char : Char} {goesOn : Bool} {tokens : List Token} (more : List Token)
    (joins : goesOn = true → ∃ word rest, tokens = .word word :: rest) :
    prepend char goesOn (tokens ++ more) = prepend char goesOn tokens ++ more := by
  unfold prepend
  split
  · cases goesOn with
    | false => rfl
    | true =>
        rcases joins rfl with ⟨word, rest, rfl⟩
        rfl
  · split <;> rfl

/-- Two texts side by side, unless a word ends one and begins the other. -/
theorem lex_append {left right : List Char}
    (apart : (left.getLast?.any isWordChar && right.head?.any isWordChar) = false) :
    lex (left ++ right) = lex left ++ lex right := by
  induction left with
  | nil => rfl
  | cons char left ih =>
      cases left with
      | nil =>
          change prepend char (right.head?.any isWordChar) (lex right) =
            prepend char false [] ++ lex right
          have noJoin : (isWordChar char && right.head?.any isWordChar) = false := apart
          have noWord : false = true → ∃ word rest, ([] : List Token) = .word word :: rest := nofun
          rw [prepend_of_apart _ noJoin]
          exact prepend_append (lex right) noWord
      | cons next left =>
          rw [List.getLast?_cons_cons] at apart
          change prepend char (isWordChar next) (lex (next :: left ++ right)) =
            prepend char (isWordChar next) (lex (next :: left)) ++ lex right
          rw [ih apart]
          exact prepend_append (lex right) fun goesOn => exists_word_of_head goesOn

/-- A text that neither begins nor ends with a word. -/
def IsSeparator (text : List Char) : Prop :=
  text.head?.any isWordChar = false ∧ text.getLast?.any isWordChar = false ∧ text ≠ []

instance (text : List Char) : Decidable (IsSeparator text) :=
  inferInstanceAs (Decidable (_ ∧ _))

variable {separator : List Char}

theorem lex_separator_append (separates : IsSeparator separator) (right : List Char) :
    lex (separator ++ right) = lex separator ++ lex right := by
  apply lex_append
  rw [separates.2.1, Bool.false_and]

theorem lex_append_separator (left : List Char) (separates : IsSeparator separator) :
    lex (left ++ separator) = lex left ++ lex separator := by
  apply lex_append
  rw [separates.1, Bool.and_false]

theorem lex_separated (left right : List Char) (separates : IsSeparator separator) :
    lex (left ++ separator ++ right) = lex left ++ lex separator ++ lex right := by
  have closed : (left ++ separator).getLast? = separator.getLast? := by
    rw [List.getLast?_append, Option.or_of_isSome]
    exact List.getLast?_isSome.mpr separates.2.2
  rw [← lex_append_separator left separates]
  apply lex_append
  rw [closed, separates.2.1, Bool.false_and]

/-- Texts with one separator between them. -/
theorem lex_intercalate (separates : IsSeparator separator) (texts : List (List Char)) :
    lex (separator.intercalate texts) = (lex separator).intercalate (texts.map lex) := by
  induction texts with
  | nil => rfl
  | cons text texts ih =>
      cases texts with
      | nil => simp
      | cons next texts =>
          rw [List.intercalate_cons_cons, lex_separated _ _ separates, ih, List.map_cons,
            List.map_cons, List.map_cons, List.intercalate_cons_cons]

/-- A name or a number is one word. -/
theorem lex_word {text : String} (nonempty : text ≠ "")
    (isWord : ∀ char ∈ text.toList, isWordChar char = true) : lex text.toList = [.word text] := by
  have ofChars (chars : List Char) (nonempty : chars ≠ [])
      (isWord : ∀ char ∈ chars, isWordChar char = true) :
      lex chars = [.word (.ofList chars)] := by
    induction chars with
    | nil => exact absurd rfl nonempty
    | cons char chars ih =>
        rw [List.forall_mem_cons] at isWord
        cases chars with
        | nil =>
            change prepend char false [] = _
            unfold prepend
            rw [if_pos isWord.1]
            rfl
        | cons next chars =>
            have goesOn : isWordChar next = true := isWord.2 next List.mem_cons_self
            change prepend char (isWordChar next) (lex (next :: chars)) = _
            rw [ih nofun isWord.2, goesOn]
            unfold prepend
            rw [if_pos isWord.1]
            simp
  have chars : text.toList ≠ [] := by
    intro none
    exact nonempty (String.toList_inj.mp none)
  rw [ofChars text.toList chars isWord, String.ofList_toList]

/-- A character that is neither blank nor part of a word is found again. -/
theorem sign_mem_lex {char : Char} {text : List Char} (member : char ∈ text)
    (noWord : isWordChar char = false) (noBlank : char.isWhitespace = false) :
    .sign char ∈ lex text := by
  induction text with
  | nil => cases member
  | cons first rest ih =>
      rw [lex]
      unfold prepend
      rcases List.mem_cons.mp member with rfl | later
      · simp [noWord, noBlank]
      · have found := ih later
        split
        · split
          · rename_i starts
            rw [starts] at found
            simpa using found
          · exact List.mem_cons_of_mem _ found
        · split
          · exact found
          · exact List.mem_cons_of_mem _ found

/-! ## Remarks -/

/-- A text without slashes has no remarks. -/
theorem withoutRemarks_append {text : List Char} (noSlash : '/' ∉ text) (rest : List Char) :
    withoutRemarks false (text ++ rest) = text ++ withoutRemarks false rest := by
  induction text with
  | nil => rfl
  | cons char text ih =>
      rw [List.mem_cons, not_or] at noSlash
      rw [List.cons_append, withoutRemarks, if_neg fun both => noSlash.1 both.1.symm,
        ih noSlash.2]
      rfl

/-- A remark reaches to the end of its line. -/
theorem withoutRemarks_remark {remark : List Char} (oneLine : '\n' ∉ remark) (rest : List Char) :
    withoutRemarks true (remark ++ '\n' :: rest) = '\n' :: withoutRemarks false rest := by
  induction remark with
  | nil => rfl
  | cons char remark ih =>
      rw [List.mem_cons, not_or] at oneLine
      rw [List.cons_append, withoutRemarks, if_neg (Ne.symm oneLine.1), ih oneLine.2]

end Datapath.Verilog
