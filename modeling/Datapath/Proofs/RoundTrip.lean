import Datapath.Proofs.Spelling

/-!
# What is printed is read back

Every part of a module has a spelling: the symbols, or the tokens, that its text is cut into. For
each part there are two facts, that its text is cut into its spelling and that the reader makes the
part out of its spelling. `Module.read_text` puts them together.
-/

namespace Datapath.Verilog

/-! ## Lists -/

section

variable {α β : Type}

theorem mapM_map_eq_some {ι : Type} {spell : ι → α} {read : α → Option β} {result : ι → β}
    {items : List ι} (reads : ∀ item ∈ items, read (spell item) = some (result item)) :
    (items.map spell).mapM read = some (items.map result) := by
  induction items with
  | nil => rfl
  | cons item items ih =>
      rw [List.forall_mem_cons] at reads
      rw [List.map_cons, List.mapM_cons, reads.1, ih reads.2]
      rfl

/-- A list is read whose items can be read and are free of separators. -/
theorem listed?_intercalate [DecidableEq α] {separator mark : α} {item? : List α → Option β}
    {spell : β → List α} {items : List β} (reads : ∀ item ∈ items, item? (spell item) = some item)
    (whole : ∀ item ∈ items, spell item ≠ [] ∧ separator ∉ spell item) :
    listed? separator mark item? ([separator].intercalate (items.map spell) ++ [mark]) =
      some items := by
  rw [listed?, List.getLast?_concat, List.dropLast_concat, if_neg (not_not_intro rfl)]
  cases items with
  | nil => rfl
  | cons item items =>
      have some : [separator].intercalate ((item :: items).map spell) ≠ [] := by
        have first := (whole item List.mem_cons_self).1
        cases items <;> simp [first]
      rw [if_neg some, List.splitOn_intercalate, mapM_map_eq_some reads, List.map_id']
      · intro piece member
        rcases List.mem_map.mp member with ⟨other, isItem, rfl⟩
        exact (whole other isItem).2
      · simp

theorem flatMap_intercalate (expand : α → List β) (separator : List α) (items : List (List α)) :
    (separator.intercalate items).flatMap expand =
      (separator.flatMap expand).intercalate (items.map (·.flatMap expand)) := by
  induction items with
  | nil => rfl
  | cons item items ih =>
      cases items with
      | nil => simp
      | cons next items =>
          rw [List.intercalate_cons_cons, List.flatMap_append, List.flatMap_append, ih,
            List.map_cons, List.map_cons, List.map_cons, List.intercalate_cons_cons]

theorem mem_of_mem_intercalate {separator : List α} {items : List (List α)} {element : α}
    (member : element ∈ separator.intercalate items) :
    element ∈ separator ∨ ∃ item ∈ items, element ∈ item := by
  induction items with
  | nil => cases member
  | cons item items ih =>
      cases items with
      | nil => exact .inr ⟨item, List.mem_cons_self, by simpa using member⟩
      | cons next items =>
          rw [List.intercalate_cons_cons, List.mem_append, List.mem_append] at member
          rcases member with (here | between) | later
          · exact .inr ⟨item, List.mem_cons_self, here⟩
          · exact .inl between
          · rcases ih later with between | ⟨other, isItem, inside⟩
            · exact .inl between
            · exact .inr ⟨other, List.mem_cons_of_mem _ isItem, inside⟩

theorem splitOn_pair [DecidableEq α] {separator : α} {left right : List α}
    (freeLeft : separator ∉ left) (freeRight : separator ∉ right) :
    (left ++ separator :: right).splitOn separator = [left, right] := by
  have split : List.splitOn separator ([separator].intercalate [left, right]) = [left, right] :=
    List.splitOn_intercalate separator (by simp [freeLeft, freeRight]) nofun
  simpa using split

/-- Items that are each followed by a separator, and one more. -/
theorem intercalate_concat (separator : α) (items : List (List α)) (last : List α) :
    [separator].intercalate (items ++ [last]) = items.flatMap (· ++ [separator]) ++ last := by
  induction items with
  | nil => simp
  | cons item items ih =>
      have next : ∃ first rest, items ++ [last] = first :: rest := by
        cases items <;> exact ⟨_, _, rfl⟩
      rcases next with ⟨first, rest, shape⟩
      rw [List.cons_append, List.flatMap_cons, List.append_assoc, ← ih, shape,
        List.intercalate_cons_cons]

end

/-! ## Words -/

/-- The symbols of a concatenation. -/
def wordSymbols (bits : List Atom) : List Symbol :=
  .sign '\x7b' :: [.sign ','].intercalate (bits.reverse.map fun bit => [.atom bit]) ++
    [.sign '\x7d']

theorem word?_wordSymbols (bits : List Atom) : word? (wordSymbols bits) = some bits := by
  have listed : listed? (.sign ',') (.sign '\x7d') bit?
      ([.sign ','].intercalate (bits.reverse.map fun bit => [Symbol.atom bit]) ++ [.sign '\x7d']) =
        some bits.reverse :=
    listed?_intercalate (fun _ _ => rfl) fun _ _ => ⟨nofun, by simp⟩
  rw [wordSymbols, List.cons_append, word?, listed]
  exact congrArg some bits.reverse_reverse

/-- The signs of concatenations. -/
def wordSigns : List Char :=
  ['\x7b', ',', '\x7d']

variable {bits : List Atom}

theorem uses_wordSymbols (legible : ∀ bit ∈ bits, bit.Legible) :
    ∀ symbol ∈ wordSymbols bits, symbol.Uses wordSigns := by
  rw [wordSymbols, List.cons_append, List.forall_mem_cons, List.forall_mem_append,
    List.forall_mem_singleton]
  refine ⟨(by decide : '\x7b' ∈ wordSigns), fun symbol member => ?_,
    (by decide : '\x7d' ∈ wordSigns)⟩
  rcases mem_of_mem_intercalate member with between | ⟨item, isItem, inside⟩
  · rw [List.mem_singleton.mp between]
    exact (by decide : ',' ∈ wordSigns)
  · rcases List.mem_map.mp isItem with ⟨bit, isBit, rfl⟩
    rw [List.mem_singleton.mp inside]
    exact legible bit (List.mem_reverse.mp isBit)

theorem tokensOf_wordText (legible : ∀ bit ∈ bits, bit.Legible) :
    tokensOf (wordText bits) = (wordSymbols bits).flatMap Symbol.tokens := by
  have texts : (bits.reverse.map Atom.text).map tokensOf =
      (bits.reverse.map fun bit => [Symbol.atom bit]).map (·.flatMap Symbol.tokens) := by
    rw [List.map_map, List.map_map]
    refine List.map_congr_left fun bit member => ?_
    have isLegible := legible bit (List.mem_reverse.mp member)
    simpa using Atom.tokensOf_text isLegible
  rw [wordText, tokensOf_append_separator _ (by decide), tokensOf_separator_append (by decide),
    tokensOf_intercalate (by decide), texts, wordSymbols, List.flatMap_append, List.flatMap_cons,
    flatMap_intercalate]
  rfl

/-! ## Statements -/

/-- The symbols of a connection. -/
def connectionSymbols (connection : String × Atom) : List Symbol :=
  [.sign '.', .atom (.net connection.1), .sign '(', .atom connection.2, .sign ')']

namespace Statement

/-- The tokens before the symbols of a statement. -/
def leading : Statement → List Token
  | .assign .. | .assignSum .. => [.word "assign"]
  | .clocked clock .. =>
    [.word "always", .sign '@', .sign '(', .word "posedge", .word clock, .sign ')']
  | .cell kind name _ => [.word kind, .word name, .sign '(']

/-- The symbols of a statement. -/
def symbols : Statement → List Symbol
  | .assign target value _ => .atom target :: .sign '=' :: value.symbols
  | .assignSum target left right _ =>
    wordSymbols target ++ .sign '=' :: (wordSymbols left ++ .sign '+' :: wordSymbols right)
  | .clocked _ target value _ => [.atom target, .sign '<', .sign '=', .atom value]
  | .cell _ _ connections =>
    [.sign ','].intercalate (connections.map connectionSymbols) ++ [.sign ')']

/-- The tokens of a statement up to the semicolon. -/
def tokens (statement : Statement) : List Token :=
  statement.leading ++ statement.symbols.flatMap Symbol.tokens

/-- The text of a statement up to the semicolon. -/
def body : Statement → String
  | .assign target value _ => "  assign " ++ target.text ++ " = " ++ value.text
  | .assignSum target left right _ =>
    "  assign " ++ wordText target ++ " = " ++ wordText left ++ " + " ++ wordText right
  | .clocked clock target value _ =>
    "  always @(posedge " ++ clock ++ ") " ++ target.text ++ " <= " ++ value.text
  | .cell kind name connections =>
    "  " ++ kind ++ " " ++ name ++ " (\n    " ++
      ",\n    ".intercalate (connections.map fun (pin, atom) => connectionText pin atom) ++ "\n  )"

/-- The remark of a statement. -/
def remark? : Statement → Option String
  | .assign _ _ remark => remark
  | .assignSum _ _ _ remark | .clocked _ _ _ remark => some remark
  | .cell .. => none

/-- The end of a line without a remark. -/
theorem append_semicolon (opening : String) :
    opening ++ ";\n" = opening ++ ";" ++ remarkText none ++ "\n" := by
  rw [String.append_assoc, String.append_assoc]
  exact congrArg (opening ++ ·) rfl

theorem append_ending (opening ending : String) :
    opening ++ (ending ++ ";\n") = opening ++ ending ++ ";" ++ remarkText none ++ "\n" := by
  rw [← String.append_assoc, append_semicolon]

theorem text_eq (statement : Statement) :
    statement.text = statement.body ++ ";" ++ remarkText statement.remark? ++ "\n" := by
  cases statement with
  | cell kind name connections => exact append_ending _ "\n  )"
  | _ => rfl

variable {statement : Statement}

theorem isRemark_of_legible (legible : statement.Legible) :
    ∀ text ∈ statement.remark?, IsRemark text := by
  cases statement with
  | assign target value remark => exact legible.2.2
  | assignSum target left right remark => exact fun text same => Option.mem_some.mp same ▸ legible.2
  | clocked clock target value remark =>
      exact fun text same => Option.mem_some.mp same ▸ legible.2.2.2
  | cell kind name connections => nofun

theorem tokensOf_connectionText {connection : String × Atom} (pin : IsName connection.1)
    (bit : connection.2.Legible) :
    tokensOf (connectionText connection.1 connection.2) =
      (connectionSymbols connection).flatMap Symbol.tokens := by
  rw [connectionText, tokensOf_append_separator _ (by decide), tokensOf_separated _ _ (by decide),
    tokensOf_separator_append (by decide), pin.tokensOf_eq, Atom.tokensOf_text bit]
  simp [connectionSymbols, Symbol.tokens]
  rfl

theorem tokensOf_body (legible : statement.Legible) :
    tokensOf statement.body = statement.tokens := by
  cases statement with
  | assign target value remark =>
      rcases legible with ⟨isTarget, isValue, _⟩
      change tokensOf ("  assign " ++ target.text ++ " = " ++ value.text) = _
      rw [tokensOf_separated _ _ (by decide), tokensOf_separator_append (by decide),
        Atom.tokensOf_text isTarget, Expression.tokensOf_text isValue, List.append_assoc,
        List.append_assoc]
      rfl
  | assignSum target left right remark =>
      rcases legible with ⟨bits, _⟩
      rw [List.forall_mem_append, List.forall_mem_append] at bits
      change tokensOf ("  assign " ++ wordText target ++ " = " ++ wordText left ++ " + " ++
        wordText right) = _
      rw [tokensOf_separated _ _ (by decide), tokensOf_separated _ _ (by decide),
        tokensOf_separator_append (by decide), tokensOf_wordText bits.1.1,
        tokensOf_wordText bits.1.2, tokensOf_wordText bits.2]
      simp only [tokens, symbols, List.flatMap_append, List.flatMap_cons, List.append_assoc]
      rfl
  | clocked clock target value remark =>
      rcases legible with ⟨isClock, isTarget, isValue, _⟩
      change tokensOf ("  always @(posedge " ++ clock ++ ") " ++ target.text ++ " <= " ++
        value.text) = _
      rw [tokensOf_separated _ _ (by decide), tokensOf_separated _ _ (by decide),
        tokensOf_separator_append (by decide), isClock.tokensOf_eq, Atom.tokensOf_text isTarget,
        Atom.tokensOf_text isValue]
      simp [tokens, symbols, leading, Symbol.tokens]
      rfl
  | cell kind name connections =>
      rcases legible with ⟨isKind, isName, connected⟩
      have texts : (connections.map fun (pin, atom) => connectionText pin atom).map tokensOf =
          (connections.map connectionSymbols).map (·.flatMap Symbol.tokens) := by
        rw [List.map_map, List.map_map]
        exact List.map_congr_left fun connection member =>
          tokensOf_connectionText (connected connection member).1 (connected connection member).2
      change tokensOf ("  " ++ kind ++ " " ++ name ++ " (\n    " ++
        ",\n    ".intercalate (connections.map fun (pin, atom) => connectionText pin atom) ++
          "\n  )") = _
      rw [tokensOf_append_separator _ (by decide), tokensOf_separated _ _ (by decide),
        tokensOf_separated _ _ (by decide), tokensOf_separator_append (by decide),
        isKind.tokensOf_eq, isName.tokensOf_eq, tokensOf_intercalate (by decide), texts]
      simp only [tokens, symbols, List.flatMap_append, flatMap_intercalate, List.append_assoc]
      rfl

/-- The symbols of a statement are bits and punctuation. -/
theorem uses_symbols (legible : statement.Legible) :
    ∀ symbol ∈ statement.symbols, symbol.Uses punctuation := by
  have sign {char : Char} (known : char ∈ punctuation) : (Symbol.sign char).Uses punctuation :=
    known
  have word {bits : List Atom} (named : ∀ bit ∈ bits, bit.Legible) :
      ∀ symbol ∈ wordSymbols bits, symbol.Uses punctuation :=
    fun symbol member => (uses_wordSymbols named symbol member).mono (by decide)
  cases statement with
  | assign target value remark =>
      rcases legible with ⟨isTarget, isValue, _⟩
      rw [symbols, List.forall_mem_cons, List.forall_mem_cons]
      exact ⟨isTarget, sign (by decide), fun symbol member =>
        (Expression.uses_symbols isValue symbol member).mono (by decide)⟩
  | assignSum target left right remark =>
      rcases legible with ⟨bits, _⟩
      rw [List.forall_mem_append, List.forall_mem_append] at bits
      rw [symbols, List.forall_mem_append, List.forall_mem_cons, List.forall_mem_append,
        List.forall_mem_cons]
      exact ⟨word bits.1.1, sign (by decide), word bits.1.2, sign (by decide), word bits.2⟩
  | clocked clock target value remark =>
      rcases legible with ⟨_, isTarget, isValue, _⟩
      rw [symbols, List.forall_mem_cons, List.forall_mem_cons, List.forall_mem_cons,
        List.forall_mem_singleton]
      exact ⟨isTarget, sign (by decide), sign (by decide), isValue⟩
  | cell kind name connections =>
      rcases legible with ⟨_, _, connected⟩
      rw [symbols, List.forall_mem_append, List.forall_mem_singleton]
      refine ⟨fun symbol member => ?_, sign (by decide)⟩
      rcases mem_of_mem_intercalate member with between | ⟨item, isItem, inside⟩
      · rw [List.mem_singleton.mp between]
        exact sign (by decide)
      · rcases List.mem_map.mp isItem with ⟨connection, isConnection, rfl⟩
        rcases connected connection isConnection with ⟨isPin, isBit⟩
        have uses : ∀ symbol ∈ connectionSymbols connection, symbol.Uses punctuation := by
          rw [connectionSymbols, List.forall_mem_cons, List.forall_mem_cons, List.forall_mem_cons,
            List.forall_mem_cons, List.forall_mem_singleton]
          exact ⟨sign (by decide), isPin, sign (by decide), isBit, sign (by decide)⟩
        exact uses symbol inside

theorem sign_notMem {char : Char} {signs : List Char} {spelling : List Symbol}
    (uses : ∀ symbol ∈ spelling, symbol.Uses signs) (unknown : char ∉ signs) :
    .sign char ∉ spelling :=
  fun member => unknown (uses _ member)

theorem item?_word {first : String} {rest : List Token} (noWire : first ≠ "wire")
    (noReg : first ≠ "reg") : item? (.word first :: rest) = (statement? first rest).map .inr := by
  rw [item?, if_neg noWire, if_neg noReg]

theorem assignment?_assign (target : Atom) {value : Expression} (legible : value.Legible)
    (remark : Option String) :
    assignment? (symbols (.assign target value remark)) = some (.assign target value none) := by
  have free := sign_notMem (Expression.uses_symbols legible) (by decide : '=' ∉ _)
  have sides : (symbols (.assign target value remark)).splitOn (.sign '=') =
      [[.atom target], value.symbols] := by
    have single : Symbol.sign '=' ∉ [Symbol.atom target] := by simp
    exact splitOn_pair single free
  rw [assignment?, sides]
  dsimp only
  rw [Expression.expression?_symbols]
  rfl

theorem assignment?_assignSum {target left right : List Atom}
    (legible : ∀ bit ∈ target ++ left ++ right, bit.Legible) (remark : String) :
    assignment? (symbols (.assignSum target left right remark)) =
      some (.assignSum target left right "") := by
  rw [List.forall_mem_append, List.forall_mem_append] at legible
  have free {bits : List Atom} (named : ∀ bit ∈ bits, bit.Legible) {char : Char}
      (other : char ∉ wordSigns) : Symbol.sign char ∉ wordSymbols bits :=
    sign_notMem (uses_wordSymbols named) other
  have addends := splitOn_pair (free legible.1.2 (by decide : '+' ∉ wordSigns))
    (free legible.2 (by decide : '+' ∉ wordSigns))
  have noEqual : Symbol.sign '=' ∉ wordSymbols left ++ .sign '+' :: wordSymbols right := by
    simp [free legible.1.2 (by decide : '=' ∉ wordSigns),
      free legible.2 (by decide : '=' ∉ wordSigns)]
  have sides := splitOn_pair (free legible.1.1 (by decide : '=' ∉ wordSigns)) noEqual
  rw [assignment?, symbols, sides]
  have opened (bits : List Atom) : ∃ rest, wordSymbols bits = .sign '\x7b' :: rest := ⟨_, rfl⟩
  rcases opened target with ⟨rest, isWord⟩
  simp only [isWord, addends]
  rw [← isWord, word?_wordSymbols, word?_wordSymbols, word?_wordSymbols]
  rfl

/-- A statement is made out of its first word and the rest. -/
theorem item?_tokens (legible : statement.Legible) :
    item? statement.tokens = some (.inr statement.bare) := by
  have read := symbols_tokens (uses_symbols legible)
  cases statement with
  | assign target value remark =>
      change item? (.word "assign" :: List.flatMap _ _) = _
      rw [item?_word (by decide) (by decide), statement?, if_pos rfl, read]
      change (assignment? _).map _ = _
      rw [assignment?_assign target legible.2.1]
      rfl
  | assignSum target left right remark =>
      change item? (.word "assign" :: List.flatMap _ _) = _
      rw [item?_word (by decide) (by decide), statement?, if_pos rfl, read]
      change (assignment? _).map _ = _
      rw [assignment?_assignSum legible.1]
      rfl
  | clocked clock target value remark =>
      change item? (.word "always" :: .sign '@' :: .sign '(' :: .word "posedge" :: .word clock ::
        .sign ')' :: List.flatMap _ _) = _
      rw [item?_word (by decide) (by decide), statement?, if_neg (by decide), if_pos rfl, always?,
        read]
      rfl
  | cell kind name connections =>
      rcases legible with ⟨isKind, _, connected⟩
      have free {text : String} (isReserved : text ∈ reserved) : kind ≠ text := by
        rintro rfl
        exact isKind.free isReserved
      have listed : listed? (.sign ',') (.sign ')') connection?
          (symbols (.cell kind name connections)) = some connections := by
        refine listed?_intercalate (fun _ _ => rfl) fun connection _ => ⟨nofun, ?_⟩
        simp [connectionSymbols]
      change item? (.word kind :: .word name :: .sign '(' :: List.flatMap _ _) = _
      rw [item?_word (free (by decide)) (free (by decide)), statement?, if_neg (free (by decide)),
        if_neg (free (by decide)), instance?, read]
      change Option.map _ ((listed? _ _ _ _).bind _) = _
      rw [listed]
      rfl

end Statement

/-! ## Modules -/

/-- The text is a line, or several, that ends a section with the given tokens. -/
def Spells (text : List Char) (tokens : List Token) : Prop :=
  ∀ rest, tokenize (text ++ rest) = tokens ++ .sign ';' :: tokenize rest

theorem spells_line {body : String} {remark : Option String}
    (noSlash : .sign '/' ∉ tokensOf body) (oneLine : ∀ text ∈ remark, IsRemark text) :
    Spells (body ++ ";" ++ Statement.remarkText remark ++ "\n").toList (tokensOf body) := by
  intro rest
  have noSlash : '/' ∉ body.toList :=
    fun member => noSlash (sign_mem_lex member (by decide) (by decide))
  have ended {ending : List Char} (separates : IsSeparator ending)
      (ends : lex ending = [.sign ';']) :
      lex (body.toList ++ ending ++ withoutRemarks false rest) =
        tokensOf body ++ .sign ';' :: tokenize rest := by
    rw [lex_separated _ _ separates, ends, List.append_assoc]
    rfl
  cases remark with
  | none =>
      have text : (body ++ ";" ++ Statement.remarkText none ++ "\n").toList ++ rest =
          (body.toList ++ [';', '\n']) ++ rest := by
        simp [Statement.remarkText]
      have noSlash : '/' ∉ body.toList ++ [';', '\n'] := by simp [noSlash]
      rw [text, tokenize, withoutRemarks_append noSlash]
      exact ended (by decide) (by decide)
  | some remark =>
      have text : (body ++ ";" ++ Statement.remarkText (some remark) ++ "\n").toList ++ rest =
          (body.toList ++ [';', ' ']) ++ '/' :: '/' :: (' ' :: remark.toList ++ '\n' :: rest) := by
        simp [Statement.remarkText]
      have noSlash : '/' ∉ body.toList ++ [';', ' '] := by simp [noSlash]
      have inRemark : '\n' ∉ remark.toList := oneLine remark rfl
      have oneLine : '\n' ∉ '/' :: ' ' :: remark.toList := by simp [inRemark]
      rw [text, tokenize, withoutRemarks_append noSlash, withoutRemarks, if_pos ⟨rfl, rfl⟩]
      have skipped := withoutRemarks_remark oneLine rest
      rw [List.cons_append, List.cons_append] at skipped
      rw [List.cons_append, skipped]
      have separates : IsSeparator [';', ' ', '\n'] := by decide
      simpa using ended separates (by decide)

theorem tokenize_flatMap {α : Type} {text : α → List Char} {tokens : α → List Token}
    {items : List α} (spells : ∀ item ∈ items, Spells (text item) (tokens item))
    (rest : List Char) : tokenize (items.flatMap text ++ rest) =
      (items.map tokens).flatMap (· ++ [.sign ';']) ++ tokenize rest := by
  induction items with
  | nil => rfl
  | cons item items ih =>
      rw [List.forall_mem_cons] at spells
      rw [List.flatMap_cons, List.append_assoc, spells.1, ih spells.2]
      simp

theorem Symbol.sign_notMem_tokens {symbol : Symbol} (uses : symbol.Uses punctuation) {char : Char}
    (other : char ∉ '[' :: ']' :: punctuation) : .sign char ∉ symbol.tokens := by
  rw [List.mem_cons, List.mem_cons, not_or, not_or] at other
  rcases symbol with (name | ⟨vector, index⟩ | value) | sign
  · simp [tokens]
  · simp [tokens, other.1, other.2.1]
  · simp [tokens]
  · have differs : char ≠ sign := fun same => other.2.2 (same ▸ uses)
    simp [tokens, differs]

namespace Statement

variable {statement : Statement}

theorem sign_notMem_tokens (legible : statement.Legible) {char : Char}
    (other : char ∉ '@' :: '[' :: ']' :: punctuation) : .sign char ∉ statement.tokens := by
  rw [List.mem_cons, not_or] at other
  have inSymbols : .sign char ∉ statement.symbols.flatMap Symbol.tokens := by
    intro member
    rcases List.mem_flatMap.mp member with ⟨symbol, isSymbol, inside⟩
    exact symbol.sign_notMem_tokens (uses_symbols legible symbol isSymbol) other.2 inside
  have noParenthesis (paren : Char) (known : paren ∈ punctuation) : char ≠ paren := by
    rintro rfl
    exact other.2 (List.mem_cons_of_mem _ (List.mem_cons_of_mem _ known))
  have opens := noParenthesis '(' (by decide)
  have closes := noParenthesis ')' (by decide)
  rw [tokens, List.mem_append, not_or]
  refine ⟨?_, inSymbols⟩
  cases statement <;> simp [leading, other.1, opens, closes]

theorem spells_text (legible : statement.Legible) :
    Spells statement.text.toList statement.tokens := by
  have noSlash := sign_notMem_tokens legible (by decide : '/' ∉ _)
  rw [text_eq, ← tokensOf_body legible]
  exact spells_line (tokensOf_body legible ▸ noSlash) (isRemark_of_legible legible)

end Statement

namespace NetDeclaration

/-- The tokens of a declaration. -/
def tokens (net : NetDeclaration) : List Token :=
  [.word (if net.isRegister then "reg" else "wire"), .word net.name]

variable {net : NetDeclaration}

theorem item?_tokens (net : NetDeclaration) : item? net.tokens = some (.inl net) := by
  rcases net with ⟨isRegister, name⟩
  cases isRegister <;> rfl

theorem spells_text (isName : IsName net.name) : Spells net.text.toList net.tokens := by
  have spelled : tokensOf ("  " ++ (if net.isRegister then "reg" else "wire") ++ " " ++ net.name) =
      net.tokens := by
    rw [tokensOf_separated _ _ (by decide), isName.tokensOf_eq, tokens]
    cases net.isRegister <;> rfl
  have shape : net.text = "  " ++ (if net.isRegister then "reg" else "wire") ++ " " ++ net.name ++
      ";" ++ Statement.remarkText none ++ "\n" := by
    rw [text, Statement.append_semicolon]
  have noSlash : .sign '/' ∉ net.tokens := by simp [tokens]
  rw [shape, ← spelled]
  exact spells_line (spelled ▸ noSlash) nofun

end NetDeclaration

namespace PortDeclaration

/-- The tokens of a port. -/
def tokens (port : PortDeclaration) : List Token :=
  let range :=
    match port.highest with
    | some highest =>
      [.sign '[', .word (toString highest), .sign ':', .word "0", .sign ']']
    | none => []
  .word (if port.isInput then "input" else "output") :: .word "wire" :: range ++ [.word port.name]

variable {port : PortDeclaration}

theorem port?_tokens (port : PortDeclaration) : port? port.tokens = some port := by
  rcases port with ⟨isInput, name, none | highest⟩
  · cases isInput <;> rfl
  · change port? [_, _, _, .word highest.repr, _, _, _, _] = _
    simp only [port?, Nat.toNat?_repr]
    cases isInput <;> rfl

theorem tokensOf_text (isName : IsName port.name) : tokensOf port.text = port.tokens := by
  rcases port with ⟨isInput, name, none | highest⟩
  · have shape : text ⟨isInput, name, none⟩ =
        "  " ++ (if isInput then "input" else "output") ++ " wire " ++ name := by
      rw [text, String.append_empty]
    rw [shape, tokensOf_separated _ _ (by decide), isName.tokensOf_eq]
    cases isInput <;> rfl
  · have shape : text ⟨isInput, name, some highest⟩ =
        "  " ++ (if isInput then "input" else "output") ++ " wire [" ++ toString highest ++
          ":0] " ++ name := by
      have merged : " wire [" = " wire " ++ "[" := rfl
      rw [text, merged]
      simp only [String.append_assoc]
    rw [shape, tokensOf_separated _ _ (by decide), tokensOf_separated _ _ (by decide),
      isName.tokensOf_eq, tokensOf_toString]
    cases isInput <;> rfl

theorem sign_notMem_tokens (port : PortDeclaration) {char : Char} (other : char ∉ ['[', ':', ']']) :
    .sign char ∉ port.tokens := by
  rcases port with ⟨isInput, name, none | highest⟩
  · simp [tokens]
  · simpa [tokens] using other

end PortDeclaration

namespace Module

/-- The tokens of a module's header. -/
def headerTokens (module : Module) : List Token :=
  [.sign ','].intercalate (module.ports.map PortDeclaration.tokens) ++ [.sign ')']

/-- The tokens of a module's declarations and statements. -/
def itemTokens (module : Module) : List (List Token) :=
  module.nets.map NetDeclaration.tokens ++ module.statements.map Statement.tokens

/-- What stands after the name of a module. -/
def bodyText (module : Module) : List Char :=
  (",\n".intercalate (module.ports.map PortDeclaration.text) ++ "\n);\n").toList ++
    (module.nets.flatMap (·.text.toList) ++ (module.statements.flatMap (·.text.toList) ++
      "endmodule\n".toList))

theorem toList_text (module : Module) :
    module.text.toList = ("module " ++ module.name ++ "(\n").toList ++ module.bodyText := by
  simp only [text, bodyText, String.toList_append, String.toList_join, List.flatMap_map,
    List.append_assoc]

variable {module : Module}

theorem sign_notMem_headerTokens {char : Char} (other : char ∉ [',', ')', '[', ':', ']']) :
    .sign char ∉ module.headerTokens := by
  simp only [List.mem_cons, List.not_mem_nil, or_false, not_or] at other
  intro member
  rcases List.mem_append.mp member with inside | last
  · rcases mem_of_mem_intercalate inside with between | ⟨tokens, isTokens, inPort⟩
    · exact other.1 (Token.sign.inj (List.mem_singleton.mp between))
    · rcases List.mem_map.mp isTokens with ⟨port, _, rfl⟩
      exact port.sign_notMem_tokens (by simp [other]) inPort
  · exact other.2.1 (Token.sign.inj (List.mem_singleton.mp last))

theorem spells_header (legible : module.Legible) :
    Spells (",\n".intercalate (module.ports.map PortDeclaration.text) ++ "\n);\n").toList
      module.headerTokens := by
  have texts : (module.ports.map PortDeclaration.text).map tokensOf =
      module.ports.map PortDeclaration.tokens := by
    rw [List.map_map]
    exact List.map_congr_left fun port member =>
      PortDeclaration.tokensOf_text (legible.ports port member)
  have spelled : tokensOf (",\n".intercalate (module.ports.map PortDeclaration.text) ++ "\n)") =
      module.headerTokens := by
    rw [tokensOf_append_separator _ (by decide), tokensOf_intercalate (by decide), texts]
    rfl
  have shape (ports : String) :
      ports ++ "\n);\n" = ports ++ "\n)" ++ ";" ++ Statement.remarkText none ++ "\n" :=
    Statement.append_ending ports "\n)"
  rw [shape, ← spelled]
  exact spells_line (spelled ▸ sign_notMem_headerTokens (by decide)) nofun

theorem tokenize_bodyText (legible : module.Legible) :
    tokenize module.bodyText = [.sign ';'].intercalate
      (module.headerTokens :: module.itemTokens ++ [[.word "endmodule"]]) := by
  have ending : tokenize "endmodule\n".toList = [.word "endmodule"] := by decide
  rw [bodyText, spells_header legible,
    tokenize_flatMap fun net member => NetDeclaration.spells_text (legible.nets net member),
    tokenize_flatMap fun statement member =>
      Statement.spells_text (legible.statements statement member),
    ending, intercalate_concat, itemTokens]
  simp

theorem mapM_item?_itemTokens (legible : module.Legible) :
    module.itemTokens.mapM item? = some
      (module.nets.map .inl ++ module.statements.map fun statement => .inr statement.bare) := by
  rw [itemTokens, List.mapM_append, mapM_map_eq_some fun net _ => net.item?_tokens,
    mapM_map_eq_some fun statement member =>
      Statement.item?_tokens (legible.statements statement member)]
  rfl

theorem body?_bodyText (legible : module.Legible) :
    body? module.name (tokenize module.bodyText) = some module.bare := by
  have sections : (tokenize module.bodyText).splitOn (.sign ';') =
      module.headerTokens :: (module.itemTokens ++ [[.word "endmodule"]]) := by
    rw [tokenize_bodyText legible, List.splitOn_intercalate, List.cons_append]
    · intro tokens member
      rw [List.cons_append, List.mem_cons, List.mem_append, List.mem_singleton] at member
      rcases member with rfl | inItems | rfl
      · exact sign_notMem_headerTokens (by decide)
      · rcases List.mem_append.mp inItems with isNet | isStatement
        · rcases List.mem_map.mp isNet with ⟨net, _, rfl⟩
          simp [NetDeclaration.tokens]
        · rcases List.mem_map.mp isStatement with ⟨statement, member, rfl⟩
          exact Statement.sign_notMem_tokens (legible.statements statement member) (by decide)
      · simp
    · exact nofun
  have ports : listed? (.sign ',') (.sign ')') port? module.headerTokens = some module.ports :=
    listed?_intercalate (fun port _ => port.port?_tokens) fun port _ =>
      ⟨by simp [PortDeclaration.tokens], port.sign_notMem_tokens (by decide)⟩
  rw [body?, sections]
  simp only [List.getLast?_concat, List.dropLast_concat, if_pos, ports,
    mapM_item?_itemTokens legible]
  change some _ = some _
  simp [bare, List.filterMap_append, Function.comp_def]

/-- A module whose name is one begins with it. -/
theorem tokenize_text (isName : IsName module.name) :
    tokenize module.text.toList =
      .word "module" :: .word module.name :: .sign '(' :: tokenize module.bodyText := by
  have opening : tokensOf ("module " ++ module.name ++ "(\n") =
      [.word "module", .word module.name, .sign '('] := by
    have shape : "module " ++ module.name ++ "(\n" = "module" ++ " " ++ module.name ++ "(\n" := by
      rw [show "module " = "module" ++ " " from rfl]
    rw [shape, tokensOf_append_separator _ (by decide), tokensOf_separated _ _ (by decide),
      isName.tokensOf_eq]
    rfl
  have noSlash : '/' ∉ ("module " ++ module.name ++ "(\n").toList := by
    intro member
    have isSign := sign_mem_lex member (by decide) (by decide)
    rw [show lex _ = _ from opening] at isSign
    simp at isSign
  have apart : IsSeparator "(\n".toList := by decide
  rw [toList_text, tokenize, withoutRemarks_append noSlash, String.toList_append,
    lex_separated _ _ apart]
  rw [tokensOf, String.toList_append, lex_append_separator _ apart] at opening
  rw [opening]
  rfl

/-- The text of a module whose name is one is read as the module without its remarks. -/
theorem parse_text (isName : IsName module.name) (legible : module.Legible) :
    parse module.text = some module.bare := by
  rw [parse, tokenize_text isName]
  simp only [if_pos isName, body?_bodyText legible]

/-- The text of a module is read back as the module without its remarks, whatever its name is. -/
theorem read_text (legible : module.Legible) :
    read module.name module.text = some module.bare := by
  by_cases isName : IsName module.name
  · rw [read, if_pos isName, parse_text isName legible]
    exact Option.filter_eq_some_iff.mpr ⟨rfl, decide_eq_true rfl⟩
  · rw [read, if_neg isName, toList_text]
    simp only [List.prefix_append, if_true, List.drop_left, body?_bodyText legible]

end Module

end Datapath.Verilog
