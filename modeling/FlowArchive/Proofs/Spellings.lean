import FlowArchive.Proofs.Scanning

/-!
# All spellings mean the same

A list of tokens can be written in many ways: every token in each of its spellings, and with white space of any length
between neighbours, or none where they cannot be mistaken for each other. The scanner reads all of them as the same
tokens, and finds the spellings that were chosen.
-/

namespace FlowArchive

namespace Token

variable {s : List Char} {t : Token} {w : String} {k : Bracket}

/-! ## What spells what -/

theorem Spells.opening_iff : Spells s (.opening k) ↔ s = [k.opening] := by
  refine ⟨fun spells => ?_, fun same => same ▸ .opening k⟩
  cases spells with
  | symbol listed => cases isOperator_of_symbol listed
  | keyword listed => cases isOperator_of_keyword listed
  | opening => rfl

theorem Spells.closing_iff : Spells s (.closing k) ↔ s = [k.closing] := by
  refine ⟨fun spells => ?_, fun same => same ▸ .closing k⟩
  cases spells with
  | symbol listed => cases isOperator_of_symbol listed
  | keyword listed => cases isOperator_of_keyword listed
  | closing => rfl

theorem Spells.word_iff :
    Spells s (.word w) ↔ s = w.toList ∧ s ≠ [] ∧ (∀ c ∈ s, isWordChar c) ∧ keyword? s = none := by
  constructor
  · intro spells
    -- The spelling is the list that the word was made of.
    generalize same : Token.word w = t at spells
    cases spells with
    | symbol listed =>
      subst same
      cases isOperator_of_symbol listed
    | keyword listed =>
      subst same
      cases isOperator_of_keyword listed
    | opening | closing => cases same
    | word filled letters free =>
      cases same
      exact ⟨String.toList_ofList.symm, filled, letters, free⟩
  · rintro ⟨rfl, filled, letters, free⟩
    have spells := Spells.word filled letters free
    rwa [String.ofList_toList] at spells

theorem Spells.keyword?_eq (spells : Spells s t) (found : keyword? s ≠ none) : keyword? s = some t := by
  obtain ⟨u, key⟩ := Option.ne_none_iff_exists'.1 found
  obtain ⟨filled, letters⟩ := isWordChar_of_keyword key
  obtain ⟨c, tail, rfl⟩ := List.exists_cons_of_ne_nil filled
  have letter := isWordChar_iff.1 (letters c List.mem_cons_self)
  cases spells with
  | symbol listed =>
    have symbol := (symbolChars listed).2 c List.mem_cons_self
    rw [letter.2.1] at symbol
    cases symbol
  | keyword listed spelled => exact keyword?_eq_some_iff.2 ⟨_, listed, spelled⟩
  | opening k => simp at letter
  | closing k => simp at letter
  | word _ _ free => exact absurd free found

end Token

namespace Lexeme

variable {x y : Lexeme} {others : List Lexeme} {gap text rest : List Char} {before after : Option Char}

/-- A lexeme is a token in one of its spellings. -/
def IsSpelled (x : Lexeme) : Prop := Token.Spells x.spelling x.token

def IsBracket (x : Lexeme) : Prop := ∃ k, x.token = .opening k ∨ x.token = .closing k

def IsSymbol (x : Lexeme) : Prop := (x.spelling, x.token) ∈ Token.symbols

instance (x : Lexeme) : Decidable x.IsSymbol := inferInstanceAs (Decidable ((x.spelling, x.token) ∈ Token.symbols))

def IsWord (x : Lexeme) : Prop := ∃ w, x.token = .word w

/-- Neighbours need no white space between them if one is a bracket, or if one is a symbol and the other a word. -/
def MayTouch (x y : Lexeme) : Prop :=
  x.IsBracket ∨ y.IsBracket ∨ (x.IsSymbol ∧ y.IsWord) ∨ (x.IsWord ∧ y.IsSymbol)

/-- What stands between neighbours: white space, or nothing where they may touch. -/
structure IsGap (x y : Lexeme) (gap : List Char) : Prop where
  blank : ∀ c ∈ gap, Text.isBlank c
  filled : gap = [] → x.MayTouch y

/-- A text is made of the spellings of lexemes, in order, with gaps between neighbours. -/
inductive Writes : List Lexeme → List Char → Prop where
  | nothing : Writes [] []
  | last {x : Lexeme} (spelled : x.IsSpelled) : Writes [x] x.spelling
  | more {x y : Lexeme} {others : List Lexeme} {text : List Char} (gap : List Char) (spelled : x.IsSpelled)
      (between : IsGap x y gap) (behind : Writes (y :: others) text) :
      Writes (x :: y :: others) (x.spelling ++ gap ++ text)

/-! ## Where neighbours meet -/

theorem IsSpelled.bracket (spelled : x.IsSpelled) (bracket : x.IsBracket) :
    ∃ c, x.spelling = [c] ∧ Token.bracket? c = some x.token := by
  obtain ⟨k, same | same⟩ := bracket
  · rw [IsSpelled, same, Token.Spells.opening_iff] at spelled
    exact ⟨k.opening, spelled, by rw [same, Token.bracket?_opening]⟩
  · rw [IsSpelled, same, Token.Spells.closing_iff] at spelled
    exact ⟨k.closing, spelled, by rw [same, Token.bracket?_closing]⟩

theorem IsSymbol.not_isBracket (symbol : x.IsSymbol) : ¬ x.IsBracket := by
  have operator := Token.isOperator_of_symbol symbol
  rintro ⟨k, same | same⟩ <;> rw [same] at operator <;> cases operator

theorem IsSymbol.not_isWord (symbol : x.IsSymbol) : ¬ x.IsWord := by
  have operator := Token.isOperator_of_symbol symbol
  rintro ⟨w, same⟩
  rw [same] at operator
  cases operator

theorem IsSpelled.word (spelled : x.IsSpelled) (word : x.IsWord) :
    x.spelling ≠ [] ∧ (∀ c ∈ x.spelling, Token.isWordChar c) ∧ Token.keyword? x.spelling = none := by
  obtain ⟨w, same⟩ := word
  rw [IsSpelled, same, Token.Spells.word_iff] at spelled
  exact spelled.2

/-- A lexeme ends before a character: none of a word or a symbol goes on there. -/
def EndsBefore (x : Lexeme) (after : Option Char) : Prop :=
  Token.separates after ∨ x.IsBracket ∨ (x.IsSymbol ∧ ∃ c, after = some c ∧ Token.isWordChar c) ∨
    (x.IsWord ∧ ∃ c, after = some c ∧ Token.isSymbolChar c)

/-- A keyword may begin behind a character. -/
def BeginsBehind (x : Lexeme) (before : Option Char) : Prop :=
  Token.keyword? x.spelling ≠ none → Token.separates before

theorem IsGap.endsBefore (between : IsGap x y gap) (spelled : y.IsSpelled) :
    x.EndsBefore (gap ++ (y.spelling ++ rest)).head? := by
  cases gap with
  | cons c gap =>
    have blank := between.blank c List.mem_cons_self
    exact .inl (by simp [Token.separates, blank])
  | nil =>
    rcases between.filled rfl with left | right | ⟨left, right⟩ | ⟨left, right⟩
    · exact .inr (.inl left)
    · obtain ⟨c, only, bracket⟩ := spelled.bracket right
      exact .inl (by simp [only, Token.separates, bracket])
    · obtain ⟨filled, letters, -⟩ := spelled.word right
      obtain ⟨c, tail, first⟩ := List.exists_cons_of_ne_nil filled
      exact .inr (.inr (.inl ⟨left, c, by simp [first], letters c (by simp [first])⟩))
    · obtain ⟨filled, symbol⟩ := Token.symbolChars right
      obtain ⟨c, tail, first⟩ := List.exists_cons_of_ne_nil filled
      exact .inr (.inr (.inr ⟨left, c, by simp [first], symbol c (by simp [first])⟩))

theorem IsGap.beginsBehind (between : IsGap x y gap) (first : x.IsSpelled) (second : y.IsSpelled) :
    y.BeginsBehind (gap.getLast?.or x.spelling.getLast?) := by
  intro keyword
  have key := second.keyword?_eq keyword
  cases last : gap.getLast? with
  | some c =>
    have blank := between.blank c (List.mem_of_getLast? last)
    simp [Token.separates, blank]
  | none =>
    rcases between.filled (List.getLast?_eq_none_iff.1 last) with left | right | ⟨-, right⟩ | ⟨-, right⟩
    · obtain ⟨c, only, bracket⟩ := first.bracket left
      simp [only, Token.separates, bracket]
    · -- The other neighbours that may touch are no keywords.
      obtain ⟨c, only, bracket⟩ := second.bracket right
      have letter := Token.isWordChar_iff.1 ((Token.isWordChar_of_keyword key).2 c (by simp [only]))
      rw [bracket] at letter
      cases letter.2.2
    · exact absurd (second.word right).2.2 keyword
    · obtain ⟨filled, symbol⟩ := Token.symbolChars right
      obtain ⟨c, tail, first⟩ := List.exists_cons_of_ne_nil filled
      have letter := (Token.isWordChar_of_keyword key).2 c (by simp [first])
      rw [Token.not_isWordChar_of_symbol (symbol c (by simp [first]))] at letter
      cases letter

/-- A row of word characters ends before a blank or a bracket, and a word also before a symbol. -/
theorem EndsBefore.row (ends : x.EndsBefore after) (spelled : x.IsSpelled) (filled : x.spelling ≠ [])
    (letters : ∀ c ∈ x.spelling, Token.isWordChar c) :
    Token.separates after ∨ (x.IsWord ∧ ∃ c, after = some c ∧ Token.isSymbolChar c) := by
  rcases ends with separate | bracket | ⟨symbol, -⟩ | word
  · exact .inl separate
  · obtain ⟨c, only, bracket⟩ := spelled.bracket bracket
    have letter := Token.isWordChar_iff.1 (letters c (by simp [only]))
    rw [bracket] at letter
    cases letter.2.2
  · obtain ⟨c, tail, first⟩ := List.exists_cons_of_ne_nil filled
    have member : c ∈ x.spelling := by simp [first]
    have letter := letters c member
    rw [Token.not_isWordChar_of_symbol ((Token.symbolChars symbol).2 c member)] at letter
    cases letter
  · exact .inr word

/-- A symbol ends before every character that is none of a symbol. -/
theorem EndsBefore.symbol {c : Char} (ends : x.EndsBefore (some c)) (symbol : x.IsSymbol) :
    Token.isSymbolChar c = false := by
  rcases ends with separate | bracket | ⟨-, d, same, letter⟩ | ⟨word, -⟩
  · exact Token.not_isSymbolChar_of_separates separate
  · exact absurd bracket symbol.not_isBracket
  · cases same
    exact Token.not_isSymbolChar_of_word letter
  · exact absurd word symbol.not_isWord

theorem not_isWordChar_of_end {c : Char} (ends : Token.separates (some c) ∨
    (x.IsWord ∧ ∃ d, some c = some d ∧ Token.isSymbolChar d)) : Token.isWordChar c = false := by
  rcases ends with separate | ⟨-, d, same, symbol⟩
  · exact Token.not_isWordChar_of_separates separate
  · cases same
    exact Token.not_isWordChar_of_symbol symbol

/-! ## Reading what was written -/

/-- A spelling is read as its token, whatever follows where it ends. -/
theorem IsSpelled.scan (spelled : x.IsSpelled) (begins : x.BeginsBehind before) (ends : x.EndsBefore rest.head?) :
    scan before (x.spelling ++ rest) = x :: scan x.spelling.getLast? rest := by
  have row := ends.row spelled
  obtain ⟨t, s⟩ := x
  rw [IsSpelled] at spelled
  dsimp only at spelled row ⊢
  cases spelled with
  | symbol listed =>
    have symbol : IsSymbol ⟨t, s⟩ := listed
    exact scan_symbol listed (Token.symbolAt?_append listed fun c head => EndsBefore.symbol (head ▸ ends) symbol)
  | keyword listed same =>
    have found := Token.keyword?_eq_some_iff.2 ⟨_, listed, same⟩
    obtain ⟨filled, letters⟩ := Token.isWordChar_of_keyword found
    have right : Token.separates rest.head? := by
      rcases row filled letters with separate | ⟨⟨w, word⟩, -⟩
      · exact separate
      · have operator := Token.isOperator_of_keyword listed
        rw [show t = .word w from word] at operator
        cases operator
    have left : Token.separates before := begins (by rw [found]; exact Option.some_ne_none t)
    rw [scan_word filled letters fun c head => not_isWordChar_of_end (head ▸ row filled letters),
      Token.ofWord_of_keyword found left right]
  | opening k => exact scan_bracket (Token.bracket?_opening k)
  | closing k => exact scan_bracket (Token.bracket?_closing k)
  | word filled letters free =>
    rw [scan_word filled letters fun c head => not_isWordChar_of_end (head ▸ row filled letters),
      Token.ofWord_of_free free]

theorem Writes.first (writes : Writes (y :: others) text) : y.IsSpelled ∧ ∃ rest, text = y.spelling ++ rest := by
  cases writes with
  | last spelled => exact ⟨spelled, [], (List.append_nil _).symm⟩
  | more _ spelled _ _ => exact ⟨spelled, _, List.append_assoc _ _ _⟩

theorem Writes.scan {xs : List Lexeme} (writes : Writes xs text)
    (begins : ∀ x, xs.head? = some x → x.BeginsBehind before) : Lexeme.scan before text = xs := by
  induction writes generalizing before with
  | nothing => exact scan_nil before
  | @last x spelled =>
    have ends : x.EndsBefore ([] : List Char).head? := .inl rfl
    have read := spelled.scan (begins x rfl) ends
    rwa [List.append_nil, scan_nil] at read
  | @more x y others text gap spelled between behind ih =>
    obtain ⟨next, rest, front⟩ := behind.first
    have ends : x.EndsBefore (gap ++ text).head? := front ▸ between.endsBefore next
    have following : ∀ z, (y :: others).head? = some z → z.BeginsBehind (gap.getLast?.or x.spelling.getLast?) := by
      rintro z ⟨⟩
      exact between.beginsBehind spelled next
    rw [List.append_assoc, spelled.scan (begins x rfl) ends, scan_gap between.blank, ih following]

/-- A text made of spellings is read as the tokens that are spelled, whichever spellings were chosen and whatever white
space stands between them. The scanner finds the chosen spellings. -/
theorem spellings_agree {xs : List Lexeme} {text : List Char} (writes : Writes xs text) :
    Token.scan (String.ofList text) = xs.map (·.token) ∧ Lexeme.scan none text = xs := by
  have read : Lexeme.scan none text = xs := writes.scan fun x _ _ => rfl
  exact ⟨by rw [Token.scan, String.toList_ofList, read], read⟩

/-- Symbols touch words, brackets touch everything, and a keyword in capitals stands between a bracket and a blank. -/
theorem spellings_agree_dense :
    let xs : List Lexeme := [⟨.opening .round, ['(']⟩, ⟨.word "sip", ['s', 'i', 'p']⟩, ⟨.compare .eq, ['=', '=']⟩,
      ⟨.word "x", ['x']⟩, ⟨.closing .round, [')']⟩, ⟨.and, ['A', 'N', 'D']⟩, ⟨.word "y", ['y']⟩]
    Writes xs ['(', 's', 'i', 'p', '=', '=', 'x', ')', 'A', 'N', 'D', '\t', 'y'] ∧
      Token.scan "(sip==x)AND\ty" = xs.map (·.token) ∧
      Lexeme.scan none ['(', 's', 'i', 'p', '=', '=', 'x', ')', 'A', 'N', 'D', '\t', 'y'] = xs := by
  intro xs
  have sip : IsSpelled ⟨.word "sip", ['s', 'i', 'p']⟩ := Token.Spells.word (by decide) (List.all_eq_true.1 (by decide)) (by decide)
  have x : IsSpelled ⟨.word "x", ['x']⟩ := Token.Spells.word (by decide) (List.all_eq_true.1 (by decide)) (by decide)
  have y : IsSpelled ⟨.word "y", ['y']⟩ := Token.Spells.word (by decide) (List.all_eq_true.1 (by decide)) (by decide)
  have equals : IsSymbol ⟨.compare .eq, ['=', '=']⟩ := by decide
  have writes : Writes xs ['(', 's', 'i', 'p', '=', '=', 'x', ')', 'A', 'N', 'D', '\t', 'y'] :=
    .more [] (.opening .round) ⟨by simp, fun _ => .inl ⟨.round, .inl rfl⟩⟩ <|
    .more [] sip ⟨by simp, fun _ => .inr (.inr (.inr ⟨⟨"sip", rfl⟩, equals⟩))⟩ <|
    .more [] (.symbol equals) ⟨by simp, fun _ => .inr (.inr (.inl ⟨equals, "x", rfl⟩))⟩ <|
    .more [] x ⟨by simp, fun _ => .inr (.inl ⟨.round, .inr rfl⟩)⟩ <|
    .more [] (.closing .round) ⟨by simp, fun _ => .inl ⟨.round, .inr rfl⟩⟩ <|
    .more ['\t'] (.keyword (w := "and") (by decide) (by decide)) ⟨List.all_eq_true.1 (by decide), by simp⟩ <|
    .last y
  exact ⟨writes, spellings_agree writes⟩

end Lexeme

end FlowArchive
