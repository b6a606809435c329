import FlowArchive.Condition.Token
import Mathlib.Data.List.Find

/-!
# Steps of the scanner

What the scanner takes from the front of a text: a blank, a bracket, a symbol or a row of word characters. A symbol and
a row end where the next character cannot make them longer. The character before a text matters only if the text begins
with a keyword.
-/

namespace FlowArchive

namespace Token

variable {c : Char} {s rest letters : List Char} {t : Token} {before after : Option Char}

/-! ## Classes of tokens and characters -/

/-- Whether a token joins or compares, so that it has symbols and keywords. -/
def isOperator : Token → Bool
  | .not | .and | .or | .compare _ => true
  | .opening _ | .closing _ | .word _ => false

theorem isWordChar_iff : isWordChar c ↔ Text.isBlank c = false ∧ isSymbolChar c = false ∧ bracket? c = none := by
  simp [isWordChar, and_assoc]

theorem symbolChar_apart (symbol : isSymbolChar c) : Text.isBlank c = false ∧ bracket? c = none := by
  have all : ['!', '&', '|', '*', '+', '=', '<', '>'].all fun d => !Text.isBlank d && (bracket? d).isNone := by decide
  simpa using List.all_eq_true.1 all c (of_decide_eq_true symbol)

theorem not_isWordChar_of_symbol (symbol : isSymbolChar c) : isWordChar c = false := by
  simp [isWordChar, symbol]

theorem not_isWordChar_of_separates (separate : separates (some c)) : isWordChar c = false := by
  simp only [separates, Bool.or_eq_true] at separate
  rcases separate with blank | bracket
  · simp [isWordChar, blank]
  · simp only [isWordChar, Bool.and_eq_false_iff]
    right
    simpa using bracket

theorem not_isSymbolChar_of_separates (separate : separates (some c)) : isSymbolChar c = false := by
  refine Bool.eq_false_iff.2 fun symbol => ?_
  obtain ⟨notBlank, notBracket⟩ := symbolChar_apart symbol
  simp [separates, notBlank, notBracket] at separate

theorem not_isSymbolChar_of_word (word : isWordChar c) : isSymbolChar c = false := (isWordChar_iff.1 word).2.1

@[simp] theorem bracket?_opening (k : Bracket) : bracket? k.opening = some (.opening k) := by
  cases k <;> rfl

@[simp] theorem bracket?_closing (k : Bracket) : bracket? k.closing = some (.closing k) := by
  cases k <;> rfl

theorem not_isBlank_of_bracket (bracket : bracket? c = some t) : Text.isBlank c = false := by
  unfold bracket? at bracket
  split at bracket
  all_goals first
    | decide
    | cases bracket

/-! ## Symbols -/

theorem symbolChars (listed : (s, t) ∈ symbols) : s ≠ [] ∧ ∀ c ∈ s, isSymbolChar c := by
  have all : ∀ e ∈ symbols, e.1 ≠ [] ∧ e.1.all isSymbolChar := by decide
  obtain ⟨filled, symbol⟩ := all (s, t) listed
  exact ⟨filled, List.all_eq_true.1 symbol⟩

theorem isOperator_of_symbol (listed : (s, t) ∈ symbols) : t.isOperator = true := by
  have all : ∀ e ∈ symbols, e.2.isOperator = true := by decide
  exact all _ listed

/-- Symbols that open a text lie before the first character that is none of theirs. -/
theorem isPrefixOf_append {p : List Char} (symbol : ∀ c ∈ p, isSymbolChar c)
    (stops : ∀ c, rest.head? = some c → isSymbolChar c = false) : p.isPrefixOf (s ++ rest) = p.isPrefixOf s := by
  induction p generalizing s with
  | nil => simp
  | cons d p ih =>
    cases s with
    | nil =>
      cases rest with
      | nil => rfl
      | cons c rest =>
        have other : d ≠ c := fun same => by
          have isSymbol := symbol d List.mem_cons_self
          rw [same, stops c rfl] at isSymbol
          cases isSymbol
        rw [List.nil_append, List.isPrefixOf_cons_cons, beq_false_of_ne other]
        rfl
    | cons e s =>
      have tail := ih (s := s) fun c member => symbol c (List.mem_cons_of_mem _ member)
      simp only [List.cons_append, List.isPrefixOf_cons_cons, tail]

theorem symbolAt?_append (listed : (s, t) ∈ symbols) (stops : ∀ c, rest.head? = some c → isSymbolChar c = false) :
    symbolAt? (s ++ rest) = some (s, t) := by
  have own : ∀ e ∈ symbols, symbols.find? (fun f => f.1.isPrefixOf e.1) = some e := by decide
  have same : symbols.find? (fun f => f.1.isPrefixOf (s ++ rest)) = symbols.find? (fun f => f.1.isPrefixOf s) :=
    List.find?_congr fun f member => isPrefixOf_append (symbolChars (t := f.2) member).2 stops
  rw [symbolAt?, same]
  exact own (s, t) listed

/-- A negation is read on its own unless an inequality begins there. -/
theorem symbolAt?_not (stops : rest.head? ≠ some '=') : symbolAt? ('!' :: rest) = some (['!'], .not) := by
  cases rest with
  | nil => decide
  | cons c rest =>
    have other : '=' ≠ c := fun same => stops (by rw [← same]; rfl)
    simp [symbolAt?, symbols, List.find?, List.isPrefixOf_cons_cons, beq_false_of_ne other]

theorem symbolAt?_eq_none (other : isSymbolChar c = false) : symbolAt? (c :: rest) = none := by
  refine List.find?_eq_none.2 fun e member opens => ?_
  obtain ⟨filled, symbol⟩ := symbolChars (t := e.2) member
  obtain ⟨d, tail, split⟩ := List.exists_cons_of_ne_nil filled
  rw [split, List.isPrefixOf_cons_cons, Bool.and_eq_true, beq_iff_eq] at opens
  have isSymbol := symbol d (by rw [split]; exact List.mem_cons_self)
  rw [opens.1, other] at isSymbol
  cases isSymbol

/-- A symbol can be read where one of its characters stands. -/
theorem symbolAt?_ne_none (symbol : isSymbolChar c) : symbolAt? (c :: rest) ≠ none := by
  have single : ['!', '&', '|', '*', '+', '=', '<', '>'].all fun d => ∃ e ∈ symbols, e.1 = [d] := by decide
  obtain ⟨e, listed, own⟩ := of_decide_eq_true (List.all_eq_true.1 single c (of_decide_eq_true symbol))
  refine fun none => absurd (List.find?_eq_none.1 none e listed) ?_
  simp [own]

theorem symbolAt?_mem (found : symbolAt? s = some (letters, t)) : (letters, t) ∈ symbols :=
  List.mem_of_find?_eq_some found

/-! ## Keywords -/

/-- Keywords have small letters and hyphens only. -/
theorem keyword_letters {e : String × Token} (listed : e ∈ keywords) :
    'k' ∉ e.1.toList ∧ e.1.toList ≠ [] ∧ ∀ c ∈ e.1.toList, c = '-' ∨ ('a' ≤ c ∧ c ≤ 'z') := by
  have all : ∀ e ∈ keywords, 'k' ∉ e.1.toList ∧ e.1.toList ≠ [] ∧
      e.1.toList.all fun c => c = '-' ∨ ('a' ≤ c ∧ c ≤ 'z') := by
    decide
  obtain ⟨absent, filled, letters⟩ := all e listed
  exact ⟨absent, filled, fun c member => of_decide_eq_true (List.all_eq_true.1 letters c member)⟩

theorem isOperator_of_keyword {w : String} (listed : (w, t) ∈ keywords) : t.isOperator = true := by
  have all : ∀ e ∈ keywords, e.2.isOperator = true := by decide
  exact all _ listed

theorem map_fold (absent : '\u212a' ∉ s) : s.map Text.fold = s.map Text.lowerAscii := by
  refine List.map_congr_left fun c member => ?_
  have other : c ≠ '\u212a' := fun same => absent (same ▸ member)
  rw [Text.fold, if_neg other]

/-- A word is a keyword if and only if the case of ASCII letters is all that it differs in: no keyword has a `k`. -/
theorem keyword?_eq_some_iff :
    keyword? s = some t ↔ ∃ w, (w, t) ∈ keywords ∧ s.map Text.lowerAscii = w.toList := by
  have own : ∀ e ∈ keywords, (keywords.find? fun f => f.1.toList == e.1.toList).map (·.2) = some e.2 := by decide
  constructor
  · intro found
    obtain ⟨⟨w, u⟩, first, rfl⟩ := Option.map_eq_some_iff.1 found
    have listed := List.mem_of_find?_eq_some first
    have spelled : w.toList = s.map Text.fold := by simpa using List.find?_some first
    have absent : '\u212a' ∉ s := fun member => by
      have folded : 'k' ∈ s.map Text.fold := List.mem_map.2 ⟨_, member, rfl⟩
      exact (keyword_letters listed).1 (spelled ▸ folded)
    exact ⟨w, listed, by rw [spelled, map_fold absent]⟩
  · rintro ⟨w, listed, spelled⟩
    have absent : '\u212a' ∉ s := fun member => by
      have small : Text.lowerAscii '\u212a' ∈ w.toList := spelled ▸ List.mem_map.2 ⟨_, member, rfl⟩
      rcases (keyword_letters listed).2.2 _ small with hyphen | letter
      · exact absurd hyphen (by decide)
      · exact absurd letter (by decide)
    rw [keyword?, map_fold absent, spelled]
    exact own (w, t) listed

/-- Letters and hyphens are word characters. -/
theorem isWordChar_of_lowerAscii (small : Text.lowerAscii c = '-' ∨ ('a' ≤ Text.lowerAscii c ∧ Text.lowerAscii c ≤ 'z')) :
    isWordChar c := by
  have ascii : ∀ n, n < 128 → Text.lowerAscii (Char.ofNat n) = '-' ∨
      ('a' ≤ Text.lowerAscii (Char.ofNat n) ∧ Text.lowerAscii (Char.ofNat n) ≤ 'z') → isWordChar (Char.ofNat n) := by
    decide
  have low : c.toNat < 128 := by
    unfold Text.lowerAscii at small
    split at small
    next capital => exact Nat.lt_of_le_of_lt (Char.le_def.1 capital.2) (by decide)
    next =>
      rcases small with rfl | letter
      · decide
      · exact Nat.lt_of_le_of_lt (Char.le_def.1 letter.2) (by decide)
  have whole : Char.ofNat c.toNat = c := Char.ofNat_toNat c
  rw [← whole] at small ⊢
  exact ascii c.toNat low small

theorem isWordChar_of_keyword (found : keyword? s = some t) : s ≠ [] ∧ ∀ c ∈ s, isWordChar c := by
  obtain ⟨w, listed, spelled⟩ := keyword?_eq_some_iff.1 found
  obtain ⟨-, filled, letters⟩ := keyword_letters listed
  refine ⟨fun empty => filled (by rw [← spelled, empty]; rfl), fun c member => ?_⟩
  have small : Text.lowerAscii c ∈ w.toList := spelled ▸ List.mem_map.2 ⟨c, member, rfl⟩
  exact isWordChar_of_lowerAscii (letters _ small)

theorem ofWord_of_free (free : keyword? letters = none) : ofWord before letters after = .word (String.ofList letters) := by
  simp only [ofWord, free]

theorem ofWord_of_keyword (found : keyword? letters = some t) (left : separates before) (right : separates after) :
    ofWord before letters after = t := by
  simp only [ofWord, found, left, right, Bool.and_self, if_true]

/-- A row of word characters is read as a keyword or as the word that it spells. -/
theorem ofWord_cases (before : Option Char) (letters : List Char) (after : Option Char) :
    (ofWord before letters after).isOperator = true ∨ ofWord before letters after = .word (String.ofList letters) := by
  cases found : keyword? letters with
  | none => exact .inr (ofWord_of_free found)
  | some t =>
    obtain ⟨w, listed, -⟩ := keyword?_eq_some_iff.1 found
    simp only [ofWord, found]
    split
    · exact .inl (isOperator_of_keyword listed)
    · exact .inr rfl

end Token

/-! ## Steps -/

namespace Lexeme

variable {c : Char} {s rest gap : List Char} {t : Token} {before other : Option Char}

@[simp] theorem scan_nil (before : Option Char) : scan before [] = [] := by
  rw [scan]

theorem scan_blank (blank : Text.isBlank c) : scan before (c :: rest) = scan (some c) rest := by
  rw [scan, if_pos blank]

/-- Blanks are skipped. -/
theorem scan_gap (blank : ∀ c ∈ gap, Text.isBlank c) :
    scan before (gap ++ rest) = scan (gap.getLast?.or before) rest := by
  induction gap generalizing before with
  | nil => rfl
  | cons c gap ih =>
    have last : (c :: gap).getLast?.or before = gap.getLast?.or (some c) := by
      rw [List.getLast?_cons]
      cases gap.getLast? <;> rfl
    rw [List.cons_append, scan_blank (blank c List.mem_cons_self), last]
    exact ih fun d member => blank d (List.mem_cons_of_mem _ member)

theorem scan_bracket (bracket : Token.bracket? c = some t) :
    scan before (c :: rest) = ⟨t, [c]⟩ :: scan (some c) rest := by
  rw [scan, if_neg (by simp [Token.not_isBlank_of_bracket bracket])]
  simp only [bracket]

/-- A symbol is taken if it is the longest that opens the text. -/
theorem scan_symbol (listed : (s, t) ∈ Token.symbols) (longest : Token.symbolAt? (s ++ rest) = some (s, t)) :
    scan before (s ++ rest) = ⟨t, s⟩ :: scan s.getLast? rest := by
  obtain ⟨filled, symbol⟩ := Token.symbolChars listed
  obtain ⟨c, tail, rfl⟩ := List.exists_cons_of_ne_nil filled
  obtain ⟨notBlank, notBracket⟩ := Token.symbolChar_apart (symbol c List.mem_cons_self)
  rw [List.cons_append] at longest ⊢
  have behind : (tail ++ rest).drop ((c :: tail).length - 1) = rest := List.drop_left' (by simp)
  rw [scan, if_neg (by simp [notBlank])]
  simp only [notBracket, longest, behind]

/-- A row of word characters is taken whole. -/
theorem scan_word (filled : s ≠ []) (letters : ∀ c ∈ s, Token.isWordChar c)
    (stops : ∀ c, rest.head? = some c → Token.isWordChar c = false) :
    scan before (s ++ rest) = ⟨Token.ofWord before s rest.head?, s⟩ :: scan s.getLast? rest := by
  obtain ⟨c, tail, rfl⟩ := List.exists_cons_of_ne_nil filled
  obtain ⟨notBlank, notSymbol, notBracket⟩ := Token.isWordChar_iff.1 (letters c List.mem_cons_self)
  have inner : ∀ d ∈ tail, Token.isWordChar d := fun d member => letters d (List.mem_cons_of_mem _ member)
  have ends : rest.takeWhile Token.isWordChar = [] ∧ rest.dropWhile Token.isWordChar = rest := by
    cases rest with
    | nil => exact ⟨rfl, rfl⟩
    | cons d rest => simp [stops d rfl]
  rw [List.cons_append, scan, if_neg (by simp [notBlank])]
  simp only [notBracket, Token.symbolAt?_eq_none notSymbol, List.takeWhile_append_of_pos inner,
    List.dropWhile_append_of_pos inner, ends, List.append_nil]

/-- What is read as a word is a row of word characters. -/
theorem scan_words {w : String} (member : Token.word w ∈ (scan before s).map (·.token)) :
    w.toList ≠ [] ∧ ∀ c ∈ w.toList, Token.isWordChar c := by
  induction before, s using scan.induct with
  | case1 before => simp at member
  | case2 before c rest blank ih =>
    rw [scan_blank blank] at member
    exact ih member
  | case3 before c rest notBlank t bracket ih =>
    rw [scan_bracket bracket, List.map_cons, List.mem_cons] at member
    rcases member with same | later
    · subst same
      unfold Token.bracket? at bracket
      split at bracket <;> cases bracket
    · exact ih later
  | case4 before c rest notBlank notBracket spelling t symbol ih =>
    have listed := Token.symbolAt?_mem symbol
    rw [scan, if_neg notBlank] at member
    simp only [notBracket, symbol, List.map_cons, List.mem_cons] at member
    rcases member with same | later
    · subst same
      cases Token.isOperator_of_symbol listed
    · exact ih later
  | case5 before c rest notBlank notBracket notSymbol letters after ih =>
    have symbol : Token.isSymbolChar c = false := Bool.eq_false_iff.2 fun symbol =>
      Token.symbolAt?_ne_none symbol notSymbol
    have first : Token.isWordChar c := Token.isWordChar_iff.2 ⟨by simpa using notBlank, symbol, notBracket⟩
    rw [scan, if_neg notBlank] at member
    simp only [notBracket, notSymbol, List.map_cons, List.mem_cons] at member
    rcases member with same | later
    · rcases Token.ofWord_cases before letters after.head? with operator | word
      · rw [← same] at operator
        cases operator
      · rw [← same] at word
        cases word
        rw [String.toList_ofList]
        refine ⟨List.cons_ne_nil _ _, fun d member => ?_⟩
        rcases List.mem_cons.1 member with rfl | inner
        · exact first
        · exact List.all_eq_true.1 List.all_takeWhile d inner
    · exact ih later

/-- What stands before a text does not matter if the text does not begin with a word. -/
theorem scan_congr (separate : Token.separates rest.head?) : scan before rest = scan other rest := by
  cases rest with
  | nil => rw [scan_nil, scan_nil]
  | cons c rest =>
    simp only [List.head?_cons, Token.separates, Bool.or_eq_true] at separate
    rcases separate with blank | bracket
    · rw [scan_blank blank, scan_blank blank]
    · obtain ⟨t, bracket⟩ := Option.isSome_iff_exists.1 bracket
      rw [scan_bracket bracket, scan_bracket bracket]

end Lexeme

end FlowArchive
