import FlowArchive.Proofs.Spellings
import FlowArchive.Proofs.SymbolRuns

/-!
# Scanning is local

White space and brackets end every token in front of them, and a word right behind them may be a keyword as at the start
of a text. So a text can be cut there: its tokens are those of the part in front and those of the part behind. Only white
space is lost on the way, all else is found again in the spellings of the tokens.
-/

namespace FlowArchive

namespace Token

variable {s : List Char} {t : Token}

/-- Only whether its neighbours separate matters for a row of word characters. -/
theorem ofWord_congr {before other after next : Option Char} (letters : List Char)
    (left : separates before = separates other) (right : separates after = separates next) :
    ofWord before letters after = ofWord other letters next := by
  simp only [ofWord, left, right]

/-- No spelling is empty or has a blank. -/
theorem Spells.solid (spells : Spells s t) : s ≠ [] ∧ ∀ c ∈ s, Text.isBlank c = false := by
  cases spells with
  | symbol listed =>
    obtain ⟨filled, symbols⟩ := symbolChars listed
    exact ⟨filled, fun c member => (symbolChar_apart (symbols c member)).1⟩
  | keyword listed same =>
    obtain ⟨filled, letters⟩ := isWordChar_of_keyword (keyword?_eq_some_iff.2 ⟨_, listed, same⟩)
    exact ⟨filled, fun c member => (isWordChar_iff.1 (letters c member)).1⟩
  | opening k => exact ⟨List.cons_ne_nil _ _, by simpa using not_isBlank_of_bracket (bracket?_opening k)⟩
  | closing k => exact ⟨List.cons_ne_nil _ _, by simpa using not_isBlank_of_bracket (bracket?_closing k)⟩
  | word filled letters free => exact ⟨filled, fun c member => (isWordChar_iff.1 (letters c member)).1⟩

theorem spells_of_bracket? {c : Char} (bracket : bracket? c = some t) : Spells [c] t := by
  unfold bracket? at bracket
  split at bracket
  · cases bracket; exact .opening .round
  · cases bracket; exact .opening .square
  · cases bracket; exact .opening .curly
  · cases bracket; exact .closing .round
  · cases bracket; exact .closing .square
  · cases bracket; exact .closing .curly
  · cases bracket

end Token

namespace Lexeme

variable {c : Char} {s rest : List Char} {x : Lexeme} {before other : Option Char}

/-! ## One lexeme -/

/-- What the scanner reads: a token in one of its spellings, or the word that a keyword is where it does not stand
alone. -/
def IsRead (x : Lexeme) : Prop :=
  x.IsSpelled ∨ (Token.keyword? x.spelling ≠ none ∧ x.token = .word (String.ofList x.spelling))

theorem IsRead.solid (read : x.IsRead) : x.spelling ≠ [] ∧ ∀ c ∈ x.spelling, Text.isBlank c = false := by
  rcases read with spelled | ⟨keyword, -⟩
  · exact Token.Spells.solid spelled
  · obtain ⟨t, found⟩ := Option.ne_none_iff_exists'.1 keyword
    obtain ⟨filled, letters⟩ := Token.isWordChar_of_keyword found
    exact ⟨filled, fun c member => (Token.isWordChar_iff.1 (letters c member)).1⟩

/-- A row of word characters is read, whatever its neighbours are. -/
theorem isRead_ofWord {letters : List Char} (filled : letters ≠ []) (row : ∀ c ∈ letters, Token.isWordChar c)
    (before after : Option Char) : IsRead ⟨Token.ofWord before letters after, letters⟩ := by
  cases found : Token.keyword? letters with
  | none =>
    rw [Token.ofWord_of_free found]
    exact .inl (Token.Spells.word filled row found)
  | some t =>
    simp only [Token.ofWord, found]
    split
    · obtain ⟨w, listed, same⟩ := Token.keyword?_eq_some_iff.1 found
      exact .inl (Token.Spells.keyword listed same)
    · exact .inr ⟨by rw [found]; exact Option.some_ne_none t, rfl⟩

/-- Where no blank stands a lexeme is read, and the same one whatever follows behind the next separator. -/
theorem exists_read (before : Option Char) (solid : Text.isBlank c = false) (tail : List Char) :
    ∃ x behind, c :: tail = x.spelling ++ behind ∧ x.IsRead ∧ ∀ rest : List Char, Token.separates rest.head? →
      scan before (x.spelling ++ (behind ++ rest)) = x :: scan x.spelling.getLast? (behind ++ rest) := by
  cases bracket : Token.bracket? c with
  | some t =>
    exact ⟨⟨t, [c]⟩, tail, rfl, .inl (Token.spells_of_bracket? bracket), fun rest _ => scan_bracket bracket⟩
  | none =>
    cases symbol : Token.isSymbolChar c with
    | true =>
      have opens : Token.symbolAt? (c :: tail) ≠ none := Token.symbolAt?_ne_none symbol
      obtain ⟨⟨spelling, t⟩, found⟩ := Option.ne_none_iff_exists'.1 opens
      have listed := Token.symbolAt?_mem found
      obtain ⟨behind, split⟩ := Token.exists_of_symbolAt? found
      refine ⟨⟨t, spelling⟩, behind, split, .inl (.symbol listed), fun rest separate => scan_symbol listed ?_⟩
      have stops : ∀ d, rest.head? = some d → Token.isSymbolChar d = false := fun d head =>
        Token.not_isSymbolChar_of_separates (head ▸ separate)
      rw [← List.append_assoc, Token.symbolAt?_run stops, ← split, found]
    | false =>
      have first : Token.isWordChar c := Token.isWordChar_iff.2 ⟨solid, symbol, bracket⟩
      obtain ⟨row, stops, whole⟩ := Token.row_taken first tail
      refine ⟨⟨_, _⟩, _, whole.symm, isRead_ofWord (List.cons_ne_nil _ _) row before
        (tail.dropWhile Token.isWordChar).head?, fun rest separate => ?_⟩
      cases left : tail.dropWhile Token.isWordChar with
      | nil =>
        have ends : ∀ d, rest.head? = some d → Token.isWordChar d = false := fun d head =>
          Token.not_isWordChar_of_separates (head ▸ separate)
        have alone : Token.separates rest.head? = Token.separates none := separate
        rw [List.nil_append, scan_word (List.cons_ne_nil _ _) row ends, Token.ofWord_congr _ rfl alone]
        rfl
      | cons d behind =>
        rw [left] at stops
        exact scan_word (List.cons_ne_nil _ _) row stops

/-! ## Texts -/

/-- A text is empty, begins with a blank, or begins with a lexeme. -/
theorem byLexeme {motive : Option Char → List Char → Prop} (nothing : ∀ before, motive before [])
    (blank : ∀ before c tail, Text.isBlank c → motive (some c) tail → motive before (c :: tail))
    (lexeme : ∀ before x behind, IsRead x → (∀ rest : List Char, Token.separates rest.head? →
      scan before (x.spelling ++ (behind ++ rest)) = x :: scan x.spelling.getLast? (behind ++ rest)) →
      motive x.spelling.getLast? behind → motive before (x.spelling ++ behind))
    (before : Option Char) (s : List Char) : motive before s := by
  induction long : s.length using Nat.strong_induction_on generalizing before s with
  | _ n ih =>
    subst long
    cases s with
    | nil => exact nothing before
    | cons c tail =>
      cases solid : Text.isBlank c with
      | true => exact blank before c tail solid (ih _ (Nat.lt_succ_self _) _ _ rfl)
      | false =>
        obtain ⟨x, behind, split, read, scanned⟩ := exists_read before solid tail
        have shorter : behind.length < (c :: tail).length := by
          have filled := List.length_pos_iff.2 read.solid.1
          rw [split, List.length_append]
          omega
        rw [split]
        exact lexeme before x behind read scanned (ih _ shorter _ _ rfl)

/-- Of the character in front of a text it matters only whether it separates. -/
theorem scan_before_congr (same : Token.separates before = Token.separates other) : scan before s = scan other s := by
  have word : ∀ letters after, Token.ofWord before letters after = Token.ofWord other letters after :=
    fun letters after => Token.ofWord_congr letters same rfl
  cases s with
  | nil => rw [scan_nil, scan_nil]
  | cons c rest =>
    rw [scan, scan]
    simp only [word]

/-- Behind a separator a text is read as if it stood alone. -/
theorem scan_behind (separate : Token.separates (some c)) (s : List Char) : scan (some c) s = scan none s :=
  scan_before_congr separate

/-- What is read in front of a separator and from there on are the lexemes of the two parts. -/
theorem scan_append (separate : Token.separates rest.head?) (before : Option Char) (s : List Char) :
    scan before (s ++ rest) = scan before s ++ scan none rest := by
  induction before, s using byLexeme with
  | nothing before => rw [scan_nil, List.nil_append, List.nil_append, scan_congr separate]
  | blank before c tail blank ih => rw [List.cons_append, scan_blank blank, scan_blank blank, ih]
  | lexeme before x behind read scanned ih =>
    have alone := scanned [] rfl
    rw [List.append_nil] at alone
    rw [List.append_assoc, scanned rest separate, ih, alone, List.cons_append]

theorem scan_cut_blank (blank : Text.isBlank c) (s rest : List Char) :
    scan before (s ++ c :: rest) = scan before s ++ scan none rest := by
  have separate : Token.separates (c :: rest).head? = true := by simp [Token.separates, blank]
  rw [scan_append separate, scan_blank blank, scan_behind separate]

theorem scan_cut_bracket {t : Token} (bracket : Token.bracket? c = some t) (s rest : List Char) :
    scan before (s ++ c :: rest) = scan before s ++ ⟨t, [c]⟩ :: scan none rest := by
  have separate : Token.separates (c :: rest).head? = true := by simp [Token.separates, bracket]
  rw [scan_append separate, scan_bracket bracket, scan_behind separate]

/-- Every lexeme of a text is one that can be read, and together their spellings are all of the text that is no
blank. -/
theorem spellings_scan (before : Option Char) (s : List Char) : (∀ x ∈ scan before s, x.IsRead) ∧
    (scan before s).flatMap (·.spelling) = s.filter fun c => !Text.isBlank c := by
  induction before, s using byLexeme with
  | nothing before => simp
  | blank before c tail blank ih => rwa [scan_blank blank, List.filter_cons_of_neg (by simp [blank])]
  | lexeme before x behind read scanned ih =>
    have alone := scanned [] rfl
    have kept : x.spelling.filter (fun c => !Text.isBlank c) = x.spelling :=
      List.filter_eq_self.2 fun c member => by simp [read.solid.2 c member]
    rw [List.append_nil] at alone
    rw [alone, List.flatMap_cons, ih.2, List.filter_append, kept]
    exact ⟨List.forall_mem_cons.2 ⟨read, ih.1⟩, rfl⟩

end Lexeme

namespace Token

/-- A text can be cut at every blank and at every bracket: its tokens are those of the two parts, with the bracket's own
in between. And every text is, but for its blanks, what its tokens were read from. -/
theorem scan_local :
    (∀ (a b : String) (w : Char), Text.isBlank w → scan (a ++ String.singleton w ++ b) = scan a ++ scan b) ∧
    (∀ (a b : String) (k : Bracket),
      scan (a ++ String.singleton k.opening ++ b) = scan a ++ .opening k :: scan b ∧
      scan (a ++ String.singleton k.closing ++ b) = scan a ++ .closing k :: scan b) ∧
    ∀ s : String, scan s = (Lexeme.scan none s.toList).map (·.token) ∧ (∀ x ∈ Lexeme.scan none s.toList, x.IsRead) ∧
      (Lexeme.scan none s.toList).flatMap (·.spelling) = s.toList.filter fun c => !Text.isBlank c := by
  have cut : ∀ (a b : String) (c : Char),
      (a ++ String.singleton c ++ b).toList = a.toList ++ c :: b.toList := fun a b c => by simp
  refine ⟨fun a b w blank => ?_, fun a b k => ⟨?_, ?_⟩, fun s => ?_⟩
  · rw [scan, cut, Lexeme.scan_cut_blank blank, List.map_append]
    rfl
  · rw [scan, cut, Lexeme.scan_cut_bracket (bracket?_opening k), List.map_append]
    rfl
  · rw [scan, cut, Lexeme.scan_cut_bracket (bracket?_closing k), List.map_append]
    rfl
  · exact ⟨rfl, Lexeme.spellings_scan none s.toList⟩

/-- A cut parts an operator. -/
theorem scan_local_operator : Text.isBlank '\u2003' ∧ scan "dport>=80" = [.word "dport", .compare .ge, .word "80"] ∧
    scan ("dport>" ++ String.singleton '\u2003' ++ "=80") =
      [.word "dport", .compare .gt, .compare .eq, .word "80"] := by
  have cut := scan_local.1 "dport>" "=80" '\u2003' (by decide)
  exact ⟨by decide, by decide +kernel, cut.trans (by decide +kernel)⟩

end Token

end FlowArchive
