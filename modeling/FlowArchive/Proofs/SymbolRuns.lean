import FlowArchive.Condition.Runs
import FlowArchive.Proofs.Scanning

/-!
# Runs are cut to the end

Every symbol character is a symbol by itself, so a run of them is never refused. What it is cut into is what the scanner
takes symbol by symbol, so both ways of scanning give the same tokens.
-/

namespace FlowArchive

namespace Token

variable {c : Char} {t : Token} {s run rest spelling : List Char}

/-! ## Runs -/

/-- The symbol that is read at the front of a text is spelled there. -/
theorem exists_of_symbolAt? (found : symbolAt? s = some (spelling, t)) : ∃ behind, s = spelling ++ behind := by
  have opens := List.find?_some found
  obtain ⟨behind, split⟩ := List.isPrefixOf_iff_prefix.1 opens
  exact ⟨behind, split.symm⟩

/-- What stands behind a run does not matter for the symbol in front of it. -/
theorem symbolAt?_run (stops : ∀ c, rest.head? = some c → isSymbolChar c = false) :
    symbolAt? (run ++ rest) = symbolAt? run :=
  List.find?_congr fun f member => isPrefixOf_append (symbolChars (t := f.2) member).2 stops

/-- A run is cut to the end, into the symbols that the scanner takes one after the other. -/
theorem exists_cutRun (before : Option Char) (symbol : ∀ c ∈ run, isSymbolChar c)
    (stops : ∀ c, rest.head? = some c → isSymbolChar c = false) : ∃ ts, cutRun run = .ok ts ∧
      (Lexeme.scan before (run ++ rest)).map (·.token) =
        ts ++ (Lexeme.scan (run.getLast?.or before) rest).map (·.token) := by
  induction run using cutRun.induct generalizing before with
  | case1 => exact ⟨[], by rw [cutRun], rfl⟩
  | case2 c tail none => exact absurd none (symbolAt?_ne_none (symbol c List.mem_cons_self))
  | case3 c tail spelling t found ih =>
    have listed := symbolAt?_mem found
    have filled := (symbolChars listed).1
    obtain ⟨behind, split⟩ := exists_of_symbolAt? found
    have left : tail.drop (spelling.length - 1) = behind := by
      obtain ⟨d, letters, rfl⟩ := List.exists_cons_of_ne_nil filled
      rw [List.cons_append, List.cons.injEq] at split
      rw [split.2, List.length_cons, Nat.add_sub_cancel, List.drop_left]
    rw [left] at ih
    rw [split] at symbol found
    obtain ⟨ts, cut, scanned⟩ := ih spelling.getLast? fun d member =>
      symbol d (List.mem_append_right _ member)
    have first : symbolAt? (spelling ++ (behind ++ rest)) = some (spelling, t) := by
      rw [← List.append_assoc, symbolAt?_run stops, found]
    have last : (c :: tail).getLast?.or before = behind.getLast?.or spelling.getLast? := by
      have ends : spelling.getLast?.isSome = true := by simpa using filled
      rw [split, List.getLast?_append, Option.or_assoc, Option.or_of_isSome ends]
    refine ⟨t :: ts, ?_, ?_⟩
    · rw [cutRun, split, found]
      simp only [left, cut]
      rfl
    · rw [last, split, List.append_assoc, Lexeme.scan_symbol listed first, List.map_cons, scanned]
      rfl

/-! ## Texts -/

/-- A row of characters of a class that is taken from the front of a text, and where it stops. -/
theorem row_taken {p : Char → Bool} (first : p c) (rest : List Char) :
    (∀ d ∈ c :: rest.takeWhile p, p d) ∧ (∀ d, (rest.dropWhile p).head? = some d → p d = false) ∧
      (c :: rest.takeWhile p) ++ rest.dropWhile p = c :: rest := by
  refine ⟨fun d member => ?_, fun d head => ?_, by rw [List.cons_append, List.takeWhile_append_dropWhile]⟩
  · rcases List.mem_cons.1 member with rfl | inner
    · exact first
    · exact List.all_eq_true.1 List.all_takeWhile d inner
  · have stop := List.head?_dropWhile_not p rest
    rwa [head] at stop

/-- Scanning in runs never fails, and gives the tokens that scanning symbol by symbol gives. -/
theorem scanRuns_eq (before : Option Char) (s : List Char) :
    scanRuns before s = .ok ((Lexeme.scan before s).map (·.token)) := by
  induction before, s using scanRuns.induct with
  | case1 before => rw [scanRuns, Lexeme.scan_nil, List.map_nil]
  | case2 before c rest blank ih => rw [scanRuns, if_pos blank, Lexeme.scan_blank blank, ih]
  | case3 before c rest notBlank t bracket ih =>
    rw [scanRuns, if_neg notBlank, Lexeme.scan_bracket bracket]
    simp only [bracket, ih]
    rfl
  | case4 before c rest notBlank notBracket symbol run ih =>
    obtain ⟨symbols, stops, whole⟩ := row_taken symbol rest
    obtain ⟨ts, cut, scanned⟩ := exists_cutRun before symbols stops
    have last : run.getLast?.or before = run.getLast? := Option.or_of_isSome (by simp [run])
    rw [whole, last] at scanned
    rw [scanRuns, if_neg notBlank, scanned]
    simp only [notBracket, if_pos symbol]
    rw [cut, ih]
    rfl
  | case5 before c rest notBlank notBracket notSymbol letters after ih =>
    have first : isWordChar c := isWordChar_iff.2 ⟨by simpa using notBlank, by simpa using notSymbol, notBracket⟩
    obtain ⟨row, stops, whole⟩ := row_taken first rest
    have scanned : Lexeme.scan before (letters ++ after) = _ := Lexeme.scan_word (List.cons_ne_nil _ _) row stops
    rw [whole] at scanned
    rw [scanRuns, if_neg notBlank, scanned]
    simp only [notBracket, if_neg notSymbol]
    rw [ih]
    rfl

theorem scanInRuns_eq (s : String) : scanInRuns s = .ok (scan s) := scanRuns_eq none s.toList

end Token

end FlowArchive
