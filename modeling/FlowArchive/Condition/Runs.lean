import FlowArchive.Condition.Flaw

/-!
# Symbols in runs

A second way to scan a condition: the symbol characters that stand side by side are taken as one run, and the run is cut
into symbols. A run with no symbol in front of what is left to cut is refused, so this way of scanning might fail.
-/

namespace FlowArchive.Token

/-- Cuts a run into symbols, each the longest that opens what is left. -/
def cutRun (run : List Char) : Except Condition.Flaw (List Token) :=
  match run with
  | [] => .ok []
  | c :: rest =>
    match symbolAt? (c :: rest) with
    | none => .error (.other ("Unknown operator near " ++ Text.quoted (String.ofList (c :: rest))))
    | some (spelling, t) => do .ok (t :: (← cutRun (rest.drop (spelling.length - 1))))
termination_by run.length
decreasing_by
  simp only [List.length_cons, List.length_drop]
  omega

/-- Reads the tokens of a text that follows the character `before`, symbols in runs. -/
def scanRuns (before : Option Char) (s : List Char) : Except Condition.Flaw (List Token) :=
  match s with
  | [] => .ok []
  | c :: rest =>
    if Text.isBlank c then scanRuns (some c) rest
    else
      match bracket? c with
      | some t => do .ok (t :: (← scanRuns (some c) rest))
      | none =>
        if isSymbolChar c then
          let run := c :: rest.takeWhile isSymbolChar
          do .ok ((← cutRun run) ++ (← scanRuns run.getLast? (rest.dropWhile isSymbolChar)))
        else
          let letters := c :: rest.takeWhile isWordChar
          let after := rest.dropWhile isWordChar
          do .ok (ofWord before letters after.head? :: (← scanRuns letters.getLast? after))
termination_by s.length
decreasing_by
  all_goals simp only [List.length_cons]
  · omega
  · omega
  · exact Nat.lt_succ_of_le (Lexeme.length_dropWhile_le _ _)
  · exact Nat.lt_succ_of_le (Lexeme.length_dropWhile_le _ _)

/-- The tokens of a text, symbols in runs. -/
def scanInRuns (s : String) : Except Condition.Flaw (List Token) := scanRuns none s.toList

end FlowArchive.Token
