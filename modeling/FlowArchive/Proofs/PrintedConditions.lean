import FlowArchive.Proofs.ConditionGrammar
import FlowArchive.Proofs.Scanning

/-!
# Printed conditions

The text of a condition is scanned as the tokens that its tree is printed with, a value that is a keyword as the
operator that it stands for. From these tokens the tree is read back under as many brackets and negations as it has
pairs and negations. So a condition is read back from its text, or the text is refused: for a value that is a keyword,
or for a comparison that lies too deep.
-/

namespace FlowArchive

namespace Token

variable {v : String}

/-- A text is a keyword in some case of its ASCII letters. -/
def IsKeyword (v : String) : Prop := ∃ e ∈ keywords, v.toList.map Text.lowerAscii = e.1.toList

instance (v : String) : Decidable (IsKeyword v) :=
  inferInstanceAs (Decidable (∃ e ∈ keywords, v.toList.map Text.lowerAscii = e.1.toList))

theorem isKeyword_iff : IsKeyword v ↔ ∃ t, keyword? v.toList = some t := by
  constructor
  · rintro ⟨⟨w, t⟩, listed, spelled⟩
    exact ⟨t, keyword?_eq_some_iff.2 ⟨w, listed, spelled⟩⟩
  · rintro ⟨t, found⟩
    obtain ⟨w, listed, spelled⟩ := keyword?_eq_some_iff.1 found
    exact ⟨(w, t), listed, spelled⟩

/-- The token of a value between blanks. -/
def ofValue (v : String) : Token := (keyword? v.toList).getD (.word v)

theorem ofValue_of_free (free : ¬ IsKeyword v) : ofValue v = .word v := by
  cases found : keyword? v.toList with
  | none => rw [ofValue, found, Option.getD_none]
  | some t => exact absurd (isKeyword_iff.2 ⟨t, found⟩) free

theorem isOperator_ofValue (keyword : IsKeyword v) : (ofValue v).isOperator = true := by
  obtain ⟨t, found⟩ := isKeyword_iff.1 keyword
  obtain ⟨w, listed, -⟩ := keyword?_eq_some_iff.1 found
  rw [ofValue, found, Option.getD_some]
  exact isOperator_of_keyword listed

/-- A value is a row of word characters. -/
def IsRow (v : String) : Prop := v.toList ≠ [] ∧ ∀ c ∈ v.toList, isWordChar c

theorem ofWord_value {before after : Option Char} (left : separates before) (right : separates after) :
    ofWord before v.toList after = ofValue v := by
  cases found : keyword? v.toList with
  | none => rw [ofWord_of_free found, ofValue, found, Option.getD_none, String.ofList_toList]
  | some t => rw [ofWord_of_keyword found left right, ofValue, found, Option.getD_some]

end Token

namespace Attribute

theorem name_letters (a : Attribute) :
    a.name.toList ≠ [] ∧ (∀ c ∈ a.name.toList, Token.isWordChar c) ∧ Token.keyword? a.name.toList = none := by
  cases a <;> exact ⟨by decide, List.all_eq_true.1 (by decide), by decide⟩

@[simp] theorem ofName?_name (a : Attribute) : ofName? a.name = some a := by
  cases a <;> rfl

end Attribute

theorem Comparison.symbol_listed (op : Comparison) : (op.symbol.toList, Token.compare op) ∈ Token.symbols := by
  cases op <;> decide

namespace Condition

variable {c l r : Condition} {levels : Nat} {s rest : List Token}

/-- The values of a condition, each with the number of pairs and negations that its comparison lies under. -/
def leaves : Condition → List (String × Nat)
  | compare _ _ v => [(v, 0)]
  | and l r | or l r => (l.leaves ++ r.leaves).map fun x => (x.1, x.2 + 1)
  | not inner => inner.leaves.map fun x => (x.1, x.2 + 1)

/-- The tokens of the text of a condition. -/
def tokens : Condition → List Token
  | compare a op v => [.word a.name, .compare op, .ofValue v]
  | and l r => .opening .round :: (l.tokens ++ .and :: (r.tokens ++ [.closing .round]))
  | or l r => .opening .round :: (l.tokens ++ .or :: (r.tokens ++ [.closing .round]))
  | not inner => .not :: inner.tokens

/-- Induction over conditions for which the joint of a pair does not matter. -/
@[elab_as_elim]
theorem byJoint {motive : Condition → Prop} (compare : ∀ a op v, motive (.compare a op v))
    (join : ∀ (joint : Joint) (l r : Condition), motive l → motive r → motive (joint.join l r))
    (not : ∀ inner, motive inner → motive (.not inner)) (c : Condition) : motive c := by
  induction c with
  | compare a op v => exact compare a op v
  | and l r left right => exact join .and l r left right
  | or l r left right => exact join .or l r left right
  | not inner ih => exact not inner ih

theorem leaves_join (joint : Joint) :
    (joint.join l r).leaves = (l.leaves ++ r.leaves).map fun x => (x.1, x.2 + 1) := by
  cases joint <;> rfl

theorem leaves_ne_nil (c : Condition) : c.leaves ≠ [] := by
  induction c using byJoint with
  | compare a op v => exact List.cons_ne_nil _ _
  | join joint l r left right => simp [leaves_join, left]
  | not inner ih => simp [leaves, ih]

section Leaves

variable {P : String × Nat → Prop}

theorem forall_leaves_not : (∀ x ∈ (not c).leaves, P x) ↔ ∀ x ∈ c.leaves, P (x.1, x.2 + 1) := List.forall_mem_map

theorem forall_leaves_join (joint : Joint) :
    (∀ x ∈ (joint.join l r).leaves, P x) ↔ (∀ x ∈ l.leaves, P (x.1, x.2 + 1)) ∧ ∀ x ∈ r.leaves, P (x.1, x.2 + 1) := by
  rw [leaves_join, List.forall_mem_map, List.forall_mem_append]

end Leaves

theorem tokens_join (joint : Joint) (rest : List Token) : (joint.join l r).tokens ++ rest =
    .opening .round :: (l.tokens ++ joint.token :: (r.tokens ++ .closing .round :: rest)) := by
  cases joint <;> simp [Joint.join, Joint.token, tokens]

/-! ## Scanning the text -/

/-- Letters are scanned as tokens whatever stands before them, if a blank, a bracket or nothing follows. -/
def Scans (letters : List Char) (ts : List Token) : Prop :=
  ∀ before rest, Token.separates rest.head? →
    (Lexeme.scan before (letters ++ rest)).map (·.token) = ts ++ (Lexeme.scan none rest).map (·.token)

theorem scans_comparison (a : Attribute) (op : Comparison) {v : String} (row : Token.IsRow v) :
    Scans (a.name.toList ++ ' ' :: (op.symbol.toList ++ ' ' :: v.toList)) [.word a.name, .compare op, .ofValue v] := by
  intro before rest separate
  obtain ⟨filled, letters, free⟩ := a.name_letters
  have stops : ∀ c, rest.head? = some c → Token.isWordChar c = false := fun c head =>
    Token.not_isWordChar_of_separates (head ▸ separate)
  have symbol : Token.symbolAt? (op.symbol.toList ++ ' ' :: (v.toList ++ rest)) = some (op.symbol.toList, .compare op) :=
    Token.symbolAt?_append op.symbol_listed (by rintro c ⟨⟩; decide)
  simp only [List.append_assoc, List.cons_append]
  rw [Lexeme.scan_word filled letters (by rintro c ⟨⟩; decide), Token.ofWord_of_free free, String.ofList_toList,
    Lexeme.scan_blank (by decide), Lexeme.scan_symbol op.symbol_listed symbol, Lexeme.scan_blank (by decide),
    Lexeme.scan_word row.1 row.2 stops, Token.ofWord_value (by decide) separate, Lexeme.scan_congr separate]
  rfl

theorem scans_negation {letters : List Char} {ts : List Token} (scans : Scans letters ts)
    (first : ∀ rest, (letters ++ rest).head? ≠ some '=') : Scans ('!' :: letters) (.not :: ts) := by
  intro before rest separate
  have alone : Lexeme.scan before ('!' :: (letters ++ rest)) = ⟨.not, ['!']⟩ :: Lexeme.scan (some '!') (letters ++ rest) :=
    Lexeme.scan_symbol (s := ['!']) (by decide) (Token.symbolAt?_not (first rest))
  rw [List.cons_append, alone, List.map_cons, scans (some '!') rest separate]
  rfl

/-- Two texts with a symbol and blanks between them. -/
theorem scans_joined {symbol : Char} {t : Token} {left right : List Char} {ts us : List Token}
    (listed : ([symbol], t) ∈ Token.symbols) (first : Scans left ts) (second : Scans right us) :
    Scans (left ++ ' ' :: symbol :: ' ' :: right) (ts ++ t :: us) := by
  intro before rest separate
  have middle : Lexeme.scan (some ' ') (symbol :: ' ' :: (right ++ rest)) =
      ⟨t, [symbol]⟩ :: Lexeme.scan (some symbol) (' ' :: (right ++ rest)) :=
    Lexeme.scan_symbol listed (Token.symbolAt?_append listed (by rintro c ⟨⟩; decide))
  have inFront := first before (' ' :: symbol :: ' ' :: (right ++ rest)) rfl
  have behind := second (some ' ') rest separate
  simp only [List.append_assoc, List.cons_append]
  rw [inFront, Lexeme.scan_blank (by decide), middle, List.map_cons, Lexeme.scan_blank (by decide), behind]

theorem scans_bracketed {letters : List Char} {ts : List Token} (scans : Scans letters ts) :
    Scans ('(' :: (letters ++ [')'])) (.opening .round :: (ts ++ [.closing .round])) := by
  intro before rest separate
  have inner := scans (some '(') (')' :: rest) rfl
  have opening : Token.bracket? '(' = some (.opening .round) := rfl
  have closing : Token.bracket? ')' = some (.closing .round) := rfl
  simp only [List.append_assoc, List.cons_append, List.nil_append]
  rw [Lexeme.scan_bracket opening, List.map_cons, inner, Lexeme.scan_bracket closing, List.map_cons,
    Lexeme.scan_congr separate]

theorem scans_pair {symbol : Char} {t : Token} {left right : List Char} {ts us : List Token}
    (listed : ([symbol], t) ∈ Token.symbols) (first : Scans left ts) (second : Scans right us) :
    Scans ('(' :: (left ++ ' ' :: symbol :: ' ' :: (right ++ [')'])))
      (.opening .round :: (ts ++ t :: (us ++ [.closing .round]))) := by
  have scans := scans_bracketed (scans_joined listed first second)
  simpa only [List.append_assoc, List.cons_append] using scans

/-- No text of a condition begins with a character that a negation before it would be read with. -/
theorem text_first (c : Condition) (rest : List Char) : (c.text.toList ++ rest).head? ≠ some '=' := by
  cases c with
  | compare a op v => cases a <;> simp [text, Attribute.name]
  | and l r | or l r => simp [text]
  | not inner => simp [text]

theorem text_join (joint : Joint) (l r : Condition) :
    ∃ symbol, ([symbol], joint.token) ∈ Token.symbols ∧ (joint.join l r).text.toList =
      '(' :: (l.text.toList ++ ' ' :: symbol :: ' ' :: (r.text.toList ++ [')'])) := by
  cases joint with
  | and => exact ⟨'&', by decide, by simp [Joint.join, text]⟩
  | or => exact ⟨'|', by decide, by simp [Joint.join, text]⟩

theorem scans_text (rows : ∀ x ∈ c.leaves, Token.IsRow x.1) : Scans c.text.toList c.tokens := by
  induction c using byJoint with
  | compare a op v =>
    have scans := scans_comparison a op (rows (v, 0) List.mem_cons_self)
    simpa [text, tokens] using scans
  | not inner ih =>
    have scans := scans_negation (ih (forall_leaves_not.1 rows)) inner.text_first
    simpa [text, tokens] using scans
  | join joint l r left right =>
    obtain ⟨first, second⟩ := (forall_leaves_join joint).1 rows
    obtain ⟨symbol, listed, spelled⟩ := text_join joint l r
    have printed := tokens_join (l := l) (r := r) joint []
    rw [List.append_nil] at printed
    rw [spelled, printed]
    exact scans_pair listed (left first) (right second)

theorem Chained.all {joint : Joint} {P Q : List Token → Condition → Prop} (chained : Chained joint P s c)
    (single : ∀ s c, P s c → Q s c)
    (join : ∀ s t l r, Q s l → Q t r → Q (s ++ joint.token :: t) (joint.join l r)) : Q s c := by
  induction chained with
  | single operand => exact single _ _ operand
  | more _ right left => exact join _ _ _ _ left (single _ _ right)

/-- The values of a condition are words of the tokens that it was read from. -/
def HasValues (s : List Token) (c : Condition) : Prop := ∀ x ∈ c.leaves, Token.word x.1 ∈ s

theorem HasValues.join {t : List Token} {joint : Joint} (left : HasValues s l) (right : HasValues t r) :
    HasValues (s ++ joint.token :: t) (joint.join l r) :=
  (forall_leaves_join joint).2 ⟨fun x member => List.mem_append_left _ (left x member),
    fun x member => List.mem_append_right _ (List.mem_cons_of_mem _ (right x member))⟩

theorem hasValues_comparison (name value : String) (a : Attribute) (op : Comparison) :
    HasValues [.word name, .compare op, .word value] (.compare a op value) := by
  intro x member
  cases List.mem_singleton.1 member
  simp

theorem IsOperand.hasValues (operand : IsOperand levels s c) : HasValues s c := by
  -- Each bracket and each negation uses up a level.
  induction levels generalizing s c with
  | zero =>
    obtain ⟨op, known⟩ := operand
    exact hasValues_comparison _ _ _ op
  | succ levels ih =>
    obtain ⟨op, known⟩ | inner | ⟨kind, inner⟩ := operand
    · exact hasValues_comparison _ _ _ op
    · exact forall_leaves_not.2 fun x member => List.mem_cons_of_mem _ (ih inner x member)
    · have values := inner.chained.all (fun s c conjunction => conjunction.chained.all (fun s c operand => ih operand)
        fun _ _ _ _ => HasValues.join) fun _ _ _ _ => HasValues.join
      exact fun x member => List.mem_cons_of_mem _ (List.mem_append_left _ (values x member))

theorem IsAlternatives.hasValues (alternatives : IsAlternatives levels s c) : HasValues s c :=
  alternatives.chained.all (fun _ _ conjunction => conjunction.chained.all (fun _ _ operand => operand.hasValues)
    fun _ _ _ _ => HasValues.join) fun _ _ _ _ => HasValues.join

/-! ## Reading the tokens -/

/-- Under a number of levels, no value of a condition is a keyword and no comparison lies deeper. -/
def IsPlain (levels : Nat) (c : Condition) : Prop := ∀ x ∈ c.leaves, ¬ Token.IsKeyword x.1 ∧ x.2 ≤ levels

theorem isPlain_not : IsPlain (levels + 1) (.not c) ↔ IsPlain levels c := by
  rw [IsPlain, forall_leaves_not]
  simp only [Nat.add_le_add_iff_right, IsPlain]

theorem isPlain_join (joint : Joint) : IsPlain (levels + 1) (joint.join l r) ↔ IsPlain levels l ∧ IsPlain levels r := by
  rw [IsPlain, forall_leaves_join]
  simp only [Nat.add_le_add_iff_right, IsPlain]

/-- Where there is no level left, only comparisons are read. -/
theorem not_all_deeper : ¬ ∀ x ∈ c.leaves, ¬ Token.IsKeyword x.1 ∧ x.2 + 1 ≤ 0 := by
  obtain ⟨x, tail, split⟩ := List.exists_cons_of_ne_nil c.leaves_ne_nil
  intro deeper
  have shallow := (deeper x (by rw [split]; exact List.mem_cons_self)).2
  exact Nat.not_succ_le_zero _ shallow

theorem isAlternatives_pair {t : List Token} (joint : Joint) (left : IsOperand levels s l) (right : IsOperand levels t r) :
    IsAlternatives levels (s ++ joint.token :: t) (joint.join l r) := by
  cases joint with
  | and => exact .single (.more (.single left) right)
  | or => exact .more (.single (.single left)) (.single right)

theorem isOperand_tokens (plain : IsPlain levels c) : IsOperand levels c.tokens c := by
  induction c using byJoint generalizing levels with
  | compare a op v =>
    have free := (plain (v, 0) List.mem_cons_self).1
    rw [tokens, Token.ofValue_of_free free]
    exact .comparison op a.ofName?_name
  | not inner ih =>
    cases levels with
    | zero => exact absurd (forall_leaves_not.1 plain) not_all_deeper
    | succ levels => exact .negation (ih (isPlain_not.1 plain))
  | join joint l r left right =>
    cases levels with
    | zero => exact absurd ((forall_leaves_join joint).1 plain).1 not_all_deeper
    | succ levels =>
      obtain ⟨first, second⟩ := (isPlain_join joint).1 plain
      have pair := IsOperand.bracketed .round (isAlternatives_pair joint (left first) (right second))
      have printed := tokens_join (l := l) (r := r) joint []
      simp only [List.append_nil] at printed
      simpa [printed] using pair

/-- A condition is read back from the front of its tokens. -/
theorem operand_tokens (plain : IsPlain levels c) (rest : List Token) :
    operand levels (c.tokens ++ rest) = .ok (c, rest) :=
  accepts_operand levels _ rest _ (isOperand_tokens plain) trivial

/-! ## Refusing the tokens -/

/-- A reader refuses a list of tokens. -/
def Refuses (reader : Reader) (s : List Token) : Prop := ∃ flaw, reader s = .error flaw

variable {joint : Joint} {reader : Reader}

theorem refuses_chain (refuses : Refuses reader s) : Refuses (chain joint reader) s := by
  obtain ⟨flaw, refused⟩ := refuses
  exact ⟨flaw, by rw [chain, refused]⟩

theorem refuses_chain_more (first : reader s = .ok (c, joint.token :: rest)) (refuses : Refuses reader rest) :
    Refuses (chain joint reader) s := by
  obtain ⟨flaw, refused⟩ := refuses
  have next : chainMore joint reader (rest.length + 1) c (joint.token :: rest) = .error flaw := by
    rw [chainMore, if_pos rfl, refused]
  exact ⟨flaw, by rw [chain, first]; exact next⟩

theorem chain_single (first : reader s = .ok (c, rest)) (stop : rest.head? ≠ some joint.token) :
    chain joint reader s = .ok (c, rest) := by
  rw [chain, first]
  exact chainMore_stop stop

theorem refuses_alternatives (refuses : Refuses (operand levels) s) : Refuses (alternatives levels) s :=
  refuses_chain (refuses_chain refuses)

/-- A pair is refused if its second part is. -/
theorem refuses_alternatives_more (joint : Joint) (first : operand levels s = .ok (c, joint.token :: rest))
    (refuses : Refuses (operand levels) rest) : Refuses (alternatives levels) s := by
  cases joint with
  | and => exact refuses_chain (refuses_chain_more first refuses)
  | or => exact refuses_chain_more (chain_single first (by simp [Joint.token])) (refuses_chain refuses)

theorem refuses_bracketed {kind : Bracket} (refuses : Refuses (alternatives levels) s) :
    Refuses (operand (levels + 1)) (.opening kind :: s) := by
  obtain ⟨flaw, refused⟩ := refuses
  rw [alternatives] at refused
  exact ⟨flaw, by rw [operand, refused]⟩

theorem refuses_negation (refuses : Refuses (operand levels) s) : Refuses (operand (levels + 1)) (.not :: s) := by
  obtain ⟨flaw, refused⟩ := refuses
  exact ⟨flaw, by rw [operand, refused]⟩

/-- A comparison with an operator in place of its value is refused. -/
theorem refuses_comparison (a : Attribute) (op : Comparison) {t : Token} (operator : t.isOperator = true) :
    Refuses (operand levels) (.word a.name :: .compare op :: t :: rest) := by
  refine ⟨.expectedValue a.name op t, ?_⟩
  cases t with
  | word v => cases operator
  | _ => cases levels <;> simp [operand, comparison]

theorem refuses_tokens (plain : ¬ IsPlain levels c) (rest : List Token) : Refuses (operand levels) (c.tokens ++ rest) := by
  induction c using byJoint generalizing levels rest with
  | compare a op v =>
    have keyword : Token.IsKeyword v := by
      by_contra free
      exact plain fun x member => by cases List.mem_singleton.1 member; exact ⟨free, Nat.zero_le _⟩
    exact refuses_comparison a op (Token.isOperator_ofValue keyword)
  | not inner ih =>
    cases levels with
    | zero => exact ⟨.tooDeep, rfl⟩
    | succ levels => exact refuses_negation (ih (fun inner => plain (isPlain_not.2 inner)) rest)
  | join joint l r left right =>
    rw [tokens_join joint rest]
    cases levels with
    | zero => exact ⟨.tooDeep, rfl⟩
    | succ levels =>
      refine refuses_bracketed ?_
      by_cases first : IsPlain levels l
      · have second : ¬ IsPlain levels r := fun second => plain ((isPlain_join joint).2 ⟨first, second⟩)
        exact refuses_alternatives_more joint (operand_tokens first _) (right second _)
      · exact refuses_alternatives (left first _)

/-! ## Reading the text -/

theorem ofTokens_tokens (plain : IsPlain maxNesting c) : ofTokens c.tokens = .ok c :=
  ofTokens_eq_ok_iff.2 (.single (.single (isOperand_tokens plain)))

theorem ofTokens_tokens_refused (plain : ¬ IsPlain maxNesting c) : ∃ flaw, ofTokens c.tokens = .error flaw := by
  have operand := refuses_tokens plain []
  rw [List.append_nil] at operand
  obtain ⟨flaw, refused⟩ := refuses_alternatives operand
  exact ⟨flaw, by rw [ofTokens, refused]⟩

theorem tokens_ne_nil (c : Condition) : c.tokens ≠ [] := by
  cases c <;> exact List.cons_ne_nil _ _

theorem isAlternatives_of_ofText {text : String} (parsed : ofText text = .ok (some c)) :
    IsAlternatives maxNesting (Token.scan text) c := by
  rw [ofText] at parsed
  split at parsed
  · cases parsed
  next t rest scanned =>
    cases read : ofTokens (t :: rest) with
    | error flaw =>
      rw [read] at parsed
      cases parsed
    | ok d =>
      rw [read] at parsed
      cases parsed
      rw [scanned]
      exact ofTokens_eq_ok_iff.1 read

/-- The text of a condition that was read is scanned as its tokens: its values are words of the text it was read from. -/
theorem scan_text {text : String} (parsed : ofText text = .ok (some c)) : Token.scan c.text = c.tokens := by
  have values := (isAlternatives_of_ofText parsed).hasValues
  have scanned := scans_text (fun x member => Lexeme.scan_words (values x member)) none [] rfl
  rwa [List.append_nil, Lexeme.scan_nil, List.map_nil, List.append_nil] at scanned

theorem ofText_of_scan {text : String} (scanned : Token.scan text = c.tokens) :
    ofText text = (ofTokens c.tokens).map some := by
  obtain ⟨t, rest, first⟩ := List.exists_cons_of_ne_nil c.tokens_ne_nil
  rw [ofText, scanned, first]

/-- A condition that was read is read back from its text if and only if none of its values is a keyword, in any letter
case, and none of its comparisons lies under more than 256 pairs and negations. In all other cases its text is refused. -/
theorem printed_reads_back {text : String} (parsed : ofText text = .ok (some c)) :
    ((∀ x ∈ c.leaves, ¬ Token.IsKeyword x.1 ∧ x.2 ≤ 256) → ofText c.text = .ok (some c)) ∧
    ((¬ ∀ x ∈ c.leaves, ¬ Token.IsKeyword x.1 ∧ x.2 ≤ 256) → ∃ flaw, ofText c.text = .error flaw) := by
  have read := ofText_of_scan (scan_text parsed)
  constructor
  · intro plain
    rw [read, ofTokens_tokens plain]
    rfl
  · intro plain
    obtain ⟨flaw, refused⟩ := ofTokens_tokens_refused plain
    exact ⟨flaw, by rw [read, refused]; rfl⟩

/-- Next to a symbol a keyword is a value, which the text of the condition puts between blanks. -/
theorem printed_reads_back_glued :
    (ofText "!dport>80|sip=x" = .ok (some (.or (.not (.compare .port .gt "80")) (.compare .source .eq "x"))) ∧
      ofText "(!dport > 80 | sip = x)" = .ok (some (.or (.not (.compare .port .gt "80")) (.compare .source .eq "x")))) ∧
    ofText "sip=EQ" = .ok (some (.compare .source .eq "EQ")) ∧ ∃ flaw, ofText "sip = EQ" = .error flaw := by
  have first : Token.scan "!dport>80|sip=x" = [.not, .word "dport", .compare .gt, .word "80", .or, .word "sip",
      .compare .eq, .word "x"] := by
    decide +kernel
  have pair : ofText "!dport>80|sip=x" = .ok (some (.or (.not (.compare .port .gt "80")) (.compare .source .eq "x"))) := by
    rw [ofText, first]
    rfl
  have second : Token.scan "sip=EQ" = [.word "sip", .compare .eq, .word "EQ"] := by decide +kernel
  have glued : ofText "sip=EQ" = .ok (some (.compare .source .eq "EQ")) := by
    rw [ofText, second]
    rfl
  exact ⟨⟨pair, (printed_reads_back pair).1 (by decide)⟩, glued, (printed_reads_back glued).2 (by decide)⟩

end Condition

end FlowArchive
