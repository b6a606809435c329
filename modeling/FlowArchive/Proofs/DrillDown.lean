import FlowArchive.Report.Cells
import FlowArchive.Proofs.AddressText
import FlowArchive.Proofs.ConditionMeaning
import FlowArchive.Proofs.PrintedConditions
import Mathlib.Data.List.Induction

/-!
# Drilling down

The cells of a row are values of conditions: joined, the equalities of the columns with their cells are a condition that
selects the flows of the row. No cell is read as an operator, as the name of a host or as another value than the one
that it shows.
-/

namespace FlowArchive

/-! ## Cells are words -/

namespace Token

/-- A text is scanned as the word that it spells. -/
def IsPlainWord (v : String) : Prop := IsRow v ∧ ¬ IsKeyword v

/-- A row with a character that is neither a letter nor a hyphen is no keyword. -/
theorem isPlainWord_of_mem {v : String} {c : Char} (letters : ∀ d ∈ v.toList, isWordChar d) (member : c ∈ v.toList)
    (other : Text.lowerAscii c ≠ '-' ∧ ¬ ('a' ≤ Text.lowerAscii c ∧ Text.lowerAscii c ≤ 'z')) : IsPlainWord v := by
  refine ⟨⟨List.ne_nil_of_mem member, letters⟩, ?_⟩
  rintro ⟨e, listed, spelled⟩
  have small : Text.lowerAscii c ∈ e.1.toList := spelled ▸ List.mem_map.2 ⟨c, member, rfl⟩
  exact ((keyword_letters listed).2.2 _ small).elim other.1 other.2

end Token

theorem Address.isPlainWord_text (a : Address) : Token.IsPlainWord a.text := by
  obtain ⟨c, member, mark⟩ := a.exists_mark
  refine Token.isPlainWord_of_mem (c := c) ?_ (by rwa [text, String.toList_ofList]) ?_
  · intro d shown
    rw [text, String.toList_ofList] at shown
    rcases isTextChar_of_mem_print shown with rfl | rfl | ⟨n, small, rfl⟩
    · decide
    · decide
    · exact (by decide : ∀ n < 16, Token.isWordChar (Nat.digitChar n)) n small
  · rcases mark with rfl | rfl <;> decide

namespace Decimal

theorem isPlainWord_text (n : Nat) : Token.IsPlainWord (text n) := by
  obtain ⟨c, s, shown, first⟩ := first_digit n
  have letters : ∀ d ∈ (text n).toList, isDigit d = true := by
    rw [text, String.toList_ofList]
    exact fun _ => isDigit_of_mem_digits
  refine Token.isPlainWord_of_mem (c := c) (fun d member => ?_) ?_ ?_
  · obtain ⟨k, small, rfl⟩ := exists_digitChar (letters d member)
    exact (by decide : ∀ k < 10, Token.isWordChar (digitChar k)) k small
  · rw [text, String.toList_ofList, shown]
    exact List.mem_cons_self
  · obtain ⟨k, small, rfl⟩ := exists_digitChar first
    exact (by decide : ∀ k < 10, Text.lowerAscii (digitChar k) ≠ '-' ∧
      ¬ ('a' ≤ Text.lowerAscii (digitChar k) ∧ Text.lowerAscii (digitChar k) ≤ 'z')) k small

end Decimal

namespace Protocol

/-- A protocol is shown by a name of its own or by its number. -/
theorem text_cases (p : UInt8) : (∃ q ∈ named, q.2 = p ∧ text p = q.1) ∨ text p = Decimal.text p.toNat := by
  rw [text]
  cases found : named.find? fun q => q.2 == p with
  | none => exact .inr rfl
  | some q => exact .inl ⟨q, List.mem_of_find?_eq_some found, by simpa using List.find?_some found, rfl⟩

/-- Every protocol is read back from its text. -/
@[simp] theorem ofText?_text (p : UInt8) : ofText? (text p) = some p := by
  have own : ∀ q ∈ named, ofText? q.1 = some q.2 := by decide
  rcases text_cases p with ⟨q, listed, rfl, shown⟩ | shown
  · rw [shown, own q listed]
  · rw [shown, ofText?, Decimal.readUInt8?_text]

theorem isPlainWord_text (p : UInt8) : Token.IsPlainWord (text p) := by
  have words : ∀ q ∈ named, q.1.toList ≠ [] ∧ q.1.toList.all Token.isWordChar ∧ ¬ Token.IsKeyword q.1 := by decide
  rcases text_cases p with ⟨q, listed, -, shown⟩ | shown
  · rw [shown]
    obtain ⟨filled, letters, free⟩ := words q listed
    exact ⟨⟨filled, List.all_eq_true.1 letters⟩, free⟩
  · rw [shown]
    exact Decimal.isPlainWord_text _

end Protocol

/-! ## Conditions that are joined -/

@[simp] theorem Comparison.holds_eq {α : Type} [Ord α] [Std.LawfulEqOrd α] (a b : α) :
    Comparison.eq.holds a b = true ↔ a = b := by
  simp [holds, admits]

namespace Condition

variable {hosts : Resolver} {levels : Nat} {s t : String} {P Q : Flow → Prop}

/-- The text of an address is never looked up as the name of a host. -/
@[simp] theorem hostAddresses?_text (hosts : Resolver) (a : Address) : hostAddresses? hosts a.text = some [a] := by
  rw [hostAddresses?, Address.ofText?_text]

/-- A text stands for a well-formed condition in a part of the grammar, and the condition holds of the flows with a
property. -/
def States (part : List Token → Condition → Prop) (hosts : Resolver) (s : String) (P : Flow → Prop) : Prop :=
  ∃ ts c, Scans s.toList ts ∧ part ts c ∧ c.IsWellFormed hosts ∧ ∀ f, c.Holds hosts f ↔ P f

theorem states_comparison {a : Attribute} {v : String} (word : Token.IsPlainWord v)
    (formed : (compare a .eq v).IsWellFormed hosts) (holds : ∀ f, (compare a .eq v).Holds hosts f ↔ P f) :
    States (IsOperand levels) hosts (a.name ++ " = " ++ v) P := by
  have scans := scans_comparison a .eq word.1
  rw [Token.ofValue_of_free word.2] at scans
  refine ⟨_, _, ?_, .comparison .eq a.ofName?_name, formed, holds⟩
  simpa [Comparison.symbol] using scans

theorem States.single (operand : States (IsOperand levels) hosts s P) : States (IsConjunction levels) hosts s P := by
  obtain ⟨ts, c, scans, stands, meaning⟩ := operand
  exact ⟨ts, c, scans, .single stands, meaning⟩

theorem States.and (left : States (IsConjunction levels) hosts s P) (right : States (IsOperand levels) hosts t Q) :
    States (IsConjunction levels) hosts (s ++ " & " ++ t) fun f => P f ∧ Q f := by
  obtain ⟨ts, l, first, conjunction, formedLeft, holdsLeft⟩ := left
  obtain ⟨us, r, second, operand, formedRight, holdsRight⟩ := right
  have ampersand : (['&'], Token.and) ∈ Token.symbols := by decide
  have scans := scans_joined ampersand first second
  refine ⟨ts ++ .and :: us, .and l r, by simpa using scans, .more conjunction operand, ⟨formedLeft, formedRight⟩, ?_⟩
  exact fun f => and_congr (holdsLeft f) (holdsRight f)

/-- Operands between ampersands hold together. -/
theorem states_all {α : Type} {texts : α → String} {P : α → Flow → Prop} {l : List α} (filled : l ≠ [])
    (operands : ∀ a ∈ l, States (IsOperand levels) hosts (texts a) (P a)) :
    States (IsConjunction levels) hosts (" & ".intercalate (l.map texts)) fun f => ∀ a ∈ l, P a f := by
  -- Conjunctions group to the left, so the last operand is taken off.
  induction l using List.reverseRecOn with
  | nil => exact absurd rfl filled
  | append_singleton front a ih =>
    have last := operands a (by simp)
    rcases eq_or_ne front [] with rfl | more
    · simpa using last.single
    · have joined := (ih more fun b member => operands b (List.mem_append_left _ member)).and last
      rw [List.map_append, List.map_singleton, String.intercalate_append_of_ne_nil (by simpa using more) (by simp),
        String.intercalate_singleton]
      simpa [or_imp, forall_and] using joined

/-- What is stated is compiled. -/
theorem States.selects (states : States (IsConjunction maxNesting) hosts s P) :
    ∃ p, Predicate.ofText hosts s = .ok p ∧ ∀ f, p.admits f = true ↔ P f := by
  obtain ⟨ts, c, scans, conjunction, formed, holds⟩ := states
  have scanned : Token.scan s = ts := by
    have whole := scans none [] rfl
    rwa [List.append_nil, Lexeme.scan_nil, List.map_nil, List.append_nil] at whole
  have tokens : ofTokens ts = .ok c := ofTokens_eq_ok_iff.2 (.single conjunction)
  have read : ofText s = .ok (some c) := by
    rw [ofText, scanned]
    cases ts with
    | nil => cases tokens
    | cons t ts => exact congrArg (Except.map some) tokens
  obtain ⟨compiles, admits⟩ := Predicate.compile_preserves_meaning hosts read
  obtain ⟨p, compiled⟩ := compiles.2 formed
  exact ⟨p, compiled, fun f => (admits p compiled f).trans (holds f)⟩

end Condition

/-! ## Keys -/

/-- Whether a key has a value in a column. -/
def Key.has (k : Key) : Column → Bool
  | .time => k.time.isSome
  | .interface => k.interface.isSome
  | .source => k.source.isSome
  | .destination => k.destination.isSome
  | .port => k.port.isSome
  | .protocol => k.protocol.isSome

/-- A key has values in the columns of a grouping and in no others. -/
def Key.IsOver (k : Key) (g : Grouping) : Prop := ∀ c, k.has c = g.contains c

/-- The columns that show members of a flow. -/
def Column.ofFlow : List Column := [source, destination, port, protocol]

/-- The value of a key in a column that shows a member of flows is that of a flow. -/
def Column.Shows (k : Key) (f : Flow) : Column → Prop
  | .source => k.source = some f.source
  | .destination => k.destination = some f.destination
  | .port => k.port = some f.port
  | .protocol => k.protocol = some f.protocol
  | .interface | .time => True

namespace Grouping

variable {g : Grouping} {k : Key}

theorem keep_eq_iff {α : Type} {c : Column} {x : α} {y : Option α} (fits : y.isSome = g.contains c) :
    g.keep c x = y ↔ (c ∈ g.columns → y = some x) := by
  by_cases chosen : c ∈ g.columns
  · simp [keep_of_mem chosen, chosen, eq_comm]
  · have left : g.contains c = false := Bool.eq_false_iff.2 (mt contains_iff.1 chosen)
    have none : y = none := by simpa [left] using fits
    simp [keep_of_not_mem chosen, chosen, none]

/-- A flow has a key if it has the value of the key in every column. -/
theorem keyOf_eq_iff (members : ∀ c ∈ g.columns, c ∈ Column.ofFlow) (fits : k.IsOver g) (interface : String)
    (time : Timestamp) (f : Flow) : g.keyOf interface time f = k ↔ ∀ c ∈ g.columns, c.Shows k f := by
  have absent {c : Column} (other : c ∉ Column.ofFlow) : c ∉ g.columns := fun chosen => other (members c chosen)
  have noTime := absent (c := .time) (by decide)
  have noInterface := absent (c := .interface) (by decide)
  have parts : g.keyOf interface time f = k ↔ g.keep .time time = k.time ∧ g.keep .interface interface = k.interface ∧
      g.keep .source f.source = k.source ∧ g.keep .destination f.destination = k.destination ∧
      g.keep .port f.port = k.port ∧ g.keep .protocol f.protocol = k.protocol := by
    cases k
    simp [keyOf]
  rw [parts, keep_eq_iff (fits .time), keep_eq_iff (fits .interface), keep_eq_iff (fits .source),
    keep_eq_iff (fits .destination), keep_eq_iff (fits .port), keep_eq_iff (fits .protocol)]
  constructor
  · rintro ⟨-, -, source, destination, port, protocol⟩ c chosen
    cases c with
    | source => exact source chosen
    | destination => exact destination chosen
    | port => exact port chosen
    | protocol => exact protocol chosen
    | interface => trivial
    | time => trivial
  · intro shows
    exact ⟨fun chosen => absurd chosen noTime, fun chosen => absurd chosen noInterface, shows .source,
      shows .destination, shows .port, shows .protocol⟩

end Grouping

/-! ## Rows -/

namespace Report

open Condition (States IsOperand states_comparison IsReadable Holds Concerns Denotes)

/-- The condition that is spelled by the cells of a row: every column is equal to its cell. -/
def drillDown (columns : List Column) (r : Row) : String :=
  " & ".intercalate (columns.map fun c => c.name ++ " = " ++ cell r c)

variable {hosts : Resolver} {levels : Nat} {r : Row} {c : Column}

/-- A cell states that a flow has the value of its row. -/
theorem states_cell (unnamed : r.sourceName = none ∧ r.destinationName = none) (member : c ∈ Column.ofFlow)
    (filled : r.key.has c = true) :
    States (IsOperand levels) hosts (c.name ++ " = " ++ cell r c) fun f => c.Shows r.key f := by
  obtain ⟨noSource, noDestination⟩ := unnamed
  cases c with
  | source =>
    obtain ⟨a, value⟩ := Option.isSome_iff_exists.1 filled
    have shown : cell r .source = a.text := by simp [cell, noSource, value]
    simp only [shown, Column.Shows, value]
    refine states_comparison (a := .source) a.isPlainWord_text ⟨rfl, by simp [IsReadable]⟩ fun f => ?_
    simp [Holds, Concerns, Denotes, eq_comm]
  | destination =>
    obtain ⟨a, value⟩ := Option.isSome_iff_exists.1 filled
    have shown : cell r .destination = a.text := by simp [cell, noDestination, value]
    simp only [shown, Column.Shows, value]
    refine states_comparison (a := .destination) a.isPlainWord_text ⟨rfl, by simp [IsReadable]⟩ fun f => ?_
    simp [Holds, Concerns, Denotes, eq_comm]
  | port =>
    obtain ⟨n, value⟩ := Option.isSome_iff_exists.1 filled
    have shown : cell r .port = Decimal.text n.toNat := by simp [cell, value]
    simp only [shown, Column.Shows, value]
    refine states_comparison (a := .port) (Decimal.isPlainWord_text _) ⟨rfl, by simp [IsReadable]⟩ fun f => ?_
    simp only [Holds, Decimal.readUInt16?_text, Option.some.injEq, exists_eq_left', Comparison.holds_eq]
    exact eq_comm
  | protocol =>
    obtain ⟨n, value⟩ := Option.isSome_iff_exists.1 filled
    have shown : cell r .protocol = Protocol.text n := by simp [cell, value]
    simp only [shown, Column.Shows, value]
    refine states_comparison (a := .protocol) (Protocol.isPlainWord_text n) ⟨rfl, by simp [IsReadable]⟩ fun f => ?_
    simp only [Holds, Protocol.ofText?_text, Option.some.injEq, exists_eq_left', Comparison.holds_eq]
    exact eq_comm
  | interface => exact absurd member (by decide)
  | time => exact absurd member (by decide)

/-- For every resolver, the cells of a row without names spell a condition that compiles, and the predicate admits the
flows of the row's key and no others. -/
theorem drillDown_selects (hosts : Resolver) (g : Grouping) (r : Row) (members : ∀ c ∈ g.columns, c ∈ Column.ofFlow)
    (fits : r.key.IsOver g) (unnamed : r.sourceName = none ∧ r.destinationName = none) :
    ∃ p, Predicate.ofText hosts (drillDown g.columns r) = .ok p ∧
      ∀ interface time f, p.admits f = true ↔ g.keyOf interface time f = r.key := by
  have cells : ∀ c ∈ g.columns, States (IsOperand Condition.maxNesting) hosts (c.name ++ " = " ++ cell r c)
      fun f => c.Shows r.key f :=
    fun c chosen => states_cell unnamed (members c chosen) (by rw [fits c]; exact Grouping.contains_iff.2 chosen)
  obtain ⟨p, compiled, admits⟩ := (Condition.states_all g.ne_nil cells).selects
  refine ⟨p, compiled, fun interface time f => ?_⟩
  rw [admits, Grouping.keyOf_eq_iff members fits]

/-- An address that embeds one of the fourth version, one with a run of zeros in front, and a resolver that knows hosts
of these names. -/
theorem drillDown_selects_mapped :
    let g : Grouping := ⟨[.protocol, .destination, .port, .source], by decide, by decide⟩
    let key : Key := ⟨none, none, some (.v6 0xffff0a000001), some (.v6 1), some 443, some 50⟩
    let r : Row := ⟨key, .zero, none, none⟩
    let hosts := Resolver.ofHosts [("::ffff:10.0.0.1", [.v4 1]), ("::1", [.v4 2]), ("ESP", [.v4 3])]
    drillDown g.columns r = "proto = ESP & dip = ::1 & dport = 443 & sip = ::ffff:10.0.0.1" ∧
      ∃ p, Predicate.ofText hosts (drillDown g.columns r) = .ok p ∧
        ∀ interface time f, p.admits f = true ↔ g.keyOf interface time f = key := by
  intro g key r hosts
  have fits : key.IsOver g := by
    intro c
    rw [Bool.eq_iff_iff, Grouping.contains_iff]
    cases c <;> decide
  exact ⟨by decide +kernel, drillDown_selects hosts g r (by decide) fits ⟨rfl, rfl⟩⟩

end Report

end FlowArchive
