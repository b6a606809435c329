import FlowArchive.Proofs.Expansion
import FlowArchive.Proofs.SymbolRuns

/-!
# Where conditions fail

A text that does not compile is flawed in its form, compares addresses by order, or names a value that cannot be read;
or the resolver has failed to look up a name. Expansion has refused every comparison that its attribute does not support
and has replaced every attribute that stands for either end, so the checks for these behind it find nothing.
-/

namespace FlowArchive

/-- A comparison by order. -/
def Comparison.isOrder : Comparison → Bool
  | eq | ne => false
  | lt | le | gt | ge => true

theorem Attribute.supports_eq_false_iff {a : Attribute} {op : Comparison} :
    a.supports op = false ↔ a.isAddress = true ∧ op.isOrder = true := by
  cases op <;> simp [supports, Comparison.isOrder]

namespace Condition

/-! ## Kinds of flaws -/

namespace Flaw

/-- Brackets, operators or names of attributes do not stand where they should. -/
def IsOfForm : Flaw → Prop
  | tooDeep | trailing _ | mismatched _ _ | expectedClosing _ _ | unclosed _ | expectedAttribute _ | unexpectedEnd => True
  | unknownAttribute _ | expectedComparison _ _ | missingComparison _ | expectedValue _ _ _ | missingValue _ _ => True
  | _ => False

/-- A value cannot be read. -/
def IsOfValue : Flaw → Prop
  | invalidNetwork _ | invalidPort _ | unknownProtocol _ => True
  | _ => False

/-- A flaw that is looked for again once expansion is done. -/
def IsRepeated : Flaw → Prop
  | unexpanded _ | unorderedTest _ => True
  | _ => False

variable {flaw : Flaw}

theorem IsOfForm.not_isRepeated (form : flaw.IsOfForm) : ¬ flaw.IsRepeated := by
  cases flaw <;> first | exact id | cases form

theorem IsOfValue.not_isRepeated (value : flaw.IsOfValue) : ¬ flaw.IsRepeated := by
  cases flaw <;> first | exact id | cases value

end Flaw

/-! ## Flaws that readers find -/

variable {reader : Reader} {joint : Joint} {kind : Flaw → Prop} {rounds : Nat} {left : Condition} {s : List Token}
  {flaw : Flaw}

/-- Where a reader refuses, it finds a flaw of a kind. -/
def Blames (reader : Reader) (kind : Flaw → Prop) : Prop := ∀ s flaw, reader s = .error flaw → kind flaw

theorem Blames.chainMore (blames : Blames reader kind) (failed : chainMore joint reader rounds left s = .error flaw) :
    kind flaw := by
  induction rounds generalizing left s with
  | zero => cases failed
  | succ rounds ih =>
    cases s with
    | nil => cases failed
    | cons t s =>
      rw [Condition.chainMore] at failed
      split at failed
      · split at failed
        next found =>
          cases failed
          exact blames s _ found
        next => exact ih failed
      · cases failed

theorem Blames.chain (blames : Blames reader kind) : Blames (chain joint reader) kind := by
  intro s flaw failed
  rw [Condition.chain] at failed
  split at failed
  next found =>
    cases failed
    exact blames s _ found
  next => exact blames.chainMore failed

theorem blames_comparison (name : String) : Blames (comparison name) Flaw.IsOfForm := by
  intro s flaw failed
  unfold comparison at failed
  split at failed
  · cases failed
    trivial
  · split at failed
    · cases failed
      trivial
    · split at failed <;> cases failed <;> trivial
    · cases failed
      trivial

theorem blames_close (kind : Bracket) (inner : Condition) : Blames (close kind inner) Flaw.IsOfForm := by
  intro s flaw failed
  unfold close at failed
  split at failed
  · cases failed
    trivial
  · split at failed <;> cases failed
    trivial
  · cases failed
    trivial

theorem blames_operand (levels : Nat) : Blames (operand levels) Flaw.IsOfForm := by
  -- Each bracket and each negation uses up a level.
  induction levels with
  | zero =>
    intro s flaw failed
    cases s with
    | nil =>
      cases failed
      trivial
    | cons t s =>
      cases t with
      | word name => exact blames_comparison name s flaw failed
      | _ =>
        cases failed
        trivial
  | succ levels ih =>
    intro s flaw failed
    cases s with
    | nil =>
      cases failed
      trivial
    | cons t s =>
      cases t with
      | word name => exact blames_comparison name s flaw failed
      | not =>
        rw [operand] at failed
        split at failed
        next found =>
          cases failed
          exact ih s _ found
        next => cases failed
      | opening kind =>
        rw [operand] at failed
        split at failed
        next found =>
          cases failed
          exact ih.chain.chain s _ found
        next inner rest found => exact blames_close kind inner rest flaw failed
      | _ =>
        cases failed
        trivial

theorem isOfForm_of_ofText {text : String} (failed : ofText text = .error flaw) : flaw.IsOfForm := by
  rw [ofText] at failed
  split at failed
  · cases failed
  next t rest scanned =>
    cases read : ofTokens (t :: rest) with
    | ok c =>
      rw [read] at failed
      cases failed
    | error found =>
      rw [read] at failed
      cases failed
      rw [ofTokens] at read
      split at read
      next refused =>
        cases read
        exact (blames_operand maxNesting).chain.chain _ _ refused
      · cases read
      · cases read
        trivial

end Condition

namespace Predicate

open Condition (Flaw)

variable {hosts : Resolver} {c l r : Condition} {e : Failure}

/-! ## Failures behind expansion -/

/-- A failure is one that the resolver gives for a name, or a flaw of a kind. -/
def FailsBy (hosts : Resolver) (kind : Flaw → Prop) (e : Failure) : Prop :=
  (∃ name, hosts.lookup name = .error e) ∨ ∃ flaw, e = .condition flaw ∧ kind flaw

theorem FailsBy.mono {kind more : Flaw → Prop} (fails : FailsBy hosts kind e) (sub : ∀ flaw, kind flaw → more flaw) :
    FailsBy hosts more e :=
  fails.imp_right fun ⟨flaw, same, found⟩ => ⟨flaw, same, sub flaw found⟩

theorem failsBy_ofHost {end_ : FlowEnd} {value : String} {negated : Bool}
    (failed : ofHost hosts end_ value negated = .error e) : FailsBy hosts Flaw.IsOfValue e := by
  unfold ofHost at failed
  split at failed
  · cases failed
  · split at failed
    next refused =>
      cases failed
      exact .inl ⟨value, refused⟩
    next => cases failed

theorem failsBy_ofNetwork {end_ : FlowEnd} {value : String} {negated : Bool}
    (failed : ofNetwork end_ value negated = .error e) : FailsBy hosts Flaw.IsOfValue e := by
  unfold ofNetwork at failed
  split at failed <;> cases failed
  exact .inr ⟨_, rfl, trivial⟩

/-- A comparison that expansion leaves fails for its value only. -/
theorem failsBy_ofComparison {a : Attribute} {op : Comparison} {value : String} (supported : a.supports op = true)
    (own : Condition.ends? a = none) (failed : ofComparison hosts a op value = .error e) :
    FailsBy hosts Flaw.IsOfValue e := by
  unfold ofComparison at failed
  rw [if_pos supported] at failed
  cases a with
  | source | destination => exact failsBy_ofHost failed
  | sourceNet | destinationNet => exact failsBy_ofNetwork failed
  | port | protocol =>
    dsimp only at failed
    split at failed <;> cases failed
    exact .inr ⟨_, rfl, trivial⟩
  | host | net => cases own

theorem ofExpanded_join_eq_error (joint : Condition.Joint) (failed : ofExpanded hosts (joint.join l r) = .error e) :
    ofExpanded hosts l = .error e ∨ ofExpanded hosts r = .error e := by
  cases joint <;> simp only [Condition.Joint.join, ofExpanded] at failed <;> revert failed <;>
    cases ofExpanded hosts l <;> cases ofExpanded hosts r <;> simp +contextual [bind, Except.bind]

theorem failsBy_ofExpanded (expanded : c.IsExpanded) (failed : ofExpanded hosts c = .error e) :
    FailsBy hosts Flaw.IsOfValue e := by
  induction c using Condition.byJoint with
  | compare a op value =>
    obtain ⟨supported, own⟩ := (Condition.isExpanded_compare value).1 expanded
    exact failsBy_ofComparison supported own failed
  | not inner ih =>
    rw [ofExpanded] at failed
    refine ih expanded ?_
    revert failed
    cases ofExpanded hosts inner <;> simp [bind, Except.bind]
  | join joint l r left right =>
    obtain ⟨first, second⟩ := (Condition.isExpanded_join joint).1 expanded
    rcases ofExpanded_join_eq_error joint failed with inLeft | inRight
    · exact left first inLeft
    · exact right second inRight

/-- No failure to compile a text comes from a check that is repeated behind expansion. -/
theorem failsBy_ofText {s : String} (failed : ofText hosts s = .error e) :
    FailsBy hosts (fun flaw => ¬ flaw.IsRepeated) e := by
  unfold ofText at failed
  split at failed
  next flaw refused =>
    cases failed
    exact .inr ⟨flaw, rfl, (Condition.isOfForm_of_ofText refused).not_isRepeated⟩
  · cases failed
  next c read =>
    unfold ofCondition at failed
    split at failed
    next flaw refused =>
      cases failed
      obtain ⟨x, -, -, rfl⟩ := Condition.exists_of_expand_eq_error refused
      exact .inr ⟨_, rfl, id⟩
    next d expanded =>
      have fails := failsBy_ofExpanded (Condition.isExpanded_of_expand expanded) failed
      exact fails.mono fun flaw value => value.not_isRepeated

/-! ## All failures -/

/-- Expansion fails if and only if addresses are compared by order somewhere. Else it leaves no attribute that stands for
either end, and expanding again changes nothing. Scanning never fails, also where symbols are taken in runs. So a text
never fails to compile for an attribute that was not expanded, nor for a comparison by order that expansion has missed,
unless the resolver words its own failure so; and if a resolver fails with flaws of conditions only, every failure to
compile stems from what the user asked for. -/
theorem failures_caught (hosts : Resolver) :
    (∀ c : Condition,
      ((∃ flaw, c.expand = .error flaw) ↔ ∃ x ∈ c.comparisons, x.1.isAddress = true ∧ x.2.1.isOrder = true) ∧
        ∀ d, c.expand = .ok d →
          (∀ x ∈ d.comparisons, x.1 ≠ .host ∧ x.1 ≠ .net ∧ x.1.supports x.2.1 = true) ∧ d.expand = .ok d) ∧
      (∀ s, Token.scanInRuns s = .ok (Token.scan s)) ∧
      (∀ s e, ofText hosts s = .error e → (∃ name, hosts.lookup name = .error e) ∨
        ∃ flaw, e = .condition flaw ∧ ∀ a, flaw ≠ .unexpanded a ∧ flaw ≠ .unorderedTest a) ∧
      ((∀ name e, hosts.lookup name = .error e → e.kind = .condition) →
        ∀ s e, ofText hosts s = .error e → e.kind.isValidation = true) := by
  refine ⟨fun c => ⟨?_, fun d expanded => ?_⟩, Token.scanInRuns_eq, fun s e failed => ?_, fun ofKind s e failed => ?_⟩
  · simp only [Condition.expand_fails_iff, Condition.HasUnsupported, Attribute.supports_eq_false_iff]
  · have done := Condition.isExpanded_of_expand expanded
    refine ⟨fun x member => ?_, done.expand⟩
    obtain ⟨supported, own⟩ := done x member
    refine ⟨fun same => ?_, fun same => ?_, supported⟩ <;> rw [same] at own <;> cases own
  · rcases failsBy_ofText failed with refused | ⟨flaw, same, found⟩
    · exact .inl refused
    · refine .inr ⟨flaw, same, fun a => ?_⟩
      constructor <;> rintro rfl <;> exact found trivial
  · rcases failsBy_ofText failed with ⟨name, refused⟩ | ⟨flaw, rfl, -⟩
    · rw [ofKind name e refused]
      rfl
    · rfl

/-- The name of a host that is not known, compared with either end. -/
theorem failures_caught_unknown_host :
    let hosts := Resolver.ofHosts []
    let c := Condition.compare .host .ne "a"
    let d := Condition.and (.compare .source .ne "a") (.compare .destination .ne "a")
    let e := Failure.condition (.unknownHost "a")
    ((∀ name e, hosts.lookup name = .error e → e.kind = .condition) ∧ c.expand = .ok d ∧
        ofText hosts "host!=a" = .error e) ∧
      ((∀ x ∈ d.comparisons, x.1 ≠ .host ∧ x.1 ≠ .net ∧ x.1.supports x.2.1 = true) ∧ d.expand = .ok d) ∧
      ((∃ name, hosts.lookup name = .error e) ∨
        ∃ flaw, e = .condition flaw ∧ ∀ a, flaw ≠ .unexpanded a ∧ flaw ≠ .unorderedTest a) ∧
      e.kind.isValidation = true := by
  intro hosts c d e
  have scanned : Token.scan "host!=a" = [.word "host", .compare .ne, .word "a"] := by decide +kernel
  have read : Condition.ofText "host!=a" = .ok (Option.some c) := by
    rw [Condition.ofText, scanned]
    rfl
  have noAddress : Address.ofText? "a" = none := by decide +kernel
  have failed : ofText hosts "host!=a" = .error e := by
    rw [ofText, read]
    show ofExpanded hosts d = .error e
    simp only [d, ofExpanded, ofComparison, ofHost, noAddress]
    rfl
  have ofKind : ∀ name e, hosts.lookup name = .error e → e.kind = .condition := by
    rintro name e ⟨⟩
    rfl
  have caught := failures_caught hosts
  exact ⟨⟨ofKind, rfl, failed⟩, (caught.1 c).2 d rfl, caught.2.2.1 _ e failed, caught.2.2.2 ofKind _ e failed⟩

end Predicate

end FlowArchive
