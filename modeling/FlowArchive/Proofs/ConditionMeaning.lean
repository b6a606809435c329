import FlowArchive.Condition.Meaning
import FlowArchive.Condition.Predicate

/-!
# Compiled conditions

A condition compiles exactly if every comparison in it is one that its attribute supports, with a value that
can be read, and the predicate that it compiles to admits the flows of which the condition holds as it is
written. Neither the replacement of attributes that stand for either end nor the tests of all addresses of a
host change the meaning, also under negations.
-/

namespace FlowArchive

/-! ## Networks -/

/-- Clearing the last bits of a word keeps the bits in front of them. -/
theorem getMsbD_clear {w : Nat} (x : BitVec w) (h i : Nat) :
    ((x >>> h) <<< h).getMsbD i = (decide (i + h < w) && x.getMsbD i) := by
  simp only [BitVec.getMsbD_shiftLeft, BitVec.getMsbD_ushiftRight]
  by_cases inside : i + h < w
  · simp [inside, show ¬ i + h < h by omega]
  · simp [inside]

/-- Two words are equal without their last bits if and only if they agree on the bits in front. -/
theorem clear_eq_clear_iff {w : Nat} (x y : BitVec w) (h : Nat) :
    (x >>> h) <<< h = (y >>> h) <<< h ↔ ∀ i < w - h, x.getMsbD i = y.getMsbD i := by
  constructor
  · intro same i inside
    have bit : ((x >>> h) <<< h).getMsbD i = ((y >>> h) <<< h).getMsbD i := by rw [same]
    rw [getMsbD_clear, getMsbD_clear] at bit
    simpa [show i + h < w by omega] using bit
  · intro agree
    apply BitVec.eq_of_getMsbD_eq
    intro i inside
    rw [getMsbD_clear, getMsbD_clear]
    by_cases front : i + h < w
    · rw [agree i (by omega)]
    · simp [front]

namespace Network

theorem clear_eq_iff (h : Nat) {a b : Address} (family : a.width = b.width) :
    clear h a = clear h b ↔ ∀ i < b.width - h, a.leadingBit i = b.leadingBit i := by
  cases a with
  | v4 x =>
    cases b with
    | v4 y => simpa [clear, Address.leadingBit, Address.width] using clear_eq_clear_iff x y h
    | v6 y => simp [Address.width] at family
  | v6 x =>
    cases b with
    | v4 y => simp [Address.width] at family
    | v6 y => simpa [clear, Address.leadingBit, Address.width] using clear_eq_clear_iff x y h

/-- The test of a network compares the family and the bits of the prefix. -/
theorem contains_iff (n : Network) (a : Address) : n.contains a = true ↔ n.Covers a := by
  have bits : n.address.width - n.hostBits = n.prefixLength := by
    have := n.prefixLength_le
    unfold hostBits
    omega
  simp only [contains, Bool.and_eq_true, beq_iff_eq, Covers]
  refine and_congr_right fun family => ?_
  rw [clear_eq_iff _ family, bits]

theorem leadingBit_clear (h : Nat) (a : Address) {i : Nat} (front : i < a.width - h) :
    (clear h a).leadingBit i = a.leadingBit i := by
  cases a <;> simp only [clear, Address.leadingBit, Address.width, getMsbD_clear] at front ⊢ <;>
    rw [decide_eq_true (by omega), Bool.true_and]

/-- The bits behind the prefix of a network do not count. -/
theorem covers_canonical (n : Network) (a : Address) : n.canonical.Covers a ↔ n.Covers a := by
  have bound := n.prefixLength_le
  simp only [Covers, canonical, width_clear]
  refine and_congr_right fun _ => forall₂_congr fun i inside => ?_
  rw [leadingBit_clear _ _ (by unfold hostBits; omega)]

/-- The network that a value is compiled to covers what the network that it spells covers. -/
theorem ofText?_covers {value : String} {n : Network} (read : ofText? value = some n) :
    ∃ m, spelled? value = some m ∧ ∀ a, n.Covers a ↔ m.Covers a := by
  unfold ofText? at read
  cases notation_ : ofPrefixNotation? value.toList with
  | some m =>
    obtain rfl : m.canonical = n := by simpa [notation_] using read
    exact ⟨m, by simp [spelled?, notation_], covers_canonical m⟩
  | none =>
    rw [notation_] at read
    exact ⟨n, by simpa [spelled?, notation_] using read, fun a => Iff.rfl⟩

theorem ofText?_isSome (value : String) : (ofText? value).isSome = (spelled? value).isSome := by
  unfold ofText? spelled?
  cases ofPrefixNotation? value.toList <;> simp

end Network

/-! ## Comparisons -/

theorem Condition.denotes_host {hosts : Resolver} {value : String} {x : Address} :
    Denotes hosts .host value x ↔ ∃ addresses, hostAddresses? hosts value = some addresses ∧ x ∈ addresses :=
  Iff.rfl

theorem Condition.denotes_net {hosts : Resolver} {value : String} {x : Address} :
    Denotes hosts .net value x ↔ ∃ n, Network.spelled? value = some n ∧ n.Covers x := Iff.rfl

/-- A proposition, or its negation. -/
def Unless (negated : Bool) (holds : Prop) : Prop := if negated then ¬ holds else holds

theorem Test.admits_address (e : FlowEnd) (a : Address) (negated : Bool) (f : Flow) :
    (Test.address e a negated).admits f = true ↔ Unless negated (e.address f = a) := by
  cases negated <;> simp [Test.admits, Unless]

theorem Test.admits_network (e : FlowEnd) (n : Network) (negated : Bool) (f : Flow) :
    (Test.network e n negated).admits f = true ↔ Unless negated (n.Covers (e.address f)) := by
  rw [← Network.contains_iff]
  cases negated <;> simp [Test.admits, Unless]

namespace Predicate

variable {hosts : Resolver} {p : Predicate}

theorem ofHost_isOk (hosts : Resolver) (e : FlowEnd) (value : String) (negated : Bool) :
    (∃ p, ofHost hosts e value negated = .ok p) ↔ Condition.IsReadable hosts .host value := by
  show _ ↔ (Condition.hostAddresses? hosts value).isSome = true
  unfold ofHost Condition.hostAddresses?
  cases Address.ofText? value with
  | some a => simp
  | none => cases hosts.lookup value <;> simp [Except.toOption]

/-- The tests of the addresses of a host are joined so that they say whether an end is among them. -/
theorem admits_ofHost {e : FlowEnd} {value : String} {negated : Bool}
    (compiled : ofHost hosts e value negated = .ok p) (f : Flow) :
    p.admits f = true ↔ Unless negated (Condition.Denotes hosts .host value (e.address f)) := by
  unfold ofHost at compiled
  rw [Condition.denotes_host]
  unfold Condition.hostAddresses?
  cases literal : Address.ofText? value with
  | some a =>
    obtain rfl : test (.address e a negated) = p := by simpa [literal] using compiled
    simp [admits, Test.admits_address]
  | none =>
    cases found : hosts.lookup value with
    | error f => simp [literal, found] at compiled
    | ok addresses =>
      simp only [literal, found, Except.ok.injEq] at compiled
      subst compiled
      cases negated with
      | false => simp [admits, Test.admits_address, Unless, Except.toOption]
      | true =>
        -- A flow passes all negated tests if its end is none of the addresses, also if there are none.
        simp only [↓reduceIte, admits, List.all_map, List.all_eq_true, Function.comp_apply,
          Test.admits_address, Unless, Except.toOption, Option.some.injEq, exists_eq_left']
        exact ⟨fun none_ inside => none_ _ inside rfl, fun outside a inside same => outside (same ▸ inside)⟩

theorem ofNetwork_isOk (hosts : Resolver) (e : FlowEnd) (value : String) (negated : Bool) :
    (∃ p, ofNetwork e value negated = .ok p) ↔ Condition.IsReadable hosts .net value := by
  show _ ↔ (Network.spelled? value).isSome = true
  rw [← Network.ofText?_isSome]
  unfold ofNetwork
  cases Network.ofText? value <;> simp

theorem admits_ofNetwork (hosts : Resolver) {e : FlowEnd} {value : String} {negated : Bool}
    (compiled : ofNetwork e value negated = .ok p) (f : Flow) :
    p.admits f = true ↔ Unless negated (Condition.Denotes hosts .net value (e.address f)) := by
  unfold ofNetwork at compiled
  rw [Condition.denotes_net]
  cases read : Network.ofText? value with
  | none => simp [read] at compiled
  | some n =>
    obtain rfl : test (.network e n negated) = p := by simpa [read] using compiled
    obtain ⟨m, spelled, same⟩ := Network.ofText?_covers read
    simp [admits, Test.admits_network, spelled, same]

theorem ofComparison_isOk (hosts : Resolver) {a : Attribute} {op : Comparison} (value : String)
    (own : Condition.ends? a = none) (supported : a.supports op = true) :
    (∃ p, ofComparison hosts a op value = .ok p) ↔ Condition.IsReadable hosts a value := by
  unfold ofComparison
  rw [if_pos supported]
  cases a with
  | source => exact ofHost_isOk hosts .source value _
  | destination => exact ofHost_isOk hosts .destination value _
  | sourceNet => exact ofNetwork_isOk hosts .source value _
  | destinationNet => exact ofNetwork_isOk hosts .destination value _
  | port =>
    show _ ↔ (Decimal.readUInt16? value).isSome = true
    cases Decimal.readUInt16? value <;> simp
  | protocol =>
    show _ ↔ (Protocol.ofText? value).isSome = true
    cases Protocol.ofText? value <;> simp
  | host => cases own
  | net => cases own

/-- The comparison of an address by equality, or the denial of it. -/
theorem holds_address {a : Attribute} {op : Comparison} {value : String} {f : Flow} (isAddress : a.isAddress) :
    (Condition.compare a op value).Holds hosts f ↔ Unless (op == .ne) (Condition.Concerns hosts a value f) := by
  have compared : (Condition.compare a op value).Holds hosts f ↔
      if op = .ne then ¬ Condition.Concerns hosts a value f else Condition.Concerns hosts a value f := by
    cases a with
    | port => cases isAddress
    | protocol => cases isAddress
    | _ => exact Iff.rfl
  rw [compared]
  simp [Unless]

/-- A comparison of one member of a flow means what it says. -/
theorem admits_ofComparison {a : Attribute} {op : Comparison} {value : String}
    (compiled : ofComparison hosts a op value = .ok p) (f : Flow) :
    p.admits f = true ↔ (Condition.compare a op value).Holds hosts f := by
  unfold ofComparison at compiled
  split at compiled
  next =>
    cases a with
    | source => exact (admits_ofHost compiled f).trans (holds_address (a := .source) rfl).symm
    | destination => exact (admits_ofHost compiled f).trans (holds_address (a := .destination) rfl).symm
    | sourceNet =>
      exact (admits_ofNetwork hosts compiled f).trans (holds_address (a := .sourceNet) rfl).symm
    | destinationNet =>
      exact (admits_ofNetwork hosts compiled f).trans (holds_address (a := .destinationNet) rfl).symm
    | port =>
      show _ ↔ ∃ n, Decimal.readUInt16? value = Option.some n ∧ op.holds f.port n = true
      cases read : Decimal.readUInt16? value with
      | none => simp [read] at compiled
      | some n =>
        obtain rfl : test (.port op n) = p := by simpa [read] using compiled
        simp [admits, Test.admits]
    | protocol =>
      show _ ↔ ∃ n, Protocol.ofText? value = Option.some n ∧ op.holds f.protocol n = true
      cases read : Protocol.ofText? value with
      | none => simp [read] at compiled
      | some n =>
        obtain rfl : test (.protocol op n) = p := by simpa [read] using compiled
        simp [admits, Test.admits]
    | host => cases compiled
    | net => cases compiled
  next => cases compiled

/-! ## Conditions -/

theorem ofExpanded_and {l r : Condition} :
    ofExpanded hosts (.and l r) = .ok p ↔
      ∃ q s, ofExpanded hosts l = .ok q ∧ ofExpanded hosts r = .ok s ∧ p = and q s := by
  simp only [bind, Except.bind, ofExpanded]
  cases ofExpanded hosts l <;> cases ofExpanded hosts r <;> simp [eq_comm]

theorem ofExpanded_or {l r : Condition} :
    ofExpanded hosts (.or l r) = .ok p ↔
      ∃ q s, ofExpanded hosts l = .ok q ∧ ofExpanded hosts r = .ok s ∧ p = or q s := by
  simp only [bind, Except.bind, ofExpanded]
  cases ofExpanded hosts l <;> cases ofExpanded hosts r <;> simp [eq_comm]

theorem ofCondition_not {c : Condition} :
    ofCondition hosts (.not c) = .ok p ↔ ∃ q, ofCondition hosts c = .ok q ∧ p = not q := by
  unfold ofCondition
  rw [Condition.expand]
  cases c.expand with
  | error f => simp [bind, Except.bind]
  | ok expanded =>
    simp only [bind, Except.bind, ofExpanded]
    cases ofExpanded hosts expanded <;> simp [eq_comm]

theorem ofCondition_and {l r : Condition} :
    ofCondition hosts (.and l r) = .ok p ↔
      ∃ q s, ofCondition hosts l = .ok q ∧ ofCondition hosts r = .ok s ∧ p = and q s := by
  unfold ofCondition
  rw [Condition.expand]
  cases l.expand with
  | error f => simp [bind, Except.bind]
  | ok left =>
    cases r.expand with
    | error f => simp [bind, Except.bind]
    | ok right => simpa [bind, Except.bind] using ofExpanded_and

theorem ofCondition_or {l r : Condition} :
    ofCondition hosts (.or l r) = .ok p ↔
      ∃ q s, ofCondition hosts l = .ok q ∧ ofCondition hosts r = .ok s ∧ p = or q s := by
  unfold ofCondition
  rw [Condition.expand]
  cases l.expand with
  | error f => simp [bind, Except.bind]
  | ok left =>
    cases r.expand with
    | error f => simp [bind, Except.bind]
    | ok right => simpa [bind, Except.bind] using ofExpanded_or

theorem ofCondition_unsupported {a : Attribute} {op : Comparison} (value : String)
    (unsupported : a.supports op = false) :
    ofCondition hosts (.compare a op value) = .error (.condition (.unordered a op)) := by
  simp [ofCondition, Condition.expand, unsupported]

theorem ofCondition_own {a : Attribute} {op : Comparison} (value : String) (own : Condition.ends? a = none)
    (supported : a.supports op = true) :
    ofCondition hosts (.compare a op value) = ofComparison hosts a op value := by
  simp [ofCondition, Condition.expand, own, supported, ofExpanded]

/-- An attribute that stands for either end compiles as the two attributes do: joined by or for equality, and
by and for inequality. -/
theorem ofCondition_ends {a l r : Attribute} {op : Comparison} {value : String}
    (ends : Condition.ends? a = Option.some (l, r)) (supported : a.supports op = true) :
    ofCondition hosts (.compare a op value) = .ok p ↔
      ∃ q s, ofComparison hosts l op value = .ok q ∧ ofComparison hosts r op value = .ok s ∧
        p = if op = .eq then or q s else and q s := by
  simp only [ofCondition, Condition.expand, supported, ends, ↓reduceIte]
  by_cases equality : op = .eq
  · simp only [equality, ↓reduceIte]
    exact ofExpanded_or
  · simp only [equality, ↓reduceIte]
    exact ofExpanded_and

/-- What the two ends that an attribute stands for have in common with it. -/
theorem ends_agree (hosts : Resolver) {a l r : Attribute} (ends : Condition.ends? a = Option.some (l, r)) :
    (∀ e ∈ [l, r], Condition.ends? e = none ∧ e.isAddress ∧ (∀ op, e.supports op = a.supports op) ∧
      ∀ value, Condition.IsReadable hosts e value ↔ Condition.IsReadable hosts a value) ∧
    ∀ value f, Condition.Concerns hosts a value f ↔
      Condition.Concerns hosts l value f ∨ Condition.Concerns hosts r value f := by
  cases a with
  | host =>
    cases ends
    exact ⟨by simp [Condition.ends?, Attribute.isAddress, Attribute.supports, Condition.IsReadable],
      fun _ _ => Iff.rfl⟩
  | net =>
    cases ends
    exact ⟨by simp [Condition.ends?, Attribute.isAddress, Attribute.supports, Condition.IsReadable],
      fun _ _ => Iff.rfl⟩
  | _ => cases ends

theorem ofCondition_compare_isOk (hosts : Resolver) (a : Attribute) (op : Comparison) (value : String) :
    (∃ p, ofCondition hosts (.compare a op value) = .ok p) ↔
      (Condition.compare a op value).IsWellFormed hosts := by
  show _ ↔ a.supports op = true ∧ Condition.IsReadable hosts a value
  cases supported : a.supports op with
  | false => simp [ofCondition_unsupported value supported]
  | true =>
    rw [eq_self_iff_true, true_and]
    cases ends : Condition.ends? a with
    | none =>
      rw [ofCondition_own value ends supported]
      exact ofComparison_isOk hosts value ends supported
    | some pair =>
      obtain ⟨members, -⟩ := ends_agree hosts ends
      obtain ⟨ownLeft, -, sameLeft, readLeft⟩ := members pair.1 (by simp)
      obtain ⟨ownRight, -, sameRight, readRight⟩ := members pair.2 (by simp)
      have left := ofComparison_isOk hosts value ownLeft ((sameLeft op).trans supported)
      have right := ofComparison_isOk hosts value ownRight ((sameRight op).trans supported)
      simp only [ofCondition_ends ends supported]
      constructor
      · rintro ⟨-, q, -, first, -⟩
        exact (readLeft value).1 (left.1 ⟨q, first⟩)
      · intro readable
        obtain ⟨q, first⟩ := left.2 ((readLeft value).2 readable)
        obtain ⟨s, second⟩ := right.2 ((readRight value).2 readable)
        exact ⟨_, q, s, first, second, rfl⟩

theorem admits_ofCondition_compare {a : Attribute} {op : Comparison} {value : String}
    (compiled : ofCondition hosts (.compare a op value) = .ok p) (f : Flow) :
    p.admits f = true ↔ (Condition.compare a op value).Holds hosts f := by
  cases supported : a.supports op with
  | false => simp [ofCondition_unsupported value supported] at compiled
  | true =>
    cases ends : Condition.ends? a with
    | none =>
      rw [ofCondition_own value ends supported] at compiled
      exact admits_ofComparison compiled f
    | some pair =>
      obtain ⟨members, concerned⟩ := ends_agree hosts ends
      obtain ⟨-, addressLeft, -, -⟩ := members pair.1 (by simp)
      obtain ⟨-, addressRight, -, -⟩ := members pair.2 (by simp)
      have address : a.isAddress := by
        cases a with
        | port => cases ends
        | protocol => cases ends
        | _ => rfl
      obtain ⟨q, s, first, second, rfl⟩ := (ofCondition_ends ends supported).1 compiled
      have left := (admits_ofComparison first f).trans (holds_address addressLeft)
      have right := (admits_ofComparison second f).trans (holds_address addressRight)
      rw [holds_address address]
      -- By De Morgan's law the denial of either end is the denial of both.
      have equality : op = .eq ∨ op = .ne := by simpa [Attribute.supports, address] using supported
      rcases equality with rfl | rfl
      · simp only [Unless] at left right ⊢
        simp [admits, left, right, concerned]
      · simp only [Unless] at left right ⊢
        simp [admits, left, right, concerned]

theorem ofCondition_isOk (hosts : Resolver) (c : Condition) :
    (∃ p, ofCondition hosts c = .ok p) ↔ c.IsWellFormed hosts := by
  induction c with
  | compare a op value => exact ofCondition_compare_isOk hosts a op value
  | and l r left right =>
    simp only [ofCondition_and, Condition.IsWellFormed, ← left, ← right]
    exact ⟨fun ⟨_, q, s, first, second, _⟩ => ⟨⟨q, first⟩, s, second⟩,
      fun ⟨⟨q, first⟩, s, second⟩ => ⟨_, q, s, first, second, rfl⟩⟩
  | or l r left right =>
    simp only [ofCondition_or, Condition.IsWellFormed, ← left, ← right]
    exact ⟨fun ⟨_, q, s, first, second, _⟩ => ⟨⟨q, first⟩, s, second⟩,
      fun ⟨⟨q, first⟩, s, second⟩ => ⟨_, q, s, first, second, rfl⟩⟩
  | not inner ih =>
    simp only [ofCondition_not, Condition.IsWellFormed, ← ih]
    exact ⟨fun ⟨_, q, first, _⟩ => ⟨q, first⟩, fun ⟨q, first⟩ => ⟨_, q, first, rfl⟩⟩

theorem admits_ofCondition {c : Condition} (compiled : ofCondition hosts c = .ok p) (f : Flow) :
    p.admits f = true ↔ c.Holds hosts f := by
  induction c generalizing p with
  | compare a op value => exact admits_ofCondition_compare compiled f
  | and l r left right =>
    obtain ⟨q, s, first, second, rfl⟩ := ofCondition_and.1 compiled
    rw [Condition.Holds, ← left first, ← right second, admits, Bool.and_eq_true]
  | or l r left right =>
    obtain ⟨q, s, first, second, rfl⟩ := ofCondition_or.1 compiled
    rw [Condition.Holds, ← left first, ← right second, admits, Bool.or_eq_true]
  | not inner ih =>
    obtain ⟨q, first, rfl⟩ := ofCondition_not.1 compiled
    rw [Condition.Holds, ← ih first, admits, Bool.not_eq_true', Bool.not_eq_true]

/-- A text that reads as a condition compiles exactly if the condition is well formed, and then admits the flows
of which the condition holds as it is written. -/
theorem compile_preserves_meaning (hosts : Resolver) {s : String} {c : Condition}
    (read : Condition.ofText s = .ok (Option.some c)) :
    ((∃ p, ofText hosts s = .ok p) ↔ c.IsWellFormed hosts) ∧
      ∀ p, ofText hosts s = .ok p → ∀ f, p.admits f = true ↔ c.Holds hosts f := by
  have compiled : ofText hosts s = ofCondition hosts c := by simp [ofText, read]
  rw [compiled]
  exact ⟨ofCondition_isOk hosts c, fun p ok f => admits_ofCondition ok f⟩

/-- Under a negation, the denial of a host that has addresses of both families. -/
theorem compile_preserves_meaning_denied_host :
    Condition.ofText "!(host!=a)" = .ok (Option.some (.not (.compare .host .ne "a"))) ∧
      ((∃ p, ofText (.ofHosts [("a", [.v4 1, .v6 2])]) "!(host!=a)" = .ok p) ↔
        (Condition.not (.compare .host .ne "a")).IsWellFormed (.ofHosts [("a", [.v4 1, .v6 2])])) ∧
      ∀ p, ofText (.ofHosts [("a", [.v4 1, .v6 2])]) "!(host!=a)" = .ok p → ∀ f, p.admits f = true ↔
        (Condition.not (.compare .host .ne "a")).Holds (.ofHosts [("a", [.v4 1, .v6 2])]) f := by
  have decided : (Condition.ofText "!(host!=a)").toOption =
      Option.some (Option.some (.not (.compare .host .ne "a"))) := by decide +kernel
  have read : Condition.ofText "!(host!=a)" = .ok (Option.some (.not (.compare .host .ne "a"))) := by
    cases found : Condition.ofText "!(host!=a)" with
    | error flaw =>
      rw [found] at decided
      cases decided
    | ok c =>
      rw [found] at decided
      cases decided
      rfl
  exact ⟨read, compile_preserves_meaning _ read⟩

end Predicate

end FlowArchive
