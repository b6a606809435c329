import FlowArchive.Failure
import FlowArchive.Time.Argument
import FlowArchive.Proofs.Digits
import Mathlib.Tactic.Tauto

/-!
# Which relative times are read

A relative time is a minus sign and a row of groups: digits, the letter of a unit and perhaps a colon. It is read if and
only if no unit is given twice and every number, their sum in seconds and the time that far back are words; the time is
then exact. The order of the groups does not matter.
-/

namespace FlowArchive

namespace Timestamp

theorem ofInt?_eq_some_iff {i : Int} {t : Timestamp} : ofInt? i = some t ↔ t.toInt = i := by
  rw [ofInt?]
  constructor
  · intro found
    split at found
    next word =>
      cases found
      exact Int64.toInt_ofInt_of_le (by omega) (by omega)
    next => cases found
  · rintro rfl
    have lower := t.le_toInt
    have upper := t.toInt_lt
    rw [if_pos (by omega), Int64.ofInt_toInt]

theorem ofInt?_eq_none_iff {i : Int} : ofInt? i = none ↔ ¬ (-9223372036854775808 ≤ i ∧ i < 9223372036854775808) := by
  rw [ofInt?]
  split
  · simp only [reduceCtorEq, false_iff]
    omega
  · simp only [true_iff]
    omega

end Timestamp

/-- The digits of ASCII are among those of all scripts. -/
theorem Decimal.isDecimalDigit_of_isDigit {c : Char} (digit : isDigit c = true) : Text.isDecimalDigit c = true := by
  obtain ⟨d, small, rfl⟩ := exists_digitChar digit
  exact (by decide : ∀ d < 10, Text.isDecimalDigit (digitChar d) = true) d small

@[simp] theorem TimeUnit.ofLetter?_letter (u : TimeUnit) : ofLetter? u.letter = some u := by cases u <;> rfl

theorem TimeUnit.letter_of_ofLetter? {c : Char} {u : TimeUnit} (found : ofLetter? c = some u) : c = u.letter := by
  unfold ofLetter? at found
  split at found <;> cases found <;> rfl

namespace TimeArgument

/-! ## Groups -/

namespace RelativePart

/-- Digits of any script, one at least: what a relative time is recognised by. -/
def IsRow (p : RelativePart) : Prop := p.digits ≠ [] ∧ ∀ c ∈ p.digits, Text.isDecimalDigit c = true

/-- ASCII digits, one at least, of a number that is a word. -/
structure IsWord (p : RelativePart) : Prop where
  filled : p.digits ≠ []
  ascii : ∀ c ∈ p.digits, Decimal.isDigit c = true
  word : Decimal.value p.digits < 2 ^ 63

def seconds (p : RelativePart) : Nat := Decimal.value p.digits * p.unit.seconds

theorem IsWord.isRow {p : RelativePart} (word : p.IsWord) : p.IsRow :=
  ⟨word.filled, fun c member => Decimal.isDecimalDigit_of_isDigit (word.ascii c member)⟩

end RelativePart

/-- A part as it is written: a colon may follow the unit. -/
structure RelativeGroup extends RelativePart where
  colon : Bool
deriving DecidableEq, Repr

namespace RelativeGroup

def chars (g : RelativeGroup) : List Char := g.digits ++ g.unit.letter :: (if g.colon then [':'] else [])

/-- Groups one behind the other. -/
def row (groups : List RelativeGroup) : List Char := groups.flatMap chars

/-- The parts of groups, without their colons. -/
def partsOf (groups : List RelativeGroup) : List RelativePart := groups.map (·.toRelativePart)

end RelativeGroup

open RelativeGroup (row partsOf)

/-- How far back a row of parts goes. -/
def totalSeconds (parts : List RelativePart) : Nat := (parts.map RelativePart.seconds).sum

/-- Parts that name a time before `now`: each unit is given at most once, and every number, the sum and the time are
words. -/
structure Names (now : Timestamp) (parts : List RelativePart) : Prop where
  filled : parts ≠ []
  once : (parts.map (·.unit)).Nodup
  words : ∀ p ∈ parts, p.IsWord
  total : totalSeconds parts < 2 ^ 63
  shifted : -9223372036854775808 ≤ now.toInt - totalSeconds parts

/-- The parts that a search finds wherever digits stand right before the letter of a unit, from left to right. -/
def searchParts (digits : List Char) : List Char → List RelativePart
  | [] => []
  | c :: rest =>
    if Text.isDecimalDigit c then searchParts (digits ++ [c]) rest
    else
      match TimeUnit.ofLetter? c with
      | some unit => if digits.isEmpty then searchParts [] rest else ⟨digits, unit⟩ :: searchParts [] rest
      | none => searchParts [] rest

variable {now v : Timestamp} {text : String} {ds s : List Char} {after : Bool} {p : RelativePart}
  {parts parts' : List RelativePart} {groups : List RelativeGroup}

/-! ## Recognising groups -/

theorem isDecimalDigit_letter (u : TimeUnit) : Text.isDecimalDigit u.letter = false := by cases u <;> decide

theorem relativeParts?_digits (row : ∀ c ∈ ds, Text.isDecimalDigit c = true) (before : List Char) :
    relativeParts? before after (ds ++ s) = relativeParts? (before ++ ds) (after && ds.isEmpty) s := by
  induction ds generalizing before after with
  | nil => simp
  | cons c ds ih =>
    rw [List.cons_append, relativeParts?, if_pos (row c List.mem_cons_self),
      ih (fun d member => row d (List.mem_cons_of_mem c member))]
    simp

theorem relativeParts?_letter (filled : ds ≠ []) (u : TimeUnit) :
    relativeParts? ds after (u.letter :: s) = (relativeParts? [] true s).map (⟨ds, u⟩ :: ·) := by
  have noColon : u.letter ≠ ':' := by cases u <;> decide
  have notEmpty : ds.isEmpty = false := List.isEmpty_eq_false_iff.2 filled
  rw [relativeParts?, isDecimalDigit_letter, if_neg Bool.false_ne_true, if_neg (fun both => noColon both.1),
    TimeUnit.ofLetter?_letter]
  simp [notEmpty]

theorem relativeParts?_colon : relativeParts? [] true (':' :: s) = relativeParts? [] false s := by
  rw [relativeParts?, if_neg (by decide), if_pos ⟨rfl, rfl⟩]

/-- The parts of a row of groups are found. -/
theorem relativeParts?_row (rows : ∀ g ∈ groups, g.IsRow) :
    relativeParts? [] after (row groups) = some (partsOf groups) := by
  induction groups generalizing after with
  | nil => rfl
  | cons g groups ih =>
    obtain ⟨filled, digits⟩ := rows g List.mem_cons_self
    have others : ∀ after, relativeParts? [] after (row groups) = some (partsOf groups) :=
      fun _ => ih fun h member => rows h (List.mem_cons_of_mem g member)
    have behind : relativeParts? [] true ((if g.colon then [':'] else []) ++ row groups) =
        some (partsOf groups) := by
      cases g.colon with
      | false => exact others true
      | true => exact relativeParts?_colon.trans (others false)
    show relativeParts? [] after ((g.digits ++ g.unit.letter :: _) ++ row groups) = _
    rw [List.append_assoc, relativeParts?_digits digits, List.nil_append, List.cons_append,
      relativeParts?_letter filled, behind]
    rfl

/-- What is recognised is a row of groups, from the digits read so far on; or its first character is the colon of the
group before. -/
theorem exists_row_of_relativeParts? (found : relativeParts? ds after s = some parts)
    (digits : ∀ c ∈ ds, Text.isDecimalDigit c = true) (fresh : after = true → ds = []) :
    ∃ groups : List RelativeGroup, (∀ g ∈ groups, g.IsRow) ∧ parts = partsOf groups ∧
      (ds ++ s = row groups ∨ after = true ∧ s = ':' :: row groups) := by
  induction s generalizing ds after parts with
  | nil =>
    rw [relativeParts?] at found
    split at found <;> cases found
    next empty => exact ⟨[], by simp, rfl, .inl (by simpa [row] using empty)⟩
  | cons c s ih =>
    rw [relativeParts?] at found
    split at found
    next digit =>
      have more : ∀ d ∈ ds ++ [c], Text.isDecimalDigit d = true := by
        intro d member
        rcases List.mem_append.1 member with old | new
        · exact digits d old
        · rwa [List.mem_singleton.1 new]
      obtain ⟨groups, rows, same, read | ⟨impossible, -⟩⟩ := ih found more nofun
      · exact ⟨groups, rows, same, .inl (by simpa using read)⟩
      · cases impossible
    next =>
      split at found
      next colon =>
        obtain ⟨rfl, rfl⟩ := colon
        obtain ⟨groups, rows, same, read | ⟨impossible, -⟩⟩ := ih found (by simp) nofun
        · exact ⟨groups, rows, same, .inr ⟨rfl, congrArg (':' :: ·) read⟩⟩
        · cases impossible
      next =>
        split at found
        next unit letter =>
          cases TimeUnit.letter_of_ofLetter? letter
          split at found
          · cases found
          next filled =>
            obtain ⟨others, inner, rfl⟩ := Option.map_eq_some_iff.1 found
            have rowed : (⟨ds, unit⟩ : RelativePart).IsRow := ⟨by simpa using filled, digits⟩
            obtain ⟨groups, rows, rfl, read | ⟨-, read⟩⟩ := ih inner (by simp) (fun _ => rfl)
            · rw [List.nil_append] at read
              refine ⟨⟨⟨ds, unit⟩, false⟩ :: groups, List.forall_mem_cons.2 ⟨rowed, rows⟩, rfl, .inl ?_⟩
              simp [row, RelativeGroup.chars, read]
            · refine ⟨⟨⟨ds, unit⟩, true⟩ :: groups, List.forall_mem_cons.2 ⟨rowed, rows⟩, rfl, .inl ?_⟩
              simp [row, RelativeGroup.chars, read]
        next => cases found

theorem relativeParts?_eq_some_iff :
    relativeParts? [] false s = some parts ↔
      ∃ groups : List RelativeGroup,
        (∀ g ∈ groups, g.IsRow) ∧ s = row groups ∧ parts = partsOf groups := by
  constructor
  · intro found
    obtain ⟨groups, rows, same, read | ⟨impossible, -⟩⟩ := exists_row_of_relativeParts? found (by simp) nofun
    · exact ⟨groups, rows, read, same⟩
    · cases impossible
  · rintro ⟨groups, rows, rfl, rfl⟩
    exact relativeParts?_row rows

/-- Where a whole text is recognised, a search for its parts finds the same ones. -/
theorem searchParts_eq (found : relativeParts? ds after s = some parts) : searchParts ds s = parts := by
  induction s generalizing ds after parts with
  | nil =>
    rw [relativeParts?] at found
    split at found <;> cases found
    rfl
  | cons c s ih =>
    rw [relativeParts?] at found
    rw [searchParts]
    split at found
    next digit =>
      rw [if_pos digit]
      exact ih found
    next other =>
      rw [if_neg other]
      split at found
      next colon =>
        rw [colon.1]
        exact ih found
      next =>
        cases letter : TimeUnit.ofLetter? c with
        | none => simp [letter] at found
        | some unit =>
          simp only [letter] at found ⊢
          split at found
          · cases found
          next filled =>
            obtain ⟨others, inner, rfl⟩ := Option.map_eq_some_iff.1 found
            rw [if_neg filled, ih inner]

/-! ## Adding parts up -/

/-- The word of the number of a part. -/
theorem number_eq_some_iff :
    ((Decimal.readNat? p.digits).bind fun n => Timestamp.ofInt? n) = some v ↔
      p.IsWord ∧ v.toInt = Decimal.value p.digits := by
  simp only [Option.bind_eq_some_iff, Decimal.readNat?_eq_some_iff, Timestamp.ofInt?_eq_some_iff]
  constructor
  · rintro ⟨n, ⟨filled, ascii, rfl⟩, same⟩
    exact ⟨⟨filled, ascii, by have := v.toInt_lt; omega⟩, same⟩
  · rintro ⟨word, same⟩
    exact ⟨_, ⟨word.filled, word.ascii, rfl⟩, same⟩

theorem exists_number (word : p.IsWord) :
    ∃ n, ((Decimal.readNat? p.digits).bind fun n => Timestamp.ofInt? n) = some n := by
  obtain ⟨filled, ascii, small⟩ := word
  have inWords : ∃ t, Timestamp.ofInt? (Decimal.value p.digits) = some t := by
    rw [← Option.ne_none_iff_exists', ne_eq, Timestamp.ofInt?_eq_none_iff]
    omega
  obtain ⟨t, reached⟩ := inWords
  exact ⟨t, by rw [Decimal.readNat?_eq_some_iff.2 ⟨filled, ascii, rfl⟩, Option.bind_some, reached]⟩

theorem totalSeconds_cons (p : RelativePart) (parts : List RelativePart) :
    totalSeconds (p :: parts) = p.seconds + totalSeconds parts := by
  simp [totalSeconds]

/-- The checks on the way up come to one check of the sum, as no part is negative. -/
theorem addParts_eq_ok_iff {seen : List TimeUnit} {start total : Int} (start_nonneg : 0 ≤ start) :
    addParts text seen start parts = .ok total ↔
      ((parts.map (·.unit)).Nodup ∧ (∀ p ∈ parts, p.unit ∉ seen) ∧ (∀ p ∈ parts, p.IsWord) ∧
          (parts ≠ [] → start + totalSeconds parts < 9223372036854775808)) ∧
        total = start + totalSeconds parts := by
  induction parts generalizing seen start with
  | nil => simp [addParts, totalSeconds, eq_comm]
  | cons p parts ih =>
    rw [addParts, totalSeconds_cons]
    split
    next repeated =>
      constructor
      · nofun
      · rintro ⟨⟨-, unseen, -⟩, -⟩
        exact absurd repeated (unseen p List.mem_cons_self)
    next new =>
      split
      next unread =>
        constructor
        · nofun
        · rintro ⟨⟨-, -, words, -⟩, -⟩
          obtain ⟨n, read⟩ := exists_number (words p List.mem_cons_self)
          rw [unread] at read
          cases read
      next n read =>
        obtain ⟨word, same⟩ := number_eq_some_iff.1 read
        have added : start + n.toInt * p.unit.seconds = start + p.seconds := by
          rw [same, RelativePart.seconds, Int.natCast_mul]
        rw [added]
        split
        next tooFar =>
          constructor
          · nofun
          · rintro ⟨⟨-, -, -, small⟩, -⟩
            have := small (List.cons_ne_nil p parts)
            have := Timestamp.ofInt?_eq_none_iff.1 tooFar
            omega
        next sum reached =>
          have sum_eq := Timestamp.ofInt?_eq_some_iff.1 reached
          have small := sum.toInt_lt
          have bound : (parts ≠ [] → start + p.seconds + totalSeconds parts < 9223372036854775808) ↔
              (p :: parts ≠ [] → start + (p.seconds + totalSeconds parts : Nat) < 9223372036854775808) := by
            cases parts with
            | nil =>
              simp only [ne_eq, not_true_eq_false, false_implies, true_iff, totalSeconds, List.map_nil, List.sum_nil]
              omega
            | cons q parts =>
              simp only [ne_eq, reduceCtorEq, not_false_eq_true, forall_const]
              omega
          have units : (∀ q ∈ parts, q.unit ∉ p.unit :: seen) ↔
              p.unit ∉ parts.map (·.unit) ∧ ∀ q ∈ parts, q.unit ∉ seen := by
            simp only [List.mem_cons, not_or, List.mem_map, not_exists, not_and]
            grind
          rw [ih (by omega), sum_eq, units, bound, List.map_cons, List.nodup_cons, List.forall_mem_cons,
            List.forall_mem_cons, Int.natCast_add, ← Int.add_assoc]
          tauto

/-! ## Reading -/

theorem relative_eq_ok_iff :
    relative text now s = .ok v ↔
      ∃ parts, relativeParts? [] false s = some parts ∧ Names now parts ∧ v.toInt = now.toInt - totalSeconds parts := by
  rw [relative]
  split
  next unread =>
    simp [unread]
  next empty =>
    simp only [reduceCtorEq, empty, Option.some.injEq, exists_eq_left', false_iff]
    exact fun ⟨names, _⟩ => names.filled rfl
  next parts nonempty found =>
    have filled : parts ≠ [] := by
      rintro rfl
      exact nonempty rfl
    simp only [found, Option.some.injEq, exists_eq_left']
    split
    next flaw failed =>
      simp only [reduceCtorEq, false_iff]
      rintro ⟨⟨-, once, words, small, -⟩, -⟩
      have added : addParts text [] 0 parts = .ok (0 + totalSeconds parts) :=
        (addParts_eq_ok_iff (Int.le_refl 0)).2 ⟨⟨once, by simp, words, fun _ => by omega⟩, rfl⟩
      rw [failed] at added
      cases added
    next total added =>
      obtain ⟨⟨once, -, words, small⟩, rfl⟩ := (addParts_eq_ok_iff (Int.le_refl 0)).1 added
      have small := small filled
      have upper := now.toInt_lt
      split
      next tooFar =>
        simp only [reduceCtorEq, false_iff]
        rintro ⟨⟨-, -, -, -, shifted⟩, -⟩
        have := Timestamp.ofInt?_eq_none_iff.1 tooFar
        omega
      next t reached =>
        have same := Timestamp.ofInt?_eq_some_iff.1 reached
        have lower := t.le_toInt
        simp only [Except.ok.injEq]
        constructor
        · rintro rfl
          exact ⟨⟨filled, once, words, by omega, by omega⟩, by omega⟩
        · rintro ⟨-, value⟩
          exact Int64.toInt_inj.1 (by omega)

theorem totalSeconds_perm (perm : parts.Perm parts') : totalSeconds parts = totalSeconds parts' :=
  (perm.map _).sum_nat

theorem Names.perm (names : Names now parts) (perm : parts.Perm parts') : Names now parts' where
  filled empty := names.filled (by simpa [empty] using perm)
  once := (perm.map _).nodup_iff.1 names.once
  words p member := names.words p (perm.mem_iff.2 member)
  total := totalSeconds_perm perm ▸ names.total
  shifted := totalSeconds_perm perm ▸ names.shifted

theorem read_of_minus {s : String} {rest : List Char} (minus : Text.trimChars s.toList = '-' :: rest) :
    read now s = relative (String.ofList ('-' :: rest)) now rest := by
  rw [read, minus]
  rfl

/-- A text behind a minus sign is read if and only if it is a row of groups that name a time before `now`. -/
theorem read_eq_ok_iff {s : String} {rest : List Char} (minus : Text.trimChars s.toList = '-' :: rest) :
    read now s = .ok v ↔
      ∃ groups, rest = row groups ∧ Names now (partsOf groups) ∧ v.toInt = now.toInt - totalSeconds (partsOf groups) := by
  rw [read_of_minus minus, relative_eq_ok_iff]
  constructor
  · rintro ⟨parts, found, names, same⟩
    obtain ⟨groups, -, rowed, rfl⟩ := relativeParts?_eq_some_iff.1 found
    exact ⟨groups, rowed, names, same⟩
  · rintro ⟨groups, rfl, names, same⟩
    have rows : ∀ g ∈ groups, g.IsRow := fun g member => (names.words _ (List.mem_map_of_mem member)).isRow
    exact ⟨_, relativeParts?_row rows, names, same⟩

/-- The outcome of reading groups depends on their parts. -/
theorem read_row_eq_ok_iff {s : String} (minus : Text.trimChars s.toList = '-' :: row groups)
    (rows : ∀ g ∈ groups, g.IsRow) :
    read now s = .ok v ↔ Names now (partsOf groups) ∧ v.toInt = now.toInt - totalSeconds (partsOf groups) := by
  rw [read_of_minus minus, relative_eq_ok_iff, relativeParts?_row rows]
  simp

theorem toOption_eq_of_ok_iff {ε α : Type} {x y : Except ε α} (same : ∀ v, x = .ok v ↔ y = .ok v) :
    x.toOption = y.toOption := by
  cases x with
  | ok v => rw [(same v).1 rfl]
  | error e =>
    cases y with
    | ok v => cases (same v).2 rfl
    | error e' => rfl

/-- The order of the parts does not matter. -/
theorem read_perm {s s' : String} {groups groups' : List RelativeGroup} (perm : groups.Perm groups')
    (rows : ∀ g ∈ groups, g.IsRow) (minus : Text.trimChars s.toList = '-' :: row groups)
    (minus' : Text.trimChars s'.toList = '-' :: row groups') : (read now s').toOption = (read now s).toOption := by
  have rows' : ∀ g ∈ groups', g.IsRow := fun g member => rows g (perm.mem_iff.2 member)
  have partsPerm : (partsOf groups).Perm (partsOf groups') := perm.map _
  refine toOption_eq_of_ok_iff fun v => ?_
  rw [read_row_eq_ok_iff minus' rows', read_row_eq_ok_iff minus rows, totalSeconds_perm partsPerm]
  exact and_congr_left' ⟨fun names => names.perm partsPerm.symm, fun names => names.perm partsPerm⟩

/-- A text behind a minus sign is read if and only if it is a row of groups that name a time before `now`, and that time
is the answer; every other such text is refused as invalid. A search for parts finds those of the row, and the order of
the groups changes neither the answer nor whether there is one. -/
theorem read_relative {s : String} {rest : List Char} (minus : Text.trimChars s.toList = '-' :: rest) :
    (∀ v, read now s = .ok v ↔
      ∃ groups, rest = row groups ∧ Names now (partsOf groups) ∧
        v.toInt = now.toInt - totalSeconds (partsOf groups)) ∧
      ((¬ ∃ groups, rest = row groups ∧ Names now (partsOf groups)) →
        ∃ flaw, read now s = .error flaw ∧ (Failure.refused (.time flaw)).kind = .validation) ∧
      ∀ groups, rest = row groups → (∀ g ∈ groups, g.IsRow) →
        searchParts [] ('-' :: rest) = partsOf groups ∧
          ∀ s' groups', groups.Perm groups' → Text.trimChars s'.toList = '-' :: row groups' →
            (read now s').toOption = (read now s).toOption := by
  refine ⟨fun v => read_eq_ok_iff minus, fun nameless => ?_, ?_⟩
  · cases outcome : read now s with
    | error flaw => exact ⟨flaw, rfl, rfl⟩
    | ok v =>
      obtain ⟨groups, rowed, names, -⟩ := (read_eq_ok_iff minus).1 outcome
      exact absurd ⟨groups, rowed, names⟩ nameless
  · rintro groups rfl rows
    have searched : searchParts [] (row groups) = partsOf groups :=
      searchParts_eq (relativeParts?_eq_some_iff.2 ⟨groups, rows, rfl, rfl⟩)
    exact ⟨searched, fun s' groups' perm minus' => read_perm perm rows minus minus'⟩

/-- Fifteen days, four hours and five minutes, in two orders. -/
theorem read_relative_two_orders :
    let groups : List RelativeGroup :=
      [⟨⟨['1', '5'], .day⟩, true⟩, ⟨⟨['0', '4'], .hour⟩, true⟩, ⟨⟨['0', '5'], .minute⟩, false⟩]
    Text.trimChars "-15d:04h:05m".toList = '-' :: row groups ∧
      read 0 "-15d:04h:05m" = .ok (-1310700) ∧
      (read 0 " -05m04h:15d:").toOption = (read 0 "-15d:04h:05m").toOption := by
  intro groups
  have minus : Text.trimChars "-15d:04h:05m".toList = '-' :: row groups := by decide +kernel
  have read := @read_relative 0 _ _ minus
  have words : ∀ p ∈ partsOf groups, p.IsWord := by
    intro p member
    have cases : p = ⟨['1', '5'], .day⟩ ∨ p = ⟨['0', '4'], .hour⟩ ∨ p = ⟨['0', '5'], .minute⟩ := by
      simpa [groups, partsOf] using member
    rcases cases with rfl | rfl | rfl <;> exact ⟨by decide, List.all_eq_true.1 rfl, by decide⟩
  have names : Names 0 (partsOf groups) := ⟨by decide, by decide, words, by decide, by decide⟩
  have rows : ∀ g ∈ groups, g.IsRow := fun g member => (words _ (List.mem_map_of_mem member)).isRow
  exact ⟨minus, (read.1 _).2 ⟨groups, rfl, names, by decide⟩,
    (read.2.2 groups rfl rows).2 " -05m04h:15d:" groups.reverse groups.reverse_perm.symm (by decide +kernel)⟩

end TimeArgument

end FlowArchive
