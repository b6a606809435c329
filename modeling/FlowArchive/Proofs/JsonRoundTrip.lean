import FlowArchive.Json.Basic
import FlowArchive.Json.Reader
import FlowArchive.Proofs.Digits

/-!
# Reading what was printed

Strings, integers and objects that are printed in a document are read back from the front of whatever follows
them. What follows an integer must not begin with a digit; in a document it never does.
-/

namespace FlowArchive.JsonReader

open Decimal (isDigit_of_mem_digits head_digits first_digit)
open Json (printString escapeChar printAt printMember printMembers newLine)

variable {σ : Type} {s rest : Bytes} {level : Nat}

/-! ## Bytes of characters -/

theorem ofChars_cons (c : Char) (s : List Char) :
    Bytes.ofChars (c :: s) = String.utf8EncodeChar c ++ Bytes.ofChars s := rfl

theorem encode_ascii {c : Char} (small : c.toNat < 128) : String.utf8EncodeChar c = [ascii c] := by
  have low : c.val.toNat ≤ 127 := by
    have : c.toNat = c.val.toNat := rfl
    omega
  simp only [String.utf8EncodeChar, low, if_true]
  rfl

theorem encode_large {c : Char} (large : 128 ≤ c.toNat) : ∀ b ∈ String.utf8EncodeChar c, 128 ≤ b.toNat := by
  have high : ¬ c.val.toNat ≤ 127 := by
    have : c.toNat = c.val.toNat := rfl
    omega
  have byte : ∀ n m : Nat, 128 ≤ m → m + n < 256 → 128 ≤ (UInt8.ofNat (n + m)).toNat := by
    intro n m low fits
    rw [UInt8.toNat_ofNat_of_lt' (by simp only [UInt8.size]; omega)]
    omega
  intro b member
  simp only [String.utf8EncodeChar, high, if_false] at member
  split at member
  · simp only [List.mem_cons, List.not_mem_nil, or_false] at member
    rcases member with rfl | rfl <;> exact byte _ _ (by omega) (by omega)
  · split at member
    · simp only [List.mem_cons, List.not_mem_nil, or_false] at member
      rcases member with rfl | rfl | rfl <;> exact byte _ _ (by omega) (by omega)
    · simp only [List.mem_cons, List.not_mem_nil, or_false] at member
      rcases member with rfl | rfl | rfl | rfl <;> exact byte _ _ (by omega) (by omega)

/-! ## Marks -/

theorem mark_blank {c : Char} {b : UInt8} (blank : isBlank b = true) (s : Bytes) : mark c (b :: s) = mark c s := by
  rw [mark, skipBlanks, List.dropWhile_cons_of_pos blank]
  rfl

theorem mark_here {c : Char} {b : UInt8} (solid : isBlank b = false) (s : Bytes) : mark c (b :: s) =
    if b = ascii c then some ((), s) else none := by
  rw [mark, skipBlanks, List.dropWhile_cons_of_neg (by simp [solid])]
  rfl

theorem ofChars_newLine (level : Nat) : Bytes.ofChars (newLine level) =
    ascii '\n' :: List.replicate (2 * level) (ascii ' ') := by
  have blanks : ∀ n, Bytes.ofChars (List.replicate n ' ') = List.replicate n (ascii ' ') := by
    intro n
    induction n with
    | zero => rfl
    | succ n ih => rw [List.replicate_succ, ofChars_cons, ih]; rfl
  rw [newLine, ofChars_cons, blanks]
  rfl

/-- New lines before a mark are skipped. -/
theorem mark_newLine (c : Char) (level : Nat) (s : Bytes) : mark c (Bytes.ofChars (newLine level) ++ s) = mark c s := by
  have blanks : ∀ n, mark c (List.replicate n (ascii ' ') ++ s) = mark c s := by
    intro n
    induction n with
    | zero => rfl
    | succ n ih => rw [List.replicate_succ, List.cons_append, mark_blank (by decide), ih]
  rw [ofChars_newLine, List.cons_append, mark_blank (by decide), blanks]

/-! ## Strings -/

/-- The elements that the spelling of a character is read as. -/
def elementsOf (c : Char) : List Element :=
  if c.toNat < 32 ∧ c ∉ ['\x08', '\x0c', '\n', '\r', '\t'] then [.word c.toNat]
  else (String.utf8EncodeChar c).map .byte

theorem elements_byte {b : UInt8} (quote : b ≠ ascii '"') (slash : b ≠ ascii '\\') (visible : ¬ b < 32) :
    elements (b :: s) = (elements s).map fun p => (.byte b :: p.1, p.2) := by
  rw [elements.eq_def]
  simp only [if_neg quote, if_neg slash, if_neg visible]

theorem elements_bytes {bs : Bytes} (plain : ∀ b ∈ bs, b ≠ ascii '"' ∧ b ≠ ascii '\\' ∧ ¬ b < 32) :
    elements (bs ++ s) = (elements s).map fun p => (bs.map .byte ++ p.1, p.2) := by
  induction bs with
  | nil => cases found : elements s <;> simp [found]
  | cons b bs ih =>
    obtain ⟨quote, slash, visible⟩ := plain b List.mem_cons_self
    rw [List.cons_append, elements_byte quote slash visible, ih fun a later => plain a (List.mem_cons_of_mem _ later),
      Option.map_map]
    rfl

theorem hexWord_hexPlaces : ∀ n < 32, hexWord? (Bytes.ofChars (Json.hexPlaces (Char.ofNat n))) = some n ∧
    (Bytes.ofChars (Json.hexPlaces (Char.ofNat n))).length = 4 := by decide +kernel

theorem elements_control {c : Char} (control : c.toNat < 32) :
    elements (Bytes.ofChars (['\\', 'u'] ++ Json.hexPlaces c) ++ s) =
      (elements s).map fun p => (.word c.toNat :: p.1, p.2) := by
  obtain ⟨word, length⟩ := hexWord_hexPlaces c.toNat control
  rw [Char.ofNat_toNat] at word length
  obtain ⟨d₁, d₂, d₃, d₄, four⟩ : ∃ d₁ d₂ d₃ d₄, Bytes.ofChars (Json.hexPlaces c) = [d₁, d₂, d₃, d₄] := by
    match Bytes.ofChars (Json.hexPlaces c), length with
    | [d₁, d₂, d₃, d₄], _ => exact ⟨d₁, d₂, d₃, d₄, rfl⟩
  rw [four] at word
  have front : Bytes.ofChars (['\\', 'u'] ++ Json.hexPlaces c) ++ s =
      ascii '\\' :: ascii 'u' :: d₁ :: d₂ :: d₃ :: d₄ :: s := by
    rw [Bytes.ofChars_append, four]
    rfl
  rw [front, elements.eq_def]
  simp only [if_neg (show ascii '\\' ≠ ascii '"' by decide), if_true, word, Option.bind_some]

theorem elements_short {e b : UInt8} (escape : shortEscape? e = some b) (notWord : e ≠ ascii 'u') :
    elements (ascii '\\' :: e :: s) = (elements s).map fun p => (.byte b :: p.1, p.2) := by
  rw [elements.eq_def]
  simp only [if_neg (show ascii '\\' ≠ ascii '"' by decide), if_true, if_neg notWord, escape, Option.bind_some]

theorem ascii_ne {c q : Char} (small : c.toNat < 128) (small' : q.toNat < 128) (apart : c ≠ q) :
    ascii c ≠ ascii q := by
  intro same
  have numbers := congrArg UInt8.toNat same
  simp only [ascii] at numbers
  rw [UInt8.toNat_ofNat_of_lt' (by simp only [UInt8.size]; omega),
    UInt8.toNat_ofNat_of_lt' (by simp only [UInt8.size]; omega)] at numbers
  exact apart (Char.toNat_inj.1 numbers)

/-- The bytes of a visible character need no escape. -/
theorem plain_bytes {c : Char} (visible : ¬ c.toNat < 32) (quote : c ≠ '"') (slash : c ≠ '\\') :
    ∀ b ∈ String.utf8EncodeChar c, b ≠ ascii '"' ∧ b ≠ ascii '\\' ∧ ¬ b < 32 := by
  intro b member
  by_cases small : c.toNat < 128
  · rw [encode_ascii small, List.mem_singleton] at member
    subst member
    refine ⟨ascii_ne small (by decide) quote, ascii_ne small (by decide) slash, fun below => visible ?_⟩
    have number := UInt8.lt_iff_toNat_lt.1 below
    rw [ascii, UInt8.toNat_ofNat_of_lt' (by simp only [UInt8.size]; omega)] at number
    exact number
  · have large := encode_large (by omega) b member
    refine ⟨?_, ?_, fun below => ?_⟩
    · rintro rfl
      exact absurd large (by decide)
    · rintro rfl
      exact absurd large (by decide)
    · have number : b.toNat < 32 := UInt8.lt_iff_toNat_lt.1 below
      omega

/-- The spelling of a character is read as its elements. -/
theorem elements_escapeChar (c : Char) (s : Bytes) :
    elements (Bytes.ofChars (escapeChar c) ++ s) = (elements s).map fun p => (elementsOf c ++ p.1, p.2) := by
  unfold escapeChar
  split
  · exact elements_short (e := ascii '"') (by decide) (by decide)
  · exact elements_short (e := ascii '\\') (by decide) (by decide)
  · exact elements_short (e := ascii 'b') (by decide) (by decide)
  · exact elements_short (e := ascii 'f') (by decide) (by decide)
  · exact elements_short (e := ascii 'n') (by decide) (by decide)
  · exact elements_short (e := ascii 'r') (by decide) (by decide)
  · exact elements_short (e := ascii 't') (by decide) (by decide)
  next quote slash back feed line return_ tab =>
    split
    next control =>
      have own : elementsOf c = [.word c.toNat] := by
        rw [elementsOf, if_pos]
        simp_all
      rw [elements_control control, own]
      rfl
    next visible =>
      have own : elementsOf c = (String.utf8EncodeChar c).map .byte := by
        rw [elementsOf, if_neg fun control => visible control.1]
      have bytes : Bytes.ofChars [c] = String.utf8EncodeChar c := by simp [Bytes.ofChars]
      rw [own, bytes, elements_bytes (plain_bytes visible quote slash)]

theorem spelled_bytes (bs : Bytes) (es : List Element) :
    spelled? (bs.map .byte ++ es) = (spelled? es).map (bs ++ ·) := by
  induction bs with
  | nil => cases found : spelled? es <;> simp [found]
  | cons b bs ih =>
    rw [List.map_cons, List.cons_append, spelled?, ih, Option.map_map]
    rfl

/-- The elements of a character spell it. -/
theorem spelled_elementsOf (c : Char) (es : List Element) :
    spelled? (elementsOf c ++ es) = (spelled? es).map (String.utf8EncodeChar c ++ ·) := by
  unfold elementsOf
  split
  next control =>
    have notLeading : isLeading c.toNat = false := by simp [isLeading]; omega
    have notTrailing : isTrailing c.toNat = false := by simp [isTrailing]; omega
    rw [List.singleton_append, spelled?.eq_def]
    simp [notLeading, notTrailing, Char.ofNat_toNat]
  · exact spelled_bytes _ es

theorem elements_text (cs : List Char) (s : Bytes) :
    elements (Bytes.ofChars (cs.flatMap escapeChar) ++ ascii '"' :: s) = some (cs.flatMap elementsOf, s) := by
  induction cs with
  | nil =>
    rw [List.flatMap_nil, List.flatMap_nil, Bytes.ofChars, List.flatMap_nil, List.nil_append, elements.eq_def]
    simp
  | cons c cs ih =>
    rw [List.flatMap_cons, Bytes.ofChars_append, List.append_assoc, elements_escapeChar, ih]
    rfl

theorem spelled_text (cs : List Char) : spelled? (cs.flatMap elementsOf) = some (Bytes.ofChars cs) := by
  induction cs with
  | nil => rfl
  | cons c cs ih =>
    rw [List.flatMap_cons, spelled_elementsOf, ih]
    rfl

theorem readString_printString (t : String) (rest : Bytes) :
    readString (Bytes.ofChars (printString t) ++ rest) = some (t, rest) := by
  have text : Bytes.ofChars (printString t) ++ rest =
      ascii '"' :: (Bytes.ofChars (t.toList.flatMap escapeChar) ++ ascii '"' :: rest) := by
    rw [printString, Bytes.ofChars_append, Bytes.ofChars_append, List.append_assoc, List.append_assoc]
    rfl
  have read : stringElements (Bytes.ofChars (printString t) ++ rest) = some (t.toList.flatMap elementsOf, rest) := by
    rw [stringElements, text, mark_here (by decide), if_pos rfl]
    exact elements_text _ _
  rw [readString, read, Option.bind_some, spelled_text, Option.bind_some, Bytes.toText?_ofChars, String.ofList_toList]
  rfl

/-! ## Integers -/

/-- What follows does not begin with a digit. -/
def Stops (rest : Bytes) : Prop := ∀ b ∈ rest.head?, isDigit b = false

theorem charOf_ascii {c : Char} (small : c.toNat < 128) : charOf (ascii c) = c := by
  rw [charOf, ascii, UInt8.toNat_ofNat_of_lt' (by simp only [UInt8.size]; omega), Char.ofNat_toNat]

theorem small_of_isDigit {c : Char} (digit : Decimal.isDigit c = true) : c.toNat < 128 := by
  simp only [Decimal.isDigit, Bool.and_eq_true, decide_eq_true_eq] at digit
  have bound : c.toNat ≤ '9'.toNat := digit.2
  have nine : '9'.toNat = 57 := rfl
  omega

theorem ofChars_of_ascii {cs : List Char} (small : ∀ c ∈ cs, c.toNat < 128) : Bytes.ofChars cs = cs.map ascii := by
  induction cs with
  | nil => rfl
  | cons c cs ih =>
    rw [ofChars_cons, encode_ascii (small c List.mem_cons_self), ih fun a later => small a (List.mem_cons_of_mem _ later)]
    rfl

theorem ofChars_digits (n : Nat) : Bytes.ofChars (Decimal.digits n) = (Decimal.digits n).map ascii :=
  ofChars_of_ascii fun _ member => small_of_isDigit (isDigit_of_mem_digits member)

theorem digits_printed (n : Nat) (stops : Stops rest) :
    digits (Bytes.ofChars (Decimal.digits n) ++ rest) = some (Decimal.digits n, rest) := by
  have shown : ∀ b ∈ (Decimal.digits n).map ascii, isDigit b = true := by
    intro b member
    obtain ⟨c, listed, rfl⟩ := List.mem_map.1 member
    rw [isDigit, charOf_ascii (small_of_isDigit (isDigit_of_mem_digits listed))]
    exact isDigit_of_mem_digits listed
  have nothing : rest.takeWhile isDigit = [] ∧ rest.dropWhile isDigit = rest := by
    cases rest with
    | nil => exact ⟨rfl, rfl⟩
    | cons b rest => simp [List.takeWhile, List.dropWhile, stops b rfl]
  have back : ((Decimal.digits n).map ascii).map charOf = Decimal.digits n := by
    rw [List.map_map]
    refine (List.map_congr_left fun c member => ?_).trans (List.map_id _)
    exact charOf_ascii (small_of_isDigit (isDigit_of_mem_digits member))
  have filled : ((Decimal.digits n).map ascii).isEmpty = false := by simp [Decimal.digits_ne_nil]
  rw [digits, ofChars_digits, List.takeWhile_append_of_pos shown, List.dropWhile_append_of_pos shown, nothing.1,
    nothing.2, List.append_nil, filled, back]
  rfl

theorem plainDigits_printed (n : Nat) (stops : Stops rest) :
    plainDigits (Bytes.ofChars (Decimal.digits n) ++ rest) = some (Decimal.digits n, rest) := by
  rw [plainDigits, digits_printed n stops, Option.filter_some]
  refine if_pos ?_
  by_cases zero : n = 0
  · subst zero
    simp [Decimal.digits]
  · simp [head_digits zero]

theorem readInt_blank {b : UInt8} (blank : isBlank b = true) (s : Bytes) : readInt (b :: s) = readInt s := by
  rw [readInt, readInt, skipBlanks, List.dropWhile_cons_of_pos blank]
  rfl

/-- A solid byte in front stops the search for blanks. -/
theorem skipBlanks_solid {b : UInt8} (solid : isBlank b = false) (s : Bytes) : skipBlanks (b :: s) = b :: s := by
  rw [skipBlanks, List.dropWhile_cons_of_neg (by simp [solid])]

theorem isBlank_digit {c : Char} (digit : Decimal.isDigit c = true) : isBlank (ascii c) = false := by
  have small := small_of_isDigit digit
  have apart : ∀ q ∈ [' ', '\n', '\t', '\r'], ascii c ≠ ascii q := by
    intro q listed
    refine ascii_ne small ?_ ?_
    · simp only [List.mem_cons, List.not_mem_nil, or_false] at listed
      rcases listed with rfl | rfl | rfl | rfl <;> decide
    · rintro rfl
      simp only [List.mem_cons, List.not_mem_nil, or_false] at listed
      rcases listed with rfl | rfl | rfl | rfl <;> exact absurd digit (by decide)
  simp [isBlank, apart]

theorem readInt_printInt (i : Int) (stops : Stops rest) :
    readInt (Bytes.ofChars (Decimal.printInt i) ++ rest) = some (i, rest) := by
  obtain ⟨c, s, shown, digit⟩ := first_digit i.natAbs
  have front : Bytes.ofChars (Decimal.digits i.natAbs) ++ rest = ascii c :: (s.map ascii ++ rest) := by
    rw [ofChars_digits, shown]
    rfl
  by_cases negative : i < 0
  · have text : Bytes.ofChars (Decimal.printInt i) ++ rest =
        ascii '-' :: (Bytes.ofChars (Decimal.digits i.natAbs) ++ rest) := by
      rw [Decimal.printInt, if_pos negative, ofChars_cons]
      rfl
    have positive : i.natAbs ≠ 0 := by omega
    rw [readInt, text, skipBlanks_solid (by decide)]
    simp only [minus, char, if_true, Option.bind_eq_bind, Option.bind_some, plainDigits_printed _ stops,
      Decimal.value_digits, if_neg positive]
    congr 2
    omega
  · have unsigned : ascii c ≠ ascii '-' := by
      refine ascii_ne (small_of_isDigit digit) (by decide) ?_
      rintro rfl
      exact absurd digit (by decide)
    have plain := plainDigits_printed i.natAbs stops
    rw [readInt, Decimal.printInt, if_neg negative, front, skipBlanks_solid (isBlank_digit digit)]
    rw [front] at plain
    simp only [minus, char, if_neg unsigned, Option.bind_eq_bind, Option.bind_some, plain, Decimal.value_digits,
      Bool.false_eq_true, if_false]
    congr 2
    omega

theorem readUInt64_printed (n : UInt64) (stops : Stops rest) :
    readUInt64 (ascii ' ' :: (Bytes.ofChars (printAt level (.natural n.toNat)) ++ rest)) = some (n, rest) := by
  have bound := n.toNat_lt
  have fits : 0 ≤ (n.toNat : Int) ∧ (n.toNat : Int) < 18446744073709551616 := by omega
  rw [readUInt64, readInt_blank (by decide), Json.natural, printAt, readInt_printInt _ stops, Option.bind_some,
    if_pos fits]
  simp

theorem readInt64_printed (i : Int64) (stops : Stops rest) :
    readInt64 (ascii ' ' :: (Bytes.ofChars (printAt level (.integer i.toInt)) ++ rest)) = some (i, rest) := by
  have fits : -9223372036854775808 ≤ i.toInt ∧ i.toInt < 9223372036854775808 := ⟨i.le_toInt, i.toInt_lt⟩
  rw [readInt64, readInt_blank (by decide), printAt, readInt_printInt _ stops, Option.bind_some, if_pos fits]
  simp

/-! ## Objects -/

/-- A reader of members takes the printed members of an object one after the other, from one state to another. -/
inductive Takes (member : String → σ → JsonReader σ) (level : Nat) : σ → List (String × Json) → σ → Prop where
  | nil (state : σ) : Takes member level state [] state
  | cons {state next final : σ} {name : String} {value : Json} {others : List (String × Json)}
      (one : ∀ rest, Stops rest →
        member name state (ascii ' ' :: (Bytes.ofChars (printAt level value) ++ rest)) = some (next, rest))
      (more : Takes member level next others final) : Takes member level state ((name, value) :: others) final

/-- How an object reads one of its members. -/
def memberItem (member : String → σ → JsonReader σ) (state : σ) : JsonReader σ := fun s => do
  let (name, s) ← readString s
  let ((), s) ← mark ':' s
  member name state s

theorem readString_newLine (level : Nat) (s : Bytes) :
    readString (Bytes.ofChars (newLine level) ++ s) = readString s := by
  rw [readString, readString, stringElements, stringElements, mark_newLine]

theorem stops_newLine (level : Nat) (s : Bytes) : Stops (Bytes.ofChars (newLine level) ++ s) := by
  rw [ofChars_newLine]
  rintro b ⟨⟩
  decide

theorem stops_members (level lower : Nat) (members : List (String × Json)) (s : Bytes) :
    Stops (Bytes.ofChars (printMembers level members) ++ (Bytes.ofChars (newLine lower) ++ s)) := by
  cases members with
  | nil =>
    have nothing : Bytes.ofChars (printMembers level []) = [] := by simp [printMembers, Bytes.ofChars]
    rw [nothing, List.nil_append]
    exact stops_newLine _ _
  | cons m others =>
    rw [printMembers, List.append_assoc, List.cons_append, ofChars_cons]
    rintro b ⟨⟩
    decide

theorem length_printMembers (level : Nat) (members : List (String × Json)) :
    members.length ≤ (Bytes.ofChars (printMembers level members)).length := by
  induction members with
  | nil => exact Nat.zero_le _
  | cons m others ih =>
    have comma : (String.utf8EncodeChar ',').length = 1 := by decide
    rw [printMembers, List.append_assoc, List.cons_append, ofChars_cons, Bytes.ofChars_append, Bytes.ofChars_append]
    simp only [List.length_append, List.length_cons, comma]
    omega

theorem memberItem_printed {member : String → σ → JsonReader σ} {state next : σ} {name : String}
    {value : Json} (one : ∀ rest, Stops rest →
      member name state (ascii ' ' :: (Bytes.ofChars (printAt level value) ++ rest)) = some (next, rest))
    (stops : Stops rest) : memberItem member state
      (Bytes.ofChars (newLine level) ++ (Bytes.ofChars (printMember level (name, value)) ++ rest)) =
        some (next, rest) := by
  have parts : Bytes.ofChars (printMember level (name, value)) ++ rest = Bytes.ofChars (printString name) ++
      (ascii ':' :: ascii ' ' :: (Bytes.ofChars (printAt level value) ++ rest)) := by
    rw [printMember, Bytes.ofChars_append, List.append_assoc]
    rfl
  rw [memberItem, readString_newLine, parts, readString_printString]
  simp only [Option.bind_eq_bind, Option.bind_some]
  rw [mark_here (by decide), if_pos rfl, Option.bind_some]
  exact one rest stops

theorem moreItems_printed {member : String → σ → JsonReader σ} {level lower rounds : Nat} {state final : σ}
    {members : List (String × Json)} (takes : Takes member level state members final)
    (enough : members.length < rounds) :
    moreItems '\x7d' (memberItem member) rounds state (Bytes.ofChars (printMembers level members) ++
      (Bytes.ofChars (newLine lower) ++ ascii '\x7d' :: rest)) = some (final, rest) := by
  induction takes generalizing rounds with
  | nil state =>
    obtain ⟨rounds, rfl⟩ : ∃ n, rounds = n + 1 := ⟨rounds - 1, by simp at enough; omega⟩
    have nothing : Bytes.ofChars (printMembers level []) = [] := by simp [printMembers, Bytes.ofChars]
    rw [nothing, List.nil_append, moreItems, mark_newLine, mark_here (by decide), if_pos rfl]
  | @cons state next final name value others one more ih =>
    obtain ⟨rounds, rfl⟩ : ∃ n, rounds = n + 1 := ⟨rounds - 1, by simp at enough; omega⟩
    have parts : Bytes.ofChars (printMembers level ((name, value) :: others)) = ascii ',' ::
        (Bytes.ofChars (newLine level) ++ (Bytes.ofChars (printMember level (name, value)) ++
          Bytes.ofChars (printMembers level others))) := by
      rw [printMembers, List.append_assoc, List.cons_append, ofChars_cons, Bytes.ofChars_append, Bytes.ofChars_append]
      rfl
    have here := memberItem_printed one (stops_members level lower others (ascii '\x7d' :: rest))
    simp only [List.length_cons] at enough
    rw [parts, List.cons_append, moreItems, mark_here (by decide), if_neg (by decide)]
    simp only [mark_here (show isBlank (ascii ',') = false by decide), if_true, Option.bind_eq_bind, Option.bind_some,
      List.append_assoc, here]
    exact ih (by omega)

/-- An object that was printed is read back, if its members are. -/
theorem object_printed {member : String → σ → JsonReader σ} {init final : σ}
    {members : List (String × Json)} (takes : Takes member (level + 1) init members final) :
    object member init (Bytes.ofChars (printAt level (.object members)) ++ rest) = some (final, rest) := by
  show items '\x7b' '\x7d' (memberItem member) init _ = _
  cases takes with
  | nil =>
    have text : Bytes.ofChars (printAt level (.object [])) ++ rest = ascii '\x7b' :: ascii '\x7d' :: rest := by
      rw [printAt]
      rfl
    rw [text, items, mark_here (by decide), if_pos rfl]
    simp only [Option.bind_eq_bind, Option.bind_some]
    rw [mark_here (by decide), if_pos rfl]
  | @cons _ next _ name value others one more =>
    have text : Bytes.ofChars (printAt level (.object ((name, value) :: others))) ++ rest = ascii '\x7b' ::
        (Bytes.ofChars (newLine (level + 1)) ++ (Bytes.ofChars (printMember (level + 1) (name, value)) ++
          (Bytes.ofChars (printMembers (level + 1) others) ++
            (Bytes.ofChars (newLine level) ++ ascii '\x7d' :: rest)))) := by
      have close : Bytes.ofChars ['\x7d'] = [ascii '\x7d'] := rfl
      rw [printAt, List.cons_append, List.cons_append, List.cons_append, List.cons_append, ofChars_cons,
        Bytes.ofChars_append, Bytes.ofChars_append, Bytes.ofChars_append, Bytes.ofChars_append, close]
      simp only [List.append_assoc]
      rfl
    have quoted : ∀ behind, mark '\x7d' (Bytes.ofChars (printMember (level + 1) (name, value)) ++ behind) = none := by
      intro behind
      have front : ∃ more, Bytes.ofChars (printMember (level + 1) (name, value)) ++ behind = ascii '"' :: more := by
        rw [printMember, printString]
        exact ⟨_, rfl⟩
      obtain ⟨more, front⟩ := front
      rw [front, mark_here (by decide), if_neg (by decide)]
    have here := memberItem_printed one (stops_members (level + 1) level others (ascii '\x7d' :: rest))
    have enough := length_printMembers (level + 1) others
    rw [text, items, mark_here (by decide), if_pos rfl]
    simp only [Option.bind_eq_bind, Option.bind_some, mark_newLine, quoted, here]
    refine moreItems_printed more ?_
    simp only [List.length_append, List.length_cons]
    omega

end FlowArchive.JsonReader
