import FlowArchive.Address.Text
import FlowArchive.Proofs.Digits

/-!
# The text of an address is read back

Every address of either version is read back from its text. No text of the sixth version begins with one of the fourth,
and the groups of a text are told from an address of the fourth version at its end by the point behind the first number.
-/

namespace FlowArchive

variable {n : Nat} {rest s : List Char} {c : Char}

/-! ## Hexadecimal numbers -/

namespace Text

theorem hexValue?_digitChar {d : Nat} (small : d < 16) : hexValue? (Nat.digitChar d) = some d :=
  (by decide : ∀ d < 16, hexValue? (Nat.digitChar d) = some d) d small

theorem hexDigits_ne_nil (n : Nat) : hexDigits n ≠ [] := by
  rw [hexDigits]
  split <;> simp

theorem exists_digitChar_of_mem (member : c ∈ hexDigits n) : ∃ d < 16, c = Nat.digitChar d := by
  fun_induction hexDigits n with
  | case1 n small => exact ⟨n, small, List.mem_singleton.1 member⟩
  | case2 n large ih =>
    rcases List.mem_append.1 member with front | last
    · exact ih front
    · exact ⟨n % 16, Nat.mod_lt n (by decide), List.mem_singleton.1 last⟩

theorem isHex_of_mem (member : c ∈ hexDigits n) : (hexValue? c).isSome = true := by
  obtain ⟨d, small, rfl⟩ := exists_digitChar_of_mem member
  rw [hexValue?_digitChar small]
  rfl

theorem hexNumber_hexDigits (n : Nat) : hexNumber (hexDigits n) = n := by
  fun_induction hexDigits n with
  | case1 n small => simp [hexNumber, hexValue?_digitChar small]
  | case2 n large ih =>
    have last := hexValue?_digitChar (show n % 16 < 16 by omega)
    rw [hexNumber] at ih ⊢
    rw [List.foldl_append, ih, List.foldl_cons, List.foldl_nil, last, Option.getD_some]
    omega

theorem length_hexDigits_le {places : Nat} (positive : 0 < places) (small : n < 16 ^ places) :
    (hexDigits n).length ≤ places := by
  fun_induction hexDigits n generalizing places with
  | case1 n short => exact positive
  | case2 n long ih =>
    obtain ⟨k, rfl⟩ : ∃ k, places = k + 1 := ⟨places - 1, by omega⟩
    have more : 0 < k := by
      rcases Nat.eq_zero_or_pos k with rfl | more
      · omega
      · exact more
    have front := ih more (by rw [Nat.pow_succ] at small; omega)
    simpa using front

end Text

namespace Address

variable {zeros : Zeros} {room : Nat} {g : Nat} {gs : List Nat}

open FlowArchive.Text

@[simp] theorem char_self (c : Char) (rest : List Char) : char c (c :: rest) = some ((), rest) := if_pos rfl

/-! ## The fourth version -/

/-- A printed octet is read, with leading zeros allowed or not. -/
theorem readOctet_digits (small : n < 256) (stops : ∀ c ∈ rest.head?, Decimal.isDigit c = false) :
    readOctet zeros (Decimal.digits n ++ rest) = some (n, rest) := by
  obtain ⟨taken, left⟩ := Decimal.takeWhile_digits (n := n) stops
  have short := Decimal.length_digits_le (n := n) (by decide : 0 < 3) (Nat.lt_trans small (by decide))
  have plain : ¬ ((Decimal.digits n).head? = some '0' ∧ 1 < (Decimal.digits n).length) := by
    rintro ⟨zero, long⟩
    by_cases none : n = 0
    · rw [none, Decimal.digits, if_pos (by decide)] at long
      simp at long
    · exact Decimal.head_digits none zero
  have fits : ((Decimal.digits n).isEmpty || decide (3 < (Decimal.digits n).length) || decide (255 < n)) = false := by
    simp [Decimal.digits_ne_nil, Nat.le_of_lt_succ small, short]
  have allowed : (decide (zeros = .plain) && decide ((Decimal.digits n).head? = some '0') &&
      decide (1 < (Decimal.digits n).length)) = false := by
    rw [Bool.and_assoc, ← Bool.decide_and, decide_eq_false plain, Bool.and_false]
  simp only [readOctet, taken, left, Decimal.value_digits, fits, allowed, Bool.false_eq_true, if_false]

/-- What does not go on with a point behind its first digits is no address of the fourth version. -/
theorem readV4_of_noPoint (noPoint : (s.dropWhile Decimal.isDigit).head? ≠ some '.') : readV4 zeros s = none := by
  rw [readV4]
  cases octet : readOctet zeros s with
  | none => rfl
  | some r =>
    have left : r.2 = s.dropWhile Decimal.isDigit := by
      unfold readOctet at octet
      dsimp only at octet
      split at octet
      · cases octet
      · split at octet
        · cases octet
        · cases octet
          rfl
    have stopped : char '.' r.2 = none := by
      rw [left]
      cases behind : s.dropWhile Decimal.isDigit with
      | nil => rfl
      | cons d tail =>
        rw [behind] at noPoint
        exact if_neg fun same => noPoint (by rw [same]; rfl)
    simp only [Option.bind_eq_bind, Option.bind_some, stopped, Option.bind_none]

theorem not_isDigit_head (c : Char) (other : Decimal.isDigit c = false) (rest : List Char) :
    ∀ d ∈ (c :: rest).head?, Decimal.isDigit d = false := by
  rintro d ⟨⟩
  exact other

theorem readV4_printV4 (bits : BitVec 32) (stops : ∀ c ∈ rest.head?, Decimal.isDigit c = false) :
    readV4 zeros (printV4 bits ++ rest) = some (bits, rest) := by
  have octet (k : Nat) : bits.toNat / Nat.pow 256 k % 256 < 256 := Nat.mod_lt _ (by decide)
  have point (k : Nat) (s : List Char) :
      readOctet zeros (Decimal.digits (bits.toNat / Nat.pow 256 k % 256) ++ '.' :: s) =
        some (bits.toNat / Nat.pow 256 k % 256, '.' :: s) :=
    readOctet_digits (octet k) (not_isDigit_head '.' (by decide) s)
  have last : readOctet zeros (Decimal.digits (bits.toNat / Nat.pow 256 0 % 256) ++ rest) =
      some (bits.toNat / Nat.pow 256 0 % 256, rest) := readOctet_digits (octet 0) stops
  have bound := bits.isLt
  simp only [readV4, printV4, List.append_assoc, List.cons_append, List.nil_append, point, last, char_self,
    Option.bind_eq_bind, Option.bind_some]
  congr 2
  apply BitVec.eq_of_toNat_eq
  rw [BitVec.toNat_ofNat]
  simp only [Nat.pow_eq, Nat.reducePow]
  omega

theorem readV4_printV4_alone (bits : BitVec 32) : readV4 zeros (printV4 bits) = some (bits, []) := by
  have read : readV4 zeros (printV4 bits ++ []) = some (bits, []) := readV4_printV4 bits (by simp)
  rwa [List.append_nil] at read

/-! ## Groups -/

/-- What stands behind a group: nothing, or a colon. -/
def IsBehindGroup (s : List Char) : Prop := ∀ c ∈ s.head?, c = ':'

theorem readGroup_hexDigits (small : g < 65536) (behind : IsBehindGroup rest) :
    readGroup (hexDigits g ++ rest) = some (g, rest) := by
  have shown : ∀ c ∈ hexDigits g, (hexValue? c).isSome = true := fun _ => isHex_of_mem
  have nothing : rest.takeWhile (fun c => (hexValue? c).isSome) = [] := by
    cases rest with
    | nil => rfl
    | cons c rest =>
      rw [behind c rfl]
      rfl
  have short := length_hexDigits_le (n := g) (by decide : 0 < 4) (Nat.lt_of_lt_of_le small (by decide))
  have fits : ((hexDigits g).isEmpty || decide (4 < (hexDigits g).length)) = false := by
    simp [hexDigits_ne_nil, short]
  simp only [readGroup, List.takeWhile_append_of_pos shown, nothing, List.append_nil, fits, Bool.false_eq_true,
    if_false, hexNumber_hexDigits, List.drop_left]

/-- A group has no point behind its first digits. -/
theorem noPoint_hexDigits (g : Nat) (behind : IsBehindGroup rest) :
    ((hexDigits g ++ rest).dropWhile Decimal.isDigit).head? ≠ some '.' := by
  rw [List.dropWhile_append]
  split
  · cases rest with
    | nil => simp
    | cons c rest =>
      rw [behind c rfl]
      simp [Decimal.isDigit]
  next left =>
    obtain ⟨c, tail, shown⟩ := List.exists_cons_of_ne_nil fun none => left (List.isEmpty_iff.2 none)
    have member : c ∈ hexDigits g := (List.dropWhile_sublist _).subset (shown ▸ List.mem_cons_self)
    obtain ⟨d, small, rfl⟩ := exists_digitChar_of_mem member
    have other := (by decide : ∀ d < 16, Nat.digitChar d ≠ '.') d small
    simp [shown, other]

/-- A group is taken from the front, and it is not mistaken for an address of the fourth version. -/
theorem readGroups_group {first : Bool} (small : g < 65536) (behind : IsBehindGroup rest)
    (body : (if first then some s else (char ':' s).map (·.2)) = some (hexDigits g ++ rest)) :
    readGroups zeros first (room + 1) s =
      (g :: (readGroups zeros false room rest).1, (readGroups zeros false room rest).2) := by
  have notV4 : readV4 zeros (hexDigits g ++ rest) = none := readV4_of_noPoint (noPoint_hexDigits g behind)
  have group := readGroup_hexDigits small behind
  rw [readGroups]
  simp only [body, Option.bind_some, notV4, ite_self, group]

/-- Where no group begins, none is taken. -/
theorem readGroups_nothing {first : Bool}
    (body : ∀ t, (if first then some s else (char ':' s).map (·.2)) = some t → IsBehindGroup t) :
    readGroups zeros first room s = ([], false, s) := by
  have nothing : ∀ t, IsBehindGroup t → readV4 zeros t = none ∧ readGroup t = none := by
    intro t behind
    cases t with
    | nil => exact ⟨rfl, rfl⟩
    | cons c t =>
      rw [behind c rfl]
      exact ⟨readV4_of_noPoint (by simp [Decimal.isDigit]), rfl⟩
  cases room with
  | zero => rfl
  | succ room =>
    rw [readGroups]
    cases taken : (if first then some s else (char ':' s).map (·.2)) with
    | none => simp only [Option.bind_none, ite_self]
    | some t =>
      obtain ⟨notV4, notGroup⟩ := nothing t (body t taken)
      simp only [Option.bind_some, notV4, notGroup, ite_self]

/-- What stands behind the groups that are taken: nothing, or two colons. -/
def IsBehindGroups (s : List Char) : Prop := s = [] ∨ ∃ t, s = ':' :: ':' :: t

theorem IsBehindGroups.behindGroup (behind : IsBehindGroups s) : IsBehindGroup s := by
  rcases behind with rfl | ⟨t, rfl⟩
  · simp [IsBehindGroup]
  · simp [IsBehindGroup]

/-- Groups with a colon in front of each. -/
def ledGroups (gs : List Nat) : List Char := gs.flatMap fun g => ':' :: hexDigits g

theorem joinGroups_cons (g : Nat) (gs : List Nat) : joinGroups (g :: gs) = hexDigits g ++ ledGroups gs := by
  induction gs generalizing g with
  | nil => simp [joinGroups, ledGroups]
  | cons h gs ih =>
    rw [joinGroups, ih, ledGroups, ledGroups, List.flatMap_cons]
    · simp
    · exact List.cons_ne_nil h gs

theorem behindGroup_ledGroups (gs : List Nat) (behind : IsBehindGroup s) : IsBehindGroup (ledGroups gs ++ s) := by
  cases gs with
  | nil => exact behind
  | cons g gs => simp [ledGroups, IsBehindGroup]

/-- All groups are taken that there is room for. -/
theorem readGroups_ledGroups (small : ∀ g ∈ gs, g < 65536) (fits : gs.length ≤ room)
    (behind : IsBehindGroups rest) : readGroups zeros false room (ledGroups gs ++ rest) = (gs, false, rest) := by
  -- Each group takes one of the places, so there is room for the others.
  induction gs generalizing room with
  | nil =>
    refine readGroups_nothing fun t taken => ?_
    rcases behind with rfl | ⟨u, rfl⟩
    · cases taken
    · have colon : t = ':' :: u := by simpa [ledGroups, eq_comm] using taken
      simp [colon, IsBehindGroup]
  | cons g gs ih =>
    obtain ⟨room, rfl⟩ : ∃ k, room = k + 1 := ⟨room - 1, by rw [List.length_cons] at fits; omega⟩
    have later := ih (fun h member => small h (List.mem_cons_of_mem _ member)) (by simpa using fits)
    have first : ledGroups (g :: gs) ++ rest = ':' :: (hexDigits g ++ (ledGroups gs ++ rest)) := by
      simp [ledGroups]
    rw [first, readGroups_group (small g List.mem_cons_self) (behindGroup_ledGroups gs behind.behindGroup) (by simp),
      later]

theorem readGroups_joinGroups (small : ∀ g ∈ gs, g < 65536) (fits : gs.length ≤ room)
    (behind : IsBehindGroups rest) : readGroups zeros true room (joinGroups gs ++ rest) = (gs, false, rest) := by
  cases gs with
  | nil =>
    refine readGroups_nothing fun t taken => ?_
    cases taken
    exact behind.behindGroup
  | cons g gs =>
    obtain ⟨room, rfl⟩ : ∃ k, room = k + 1 := ⟨room - 1, by rw [List.length_cons] at fits; omega⟩
    have later : readGroups zeros false room (ledGroups gs ++ rest) = (gs, false, rest) :=
      readGroups_ledGroups (fun h member => small h (List.mem_cons_of_mem _ member)) (by simpa using fits) behind
    rw [joinGroups_cons, List.append_assoc, readGroups_group (small g List.mem_cons_self)
      (behindGroup_ledGroups gs behind.behindGroup) rfl, later]

/-! ## The sixth version -/

/-- The eight groups are the digits of an address in base 65536. -/
theorem ofGroups_groups (bits : BitVec 128) : ofGroups (groups bits) = bits := by
  have step (k : Nat) : 65536 * (bits.toNat / 65536 ^ (k + 1)) + bits.toNat / 65536 ^ k % 65536 =
      bits.toNat / 65536 ^ k := by
    rw [Nat.pow_succ, ← Nat.div_div_eq_div_mul]
    exact Nat.div_add_mod _ _
  have top : bits.toNat / 65536 ^ 8 = 0 := Nat.div_eq_of_lt (Nat.lt_of_lt_of_le bits.isLt (by decide))
  have number : (groups bits).foldl (fun n g => 65536 * n + g) 0 = bits.toNat := by
    rw [groups, ← top]
    simp only [List.range_succ, List.range_zero, List.nil_append, List.map_append, List.map_cons, List.map_nil,
      List.foldl_append, List.foldl_cons, List.foldl_nil, Nat.pow_eq, Nat.reduceSub]
    rw [step 7, step 6, step 5, step 4, step 3, step 2, step 1, step 0, Nat.pow_zero, Nat.div_one]
  rw [ofGroups, number, BitVec.ofNat_toNat, BitVec.setWidth_eq]

theorem length_groups (bits : BitVec 128) : (groups bits).length = 8 := by simp [groups]

theorem groups_lt (bits : BitVec 128) : ∀ g ∈ groups bits, g < 65536 := by
  intro g member
  obtain ⟨i, -, rfl⟩ := List.mem_map.1 member
  exact Nat.mod_lt _ (by decide)

theorem zeroRun_spec (gs : List Nat) : gs = List.replicate (zeroRun gs) 0 ++ gs.drop (zeroRun gs) := by
  induction gs with
  | nil => rfl
  | cons g gs ih =>
    rw [zeroRun, List.takeWhile_cons]
    split
    next zero =>
      rw [List.length_cons, List.replicate_succ, List.drop_succ_cons, List.cons_append, ← zeroRun, ← ih,
        eq_of_beq zero]
    · rfl

/-- The run that is left out consists of zeros. -/
theorem longestZeroRun_spec (gs : List Nat) : gs = gs.take (longestZeroRun gs).1 ++
    (List.replicate (longestZeroRun gs).2 0 ++ gs.drop ((longestZeroRun gs).1 + (longestZeroRun gs).2)) := by
  induction gs with
  | nil => rfl
  | cons g gs ih =>
    rw [longestZeroRun]
    split
    · rw [Nat.zero_add]
      exact zeroRun_spec (g :: gs)
    · rw [List.take_succ_cons, List.cons_append, Nat.add_right_comm, List.drop_succ_cons, ← ih]

/-- Groups around a run of zeros that is left out are read with the run. -/
theorem readV6_compressed {front back : List Nat} (small : ∀ g ∈ front ++ back, g < 65536)
    (fits : front.length + back.length ≤ 7) :
    readV6 zeros 1 (joinGroups front ++ [':', ':'] ++ joinGroups back) =
      some (ofGroups (front ++ (List.replicate (8 - front.length - back.length) 0 ++ back)), []) := by
  have smallFront : ∀ g ∈ front, g < 65536 := fun g member => small g (List.mem_append_left _ member)
  have smallBack : ∀ g ∈ back, g < 65536 := fun g member => small g (List.mem_append_right _ member)
  have first : readGroups zeros true 8 (joinGroups front ++ ':' :: ':' :: joinGroups back) =
      (front, false, ':' :: ':' :: joinGroups back) :=
    readGroups_joinGroups smallFront (by omega) (.inr ⟨_, rfl⟩)
  have last : readGroups zeros true (8 - 1 - front.length) (joinGroups back ++ []) = (back, false, []) :=
    readGroups_joinGroups smallBack (by omega) (.inl rfl)
  rw [List.append_nil] at last
  have incomplete : front.length ≠ 8 := by omega
  rw [readV6, List.append_assoc, List.cons_append, List.cons_append, List.nil_append, first]
  simp [incomplete, last]

/-- Eight groups are read. -/
theorem readV6_joinGroups (small : ∀ g ∈ gs, g < 65536) (eight : gs.length = 8) :
    readV6 zeros 1 (joinGroups gs) = some (ofGroups gs, []) := by
  have read : readGroups zeros true 8 (joinGroups gs ++ []) = (gs, false, []) :=
    readGroups_joinGroups small (Nat.le_of_eq eight) (.inl rfl)
  rw [List.append_nil] at read
  rw [readV6, read]
  simp [eight]

/-- Behind five zero groups and a full one, the last two groups are read as an address of the fourth version. -/
theorem readV6_mapped (bits : BitVec 32) :
    readV6 zeros 1 ([':', ':', 'f', 'f', 'f', 'f', ':'] ++ printV4 bits) =
      some (ofGroups [0, 0, 0, 0, 0, 0xffff, bits.toNat / 65536, bits.toNat % 65536], []) := by
  -- No group stands in front of the two colons; one group and the embedded address stand behind them.
  have first : readGroups zeros true 8 ([':', ':', 'f', 'f', 'f', 'f', ':'] ++ printV4 bits) =
      ([], false, [':', ':', 'f', 'f', 'f', 'f', ':'] ++ printV4 bits) := by
    refine readGroups_nothing fun t taken => ?_
    cases taken
    simp [IsBehindGroup]
  have embedded : readV4 zeros (printV4 bits) = some (bits, []) := readV4_printV4_alone bits
  have last : readGroups zeros false 6 (':' :: printV4 bits) =
      ([bits.toNat / 65536, bits.toNat % 65536], true, []) := by
    rw [readGroups]
    simp [embedded]
  have full : readGroups zeros true 7 ('f' :: 'f' :: 'f' :: 'f' :: ':' :: printV4 bits) =
      ([0xffff, bits.toNat / 65536, bits.toNat % 65536], true, []) := by
    have group : readGroups zeros true 7 ('f' :: 'f' :: 'f' :: 'f' :: ':' :: printV4 bits) =
        (0xffff :: (readGroups zeros false 6 (':' :: printV4 bits)).1,
          (readGroups zeros false 6 (':' :: printV4 bits)).2) :=
      readGroups_group (by decide) (by simp [IsBehindGroup]) (by simp [hexDigits])
    rwa [last] at group
  rw [readV6, first]
  simp [full]

/-- The last two groups are the low 32 bits. -/
theorem drop_groups (bits : BitVec 128) :
    (groups bits).drop 6 = [(bits.truncate 32).toNat / 65536, (bits.truncate 32).toNat % 65536] := by
  have low : (bits.truncate 32).toNat = bits.toNat % 4294967296 := BitVec.toNat_setWidth 32 bits
  rw [low]
  simp [groups, List.range_succ]
  omega

/-- Every printed address of the sixth version is read back, whichever of its three forms it has. -/
theorem readV6_printV6 (bits : BitVec 128) : readV6 zeros 1 (printV6 bits) = some (bits, []) := by
  have eight := length_groups bits
  have small := groups_lt bits
  unfold printV6
  lift_lets
  intro gs run
  split
  next mapped =>
    have shown : [0, 0, 0, 0, 0, 0xffff, (bits.truncate 32).toNat / 65536, (bits.truncate 32).toNat % 65536] = gs := by
      rw [← List.take_append_drop 6 gs, mapped, drop_groups]
      rfl
    rw [readV6_mapped, shown, ofGroups_groups]
  · split
    next long =>
      have parts : gs = gs.take run.1 ++ (List.replicate run.2 0 ++ gs.drop (run.1 + run.2)) := longestZeroRun_spec gs
      have lengths : 8 = (gs.take run.1).length + (run.2 + (gs.drop (run.1 + run.2)).length) := by
        rw [← eight]
        simpa using congrArg List.length parts
      have omitted : 8 - (gs.take run.1).length - (gs.drop (run.1 + run.2)).length = run.2 := by omega
      rw [readV6_compressed _ (by omega), omitted, ← parts, ofGroups_groups]
      intro g member
      exact small g ((List.mem_append.1 member).elim List.mem_of_mem_take List.mem_of_mem_drop)
    · rw [readV6_joinGroups small eight, ofGroups_groups]

/-- Nothing that begins with a colon is an address of the fourth version. -/
theorem readV4_colon : readV4 zeros (':' :: s) = none :=
  readV4_of_noPoint (by simp [Decimal.isDigit])

theorem readV4_joinGroups (filled : gs ≠ []) (behind : IsBehindGroup s) :
    readV4 zeros (joinGroups gs ++ s) = none := by
  obtain ⟨g, gs, rfl⟩ := List.exists_cons_of_ne_nil filled
  rw [joinGroups_cons, List.append_assoc]
  exact readV4_of_noPoint (noPoint_hexDigits g (behindGroup_ledGroups gs behind))

/-- A text of the sixth version begins with no address of the fourth. -/
theorem readV4_printV6 (bits : BitVec 128) : readV4 zeros (printV6 bits) = none := by
  have filled : groups bits ≠ [] := by
    intro none
    simpa [none] using length_groups bits
  dsimp only [printV6]
  split
  · exact readV4_colon
  · generalize longestZeroRun (groups bits) = run
    split
    · rw [List.append_assoc]
      by_cases front : (groups bits).take run.1 = []
      · rw [front]
        exact readV4_colon
      · exact readV4_joinGroups front (by simp [IsBehindGroup])
    · rw [← List.append_nil (joinGroups _)]
      exact readV4_joinGroups filled (by simp [IsBehindGroup])

/-! ## Both versions -/

/-- Every address is read back from its text. -/
@[simp] theorem ofText?_text (a : Address) : ofText? a.text = some a := by
  rw [ofText?, text, String.toList_ofList, ofChars?]
  cases a with
  | v4 bits =>
    simp [print, readV4_printV4_alone]
  | v6 bits => simp [print, readV4_printV6, whole, readV6_printV6]

/-! ## Characters -/

/-- A character of the text of an address: a point, a colon or a hexadecimal digit. -/
def IsTextChar (c : Char) : Prop := c = '.' ∨ c = ':' ∨ ∃ d < 16, c = Nat.digitChar d

theorem isTextChar_of_mem_digits (member : c ∈ Decimal.digits n) : IsTextChar c := by
  obtain ⟨d, small, rfl⟩ := Decimal.exists_digitChar (Decimal.isDigit_of_mem_digits member)
  have same := (by decide : ∀ d < 10, Decimal.digitChar d = Nat.digitChar d) d small
  exact .inr (.inr ⟨d, by omega, same⟩)

theorem isTextChar_of_mem_printV4 {bits : BitVec 32} (member : c ∈ printV4 bits) : IsTextChar c := by
  simp only [printV4, List.mem_append, List.mem_singleton, or_assoc] at member
  rcases member with digit | point | digit | point | digit | point | digit
  · exact isTextChar_of_mem_digits digit
  · exact .inl point
  · exact isTextChar_of_mem_digits digit
  · exact .inl point
  · exact isTextChar_of_mem_digits digit
  · exact .inl point
  · exact isTextChar_of_mem_digits digit

theorem isTextChar_of_mem_joinGroups (member : c ∈ joinGroups gs) : IsTextChar c := by
  cases gs with
  | nil => cases member
  | cons g gs =>
    rw [joinGroups_cons, List.mem_append, ledGroups, List.mem_flatMap] at member
    rcases member with first | ⟨h, -, led⟩
    · exact .inr (.inr (exists_digitChar_of_mem first))
    · rcases List.mem_cons.1 led with colon | digit
      · exact .inr (.inl colon)
      · exact .inr (.inr (exists_digitChar_of_mem digit))

theorem isTextChar_of_mem_printV6 {bits : BitVec 128} (member : c ∈ printV6 bits) : IsTextChar c := by
  dsimp only [printV6] at member
  split at member
  · rcases List.mem_append.1 member with front | back
    · have marks : ∀ d ∈ [':', ':', 'f', 'f', 'f', 'f', ':'], d = ':' ∨ d = 'f' := by simp
      exact .inr ((marks c front).imp id fun f => ⟨15, by decide, f⟩)
    · exact isTextChar_of_mem_printV4 back
  · split at member
    · simp only [List.mem_append, or_assoc] at member
      rcases member with front | colons | back
      · exact isTextChar_of_mem_joinGroups front
      · exact .inr (.inl (by simpa using colons))
      · exact isTextChar_of_mem_joinGroups back
    · exact isTextChar_of_mem_joinGroups member

theorem isTextChar_of_mem_print {a : Address} (member : c ∈ a.print) : IsTextChar c := by
  cases a with
  | v4 bits => exact isTextChar_of_mem_printV4 member
  | v6 bits => exact isTextChar_of_mem_printV6 member

theorem colon_mem_printV6 (bits : BitVec 128) : ':' ∈ printV6 bits := by
  have eight := length_groups bits
  dsimp only [printV6]
  split
  · exact List.mem_cons_self
  · split
    · simp
    · match groups bits, eight with
      | g :: h :: gs, _ => simp [joinGroups_cons, ledGroups]

/-- No address is written with digits alone. -/
theorem exists_mark (a : Address) : ∃ c ∈ a.print, c = '.' ∨ c = ':' := by
  cases a with
  | v4 bits => exact ⟨'.', by simp [print, printV4], .inl rfl⟩
  | v6 bits => exact ⟨':', colon_mem_printV6 bits, .inr rfl⟩

end Address

end FlowArchive
