import FlowArchive.Proofs.BlockAcceptance
import Mathlib.Algebra.GroupWithZero.Nat

/-!
# Damage in one place

A checksum is the remainder of a division without carries, so it is linear: what two strings differ in decides what
their checksums differ in. Up to four bytes in a row enter the remainder as one word, and division steps take
different remainders to different remainders. So damage that spans no more than four bytes changes the checksum
wherever it is and whatever follows it, and a block that has it in its payload is refused for its checksum.
-/

namespace FlowArchive

namespace Bytes

variable {s t : Bytes} {n : Nat}

/-- Bytes of one word are the same if there are as many of them. -/
theorem eq_of_toWord (length : s.length = t.length) (same : toWord s = toWord t) : s = t := by
  rw [← ofWord_toWord s, ← ofWord_toWord t, length, same]

/-- A string has come to differ from another of its length, and only within a number of bytes in a row. -/
structure DamagedWithin (n : Nat) (s t : Bytes) : Prop where
  length : t.length = s.length
  differ : t ≠ s
  elsewhere : ∃ first, ∀ i, i < first ∨ first + n ≤ i → t[i]? = s[i]?

/-- What was damaged stands between what was not. -/
theorem DamagedWithin.parts (damaged : DamagedWithin n s t) :
    ∃ front back u v, s = front ++ u ++ back ∧ t = front ++ v ++ back ∧ u.length = v.length ∧ u.length ≤ n ∧ u ≠ v := by
  obtain ⟨length, differ, first, elsewhere⟩ := damaged
  have front : t.take first = s.take first := List.ext_getElem? fun i => by
    rw [List.getElem?_take, List.getElem?_take]
    split
    next before => exact elsewhere i (.inl before)
    next => rfl
  have back : t.drop (first + n) = s.drop (first + n) := List.ext_getElem? fun i => by
    rw [List.getElem?_drop, List.getElem?_drop, elsewhere _ (.inr (Nat.le_add_right _ _))]
  have cut : ∀ r : Bytes, r = r.take first ++ (r.drop first).take n ++ r.drop (first + n) := fun r => by
    rw [← List.drop_drop, List.append_assoc, List.take_append_drop, List.take_append_drop]
  refine ⟨s.take first, s.drop (first + n), (s.drop first).take n, (t.drop first).take n, cut s, ?_, ?_, ?_, ?_⟩
  · rw [← front, ← back]
    exact cut t
  · simp [length]
  · exact List.length_take_le _ _
  · intro same
    refine differ ?_
    rw [cut t, cut s, front, back, same]

/-- Damage that spares the front is damage of what is behind it. -/
theorem DamagedWithin.drop {k : Nat} (damaged : DamagedWithin n s t) (front : t.take k = s.take k) :
    DamagedWithin n (s.drop k) (t.drop k) := by
  obtain ⟨length, differ, first, elsewhere⟩ := damaged
  refine ⟨by simp [length], fun same => differ ?_, first - k, fun i outside => ?_⟩
  · rw [← List.take_append_drop k t, ← List.take_append_drop k s, front, same]
  · rw [List.getElem?_drop, List.getElem?_drop]
    exact elsewhere _ (by omega)

end Bytes

/-! ## Division without carries -/

namespace Checksum

variable {a b r : UInt32} {s t : Bytes}

theorem odd_iff (r : UInt32) : r &&& 1 = 1 ↔ r.toNat % 2 = 1 := by
  rw [← UInt32.toNat_inj, UInt32.toNat_and]
  exact iff_of_eq (congrArg (· = 1) (Nat.and_one_is_mod r.toNat))

theorem toNat_half (r : UInt32) : (r >>> 1).toNat = r.toNat / 2 := by
  rw [UInt32.toNat_shiftRight]
  exact Nat.shiftRight_eq_div_pow r.toNat 1

/-- What a division step adds to the remainder: the polynomial if a one falls out. -/
def addend (r : UInt32) : UInt32 := if r.toNat % 2 = 1 then polynomial else 0

theorem shift_eq (r : UInt32) : shift r = (r >>> 1) ^^^ addend r := by
  simp only [shift, addend, odd_iff]
  split <;> simp

theorem addend_xor (a b : UInt32) : addend (a ^^^ b) = addend a ^^^ addend b := by
  have parity : (a ^^^ b).toNat % 2 = a.toNat % 2 ^^^ b.toNat % 2 := by
    rw [UInt32.toNat_xor]
    exact Nat.xor_mod_two_pow (n := 1)
  rw [addend, addend, addend, parity]
  rcases Nat.mod_two_eq_zero_or_one a.toNat with first | first <;>
    rcases Nat.mod_two_eq_zero_or_one b.toNat with second | second <;> rw [first, second] <;> decide

theorem shift_xor (a b : UInt32) : shift (a ^^^ b) = shift a ^^^ shift b := by
  simp only [shift_eq, UInt32.shiftRight_xor, addend_xor]
  ac_rfl

/-- The polynomial has the power that no remainder has after it moved down, so none but zero becomes zero. -/
theorem eq_zero_of_shift (zero : shift r = 0) : r = 0 := by
  have small := r.toNat_lt
  have value : polynomial.toNat = 3988292384 := by decide
  have none : (0 : UInt32).toNat = 0 := rfl
  rw [shift_eq, UInt32.xor_eq_zero_iff, ← UInt32.toNat_inj, toNat_half, addend] at zero
  rw [← UInt32.toNat_inj]
  split at zero <;> omega

theorem shift_injective (same : shift a = shift b) : a = b := by
  rw [← UInt32.xor_eq_zero_iff, ← shift_xor] at same
  exact UInt32.xor_eq_zero_iff.1 (eq_zero_of_shift same)

theorem shifts_xor (n : Nat) (a b : UInt32) : shifts n (a ^^^ b) = shifts n a ^^^ shifts n b := by
  induction n generalizing a b with
  | zero => rfl
  | succ n ih => simp only [shifts, shift_xor, ih]

theorem shifts_injective {n : Nat} (same : shifts n a = shifts n b) : a = b := by
  induction n generalizing a b with
  | zero => exact same
  | succ n ih => exact shift_injective (ih same)

theorem shifts_add (m n : Nat) (r : UInt32) : shifts (m + n) r = shifts n (shifts m r) := by
  induction m generalizing r with
  | zero => rw [Nat.zero_add]; rfl
  | succ m ih => rw [Nat.succ_add]; exact ih (shift r)

theorem shift_double {n : Nat} (fits : 2 * n < 4294967296) : shift (.ofNat (2 * n)) = .ofNat n := by
  have whole : (UInt32.ofNat (2 * n)).toNat = 2 * n := UInt32.toNat_ofNat_of_lt' fits
  have word : (UInt32.ofNat n).toNat = n := UInt32.toNat_ofNat_of_lt' (Nat.lt_of_le_of_lt (by omega) fits)
  have half : (UInt32.ofNat (2 * n)) >>> 1 = .ofNat n := by
    rw [← UInt32.toNat_inj, toNat_half, whole, word]
    omega
  rw [shift_eq, addend, whole, half, if_neg (by omega), UInt32.xor_zero]

/-- Nothing is added while zeros fall out. -/
theorem shifts_ofNat {k n : Nat} (fits : 2 ^ k * n < 4294967296) : shifts k (.ofNat (2 ^ k * n)) = .ofNat n := by
  induction k with
  | zero => simp [shifts]
  | succ k ih =>
    have double : 2 ^ (k + 1) * n = 2 * (2 ^ k * n) := by rw [Nat.pow_succ]; ac_rfl
    rw [double] at fits ⊢
    rw [shifts, shift_double fits, ih (by omega)]

/-! ## Bytes in a row -/

theorem step_injective {x : UInt8} (same : step a x = step b x) : a = b :=
  (UInt32.xor_left_inj _).1 (shifts_injective same)

theorem foldl_step_injective (same : s.foldl step a = s.foldl step b) : a = b := by
  induction s generalizing a b with
  | nil => exact same
  | cons x s ih => exact step_injective (ih same)

/-- A byte in front of a word that has room for it. -/
theorem xor_ofNat (x : UInt8) (n : Nat) : x.toUInt32 ^^^ .ofNat (2 ^ 8 * n) = .ofNat (x.toNat + 2 ^ 8 * n) := by
  have small : x.toNat < 2 ^ 8 := x.toNat_lt
  have byte : x.toUInt32 = .ofNat x.toNat := by simp
  rw [byte, ← UInt32.ofNat_xor]
  congr 1
  refine Nat.eq_of_testBit_eq fun i => ?_
  rw [Nat.add_comm, Nat.testBit_xor, Nat.testBit_two_pow_mul_add n small, Nat.testBit_two_pow_mul]
  by_cases low : i < 8
  · simp [low, Nat.not_le.2 low]
  · have high : x.toNat.testBit i = false :=
      Nat.testBit_lt_two_pow (Nat.lt_of_lt_of_le small (Nat.pow_le_pow_right (by decide) (Nat.not_lt.1 low)))
    simp [low, Nat.not_lt.1 low, high]

/-- Up to four bytes enter the remainder as one word. -/
theorem foldl_step (short : s.length ≤ 4) (r : UInt32) :
    s.foldl step r = shifts (8 * s.length) (r ^^^ .ofNat (Bytes.toWord s)) := by
  induction s generalizing r with
  | nil => simp [Bytes.toWord, shifts]
  | cons x s ih =>
    have room : 2 ^ 8 * Bytes.toWord s < 4294967296 := by
      have least := Bytes.toWord_lt s
      have most : Nat.pow 256 s.length ≤ Nat.pow 256 3 := Nat.pow_le_pow_right (by decide) (Nat.le_of_succ_le_succ short)
      have value : Nat.pow 256 3 = 16777216 := by decide
      omega
    -- What follows the first byte can be added before the steps for it, eight places higher.
    calc (x :: s).foldl step r
      _ = shifts (8 * s.length) (shifts 8 (r ^^^ x.toUInt32) ^^^ .ofNat (Bytes.toWord s)) :=
        ih (Nat.le_of_succ_le short) _
      _ = shifts (8 * s.length) (shifts 8 (r ^^^ (x.toUInt32 ^^^ .ofNat (2 ^ 8 * Bytes.toWord s)))) := by
        rw [← shifts_ofNat room, ← shifts_xor, UInt32.xor_assoc]
      _ = shifts (8 * (x :: s).length) (r ^^^ .ofNat (Bytes.toWord (x :: s))) := by
        rw [xor_ofNat, ← shifts_add, List.length_cons, Nat.mul_succ, Nat.add_comm]
        rfl

theorem eq_of_foldl_step (length : s.length = t.length) (short : s.length ≤ 4)
    (same : s.foldl step r = t.foldl step r) : s = t := by
  have fits : ∀ {u : Bytes}, u.length ≤ 4 → Bytes.toWord u < 4294967296 := fun {u} short =>
    Nat.lt_of_lt_of_le (Bytes.toWord_lt u) (Nat.pow_le_pow_right (by decide) short)
  rw [foldl_step short, foldl_step (length ▸ short), length] at same
  have words := UInt32.toNat_inj.2 ((UInt32.xor_right_inj r).1 (shifts_injective same))
  rw [UInt32.toNat_ofNat_of_lt' (fits short), UInt32.toNat_ofNat_of_lt' (fits (length ▸ short))] at words
  exact Bytes.eq_of_toWord length words

/-- Damage within four bytes changes the checksum. -/
theorem ofBytes_ne_of_damaged (damaged : Bytes.DamagedWithin 4 s t) : ofBytes s ≠ ofBytes t := by
  obtain ⟨front, back, u, v, rfl, rfl, length, short, differ⟩ := damaged.parts
  intro same
  have remainders := (UInt32.xor_left_inj _).1 same
  simp only [remainder, List.foldl_append] at remainders
  exact differ (eq_of_foldl_step length short (foldl_step_injective remainders))

end Checksum

/-! ## Damaged blocks -/

namespace Block

variable {s t : Bytes} {fs : List Flow}

/-- What the header states is read from the first 17 bytes. -/
theorem stated_of_take (header : t.take Header.size = s.take Header.size) {place : Nat}
    (within : place + 4 ≤ Header.size) : stated t place = stated s place := by
  have word : ∀ r : Bytes, (r.drop place).take 4 = ((r.take Header.size).drop place).take 4 := fun r => by
    rw [List.drop_take, List.take_take, Nat.min_eq_left (by omega)]
  rw [stated, stated, word t, word s, header]

theorem head?_of_take (header : t.take Header.size = s.take Header.size) : t.head? = s.head? := by
  have first : ∀ r : Bytes, r.head? = (r.take Header.size).head? := fun r => by
    rw [List.head?_take, if_neg (by decide)]
  rw [first t, first s, header]

/-- A block whose payload was damaged within four bytes fails the check of its checksum, and none before it. -/
theorem failsFirst_of_damaged (block : IsBlockOf s fs) (header : t.take Header.size = s.take Header.size)
    (damaged : Bytes.DamagedWithin 4 s t) : Check.FailsFirst t .checksum := by
  have unlike := Checksum.ofBytes_ne_of_damaged (damaged.drop header)
  constructor
  · intro same
    have sum : (Checksum.ofBytes (s.drop 17)).toNat = (Checksum.ofBytes (t.drop 17)).toNat := by
      rw [← block.checksum, ← stated_of_take header (by decide)]
      exact same
    exact unlike (UInt32.toNat_inj.1 sum)
  · intro earlier before
    have long : 17 ≤ t.length := damaged.length ▸ block.long
    have known : t.head? = some 1 := (head?_of_take header).trans block.version
    have size : stated t 5 = t.length - 17 := by
      rw [stated_of_take header (by decide), block.size, damaged.length]
    have three : earlier = .header ∨ earlier = .version ∨ earlier = .size := by
      revert before
      cases earlier <;> decide
    rcases three with rfl | rfl | rfl
    · exact long
    · exact known
    · exact size

/-- What is accepted is a block. -/
theorem isBlockOf_of_decode (accepted : decode s = .ok fs) : IsBlockOf s fs := by
  rcases exists_isBlockOf_or_failsFirst s with ⟨gs, block⟩ | ⟨check, first⟩
  · rw [decode_of_isBlockOf block] at accepted
    cases accepted
    exact block
  · obtain ⟨flaw, -, -, refused⟩ := decode_of_failsFirst first
    rw [refused] at accepted
    cases accepted

/-- A block of which nothing but up to four bytes in a row of the payload have changed is refused, with the failure of
a wrong checksum that names the one of the old payload and the one of the new. -/
theorem local_damage_detected (accepted : decode s = .ok fs) (header : t.take Header.size = s.take Header.size)
    (damaged : Bytes.DamagedWithin 4 s t) :
    ∃ stated found, stated = Checksum.ofBytes (s.drop Header.size) ∧ found = Checksum.ofBytes (t.drop Header.size) ∧
      stated ≠ found ∧ decode t = .error (.wrongChecksum stated found) ∧
      (Failure.block (.wrongChecksum stated found)).kind = .checksum := by
  have block := isBlockOf_of_decode accepted
  obtain ⟨flaw, check, figures, refused⟩ := decode_of_failsFirst (failsFirst_of_damaged block header damaged)
  cases flaw with
  | wrongChecksum sum found =>
    obtain ⟨told, rfl⟩ := figures
    have same : sum = Checksum.ofBytes (s.drop 17) := by
      rw [← UInt32.toNat_inj, told, stated_of_take header (by decide), block.checksum]
    refine ⟨sum, _, same, rfl, ?_, refused, rfl⟩
    rw [same]
    exact Checksum.ofBytes_ne_of_damaged (damaged.drop header)
  | _ => cases check

/-- The first byte of the payload and the one three places behind it. -/
theorem local_damage_detected_front :
    let s := encode [mixedFlow]
    let t := (s.set 17 0).set 20 1
    decode s = .ok [mixedFlow] ∧ t.take Header.size = s.take Header.size ∧ Bytes.DamagedWithin 4 s t ∧
      ∃ stated found, stated = Checksum.ofBytes (s.drop Header.size) ∧ found = Checksum.ofBytes (t.drop Header.size) ∧
        stated ≠ found ∧ decode t = .error (.wrongChecksum stated found) ∧
        (Failure.block (.wrongChecksum stated found)).kind = .checksum := by
  intro s t
  have accepted : decode s = .ok [mixedFlow] := decode_encode sizesFit_mixedFlow
  have header : t.take Header.size = s.take Header.size := by
    rw [List.take_set_of_le (by decide), List.take_set_of_le (by decide)]
  have first : s[17]? = some 71 := by
    have size : (payload [mixedFlow])[0]? = some 71 := by decide +kernel
    rw [show s = (headerOf _ _).write ++ payload [mixedFlow] from rfl,
      List.getElem?_append_right (by simp [Header.size])]
    simpa [Header.size] using size
  have cleared : t[17]? = some 0 := by
    rw [List.getElem?_set_ne (by decide), List.getElem?_set_self', first]
    rfl
  have damaged : Bytes.DamagedWithin 4 s t := by
    refine ⟨by simp [t], fun same => ?_, 17, fun i outside => ?_⟩
    · rw [same, first] at cleared
      exact absurd cleared (by decide)
    · rw [List.getElem?_set_ne (by omega), List.getElem?_set_ne (by omega)]
  exact ⟨accepted, header, damaged, local_damage_detected accepted header damaged⟩

end Block

end FlowArchive
