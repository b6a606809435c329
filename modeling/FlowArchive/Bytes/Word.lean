/-!
# Bytes and little-endian words

Files hold lists of bytes. A word of `n` bytes is written least significant byte first; reading takes it from
the front of a list and hands on the rest.
-/

namespace FlowArchive

abbrev Bytes := List UInt8

namespace Bytes

/-- The `width` low bytes of a number, least significant first. -/
def ofWord : (width : Nat) → Nat → Bytes
  | 0, _ => []
  | width + 1, n => UInt8.ofNat n :: ofWord width (n / 256)

/-- The number that bytes spell, least significant first. -/
def toWord : Bytes → Nat
  | [] => 0
  | b :: rest => b.toNat + 256 * toWord rest

/-- Takes a number of bytes from the front. -/
def takeBytes? (n : Nat) (s : Bytes) : Option (Bytes × Bytes) :=
  let front := s.take n
  if front.length < n then none else some (front, s.drop n)

def takeWord? (width : Nat) (s : Bytes) : Option (Nat × Bytes) :=
  (takeBytes? width s).map fun p => (toWord p.1, p.2)

/-! ## Laws of words -/

@[simp] theorem length_ofWord (width n : Nat) : (ofWord width n).length = width := by
  induction width generalizing n with
  | zero => rfl
  | succ width ih => simp [ofWord, ih]

theorem toWord_ofWord {width n : Nat} (h : n < Nat.pow 256 width) : toWord (ofWord width n) = n := by
  induction width generalizing n with
  | zero =>
    have zero : n < 1 := h
    simp [ofWord, toWord]
    omega
  | succ width ih =>
    have rest : n / 256 < Nat.pow 256 width := by
      rw [Nat.div_lt_iff_lt_mul (by decide)]
      exact h
    have low : (UInt8.ofNat n).toNat = n % 256 := by simp
    rw [ofWord, toWord, ih rest, low]
    omega

theorem toWord_lt (s : Bytes) : toWord s < Nat.pow 256 s.length := by
  induction s with
  | nil => simp [toWord]
  | cons b rest ih =>
    have small : b.toNat < 256 := b.toNat_lt
    show b.toNat + 256 * toWord rest < Nat.pow 256 rest.length * 256
    omega

theorem ofWord_toWord (s : Bytes) : ofWord s.length (toWord s) = s := by
  induction s with
  | nil => rfl
  | cons b rest ih =>
    have small : b.toNat < 256 := b.toNat_lt
    have low : UInt8.ofNat (b.toNat + 256 * toWord rest) = b := by
      apply UInt8.toNat_inj.1
      simp
    have high : (b.toNat + 256 * toWord rest) / 256 = toWord rest := by omega
    rw [toWord, List.length_cons, ofWord, low, high, ih]

theorem takeBytes?_append {n : Nat} {s : Bytes} (rest : Bytes) (h : s.length = n) :
    takeBytes? n (s ++ rest) = some (s, rest) := by
  subst h
  simp [takeBytes?]

theorem takeWord?_ofWord_append {width n : Nat} (rest : Bytes) (h : n < Nat.pow 256 width) :
    takeWord? width (ofWord width n ++ rest) = some (n, rest) := by
  rw [takeWord?, takeBytes?_append rest (length_ofWord width n)]
  simp [toWord_ofWord h]

end Bytes

end FlowArchive
