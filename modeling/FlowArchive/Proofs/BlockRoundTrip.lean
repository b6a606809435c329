import FlowArchive.Block.Basic

/-!
# Blocks are read back

What is written is read back from the front of whatever follows it: octets, counters, flows, and lengths and plans
of compressed bytes. So a block whose sizes fit the words of its header yields the flows that it was made of, and
from any other nothing is read.
-/

namespace FlowArchive

/-! ## Flows -/

namespace Address

/-- The octets of a number, most significant first, spell the number. -/
theorem numberOfOctets_octets (count n : Nat) :
    numberOfOctets ((List.range count).map fun i => UInt8.ofNat (n / Nat.pow 256 (count - 1 - i))) =
      n % Nat.pow 256 count := by
  induction count generalizing n with
  | zero =>
    show 0 = n % 1
    omega
  | succ count ih =>
    -- All octets but the last are those of the number without its last octet.
    have front : (List.range count).map (fun i => UInt8.ofNat (n / Nat.pow 256 (count + 1 - 1 - i))) =
        (List.range count).map fun i => UInt8.ofNat (n / 256 / Nat.pow 256 (count - 1 - i)) := by
      refine List.map_congr_left fun i member => ?_
      have below := List.mem_range.1 member
      have exponent : count + 1 - 1 - i = (count - 1 - i) + 1 := by omega
      have power : Nat.pow 256 (count - 1 - i + 1) = 256 * Nat.pow 256 (count - 1 - i) := Nat.mul_comm _ _
      rw [exponent, power, Nat.div_div_eq_div_mul]
    have last : (UInt8.ofNat (n / Nat.pow 256 (count + 1 - 1 - count))).toNat = n % 256 := by
      have none : count + 1 - 1 - count = 0 := by omega
      rw [none]
      simp
    have parts : numberOfOctets ((List.range (count + 1)).map
        fun i => UInt8.ofNat (n / Nat.pow 256 (count + 1 - 1 - i))) =
        256 * numberOfOctets ((List.range count).map fun i => UInt8.ofNat (n / 256 / Nat.pow 256 (count - 1 - i))) +
          n % 256 := by
      rw [List.range_succ, List.map_append, front, numberOfOctets, List.foldl_append, ← numberOfOctets]
      simp only [List.map_cons, List.map_nil, List.foldl_cons, List.foldl_nil, last]
    have power : Nat.pow 256 (count + 1) = 256 * Nat.pow 256 count := Nat.mul_comm _ _
    rw [parts, ih, power, Nat.mod_mul]
    omega

theorem numberOfOctets_v4 (bits : BitVec 32) : numberOfOctets (v4 bits).octets = bits.toNat :=
  (numberOfOctets_octets 4 bits.toNat).trans (Nat.mod_eq_of_lt bits.isLt)

theorem numberOfOctets_v6 (bits : BitVec 128) : numberOfOctets (v6 bits).octets = bits.toNat :=
  (numberOfOctets_octets 16 bits.toNat).trans (Nat.mod_eq_of_lt bits.isLt)

theorem read?_write (x : Address) (rest : Bytes) : read? (x.write ++ rest) = some (x, rest) := by
  cases x with
  | v4 bits =>
    have length : (v4 bits).octets.length = 4 := by simp [octets]
    rw [write, List.append_assoc, read?, Bytes.takeWord?_ofWord_append _ (by decide)]
    simp [Bytes.takeBytes?_append rest length, numberOfOctets_v4]
  | v6 bits =>
    have length : (v6 bits).octets.length = 16 := by simp [octets]
    rw [write, List.append_assoc, read?, Bytes.takeWord?_ofWord_append _ (by decide)]
    simp [Bytes.takeBytes?_append rest length, numberOfOctets_v6]

/-- The octets stand behind the word that names their family. -/
theorem le_length_write (x : Address) : 8 ≤ x.write.length := by
  cases x <;> simp [write, octets]

end Address

theorem Counters.read?_write (c : Counters) (rest : Bytes) : read? (c.write ++ rest) = some (c, rest) := by
  have fits : ∀ n : UInt64, n.toNat < Nat.pow 256 8 := fun n => n.toNat_lt
  obtain ⟨packetsReceived, packetsSent, bytesReceived, bytesSent⟩ := c
  simp only [read?, write, List.append_assoc, Option.bind_eq_bind]
  simp [Bytes.takeWord?_ofWord_append, fits]

namespace Flow

theorem read?_write (f : Flow) (rest : Bytes) : read? (f.write ++ rest) = some (f, rest) := by
  have port : f.port.toNat < Nat.pow 256 2 := f.port.toNat_lt
  have protocol : f.protocol.toNat < Nat.pow 256 1 := f.protocol.toNat_lt
  have single : [f.protocol] = Bytes.ofWord 1 f.protocol.toNat := by simp [Bytes.ofWord]
  simp only [read?, write, single, List.append_assoc, Option.bind_eq_bind]
  simp [Address.read?_write, Counters.read?_write, Bytes.takeWord?_ofWord_append, port, protocol]

theorem readMany?_write (fs : List Flow) (rest : Bytes) :
    readMany? fs.length (fs.flatMap write ++ rest) = some (fs, rest) := by
  induction fs with
  | nil => rfl
  | cons f others ih =>
    rw [List.length_cons, List.flatMap_cons, List.append_assoc, readMany?, read?_write]
    simp only [ih, Option.map_some]

theorem readAll?_append {fs : List Flow} (fits : fs.length < Nat.pow 256 8) (rest : Bytes) :
    readAll? (writeAll fs ++ rest) = some (fs, rest) := by
  rw [readAll?, writeAll, List.append_assoc, Bytes.takeWord?_ofWord_append _ fits, Option.bind_some, readMany?_write]

theorem readAll?_writeAll {fs : List Flow} (fits : fs.length < Nat.pow 256 8) :
    readAll? (writeAll fs) = some (fs, []) := by
  have all := readAll?_append fits []
  rwa [List.append_nil] at all

theorem le_length_write (f : Flow) : 51 ≤ f.write.length := by
  have source := f.source.le_length_write
  have destination := f.destination.le_length_write
  simp [write, Counters.write]
  omega

/-- Every flow takes 51 bytes or more. -/
theorem le_length_writeAll (fs : List Flow) : 8 + 51 * fs.length ≤ (writeAll fs).length := by
  have each : 51 * fs.length ≤ (fs.flatMap write).length := by
    induction fs with
    | nil => exact Nat.le_refl 0
    | cons f others ih =>
      have first := f.le_length_write
      rw [List.flatMap_cons, List.length_append, List.length_cons]
      omega
  rw [writeAll, List.length_append, Bytes.length_ofWord]
  omega

end Flow

/-! ## Compressed bytes -/

namespace Lz4

theorem readLength_writeLength (n : Nat) (rest : Bytes) : readLength (writeLength n ++ rest) = some (n, rest) := by
  induction n using writeLength.induct with
  | case1 n small =>
    have last : UInt8.ofNat n ≠ 255 := fun same => by
      have value := congrArg UInt8.toNat same
      simp at value
      omega
    rw [writeLength, if_pos small]
    simp [readLength, last]
    omega
  | case2 n large ih =>
    rw [writeLength, if_neg large, List.cons_append, readLength, if_pos rfl, ih]
    simp
    omega

theorem readExtension_extension (n : Nat) (rest : Bytes) :
    readExtension (min n 15) (extension n ++ rest) = some (n, rest) := by
  rw [readExtension, extension]
  by_cases small : n < 15
  · rw [if_pos (by omega), if_pos small, List.nil_append, Nat.min_eq_left (by omega)]
  · rw [if_neg (by omega), if_neg small, readLength_writeLength]
    simp
    omega

/-- A plan of literals only is read back. -/
theorem Plan.read?_literals (s : Bytes) : Plan.read? (Plan.write ⟨[], s⟩) = some ⟨[], s⟩ := by
  have token : (tokenByte s.length 0).toNat / 16 = min s.length 15 := by
    simp [tokenByte]
    omega
  have front := readExtension_extension s.length s
  rw [← token] at front
  have written : Plan.write ⟨[], s⟩ = tokenByte s.length 0 :: (extension s.length ++ s) := rfl
  rw [written, Plan.read?]
  split
  next refused => rw [front] at refused; cases refused
  next count rest found =>
    rw [front] at found
    cases found
    have all : s.drop s.length = [] := List.drop_length
    rw [if_neg (by simp)]
    split
    · rw [List.take_length]
    next more => rw [all] at more; cases more
    next more => rw [all] at more; cases more

theorem planOf_reads (s : Bytes) : Plan.read? (planOf s).write = some (planOf s) ∧ (planOf s).expand = some s := by
  have chosen : planOf s = if Plan.read? (searchPlan s.toArray).write = some (searchPlan s.toArray) ∧
      (searchPlan s.toArray).expand = some s then searchPlan s.toArray else ⟨[], s⟩ := rfl
  by_cases checked : Plan.read? (searchPlan s.toArray).write = some (searchPlan s.toArray) ∧
      (searchPlan s.toArray).expand = some s
  · rw [chosen, if_pos checked]
    exact checked
  · rw [chosen, if_neg checked]
    exact ⟨Plan.read?_literals s, rfl⟩

/-- What is compressed expands to the input again. -/
theorem expand?_compress {s : Bytes} {room : Nat} (enough : s.length ≤ room) : expand? room (compress s) = some s := by
  obtain ⟨read, expanded⟩ := planOf_reads s
  rw [expand?, compress, read, Option.bind_some, expanded, Option.filter_some, if_pos (by simpa using enough)]

/-- What is compressed expands only where there is room for the input. -/
theorem length_le_of_expand? {s out : Bytes} {room : Nat} (expanded : expand? room (compress s) = some out) :
    s.length ≤ room := by
  obtain ⟨read, whole⟩ := planOf_reads s
  rw [expand?, compress, read, Option.bind_some, whole, Option.filter_some] at expanded
  split at expanded
  next enough => simpa using enough
  · cases expanded

end Lz4

/-! ## Blocks -/

namespace Block

/-- The sizes of a block fit the words of its header. -/
structure SizesFit (fs : List Flow) : Prop where
  count : fs.length < 4294967296
  plain : (Flow.writeAll fs).length < 4294967296
  stored : (payload fs).length < 4294967296

instance (fs : List Flow) : Decidable (SizesFit fs) :=
  decidable_of_iff (fs.length < 4294967296 ∧ (Flow.writeAll fs).length < 4294967296 ∧ (payload fs).length < 4294967296)
    ⟨fun ⟨count, plain, stored⟩ => ⟨count, plain, stored⟩, fun ⟨count, plain, stored⟩ => ⟨count, plain, stored⟩⟩

theorem plain?_payload {fs : List Flow} (fits : SizesFit fs) : plain? (payload fs) = some (Flow.writeAll fs) := by
  have size : (Flow.writeAll fs).length < Nat.pow 256 4 := fits.plain
  rw [plain?, payload, Bytes.takeWord?_ofWord_append _ size, Option.bind_some, Lz4.expand?_compress (Nat.le_refl _)]

namespace Header

@[simp] theorem length_write (h : Header) : h.write.length = size := by
  simp [write, size]

theorem wordAt_append {front rest : Bytes} {n : UInt32} {place : Nat} (length : front.length = place) :
    wordAt (front ++ (Bytes.ofWord 4 n.toNat ++ rest)) place = n := by
  have fits : n.toNat < Nat.pow 256 4 := n.toNat_lt
  rw [wordAt, List.drop_left' length, List.take_left' (Bytes.length_ofWord 4 _), Bytes.toWord_ofWord fits]
  simp

theorem read_write (h : Header) (rest : Bytes) : read (h.write ++ rest) = .ok h := by
  have long : ¬ (h.write ++ rest).length < size := by simp
  obtain ⟨version, count, storedSize, plainSize, checksum⟩ := h
  have words : ∀ front back : Bytes, ∀ n : UInt32, ∀ place, front.length = place →
      front ++ (Bytes.ofWord 4 n.toNat ++ back) = write ⟨version, count, storedSize, plainSize, checksum⟩ ++ rest →
      wordAt (write ⟨version, count, storedSize, plainSize, checksum⟩ ++ rest) place = n :=
    fun front back n place length same => same ▸ wordAt_append length
  rw [read, if_neg long]
  rw [words [version] _ count 1 rfl (by simp [write]; rfl),
    words ([version] ++ Bytes.ofWord 4 count.toNat) _ storedSize 5 (by simp) (by simp [write]; rfl),
    words ([version] ++ Bytes.ofWord 4 count.toNat ++ Bytes.ofWord 4 storedSize.toNat) _ plainSize 9 (by simp)
      (by simp [write]; rfl),
    words ([version] ++ Bytes.ofWord 4 count.toNat ++ Bytes.ofWord 4 storedSize.toNat ++
      Bytes.ofWord 4 plainSize.toNat) rest checksum 13 (by simp) (by simp [write])]
  rfl

end Header

/-- A block yields the flows that it was made of, if its sizes fit. -/
theorem decode_encode {fs : List Flow} (fits : SizesFit fs) : decode (encode fs) = .ok fs := by
  have behind : (encode fs).drop Header.size = payload fs := List.drop_left' (Header.length_write _)
  have storedSize : (headerOf fs (payload fs)).storedSize.toNat = (payload fs).length :=
    UInt32.toNat_ofNat_of_lt' fits.stored
  have count : (headerOf fs (payload fs)).count.toNat = fs.length := UInt32.toNat_ofNat_of_lt' fits.count
  have many : fs.length < Nat.pow 256 8 := Nat.lt_trans fits.count (by decide)
  rw [decode, encode, Header.read_write, ← encode]
  simp only [behind, storedSize, count, plain?_payload fits, Flow.readAll?_writeAll many]
  simp [headerOf]

/-- The size before compressed flows is a word of four bytes. -/
theorem plain_lt_of_plain? {fs : List Flow} {plain : Bytes} (found : plain? (payload fs) = some plain) :
    (Flow.writeAll fs).length < 4294967296 := by
  have front : Bytes.takeWord? 4 (payload fs) = some (Bytes.toWord (Bytes.ofWord 4 (Flow.writeAll fs).length),
      Lz4.compress (Flow.writeAll fs)) := by
    rw [Bytes.takeWord?, payload, Bytes.takeBytes?_append _ (Bytes.length_ofWord 4 _), Option.map_some]
  have small := Bytes.toWord_lt (Bytes.ofWord 4 (Flow.writeAll fs).length)
  rw [plain?, front, Option.bind_some] at found
  rw [Bytes.length_ofWord] at small
  exact Nat.lt_of_le_of_lt (Lz4.length_le_of_expand? found) small

/-- A block of so many flows does not fit, whatever they are. -/
theorem SizesFit.length_lt {fs : List Flow} (fits : SizesFit fs) : fs.length < 84215045 := by
  have bytes := Flow.le_length_writeAll fs
  have plain := fits.plain
  omega

/-- Nothing can be read of a block whose sizes do not fit. -/
theorem sizesFit_of_decode {fs gs : List Flow} (decoded : decode (encode fs) = .ok gs) : SizesFit fs := by
  have behind : (encode fs).drop Header.size = payload fs := List.drop_left' (Header.length_write _)
  rw [decode, encode, Header.read_write, ← encode] at decoded
  simp only [behind] at decoded
  split at decoded
  · cases decoded
  split at decoded
  · cases decoded
  next stored =>
  split at decoded
  · cases decoded
  split at decoded
  · cases decoded
  next plain found =>
  have small := plain_lt_of_plain? found
  have bytes := Flow.le_length_writeAll fs
  rw [Decidable.not_not] at stored
  constructor
  case count => omega
  case plain => exact small
  case stored =>
    rw [stored]
    exact UInt32.toNat_lt _

/-- A block yields the flows that it was made of if and only if its sizes fit. -/
theorem decode_encode_iff {fs : List Flow} : decode (encode fs) = .ok fs ↔ SizesFit fs :=
  ⟨sizesFit_of_decode, decode_encode⟩

/-! ## Where a block ends -/

theorem decode_short {s : Bytes} (short : s.length < Header.size) : decode s = .error .shortHeader := by
  rw [decode, Header.read, if_pos short]

/-- The header states how many bytes follow it, and nothing else may follow. -/
theorem decode_wrongSize {h : Header} {s : Bytes} (known : h.version = version)
    (other : s.length ≠ h.storedSize.toNat) :
    decode (h.write ++ s) = .error (.wrongSize s.length h.storedSize) := by
  have behind : (h.write ++ s).drop Header.size = s := List.drop_left' (Header.length_write _)
  rw [decode, Header.read_write]
  simp [behind, known, other]

theorem storedSize_headerOf {fs : List Flow} (fits : SizesFit fs) :
    (headerOf fs (payload fs)).storedSize.toNat = (payload fs).length := UInt32.toNat_ofNat_of_lt' fits.stored

/-- A block that is cut short is refused, for its header or for its size. -/
theorem decode_take {fs : List Flow} (fits : SizesFit fs) {n : Nat} (short : n < (encode fs).length) :
    decode ((encode fs).take n) = .error (if n < Header.size then .shortHeader
      else .wrongSize (n - Header.size) (headerOf fs (payload fs)).storedSize) := by
  have length : (encode fs).length = Header.size + (payload fs).length := by simp [encode]
  by_cases inHeader : n < Header.size
  · rw [if_pos inHeader]
    exact decode_short (Nat.lt_of_le_of_lt (List.length_take_le _ _) inHeader)
  · have cut : (encode fs).take n = (headerOf fs (payload fs)).write ++ (payload fs).take (n - Header.size) := by
      rw [encode, List.take_append, Header.length_write, List.take_of_length_le]
      rw [Header.length_write]
      omega
    have left : ((payload fs).take (n - Header.size)).length = n - Header.size := by
      rw [List.length_take]
      omega
    rw [if_neg inHeader, cut, decode_wrongSize rfl, left]
    rw [left, storedSize_headerOf fits]
    omega

/-- A block that something follows is refused for its size. -/
theorem decode_encode_append {fs : List Flow} (fits : SizesFit fs) {s : Bytes} (more : s ≠ []) :
    decode (encode fs ++ s) =
      .error (.wrongSize ((payload fs).length + s.length) (headerOf fs (payload fs)).storedSize) := by
  have positive : 0 < s.length := List.length_pos_iff.2 more
  rw [encode, List.append_assoc, decode_wrongSize rfl, List.length_append]
  rw [List.length_append, storedSize_headerOf fits]
  omega

/-- If its sizes fit, a block yields the flows that it was made of, and neither less of it nor more is read as a
block: every proper prefix of it is refused, and so is everything that it is a proper prefix of. -/
theorem round_trip_delimited {fs : List Flow} (fits : SizesFit fs) :
    decode (encode fs) = .ok fs ∧
    (∀ s, s <+: encode fs → s ≠ encode fs → ∃ flaw, decode s = .error flaw) ∧
    ∀ s, s ≠ [] → ∃ flaw, decode (encode fs ++ s) = .error flaw := by
  refine ⟨decode_encode fits, fun s front proper => ?_, fun s more => ⟨_, decode_encode_append fits more⟩⟩
  have shorter : s.length < (encode fs).length := by
    refine Nat.lt_of_le_of_ne front.length_le fun same => proper (front.eq_of_length same)
  rw [List.prefix_iff_eq_take.1 front]
  exact ⟨_, decode_take fits shorter⟩

/-- A flow between addresses of either family, with a greatest counter. -/
def mixedFlow : Flow := ⟨.v4 1, .v6 2, 80, 6, ⟨18446744073709551615, 0, 1, 1⟩⟩

theorem sizesFit_mixedFlow : SizesFit [mixedFlow] := by decide +kernel

theorem round_trip_delimited_mixed :
    decode (encode [mixedFlow]) = .ok [mixedFlow] ∧ (∃ flaw, decode ((encode [mixedFlow]).take 20) = .error flaw) ∧
      ∃ flaw, decode (encode [mixedFlow] ++ [0]) = .error flaw := by
  obtain ⟨back, less, more⟩ := round_trip_delimited sizesFit_mixedFlow
  refine ⟨back, less _ (List.take_prefix _ _) fun whole => ?_, more [0] (by decide)⟩
  have length : (encode [mixedFlow]).length = 17 + (payload [mixedFlow]).length := by simp [encode, Header.size]
  have long : 4 ≤ (payload [mixedFlow]).length := by simp [payload]
  have cut := congrArg List.length whole
  rw [List.length_take, length] at cut
  omega

end Block

end FlowArchive
