import FlowArchive.Bytes.Checksum
import FlowArchive.Flow.Counters
import FlowArchive.Time.Timestamp

/-!
# Indexes of blocks

The index of a partition lists its blocks. Each entry is a length, a descriptor and the checksum of the
descriptor; entries are only ever appended. The length counts the descriptor and the checksum. A reader that
makes the best of a damaged index stops at the first entry that is cut short or does not match its checksum,
so an append that was interrupted hides no earlier block.
-/

namespace FlowArchive

/-- What is known of a block without opening it. -/
structure Descriptor where
  time : Timestamp
  flows : UInt64
  traffic : UInt64
deriving DecidableEq, Repr, Inhabited

namespace Index

/-- Why an entry is refused. -/
inductive Flaw where
  | noLength
  | shortLength (stated : Nat)
  | cutShort
  | wrongChecksum (stated found : UInt32)
  | notDescriptor
deriving DecidableEq, Repr

def writeDescriptor (d : Descriptor) : Bytes :=
  Bytes.ofWord 8 d.time.toUInt64.toNat ++ Bytes.ofWord 8 d.flows.toNat ++ Bytes.ofWord 8 d.traffic.toNat

def readDescriptor? (s : Bytes) : Option (Descriptor × Bytes) := do
  let (time, s) ← Bytes.takeWord? 8 s
  let (flows, s) ← Bytes.takeWord? 8 s
  let (traffic, s) ← Bytes.takeWord? 8 s
  some (⟨(UInt64.ofNat time).toInt64, .ofNat flows, .ofNat traffic⟩, s)

/-- An entry with given bytes in place of a descriptor. -/
def frame (payload : Bytes) : Bytes :=
  Bytes.ofWord 4 (payload.length + 4) ++ payload ++ Bytes.ofWord 4 (Checksum.ofBytes payload).toNat

/-- The entry of a block. -/
def writeEntry (d : Descriptor) : Bytes := frame (writeDescriptor d)

def write (ds : List Descriptor) : Bytes := ds.flatMap writeEntry

/-- Takes an entry from the front: the descriptor and the number of bytes it took. Bytes between the
descriptor and the checksum are ignored. -/
def readEntry (s : Bytes) : Except Flaw (Descriptor × Nat) :=
  if (s.take 4).length < 4 then .error .noLength
  else
    let length := Bytes.toWord (s.take 4)
    if length < 4 then .error (.shortLength length)
    else if (s.take (4 + length)).length < 4 + length then .error .cutShort
    else
      let payload := (s.drop 4).take (length - 4)
      let stated := UInt32.ofNat (Bytes.toWord ((s.drop length).take 4))
      let found := Checksum.ofBytes payload
      if stated ≠ found then .error (.wrongChecksum stated found)
      else
        match readDescriptor? payload with
        | none => .error .notDescriptor
        | some (d, _) => .ok (d, 4 + length)

theorem readEntry_bounds {s : Bytes} {d : Descriptor} {n : Nat} (h : readEntry s = .ok (d, n)) :
    8 ≤ n ∧ n ≤ s.length := by
  simp only [readEntry, List.length_take] at h
  repeat' split at h
  all_goals first
    | cases h; omega
    | cases h

/-- Reads all entries, or finds the first flaw. -/
def read (s : Bytes) : Except Flaw (List Descriptor) :=
  if s.isEmpty then .ok []
  else
    match _entry : readEntry s with
    | .error flaw => .error flaw
    | .ok (d, n) => (read (s.drop n)).map (d :: ·)
termination_by s.length
decreasing_by
  have := readEntry_bounds _entry
  simp only [List.length_drop]
  omega

/-- Reads the entries before the first flaw and tells whether there is one. -/
def readPrefix (s : Bytes) : List Descriptor × Bool :=
  if s.isEmpty then ([], false)
  else
    match _entry : readEntry s with
    | .error _ => ([], true)
    | .ok (d, n) =>
      let rest := readPrefix (s.drop n)
      (d :: rest.1, rest.2)
termination_by s.length
decreasing_by
  have := readEntry_bounds _entry
  simp only [List.length_drop]
  omega

/-- The earliest time of a list of blocks. -/
def firstTime? (ds : List Descriptor) : Option Timestamp :=
  ds.foldl (fun first d => some (first.elim d.time (min · d.time))) none

/-- The flows and the traffic of a list of blocks. -/
def totals (ds : List Descriptor) : UInt64 × UInt64 :=
  ds.foldl (fun t d => (addCapped t.1 d.flows, addCapped t.2 d.traffic)) (0, 0)

end Index

end FlowArchive
