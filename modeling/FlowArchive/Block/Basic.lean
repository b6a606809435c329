import FlowArchive.Block.Record
import FlowArchive.Bytes.Checksum
import FlowArchive.Bytes.Lz4

/-!
# Blocks

A block is a file of flows: a header of 17 bytes and a payload. The payload holds the compressed flows behind
the size they expand to. The header states the version, the number of flows, the sizes of the payload and of
the flows as bytes, and the checksum of the payload.
-/

namespace FlowArchive.Block

/-- The version of the format. -/
def version : UInt8 := 1

/-- What stands at the start of a block. -/
structure Header where
  version : UInt8
  count : UInt32
  storedSize : UInt32
  plainSize : UInt32
  checksum : UInt32
deriving DecidableEq, Repr, Inhabited

/-- Why a file is refused as a block. -/
inductive Flaw where
  | shortHeader
  | unknownVersion (version : UInt8)
  | wrongSize (found : Nat) (stated : UInt32)
  | wrongChecksum (stated found : UInt32)
  | notCompressed
  | notFlows
  | wrongCount (found : Nat) (stated : UInt32)
deriving DecidableEq, Repr

namespace Header

/-- The number of bytes of a header. -/
def size : Nat := 17

def write (h : Header) : Bytes :=
  [h.version] ++ Bytes.ofWord 4 h.count.toNat ++ Bytes.ofWord 4 h.storedSize.toNat ++
    Bytes.ofWord 4 h.plainSize.toNat ++ Bytes.ofWord 4 h.checksum.toNat

/-- The word of four bytes at a position. -/
def wordAt (s : Bytes) (at_ : Nat) : UInt32 := UInt32.ofNat (Bytes.toWord ((s.drop at_).take 4))

/-- Reads the header at the start of a block. -/
def read (s : Bytes) : Except Flaw Header :=
  if s.length < size then .error .shortHeader
  else .ok ⟨s.headD 0, wordAt s 1, wordAt s 5, wordAt s 9, wordAt s 13⟩

end Header

/-- The payload of a list of flows: the size of its bytes, and those bytes compressed. -/
def payload (fs : List Flow) : Bytes :=
  let plain := Flow.writeAll fs
  Bytes.ofWord 4 plain.length ++ Lz4.compress plain

def headerOf (fs : List Flow) (stored : Bytes) : Header where
  version := version
  count := .ofNat fs.length
  storedSize := .ofNat stored.length
  plainSize := .ofNat (Flow.writeAll fs).length
  checksum := Checksum.ofBytes stored

def encode (fs : List Flow) : Bytes := (headerOf fs (payload fs)).write ++ payload fs

/-- The bytes that a payload stands for. -/
def plain? (stored : Bytes) : Option Bytes :=
  (Bytes.takeWord? 4 stored).bind fun p => Lz4.expand? p.1 p.2

/-- Reads a block. Version, size and checksum are checked before the payload is expanded; bytes behind the
last flow are ignored. -/
def decode (s : Bytes) : Except Flaw (List Flow) :=
  match Header.read s with
  | .error flaw => .error flaw
  | .ok header =>
    let stored := s.drop Header.size
    if header.version ≠ version then .error (.unknownVersion header.version)
    else if stored.length ≠ header.storedSize.toNat then
      .error (.wrongSize stored.length header.storedSize)
    else if Checksum.ofBytes stored ≠ header.checksum then
      .error (.wrongChecksum header.checksum (Checksum.ofBytes stored))
    else
      match plain? stored with
      | none => .error .notCompressed
      | some plain =>
        match Flow.readAll? plain with
        | none => .error .notFlows
        | some (fs, _) =>
          if fs.length ≠ header.count.toNat then .error (.wrongCount fs.length header.count)
          else .ok fs

end FlowArchive.Block
