import ApiRules.Archive.Table
import ApiRules.LoadError
import ApiRules.Sha256
import ApiRules.Text.Hex

/-!
Containers: the bytes of a dataset file.

| offset | size | field                        |
|--------|------|------------------------------|
| 0      | 8    | magic                        |
| 8      | 4    | format version               |
| 12     | 4    | zeros                        |
| 16     | 32   | SHA-256 digest of the payload |
| 48     |      | payload: the table's archive |
-/
namespace ApiRules

open Archive

/-- The SHA-256 digest of a payload. -/
structure Digest where
  bytes : Bytes
  deriving DecidableEq

namespace Digest

def ofPayload (payload : Bytes) : Digest := ⟨Sha256.digest payload⟩

/-- In lower-case hexadecimal digits. -/
def text (d : Digest) : String := Text.hexOfBytes d.bytes

end Digest

namespace Container

def magic : Bytes := [0x41, 0x50, 0x49, 0x4c, 0x49, 0x4e, 0x54, 0]

def version : UInt32 := 1

def headerSize : Nat := 48

/-- The header in front of a payload. -/
def header (payload : Bytes) : Bytes :=
  magic ++ ofNat 4 version.toNat ++ zeros 4 ++ (Digest.ofPayload payload).bytes

/-- The container of a table, unless its archive is too large for the lengths and pointers in it. -/
def encode? (t : Table) : Option Bytes := (Archive.table.encode? t).map fun p => header p ++ p

/-- The table in a container and the digest of its payload. The header is checked from left to right,
then the digest, then the archive. -/
def decode (bytes : Bytes) : Except LoadError (Table × Digest) :=
  let header := bytes.take headerSize
  let payload := bytes.drop headerSize
  let found := UInt32.ofNat (toNat ((header.drop 8).take 4))
  let digest := Digest.ofPayload payload
  if bytes.length < headerSize then .error (.corrupt (.truncatedHeader bytes.length))
  else if header.take 8 ≠ magic then .error (.corrupt .badMagic)
  else if found ≠ version then .error (.versionMismatch found)
  else if (header.drop 12).take 4 ≠ zeros 4 then .error (.corrupt .reservedNotZero)
  else if header.drop 16 ≠ digest.bytes then .error (.corrupt .digestMismatch)
  else match Archive.table.decode? payload with
    | none => .error (.corrupt (.badArchive payload))
    | some t => .ok (t, digest)

end Container

end ApiRules
