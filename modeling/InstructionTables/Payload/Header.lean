import InstructionTables.Fault

/-! The word at the start of every payload. Its lowest byte is the format version, the next
the kind of payload, and the upper half a magic number. -/
namespace InstructionTables

/-- A payload header, packed into one word that is stored with its lowest byte first. -/
structure Header where
  /-- The packed fields. -/
  word : UInt32 := 0
deriving DecidableEq, Repr

namespace Header

/-- The magic number of every payload. -/
def magicNumber : UInt16 := 0x1ced

/-- The only format version that is read. -/
def formatVersion : UInt8 := 1

/-- The number of bytes a header takes. -/
def size : Nat := 4

/-! ## Fields -/

/-- The format version, bits 0 to 7. -/
def version (header : Header) : UInt8 :=
  header.word.toUInt8

/-- The stored payload kind, bits 8 to 15. -/
def rawKind (header : Header) : UInt8 :=
  (header.word >>> 8).toUInt8

/-- The magic number, bits 16 to 31. -/
def magic (header : Header) : UInt16 :=
  (header.word >>> 16).toUInt16

/-- The header with another version. -/
def withVersion (header : Header) (version : UInt8) : Header :=
  ⟨(header.word &&& (0xffffff00 : UInt32)) ||| version.toUInt32⟩

/-- The header with another stored payload kind. -/
def withRawKind (header : Header) (kind : UInt8) : Header :=
  ⟨(header.word &&& (0xffff00ff : UInt32)) ||| (kind.toUInt32 <<< 8)⟩

/-- The header with another magic number. -/
def withMagic (header : Header) (magic : UInt16) : Header :=
  ⟨(header.word &&& (0x0000ffff : UInt32)) ||| (magic.toUInt32 <<< 16)⟩

/-- The header of a payload of the given kind in the current format. -/
def ofKind (kind : PayloadKind) : Header :=
  ((({} : Header).withMagic magicNumber).withRawKind (Tag.byte kind)).withVersion formatVersion

/-! ## Bytes -/

/-- The four bytes of a header. -/
def toBytes (header : Header) : List UInt8 :=
  [header.word.toUInt8, (header.word >>> 8).toUInt8, (header.word >>> 16).toUInt8,
    (header.word >>> 24).toUInt8]

/-- The header in the first four bytes, if there are as many. -/
def ofBytes? : List UInt8 → Option Header
  | first :: second :: third :: fourth :: _ =>
    some ⟨first.toUInt32 ||| (second.toUInt32 <<< 8) ||| (third.toUInt32 <<< 16) |||
      (fourth.toUInt32 <<< 24)⟩
  | _ => none

/-! ## Acceptance -/

/-- Accepts a header of the expected kind in the current format. The magic number is
looked at first, then the kind, then the version. -/
def check (header : Header) (expected : PayloadKind) : Except Fault Unit :=
  if header.magic ≠ magicNumber then
    .error (.badMagic header.magic)
  else if Tag.ofByte? header.rawKind ≠ some expected then
    .error (.wrongPayloadKind expected header.rawKind)
  else if header.version ≠ formatVersion then
    .error (.unsupportedVersion formatVersion header.version)
  else
    .ok ()

end Header

end InstructionTables
