import Staging.Buffer.Id
import Staging.Json.Reader

/-!
# Ids outside of the library

An id is a number in JSON, and four bytes where it is mixed into a digest. The digest is the 64-bit
FNV-1a hash: a running word into which one byte after another is mixed, so that it does not matter
in which pieces the bytes are written.
-/

namespace Staging

namespace BufferId

/-- Reads an id; a number that is no 32-bit word is refused rather than reduced. -/
def ofJson (source : String) : Except Json.Error BufferId :=
  (Json.decode (Json.natural UInt32.size "u32") source).map ofNat

def toJson (x : BufferId) : String := toString x.index

end BufferId

/-- The running word of a hash. -/
structure Digest where
  val : UInt64
deriving DecidableEq, Repr

namespace Digest

/-- The word that the hash begins with, so that leading zeros count. -/
def empty : Digest := ⟨0xcbf29ce484222325⟩

/-- Mixes one byte in. The byte is put in before the multiplication spreads it over the word. -/
def push (d : Digest) (b : UInt8) : Digest := ⟨(d.val ^^^ b.toUInt64) * 0x100000001b3⟩

/-- Mixes bytes in, first to last. -/
def write (d : Digest) (bytes : List UInt8) : Digest := bytes.foldl push d

def writeText (d : Digest) (s : String) : Digest := d.write s.toUTF8.toList

/-- Mixes an id in, as four bytes from the lowest to the highest on every platform. -/
def writeId (d : Digest) (x : BufferId) : Digest :=
  d.write [x.val.toUInt8, (x.val >>> 8).toUInt8, (x.val >>> 16).toUInt8, (x.val >>> 24).toUInt8]

end Digest

end Staging
