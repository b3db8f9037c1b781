import PatternMarkup.Markup.Arena
/-!
Identifiers for tools outside: a document is known by a checksum of its address, a node by its
document and its number.
-/

namespace PatternMarkup

/-- The reflected generator polynomial of the checksum. -/
def checksumPolynomial : UInt32 := 0xEDB88320

/-- One bit of the checksum's division. -/
def checksumShift (remainder : UInt32) : UInt32 :=
  if remainder &&& 1 = 1 then (remainder >>> 1) ^^^ checksumPolynomial else remainder >>> 1

/-- Takes one byte into the checksum. -/
def checksumByte (remainder : UInt32) (byte : UInt8) : UInt32 :=
  (List.range 8).foldl (fun r _ => checksumShift r) (remainder ^^^ byte.toUInt32)

/-- The cyclic redundancy check of 32 bits. -/
def checksum (bytes : List UInt8) : UInt32 :=
  bytes.foldl checksumByte 0xFFFFFFFF ^^^ 0xFFFFFFFF

/-- The address of a file; a path stands for one on this machine. -/
def fileAddress (path : String) : String :=
  if "file://".toList.isPrefixOf path.toList then path else "file://" ++ path

/-- The identifier of the document at a path: the checksum of its address, in hexadecimal. -/
def documentId (path : String) : String :=
  String.ofList (Nat.toDigits 16 (checksum (fileAddress path).toUTF8.toList).toNat)

/-- The identifier of a node: its document's, and its number. -/
def nodeKey (document : String) (node : NodeId) : String :=
  document ++ "-" ++ toString node

end PatternMarkup
