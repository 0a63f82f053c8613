import KalayRecord.ByteOrder

namespace KalayRecord

inductive Error where
  | io (reason : String)
  | invalidMagic (found : Bytes)
  | truncatedInput (field : String) (need available : Nat)
  | malformedTable (size count : UInt32)
  /-- The scan bound ran out before a frame marker was met. -/
  | syncNotFound (start scanned : Nat)
  | unknownTrack (id : UInt16) (offset : Nat)
  | indexOutOfRange (index : UInt32) (count : Nat)
  | truncatedFrame (index : UInt32) (expected found : Nat)
  | seekOutOfRange (target last : Int)
  | noKeyframes
  | invalidIndex (reason : String)
  | encrypted (kind : UInt32)
  | config (reason : String)
  /-- The ordinary end of the packets, rather than a failure. -/
  | endOfStream
  deriving DecidableEq, Repr

def hex (n : Nat) : String := String.ofList (Nat.toDigits 16 n)

def hexByte (b : UInt8) : String := (if b < 16 then "0" else "") ++ hex b.toNat

namespace Error

def message : Error → String
  | .io reason => "I/O error: " ++ reason
  | .invalidMagic found =>
    "Not a KRF stream: magic [" ++ ", ".intercalate (found.map hexByte) ++ "]"
  | .truncatedInput field need available =>
    s!"Truncated input while reading {field}: need {need} bytes, have {available}"
  | .malformedTable size count =>
    s!"Malformed table: declared size {size} does not match {count} elements"
  | .syncNotFound start scanned =>
    s!"Sync marker not found within {scanned} bytes of offset {start}"
  | .unknownTrack id offset => s!"Unknown track id {id} at offset {offset}"
  | .indexOutOfRange index count =>
    s!"Frame index {index} out of range (track has {count} frames)"
  | .truncatedFrame index expected found =>
    s!"Truncated frame {index}: expected {expected} payload bytes, found {found}"
  | .seekOutOfRange target last =>
    s!"Seek target {target} beyond last indexed timestamp {last}"
  | .noKeyframes => "Video track has no keyframes"
  | .invalidIndex reason => "Invalid index: " ++ reason
  | .encrypted kind => "Encrypted container (encrypt type 0x" ++ hex kind.toNat ++ ")"
  | .config reason => "Invalid configuration: " ++ reason
  | .endOfStream => "End of stream"

def isEndOfStream : Error → Bool
  | .endOfStream => true
  | _ => false

end Error

end KalayRecord
