import KalayRecord.RecordingHeader

namespace KalayRecord

namespace FileName

def parts (path : Bytes) : List Bytes := path.splitOn 0x2F

/-- The last part of a path. Empty parts and single dots stand for nothing, and a path that ends by
going up has no last part. -/
def ofPath? (path : Bytes) : Option Bytes :=
  match ((parts path).filter fun part => part ≠ [] ∧ part ≠ [0x2E]).getLast? with
  | some [0x2E, 0x2E] => none
  | part => part

/-- What follows the last dot of a name, unless that is its first byte. -/
def extension? (name : Bytes) : Option Bytes :=
  let reversed := name.reverse
  match reversed.dropWhile (· ≠ 0x2E) with
  | _ :: _ :: _ => some (reversed.takeWhile (· ≠ 0x2E)).reverse
  | _ => none

def toLower (b : UInt8) : UInt8 := if 0x41 ≤ b ∧ b ≤ 0x5A then b + 0x20 else b

end FileName

namespace FormatProbe

def formatName : String := "krf"

def formatLongName : String := "Kalay Record Format / KRF"

def extensions : List String := ["mkr"]

def maxScore : Nat := 100

def isRecording (start : Bytes) : Bool := magic.isPrefixOf start

def score (start : Bytes) : Nat := if isRecording start then maxScore else 0

def hasExtension (path : Bytes) : Bool :=
  match FileName.ofPath? path >>= FileName.extension? with
  | none => false
  | some found => extensions.any fun known =>
    known.toUTF8.data.toList.map FileName.toLower = found.map FileName.toLower

end FormatProbe

end KalayRecord
