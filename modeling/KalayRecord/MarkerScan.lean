import KalayRecord.MeasuredReader

namespace KalayRecord

def marker : Bytes := [0xFF, 0xFF]

namespace MarkerScan

def blockSize : Nat := 4096

/-- Where in `bytes` a marker ends for the first time, when `previous` stands before them. -/
def markerEnd? (previous : UInt8) : Bytes → Option Nat
  | [] => none
  | b :: bytes => if [previous, b] = marker then some 0 else (markerEnd? b bytes).map (· + 1)

variable {σ : Type} [ByteSource σ]

/-- Goes on with a scan from `start` that has passed `scanned` of the `window` bytes it may look at,
the last of them being `previous`. -/
def scanFrom (start regionLeft window scanned : Nat) (previous : UInt8) : Reading σ Nat := do
  if window ≤ scanned then
    throw (if regionLeft ≤ scanned then .endOfStream else .syncNotFound start scanned)
  else
    let block ← Reading.upTo (min (window - scanned) blockSize)
    if block = [] then throw .endOfStream
    else
      match markerEnd? previous block with
      | some i =>
        let offset := start + scanned + i - 1
        Reading.seek (offset + marker.length)
        return offset
      | none =>
        scanFrom start regionLeft window (scanned + block.length) (block.getLast?.getD previous)
termination_by window - scanned
decreasing_by
  have := List.length_pos_iff.mpr ‹block ≠ []›
  omega

/-- Finds the first marker from the cursor on and goes just past it. The scan looks at no byte past
`regionEnd`, and at `limit` bytes at most; the byte before the cursor is no part of a marker. -/
def findMarker (regionEnd limit : Nat) : Reading σ Nat := do
  let start ← Reading.position
  let regionLeft := regionEnd - start
  scanFrom start regionLeft (min regionLeft limit) 0 0

end MarkerScan

end KalayRecord
