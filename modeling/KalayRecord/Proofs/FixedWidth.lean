import Mathlib.Algebra.Group.Int.Defs
import Mathlib.Algebra.GroupWithZero.Nat
import KalayRecord.MemoryStream
import KalayRecord.Operation

namespace KalayRecord

namespace FixedWidth

/-- A sum or a product of offsets, lengths and sizes. -/
def word (n : Nat) : Option Nat := if n < 2 ^ 64 then some n else none

def narrow (n : Nat) : Option UInt32 := if n < 2 ^ 32 then some (.ofNat n) else none

/-- A number narrowed to 32 bits that has to be `count` then. -/
def narrowTo (count : UInt32) (n : Nat) : Option UInt32 := do
  let narrowed ← narrow n
  if narrowed = count then some narrowed else none

def difference (a b : Nat) : Option Nat := if b ≤ a then some (a - b) else none

/-- The time from `first` to `last`, of which 64 bits with a sign hold much more than is needed. -/
def timeSpan (first last : UInt32) : Option Int :=
  let span : Int := last.toNat - first.toNat
  if -2 ^ 32 < span ∧ span < 2 ^ 32 then some span else none

/-- Steps with numbers of fixed width, each checked where it is computed. A sum, a product or a size in
memory has to be a number of 64 bits, a frame number one of 32, a difference of times has to stay
within the 32-bit clock, a subtraction must not go below zero, an index has to lie in its table and
a slice in its buffer. Where one of these fails, there is no result at all. Sums and differences
that are meant to stop at an end of their range stand as they are. -/
abbrev FixedReading (σ : Type) := ExceptT Error (StateT (MeasuredReader σ) Option)

end FixedWidth

def Reading.outcome {σ α : Type} (m : Reading σ α) (r : MeasuredReader σ) :
    Except Error α × MeasuredReader σ :=
  match m r with
  | .ok a r' => (.ok a, r')
  | .error e r' => (.error e, r')

namespace FixedWidth

/-- A step that computes no number. -/
def lift {σ α : Type} (m : Reading σ α) : FixedReading σ α := fun r => some (m.outcome r)

variable {σ : Type} [ByteSource σ]

section Fields

def skip (n : Nat) (field : String) : FixedReading σ Unit := do
  let position ← lift Reading.position
  let available ← lift Reading.remaining
  if available < n then throw (.truncatedInput field n available)
  lift (Reading.seek (← word (position + n)))

/-- Goes on filling a buffer of which `filled` bytes have been delivered. -/
def gather (s : σ) (size filled : Nat) : Option (Except String Bytes × σ) :=
  if size ≤ filled then some (.ok [], s) else
  match ByteSource.attempt s (size - filled) with
  | (.error reason, s') => some (.error reason, s')
  | (.ok [], s') => some (.ok [], s')
  | (.ok (b :: chunk), s') =>
    if filled + (chunk.length + 1) < 2 ^ 64 then
      (gather s' size (filled + (chunk.length + 1))).map fun (rest, s'') =>
        (rest.map ((b :: chunk) ++ ·), s'')
    else none
termination_by size - filled

/-- The next bytes as far as they fill a buffer; no more than the buffer holds can be delivered. -/
def upTo (size : Nat) : FixedReading σ Bytes := fun r =>
  match gather r.source size 0 with
  | none => none
  | some (.error reason, source) => some (.error (.io reason), { r with source })
  | some (.ok bytes, source) =>
    if bytes.length ≤ size then some (.ok bytes, { r with source }) else none

end Fields

section Index

def expectedSize (count : UInt32) : Option Nat := do
  let items ← word (4 * count.toNat)
  word (IndexTable.headerSize + items)

def readTable (checkSize : Bool) : FixedReading σ (UInt32 × IndexTable) := do
  let size ← lift (Reading.uint32 "table size")
  let type ← lift (Reading.uint32 "table type")
  let count ← lift (Reading.uint32 "table count")
  let need ← word (4 * count.toNat)
  let available ← lift Reading.remaining
  if available < need then throw (.truncatedInput "table items" need available)
  let expected ← expectedSize count
  if checkSize ∧ size.toNat ≠ expected then throw (.malformedTable size count)
  let items ← lift (Reading.exactly need "table items")
  return (count, { size, type, items := words items })

/-- Reads a table that follows on `parsed` bytes of its record, and adds the size to them that the
number of its items gives. -/
def nextTable (checkSize : Bool) (parsed : Nat) : FixedReading σ (IndexTable × Nat) := do
  let (count, table) ← readTable checkSize
  let length ← narrowTo count table.items.length
  let size ← expectedSize length
  return (table, ← word (parsed + size))

def frameAt (t : FrameTables) (i : Nat) : Option Frame := do
  let offset ← t.offsets[i]?
  let number ← narrow i
  let timestamp ← t.timestamps[i]?
  let size ← t.sizes[i]?
  return { number, timestamp, offset, size, isKeyframe := t.keyframeOffsets.contains offset }

def join (t : FrameTables) : Option FrameIndex := do
  let count := min t.timestamps.length (min t.sizes.length t.offsets.length)
  let frames ← (List.range count).mapM (frameAt t)
  return { frames := frames.toArray, keyframeOffsets := t.keyframeOffsets.toArray }

def finishTrack (kind : MediaKind) (checkSizes : Bool)
    (record : (sizes offsets : IndexTable) → TrackRecord) (parsed : Nat) :
    FixedReading σ Track := do
  let (sizes, parsed) ← nextTable checkSizes parsed
  let (offsets, parsed) ← nextTable checkSizes parsed
  let index ← join (record sizes offsets).frameTables
  return { Track.ofRecord kind (record sizes offsets) with occupiedSize := parsed, index }

def readTrack (kind : MediaKind) (checkSizes : Bool) : FixedReading σ Track := do
  let size ← lift (Reading.uint32 "track size")
  let type ← lift (Reading.uint32 "track type")
  let codecByte ← lift (Reading.uint8 "codec id")
  let flag ← lift (Reading.uint8 "track flag")
  let id ← lift (Reading.uint16 "track id")
  let firstTimestamp ← lift (Reading.uint32 "first timestamp")
  let lastTimestamp ← lift (Reading.uint32 "last timestamp")
  let (timestamps, parsed) ← nextTable checkSizes TrackRecord.headerSize
  let record (keyframes : Option IndexTable) (sizes offsets : IndexTable) : TrackRecord :=
    { size, type, codecByte, flag, id, firstTimestamp, lastTimestamp, timestamps, keyframes, sizes,
      offsets }
  match kind with
  | .video =>
    let (keyframes, parsed) ← nextTable checkSizes parsed
    finishTrack kind checkSizes (record (some keyframes)) parsed
  | .audio => finishTrack kind checkSizes (record none) parsed

def keyframeAtOrBefore (x : FrameIndex) (offset : UInt32) : Option (Option UInt32) :=
  match partitionPoint (· ≤ offset) x.keyframeOffsets with
  | 0 => some none
  | n + 1 => x.keyframeOffsets[n]?.map some

def keyframeFor (x : FrameIndex) (time : Int) : Option (Except Error UInt32) :=
  match x.frameAtOrAfter? time, x.keyframeOffsets[0]? with
  | none, _ =>
    some (throw (.seekOutOfRange time (x.lastTimestamp?.elim (-1) fun last => last.toNat)))
  | some _, none => some (throw .noKeyframes)
  | some frame, some first => do
    let found ← keyframeAtOrBefore x frame.offset
    return pure (found.getD first)

end Index

section Recording

def firstFrameOffset (r : Recording) : Option Nat :=
  word (r.mediaDataOffset + Recording.mediaDataHeaderSize)

def mediaDataEnd (r : Recording) : Option Nat := word (r.mediaDataOffset + r.mediaDataSize.toNat)

def readRecording (o : OpenOptions) : FixedReading σ Recording := do
  lift (Reading.seek 0)
  let header ← lift RecordingHeader.read
  if header.isEncrypted ∧ o.refuseEncrypted then throw (.encrypted header.encryptType)
  lift (Reading.seek header.mediaDataOffset)
  let mediaDataSize ← lift (Reading.uint32 "media data size")
  skip (mediaDataSize.toNat - 4) "media data"
  let indexSectionSize ← lift (Reading.uint32 "index section size")
  skip 4 "index section type"
  let video ← readTrack .video o.checkTableSizes
  let audio ← readTrack .audio o.checkTableSizes
  let recording := { header, mediaDataSize, indexSectionSize, video, audio }
  if o.checkIndex then
    if let .error e := recording.validate then throw e
  lift (Reading.seek (← firstFrameOffset recording))
  return recording

def streams (r : Recording) : Option (List StreamInfo) :=
  [r.video, r.audio].mapM fun t => do
    let duration ← timeSpan t.firstTimestamp t.lastTimestamp
    return { StreamInfo.ofTrack t with duration }

end Recording

section Packets

/-- Goes on with a scan. A marker that ends at the place `i` of a block begins one byte before it,
which must not be before `start`. -/
def scanFrom (start regionLeft window scanned : Nat) (previous : UInt8) : FixedReading σ Nat :=
  if window ≤ scanned then
    throw (if regionLeft ≤ scanned then .endOfStream else .syncNotFound start scanned)
  else do
    let left ← difference window scanned
    let block ← upTo (min left MarkerScan.blockSize)
    if block = [] then throw .endOfStream
    else
      match MarkerScan.markerEnd? previous block with
      | some i =>
        let blockStart ← word (start + scanned)
        let last ← word (blockStart + i)
        let offset ← difference last 1
        let _ ← difference offset start
        lift (Reading.seek (← word (offset + marker.length)))
        return offset
      | none =>
        if scanned + block.length < 2 ^ 64 then
          scanFrom start regionLeft window (scanned + block.length) (block.getLast?.getD previous)
        else (none : Option Nat)
termination_by window - scanned
decreasing_by
  have := List.length_pos_iff.mpr ‹block ≠ []›
  omega

-- the byte carried into a scan counts: half of a marker there would lead one byte back
example : (scanFrom 0 2 2 0 0xFF (MeasuredReader.ofSource (MemoryStream.ofBytes [0xFF]))).isNone ∧
    (scanFrom 0 2 2 0 0 (MeasuredReader.ofSource (MemoryStream.ofBytes [0xFF]))).isSome := by
  decide +kernel

def findMarker (regionEnd limit : Nat) : FixedReading σ Nat := do
  let start ← lift Reading.position
  let regionLeft := regionEnd - start
  scanFrom start regionLeft (min regionLeft limit) 0 0

def readFrame (r : Recording) (offset : Nat) : FixedReading σ Packet := do
  let id ← lift (Reading.uint16 "frame track id")
  let number ← lift (Reading.uint32 "frame index")
  let some track := r.trackById? id | throw (.unknownTrack id offset)
  let some frame := track.index.get? number | throw (.indexOutOfRange number track.index.size)
  let pts ← timeSpan r.video.firstTimestamp frame.timestamp
  let position ← lift Reading.position
  let available ← lift Reading.remaining
  let expected := Packet.payloadSize frame
  if available < expected then throw (.truncatedFrame number expected available)
  let data ← lift (Reading.exactly (← word expected) "frame payload")
  return { Packet.ofFrame r track number frame position data with pts }

def readNext (r : Recording) (o : OpenOptions) : FixedReading σ Packet := do
  let regionEnd ← mediaDataEnd r
  if regionEnd ≤ (← lift Reading.position) ∨ (← lift Reading.remaining) = 0 then throw .endOfStream
  let offset ← findMarker regionEnd (o.scanLimit r.mediaDataSize.toNat)
  readFrame r offset

end Packets

section Demuxer

def openSource (o : OpenOptions) (s : σ) : Option (Except Error (Demuxer σ)) := do
  match ← readRecording o (MeasuredReader.ofSource s) with
  | (.error e, _) => return throw e
  | (.ok recording, reader) =>
    let _ ← streams recording
    return pure { reader, recording, options := o }

def seek (d : Demuxer σ) (_stream : Nat) (time : Int64) :
    Option (Except Error Nat × Demuxer σ) := do
  let target := Demuxer.saturatingSum time.toInt d.recording.video.firstTimestamp.toNat
  match ← keyframeFor d.recording.video.index target with
  | .error e => return (throw e, d)
  | .ok offset =>
    let source := ByteSource.seek d.reader.source offset.toNat
    return (pure offset.toNat, { d with reader := { d.reader with source } })

def rewind (d : Demuxer σ) : Option (Demuxer σ) := do
  let source := ByteSource.seek d.reader.source (← firstFrameOffset d.recording)
  return { d with reader := { d.reader with source }, packetsRead := 0 }

-- how the count of packets is checked: `word`, or `some` for a count without end
variable (count : Nat → Option Nat)

def readPacket (d : Demuxer σ) : Option (Except Error Packet × Demuxer σ) := do
  match ← readNext d.recording d.options d.reader with
  | (.error e, reader) => return (throw e, { d with reader })
  | (.ok packet, reader) =>
    return (pure packet, { d with reader, packetsRead := ← count (d.packetsRead + 1) })

def next? (r : PacketRun σ) : Option (Option (Except Error Packet) × PacketRun σ) :=
  if r.finished then some (none, r) else do
  match ← readPacket count r.demuxer with
  | (.ok packet, demuxer) => return (some (pure packet), { r with demuxer })
  | (.error .endOfStream, demuxer) => return (none, { demuxer, finished := true })
  | (.error e, demuxer) => return (some (throw e), { demuxer, finished := true })

def take : (n : Nat) → PacketRun σ → Option (List (Except Error Packet) × PacketRun σ)
  | 0, r => some ([], r)
  | n + 1, r => do
    match ← next? count r with
    | (none, r') => return ([], r')
    | (some item, r') =>
      let (items, r'') ← take n r'
      return (item :: items, r'')

def perform (d : Demuxer σ) : Operation → Option (Outcome × Demuxer σ)
  | .readPacket => do let (result, d') ← readPacket count d; return (.packet result, d')
  | .seek stream time => do let (result, d') ← seek d stream time; return (.offset result, d')
  | .rewind => do return (.done (.ok ()), ← rewind d)
  | .packets most => do
    let (items, r) ← take count most { demuxer := d }
    return (.items items, r.demuxer)
  | .hostReadPacket => do let (result, d') ← readPacket count d; return (.packet result, d')
  | .hostSeek stream time => do
    let (result, d') ← seek d stream time
    return (.done (result.map fun _ => ()), d')

def performAll (d : Demuxer σ) : List Operation → Option (List Outcome × Demuxer σ)
  | [] => some ([], d)
  | op :: ops => do
    let (outcome, d') ← perform count d op
    let (outcomes, d'') ← performAll d' ops
    return (outcome :: outcomes, d'')

end Demuxer

end FixedWidth

end KalayRecord
