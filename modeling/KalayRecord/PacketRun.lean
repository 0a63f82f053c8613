import KalayRecord.Demuxer

namespace KalayRecord

structure PacketRun (σ : Type) where
  demuxer : Demuxer σ
  finished : Bool := false

namespace PacketRun

variable {σ : Type} [ByteSource σ]

/-- A run ends with the stream or with the first error, which it still hands out, and does not start
again. -/
def next? (r : PacketRun σ) : Option (Except Error Packet) × PacketRun σ :=
  if r.finished then (none, r) else
  match r.demuxer.readPacket with
  | (.ok packet, demuxer) => (some (.ok packet), { r with demuxer })
  | (.error .endOfStream, demuxer) => (none, { demuxer, finished := true })
  | (.error e, demuxer) => (some (.error e), { demuxer, finished := true })

def take : (n : Nat) → PacketRun σ → List (Except Error Packet) × PacketRun σ
  | 0, r => ([], r)
  | n + 1, r =>
    match r.next? with
    | (none, r') => ([], r')
    | (some item, r') =>
      let (items, r'') := take n r'
      (item :: items, r'')

/-- All items. Each packet takes bytes of the media data, so that its end bounds their number. -/
def drain (r : PacketRun σ) : List (Except Error Packet) × PacketRun σ :=
  r.take (r.demuxer.recording.mediaDataEnd + 1)

end PacketRun

end KalayRecord
