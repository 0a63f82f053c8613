import KalayRecord.PacketRun

namespace KalayRecord

inductive Operation where
  | readPacket
  | seek (stream : Nat) (time : Int64)
  | rewind
  | packets (most : Nat)
  /-- As a host asks for it. -/
  | hostReadPacket
  | hostSeek (stream : Nat) (time : Int64)
  deriving DecidableEq, Repr

inductive Outcome where
  | packet (result : Except Error Packet)
  | offset (result : Except Error Nat)
  | done (result : Except Error Unit)
  | items (items : List (Except Error Packet))

namespace Demuxer

variable {σ : Type} [ByteSource σ]

def perform (d : Demuxer σ) : Operation → Outcome × Demuxer σ
  | .readPacket => let (result, d') := d.readPacket; (.packet result, d')
  | .seek stream time => let (result, d') := d.seek stream time; (.offset result, d')
  | .rewind => (.done (.ok ()), d.rewind)
  | .packets most =>
    let (items, r) := PacketRun.take most { demuxer := d }
    (.items items, r.demuxer)
  | .hostReadPacket => let (result, d') := PacketSource.readPacket d; (.packet result, d')
  | .hostSeek stream time => let (result, d') := PacketSource.seek d stream time; (.done result, d')

def performAll (d : Demuxer σ) : List Operation → List Outcome × Demuxer σ
  | [] => ([], d)
  | op :: ops =>
    let (outcome, d') := d.perform op
    let (outcomes, d'') := performAll d' ops
    (outcome :: outcomes, d'')

end Demuxer

end KalayRecord
