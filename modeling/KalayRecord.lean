import KalayRecord.Documents
import KalayRecord.FormatProbe
import KalayRecord.Operation
import KalayRecord.PacedStream
import KalayRecord.RecordingImage
import KalayRecord.Proofs.ReadingSteps
import KalayRecord.Proofs.StreamFaults
import KalayRecord.Proofs.FaithfulReading
import KalayRecord.Proofs.ExactText
import KalayRecord.Proofs.RecordingFormat
import KalayRecord.Proofs.RecordingCodec
import KalayRecord.Proofs.Footage
import KalayRecord.Proofs.FootageIndex
import KalayRecord.Proofs.FootagePlayback
import KalayRecord.Proofs.FootageSeek
import KalayRecord.Proofs.SelfDelimiting
import KalayRecord.Proofs.RecordingExtent
import KalayRecord.Proofs.NextPacket
import KalayRecord.Proofs.Retrying
import KalayRecord.Proofs.MarkerBounds
import KalayRecord.Proofs.FootageDamage
import KalayRecord.Proofs.MarkerWindow
import KalayRecord.Proofs.OpeningChecks
import KalayRecord.Proofs.PacketSpans
import KalayRecord.Proofs.PacketTrace
import KalayRecord.Proofs.OperationLaws
import KalayRecord.Proofs.PacketOutcome
import KalayRecord.Proofs.IndexOrder
import KalayRecord.Proofs.KeyframeResolution
import KalayRecord.Proofs.KeyframeLanding
import KalayRecord.Proofs.FirstViolation
import KalayRecord.Proofs.CheckedSearches
import KalayRecord.Proofs.RunPrefix
import KalayRecord.Proofs.DeliveryPace
import KalayRecord.Proofs.ScanBounds
import KalayRecord.Proofs.SizeWalk
import KalayRecord.Proofs.JsonReading
import KalayRecord.Proofs.JsonNesting
import KalayRecord.Proofs.JsonFields
import KalayRecord.Proofs.OptionDocuments
import KalayRecord.Proofs.FixedWidth
import KalayRecord.Proofs.FixedWidthReading
import KalayRecord.Proofs.FixedWidthRuns
import KalayRecord.Proofs.TableSettings
