import FirmwareBundle.Main
import FirmwareBundle.Proofs.RecordGrammar
import FirmwareBundle.Proofs.BundleRoundTrip
import FirmwareBundle.Proofs.Independence
import FirmwareBundle.Proofs.PrefixFree
import FirmwareBundle.Proofs.SinkCalls
import FirmwareBundle.Proofs.HeaderTexts
import FirmwareBundle.Proofs.Files
import FirmwareBundle.Proofs.Saving
import FirmwareBundle.Proofs.Delivery
import FirmwareBundle.Proofs.Extraction
import FirmwareBundle.Proofs.FailedScans
import FirmwareBundle.Proofs.DiskRoundTrip
import FirmwareBundle.Proofs.Aggregate
import FirmwareBundle.Proofs.ScanModes
import FirmwareBundle.Proofs.Commands
import FirmwareBundle.Proofs.HeaderFields
import FirmwareBundle.Proofs.HeaderShapes
import FirmwareBundle.Proofs.BuiltBundle
import FirmwareBundle.Proofs.HeaderSpelling
import FirmwareBundle.Proofs.MovedRecords
import FirmwareBundle.Proofs.PrintedHeader
import FirmwareBundle.Proofs.PlainDigest
import FirmwareBundle.Proofs.UnquotedDigests
import FirmwareBundle.Bundle.Writer
import FirmwareBundle.Proofs.BuilderSteps
import FirmwareBundle.Proofs.Streaming
import FirmwareBundle.Proofs.Confinement
import FirmwareBundle.Proofs.ArgumentReading
import FirmwareBundle.Proofs.InspectArguments
import FirmwareBundle.Proofs.PartialSettings
import FirmwareBundle.Proofs.StoredDigests
import FirmwareBundle.Proofs.UsableTable
import FirmwareBundle.Proofs.RecordBoundary
import FirmwareBundle.Proofs.WordCursor
