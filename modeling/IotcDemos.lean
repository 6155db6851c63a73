import IotcDemos.Lib.Bytes
import IotcDemos.Lib.CText
import IotcDemos.Lib.CNumber
import IotcDemos.Lib.ForLoop
import IotcDemos.Lib.Cuts
import IotcDemos.Lib.Split
import IotcDemos.Lib.Excerpt
import IotcDemos.Lib.PyText
import IotcDemos.Lib.Base64
import IotcDemos.Lib.Suppress
import IotcDemos.Lib.TopN
import IotcDemos.Lib.Crc32
import IotcDemos.Lib.Errno
import IotcDemos.Lib.Argmax
import IotcDemos.Lib.Zlib
import IotcDemos.Lib.Png
import IotcDemos.Lib.Run
import IotcDemos.Lib.Fifo
import IotcDemos.Lib.LossyQueue
import IotcDemos.Lib.Hysteresis
import IotcDemos.Lib.Disk
import IotcDemos.Lib.CachedDisk
import IotcDemos.Lib.FaultyDisk
import IotcDemos.Lib.ByteRing
import IotcDemos.Lib.NorFlash
import IotcDemos.Lib.Json
import IotcDemos.Gateway.Spool
import IotcDemos.Gateway.Slots
import IotcDemos.Gateway.Window
import IotcDemos.Gateway.Recovery
import IotcDemos.Gateway.Queue
import IotcDemos.Gateway.Reboot
import IotcDemos.Gateway.Foreign
import IotcDemos.Gateway.Accounting
import IotcDemos.Gateway.Counters
import IotcDemos.Gateway.Drain
import IotcDemos.Gateway.Progress
import IotcDemos.Gateway.Shelf
import IotcDemos.Gateway.Crash
import IotcDemos.Gateway.Refill
import IotcDemos.Gateway.Main
import IotcDemos.Gateway.FailedWipe
import IotcDemos.Gateway.Interleaving
import IotcDemos.Gateway.ChildRecord
import IotcDemos.Gateway.Delivery
import IotcDemos.Gateway.Fates
import IotcDemos.Gateway.CatchUp
import IotcDemos.Gateway.Resend
import IotcDemos.Gateway.UartIngest
import IotcDemos.Gateway.LineQueue
import IotcDemos.Gateway.Framing
import IotcDemos.Gateway.Relay
import IotcDemos.Gateway.Source
import IotcDemos.Zip.Walk
import IotcDemos.Zip.Termination
import IotcDemos.Zip.Bounds
import IotcDemos.Zip.Archive
import IotcDemos.Iotm.Blob
import IotcDemos.Iotm.Device
import IotcDemos.Iotm.Valid
import IotcDemos.Iotm.Transfer
import IotcDemos.Iotm.Persist
import IotcDemos.Iotm.Infer
import IotcDemos.Iotm.Access
import IotcDemos.Iotm.Pack
import IotcDemos.Iotm.Banded
import IotcDemos.Iotm.Record
import IotcDemos.Iotm.Labels
import IotcDemos.Vision.Store
import IotcDemos.Vision.Pack
import IotcDemos.Vision.Flash
import IotcDemos.Vision.Install
import IotcDemos.Vision.Normalize
import IotcDemos.Vision.Jobs
import IotcDemos.Vision.Fetch
import IotcDemos.Vision.Staging
import IotcDemos.Vision.Reset
import IotcDemos.Vision.ResetInv
import IotcDemos.Vision.ResetRuns
import IotcDemos.Vision.PngGray
import IotcDemos.Vision.Name
import IotcDemos.Vision.Packaging
import IotcDemos.Vision.Occupancy
import IotcDemos.Vision.MainLoop
import IotcDemos.Vision.Camera
import IotcDemos.Vision.CameraBuffers
import IotcDemos.Vision.Snapshot
import IotcDemos.Vision.SnapshotImage
import IotcDemos.Vision.SnapshotOwner
import IotcDemos.Vision.SnapshotRequests
import IotcDemos.Vision.SnapshotVerdict
import IotcDemos.Vision.ConsoleSnap
import IotcDemos.Vibration.Commands
import IotcDemos.Vibration.Motor
import IotcDemos.Vibration.Capture
import IotcDemos.FaceDetect.Report
import IotcDemos.FaceDetect.Nms
import IotcDemos.FaceDetect.Detector
import IotcDemos.FaceDetect.Results
import IotcDemos.FaceDetect.Pixels
import IotcDemos.FaceDetect.Stitch
import IotcDemos.FaceDetect.Rectangles
import IotcDemos.FaceDetect.ConvDisp
import IotcDemos.FaceDetect.Sync
