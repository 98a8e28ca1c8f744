import LogSocket.Lib.Transducer
import LogSocket.Client
import LogSocket.PrefixStability
import LogSocket.Fuel
import LogSocket.Soundness
import LogSocket.Segmentation
import LogSocket.Ahead
import LogSocket.ObjectOutputStream
import LogSocket.MessageBytes
import LogSocket.Session
import LogSocket.BytesRecords
import LogSocket.Descriptors
import LogSocket.LocationText
import LogSocket.MsgpackEntries
import LogSocket.Outcomes
import LogSocket.ProtocolIndependence
import LogSocket.Termination
import LogSocket.Connection
import LogSocket.Drivers
import LogSocket.Discipline
import LogSocket.Eviction
import LogSocket.Assertions
import LogSocket.Wakeups
import LogSocket.Escapes
import LogSocket.BytesServer
import LogSocket.Atomicity
import LogSocket.LocationRoundTrip
import LogSocket.AnyClass
import LogSocket.DescriptorShapes
import LogSocket.Severity
import LogSocket.Contexts
import LogSocket.MsgpackKeys
import LogSocket.Timestamps
import LogSocket.Scaling
import LogSocket.PollPasses
import LogSocket.Ownership
import LogSocket.DescriptorSets
import LogSocket.Truncation
import LogSocket.BytesRoundTrip
import LogSocket.SkipTypeClass
import LogSocket.Delivery
import LogSocket.Transmission
import LogSocket.ThreadLogs
import LogSocket.Archives
import LogSocket.FileNames
import LogSocket.MsgpackServer
