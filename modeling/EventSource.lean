import EventSource.Lib.CMemory
import EventSource.Lib.Transducer
import EventSource.Lib.Trace
import EventSource.Lib.WrapClock
import EventSource.Lib.RingBuffer
import EventSource.Lib.Cut
import EventSource.Lib.UriReference
import EventSource.Lib.Contract
import EventSource.Parser.Machine
import EventSource.Parser.LineReading
import EventSource.Parser.Representation
import EventSource.Parser.FieldSteps
import EventSource.Parser.Refinement
import EventSource.Parser.StreamRefinement
import EventSource.Parser.Blocks
import EventSource.Parser.DroppedId
import EventSource.Parser.Outcomes
import EventSource.Parser.BufferSafety
import EventSource.Client.State
import EventSource.Client.Machine
import EventSource.Client.Protocol
import EventSource.Client.Simulation
import EventSource.Client.Lifecycle
import EventSource.Client.TransportCalls
import EventSource.Client.Connections
import EventSource.Client.Delivery
import EventSource.Client.ResumePosition
import EventSource.Client.Reconnect
import EventSource.Client.RetryDelay
import EventSource.Client.Hints
import EventSource.Client.FalseAlarms
import EventSource.Client.Backoff
import EventSource.Client.Isolation
import EventSource.Client.ConnectPolicy
import EventSource.Port.HttpText
import EventSource.Port.CurlTransport
import EventSource.Port.CurlSteps
import EventSource.Port.CurlRing
import EventSource.Port.HeaderLines
import EventSource.Port.CurlDelivery
import EventSource.Port.CurlOpen
import EventSource.Port.FinalResponse
import EventSource.Port.Origin
import EventSource.Port.EspTransport
import EventSource.Port.UrlCopies
import EventSource.Port.EspOpen
import EventSource.Port.RetryAfter
import EventSource.Port.Redirects
import EventSource.Parser.WireFormat
import EventSource.Client.PollParts
import EventSource.Client.CallbackOrder
import EventSource.Client.IdleTimeout
import EventSource.Client.Drivers
import EventSource.Port.EspRead
import EventSource.System.Stack
import EventSource.System.Relay
import EventSource.System.CurlStack
import EventSource.System.EspStack
import EventSource.System.Server
import EventSource.System.Resume
import EventSource.System.CurlResume
import EventSource.System.EspResume
