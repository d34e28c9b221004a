import Httpoll.ForStd.Loop
import Httpoll.ForStd.Lines
import Httpoll.ForStd.CheckedBuffer
import Httpoll.ForStd.Base64
import Httpoll.ForStd.Rfc6455
import Httpoll.ForStd.Rfc7230
import Httpoll.ForStd.Runs
import Httpoll.ForStd.Separated
import Httpoll.ForStd.Fifo
import Httpoll.ForStd.Ownership
import Httpoll.ForStd.Glob
import Httpoll.ForStd.EcmaRegex
import Httpoll.ForStd.RegexLengths
import Httpoll.ForStd.EcmaGroups
import Httpoll.Native.Str
import Httpoll.Native.RequestLine
import Httpoll.Native.RequestLineReads
import Httpoll.Native.Response
import Httpoll.Native.HeaderParser
import Httpoll.Native.RequestHandler
import Httpoll.Native.Socket
import Httpoll.Native.Connection
import Httpoll.Native.WebsocketUtils
import Httpoll.Native.ExternalHelpers
import Httpoll.Native.WebsocketConnection
import Httpoll.Native.Server
import Httpoll.Native.Poll
import Httpoll.Native.CircularBuffer
import Httpoll.Native.BroadcastGroup
import Httpoll.Native.ServerPing
import Httpoll.Native.GroupDescriptors
import Httpoll.Native.PollWrites
import Httpoll.Spec.PushLineLoops
import Httpoll.Spec.FrameHeaderRoundTrip
import Httpoll.Spec.WebsocketBounds
import Httpoll.Spec.FrameLengths
import Httpoll.Spec.WebsocketMessages
import Httpoll.Spec.WebsocketReassembly
import Httpoll.Spec.OutgoingFrames
import Httpoll.Spec.AcceptKey
import Httpoll.Spec.PushLineStates
import Httpoll.Spec.ContentLength
import Httpoll.Spec.HeaderTokens
import Httpoll.Spec.ProcessDataInLoops
import Httpoll.Spec.LineSplitting
import Httpoll.Spec.Turns
import Httpoll.Spec.HeaderSegmentation
import Httpoll.Spec.BodyDelivery
import Httpoll.Spec.BodyCompletion
import Httpoll.Spec.BodyAccounting
import Httpoll.Spec.BodyOverrun
import Httpoll.Spec.Session
import Httpoll.Spec.InputBuffer
import Httpoll.Spec.HeaderBlock
import Httpoll.Spec.Dispatch
import Httpoll.Spec.Requests
import Httpoll.Spec.RequestRoundTrip
import Httpoll.Spec.RequestLineRecognition
import Httpoll.Spec.RequestLineBounds
import Httpoll.Spec.HeaderBlanks
import Httpoll.Spec.HeaderCase
import Httpoll.Spec.HeaderRecognition
import Httpoll.Spec.ParserInvariants
import Httpoll.Spec.ResponseLayout
import Httpoll.Spec.ResponseStream
import Httpoll.Spec.KeepAlive
import Httpoll.Spec.CircularBufferFifo
import Httpoll.Spec.CircularBufferCommits
import Httpoll.Spec.BroadcastDelivery
import Httpoll.Spec.Clients
import Httpoll.Spec.Descriptors
import Httpoll.Spec.Handlers
import Httpoll.Spec.WildcardRouting
import Httpoll.Spec.LiteralRouting
import Httpoll.Spec.RegistrationOrder
import Httpoll.Spec.FreedConnections
import Httpoll.Spec.HookSteps
import Httpoll.Spec.CloseHooks
import Httpoll.Spec.ConnectionLog
import Httpoll.Spec.Conversation
import Httpoll.Spec.Isolation
import Httpoll.Spec.Pings
import Httpoll.Spec.GroupDescriptors
import Httpoll.Spec.PollWrites
import Httpoll.Native.BroadcastContext
import Httpoll.Spec.CircularBufferMoves
import Httpoll.Spec.ClientReads
import Httpoll.Spec.BroadcastContext
import Httpoll.Spec.SubscriberStream
import Httpoll.Spec.Reader
