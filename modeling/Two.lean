import Two.Base.Conf
import Two.Base.Bytes
import Two.HeaderList
import Two.Library.BitStream
import Two.Hpack.Utils
import Two.Hpack.Huffman
import Two.Hpack.Tables
import Two.Hpack.Encoder
import Two.Hpack.Decoder
import Two.Hpack.IntegerCoding
import Two.Hpack.IntegerDecoding
import Two.Hpack.BitCoding
import Two.Hpack.HuffmanCoding
import Two.Hpack.StringCoding
import Two.Hpack.Representation
import Two.Hpack.Codec
import Two.Library.Ring
import Two.Hpack.TableContents
import Two.Hpack.TableSearch
import Two.Hpack.RoundTrip
import Two.Frames
import Two.Http
import Two.Library.Trace
import Two.Library.LinkedList
import Two.Event.State
import Two.Event.Cbuf
import Two.Event.WriteQueue
import Two.Http2.Context
import Two.Event.Operations
import Two.Http2.Handlers
import Two.Event.Loop
import Two.Library.Hoare
import Two.Event.Resources
import Two.Event.Conservation
import Two.Event.Heap
import Two.Http2.Effects
import Two.Http2.Transition
import Two.Http2.Simulation
import Two.Event.Simulation
import Two.Event.Runs
import Two.Http2.Streams
import Two.Http2.Provenance
import Two.Http2.Independence
import Two.Http2.Isolation
import Two.Http2.Requests
import Two.HeaderMap
import Two.Hpack.TableRefinement
import Two.Http2.FlowControl
import Two.Http2.Wakeup
import Two.Http2.Receiving
import Two.Http2.Reassembly
import Two.Http2.Reception
import Two.Http2.Writes
import Two.Event.Connection
import Two.Http2.Goaway
import Two.Http2.StreamIds
import Two.Hpack.HuffmanAcceptance
import Two.Hpack.BlockBounds
import Two.Hpack.IntegerSizes
import Two.Hpack.EosCheck
import Two.Hpack.TmpBuffers
import Two.Hpack.Delivery
import Two.Hpack.EncodedSizes
import Two.Hpack.StringRoundTrip
import Two.Hpack.EncoderResults
import Two.Library.Loops
import Two.Hpack.EncoderTermination
import Two.Hpack.OversizedEntries
import Two.Hpack.StaticOnly
import Two.Http2.Framing
import Two.Http2.Orphans
import Two.Http2.Handshake
import Two.Http2.Errors
import Two.Http2.WritePool
import Two.Library.Relational
import Two.Http2.FrameLocal
import Two.Http2.Digest
import Two.Http2.Segmentation
import Two.HeaderMemory
import Two.Registry
import Two.Validation
import Two.Http2.SettingsFrames
import Two.Http2.FrameCodec
import Two.Http2.WindowArithmetic
import Two.Http2.Confinement
import Two.Http2.Contiguity
import Two.Http2.Agreement
import Two.Library.PrefixInteger
import Two.Hpack.Semantics
import Two.Hpack.Spelling
import Two.Hpack.Conformance
import Two.Hpack.SelfContained
import Two.Hpack.EncoderConformance
import Two.Event.Polling
import Two.Http2.Closed
import Two.Http2.Responses
import Two.Event.Assertions
import Two.Http2.Collecting
import Two.Http2.Answering
import Two.Http2.Exchange
import Two.Http2.Session
