import Switchboard.LogFormat
import Switchboard.Main
import Switchboard.Simulation.Script
import Switchboard.Proofs.Dictionary
import Switchboard.Proofs.Registry.Consistency
import Switchboard.Proofs.Call.Attempts
import Switchboard.Proofs.Text.Utf8
import Switchboard.Proofs.Xml.Grammar
import Switchboard.Proofs.Xml.Reference
import Switchboard.Proofs.Xml.Scanning
import Switchboard.Proofs.Soap.Fields
import Switchboard.Proofs.Soap.Envelope
import Switchboard.Proofs.Soap.Fault
import Switchboard.Proofs.Fingerprint
import Switchboard.Proofs.Registry.Identity
import Switchboard.Proofs.Call.Shared
import Switchboard.Proofs.Call.Reports
import Switchboard.Proofs.Network.Recording
import Switchboard.Proofs.Network.Sending
import Switchboard.Proofs.Call.Traffic
import Switchboard.Proofs.Text.Order
import Switchboard.Proofs.Http.Headers
import Switchboard.Proofs.Xml.WellFormed
import Switchboard.Proofs.Soap.Injection
import Switchboard.Proofs.Call.Interleaving
import Switchboard.Proofs.Call.Eviction
import Switchboard.Proofs.Soap.FaultTree
import Switchboard.Proofs.Xml.Cutting
import Switchboard.Proofs.Soap.Truncation
import Switchboard.Proofs.Proto.Linking
import Switchboard.Proofs.Text.Base64
import Switchboard.Proofs.Proto.Scalars
import Switchboard.Proofs.Proto.Contents
import Switchboard.Proofs.Proto.Reading
import Switchboard.Proofs.Proto.RoundTrip
import Switchboard.Proofs.Grpc.Payload
import Switchboard.Proofs.Proto.Arrangement
import Switchboard.Proofs.Form
import Switchboard.Proofs.Grpc.Gathering
import Switchboard.Proofs.Json.RoundTrip
import Switchboard.Proofs.Http.Lookup
import Switchboard.Proofs.Proto.Form
import Switchboard.Proofs.Grpc.Nulls
import Switchboard.Proofs.Grpc.Depth
import Switchboard.Proofs.Proto.Payloads
import Switchboard.Proofs.Proto.Regular
import Switchboard.Proofs.Proto.Stored
import Switchboard.Proofs.Proto.Decoding
import Switchboard.Proofs.Proto.Reads
import Switchboard.Proofs.Proto.Rooms
import Switchboard.Proofs.Proto.Settled
import Switchboard.Proofs.Proto.Encoding
import Switchboard.Proofs.Grpc.Bodies
import Switchboard.Proofs.Json.Record
import Switchboard.Proofs.Endpoint.WrittenForm
import Switchboard.Proofs.Call.Clock
import Switchboard.Proofs.Text.Runs
import Switchboard.Proofs.Catalog.Choice
import Switchboard.Proofs.CommandLine.Mixture
import Switchboard.Proofs.Soap.Namespace
import Switchboard.Proofs.Call.WrittenForm
import Switchboard.Proofs.Grpc.MethodPath
import Switchboard.Proofs.Retry
import Switchboard.Proofs.Text.Lossy
import Switchboard.Proofs.Http.Received
