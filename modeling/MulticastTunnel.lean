import MulticastTunnel.Address
import MulticastTunnel.Address.Text
import MulticastTunnel.Bytes
import MulticastTunnel.Channel
import MulticastTunnel.Channel.Tree
import MulticastTunnel.Checksum
import MulticastTunnel.Config
import MulticastTunnel.Config.File
import MulticastTunnel.Datagram
import MulticastTunnel.Fault
import MulticastTunnel.Gateway
import MulticastTunnel.Gateway.Application
import MulticastTunnel.Handshake
import MulticastTunnel.Interface
import MulticastTunnel.IoError
import MulticastTunnel.IoError.SystemText
import MulticastTunnel.Keyed.Table
import MulticastTunnel.Main
import MulticastTunnel.Membership.Control
import MulticastTunnel.Membership.Envelope
import MulticastTunnel.Membership.ExponentialCode
import MulticastTunnel.Membership.Filter
import MulticastTunnel.Membership.Query
import MulticastTunnel.Membership.Record
import MulticastTunnel.Membership.Report
import MulticastTunnel.Membership.Reporter
import MulticastTunnel.Membership.StateChange
import MulticastTunnel.Message
import MulticastTunnel.Message.Codec
import MulticastTunnel.Ordered.Insertion
import MulticastTunnel.Ordered.Map
import MulticastTunnel.Ordered.Set
import MulticastTunnel.Output.StreamSink
import MulticastTunnel.Output.Target
import MulticastTunnel.Packet
import MulticastTunnel.Packet.Build
import MulticastTunnel.Packet.Fragmentation
import MulticastTunnel.Packet.Text
import MulticastTunnel.Proofs.Channel.Answers
import MulticastTunnel.Proofs.Channel.Balance
import MulticastTunnel.Proofs.Channel.Contents
import MulticastTunnel.Proofs.Channel.Journal
import MulticastTunnel.Proofs.Channel.Reception
import MulticastTunnel.Proofs.Channel.Subscriptions
import MulticastTunnel.Proofs.Channel.Upstream
import MulticastTunnel.Proofs.Checked.Buffers
import MulticastTunnel.Proofs.Checked.Checksum
import MulticastTunnel.Proofs.Checked.Holes
import MulticastTunnel.Proofs.Checked.Inputs
import MulticastTunnel.Proofs.Checked.Machine
import MulticastTunnel.Proofs.Checked.Membership
import MulticastTunnel.Proofs.Checked.Messages
import MulticastTunnel.Proofs.Checked.Packets
import MulticastTunnel.Proofs.Checked.Reassembly
import MulticastTunnel.Proofs.Checksum
import MulticastTunnel.Proofs.Datagram
import MulticastTunnel.Proofs.Gateway.Subscriptions
import MulticastTunnel.Proofs.Handshake.Advertisements
import MulticastTunnel.Proofs.Handshake.GatewayChanges
import MulticastTunnel.Proofs.Handshake.Operations
import MulticastTunnel.Proofs.Handshake.Run
import MulticastTunnel.Proofs.Interface.Answering
import MulticastTunnel.Proofs.Interface.Closing
import MulticastTunnel.Proofs.Interface.Deeds
import MulticastTunnel.Proofs.Interface.Deliveries
import MulticastTunnel.Proofs.Interface.Keepalive
import MulticastTunnel.Proofs.Interface.Reaping
import MulticastTunnel.Proofs.Interface.Run
import MulticastTunnel.Proofs.Interface.Serving
import MulticastTunnel.Proofs.Interface.Subscribers
import MulticastTunnel.Proofs.Keyed.Contents
import MulticastTunnel.Proofs.Membership.Changes
import MulticastTunnel.Proofs.Membership.Codec
import MulticastTunnel.Proofs.Membership.Corruption
import MulticastTunnel.Proofs.Membership.Deferral
import MulticastTunnel.Proofs.Membership.Demand
import MulticastTunnel.Proofs.Membership.Describing
import MulticastTunnel.Proofs.Membership.FailedJoins
import MulticastTunnel.Proofs.Membership.Families
import MulticastTunnel.Proofs.Membership.Following
import MulticastTunnel.Proofs.Membership.GeneralAnswer
import MulticastTunnel.Proofs.Membership.Kindred
import MulticastTunnel.Proofs.Membership.Outlets
import MulticastTunnel.Proofs.Membership.Pending
import MulticastTunnel.Proofs.Membership.Queries
import MulticastTunnel.Proofs.Membership.Refinement
import MulticastTunnel.Proofs.Membership.Relay
import MulticastTunnel.Proofs.Membership.Requests
import MulticastTunnel.Proofs.Membership.Retransmission
import MulticastTunnel.Proofs.Membership.Rounding
import MulticastTunnel.Proofs.Membership.Steps
import MulticastTunnel.Proofs.Message.Codec
import MulticastTunnel.Proofs.Message.Truncation
import MulticastTunnel.Proofs.Octets
import MulticastTunnel.Proofs.Ordered.Contents
import MulticastTunnel.Proofs.Packet.Altered
import MulticastTunnel.Proofs.Packet.Build
import MulticastTunnel.Proofs.Packet.Delimiting
import MulticastTunnel.Proofs.Packet.Fragments
import MulticastTunnel.Proofs.Packet.Headers
import MulticastTunnel.Proofs.Packet.Options
import MulticastTunnel.Proofs.Packet.Rebuilt
import MulticastTunnel.Proofs.Reassembly.Absorbing
import MulticastTunnel.Proofs.Reassembly.Accounting
import MulticastTunnel.Proofs.Reassembly.Admission
import MulticastTunnel.Proofs.Reassembly.Ageing
import MulticastTunnel.Proofs.Reassembly.Completion
import MulticastTunnel.Proofs.Reassembly.Eviction
import MulticastTunnel.Proofs.Reassembly.Isolation
import MulticastTunnel.Proofs.Reassembly.Links
import MulticastTunnel.Proofs.Reassembly.Missing
import MulticastTunnel.Proofs.Reassembly.Offering
import MulticastTunnel.Proofs.Reassembly.Overlap
import MulticastTunnel.Proofs.Reassembly.Promptness
import MulticastTunnel.Proofs.Reassembly.Queue
import MulticastTunnel.Proofs.Reassembly.Splitting
import MulticastTunnel.Proofs.Reassembly.Tiling
import MulticastTunnel.Proofs.Reassembly.Traversal
import MulticastTunnel.Proofs.Reassembly.Wholeness
import MulticastTunnel.Proofs.Registry.Counting
import MulticastTunnel.Proofs.Registry.Leases
import MulticastTunnel.Proofs.Timer.Consistency
import MulticastTunnel.Proofs.Timer.Diary
import MulticastTunnel.Proofs.Timer.Punctuality
import MulticastTunnel.Proofs.Tunnel.Attempts
import MulticastTunnel.Proofs.Tunnel.Clock
import MulticastTunnel.Proofs.Tunnel.Course
import MulticastTunnel.Proofs.Tunnel.Fencing
import MulticastTunnel.Proofs.Tunnel.History
import MulticastTunnel.Proofs.Tunnel.Peers
import MulticastTunnel.Proofs.Tunnel.Run
import MulticastTunnel.Proofs.Tunnel.Session
import MulticastTunnel.Proofs.Tunnel.Waiting
import MulticastTunnel.Reassembly.Buffer
import MulticastTunnel.Reassembly.Holes
import MulticastTunnel.Reassembly.Reassembler
import MulticastTunnel.Receiver
import MulticastTunnel.Receiver.Arguments
import MulticastTunnel.Registry
import MulticastTunnel.Registry.Holdings
import MulticastTunnel.Rounding
import MulticastTunnel.Statistics.Display
import MulticastTunnel.Statistics.Quantity
import MulticastTunnel.Text.Reader
import MulticastTunnel.Timer
import MulticastTunnel.Timer.Scheduler
import MulticastTunnel.Timer.Timetable
import MulticastTunnel.Toml.Document
import MulticastTunnel.Toml.Printer
import MulticastTunnel.Toml.Scalar
import MulticastTunnel.Toml.Value
import MulticastTunnel.Tunnel
import MulticastTunnel.Tunnel.Outcome
import MulticastTunnel.World
