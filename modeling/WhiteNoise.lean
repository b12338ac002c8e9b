import WhiteNoise.Circuit.Rendezvous
import WhiteNoise.Circuit.Handshake
import WhiteNoise.Registry.Consistency
import WhiteNoise.Acks.Delivery
import WhiteNoise.Stream.Order
import WhiteNoise.Stream.Framing
import WhiteNoise.Stream.FrameSize
import WhiteNoise.Session.Shape
import WhiteNoise.Session.Atomicity
import WhiteNoise.Session.Isolation
import WhiteNoise.Circuit.Confirmation
import WhiteNoise.Circuit.SingleHandshake
import WhiteNoise.Session.Service
import WhiteNoise.Session.Orphans
import WhiteNoise.Survival.RelayPlane
import WhiteNoise.Survival.Requests
import WhiteNoise.Survival.RequestLoops
import WhiteNoise.Circuit.Place
import WhiteNoise.Circuit.Bystander
import WhiteNoise.Circuit.Carriage
import WhiteNoise.Circuit.SecureChannel
import WhiteNoise.Circuit.Transparency
import WhiteNoise.Network.Protocols
import WhiteNoise.Process.Among
import WhiteNoise.Network.Turns
import WhiteNoise.Network.Answers
import WhiteNoise.Network.MainNets
import WhiteNoise.Registry.Ownership
import WhiteNoise.Account.AccountService
import WhiteNoise.Account.Negotiation
import WhiteNoise.Acks.Silent
import WhiteNoise.Acks.Replies
import WhiteNoise.Circuit.Dial
import WhiteNoise.Session.Turns
import WhiteNoise.Acks.Building
import WhiteNoise.Session.Displaced
import WhiteNoise.Session.Leftover
import WhiteNoise.Circuit.Candidates
import WhiteNoise.Circuit.Quest
import WhiteNoise.Account.SessionId
import WhiteNoise.Circuit.Residue
import WhiteNoise.Circuit.Scan
import WhiteNoise.Stream.Ends
import WhiteNoise.Stream.OutStreams
import WhiteNoise.Stream.Conservation
import WhiteNoise.Stream.Freshness
import WhiteNoise.Sdk.Client
import WhiteNoise.Sdk.Host
import WhiteNoise.Circuit.Owner
import WhiteNoise.Circuit.Cleanup
import WhiteNoise.Stream.Confusion
import WhiteNoise.Process.Refinement
import WhiteNoise.Swarm.Relay
import WhiteNoise.Swarm.Behaviour
import WhiteNoise.Swarm.Machine
import WhiteNoise.Swarm.Refinement
import WhiteNoise.Swarm.Delivery
import WhiteNoise.Swarm.Drain
import WhiteNoise.Swarm.Dials
import WhiteNoise.Process.Conduct
import WhiteNoise.Network.Traffic
import WhiteNoise.Swarm.EventLoop
import WhiteNoise.Network.Told
import WhiteNoise.Network.Parties
import WhiteNoise.Process.Cost
import WhiteNoise.Network.Thrift
import WhiteNoise.Stream.Link
