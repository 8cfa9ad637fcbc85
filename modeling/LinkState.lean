import LinkState.Network.Installation
import LinkState.Network.Nodes
import LinkState.Spf.KeyedQueue
import LinkState.Proofs.Queue.Order
import LinkState.Proofs.Search.Invariant
import LinkState.Proofs.Search.Steps
import LinkState.Proofs.Search.Run
import LinkState.Proofs.ShortestPaths
import LinkState.Proofs.Operation
import LinkState.Proofs.Calculation
import LinkState.Proofs.Addressing
import LinkState.Proofs.Hops
import LinkState.Proofs.Routes
import LinkState.Proofs.Discovery
import LinkState.Proofs.Build
import LinkState.Proofs.Reachable
import LinkState.Proofs.Population
import LinkState.Proofs.Consistency
import LinkState.Proofs.Forwarding
import LinkState.Proofs.Search.Lineage
import LinkState.Proofs.Search.Chronicle
import LinkState.Proofs.EqualCost
import LinkState.Proofs.Search.Agreement
import LinkState.Proofs.Search.Tally
import LinkState.Proofs.HopOrder
import LinkState.Proofs.Twins
import LinkState.Proofs.StorageOrder
import LinkState.Proofs.Renumbering
import LinkState.Proofs.Wiring
import LinkState.Proofs.Links
import LinkState.Proofs.LinkedHops
import LinkState.Proofs.TreeShape
import LinkState.Proofs.Search.Marks
import LinkState.Proofs.Copies
import LinkState.Proofs.Marking
import LinkState.Proofs.Refilling
import LinkState.Proofs.Interruption
import LinkState.Proofs.Recomputation
import LinkState.Proofs.Inventory
import LinkState.Proofs.Containment
import LinkState.Proofs.Adjacency
import LinkState.Proofs.Unreached
import LinkState.Proofs.Components
import LinkState.Proofs.Parents
import LinkState.Proofs.Sources
import LinkState.Proofs.Attachment
import LinkState.Proofs.DropCounts
import LinkState.Proofs.Termination
import LinkState.Proofs.HopChoice
import LinkState.Proofs.MalformedChannels
import LinkState.Proofs.Queue.Answers
import LinkState.Proofs.Queue.Calls
import LinkState.Proofs.Queue.Keys
import LinkState.Proofs.Lookup
import LinkState.Proofs.Connection
import LinkState.Proofs.AddressForms
import LinkState.Proofs.PrefixMasks
import LinkState.Proofs.RecordCopies
import LinkState.Proofs.RouteCounts
import LinkState.Proofs.Journal.Deliveries
import LinkState.Proofs.Journal.Retention
import LinkState.Proofs.VertexKeys
import LinkState.Proofs.VertexOrder
import LinkState.Proofs.Registry
import LinkState.Proofs.RouterIds
