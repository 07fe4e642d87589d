import AwsOps.Foundation.Js

/-!
# The end-to-end graph

The nodes and edges in which configured flows, sampled services and observed connections come
together. The layer of a node says where it was seen, the evidence of an edge what it rests on.
-/

namespace AwsOps.Topology

/-- What an edge rests on. -/
inductive E2eEvidence
  | configuration | service | network | identity | context
  deriving DecidableEq

/-- Where a node was seen. -/
inductive E2eLayer
  | configuration | service | network
  deriving DecidableEq

def E2eLayer.evidence : E2eLayer → E2eEvidence
  | .configuration => .configuration
  | .service => .service
  | .network => .network

structure E2eNode where
  id : String
  kind : String
  label : String
  layer : E2eLayer
  metadata : Js.Fields

structure E2eEdge where
  id : String
  source : String
  target : String
  relation : String
  evidence : E2eEvidence
  directed : Bool
  label : Option String := none
  metadata : Option Js.Fields := none

structure E2eSummary where
  configuredNodes : Nat
  serviceNodes : Nat
  networkFlows : Nat
  correlatedEndpoints : Nat
  unmatchedEndpoints : Nat
  ambiguousEndpoints : Nat
  observationsUnsupported : Bool

structure E2eGraph where
  nodes : List E2eNode
  edges : List E2eEdge
  summary : E2eSummary

end AwsOps.Topology
