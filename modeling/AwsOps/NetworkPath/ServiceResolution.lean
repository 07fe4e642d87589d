import Mathlib.Data.Prod.Lex
import AwsOps.NetworkPath.KubernetesPolicy
import AwsOps.NetworkPath.Route53

/-!
# Service resolution in a cluster

From the rules of an ingress to a service and its endpoints: the most specific rules that match the
host and the path of a request have to agree on a backend, the service has to declare its port, and
its endpoints have to be ready. `service_resolution_sound` says that the order of the evidence does
not matter, and what it takes to be allowed.
-/

namespace AwsOps.NetworkPath

open List AwsOps.Text
open DnsNames (Name)

/-! ## The evidence -/

/-- A rule of an ingress, with its host and its path. -/
structure IngressRule where
  host : Option String
  path : Option String
  pathType : Option String
  backendService : Option String
  backendPort : Option PortRef
  deriving DecidableEq

structure ServicePort where
  port : Option Int
  name : Option String
  deriving DecidableEq

/-- A service, by its ports. An entry that is no dictionary is `none`. -/
structure K8sService where
  ports : List (Option ServicePort)
  deriving DecidableEq

/-- An endpoint of a slice. -/
structure K8sEndpoint where
  ready : Option Bool
  deriving DecidableEq

/-- What was fetched of the cluster. -/
structure IngressEvidence where
  rules : List IngressRule
  services : List (String × K8sService)
  endpointSlices : List (String × List K8sEndpoint)
  dataAvailable : Bool
  deriving DecidableEq

/-- The host and the path of a request. -/
structure IngressRequest where
  host : Option String
  path : Option String
  deriving DecidableEq

/-- The evidence of a result. -/
inductive ResolutionEvidence where
  | rule (r : IngressRule)
  | port (p : ServicePort)
  | endpoint (e : K8sEndpoint)
  deriving DecidableEq

/-! ## Matching -/

def IngressRequest.hostName (U : Unicode) (request : IngressRequest) : Option Name :=
  (present request.host).map (normalizeName U)

def IngressRequest.pathText (request : IngressRequest) : String :=
  (present request.path).getD "/"

/-- What a match says: that it cannot be told, or whether there is one and how specific it is. -/
inductive RuleMatch (α : Type) where
  | unresolvable
  | no
  | yes (rank : α)
  deriving DecidableEq

/-- `_host_match`: a wildcard stands for one label. -/
def hostMatch (U : Unicode) (reqHost : Option Name) (ruleHost : Option String) : RuleMatch Nat :=
  match ruleHost, reqHost with
  | none, _ => .yes 0
  | some _, none => .unresolvable
  | some ruleHost, some reqHost =>
    let norm := normalizeName U ruleHost
    if norm = reqHost then .yes 2
    else if ['*', '.'].isPrefixOf norm then
      let parent := norm.drop 1
      let label := reqHost.take (reqHost.length - parent.length)
      if parent.isSuffixOf reqHost && !label.isEmpty && !label.contains '.' then .yes 1 else .no
    else .no

/-- A path below another one. -/
def underPath (reqPath rp : List Char) : Bool :=
  let lead := if ['/'].isSuffixOf rp then rp else rp ++ ['/']
  reqPath == rp.rdropWhile (· == '/') || lead.isPrefixOf reqPath

/-- `_path_match`: the rank of the type and the length of the path. -/
def pathMatch (reqPath : String) (rule : IngressRule) : RuleMatch (Nat × Nat) :=
  match present rule.path with
  | none => .yes (0, 0)
  | some rp =>
    match rule.pathType with
    | some "Exact" => if reqPath = rp then .yes (2, rp.length) else .no
    | some "Prefix" =>
      if underPath reqPath.toList rp.toList then .yes (1, rp.length) else .no
    | _ => .unresolvable

/-- How specific a match is: the host first, then the type of the path, then its length. -/
abbrev Specificity :=
  Nat ×ₗ (Nat ×ₗ Nat)

variable (U : Unicode) (request : IngressRequest)

/-- The rule against the request. -/
def IngressRule.specificity (rule : IngressRule) : RuleMatch Specificity :=
  match hostMatch U (request.hostName U) rule.host with
  | .unresolvable => .unresolvable
  | .no => .no
  | .yes hostRank =>
    match pathMatch request.pathText rule with
    | .unresolvable => .unresolvable
    | .no => .no
    | .yes (pathRank, length) => .yes (toLex (hostRank, toLex (pathRank, length)))

/-- A rule whose path cannot be told has been seen. -/
def sawUnresolvablePath (rules : List IngressRule) : Bool :=
  rules.any fun rule =>
    match hostMatch U (request.hostName U) rule.host with
    | .yes _ => pathMatch request.pathText rule == .unresolvable
    | _ => false

/-- A rule whose host cannot be told has been seen. -/
def sawUnresolvableHost (rules : List IngressRule) : Bool :=
  rules.any fun rule => hostMatch U (request.hostName U) rule.host == .unresolvable

/-- The rules that match, with how specific they are. -/
def candidates (rules : List IngressRule) : List (Specificity × IngressRule) :=
  rules.filterMap fun rule =>
    match rule.specificity U request with
    | .yes rank => some (rank, rule)
    | _ => none

/-- The most specific rules that match. -/
def tied (rules : List IngressRule) : List IngressRule :=
  let candidates := candidates U request rules
  match (candidates.map Prod.fst).max? with
  | none => []
  | some best => (candidates.filter fun c => c.1 == best).map Prod.snd

/-- Where a rule leads to. -/
def IngressRule.backend (rule : IngressRule) : Option String × Option PortRef :=
  (rule.backendService, rule.backendPort)

/-! ## The verdict -/

/-- `repr` of a port reference. -/
def PortRef.repr (U : Unicode) : PortRef → String
  | .num n => toString n
  | .name s => Text.repr U s

/-- `str` of a backend. -/
def backendText (backend : Option String × Option PortRef) : String :=
  let port := (backend.2.map (PortRef.repr U)).getD "None"
  s!"({reprOption U backend.1}, {port})"

def listText (items : List String) : String :=
  "[" ++ String.intercalate ", " items ++ "]"

def resolutionResult (status : LayerStatus) (resource : Option String) (summary : String)
    (evidence : List ResolutionEvidence) : AdapterResult ResolutionEvidence :=
  { layer := "k8s-service-resolution", status, resource, summary, evidence }

/-- The service declares the port. Without a reference it has to declare exactly one. -/
def declaresPort (svcPorts : List ServicePort) : Option PortRef → Bool
  | none => svcPorts.length == 1
  | some (.name port) => svcPorts.any fun p => p.name == some port
  | some (.num port) => svcPorts.any fun p => p.port == some port

/-- What a port leads to that the service does not declare. -/
def undeclaredResult (svcName : String) (svcPorts : List ServicePort) :
    Option PortRef → AdapterResult ResolutionEvidence
  | none =>
    resolutionResult .unknown svcName
      (s!"Ingress backend for Service {repr U svcName} omits a port reference, " ++
        s!"but the Service declares {svcPorts.length} ports (not exactly " ++
        "one) — cannot confirm which port this backend targets")
      (svcPorts.map .port)
  | some (.name port) =>
    let names := (svcPorts.filterMap fun p => present p.name).insertionSort (· ≤ ·)
    resolutionResult .blocked svcName
      (s!"Ingress backend references port name {repr U port}, which " ++
        s!"Service {repr U svcName} does not declare " ++
        s!"(declared names: {listText (names.map (repr U))})")
      (svcPorts.map .port)
  | some (.num port) =>
    let ports := (svcPorts.filterMap ServicePort.port).insertionSort (· ≤ ·)
    resolutionResult .blocked svcName
      (s!"Ingress backend references port {port}, which Service " ++
        s!"{repr U svcName} does not declare " ++
        s!"(declared ports: {listText (ports.map toString)})")
      (svcPorts.map .port)

/-- The endpoints of the service. -/
def endpointsResult (svcName : String) (eps : List K8sEndpoint) :
    AdapterResult ResolutionEvidence :=
  let ready := eps.filter fun e => e.ready != some false
  if eps.isEmpty then
    resolutionResult .blocked svcName
      s!"Service {repr U svcName} has no EndpointSlice entries (no pods matched its selector)" []
  else if ready.isEmpty then
    resolutionResult .blocked svcName
      s!"Service {repr U svcName} has {eps.length} endpoint(s), none ready" []
  else if ready.length < eps.length then
    resolutionResult .conditional svcName
      s!"Service {repr U svcName}: {ready.length}/{eps.length} endpoints ready"
      (eps.map .endpoint)
  else
    resolutionResult .allowed svcName
      s!"Ingress resolves to Service {repr U svcName} with {ready.length} ready endpoint(s)"
      (eps.map .endpoint)

/-- The service of a backend, its port and its endpoints. -/
def backendResult (e : IngressEvidence) (backend : Option String × Option PortRef) :
    AdapterResult ResolutionEvidence :=
  match backend.1.bind fun name => (e.services.lookup name).map fun svc => (name, svc) with
  | none =>
    resolutionResult .blocked backend.1
      s!"Ingress backend Service {reprOption U backend.1} does not exist" []
  | some (svcName, svc) =>
    let svcPorts := svc.ports.filterMap id
    if declaresPort svcPorts backend.2 then
      endpointsResult U svcName ((e.endpointSlices.lookup svcName).getD [])
    else undeclaredResult U svcName svcPorts backend.2

def evalK8sServiceResolution (e : IngressEvidence) : AdapterResult ResolutionEvidence :=
  let reqHost := ((request.hostName U).map (reprName U)).getD "None"
  let reqPath := repr U request.pathText
  if !e.dataAvailable then
    resolutionResult .unknown none
      "Ingress/Service/EndpointSlice data was not fetched — cannot evaluate" []
  else if sawUnresolvablePath U request e.rules then
    resolutionResult .unknown none
      (s!"an Ingress rule for host={reqHost} uses an " ++
        "ImplementationSpecific path_type this adapter cannot confidently " ++
        "evaluate — its controller-defined precedence relative to any other " ++
        "matching rule cannot be determined") []
  else if sawUnresolvableHost U request e.rules then
    resolutionResult .unknown none
      ("at least one Ingress rule is host-scoped, but the request supplies " ++
        "no host at all — cannot confidently rule out that rule taking " ++
        "precedence over whatever host-agnostic rule this adapter selected") []
  else
    match tied U request e.rules with
    | [] =>
      resolutionResult .blocked none
        s!"no Ingress rule matches host={reqHost} path={reqPath}" []
    | matched :: others =>
      let distinct := ((matched :: others).map IngressRule.backend).dedup
      if 1 < distinct.length then
        let texts := (distinct.map (backendText U)).insertionSort (· ≤ ·)
        resolutionResult .unknown none
          (s!"multiple equally-specific Ingress rules for host={reqHost} " ++
            s!"path={reqPath} route to different Service/port combinations " ++
            s!"{listText (texts.map (repr U))} — precedence between " ++
            "them is ambiguous")
          ((matched :: others).map .rule)
      else backendResult U e matched.backend

/-! ## The order of the evidence -/

/-- The evidence in another order: its rules, and the ports and the endpoints of each service. -/
structure IngressEvidence.Permuted (e e' : IngressEvidence) : Prop where
  rules : e.rules.Perm e'.rules
  services : ∀ name, Option.Rel (fun s s' : K8sService => s.ports.Perm s'.ports)
    (e.services.lookup name) (e'.services.lookup name)
  endpoints : ∀ name, Option.Rel List.Perm (e.endpointSlices.lookup name)
    (e'.endpointSlices.lookup name)
  dataAvailable : e.dataAvailable = e'.dataAvailable

/-- The same status and the same chosen resource. -/
def SameVerdict (r r' : AdapterResult ResolutionEvidence) : Prop :=
  r.status = r'.status ∧ r.resource = r'.resource

/-- Among the ports of a service is the one that a reference names. Without a reference it is the
only one. -/
def Declares (svcPorts : List ServicePort) : Option PortRef → Prop
  | none => ∃ p, svcPorts = [p]
  | some (.num n) => ∃ p ∈ svcPorts, p.port = some n
  | some (.name s) => ∃ p ∈ svcPorts, p.name = some s

/-- The backend that the evidence resolves to: the most specific rules that match agree on it, the
service declares its port, and its endpoints are not known to be unready. -/
structure ResolvesTo (e : IngressEvidence) (svcName : String) (port : Option PortRef) : Prop where
  /-- Some matching rule is at least as specific as every matching rule, and each such rule leads
  to the backend. -/
  unique : ∃ best, (∃ rule ∈ e.rules, rule.specificity U request = .yes best) ∧
    ∀ rule ∈ e.rules, ∀ rank, rule.specificity U request = .yes rank →
      rank ≤ best ∧ (rank = best → rule.backend = (some svcName, port))
  /-- The service declares the port. -/
  declared : ∃ svc, e.services.lookup svcName = some svc ∧
    Declares (svc.ports.filterMap id) port
  /-- There is an endpoint, and none is known to be unready. -/
  ready : ∃ eps, e.endpointSlices.lookup svcName = some eps ∧ eps ≠ [] ∧
    ∀ ep ∈ eps, ep.ready ≠ some false

variable {U request}

variable {rules : List IngressRule} {svcName : String} {eps : List K8sEndpoint}

variable {rule : IngressRule} {svcPorts : List ServicePort} {port : Option PortRef}

theorem mem_candidates {rank : Specificity} : (rank, rule) ∈ candidates U request rules ↔
      rule ∈ rules ∧ rule.specificity U request = .yes rank := by
  unfold candidates
  rw [mem_filterMap]
  constructor
  · rintro ⟨r, hr, h⟩
    split at h
    · rename_i rank' hrank
      cases h
      exact ⟨hr, hrank⟩
    · cases h
  · rintro ⟨hrule, hrank⟩
    exact ⟨rule, hrule, by rw [hrank]⟩

theorem max_perm {l l' : List Specificity} (h : l.Perm l') : l.max? = l'.max? := by
  cases hl : l.max? with
  | none =>
    rw [List.max?_eq_none_iff] at hl
    rw [hl] at h
    rw [nil_perm.mp h]
    rfl
  | some a =>
    obtain ⟨hmem, hle⟩ := List.max?_eq_some_iff.mp hl
    refine (List.max?_eq_some_iff.mpr ⟨h.mem_iff.mp hmem, ?_⟩).symm
    exact fun b hb => hle b (h.mem_iff.mpr hb)

theorem mem_tied (h : rule ∈ tied U request rules) :
    ∃ best, rule ∈ rules ∧ rule.specificity U request = .yes best ∧
      ∀ r ∈ rules, ∀ rank, r.specificity U request = .yes rank →
        rank ≤ best ∧ (rank = best → r ∈ tied U request rules) := by
  unfold tied at h ⊢
  dsimp only at h ⊢
  cases hbest : ((candidates U request rules).map Prod.fst).max? with
  | none =>
    rw [hbest] at h
    cases h
  | some best =>
    rw [hbest] at h
    obtain ⟨⟨rank, r⟩, hc, rfl⟩ := mem_map.mp h
    obtain ⟨hc, hrank⟩ := mem_filter.mp hc
    obtain ⟨hrule, hspecific⟩ := mem_candidates.mp hc
    rw [beq_iff_eq] at hrank
    refine ⟨best, hrule, hrank ▸ hspecific, ?_⟩
    intro r' hr' rank' hrank'
    have hmem := mem_candidates.mpr ⟨hr', hrank'⟩
    refine ⟨(List.max?_eq_some_iff.mp hbest).2 rank' (mem_map_of_mem hmem), ?_⟩
    intro heq
    exact mem_map.mpr ⟨(rank', r'), mem_filter.mpr ⟨hmem, by simp [heq]⟩, rfl⟩

theorem tied_perm {rules' : List IngressRule} (h : rules.Perm rules') :
    (tied U request rules).Perm (tied U request rules') := by
  have hcandidates : (candidates U request rules).Perm (candidates U request rules') :=
    h.filterMap _
  unfold tied
  dsimp only
  rw [max_perm (hcandidates.map Prod.fst)]
  split
  · exact List.Perm.refl []
  · exact (hcandidates.filter _).map _

theorem eq_of_dedup {α : Type} [DecidableEq α] {l : List α} {a b : α}
    (h : ¬1 < l.dedup.length) (ha : a ∈ l) (hb : b ∈ l) : a = b := by
  have ha := mem_dedup.mpr ha
  have hb := mem_dedup.mpr hb
  match l.dedup, h, ha, hb with
  | [c], _, ha, hb => rw [mem_singleton.mp ha, mem_singleton.mp hb]
  | c :: d :: rest, h, _, _ => simp at h

theorem declares_port_perm {ports ports' : List ServicePort} (h : ports.Perm ports')
    (port : Option PortRef) : declaresPort ports port = declaresPort ports' port := by
  match port with
  | none => exact congrArg (· == 1) h.length_eq
  | some (.name s) => exact h.any_eq
  | some (.num n) => exact h.any_eq

theorem same_result {status : LayerStatus} {resource : Option String} {summary summary' : String}
    {evidence evidence' : List ResolutionEvidence} :
    SameVerdict (resolutionResult status resource summary evidence)
      (resolutionResult status resource summary' evidence') :=
  ⟨rfl, rfl⟩

theorem undeclared_same {ports ports' : List ServicePort}
    (port : Option PortRef) : SameVerdict (undeclaredResult U svcName ports port)
      (undeclaredResult U svcName ports' port) := by
  unfold undeclaredResult
  split <;> exact same_result

theorem endpoints_perm {eps' : List K8sEndpoint} (h : eps.Perm eps') :
    SameVerdict (endpointsResult U svcName eps) (endpointsResult U svcName eps') := by
  have hready := h.filter fun e => e.ready != some false
  unfold endpointsResult
  simp only [isEmpty_iff_length_eq_zero, h.length_eq, hready.length_eq]
  repeat' split
  all_goals exact same_result

theorem backend_perm {e e' : IngressEvidence} (h : e.Permuted e')
    (backend : Option String × Option PortRef) :
    SameVerdict (backendResult U e backend) (backendResult U e' backend) := by
  obtain ⟨name, port⟩ := backend
  unfold backendResult
  cases name with
  | none => exact same_result
  | some name =>
    have hservice := h.services name
    have hendpoints := h.endpoints name
    simp only [Option.bind_some]
    generalize e.services.lookup name = svc at hservice
    generalize e'.services.lookup name = svc' at hservice
    cases hservice with
    | none => exact same_result
    | @some svc svc' hports =>
      simp only [Option.map_some]
      rw [declares_port_perm (hports.filterMap id)]
      split
      · refine endpoints_perm ?_
        generalize e.endpointSlices.lookup name = eps at hendpoints
        generalize e'.endpointSlices.lookup name = eps' at hendpoints
        cases hendpoints with
        | none => exact List.Perm.refl []
        | some heps => exact heps
      · exact undeclared_same port

theorem resolution_perm {e e' : IngressEvidence} (h : e.Permuted e') :
    SameVerdict (evalK8sServiceResolution U request e) (evalK8sServiceResolution U request e') := by
  unfold evalK8sServiceResolution
  dsimp only
  rw [h.dataAvailable, show sawUnresolvablePath U request e.rules =
    sawUnresolvablePath U request e'.rules from h.rules.any_eq,
    show sawUnresolvableHost U request e.rules = sawUnresolvableHost U request e'.rules from
    h.rules.any_eq]
  have htied : (tied U request e.rules).Perm (tied U request e'.rules) := tied_perm h.rules
  split
  · exact same_result
  split
  · exact same_result
  split
  · exact same_result
  generalize tied U request e.rules = rules at htied
  generalize tied U request e'.rules = rules' at htied
  match rules, rules', htied with
  | [], [], _ => exact same_result
  | [], _ :: _, htied => exact absurd htied.length_eq (by simp)
  | _ :: _, [], htied => exact absurd htied.length_eq (by simp)
  | matched :: others, matched' :: others', htied =>
    have hbackends := htied.map IngressRule.backend
    have hlength := (hbackends.dedup).length_eq
    dsimp only
    rw [hlength]
    split
    · exact same_result
    · next hone =>
      have hsame : matched.backend = matched'.backend := by
        refine eq_of_dedup (hlength ▸ hone) ?_ ?_
        · exact mem_map_of_mem mem_cons_self
        · exact hbackends.mem_iff.mpr (mem_map_of_mem mem_cons_self)
      rw [hsame]
      exact backend_perm h _

/-! ## What it takes to be allowed -/

theorem endpoints_allowed (h : (endpointsResult U svcName eps).status = .allowed) :
    eps ≠ [] ∧ ∀ ep ∈ eps, ep.ready ≠ some false := by
  unfold endpointsResult at h
  dsimp only at h
  split at h
  · cases h
  · next hne =>
    split at h
    · cases h
    · split at h
      · cases h
      · next hall =>
        refine ⟨by simpa using hne, ?_⟩
        intro ep hep hready
        have hlt : (eps.filter fun e => e.ready != some false).length < eps.length :=
          length_filter_lt_length_iff_exists.mpr ⟨ep, hep, by simp [hready]⟩
        exact hall hlt

theorem endpoints_resource : (endpointsResult U svcName eps).resource = some svcName := by
  unfold endpointsResult
  dsimp only
  repeat' split
  all_goals rfl

theorem undeclared_not_allowed : (undeclaredResult U svcName svcPorts port).status ≠ .allowed := by
  unfold undeclaredResult
  split <;> exact nofun

theorem declares_port (h : declaresPort svcPorts port = true) : Declares svcPorts port := by
  match port with
  | none => exact length_eq_one_iff.mp (by simpa [declaresPort] using h)
  | some (.num n) => simpa [declaresPort, Declares] using h
  | some (.name s) => simpa [declaresPort, Declares] using h

theorem resolves_of_allowed {e : IngressEvidence}
    (h : (evalK8sServiceResolution U request e).status = .allowed) :
    ∃ svcName port, (evalK8sServiceResolution U request e).resource = some svcName ∧
      ResolvesTo U request e svcName port := by
  have hresult : (evalK8sServiceResolution U request e).status = .allowed →
      ∃ matched, matched ∈ tied U request e.rules ∧
        (∀ rule ∈ tied U request e.rules, rule.backend = matched.backend) ∧
        evalK8sServiceResolution U request e = backendResult U e matched.backend := by
    unfold evalK8sServiceResolution
    dsimp only
    split
    · exact nofun
    split
    · exact nofun
    split
    · exact nofun
    split
    · exact nofun
    · next matched others htied =>
      rw [htied]
      split
      · exact nofun
      · next hone =>
        intro _
        refine ⟨matched, mem_cons_self, ?_, rfl⟩
        intro rule hrule
        exact eq_of_dedup hone (mem_map_of_mem hrule) (mem_map_of_mem mem_cons_self)
  obtain ⟨matched, hmatched, hsame, heq⟩ := hresult h
  rw [heq] at h ⊢
  obtain ⟨best, hrule, hbest, hmax⟩ := mem_tied hmatched
  cases hname : matched.backendService with
  | none =>
    rw [IngressRule.backend, hname] at h
    cases h
  | some svcName =>
    rw [IngressRule.backend, hname] at h ⊢
    unfold backendResult at h ⊢
    simp only [Option.bind_some] at h ⊢
    cases hservice : e.services.lookup svcName with
    | none =>
      rw [hservice] at h
      cases h
    | some svc =>
      rw [hservice] at h
      simp only [Option.map_some] at h ⊢
      split at h
      · next hdeclared =>
        rw [if_pos hdeclared]
        obtain ⟨hne, hready⟩ := endpoints_allowed h
        cases heps : e.endpointSlices.lookup svcName with
        | none =>
          rw [heps] at hne
          exact absurd rfl hne
        | some eps =>
          rw [heps] at hne hready
          refine ⟨svcName, matched.backendPort, endpoints_resource, ?_⟩
          exact
            { unique := by
                refine ⟨best, ⟨matched, hrule, hbest⟩, ?_⟩
                intro rule hmem rank hrank
                obtain ⟨hle, htied⟩ := hmax rule hmem rank hrank
                refine ⟨hle, fun heq => (hsame rule (htied heq)).trans ?_⟩
                rw [IngressRule.backend, hname]
              declared := ⟨svc, hservice, declares_port hdeclared⟩
              ready := ⟨eps, heps, hne, hready⟩ }
      · exact absurd h undeclared_not_allowed

/-- The order of the evidence changes neither the status nor the resource, and what is allowed
resolves to one backend whose service declares the port and whose endpoints are ready. -/
theorem service_resolution_sound (U : Unicode) (request : IngressRequest) (e : IngressEvidence) :
    (∀ e', e.Permuted e' → SameVerdict (evalK8sServiceResolution U request e)
      (evalK8sServiceResolution U request e')) ∧
    ((evalK8sServiceResolution U request e).status = .allowed →
      ∃ svcName port, (evalK8sServiceResolution U request e).resource = some svcName ∧
        ResolvesTo U request e svcName port) :=
  ⟨fun _ h => resolution_perm h, resolves_of_allowed⟩

end AwsOps.NetworkPath
