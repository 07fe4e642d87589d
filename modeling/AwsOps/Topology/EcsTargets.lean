import AwsOps.Foundation.Fallible
import AwsOps.Foundation.OrderedSets
import AwsOps.Foundation.Splits
import AwsOps.Foundation.Unambiguous
import AwsOps.Topology.FlowRows

/-!
# Targets of ECS

`ecsIpMap` gives the task behind an address of a VPC. The VPC of an address comes from the subnet of
its own attachment, as the inventory of subnets has it. An address that two tasks claim has no
task, and neither has one that a task of unknown VPC may claim as well.
-/

namespace AwsOps.Topology

open List OrderedSets

/-! ## Rows -/

/-- A row of a subnet. -/
structure Subnet where
  region : String
  resourceId : String
  vpcId : String

structure AttachmentDetail where
  name : String
  value : String
  hasValue : Bool

/-- A row of a task. -/
structure EcsTask where
  region : String
  taskGroup : String
  resourceId : String
  clusterArn : String
  vpcId : Option String
  attachments : List (List AttachmentDetail)

section Read

variable (engine : FlowEngine)

def Subnet.read (row : Row) : Subnet where
  region := str engine (Js.get row "region")
  resourceId := str engine (Js.get row "resource_id")
  vpcId := str engine (Js.get row "vpc_id")

def AttachmentDetail.read (row : Row) : AttachmentDetail where
  name := str engine (Js.get row "Name")
  value := str engine (Js.get row "Value")
  hasValue := truthy (Js.get row "Value")

def EcsTask.read (row : Row) : Option EcsTask := do
  let attachments ← rows engine (Js.get row "attachments")
  let details ← attachments.mapM fun attachment => rows engine (Js.get attachment "Details")
  pure
    { region := str engine (Js.get row "region")
      taskGroup := str engine (Js.get row "task_group")
      resourceId := str engine (Js.get row "resource_id")
      clusterArn := str engine (Js.get row "cluster_arn")
      vpcId := if truthy (Js.get row "vpc_id") then some (str engine (Js.get row "vpc_id")) else none
      attachments := details.map (List.map (AttachmentDetail.read engine)) }

end Read

/-! ## The map -/

/-- What an address resolves to. -/
structure EcsTarget where
  label : String
  ecsService : String
  task : String
  cluster : String
  region : String
  vpcId : String
  subnetId : String
  deriving DecidableEq

/-- The task, the cluster and the subnet: what two claims of an address must share. -/
def EcsTarget.identity (target : EcsTarget) : String × String × String :=
  (target.task, target.cluster, target.subnetId)

/-- `svc`. -/
def EcsTask.service (task : EcsTask) : String :=
  if "service:".toList.isPrefixOf task.taskGroup.toList then
    String.ofList (task.taskGroup.toList.drop 8)
  else task.taskGroup

def EcsTask.taskId (task : EcsTask) : String :=
  orText (lastPart '/' task.resourceId) task.resourceId

def EcsTask.cluster (task : EcsTask) : String :=
  lastPart '/' task.clusterArn

/-- The only item of a set, or nothing. -/
def single (items : List String) : String :=
  match items with
  | [item] => item
  | _ => ""

/-- `subnetVpcs`: the VPCs that the rows of a subnet give. -/
def subnetVpcs (subnets : List Subnet) : List (String × List String) :=
  subnets.foldl (fun m subnet =>
    if subnet.region = "" ∨ subnet.resourceId = "" then m
    else Entries.upsert (subnet.region ++ "|" ++ subnet.resourceId)
      (fun vpcs => add (vpcs.getD []) subnet.vpcId) m) []

/-- `subnetId` of an attachment. -/
def subnetId (details : List AttachmentDetail) : String :=
  single (ofList ((details.filter fun d => d.name = "subnetId").map AttachmentDetail.value))

/-- `vpcId` of an attachment. -/
def attachmentVpc (vpcs : List (String × List String)) (task : EcsTask)
    (details : List AttachmentDetail) : String :=
  if subnetId details = "" then ""
  else single ((Entries.get vpcs (task.region ++ "|" ++ subnetId details)).getD [])

/-- What an attachment of a task says about its addresses; nothing, if the VPC is not known. -/
def attachmentTarget (vpcs : List (String × List String)) (task : EcsTask)
    (details : List AttachmentDetail) : Option EcsTarget :=
  let vpcId := attachmentVpc vpcs task details
  if task.region = "" ∨ vpcId = "" ∨ task.vpcId.any (· ≠ vpcId) then none
  else some
    { label := orText task.service task.taskId
      ecsService := task.service
      task := task.taskId
      cluster := task.cluster
      region := task.region
      vpcId := vpcId
      subnetId := subnetId details }

/-- An address that a task claims, with what it resolves to if its VPC is known. -/
structure IpClaim where
  region : String
  ip : String
  target : Option EcsTarget

def attachmentClaims (vpcs : List (String × List String)) (task : EcsTask)
    (details : List AttachmentDetail) : List IpClaim :=
  (details.filter fun d => d.name = "privateIPv4Address" && d.hasValue).map fun d =>
    { region := task.region, ip := d.value, target := attachmentTarget vpcs task details }

def ipClaims (tasks : List EcsTask) (subnets : List Subnet) : List IpClaim :=
  tasks.flatMap fun task => task.attachments.flatMap (attachmentClaims (subnetVpcs subnets) task)

/-- `map`, `ambiguous` and `unknownScope` while the claims come in. -/
structure EcsIndex where
  index : Unambiguous.Index String EcsTarget
  unknownScope : List String

/-- One claim comes in. -/
def EcsIndex.record (state : EcsIndex) (claim : IpClaim) : EcsIndex :=
  match claim.target with
  | none => { state with unknownScope := add state.unknownScope (claim.region ++ "|" ++ claim.ip) }
  | some target =>
    let key := scopedTargetIp target.region target.vpcId claim.ip
    { state with index := state.index.record EcsTarget.identity (key, target) }

/-- A competing task of unknown VPC may have the address of the key. -/
def competes (unknownScope : List String) (key : String) : Bool :=
  match splitOn '|' key with
  | region :: _ :: ip :: _ => (region ++ "|" ++ ip) ∈ unknownScope || ("|" ++ ip) ∈ unknownScope
  | _ => false

/-- `ecsIpMap`, of rows that have been read. -/
def ecsIps (tasks : List EcsTask) (subnets : List Subnet) : List (String × EcsTarget) :=
  let state := (ipClaims tasks subnets).foldl EcsIndex.record ⟨.start, []⟩
  state.index.map.filter fun entry => !competes state.unknownScope entry.1

/-- `ecsIpMap`. It raises where an array of attachments or details has a null entry. -/
def ecsIpMap (engine : FlowEngine) (tasks subnets : List Row) :
    Option (List (String × EcsTarget)) :=
  (tasks.mapM (EcsTask.read engine)).map fun tasks => ecsIps tasks (subnets.map (Subnet.read engine))

/-! ## Who claims an address -/

section Claims

variable (subnets : List Subnet)

/-- The attachment names one subnet, the inventory gives that subnet one VPC, and the task does not
name another. -/
structure Corroborated (task : EcsTask) (details : List AttachmentDetail) (subnet vpc : String) :
    Prop where
  region : task.region ≠ ""
  subnetKnown : subnet ≠ ""
  subnetNamed : ∃ d ∈ details, d.name = "subnetId"
  subnetOnly : ∀ d ∈ details, d.name = "subnetId" → d.value = subnet
  vpcKnown : vpc ≠ ""
  vpcNamed : ∃ row ∈ subnets, row.region = task.region ∧ row.resourceId = subnet
  vpcOnly : ∀ row ∈ subnets, row.region = task.region → row.resourceId = subnet → row.vpcId = vpc
  vpcAgrees : ∀ own, task.vpcId = some own → own = vpc

def HasAddress (details : List AttachmentDetail) (ip : String) : Prop :=
  ∃ d ∈ details, d.name = "privateIPv4Address" ∧ d.hasValue = true ∧ d.value = ip

/-- A task claims an address of a VPC through an attachment that is corroborated. -/
def Claims (tasks : List EcsTask) (region vpc ip : String) (task : EcsTask) (subnet : String) :
    Prop :=
  task ∈ tasks ∧ task.region = region ∧
    ∃ details ∈ task.attachments, HasAddress details ip ∧ Corroborated subnets task details subnet vpc

/-- A task claims the address, in the region or in none, through an attachment whose VPC is not
known. -/
def ClaimsUnknown (tasks : List EcsTask) (region ip : String) : Prop :=
  ∃ task ∈ tasks, (task.region = region ∨ task.region = "") ∧
    ∃ details ∈ task.attachments, HasAddress details ip ∧
      ∀ subnet vpc, ¬Corroborated subnets task details subnet vpc

/-- What an address resolves to when a task claims it from a subnet. -/
def EcsTask.target (task : EcsTask) (vpc subnet : String) : EcsTarget where
  label := orText task.service task.taskId
  ecsService := task.service
  task := task.taskId
  cluster := task.cluster
  region := task.region
  vpcId := vpc
  subnetId := subnet

end Claims

/-- Texts without the separator of the keys. -/
def Plain (text : String) : Prop :=
  '|' ∉ text.toList

/-- Regions, VPCs and addresses without the separator of the keys. -/
structure PlainRows (tasks : List EcsTask) (subnets : List Subnet) : Prop where
  subnetRegions : ∀ row ∈ subnets, Plain row.region
  subnetVpcs : ∀ row ∈ subnets, Plain row.vpcId
  taskRegions : ∀ task ∈ tasks, Plain task.region
  addresses : ∀ task ∈ tasks, ∀ details ∈ task.attachments, ∀ d ∈ details,
    d.name = "privateIPv4Address" → Plain d.value

/-! ## Keys -/

section Keys

variable {region region' vpc vpc' ip ip' : String}

theorem pair_key_inj (h : Plain region) (h' : Plain region')
    (heq : region ++ "|" ++ ip = region' ++ "|" ++ ip') : region = region' ∧ ip = ip' := by
  have hlist := congrArg String.toList heq
  simp only [String.toList_append, append_assoc] at hlist
  obtain ⟨hregion, hip⟩ := Text.append_sep_inj h h' hlist
  exact ⟨String.toList_inj.mp hregion, String.toList_inj.mp hip⟩

theorem scoped_key_inj (hregion : Plain region) (hregion' : Plain region') (hvpc : Plain vpc)
    (hvpc' : Plain vpc') (heq : scopedTargetIp region vpc ip = scopedTargetIp region' vpc' ip') :
    region = region' ∧ vpc = vpc' ∧ ip = ip' := by
  unfold scopedTargetIp at heq
  have hsplit : region ++ "|" ++ (vpc ++ "|" ++ ip) = region' ++ "|" ++ (vpc' ++ "|" ++ ip') := by
    simpa only [String.append_assoc] using heq
  obtain ⟨rfl, hrest⟩ := pair_key_inj hregion hregion' hsplit
  exact ⟨rfl, pair_key_inj hvpc hvpc' hrest⟩

theorem split_scoped_key (hregion : Plain region) (hvpc : Plain vpc) (hip : Plain ip) :
    splitOn '|' (scopedTargetIp region vpc ip) = [region, vpc, ip] := by
  have hlist : (scopedTargetIp region vpc ip).toList =
      region.toList ++ ("|".toList ++ (vpc.toList ++ ("|".toList ++ ip.toList))) := by
    simp [scopedTargetIp]
  have hsep : "|".toList = ['|'] := rfl
  unfold splitOn
  rw [hlist, hsep, Text.split_append (cons_ne_nil _ _) (Text.apart_of_not_mem hregion),
    Text.split_append (cons_ne_nil _ _) (Text.apart_of_not_mem hvpc),
    Text.split_piece (Text.apart_of_not_mem hip)]
  simp

end Keys

/-! ## The VPC of an attachment -/

theorem single_of_list {items : List String} {x : String} (hx : x ≠ "") :
    single (ofList items) = x ↔ (∃ y, y ∈ items) ∧ ∀ y ∈ items, y = x := by
  have hmem : ∀ y, y ∈ ofList items ↔ y ∈ items := fun y => mem_of_list
  have hnodup : (ofList items).Nodup := nodup_of_list
  generalize ofList items = set at hmem hnodup
  constructor
  · intro hsingle
    match set, hsingle with
    | [], hsingle => exact absurd hsingle.symm hx
    | [y], hsingle =>
      have hy : y = x := hsingle
      subst hy
      exact ⟨⟨y, (hmem y).mp mem_cons_self⟩, fun z hz =>
        mem_singleton.mp ((hmem z).mpr hz)⟩
    | _ :: _ :: _, hsingle => exact absurd hsingle.symm hx
  · rintro ⟨⟨y, hy⟩, hall⟩
    have hset : ∀ z ∈ set, z = x := fun z hz => hall z ((hmem z).mp hz)
    match set, hnodup, hset, (hmem y).mpr hy with
    | [z], _, hset, _ => exact hset z mem_cons_self
    | z :: w :: _, hnodup, hset, _ =>
      have hsame : z = w := (hset z mem_cons_self).trans
        (hset w (mem_cons_of_mem z mem_cons_self)).symm
      exact absurd (hsame ▸ mem_cons_self) (nodup_cons.mp hnodup).1

section Attachment

variable {subnets : List Subnet} {task : EcsTask} {details : List AttachmentDetail}

theorem get_subnet_vpcs (hplain : ∀ row ∈ subnets, Plain row.region) {region id : String}
    (hregion : Plain region) (hne : region ≠ "") (hid : id ≠ "") :
    (Entries.get (subnetVpcs subnets) (region ++ "|" ++ id)).getD [] =
      ofList ((subnets.filter fun row => row.region = region && row.resourceId = id).map
        Subnet.vpcId) := by
  induction subnets using List.reverseRecOn with
  | nil => rfl
  | append_singleton rows row ih =>
    have hrow := hplain row (mem_append_right rows mem_cons_self)
    have hrest := ih fun other hother => hplain other (mem_append_left _ hother)
    unfold subnetVpcs at hrest ⊢
    have hone : [row].filter (fun row => row.region = region && row.resourceId = id) =
        if row.region = region ∧ row.resourceId = id then [row] else [] := by
      simp only [filter_cons, filter_nil, Bool.and_eq_true, decide_eq_true_eq]
    rw [foldl_concat, filter_append, map_append, hone]
    by_cases hskip : row.region = "" ∨ row.resourceId = ""
    · have hother : ¬(row.region = region ∧ row.resourceId = id) := by
        rintro ⟨rfl, rfl⟩
        exact hskip.elim hne hid
      rw [if_pos hskip, if_neg hother, map_nil, append_nil]
      exact hrest
    · rw [if_neg hskip, Entries.get_upsert]
      by_cases hsame : row.region = region ∧ row.resourceId = id
      · obtain ⟨rfl, rfl⟩ := hsame
        rw [if_pos rfl, if_pos ⟨rfl, rfl⟩, Option.getD_some, hrest]
        exact (of_list_concat _ _).symm
      · have hkey : region ++ "|" ++ id ≠ row.region ++ "|" ++ row.resourceId := fun heq =>
          hsame ⟨(pair_key_inj hregion hrow heq).1.symm, (pair_key_inj hregion hrow heq).2.symm⟩
        rw [if_neg hkey, if_neg hsame, map_nil, append_nil]
        exact hrest

theorem attachment_target (hplain : ∀ row ∈ subnets, Plain row.region) (htask : Plain task.region)
    {target : EcsTarget} :
    attachmentTarget (subnetVpcs subnets) task details = some target ↔
      ∃ subnet vpc, Corroborated subnets task details subnet vpc ∧ target = task.target vpc subnet := by
  have hsubnet : ∀ {subnet}, subnet ≠ "" → (subnetId details = subnet ↔
      (∃ d ∈ details, d.name = "subnetId") ∧
        ∀ d ∈ details, d.name = "subnetId" → d.value = subnet) := by
    intro subnet hne
    unfold subnetId
    rw [single_of_list hne]
    simp only [mem_map, mem_filter, decide_eq_true_eq]
    constructor
    · rintro ⟨⟨_, d, hd, -⟩, hall⟩
      exact ⟨⟨d, hd⟩, fun e he hname => hall e.value ⟨e, ⟨he, hname⟩, rfl⟩⟩
    · rintro ⟨⟨d, hd⟩, hall⟩
      refine ⟨⟨d.value, d, hd, rfl⟩, ?_⟩
      rintro _ ⟨e, he, rfl⟩
      exact hall e he.1 he.2
  have hvpc : ∀ {vpc}, task.region ≠ "" → subnetId details ≠ "" → vpc ≠ "" →
      (attachmentVpc (subnetVpcs subnets) task details = vpc ↔
        (∃ row ∈ subnets, row.region = task.region ∧ row.resourceId = subnetId details) ∧
          ∀ row ∈ subnets, row.region = task.region → row.resourceId = subnetId details →
            row.vpcId = vpc) := by
    intro vpc hregion hid hne
    unfold attachmentVpc
    rw [if_neg hid, get_subnet_vpcs hplain htask hregion hid, single_of_list hne]
    simp only [mem_map, mem_filter, Bool.and_eq_true, decide_eq_true_eq]
    constructor
    · rintro ⟨⟨_, row, ⟨hrow, hsame⟩, -⟩, hall⟩
      exact ⟨⟨row, hrow, hsame⟩, fun other hother h1 h2 => hall _ ⟨other, ⟨hother, h1, h2⟩, rfl⟩⟩
    · rintro ⟨⟨row, hrow, hsame⟩, hall⟩
      refine ⟨⟨_, row, ⟨hrow, hsame⟩, rfl⟩, ?_⟩
      rintro _ ⟨other, ⟨hother, h1, h2⟩, rfl⟩
      exact hall other hother h1 h2
  have hunknown : subnetId details = "" → attachmentVpc (subnetVpcs subnets) task details = "" :=
    fun h => if_pos h
  unfold attachmentTarget
  dsimp only
  constructor
  · intro h
    split_ifs at h with hscope
    simp only [not_or, Option.any_eq_true, decide_eq_true_eq, not_exists, not_and, ne_eq,
      not_not] at hscope
    obtain ⟨hregion, hknown, hagrees⟩ := hscope
    have hid : subnetId details ≠ "" := fun hid => hknown (hunknown hid)
    obtain ⟨hnamed, honly⟩ := (hsubnet hid).mp rfl
    obtain ⟨hrow, hrows⟩ := (hvpc hregion hid hknown).mp rfl
    exact ⟨subnetId details, _, ⟨hregion, hid, hnamed, honly, hknown, hrow, hrows, hagrees⟩,
      (Option.some.inj h).symm⟩
  · rintro ⟨subnet, vpc, h, rfl⟩
    have hid : subnetId details = subnet := (hsubnet h.subnetKnown).mpr ⟨h.subnetNamed, h.subnetOnly⟩
    subst hid
    have hscope : attachmentVpc (subnetVpcs subnets) task details = vpc :=
      (hvpc h.region h.subnetKnown h.vpcKnown).mpr ⟨h.vpcNamed, h.vpcOnly⟩
    rw [hscope, if_neg]
    · rfl
    · simp only [not_or, Option.any_eq_true, decide_eq_true_eq, not_exists, not_and, ne_eq, not_not]
      exact ⟨h.region, h.vpcKnown, h.vpcAgrees⟩

end Attachment

/-! ## The claims in the index -/

theorem mem_ip_claims {tasks : List EcsTask} {subnets : List Subnet} {claim : IpClaim} :
    claim ∈ ipClaims tasks subnets ↔ ∃ task ∈ tasks, ∃ details ∈ task.attachments,
      HasAddress details claim.ip ∧ claim.region = task.region ∧
        claim.target = attachmentTarget (subnetVpcs subnets) task details := by
  unfold ipClaims attachmentClaims HasAddress
  simp only [mem_flatMap, mem_map, mem_filter, Bool.and_eq_true, decide_eq_true_eq]
  constructor
  · rintro ⟨task, htask, details, hdetails, d, ⟨hd, hname, hvalue⟩, rfl⟩
    exact ⟨task, htask, details, hdetails, ⟨d, hd, hname, hvalue, rfl⟩, rfl, rfl⟩
  · rintro ⟨task, htask, details, hdetails, ⟨d, hd, hname, hvalue, hip⟩, hregion, htarget⟩
    refine ⟨task, htask, details, hdetails, d, ⟨hd, hname, hvalue⟩, ?_⟩
    cases claim
    exact congr (congr (congrArg IpClaim.mk hregion.symm) hip) htarget.symm

/-- The entries of the claims whose VPC is known. -/
def scopedEntries (claims : List IpClaim) : List (String × EcsTarget) :=
  claims.filterMap fun claim => claim.target.map fun target =>
    (scopedTargetIp target.region target.vpcId claim.ip, target)

theorem recorded_claims (claims : List IpClaim) :
    let state := claims.foldl EcsIndex.record ⟨.start, []⟩
    Unambiguous.Recorded EcsTarget.identity (scopedEntries claims) state.index ∧
      ∀ key, key ∈ state.unknownScope ↔
        ∃ claim ∈ claims, claim.target = none ∧ key = claim.region ++ "|" ++ claim.ip := by
  induction claims using List.reverseRecOn with
  | nil => exact ⟨Unambiguous.recorded_start, fun key => by simp⟩
  | append_singleton claims claim ih =>
    obtain ⟨hindex, hunknown⟩ := ih
    dsimp only
    rw [foldl_concat]
    generalize claims.foldl EcsIndex.record ⟨.start, []⟩ = state at hindex hunknown
    unfold EcsIndex.record scopedEntries at *
    rw [filterMap_append, filterMap_cons, filterMap_nil]
    cases htarget : claim.target with
    | none =>
      refine ⟨by simpa using hindex, fun key => ?_⟩
      dsimp only
      rw [mem_add, hunknown]
      simp [htarget]
    | some target =>
      refine ⟨hindex.record _ target, fun key => ?_⟩
      dsimp only
      rw [hunknown]
      simp [htarget]

section Resolve

variable {tasks : List EcsTask} {subnets : List Subnet}

theorem mem_scoped_entries (hplain : PlainRows tasks subnets) {key : String} {target : EcsTarget} :
    (key, target) ∈ scopedEntries (ipClaims tasks subnets) ↔
      ∃ region vpc ip task subnet, key = scopedTargetIp region vpc ip ∧
        Claims subnets tasks region vpc ip task subnet ∧ target = task.target vpc subnet := by
  unfold scopedEntries
  simp only [mem_filterMap, mem_ip_claims, Option.map_eq_some_iff, Prod.mk.injEq]
  constructor
  · rintro ⟨claim, ⟨task, htask, details, hdetails, haddress, hregion, htarget⟩, found, hfound,
      rfl, rfl⟩
    rw [htarget, attachment_target hplain.subnetRegions (hplain.taskRegions task htask)] at hfound
    obtain ⟨subnet, vpc, hcorroborated, rfl⟩ := hfound
    exact ⟨task.region, vpc, claim.ip, task, subnet, rfl,
      ⟨htask, rfl, details, hdetails, haddress, hcorroborated⟩, rfl⟩
  · rintro ⟨region, vpc, ip, task, subnet, rfl,
      ⟨htask, rfl, details, hdetails, haddress, hcorroborated⟩, rfl⟩
    have htarget : attachmentTarget (subnetVpcs subnets) task details =
        some (task.target vpc subnet) :=
      (attachment_target hplain.subnetRegions (hplain.taskRegions task htask)).mpr
        ⟨subnet, vpc, hcorroborated, rfl⟩
    exact ⟨⟨task.region, ip, some (task.target vpc subnet)⟩,
      ⟨task, htask, details, hdetails, haddress, rfl, htarget.symm⟩, _, rfl, rfl, rfl⟩

theorem Claims.plain (hplain : PlainRows tasks subnets) {region vpc ip : String} {task : EcsTask}
    {subnet : String} (h : Claims subnets tasks region vpc ip task subnet) :
    Plain region ∧ Plain vpc ∧ Plain ip := by
  obtain ⟨htask, rfl, details, hdetails, ⟨d, hd, hname, -, rfl⟩, hcorroborated⟩ := h
  obtain ⟨row, hrow, hregion, hid⟩ := hcorroborated.vpcNamed
  exact ⟨hplain.taskRegions task htask,
    hcorroborated.vpcOnly row hrow hregion hid ▸ hplain.subnetVpcs row hrow,
    hplain.addresses task htask details hdetails d hd hname⟩

theorem plain_of_key {region vpc ip region' vpc' ip' : String} (hregion : Plain region')
    (hvpc : Plain vpc') (hip : Plain ip')
    (heq : scopedTargetIp region vpc ip = scopedTargetIp region' vpc' ip') :
    region = region' ∧ vpc = vpc' ∧ ip = ip' := by
  have hcount : ∀ r v i : String, (scopedTargetIp r v i).toList.count '|' =
      r.toList.count '|' + v.toList.count '|' + i.toList.count '|' + 2 := by
    intro r v i
    simp only [scopedTargetIp, String.toList_append, count_append]
    have hone : "|".toList.count '|' = 1 := by decide
    omega
  have hsum := congrArg (fun key : String => key.toList.count '|') heq
  simp only [hcount, count_eq_zero_of_not_mem hregion, count_eq_zero_of_not_mem hvpc,
    count_eq_zero_of_not_mem hip] at hsum
  have hplain : ∀ text : String, text.toList.count '|' = 0 → Plain text :=
    fun text h => count_eq_zero.mp h
  exact scoped_key_inj (hplain region (by omega)) hregion (hplain vpc (by omega)) hvpc heq

theorem competes_iff (hplain : PlainRows tasks subnets) {region vpc ip : String}
    (hregion : Plain region) (hvpc : Plain vpc) (hip : Plain ip) :
    competes ((ipClaims tasks subnets).foldl EcsIndex.record ⟨.start, []⟩).unknownScope
      (scopedTargetIp region vpc ip) = true ↔ ClaimsUnknown subnets tasks region ip := by
  have hunknown := (recorded_claims (ipClaims tasks subnets)).2
  have hkey : ∀ scope, Plain scope → (scope ++ "|" ++ ip ∈
      ((ipClaims tasks subnets).foldl EcsIndex.record ⟨.start, []⟩).unknownScope ↔
        ∃ task ∈ tasks, task.region = scope ∧ ∃ details ∈ task.attachments,
          HasAddress details ip ∧ ∀ subnet vpc, ¬Corroborated subnets task details subnet vpc) := by
    intro scope hscope
    rw [hunknown]
    simp only [mem_ip_claims]
    constructor
    · rintro ⟨claim, ⟨task, htask, details, hdetails, haddress, hclaim, htarget⟩, hnone, heq⟩
      have hplainTask := hplain.taskRegions task htask
      obtain ⟨rfl, rfl⟩ := pair_key_inj hscope (hclaim ▸ hplainTask) heq
      refine ⟨task, htask, hclaim.symm, details, hdetails, haddress, fun subnet vpc h => ?_⟩
      have hsome := (attachment_target hplain.subnetRegions hplainTask).mpr ⟨subnet, vpc, h, rfl⟩
      rw [← htarget, hnone] at hsome
      cases hsome
    · rintro ⟨task, htask, rfl, details, hdetails, haddress, hnone⟩
      refine ⟨⟨task.region, ip, none⟩, ⟨task, htask, details, hdetails, haddress, rfl, ?_⟩, rfl, rfl⟩
      cases htarget : attachmentTarget (subnetVpcs subnets) task details with
      | none => rfl
      | some target =>
        obtain ⟨subnet, vpc, h, -⟩ := (attachment_target hplain.subnetRegions
          (hplain.taskRegions task htask)).mp htarget
        exact absurd h (hnone subnet vpc)
  have hempty : "" ++ "|" ++ ip = "|" ++ ip := rfl
  unfold competes ClaimsUnknown
  rw [split_scoped_key hregion hvpc hip]
  simp only [Bool.or_eq_true, decide_eq_true_eq]
  rw [hkey region hregion, ← hempty, hkey "" (by simp [Plain])]
  constructor
  · rintro (⟨task, htask, hsame, hrest⟩ | ⟨task, htask, hsame, hrest⟩)
    · exact ⟨task, htask, .inl hsame, hrest⟩
    · exact ⟨task, htask, .inr hsame, hrest⟩
  · rintro ⟨task, htask, hsame | hsame, hrest⟩
    · exact .inl ⟨task, htask, hsame, hrest⟩
    · exact .inr ⟨task, htask, hsame, hrest⟩

/-- What decides whether an address resolves: one task, cluster and subnet claim it, and no task of
unknown VPC does. -/
def Resolvable (tasks : List EcsTask) (subnets : List Subnet) (region vpc ip : String) : Prop :=
  (∃ task subnet, Claims subnets tasks region vpc ip task subnet ∧
    ∀ task' subnet', Claims subnets tasks region vpc ip task' subnet' →
      task'.taskId = task.taskId ∧ task'.cluster = task.cluster ∧ subnet' = subnet) ∧
  ¬ClaimsUnknown subnets tasks region ip

theorem identity_target {task task' : EcsTask} (vpc : String) {subnet subnet' : String} :
    (task'.target vpc subnet').identity = (task.target vpc subnet).identity ↔
      task'.taskId = task.taskId ∧ task'.cluster = task.cluster ∧ subnet' = subnet := by
  simp [EcsTarget.identity, EcsTask.target]

theorem ecs_ips_resolves (hplain : PlainRows tasks subnets) (region vpc ip : String) :
    (∃ target, Entries.get (ecsIps tasks subnets) (scopedTargetIp region vpc ip) = some target) ↔
      Resolvable tasks subnets region vpc ip := by
  have hrecorded := (recorded_claims (ipClaims tasks subnets)).1
  have hmem : ∀ target, (scopedTargetIp region vpc ip, target) ∈
      scopedEntries (ipClaims tasks subnets) ↔
        ∃ task subnet, Claims subnets tasks region vpc ip task subnet ∧
          target = task.target vpc subnet := by
    intro target
    rw [mem_scoped_entries hplain]
    constructor
    · rintro ⟨region', vpc', ip', task, subnet, hkey, hclaims, htarget⟩
      obtain ⟨h1, h2, h3⟩ := hclaims.plain hplain
      obtain ⟨rfl, rfl, rfl⟩ := plain_of_key h1 h2 h3 hkey
      exact ⟨task, subnet, hclaims, htarget⟩
    · rintro ⟨task, subnet, hclaims, htarget⟩
      exact ⟨region, vpc, ip, task, subnet, rfl, hclaims, htarget⟩
  have hsome := hrecorded.get_isSome (scopedTargetIp region vpc ip)
  simp only [hmem] at hsome
  unfold ecsIps Resolvable
  dsimp only
  rw [Entries.get_filter fun key => !competes _ key]
  constructor
  · rintro ⟨target, htarget⟩
    split_ifs at htarget with hcompetes
    obtain ⟨_, ⟨task, subnet, hclaims, rfl⟩, hagree⟩ := hsome.mp ⟨target, htarget⟩
    obtain ⟨h1, h2, h3⟩ := hclaims.plain hplain
    refine ⟨⟨task, subnet, hclaims, fun task' subnet' h' => ?_⟩, fun hunknown => ?_⟩
    · exact (identity_target vpc).mp (hagree _ ⟨task', subnet', h', rfl⟩)
    · rw [(competes_iff hplain h1 h2 h3).mpr hunknown] at hcompetes
      cases hcompetes
  · rintro ⟨⟨task, subnet, hclaims, hall⟩, hunknown⟩
    obtain ⟨h1, h2, h3⟩ := hclaims.plain hplain
    have hfree : competes ((ipClaims tasks subnets).foldl EcsIndex.record ⟨.start, []⟩).unknownScope
        (scopedTargetIp region vpc ip) = false := by
      rw [← Bool.not_eq_true, competes_iff hplain h1 h2 h3]
      exact hunknown
    rw [hfree, Bool.not_false, if_pos rfl]
    refine hsome.mpr ⟨_, ⟨task, subnet, hclaims, rfl⟩, ?_⟩
    rintro _ ⟨task', subnet', h', rfl⟩
    exact (identity_target vpc).mpr (hall task' subnet' h')

theorem ecs_ips_target (hplain : PlainRows tasks subnets) {key : String} {target : EcsTarget}
    (h : Entries.get (ecsIps tasks subnets) key = some target) :
    ∃ region vpc ip task subnet, key = scopedTargetIp region vpc ip ∧
      Claims subnets tasks region vpc ip task subnet ∧ target = task.target vpc subnet := by
  unfold ecsIps at h
  dsimp only at h
  rw [Entries.get_filter fun key => !competes _ key] at h
  split_ifs at h
  exact (mem_scoped_entries hplain).mp ((recorded_claims (ipClaims tasks subnets)).1.mem_of_get h)

end Resolve

/-! ## The order of the rows -/

/-- The same task, with its attachments and their details in another order. -/
structure SameTask (task task' : EcsTask) : Prop where
  region : task'.region = task.region
  taskGroup : task'.taskGroup = task.taskGroup
  resourceId : task'.resourceId = task.resourceId
  clusterArn : task'.clusterArn = task.clusterArn
  vpcId : task'.vpcId = task.vpcId
  attachments : ∃ mid, task.attachments.Perm mid ∧ List.Forall₂ List.Perm mid task'.attachments

/-- The same rows in another order. -/
def Reordered (tasks tasks' : List EcsTask) : Prop :=
  ∃ mid, tasks.Perm mid ∧ List.Forall₂ SameTask mid tasks'

/-- Tasks that read alike: every attachment of one has the details of one of the other. -/
structure Alike (task task' : EcsTask) : Prop where
  region : task'.region = task.region
  taskGroup : task'.taskGroup = task.taskGroup
  resourceId : task'.resourceId = task.resourceId
  clusterArn : task'.clusterArn = task.clusterArn
  vpcId : task'.vpcId = task.vpcId
  details : ∀ details ∈ task.attachments, ∃ details' ∈ task'.attachments, details.Perm details'

/-- Every task of one list reads like one of the other. -/
def TasksCovered (tasks tasks' : List EcsTask) : Prop :=
  ∀ task ∈ tasks, ∃ task' ∈ tasks', Alike task task' ∧ Alike task' task

theorem SameTask.alike {task task' : EcsTask} (h : SameTask task task') :
    Alike task task' ∧ Alike task' task := by
  obtain ⟨mid, hperm, hall⟩ := h.attachments
  have hto := forall₂_mem_left hall
  have hfrom := forall₂_mem_right hall
  refine ⟨⟨h.region, h.taskGroup, h.resourceId, h.clusterArn, h.vpcId, fun details hdetails =>
    hto details (hperm.mem_iff.mp hdetails)⟩, ⟨h.region.symm, h.taskGroup.symm,
    h.resourceId.symm, h.clusterArn.symm, h.vpcId.symm, fun details' hdetails' => ?_⟩⟩
  obtain ⟨details, hmem, hsame⟩ := hfrom details' hdetails'
  exact ⟨details, hperm.mem_iff.mpr hmem, hsame.symm⟩

section Order

variable {tasks tasks' : List EcsTask} {subnets subnets' : List Subnet}

theorem Reordered.covers (h : Reordered tasks tasks') : TasksCovered tasks tasks' ∧ TasksCovered tasks' tasks := by
  obtain ⟨mid, hperm, hall⟩ := h
  have hto := forall₂_mem_left hall
  have hfrom := forall₂_mem_right hall
  refine ⟨fun task htask => ?_, fun task' htask' => ?_⟩
  · obtain ⟨task', htask', hsame⟩ := hto task (hperm.mem_iff.mp htask)
    exact ⟨task', htask', hsame.alike⟩
  · obtain ⟨task, htask, hsame⟩ := hfrom task' htask'
    exact ⟨task, hperm.mem_iff.mpr htask, hsame.alike.symm⟩

section Details

variable {task task' : EcsTask} {details details' : List AttachmentDetail} {ip : String}

theorem HasAddress.perm (h : HasAddress details ip) (hperm : details.Perm details') :
    HasAddress details' ip :=
  h.imp fun _ hd => ⟨hperm.mem_iff.mp hd.1, hd.2⟩

theorem Corroborated.alike {subnet vpc : String} (halike : Alike task task')
    (hperm : details.Perm details') (hsubnets : subnets.Perm subnets')
    (h : Corroborated subnets task details subnet vpc) :
    Corroborated subnets' task' details' subnet vpc where
  region := halike.region ▸ h.region
  subnetKnown := h.subnetKnown
  subnetNamed := h.subnetNamed.imp fun _ hd => ⟨hperm.mem_iff.mp hd.1, hd.2⟩
  subnetOnly d hd := h.subnetOnly d (hperm.mem_iff.mpr hd)
  vpcKnown := h.vpcKnown
  vpcNamed := by
    rw [halike.region]
    exact h.vpcNamed.imp fun _ hrow => ⟨hsubnets.mem_iff.mp hrow.1, hrow.2⟩
  vpcOnly row hrow hregion := h.vpcOnly row (hsubnets.mem_iff.mpr hrow) (halike.region ▸ hregion)
  vpcAgrees own hown := h.vpcAgrees own (halike.vpcId ▸ hown)

end Details

theorem Claims.covered (hcovers : TasksCovered tasks tasks') (hsubnets : subnets.Perm subnets')
    {region vpc ip : String} {task : EcsTask} {subnet : String}
    (h : Claims subnets tasks region vpc ip task subnet) :
    ∃ task', Claims subnets' tasks' region vpc ip task' subnet ∧
      ∀ v s, task'.target v s = task.target v s := by
  obtain ⟨htask, rfl, details, hdetails, haddress, hcorroborated⟩ := h
  obtain ⟨task', htask', halike, -⟩ := hcovers task htask
  obtain ⟨details', hdetails', hperm⟩ := halike.details details hdetails
  refine ⟨task', ⟨htask', halike.region, details', hdetails', haddress.perm hperm,
    hcorroborated.alike halike hperm hsubnets⟩, fun v s => ?_⟩
  simp only [EcsTask.target, EcsTask.service, EcsTask.taskId, EcsTask.cluster, halike.region,
    halike.taskGroup, halike.resourceId, halike.clusterArn]

theorem ClaimsUnknown.covered (hcovers : TasksCovered tasks tasks') (hsubnets : subnets.Perm subnets')
    {region ip : String} (h : ClaimsUnknown subnets tasks region ip) :
    ClaimsUnknown subnets' tasks' region ip := by
  obtain ⟨task, htask, hregion, details, hdetails, haddress, hnone⟩ := h
  obtain ⟨task', htask', halike, hback⟩ := hcovers task htask
  obtain ⟨details', hdetails', hperm⟩ := halike.details details hdetails
  refine ⟨task', htask', by rwa [halike.region], details', hdetails', haddress.perm hperm,
    fun subnet vpc h => hnone subnet vpc ?_⟩
  exact h.alike hback hperm.symm hsubnets.symm

theorem Resolvable.covered (hto : TasksCovered tasks tasks') (hfrom : TasksCovered tasks' tasks)
    (hsubnets : subnets.Perm subnets') {region vpc ip : String}
    (h : Resolvable tasks subnets region vpc ip) : Resolvable tasks' subnets' region vpc ip := by
  obtain ⟨⟨task, subnet, hclaims, hall⟩, hunknown⟩ := h
  obtain ⟨task', hclaims', hsame'⟩ := hclaims.covered hto hsubnets
  refine ⟨⟨task', subnet, hclaims', fun other s hother => ?_⟩,
    fun hclaimed => hunknown (hclaimed.covered hfrom hsubnets.symm)⟩
  obtain ⟨back, hback, hsame⟩ := hother.covered hfrom hsubnets.symm
  rw [← identity_target vpc, hsame', ← hsame, identity_target vpc]
  exact hall back s hback

theorem PlainRows.covered (hplain : PlainRows tasks subnets) (hfrom : TasksCovered tasks' tasks)
    (hsubnets : subnets.Perm subnets') : PlainRows tasks' subnets' where
  subnetRegions row hrow := hplain.subnetRegions row (hsubnets.mem_iff.mpr hrow)
  subnetVpcs row hrow := hplain.subnetVpcs row (hsubnets.mem_iff.mpr hrow)
  taskRegions task' htask' := by
    obtain ⟨task, htask, halike, -⟩ := hfrom task' htask'
    exact halike.region ▸ hplain.taskRegions task htask
  addresses task' htask' details' hdetails' d hd := by
    obtain ⟨task, htask, halike, -⟩ := hfrom task' htask'
    obtain ⟨details, hdetails, hperm⟩ := halike.details details' hdetails'
    exact hplain.addresses task htask details hdetails d (hperm.mem_iff.mp hd)

theorem resolved_covered (hplain : PlainRows tasks subnets) (hto : TasksCovered tasks tasks')
    (hfrom : TasksCovered tasks' tasks) (hsubnets : subnets.Perm subnets') {key : String}
    {target : EcsTarget} (h : Entries.get (ecsIps tasks subnets) key = some target) :
    ∃ task back vpc subnet, task ∈ tasks ∧ back ∈ tasks ∧ task.region = back.region ∧
      back.taskId = task.taskId ∧ back.cluster = task.cluster ∧ target = task.target vpc subnet ∧
      Entries.get (ecsIps tasks' subnets') key = some (back.target vpc subnet) := by
  have hplain' := hplain.covered hfrom hsubnets
  obtain ⟨region, vpc, ip, task, subnet, rfl, hclaims, rfl⟩ := ecs_ips_target hplain h
  have hresolvable := (ecs_ips_resolves hplain region vpc ip).mp ⟨_, h⟩
  obtain ⟨target', htarget'⟩ := (ecs_ips_resolves hplain' region vpc ip).mpr
    (hresolvable.covered hto hfrom hsubnets)
  obtain ⟨region', vpc', ip', task', subnet', hkey, hclaims', rfl⟩ := ecs_ips_target hplain' htarget'
  obtain ⟨h1, h2, h3⟩ := hclaims.plain hplain
  obtain ⟨rfl, rfl, rfl⟩ := plain_of_key h1 h2 h3 hkey.symm
  obtain ⟨back, hback, hsame⟩ := hclaims'.covered hfrom hsubnets.symm
  obtain ⟨⟨one, s, -, hall⟩, -⟩ := hresolvable
  obtain ⟨htaskId, hcluster, rfl⟩ := hall task subnet hclaims
  obtain ⟨hbackId, hbackCluster, rfl⟩ := hall back subnet' hback
  exact ⟨task, back, _, _, hclaims.1, hback.1, hclaims.2.1.trans hback.2.1.symm,
    hbackId.trans htaskId.symm, hbackCluster.trans hcluster.symm, rfl, hsame _ _ ▸ htarget'⟩

end Order

/-- The law of the map: what resolves, to what, and that the order of the rows does not matter; what
another order can change is the service and the label of a task that came in rows of several
groups. -/
structure EcsIpLaw (tasks : List EcsTask) (subnets : List Subnet) : Prop where
  resolves : ∀ region vpc ip,
    (∃ target, Entries.get (ecsIps tasks subnets) (scopedTargetIp region vpc ip) = some target) ↔
      Resolvable tasks subnets region vpc ip
  targets : ∀ key target, Entries.get (ecsIps tasks subnets) key = some target →
    ∃ region vpc ip task subnet, key = scopedTargetIp region vpc ip ∧
      Claims subnets tasks region vpc ip task subnet ∧ target = task.target vpc subnet
  order : ∀ tasks' subnets', Reordered tasks tasks' → subnets.Perm subnets' → ∀ key,
    (Entries.get (ecsIps tasks' subnets') key).map EcsTarget.identity =
      (Entries.get (ecsIps tasks subnets) key).map EcsTarget.identity
  orderOfGroups : (∀ task ∈ tasks, ∀ task' ∈ tasks, task.taskId = task'.taskId →
      task.cluster = task'.cluster → task.taskGroup = task'.taskGroup) →
    ∀ tasks' subnets', Reordered tasks tasks' → subnets.Perm subnets' → ∀ key,
      Entries.get (ecsIps tasks' subnets') key = Entries.get (ecsIps tasks subnets) key

/-- Without the separator of the keys in the rows, `ecsIpMap` meets it. -/
theorem ecs_ips_lawful (tasks : List EcsTask) (subnets : List Subnet)
    (hplain : PlainRows tasks subnets) : EcsIpLaw tasks subnets := by
  have hnone : ∀ tasks' subnets', Reordered tasks tasks' → subnets.Perm subnets' → ∀ key,
      Entries.get (ecsIps tasks subnets) key = none →
        Entries.get (ecsIps tasks' subnets') key = none := by
    intro tasks' subnets' hreordered hsubnets key hget
    obtain ⟨hto, hfrom⟩ := hreordered.covers
    cases hget' : Entries.get (ecsIps tasks' subnets') key with
    | none => rfl
    | some target' =>
      obtain ⟨_, _, _, _, _, _, _, _, _, _, hback⟩ := resolved_covered
        (hplain.covered hfrom hsubnets) hfrom hto hsubnets.symm hget'
      rw [hget] at hback
      cases hback
  refine ⟨fun region vpc ip => ecs_ips_resolves hplain region vpc ip,
    fun key target h => ecs_ips_target hplain h, ?_, ?_⟩
  · intro tasks' subnets' hreordered hsubnets key
    obtain ⟨hto, hfrom⟩ := hreordered.covers
    cases hget : Entries.get (ecsIps tasks subnets) key with
    | none => rw [hnone tasks' subnets' hreordered hsubnets key hget]
    | some target =>
      obtain ⟨task, back, vpc, subnet, -, -, -, hid, hcluster, rfl, hget'⟩ :=
        resolved_covered hplain hto hfrom hsubnets hget
      rw [hget', Option.map_some, Option.map_some, (identity_target vpc).mpr ⟨hid, hcluster, rfl⟩]
  · intro hgroups tasks' subnets' hreordered hsubnets key
    obtain ⟨hto, hfrom⟩ := hreordered.covers
    cases hget : Entries.get (ecsIps tasks subnets) key with
    | none => exact hnone tasks' subnets' hreordered hsubnets key hget
    | some target =>
      obtain ⟨task, back, vpc, subnet, htask, hback, hregion, hid, hcluster, rfl, hget'⟩ :=
        resolved_covered hplain hto hfrom hsubnets hget
      have hgroup := hgroups back hback task htask hid hcluster
      have hsame : back.target vpc subnet = task.target vpc subnet := by
        simp only [EcsTask.target, EcsTask.service, hgroup, hid, hcluster, hregion]
      rw [hget', hsame]

/-! ## Rows of examples -/

/-- A task with one attachment. -/
def exampleTask (id group subnet : String) : EcsTask where
  region := "r"
  taskGroup := group
  resourceId := id
  clusterArn := "c"
  vpcId := none
  attachments := [[⟨"subnetId", subnet, true⟩, ⟨"privateIPv4Address", "10.0.0.1", true⟩]]

/-- The address of a single task resolves. -/
theorem example_resolves : Resolvable [exampleTask "t" "service:a" "s"] [⟨"r", "s", "v"⟩] "r" "v"
    "10.0.0.1" := by
  have hplain : PlainRows [exampleTask "t" "service:a" "s"] [⟨"r", "s", "v"⟩] := by
    refine ⟨?_, ?_, ?_, ?_⟩ <;> simp [exampleTask, Plain]
  exact ((ecs_ips_lawful _ _ hplain).resolves "r" "v" "10.0.0.1").mp
    ⟨(exampleTask "t" "service:a" "s").target "v" "s", by decide +kernel⟩

/-- Two rows of one task with different groups: the label is that of the last one. And a VPC with the
separator of the keys: the task of unknown VPC that claims the address does not stand in the way. -/
theorem label_and_separator :
    (Entries.get (ecsIps [exampleTask "t" "service:a" "s", exampleTask "t" "service:b" "s"]
        [⟨"r", "s", "v"⟩]) (scopedTargetIp "r" "v" "10.0.0.1")).map EcsTarget.label = some "b" ∧
      (Entries.get (ecsIps [exampleTask "t" "service:b" "s", exampleTask "t" "service:a" "s"]
        [⟨"r", "s", "v"⟩]) (scopedTargetIp "r" "v" "10.0.0.1")).map EcsTarget.label = some "a" ∧
      (Entries.get (ecsIps [exampleTask "t" "service:a" "s", exampleTask "u" "" "unknown"]
        [⟨"r", "s", "v|w"⟩]) (scopedTargetIp "r" "v|w" "10.0.0.1")).isSome ∧
      ClaimsUnknown [⟨"r", "s", "v|w"⟩]
        [exampleTask "t" "service:a" "s", exampleTask "u" "" "unknown"] "r" "10.0.0.1" := by
  refine ⟨by decide +kernel, by decide +kernel, by decide +kernel, exampleTask "u" "" "unknown",
    by simp, .inl rfl, [⟨"subnetId", "unknown", true⟩, ⟨"privateIPv4Address", "10.0.0.1", true⟩],
    mem_cons_self, ⟨⟨"privateIPv4Address", "10.0.0.1", true⟩, by simp, rfl, rfl, rfl⟩, ?_⟩
  intro subnet vpc h
  -- the inventory has no row of its subnet
  obtain ⟨row, hrow, -, hid⟩ := h.vpcNamed
  have hnamed := h.subnetOnly ⟨"subnetId", "unknown", true⟩ (by simp) rfl
  rw [mem_singleton] at hrow
  subst hrow
  exact absurd (hid.trans hnamed.symm) (by decide)

end AwsOps.Topology
