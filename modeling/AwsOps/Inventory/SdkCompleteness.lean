import Mathlib.Data.List.Perm.Subperm
import AwsOps.Inventory.SdkCollectors

/-!
# Complete or partial

What the SDK collectors return when every call goes well, and what they admit when one does not. A
collector of VPC origins or of collections sees every page; one of listener rules or of buckets sees
the first page of its lists, so that it is complete without saying otherwise exactly when nothing is
listed behind (`complete_iff`).
-/

namespace AwsOps.Inventory.Sdk

open List Paging S3SecurityRow LoadBalancer Entries

/-! ## Parts -/

section Parts

variable {α ρ : Type} {part : α → Outcome (Part ρ)} {parts : List (Part ρ)} {s t : Part ρ}

theorem foldl_append_rows : (parts.foldl Part.append s).rows = s.rows ++ parts.flatMap Part.rows := by
  induction parts generalizing s with
  | nil => simp
  | cons p parts ih => simp [ih, Part.append]

theorem foldl_append_failures :
    (parts.foldl Part.append s).failures = s.failures ++ parts.flatMap Part.failures := by
  induction parts generalizing s with
  | nil => simp
  | cons p parts ih => simp [ih, Part.append]

theorem foldl_append_unknown : (parts.foldl Part.append s).unknownAttrs =
    s.unknownAttrs + (parts.map Part.unknownAttrs).sum := by
  induction parts generalizing s with
  | nil => simp
  | cons p parts ih => simp [ih, Part.append, Nat.add_assoc]

theorem foldlM_step {found : α → Part ρ} {raises : α → Prop} {items : List α}
    (hpart : ∀ a p, part a = .ok p ↔ ¬raises a ∧ p = found a) :
    items.foldlM (Part.step part) .none = .ok t ↔ (∀ a ∈ items, ¬raises a) ∧
      t = ⟨items.flatMap fun a => (found a).rows, items.flatMap fun a => (found a).failures,
        (items.map fun a => (found a).unknownAttrs).sum⟩ := by
  have hfold : items.foldlM (Part.step part) .none = .ok t ↔ _ := foldlM_append
  have hjoin : ∀ u : Part ρ, u = ⟨u.rows, u.failures, u.unknownAttrs⟩ := fun u => rfl
  rw [hfold]
  constructor
  · rintro ⟨parts, hparts, rfl⟩
    obtain ⟨hnone, rfl⟩ := (mapM_eq_ok hpart).mp hparts
    refine ⟨hnone, ?_⟩
    rw [hjoin (List.foldl _ _ _), foldl_append_rows, foldl_append_failures, foldl_append_unknown]
    simp [Part.none, flatMap_map, Function.comp_def]
  · rintro ⟨hnone, rfl⟩
    refine ⟨items.map found, (mapM_eq_ok hpart).mpr ⟨hnone, rfl⟩, ?_⟩
    rw [hjoin (List.foldl _ _ _), foldl_append_rows, foldl_append_failures, foldl_append_unknown]
    simp [Part.none, flatMap_map, Function.comp_def]

theorem follow_step {p : Paged AwsError α} {found : α → Part ρ} {raises : α → Prop}
    (hpart : ∀ a q, part a = .ok q ↔ ¬raises a ∧ q = found a) :
    p.follow (Part.step part) .none = .ok t ↔
      (∀ page ∈ p.pages, ∃ items, page = .ok items) ∧ (∀ a ∈ p.listed, ¬raises a) ∧
        t = ⟨p.listed.flatMap fun a => (found a).rows, p.listed.flatMap fun a => (found a).failures,
          (p.listed.map fun a => (found a).unknownAttrs).sum⟩ := by
  rw [Paged.follow_eq, foldlM_pages, foldlM_step hpart]
  rfl

end Parts

/-- A collector that is not partial returns one record for each item that is listed. -/
def CompleteUnlessPartial {ρ : Type} (result : Outcome (Collected ρ)) (key : ρ → String)
    (listed : List String) : Prop :=
  ∀ c, result = .ok c → sdkPartial c = false → (c.rows.map key).Perm listed

theorem sdk_partial_iff {ρ : Type} {c : Collected ρ} : sdkPartial c = false ↔ c.failureCount = 0 := by
  show decide (0 < c.failureCount) = false ↔ _
  simp

theorem sdk_partial_eq_false {ρ : Type} {part : Part ρ} :
    sdkPartial (sdkCollection part) = false ↔ part.failures = [] := by
  rw [sdk_partial_iff]
  exact length_eq_zero_iff

/-- The call has failed. -/
def failed {α : Type} (outcome : Outcome α) : Bool :=
  match outcome with
  | .ok _ => false
  | .error _ => true

theorem length_flatMap_eq_countP {α β : Type} {f : α → List β} {p : α → Bool} {items : List α}
    (h : ∀ a ∈ items, (f a).length = if p a then 1 else 0) :
    (items.flatMap f).length = items.countP p := by
  induction items with
  | nil => rfl
  | cons a items ih =>
    rw [flatMap_cons, length_append, h a mem_cons_self,
      ih fun b hb => h b (mem_cons_of_mem a hb), countP_cons]
    omega

/-! ## VPC origins -/

section VpcOrigins

def originFound (origin : VpcOrigin) : Part (String × VpcOriginDetail) :=
  match origin.detail with
  | .ok detail => ⟨[(origin.id, detail)], [], 0⟩
  | .error (.client type code) => .failed type code
  | .error .raised => .none

theorem origin_part {origin : VpcOrigin} {q : Part (String × VpcOriginDetail)} :
    vpcOriginPart origin = .ok q ↔ ¬origin.detail = .error .raised ∧ q = originFound origin := by
  unfold vpcOriginPart originFound
  cases origin.detail with
  | ok detail => simp [eq_comm]
  | error e => cases e <;> simp [eq_comm]

/-- The references of a distribution to VPC origins. -/
def Distribution.refs (distribution : Distribution) : List (String × String × Option String) :=
  match distribution.origins with
  | .ok origins => origins.filterMap (originRef distribution.id)
  | .error _ => []

/-- What a distribution gives. -/
def distributionFound (distribution : Distribution) : Part (String × String × Option String) :=
  match distribution.origins with
  | .error (.client type code) => .failed type code
  | _ => ⟨distribution.refs, [], 0⟩

theorem distribution_part {distribution : Distribution}
    {q : Part (String × String × Option String)} :
    distributionPart distribution = .ok q ↔
      ¬distribution.origins = .error .raised ∧ q = distributionFound distribution := by
  unfold distributionPart distributionFound Distribution.refs
  cases distribution.origins with
  | ok origins => simp [eq_comm]
  | error e => cases e <;> simp [eq_comm]

variable {aws : Aws} {c : Collected VpcOriginRow}

/-- All references. -/
def Aws.refs (aws : Aws) : List (String × String × Option String) :=
  aws.distributions.listed.flatMap Distribution.refs

/-- What the collector returns: nothing if it cannot list origins or if a distribution cannot be
read, and otherwise the origins that could be read, with all references. -/
theorem fetch_vpc_origins (h : fetchCloudfrontVpcOrigins aws = .ok c) :
    (aws.listsVpcOrigins = false ∧ c = sdkCollection ⟨[], ["UnsupportedApi"], 0⟩) ∨
    (aws.listsVpcOrigins = true ∧ c.failureCount = aws.vpcOrigins.listed.countP (failed ·.detail) +
      aws.distributions.listed.countP (failed ·.origins) ∧
      (∃ part : Part VpcOriginRow, c = sdkCollection part) ∧
      ((∃ distribution ∈ aws.distributions.listed, failed distribution.origins = true) ∧ c.rows = [] ∨
        (∀ distribution ∈ aws.distributions.listed, failed distribution.origins = false) ∧
        c.rows = (ofList (aws.vpcOrigins.listed.flatMap fun origin =>
          (originFound origin).rows)).map (vpcOriginRow aws.refs))) := by
  unfold fetchCloudfrontVpcOrigins at h
  split_ifs at h with hlists
  · right
    obtain ⟨vos, hvos, h⟩ := bind_eq_ok.mp h
    obtain ⟨refs, hrefs, h⟩ := bind_eq_ok.mp h
    obtain ⟨-, hraised, rfl⟩ := (follow_step fun a q => origin_part).mp hvos
    obtain ⟨-, hraised', rfl⟩ := (follow_step fun a q => distribution_part).mp hrefs
    have horigins : (aws.vpcOrigins.listed.flatMap fun a => (originFound a).failures).length =
        aws.vpcOrigins.listed.countP (failed ·.detail) := by
      refine length_flatMap_eq_countP fun origin horigin => ?_
      have hnot := hraised origin horigin
      unfold originFound failed
      cases hdetail : origin.detail with
      | ok detail => rfl
      | error e => cases e with
        | client => rfl
        | raised => exact absurd hdetail hnot
    have hdistributions :
        (aws.distributions.listed.flatMap fun a => (distributionFound a).failures).length =
          aws.distributions.listed.countP (failed ·.origins) := by
      refine length_flatMap_eq_countP fun distribution hmem => ?_
      have hnot := hraised' distribution hmem
      unfold distributionFound failed
      cases hdetail : distribution.origins with
      | ok detail => rfl
      | error e => cases e with
        | client => rfl
        | raised => exact absurd hdetail hnot
    have hempty : (aws.distributions.listed.flatMap fun a => (distributionFound a).failures) = [] ↔
        ∀ distribution ∈ aws.distributions.listed, failed distribution.origins = false := by
      rw [← length_eq_zero_iff, hdistributions, countP_eq_zero]
      simp
    dsimp only at h
    split_ifs at h with hfailed
    · refine ⟨hlists, ?_, ⟨_, (pure_eq_ok.mp h).symm⟩, .inl ⟨?_, ?_⟩⟩
      · rw [← pure_eq_ok.mp h, ← horigins, ← hdistributions, ← length_append]
        rfl
      · by_contra hall
        refine hfailed (hempty.mpr fun distribution hmem => ?_)
        simpa using fun hd => hall ⟨distribution, hmem, hd⟩
      · rw [← pure_eq_ok.mp h]
        rfl
    · have hnone := not_not.mp hfailed
      refine ⟨hlists, ?_, ⟨_, (pure_eq_ok.mp h).symm⟩, .inr ⟨hempty.mp hnone, ?_⟩⟩
      · rw [← pure_eq_ok.mp h, ← horigins, ← hdistributions, ← length_append]
        rfl
      · have hsame : (aws.distributions.listed.flatMap fun a => (distributionFound a).rows) =
            aws.refs := by
          refine flatMap_congr fun distribution hmem => ?_
          have hok := hempty.mp hnone distribution hmem
          unfold distributionFound
          cases hdetail : distribution.origins with
          | ok origins => rfl
          | error e =>
            rw [hdetail] at hok
            cases hok
        rw [← pure_eq_ok.mp h, hsame]
        rfl
  · left
    exact ⟨by simpa using hlists, (pure_eq_ok.mp h).symm⟩

theorem vpc_origins_complete : CompleteUnlessPartial (fetchCloudfrontVpcOrigins aws)
    VpcOriginRow.vpcOriginId (aws.vpcOrigins.listed.map VpcOrigin.id) := by
  intro c h hpartial
  obtain ⟨-, rfl⟩ | ⟨-, hcount, ⟨part, rfl⟩, hrows⟩ := fetch_vpc_origins h
  · rw [sdk_partial_eq_false] at hpartial
    cases hpartial
  · have hnone : (sdkCollection part).failureCount = 0 := by
      rw [sdk_partial_eq_false] at hpartial
      exact congrArg List.length hpartial
    have hread : ∀ origin ∈ aws.vpcOrigins.listed, ∃ detail, origin.detail = .ok detail := by
      have hzero : aws.vpcOrigins.listed.countP (failed ·.detail) = 0 := by omega
      intro origin horigin
      have hok := countP_eq_zero.mp hzero origin horigin
      cases hdetail : origin.detail with
      | ok detail => exact ⟨detail, rfl⟩
      | error e => exact absurd (by rw [hdetail]; rfl) hok
    have hread' : ∀ distribution ∈ aws.distributions.listed, ¬failed distribution.origins = true := by
      have hzero : aws.distributions.listed.countP (failed ·.origins) = 0 := by omega
      exact countP_eq_zero.mp hzero
    obtain ⟨⟨distribution, hmem, hfailed⟩, -⟩ | ⟨-, hrows⟩ := hrows
    · exact absurd hfailed (hread' distribution hmem)
    have hids : ∀ origins : List VpcOrigin, (∀ origin ∈ origins, ∃ detail,
        origin.detail = .ok detail) →
          Entries.keys (origins.flatMap fun origin => (originFound origin).rows) =
            origins.map VpcOrigin.id := by
      intro origins hall
      induction origins with
      | nil => rfl
      | cons origin origins ih =>
        obtain ⟨detail, hdetail⟩ := hall origin mem_cons_self
        rw [flatMap_cons, Entries.keys_append,
          ih fun other hother => hall other (mem_cons_of_mem _ hother)]
        simp [originFound, hdetail, Entries.keys]
    have hkeys := hids _ hread
    rw [hrows, map_map]
    show (Entries.keys (ofList _)).Perm _
    refine (perm_ext_iff_of_nodup (nodup_keys_ofList _) aws.vpcOriginIds).mpr
      fun id => ?_
    rw [mem_keys_ofList, hkeys]

theorem vpc_origins_honest (h : fetchCloudfrontVpcOrigins aws = .ok c) :
    ∀ row ∈ c.rows, (∀ distribution ∈ aws.distributions.listed,
        failed distribution.origins = false) ∧
      ∃ origin ∈ aws.vpcOrigins.listed, ∃ detail, origin.detail = .ok detail ∧
        row = vpcOriginRow aws.refs (origin.id, detail) := by
  intro row hrow
  obtain ⟨-, rfl⟩ | ⟨-, -, -, ⟨-, hrows⟩ | ⟨hread, hrows⟩⟩ := fetch_vpc_origins h
  · cases hrow
  · rw [hrows] at hrow
    cases hrow
  · rw [hrows] at hrow
    obtain ⟨entry, hentry, rfl⟩ := mem_map.mp hrow
    have hmem := mem_of_get_ofList
      (get_of_mem (nodup_keys_ofList _) hentry)
    obtain ⟨origin, horigin, hfound⟩ := mem_flatMap.mp hmem
    refine ⟨hread, origin, horigin, ?_⟩
    unfold originFound at hfound
    cases hdetail : origin.detail with
    | ok detail =>
      rw [hdetail] at hfound
      exact ⟨detail, rfl, congrArg _ (mem_singleton.mp hfound)⟩
    | error e =>
      rw [hdetail] at hfound
      cases e <;> cases hfound

end VpcOrigins

/-! ## Listener rules -/

section Rules

variable (region : String) (lb : LoadBalancer)

theorem call_first {α : Type} (p : Paged AwsError α) :
    p.call none = p.first.map fun items => (items, if 1 < p.pages.length then some 1 else none) :=
  rfl

/-- The rules on the first pages of listeners. -/
def rulesOf (listeners : List Listener) : List RuleRow :=
  listeners.flatMap fun listener => (itemsOf listener.rules.first).map (ruleRow region lb listener)

/-- A listener whose rules cannot be listed. -/
def listenerFails (listener : Listener) : Bool :=
  failed listener.rules.first

theorem listener_rows (listeners : List Listener) :
    ((listenerRows region lb listeners).2 = none ↔ ∀ l ∈ listeners, listenerFails l = false) ∧
      ((listenerRows region lb listeners).2 = none →
        (listenerRows region lb listeners).1 = rulesOf region lb listeners) ∧
      ∀ row ∈ (listenerRows region lb listeners).1, row ∈ rulesOf region lb listeners := by
  induction listeners with
  | nil => simp [listenerRows, rulesOf]
  | cons listener rest ih =>
    obtain ⟨hnone, hall, hmem⟩ := ih
    unfold listenerRows rulesOf listenerFails failed
    rw [call_first, flatMap_cons]
    cases hfirst : listener.rules.first with
    | error e => simp [Except.map, hfirst]
    | ok rules =>
      simp only [Except.map, itemsOf, mem_cons, forall_eq_or_imp, hfirst, true_and]
      refine ⟨hnone, fun h => ?_, fun row hrow => ?_⟩
      · rw [hall h]
        rfl
      · obtain hrow | hrow := mem_append.mp hrow
        · exact mem_append_left _ hrow
        · exact mem_append_right _ (hmem row hrow)

/-- A load balancer of which a call fails: the listing of its listeners, or that of the rules of one
that is listed. -/
def LoadBalancer.fails (lb : LoadBalancer) : Bool :=
  lb.type == "application" &&
    (failed lb.listeners.first || (itemsOf lb.listeners.first).any listenerFails)

def LoadBalancer.rules (lb : LoadBalancer) : List Rule :=
  if lb.type = "application" then lb.listeners.listed.flatMap fun l => l.rules.listed else []

/-- The rules behind the first page of the listeners, or behind the first page of a listener. -/
def LoadBalancer.laterRules (lb : LoadBalancer) : List Rule :=
  if lb.type = "application" then
    (itemsOf lb.listeners.first).flatMap (fun l => l.rules.later) ++
      lb.listeners.later.flatMap fun l => l.rules.listed
  else []

def LoadBalancer.firstRows (lb : LoadBalancer) : List RuleRow :=
  if lb.type = "application" then rulesOf region lb (itemsOf lb.listeners.first) else []

theorem rules_perm : (lb.rules.map Rule.ruleArn).Perm
    ((lb.firstRows region).map RuleRow.ruleArn ++ lb.laterRules.map Rule.ruleArn) := by
  unfold rules firstRows laterRules
  split_ifs
  · have hfirst : (rulesOf region lb (itemsOf lb.listeners.first)).map RuleRow.ruleArn =
        ((itemsOf lb.listeners.first).flatMap fun l => itemsOf l.rules.first).map Rule.ruleArn := by
      unfold rulesOf
      rw [map_flatMap, map_flatMap]
      refine flatMap_congr fun listener _ => ?_
      rw [map_map]
      rfl
    rw [hfirst, ← map_append, ← append_assoc, Paged.listed_eq, flatMap_append]
    refine (List.Perm.append_right _ ?_).map _
    simp only [Paged.listed_eq]
    exact (flatMap_append_perm _ _ _).symm
  · exact List.Perm.refl _

def balancerFound (lb : LoadBalancer) : Part RuleRow :=
  match loadBalancerPart region lb with
  | .ok part => part
  | .error _ => .none

theorem balancer_part {q : Part RuleRow} : loadBalancerPart region lb = .ok q ↔
    ¬(∃ e, loadBalancerPart region lb = .error e) ∧ q = balancerFound region lb := by
  unfold balancerFound
  cases loadBalancerPart region lb with
  | ok part => simp [eq_comm]
  | error e => simp

theorem balancer_found (h : ¬∃ e, loadBalancerPart region lb = .error e) :
    ((balancerFound region lb).failures.length = if lb.fails then 1 else 0) ∧
      (lb.fails = false → (balancerFound region lb).rows = lb.firstRows region) ∧
      ∀ row ∈ (balancerFound region lb).rows, row ∈ lb.firstRows region := by
  obtain ⟨part, hpart⟩ : ∃ part, loadBalancerPart region lb = .ok part := by
    cases hp : loadBalancerPart region lb with
    | ok part => exact ⟨part, rfl⟩
    | error e => exact absurd ⟨e, hp⟩ h
  have hfound : balancerFound region lb = part := by
    unfold balancerFound
    rw [hpart]
  rw [hfound]
  unfold loadBalancerPart at hpart
  unfold fails firstRows failed
  by_cases htype : lb.type = "application"
  · rw [if_neg (not_not_intro htype), call_first] at hpart
    simp only [htype, beq_self_eq_true, Bool.true_and, if_true]
    cases hfirst : lb.listeners.first with
    | error e =>
      rw [hfirst] at hpart
      cases e with
      | raised => cases hpart
      | client type code =>
        cases hpart
        simp
    | ok listeners =>
      rw [hfirst] at hpart
      obtain ⟨hnone, hall, hmem⟩ := listener_rows region lb listeners
      dsimp only [Except.map] at hpart
      simp only [itemsOf, Bool.false_or]
      have hany : listeners.any listenerFails = false ↔
          (listenerRows region lb listeners).2 = none := by
        rw [hnone, any_eq_false]
        simp
      generalize listenerRows region lb listeners = found at hpart hall hmem hany
      obtain ⟨rows, _ | _ | _⟩ := found
      · cases hpart
        rw [hany.mpr rfl]
        exact ⟨rfl, fun _ => hall rfl, hmem⟩
      · cases hpart
        have hfails : listeners.any listenerFails = true := by
          rw [← Bool.not_eq_false, hany]
          simp
        rw [hfails]
        exact ⟨rfl, by simp, hmem⟩
      · cases hpart
  · rw [if_pos htype] at hpart
    cases hpart
    simp [htype, Part.none]

variable {aws : Aws} {c : Collected RuleRow}

/-- The rules of all application load balancers. -/
def Aws.rules (aws : Aws) : List String :=
  aws.loadBalancers.listed.flatMap fun lb => lb.rules.map Rule.ruleArn

theorem fetch_rules (h : fetchAlbListenerRules aws = .ok c) :
    (∀ page ∈ aws.loadBalancers.pages, ∃ items, page = .ok items) ∧
      (∀ lb ∈ aws.loadBalancers.listed, ¬∃ e, loadBalancerPart aws.region lb = .error e) ∧
      c = sdkCollection
        ⟨aws.loadBalancers.listed.flatMap fun lb => (balancerFound aws.region lb).rows,
          aws.loadBalancers.listed.flatMap fun lb => (balancerFound aws.region lb).failures,
          (aws.loadBalancers.listed.map fun lb => (balancerFound aws.region lb).unknownAttrs).sum⟩ := by
  obtain ⟨part, hpart, h⟩ := bind_eq_ok.mp h
  obtain ⟨hpages, hraised, rfl⟩ :=
    (follow_step fun lb q => balancer_part aws.region lb).mp hpart
  exact ⟨hpages, hraised, (pure_eq_ok.mp h).symm⟩

theorem rules_counted (h : fetchAlbListenerRules aws = .ok c) :
    c.failureCount = aws.loadBalancers.listed.countP fails := by
  obtain ⟨-, hraised, rfl⟩ := fetch_rules h
  exact length_flatMap_eq_countP fun lb hlb => (balancer_found aws.region lb (hraised lb hlb)).1

theorem rules_honest (h : fetchAlbListenerRules aws = .ok c) :
    ∀ row ∈ c.rows, ∃ lb ∈ aws.loadBalancers.listed, ∃ listener ∈ itemsOf lb.listeners.first,
      ∃ rule ∈ itemsOf listener.rules.first, row = ruleRow aws.region lb listener rule := by
  obtain ⟨-, hraised, rfl⟩ := fetch_rules h
  intro row hrow
  obtain ⟨lb, hlb, hrow⟩ := mem_flatMap.mp hrow
  have hfirst := (balancer_found aws.region lb (hraised lb hlb)).2.2 row hrow
  unfold firstRows at hfirst
  split_ifs at hfirst
  · obtain ⟨listener, hlistener, hrule⟩ := mem_flatMap.mp hfirst
    obtain ⟨rule, hmem, rfl⟩ := mem_map.mp hrule
    exact ⟨lb, hlb, listener, hlistener, rule, hmem, rfl⟩
  · cases hfirst

/-- A call of the collector of rules fails. -/
def Aws.rulesFail (aws : Aws) : Prop :=
  (∃ page ∈ aws.loadBalancers.pages, failed page = true) ∨
    ∃ lb ∈ aws.loadBalancers.listed, lb.fails = true

/-- Nothing is listed behind the first page of listeners or of rules. -/
def Aws.rulesInView (aws : Aws) : Prop :=
  ∀ lb ∈ aws.loadBalancers.listed, lb.laterRules = []

theorem fetch_rules_of_calls (h : ¬aws.rulesFail) : ∃ c, fetchAlbListenerRules aws = .ok c ∧
    sdkPartial c = false ∧
    c.rows = aws.loadBalancers.listed.flatMap (firstRows aws.region) := by
  unfold Aws.rulesFail at h
  rw [not_or] at h
  simp only [not_exists, not_and, Bool.not_eq_true] at h
  obtain ⟨hpages, hfails⟩ := h
  have hraised : ∀ lb ∈ aws.loadBalancers.listed,
      ¬∃ e, loadBalancerPart aws.region lb = .error e := by
    rintro lb hlb ⟨e, he⟩
    have hok := hfails lb hlb
    unfold loadBalancerPart at he
    unfold fails failed at hok
    split_ifs at he with htype
    rw [call_first] at he
    simp only [not_not.mp htype, beq_self_eq_true, Bool.true_and, Bool.or_eq_false_iff] at hok
    cases hfirst : lb.listeners.first with
    | error e =>
      rw [hfirst] at hok
      cases hok.1
    | ok listeners =>
      rw [hfirst] at he hok
      have hnone := (listener_rows aws.region lb listeners).1.mpr fun l hl => by
        simpa using any_eq_false.mp hok.2 l hl
      dsimp only [Except.map] at he
      generalize listenerRows aws.region lb listeners = found at he hnone
      obtain ⟨rows, _⟩ := found
      cases hnone
      cases he
  have hread : ∀ page ∈ aws.loadBalancers.pages, ∃ items, page = .ok items := by
    intro page hpage
    cases hp : page with
    | ok items => exact ⟨items, rfl⟩
    | error e =>
      have hok := hpages page hpage
      rw [hp] at hok
      cases hok
  have hfollow := (follow_step fun lb q => balancer_part aws.region lb).mpr ⟨hread, hraised, rfl⟩
  refine ⟨_, bind_eq_ok.mpr ⟨_, hfollow, rfl⟩, ?_, ?_⟩
  · rw [sdk_partial_eq_false]
    refine flatMap_eq_nil_iff.mpr fun lb hlb => ?_
    have hlength := (balancer_found aws.region lb (hraised lb hlb)).1
    rw [hfails lb hlb] at hlength
    exact length_eq_zero_iff.mp hlength
  · exact flatMap_congr fun lb hlb =>
      (balancer_found aws.region lb (hraised lb hlb)).2.1 (hfails lb hlb)

theorem all_rules_perm : aws.rules.Perm
    ((aws.loadBalancers.listed.flatMap (firstRows aws.region)).map RuleRow.ruleArn ++
      aws.loadBalancers.listed.flatMap fun lb => lb.laterRules.map Rule.ruleArn) := by
  unfold Aws.rules
  rw [map_flatMap]
  refine List.Perm.trans ?_ (flatMap_append_perm _ _ _).symm
  exact List.Perm.flatMap_left _ fun lb _ => rules_perm aws.region lb

/-- The collector of rules is complete or partial exactly when a call fails or nothing is listed
behind the first pages. -/
theorem rules_complete_iff : CompleteUnlessPartial (fetchAlbListenerRules aws) RuleRow.ruleArn
    aws.rules ↔ aws.rulesFail ∨ aws.rulesInView := by
  constructor
  · intro hcomplete
    by_cases hfail : aws.rulesFail
    · exact .inl hfail
    · right
      obtain ⟨c, hc, hpartial, hrows⟩ := fetch_rules_of_calls hfail
      have hperm := (hcomplete c hc hpartial).trans all_rules_perm
      rw [hrows] at hperm
      have hlength := hperm.length_eq
      rw [length_append] at hlength
      have hnil : (aws.loadBalancers.listed.flatMap fun lb => lb.laterRules.map Rule.ruleArn) = [] :=
        length_eq_zero_iff.mp (by omega)
      intro lb hlb
      exact map_eq_nil_iff.mp (flatMap_eq_nil_iff.mp hnil lb hlb)
  · rintro h c hc hpartial
    have hnot : ¬aws.rulesFail := by
      obtain ⟨hpages, -, -⟩ := fetch_rules hc
      rintro (⟨page, hpage, hfailed⟩ | ⟨lb, hlb, hfails⟩)
      · obtain ⟨items, rfl⟩ := hpages page hpage
        cases hfailed
      · have hcount := rules_counted hc
        rw [sdk_partial_iff.mp hpartial] at hcount
        exact countP_eq_zero.mp hcount.symm lb hlb hfails
    have hview := h.resolve_left hnot
    obtain ⟨c', hc', -, hrows⟩ := fetch_rules_of_calls hnot
    cases hc.symm.trans hc'
    have hnil : (aws.loadBalancers.listed.flatMap fun lb => lb.laterRules.map Rule.ruleArn) = [] :=
      flatMap_eq_nil_iff.mpr fun lb hlb => by rw [hview lb hlb]; rfl
    have hperm : aws.rules.Perm _ := all_rules_perm
    rw [hnil, append_nil] at hperm
    rw [hrows]
    exact hperm.symm

end Rules

/-! ## Attribute calls -/

section Attempts

variable {α β ρ : Type}

/-- The failure that an attribute call counts. -/
def failureOf (absentCodes : List String) (outcome : Outcome α) : List String :=
  match outcome with
  | .error (.client type code) =>
    if code ∈ absentCodes ∨ code ∈ steadyDenialCodes then [] else [safeSdkFailureType type code]
  | _ => []

/-- An attribute call that is denied for good. -/
def denies (absentCodes : List String) (outcome : Outcome α) : Bool :=
  match outcome with
  | .error (.client _ code) => code ∉ absentCodes && code ∈ steadyDenialCodes
  | _ => false

/-- What an attribute call tells: a value, that there is nothing to read, or nothing. -/
def told (absentCodes : List String) (value : α → β) (absent unknown : β) (outcome : Outcome α) : β :=
  match outcome with
  | .ok a => value a
  | .error (.client _ code) => if code ∈ absentCodes then absent else unknown
  | .error .raised => unknown

theorem attempt_ok {outcome : Outcome α} {onValue : α → ρ → ρ} {absentCodes : List String}
    {onAbsent : ρ → ρ} {attributes : List String} {r r' : Reading ρ} (put : β → ρ → ρ)
    (value : α → β) (absent unknown : β) (hvalue : ∀ a, onValue a r.record = put (value a) r.record)
    (habsent : onAbsent r.record = put absent r.record) (hunknown : r.record = put unknown r.record) :
    attempt outcome onValue absentCodes onAbsent attributes r = .ok r' ↔
      ¬outcome = .error .raised ∧ r' =
        { record := put (told absentCodes value absent unknown outcome) r.record
          failures := r.failures ++ failureOf absentCodes outcome
          unknownAttrs := r.unknownAttrs + if denies absentCodes outcome then 1 else 0
          denied := r.denied ++ if denies absentCodes outcome then attributes else []
          transientFailed := r.transientFailed || !(failureOf absentCodes outcome).isEmpty } := by
  obtain ⟨record, failures, unknownAttrs, denied, transientFailed⟩ := r
  dsimp only at hvalue habsent hunknown
  unfold attempt failureOf denies told
  match outcome with
  | .ok a => simp [hvalue, eq_comm]
  | .error .raised => simp
  | .error (.client type code) =>
    dsimp only
    by_cases hcode : code ∈ absentCodes
    · simp [hcode, habsent, eq_comm]
    · by_cases hsteady : code ∈ steadyDenialCodes
      · simp [hcode, hsteady, ← hunknown, eq_comm]
      · simp [hcode, hsteady, ← hunknown, eq_comm]

end Attempts

/-! ## Buckets -/

/-- What is known of a collector of buckets: the record that it makes, the failures and denials that
it counts, the attributes that were denied, and the buckets at which it raises. -/
structure BucketReads (ρ : Type) where
  start : Bucket → String → ρ
  read : Bucket → Reading ρ → Outcome (Reading ρ)
  disclose : List String → ρ → ρ
  record : Bucket → String → ρ
  failures : Bucket → List String
  denials : Bucket → Nat
  denied : Bucket → List String
  raises : Bucket → Prop
  read_ok : ∀ b region r, read b ⟨start b region, [], 0, [], false⟩ = .ok r ↔ ¬raises b ∧
    r = ⟨record b region, failures b, denials b, denied b, !(failures b).isEmpty⟩

/-- The region of a bucket that can be placed. -/
def regionOf (constraint : Option String) : String :=
  if constraint.getD "" = "" then "us-east-1" else constraint.getD ""

namespace BucketReads

variable {ρ : Type} (reads : BucketReads ρ)

def fetch (aws : Aws) : Outcome (Collected ρ) :=
  eachBucket aws fun bucket =>
    bucketPart (reads.start bucket) (reads.read bucket) reads.disclose bucket

/-- What a bucket gives. -/
def found (bucket : Bucket) : Part ρ :=
  match bucket.location with
  | .error (.client type code) => .failed type code
  | .error .raised => .none
  | .ok constraint =>
    ⟨if reads.failures bucket = [] then
        [reads.disclose (reads.denied bucket) (reads.record bucket (regionOf constraint))]
      else [],
      reads.failures bucket, reads.denials bucket⟩

/-- A call at which the collector raises. -/
def stops (bucket : Bucket) : Prop :=
  bucket.location = .error .raised ∨ failed bucket.location = false ∧ reads.raises bucket

def fails (bucket : Bucket) : Prop :=
  failed bucket.location = true ∨ reads.raises bucket ∨ reads.failures bucket ≠ []

theorem part_ok {bucket : Bucket} {q : Part ρ} :
    bucketPart (reads.start bucket) (reads.read bucket) reads.disclose bucket = .ok q ↔
      ¬reads.stops bucket ∧ q = reads.found bucket := by
  unfold bucketPart stops found failed
  match hlocation : bucket.location with
  | .error (.client type code) => simp [eq_comm]
  | .error .raised => simp
  | .ok constraint =>
    dsimp only
    rw [bind_eq_ok]
    have hread := reads.read_ok bucket (regionOf constraint)
    simp only [reduceCtorEq, false_or, true_and]
    constructor
    · rintro ⟨r, hr, hq⟩
      obtain ⟨hraises, rfl⟩ := (hread r).mp hr
      refine ⟨hraises, ?_⟩
      cases hfailures : reads.failures bucket with
      | nil =>
        rw [hfailures] at hq
        exact (pure_eq_ok.mp hq).symm
      | cons failure rest =>
        rw [hfailures] at hq
        exact (pure_eq_ok.mp hq).symm
    · rintro ⟨hraises, rfl⟩
      refine ⟨_, (hread _).mpr ⟨hraises, rfl⟩, ?_⟩
      cases reads.failures bucket with
      | nil => rfl
      | cons failure rest => rfl

variable {aws : Aws} {c : Collected ρ}

theorem fetch_ok : reads.fetch aws = .ok c ↔ ∃ buckets, aws.buckets.first = .ok buckets ∧
    (∀ bucket ∈ buckets, ¬reads.stops bucket) ∧ c = sdkCollection
      ⟨buckets.flatMap fun b => (reads.found b).rows, buckets.flatMap fun b => (reads.found b).failures,
        (buckets.map fun b => (reads.found b).unknownAttrs).sum⟩ := by
  unfold fetch eachBucket
  rw [call_first, bind_eq_ok]
  cases aws.buckets.first with
  | error e => simp [Except.map]
  | ok buckets =>
    constructor
    · rintro ⟨_, hbuckets, h⟩
      cases hbuckets
      obtain ⟨part, hpart, h⟩ := bind_eq_ok.mp h
      obtain ⟨hstops, rfl⟩ := (foldlM_step fun b q => reads.part_ok).mp hpart
      exact ⟨buckets, rfl, hstops, (pure_eq_ok.mp h).symm⟩
    · rintro ⟨_, hbuckets, hstops, rfl⟩
      cases hbuckets
      exact ⟨_, rfl, bind_eq_ok.mpr ⟨_, (foldlM_step fun b q => reads.part_ok).mpr ⟨hstops, rfl⟩, rfl⟩⟩

/-- Every row is that of a bucket that could be placed and of which no attribute call failed for
now; its attributes are what the calls told, and those that were denied are named. -/
theorem honest (h : reads.fetch aws = .ok c) : ∀ row ∈ c.rows,
    ∃ bucket ∈ itemsOf aws.buckets.first, ∃ constraint, bucket.location = .ok constraint ∧
      reads.failures bucket = [] ∧
      row = reads.disclose (reads.denied bucket) (reads.record bucket (regionOf constraint)) := by
  obtain ⟨buckets, hbuckets, -, rfl⟩ := reads.fetch_ok.mp h
  intro row hrow
  obtain ⟨bucket, hbucket, hrow⟩ := mem_flatMap.mp hrow
  refine ⟨bucket, by rwa [hbuckets], ?_⟩
  unfold found at hrow
  match hlocation : bucket.location with
  | .error (.client type code) =>
    rw [hlocation] at hrow
    cases hrow
  | .error .raised =>
    rw [hlocation] at hrow
    cases hrow
  | .ok constraint =>
    rw [hlocation] at hrow
    dsimp only at hrow
    split_ifs at hrow with hfailures
    · exact ⟨constraint, rfl, hfailures, mem_singleton.mp hrow⟩
    · cases hrow

theorem counted (h : reads.fetch aws = .ok c) :
    c.failureCount = ((itemsOf aws.buckets.first).map fun bucket =>
      if failed bucket.location then 1 else (reads.failures bucket).length).sum ∧
    c.unknownAttributeCount = ((itemsOf aws.buckets.first).map fun bucket =>
      if failed bucket.location then 0 else reads.denials bucket).sum := by
  obtain ⟨buckets, hbuckets, hstops, rfl⟩ := reads.fetch_ok.mp h
  rw [hbuckets]
  have hone : ∀ bucket ∈ buckets, (reads.found bucket).failures.length =
      (if failed bucket.location then 1 else (reads.failures bucket).length) ∧
      (reads.found bucket).unknownAttrs =
        if failed bucket.location then 0 else reads.denials bucket := by
    intro bucket hbucket
    have hstop := hstops bucket hbucket
    unfold found failed
    match hlocation : bucket.location with
    | .error (.client type code) => exact ⟨rfl, rfl⟩
    | .error .raised => exact absurd (.inl hlocation) hstop
    | .ok constraint => exact ⟨rfl, rfl⟩
  constructor
  · show (buckets.flatMap _).length = _
    rw [length_flatMap]
    exact congrArg List.sum (map_congr_left fun b hb => (hone b hb).1)
  · exact congrArg List.sum (map_congr_left fun b hb => (hone b hb).2)

def callFails (aws : Aws) : Prop :=
  failed aws.buckets.first = true ∨ ∃ bucket ∈ itemsOf aws.buckets.first, reads.fails bucket

theorem fetch_of_calls (name : ρ → String) (hname : ∀ b region denied,
      name (reads.disclose denied (reads.record b region)) = b.name) (h : ¬reads.callFails aws) :
    ∃ c, reads.fetch aws = .ok c ∧ sdkPartial c = false ∧
      c.rows.map name = (itemsOf aws.buckets.first).map Bucket.name := by
  unfold callFails at h
  rw [not_or] at h
  obtain ⟨hfirst, hfails⟩ := h
  simp only [not_exists, not_and] at hfails
  obtain ⟨buckets, hbuckets⟩ : ∃ buckets, aws.buckets.first = .ok buckets := by
    cases hf : aws.buckets.first with
    | ok buckets => exact ⟨buckets, rfl⟩
    | error e => exact absurd (by rw [hf]; rfl) hfirst
  rw [hbuckets] at hfails ⊢
  have hgood : ∀ bucket ∈ buckets, ¬reads.stops bucket ∧ ∃ constraint, reads.found bucket =
      ⟨[reads.disclose (reads.denied bucket) (reads.record bucket (regionOf constraint))], [],
        reads.denials bucket⟩ := by
    intro bucket hbucket
    have hok := hfails bucket hbucket
    unfold fails at hok
    simp only [not_or, not_not, Bool.not_eq_true] at hok
    obtain ⟨hlocation, hraises, hfailures⟩ := hok
    unfold failed at hlocation
    cases hl : bucket.location with
    | error e =>
      rw [hl] at hlocation
      cases hlocation
    | ok constraint =>
      refine ⟨?_, constraint, ?_⟩
      · rintro (hstop | ⟨-, hraise⟩)
        · rw [hl] at hstop
          cases hstop
        · exact hraises hraise
      · unfold found
        rw [hl]
        simp [hfailures]
  refine ⟨_, reads.fetch_ok.mpr ⟨buckets, hbuckets, fun b hb => (hgood b hb).1, rfl⟩, ?_, ?_⟩
  · rw [sdk_partial_eq_false]
    refine flatMap_eq_nil_iff.mpr fun bucket hbucket => ?_
    obtain ⟨-, constraint, hfound⟩ := hgood bucket hbucket
    rw [hfound]
  · show (buckets.flatMap _).map name = buckets.map Bucket.name
    have hrows : ∀ bs : List Bucket, (∀ b ∈ bs, b ∈ buckets) →
        (bs.flatMap fun b => (reads.found b).rows).map name = bs.map Bucket.name := by
      intro bs hbs
      induction bs with
      | nil => rfl
      | cons b bs ih =>
        obtain ⟨-, constraint, hfound⟩ := hgood b (hbs b mem_cons_self)
        rw [flatMap_cons, map_append, ih fun x hx => hbs x (mem_cons_of_mem b hx),
          hfound, map_singleton, hname]
        rfl
    exact hrows buckets fun b hb => hb

theorem complete_iff (name : ρ → String) (hname : ∀ b region denied,
      name (reads.disclose denied (reads.record b region)) = b.name) :
    CompleteUnlessPartial (reads.fetch aws) name (aws.buckets.listed.map Bucket.name) ↔
      reads.callFails aws ∨ aws.buckets.later = [] := by
  rw [Paged.listed_eq, map_append]
  constructor
  · intro hcomplete
    by_cases hfail : reads.callFails aws
    · exact .inl hfail
    · right
      obtain ⟨c, hc, hpartial, hrows⟩ := reads.fetch_of_calls name hname hfail
      have hlength := (hcomplete c hc hpartial).length_eq
      rw [hrows, length_append] at hlength
      have hnone : (aws.buckets.later.map Bucket.name).length = 0 := by omega
      exact map_eq_nil_iff.mp (length_eq_zero_iff.mp hnone)
  · rintro h c hc hpartial
    have hnot : ¬reads.callFails aws := by
      obtain ⟨buckets, hbuckets, hstops, -⟩ := reads.fetch_ok.mp hc
      have hcount := (reads.counted hc).1
      rw [sdk_partial_iff.mp hpartial, hbuckets] at hcount
      rintro (hfailed | ⟨bucket, hbucket, hfails⟩)
      · rw [hbuckets] at hfailed
        cases hfailed
      rw [hbuckets] at hbucket
      have hzero := sum_eq_zero_iff.mp hcount.symm _ (mem_map_of_mem hbucket)
      have hplaced : failed bucket.location = false := by
        by_contra hlocation
        rw [Bool.not_eq_false] at hlocation
        rw [if_pos hlocation] at hzero
        cases hzero
      rw [hplaced, if_neg Bool.false_ne_true] at hzero
      obtain hlocation | hraises | hne := hfails
      · rw [hplaced] at hlocation
        cases hlocation
      · exact hstops bucket hbucket (.inr ⟨hplaced, hraises⟩)
      · exact hne (length_eq_zero_iff.mp hzero)
    obtain ⟨c', hc', -, hrows⟩ := reads.fetch_of_calls name hname hnot
    cases hc.symm.trans hc'
    rw [hrows, h.resolve_left hnot, map_nil, append_nil]

end BucketReads

/-! ## The two collectors of buckets -/

/-- The codes that say that a bucket has no public access block. -/
def noPublicAccessBlock : List String :=
  ["NoSuchPublicAccessBlockConfiguration", "NoSuchPublicAccessBlock"]

/-- One, if it holds. -/
def one (b : Bool) : Nat :=
  if b then 1 else 0

theorem some_failure {a b : List String} : (!a.isEmpty || !b.isEmpty) = !(a ++ b).isEmpty := by
  cases a <;> rfl

theorem five_denials (a b c d e : Nat) : 0 + a + b + c + d + e = a + b + c + d + e := by
  rw [Nat.zero_add]

theorem five_failures (a b c d e : List String) :
    (((((false || !a.isEmpty) || !b.isEmpty) || !c.isEmpty) || !d.isEmpty) || !e.isEmpty) =
      !(a ++ b ++ c ++ d ++ e).isEmpty := by
  rw [Bool.false_or, some_failure, some_failure, some_failure, some_failure]

/-- The same answer for the four flags of a public access block. -/
def flags (value : Option Bool) : PublicAccessBlock :=
  ⟨value, value, value, value⟩

/-- The flags of the public access block, written into a record. -/
def S3PublicAccessRow.putFlags (config : PublicAccessBlock) (rec : S3PublicAccessRow) :
    S3PublicAccessRow :=
  { rec with
    blockPublicAcls := config.blockPublicAcls
    blockPublicPolicy := config.blockPublicPolicy
    restrictPublicBuckets := config.restrictPublicBuckets
    ignorePublicAcls := config.ignorePublicAcls }

def S3PublicAccessRow.putPolicy (isPublic : Option Bool) (rec : S3PublicAccessRow) :
    S3PublicAccessRow :=
  { rec with bucketPolicyIsPublic := isPublic }

def publicAccessTold (bucket : Bucket) : PublicAccessBlock :=
  told noPublicAccessBlock id (flags (some false)) (flags none) bucket.publicAccessBlock

def policyTold (bucket : Bucket) : Option Bool :=
  told ["NoSuchBucketPolicy"] id (some false) none bucket.policyStatus

/-- The attributes of `s3_public_access`. -/
def publicAccessReads : BucketReads S3PublicAccessRow where
  start bucket region := ⟨bucket.name, region, none, none, none, none, none, []⟩
  read := readPublicAccess
  disclose denied rec := { rec with attributesUnknown := denied }
  record bucket region :=
    { name := bucket.name
      region := region
      bucketPolicyIsPublic := policyTold bucket
      blockPublicAcls := (publicAccessTold bucket).blockPublicAcls
      blockPublicPolicy := (publicAccessTold bucket).blockPublicPolicy
      restrictPublicBuckets := (publicAccessTold bucket).restrictPublicBuckets
      ignorePublicAcls := (publicAccessTold bucket).ignorePublicAcls
      attributesUnknown := [] }
  failures bucket := failureOf noPublicAccessBlock bucket.publicAccessBlock ++
    failureOf ["NoSuchBucketPolicy"] bucket.policyStatus
  denials bucket := one (denies noPublicAccessBlock bucket.publicAccessBlock) +
    one (denies ["NoSuchBucketPolicy"] bucket.policyStatus)
  denied bucket :=
    (if denies noPublicAccessBlock bucket.publicAccessBlock then
      ["block_public_acls", "block_public_policy", "restrict_public_buckets", "ignore_public_acls"]
    else []) ++
    if denies ["NoSuchBucketPolicy"] bucket.policyStatus then ["bucket_policy_is_public"] else []
  raises bucket :=
    bucket.publicAccessBlock = .error .raised ∨ bucket.policyStatus = .error .raised
  read_ok b region r := by
    constructor
    · intro h
      obtain ⟨r1, h1, h2⟩ := bind_eq_ok.mp h
      obtain ⟨hflags, rfl⟩ := (attempt_ok S3PublicAccessRow.putFlags id (flags (some false))
        (flags none) (fun _ => rfl) rfl rfl).mp h1
      obtain ⟨hpolicy, rfl⟩ := (attempt_ok S3PublicAccessRow.putPolicy id (some false) none
        (fun _ => rfl) rfl rfl).mp h2
      exact ⟨not_or.mpr ⟨hflags, hpolicy⟩, Reading.ext rfl rfl
        (congrArg (· + _) (Nat.zero_add _)) rfl some_failure⟩
    · rintro ⟨hraises, rfl⟩
      obtain ⟨hflags, hpolicy⟩ := not_or.mp hraises
      refine bind_eq_ok.mpr ⟨_, (attempt_ok S3PublicAccessRow.putFlags id (flags (some false))
        (flags none) (fun _ => rfl) rfl rfl).mpr ⟨hflags, rfl⟩, ?_⟩
      exact (attempt_ok S3PublicAccessRow.putPolicy id (some false) none (fun _ => rfl) rfl rfl).mpr
        ⟨hpolicy, Reading.ext rfl rfl (congrArg (· + _) (Nat.zero_add _)).symm rfl some_failure.symm⟩

/-- The code that says that a bucket is not encrypted. -/
def noEncryption : List String :=
  ["ServerSideEncryptionConfigurationNotFoundError"]

namespace S3SecurityRow

def putVersioning (enabled : Option Bool) (rec : S3SecurityRow) : S3SecurityRow :=
  { rec with versioningEnabled := enabled }

def putEncryption (algo : Option String) (rec : S3SecurityRow) : S3SecurityRow :=
  { rec with encryption := algo }

def putLogging (enabled : Option Bool) (rec : S3SecurityRow) : S3SecurityRow :=
  { rec with loggingEnabled := enabled }

def putTags (tags : Option (List (String × String))) (rec : S3SecurityRow) : S3SecurityRow :=
  { rec with tags := tags }

def putPolicy (isPublic : Option Bool) (rec : S3SecurityRow) : S3SecurityRow :=
  { rec with bucketPolicyIsPublic := isPublic }

end S3SecurityRow

/-- What is told of the status of versioning. -/
def isEnabled (status : Option String) : Option Bool :=
  some (status == some "Enabled")

/-- The tags with a key. -/
def tagsOf (tags : List (String × String)) : Option (List (String × String)) :=
  some (ofList (tags.filter fun tag => tag.1 ≠ ""))

/-- The attributes of `s3`. -/
def securityReads : BucketReads S3SecurityRow where
  start bucket region := ⟨bucket.name, region, "arn:aws:s3:::" ++ bucket.name, bucket.creationDate,
    none, none, none, none, none, []⟩
  read := readSecurity
  disclose denied rec := { rec with attributesUnknown := denied }
  record bucket region :=
    { name := bucket.name
      region := region
      arn := "arn:aws:s3:::" ++ bucket.name
      creationDate := bucket.creationDate
      versioningEnabled := told [] isEnabled none none bucket.versioning
      encryption := told noEncryption (fun rules => some (encryptionOf rules)) (some "none") none
        bucket.encryption
      loggingEnabled := told [] some none none bucket.logging
      tags := told ["NoSuchTagSet"] tagsOf (some []) none bucket.tagging
      bucketPolicyIsPublic := policyTold bucket
      attributesUnknown := [] }
  failures bucket := failureOf [] bucket.versioning ++ failureOf noEncryption bucket.encryption ++
    failureOf [] bucket.logging ++ failureOf ["NoSuchTagSet"] bucket.tagging ++
    failureOf ["NoSuchBucketPolicy"] bucket.policyStatus
  denials bucket := one (denies [] bucket.versioning) + one (denies noEncryption bucket.encryption) +
    one (denies [] bucket.logging) + one (denies ["NoSuchTagSet"] bucket.tagging) +
    one (denies ["NoSuchBucketPolicy"] bucket.policyStatus)
  denied bucket :=
    (if denies [] bucket.versioning then ["versioning_enabled"] else []) ++
    (if denies noEncryption bucket.encryption then ["encryption"] else []) ++
    (if denies [] bucket.logging then ["logging_enabled"] else []) ++
    (if denies ["NoSuchTagSet"] bucket.tagging then ["tags"] else []) ++
    if denies ["NoSuchBucketPolicy"] bucket.policyStatus then ["bucket_policy_is_public"] else []
  raises bucket := bucket.versioning = .error .raised ∨ bucket.encryption = .error .raised ∨
    bucket.logging = .error .raised ∨ bucket.tagging = .error .raised ∨
    bucket.policyStatus = .error .raised
  read_ok b region r := by
    constructor
    · intro h
      obtain ⟨r1, h1, h⟩ := bind_eq_ok.mp h
      obtain ⟨r2, h2, h⟩ := bind_eq_ok.mp h
      obtain ⟨r3, h3, h⟩ := bind_eq_ok.mp h
      obtain ⟨r4, h4, h5⟩ := bind_eq_ok.mp h
      obtain ⟨hversioning, rfl⟩ := (attempt_ok putVersioning isEnabled none none
        (fun _ => rfl) rfl rfl).mp h1
      obtain ⟨hencryption, rfl⟩ := (attempt_ok putEncryption
        (fun rules => some (encryptionOf rules)) (some "none") none (fun _ => rfl) rfl rfl).mp h2
      obtain ⟨hlogging, rfl⟩ := (attempt_ok putLogging some none none
        (fun _ => rfl) rfl rfl).mp h3
      obtain ⟨htagging, rfl⟩ := (attempt_ok putTags tagsOf (some []) none
        (fun _ => rfl) rfl rfl).mp h4
      obtain ⟨hpolicy, rfl⟩ := (attempt_ok putPolicy id (some false) none
        (fun _ => rfl) rfl rfl).mp h5
      exact ⟨by simp [hversioning, hencryption, hlogging, htagging, hpolicy],
        Reading.ext rfl rfl (five_denials _ _ _ _ _) rfl (five_failures _ _ _ _ _)⟩
    · rintro ⟨hraises, rfl⟩
      simp only [not_or] at hraises
      obtain ⟨hversioning, hencryption, hlogging, htagging, hpolicy⟩ := hraises
      refine bind_eq_ok.mpr ⟨_, (attempt_ok putVersioning isEnabled none none
        (fun _ => rfl) rfl rfl).mpr ⟨hversioning, rfl⟩, ?_⟩
      refine bind_eq_ok.mpr ⟨_, (attempt_ok putEncryption
        (fun rules => some (encryptionOf rules)) (some "none") none (fun _ => rfl) rfl rfl).mpr
        ⟨hencryption, rfl⟩, ?_⟩
      refine bind_eq_ok.mpr ⟨_, (attempt_ok putLogging some none none
        (fun _ => rfl) rfl rfl).mpr ⟨hlogging, rfl⟩, ?_⟩
      refine bind_eq_ok.mpr ⟨_, (attempt_ok putTags tagsOf (some []) none
        (fun _ => rfl) rfl rfl).mpr ⟨htagging, rfl⟩, ?_⟩
      exact (attempt_ok putPolicy id (some false) none (fun _ => rfl) rfl rfl).mpr
        ⟨hpolicy, Reading.ext rfl rfl (five_denials _ _ _ _ _).symm rfl
          (five_failures _ _ _ _ _).symm⟩

/-! ## Collections -/

section Collections

variable (isoformat : Rat → String)

/-- The slices are the whole. -/
theorem flatten_batches {α : Type} (items : List α) : (batches items).flatten = items := by
  have htake : ∀ k, ((List.range k).map fun i => (items.drop (100 * i)).take 100).flatten =
      items.take (100 * k) := by
    intro k
    induction k with
    | zero => simp
    | succ k ih =>
      rw [range_succ, map_append, flatten_append, ih, Nat.mul_succ, take_add]
      simp
  unfold batches
  rw [htake, take_of_length_le (by omega)]

/-- The row of a collection, if the batch has its detail. -/
def collectionRow (region : String) (collection : AossCollection) : Option AossRow :=
  match collection.detail with
  | .ok detail => some (aossRow isoformat region collection.id detail)
  | .error _ => none

/-- The failure of a collection, if the batch has its error. -/
def collectionFailure (collection : AossCollection) : Option String :=
  match collection.detail with
  | .ok _ => none
  | .error code => some (safeSdkResponseFailureType code)

/-- What a batch gives. -/
def batchFound (aws : Aws) (batch : List AossCollection × Nat) : Part AossRow :=
  ⟨batch.1.filterMap (collectionRow isoformat aws.region), batch.1.filterMap collectionFailure, 0⟩

theorem batch_part {aws : Aws} {batch : List AossCollection × Nat} {q : Part AossRow} :
    batchPart isoformat aws batch = .ok q ↔
      ¬aws.batchRaises batch.2 = true ∧ q = batchFound isoformat aws batch := by
  unfold batchPart batchFound
  split_ifs with hraises
  · simp [hraises]
  · constructor
    · intro h
      cases h
      exact ⟨hraises, rfl⟩
    · rintro ⟨-, rfl⟩
      rfl

variable {aws : Aws} {c : Collected AossRow}

theorem fetch_collections (h : fetchOpensearchServerless isoformat aws = .ok c) :
    c.rows = aws.collections.listed.filterMap (collectionRow isoformat aws.region) ∧
      c.failureCount = (aws.collections.listed.filterMap collectionFailure).length ∧
      c.unknownAttributeCount = 0 := by
  obtain ⟨ids, hids, h⟩ := bind_eq_ok.mp h
  obtain ⟨part, hpart, h⟩ := bind_eq_ok.mp h
  have hlisted : ids = aws.collections.listed := by
    rw [Paged.follow_eq, foldlM_pages] at hids
    have hcopy : ∀ (more sofar : List AossCollection), more.foldlM
        (fun ids collection => (.ok (ids ++ [collection]) : Outcome (List AossCollection))) sofar =
          .ok (sofar ++ more) := by
      intro more
      induction more with
      | nil => intro sofar; simp [pure, Except.pure]
      | cons x more ih =>
        intro sofar
        rw [foldlM_cons, ok_bind, ih, append_assoc]
        rfl
    have hall := hids.2
    rw [hcopy] at hall
    exact (Except.ok.inj hall).symm
  subst hlisted
  obtain ⟨-, rfl⟩ := (foldlM_step fun b q => batch_part isoformat).mp hpart
  have hflat : ∀ {β : Type} (f : AossCollection → Option β),
      ((batches aws.collections.listed).zipIdx.flatMap fun batch => batch.1.filterMap f) =
        aws.collections.listed.filterMap f := by
    intro β f
    conv_rhs => rw [← flatten_batches aws.collections.listed]
    rw [filterMap_flatten, flatMap_def]
    have hfst := zipIdx_map_fst 0 (batches aws.collections.listed)
    conv_rhs => rw [← hfst, map_map]
    rfl
  rw [← pure_eq_ok.mp h]
  refine ⟨hflat _, congrArg List.length (hflat _), ?_⟩
  show List.sum _ = 0
  simp [batchFound]

theorem collections_complete : CompleteUnlessPartial (fetchOpensearchServerless isoformat aws)
    AossRow.id (aws.collections.listed.map AossCollection.id) := by
  intro c h hpartial
  obtain ⟨hrows, hcount, -⟩ := fetch_collections isoformat h
  rw [sdk_partial_iff.mp hpartial] at hcount
  have hnone : aws.collections.listed.filterMap collectionFailure = [] :=
    length_eq_zero_iff.mp hcount.symm
  rw [hrows]
  generalize aws.collections.listed = collections at hnone
  induction collections with
  | nil => exact List.Perm.refl _
  | cons collection rest ih =>
    -- a collection without a failure has a row, under its own id
    rw [filterMap_cons] at hnone ⊢
    unfold collectionFailure at hnone
    unfold collectionRow
    cases hdetail : collection.detail with
    | error code =>
      rw [hdetail] at hnone
      cases hnone
    | ok detail =>
      rw [hdetail] at hnone
      exact List.Perm.cons _ (ih hnone)

end Collections

/-! ## The law -/

section Law

variable (isoformat : Rat → String) (aws : Aws)

/-- Every collector returns one record for each listed item of every page, or is partial. -/
structure Complete : Prop where
  vpc_origins : CompleteUnlessPartial (fetchCloudfrontVpcOrigins aws) VpcOriginRow.vpcOriginId
    (aws.vpcOrigins.listed.map VpcOrigin.id)
  rules : CompleteUnlessPartial (fetchAlbListenerRules aws) RuleRow.ruleArn aws.rules
  public_access : CompleteUnlessPartial (fetchS3PublicAccess aws) S3PublicAccessRow.name
    (aws.buckets.listed.map Bucket.name)
  security : CompleteUnlessPartial (fetchS3Security aws) name
    (aws.buckets.listed.map Bucket.name)
  collections : CompleteUnlessPartial (fetchOpensearchServerless isoformat aws) AossRow.id
    (aws.collections.listed.map AossCollection.id)

/-- No collector guesses. A record is made of what the calls of its item have told, an item of which
a call failed for now has none, and an attribute that was denied is `none` in it and named. -/
structure Honest : Prop where
  vpc_origins : ∀ c, fetchCloudfrontVpcOrigins aws = .ok c → ∀ row ∈ c.rows,
    (∀ distribution ∈ aws.distributions.listed, failed distribution.origins = false) ∧
      ∃ origin ∈ aws.vpcOrigins.listed, ∃ detail, origin.detail = .ok detail ∧
        row = vpcOriginRow aws.refs (origin.id, detail)
  rules : ∀ c, fetchAlbListenerRules aws = .ok c → ∀ row ∈ c.rows,
    ∃ lb ∈ aws.loadBalancers.listed, ∃ listener ∈ itemsOf lb.listeners.first,
      ∃ rule ∈ itemsOf listener.rules.first, row = ruleRow aws.region lb listener rule
  public_access : ∀ c, fetchS3PublicAccess aws = .ok c → ∀ row ∈ c.rows,
    ∃ bucket ∈ itemsOf aws.buckets.first, ∃ constraint, bucket.location = .ok constraint ∧
      publicAccessReads.failures bucket = [] ∧
      row = { publicAccessReads.record bucket (regionOf constraint) with
        attributesUnknown := publicAccessReads.denied bucket }
  security : ∀ c, fetchS3Security aws = .ok c → ∀ row ∈ c.rows,
    ∃ bucket ∈ itemsOf aws.buckets.first, ∃ constraint, bucket.location = .ok constraint ∧
      securityReads.failures bucket = [] ∧
      row = { securityReads.record bucket (regionOf constraint) with
        attributesUnknown := securityReads.denied bucket }
  collections : ∀ c, fetchOpensearchServerless isoformat aws = .ok c → ∀ row ∈ c.rows,
    ∃ collection ∈ aws.collections.listed, ∃ detail, collection.detail = .ok detail ∧
      row = aossRow isoformat aws.region collection.id detail

/-- Every failed call of an item is counted, and so is every attribute call that was denied. -/
structure Counted : Prop where
  vpc_origins : ∀ c, fetchCloudfrontVpcOrigins aws = .ok c →
    c.failureCount = if aws.listsVpcOrigins then
      aws.vpcOrigins.listed.countP (failed ·.detail) +
        aws.distributions.listed.countP (failed ·.origins) else 1
  rules : ∀ c, fetchAlbListenerRules aws = .ok c →
    c.failureCount = aws.loadBalancers.listed.countP fails
  public_access : ∀ c, fetchS3PublicAccess aws = .ok c →
    c.failureCount = ((itemsOf aws.buckets.first).map fun bucket =>
      if failed bucket.location then 1 else (publicAccessReads.failures bucket).length).sum ∧
    c.unknownAttributeCount = ((itemsOf aws.buckets.first).map fun bucket =>
      if failed bucket.location then 0 else publicAccessReads.denials bucket).sum
  security : ∀ c, fetchS3Security aws = .ok c →
    c.failureCount = ((itemsOf aws.buckets.first).map fun bucket =>
      if failed bucket.location then 1 else (securityReads.failures bucket).length).sum ∧
    c.unknownAttributeCount = ((itemsOf aws.buckets.first).map fun bucket =>
      if failed bucket.location then 0 else securityReads.denials bucket).sum
  collections : ∀ c, fetchOpensearchServerless isoformat aws = .ok c →
    c.failureCount = (aws.collections.listed.filterMap collectionFailure).length

def CompleteOrSaySo : Prop :=
  Complete isoformat aws ∧ Honest isoformat aws ∧ Counted isoformat aws

variable {aws}

theorem collectors_honest : Honest isoformat aws where
  vpc_origins _ h := vpc_origins_honest h
  rules _ h := rules_honest h
  public_access _ h := publicAccessReads.honest h
  security _ h := securityReads.honest h
  collections c h row hrow := by
    rw [(fetch_collections isoformat h).1] at hrow
    obtain ⟨collection, hmem, hsome⟩ := mem_filterMap.mp hrow
    unfold collectionRow at hsome
    cases hdetail : collection.detail with
    | error code =>
      rw [hdetail] at hsome
      cases hsome
    | ok detail =>
      rw [hdetail] at hsome
      exact ⟨collection, hmem, detail, hdetail, (Option.some.inj hsome).symm⟩

theorem collectors_counted : Counted isoformat aws where
  vpc_origins c h := by
    obtain ⟨hlists, rfl⟩ | ⟨hlists, hcount, -⟩ := fetch_vpc_origins h
    · rw [hlists]
      rfl
    · rw [hcount, hlists, if_pos rfl]
  rules _ h := rules_counted h
  public_access _ h := publicAccessReads.counted h
  security _ h := securityReads.counted h
  collections _ h := (fetch_collections isoformat h).2.1

/-- The collectors are complete or say so exactly when nothing is listed behind the first page of
the listeners, of the rules or of the buckets, unless a call of the collector fails. -/
theorem complete_or_say_so_iff : CompleteOrSaySo isoformat aws ↔ (aws.rulesFail ∨ aws.rulesInView) ∧
      (publicAccessReads.callFails aws ∨ aws.buckets.later = []) ∧
      (securityReads.callFails aws ∨ aws.buckets.later = []) := by
  have hpublic : CompleteUnlessPartial (publicAccessReads.fetch aws) _ _ ↔ _ :=
    publicAccessReads.complete_iff S3PublicAccessRow.name fun _ _ _ => rfl
  have hsecurity : CompleteUnlessPartial (securityReads.fetch aws) _ _ ↔ _ :=
    securityReads.complete_iff name fun _ _ _ => rfl
  constructor
  · intro h
    exact ⟨rules_complete_iff.mp h.1.rules, hpublic.mp h.1.public_access, hsecurity.mp h.1.security⟩
  · intro ⟨hrules, hview, hview'⟩
    have hcomplete : Complete isoformat aws :=
      { vpc_origins := vpc_origins_complete
        rules := rules_complete_iff.mpr hrules
        public_access := hpublic.mpr hview
        security := hsecurity.mpr hview'
        collections := collections_complete isoformat }
    exact ⟨hcomplete, collectors_honest isoformat, collectors_counted isoformat⟩

end Law

/-- A load balancer whose listeners are on two pages. -/
def twoPages : Aws where
  region := "ap-northeast-2"
  listsVpcOrigins := true
  vpcOrigins := ⟨.ok [], []⟩
  distributions := ⟨.ok [], []⟩
  loadBalancers := ⟨.ok [⟨"alb", "application", ⟨.ok [⟨"one", some 80, some "HTTP", ⟨.ok [], []⟩⟩],
    [.ok [⟨"two", some 443, some "HTTPS", ⟨.ok [⟨"rule", some "1", false, .arr [], .arr []⟩], []⟩⟩]]⟩⟩],
    []⟩
  buckets := ⟨.ok [], []⟩
  collections := ⟨.ok [], []⟩
  batchRaises _ := false
  vpcOriginIds := nodup_nil

/-- The rule of the second listener is not returned, and nothing is said. -/
theorem rule_of_second_page : fetchAlbListenerRules twoPages = .ok ⟨[], 0, [], 0⟩ ∧
    twoPages.rules = ["rule"] ∧ ¬CompleteOrSaySo (fun _ => "") twoPages := by
  have hfetch : fetchAlbListenerRules twoPages = .ok ⟨[], 0, [], 0⟩ := rfl
  refine ⟨hfetch, rfl, fun h => ?_⟩
  have hperm := h.1.rules _ hfetch rfl
  exact absurd hperm.length_eq (by decide)

end AwsOps.Inventory.Sdk
