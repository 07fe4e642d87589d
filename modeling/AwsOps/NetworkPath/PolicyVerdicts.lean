import AwsOps.NetworkPath.Calico

/-!
# Verdicts of the policy adapters

Two results about both policy adapters. `missing_policy_data_stable`: a definite verdict reached
without some of the peer data, or without the labels of the pod, stands when the data is supplied.
`calico_verdict_sound`: a definite Calico verdict is the outcome of every run, that is of
every order of the selecting policies that their declared orders admit, evaluated first match
first, and of every way of deciding what the adapter left open.
-/

namespace AwsOps.NetworkPath

open List AwsOps.Kleene

variable (U : Text.Unicode)

theorem calico_selector_refines (selector : Option String) {labels labels' : Option Labels}
    (h : Refines labels labels') :
    Refines (calicoSelectorMatches U selector labels)
      (calicoSelectorMatches U selector labels') := by
  simp only [calicoSelectorMatches]
  split
  · exact .refl _
  · cases labels with
    | none => exact .of_none _
    | some known => rw [h known rfl]

theorem entity_selector_refines (selector : Option String) {labels labels' : Option Labels}
    (h : Refines labels labels') :
    Refines (entitySelectorMatches U selector labels)
      (entitySelectorMatches U selector labels') := by
  simp only [entitySelectorMatches]
  split
  · exact .refl _
  · cases labels with
    | none => exact .of_none _
    | some known => rw [h known rfl]

theorem nets_match_refines (nets : List String) {peerIp peerIp' : Option String}
    (h : Refines peerIp peerIp') : Refines (netsMatch nets peerIp) (netsMatch nets peerIp') := by
  simp only [netsMatch]
  split
  · exact .refl _
  · exact (usable_ip_refines h).map _

theorem calico_entity_match_refines (peer : CalicoEntity) {data data' : PeerData}
    (h : data'.Completes data) (portMatch : Option Bool) :
    Refines (calicoEntityMatch U peer data portMatch)
      (calicoEntityMatch U peer data' portMatch) :=
  (entity_selector_refines U peer.namespaceSelector h.peerNamespaceLabels).both
    ((entity_selector_refines U peer.selector h.peerLabels).both
      ((nets_match_refines peer.nets h.peerIp).both (.refl _)))

theorem calico_rule_refines (direction : Direction) {data data' : PeerData}
    (h : data'.Completes data) (protocol : Option String) (port : Option PortRef)
    (rule : CalicoRule) {isMatch : Option Bool}
    (hmatch : calicoRulePeerMatch U direction data protocol port rule = .ok isMatch) :
    ∃ isMatch', calicoRulePeerMatch U direction data' protocol port rule = .ok isMatch' ∧
      Refines isMatch isMatch' := by
  simp only [calicoRulePeerMatch] at hmatch ⊢
  split at hmatch
  · rename_i hunmodeled
    rw [if_pos hunmodeled]
    cases hmatch
    exact ⟨none, rfl, .refl _⟩
  · rename_i hmodeled
    rw [if_neg hmodeled]
    cases hname : calicoProtocolName U rule.protocol with
    | error message => rw [hname] at hmatch; cases hmatch
    | ok name =>
      rw [hname] at hmatch
      simp only [bind, Except.bind] at hmatch ⊢
      split at hmatch
      · rename_i hunknown
        rw [if_pos hunknown]
        cases hmatch
        exact ⟨none, rfl, .refl _⟩
      · rename_i hknown
        rw [if_neg hknown]
        split at hmatch
        · rename_i hprotocol
          rw [if_pos hprotocol]
          cases hmatch
          exact ⟨some false, rfl, .refl _⟩
        · rename_i hprotocol
          rw [if_neg hprotocol]
          split at hmatch
          · rename_i hport
            rw [if_pos hport]
            cases hmatch
            exact ⟨some false, rfl, .refl _⟩
          · rename_i hport
            rw [if_neg hport]
            cases hmatch
            exact ⟨_, rfl, calico_entity_match_refines U _ h _⟩

/-- Refined matches of the same rules. -/
def EntriesRefine (entries entries' : List (CalicoRule × Option Bool)) : Prop :=
  List.Forall₂ (fun e e' => e'.1 = e.1 ∧ Refines e.2 e'.2) entries entries'

variable {entries : List (CalicoRule × Option Bool)} {question : CalicoRule × Option Bool → Bool}
  {direction : Direction}

theorem match_rules_refines {f g : CalicoRule → Except String (Option Bool)}
    (hfg : ∀ rule m, f rule = .ok m → ∃ m', g rule = .ok m' ∧ Refines m m')
    {rules : List CalicoRule} (h : matchRules f rules = .ok entries) :
    ∃ entries', matchRules g rules = .ok entries' ∧ EntriesRefine entries entries' := by
  simp only [match_rules_ok_iff] at h ⊢
  induction h with
  | nil => exact ⟨[], .nil, .nil⟩
  | cons hentry _ ih =>
    obtain ⟨entries', hg, hrefines⟩ := ih
    obtain ⟨hrule, hmatch⟩ := hentry
    obtain ⟨m', hg', hm'⟩ := hfg _ _ hmatch
    exact ⟨(_, m') :: entries', .cons ⟨rfl, hg'⟩ hg, .cons ⟨hrule.symm, hm'⟩ hrefines⟩

theorem any_of_refines
    (hq : ∀ rule m m', Refines m m' → question (rule, m) = true → question (rule, m') = true)
    {entries' : List (CalicoRule × Option Bool)} (h : EntriesRefine entries entries')
    (hany : entries.any question = true) : entries'.any question = true := by
  induction h with
  | nil => cases hany
  | cons hentry _ ih =>
    obtain ⟨hrule, hm⟩ := hentry
    rw [any_cons, Bool.or_eq_true] at hany ⊢
    refine hany.imp (fun hhead => ?_) ih
    have hhead' := hq _ _ _ hm hhead
    rwa [← hrule] at hhead'

theorem not_any_of_refines
    (hq : ∀ rule m m', Refines m m' → question (rule, m) = false → question (rule, m') = false)
    {entries' : List (CalicoRule × Option Bool)} (h : EntriesRefine entries entries')
    (hany : entries.any question = false) : entries'.any question = false := by
  induction h with
  | nil => rfl
  | cons hentry _ ih =>
    obtain ⟨hrule, hm⟩ := hentry
    rw [any_cons, Bool.or_eq_false_iff] at hany ⊢
    refine ⟨?_, ih hany.2⟩
    have hhead' := hq _ _ _ hm hany.1
    rwa [← hrule] at hhead'

theorem entries_status_stable {entries' : List (CalicoRule × Option Bool)}
    (h : EntriesRefine entries entries') (hdefinite : (entriesStatus U entries).Definite) :
    entriesStatus U entries' = entriesStatus U entries := by
  obtain hallowed | hblocked := hdefinite
  · rw [hallowed]
    obtain ⟨hhit, hveto⟩ := (entries_allowed_iff U entries).mp hallowed
    refine (entries_allowed_iff U entries').mpr ⟨any_of_refines ?_ h hhit,
      not_any_of_refines ?_ h hveto⟩
    · intro rule m m' hm hq
      simp only [allowHit, Bool.and_eq_true, beq_iff_eq] at hq ⊢
      exact ⟨hq.1, hm true hq.2⟩
    · intro rule m m' hm hq
      simp only [vetoes, Bool.and_eq_false_iff, bne_eq_false_iff_eq] at hq ⊢
      exact hq.imp_right (hm false)
  · rw [hblocked]
    obtain ⟨hhit, hunsettled⟩ := (entries_blocked_iff U entries).mp hblocked
    have hclosed : entries.any (fun e => allowHit U e || unsettles U e) = false := by
      simp only [any_eq_false, Bool.or_eq_true, not_or] at hhit hunsettled ⊢
      exact fun e he => ⟨hhit e he, hunsettled e he⟩
    have hclosed' : entries'.any (fun e => allowHit U e || unsettles U e) = false := by
      refine not_any_of_refines ?_ h hclosed
      intro rule m m' hm hq
      cases m with
      | some b =>
        rw [hm b rfl]
        exact hq
      | none =>
        cases haction : rule.recognizedAction U with
        | none => simp [unsettles, haction] at hq
        | some action =>
          cases action <;> simp_all [allowHit, unsettles]
    refine (entries_blocked_iff U entries').mpr ⟨?_, ?_⟩
    · simp only [any_eq_false, Bool.or_eq_true, not_or] at hclosed' ⊢
      exact fun e he => (hclosed' e he).1
    · simp only [any_eq_false, Bool.or_eq_true, not_or] at hclosed' ⊢
      exact fun e he => (hclosed' e he).2

theorem selects_of_refines {podLabels podLabels' : Option Labels} (h : Refines podLabels podLabels')
    {policy : CalicoPolicy} {b : Bool} (hselects : policy.selects U podLabels direction = .ok b) :
    policy.selects U podLabels' direction = .ok b := by
  simp only [CalicoPolicy.selects] at hselects ⊢
  split at hselects
  · cases hselects
  · rename_i hmodeled
    rw [if_neg hmodeled]
    cases hmatch : calicoSelectorMatches U policy.selector podLabels with
    | none => rw [hmatch] at hselects; cases hselects
    | some isMatch =>
      rw [hmatch] at hselects
      rw [calico_selector_refines U policy.selector h isMatch hmatch]
      exact hselects

theorem selection_of_refines {podLabels podLabels' : Option Labels}
    (h : Refines podLabels podLabels') {policies selecting : List CalicoPolicy}
    (hselect : selectCalicoPolicies U podLabels direction policies = .ok selecting) :
    selectCalicoPolicies U podLabels' direction policies = .ok selecting := by
  obtain ⟨hdecided, rfl⟩ := (select_calico_policies_ok_iff U).mp hselect
  refine (select_calico_policies_ok_iff U).mpr ⟨fun policy hpolicy => ?_, ?_⟩
  · obtain ⟨b, hb⟩ := hdecided policy hpolicy
    exact ⟨b, selects_of_refines U h hb⟩
  · refine filter_congr fun policy hpolicy => ?_
    obtain ⟨b, hb⟩ := hdecided policy hpolicy
    simp [CalicoPolicy.isSelected, hb, selects_of_refines U h hb]

theorem calico_policy_stable (policies : List CalicoPolicy) {podLabels podLabels' : Option Labels}
    (direction : Direction) (source : CalicoSource) {data data' : PeerData}
    (protocol : Option String) (port : Option PortRef) (hpod : Refines podLabels podLabels')
    (hdata : data'.Completes data) {result : AdapterResult CalicoRule}
    (h : evalCalicoPolicy U policies podLabels direction source data protocol port = .ok result)
    (hdefinite : result.status.Definite) :
    (evalCalicoPolicy U policies podLabels' direction source data' protocol port).map
      (·.status) = .ok result.status := by
  obtain ⟨hgap, selecting, hselect, hcases⟩ := eval_calico_policy_definite U h hdefinite
  rw [eval_calico_policy_of_entries U hgap (selection_of_refines U hpod hselect)]
  obtain ⟨hnone, hstatus⟩ | ⟨hsome, entries, hentries, hstatus⟩ := hcases
  · rw [if_pos hnone, hstatus]
  · rw [if_neg hsome]
    obtain ⟨entries', hentries', hrefines⟩ := match_rules_refines
      (fun rule m hm => calico_rule_refines U direction hdata protocol port rule hm) hentries
    rw [hentries', hstatus]
    exact congrArg Except.ok (entries_status_stable U hrefines (hstatus ▸ hdefinite))

/-- A definite verdict of either policy adapter reached without some of the peer data, or for
Calico without the labels of the pod, stands when the data is supplied. -/
theorem missing_policy_data_stable (data data' : PeerData) (podLabels podLabels' : Option Labels)
    (hdata : data'.Completes data) (hpod : Refines podLabels podLabels') :
    (∀ policies labels direction protocol port available,
      (evalK8sNetworkPolicy U policies labels direction data protocol port
          available).status.Definite →
        (evalK8sNetworkPolicy U policies labels direction data' protocol port available).status =
          (evalK8sNetworkPolicy U policies labels direction data protocol port available).status) ∧
    ∀ policies direction source protocol port result,
      evalCalicoPolicy U policies podLabels direction source data protocol port = .ok result →
        result.status.Definite →
          (evalCalicoPolicy U policies podLabels' direction source data' protocol port).map
            (·.status) = .ok result.status := by
  refine ⟨fun policies labels direction protocol port available h => ?_,
    fun policies direction source protocol port result h hdefinite => ?_⟩
  · exact k8s_network_policy_stable U policies labels direction protocol port available hdata h
  · exact calico_policy_stable U policies direction source protocol port hpod hdata h hdefinite

/-- A core policy that allows one address block except for a part of it. -/
def blockPolicy : NetworkPolicy :=
  ⟨[], none, some [⟨[⟨none, none, some ⟨some "10.0.0.0/8", ["10.9.0.0/16"]⟩⟩], []⟩], none⟩

/-- A Calico policy that allows one address block. -/
def calicoBlockPolicy : CalicoPolicy :=
  ⟨some "all()", [], some [⟨some "Allow", none, none, none,
    { CalicoEntity.empty with nets := ["10.0.0.0/8"] }, .empty, []⟩], none, none, []⟩

/-- The peer address already decides both adapters, so labels supplied later cannot change the
verdicts. -/
theorem missing_policy_data_stable_address_block :
    (evalK8sNetworkPolicy .ascii [blockPolicy] [] .ingress
        ⟨some [("app", "web")], none, some "10.1.2.3", none, none⟩ none none true).status =
      (evalK8sNetworkPolicy .ascii [blockPolicy] [] .ingress
        ⟨none, none, some "10.1.2.3", none, none⟩ none none true).status ∧
    (evalCalicoPolicy .ascii [calicoBlockPolicy] (some [("app", "db")]) .ingress
        ⟨true, some supportedCalicoVersion, true⟩
        ⟨some [("app", "web")], none, some "10.1.2.3", none, none⟩ none none).map (·.status) =
      .ok .allowed := by
  have hstable := missing_policy_data_stable .ascii ⟨none, none, some "10.1.2.3", none, none⟩
    ⟨some [("app", "web")], none, some "10.1.2.3", none, none⟩ none (some [("app", "db")])
    ⟨.of_none _, .refl _, .refl _, .refl _, .refl _⟩ (.of_none _)
  exact ⟨hstable.1 [blockPolicy] [] .ingress none none true (by decide),
    hstable.2 [calicoBlockPolicy] .ingress ⟨true, some supportedCalicoVersion, true⟩ none none
      _ rfl (.inl rfl)⟩

/-- How a run ends for a connection. -/
inductive RunOutcome where
  | allow
  | deny
  | delegate
  deriving DecidableEq

/-- A way of deciding what the adapter left open: which policies select the pod, whether each rule
matches the connection, and what its action is. -/
structure Decision where
  selects : CalicoPolicy → Bool
  isMatch : CalicoRule → Bool
  action : CalicoRule → CalicoAction

/-- The decision agrees with everything that the adapter decided. -/
structure Decision.Consistent (decision : Decision) (podLabels : Option Labels)
    (direction : Direction) (data : PeerData) (protocol : Option String)
    (port : Option PortRef) : Prop where
  selects : ∀ policy b, policy.selects U podLabels direction = .ok b →
    decision.selects policy = b
  isMatch : ∀ rule m, calicoRulePeerMatch U direction data protocol port rule = .ok m →
    Refines m (some (decision.isMatch rule))
  action : ∀ rule, Refines (rule.recognizedAction U) (some (decision.action rule))

/-- First match over the rules: `log` continues, and no match denies. -/
def firstMatchOutcome (decision : Decision) : List CalicoRule → RunOutcome
  | [] => .deny
  | rule :: rest =>
    if decision.isMatch rule then
      match decision.action rule with
      | .allow => .allow
      | .deny => .deny
      | .pass => .delegate
      | .log => firstMatchOutcome decision rest
    else firstMatchOutcome decision rest

/-- The outcome of a run over policies in an order. A pod that no policy selects is open. -/
def runOutcome (decision : Decision) (direction : Direction) (order : List CalicoPolicy) :
    RunOutcome :=
  if order.isEmpty then .allow
  else firstMatchOutcome decision (governingRules direction order)

/-- An order of the policies that their declared order values admit: a policy with a greater value
does not come before one with a smaller value. -/
structure IsRun (selecting order : List CalicoPolicy) : Prop where
  perm : order.Perm selecting
  compatible : order.Pairwise fun p q =>
    ∀ a b, p.order = some a → q.order = some b → a ≤ b

variable {rules : List CalicoRule}

variable {decision : Decision} {matchRule : CalicoRule → Except String (Option Bool)}

theorem first_match_allow (hhit : ∃ rule ∈ rules, decision.isMatch rule = true)
    (hall : ∀ rule ∈ rules, decision.isMatch rule = true → decision.action rule = .allow) :
    firstMatchOutcome decision rules = .allow := by
  induction rules with
  | nil => simp at hhit
  | cons rule rest ih =>
    simp only [firstMatchOutcome]
    cases hmatch : decision.isMatch rule with
    | true => simp [hall rule mem_cons_self hmatch]
    | false =>
      obtain ⟨hit, hmem, hmatch'⟩ := hhit
      have hrest : hit ∈ rest := by
        obtain rfl | hrest := mem_cons.mp hmem
        · rw [hmatch] at hmatch'
          cases hmatch'
        · exact hrest
      simpa using ih ⟨hit, hrest, hmatch'⟩ fun r hr => hall r (mem_cons_of_mem _ hr)

theorem first_match_deny (hall : ∀ rule ∈ rules, decision.isMatch rule = true →
      decision.action rule = .deny ∨ decision.action rule = .log) :
    firstMatchOutcome decision rules = .deny := by
  induction rules with
  | nil => rfl
  | cons rule rest ih =>
    have hrest := ih fun r hr => hall r (mem_cons_of_mem _ hr)
    simp only [firstMatchOutcome]
    cases hmatch : decision.isMatch rule with
    | true =>
      obtain haction | haction := hall rule mem_cons_self hmatch <;> simp [haction, hrest]
    | false => simpa using hrest

theorem governing_rules_perm (direction : Direction) {order selecting : List CalicoPolicy}
    (h : order.Perm selecting) :
    (governingRules direction order).Perm (governingRules direction selecting) :=
  h.flatMap_right _

theorem entry_of_rule (h : matchRules matchRule rules = .ok entries) {rule : CalicoRule}
    (hrule : rule ∈ rules) :
    ∃ m, (rule, m) ∈ entries ∧ matchRule rule = .ok m := by
  have hall := match_rules_ok_iff.mp h
  induction hall with
  | nil => cases hrule
  | cons hentry hrest ih =>
    obtain rfl | hmem := mem_cons.mp hrule
    · exact ⟨_, mem_cons.mpr (.inl (Prod.ext hentry.1.symm rfl)), hentry.2⟩
    · obtain ⟨m, hm, hmatch⟩ := ih (match_rules_ok_iff.mpr hrest) hmem
      exact ⟨m, mem_cons_of_mem _ hm, hmatch⟩

theorem rule_of_entry (h : matchRules matchRule rules = .ok entries)
    {entry : CalicoRule × Option Bool}
    (hentry : entry ∈ entries) : entry.1 ∈ rules ∧ matchRule entry.1 = .ok entry.2 := by
  have hall := match_rules_ok_iff.mp h
  induction hall with
  | nil => cases hentry
  | cons hhead hrest ih =>
    obtain rfl | hmem := mem_cons.mp hentry
    · exact ⟨mem_cons.mpr (.inl hhead.1), hhead.1 ▸ hhead.2⟩
    · obtain ⟨hrule, hmatch⟩ := ih (match_rules_ok_iff.mpr hrest) hmem
      exact ⟨mem_cons_of_mem _ hrule, hmatch⟩

section Runs

variable {podLabels : Option Labels} {data : PeerData} {protocol : Option String}
  {port : Option PortRef} {selecting order : List CalicoPolicy}

theorem run_allows (hdecision : decision.Consistent U podLabels direction data protocol port)
    (hrun : IsRun selecting order)
    (hentries : matchRules (calicoRulePeerMatch U direction data protocol port)
      (governingRules direction selecting) = .ok entries)
    (hallowed : entriesStatus U entries = .allowed) :
    firstMatchOutcome decision (governingRules direction order) = .allow := by
  obtain ⟨hhit, hveto⟩ := (entries_allowed_iff U entries).mp hallowed
  have hperm := governing_rules_perm direction hrun.perm
  refine first_match_allow ?_ fun rule hrule hmatch => ?_
  · obtain ⟨entry, hentry, hhit⟩ := any_eq_true.mp hhit
    obtain ⟨hrule, hm⟩ := rule_of_entry hentries hentry
    simp only [allowHit, Bool.and_eq_true, beq_iff_eq] at hhit
    have hmatch := hdecision.isMatch _ _ hm true hhit.2
    exact ⟨entry.1, hperm.mem_iff.mpr hrule, Option.some.inj hmatch⟩
  · obtain ⟨m, hentry, hm⟩ := entry_of_rule hentries (hperm.mem_iff.mp hrule)
    have hno := any_eq_false.mp hveto _ hentry
    simp only [vetoes, Bool.and_eq_true, bne_iff_ne, ne_eq, not_and, not_not] at hno
    by_contra hother
    have hfalse : m = some false := hno fun haction =>
      hother (Option.some.inj (hdecision.action rule .allow haction))
    have hdecided := hdecision.isMatch rule m hm false hfalse
    simp [hmatch] at hdecided

theorem run_denies (hdecision : decision.Consistent U podLabels direction data protocol port)
    (hrun : IsRun selecting order)
    (hentries : matchRules (calicoRulePeerMatch U direction data protocol port)
      (governingRules direction selecting) = .ok entries)
    (hblocked : entriesStatus U entries = .blocked) :
    firstMatchOutcome decision (governingRules direction order) = .deny := by
  obtain ⟨hhit, hunsettled⟩ := (entries_blocked_iff U entries).mp hblocked
  have hperm := governing_rules_perm direction hrun.perm
  refine first_match_deny fun rule hrule hmatch => ?_
  obtain ⟨m, hentry, hm⟩ := entry_of_rule hentries (hperm.mem_iff.mp hrule)
  have hno := any_eq_false.mp hunsettled _ hentry
  have hnohit := any_eq_false.mp hhit _ hentry
  have hfalse : m ≠ some false := by
    intro hfalse
    have hdecided := hdecision.isMatch rule m hm false hfalse
    simp [hmatch] at hdecided
  cases haction : rule.recognizedAction U with
  | none => simp [unsettles, haction, hfalse] at hno
  | some action =>
    have hdecided := Option.some.inj (hdecision.action rule action haction)
    cases action with
    | deny => exact .inl hdecided
    | log => exact .inr hdecided
    | pass => simp [unsettles, haction, hfalse] at hno
    | allow =>
      rcases m with _ | _ | _
      · simp [unsettles, haction] at hno
      · exact absurd rfl hfalse
      · simp [allowHit, haction] at hnohit

end Runs

theorem entries_status_perm {entries entries' : List (CalicoRule × Option Bool)}
    (h : entries.Perm entries') : entriesStatus U entries = entriesStatus U entries' := by
  simp only [entriesStatus, h.any_eq]

theorem match_rules_perm {matchRule : CalicoRule → Except String (Option Bool)}
    {rules' : List CalicoRule} (h : rules.Perm rules') :
    ((matchRules matchRule rules).map (entriesStatus U)).toOption =
      ((matchRules matchRule rules').map (entriesStatus U)).toOption := by
  have hone : ∀ {l l' : List CalicoRule}, l.Perm l' → ∀ entries,
      matchRules matchRule l = .ok entries →
        ∃ entries', matchRules matchRule l' = .ok entries' ∧ entries'.Perm entries := by
    intro l l' hl entries hentries
    obtain ⟨entries', hentries', hperm⟩ :=
      perm_comp_forall₂ hl.symm (match_rules_ok_iff.mp hentries)
    exact ⟨entries', match_rules_ok_iff.mpr hentries', hperm⟩
  cases hrules : matchRules matchRule rules with
  | ok entries =>
    obtain ⟨entries', hentries', hperm⟩ := hone h entries hrules
    rw [hentries']
    exact congrArg some (entries_status_perm U hperm.symm)
  | error message =>
    cases hrules' : matchRules matchRule rules' with
    | ok entries' =>
      obtain ⟨entries, hentries, -⟩ := hone h.symm entries' hrules'
      rw [hrules] at hentries
      cases hentries
    | error message' => rfl

/-- The status that the adapter returns, or nothing when it raises. -/
def calicoStatus (policies : List CalicoPolicy) (podLabels : Option Labels)
    (direction : Direction) (source : CalicoSource) (data : PeerData)
    (protocol : Option String) (port : Option PortRef) : Option LayerStatus :=
  ((evalCalicoPolicy U policies podLabels direction source data protocol port).map
    (·.status)).toOption

theorem select_calico_policies_perm {podLabels : Option Labels} {direction : Direction}
    {policies policies' selecting : List CalicoPolicy} (h : policies.Perm policies')
    (hselect : selectCalicoPolicies U podLabels direction policies = .ok selecting) :
    ∃ selecting', selectCalicoPolicies U podLabels direction policies' = .ok selecting' ∧
      selecting.Perm selecting' := by
  obtain ⟨hdecided, rfl⟩ := (select_calico_policies_ok_iff U).mp hselect
  exact ⟨_, (select_calico_policies_ok_iff U).mpr
    ⟨fun policy hpolicy => hdecided policy (h.mem_iff.mpr hpolicy), rfl⟩, h.filter _⟩

theorem calico_status_perm {policies policies' : List CalicoPolicy}
    (h : policies.Perm policies') (podLabels : Option Labels) (direction : Direction)
    (source : CalicoSource) (data : PeerData) (protocol : Option String)
    (port : Option PortRef) :
    calicoStatus U policies podLabels direction source data protocol port =
      calicoStatus U policies' podLabels direction source data protocol port := by
  simp only [calicoStatus]
  cases hgap : source.gap "k8s-calico" with
  | some early => simp only [evalCalicoPolicy, hgap]
  | none =>
    cases hselect : selectCalicoPolicies U podLabels direction policies with
    | ok selecting =>
      obtain ⟨selecting', hselect', hperm⟩ := select_calico_policies_perm U h hselect
      rw [eval_calico_policy_of_entries U hgap hselect,
        eval_calico_policy_of_entries U hgap hselect']
      by_cases hnone : selecting = []
      · subst hnone
        rw [if_pos rfl, if_pos (nil_perm.mp hperm)]
      · have hnone' : selecting' ≠ [] := fun hnil => hnone (perm_nil.mp (hnil ▸ hperm))
        rw [if_neg hnone, if_neg hnone']
        exact match_rules_perm U (governing_rules_perm direction hperm)
    | error gap =>
      cases hselect' : selectCalicoPolicies U podLabels direction policies' with
      | ok selecting' =>
        obtain ⟨selecting, hselect, -⟩ := select_calico_policies_perm U h.symm hselect'
        simp_all
      | error gap' =>
        simp only [evalCalicoPolicy, hgap, hselect, hselect']
        cases gap <;> cases gap' <;> rfl

/-- What a Calico verdict says about the cluster. When the adapter answers `allowed`, every run of
the policies that select the pod allows the connection; when it answers `blocked`, every run
denies it; whatever the order among the orders that the policies declare, and however what the
adapter left open turns out. The answer does not depend on the order of the given policies. -/
theorem calico_verdict_sound (policies : List CalicoPolicy) (podLabels : Option Labels)
    (direction : Direction) (source : CalicoSource) (data : PeerData)
    (protocol : Option String) (port : Option PortRef) :
    (∀ decision : Decision, decision.Consistent U podLabels direction data protocol port →
      ∀ order, IsRun (policies.filter decision.selects) order →
        (calicoStatus U policies podLabels direction source data protocol port = some .allowed →
          runOutcome decision direction order = .allow) ∧
        (calicoStatus U policies podLabels direction source data protocol port = some .blocked →
          runOutcome decision direction order = .deny)) ∧
    ∀ policies', policies.Perm policies' →
      calicoStatus U policies podLabels direction source data protocol port =
        calicoStatus U policies' podLabels direction source data protocol port := by
  refine ⟨fun decision hdecision order hrun => ?_, fun policies' hperm =>
    calico_status_perm U hperm podLabels direction source data protocol port⟩
  have hcases : ∀ status : LayerStatus, status.Definite →
      calicoStatus U policies podLabels direction source data protocol port = some status →
        (order = [] ∧ status = .allowed) ∨ (order ≠ [] ∧ ∃ entries,
          matchRules (calicoRulePeerMatch U direction data protocol port)
            (governingRules direction (policies.filter decision.selects)) = .ok entries ∧
          entriesStatus U entries = status) := by
    intro status hdefinite hstatus
    simp only [calicoStatus] at hstatus
    cases heval : evalCalicoPolicy U policies podLabels direction source data protocol port with
    | error message => rw [heval] at hstatus; cases hstatus
    | ok result =>
      rw [heval] at hstatus
      cases hstatus
      obtain ⟨-, selecting, hselect, hresult⟩ := eval_calico_policy_definite U heval hdefinite
      obtain ⟨hdecided, rfl⟩ := (select_calico_policies_ok_iff U).mp hselect
      have hselects : policies.filter (·.isSelected U podLabels direction) =
          policies.filter decision.selects := by
        refine filter_congr fun policy hpolicy => ?_
        obtain ⟨b, hb⟩ := hdecided policy hpolicy
        simp [CalicoPolicy.isSelected, hb, hdecision.selects policy b hb]
      rw [hselects] at hresult
      obtain ⟨hnone, hstatus⟩ | ⟨hsome, entries, hentries, hstatus⟩ := hresult
      · exact .inl ⟨perm_nil.mp (hnone ▸ hrun.perm), hstatus⟩
      · exact .inr ⟨fun hnil => hsome (nil_perm.mp (hnil ▸ hrun.perm)), entries, hentries,
          hstatus.symm⟩
  constructor
  · intro hallowed
    obtain ⟨rfl, -⟩ | ⟨hsome, entries, hentries, hstatus⟩ := hcases .allowed (.inl rfl) hallowed
    · rfl
    · rw [runOutcome, if_neg (by simpa using hsome)]
      exact run_allows U hdecision hrun hentries hstatus
  · intro hblocked
    obtain ⟨-, hstatus⟩ | ⟨hsome, entries, hentries, hstatus⟩ :=
      hcases .blocked (.inr rfl) hblocked
    · cases hstatus
    · rw [runOutcome, if_neg (by simpa using hsome)]
      exact run_denies U hdecision hrun hentries hstatus

end AwsOps.NetworkPath
