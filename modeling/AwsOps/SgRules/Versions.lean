import AwsOps.SgRules.Store

/-!
# The rule inventory and its versions

A scan records its snapshot rule by rule: the inventory row, and a new version when the
fingerprint is not that of the open one; then it deactivates and closes what the snapshot no
longer holds. Every statement commits on its own. `VersionsValid` is what each statement keeps,
and `upsert_spec` is the judgement about a whole call, from which `version_store_valid` follows
for every sequence of calls, cut short or not.
-/

namespace AwsOps.SgRules

open List AwsOps.Timeline AwsOps.Session

/-- The hash of the fields that define the shape of a rule. -/
def ruleFingerprint (sha256 : String → String) (rule : RuleSnapshot) : String :=
  let port (p : Option Int) : Json := (p.map Json.int).getD .null
  sha256 (String.ofList (Json.dumpsWith [','] [':'] (.obj [
    ("from_port", port rule.fromPort), ("group_id", .str rule.groupId),
    ("is_egress", .bool rule.isEgress),
    ("peer_kind", (rule.peerKind.map Json.str).getD .null),
    ("peer_value", .str rule.peerValue), ("protocol", .str rule.protocol),
    ("to_port", port rule.toPort)])))

/-- The error of a null value in a column that has none. -/
def notNullError (column : String) : String :=
  "null value in column " ++ column ++ " violates not-null constraint"

/-- `INSERT INTO sg_rule_inventory … ON CONFLICT DO UPDATE`: a known rule keeps when it was first
seen, and its VPC unless this scan resolved one. -/
def upsertInventoryRow (rule : RuleSnapshot) (fingerprint : String) (vpcId : Option String)
    (now : Int) (s : Store) : Except String Store :=
  if rule.peerKind.isNone then .error (notNullError "peer_kind")
  else
    let row : InventoryRow :=
      match s.inventory rule.ruleId with
      | none => ⟨rule, fingerprint, now, now, true, vpcId⟩
      | some old => ⟨rule, fingerprint, old.firstSeenAt, now, true, vpcId.or old.vpcId⟩
    .ok { s with inventory := fun ruleId =>
      if ruleId = rule.ruleId then some row else s.inventory ruleId }

/-- `SELECT fingerprint … WHERE rule_id=:rid AND valid_to IS NULL`. -/
def openFingerprints (ruleId : String) (s : Store) : List String :=
  (s.versions.filter fun v => v.closed.isNone && v.key == ruleId).map (·.value.fingerprint)

/-- `INSERT INTO sg_rule_inventory_versions`, under the primary key of rule and `valid_from`. -/
def insertVersion (rule : RuleSnapshot) (fingerprint : String) (now : Int) (s : Store) :
    Except String Store :=
  match rule.peerKind with
  | none => .error (notNullError "peer_kind")
  | some peerKind =>
    if s.versions.any fun v => v.key == rule.ruleId && v.opened == now then
      .error "duplicate key value violates unique constraint"
    else
      .ok { s with
        versions := openEpoch rule.ruleId now
          ⟨fingerprint, rule.groupId, rule.isEgress, rule.protocol, rule.fromPort, rule.toPort,
            peerKind, rule.peerValue⟩ s.versions
        sightings := s.sightings ++ [.saw now rule.ruleId fingerprint] }

/-- `UPDATE sg_rule_inventory_versions SET valid_to=:now` for the open version of one rule, which
a scan issues when it saw the rule with another fingerprint. -/
def closeVersion (ruleId fingerprint : String) (now : Int) (s : Store) :
    Except String Store :=
  .ok { s with
    versions := closeWhere (· == ruleId) now s.versions
    sightings := s.sightings ++ [.saw now ruleId fingerprint] }

/-- The scan saw the rule as its open version has it, and writes nothing. -/
def confirmVersion (ruleId fingerprint : String) (now : Int) (s : Store) : Store :=
  { s with sightings := s.sightings ++ [.saw now ruleId fingerprint] }

def upsertRule (sha256 : String → String) (now : Int)
    (groupVpcMap : List (String × String)) (rule : RuleSnapshot) : Session Store Unit := do
  let fingerprint := ruleFingerprint sha256 rule
  exec (upsertInventoryRow rule fingerprint (groupVpcMap.lookup rule.groupId) now)
  let openRows ← query (openFingerprints rule.ruleId)
  match openRows with
  | [] => exec (insertVersion rule fingerprint now)
  | current :: _ =>
    if current ≠ fingerprint then do
      exec (closeVersion rule.ruleId fingerprint now)
      exec (insertVersion rule fingerprint now)
    else note (confirmVersion rule.ruleId fingerprint now)

/-- `UPDATE sg_rule_inventory SET active=false WHERE rule_id <> ALL(:seen)`. -/
def deactivateUnseen (seen : List String) (s : Store) : Except String Store :=
  .ok { s with inventory := fun ruleId =>
    if ruleId ∈ seen then s.inventory ruleId
    else (s.inventory ruleId).map fun row => { row with active := false } }

/-- `UPDATE sg_rule_inventory_versions SET valid_to=:now WHERE rule_id <> ALL(:seen)` for the open
versions, the last statement of a scan's recording. -/
def closeUnseen (seen : List String) (now : Int) (s : Store) : Except String Store :=
  .ok { s with
    versions := closeWhere (fun ruleId => decide (ruleId ∉ seen)) now s.versions
    sightings := s.sightings ++ [.missed now seen] }

def upsertInventoryAndVersions (sha256 : String → String) (rules : List RuleSnapshot)
    (now : Int) (groupVpcMap : List (String × String)) : Session Store Unit := do
  let _ ← forEach (upsertRule sha256 now groupVpcMap) rules
  exec (deactivateUnseen (rules.map (·.ruleId)))
  exec (closeUnseen (rules.map (·.ruleId)) now)

/-- What one statement of a recording at `now` does to the store, apart from what it saw. -/
inductive RecordingStep (now : Int) (s : Store) : Store → Prop where
  | inventory (inventory : String → Option InventoryRow) :
      RecordingStep now s { s with inventory := inventory }
  | confirmed (sighting : Sighting) :
      RecordingStep now s { s with sightings := s.sightings ++ [sighting] }
  | opened (ruleId : String) (shape : VersionShape) (sighting : Sighting) :
      RecordingStep now s { s with
        versions := openEpoch ruleId now shape s.versions
        sightings := s.sightings ++ [sighting] }
  | closed (selected : String → Bool) (sighting : Sighting) :
      RecordingStep now s { s with
        versions := closeWhere selected now s.versions
        sightings := s.sightings ++ [sighting] }

section Steps

variable {now : Int} {s s' : Store}

variable {rule : RuleSnapshot} {fingerprint : String} {I : Store → Prop}

theorem RecordingStep.of_upsert {vpcId : Option String}
    (h : upsertInventoryRow rule fingerprint vpcId now s = .ok s') :
    RecordingStep now s s' := by
  unfold upsertInventoryRow at h
  split at h
  · cases h
  · cases h
    exact .inventory _

theorem RecordingStep.of_insert
    (h : insertVersion rule fingerprint now s = .ok s') : RecordingStep now s s' := by
  unfold insertVersion at h
  split at h
  · cases h
  · split at h
    · cases h
    · cases h
      exact .opened _ _ _

theorem upsert_rule_keeps (hstep : ∀ s s', RecordingStep now s s' → I s → I s')
    (sha256 : String → String) (groupVpcMap : List (String × String)) (rule : RuleSnapshot) :
    Triple I (upsertRule sha256 now groupVpcMap rule) (fun _ => I) I := by
  have hrow : Triple I (exec (upsertInventoryRow rule (ruleFingerprint sha256 rule)
      (groupVpcMap.lookup rule.groupId) now)) (fun _ => I) I :=
    .exec (fun s s' h hok => hstep s s' (.of_upsert hok) h) fun _ h => h
  have hrows : Triple I (query (openFingerprints rule.ruleId)) (fun _ => I) I :=
    .query (fun _ h => h) fun _ h => h
  refine hrow.bind fun _ => hrows.bind fun rows => ?_
  have hinsert : Triple I (exec (insertVersion rule (ruleFingerprint sha256 rule) now))
      (fun _ => I) I :=
    .exec (fun s s' h hok => hstep s s' (.of_insert hok) h) fun _ h => h
  cases rows with
  | nil => exact hinsert
  | cons current rest =>
    dsimp only
    split
    · refine .bind (.exec (fun s s' h hok => ?_) fun _ h => h) fun _ => hinsert
      cases hok
      exact hstep s _ (.closed _ _) h
    · exact .note fun s h => hstep s _ (.confirmed _) h

theorem upsert_keeps (hstep : ∀ s s', RecordingStep now s s' → I s → I s')
    (sha256 : String → String) (rules : List RuleSnapshot) (groupVpcMap : List (String × String)) :
    Triple I (upsertInventoryAndVersions sha256 rules now groupVpcMap) (fun _ => I) I := by
  have hloop : Triple I (forEach (upsertRule sha256 now groupVpcMap) rules) (fun _ => I) I :=
    .forEach (fun _ _ => I) fun _ rule _ _ _ => upsert_rule_keeps hstep sha256 groupVpcMap rule
  refine hloop.bind fun _ => .bind (.exec (fun s s' h hok => ?_) fun _ h => h) fun _ =>
    .exec (fun s s' h hok => ?_) fun _ h => h
  · cases hok
    exact hstep s _ (.inventory _) h
  · cases hok
    exact hstep s _ (.closed _ _) h

end Steps

/-- What every statement of a scan at `now` keeps: the versions of each rule follow one another,
nothing is later than the scan, and a version was seen when it opened and at every instant that it
covers and at which a scan found out about its rule. -/
structure VersionsValid (now : Int) (versions : List VersionRow) (log : List Sighting) : Prop where
  ordered : Ordered versions
  upTo : UpTo now versions
  seenBy : ∀ sighting ∈ log, sighting.instant ≤ now
  opened : ∀ v ∈ versions, Saw log v.opened v.key v.value.fingerprint
  faithful : ∀ v ∈ versions, ∀ instant, v.covers instant = true → Observed log instant v.key →
    Saw log instant v.key v.value.fingerprint

namespace VersionsValid

variable {now : Int} {versions : List VersionRow} {log : List Sighting}
  {ruleId fingerprint : String}

theorem nil (now : Int) : VersionsValid now [] [] :=
  ⟨.nil, fun _ h => (not_mem_nil h).elim, fun _ h => (not_mem_nil h).elim,
    fun _ h => (not_mem_nil h).elim, fun _ h => (not_mem_nil h).elim⟩

theorem mono {later : Int} (h : VersionsValid now versions log) (hle : now ≤ later) :
    VersionsValid later versions log :=
  ⟨h.ordered, h.upTo.mono hle, fun x hx => (h.seenBy x hx).trans hle, h.opened, h.faithful⟩

theorem open_of_covers_now (h : VersionsValid now versions log) {v : VersionRow}
    (hv : v ∈ versions) (hcovers : v.covers now = true) : v.closed = none := by
  by_contra hclosed
  rw [h.upTo.not_covers_now hv hclosed] at hcovers
  cases hcovers

theorem confirm (h : VersionsValid now versions log) {current : VersionRow}
    (hcurrent : current ∈ versions) (hkey : current.key = ruleId) (hopen : current.closed = none)
    (hfp : current.value.fingerprint = fingerprint) :
    VersionsValid now versions (log ++ [.saw now ruleId fingerprint]) := by
  refine ⟨h.ordered, h.upTo, fun x hx => ?_, fun v hv => (h.opened v hv).append _,
    fun v hv instant hcovers hobserved => ?_⟩
  · obtain hx | hx := mem_append.mp hx
    · exact h.seenBy x hx
    · obtain rfl := mem_singleton.mp hx
      exact le_refl _
  · obtain hobserved | ⟨rfl, hvkey⟩ := observed_append_saw.mp hobserved
    · exact (h.faithful v hv instant hcovers hobserved).append _
    · have hvopen := h.open_of_covers_now hv hcovers
      have hsame := h.ordered.open_unique hv hcurrent (hvkey.trans hkey.symm) hvopen hopen
      rw [hsame, hkey, hfp]
      exact mem_append_right _ (mem_singleton.mpr rfl)

theorem closes (h : VersionsValid now versions log) {shut : String → Bool} {sighting : Sighting}
    (hinstant : sighting.instant ≤ now)
    (hnew : ∀ {instant key}, Observed (log ++ [sighting]) instant key →
      Observed log instant key ∨ (instant = now ∧ shut key = true)) :
    VersionsValid now (closeWhere shut now versions) (log ++ [sighting]) := by
  refine ⟨h.ordered.close_where h.upTo, h.upTo.close_where, fun x hx => ?_, fun v hv => ?_,
    fun v hv instant hcovers hobserved => ?_⟩
  · obtain hx | hx := mem_append.mp hx
    · exact h.seenBy x hx
    · obtain rfl := mem_singleton.mp hx
      exact hinstant
  · obtain ⟨before, hbefore, hkey, hopened, hvalue, -⟩ := before_close_where hv
    rw [← hkey, ← hopened, ← hvalue]
    exact (h.opened before hbefore).append _
  · obtain ⟨before, hbefore, hkey, -, hvalue, hwider⟩ := before_close_where hv
    obtain hobserved | ⟨rfl, hshut⟩ := hnew hobserved
    · rw [← hkey] at hobserved ⊢
      rw [← hvalue]
      exact (h.faithful before hbefore instant (hwider instant hcovers) hobserved).append _
    · obtain ⟨closed, hclosed⟩ := closed_of_mem_close_where hv hshut
      rw [h.upTo.close_where.not_covers_now hv (by simp [hclosed])] at hcovers
      cases hcovers

theorem close (h : VersionsValid now versions log) :
    VersionsValid now (closeWhere (· == ruleId) now versions)
      (log ++ [.saw now ruleId fingerprint]) :=
  h.closes (le_refl now) fun hobserved =>
    (observed_append_saw.mp hobserved).imp_right fun hsaw => ⟨hsaw.1, by simpa using hsaw.2⟩

theorem insert (h : VersionsValid now versions log)
    (hclosed : ∀ v ∈ versions, v.key = ruleId → v.closed ≠ none)
    (hfresh : ∀ v ∈ versions, v.key = ruleId → v.opened ≠ now) {shape : VersionShape}
    (hfp : shape.fingerprint = fingerprint) :
    VersionsValid now (openEpoch ruleId now shape versions)
      (log ++ [.saw now ruleId fingerprint]) := by
  have hlast : Saw (log ++ [.saw now ruleId fingerprint]) now ruleId shape.fingerprint := by
    rw [hfp]
    exact mem_append_right _ (mem_singleton.mpr rfl)
  refine ⟨h.ordered.open_epoch h.upTo hclosed hfresh, h.upTo.open_epoch, fun x hx => ?_,
    fun v hv => ?_, fun v hv instant hcovers hobserved => ?_⟩
  · obtain hx | hx := mem_append.mp hx
    · exact h.seenBy x hx
    · obtain rfl := mem_singleton.mp hx
      exact le_refl _
  · obtain hv | rfl := mem_open_epoch.mp hv
    · exact (h.opened v hv).append _
    · exact hlast
  · obtain hv | rfl := mem_open_epoch.mp hv
    · obtain hobserved | ⟨hnow, hvkey⟩ := observed_append_saw.mp hobserved
      · exact (h.faithful v hv instant hcovers hobserved).append _
      · rw [hnow] at hcovers
        exact absurd (h.open_of_covers_now hv hcovers) (hclosed v hv hvkey)
    · -- an instant that the new version covers and that was observed is the scan itself
      have hinstant : instant = now := by
        refine le_antisymm ?_ (covers_iff.mp hcovers).1
        obtain (⟨fp, hsaw⟩ | ⟨seen, hmissed, -⟩) | ⟨rfl, -⟩ := observed_append_saw.mp hobserved
        · exact h.seenBy _ hsaw
        · exact h.seenBy _ hmissed
        · exact le_refl _
      rw [hinstant]
      exact hlast

/-- Closing what the snapshot does not hold. -/
theorem sweep (h : VersionsValid now versions log) (seen : List String) :
    VersionsValid now (closeWhere (fun ruleId => decide (ruleId ∉ seen)) now versions)
      (log ++ [.missed now seen]) :=
  h.closes (le_refl now) fun hobserved =>
    (observed_append_missed.mp hobserved).imp_right fun hmissed =>
      ⟨hmissed.1, by simpa using hmissed.2⟩

end VersionsValid

/-- The inventory row and the open version of a rule that is in force agree. -/
def Agrees (s : Store) (ruleId : String) : Prop :=
  ∃ row v, s.inventory ruleId = some row ∧ row.active = true ∧ v ∈ s.versions ∧ v.key = ruleId ∧
    v.closed = none ∧ v.value.fingerprint = row.fingerprint

/-- A scan at `now` has recorded some of the rules of its snapshot. -/
structure Recorded (now : Int) (done : List RuleSnapshot) (s : Store) : Prop where
  valid : VersionsValid now s.versions s.sightings
  agrees : ∀ rule ∈ done, Agrees s rule.ruleId
  saw : ∀ rule ∈ done, ∃ fingerprint, Saw s.sightings now rule.ruleId fingerprint

/-- A scan at `now` is recording a rule: its inventory row is up to date. -/
structure Recording (now : Int) (done : List RuleSnapshot) (ruleId fingerprint : String)
    (s : Store) : Prop where
  valid : VersionsValid now s.versions s.sightings
  others : ∀ rule ∈ done, rule.ruleId ≠ ruleId → Agrees s rule.ruleId
  saw : ∀ rule ∈ done, ∃ fingerprint, Saw s.sightings now rule.ruleId fingerprint
  row : ∃ row, s.inventory ruleId = some row ∧ row.active = true ∧ row.fingerprint = fingerprint

section Recording

variable {now : Int} {done : List RuleSnapshot} {rule : RuleSnapshot} {fingerprint : String}
  {s s' : Store}

theorem Agrees.frame {ruleId : String} (h : Agrees s ruleId)
    (hrow : s'.inventory ruleId = s.inventory ruleId)
    (hversions : ∀ v ∈ s.versions, v.key = ruleId → v.closed = none → v ∈ s'.versions) :
    Agrees s' ruleId := by
  obtain ⟨row, v, hinventory, hactive, hv, hkey, hopen, hfp⟩ := h
  exact ⟨row, v, hrow.trans hinventory, hactive, hversions v hv hkey hopen, hkey, hopen, hfp⟩

theorem Recorded.upsert_inventory_row (h : Recorded now done s) {vpcId : Option String}
    (hrow : upsertInventoryRow rule fingerprint vpcId now s = .ok s') :
    Recording now done rule.ruleId fingerprint s' := by
  simp only [upsertInventoryRow] at hrow
  split at hrow
  · cases hrow
  · cases hrow
    refine ⟨h.valid, fun other hother hne => ?_, h.saw, ?_⟩
    · exact (h.agrees other hother).frame (if_neg hne) fun v hv _ _ => hv
    · cases s.inventory rule.ruleId with
      | none => exact ⟨_, if_pos rfl, rfl, rfl⟩
      | some old => exact ⟨_, if_pos rfl, rfl, rfl⟩

theorem Recording.finish (h : Recording now done rule.ruleId fingerprint s)
    (hversion : ∃ v ∈ s.versions, v.key = rule.ruleId ∧ v.closed = none ∧
      v.value.fingerprint = fingerprint)
    (hsaw : Saw s.sightings now rule.ruleId fingerprint) : Recorded now (done ++ [rule]) s := by
  have hagrees : Agrees s rule.ruleId := by
    obtain ⟨row, hinventory, hactive, hrow⟩ := h.row
    obtain ⟨v, hv, hkey, hopen, hfp⟩ := hversion
    exact ⟨row, v, hinventory, hactive, hv, hkey, hopen, hfp.trans hrow.symm⟩
  refine ⟨h.valid, fun other hother => ?_, fun other hother => ?_⟩
  · by_cases hsame : other.ruleId = rule.ruleId
    · rw [hsame]
      exact hagrees
    · obtain hother | hother := mem_append.mp hother
      · exact h.others other hother hsame
      · exact absurd (congrArg RuleSnapshot.ruleId (mem_singleton.mp hother)) hsame
  · obtain hother | hother := mem_append.mp hother
    · exact h.saw other hother
    · rw [mem_singleton.mp hother]
      exact ⟨fingerprint, hsaw⟩

theorem Recording.confirm (h : Recording now done rule.ruleId fingerprint s)
    {rest : List String} (hopen : openFingerprints rule.ruleId s = fingerprint :: rest) :
    Recorded now (done ++ [rule]) (confirmVersion rule.ruleId fingerprint now s) := by
  have hmem : fingerprint ∈ openFingerprints rule.ruleId s := hopen ▸ mem_cons_self
  simp only [openFingerprints, mem_map, mem_filter, Bool.and_eq_true,
    Option.isNone_iff_eq_none, beq_iff_eq] at hmem
  obtain ⟨v, ⟨hv, hclosed, hkey⟩, hfp⟩ := hmem
  have hrecording :
      Recording now done rule.ruleId fingerprint (confirmVersion rule.ruleId fingerprint now s) :=
    ⟨h.valid.confirm hv hkey hclosed hfp, h.others,
      fun other hother => (h.saw other hother).imp fun _ hsaw => hsaw.append _, h.row⟩
  exact hrecording.finish ⟨v, hv, hkey, hclosed, hfp⟩
    (mem_append_right _ (mem_singleton.mpr rfl))

theorem Recording.close (h : Recording now done rule.ruleId fingerprint s)
    (hclose : closeVersion rule.ruleId fingerprint now s = .ok s') :
    Recording now done rule.ruleId fingerprint s' ∧
      ∀ v ∈ s'.versions, v.key = rule.ruleId → v.closed ≠ none := by
  cases hclose
  refine ⟨⟨h.valid.close, fun other hother hne => ?_,
    fun other hother => (h.saw other hother).imp fun _ hsaw => hsaw.append _, h.row⟩,
    fun v hv hkey hnone => ?_⟩
  · refine (h.others other hother hne).frame rfl fun v hv hkey _ => ?_
    show v ∈ closeWhere (· == rule.ruleId) now s.versions
    exact mem_close_where.mpr (.inl ⟨hv, by simp [hkey, hne]⟩)
  · have hv : v ∈ closeWhere (· == rule.ruleId) now s.versions := hv
    obtain ⟨closed, hclosed⟩ := closed_of_mem_close_where hv (by simpa using hkey)
    rw [hclosed] at hnone
    cases hnone

theorem Recording.insert (h : Recording now done rule.ruleId fingerprint s)
    (hclosed : ∀ v ∈ s.versions, v.key = rule.ruleId → v.closed ≠ none)
    (hinsert : insertVersion rule fingerprint now s = .ok s') :
    Recorded now (done ++ [rule]) s' := by
  simp only [insertVersion] at hinsert
  split at hinsert
  · cases hinsert
  · split at hinsert
    · cases hinsert
    · rename_i hunique
      have hfresh : ∀ v ∈ s.versions, v.key = rule.ruleId → v.opened ≠ now := by
        intro v hv hkey hopened
        exact hunique (any_eq_true.mpr ⟨v, hv, by simp [hkey, hopened]⟩)
      cases hinsert
      refine Recording.finish ⟨h.valid.insert hclosed hfresh rfl, fun other hother hne => ?_,
        fun other hother => (h.saw other hother).imp fun _ hsaw => hsaw.append _, h.row⟩
        ⟨_, mem_open_epoch.mpr (.inr rfl), rfl, rfl, rfl⟩
        (mem_append_right _ (mem_singleton.mpr rfl))
      exact (h.others other hother hne).frame rfl fun v hv _ _ => mem_open_epoch.mpr (.inl hv)

theorem upsert_rule_spec (sha256 : String → String) (now : Int)
    (groupVpcMap : List (String × String)) (done : List RuleSnapshot) (rule : RuleSnapshot) :
    Triple (Recorded now done) (upsertRule sha256 now groupVpcMap rule)
      (fun _ => Recorded now (done ++ [rule]))
      (fun s => VersionsValid now s.versions s.sightings) := by
  have hrow : Triple (Recorded now done)
      (exec (upsertInventoryRow rule (ruleFingerprint sha256 rule)
        (groupVpcMap.lookup rule.groupId) now))
      (fun _ => Recording now done rule.ruleId (ruleFingerprint sha256 rule))
      (fun s => VersionsValid now s.versions s.sightings) :=
    .exec (fun s s' h hok => h.upsert_inventory_row hok) fun s h => h.valid
  have hrows : Triple (Recording now done rule.ruleId (ruleFingerprint sha256 rule))
      (query (openFingerprints rule.ruleId))
      (fun rows s => Recording now done rule.ruleId (ruleFingerprint sha256 rule) s ∧
        rows = openFingerprints rule.ruleId s)
      (fun s => VersionsValid now s.versions s.sightings) :=
    .query (fun s h => ⟨h, rfl⟩) fun s h => h.valid
  refine hrow.bind fun _ => hrows.bind fun rows => ?_
  cases rows with
  | nil =>
    refine .exec (fun s s' h hinsert => h.1.insert (fun v hv hkey hopen => ?_) hinsert)
      fun s h => h.1.valid
    have hmem : v.value.fingerprint ∈ openFingerprints rule.ruleId s :=
      mem_map_of_mem (mem_filter.mpr ⟨hv, by simp [hkey, hopen]⟩)
    rw [← h.2] at hmem
    cases hmem
  | cons current rest =>
    dsimp only
    split
    · have hclose : Triple (fun s => Recording now done rule.ruleId (ruleFingerprint sha256 rule) s ∧
            current :: rest = openFingerprints rule.ruleId s)
          (exec (closeVersion rule.ruleId (ruleFingerprint sha256 rule) now))
          (fun _ s => Recording now done rule.ruleId (ruleFingerprint sha256 rule) s ∧
            ∀ v ∈ s.versions, v.key = rule.ruleId → v.closed ≠ none)
          (fun s => VersionsValid now s.versions s.sightings) :=
        .exec (fun s s' h hok => h.1.close hok) fun s h => h.1.valid
      exact hclose.bind fun _ =>
        .exec (fun s s' h hinsert => h.1.insert h.2 hinsert) fun s h => h.1.valid
    · rename_i hsame
      have hsame := not_not.mp hsame
      exact .note fun s h => h.1.confirm (hsame ▸ h.2.symm)

end Recording

/-- The inventory and the open versions are those of the snapshot. -/
structure InSync (rules : List RuleSnapshot) (s : Store) : Prop where
  activeIff : ∀ ruleId, (∃ row, s.inventory ruleId = some row ∧ row.active = true) ↔
    ruleId ∈ rules.map (·.ruleId)
  openIff : ∀ ruleId, ruleId ∈ rules.map (·.ruleId) ↔
    ∃ v ∈ s.versions, v.key = ruleId ∧ v.closed = none
  fingerprint : ∀ v ∈ s.versions, v.closed = none → ∀ row, s.inventory v.key = some row →
    v.value.fingerprint = row.fingerprint

section Completion

variable {now : Int} {rules : List RuleSnapshot} {s s' : Store}

theorem Recorded.deactivate_unseen (h : Recorded now rules s)
    (hok : deactivateUnseen (rules.map (·.ruleId)) s = .ok s') :
    Recorded now rules s' ∧ ∀ ruleId ∉ rules.map (·.ruleId), ∀ row,
      s'.inventory ruleId = some row → row.active = false := by
  cases hok
  refine ⟨⟨h.valid, fun rule hrule => ?_, h.saw⟩, fun ruleId hunseen row hrow => ?_⟩
  · exact (h.agrees rule hrule).frame (if_pos (mem_map_of_mem hrule)) fun v hv _ _ => hv
  · simp only [if_neg hunseen, Option.map_eq_some_iff] at hrow
    obtain ⟨old, -, rfl⟩ := hrow
    rfl

theorem Recorded.close_unseen (h : Recorded now rules s)
    (hinactive : ∀ ruleId ∉ rules.map (·.ruleId), ∀ row,
      s.inventory ruleId = some row → row.active = false)
    (hok : closeUnseen (rules.map (·.ruleId)) now s = .ok s') :
    VersionsValid now s'.versions s'.sightings ∧ ScanCompleted s'.sightings now ∧
      InSync rules s' := by
  cases hok
  have hvalid := h.valid.sweep (rules.map (·.ruleId))
  have hagrees : ∀ ruleId ∈ rules.map (·.ruleId), Agrees
      { s with
        versions := closeWhere (fun ruleId => decide (ruleId ∉ rules.map (·.ruleId))) now s.versions
        sightings := s.sightings ++ [.missed now (rules.map (·.ruleId))] } ruleId := by
    intro ruleId hseen
    obtain ⟨rule, hrule, rfl⟩ := mem_map.mp hseen
    refine (h.agrees rule hrule).frame rfl fun v hv hkey _ => ?_
    show v ∈ closeWhere (fun ruleId => decide (ruleId ∉ rules.map (·.ruleId))) now s.versions
    exact mem_close_where.mpr (.inl ⟨hv, fun hselected => of_decide_eq_true hselected.2 (hkey ▸ hseen)⟩)
  have hseenOfOpen : ∀ v ∈ closeWhere (fun ruleId => decide (ruleId ∉ rules.map (·.ruleId))) now
      s.versions, v.closed = none → v.key ∈ rules.map (·.ruleId) := by
    intro v hv hopen
    by_contra hunseen
    obtain ⟨closed, hclosed⟩ := closed_of_mem_close_where hv (decide_eq_true hunseen)
    rw [hopen] at hclosed
    cases hclosed
  refine ⟨hvalid, ⟨_, mem_append_right _ (mem_singleton.mpr rfl), fun ruleId hseen => ?_⟩,
    fun ruleId => ⟨fun ⟨row, hrow, hactive⟩ => ?_, fun hseen => ?_⟩,
    fun ruleId => ⟨fun hseen => ?_, fun ⟨v, hv, hkey, hopen⟩ => ?_⟩, fun v hv hopen row hrow => ?_⟩
  · obtain ⟨rule, hrule, rfl⟩ := mem_map.mp hseen
    exact (h.saw rule hrule).imp fun _ hsaw => hsaw.append _
  · by_contra hunseen
    rw [hinactive ruleId hunseen row hrow] at hactive
    cases hactive
  · obtain ⟨row, v, hrow, hactive, -⟩ := hagrees ruleId hseen
    exact ⟨row, hrow, hactive⟩
  · obtain ⟨row, v, -, -, hv, hkey, hopen, -⟩ := hagrees ruleId hseen
    exact ⟨v, hv, hkey, hopen⟩
  · rw [← hkey]
    exact hseenOfOpen v hv hopen
  · obtain ⟨row', v', hrow', -, hv', hkey', hopen', hfp⟩ := hagrees v.key (hseenOfOpen v hv hopen)
    have hsame := hvalid.ordered.open_unique hv hv' hkey'.symm hopen hopen'
    rw [hsame, hfp, Option.some.inj (hrow.symm.trans hrow')]

/-- Recording a snapshot: when the call returns, the tables are in sync with the snapshot, and
wherever it is cut short, the versions are valid. -/
theorem upsert_spec (sha256 : String → String) (rules : List RuleSnapshot) (now : Int)
    (groupVpcMap : List (String × String)) :
    Triple (fun s => VersionsValid now s.versions s.sightings)
      (upsertInventoryAndVersions sha256 rules now groupVpcMap)
      (fun _ s => VersionsValid now s.versions s.sightings ∧ ScanCompleted s.sightings now ∧
        InSync rules s)
      (fun s => VersionsValid now s.versions s.sightings) := by
  have hloop : Triple (Recorded now []) (forEach (upsertRule sha256 now groupVpcMap) rules)
      (fun _ => Recorded now rules) (fun s => VersionsValid now s.versions s.sightings) :=
    .forEach (fun done _ => Recorded now done) fun done rule _ _ _ =>
      upsert_rule_spec sha256 now groupVpcMap done rule
  have hsweep : Triple (Recorded now rules) (exec (deactivateUnseen (rules.map (·.ruleId))))
      (fun _ s => Recorded now rules s ∧ ∀ ruleId ∉ rules.map (·.ruleId), ∀ row,
        s.inventory ruleId = some row → row.active = false)
      (fun s => VersionsValid now s.versions s.sightings) :=
    .exec (fun s s' h hok => h.deactivate_unseen hok) fun s h => h.valid
  refine (hloop.weaken (fun s h => ?_) (fun _ s h => h) fun s h => h).bind fun _ =>
    hsweep.bind fun _ => .exec (fun s s' h hok => h.1.close_unseen h.2 hok) fun s h => h.1.valid
  exact ⟨h, fun _ hmem => (not_mem_nil hmem).elim, fun _ hmem => (not_mem_nil hmem).elim⟩

end Completion

/-- One call, with the schedule of the statements that raise in it. -/
structure UpsertCall where
  now : Int
  rules : List RuleSnapshot
  groupVpcMap : List (String × String)
  faults : Nat → Option String

/-- What the call leaves behind, whole or cut short. -/
def UpsertCall.run (sha256 : String → String) (call : UpsertCall) (s : Store) : Reply Store Unit :=
  (upsertInventoryAndVersions sha256 call.rules call.now call.groupVpcMap).run call.faults s 0

/-- The tables after a sequence of calls on the empty store. A schedule that raises from some
statement on gives the tables between two statements of a call. -/
def storeAfter (sha256 : String → String) (calls : List UpsertCall) : Store :=
  calls.foldl (fun s call => (call.run sha256 s).store) .empty

theorem versions_valid_after (sha256 : String → String) (calls : List UpsertCall)
    (hincreasing : calls.Pairwise fun earlier later => earlier.now < later.now) (now : Int)
    (hnow : ∀ call ∈ calls, call.now ≤ now) :
    VersionsValid now (storeAfter sha256 calls).versions (storeAfter sha256 calls).sightings := by
  induction calls using List.reverseRecOn generalizing now with
  | nil => exact .nil now
  | append_singleton earlier last ih =>
    obtain ⟨hearlier, -, hlast⟩ := pairwise_append.mp hincreasing
    have hbefore := ih hearlier last.now fun call hcall =>
      (hlast call hcall last (mem_singleton.mpr rfl)).le
    have hvalid := Triple.store ((upsert_spec sha256 last.rules last.now last.groupVpcMap).weaken
      (fun _ h => h) (fun _ _ h => h.1) fun _ h => h) last.faults _ 0 hbefore
    rw [storeAfter, foldl_append]
    exact hvalid.mono (hnow last (mem_append_right _ (mem_singleton.mpr rfl)))

/-- The rule has at most one open version, and its versions are half-open intervals that stand in
the order of their starts and share no instant. -/
structure VersionStoreValid (s : Store) (ruleId : String) : Prop where
  oneOpen : (s.versions.filter fun v => v.key == ruleId && v.closed.isNone).length ≤ 1
  ends : ∀ v ∈ s.versions, ∀ closed, v.closed = some closed → v.opened ≤ closed
  disjoint : (s.versions.filter (·.key == ruleId)).Pairwise fun earlier later =>
    earlier.opened < later.opened ∧
      ∀ instant, ¬ (earlier.covers instant = true ∧ later.covers instant = true)

/-- Versions that follow one another are disjoint, and only the last can be open. -/
theorem VersionsValid.store_valid {now : Int} {s : Store}
    (h : VersionsValid now s.versions s.sightings) (ruleId : String) :
    VersionStoreValid s ruleId := by
  refine ⟨?_, h.ordered.ends, ?_⟩
  · have hpairwise : (s.versions.filter fun v => v.key == ruleId && v.closed.isNone).Pairwise
        fun _ _ => False := by
      refine (h.ordered.follows.filter _).imp_of_mem fun {earlier later} hearlier hlater hfollows => ?_
      simp only [mem_filter, Bool.and_eq_true, beq_iff_eq, Option.isNone_iff_eq_none]
        at hearlier hlater
      obtain ⟨-, closed, hclosed, -⟩ := hfollows (hearlier.2.1.trans hlater.2.1.symm)
      rw [hearlier.2.2] at hclosed
      cases hclosed
    exact length_le_one_of_pairwise hpairwise
  · refine (h.ordered.follows.filter _).imp_of_mem fun {earlier later} hearlier hlater hfollows => ?_
    simp only [mem_filter, beq_iff_eq] at hearlier hlater
    have hkey := hearlier.2.trans hlater.2.symm
    refine ⟨(hfollows hkey).1, fun instant hcovers => ?_⟩
    have hsame := h.ordered.covers_unique hearlier.1 hlater.1 hkey hcovers.1 hcovers.2
    rw [hsame] at hfollows
    exact lt_irrefl _ (hfollows rfl).1

/-- Every sequence of calls at increasing times, each whole or cut short, leaves valid versions,
and after a call that returned, the tables are in sync with its snapshot. -/
theorem version_store_valid (sha256 : String → String) (calls : List UpsertCall)
    (hincreasing : calls.Pairwise fun earlier later => earlier.now < later.now) :
    (∀ ruleId, VersionStoreValid (storeAfter sha256 calls) ruleId) ∧
      ∀ earlier last, calls = earlier ++ [last] →
        (last.run sha256 (storeAfter sha256 earlier)).outcome = .ok () →
        InSync last.rules (storeAfter sha256 calls) := by
  refine ⟨fun ruleId => ?_, fun earlier last hcalls hok => ?_⟩
  · obtain ⟨now, hnow⟩ := exists_latest UpsertCall.now calls
    exact (versions_valid_after sha256 calls hincreasing now hnow).store_valid ruleId
  · rw [hcalls] at hincreasing
    obtain ⟨hearlier, -, hlast⟩ := pairwise_append.mp hincreasing
    have hbefore := versions_valid_after sha256 earlier hearlier last.now fun call hcall =>
      (hlast call hcall last (mem_singleton.mpr rfl)).le
    have hafter := (upsert_spec sha256 last.rules last.now last.groupVpcMap).returned hbefore hok
    rw [hcalls, storeAfter, foldl_append]
    exact hafter.2.2

/-- A rule is added, removed by a call that dies before its last statement, removed, and added
again. -/
theorem version_store_valid_readded :
    let rule : RuleSnapshot :=
      ⟨"sgr-01", "sg-0a", false, "tcp", some 443, some 443, some "cidr", "10.0.0.0/8", none⟩
    let sha256 : String → String := fun _ =>
      "a61cac09b0e70e9fd8a6d670a5da4c318d15f938ccaebeff013caab5d9388bbf"
    let calls : List UpsertCall := [⟨10, [rule], [], fun _ => none⟩,
      ⟨20, [], [], fun n => if n = 1 then some "connection lost" else none⟩,
      ⟨30, [], [], fun _ => none⟩, ⟨40, [rule], [("sg-0a", "vpc-1")], fun _ => none⟩]
    (∀ ruleId, VersionStoreValid (storeAfter sha256 calls) ruleId) ∧
      InSync [rule] (storeAfter sha256 calls) ∧
      (storeAfter sha256 calls).versions.map (fun v => (v.opened, v.closed)) =
        [(10, some 30), (40, none)] := by
  intro rule sha256 calls
  have h := version_store_valid sha256 calls (by decide)
  exact ⟨h.1, h.2 (calls.take 3) ⟨40, [rule], [("sg-0a", "vpc-1")], fun _ => none⟩ rfl (by decide),
    by decide⟩

end AwsOps.SgRules
