import AwsOps.Finops.Engine
import Mathlib.Data.List.Pairwise

/-!
# The ledger of the FinOps findings

`findings_ledger_honest` says what the runs do to the findings, statement by statement and in any
interleaving. A run resolves a finding only after its rule returned without an item of the finding's scope, and
does not touch the findings of a rule that raised. When a run ends, each item that its rules
returned has exactly one finding, with the status that the guards decide, and an explanation was
generated from what the finding says now. The last two hold while the runs leave each other's
findings alone (`Undisturbed`): `_upsert_finding` clears an explanation that no longer fits, but
the explanation pass writes by identifier only, so a run that was given the old amount stores its
text next to the new one.
-/

namespace AwsOps.Finops

open List Follows Ledger

open Text (Unicode)

variable {J : Type}

/-! ## The stages of a run -/

/-- The stage of a run: how its rules fared, the items that it has recorded, the rows that it
selected and has not dealt with, the text for the first of them, and how it ended. -/
structure Stage (J : Type) where
  outcome : Rule → Option (Outcome J)
  recorded : List (Rule × Item J)
  pending : List (Row J)
  text : Option String
  ended : Option RunStatus

/-- Every item that a rule returned has been recorded. -/
def Stage.Complete (v : Stage J) : Prop :=
  ∀ rule items, v.outcome rule = some (.returned items) →
    ∀ item ∈ items, (rule, item) ∈ v.recorded

/-- The first selected row is dealt with. -/
def Stage.advance (v : Stage J) : Stage J :=
  { v with pending := v.pending.tail, text := none }

/-- The stages of a run. A rule is evaluated once. Items of a rule that returned are recorded with
what the guards say, its other findings are resolved when all of them are, and a text is stored for
the row that it was generated from. -/
def protocol (U : Unicode) : Protocol (Statement J) Answer (Stage J) where
  initial := ⟨fun _ => none, [], [], none, none⟩
  allowed v
    | .evaluate rule => v.outcome rule = none
    | .upsertFinding _ rule item status hits =>
      (∃ items, v.outcome rule = some (.returned items) ∧ item ∈ items) ∧
        hits = guardHits U item ∧ status = statusOf hits
    | .resolveStale rule seen =>
      ∃ items, v.outcome rule = some (.returned items) ∧ seen = seenScopedIds items ∧
        ∀ item ∈ items, (rule, item) ∈ v.recorded
    | .explain prompt => ∃ row ∈ v.pending.head?, row.prompt = prompt
    | .setExplanation id text => (∃ row ∈ v.pending.head?, row.id = id) ∧ v.text = some text
    | .finishRun _ summary => summary.status ≠ .failed → v.Complete
    | .startRun | .monotonic | .selectPending => True
  after v c r :=
    match c, r with
    | .evaluate rule, evaluation =>
      { v with outcome := Function.update v.outcome rule (some evaluation.outcome) }
    | .upsertFinding _ rule item _ _, .ok _ => { v with recorded := (rule, item) :: v.recorded }
    | .selectPending, .ok rows => { v with pending := rows, text := none }
    | .explain _, some text => if text = "" then v.advance else { v with text := some text }
    | .explain _, none => v.advance
    | .setExplanation .., .ok _ => v.advance
    | .finishRun _ summary, .ok _ =>
      { v with pending := [], text := none, ended := some summary.status }
    | _, _ => v

section Programs

variable {U : Unicode} {v : Stage J}

theorem follows_upsert_items (runId : Nat) (rule : Rule) {all : List (Item J)}
    {items : List (Item J)} {progress : Progress}
    (hreturned : v.outcome rule = some (.returned all)) (hitems : ∀ item ∈ items, item ∈ all) :
    Follows (protocol U) v (upsertItems U runId rule items progress) fun r w =>
      w.outcome = v.outcome ∧ (∀ entry ∈ v.recorded, entry ∈ w.recorded) ∧
        (r.2 = none → ∀ item ∈ items, (rule, item) ∈ w.recorded) := by
  induction items generalizing v progress with
  | nil => exact pure ⟨rfl, fun _ h => h, fun _ _ h => nomatch h⟩
  | cons item rest ih =>
    refine command_bind ⟨⟨all, hreturned, hitems item mem_cons_self⟩, rfl, rfl⟩ ?_
    intro r
    cases r with
    | error message => exact pure ⟨rfl, fun _ h => h, fun h => nomatch h⟩
    | ok id =>
      refine mono
        (ih hreturned fun other h => hitems other (mem_cons_of_mem item h)) ?_
      intro result w hw
      refine ⟨hw.1, fun entry h => hw.2.1 entry (mem_cons_of_mem _ h), ?_⟩
      intro hnone other hother
      rcases mem_cons.mp hother with rfl | hother
      · exact hw.2.1 _ mem_cons_self
      · exact hw.2.2 hnone other hother

/-- The loop over the rules records what they return, unless a statement raises. -/
theorem follows_evaluate_rules (runId : Nat) {rest : List Rule} {progress : Progress}
    (hrest : rest.Nodup) (hfresh : ∀ rule ∈ rest, v.outcome rule = none) (hv : v.Complete) :
    Follows (protocol U) v (evaluateRules U runId rest progress) fun r w =>
      r.2 = none → w.Complete := by
  induction rest generalizing v progress with
  | nil => exact pure fun _ => hv
  | cons rule rest ih =>
    rw [nodup_cons] at hrest
    refine command_bind (hfresh rule mem_cons_self) ?_
    intro evaluation
    -- The outcome of this rule is new, those of the rules to come are still open.
    have hfresh' : ∀ outcome, ∀ other ∈ rest,
        Function.update v.outcome rule outcome other = none := by
      intro outcome other hother
      rw [Function.update_of_ne (by rintro rfl; exact hrest.1 hother)]
      exact hfresh other (mem_cons_of_mem rule hother)
    obtain ⟨outcome, ceCalls⟩ := evaluation
    cases outcome with
    | raised message =>
      refine ih hrest.2 (hfresh' _) ?_
      intro other items hother
      replace hother : Function.update v.outcome rule _ other = _ := hother
      by_cases hne : other = rule
      · subst hne
        rw [Function.update_self] at hother
        cases hother
      · rw [Function.update_of_ne hne] at hother
        exact hv other items hother
    | returned items =>
      have hreturned : Function.update v.outcome rule (some (.returned items)) rule =
          some (.returned items) := Function.update_self ..
      refine bind (follows_upsert_items runId rule hreturned fun _ h => h) ?_
      rintro ⟨progress, raised⟩ w ⟨houtcome, hkept, hrecorded⟩
      replace houtcome : w.outcome = Function.update v.outcome rule _ := houtcome
      cases raised with
      | some message => exact pure fun h => nomatch h
      | none =>
        have hw : w.outcome rule = some (.returned items) := by
          rw [houtcome, Function.update_self]
        refine command_bind ⟨items, hw, rfl, hrecorded rfl⟩ ?_
        intro r
        cases r with
        | error message => exact pure fun h => nomatch h
        | ok =>
          show Follows (protocol U) w (evaluateRules U runId rest progress) _
          refine ih hrest.2 (houtcome ▸ hfresh' _) ?_
          intro other others hother
          by_cases hne : other = rule
          · subst hne
            cases hw.symm.trans hother
            exact hrecorded rfl
          · rw [houtcome, Function.update_of_ne hne] at hother
            exact fun item hitem => hkept _ (hv other others hother item hitem)

theorem follows_explain_rows {deadline : Nat} {rows : List (Row J)} (hpending : v.pending = rows)
    (hv : v.Complete) :
    Follows (protocol U) v (explainRows deadline rows) fun _ w => w.Complete := by
  induction rows generalizing v with
  | nil => exact pure hv
  | cons row rest ih =>
    have hhead : row ∈ v.pending.head? := by simp [hpending]
    have htail : v.advance.pending = rest := by simp [Stage.advance, hpending]
    refine command_bind trivial ?_
    intro now
    show Follows _ _ (if deadline ≤ now then _ else _) _
    split
    · exact pure hv
    · refine command_bind ⟨row, hhead, rfl⟩ ?_
      intro text
      cases text with
      | none => exact ih htail hv
      | some text =>
        show Follows _ (if text = "" then v.advance else _) (if text = "" then _ else _) _
        split
        · exact ih htail hv
        · refine command_bind ⟨⟨row, hhead, rfl⟩, rfl⟩ ?_
          intro r
          cases r with
          | error message => exact pure hv
          | ok => exact ih htail hv

theorem follows_explain_pending (hv : v.Complete) :
    Follows (protocol U) v explainPending fun _ w => w.Complete := by
  refine command_bind trivial fun now => command_bind trivial ?_
  intro r
  cases r with
  | error message => exact pure hv
  | ok rows => exact follows_explain_rows rfl hv

theorem follows_abandon (runId : Nat) (progress : Progress) (message : String) :
    Follows (protocol U) v (abandon runId progress message) fun _ _ => True :=
  command_bind (fun h => absurd rfl h) fun _ => pure trivial

theorem follows_run (U : Unicode) :
    Follows (protocol (J := J) U) (protocol U).initial (run U) fun _ _ => True := by
  refine command_bind trivial fun runId => ?_
  refine bind (follows_evaluate_rules runId (by decide) (fun _ _ => rfl)
    fun _ _ h => nomatch h) ?_
  rintro ⟨progress, raised⟩ v hv
  cases raised with
  | some message => exact follows_abandon runId progress message
  | none =>
    refine bind (follows_explain_pending (hv rfl)) ?_
    intro raised w hw
    cases raised with
    | some message => exact follows_abandon runId progress message
    | none =>
      refine command_bind (fun _ => hw) ?_
      intro r
      cases r with
      | error message => exact follows_abandon runId progress message
      | ok => exact pure trivial

end Programs

/-! ## What the statements do to the findings -/

/-- Identifiers are unique and below the sequence, and a rule has one finding for each scope. -/
structure Ledger.WellFormed (t : Ledger J) : Prop where
  below : ∀ f ∈ t.findings, f.id < t.nextId
  distinct : t.findings.Pairwise fun f g => f.id ≠ g.id ∧ ¬ (f.rule = g.rule ∧ f.scope = g.scope)

theorem Ledger.WellFormed.eq_of_id {t : Ledger J} (h : t.WellFormed) {f g : Finding J}
    (hf : f ∈ t.findings) (hg : g ∈ t.findings) (hid : f.id = g.id) : f = g := by
  by_contra hne
  have hsymm : Std.Symm fun f g : Finding J => f.id ≠ g.id := ⟨fun _ _ => Ne.symm⟩
  have hids : t.findings.Pairwise fun f g => f.id ≠ g.id := h.distinct.imp And.left
  exact hids.forall hf hg hne hid

/-- The item of a rule has exactly one finding. It is not resolved, and needs a review just when a
guard hit. -/
def Recorded (U : Unicode) (t : Ledger J) (rule : Rule) (item : Item J) : Prop :=
  ∃ f, t.findings.filter (fun f => f.rule = rule ∧ f.scope = item.scope) = [f] ∧
    f.status ≠ .resolved ∧ (f.status = .needsReview ↔ guardHits U item ≠ [])

theorem status_of_iff {status : Status} {hits : List String} :
    (status ≠ .resolved ∧ (status = .needsReview ↔ hits ≠ [])) ↔ status = statusOf hits := by
  unfold statusOf
  split <;> rename_i h <;> cases status <;> simp [h]

theorem recorded_iff {U : Unicode} {t : Ledger J} (ht : t.WellFormed) {rule : Rule}
    {item : Item J} :
    Recorded U t rule item ↔ ∃ f ∈ t.findings, (f.rule = rule ∧ f.scope = item.scope) ∧
        f.status = statusOf (guardHits U item) := by
  unfold Recorded
  simp only [status_of_iff]
  constructor
  · rintro ⟨f, hfilter, hstatus⟩
    have hf : f ∈ t.findings.filter fun f => f.rule = rule ∧ f.scope = item.scope := by
      rw [hfilter]
      exact mem_singleton_self f
    rw [mem_filter, decide_eq_true_iff] at hf
    exact ⟨f, hf.1, hf.2, hstatus⟩
  · rintro ⟨f, hf, hkey, hstatus⟩
    refine ⟨f, ?_, hstatus⟩
    obtain ⟨before, after, happend⟩ := append_of_mem hf
    have hdistinct := ht.distinct
    rw [happend, pairwise_append, pairwise_cons] at hdistinct
    obtain ⟨_, ⟨hafter, _⟩, hbefore⟩ := hdistinct
    have hnone : ∀ others : List (Finding J), (∀ g ∈ others, ¬ (g.rule = f.rule ∧ g.scope = f.scope)) →
        others.filter (fun g => g.rule = rule ∧ g.scope = item.scope) = [] := by
      intro others hothers
      rw [filter_eq_nil_iff]
      intro g hg hgkey
      rw [decide_eq_true_iff] at hgkey
      exact hothers g hg ⟨hgkey.1.trans hkey.1.symm, hgkey.2.trans hkey.2.symm⟩
    rw [happend, filter_append, filter_cons_of_pos (by simpa using hkey),
      hnone before fun g hg => (hbefore g hg f mem_cons_self).2,
      hnone after fun g hg h => (hafter g hg).2 ⟨h.1.symm, h.2.symm⟩]
    rfl

/-- A change of the findings that keeps their identifiers, rules and scopes. -/
structure KeepsIdentity (g : Finding J → Finding J) : Prop where
  id : ∀ f, (g f).id = f.id
  rule : ∀ f, (g f).rule = f.rule
  scope : ∀ f, (g f).scope = f.scope

theorem Ledger.WellFormed.map {t : Ledger J} (ht : t.WellFormed) {g : Finding J → Finding J}
    (hg : KeepsIdentity g) {t' : Ledger J} (hfindings : t'.findings = t.findings.map g)
    (hnext : t.nextId ≤ t'.nextId) : t'.WellFormed where
  below := by
    intro f hf
    rw [hfindings] at hf
    obtain ⟨f₀, hf₀, rfl⟩ := mem_map.mp hf
    have hlt := ht.below f₀ hf₀
    rw [hg.id]
    omega
  distinct := by
    rw [hfindings, pairwise_map]
    refine ht.distinct.imp ?_
    intro f f' h
    rwa [hg.id, hg.id, hg.rule, hg.rule, hg.scope, hg.scope]

theorem keeps_resolveStale (rule : Rule) (seen : List String) : KeepsIdentity fun f : Finding J =>
      if f.stale rule seen then { f with status := .resolved } else f := by
  constructor <;> intro f <;> split <;> rfl

theorem keeps_setExplanation (id : Nat) (text : String) : KeepsIdentity fun f : Finding J =>
      if f.id = id then { f with explanation := some text } else f := by
  constructor <;> intro f <;> split <;> rfl

/-! ## What a run relies on -/

/-- What a run in this stage relies on: the rows that it selected still say what they said, the
text for the first of them was generated from it, and what it recorded is in the ledger. -/
structure Fits (U : Unicode) (t : Ledger J) (w : Stage J) : Prop where
  held : ∀ row ∈ w.pending, row.id < t.nextId ∧
    ∀ f ∈ t.findings, f.id = row.id → f.prompt = row.prompt
  text : ∀ row ∈ w.pending.head?, ∀ text ∈ w.text, (row.prompt, some text) ∈ t.generated
  recorded : w.ended = none → ∀ entry ∈ w.recorded, Recorded U t entry.1 entry.2

/-- Every explanation was generated from what its finding says. -/
def Ledger.Explained (t : Ledger J) : Prop :=
  ∀ f ∈ t.findings, ∀ text ∈ f.explanation, (f.prompt, some text) ∈ t.generated

section Fits

variable {U : Unicode} {t t' : Ledger J} {w : Stage J}

theorem Fits.initial : Fits U t (protocol (J := J) U).initial :=
  ⟨nofun, nofun, fun _ => nofun⟩

/-- A statement that leaves the findings alone breaks nothing. -/
theorem Fits.of_findings (h : Fits U t w) (hfindings : t'.findings = t.findings)
    (hnext : t'.nextId = t.nextId) (hgenerated : ∀ call ∈ t.generated, call ∈ t'.generated) :
    Fits U t' w := by
  refine ⟨?_, ?_, ?_⟩
  · rw [hfindings, hnext]
    exact h.held
  · intro row hrow text htext
    exact hgenerated _ (h.text row hrow text htext)
  · intro hended entry hentry
    unfold Recorded
    rw [hfindings]
    exact h.recorded hended entry hentry

/-- A change of the findings that keeps their identities breaks nothing when it leaves what the
selected findings say, and the status of the recorded ones. -/
theorem Fits.map (ht : t.WellFormed) (h : Fits U t w) {g : Finding J → Finding J}
    (hg : KeepsIdentity g) (hfindings : t'.findings = t.findings.map g)
    (hnext : t.nextId ≤ t'.nextId) (hgenerated : t'.generated = t.generated)
    (hprompt : ∀ f ∈ t.findings, ∀ row ∈ w.pending, f.id = row.id → (g f).prompt = f.prompt)
    (hstatus : w.ended = none → ∀ f ∈ t.findings, ∀ entry ∈ w.recorded,
      f.rule = entry.1 ∧ f.scope = entry.2.scope → f.status = statusOf (guardHits U entry.2) →
      (g f).status = statusOf (guardHits U entry.2)) :
    Fits U t' w := by
  refine ⟨?_, ?_, ?_⟩
  · intro row hrow
    obtain ⟨hlt, hsame⟩ := h.held row hrow
    refine ⟨by omega, ?_⟩
    intro f hf hid
    rw [hfindings] at hf
    obtain ⟨f₀, hf₀, rfl⟩ := mem_map.mp hf
    rw [hg.id] at hid
    rw [hprompt f₀ hf₀ row hrow hid]
    exact hsame f₀ hf₀ hid
  · rw [hgenerated]
    exact h.text
  · intro hended entry hentry
    obtain ⟨f, hf, hkey, hf'⟩ := (recorded_iff ht).mp (h.recorded hended entry hentry)
    refine (recorded_iff (ht.map hg hfindings hnext)).mpr ⟨g f, ?_, ?_, ?_⟩
    · rw [hfindings]
      exact mem_map_of_mem hf
    · rwa [hg.rule, hg.scope]
    · exact hstatus hended f hf entry hentry hkey hf'

theorem Fits.setExplanation (ht : t.WellFormed) (h : Fits U t w) (id : Nat) (text : String) :
    Fits U (t.setExplanation id text) w := by
  refine h.map ht (keeps_setExplanation id text) rfl (Nat.le_refl _) rfl ?_ ?_
  · intro f hf row hrow hid
    split <;> rfl
  · intro hended f hf entry hentry hkey hstatus
    split <;> exact hstatus

theorem Fits.advance (h : Fits U t w) : Fits U t w.advance :=
  ⟨fun row hrow => h.held row (mem_of_mem_tail hrow), fun _ _ => nofun, h.recorded⟩

theorem Fits.select (ht : t.WellFormed) (h : Fits U t w) (world : World J) :
    Fits U t { w with pending := t.selectPending world, text := none } := by
  refine ⟨?_, fun _ _ => nofun, h.recorded⟩
  intro row hrow
  obtain ⟨f, hf, rfl⟩ := mem_map.mp hrow
  have hmem : f ∈ t.findings :=
    mem_of_mem_filter ((world.order_perm _).mem_iff.mp (mem_of_mem_take hf))
  refine ⟨ht.below f hmem, ?_⟩
  intro g hg hid
  rw [ht.eq_of_id hg hmem hid]
  rfl

end Fits

/-- What holds of the tables at all times. -/
structure Ledger.Sound (t : Ledger J) : Prop where
  wellFormed : t.WellFormed
  explained : t.Explained

section Sound

variable {t t' : Ledger J}

theorem Ledger.Sound.of_findings (h : t.Sound)
    (hfindings : t'.findings = t.findings) (hnext : t'.nextId = t.nextId)
    (hgenerated : ∀ call ∈ t.generated, call ∈ t'.generated) : t'.Sound := by
  refine ⟨⟨?_, ?_⟩, ?_⟩
  · rw [hfindings, hnext]
    exact h.wellFormed.below
  · rw [hfindings]
    exact h.wellFormed.distinct
  · intro f hf text htext
    rw [hfindings] at hf
    exact hgenerated _ (h.explained f hf text htext)

theorem Ledger.Sound.map (h : t.Sound) {g : Finding J → Finding J} (hg : KeepsIdentity g)
    (hfindings : t'.findings = t.findings.map g) (hnext : t.nextId ≤ t'.nextId)
    (hexplained : ∀ f ∈ t.findings, ∀ text, (g f).explanation = some text →
      ((g f).prompt, some text) ∈ t'.generated) : t'.Sound := by
  refine ⟨h.wellFormed.map hg hfindings hnext, ?_⟩
  intro f hf text htext
  rw [hfindings] at hf
  obtain ⟨f₀, hf₀, rfl⟩ := mem_map.mp hf
  exact hexplained f₀ hf₀ text htext

theorem Ledger.Sound.resolveStale (h : t.Sound) (rule : Rule) (seen : List String) :
    (t.resolveStale rule seen).Sound := by
  refine h.map (keeps_resolveStale rule seen) rfl (Nat.le_refl _) ?_
  intro f hf text htext
  by_cases hstale : f.stale rule seen
  · rw [if_pos hstale] at htext ⊢
    exact h.explained f hf text htext
  · rw [if_neg hstale] at htext ⊢
    exact h.explained f hf text htext

theorem Ledger.Sound.setExplanation (h : t.Sound) {id : Nat} {text : String}
    (hgenerated : ∀ f ∈ t.findings, f.id = id → (f.prompt, some text) ∈ t.generated) :
    (t.setExplanation id text).Sound := by
  refine h.map (keeps_setExplanation id text) rfl (Nat.le_refl _) ?_
  intro f hf other hother
  by_cases hid : f.id = id
  · rw [if_pos hid] at hother ⊢
    cases hother
    exact hgenerated f hf hid
  · rw [if_neg hid] at hother ⊢
    exact h.explained f hf other hother

end Sound

/-! ## Upserts -/

variable [EmptyCollection J] [DecidableEq J]

theorem keeps_update (runId : Nat) (rule : Rule) (item : Item J) (status : Status)
    (hits : List String) :
    KeepsIdentity fun f : Finding J =>
      if f.rule = rule ∧ f.scope = item.scope then f.update runId item status hits else f := by
  constructor <;> intro f <;> split <;> rfl

/-- What an upsert leaves: the finding of the scope is updated, or there was none and a new one
is added. -/
inductive Upserted (t : Ledger J) (runId : Nat) (rule : Rule) (item : Item J) (status : Status)
    (hits : List String) (t' : Ledger J) : Prop
  | updated (found : Finding J) (hfound : found ∈ t.findings)
      (hkey : found.rule = rule ∧ found.scope = item.scope)
      (hfindings : t'.findings = t.findings.map fun f =>
        if f.rule = rule ∧ f.scope = item.scope then f.update runId item status hits else f)
  | inserted (hnone : ∀ f ∈ t.findings, ¬ (f.rule = rule ∧ f.scope = item.scope))
      (hfindings : t'.findings = t.findings ++
        [⟨t.nextId, runId, rule, item.scope, item.prompt, status, hits, none⟩])

theorem upserted (t : Ledger J) (runId : Nat) (rule : Rule) (item : Item J) (status : Status)
    (hits : List String) :
    Upserted t runId rule item status hits (t.upsertFinding runId rule item status hits).2 ∧
      (t.upsertFinding runId rule item status hits).2.nextId = t.nextId + 1 ∧
      (t.upsertFinding runId rule item status hits).2.generated = t.generated := by
  unfold upsertFinding
  split
  · rename_i found hfound
    have hkey := List.find?_some hfound
    simp only [Bool.and_eq_true, decide_eq_true_eq] at hkey
    exact ⟨.updated found (mem_of_find?_eq_some hfound) hkey rfl, rfl, rfl⟩
  · rename_i hnone
    refine ⟨.inserted ?_ rfl, rfl, rfl⟩
    intro f hf hkey
    have hf' := List.find?_eq_none.mp hnone f hf
    simp [hkey] at hf'

theorem Ledger.WellFormed.upsert {t : Ledger J} (ht : t.WellFormed) {runId : Nat} {rule : Rule}
    {item : Item J} {status : Status} {hits : List String} {t' : Ledger J}
    (h : Upserted t runId rule item status hits t') (hnext : t'.nextId = t.nextId + 1) :
    t'.WellFormed := by
  cases h with
  | updated found hfound hkey hfindings =>
    exact ht.map (keeps_update runId rule item status hits) hfindings (by omega)
  | inserted hnone hfindings =>
    constructor
    · intro f hf
      rw [hfindings, mem_append, mem_singleton] at hf
      rcases hf with hf | rfl
      · have hlt := ht.below f hf
        omega
      · show t.nextId < t'.nextId
        omega
    · rw [hfindings, pairwise_append]
      refine ⟨ht.distinct, pairwise_singleton .., ?_⟩
      intro f hf g hg
      rw [mem_singleton.mp hg]
      exact ⟨Nat.ne_of_lt (ht.below f hf), hnone f hf⟩

/-! ## The condition -/

/-- A statement of some run spares the run that is in this stage: it does not give another amount,
title, category or evidence to a finding that the run has selected and not dealt with, and it does
not resolve a finding that the run has recorded or decide its status the other way. -/
def Spares (U : Unicode) (t : Ledger J) (w : Stage J) : Statement J → Prop
  | .upsertFinding _ rule item _ hits =>
    (∀ f ∈ t.findings, f.rule = rule → f.scope = item.scope → f.prompt ≠ item.prompt →
      ∀ row ∈ w.pending, row.id ≠ f.id) ∧
    (w.ended = none → ∀ entry ∈ w.recorded, entry.1 = rule → entry.2.scope = item.scope →
      (guardHits U entry.2 = [] ↔ hits = []))
  | .resolveStale rule seen =>
    w.ended = none → ∀ entry ∈ w.recorded, entry.1 = rule → entry.2.scope.scopedId ∈ seen
  | _ => True

/-- `Spares` goes through the findings, the rows and the items. -/
instance (U : Unicode) (t : Ledger J) (w : Stage J) (c : Statement J) :
    Decidable (Spares U t w c) :=
  match c with
  | .upsertFinding .. => inferInstanceAs (Decidable (_ ∧ _))
  | .resolveStale .. => inferInstanceAs (Decidable (_ → _))
  | .startRun | .evaluate _ | .monotonic | .selectPending | .explain _ | .setExplanation ..
  | .finishRun .. => inferInstanceAs (Decidable True)

section Fits

variable {U : Unicode} {t t' : Ledger J} {w : Stage J}

theorem Fits.upsert (ht : t.WellFormed) (h : Fits U t w) {runId : Nat} {rule : Rule}
    {item : Item J} {hits : List String}
    (hupserted : Upserted t runId rule item (statusOf hits) hits t')
    (hnext : t'.nextId = t.nextId + 1) (hgenerated : t'.generated = t.generated)
    (hspares : Spares U t w (.upsertFinding runId rule item (statusOf hits) hits)) :
    Fits U t' w := by
  have ht' := ht.upsert hupserted hnext
  cases hupserted with
  | updated found hfound hkey hfindings =>
    refine h.map ht (keeps_update ..) hfindings (by omega) hgenerated ?_ ?_
    · intro f hf row hrow hid
      split
      · rename_i hfkey
        by_contra hne
        exact hspares.1 f hf hfkey.1 hfkey.2 (Ne.symm hne) row hrow hid.symm
      · rfl
    · intro hended f hf entry hentry hfentry hstatus
      split
      · rename_i hfkey
        have hiff := hspares.2 hended entry hentry (hfentry.1.symm.trans hfkey.1)
          (hfentry.2.symm.trans hfkey.2)
        show statusOf hits = statusOf (guardHits U entry.2)
        simp only [statusOf, hiff]
      · exact hstatus
  | inserted hnone hfindings =>
    refine ⟨?_, ?_, ?_⟩
    · intro row hrow
      obtain ⟨hlt, hsame⟩ := h.held row hrow
      refine ⟨by omega, ?_⟩
      intro f hf hid
      rw [hfindings, mem_append, mem_singleton] at hf
      rcases hf with hf | rfl
      · exact hsame f hf hid
      · exact absurd hid (Nat.ne_of_gt hlt)
    · rw [hgenerated]
      exact h.text
    · intro hended entry hentry
      obtain ⟨f, hf, hkey, hf'⟩ := (recorded_iff ht).mp (h.recorded hended entry hentry)
      refine (recorded_iff ht').mpr ⟨f, ?_, hkey, hf'⟩
      rw [hfindings]
      exact mem_append_left _ hf

theorem Upserted.recorded (ht' : t'.WellFormed) {runId : Nat} {rule : Rule} {item : Item J}
    (h : Upserted t runId rule item (statusOf (guardHits U item)) (guardHits U item) t') :
    Recorded U t' rule item := by
  rw [recorded_iff ht']
  cases h with
  | updated found hfound hkey hfindings =>
    refine ⟨found.update runId item (statusOf (guardHits U item)) (guardHits U item), ?_, hkey, rfl⟩
    rw [hfindings]
    exact mem_map.mpr ⟨found, hfound, if_pos hkey⟩
  | inserted hnone hfindings =>
    refine ⟨⟨t.nextId, runId, rule, item.scope, item.prompt, statusOf (guardHits U item),
      guardHits U item, none⟩, ?_, ⟨rfl, rfl⟩, rfl⟩
    rw [hfindings]
    exact mem_append_right _ (mem_singleton_self _)

omit [DecidableEq J] in
theorem Fits.resolveStale (ht : t.WellFormed) (h : Fits U t w) {rule : Rule} {seen : List String}
    (hspares : Spares U t w (.resolveStale rule seen)) : Fits U (t.resolveStale rule seen) w := by
  refine h.map ht (keeps_resolveStale rule seen) rfl (Nat.le_refl _) rfl ?_ ?_
  · intro f hf row hrow hid
    split <;> rfl
  · intro hended f hf entry hentry hkey hstatus
    split
    · rename_i hstale
      have hseen := hspares hended entry hentry (hkey.1.symm.trans hstale.1)
      rw [← hkey.2] at hseen
      refine absurd ?_ hstale.2.2
      unfold seenOrBlank
      rwa [if_neg (ne_nil_of_mem hseen)]
    · exact hstatus

end Fits

/-- An upsert keeps the tables sound: an explanation stays only where the finding says what it
said. -/
theorem Ledger.Sound.upsert {t t' : Ledger J} (h : t.Sound) {runId : Nat} {rule : Rule}
    {item : Item J} {status : Status} {hits : List String}
    (hupserted : Upserted t runId rule item status hits t') (hnext : t'.nextId = t.nextId + 1)
    (hgenerated : t'.generated = t.generated) : t'.Sound := by
  have ht' := h.wellFormed.upsert hupserted hnext
  cases hupserted with
  | updated found hfound hkey hfindings =>
    refine h.map (keeps_update runId rule item status hits) hfindings (by omega) ?_
    intro f hf text htext
    rw [hgenerated]
    by_cases hfkey : f.rule = rule ∧ f.scope = item.scope
    · rw [if_pos hfkey] at htext ⊢
      simp only [Finding.update] at htext ⊢
      split at htext
      · rename_i hprompt
        rw [← hprompt]
        exact h.explained f hf text htext
      · cases htext
    · rw [if_neg hfkey] at htext ⊢
      exact h.explained f hf text htext
  | inserted hnone hfindings =>
    refine ⟨ht', ?_⟩
    intro f hf text htext
    rw [hgenerated]
    rw [hfindings, mem_append, mem_singleton] at hf
    rcases hf with hf | rfl
    · exact h.explained f hf text htext
    · cases htext

section Step

variable {U : Unicode} {world : World J} {i : Nat} {t : Ledger J} {v : Stage J}

/-- An allowed statement that spares a run keeps the tables sound and breaks nothing that the run
relies on. -/
theorem exec_fits {c : Statement J} {r : Answer c} {t' : Ledger J} (ht : t.Sound)
    (hv : Fits U t v) (hallowed : (protocol U).allowed v c) (hexec : exec world i c t = some (r, t')) :
    t'.Sound ∧ ∀ w, Fits U t w → Spares U t w c → Fits U t' w := by
  cases c with
  | startRun =>
    cases hexec
    exact ⟨ht.of_findings rfl rfl fun _ h => h,
      fun w hw _ => hw.of_findings rfl rfl fun _ h => h⟩
  | evaluate rule =>
    cases hexec
    exact ⟨ht, fun w hw _ => hw⟩
  | upsertFinding runId rule item status hits =>
    obtain ⟨_, rfl, rfl⟩ := hallowed
    obtain ⟨hupserted, hnext, hgenerated⟩ := upserted t runId rule item _ (guardHits U item)
    cases hexec
    exact ⟨ht.upsert hupserted hnext hgenerated,
      fun w hw hspares => hw.upsert ht.wellFormed hupserted hnext hgenerated hspares⟩
  | resolveStale rule seen =>
    cases hexec
    exact ⟨ht.resolveStale rule seen, fun w hw hspares => hw.resolveStale ht.wellFormed hspares⟩
  | monotonic =>
    cases hexec
    exact ⟨ht, fun w hw _ => hw⟩
  | selectPending =>
    cases hexec
    exact ⟨ht, fun w hw _ => hw⟩
  | explain prompt =>
    cases hexec
    exact ⟨ht.of_findings rfl rfl fun _ h => mem_append_left _ h,
      fun w hw _ => hw.of_findings rfl rfl fun _ h => mem_append_left _ h⟩
  | setExplanation id text =>
    cases hexec
    refine ⟨ht.setExplanation ?_, fun w hw _ => hw.setExplanation ht.wellFormed id text⟩
    obtain ⟨⟨row, hrow, hid⟩, htext⟩ := hallowed
    intro f hf hfid
    rw [(hv.held row (mem_of_mem_head? hrow)).2 f hf (hfid.trans hid.symm)]
    exact hv.text row hrow text htext
  | finishRun runId summary =>
    cases hexec
    exact ⟨ht.of_findings rfl rfl fun _ h => h,
      fun w hw _ => hw.of_findings rfl rfl fun _ h => h⟩

theorem after_fits {c : Statement J} {r : Answer c} {t' : Ledger J} (ht : t.Sound)
    (hv : Fits U t' v) (ht' : t'.Sound) (hallowed : (protocol U).allowed v c)
    (hexec : exec world i c t = some (r, t')) : Fits U t' ((protocol U).after v c r) := by
  cases c with
  | startRun => exact hv
  | evaluate rule => exact ⟨hv.held, hv.text, hv.recorded⟩
  | upsertFinding runId rule item status hits =>
    obtain ⟨_, rfl, rfl⟩ := hallowed
    have hupserted := (upserted t runId rule item (statusOf (guardHits U item))
      (guardHits U item)).1
    cases hexec
    refine ⟨hv.held, hv.text, ?_⟩
    intro hended entry hentry
    rcases mem_cons.mp hentry with rfl | hentry
    · exact hupserted.recorded ht'.wellFormed
    · exact hv.recorded hended entry hentry
  | resolveStale rule seen =>
    cases hexec
    exact hv
  | monotonic => exact hv
  | selectPending =>
    cases hexec
    exact hv.select ht.wellFormed world
  | explain prompt =>
    obtain ⟨row, hrow, rfl⟩ := hallowed
    cases hexec
    generalize world.explain t.generated.length row.prompt = answer at hv ⊢
    cases answer with
    | none => exact hv.advance
    | some text =>
      show Fits U _ (if text = "" then v.advance else { v with text := some text })
      split
      · exact hv.advance
      · refine ⟨hv.held, ?_, hv.recorded⟩
        intro other hother text' htext'
        cases htext'
        cases Option.mem_unique hrow hother
        exact mem_append_right _ (mem_singleton_self _)
  | setExplanation id text =>
    cases hexec
    exact hv.advance
  | finishRun runId summary =>
    cases hexec
    exact ⟨nofun, nofun, nofun⟩

end Step

/-! ## The runs -/

abbrev RunThread (J : Type) := Thread (Statement J) Answer (Stage J) (Except String Summary)

abbrev Runs (J : Type) := System (Statement J) Answer (Stage J) (Ledger J) (Except String Summary)

def Runs.next (s : Runs J) (i : Nat) : Option (Statement J) :=
  match s.threads[i]? with
  | some ⟨_, some (.call c _)⟩ => some c
  | _ => none

/-- The statement that is executed spares every run, the one that issues it included. -/
def Undisturbed (U : Unicode) (s : Runs J) : Event Unit Nat → Prop
  | .act i => ∀ c ∈ s.next i, ∀ thread ∈ s.threads, Spares U s.shared thread.stage c
  | _ => True

/-- `Undisturbed` goes through the runs. -/
instance (U : Unicode) (s : Runs J) (event : Event Unit Nat) : Decidable (Undisturbed U s event) :=
  match event with
  | .act i => inferInstanceAs (Decidable (∀ c ∈ s.next i, _))
  | .start _ | .raise _ | .crash _ | .environment _ => inferInstanceAs (Decidable True)

/-- The tables are sound and every run can rely on what it relies on. -/
structure Runs.Sound (U : Unicode) (s : Runs J) : Prop where
  tables : s.shared.Sound
  fits : ∀ thread ∈ s.threads, Fits U s.shared thread.stage

section Runs

variable {U : Unicode} {world : World J} {s : Runs J}

omit [EmptyCollection J] [DecidableEq J] in
theorem after_caught {i : Nat} {v : Stage J} {c : Statement J} {r : Answer c}
    (h : caught world i c = some r) : (protocol U).after v c r = v := by
  cases c with
  | startRun | evaluate | monotonic | explain => cases h
  | upsertFinding | resolveStale | selectPending | setExplanation =>
    cases h
    rfl
  | finishRun runId summary =>
    simp only [caught] at h
    split at h
    · cases h
    · cases h
      rfl

omit [EmptyCollection J] [DecidableEq J] in
theorem Runs.Sound.set {t : Ledger J} (ht : t.Sound)
    (hfits : ∀ thread ∈ s.threads, Fits U t thread.stage) (i : Nat)
    {thread : RunThread J}
    (hthread : Fits U t thread.stage) : Runs.Sound U ⟨t, s.threads.set i thread⟩ := by
  refine ⟨ht, ?_⟩
  intro other hother
  rcases mem_or_eq_of_mem_set hother with hother | rfl
  · exact hfits other hother
  · exact hthread

theorem Runs.Sound.step (hyields : s.Yields (protocol U) fun _ _ => True) (hs : s.Sound U)
    {event : Event Unit Nat} (hcondition : Undisturbed U s event) :
    Runs.Sound U (s.step (machine U world) (protocol U) event) := by
  have hcrash : ∀ i, Runs.Sound U (s.crash (machine U world) (protocol U) i) :=
    fun i => Runs.Sound.set hs.tables hs.fits i Fits.initial
  have hmoves := s.step_moves (machine U world) (protocol U) event
  generalize s.step (machine U world) (protocol U) event = s' at hmoves ⊢
  cases hmoves with
  | start input =>
    refine ⟨hs.tables, ?_⟩
    intro thread hthread
    rcases mem_append.mp hthread with hthread | hthread
    · exact hs.fits thread hthread
    · rw [mem_singleton.mp hthread]
      exact Fits.initial
  | @act i stage c _ _ t' hi hexec =>
    have hnext : c ∈ s.next i := by simp [Runs.next, hi]
    have hallowed := (hyields.next hi).1
    have hstage := hs.fits _ (mem_of_getElem? hi)
    obtain ⟨ht', hfits⟩ := exec_fits hs.tables hstage hallowed hexec
    have hall : ∀ thread ∈ s.threads, Fits U t' thread.stage := fun thread hthread =>
      hfits _ (hs.fits thread hthread) (hcondition c hnext thread hthread)
    exact Runs.Sound.set ht' hall i
      (after_fits hs.tables (hall _ (mem_of_getElem? hi)) ht' hallowed hexec)
  | raise hi hcaught =>
    have hstage := hs.fits _ (mem_of_getElem? hi)
    refine Runs.Sound.set hs.tables hs.fits _ ?_
    rwa [after_caught hcaught]
  | dies i | crash i => exact hcrash i
  | environment seconds =>
    exact ⟨hs.tables.of_findings rfl rfl fun _ h => h,
      fun thread hthread => (hs.fits thread hthread).of_findings rfl rfl fun _ h => h⟩
  | stays => exact hs

end Runs

/-! ## The findings of a rule -/

/-- The findings of a rule, without their explanations. -/
def Ledger.findingsOf (t : Ledger J) (rule : Rule) : List (Finding J) :=
  (t.findings.filter fun f => f.rule = rule).map fun f => { f with explanation := none }

omit [EmptyCollection J] [DecidableEq J] in
theorem findings_of_map {t t' : Ledger J} {rule : Rule} {g : Finding J → Finding J}
    (hg : KeepsIdentity g) (hfindings : t'.findings = t.findings.map g)
    (hsame : ∀ f ∈ t.findings, f.rule = rule →
      { g f with explanation := none } = { f with explanation := none }) :
    t'.findingsOf rule = t.findingsOf rule := by
  unfold findingsOf
  rw [hfindings, filter_map, map_map]
  have hfilter : t.findings.filter ((fun f => decide (f.rule = rule)) ∘ g) =
      t.findings.filter fun f => f.rule = rule := by
    refine filter_congr fun f _ => ?_
    rw [Function.comp_apply, hg.rule]
  rw [hfilter]
  refine map_congr_left fun f hf => ?_
  rw [mem_filter, decide_eq_true_iff] at hf
  exact hsame f hf.1 hf.2

section Statements

variable {U : Unicode} {world : World J} {i : Nat} {t t' : Ledger J} {v : Stage J}

variable {c : Statement J} {r : Answer c}

/-- A statement of a run whose rule raised leaves the findings of the rule as they are, but for
their explanations. -/
theorem exec_raised (hallowed : (protocol U).allowed v c) (hexec : exec world i c t = some (r, t'))
    {rule : Rule} {message : String} (hraised : v.outcome rule = some (.raised message)) :
    t'.findingsOf rule = t.findingsOf rule := by
  cases c with
  | startRun | evaluate | monotonic | selectPending | explain | finishRun =>
    cases hexec
    rfl
  | upsertFinding runId other item status hits =>
    obtain ⟨⟨items, hreturned, _⟩, _⟩ := hallowed
    have hne : other ≠ rule := by
      intro h
      rw [h, hraised] at hreturned
      cases hreturned
    have hupserted := (upserted t runId other item status hits).1
    cases hexec
    cases hupserted with
    | updated found hfound hkey hfindings =>
      refine findings_of_map (keeps_update runId other item status hits) hfindings ?_
      intro f hf hrule
      rw [if_neg fun h => hne (h.1.symm.trans hrule)]
    | inserted hnone hfindings =>
      unfold findingsOf
      rw [hfindings, filter_append, filter_cons_of_neg (by simpa using hne)]
      simp
  | resolveStale other seen =>
    obtain ⟨items, hreturned, _⟩ := hallowed
    have hne : other ≠ rule := by
      intro h
      rw [h, hraised] at hreturned
      cases hreturned
    cases hexec
    refine findings_of_map (keeps_resolveStale other seen) rfl ?_
    intro f hf hrule
    rw [if_neg fun h : f.stale other seen => hne (h.1.symm.trans hrule)]
  | setExplanation id text =>
    cases hexec
    refine findings_of_map (keeps_setExplanation id text) rfl ?_
    intro f hf _
    split <;> rfl

theorem exec_resolved (ht : t.WellFormed) (hallowed : (protocol U).allowed v c)
    (hexec : exec world i c t = some (r, t')) {f f' : Finding J} (hf : f ∈ t.findings)
    (hf' : f' ∈ t'.findings) (hid : f'.id = f.id) (hopen : f.status ≠ .resolved)
    (hresolved : f'.status = .resolved) :
    ∃ items, v.outcome f.rule = some (.returned items) ∧ ∀ item ∈ items, item.scope ≠ f.scope := by
  -- The finding comes from one that was there, which is this one.
  have hmap : ∀ {g : Finding J → Finding J}, KeepsIdentity g → f' ∈ t.findings.map g → f' = g f := by
    intro g hg hmem
    obtain ⟨f₀, hf₀, rfl⟩ := mem_map.mp hmem
    rw [hg.id] at hid
    rw [ht.eq_of_id hf₀ hf hid]
  have hsame : f' ∈ t.findings → False := by
    intro hmem
    rw [ht.eq_of_id hmem hf hid] at hresolved
    exact hopen hresolved
  cases c with
  | startRun | evaluate | monotonic | selectPending | explain | finishRun =>
    cases hexec
    exact (hsame hf').elim
  | upsertFinding runId rule item status hits =>
    obtain ⟨_, _, rfl⟩ := hallowed
    have hstatus : statusOf hits ≠ .resolved := (status_of_iff.mpr rfl).1
    have hupserted := (upserted t runId rule item (statusOf hits) hits).1
    cases hexec
    cases hupserted with
    | updated found hfound hkey hfindings =>
      rw [hmap (keeps_update runId rule item (statusOf hits) hits) (hfindings ▸ hf')]
        at hresolved
      split at hresolved
      · exact absurd hresolved hstatus
      · exact absurd hresolved hopen
    | inserted hnone hfindings =>
      rw [hfindings, mem_append, mem_singleton] at hf'
      rcases hf' with hf' | rfl
      · exact (hsame hf').elim
      · exact absurd hresolved hstatus
  | resolveStale rule seen =>
    obtain ⟨items, hreturned, rfl, _⟩ := hallowed
    cases hexec
    rw [hmap (keeps_resolveStale rule (seenScopedIds items)) hf'] at hresolved
    split at hresolved
    · rename_i hstale
      refine ⟨items, hstale.1 ▸ hreturned, ?_⟩
      intro item hitem hscope
      have hseen : f.scope.scopedId ∈ seenScopedIds items :=
        mem_map.mpr ⟨item, hitem, by rw [hscope]⟩
      refine hstale.2.2 ?_
      unfold seenOrBlank
      rwa [if_neg (ne_nil_of_mem hseen)]
    · exact absurd hresolved hopen
  | setExplanation id text =>
    cases hexec
    rw [hmap (keeps_setExplanation id text) hf'] at hresolved
    split at hresolved <;> exact absurd hresolved hopen

theorem after_ended (hallowed : (protocol U).allowed v c) (hopen : v.ended = none)
    {status : RunStatus} (hended : ((protocol U).after v c r).ended = some status)
    (hstatus : status ≠ .failed) (hv : Fits U t v) (hexec : exec world i c t = some (r, t'))
    {rule : Rule} {items : List (Item J)}
    (hreturned : ((protocol U).after v c r).outcome rule = some (.returned items)) :
    ∀ item ∈ items, Recorded U t' rule item := by
  have hnever : v.ended = some status → False := by
    intro h
    rw [hopen] at h
    cases h
  cases c with
  | startRun | evaluate | monotonic | selectPending | upsertFinding | resolveStale
  | setExplanation =>
    cases hexec
    exact (hnever hended).elim
  | explain prompt =>
    cases r with
    | none => exact (hnever hended).elim
    | some text =>
      replace hended :
        (if text = "" then v.advance else { v with text := some text }).ended = some status :=
        hended
      split at hended <;> exact (hnever hended).elim
  | finishRun runId summary =>
    cases hexec
    cases hended
    intro item hitem
    exact hv.recorded hopen _ (hallowed hstatus rule items hreturned item hitem)

end Statements

/-- What a step of the runs, from one state to the next, does to the ledger. -/
structure Honest (U : Unicode) (s s' : Runs J) (event : Event Unit Nat) : Prop where
  resolved : ∀ f ∈ s.shared.findings, ∀ f' ∈ s'.shared.findings, f'.id = f.id →
    f.status ≠ .resolved → f'.status = .resolved →
    ∃ i thread items, event = .act i ∧ s.threads[i]? = some thread ∧
      thread.stage.outcome f.rule = some (.returned items) ∧
      ∀ item ∈ items, item.scope ≠ f.scope
  raised : ∀ (i : Nat) (thread : RunThread J) rule message, event = .act i → s.threads[i]? = some thread →
    thread.stage.outcome rule = some (.raised message) →
    s'.shared.findingsOf rule = s.shared.findingsOf rule
  ended : ∀ (i : Nat) (thread thread' : RunThread J) status rule items, s.threads[i]? = some thread →
    s'.threads[i]? = some thread' → thread.stage.ended = none →
    thread'.stage.ended = some status → status ≠ .failed →
    thread'.stage.outcome rule = some (.returned items) →
    ∀ item ∈ items, Recorded U s'.shared rule item
  explained : s'.shared.Explained

section Steps

variable {U : Unicode} {world : World J} {s s' : Runs J}

omit [EmptyCollection J] [DecidableEq J] in
theorem Honest.quiet {event : Event Unit Nat} (hs : s.Sound U) (hs' : s'.Sound U)
    (hfindings : s'.shared.findings = s.shared.findings)
    (hended : ∀ (i : Nat) (thread thread' : RunThread J), s.threads[i]? = some thread →
      s'.threads[i]? = some thread' → thread'.stage.ended = thread.stage.ended ∨
      thread'.stage.ended = none) : Honest U s s' event := by
  refine ⟨?_, ?_, ?_, hs'.tables.explained⟩
  · intro f hf f' hf' hid hopen hresolved
    rw [hfindings] at hf'
    rw [hs.tables.wellFormed.eq_of_id hf' hf hid] at hresolved
    exact absurd hresolved hopen
  · intro i thread rule message _ _ _
    unfold findingsOf
    rw [hfindings]
  · intro i thread thread' status rule items hi hi' hopen hstatus
    rcases hended i thread thread' hi hi' with h | h
    · rw [h, hopen] at hstatus
      cases hstatus
    · rw [h] at hstatus
      cases hstatus

omit [EmptyCollection J] [DecidableEq J] in
theorem getElem?_set_cases {threads : List (RunThread J)} {i j : Nat}
    {moved thread' : RunThread J} (h : (threads.set i moved)[j]? = some thread') :
    (j = i ∧ thread' = moved) ∨ threads[j]? = some thread' := by
  rw [List.getElem?_set] at h
  split at h
  · rename_i hij
    split at h
    · cases h
      exact .inl ⟨hij.symm, rfl⟩
    · cases h
  · exact .inr h

theorem honest_step (hyields : s.Yields (protocol U) fun _ _ => True) (hs : s.Sound U)
    {event : Event Unit Nat} (hcondition : Undisturbed U s event) :
    Honest U s (s.step (machine U world) (protocol U) event) event := by
  have hs' : Runs.Sound U (s.step (machine U world) (protocol U) event) :=
    hs.step hyields hcondition
  have hcrash : ∀ i, s.step (machine U world) (protocol U) event =
      s.crash (machine U world) (protocol U) i →
      Honest U s (s.step (machine U world) (protocol U) event) event := by
    intro i hstep
    refine Honest.quiet hs hs' (by rw [hstep]; rfl) ?_
    intro j thread thread' hj hj'
    rw [hstep] at hj'
    rcases getElem?_set_cases hj' with ⟨_, rfl⟩ | hj'
    · exact .inr rfl
    · rw [hj] at hj'
      cases hj'
      exact .inl rfl
  have hstay : s.step (machine U world) (protocol U) event = s →
      Honest U s (s.step (machine U world) (protocol U) event) event := by
    intro hstep
    refine Honest.quiet hs hs' (by rw [hstep]) ?_
    intro j thread thread' hj hj'
    rw [hstep, hj] at hj'
    cases hj'
    exact .inl rfl
  cases event with
  | start input =>
    refine Honest.quiet hs hs' rfl ?_
    intro j thread thread' hj hj'
    simp only [System.step] at hj'
    rw [List.getElem?_append_left (List.getElem?_eq_some_iff.mp hj).1, hj] at hj'
    cases hj'
    exact .inl rfl
  | act i =>
    cases hi : s.threads[i]? with
    | none => exact hstay (by simp [System.step, System.act, hi])
    | some thread =>
      obtain ⟨stage, program⟩ := thread
      rcases program with _ | _ | ⟨c, next⟩
      · exact hstay (by simp [System.step, System.act, hi])
      · exact hstay (by simp [System.step, System.act, hi])
      · cases hexec : exec world i c s.shared with
        | none => exact hstay (by simp [System.step, System.act, hi, machine, hexec])
        | some result =>
          obtain ⟨r, t'⟩ := result
          have hallowed := (hyields.next hi).1
          have hfits := hs.fits _ (mem_of_getElem? hi)
          have hstep := System.step_act (M := machine U world) (P := protocol U) hi hexec
          rw [hstep] at hs' ⊢
          refine ⟨?_, ?_, ?_, hs'.tables.explained⟩
          · intro f hf f' hf' hid hopen hresolved
            obtain ⟨items, hreturned, hitems⟩ := exec_resolved hs.tables.wellFormed hallowed
              hexec hf hf' hid hopen hresolved
            exact ⟨i, _, items, rfl, hi, hreturned, hitems⟩
          · rintro j thread rule message ⟨rfl⟩ hj hraised
            rw [hi] at hj
            cases hj
            exact exec_raised hallowed hexec hraised
          · intro j thread thread' status rule items hj hj' hopen hended hstatus hreturned
            rcases getElem?_set_cases hj' with ⟨rfl, rfl⟩ | hj'
            · rw [hi] at hj
              cases hj
              exact after_ended hallowed hopen hended hstatus hfits hexec hreturned
            · rw [hj] at hj'
              cases hj'
              rw [hopen] at hended
              cases hended
  | raise i =>
    cases hi : s.threads[i]? with
    | none => exact hstay (by simp [System.step, System.raise, hi])
    | some thread =>
      obtain ⟨stage, program⟩ := thread
      rcases program with _ | _ | ⟨c, next⟩
      · exact hstay (by simp [System.step, System.raise, hi])
      · exact hstay (by simp [System.step, System.raise, hi])
      · cases hcaught : caught world i c with
        | none => exact hcrash i (by simp [System.step, System.raise, hi, machine, hcaught])
        | some r =>
          have hstep : s.step (machine U world) (protocol U) (.raise i) =
              ⟨s.shared, s.threads.set i ⟨stage, some (next r)⟩⟩ := by
            simp [System.step, System.raise, hi, machine, hcaught, after_caught hcaught]
          refine Honest.quiet hs hs' (by rw [hstep]) ?_
          intro j thread thread' hj hj'
          rw [hstep] at hj'
          rcases getElem?_set_cases hj' with ⟨rfl, rfl⟩ | hj'
          · rw [hi] at hj
            cases hj
            exact .inl rfl
          · rw [hj] at hj'
            cases hj'
            exact .inl rfl
  | crash i => exact hcrash i rfl
  | environment seconds =>
    refine Honest.quiet hs hs' rfl ?_
    intro j thread thread' hj hj'
    cases hj.symm.trans hj'
    exact .inl rfl

end Steps

/-- The tables before the first run. -/
def Ledger.empty : Ledger J :=
  ⟨[], 1, [], 0, []⟩

omit [EmptyCollection J] [DecidableEq J] in
theorem Ledger.sound_empty : (empty : Ledger J).Sound :=
  ⟨⟨nofun, List.Pairwise.nil⟩, nofun⟩

/-- **The findings ledger.** In every interleaving of runs in which the statements leave the
findings of other runs alone, whatever the rules and the model answer and whichever statements
raise, every step treats the ledger honestly. -/
theorem findings_ledger_honest (U : Unicode) (world : World J) (events : List (Event Unit Nat))
    (event : Event Unit Nat)
    (hmeets : System.Meets (machine U world) (protocol U) (Undisturbed U) ⟨empty, []⟩
      (events ++ [event])) :
    Honest U (System.run (machine U world) (protocol U) ⟨empty, []⟩ events)
      (System.run (machine U world) (protocol U) ⟨empty, []⟩ (events ++ [event]))
      event := by
  obtain ⟨hbefore, hlast, _⟩ := System.meets_append.mp hmeets
  obtain ⟨hyields, hsound⟩ := System.run_yields (Q := fun _ _ => True)
    (fun _ => follows_run U)
    (fun s event hyields (hs : Runs.Sound U s) hcondition => hs.step hyields hcondition)
    hbefore nofun
    ⟨sound_empty, nofun⟩
  rw [System.run_concat]
  exact honest_step hyields hsound hlast

/-! ## An amount that changes between the prompt and the answer -/

/-- An unattached volume with its monthly savings. -/
def volume (savings : Rat) : Item (List String) where
  resourceId := "vol-1"
  title := "Unattached EBS volume"
  category := "storage"
  accountId := none
  region := some "ap-northeast-2"
  monthlySavingsUsd := some savings
  evidence := none
  tags := none
  lookbackDays := none
  stale := false

/-- The first run finds the volume at $9.12, the later ones at $12.40. The model answers every
call. -/
def repricedWorld : World (List String) where
  evaluate i rule :=
    if rule = .ebsUnattached then ⟨.returned [volume (if i = 0 then 912 / 100 else 1240 / 100)], 0⟩
    else ⟨.returned [], 1⟩
  explain _ _ := some "사용하지 않는 볼륨입니다."
  order rows := rows
  order_perm _ := List.Perm.refl _
  exception _ _ := "connection lost"

/-- A run that executes its next statements. -/
def acts (i n : Nat) : List (Event Unit Nat) :=
  List.replicate n (.act i)

/-- One run on its own, to its end. -/
theorem findings_ledger_honest_one_run : Honest Unicode.ascii
      (System.run (machine Unicode.ascii repricedWorld) (protocol Unicode.ascii) ⟨empty, []⟩
        (.start () :: acts 0 13))
      (System.run (machine Unicode.ascii repricedWorld) (protocol Unicode.ascii) ⟨empty, []⟩
        (.start () :: acts 0 13 ++ [.act 0])) (.act 0) :=
  findings_ledger_honest Unicode.ascii repricedWorld (.start () :: acts 0 13) (.act 0)
    (by decide +kernel)

/-- The second run upserts the volume at its new amount after the first one has its text for the
old amount and before it stores it. -/
def repricedRun : List (Event Unit Nat) :=
  .start () :: acts 0 12 ++ .start () :: acts 1 3 ++ acts 0 1

/-- The explanation of the volume was not generated from the amount next to it. -/
theorem findings_ledger_stale_explanation :
    ¬ (System.run (machine Unicode.ascii repricedWorld) (protocol Unicode.ascii) ⟨empty, []⟩
      repricedRun).shared.Explained := by
  unfold Ledger.Explained
  decide +kernel

end AwsOps.Finops
