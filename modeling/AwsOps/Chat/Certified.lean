import AwsOps.Chat.Closure

/-!
# What a successful answer certifies

Evidence is a success only when nothing in it is marked and each domain is complete. Marking an
answer or one of its domains, or weakening a status, never makes its evidence a success.
-/

namespace AwsOps.Chat

open List Outcome ToolReceipt

open Js (Fields get set keys DeepEq DeepItems DeepFields)

variable {engine : Engine}

/-! ## Deep equality -/

theorem Normal.deepEq_tidy {r : ToolReceipt} (h : Normal r) : DeepEq r.tidy.json r.json := by
  unfold json
  rw [h.isEmpty_tidy]
  refine .obj (.append (.refl _) ?_) (.refl _)
  cases hempty : r.quality.isEmpty with
  | true => exact .refl _
  | false => exact .cons "quality" (.obj (.refl _) h.quality.quality_perm) .nil

theorem NormalDomain.deepEq_tidy {d : DomainOutcome} (h : NormalDomain engine d) :
    DeepEq d.tidy.json d.json := by
  have hreceipts : DeepItems ((d.receipts.map tidy).map json)
      (d.receipts.map json) := by
    rw [map_map]
    exact .map fun r hr => (h.bounded.normal r hr).deepEq_tidy
  exact .obj (.cons "gateway" (.refl _) (.cons "status" (.refl _)
    (.cons "receipts" (.arr hreceipts) (.refl _)))) (.refl _)

theorem NormalEvidence.deepEq_tidy {e : ChatEvidence} (h : NormalEvidence engine e) :
    DeepEq e.tidy.json e.json := by
  have hdomains : DeepItems ((e.domains.map DomainOutcome.tidy).map DomainOutcome.json)
      (e.domains.map DomainOutcome.json) := by
    rw [map_map]
    exact .map fun d hd => (h.domains d hd).deepEq_tidy
  exact .obj (.cons "version" (.refl _) (.cons "status" (.refl _)
    (.cons "domains" (.arr hdomains) (.refl _)))) (.refl _)

/-! ## Certificates -/

theorem positive_of_aggregate {states : List Outcome} (h : (aggregate states).positive = true) :
    ∀ s ∈ states, s.positive = true := by
  intro s hs
  unfold aggregate at h
  split at h
  · cases h
  · rename_i hpartly
    split at h
    · split at h
      · cases h
      · rename_i hweak
        have hnot : ¬(s == error || s == unverified) = true := fun hbad =>
          hweak (any_eq_true.mpr ⟨s, hs, hbad⟩)
        have hne : s ≠ .partly := by
          intro heq
          exact hpartly (contains_iff_mem.mpr (heq ▸ hs))
        cases s <;> simp_all [positive]
    · split at h
      · split at h <;> cases h
      · cases h

theorem aggregate_eq_success_iff {states : List Outcome} : aggregate states = .success ↔
      (∀ s ∈ states, s.positive = true) ∧ success ∈ states := by
  constructor
  · intro h
    refine ⟨positive_of_aggregate (by rw [h]; rfl), ?_⟩
    unfold aggregate at h
    split at h
    · cases h
    · split at h
      · split at h
        · cases h
        · split at h
          · rename_i hsuccess
            exact contains_iff_mem.mp hsuccess
          · cases h
      · split at h
        · split at h <;> cases h
        · cases h
  · intro ⟨hall, hsome⟩
    have hpartly : ¬states.contains .partly = true := fun hmem =>
      absurd (hall _ (contains_iff_mem.mp hmem)) (by decide)
    have hany : states.any positive = true := any_eq_true.mpr ⟨_, hsome, rfl⟩
    have hweak : ¬(states.any fun s => s == .error || s == .unverified) = true := by
      intro hbad
      obtain ⟨s, hs, hbad⟩ := any_eq_true.mp hbad
      have hpositive := hall s hs
      cases s <;> revert hbad hpositive <;> decide
    have hcontains : states.contains .success = true := contains_iff_mem.mpr hsome
    rw [aggregate, if_neg hpartly, if_pos hany, if_neg hweak, if_pos hcontains]

/-- What is certified of a receipt: a result, or none, of a quality that is complete. -/
def ToolReceipt.Certified (r : ToolReceipt) : Prop :=
  (r.outcome = .known .success ∨ r.outcome = .known .empty) ∧ incomplete r.quality = false

/-- What is certified of a domain: nothing in it is marked, each receipt was counted, and each
receipt is certified. -/
structure DomainOutcome.Certified (d : DomainOutcome) : Prop where
  truncated : d.truncated = false
  invalid : d.invalid = false
  completion : d.completion = some d.receipts.length
  receipts : ∀ r ∈ d.receipts, r.Certified

/-- What is certified of an answer: nothing in it is marked, each domain is certified, and there is
a receipt with a result. -/
structure ChatEvidence.Certified (e : ChatEvidence) : Prop where
  truncated : e.truncated = false
  invalid : e.invalid = false
  domains : ∀ d ∈ e.domains, d.Certified
  result : ∃ d ∈ e.domains, ∃ r ∈ d.receipts, r.outcome = .known .success

theorem Normal.certified {r : ToolReceipt} (h : Normal r) (hstate : r.state.positive = true) :
    r.Certified := by
  have houtcome := h.outcome
  unfold state at hstate
  cases hknown : r.outcome with
  | unfinished =>
    rw [hknown] at hstate
    cases hstate
  | known outcome =>
    rw [hknown] at hstate houtcome
    refine ⟨?_, ?_⟩
    · rw [hknown]
      cases outcome with
      | success => exact .inl rfl
      | empty => exact .inr rfl
      | error | unverified | partly => cases hstate
    · refine Bool.eq_false_iff.mpr fun hbad => ?_
      cases hfinished : r.terminalObservedAt <;> cases outcome <;>
        simp_all [receiptOutcome, positive]

theorem KeptStatus.eq_of_positive {computed status : Outcome} (h : KeptStatus computed status)
    (hpositive : status.positive = true) : computed = status := by
  unfold KeptStatus conservativeStatus at h
  rw [read_text] at h
  cases status <;> cases computed <;> simp_all [positive]

theorem NormalDomain.certified {d : DomainOutcome} (h : NormalDomain engine d)
    (hpositive : d.status.positive = true) :
    d.Certified ∧ aggregate (d.receipts.map state) = d.status := by
  have hcomputed := h.status.eq_of_positive hpositive
  unfold computedStatus at hcomputed
  dsimp only at hcomputed
  split at hcomputed
  · rw [← hcomputed] at hpositive
    cases hpositive
  · rename_i hneither
    have hstates : (aggregate (d.receipts.map state)).positive = true := by
      rw [hcomputed]
      exact hpositive
    rw [hstates, Bool.and_true, Bool.or_eq_true, not_or] at hneither
    obtain ⟨htruncated, hcompleted⟩ := hneither
    have htruncated : d.truncated = false := Bool.eq_false_iff.mpr htruncated
    have hcompletion : d.completion = some d.receipts.length := by
      cases hcount : d.completion with
      | none =>
        rw [hcount] at hcompleted
        exact absurd rfl hcompleted
      | some receiptCount =>
        by_contra hne
        have hne : receiptCount ≠ d.receipts.length := fun heq => hne (heq ▸ rfl)
        have homitted := h.counted receiptCount hcount hne
        rw [htruncated] at homitted
        cases homitted
    have hinvalid : d.invalid = false := by
      refine Bool.eq_false_iff.mpr fun hinvalid => ?_
      have hbad := h.invalid hinvalid
      rw [hpositive] at hbad
      cases hbad
    refine ⟨⟨htruncated, hinvalid, hcompletion, fun r hr => ?_⟩, hcomputed⟩
    exact (h.bounded.normal r hr).certified
      (positive_of_aggregate hstates _ (mem_map_of_mem hr))

theorem NormalEvidence.certified {e : ChatEvidence} (h : NormalEvidence engine e)
    (hsuccess : e.status = .success) : e.Certified := by
  have hpositive : e.status.positive = true := by
    rw [hsuccess]
    rfl
  have hunmarked : (e.truncated || e.invalid) = false := by
    refine Bool.eq_false_iff.mpr fun hmarked => ?_
    have hbad := h.marked hmarked
    rw [hpositive] at hbad
    cases hbad
  obtain ⟨htruncated, hinvalid⟩ := Bool.or_eq_false_iff.mp hunmarked
  have hcomputed := h.status.eq_of_positive hpositive
  obtain ⟨hall, hsome⟩ := aggregate_eq_success_iff.mp (hcomputed.trans hsuccess)
  have hdomains : ∀ d ∈ e.domains, d.Certified := fun d hd =>
    ((h.domains d hd).certified (hall _ (mem_map_of_mem hd))).1
  obtain ⟨d, hd, hstatus⟩ := mem_map.mp hsome
  have haggregate := ((h.domains d hd).certified (by rw [hstatus]; rfl)).2
  obtain ⟨r, hr, hstate⟩ := mem_map.mp
    (aggregate_eq_success_iff.mp (haggregate.trans hstatus)).2
  refine ⟨htruncated, hinvalid, hdomains, d, hd, r, hr, ?_⟩
  unfold state at hstate
  cases houtcome : r.outcome with
  | known outcome =>
    rw [houtcome] at hstate
    exact congrArg ReceiptOutcome.known hstate
  | unfinished =>
    rw [houtcome] at hstate
    cases hstate

/-! ## Markers -/

/-- A marker of uncertainty is added: `truncated` or `invalid` is set to a value that is not false,
or the status is replaced by one that is weaker. -/
inductive Marks (o : Fields) : Fields → Prop
  | flag {key : String} {value : Js} (hkey : key = "truncated" ∨ key = "invalid")
      (hvalue : isFalse (some value) = false) : Marks o (set o key value)
  | weaker {status : Outcome} (hstatus : status.positive = false) :
      Marks o (set o "status" (.str status.text))
  | absent (hstatus : get o "status" = some (.str Outcome.success.text)) :
      Marks o (set o "status" (.str Outcome.empty.text))

/-- A marker of uncertainty is added to an answer or to one of its domains. -/
inductive MarksEvidence : Js → Js → Prop
  | answer {o o' : Fields} (h : Marks o o') : MarksEvidence (.obj o) (.obj o')
  | domain {o d d' : Fields} {before after : List Js}
      (hdomains : get o "domains" = some (.arr (before ++ .obj d :: after))) (h : Marks d d') :
      MarksEvidence (.obj o) (.obj (set o "domains" (.arr (before ++ .obj d' :: after))))

def Succeeds (engine : Engine) (value : Js) : Prop :=
  ∃ e, normalizeEvidence engine value = some (some e) ∧ e.status = .success

/-- An answer that nothing at its own level keeps from being a success. -/
structure Unmarked (o : Fields) : Prop where
  version : isOne (get o "version") = true
  domains : isArray (get o "domains") = true
  few : (items (get o "domains")).length ≤ 3
  truncated : isTrue (get o "truncated") = false
  invalid : isTrue (get o "invalid") = false
  wellFormed : malformedMarker o = false
  status : read (get o "status") = some .success
  synthesis : (get o "synthesis").any (isOneOf ["interrupted"]) = false

theorem conservativeStatus_eq_success_iff {computed : Outcome} {incoming : Option Js} :
    conservativeStatus computed incoming = .success ↔ computed = .success ∧
        (read incoming = none ∨ read incoming = some .success) := by
  unfold conservativeStatus
  cases read incoming with
  | none => simp
  | some outcome => cases outcome <;> cases computed <;> simp

theorem map_some_filterMap_id {α : Type} {xs : List (Option α)}
    (h : xs.any Option.isNone = false) : (xs.filterMap id).map some = xs := by
  induction xs with
  | nil => rfl
  | cons x rest ih =>
    rw [any_cons, Bool.or_eq_false_iff] at h
    cases x with
    | none => cases h.1
    | some x => rw [filterMap_cons, id, map_cons, ih h.2]

variable {o : Fields} {value : Js}

/-- The evidence of an answer is a success when nothing at its own level is marked and its domains
make up a success. -/
theorem succeeds_iff : Succeeds engine (.obj o) ↔ Unmarked o ∧ ∃ domains : List DomainOutcome,
        List.Forall₂ (fun value d => normalizeDomain engine value = some (some d))
          (items (get o "domains")) domains ∧
        aggregate (domains.map DomainOutcome.status) = .success := by
  constructor
  · intro ⟨e, he, hsuccess⟩
    have hcertified := (normal_of_normalizeEvidence he).certified hsuccess
    have htruncated := hcertified.truncated
    have hinvalid := hcertified.invalid
    unfold normalizeEvidence at he
    dsimp only [obj] at he
    split at he
    · cases he
    · rename_i hread
      simp only [Bool.or_eq_true, Bool.not_eq_true', not_or, Bool.not_eq_false] at hread
      simp only [Option.bind_eq_bind, Option.bind_eq_some_iff] at he
      obtain ⟨normalized, hnormalized, he⟩ := he
      have hmapM := mapM_eq_some_iff.mp hnormalized
      cases he
      dsimp only at htruncated hinvalid hsuccess
      rw [htruncated, hinvalid, Bool.or_self, Bool.false_and, if_neg Bool.false_ne_true] at hsuccess
      simp only [Bool.or_eq_false_iff, decide_eq_false_iff_not, Nat.not_lt] at htruncated hinvalid
      obtain ⟨⟨⟨hinvalid, hmalformed⟩, hstatus⟩, hdropped⟩ := hinvalid
      split at hsuccess
      · cases hsuccess
      · rename_i hsynthesis
        obtain ⟨haggregate, hincoming⟩ := conservativeStatus_eq_success_iff.mp hsuccess
        have hincoming : read (get o "status") = some .success := by
          rcases hincoming with hnone | hincoming
          · rw [hnone] at hstatus
            cases hstatus
          · exact hincoming
        refine ⟨⟨hread.1, hread.2, htruncated.2, htruncated.1, hinvalid, hmalformed, hincoming,
          Bool.eq_false_iff.mpr hsynthesis⟩, normalized.filterMap id, ?_, haggregate⟩
        rw [take_of_length_le htruncated.2] at hmapM
        -- no domain was dropped
        have hsome : (normalized.filterMap id).map some = normalized :=
          map_some_filterMap_id hdropped
        rw [← hsome, List.forall₂_map_right_iff] at hmapM
        exact hmapM
  · intro ⟨h, domains, hdomains, haggregate⟩
    have hmapM : (items (get o "domains")).mapM (normalizeDomain engine) =
        some (domains.map some) := by
      rw [mapM_eq_some_iff, List.forall₂_map_right_iff]
      exact hdomains
    have hall : (domains.map some).any Option.isNone = false := by
      refine any_eq_false.mpr fun d hd => ?_
      obtain ⟨d', -, rfl⟩ := mem_map.mp hd
      exact Bool.false_ne_true
    have hsame : (domains.map some).filterMap id = domains := by
      rw [filterMap_map]
      exact filterMap_some
    have hkept : conservativeStatus (aggregate (domains.map DomainOutcome.status))
        (get o "status") = .success :=
      conservativeStatus_eq_success_iff.mpr ⟨haggregate, .inr h.status⟩
    have hmany : decide ((items (get o "domains")).length > 3) = false :=
      decide_eq_false (Nat.not_lt.mpr h.few)
    have hobj : obj (some (.obj o)) = o := rfl
    unfold Succeeds normalizeEvidence
    dsimp only
    rw [hobj]
    simp only [h.version, h.domains, take_of_length_le h.few, hmapM, h.truncated,
      h.invalid, h.wellFormed, h.status, h.synthesis, hmany, hall, hsame, answerEvidence, hkept,
      Option.isNone_some, Bool.not_true, Bool.or_false, Bool.false_and, Bool.false_eq_true,
      if_false, Option.bind_eq_bind, Option.bind_some]
    exact ⟨_, rfl, rfl⟩

theorem wellFormed_marker (h : malformedMarker o = false) {key : String}
    (hkey : key = "truncated" ∨ key = "invalid") (hvalue : get o key = some value) :
    isBoolean value = true := by
  unfold malformedMarker at h
  simp only [any_cons, any_nil, Bool.or_false, Bool.or_eq_false_iff] at h
  rcases hkey with rfl | rfl
  · have hboolean := h.2
    rw [hvalue, Option.any_some] at hboolean
    simpa using hboolean
  · have hboolean := h.1
    rw [hvalue, Option.any_some] at hboolean
    simpa using hboolean

theorem isTrue_of_boolean (h : isBoolean value = true)
    (hvalue : isFalse (some value) = false) : isTrue (some value) = true := by
  cases value with
  | bool b => cases b with
    | true => rfl
    | false => cases hvalue
  | null | num | str | arr | obj => cases h

theorem get_set_self (o : Fields) (key : String) (value : Js) :
    get (set o key value) key = some value := by
  rw [Js.get_set, if_pos rfl]

theorem get_set_of_ne {key name : String} (h : key ≠ name) :
    get (set o key value) name = get o name := by
  rw [Js.get_set, if_neg h]

theorem Marks.not_unmarked {o' : Fields} (h : Marks o o') : ¬Unmarked o' := by
  intro hun
  cases h with
  | flag hkey hvalue =>
    rename_i key value
    have hget := get_set_self o key value
    have htrue := isTrue_of_boolean (wellFormed_marker hun.wellFormed hkey hget) hvalue
    rcases hkey with rfl | rfl
    · have hfalse := hun.truncated
      rw [hget, htrue] at hfalse
      cases hfalse
    · have hfalse := hun.invalid
      rw [hget, htrue] at hfalse
      cases hfalse
  | weaker hstatus =>
    have hread := hun.status
    rw [get_set_self, read_text] at hread
    rw [Option.some.inj hread] at hstatus
    cases hstatus
  | absent =>
    have hread := hun.status
    rw [get_set_self, read_text] at hread
    cases hread

theorem normalizeDomain_positive {d : Fields} {n : DomainOutcome}
    (hn : normalizeDomain engine (.obj d) = some (some n)) (hpositive : n.status.positive = true) :
    invalidDomain d = false ∧ isTrue (get d "truncated") = false ∧
      (∀ status, read (get d "status") = some status → status.positive = true) := by
  have hcertified := ((normal_of_normalizeDomain hn).certified hpositive).1
  have htruncated := hcertified.truncated
  have hinvalid := hcertified.invalid
  have hobj : obj (some (.obj d)) = d := rfl
  unfold normalizeDomain at hn
  dsimp only at hn
  rw [hobj] at hn
  split at hn
  · cases hn
  · simp only [Option.bind_eq_bind, Option.bind_eq_some_iff] at hn
    obtain ⟨truncated, hread, hn⟩ := hn
    rw [domainOutcome_restored] at hn
    dsimp only at hn
    split at hn
    · cases hn
      cases hinvalid
    · rename_i hvalid
      cases hn
      dsimp only at htruncated hpositive
      rw [Bool.or_eq_false_iff] at htruncated
      refine ⟨Bool.eq_false_iff.mpr hvalid, ?_, fun status hstatus => ?_⟩
      · refine Bool.eq_false_iff.mpr fun htrue => ?_
        rw [domainTruncated, if_pos htrue] at hread
        rw [← Option.some.inj hread] at htruncated
        cases htruncated.1
      · unfold conservativeStatus at hpositive
        rw [hstatus] at hpositive
        cases status <;> first | rfl | cases hpositive

theorem Marks.normalizeDomain {d d' : Fields} (h : Marks d d') {n : DomainOutcome}
    (hn : normalizeDomain engine (.obj d') = some (some n)) (hpositive : n.status.positive = true) :
    Chat.normalizeDomain engine (.obj d) = some (some n) := by
  obtain ⟨hvalid, htruncated, hstatus⟩ := normalizeDomain_positive hn hpositive
  have hparts := hvalid
  unfold invalidDomain at hparts
  simp only [Bool.or_eq_false_iff] at hparts
  cases h with
  | flag hkey hvalue =>
    rename_i key value
    have hget := get_set_self d key value
    have htrue := isTrue_of_boolean (wellFormed_marker hparts.1.1.2 hkey hget) hvalue
    rcases hkey with rfl | rfl
    · rw [hget, htrue] at htruncated
      cases htruncated
    · have hfalse := hparts.1.1.1
      rw [hget, htrue] at hfalse
      cases hfalse
  | weaker hweak =>
    have hread := hstatus _ (by rw [get_set_self, read_text])
    rw [hweak] at hread
    cases hread
  | absent hsuccess =>
    have hkeep : ∀ key, "status" ≠ key →
        get (set d "status" (.str Outcome.empty.text)) key = get d key :=
      fun key hkey => get_set_of_ne hkey
    have hobj : ∀ d, obj (some (.obj d)) = d := fun _ => rfl
    have hinvalid : invalidDomain d = false := by
      rw [← hvalid]
      unfold invalidDomain malformedMarker
      simp only [any_cons, any_nil, hkeep _ (by decide : "status" ≠ "invalid"),
        hkeep _ (by decide : "status" ≠ "truncated"),
        hkeep _ (by decide : "status" ≠ "receipts"), get_set_self, hsuccess, read_text]
      rfl
    -- an empty status leaves what is not a success as it is
    have hsame : ∀ computed : Outcome,
        (conservativeStatus computed (some (.str Outcome.empty.text))).positive = true →
          conservativeStatus computed (some (.str Outcome.success.text)) =
            conservativeStatus computed (some (.str Outcome.empty.text)) := by
      intro computed h
      unfold conservativeStatus at h ⊢
      rw [read_text] at h ⊢
      rw [read_text]
      cases computed <;> first | rfl | cases h
    unfold Chat.normalizeDomain at hn ⊢
    dsimp only at hn ⊢
    rw [hobj, hkeep _ (by decide)] at hn
    rw [hobj]
    cases hgateway : readId 64 (get d "gateway") with
    | none =>
      rw [hgateway] at hn
      cases hn
    | some gateway =>
      have hmany : domainTruncated engine (set d "status" (.str Outcome.empty.text)) =
          domainTruncated engine d := by
        unfold domainTruncated
        rw [hkeep _ (by decide), hkeep _ (by decide)]
      rw [hgateway] at hn
      simp only [hmany, hvalid, hinvalid, Option.bind_eq_bind, Option.bind_eq_some_iff,
        get_set_self, hkeep _ (by decide : "status" ≠ "receipts"),
        hkeep _ (by decide : "status" ≠ "completion"), Bool.false_eq_true, if_false] at hn ⊢
      obtain ⟨truncated, hread, hn⟩ := hn
      refine ⟨truncated, hread, ?_⟩
      cases hn
      rw [hsuccess, hsame _ hpositive]

theorem forall₂_replace {α β : Type} {R : α → β → Prop} {before after : List α} {x x' : α}
    {ys : List β} (h : List.Forall₂ R (before ++ x' :: after) ys)
    (hreplace : ∀ y ∈ ys, R x' y → R x y) : List.Forall₂ R (before ++ x :: after) ys := by
  induction before generalizing ys with
  | nil =>
    cases h with
    | cons hfirst hrest => exact .cons (hreplace _ mem_cons_self hfirst) hrest
  | cons first rest ih =>
    cases h with
    | cons hfirst hrest =>
      exact .cons hfirst (ih hrest fun y hy => hreplace y (mem_cons_of_mem _ hy))

theorem MarksEvidence.succeeds {x x' : Js} (h : MarksEvidence x x') (hx' : Succeeds engine x') :
    Succeeds engine x := by
  cases h with
  | answer hmarks => exact absurd (succeeds_iff.mp hx').1 hmarks.not_unmarked
  | domain hdomains hmarks =>
    rename_i o d d' before after
    obtain ⟨hun, domains, hmapM, haggregate⟩ := succeeds_iff.mp hx'
    have hkeep : ∀ key, "domains" ≠ key →
        get (set o "domains" (.arr (before ++ .obj d' :: after))) key = get o key :=
      fun key hkey => get_set_of_ne hkey
    have hpositive := (aggregate_eq_success_iff.mp haggregate).1
    have hwell : malformedMarker o = false := by
      have hwell := hun.wellFormed
      unfold malformedMarker at hwell ⊢
      simp only [any_cons, any_nil, hkeep _ (by decide : "domains" ≠ "invalid"),
        hkeep _ (by decide : "domains" ≠ "truncated")] at hwell ⊢
      exact hwell
    have hfew := hun.few
    rw [get_set_self, items] at hmapM hfew
    refine succeeds_iff.mpr ⟨?_, domains, ?_, haggregate⟩
    · refine
        { version := hkeep _ (by decide : "domains" ≠ "version") ▸ hun.version
          domains := by rw [hdomains]; rfl
          few := ?_
          truncated := hkeep _ (by decide : "domains" ≠ "truncated") ▸ hun.truncated
          invalid := hkeep _ (by decide : "domains" ≠ "invalid") ▸ hun.invalid
          wellFormed := hwell
          status := hkeep _ (by decide : "domains" ≠ "status") ▸ hun.status
          synthesis := hkeep _ (by decide : "domains" ≠ "synthesis") ▸ hun.synthesis }
      rw [hdomains, items]
      simpa using hfew
    · rw [hdomains, items]
      refine forall₂_replace hmapM fun n hn hmarked => ?_
      exact hmarks.normalizeDomain hmarked (hpositive _ (mem_map_of_mem hn))

/-- Normalizing evidence is a closure: its result is normal, so that normalizing it again gives a
deeply equal result, a success is certified, and markers never make a success. -/
theorem normalizeEvidence_closure (engine : Engine) :
    (∀ x e, normalizeEvidence engine x = some (some e) →
      (∃ e', normalizeEvidence engine e.json = some (some e') ∧ DeepEq e'.json e.json) ∧
        (e.status = .success → e.Certified)) ∧
      ∀ x x', Relation.ReflTransGen MarksEvidence x x' →
        Succeeds engine x' → Succeeds engine x := by
  refine ⟨fun x e he => ?_, fun x x' hmarks hx' => ?_⟩
  · have hnormal := normal_of_normalizeEvidence he
    exact ⟨⟨e.tidy, hnormal.normalize_json, hnormal.deepEq_tidy⟩, hnormal.certified⟩
  · induction hmarks with
    | refl => exact hx'
    | tail _ hlast ih => exact ih (hlast.succeeds hx')

/-- Whole numbers are written in decimal digits. -/
def sampleEngine : Engine where
  number
    | .finite value => (toString value.num).toList
    | .infinite _ => "null".toList
  over32
    | .num (.finite value) => some (32 < value)
    | _ => some false

def sampleReceipt (callId : String) (outcome : Outcome) : ToolReceipt where
  callId
  tool := "list_enis"
  observedAt := 1000
  terminalObservedAt := some 2000
  outcome := .known outcome
  inputs := [("region", "us-east-1")]
  requestedScope := []
  observedScope := []
  quality := [("partial", .bool false)]

/-- An answer of two domains, one with a result and one without. -/
def sampleEvidence (status : Outcome) : ChatEvidence where
  status := .success
  domains :=
    [{ gateway := "network", status := .success, receipts := [sampleReceipt "call-1" .success]
       completion := some 1 },
      { gateway := "cost", status, receipts := [sampleReceipt "call-2" .empty]
        completion := some 1 }]

set_option maxRecDepth 20000 in
theorem normalizeEvidence_closure_sample :
    (∃ e', normalizeEvidence sampleEngine (sampleEvidence .empty).json = some (some e') ∧
        DeepEq e'.json (sampleEvidence .empty).json) ∧
      (sampleEvidence .empty).Certified ∧
      Succeeds sampleEngine (sampleEvidence .success).json := by
  have hread : normalizeEvidence sampleEngine (sampleEvidence .empty).json =
      some (some (sampleEvidence .empty)) := by rfl
  have hdomain : MarksEvidence (sampleEvidence .success).json (sampleEvidence .empty).json :=
    @MarksEvidence.domain _ _ _ [_] [] rfl (.absent rfl)
  obtain ⟨hall, hmarks⟩ := normalizeEvidence_closure sampleEngine
  exact ⟨(hall _ _ hread).1, (hall _ _ hread).2 rfl, hmarks _ _ (.single hdomain) ⟨_, hread, rfl⟩⟩

end AwsOps.Chat
