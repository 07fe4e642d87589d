import Mathlib.Data.Rat.Defs
import AwsOps.Chat.Receipts

/-!
# Normalizing evidence again

Evidence that was normalized is normal: normalizing it as a value gives it again, up to the order of
the properties of qualities. It is a success only when nothing in it is marked and each domain is
complete, and marking a value never makes its evidence a success.
-/

namespace AwsOps.Chat

open List Bool ReceiptBuffer

open Js (Fields get set keys DeepEq DeepItems DeepFields)

variable {engine : Engine}

/-! ## Domains -/

/-- The status of a domain that was answered with a text. -/
def computedStatus (receipts : List ToolReceipt) (omitted completed : Bool) : Outcome :=
  let status := aggregate (receipts.map ToolReceipt.state)
  if (omitted || !completed) && status.positive then .partly else status

def restored (engine : Engine) (receipts : List Js) (completion : Option Js) : ReceiptBuffer :=
  let buffer := receipts.foldl (add engine) {}
  match completion with
  | some value => buffer.finish value
  | none => buffer

theorem domainOutcome_restored (gateway : String) (receipts : List Js) (truncated : Bool)
    (completion : Option Js) :
    domainOutcome engine gateway "restored" receipts truncated false completion false =
      let buffer := restored engine receipts completion
      { gateway
        status := computedStatus buffer.receipts (truncated || buffer.truncated)
          buffer.completion.isSome
        receipts := buffer.receipts
        truncated := truncated || buffer.truncated
        completion := buffer.completion } := by
  have hblank : isBlank "restored" = false := by decide
  -- a text that is not blank leaves the omissions and the completion to decide
  have hstatus : ∀ (status : Outcome) (omitted completed : Bool),
      (if (omitted || !completed || false) && status.positive then
        if status == .empty && completed && !omitted then status else .partly
      else status) = if (omitted || !completed) && status.positive then .partly else status := by
    intro status omitted completed
    cases status <;> cases omitted <;> cases completed <;> rfl
  unfold domainOutcome restored
  dsimp only
  rw [hblank]
  cases completion <;>
    simp only [Bool.false_and, false_eq_true, if_false, computedStatus,
      ← Option.not_isSome, hstatus]

theorem ReceiptBuffer.finish_receipts (buffer : ReceiptBuffer) (value : Js) :
    (buffer.finish value).receipts = buffer.receipts := by
  unfold finish
  split <;> rfl

theorem ReceiptBuffer.finish_completion {buffer : ReceiptBuffer} {value : Js}
    (h : buffer.completion = none) :
    (buffer.finish value).completion = normalizeCompletion value := by
  unfold finish
  cases normalizeCompletion value with
  | none => exact h
  | some receiptCount => rfl

/-- The status of a domain is kept when it is computed again. -/
def KeptStatus (computed status : Outcome) : Prop :=
  conservativeStatus computed (some (.str status.text)) = status

theorem keptStatus_conservative (computed : Outcome) (incoming : Option Js) :
    KeptStatus computed (conservativeStatus computed incoming) := by
  unfold KeptStatus conservativeStatus
  rw [Outcome.read_text]
  cases Outcome.read incoming with
  | none => cases computed <;> rfl
  | some outcome => cases outcome <;> cases computed <;> rfl

theorem keptStatus_partly (computed : Outcome) : KeptStatus computed .partly := by
  unfold KeptStatus conservativeStatus
  rw [Outcome.read_text]

structure NormalDomain (engine : Engine) (d : DomainOutcome) : Prop where
  gateway : isMatch isId 64 (.str d.gateway) = true
  bounded : Bounded engine d.receipts
  completion : ∀ receiptCount, d.completion = some receiptCount → receiptCount ≤ 32
  counted : ∀ receiptCount, d.completion = some receiptCount →
    receiptCount ≠ d.receipts.length → d.truncated = true
  status : KeptStatus (computedStatus d.receipts d.truncated d.completion.isSome) d.status
  invalid : d.invalid = true → d.status.positive = false

variable {receiptCount : Nat} {d : DomainOutcome}

theorem completion_le {value : Js}
    (h : normalizeCompletion value = some receiptCount) : receiptCount ≤ 32 := by
  unfold normalizeCompletion at h
  dsimp only at h
  split at h
  · cases h
  · split at h
    · rename_i n _
      split at h
      · rename_i hn
        obtain ⟨hden, hnonneg, hle⟩ := hn
        have hint : (n.num : Rat) = n := Rat.den_eq_one_iff n |>.mp hden
        have hle' : n.num ≤ 32 := by
          rw [← hint] at hle
          exact_mod_cast hle
        have hcount : n.num.toNat = receiptCount := Option.some.inj h
        omega
      · cases h
    · cases h

theorem normalizeCompletion_json (h : receiptCount ≤ 32) :
    normalizeCompletion (completionJson receiptCount) = some receiptCount := by
  have hnonneg : (0 : Rat) ≤ (receiptCount : Rat) := by exact_mod_cast Nat.zero_le _
  have hle : (receiptCount : Rat) ≤ 32 := by exact_mod_cast h
  simp [normalizeCompletion, completionJson, obj, Js.get_cons, isOne, Js.ofNat, hnonneg, hle]

/-- The buffer of a restored domain: what it can hold, and a count that does not match is an
omission. -/
theorem restored_spec (receipts : List Js) (completion : Option Js) :
    Bounded engine (restored engine receipts completion).receipts ∧
      (∀ receiptCount, (restored engine receipts completion).completion = some receiptCount →
        receiptCount ≤ 32) ∧
      (∀ receiptCount, (restored engine receipts completion).completion = some receiptCount →
        receiptCount ≠ (restored engine receipts completion).receipts.length →
        (restored engine receipts completion).truncated = true) := by
  have hbounded : Bounded engine (receipts.foldl (add engine) {}).receipts :=
    fold_add_bounded .nil receipts
  have hnone : (receipts.foldl (add engine) {}).completion = none :=
    fold_add_completion {} receipts
  unfold restored
  cases completion with
  | none =>
    refine ⟨hbounded, ?_, ?_⟩
    · intro receiptCount hcount
      rw [hnone] at hcount
      cases hcount
    · intro receiptCount hcount
      rw [hnone] at hcount
      cases hcount
  | some value =>
    dsimp only
    rw [finish_receipts, finish_completion hnone]
    refine ⟨hbounded, fun receiptCount => completion_le, ?_⟩
    intro receiptCount hcount hne
    rw [finish, hcount]
    have hdiffers : (receiptCount != (receipts.foldl (add engine)
        {}).receipts.length) = true := bne_iff_ne.mpr hne
    simp [hdiffers]

theorem NormalDomain.restored (h : NormalDomain engine d) :
    Chat.restored engine (d.receipts.map ToolReceipt.json) (d.completion.map completionJson) =
      { receipts := d.receipts.map ToolReceipt.tidy
        truncated := d.completion.any fun receiptCount => receiptCount != d.receipts.length
        completion := d.completion } := by
  have hfold : (d.receipts.map ToolReceipt.json).foldl (add engine) {} =
      { receipts := d.receipts.map ToolReceipt.tidy } :=
    @Bounded.fold_add engine [] d.receipts h.bounded
  unfold Chat.restored
  rw [hfold]
  cases hcompletion : d.completion with
  | none => rfl
  | some receiptCount =>
    have hread := normalizeCompletion_json (h.completion receiptCount hcompletion)
    dsimp only [Option.map_some]
    rw [finish, hread]
    simp

/-- The domain with the properties of its qualities in their order. -/
def DomainOutcome.tidy (d : DomainOutcome) : DomainOutcome :=
  { d with receipts := d.receipts.map ToolReceipt.tidy }

theorem get_domain_json (d : DomainOutcome) :
    get (obj (some d.json)) "gateway" = some (.str d.gateway) ∧
      get (obj (some d.json)) "status" = some (.str d.status.text) ∧
      get (obj (some d.json)) "receipts" = some (.arr (d.receipts.map ToolReceipt.json)) ∧
      get (obj (some d.json)) "truncated" = (if d.truncated then some (.bool true) else none) ∧
      get (obj (some d.json)) "completion" = d.completion.map completionJson ∧
      get (obj (some d.json)) "invalid" = if d.invalid then some (.bool true) else none := by
  cases htruncated : d.truncated <;> cases hcompletion : d.completion <;>
    cases hinvalid : d.invalid <;>
      simp [DomainOutcome.json, flag, obj, Js.get_cons, htruncated, hcompletion, hinvalid]

theorem map_state_tidy (receipts : List ToolReceipt) :
    (receipts.map ToolReceipt.tidy).map ToolReceipt.state = receipts.map ToolReceipt.state := by
  rw [map_map]
  rfl

theorem NormalDomain.normalize_json (h : NormalDomain engine d) :
    normalizeDomain engine d.json = some (some d.tidy) := by
  obtain ⟨hgateway, hstatus, hreceipts, htruncated, hcompletion, hinvalid⟩ := get_domain_json d
  have hfew : ¬(d.receipts.map ToolReceipt.json).length > 32 := by
    rw [length_map]
    exact Nat.not_lt.mpr h.bounded.few
  have hmany : domainTruncated engine (obj (some d.json)) = some d.truncated := by
    rw [domainTruncated, htruncated, hreceipts]
    cases d.truncated with
    | true => rfl
    | false =>
      show some (decide ((d.receipts.map ToolReceipt.json).length > 32)) = some false
      rw [decide_eq_false hfew]
  have hflag : ∀ b : Bool, isTrue (if b then some (.bool true) else none) = b := by
    intro b
    cases b <;> rfl
  have hbad : invalidDomain (obj (some d.json)) = d.invalid := by
    unfold invalidDomain malformedMarker
    simp only [hinvalid, htruncated, hstatus, hreceipts, Outcome.read_text, isArray, hflag,
      any_cons, any_nil]
    cases d.invalid <;> cases d.truncated <;> rfl
  -- a count that does not match was an omission already
  have homitted : (d.truncated || d.completion.any fun n => n != d.receipts.length) =
      d.truncated := by
    cases hcount : d.completion with
    | none => exact Bool.or_false _
    | some receiptCount =>
      by_cases hne : receiptCount = d.receipts.length
      · simp [hne]
      · rw [h.counted receiptCount hcount hne, Bool.true_or]
  have htake : (items (some (.arr (d.receipts.map ToolReceipt.json)))).take 33 =
      d.receipts.map ToolReceipt.json := by
    rw [items, take_of_length_le]
    omega
  have hcomputed : computedStatus (d.receipts.map ToolReceipt.tidy) d.truncated
      d.completion.isSome = computedStatus d.receipts d.truncated d.completion.isSome := by
    unfold computedStatus
    rw [map_state_tidy]
  unfold normalizeDomain
  simp only [hgateway, hstatus, hreceipts, hcompletion, readId_str h.gateway, hmany,
    htake, hbad, domainOutcome_restored, h.restored, homitted, hcomputed, Option.bind_eq_bind,
    Option.bind_some]
  have hkept : conservativeStatus (computedStatus d.receipts d.truncated d.completion.isSome)
      (some (.str d.status.text)) = d.status := h.status
  rw [hkept]
  cases hd : d.invalid with
  | false =>
    simp only [false_eq_true, if_false, DomainOutcome.tidy]
    rw [← hd]
  | true =>
    simp only [if_true, h.invalid hd, false_eq_true, if_false, DomainOutcome.tidy]
    rw [← hd]

theorem normal_of_normalizeDomain {value : Js}
    (h : normalizeDomain engine value = some (some d)) : NormalDomain engine d := by
  unfold normalizeDomain at h
  dsimp only at h
  split at h
  · cases h
  · rename_i gateway hgateway
    simp only [Option.bind_eq_bind, Option.bind_eq_some_iff] at h
    obtain ⟨truncated, -, h⟩ := h
    rw [domainOutcome_restored] at h
    dsimp only at h
    obtain ⟨hbounded, hcompletion, hcounted⟩ := @restored_spec engine
      ((items (get (obj (some value)) "receipts")).take 33) (get (obj (some value)) "completion")
    generalize restored engine ((items (get (obj (some value)) "receipts")).take 33)
      (get (obj (some value)) "completion") = buffer at h hbounded hcompletion hcounted
    have homitted : ∀ receiptCount, buffer.completion = some receiptCount →
        receiptCount ≠ buffer.receipts.length → (truncated || buffer.truncated) = true := by
      intro receiptCount hcount hne
      rw [hcounted receiptCount hcount hne, Bool.or_true]
    have hstatus := keptStatus_conservative (computedStatus buffer.receipts
      (truncated || buffer.truncated) buffer.completion.isSome) (get (obj (some value)) "status")
    generalize conservativeStatus (computedStatus buffer.receipts
      (truncated || buffer.truncated) buffer.completion.isSome)
        (get (obj (some value)) "status") = status at h hstatus
    split at h
    · cases h
      refine ⟨readId_eq_some hgateway, hbounded, hcompletion, homitted, ?_, ?_⟩
      · dsimp only
        split
        · exact keptStatus_partly _
        · exact hstatus
      · intro _
        dsimp only
        cases hpositive : status.positive with
        | true => rfl
        | false => exact hpositive
    · cases h
      refine ⟨readId_eq_some hgateway, hbounded, hcompletion, homitted, hstatus, ?_⟩
      intro hinvalid
      cases hinvalid

/-! ## Answers -/

structure NormalEvidence (engine : Engine) (e : ChatEvidence) : Prop where
  few : e.domains.length ≤ 3
  domains : ∀ d ∈ e.domains, NormalDomain engine d
  status : KeptStatus (aggregate (e.domains.map DomainOutcome.status)) e.status
  interrupted : e.interrupted = true → e.status = .partly
  marked : (e.truncated || e.invalid) = true → e.status.positive = false

/-- The evidence with the properties of its qualities in their order. -/
def ChatEvidence.tidy (e : ChatEvidence) : ChatEvidence :=
  { e with domains := e.domains.map DomainOutcome.tidy }

theorem get_evidence_json (e : ChatEvidence) :
    get (obj (some e.json)) "version" = some (Js.ofNat 1) ∧
      get (obj (some e.json)) "status" = some (.str e.status.text) ∧
      get (obj (some e.json)) "domains" = some (.arr (e.domains.map DomainOutcome.json)) ∧
      get (obj (some e.json)) "fallback" = (if e.fallback then some (.str "unverified") else none) ∧
      get (obj (some e.json)) "synthesis" =
        (if e.interrupted then some (.str "interrupted") else none) ∧
      get (obj (some e.json)) "truncated" = (if e.truncated then some (.bool true) else none) ∧
      get (obj (some e.json)) "invalid" = if e.invalid then some (.bool true) else none := by
  cases hfallback : e.fallback <;> cases hinterrupted : e.interrupted <;>
    cases htruncated : e.truncated <;> cases hinvalid : e.invalid <;>
      simp [ChatEvidence.json, flag, obj, Js.get_cons, hfallback, hinterrupted, htruncated,
        hinvalid]

/-- A function that may fail succeeds on a list when it succeeds on each item. -/
theorem mapM_eq_some_iff {α β : Type} {f : α → Option β} {xs : List α} {ys : List β} :
    xs.mapM f = some ys ↔ List.Forall₂ (fun x y => f x = some y) xs ys := by
  induction xs generalizing ys with
  | nil =>
    rw [List.forall₂_nil_left_iff, mapM_nil, Option.pure_def, Option.some.injEq]
    exact eq_comm
  | cons x rest ih =>
    simp only [mapM_cons, Option.bind_eq_bind, Option.bind_eq_some_iff, Option.pure_def,
      Option.some.injEq, List.forall₂_cons_left_iff, ih]
    constructor
    · intro ⟨y, hy, others, hothers, heq⟩
      exact ⟨y, others, hy, hothers, heq.symm⟩
    · intro ⟨y, others, hy, hothers, heq⟩
      exact ⟨y, hy, others, hothers, heq.symm⟩

theorem mapM_normalizeDomain_json {domains : List DomainOutcome}
    (h : ∀ d ∈ domains, NormalDomain engine d) :
    (domains.map DomainOutcome.json).mapM (normalizeDomain engine) =
      some ((domains.map DomainOutcome.tidy).map some) := by
  rw [mapM_eq_some_iff, map_map, List.forall₂_map_left_iff, List.forall₂_map_right_iff,
    List.forall₂_same]
  intro d hd
  exact (h d hd).normalize_json

theorem normal_of_mapM {values : List Js} {normalized : List (Option DomainOutcome)}
    (h : List.Forall₂ (fun value d => normalizeDomain engine value = some d) values normalized) :
    ∀ d, some d ∈ normalized → NormalDomain engine d := by
  intro d hd
  induction h with
  | nil => cases hd
  | cons hfirst _ ih =>
    rcases mem_cons.mp hd with heq | hd
    · rw [← heq] at hfirst
      exact normal_of_normalizeDomain hfirst
    · exact ih hd

theorem NormalEvidence.normalize_json {e : ChatEvidence} (h : NormalEvidence engine e) :
    normalizeEvidence engine e.json = some (some e.tidy) := by
  obtain ⟨hversion, hstatus, hdomains, hfallback, hsynthesis, htruncated, hinvalid⟩ :=
    get_evidence_json e
  have hone : isOne (some (Js.ofNat 1)) = true := by decide
  have htake : (items (some (.arr (e.domains.map DomainOutcome.json)))).take 3 =
      e.domains.map DomainOutcome.json := by
    rw [items, take_of_length_le]
    rw [length_map]
    exact h.few
  have hmany : decide ((items (some (.arr (e.domains.map DomainOutcome.json)))).length > 3) =
      false := by
    rw [items, length_map]
    exact decide_eq_false (Nat.not_lt.mpr h.few)
  have hflag : ∀ b : Bool, isTrue (if b then some (.bool true) else none) = b := by
    intro b
    cases b <;> rfl
  have htext : ∀ (b : Bool) (s : String),
      (if b then some (Js.str s) else none).any (isOneOf [s]) = b := by
    intro b s
    cases b <;> simp [isOneOf]
  have hmalformed : malformedMarker (obj (some e.json)) = false := by
    unfold malformedMarker
    simp only [hinvalid, htruncated, any_cons, any_nil]
    cases e.invalid <;> cases e.truncated <;> rfl
  have hall : ((e.domains.map DomainOutcome.tidy).map some).any Option.isNone = false := by
    refine any_eq_false.mpr fun d hd => ?_
    obtain ⟨d', -, rfl⟩ := mem_map.mp hd
    exact false_ne_true
  have hsame : ((e.domains.map DomainOutcome.tidy).map some).filterMap id =
      e.domains.map DomainOutcome.tidy := by
    rw [filterMap_map]
    exact filterMap_some
  have hcomputed : (answerEvidence (e.domains.map DomainOutcome.tidy)).status =
      aggregate (e.domains.map DomainOutcome.status) := by
    rw [answerEvidence, map_map]
    rfl
  have hkept : conservativeStatus (aggregate (e.domains.map DomainOutcome.status))
      (some (.str e.status.text)) = e.status := h.status
  have hinterrupted : (if e.interrupted then Outcome.partly else e.status) = e.status := by
    cases hi : e.interrupted with
    | false => rfl
    | true => exact (h.interrupted hi).symm
  have hmarked : (if (e.truncated || e.invalid) && e.status.positive then Outcome.partly
      else e.status) = e.status := by
    cases hm : e.truncated || e.invalid with
    | false => rfl
    | true => rw [h.marked hm]; rfl
  unfold normalizeEvidence
  simp only [hversion, hone, hdomains, isArray, htake, hmany, hstatus, hfallback, hsynthesis,
    htruncated, hinvalid, hflag, htext, hmalformed, mapM_normalizeDomain_json h.domains, hall,
    hsame, hcomputed, hkept, hinterrupted, hmarked, Outcome.read_text, Option.isNone_some,
    Bool.not_true, Bool.or_false, false_eq_true, if_false, Option.bind_eq_bind,
    Option.bind_some]
  rfl

theorem normal_of_normalizeEvidence {value : Js} {e : ChatEvidence}
    (h : normalizeEvidence engine value = some (some e)) : NormalEvidence engine e := by
  unfold normalizeEvidence at h
  dsimp only at h
  split at h
  · cases h
  · simp only [Option.bind_eq_bind, Option.bind_eq_some_iff] at h
    obtain ⟨normalized, hnormalized, h⟩ := h
    have hmapM := mapM_eq_some_iff.mp hnormalized
    have hlength := hmapM.length_eq
    have hfew : (normalized.filterMap id).length ≤ 3 := by
      have htake := length_take_le 3 (items (get (obj (some value)) "domains"))
      have hfilter := length_filterMap_le id normalized
      omega
    have hdomains : ∀ d ∈ normalized.filterMap id, NormalDomain engine d := by
      intro d hd
      obtain ⟨entry, hentry, rfl⟩ := mem_filterMap.mp hd
      exact normal_of_mapM hmapM d hentry
    have hstatus := keptStatus_conservative
      (aggregate ((normalized.filterMap id).map DomainOutcome.status))
      (get (obj (some value)) "status")
    rw [answerEvidence] at h
    dsimp only at h
    generalize conservativeStatus
      (aggregate ((normalized.filterMap id).map DomainOutcome.status))
        (get (obj (some value)) "status") = status at h hstatus
    cases h
    refine ⟨hfew, hdomains, ?_, ?_, ?_⟩
    · dsimp only
      split
      · rw [ite_self]
        exact keptStatus_partly _
      · split
        · exact keptStatus_partly _
        · exact hstatus
    · intro hinterrupted
      dsimp only at hinterrupted ⊢
      rw [hinterrupted]
      simp
    · intro hmarked
      dsimp only at hmarked ⊢
      rw [hmarked, Bool.true_and]
      have hweak : ∀ s : Outcome, (if s.positive then Outcome.partly else s).positive = false := by
        intro s
        cases s <;> rfl
      exact hweak _

end AwsOps.Chat
