import AwsOps.Chat.Certified
import AwsOps.Agent.PositiveProducers

/-!
# The verdict of a tool call

`tool_receipts.py`, last part: `terminal` folds the content blocks of a result into one outcome, one
quality and one observed scope. `terminal_positive` says what a success or an empty result rests on:
every block but the fixed reminders is evidence that the producer of the tool confirmed.
-/

namespace AwsOps.Agent

open List Option

open Py (Fields)
open Chat (Outcome)

/-- What the blocks read so far add up to. -/
structure Scan where
  outcomes : List Outcome
  quality : Fields
  observed : Fields

/-- A block adds an outcome, and may mark the quality. -/
def Scan.add (scan : Scan) (outcome : Outcome) (marks : List String) : Scan :=
  { scan with
    outcomes := scan.outcomes ++ [outcome]
    quality := marks.foldl (fun q key => mark key true q) scan.quality }

/-- The single entry of a block: whether it is JSON, and its value. -/
def blockEntry (block : Py) : Option (Bool × Py) :=
  match block.asDict with
  | some [(key, raw)] =>
    if key = "json" then some (true, raw) else if key = "text" then some (false, raw) else none
  | _ => none

/-- A fixed reminder of the language hook. -/
def isIgnored (ignoredTexts : List String) (block : Py) : Bool :=
  match blockEntry block with
  | some (false, raw) => raw.isOneOf ignoredTexts
  | _ => false

variable (env : Python)

/-- A payload: the verdict of an envelope, or a value. -/
abbrev Payload : Type :=
  Outcome ⊕ Py

/-- Look into the envelope of an HTTP response. It fails where its body cannot be decoded. -/
def openEnvelope (body : Py) : Option Payload :=
  match body.asDict.bind fun fields => (Py.find fields "statusCode").map fun code => (fields, code) with
  | none => some (.inr body)
  | some (fields, .int code) =>
    if 400 ≤ code then some (.inl .error)
    else if code < 200 ∨ 300 ≤ code then some (.inl .unverified)
    else (decode env (Py.get fields "body")).map .inr
  | some _ => some (.inl .unverified)

/-- The payload of a block. -/
def payload (isJson : Bool) (raw : Py) : Option Payload :=
  if isJson then openEnvelope env raw else (decode env raw).bind (openEnvelope env)

/-- The markers that stay once they are set. -/
def stickyMarkers : List String :=
  ["partial", "unknown", "truncated", "invalid", "unsupported"]

/-- The quality so far and the one of the next block. -/
def mergedQuality (q projected : Fields) : Fields :=
  Py.update q (stickyMarkers.foldl (fun out key => mark key (Py.get q key).isTrue out) projected)

/-- The outcome of a body, given the outcome of its producer and the quality so far. -/
def bodyOutcome (body : Fields) (produced : Option Outcome) (q : Fields) : Outcome :=
  if (Py.get body "error").truthy || (Py.get body "isError").isTrue then .error
  else match produced with
    | some outcome => if outcome.positive && incomplete q then .partly else outcome
    | none => if incomplete q then .partly else .unverified

/-- One body. A `TypeError` of its producer is caught. -/
def scanBody (tool : String) (scan : Scan) (body : Fields) : Scan :=
  match (producerEvidence env body tool).run (quality env body) with
  | none => scan.add .unverified ["invalid"]
  | some (produced, projected) =>
    let q := mergedQuality scan.quality projected
    { outcomes := scan.outcomes ++ [bodyOutcome body produced q]
      quality := q
      observed := Py.update scan.observed (scope env (Py.get body "observedScope")) }

def scanValue (tool : String) (scan : Scan) : Py → Scan
  | .dict body => scanBody env tool scan body
  | .list _ =>
    scan.add .unverified (if curatedTools.contains (baseName tool) then ["invalid"] else [])
  | _ => scan.add .unverified ["unsupported"]

def scanBlock (ignoredTexts : List String) (tool : String) (scan : Scan) (block : Py) : Scan :=
  match blockEntry block with
  | none => scan.add .unverified ["unsupported"]
  | some (isJson, raw) =>
    if !isJson && raw.isOneOf ignoredTexts then scan
    else match payload env isJson raw with
      | none => scan.add .unverified ["invalid"]
      | some (.inl outcome) => scan.add outcome []
      | some (.inr value) => scanValue env tool scan value

/-- The blocks of a result, of which 16 are read. -/
def scanContent (ignoredTexts : List String) (tool : String) (content : List Py) : Scan :=
  let scan := (content.take 16).foldl (scanBlock env ignoredTexts tool) ⟨[], [], []⟩
  if content.length > 16 then scan.add .unverified ["truncated"] else scan

/-- `terminal`: the outcome, the quality and the observed scope. -/
def terminal (result : Fields) (ignoredTexts : List String) (tool : String) :
    Outcome × Fields × Fields :=
  let status := Py.get result "status"
  if status.isText "error" then (.error, [], [])
  else if !status.isText "success" then (.unverified, [], [])
  else match (Py.get result "content").asList with
    | none => (.unverified, mark "invalid" true [], [])
    | some content =>
      if content.isEmpty then (.unverified, mark "unknown" true [], [])
      else
        let scan := scanContent env ignoredTexts tool content
        (combined scan.outcomes, scan.quality, scan.observed)

/-! ## Evidence -/

/-- `Decodes raw value`: the text `raw` is within bounds and is the JSON of `value`, or `raw` is a
value already. -/
inductive Decodes : Py → Py → Prop
  | text (s value) : s.length ≤ maxResult → env.loads s = some value → Decodes (.str s) value
  | native (value) : value.isStr = false → Decodes value value

/-- `Opens value body`: the value is the body, or an envelope of it with a code of success. -/
inductive Opens : Py → Fields → Prop
  | plain (body) : Py.find body "statusCode" = none → Opens (.dict body) body
  | enveloped (fields code body) :
      Py.find fields "statusCode" = some (.int code) → 200 ≤ code → code < 300 →
      Decodes env (Py.get fields "body") (.dict body) → Opens (.dict fields) body

/-- `Carries block body`: the block has one entry, and what it holds opens to the body. -/
inductive Carries : Py → Fields → Prop
  | json (value body) : Opens env value body → Carries (.dict [("json", value)]) body
  | text (raw value body) :
      Decodes env raw value → Opens env value body → Carries (.dict [("text", raw)]) body

/-- `Confirmed tool body`: the tool is curated, its producer gives a positive outcome for the body,
and the body reports no error. -/
structure Confirmed (tool : String) (body : Fields) : Prop where
  curated : baseName tool ∈ curatedTools
  produced : ∃ outcome projected, outcome.positive = true ∧
    (producerEvidence env body tool).run (quality env body) = some (some outcome, projected)
  noError : (Py.get body "error").truthy = false
  notFailed : (Py.get body "isError").isTrue = false

def IsEvidence (tool : String) (block : Py) : Prop :=
  ∃ body, Carries env block body ∧ Confirmed env tool body

variable {env} {tool : String} {ignoredTexts : List String}

theorem decodes_of_decode {raw value : Py} (h : decode env raw = some value) :
    Decodes env raw value := by
  cases hstr : raw.asStr with
  | none =>
    have hsame : decode env raw = some raw := by
      cases raw <;> first | rfl | cases hstr
    obtain rfl : raw = value := by
      rw [hsame] at h
      exact Option.some.inj h
    exact .native raw (by simp [Py.isStr, hstr])
  | some s =>
    obtain rfl : raw = .str s := by
      cases raw <;> cases hstr
      rfl
    simp only [decode] at h
    split at h
    · cases h
    · exact .text s value (by omega) h

theorem opens_of_open_envelope {value : Py} {body : Fields}
    (h : openEnvelope env value = some (.inr (.dict body))) : Opens env value body := by
  unfold openEnvelope at h
  cases hdict : value.asDict with
  | none =>
    simp only [hdict, bind_none, Option.some.injEq, Sum.inr.injEq] at h
    rw [h] at hdict
    cases hdict
  | some fields =>
    obtain rfl : value = .dict fields := by
      cases value <;> cases hdict
      rfl
    simp only [hdict, bind_some] at h
    cases hcode : Py.find fields "statusCode" with
    | none =>
      simp only [hcode, map_none, Option.some.injEq, Sum.inr.injEq, Py.dict.injEq] at h
      subst h
      exact .plain fields hcode
    | some code =>
      simp only [hcode, map_some] at h
      split at h
      · contradiction
      · next heq =>
          obtain ⟨rfl, rfl⟩ := Prod.mk.inj (Option.some.inj heq)
          split at h
          · cases h
          · split at h
            · cases h
            · next hbad =>
                obtain ⟨inner, hinner, hbody⟩ := map_eq_some_iff.mp h
                obtain rfl := Sum.inr.inj hbody
                exact .enveloped fields _ body hcode (by omega) (by omega)
                  (decodes_of_decode hinner)
      · cases h

theorem carries_of_payload {block raw : Py} {isJson : Bool} {body : Fields}
    (hentry : blockEntry block = some (isJson, raw))
    (h : payload env isJson raw = some (.inr (.dict body))) : Carries env block body := by
  unfold blockEntry at hentry
  cases block with
  | dict fields =>
    simp only [Py.asDict] at hentry
    split at hentry
    · next key value heq =>
        obtain rfl := Option.some.inj heq
        split at hentry
        · next hkey =>
            obtain ⟨rfl, rfl⟩ := Prod.mk.inj (Option.some.inj hentry)
            rw [hkey]
            exact .json value body (opens_of_open_envelope h)
        · split at hentry
          · next hkey =>
              obtain ⟨rfl, rfl⟩ := Prod.mk.inj (Option.some.inj hentry)
              obtain ⟨inner, hinner, hopen⟩ := bind_eq_some_iff.mp h
              rw [hkey]
              exact .text value inner body (decodes_of_decode hinner)
                (opens_of_open_envelope hopen)
          · cases hentry
    · cases hentry
  | _ => cases hentry

/-! ## One block -/

theorem body_outcome_positive {body : Fields} {produced : Option Outcome} {q : Fields}
    (h : (bodyOutcome body produced q).positive = true) :
    (∃ outcome, produced = some outcome ∧ outcome.positive = true) ∧ incomplete q = false ∧
      (Py.get body "error").truthy = false ∧ (Py.get body "isError").isTrue = false := by
  unfold bodyOutcome at h
  split at h
  · cases h
  · next herror =>
      simp only [Bool.or_eq_true, not_or, Bool.not_eq_true] at herror
      split at h
      · next outcome =>
          split at h
          · cases h
          · next hcomplete =>
              have hincomplete : incomplete q = false := by
                simpa [h] using hcomplete
              exact ⟨⟨outcome, rfl, h⟩, hincomplete, herror⟩
      · split at h <;> cases h

/-- What a step of the scan does: it adds one outcome, and a positive one only for evidence. -/
structure Adds (evidence : Prop) (scan next : Scan) : Prop where
  grows : ∃ outcome, next.outcomes = scan.outcomes ++ [outcome] ∧
    (outcome.positive = true → evidence ∧ incomplete next.quality = false)

variable {scan : Scan} {outcome : Outcome}

theorem adds_weak {evidence : Prop} {marks : List String}
    (h : outcome.positive = false) : Adds evidence scan (scan.add outcome marks) where
  grows := ⟨outcome, rfl, fun hpositive => by rw [h] at hpositive; cases hpositive⟩

theorem scan_body_adds (scan : Scan) (body : Fields) :
    Adds (Confirmed env tool body) scan (scanBody env tool scan body) := by
  unfold scanBody
  cases hrun : (producerEvidence env body tool).run (quality env body) with
  | none => exact adds_weak rfl
  | some result =>
    obtain ⟨produced, projected⟩ := result
    refine ⟨⟨_, rfl, fun hpositive => ?_⟩⟩
    obtain ⟨⟨outcome, rfl, houtcome⟩, hcomplete, herror, hfailed⟩ :=
      body_outcome_positive hpositive
    refine ⟨⟨?_, ⟨outcome, projected, houtcome, hrun⟩, herror, hfailed⟩, hcomplete⟩
    -- Without a curated producer there would be no outcome.
    by_contra hcurated
    rw [producer_evidence_of_not_curated env hcurated] at hrun
    cases hrun

theorem open_envelope_weak {value : Py}
    (h : openEnvelope env value = some (.inl outcome)) : outcome.positive = false := by
  unfold openEnvelope at h
  split at h
  · cases h
  · split at h
    · cases h
      rfl
    · split at h
      · cases h
        rfl
      · obtain ⟨inner, -, hinner⟩ := map_eq_some_iff.mp h
        cases hinner
  · cases h
    rfl

theorem payload_weak {isJson : Bool} {raw : Py}
    (h : payload env isJson raw = some (.inl outcome)) : outcome.positive = false := by
  unfold payload at h
  split at h
  · exact open_envelope_weak h
  · obtain ⟨value, -, hvalue⟩ := bind_eq_some_iff.mp h
    exact open_envelope_weak hvalue

theorem scan_block_ignored {block : Py} (h : isIgnored ignoredTexts block = true) :
    scanBlock env ignoredTexts tool scan block = scan := by
  unfold isIgnored at h
  split at h
  · next raw hentry =>
      simp only [scanBlock, hentry, Bool.not_false, Bool.true_and]
      exact if_pos h
  · cases h

theorem scan_block_adds {block : Py} (h : isIgnored ignoredTexts block = false) :
    Adds (IsEvidence env tool block) scan (scanBlock env ignoredTexts tool scan block) := by
  unfold scanBlock
  cases hentry : blockEntry block with
  | none => exact adds_weak rfl
  | some entry =>
    obtain ⟨isJson, raw⟩ := entry
    have hread : (!isJson && raw.isOneOf ignoredTexts) = false := by
      cases isJson with
      | true => rfl
      | false => simpa [isIgnored, hentry] using h
    simp only [hread, Bool.false_eq_true, if_false]
    cases hpayload : payload env isJson raw with
    | none => exact adds_weak rfl
    | some read =>
      cases read with
      | inl outcome => exact adds_weak (payload_weak hpayload)
      | inr value =>
        cases value with
        | dict body =>
          obtain ⟨outcome, hgrows, hpositive⟩ := (scan_body_adds scan body).grows
          refine ⟨⟨outcome, hgrows, fun hsome => ?_⟩⟩
          obtain ⟨hconfirmed, hcomplete⟩ := hpositive hsome
          exact ⟨⟨body, carries_of_payload hentry hpayload, hconfirmed⟩, hcomplete⟩
        | _ => exact adds_weak rfl

/-! ## All blocks -/

/-- What a run of the scan does: it adds one outcome for each block that is not a reminder, and
where all are positive, each of these blocks is evidence and the quality is complete. -/
structure Collects (env : Python) (ignoredTexts : List String) (tool : String)
    (content : List Py) (next : Scan) : Prop where
  counted : next.outcomes.length = (content.filter fun b => !isIgnored ignoredTexts b).length
  sound : (∀ o ∈ next.outcomes, o.positive = true) →
    (∀ block ∈ content, isIgnored ignoredTexts block = false → IsEvidence env tool block) ∧
      (next.outcomes ≠ [] → incomplete next.quality = false)

theorem scan_collects (content : List Py) : Collects env ignoredTexts tool content
      (content.foldl (scanBlock env ignoredTexts tool) ⟨[], [], []⟩) := by
  induction content using List.reverseRecOn with
  | nil =>
    refine ⟨rfl, fun _ => ⟨fun block hblock => ?_, fun h => absurd rfl h⟩⟩
    cases hblock
  | append_singleton content last ih =>
    rw [foldl_append, foldl_cons, foldl_nil]
    generalize content.foldl (scanBlock env ignoredTexts tool) ⟨[], [], []⟩ = scan at ih
    cases hignored : isIgnored ignoredTexts last with
    | true =>
      rw [scan_block_ignored hignored]
      refine ⟨by simp [ih.counted, hignored], fun hall => ?_⟩
      obtain ⟨hevidence, hcomplete⟩ := ih.sound hall
      refine ⟨fun block hblock hread => ?_, hcomplete⟩
      rcases mem_append.mp hblock with hmem | hmem
      · exact hevidence block hmem hread
      · rw [mem_singleton.mp hmem, hignored] at hread
        cases hread
    | false =>
      have hadds : Adds (IsEvidence env tool last) scan
          (scanBlock env ignoredTexts tool scan last) := scan_block_adds hignored
      obtain ⟨outcome, hgrows, hpositive⟩ := hadds.grows
      refine ⟨by simp [hgrows, ih.counted, hignored], fun hall => ?_⟩
      rw [hgrows] at hall
      have hlast := hpositive (hall outcome (by simp))
      have hbefore := ih.sound fun o ho => hall o (by simp [ho])
      refine ⟨fun block hblock hread => ?_, fun _ => hlast.2⟩
      rcases mem_append.mp hblock with hmem | hmem
      · exact hbefore.1 block hmem hread
      · rw [mem_singleton.mp hmem]
        exact hlast.1

theorem positive_of_combined {outcomes : List Outcome} (h : (combined outcomes).positive = true) :
    (∀ o ∈ outcomes, o.positive = true) ∧ outcomes ≠ [] := by
  refine ⟨Chat.positive_of_aggregate (combined_eq_aggregate outcomes ▸ h), ?_⟩
  rintro rfl
  cases h

/-! ## The verdict -/

/-- What a verdict of success rests on: the status of the result, at most 16 blocks, one of them
not a reminder, and each that is not a reminder being evidence. -/
structure Grounded (env : Python) (ignoredTexts : List String) (tool : String)
    (result : Fields) (content : List Py) : Prop where
  status : (Py.get result "status").isText "success" = true
  few : content.length ≤ 16
  some : ∃ block ∈ content, isIgnored ignoredTexts block = false
  all : ∀ block ∈ content, isIgnored ignoredTexts block = false → IsEvidence env tool block

theorem scan_content_positive {content : List Py}
    (h : (combined (scanContent env ignoredTexts tool content).outcomes).positive = true) :
    content.length ≤ 16 ∧ (∃ block ∈ content, isIgnored ignoredTexts block = false) ∧
      (∀ block ∈ content, isIgnored ignoredTexts block = false → IsEvidence env tool block) ∧
      incomplete (scanContent env ignoredTexts tool content).quality = false := by
  obtain ⟨hall, hsome⟩ := positive_of_combined h
  have hfew : content.length ≤ 16 := by
    by_contra hmany
    have hlast : Outcome.unverified ∈ (scanContent env ignoredTexts tool content).outcomes := by
      simp [scanContent, show content.length > 16 by omega, Scan.add]
    cases hall _ hlast
  have hscan : scanContent env ignoredTexts tool content =
      content.foldl (scanBlock env ignoredTexts tool) ⟨[], [], []⟩ := by
    rw [scanContent, if_neg (by omega), take_of_length_le hfew]
  rw [hscan] at hall hsome ⊢
  have hcollects : Collects env ignoredTexts tool content _ := scan_collects content
  obtain ⟨hevidence, hcomplete⟩ := hcollects.sound hall
  refine ⟨hfew, ?_, hevidence, hcomplete hsome⟩
  -- There are as many outcomes as blocks that are not reminders.
  by_contra hnone
  push Not at hnone
  have hempty : content.filter (fun b => !isIgnored ignoredTexts b) = [] :=
    filter_eq_nil_iff.mpr fun b hb => by simpa using hnone b hb
  apply hsome
  apply eq_nil_of_length_eq_zero
  rw [hcollects.counted, hempty, length_nil]

theorem terminal_eq_of_positive {result : Fields}
    (h : (terminal env result ignoredTexts tool).1.positive = true) :
    (Py.get result "status").isText "success" = true ∧
      ∃ content, Py.get result "content" = .list content ∧ terminal env result ignoredTexts tool =
          (combined (scanContent env ignoredTexts tool content).outcomes,
            (scanContent env ignoredTexts tool content).quality,
            (scanContent env ignoredTexts tool content).observed) := by
  by_cases herror : (Py.get result "status").isText "error" = true
  · rw [terminal, if_pos herror] at h
    cases h
  by_cases hstatus : (Py.get result "status").isText "success" = true
  · refine ⟨hstatus, ?_⟩
    have hnot : ¬ (!(Py.get result "status").isText "success") = true := by simp [hstatus]
    cases hcontent : Py.get result "content" with
    | list content =>
      refine ⟨content, rfl, ?_⟩
      by_cases hempty : content.isEmpty = true
      · rw [terminal, if_neg herror, if_neg hnot, hcontent] at h
        simp only [Py.asList, if_pos hempty] at h
        cases h
      · rw [terminal, if_neg herror, if_neg hnot, hcontent]
        simp only [Py.asList, if_neg hempty]
    | _ =>
      rw [terminal, if_neg herror, if_neg hnot, hcontent] at h
      cases h
  · rw [terminal, if_neg herror, if_pos (by simpa using hstatus)] at h
    cases h

/-- A call counts as a success or as empty only where its result is a success with at most 16
blocks, of which one at least is evidence and none else but reminders, and where the combined
quality is complete. A block that is neither evidence nor a reminder, whatever its shape, leaves no
such verdict. -/
theorem terminal_sound (env : Python) (result : Fields) (ignoredTexts : List String)
    (tool : String) :
    ((terminal env result ignoredTexts tool).1.positive = true →
      ∃ content, Py.get result "content" = .list content ∧
        Grounded env ignoredTexts tool result content ∧
        incomplete (terminal env result ignoredTexts tool).2.1 = false) ∧
      ∀ content block, Py.get result "content" = .list content → block ∈ content →
        isIgnored ignoredTexts block = false → ¬ IsEvidence env tool block →
          (terminal env result ignoredTexts tool).1.positive = false := by
  have hsound : (terminal env result ignoredTexts tool).1.positive = true →
      ∃ content, Py.get result "content" = .list content ∧
        Grounded env ignoredTexts tool result content ∧
        incomplete (terminal env result ignoredTexts tool).2.1 = false := by
    intro h
    obtain ⟨hstatus, content, hcontent, heq⟩ := terminal_eq_of_positive h
    rw [heq] at h ⊢
    obtain ⟨hfew, hsome, hall, hcomplete⟩ := scan_content_positive h
    exact ⟨content, hcontent, ⟨hstatus, hfew, hsome, hall⟩, hcomplete⟩
  refine ⟨hsound, fun content block hcontent hblock hread hbad => ?_⟩
  by_contra hpositive
  obtain ⟨content', hcontent', hgrounded, -⟩ := hsound (by simpa using hpositive)
  obtain rfl : content = content' := by
    rw [hcontent] at hcontent'
    exact Py.list.inj hcontent'
  exact hbad (hgrounded.all block hblock hread)

/-- A text of JSON, and the values that Python reads it as. -/
def sampleText : String :=
  "\x7b\"found\": true, \"item\": \x7b\"id\": \"a\"\x7d\x7d"

/-- Python, as far as the sample asks. -/
def samplePython : Python where
  unicode := Text.Unicode.ascii
  loads s := if s = sampleText then
      some (.dict [("found", .bool true), ("item", .dict [("id", .str "a")])])
    else none
  stamp _ := none

/-- A result with a reminder and one item of a table. -/
def sampleResult : Fields :=
  [("status", .str "success"),
    ("content", .list [.dict [("text", .str sampleText)], .dict [("text", .str "Reply in English.")]])]

theorem terminal_sound_sample :
    (terminal samplePython sampleResult ["Reply in English."] "dynamodb___get_item").1 = .success ∧
      ∃ content, Py.get sampleResult "content" = .list content ∧
        Grounded samplePython ["Reply in English."] "dynamodb___get_item" sampleResult content ∧
        incomplete
          (terminal samplePython sampleResult ["Reply in English."] "dynamodb___get_item").2.1 =
            false :=
  ⟨by decide +kernel,
    (terminal_sound samplePython sampleResult ["Reply in English."] "dynamodb___get_item").1
      (by decide +kernel)⟩

end AwsOps.Agent
