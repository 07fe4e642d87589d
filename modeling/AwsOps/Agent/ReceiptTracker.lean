import AwsOps.Agent.Terminal

/-!
# The receipts of a run

`ReceiptTracker` of `tool_receipts.py`: what it keeps of the tool uses and tool results in the
events of a run, and the frames it reports. An event is a dictionary of any shape. A result whose
call id cannot be hashed raises, and the frames are then read from what the tracker holds at that
point. `tracker_accounts` says what a run leaves behind.
-/

namespace AwsOps.Agent

open List

open Py (Fields)
open Chat (Outcome ReceiptOutcome)

/-! ## Receipts -/

def maxCalls : Nat :=
  32

/-- The receipt of a call. The clock and the quality of its result are there once it has one. -/
structure Receipt where
  callId : String
  tool : String
  observedAt : Int
  outcome : ReceiptOutcome
  inputs : Fields
  requestedScope : Fields
  observedScope : Fields
  terminalObservedAt : Option Int
  quality : Option Fields

/-- What names a receipt. -/
def Receipt.identity (receipt : Receipt) : String × String × Int :=
  (receipt.callId, receipt.tool, receipt.observedAt)

def Receipt.start (callId tool : String) (now : Int) : Receipt where
  callId := callId
  tool := tool
  observedAt := now
  outcome := .unfinished
  inputs := []
  requestedScope := []
  observedScope := []
  terminalObservedAt := none
  quality := none

/-- The text of a call id or a tool name, if it is one. -/
def toolId (value : Py) : Option String :=
  value.asStr.filter fun s => s.length ≤ 128 && Chat.isId s.toList

variable (env : Python)

def inputPatterns : List (String × (List Char → Bool)) :=
  [("target_account_id", Patterns.isAccount (isDigit env)),
    ("account_id", Patterns.isAccount (isDigit env)), ("region", Patterns.isRegion (isDigit env)),
    ("resource_id", Patterns.isResourceOf Patterns.resourceKinds),
    ("eni_id", Patterns.isResourceOf ["eni"]), ("vpc_id", Patterns.isResourceOf ["vpc"])]

def safeInputs (value : Py) : Fields :=
  projected ((inputPatterns env).map fun p => (p.1, matching p.2 128)) (value.asDict.getD [])

/-- The scope that the inputs of a call ask for. -/
def scopeOfInputs (inputs : Fields) : Fields :=
  scope env (.dict
    [("accountId", (Py.find inputs "target_account_id").getD (Py.get inputs "account_id")),
      ("region", Py.get inputs "region"),
      ("resourceId", (Py.find inputs "resource_id").getD (Py.get inputs "eni_id"))])

/-- A tool use whose input is complete supplies the inputs. -/
def Receipt.withInput (use : Fields) (receipt : Receipt) : Receipt :=
  match Py.get use "input" with
  | .dict input =>
    let inputs := safeInputs env (.dict input)
    { receipt with inputs, requestedScope := scopeOfInputs env inputs }
  | _ => receipt

/-- The outcome of a call: a topology without a collection confirms nothing. -/
def terminalOutcome (tool : String) (outcome : Outcome) (q : Fields) : Outcome :=
  if "get_topology".toList <:+ tool.toList ∧ Py.has q "collection" = false ∧
      outcome.positive = true then .unverified
  else outcome

def Receipt.settle (ignoredTexts : List String) (now : Int) (result : Fields)
    (receipt : Receipt) : Receipt :=
  let (outcome, q, observed) := terminal env result ignoredTexts receipt.tool
  { receipt with
    outcome := .known (terminalOutcome receipt.tool outcome q)
    terminalObservedAt := some now
    quality := some q
    observedScope := observed }

/-! ## The tracker -/

/-- `ReceiptTracker`: the receipts in the order of their calls, and whether one was dropped. -/
structure Tracker where
  calls : List Receipt
  truncated : Bool
  ignoredTexts : List String

/-- The tracker of a run that begins. -/
def Tracker.start (ignoredTexts : List String) : Tracker where
  calls := []
  truncated := false
  ignoredTexts := ignoredTexts

def Tracker.holds (t : Tracker) (callId : String) : Bool :=
  t.calls.any fun receipt => receipt.callId == callId

def Tracker.change (t : Tracker) (callId : String) (f : Receipt → Receipt) : Tracker :=
  { t with calls := t.calls.map fun receipt => if receipt.callId = callId then f receipt else receipt }

/-- Something was dropped. -/
def Tracker.drop (t : Tracker) : Tracker :=
  { t with truncated := true }

/-- One tool use of an event. -/
def observeUse (now : Int) (t : Tracker) (use : Py) : Tracker :=
  match use.asDict with
  | none => t
  | some use =>
    match toolId (Py.get use "toolUseId"), toolId (Py.get use "name") with
    | some callId, some tool =>
      if t.holds callId then t.change callId (Receipt.withInput env use)
      else if maxCalls ≤ t.calls.length then t.drop
      else
        { t with calls := t.calls ++ [(Receipt.start callId tool now).withInput env use] }
    | _, _ => t.drop

def resultOf (block : Py) : Option Fields :=
  block.asDict.bind fun block => (Py.get block "toolResult").asDict

/-- One block of an event. Looking up an id that cannot be hashed raises. -/
def observeBlock (now : Int) (t : Tracker) (block : Py) : Except Tracker Tracker :=
  match resultOf block with
  | none => .ok t
  | some result =>
    let callId := Py.get result "toolUseId"
    if callId.hashable = false then .error t
    else
      match callId.asStr.filter t.holds with
      | none => .ok t.drop
      | some callId => .ok (t.change callId (Receipt.settle env t.ignoredTexts now result))

def blocksOf (event : Fields) : List Py :=
  match (Py.get event "message").asDict with
  | none => []
  | some message => (Py.get message "content").asList.getD []

/-- What stands for tool uses in an event. -/
def usesOf (event : Fields) : List Py :=
  Py.get event "current_tool_use" ::
    (blocksOf event).filterMap fun block => block.asDict.map fun block => Py.get block "toolUse"

/-- `observe`: the tool uses of an event and then its results. -/
def observe (t : Tracker) (event : Int × Fields) : Except Tracker Tracker :=
  (blocksOf event.2).foldlM (observeBlock env event.1) ((usesOf event.2).foldl (observeUse env event.1) t)

/-- A run observes its events until one raises. -/
def observeAll (t : Tracker) (events : List (Int × Fields)) : Except Tracker Tracker :=
  events.foldlM (observe env) t

/-- What the tracker holds when the frames are read. -/
def left : Except Tracker Tracker → Tracker
  | .ok t => t
  | .error t => t

/-- What the tracker reports. -/
inductive Frame where
  | receipt (receipt : Receipt)
  | evidenceTruncated
  | completion (receiptCount : Nat)

def Tracker.frames (t : Tracker) (completed : Bool) : List Frame :=
  t.calls.map Frame.receipt ++ (if t.truncated then [.evidenceTruncated] else []) ++
    if completed then [.completion t.calls.length] else []

/-! ## What a run leaves behind -/

/-- The names of the receipts, in their order. -/
def Tracker.identities (t : Tracker) : List (String × String × Int) :=
  t.calls.map Receipt.identity

def resultsOf (event : Fields) : List Fields :=
  (blocksOf event).filterMap resultOf

/-- The tool use has a receipt under its id. -/
def Recorded (t : Tracker) (use : Fields) : Prop :=
  ∃ callId tool, toolId (Py.get use "toolUseId") = some callId ∧
    toolId (Py.get use "name") = some tool ∧ ∃ receipt ∈ t.calls, receipt.callId = callId

/-- The result has settled the receipt of its id. -/
def Settled (t : Tracker) (result : Fields) : Prop :=
  ∃ receipt ∈ t.calls, Py.get result "toolUseId" = .str receipt.callId ∧
    receipt.terminalObservedAt.isSome = true

/-- What is dropped of an event sets the flag. -/
structure Accounts (t : Tracker) (event : Fields) : Prop where
  uses : ∀ use, .dict use ∈ usesOf event → Recorded t use ∨ t.truncated = true
  results : ∀ result ∈ resultsOf event, Settled t result ∨ t.truncated = true

/-- The ids of the results of an event can be looked up. -/
def HashableIds (event : Fields) : Prop :=
  ∀ result ∈ resultsOf event, (Py.get result "toolUseId").hashable = true

/-- A receipt of the frames. -/
def Frame.isReceipt : Frame → Bool
  | .receipt _ => true
  | _ => false

/-- The later tracker has kept what the earlier one held. -/
structure Extends (s t : Tracker) : Prop where
  identities : s.identities <+: t.identities
  truncated : s.truncated = true → t.truncated = true
  settled : ∀ result, Settled s result → Settled t result

section Steps

variable {env}

theorem Extends.refl (t : Tracker) : Extends t t where
  identities := prefix_refl _
  truncated h := h
  settled _ h := h

theorem Extends.trans {r s t : Tracker} (h : Extends r s) (h' : Extends s t) : Extends r t where
  identities := h.identities.trans h'.identities
  truncated hr := h'.truncated (h.truncated hr)
  settled result hr := h'.settled result (h.settled result hr)

theorem mem_identities {t : Tracker} {callId : String} :
    (∃ receipt ∈ t.calls, receipt.callId = callId) ↔ ∃ x ∈ t.identities, x.1 = callId := by
  simp [Tracker.identities, Receipt.identity]

theorem Extends.recorded {s t : Tracker} (h : Extends s t) {use : Fields} (hs : Recorded s use) :
    Recorded t use := by
  obtain ⟨callId, tool, hid, htool, hheld⟩ := hs
  obtain ⟨x, hx, hxid⟩ := mem_identities.mp hheld
  exact ⟨callId, tool, hid, htool, mem_identities.mpr ⟨x, h.identities.subset hx, hxid⟩⟩

theorem Extends.accounts {s t : Tracker} (h : Extends s t) {event : Fields}
    (hs : Accounts s event) : Accounts t event where
  uses use hmem := (hs.uses use hmem).imp h.recorded h.truncated
  results result hmem := (hs.results result hmem).imp (h.settled result) h.truncated

theorem with_input_identity (use : Fields) (receipt : Receipt) :
    (receipt.withInput env use).identity = receipt.identity ∧
      (receipt.withInput env use).terminalObservedAt = receipt.terminalObservedAt := by
  unfold Receipt.withInput
  split <;> exact ⟨rfl, rfl⟩

theorem settle_identity (ignoredTexts : List String) (now : Int) (result : Fields)
    (receipt : Receipt) :
    (receipt.settle env ignoredTexts now result).identity = receipt.identity ∧
      (receipt.settle env ignoredTexts now result).terminalObservedAt = some now :=
  ⟨rfl, rfl⟩

theorem change_extends (t : Tracker) (callId : String) {f : Receipt → Receipt}
    (hidentity : ∀ receipt, (f receipt).identity = receipt.identity)
    (hsettled : ∀ receipt : Receipt, receipt.terminalObservedAt.isSome = true →
      (f receipt).terminalObservedAt.isSome = true) :
    Extends t (t.change callId f) ∧ (t.change callId f).identities = t.identities := by
  have hsame : (t.change callId f).identities = t.identities := by
    simp only [Tracker.identities, Tracker.change, map_map]
    refine map_congr_left fun receipt _ => ?_
    simp only [Function.comp_apply]
    split
    · exact hidentity receipt
    · rfl
  refine ⟨⟨by rw [hsame], fun h => h, fun result hresult => ?_⟩, hsame⟩
  obtain ⟨receipt, hmem, hid, hsome⟩ := hresult
  refine ⟨_, mem_map.mpr ⟨receipt, hmem, rfl⟩, ?_, ?_⟩
  · split
    · rw [hid]
      exact congrArg Py.str (congrArg Prod.fst (hidentity receipt)).symm
    · exact hid
  · split
    · exact hsettled receipt hsome
    · exact hsome

theorem drop_extends (t : Tracker) : Extends t t.drop where
  identities := prefix_refl _
  truncated _ := rfl
  settled _ h := h

theorem append_extends (t : Tracker) (receipt : Receipt) :
    Extends t { t with calls := t.calls ++ [receipt] } where
  identities := by
    simp only [Tracker.identities, map_append]
    exact prefix_append _ _
  truncated h := h
  settled := by
    rintro result ⟨receipt, hmem, hid, hsome⟩
    exact ⟨receipt, mem_append_left _ hmem, hid, hsome⟩

/-- The tracker holds a bounded number of calls, one for each id. -/
structure Bounded (t : Tracker) : Prop where
  calls : t.calls.length ≤ maxCalls
  ids : (t.calls.map Receipt.callId).Nodup

theorem Bounded.of_identities {s t : Tracker} (h : Bounded s) (heq : t.identities = s.identities) :
    Bounded t := by
  have hids : ∀ r : Tracker, r.calls.map Receipt.callId = r.identities.map Prod.fst := by
    intro r
    simp [Tracker.identities, Receipt.identity]
  have hlength : t.calls.length = s.calls.length := by
    simpa [Tracker.identities] using congrArg List.length heq
  refine ⟨hlength ▸ h.calls, ?_⟩
  rw [hids, heq, ← hids]
  exact h.ids

theorem holds_iff {t : Tracker} {callId : String} :
    t.holds callId = true ↔ ∃ receipt ∈ t.calls, receipt.callId = callId := by
  simp [Tracker.holds]

theorem observe_use_step (now : Int) (t : Tracker) (use : Py) :
    Extends t (observeUse env now t use) ∧ (Bounded t → Bounded (observeUse env now t use)) ∧
      ∀ fields, use = .dict fields →
        Recorded (observeUse env now t use) fields ∨ (observeUse env now t use).truncated = true := by
  unfold observeUse
  cases use with
  | dict use =>
    dsimp only [Py.asDict]
    split
    · rename_i callId tool hid htool
      split
      · rename_i hheld
        obtain ⟨hextends, hsame⟩ := change_extends t callId
          (f := Receipt.withInput env use) (fun r => (with_input_identity use r).1)
          (fun r h => by rw [(with_input_identity use r).2]; exact h)
        refine ⟨hextends, fun h => h.of_identities hsame, fun fields hfields => ?_⟩
        cases hfields
        exact .inl (hextends.recorded ⟨callId, tool, hid, htool, holds_iff.mp hheld⟩)
      · rename_i hfree
        split
        · exact ⟨drop_extends t, fun h => ⟨h.calls, h.ids⟩, fun _ _ => .inr rfl⟩
        · rename_i hroom
          have hname := (@with_input_identity env use (Receipt.start callId tool now)).1
          have hcallId : ((Receipt.start callId tool now).withInput env use).callId = callId :=
            congrArg Prod.fst hname
          refine ⟨append_extends t _, fun h => ⟨?_, ?_⟩, fun fields hfields => ?_⟩
          · simp only [length_append, length_singleton]
            omega
          · simp only [map_append, map_cons, map_nil, hcallId]
            refine nodup_append.mpr ⟨h.ids, nodup_singleton _, ?_⟩
            intro id hmem id' hmem' heq
            rw [mem_singleton.mp hmem'] at heq
            subst heq
            obtain ⟨receipt, hreceipt, hsame⟩ := mem_map.mp hmem
            exact hfree (holds_iff.mpr ⟨receipt, hreceipt, hsame⟩)
          · cases hfields
            exact .inl ⟨callId, tool, hid, htool, _,
              mem_append_right _ (mem_singleton.mpr rfl), hcallId⟩
    · exact ⟨drop_extends t, fun h => ⟨h.calls, h.ids⟩, fun _ _ => .inr rfl⟩
  | _ => exact ⟨Extends.refl t, fun h => h, fun fields hfields => by cases hfields⟩

theorem observe_uses_fold (now : Int) (t : Tracker) (uses : List Py) :
    Extends t (uses.foldl (observeUse env now) t) ∧
      (Bounded t → Bounded (uses.foldl (observeUse env now) t)) ∧
      ∀ use, .dict use ∈ uses → Recorded (uses.foldl (observeUse env now) t) use ∨
        (uses.foldl (observeUse env now) t).truncated = true := by
  induction uses generalizing t with
  | nil => exact ⟨Extends.refl t, fun h => h, fun use h => by cases h⟩
  | cons use rest ih =>
    obtain ⟨hstep, hbound, hrecorded⟩ := @observe_use_step env now t use
    obtain ⟨hrest, hrestBound, hrestRecorded⟩ := ih (observeUse env now t use)
    refine ⟨hstep.trans hrest, fun h => hrestBound (hbound h), fun fields hmem => ?_⟩
    rcases mem_cons.mp hmem with heq | hmem
    · exact (hrecorded fields heq.symm).imp hrest.recorded hrest.truncated
    · exact hrestRecorded fields hmem

/-- Looking up the id of the block's result does not raise. -/
def Hashable (block : Py) : Prop :=
  ∀ result ∈ resultOf block, (Py.get result "toolUseId").hashable = true

/-- A step keeps what the tracker held and its bounds, and when `hash` holds it does not raise and
reaches the goal. -/
abbrev Keeps (hash : Prop) (goal : Tracker → Prop) (t : Tracker) (r : Except Tracker Tracker) : Prop :=
  Extends t (left r) ∧ (Bounded t → Bounded (left r)) ∧ (hash → (∃ s, r = .ok s) ∧ goal (left r))

/-- Steps reach all their goals when what a step has reached is not lost. -/
theorem foldlM_keeps {α : Type} {f : Tracker → α → Except Tracker Tracker} {hash : α → Prop}
    {goal : α → Tracker → Prop} (hstep : ∀ t a, Keeps (hash a) (goal a) t (f t a))
    (hlater : ∀ a s t, Extends s t → goal a s → goal a t) (t : Tracker) (as : List α) :
    Keeps (∀ a ∈ as, hash a) (fun s => ∀ a ∈ as, goal a s) t (as.foldlM f t) := by
  induction as generalizing t with
  | nil => exact ⟨Extends.refl t, fun h => h, fun _ => ⟨⟨t, rfl⟩, fun a h => by cases h⟩⟩
  | cons a rest ih =>
    obtain ⟨hfirst, hbound, hgoal⟩ := hstep t a
    rw [foldlM_cons]
    cases hf : f t a with
    | error s =>
      rw [hf] at hfirst hbound hgoal
      refine ⟨hfirst, hbound, fun hhash => ?_⟩
      obtain ⟨⟨s', hs'⟩, -⟩ := hgoal (hhash a mem_cons_self)
      cases hs'
    | ok s =>
      rw [hf] at hfirst hbound hgoal
      obtain ⟨hrest, hrestBound, hrestGoals⟩ := ih s
      refine ⟨hfirst.trans hrest, fun h => hrestBound (hbound h), fun hhash => ?_⟩
      obtain ⟨-, hreached⟩ := hgoal (hhash a mem_cons_self)
      obtain ⟨hok, hall⟩ := hrestGoals fun b hb => hhash b (mem_cons_of_mem a hb)
      refine ⟨hok, fun b hb => ?_⟩
      rcases mem_cons.mp hb with rfl | hb
      · exact hlater b s _ hrest hreached
      · exact hall b hb

/-- The result of the block is settled, or the tracker is truncated. -/
def SettledIn (block : Py) (t : Tracker) : Prop :=
  ∀ result ∈ resultOf block, Settled t result ∨ t.truncated = true

theorem observe_block_step (now : Int) (t : Tracker) (block : Py) :
    Keeps (Hashable block) (SettledIn block) t (observeBlock env now t block) := by
  unfold observeBlock Hashable SettledIn
  cases resultOf block with
  | none => exact ⟨Extends.refl t, fun h => h, fun _ => ⟨⟨t, rfl⟩, fun result h => by cases h⟩⟩
  | some result =>
    dsimp only
    split
    · rename_i hraises
      refine ⟨Extends.refl t, fun h => h, fun hhash => ?_⟩
      rw [hhash result rfl] at hraises
      cases hraises
    · split
      · exact ⟨drop_extends t, fun h => ⟨h.calls, h.ids⟩, fun _ => ⟨⟨_, rfl⟩, fun _ _ => .inr rfl⟩⟩
      · rename_i callId hfound
        obtain ⟨hid, hheld⟩ := Option.filter_eq_some_iff.mp hfound
        obtain ⟨hextends, hsame⟩ := change_extends t callId
          (f := Receipt.settle env t.ignoredTexts now result)
          (fun r => (settle_identity t.ignoredTexts now result r).1)
          (fun r _ => congrArg Option.isSome (settle_identity t.ignoredTexts now result r).2)
        refine ⟨hextends, fun h => h.of_identities hsame, fun _ => ⟨⟨_, rfl⟩, fun result' h => ?_⟩⟩
        cases h
        obtain ⟨receipt, hmem, rfl⟩ := holds_iff.mp hheld
        refine .inl ⟨receipt.settle env t.ignoredTexts now result,
          mem_map.mpr ⟨receipt, hmem, if_pos rfl⟩, ?_, rfl⟩
        cases hget : Py.get result "toolUseId" with
        | str s =>
          rw [hget] at hid
          cases hid
          rfl
        | _ =>
          rw [hget] at hid
          cases hid

theorem observe_step (t : Tracker) (event : Int × Fields) :
    Keeps (HashableIds event.2) (fun s => Accounts s event.2) t (observe env t event) := by
  obtain ⟨huses, husesBound, hrecorded⟩ := @observe_uses_fold env event.1 t (usesOf event.2)
  obtain ⟨hblocks, hblocksBound, hsettled⟩ := foldlM_keeps (@observe_block_step env event.1)
    (fun _ _ _ h hs result hresult => (hs result hresult).imp (h.settled result) h.truncated)
    ((usesOf event.2).foldl (observeUse env event.1) t) (blocksOf event.2)
  refine ⟨huses.trans hblocks, fun h => hblocksBound (husesBound h), fun hhash => ?_⟩
  obtain ⟨hok, hall⟩ := hsettled fun block hblock result hresult =>
    hhash result (mem_filterMap.mpr ⟨block, hblock, hresult⟩)
  refine ⟨hok, fun use huse => ?_, fun result hresult => ?_⟩
  · exact (hrecorded use huse).imp hblocks.recorded hblocks.truncated
  · obtain ⟨block, hblock, hof⟩ := mem_filterMap.mp hresult
    exact hall block hblock result hof

theorem observe_all_run (t : Tracker) (events : List (Int × Fields)) :
    Keeps (∀ event ∈ events, HashableIds event.2) (fun s => ∀ event ∈ events, Accounts s event.2) t
      (observeAll env t events) :=
  foldlM_keeps observe_step (fun _ _ _ h => h.accounts) t events

theorem observe_all_prefix (t : Tracker) {before events : List (Int × Fields)}
    (h : before <+: events) :
    Extends (left (observeAll env t before)) (left (observeAll env t events)) := by
  obtain ⟨rest, rfl⟩ := h
  have happend : observeAll env t (before ++ rest) =
      observeAll env t before >>= fun s => observeAll env s rest :=
    foldlM_append
  rw [happend]
  cases observeAll env t before with
  | error s => exact Extends.refl s
  | ok s => exact (observe_all_run s rest).1

theorem completion_counts (t : Tracker) (completed : Bool) {receiptCount : Nat}
    (h : Frame.completion receiptCount ∈ t.frames completed) :
    receiptCount = (t.frames completed).countP Frame.isReceipt := by
  have hcount : (t.frames completed).countP Frame.isReceipt = t.calls.length := by
    have hreceipts : (t.calls.map Frame.receipt).countP Frame.isReceipt = t.calls.length := by
      rw [countP_map]
      exact countP_eq_length.mpr fun _ _ => rfl
    simp only [Tracker.frames, countP_append, hreceipts]
    cases t.truncated <;> cases completed <;> rfl
  rw [hcount]
  simp only [Tracker.frames, mem_append] at h
  rcases h with (h | h) | h
  · simp at h
  · split at h <;> simp at h
  · split at h <;> simp at h
    exact h

end Steps

/-- After any events the tracker holds at most 32 calls, one for each id; what it held after the
first of them is still there, under the same names and in the same order; the completion frame
counts the receipts; and if the id of every result can be looked up, the run goes through, and every
tool use and result is in a receipt or the flag is set. -/
theorem tracker_accounts (env : Python) (ignoredTexts : List String)
    (events : List (Int × Fields)) :
    Bounded (left (observeAll env (.start ignoredTexts) events)) ∧ (∀ before, before <+: events →
        Extends (left (observeAll env (.start ignoredTexts) before))
          (left (observeAll env (.start ignoredTexts) events))) ∧
      (∀ completed receiptCount, Frame.completion receiptCount ∈
          (left (observeAll env (.start ignoredTexts) events)).frames completed →
        receiptCount = ((left (observeAll env (.start ignoredTexts) events)).frames
          completed).countP Frame.isReceipt) ∧
      ((∀ event ∈ events, HashableIds event.2) →
        (∃ t, observeAll env (.start ignoredTexts) events = .ok t) ∧ ∀ event ∈ events,
            Accounts (left (observeAll env (.start ignoredTexts) events)) event.2) := by
  obtain ⟨-, hbound, haccounts⟩ := @observe_all_run env (.start ignoredTexts) events
  have hstart : Bounded (Tracker.start ignoredTexts) := ⟨Nat.zero_le _, nodup_nil⟩
  exact ⟨hbound hstart, fun _ h => observe_all_prefix _ h, fun _ _ => completion_counts _ _, haccounts⟩

/-- An event with one tool use, and one with a result that names its call by a list. -/
def listedResult : List (Int × Fields) :=
  [(1000, [("current_tool_use",
      .dict [("toolUseId", .str "tooluse_1"), ("name", .str "aws-ops___get_item")])]),
    (2000, [("message", .dict [("content", .list
      [.dict [("toolResult", .dict [("toolUseId", .list [.str "tooluse_1"]),
        ("status", .str "success")])]])])])]

/-- A result whose id is a list is dropped by an exception, and nothing says so. -/
theorem listed_result_unflagged :
    ¬∀ (env : Python) (ignoredTexts : List String) (events : List (Int × Fields)), ∀ event ∈ events,
        Accounts (left (observeAll env (.start ignoredTexts) events)) event.2 := by
  intro h
  have haccounts := h samplePython [] listedResult _ (mem_cons_of_mem _ mem_cons_self)
  have hresult : [("toolUseId", Py.list [.str "tooluse_1"]), ("status", .str "success")] ∈
      resultsOf [("message", .dict [("content", .list
        [.dict [("toolResult", .dict [("toolUseId", .list [.str "tooluse_1"]),
          ("status", .str "success")])]])])] := mem_cons_self
  rcases haccounts.results _ hresult with ⟨receipt, -, hid, -⟩ | hflag
  · cases hid
  · revert hflag
    decide +kernel

end AwsOps.Agent
