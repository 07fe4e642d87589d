import AwsOps.Chat.Quality

/-!
# Reading receipts again

A receipt that was normalized is normal: reading it as a value gives it again, with the properties
of its quality in another order. A buffer of receipts never holds more than it has room for, and
this holds of every part of it, so that adding its receipts to an empty buffer drops none of them.
-/

namespace AwsOps.Chat

open List ReceiptBuffer ReceiptOutcome

open Js (Fields get set keys sorted)

/-! ## Records of texts -/

def patternRule (pattern : String × (List Char → Bool)) : String × (Js → Bool) :=
  (pattern.1, isMatch pattern.2 128)

theorem matched_eq (fields : Fields) (pattern : String × (List Char → Bool)) :
    (matched fields pattern).map (fun text => (text.1, Js.str text.2)) =
      ((get fields pattern.1).filter (patternRule pattern).2).map fun value =>
        (pattern.1, value) := by
  unfold matched
  cases get fields pattern.1 with
  | none => rfl
  | some found =>
    cases found with
    | str s => by_cases h : isMatch pattern.2 128 (.str s) = true <;>
        simp [patternRule, Option.filter, h]
    | null | bool | num | arr | obj => rfl

theorem record_strings (patterns : List (String × (List Char → Bool))) (value : Option Js) :
    record (strings patterns value) = .obj (projected (patterns.map patternRule) (obj value)) := by
  unfold record strings projected
  rw [map_filterMap, filterMap_map]
  exact congrArg Js.obj (filterMap_congr fun pattern _ => matched_eq _ pattern)

theorem strings_record {patterns : List (String × (List Char → Bool))}
    (h : (patterns.map Prod.fst).Nodup) (value : Option Js) :
    strings patterns (some (record (strings patterns value))) = strings patterns value := by
  have hnodup : (names (patterns.map patternRule)).Nodup := by
    rw [names, map_map]
    exact h
  rw [record_strings]
  refine filterMap_congr fun pattern hpattern => ?_
  have hget : get (projected (patterns.map patternRule) (obj value)) pattern.1 =
      (get (obj value) pattern.1).filter (patternRule pattern).2 :=
    get_projected hnodup (mem_map_of_mem hpattern)
  show matched (projected (patterns.map patternRule) (obj value)) pattern = _
  rw [matched, hget, matched]
  cases get (obj value) pattern.1 with
  | none => rfl
  | some found =>
    cases found with
    | str s => by_cases h : isMatch pattern.2 128 (.str s) = true <;>
        simp [patternRule, Option.filter, h]
    | null | bool | num | arr | obj => rfl

/-! ## Outcomes -/

@[simp] theorem Outcome.read_text (outcome : Outcome) :
    Outcome.read (some (.str outcome.text)) = some outcome := by
  cases outcome <;> decide

theorem ReceiptOutcome.read_text (outcome : ReceiptOutcome) :
    read (some (.str outcome.text)) = some outcome := by
  cases outcome with
  | known outcome =>
    rw [text, read, Outcome.read_text]
  | unfinished => decide

theorem receiptOutcome_idem (outcome : ReceiptOutcome) (finished : Option Rat) (q : Fields) :
    receiptOutcome (receiptOutcome outcome finished q) finished q =
      receiptOutcome outcome finished q := by
  cases outcome with
  | unfinished => rfl
  | known outcome =>
    cases finished <;> cases hq : incomplete q <;> cases outcome <;>
      simp [receiptOutcome, Outcome.positive, hq]

/-! ## Normal receipts -/

structure Normal (r : ToolReceipt) : Prop where
  callId : isMatch isId 128 (.str r.callId) = true
  tool : isMatch isId 128 (.str r.tool) = true
  observedAt : isNum (.num (.finite r.observedAt)) = true
  terminal : ∀ finished, r.terminalObservedAt = some finished →
    isNum (.num (.finite finished)) = true ∧ r.observedAt ≤ finished
  outcome : receiptOutcome r.outcome r.terminalObservedAt r.quality = r.outcome
  inputs : strings inputPatterns (some (record r.inputs)) = r.inputs
  requestedScope : strings scopePatterns (some (record r.requestedScope)) = r.requestedScope
  observedScope : strings scopePatterns (some (record r.observedScope)) = r.observedScope
  quality : Settled r.quality

theorem readId_eq_some {max : Nat} {value : Option Js} {s : String}
    (h : readId max value = some s) : isMatch isId max (.str s) = true := by
  unfold readId at h
  split at h
  · split at h
    · rename_i hmatch
      exact Option.some.inj h ▸ hmatch
    · cases h
  · cases h

theorem readId_str {max : Nat} {s : String} (h : isMatch isId max (.str s) = true) :
    readId max (some (.str s)) = some s := by
  rw [readId, if_pos h]

theorem readNum_eq_some {value : Option Js} {n : Rat} (h : readNum value = some n) :
    isNum (.num (.finite n)) = true := by
  unfold readNum at h
  split at h
  · split at h
    · rename_i hnum
      exact Option.some.inj h ▸ hnum
    · cases h
  · cases h

theorem readNum_num {n : Rat} (h : isNum (.num (.finite n)) = true) :
    readNum (some (.num (.finite n))) = some n := by
  rw [readNum, if_pos h]

variable {r : ToolReceipt}

theorem normal_of_normalize {value : Js} (h : normalizeReceipt value = some r) : Normal r := by
  unfold normalizeReceipt at h
  dsimp only at h
  split at h
  · cases h
  · simp only [Option.bind_eq_bind, Option.bind_eq_some_iff] at h
    obtain ⟨callId, hcallId, tool, htool, observedAt, hobserved, outcome, -, h⟩ := h
    have hsettled : Settled (((get (obj (some value)) "quality").map quality).getD []) := by
      cases get (obj (some value)) "quality" with
      | none => exact .nil
      | some value => exact settled_quality value
    cases h
    refine
      { callId := readId_eq_some hcallId
        tool := readId_eq_some htool
        observedAt := readNum_eq_some hobserved
        terminal := fun finished hfinished => ?_
        outcome := receiptOutcome_idem _ _ _
        inputs := strings_record (by decide) _
        requestedScope := strings_record (by decide) _
        observedScope := strings_record (by decide) _
        quality := hsettled }
    obtain ⟨hread, hle⟩ := Option.filter_eq_some_iff.mp hfinished
    exact ⟨readNum_eq_some hread, of_decide_eq_true hle⟩

/-- The receipt with the properties of its quality in their order. -/
def ToolReceipt.tidy (r : ToolReceipt) : ToolReceipt :=
  { r with quality := Chat.quality (.obj r.quality) }

theorem get_json (r : ToolReceipt) : get (obj (some r.json)) "version" = some (Js.ofNat 1) ∧
      get (obj (some r.json)) "callId" = some (.str r.callId) ∧
      get (obj (some r.json)) "tool" = some (.str r.tool) ∧
      get (obj (some r.json)) "observedAt" = some (.num (.finite r.observedAt)) ∧
      get (obj (some r.json)) "terminalObservedAt" =
        (r.terminalObservedAt.map fun finished => .num (.finite finished)) ∧
      get (obj (some r.json)) "outcome" = some (.str r.outcome.text) ∧
      get (obj (some r.json)) "inputs" = some (record r.inputs) ∧
      get (obj (some r.json)) "requestedScope" = some (record r.requestedScope) ∧
      get (obj (some r.json)) "observedScope" = some (record r.observedScope) ∧
      get (obj (some r.json)) "quality" =
        if r.quality.isEmpty then none else some (.obj r.quality) := by
  cases hfinished : r.terminalObservedAt <;> cases hquality : r.quality.isEmpty <;>
    simp [ToolReceipt.json, obj, Js.get_cons, hfinished, hquality]

theorem Normal.normalize_json (h : Normal r) : normalizeReceipt r.json = some r.tidy := by
  obtain ⟨hversion, hcallId, htool, hobserved, hfinished, houtcome, hinputs, hrequested, hscope,
    hquality⟩ := get_json r
  have hone : isOne (some (Js.ofNat 1)) = true := by decide
  have hread : (readNum (r.terminalObservedAt.map fun finished => .num (.finite finished))).filter
      (fun finished => decide (r.observedAt ≤ finished)) = r.terminalObservedAt := by
    cases hterminal : r.terminalObservedAt with
    | none => rfl
    | some finished =>
      obtain ⟨hnum, hle⟩ := h.terminal finished hterminal
      rw [Option.map_some, readNum_num hnum]
      exact Option.filter_some_pos (decide_eq_true hle)
  have hsame : ((if r.quality.isEmpty then none else some (Js.obj r.quality)).map
      Chat.quality).getD [] = Chat.quality (.obj r.quality) := by
    cases hempty : r.quality.isEmpty with
    | false => rfl
    | true =>
      rw [isEmpty_iff.mp hempty]
      rfl
  have hkept : receiptOutcome r.outcome r.terminalObservedAt (Chat.quality (.obj r.quality)) =
      r.outcome := by
    have hincomplete : incomplete (Chat.quality (.obj r.quality)) = incomplete r.quality :=
      incomplete_congr (Js.get_perm h.quality.quality_perm (settled_quality _).nodup)
    have houtcome := h.outcome
    unfold receiptOutcome at houtcome ⊢
    rw [hincomplete]
    exact houtcome
  unfold normalizeReceipt
  simp only [hversion, hone, hcallId, htool, hobserved, hfinished, houtcome, hinputs, hrequested,
    hscope, hquality, readId_str h.callId, readId_str h.tool, readNum_num h.observedAt,
    read_text, hread, hsame, hkept, h.inputs, h.requestedScope, h.observedScope,
    Bool.not_true, Bool.false_eq_true, if_false, Option.bind_eq_bind, Option.bind_some]
  rfl

theorem Normal.isEmpty_tidy (h : Normal r) : r.tidy.quality.isEmpty = r.quality.isEmpty := by
  have hlength : r.tidy.quality.length = r.quality.length := h.quality.quality_perm.length_eq
  rw [Bool.eq_iff_iff, isEmpty_iff_length_eq_zero, isEmpty_iff_length_eq_zero, hlength]

theorem Normal.text_length_tidy (h : Normal r) (number : JsNumber → List Char) :
    Js.textLength number r.tidy.json = Js.textLength number r.json := by
  unfold ToolReceipt.json
  rw [h.isEmpty_tidy]
  cases hempty : r.quality.isEmpty with
  | true => rfl
  | false => exact Js.text_length_obj_last (Js.text_length_obj_perm h.quality.quality_perm)

/-! ## Buffers -/

/-- The receipts that a buffer can hold: normal ones with distinct calls, at most 32, such that
each could be added behind any part of those before it. -/
structure Bounded (engine : Engine) (receipts : List ToolReceipt) : Prop where
  normal : ∀ r ∈ receipts, Normal r
  distinct : (receipts.map ToolReceipt.callId).Nodup
  few : receipts.length ≤ 32
  fits : ∀ (before : List ToolReceipt) (r : ToolReceipt), (before ++ [r]).Sublist receipts →
    Js.textLength engine.number (.arr (before.map ToolReceipt.json)) +
      Js.textLength engine.number r.json ≤ 16000

variable {engine : Engine}

namespace Bounded

theorem nil : Bounded engine [] where
  normal _ h := absurd h not_mem_nil
  distinct := nodup_nil
  few := Nat.zero_le _
  fits before r h := by
    have hlength := h.length_le
    rw [length_append] at hlength
    exact absurd hlength (by simp)

theorem sublist {receipts receipts' : List ToolReceipt} (h : Bounded engine receipts)
    (hsub : receipts'.Sublist receipts) : Bounded engine receipts' where
  normal r hr := h.normal r (hsub.subset hr)
  distinct := (hsub.map _).nodup h.distinct
  few := hsub.length_le.trans h.few
  fits before r hr := h.fits before r (hr.trans hsub)

theorem push {receipts : List ToolReceipt} (h : Bounded engine receipts) (hr : Normal r)
    (hnew : r.callId ∉ receipts.map ToolReceipt.callId) (hfew : receipts.length < 32)
    (hroom : Js.textLength engine.number (.arr (receipts.map ToolReceipt.json)) +
      Js.textLength engine.number r.json ≤ 16000) : Bounded engine (receipts ++ [r]) where
  normal := by
    intro s hs
    rcases mem_append.mp hs with hs | hs
    · exact h.normal s hs
    · rw [mem_singleton.mp hs]
      exact hr
  distinct := by
    rw [map_append, nodup_append]
    refine ⟨h.distinct, nodup_singleton _, fun a ha b hb heq => ?_⟩
    rw [heq, mem_singleton.mp hb] at ha
    exact hnew ha
  few := by
    rw [length_append]
    exact hfew
  fits := by
    intro before s hs
    -- either the last receipt is the new one, or the new one is not among them
    obtain ⟨front, back, hsplit, hfront, hback⟩ := sublist_append_iff.mp hs
    rcases sublist_singleton.mp hback with rfl | rfl
    · rw [append_nil] at hsplit
      rw [← hsplit] at hfront
      exact h.fits before s hfront
    · obtain ⟨rfl, hlast⟩ := append_inj' hsplit rfl
      obtain rfl : s = r := (List.cons.inj hlast).1
      have hle : Js.textLength engine.number (.arr (before.map ToolReceipt.json)) ≤
          Js.textLength engine.number (.arr (receipts.map ToolReceipt.json)) :=
        Js.text_length_arr_le (hfront.map ToolReceipt.json)
      omega

end Bounded

theorem callId_not_mem_eraseP {receipts : List ToolReceipt} {callId : String}
    (h : (receipts.map ToolReceipt.callId).Nodup) :
    callId ∉ (receipts.eraseP fun r => r.callId == callId).map ToolReceipt.callId := by
  induction receipts with
  | nil => exact not_mem_nil
  | cons first rest ih =>
    rw [map_cons, nodup_cons] at h
    by_cases hfirst : first.callId = callId
    · have hpos : (first.callId == callId) = true := beq_iff_eq.mpr hfirst
      rw [eraseP_cons, hpos, cond_true, ← hfirst]
      exact h.1
    · have hneg : (first.callId == callId) = false := beq_eq_false_iff_ne.mpr hfirst
      rw [eraseP_cons, hneg, cond_false, map_cons, mem_cons, not_or]
      exact ⟨fun heq => hfirst heq.symm, ih h.2⟩

variable {buffer : ReceiptBuffer}

theorem ReceiptBuffer.push_bounded (h : Bounded engine buffer.receipts) (hr : Normal r)
    (hnew : r.callId ∉ buffer.receipts.map ToolReceipt.callId) :
    Bounded engine (buffer.push engine r).receipts := by
  unfold ReceiptBuffer.push
  split
  · exact h
  · rename_i hroom
    simp only [ge_iff_le, gt_iff_lt, Bool.or_eq_true, decide_eq_true_eq, not_or, not_le,
      not_lt] at hroom
    exact h.push hr hnew hroom.1 hroom.2

theorem ReceiptBuffer.add_bounded (h : Bounded engine buffer.receipts)
    (value : Js) : Bounded engine (buffer.add engine value).receipts := by
  unfold ReceiptBuffer.add
  cases hvalue : normalizeReceipt value with
  | none => exact h
  | some r =>
    have hr := normal_of_normalize hvalue
    dsimp only
    cases hfind : buffer.receipts.find? fun s => s.callId == r.callId with
    | none =>
      refine push_bounded h hr fun hmem => ?_
      obtain ⟨s, hs, hcall⟩ := mem_map.mp hmem
      exact List.find?_eq_none.mp hfind s hs (beq_iff_eq.mpr hcall)
    | some existing =>
      dsimp only
      split
      · have hsub : (buffer.receipts.eraseP fun s => s.callId == r.callId).Sublist
            buffer.receipts := eraseP_sublist
        exact push_bounded (h.sublist hsub) hr
          (callId_not_mem_eraseP h.distinct)
      · split
        · exact h
        · exact h

theorem ReceiptBuffer.fold_add_bounded (h : Bounded engine buffer.receipts) (values : List Js) :
    Bounded engine (values.foldl (ReceiptBuffer.add engine) buffer).receipts := by
  induction values generalizing buffer with
  | nil => exact h
  | cons value rest ih => exact ih (add_bounded h value)

theorem ReceiptBuffer.add_completion (buffer : ReceiptBuffer) (value : Js) :
    (buffer.add engine value).completion = buffer.completion := by
  have hpush : ∀ (b : ReceiptBuffer) (r : ToolReceipt),
      (b.push engine r).completion = b.completion := by
    intro b r
    unfold ReceiptBuffer.push
    split <;> rfl
  unfold ReceiptBuffer.add
  cases normalizeReceipt value with
  | none => rfl
  | some r =>
    dsimp only
    cases buffer.receipts.find? fun s => s.callId == r.callId with
    | none => exact hpush _ r
    | some existing =>
      dsimp only
      split
      · exact hpush _ r
      · split <;> rfl

theorem ReceiptBuffer.fold_add_completion (buffer : ReceiptBuffer) (values : List Js) :
    (values.foldl (ReceiptBuffer.add engine) buffer).completion = buffer.completion := by
  induction values generalizing buffer with
  | nil => rfl
  | cons value rest ih => rw [foldl_cons, ih, add_completion]

theorem text_length_map_tidy {receipts : List ToolReceipt} (h : ∀ r ∈ receipts, Normal r) :
    Js.textLength engine.number (.arr ((receipts.map ToolReceipt.tidy).map ToolReceipt.json)) =
      Js.textLength engine.number (.arr (receipts.map ToolReceipt.json)) := by
  have hmap : ((receipts.map ToolReceipt.tidy).map ToolReceipt.json).map
      (Js.textLength engine.number) =
        (receipts.map ToolReceipt.json).map (Js.textLength engine.number) := by
    rw [map_map, map_map, map_map]
    exact map_congr_left fun r hr => (h r hr).text_length_tidy engine.number
  rw [Js.text_length_arr, Js.text_length_arr, hmap]
  simp

/-- Adding the receipts that a buffer could hold behind one another drops none of them. -/
theorem Bounded.fold_add {before after : List ToolReceipt} (h : Bounded engine (before ++ after)) :
    (after.map ToolReceipt.json).foldl (ReceiptBuffer.add engine)
        { receipts := before.map ToolReceipt.tidy } =
      { receipts := (before ++ after).map ToolReceipt.tidy } := by
  induction after generalizing before with
  | nil => rw [append_nil]; rfl
  | cons r rest ih =>
    have hmem : r ∈ before ++ r :: rest := by simp
    have hbefore : ∀ s ∈ before, Normal s := fun s hs => h.normal s (mem_append_left _ hs)
    have hnew : (before.map ToolReceipt.tidy).find? (fun s => s.callId == r.tidy.callId) =
        none := by
      refine List.find?_eq_none.mpr fun s hs heq => ?_
      obtain ⟨s', hs', rfl⟩ := mem_map.mp hs
      have hdistinct := h.distinct
      rw [map_append, nodup_append] at hdistinct
      exact hdistinct.2.2 _ (mem_map_of_mem hs') _ mem_cons_self (beq_iff_eq.mp heq)
    have hfew : before.length < 32 := by
      have hlength := h.few
      rw [length_append, length_cons] at hlength
      omega
    have hroom := h.fits before r (List.Sublist.append_left (by simp) before)
    have hstep : ReceiptBuffer.add engine { receipts := before.map ToolReceipt.tidy } r.json =
        { receipts := (before ++ [r]).map ToolReceipt.tidy } := by
      unfold ReceiptBuffer.add
      rw [(h.normal r hmem).normalize_json]
      dsimp only
      rw [hnew]
      dsimp only
      unfold ReceiptBuffer.push
      rw [text_length_map_tidy hbefore, (h.normal r hmem).text_length_tidy, if_neg]
      · simp
      · simp only [length_map, ge_iff_le, gt_iff_lt, Bool.or_eq_true, decide_eq_true_eq]
        omega
    have hsplit : before ++ r :: rest = (before ++ [r]) ++ rest := by simp
    rw [hsplit] at h ⊢
    rw [map_cons, foldl_cons, hstep]
    exact ih h

end AwsOps.Chat
