import AwsOps.Chat.Receipts

/-!
# What a receipt buffer accounts for

A buffer takes any sequence of `add` and `finish` calls. Whatever the values are, it stays bounded
and keeps its terminal receipts. As long as it is not marked as truncated, it also accounts for
everything that was added: the invariant `Accounts` relates the stored receipts to the history of
the calls, and `receipt_buffer_accounts` reads the law off it.
-/

namespace AwsOps.Chat

open List Option ReceiptBuffer

variable {engine : Engine}

inductive BufferCall
  | add (value : Js)
  | finish (value : Js)

def ReceiptBuffer.call (engine : Engine) (buffer : ReceiptBuffer) : BufferCall → ReceiptBuffer
  | .add value => buffer.add engine value
  | .finish value => buffer.finish value

/-- A new buffer after some calls. -/
def ReceiptBuffer.run (engine : Engine) (calls : List BufferCall) : ReceiptBuffer :=
  calls.foldl (call engine) {}

/-- The receipt that a call adds, if its value is a valid one. -/
def BufferCall.version : BufferCall → Option ToolReceipt
  | .add value => normalizeReceipt value
  | .finish _ => none

/-- The versions of a tool call that were added, in order. -/
def versions (calls : List BufferCall) (callId : String) : List ToolReceipt :=
  (calls.filterMap BufferCall.version).filter fun r => r.callId == callId

/-- The receipt is no longer unfinished. -/
def ToolReceipt.Terminal (r : ToolReceipt) : Prop :=
  r.outcome ≠ .unfinished

theorem run_concat (calls : List BufferCall) (call : BufferCall) : run engine (calls ++ [call]) =
      (run engine calls).call engine call := by
  unfold run
  rw [foldl_append]
  rfl

theorem versions_concat (calls : List BufferCall) (call : BufferCall) (callId : String) :
    versions (calls ++ [call]) callId =
      versions calls callId ++ (call.version.filter fun r => r.callId == callId).toList := by
  unfold versions
  rw [filterMap_append, filter_append]
  cases hversion : call.version with
  | none => simp [hversion]
  | some r => simp [hversion, Option.filter, filter_cons, apply_ite Option.toList]

/-! ## One call -/

/-- What `add` does to a buffer. -/
inductive Added (engine : Engine) (buffer : ReceiptBuffer) (value : Js) (after : ReceiptBuffer) : Prop
  /-- The value is no receipt. -/
  | invalid (hvalue : normalizeReceipt value = none) (hreceipts : after.receipts = buffer.receipts)
      (htruncated : after.truncated = true)
  /-- The receipt repeats a terminal one, or contradicts it. -/
  | replayed (r s : ToolReceipt) (hvalue : normalizeReceipt value = some r)
      (hs : s ∈ buffer.receipts) (hcall : s.callId = r.callId) (hterminal : s.Terminal)
      (hreceipts : after.receipts = buffer.receipts)
      (htruncated : after.truncated = false → buffer.truncated = false ∧
        buffer.completion = none ∧ s.text engine = r.text engine)
  /-- The receipt is pushed, in place of an unfinished one. -/
  | pushed (r : ToolReceipt) (hvalue : normalizeReceipt value = some r)
      (hopen : ∀ s ∈ buffer.receipts, s.callId = r.callId → ¬s.Terminal)
      (hreceipts : after.receipts =
        (buffer.receipts.eraseP fun s => s.callId == r.callId) ++ [r])
      (htruncated : after.truncated = false → buffer.truncated = false ∧ buffer.completion = none)
      (hroom : Js.textLength engine.number
        (.arr ((buffer.receipts.eraseP fun s => s.callId == r.callId).map ToolReceipt.json)) +
          Js.textLength engine.number r.json ≤ 16000)
  /-- There is no room for the receipt, and an unfinished one is gone. -/
  | full (r : ToolReceipt) (hvalue : normalizeReceipt value = some r)
      (hopen : ∀ s ∈ buffer.receipts, s.callId = r.callId → ¬s.Terminal)
      (hreceipts : after.receipts = buffer.receipts.eraseP fun s => s.callId == r.callId)
      (htruncated : after.truncated = true)

theorem push_cases (buffer : ReceiptBuffer) (r : ToolReceipt) :
    (buffer.push engine r = { buffer with receipts := buffer.receipts ++ [r] } ∧
      Js.textLength engine.number (.arr (buffer.receipts.map ToolReceipt.json)) +
        Js.textLength engine.number r.json ≤ 16000) ∨
      buffer.push engine r = { buffer with truncated := true } := by
  unfold push
  split
  · exact Or.inr rfl
  · rename_i hroom
    simp only [ge_iff_le, gt_iff_lt, Bool.or_eq_true, decide_eq_true_eq, not_or, not_le,
      not_lt] at hroom
    exact Or.inl ⟨rfl, hroom.2⟩

theorem add_cases {buffer : ReceiptBuffer} (hdistinct : (buffer.receipts.map ToolReceipt.callId).Nodup)
    (value : Js) : Added engine buffer value (buffer.add engine value) := by
  have hflags : ∀ b : ReceiptBuffer, (b.truncated || b.completion.isSome) = false →
      b.truncated = false ∧ b.completion = none := by
    intro b hb
    rw [Bool.or_eq_false_iff] at hb
    exact ⟨hb.1, not_isSome_iff_eq_none.mp (Bool.eq_false_iff.mp hb.2)⟩
  unfold add
  cases hvalue : normalizeReceipt value with
  | none => exact .invalid hvalue rfl rfl
  | some r =>
    dsimp only
    cases hfind : buffer.receipts.find? fun s => s.callId == r.callId with
    | none =>
      have hnew : ∀ s ∈ buffer.receipts, ¬(s.callId == r.callId) = true :=
        List.find?_eq_none.mp hfind
      have herase : (buffer.receipts.eraseP fun s => s.callId == r.callId) = buffer.receipts :=
        eraseP_of_forall_not hnew
      have hopen : ∀ s ∈ buffer.receipts, s.callId = r.callId → ¬s.Terminal :=
        fun s hs heq => absurd (beq_iff_eq.mpr heq) (hnew s hs)
      rcases @push_cases engine
        { buffer with truncated := buffer.truncated || buffer.completion.isSome } r with
        ⟨hpush, hroom⟩ | hpush
      · rw [hpush]
        exact .pushed r hvalue hopen (by rw [herase]) (hflags buffer) (by rw [herase]; exact hroom)
      · rw [hpush]
        exact .full r hvalue hopen herase.symm rfl
    | some existing =>
      have hmem := mem_of_find?_eq_some hfind
      have hcall : existing.callId = r.callId := by
        simpa using List.find?_some hfind
      dsimp only
      split
      · rename_i hunfinished
        have hopen : ∀ s ∈ buffer.receipts, s.callId = r.callId → ¬s.Terminal := by
          intro s hs heq hterminal
          have hsame : s = existing :=
            inj_on_of_nodup_map hdistinct hs hmem (heq.trans hcall.symm)
          rw [hsame] at hterminal
          exact hterminal hunfinished
        rcases @push_cases engine
          { buffer with
            truncated := buffer.truncated || buffer.completion.isSome
            receipts := buffer.receipts.eraseP fun s => s.callId == r.callId } r with
          ⟨hpush, hroom⟩ | hpush
        · rw [hpush]
          exact .pushed r hvalue hopen rfl (hflags buffer) hroom
        · rw [hpush]
          exact .full r hvalue hopen rfl rfl
      · rename_i hterminal
        split
        · rename_i htext
          exact .replayed r existing hvalue hmem hcall hterminal rfl fun h =>
            ⟨(hflags buffer h).1, (hflags buffer h).2, htext⟩
        · exact .replayed r existing hvalue hmem hcall hterminal rfl fun h => by cases h

theorem finish_spec (buffer : ReceiptBuffer) (value : Js) :
    (buffer.finish value).receipts = buffer.receipts ∧
      ((buffer.finish value).truncated = false → buffer.truncated = false ∧
        buffer.completion = none ∧ (buffer.finish value).completion = some buffer.receipts.length) := by
  unfold finish
  cases normalizeCompletion value with
  | none => exact ⟨rfl, fun h => by cases h⟩
  | some n =>
    refine ⟨rfl, fun h => ?_⟩
    simp only [Bool.or_eq_false_iff, bne_eq_false_iff_eq, isSome_eq_false_iff,
      isNone_iff_eq_none] at h
    exact ⟨h.1.1, h.1.2, by rw [h.2]⟩

/-! ## The invariant -/

/-- What an untruncated buffer accounts for: every added value is a valid receipt, the last version
of each tool call is stored, terminal versions are those that are stored, nothing was added to a
completed buffer, and the completion counts the receipts. Versions are compared by their text, as
`add` does. -/
structure Accounted (engine : Engine) (calls : List BufferCall) (buffer : ReceiptBuffer) : Prop where
  valid : ∀ value, .add value ∈ calls → ∃ r, normalizeReceipt value = some r
  last : ∀ callId r, (versions calls callId).getLast? = some r →
    ∃ s ∈ buffer.receipts, s.callId = callId ∧ s.text engine = r.text engine
  terminal : ∀ s ∈ buffer.receipts, ∀ v ∈ versions calls s.callId, v.Terminal →
    s.Terminal ∧ s.text engine = v.text engine
  closed : ∀ before value after, calls = before ++ .add value :: after →
    (run engine before).completion = none
  count : ∀ n, buffer.completion = some n → n = buffer.receipts.length

structure Accounts (engine : Engine) (calls : List BufferCall) (buffer : ReceiptBuffer) : Prop where
  bounded : Bounded engine buffer.receipts
  size : Js.textLength engine.number (.arr (buffer.receipts.map ToolReceipt.json)) ≤ 16001
  added : ∀ s ∈ buffer.receipts, s ∈ versions calls s.callId
  whole : buffer.truncated = false → Accounted engine calls buffer

section Steps

variable {calls : List BufferCall} {buffer after : ReceiptBuffer} {value : Js}

variable {callId : String} {call : BufferCall} {r s : ToolReceipt}

theorem mem_versions_concat {v : ToolReceipt} : v ∈ versions (calls ++ [call]) callId ↔
      v ∈ versions calls callId ∨ call.version = some v ∧ v.callId = callId := by
  rw [versions_concat, mem_append, mem_toList, filter_eq_some_iff]
  simp

theorem versions_same (h : ∀ r, call.version = some r → r.callId ≠ callId) :
    versions (calls ++ [call]) callId = versions calls callId := by
  rw [versions_concat]
  cases hversion : call.version with
  | none => simp
  | some r => simp [h r hversion]

theorem last_version_added (h : call.version = some r) :
    (versions (calls ++ [call]) r.callId).getLast? = some r := by
  rw [versions_concat, h]
  simp [Option.filter]

theorem size_push {receipts : List ToolReceipt}
    (hroom : Js.textLength engine.number (.arr (receipts.map ToolReceipt.json)) +
      Js.textLength engine.number r.json ≤ 16000) :
    Js.textLength engine.number (.arr ((receipts ++ [r]).map ToolReceipt.json)) ≤ 16001 := by
  rw [Js.text_length_arr] at hroom ⊢
  simp only [map_append, map_cons, map_nil, sum_append, sum_cons,
    sum_nil, length_append, length_map, length_cons, length_nil] at hroom ⊢
  omega

/-- Where the calls before the last are open, and the last adds to an open buffer, all are. -/
theorem closed_concat (hcalls : ∀ before value after, calls = before ++ .add value :: after →
      (run engine before).completion = none)
    (hlast : ∀ value, call = .add value → (run engine calls).completion = none) :
    ∀ before value after, calls ++ [call] = before ++ .add value :: after →
      (run engine before).completion = none := by
  intro before value rest heq
  rcases eq_nil_or_concat rest with rfl | ⟨rest, final, rfl⟩
  · obtain ⟨rfl, hcall⟩ := append_inj' heq rfl
    exact hlast value (List.cons.inj hcall).1
  · have hsplit : calls ++ [call] = (before ++ .add value :: rest) ++ [final] := by
      rw [heq]
      simp
    obtain ⟨hbefore, -⟩ := append_inj' hsplit rfl
    exact hcalls before value rest hbefore

theorem accounts_same (h : Accounts engine calls buffer)
    (hreceipts : after.receipts = buffer.receipts)
    (haccounted : after.truncated = false → Accounted engine (calls ++ [call]) after) :
    Accounts engine (calls ++ [call]) after where
  bounded := by
    rw [hreceipts]
    exact h.bounded
  size := by
    rw [hreceipts]
    exact h.size
  added s hs := by
    rw [hreceipts] at hs
    exact mem_versions_concat.mpr (Or.inl (h.added s hs))
  whole := haccounted

theorem mem_erase_call {receipts : List ToolReceipt}
    (hdistinct : (receipts.map ToolReceipt.callId).Nodup) :
    s ∈ receipts.eraseP (fun s => s.callId == callId) ↔ s ∈ receipts ∧ s.callId ≠ callId := by
  constructor
  · intro hs
    refine ⟨mem_of_mem_eraseP hs, fun heq => ?_⟩
    have hnot := @callId_not_mem_eraseP receipts callId hdistinct
    rw [← heq] at hnot hs
    exact hnot (mem_map_of_mem hs)
  · rintro ⟨hs, hne⟩
    exact (mem_eraseP_of_neg (by simpa using hne)).mpr hs

theorem accounted_pushed (h : Accounts engine calls buffer) (hrun : buffer = run engine calls)
    (hvalue : normalizeReceipt value = some r)
    (hopen : ∀ s ∈ buffer.receipts, s.callId = r.callId → ¬s.Terminal)
    (hreceipts : after.receipts = (buffer.receipts.eraseP fun s => s.callId == r.callId) ++ [r])
    (hcompletion : after.completion = buffer.completion) (htruncated : buffer.truncated = false)
    (hcompleted : buffer.completion = none) :
    Accounted engine (calls ++ [.add value]) after := by
  have hwhole := h.whole htruncated
  have hversion : (BufferCall.add value).version = some r := hvalue
  have hstored : ∀ s, s ∈ after.receipts ↔ s ∈ buffer.receipts ∧ s.callId ≠ r.callId ∨ s = r := by
    intro s
    rw [hreceipts, mem_append, mem_erase_call h.bounded.distinct, mem_singleton]
  refine ⟨fun value' hmem => ?_, fun callId v hlast => ?_, fun s hs v hv hterminal => ?_,
    closed_concat hwhole.closed fun _ _ => hrun ▸ hcompleted, fun n hn => ?_⟩
  · rcases mem_append.mp hmem with hmem | hmem
    · exact hwhole.valid value' hmem
    · cases mem_singleton.mp hmem
      exact ⟨r, hvalue⟩
  · by_cases hcall : r.callId = callId
    · rw [← hcall, last_version_added hversion] at hlast
      cases hlast
      exact ⟨r, (hstored r).mpr (Or.inr rfl), hcall, rfl⟩
    · rw [versions_same fun r' hr' => by
        rw [hversion] at hr'
        cases hr'
        exact hcall] at hlast
      obtain ⟨s, hs, hsCall, htext⟩ := hwhole.last callId v hlast
      exact ⟨s, (hstored s).mpr (Or.inl ⟨hs, fun heq => hcall (heq.symm.trans hsCall)⟩), hsCall, htext⟩
  · rcases (hstored s).mp hs with ⟨hs, hne⟩ | rfl
    · rcases mem_versions_concat.mp hv with hv | ⟨hnew, hcall⟩
      · exact hwhole.terminal s hs v hv hterminal
      · rw [hversion] at hnew
        cases hnew
        exact absurd hcall.symm hne
    · rcases mem_versions_concat.mp hv with hv | ⟨hnew, -⟩
      · -- A terminal version would be stored, and the receipt could not be pushed.
        obtain ⟨last, hlast⟩ : ∃ last, (versions calls s.callId).getLast? = some last := by
          rw [← isSome_iff_exists, List.getLast?_isSome]
          exact ne_nil_of_mem hv
        obtain ⟨stored, hmem, hcall, -⟩ := hwhole.last s.callId last hlast
        rw [← hcall] at hv
        exact absurd (hwhole.terminal stored hmem v hv hterminal).1 (hopen stored hmem hcall)
      · rw [hversion] at hnew
        cases hnew
        exact ⟨hterminal, rfl⟩
  · rw [hcompletion, hcompleted] at hn
    cases hn

theorem accounted_replayed (h : Accounts engine calls buffer) (hrun : buffer = run engine calls)
    (hvalue : normalizeReceipt value = some r) (hs : s ∈ buffer.receipts)
    (hcall : s.callId = r.callId) (hterminal : s.Terminal)
    (hreceipts : after.receipts = buffer.receipts) (hcompletion : after.completion = buffer.completion)
    (htruncated : buffer.truncated = false) (hcompleted : buffer.completion = none)
    (htext : s.text engine = r.text engine) :
    Accounted engine (calls ++ [.add value]) after := by
  have hwhole := h.whole htruncated
  have hversion : (BufferCall.add value).version = some r := hvalue
  refine ⟨fun value' hmem => ?_, fun callId v hlast => ?_, fun s' hs' v hv hv' => ?_,
    closed_concat hwhole.closed fun _ _ => hrun ▸ hcompleted, fun n hn => ?_⟩
  · rcases mem_append.mp hmem with hmem | hmem
    · exact hwhole.valid value' hmem
    · cases mem_singleton.mp hmem
      exact ⟨r, hvalue⟩
  · rw [hreceipts]
    by_cases hid : r.callId = callId
    · rw [← hid, last_version_added hversion] at hlast
      cases hlast
      exact ⟨s, hs, hcall.trans hid, htext⟩
    · rw [versions_same fun r' hr' => by
        rw [hversion] at hr'
        cases hr'
        exact hid] at hlast
      exact hwhole.last callId v hlast
  · rw [hreceipts] at hs'
    rcases mem_versions_concat.mp hv with hv | ⟨hnew, hid⟩
    · exact hwhole.terminal s' hs' v hv hv'
    · rw [hversion] at hnew
      cases hnew
      have hsame : s' = s := inj_on_of_nodup_map h.bounded.distinct hs' hs (hid.symm.trans hcall.symm)
      rw [hsame]
      exact ⟨hterminal, htext⟩
  · rw [hcompletion, hcompleted] at hn
    cases hn

theorem accounts_add (h : Accounts engine calls buffer)
    (hrun : buffer = run engine calls) (value : Js) :
    Accounts engine (calls ++ [.add value]) (buffer.add engine value) := by
  have hbounded := add_bounded h.bounded value
  have hcompletion := @add_completion engine buffer value
  cases add_cases h.bounded.distinct value with
  | invalid hvalue hreceipts htruncated =>
    exact accounts_same h hreceipts fun hno => by
      rw [htruncated] at hno
      cases hno
  | replayed r s hvalue hs hcall hterminal hreceipts htruncated =>
    refine accounts_same h hreceipts fun hno => ?_
    obtain ⟨hold, hcompleted, htext⟩ := htruncated hno
    exact accounted_replayed h hrun hvalue hs hcall hterminal hreceipts hcompletion hold hcompleted
      htext
  | pushed r hvalue hopen hreceipts htruncated hroom =>
    refine ⟨hbounded, ?_, fun s hs => ?_, fun hno => ?_⟩
    · rw [hreceipts]
      exact size_push hroom
    · rw [hreceipts, mem_append, mem_erase_call h.bounded.distinct, mem_singleton] at hs
      rcases hs with ⟨hs, -⟩ | rfl
      · exact mem_versions_concat.mpr (Or.inl (h.added s hs))
      · exact mem_versions_concat.mpr (Or.inr ⟨hvalue, rfl⟩)
    · exact accounted_pushed h hrun hvalue hopen hreceipts hcompletion (htruncated hno).1
        (htruncated hno).2
  | full r hvalue hopen hreceipts htruncated =>
    refine ⟨hbounded, ?_, fun s hs => ?_, fun hno => ?_⟩
    · rw [hreceipts]
      exact (Js.text_length_arr_le (eraseP_sublist.map ToolReceipt.json)).trans h.size
    · rw [hreceipts] at hs
      exact mem_versions_concat.mpr (Or.inl (h.added s (mem_of_mem_eraseP hs)))
    · rw [htruncated] at hno
      cases hno

theorem accounts_finish (h : Accounts engine calls buffer) (value : Js) :
    Accounts engine (calls ++ [.finish value]) (buffer.finish value) := by
  obtain ⟨hreceipts, hflags⟩ := finish_spec buffer value
  refine accounts_same h hreceipts fun hno => ?_
  obtain ⟨hold, -, hcount⟩ := hflags hno
  have hwhole := h.whole hold
  have hversions : ∀ callId, versions (calls ++ [.finish value]) callId = versions calls callId :=
    fun callId => versions_same fun r hr => by cases hr
  refine ⟨fun value' hmem => ?_, fun callId v hlast => ?_, fun s hs v hv hterminal => ?_,
    closed_concat hwhole.closed (fun _ heq => by cases heq), fun n hn => ?_⟩
  · rcases mem_append.mp hmem with hmem | hmem
    · exact hwhole.valid value' hmem
    · cases mem_singleton.mp hmem
  · rw [hversions] at hlast
    rw [hreceipts]
    exact hwhole.last callId v hlast
  · rw [hreceipts] at hs
    rw [hversions] at hv
    exact hwhole.terminal s hs v hv hterminal
  · rw [hcount] at hn
    cases hn
    rw [hreceipts]

theorem run_accounts (calls : List BufferCall) : Accounts engine calls (run engine calls) := by
  induction calls using List.reverseRecOn with
  | nil =>
    refine ⟨Bounded.nil, ?_, fun s hs => absurd hs not_mem_nil, fun _ => ⟨?_, ?_, ?_, ?_, ?_⟩⟩
    · show Js.textLength engine.number (.arr []) ≤ 16001
      rw [Js.text_length_arr]
      exact Nat.le_of_ble_eq_true rfl
    · exact fun value hmem => absurd hmem not_mem_nil
    · exact fun callId r hlast => by cases hlast
    · exact fun s hs => absurd hs not_mem_nil
    · exact fun before value after heq => by simp at heq
    · exact fun n hn => by cases hn
  | append_singleton calls call ih =>
    rw [run_concat]
    cases call with
    | add value => exact accounts_add ih rfl value
    | finish value => exact accounts_finish ih value

theorem call_keeps_terminal (h : Bounded engine buffer.receipts) (call : BufferCall)
    (hs : s ∈ buffer.receipts) (hterminal : s.Terminal) :
    s ∈ (buffer.call engine call).receipts := by
  cases call with
  | add value =>
    show s ∈ (buffer.add engine value).receipts
    cases @add_cases engine buffer h.distinct value with
    | invalid hvalue hreceipts => rwa [hreceipts]
    | replayed r s' hvalue hs' hcall hterminal' hreceipts => rwa [hreceipts]
    | pushed r hvalue hopen hreceipts =>
      rw [hreceipts, mem_append, mem_erase_call h.distinct]
      exact Or.inl ⟨hs, fun heq => hopen s hs heq hterminal⟩
    | full r hvalue hopen hreceipts =>
      rw [hreceipts, mem_erase_call h.distinct]
      exact ⟨hs, fun heq => hopen s hs heq hterminal⟩
  | finish value =>
    show s ∈ (buffer.finish value).receipts
    rw [(finish_spec buffer value).1]
    exact hs

end Steps

theorem run_keeps_terminal (before after : List BufferCall) {s : ToolReceipt}
    (hs : s ∈ (run engine before).receipts) (hterminal : s.Terminal) :
    s ∈ (run engine (before ++ after)).receipts := by
  induction after using List.reverseRecOn with
  | nil =>
    rw [append_nil]
    exact hs
  | append_singleton after call ih =>
    rw [← append_assoc, run_concat]
    exact call_keeps_terminal (run_accounts _).bounded call ih hterminal

/-- For every sequence of calls with any values, the buffer holds at most 32 receipts of distinct
calls within a bounded text, and a terminal receipt is there to stay. If it is not truncated in the
end, every added value was a valid receipt, the last version of each call is stored, terminal
versions of one call do not differ, nothing was added after a completion, and the completion counts
the receipts. -/
theorem receipt_buffer_accounts (engine : Engine) (calls : List BufferCall) :
    let buffer := run engine calls
    buffer.receipts.length ≤ 32 ∧ (buffer.receipts.map ToolReceipt.callId).Nodup ∧
      Js.textLength engine.number (.arr (buffer.receipts.map ToolReceipt.json)) ≤ 16001 ∧
      (∀ before after s, calls = before ++ after →
        s ∈ (run engine before).receipts → s.Terminal → s ∈ buffer.receipts) ∧
      (buffer.truncated = false →
        (∀ value, .add value ∈ calls → ∃ r, normalizeReceipt value = some r) ∧
        (∀ callId r, (versions calls callId).getLast? = some r →
          ∃ s ∈ buffer.receipts, s.callId = callId ∧ s.text engine = r.text engine) ∧
        (∀ callId, ∀ v ∈ versions calls callId, ∀ w ∈ versions calls callId, v.Terminal →
          w.Terminal → v.text engine = w.text engine) ∧
        (∀ before value after, calls = before ++ .add value :: after →
          (run engine before).completion = none) ∧
        ∀ n, buffer.completion = some n → n = buffer.receipts.length) := by
  intro buffer
  have h : Accounts engine calls buffer := run_accounts calls
  refine ⟨h.bounded.few, h.bounded.distinct, h.size, fun before after s heq hs hterminal => ?_,
    fun hwhole => ?_⟩
  · show s ∈ (run engine calls).receipts
    rw [heq]
    exact run_keeps_terminal before after hs hterminal
  · have haccounted := h.whole hwhole
    refine ⟨haccounted.valid, haccounted.last, fun callId v hv w hw hv' hw' => ?_,
      haccounted.closed, haccounted.count⟩
    obtain ⟨last, hlast⟩ : ∃ last, (versions calls callId).getLast? = some last := by
      rw [← isSome_iff_exists, List.getLast?_isSome]
      exact ne_nil_of_mem hv
    obtain ⟨s, hs, rfl, -⟩ := haccounted.last callId last hlast
    rw [← (haccounted.terminal s hs v hv hv').2, ← (haccounted.terminal s hs w hw hw').2]

end AwsOps.Chat
