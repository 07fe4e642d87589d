import Mathlib.Data.List.Chain
import AwsOps.Foundation.Json
import AwsOps.Foundation.Text

/-!
# The Anthropic tool loop

`agent/anthropic_loop.py`: `drive_anthropic_loop` calls the model, runs the tools that it asks for
and calls it again, up to a cap on the rounds. The model and the tools may answer anything or raise;
what they do may depend on everything that has happened. The main result is that the requests form
a protocol that the API accepts (`drive_protocol`).
-/

namespace AwsOps.Agent.AnthropicLoop

open List

/-- A content block of a completed turn, by its attributes; an absent one is `null`. -/
structure Block where
  type : Json
  text : Json
  id : Json
  name : Json
  input : Json

inductive Role
  | user
  | assistant
  deriving DecidableEq

/-- A content block of a request. -/
inductive Part
  | text (text : String)
  | toolUse (id name input : Json)
  | toolResult (toolUseId : Json) (text : String) (isError : Bool)

structure Message where
  role : Role
  content : List Part

structure ToolUse where
  id : Json
  name : Json
  input : Json

/-- The final message of a turn. -/
structure Final where
  stopReason : Json
  content : List Block

/-- A turn of the model: the texts that it streams, and the final message unless it raises. -/
structure Turn where
  texts : List String
  final : Option Final

/-- A tool returns a result, of which the text is given, or raises. The text of an exception is
`none` if taking it raises in turn. -/
inductive ToolOutcome
  | result (text : String)
  | raised (text : Option String)

/-- What happens outside of the loop. -/
inductive Event
  | request (messages : List Message) (offerTools : Bool)
  | delta (text : String)
  | call (id name input : Json)

/-- The arguments of the loop: whether there are tools to offer, the names that may be called, the
model, the tools, and the text of a value in an f-string. -/
structure Session where
  anthropicTools : Bool
  allowedToolNames : Option (List String)
  model : List Event → Turn
  mcpCall : List Event → ToolOutcome
  str : Json → String

/-- The value is this string. -/
def isStr : Json → String → Bool
  | .str s, t => s == t
  | _, _ => false

/-- `value or {}` -/
def orEmpty (value : Json) : Json :=
  if value.truthy then value else .obj []

def extractToolUses (blocks : List Block) : List ToolUse :=
  (blocks.filter fun b => isStr b.type "tool_use").map fun b => ⟨b.id, b.name, orEmpty b.input⟩

/-- `TOOL_RESULT_CHAR_CAP` -/
def toolResultCharCap : Nat := 24000

def toolResultBlock (toolUseId : Json) (text : String) (isError : Bool) : Part :=
  let length := text.toList.length
  if toolResultCharCap < length then
    .toolResult toolUseId (String.ofList (text.toList.take toolResultCharCap) ++
      s!"\n…[truncated {length - toolResultCharCap} chars]") isError
  else .toolResult toolUseId text isError

/-- The echo of a block in the assistant turn, if any. A true text that is no string raises. -/
def echo (b : Block) : Except Unit (Option Part) :=
  if isStr b.type "text" then
    match b.text with
    | .str text => .ok (if text.toList.all Text.isSpace then none else some (.text text))
    | other => if other.truthy then .error () else .ok none
  else if isStr b.type "tool_use" then .ok (some (.toolUse b.id b.name (orEmpty b.input)))
  else .ok none

/-- `_assistant_content` -/
def assistantContent : List Block → Except Unit (List Part)
  | [] => .ok []
  | b :: blocks => do
    let part ← echo b
    let parts ← assistantContent blocks
    .ok (part.toList ++ parts)

/-- `name in allowed_tool_names`, which raises for a name that cannot be hashed. -/
def permitted (allowed : List String) : Json → Except Unit Bool
  | .str name => .ok (name ∈ allowed)
  | .arr _ | .obj _ => .error ()
  | _ => .ok false

section Loop

variable (s : Session)

/-- One tool use: what happens, and the result unless something raises. -/
def runTool (history : List Event) (tu : ToolUse) : List Event × Except Unit Part :=
  let call : List Event := [.call tu.id tu.name tu.input]
  let outcome : List Event × Except Unit Part :=
    match s.mcpCall (history ++ call) with
    | .result text => (call, .ok (toolResultBlock tu.id text false))
    | .raised (some text) => (call, .ok (toolResultBlock tu.id ("tool error: " ++ text) true))
    | .raised none => (call, .error ())
  match s.allowedToolNames with
  | none => outcome
  | some allowed =>
    match permitted allowed tu.name with
    | .error e => ([], .error e)
    | .ok true => outcome
    | .ok false => ([], .ok (toolResultBlock tu.id ("tool not permitted: " ++ s.str tu.name) true))

/-- The tool uses of a turn, one after the other. -/
def runTools (history : List Event) : List ToolUse → List Event × Except Unit (List Part)
  | [] => ([], .ok [])
  | tu :: more =>
    match runTool s history tu with
    | (events, .error e) => (events, .error e)
    | (events, .ok result) =>
      let (later, results) := runTools (history ++ events) more
      (events ++ later, results.map (result :: ·))

/-- One round: a request, and the messages of the next one if there is to be one. -/
def round (offerTools : Bool) (history : List Event) (msgs : List Message) :
    List Event × Except Unit (Option (List Message)) :=
  let turn := s.model (history ++ [.request msgs offerTools])
  let events := .request msgs offerTools :: (turn.texts.filter (· ≠ "")).map .delta
  match turn.final with
  | none => (events, .error ())
  | some final =>
    let uses := extractToolUses final.content
    if !offerTools || !isStr final.stopReason "tool_use" || uses.isEmpty then (events, .ok none)
    else
      match assistantContent final.content with
      | .error e => (events, .error e)
      | .ok content =>
        let (calls, results) := runTools s (history ++ events) uses
        (events ++ calls, results.map fun results =>
          some (msgs ++ [⟨.assistant, content⟩, ⟨.user, results⟩]))

/-- The rounds, while tools are offered in at most `left` of them. -/
def rounds : Nat → List Event → List Message → List Event × Except Unit Unit
  | 0, history, msgs =>
    let (events, next) := round s false history msgs
    (events, next.map fun _ => ())
  | left + 1, history, msgs =>
    match round s s.anthropicTools history msgs with
    | (events, .ok (some msgs)) =>
      let (more, outcome) := rounds left (history ++ events) msgs
      (events ++ more, outcome)
    | (events, next) => (events, next.map fun _ => ())

def Event.isDelta : Event → Bool
  | .delta _ => true
  | _ => false

def interruptedDelta : String := "\n\n_[연결이 중단되어 응답이 일부만 전달되었습니다.]_"

def failedDelta : String := "_[에이전트 루프 오류로 응답을 생성하지 못했습니다.]_"

/-- `drive_anthropic_loop`: what happens, and whether an exception escapes. -/
def drive (maxRounds : Nat) (messages : List Message) : List Event × Except Unit Unit :=
  match rounds s maxRounds [] messages with
  | (events, .ok ()) => (events, .ok ())
  | (events, .error _) =>
    let started := events.any Event.isDelta
    (events ++ [.delta (if started then interruptedDelta else failedDelta)], .ok ())

end Loop

/-! ## The protocol -/

def requests (events : List Event) : List (List Message) :=
  events.filterMap fun
    | .request msgs _ => some msgs
    | _ => none

/-- The identifiers of the tool uses in a turn. -/
def useIds (content : List Part) : List Json :=
  content.filterMap fun
    | .toolUse id _ _ => some id
    | _ => none

/-- The tool use that a part answers. -/
def Part.answers : Part → Option Json
  | .toolResult id _ _ => some id
  | _ => none

/-- A request extends another one by an assistant turn with tool uses and by a user turn that
answers each of them, in order. -/
def Extends (before after : List Message) : Prop :=
  ∃ content results, after = before ++ [⟨.assistant, content⟩, ⟨.user, results⟩] ∧
    useIds content ≠ [] ∧ results.map Part.answers = (useIds content).map some

/-- A tool is called by a name that is allowed. -/
def Allowed (s : Session) : Event → Prop
  | .call _ name _ => ∀ allowed, s.allowedToolNames = some allowed → ∃ n ∈ allowed, name = .str n
  | _ => True

variable {s : Session} {history events : List Event}

theorem requests_append (left right : List Event) :
    requests (left ++ right) = requests left ++ requests right :=
  filterMap_append

theorem answers_tool_result (id : Json) (text : String) (isError : Bool) :
    (toolResultBlock id text isError).answers = some id := by
  unfold toolResultBlock
  dsimp only
  split <;> rfl

theorem use_ids_assistant {blocks : List Block} {content : List Part}
    (h : assistantContent blocks = .ok content) :
    useIds content = (extractToolUses blocks).map ToolUse.id := by
  induction blocks generalizing content with
  | nil =>
    cases h
    rfl
  | cons b blocks ih =>
    rw [assistantContent] at h
    cases hecho : echo b with
    | error e =>
      rw [hecho] at h
      cases h
    | ok part =>
      cases hmore : assistantContent blocks with
      | error e =>
        rw [hecho, hmore] at h
        cases h
      | ok parts =>
        rw [hecho, hmore] at h
        cases h
        have hrest := ih hmore
        unfold echo at hecho
        unfold extractToolUses at hrest ⊢
        by_cases htext : isStr b.type "text" = true
        · have huse : isStr b.type "tool_use" = false := by
            unfold isStr at htext ⊢
            cases htype : b.type with
            | str t =>
              rw [htype] at htext
              have ht : t = "text" := beq_iff_eq.mp htext
              rw [ht]
              decide
            | _ => rfl
          rw [filter_cons_of_neg (by simp [huse]), ← hrest]
          rw [if_pos htext] at hecho
          split at hecho
          · split_ifs at hecho <;> (cases hecho; rfl)
          · split_ifs at hecho
            cases hecho
            rfl
        · rw [if_neg htext] at hecho
          by_cases huse : isStr b.type "tool_use" = true
          · rw [if_pos huse] at hecho
            cases hecho
            rw [filter_cons_of_pos (p := fun b : Block => isStr b.type "tool_use") huse,
              map_cons, map_cons, ← hrest]
            rfl
          · rw [if_neg huse] at hecho
            cases hecho
            rw [filter_cons_of_neg (p := fun b : Block => isStr b.type "tool_use") huse, ← hrest]
            rfl

theorem run_tool_spec (history : List Event) (tu : ToolUse) :
    requests (runTool s history tu).1 = [] ∧ (∀ e ∈ (runTool s history tu).1, Allowed s e) ∧
      ∀ part, (runTool s history tu).2 = .ok part → part.answers = some tu.id := by
  have hcall : (∀ allowed, s.allowedToolNames = some allowed → ∃ n ∈ allowed, tu.name = .str n) →
      ∀ e ∈ [Event.call tu.id tu.name tu.input], Allowed s e := by
    intro h e he
    rw [mem_singleton.mp he]
    exact h
  unfold runTool
  dsimp only
  cases hnames : s.allowedToolNames with
  | none =>
    have hevents := hcall fun allowed h => by rw [hnames] at h; cases h
    cases s.mcpCall (history ++ [.call tu.id tu.name tu.input]) with
    | result text => exact ⟨rfl, hevents, by rintro _ ⟨⟩; exact answers_tool_result ..⟩
    | raised text =>
      cases text with
      | none => exact ⟨rfl, hevents, nofun⟩
      | some text => exact ⟨rfl, hevents, by rintro _ ⟨⟩; exact answers_tool_result ..⟩
  | some allowed =>
    dsimp only
    cases hpermitted : permitted allowed tu.name with
    | error e => exact ⟨rfl, nofun, nofun⟩
    | ok ok =>
      cases ok with
      | false => exact ⟨rfl, nofun, by rintro _ ⟨⟩; exact answers_tool_result ..⟩
      | true =>
        have hevents := hcall fun allowed' h => by
          rw [hnames] at h
          cases h
          unfold permitted at hpermitted
          split at hpermitted
          · rename_i name hname
            rw [hname]
            exact ⟨name, by simpa using hpermitted, rfl⟩
          · cases hpermitted
          · cases hpermitted
          · cases hpermitted
        dsimp only
        cases s.mcpCall (history ++ [.call tu.id tu.name tu.input]) with
        | result text => exact ⟨rfl, hevents, by rintro _ ⟨⟩; exact answers_tool_result ..⟩
        | raised text =>
          cases text with
          | none => exact ⟨rfl, hevents, nofun⟩
          | some text => exact ⟨rfl, hevents, by rintro _ ⟨⟩; exact answers_tool_result ..⟩

theorem run_tools_spec (history : List Event) (uses : List ToolUse) :
    requests (runTools s history uses).1 = [] ∧ (∀ e ∈ (runTools s history uses).1, Allowed s e) ∧
      ∀ results, (runTools s history uses).2 = .ok results →
        results.map Part.answers = uses.map fun tu => some tu.id := by
  induction uses generalizing history with
  | nil => exact ⟨rfl, nofun, by rintro _ ⟨⟩; rfl⟩
  | cons tu uses ih =>
    obtain ⟨hquiet, hallowed, hanswers⟩ := run_tool_spec (s := s) history tu
    rw [runTools]
    split
    · rename_i events e htool
      rw [htool] at hquiet hallowed
      exact ⟨hquiet, hallowed, nofun⟩
    · rename_i events result htool
      rw [htool] at hquiet hallowed hanswers
      obtain ⟨hquiet', hallowed', hanswers'⟩ := ih (history ++ events)
      dsimp only
      refine ⟨?_, ?_, ?_⟩
      · rw [requests_append, hquiet', append_nil]
        exact hquiet
      · intro e he
        exact (mem_append.mp he).elim (hallowed e) (hallowed' e)
      · intro results hresults
        cases hmore : (runTools s (history ++ events) uses).2 with
        | error e =>
          rw [hmore] at hresults
          cases hresults
        | ok more =>
          rw [hmore] at hresults
          cases hresults
          rw [map_cons, map_cons, hanswers _ rfl, hanswers' more hmore]

/-- A round sends one request; another one is to follow only if tools are offered, and it extends
the first. -/
theorem round_spec (offer : Bool) (history : List Event) (msgs : List Message) :
    requests (round s offer history msgs).1 = [msgs] ∧
      (∀ e ∈ (round s offer history msgs).1, Allowed s e) ∧
      ∀ next, (round s offer history msgs).2 = .ok (some next) →
        offer = true ∧ Extends msgs next := by
  unfold round
  dsimp only
  generalize s.model (history ++ [.request msgs offer]) = turn
  have hdeltas : ∀ texts : List String, requests (texts.map .delta) = [] := fun texts => by
    simp [requests]
  have hquiet : ∀ e ∈ Event.request msgs offer :: (turn.texts.filter (· ≠ "")).map .delta,
      Allowed s e := by
    intro e he
    rcases mem_cons.mp he with rfl | he
    · trivial
    · obtain ⟨text, -, rfl⟩ := mem_map.mp he
      trivial
  have hfirst : requests (Event.request msgs offer :: (turn.texts.filter (· ≠ "")).map .delta) =
      [msgs] :=
    congrArg (msgs :: ·) (hdeltas _)
  generalize (Event.request msgs offer :: (turn.texts.filter (· ≠ "")).map .delta) = events at *
  cases turn.final with
  | none => exact ⟨hfirst, hquiet, nofun⟩
  | some final =>
    dsimp only
    split_ifs with hstop
    · exact ⟨hfirst, hquiet, nofun⟩
    · simp only [Bool.or_eq_true, not_or, Bool.not_eq_true', Bool.not_eq_false] at hstop
      split
      · exact ⟨hfirst, hquiet, nofun⟩
      · rename_i content hcontent
        have hids := use_ids_assistant hcontent
        obtain ⟨hcalls, hallowed, hanswers⟩ :=
          run_tools_spec (s := s) (history ++ events) (extractToolUses final.content)
        refine ⟨?_, ?_, ?_⟩
        · rw [requests_append, hfirst, hcalls]
          rfl
        · intro e he
          exact (mem_append.mp he).elim (hquiet e) (hallowed e)
        · intro next hnext
          refine ⟨hstop.1.1, ?_⟩
          cases hresults : (runTools s (history ++ events) (extractToolUses final.content)).2 with
          | error e =>
            rw [hresults] at hnext
            cases hnext
          | ok results =>
            rw [hresults] at hnext
            cases hnext
            refine ⟨content, results, rfl, ?_, ?_⟩
            · rw [hids, ne_eq, map_eq_nil_iff]
              simpa using hstop.2
            · rw [hanswers results hresults, hids, map_map]
              rfl

/-- The requests of the rounds start with the messages, extend one another, and are at most one more
than the rounds in which tools are offered. -/
theorem rounds_spec (left : Nat) (history : List Event) (msgs : List Message) :
    ∃ later, requests (rounds s left history msgs).1 = msgs :: later ∧ later.length ≤ left ∧
      (msgs :: later).IsChain Extends ∧ ∀ e ∈ (rounds s left history msgs).1, Allowed s e := by
  induction left generalizing history msgs with
  | zero =>
    obtain ⟨hone, hallowed, -⟩ := round_spec (s := s) false history msgs
    exact ⟨[], hone, Nat.le_refl 0, .singleton _, hallowed⟩
  | succ left ih =>
    obtain ⟨hone, hallowed, hnext⟩ := round_spec (s := s) s.anthropicTools history msgs
    rw [rounds]
    split
    · rename_i events next hround
      rw [hround] at hone hallowed hnext
      obtain ⟨later, hmore, hlength, hchain, hallowed'⟩ := ih (history ++ events) next
      refine ⟨next :: later, ?_, Nat.succ_le_succ hlength, ?_, ?_⟩
      · rw [requests_append, hmore]
        exact congrArg (· ++ next :: later) hone
      · exact .cons_cons (hnext next rfl).2 hchain
      · intro e he
        exact (mem_append.mp he).elim (hallowed e) (hallowed' e)
    · rename_i events outcome _ hround
      rw [hround] at hone hallowed
      exact ⟨[], hone, Nat.zero_le _, .singleton _, hallowed⟩

/-- For every behaviour of the model and of the tools the loop sends at most one request more than
there are rounds, each of which extends the one before by the tool uses of a turn and their answers;
it calls no tool outside of the allowed ones, and no exception escapes. -/
theorem drive_protocol (s : Session) (maxRounds : Nat) (messages : List Message) :
    (requests (drive s maxRounds messages).1).length ≤ maxRounds + 1 ∧
      (requests (drive s maxRounds messages).1).head? = some messages ∧
      (requests (drive s maxRounds messages).1).IsChain Extends ∧
      (∀ e ∈ (drive s maxRounds messages).1, Allowed s e) ∧
      (drive s maxRounds messages).2 = .ok () := by
  obtain ⟨later, hrequests, hlength, hchain, hallowed⟩ := rounds_spec (s := s) maxRounds [] messages
  unfold drive
  split
  · rename_i events hrounds
    rw [hrounds] at hrequests hallowed
    rw [hrequests]
    exact ⟨Nat.succ_le_succ hlength, rfl, hchain, hallowed, rfl⟩
  · rename_i events e hrounds
    rw [hrounds] at hrequests hallowed
    rw [requests_append, hrequests]
    refine ⟨?_, rfl, ?_, ?_, rfl⟩
    · simpa [requests] using hlength
    · simpa [requests] using hchain
    · intro e he
      rcases mem_append.mp he with he | he
      · exact hallowed e he
      · rw [mem_singleton.mp he]
        trivial

end AwsOps.Agent.AnthropicLoop
