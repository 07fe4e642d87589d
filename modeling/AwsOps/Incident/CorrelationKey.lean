import Mathlib.Data.List.Sort
import Mathlib.Data.List.Lex
import Mathlib.Data.List.Dedup
import AwsOps.Foundation.JsonText
import AwsOps.Foundation.Sha256

/-!
# The correlation key of an alert

Both tiers hash a serialized record of the source, the alert name and the sorted sets of services
and resources. The web tier serializes with `JSON.stringify` and sorts by UTF-16 code units; the
worker serializes with `json.dumps`, which puts a blank after each separator, and sorts by code
points. So the texts of the two tiers differ for every alert, while within a tier the text
determines the source, the name and the two sets.
-/

namespace AwsOps.Incident

open List Option Json

open Json (Readable quoted stringify_items_strings)

/-! ## The event -/

inductive AlertSeverity
  | critical | warning | info
  deriving DecidableEq

def AlertSeverity.text : AlertSeverity → String
  | critical => "critical"
  | warning => "warning"
  | info => "info"

/-- An alert event, as far as triage reads it. -/
structure AlertEvent where
  id : String
  source : String
  alertName : String
  severity : AlertSeverity
  timestamp : String
  labels : List (String × String)
  annotations : List (String × String)
  metric : Option Json
  alarmArn : Option String
  services : List String
  resources : List String

def strings (items : List String) : Json :=
  .arr (items.map .str)

/-- An object of strings as JSON. -/
def stringFields (fields : List (String × String)) : Json :=
  .obj (fields.map fun field => (field.1, .str field.2))

def AlertEvent.json (event : AlertEvent) : List (String × Json) :=
  [("id", .str event.id), ("source", .str event.source), ("alertName", .str event.alertName),
    ("severity", .str event.severity.text), ("timestamp", .str event.timestamp),
    ("labels", stringFields event.labels), ("annotations", stringFields event.annotations)] ++
    (event.metric.map fun metric => ("metric", metric)).toList ++
    (event.alarmArn.map fun arn => ("alarmArn", .str arn)).toList ++
    [("services", strings event.services), ("resources", strings event.resources)]

/-! ## Sorted sets -/

/-- The distinct strings in the order of a key. -/
def sortedBy (key : String → List Nat) (items : List String) : List String :=
  items.dedup.insertionSort fun a b => key a ≤ key b

/-- The code points of a string, by which `sorted` orders strings. -/
def codePoints (s : String) : List Nat :=
  s.toList.map Char.toNat

/-- The UTF-16 code units of a character. -/
def charUnits (c : Char) : List Nat :=
  if c.toNat < 0x10000 then [c.toNat]
  else [0xD800 + (c.toNat - 0x10000) / 1024, 0xDC00 + (c.toNat - 0x10000) % 1024]

/-- The UTF-16 code units of a string, by which `Array.prototype.sort` orders strings. -/
def codeUnits (s : String) : List Nat :=
  s.toList.flatMap charUnits

/-! ## The two keys -/

/-- The record that is hashed. -/
def keyRecord (source alertName services resources : Json) : Json :=
  .obj [("source", source), ("alertName", alertName), ("services", services),
    ("resources", resources)]

/-- The first forty hexadecimal digits of the SHA-256 of a text. -/
def keyOf (text : List Char) : List Char :=
  (Sha256.hexDigest text).take 40

namespace Web

/-- The text that `correlationKey` hashes. -/
def keyInput (event : AlertEvent) : List Char :=
  stringify (keyRecord (.str event.source) (.str event.alertName)
    (strings (sortedBy codeUnits event.services)) (strings (sortedBy codeUnits event.resources)))

def correlationKey (event : AlertEvent) : List Char :=
  keyOf (keyInput event)

end Web

namespace Worker

/-- `dict.get`, with `None` for a missing key. -/
def get (fields : List (String × Json)) (name : String) : Json :=
  ((fields.find? fun field => field.1 == name).map Prod.snd).getD .null

/-- The text of a string value. -/
def asString : Json → Option String
  | .str s => some s
  | _ => none

/-- `sorted(set(value or []))`, where the items are texts. -/
def sortedSet (value : Json) : Option (List String) :=
  if value.truthy then do
    let items ← value.iterate
    let texts ← items.mapM asString
    some (sortedBy codePoints texts)
  else some []

/-- The text that `correlation_key` hashes. -/
def keyInput (event : List (String × Json)) : Option (List Char) := do
  let services ← sortedSet (get event "services")
  let resources ← sortedSet (get event "resources")
  some (dumps (keyRecord (get event "source") (get event "alertName") (strings services)
    (strings resources)))

def correlationKey (event : List (String × Json)) : Option (List Char) :=
  (keyInput event).map keyOf

end Worker

/-! ## Sorting -/

theorem code_points_injective : Function.Injective codePoints := by
  intro s t h
  have hchars : Function.Injective Char.toNat := fun a b hab => by
    rw [← Char.ofNat_toNat a, hab, Char.ofNat_toNat]
  exact String.toList_inj.mp (hchars.list_map h)

/-- The code units of a character determine the character and what comes after them. -/
theorem char_units_append_inj {c d : Char} {x y : List Nat}
    (h : charUnits c ++ x = charUnits d ++ y) : c = d ∧ x = y := by
  have heq : c.toNat = d.toNat → c = d := fun hcd => by
    rw [← Char.ofNat_toNat c, hcd, Char.ofNat_toNat]
  have hc := outside_surrogates c
  have hd := outside_surrogates d
  have hcmax := to_nat_lt_max c
  have hdmax := to_nat_lt_max d
  unfold charUnits at h
  split at h <;> split at h <;>
    simp only [cons_append, nil_append, List.cons.injEq] at h
  · exact ⟨heq h.1, h.2⟩
  · omega
  · omega
  · exact ⟨heq (by omega), h.2.2⟩

theorem code_units_injective : Function.Injective codeUnits := by
  intro s t h
  have hunits : ∀ cs ds : List Char, cs.flatMap charUnits = ds.flatMap charUnits → cs = ds := by
    have hnonempty : ∀ c x, charUnits c ++ x ≠ [] := fun c x => by
      unfold charUnits
      split <;> exact nofun
    intro cs
    induction cs with
    | nil =>
      intro ds heq
      cases ds with
      | nil => rfl
      | cons d ds => exact absurd heq.symm (hnonempty d _)
    | cons c cs ih =>
      intro ds heq
      cases ds with
      | nil => exact absurd heq (hnonempty c _)
      | cons d ds =>
        obtain ⟨rfl, hrest⟩ := char_units_append_inj heq
        rw [ih ds hrest]
  exact String.toList_inj.mp (hunits _ _ h)

theorem sorted_by_eq_iff {key : String → List Nat} (hkey : Function.Injective key)
    (ss ts : List String) :
    sortedBy key ss = sortedBy key ts ↔ ∀ s, s ∈ ss ↔ s ∈ ts := by
  constructor
  · intro h s
    have hmem : ∀ items, s ∈ sortedBy key items ↔ s ∈ items := fun items => by simp [sortedBy]
    rw [← hmem ss, h, hmem ts]
  · intro h
    have hperm : ss.dedup.Perm ts.dedup :=
      (perm_ext_iff_of_nodup ss.nodup_dedup ts.nodup_dedup).mpr fun s => by
        rw [mem_dedup, mem_dedup, h]
    have : Std.Total fun a b => key a ≤ key b := ⟨fun a b => le_total (key a) (key b)⟩
    have : IsTrans String fun a b => key a ≤ key b := ⟨fun a b c => le_trans⟩
    have hsorted : ∀ items, (sortedBy key items).Pairwise fun a b => key a ≤ key b :=
      fun items => pairwise_insertionSort ..
    have hsort : ∀ items, (sortedBy key items).Perm items.dedup :=
      fun items => perm_insertionSort ..
    exact List.Perm.eq_of_pairwise (fun a b _ _ hab hba => hkey (le_antisymm hab hba))
      (hsorted ss) (hsorted ts) (((hsort ss).trans hperm).trans (hsort ts).symm)

/-! ## The texts -/

/-- Two events describe the same condition. -/
structure SameCondition (e₁ e₂ : AlertEvent) : Prop where
  source : e₁.source = e₂.source
  alertName : e₁.alertName = e₂.alertName
  services : ∀ s, s ∈ e₁.services ↔ s ∈ e₂.services
  resources : ∀ r, r ∈ e₁.resources ↔ r ∈ e₂.resources

/-- The text of a record of two strings and two lists of strings, with the given escapes and
separators. -/
def recordText (escape : Char → List Char) (item key : List Char) (source alertName : String)
    (services resources : List String) : List Char :=
  let list (items : List String) :=
    '[' :: List.intercalate item (items.map (quoted escape)) ++ [']']
  '{' :: (quoted escape "source" ++ key ++ quoted escape source) ++ item ++
    (quoted escape "alertName" ++ key ++ quoted escape alertName) ++ item ++
    (quoted escape "services" ++ key ++ list services) ++ item ++
    (quoted escape "resources" ++ key ++ list resources) ++ ['}']

theorem record_text_inj {escape : Char → List Char} (h : Readable escape) {item key : List Char}
    (hitem : ∃ rest, item = ',' :: rest) {source₁ source₂ name₁ name₂ : String}
    {services₁ services₂ resources₁ resources₂ : List String}
    (heq : recordText escape item key source₁ name₁ services₁ resources₁ =
      recordText escape item key source₂ name₂ services₂ resources₂) :
    source₁ = source₂ ∧ name₁ = name₂ ∧ services₁ = services₂ ∧ resources₁ = resources₂ := by
  simp only [recordText, cons_append, append_assoc, nil_append, List.cons.injEq,
    true_and, append_cancel_left_eq] at heq
  obtain ⟨hsource, heq⟩ := h.quoted_append_inj heq
  simp only [append_cancel_left_eq] at heq
  obtain ⟨hname, heq⟩ := h.quoted_append_inj heq
  simp only [append_cancel_left_eq, List.cons.injEq, true_and] at heq
  obtain ⟨hservices, heq⟩ := h.items_append_inj hitem heq
  simp only [append_cancel_left_eq, List.cons.injEq, true_and] at heq
  obtain ⟨hresources, -⟩ := h.items_append_inj hitem heq
  exact ⟨hsource, hname, hservices, hresources⟩

theorem dumps_items_strings (item key : List Char) (items : List String) :
    dumpsItems item key (items.map .str) = items.map (quoted escapeChar) := by
  induction items with
  | nil => rfl
  | cons s rest ih =>
    rw [map_cons, map_cons, dumpsItems, dumpsWith, ih]
    rfl

theorem web_key_input (e : AlertEvent) :
    Web.keyInput e = recordText stringifyChar [','] [':'] e.source e.alertName
      (sortedBy codeUnits e.services) (sortedBy codeUnits e.resources) := by
  simp [Web.keyInput, keyRecord, strings, recordText, stringify, stringifyFields, stringify_items_strings]

theorem map_as_string (items : List String) :
    (items.map str).mapM Worker.asString = some items := by
  induction items with
  | nil => rfl
  | cons s rest ih => simp [ih, Worker.asString]

theorem sorted_set_strings (items : List String) :
    Worker.sortedSet (strings items) = some (sortedBy codePoints items) := by
  cases items with
  | nil => rfl
  | cons s rest =>
    have htruthy : (strings (s :: rest)).truthy = true := rfl
    have hiterate : (strings (s :: rest)).iterate = some ((s :: rest).map .str) := rfl
    simp only [Worker.sortedSet, htruthy, if_true, hiterate, bind_eq_bind, bind_some, map_as_string]

theorem worker_key_input (e : AlertEvent) :
    Worker.keyInput e.json = some (recordText escapeChar [',', ' '] [':', ' '] e.source
      e.alertName (sortedBy codePoints e.services) (sortedBy codePoints e.resources)) := by
  have hservices : Worker.get e.json "services" = strings e.services := by
    cases hmetric : e.metric <;> cases harn : e.alarmArn <;>
      simp [AlertEvent.json, Worker.get, hmetric, harn]
  have hresources : Worker.get e.json "resources" = strings e.resources := by
    cases hmetric : e.metric <;> cases harn : e.alarmArn <;>
      simp [AlertEvent.json, Worker.get, hmetric, harn]
  have hsource : Worker.get e.json "source" = .str e.source := rfl
  have hname : Worker.get e.json "alertName" = .str e.alertName := rfl
  simp only [Worker.keyInput, hservices, hresources, hsource, hname, sorted_set_strings,
    bind_eq_bind, bind_some, Option.some.injEq]
  simp [keyRecord, strings, recordText, dumps, dumpsWith, dumpsFields, dumpsString, quoted, dumps_items_strings]

/-! ## The keys -/

/-- The text that the worker hashes for the JSON of an event. -/
def workerText (e : AlertEvent) : List Char :=
  recordText escapeChar [',', ' '] [':', ' '] e.source e.alertName
    (sortedBy codePoints e.services) (sortedBy codePoints e.resources)

/-- For every event the two tiers hash different texts: after the first colon the worker has a
blank, and the web tier a quotation mark. -/
theorem texts_differ (e₁ e₂ : AlertEvent) : Web.keyInput e₁ ≠ workerText e₂ := by
  rw [web_key_input]
  intro heq
  have hat := congrArg (fun text => text[10]?) heq
  simp [recordText, workerText, quoted, escapeChar, stringifyChar] at hat

theorem web_text_eq_iff (e₁ e₂ : AlertEvent) :
    Web.keyInput e₁ = Web.keyInput e₂ ↔ SameCondition e₁ e₂ := by
  rw [web_key_input, web_key_input]
  constructor
  · intro heq
    obtain ⟨hsource, hname, hservices, hresources⟩ :=
      record_text_inj readable_stringify_char ⟨[], rfl⟩ heq
    exact ⟨hsource, hname, (sorted_by_eq_iff code_units_injective ..).mp hservices,
      (sorted_by_eq_iff code_units_injective ..).mp hresources⟩
  · rintro ⟨hsource, hname, hservices, hresources⟩
    rw [hsource, hname, (sorted_by_eq_iff code_units_injective ..).mpr hservices,
      (sorted_by_eq_iff code_units_injective ..).mpr hresources]

theorem worker_text_eq_iff (e₁ e₂ : AlertEvent) :
    workerText e₁ = workerText e₂ ↔ SameCondition e₁ e₂ := by
  constructor
  · intro heq
    obtain ⟨hsource, hname, hservices, hresources⟩ :=
      record_text_inj readable_escape_char ⟨[' '], rfl⟩ heq
    exact ⟨hsource, hname, (sorted_by_eq_iff code_points_injective ..).mp hservices,
      (sorted_by_eq_iff code_points_injective ..).mp hresources⟩
  · rintro ⟨hsource, hname, hservices, hresources⟩
    rw [workerText, hsource, hname, (sorted_by_eq_iff code_points_injective ..).mpr hservices,
      (sorted_by_eq_iff code_points_injective ..).mpr hresources]
    rfl

theorem worker_correlation_key (e : AlertEvent) :
    Worker.correlationKey e.json = some (keyOf (workerText e)) := by
  rw [Worker.correlationKey, worker_key_input]
  rfl

def hashedTexts (e₁ e₂ : AlertEvent) : List (List Char) :=
  [Web.keyInput e₁, Web.keyInput e₂, workerText e₁, workerText e₂]

/-- While the truncated hash does not collide on the texts of two events: the worker's key of an
event is never the web tier's, and within each tier the keys of the two events are equal exactly
if the events describe the same condition. -/
theorem correlation_keys (e₁ e₂ : AlertEvent)
    (hcollision : (hashedTexts e₁ e₂).Pairwise fun s t => keyOf s = keyOf t → s = t) :
    Worker.correlationKey e₁.json ≠ some (Web.correlationKey e₁) ∧
      (Web.correlationKey e₁ = Web.correlationKey e₂ ↔ SameCondition e₁ e₂) ∧
      (Worker.correlationKey e₁.json = Worker.correlationKey e₂.json ↔ SameCondition e₁ e₂) := by
  simp only [hashedTexts, pairwise_cons, mem_cons, not_mem_nil, or_false,
    forall_eq_or_imp, forall_eq] at hcollision
  obtain ⟨⟨hweb, htiers, -⟩, -, hworker, -⟩ := hcollision
  simp only [worker_correlation_key, ne_eq, Option.some.injEq]
  refine ⟨fun heq => texts_differ e₁ e₁ (htiers heq.symm), ?_, ?_⟩
  · rw [← web_text_eq_iff]
    exact ⟨hweb, fun h => congrArg keyOf h⟩
  · rw [← worker_text_eq_iff]
    exact ⟨hworker, fun h => congrArg keyOf h⟩

/-- An alarm on one service. -/
def alarmEvent : AlertEvent :=
  ⟨"a1", "cloudwatch", "HighCPU", .critical, "2026-10-01T00:00:00Z", [("InstanceId", "i-1")], [],
    none, none, ["AWS/EC2"], ["i-1"]⟩

/-- The same alarm, with its service named twice. -/
def repeatedAlarmEvent : AlertEvent :=
  { alarmEvent with services := ["AWS/EC2", "AWS/EC2"] }

/-- The keys of the two alarms. -/
theorem correlation_keys_repeated_service :
    Worker.correlationKey alarmEvent.json ≠ some (Web.correlationKey alarmEvent) ∧
      (Web.correlationKey alarmEvent = Web.correlationKey repeatedAlarmEvent ↔
        SameCondition alarmEvent repeatedAlarmEvent) ∧
      (Worker.correlationKey alarmEvent.json = Worker.correlationKey repeatedAlarmEvent.json ↔
        SameCondition alarmEvent repeatedAlarmEvent) :=
  correlation_keys alarmEvent repeatedAlarmEvent (by decide +kernel)

/-- The two tiers do not agree on the key of every event. -/
theorem correlation_keys_disagree :
    ¬∀ e : AlertEvent, Worker.correlationKey e.json = some (Web.correlationKey e) := by
  intro h
  exact absurd (h alarmEvent) (by decide +kernel)

end AwsOps.Incident
