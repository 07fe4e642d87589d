import AwsOps.Foundation.Fallible
import AwsOps.NetworkPath.Verify

/-!
# Evidence as adapters return it

`bound_evidence` on values that need not come from a JSON text: tuples, objects of other classes
such as times and byte strings, and dictionaries with keys that are not strings. Redaction follows
dictionaries and lists only and asks every key for `lower`; the size is that of the items written
one by one with `default=str`; and the steps are stored by a `json.dumps` without that default. The
main result, `evidence_law_iff`, says for which evidence the bounded list is small, free of
secrets and can be stored.
-/

namespace AwsOps.NetworkPath.Evidence

open List Option

/-- A value. Of an object of another class it matters what `str` writes, whether it has a method
`lower`, as byte strings do, and what a loop over it visits. -/
inductive Value where
  | none
  | bool (value : Bool)
  | int (value : Int)
  | float (repr : String)
  | str (value : String)
  | list (items : List Value)
  | tuple (items : List Value)
  | dict (fields : List (Value × Value))
  | other (text : String) (hasLower : Bool) (items : Option (List Value))

/-- The exceptions that `bound_evidence` does not catch. -/
inductive Exn where
  | attributeError
  | recursionError
  deriving DecidableEq

/-- What the interpreter brings along: the case mapping of its Unicode tables, and how many nested
calls of `_redact` fit on its stack. -/
structure Interpreter where
  unicode : Text.Unicode
  redactDepth : Nat

/-! ## Redaction -/

/-- What replaces the value of a sensitive key. -/
def redactedMark : Value :=
  .str "[redacted]"

/-- `k.lower() in _REDACT_KEYS`. -/
def isSensitive (U : Text.Unicode) : Value → Except Exn Bool
  | .str s => .ok (decide (Text.lower U s ∈ redactKeys))
  | .other _ true _ => .ok false
  | _ => .error .attributeError

/-- Replace the values of sensitive keys in dictionaries and lists. -/
def redact (U : Text.Unicode) : Nat → Value → Except Exn Value
  | 0, _ => .error .recursionError
  | depth + 1, .dict fields => do
      let fields ← fields.mapM fun field => do
        let sensitive ← isSensitive U field.1
        let value ← if sensitive then pure redactedMark else redact U depth field.2
        pure (field.1, value)
      pure (.dict fields)
  | depth + 1, .list items => do
      let items ← items.mapM (redact U depth)
      pure (.list items)
  | _ + 1, value => pure value

/-! ## Serialization -/

/-- The text of a dictionary key. `none` is the `TypeError` of the other keys. -/
def keyText : Value → Option (List Char)
  | .str s => some (Json.dumpsString s)
  | .none => some (Json.dumpsString "null")
  | .bool b => some (Json.dumpsString (if b then "true" else "false"))
  | .int n => some (Json.dumpsString (toString n))
  | .float repr => some (Json.dumpsString repr)
  | _ => none

mutual
/-- `json.dumps(value, default=str)`, or without the default. `none` is its `TypeError`. -/
def dumps (default : Bool) : Value → Option (List Char)
  | .none => some "null".toList
  | .bool b => some (if b then "true".toList else "false".toList)
  | .int n => some (toString n).toList
  | .float repr => some repr.toList
  | .str s => some (Json.dumpsString s)
  | .list items =>
    (dumpsItems default items).map fun texts =>
      '[' :: List.intercalate [',', ' '] texts ++ [']']
  | .tuple items =>
    (dumpsItems default items).map fun texts =>
      '[' :: List.intercalate [',', ' '] texts ++ [']']
  | .dict fields =>
    (dumpsFields default fields).map fun texts =>
      '{' :: List.intercalate [',', ' '] texts ++ ['}']
  | .other text _ _ => if default then some (Json.dumpsString text) else none

def dumpsItems (default : Bool) : List Value → Option (List (List Char))
  | [] => some []
  | first :: rest => do
      let text ← dumps default first
      let texts ← dumpsItems default rest
      some (text :: texts)

/-- The texts of the fields of a dictionary. -/
def dumpsFields (default : Bool) : List (Value × Value) → Option (List (List Char))
  | [] => some []
  | (key, value) :: rest => do
      let name ← keyText key
      let text ← dumps default value
      let texts ← dumpsFields default rest
      some ((name ++ [':', ' '] ++ text) :: texts)
end

/-! ## Bounding and storing -/

/-- The truth value. An object of another class is false at most when a loop over it visits
nothing. -/
def truthy : Value → Bool
  | .none => false
  | .bool b => b
  | .int n => n != 0
  | .float repr => repr != "0.0" && repr != "-0.0"
  | .str s => s != ""
  | .list items => !items.isEmpty
  | .tuple items => !items.isEmpty
  | .dict fields => !fields.isEmpty
  | .other _ _ items => !(items.map List.isEmpty).getD false

/-- What a loop over the value visits. `none` is the `TypeError` of a value without items. -/
def iterate : Value → Option (List Value)
  | .str s => some (s.toList.map fun c => .str c.toString)
  | .list items => some items
  | .tuple items => some items
  | .dict fields => some (fields.map Prod.fst)
  | .other _ _ items => items
  | _ => none

/-- `evidence or []`, as the loop visits it. -/
def evidenceItems (evidence : Value) : Option (List Value) :=
  if truthy evidence then iterate evidence else some []

/-- Keep items while their total serialized size stays within the limit. `none` is a `TypeError`
of `json.dumps`. -/
def takeWithin (total : Nat) : List Value → Option (List Value)
  | [] => some []
  | item :: rest => do
      let blob ← dumps true item
      let total := total + blob.length
      if total > maxEvidenceBytes then some []
      else (takeWithin total rest).map fun out => item :: out

/-- Bound and redact the evidence of one step. A `TypeError` gives the empty list. -/
def boundEvidence (I : Interpreter) (evidence : Value) : Except Exn (List Value) :=
  match evidenceItems evidence with
  | none => .ok []
  | some items => do
      let items ← items.mapM (redact I.unicode I.redactDepth)
      pure ((takeWithin 0 (items.take maxEvidenceItems)).getD [])

/-- `json.dumps(s["evidence"])`, as the steps are stored. -/
def storedText (evidence : List Value) : Option (List Char) :=
  dumps false (.list evidence)

/-! ## What the bounded evidence should be -/

/-- The key names a secret. -/
def Sensitive (U : Text.Unicode) (key : Value) : Prop :=
  isSensitive U key = .ok true

/-- A value of the given kind occurs at some depth. -/
inductive Contains (bad : Value → Prop) : Value → Prop
  | here {value : Value} : bad value → Contains bad value
  | field {fields : List (Value × Value)} {key value : Value} :
      (key, value) ∈ fields → Contains bad value → Contains bad (.dict fields)
  | item {items : List Value} {value : Value} :
      value ∈ items → Contains bad value → Contains bad (.list items)
  | member {items : List Value} {value : Value} :
      value ∈ items → Contains bad value → Contains bad (.tuple items)

/-- A dictionary with a value under a sensitive key. -/
inductive OpenSecret (U : Text.Unicode) : Value → Prop
  | mk {fields : List (Value × Value)} {key value : Value} :
      (key, value) ∈ fields → Sensitive U key → value ≠ redactedMark →
      OpenSecret U (.dict fields)

/-- An object of another class, which `json.dumps` writes only with a default. -/
inductive Foreign : Value → Prop
  | mk (text : String) (hasLower : Bool) (items : Option (List Value)) :
      Foreign (.other text hasLower items)

/-- Bounding does not raise; what it keeps has at most ten items and no value under a sensitive key
at any depth, can be stored, and is stored in at most 4000 characters. -/
def EvidenceLaw (I : Interpreter) (evidence : Value) : Prop :=
  ∃ out text, boundEvidence I evidence = .ok out ∧ out.length ≤ maxEvidenceItems ∧
    (∀ value ∈ out, ¬ Contains (OpenSecret I.unicode) value) ∧
    storedText out = some text ∧ text.length ≤ maxEvidenceBytes

/-! ## When it is -/

/-- Redaction does not look inside. -/
def Opaque : Value → Prop
  | .dict _ => False
  | .list _ => False
  | _ => True

/-- A value of the given kind occurs where redaction leaves it: inside a value that redaction does
not follow and that is not under a sensitive key. -/
inductive Left (U : Text.Unicode) (bad : Value → Prop) : Value → Prop
  | kept {value : Value} : Opaque value → Contains bad value → Left U bad value
  | field {fields : List (Value × Value)} {key value : Value} :
      (key, value) ∈ fields → ¬ Sensitive U key → Left U bad value → Left U bad (.dict fields)
  | item {items : List Value} {value : Value} :
      value ∈ items → Left U bad value → Left U bad (.list items)

/-- Redaction can follow the value: every key it meets has a method `lower`, and the nesting fits
on the stack. -/
def Walks (U : Text.Unicode) : Nat → Value → Prop
  | 0, _ => False
  | depth + 1, .dict fields =>
    ∀ field ∈ fields, isSensitive U field.1 = .ok true ∨
      isSensitive U field.1 = .ok false ∧ Walks U depth field.2
  | depth + 1, .list items => ∀ item ∈ items, Walks U depth item
  | _ + 1, _ => True

section Conditions

variable (I : Interpreter)

/-- The items of the evidence; evidence without items counts as empty. -/
def itemsOf (evidence : Value) : List Value :=
  (evidenceItems evidence).getD []

/-- The text of an item after redaction, with the default. -/
def blob (item : Value) : Option (List Char) :=
  match redact I.unicode I.redactDepth item with
  | .ok item => dumps true item
  | .error _ => none

def size (item : Value) : Nat :=
  ((blob I item).getD []).length

/-- The items can be written and fit together into the limit. -/
def Fits (items : List Value) : Prop :=
  (∀ item ∈ items, (blob I item).isSome) ∧ (items.map (size I)).sum ≤ maxEvidenceBytes

/-- The items can be stored as they are: redaction leaves no foreign object and no secret in them,
and there is room for the brackets and separators of the list. -/
def Storable (items : List Value) : Prop :=
  (∀ item ∈ items, ¬ Left I.unicode Foreign item ∧
    ¬ Left I.unicode (OpenSecret I.unicode) item) ∧
  (items.map (size I)).sum + 2 * items.length ≤ maxEvidenceBytes

/-- An item among the first ten that the loop reaches has a key that `json.dumps` cannot write. -/
def Abandoned (items : List Value) : Prop :=
  ∃ k item, k < maxEvidenceItems ∧ items[k]? = some item ∧ Fits I (items.take k) ∧
    blob I item = none

/-- Redaction can follow every item, and either the loop is abandoned or all the items that fit
can be stored. -/
def Bounded (items : List Value) : Prop :=
  (∀ item ∈ items, Walks I.unicode I.redactDepth item) ∧
    (Abandoned I items ∨
      ∀ k ≤ maxEvidenceItems, Fits I (items.take k) → Storable I (items.take k))

end Conditions

/-! ## What redaction does -/

def redactField (U : Text.Unicode) (depth : Nat) (field : Value × Value) :
    Except Exn (Value × Value) := do
  let sensitive ← isSensitive U field.1
  let value ← if sensitive then pure redactedMark else redact U depth field.2
  pure (field.1, value)

variable {U : Text.Unicode} {depth : Nat} {value : Value}

theorem redact_dict {fields : List (Value × Value)} : redact U (depth + 1) (.dict fields) =
      fields.mapM (redactField U depth) >>= fun fields => pure (.dict fields) :=
  rfl

theorem redact_list {items : List Value} : redact U (depth + 1) (.list items) =
      items.mapM (redact U depth) >>= fun items => pure (.list items) :=
  rfl

theorem redact_field_ok {key : Value} {field : Value × Value} :
    redactField U depth (key, value) = .ok field ↔
      isSensitive U key = .ok true ∧ field = (key, redactedMark) ∨
      isSensitive U key = .ok false ∧ ∃ redacted, redact U depth value = .ok redacted ∧
        field = (key, redacted) := by
  simp only [redactField]
  cases hsensitive : isSensitive U key with
  | error exn => simp [bind, Except.bind]
  | ok sensitive =>
    cases sensitive with
    | true =>
      rw [ok_bind]
      simp only [if_true, Except.ok.injEq, true_and, reduceCtorEq, false_and, or_false]
      exact ⟨fun h => (Except.ok.inj h).symm, fun h => congrArg Except.ok h.symm⟩
    | false =>
      rw [ok_bind]
      simp only [Bool.false_eq_true, if_false, Except.ok.injEq, false_and, true_and, false_or,
        bind_eq_ok, pure_eq_ok]
      exact ⟨fun ⟨a, ha, h⟩ => ⟨a, ha, h.symm⟩, fun ⟨a, ha, h⟩ => ⟨a, ha, h.symm⟩⟩

theorem redact_ok_iff :
    (∃ redacted, redact U depth value = .ok redacted) ↔ Walks U depth value := by
  induction depth generalizing value with
  | zero =>
    constructor
    · intro ⟨_, h⟩
      cases h
    · intro h
      exact absurd h id
  | succ depth ih =>
    cases value with
    | dict fields =>
      constructor
      · intro ⟨redacted, h⟩ ⟨key, value⟩ hfield
        rw [redact_dict] at h
        obtain ⟨results, hresults, _⟩ := bind_eq_ok.mp h
        obtain ⟨result, _, hresult⟩ := result_of_mapM hresults _ hfield
        rcases redact_field_ok.mp hresult with ⟨hkey, _⟩ | ⟨hkey, redacted, hvalue, _⟩
        · exact .inl hkey
        · exact .inr ⟨hkey, ih.mp ⟨redacted, hvalue⟩⟩
      · intro h
        have hall : ∀ field ∈ fields, ∃ result, redactField U depth field = .ok result := by
          intro ⟨key, value⟩ hfield
          rcases h _ hfield with hkey | ⟨hkey, hvalue⟩
          · exact ⟨_, redact_field_ok.mpr (.inl ⟨hkey, rfl⟩)⟩
          · obtain ⟨redacted, hvalue⟩ := ih.mpr hvalue
            exact ⟨_, redact_field_ok.mpr (.inr ⟨hkey, redacted, hvalue, rfl⟩)⟩
        obtain ⟨results, hresults⟩ := mapM_total hall
        exact ⟨.dict results, by rw [redact_dict, hresults]; rfl⟩
    | list items =>
      constructor
      · intro ⟨redacted, h⟩ item hitem
        rw [redact_list] at h
        obtain ⟨results, hresults, _⟩ := bind_eq_ok.mp h
        obtain ⟨result, _, hresult⟩ := result_of_mapM hresults _ hitem
        exact ih.mp ⟨result, hresult⟩
      · intro h
        obtain ⟨results, hresults⟩ := mapM_total fun item hitem => ih.mpr (h item hitem)
        exact ⟨.list results, by rw [redact_list, hresults]; rfl⟩
    | _ => exact ⟨fun _ => trivial, fun _ => ⟨_, rfl⟩⟩

/-- Redaction keeps of a kind of value what lies where it does not look, provided that the kind is
not one that redaction removes. -/
theorem contains_redact_iff {bad : Value → Prop} (hlist : ∀ items, ¬ bad (.list items))
    (hdict : ∀ fields, (∀ key value, (key, value) ∈ fields → Sensitive U key →
      value = redactedMark) → ¬ bad (.dict fields)) (hmark : ¬ bad redactedMark) {redacted : Value}
    (h : redact U depth value = .ok redacted) :
    Contains bad redacted ↔ Left U bad value := by
  induction depth generalizing value redacted with
  | zero => cases h
  | succ depth ih =>
    cases value with
    | dict fields =>
      rw [redact_dict] at h
      obtain ⟨results, hresults, h⟩ := bind_eq_ok.mp h
      cases pure_eq_ok.mp h
      constructor
      · intro hbad
        cases hbad with
        | here hbad =>
          refine absurd hbad (hdict results fun key value hmem hkey => ?_)
          obtain ⟨⟨key', value'⟩, _, hfield⟩ := source_of_mapM hresults _ hmem
          rcases redact_field_ok.mp hfield with ⟨_, hfield⟩ | ⟨hkey', _, _, hfield⟩
          · cases hfield
            rfl
          · cases hfield
            rw [Sensitive, hkey'] at hkey
            cases hkey
        | field hmem hbad =>
          obtain ⟨⟨key, value⟩, hsource, hfield⟩ := source_of_mapM hresults _ hmem
          rcases redact_field_ok.mp hfield with ⟨_, hfield⟩ | ⟨hkey, _, hvalue, hfield⟩
          · cases hfield
            cases hbad with
            | here hbad => exact absurd hbad hmark
          · cases hfield
            refine .field hsource (fun hsensitive => ?_) ((ih hvalue).mp hbad)
            rw [Sensitive, hkey] at hsensitive
            cases hsensitive
      · intro hleft
        cases hleft with
        | kept hopaque => exact absurd hopaque id
        | field hmem hkey hleft =>
          obtain ⟨field, hfield, hresult⟩ := result_of_mapM hresults _ hmem
          rcases redact_field_ok.mp hresult with ⟨hkey', _⟩ | ⟨_, _, hvalue, rfl⟩
          · exact absurd hkey' hkey
          · exact .field hfield ((ih hvalue).mpr hleft)
    | list items =>
      rw [redact_list] at h
      obtain ⟨results, hresults, h⟩ := bind_eq_ok.mp h
      cases pure_eq_ok.mp h
      constructor
      · intro hbad
        cases hbad with
        | here hbad => exact absurd hbad (hlist results)
        | item hmem hbad =>
          obtain ⟨item, hitem, hresult⟩ := source_of_mapM hresults _ hmem
          exact .item hitem ((ih hresult).mp hbad)
      · intro hleft
        cases hleft with
        | kept hopaque => exact absurd hopaque id
        | item hmem hleft =>
          obtain ⟨result, hmem', hresult⟩ := result_of_mapM hresults _ hmem
          exact .item hmem' ((ih hresult).mpr hleft)
    | _ =>
      cases h
      constructor
      · intro hbad
        exact .kept trivial hbad
      · intro hleft
        cases hleft with
        | kept _ hbad => exact hbad

theorem secret_redact_iff {redacted : Value} (h : redact U depth value = .ok redacted) :
    Contains (OpenSecret U) redacted ↔ Left U (OpenSecret U) value := by
  refine contains_redact_iff (fun items hbad => by cases hbad) (fun fields hfields hbad => ?_)
    (fun hbad => by cases hbad) h
  cases hbad with
  | mk hmem hkey hvalue => exact hvalue (hfields _ _ hmem hkey)

theorem foreign_redact_iff {redacted : Value} (h : redact U depth value = .ok redacted) :
    Contains Foreign redacted ↔ Left U Foreign value :=
  contains_redact_iff (fun items hbad => by cases hbad) (fun fields _ hbad => by cases hbad)
    (fun hbad => by cases hbad) h

/-! ## What the serializer does -/

mutual
theorem dumps_strict {value : Value} (h : ¬ Contains Foreign value) :
    dumps false value = dumps true value := by
  cases value with
  | list items =>
    simp only [dumps]
    rw [dumps_items_strict fun item hitem hbad => h (.item hitem hbad)]
  | tuple items =>
    simp only [dumps]
    rw [dumps_items_strict fun item hitem hbad => h (.member hitem hbad)]
  | dict fields =>
    simp only [dumps]
    rw [dumps_fields_strict fun field hfield hbad => h (.field hfield hbad)]
  | other text hasLower items => exact absurd (.here (.mk text hasLower items)) h
  | _ => rfl

theorem dumps_items_strict {items : List Value} (h : ∀ item ∈ items, ¬ Contains Foreign item) :
    dumpsItems false items = dumpsItems true items := by
  cases items with
  | nil => rfl
  | cons first rest =>
    simp only [dumpsItems]
    rw [dumps_strict (h first mem_cons_self),
      dumps_items_strict fun item hitem => h item (mem_cons_of_mem first hitem)]

theorem dumps_fields_strict {fields : List (Value × Value)}
    (h : ∀ field ∈ fields, ¬ Contains Foreign field.2) :
    dumpsFields false fields = dumpsFields true fields := by
  cases fields with
  | nil => rfl
  | cons first rest =>
    obtain ⟨key, value⟩ := first
    simp only [dumpsFields]
    rw [dumps_strict (h (key, value) mem_cons_self),
      dumps_fields_strict fun field hfield => h field (mem_cons_of_mem _ hfield)]
end

mutual
/-- What is written without the default holds no foreign object. -/
theorem clean_of_dumps {value : Value} (h : (dumps false value).isSome) :
    ¬ Contains Foreign value := by
  cases value with
  | list items =>
    simp only [dumps, isSome_map] at h
    intro hbad
    cases hbad with
    | here hbad => cases hbad
    | item hitem hbad => exact clean_of_dumps_items h _ hitem hbad
  | tuple items =>
    simp only [dumps, isSome_map] at h
    intro hbad
    cases hbad with
    | here hbad => cases hbad
    | member hitem hbad => exact clean_of_dumps_items h _ hitem hbad
  | dict fields =>
    simp only [dumps, isSome_map] at h
    intro hbad
    cases hbad with
    | here hbad => cases hbad
    | field hfield hbad => exact clean_of_dumps_fields h _ hfield hbad
  | other text hasLower items => simp [dumps] at h
  | _ =>
    intro hbad
    cases hbad with
    | here hbad => cases hbad

theorem clean_of_dumps_items {items : List Value} (h : (dumpsItems false items).isSome) :
    ∀ item ∈ items, ¬ Contains Foreign item := by
  cases items with
  | nil => exact fun item hitem => by cases hitem
  | cons first rest =>
    obtain ⟨texts, htexts⟩ := isSome_iff_exists.mp h
    simp only [dumpsItems, bind, bind_eq_some_iff] at htexts
    obtain ⟨text, htext, rest', hrest, _⟩ := htexts
    intro item hitem
    rcases mem_cons.mp hitem with hfirst | hitem
    · rw [hfirst]
      exact clean_of_dumps (by rw [htext]; rfl)
    · exact clean_of_dumps_items (by rw [hrest]; rfl) item hitem

theorem clean_of_dumps_fields {fields : List (Value × Value)}
    (h : (dumpsFields false fields).isSome) :
    ∀ field ∈ fields, ¬ Contains Foreign field.2 := by
  cases fields with
  | nil => exact fun field hfield => by cases hfield
  | cons first rest =>
    obtain ⟨key, value⟩ := first
    obtain ⟨texts, htexts⟩ := isSome_iff_exists.mp h
    simp only [dumpsFields, bind, bind_eq_some_iff] at htexts
    obtain ⟨name, _, text, htext, rest', hrest, _⟩ := htexts
    intro field hfield
    rcases mem_cons.mp hfield with hfirst | hfield
    · rw [hfirst]
      exact clean_of_dumps (by rw [htext]; rfl)
    · exact clean_of_dumps_fields (by rw [hrest]; rfl) field hfield
end

def textSize (value : Value) : Nat :=
  ((dumps true value).getD []).length

variable {items : List Value} {total : Nat}

theorem dumps_items_is_some :
    (dumpsItems true items).isSome ↔ ∀ item ∈ items, (dumps true item).isSome := by
  induction items with
  | nil => simp [dumpsItems]
  | cons first rest ih =>
    simp only [dumpsItems, forall_mem_cons, ← ih]
    cases dumps true first <;> cases dumpsItems true rest <;> simp

theorem dumps_items_sizes {texts : List (List Char)} (h : dumpsItems true items = some texts) :
    texts.length = items.length ∧ (texts.map List.length).sum = (items.map textSize).sum := by
  induction items generalizing texts with
  | nil =>
    cases h
    exact ⟨rfl, rfl⟩
  | cons first rest ih =>
    simp only [dumpsItems, bind, bind_eq_some_iff] at h
    obtain ⟨text, htext, texts', htexts, h⟩ := h
    cases h
    obtain ⟨hlength, hsum⟩ := ih htexts
    have hfirst : textSize first = text.length := by
      rw [textSize, htext]
      rfl
    constructor
    · simp [hlength]
    · simp [hsum, hfirst]

theorem length_intercalate (separator : List Char) (first : List Char)
    (rest : List (List Char)) :
    (List.intercalate separator (first :: rest)).length =
      ((first :: rest).map List.length).sum + separator.length * rest.length := by
  induction rest generalizing first with
  | nil => simp
  | cons second rest ih =>
    rw [intercalate_cons_cons, length_append, length_append, ih]
    simp only [map_cons, sum_cons, length_cons, Nat.mul_add, Nat.mul_one]
    omega

theorem stored_text_length {text : List Char} (h : dumps true (.list items) = some text) :
    text.length ≤ maxEvidenceBytes ↔
      (items.map textSize).sum + 2 * items.length ≤ maxEvidenceBytes := by
  simp only [dumps, map_eq_some_iff] at h
  obtain ⟨texts, htexts, rfl⟩ := h
  obtain ⟨hlength, hsum⟩ := dumps_items_sizes htexts
  cases texts with
  | nil =>
    rw [length_eq_zero_iff.mp hlength.symm]
    decide
  | cons first rest =>
    have hjoined := length_intercalate [',', ' '] first rest
    simp only [length_cons, length_append, length_nil] at hlength hjoined ⊢
    omega

theorem stored_text_iff (h : ∀ item ∈ items, (dumps true item).isSome) :
    (∃ text, storedText items = some text ∧ text.length ≤ maxEvidenceBytes) ↔
      (∀ item ∈ items, ¬ Contains Foreign item) ∧
        (items.map textSize).sum + 2 * items.length ≤ maxEvidenceBytes := by
  have hsome : (dumps true (.list items)).isSome := by
    simpa [dumps] using dumps_items_is_some.mpr h
  obtain ⟨full, hfull⟩ := isSome_iff_exists.mp hsome
  have hclean : ¬ Contains Foreign (.list items) ↔ ∀ item ∈ items, ¬ Contains Foreign item := by
    constructor
    · intro hlist item hitem hbad
      exact hlist (.item hitem hbad)
    · intro hitems hbad
      cases hbad with
      | here hbad => cases hbad
      | item hitem hbad => exact hitems _ hitem hbad
  constructor
  · intro ⟨text, htext, hsize⟩
    have hlist : ¬ Contains Foreign (.list items) :=
      clean_of_dumps (by rw [← storedText, htext]; rfl)
    rw [storedText, dumps_strict hlist] at htext
    exact ⟨hclean.mp hlist, (stored_text_length htext).mp hsize⟩
  · intro ⟨hitems, hsize⟩
    exact ⟨full, by rw [storedText, dumps_strict (hclean.mpr hitems), hfull],
      (stored_text_length hfull).mpr hsize⟩

/-! ## What the loop keeps -/

/-- Redacted items can be written and fit into what is left of the limit. -/
def FitsFrom (total : Nat) (items : List Value) : Prop :=
  (∀ item ∈ items, (dumps true item).isSome) ∧ total + (items.map textSize).sum ≤ maxEvidenceBytes

theorem fits_from_cons {item : Value} {rest : List Value} {text : List Char}
    (h : dumps true item = some text) :
    FitsFrom total (item :: rest) ↔ FitsFrom (total + text.length) rest := by
  have hsize : textSize item = text.length := by
    rw [textSize, h]
    rfl
  have hsome : (dumps true item).isSome := by
    rw [h]
    rfl
  simp only [FitsFrom, forall_mem_cons, hsome, true_and, map_cons, sum_cons, hsize, Nat.add_assoc]

/-- The loop is abandoned at an item that cannot be written and that it reaches. -/
theorem take_within_eq_none_iff (htotal : total ≤ maxEvidenceBytes) :
    takeWithin total items = none ↔
      ∃ k item, items[k]? = some item ∧ FitsFrom total (items.take k) ∧ dumps true item = none := by
  induction items generalizing total with
  | nil => simp [takeWithin]
  | cons first rest ih =>
    cases htext : dumps true first with
    | none =>
      constructor
      · intro _
        exact ⟨0, first, rfl, ⟨by simp, by simpa using htotal⟩, htext⟩
      · intro _
        simp [takeWithin, htext]
    | some text =>
      have hstep : takeWithin total (first :: rest) =
          if total + text.length > maxEvidenceBytes then some []
          else (takeWithin (total + text.length) rest).map fun out => first :: out := by
        simp [takeWithin, htext]
      rw [hstep]
      by_cases hfull : total + text.length > maxEvidenceBytes
      · rw [if_pos hfull]
        refine ⟨fun h => (by cases h), fun ⟨k, item, hitem, hfits, hnone⟩ => ?_⟩
        cases k with
        | zero =>
          rw [List.getElem?_cons_zero, Option.some.injEq] at hitem
          rw [← hitem, htext] at hnone
          cases hnone
        | succ k =>
          have := ((fits_from_cons htext).mp hfits).2
          omega
      · rw [if_neg hfull, map_eq_none_iff, ih (by omega)]
        constructor
        · intro ⟨k, item, hitem, hfits, hnone⟩
          exact ⟨k + 1, item, hitem, (fits_from_cons htext).mpr hfits, hnone⟩
        · intro ⟨k, item, hitem, hfits, hnone⟩
          cases k with
          | zero =>
            rw [List.getElem?_cons_zero, Option.some.injEq] at hitem
            rw [← hitem, htext] at hnone
            cases hnone
          | succ k => exact ⟨k, item, hitem, (fits_from_cons htext).mp hfits, hnone⟩

/-- The loop keeps the longest initial segment of items that fits. -/
theorem take_within_some {out : List Value} (htotal : total ≤ maxEvidenceBytes)
    (h : takeWithin total items = some out) :
    ∃ k, out = items.take k ∧ FitsFrom total out ∧
      ∀ j ≤ items.length, FitsFrom total (items.take j) → j ≤ k := by
  induction items generalizing total out with
  | nil =>
    cases h
    exact ⟨0, rfl, ⟨by simp, by simpa using htotal⟩, fun j hj _ => hj⟩
  | cons first rest ih =>
    simp only [takeWithin, bind, bind_eq_some_iff] at h
    obtain ⟨text, htext, h⟩ := h
    split at h
    · rename_i hfull
      cases h
      refine ⟨0, rfl, ⟨by simp, by simpa using htotal⟩, fun j _ hfits => ?_⟩
      cases j with
      | zero => exact Nat.le_refl 0
      | succ j =>
        have := ((fits_from_cons htext).mp hfits).2
        omega
    · rename_i hfull
      obtain ⟨out', hout, rfl⟩ := map_eq_some_iff.mp h
      obtain ⟨k, hk, hfits, hmax⟩ := ih (by omega) hout
      refine ⟨k + 1, by rw [hk, take_succ_cons], (fits_from_cons htext).mpr hfits,
        fun j hj hfits => ?_⟩
      cases j with
      | zero => exact Nat.zero_le _
      | succ j =>
        have := hmax j (by simpa using hj) ((fits_from_cons htext).mp hfits)
        omega

/-! ## The evidence that is bounded as it should be -/

/-- Redacted items that can be stored. -/
def Kept (U : Text.Unicode) (items : List Value) : Prop :=
  (∀ item ∈ items, ¬ Contains Foreign item ∧ ¬ Contains (OpenSecret U) item) ∧
    (items.map textSize).sum + 2 * items.length ≤ maxEvidenceBytes

theorem kept_take {U : Text.Unicode} {j k : Nat} (hjk : j ≤ k)
    (h : Kept U (items.take k)) : Kept U (items.take j) := by
  have hsplit := take_append_drop j (items.take k)
  rw [take_take, Nat.min_eq_left hjk] at hsplit
  rw [← hsplit] at h
  obtain ⟨hclean, hsize⟩ := h
  simp only [map_append, sum_append, length_append] at hsize
  exact ⟨fun item hitem => hclean item (mem_append_left _ hitem), by omega⟩

/-! ## Evidence that is a JSON value -/

mutual
def ofJson : Json → Value
  | .null => .none
  | .bool b => .bool b
  | .int n => .int n
  | .float repr => .float repr
  | .str s => .str s
  | .arr items => .list (ofItems items)
  | .obj fields => .dict (ofFields fields)

/-- `ofJson` on the items of an array. -/
def ofItems : List Json → List Value
  | [] => []
  | first :: rest => ofJson first :: ofItems rest

/-- `ofJson` on the fields of an object. -/
def ofFields : List (String × Json) → List (Value × Value)
  | [] => []
  | (key, value) :: rest => (.str key, ofJson value) :: ofFields rest
end

theorem of_items_eq_map (items : List Json) : ofItems items = items.map ofJson := by
  induction items with
  | nil => rfl
  | cons first rest ih => rw [ofItems, ih, map_cons]

mutual
theorem redact_of_json (U : Text.Unicode) (json : Json) : ∃ least, ∀ depth ≥ least,
      redact U depth (ofJson json) = .ok (ofJson (NetworkPath.redact U json)) := by
  cases json with
  | arr items =>
    obtain ⟨least, hleast⟩ := redact_of_items U items
    refine ⟨least + 1, fun depth hdepth => ?_⟩
    obtain ⟨depth, rfl⟩ := Nat.exists_eq_add_of_le' (Nat.le_trans (Nat.le_add_left 1 _) hdepth)
    rw [ofJson, redact_list, hleast depth (by omega), NetworkPath.redact, ofJson]
    rfl
  | obj fields =>
    obtain ⟨least, hleast⟩ := redact_of_fields U fields
    refine ⟨least + 1, fun depth hdepth => ?_⟩
    obtain ⟨depth, rfl⟩ := Nat.exists_eq_add_of_le' (Nat.le_trans (Nat.le_add_left 1 _) hdepth)
    rw [ofJson, redact_dict, hleast depth (by omega), NetworkPath.redact, ofJson]
    rfl
  | _ =>
    refine ⟨1, fun depth hdepth => ?_⟩
    obtain ⟨depth, rfl⟩ := Nat.exists_eq_add_of_le' hdepth
    rfl

theorem redact_of_items (U : Text.Unicode) (items : List Json) : ∃ least, ∀ depth ≥ least,
      (ofItems items).mapM (redact U depth) = .ok (ofItems (redactItems U items)) := by
  cases items with
  | nil => exact ⟨0, fun _ _ => rfl⟩
  | cons first rest =>
    obtain ⟨least, hfirst⟩ := redact_of_json U first
    obtain ⟨least', hrest⟩ := redact_of_items U rest
    refine ⟨max least least', fun depth hdepth => ?_⟩
    rw [ofItems, mapM_cons, hfirst depth (by omega), ok_bind, hrest depth (by omega),
      ok_bind, redactItems, ofItems]
    rfl

theorem redact_of_fields (U : Text.Unicode) (fields : List (String × Json)) :
    ∃ least, ∀ depth ≥ least,
      (ofFields fields).mapM (redactField U depth) = .ok (ofFields (redactFields U fields)) := by
  cases fields with
  | nil => exact ⟨0, fun _ _ => rfl⟩
  | cons first rest =>
    obtain ⟨key, value⟩ := first
    obtain ⟨least, hfirst⟩ := redact_of_json U value
    obtain ⟨least', hrest⟩ := redact_of_fields U rest
    refine ⟨max least least', fun depth hdepth => ?_⟩
    have hfield : redactField U depth (.str key, ofJson value) =
        .ok (.str key, ofJson (if Text.lower U key ∈ redactKeys then .str "[redacted]"
          else NetworkPath.redact U value)) := by
      by_cases hkey : Text.lower U key ∈ redactKeys
      · refine redact_field_ok.mpr (.inl ⟨by simp [isSensitive, hkey], ?_⟩)
        rw [if_pos hkey]
        rfl
      · refine redact_field_ok.mpr (.inr ⟨by simp [isSensitive, hkey], _,
          hfirst depth (by omega), ?_⟩)
        rw [if_neg hkey]
    rw [ofFields, mapM_cons, hfield, ok_bind, hrest depth (by omega), ok_bind, redactFields,
      ofFields]
    rfl
end

mutual
theorem dumps_of_json (default : Bool) (json : Json) :
    dumps default (ofJson json) = some json.dumps := by
  cases json with
  | arr items =>
    rw [ofJson, dumps, dumps_of_items default items]
    rfl
  | obj fields =>
    rw [ofJson, dumps, dumps_of_fields default fields]
    rfl
  | _ => rfl

theorem dumps_of_items (default : Bool) (items : List Json) :
    dumpsItems default (ofItems items) = some (Json.dumpsItems [',', ' '] [':', ' '] items) := by
  cases items with
  | nil => rfl
  | cons first rest =>
    rw [ofItems, dumpsItems, dumps_of_json default first, dumps_of_items default rest]
    rfl

theorem dumps_of_fields (default : Bool) (fields : List (String × Json)) :
    dumpsFields default (ofFields fields) =
      some (Json.dumpsFields [',', ' '] [':', ' '] fields) := by
  cases fields with
  | nil => rfl
  | cons first rest =>
    obtain ⟨key, value⟩ := first
    rw [ofFields, dumpsFields, dumps_of_json default value, dumps_of_fields default rest]
    rfl
end

theorem take_within_of_items (total : Nat) (items : List Json) :
    takeWithin total (ofItems items) = some (ofItems (NetworkPath.takeWithin total items)) := by
  induction items generalizing total with
  | nil => rfl
  | cons first rest ih =>
    simp only [ofItems, takeWithin, dumps_of_json, bind, bind_some, NetworkPath.takeWithin, ih]
    split
    · rfl
    · rfl

theorem evidence_items_of_json (json : Json) : evidenceItems (ofJson json) =
      (if json.truthy then json.iterate else some []).map ofItems := by
  have htruthy : truthy (ofJson json) = json.truthy := by
    cases json with
    | arr items => cases items <;> rfl
    | obj fields => cases fields <;> rfl
    | _ => rfl
  have hfields : ∀ fields, (ofFields fields).map Prod.fst =
      ofItems (fields.map fun field => .str field.1) := by
    intro fields
    induction fields with
    | nil => rfl
    | cons first rest ih =>
      obtain ⟨key, value⟩ := first
      simp [ofFields, ih, ofItems, ofJson]
  have hiterate : iterate (ofJson json) = json.iterate.map ofItems := by
    cases json with
    | obj fields => exact congrArg some (hfields fields)
    | str s => simp [ofJson, iterate, Json.iterate, of_items_eq_map]
    | _ => rfl
  rw [evidenceItems, htruthy, hiterate]
  split <;> rfl

theorem bound_evidence_of_json (U : Text.Unicode) (json : Json) :
    ∃ least, ∀ depth ≥ least, boundEvidence ⟨U, depth⟩ (ofJson json) =
      .ok (ofItems (NetworkPath.boundEvidence U json)) := by
  simp only [boundEvidence, evidence_items_of_json, NetworkPath.boundEvidence]
  cases (if json.truthy then json.iterate else some []) with
  | none => exact ⟨0, fun _ _ => rfl⟩
  | some items =>
    obtain ⟨least, hleast⟩ := redact_of_items U items
    refine ⟨least, fun depth hdepth => ?_⟩
    have hmap : ∀ items, redactItems U items = items.map (NetworkPath.redact U) := by
      intro items
      induction items with
      | nil => rfl
      | cons first rest ih => rw [redactItems, ih, map_cons]
    simp only [map_some]
    rw [hleast depth hdepth, ok_bind, hmap, of_items_eq_map, ← map_take, ← of_items_eq_map,
      take_within_of_items]
    rfl

/-! ## The steps of a check -/

structure Persistable (U : Text.Unicode) (evidence : List Json) : Prop where
  count : evidence.length ≤ maxEvidenceItems
  size : (evidence.map fun item => item.dumps.length).sum ≤ maxEvidenceBytes
  secrets : ∀ item ∈ evidence, ¬ Contains (OpenSecret U) (ofJson item)
  stored : storedText (ofItems evidence) = some (Json.arr evidence).dumps

theorem closed_of_json (U : Text.Unicode) (json : Json) :
    ¬ Left U (OpenSecret U) (ofJson json) := by
  intro h
  generalize hvalue : ofJson json = value at h
  induction h generalizing json with
  | kept hopaque hbad =>
    subst hvalue
    cases json <;> first | exact hopaque | (cases hbad with | here hbad => cases hbad)
  | field hmem _ _ ih =>
    cases json <;> cases hvalue
    rename_i fields
    induction fields with
    | nil => cases hmem
    | cons first rest ihRest =>
      rcases mem_cons.mp hmem with heq | hmem
      · exact ih first.2 (Prod.mk.inj heq).2.symm
      · exact ihRest hmem
  | item hmem _ ih =>
    cases json <;> cases hvalue
    rw [of_items_eq_map] at hmem
    obtain ⟨json, -, hjson⟩ := mem_map.mp hmem
    exact ih json hjson

theorem take_within_prefix {total : Nat} (htotal : total ≤ maxEvidenceBytes) (items : List Json) :
    NetworkPath.takeWithin total items <+: items ∧
      total + ((NetworkPath.takeWithin total items).map fun item => item.dumps.length).sum ≤
        maxEvidenceBytes := by
  induction items generalizing total with
  | nil => exact ⟨prefix_rfl, htotal⟩
  | cons first rest ih =>
    simp only [NetworkPath.takeWithin]
    split
    · exact ⟨ nil_prefix, htotal⟩
    · rename_i hfits
      obtain ⟨ hprefix, hsize⟩ := ih (Nat.not_lt.mp hfits)
      refine ⟨(prefix_cons_inj first).mpr hprefix, ?_⟩
      rw [map_cons, sum_cons, ← Nat.add_assoc]
      exact hsize

theorem persistable_bound (U : Text.Unicode) (evidence : Json) :
    Persistable U (NetworkPath.boundEvidence U evidence) := by
  rw [NetworkPath.boundEvidence]
  cases (if evidence.truthy then evidence.iterate else some []) with
  | none => exact ⟨by simp, by simp, by simp, rfl⟩
  | some items =>
    obtain ⟨ hprefix, hsize⟩ := take_within_prefix (Nat.zero_le _)
      ((items.map (NetworkPath.redact U)).take maxEvidenceItems)
    refine ⟨ hprefix.length_le.trans (length_take_le ..), by simpa using hsize, ?_,
      dumps_of_json false (.arr _)⟩
    intro item hitem
    obtain ⟨source, -, rfl⟩ := mem_map.mp (mem_of_mem_take ( hprefix.subset hitem))
    obtain ⟨least, hleast⟩ := redact_of_json U source
    rw [secret_redact_iff (hleast least (Nat.le_refl _))]
    exact closed_of_json U source

/-- Whatever the adapters return or raise: the evidence of every step has few and small items, shows
no value under a sensitive key at any depth, and is stored as it is. A step with evidence has what
`bound_evidence` makes of the result of its adapter, where the stack allows. -/
theorem persisted_evidence_bounded (U : Text.Unicode) (request : Json) (deadlineAt : Int)
    (run : Run) (i : Nat) (step : Step) (h : (run.steps U request deadlineAt)[i]? = some step) :
    Persistable U step.evidence ∧ (step.evidence = [] ∨
      ∃ result, run.Outcome request deadlineAt i (.ok result) ∧ ∃ least, ∀ depth ≥ least,
        boundEvidence ⟨U, depth⟩ (ofJson result.evidence) = .ok (ofItems step.evidence)) := by
  have hempty : Persistable U [] := persistable_bound U .null
  by_cases htime : run.env.InTime deadlineAt i
  · rw [steps_get_in_time U request deadlineAt run i htime] at h
    obtain ⟨layer, hplan, rfl⟩ := map_eq_some_iff.mp h
    rw [runLayer]
    cases hfn : run.env.adapters layer with
    | none => exact ⟨hempty, .inl rfl⟩
    | some fn =>
      cases hcall : fn i (run.candidate.layerData layer) request with
      | error message =>
        simp only [hcall]
        exact ⟨hempty, .inl rfl⟩
      | ok result =>
        simp only [hcall, StepResult.toStep]
        exact ⟨persistable_bound U _, .inr ⟨result, ⟨htime, layer, fn, hplan, hfn, hcall⟩,
          bound_evidence_of_json U _⟩⟩
  · rw [steps_get_late U request deadlineAt run i htime] at h
    obtain ⟨layer, -, rfl⟩ := map_eq_some_iff.mp h
    exact ⟨hempty, .inl rfl⟩

/-- An adapter that returns a password. -/
theorem persisted_evidence_bounded_password :
    let adapter : Adapter := fun _ _ _ => .ok ⟨"route", .allowed, .null, "",
      .arr [.obj [("password", .str "x"), ("cidr", .str "10.0.0.0/8")]]⟩
    let run : Run := ⟨⟨fun _ => some adapter, fun _ => 0⟩, ⟨"c", .resolved, ["route"], []⟩⟩
    ∃ step, (run.steps .ascii .null 1)[0]? = some step ∧ Persistable .ascii step.evidence := by
  intro adapter run
  exact ⟨_, rfl, (persisted_evidence_bounded .ascii .null 1 run 0 _ rfl).1⟩

section Conditions

variable {I : Interpreter}

/-- The items and what redaction makes of them. -/
def Redacts (I : Interpreter) (items redacted : List Value) : Prop :=
  List.Forall₂ (fun item result => redact I.unicode I.redactDepth item = .ok result) items redacted

theorem blob_eq {item result : Value} (h : redact I.unicode I.redactDepth item = .ok result) :
    blob I item = dumps true result := by
  rw [blob, h]

variable {redacted : List Value}

theorem fits_iff (h : Redacts I items redacted) : Fits I items ↔ FitsFrom 0 redacted := by
  have hsizes : items.map (size I) = redacted.map textSize ∧
      ((∀ item ∈ items, (blob I item).isSome) ↔ ∀ item ∈ redacted, (dumps true item).isSome) := by
    induction h with
    | nil => simp
    | cons hfirst _ ih =>
      simp only [map_cons, forall_mem_cons, ih.1, ih.2, size, textSize, blob_eq hfirst, and_self]
  simp [Fits, FitsFrom, hsizes.1, hsizes.2]

theorem storable_iff (h : Redacts I items redacted) :
    Storable I items ↔ Kept I.unicode redacted := by
  have hsizes : items.map (size I) = redacted.map textSize ∧
      ((∀ item ∈ items, ¬ Left I.unicode Foreign item ∧
          ¬ Left I.unicode (OpenSecret I.unicode) item) ↔
        ∀ item ∈ redacted, ¬ Contains Foreign item ∧ ¬ Contains (OpenSecret I.unicode) item) := by
    induction h with
    | nil => simp
    | cons hfirst _ ih =>
      simp only [map_cons, forall_mem_cons, ih.1, ih.2, size, textSize, blob_eq hfirst,
        foreign_redact_iff hfirst, secret_redact_iff hfirst, and_self]
  simp only [Storable, Kept, hsizes.1, hsizes.2, h.length_eq]

theorem kept_law_iff {evidence : Value} {out : List Value}
    (hbound : boundEvidence I evidence = .ok out) (hlength : out.length ≤ maxEvidenceItems)
    (hsome : ∀ item ∈ out, (dumps true item).isSome) :
    EvidenceLaw I evidence ↔ Kept I.unicode out := by
  constructor
  · intro ⟨out', text, hout, _, hsecret, htext, hsize⟩
    rw [hbound] at hout
    cases hout
    obtain ⟨hforeign, hroom⟩ := (stored_text_iff hsome).mp ⟨text, htext, hsize⟩
    exact ⟨fun item hitem => ⟨hforeign item hitem, hsecret item hitem⟩, hroom⟩
  · intro ⟨hclean, hroom⟩
    obtain ⟨text, htext, hsize⟩ := (stored_text_iff hsome).mpr
      ⟨fun item hitem => (hclean item hitem).1, hroom⟩
    exact ⟨out, text, hbound, hlength, fun item hitem => (hclean item hitem).2, htext, hsize⟩

theorem redacts_get (h : Redacts I items redacted) (k : Nat) :
    (items[k]? = none ∧ redacted[k]? = none) ∨
      ∃ item result, items[k]? = some item ∧ redacted[k]? = some result ∧
        redact I.unicode I.redactDepth item = .ok result := by
  induction h generalizing k with
  | nil => exact .inl ⟨rfl, rfl⟩
  | cons hfirst _ ih =>
    cases k with
    | zero => exact .inr ⟨_, _, rfl, rfl, hfirst⟩
    | succ k => exact ih k

theorem take_first {k : Nat} (hk : k ≤ maxEvidenceItems) :
    (items.take maxEvidenceItems).take k = items.take k := by
  rw [take_take, Nat.min_eq_left hk]

theorem abandoned_iff (h : Redacts I items redacted) :
    Abandoned I items ↔ takeWithin 0 (redacted.take maxEvidenceItems) = none := by
  rw [take_within_eq_none_iff (Nat.zero_le _)]
  constructor
  · intro ⟨k, item, hk, hitem, hfits, hnone⟩
    rcases redacts_get h k with ⟨hmissing, _⟩ | ⟨item', result, hitem', hresult, hredact⟩
    · rw [hmissing] at hitem
      cases hitem
    · rw [hitem'] at hitem
      cases hitem
      refine ⟨k, result, by rw [List.getElem?_take_of_lt hk, hresult], ?_, ?_⟩
      · rw [take_first (Nat.le_of_lt hk)]
        exact (fits_iff (List.forall₂_take k h)).mp hfits
      · rw [← blob_eq hredact, hnone]
  · intro ⟨k, result, hresult, hfits, hnone⟩
    have hk : k < maxEvidenceItems := by
      obtain ⟨hlt, _⟩ := List.getElem?_eq_some_iff.mp hresult
      rw [length_take] at hlt
      omega
    rw [List.getElem?_take_of_lt hk] at hresult
    rw [take_first (Nat.le_of_lt hk)] at hfits
    rcases redacts_get h k with ⟨_, hmissing⟩ | ⟨item, result', hitem, hresult', hredact⟩
    · rw [hmissing] at hresult
      cases hresult
    · rw [hresult'] at hresult
      cases hresult
      exact ⟨k, item, hk, hitem, (fits_iff (List.forall₂_take k h)).mpr hfits,
        by rw [blob_eq hredact, hnone]⟩

/-- The items that the loop keeps can be stored exactly when all initial segments that fit can. -/
theorem kept_out_iff {out : List Value} (h : Redacts I items redacted)
    (hout : takeWithin 0 (redacted.take maxEvidenceItems) = some out) :
    Kept I.unicode out ↔
      ∀ k ≤ maxEvidenceItems, Fits I (items.take k) → Storable I (items.take k) := by
  obtain ⟨k, rfl, hfits, hmax⟩ := take_within_some (Nat.zero_le _) hout
  constructor
  · intro hkept j hj hjfits
    rw [storable_iff (List.forall₂_take j h), ← take_first hj]
    rw [fits_iff (List.forall₂_take j h), ← take_first hj] at hjfits
    -- a segment longer than the list is the whole list
    rcases Nat.le_total j (redacted.take maxEvidenceItems).length with hlength | hlength
    · exact kept_take (hmax j hlength hjfits) hkept
    · rw [take_of_length_le hlength] at hjfits ⊢
      have hk := hmax _ (Nat.le_refl _) (by rwa [take_length])
      rwa [take_of_length_le hk] at hkept
  · intro hall
    rw [take_take] at hfits ⊢
    have hfirst := hall (min k maxEvidenceItems) (Nat.min_le_right _ _)
      ((fits_iff (List.forall₂_take _ h)).mpr hfits)
    exact (storable_iff (List.forall₂_take _ h)).mp hfirst

theorem kept_nil (U : Text.Unicode) : Kept U [] :=
  ⟨fun item hitem => (by cases hitem), by simp⟩

/-- Evidence is bounded as it should be exactly when redaction can follow all its items and, unless
a key that cannot be written makes it empty, every initial segment of at most ten items that fits
can be stored. -/
theorem evidence_law_iff (I : Interpreter) (evidence : Value) :
    EvidenceLaw I evidence ↔ Bounded I (itemsOf evidence) := by
  cases hitems : evidenceItems evidence with
  | none =>
    have hbound : boundEvidence I evidence = .ok [] := by
      rw [boundEvidence, hitems]
    have hempty : itemsOf evidence = [] := by
      rw [itemsOf, hitems]
      rfl
    rw [kept_law_iff hbound (by simp) (by simp), hempty]
    refine ⟨fun _ => ⟨by simp, .inr fun k _ _ => ?_⟩, fun _ => kept_nil _⟩
    rw [take_nil]
    exact (storable_iff .nil).mpr (kept_nil _)
  | some items =>
    have hitemsOf : itemsOf evidence = items := by
      rw [itemsOf, hitems]
      rfl
    rw [hitemsOf]
    by_cases hwalks : ∀ item ∈ items, Walks I.unicode I.redactDepth item
    · obtain ⟨redacted, hredacted⟩ := mapM_total fun item hitem =>
        redact_ok_iff.mpr (hwalks item hitem)
      have hall : Redacts I items redacted := mapM_ok hredacted
      have hbound : boundEvidence I evidence =
          .ok ((takeWithin 0 (redacted.take maxEvidenceItems)).getD []) := by
        rw [boundEvidence, hitems]
        dsimp only
        rw [hredacted]
        rfl
      cases hout : takeWithin 0 (redacted.take maxEvidenceItems) with
      | none =>
        rw [hout, getD_none] at hbound
        rw [kept_law_iff hbound (by simp) (by simp)]
        exact ⟨fun _ => ⟨hwalks, .inl ((abandoned_iff hall).mpr hout)⟩, fun _ => kept_nil _⟩
      | some out =>
        rw [hout, getD_some] at hbound
        obtain ⟨k, hk, hfits, _⟩ := take_within_some (Nat.zero_le _) hout
        have hlength : out.length ≤ maxEvidenceItems := by
          simp only [hk, length_take]
          omega
        rw [kept_law_iff hbound hlength hfits.1, kept_out_iff hall hout]
        refine ⟨fun h => ⟨hwalks, .inr h⟩, fun h => h.2.resolve_left fun habandoned => ?_⟩
        rw [abandoned_iff hall, hout] at habandoned
        cases habandoned
    · refine ⟨fun ⟨out, _, hout, _⟩ => absurd ?_ hwalks, fun h => absurd h.1 hwalks⟩
      rw [boundEvidence, hitems] at hout
      obtain ⟨redacted, hredacted, _⟩ := bind_eq_ok.mp hout
      intro item hitem
      obtain ⟨result, _, hresult⟩ := result_of_mapM hredacted item hitem
      exact redact_ok_iff.mp ⟨result, hresult⟩

end Conditions

/-- An interpreter that maps the case of ASCII letters. -/
def asciiInterpreter : Interpreter where
  unicode := Text.Unicode.ascii
  redactDepth := 490

/-- One item with a time, as an API client returns it. -/
def timedEvidence : Value :=
  .list [.dict [(.str "observed", .other "2026-08-13 00:00:00+00:00" false none)]]

/-- Evidence with a time is kept as it is, and cannot be stored. -/
theorem timed_evidence_unstorable : boundEvidence asciiInterpreter timedEvidence =
        .ok [.dict [(.str "observed", .other "2026-08-13 00:00:00+00:00" false none)]] ∧
      ¬ EvidenceLaw asciiInterpreter timedEvidence := by
  have hbound : boundEvidence asciiInterpreter timedEvidence =
      .ok [.dict [(.str "observed", .other "2026-08-13 00:00:00+00:00" false none)]] := rfl
  refine ⟨hbound, fun ⟨out, text, hout, _, _, htext, _⟩ => ?_⟩
  rw [hbound] at hout
  cases hout
  cases htext

end AwsOps.NetworkPath.Evidence
