import AwsOps.Chat.Evidence

/-!
# Projecting a quality again

A projected quality is settled: each of its properties keeps its rule, and each nested value is one
that its projection leaves as it is. So projecting a settled quality marks nothing, and gives its
properties again, in the order in which the projection visits them.
-/

namespace AwsOps.Chat

open Option Js Prod

open Js (Fields get set keys sorted)

/-! ## Copied properties -/

section Projected

variable {rules : Rules} {source before after : Fields}

def names (rules : Rules) : List String :=
  rules.map fst

theorem keys_projected {key : String} (h : key ∈ keys (projected rules source)) :
    key ∈ names rules := by
  simp only [keys, projected, List.mem_map, List.mem_filterMap, map_eq_some_iff] at h
  obtain ⟨_, ⟨rule, hrule, value, -, rfl⟩, rfl⟩ := h
  exact List.mem_map_of_mem hrule

theorem get_projected (h : (names rules).Nodup) {rule : String × (Js → Bool)}
    (hrule : rule ∈ rules) :
    get (projected rules source) rule.1 = (get source rule.1).filter rule.2 := by
  induction rules with
  | nil => cases hrule
  | cons first rest ih =>
    rw [names, List.map_cons, List.nodup_cons] at h
    have hcons : projected (first :: rest) source =
        (((get source first.1).filter first.2).map fun value => (first.1, value)).toList ++
          projected rest source := by
      unfold projected
      rw [List.filterMap_cons]
      cases (get source first.1).filter first.2 <;> rfl
    rw [hcons]
    rcases List.mem_cons.mp hrule with rfl | hrest
    · have hnone : rule.1 ∉ keys (projected rest source) := fun hkey =>
        h.1 (keys_projected hkey)
      rw [get_append_left hnone]
      cases (get source rule.1).filter rule.2 with
      | none => rfl
      | some value =>
        simp only [map_some, toList_some]
        rw [get_cons, if_pos rfl]
    · have hne : rule.1 ≠ first.1 := fun heq => h.1 (heq ▸ List.mem_map_of_mem hrest)
      rw [get_append, ih h.2 hrest]
      cases (get source first.1).filter first.2 with
      | none => exact List.not_mem_nil
      | some value =>
        intro hkey
        exact hne (List.mem_singleton.mp hkey)

/-- A value made of copied properties, with other properties before and behind them. -/
structure Whole (rules : Rules) (others : List String) (source before after : Fields) : Prop where
  nodup : (names rules).Nodup
  before_others : ∀ key ∈ keys before, key ∈ others
  after_others : ∀ key ∈ keys after, key ∈ others
  disjoint : ∀ key ∈ others, key ∉ names rules

variable {others : List String}

theorem Whole.get (h : Whole rules others source before after) {rule : String × (Js → Bool)}
    (hrule : rule ∈ rules) :
    Js.get (before ++ projected rules source ++ after) rule.1 =
      (Js.get source rule.1).filter rule.2 := by
  have hname : rule.1 ∈ names rules := List.mem_map_of_mem hrule
  rw [get_append_left fun hkey => h.disjoint _ (h.after_others _ hkey) hname,
    get_append fun hkey => h.disjoint _ (h.before_others _ hkey) hname,
    get_projected h.nodup hrule]

theorem Whole.projected (h : Whole rules others source before after) :
    projected rules (before ++ projected rules source ++ after) = projected rules source := by
  refine List.filterMap_congr fun rule hrule => ?_
  rw [h.get hrule, filter_filter]
  simp

/-- Nothing is broken or foreign in such a value. -/
theorem Whole.flagged (h : Whole rules others source before after) (q : Fields) :
    flagged rules others (before ++ Chat.projected rules source ++ after) q = q := by
  have hforeign : hasForeign rules others (before ++ Chat.projected rules source ++ after) =
      false := by
    refine List.any_eq_false.mpr fun field hfield => ?_
    have hkey : field.1 ∈ others ∨ field.1 ∈ names rules := by
      rcases List.mem_append.mp hfield with hfield | hfield
      · rcases List.mem_append.mp hfield with hfield | hfield
        · exact .inl (h.before_others _ (List.mem_map_of_mem hfield))
        · exact .inr (keys_projected (List.mem_map_of_mem hfield))
      · exact .inl (h.after_others _ (List.mem_map_of_mem hfield))
    rcases hkey with hkey | hkey
    · simp [hkey]
    · have hcontains : (rules.map fst).contains field.1 = true :=
        List.contains_iff_mem.mpr hkey
      rw [hcontains]
      simp
  have hbroken : hasBroken rules (before ++ Chat.projected rules source ++ after) = false := by
    refine List.any_eq_false.mpr fun rule hrule => ?_
    rw [h.get hrule]
    cases Js.get source rule.1 with
    | none => simp
    | some value =>
      cases hvalid : rule.2 value <;> simp [Option.filter, hvalid]
  rw [Chat.flagged, hforeign, hbroken]
  rfl

end Projected

/-! ## Nested values -/

theorem statusOf_valid {texts : List String} (h : texts.contains "unknown" = true)
    (source : Fields) :
    ∃ s, texts.contains s = true ∧ statusOf texts source = ("status", .str s) := by
  unfold statusOf
  split
  · rename_i s _
    by_cases hs : texts.contains s = true
    · exact ⟨s, hs, by rw [if_pos hs]⟩
    · exact ⟨"unknown", h, by rw [if_neg hs]⟩
  · exact ⟨"unknown", h, rfl⟩

section Status

variable {texts : List String} (h : texts.contains "unknown" = true) (source rest : Fields)
include h

theorem statusOf_cons : statusOf texts (statusOf texts source :: rest) = statusOf texts source := by
  obtain ⟨s, hs, heq⟩ := statusOf_valid h source
  rw [heq, statusOf, get_cons, if_pos rfl]
  simp only [hs, if_true]

theorem badStatus_cons : badStatus texts (statusOf texts source :: rest) = false := by
  obtain ⟨s, hs, heq⟩ := statusOf_valid h source
  rw [heq, badStatus, get_cons, if_pos rfl]
  show (!texts.contains s) = false
  rw [hs]
  rfl

omit h in
theorem keys_statusOf : keys [statusOf texts source] = ["status"] := by
  unfold statusOf
  split <;> rfl

end Status

@[simp] theorem mark_false (key : String) (q : Fields) : mark key false q = q :=
  rfl

/-- A nested value that its projection leaves as it is, and that marks nothing. -/
def Kept (key : String) (project : Fields → Fields → Fields) (w : Fields) : Prop :=
  ∀ q, project w q = set q key (.obj w)

theorem kept_routeSelection (value : Fields) : Kept "routeSelection" routeSelection
      (statusOf ["selected", "unknown"] value :: projected routeRules value) := by
  intro q
  have hstatus : (["selected", "unknown"] : List String).contains "unknown" = true := by decide
  have whole : Whole routeRules ["status"] value [statusOf ["selected", "unknown"] value] [] :=
    { nodup := by decide
      before_others := by simp [keys_statusOf]
      after_others := by simp [keys]
      disjoint := by decide }
  have hprojected := whole.projected
  have hflagged := whole.flagged
  rw [List.append_nil, List.singleton_append] at hprojected hflagged
  rw [routeSelection, hflagged, badStatus_cons hstatus, statusOf_cons hstatus, hprojected,
    mark_false]

theorem kept_truncation (value : Fields) :
    Kept "truncation" truncation (projected truncationRules value) := by
  intro q
  have whole : Whole truncationRules [] value [] [] :=
    { nodup := by decide
      before_others := by simp [keys]
      after_others := by simp [keys]
      disjoint := by decide }
  have hprojected := whole.projected
  have hflagged := whole.flagged
  rw [List.append_nil, List.nil_append] at hprojected hflagged
  rw [truncation, hflagged, hprojected]

/-! ## Sources -/

/-- A record of a source that its projection leaves as it is, and that marks nothing. -/
def KeptSource (record : Js) : Prop :=
  ∀ acc, projectSource acc record = (acc.1, acc.2 ++ [record])

theorem keptReasons_keptReasons (items : List Js) :
    keptReasons (keptReasons items) = keptReasons items := by
  have hlength : (keptReasons items).length ≤ 6 :=
    (List.length_filter_le _ _).trans (List.length_take_le _ _)
  rw [keptReasons, List.take_of_length_le hlength, keptReasons, List.filter_filter]
  simp

theorem keys_sourceReasons (source : Fields) {key : String}
    (h : key ∈ keys (sourceReasons source)) : key = "reasons" := by
  unfold sourceReasons at h
  split at h
  · exact List.mem_singleton.mp h
  · cases h

theorem flagReasons_of_kept {source w : Fields}
    (h : get w "reasons" = get (sourceReasons source) "reasons") (q : Fields) :
    flagReasons w q = q ∧ sourceReasons w = sourceReasons source := by
  unfold flagReasons
  unfold sourceReasons at h ⊢
  split at h
  · rw [get_cons, if_pos rfl] at h
    rw [h]
    simp only [keptReasons_keptReasons]
    simp
  · rw [get_nil] at h
    rw [h]
    exact ⟨rfl, rfl⟩

theorem keptSource_record (source : Fields) :
    KeptSource (.obj (statusOf statuses source :: projected sourceRules source ++
      sourceReasons source)) := by
  intro acc
  have hstatus : statuses.contains "unknown" = true := by decide
  have whole : Whole sourceRules ["status", "reasons"] source [statusOf statuses source]
      (sourceReasons source) :=
    { nodup := by decide
      before_others := by simp [keys_statusOf]
      after_others := by
        intro key hkey
        rw [keys_sourceReasons source hkey]
        decide
      disjoint := by decide }
  have hreasons : get (statusOf statuses source :: projected sourceRules source ++
      sourceReasons source) "reasons" = get (sourceReasons source) "reasons" := by
    refine get_append fun hkey => ?_
    rw [← List.singleton_append, keys, List.map_append, List.mem_append] at hkey
    rcases hkey with hkey | hkey
    · rw [← keys, keys_statusOf] at hkey
      revert hkey
      decide
    · have hname : "reasons" ∈ names sourceRules := keys_projected hkey
      revert hname
      decide
  have hprojected := whole.projected
  have hflagged := whole.flagged
  rw [List.singleton_append] at hprojected hflagged
  obtain ⟨hflag, hkept⟩ := flagReasons_of_kept hreasons acc.1
  rw [List.cons_append] at hprojected hflagged hflag hkept ⊢
  rw [projectSource, badStatus_cons hstatus, mark_false, hflagged, hflag, hkept, hprojected,
    statusOf_cons hstatus, List.cons_append]

theorem keptSource_of_mem_fold {items : List Js} (acc : Fields × List Js)
    (h : ∀ record ∈ acc.2, KeptSource record) :
    ∀ record ∈ (items.foldl projectSource acc).2, KeptSource record := by
  induction items generalizing acc with
  | nil => exact h
  | cons raw rest ih =>
    rw [List.foldl_cons]
    refine ih _ ?_
    unfold projectSource
    split
    · intro record hrecord
      rcases List.mem_append.mp hrecord with hrecord | hrecord
      · exact h record hrecord
      · rw [List.mem_singleton.mp hrecord]
        exact keptSource_record _
    · exact h

theorem length_fold_le (items : List Js) (acc : Fields × List Js) :
    (items.foldl projectSource acc).2.length ≤ acc.2.length + items.length := by
  induction items generalizing acc with
  | nil => exact Nat.le_refl _
  | cons raw rest ih =>
    have hone : (projectSource acc raw).2.length ≤ acc.2.length + 1 := by
      unfold projectSource
      split
      · simp
      · exact Nat.le_succ _
    have hrest := ih (projectSource acc raw)
    rw [List.foldl_cons, List.length_cons]
    omega

theorem fold_of_kept {records : List Js} (h : ∀ record ∈ records, KeptSource record)
    (acc : Fields × List Js) : records.foldl projectSource acc = (acc.1, acc.2 ++ records) := by
  induction records generalizing acc with
  | nil => rw [List.append_nil]; rfl
  | cons record rest ih =>
    rw [List.foldl_cons, h record List.mem_cons_self acc,
      ih (fun r hr => h r (List.mem_cons_of_mem _ hr)), List.append_assoc]
    rfl

/-- The list of sources that is given: nothing, or at most eight records that are kept. -/
def KeptList (name : String) (list : Fields) : Prop :=
  list = [] ∨
    ∃ records, list = [(name, .arr records)] ∧ records.length ≤ 8 ∧
      ∀ record ∈ records, KeptSource record

theorem keptList_projectSources (name : String) (value q : Fields) :
    KeptList name (projectSources name value q).2 := by
  unfold projectSources
  split
  · exact .inl rfl
  · rename_i items _
    have hlength := length_fold_le (items.take 8) (mark "truncated" (items.length > 8) q, [])
    refine .inr ⟨_, rfl, ?_, keptSource_of_mem_fold _ fun _ h => absurd h List.not_mem_nil⟩
    rw [List.length_nil, List.length_take] at hlength
    omega
  · exact .inr ⟨[], rfl, Nat.zero_le _, fun _ h => absurd h List.not_mem_nil⟩

theorem projectSources_of_kept {name : String} {list w : Fields} (h : KeptList name list)
    (hget : get w name = get list name) (q : Fields) : projectSources name w q = (q, list) := by
  rcases h with rfl | ⟨records, rfl, hlength, hkept⟩
  · rw [projectSources, hget, get_nil]
  · have hfew : decide (records.length > 8) = false := decide_eq_false (Nat.not_lt.mpr hlength)
    rw [projectSources, hget, get_cons, if_pos rfl]
    simp [List.take_of_length_le hlength, fold_of_kept hkept, hfew, mark_false]

theorem KeptList.keys {name key : String} {list : Fields} (h : KeptList name list)
    (hkey : key ∈ Js.keys list) : key = name := by
  rcases h with rfl | ⟨records, rfl, -, -⟩
  · cases hkey
  · exact List.mem_singleton.mp hkey

theorem kept_collection (value : Fields) {sources published : Fields}
    (hsources : KeptList "sources" sources) (hpublished : KeptList "publishedSources" published) :
    Kept "collection" collection
      (statusOf statuses value :: projected collectionRules value ++ sources ++ published) := by
  intro q
  have hstatus : statuses.contains "unknown" = true := by decide
  have whole : Whole collectionRules ["status", "sources", "publishedSources"] value
      [statusOf statuses value] (sources ++ published) :=
    { nodup := by decide
      before_others := by simp [keys_statusOf]
      after_others := by
        intro key hkey
        rw [keys, List.map_append, List.mem_append] at hkey
        rcases hkey with hkey | hkey
        · rw [hsources.keys hkey]
          decide
        · rw [hpublished.keys hkey]
          decide
      disjoint := by decide }
  have hfirst : ∀ key ∈ ["sources", "publishedSources"],
      key ∉ keys ([statusOf statuses value] ++ projected collectionRules value) := by
    intro key hname hkey
    rw [keys, List.map_append, List.mem_append] at hkey
    rcases hkey with hkey | hkey
    · rw [← keys, keys_statusOf, List.mem_singleton] at hkey
      rw [hkey] at hname
      revert hname
      decide
    · refine whole.disjoint key ?_ (keys_projected hkey)
      exact List.mem_cons_of_mem _ hname
  have hgetSources : get ([statusOf statuses value] ++ projected collectionRules value ++
      (sources ++ published)) "sources" = get sources "sources" := by
    rw [get_append (hfirst _ (by decide))]
    refine get_append_left fun hkey => ?_
    exact absurd (hpublished.keys hkey) (by decide)
  have hgetPublished : get ([statusOf statuses value] ++ projected collectionRules value ++
      (sources ++ published)) "publishedSources" = get published "publishedSources" := by
    rw [get_append (hfirst _ (by decide))]
    refine get_append fun hkey => ?_
    exact absurd (hsources.keys hkey) (by decide)
  have hprojected := whole.projected
  have hflagged := whole.flagged
  have hone := projectSources_of_kept hsources hgetSources
  have htwo := projectSources_of_kept hpublished hgetPublished
  rw [List.append_assoc]
  rw [List.append_assoc, List.singleton_append] at hprojected hflagged hone htwo
  rw [collection, List.cons_append, badStatus_cons hstatus, mark_false, hflagged, hone]
  simp [htwo, hprojected, statusOf_cons hstatus]

/-! ## Settled qualities -/

def nestedProjections : List (String × (Fields → Fields → Fields)) :=
  [("routeSelection", routeSelection), ("truncation", truncation), ("collection", collection)]

/-- The names of the properties of a quality, in the order in which they are visited. -/
def qualityOrder : List String :=
  names ownRules ++ nestedProjections.map fst

/-- A property of a quality that its projection leaves as it is. -/
inductive KeptField : String × Js → Prop
  | own {rule : String × (Js → Bool)} {value : Js} (hrule : rule ∈ ownRules)
      (hvalid : rule.2 value = true) : KeptField (rule.1, value)
  | nested {entry : String × (Fields → Fields → Fields)} {w : Fields}
      (hentry : entry ∈ nestedProjections) (hkept : Kept entry.1 entry.2 w) :
      KeptField (entry.1, .obj w)

/-- A quality whose properties are left as they are. -/
structure Settled (q : Fields) : Prop where
  nodup : (keys q).Nodup
  kept : ∀ field ∈ q, KeptField field

namespace Settled

variable {q : Fields}

theorem nil : Settled [] :=
  ⟨List.nodup_nil, fun _ h => absurd h List.not_mem_nil⟩

theorem set (h : Settled q) {key : String} {value : Js} (hfield : KeptField (key, value)) :
    Settled (set q key value) :=
  ⟨nodup_keys_set h.nodup key value, forall_mem_set h.kept hfield⟩

theorem mark (h : Settled q) {key : String} (hkey : (key, isBoolean) ∈ ownRules) (found : Bool) :
    Settled (mark key found q) := by
  cases found with
  | false => exact h
  | true =>
    exact h.set (@KeptField.own (key, isBoolean) (.bool true) hkey rfl)

theorem invalid (h : Settled q) (found : Bool) : Settled (Chat.mark "invalid" found q) :=
  h.mark (by unfold ownRules; simp) found

theorem unsupported (h : Settled q) (found : Bool) : Settled (Chat.mark "unsupported" found q) :=
  h.mark (by unfold ownRules; simp) found

theorem truncated (h : Settled q) (found : Bool) : Settled (Chat.mark "truncated" found q) :=
  h.mark (by unfold ownRules; simp) found

theorem flagged (h : Settled q) (rules : Rules) (others : List String) (source : Fields) :
    Settled (flagged rules others source q) :=
  (h.unsupported _).invalid _

theorem ownFields (h : Settled q) (source : Fields) : Settled (ownFields source q) := by
  have hfold : ∀ (rules : Rules) (_ : ∀ rule ∈ rules, rule ∈ ownRules) (q : Fields)
      (_ : Settled q), Settled (rules.foldl (ownField source) q) := by
    intro rules
    induction rules with
    | nil =>
      intro _ q h
      exact h
    | cons rule rest ih =>
      intro hrules q h
      rw [List.foldl_cons]
      refine ih (fun r hr => hrules r (List.mem_cons_of_mem _ hr)) _ ?_
      unfold ownField
      split
      · exact h
      · split
        · rename_i hvalid
          split
          · exact h
          · exact h.set (.own (hrules rule List.mem_cons_self) hvalid)
        · exact h.invalid true
  exact hfold ownRules (fun _ h => h) _ (h.unsupported _)

theorem routeSelection (h : Settled q) (value : Fields) : Settled (routeSelection value q) := by
  have hset := h.set (@KeptField.nested ("routeSelection", Chat.routeSelection) _
    (by unfold nestedProjections; simp) (kept_routeSelection value))
  exact (hset.invalid _).flagged _ _ _

theorem truncation (h : Settled q) (value : Fields) : Settled (truncation value q) := by
  have hset := h.set (@KeptField.nested ("truncation", Chat.truncation) _
    (by unfold nestedProjections; simp) (kept_truncation value))
  exact hset.flagged _ _ _

theorem projectSource {acc : Fields × List Js} (h : Settled acc.1) (raw : Js) :
    Settled (projectSource acc raw).1 := by
  unfold Chat.projectSource
  split
  · rename_i source
    have hflagged := (h.invalid (badStatus statuses source)).flagged sourceRules
      ["status", "reasons"] source
    show Settled (flagReasons source _)
    unfold flagReasons
    split
    · exact hflagged
    · exact hflagged.truncated _
    · exact hflagged.invalid _
  · exact h.invalid true

theorem projectSources (h : Settled q) (name : String) (value : Fields) :
    Settled (projectSources name value q).1 := by
  have hfold : ∀ (items : List Js) (acc : Fields × List Js) (_ : Settled acc.1),
      Settled (items.foldl Chat.projectSource acc).1 := by
    intro items
    induction items with
    | nil =>
      intro acc h
      exact h
    | cons raw rest ih =>
      intro acc h
      exact ih _ (h.projectSource raw)
  unfold Chat.projectSources
  split
  · exact h
  · exact hfold _ _ (h.truncated _)
  · exact h.invalid true

theorem collection (h : Settled q) (value : Fields) : Settled (collection value q) := by
  have hflagged := (h.invalid (badStatus statuses value)).flagged collectionRules
    ["status", "sources", "publishedSources"] value
  have hsources := hflagged.projectSources "sources" value
  have hpublished := hsources.projectSources "publishedSources" value
  exact hpublished.set (@KeptField.nested ("collection", Chat.collection) _
    (by unfold nestedProjections; simp)
    (kept_collection value (keptList_projectSources _ _ _) (keptList_projectSources _ _ _)))

theorem nested (h : Settled q) (key : String) {project : Fields → Fields → Fields}
    (hproject : ∀ value q, Settled q → Settled (project value q)) (source : Fields) :
    Settled (nested key project source q) := by
  unfold Chat.nested
  split
  · exact h
  · exact hproject _ q h
  · exact h.invalid true

end Settled

theorem settled_quality (value : Js) : Settled (quality value) := by
  suffices hchain : ∀ start, Settled start → Settled (nested "collection" collection
      (obj (some value)) (nested "truncation" truncation (obj (some value))
        (nested "routeSelection" routeSelection (obj (some value))
          (ownFields (obj (some value)) start)))) by
    refine hchain _ ?_
    split
    · exact .nil
    · exact Settled.nil.invalid true
  intro start hstart
  have hown := hstart.ownFields (obj (some value))
  have hroute := hown.nested "routeSelection" (fun value _ h => h.routeSelection value)
    (obj (some value))
  have htruncation := hroute.nested "truncation" (fun value _ h => h.truncation value)
    (obj (some value))
  exact htruncation.nested "collection" (fun value _ h => h.collection value) (obj (some value))

/-! ## Projecting a settled quality -/

namespace Settled

variable {q : Fields}

theorem mem_qualityOrder (h : Settled q) {key : String} (hkey : key ∈ keys q) :
    key ∈ qualityOrder := by
  obtain ⟨field, hfield, rfl⟩ := List.mem_map.mp hkey
  cases h.kept field hfield with
  | own hrule _ => exact List.mem_append_left _ (List.mem_map_of_mem hrule)
  | nested hentry _ => exact List.mem_append_right _ (List.mem_map_of_mem hentry)

theorem own_valid (h : Settled q) {rule : String × (Js → Bool)} (hrule : rule ∈ ownRules)
    {value : Js} (hget : get q rule.1 = some value) : rule.2 value = true := by
  have hkept := h.kept _ (mem_of_get hget)
  generalize hfield : (rule.1, value) = field at hkept
  cases hkept with
  | own hrule' hvalid =>
    obtain ⟨hkey, rfl⟩ := Prod.mk.inj hfield
    have hnodup : (ownRules.map fst).Nodup := by decide
    rw [List.inj_on_of_nodup_map hnodup hrule hrule' hkey]
    exact hvalid
  | nested hentry hkept =>
    obtain ⟨hkey, rfl⟩ := Prod.mk.inj hfield
    have hdisjoint : ∀ name ∈ ownRules.map fst, name ∉ nestedProjections.map fst := by decide
    have hname := hdisjoint _ (List.mem_map_of_mem hrule)
    rw [hkey] at hname
    exact absurd (List.mem_map_of_mem hentry) hname

theorem nested_kept (h : Settled q) {entry : String × (Fields → Fields → Fields)}
    (hentry : entry ∈ nestedProjections) {value : Js} (hget : get q entry.1 = some value) :
    ∃ w, value = .obj w ∧ Kept entry.1 entry.2 w := by
  have hkept := h.kept _ (mem_of_get hget)
  generalize hfield : (entry.1, value) = field at hkept
  cases hkept with
  | own hrule hvalid =>
    obtain ⟨hkey, rfl⟩ := Prod.mk.inj hfield
    have hdisjoint : ∀ name ∈ ownRules.map fst, name ∉ nestedProjections.map fst := by decide
    have hname := hdisjoint _ (List.mem_map_of_mem hrule)
    rw [← hkey] at hname
    exact absurd (List.mem_map_of_mem hentry) hname
  | nested hentry' hkept =>
    obtain ⟨hkey, rfl⟩ := Prod.mk.inj hfield
    have hnodup : (nestedProjections.map fst).Nodup := by decide
    rw [List.inj_on_of_nodup_map hnodup hentry hentry' hkey]
    exact ⟨_, rfl, hkept⟩

/-- Projecting own properties that keep their rules appends them, in the order of the rules. -/
theorem fold_own {rules : Rules} (hrules : ∀ rule ∈ rules, rule ∈ ownRules)
    (hnodup : (names rules).Nodup) (h : Settled q) (acc : Fields)
    (hacc : ∀ key ∈ names rules, key ∉ keys acc) :
    rules.foldl (ownField q) acc = acc ++ sorted (names rules) q := by
  induction rules generalizing acc with
  | nil => rw [List.foldl_nil, names, List.map_nil, sorted, List.filterMap_nil, List.append_nil]
  | cons rule rest ih =>
    rw [names, List.map_cons, List.nodup_cons] at hnodup
    have hrest := ih (fun r hr => hrules r (List.mem_cons_of_mem _ hr)) hnodup.2
    have hsorted : sorted (names (rule :: rest)) q =
        ((get q rule.1).map fun value => (rule.1, value)).toList ++ sorted (names rest) q := by
      rw [names, List.map_cons, sorted, List.filterMap_cons]
      cases get q rule.1 <;> rfl
    rw [List.foldl_cons, hsorted]
    cases hget : get q rule.1 with
    | none =>
      rw [ownField, hget]
      exact hrest acc fun key hkey => hacc key (List.mem_cons_of_mem _ hkey)
    | some value =>
      have hnew : rule.1 ∉ keys acc := hacc _ List.mem_cons_self
      have hvalid := h.own_valid (hrules rule List.mem_cons_self) hget
      -- nothing was found yet, so a false marker is copied too
      have hstep : ownField q acc rule = acc ++ [(rule.1, value)] := by
        rw [ownField, hget]
        simp only [hvalid, if_true, Js.get_eq_none_iff.mpr hnew, isTrue, Bool.and_false,
          Bool.false_eq_true, if_false]
        exact set_of_not_mem hnew value
      rw [hstep, hrest]
      · rw [List.append_assoc]
        rfl
      · intro key hkey hmem
        rw [keys, List.map_append, List.mem_append] at hmem
        rcases hmem with hmem | hmem
        · exact hacc key (List.mem_cons_of_mem _ hkey) hmem
        · rw [List.mem_singleton.mp hmem] at hkey
          exact hnodup.1 hkey

theorem nested_append (h : Settled q) (entry : String × (Fields → Fields → Fields))
    (hentry : entry ∈ nestedProjections) {acc : Fields} (hacc : entry.1 ∉ keys acc) :
    Chat.nested entry.1 entry.2 q acc = acc ++ sorted [entry.1] q := by
  cases hget : get q entry.1 with
  | none => rw [Chat.nested, hget, sorted, List.filterMap_cons, hget, map_none,
      List.filterMap_nil, List.append_nil]
  | some value =>
    obtain ⟨w, rfl, hkept⟩ := h.nested_kept hentry hget
    rw [Chat.nested, hget, sorted, List.filterMap_cons, hget, map_some]
    show entry.2 w acc = _
    rw [hkept acc, set_of_not_mem hacc]
    rfl

theorem quality_obj (h : Settled q) : quality (.obj q) = sorted qualityOrder q := by
  have hforeign : hasForeign ownRules nestedKeys q = false := by
    refine List.any_eq_false.mpr fun field hfield => ?_
    have horder := h.mem_qualityOrder (List.mem_map_of_mem hfield)
    rcases List.mem_append.mp horder with hname | hname
    · have hcontains : (ownRules.map fst).contains field.1 = true :=
        List.contains_iff_mem.mpr hname
      rw [hcontains]
      simp
    · have hcontains : nestedKeys.contains field.1 = true := List.contains_iff_mem.mpr hname
      rw [hcontains]
      simp
  have hkeys : ∀ (order : List String) (key : String), key ∉ order →
      key ∉ keys (sorted order q) := by
    intro order key hkey hmem
    obtain ⟨field, hfield, rfl⟩ := List.mem_map.mp hmem
    obtain ⟨name, hname, hget⟩ := List.mem_filterMap.mp hfield
    obtain ⟨value, -, rfl⟩ := map_eq_some_iff.mp hget
    exact hkey hname
  have hsorted : ∀ a b : List String, sorted (a ++ b) q = sorted a q ++ sorted b q := by
    intro a b
    exact List.filterMap_append
  have hown : Chat.ownFields q [] = sorted (names ownRules) q := by
    rw [Chat.ownFields, hforeign, mark_false,
      fold_own (fun _ hr => hr) (by decide) h [] (by simp [keys]), List.nil_append]
  have hroute : Chat.nested "routeSelection" Chat.routeSelection q (sorted (names ownRules) q) =
      sorted (names ownRules ++ ["routeSelection"]) q := by
    rw [hsorted]
    exact h.nested_append ("routeSelection", Chat.routeSelection)
      (by unfold nestedProjections; simp) (hkeys _ _ (by decide))
  have htruncation : Chat.nested "truncation" Chat.truncation q
      (sorted (names ownRules ++ ["routeSelection"]) q) =
        sorted (names ownRules ++ ["routeSelection"] ++ ["truncation"]) q := by
    rw [hsorted (names ownRules ++ ["routeSelection"])]
    exact h.nested_append ("truncation", Chat.truncation)
      (by unfold nestedProjections; simp) (hkeys _ _ (by decide))
  have hcollection : Chat.nested "collection" Chat.collection q
      (sorted (names ownRules ++ ["routeSelection"] ++ ["truncation"]) q) =
        sorted qualityOrder q := by
    have horder : qualityOrder =
        names ownRules ++ ["routeSelection"] ++ ["truncation"] ++ ["collection"] := rfl
    rw [horder, hsorted (names ownRules ++ ["routeSelection"] ++ ["truncation"])]
    exact h.nested_append ("collection", Chat.collection)
      (by unfold nestedProjections; simp) (hkeys _ _ (by decide))
  show Chat.nested "collection" Chat.collection q (Chat.nested "truncation" Chat.truncation q
    (Chat.nested "routeSelection" Chat.routeSelection q (Chat.ownFields q []))) = _
  rw [hown, hroute, htruncation, hcollection]

theorem quality_perm (h : Settled q) : (quality (.obj q)).Perm q := by
  rw [h.quality_obj]
  exact sorted_perm (by decide) h.nodup fun key hkey => h.mem_qualityOrder hkey

end Settled

theorem incomplete_congr {q q' : Fields} (h : ∀ key, get q' key = get q key) :
    incomplete q' = incomplete q := by
  unfold incomplete
  simp only [h]

end AwsOps.Chat
