import AwsOps.Foundation.Arranged
import AwsOps.Foundation.Sha256

/-!
# The version of a schema

The hash that decides whether a schema changed. It is taken of a canonical form that sorts the lists
of the schema by the text of their elements, so that the order of an introspection does not count.
-/

namespace AwsOps.Datasource

open List Doc

/-- A number of a JSON text. Two numbers are the same when they are written alike. -/
structure Number where
  text : List Char
  legible : text ≠ [] ∧ ∀ c ∈ text, isNumeric c = true

/-- `json.dumps` with `separators=(",", ":")`. -/
def compact : Format Number where
  item := [',']
  key := [':']
  escape := Json.escapeChar
  number := Number.text

/-- `json.dumps` with `sort_keys=True` and `separators=(",", ":")`. -/
def dumps (v : Doc Number) : String :=
  String.ofList (write compact (sortKeys v))

/-- `_canon`: each value of a dictionary in canonical form, and the canonical forms of the elements
of a list in the order of their texts. -/
def canon : Doc Number → Doc Number :=
  arrange (fun items => items.insertionSort fun v w => dumps v ≤ dumps w) id

def schemaVersion (catalogVersion : String) (queryGen : Bool) (schema : Doc Number) : List Char :=
  (Sha256.hexDigest ((dumps (canon schema)).toList ++ '|' :: catalogVersion.toList ++
    "|dsquerygen=".toList ++ [if queryGen then '1' else '0'])).take 16

/-- A schema: a JSON value in which no dictionary has a key twice. -/
abbrev Schema : Type :=
  {v : Doc Number // v.Distinct}

/-- `==` of two values: the order of the keys of a dictionary does not count. -/
abbrev Equal (v w : Doc Number) : Prop :=
  Alike False v w

/-- The values are equal up to the order of the keys of dictionaries and of the elements of lists. -/
abbrev SameContent (v w : Doc Number) : Prop :=
  Alike True v w

theorem legible_compact : compact.Legible where
  item := rfl
  key := rfl
  escape := Json.readable_escape_char
  number n m h := by
    cases n
    cases m
    cases h
    rfl
  numeric n := n.legible

/-- A text determines the value, up to the order of keys. -/
theorem dumps_eq_iff {v w : Doc Number} (hv : v.Distinct) : dumps v = dumps w ↔ Equal v w := by
  constructor
  · intro h
    have hwrite : write compact (sortKeys v) ++ [] = write compact (sortKeys w) ++ [] := by
      rw [String.ofList_injective h]
    have hends : Json.Ends isNumeric [] := fun _ h => nomatch h
    have hkeys := (write_append_inj legible_compact hends hends hwrite).1
    exact (alike_sort_keys v).trans (hkeys ▸ (alike_sort_keys w).symm)
  · intro h
    rw [dumps, dumps, h.sort_keys_eq hv]

theorem canon_same_content (v : Doc Number) : SameContent v (canon v) :=
  alike_arrange (fun items => .inr ⟨trivial, perm_insertionSort _ items⟩) (fun _ => .refl _) v

theorem sorted_equal {xs ys : List (Doc Number)} (hxs : ∀ v ∈ xs, v.Distinct)
    (hperm : (xs.map dumps).Perm (ys.map dumps)) :
    Equal (.arr (xs.insertionSort fun v w => dumps v ≤ dumps w))
      (.arr (ys.insertionSort fun v w => dumps v ≤ dumps w)) := by
  have hsort : ∀ zs : List (Doc Number),
      (zs.insertionSort fun v w => dumps v ≤ dumps w).map dumps = (zs.map dumps).insertionSort (· ≤ ·) :=
    fun zs => map_insertionSort _ _ _ zs fun _ _ _ _ => Iff.rfl
  have htexts : (xs.insertionSort fun v w => dumps v ≤ dumps w).map dumps =
      (ys.insertionSort fun v w => dumps v ≤ dumps w).map dumps := by
    rw [hsort, hsort]
    exact (((perm_insertionSort _ _).trans hperm).trans (perm_insertionSort _ _).symm).eq_of_pairwise'
      (pairwise_insertionSort _ _) (pairwise_insertionSort _ _)
  refine alike_items ?_
  rw [← forall₂_eq_eq_eq, forall₂_map_left_iff, forall₂_map_right_iff] at htexts
  refine (forall₂_iff_zip.mp htexts).elim fun hlength hzip => forall₂_iff_zip.mpr ⟨hlength, ?_⟩
  intro v w hvw
  have hv := (perm_insertionSort _ xs).mem_iff.mp (of_mem_zip hvw).1
  exact (dumps_eq_iff (hxs v hv)).mp (hzip hvw)

theorem canon_equal {v w : Doc Number} (h : SameContent v w) (hv : v.Distinct) :
    Equal (canon v) (canon w) := by
  have hdistinct : ∀ {v}, v.Distinct → (canon v).Distinct := fun hv =>
    (canon_same_content _).distinct hv
  induction h with
  | refl => exact .refl _
  | trans hu _ hu' hv' => exact (hu' hv).trans (hv' (hu.distinct hv))
  | @items xs ys _ h =>
    simp only [canon, arrange_arr]
    refine sorted_equal (forall_mem_map.mpr fun x hx => hdistinct (distinct_arr.mp hv x hx)) ?_
    exact (h.map _).map _
  | fields h =>
    simp only [canon, arrange_obj]
    exact .fields (h.map _)
  | @item v w before after _ ih =>
    have hall := distinct_arr.mp hv
    have hv' := hall v (by simp)
    have htext := (dumps_eq_iff (hdistinct hv')).mpr (ih hv')
    simp only [canon, arrange_arr]
    refine sorted_equal (forall_mem_map.mpr fun x hx => hdistinct (hall x hx)) ?_
    rw [canon] at htext
    simp [htext]
  | @field v w before key after _ ih =>
    have hvalue := ih ((distinct_obj.mp hv).2 (key, v) (by simp))
    simp only [canon, arrange_obj, map_append, map_cons]
    exact .field _ key _ hvalue

/-- The canonical forms of two schemas are equal exactly when their contents are the same, and then
the versions are equal as well. -/
theorem canon_equal_iff (a b : Schema) : (Equal (canon a) (canon b) ↔ SameContent a.1 b.1) ∧
      (SameContent a.1 b.1 → ∀ catalogVersion queryGen,
        schemaVersion catalogVersion queryGen a = schemaVersion catalogVersion queryGen b) := by
  refine ⟨⟨fun h => ?_, fun h => canon_equal h a.2⟩, fun h catalogVersion queryGen => ?_⟩
  · exact (canon_same_content a.1).trans (h.weaken.trans (canon_same_content b.1).symm)
  · have hdistinct := (canon_same_content a.1).distinct a.2
    rw [schemaVersion, schemaVersion, (dumps_eq_iff hdistinct).mpr (canon_equal h a.2)]

end AwsOps.Datasource
