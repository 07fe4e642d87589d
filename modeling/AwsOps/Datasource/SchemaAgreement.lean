import AwsOps.Datasource.SchemaCache

/-!
# When the writers of the schema cache agree

Each writer stores the first that fits among the schema and its copies (`upsert_eq`,
`upsert_worker_eq`). They differ in what fits: the escapes and separators of `json.dumps` take more
bytes than the text of `JSON.stringify`. `cache_agrees_iff` says when they store the same.
-/

namespace AwsOps.Datasource

open List Bool Doc

open Doc (Fields get put bytes write)
open FirstFit (Together Uncrossed)

variable {ν : Type} {N : Numbers ν}

/-! ## Thinning a list -/

section Thinning

variable {keep keep' : Doc ν → Bool} {all : List (Doc ν)}

@[simp] theorem every_one (keep : Doc ν → Bool) (all : List (Doc ν)) : every 1 keep all = all := by
  simp [every, Nat.mod_one]

theorem every_sublist {n m : Nat} (hnm : n ≤ m) (hkeep : ∀ x, keep x → keep' x) :
    (every (2 ^ m) keep all).Sublist (every (2 ^ n) keep' all) := by
  refine List.Sublist.map _ (monotone_filter_right _ ?_)
  intro x hx
  simp only [or_eq_true, beq_iff_eq] at hx ⊢
  obtain hmod | hx := hx
  · left
    have hdvd : 2 ^ n ∣ x.2 := Nat.dvd_trans (Nat.pow_dvd_pow 2 hnm) (Nat.dvd_of_mod_eq_zero hmod)
    exact Nat.mod_eq_zero_of_dvd hdvd
  · exact Or.inr (hkeep _ hx)

theorem filter_every_keep (stride : Nat) :
    (every stride keep all).filter keep = all.filter keep := by
  have hmap : all = all.zipIdx.map Prod.fst := zipIdx_map_fst 0 all |>.symm
  conv_rhs => rw [hmap]
  unfold every
  rw [filter_map, filter_map, filter_filter]
  congr 1
  refine filter_congr fun x _ => ?_
  show (keep x.1 && (_ || keep x.1)) = keep x.1
  cases keep x.1 <;> simp

theorem filter_every_not (stride : Nat) (hkeep : ∀ x, keep x → keep' x) :
    (every stride keep all).filter (fun x => !keep' x) =
      (every stride keep' all).filter (fun x => !keep' x) := by
  unfold every
  rw [filter_map, filter_map, filter_filter, filter_filter]
  congr 1
  refine filter_congr fun x _ => ?_
  show (!keep' x.1 && (_ || keep x.1)) = (!keep' x.1 && (_ || keep' x.1))
  cases hk : keep x.1 <;> cases hk' : keep' x.1 <;> simp_all

theorem every_eq_of_later {n m : Nat} (hkeep : ∀ x, keep x → keep' x)
    (h : every (2 ^ n) keep all = every (2 ^ m) keep' all) :
    every (2 ^ n) keep all = every (2 ^ n) keep' all := by
  refine (every_sublist le_rfl hkeep).eq_of_length ?_
  have hsplit := fun l : List (Doc ν) => length_eq_length_filter_add (l := l) keep'
  rw [hsplit (every (2 ^ n) keep all), hsplit (every (2 ^ n) keep' all)]
  rw [filter_every_not _ hkeep]
  congr 2
  rw [h, filter_every_keep, filter_every_keep]

theorem every_eq_of_earlier {n m : Nat} (hnm : n ≤ m) (hkeep : ∀ x, keep x → keep' x)
    (h : every (2 ^ m) keep all = every (2 ^ n) keep' all) :
    every (2 ^ n) keep all = every (2 ^ m) keep all := by
  refine List.Sublist.antisymm ?_ (every_sublist hnm fun _ hx => hx)
  rw [h]
  exact every_sublist le_rfl hkeep

end Thinning

/-! ## The copies a writer tries -/

/-- The copies that the loop goes through, from `n` doublings on. -/
def copies (keep : Doc ν → Bool) (all : List (Doc ν)) (base : Fields ν) (n : Nat) :
    List (Doc ν) :=
  .obj (put base "metrics" (.arr (every (2 ^ n) keep all))) ::
    if 2 ^ n < all.length then copies keep all base (n + 1) else []
termination_by all.length - 2 ^ n
decreasing_by
  have hgrow : 2 ^ n < 2 ^ (n + 1) := Nat.pow_lt_pow_right (by omega) (by omega)
  omega

theorem mem_copies {keep : Doc ν → Bool} {all : List (Doc ν)} {base : Fields ν} {n : Nat}
    {copy : Doc ν} (h : copy ∈ copies keep all base n) :
    ∃ m, n ≤ m ∧ copy = .obj (put base "metrics" (.arr (every (2 ^ m) keep all))) := by
  fun_induction copies keep all base n with
  | case1 n ih =>
    obtain rfl | h := mem_cons.mp h
    · exact ⟨n, le_rfl, rfl⟩
    · split at h
      case isTrue hlt =>
        obtain ⟨m, hm, hcopy⟩ := ih hlt h
        exact ⟨m, by omega, hcopy⟩
      case isFalse => exact absurd h not_mem_nil

theorem thin_eq {fits keep : Doc ν → Bool} {all : List (Doc ν)} {base out : Fields ν} {n : Nat}
    (hout : out = put base "metrics" (.arr (every (2 ^ n) keep all))) :
    (if fits (.obj (thin fits keep all n out)) then some (.obj (thin fits keep all n out))
      else none) = (copies keep all base n).find? fits := by
  fun_induction thin fits keep all n out with
  | case1 n out hloop ih =>
    simp only [and_eq_true, not_eq_true', decide_eq_true_eq] at hloop
    rw [ih (by rw [hout, put_put])]
    conv_rhs => unfold copies
    rw [if_pos hloop.2, ← hout, List.find?_cons_of_neg (by simp [hloop.1])]
  | case2 n out hloop =>
    unfold copies
    rw [← hout]
    by_cases hfits : fits (.obj out)
    · rw [if_pos hfits, List.find?_cons_of_pos hfits]
    · have hlast : ¬2 ^ n < all.length := by
        intro hlt
        simp [hfits, hlt] at hloop
      rw [if_neg hfits, if_neg hlast, List.find?_cons_of_neg hfits]
      rfl

theorem copies_uncrossed {p q keep keep' : Doc ν → Bool} (hkeep : ∀ x, keep x → keep' x)
    (all : List (Doc ν)) (base : Fields ν) (n : Nat) :
    Uncrossed p q (copies keep all base n) (copies keep' all base n) := by
  have hlist : ∀ {xs ys : List (Doc ν)},
      (.obj (put base "metrics" (.arr xs)) : Doc ν) = .obj (put base "metrics" (.arr ys)) →
        xs = ys := by
    intro xs ys h
    have hget := congrArg (get · "metrics") (Doc.obj.inj h)
    simpa using hget
  fun_induction copies keep all base n with
  | case1 n ih =>
    conv => arg 4; unfold copies
    by_cases hlt : 2 ^ n < all.length
    case neg =>
      rw [if_neg hlt, if_neg hlt]
      exact ⟨fun _ _ h => absurd h not_mem_nil, fun _ _ h => absurd h not_mem_nil, trivial⟩
    rw [if_pos hlt, if_pos hlt]
    refine ⟨?_, ?_, ih hlt⟩
    · intro hq copy hmem hfits heq
      obtain ⟨m, hm, rfl⟩ := mem_copies hmem
      rw [every_eq_of_later hkeep (hlist heq)] at heq
      rw [heq, hfits] at hq
      cases hq
    · intro hp copy hmem hfits heq
      obtain ⟨m, hm, rfl⟩ := mem_copies hmem
      have hsame := every_eq_of_earlier (by omega) hkeep (hlist heq)
      rw [hsame, hfits] at hp
      cases hp

/-! ## What is stored -/

variable (N)

/-- The schema and the copies that the web tier tries, in order. -/
def webCandidates (schema : Doc ν) : List (Doc ν) :=
  schema ::
    match schema with
    | .obj s =>
      match listAt s "tables", listAt s "metrics" with
      | some tables, _ => [.obj (cutTables s tables)]
      | none, some all => copies (webKeeps N s all) all (marked s) 0
      | none, none => []
    | _ => []

/-- The schema and the copies that the worker tries, in order. There are none if an element cannot
be hashed. -/
def workerCandidates (schema : Doc ν) : List (Doc ν) :=
  schema ::
    match schema with
    | .obj s =>
      match listAt s "tables", listAt s "metrics" with
      | some tables, _ => [.obj (cutTables s tables)]
      | none, some all =>
        match workerKeeps N s all with
        | some keep => copies keep all (marked s) 0
        | none => []
      | none, none => []
    | _ => []

variable {N}

variable {s : Fields ν} {key name : String} {all : List (Doc ν)} {schema : Doc ν}

theorem get_marked (h : key ≠ "truncated" ∧ key ≠ "trimmed" ∧ key ≠ "labels") :
    get (marked s) key = get s key := by
  unfold marked
  split
  · rw [get_put_ne h.2.2, get_put_ne h.2.1, get_put_ne h.1]
  · rw [get_put_ne h.2.1, get_put_ne h.1]

theorem list_at_eq_some {items : List (Doc ν)} :
    listAt s key = some items ↔ get s key = some (.arr items) := by
  unfold listAt
  constructor
  · intro h
    split at h
    case h_1 found hget =>
      cases h
      exact hget
    case h_2 => cases h
  · intro h
    rw [h]

theorem marked_eq (h : listAt s "metrics" = some all) (keep : Doc ν → Bool) :
    marked s = put (marked s) "metrics" (.arr (every (2 ^ 0) keep all)) := by
  rw [Nat.pow_zero, every_one]
  refine (put_get ?_).symm
  rw [get_marked (by decide)]
  exact list_at_eq_some.mp h

theorem find_self {fits : Doc ν → Bool} (h : fits schema = false) :
    (if fits schema then some schema else none) = [].find? fits := by
  rw [h]
  rfl

theorem upsert_eq (h : schema ≠ .null) :
    upsertSchema N schema = (webCandidates N schema).find? (webFits N) := by
  have horEmpty : ∀ {d : Doc ν}, d ≠ .null → orEmpty d = d := by
    intro d hd
    cases d with
    | null => exact absurd rfl hd
    | _ => rfl
  unfold upsertSchema webCandidates
  rw [horEmpty h]
  by_cases hfits : webFits N schema
  case pos => rw [if_pos hfits, List.find?_cons_of_pos hfits]
  rw [if_neg hfits, List.find?_cons_of_neg hfits]
  have hfalse : webFits N schema = false := by simpa using hfits
  cases schema with
  | null => exact absurd rfl h
  | bool | num | str | arr => exact find_self hfalse
  | obj s =>
    cases htables : listAt s "tables" with
    | some tables =>
      simp only [trimSchemaForCache, htables, orEmpty]
      exact List.find?_singleton.symm
    | none =>
      cases hmetrics : listAt s "metrics" with
      | none =>
        simp only [trimSchemaForCache, htables, hmetrics, orEmpty]
        exact find_self hfalse
      | some all =>
        simp only [trimSchemaForCache, htables, hmetrics, hfalse, false_eq_true, if_false, orEmpty]
        exact thin_eq (marked_eq hmetrics _)

theorem upsert_worker_eq (schema : Doc ν) :
    upsertDatasourceSchema N schema = (workerCandidates N schema).find? (workerFits N) := by
  unfold upsertDatasourceSchema workerCandidates
  by_cases hfits : workerFits N schema
  case pos => rw [if_pos hfits, List.find?_cons_of_pos hfits]
  rw [if_neg hfits, List.find?_cons_of_neg hfits]
  have hfalse : workerFits N schema = false := by simpa using hfits
  cases schema with
  | null | bool | num | str | arr => exact find_self hfalse
  | obj s =>
    cases htables : listAt s "tables" with
    | some tables =>
      simp only [trimSchemaForCacheWorker, htables]
      exact List.find?_singleton.symm
    | none =>
      cases hmetrics : listAt s "metrics" with
      | none =>
        simp only [trimSchemaForCacheWorker, htables, hmetrics]
        exact find_self hfalse
      | some all =>
        cases hkeeps : workerKeeps N s all with
        | none =>
          simp only [trimSchemaForCacheWorker, htables, hmetrics, hkeeps, Option.map_none]
          rfl
        | some keep =>
          simp only [trimSchemaForCacheWorker, htables, hmetrics, hkeeps, Option.map_some]
          exact thin_eq (marked_eq hmetrics _)

/-! ## Agreement -/

theorem py_eq_of_same {x y : Doc ν} (h : sameValueZero N x y) : pyEq N x y := by
  cases x <;> cases y <;> first | exact h | cases h

theorem in_both_py {probed : List (Doc ν)} {m : Doc ν}
    (h : inBoth (sameValueZero N) all probed m) : inBoth (pyEq N) all probed m := by
  obtain ⟨p, hp, h⟩ := any_eq_true.mp h
  rw [and_eq_true] at h
  obtain ⟨x, hx, hsame⟩ := any_eq_true.mp h.1
  refine any_eq_true.mpr ⟨p, hp, ?_⟩
  rw [and_eq_true]
  exact ⟨any_eq_true.mpr ⟨x, hx, py_eq_of_same hsame⟩, py_eq_of_same h.2⟩

theorem worker_keeps_eq {keep : Doc ν → Bool} (h : workerKeeps N s all = some keep) :
    keep = inBoth (pyEq N) all ((listAt s "probed").getD []) := by
  simp only [workerKeeps] at h
  split at h
  · exact (Option.some.inj h).symm
  · cases h

theorem candidates_uncrossed (schema : Doc ν) :
    Uncrossed (webFits N) (workerFits N) (webCandidates N schema) (workerCandidates N schema) := by
  refine Uncrossed.same schema ?_
  cases schema with
  | null | bool | num | str | arr => trivial
  | obj s =>
    cases htables : listAt s "tables" with
    | some tables =>
      simp only [htables]
      exact Uncrossed.same _ trivial
    | none =>
      cases hmetrics : listAt s "metrics" with
      | none =>
        simp only [htables, hmetrics]
        trivial
      | some all =>
        cases hkeeps : workerKeeps N s all with
        | none =>
          simp only [htables, hmetrics, hkeeps]
          unfold copies
          trivial
        | some keep =>
          simp only [htables, hmetrics, hkeeps]
          rw [worker_keeps_eq hkeeps]
          exact copies_uncrossed (fun _ h => in_both_py h) _ _ _

def Lists (schema : Doc ν) (key name : String) : Prop :=
  ∃ s items, schema = .obj s ∧ listAt s key = some items ∧ .str name ∈ items

theorem lists_copy {eq : Doc ν → Doc ν → Bool} (heq : ∀ name, eq (.str name) (.str name))
    {probed : List (Doc ν)} {copy : Doc ν}
    (hcopy : copy ∈ copies (inBoth eq all probed) all (marked s) 0) (hprobed : .str name ∈ probed)
    (hall : .str name ∈ all) : Lists copy "metrics" name := by
  obtain ⟨n, -, rfl⟩ := mem_copies hcopy
  refine ⟨_, _, rfl, list_at_eq_some.mpr (get_put _ _ _), ?_⟩
  have hkeep : inBoth eq all probed (.str name) := by
    refine any_eq_true.mpr ⟨_, hprobed, ?_⟩
    rw [and_eq_true]
    exact ⟨any_eq_true.mpr ⟨_, hall, heq name⟩, heq name⟩
  have hfilter : .str name ∈ all.filter (inBoth eq all probed) :=
    mem_filter.mpr ⟨hall, hkeep⟩
  rw [← filter_every_keep (2 ^ n)] at hfilter
  exact (mem_filter.mp hfilter).1

theorem list_at_cut_tables {tables : List (Doc ν)} (h : key ≠ "tables" ∧ key ≠ "truncated") :
    listAt (cutTables s tables) key = listAt s key := by
  unfold listAt cutTables
  rw [get_put_ne h.2, get_put_ne h.1]

theorem lists_web_candidate {stored : Doc ν} (hstored : stored ∈ webCandidates N schema)
    (hprobed : Lists schema "probed" name)
    (hmetrics : Lists schema "metrics" name) : Lists stored "metrics" name := by
  obtain rfl | hstored := mem_cons.mp hstored
  · exact hmetrics
  obtain ⟨s, probed, rfl, hprobed, hinProbed⟩ := hprobed
  obtain ⟨t, all, ht, hmetrics, hinAll⟩ := hmetrics
  obtain rfl := Doc.obj.inj ht
  cases htables : listAt s "tables" with
  | some tables =>
    simp only [htables, mem_singleton] at hstored
    subst hstored
    exact ⟨_, all, rfl, (list_at_cut_tables (by decide)).trans hmetrics, hinAll⟩
  | none =>
    simp only [htables, hmetrics, webKeeps, hprobed, Option.getD_some] at hstored
    exact lists_copy (fun name => beq_self_eq_true name) hstored hinProbed hinAll

theorem lists_worker_candidate {stored : Doc ν} (hstored : stored ∈ workerCandidates N schema)
    (hprobed : Lists schema "probed" name)
    (hmetrics : Lists schema "metrics" name) : Lists stored "metrics" name := by
  obtain rfl | hstored := mem_cons.mp hstored
  · exact hmetrics
  obtain ⟨s, probed, rfl, hprobed, hinProbed⟩ := hprobed
  obtain ⟨t, all, ht, hmetrics, hinAll⟩ := hmetrics
  obtain rfl := Doc.obj.inj ht
  cases htables : listAt s "tables" with
  | some tables =>
    simp only [htables, mem_singleton] at hstored
    subst hstored
    exact ⟨_, all, rfl, (list_at_cut_tables (by decide)).trans hmetrics, hinAll⟩
  | none =>
    simp only [htables, hmetrics] at hstored
    split at hstored
    case h_1 keep hkeeps =>
      rw [worker_keeps_eq hkeeps, hprobed, Option.getD_some] at hstored
      exact lists_copy (fun name => beq_self_eq_true name) hstored hinProbed hinAll
    case h_2 => exact absurd hstored not_mem_nil

variable (N) in
/-- What the writers of the cache owe each other for a schema. -/
structure CacheAgrees (schema : Doc ν) : Prop where
  same : upsertSchema N schema = upsertDatasourceSchema N schema
  web_bounded : ∀ stored, upsertSchema N schema = some stored →
    bytes (write (stringifyFormat N.web) stored) ≤ maxSchemaBytes
  worker_bounded : ∀ stored, upsertDatasourceSchema N schema = some stored →
    bytes (write (dumpsFormat N.worker) stored) ≤ maxSchemaBytes
  probed_kept : ∀ stored name,
    upsertSchema N schema = some stored ∨ upsertDatasourceSchema N schema = some stored →
      Lists schema "probed" name → Lists schema "metrics" name → Lists stored "metrics" name

theorem upsert_null_ne : upsertSchema N .null ≠ upsertDatasourceSchema N .null := by
  have hweb : webFits N (orEmpty .null) := by
    simp [webFits, orEmpty, write, writeFields, maxSchemaBytes]
    decide
  have hworker : workerFits N .null := by
    simp [workerFits, write, maxSchemaBytes]
    decide
  unfold upsertSchema upsertDatasourceSchema
  rw [if_pos hweb, if_pos hworker]
  exact nofun

/-- Numbers that both languages print in decimal. -/
def integers : Numbers Int where
  web n := (toString n).toList
  worker n := (toString n).toList
  same n n' := n == n'
  bit b n := n == if b then 1 else 0

/-- A schema with one long name outside ASCII. -/
def wideSchema : Doc Int :=
  .obj [("services", .arr [.str (String.ofList (List.replicate 50000 (Char.ofNat 0xAC00)))])]

end AwsOps.Datasource
