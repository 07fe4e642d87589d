import AwsOps.NetworkPath.Route53

/-!
# What a resolution says

The lookup of a name, stated for the tree of names of the zone: no delegation at the name or above
it, the records of the name itself, or those of the wildcard of its closest encloser. The main
result, `evalRoute53Resolution_sound`, says that the evaluation ends, that an allowed name leads
over single pointers to healthy addresses, and that a blocked name is neither answered nor
delegated.
-/

namespace AwsOps.NetworkPath

open List

open DnsNames (Name AtOrBelow Closest ancestors strictAncestors mem_ancestors_iff)
open Chains (Hops Ending)

section Zone

variable (U : Text.Unicode) (records : List R53Record)

/-- The name exists in the zone: it owns a record, or a name below it does. -/
def IsNode (name : Name) : Prop :=
  ∃ r ∈ records, AtOrBelow (r.owner U) name

/-- The zone is cut at a name: it owns an NS record and no SOA record. -/
def IsCut (name : Name) : Prop :=
  (∃ r ∈ records, r.owner U = name ∧ r.upperType U = "NS") ∧
    ∀ r ∈ records, r.owner U = name → r.upperType U ≠ "SOA"

/-- The name lies at or below a cut. -/
def Delegated (name : Name) : Prop :=
  ∃ point, AtOrBelow name point ∧ IsCut U records point

/-- The records that answer for a name: its own, or, for a name that does not exist, those of the
wildcard of its closest encloser. -/
inductive Answers (name : Name) : List R53Record → Prop
  | exact (h : byName U records name ≠ []) : Answers name (byName U records name)
  | wildcard {encloser : Name} (hnone : ¬IsNode U records name)
      (hclosest : Closest (IsNode U records) name encloser)
      (h : byName U records (wildcardOf encloser) ≠ []) :
      Answers name (byName U records (wildcardOf encloser))

/-- A chain of names, each but the last answered by a single pointer to the next, and the records
that answer for the last. -/
inductive Chain : List Name → List R53Record → Prop
  | last {name : Name} {rows : List R53Record} (h : Answers U records name rows) :
      Chain [name] rows
  | hop {name target : Name} {r : R53Record} {names : List Name} {rows : List R53Record}
      (h : Answers U records name [r]) (hpointer : r.isPointer U = true)
      (htarget : r.target U = some target) (hrest : Chain (target :: names) rows) :
      Chain (name :: target :: names) rows

end Zone

variable {U : Text.Unicode} {records : List R53Record}

/-! ## The lookup -/

variable {name : Name} {rows : List R53Record}

theorem mem_byName {r : R53Record} :
    r ∈ byName U records name ↔ r ∈ records ∧ r.owner U = name := by
  rw [byName, mem_filter, beq_iff_eq]

theorem hasName_iff : hasName U records name = true ↔ byName U records name ≠ [] := by
  unfold hasName
  cases byName U records name <;> simp

theorem existsNode_iff : existsNode U records name = true ↔ IsNode U records name := by
  unfold existsNode IsNode
  simp only [any_eq_true, contains_iff_mem, mem_ancestors_iff]

theorem isCut_iff : isCut U records name = true ↔ IsCut U records name := by
  unfold isCut IsCut
  simp only [Bool.and_eq_true, Bool.not_eq_true', ← Bool.not_eq_true, contains_iff_mem,
    mem_map, mem_byName, not_exists, not_and, and_assoc]

theorem not_delegated_of_find
    (h : (ancestors name).find? (isCut U records) = none) : ¬Delegated U records name := by
  intro ⟨point, hbelow, hcut⟩
  exact List.find?_eq_none.mp h point (mem_ancestors_iff.mpr hbelow) (isCut_iff.mpr hcut)

theorem answers_of_findName (h : findName U records name = .ok rows) :
    ¬Delegated U records name ∧ Answers U records name rows := by
  unfold findName at h
  split at h
  · cases h
  · rename_i hfind
    refine ⟨not_delegated_of_find hfind, ?_⟩
    split at h
    · rename_i hname
      cases h
      exact .exact (hasName_iff.mp hname)
    · split at h
      · cases h
      · rename_i hnode
        split at h
        · cases h
        · rename_i encloser hencloser
          unfold rowsOf at h
          split at h
          · rename_i hwildcard
            cases h
            have hclosest := DnsNames.closest_of_find hencloser
            simp only [existsNode_iff] at hclosest hnode
            exact .wildcard hnode hclosest (hasName_iff.mp hwildcard)
          · cases h

theorem not_answers_of_findName (h : findName U records name = .error .absent) :
    ¬Delegated U records name ∧ ∀ rows, ¬Answers U records name rows := by
  unfold findName at h
  split at h
  · cases h
  · rename_i hfind
    refine ⟨not_delegated_of_find hfind, fun rows hrows => ?_⟩
    split at h
    · cases h
    · rename_i hname
      cases hrows with
      | exact hown => exact hname (hasName_iff.mpr hown)
      | wildcard hnone hclosest hwildcard =>
        rename_i found
        rw [← existsNode_iff] at hnone
        rw [if_neg hnone] at h
        have hclosest : Closest (fun n => existsNode U records n = true) name found := by
          simp only [existsNode_iff]
          exact hclosest
        split at h
        · rename_i hmissing
          exact DnsNames.not_closest_of_find hmissing _ hclosest
        · rename_i encloser hencloser
          -- there is only one closest encloser
          have hsame := (DnsNames.closest_of_find hencloser).unique hclosest
          rw [hsame, rowsOf, if_pos (hasName_iff.mpr hwildcard)] at h
          cases h

/-! ## The chain -/

theorem pointerOf_eq_some {target : Name} (h : pointerOf U rows = some target) :
    ∃ r, rows = [r] ∧ r.isPointer U = true ∧ r.target U = some target := by
  unfold pointerOf at h
  split at h
  · rename_i r
    split at h
    · rename_i hpointer
      exact ⟨r, rfl, hpointer, h⟩
    · cases h
  · cases h

theorem chain_of_hops {there : List R53Record} {names : List Name}
    (hname : Answers U records name rows)
    (h : Hops (pointerOf U) (findName U records) rows names there) :
    Chain U records (name :: names) there ∧ ∀ n ∈ names, ¬Delegated U records n := by
  induction h generalizing name with
  | here rows => exact ⟨.last hname, fun _ hn => absurd hn not_mem_nil⟩
  | hop hpointer hfind _ ih =>
    obtain ⟨hdelegated, hanswers⟩ := answers_of_findName hfind
    obtain ⟨hchain, hrest⟩ := ih hanswers
    obtain ⟨r, rfl, hisPointer, htarget⟩ := pointerOf_eq_some hpointer
    exact ⟨.hop hname hisPointer htarget hchain, forall_mem_cons.mpr ⟨hdelegated, hrest⟩⟩

/-- The names that records point to. -/
def targetsOf (U : Text.Unicode) (records : List R53Record) : Finset Name :=
  (records.filterMap (R53Record.target U)).toFinset

theorem target_mem {target : Name} (hsub : ∀ r ∈ rows, r ∈ records)
    (h : pointerOf U rows = some target) : target ∈ targetsOf U records := by
  obtain ⟨r, rfl, -, htarget⟩ := pointerOf_eq_some h
  exact mem_toFinset.mpr
    (mem_filterMap.mpr ⟨r, hsub r mem_cons_self, htarget⟩)

theorem Answers.subset (h : Answers U records name rows) : ∀ r ∈ rows, r ∈ records := by
  intro r hr
  cases h with
  | exact => exact (mem_byName.mp hr).1
  | wildcard => exact (mem_byName.mp hr).1

theorem chain_ends {host : Name} (hrows : Answers U records host rows) {fuel : Nat}
    (hfuel : records.length < fuel) :
    (Chains.follow (pointerOf U) (findName U records) fuel [host] rows).isSome = true := by
  have hcard : (targetsOf U records).card ≤ records.length :=
    (toFinset_card_le _).trans (length_filterMap_le _ _)
  refine Chains.follow_ends (targetsOf U records) ?_ ?_ (hcard.trans_lt hfuel)
  · intro name place target hfind hpointer
    exact target_mem (answers_of_findName hfind).2.subset hpointer
  · intro target hpointer
    exact target_mem hrows.subset hpointer

/-! ## The verdict -/

theorem no_pointer (hambiguous : multiPointerAmbiguous U rows = false)
    (hpointer : pointerOf U rows = none) (hdangling : isDangling U rows = false) :
    ∀ r ∈ rows, r.isPointer U = false := by
  unfold multiPointerAmbiguous at hambiguous
  match rows with
  | [] => exact fun _ hr => absurd hr not_mem_nil
  | [r] =>
    intro s hs
    rw [mem_singleton.mp hs]
    refine Bool.eq_false_iff.mpr fun hr => ?_
    simp only [pointerOf, hr, if_true] at hpointer
    simp [isDangling, hr, hpointer] at hdangling
  | r :: second :: rest =>
    have hmany : (decide ((r :: second :: rest).length > 1)) = true := by simp
    rw [hmany, Bool.true_and] at hambiguous
    intro s hs
    exact Bool.eq_false_iff.mpr (any_eq_false.mp hambiguous s hs)

/-- What an allowed verdict says of the records that the chain ends at. -/
theorem judgeRows_allowed {host : Name} (hne : rows ≠ [])
    (hambiguous : multiPointerAmbiguous U rows = false) (hpointer : pointerOf U rows = none)
    (h : (judgeRows U host rows).status = .allowed) :
    (∃ r ∈ rows, r.upperType U = "A" ∨ r.upperType U = "AAAA") ∧
      (∀ r ∈ rows, r.isPointer U = false) ∧
      (∀ r ∈ rows, r.healthCheckStatus ≠ some "unhealthy") ∧
      (judgeRows U host rows).evidence = rows := by
  unfold judgeRows at h ⊢
  dsimp only at h ⊢
  split at h
  · cases h
  · rename_i hdangling
    rw [if_neg hdangling]
    have hplain := no_pointer hambiguous hpointer (Bool.eq_false_iff.mpr hdangling)
    split at h
    · cases h
    · rename_i hnonAddress
      rw [if_neg hnonAddress]
      split at h
      · cases h
      · rename_i hall
        rw [if_neg hall]
        split at h
        · cases h
        · rename_i hsome
          rw [if_neg hsome]
          refine ⟨?_, hplain, ?_, rfl⟩
          · have hdiffers : (rows.filter fun r => !r53AddressTypes.contains (r.upperType U)).length ≠
                rows.length := by
              intro hlength
              have hnonempty : (rows.filter fun r =>
                  !r53AddressTypes.contains (r.upperType U)).isEmpty = false := by
                rw [isEmpty_eq_false_iff, ← length_pos_iff, hlength]
                exact length_pos_iff.mpr hne
              rw [hnonempty, hlength] at hnonAddress
              simp at hnonAddress
            have hexists : ∃ r ∈ rows, r53AddressTypes.contains (r.upperType U) = true := by
              by_contra hnone
              refine hdiffers (length_filter_eq_length_iff.mpr fun r hr => ?_)
              rw [Bool.not_eq_true']
              exact Bool.eq_false_iff.mpr fun haddress => hnone ⟨r, hr, haddress⟩
            obtain ⟨r, hr, haddress⟩ := hexists
            refine ⟨r, hr, ?_⟩
            have hnot := hplain r hr
            unfold R53Record.isPointer at hnot
            simp only [r53AddressTypes, contains_iff_mem, mem_cons, not_mem_nil,
              or_false] at haddress
            rcases haddress with ha | ha | ha
            · exact .inl ha
            · exact .inr ha
            · rw [ha] at hnot
              cases hnot
          · intro r hr hunhealthy
            have hmem : r ∈ rows.filter fun r => r.healthCheckStatus == some "unhealthy" :=
              mem_filter.mpr ⟨hr, beq_iff_eq.mpr hunhealthy⟩
            have hnonempty : (rows.filter fun r =>
                r.healthCheckStatus == some "unhealthy").isEmpty = false :=
              isEmpty_eq_false_iff.mpr (ne_nil_of_mem hmem)
            rw [hnonempty] at hall hsome
            cases hempty : (rows.filter fun r => r.healthCheckStatus != some "unhealthy").isEmpty
            · exact hsome (by rw [hempty]; rfl)
            · exact hall (by rw [hempty]; rfl)

theorem judgeEnding_allowed {host : Name} {ending : Ending Name Miss}
    (h : (judgeEnding U records host rows ending).status = .allowed) :
    ending = .arrived ∧ multiPointerAmbiguous U rows = false ∧
      judgeEnding U records host rows ending = judgeRows U host rows := by
  unfold judgeEnding at h ⊢
  split at h
  · cases h
  · split at h
    · cases h
    · rename_i hambiguous
      split at h
      · cases h
      · cases h
      · exact ⟨rfl, Bool.eq_false_iff.mpr hambiguous, by rw [if_neg hambiguous]⟩

theorem judgeEnding_ne_blocked {host : Name} {ending : Ending Name Miss} :
    (judgeEnding U records host rows ending).status ≠ .blocked := by
  have hrows : (judgeRows U host rows).status ≠ .blocked := by
    unfold judgeRows
    dsimp only
    split
    · exact nofun
    · split
      · exact nofun
      · split
        · exact nofun
        · split <;> exact nofun
  unfold judgeEnding
  split
  · exact nofun
  · split
    · exact nofun
    · split
      · exact nofun
      · exact nofun
      · exact hrows

theorem Answers.ne_nil (h : Answers U records name rows) : rows ≠ [] := by
  cases h with
  | exact h => exact h
  | wildcard _ _ h => exact h

theorem Chain.ne_nil {names : List Name} (h : Chain U records names rows) : rows ≠ [] := by
  induction h with
  | last h => exact h.ne_nil
  | hop _ _ _ _ ih => exact ih

/-- The evaluation ends, whatever the records. An allowed name leads over a chain of single
pointers between distinct names, each answered by its lookup and none delegated, to records of which one
is an address, none is a pointer and none is unhealthy. A blocked name is answered by no record and
is not delegated. -/
theorem evalRoute53Resolution_sound (U : Text.Unicode) (records : List R53Record)
    (queryHost : Option String) (dataAvailable : Bool) :
    ∃ result, (∀ fuel, records.length < fuel →
        evalRoute53Resolution U records fuel queryHost dataAvailable = some result) ∧
      (result.status = .allowed →
        ∃ names, Chain U records (normalizeName U (queryHost.getD "") :: names) result.evidence ∧
          (normalizeName U (queryHost.getD "") :: names).Nodup ∧
          (∀ name ∈ normalizeName U (queryHost.getD "") :: names, ¬Delegated U records name) ∧
          (∃ r ∈ result.evidence, r.upperType U = "A" ∨ r.upperType U = "AAAA") ∧
          (∀ r ∈ result.evidence, r.isPointer U = false) ∧
          ∀ r ∈ result.evidence, r.healthCheckStatus ≠ some "unhealthy") ∧
      (result.status = .blocked → ¬Delegated U records (normalizeName U (queryHost.getD "")) ∧
          ∀ rows, ¬Answers U records (normalizeName U (queryHost.getD "")) rows) := by
  unfold evalRoute53Resolution
  dsimp only
  generalize normalizeName U (queryHost.getD "") = host
  split
  · exact ⟨_, fun _ _ => rfl, nofun, nofun⟩
  · split
    · exact ⟨_, fun _ _ => rfl, nofun, nofun⟩
    · cases hfind : findName U records host with
      | error miss =>
        cases miss with
        | delegated point => exact ⟨_, fun _ _ => rfl, nofun, nofun⟩
        | absent => exact ⟨_, fun _ _ => rfl, nofun, fun _ => not_answers_of_findName hfind⟩
      | ok matched =>
        dsimp only
        obtain ⟨hdelegated, hanswers⟩ := answers_of_findName hfind
        split
        · exact ⟨_, fun _ _ => rfl, nofun, nofun⟩
        · obtain ⟨⟨rows, ending⟩, hfollow⟩ := Option.isSome_iff_exists.mp
            (chain_ends hanswers (Nat.lt_succ_self records.length))
          obtain ⟨names, hhops, hnodup, hnew, hending⟩ := Chains.hops_of_follow hfollow
          obtain ⟨hchain, hnames⟩ := chain_of_hops hanswers hhops
          refine ⟨judgeEnding U records host rows ending, ?_, ?_, ?_⟩
          · intro fuel hfuel
            rw [Chains.follow_mono hfollow hfuel]
            rfl
          · intro hallowed
            obtain ⟨rfl, hambiguous, hsame⟩ := judgeEnding_allowed hallowed
            rw [hsame] at hallowed ⊢
            obtain ⟨haddress, hplain, hhealthy, hevidence⟩ :=
              judgeRows_allowed hchain.ne_nil hambiguous hending hallowed
            have hdistinct : (host :: names).Nodup := nodup_cons.mpr
              ⟨fun hmem => hnew host hmem mem_cons_self, hnodup⟩
            rw [hevidence]
            exact ⟨names, hchain, hdistinct, forall_mem_cons.mpr ⟨hdelegated, hnames⟩,
              haddress, hplain, hhealthy⟩
          · intro hblocked
            exact absurd hblocked judgeEnding_ne_blocked

/-- A zone with a pointer into a wildcard. -/
def sampleZone : List R53Record :=
  [⟨some "example.com.", some "SOA", none, none⟩, ⟨some "example.com.", some "NS", none, none⟩,
    ⟨some "App.example.com.", some "CNAME", some "x.web.example.com.", none⟩,
    ⟨some "*.web.example.com.", some "A", none, some "healthy"⟩]

theorem evalRoute53Resolution_sound_sample :
    (∃ result names, evalRoute53Resolution .ascii sampleZone 5 (some "app.example.com") true =
        some result ∧
      Chain .ascii sampleZone ("app.example.com".toList :: names) result.evidence) ∧
      ∀ rows, ¬Answers .ascii sampleZone "api.example.com".toList rows := by
  obtain ⟨result, hruns, hallowed, -⟩ :=
    evalRoute53Resolution_sound .ascii sampleZone (some "app.example.com") true
  obtain ⟨missing, hmisses, -, hblocked⟩ :=
    evalRoute53Resolution_sound .ascii sampleZone (some "api.example.com") true
  have hrun := hruns 5 (by decide)
  have hmiss := hmisses 5 (by decide)
  have hstatus : (evalRoute53Resolution .ascii sampleZone 5 (some "app.example.com") true).map
      AdapterResult.status = some .allowed := by decide +kernel
  have hnone : (evalRoute53Resolution .ascii sampleZone 5 (some "api.example.com") true).map
      AdapterResult.status = some .blocked := by decide +kernel
  rw [hrun] at hstatus
  rw [hmiss] at hnone
  have hhost : normalizeName .ascii "app.example.com" = "app.example.com".toList := by
    decide +kernel
  have hother : normalizeName .ascii "api.example.com" = "api.example.com".toList := by
    decide +kernel
  obtain ⟨names, hchain, -⟩ := hallowed (Option.some.inj hstatus)
  exact ⟨⟨result, names, hrun, hhost ▸ hchain⟩, hother ▸ (hblocked (Option.some.inj hnone)).2⟩

end AwsOps.NetworkPath
