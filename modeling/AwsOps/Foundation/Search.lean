import AwsOps.Foundation.OrderedSets

/-!
# Breadth-first search

A search over a queue that is read from the front while it grows at the back. The queue is the set
of what has been found as well, so it ends after as many rounds as there are allowed nodes, and
holds exactly what the seeds lead to inside these: `mem_search`.
-/

namespace AwsOps.Search

open List OrderedSets

variable {α : Type} [DecidableEq α] (next : α → List α) (allowed : List α)

/-- Read the queue from a position on, and append the neighbours that are allowed and new. -/
def expand : Nat → Nat → List α → List α
  | 0, _, queue => queue
  | fuel + 1, i, queue =>
    match queue[i]? with
    | none => queue
    | some x => expand fuel (i + 1) (addAll queue ((next x).filter (· ∈ allowed)))

/-- What is found from the seeds that are allowed, in the order of the queue. -/
def search (seeds : List α) : List α :=
  expand next allowed (allowed.length + 1) 0 (ofList (seeds.filter (· ∈ allowed)))

/-- A step to an allowed neighbour. -/
def Step (a b : α) : Prop :=
  b ∈ next a ∧ b ∈ allowed

/-- What holds of the queue while it is read: the nodes in front of the position are done. -/
structure Searching (seeds : List α) (i : Nat) (queue : List α) : Prop where
  nodup : queue.Nodup
  within : ∀ x ∈ queue, x ∈ allowed
  seeded : ofList (seeds.filter (· ∈ allowed)) <+: queue
  reached : ∀ y ∈ queue, ∃ x ∈ seeds, x ∈ allowed ∧ Relation.ReflTransGen (Step next allowed) x y
  done : ∀ x ∈ queue.take i, ∀ y ∈ next x, y ∈ allowed → y ∈ queue
  position : i ≤ queue.length

variable {next allowed} {seeds queue : List α} {i : Nat}

theorem searching_start : Searching next allowed seeds 0 (ofList (seeds.filter (· ∈ allowed))) where
  nodup := nodup_of_list
  within x hx := by simpa using (mem_filter.mp (mem_of_list.mp hx)).2
  seeded := prefix_rfl
  reached y hy := by
    obtain ⟨hseed, hallowed⟩ := mem_filter.mp (mem_of_list.mp hy)
    exact ⟨y, hseed, by simpa using hallowed, Relation.ReflTransGen.refl⟩
  done := by simp
  position := Nat.zero_le _

/-- One node is read. -/
theorem Searching.step (h : Searching next allowed seeds i queue) {x : α} (hx : queue[i]? = some x) :
    Searching next allowed seeds (i + 1) (addAll queue ((next x).filter (· ∈ allowed))) := by
  have hmem : x ∈ queue := mem_of_getElem? hx
  obtain ⟨hi, hget⟩ := List.getElem?_eq_some_iff.mp hx
  have hprefix : queue <+: addAll queue ((next x).filter (· ∈ allowed)) := prefix_add_all
  refine ⟨nodup_add_all h.nodup, fun y hy => ?_, h.seeded.trans hprefix, fun y hy => ?_,
    fun a ha y hy hallowed => ?_, Nat.lt_of_lt_of_le hi hprefix.length_le⟩
  · obtain hold | hnew := mem_add_all.mp hy
    · exact h.within y hold
    · simpa using (mem_filter.mp hnew).2
  · obtain hold | hnew := mem_add_all.mp hy
    · exact h.reached y hold
    · obtain ⟨hnext, hallowed⟩ := mem_filter.mp hnew
      obtain ⟨seed, hseed, hin, hpath⟩ := h.reached x hmem
      exact ⟨seed, hseed, hin, hpath.tail ⟨hnext, by simpa using hallowed⟩⟩
  · obtain ⟨rest, hrest⟩ := hprefix
    have htake : (addAll queue ((next x).filter (· ∈ allowed))).take (i + 1) =
        queue.take i ++ [x] := by
      rw [← hrest, take_append_of_le_length hi, take_add_one, hx, Option.toList_some]
    rw [htake, mem_append, mem_singleton] at ha
    apply mem_add_all.mpr
    obtain ha | rfl := ha
    · exact .inl (h.done a ha y hy hallowed)
    · exact .inr (mem_filter.mpr ⟨hy, by simpa using hallowed⟩)

theorem searching_expand {fuel : Nat} (h : Searching next allowed seeds i queue)
    (hfuel : allowed.length < i + fuel) :
    Searching next allowed seeds (expand next allowed fuel i queue).length
      (expand next allowed fuel i queue) := by
  have hlength : queue.length ≤ allowed.length :=
    (h.nodup.subperm fun x hx => h.within x hx).length_le
  induction fuel generalizing i queue with
  | zero =>
    have hposition := h.position
    omega
  | succ fuel ih =>
    unfold expand
    split
    next hnone =>
      have hend : queue.length ≤ i := List.getElem?_eq_none_iff.mp hnone
      have hi : i = queue.length := Nat.le_antisymm h.position hend
      exact hi ▸ h
    next x hx =>
      have hstep := h.step hx
      exact ih hstep (by omega) (hstep.nodup.subperm fun y hy => hstep.within y hy).length_le

theorem searching_search :
    Searching next allowed seeds (search next allowed seeds).length (search next allowed seeds) :=
  searching_expand searching_start (by omega)

theorem mem_search {y : α} : y ∈ search next allowed seeds ↔
    ∃ x ∈ seeds, x ∈ allowed ∧ Relation.ReflTransGen (Step next allowed) x y := by
  have hsearch : Searching next allowed seeds _ (search next allowed seeds) := searching_search
  refine ⟨hsearch.reached y, ?_⟩
  rintro ⟨x, hseed, hallowed, hpath⟩
  induction hpath with
  | refl =>
    have hx : x ∈ ofList (seeds.filter (· ∈ allowed)) :=
      mem_of_list.mpr (mem_filter.mpr ⟨hseed, by simpa using hallowed⟩)
    exact hsearch.seeded.subset hx
  | tail hpath hstep ih =>
    exact hsearch.done _ (by rw [take_length]; exact ih) _ hstep.1 hstep.2

end AwsOps.Search
