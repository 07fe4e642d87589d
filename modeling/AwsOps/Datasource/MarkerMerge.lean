import AwsOps.Datasource.Rebuild
import AwsOps.Foundation.Numerals
import Mathlib.Data.Prod.Lex

/-!
# Two workers store the marker

What the worker's regular expression and those of the statement read off a marker is what it was
written from. A marker stands where its state and its streak stand, in lexicographic order, and
the statement stores the maximum of the stored standing and the proposed one. So two proposals for
one version and one week leave the same state and streak in either order. The attempts do not take
part: they are the counter of the row or the floor of the later writer.
-/

namespace AwsOps.Datasource

open List Option BudgetRow

open Text (Unicode magnitude search)

/-! ## Parts of a marker -/

/-- A schema version: the hexadecimal digits of a hash. -/
def isHex (c : Char) : Bool :=
  c.isDigit || ('a' ≤ c && c ≤ 'f')

/-- The characters of a version. -/
def IsVersion (version : List Char) : Prop :=
  ∀ c ∈ version, isHex c

/-- Being a version can be checked. -/
instance (version : List Char) : Decidable (IsVersion version) :=
  decidable_of_iff (version.all isHex = true) all_eq_true

/-- The week is written with five to eight digits. -/
def IsWrittenWeek (week : IsoWeek) : Prop :=
  10 ^ 4 ≤ week ∧ week < 10 ^ 8

/-- The bounds on a week can be checked. -/
instance (week : IsoWeek) : Decidable (IsWrittenWeek week) :=
  inferInstanceAs (Decidable (_ ∧ _))

/-- The streak of a marker, which is left out when it is zero. -/
def streakTail (streak : Nat) : List Char :=
  if streak = 0 then [] else 's' :: digits streak

/-- The streak as the regular expressions capture it. -/
def streakGroup (streak : Nat) : Option (List Char) :=
  if streak = 0 then none else some (digits streak)

section Parts

variable {version : List Char} {week : IsoWeek} {attempts streak : Nat} {state : MarkerState}

theorem marker_eq : marker week version attempts state streak =
    version ++ ':' :: (state.text ++ (digits attempts ++ 'w' :: (digits week ++ streakTail streak))) := by
  simp [marker, streakTail]

theorem state_at_front (rest : List Char) : stateAtFront (state.text ++ rest) = some (state, rest) := by
  cases state <;> simp [stateAtFront, MarkerState.text]

theorem hex_ne {c : Char} (h : isHex c) : c ≠ ':' ∧ c ≠ 'p' ∧ c ≠ 'o' ∧ c ≠ 'w' ∧ c ≠ 's' := by
  refine ⟨?_, ?_, ?_, ?_, ?_⟩ <;>
  · intro heq
    rw [heq] at h
    exact absurd h (by decide)

theorem week_length (h : IsWrittenWeek week) :
    ¬((digits week).length < 5 ∨ 8 < (digits week).length) := by
  have hshort : ¬(digits week).length ≤ 4 := by
    rw [digits, Nat.length_toDigits_le_iff (by decide) (by decide)]
    exact not_lt.mpr h.1
  have hlong : (digits week).length ≤ 8 := by
    rw [digits, Nat.length_toDigits_le_iff (by decide) (by decide)]
    exact h.2
  omega

theorem streak_tail_stop {p : Char → Bool} (hs : p 's' = false) :
    ∀ c ∈ (streakTail streak).head?, p c = false := by
  intro c hc
  unfold streakTail at hc
  split at hc
  · cases hc
  · cases hc
    exact hs

theorem week_at_front {p : Char → Bool} {finished : List Char → Bool} (hweek : IsWrittenWeek week)
    (hp : ∀ c, c.isDigit → p c) (hs : p 's' = false) (hnil : finished [] = true)
    (hmore : ∀ rest, finished ('s' :: rest) = false) :
    weekAtFront p finished ('w' :: (digits week ++ streakTail streak)) =
      some (digits week, streakGroup streak) := by
  have hspan : (digits week ++ streakTail streak).span p = (digits week, streakTail streak) :=
    Text.span_digits hp (streak_tail_stop hs)
  have hlength : ¬(decide ((digits week).length < 5) || decide (8 < (digits week).length)) = true := by
    simpa using week_length hweek
  rw [weekAtFront, hspan]
  dsimp only
  rw [if_neg hlength]
  by_cases hstreak : streak = 0
  · have htail : streakTail streak = [] := if_pos hstreak
    have hgroup : streakGroup streak = none := if_pos hstreak
    rw [htail, hgroup, if_pos hnil]
  · have htail : streakTail streak = 's' :: digits streak := if_neg hstreak
    have hgroup : streakGroup streak = some (digits streak) := if_neg hstreak
    have hdigits : (digits streak).span p = (digits streak, []) := by
      have hspan : (digits streak ++ []).span p = (digits streak, []) :=
        Text.span_digits hp (fun c hc => by cases hc)
      rwa [append_nil] at hspan
    have hsome : (digits streak != [] && finished []) = true := by
      rw [hnil, Bool.and_true]
      exact bne_iff_ne.mpr Nat.toDigits_ne_nil
    rw [htail, hgroup, hmore, if_neg Bool.false_ne_true]
    simp only [hdigits]
    rw [if_pos hsome]

/-- Every letter that can open a reading of the week, the streak or the separator is past the
state and the attempts. -/
theorem mem_state_digits {c : Char} (h : c ∈ state.text ++ digits attempts) :
    c ≠ ':' ∧ c ≠ 'w' ∧ c ≠ 's' := by
  rcases mem_append.mp h with hstate | hdigit
  · have hletters : (state.text.all fun c => decide (c ≠ ':' ∧ c ≠ 'w' ∧ c ≠ 's')) = true := by
      cases state <;> rfl
    exact of_decide_eq_true (all_eq_true.mp hletters c hstate)
  · have hd : c.isDigit := Text.digit_of_mem hdigit
    refine ⟨?_, ?_, ?_⟩ <;>
    · intro heq
      rw [heq] at hd
      exact absurd hd (by decide)

/-! ## What the regular expressions read -/

theorem search_marker (U : Unicode) (hversion : IsVersion version) (hweek : IsWrittenWeek week) :
    searchMarker U (marker week version attempts state streak) =
      some ⟨version, state, digits attempts, digits week, streakGroup streak⟩ := by
  have hdigit : ∀ c, c.isDigit → (U.digit c).isSome := fun c hc => by
    rw [Text.digit_value U hc]
    rfl
  have hno (c : Char) (hascii : Text.isAscii c) (hc : c.isDigit = false) :
      (U.digit c).isSome = false := by
    rw [U.digit_ascii c hascii, hc]
    rfl
  have hspan : (digits attempts ++ 'w' :: (digits week ++ streakTail streak)).span
      (fun c => (U.digit c).isSome) =
        (digits attempts, 'w' :: (digits week ++ streakTail streak)) :=
    Text.span_digits hdigit (fun c hc => by
      cases hc
      exact hno 'w' (by decide) (by decide))
  have hend : weekAtFront (fun c => (U.digit c).isSome) atEnd
      ('w' :: (digits week ++ streakTail streak)) = some (digits week, streakGroup streak) :=
    week_at_front hweek hdigit (hno 's' (by decide) (by decide)) rfl (fun rest => by simp [atEnd])
  rw [marker_eq]
  unfold searchMarker
  dsimp only
  rw [Text.search_past fun c hc tail => by
    have hne := (hex_ne (hversion c hc)).1
    split
    · rename_i heq
      exact absurd (List.cons.inj heq).1 hne
    · rfl]
  rw [Text.search_here (a := (state, digits attempts, digits week, streakGroup streak))]
  · simp
  · have hne : (digits attempts == []) = false := by simp [digits, Nat.toDigits_ne_nil]
    simp only [state_at_front, bind_eq_bind, bind_some, hspan, hend, hne]
    rfl

theorem state_at_front_none {c d : Char} (rest : List Char) (hc : c ≠ 'p') (hd : d ≠ 'o') :
    stateAtFront (c :: d :: rest) = none := by
  simp [stateAtFront, MarkerState.text, hc.symm, hd.symm]

theorem live_state_marker (hversion : IsVersion version) :
    liveState (marker week version attempts state streak) = some state := by
  have hspan : (digits attempts ++ 'w' :: (digits week ++ streakTail streak)).span Char.isDigit =
      (digits attempts, 'w' :: (digits week ++ streakTail streak)) :=
    Text.span_digits (fun _ hc => hc) (fun c hc => by
      cases hc
      decide)
  obtain ⟨d, ds, hds⟩ := exists_cons_of_ne_nil (Nat.toDigits_ne_nil (b := 10) (n := attempts))
  rw [marker_eq, liveState, append_cons]
  rw [Text.search_append fun tail hne htail => by
    -- No state starts inside the version: the letter after a hexadecimal digit is one or a colon.
    have hplain : ∀ c ∈ version ++ [':'], c ≠ 'p' ∧ c ≠ 'o' := by
      intro c hc
      rcases mem_append.mp hc with hc | hc
      · exact ⟨(hex_ne (hversion c hc)).2.1, (hex_ne (hversion c hc)).2.2.1⟩
      · rw [mem_singleton.mp hc]
        decide
    have hnone : stateAtFront (tail ++ (state.text ++
        (digits attempts ++ 'w' :: (digits week ++ streakTail streak)))) = none := by
      cases tail with
      | nil => exact absurd rfl hne
      | cons c rest =>
        have hc := hplain c (htail.subset mem_cons_self)
        cases rest with
        | nil =>
          have hstate : ∃ d text, state.text = d :: text ∧ d ≠ 'o' := by
            cases state <;> exact ⟨_, _, rfl, by decide⟩
          obtain ⟨d, text, htext, hd⟩ := hstate
          rw [htext]
          exact state_at_front_none _ hc.1 hd
        | cons d rest =>
          have hd := hplain d (htail.subset (mem_cons_of_mem _ mem_cons_self))
          exact state_at_front_none _ hc.1 hd.2
    rw [hnone]
    rfl]
  rw [Text.search_here (a := state)]
  · rfl
  · simp only [state_at_front, bind_eq_bind, bind_some, hspan]
    rw [digits, hds]
    rfl

theorem live_week_marker (hversion : IsVersion version) (hweek : IsWrittenWeek week) :
    liveWeek (marker week version attempts state streak) = some (digits week) := by
  have hend : weekAtFront Char.isDigit (· == []) ('w' :: (digits week ++ streakTail streak)) =
      some (digits week, streakGroup streak) :=
    week_at_front hweek (fun _ hc => hc) (by decide) rfl (fun _ => rfl)
  have hfront : marker week version attempts state streak =
      (version ++ ':' :: (state.text ++ digits attempts)) ++
        'w' :: (digits week ++ streakTail streak) := by
    simp [marker_eq]
  rw [hfront, liveWeek, Text.search_past fun c hc tail => by
    have hne : c ≠ 'w' := by
      rcases mem_append.mp hc with hc | hc
      · exact (hex_ne (hversion c hc)).2.2.2.1
      · rcases mem_cons.mp hc with hc | hc
        · rw [hc]
          decide
        · exact (mem_state_digits hc).2.1
    rw [weekAtFront]
    · rfl
    · intro rest heq
      exact hne (List.cons.inj heq).1]
  rw [Text.search_here (a := digits week)]
  · rfl
  · rw [hend]
    rfl

theorem live_streak_marker (hversion : IsVersion version) :
    liveStreak (marker week version attempts state streak) =
      if streak < 2 ^ 31 then some streak else none := by
  have hfront : marker week version attempts state streak =
      (version ++ ':' :: (state.text ++ digits attempts) ++ 'w' :: digits week) ++
        streakTail streak := by
    simp [marker_eq]
  have hplain : ∀ c ∈ version ++ ':' :: (state.text ++ digits attempts) ++ 'w' :: digits week,
      c ≠ 's' := by
    intro c hc
    rcases mem_append.mp hc with hc | hc
    · rcases mem_append.mp hc with hc | hc
      · exact (hex_ne (hversion c hc)).2.2.2.2
      · rcases mem_cons.mp hc with hc | hc
        · rw [hc]
          decide
        · exact (mem_state_digits hc).2.2
    · rcases mem_cons.mp hc with hc | hc
      · rw [hc]
        decide
      · intro heq
        have hdigit : c.isDigit := Text.digit_of_mem hc
        rw [heq] at hdigit
        exact absurd hdigit (by decide)
  unfold liveStreak
  rw [hfront, Text.search_past fun c hc tail => by
    split
    · rename_i heq
      exact absurd (List.cons.inj heq).1 (hplain c hc)
    · rfl]
  by_cases hstreak : streak = 0
  · have htail : streakTail streak = [] := if_pos hstreak
    rw [htail, hstreak]
    rfl
  · have htail : streakTail streak = 's' :: digits streak := if_neg hstreak
    have hall : (digits streak != [] && (digits streak).all Char.isDigit) = true := by
      rw [Bool.and_eq_true]
      exact ⟨bne_iff_ne.mpr Nat.toDigits_ne_nil, all_eq_true.mpr fun c hc => Text.digit_of_mem hc⟩
    rw [htail, Text.search_here (a := digits streak)]
    · show (if Nat.ofDigitChars 10 (digits streak) 0 < 2 ^ 31 then _ else none) = _
      rw [digits, Nat.ofDigitChars_ten_toDigits]
    · exact if_pos hall

theorem live_rank_marker (hversion : IsVersion version) (hweek : IsWrittenWeek week) :
    liveRank version week (some (marker week version attempts state streak)) = state.rank := by
  have hcut : Text.cutFirst ':' (marker week version attempts state streak) =
      some (version, state.text ++ (digits attempts ++ 'w' :: (digits week ++ streakTail streak))) := by
    rw [marker_eq]
    exact Text.cut_first_append fun hmem => (hex_ne (hversion _ hmem)).1 rfl
  unfold liveRank
  simp only [hcut, map_some, getD_some, live_state_marker hversion, live_week_marker hversion hweek]
  rw [if_pos ⟨trivial, Or.inr trivial⟩]

theorem marker_state_marker (U : Unicode) (hversion : IsVersion version)
    (hweek : IsWrittenWeek week) (hattempts : (digits attempts).length ≤ Text.maxIntDigits)
    (hstreak : (digits streak).length ≤ Text.maxIntDigits) :
    ∃ read : IsoWeek → MarkerReading,
      markerState U (some (marker week version attempts state streak)) version = (do
        let now ← issue .isoWeek
        pure (some (read now))) ∧
      read week = ⟨version, attempts, state != .pend, streak⟩ := by
  have hgroup : groupValue U (streakGroup streak) = some streak := by
    unfold streakGroup
    split
    · rename_i hzero
      rw [hzero]
      rfl
    · exact Text.magnitude_digits U hstreak
  refine ⟨MarkerMatch.read ⟨version, state, digits attempts, digits week, streakGroup streak⟩ version
    attempts streak, ?_, ?_⟩
  · unfold markerState
    simp only [getD_some, search_marker U hversion hweek, hgroup]
    rw [show magnitude U (digits attempts) = some attempts from Text.magnitude_digits U hattempts]
  · cases state <;> simp [MarkerMatch.read]

end Parts

/-! ## The merge as a maximum -/

/-- Where a marker stands: the rank of its state, and the streak among equal ranks. -/
abbrev Standing := ℤ ×ₗ ℕ

def standing (state : MarkerState) (streak : Nat) : Standing :=
  toLex (state.rank, streak)

/-- The standing of the stored marker for a version and a week. A marker that does not count is
below every proposal. -/
def liveStanding (version : List Char) (week : IsoWeek) (stored : Option (List Char)) : Standing :=
  toLex (liveRank version week stored, ((stored.map liveStreak).getD (some 0)).getD 0)

def LiveMarker.standing (proposal : LiveMarker) : Standing :=
  Datasource.standing proposal.state proposal.streak

section Merge

variable {version : List Char} {week : IsoWeek}

/-- The maximum of two standings: the higher rank with its streak, and on a tie the larger
streak. -/
theorem max_standing (r r' : ℤ) (n n' : ℕ) : max (toLex (r, n)) (toLex (r', n')) =
      if r > r' then toLex (r, n) else if r < r' then toLex (r', n') else toLex (r', max n n') := by
  rcases lt_trichotomy r r' with h | h | h
  · rw [if_neg (not_lt.mpr h.le), if_pos h]
    exact max_eq_right (Prod.Lex.toLex_le_toLex.mpr (Or.inl h))
  · subst h
    rw [if_neg (lt_irrefl r), if_neg (lt_irrefl r)]
    rcases le_total n n' with hn | hn
    · rw [max_eq_right hn]
      exact max_eq_right (Prod.Lex.toLex_le_toLex.mpr (Or.inr ⟨rfl, hn⟩))
    · rw [max_eq_left hn]
      exact max_eq_left (Prod.Lex.toLex_le_toLex.mpr (Or.inr ⟨rfl, hn⟩))
  · rw [if_pos h]
    exact max_eq_left (Prod.Lex.toLex_le_toLex.mpr (Or.inl h))

theorem live_rank_cases (version : List Char) (week : IsoWeek) (stored : Option (List Char)) :
    liveRank version week stored = -1 ∨
      ∃ state : MarkerState, liveRank version week stored = state.rank := by
  unfold liveRank
  split
  · exact Or.inl rfl
  · rename_i budget
    dsimp only
    split
    · cases liveState budget with
      | none => exact Or.inl rfl
      | some state => exact Or.inr ⟨state, rfl⟩
    · exact Or.inl rfl

def LiveMarker.mergedState (proposal : LiveMarker) (stored : Option (List Char)) : MarkerState :=
  let rank := max proposal.state.rank (liveRank proposal.version proposal.week stored)
  if rank = 2 then .conc else if rank = 1 then .done else .pend

theorem merged_state_rank (proposal : LiveMarker) (stored : Option (List Char)) :
    (proposal.mergedState stored).rank =
      max proposal.state.rank (liveRank proposal.version proposal.week stored) := by
  unfold LiveMarker.mergedState
  rcases live_rank_cases proposal.version proposal.week stored with hlive | ⟨state, hlive⟩
  · rw [hlive]
    cases proposal.state <;> rfl
  · rw [hlive]
    cases proposal.state <;> cases state <;> rfl

variable {stored : Option (List Char)}

/-- The streak that the statement stores goes with the maximum. A stored streak that cannot be cast
is not looked at where the statement succeeds. -/
theorem merged_streak_max {live rank : ℤ} {streak merged n : Nat}
    (hn : ∀ m, (stored.map liveStreak).getD (some 0) = some m → m = n)
    (h : mergedStreak live rank stored streak = some merged) :
    toLex (max rank live, merged) = max (toLex (live, n)) (toLex (rank, streak)) := by
  rw [max_standing]
  unfold mergedStreak at h
  dsimp only at h
  split at h
  · rename_i hgt
    rw [if_pos hgt, hn merged h, max_eq_right (le_of_lt hgt)]
  · rename_i hgt
    rw [if_neg hgt]
    split at h
    · rename_i hlt
      cases h
      rw [if_pos hlt, max_eq_left (le_of_lt hlt)]
    · rename_i hlt
      obtain ⟨storedStreak, hstored, rfl⟩ := map_eq_some_iff.mp h
      have heq : live = rank := le_antisymm (not_lt.mp hgt) (not_lt.mp hlt)
      rw [if_neg hlt, hn storedStreak hstored, heq, max_self]

theorem merge_max {proposal : LiveMarker} {charge n : Nat} {text : List Char}
    (hn : ∀ m, (stored.map liveStreak).getD (some 0) = some m → m = n)
    (h : proposal.merge stored charge = some text) :
    ∃ state streak,
      text = marker proposal.week proposal.version (max charge proposal.floor) state streak ∧
      standing state streak =
        max (toLex (liveRank proposal.version proposal.week stored, n)) proposal.standing := by
  obtain ⟨streak, hstreak, rfl⟩ := map_eq_some_iff.mp h
  refine ⟨proposal.mergedState stored, streak, rfl, ?_⟩
  show toLex ((proposal.mergedState stored).rank, streak) = _
  rw [merged_state_rank]
  exact merged_streak_max hn hstreak

/-- A stored streak that can be cast is below the bound of its type. -/
theorem live_streak_lt {budget : List Char} {n : Nat} (h : liveStreak budget = some n) :
    n < 2 ^ 31 := by
  unfold liveStreak at h
  dsimp only at h
  split at h
  · cases h
    decide
  · split at h
    · rename_i hlt
      cases h
      exact hlt
    · cases h

theorem merge_succeeds {proposal : LiveMarker} {charge : Nat}
    (h : (stored.map liveStreak).getD (some 0) ≠ none) (hstreak : proposal.streak < 2 ^ 31) :
    ∃ attempts state streak, proposal.merge stored charge =
        some (marker proposal.week proposal.version attempts state streak) ∧ streak < 2 ^ 31 := by
  obtain ⟨n, hn⟩ := ne_none_iff_exists'.mp h
  have hlt : n < 2 ^ 31 := by
    cases stored with
    | none =>
      cases hn
      decide
    | some budget => exact live_streak_lt hn
  have hmerged : ∀ live rank, ∃ merged,
      mergedStreak live rank stored proposal.streak = some merged ∧ merged < 2 ^ 31 := by
    intro live rank
    unfold mergedStreak
    dsimp only
    rw [hn]
    split
    · exact ⟨n, rfl, hlt⟩
    · split
      · exact ⟨_, rfl, hstreak⟩
      · exact ⟨_, rfl, max_lt hlt hstreak⟩
  obtain ⟨merged, hsome, hbound⟩ := hmerged
    (liveRank proposal.version proposal.week stored) proposal.state.rank
  exact ⟨_, _, merged, congrArg (Option.map (marker proposal.week proposal.version
    (max charge proposal.floor) (proposal.mergedState stored))) hsome, hbound⟩

end Merge

theorem standing_inj {state state' : MarkerState} {streak streak' : Nat}
    (h : standing state streak = standing state' streak') : state = state' ∧ streak = streak' := by
  have hpair := Prod.mk.inj (toLex.injective h)
  refine ⟨?_, hpair.2⟩
  have hrank := hpair.1
  cases state <;> cases state' <;> first | rfl | cases hrank

theorem marker_attempts_inj {version : List Char} {week : IsoWeek} {state : MarkerState}
    {attempts attempts' streak : Nat}
    (h : marker week version attempts state streak = marker week version attempts' state streak) :
    attempts = attempts' := by
  rw [marker_eq, marker_eq] at h
  have hrest := append_cancel_left (List.cons.inj (append_cancel_left h)).2
  exact digits_inj (append_cancel_right hrest)

/-! ## Two writers -/

/-- The marker string that the worker passes along with its proposal. -/
def LiveMarker.text (proposal : LiveMarker) : List Char :=
  marker proposal.week proposal.version proposal.floor proposal.state proposal.streak

/-- `write_diag_signal_budget` with a live marker: the row afterwards, unless a cast raises. -/
def LiveMarker.write (proposal : LiveMarker) (row : Option BudgetRow) : Option (Option BudgetRow) :=
  (writtenMarker row proposal.text (some proposal)).map fun text =>
    (BudgetWrite.store text proposal.version).apply row

/-- The marker of the row after two writes, one after the other. -/
def storedAfter (row : Option BudgetRow) (first second : LiveMarker) : Option (List Char) := do
  let between ← first.write row
  let after ← second.write between
  after.bind budget

/-- The standing of the marker in the bookkeeping row. -/
def rowStanding (version : List Char) (week : IsoWeek) (row : Option BudgetRow) : Standing :=
  liveStanding version week (row.bind budget)

/-- The stored streak can be cast, where there is one. -/
def Castable (row : Option BudgetRow) : Prop :=
  ((row.bind budget).map liveStreak).getD (some 0) ≠ none

/-- Castability can be checked. -/
instance (row : Option BudgetRow) : Decidable (Castable row) :=
  inferInstanceAs (Decidable (_ ≠ none))

section Writers

variable {version : List Char} {week : IsoWeek} {row after : Option BudgetRow}

/-- What one write leaves: a marker of its version and week, at the maximum of the two standings,
with the larger one of the counter and the floor, and the counter as it was. -/
structure Written (proposal : LiveMarker) (row after : Option BudgetRow) (old : Standing) : Prop where
  marker : ∃ state streak,
    after.bind budget = some (marker proposal.week proposal.version
      (max (charge row proposal.week) proposal.floor) state streak) ∧
    standing state streak = max old proposal.standing
  charge : charge after proposal.week = charge row proposal.week

theorem max_no_marker (proposal : LiveMarker) (n : Nat) :
    max (toLex (-1, n)) proposal.standing = proposal.standing := by
  refine max_eq_right (Prod.Lex.toLex_le_toLex.mpr (Or.inl ?_))
  show (-1 : ℤ) < proposal.state.rank
  cases proposal.state <;> decide

theorem write_written {proposal : LiveMarker} {n : Nat}
    (hn : ∀ m, ((row.bind budget).map liveStreak).getD (some 0) = some m → m = n)
    (h : proposal.write row = some after) :
    Written proposal row after
      (toLex (liveRank proposal.version proposal.week (row.bind budget), n)) := by
  obtain ⟨text, htext, rfl⟩ := map_eq_some_iff.mp h
  cases row with
  | none =>
    cases htext
    refine ⟨⟨proposal.state, proposal.streak, ?_, (max_no_marker proposal n).symm⟩, rfl⟩
    show some (marker _ _ _ _ _) = some (marker _ _ (max 0 proposal.floor) _ _)
    rw [Nat.zero_max]
  | some row =>
    obtain ⟨state, streak, rfl, hstanding⟩ := merge_max hn htext
    exact ⟨⟨state, streak, rfl, hstanding⟩, rfl⟩

/-- Two writes of one version and week that both succeed leave the maximum of the row and the two
proposals, with the counter or the floor of the second. -/
theorem stored_after_max {first second : LiveMarker} {text : List Char}
    (hversion : IsVersion version) (hweek : IsWrittenWeek week)
    (hfirst : first.version = version ∧ first.week = week)
    (hsecond : second.version = version ∧ second.week = week)
    (h : storedAfter row first second = some text) :
    ∃ state streak, text = marker week version (max (charge row week) second.floor) state streak ∧
      standing state streak =
        max (rowStanding version week row) (max first.standing second.standing) := by
  obtain ⟨between, hbetween, h⟩ := bind_eq_some_iff.mp h
  obtain ⟨after, hafter, htext⟩ := bind_eq_some_iff.mp h
  obtain ⟨⟨state, streak, hmarker, hstanding⟩, hcharge⟩ := write_written
    (n := (((row.bind budget).map liveStreak).getD (some 0)).getD 0)
    (fun m hm => by rw [hm]; rfl) hbetween
  rw [hfirst.1, hfirst.2] at hmarker
  rw [hfirst.2] at hcharge
  rw [hfirst.1, hfirst.2] at hstanding
  obtain ⟨⟨state', streak', hmarker', hstanding'⟩, -⟩ := write_written (n := streak)
    (fun m hm => by
      rw [hmarker, map_some, getD_some, live_streak_marker hversion] at hm
      split at hm
      · exact (Option.some.inj hm).symm
      · cases hm) hafter
  rw [hsecond.1, hsecond.2] at hmarker' hstanding'
  refine ⟨state', streak', ?_, ?_⟩
  · rw [hmarker', hcharge] at htext
    exact (Option.some.inj htext).symm
  · rw [hstanding', hmarker, live_rank_marker hversion hweek, ← max_assoc]
    exact congrArg (max · second.standing) hstanding

theorem write_succeeds {proposal : LiveMarker} (hversion : IsVersion proposal.version)
    (hrow : Castable row) (hstreak : proposal.streak < 2 ^ 31) :
    ∃ after, proposal.write row = some (some after) ∧ Castable (some after) := by
  have hcast : ∀ (attempts streak : Nat) (state : MarkerState) (row : BudgetRow), streak < 2 ^ 31 →
      row.budget = some (marker proposal.week proposal.version attempts state streak) →
      Castable (some row) := by
    intro attempts streak state row hlt hbudget
    show ((row.budget).map liveStreak).getD (some 0) ≠ none
    rw [hbudget, map_some, getD_some, live_streak_marker hversion, if_pos hlt]
    exact some_ne_none streak
  cases row with
  | none => exact ⟨_, rfl, hcast _ _ _ _ hstreak rfl⟩
  | some row =>
    obtain ⟨attempts, state, streak, hmerge, hlt⟩ : ∃ attempts state streak,
          proposal.merge row.budget (row.charge proposal.week) =
            some (marker proposal.week proposal.version attempts state streak) ∧
          streak < 2 ^ 31 :=
      merge_succeeds hrow hstreak
    refine ⟨{ row with
      budget := some (marker proposal.week proposal.version attempts state streak)
      schemaVersion := proposal.version }, ?_, hcast attempts streak state _ hlt rfl⟩
    show (proposal.merge row.budget (row.charge proposal.week)).map _ = _
    rw [hmerge]
    rfl

theorem stored_after_succeeds {first second : LiveMarker} (hfirst : IsVersion first.version)
    (hsecond : IsVersion second.version) (hrow : Castable row) (hfirstStreak : first.streak < 2 ^ 31)
    (hsecondStreak : second.streak < 2 ^ 31) : ∃ text, storedAfter row first second = some text := by
  obtain ⟨between, hbetween, hcast⟩ := write_succeeds hfirst hrow hfirstStreak
  obtain ⟨after, hafter⟩ : ∃ after, second.write (some between) = some (some after) :=
    (write_succeeds hsecond hcast hsecondStreak).imp fun _ h => h.1
  obtain ⟨text, -, htext⟩ := map_eq_some_iff.mp hafter
  refine ⟨text, ?_⟩
  unfold storedAfter
  rw [hbetween, bind_eq_bind, bind_some, hafter]
  show after.budget = some text
  cases Option.some.inj htext
  rfl

end Writers

/-! ## The law of the marker -/

section Convergence

variable {version : List Char} {week : IsoWeek} {row after : Option BudgetRow}

/-- The row after the proposals are written, one after the other, unless a cast raises. -/
def storedRow (row : Option BudgetRow) (proposals : List LiveMarker) : Option (Option BudgetRow) :=
  proposals.foldlM (fun row proposal => proposal.write row) row

/-- What is asked of the proposals: they are of one version and week, and their streaks fit. -/
def Rivals (version : List Char) (week : IsoWeek) (proposals : List LiveMarker) : Prop :=
  ∀ p ∈ proposals, p.version = version ∧ p.week = week ∧ p.streak < 2 ^ 31

theorem written_standing {p : LiveMarker} (hversion : IsVersion version)
    (hweek : IsWrittenWeek week) (hp : p.version = version) (hpWeek : p.week = week)
    (h : p.write row = some after) (hcast : Castable after) :
    rowStanding version week after = max (rowStanding version week row) p.standing ∧
      charge after week = charge row week := by
  obtain ⟨⟨state, streak, hmarker, hstanding⟩, hcharge⟩ := write_written
    (n := (((row.bind budget).map liveStreak).getD (some 0)).getD 0)
    (fun m hm => by rw [hm]; rfl) h
  rw [hp, hpWeek] at hmarker hstanding
  rw [hpWeek] at hcharge
  refine ⟨?_, hcharge⟩
  rw [Castable, hmarker, map_some, getD_some, live_streak_marker hversion] at hcast
  have hstreak : streak < 2 ^ 31 := by
    by_contra hlarge
    exact hcast (if_neg hlarge)
  rw [rowStanding, hmarker, liveStanding, live_rank_marker hversion hweek, map_some, getD_some,
    live_streak_marker hversion, if_pos hstreak]
  exact hstanding

theorem stored_row_spec {ps : List LiveMarker} (hversion : IsVersion version)
    (hweek : IsWrittenWeek week) (hrow : Castable row) (hps : Rivals version week ps) :
    ∃ after, storedRow row ps = some after ∧ charge after week = charge row week ∧
      rowStanding version week after =
        ps.foldl (fun s p => max s p.standing) (rowStanding version week row) := by
  induction ps generalizing row with
  | nil => exact ⟨row, rfl, rfl, rfl⟩
  | cons p rest ih =>
    obtain ⟨hp, hpWeek, hstreak⟩ := hps p mem_cons_self
    obtain ⟨between, hbetween, hcast⟩ := write_succeeds (hp.symm ▸ hversion) hrow hstreak
    obtain ⟨hmax, hcharge⟩ := written_standing hversion hweek hp hpWeek hbetween hcast
    obtain ⟨after, hafter, hcharge', hmax'⟩ := ih hcast fun q hq => hps q (mem_cons_of_mem _ hq)
    refine ⟨after, ?_, hcharge'.trans hcharge, ?_⟩
    · rw [storedRow, foldlM_cons, hbetween]
      exact hafter
    · rw [hmax', hmax]
      rfl

/-- Any number of workers that propose markers of one version and week over one row all store them,
and leave the same state and streak in every order: the greatest standing among theirs and that of
the row. No order touches the counter of started attempts. -/
theorem budget_markers_converge (hversion : IsVersion version) (hweek : IsWrittenWeek week)
    (hrow : Castable row) {ps qs : List LiveMarker} (hperm : ps.Perm qs)
    (hps : Rivals version week ps) :
    ∃ a b, storedRow row ps = some a ∧ storedRow row qs = some b ∧
      rowStanding version week a = rowStanding version week b ∧
      rowStanding version week a =
        ps.foldl (fun s p => max s p.standing) (rowStanding version week row) ∧
      charge a week = charge row week ∧ charge b week = charge row week := by
  obtain ⟨a, ha, hcharge, hmax⟩ := stored_row_spec hversion hweek hrow hps
  obtain ⟨b, hb, hcharge', hmax'⟩ := stored_row_spec hversion hweek hrow
    fun q hq => hps q (hperm.mem_iff.mpr hq)
  -- both orders take the maximum of the same standings
  have horder := hperm.foldl_eq' (f := fun (s : Standing) (p : LiveMarker) => max s p.standing)
    (fun p _ q _ s => by rw [max_assoc, max_comm p.standing, ← max_assoc])
  exact ⟨a, b, ha, hb, by rw [hmax, hmax', horder], hmax, hcharge, hcharge'⟩

/-- Two workers of one version and week, in two orders. -/
theorem budget_markers_converge_two :
    let version := "9f86d081884c7d65".toList
    let one : LiveMarker := ⟨version, .pend, 0, 202617, 1⟩
    let two : LiveMarker := ⟨version, .done, 2, 202617, 3⟩
    ∃ a b, storedRow none [one, two] = some a ∧ storedRow none [two, one] = some b ∧
      rowStanding version 202617 a = rowStanding version 202617 b ∧
      rowStanding version 202617 a =
        [one, two].foldl (fun s p => max s p.standing) (rowStanding version 202617 none) ∧
      charge a 202617 = charge none 202617 ∧ charge b 202617 = charge none 202617 := by
  refine budget_markers_converge (by decide) (by decide) (by decide) (Perm.swap ..) ?_
  exact forall_mem_cons.mpr ⟨by decide, forall_mem_singleton.mpr (by decide)⟩

end Convergence

end AwsOps.Datasource
