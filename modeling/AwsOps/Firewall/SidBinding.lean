import AwsOps.Firewall.StatefulSids
import AwsOps.Foundation.Splits

/-!
# Which sid is bound to which rule

What `parseStatefulSids` finds in a rule is what the options of the rule show, one after the other, when
each of them is blanked by itself (`of_line_rule`). So the entries are those of the rules exactly when
the options show what they say.
-/

namespace AwsOps.Firewall

open List Scans Entries
open Text (isTrimmed split stripBy)
open Tokens (doubleQuote backslash)

/-! ## What an option shows -/

/-- The value with its literal blanked. -/
def Value.scan : Value → List Char
  | .quoted negated _ _ => (if negated then ['!'] else []) ++ [doubleQuote, doubleQuote]
  | .unquoted text _ => text

namespace RuleOption

variable (o : RuleOption)

def scanTail : Option (Gap × Gap × Value) → List Char
  | none => []
  | some (left, right, value) => left.text ++ ':' :: right.text ++ value.scan

/-- The option with its literal blanked, but for the semicolon. -/
def scanCore : List Char :=
  o.before.text ++ o.keyword.text ++ scanTail o.value ++ o.after.text

/-- The option with its literal blanked. -/
def scan : List Char :=
  o.scanCore ++ [';']

/-- The text between the quotation marks. -/
def literal : Option (List Char) :=
  match o.value with
  | some (_, _, .quoted _ text _) => some text
  | _ => none

/-- The value has quotation marks around it, or none in it. -/
def unmixed : Bool :=
  match o.value with
  | some (_, _, .unquoted text _) => !text.contains doubleQuote
  | _ => true

def showsSid : Option (List Char) :=
  sidIn o.scan

def showsNoalert : Bool :=
  noalertIn o.scan

def showsMsg : Option (List Char) :=
  (search isWordChar msgPattern none o.scan).bind fun _ => o.literal

end RuleOption

/-- No unquoted value of the rule holds a quotation mark. -/
def Rule.unmixed (r : Rule) : Bool :=
  r.options.all RuleOption.unmixed

/-- The options of the rule show what they say: the first one that shows a sid shows the sid of the
rule, and so it is with the message and the alert flag; and the action is one that is told apart. -/
structure Legible (r : Rule) : Prop where
  sid : r.options.findSome? RuleOption.showsSid = r.sid
  rest : r.sid.isSome = true → r.options.findSome? RuleOption.showsMsg = r.msg ∧
    r.action.text.map Char.toLower ∈ knownActions ∧
    r.options.any RuleOption.showsNoalert = r.noalert

/-! ## Characters -/

theorem Gap.blank_of_mem {gap : Gap} (h : gap.oneLine = true) {c : Char} (hc : c ∈ gap.text) :
    isBlank c = true := by
  obtain ⟨s, hs, hc⟩ := mem_flatMap.mp hc
  have hblank := all_eq_true.mp h s hs
  cases s with
  | continued => cases hblank
  | blank b =>
    rw [mem_singleton.mp hc]
    cases b <;> rfl

variable {x : Char} {text : List Char}

theorem Gap.not_mem {gap : Gap} (h : gap.oneLine = true) (hx : isBlank x = false) :
    x ∉ gap.text := by
  intro hmem
  rw [gap.blank_of_mem h hmem] at hx
  cases hx

theorem Keyword.not_mem (keyword : Keyword) (hx : isKeywordChar x = false) : x ∉ keyword.text := by
  intro hmem
  rw [all_eq_true.mp keyword.plain x hmem] at hx
  cases hx

theorem Action.not_mem (action : Action) (hx : x.isAlpha = false) : x ∉ action.text := by
  intro hmem
  rw [all_eq_true.mp action.letters x hmem] at hx
  cases hx

/-- A character that cannot stand in front of the options of a rule. -/
def isOutside (x : Char) : Bool :=
  !x.isAlpha && !isBlank x && !isHeaderChar x

theorem Rule.not_mem_front {r : Rule} (h : r.oneLine = true) (hx : isOutside x = true) :
    x ∉ r.front := by
  simp only [Rule.oneLine, Bool.and_eq_true, all_eq_true, bne_iff_ne, ne_eq] at h
  simp only [isOutside, Bool.and_eq_true, Bool.not_eq_true'] at hx
  obtain ⟨⟨⟨⟨⟨-, hheader⟩, hparen⟩, -⟩, -⟩, -⟩ := h
  obtain ⟨⟨halpha, hblank⟩, hword⟩ := hx
  unfold Rule.front
  rw [mem_append, mem_append, mem_flatMap]
  rintro ((haction | ⟨w, hw, hmem⟩) | hgap)
  · exact r.action.not_mem halpha haction
  · obtain ⟨hspace, hmore⟩ := hheader w hw
    unfold HeaderWord.written at hmem
    rw [mem_append, mem_append] at hmem
    obtain (hmem | hmem) | hmem := hmem
    · have hone : Gap.oneLine [w.space] = true := by simp [Gap.oneLine, hspace]
      exact Gap.not_mem hone hblank (by simpa [Gap.text] using hmem)
    · exact Gap.not_mem hmore hblank hmem
    · rw [all_eq_true.mp w.plain x hmem] at hword
      cases hword
  · exact Gap.not_mem hparen hblank hgap

/-! ## Pieces -/

theorem pieces_skip (skipped rest : List Char) :
    pieces skipped.length (skipped ++ rest) = pieces 0 rest := by
  induction skipped with
  | nil => rfl
  | cons c skipped ih => exact ih

theorem pieces_plain {a : List Char} (h : doubleQuote ∉ a) (rest : List Char) :
    pieces 0 (a ++ rest) = a.map Piece.char ++ pieces 0 rest := by
  induction a with
  | nil => rfl
  | cons c a ih =>
    rw [mem_cons, not_or] at h
    rw [cons_append, pieces, if_neg (by simpa using Ne.symm h.1), ih h.2]
    rfl

theorem literal_body_quotable (h : isQuotable text = true) (rest : List Char) :
    literalBody (text ++ doubleQuote :: rest) = some text := by
  fun_induction isQuotable text with
  | case1 => cases rest <;> rfl
  | case2 c =>
    simp only [Bool.and_eq_true, bne_iff_ne, ne_eq] at h
    obtain ⟨⟨hquote, hslash⟩, -⟩ := h
    show literalBody (c :: doubleQuote :: rest) = _
    have hend : literalBody (doubleQuote :: rest) = some [] := by cases rest <;> rfl
    rw [literalBody, if_neg (by simpa using hquote), if_neg (by simpa using hslash), hend]
    rfl
  | case3 c d text hslash ih =>
    simp only [Bool.and_eq_true, Bool.not_eq_true'] at h
    obtain rfl := eq_of_beq hslash
    rw [cons_append, cons_append, literalBody, if_neg (by decide), if_pos (by decide),
      h.1, if_neg Bool.false_ne_true, ih h.2]
    rfl
  | case4 c d text hslash ih =>
    simp only [Bool.and_eq_true, bne_iff_ne, ne_eq] at h
    rw [cons_append, cons_append, literalBody, if_neg (by simpa using h.1.1),
      if_neg hslash, ← cons_append, ih h.2]
    rfl

theorem pieces_literal (h : isQuotable text = true) (rest : List Char) :
    pieces 0 (doubleQuote :: text ++ doubleQuote :: rest) = .literal text :: pieces 0 rest := by
  have hskip := pieces_skip (text ++ [doubleQuote]) rest
  rw [length_append, length_singleton, append_assoc] at hskip
  rw [cons_append, pieces, if_pos (by decide), literal_body_quotable h]
  exact congrArg _ hskip

/-! ## The blanked line -/

theorem scan_plain {a : List Char} (h : doubleQuote ∉ a) (rest : List Char) :
    scanOf (pieces 0 (a ++ rest)) = a ++ scanOf (pieces 0 rest) ∧
      literalsInOrder (pieces 0 (a ++ rest)) = literalsInOrder (pieces 0 rest) := by
  rw [pieces_plain h, scanOf, literalsInOrder, flatMap_append, filterMap_append]
  have hscan : (a.map Piece.char).flatMap Piece.scan = a := by
    rw [flatMap_map]
    exact flatMap_singleton' a
  have hbody : (a.map Piece.char).filterMap Piece.body = [] := by
    rw [filterMap_map]
    exact filterMap_eq_nil_iff.mpr fun _ _ => rfl
  rw [hscan, hbody]
  exact ⟨rfl, rfl⟩

theorem RuleOption.gaps_of_oneLine {o : RuleOption} (h : o.oneLine = true)
    (hx : isBlank x = false) : x ∉ o.before.text ∧ x ∉ o.after.text ∧
      ∀ left right value, o.value = some (left, right, value) → x ∉ left.text ∧ x ∉ right.text := by
  simp only [RuleOption.oneLine, Bool.and_eq_true] at h
  refine ⟨Gap.not_mem h.1.1 hx, Gap.not_mem h.2 hx, fun left right value hvalue => ?_⟩
  rw [hvalue] at h
  have hgaps : left.oneLine = true ∧ right.oneLine = true := by simpa using h.1.2
  exact ⟨Gap.not_mem hgaps.1 hx, Gap.not_mem hgaps.2 hx⟩

theorem scan_option {o : RuleOption} (hline : o.oneLine = true) (hunmixed : o.unmixed = true)
    (rest : List Char) : scanOf (pieces 0 (o.text ++ rest)) = o.scan ++ scanOf (pieces 0 rest) ∧
      literalsInOrder (pieces 0 (o.text ++ rest)) =
        o.literal.toList ++ literalsInOrder (pieces 0 rest) := by
  obtain ⟨hbefore, hafter, hgaps⟩ := RuleOption.gaps_of_oneLine hline (x := doubleQuote) (by decide)
  have hkeyword : doubleQuote ∉ o.keyword.text := o.keyword.not_mem (by decide)
  unfold RuleOption.text RuleOption.scan RuleOption.scanCore RuleOption.literal
  unfold RuleOption.unmixed at hunmixed
  match hvalue : o.value with
  | none =>
    have hall : doubleQuote ∉ o.before.text ++ o.keyword.text ++ [] ++ o.after.text ++ [';'] := by
      simp [hbefore, hkeyword, hafter, show doubleQuote ≠ ';' by decide]
    simpa [RuleOption.tail, RuleOption.scanTail] using scan_plain hall rest
  | some (left, right, .unquoted text hunquoted) =>
    obtain ⟨hleft, hright⟩ := hgaps left right _ hvalue
    have htext : doubleQuote ∉ text := by
      rw [hvalue] at hunmixed
      simpa using hunmixed
    have hall : doubleQuote ∉ o.before.text ++ o.keyword.text ++
        (left.text ++ ':' :: right.text ++ text) ++ o.after.text ++ [';'] := by
      simp [hbefore, hkeyword, hafter, hleft, hright, htext, show doubleQuote ≠ ';' by decide,
        show doubleQuote ≠ ':' by decide]
    exact scan_plain hall rest
  | some (left, right, .quoted negated text hquotable) =>
    obtain ⟨hleft, hright⟩ := hgaps left right _ hvalue
    have hneg : doubleQuote ∉ (if negated then ['!'] else []) := by
      cases negated <;> decide
    have hfront : doubleQuote ∉ o.before.text ++ o.keyword.text ++
        (left.text ++ ':' :: right.text ++ (if negated then ['!'] else [])) := by
      simp only [mem_append, mem_cons, not_or]
      exact ⟨⟨hbefore, hkeyword⟩, ⟨hleft, by decide, hright⟩, hneg⟩
    have hback : doubleQuote ∉ o.after.text ++ [';'] := by
      simp [hafter, show doubleQuote ≠ ';' by decide]
    have hsplit : o.before.text ++ o.keyword.text ++
        RuleOption.tail (some (left, right, .quoted negated text hquotable)) ++ o.after.text ++
          [';'] ++ rest =
        (o.before.text ++ o.keyword.text ++
          (left.text ++ ':' :: right.text ++ (if negated then ['!'] else []))) ++
        (doubleQuote :: text ++ doubleQuote :: ((o.after.text ++ [';']) ++ rest)) := by
      simp [RuleOption.tail, Value.setting]
    have hscan := scan_plain hfront
      (doubleQuote :: text ++ doubleQuote :: ((o.after.text ++ [';']) ++ rest))
    rw [pieces_literal hquotable] at hscan
    have hrest := scan_plain hback rest
    rw [hsplit]
    refine ⟨?_, ?_⟩
    · rw [hscan.1]
      show _ ++ ([doubleQuote, doubleQuote] ++ scanOf (pieces 0 _)) = _
      rw [hrest.1]
      simp [RuleOption.scanTail, Value.scan]
    · rw [hscan.2]
      show text :: literalsInOrder (pieces 0 _) = _
      rw [hrest.2]
      rfl

theorem scan_options {options : List RuleOption} (hline : options.all RuleOption.oneLine = true)
    (hunmixed : options.all RuleOption.unmixed = true) {closing : List Char}
    (hclosing : doubleQuote ∉ closing) :
    scanOf (pieces 0 (options.flatMap RuleOption.text ++ closing)) =
        options.flatMap RuleOption.scan ++ closing ∧
      literalsInOrder (pieces 0 (options.flatMap RuleOption.text ++ closing)) =
        options.filterMap RuleOption.literal := by
  induction options with
  | nil =>
    have hplain := scan_plain hclosing []
    rw [append_nil] at hplain
    refine ⟨?_, ?_⟩
    · rw [flatMap_nil, nil_append, hplain.1]
      exact append_nil closing
    · rw [flatMap_nil, nil_append, hplain.2]
      rfl
  | cons o options ih =>
    rw [all_cons, Bool.and_eq_true] at hline hunmixed
    have hone := scan_option hline.1 hunmixed.1 (options.flatMap RuleOption.text ++ closing)
    obtain ⟨hscan, hliterals⟩ := ih hline.2 hunmixed.2
    rw [flatMap_cons, append_assoc]
    refine ⟨?_, ?_⟩
    · rw [hone.1, hscan, flatMap_cons, append_assoc]
    · rw [hone.2, hliterals]
      cases hliteral : o.literal <;> simp [hliteral]

/-! ## The searches -/

/-- The first of the options in which the pattern is found, with the text before the match. -/
def firstShown (p : Pattern) : List RuleOption → Option (List Char × List Char)
  | [] => none
  | o :: more => (search isWordChar p none o.scan).or
      ((firstShown p more).map fun (front, taken) => (o.scan ++ front, taken))

variable {p : Pattern}

theorem search_options (hstop : p.Stops ';') {closing : List Char} (hclosing : p.mark ∉ closing)
    {before : Option Char} (hbefore : before.any isWordChar = false) (options : List RuleOption) :
    search isWordChar p before (options.flatMap RuleOption.scan ++ closing) =
      firstShown p options := by
  induction options generalizing before with
  | nil => exact search_of_no_mark hclosing
  | cons o options ih =>
    have hsplit : (o :: options).flatMap RuleOption.scan ++ closing =
        o.scanCore ++ ';' :: (options.flatMap RuleOption.scan ++ closing) := by
      simp [RuleOption.scan]
    have hsome : (some ';').any isWordChar = false := by decide
    have hnone : before.any isWordChar = none.any isWordChar := by rw [hbefore]; rfl
    rw [hsplit, search_cut hstop, ih hsome, search_before hnone, firstShown]
    unfold RuleOption.scan
    simp

theorem search_front (hstop : p.Stops ';') (hopen : p.Stops '(') {front closing : List Char}
    (hfront : p.mark ∉ front ++ ['(']) (hclosing : p.mark ∉ closing) (options : List RuleOption) :
    search isWordChar p none (front ++ '(' :: (options.flatMap RuleOption.scan ++ closing)) =
      (firstShown p options).map fun (more, taken) => (front ++ '(' :: more, taken) := by
  have hsome : (some '(').any isWordChar = false := by decide
  rw [search_cut hopen, search_of_no_mark hfront, search_options hstop hclosing hsome]
  rfl

theorem first_shown_taken {α : Type} (f : List Char → α) (options : List RuleOption) :
    ((firstShown p options).map fun (_, taken) => f taken) = options.findSome? fun o =>
      (search isWordChar p none o.scan).map fun (_, taken) => f taken := by
  induction options with
  | nil => rfl
  | cons o options ih =>
    rw [firstShown, List.findSome?_cons, ← ih]
    cases search isWordChar p none o.scan with
    | some r => rfl
    | none => cases firstShown p options <;> rfl

/-! ## The message -/

theorem count_pairs_plain {a : List Char} (h : doubleQuote ∉ a) (b : List Char) :
    countPairs (a ++ b) = countPairs b := by
  induction a with
  | nil => rfl
  | cons c a ih =>
    rw [mem_cons, not_or] at h
    rw [← ih h.2, cons_append]
    cases hrest : a ++ b with
    | nil => rfl
    | cons d rest =>
      have hc : (c == doubleQuote) = false := beq_eq_false_iff_ne.mpr (Ne.symm h.1)
      rw [countPairs, hc, Bool.false_and, if_neg Bool.false_ne_true]

variable {o : RuleOption} {c : Char} {r : Rule}

theorem count_pairs_option (hline : o.oneLine = true) (hunmixed : o.unmixed = true)
    (rest : List Char) :
    countPairs (o.scan ++ rest) = o.literal.toList.length + countPairs rest ∧
      (o.literal = none → doubleQuote ∉ o.scan) ∧
      (∀ text, o.literal = some text → ∃ a b, o.scan = a ++ doubleQuote :: doubleQuote :: b ∧
        doubleQuote ∉ a ∧ doubleQuote ∉ b) := by
  obtain ⟨hbefore, hafter, hgaps⟩ := RuleOption.gaps_of_oneLine hline (x := doubleQuote) (by decide)
  have hkeyword : doubleQuote ∉ o.keyword.text := o.keyword.not_mem (by decide)
  have hback : doubleQuote ∉ o.after.text ++ [';'] := by
    simp [hafter, show doubleQuote ≠ ';' by decide]
  have hplain : doubleQuote ∉ o.scan → o.literal = none →
      countPairs (o.scan ++ rest) = o.literal.toList.length + countPairs rest ∧
        (o.literal = none → doubleQuote ∉ o.scan) ∧
        (∀ text, o.literal = some text → ∃ a b, o.scan = a ++ doubleQuote :: doubleQuote :: b ∧
          doubleQuote ∉ a ∧ doubleQuote ∉ b) := by
    intro hscan hliteral
    rw [hliteral, count_pairs_plain hscan]
    exact ⟨(Nat.zero_add _).symm, fun _ => hscan, nofun⟩
  unfold RuleOption.unmixed at hunmixed
  match hvalue : o.value with
  | none =>
    refine hplain ?_ (by unfold RuleOption.literal; rw [hvalue])
    unfold RuleOption.scan RuleOption.scanCore
    rw [hvalue, append_assoc]
    simp [RuleOption.scanTail, hbefore, hkeyword, hafter, show doubleQuote ≠ ';' by decide]
  | some (left, right, .unquoted text hunquoted) =>
    obtain ⟨hleft, hright⟩ := hgaps left right _ hvalue
    have htext : doubleQuote ∉ text := by
      rw [hvalue] at hunmixed
      simpa using hunmixed
    refine hplain ?_ (by unfold RuleOption.literal; rw [hvalue])
    unfold RuleOption.scan RuleOption.scanCore
    rw [hvalue]
    simp [RuleOption.scanTail, Value.scan, hbefore, hkeyword, hafter, hleft, hright, htext,
      show doubleQuote ≠ ';' by decide, show doubleQuote ≠ ':' by decide]
  | some (left, right, .quoted negated text hquotable) =>
    obtain ⟨hleft, hright⟩ := hgaps left right _ hvalue
    have hneg : doubleQuote ∉ (if negated then ['!'] else []) := by
      cases negated <;> decide
    have hfront : doubleQuote ∉ o.before.text ++ o.keyword.text ++
        (left.text ++ ':' :: right.text ++ (if negated then ['!'] else [])) := by
      simp only [mem_append, mem_cons, not_or]
      exact ⟨⟨hbefore, hkeyword⟩, ⟨hleft, by decide, hright⟩, hneg⟩
    have hliteral : o.literal = some text := by
      unfold RuleOption.literal
      rw [hvalue]
    have hscan : o.scan = (o.before.text ++ o.keyword.text ++
        (left.text ++ ':' :: right.text ++ (if negated then ['!'] else []))) ++
          doubleQuote :: doubleQuote :: (o.after.text ++ [';']) := by
      unfold RuleOption.scan RuleOption.scanCore
      rw [hvalue]
      simp [RuleOption.scanTail, Value.scan]
    refine ⟨?_, fun hnone => ?_, fun _ _ => ⟨_, _, hscan, hfront, hback⟩⟩
    · rw [hscan, hliteral, append_assoc, count_pairs_plain hfront, cons_append,
        cons_append, countPairs, if_pos (by decide), count_pairs_plain hback]
      exact Nat.add_comm _ _
    · rw [hliteral] at hnone
      cases hnone

theorem count_pairs_match (hquote : p.Stops doubleQuote) (hmark : p.mark = doubleQuote)
    (hline : o.oneLine = true) (hunmixed : o.unmixed = true) {front taken : List Char}
    (h : search isWordChar p none o.scan = some (front, taken)) :
    countPairs (front ++ taken) = 0 ∧ ∃ text, o.literal = some text := by
  obtain ⟨-, hnone, hsome⟩ := count_pairs_option hline hunmixed []
  cases hliteral : o.literal with
  | none =>
    rw [search_of_no_mark (by rw [hmark]; exact hnone hliteral)] at h
    cases h
  | some text =>
    obtain ⟨a, b, hscan, ha, hb⟩ := hsome text hliteral
    have hrest : search isWordChar p (some doubleQuote) (doubleQuote :: b) = none := by
      rw [search, here_at_stop hquote, search_of_no_mark (by rwa [hmark])]
      simp
    rw [hscan, search_cut hquote, hrest, Option.map_none, Option.or_none] at h
    obtain ⟨rest, hsplit⟩ := search_append h
    rw [hmark, ← append_assoc] at hsplit
    -- the match ends at the first quotation mark
    have hbefore : doubleQuote ∉ front ++ taken := by
      intro hmem
      have hlength := congrArg List.length hsplit
      have htake := congrArg (List.take (front ++ taken).length) hsplit
      rw [take_left] at htake
      have hle : (front ++ taken).length ≤ a.length := by
        simp only [length_append, length_cons, length_nil] at hlength ⊢
        omega
      rw [take_append_of_le_length hle] at htake
      rw [← htake] at hmem
      exact ha (mem_of_mem_take hmem)
    have hzero := count_pairs_plain hbefore []
    rw [append_nil] at hzero
    exact ⟨hzero, text, rfl⟩

theorem msg_of_options {options : List RuleOption} (hline : options.all RuleOption.oneLine = true)
    (hunmixed : options.all RuleOption.unmixed = true) :
    ((firstShown msgPattern options).bind fun (front, taken) =>
        (options.filterMap RuleOption.literal)[countPairs (front ++ taken)]?) =
      options.findSome? RuleOption.showsMsg := by
  induction options with
  | nil => rfl
  | cons o options ih =>
    rw [all_cons, Bool.and_eq_true] at hline hunmixed
    rw [firstShown, List.findSome?_cons, ← ih hline.2 hunmixed.2]
    unfold RuleOption.showsMsg
    cases hsearch : search isWordChar msgPattern none o.scan with
    | some r =>
      obtain ⟨front, taken⟩ := r
      obtain ⟨hzero, text, hliteral⟩ :=
        count_pairs_match (by decide) rfl hline.1 hunmixed.1 hsearch
      simp [hzero, hliteral]
    | none =>
      cases hfirst : firstShown msgPattern options with
      | none => rfl
      | some r =>
        obtain ⟨front, taken⟩ := r
        have hcount := (count_pairs_option hline.1 hunmixed.1 (front ++ taken)).1
        simp only [Option.none_or, Option.map_some, Option.bind_some, append_assoc, hcount]
        cases hliteral : o.literal with
        | none => simp [hliteral]
        | some text => simp [hliteral, Nat.add_comm 1]

/-! ## Single options -/

/-! ## The action -/

theorem word_of_lower (h : c.toLower.isAlpha = true) : isWordChar c = true := by
  unfold Char.toLower at h
  split at h
  · next hupper =>
      have halpha : c.isUpper = true := decide_eq_true hupper
      simp [isWordChar, Text.alphanum_iff, halpha]
  · simp [isWordChar, Char.isAlphanum, h]

theorem word_at_start {action rest word : List Char} (h : action.all Char.isAlpha = true)
    (hrest : rest.head?.any isWordChar = false) (hword : word.all Char.isAlpha = true) :
    (((action ++ rest).take word.length).map Char.toLower == word &&
      !((action ++ rest).drop word.length).head?.any isWordChar) =
      (action.map Char.toLower == word) := by
  rw [Bool.eq_iff_iff]
  simp only [Bool.and_eq_true, beq_iff_eq, Bool.not_eq_true']
  constructor
  · rintro ⟨htake, hdrop⟩
    obtain hlt | heq | hgt := Nat.lt_trichotomy action.length word.length
    · -- the word would go on behind the letters
      cases rest with
      | nil =>
        have hlength := congrArg List.length htake
        rw [append_nil, take_of_length_le (by omega), length_map] at hlength
        omega
      | cons c rest =>
        have hin : c.toLower ∈ word := by
          obtain ⟨k, hk⟩ : ∃ k, word.length = action.length + (k + 1) :=
            ⟨word.length - action.length - 1, by omega⟩
          rw [hk, take_length_add_append, take_succ_cons] at htake
          rw [← htake]
          simp
        rw [List.head?_cons, Option.any_some, word_of_lower (all_eq_true.mp hword _ hin)] at hrest
        cases hrest
    · rwa [← heq, take_left] at htake
    · -- a letter would stand behind the word
      rw [drop_append_of_le_length (by omega)] at hdrop
      have hne : action.drop word.length ≠ [] := by
        intro hnil
        have hle := drop_eq_nil_iff.mp hnil
        omega
      obtain ⟨c, more, hcons⟩ := exists_cons_of_ne_nil hne
      have hin : c ∈ action := mem_of_mem_drop (hcons ▸ mem_cons_self)
      have hchar : isWordChar c = true := by
        simp [isWordChar, Char.isAlphanum, all_eq_true.mp h c hin]
      rw [hcons, cons_append, List.head?_cons, Option.any_some, hchar] at hdrop
      cases hdrop
  · rintro rfl
    rw [length_map, take_left, drop_left]
    exact ⟨rfl, hrest⟩

/-- The letters that open a text, up to a character that belongs to no word, are its action if they are
one of those that are told apart. -/
theorem action_of_letters {action rest : List Char} (h : action.all Char.isAlpha = true)
    (hrest : rest.head?.any isWordChar = false) :
    actionOf (action ++ rest) = if action.map Char.toLower ∈ knownActions then
      some (action.map Char.toLower) else none := by
  have hall : knownActions.all (fun word => word.all Char.isAlpha) = true := by decide
  unfold actionOf
  generalize knownActions = known at hall
  induction known with
  | nil => rfl
  | cons word known ih =>
    rw [all_cons, Bool.and_eq_true] at hall
    rw [List.find?_cons, word_at_start h hrest hall.1, ih hall.2]
    by_cases heq : action.map Char.toLower = word
    · simp [heq]
    · simp [heq, beq_eq_false_iff_ne.mpr heq]

/-! ## A rule -/

theorem blank_trimmed (h : isBlank c = true) : isTrimmed c = true := by
  simp only [isBlank, Bool.or_eq_true, beq_iff_eq] at h
  obtain (rfl | rfl) | rfl := h <;> decide

theorem alpha_not_trimmed (h : c.isAlpha = true) : isTrimmed c = false := by
  have key : c.isAlpha = true → isTrimmed c = false :=
    Text.forall_ascii (fun c => c.isAlpha = true → isTrimmed c = false) (by decide) c
      (Text.ascii_of_alphanum (by simp [Char.isAlphanum, h]))
  exact key h

theorem Rule.core_cons (r : Rule) : ∃ c rest, r.core = c :: rest ∧ c.isAlpha = true := by
  obtain ⟨c, letters, haction⟩ := exists_cons_of_ne_nil r.action.nonempty
  refine ⟨c, _, by unfold Rule.core Rule.front; rw [haction]; rfl, ?_⟩
  exact all_eq_true.mp r.action.letters c (haction ▸ mem_cons_self)

theorem Rule.behind_action (hline : r.oneLine = true) :
    ∃ rest, r.core = r.action.text ++ rest ∧ rest.head?.any isWordChar = false := by
  have hblank : ∀ (gap : Gap) (rest : List Char), gap.oneLine = true →
      rest.head?.any isWordChar = false → (gap.text ++ rest).head?.any isWordChar = false := by
    intro gap rest hgap hrest
    cases htext : gap.text with
    | nil => exact hrest
    | cons c text =>
      have hc : isBlank c = true := gap.blank_of_mem hgap (htext ▸ mem_cons_self)
      simp only [isBlank, Bool.or_eq_true, beq_iff_eq] at hc
      obtain (rfl | rfl) | rfl := hc <;> rfl
  simp only [Rule.oneLine, Bool.and_eq_true, all_eq_true, bne_iff_ne, ne_eq] at hline
  obtain ⟨⟨⟨⟨⟨-, hheader⟩, hparen⟩, -⟩, -⟩, -⟩ := hline
  refine ⟨r.header.flatMap HeaderWord.written ++ (r.beforeParen.text ++
    ('(' :: r.options.flatMap RuleOption.text ++ r.beforeClose.text ++ [')'])), ?_, ?_⟩
  · simp [Rule.core, Rule.front]
  · cases hwords : r.header with
    | nil =>
      refine hblank _ _ hparen ?_
      rfl
    | cons w words =>
      have hspace := (hheader w (by rw [hwords]; exact mem_cons_self)).1
      rw [flatMap_cons]
      unfold HeaderWord.written
      cases hs : w.space with
      | continued => exact absurd hs hspace
      | blank b => cases b <;> rfl

theorem Rule.trimmed (hline : r.oneLine = true) : stripBy isTrimmed r.text = r.core := by
  simp only [Rule.oneLine, Bool.and_eq_true] at hline
  obtain ⟨c, rest, hcore, halpha⟩ := r.core_cons
  refine Text.strip_by_around (fun c hc => ?_) (fun c hc => ?_) (fun d hd => ?_) fun d hd => ?_
  · exact blank_trimmed (Gap.blank_of_mem hline.1.1.1.1.1 hc)
  · exact blank_trimmed (Gap.blank_of_mem hline.2 hc)
  · rw [hcore] at hd
    cases hd
    exact alpha_not_trimmed halpha
  · unfold Rule.core at hd
    rw [List.getLast?_concat] at hd
    cases hd
    decide

theorem of_line_rule (hline : r.oneLine = true) (hunmixed : r.unmixed = true) :
    ofLine r.text = (r.options.findSome? RuleOption.showsSid).map fun sid =>
      { sid := sid
        msg := r.options.findSome? RuleOption.showsMsg
        action := if r.action.text.map Char.toLower ∈ knownActions then
          some (r.action.text.map Char.toLower) else none
        noalert := r.options.any RuleOption.showsNoalert } := by
  have hoptions : r.options.all RuleOption.oneLine = true := by
    simp only [Rule.oneLine, Bool.and_eq_true] at hline
    exact hline.1.1.2
  have hgap : ∀ {x : Char}, isBlank x = false → x ≠ ')' → x ∉ r.beforeClose.text ++ [')'] := by
    intro x hx hne
    simp only [Rule.oneLine, Bool.and_eq_true] at hline
    rw [mem_append, mem_singleton, not_or]
    exact ⟨Gap.not_mem hline.1.2 hx, hne⟩
  have hfront : ∀ {x : Char}, isOutside x = true → x ≠ '(' → x ∉ r.front ++ ['('] := by
    intro x hx hne
    rw [mem_append, mem_singleton, not_or]
    exact ⟨Rule.not_mem_front hline hx, hne⟩
  obtain ⟨hscan, hliterals⟩ := scan_options hoptions hunmixed
    (hgap (x := doubleQuote) (by decide) (by decide))
  have hcore : r.core = (r.front ++ ['(']) ++
      (r.options.flatMap RuleOption.text ++ (r.beforeClose.text ++ [')'])) := by
    simp [Rule.core]
  have hpieces := scan_plain (hfront (x := doubleQuote) (by decide) (by decide))
    (r.options.flatMap RuleOption.text ++ (r.beforeClose.text ++ [')']))
  rw [← hcore, hscan, hliterals, append_assoc, singleton_append] at hpieces
  obtain ⟨c, rest, hopens, halpha⟩ := r.core_cons
  have hempty : r.core.isEmpty = false := by rw [hopens]; rfl
  have hhash : (r.core.head? == some '#') = false := by
    rw [hopens, List.head?_cons, beq_eq_false_iff_ne]
    rintro heq
    cases heq
    cases halpha
  obtain ⟨behind, hbehind, hword⟩ := Rule.behind_action hline
  have hsid : sidIn (scanOf (pieces 0 r.core)) = r.options.findSome? RuleOption.showsSid := by
    unfold sidIn
    rw [hpieces.1, search_front (by decide) (by decide)
      (hfront (x := ';') (by decide) (by decide)) (hgap (x := ';') (by decide) (by decide)),
      Option.map_map]
    exact first_shown_taken digitsOf r.options
  have hnoalert : noalertIn (scanOf (pieces 0 r.core)) = r.options.any RuleOption.showsNoalert := by
    unfold noalertIn
    rw [hpieces.1, search_front (by decide) (by decide)
      (hfront (x := ';') (by decide) (by decide)) (hgap (x := ';') (by decide) (by decide)),
      Option.isSome_map]
    have hshown := first_shown_taken (p := noalertPattern) (fun _ => ()) r.options
    rw [← Option.isSome_map (f := fun (r : List Char × List Char) => ()), hshown]
    rw [isSome_findSome?]
    simp only [Option.isSome_map]
    rfl
  have hmsg : msgIn (scanOf (pieces 0 r.core)) (literalsInOrder (pieces 0 r.core)) =
      r.options.findSome? RuleOption.showsMsg := by
    unfold msgIn
    rw [hpieces.1, hpieces.2, search_front (by decide) (by decide)
      (hfront (x := doubleQuote) (by decide) (by decide))
      (hgap (x := doubleQuote) (by decide) (by decide)), ← msg_of_options hoptions hunmixed]
    cases firstShown msgPattern r.options with
    | none => rfl
    | some shown =>
      obtain ⟨more, taken⟩ := shown
      have hcount : countPairs (r.front ++ '(' :: more ++ taken) = countPairs (more ++ taken) := by
        have hplain := count_pairs_plain (hfront (x := doubleQuote) (by decide) (by decide))
          (more ++ taken)
        rw [← hplain]
        simp
      simp only [Option.map_some, Option.bind_some, hcount]
  unfold ofLine
  rw [Rule.trimmed hline]
  simp only [hempty, hhash, Bool.or_false, Bool.false_eq_true, if_false, hsid, hmsg, hnoalert]
  rw [hbehind, action_of_letters r.action.letters hword]

/-! ## Lines -/

theorem not_mem_setting {value : Value} : '\n' ∉ value.setting := by
  have hquotable : ∀ text : List Char, isQuotable text = true → '\n' ∉ text := by
    intro text h
    fun_induction isQuotable text with
    | case1 => exact not_mem_nil
    | case2 c =>
      simp only [Bool.and_eq_true, bne_iff_ne, ne_eq] at h
      simpa using Ne.symm h.2
    | case3 c d text hslash ih =>
      simp only [Bool.and_eq_true, Bool.not_eq_true'] at h
      obtain rfl := eq_of_beq hslash
      have hd : d ≠ '\n' := by
        rintro rfl
        cases h.1
      simp [ih h.2, Ne.symm hd, show '\n' ≠ backslash by decide]
    | case4 c d text hslash ih =>
      simp only [Bool.and_eq_true, bne_iff_ne, ne_eq] at h
      rw [mem_cons, not_or]
      exact ⟨Ne.symm h.1.2, ih h.2⟩
  have hescaped : ∀ text : List Char, isEscaped text = true → '\n' ∉ text := by
    intro text h
    fun_induction isEscaped text with
    | case1 => exact not_mem_nil
    | case2 c =>
      simp only [Bool.and_eq_true, bne_iff_ne, ne_eq] at h
      simpa using Ne.symm h.2
    | case3 c d text hslash ih =>
      simp only [Bool.and_eq_true, bne_iff_ne, ne_eq] at h
      obtain rfl := eq_of_beq hslash
      simp [ih h.2, Ne.symm h.1, show '\n' ≠ backslash by decide]
    | case4 c d text hslash ih =>
      simp only [Bool.and_eq_true, bne_iff_ne, ne_eq] at h
      rw [mem_cons, not_or]
      exact ⟨Ne.symm h.1.2, ih h.2⟩
  cases value with
  | quoted negated text hquoted =>
    cases negated <;>
      simp [Value.setting, hquotable text hquoted, show '\n' ≠ doubleQuote by decide]
  | unquoted text hunquoted =>
    simp only [isUnquoted, Bool.and_eq_true] at hunquoted
    exact hescaped text hunquoted.1.1

theorem RuleOption.no_newline (h : o.oneLine = true) : '\n' ∉ o.text := by
  obtain ⟨hbefore, hafter, hgaps⟩ := RuleOption.gaps_of_oneLine h (x := '\n') (by decide)
  have hkeyword : '\n' ∉ o.keyword.text := o.keyword.not_mem (by decide)
  have htail : '\n' ∉ RuleOption.tail o.value := by
    cases hvalue : o.value with
    | none => exact not_mem_nil
    | some v =>
      obtain ⟨left, right, value⟩ := v
      obtain ⟨hleft, hright⟩ := hgaps left right value hvalue
      simp [RuleOption.tail, hleft, hright, not_mem_setting]
  simp [RuleOption.text, hbefore, hkeyword, htail, hafter]

theorem Rule.no_newline (h : r.oneLine = true) : '\n' ∉ r.text := by
  have hfront := Rule.not_mem_front h (x := '\n') (by decide)
  simp only [Rule.oneLine, Bool.and_eq_true] at h
  have hoptions : '\n' ∉ r.options.flatMap RuleOption.text := by
    rw [mem_flatMap]
    rintro ⟨o, ho, hmem⟩
    exact RuleOption.no_newline (all_eq_true.mp h.1.1.2 o ho) hmem
  have hlead := Gap.not_mem h.1.1.1.1.1 (x := '\n') (by decide)
  have hclose := Gap.not_mem h.1.2 (x := '\n') (by decide)
  have htrail := Gap.not_mem h.2 (x := '\n') (by decide)
  simp only [Rule.text, Rule.core, mem_append, mem_cons, not_or]
  exact ⟨hlead, ⟨⟨⟨hfront, by decide, hoptions⟩, hclose⟩, by decide, not_mem_nil⟩, htrail⟩

/-- The rules of the text are on one line each. -/
def OneLineEach (lines : List Line) : Prop :=
  ∀ r ∈ rulesOf lines, r.oneLine = true

theorem Line.no_newline {lines : List Line} (h : OneLineEach lines) {line : Line}
    (hline : line ∈ lines) : '\n' ∉ line.text := by
  have hblanks : ∀ blanks : List Blank, '\n' ∉ blanks.map Blank.char := by
    intro blanks hmem
    obtain ⟨b, -, hb⟩ := mem_map.mp hmem
    cases b <;> cases hb
  cases line with
  | blank blanks => exact hblanks blanks
  | comment lead text hplain =>
    simp only [Line.text, mem_append, mem_cons, not_or]
    exact ⟨hblanks lead, by decide, hplain⟩
  | rule r => exact Rule.no_newline (h r (mem_filterMap.mpr ⟨_, hline, rfl⟩))

/-! ## Entries -/

/-- There is one entry for each sid, and every entry is that of a rule. -/
structure Binds (rules : List Rule) (entries : List StatefulSid) : Prop where
  unique : (entries.map StatefulSid.sid).Nodup
  own : ∀ e ∈ entries, ∃ r ∈ rules, r.entry = some e
  every : ∀ r ∈ rules, ∀ sid, r.sid = some sid → ∃ e ∈ entries, e.sid = sid

/-- The entries of a rules text are those of its rules, and a rule gives the same as text and as an
entry of `StatefulRules`. -/
structure Bound (lines : List Line) : Prop where
  text : Binds (rulesOf lines) (parseStatefulSids (some ⟨some (textOf lines), none⟩))
  structured : ∀ r ∈ rulesOf lines, parseStatefulSids (some ⟨none, some [r.structured]⟩) =
    parseStatefulSids (some ⟨some (textOf [.rule r]), none⟩)

variable {lines : List Line}

theorem Rule.entry_sid {e : StatefulSid} (h : r.entry = some e) : r.sid = some e.sid := by
  obtain ⟨sid, hsid, rfl⟩ := Option.map_eq_some_iff.mp h
  exact hsid

/-- The entries over their sids. -/
def keyed (entries : List StatefulSid) : List (List Char × StatefulSid) :=
  entries.map fun e => (e.sid, e)

theorem binds_of_entries (rules : List Rule) :
    Binds rules (Entries.values (ofList (keyed (rules.filterMap Rule.entry)))) := by
  have hmem : ∀ {k : List Char} {e : StatefulSid},
      (k, e) ∈ ofList (keyed (rules.filterMap Rule.entry)) →
        k = e.sid ∧ ∃ r ∈ rules, r.entry = some e := by
    intro k e h
    have hget : Entries.get _ k = some e := get_of_mem (nodup_keys_ofList _) h
    obtain ⟨e', he', heq⟩ := mem_map.mp (mem_of_get_ofList hget)
    cases heq
    exact ⟨rfl, mem_filterMap.mp he'⟩
  refine ⟨?_, fun e he => ?_, fun r hr sid hsid => ?_⟩
  · have hkeys : (Entries.values (ofList (keyed (rules.filterMap Rule.entry)))).map
        StatefulSid.sid = Entries.keys (ofList (keyed (rules.filterMap Rule.entry))) := by
      unfold Entries.values Entries.keys
      rw [map_map]
      exact map_congr_left fun entry hentry => (hmem hentry).1.symm
    rw [hkeys]
    exact nodup_keys_ofList _
  · obtain ⟨⟨k, e⟩, hentry, rfl⟩ := mem_map.mp he
    exact (hmem hentry).2
  · obtain ⟨e, he⟩ : ∃ e, r.entry = some e := by
      unfold Rule.entry
      rw [hsid]
      exact ⟨_, rfl⟩
    have hkey : sid ∈ Entries.keys (ofList (keyed (rules.filterMap Rule.entry))) := by
      rw [mem_keys_ofList]
      have hin : (e.sid, e) ∈ keyed (rules.filterMap Rule.entry) :=
        mem_map_of_mem (mem_filterMap.mpr ⟨r, hr, he⟩)
      cases hsid.symm.trans (Rule.entry_sid he)
      exact mem_map_of_mem hin
    obtain ⟨⟨k, e'⟩, hentry, rfl⟩ := mem_map.mp hkey
    exact ⟨e', mem_map_of_mem hentry, (hmem hentry).1.symm⟩

/-- Blank lines and comments give nothing. -/
theorem of_line_text (line : Line) :
    ofLine line.text = line.asRule.bind fun r => ofLine r.text := by
  have hblanks : ∀ blanks : List Blank, ∀ c ∈ blanks.map Blank.char, isTrimmed c = true := by
    intro blanks c hc
    obtain ⟨b, -, rfl⟩ := mem_map.mp hc
    cases b <;> decide
  cases line with
  | rule r => rfl
  | blank blanks =>
    have hstrip : stripBy isTrimmed (blanks.map Blank.char ++ ([] ++ [])) = [] :=
      Text.strip_by_around (hblanks blanks) (forall_mem_nil _) nofun nofun
    rw [nil_append, append_nil] at hstrip
    show ofLine (blanks.map Blank.char) = none
    unfold ofLine
    rw [hstrip]
    rfl
  | comment lead text hplain =>
    have hstrip : stripBy isTrimmed (lead.map Blank.char ++ '#' :: text) =
        '#' :: (text.reverse.dropWhile isTrimmed).reverse := by
      have hhash : isTrimmed '#' = false := by decide
      unfold stripBy
      rw [dropWhile_append_of_pos (hblanks lead),
        dropWhile_cons_of_neg (by rw [hhash]; exact Bool.false_ne_true), reverse_cons,
        dropWhile_stop hhash, reverse_append]
      rfl
    show ofLine (lead.map Blank.char ++ '#' :: text) = none
    unfold ofLine
    rw [hstrip]
    rfl

theorem of_lines (h : OneLineEach lines) : (split ['\n'] (textOf lines)).filterMap ofLine =
      (rulesOf lines).filterMap fun r => ofLine r.text := by
  have hsplit : (split ['\n'] (textOf lines)).filterMap ofLine =
      (lines.map Line.text).filterMap ofLine := by
    cases lines with
    | nil => rfl
    | cons line lines =>
      have hne : (line :: lines).map Line.text ≠ [] := cons_ne_nil _ _
      unfold textOf
      rw [Text.split_intercalate hne]
      intro text htext
      obtain ⟨line', hmem, rfl⟩ := mem_map.mp htext
      exact Line.no_newline h hmem
  rw [hsplit, rulesOf, filterMap_map, filterMap_filterMap]
  exact congrArg (List.filterMap · lines) (funext of_line_text)

theorem parse_text (h : OneLineEach lines) :
    parseStatefulSids (some ⟨some (textOf lines), none⟩) = Entries.values
      (ofList (keyed ((rulesOf lines).filterMap fun r => ofLine r.text))) := by
  show Entries.values (ofText (textOf lines)) = _
  unfold ofText keyed
  rw [of_lines h]

theorem parse_rule (h : r.oneLine = true) :
    parseStatefulSids (some ⟨some (textOf [.rule r]), none⟩) = (ofLine r.text).toList := by
  have heach : OneLineEach [.rule r] := by
    intro r' hr'
    cases mem_singleton.mp hr'
    exact h
  rw [parse_text heach]
  show Entries.values (ofList (keyed (List.filterMap (fun r => ofLine r.text) [r]))) = _
  cases hr : ofLine r.text <;> simp [hr] <;> rfl

theorem parse_structured (r : Rule) :
    parseStatefulSids (some ⟨none, some [r.structured]⟩) = r.entry.toList := by
  have hfirst : ∀ keyword : String, firstSetting
      (r.options.map fun o => ⟨some o.keyword.text, some o.setting.toList⟩) keyword =
        (r.named keyword).bind RuleOption.setting := by
    intro keyword
    unfold firstSetting Rule.named
    rw [List.find?_map]
    have hsame : ((fun o : RawOption => decide (o.keyword = some keyword.toList)) ∘
        fun o : RuleOption => ⟨some o.keyword.text, some o.setting.toList⟩) =
          fun o => decide (o.keyword.text = keyword.toList) := by
      funext o
      simp
    rw [hsame]
    cases r.options.find? fun o => decide (o.keyword.text = keyword.toList) with
    | none => rfl
    | some o => cases hset : o.setting <;> simp [hset]
  have hsome : ∀ sid, r.sid = some sid → sid ≠ [] := by
    rintro _ hsid rfl
    obtain ⟨o, -, hset⟩ := Option.bind_eq_some_iff.mp hsid
    obtain ⟨⟨left, right, value⟩, -, hset⟩ := Option.map_eq_some_iff.mp hset
    cases value with
    | quoted negated text hquotable => simp [Value.setting] at hset
    | unquoted text hunquotable =>
      have htext : text = [] := hset
      subst htext
      exact absurd hunquotable (by decide)
  have hnoalert : (r.structured.ruleOptions.getD []).any (fun o =>
      o.keyword = some "noalert".toList || o.keyword = some "flowbits".toList &&
        (o.settings.getD []).contains "noalert".toList) = r.noalert := by
    unfold Rule.structured Rule.noalert
    simp only [Option.getD_some, any_map]
    refine congrArg (List.any r.options) (funext fun o => ?_)
    generalize "noalert".toList = noalert
    generalize "flowbits".toList = flowbits
    cases hset : o.setting with
    | none => simp [hset]
    | some setting => simp [hset, eq_comm]
  have hof : ofStateful r.structured = r.entry := by
    have hsid : firstSetting (r.structured.ruleOptions.getD []) "sid" = r.sid := hfirst "sid"
    have hmsg : (firstSetting (r.structured.ruleOptions.getD []) "msg").map unquote = r.msg :=
      congrArg _ (hfirst "msg")
    unfold ofStateful Rule.entry
    simp only [hsid, hmsg, hnoalert]
    match h : r.sid with
    | none => rfl
    | some [] => exact absurd rfl (hsome [] h)
    | some (c :: sid) => rfl
  show Entries.values (List.foldl addStateful (ofText []) [r.structured]) = _
  have hempty : ofText [] = [] := rfl
  rw [hempty, foldl_cons, foldl_nil]
  unfold addStateful
  rw [hof]
  cases r.entry <;> rfl

/-! ## The law -/

/-- A rule that is on one line and mixes no quotation marks into unquoted values gives its entry
exactly when it is legible. -/
theorem of_line_eq_entry (hline : r.oneLine = true) (hunmixed : r.unmixed = true) :
    ofLine r.text = r.entry ↔ Legible r := by
  rw [of_line_rule hline hunmixed]
  unfold Rule.entry
  constructor
  · intro h
    have hsid : r.options.findSome? RuleOption.showsSid = r.sid := by
      have hmap := congrArg (Option.map StatefulSid.sid) h
      simpa [Option.map_map, Function.comp_def] using hmap
    refine ⟨hsid, fun hsome => ?_⟩
    obtain ⟨sid, hown⟩ := Option.isSome_iff_exists.mp hsome
    rw [hsid, hown, Option.map_some, Option.map_some, Option.some.injEq, StatefulSid.mk.injEq] at h
    obtain ⟨-, hmsg, haction, hnoalert⟩ := h
    refine ⟨hmsg, ?_, hnoalert⟩
    by_contra hnot
    rw [if_neg hnot] at haction
    cases haction
  · intro ⟨hsid, hrest⟩
    rw [hsid]
    cases hown : r.sid with
    | none => rfl
    | some sid =>
      obtain ⟨hmsg, haction, hnoalert⟩ := hrest (by rw [hown]; rfl)
      rw [Option.map_some, Option.map_some, hmsg, hnoalert, if_pos haction]

theorem bound_of_lines (h : ∀ r ∈ rulesOf lines, r.oneLine = true ∧ r.unmixed = true ∧ Legible r) :
    Bound lines := by
  have hentry : ∀ r ∈ rulesOf lines, ofLine r.text = r.entry := fun r hr =>
    (of_line_eq_entry (h r hr).1 (h r hr).2.1).mpr (h r hr).2.2
  refine ⟨?_, fun r hr => ?_⟩
  · rw [parse_text fun r hr => (h r hr).1, filterMap_congr hentry]
    exact binds_of_entries _
  · rw [parse_structured, parse_rule (h r hr).1, hentry r hr]

/-- An option without blanks. -/
def bareOption (keyword : Keyword) (value : Option Value) : RuleOption :=
  ⟨[], keyword, value.map fun v => ([], [], v), []⟩

/-- A rule with the given options, without blanks. -/
def bareRule (options : List RuleOption) : Rule where
  lead := []
  action := ⟨"alert".toList, by decide, by decide⟩
  header := [⟨.blank .space, [], "tcp".toList, by decide⟩]
  beforeParen := []
  options := options
  beforeClose := []
  trail := []

def sidSeven : RuleOption :=
  bareOption ⟨"sid".toList, by decide, by decide⟩ (some (.unquoted "7".toList (by decide)))

/-- `alert tcp(msg:"sid:9;";sid:7;)` -/
def quotedLookAlike : Rule :=
  bareRule [bareOption ⟨"msg".toList, by decide, by decide⟩
    (some (.quoted false "sid:9;".toList (by decide))), sidSeven]

/-- `alert tcp(metadata:sid:9;sid:7;)` -/
def unquotedLookAlike : Rule :=
  bareRule [bareOption ⟨"metadata".toList, by decide, by decide⟩
    (some (.unquoted "sid:9".toList (by decide))), sidSeven]

end AwsOps.Firewall
