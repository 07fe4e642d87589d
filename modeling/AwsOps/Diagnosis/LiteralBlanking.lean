import AwsOps.Foundation.Blanking
import AwsOps.Foundation.ClickHouse
import AwsOps.Foundation.PromQl

/-!
# Blanking literals before names are matched

`_strip_literals` of the signal catalog generator, and `_token_present`, which looks for a name in what
is left. Comments are replaced before strings, by two patterns that do not know of each other.
-/

namespace AwsOps.Diagnosis

open List Option Bool

open Blanking (Dialect Proper Stands gap emptyLiteral)
open Substitute (Classes Pattern)
open Text (lastOf)
open Tokens (apostrophe backslash backtick doubleQuote throughText)

/-! ## The patterns -/

/-- `_SQL_COMMENT` at a place. -/
def sqlCommentLength : List Char → Option Nat
  | '/' :: '*' :: rest =>
    let body := throughText ['*', '/'] rest
    if ['*', '/'].isSuffixOf body then some (body.length + 2) else none
  | '-' :: '-' :: rest => some ((rest.takeWhile fun c => c != '\n').length + 2)
  | '#' :: rest => some ((rest.takeWhile fun c => c != '\n').length + 1)
  | _ => none

/-- `_SQL_STRING` behind the opening quote, of which `n` characters are read: the match ends at a quote
that is not doubled. Without one it ends in the last doubled quote, if there was any. -/
def sqlStringEnd : Option Nat → Bool → Nat → List Char → Option Nat
  | fallback, _, _, [] => fallback
  | fallback, true, n, _ :: rest => sqlStringEnd fallback false (n + 1) rest
  | fallback, false, n, c :: rest =>
    if c = backslash then sqlStringEnd fallback true (n + 1) rest
    else if c = apostrophe then
      match rest with
      | [] => some (n + 1)
      | d :: rest =>
        if d = apostrophe then sqlStringEnd (some (n + 1)) false (n + 2) rest else some (n + 1)
    else sqlStringEnd fallback false (n + 1) rest

/-- `_SQL_STRING` at a place. -/
def sqlStringLength : List Char → Option Nat
  | [] => none
  | c :: rest => if c = apostrophe then (sqlStringEnd none false 0 rest).map (· + 1) else none

/-- `_PROM_COMMENT` at a place. -/
def promCommentLength : List Char → Option Nat
  | '#' :: rest => some ((rest.takeWhile fun c => c != '\n').length + 1)
  | _ => none

/-- A string of `_PROM_STRING` with escapes, behind its opening quote. -/
def promStringEnd (quote : Char) : Bool → Nat → List Char → Option Nat
  | _, _, [] => none
  | true, n, _ :: rest => promStringEnd quote false (n + 1) rest
  | false, n, c :: rest =>
    if c = quote then some (n + 1) else promStringEnd quote (c == backslash) (n + 1) rest

/-- `_PROM_STRING` at a place. -/
def promStringLength : List Char → Option Nat
  | [] => none
  | c :: rest =>
    if c = apostrophe ∨ c = doubleQuote then (promStringEnd c false 0 rest).map (· + 1)
    else if c = backtick ∧ rest.contains c then some ((throughText [c] rest).length + 1)
    else none

theorem through_text_length (mark text : List Char) :
    (throughText mark text).length ≤ text.length :=
  (Tokens.through_text_starts mark text).length_le

theorem sql_comment_bounded {text : List Char} {n : Nat} (h : sqlCommentLength text = some n) :
    0 < n ∧ n ≤ text.length := by
  have htake : ∀ rest : List Char, (rest.takeWhile fun c => c != '\n').length ≤ rest.length :=
    fun rest => ( takeWhile_prefix _).length_le
  unfold sqlCommentLength at h
  split at h
  · next rest =>
      have hle := through_text_length ['*', '/'] rest
      dsimp only at h
      split at h <;> cases h
      simp only [length_cons]
      omega
  · next rest =>
      have hle := htake rest
      cases h
      simp only [length_cons]
      omega
  · next rest =>
      have hle := htake rest
      cases h
      simp only [length_cons]
      omega
  · cases h

theorem sql_string_end_bounded {fallback : Option Nat} {escaped : Bool} {n m : Nat}
    {text : List Char} (h : sqlStringEnd fallback escaped n text = some m)
    (hfallback : ∀ k, fallback = some k → k ≤ n) : m ≤ n + text.length := by
  fun_induction sqlStringEnd fallback escaped n text with
  | case1 => exact (hfallback m h).trans (by omega)
  | case2 _ n _ rest ih =>
    have hle := ih h fun k hk => (hfallback k hk).trans (by omega)
    simp only [length_cons]
    omega
  | case3 _ n rest ih =>
    have hle := ih h fun k hk => (hfallback k hk).trans (by omega)
    simp only [length_cons]
    omega
  | case4 => cases h; simp
  | case5 _ n _ rest ih =>
    have hle := ih h fun k hk => by cases hk; omega
    simp only [length_cons]
    omega
  | case6 => cases h; simp only [length_cons]; omega
  | case7 _ n _ rest _ _ ih =>
    have hle := ih h fun k hk => (hfallback k hk).trans (by omega)
    simp only [length_cons]
    omega

theorem prom_string_end_bounded {quote : Char} {escaped : Bool} {n m : Nat} {text : List Char}
    (h : promStringEnd quote escaped n text = some m) : m ≤ n + text.length := by
  fun_induction promStringEnd quote escaped n text with
  | case1 => cases h
  | case2 n _ rest ih =>
    have hle := ih h
    simp only [length_cons]
    omega
  | case3 => cases h; simp only [length_cons]; omega
  | case4 n _ rest _ ih =>
    have hle := ih h
    simp only [length_cons]
    omega

def sqlComment : Pattern where
  length _ := sqlCommentLength
  bounded h := sql_comment_bounded h

def sqlString : Pattern where
  length _ := sqlStringLength
  bounded {_ text n} h := by
    cases text with
    | nil => cases h
    | cons c rest =>
      simp only [sqlStringLength] at h
      split at h
      · obtain ⟨m, hm, rfl⟩ := map_eq_some_iff.mp h
        have hle := sql_string_end_bounded hm nofun
        simp only [length_cons]
        omega
      · cases h

def promComment : Pattern where
  length _ := promCommentLength
  bounded {_ text n} h := by
    unfold promCommentLength at h
    split at h
    · next rest =>
        have hle : (rest.takeWhile fun c => c != '\n').length ≤ rest.length :=
          ( takeWhile_prefix _).length_le
        cases h
        simp only [length_cons]
        omega
    · cases h

def promString : Pattern where
  length _ := promStringLength
  bounded {_ text n} h := by
    cases text with
    | nil => cases h
    | cons c rest =>
      simp only [promStringLength] at h
      split_ifs at h
      · obtain ⟨m, hm, rfl⟩ := map_eq_some_iff.mp h
        have hle := prom_string_end_bounded hm
        simp only [length_cons]
        omega
      · have hle := through_text_length [c] rest
        cases h
        simp only [length_cons]
        omega

/-! ## The functions -/

def stripLiterals (kind : String) (text : List Char) : List Char :=
  if kind = "clickhouse" then sqlString.sub emptyLiteral (sqlComment.sub gap text)
  else promString.sub emptyLiteral (promComment.sub gap text)

/-- The search of `_token_present` from a place on, for a name in lower case. -/
def presentFrom (E : Classes) (name : List Char) : Option Char → List Char → Bool
  | before, [] => name.isPrefixOf [] && !before.any E.word
  | before, c :: rest =>
    name.isPrefixOf (c :: rest) && !before.any E.word &&
        !((c :: rest).drop name.length).head?.any E.word ||
      presentFrom E name (some c) rest

def tokenPresent (E : Classes) (name text : List Char) : Bool :=
  !name.isEmpty && presentFrom E name none text

theorem line_end {text after : List Char}
    (h : text = text.takeWhile (fun c => c != '\n') ++ after) :
    after.head? = some '\n' ∨ after = [] := by
  cases after with
  | nil => exact Or.inr rfl
  | cons d after =>
    have hd : (d != '\n') = false := Tokens.stop_of_take_while h rfl
    rw [bne_eq_false_iff_eq.mp hd]
    exact Or.inl rfl

/-! ## Beside the lexer of ClickHouse -/

section ClickHouse

open AwsOps.ClickHouse (firstToken dollarToken isBlank opensLine)
open Tokens (Token quotedText)

/-- What a comment or a string of the server is. -/
structure Known (c : Char) (rest : List Char) (t : Token ClickHouse.Kind) : Prop where
  line : t.kind = .line → opensLine c rest ∧ t.text = c :: rest.takeWhile fun c => c != '\n'
  block : t.kind = .block → c = '/' ∧ rest.head? = some '*' ∧
    t.text = c :: '*' :: throughText ['*', '/'] rest.tail
  constant : t.kind = .constant →
    c = apostrophe ∧ t.text = c :: quotedText (some backslash) apostrophe rest

variable {c : Char} {rest : List Char}

theorem known_other {t : Token ClickHouse.Kind} (hline : t.kind ≠ .line) (hblock : t.kind ≠ .block)
    (hconstant : t.kind ≠ .constant) :
    Known c rest t :=
  ⟨fun h => absurd h hline, fun h => absurd h hblock, fun h => absurd h hconstant⟩

theorem known_dollar (c : Char) (rest : List Char) : Known c rest (dollarToken rest) := by
  unfold dollarToken
  dsimp only
  split_ifs <;> exact known_other nofun nofun nofun

/-- A comment or a string that is read. -/
theorem known_first_token (c : Char) (rest : List Char) : Known c rest (firstToken c rest) := by
  unfold firstToken
  refine iteInduction (fun _ => known_other nofun nofun nofun) fun _ =>
    iteInduction (fun hline => ⟨fun _ => ⟨hline, rfl⟩, nofun, nofun⟩) fun _ =>
    iteInduction (fun hopen => ?_) fun _ => iteInduction (fun hquote => ?_) fun _ =>
    iteInduction (fun _ => known_other nofun nofun nofun) fun _ =>
    iteInduction (fun _ => known_dollar c rest) fun _ =>
    iteInduction (fun _ => known_other nofun nofun nofun) fun _ =>
    iteInduction (fun _ => known_other nofun nofun nofun) fun _ =>
    iteInduction (fun _ => known_other nofun nofun nofun) fun _ =>
    iteInduction (fun _ => known_other nofun nofun nofun) fun _ =>
    iteInduction (fun _ => known_other nofun nofun nofun) fun _ => known_other nofun nofun nofun
  · simp only [and_eq_true, beq_iff_eq] at hopen
    exact ⟨nofun, fun _ => ⟨hopen.1, hopen.2, rfl⟩, nofun⟩
  · exact ⟨nofun, nofun, fun _ => ⟨eq_of_beq hquote, rfl⟩⟩

/-- The text behind the opening quote of a string ends with the quote that closes it. -/
def closesConstant : List Char → Bool
  | [] => false
  | [c] => c == apostrophe
  | c :: d :: rest =>
    if c = backslash then closesConstant rest
    else if c = apostrophe then d == apostrophe && closesConstant rest
    else closesConstant (d :: rest)

theorem not_quote_after {text after : List Char}
    (h : closesConstant (quotedText (some backslash) apostrophe text))
    (htext : text = quotedText (some backslash) apostrophe text ++ after) :
    after.head? ≠ some apostrophe := by
  have hne : (backslash : Char) ≠ apostrophe := by decide
  fun_induction quotedText (some backslash) apostrophe text with
  | case1 => cases h
  | case2 c =>
    obtain rfl : after = [] := by simpa using htext
    simp
  | case3 c d rest hescape ih =>
    obtain rfl : backslash = c := Option.some.inj hescape
    have hclosed : closesConstant (quotedText (some backslash) apostrophe rest) := by
      simpa [closesConstant] using h
    exact ih hclosed (by simpa using htext)
  | case4 rest hescape ih =>
    have hclosed : closesConstant (quotedText (some backslash) apostrophe rest) := by
      simpa [closesConstant, hne.symm] using h
    exact ih hclosed (by simpa using htext)
  | case5 d rest hd _ =>
    obtain rfl : after = d :: rest := by simpa using htext.symm
    intro heq
    exact hd (Option.some.inj heq)
  | case6 c d rest hescape hquote ih =>
    have hc : c ≠ backslash := fun heq => hescape (by rw [heq])
    obtain ⟨more, hmore⟩ := Tokens.quoted_text_head (some backslash) apostrophe d rest
    have hclosed : closesConstant (quotedText (some backslash) apostrophe (d :: rest)) := by
      rw [hmore] at h ⊢
      simpa [closesConstant, hc, hquote] using h
    exact ih hclosed (by simpa using htext)

theorem sql_string_end_closed {content later : List Char} (h : closesConstant content)
    (hlater : later.head? ≠ some apostrophe) (fallback : Option Nat) (n : Nat) :
    sqlStringEnd fallback false n (content ++ later) = some (n + content.length) := by
  have hne : (apostrophe : Char) ≠ backslash := by decide
  fun_induction closesConstant content generalizing fallback n with
  | case1 => cases h
  | case2 c =>
    obtain rfl : c = apostrophe := by simpa using h
    cases later with
    | nil => simp [sqlStringEnd, hne]
    | cons d later =>
      have hd : d ≠ apostrophe := fun heq => hlater (by rw [heq]; rfl)
      simp [sqlStringEnd, hne, hd]
  | case3 d rest ih =>
    simp only [cons_append, sqlStringEnd, if_true, ih h]
    exact congrArg some (by simp only [length_cons]; omega)
  | case4 d rest _ ih =>
    rw [and_eq_true, beq_iff_eq] at h
    obtain ⟨rfl, h⟩ := h
    simp only [cons_append, sqlStringEnd, if_neg hne, if_true, ih h]
    exact congrArg some (by simp only [length_cons]; omega)
  | case5 c d rest hescape hquote ih =>
    have hstep := ih h fallback (n + 1)
    rw [cons_append]
    generalize d :: rest ++ later = tail at hstep ⊢
    unfold sqlStringEnd
    rw [if_neg hescape, if_neg hquote, hstep]
    exact congrArg some (by simp only [length_cons]; omega)

/-- A comment or string of the server that is closed. -/
def sqlIsComment (t : Token ClickHouse.Kind) : Bool :=
  t.kind == .line || t.kind == .block && ['*', '/'].isSuffixOf t.text.tail.tail

def sqlIsLiteral (t : Token ClickHouse.Kind) : Bool :=
  t.kind == .constant && closesConstant t.text.tail

theorem sql_is_comment_cases (h : sqlIsComment (firstToken c rest)) :
    opensLine c rest ∧ (firstToken c rest).text = c :: rest.takeWhile (fun c => c != '\n') ∨
      c = '/' ∧ rest.head? = some '*' ∧
        (firstToken c rest).text = '/' :: '*' :: throughText ['*', '/'] rest.tail ∧
        ['*', '/'] <:+ throughText ['*', '/'] rest.tail := by
  have hknown := known_first_token c rest
  simp only [sqlIsComment, or_eq_true, and_eq_true, beq_iff_eq] at h
  obtain hline | ⟨hblock, hclosed⟩ := h
  · exact Or.inl (hknown.line hline)
  · obtain ⟨rfl, hstar, htext⟩ := hknown.block hblock
    rw [htext] at hclosed
    exact Or.inr ⟨rfl, hstar, htext, isSuffixOf_iff_suffix.mp hclosed⟩

theorem sql_is_literal_cases (h : sqlIsLiteral (firstToken c rest)) : c = apostrophe ∧
      (firstToken c rest).text = c :: quotedText (some backslash) apostrophe rest ∧
      closesConstant (quotedText (some backslash) apostrophe rest) := by
  simp only [sqlIsLiteral, and_eq_true, beq_iff_eq] at h
  obtain ⟨hconstant, hclosed⟩ := h
  obtain ⟨rfl, htext⟩ := (known_first_token c rest).constant hconstant
  rw [htext] at hclosed
  exact ⟨rfl, htext, hclosed⟩

theorem last_of_closes {content : List Char} (h : closesConstant content) :
    content.getLast? = some apostrophe := by
  fun_induction closesConstant content with
  | case1 => cases h
  | case2 c => simpa using h
  | case3 d rest ih =>
    rw [List.getLast?_cons, List.getLast?_cons, ih h]
    rfl
  | case4 d rest _ ih =>
    rw [and_eq_true] at h
    rw [List.getLast?_cons, List.getLast?_cons, ih h.2]
    rfl
  | case5 c d rest _ _ ih =>
    rw [List.getLast?_cons, ih h]
    rfl

theorem opens_line_cases (h : opensLine c rest) : (c = '-' ∧ rest.head? = some '-') ∨ c = '#' := by
  simp only [opensLine, or_eq_true, and_eq_true, beq_iff_eq] at h
  obtain h | h := h
  · exact Or.inl h
  · exact Or.inr h.1

/-- `_strip_literals` for SQL, beside the lexer of ClickHouse. -/
def sqlDialect : Dialect ClickHouse.Kind where
  lexer := AwsOps.ClickHouse.lexer
  isComment := sqlIsComment
  isLiteral := sqlIsLiteral
  comment := sqlComment
  literal := sqlString
  comment_context _ _ := rfl
  literal_context _ _ := rfl
  literal_gap rest := by
    have hne : (' ' : Char) ≠ apostrophe := by decide
    show sqlStringLength (' ' :: rest) = none
    simp [sqlStringLength, hne]
  match_comment c rest after htext h := by
    show sqlCommentLength ((firstToken c rest).text ++ after) = some (firstToken c rest).text.length
    have htext' : (firstToken c rest).text ++ after = c :: rest := htext.symm
    rw [htext']
    obtain ⟨hopen, hline⟩ | ⟨rfl, hstar, hblock, hclosed⟩ := sql_is_comment_cases h
    · rw [hline]
      obtain ⟨rfl, hdash⟩ | rfl := opens_line_cases hopen
      · rw [eq_cons_of_mem_head? hdash]
        simp [sqlCommentLength]
      · simp [sqlCommentLength]
    · rw [hblock, eq_cons_of_mem_head? hstar]
      simp only [sqlCommentLength, tail_cons]
      rw [if_pos (isSuffixOf_iff_suffix.mpr hclosed)]
      rfl
  match_literal c rest after htext h later hlater := by
    show sqlStringLength ((firstToken c rest).text ++ later) = some (firstToken c rest).text.length
    obtain ⟨rfl, hconstant, hclosed⟩ := sql_is_literal_cases h
    have hrest : rest = quotedText (some backslash) apostrophe rest ++ after := by
      have htext' : apostrophe :: rest = (firstToken apostrophe rest).text ++ after := htext
      rw [hconstant] at htext'
      exact (List.cons.inj htext').2
    have hafter := not_quote_after hclosed hrest
    have hnext : later.head? ≠ some apostrophe := by
      obtain heq | heq := hlater
      · rwa [heq]
      · rw [heq]
        decide
    rw [hconstant, cons_append, sqlStringLength, if_pos rfl,
      sql_string_end_closed hclosed hnext]
    simp
  opens c rest h := by
    obtain h | h := h
    · obtain ⟨hopen, -⟩ | ⟨rfl, -⟩ := sql_is_comment_cases h
      · obtain ⟨rfl, -⟩ | rfl := opens_line_cases hopen <;> (unfold Blanking.Mark; decide)
      · unfold Blanking.Mark
        decide
    · obtain ⟨rfl, -⟩ := sql_is_literal_cases h
      unfold Blanking.Mark
      decide
  closes c rest after htext h := by
    have htext' : c :: rest = (firstToken c rest).text ++ after := htext
    obtain h | h := h
    · obtain ⟨-, hline⟩ | ⟨rfl, -, hblock, before, hclosed⟩ := sql_is_comment_cases h
      · right
        rw [hline] at htext'
        exact line_end (List.cons.inj htext').2
      · left
        intro d hd
        have hlast : (firstToken '/' rest).text.getLast? = some '/' := by
          rw [hblock, ← hclosed, List.getLast?_cons, List.getLast?_cons, List.getLast?_append]
          rfl
        rw [show d = '/' from Option.some.inj (hd.symm.trans hlast)]
        unfold Blanking.Mark
        decide
    · left
      intro d hd
      obtain ⟨rfl, hconstant, hclosed⟩ := sql_is_literal_cases h
      have hlast : (firstToken apostrophe rest).text.getLast? = some apostrophe := by
        rw [hconstant, List.getLast?_cons, last_of_closes hclosed]
        rfl
      rw [show d = apostrophe from Option.some.inj (hd.symm.trans hlast)]
      unfold Blanking.Mark
      decide

end ClickHouse

/-! ## Beside the lexer of PromQL -/

section PromQl

open AwsOps.PromQl (firstToken quoted)
open Tokens (Token)

variable {quote : Char} {text : List Char}

theorem prom_string_end_quoted {escaped : Bool} {content : List Char}
    (h : quoted quote escaped text = some content) (later : List Char) (n : Nat) :
    promStringEnd quote escaped n (content ++ later) = some (n + content.length) := by
  induction text generalizing escaped content n with
  | nil => cases h
  | cons c rest ih =>
    unfold quoted at h
    split_ifs at h with _ hescaped hquote
    case pos =>
      obtain ⟨tail, htail, rfl⟩ := map_eq_some_iff.mp h
      rw [hescaped, cons_append, promStringEnd, ih htail, length_cons]
      exact congrArg some (by omega)
    case pos =>
      cases h
      rw [eq_false_of_ne_true hescaped, cons_append, promStringEnd, if_pos hquote]
      rfl
    case neg =>
      obtain ⟨tail, htail, rfl⟩ := map_eq_some_iff.mp h
      rw [eq_false_of_ne_true hescaped, cons_append, promStringEnd, if_neg hquote, ih htail,
        length_cons]
      exact congrArg some (by omega)

/-- A string without escapes ends where it did, whatever follows. -/
theorem through_quote_again (h : quote ∈ text)
    (later : List Char) : throughText [quote] (throughText [quote] text ++ later) =
      throughText [quote] text := by
  induction text with
  | nil => cases h
  | cons c rest ih =>
    by_cases hc : quote = c
    · rw [hc]
      simp [throughText]
    · have hrest : quote ∈ rest := (mem_cons.mp h).resolve_left hc
      simp [throughText, hc, ih hrest]

theorem last_of_quoted {escaped : Bool} {content : List Char}
    (h : quoted quote escaped text = some content) : content.getLast? = some quote := by
  induction text generalizing escaped content with
  | nil => cases h
  | cons c rest ih =>
    unfold quoted at h
    split_ifs at h with _ _ hquote
    case pos =>
      obtain ⟨tail, htail, rfl⟩ := map_eq_some_iff.mp h
      rw [List.getLast?_cons, ih htail]
      rfl
    case pos =>
      cases h
      rw [hquote]
      rfl
    case neg =>
      obtain ⟨tail, htail, rfl⟩ := map_eq_some_iff.mp h
      rw [List.getLast?_cons, ih htail]
      rfl

theorem last_of_through (h : quote ∈ text) : (throughText [quote] text).getLast? = some quote := by
  induction text with
  | nil => cases h
  | cons c rest ih =>
    by_cases hc : quote = c
    · rw [hc]
      simp [throughText]
    · have hrest : quote ∈ rest := (mem_cons.mp h).resolve_left hc
      have hstop : throughText [quote] (c :: rest) = c :: throughText [quote] rest := by
        simp [throughText, hc]
      rw [hstop, List.getLast?_cons, ih hrest]
      rfl

def promIsComment (t : Token PromQl.Kind) : Bool :=
  t.kind == .comment

def promIsLiteral (t : Token PromQl.Kind) : Bool :=
  t.kind == .string

theorem prom_is_comment_cases {c : Char} {rest : List Char}
    (h : promIsComment (firstToken c rest)) :
    c = '#' ∧ (firstToken c rest).text = c :: rest.takeWhile fun c => c != '\n' := by
  unfold firstToken at h ⊢
  split_ifs at h ⊢ with hopen
  · exact ⟨hopen, rfl⟩
  all_goals
    first
      | cases h
      | (cases hquoted : quoted c false rest <;> rw [hquoted] at h <;> cases h)

theorem prom_is_literal_cases {c : Char} {rest : List Char}
    (h : promIsLiteral (firstToken c rest)) :
    ((c = apostrophe ∨ c = doubleQuote) ∧ ∃ content, quoted c false rest = some content ∧
        (firstToken c rest).text = c :: content) ∨
      c = backtick ∧ c ∈ rest ∧ (firstToken c rest).text = c :: throughText [c] rest := by
  unfold firstToken at h ⊢
  split_ifs at h ⊢ with _ hquote hraw hclosed
  · cases h
  · left
    cases hquoted : quoted c false rest with
    | none => rw [hquoted] at h; cases h
    | some content => exact ⟨hquote.symm, content, rfl, rfl⟩
  · exact Or.inr ⟨hraw, contains_iff_mem.mp hclosed, rfl⟩
  · cases h
  · cases h

/-- `_strip_literals` for the other kinds, beside the lexer of PromQL. -/
def promDialect : Dialect PromQl.Kind where
  lexer := AwsOps.PromQl.lexer
  isComment := promIsComment
  isLiteral := promIsLiteral
  comment := promComment
  literal := promString
  comment_context _ _ := rfl
  literal_context _ _ := rfl
  literal_gap rest := by
    have hquotes : ¬((' ' : Char) = apostrophe ∨ (' ' : Char) = doubleQuote) := by decide
    have hraw : (' ' : Char) ≠ backtick := by decide
    show promStringLength (' ' :: rest) = none
    simp [promStringLength, hquotes, hraw]
  match_comment c rest after htext h := by
    show promCommentLength ((firstToken c rest).text ++ after) =
      some (firstToken c rest).text.length
    have htext' : (firstToken c rest).text ++ after = c :: rest := htext.symm
    obtain ⟨rfl, hline⟩ := prom_is_comment_cases h
    rw [htext', hline]
    rfl
  match_literal c rest after _ h later _ := by
    show promStringLength ((firstToken c rest).text ++ later) =
      some (firstToken c rest).text.length
    obtain ⟨hquote, content, hquoted, htext⟩ | ⟨rfl, hmem, htext⟩ := prom_is_literal_cases h
    · rw [htext, cons_append, promStringLength, if_pos hquote,
        prom_string_end_quoted hquoted later 0]
      simp
    · have hquotes : ¬(backtick = apostrophe ∨ backtick = doubleQuote) := by decide
      have hclosed : (throughText [backtick] rest ++ later).contains backtick = true :=
        contains_iff_mem.mpr
          (mem_append_left later (mem_of_getLast? (last_of_through hmem)))
      rw [htext, cons_append, promStringLength, if_neg hquotes, if_pos ⟨rfl, hclosed⟩,
        through_quote_again hmem]
      rfl
  opens c rest h := by
    unfold Blanking.Mark
    obtain h | h := h
    · obtain ⟨rfl, -⟩ := prom_is_comment_cases h
      decide
    · obtain ⟨rfl | rfl, -⟩ | ⟨rfl, -⟩ := prom_is_literal_cases h <;> decide
  closes c rest after htext h := by
    have htext' : c :: rest = (firstToken c rest).text ++ after := htext
    obtain h | h := h
    · right
      obtain ⟨-, hline⟩ := prom_is_comment_cases h
      rw [hline] at htext'
      exact line_end (List.cons.inj htext').2
    · left
      intro d hd
      have hlast : (firstToken c rest).text.getLast? = some c := by
        obtain ⟨-, content, hquoted, htext⟩ | ⟨-, hmem, htext⟩ := prom_is_literal_cases h
        · rw [htext, List.getLast?_cons, last_of_quoted hquoted]
          rfl
        · rw [htext, List.getLast?_cons, last_of_through hmem]
          rfl
      rw [show d = c from Option.some.inj (hd.symm.trans hlast)]
      unfold Blanking.Mark
      obtain ⟨rfl | rfl, -⟩ | ⟨rfl, -⟩ := prom_is_literal_cases h <;> decide

end PromQl

/-! ## The blanking -/

theorem strip_literals_clickhouse (text : List Char) :
    stripLiterals "clickhouse" text = sqlDialect.strip text := rfl

theorem strip_literals_other {kind : String} (h : kind ≠ "clickhouse") (text : List Char) :
    stripLiterals kind text = promDialect.strip text := if_neg h

/-- The search finds a name that stands in the text, of which `before` is the character before. -/
theorem present_from_iff (E : Classes) {name : List Char} (hname : name ≠ [])
    (before : Option Char) (text : List Char) : presentFrom E name before text ↔
      ∃ front back, text = front ++ (name ++ back) ∧
        (lastOf before front).any E.word = false ∧ back.head?.any E.word = false := by
  induction text generalizing before with
  | nil =>
    cases name with
    | nil => exact absurd rfl hname
    | cons c name =>
      constructor
      · intro h
        simp [presentFrom] at h
      · intro h
        obtain ⟨front, back, htext, -⟩ := h
        simp at htext
  | cons c rest ih =>
    simp only [presentFrom, or_eq_true, and_eq_true, not_eq_true', ih, isPrefixOf_iff_prefix]
    constructor
    · intro h
      obtain ⟨⟨⟨back, hback⟩, hbefore⟩, hafter⟩ | ⟨front, back, htext, hfront, hback⟩ := h
      · refine ⟨[], back, hback.symm, hbefore, ?_⟩
        rwa [← hback, drop_left] at hafter
      · refine ⟨c :: front, back, by rw [htext, cons_append], ?_, hback⟩
        rwa [Text.last_of_cons]
    · intro h
      obtain ⟨front, back, htext, hfront, hback⟩ := h
      cases front with
      | nil =>
        rw [nil_append] at htext
        refine Or.inl ⟨⟨⟨back, htext.symm⟩, hfront⟩, ?_⟩
        rwa [htext, drop_left]
      | cons d front =>
        obtain ⟨rfl, hrest⟩ := List.cons.inj htext
        exact Or.inr ⟨front, back, hrest, by rwa [Text.last_of_cons] at hfront, hback⟩

theorem token_present_iff (E : Classes) {name : List Char} (hname : name ≠ [])
    (text : List Char) : tokenPresent E name text ↔ Stands E name text := by
  have hempty : name.isEmpty = false := by simpa using hname
  rw [tokenPresent, hempty, Bool.not_false, Bool.true_and]
  exact present_from_iff E hname none text

/-- What is left of the text is what the lexer leaves of it: a blank for each comment, an empty
literal for each literal, and every other token. A name is found in it where it stands outside
comments and literals. -/
structure LeavesTokens {κ : Type} (D : Dialect κ) (kind : String) (text : List Char) : Prop where
  same : stripLiterals kind text = (D.lexer.tokens () text).flatMap D.blanked
  present : ∀ (E : Classes) (name : List Char), Proper name →
    (tokenPresent E name (stripLiterals kind text) ↔
      D.StandsOutside E name (D.lexer.tokens () text))

theorem leaves_tokens {κ : Type} {D : Dialect κ} {kind : String} {text : List Char}
    (hstrip : stripLiterals kind text = D.strip text)
    (h : D.Undisturbed (D.lexer.tokens () text)) : LeavesTokens D kind text := by
  have hsame : stripLiterals kind text = (D.lexer.tokens () text).flatMap D.blanked :=
    hstrip.trans (Blanking.strip_eq h)
  refine ⟨hsame, fun E name hname => ?_⟩
  rw [hsame, token_present_iff E hname.1]
  exact Blanking.stands_iff E hname (Blanking.every_read text)

def BlankingAgrees (kind : String) (text : List Char) : Prop :=
  if kind = "clickhouse" then LeavesTokens sqlDialect kind text
  else LeavesTokens promDialect kind text

/-- In the language of the kind, the comment pattern matches nowhere but at comments, and once the
comments are gone the string pattern matches nowhere in a token that stays. -/
def MarksApart (kind : String) (text : List Char) : Prop :=
  if kind = "clickhouse" then sqlDialect.Undisturbed (sqlDialect.lexer.tokens () text)
  else promDialect.Undisturbed (promDialect.lexer.tokens () text)

theorem blanking_agrees {kind : String} {text : List Char} (h : MarksApart kind text) :
    BlankingAgrees kind text := by
  unfold MarksApart at h
  unfold BlankingAgrees
  split_ifs at h ⊢ with hkind
  · subst hkind
    exact leaves_tokens (strip_literals_clickhouse text) h
  · exact leaves_tokens (strip_literals_other hkind text) h

/-- A query with a literal, and with a comment that quotes. -/
theorem commented_query_blanked : BlankingAgrees "clickhouse" "from t where 'b' -- 'y'".toList := by
  have htokens : sqlDialect.lexer.tokens () "from t where 'b' -- 'y'".toList =
      [⟨.word, "from".toList⟩, ⟨.blank, [' ']⟩, ⟨.word, ['t']⟩, ⟨.blank, [' ']⟩,
        ⟨.word, "where".toList⟩, ⟨.blank, [' ']⟩, ⟨.constant, "'b'".toList⟩, ⟨.blank, [' ']⟩,
        ⟨.line, "-- 'y'".toList⟩] := by decide +kernel
  refine blanking_agrees ?_
  show sqlDialect.Undisturbed (sqlDialect.lexer.tokens () "from t where 'b' -- 'y'".toList)
  rw [htokens]
  decide +kernel

/-- A comment mark in a literal: the first pass takes the rest of the line and with it the table. -/
theorem quoted_mark_loses_table :
    ¬BlankingAgrees "clickhouse" "select '--' from t".toList ∧
      stripLiterals "clickhouse" "select '--' from t".toList = "select ' ".toList := by
  have hfirst : sqlComment.sub gap "select '--' from t".toList = "select ' ".toList := by
    decide +kernel
  have hstrip : stripLiterals "clickhouse" "select '--' from t".toList = "select ' ".toList := by
    rw [strip_literals_clickhouse]
    show sqlString.sub emptyLiteral (sqlComment.sub gap _) = _
    rw [hfirst]
    decide +kernel
  have htokens : sqlDialect.lexer.tokens () "select '--' from t".toList =
      [⟨.word, "select".toList⟩, ⟨.blank, [' ']⟩, ⟨.constant, "'--'".toList⟩, ⟨.blank, [' ']⟩,
        ⟨.word, "from".toList⟩, ⟨.blank, [' ']⟩, ⟨.word, ['t']⟩] := by decide +kernel
  refine ⟨fun h => ?_, hstrip⟩
  have hagrees : LeavesTokens sqlDialect "clickhouse" "select '--' from t".toList := h
  have hsame := hagrees.same
  rw [hstrip, htokens] at hsame
  exact absurd hsame (by decide +kernel)

end AwsOps.Diagnosis
