import AwsOps.SgRules.Broker

/-!
# The keywords of a day query

The read-only check searches the whole text of a day query for forbidden keywords. Every piece of
the text but the last ends in a character that cuts the search, and the code of the query, its
numbers and its dates hold no keyword. So the search finds exactly the keywords of the names and
values that the source puts into the query (`render_search`).
-/

namespace AwsOps.SgRules

open List AwsOps.Text AwsOps.Calendar Bool

variable {U : Unicode}

def holdsKeyword (U : Unicode) (name : String) : Bool :=
  searchKeyword U forbiddenKeywords name.toList

/-- An ASCII text without a forbidden keyword. -/
def plainText (text : String) : Bool :=
  text.toList.all isAscii && !searchKeyword .ascii forbiddenKeywords text.toList

/-- An ASCII character that belongs to no word and to no forbidden keyword. -/
def delimiter (c : Char) : Bool :=
  isAscii c && !(c.isAlphanum || c == '_') &&
    forbiddenKeywords.all fun keyword => !keyword.contains (foldCase c)

theorem holds_keyword_plain {text : String} (h : plainText text) : holdsKeyword U text = false := by
  simp only [plainText, and_eq_true, not_eq_true'] at h
  rw [holdsKeyword, search_keyword_ascii U forbiddenKeywords h.1, h.2]

theorem forbidden_nonempty : ∀ keyword ∈ forbiddenKeywords, keyword ≠ [] := by
  decide

theorem forbidden_upper : ∀ keyword ∈ forbiddenKeywords, ∀ k ∈ keyword, k.isUpper := by
  have hall : (forbiddenKeywords.all fun keyword => keyword.all Char.isUpper) = true := by decide
  simpa using hall

theorem separates_delimiter {c : Char} (h : delimiter c) : Separates U forbiddenKeywords c := by
  simp only [delimiter, and_eq_true, not_eq_true', all_eq_true] at h
  obtain ⟨⟨hascii, hword⟩, hletter⟩ := h
  refine ⟨?_, ?_, forbidden_nonempty⟩
  · rw [isWord, U.alnum_ascii c hascii, hword]
  · intro keyword hmem
    simpa using hletter keyword hmem

theorem search_no_letter {text : List Char} (h : ∀ c ∈ text, (foldCase c).isUpper = false) :
    searchKeyword U forbiddenKeywords text = false := by
  refine search_keyword_of_no_letter forbidden_nonempty text fun c hmem keyword hkeyword hfold => ?_
  have hupper := forbidden_upper keyword hkeyword _ hfold
  rw [h c hmem] at hupper
  exact false_ne_true hupper

section Letters

theorem numeral_no_letter (width n : Nat) :
    ∀ c ∈ numeral 10 width n, (foldCase c).isUpper = false := by
  intro c hmem
  rcases mem_append.mp hmem with hzero | hdigit
  · rw [eq_of_mem_replicate hzero]
    decide
  · exact fold_case_digit c (Nat.isDigit_of_mem_toDigits (by decide) (by decide) hdigit)

theorem padded_plain (width : Nat) (n : Int) : holdsKeyword U (padded width n) = false := by
  refine search_no_letter fun c hmem => ?_
  rw [padded, String.toList_ofList] at hmem
  exact numeral_no_letter width n.toNat c hmem

theorem iso_format_no_letter (day : Int) :
    ∀ c ∈ (isoFormat day).toList, (foldCase c).isUpper = false := by
  intro c hmem
  simp only [isoFormat, String.toList_ofList, mem_append, mem_cons] at hmem
  have hhyphen : (foldCase '-').isUpper = false := by decide
  rcases hmem with (hyear | rfl | hmonth) | rfl | hday
  · exact numeral_no_letter _ _ c hyear
  · exact hhyphen
  · exact numeral_no_letter _ _ c hmonth
  · exact hhyphen
  · exact numeral_no_letter _ _ c hday

theorem to_string_no_letter (n : Int) :
    ∀ c ∈ (toString n).toList, (foldCase c).isUpper = false := by
  have hdigits : ∀ m : Nat, ∀ c ∈ (toString m).toList, (foldCase c).isUpper = false := by
    intro m c hmem
    rw [Nat.toString_eq_repr, Nat.toList_repr] at hmem
    exact fold_case_digit c (Nat.isDigit_of_mem_toDigits (by decide) (by decide) hmem)
  cases n with
  | ofNat m => exact hdigits m
  | negSucc m =>
    intro c hmem
    rw [show toString (Int.negSucc m) = "-" ++ toString (m + 1) from rfl,
      String.toList_append] at hmem
    rcases mem_append.mp hmem with hsign | hdigit
    · rw [mem_singleton.mp hsign]
      decide
    · exact hdigits (m + 1) c hdigit

theorem holds_keyword_number {front back : String} {f b : List Char}
    (hfront : front.toList = f ++ [' ']) (hback : back.toList = ' ' :: b) (n : Int) :
    holdsKeyword U (front ++ toString n ++ back) =
      (holdsKeyword U front || holdsKeyword U back) := by
  have hspace : Separates U forbiddenKeywords ' ' := separates_delimiter (by decide)
  have hnumber : searchKeyword U forbiddenKeywords (toString n).toList = false :=
    search_no_letter (to_string_no_letter n)
  have hempty : searchKeyword U forbiddenKeywords [] = false := rfl
  have hwhole : (front ++ toString n ++ back).toList =
      f ++ ' ' :: ((toString n).toList ++ ' ' :: b) := by
    simp [hfront, hback]
  simp only [holdsKeyword, hwhole, hfront, hback]
  rw [search_keyword_append hspace, search_keyword_append hspace, search_keyword_append hspace,
    search_keyword_cons hspace, hnumber, hempty, Bool.false_or, Bool.or_false]

end Letters

/-- The pieces end in delimiters, and what the search finds in them is what it finds in the
names. -/
structure Pieces (U : Unicode) (pieces : List SqlPiece) (names : List String) : Prop where
  closed : ∀ piece ∈ pieces, Closed U forbiddenKeywords piece.chars
  search : (pieces.any fun piece => searchKeyword U forbiddenKeywords piece.chars) =
    names.any (holdsKeyword U)

namespace Pieces

theorem nil : Pieces U [] [] :=
  ⟨by simp, rfl⟩

theorem closed_of_last {text : List Char} {c : Char} (hlast : text.getLast? = some c)
    (hc : delimiter c) : Closed U forbiddenKeywords text := by
  obtain ⟨front, rfl⟩ := List.getLast?_eq_some_iff.mp hlast
  exact ⟨front, c, rfl, separates_delimiter hc⟩

variable {names : List String} {pieces : List SqlPiece}

theorem append {left right : List SqlPiece} {more : List String} (hleft : Pieces U left names)
    (hright : Pieces U right more) : Pieces U (left ++ right) (names ++ more) := by
  constructor
  · intro piece hmem
    rcases mem_append.mp hmem with h | h
    · exact hleft.closed piece h
    · exact hright.closed piece h
  · rw [any_append, any_append, hleft.search, hright.search]

theorem code (h : Pieces U pieces names) {text : String} {c : Char}
    (hlast : text.toList.getLast? = some c) (hc : delimiter c)
    (hsearch : holdsKeyword U text = false) : Pieces U (.code text :: pieces) names := by
  constructor
  · intro piece hmem
    rcases mem_cons.mp hmem with rfl | hmem
    · exact closed_of_last hlast hc
    · exact h.closed piece hmem
  · rw [any_cons, h.search]
    have htext : searchKeyword U forbiddenKeywords (SqlPiece.code text).chars = false := hsearch
    rw [htext, Bool.false_or]

theorem quoted (U : Unicode) {quote : Char} (hquote : delimiter quote) (text : String) :
    Closed U forbiddenKeywords (quoted quote text) ∧
      searchKeyword U forbiddenKeywords (SgRules.quoted quote text) = holdsKeyword U text := by
  have hseparates : Separates U forbiddenKeywords quote := separates_delimiter hquote
  exact ⟨⟨quote :: text.toList, quote, rfl, hseparates⟩, search_keyword_quoted hseparates _⟩

theorem ident (h : Pieces U pieces names)
    (name : String) : Pieces U (.ident name :: pieces) (name :: names) := by
  have hquoted := quoted U (show delimiter (Char.ofNat 34) by decide) name
  constructor
  · intro piece hmem
    rcases mem_cons.mp hmem with rfl | hmem
    · exact hquoted.1
    · exact h.closed piece hmem
  · rw [any_cons, any_cons, h.search]
    exact congrArg (· || names.any (holdsKeyword U)) hquoted.2

theorem literal (h : Pieces U pieces names)
    (value : String) : Pieces U (.literal value :: pieces) (value :: names) := by
  have hquoted := quoted U (show delimiter (Char.ofNat 39) by decide) value
  constructor
  · intro piece hmem
    rcases mem_cons.mp hmem with rfl | hmem
    · exact hquoted.1
    · exact h.closed piece hmem
  · rw [any_cons, any_cons, h.search]
    exact congrArg (· || names.any (holdsKeyword U)) hquoted.2

theorem drop {name : String} (h : Pieces U pieces (name :: names))
    (hplain : holdsKeyword U name = false) :
    Pieces U pieces names :=
  ⟨h.closed, by rw [h.search, any_cons, hplain, Bool.false_or]⟩

theorem merge {name : String} (h : Pieces U pieces [name, name]) : Pieces U pieces [name] :=
  ⟨h.closed, by rw [h.search]; simp⟩

end Pieces

theorem render_search {pieces : List SqlPiece} {names : List String} (h : Pieces U pieces names)
    {last : SqlPiece} (hlast : searchKeyword U forbiddenKeywords last.chars = false) :
    searchKeyword U forbiddenKeywords (render (pieces ++ [last])) = names.any (holdsKeyword U) := by
  have hclosed : ∀ part ∈ pieces.map SqlPiece.chars, Closed U forbiddenKeywords part := by
    simpa using h.closed
  have hflat := search_keyword_flatten (pieces.map SqlPiece.chars) last.chars hclosed
  rw [hlast, Bool.or_false, any_map] at hflat
  rw [← h.search, render, map_append, flatten_append, map_singleton, flatten_singleton]
  exact hflat

section Columns

theorem ident_pattern_ascii {name : String} (h : identPattern name) : name.toList.all isAscii := by
  have hclass : ∀ c : Char, (c.isAlphanum || c == '_' || c == '-') = true → isAscii c := by
    intro c hc
    simp only [or_eq_true, beq_iff_eq] at hc
    rcases hc with (halnum | rfl) | rfl
    · exact ascii_of_alphanum halnum
    · decide
    · decide
  have hcore : (beforeEnd name.toList).all isAscii := by
    simp only [identPattern, matchesIdentifier] at h
    cases hname : beforeEnd name.toList with
    | nil => rfl
    | cons c rest =>
      simp only [hname, and_eq_true, all_eq_true] at h
      obtain ⟨⟨hfirst, hrest⟩, -⟩ := h
      have hc : isAscii c := hclass c (by
        simp only [or_eq_true] at hfirst ⊢
        exact .inl (hfirst.imp_left (by simp +contextual [Char.isAlphanum])))
      simp only [all_cons, and_eq_true, all_eq_true]
      exact ⟨hc, fun d hmem => hclass d (hrest d hmem)⟩
  simp only [beforeEnd] at hcore
  split at hcore
  · rename_i hnewline
    obtain ⟨front, hfront⟩ := List.getLast?_eq_some_iff.mp (beq_iff_eq.mp hnewline)
    rw [hfront, dropLast_concat] at hcore
    rw [hfront, all_append, hcore]
    decide
  · exact hcore

theorem ident_plain_of_lower {name : String} (h : identPattern name)
    (hlower : plainText (lower U name)) : holdsKeyword U name = false := by
  have hascii := ident_pattern_ascii h
  have hsame : ∀ c, isAscii c → SameLetter U U c c.toLower := by
    intro c hc
    have hfold : isAscii c.toLower ∧ foldCase c = foldCase c.toLower ∧
        c.isAlphanum = c.toLower.isAlphanum ∧ (c == '_') = (c.toLower == '_') :=
      forall_ascii (fun c => isAscii c.toLower ∧ foldCase c = foldCase c.toLower ∧
        c.isAlphanum = c.toLower.isAlphanum ∧ (c == '_') = (c.toLower == '_')) (by decide) c hc
    refine ⟨hfold.2.1, ?_⟩
    rw [isWord, isWord, U.alnum_ascii c hc, U.alnum_ascii _ hfold.1, hfold.2.2.1, hfold.2.2.2]
  have hsearch := holds_keyword_plain (U := U) hlower
  rw [holdsKeyword, lower, String.toList_ofList, U.lower_ascii _ hascii] at hsearch
  rw [holdsKeyword, ← hsearch]
  refine search_keyword_similar (List.forall₂_map_right_iff.mpr (List.forall₂_same.mpr ?_))
  exact fun c hmem => hsame c (all_eq_true.mp hascii c hmem)

theorem safe_ident_plain (fallback : String) {name : Option String}
    (hfallback : plainText fallback) (hname : ∀ n ∈ name, plainText (lower U n)) :
    ∃ column, safeIdent U name (some fallback) = .ok column ∧ holdsKeyword U column = false := by
  unfold safeIdent
  cases hfilter : name.filter identPattern with
  | none => exact ⟨fallback, rfl, holds_keyword_plain hfallback⟩
  | some n =>
    obtain ⟨hmem, hident⟩ := Option.filter_eq_some_iff.mp hfilter
    exact ⟨n, rfl, ident_plain_of_lower hident (hname n hmem)⟩

end Columns

section Predicates

variable {pieces : List SqlPiece} {names : List String}

theorem Pieces.const (h : Pieces U pieces names) (text : String)
    (hplain : (text.toList.getLast?.any delimiter && plainText text) = true) :
    Pieces U (.code text :: pieces) names := by
  rw [and_eq_true, Option.any_eq_true] at hplain
  obtain ⟨⟨c, hlast, hc⟩, htext⟩ := hplain
  exact h.code hlast hc (holds_keyword_plain htext)

theorem Pieces.hive_day_equals {y mo d : String} (hy : holdsKeyword U y = false)
    (hmo : holdsKeyword U mo = false) (hd : holdsKeyword U d = false) (date : Date)
    (h : Pieces U pieces names) :
    Pieces U (hiveDayEquals y mo d date ++ pieces) names := by
  have hday := (((h.literal (padded 2 date.day)).drop (padded_plain 2 _)).const " = "
    (by decide)).ident d |>.drop hd
  have hmonth := (((hday.const " AND " (by decide)).literal (padded 2 date.month)).drop
    (padded_plain 2 _)).const " = " (by decide) |>.ident mo |>.drop hmo
  have hyear := (((hmonth.const " AND " (by decide)).literal (padded 4 date.year)).drop
    (padded_plain 4 _)).const " = " (by decide) |>.ident y |>.drop hy
  exact hyear

theorem Pieces.date_literal (day : Int) (keyType : Option String) (h : Pieces U pieces names) :
    Pieces U (dateLiteral U (isoFormat day) keyType ++ pieces) names := by
  have hdate : ∀ suffix : String, (suffix.toList.all fun c => !(foldCase c).isUpper) = true →
      Pieces U (.literal (isoFormat day ++ suffix) :: pieces) names := by
    intro suffix hsuffix
    simp only [all_eq_true, not_eq_true'] at hsuffix
    refine (h.literal _).drop (search_no_letter fun c hmem => ?_)
    rw [String.toList_append] at hmem
    rcases mem_append.mp hmem with hiso | hmem
    · exact iso_format_no_letter day c hiso
    · exact hsuffix c hmem
  have hplain : Pieces U (.literal (isoFormat day) :: pieces) names := by
    simpa using hdate "" (by decide)
  simp only [dateLiteral]
  split_ifs
  · exact hplain.const "DATE " (by decide)
  · exact (hdate " 00:00:00" (by decide)).const "TIMESTAMP " (by decide)
  · exact hplain

end Predicates

end AwsOps.SgRules
