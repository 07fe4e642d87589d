import AwsOps.SqlGuard.Strip

/-!
# The scanner beside a lexer

What it takes for the scanner of the guard to keep step with the lexer of a server: on each token it
consumes the text of the token, and appends what is to be kept of it, or it raises. The scanner then
keeps of the whole text what is to be kept of the tokens (`kept_of_scan`). The lemmas of the second
part read the stretches that the scanner consumes as those of a lexer.
-/

namespace AwsOps.SqlGuard

open List Text Tokens

variable (U : Unicode) (d : Dialect)

/-- `Passes before text out after`: after `before`, the scanner consumes `text` and appends `out`
for it, if it does not raise. -/
def Passes (before text out after : List Char) : Prop :=
  ∀ result, scan U d 0 before (text ++ after) = .ok result →
    ∃ more, scan U d 0 (text.reverse ++ before) after = .ok more ∧ result = out ++ more

variable {U d}

theorem scan_skip (before skipped text : List Char) :
    scan U d skipped.length before (skipped ++ text) =
      scan U d 0 (skipped.reverse ++ before) text := by
  induction skipped generalizing before with
  | nil => rfl
  | cons c skipped ih =>
    show scan U d skipped.length (c :: before) (skipped ++ text) = _
    rw [ih, reverse_cons, append_assoc, singleton_append]

variable {before after text : List Char} {c quote : Char}

/-- A turn of the loop that can only end in one way passes. -/
theorem passes_of_piece {out more : List Char}
    (h : ∀ r, piece U d before c (more ++ after) = .ok r → r = (out, c :: more)) :
    Passes U d before (c :: more) out after := by
  intro result hscan
  rw [cons_append, scan] at hscan
  cases hpiece : piece U d before c (more ++ after) with
  | error e =>
    rw [hpiece] at hscan
    cases hscan
  | ok r =>
    obtain rfl := h r hpiece
    rw [hpiece] at hscan
    have hskip : scan U d more.length (c :: before) (more ++ after) =
        scan U d 0 ((c :: more).reverse ++ before) after := by
      rw [scan_skip, reverse_cons, append_assoc, singleton_append]
    have hrest : (do
        let rest ← scan U d 0 ((c :: more).reverse ++ before) after
        return out ++ rest) = Except.ok result := by
      rw [← hskip]
      exact hscan
    cases hmore : scan U d 0 ((c :: more).reverse ++ before) after with
    | error e =>
      rw [hmore] at hrest
      cases hrest
    | ok rest =>
      rw [hmore] at hrest
      exact ⟨rest, rfl, (Except.ok.inj hrest).symm⟩

theorem passes_nil (before after : List Char) : Passes U d before [] [] after :=
  fun result hscan => ⟨result, hscan, rfl⟩

/-- Texts pass one after the other. -/
theorem passes_append {first second out more : List Char}
    (hfirst : Passes U d before first out (second ++ after))
    (hsecond : Passes U d (first.reverse ++ before) second more after) :
    Passes U d before (first ++ second) (out ++ more) after := by
  intro result hscan
  rw [append_assoc] at hscan
  obtain ⟨middle, hmiddle, rfl⟩ := hfirst result hscan
  obtain ⟨last, hlast, rfl⟩ := hsecond middle hmiddle
  refine ⟨last, ?_, (append_assoc _ _ _).symm⟩
  rw [reverse_append, append_assoc]
  exact hlast

theorem kept_of_scan {κ : Type} {kept : Token κ → List Char} {tokens : List (Token κ)}
    {result : List Char}
    (h : Every (fun before t after => Passes U d before t.text (kept t) after) before tokens)
    (hscan : scan U d 0 before (tokens.flatMap Token.text) = .ok result) :
    result = tokens.flatMap kept := by
  induction tokens generalizing before result with
  | nil =>
    cases hscan
    rfl
  | cons t tokens ih =>
    obtain ⟨more, hmore, rfl⟩ := h.1 result hscan
    rw [ih h.2 hmore, flatMap_cons]

theorem scan_of_strip_sql {sql result : List Char} (h : stripSql U d sql = .ok result) :
    scan U d 0 [] sql = .ok result := by
  unfold stripSql at h
  cases hscan : scan U d 0 [] sql with
  | error e =>
    rw [hscan] at h
    cases h
  | ok stripped =>
    rw [hscan] at h
    replace h : (if (contains ['/', '*'] stripped || contains ['*', '/'] stripped) = true then _
      else Except.ok stripped) = Except.ok result := h
    split at h
    · cases h
    · exact h

/-! ## Single characters -/

theorem piece_plain {rest : List Char} (hblock : ¬ (c = '/' ∧ rest.head? = some '*'))
    (hline : ¬ (c = '-' ∧ rest.head? = some '-')) (hhash : c = '#' → d.hashComment = false)
    (hliteral : c ≠ apostrophe) (hdollar : c = '$' → opensDollar U before rest = none)
    (hbacktick : c ≠ backtick)
    (hquote : c ≠ doubleQuote) : piece U d before c rest = .ok ([c], [c]) := by
  have hopens : (if d.dollarQuote && c == '$' then opensDollar U before rest else none) = none := by
    split
    · next h =>
        simp only [Bool.and_eq_true, beq_iff_eq] at h
        exact hdollar h.2
    · rfl
  have hhash' : (d.hashComment && c == '#') = false := by
    by_cases h : c = '#'
    · rw [hhash h, Bool.false_and]
    · rw [beq_eq_false_iff_ne.mpr h, Bool.and_false]
  have hblock' : (c == '/' && rest.head? == some '*') = false := by
    rw [Bool.and_eq_false_imp]
    intro h
    exact beq_eq_false_iff_ne.mpr fun hhead => hblock ⟨eq_of_beq h, hhead⟩
  have hline' : (c == '-' && rest.head? == some '-') = false := by
    rw [Bool.and_eq_false_imp]
    intro h
    exact beq_eq_false_iff_ne.mpr fun hhead => hline ⟨eq_of_beq h, hhead⟩
  unfold piece
  rw [hblock', hline', hhash', beq_eq_false_iff_ne.mpr hliteral, hopens,
    beq_eq_false_iff_ne.mpr hbacktick, beq_eq_false_iff_ne.mpr hquote]
  rfl

/-- No test of the scanner holds anywhere in the text: nothing opens a comment, a string or a quoted
identifier. -/
def untouched (U : Unicode) : List Char → List Char → List Char → Bool
  | _, [], _ => true
  | before, c :: text, after =>
    !(['#', apostrophe, backtick, doubleQuote].contains c) &&
      !(c == '-' && (text ++ after).head? == some '-') &&
      !(c == '/' && (text ++ after).head? == some '*') &&
      (c != '$' || (opensDollar U before (text ++ after)).isNone) &&
      untouched U (c :: before) text after

/-- A character at which no test holds is kept, and no test holds behind it. -/
theorem piece_untouched (h : untouched U before (c :: text) after = true) :
    piece U d before c (text ++ after) = .ok ([c], [c]) ∧
      untouched U (c :: before) text after = true := by
  simp only [untouched, contains_eq_mem, mem_cons, not_mem_nil, or_false,
    Bool.and_eq_true, Bool.not_eq_true', decide_eq_false_iff_not, not_or, Bool.or_eq_true,
    bne_iff_ne, ne_eq, Option.isNone_iff_eq_none, Bool.and_eq_false_iff, beq_eq_false_iff_ne] at h
  obtain ⟨⟨⟨⟨⟨hhash, hliteral, hbacktick, hquote⟩, hdash⟩, hslash⟩, hdollar⟩, hrest⟩ := h
  exact ⟨piece_plain (fun h => hslash.elim (absurd h.1) (absurd h.2))
    (fun h => hdash.elim (absurd h.1) (absurd h.2)) (fun h => absurd h hhash) hliteral
    (fun h => hdollar.resolve_left (not_not_intro h)) hbacktick hquote, hrest⟩

theorem passes_untouched
    (h : untouched U before text after = true) : Passes U d before text text after := by
  induction text generalizing before with
  | nil => exact passes_nil before after
  | cons c text ih =>
    obtain ⟨hpiece, hrest⟩ := piece_untouched h
    have hfirst : Passes U d before [c] [c] (text ++ after) := by
      refine passes_of_piece fun r hr => ?_
      rw [nil_append, hpiece] at hr
      exact (Except.ok.inj hr).symm
    exact passes_append hfirst (ih hrest)

/-- The scanner takes no dollar sign of the text for the start of a string. -/
def noOpener (U : Unicode) : List Char → List Char → List Char → Bool
  | _, [], _ => true
  | before, c :: text, after =>
    (c != '$' || (opensDollar U before (text ++ after)).isNone) &&
      noOpener U (c :: before) text after

/-- A character that may open something other than a dollar-quoted string. -/
def isOpening (c : Char) : Bool :=
  ['/', '-', '#', apostrophe, backtick, doubleQuote].contains c

/-- In a run of characters that open nothing no test holds. -/
theorem untouched_of_plain (hplain : ∀ c ∈ text, isOpening c = false)
    (hdollar : noOpener U before text after = true) :
    untouched U before text after = true := by
  induction text generalizing before with
  | nil => rfl
  | cons c text ih =>
    simp only [noOpener, Bool.and_eq_true] at hdollar
    have hc : isOpening c = false := hplain c mem_cons_self
    simp only [isOpening, contains_eq_mem, mem_cons, not_mem_nil, or_false,
      decide_eq_false_iff_not, not_or] at hc
    have hrest := ih (fun e he => hplain e (mem_cons_of_mem c he)) hdollar.2
    simp [untouched, hc, hdollar.1, hrest]

theorem passes_plain (hplain : ∀ c ∈ text, isOpening c = false)
    (hdollar : noOpener U before text after = true) : Passes U d before text text after :=
  passes_untouched (untouched_of_plain hplain hdollar)

/-! ## Stretches of text -/

theorem literal_eq_quoted_text (escapes : Bool) (text : List Char) : literal escapes text =
      quotedText (if escapes then some backslash else none) apostrophe text := by
  have hescape : ∀ c, (if escapes then some backslash else none) = some c ↔
      (escapes && c == backslash) = true := by
    intro c
    cases escapes with
    | false => simp
    | true => simpa using eq_comm
  fun_induction literal escapes text with
  | case1 | case2 => rfl
  | case3 c e rest h ih => rw [quotedText, if_pos ((hescape c).mpr h), ih]
  | case4 c e rest h hquote hdouble ih =>
    rw [quotedText, if_neg (mt (hescape c).mp h), if_pos (eq_of_beq hquote),
      if_pos (eq_of_beq hdouble), ih]
  | case5 c e rest h hquote hdouble =>
    rw [quotedText, if_neg (mt (hescape c).mp h), if_pos (eq_of_beq hquote),
      if_neg fun heq => hdouble (beq_iff_eq.mpr heq)]
  | case6 c e rest h hquote ih =>
    rw [quotedText, if_neg (mt (hescape c).mp h), if_neg fun heq => hquote (beq_iff_eq.mpr heq), ih]

theorem nested_comment_eq_nested_text {depth : Nat} (hdepth : 0 < depth) (text : List Char) :
    nestedComment depth text = nestedText depth text := by
  fun_induction nestedText depth text with
  | case1 depth => cases depth <;> rfl
  | case2 depth rest ih =>
    obtain ⟨depth, rfl⟩ := Nat.exists_eq_succ_of_ne_zero hdepth.ne'
    rw [nestedComment, ih (by omega)]
  | case3 depth rest hone =>
    obtain rfl : depth = 1 := by omega
    rw [nestedComment, nestedComment]
  | case4 depth rest hmany ih =>
    obtain ⟨depth, rfl⟩ := Nat.exists_eq_succ_of_ne_zero hdepth.ne'
    rw [nestedComment, ← ih (by omega)]
    rfl
  | case5 depth c rest hopen hclose ih =>
    obtain ⟨depth, rfl⟩ := Nat.exists_eq_succ_of_ne_zero hdepth.ne'
    rw [nestedComment, ih hdepth]
    · exact hopen
    · exact hclose

theorem through_text_of_up_to {mark body : List Char} (h : upTo mark text = some body) :
    throughText mark text = body ++ mark := by
  fun_induction upTo mark text generalizing body with
  | case1 => cases h
  | case2 c rest hmark =>
    obtain rfl := Option.some.inj h
    rw [throughText, if_pos hmark, nil_append]
  | case3 c rest hmark ih =>
    obtain ⟨inner, hinner, rfl⟩ := Option.map_eq_some_iff.mp h
    rw [throughText, if_neg hmark, ih hinner, cons_append]

theorem through_text_of_up_to_none {mark : List Char} (h : upTo mark text = none) :
    throughText mark text = text := by
  fun_induction upTo mark text with
  | case1 => rfl
  | case2 c rest hmark => cases h
  | case3 c rest hmark ih =>
    rw [throughText, if_neg hmark, ih (by simpa using h)]

/-- An escape stands before a quote, the doubled quotes and the escaped characters being pairs. -/
def escapesQuote (quote : Char) : List Char → Bool
  | [] => false
  | [_] => false
  | c :: d :: rest =>
    if c = backslash then d == quote || escapesQuote quote rest
    else if c = quote then escapesQuote quote rest
    else escapesQuote quote (d :: rest)

theorem quoted_text_none_cons (h : c ≠ quote) (text : List Char) :
    quotedText none quote (c :: text) = c :: quotedText none quote text := by
  cases text with
  | nil => rfl
  | cons d text => rw [quotedText, if_neg (by simp), if_neg h]

theorem quoted_text_escapes (hquote : quote ≠ backslash)
    (h : escapesQuote quote (quotedText none quote text) = false) :
    quotedText (some backslash) quote text = quotedText none quote text := by
  induction hlen : text.length using Nat.strongRecOn generalizing text with
  | ind n ih =>
    match text with
    | [] => rfl
    | [c] => rfl
    | c :: e :: rest =>
      have hrest : escapesQuote quote (quotedText none quote rest) = false →
          quotedText (some backslash) quote rest = quotedText none quote rest :=
        fun h => ih rest.length (by simp only [length_cons] at hlen; omega) h rfl
      by_cases hc : c = quote
      · have hback : ¬ some backslash = some c := by
          rw [hc]
          exact fun heq => hquote (Option.some.inj heq).symm
        by_cases he : e = quote
        · rw [quotedText, if_neg (by simp), if_pos hc, if_pos he, escapesQuote,
            if_neg (by rw [hc]; exact hquote), if_pos hc] at h
          rw [quotedText, if_neg hback, if_pos hc, if_pos he, quotedText, if_neg (by simp),
            if_pos hc, if_pos he, hrest h]
        · rw [quotedText, if_neg hback, if_pos hc, if_neg he, quotedText, if_neg (by simp),
            if_pos hc, if_neg he]
      · rw [quoted_text_none_cons hc] at h ⊢
        obtain ⟨more, hmore⟩ := quoted_text_head none quote e rest
        rw [hmore, escapesQuote] at h
        by_cases hback : c = backslash
        · simp only [if_pos hback, Bool.or_eq_false_iff, beq_eq_false_iff_ne] at h
          rw [quoted_text_none_cons h.1] at hmore
          obtain rfl := (List.cons.inj hmore).2
          rw [quotedText, if_pos (by rw [hback]), quoted_text_none_cons h.1, hrest h.2]
        · rw [if_neg hback, if_neg hc, ← hmore] at h
          rw [quotedText, if_neg (by simpa using Ne.symm hback), if_neg hc]
          exact congrArg (c :: ·)
            (ih (e :: rest).length (by simp only [length_cons] at hlen ⊢; omega) h rfl)

theorem quoted_text_plain (hquote : quote ≠ backslash)
    (h : escapesQuote quote (quotedText (some backslash) quote text) = false) :
    quotedText none quote text = quotedText (some backslash) quote text := by
  fun_induction quotedText (some backslash) quote text with
  | case1 | case2 => rfl
  | case3 c e rest hback ih =>
    have hc : c = backslash := (Option.some.inj hback).symm
    simp only [escapesQuote, if_pos hc, Bool.or_eq_false_iff, beq_eq_false_iff_ne] at h
    rw [quoted_text_none_cons (by rw [hc]; exact hquote.symm), quoted_text_none_cons h.1, ih h.2]
  | case4 rest hback ih =>
    rw [escapesQuote, if_neg hquote, if_pos rfl] at h
    rw [quotedText, if_neg (by simp), if_pos rfl, if_pos rfl, ih h]
  | case5 e rest hdouble =>
    rw [quotedText, if_neg (by simp), if_pos rfl, if_neg hdouble]
  | case6 c e rest hback hc ih =>
    obtain ⟨more, hmore⟩ := quoted_text_head (some backslash) quote e rest
    rw [hmore, escapesQuote, if_neg (by simpa using Ne.symm hback), if_neg hc, ← hmore] at h
    rw [quoted_text_none_cons hc, ih h]

/-- The content of a quoted text, after the opening quote, with each doubled quote once. -/
def contentOf (quote : Char) : List Char → List Char
  | [] => []
  | [c] => if c = quote then [] else [c]
  | c :: d :: rest =>
    if c = quote then if d = quote then c :: contentOf quote rest else []
    else c :: contentOf quote (d :: rest)

theorem identifier_consumed (quote : Char) (text : List Char) :
    (identifier quote text).2 = quotedText (some backslash) quote text := by
  fun_induction identifier quote text with
  | case1 | case2 => rfl
  | case3 c e rest hback out consumed hrec ih =>
    rw [hrec] at ih
    rw [quotedText, if_pos (by rw [eq_of_beq hback]), ← ih]
  | case4 c e rest hback hquote hdouble out consumed hrec ih =>
    rw [hrec] at ih
    rw [quotedText, if_neg fun heq => hback (beq_iff_eq.mpr (Option.some.inj heq).symm),
      if_pos (eq_of_beq hquote), if_pos (eq_of_beq hdouble), ← ih]
  | case5 c e rest hback hquote hdouble =>
    rw [quotedText, if_neg fun heq => hback (beq_iff_eq.mpr (Option.some.inj heq).symm),
      if_pos (eq_of_beq hquote), if_neg fun heq => hdouble (beq_iff_eq.mpr heq)]
  | case6 c e rest hback hquote out consumed hrec ih =>
    rw [hrec] at ih
    rw [quotedText, if_neg fun heq => hback (beq_iff_eq.mpr (Option.some.inj heq).symm),
      if_neg fun heq => hquote (beq_iff_eq.mpr heq), ← ih]

/-- What is written in a quoted identifier, after the opening quote, with each doubled quote once and
the escapes as they stand. -/
def writtenIn (quote : Char) : List Char → List Char
  | [] => []
  | [c] => if c = quote then [] else [c]
  | c :: d :: rest =>
    if c = backslash then c :: d :: writtenIn quote rest
    else if c = quote then if d = quote then c :: writtenIn quote rest else []
    else c :: writtenIn quote (d :: rest)

theorem identifier_written (quote : Char) (text : List Char) :
    (identifier quote text).1 = writtenIn quote (identifier quote text).2 := by
  have hhead : ∀ e rest, ∃ more, (identifier quote (e :: rest)).2 = e :: more := by
    intro e rest
    rw [identifier_consumed]
    exact quoted_text_head _ quote e rest
  fun_induction identifier quote text with
  | case1 => rfl
  | case2 c => simp [writtenIn]
  | case3 c e rest hback out consumed hrec ih =>
    rw [hrec] at ih
    rw [writtenIn, if_pos (eq_of_beq hback), ← ih]
  | case4 c e rest hback hc hdouble out consumed hrec ih =>
    rw [hrec] at ih
    rw [writtenIn, if_neg (by simpa using hback), if_pos (eq_of_beq hc),
      if_pos (eq_of_beq hdouble), ← ih]
  | case5 c e rest hback hc hdouble => rw [writtenIn, if_pos (eq_of_beq hc)]
  | case6 c e rest hback hc out consumed hrec ih =>
    rw [hrec] at ih
    obtain ⟨more, hmore⟩ := hhead e rest
    rw [hrec] at hmore
    obtain rfl : consumed = e :: more := hmore
    rw [writtenIn, if_neg (by simpa using hback), if_neg (by simpa using hc), ← ih]

theorem content_of_cons (h : c ≠ quote) (text : List Char) :
    contentOf quote (c :: text) = c :: contentOf quote text := by
  cases text with
  | nil => simp [contentOf, h]
  | cons e text => rw [contentOf, if_neg h]

theorem written_eq_content (hquote : quote ≠ backslash)
    (h : escapesQuote quote text = false) : writtenIn quote text = contentOf quote text := by
  fun_induction writtenIn quote text with
  | case1 => rfl
  | case2 | case3 => simp_all [contentOf]
  | case4 e rest ih =>
    rw [escapesQuote, if_pos rfl, Bool.or_eq_false_iff, beq_eq_false_iff_ne] at h
    rw [content_of_cons hquote.symm, content_of_cons h.1, ih h.2]
  | case5 rest hback ih =>
    rw [escapesQuote, if_neg hback, if_pos rfl] at h
    rw [contentOf, if_pos rfl, if_pos rfl, ih h]
  | case6 e rest he hback => rw [contentOf, if_pos rfl, if_neg he]
  | case7 c e rest hback hc ih =>
    rw [escapesQuote, if_neg hback, if_neg hc] at h
    rw [content_of_cons hc, ih h]

/-! ## Strings and identifiers -/

/-- A constant is dropped, unless it raises. -/
theorem passes_literal {rest more : List Char} (hrest : rest = more ++ after)
    (hmore : literal (d.backslashEscapes || prefixIs U before "E") rest = more) :
    Passes U d before (apostrophe :: more) [' '] after := by
  refine passes_of_piece fun r hr => ?_
  rw [← hrest] at hr
  have hplain : apostrophe ≠ '/' ∧ apostrophe ≠ '-' ∧ apostrophe ≠ '#' := by decide
  simp only [piece, beq_eq_false_iff_ne.mpr hplain.1, beq_eq_false_iff_ne.mpr hplain.2.1,
    beq_eq_false_iff_ne.mpr hplain.2.2, Bool.false_and, Bool.and_false, Bool.or_false,
    Bool.false_eq_true, if_false, beq_self_eq_true, if_true] at hr
  split at hr
  · cases hr
  · rw [hmore] at hr
    exact (Except.ok.inj hr).symm

theorem passes_written {rest : List Char} (hquote : quote = backtick ∨ quote = doubleQuote)
    (hrest : rest = quotedText (some backslash) quote rest ++ after) :
    Passes U d before (quote :: quotedText (some backslash) quote rest)
      (writtenIn quote (quotedText (some backslash) quote rest)) after := by
  refine passes_of_piece fun r hr => ?_
  rw [← hrest] at hr
  have hplain : quote ≠ '/' ∧ quote ≠ '-' ∧ quote ≠ '#' ∧ quote ≠ apostrophe ∧ quote ≠ '$' := by
    rcases hquote with rfl | rfl <;> decide
  have hopens : (quote == backtick || quote == doubleQuote) = true := by
    simpa using hquote
  simp only [piece, beq_eq_false_iff_ne.mpr hplain.1, beq_eq_false_iff_ne.mpr hplain.2.1,
    beq_eq_false_iff_ne.mpr hplain.2.2.1, beq_eq_false_iff_ne.mpr hplain.2.2.2.1,
    beq_eq_false_iff_ne.mpr hplain.2.2.2.2, hopens, Bool.false_and, Bool.and_false,
    Bool.or_false, Bool.false_eq_true, if_false, if_true] at hr
  split at hr
  · cases hr
  · rw [← identifier_consumed, ← identifier_written]
    exact (Except.ok.inj hr).symm

theorem passes_block_comment {rest : List Char} (hrest : rest = blockComment d rest ++ after) :
    Passes U d before ('/' :: '*' :: blockComment d rest) [' '] after := by
  refine passes_of_piece fun r hr => ?_
  rw [cons_append, ← hrest] at hr
  have hpiece : ∀ text : List Char, text.head? = some '*' → piece U d before '/' text = .ok r →
      r = ([' '], '/' :: '*' :: blockComment d text.tail) := by
    intro text htext h
    rw [piece, if_pos (by simp [htext])] at h
    split at h
    · cases h
    · exact (Except.ok.inj h).symm
  exact hpiece _ rfl hr

theorem dollar_tag_some {rest tag : List Char} (h : dollarTag rest = some tag) :
    rest.takeWhile (fun c => c.isAlphanum || c == '_') = tag ∧ ∃ body, rest = tag ++ '$' :: body := by
  simp only [dollarTag] at h
  split at h
  · next hhead =>
      obtain rfl := Option.some.inj h
      have hdrop := prefix_iff_eq_append.mp
        ( takeWhile_prefix (fun c : Char => c.isAlphanum || c == '_') (l := rest))
      rw [eq_cons_of_mem_head? hhead] at hdrop
      exact ⟨rfl, _, hdrop.symm⟩
  · cases h

/-- A dollar-quoted string is dropped, unless it raises. -/
theorem passes_dollar (hd : d.dollarQuote = true) {tag body : List Char}
    (hopens : opensDollar U before (tag ++ '$' :: body) = some tag)
    (hbody : body = throughText ('$' :: tag ++ ['$']) body ++ after) :
    Passes U d before ('$' :: (tag ++ '$' :: throughText ('$' :: tag ++ ['$']) body)) [' '] after := by
  refine passes_of_piece fun r hr => ?_
  rw [append_assoc, cons_append, ← hbody] at hr
  have hdrop : (tag ++ '$' :: body).drop (tag.length + 1) = body := by
    rw [← drop_drop, drop_left]
    rfl
  have hplain : ('$' == '/') = false ∧ ('$' == '-') = false ∧ ('$' == '#') = false ∧
      ('$' == apostrophe) = false := by decide
  simp only [piece, hplain, hd, hopens, hdrop, beq_self_eq_true, Bool.true_and, Bool.false_and,
    Bool.and_false, Bool.or_false, Bool.false_eq_true, if_false, if_true] at hr
  split at hr
  · cases hr
  · next inner hinner =>
      rw [through_text_of_up_to hinner, ← Except.ok.inj hr]
      simp

section Tags

variable {rest : List Char} {isTag : Char → Bool}
  (htags : ∀ c : Char, (c.isAlphanum || c == '_') = true → isTag c = true)
  (hstop : isTag '$' = false)

include htags hstop

theorem tag_of_opens_dollar {tag : List Char} (h : opensDollar U before rest = some tag) :
    rest.takeWhile isTag = tag ∧ ∃ body, rest = tag ++ '$' :: body := by
  unfold opensDollar at h
  split at h
  · cases h
  · obtain ⟨htag, body, hrest⟩ := dollar_tag_some h
    refine ⟨?_, body, hrest⟩
    rw [← htag] at hrest ⊢
    refine take_while_eq_of_stop hrest htags fun c hc => ?_
    obtain rfl := Option.some.inj hc
    exact hstop

theorem passes_dollar_token (hd : d.dollarQuote = true) {body : List Char}
    (hrest : rest = rest.takeWhile isTag ++ '$' :: body)
    (hsplit : rest = rest.takeWhile isTag ++ ['$'] ++
      throughText ('$' :: rest.takeWhile isTag ++ ['$']) body ++ after)
    (hopens : (opensDollar U before rest).isSome = true) :
    Passes U d before ('$' :: rest.takeWhile isTag ++ ['$'] ++
      throughText ('$' :: rest.takeWhile isTag ++ ['$']) body) [' '] after := by
  obtain ⟨tag, htag⟩ := Option.isSome_iff_exists.mp hopens
  rw [(tag_of_opens_dollar htags hstop htag).1] at hrest hsplit ⊢
  have hbody : body = throughText ('$' :: tag ++ ['$']) body ++ after := by
    rw [hrest, append_assoc, append_assoc, append_right_inj] at hsplit
    exact (List.cons.inj hsplit).2
  have hpasses : Passes U d before
      ('$' :: (tag ++ '$' :: throughText ('$' :: tag ++ ['$']) body)) [' '] after :=
    passes_dollar hd (by rw [← hrest]; exact htag) hbody
  simpa using hpasses

end Tags

end AwsOps.SqlGuard
