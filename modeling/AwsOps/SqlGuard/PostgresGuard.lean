import AwsOps.Foundation.Postgres
import AwsOps.SqlGuard.Agreement

/-!
# The guard before PostgreSQL

The scanner of the guard beside the lexer of the server, token by token (`strip_sql_eq_kept`).
-/

namespace AwsOps.SqlGuard

open List Text Tokens Postgres

variable (U : Unicode)

/-- What is to be kept of a token: blanks for comments and constants, of an identifier in quotes
its content, and else the text. -/
def kept (t : Token Kind) : List Char :=
  match t.kind with
  | .line | .block | .constant | .continued | .dollar => [' ']
  | .escape => t.text.take 1 ++ [' ']
  | .quoted => contentOf doubleQuote t.text.tail
  | .blank | .word | .number | .parameter | .symbol => t.text

/-- The guard and the lexer agree on a token: no carriage return ends a comment, no backslash stands
before a quote where only one of them takes it for an escape, the tests for the prefix `E` and for
the tag of a dollar-quoted string hold just where the lexer reads one, and there is no backtick. -/
def Clean (before : List Char) (t : Token Kind) (after : List Char) : Prop :=
  match t.kind with
  | .blank | .block => True
  | .line => after.head? ≠ some '\r'
  | .constant => prefixIs U before "E" = false
  | .continued =>
    prefixIs U before "E" = false ∧ escapesQuote apostrophe t.text.tail = false
  | .escape => prefixIs U (t.text.take 1 ++ before) "E" = true
  | .dollar => (opensDollar U before (t.text.tail ++ after)).isSome = true
  | .quoted => escapesQuote doubleQuote t.text.tail = false
  | .word | .number | .parameter => noOpener U before t.text after = true
  | .symbol => t.text ≠ [backtick]

instance (before : List Char) (t : Token Kind) (after : List Char) :
    Decidable (Clean U before t after) := by
  unfold Clean
  split <;> infer_instance

variable {U}

/-! ## Token by token -/

variable {before after : List Char} {c : Char}

theorem passes_blank (h : isBlank c = true) : Passes U postgres before [c] [c] after := by
  have hc : isOpening c = false ∧ c ≠ '$' := by
    simp only [isBlank, isNewline, Bool.or_eq_true, beq_iff_eq] at h
    rcases h with (((h | h) | h | h) | h) | h <;> rw [h] <;> decide
  refine passes_plain (fun e he => ?_) ?_
  · rw [mem_singleton.mp he]
    exact hc.1
  · simp [noOpener, hc.2]

variable {rest : List Char}

theorem passes_line (hrest : rest = (rest.takeWhile fun c => !isNewline c) ++ after)
    (hopen : rest.head? = some '-') (hclean : after.head? ≠ some '\r') :
    Passes U postgres before ('-' :: rest.takeWhile fun c => !isNewline c) [' '] after := by
  have hsame : rest.takeWhile (fun c => c != '\n') = rest.takeWhile fun c => !isNewline c := by
    refine take_while_eq_of_stop hrest (fun c hc => ?_) fun c hc => ?_
    · simp only [isNewline, Bool.not_eq_true', Bool.or_eq_false_iff] at hc
      simp [bne, hc.1]
    · have hnewline := stop_of_take_while hrest hc
      simp only [isNewline, Bool.not_eq_false', Bool.or_eq_true, beq_iff_eq] at hnewline
      rcases hnewline with rfl | rfl
      · rfl
      · exact absurd hc hclean
  refine passes_of_piece fun r hr => ?_
  rw [← hrest] at hr
  have hpiece : piece U postgres before '-' rest =
      .ok ([' '], '-' :: rest.takeWhile fun c => c != '\n') := by
    simp [piece, hopen, dashOpens, postgres, pure, Except.pure]
  rw [hpiece, hsame] at hr
  exact (Except.ok.inj hr).symm

theorem passes_block (hrest : rest = nestedText 1 rest ++ after) :
    Passes U postgres before ('/' :: '*' :: nestedText 1 rest) [' '] after := by
  have hcomment : blockComment postgres rest = nestedText 1 rest := by
    rw [blockComment, if_pos (show postgres.nestedBlockComment = true from rfl),
      nested_comment_eq_nested_text Nat.one_pos]
  rw [← hcomment] at hrest ⊢
  exact passes_block_comment hrest

theorem passes_identifier (hrest : rest = quotedText none doubleQuote rest ++ after)
    (hescape : escapesQuote doubleQuote (quotedText none doubleQuote rest) = false) :
    Passes U postgres before (doubleQuote :: quotedText none doubleQuote rest)
      (contentOf doubleQuote (quotedText none doubleQuote rest)) after := by
  have hsame := quoted_text_escapes (by decide) hescape
  rw [← hsame] at hescape hrest ⊢
  rw [← written_eq_content (by decide) hescape]
  exact passes_written (.inr rfl) hrest

theorem not_opening (h : isIdentCont c = true) : isOpening c = false := by
  rw [Bool.eq_false_iff]
  intro hopening
  simp only [isOpening, contains_eq_mem, mem_cons, not_mem_nil, or_false,
    decide_eq_true_eq] at hopening
  rcases hopening with rfl | rfl | rfl | rfl | rfl | rfl <;> revert h <;> decide

theorem passes_run {more : List Char} (hc : isIdentCont c = true)
    (hmore : ∀ e ∈ more, isIdentCont e = true)
    (hdollar : noOpener U before (c :: more) after = true) :
    Passes U postgres before (c :: more) (c :: more) after := by
  refine passes_plain (fun e he => ?_) hdollar
  rcases mem_cons.mp he with rfl | hmem
  · exact not_opening hc
  · exact not_opening (hmore e hmem)

theorem ident_cont_of_tag (h : isTagChar c = true) : isIdentCont c = true := by
  rw [isIdentCont, h, Bool.true_or]

theorem tag_char_of_alnum (c : Char) (h : (c.isAlphanum || c == '_') = true) :
    isTagChar c = true := by
  simp only [Char.isAlphanum, Bool.or_eq_true] at h
  simp only [isTagChar, isIdentStart, Bool.or_eq_true]
  tauto

theorem dollar_token_passes (htext : '$' :: rest = (dollarToken rest).text ++ after)
    (hclean : Clean U before (dollarToken rest) after) :
    Passes U postgres before (dollarToken rest).text (kept (dollarToken rest)) after := by
  have hrun : ∀ c ∈ rest.takeWhile isTagChar, isIdentCont c = true :=
    fun c hc => ident_cont_of_tag (mem_takeWhile_imp hc)
  have hstop : isTagChar '$' = false := by decide
  generalize htoken : dollarToken rest = t at *
  simp only [dollarToken] at htoken
  split at htoken
  · subst htoken
    exact passes_run rfl hrun hclean
  · split at htoken
    · next body hbody =>
        subst htoken
        have hrest : rest = rest.takeWhile isTagChar ++ '$' :: body := by
          rw [← hbody]
          exact (prefix_iff_eq_append.mp ( takeWhile_prefix _)).symm
        have hsplit := (List.cons.inj htext).2
        refine passes_dollar_token tag_char_of_alnum hstop rfl hrest hsplit ?_
        rw [hsplit]
        exact hclean
    · next hnone =>
        subst htoken
        have hopens : opensDollar U before rest = none := by
          by_contra hsome
          obtain ⟨tag, htag⟩ := Option.ne_none_iff_exists'.mp hsome
          obtain ⟨htake, body, hrest⟩ := tag_of_opens_dollar tag_char_of_alnum hstop htag
          refine hnone body ?_
          rw [htake, hrest, drop_left]
        have hafter : rest = after := (List.cons.inj htext).2
        rw [← hafter]
        exact passes_plain (fun e he => by rw [mem_singleton.mp he]; decide)
          (by simp [noOpener, hopens])

theorem first_token_passes {pending : Pending}
    (htext : c :: rest = (firstToken pending c rest).text ++ after)
    (hclean : Clean U before (firstToken pending c rest) after) :
    Passes U postgres before (firstToken pending c rest).text (kept (firstToken pending c rest))
      after := by
  generalize htoken : firstToken pending c rest = t at *
  unfold firstToken at htoken
  split at htoken
  · next hblank =>
      subst htoken
      exact passes_blank hblank
  split at htoken
  · next hopen =>
      simp only [Bool.and_eq_true, beq_iff_eq] at hopen
      obtain ⟨rfl, hopen⟩ := hopen
      subst htoken
      exact passes_line (List.cons.inj htext).2 hopen hclean
  split at htoken
  · next hopen =>
      simp only [Bool.and_eq_true, beq_iff_eq] at hopen
      obtain ⟨rfl, hopen⟩ := hopen
      subst htoken
      rw [eq_cons_of_mem_head? hopen] at htext
      exact passes_block (List.cons.inj (List.cons.inj htext).2).2
  split at htoken
  · next hquote =>
      obtain rfl := eq_of_beq hquote
      split at htoken
      · subst htoken
        obtain ⟨hstarts, hescape⟩ := hclean
        refine passes_literal (List.cons.inj htext).2 ?_
        rw [hstarts, ← quoted_text_plain (by decide) hescape]
        exact literal_eq_quoted_text false rest
      · subst htoken
        refine passes_literal (List.cons.inj htext).2 ?_
        rw [show prefixIs U before "E" = false from hclean]
        exact literal_eq_quoted_text false rest
  split at htoken
  · next hopen =>
      simp only [Bool.and_eq_true, Bool.or_eq_true, beq_iff_eq] at hopen
      obtain ⟨hc, hopen⟩ := hopen
      subst htoken
      rw [eq_cons_of_mem_head? hopen] at htext
      have hletter : Passes U postgres before [c] [c]
          (apostrophe :: quotedText (some backslash) apostrophe rest.tail ++ after) := by
        have hplain : isIdentCont c = true ∧ c ≠ '$' := by
          rcases hc with rfl | rfl <;> decide
        exact passes_run hplain.1 (by simp) (by simp [noOpener, hplain.2])
      refine passes_append hletter (passes_literal (List.cons.inj (List.cons.inj htext).2).2 ?_)
      have hstarts : prefixIs U (c :: before) "E" = true := hclean
      rw [reverse_singleton, singleton_append, hstarts, Bool.or_true]
      exact literal_eq_quoted_text true _
  split at htoken
  · next hquote =>
      obtain rfl := eq_of_beq hquote
      subst htoken
      exact passes_identifier (List.cons.inj htext).2 hclean
  split at htoken
  · next hdollar =>
      obtain rfl := eq_of_beq hdollar
      subst htoken
      exact dollar_token_passes htext hclean
  split at htoken
  · next hstart =>
      subst htoken
      have hc : isIdentCont c = true := by simp [isIdentCont, isTagChar, hstart]
      exact passes_run hc (fun e he => mem_takeWhile_imp he) hclean
  split at htoken
  · next hdigit =>
      subst htoken
      have hc : isIdentCont c = true := by simp [isIdentCont, isTagChar, hdigit]
      exact passes_run hc (fun e he => ident_cont_of_tag (mem_takeWhile_imp he)) hclean
  · next hblank hline hblock hliteral hescape hquote hdollar hstart hdigit =>
      subst htoken
      have hafter : rest = after := (List.cons.inj htext).2
      rw [← hafter]
      have hpiece : piece U postgres before c rest = .ok ([c], [c]) := by
        refine piece_plain (by simpa using hblock) (by simpa using hline) (fun _ => rfl)
          (by simpa using hliteral) (fun h => absurd h (by simpa using hdollar)) (fun h => ?_)
          (by simpa using hquote)
        exact hclean (by rw [h])
      exact passes_of_piece fun r hr => by
        rw [nil_append, hpiece] at hr
        exact (Except.ok.inj hr).symm

theorem strip_sql_eq_kept {text result : List Char} (hclean : Every (Clean U) [] (tokens text))
    (h : stripSql U postgres text = .ok result) : result = (tokens text).flatMap kept := by
  refine kept_of_scan (every_tokens (fun _ _ _ _ _ => first_token_passes) hclean) ?_
  rw [tokens, Lexer.flat_map_tokens]
  exact scan_of_strip_sql h

end AwsOps.SqlGuard
