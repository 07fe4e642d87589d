import AwsOps.Foundation.ClickHouse
import AwsOps.SqlGuard.Agreement
import AwsOps.SqlGuard.Reading

/-!
# The guard before ClickHouse

`_assert_read_only` of the ClickHouse connector, and its scanner beside the lexer of the server, token
by token (`strip_sql_eq_kept`).
-/

namespace AwsOps.SqlGuard.ClickHouse

open List Text Tokens AwsOps.ClickHouse Bool

/-! ## The guard -/

/-- The dialect that the connector asks for. -/
def dialect : Dialect where
  hashComment := true
  backslashEscapes := true
  dashCommentNeedsBoundary := false
  dollarQuote := true
  nestedBlockComment := false

/-- The families of `_TABLE_FN`, in upper case. -/
def tableFunctions : List String :=
  ["URL", "FILE", "REMOTE", "HDFS", "S3", "GCS", "ICEBERG", "HUDI", "DELTALAKE", "AZUREBLOBSTORAGE",
    "MONGODB", "MYSQL", "POSTGRESQL", "REDIS", "SQLITE", "JDBC", "ODBC", "INPUT", "CLUSTER",
    "EXECUTABLE"]

/-- The settings of `_SETTINGS_CLAUSE`, in upper case. -/
def boundingSettings : List String :=
  ["MAX_EXECUTION_TIME", "MAX_RESULT_ROWS", "READONLY", "TIMEOUT_OVERFLOW_MODE"]

variable (U : Unicode)

/-- The items that follow the stem of a family: `\w*\s*\(`. -/
def callItems : List Item :=
  [.many (isWord U), .many isSpace, .one (· == '(')]

def tableFn : List (List Item) :=
  tableFunctions.map fun stem => .boundary :: letters stem ++ callItems U

/-- The items that follow `SETTINGS`. -/
def settingItems (setting : String) : List Item :=
  [.boundary, .many (· != ';'), .boundary] ++ letters setting ++ [.boundary]

def settingsClause : List (List Item) :=
  boundingSettings.map fun setting => .boundary :: letters "SETTINGS" ++ settingItems setting

def assertReadOnly (sql : List Char) : Except String Unit := do
  let stripped ← stripSql U dialect sql
  if searchPhrase U settingsClause stripped then
    throw "read-only: overriding execution bounds via query-level SETTINGS is not allowed"
  SqlGuard.assertReadOnly U dialect
    (some (tableFn U,
      some "read-only: table functions (url/file/remote/s3/mysql/...) are not allowed")) sql

/-! ## What is kept -/

/-- What is to be kept of a token: a blank for comments and constants, of a quoted identifier what is
written in it, and else the text. -/
def kept (t : Token Kind) : List Char :=
  match t.kind, t.text with
  | .line, _ | .block, _ | .constant, _ | .heredoc, _ => [' ']
  | .quoted, quote :: text => writtenIn quote text
  | _, text => text

/-- The guard and the lexer agree on a token: the guard finds the tag of a heredoc, nothing that it
takes for a quote, a comment or a heredoc stands in another token, and a character that belongs to no
token is white space for both or for neither. -/
def Clean (before : List Char) (t : Token Kind) (after : List Char) : Prop :=
  match t.kind with
  | .blank | .line | .block | .constant | .quoted => True
  | .heredoc => (opensDollar U before (t.text.tail ++ after)).isSome = true
  | .curlyConstant | .curlyQuoted | .word | .number => untouched U before t.text after = true
  | .symbol => untouched U before t.text after = true ∧ t.text.all isSpace = false
  | .foreign => untouched U before t.text after = true ∧ t.text.all isSpace = true

instance (before : List Char) (t : Token Kind) (after : List Char) :
    Decidable (Clean U before t after) := by
  unfold Clean
  split <;> infer_instance

variable {U}

/-! ## Token by token -/

theorem blank_plain {c : Char} (h : isBlank c = true) : isOpening c = false ∧ c ≠ '$' := by
  have hascii : isAscii c = true := by
    simp only [isBlank, or_eq_true, and_eq_true, decide_eq_true_eq, beq_iff_eq] at h
    rcases h with rfl | h
    · decide
    · simp only [isAscii, decide_eq_true_eq]
      omega
  have key : isBlank c = true → isOpening c = false ∧ c ≠ '$' :=
    forall_ascii (fun c => isBlank c = true → isOpening c = false ∧ c ≠ '$') (by decide) c hascii
  exact key h

theorem passes_blank {before after : List Char} {c : Char} (h : isBlank c = true) :
    Passes U dialect before [c] [c] after := by
  obtain ⟨hopening, hdollar⟩ := blank_plain h
  refine passes_plain (fun e he => ?_) ?_
  · rw [mem_singleton.mp he]
    exact hopening
  · simp [noOpener, hdollar]

theorem passes_line {before rest after : List Char} {c : Char} (hopen : opensLine c rest = true)
    (hrest : rest = (rest.takeWhile fun c => c != '\n') ++ after) :
    Passes U dialect before (c :: rest.takeWhile fun c => c != '\n') [' '] after := by
  refine passes_of_piece fun r hr => ?_
  rw [← hrest] at hr
  have hpiece : piece U dialect before c rest =
      .ok ([' '], c :: rest.takeWhile fun c => c != '\n') := by
    simp only [opensLine, or_eq_true, and_eq_true, beq_iff_eq] at hopen
    rcases hopen with ⟨rfl, hdash⟩ | ⟨rfl, -⟩
    · simp [piece, hdash, dashOpens, dialect, pure, Except.pure]
    · simp [piece, dialect, pure, Except.pure]
  rw [hpiece] at hr
  exact (Except.ok.inj hr).symm

theorem passes_block {before rest after : List Char}
    (hrest : rest = throughText ['*', '/'] rest ++ after) :
    Passes U dialect before ('/' :: '*' :: throughText ['*', '/'] rest) [' '] after := by
  have hcomment : blockComment dialect rest = throughText ['*', '/'] rest := by
    unfold blockComment
    rw [if_neg (by decide)]
    split
    · next body hbody => rw [through_text_of_up_to hbody]
    · next hnone => rw [through_text_of_up_to_none hnone]
  rw [← hcomment] at hrest ⊢
  exact passes_block_comment hrest

theorem dollar_token_passes {before rest after : List Char}
    (htext : '$' :: rest = (dollarToken rest).text ++ after)
    (hclean : Clean U before (dollarToken rest) after) :
    Passes U dialect before (dollarToken rest).text (kept (dollarToken rest)) after := by
  have htags : ∀ c : Char, (c.isAlphanum || c == '_') = true → (c != '$') = true := by
    intro c hc
    rw [bne_iff_ne]
    rintro rfl
    revert hc
    decide
  generalize htoken : dollarToken rest = t at *
  simp only [dollarToken] at htoken
  split at htoken
  · next hopen =>
      subst htoken
      simp only [and_eq_true, contains_eq_mem, decide_eq_true_eq] at hopen
      refine passes_dollar_token htags (by decide) rfl (split_at_dollar hopen.1)
        (List.cons.inj htext).2 ?_
      rw [(List.cons.inj htext).2]
      exact hclean
  · split at htoken
    · subst htoken
      exact passes_untouched hclean
    · subst htoken
      exact passes_untouched hclean.1

/-- A token of a text passes, with what is to be kept of it, if it is clean. -/
def TokenPasses (U : Unicode) (before text after : List Char) (t : Token Kind) : Prop :=
  text = t.text ++ after → Clean U before t after → Passes U dialect before t.text (kept t) after

theorem first_token_passes (before : List Char) (c : Char) (rest after : List Char) :
    TokenPasses U before (c :: rest) after (firstToken c rest) := by
  unfold firstToken
  -- The tests are kept out of `split`, which would rewrite them in every branch.
  refine iteInduction (fun hblank _ _ => passes_blank hblank) fun _ => ?_
  refine iteInduction (fun hopen htext _ => passes_line hopen (List.cons.inj htext).2) fun _ => ?_
  refine iteInduction (fun hopen htext _ => ?_) fun _ => ?_
  · simp only [and_eq_true, beq_iff_eq] at hopen
    obtain ⟨rfl, hopen⟩ := hopen
    rw [eq_cons_of_mem_head? hopen] at htext
    exact passes_block (List.cons.inj (List.cons.inj htext).2).2
  refine iteInduction (fun hquote htext _ => ?_) fun _ => ?_
  · obtain rfl := eq_of_beq hquote
    exact passes_literal (List.cons.inj htext).2 (literal_eq_quoted_text true rest)
  refine iteInduction (fun hquote htext _ => ?_) fun _ => ?_
  · simp only [or_eq_true, beq_iff_eq] at hquote
    exact passes_written hquote.symm (List.cons.inj htext).2
  refine iteInduction (fun hdollar htext hclean => ?_) fun _ => ?_
  · obtain rfl := eq_of_beq hdollar
    exact dollar_token_passes htext hclean
  refine iteInduction (fun _ _ hclean => passes_untouched hclean) fun _ => ?_
  refine iteInduction (fun _ _ hclean => passes_untouched hclean) fun _ => ?_
  refine iteInduction (fun _ _ hclean => passes_untouched hclean) fun _ => ?_
  refine iteInduction (fun _ _ hclean => passes_untouched hclean) fun _ => ?_
  exact iteInduction (fun _ _ hclean => passes_untouched hclean.1)
    fun _ _ hclean => passes_untouched hclean.1

theorem strip_sql_eq_kept {text result : List Char} (hclean : Every (Clean U) [] (tokens text))
    (h : stripSql U dialect text = .ok result) : result = (tokens text).flatMap kept := by
  have hpasses : Every (fun before t after => Passes U dialect before t.text (kept t) after) []
      (tokens text) :=
    every_tokens (fun _ before c rest after htext hc => first_token_passes before c rest after htext hc)
      hclean
  refine kept_of_scan hpasses ?_
  rw [tokens, Lexer.flat_map_tokens]
  exact scan_of_strip_sql h

end AwsOps.SqlGuard.ClickHouse
