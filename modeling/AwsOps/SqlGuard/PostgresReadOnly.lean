import AwsOps.SqlGuard.PostgresGuard
import AwsOps.SqlGuard.Reading

/-!
# Statements that PostgreSQL runs

What `assert_read_only` promises of the tokens of PostgreSQL: no second statement, and no word of
`DANGER` outside comments, constants and quoted identifiers.
-/

namespace AwsOps.SqlGuard

open List Text Tokens Postgres Bool

/-! ## Words beside quoted identifiers -/

instance : Lexicon Kind where
  word := .word
  symbol := .symbol
  gap k := k == .blank || k == .line || k == .block

@[simp] theorem postgres_word : (Lexicon.word : Kind) = .word :=
  rfl

variable (U : Unicode)

/-- A quoted identifier whose content ends in a word character, or is empty. -/
def endsInWord (t : Token Kind) : Bool :=
  t.kind == .quoted && (contentOf doubleQuote t.text.tail).getLast?.all (isWord U)

/-- A quoted identifier whose content opens with a word character, or is empty. -/
def startsInWord (t : Token Kind) : Bool :=
  t.kind == .quoted && (contentOf doubleQuote t.text.tail).head?.all (isWord U)

/-- No forbidden phrase is right beside the word characters of a quoted identifier. -/
def Apart (tokens : List (Token Kind)) : Prop :=
  ∀ before phrase exact after, tokens = before ++ phrase ++ after → Forbidden U phrase exact →
    before.getLast?.any (endsInWord U) = false ∧
      (exact = true → after.head?.any (startsInWord U) = false)

variable {U}

/-- Outside comments, constants and quoted identifiers. -/
def isVisible (t : Token Kind) : Bool :=
  match t.kind with
  | .blank | .word | .number | .parameter | .symbol => true
  | _ => false

theorem visible_sublist (tokens : List (Token Kind)) :
    List.Sublist ((tokens.filter isVisible).flatMap Token.text) (tokens.flatMap kept) := by
  induction tokens with
  | nil => exact List.Sublist.slnil
  | cons t tokens ih =>
    rw [flatMap_cons]
    cases hvisible : isVisible t with
    | false =>
      rw [filter_cons_of_neg (by simp [hvisible])]
      exact ih.trans (sublist_append_right _ _)
    | true =>
      rw [filter_cons_of_pos hvisible, flatMap_cons]
      refine List.Sublist.append ?_ ih
      obtain ⟨kind, text⟩ := t
      cases kind with
      | blank | word | number | parameter | symbol => exact List.Sublist.refl _
      | _ => cases hvisible

/-! ## Neighbours -/

/-- What the text of a token opens with. -/
def Shaped (t : Token Kind) : Prop :=
  match t.kind with
  | .blank => ∃ c, t.text = [c] ∧ isBlank c = true
  | .symbol => ∃ c, t.text = [c] ∧ isTagChar c = false
  | .word | .number | .escape => ∃ c more, t.text = c :: more ∧ isTagChar c = true
  | .parameter => ∃ more, t.text = '$' :: more
  | _ => True

/-- The longest run of characters is read: what follows a word continues no identifier, and what
follows a number or a parameter no tag. -/
def Follows (t : Token Kind) (next : Option Char) : Prop :=
  match t.kind with
  | .word => next.all (fun c => !isIdentCont c) = true
  | .number | .parameter => next.all (fun c => !isTagChar c) = true
  | _ => True

theorem dollar_token_shaped {rest after : List Char}
    (htext : '$' :: rest = (dollarToken rest).text ++ after) :
    Shaped (dollarToken rest) ∧ Follows (dollarToken rest) after.head? := by
  generalize htoken : dollarToken rest = t at *
  simp only [dollarToken] at htoken
  split at htoken
  · subst htoken
    exact ⟨⟨_, rfl⟩, all_not_of_take_while (List.cons.inj htext).2⟩
  · split at htoken
    · subst htoken
      exact ⟨trivial, trivial⟩
    · subst htoken
      exact ⟨⟨'$', rfl, by decide⟩, trivial⟩

variable {c : Char} {text : List Char} {t : Token Kind}

theorem first_token_shaped {pending : Pending} {rest after : List Char}
    (htext : c :: rest = (firstToken pending c rest).text ++ after) :
    Shaped (firstToken pending c rest) ∧ Follows (firstToken pending c rest) after.head? := by
  generalize htoken : firstToken pending c rest = t at *
  unfold firstToken at htoken
  split at htoken
  · next hblank =>
      subst htoken
      exact ⟨⟨c, rfl, hblank⟩, trivial⟩
  split at htoken
  · subst htoken
    exact ⟨trivial, trivial⟩
  split at htoken
  · subst htoken
    exact ⟨trivial, trivial⟩
  split at htoken
  · split at htoken <;> subst htoken <;> exact ⟨trivial, trivial⟩
  split at htoken
  · next hopen =>
      simp only [and_eq_true, or_eq_true, beq_iff_eq] at hopen
      subst htoken
      refine ⟨⟨c, _, rfl, ?_⟩, trivial⟩
      rcases hopen.1 with rfl | rfl <;> decide
  split at htoken
  · subst htoken
    exact ⟨trivial, trivial⟩
  split at htoken
  · next hdollar =>
      obtain rfl := eq_of_beq hdollar
      subst htoken
      exact dollar_token_shaped htext
  split at htoken
  · next hstart =>
      subst htoken
      exact ⟨⟨c, _, rfl, by simp [isTagChar, hstart]⟩,
        all_not_of_take_while (List.cons.inj htext).2⟩
  split at htoken
  · next hdigit =>
      subst htoken
      exact ⟨⟨c, _, rfl, by simp [isTagChar, hdigit]⟩,
        all_not_of_take_while (List.cons.inj htext).2⟩
  · next hstart hdigit =>
      subst htoken
      exact ⟨⟨c, rfl, by simp [isTagChar, hstart, hdigit]⟩, trivial⟩

theorem shaped_of_mem {before after : List (Token Kind)} (h : tokens text = before ++ t :: after) :
    Shaped t ∧ Follows t (after.flatMap Token.text).head? := by
  have hevery : Every (fun _ t after => Shaped t ∧ Follows t after.head?) [] (tokens text) :=
    every_tokens (fun _ _ _ _ _ htext _ => first_token_shaped htext) (every_true _ _)
  rw [h] at hevery
  exact every_append hevery

theorem blank_space (h : isBlank c = true) : isSpace c = true ∧ isTagChar c = false := by
  simp only [isBlank, isNewline, or_eq_true, beq_iff_eq] at h
  rcases h with (((rfl | rfl) | rfl | rfl) | rfl) | rfl <;> decide

theorem not_word_of_not_tag (h : isTagChar c = false) : isWord U c = false := by
  simp only [isTagChar, isIdentStart, or_eq_false_iff, not_eq_false'] at h
  obtain ⟨⟨⟨halpha, hunderscore⟩, hascii⟩, hdigit⟩ := h
  simp [isWord, U.alnum_ascii c hascii, Char.isAlphanum, halpha, hunderscore, hdigit]

/-- What is kept of a token that is no word ends in no word character, unless it is a quoted
identifier that does. -/
theorem kept_last (hshape : Shaped t) (hword : t.kind ≠ .word) (hnumber : t.kind ≠ .number)
    (hparameter : t.kind ≠ .parameter) (hapart : endsInWord U t = false) :
    ∃ c, (kept t).getLast? = some c ∧ isWord U c = false := by
  have hspace : isWord U ' ' = false := not_word_of_not_tag (by decide)
  obtain ⟨kind, text⟩ := t
  cases kind with
  | word | number | parameter => contradiction
  | line | block | constant | continued | dollar => exact ⟨' ', rfl, hspace⟩
  | escape => exact ⟨' ', List.getLast?_concat, hspace⟩
  | blank =>
    obtain ⟨c, rfl, hc⟩ := hshape
    exact ⟨c, rfl, not_word_of_not_tag (blank_space hc).2⟩
  | symbol =>
    obtain ⟨c, rfl, hc⟩ := hshape
    exact ⟨c, rfl, not_word_of_not_tag hc⟩
  | quoted =>
    replace hapart : (contentOf doubleQuote text.tail).getLast?.all (isWord U) = false := hapart
    cases hlast : (contentOf doubleQuote text.tail).getLast? with
    | none => simp [hlast] at hapart
    | some c => exact ⟨c, hlast, by simpa [hlast] using hapart⟩

/-- What is kept of a token that continues no word opens with no word character, unless it is a
quoted identifier that does. -/
theorem kept_first (hshape : Shaped t)
    (hfollows : t.text.head?.all (fun c => !isIdentCont c) = true)
    (hapart : startsInWord U t = false) :
    ∃ c, (kept t).head? = some c ∧ isWord U c = false := by
  have hspace : isWord U ' ' = false := not_word_of_not_tag (by decide)
  obtain ⟨kind, text⟩ := t
  cases kind with
  | line | block | constant | continued | dollar => exact ⟨' ', rfl, hspace⟩
  | word | number | escape =>
    obtain ⟨c, more, rfl, hc⟩ := hshape
    simp [ident_cont_of_tag hc] at hfollows
  | parameter =>
    obtain ⟨more, rfl⟩ := hshape
    cases hfollows
  | blank =>
    obtain ⟨c, rfl, hc⟩ := hshape
    exact ⟨c, rfl, not_word_of_not_tag (blank_space hc).2⟩
  | symbol =>
    obtain ⟨c, rfl, hc⟩ := hshape
    exact ⟨c, rfl, not_word_of_not_tag hc⟩
  | quoted =>
    replace hapart : (contentOf doubleQuote text.tail).head?.all (isWord U) = false := hapart
    cases hhead : (contentOf doubleQuote text.tail).head? with
    | none => simp [hhead] at hapart
    | some c => exact ⟨c, hhead, by simpa [hhead] using hapart⟩

theorem left_free {word : List Char} {before after : List (Token Kind)}
    (h : tokens text = before ++ ⟨.word, word⟩ :: after)
    (hapart : before.getLast?.any (endsInWord U) = false) :
    (lastOf none (before.flatMap kept)).any (isWord U) = false := by
  obtain ⟨c, more, hword, hc⟩ := (shaped_of_mem h).1
  cases before using List.reverseRecOn with
  | nil => rfl
  | append_singleton front t =>
    rw [append_assoc, singleton_append] at h
    obtain ⟨hshape, hfollows⟩ := shaped_of_mem h
    have hhead : ((⟨.word, word⟩ :: after : List (Token Kind)).flatMap Token.text).head? =
        some c := by
      rw [flatMap_cons, show (⟨.word, word⟩ : Token Kind).text = c :: more from hword]
      rfl
    rw [hhead] at hfollows
    have hend : endsInWord U t = false := by simpa using hapart
    have hrun : t.kind ≠ .word ∧ t.kind ≠ .number ∧ t.kind ≠ .parameter := by
      refine ⟨fun hk => ?_, fun hk => ?_, fun hk => ?_⟩ <;>
        simp [Follows, hk, hc, ident_cont_of_tag hc] at hfollows
    obtain ⟨e, hlast, he⟩ := kept_last (U := U) hshape hrun.1 hrun.2.1 hrun.2.2 hend
    rw [flatMap_append, flatMap_singleton, lastOf, List.getLast?_append, hlast]
    simpa using he

theorem right_free {word : List Char} {before after : List (Token Kind)}
    (h : tokens text = before ++ ⟨.word, word⟩ :: after)
    (hapart : after.head?.any (startsInWord U) = false) :
    (after.flatMap kept).head?.any (isWord U) = false := by
  cases after with
  | nil => rfl
  | cons t rest =>
    have hnext : tokens text = (before ++ [⟨.word, word⟩]) ++ t :: rest := by
      rw [h, append_assoc, singleton_append]
    have hfollows : ((t :: rest).flatMap Token.text).head?.all (fun c => !isIdentCont c) = true :=
      (shaped_of_mem h).2
    have hfirst : t.text.head?.all (fun c => !isIdentCont c) = true := by
      rw [flatMap_cons] at hfollows
      cases ht : t.text with
      | nil => rfl
      | cons c more =>
        rw [ht] at hfollows
        exact hfollows
    obtain ⟨c, hhead, hc⟩ := kept_first (U := U) (shaped_of_mem hnext).1 hfirst
      (by simpa using hapart)
    rw [flatMap_cons, List.head?_append, hhead]
    simpa using hc

theorem kept_gap (hshape : Shaped t) (hgap : isGap t = true) :
    kept t ≠ [] ∧ ∀ c ∈ kept t, isSpace c = true := by
  obtain ⟨kind, text⟩ := t
  cases kind with
  | line | block => exact single_blank (c := ' ') rfl
  | blank =>
    obtain ⟨c, rfl, hc⟩ := hshape
    exact single_blank (blank_space hc).1
  | _ => cases hgap

/-! ## The guard -/

theorem keeps_tokens (text : List Char) : Keeps kept (tokens text) := by
  have hgap : ∀ t ∈ tokens text, isGap t = true → kept t ≠ [] ∧ ∀ c ∈ kept t, isSpace c = true := by
    intro t ht
    obtain ⟨front, back, hsplit⟩ := append_of_mem ht
    exact kept_gap (shaped_of_mem hsplit).1
  exact ⟨fun _ => rfl, fun _ => rfl, fun t ht hg => (hgap t ht hg).1, fun t ht hg => (hgap t ht hg).2⟩

theorem words_apart {first second : List Char} {before after : List (Token Kind)} :
    tokens text ≠ before ++ ⟨.word, first⟩ :: ⟨.word, second⟩ :: after := by
  intro h
  have hnext : tokens text = (before ++ [⟨.word, first⟩]) ++ ⟨.word, second⟩ :: after := by
    rw [h, append_assoc, singleton_append]
  obtain ⟨c, more, hword, hc⟩ := (shaped_of_mem hnext).1
  have hfollows := (shaped_of_mem h).2
  rw [flatMap_cons, show (⟨.word, second⟩ : Token Kind).text = c :: more from hword]
    at hfollows
  simp [Follows, ident_cont_of_tag hc] at hfollows

theorem danger_of_apart (hapart : Apart U (tokens text)) (h : HasForbidden U (tokens text)) :
    searchPhrase U (danger U) ((tokens text).flatMap kept) = true := by
  refine danger_of_forbidden (keeps_tokens text) (fun _ _ _ _ => words_apart) ?_ ?_ h
  · intro before phrase exact_ after htokens hphrase
    have hbefore := (hapart before phrase exact_ after htokens hphrase).1
    cases hphrase with
    | word word entry hmem hbears => exact left_free (by simpa using htokens) hbefore
    | replace first gap second target hfirst hgap htarget hsecond =>
      exact left_free (by simpa using htokens) hbefore
  · intro before phrase after htokens hphrase
    have hafter := (hapart before phrase true after htokens hphrase).2 rfl
    generalize htrue : true = exact_ at hphrase
    cases hphrase with
    | word word entry hmem hbears => exact right_free (by simpa using htokens) hafter
    | replace first gap second target hfirst hgap htarget hsecond =>
      have hsplit : tokens text =
          (before ++ ⟨.word, first⟩ :: gap) ++ ⟨.word, second⟩ :: after := by
        simpa using htokens
      exact right_free hsplit hafter

/-- The guard is sound for a text on which its scanner agrees with the lexer token by token, and in
which no forbidden phrase is right beside a quoted identifier: what PostgreSQL reads outside comments,
constants and quoted identifiers is kept, and where the guard accepts the text there is no second
statement and no forbidden phrase in it. -/
theorem postgres_guard_sound (U : Unicode) (text : List Char)
    (hclean : Every (Clean U) [] (tokens text)) (hapart : Apart U (tokens text)) :
    (∀ stripped, stripSql U postgres text = .ok stripped →
      List.Sublist (((tokens text).filter isVisible).flatMap Token.text) stripped) ∧
      (assertReadOnly U postgres none text = .ok () →
        ¬ HasSecondStatement (tokens text) ∧ ¬ HasForbidden U (tokens text)) := by
  refine ⟨fun stripped hstrip => ?_, fun haccepted => ?_⟩
  · rw [strip_sql_eq_kept hclean hstrip]
    exact visible_sublist _
  · obtain ⟨stripped, hstrip, hstatements, -, hdanger, -⟩ := checks_of_assert_read_only haccepted
    rw [strip_sql_eq_kept hclean hstrip] at hstatements hdanger
    refine ⟨fun hsecond => ?_, fun hforbidden => ?_⟩
    · have := statements_of_second (keeps_tokens text) hsecond
      omega
    · rw [danger_of_apart hapart hforbidden] at hdanger
      cases hdanger

/-- Forbidden words in constants and comments only. -/
def guardedSample : List Char :=
  "SELECT 'DROP; a' FROM t -- no INTO\nWHERE b = $$; SET$$".toList

theorem postgres_guard_sound_sample : assertReadOnly .ascii postgres none guardedSample = .ok () ∧
      ¬ HasSecondStatement (tokens guardedSample) ∧
      ¬ HasForbidden .ascii (tokens guardedSample) := by
  have hunquoted : ∀ t ∈ tokens guardedSample, (t.kind == .quoted) = false := by decide +kernel
  have hapart : Apart .ascii (tokens guardedSample) := by
    intro before phrase exact_ after htokens _
    rw [htokens] at hunquoted
    constructor
    · cases hlast : before.getLast? with
      | none => rfl
      | some t =>
        have hmem : t ∈ before := mem_of_getLast? hlast
        simp [endsInWord, hunquoted t (by simp [hmem])]
    · intro _
      cases hhead : after.head? with
      | none => rfl
      | some t =>
        have hmem : t ∈ after := mem_of_head? hhead
        simp [startsInWord, hunquoted t (by simp [hmem])]
  have haccepted : assertReadOnly .ascii postgres none guardedSample = .ok () := by decide +kernel
  exact ⟨haccepted,
    (postgres_guard_sound .ascii guardedSample (by decide +kernel) hapart).2 haccepted⟩

/-- A carriage return ends a comment for the server, and not for the guard. -/
def hiddenByReturn : List Char :=
  "SELECT 1 --\r; DROP TABLE t".toList

theorem postgres_guard_accepts_hidden :
    assertReadOnly .ascii postgres none hiddenByReturn = .ok () ∧
      HasSecondStatement (tokens hiddenByReturn) ∧ HasForbidden .ascii (tokens hiddenByReturn) := by
  refine ⟨by decide +kernel, ?_, ?_⟩
  · exact ⟨(tokens hiddenByReturn).take 6, (tokens hiddenByReturn).drop 7, by
      decide +kernel, by decide +kernel, by decide +kernel⟩
  · exact ⟨(tokens hiddenByReturn).take 8, _, _, (tokens hiddenByReturn).drop 9, by
      decide +kernel, .word "DROP".toList ("DROP", .exact) (by decide) (by decide)⟩

end AwsOps.SqlGuard
