import AwsOps.Redaction.Quads

/-!
# What escapes redaction

The secrets that a redacted text ought not to hold go by ASCII, the patterns by Unicode.
`redact_complete_iff` says exactly when a secret is left: a quotation mark stops an ARN at its mark,
or a digit or word character of another script leans on an account id, a dotted quad or a key id and
hides it from its pattern.
-/

namespace AwsOps.Redaction

open List Substitute

open Substitute (Classes Pattern Tag)
open Text (lastOf isAscii last_of_append)

variable {E : Classes} {text found before after place rest earlier later : List Char}
  {p : Pattern} {plain member : Char → Bool} {shape : List Char → Prop} {name : String}

/-- A stretch of that shape stands in the text with no member of the class beside it. -/
def Occurs (shape : List Char → Prop) (member : Char → Bool) (text : List Char) : Prop :=
  ∃ before window after, text = before ++ (window ++ after) ∧ shape window ∧
    Free member before after

/-- A stretch of that shape stands free of the plain members of a class, but not of all members. -/
def Shadowed (shape : List Char → Prop) (plain member : Char → Bool) (text : List Char) : Prop :=
  ∃ before window after, text = before ++ (window ++ after) ∧ shape window ∧
    Free plain before after ∧ ¬Free member before after

structure TwelveDigits (run : List Char) : Prop where
  size : run.length = 12
  digits : ∀ c ∈ run, c.isDigit

/-- The mark of an ARN with a quotation mark behind it stands in the text. -/
def QuotedArn (text : List Char) : Prop :=
  ∃ before q after, text = before ++ ((arnMark ++ [q]) ++ after) ∧ isQuote q

/-- What a redacted text ought to be: it holds no ARN, no e-mail address, no run of exactly twelve
ASCII digits and, free of ASCII word characters, neither a dotted quad nor a key id. -/
structure Clean (E : Classes) (text : List Char) : Prop where
  arn : ∀ before c after, text = before ++ (arnMark ++ c :: after) → E.space c
  email : ∀ address, EmailAddress address → ¬address <:+: text
  account : ¬Occurs TwelveDigits Char.isDigit text
  quad : ¬Occurs Quad isPlainWord text
  key : ¬Occurs KeyId isPlainWord text

/-- A secret that its redactor does not see: in the text that the redactors before it leave, a
quotation mark stands behind the mark of an ARN, or a character of another script stands beside an
account id, a dotted quad or a key id and hides it. -/
def Escapes (E : Classes) (text : List Char) : Prop :=
  QuotedArn (withoutNames E text) ∨
    Shadowed TwelveDigits Char.isDigit E.digit (withoutNames E text) ∨
      MissedQuad E (withoutAccounts E text) ∨
        Shadowed KeyId isPlainWord E.word (withoutAddresses E text)

/-! ## From the result back to the text -/

/-- What stands in the result of a redactor stood in the text, and its pattern did not match
there. -/
theorem occurs_before (hapart : p.Apart member) (hname : name.toList.all Char.isLower)
    (hends : ∀ window, shape window → window.head?.any member ∧ window.getLast?.any member)
    (hvisible : ∀ window, shape window → Visible window)
    (h : Occurs shape plain (p.sub (tag name).chars text)) :
    ∃ before window after, text = before ++ (window ++ after) ∧ shape window ∧
      Free plain before after ∧ p.Reaches text before ∧ p.Quiet before window after := by
  obtain ⟨front, window, back, hsplit, hshape, hfree⟩ := h
  obtain ⟨hfirst, hlast⟩ := hends window hshape
  obtain ⟨before, after, htext, hreaches, hquiet, hbefore, hafter⟩ :=
    sub_window_apart hapart hfirst hlast ((hvisible window hshape).foreign hname) hsplit
  exact ⟨before, window, after, htext, hshape, ⟨by rw [hbefore]; exact hfree.before,
    by rw [hafter]; exact hfree.after⟩, hreaches, hquiet⟩

theorem occurs_of_sub (hapart : p.Apart member) (hname : name.toList.all Char.isLower)
    (hends : ∀ window, shape window → window.head?.any member ∧ window.getLast?.any member)
    (hvisible : ∀ window, shape window → Visible window)
    (h : Occurs shape plain (p.sub (tag name).chars text)) : Occurs shape plain text := by
  obtain ⟨before, window, after, htext, hshape, hfree, -⟩ :=
    occurs_before hapart hname hends hvisible h
  exact ⟨before, window, after, htext, hshape, hfree⟩

theorem digit_of_plain {c : Char} (h : c.isDigit) : E.digit c := by
  rw [E.digit_ascii c (Text.ascii_of_digit h)]
  exact h

theorem TwelveDigits.ends (h : TwelveDigits found) :
    found.head?.any E.digit ∧ found.getLast?.any E.digit := by
  have hne : found ≠ [] := by
    rintro rfl
    exact absurd h.size (by simp)
  rw [List.head?_eq_some_head hne, List.getLast?_eq_some_getLast hne]
  exact ⟨digit_of_plain (h.digits _ (head_mem hne)), digit_of_plain (h.digits _ (getLast_mem hne))⟩

theorem TwelveDigits.visible (E : Classes) (h : TwelveDigits found) : Visible found :=
  visible_of_digits (E := E) (fun c hc => .inl (digit_of_plain (h.digits c hc))) h.ends.1

theorem Quad.numbers (h : Quad found) : Numbers E 4 found := by
  obtain ⟨a, b, c, d, rfl, ha, hb, hc, hd⟩ := h.parts
  exact .more ha.number (.more hb.number (.more hc.number (.one hd.number)))

theorem Quad.ends (h : Quad found) : found.head?.any E.word ∧ found.getLast?.any E.word :=
  ⟨any_word_of_digit (h.numbers (E := E)).ends.1, any_word_of_digit (h.numbers (E := E)).ends.2⟩

theorem Quad.visible (E : Classes) (h : Quad found) : Visible found :=
  visible_of_digits (fun _ hc => (h.numbers (E := E)).chars hc) (h.numbers (E := E)).ends.1

theorem visible_quoted {q : Char} (hq : isQuote q) : Visible (arnMark ++ [q]) := by
  refine ⟨fun c hc => ?_, ':', by simp [arnMark], by decide⟩
  rcases mem_append.mp hc with hc | hc
  · have hall : arnMark.all fun c => decide (c ≠ '<' ∧ c ≠ '>') := by decide
    simpa using all_eq_true.mp hall c hc
  · rw [mem_singleton.mp hc]
    rw [isQuote, Bool.or_eq_true, beq_iff_eq, beq_iff_eq] at hq
    rcases hq with rfl | rfl <;> decide

theorem quoted_of_sub (hname : name.toList.all Char.isLower)
    (h : QuotedArn (p.sub (tag name).chars text)) : QuotedArn text := by
  obtain ⟨front, q, back, hsplit, hq⟩ := h
  obtain ⟨before, after, htext, -⟩ :=
    sub_window ((visible_quoted hq).foreign hname) hsplit
  exact ⟨before, q, after, htext, hq⟩

theorem length_of_quiet {window : List Char} (h : p.Quiet before window after) (hne : window ≠ []) :
    p.length (lastOf none before) (window ++ after) = none := by
  obtain ⟨c, window, rfl⟩ := exists_cons_of_ne_nil hne
  have hnone := h [] c window rfl
  rwa [append_nil] at hnone

theorem clean_of_not_escapes (h : ¬Escapes E text) : Clean E (redact E text) where
  arn before c after hsplit := by
    have hbare := bare_redact E text before c after hsplit
    by_contra hspace
    rw [Bool.not_eq_true] at hspace
    have hquote : isQuote c := by simpa [isArnChar, hspace] using hbare
    refine h (.inl ?_)
    have hquoted : QuotedArn (redact E text) := ⟨before, c, after, by rw [hsplit]; simp, hquote⟩
    rw [redact_eq] at hquoted
    exact quoted_of_sub (by decide) (quoted_of_sub (by decide) (quoted_of_sub (by decide) hquoted))
  email address haddress hin := by
    obtain ⟨core, hcore, hwithin⟩ := haddress.core
    exact no_email_redact E text core hcore (hwithin.trans hin)
  account hoccurs := by
    rw [redact_eq] at hoccurs
    have hends : ∀ window, TwelveDigits window →
        window.head?.any E.digit ∧ window.getLast?.any E.digit := fun _ hw => hw.ends
    have hvisible : ∀ window, TwelveDigits window → Visible window := fun _ hw => hw.visible E
    have haddresses := occurs_of_sub (apart_digit key_apart) (by decide) hends hvisible hoccurs
    have haccounts := occurs_of_sub (apart_digit address_apart) (by decide) hends hvisible haddresses
    obtain ⟨before, run, after, htext, hrun, hfree, -, hquiet⟩ :=
      occurs_before account_apart (by decide) hends hvisible haccounts
    refine h (.inr (.inl ⟨before, run, after, htext, hrun, hfree, fun hdigits => ?_⟩))
    have hnone := length_of_quiet hquiet (by
      rintro rfl
      exact absurd hrun.size (by simp))
    have hmatch : accountLength E (lastOf none before) (run ++ after) = some run.length :=
      account_match.mpr ⟨hrun.size, fun c hc => digit_of_plain (hrun.digits c hc), hdigits.before,
        hdigits.after⟩
    exact absurd (hnone.symm.trans hmatch) (by simp)
  quad hoccurs := by
    rw [redact_eq] at hoccurs
    have hends : ∀ window, Quad window →
        window.head?.any E.word ∧ window.getLast?.any E.word := fun _ hw => hw.ends
    have hvisible : ∀ window, Quad window → Visible window := fun _ hw => hw.visible E
    have haddresses := occurs_of_sub key_apart (by decide) hends hvisible hoccurs
    obtain ⟨before, quad, after, htext, hquad, hfree, hreaches, hquiet⟩ :=
      occurs_before address_apart (by decide) hends hvisible haddresses
    exact h (.inr (.inr (.inl (missed_of_kept hquad hfree htext hreaches hquiet))))
  key hoccurs := by
    rw [redact_eq] at hoccurs
    obtain ⟨before, key, after, htext, hkey, hfree, -, hquiet⟩ :=
      occurs_before key_apart (by decide) (fun _ hw => hw.ends) (fun _ hw => hw.visible) hoccurs
    refine h (.inr (.inr (.inr ⟨before, key, after, htext, hkey, hfree, fun hwords => ?_⟩)))
    have hnone := length_of_quiet hquiet (by
      rintro rfl
      exact absurd hkey.size (by simp))
    have hmatch : keyLength E (lastOf none before) (key ++ after) = some key.length :=
      key_match.mpr ⟨hkey, hwords.before, hwords.after⟩
    exact absurd (hnone.symm.trans hmatch) (by simp)

/-! ## From the text on to the result -/

/-- No match in the text overlaps a stretch of that kind. -/
def Untouched (p : Pattern) (shape : List Char → Prop) (text : List Char) : Prop :=
  ∀ place window rest, text = place ++ (window ++ rest) → shape window →
    ∀ earlier found later, text = earlier ++ (found ++ later) → found ≠ [] →
      p.length (lastOf none earlier) (found ++ later) = some found.length →
      earlier.length + found.length ≤ place.length ∨
        place.length + window.length ≤ earlier.length

/-- A secret with a character beside it that hides it. -/
def Leaning (shape : List Char → Prop) (plain member : Char → Bool) (window : List Char) : Prop :=
  ∃ e core, (window = e :: core ∨ window = core ++ [e]) ∧ shape core ∧ member e ∧ plain e = false

/-- Such a secret, with no plain member on its other side, stands in the text. -/
def Leans (shape : List Char → Prop) (plain member : Char → Bool) (text : List Char) : Prop :=
  ∃ before e core after, shape core ∧ member e ∧ plain e = false ∧
    (text = before ++ ((e :: core) ++ after) ∧ after.head?.any plain = false ∨
      text = before ++ ((core ++ [e]) ++ after) ∧ (lastOf none before).any plain = false)

/-- A secret that is not free has a hiding character beside it. -/
theorem Shadowed.leans (h : Shadowed shape plain member text) : Leans shape plain member text := by
  obtain ⟨before, core, after, rfl, hshape, hfree, hnot⟩ := h
  by_cases hbefore : (lastOf none before).any member = false
  · have hafter : after.head?.any member = true := by
      by_contra hafter
      exact hnot ⟨hbefore, by simpa using hafter⟩
    cases after with
    | nil => exact absurd hafter (by simp)
    | cons e after =>
      exact ⟨before, e, core, after, hshape, hafter, hfree.after, .inr ⟨by simp, hfree.before⟩⟩
  · obtain rfl | ⟨before, e, rfl⟩ := eq_nil_or_concat before
    · exact absurd rfl hbefore
    rw [concat_eq_append] at hbefore hfree ⊢
    have hlast : lastOf none (before ++ [e]) = some e := by rw [last_of_append]; rfl
    have hplain := hfree.before
    rw [hlast] at hbefore hplain
    exact ⟨before, e, core, after, hshape, by simpa using hbefore, hplain,
      .inl ⟨by simp, hfree.after⟩⟩

theorem Leans.occurs (h : Leans shape plain member text) : Occurs shape plain text := by
  obtain ⟨before, e, core, after, hshape, -, hplain, ⟨rfl, hafter⟩ | ⟨rfl, hbefore⟩⟩ := h
  · refine ⟨before ++ [e], core, after, by simp, hshape, ?_, hafter⟩
    rw [last_of_append]
    exact hplain
  · exact ⟨before, core, e :: after, by simp, hshape, hbefore, hplain⟩

/-- The brackets of tags are no plain members. -/
structure NoBrackets (plain : Char → Bool) : Prop where
  opening : plain '<' = false
  closing : plain '>' = false

/-- A redactor whose matches do not touch the secret leaves it. -/
theorem Leans.sub (hbrackets : NoBrackets plain) (tag_name : String)
    (hout : Untouched p (Leaning shape plain member) text) (h : Leans shape plain member text) :
    Leans shape plain member (p.sub (tag tag_name).chars text) := by
  obtain ⟨before, e, core, after, hshape, hmember, hplain, ⟨htext, hafter⟩ | ⟨htext, hbefore⟩⟩ := h
  · obtain ⟨front, back, hsplit, -, hback⟩ := sub_keeps_of_apart (tag tag_name) htext
      (cons_ne_nil _ _) (hout before (e :: core) after htext
        ⟨e, core, .inl rfl, hshape, hmember, hplain⟩)
    refine ⟨front, e, core, back, hshape, hmember, hplain, .inl ⟨hsplit, ?_⟩⟩
    rcases hback with hback | hback
    · rw [hback]
      exact hafter
    · rw [hback]
      exact hbrackets.opening
  · obtain ⟨front, back, hsplit, hfront, -⟩ := sub_keeps_of_apart (tag tag_name) htext
      (by simp) (hout before (core ++ [e]) after htext ⟨e, core, .inr rfl, hshape, hmember, hplain⟩)
    refine ⟨front, e, core, back, hshape, hmember, hplain, .inr ⟨hsplit, ?_⟩⟩
    rcases hfront with hfront | hfront
    · rw [hfront]
      exact hbefore
    · rw [hfront]
      exact hbrackets.closing

variable {window : List Char} {before : Option Char}

theorem Leaning.members (h : Leaning shape plain member window)
    (hcore : ∀ core, shape core → ∀ c ∈ core, member c) : ∀ c ∈ window, member c := by
  obtain ⟨e, core, hwindow, hshape, he, -⟩ := h
  intro c hc
  rcases hwindow with rfl | rfl
  · rcases mem_cons.mp hc with rfl | hc
    · exact he
    · exact hcore core hshape c hc
  · rcases mem_append.mp hc with hc | hc
    · exact hcore core hshape c hc
    · rw [mem_singleton.mp hc]
      exact he

theorem Leaning.size {n : Nat} (h : Leaning shape plain member window)
    (hcore : ∀ core, shape core → core.length = n) : window.length = n + 1 := by
  obtain ⟨e, core, hwindow, hshape, -⟩ := h
  have hn := hcore core hshape
  rcases hwindow with rfl | rfl
  · rw [length_cons, hn]
  · rw [length_append, hn, length_singleton]

theorem untouched_of_longer (hapart : p.Apart member) {n : Nat}
    (hsize : ∀ before found after, p.length before (found ++ after) = some found.length →
      found.length ≤ n)
    (hall : ∀ window, shape window → (∀ c ∈ window, member c) ∧ n < window.length) :
    Untouched p shape text := by
  intro place window rest hwindow hshape earlier found later htext hne hmatch
  obtain ⟨hmembers, hlong⟩ := hall window hshape
  obtain ⟨hbefore, hafter⟩ := hapart _ _ _ hmatch
  have hle := hsize _ _ _ hmatch
  by_contra hoverlap
  rw [not_or] at hoverlap
  have hwithin := within_run htext hwindow hbefore hafter hmembers (by omega) (by omega)
  omega

theorem not_key_char {e : Char} (hdigit : E.digit e) (hplain : e.isDigit = false) :
    isKeyChar e = false := by
  by_contra hkey
  rw [Bool.not_eq_false, isKeyChar, hplain, Bool.or_false] at hkey
  have hascii : isAscii e := Text.ascii_of_alphanum (by simp [Text.alphanum_iff, hkey])
  rw [E.digit_ascii e hascii, hplain] at hdigit
  exact absurd hdigit (by simp)

theorem account_untouched_account :
    Untouched (accountPattern E) (Leaning TwelveDigits Char.isDigit E.digit) text := by
  refine untouched_of_longer account_apart (n := 12) (fun _ _ _ h => (account_match.mp h).1.le) ?_
  intro window hwindow
  have hsize := hwindow.size fun _ h => h.size
  exact ⟨hwindow.members fun _ h c hc => digit_of_plain (h.digits c hc), by omega⟩

theorem account_untouched_address :
    Untouched (addressPattern E) (Leaning TwelveDigits Char.isDigit E.digit) text := by
  intro place window rest hwindow hshape earlier found later htext hne hmatch
  have hsize := hshape.size fun _ h => h.size
  have hmembers := hshape.members fun _ h c hc => digit_of_plain (h.digits c hc)
  exact outside_of_long htext hne hmatch hwindow (fun c hc => E.word_of_digit c (hmembers c hc))
    (by omega)

theorem account_untouched_key :
    Untouched (keyPattern E) (Leaning TwelveDigits Char.isDigit E.digit) text := by
  intro place window rest hwindow hshape earlier found later htext hne hmatch
  obtain ⟨hkey, hbefore, hafter⟩ := key_match.mp hmatch
  have hmembers := hshape.members fun _ h c hc => digit_of_plain (h.digits c hc)
  obtain ⟨e, core, hparts, -, he, hplain⟩ := hshape
  by_contra hoverlap
  rw [not_or] at hoverlap
  -- The key id would hold the digit of another script.
  have hwithin := within_run htext hwindow hbefore hafter
    (fun c hc => E.word_of_digit c (hmembers c hc)) (by omega) (by omega)
  have hin : e ∈ found := by
    have hmem : e ∈ window := by
      rcases hparts with rfl | rfl <;> simp
    obtain ⟨left, right, rfl⟩ := append_of_mem hmem
    rw [length_append, length_cons] at hwithin
    have hsplit : text = (place ++ left) ++ ([e] ++ (right ++ rest)) := by
      rw [hwindow]
      simp
    obtain ⟨c, hc, hce⟩ := common_of_overlap htext hsplit hne (cons_ne_nil _ _)
      (by rw [length_append, length_singleton]; omega)
      (by rw [length_append]; omega)
    rwa [mem_singleton.mp hce] at hc
  have hchar := hkey.all_chars hin
  rw [not_key_char he hplain] at hchar
  exact absurd hchar (by simp)

theorem key_untouched_key : Untouched (keyPattern E) (Leaning KeyId isPlainWord E.word) text := by
  refine untouched_of_longer key_apart (n := 20) (fun _ _ _ h => (key_match.mp h).1.size.le) ?_
  intro window hwindow
  have hsize := hwindow.size fun _ h => h.size
  exact ⟨hwindow.members fun _ h c hc => word_of_key_char (h.all_chars hc), by omega⟩

/-- A character that the matches of the last three patterns may have. -/
def isMatchChar (E : Classes) (c : Char) : Bool :=
  E.digit c || c == '.' || isKeyChar c

theorem quoted_untouched (hchars : ∀ before found after, found ≠ [] →
      p.length before (found ++ after) = some found.length → ∀ c ∈ found, isMatchChar E c) :
    Untouched p (fun window => ∃ q, window = arnMark ++ [q] ∧ isQuote q) text := by
  rintro place window rest hwindow ⟨q, rfl, hq⟩ earlier found later htext hne hmatch
  by_contra hoverlap
  rw [not_or] at hoverlap
  obtain ⟨c, hc, hin⟩ := common_of_overlap htext hwindow hne (by simp) (by omega)
    (by omega)
  have hchar := hchars _ _ _ hne hmatch c hc
  have hother : c = q ∨ c ∈ arnMark := by
    rcases mem_append.mp hin with h | h
    · exact .inr h
    · exact .inl (mem_singleton.mp h)
  have hplain : isAscii c = true ∧ c.isDigit = false ∧ c ≠ '.' ∧ isKeyChar c = false := by
    rcases hother with rfl | hmark
    · rw [isQuote, Bool.or_eq_true, beq_iff_eq, beq_iff_eq] at hq
      rcases hq with rfl | rfl <;> decide
    · have hall : arnMark.all fun c =>
          decide (isAscii c = true ∧ c.isDigit = false ∧ c ≠ '.' ∧ isKeyChar c = false) := by decide
      simpa using all_eq_true.mp hall c hmark
  obtain ⟨hascii, hdigit, hpoint, hkey⟩ := hplain
  rw [isMatchChar, E.digit_ascii c hascii, hdigit, hkey, beq_eq_false_iff_ne.mpr hpoint] at hchar
  exact absurd hchar (by simp)

theorem QuotedArn.sub (tag_name : String) (hchars : ∀ before found after, found ≠ [] →
      p.length before (found ++ after) = some found.length → ∀ c ∈ found, isMatchChar E c)
    (h : QuotedArn text) : QuotedArn (p.sub (tag tag_name).chars text) := by
  obtain ⟨before, q, after, htext, hq⟩ := h
  obtain ⟨front, back, hsplit, -⟩ := sub_keeps_of_apart (tag tag_name) htext (by simp)
    (quoted_untouched hchars before (arnMark ++ [q]) after htext ⟨q, rfl, hq⟩)
  exact ⟨front, q, back, hsplit, hq⟩

theorem account_chars (h : accountLength E before (found ++ after) = some found.length) :
    ∀ c ∈ found, isMatchChar E c := by
  intro c hc
  rw [isMatchChar, (account_match.mp h).2.1 c hc, Bool.true_or, Bool.true_or]

theorem address_chars (hne : found ≠ [])
    (h : addressLength E before (found ++ after) = some found.length) :
    ∀ c ∈ found, isMatchChar E c := by
  intro c hc
  rw [isMatchChar]
  rcases ((address_match hne).mp h).1.chars hc with hdigit | rfl
  · rw [hdigit, Bool.true_or, Bool.true_or]
  · simp

theorem key_chars (h : keyLength E before (found ++ after) = some found.length) :
    ∀ c ∈ found, isMatchChar E c := by
  intro c hc
  rw [isMatchChar, (key_match.mp h).1.all_chars hc, Bool.or_true]

theorem plain_of_key_char {c : Char} (h : isKeyChar c) : isPlainWord c := by
  rw [isKeyChar, Bool.or_eq_true] at h
  rcases h with h | h <;> simp [isPlainWord, Text.alphanum_iff, h]

theorem key_outside_number {digits : List Char} (hkey : KeyId found)
    (htext : text = earlier ++ (found ++ later)) (hdigits : PlainNumber digits)
    (hplace : text = place ++ (digits ++ rest)) (hfree : Free isPlainWord place rest) :
    earlier.length + found.length ≤ place.length ∨
      place.length + digits.length ≤ earlier.length := by
  by_contra hoverlap
  rw [not_or] at hoverlap
  have hwithin := within_run hplace htext hfree.before hfree.after
    (fun c hc => plain_of_key_char (hkey.all_chars hc)) (by omega) (by omega)
  have hlong := hkey.size
  have hshort := hdigits.short
  omega

theorem key_outside_point (hkey : KeyId found) (htext : text = earlier ++ (found ++ later))
    (hplace : text = place ++ (['.'] ++ rest)) :
    earlier.length + found.length ≤ place.length ∨ place.length + 1 ≤ earlier.length := by
  by_contra hoverlap
  rw [not_or] at hoverlap
  have hne : found ≠ [] := by
    rintro rfl
    exact absurd hkey.size (by simp)
  obtain ⟨c, hc, hin⟩ := common_of_overlap htext hplace hne (cons_ne_nil _ _)
    (by rw [length_singleton]; omega) (by omega)
  have hchar := hkey.all_chars hc
  rw [mem_singleton.mp hin] at hchar
  exact absurd hchar (by decide)

theorem key_outside_more {digits : List Char} (hkey : KeyId found)
    (htext : text = earlier ++ (found ++ later)) (hdigits : PlainNumber digits)
    (hplace : text = place ++ ((digits ++ '.' :: window) ++ rest))
    (hbefore : (lastOf none place).any isPlainWord = false)
    (htail : earlier.length + found.length ≤ (place ++ (digits ++ ['.'])).length ∨
      (place ++ (digits ++ ['.'])).length + window.length ≤ earlier.length) :
    earlier.length + found.length ≤ place.length ∨
      place.length + (digits ++ '.' :: window).length ≤ earlier.length := by
  have hnumber : text = place ++ (digits ++ ('.' :: (window ++ rest))) := by
    rw [hplace]
    simp
  have hpoint : text = (place ++ digits) ++ (['.'] ++ (window ++ rest)) := by
    rw [hnumber]
    simp
  have hleft := key_outside_number hkey htext hdigits hnumber ⟨hbefore, rfl⟩
  have hmiddle := key_outside_point hkey htext hpoint
  have hlong := hkey.size
  simp only [length_append, length_cons, length_nil] at hleft hmiddle htail ⊢
  omega

theorem last_point (left digits : List Char) :
    (lastOf none (left ++ (digits ++ ['.']))).any isPlainWord = false := by
  rw [last_of_append, last_of_append]
  rfl

theorem quad_of_key_sub (tag_name : String) (h : Occurs Quad isPlainWord text) :
    Occurs Quad isPlainWord ((keyPattern E).sub (tag tag_name).chars text) := by
  obtain ⟨before, quad, after, htext, hquad, hbefore, hafter⟩ := h
  obtain ⟨a, b, c, d, rfl, ha, hb, hc, hd⟩ := hquad.parts
  have houtside : ∀ earlier found later, text = earlier ++ (found ++ later) → found ≠ [] →
      (keyPattern E).length (lastOf none earlier) (found ++ later) = some found.length →
      earlier.length + found.length ≤ before.length ∨
        before.length + (a ++ '.' :: (b ++ '.' :: (c ++ '.' :: d))).length ≤ earlier.length := by
    intro earlier found later hfound hsome hmatch
    have hkey := (key_match.mp hmatch).1
    have hsecond : text = (before ++ (a ++ ['.'])) ++ ((b ++ '.' :: (c ++ '.' :: d)) ++ after) := by
      rw [htext]
      simp
    have hthird : text = ((before ++ (a ++ ['.'])) ++ (b ++ ['.'])) ++ ((c ++ '.' :: d) ++ after) := by
      rw [htext]
      simp
    have hfourth : text =
        (((before ++ (a ++ ['.'])) ++ (b ++ ['.'])) ++ (c ++ ['.'])) ++ (d ++ after) := by
      rw [htext]
      simp
    refine key_outside_more hkey hfound ha htext hbefore ?_
    refine key_outside_more hkey hfound hb hsecond (last_point _ _) ?_
    refine key_outside_more hkey hfound hc hthird (last_point _ _) ?_
    exact key_outside_number hkey hfound hd hfourth ⟨last_point _ _, hafter⟩
  obtain ⟨front, back, hsplit, hfront, hback⟩ :=
    sub_keeps_of_apart (tag tag_name) htext (by simp) houtside
  refine ⟨front, _, back, hsplit, hquad, ?_, ?_⟩
  · rcases hfront with hfront | hfront
    · rw [hfront]
      exact hbefore
    · rw [hfront]
      rfl
  · rcases hback with hback | hback
    · rw [hback]
      exact hafter
    · rw [hback]
      rfl

theorem MissedQuad.occurs (h : MissedQuad E text) :
    Occurs Quad isPlainWord ((addressPattern E).sub (tag "ip").chars text) := by
  obtain ⟨before, x, a, b, c, d, y, after, hhidden, htext⟩ := h
  obtain ⟨ha, hb, hc, hd⟩ := hhidden.numbers
  obtain ⟨hreaches, hquiet⟩ := kept_of_missed hhidden htext
  obtain ⟨front, back, hsplit, hfront, hback⟩ :=
    sub_keeps_of_quiet (tag "ip") htext (by simp) hreaches hquiet
  refine ⟨front, _, back, hsplit, ⟨a, b, c, d, rfl, ha, hb, hc, hd⟩, ?_, ?_⟩
  · rcases hfront with hfront | hfront
    · rw [hfront]
      exact hhidden.plain.before
    · rw [hfront]
      rfl
  · rcases hback with hback | hback
    · rw [hback]
      exact hhidden.plain.after
    · rw [hback]
      rfl

theorem not_clean_of_escapes (h : Escapes E text) : ¬Clean E (redact E text) := by
  intro hclean
  rw [redact_eq] at hclean
  rcases h with hquoted | haccount | hquad | hkey
  · have hleft : QuotedArn ((keyPattern E).sub (tag "akid").chars (withoutAddresses E text)) :=
      ((hquoted.sub "acct" fun _ _ _ _ h => account_chars h).sub "ip" fun _ _ _ hne h =>
        address_chars hne h).sub "akid" fun _ _ _ _ h => key_chars h
    obtain ⟨before, q, after, hsplit, hq⟩ := hleft
    have hspace := hclean.arn before q after (by rw [hsplit]; simp)
    have hsmall : q = Tokens.doubleQuote ∨ q = Tokens.apostrophe := by
      simpa [isQuote] using hq
    have hascii : isAscii q = true ∧ 32 < q.toNat := by
      rcases hsmall with rfl | rfl <;> decide
    have hle := E.space_ascii q hascii.1 hspace
    omega
  · have hbrackets : NoBrackets Char.isDigit := ⟨by decide, by decide⟩
    have hleft := ((haccount.leans.sub hbrackets "acct" account_untouched_account).sub hbrackets "ip"
      account_untouched_address).sub hbrackets "akid" account_untouched_key
    exact hclean.account hleft.occurs
  · exact hclean.quad (quad_of_key_sub "akid" hquad.occurs)
  · have hbrackets : NoBrackets isPlainWord := ⟨by decide, by decide⟩
    exact hclean.key (hkey.leans.sub hbrackets "akid" key_untouched_key).occurs

/-- Redaction leaves a clean text, and leaves it as it is when it is redacted again, exactly when
nothing escapes. -/
theorem redact_complete_iff (E : Classes) (text : List Char) :
    (Clean E (redact E text) ∧ redact E (redact E text) = redact E text) ↔ ¬Escapes E text :=
  ⟨fun h hescapes => not_clean_of_escapes hescapes h.1,
    fun h => ⟨clean_of_not_escapes h, redact_idempotent E text⟩⟩

theorem hangul_word {c : Char} (h : isAscii c) :
    (c.isAlphanum || c == '_' || (0xAC00 ≤ c.toNat && c.toNat ≤ 0xD7A3)) =
      (c.isAlphanum || c == '_') := by
  have hlt : c.toNat < 128 := by simpa [isAscii] using h
  have hno : (decide (0xAC00 ≤ c.toNat) && decide (c.toNat ≤ 0xD7A3)) = false := by
    simp
    omega
  rw [hno, Bool.or_false]

theorem hangul_not_space {c : Char}
    (h : c.isAlphanum || c == '_' || (0xAC00 ≤ c.toNat && c.toNat ≤ 0xD7A3)) :
    Text.isSpace c = false := by
  rw [Bool.or_eq_true, Bool.and_eq_true, decide_eq_true_eq, decide_eq_true_eq] at h
  rcases h with h | h
  · have hascii : isAscii c := by
      rw [Bool.or_eq_true, beq_iff_eq] at h
      rcases h with h | rfl
      · exact Text.ascii_of_alphanum h
      · decide
    have key : (c.isAlphanum || c == '_') = true → Text.isSpace c = false :=
      Text.forall_ascii (fun c => (c.isAlphanum || c == '_') = true → Text.isSpace c = false)
        (by decide) c hascii
    exact key h
  · simp [Text.isSpace]
    omega

/-- The classes of a database in which the Hangul syllables are the only letters besides those of
ASCII. -/
def hangul : Classes where
  word c := c.isAlphanum || c == '_' || (0xAC00 ≤ c.toNat && c.toNat ≤ 0xD7A3)
  digit := Char.isDigit
  space := Text.isSpace
  word_ascii _ := hangul_word
  digit_ascii := Text.Unicode.ascii.is_digit_ascii
  word_of_digit c h := by simp [Char.isAlphanum, h]
  not_space_of_word _ := hangul_not_space
  space_ascii c h hspace := by
    have key : Text.isSpace c = true → c.toNat ≤ 32 :=
      Text.forall_ascii (fun c => Text.isSpace c = true → c.toNat ≤ 32) (by decide) c h
    exact key hspace

/-- A Korean particle keeps an address from being redacted. -/
theorem address_before_particle : redact hangul "192.168.0.1은".toList = "192.168.0.1은".toList ∧
      ¬Clean hangul (redact hangul "192.168.0.1은".toList) := by
  have hsame : redact hangul "192.168.0.1은".toList = "192.168.0.1은".toList := by decide +kernel
  refine ⟨hsame, fun hclean => hclean.quad ?_⟩
  rw [hsame]
  have hnumber : ∀ digits : List Char, digits ≠ [] → digits.length ≤ 3 →
      digits.all Char.isDigit → PlainNumber digits := fun digits hne hshort hall =>
    ⟨hne, hshort, fun c hc => all_eq_true.mp hall c hc⟩
  exact ⟨[], "192.168.0.1".toList, ['은'], rfl, ⟨['1', '9', '2'], ['1', '6', '8'], ['0'], ['1'], rfl,
      hnumber _ (by decide) (by decide) (by decide), hnumber _ (by decide) (by decide) (by decide),
      hnumber _ (by decide) (by decide) (by decide), hnumber _ (by decide) (by decide) (by decide)⟩,
    rfl, by decide⟩

end AwsOps.Redaction
