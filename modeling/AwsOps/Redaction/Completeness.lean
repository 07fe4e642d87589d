import AwsOps.Redaction.Rules

/-!
# What redaction leaves

`redact_idempotent` is the first main result: no pattern matches anywhere in a redacted text. The
second, `redact_complete_iff`, compares that with what a redacted text ought not to hold. The
patterns go by the word characters and digits of Unicode, so a secret escapes just where a
character beside it that is no ASCII word character hides it from its pattern.
-/

namespace AwsOps.Redaction

open List Option Substitute

open Substitute (Classes Pattern Tag)
open Text (lastOf isAscii)

variable {E : Classes} {before : Option Char} {text found after : List Char}

/-- A window that no tag can hold: it has no angle bracket and not only small letters. -/
structure Visible (window : List Char) : Prop where
  no_bracket : ∀ c ∈ window, c ≠ '<' ∧ c ≠ '>'
  letter : ∃ c ∈ window, c.isLower = false

theorem Visible.foreign {window : List Char} (h : Visible window) {name : String}
    (hname : name.toList.all Char.isLower) : (tag name).Foreign window where
  opening hmem := (h.no_bracket _ hmem).1 rfl
  closing hmem := (h.no_bracket _ hmem).2 rfl
  letter := by
    obtain ⟨c, hmem, hc⟩ := h.letter
    refine ⟨c, hmem, fun hin => ?_⟩
    have hlower := all_eq_true.mp hname c hin
    rw [hc] at hlower
    exact absurd hlower (by simp)

theorem visible_digit {c : Char} (h : E.digit c) : c ≠ '<' ∧ c ≠ '>' ∧ c.isLower = false := by
  refine ⟨?_, ?_, ?_⟩
  · rintro rfl
    rw [E.digit_ascii '<' (by decide)] at h
    exact absurd h (by decide)
  · rintro rfl
    rw [E.digit_ascii '>' (by decide)] at h
    exact absurd h (by decide)
  · by_contra hlower
    rw [Bool.not_eq_false] at hlower
    have hascii : isAscii c :=
      Text.ascii_of_alphanum (by simp [Text.alphanum_iff, hlower])
    rw [E.digit_ascii c hascii] at h
    have key : (c.isLower → c.isDigit → False) :=
      Text.forall_ascii (fun c => c.isLower → c.isDigit → False) (by decide) c hascii
    exact key hlower h

theorem Numbers.chars {n : Nat} (h : Numbers E n found) {c : Char} (hc : c ∈ found) :
    E.digit c ∨ c = '.' := by
  induction h with
  | one hnumber => exact .inl (hnumber.digits c hc)
  | more hnumber hnumbers ih =>
    rcases mem_append.mp hc with hc | hc
    · exact .inl (hnumber.digits c hc)
    · rcases mem_cons.mp hc with rfl | hc
      · exact .inr rfl
      · exact ih hc

theorem Numbers.nonempty {n : Nat} (h : Numbers E n found) : found ≠ [] := by
  rintro rfl
  exact absurd h.ends.1 (by simp)

theorem visible_of_digits (hchars : ∀ c ∈ found, E.digit c ∨ c = '.')
    (hfirst : found.head?.any E.digit) : Visible found := by
  refine ⟨fun c hc => ?_, ?_⟩
  · rcases hchars c hc with hdigit | rfl
    · exact ⟨(visible_digit hdigit).1, (visible_digit hdigit).2.1⟩
    · decide
  · cases found with
    | nil => exact absurd hfirst (by simp)
    | cons c found => exact ⟨c, mem_cons_self, (visible_digit hfirst).2.2⟩

theorem KeyId.visible (h : KeyId found) : Visible found := by
  refine ⟨fun c hc => ⟨?_, ?_⟩, ?_⟩
  · rintro rfl
    exact absurd (h.all_chars hc) (by decide)
  · rintro rfl
    exact absurd (h.all_chars hc) (by decide)
  · have hmem : 'A' ∈ found := by
      rcases h.start with hstart | hstart
      · exact hstart.subset mem_cons_self
      · exact hstart.subset mem_cons_self
    exact ⟨'A', hmem, by decide⟩

/-! ## Nothing is left to match -/

/-- Matches of the pattern are visible, start and end with a member of the class, and depend on the
character that follows them only. -/
structure Framed (p : Pattern) (member : Char → Bool) : Prop where
  ends : ∀ {before found after}, found ≠ [] →
    p.length before (found ++ after) = some found.length →
    found.head?.any member ∧ found.getLast?.any member
  visible : ∀ {before found after}, found ≠ [] →
    p.length before (found ++ after) = some found.length → Visible found
  same : ∀ {before found after other}, found ≠ [] →
    p.length before (found ++ after) = some found.length → after.head? = other.head? →
    p.length before (found ++ other) = some found.length

variable {p : Pattern} {name : String}

theorem match_of_length {n : Nat} (h : p.length before text = some n) :
    ∃ found after, text = found ++ after ∧ found ≠ [] ∧
      p.length before (found ++ after) = some found.length := by
  obtain ⟨hpos, hle⟩ := p.bounded h
  refine ⟨text.take n, text.drop n, (take_append_drop n text).symm, ?_, ?_⟩
  · rw [ne_eq, ← length_eq_zero_iff, length_take_of_le hle]
    omega
  · rw [take_append_drop, h, length_take_of_le hle]

/-- Where a framed pattern matches nowhere, it does not once matches that stand apart are replaced;
and it matches nowhere once its own are. -/
theorem Framed.nowhere_sub {other : Pattern} {member : Char → Bool} (hp : Framed p member)
    (hapart : other.Apart member) (hname : name.toList.all Char.isLower)
    (h : other = p ∨ p.Nowhere text) : p.Nowhere (other.sub (tag name).chars text) := by
  intro front rest hrest
  by_contra hsome
  obtain ⟨n, hn⟩ := ne_none_iff_exists'.mp hsome
  obtain ⟨found, back, rfl, hne, hmatch⟩ := match_of_length hn
  obtain ⟨hfirst, hlast⟩ := hp.ends hne hmatch
  obtain ⟨before, after, htext, -, hquiet, hbefore, hafter⟩ :=
    sub_window_apart hapart hfirst hlast ((hp.visible hne hmatch).foreign hname) hrest
  have hthere : p.length (lastOf none before) (found ++ after) = some found.length := by
    rw [hbefore]
    exact hp.same hne hmatch hafter.symm
  rcases h with rfl | hnowhere
  · obtain ⟨c, found, rfl⟩ := exists_cons_of_ne_nil hne
    have hnone := hquiet [] c found rfl
    rw [append_nil, ← cons_append, hthere] at hnone
    exact absurd hnone (by simp)
  · rw [hnowhere _ _ htext] at hthere
    exact absurd hthere (by simp)

theorem account_apart : (accountPattern E).Apart E.digit := by
  intro before found after h
  exact (account_match.mp h).2.2

theorem address_apart : (addressPattern E).Apart E.word := by
  intro before found after h
  have hne : found ≠ [] := by
    rintro rfl
    exact absurd ((addressPattern E).bounded h).1 (by simp)
  exact ((address_match hne).mp h).2

theorem key_apart : (keyPattern E).Apart E.word := by
  intro before found after h
  exact (key_match.mp h).2

theorem apart_digit (h : p.Apart E.word) : p.Apart E.digit := by
  intro before found after hmatch
  obtain ⟨hbefore, hafter⟩ := h before found after hmatch
  exact ⟨not_digit_of_not_word hbefore, not_digit_of_not_word hafter⟩

theorem account_framed : Framed (accountPattern E) E.digit where
  ends hne h := by
    obtain ⟨-, hall, -⟩ := account_match.mp h
    rw [List.head?_eq_some_head hne, List.getLast?_eq_some_getLast hne]
    exact ⟨hall _ (head_mem hne), hall _ (getLast_mem hne)⟩
  visible hne h := by
    obtain ⟨-, hall, -⟩ := account_match.mp h
    refine visible_of_digits (E := E) (fun c hc => .inl (hall c hc)) ?_
    rw [List.head?_eq_some_head hne]
    exact hall _ (head_mem hne)
  same _ h hhead := by
    obtain ⟨hlength, hall, hbefore, hafter⟩ := account_match.mp h
    exact account_match.mpr ⟨hlength, hall, hbefore, hhead ▸ hafter⟩

theorem address_framed : Framed (addressPattern E) E.word where
  ends hne h := by
    obtain ⟨hnumbers, -⟩ := (address_match hne).mp h
    exact ⟨any_word_of_digit hnumbers.ends.1, any_word_of_digit hnumbers.ends.2⟩
  visible hne h := by
    obtain ⟨hnumbers, -⟩ := (address_match hne).mp h
    exact visible_of_digits (fun c hc => hnumbers.chars hc) hnumbers.ends.1
  same hne h hhead := by
    obtain ⟨hnumbers, hbefore, hafter⟩ := (address_match hne).mp h
    exact (address_match hne).mpr ⟨hnumbers, hbefore, hhead ▸ hafter⟩

theorem key_framed : Framed (keyPattern E) E.word where
  ends _ h := (key_match.mp h).1.ends
  visible _ h := (key_match.mp h).1.visible
  same _ h hhead := by
    obtain ⟨hkey, hbefore, hafter⟩ := key_match.mp h
    exact key_match.mpr ⟨hkey, hbefore, hhead ▸ hafter⟩

/-- Every ARN mark is followed by a space or a quote. -/
def Bare (E : Classes) (text : List Char) : Prop :=
  ∀ before c after, text = before ++ (arnMark ++ c :: after) → isArnChar E c = false

/-- The matches of the pattern open with a character that may stand in an ARN. -/
def OpensPlain (E : Classes) (p : Pattern) : Prop :=
  ∀ before c rest, (p.length before (c :: rest)).isSome → isArnChar E c

theorem bare_sub (hplain : OpensPlain E p) (hname : name.toList.all Char.isLower)
    (h : p = arnPattern E ∨ Bare E text) :
    Bare E (p.sub (tag name).chars text) := by
  intro front c back hsplit
  have hvisible : Visible arnMark :=
    ⟨by simp [arnMark], ':', by simp [arnMark], by decide⟩
  obtain ⟨before, after, htext, -, hquiet, -, hafter⟩ :=
    sub_window (hvisible.foreign hname) hsplit
  -- In the text the mark is followed by no character of an ARN.
  have hbare : ∀ d rest, after = d :: rest → isArnChar E d = false := by
    intro d rest hd
    rw [hd] at htext hquiet
    rcases h with rfl | hbare
    · have hnone : arnLength E (arnMark ++ d :: rest) = none := by
        have hat := hquiet [] 'a' ['r', 'n', ':', 'a', 'w', 's', ':'] rfl
        exact hat
      rw [← arn_length_mark d rest, hnone]
      rfl
    · exact hbare before d rest htext
  rcases hafter with hhead | hsome
  · cases after with
    | nil => exact absurd hhead (by simp)
    | cons d after =>
      rw [List.head?_cons, List.head?_cons, Option.some.injEq] at hhead
      rw [← hhead]
      exact hbare d after rfl
  · cases after with
    | nil =>
      obtain ⟨n, hn⟩ := isSome_iff_exists.mp hsome
      have hle := p.bounded hn
      rw [length_nil] at hle
      omega
    | cons d after =>
      have hno := hbare d after rfl
      rw [hplain _ d after hsome] at hno
      exact absurd hno (by simp)

theorem Bare.nowhere (h : Bare E text) : (arnPattern E).Nowhere text := by
  intro before after hsplit
  by_contra hsome
  obtain ⟨n, hn⟩ := ne_none_iff_exists'.mp hsome
  obtain ⟨⟨c, rest, rfl, hc⟩, -⟩ := arn_length_some hn
  rw [h before c rest hsplit] at hc
  exact absurd hc (by simp)

theorem arn_char_of_word {c : Char} (h : E.word c) : isArnChar E c := by
  have hspace := E.not_space_of_word c h
  have hquote : isQuote c = false := by
    by_contra hquote
    simp only [isQuote, Bool.not_eq_false, Bool.or_eq_true, beq_iff_eq] at hquote
    rcases hquote with rfl | rfl
    · rw [E.word_ascii _ (by decide)] at h
      exact absurd h (by decide)
    · rw [E.word_ascii _ (by decide)] at h
      exact absurd h (by decide)
  rw [isArnChar, hspace, hquote]
  rfl

theorem opens_plain_of_framed (hp : Framed p E.word) : OpensPlain E p := by
  intro before c rest h
  obtain ⟨n, hn⟩ := isSome_iff_exists.mp h
  obtain ⟨found, after, hsplit, hne, hmatch⟩ := match_of_length hn
  have hfirst := (hp.ends hne hmatch).1
  obtain ⟨d, found, rfl⟩ := exists_cons_of_ne_nil hne
  rw [cons_append, List.cons.injEq] at hsplit
  rw [hsplit.1]
  exact arn_char_of_word hfirst

theorem account_framed_word : Framed (accountPattern E) E.word where
  ends hne h := by
    obtain ⟨hfirst, hlast⟩ := account_framed.ends hne h
    exact ⟨any_word_of_digit hfirst, any_word_of_digit hlast⟩
  visible := account_framed.visible
  same := account_framed.same

theorem arn_opens_plain : OpensPlain E (arnPattern E) := by
  intro before c rest h
  obtain ⟨n, hn⟩ := isSome_iff_exists.mp h
  obtain ⟨⟨d, after, hsplit, -⟩, -⟩ := arn_length_some hn
  obtain ⟨rfl, -⟩ := List.cons.inj hsplit
  refine arn_char_of_word ?_
  rw [E.word_ascii 'a' (by decide)]
  decide

theorem arn_char_of_local {c : Char} (h : isLocal c) : isArnChar E c := by
  rw [isLocal, Bool.or_eq_true] at h
  rcases h with halnum | hmark
  · refine arn_char_of_word ?_
    rw [E.word_ascii c (Text.ascii_of_alphanum halnum), halnum, Bool.true_or]
  · have hmem : c ∈ ['.', '_', '%', '+', '-'] := by simpa using hmark
    have hall : ['.', '_', '%', '+', '-'].all fun c =>
        decide (isAscii c = true ∧ 32 < c.toNat ∧ isQuote c = false) := by decide
    obtain ⟨hascii, hlarge, hquote⟩ := of_decide_eq_true (all_eq_true.mp hall c hmem)
    have hspace : E.space c = false := by
      by_contra hspace
      have hle := E.space_ascii c hascii (by simpa using hspace)
      omega
    rw [isArnChar, hspace, hquote]
    rfl

theorem email_opens_plain : OpensPlain E emailPattern := by
  intro before c rest h
  obtain ⟨n, hn⟩ := isSome_iff_exists.mp h
  obtain ⟨name, d, host, more, m, hsplit, hne, hname, -⟩ := email_length_some hn
  obtain ⟨x, name, rfl⟩ := exists_cons_of_ne_nil hne
  rw [cons_append, List.cons.injEq] at hsplit
  rw [hsplit.1]
  exact arn_char_of_local (hname x mem_cons_self)

/-- No core of an e-mail address stands in the text. -/
def NoEmail (text : List Char) : Prop :=
  ∀ core, EmailCore core → ¬core <:+: text

/-- Characters of an e-mail address are no brackets. -/
theorem EmailCore.visible (h : EmailCore found) : Visible found := by
  obtain ⟨x, d, host, l, m, rfl, hx, hd, hhost, hl, hm⟩ := h.parts
  have hlocal : ∀ c : Char, isLocal c → c ≠ '<' ∧ c ≠ '>' := by
    intro c hc
    refine ⟨?_, ?_⟩
    · rintro rfl
      exact absurd hc (by decide)
    · rintro rfl
      exact absurd hc (by decide)
  have hishost : ∀ c : Char, isHost c → isLocal c := by
    intro c hc
    simp only [isHost, isLocal, Bool.or_eq_true, beq_iff_eq] at hc ⊢
    rcases hc with (hc | rfl) | rfl
    · exact .inl hc
    · exact .inr (by decide)
    · exact .inr (by decide)
  have hletter : ∀ c : Char, c.isAlpha → isLocal c := by
    intro c hc
    simp [isLocal, Char.isAlphanum, hc]
  refine ⟨fun c hc => ?_, '@', by simp, by decide⟩
  simp only [mem_cons, mem_append, not_mem_nil, or_false] at hc
  rcases hc with rfl | rfl | rfl | hc | rfl | rfl | rfl
  · exact hlocal _ hx
  · decide
  · exact hlocal _ (hishost _ hd)
  · exact hlocal c (hishost c (hhost c hc))
  · decide
  · exact hlocal _ (hletter _ hl)
  · exact hlocal _ (hletter _ hm)

/-- A text without e-mail addresses stays one, and a text becomes one when they are replaced. -/
theorem no_email_sub (hname : name.toList.all Char.isLower)
    (h : p = emailPattern ∨ NoEmail text) : NoEmail (p.sub (tag name).chars text) := by
  rintro core hcore ⟨front, back, hsplit⟩
  rw [append_assoc] at hsplit
  obtain ⟨before, after, htext, -, hquiet, -⟩ :=
    sub_window (hcore.visible.foreign hname) hsplit.symm
  rcases h with rfl | hno
  · obtain ⟨x, d, host, l, m, hparts, -⟩ := hcore.parts
    have hnone : emailLength (core ++ after) = none := by
      have hat := hquiet [] x _ hparts
      rw [← cons_append, ← hparts] at hat
      exact hat
    have hsome := email_core_matched hcore after
    rw [hnone] at hsome
    exact absurd hsome (by simp)
  · exact hno core hcore ⟨before, after, by rw [htext, append_assoc]⟩

theorem last_domain_some {m : Nat} (h : lastDomain text = some m) :
    ∃ host k l rest, text = host ++ '.' :: k :: l :: rest ∧ k.isAlpha ∧ l.isAlpha := by
  induction text generalizing m with
  | nil => exact absurd h (by simp [lastDomain])
  | cons c text ih =>
    rw [lastDomain] at h
    split at h
    · rename_i n hn
      obtain ⟨host, k, l, rest, rfl, hk, hl⟩ := ih hn
      exact ⟨c :: host, k, l, rest, rfl, hk, hl⟩
    · dsimp only at h
      split at h
      · rename_i hcond
        simp only [Bool.and_eq_true, beq_iff_eq, decide_eq_true_eq] at hcond
        obtain ⟨rfl, hsize⟩ := hcond
        obtain ⟨rest, hrest⟩ := takeWhile_prefix Char.isAlpha (l := text)
        have hall : ∀ c ∈ text.takeWhile Char.isAlpha, c.isAlpha := fun c hc =>
          mem_takeWhile_imp hc
        rcases hletters : text.takeWhile Char.isAlpha with _ | ⟨k, _ | ⟨l, more⟩⟩
        · rw [hletters] at hsize; exact absurd hsize (by simp)
        · rw [hletters] at hsize; exact absurd hsize (by simp)
        · rw [hletters] at hall hrest
          exact ⟨[], k, l, more ++ rest, by rw [← hrest]; rfl, hall k (by simp), hall l (by simp)⟩
      · exact absurd h (by simp)

/-- In a text without the core of an e-mail address there is no match. -/
theorem NoEmail.nowhere (h : NoEmail text) : emailPattern.Nowhere text := by
  intro before after hsplit
  by_contra hsome
  obtain ⟨n, hn⟩ := ne_none_iff_exists'.mp hsome
  obtain ⟨name, d, host, rest, m, rfl, hne, hname, hd, hhost, hm, -⟩ := email_length_some hn
  obtain ⟨init, k, l, more, rfl, hk, hl⟩ := last_domain_some hm
  obtain rfl | ⟨name, x, rfl⟩ := eq_nil_or_concat name
  · exact hne rfl
  rw [concat_eq_append] at hsplit hname
  refine h (x :: '@' :: d :: (init ++ ['.', k, l])) ⟨x, d, init, k, l, rfl, hname x (by simp), hd,
    fun c hc => hhost c (mem_append_left _ hc), hk, hl⟩
    ⟨before ++ name, more ++ rest, ?_⟩
  rw [hsplit]
  simp

/-- An e-mail address: a name, a host and a domain of at least two letters. -/
structure EmailAddress (address : List Char) : Prop where
  parts : ∃ name host domain, address = name ++ '@' :: (host ++ '.' :: domain) ∧ name ≠ [] ∧
    (∀ c ∈ name, isLocal c) ∧ host ≠ [] ∧ (∀ c ∈ host, isHost c) ∧ 2 ≤ domain.length ∧
    ∀ c ∈ domain, c.isAlpha

theorem EmailAddress.core (h : EmailAddress found) : ∃ core, EmailCore core ∧ core <:+: found := by
  obtain ⟨name, host, domain, rfl, hname, hlocal, hhost, hall, hsize, halpha⟩ := h.parts
  obtain rfl | ⟨name, x, rfl⟩ := eq_nil_or_concat name
  · exact absurd rfl hname
  obtain ⟨d, host, rfl⟩ := exists_cons_of_ne_nil hhost
  match domain, hsize, halpha with
  | k :: l :: more, _, halpha =>
    rw [concat_eq_append] at hlocal ⊢
    refine ⟨x :: '@' :: d :: (host ++ ['.', k, l]), ⟨x, d, host, k, l, rfl, hlocal x (by simp),
      hall d (by simp), fun c hc => hall c (mem_cons_of_mem d hc), halpha k (by simp),
      halpha l (by simp)⟩, name, more, ?_⟩
    simp

/-! ## The texts between the redactors -/

variable (E) (text)

/-- The text once ARNs and e-mail addresses are replaced. -/
def withoutNames : List Char :=
  emailPattern.sub (tag "email").chars ((arnPattern E).sub (tag "arn").chars text)

/-- The text once account ids are replaced too. -/
def withoutAccounts : List Char :=
  (accountPattern E).sub (tag "acct").chars (withoutNames E text)

/-- The text once all but the key ids are replaced. -/
def withoutAddresses : List Char :=
  (addressPattern E).sub (tag "ip").chars (withoutAccounts E text)

theorem redact_eq :
    redact E text = (keyPattern E).sub (tag "akid").chars (withoutAddresses E text) := by
  simp [redact, redactors, withoutAddresses, withoutAccounts, withoutNames]

theorem bare_without_names : Bare E (withoutNames E text) :=
  bare_sub email_opens_plain (by decide) (.inr (bare_sub arn_opens_plain (by decide) (.inl rfl)))

theorem bare_redact : Bare E (redact E text) := by
  rw [redact_eq]
  refine bare_sub (opens_plain_of_framed key_framed) (by decide) (.inr ?_)
  refine bare_sub (opens_plain_of_framed address_framed) (by decide) (.inr ?_)
  exact bare_sub (opens_plain_of_framed account_framed_word) (by decide)
    (.inr (bare_without_names E text))

theorem no_email_redact : NoEmail (redact E text) := by
  rw [redact_eq]
  refine no_email_sub (by decide) (.inr ?_)
  refine no_email_sub (by decide) (.inr ?_)
  refine no_email_sub (by decide) (.inr ?_)
  exact no_email_sub (by decide) (.inl rfl)

theorem no_account_redact : (accountPattern E).Nowhere (redact E text) := by
  rw [redact_eq]
  refine account_framed.nowhere_sub (apart_digit key_apart) (by decide) (.inr ?_)
  refine account_framed.nowhere_sub (apart_digit address_apart) (by decide) (.inr ?_)
  exact account_framed.nowhere_sub account_apart (by decide) (.inl rfl)

theorem no_address_redact : (addressPattern E).Nowhere (redact E text) := by
  rw [redact_eq]
  refine address_framed.nowhere_sub key_apart (by decide) (.inr ?_)
  exact address_framed.nowhere_sub address_apart (by decide) (.inl rfl)

theorem no_key_redact : (keyPattern E).Nowhere (redact E text) := by
  rw [redact_eq]
  exact key_framed.nowhere_sub key_apart (by decide) (.inl rfl)

theorem redact_of_nowhere {text : List Char} (harn : (arnPattern E).Nowhere text)
    (hemail : emailPattern.Nowhere text) (haccount : (accountPattern E).Nowhere text)
    (haddress : (addressPattern E).Nowhere text) (hkey : (keyPattern E).Nowhere text) :
    redact E text = text := by
  rw [redact_eq, withoutAddresses, withoutAccounts, withoutNames, sub_of_nowhere harn,
    sub_of_nowhere hemail, sub_of_nowhere haccount,
    sub_of_nowhere haddress, sub_of_nowhere hkey]

theorem redact_idempotent : redact E (redact E text) = redact E text :=
  redact_of_nowhere E (bare_redact E text).nowhere (no_email_redact E text).nowhere
    (no_account_redact E text) (no_address_redact E text) (no_key_redact E text)

end AwsOps.Redaction
