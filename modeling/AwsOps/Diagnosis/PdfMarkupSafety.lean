import AwsOps.Diagnosis.PdfMarkup

/-!
# What the rebuilt markup can contain

The parts of the rendered output are balanced and stay within the allowlists, whatever the parser
reports, up to one point: under `re.I` a few letters outside ASCII count as ASCII letters, and an
`href` or a `src` whose head is spelled with one of them is kept. `rebuilt_iff` says that nothing
else goes wrong. The parser is relied on for one thing: it reports no start tag between the start
and the end of a `style` element (`RawText`).
-/

namespace AwsOps.Diagnosis

open List PdfMarkup

open Markup (Balanced Clean Place Policy Sealed Step Walk closing escape opening)
open Text (ascii_of_upper foldCase forall_ascii isAscii)

/-! ## The policy -/

/-- The value is within the permitted schemes of the attribute. -/
def Permitted (name : String) (value : List Char) : Prop :=
  (name = "href" → hrefHeads.any fun head => begins Char.toUpper head.toList value) ∧
    (name = "src" → srcHeads.any fun head => begins Char.toUpper head.toList value)

theorem clean_of_all {names : List String} (h : names.all fun name => decide (Clean name)) :
    ∀ name ∈ names, Clean name :=
  fun name hname => of_decide_eq_true (all_eq_true.mp h name hname)

theorem pdf_attributes_clean (tag : String) : ∀ name ∈ allowed tag, Clean name := by
  refine clean_of_all ?_
  unfold allowed pdfTagAttributes
  split <;> decide

/-- The allowlists as a policy. -/
def pdfPolicy : Policy where
  tags := pdfTags
  void := pdfVoidTags
  raw := "style"
  attrs := allowed
  permits := Permitted
  tags_clean := clean_of_all (by decide)
  attrs_clean := pdf_attributes_clean
  raw_tag := by decide
  raw_open := by decide

/-! ## The heads of addresses -/

/-- No character that `re.I` takes for an ASCII letter, but the ASCII letters. -/
def Plain (text : List Char) : Prop :=
  ∀ c ∈ text, foldCase c = c.toUpper

/-- An address is not spelled with a lookalike of an ASCII letter where its scheme stands. -/
def PlainHead (name : String) (value : List Char) : Prop :=
  (name = "href" → value.head? = some '#' ∨ Plain (value.takeWhile (· != ':'))) ∧
    (name = "src" → Plain (value.takeWhile (· != ',')))

instance (text : List Char) : Decidable (Plain text) :=
  decidable_of_iff (text.all fun c => foldCase c == c.toUpper) (by simp [Plain])

instance (name : String) (value : List Char) : Decidable (PlainHead name value) :=
  inferInstanceAs (Decidable (_ ∧ _))

theorem fold_ascii {c : Char} (h : isAscii c) : foldCase c = c.toUpper :=
  forall_ascii (fun c => foldCase c = c.toUpper) (by decide) c h

theorem same_upper {w c : Char} (hw : isAscii w) :
    w.toUpper = c.toUpper ↔ foldCase w = foldCase c ∧ foldCase c = c.toUpper := by
  constructor
  · intro h
    have hupper : isAscii w.toUpper :=
      forall_ascii (fun c => isAscii c.toUpper) (by decide) w hw
    have hc : isAscii c := ascii_of_upper (h ▸ hupper)
    exact ⟨by rw [fold_ascii hw, fold_ascii hc, h], fold_ascii hc⟩
  · intro h
    rw [← fold_ascii hw, h.1, h.2]

/-- The character is an ASCII character and no letter. -/
def Rigid (c : Char) : Prop :=
  isAscii c ∧ c.isAlpha = false

instance (c : Char) : Decidable (Rigid c) :=
  inferInstanceAs (Decidable (_ ∧ _))

/-- A character that is no letter is compared with itself only. -/
theorem Rigid.eq {w c : Char} (hw : Rigid w) (h : foldCase w = foldCase c) : c = w := by
  have hfixed : foldCase w = w :=
    forall_ascii (fun c => c.isAlpha = false → foldCase c = c) (by decide) w hw.1 hw.2
  rw [hfixed] at h
  unfold foldCase at h
  split at h
  case h_5 =>
    have hc : isAscii c := ascii_of_upper (h ▸ hw.1)
    have hsame := forall_ascii (fun c => c.toUpper.isAlpha = false → c.toUpper = c) (by decide) c hc
    rw [h, hsame (h ▸ hw.2)]
  all_goals
    rw [h] at hw
    exact absurd hw (by decide)

variable {fold : Char → Char} {value : List Char} {mark : Char} {tag : String}
  {attrs : List (String × Option (List Char))}

theorem begins_cons {w c : Char} {word text : List Char} :
    begins fold (w :: word) (c :: text) ↔ fold w = fold c ∧ begins fold word text := by
  simp [begins]

theorem begins_cons_left {w : Char} {word text : List Char}
    (h : begins fold (w :: word) text) : ∃ c rest, text = c :: rest ∧ fold w = fold c ∧
      begins fold word rest := by
  cases text with
  | nil => simp [begins] at h
  | cons c rest => exact ⟨c, rest, rfl, begins_cons.mp h⟩

theorem begins_rigid {word text : List Char} (hword : ∀ c ∈ word, Rigid c)
    (h : begins foldCase word text) : begins Char.toUpper word text := by
  induction word generalizing text with
  | nil => rfl
  | cons w word ih =>
    obtain ⟨c, rest, rfl, hw, hrest⟩ := begins_cons_left h
    have hsame : c = w := (hword w mem_cons_self).eq hw
    refine begins_cons.mpr ⟨by rw [hsame], ?_⟩
    exact ih (fun c hc => hword c (mem_cons_of_mem _ hc)) hrest

theorem begins_fold {word text : List Char} (hword : ∀ c ∈ word, isAscii c)
    (h : begins Char.toUpper word text) : begins foldCase word text := by
  induction word generalizing text with
  | nil => rfl
  | cons w word ih =>
    obtain ⟨c, rest, rfl, hw, hrest⟩ := begins_cons_left h
    have hsame := (same_upper (hword w mem_cons_self)).mp hw
    exact begins_cons.mpr ⟨hsame.1, ih (fun c hc => hword c (mem_cons_of_mem _ hc)) hrest⟩

/-- Where `re.I` finds a head, ASCII finds it if no lookalike stands before the mark that ends the
scheme. -/
theorem begins_upper_iff {letters tail : List Char} (hletters : ∀ c ∈ letters, isAscii c ∧ c ≠ mark)
    (hmark : Rigid mark) (htail : ∀ c ∈ tail, Rigid c)
    (h : begins foldCase (letters ++ mark :: tail) value) :
    begins Char.toUpper (letters ++ mark :: tail) value ↔ Plain (value.takeWhile (· != mark)) := by
  induction letters generalizing value with
  | nil =>
    obtain ⟨c, rest, rfl, hc, hrest⟩ := begins_cons_left h
    have hsame : c = mark := hmark.eq hc
    subst hsame
    have hupper : begins Char.toUpper ([] ++ c :: tail) (c :: rest) :=
      begins_cons.mpr ⟨rfl, begins_rigid htail hrest⟩
    exact iff_of_true hupper (by simp [Plain])
  | cons w letters ih =>
    obtain ⟨c, rest, rfl, hc, hrest⟩ := begins_cons_left h
    obtain ⟨hw, hne⟩ := hletters w mem_cons_self
    have hc' : c ≠ mark := by
      intro hsame
      subst hsame
      exact hne (hmark.eq hc.symm)
    have hrest' := ih (fun c hc => hletters c (mem_cons_of_mem _ hc)) hrest
    rw [cons_append, begins_cons, hrest', same_upper hw, takeWhile_cons_of_pos (by simpa using hc')]
    simp [Plain, hc]

/-- The head spells a scheme that ends at the mark, in ASCII. -/
def Spelled (mark : Char) (head : String) : Prop :=
  ∃ letters tail, head.toList = letters ++ mark :: tail ∧
    (∀ c ∈ letters, isAscii c ∧ c ≠ mark) ∧ ∀ c ∈ tail, Rigid c

theorem spelled_of_all {head : String} (letters tail : List Char)
    (hhead : head.toList = letters ++ mark :: tail)
    (hletters : letters.all fun c => isAscii c && c != mark)
    (htail : tail.all fun c => decide (Rigid c)) : Spelled mark head := by
  refine ⟨letters, tail, hhead, fun c hc => ?_, fun c hc => ?_⟩
  · simpa using all_eq_true.mp hletters c hc
  · exact of_decide_eq_true (all_eq_true.mp htail c hc)

theorem Spelled.ascii {head : String} (hmark : Rigid mark) (h : Spelled mark head) :
    ∀ c ∈ head.toList, isAscii c := by
  obtain ⟨letters, tail, hword, hletters, htail⟩ := h
  intro c hc
  rw [hword, mem_append, mem_cons] at hc
  obtain hc | rfl | hc := hc
  · exact (hletters c hc).1
  · exact hmark.1
  · exact (htail c hc).1

theorem any_begins_iff {heads : List String} (hmark : Rigid mark)
    (hheads : ∀ head ∈ heads, Spelled mark head)
    (h : heads.any fun head => begins foldCase head.toList value) :
    (heads.any fun head => begins Char.toUpper head.toList value) ↔
      Plain (value.takeWhile (· != mark)) := by
  obtain ⟨head, hmem, hbegins⟩ := any_eq_true.mp h
  constructor
  · intro hupper
    obtain ⟨other, hother, hfound⟩ := any_eq_true.mp hupper
    have hfold := begins_fold ((hheads other hother).ascii hmark) hfound
    obtain ⟨letters, tail, hword, hletters, htail⟩ := hheads other hother
    rw [hword] at hfound hfold
    exact (begins_upper_iff hletters hmark htail hfold).mp hfound
  · intro hplain
    obtain ⟨letters, tail, hword, hletters, htail⟩ := hheads head hmem
    refine any_eq_true.mpr ⟨head, hmem, ?_⟩
    rw [hword] at hbegins ⊢
    exact (begins_upper_iff hletters hmark htail hbegins).mpr hplain

theorem href_heads_spelled : ∀ head ∈ hrefHeads.tail, Spelled ':' head := by
  intro head hhead
  simp only [hrefHeads, tail_cons, mem_cons, not_mem_nil, or_false] at hhead
  obtain rfl | rfl | rfl := hhead
  · exact spelled_of_all "http".toList "//".toList rfl (by decide) (by decide)
  · exact spelled_of_all "https".toList "//".toList rfl (by decide) (by decide)
  · exact spelled_of_all "mailto".toList [] rfl (by decide) (by decide)

theorem src_heads_spelled : ∀ head ∈ srcHeads, Spelled ',' head := by
  intro head hhead
  simp only [srcHeads, map_cons, map_nil, mem_cons, not_mem_nil, or_false]
    at hhead
  obtain rfl | rfl | rfl | rfl | rfl | rfl := hhead
  · exact spelled_of_all "data:image/png;base64".toList [] rfl (by decide) (by decide)
  · exact spelled_of_all "data:image/jpeg;base64".toList [] rfl (by decide) (by decide)
  · exact spelled_of_all "data:image/gif;base64".toList [] rfl (by decide) (by decide)
  · exact spelled_of_all "data:image/webp;base64".toList [] rfl (by decide) (by decide)
  · exact spelled_of_all "data:image/avif;base64".toList [] rfl (by decide) (by decide)
  · exact spelled_of_all "data:image/bmp;base64".toList [] rfl (by decide) (by decide)

theorem begins_fragment (hrigid : ∀ c, fold '#' = fold c → c = '#')
    (value : List Char) : begins fold "#".toList value ↔ value.head? = some '#' := by
  constructor
  · intro h
    obtain ⟨c, rest, rfl, hc, -⟩ := @begins_cons_left _ _ [] _ h
    rw [hrigid c hc]
    rfl
  · intro h
    obtain ⟨rest, rfl⟩ := List.head?_eq_some_iff.mp h
    exact begins_cons.mpr ⟨rfl, rfl⟩

theorem href_permitted_iff (h : hrefMatches value) :
    (hrefHeads.any fun head => begins Char.toUpper head.toList value) ↔
      value.head? = some '#' ∨ Plain (value.takeWhile (· != ':')) := by
  have hmark : Rigid '#' := by decide
  have hfold := begins_fragment (fun c hc => hmark.eq hc) value
  have hupper := @begins_fragment Char.toUpper
    (fun c hc => hmark.eq ((same_upper hmark.1).mp hc).1) value
  have hcons : ∀ fold : Char → Char, (hrefHeads.any fun head => begins fold head.toList value) ↔
      begins fold "#".toList value ∨
        hrefHeads.tail.any fun head => begins fold head.toList value := by
    intro fold
    show (begins fold "#".toList value || _) = true ↔ _
    rw [Bool.or_eq_true]
    rfl
  rw [hcons, hupper]
  by_cases hfragment : value.head? = some '#'
  · simp [hfragment]
  · simp only [hfragment, false_or]
    refine any_begins_iff (by decide) href_heads_spelled ?_
    exact ((hcons foldCase).mp h).resolve_left (fun hb => hfragment (hfold.mp hb))

theorem src_permitted_iff (h : srcMatches value) :
    (srcHeads.any fun head => begins Char.toUpper head.toList value) ↔
      Plain (value.takeWhile (· != ',')) := by
  refine any_begins_iff (by decide) src_heads_spelled ?_
  obtain ⟨head, hmem, hhead⟩ := any_eq_true.mp h
  simp only [Bool.and_eq_true] at hhead
  exact any_eq_true.mpr ⟨head, hmem, hhead.1.1⟩

variable {attr : String × List Char}

theorem mem_kept (h : attr ∈ kept tag attrs) :
    attr.1 ∈ allowed tag ∧ (attr.1 = "href" → hrefMatches attr.2) ∧
      (attr.1 = "src" → srcMatches attr.2) := by
  simp only [kept, mem_map, mem_filter] at h
  obtain ⟨⟨name, value⟩, ⟨-, hkeeps⟩, rfl⟩ := h
  simp only [keeps, Bool.and_eq_true, Bool.or_eq_true, contains_iff_mem, bne_iff_ne] at hkeeps
  obtain ⟨⟨hallowed, hhref⟩, hsrc⟩ := hkeeps
  refine ⟨hallowed, ?_, ?_⟩
  · intro hname
    obtain ⟨text, rfl, hmatches⟩ := (Option.any_eq_true _ _).mp
      (hhref.resolve_left (not_not_intro hname))
    exact hmatches
  · intro hname
    obtain ⟨text, rfl, hmatches⟩ := (Option.any_eq_true _ _).mp
      (hsrc.resolve_left (not_not_intro hname))
    exact hmatches

theorem permitted_iff (h : attr ∈ kept tag attrs) :
    Permitted attr.1 attr.2 ↔ PlainHead attr.1 attr.2 := by
  obtain ⟨-, hhref, hsrc⟩ := mem_kept h
  unfold Permitted PlainHead
  refine and_congr (forall_congr' fun hname => ?_) (forall_congr' fun hname => ?_)
  · exact href_permitted_iff (hhref hname)
  · exact src_permitted_iff (hsrc hname)

theorem kept_permits_iff : pdfPolicy.Permits tag (kept tag attrs) ↔
      ∀ attr ∈ kept tag attrs, PlainHead attr.1 attr.2 := by
  refine forall₂_congr fun attr hattr => ?_
  rw [← permitted_iff hattr]
  exact and_iff_right (mem_kept hattr).1

/-! ## The content of a style element -/

theorem sealed_of_no_bracket {text : List Char} (h : '<' ∉ text) : Sealed text := by
  induction text with
  | nil => exact isChain_nil
  | cons c rest ih =>
    rw [mem_cons, not_or] at h
    exact isChain_cons.mpr ⟨fun _ _ hc => h.1 hc.1.symm, ih h.2⟩

theorem sealed_append {css text : List Char} (hcss : Sealed css) (hlast : css.getLast? ≠ some '<')
    (htext : Sealed text) : Sealed (css ++ text) := by
  refine List.IsChain.append hcss htext ?_
  intro c hc d _ hpair
  rw [hpair.1] at hc
  exact hlast hc

theorem last_append {css text : List Char} (hcss : css.getLast? ≠ some '<')
    (htext : text.getLast? ≠ some '<') : (css ++ text).getLast? ≠ some '<' := by
  rw [List.getLast?_append]
  cases hlast : text.getLast? with
  | none => exact hcss
  | some c => rwa [hlast] at htext

theorem seal_slashes_head (text : List Char) : (sealSlashes text).head? = text.head? := by
  fun_cases sealSlashes text <;> rfl

theorem seal_slashes_last (text : List Char) : (sealSlashes text).getLast? = text.getLast? := by
  fun_induction sealSlashes text with
  | case1 rest ih => simp [List.getLast?_cons, ih]
  | case2 c rest _ ih => rw [List.getLast?_cons, List.getLast?_cons, ih]
  | case3 => rfl

/-- No closing tag begins in style data. -/
theorem seal_slashes_sealed (text : List Char) : Sealed (sealSlashes text) := by
  fun_induction sealSlashes text with
  | case1 rest ih =>
    refine isChain_cons.mpr ⟨?_, isChain_cons.mpr ⟨?_, isChain_cons.mpr ⟨?_, ih⟩⟩⟩
    · intro d hd hpair
      cases hd
      exact absurd hpair.2 (by decide)
    · intro d _ hpair
      exact absurd hpair.1 (by decide)
    · intro d _ hpair
      exact absurd hpair.1 (by decide)
  | case2 c rest hne ih =>
    refine isChain_cons.mpr ⟨?_, ih⟩
    intro d hd hpair
    rw [seal_slashes_head] at hd
    obtain ⟨tail, hrest⟩ := List.head?_eq_some_iff.mp hd
    exact hne tail hpair.1 (by rw [hrest, hpair.2])
  | case3 => exact isChain_nil

theorem closing_not_sealed (tag : String) : ¬Sealed (closing tag) := by
  intro h
  exact (isChain_cons.mp h).1 '/' rfl ⟨rfl, rfl⟩

/-! ## Runs -/

/-- The open tags of the renderer at a place of its output. -/
inductive Fits : List String → Place → Prop
  | content {stack} : "style" ∉ stack → (∀ tag ∈ stack, tag ∈ pdfTags) → Fits stack (.content stack)
  | inside {below css} : "style" ∉ below → (∀ tag ∈ below, tag ∈ pdfTags) → Sealed css →
      css.getLast? ≠ some '<' → Fits ("style" :: below) (.inside below css)

variable {place : Place} {tags : List String}

theorem Fits.close {current : String} {rest : List String} (h : Fits (current :: rest) place) :
    ∃ after, Step pdfPolicy place (closing current) after ∧ Fits rest after := by
  cases h with
  | content hstyle htags =>
    rw [mem_cons, not_or] at hstyle
    exact ⟨_, .close (htags _ mem_cons_self),
      .content hstyle.2 fun tag htag => htags tag (mem_cons_of_mem _ htag)⟩
  | inside hstyle htags hsealed _ => exact ⟨_, .leave hsealed, .content hstyle htags⟩

theorem Fits.styled (h : Fits tags place) (hstyle : tags.head? = some "style") {text : List Char}
    (hlast : text.getLast? ≠ some '<') :
    ∃ after, Step pdfPolicy place (sealSlashes text) after ∧ Fits tags after := by
  cases h with
  | content hnone => exact absurd (mem_of_mem_head? hstyle) hnone
  | inside hnone htags hsealed hend =>
    have hne : sealSlashes text ≠ closing "style" := fun heq =>
      closing_not_sealed "style" (heq ▸ seal_slashes_sealed text)
    refine ⟨_, .within hne, .inside hnone htags ?_ ?_⟩
    · exact sealed_append hsealed hend (seal_slashes_sealed text)
    · exact last_append hend (by rw [seal_slashes_last]; exact hlast)

theorem Fits.escaped (h : Fits tags place) (text : List Char) :
    ∃ after, Step pdfPolicy place (escape false text) after ∧ Fits tags after := by
  have hopen : '<' ∉ escape false text := fun hin => (Markup.mem_escape hin).1 rfl
  have hclose : '>' ∉ escape false text := fun hin => (Markup.mem_escape hin).2.1 rfl
  cases h with
  | content hnone htags => exact ⟨_, .text hopen hclose, .content hnone htags⟩
  | inside hnone htags hsealed hend =>
    have hne : escape false text ≠ closing "style" := fun heq =>
      hopen (heq ▸ mem_cons_self)
    refine ⟨_, .within hne, .inside hnone htags ?_ ?_⟩
    · exact sealed_append hsealed hend (sealed_of_no_bracket hopen)
    · exact last_append hend fun hbracket => hopen (mem_of_getLast? hbracket)

theorem Fits.close_all (h : Fits tags place) :
    Walk pdfPolicy place (tags.map closing) (.content []) := by
  induction tags generalizing place with
  | nil =>
    cases h with
    | content => exact .nil
  | cons current rest ih =>
    obtain ⟨after, hstep, hrest⟩ := h.close
    exact .cons hstep (ih hrest)

theorem close_until_walk (parts : List (List Char)) (counts : String → Int) (h : Fits tags place) :
    ∃ closed after, (closeUntil tag parts counts tags).parts = parts ++ closed ∧
      Walk pdfPolicy place closed after ∧
      Fits (closeUntil tag parts counts tags).openTags after := by
  induction tags generalizing parts counts place with
  | nil => exact ⟨[], place, (append_nil _).symm, .nil, h⟩
  | cons current rest ih =>
    obtain ⟨after, hstep, hrest⟩ := h.close
    unfold closeUntil
    split
    · exact ⟨[closing current], after, rfl, .single hstep, hrest⟩
    · obtain ⟨closed, last, hparts, hwalk, hfits⟩ :=
        ih (parts ++ [closing current]) (bump counts current (-1)) hrest
      refine ⟨closing current :: closed, last, ?_, .cons hstep hwalk, hfits⟩
      rw [hparts, append_assoc, singleton_append]

theorem close_until_counts (parts : List (List Char)) {counts : String → Int}
    (h : ∀ other, counts other = tags.count other) :
    ∀ other, (closeUntil tag parts counts tags).openCounts other =
      (closeUntil tag parts counts tags).openTags.count other := by
  induction tags generalizing parts counts with
  | nil => exact h
  | cons current rest ih =>
    have hrest : ∀ other, bump counts current (-1) other = rest.count other := by
      intro other
      unfold bump
      have hother := h other
      rw [count_cons] at hother
      by_cases hsame : other = current
      · rw [if_pos hsame, hother, if_pos (by simp [hsame])]
        omega
      · rw [if_neg hsame, hother, if_neg (by simpa using Ne.symm hsame)]
        omega
    unfold closeUntil
    split
    · exact hrest
    · exact ih _ hrest

theorem close_until_suffix (tag : String) (parts : List (List Char)) (counts : String → Int)
    (tags : List String) : (closeUntil tag parts counts tags).openTags <:+ tags := by
  induction tags generalizing parts counts with
  | nil => exact suffix_rfl
  | cons current rest ih =>
    unfold closeUntil
    split
    · exact suffix_cons _ _
    · exact (ih _ _).trans (suffix_cons _ _)

theorem close_until_style (parts : List (List Char)) (counts : String → Int) (h : Fits tags place) :
    "style" ∉ (closeUntil "style" parts counts tags).openTags := by
  induction tags generalizing parts counts place with
  | nil => exact not_mem_nil
  | cons current rest ih =>
    unfold closeUntil
    split
    case isTrue hsame =>
      subst hsame
      cases h with
      | content hstyle => exact absurd mem_cons_self hstyle
      | inside hstyle => exact hstyle
    case isFalse =>
      obtain ⟨after, -, hrest⟩ := h.close
      exact ih _ _ hrest

/-- Whether the parser is between the start and the end of a style element after an event. -/
def rawAfter (raw : Bool) : Event → Bool
  | .start tag _ => tag == "style"
  | .finish tag => raw && tag != "style"
  | .data _ _ => raw

/-- The parser reports no start tag between the start and the end of a style element. -/
def RawText (raw : Bool) : List Event → Prop
  | [] => True
  | event :: rest =>
    (∀ tag attrs, event = .start tag attrs → raw = false) ∧ RawText (rawAfter raw event) rest

/-- The addresses in a start tag are not spelled with lookalikes. -/
def Fine : Event → Prop
  | .start tag attrs => tag ∈ pdfTags → ∀ attr ∈ kept tag attrs, PlainHead attr.1 attr.2
  | _ => True

instance : DecidablePred Fine
  | .start tag attrs =>
    decidable_of_iff (!pdfTags.contains tag ||
      (kept tag attrs).all fun attr => decide (PlainHead attr.1 attr.2))
      (by simp only [Fine, Bool.or_eq_true, Bool.not_eq_true', contains_eq_mem,
        decide_eq_false_iff_not, all_eq_true, decide_eq_true_eq, imp_iff_not_or])
  | .finish _ => isTrue trivial
  | .data _ _ => isTrue trivial

/-- The event is no data that ends in a bracket. -/
def Ended (event : Event) : Prop :=
  ∀ cdata text, event = .data cdata text → text.getLast? ≠ some '<'

/-- The renderer stands at the place its parts lead to. -/
structure Follows (m : PdfMarkup) (raw : Bool) : Prop where
  walk : ∃ place, Walk pdfPolicy (.content []) m.parts place ∧ Fits m.openTags place
  counts : ∀ tag, m.openCounts tag = m.openTags.count tag
  raw : "style" ∈ m.openTags → raw = true

theorem Follows.init : Follows PdfMarkup.init false where
  walk := ⟨_, .nil, .content not_mem_nil fun _ h => absurd h not_mem_nil⟩
  counts _ := rfl
  raw h := absurd h not_mem_nil

variable {m : PdfMarkup} {raw : Bool}

/-- Outside a style element of the parser the output is between elements. -/
theorem Follows.content (h : Follows m raw) (hraw : raw = false) :
    Walk pdfPolicy (.content []) m.parts (.content m.openTags) ∧ "style" ∉ m.openTags ∧
      ∀ tag ∈ m.openTags, tag ∈ pdfTags := by
  obtain ⟨place, hwalk, hfits⟩ := h.walk
  generalize hopen : m.openTags = tags at hfits
  cases hfits with
  | content hstyle htags => exact ⟨hwalk, hstyle, htags⟩
  | inside =>
    have hin := h.raw (by rw [hopen]; exact mem_cons_self)
    rw [hraw] at hin
    cases hin

theorem Follows.start (h : Follows m raw) (hraw : raw = false) (hfine : Fine (.start tag attrs)) :
    Follows (m.handleStarttag tag attrs) (tag == "style") := by
  obtain ⟨hwalk, hstyle, htags⟩ := h.content hraw
  unfold handleStarttag
  by_cases hmem : tag ∈ pdfTags
  case neg =>
    rw [if_pos (by simpa using hmem)]
    exact ⟨⟨_, hwalk, .content hstyle htags⟩, h.counts, fun hin => absurd hin hstyle⟩
  rw [if_neg (by simpa using hmem)]
  have hpermits : pdfPolicy.Permits tag (kept tag attrs) := kept_permits_iff.mpr (hfine hmem)
  by_cases hvoid : tag ∈ pdfVoidTags
  · rw [if_pos (by simpa using hvoid)]
    refine ⟨⟨_, hwalk.append (.single (.void hmem hvoid hpermits)), .content hstyle htags⟩,
      h.counts, fun hin => absurd hin hstyle⟩
  rw [if_neg (by simpa using hvoid)]
  have hcounts : ∀ other, bump m.openCounts tag 1 other = (tag :: m.openTags).count other := by
    intro other
    unfold bump
    rw [count_cons, h.counts other]
    by_cases hsame : other = tag
    · rw [if_pos hsame, if_pos (by simp [hsame])]
      omega
    · rw [if_neg hsame, if_neg (by simpa using Ne.symm hsame)]
      omega
  by_cases hraw' : tag = "style"
  · subst hraw'
    refine ⟨⟨_, hwalk.append (.single (.raw hpermits)), ?_⟩, hcounts, fun _ => rfl⟩
    exact .inside hstyle htags isChain_nil nofun
  · have hopen : "style" ∉ tag :: m.openTags := by
      rw [mem_cons, not_or]
      exact ⟨Ne.symm hraw', hstyle⟩
    refine ⟨⟨_, hwalk.append (.single (.element hmem hvoid hraw' hpermits)), .content hopen ?_⟩,
      hcounts, fun hin => absurd hin hopen⟩
    exact forall_mem_cons.mpr ⟨hmem, htags⟩

theorem Follows.finish (h : Follows m raw) (tag : String) :
    Follows (m.handleEndtag tag) (raw && tag != "style") := by
  obtain ⟨place, hwalk, hfits⟩ := h.walk
  unfold handleEndtag
  split
  case isTrue hzero =>
    refine ⟨⟨place, hwalk, hfits⟩, h.counts, fun hin => ?_⟩
    have hne : tag ≠ "style" := by
      intro hsame
      rw [h.counts, hsame] at hzero
      have hpos := count_pos_iff.mpr hin
      omega
    simp [h.raw hin, hne]
  case isFalse =>
    obtain ⟨closed, after, hparts, hclosed, hafter⟩ :=
      @close_until_walk tag _ _ m.parts m.openCounts hfits
    refine ⟨⟨after, hparts ▸ hwalk.append hclosed, hafter⟩, close_until_counts _ h.counts, ?_⟩
    intro hin
    have hbefore := h.raw ((close_until_suffix tag m.parts m.openCounts m.openTags).subset hin)
    have hne : tag ≠ "style" := by
      intro hsame
      rw [hsame] at hin
      exact close_until_style m.parts m.openCounts hfits hin
    simp [hbefore, hne]

theorem Follows.data (h : Follows m raw) (cdata : Option String) {text : List Char}
    (hlast : text.getLast? ≠ some '<') : Follows (m.handleData cdata text) raw := by
  obtain ⟨place, hwalk, hfits⟩ := h.walk
  unfold handleData
  split
  case isTrue hboth =>
    obtain ⟨after, hstep, hafter⟩ := hfits.styled hboth.2 hlast
    exact ⟨⟨after, hwalk.append (.single hstep), hafter⟩, h.counts, h.raw⟩
  case isFalse =>
    obtain ⟨after, hstep, hafter⟩ := hfits.escaped text
    exact ⟨⟨after, hwalk.append (.single hstep), hafter⟩, h.counts, h.raw⟩

theorem Follows.handle (h : Follows m raw) {event : Event}
    (hstart : ∀ tag attrs, event = .start tag attrs → raw = false) (hended : Ended event)
    (hfine : Fine event) : Follows (m.handle event) (rawAfter raw event) := by
  cases event with
  | start tag attrs => exact h.start (hstart tag attrs rfl) hfine
  | finish tag => exact h.finish tag
  | data cdata text => exact h.data cdata (hended cdata text rfl)

theorem Follows.run {body : List Event} (h : Follows m raw) (hraw : RawText raw body)
    (hended : ∀ event ∈ body, Ended event) (hfine : ∀ event ∈ body, Fine event) :
    ∃ after, Follows (body.foldl PdfMarkup.handle m) after := by
  induction body generalizing m raw with
  | nil => exact ⟨raw, h⟩
  | cons event rest ih =>
    have hnext := h.handle hraw.1 (hended event mem_cons_self)
      (hfine event mem_cons_self)
    exact ih hnext hraw.2 (fun e he => hended e (mem_cons_of_mem _ he))
      (fun e he => hfine e (mem_cons_of_mem _ he))

theorem handle_parts (m : PdfMarkup) (event : Event) : m.parts <+: (m.handle event).parts := by
  have hclose : ∀ (tag : String) (tags : List String) (parts : List (List Char))
      (counts : String → Int), parts <+: (closeUntil tag parts counts tags).parts := by
    intro tag tags
    induction tags with
    | nil => intro parts counts; exact prefix_rfl
    | cons current rest ih =>
      intro parts counts
      unfold closeUntil
      split
      · exact prefix_append _ _
      · exact (prefix_append _ _).trans (ih _ _)
  cases event with
  | start tag attrs =>
    show m.parts <+: (m.handleStarttag tag attrs).parts
    unfold handleStarttag
    split
    · exact prefix_rfl
    · split <;> exact prefix_append _ _
  | finish tag =>
    show m.parts <+: (m.handleEndtag tag).parts
    unfold handleEndtag
    split
    · exact prefix_rfl
    · exact hclose _ _ _ _
  | data cdata text =>
    show m.parts <+: (m.handleData cdata text).parts
    unfold handleData
    split <;> exact prefix_append _ _

theorem run_parts (m : PdfMarkup) (body : List Event) :
    m.parts <+: (body.foldl PdfMarkup.handle m).parts := by
  induction body generalizing m with
  | nil => exact prefix_rfl
  | cons event rest ih => exact (handle_parts m event).trans (ih _)

theorem Follows.fine (h : Follows m raw) {event : Event}
    (hstart : ∀ tag attrs, event = .start tag attrs → raw = false) {last : Place}
    (hwalk : Walk pdfPolicy (.content []) (m.handle event).parts last) : Fine event := by
  cases event with
  | finish | data => trivial
  | start tag attrs =>
    intro hmem
    have hparts : (m.handleStarttag tag attrs).parts =
        m.parts ++ [opening tag (kept tag attrs)] := by
      unfold handleStarttag
      rw [if_neg (by simpa using hmem)]
      split <;> rfl
    have hwalk' : Walk pdfPolicy (.content []) (m.parts ++ [opening tag (kept tag attrs)]) last :=
      hparts ▸ hwalk
    obtain ⟨there, hbefore, hpiece⟩ := hwalk'.split
    -- The place before the tag is known, and there the tag has one meaning.
    have hplace := hbefore.unique (h.content (hstart tag attrs rfl)).1
    subst hplace
    cases hpiece with
    | cons hstep _ =>
      have hnames : ∀ attr ∈ kept tag attrs, Clean attr.1 := fun attr hattr =>
        pdf_attributes_clean tag _ (mem_kept hattr).1
      exact kept_permits_iff.mp (hstep.of_opening (pdfPolicy.tags_clean _ hmem) hnames).1

theorem Follows.fine_run {body : List Event} (h : Follows m raw) (hraw : RawText raw body)
    (hended : ∀ event ∈ body, Ended event) {last : Place}
    (hwalk : Walk pdfPolicy (.content []) (body.foldl PdfMarkup.handle m).parts last) :
    ∀ event ∈ body, Fine event := by
  induction body generalizing m raw with
  | nil => exact fun _ h => absurd h not_mem_nil
  | cons event rest ih =>
    obtain ⟨more, hmore⟩ := run_parts (m.handle event) rest
    have hevent : Fine event := by
      obtain ⟨there, hfirst, -⟩ := Walk.split (hmore ▸ hwalk)
      exact h.fine hraw.1 hfirst
    have hnext := h.handle hraw.1 (hended event mem_cons_self) hevent
    have hrest := ih hnext hraw.2 (fun e he => hended e (mem_cons_of_mem _ he)) hwalk
    exact forall_mem_cons.mpr ⟨hevent, hrest⟩

/-! ## The rendered output -/

/-- The pieces that `render` joins. -/
def PdfMarkup.pieces (body : List Event) : List (List Char) :=
  let m := PdfMarkup.feed body
  m.parts ++ m.openTags.map closing

/-- The output is a balanced sequence of pieces within the allowlists. -/
def Rebuilt (body : List Event) : Prop :=
  PdfMarkup.render body = (PdfMarkup.pieces body).flatten ∧
    Balanced pdfPolicy (PdfMarkup.pieces body)

/-- The output of a body is as it should be exactly if no address is spelled with a lookalike. -/
theorem rebuilt_iff (body : List Event) (hraw : RawText false body)
    (hended : ∀ event ∈ body, Ended event) : Rebuilt body ↔ ∀ event ∈ body, Fine event := by
  constructor
  · intro h
    obtain ⟨there, hparts, -⟩ := Walk.split h.2
    exact Follows.init.fine_run hraw hended hparts
  · intro hfine
    obtain ⟨after, hafter⟩ := Follows.init.run hraw hended hfine
    obtain ⟨place, hwalk, hfits⟩ := hafter.walk
    refine ⟨?_, hwalk.append hfits.close_all⟩
    show _ ++ _ = List.flatten (_ ++ _)
    rw [flatten_append]

/-- A body with markup that closes a style element early. -/
def styledBody : List Event :=
  [.start "p" [("onclick", some "x".toList)], .start "style" [],
    .data (some "style") "a</style><link>".toList, .finish "p",
    .data (some "style") "<b>".toList, .finish "style",
    .start "a" [("href", some "HTTPS://x".toList)]]

theorem styled_body_rebuilt :
    RawText false styledBody ∧ (∀ event ∈ styledBody, Ended event) ∧ Rebuilt styledBody := by
  have hraw : RawText false styledBody := by
    simp [RawText, styledBody, rawAfter]
  have hended : ∀ event ∈ styledBody, Ended event := by
    simp [Ended, styledBody]
  have hfine : ∀ event ∈ styledBody, Fine event := fun event hevent =>
    of_decide_eq_true (all_eq_true.mp (by decide : styledBody.all (decide <| Fine ·)) event hevent)
  exact ⟨hraw, hended, (rebuilt_iff styledBody hraw hended).mpr hfine⟩

/-- An address with a long s in its scheme. -/
def longSBody : List Event :=
  [.start "a" [("href", some "http\u017f://x".toList)]]

theorem long_s_kept : RawText false longSBody ∧ (∀ event ∈ longSBody, Ended event) ∧
    PdfMarkup.render longSBody = "<a href=\"http\u017f://x\"></a>".toList ∧
    ¬Rebuilt longSBody := by
  have hraw : RawText false longSBody := by
    simp [RawText, longSBody]
  have hended : ∀ event ∈ longSBody, Ended event := by
    simp [Ended, longSBody]
  refine ⟨hraw, hended, by decide, fun h => ?_⟩
  obtain ⟨there, hparts, -⟩ := Walk.split h.2
  have hfine := Follows.init.fine_run hraw hended hparts
  exact absurd (hfine _ mem_cons_self) (by decide)

end AwsOps.Diagnosis
