import AwsOps.Foundation.Splits
import AwsOps.NetworkPath.Calico

/-!
# The flat part of the selector language

What a conjunction of terms over labels means, and how it is written, beside the adapter that reads
it by a regular expression. The adapter cuts a selector at every conjunction sign and takes the
longest key that leaves an operator, so it answers for texts that are no selectors, and reads
quoted values apart. `selector_answered_iff` says when its answer is that of the language.
-/

namespace AwsOps.NetworkPath

open List AwsOps.Text

/-! ## The language -/

inductive SelectorTerm where
  | all
  /-- `has(k)` or `!has(k)`. -/
  | has (present : Bool) (key : String)
  /-- `k == 'v'` or `k != 'v'`. -/
  | compare (equal : Bool) (key value : String)
  /-- `k in {..}` or `k not in {..}`. -/
  | member (inside : Bool) (key : String) (values : List String)
  deriving DecidableEq

/-- The term holds of the labels. An absent label is different from every value. -/
def SelectorTerm.holds (labels : Labels) : SelectorTerm → Bool
  | .all => true
  | .has present key => (labels.lookup key).isSome == present
  | .compare equal key value => (labels.lookup key == some value) == equal
  | .member inside key values => ((labels.lookup key).any (· ∈ values)) == inside

variable (U : Unicode)

/-- White space. -/
def isBlank (c : Char) : Bool :=
  isSpace c && !isKeyChar U c

/-- A text of white space. -/
def Blanks (s : List Char) : Prop :=
  ∀ c ∈ s, isBlank U c = true

/-- The text is a key. -/
def IsKey (s : List Char) : Prop :=
  s ≠ [] ∧ ∀ c ∈ s, isKeyChar U c = true ∧ isSpace c = false

def isQuote (c : Char) : Bool :=
  c == '\'' || c == '"'

def Quoted (value : String) (s : List Char) : Prop :=
  ∃ q, isQuote q = true ∧ q ∉ value.toList ∧ s = q :: (value.toList ++ [q])

/-- The text is some values in quotes, between commas. -/
inductive SpellsItems : List String → List Char → Prop
  | one {value : String} {before quoted after : List Char} (hbefore : Blanks U before)
      (hquoted : Quoted value quoted) (hafter : Blanks U after) :
      SpellsItems [value] (before ++ (quoted ++ after))
  | cons {value : String} {values : List String} {before quoted after rest : List Char}
      (hbefore : Blanks U before) (hquoted : Quoted value quoted) (hafter : Blanks U after)
      (hrest : SpellsItems values rest) :
      SpellsItems (value :: values) ((before ++ (quoted ++ after)) ++ ([','] ++ rest))

/-- The text is a set of values. -/
inductive SpellsSet : List String → List Char → Prop
  | empty {blanks : List Char} (hblanks : Blanks U blanks) :
      SpellsSet [] ('{' :: (blanks ++ ['}']))
  | items {values : List String} {items : List Char} (hitems : SpellsItems U values items) :
      SpellsSet values ('{' :: (items ++ ['}']))

/-- The text is an operator of a comparison. -/
def comparison (equal : Bool) : List Char :=
  if equal then ['=', '='] else ['!', '=']

/-- The text is an operator of a membership. -/
inductive SpellsMembership : Bool → List Char → Prop
  | isIn : SpellsMembership true ['i', 'n']
  | notIn {blanks : List Char} (hblanks : Blanks U blanks) (hne : blanks ≠ []) :
      SpellsMembership false (['n', 'o', 't'] ++ (blanks ++ ['i', 'n']))

/-- The text is a term. -/
inductive SpellsTerm : SelectorTerm → List Char → Prop
  | all : SpellsTerm .all "all()".toList
  | has {key : List Char} (hkey : IsKey U key) :
      SpellsTerm (.has true (String.ofList key)) ("has(".toList ++ (key ++ [')']))
  | lacks {key : List Char} (hkey : IsKey U key) :
      SpellsTerm (.has false (String.ofList key)) ("!has(".toList ++ (key ++ [')']))
  | compare {equal : Bool} {value : String} {key before after quoted : List Char}
      (hkey : IsKey U key) (hbefore : Blanks U before) (hafter : Blanks U after)
      (hquoted : Quoted value quoted) :
      SpellsTerm (.compare equal (String.ofList key) value)
        (key ++ (before ++ (comparison equal ++ (after ++ quoted))))
  | member {inside : Bool} {values : List String} {key before operator after set : List Char}
      (hkey : IsKey U key) (hbefore : Blanks U before) (hne : before ≠ [])
      (hoperator : SpellsMembership U inside operator) (hafter : Blanks U after)
      (hset : SpellsSet U values set) :
      SpellsTerm (.member inside (String.ofList key) values)
        (key ++ (before ++ (operator ++ (after ++ set))))

/-- The text is a selector of the flat part: terms between conjunction signs. The empty selector
selects everything. -/
inductive SpellsSelector : List SelectorTerm → List Char → Prop
  | empty : SpellsSelector [] []
  | one {term : SelectorTerm} {before text after : List Char} (hbefore : Blanks U before)
      (hterm : SpellsTerm U term text) (hafter : Blanks U after) :
      SpellsSelector [term] (before ++ (text ++ after))
  | cons {term next : SelectorTerm} {terms : List SelectorTerm}
      {before text after rest : List Char} (hbefore : Blanks U before)
      (hterm : SpellsTerm U term text) (hafter : Blanks U after)
      (hrest : SpellsSelector (next :: terms) rest) :
      SpellsSelector (term :: next :: terms) ((before ++ (text ++ after)) ++ (['&', '&'] ++ rest))

/-- The selector is of the flat part, and these are its terms. White space around it does not
matter. -/
def IsSelector (selector : String) (terms : List SelectorTerm) : Prop :=
  SpellsSelector U terms (strip selector.toList)

/-- Where the adapter answers for a selector, the selector is of the flat part and the answer is
what it means on the labels. -/
def SelectorAnswered (selector : String) (labels : Labels) : Prop :=
  ∀ answer, calicoSelectorMatches U (some selector) (some labels) = some answer →
    ∃ terms, IsSelector U selector terms ∧ answer = terms.all (SelectorTerm.holds labels)

/-! ## What the adapter reads -/

/-- The pieces that the adapter cuts a selector into. -/
def selectorPieces (selector : String) : List (List Char) :=
  (split "&&".toList (strip selector.toList)).map strip

/-- The adapter does not read the selector any further. -/
def refusedSelector (selector : String) : Bool :=
  let selector := strip selector.toList
  contains "||".toList selector || contains "has(".toList selector
    || (erase "all()".toList selector).contains '('

/-- The piece is read as a term that holds. -/
def pieceHolds (labels : Labels) (piece : List Char) : Bool :=
  (parseCalicoTerm U piece).any fun (key, op, value) => calicoTermHolds labels key op value

/-- From the left, a piece that is not read comes before every piece that fails. -/
def unreadFirst (labels : Labels) (pieces : List (List Char)) : Bool :=
  match pieces.dropWhile (pieceHolds U labels) with
  | [] => false
  | piece :: _ => (parseCalicoTerm U piece).isNone

theorem terms_match_eq (labels : Labels) (pieces : List (List Char)) :
    calicoTermsMatch U labels pieces =
      if unreadFirst U labels pieces then none else some (pieces.all (pieceHolds U labels)) := by
  induction pieces with
  | nil => rfl
  | cons piece rest ih =>
    unfold calicoTermsMatch
    cases hparse : parseCalicoTerm U piece with
    | none =>
      have hfails : pieceHolds U labels piece = false := by simp [pieceHolds, hparse]
      have hunread : unreadFirst U labels (piece :: rest) = true := by
        simp [unreadFirst, hfails, hparse]
      rw [hunread]
      rfl
    | some parsed =>
      obtain ⟨key, op, value⟩ := parsed
      have hpiece : pieceHolds U labels piece = calicoTermHolds labels key op value := by
        simp [pieceHolds, hparse]
      by_cases hholds : calicoTermHolds labels key op value = true
      · have hunread : unreadFirst U labels (piece :: rest) = unreadFirst U labels rest := by
          simp [unreadFirst, hpiece, hholds]
        simp only [hholds, if_true]
        rw [ih, hunread, List.all_cons, hpiece, hholds, Bool.true_and]
      · have hunread : unreadFirst U labels (piece :: rest) = false := by
          simp [unreadFirst, hpiece, hholds, hparse]
        rw [hunread, List.all_cons, hpiece]
        simp [hholds]

/-! ## Terms with plain values -/

/-- The value has no conjunction sign in it and no quotes at its ends. -/
def PlainValue (value : String) : Prop :=
  ¬['&', '&'] <:+: value.toList ∧ (∀ c, value.toList.head? = some c → isQuote c = false) ∧
    ∀ c, value.toList.getLast? = some c → isQuote c = false

/-- The values of the term are plain, and those of a set have no commas. -/
def SelectorTerm.Plain : SelectorTerm → Prop
  | .compare _ _ value => PlainValue value
  | .member _ _ values => ∀ value ∈ values, PlainValue value ∧ ',' ∉ value.toList
  | _ => True

variable {U}

theorem quote_cases {q : Char} (h : isQuote q = true) : q = '\'' ∨ q = '"' := by
  simpa [isQuote] using h

theorem Blanks.space {s : List Char} (h : Blanks U s) : ∀ c ∈ s, isSpace c = true := by
  intro c hc
  have := h c hc
  simp only [isBlank, Bool.and_eq_true] at this
  exact this.1

theorem Blanks.no_key {s : List Char} (h : Blanks U s) : ∀ c ∈ s, isKeyChar U c = false := by
  intro c hc
  have := h c hc
  simp only [isBlank, Bool.and_eq_true, Bool.not_eq_true'] at this
  exact this.2

theorem Blanks.not_mem {s : List Char} {c : Char} (h : Blanks U s) (hc : isSpace c = false) :
    c ∉ s := by
  intro hmem
  rw [h.space c hmem] at hc
  cases hc

/-- A text in quotes, or a set: it begins and ends with a mark. -/
structure Marked (s : List Char) : Prop where
  head : ∃ c, s.head? = some c ∧ (isQuote c = true ∨ c = '{')
  last : ∃ c, s.getLast? = some c ∧ isSpace c = false

variable {s : List Char} {values : List String}

theorem Quoted.marked {value : String} (h : Quoted value s) : Marked s := by
  obtain ⟨q, hq, -, rfl⟩ := h
  refine ⟨⟨q, rfl, .inl hq⟩, q, ?_, ?_⟩
  · rw [← cons_append, List.getLast?_concat]
  · rcases quote_cases hq with rfl | rfl <;> decide

theorem SpellsSet.marked (h : SpellsSet U values s) : Marked s := by
  cases h with
  | empty hblanks =>
    exact ⟨⟨'{', rfl, .inr rfl⟩, '}', by rw [← cons_append, List.getLast?_concat], by decide⟩
  | items hitems =>
    exact ⟨⟨'{', rfl, .inr rfl⟩, '}', by rw [← cons_append, List.getLast?_concat], by decide⟩

theorem Marked.head_space (h : Marked s) : ∀ c, s.head? = some c → isSpace c = false := by
  obtain ⟨c, hc, hmark⟩ := h.head
  intro d hd
  rw [hc, Option.some.injEq] at hd
  subst hd
  rcases hmark with hq | rfl
  · rcases quote_cases hq with rfl | rfl <;> decide
  · decide

theorem Marked.last_space (h : Marked s) : ∀ c, s.getLast? = some c → isSpace c = false := by
  obtain ⟨c, hc, hspace⟩ := h.last
  intro d hd
  rw [hc, Option.some.injEq] at hd
  exact hd ▸ hspace

theorem strip_marked {before after : List Char} (hbefore : Blanks U before) (h : Marked s)
    (hafter : Blanks U after) : strip (before ++ (s ++ after)) = s :=
  strip_by_around hbefore.space hafter.space h.head_space h.last_space

theorem strip_quotes_plain {value : String} (h : Quoted value s)
    (hplain : PlainValue value) : stripQuotes s = value := by
  obtain ⟨q, hq, -, rfl⟩ := h
  have hend : ∀ c ∈ [q], (c == '\'' || c == '"') = true := by
    intro c hc
    rw [List.mem_singleton.mp hc]
    exact hq
  have hstrip := strip_by_around hend hend hplain.2.1 hplain.2.2
  rw [stripQuotes, show q :: (value.toList ++ [q]) = [q] ++ (value.toList ++ [q]) from rfl, hstrip,
    String.ofList_toList]

theorem items_read {items : List Char} (h : SpellsItems U values items)
    (hplain : ∀ value ∈ values, PlainValue value ∧ ',' ∉ value.toList) :
    ((split [','] items).filter fun v => !(strip v).isEmpty).map (fun v => stripQuotes (strip v)) =
      values := by
  have hpiece : ∀ {value : String} {before quoted after : List Char}, Blanks U before →
      Quoted value quoted → Blanks U after → ',' ∉ value.toList →
      ',' ∉ before ++ (quoted ++ after) := by
    intro value before quoted after hbefore hquoted hafter hvalue hmem
    obtain ⟨q, hq, -, rfl⟩ := hquoted
    rcases List.mem_append.mp hmem with hmem | hmem
    · exact hbefore.not_mem (by decide) hmem
    · rcases List.mem_append.mp hmem with hmem | hmem
      · rcases List.mem_cons.mp hmem with rfl | hmem
        · rcases quote_cases hq with h | h <;> cases h
        · rcases List.mem_append.mp hmem with hmem | hmem
          · exact hvalue hmem
          · rw [List.mem_singleton] at hmem
            rcases quote_cases hq with h | h <;> rw [h] at hmem <;> cases hmem
      · exact hafter.not_mem (by decide) hmem
  have hread : ∀ {value : String} {before quoted after : List Char}, Blanks U before →
      Quoted value quoted → Blanks U after → PlainValue value →
      (strip (before ++ (quoted ++ after))).isEmpty = false ∧
        stripQuotes (strip (before ++ (quoted ++ after))) = value := by
    intro value before quoted after hbefore hquoted hafter hvalue
    rw [strip_marked hbefore hquoted.marked hafter]
    refine ⟨?_, strip_quotes_plain hquoted hvalue⟩
    obtain ⟨q, -, -, rfl⟩ := hquoted
    rfl
  induction h with
  | one hbefore hquoted hafter =>
    obtain ⟨hvalue, hcomma⟩ := hplain _ List.mem_cons_self
    obtain ⟨hne, hstrip⟩ := hread hbefore hquoted hafter hvalue
    rw [split_piece (apart_of_not_mem (hpiece hbefore hquoted hafter hcomma)), List.filter_cons,
      hne]
    simp [hstrip]
  | cons hbefore hquoted hafter hrest ih =>
    obtain ⟨hvalue, hcomma⟩ := hplain _ List.mem_cons_self
    obtain ⟨hne, hstrip⟩ := hread hbefore hquoted hafter hvalue
    rw [split_append (by simp) (apart_of_not_mem (hpiece hbefore hquoted hafter hcomma)),
      List.filter_cons, hne]
    simp only [Bool.not_false, if_true, List.map_cons, hstrip]
    rw [ih fun value hmem => hplain value (List.mem_cons_of_mem _ hmem)]

theorem strip_of_marked (h : Marked s) : strip s = s := by
  have hnone : ∀ c ∈ ([] : List Char), isSpace c = true := fun _ hc => by cases hc
  have hstrip := strip_by_around hnone hnone h.head_space h.last_space
  rwa [List.nil_append, List.append_nil] at hstrip

theorem value_list_braces {inner : List Char} (h : Marked ('{' :: (inner ++ ['}']))) :
    parseCalicoValueList ('{' :: (inner ++ ['}'])) =
      ((split [','] inner).filter fun v => !(strip v).isEmpty).map
        fun v => stripQuotes (strip v) := by
  have hlast : ('{' :: (inner ++ ['}'])).getLast? = some '}' := by
    rw [← List.cons_append, List.getLast?_concat]
  have hinner : ('{' :: (inner ++ ['}'])).tail.dropLast = inner := by
    rw [List.tail_cons, List.dropLast_concat]
  unfold parseCalicoValueList
  simp only [strip_of_marked h, hlast, List.head?_cons, beq_self_eq_true, Bool.and_self, if_true,
    hinner]

theorem set_read (h : SpellsSet U values s)
    (hplain : ∀ value ∈ values, PlainValue value ∧ ',' ∉ value.toList) :
    parseCalicoValueList s = values := by
  have hmarked := h.marked
  cases h with
  | @empty blanks hblanks =>
    have hcomma : ',' ∉ blanks := hblanks.not_mem (by decide)
    have hstrip : strip blanks = [] := by
      have hstrip : stripBy isSpace (blanks ++ ([] ++ [])) = [] :=
        strip_by_around hblanks.space (fun _ hc => by cases hc) nofun nofun
      rwa [List.append_nil, List.append_nil] at hstrip
    rw [value_list_braces hmarked, split_piece (apart_of_not_mem hcomma)]
    simp [hstrip]
  | items hitems =>
    rw [value_list_braces hmarked]
    exact items_read hitems hplain

/-! ## Reading a term -/

/-- The characters that an operator is made of. -/
def isOpChar (c : Char) : Bool :=
  isSpace c || ['=', '!', 'i', 'n', 'o', 't'].contains c

theorem parse_op_front {rest : List Char} {op : CalicoOp} (h : parseCalicoOp s = some (op, rest)) :
    ∃ front, s = front ++ rest ∧ ∀ c ∈ front, isOpChar c = true := by
  unfold parseCalicoOp at h
  split at h
  · obtain ⟨-, rfl⟩ := Prod.mk.inj (Option.some.inj h)
    exact ⟨['=', '='], rfl, List.all_eq_true.mp (by decide)⟩
  · obtain ⟨-, rfl⟩ := Prod.mk.inj (Option.some.inj h)
    exact ⟨['!', '='], rfl, List.all_eq_true.mp (by decide)⟩
  · obtain ⟨-, rfl⟩ := Prod.mk.inj (Option.some.inj h)
    exact ⟨['i', 'n'], rfl, List.all_eq_true.mp (by decide)⟩
  · rename_i behind
    split at h
    · rename_i hdrop
      obtain ⟨-, rfl⟩ := Prod.mk.inj (Option.some.inj h)
      have hnot : ∀ c ∈ ['n', 'o', 't'], isOpChar c = true := List.all_eq_true.mp (by decide)
      have hin : ∀ c ∈ ['i', 'n'], isOpChar c = true := List.all_eq_true.mp (by decide)
      refine ⟨['n', 'o', 't'] ++ (behind.takeWhile isSpace ++ ['i', 'n']), ?_, ?_⟩
      · simp only [List.cons_append, List.nil_append, List.append_assoc]
        rw [← hdrop, List.takeWhile_append_dropWhile]
      · intro c hc
        rcases List.mem_append.mp hc with hc | hc
        · exact hnot c hc
        · rcases List.mem_append.mp hc with hc | hc
          · simp [isOpChar, List.mem_takeWhile_imp hc]
          · exact hin c hc
    · cases h
  · cases h

theorem Marked.head_op (h : Marked s) : ∀ c, s.head? = some c → isOpChar c = false := by
  obtain ⟨c, hc, hmark⟩ := h.head
  intro d hd
  rw [hc, Option.some.injEq] at hd
  subst hd
  rcases hmark with hq | rfl
  · rcases quote_cases hq with rfl | rfl <;> decide
  · decide

theorem marked_left {front rest before : List Char} (h : Marked s)
    (heq : before ++ s = front ++ rest) (hfront : ∀ c ∈ front, isOpChar c = true) :
    ∃ between, rest = between ++ s := by
  rcases List.append_eq_append_iff.mp heq with ⟨between, hover, hrest⟩ | ⟨between, hover, hrest⟩
  · cases between with
    | nil => exact ⟨[], by simpa using hrest.symm⟩
    | cons c between =>
      have hc : isOpChar c = true := hfront c (by rw [hover]; simp)
      rw [h.head_op c (by rw [hrest]; rfl)] at hc
      cases hc
  · exact ⟨between, hrest⟩

theorem drop_space_marked (h : Marked s) (before : List Char) :
    ∃ between, (before ++ s).dropWhile isSpace = between ++ s := by
  induction before with
  | nil =>
    obtain ⟨c, hc, -⟩ := h.head
    obtain ⟨d, others, rfl⟩ := List.exists_cons_of_ne_nil (l := s) (by rintro rfl; cases hc)
    refine ⟨[], ?_⟩
    rw [List.nil_append, List.dropWhile_cons_of_neg (by simp [h.head_space d rfl])]
  | cons c before ih =>
    rw [List.cons_append, List.dropWhile_cons]
    split
    · exact ih
    · exact ⟨c :: before, rfl⟩

theorem strip_marked_end (h : Marked s) (before : List Char) :
    ∃ between, strip (before ++ s) = between ++ s := by
  obtain ⟨between, hbetween⟩ := drop_space_marked h before
  refine ⟨between, ?_⟩
  obtain ⟨c, hc, hspace⟩ := h.last
  have hlast : ((between ++ s).reverse).head? = some c := by
    rw [List.head?_reverse, List.getLast?_append, hc]
    rfl
  obtain ⟨d, others, hreverse⟩ := List.exists_cons_of_ne_nil (l := (between ++ s).reverse)
    (by intro hnil; rw [hnil] at hlast; cases hlast)
  rw [hreverse, List.head?_cons, Option.some.injEq] at hlast
  subst hlast
  rw [strip, stripBy, hbetween, hreverse, List.dropWhile_cons_of_neg (by simp [hspace]), ← hreverse,
    List.reverse_reverse]

/-- A value with a line break in it is not read, whatever is taken as the key. -/
theorem tail_of_broken (h : Marked s) (hbreak : '\n' ∈ s) (before : List Char) :
    parseCalicoTail (before ++ s) = none := by
  obtain ⟨between, hbetween⟩ := drop_space_marked h before
  unfold parseCalicoTail
  rw [hbetween]
  cases hop : parseCalicoOp (between ++ s) with
  | none => rfl
  | some parsed =>
    obtain ⟨op, rest⟩ := parsed
    obtain ⟨front, hfront, hchars⟩ := parse_op_front hop
    obtain ⟨between, rfl⟩ := marked_left h hfront hchars
    obtain ⟨kept, hkept⟩ := strip_marked_end h between
    have hmem : '\n' ∈ strip (between ++ s) := by
      rw [hkept]
      exact List.mem_append_right kept hbreak
    show (if (strip (between ++ s)).isEmpty || (strip (between ++ s)).contains '\n' then none
      else some (op, strip (between ++ s))) = none
    rw [if_pos]
    simp [hmem]

theorem term_of_broken {before : List Char} (h : Marked s) (hbreak : '\n' ∈ s) (n : Nat)
    (hn : n ≤ before.length) : parseCalicoTermUpTo (before ++ s) n = none := by
  induction n with
  | zero => rfl
  | succ n ih =>
    unfold parseCalicoTermUpTo
    rw [List.drop_append_of_le_length hn, tail_of_broken h hbreak]
    exact ih (by omega)

/-- The text is read as an operator, whatever follows it. -/
structure ReadsAs (op : CalicoOp) (s : List Char) : Prop where
  read : ∀ rest, parseCalicoOp (s ++ rest) = some (op, rest)
  head : ∃ c, s.head? = some c ∧ isSpace c = false

theorem comparison_reads (equal : Bool) :
    ReadsAs (if equal then .eq else .ne) (comparison equal) := by
  cases equal with
  | true => exact ⟨fun _ => rfl, '=', rfl, by decide⟩
  | false => exact ⟨fun _ => rfl, '!', rfl, by decide⟩

variable {text : List Char} {c : Char} {term : SelectorTerm}

theorem membership_reads {inside : Bool} (h : SpellsMembership U inside s) :
    ReadsAs (if inside then .isIn else .notIn) s := by
  cases h with
  | isIn => exact ⟨fun _ => rfl, 'i', rfl, by decide⟩
  | @notIn blanks hblanks hne =>
    refine ⟨?_, 'n', rfl, by decide⟩
    intro rest
    have htake : (blanks ++ 'i' :: 'n' :: rest).takeWhile isSpace = blanks := by
      rw [List.takeWhile_append_of_pos hblanks.space, List.takeWhile_cons_of_neg (by decide),
        List.append_nil]
    have hdrop : (blanks ++ 'i' :: 'n' :: rest).dropWhile isSpace = 'i' :: 'n' :: rest := by
      rw [List.dropWhile_append_of_pos hblanks.space, List.dropWhile_cons_of_neg (by decide)]
    have htext : ['n', 'o', 't'] ++ (blanks ++ ['i', 'n']) ++ rest =
        'n' :: 'o' :: 't' :: (blanks ++ 'i' :: 'n' :: rest) := by simp
    obtain ⟨c, others, rfl⟩ := List.exists_cons_of_ne_nil hne
    rw [htext, parseCalicoOp, htake, hdrop]
    rfl

/-- An operator and a marked value behind a key are read, unless a line break is in the value. -/
theorem tail_read {op : CalicoOp} {before operator after : List Char} (hbefore : Blanks U before)
    (hop : ReadsAs op operator) (hafter : Blanks U after) (h : Marked s) (hbreak : '\n' ∉ s) :
    parseCalicoTail (before ++ (operator ++ (after ++ s))) = some (op, s) := by
  obtain ⟨c, hc, hspace⟩ := hop.head
  obtain ⟨d, others, rfl⟩ := List.exists_cons_of_ne_nil (l := operator) (by rintro rfl; cases hc)
  rw [List.head?_cons, Option.some.injEq] at hc
  subst hc
  have hdrop : (before ++ (d :: others ++ (after ++ s))).dropWhile isSpace =
      d :: others ++ (after ++ s) := by
    rw [List.dropWhile_append_of_pos hbefore.space, List.cons_append,
      List.dropWhile_cons_of_neg (by simp [hspace])]
  have hstrip : strip (after ++ s) = s := by
    have hnone : ∀ c ∈ ([] : List Char), isSpace c = true := fun _ hc => by cases hc
    have := strip_by_around hafter.space hnone h.head_space h.last_space
    rwa [List.append_nil] at this
  have hne : s.isEmpty = false := by
    obtain ⟨e, he, -⟩ := h.head
    cases s with
    | nil => cases he
    | cons => rfl
  unfold parseCalicoTail
  rw [hdrop, hop.read]
  show (if (strip (after ++ s)).isEmpty || (strip (after ++ s)).contains '\n' then none
    else some (op, strip (after ++ s))) = some (op, s)
  rw [hstrip, if_neg]
  simp [hne, hbreak]

theorem term_read {op : CalicoOp} {key before operator after : List Char} (hkey : IsKey U key)
    (hbefore : Blanks U before) (hop : ReadsAs op operator) (hafter : Blanks U after) (h : Marked s)
    (hnext : ∀ c, (before ++ operator).head? = some c → isKeyChar U c = false) :
    parseCalicoTerm U (key ++ (before ++ (operator ++ (after ++ s)))) = none ∨
      parseCalicoTerm U (key ++ (before ++ (operator ++ (after ++ s)))) = some (key, op, s) := by
  have htake : (key ++ (before ++ (operator ++ (after ++ s)))).takeWhile (isKeyChar U) = key := by
    rw [List.takeWhile_append_of_pos fun c hc => (hkey.2 c hc).1]
    obtain ⟨c, hc, -⟩ := hop.head
    have hne : before ++ operator ≠ [] := by
      intro hnil
      rw [(List.append_eq_nil_iff.mp hnil).2] at hc
      cases hc
    obtain ⟨d, others, hcons⟩ := List.exists_cons_of_ne_nil hne
    rw [← List.append_assoc before, hcons, List.cons_append,
      List.takeWhile_cons_of_neg (by simp [hnext d (by rw [hcons]; rfl)]), List.append_nil]
  unfold parseCalicoTerm
  rw [htake]
  by_cases hbreak : '\n' ∈ s
  · left
    have hassoc : key ++ (before ++ (operator ++ (after ++ s))) =
        (key ++ (before ++ (operator ++ after))) ++ s := by simp
    rw [hassoc]
    exact term_of_broken h hbreak key.length (by simp)
  · right
    obtain ⟨n, hn⟩ := Nat.exists_eq_succ_of_ne_zero
      (fun hzero => hkey.1 (List.length_eq_zero_iff.mp hzero))
    rw [hn, Nat.succ_eq_add_one, parseCalicoTermUpTo, ← Nat.succ_eq_add_one, ← hn, List.drop_left,
      List.take_left, tail_read hbefore hop hafter h hbreak]

theorem key_char_ascii (h : isAscii c) :
    isKeyChar U c = (c.isAlphanum || c == '_' || c == '.' || c == '/' || c == '-') := by
  simp only [isKeyChar, isWord, U.alnum_ascii c h]

theorem take_while_le {p : Char → Bool} (front rest : List Char) (h : p c = false) :
    ((front ++ c :: rest).takeWhile p).length ≤ front.length := by
  induction front with
  | nil =>
    rw [List.nil_append, List.takeWhile_cons_of_neg (by simp [h])]
  | cons d front ih =>
    rw [List.cons_append, List.takeWhile_cons]
    split
    · simpa using ih
    · simp

theorem parse_all : parseCalicoTerm U "all()".toList = none := by
  have hnone : ∀ n : Fin 4, parseCalicoTermUpTo "all()".toList n = none := by decide
  have hlength : ("all()".toList.takeWhile (isKeyChar U)).length ≤ 3 :=
    take_while_le ['a', 'l', 'l'] [')']
      ((key_char_ascii (by decide)).trans (by decide))
  exact hnone ⟨_, Nat.lt_succ_of_le hlength⟩

theorem parse_has (rest : List Char) : parseCalicoTerm U ("has(".toList ++ rest) = none := by
  have hlength : (("has(".toList ++ rest).takeWhile (isKeyChar U)).length ≤ 3 :=
    take_while_le ['h', 'a', 's'] rest
      ((key_char_ascii (by decide)).trans (by decide))
  unfold parseCalicoTerm
  generalize (("has(".toList ++ rest).takeWhile (isKeyChar U)).length = n at hlength
  match n, hlength with
  | 0, _ => rfl
  | 1, _ => rfl
  | 2, _ => rfl
  | 3, _ => rfl

theorem parse_lacks (rest : List Char) : parseCalicoTerm U ("!has(".toList ++ rest) = none := by
  have hnot : isKeyChar U '!' = false := (key_char_ascii (by decide)).trans (by decide)
  unfold parseCalicoTerm
  rw [show "!has(".toList ++ rest = '!' :: ("has(".toList ++ rest) from rfl,
    List.takeWhile_cons_of_neg (by simp [hnot])]
  rfl

theorem plain_term_read (h : SpellsTerm U term text) (hplain : term.Plain) :
    parseCalicoTerm U text = none ∨ ∃ key op value, parseCalicoTerm U text = some (key, op, value) ∧
        ∀ labels, calicoTermHolds labels key op value = term.holds labels := by
  cases h with
  | all => exact .inl parse_all
  | has => exact .inl (parse_has _)
  | lacks => exact .inl (parse_lacks _)
  | @compare equal value key before after quoted hkey hbefore hafter hquoted =>
    have hnext : ∀ c, (before ++ comparison equal).head? = some c → isKeyChar U c = false := by
      intro c hc
      cases before with
      | nil => cases equal <;> cases hc <;> exact (key_char_ascii (by decide)).trans (by decide)
      | cons d before =>
        cases hc
        exact hbefore.no_key _ List.mem_cons_self
    rcases term_read hkey hbefore (comparison_reads equal) hafter hquoted.marked hnext with
      hnone | hread
    · exact .inl hnone
    · refine .inr ⟨key, _, quoted, hread, ?_⟩
      intro labels
      cases equal <;>
        simp [calicoTermHolds, SelectorTerm.holds, strip_quotes_plain hquoted hplain, bne]
  | @member inside values key before operator after set hkey hbefore hne hoperator hafter hset =>
    have hnext : ∀ c, (before ++ operator).head? = some c → isKeyChar U c = false := by
      intro c hc
      obtain ⟨d, others, rfl⟩ := List.exists_cons_of_ne_nil hne
      cases hc
      exact hbefore.no_key _ List.mem_cons_self
    rcases term_read hkey hbefore (membership_reads hoperator) hafter hset.marked hnext with
      hnone | hread
    · exact .inl hnone
    · refine .inr ⟨key, _, set, hread, ?_⟩
      intro labels
      cases inside <;>
        simp [calicoTermHolds, SelectorTerm.holds, set_read hset hplain]

/-! ## Cutting a selector -/

theorem last_append {t : List Char} (h : t.getLast? = some c) : (s ++ t).getLast? = some c := by
  rw [List.getLast?_append, h]
  rfl

theorem SpellsTerm.ends (h : SpellsTerm U term text) :
    (∀ c, text.head? = some c → isSpace c = false) ∧
      ∃ c, text.getLast? = some c ∧ isSpace c = false := by
  have hfirst : ∀ {key rest : List Char}, IsKey U key →
      ∀ c, (key ++ rest).head? = some c → isSpace c = false := by
    intro key rest hkey c hc
    obtain ⟨d, others, rfl⟩ := List.exists_cons_of_ne_nil hkey.1
    cases hc
    exact (hkey.2 _ List.mem_cons_self).2
  cases h with
  | all => exact ⟨fun c hc => by cases hc; decide, ')', rfl, by decide⟩
  | has hkey =>
    refine ⟨fun c hc => by cases hc; decide, ')', ?_, by decide⟩
    exact last_append (last_append rfl)
  | lacks hkey =>
    refine ⟨fun c hc => by cases hc; decide, ')', ?_, by decide⟩
    exact last_append (last_append rfl)
  | compare hkey hbefore hafter hquoted =>
    obtain ⟨c, hc, hspace⟩ := hquoted.marked.last
    exact ⟨hfirst hkey, c, last_append (last_append (last_append (last_append hc))), hspace⟩
  | member hkey hbefore hne hoperator hafter hset =>
    obtain ⟨c, hc, hspace⟩ := hset.marked.last
    exact ⟨hfirst hkey, c, last_append (last_append (last_append (last_append hc))), hspace⟩

variable {rest : List Char} {terms : List SelectorTerm} {labels : Labels}

theorem Blanks.apart (h : Blanks U s) : Apart ['&', '&'] s rest :=
  apart_of_not_mem (h.not_mem (by decide))

theorem IsKey.apart (h : IsKey U s) : Apart ['&', '&'] s rest := by
  refine apart_of_not_mem fun hmem => ?_
  have hkey := (h.2 _ hmem).1
  rw [key_char_ascii (by decide)] at hkey
  revert hkey
  decide

theorem Quoted.apart {value : String} (h : Quoted value s)
    (hplain : PlainValue value) : Apart ['&', '&'] s rest := by
  obtain ⟨q, hq, -, rfl⟩ := h
  have hamp : q ≠ '&' := by
    rintro rfl
    cases hq
  have hquote : ∀ rest, Apart ['&', '&'] [q] rest := fun rest =>
    apart_of_not_mem fun hmem => hamp (List.mem_singleton.mp hmem).symm
  have hvalue : Apart ['&', '&'] value.toList ([q] ++ rest) := apart_of_no_pair hplain.1 hamp
  have hinner := apart_append hvalue (hquote rest)
  exact apart_append (hquote _) hinner

theorem SpellsItems.apart (h : SpellsItems U values s) (hplain : ∀ value ∈ values, PlainValue value)
    (rest : List Char) :
    Apart ['&', '&'] s rest := by
  induction h with
  | one hbefore hquoted hafter =>
    exact apart_append hbefore.apart
      (apart_append (hquoted.apart (hplain _ List.mem_cons_self)) hafter.apart)
  | cons hbefore hquoted hafter hrest ih =>
    refine apart_append ?_ (apart_append (apart_of_not_mem (by decide)) ?_)
    · exact apart_append hbefore.apart
        (apart_append (hquoted.apart (hplain _ List.mem_cons_self)) hafter.apart)
    · exact ih fun value hmem => hplain value (List.mem_cons_of_mem _ hmem)

theorem SpellsSet.apart (h : SpellsSet U values s) (hplain : ∀ value ∈ values, PlainValue value)
    (rest : List Char) :
    Apart ['&', '&'] s rest := by
  have hbraces : ∀ {inner : List Char}, (∀ rest, Apart ['&', '&'] inner rest) →
      Apart ['&', '&'] (['{'] ++ (inner ++ ['}'])) rest := by
    intro inner hinner
    exact apart_append (apart_of_not_mem (by decide))
      (apart_append (hinner _) (apart_of_not_mem (by decide)))
  cases h with
  | empty hblanks => exact hbraces fun _ => hblanks.apart
  | items hitems => exact hbraces (hitems.apart hplain)

theorem SpellsMembership.apart {inside : Bool}
    (h : SpellsMembership U inside s) : Apart ['&', '&'] s rest := by
  cases h with
  | isIn => exact apart_of_not_mem (by decide)
  | notIn hblanks _ =>
    exact apart_append (apart_of_not_mem (by decide))
      (apart_append hblanks.apart (apart_of_not_mem (by decide)))

theorem SpellsTerm.apart (h : SpellsTerm U term text) (hplain : term.Plain)
    (rest : List Char) : Apart ['&', '&'] text rest := by
  have hclose : ∀ {key : List Char}, IsKey U key → Apart ['&', '&'] (key ++ [')']) rest :=
    fun hkey => apart_append hkey.apart (apart_of_not_mem (by decide))
  cases h with
  | all => exact apart_of_not_mem (by decide)
  | has hkey => exact apart_append (apart_of_not_mem (by decide)) (hclose hkey)
  | lacks hkey => exact apart_append (apart_of_not_mem (by decide)) (hclose hkey)
  | @compare equal value key before after quoted hkey hbefore hafter hquoted =>
    have hop : '&' ∉ comparison equal := by cases equal <;> decide
    exact apart_append hkey.apart (apart_append hbefore.apart
      (apart_append (apart_of_not_mem hop) (apart_append hafter.apart (hquoted.apart hplain))))
  | member hkey hbefore hne hoperator hafter hset =>
    exact apart_append hkey.apart (apart_append hbefore.apart (apart_append hoperator.apart
      (apart_append hafter.apart (hset.apart (fun value hmem => (hplain value hmem).1) rest))))

theorem pieces_of_selector (h : SpellsSelector U terms text) (hplain : ∀ term ∈ terms, term.Plain)
    (hne : terms ≠ []) :
    List.Forall₂ (SpellsTerm U) terms ((split ['&', '&'] text).map strip) := by
  have hstrip : ∀ {term : SelectorTerm} {before text after : List Char}, Blanks U before →
      SpellsTerm U term text → Blanks U after → strip (before ++ (text ++ after)) = text := by
    intro term before text after hbefore hterm hafter
    obtain ⟨hhead, c, hc, hspace⟩ := hterm.ends
    refine strip_by_around hbefore.space hafter.space hhead ?_
    intro d hd
    rw [hc, Option.some.injEq] at hd
    exact hd ▸ hspace
  have hapart : ∀ {term : SelectorTerm} {before text after : List Char} (rest : List Char),
      Blanks U before → SpellsTerm U term text → term.Plain → Blanks U after →
      Apart ['&', '&'] (before ++ (text ++ after)) rest := by
    intro term before text after rest hbefore hterm hplain hafter
    exact apart_append hbefore.apart (apart_append (hterm.apart hplain _) hafter.apart)
  induction h with
  | empty => exact absurd rfl hne
  | one hbefore hterm hafter =>
    rw [split_piece (hapart [] hbefore hterm (hplain _ List.mem_cons_self) hafter),
      List.map_singleton, hstrip hbefore hterm hafter]
    exact .cons hterm .nil
  | cons hbefore hterm hafter hrest ih =>
    rw [split_append (by simp) (hapart _ hbefore hterm (hplain _ List.mem_cons_self) hafter),
      List.map_cons, hstrip hbefore hterm hafter]
    exact .cons hterm
      (ih (fun term hmem => hplain term (List.mem_cons_of_mem _ hmem)) (by simp))

theorem pieces_hold {pieces : List (List Char)} (h : List.Forall₂ (SpellsTerm U) terms pieces)
    (hplain : ∀ term ∈ terms, term.Plain) (hread : unreadFirst U labels pieces = false) :
    pieces.all (pieceHolds U labels) = terms.all (SelectorTerm.holds labels) := by
  induction h with
  | nil => rfl
  | @cons term piece terms pieces hterm hrest ih =>
    rcases plain_term_read hterm (hplain term List.mem_cons_self) with
      hnone | ⟨key, op, value, hparse, hholds⟩
    · have hfails : pieceHolds U labels piece = false := by simp [pieceHolds, hnone]
      simp [unreadFirst, hfails, hnone] at hread
    · have hpiece : pieceHolds U labels piece = term.holds labels := by
        simp [pieceHolds, hparse, hholds]
      rw [List.all_cons, List.all_cons, hpiece]
      cases htrue : term.holds labels with
      | false => rfl
      | true =>
        have hread' : unreadFirst U labels pieces = false := by
          simpa [unreadFirst, hpiece, htrue] using hread
        rw [Bool.true_and, Bool.true_and,
          ih (fun term hmem => hplain term (List.mem_cons_of_mem _ hmem)) hread']

/-! ## The answers -/

theorem calico_selector_eq (selector : String) (labels : Labels) :
    calicoSelectorMatches U (some selector) (some labels) =
      if (strip selector.toList).isEmpty || strip selector.toList == "all()".toList then some true
      else if refusedSelector selector then none
      else if unreadFirst U labels (selectorPieces selector) then none
      else some ((selectorPieces selector).all (pieceHolds U labels)) := by
  rw [← terms_match_eq]
  rfl

theorem unread_piece {piece : List Char} (h : parseCalicoTerm U piece = none) :
    unreadFirst U labels [piece] = true := by
  have hfails : pieceHolds U labels piece = false := by simp [pieceHolds, h]
  simp [unreadFirst, hfails, h]

theorem unread_trivial {selector : String} (labels : Labels)
    (h : strip selector.toList = [] ∨ strip selector.toList = "all()".toList) :
    unreadFirst U labels (selectorPieces selector) = true := by
  rcases h with h | h
  · rw [selectorPieces, h]
    exact unread_piece rfl
  · rw [selectorPieces, h, show (split "&&".toList "all()".toList).map strip = ["all()".toList] by
      decide]
    exact unread_piece parse_all

theorem SpellsTerm.sign (h : SpellsTerm U term text) :
    ∃ c ∈ ['(', '=', '{'], c ∈ text := by
  cases h with
  | all => exact ⟨'(', by decide, by decide⟩
  | has => exact ⟨'(', by decide, by simp⟩
  | lacks => exact ⟨'(', by decide, by simp⟩
  | @compare equal => exact ⟨'=', by decide, by cases equal <;> simp [comparison]⟩
  | member _ _ _ _ _ hset =>
    refine ⟨'{', by decide, ?_⟩
    cases hset <;> simp

end AwsOps.NetworkPath
