import AwsOps.Foundation.Documents

/-!
# Serialized texts determine what they serialize

Both serializers escape a character in such a way that `readChar` reads it back from the front of a
text. So a string literal determines its string and where it ends, and so does the text of a list
of string literals.
-/

namespace AwsOps.Json

open List

/-! ## Reading one character back -/

/-- The value of a hexadecimal digit. -/
def hexValue (c : Char) : Nat :=
  if c.toNat < 58 then c.toNat - 48 else c.toNat - 87

/-- Read the escape of a code unit. -/
def readUnit : List Char → Option (Nat × List Char)
  | '\\' :: 'u' :: a :: b :: c :: d :: rest =>
    some (hexValue a * 4096 + hexValue b * 256 + hexValue c * 16 + hexValue d, rest)
  | _ => none

/-- Read one character of a string literal: a short escape, one or two code units, or the character
itself. -/
def readChar (text : List Char) : Option (Char × List Char) :=
  match readUnit text with
  | some (high, rest) =>
    if high / 1024 = 54 then
      (readUnit rest).map fun (low, rest) =>
        (Char.ofNat (0x10000 + (high - 0xD800) * 1024 + (low - 0xDC00)), rest)
    else some (Char.ofNat high, rest)
  | none =>
    match text with
    | '\\' :: 'n' :: rest => some ('\n', rest)
    | '\\' :: 'r' :: rest => some ('\r', rest)
    | '\\' :: 't' :: rest => some ('\t', rest)
    | '\\' :: 'f' :: rest => some (Char.ofNat 12, rest)
    | '\\' :: 'b' :: rest => some (Char.ofNat 8, rest)
    | '\\' :: c :: rest => some (c, rest)
    | c :: rest => some (c, rest)
    | [] => none

theorem hex_value_hex_digit {n : Nat} (h : n < 16) : hexValue (hexDigit n) = n := by
  have hdigits : ∀ n < 16, hexValue (hexDigit n) = n := by decide
  exact hdigits n h

theorem read_unit_escape_unit {n : Nat} (h : n < 0x10000) (rest : List Char) :
    readUnit (escapeUnit n ++ rest) = some (n, rest) := by
  have hread : ∀ k, hexValue (hexDigit (n / k % 16)) = n / k % 16 := fun k =>
    hex_value_hex_digit (Nat.mod_lt _ (by decide))
  have hlast : hexValue (hexDigit (n % 16)) = n % 16 := hex_value_hex_digit (Nat.mod_lt _ (by decide))
  simp only [escapeUnit, cons_append, nil_append, readUnit, hread, hlast,
    Option.some.injEq, Prod.mk.injEq, and_true]
  omega

/-- An escape that can be read back, and never looks like the end of a literal. -/
structure Readable (escape : Char → List Char) : Prop where
  reads : ∀ c rest, readChar (escape c ++ rest) = some (c, rest)
  inside : ∀ c, (escape c).head? ≠ some '"'

theorem outside_surrogates (c : Char) : c.toNat < 0xD800 ∨ 0xDFFF < c.toNat := by
  rcases c.valid with hc | hc
  · exact .inl hc
  · exact .inr hc.1

theorem to_nat_lt_max (c : Char) : c.toNat < 0x110000 := by
  rcases c.valid with hc | hc
  · exact Nat.lt_trans hc (by decide)
  · exact hc.2

theorem read_char_escape_unit {c : Char} (h : c.toNat < 0x10000) (rest : List Char) :
    readChar (escapeUnit c.toNat ++ rest) = some (c, rest) := by
  have hscalar := outside_surrogates c
  unfold readChar
  rw [read_unit_escape_unit h]
  dsimp only
  rw [if_neg (by omega), Char.ofNat_toNat]

theorem read_char_escape_pair {c : Char} (h : ¬c.toNat < 0x10000) (rest : List Char) :
    readChar (escapeUnit (0xD800 + (c.toNat - 0x10000) / 1024) ++
      (escapeUnit (0xDC00 + (c.toNat - 0x10000) % 1024) ++ rest)) = some (c, rest) := by
  have hmax := to_nat_lt_max c
  unfold readChar
  rw [read_unit_escape_unit (by omega)]
  dsimp only
  rw [if_pos (by omega), read_unit_escape_unit (by omega), Option.map_some]
  have hvalue : 0x10000 + (0xD800 + (c.toNat - 0x10000) / 1024 - 0xD800) * 1024 +
      (0xDC00 + (c.toNat - 0x10000) % 1024 - 0xDC00) = c.toNat := by omega
  rw [hvalue, Char.ofNat_toNat]

theorem read_char_plain {c : Char} (h : c ≠ '\\') (rest : List Char) :
    readChar (c :: rest) = some (c, rest) := by
  unfold readChar
  split
  · rename_i high rest' hunit
    unfold readUnit at hunit
    split at hunit
    · rename_i heq
      cases heq
      exact absurd rfl h
    · cases hunit
  · split <;> simp_all

theorem eq_of_to_nat {c : Char} {n : Nat} (h : c.toNat = n) : c = Char.ofNat n := by
  rw [← h, Char.ofNat_toNat]

theorem read_char_short_escape (c : Char) (rest : List Char) (plain : List Char)
    (hplain : c ≠ '\\' → readChar (plain ++ rest) = some (c, rest)) :
    readChar ((if c == '"' then ['\\', '"'] else if c == '\\' then ['\\', '\\']
      else if c == '\n' then ['\\', 'n'] else if c == '\r' then ['\\', 'r']
      else if c == '\t' then ['\\', 't'] else if c.toNat == 12 then ['\\', 'f']
      else if c.toNat == 8 then ['\\', 'b'] else plain) ++ rest) = some (c, rest) := by
  by_cases quote : c = '"'
  · rw [quote]; rfl
  by_cases backslash : c = '\\'
  · rw [backslash]; rfl
  by_cases newline : c = '\n'
  · rw [newline]; rfl
  by_cases return' : c = '\r'
  · rw [return']; rfl
  by_cases tab : c = '\t'
  · rw [tab]; rfl
  by_cases feed : c.toNat = 12
  · rw [eq_of_to_nat feed]; rfl
  by_cases backspace : c.toNat = 8
  · rw [eq_of_to_nat backspace]; rfl
  simpa [quote, backslash, newline, return', tab, feed, backspace] using hplain backslash

theorem head_short_escape (c : Char) (plain : List Char)
    (hplain : c ≠ '"' → plain.head? ≠ some '"') :
    (if c == '"' then ['\\', '"'] else if c == '\\' then ['\\', '\\']
      else if c == '\n' then ['\\', 'n'] else if c == '\r' then ['\\', 'r']
      else if c == '\t' then ['\\', 't'] else if c.toNat == 12 then ['\\', 'f']
      else if c.toNat == 8 then ['\\', 'b'] else plain).head? ≠ some '"' := by
  have hescape : some '\\' ≠ some '"' := by decide
  by_cases quote : c = '"'
  · rw [quote]; exact hescape
  · rw [if_neg (by simpa using quote)]
    repeat' split
    all_goals first | exact hescape | exact hplain quote

theorem readable_escape_char : Readable escapeChar where
  reads c rest := by
    refine read_char_short_escape c rest _ fun backslash => ?_
    split
    · exact read_char_plain backslash rest
    · split
      · rename_i bmp
        exact read_char_escape_unit bmp rest
      · rename_i bmp
        rw [List.append_assoc]
        exact read_char_escape_pair bmp rest
  inside c := by
    refine head_short_escape c _ fun quote => ?_
    split
    · exact fun h => quote (Option.some.inj h)
    · split <;> exact (by decide : some '\\' ≠ some '"')

theorem readable_stringify_char : Readable stringifyChar where
  reads c rest := by
    refine read_char_short_escape c rest _ fun backslash => ?_
    split
    · exact read_char_escape_unit (by omega) rest
    · exact read_char_plain backslash rest
  inside c := by
    refine head_short_escape c _ fun quote => ?_
    split
    · exact (by decide : some '\\' ≠ some '"')
    · exact fun h => quote (Option.some.inj h)

/-! ## Sequences -/

section Sequences

variable {α : Type} {w : α → List Char} {p : Char → Bool} {more x y : List Char} {close : Char}

/-- No character of the class goes on here. -/
def Ends (p : Char → Bool) (text : List Char) : Prop :=
  ∀ c ∈ text.head?, p c = false

/-- What follows an element of a sequence with commas. -/
def follow (w : α → List Char) (more close : List Char) : List α → List Char
  | [] => close
  | a :: as => ',' :: (more ++ (w a ++ follow w more close as))

theorem intercalate_follow (a : α) (as : List α) :
    List.intercalate (',' :: more) ((a :: as).map w) ++ x = w a ++ follow w more x as := by
  induction as generalizing a with
  | nil => simp [follow]
  | cons b bs ih =>
    rw [map_cons, map_cons, intercalate_cons_cons, append_assoc, append_assoc, ← map_cons, ih,
      follow]
    rfl

theorem ends_follow (hp : p ',' = false ∧ p close = false) (as : List α) :
    Ends p (follow w more (close :: x) as) := by
  cases as with
  | nil =>
    rintro c ⟨⟩
    exact hp.2
  | cons a as =>
    rintro c ⟨⟩
    exact hp.1

theorem follow_inj (hcomma : close ≠ ',') (hp : p ',' = false ∧ p close = false) {as bs : List α}
    (hread : ∀ a ∈ as, ∀ b u v, Ends p u → Ends p v → w a ++ u = w b ++ v → a = b ∧ u = v)
    (heq : follow w more (close :: x) as = follow w more (close :: y) bs) : as = bs ∧ x = y := by
  induction as generalizing bs with
  | nil =>
    cases bs with
    | nil => exact ⟨rfl, (List.cons.inj heq).2⟩
    | cons b bs => exact absurd (List.cons.inj heq).1 hcomma
  | cons a as ih =>
    cases bs with
    | nil => exact absurd (List.cons.inj heq).1.symm hcomma
    | cons b bs =>
      obtain ⟨rfl, hrest⟩ := hread a mem_cons_self b _ _ (ends_follow hp as) (ends_follow hp bs)
        (append_cancel_left (List.cons.inj heq).2)
      obtain ⟨rfl, hxy⟩ := ih (fun a ha => hread a (mem_cons_of_mem _ ha)) hrest
      exact ⟨rfl, hxy⟩

variable (p) in
/-- The text of a closed sequence determines the elements and the text after them, when an element
is read off its text up to where it ends. -/
theorem intercalate_inj (hcomma : close ≠ ',') (hp : p ',' = false ∧ p close = false)
    {as bs : List α} (hopen : ∀ a u v, w a ++ u ≠ close :: v)
    (hread : ∀ a ∈ as, ∀ b u v, Ends p u → Ends p v → w a ++ u = w b ++ v → a = b ∧ u = v)
    (heq : List.intercalate (',' :: more) (as.map w) ++ close :: x =
      List.intercalate (',' :: more) (bs.map w) ++ close :: y) : as = bs ∧ x = y := by
  cases as with
  | nil =>
    cases bs with
    | nil => exact ⟨rfl, (List.cons.inj heq).2⟩
    | cons b bs =>
      rw [intercalate_follow] at heq
      exact absurd heq.symm (hopen b _ _)
  | cons a as =>
    rw [intercalate_follow] at heq
    cases bs with
    | nil => exact absurd heq (hopen a _ _)
    | cons b bs =>
      rw [intercalate_follow] at heq
      exact follow_inj hcomma hp hread (congrArg (fun text => ',' :: (more ++ text)) heq)

end Sequences

/-! ## Literals and lists of literals -/

section Literals

variable {escape : Char → List Char}

theorem Readable.quoted_append_inj (h : Readable escape) {s t : String} {x y : List Char}
    (heq : quoted escape s ++ x = quoted escape t ++ y) : s = t ∧ x = y := by
  have key : ∀ cs ds : List Char, cs.flatMap escape ++ '"' :: x = ds.flatMap escape ++ '"' :: y →
      cs = ds ∧ x = y := by
    have hend : ∀ c cs (u v : List Char), '"' :: u ≠ (c :: cs).flatMap escape ++ v := by
      intro c cs u v heq
      rw [flatMap_cons, append_assoc] at heq
      have hhead := h.inside c
      cases hc : escape c with
      | nil =>
        have hnil := h.reads c []
        rw [hc] at hnil
        cases hnil
      | cons d ds =>
        rw [hc] at heq hhead
        cases heq
        exact hhead rfl
    intro cs
    induction cs with
    | nil =>
      intro ds heq
      cases ds with
      | nil => exact ⟨rfl, (List.cons.inj heq).2⟩
      | cons d ds => exact absurd heq (hend d ds _ _)
    | cons c cs ih =>
      intro ds heq
      cases ds with
      | nil => exact absurd heq.symm (hend c cs _ _)
      | cons d ds =>
        rw [flatMap_cons, flatMap_cons, append_assoc, append_assoc] at heq
        have hread := congrArg readChar heq
        rw [h.reads, h.reads] at hread
        obtain ⟨rfl, -⟩ := Prod.mk.inj (Option.some.inj hread)
        obtain ⟨rfl, hxy⟩ := ih ds (append_cancel_left heq)
        exact ⟨rfl, hxy⟩
  simp only [quoted, cons_append, append_assoc, List.cons.injEq, true_and, nil_append] at heq
  obtain ⟨hlist, hxy⟩ := key _ _ heq
  exact ⟨String.toList_inj.mp hlist, hxy⟩

/-- The items of a list of literals and the bracket that closes it determine the strings and the
text after them. -/
theorem Readable.items_append_inj (h : Readable escape) {separator : List Char}
    (hseparator : ∃ rest, separator = ',' :: rest) {x y : List Char} {ss ts : List String}
    (heq : List.intercalate separator (ss.map (quoted escape)) ++ ']' :: x =
      List.intercalate separator (ts.map (quoted escape)) ++ ']' :: y) : ss = ts ∧ x = y := by
  obtain ⟨more, rfl⟩ := hseparator
  have hopen : ∀ (s : String) (u v : List Char), quoted escape s ++ u ≠ ']' :: v := by
    intro s u v heq
    cases (List.cons.inj heq).1
  exact intercalate_inj (fun _ => false) (by decide) ⟨rfl, rfl⟩ hopen
    (fun s _ t u v _ _ => h.quoted_append_inj) heq

end Literals

theorem stringify_items_strings (items : List String) :
    stringifyItems (items.map .str) = items.map (quoted stringifyChar) := by
  induction items with
  | nil => rfl
  | cons s rest ih =>
    rw [map_cons, map_cons, stringifyItems, stringify, ih]

theorem stringify_strings_inj {ss ts : List String}
    (h : stringify (.arr (ss.map .str)) = stringify (.arr (ts.map .str))) : ss = ts := by
  simp only [stringify, stringify_items_strings, cons_append, List.cons.injEq, true_and] at h
  exact (readable_stringify_char.items_append_inj ⟨[], rfl⟩ h).1

end AwsOps.Json

namespace AwsOps.Doc

open List

variable {ν : Type}

/-- A character of a number. -/
def isNumeric (c : Char) : Bool :=
  c.isDigit || "+-.e".toList.contains c

/-- A format without white space whose strings and numbers can be told apart. -/
structure Format.Legible (F : Format ν) : Prop where
  item : F.item = [',']
  key : F.key = [':']
  escape : Json.Readable F.escape
  number : Function.Injective F.number
  numeric : ∀ n, F.number n ≠ [] ∧ ∀ c ∈ F.number n, isNumeric c = true

/-- The character that the text of a value starts with; a digit stands for those of a number. -/
def lead : Doc ν → Char
  | .null => 'n'
  | .bool b => if b then 't' else 'f'
  | .num _ => '0'
  | .str _ => '"'
  | .arr _ => '['
  | .obj _ => '{'

/-- What starts with this character. -/
def leadOf (c : Char) : Char :=
  if isNumeric c then '0' else c

theorem write_lead {F : Format ν} (hF : F.Legible) (v : Doc ν) :
    ∃ c rest, write F v = c :: rest ∧ leadOf c = lead v := by
  cases v with
  | null => exact ⟨'n', _, rfl, rfl⟩
  | bool b => cases b <;> exact ⟨_, _, rfl, rfl⟩
  | num n =>
    obtain ⟨hne, hall⟩ := hF.numeric n
    obtain ⟨c, rest, htext⟩ := exists_cons_of_ne_nil hne
    exact ⟨c, rest, htext, if_pos (hall c (htext ▸ mem_cons_self))⟩
  | str s => exact ⟨'"', _, rfl, rfl⟩
  | arr items => exact ⟨'[', _, rfl, rfl⟩
  | obj fields => exact ⟨'{', _, rfl, rfl⟩

theorem write_items_eq_map (F : Format ν) (items : List (Doc ν)) :
    writeItems F items = items.map (write F) := by
  induction items with
  | nil => rfl
  | cons first rest ih => rw [writeItems, ih, map_cons]

theorem write_fields_eq_map (F : Format ν) (fields : Fields ν) : writeFields F fields =
    fields.map fun field => Json.quoted F.escape field.1 ++ F.key ++ write F field.2 := by
  induction fields with
  | nil => rfl
  | cons first rest ih => rw [writeFields, ih, map_cons]

theorem number_append_inj {s t x y : List Char} (hs : ∀ c ∈ s, isNumeric c = true)
    (ht : ∀ c ∈ t, isNumeric c = true) (hx : Json.Ends isNumeric x) (hy : Json.Ends isNumeric y) (heq : s ++ x = t ++ y) :
    s = t ∧ x = y := by
  have hstop : ∀ {z : List Char}, Json.Ends isNumeric z → z.takeWhile isNumeric = [] := by
    intro z hz
    cases z with
    | nil => rfl
    | cons c z => simp [hz c rfl]
  have hst := congrArg (takeWhile isNumeric) heq
  rw [takeWhile_append_of_pos hs, takeWhile_append_of_pos ht, hstop hx, hstop hy, append_nil,
    append_nil] at hst
  subst hst
  exact ⟨rfl, append_cancel_left heq⟩

/-- Values that are equal or two numbers, two strings, two arrays or two objects. -/
def SameKind : Doc ν → Doc ν → Prop
  | .null, .null => True
  | .bool b, .bool c => b = c
  | .num _, .num _ | .str _, .str _ | .arr _, .arr _ | .obj _, .obj _ => True
  | _, _ => False

theorem same_kind {F : Format ν} (hF : F.Legible) {v w : Doc ν} {x y : List Char}
    (heq : write F v ++ x = write F w ++ y) : SameKind v w := by
  obtain ⟨c, rest, hc, hv⟩ := write_lead hF v
  obtain ⟨d, rest', hd, hw⟩ := write_lead hF w
  rw [hc, hd] at heq
  have hlead : lead v = lead w := by rw [← hv, ← hw, (List.cons.inj heq).1]
  cases v with
  | bool b => cases b <;> cases w <;> simp_all [lead, SameKind]
  | _ =>
    cases w with
    | bool b => cases b <;> simp_all [lead]
    | _ => simp_all [lead, SameKind]

theorem write_ne_close {F : Format ν} (hF : F.Legible) (v : Doc ν) {x y : List Char} :
    write F v ++ x ≠ ']' :: y := by
  intro heq
  obtain ⟨c, rest, hc, hv⟩ := write_lead hF v
  rw [hc] at heq
  rw [(List.cons.inj heq).1] at hv
  cases v with
  | bool b => cases b <;> simp [lead, leadOf, isNumeric] at hv
  | _ => simp [lead, leadOf, isNumeric] at hv

/-- A value and what ends it are read off their text. -/
theorem write_append_inj {F : Format ν} (hF : F.Legible) {v w : Doc ν} {x y : List Char}
    (hx : Json.Ends isNumeric x) (hy : Json.Ends isNumeric y) (heq : write F v ++ x = write F w ++ y) : v = w ∧ x = y := by
  induction v using ind generalizing w x y with
  | null =>
    cases w with
    | null => exact ⟨rfl, append_cancel_left heq⟩
    | _ => exact False.elim (same_kind hF heq)
  | bool b =>
    cases w with
    | bool c =>
      obtain rfl : b = c := same_kind hF heq
      exact ⟨rfl, append_cancel_left heq⟩
    | _ => exact False.elim (same_kind hF heq)
  | num n =>
    cases w with
    | num m =>
      obtain ⟨hnm, hxy⟩ := number_append_inj (hF.numeric n).2 (hF.numeric m).2 hx hy heq
      exact ⟨congrArg Doc.num (hF.number hnm), hxy⟩
    | _ => exact False.elim (same_kind hF heq)
  | str s =>
    cases w with
    | str t =>
      obtain ⟨rfl, hxy⟩ := hF.escape.quoted_append_inj heq
      exact ⟨rfl, hxy⟩
    | _ => exact False.elim (same_kind hF heq)
  | arr items ih =>
    cases w with
    | arr others =>
      simp only [write, write_items_eq_map, hF.item, cons_append, append_assoc, nil_append,
        List.cons.injEq, true_and] at heq
      refine (Json.intercalate_inj isNumeric (by decide) ⟨rfl, rfl⟩ ?_ ?_ heq).imp_left (congrArg Doc.arr)
      · exact fun v u z h => write_ne_close hF v h
      · exact fun v hv w u z hu hz h => ih v hv hu hz h
    | _ => exact False.elim (same_kind hF heq)
  | obj fields ih =>
    cases w with
    | obj others =>
      simp only [write, write_fields_eq_map, hF.item, hF.key, cons_append, append_assoc, nil_append,
        List.cons.injEq, true_and] at heq
      refine (Json.intercalate_inj isNumeric (by decide) ⟨rfl, rfl⟩ ?_ ?_ heq).imp_left (congrArg Doc.obj)
      · intro field u z h
        cases (List.cons.inj h).1
      · intro f hf g u z hu hz h
        simp only [append_assoc, cons_append] at h
        obtain ⟨hkey, hrest⟩ := hF.escape.quoted_append_inj h
        obtain ⟨hvalue, huz⟩ := ih f hf hu hz (List.cons.inj hrest).2
        exact ⟨Prod.ext hkey hvalue, huz⟩
    | _ => exact False.elim (same_kind hF heq)

end AwsOps.Doc
