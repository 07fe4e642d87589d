import AwsOps.Topology.TraceSource

/-!
# Spellings of trace and span ids

Which spellings of an id `normalizeTempoId` recognizes, what it makes of them, and that it confuses
no two ids.
-/

namespace AwsOps.Topology

open List Text

def idBytes (span : Bool) : Nat :=
  if span then 8 else 16

/-- The value of hexadecimal digits in any letter case. -/
def hexValue (digits : List Char) : Nat :=
  ofDigits 16 (digits.map fun c => Json.hexValue c.toLower)

/-- The text is an id in padded base64: unused bits are zero. -/
def IsBase64 (bytes n : Nat) (text : List Char) : Prop :=
  ∃ letters sextets pads, text = letters ++ replicate pads '=' ∧
    letters.mapM sextet = some sextets ∧ 6 * sextets.length / 8 = bytes ∧
    (letters.length + pads) % 4 = 0 ∧ pads ≤ 2 ∧
    ofDigits 64 sextets = n * 2 ^ (6 * sextets.length % 8)

/-- The texts of an id of that many bytes: hexadecimal digits, without leading zeros only where
`short` allows it, or base64. -/
inductive Spells (short : Prop) (bytes n : Nat) (text : List Char) : Prop
  | hex : text ≠ [] → text.all isHexDigit = true → text.length ≤ 2 * bytes →
      (text.length = 2 * bytes ∨ short) → hexValue text = n → Spells short bytes n text
  | base64 : IsBase64 bytes n text → Spells short bytes n text

/-- The full-width text of an id in lower case. -/
def canonicalId (bytes n : Nat) : String :=
  String.ofList (numeral 16 (2 * bytes) n)

/-! ## Digits -/

theorem of_digits_append (base d : Nat) (ds : List Nat) :
    ofDigits base (ds ++ [d]) = ofDigits base ds * base + d := by
  simp [ofDigits]

theorem of_digits_lt {base : Nat} {ds : List Nat} (h : ∀ d ∈ ds, d < base) :
    ofDigits base ds < base ^ ds.length := by
  induction ds using List.reverseRecOn with
  | nil => exact Nat.one_pos
  | append_singleton ds d ih =>
    have hds := ih fun e he => h e (mem_append_left _ he)
    have hd := h d (by simp)
    rw [of_digits_append, length_append, length_singleton, Nat.pow_succ]
    calc ofDigits base ds * base + d < ofDigits base ds * base + base := by omega
      _ = (ofDigits base ds + 1) * base := (Nat.succ_mul _ _).symm
      _ ≤ base ^ ds.length * base := Nat.mul_le_mul_right _ hds

theorem exists_digits (width n : Nat) (h : n < 16 ^ width) :
    ∃ ds : List Nat, ds.length = width ∧ (∀ d ∈ ds, d < 16) ∧ ofDigits 16 ds = n := by
  induction width generalizing n with
  | zero => exact ⟨[], rfl, fun _ h => absurd h not_mem_nil, (Nat.lt_one_iff.mp h).symm⟩
  | succ width ih =>
    obtain ⟨ds, hlength, hds, hvalue⟩ := ih (n / 16) (by rw [Nat.pow_succ] at h; omega)
    refine ⟨ds ++ [n % 16], by simp [hlength], ?_, ?_⟩
    · intro d hd
      obtain hd | hd := mem_append.mp hd
      · exact hds d hd
      · rw [mem_singleton.mp hd]
        omega
    · rw [of_digits_append, hvalue]
      omega

theorem numeral_of_digits {ds : List Nat} (hne : ds ≠ []) (hds : ∀ d ∈ ds, d < 16) :
    numeral 16 ds.length (ofDigits 16 ds) = ds.map Json.hexDigit := by
  have hchar : ∀ d < 16, Nat.digitChar d = Json.hexDigit d := by decide
  induction ds using List.reverseRecOn with
  | nil => exact absurd rfl hne
  | append_singleton ds d ih =>
    have hd := hds d (by simp)
    have hlast : Nat.toDigits 16 d = [Json.hexDigit d] := by
      rw [Nat.toDigits_of_lt_base hd, hchar d hd]
    rw [of_digits_append, length_append, length_singleton, map_append, map_singleton]
    by_cases hnil : ds = []
    · subst hnil
      simp [numeral, ofDigits, hlast]
    · rw [← ih hnil fun e he => hds e (mem_append_left _ he)]
      obtain hzero | hpos := Nat.eq_zero_or_pos (ofDigits 16 ds)
      · have hlength := length_pos_of_ne_nil hnil
        have hsplit : ds.length = ds.length - 1 + 1 := by omega
        rw [hzero, Nat.zero_mul, Nat.zero_add, numeral, numeral, hlast, Nat.toDigits_zero,
          length_singleton, length_singleton, Nat.add_sub_cancel]
        rw [hsplit, replicate_succ']
        rfl
      · rw [Nat.mul_comm, numeral, ← Nat.toDigits_append_toDigits (by decide) hpos hd, hlast,
          length_append, length_singleton, Nat.add_sub_add_right, ← append_assoc]
        rfl

theorem hex_digit_facts {c : Char} (h : isHexDigit c = true) :
    Json.hexValue c.toLower < 16 ∧ Json.hexDigit (Json.hexValue c.toLower) = c.toLower ∧
      (Json.hexValue c.toLower = 0 ↔ c = '0') ∧ isTrimmed c = false := by
  have hascii : isAscii c = true := by
    simp only [isHexDigit, Bool.or_eq_true, Bool.and_eq_true, decide_eq_true_eq] at h
    obtain (hdigit | hlower) | hupper := h
    · exact ascii_of_digit hdigit
    · have hle : c.toNat ≤ 102 := hlower.2
      simp only [isAscii, decide_eq_true_eq]
      omega
    · have hle : c.toNat ≤ 70 := hupper.2
      simp only [isAscii, decide_eq_true_eq]
      omega
  exact forall_ascii (fun c => isHexDigit c = true → Json.hexValue c.toLower < 16 ∧
    Json.hexDigit (Json.hexValue c.toLower) = c.toLower ∧
      (Json.hexValue c.toLower = 0 ↔ c = '0') ∧ isTrimmed c = false)
    (by decide) c hascii h

theorem hex_digit_of_lt {d : Nat} (h : d < 16) : isHexDigit (Json.hexDigit d) = true ∧
    (Json.hexDigit d).toLower = Json.hexDigit d ∧ Json.hexValue (Json.hexDigit d) = d := by
  have hall : ∀ d < 16, isHexDigit (Json.hexDigit d) = true ∧
      (Json.hexDigit d).toLower = Json.hexDigit d ∧ Json.hexValue (Json.hexDigit d) = d := by decide
  exact hall d h

theorem numeral_of_hex {width : Nat} {digits : List Char} (hne : digits ≠ [])
    (hhex : digits.all isHexDigit = true) (hlength : digits.length ≤ width) :
    numeral 16 width (hexValue digits) =
      replicate (width - digits.length) '0' ++ digits.map Char.toLower := by
  have hfacts := fun c hc => hex_digit_facts (all_eq_true.mp hhex c hc)
  have hvalue : ∀ k, ofDigits 16 (replicate k 0 ++ digits.map fun c => Json.hexValue c.toLower) =
      hexValue digits := by
    intro k
    induction k with
    | zero => rfl
    | succ k ih => exact ih
  have hnumeral := @numeral_of_digits
    (replicate (width - digits.length) 0 ++ digits.map fun c => Json.hexValue c.toLower)
    (by simp [hne]) (by
      intro d hd
      obtain hd | hd := mem_append.mp hd
      · rw [eq_of_mem_replicate hd]
        decide
      · obtain ⟨c, hc, rfl⟩ := mem_map.mp hd
        exact (hfacts c hc).1)
  rw [hvalue, length_append, length_replicate, length_map, Nat.sub_add_cancel hlength, map_append,
    map_replicate, map_map] at hnumeral
  rw [hnumeral]
  exact congrArg _ (map_congr_left fun c hc => (hfacts c hc).2.1)

theorem numeral_spells {bytes n : Nat} (hbytes : 0 < bytes) (h : n < 16 ^ (2 * bytes)) :
    numeral 16 (2 * bytes) n ≠ [] ∧ (numeral 16 (2 * bytes) n).all isHexDigit = true ∧
      (numeral 16 (2 * bytes) n).length = 2 * bytes ∧
      hexValue (numeral 16 (2 * bytes) n) = n := by
  obtain ⟨ds, hlength, hds, hvalue⟩ := exists_digits (2 * bytes) n h
  have hne : ds ≠ [] := ne_nil_of_length_pos (by omega)
  have htext : numeral 16 (2 * bytes) n = ds.map Json.hexDigit := by
    rw [← hlength, ← hvalue, numeral_of_digits hne hds]
  have hback : (ds.map Json.hexDigit).map (fun c => Json.hexValue c.toLower) = ds := by
    rw [map_map]
    conv_rhs => rw [← map_id ds]
    refine map_congr_left fun d hd => ?_
    have hd := hex_digit_of_lt (hds d hd)
    show Json.hexValue (Json.hexDigit d).toLower = d
    rw [hd.2.1, hd.2.2]
  rw [htext]
  refine ⟨by simpa using hne, ?_, by simpa using hlength, by rw [hexValue, hback, hvalue]⟩
  exact all_eq_true.mpr (forall_mem_map.mpr fun d hd => (hex_digit_of_lt (hds d hd)).1)

/-! ## Base64 -/

theorem sextet_facts {c : Char} {d : Nat} (h : sextet c = some d) :
    d < 64 ∧ c ≠ '=' ∧ isTrimmed c = false := by
  have hascii : isAscii c = true := by
    by_cases hword : c.isAlphanum = true
    · exact ascii_of_alphanum hword
    · rw [alphanum_iff, not_or, not_or] at hword
      rw [sextet, if_neg hword.1.1, if_neg hword.1.2, if_neg hword.2] at h
      split_ifs at h with hplus hslash
      · rw [hplus]
        decide
      · rw [hslash]
        decide
  exact forall_ascii (fun c => ∀ d ∈ sextet c, d < 64 ∧ c ≠ '=' ∧ isTrimmed c = false)
    (by decide) c hascii d h

theorem sextets_facts {letters : List Char} {sextets : List Nat}
    (h : letters.mapM sextet = some sextets) : sextets.length = letters.length ∧
      (∀ d ∈ sextets, d < 64) ∧ ∀ c ∈ letters, c ≠ '=' ∧ isTrimmed c = false := by
  induction letters generalizing sextets with
  | nil =>
    cases h
    exact ⟨rfl, fun _ h => absurd h not_mem_nil, fun _ h => absurd h not_mem_nil⟩
  | cons c letters ih =>
    rw [mapM_cons] at h
    obtain ⟨d, hd, h⟩ := Option.bind_eq_some_iff.mp h
    obtain ⟨ds, hds, h⟩ := Option.bind_eq_some_iff.mp h
    cases h
    obtain ⟨hlength, hlt, hletters⟩ := ih hds
    obtain ⟨hd, hc⟩ := sextet_facts hd
    exact ⟨by rw [length_cons, length_cons, hlength], forall_mem_cons.mpr ⟨hd, hlt⟩,
      forall_mem_cons.mpr ⟨hc, hletters⟩⟩

theorem base64_hex_iff {bytes : Nat} {raw hex : List Char} : base64Hex bytes raw = some hex ↔
    ∃ n, IsBase64 bytes n raw ∧ hex = numeral 16 (2 * bytes) n := by
  constructor
  · intro h
    have hraw : raw.takeWhile (· ≠ '=') ++ raw.drop (raw.takeWhile (· ≠ '=')).length = raw := by
      conv_rhs => rw [← take_append_drop (raw.takeWhile (· ≠ '=')).length raw]
      rw [← prefix_iff_eq_take.mp ( takeWhile_prefix _)]
    have hlength := congrArg length hraw
    rw [length_append] at hlength
    obtain ⟨sextets, hsextets, h⟩ := Option.bind_eq_some_iff.mp h
    dsimp only at h
    split_ifs at h with hcond
    cases h
    obtain ⟨hdrop, hpads, hfour, hbytes, hspare⟩ := hcond
    refine ⟨_, ⟨_, sextets, _, ?_, hsextets, hbytes, ?_, hpads,
      (Nat.div_mul_cancel (Nat.dvd_of_mod_eq_zero hspare)).symm⟩, rfl⟩
    · rw [← hdrop, hraw]
    · rw [Nat.add_sub_cancel' (by omega)]
      exact hfour
  · rintro ⟨n, ⟨letters, sextets, pads, rfl, hsextets, hbytes, hfour, hpads, hvalue⟩, rfl⟩
    have hbody : (letters ++ replicate pads '=').takeWhile (· ≠ '=') = letters := by
      rw [takeWhile_append_of_pos fun c hc => by simpa using ((sextets_facts hsextets).2.2 c hc).1]
      cases pads <;> simp [replicate_succ]
    have hzero : n * 2 ^ (6 * sextets.length % 8) % 2 ^ (6 * sextets.length % 8) = 0 :=
      Nat.mul_mod_left _ _
    have hdiv : n * 2 ^ (6 * sextets.length % 8) / 2 ^ (6 * sextets.length % 8) = n :=
      Nat.mul_div_cancel _ (Nat.two_pow_pos _)
    unfold base64Hex
    simp only [hbody, hsextets, hvalue, hdiv, hzero, drop_left, length_append, length_replicate,
      Nat.add_sub_cancel_left, hpads, hfour, hbytes, and_self, if_true, bind, Option.bind_some]

/-! ## Ids -/

section Ids

variable {short : Prop} {span allowZero : Bool} {n : Nat} {s : String}

theorem id_bytes_pos (span : Bool) : 0 < idBytes span := by
  cases span <;> decide

theorem Spells.lt {bytes : Nat} {text : List Char} (h : Spells short bytes n text) :
    n < 16 ^ (2 * bytes) := by
  cases h with
  | hex _ hhex hlength _ hvalue =>
    rw [← hvalue]
    have hdigits : ∀ d ∈ text.map (fun c => Json.hexValue c.toLower), d < 16 :=
      forall_mem_map.mpr fun c hc => (hex_digit_facts (all_eq_true.mp hhex c hc)).1
    have hlt := of_digits_lt hdigits
    rw [length_map] at hlt
    exact Nat.lt_of_lt_of_le hlt (Nat.pow_le_pow_right (by decide) hlength)
  | base64 h =>
    obtain ⟨letters, sextets, pads, rfl, hsextets, hbytes, -, -, hvalue⟩ := h
    have hlt := of_digits_lt (sextets_facts hsextets).2.1
    have hbits : 64 ^ sextets.length = 16 ^ (2 * bytes) * 2 ^ (6 * sextets.length % 8) := by
      rw [show 64 = 2 ^ 6 from rfl, show 16 = 2 ^ 4 from rfl, ← Nat.pow_mul, ← Nat.pow_mul,
        ← Nat.pow_add]
      congr 1
      omega
    rw [hvalue, hbits] at hlt
    exact Nat.lt_of_mul_lt_mul_right hlt

theorem Spells.plain {text : List Char} (h : Spells short (idBytes span) n text) :
    text ≠ [] ∧ ∀ c ∈ text, isTrimmed c = false := by
  cases h with
  | hex hne hhex => exact ⟨hne, fun c hc => (hex_digit_facts (all_eq_true.mp hhex c hc)).2.2.2⟩
  | base64 h =>
    obtain ⟨letters, sextets, pads, rfl, hsextets, hbytes, -⟩ := h
    obtain ⟨hlength, -, hletters⟩ := sextets_facts hsextets
    have hpos := id_bytes_pos span
    refine ⟨fun hnil => ?_, fun c hc => ?_⟩
    · obtain ⟨rfl, -⟩ := append_eq_nil_iff.mp hnil
      rw [hlength, length_nil] at hbytes
      omega
    · obtain hc | hc := mem_append.mp hc
      · exact (hletters c hc).2
      · rw [eq_of_mem_replicate hc]
        decide

theorem text_of_plain (h : s.toList ≠ [] ∧ ∀ c ∈ s.toList, isTrimmed c = false) :
    text (some (.str s)) = some s := by
  have htrimmed : trimmed s = s := by rw [trimmed, strip_by_eq_self h.2, String.ofList_toList]
  have hne : s ≠ "" := by
    rintro rfl
    exact h.1 rfl
  rw [text, htrimmed, if_neg hne]

theorem any_digit_iff {digits : List Char} (h : digits.all isHexDigit = true) :
    digits.any (· ≠ '0') = true ↔ hexValue digits ≠ 0 := by
  induction digits using List.reverseRecOn with
  | nil => simp [hexValue, ofDigits]
  | append_singleton digits c ih =>
    simp only [all_append, Bool.and_eq_true, all_cons, all_nil, and_true] at h
    have hc := (hex_digit_facts h.2).2.2.1
    have hvalue : hexValue (digits ++ [c]) = hexValue digits * 16 + Json.hexValue c.toLower := by
      rw [hexValue, map_append, map_singleton, of_digits_append]
      rfl
    rw [any_append, Bool.or_eq_true, ih h.1, hvalue]
    simp only [any_cons, any_nil, Bool.or_false, decide_eq_true_eq]
    show hexValue digits ≠ 0 ∨ ¬c = '0' ↔ _
    rw [← hc]
    omega

/-- The digits of an id, unless they are all zero. -/
def kept (allowZero : Bool) (hex : List Char) : Option String :=
  if allowZero || hex.any (· ≠ '0') then some (String.ofList hex) else none

theorem kept_numeral (h : n < 16 ^ (2 * idBytes span)) :
    kept allowZero (numeral 16 (2 * idBytes span) n) =
      if allowZero = true ∨ n ≠ 0 then some (canonicalId (idBytes span) n) else none := by
  obtain ⟨-, hhex, -, hvalue⟩ := numeral_spells (id_bytes_pos span) h
  have hkeep : (allowZero || (numeral 16 (2 * idBytes span) n).any (· ≠ '0')) = true ↔
      allowZero = true ∨ n ≠ 0 := by
    rw [Bool.or_eq_true, any_digit_iff hhex, hvalue]
  rw [kept, if_congr hkeep rfl rfl]
  rfl

theorem normalize_eq {bytes : Nat} (htext : text (some (.str s)) = some s) :
    normalizeTempoId bytes (some (.str s)) allowZero =
      if s.toList.all isHexDigit then
        if 2 * bytes < s.toList.length ∨ (bytes = 8 ∧ s.toList.length ≠ 16) then none
        else kept allowZero (replicate (2 * bytes - s.toList.length) '0' ++ s.toList.map Char.toLower)
      else
        match base64Hex bytes s.toList with
        | some hex => kept allowZero hex
        | none => some s := by
  unfold normalizeTempoId
  rw [htext]
  rfl

theorem normalize_spelling (h : Spells (span = false) (idBytes span) n s.toList) :
    normalizeTempoId (idBytes span) (some (.str s)) allowZero =
      if allowZero = true ∨ n ≠ 0 then some (canonicalId (idBytes span) n) else none := by
  have htext := text_of_plain h.plain
  rw [← kept_numeral h.lt]
  cases h with
  | hex hne hhex hlength hwidth hvalue =>
    have hfits : ¬(2 * idBytes span < s.toList.length ∨ (idBytes span = 8 ∧ s.toList.length ≠ 16)) := by
      cases span <;> simp_all [idBytes]
    rw [normalize_eq htext, if_pos hhex, if_neg hfits, ← hvalue, numeral_of_hex hne hhex hlength]
  | base64 h =>
    have hhex : ¬s.toList.all isHexDigit = true := by
      obtain ⟨letters, sextets, pads, hraw, hsextets, hbytes, hfour, -⟩ := h
      have hpadded : pads ≠ 0 := by
        have hlength := (sextets_facts hsextets).1
        cases span <;> simp only [idBytes] at hbytes <;> simp at hbytes <;> omega
      have hpad : '=' ∈ s.toList := by
        rw [hraw]
        exact mem_append_right _ (mem_replicate.mpr ⟨hpadded, rfl⟩)
      intro hhex
      exact absurd (all_eq_true.mp hhex _ hpad) (by decide)
    rw [normalize_eq htext, if_neg hhex, base64_hex_iff.mpr ⟨n, h, rfl⟩]

theorem text_eq_some {value : Option Js} (h : text value = some s) :
    value = some (.str s) ∧ s.toList ≠ [] := by
  unfold text at h
  split at h
  · split_ifs at h with hblank
    cases h
    refine ⟨rfl, fun hnil => hblank ?_⟩
    rw [String.toList_eq_nil_iff.mp hnil]
    rfl
  · cases h

theorem normalize_cases {value : Option Js} {r : String}
    (h : normalizeTempoId (idBytes span) value allowZero = some r) : value = some (.str r) ∨
      ∃ s n, value = some (.str s) ∧ Spells (span = false) (idBytes span) n s.toList ∧
        r = canonicalId (idBytes span) n := by
  obtain ⟨s, htext, -⟩ := Option.bind_eq_some_iff.mp h
  obtain ⟨rfl, hne⟩ := text_eq_some htext
  have hspelt : ∀ n, Spells (span = false) (idBytes span) n s.toList →
      r = canonicalId (idBytes span) n := by
    intro n hspells
    rw [normalize_spelling hspells] at h
    split_ifs at h
    exact (Option.some.inj h).symm
  have hsome := h
  rw [normalize_eq htext] at hsome
  by_cases hhex : s.toList.all isHexDigit = true
  · rw [if_pos hhex] at hsome
    split_ifs at hsome with hfits
    have hwidth : s.toList.length = 2 * idBytes span ∨ span = false := by
      cases span <;> simp_all [idBytes]
    have hspells : Spells (span = false) (idBytes span) (hexValue s.toList) s.toList :=
      .hex hne hhex (by omega) hwidth rfl
    exact .inr ⟨s, _, rfl, hspells, hspelt _ hspells⟩
  · rw [if_neg hhex] at hsome
    cases hdecoded : base64Hex (idBytes span) s.toList with
    | none =>
      rw [hdecoded] at hsome
      cases hsome
      exact .inl rfl
    | some hex =>
      obtain ⟨n, hbase64, -⟩ := base64_hex_iff.mp hdecoded
      have hspells : Spells (span = false) (idBytes span) n s.toList := .base64 hbase64
      exact .inr ⟨s, n, rfl, hspells, hspelt n hspells⟩

theorem canonical_spells (h : n < 16 ^ (2 * idBytes span)) :
    Spells short (idBytes span) n (canonicalId (idBytes span) n).toList := by
  obtain ⟨hne, hhex, hlength, hvalue⟩ := numeral_spells (id_bytes_pos span) h
  rw [canonicalId, String.toList_ofList]
  exact .hex hne hhex hlength.le (.inl hlength) hvalue

/-- Span ids need all their digits, and a zero id counts only where it is allowed. Up to that, each
text of an id is normalized to one text of it; a result is left as it is; and texts of two ids have
different results. -/
theorem trace_ids_normalized (span allowZero : Bool) :
    (∀ n s, Spells (span = false) (idBytes span) n s.toList →
      normalizeTempoId (idBytes span) (some (.str s)) allowZero =
        if allowZero = true ∨ n ≠ 0 then some (canonicalId (idBytes span) n) else none) ∧
    (∀ value r, normalizeTempoId (idBytes span) value allowZero = some r →
      normalizeTempoId (idBytes span) (some (.str r)) allowZero = some r) ∧
    (∀ n m s t r, Spells (span = false) (idBytes span) n s.toList →
      Spells (span = false) (idBytes span) m t.toList →
      normalizeTempoId (idBytes span) (some (.str s)) allowZero = some r →
      normalizeTempoId (idBytes span) (some (.str t)) allowZero = some r → n = m) := by
  refine ⟨fun n s => normalize_spelling, fun value r h => ?_, fun n m s t r hn hm hs ht => ?_⟩
  · obtain rfl | ⟨s, n, rfl, hspells, rfl⟩ := normalize_cases h
    · exact h
    · rw [normalize_spelling hspells] at h
      rw [normalize_spelling (canonical_spells hspells.lt), h]
  · rw [normalize_spelling hn] at hs
    rw [normalize_spelling hm] at ht
    split_ifs at hs ht
    have hsame := Option.some.inj (hs.trans ht.symm)
    have htexts := congrArg hexValue (String.ofList_injective hsame)
    rwa [(numeral_spells (id_bytes_pos span) hn.lt).2.2.2,
      (numeral_spells (id_bytes_pos span) hm.lt).2.2.2] at htexts

/-- A span id without leading zeros is not read. -/
theorem short_span_id_lost :
    ¬∀ (span : Bool) (n : Nat) (s t : String), n ≠ 0 → Spells True (idBytes span) n s.toList →
      Spells True (idBytes span) n t.toList → normalizeTempoId (idBytes span) (some (.str s)) =
        normalizeTempoId (idBytes span) (some (.str t)) := by
  intro h
  have hshort : Spells True (idBytes true) 1 "1".toList :=
    .hex (by decide) (by decide) (by decide) (.inr trivial) (by decide)
  have hfull : Spells True (idBytes true) 1 "0000000000000001".toList :=
    .hex (by decide) (by decide) (by decide) (.inr trivial) (by decide)
  exact absurd (h true 1 _ _ (by decide) hshort hfull) (by decide +kernel)

end Ids

end AwsOps.Topology
