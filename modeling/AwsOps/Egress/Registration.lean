import AwsOps.Egress.AlwaysBlocked
import AwsOps.Egress.SsrfGuard

/-!
# The registration guard beside the connection guard

What the two guards say about the same address. The registration guard reads the text that the URL
standard writes the address as, the connection guard its value.
-/

namespace AwsOps.Egress

open List Text IpAddress Address
open Tokens (backslash)

variable {U : Unicode}

/-! ## The text of an address as a host -/

/-- The host of a URL whose host is an address. -/
def hostText (a : Address) : List Char :=
  match a.version with
  | .v4 => ipv4Text a.value
  | .v6 => '[' :: ipv6Text a.value ++ [']']

/-- A character of the text of an address. -/
def isLiteralChar (c : Char) : Bool :=
  isHexChar c || c == ':' || c == '.'

variable {c : Char} {text : List Char} {v : Nat}

theorem ascii_of_hex (h : isHexChar c = true) : isAscii c = true := by
  simp only [isHexChar, Bool.or_eq_true, Bool.and_eq_true, decide_eq_true_eq] at h
  rcases h with h | h
  · exact ascii_of_digit h
  · have hle : c.toNat ≤ 102 := h.2
    simp only [isAscii, decide_eq_true_eq]
    omega

/-- The characters of literals are in ASCII, are no letters in upper case, and no brackets. -/
theorem literal_char (h : isLiteralChar c = true) :
    isAscii c = true ∧ c.toLower = c ∧ isTrimmed c = false ∧ c ≠ '[' ∧ c ≠ ']' ∧ c ≠ 'l' := by
  have hascii : isAscii c = true := by
    simp only [isLiteralChar, Bool.or_eq_true, beq_iff_eq] at h
    rcases h with (h | rfl) | rfl
    · exact ascii_of_hex h
    · decide
    · decide
  have key : isLiteralChar c = true →
      c.toLower = c ∧ isTrimmed c = false ∧ c ≠ '[' ∧ c ≠ ']' ∧ c ≠ 'l' :=
    forall_ascii (fun c => isLiteralChar c = true →
      c.toLower = c ∧ isTrimmed c = false ∧ c ≠ '[' ∧ c ≠ ']' ∧ c ≠ 'l') (by decide) c hascii
  exact ⟨hascii, key h⟩

theorem lower_literal (h : ∀ c ∈ text, isLiteralChar c = true) : U.lower text = text := by
  rw [U.lower_ascii text (all_eq_true.mpr fun c hc => (literal_char (h c hc)).1)]
  conv_rhs => rw [← map_id text]
  exact map_congr_left fun c hc => (literal_char (h c hc)).2.1

theorem host_of_literal (h : ∀ c ∈ text, isLiteralChar c = true) : hostOf U text = text := by
  have hhead : ¬ text.head? = some '[' := fun hmem =>
    (literal_char (h _ (mem_of_head? hmem))).2.2.2.1 rfl
  have hlast : ¬ text.getLast? = some ']' := fun hmem =>
    (literal_char (h _ (mem_of_getLast? hmem))).2.2.2.2.1 rfl
  unfold hostOf
  simp only [strip_by_eq_self fun c hc => (literal_char (h c hc)).2.2.1, if_neg hhead, if_neg hlast]
  exact lower_literal h

theorem host_of_bracketed (h : ∀ c ∈ text, isLiteralChar c = true) :
    hostOf U ('[' :: text ++ [']']) = text := by
  have hstrip : stripBy isTrimmed ('[' :: (text ++ [']'])) = '[' :: (text ++ [']']) := by
    refine strip_by_eq_self fun c hc => ?_
    simp only [mem_cons, mem_append, not_mem_nil, or_false] at hc
    rcases hc with rfl | hc | rfl
    · decide
    · exact (literal_char (h c hc)).2.2.1
    · decide
  unfold hostOf
  rw [cons_append, hstrip]
  simp only [List.head?_cons, if_true, tail_cons, List.getLast?_concat, dropLast_concat]
  exact lower_literal h

theorem not_loopback_name (h : ∀ c ∈ text, isLiteralChar c = true) :
    isLoopbackHostname text = false := by
  have hletter : ∀ c ∈ (text.reverse.dropWhile (· == '.')).reverse, c ≠ 'l' := by
    intro c hc
    have hmem := (dropWhile_sublist _).subset (mem_reverse.mp hc)
    exact (literal_char (h c (mem_reverse.mp hmem))).2.2.2.2.2
  unfold isLoopbackHostname
  generalize (text.reverse.dropWhile (· == '.')).reverse = name at hletter
  have hnot : ∀ other : List Char, 'l' ∈ other → (name == other) = false := by
    intro other hl
    rw [beq_eq_false_iff_ne]
    rintro rfl
    exact hletter 'l' hl rfl
  have hsuffix : ".localhost".toList.isSuffixOf name = false := by
    rw [Bool.eq_false_iff]
    intro hsuffix
    have hmem : 'l' ∈ name := (isSuffixOf_iff_suffix.mp hsuffix).subset (by decide)
    exact hletter 'l' hmem rfl
  have haliases : (loopbackHostnameAliases.map String.toList).contains name = false := by
    have hall : ∀ other ∈ loopbackHostnameAliases.map String.toList, 'l' ∈ other := by decide
    rw [Bool.eq_false_iff]
    intro hmem
    exact hletter 'l' (hall name (by simpa using hmem)) rfl
  simp only [hnot "localhost".toList (by decide), hsuffix, haliases, Bool.or_false]

/-! ## IPv4 -/

/-- What the guard says of the octets of an IPv4 address. -/
def octetsBlocked (o : List Nat) : Bool :=
  o.getD 0 0 == 127 || (o.getD 0 0 == 169 && o.getD 1 0 == 254) ||
    (224 ≤ o.getD 0 0 && o.getD 0 0 ≤ 239) || o.getD 0 0 == 0 || o == [255, 255, 255, 255]

theorem octet_text : ∀ n : Fin 256, isOctetText (decimalText n) = true ∧
    ofDigits 10 ((decimalText n).map fun c => c.toNat - 48) = n ∧
    (decimalText n).all isLiteralChar = true ∧ '.' ∉ decimalText n := by
  decide +kernel

theorem split_joined {sep : Char} {texts : List (List Char)} (hne : texts ≠ [])
    (h : ∀ text ∈ texts, sep ∉ text) : split [sep] (joined sep texts) = texts := by
  have hone : ∀ text : List Char, sep ∉ text → split [sep] text = [text] := by
    intro text htext
    induction text with
    | nil => rfl
    | cons c text ih =>
      obtain ⟨first, others, hrest, hcons⟩ :=
        split_cons (fun heq : c = sep => htext (heq ▸ mem_cons_self)) text
      rw [ih fun hmem => htext (mem_cons_of_mem c hmem)] at hrest
      obtain ⟨rfl, rfl⟩ := List.cons.inj hrest
      exact hcons
  have happ : ∀ text rest : List Char, sep ∉ text →
      split [sep] (text ++ sep :: rest) = text :: split [sep] rest := by
    intro text rest htext
    induction text with
    | nil => exact split_separator sep rest
    | cons c text ih =>
      obtain ⟨first, others, hrest, hcons⟩ :=
        split_cons (fun heq : c = sep => htext (heq ▸ mem_cons_self)) (text ++ sep :: rest)
      rw [ih fun hmem => htext (mem_cons_of_mem c hmem)] at hrest
      obtain ⟨rfl, rfl⟩ := List.cons.inj hrest
      exact hcons
  induction texts with
  | nil => exact absurd rfl hne
  | cons text rest ih =>
    cases rest with
    | nil => exact hone text (h text mem_cons_self)
    | cons other rest =>
      show split [sep] (text ++ sep :: joined sep (other :: rest)) = _
      rw [happ text _ (h text mem_cons_self), ih (cons_ne_nil _ _)
        fun t ht => h t (mem_cons_of_mem _ ht)]

theorem octets_lt {o : Nat} (h : o ∈ octets v) : o < 256 := by
  simp only [octets, mem_cons, not_mem_nil, or_false] at h
  omega

theorem parse_ipv4_text (v : Nat) : parseIpv4 (ipv4Text v) = some (octets v) := by
  have htext : ∀ o ∈ octets v, isOctetText (decimalText o) = true ∧
      ofDigits 10 ((decimalText o).map fun c => c.toNat - 48) = o ∧ '.' ∉ decimalText o := by
    intro o ho
    have h := octet_text ⟨o, octets_lt ho⟩
    exact ⟨h.1, h.2.1, h.2.2.2⟩
  have hsplit : split ['.'] (ipv4Text v) = (octets v).map decimalText := by
    refine split_joined (by simp [octets]) fun text hmem => ?_
    obtain ⟨o, ho, rfl⟩ := mem_map.mp hmem
    exact (htext o ho).2.2
  have hquad : isDottedQuad (ipv4Text v) = true := by
    rw [isDottedQuad, hsplit, Bool.and_eq_true, length_map]
    refine ⟨rfl, all_eq_true.mpr fun text hmem => ?_⟩
    obtain ⟨o, ho, rfl⟩ := mem_map.mp hmem
    exact (htext o ho).1
  have hvalues : ((octets v).map decimalText).map
      (fun s => ofDigits 10 (s.map fun c => c.toNat - 48)) = octets v := by
    rw [map_map]
    conv_rhs => rw [← map_id (octets v)]
    exact map_congr_left fun o ho => (htext o ho).2.1
  have hsmall : (octets v).any (255 < ·) = false := by
    rw [any_eq_false]
    intro o ho
    have := octets_lt ho
    simp only [decide_eq_true_eq]
    omega
  rw [parseIpv4, if_pos hquad, hsplit]
  simp [hvalues, hsmall]

theorem ipv4_text_literal (h : c ∈ ipv4Text v) : isLiteralChar c = true := by
  rcases mem_joined h with rfl | ⟨text, htext, hc⟩
  · decide
  · obtain ⟨o, ho, rfl⟩ := mem_map.mp htext
    exact all_eq_true.mp (octet_text ⟨o, octets_lt ho⟩).2.2.1 c hc

theorem always_blocked_ipv4 (again : List Char → Bool) (v : Nat) :
    isAlwaysBlockedHostWith U again (ipv4Text v) = octetsBlocked (octets v) := by
  have hliteral : ∀ c ∈ ipv4Text v, isLiteralChar c = true := fun c hc => ipv4_text_literal hc
  unfold isAlwaysBlockedHostWith
  simp only [host_of_literal hliteral, not_loopback_name hliteral, parse_ipv4_text,
    Bool.false_eq_true, if_false]
  rfl

theorem octets_blocked_of_refused (h : isRefused ⟨.v4, v⟩ = true) :
    octetsBlocked (octets v) = true := by
  simp only [isRefused, metadataIps, quad, isLoopback, isLinkLocal,
    isMulticast, isUnspecified, contains_of, Version.bits, contains_cons,
    contains_nil, Bool.or_eq_true, Bool.and_eq_true, beq_iff_eq, Address.mk.injEq, true_and,
    reduceCtorEq, false_and, or_false, Bool.false_eq_true] at h
  simp only [octetsBlocked, octets, getD_cons_zero, getD_cons_succ, Bool.or_eq_true,
    Bool.and_eq_true, beq_iff_eq, decide_eq_true_eq]
  refine .inl ?_
  omega

/-! ## IPv6 -/

theorem ipv6_text_char (h : c ∈ ipv6Text v) : c = ':' ∨ isHexChar c = true :=
  pieces_text_chars (fun _ hp => pieces_lt hp) h

/-- What the guard goes on with when the host is an IPv6 address. -/
def colonsBlocked (again : List Char → Bool) (host : List Char) : Bool :=
  if host == "::1".toList || host == "0:0:0:0:0:0:0:1".toList || host == "::".toList then true
  else if host == "fd00:ec2::254".toList then true
  else if isLinkLocalText host then true
  else if isMulticastText host then true
  else match mappedQuad host with
    | some mapped => again mapped
    | none => match sixToFour host with
      | some s2 => again s2
      | none => false

theorem not_dotted (h : '.' ∉ text) : isDottedQuad text = false := by
  have hsplit : split ['.'] text = [text] := split_joined (cons_ne_nil text []) (by simpa using h)
  rw [isDottedQuad, hsplit]
  rfl

theorem no_mapped_quad (h : '.' ∉ text) : mappedQuad text = none := by
  induction text with
  | nil => rfl
  | cons c rest ih =>
    have hdotted : isDottedQuad ((c :: rest).drop 7) = false :=
      not_dotted fun hmem => h (mem_of_mem_drop hmem)
    rw [mappedQuad, hdotted, Bool.and_false, if_neg Bool.false_ne_true,
      ih fun hmem => h (mem_cons_of_mem c hmem)]

theorem always_blocked_ipv6 (again : List Char → Bool) (hcolon : ':' ∈ ipv6Text v) :
    isAlwaysBlockedHostWith U again ('[' :: ipv6Text v ++ [']']) = colonsBlocked again (ipv6Text v) := by
  have hliteral : ∀ c ∈ ipv6Text v, isLiteralChar c = true := by
    intro c hc
    rcases ipv6_text_char hc with rfl | hhex
    · decide
    · simp [isLiteralChar, hhex]
  have hdot : '.' ∉ ipv6Text v := by
    intro hmem
    rcases ipv6_text_char hmem with h | h
    · cases h
    · revert h
      decide
  have hipv4 : parseIpv4 (ipv6Text v) = none := by
    rw [parseIpv4, not_dotted hdot]
    rfl
  have hcontains : (ipv6Text v).contains ':' = true := by simpa using hcolon
  unfold isAlwaysBlockedHostWith
  simp only [host_of_bracketed hliteral, not_loopback_name hliteral, hipv4, hcontains,
    Bool.false_eq_true, if_false, if_true]
  rfl

theorem colon_mem (v : Nat) : ':' ∈ ipv6Text v := by
  unfold ipv6Text piecesText
  split
  · simp [pieces, joined]
  · simp

theorem hex_group_text {n : Nat} (hn : n < 65536) {rest : List Char}
    (hrest : rest.head?.all (· == ':') = true) :
    hexGroup (hexText n ++ rest) = some (hexText n, rest) := by
  have hdigits : ∀ c ∈ hexText n, isHexDigit c = true := by
    intro c hc
    have h := hex_text_chars hn hc
    simp only [isHexChar, Bool.or_eq_true] at h
    simp only [isHexDigit, Bool.or_eq_true]
    exact .inl h
  have hstop : rest.takeWhile isHexDigit = [] := by
    cases rest with
    | nil => rfl
    | cons c rest =>
      obtain rfl : c = ':' := by simpa using hrest
      rfl
  have hrun : (hexText n ++ rest).takeWhile isHexDigit = hexText n := by
    rw [takeWhile_append_of_pos hdigits, hstop, append_nil]
  obtain ⟨hpos, hle⟩ := hex_text_length n
  unfold hexGroup
  simp [hrun, hpos, hle]

/-- The digits of a group are read back. -/
theorem parse_hex_text {n : Nat} (hn : n < 65536) : parseHex (hexText n) = n := by
  have hdigit : ∀ d : Fin 16, (IpAddress.hexDigit (Nat.digitChar d)).getD 0 = d := by decide
  have hd : ∀ d, d < 16 → (IpAddress.hexDigit (Nat.digitChar d)).getD 0 = d :=
    fun d h => hdigit ⟨d, h⟩
  unfold parseHex hexText ofDigits
  split
  · next h => simp only [map_cons, map_nil, foldl_cons, foldl_nil, hd n h]; omega
  split
  · simp only [map_cons, map_nil, foldl_cons, foldl_nil,
      hd (n / 16) (by omega), hd (n % 16) (by omega)]
    omega
  split
  · simp only [map_cons, map_nil, foldl_cons, foldl_nil,
      hd (n / 256) (by omega), hd (n / 16 % 16) (by omega), hd (n % 16) (by omega)]
    omega
  · simp only [map_cons, map_nil, foldl_cons, foldl_nil,
      hd (n / 4096) (by omega), hd (n / 256 % 16) (by omega), hd (n / 16 % 16) (by omega),
      hd (n % 16) (by omega)]
    omega

theorem octets_of_pieces {q r : Nat} (hr : r < 65536) :
    octets (q * 65536 + r) = [q / 256 % 256, q % 256, r / 256 % 256, r % 256] := by
  simp only [octets, List.cons.injEq, and_true]
  omega

/-- The address in a 6to4 address is found if its pieces are written. -/
theorem six_to_four_text {q r : Nat} (hq : q < 65536) (hr : r < 65536) {rest : List Char}
    (hrest : rest.head?.all (· == ':') = true) :
    sixToFour (hexText 0x2002 ++ ':' :: (hexText q ++ ':' :: (hexText r ++ rest))) =
      some (ipv4Text (q * 65536 + r)) := by
  have hhead : hexText 0x2002 = ['2', '0', '0', '2'] := by decide
  have hfirst : hexGroup (hexText q ++ ':' :: (hexText r ++ rest)) =
      some (hexText q, ':' :: (hexText r ++ rest)) := hex_group_text hq (by simp)
  have hsecond : hexGroup (hexText r ++ rest) = some (hexText r, rest) := hex_group_text hr hrest
  have hopens : ∀ text : List Char,
      "2002:".toList.isPrefixOf ('2' :: '0' :: '0' :: '2' :: ':' :: text) = true := by
    intro text
    rfl
  unfold sixToFour
  simp only [hhead, cons_append, nil_append, hopens, if_true, drop_succ_cons,
    drop_zero, hfirst, hsecond, List.head?_cons, tail_cons, hrest, Option.bind_eq_bind,
    Option.bind_some, parse_hex_text hq, parse_hex_text hr]
  rw [ipv4Text, octets_of_pieces hr]

/-- No address is found if one of its pieces is not written. -/
theorem six_to_four_compressed {q : Nat} (hq : q < 65536) (rest : List Char) :
    sixToFour (hexText 0x2002 ++ ':' :: ':' :: rest) = none ∧
      sixToFour (hexText 0x2002 ++ ':' :: (hexText q ++ ':' :: ':' :: rest)) = none := by
  have hhead : hexText 0x2002 = ['2', '0', '0', '2'] := by decide
  have hempty : hexGroup (':' :: rest) = none := rfl
  have hfirst : hexGroup (hexText q ++ ':' :: ':' :: rest) = some (hexText q, ':' :: ':' :: rest) :=
    hex_group_text hq (by simp)
  have hopens : ∀ text : List Char,
      "2002:".toList.isPrefixOf ('2' :: '0' :: '0' :: '2' :: ':' :: text) = true := by
    intro text
    rfl
  constructor
  · unfold sixToFour
    simp only [hhead, cons_append, nil_append, hopens, if_true, drop_succ_cons,
      drop_zero, hempty, Option.bind_eq_bind, Option.bind_some, Option.bind_none]
  · unfold sixToFour
    simp only [hhead, cons_append, nil_append, hopens, if_true, drop_succ_cons,
      drop_zero, hfirst, hempty, List.head?_cons, tail_cons, Option.bind_eq_bind,
      Option.bind_some, Option.bind_none]

theorem link_local_text {p : Nat} (hp : p / 64 = 0x3fa) (rest : List Char) :
    isLinkLocalText (hexText p ++ ':' :: rest) = true := by
  have htext : hexText p = [Nat.digitChar (p / 4096), Nat.digitChar (p / 256 % 16),
      Nat.digitChar (p / 16 % 16), Nat.digitChar (p % 16)] := by
    rw [hexText, if_neg (by omega), if_neg (by omega), if_neg (by omega)]
  have hthird : ∀ d : Fin 16, 8 ≤ d.val → d.val < 12 →
      ['8', '9', 'a', 'b'].contains (Nat.digitChar d) = true := by decide
  have hlast : isHexChar (Nat.digitChar (p % 16)) = true := digit_char_hex ⟨p % 16, by omega⟩
  rw [htext, show p / 4096 = 15 by omega, show p / 256 % 16 = 14 by omega]
  show (['8', '9', 'a', 'b'].contains (Nat.digitChar (p / 16 % 16)) &&
    ((Nat.digitChar (p % 16) :: ':' :: rest).dropWhile isHexChar).head? == some ':') = true
  rw [hthird ⟨p / 16 % 16, by omega⟩ (by show 8 ≤ p / 16 % 16; omega)
    (by show p / 16 % 16 < 12; omega), dropWhile_cons_of_pos hlast]
  rfl

theorem multicast_text {p : Nat} (hp : p / 256 = 0xff) (rest : List Char) :
    isMulticastText (hexText p ++ ':' :: rest) = true := by
  have htext : hexText p = [Nat.digitChar (p / 4096), Nat.digitChar (p / 256 % 16),
      Nat.digitChar (p / 16 % 16), Nat.digitChar (p % 16)] := by
    rw [hexText, if_neg (by omega), if_neg (by omega), if_neg (by omega)]
  have hthird : isHexChar (Nat.digitChar (p / 16 % 16)) = true := digit_char_hex ⟨_, by omega⟩
  have hlast : isHexChar (Nat.digitChar (p % 16)) = true := digit_char_hex ⟨p % 16, by omega⟩
  rw [htext, show p / 4096 = 15 by omega, show p / 256 % 16 = 15 by omega]
  show (isHexChar (Nat.digitChar (p / 16 % 16)) && isHexChar (Nat.digitChar (p % 16))) = true
  rw [hthird, hlast]
  rfl

theorem ipv6_text_first (h : v / 2 ^ 112 % 65536 ≠ 0) :
    ∃ rest, ipv6Text v = hexText (v / 2 ^ 112 % 65536) ++ ':' :: rest :=
  pieces_text_first h

theorem colons_blocked_of_refused (h : isRefused ⟨.v6, v⟩ = true)
    (again : List Char → Bool) : colonsBlocked again (ipv6Text v) = true := by
  have hnamed : ipv6Text v ∈ ["::1".toList, "0:0:0:0:0:0:0:1".toList, "::".toList,
      "fd00:ec2::254".toList] → colonsBlocked again (ipv6Text v) = true := by
    intro hmem
    generalize ipv6Text v = host at hmem ⊢
    simp only [mem_cons, not_mem_nil, or_false] at hmem
    unfold colonsBlocked
    rcases hmem with rfl | rfl | rfl | rfl <;> rfl
  have hlink : isLinkLocalText (ipv6Text v) = true → colonsBlocked again (ipv6Text v) = true := by
    intro hlink
    unfold colonsBlocked
    rw [hlink]
    split
    · rfl
    · split <;> rfl
  have hmulticast : isMulticastText (ipv6Text v) = true → colonsBlocked again (ipv6Text v) = true := by
    intro hmulticast
    unfold colonsBlocked
    rw [hmulticast]
    split
    · rfl
    · split
      · rfl
      · split <;> rfl
  simp only [isRefused, metadataIps, quad, leading, isLoopback, isLinkLocal,
    isMulticast, isUnspecified, contains_of, Version.bits, contains_cons,
    contains_nil, Bool.or_eq_true, Bool.and_eq_true, beq_iff_eq, Address.mk.injEq, true_and,
    reduceCtorEq, false_and, false_or, or_false, Bool.false_eq_true] at h
  rcases h with (((hmetadata | hone) | hlocal) | hmany) | hzero
  · exact hnamed (by rw [hmetadata]; decide +kernel)
  · exact hnamed (by rw [hone]; decide +kernel)
  · obtain ⟨rest, hrest⟩ := ipv6_text_first (v := v) (by omega)
    exact hlink (by rw [hrest]; exact link_local_text (by omega) rest)
  · obtain ⟨rest, hrest⟩ := ipv6_text_first (v := v) (by omega)
    exact hmulticast (by rw [hrest]; exact multicast_text (by omega) rest)
  · exact hnamed (by rw [hzero]; decide +kernel)

/-! ## Hidden addresses -/

/-- The text of an address hides the IPv4 address in it: it is mapped, or a 6to4 address of which a
piece with the IPv4 address is compressed. -/
def IsHidden (a : Address) : Prop :=
  a.ipv4Mapped ≠ none ∨
    (a.sixtofour ≠ none ∧
      (compressedAt (pieces a.value) = some 1 ∨ compressedAt (pieces a.value) = some 2))

/-- A text that is none of the special ones is blocked as a 6to4 address only. -/
theorem colons_blocked_eq {host : List Char} (hfirst : host.head? ≠ some 'f')
    (hnames : host ∉ ["::1".toList, "0:0:0:0:0:0:0:1".toList, "::".toList]) (hdot : '.' ∉ host)
    (again : List Char → Bool) : colonsBlocked again host = (sixToFour host).any again := by
  simp only [mem_cons, not_mem_nil, or_false, not_or] at hnames
  have hmetadata : host ≠ "fd00:ec2::254".toList := by
    rintro rfl
    exact hfirst rfl
  have hlink : isLinkLocalText host = false := by
    unfold isLinkLocalText
    split
    · exact absurd rfl hfirst
    · rfl
  have hmulticast : isMulticastText host = false := by
    unfold isMulticastText
    split
    · exact absurd rfl hfirst
    · rfl
  unfold colonsBlocked
  simp only [beq_eq_false_iff_ne.mpr hnames.1, beq_eq_false_iff_ne.mpr hnames.2.1,
    beq_eq_false_iff_ne.mpr hnames.2.2, beq_eq_false_iff_ne.mpr hmetadata, hlink, hmulticast,
    no_mapped_quad hdot, Bool.or_self, Bool.false_eq_true, if_false]
  cases sixToFour host <;> rfl

theorem no_dot (v : Nat) : '.' ∉ ipv6Text v := by
  intro hmem
  rcases ipv6_text_char hmem with h | h
  · cases h
  · revert h
    decide

theorem mapped_text (h : v / 2 ^ 32 = 0xFFFF) : ∃ rest, ipv6Text v = ':' :: ':' :: 'f' :: rest := by
  have hpieces : pieces v = [0, 0, 0, 0, 0, 0xFFFF, v / 2 ^ 16 % 65536, v % 65536] := by
    simp only [pieces, List.cons.injEq, and_true]
    omega
  have hstart : ∀ x y, compressedAt [0, 0, 0, 0, 0, 0xFFFF, x, y] = some 0 := by
    intro x y
    by_cases hx : x = 0 <;> by_cases hy : y = 0 <;> simp [compressedAt, longestRun, hx, hy]
  rw [ipv6Text, hpieces, piecesText, hstart]
  exact ⟨_, rfl⟩

theorem mapped_open (h : v / 2 ^ 32 = 0xFFFF) (again : List Char → Bool) :
    colonsBlocked again (ipv6Text v) = false := by
  obtain ⟨rest, hrest⟩ := mapped_text h
  have hdot := no_dot v
  rw [hrest] at hdot ⊢
  rw [colons_blocked_eq (by simp) (by simp) hdot]
  rfl

theorem six_to_four_blocked (hsix : v / 2 ^ 112 = 0x2002) (again : List Char → Bool) :
    colonsBlocked again (ipv6Text v) =
      if compressedAt (pieces v) = some 1 ∨ compressedAt (pieces v) = some 2 then false
      else again (ipv4Text (v / 2 ^ 80 % 2 ^ 32)) := by
  have hfirst : v / 2 ^ 112 % 65536 = 0x2002 := by omega
  have hdot := no_dot v
  have hq : v / 2 ^ 96 % 65536 < 65536 := by omega
  have hr : v / 2 ^ 80 % 65536 < 65536 := by omega
  have hhead : hexText 0x2002 = ['2', '0', '0', '2'] := by decide
  have heq : colonsBlocked again (ipv6Text v) = (sixToFour (ipv6Text v)).any again := by
    obtain ⟨rest, hrest⟩ := ipv6_text_first (v := v) (by omega)
    rw [hfirst] at hrest
    rw [hrest] at hdot ⊢
    exact colons_blocked_eq (by simp [hhead]) (by simp [hhead]) hdot again
  rw [heq, ipv6Text]
  obtain ⟨hone, htwo, hwritten⟩ := pieces_text_three (p := v / 2 ^ 112 % 65536)
    (q := v / 2 ^ 96 % 65536) (r := v / 2 ^ 80 % 65536)
    (l := [v / 2 ^ 64 % 65536, v / 2 ^ 48 % 65536, v / 2 ^ 32 % 65536, v / 2 ^ 16 % 65536, v % 65536])
    (by omega)
  rw [hfirst] at hone htwo hwritten
  have hpieces : pieces v = 0x2002 :: v / 2 ^ 96 % 65536 :: v / 2 ^ 80 % 65536 ::
      [v / 2 ^ 64 % 65536, v / 2 ^ 48 % 65536, v / 2 ^ 32 % 65536, v / 2 ^ 16 % 65536, v % 65536] := by
    rw [pieces, hfirst]
  rw [← hpieces] at hone htwo hwritten
  by_cases hstart : compressedAt (pieces v) = some 1
  · obtain ⟨rest, hrest⟩ := hone hstart
    rw [if_pos (.inl hstart)]
    rw [hrest, (six_to_four_compressed hq rest).1]
    rfl
  by_cases hstart' : compressedAt (pieces v) = some 2
  · obtain ⟨rest, hrest⟩ := htwo hstart'
    rw [if_pos (.inr hstart')]
    rw [hrest, (six_to_four_compressed hq rest).2]
    rfl
  · obtain ⟨rest, hrest, hcolon⟩ := hwritten hstart hstart'
    rw [if_neg (not_or.mpr ⟨hstart, hstart'⟩)]
    have hvalue : v / 2 ^ 96 % 65536 * 65536 + v / 2 ^ 80 % 65536 = v / 2 ^ 80 % 2 ^ 32 := by omega
    rw [hrest, six_to_four_text hq hr hcolon, hvalue]
    rfl

/-- An address that the connection guard refuses is blocked when it is registered, unless its text
hides it. -/
theorem blocked_iff_not_hidden {a : Address} (ha : a.value < 2 ^ a.version.bits)
    (h : isRefused (unwrapped a) = true) :
    isAlwaysBlockedHost U (hostText a) = true ↔ ¬ IsHidden a := by
  obtain ⟨version, v⟩ := a
  cases version with
  | v4 =>
    have hshown : ¬ IsHidden ⟨.v4, v⟩ := by simp [IsHidden, ipv4Mapped, sixtofour]
    refine iff_of_true ?_ hshown
    exact (always_blocked_ipv4 _ v).trans (octets_blocked_of_refused h)
  | v6 =>
    have hbody : isAlwaysBlockedHost U (hostText ⟨.v6, v⟩) =
        colonsBlocked (isAlwaysBlockedHostWith U fun _ => false) (ipv6Text v) :=
      always_blocked_ipv6 _ (colon_mem v)
    rw [hbody]
    by_cases hmapped : v / 2 ^ 32 = 0xFFFF
    · have hsome : (⟨.v6, v⟩ : Address).ipv4Mapped ≠ none := by
        rw [show (⟨.v6, v⟩ : Address).ipv4Mapped = some _ from if_pos hmapped]
        exact Option.some_ne_none _
      have hhidden : IsHidden ⟨.v6, v⟩ := .inl hsome
      exact iff_of_false (by rw [mapped_open hmapped]; exact Bool.false_ne_true)
        (not_not_intro hhidden)
    · have hnone : (⟨.v6, v⟩ : Address).ipv4Mapped = none := if_neg hmapped
      by_cases hsix : v / 2 ^ 112 = 0x2002
      · have hsome : (⟨.v6, v⟩ : Address).sixtofour ≠ none := by
          rw [show (⟨.v6, v⟩ : Address).sixtofour = some _ from if_pos hsix]
          exact Option.some_ne_none _
        rw [unwrapped_sixtofour hmapped hsix] at h
        rw [six_to_four_blocked hsix, always_blocked_ipv4, octets_blocked_of_refused h]
        simp [IsHidden, hnone, hsome]
      · have hnot : (⟨.v6, v⟩ : Address).sixtofour = none := if_neg hsix
        rw [unwrapped_other hmapped hsix] at h
        exact iff_of_true (colons_blocked_of_refused h _) (by simp [IsHidden, hnone, hnot])

/-! ## Endpoints -/

/-- The endpoint has the form that one of the two guards asks for. -/
def IsWellFormed (urlString : List Char) (url : Url) : Prop :=
  backslash ∉ urlString ∧
    (url.protocol = "https:".toList ∨ url.protocol = "http:".toList ∧ ¬ url.hasExtras)

theorem if_throw_ok {c : Prop} [Decidable c] {e : String} {rest : Except String Unit} :
    (if c then throw e else rest) = .ok () ↔ ¬ c ∧ rest = .ok () := by
  by_cases h : c
  · rw [if_pos h]
    exact ⟨nofun, fun hrest => absurd h hrest.1⟩
  · rw [if_neg h]
    exact ⟨fun hrest => ⟨h, hrest⟩, fun hrest => hrest.2⟩

variable {parse : List Char → Option Url} {urlString : List Char} {url : Url}

theorem datasource_allowed_iff (hparse : parse urlString = some url) :
    assertDatasourceEndpointAllowed U parse urlString = .ok () ↔
      backslash ∉ urlString ∧ ¬ url.hasExtras ∧
        (url.protocol = "http:".toList ∨ url.protocol = "https:".toList) ∧
        isAlwaysBlockedHost U url.hostname = false := by
  unfold assertDatasourceEndpointAllowed
  rw [if_throw_ok]
  simp only [hparse]
  rw [if_throw_ok, if_throw_ok, if_throw_ok]
  have hdone : (return () : Except String Unit) = .ok () := rfl
  simp only [hdone, and_true, not_and_or, not_not, ne_eq, Bool.not_eq_true]

theorem egress_allowed_iff (hparse : parse urlString = some url) :
    assertEgressEndpointAllowed U parse true urlString = .ok () ↔
      backslash ∉ urlString ∧ url.protocol = "https:".toList ∧
        isAlwaysBlockedHost U url.hostname = false := by
  unfold assertEgressEndpointAllowed
  rw [if_throw_ok]
  simp only [hparse]
  rw [if_throw_ok, if_throw_ok, if_throw_ok]
  have hdone : (return () : Except String Unit) = .ok () := rfl
  simp [hdone]

theorem allowed_iff (hparse : parse urlString = some url) :
    (assertDatasourceEndpointAllowed U parse urlString = .ok () ∨
        assertEgressEndpointAllowed U parse true urlString = .ok ()) ↔
      IsWellFormed urlString url ∧ isAlwaysBlockedHost U url.hostname = false := by
  rw [datasource_allowed_iff hparse, egress_allowed_iff hparse, IsWellFormed]
  tauto

/-- The registration guards are as strict as the connection guard about an address just when the
endpoint has not their form, or the text of the address does not hide a refused one. -/
theorem registration_guard_strict (U : Unicode) (parse : List Char → Option Url)
    (urlString : List Char) (url : Url) (a : Address) (hparse : parse urlString = some url)
    (ha : a.value < 2 ^ a.version.bits) (hhost : url.hostname = hostText a) :
    ((assertDatasourceEndpointAllowed U parse urlString = .ok () ∨
          assertEgressEndpointAllowed U parse true urlString = .ok ()) →
        isRefused (unwrapped a) = false) ↔
      ¬ (IsWellFormed urlString url ∧ IsHidden a ∧ isRefused (unwrapped a) = true) := by
  rw [allowed_iff hparse, hhost]
  cases hrefused : isRefused (unwrapped a) with
  | false => simp
  | true =>
    have hiff := blocked_iff_not_hidden (U := U) ha hrefused
    cases hblocked : isAlwaysBlockedHost U (hostText a) with
    | true =>
      have hshown : ¬ IsHidden a := hiff.mp hblocked
      simp [hshown]
    | false =>
      have hhidden : IsHidden a := by
        by_contra h
        rw [hiff.mpr h] at hblocked
        cases hblocked
      simp [hhidden]

/-- `http://[::ffff:169.254.169.254]`, as the URL parser reads it. -/
def mappedUrl : Url where
  protocol := "http:".toList
  username := []
  password := []
  hostname := "[::ffff:a9fe:a9fe]".toList
  search := []
  hash := []

/-- `169.254.169.254`, mapped into IPv6. -/
def mappedMetadata : Address :=
  ⟨.v6, 0xFFFF * 2 ^ 32 + 0xA9FEA9FE⟩

theorem registration_guard_strict_mapped :
    ((assertDatasourceEndpointAllowed .ascii (fun _ => some mappedUrl)
            "http://[::ffff:169.254.169.254]".toList = .ok () ∨
          assertEgressEndpointAllowed .ascii (fun _ => some mappedUrl) true
            "http://[::ffff:169.254.169.254]".toList = .ok ()) →
        isRefused (unwrapped mappedMetadata) = false) ↔
      ¬ (IsWellFormed "http://[::ffff:169.254.169.254]".toList mappedUrl ∧ IsHidden mappedMetadata ∧
        isRefused (unwrapped mappedMetadata) = true) :=
  registration_guard_strict .ascii (fun _ => some mappedUrl) _ mappedUrl mappedMetadata rfl
    (by decide +kernel) (by decide +kernel)

theorem registration_guard_accepts_metadata : mappedUrl.hostname = hostText mappedMetadata ∧
      assertDatasourceEndpointAllowed .ascii (fun _ => some mappedUrl)
        "http://[::ffff:169.254.169.254]".toList = .ok () ∧
      isRefused (unwrapped mappedMetadata) = true := by
  refine ⟨by decide +kernel, by decide +kernel, by decide +kernel⟩

end AwsOps.Egress
