import AwsOps.Foundation.IpAddress

/-!
# Address literals

The texts that the URL standard writes addresses as, and the special ranges and embedded IPv4
addresses of the `ipaddress` module. An IPv6 address is written as its eight pieces in lower-case
hexadecimal, with the first longest run of zeros compressed (`ipv6Text`).
-/

namespace AwsOps.IpAddress

open List Text Network

/-! ## Texts -/

/-- Texts with a separator between them. -/
def joined (sep : Char) : List (List Char) → List Char
  | [] => []
  | [text] => text
  | text :: rest => text ++ sep :: joined sep rest

/-- A number below 1000 in decimal. -/
def decimalText (n : Nat) : List Char :=
  if n < 10 then [Nat.digitChar n]
  else if n < 100 then [Nat.digitChar (n / 10), Nat.digitChar (n % 10)]
  else [Nat.digitChar (n / 100), Nat.digitChar (n / 10 % 10), Nat.digitChar (n % 10)]

/-- A number below 65536 in lower-case hexadecimal. -/
def hexText (n : Nat) : List Char :=
  if n < 16 then [Nat.digitChar n]
  else if n < 256 then [Nat.digitChar (n / 16), Nat.digitChar (n % 16)]
  else if n < 4096 then
    [Nat.digitChar (n / 256), Nat.digitChar (n / 16 % 16), Nat.digitChar (n % 16)]
  else
    [Nat.digitChar (n / 4096), Nat.digitChar (n / 256 % 16), Nat.digitChar (n / 16 % 16),
      Nat.digitChar (n % 16)]

/-- The octets of an IPv4 address. -/
def octets (v : Nat) : List Nat :=
  [v / 2 ^ 24 % 256, v / 2 ^ 16 % 256, v / 2 ^ 8 % 256, v % 256]

/-- The text of an IPv4 address. -/
def ipv4Text (v : Nat) : List Char :=
  joined '.' ((octets v).map decimalText)

/-- The pieces of an IPv6 address. -/
def pieces (v : Nat) : List Nat :=
  [v / 2 ^ 112 % 65536, v / 2 ^ 96 % 65536, v / 2 ^ 80 % 65536, v / 2 ^ 64 % 65536,
    v / 2 ^ 48 % 65536, v / 2 ^ 32 % 65536, v / 2 ^ 16 % 65536, v % 65536]

/-- The search for the compressed pieces: the index, the longest run so far, of at least two zeros,
and the run that is being read, each with its start and its size. -/
def longestRun : Nat → Option Nat × Nat → Option Nat × Nat → List Nat → Option Nat
  | _, longest, found, [] => if longest.2 < found.2 then found.1 else longest.1
  | i, longest, found, p :: rest =>
    if p ≠ 0 then
      longestRun (i + 1) (if longest.2 < found.2 then found else longest) (none, 0) rest
    else longestRun (i + 1) longest (found.1.or (some i), found.2 + 1) rest

/-- The start of the compressed pieces. -/
def compressedAt (ps : List Nat) : Option Nat :=
  longestRun 0 (none, 1) (none, 0) ps

def piecesText (ps : List Nat) : List Char :=
  match compressedAt ps with
  | none => joined ':' (ps.map hexText)
  | some start =>
    joined ':' ((ps.take start).map hexText) ++
      ':' :: ':' :: joined ':' (((ps.drop start).dropWhile (· == 0)).map hexText)

/-- The text of an IPv6 address. -/
def ipv6Text (v : Nat) : List Char :=
  piecesText (pieces v)

/-- A character of a hexadecimal text. -/
def isHexChar (c : Char) : Bool :=
  c.isDigit || ('a' ≤ c && c ≤ 'f')

theorem digit_char_hex : ∀ n : Fin 16, isHexChar (Nat.digitChar n) = true := by
  decide

theorem hex_text_chars {n : Nat} (hn : n < 65536) {c : Char} (hc : c ∈ hexText n) :
    isHexChar c = true := by
  have hdigit : ∀ d, d < 16 → isHexChar (Nat.digitChar d) = true := fun d hd => digit_char_hex ⟨d, hd⟩
  unfold hexText at hc
  split at hc
  · next h =>
      obtain rfl := mem_singleton.mp hc
      exact hdigit n h
  split at hc
  · simp only [mem_cons, not_mem_nil, or_false] at hc
    rcases hc with rfl | rfl <;> exact hdigit _ (by omega)
  split at hc
  · simp only [mem_cons, not_mem_nil, or_false] at hc
    rcases hc with rfl | rfl | rfl <;> exact hdigit _ (by omega)
  · simp only [mem_cons, not_mem_nil, or_false] at hc
    rcases hc with rfl | rfl | rfl | rfl <;> exact hdigit _ (by omega)

theorem hex_text_length (n : Nat) : 1 ≤ (hexText n).length ∧ (hexText n).length ≤ 4 := by
  unfold hexText
  split
  · exact ⟨Nat.le_refl 1, by simp⟩
  split
  · simp
  split <;> simp

theorem mem_joined {sep c : Char} {texts : List (List Char)} (h : c ∈ joined sep texts) :
    c = sep ∨ ∃ text ∈ texts, c ∈ text := by
  induction texts with
  | nil => cases h
  | cons text rest ih =>
    cases rest with
    | nil => exact .inr ⟨text, mem_cons_self, h⟩
    | cons other rest =>
      rw [joined] at h
      · rcases mem_append.mp h with hmem | hmem
        · exact .inr ⟨text, mem_cons_self, hmem⟩
        · rcases mem_cons.mp hmem with rfl | hmem
          · exact .inl rfl
          · rcases ih hmem with hsep | ⟨inner, hinner, hc⟩
            · exact .inl hsep
            · exact .inr ⟨inner, mem_cons_of_mem _ hinner, hc⟩
      · exact cons_ne_nil _ _

variable {ps : List Nat}

theorem pieces_text_chars (hps : ∀ p ∈ ps, p < 65536) {c : Char}
    (hc : c ∈ piecesText ps) : c = ':' ∨ isHexChar c = true := by
  have hpart : ∀ qs : List Nat, (∀ p ∈ qs, p ∈ ps) → c ∈ joined ':' (qs.map hexText) →
      c = ':' ∨ isHexChar c = true := by
    intro qs hsub hmem
    rcases mem_joined hmem with rfl | ⟨text, htext, hmem⟩
    · exact .inl rfl
    · obtain ⟨p, hp, rfl⟩ := mem_map.mp htext
      exact .inr (hex_text_chars (hps p (hsub p hp)) hmem)
  unfold piecesText at hc
  split at hc
  · exact hpart ps (fun _ h => h) hc
  · rcases mem_append.mp hc with hmem | hmem
    · exact hpart _ (fun _ h => mem_of_mem_take h) hmem
    · simp only [mem_cons] at hmem
      rcases hmem with rfl | rfl | hmem
      · exact .inl rfl
      · exact .inl rfl
      · refine hpart _ (fun p h => ?_) hmem
        exact mem_of_mem_drop ((dropWhile_sublist _).subset h)

theorem pieces_lt {v p : Nat} (h : p ∈ pieces v) : p < 65536 := by
  simp only [pieces, mem_cons, not_mem_nil, or_false] at h
  omega

theorem joined_cons (sep : Char) (text : List Char) (rest : List (List Char)) :
    ∃ tail, joined sep (text :: rest) = text ++ tail ∧ tail.head?.all (· == sep) = true := by
  cases rest with
  | nil => exact ⟨[], (append_nil text).symm, rfl⟩
  | cons other rest => exact ⟨sep :: joined sep (other :: rest), rfl, by simp⟩

/-- The start of the compressed pieces is that of a run, or comes after those that were read. -/
theorem longest_run_start {i s : Nat} {longest found : Option Nat × Nat}
    (h : longestRun i longest found ps = some s) : longest.1 = some s ∨ found.1 = some s ∨ i ≤ s := by
  induction ps generalizing i longest found with
  | nil =>
    rw [longestRun] at h
    split at h
    · exact .inr (.inl h)
    · exact .inl h
  | cons p ps ih =>
    rw [longestRun] at h
    split at h
    · rcases ih h with hlongest | hfound | hle
      · split at hlongest
        · exact .inr (.inl hlongest)
        · exact .inl hlongest
      · cases hfound
      · exact .inr (.inr (by omega))
    · rcases ih h with hlongest | hfound | hle
      · exact .inl hlongest
      · cases hstart : found.1 with
        | some start =>
          rw [hstart] at hfound
          exact .inr (.inl hfound)
        | none =>
          rw [hstart] at hfound
          exact .inr (.inr (by have := Option.some.inj hfound; omega))
      · exact .inr (.inr (by omega))

theorem compressed_at_pos {p s : Nat} (hp : p ≠ 0)
    (h : compressedAt (p :: ps) = some s) : 1 ≤ s := by
  rw [compressedAt, longestRun, if_pos hp] at h
  rcases longest_run_start h with h | h | h
  · cases h
  · cases h
  · exact h

/-- A first piece that is not zero is written, and a colon follows it. -/
theorem pieces_text_first {p q : Nat} (hp : p ≠ 0) :
    ∃ rest, piecesText (p :: q :: ps) = hexText p ++ ':' :: rest := by
  unfold piecesText
  split
  · exact ⟨_, rfl⟩
  · next s hs =>
      obtain ⟨s, rfl⟩ := Nat.exists_eq_succ_of_ne_zero (Nat.ne_of_gt (compressed_at_pos hp hs))
      rw [take_succ_cons, map_cons]
      obtain ⟨tail, htail, hhead⟩ := joined_cons ':' (hexText p) ((List.take s (q :: ps)).map hexText)
      rw [htail, append_assoc]
      cases tail with
      | nil => exact ⟨_, rfl⟩
      | cons c tail =>
        obtain rfl : c = ':' := by simpa using hhead
        exact ⟨_, rfl⟩

/-- The second and the third piece are written, unless the compressed pieces start there. -/
theorem pieces_text_three {p q r : Nat} {l : List Nat} (hp : p ≠ 0) :
    (compressedAt (p :: q :: r :: l) = some 1 →
      ∃ rest, piecesText (p :: q :: r :: l) = hexText p ++ ':' :: ':' :: rest) ∧
    (compressedAt (p :: q :: r :: l) = some 2 →
      ∃ rest, piecesText (p :: q :: r :: l) = hexText p ++ ':' :: (hexText q ++ ':' :: ':' :: rest)) ∧
    (compressedAt (p :: q :: r :: l) ≠ some 1 → compressedAt (p :: q :: r :: l) ≠ some 2 →
      ∃ rest, piecesText (p :: q :: r :: l) =
          hexText p ++ ':' :: (hexText q ++ ':' :: (hexText r ++ rest)) ∧
        rest.head?.all (· == ':') = true) := by
  refine ⟨fun h => ?_, fun h => ?_, fun hone htwo => ?_⟩
  · rw [piecesText, h]
    exact ⟨_, rfl⟩
  · rw [piecesText, h]
    exact ⟨joined ':' (((r :: l).dropWhile (· == 0)).map hexText), by simp [joined]⟩
  · unfold piecesText
    split
    · obtain ⟨tail, htail, hhead⟩ := joined_cons ':' (hexText r) (l.map hexText)
      refine ⟨tail, ?_, hhead⟩
      show hexText p ++ ':' :: (hexText q ++ ':' :: joined ':' (hexText r :: l.map hexText)) = _
      rw [htail]
    · next s hs =>
        have hpos := compressed_at_pos hp hs
        obtain ⟨s, rfl⟩ : ∃ n, s = n + 3 := by
          refine ⟨s - 3, ?_⟩
          have : s ≠ 1 := fun h => hone (h ▸ hs)
          have : s ≠ 2 := fun h => htwo (h ▸ hs)
          omega
        obtain ⟨tail, htail, hhead⟩ := joined_cons ':' (hexText r) ((l.take s).map hexText)
        generalize joined ':' (((List.drop (s + 3) (p :: q :: r :: l)).dropWhile (· == 0)).map
          hexText) = back
        refine ⟨tail ++ ':' :: ':' :: back, ?_, ?_⟩
        · show hexText p ++ ':' :: (hexText q ++ ':' :: joined ':' (hexText r :: (l.take s).map hexText))
            ++ ':' :: ':' :: back = _
          rw [htail]
          simp
        · cases tail with
          | nil => rfl
          | cons c tail => exact hhead

/-! ## Special ranges -/

theorem contains_of (network address : Address) (n : Nat) : (of network n).contains address =
      (address.version == network.version && address.value / 2 ^ (network.version.bits - n) ==
          network.value / 2 ^ (network.version.bits - n)) := by
  have hpos : 0 < 2 ^ (network.version.bits - n) := Nat.two_pow_pos _
  have hsame : ∀ a b : Nat, (maskTo network.version.bits n a == maskTo network.version.bits n b) =
      (a / 2 ^ (network.version.bits - n) == b / 2 ^ (network.version.bits - n)) := by
    intro a b
    rw [Bool.eq_iff_iff, beq_iff_eq, beq_iff_eq]
    exact Nat.mul_left_inj hpos.ne'
  show (address.version == network.version &&
    maskTo network.version.bits n address.value == maskTo network.version.bits n network.value) = _
  rw [hsame]

/-- The address `a.b.c.d`. -/
def quad (a b c d : Nat) : Address :=
  ⟨.v4, ((a * 256 + b) * 256 + c) * 256 + d⟩

/-- The IPv6 address whose first piece is given, and the others are zero. -/
def leading (piece : Nat) : Address :=
  ⟨.v6, piece * 2 ^ 112⟩

def Address.isLoopback (a : Address) : Bool :=
  match a.version with
  | .v4 => (of (quad 127 0 0 0) 8).contains a
  | .v6 => a.value == 1

def Address.isLinkLocal (a : Address) : Bool :=
  match a.version with
  | .v4 => (of (quad 169 254 0 0) 16).contains a
  | .v6 => (of (leading 0xfe80) 10).contains a

def Address.isMulticast (a : Address) : Bool :=
  match a.version with
  | .v4 => (of (quad 224 0 0 0) 4).contains a
  | .v6 => (of (leading 0xff00) 8).contains a

def Address.isUnspecified (a : Address) : Bool :=
  a.value == 0

/-- The reserved IPv6 networks: their first pieces and prefix lengths. -/
def reservedNetworks : List (Nat × Nat) :=
  [(0x0000, 8), (0x0100, 8), (0x0200, 7), (0x0400, 6), (0x0800, 5), (0x1000, 4), (0x4000, 3),
    (0x6000, 3), (0x8000, 3), (0xA000, 3), (0xC000, 3), (0xE000, 4), (0xF000, 5), (0xF800, 6),
    (0xFE00, 9)]

def Address.isReserved (a : Address) : Bool :=
  match a.version with
  | .v4 => (of (quad 240 0 0 0) 4).contains a
  | .v6 => reservedNetworks.any fun (piece, n) => (of (leading piece) n).contains a

/-- `ipv4_mapped`: the IPv4 address in `::ffff:0:0/96`. -/
def Address.ipv4Mapped (a : Address) : Option Address :=
  match a.version with
  | .v4 => none
  | .v6 => if a.value / 2 ^ 32 = 0xFFFF then some ⟨.v4, a.value % 2 ^ 32⟩ else none

/-- `sixtofour`: the IPv4 address in `2002::/16`. -/
def Address.sixtofour (a : Address) : Option Address :=
  match a.version with
  | .v4 => none
  | .v6 => if a.value / 2 ^ 112 = 0x2002 then some ⟨.v4, a.value / 2 ^ 80 % 2 ^ 32⟩ else none

end AwsOps.IpAddress
