import AwsOps.Foundation.Json

/-!
# JSON documents in several languages

A JSON value over a type of numbers, and its text in a format: the separators, the escapes of a
string and the text of a number differ between languages. The fields of an object are in insertion
order. A text is measured in the bytes of its UTF-8 form.
-/

namespace AwsOps

/-- A JSON value. -/
inductive Doc (ν : Type)
  | null
  | bool (value : Bool)
  | num (value : ν)
  | str (value : String)
  | arr (items : List (Doc ν))
  | obj (fields : List (String × Doc ν))

namespace Doc

variable {ν : Type}

/-- The fields of an object. -/
abbrev Fields (ν : Type) : Type :=
  List (String × Doc ν)

/-- The value of a field, if there is one. -/
def get : Fields ν → String → Option (Doc ν)
  | [], _ => none
  | (name, value) :: rest, key => if name = key then some value else get rest key

/-- Set a field where it stands. A new one comes last. -/
def put : Fields ν → String → Doc ν → Fields ν
  | [], key, value => [(key, value)]
  | (name, old) :: rest, key, value =>
    if name = key then (name, value) :: rest else (name, old) :: put rest key value

@[simp] theorem get_put (fields : Fields ν) (key : String) (value : Doc ν) :
    get (put fields key value) key = some value := by
  induction fields with
  | nil => exact if_pos rfl
  | cons field rest ih =>
    obtain ⟨name, old⟩ := field
    unfold put
    split
    case isTrue hname => exact if_pos hname
    case isFalse hname =>
      show (if name = key then _ else _) = _
      rw [if_neg hname, ih]

theorem get_put_ne {key other : String} (h : other ≠ key) (fields : Fields ν) (value : Doc ν) :
    get (put fields key value) other = get fields other := by
  induction fields with
  | nil => exact if_neg (Ne.symm h)
  | cons field rest ih =>
    obtain ⟨name, old⟩ := field
    unfold put
    split
    case isTrue hname =>
      have hne : name ≠ other := fun heq => h (heq ▸ hname)
      show (if name = other then _ else _) = (if name = other then _ else _)
      rw [if_neg hne, if_neg hne]
    case isFalse =>
      show (if name = other then _ else _) = (if name = other then _ else _)
      rw [ih]

@[simp] theorem put_put (fields : Fields ν) (key : String) (value value' : Doc ν) :
    put (put fields key value) key value' = put fields key value' := by
  induction fields with
  | nil => exact if_pos rfl
  | cons field rest ih =>
    obtain ⟨name, old⟩ := field
    by_cases hname : name = key
    · simp only [put, if_pos hname]
    · simp only [put, if_neg hname, ih]

theorem put_get {fields : Fields ν} {key : String} {value : Doc ν}
    (h : get fields key = some value) : put fields key value = fields := by
  induction fields with
  | nil => cases h
  | cons field rest ih =>
    obtain ⟨name, old⟩ := field
    by_cases hname : name = key
    · have hold : old = value := by simpa [get, hname] using h
      simp only [put, if_pos hname, hold]
    · have hrest : get rest key = some value := by simpa [get, hname] using h
      simp only [put, if_neg hname, ih hrest]

/-- Induction over the items of an array and the values of an object. -/
@[elab_as_elim] theorem ind {motive : Doc ν → Prop} (null : motive .null)
    (bool : ∀ b, motive (.bool b)) (num : ∀ n, motive (.num n)) (str : ∀ s, motive (.str s))
    (arr : ∀ items, (∀ item ∈ items, motive item) → motive (.arr items))
    (obj : ∀ fields : Fields ν, (∀ field ∈ fields, motive field.2) → motive (.obj fields)) :
    ∀ v, motive v := by
  refine @Doc.rec ν motive (fun items => ∀ item ∈ items, motive item)
    (fun fields => ∀ field ∈ fields, motive field.2) (fun field => motive field.2)
    null bool num str arr obj ?_ ?_ ?_ ?_ ?_
  · exact fun _ h => absurd h List.not_mem_nil
  · intro item rest hitem hrest
    exact List.forall_mem_cons.mpr ⟨hitem, hrest⟩
  · exact fun _ h => absurd h List.not_mem_nil
  · intro field rest hfield hrest
    exact List.forall_mem_cons.mpr ⟨hfield, hrest⟩
  · exact fun _ _ h => h

/-! ## Texts -/

/-- How a language writes JSON. -/
structure Format (ν : Type) where
  item : List Char
  key : List Char
  escape : Char → List Char
  number : ν → List Char

mutual
/-- The text of a value. -/
def write (F : Format ν) : Doc ν → List Char
  | .null => "null".toList
  | .bool b => if b then "true".toList else "false".toList
  | .num n => F.number n
  | .str s => Json.quoted F.escape s
  | .arr items => '[' :: List.intercalate F.item (writeItems F items) ++ [']']
  | .obj fields => '{' :: List.intercalate F.item (writeFields F fields) ++ ['}']

/-- The texts of the items of an array. -/
def writeItems (F : Format ν) : List (Doc ν) → List (List Char)
  | [] => []
  | first :: rest => write F first :: writeItems F rest

/-- The texts of the fields of an object. -/
def writeFields (F : Format ν) : List (String × Doc ν) → List (List Char)
  | [] => []
  | (name, value) :: rest =>
    (Json.quoted F.escape name ++ F.key ++ write F value) :: writeFields F rest
end

/-- `JSON.stringify`, with the text of a number. -/
def stringifyFormat (number : ν → List Char) : Format ν :=
  { item := [','], key := [':'], escape := Json.stringifyChar, number }

/-- `json.dumps`, with the text of a number. -/
def dumpsFormat (number : ν → List Char) : Format ν :=
  { item := [',', ' '], key := [':', ' '], escape := Json.escapeChar, number }

/-- The length of the UTF-8 form of a text. -/
def bytes (text : List Char) : Nat :=
  (text.map Char.utf8Size).sum

@[simp] theorem bytes_nil : bytes [] = 0 :=
  rfl

@[simp] theorem bytes_cons (c : Char) (text : List Char) :
    bytes (c :: text) = c.utf8Size + bytes text := by
  simp [bytes]

@[simp] theorem bytes_append (text other : List Char) :
    bytes (text ++ other) = bytes text + bytes other := by
  simp [bytes]

theorem bytes_replicate (escape : Char → List Char) (n : Nat) (c : Char) :
    bytes ((List.replicate n c).flatMap escape) = n * bytes (escape c) := by
  induction n with
  | zero => simp
  | succ n ih =>
    rw [List.replicate_succ, List.flatMap_cons, bytes_append, ih, Nat.succ_mul, Nat.add_comm]

end Doc

end AwsOps
