import Mathlib.Data.List.Sort
import Mathlib.Data.String.Basic
import AwsOps.Foundation.Sha256
import AwsOps.Foundation.Text

/-!
# Migration files

The pure core of the migration runner: which names are migrations, which texts opt out of the
wrapping transaction or declare a release, the checksum of a text up to its line endings, and the
ids that are pending. What the runner loads from the directory has distinct, well-formed ids.
-/

namespace AwsOps.Migrate

open List

/-! ## Lines of a text -/

/-- The characters after which `^` matches. -/
def isLineTerminator (c : Char) : Bool :=
  [0xA, 0xD, 0x2028, 0x2029].contains c.toNat

/-- The text after a literal at its beginning, whatever the case of ASCII letters. -/
def after (fold : Char → Char) : List Char → List Char → Option (List Char)
  | [], s => some s
  | _ :: _, [] => none
  | p :: literal, c :: s => if fold p = fold c then after fold literal s else none

/-- The text without the white space at its beginning. -/
def skipSpace (s : List Char) : List Char :=
  s.dropWhile Text.isTrimmed

/-- The first match at the beginning of a line. -/
def firstLine {α : Type} (p : List Char → Option α) : Bool → List Char → Option α
  | start, [] => if start then p [] else none
  | start, c :: rest =>
    (if start then p (c :: rest) else none).orElse fun _ =>
      firstLine p (isLineTerminator c) rest

/-- A line comment that opts out of the transaction; no word character follows. -/
def noTransactionComment (s : List Char) : Option Unit := do
  let s ← after id "--".toList (skipSpace s)
  let s ← after id "migrate:no-transaction".toList (skipSpace s)
  if s.head?.any fun c => c.isAlphanum || c == '_' then none else some ()

/-- The migration opts out of the wrapping transaction. -/
def hasNoTxnFlag (sql : String) : Bool :=
  (firstLine noTransactionComment true sql.toList).isSome

/-- A line comment that declares a release. -/
def sinceComment (s : List Char) : Option String := do
  let s ← after id "--".toList (skipSpace s)
  let s ← after Char.toLower "since:".toList (skipSpace s)
  let release := (skipSpace s).takeWhile fun c => !Text.isTrimmed c
  if release = [] then none else some (String.ofList release)

/-- The release that the migration declares. -/
def parseSinceHeader (sql : String) : Option String :=
  firstLine sinceComment true sql.toList

/-! ## Checksums -/

/-- Each `\r\n` becomes `\n`. -/
def lineFeeds : List Char → List Char
  | c :: d :: rest =>
    if c.toNat = 13 ∧ d.toNat = 10 then d :: lineFeeds rest else c :: lineFeeds (d :: rest)
  | s => s

/-- The checksum of a text, which does not depend on its line endings. -/
def sha256 (sql : String) : String :=
  String.ofList (Sha256.hexDigest (lineFeeds sql.toList))

/-! ## Names -/

/-- A character of Crockford's base 32. -/
def isUlidChar (c : Char) : Bool :=
  c.isDigit || c.isAlpha && !"ILOU".toList.contains c.toUpper

/-- A well-formed id. -/
def validateId (id : String) : Bool :=
  id.toList.length == 26 && id.toList.all isUlidChar

/-- The id and the name of a migration file. -/
def parseMigrationFile (filename : String) : Option (String × String) :=
  let chars := filename.toList
  let id := String.ofList (chars.takeWhile fun c => c != '_')
  let rest := (chars.dropWhile fun c => c != '_').drop 1
  let name := rest.dropLast.dropLast.dropLast.dropLast
  if rest = name ++ ".sql".toList ∧ name ≠ [] ∧ name.all (fun c => !isLineTerminator c) ∧
      validateId id then
    some (id, String.ofList name)
  else none

/-- A file of the directory. -/
structure File where
  name : String
  content : String

/-- A migration with a well-formed id. -/
structure Migration where
  id : String
  name : String
  file : String
  sql : String
  valid : validateId id = true

/-- The release that a migration declares. -/
def Migration.since (m : Migration) : Option String :=
  parseSinceHeader m.sql

theorem parse_migration_file_valid {filename id name : String}
    (h : parseMigrationFile filename = some (id, name)) : validateId id = true := by
  unfold parseMigrationFile at h
  dsimp only at h
  split at h
  · rename_i hcond
    cases h
    exact hcond.2.2.2
  · cases h

def File.migration (f : File) : Option Migration :=
  match h : parseMigrationFile f.name with
  | some (id, name) => some ⟨id, name, f.name, f.content, parse_migration_file_valid h⟩
  | none => none

/-- Note an id in the ids that were seen and the duplicates among them. -/
def noteId (state : List String × List String) (id : String) : List String × List String :=
  if state.1.contains id then
    (state.1, if state.2.contains id then state.2 else state.2 ++ [id])
  else (state.1 ++ [id], state.2)

/-- The ids that occur more than once, each of them once. -/
def findDuplicateIds (ids : List String) : List String :=
  (ids.foldl noteId ([], [])).2

/-- `.join(', ')`. -/
def joined (items : List String) : String :=
  ", ".intercalate items

def loadMigrations (directory : List File) : Except String (List Migration) :=
  let files := (directory.filter fun f => ".sql".toList.isSuffixOf f.name.toList).insertionSort
    fun f g => f.name ≤ g.name
  let migrations := files.filterMap File.migration
  let duplicates := findDuplicateIds (migrations.map Migration.id)
  let badNames := (files.filter fun f => (parseMigrationFile f.name).isNone).map File.name
  if duplicates ≠ [] then
    .error s!"duplicate migration id(s): {joined duplicates} — ids must be unique (ULID)"
  else if badNames ≠ [] then
    .error s!"malformed migration filename(s) (need <ULID>_<name>.sql): {joined badNames}"
  else .ok migrations

/-! ## Pending ids -/

/-- Lexical order. -/
def sortIds (ids : List String) : List String :=
  ids.insertionSort fun a b => a ≤ b

/-- The ids of files that are not recorded, in order. -/
def computePending (fileIds appliedIds : List String) : List String :=
  sortIds (fileIds.filter fun id => !appliedIds.contains id)

theorem mem_compute_pending {fileIds appliedIds : List String} {id : String} :
    id ∈ computePending fileIds appliedIds ↔ id ∈ fileIds ∧ id ∉ appliedIds := by
  simp [computePending, sortIds]

theorem compute_pending_ascending {fileIds appliedIds : List String} (h : fileIds.Nodup) :
    (computePending fileIds appliedIds).Pairwise (· < ·) := by
  have hsorted : (computePending fileIds appliedIds).Pairwise (· ≤ ·) :=
    pairwise_insertionSort (fun a b : String => a ≤ b) _
  have hnodup : (computePending fileIds appliedIds).Nodup :=
    (perm_insertionSort _ _).nodup_iff.mpr (h.filter _)
  refine (hsorted.and hnodup).imp ?_
  intro a b hab
  exact lt_of_le_of_ne hab.1 hab.2

/-! ## Distinct ids -/

theorem note_id_of_seen {state : List String × List String} {id : String}
    (h : state.1.contains id = true) :
    (noteId state id).1 = state.1 ∧ (noteId state id).2 ≠ [] := by
  rw [noteId, if_pos h]
  refine ⟨rfl, ?_⟩
  dsimp only
  split
  · rename_i hduplicate
    intro hempty
    rw [hempty] at hduplicate
    cases hduplicate
  · simp

/-- As long as no duplicate turns up, the ids that were seen and the rest are distinct. -/
theorem note_ids_nodup {rest : List String} {state : List String × List String}
    (hnodup : state.1.Nodup) (hnone : (rest.foldl noteId state).2 = []) :
    (state.1 ++ rest).Nodup ∧ state.2 = [] := by
  induction rest generalizing state with
  | nil => exact ⟨by rwa [append_nil], hnone⟩
  | cons id rest ih =>
    rw [foldl_cons] at hnone
    by_cases hseen : state.1.contains id = true
    · have hstate := note_id_of_seen hseen
      have hempty := (ih (by rwa [hstate.1]) hnone).2
      exact absurd hempty hstate.2
    · have hstate : noteId state id = (state.1 ++ [id], state.2) := if_neg hseen
      rw [hstate] at hnone
      have hnew : (state.1 ++ [id]).Nodup := by
        refine nodup_append.mpr ⟨hnodup, nodup_singleton id, ?_⟩
        intro a ha b hb hab
        rw [mem_singleton.mp hb] at hab
        exact hseen (by simpa [hab] using ha)
      obtain ⟨hall, hempty⟩ := ih hnew hnone
      exact ⟨by simpa using hall, hempty⟩

theorem load_migrations_nodup {directory : List File} {migrations : List Migration}
    (h : loadMigrations directory = .ok migrations) : (migrations.map Migration.id).Nodup := by
  unfold loadMigrations at h
  dsimp only at h
  split at h
  · cases h
  · rename_i hduplicates
    split at h
    · cases h
    · cases h
      exact (note_ids_nodup nodup_nil (not_not.mp hduplicates)).1

end AwsOps.Migrate
