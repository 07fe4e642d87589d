import AwsOps.Foundation.Fallible

/-!
# Lists in pages

A service that lists its items page by page: a call without a marker answers the first page, a call
with the marker of the last answer the next one, and the answer of the last page has no marker. A
caller that follows the markers sees every page (`follow_eq`); one that calls once sees the first.
-/

namespace AwsOps.Paging

open List

variable {ε α β σ : Type}

/-- The pages of a list, each of which a call may fail to read. -/
structure Paged (ε α : Type) where
  first : Except ε (List α)
  behind : List (Except ε (List α))

namespace Paged

variable (p : Paged ε α)

def pages : List (Except ε (List α)) :=
  p.first :: p.behind

/-- One call: the items of a page and the marker of the next one. -/
def call (marker : Option Nat) : Except ε (List α × Option Nat) :=
  let i := marker.getD 0
  match p.pages[i]? with
  | none => .ok ([], none)
  | some page =>
    page.map fun items => (items, if i + 1 < p.pages.length then some (i + 1) else none)

/-- Call as long as there is a marker, and take the items one after the other. -/
def followFrom (step : σ → α → Except ε σ) : Nat → Option Nat → σ → Except ε σ
  | 0, _, s => .ok s
  | fuel + 1, marker, s => do
      let (items, next) ← p.call marker
      let s ← items.foldlM step s
      match next with
      | none => .ok s
      | some marker => followFrom step fuel (some marker) s

/-- Follow the markers from the first page on. -/
def follow (step : σ → α → Except ε σ) (s : σ) : Except ε σ :=
  p.followFrom step p.pages.length none s

end Paged

/-- The items of a page that can be read. -/
def itemsOf : Except ε (List α) → List α
  | .ok items => items
  | .error _ => []

def Paged.listed (p : Paged ε α) : List α :=
  p.pages.flatMap itemsOf

/-- What is listed behind the first page. -/
def Paged.later (p : Paged ε α) : List α :=
  p.behind.flatMap itemsOf

theorem Paged.listed_eq (p : Paged ε α) : p.listed = itemsOf p.first ++ p.later :=
  flatMap_cons

/-- The items of a page, taken one after the other. -/
def takePage (step : σ → α → Except ε σ) (s : σ) (page : Except ε (List α)) : Except ε σ :=
  page >>= fun items => items.foldlM step s

theorem Paged.follow_eq (p : Paged ε α) (step : σ → α → Except ε σ) (s : σ) :
    p.follow step s = p.pages.foldlM (takePage step) s := by
  have hfrom : ∀ fuel i s, i + fuel = p.pages.length → 0 < fuel → ∀ marker : Option Nat,
      marker.getD 0 = i →
        p.followFrom step fuel marker s = (p.pages.drop i).foldlM (takePage step) s := by
    intro fuel
    induction fuel with
    | zero => exact fun i s _ h => absurd h (Nat.lt_irrefl 0)
    | succ fuel ih =>
      intro i s hlength _ marker hmarker
      have hi : i < p.pages.length := by omega
      rw [drop_eq_getElem_cons hi, foldlM_cons]
      have hcall : p.call marker = p.pages[i].map fun items =>
          (items, if i + 1 < p.pages.length then some (i + 1) else none) := by
        unfold Paged.call
        dsimp only
        rw [hmarker, List.getElem?_eq_getElem hi]
      unfold Paged.followFrom takePage
      rw [hcall]
      cases p.pages[i] with
      | error e => rfl
      | ok items =>
        show (items.foldlM step s >>= _) = (items.foldlM step s >>= _)
        congr 1
        funext s'
        by_cases hnext : i + 1 < p.pages.length
        · simp only [if_pos hnext]
          exact ih (i + 1) s' (by omega) (by omega) (some (i + 1)) rfl
        · simp only [if_neg hnext]
          rw [drop_eq_nil_of_le (by omega)]
          rfl
  have hpos : 0 < p.pages.length := Nat.succ_pos _
  have hall := hfrom p.pages.length 0 s (Nat.zero_add _) hpos none rfl
  rwa [drop_zero] at hall

theorem foldlM_pages {step : σ → α → Except ε σ} {pages : List (Except ε (List α))} {s t : σ} :
    pages.foldlM (takePage step) s = .ok t ↔ (∀ page ∈ pages, ∃ items, page = .ok items) ∧
        (pages.flatMap itemsOf).foldlM step s = .ok t := by
  induction pages generalizing s with
  | nil => simp
  | cons page pages ih =>
    rw [foldlM_cons, bind_eq_ok, flatMap_cons, foldlM_append]
    cases page with
    | error e => simp [takePage, bind, Except.bind]
    | ok items =>
      simp only [mem_cons, forall_eq_or_imp, ih, itemsOf, takePage, ok_bind, bind_eq_ok]
      constructor
      · rintro ⟨s', hitems, hpages, hrest⟩
        exact ⟨⟨⟨items, rfl⟩, hpages⟩, s', hitems, hrest⟩
      · rintro ⟨⟨-, hpages⟩, s', hitems, hrest⟩
        exact ⟨s', hitems, hpages, hrest⟩

theorem foldlM_append {append : σ → β → σ} {part : α → Except ε β} {items : List α} {s t : σ} :
    items.foldlM (fun s a => (part a).map (append s)) s = .ok t ↔
      ∃ parts, items.mapM part = .ok parts ∧ t = parts.foldl append s := by
  induction items generalizing s with
  | nil =>
    simp only [foldlM_nil, mapM_nil, pure_eq_ok]
    constructor
    · exact fun h => ⟨[], rfl, h.symm⟩
    · rintro ⟨_, rfl, rfl⟩
      rfl
  | cons a items ih =>
    rw [foldlM_cons, mapM_cons]
    cases hpart : part a with
    | error e => simp [bind, Except.bind, Except.map]
    | ok b =>
      show (items.foldlM (fun s a => (part a).map (append s)) (append s b)) = Except.ok t ↔ _
      rw [ih]
      simp only [ok_bind, bind_eq_ok, pure_eq_ok]
      constructor
      · rintro ⟨parts, hparts, rfl⟩
        exact ⟨b :: parts, ⟨parts, hparts, rfl⟩, rfl⟩
      · rintro ⟨_, ⟨parts, hparts, rfl⟩, rfl⟩
        exact ⟨parts, hparts, rfl⟩

end AwsOps.Paging
