import Mathlib.Data.List.Infix
import AwsOps.Release.Passes

/-!
# The journal of a release

What holds of the log at every point, whatever the commands meet and wherever the process dies, and
the processes that keep it: reading, saving the next manifest, and the two calls that change
something outside, each where the file allows it.
-/

namespace AwsOps.Release

open List Option

open Py (Fields find get isText isOneOf)
open Process

/-- The stages, in order. -/
def Stage.all : List Stage :=
  [.preflight, .built, .migrated, .rolling, .rolled, .verified, .smoked]

/-- The order of a release, at one point of the log. -/
structure Sound (env : Surroundings) (log : Log) : Prop where
  /-- The manifests that were saved have gone through the stages in order. -/
  stages : (saves log env.kept).map Manifest.stage <+: Stage.all
  /-- The rollout was requested once at most. -/
  once : log.countP (·.command.isUpdate) ≤ 1
  /-- It is journaled in the file. -/
  journaled : ∀ e ∈ log, e.command.isUpdate = true → ∃ m, env.file log = some m ∧ 3 ≤ m.stage.rank
  /-- The image that was promoted is the recorded build. -/
  promoted : ∀ e ∈ log, e.command.isPutImage = true → ∃ m build raw, env.file log = some m ∧
    2 ≤ m.stage.rank ∧ m.build = some build ∧ contentDigest raw = build.digest ∧
    e.command = .aws (m.context.putImage build raw ++ m.context.options)
  /-- A release that is verified has been seen to run. -/
  verified : ∀ m, env.file log = some m → 5 ≤ m.stage.rank → Within (Pass m.context m) log

variable {env : Surroundings} {log : Log} {m : Manifest} {α β : Type}

/-! ## One more entry -/

def saved (kept : Nat → Bool) (e : Entry Command Answer Failure) (i : Nat) : Option Manifest :=
  match e with
  | ⟨.save m, .ok _⟩ => some m
  | ⟨.save m, .died⟩ => if kept i then some m else none
  | _ => none

theorem saves_snoc (log : Log) (kept : Nat → Bool) (e : Entry Command Answer Failure) :
    saves (log ++ [e]) kept = saves log kept ++ (saved kept e log.length).toList := by
  have hzip : (log ++ [e]).zipIdx = log.zipIdx ++ [(e, log.length)] := by
    rw [zipIdx_append, zipIdx_singleton, Nat.zero_add]
  unfold saves
  rw [hzip, filterMap_append]
  congr 1

variable {e : Entry Command Answer Failure}

theorem saved_none {kept : Nat → Bool} {i : Nat}
    (h : e.command.isSave = false) : saved kept e i = none := by
  obtain ⟨c, reply⟩ := e
  cases c with
  | save m => cases h
  | _ => rfl

theorem saved_cases (kept : Nat → Bool) (m : Manifest) (reply : Response Failure Unit) (i : Nat) :
    saved kept ⟨.save m, reply⟩ i = none ∨ saved kept ⟨.save m, reply⟩ i = some m := by
  cases reply with
  | ok u => exact .inr rfl
  | raise e => exact .inl rfl
  | died =>
    show (if kept i then some m else none) = none ∨ (if kept i then some m else none) = some m
    split
    · exact .inr rfl
    · exact .inl rfl

theorem file_snoc_none (h : saved env.kept e log.length = none) :
    env.file (log ++ [e]) = env.file log := by
  unfold Surroundings.file
  rw [saves_snoc, h, toList_none, append_nil]

theorem file_snoc_some
    (h : saved env.kept e log.length = some m) : env.file (log ++ [e]) = some m := by
  unfold Surroundings.file
  rw [saves_snoc, h, toList_some, List.getLast?_concat]

theorem Sound.snoc (h : Sound env log) (hsaved : saved env.kept e log.length = none)
    (hupdate : e.command.isUpdate = true → log.countP (·.command.isUpdate) = 0 ∧
      ∃ m, env.file log = some m ∧ 3 ≤ m.stage.rank)
    (hput : e.command.isPutImage = true → ∃ m build raw, env.file log = some m ∧
      2 ≤ m.stage.rank ∧ m.build = some build ∧ contentDigest raw = build.digest ∧
      e.command = .aws (m.context.putImage build raw ++ m.context.options)) :
    Sound env (log ++ [e]) where
  stages := by
    rw [saves_snoc, hsaved, toList_none, append_nil]
    exact h.stages
  once := by
    rw [countP_append, countP_singleton]
    split
    · next hit =>
      rw [(hupdate hit).1]
    · exact h.once
  journaled := by
    intro e' he' hit
    rw [file_snoc_none hsaved]
    rcases mem_append.mp he' with he' | he'
    · exact h.journaled e' he' hit
    · rw [mem_singleton.mp he'] at hit
      exact (hupdate hit).2
  promoted := by
    intro e' he' hit
    rw [file_snoc_none hsaved]
    rcases mem_append.mp he' with he' | he'
    · exact h.promoted e' he' hit
    · rw [mem_singleton.mp he'] at hit ⊢
      exact hput hit
  verified := by
    intro m hm hrank
    rw [file_snoc_none hsaved] at hm
    exact within_append [] [e] (h.verified m hm hrank)

/-- The manifest goes on from another one. -/
structure Follows (m m' : Manifest) : Prop where
  rank : m'.stage.rank = m.stage.rank + 1
  context : m'.context = m.context
  build : 1 ≤ m.stage.rank → m'.build = m.build

theorem stages_snoc {stages : List Stage} {stage next : Stage} (h : stages <+: Stage.all)
    (hlast : stages.getLast? = some stage) (hrank : next.rank = stage.rank + 1) :
    stages ++ [next] <+: Stage.all := by
  have hinits := (mem_inits stages Stage.all).mpr h
  simp only [Stage.all, List.inits, map_cons, map_nil, mem_cons, not_mem_nil, or_false] at hinits
  rcases hinits with rfl | rfl | rfl | rfl | rfl | rfl | rfl | rfl <;> cases hlast <;>
    cases next <;> revert hrank <;> decide

theorem Sound.save {m' : Manifest} {reply : Response Failure Unit} (h : Sound env log)
    (hfile : env.file log = some m) (hfollows : Follows m m')
    (hverified : 5 ≤ m'.stage.rank → Within (Pass m'.context m') log) :
    Sound env (log ++ [⟨.save m', reply⟩]) := by
  rcases saved_cases env.kept m' reply log.length with hsaved | hsaved
  · exact h.snoc hsaved nofun nofun
  · have hnew := file_snoc_some hsaved
    exact
      { stages := by
          have hlast : ((saves log env.kept).map Manifest.stage).getLast? = some m.stage := by
            rw [List.getLast?_map, show (saves log env.kept).getLast? = some m from hfile]
            rfl
          rw [saves_snoc, hsaved, toList_some, map_append, map_singleton]
          exact stages_snoc h.stages hlast hfollows.rank
        once := by
          rw [countP_append]
          exact h.once
        journaled := by
          intro e he hit
          rcases mem_append.mp he with he | he
          · obtain ⟨m₀, hm₀, hrank⟩ := h.journaled e he hit
            rw [hfile, Option.some.injEq] at hm₀
            subst hm₀
            exact ⟨m', hnew, by rw [hfollows.rank]; omega⟩
          · rw [mem_singleton.mp he] at hit
            cases hit
        promoted := by
          intro e he hit
          rcases mem_append.mp he with he | he
          · obtain ⟨m₀, build, raw, hm₀, hrank, hbuild, hraw, hcommand⟩ := h.promoted e he hit
            rw [hfile, Option.some.injEq] at hm₀
            subst hm₀
            refine ⟨m', build, raw, hnew, by rw [hfollows.rank]; omega, ?_, hraw, ?_⟩
            · rw [hfollows.build (by omega)]
              exact hbuild
            · rw [hfollows.context]
              exact hcommand
          · rw [mem_singleton.mp he] at hit
            cases hit
        verified := by
          intro m₀ hm₀ hrank
          rw [hnew, Option.some.injEq] at hm₀
          subst hm₀
          exact within_append [] _ (hverified hrank) }

theorem Sound.first {reply : Response Failure Unit} (h : Sound env log)
    (hfile : env.file log = none) (hstage : m.stage = .preflight) :
    Sound env (log ++ [⟨.save m, reply⟩]) := by
  rcases saved_cases env.kept m reply log.length with hsaved | hsaved
  · exact h.snoc hsaved nofun nofun
  · have hnew := file_snoc_some hsaved
    have hempty : saves log env.kept = [] := List.getLast?_eq_none_iff.mp hfile
    exact
      { stages := by
          rw [saves_snoc, hsaved, hempty]
          simp [hstage, Stage.all]
        once := by
          rw [countP_append]
          exact h.once
        journaled := by
          intro e he hit
          rcases mem_append.mp he with he | he
          · obtain ⟨m₀, hm₀, -⟩ := h.journaled e he hit
            rw [hfile] at hm₀
            cases hm₀
          · rw [mem_singleton.mp he] at hit
            cases hit
        promoted := by
          intro e he hit
          rcases mem_append.mp he with he | he
          · obtain ⟨m₀, -, -, hm₀, -⟩ := h.promoted e he hit
            rw [hfile] at hm₀
            cases hm₀
          · rw [mem_singleton.mp he] at hit
            cases hit
        verified := by
          intro m₀ hm₀ hrank
          rw [hnew, Option.some.injEq] at hm₀
          subst hm₀
          rw [hstage] at hrank
          exact absurd hrank (by decide) }

/-! ## Every point of the log -/

/-- The order of a release, at every point of the log. -/
def Ordered (env : Surroundings) (log : Log) : Prop :=
  ∀ log', log' <+: log → Sound env log'

/-- The order holds, and this is in the file at the end of the log. -/
structure At (env : Surroundings) (file : Option Manifest) (log : Log) : Prop where
  ordered : Ordered env log
  file : env.file log = file

variable {file : Option Manifest}

theorem At.sound (h : At env file log) : Sound env log :=
  h.ordered log (prefix_refl log)

theorem At.snoc {file' : Option Manifest} (h : At env file log) (hsound : Sound env (log ++ [e]))
    (hfile : env.file (log ++ [e]) = file') :
    At env file' (log ++ [e]) where
  ordered := by
    intro log' hlog'
    rcases prefix_concat_iff.mp hlog' with rfl | hlog'
    · exact hsound
    · exact h.ordered log' hlog'
  file := hfile

theorem At.quiet {l : Log} (h : At env file log) (hl : ∀ e ∈ l, e.command.Quiet) :
    At env file (log ++ l) := by
  induction l generalizing log with
  | nil =>
    rw [append_nil]
    exact h
  | cons e l ih =>
    obtain ⟨hupdate, hput, hsave⟩ := hl e mem_cons_self
    have hsaved : saved env.kept e log.length = none := saved_none hsave
    have hone : At env file (log ++ [e]) := by
      refine h.snoc (h.sound.snoc hsaved ?_ ?_) (by rw [file_snoc_none hsaved, h.file])
      · intro hit
        rw [hupdate] at hit
        cases hit
      · intro hit
        rw [hput] at hit
        cases hit
    rw [append_cons]
    exact ih hone fun e' he' => hl e' (mem_cons_of_mem e he')

theorem At.no_update (h : At env (some m) log) (hrank : m.stage.rank ≤ 2) :
    log.countP (·.command.isUpdate) = 0 := by
  refine countP_eq_zero.mpr ?_
  intro e he hit
  obtain ⟨m₀, hm₀, hrank₀⟩ := h.sound.journaled e he hit
  rw [h.file, Option.some.injEq] at hm₀
  subst hm₀
  omega

/-! ## Processes that keep the order -/

/-- The order is kept from here on, wherever the process ends, and its value satisfies the
assertion. -/
def Keeps (env : Surroundings) (log : Log) (p : Task α) (Q : α → Log → Prop) : Prop :=
  Process.Ends (World.logged env.answer) (fun log' => ∃ file, At env file log') log p
    fun r log' => (∃ file, At env file log') ∧ ∀ a, r = .ok a → Q a log'

variable {Q : α → Log → Prop} {Q' : β → Log → Prop}

theorem Keeps.pure {a : α} (h : At env file log) (hQ : Q a log) : Keeps env log (pure a) Q := by
  refine Ends.pure ⟨⟨file, h⟩, ?_⟩
  intro b hb
  rw [← Except.ok.inj hb]
  exact hQ

theorem Keeps.throw {e : Failure} (h : At env file log) : Keeps env log (throw e : Task α) Q :=
  Ends.throw ⟨⟨file, h⟩, fun _ hr => by cases hr⟩

variable {p : Task α} {f : α → Task β} {k : Controller}

theorem Keeps.bind (hp : Keeps env log p Q)
    (hf : ∀ a log', Q a log' → Keeps env log' (f a) Q') : Keeps env log (p >>= f) Q' := by
  refine Ends.bind hp ?_ ?_
  · rintro e t ⟨ht, -⟩
    exact ⟨ht, fun _ hr => by cases hr⟩
  · rintro a t ⟨-, ha⟩
    exact hf a t (ha a rfl)

theorem keeps_reads (h : At env file log) (hp : Task.Reads env p Q) :
    Keeps env log p fun a log' => At env file log' ∧ ∃ l, log' = log ++ l ∧ Q a l := by
  refine (hp log).mono ?_ ?_
  · rintro r t ⟨l, rfl, hl, hr⟩
    exact ⟨⟨file, h.quiet hl⟩, fun a ha => ⟨h.quiet hl, l, rfl, hr a ha⟩⟩
  · rintro t ⟨l, rfl, hl⟩
    exact ⟨file, h.quiet hl⟩

theorem keeps_reads_bind (h : At env file log) (hp : Task.Reads env p Q)
    (hf : ∀ a l, Q a l → At env file (log ++ l) → Keeps env (log ++ l) (f a) Q') :
    Keeps env log (p >>= f) Q' := by
  refine (keeps_reads h hp).bind ?_
  rintro a log' ⟨hat, l, rfl, hQ⟩
  exact hf a l hQ hat

theorem keeps_lift_bind {x : Except Failure α} (h : At env file log)
    (hf : ∀ a, x = .ok a → Keeps env log (f a) Q') : Keeps env log (lift x >>= f) Q' := by
  cases x with
  | error e => exact Keeps.throw h
  | ok a => exact hf a rfl

theorem keeps_call {c : Command} {Q : Answer c → Log → Prop}
    (hkeeps : ∀ reply, ∃ file, At env file (log ++ [⟨c, reply⟩]))
    (hQ : ∀ r, env.answer log c = .ok r → Q r (log ++ [⟨c, .ok r⟩])) : Keeps env log (call c) Q := by
  refine Ends.command ?_ ?_ ?_
  · intro r t hworld
    obtain ⟨hr, rfl⟩ := Prod.mk.inj hworld
    refine ⟨hkeeps _, ?_⟩
    intro a ha
    rw [← Except.ok.inj ha, hr]
    exact hQ r hr
  · intro e t hworld
    obtain ⟨-, rfl⟩ := Prod.mk.inj hworld
    exact ⟨hkeeps _, fun _ hr => by cases hr⟩
  · intro t hworld
    obtain ⟨-, rfl⟩ := Prod.mk.inj hworld
    exact hkeeps _

theorem keeps_save (h : At env file log)
    (hsound : ∀ reply, Sound env (log ++ [⟨.save m, reply⟩])) :
    Keeps env log (call (.save m)) fun _ log' =>
      At env (some m) log' ∧ log' = log ++ [⟨.save m, .ok ()⟩] := by
  refine keeps_call ?_ ?_
  · intro reply
    rcases saved_cases env.kept m reply log.length with hsaved | hsaved
    · exact ⟨_, h.snoc (hsound reply) (file_snoc_none hsaved)⟩
    · exact ⟨_, h.snoc (hsound reply) (file_snoc_some hsaved)⟩
  · rintro ⟨⟩ -
    exact ⟨h.snoc (hsound _) (file_snoc_some rfl), rfl⟩

theorem keeps_save_next {m' : Manifest} (h : At env (some m) log) (hfollows : Follows m m')
    (hverified : 5 ≤ m'.stage.rank → Within (Pass m'.context m') log) :
    Keeps env log (call (.save m')) fun _ log' =>
      At env (some m') log' ∧ log' = log ++ [⟨.save m', .ok ()⟩] :=
  keeps_save h fun _ => h.sound.save h.file hfollows hverified

theorem keeps_aws {args : List String} (h : At env file log)
    (hsound : ∀ reply, Sound env (log ++ [⟨.aws (args ++ k.context.options), reply⟩])) :
    Keeps env log (k.aws none args) fun _ log' => At env file log' := by
  have hat := fun reply => h.snoc (hsound reply) (by rw [file_snoc_none (saved_none rfl), h.file])
  exact keeps_call (fun reply => ⟨file, hat reply⟩) fun result _ => hat _

/-! ## Loading -/

theorem answer_load {found : Answer .load} (h : env.answer log .load = .ok found) :
    found = env.file log := by
  dsimp only [Surroundings.answer] at h
  split at h
  · exact (Response.ok.inj h).symm
  · cases h
  · cases h

theorem keeps_file (h : At env file log) :
    Keeps env log (call .load) fun found log' => found = file ∧ At env file log' := by
  have hat : ∀ reply : Response Failure (Answer .load), At env file (log ++ [⟨.load, reply⟩]) := by
    intro reply
    refine h.quiet ?_
    intro e he
    rw [mem_singleton.mp he]
    exact ⟨rfl, rfl, rfl⟩
  refine keeps_call (fun reply => ⟨file, hat reply⟩) ?_
  intro found hfound
  exact ⟨(answer_load hfound).trans h.file, hat _⟩

theorem reads_check_file {stages : List Stage} {checkScope : Bool} {found : Option Manifest} :
    Task.Reads env (k.checkFile stages checkScope found) fun m _ =>
      found = some m ∧ m.context = k.context ∧ m.stage ∈ stages := by
  unfold Controller.checkFile
  refine reads_lift_bind fun m hm => ?_
  refine reads_lift_bind fun _ haccepts => ?_
  simp only [Context.accepts, bind_eq_ok, require_ok, Bool.and_eq_true, decide_eq_true_eq,
    contains_iff_mem] at haccepts
  obtain ⟨-, ⟨-, hcontext⟩, -, hstage, -⟩ := haccepts
  have hresult := And.intro (expect_ok.mp hm) (And.intro hcontext hstage)
  split
  · refine reads_quiet_bind (quiet_call ⟨rfl, rfl, rfl⟩) (fun database => ?_) fun _ _ _ h => h
    exact reads_lift_bind fun _ _ => Reads.pure hresult
  · exact Reads.pure hresult

theorem keeps_load {stages : List Stage} {checkScope : Bool} (h : At env file log) :
    Keeps env log (k.load stages checkScope) fun m log' =>
      m.context = k.context ∧ m.stage ∈ stages ∧ At env (some m) log' := by
  unfold Controller.load
  refine (keeps_file h).bind ?_
  rintro found log' ⟨rfl, hat⟩
  refine (keeps_reads hat reads_check_file).mono ?_ fun _ hI => hI
  rintro r t ⟨hI, hr⟩
  refine ⟨hI, ?_⟩
  intro m hm
  obtain ⟨ht, l, -, rfl, hcontext, hstage⟩ := hr m hm
  exact ⟨hcontext, hstage, ht⟩

end AwsOps.Release
