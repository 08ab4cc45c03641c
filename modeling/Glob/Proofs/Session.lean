import Glob.Proofs.Plan
import Glob.Query
/-!
# What a session sees of the cache

A session is a list of requests: to compile a pattern, to match, filter or plan with patterns, to purge the cache.  All
of them go through the cache.  What a request does with it is a `Cache.Program`, which asks for matchers one after the
other and goes on by what it gets; it may be run with a cache or with every matcher made anew, and `Program.run_eq` says
that this makes no difference to what it gives.  So none of the answers of a session tells that there is a cache
(`session_fresh`).

`Program.calls` are the compile calls that a program makes and its purges.  They do not depend on the cache either, so
the cache behind a session is the one behind its calls (`session_calls`).
-/
namespace Glob

/-! ## Calls -/

inductive Call
  | compile (key : Text × Options)
  | purge
  deriving DecidableEq

namespace Cache

def call (c : Cache) : Call → Cache
  | .compile (p, o) => (c.compile o p).2
  | .purge => c.purge

def after (c : Cache) (calls : List Call) : Cache := calls.foldl Cache.call c

theorem after_append (c : Cache) (calls more : List Call) : c.after (calls ++ more) = (c.after calls).after more :=
  List.foldl_append

theorem Faithful.call {c : Cache} (h : c.Faithful) (call : Call) : (c.call call).Faithful := by
  cases call with
  | compile key => exact (compile_faithful h key.2 key.1).1
  | purge => exact h.purge

theorem Faithful.after {c : Cache} (h : c.Faithful) (calls : List Call) : (c.after calls).Faithful := by
  induction calls generalizing c with
  | nil => exact h
  | cons call calls ih => exact ih (h.call call)

/-! ## Programs -/

/-- A computation that uses a cache. -/
inductive Program (α : Type)
  | done (a : α)
  | compile (o : Options) (p : Text) (next : Except ParseFailure Matcher → Program α)
  | purge (next : Program α)

namespace Program

variable {α β : Type}

def run : Program α → Cache → α × Cache
  | done a, c => (a, c)
  | compile o p next, c => (next (Compiled.matcher <$> (c.compile o p).1)).run (c.compile o p).2
  | purge next, c => next.run c.purge

def fresh : Program α → α
  | done a => a
  | compile o p next => (next (Matcher.ofPattern? o p)).fresh
  | purge next => next.fresh

def calls : Program α → List Call
  | done _ => []
  | compile o p next => .compile (p, o) :: (next (Matcher.ofPattern? o p)).calls
  | purge next => .purge :: next.calls

def bind : Program α → (α → Program β) → Program β
  | done a, f => f a
  | compile o p next, f => compile o p fun r => (next r).bind f
  | purge next, f => purge (next.bind f)

/-- **A program does not see the cache**, and what it does to it does not depend on it. -/
theorem run_eq {c : Cache} (h : c.Faithful) (x : Program α) : x.run c = (x.fresh, c.after x.calls) := by
  induction x generalizing c with
  | done a => rfl
  | compile o p next ih =>
    obtain ⟨hfaithful, hsame⟩ := compile_faithful h o p
    rw [run, hsame, ih _ hfaithful]
    rfl
  | purge next ih =>
    rw [run, ih h.purge]
    rfl

theorem run_bind (x : Program α) (f : α → Program β) (c : Cache) :
    (x.bind f).run c = (f (x.run c).1).run (x.run c).2 := by
  induction x generalizing c with
  | done a => rfl
  | compile o p next ih => exact ih _ _
  | purge next ih => exact ih _

end Program

end Cache

open Cache (Program)

/-! ## Requests -/

namespace Cache

def compileLike (c : Cache) (o : Options) (pattern : PathLike) : Except QueryFailure Matcher × Cache :=
  match pattern.decode with
  | .error e => (.error (.notAPath e), c)
  | .ok p =>
    match c.compile o p with
    | (.ok m, c) => (.ok m.matcher, c)
    | (.error f, c) => (.error (.pattern f), c)

end Cache

inductive Request
  | compile (o : Options) (pattern : PathLike)
  | isMatch (named : List (Text × Bool)) (pattern path : PathLike)
  | filter (named : List (Text × Bool)) (patterns : List PathLike) (paths : List Text)
  | plan (o : Options) (pattern : Text)
  | purge

inductive Answer
  | matcher (r : Except QueryFailure Matcher)
  | matched (r : Except QueryFailure Bool)
  | paths (r : Except QueryFailure (List Text))
  | steps (r : Except ParseFailure (List Selector))
  | purged

def Cache.serve (c : Cache) : Request → Answer × Cache
  | .compile o pattern => (c.compileLike o pattern).map .matcher id
  | .isMatch named pattern path => (Query.isMatch c named pattern path).map .matched id
  | .filter named patterns paths => (Query.filter c named patterns paths).map .paths id
  | .plan o pattern => (Glob.plan c o pattern).map .steps id
  | .purge => (.purged, c.purge)

def Cache.session (c : Cache) : List Request → List Answer × Cache
  | [] => ([], c)
  | r :: rs => ((c.serve r).1 :: ((c.serve r).2.session rs).1, ((c.serve r).2.session rs).2)

/-! ## Requests as programs -/

namespace Query

def likeProgram (o : Options) (pattern : PathLike) : Program (Except QueryFailure Matcher) :=
  match pattern.decode with
  | .error e => .done (.error (.notAPath e))
  | .ok p => .compile o p fun r => .done (r.mapError .pattern)

theorem compileLike_eq (c : Cache) (o : Options) (pattern : PathLike) :
    c.compileLike o pattern = (likeProgram o pattern).run c := by
  unfold Cache.compileLike likeProgram
  cases pattern.decode with
  | error e => rfl
  | ok p =>
    simp only [Program.run]
    rcases c.compile o p with ⟨_ | _, c'⟩ <;> rfl

def compileProgram (named : List (Text × Bool)) (pattern : PathLike) : Program (Except QueryFailure Matcher) :=
  match Options.ofNamed? {} named with
  | .error f => .done (.error f)
  | .ok o => likeProgram o pattern

theorem compile_eq (c : Cache) (named : List (Text × Bool)) (pattern : PathLike) :
    Query.compile c named pattern = (compileProgram named pattern).run c := by
  unfold Query.compile compileProgram
  cases Options.ofNamed? {} named with
  | error f => rfl
  | ok o => exact compileLike_eq c o pattern

def matchProgram (named : List (Text × Bool)) (pattern path : PathLike) : Program (Except QueryFailure Bool) :=
  (compileProgram named pattern).bind fun
    | .error f => .done (.error f)
    | .ok m => .done (m.accepts <$> path.decode.mapError .notAPath)

theorem isMatch_eq (c : Cache) (named : List (Text × Bool)) (pattern path : PathLike) :
    Query.isMatch c named pattern path = (matchProgram named pattern path).run c := by
  rw [matchProgram, Program.run_bind, ← compile_eq, isMatch]
  rcases Query.compile c named pattern with ⟨_ | m, c'⟩
  · rfl
  · cases path.decode <;> rfl

def allProgram (named : List (Text × Bool)) : List PathLike → Program (Except QueryFailure (List Matcher))
  | [] => .done (.ok [])
  | p :: rest =>
    (compileProgram named p).bind fun
      | .error f => .done (.error f)
      | .ok m => (allProgram named rest).bind fun ms => .done ((m :: ·) <$> ms)

theorem compileAll_eq (c : Cache) (named : List (Text × Bool)) (patterns : List PathLike) :
    Query.compileAll c named patterns = (allProgram named patterns).run c := by
  induction patterns generalizing c with
  | nil => rfl
  | cons p rest ih =>
    rw [allProgram, Program.run_bind, ← compile_eq, compileAll]
    rcases Query.compile c named p with ⟨_ | m, c'⟩
    · rfl
    · simp only [Program.run_bind, ← ih]
      rcases Query.compileAll c' named rest with ⟨_ | _, c''⟩ <;> rfl

def filterProgram (named : List (Text × Bool)) (patterns : List PathLike) (paths : List Text) :
    Program (Except QueryFailure (List Text)) :=
  (allProgram named patterns).bind fun ms =>
    .done ((fun ms : List Matcher => paths.filter fun p => ms.any (·.accepts p)) <$> ms)

theorem filter_eq (c : Cache) (named : List (Text × Bool)) (patterns : List PathLike) (paths : List Text) :
    Query.filter c named patterns paths = (filterProgram named patterns paths).run c := by
  rw [filterProgram, Program.run_bind, ← compileAll_eq, Query.filter]
  rcases Query.compileAll c named patterns with ⟨_ | _, c'⟩ <;> rfl

end Query

namespace Plan

variable {p : Text} {o : Options} {stop : Int} {ss : List Segment}

def stepsProgram (p : Text) (o : Options) (stop : Int) : List Segment → Program (Except ParseFailure (List Selector))
  | [] => .done (.ok [])
  | s :: rest =>
    let go (step : Selector) := (stepsProgram p o stop rest).bind fun steps => .done ((step :: ·) <$> steps)
    if s.isRecursive then go ⟨.recursive, [Mark.star, Mark.star], none, o⟩
    else if s.isLiteral then go ⟨.precise, s.literalText, none, o⟩
    else if crossesSeparator s.nodes then
      let text := Span.extract ⟨s.span.start, stop⟩ p
      .compile o text fun m => .done ((fun m => [⟨.tail, text, some m, o⟩]) <$> m)
    else
      let text := s.span.extract p
      .compile o text fun
        | .error f => .done (.error f)
        | .ok m => go ⟨.wildcard, text, some m, o⟩

theorem steps_eq (c : Cache) : steps p o stop ss c = (stepsProgram p o stop ss).run c := by
  induction ss generalizing c with
  | nil => rfl
  | cons s rest ih =>
    have hgo : ∀ (step : Selector) (c : Cache), withStep step (steps p o stop rest c) =
        ((stepsProgram p o stop rest).bind fun steps => .done ((step :: ·) <$> steps)).run c := by
      intro step c
      rw [Program.run_bind, ← ih]
      rcases steps p o stop rest c with ⟨_ | _, c'⟩ <;> rfl
    cases hrec : s.isRecursive with
    | true =>
      rw [steps_recursive hrec, hgo, stepsProgram, if_pos hrec]
    | false =>
      cases hliteral : s.isLiteral with
      | true =>
        rw [steps_precise hrec hliteral, hgo, stepsProgram, if_neg (by simp [hrec]), if_pos hliteral]
      | false =>
        cases hcross : crossesSeparator s.nodes with
        | true =>
          rw [steps_tail hrec hliteral hcross, stepsProgram, if_neg (by simp [hrec]), if_neg (by simp [hliteral]),
            if_pos hcross, Program.run]
          rcases c.compile o _ with ⟨_ | _, c'⟩ <;> rfl
        | false =>
          rw [steps_wildcard hrec hliteral hcross, stepsProgram, if_neg (by simp [hrec]), if_neg (by simp [hliteral]),
            if_neg (by simp [hcross]), Program.run]
          rcases c.compile o _ with ⟨_ | _, c'⟩
          · rfl
          · exact hgo _ _

end Plan

def planProgram (o : Options) (pattern : Text) : Program (Except ParseFailure (List Selector)) :=
  match Pattern.parse pattern with
  | .error f => .done (.error f)
  | .ok tree =>
    let segments := Plan.walked tree.segments
    Plan.stepsProgram pattern o ((segments.getLast?.map (·.span.stop)).getD 0) segments

theorem plan_eq (c : Cache) (o : Options) (pattern : Text) : plan c o pattern = (planProgram o pattern).run c := by
  unfold plan planProgram
  cases Pattern.parse pattern with
  | error f => rfl
  | ok tree => exact Plan.steps_eq c

/-! ## Sessions -/

namespace Request

def program : Request → Program Answer
  | .compile o pattern => (Query.likeProgram o pattern).bind fun r => .done (.matcher r)
  | .isMatch named pattern path => (Query.matchProgram named pattern path).bind fun r => .done (.matched r)
  | .filter named patterns paths => (Query.filterProgram named patterns paths).bind fun r => .done (.paths r)
  | .plan o pattern => (planProgram o pattern).bind fun r => .done (.steps r)
  | .purge => .purge (.done .purged)

def fresh (r : Request) : Answer := r.program.fresh

def calls (r : Request) : List Call := r.program.calls

/-- What is answered to a pattern text is the matcher of the text, or why there is none. -/
theorem fresh_text (o : Options) (p : Text) :
    (compile o (.text p)).fresh = .matcher ((Matcher.ofPattern? o p).mapError .pattern) := rfl

end Request

namespace Cache

variable {c : Cache}

theorem serve_eq (c : Cache) (r : Request) : c.serve r = r.program.run c := by
  cases r with
  | compile o pattern =>
    rw [Request.program, Program.run_bind, ← Query.compileLike_eq]
    rfl
  | isMatch named pattern path =>
    rw [Request.program, Program.run_bind, ← Query.isMatch_eq]
    rfl
  | filter named patterns paths =>
    rw [Request.program, Program.run_bind, ← Query.filter_eq]
    rfl
  | plan o pattern =>
    rw [Request.program, Program.run_bind, ← plan_eq]
    rfl
  | purge => rfl

theorem session_eq (h : c.Faithful) (rs : List Request) :
    c.session rs = (rs.map Request.fresh, c.after (rs.flatMap Request.calls)) := by
  induction rs generalizing c with
  | nil => rfl
  | cons r rs ih =>
    have hserve : c.serve r = (r.fresh, c.after r.calls) := (serve_eq c r).trans (Program.run_eq h r.program)
    rw [session, hserve, ih (h.after _), List.flatMap_cons, after_append]
    rfl

/-- The cache behind a session is the one behind the calls of its requests. -/
theorem session_calls (rs : List Request) :
    (empty.session rs).2 = empty.after (rs.flatMap Request.calls) := by
  rw [session_eq faithful_empty]

theorem key_of_ofPattern? {o : Options} {p : Text} {m : Matcher} (h : Matcher.ofPattern? o p = .ok m) :
    m.key = (p, o) := by
  unfold Matcher.ofPattern? at h
  split at h
  · cases h
  · simp only at h
    split at h
    · cases h
    · cases h
      rfl

/-- A pattern that does not compile is a miss and nothing else. -/
theorem compile_error {o : Options} {p : Text} {f : ParseFailure} (h : (c.compile o p).1 = .error f) :
    (c.compile o p).2 = { c with misses := c.misses + 1 } := by
  cases hget : c.stored.get? (p, o) with
  | some v =>
    rw [compile_hit hget] at h
    cases h
  | none =>
    cases hm : Matcher.ofPattern? o p with
    | error f => rw [compile_failed hget hm]
    | ok m =>
      rw [compile_made hget hm] at h
      cases h

end Cache

/-- **A session does not see the cache.**  Its answers, and those of every compile call behind it, are the ones with
every matcher made anew.  Every stored matcher is the one of its key, and what does not compile changes nothing
stored. -/
theorem session_fresh (rs : List Request) :
    (Cache.empty.session rs).1 = rs.map Request.fresh ∧
      (∀ entry ∈ (Cache.empty.session rs).2.stored.entries,
        Matcher.ofPattern? entry.1.2 entry.1.1 = .ok entry.2.matcher ∧ entry.2.matcher.key = entry.1) ∧
      ∀ (o : Options) (p : Text),
        Compiled.matcher <$> ((Cache.empty.session rs).2.compile o p).1 = Matcher.ofPattern? o p ∧
          ∀ f, Matcher.ofPattern? o p = .error f →
            ((Cache.empty.session rs).2.compile o p).2.stored = (Cache.empty.session rs).2.stored := by
  have hfaithful : (Cache.empty.session rs).2.Faithful := by
    rw [Cache.session_calls]
    exact Cache.faithful_empty.after _
  refine ⟨by rw [Cache.session_eq Cache.faithful_empty], fun entry hentry => ?_, fun o p => ?_⟩
  · exact ⟨hfaithful entry hentry, Cache.key_of_ofPattern? (hfaithful entry hentry)⟩
  · have hsame := (Cache.compile_faithful hfaithful o p).2
    refine ⟨hsame, fun f hf => ?_⟩
    rw [hf] at hsame
    cases hr : ((Cache.empty.session rs).2.compile o p).1 with
    | ok v =>
      rw [hr] at hsame
      cases hsame
    | error f' => rw [Cache.compile_error hr]

/-- A session in which the second pattern of a filter does not compile. -/
theorem session_fresh_failing :
    let rs : List Request := [.compile {} (.text (Text.of "a*")), .filter [] [.text (Text.of "b"), .bytes [0x5B]] []]
    (Cache.empty.session rs).1 = rs.map Request.fresh ∧
      ((Cache.empty.session rs).2.compile {} (Text.of "[")).2.stored = (Cache.empty.session rs).2.stored := by
  intro rs
  obtain ⟨hanswers, -, hcompile⟩ := session_fresh rs
  exact ⟨hanswers, (hcompile {} (Text.of "[")).2 _ rfl⟩

end Glob
