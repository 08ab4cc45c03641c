import Glob.Cache
import Glob.FilePath
/-!
# One question, one answer

Functions for callers who want to know whether a path matches a pattern, or which paths do, without
keeping a matcher.  Options are given by name, and only the three names there are will do.
-/
namespace Glob

inductive QueryFailure
  | unknownOption (name : Text)
  | notAPath (e : NotAPath)
  | pattern (f : ParseFailure)

def Options.ofNamed? (o : Options) : List (Text × Bool) → Except QueryFailure Options
  | [] => .ok o
  | (name, value) :: rest =>
    match o.set? name value with
    | some o => o.ofNamed? rest
    | none => .error (.unknownOption name)

namespace Query

def compile (c : Cache) (named : List (Text × Bool)) (pattern : PathLike) :
    Except QueryFailure Matcher × Cache :=
  match Options.ofNamed? {} named with
  | .error f => (.error f, c)
  | .ok o =>
    match pattern.decode with
    | .error e => (.error (.notAPath e), c)
    | .ok p =>
      match c.compile o p with
      | (.ok m, c) => (.ok m.matcher, c)
      | (.error f, c) => (.error (.pattern f), c)

def regexSource (named : List (Text × Bool)) (pattern : Text) : Except QueryFailure Text :=
  match Options.ofNamed? {} named with
  | .error f => .error f
  | .ok o =>
    match regexSource? o pattern with
    | .ok source => .ok source
    | .error f => .error (.pattern f)

def isMatch (c : Cache) (named : List (Text × Bool)) (pattern path : PathLike) :
    Except QueryFailure Bool × Cache :=
  match compile c named pattern with
  | (.error f, c) => (.error f, c)
  | (.ok m, c) =>
    match path.decode with
    | .error e => (.error (.notAPath e), c)
    | .ok t => (.ok (m.accepts t), c)

def compileAll (c : Cache) (named : List (Text × Bool)) :
    List PathLike → Except QueryFailure (List Matcher) × Cache
  | [] => (.ok [], c)
  | p :: rest =>
    match compile c named p with
    | (.error f, c) => (.error f, c)
    | (.ok m, c) =>
      match compileAll c named rest with
      | (.error f, c) => (.error f, c)
      | (.ok ms, c) => (.ok (m :: ms), c)

/-- The paths that match at least one of the patterns, in their order.  All patterns are compiled
first. -/
def filter (c : Cache) (named : List (Text × Bool)) (patterns : List PathLike)
    (paths : List Text) : Except QueryFailure (List Text) × Cache :=
  match compileAll c named patterns with
  | (.error f, c) => (.error f, c)
  | (.ok ms, c) => (.ok (paths.filter fun p => ms.any (·.accepts p)), c)

end Query

end Glob
