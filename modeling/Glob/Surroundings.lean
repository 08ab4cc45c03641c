import Glob.FileTree
/-!
# What surrounds a run of the program

The program finds its configuration, and the place for its log, by the files there are, by the
variables of its environment and by the home directories of the users.
-/
namespace Glob

structure Surroundings where
  program : Text
  files : FileTree
  environment : List (Text × Text)
  /-- The home directories by user name; under the empty name, that of the user at work. -/
  homes : List (Text × Text)

inductive NoHome
  | unknown
  /-- The user's name has a zero in it, so it cannot be asked for. -/
  | zeroInName
  deriving DecidableEq, Repr

def NoHome.message : NoHome → Text
  | .unknown => Text.of "Could not determine home directory."
  | .zeroInName => FileFailure.zeroInName.message

namespace Surroundings

def env? (s : Surroundings) (name : String) : Option Text :=
  s.environment.lookup (Text.of name)

/-- The variable is there, and its value is not empty. -/
def isSet (s : Surroundings) (name : String) : Bool := (s.env? name).getD [] != []

/-- The home directory that a `~` followed by `user` means.  One whose name begins with a `~` itself
cannot be told from a name that means nothing. -/
def homeOf (s : Surroundings) (user : Text) : Except NoHome FilePath :=
  let given := if user = [] then s.env? "HOME" <|> s.homes.lookup [] else s.homes.lookup user
  if user.contains 0 then .error .zeroInName
  else
    match given with
    | none => .error .unknown
    | some directory =>
      let trimmed := (directory.reverse.dropWhile (· == Mark.slash)).reverse
      if trimmed.head? = some Mark.tilde then .error .unknown
      else .ok (FilePath.parse (if trimmed = [] then [Mark.slash] else trimmed))

def home (s : Surroundings) : Except NoHome FilePath := s.homeOf []

/-- A path whose first component begins with a `~` leads on from a home directory. -/
def expandHome (s : Surroundings) (p : FilePath) : Except NoHome FilePath :=
  match p.root, p.components with
  | 0, (Mark.tilde :: user) :: rest => (s.homeOf user).map (· ++ (⟨0, rest⟩ : FilePath))
  | _, _ => .ok p

end Surroundings

end Glob
