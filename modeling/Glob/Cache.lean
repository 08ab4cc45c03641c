import Glob.Lru
import Glob.Matcher
/-!
# The cache of compiled patterns

Compiling a pattern twice with the same options gives the same matcher again, as long as the cache
has it.  The cache keeps the 256 matchers used last.  A pattern that does not compile counts as a
miss and leaves nothing behind.

Whether two matchers are the same one, and not only equal, can be observed, so each matcher that is
made carries a serial number.
-/
namespace Glob

structure Compiled where
  serial : Nat
  matcher : Matcher

structure Cache where
  stored : Lru (Text × Options) Compiled
  hits : Nat
  misses : Nat
  made : Nat

namespace Cache

def capacity : Nat := 256

def empty : Cache := ⟨Lru.empty capacity, 0, 0, 0⟩

def make (c : Cache) (o : Options) (pattern : Text) : Except ParseFailure Compiled × Cache :=
  match Matcher.ofPattern? o pattern with
  | .error f => (.error f, c)
  | .ok m => (.ok ⟨c.made, m⟩, { c with made := c.made + 1 })

/-- The matcher of a pattern: a stored one, or else a new one, which is then stored. -/
def compile (c : Cache) (o : Options) (pattern : Text) : Except ParseFailure Compiled × Cache :=
  let key := (pattern, o)
  match c.stored.get? key with
  | some m => (.ok m, { c with stored := c.stored.touch key m, hits := c.hits + 1 })
  | none =>
    let missed := { c with misses := c.misses + 1 }
    match missed.make o pattern with
    | (.error f, c) => (.error f, c)
    | (.ok m, c) => (.ok m, { c with stored := c.stored.insert key m })

/-- Compiles patterns one after the other, up to the first that does not compile. -/
def compileAll (c : Cache) (o : Options) : List Text → Except ParseFailure (List Compiled) × Cache
  | [] => (.ok [], c)
  | p :: rest =>
    match c.compile o p with
    | (.error f, c) => (.error f, c)
    | (.ok m, c) =>
      match c.compileAll o rest with
      | (.error f, c) => (.error f, c)
      | (.ok ms, c) => (.ok (m :: ms), c)

/-- Forgets all matchers and sets the counters back. -/
def purge (c : Cache) : Cache := { c with stored := Lru.empty capacity, hits := 0, misses := 0 }

end Cache

end Glob
