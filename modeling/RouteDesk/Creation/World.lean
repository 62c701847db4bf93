import RouteDesk.Creation.Request

/-! What requests for new routes work with: a tree of files, a generator, a workspace and an
editor. A world may also change by itself as time passes.
-/

namespace RouteDesk

/-- The surroundings of requests, with states of type `σ`. Moments are in milliseconds. -/
structure World (σ : Type) where
  /-- The files as they are now. -/
  tree : σ → FileTree
  /-- Has the generator started for an artifact. -/
  dispatch : Nat → Artifact → σ → σ × Except GeneratorError Unit × Log
  /-- How long a search takes that starts now. -/
  searchTime : σ → Nat
  /-- The files of the workspace with a name. -/
  search : String → Nat → σ → σ × Except String (List Path)
  /-- How many searches may yet fail whatever the time is. -/
  faults : σ → Nat := fun _ => 0
  /-- The document that has the focus. -/
  focused : Nat → σ → Option Path
  /-- The next moment at which something happens by itself. -/
  next? : σ → Option Nat := fun _ => none
  /-- What happens by itself up to a moment. -/
  advance : Nat → σ → σ × Log := fun _ state => (state, [])

end RouteDesk
