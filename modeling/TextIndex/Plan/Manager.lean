/-!
# Owners of storage

A planner holds no structures itself. It tells their owner, the manager, when to build one, release
it, forbid or allow that it is changed in place, and shrink it. A manager is a bundle of state
transitions: three of its calls may fail, and a call that fails may still have changed the state.

A protected kind has several consumers left. While it is protected no consumer may alter its
storage; afterwards the one consumer that remains may build its own structure there.
-/

set_option autoImplicit false

namespace TextIndex

/-- How the owner of the structures, with state `S` and failures `E`, answers each call. -/
structure Manager (K E S : Type) where
  /-- Makes ready to build a kind; called during the request phase, perhaps several times. -/
  ensure : K → EStateM E S Unit
  /-- Builds a kind whose requirements are all there, at its least width if the flag is set. -/
  construct : K → Bool → EStateM E S Unit
  /-- Releases a kind; the flag tells that the client did not ask for it. -/
  discard : K → Bool → S → S
  /-- Forbids changes in place. -/
  protect : K → S → S
  /-- Allows the last consumer to reuse the storage. -/
  unprotect : K → S → S
  /-- Brings a kind to its least width. -/
  compress : K → EStateM E S Unit

end TextIndex
