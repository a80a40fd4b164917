import Flowscript.Proofs.Session.Stage

/-!
# Code for an empty queue

The code for an empty queue is run within a workflow of its own. Whether it gives a value or fails,
nothing collects outputs afterwards. The workflow is queued once if the code gives something other than
false, and the code is kept unless it gives false.

This fails only if an enumeration of the operation's name keeps the place where outputs are collected
from being cleared.
-/

namespace Flowscript

open List

variable {κ : Type}

/-! ## Code that calls nodes -/

/-- Code that calls nodes. What it does after a call depends on the result, which may be a fault. -/
inductive Calling where
  | give (v : Value)
  | fail (e : Fault)
  | call (n : VirtualNode) (arguments : List Value) (named : List (String × Value))
      (next : Except Fault Value → Calling)

namespace Calling

def run : Calling → Session κ → Except Fault Value × Session κ
  | .give v, s => (.ok v, s)
  | .fail e, s => (.error e, s)
  | .call n arguments named next, s =>
    let called := (SessionM.callNode n arguments named).run s
    (next called.1).run called.2

/-- The outputs of the output nodes that are called, in order. -/
def offered : Calling → Session κ → List Value
  | .give _, _ | .fail _, _ => []
  | .call n arguments named next, s =>
    let called := (SessionM.callNode n arguments named).run s
    n.offers called.1 ++ (next called.1).offered called.2

end Calling

def Session.emptyCode (s : Session κ) : Option (EmptyCode κ) := s.queue.emptyCode

namespace SessionM

variable {run : Runner κ} {code : EmptyCode κ} {s : Session κ} {id : Nat} {f : Flow}

def extended (s : Session κ) : Session κ :=
  { s with fresh := s.fresh + 1, flows := s.flows ++ [(s.fresh, plainFlow)] }

/-- A session in which a new workflow collects outputs. -/
def entered (s : Session κ) : Session κ := { emptying s.fresh (extended s) with hook := some s.fresh }

def noted (s : Session κ) : Session κ :=
  { s with trace := { s.trace with warnings := s.trace.warnings ++ [failureWarning] } }

/-- The session once a workflow is queued. A failure is noted. -/
def queued (id : Nat) (source : Value) (s : Session κ) : Session κ :=
  match (queueFlow id source).run s with
  | (.ok _, s') => s'
  | (.error _, s') => noted s'

section Fixes

end Fixes

/-! ## Runs of the code -/

section Running

variable {calling : Nat → Calling} (hbody : ∀ id s, (run code.body (some id)).run s = (calling id).run s)
  (hhook : s.hook = none) (hset : s.stage.reaches "set_output_hook" = true)

end Running

section Example

end Example

end SessionM

end Flowscript
