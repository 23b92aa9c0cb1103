import Librarian.Dispatch

/-! # The subscriptions of the startup

Before its loop runs, a process makes sure of one subscription for each action: it lists the
active ones and creates what is missing.
-/
namespace Librarian
open Foundation

inductive SubscriptionOp where
  | activeSubscriptions
  | createSubscription (eventType : String)
  deriving DecidableEq

def SubscriptionOp.Ans : SubscriptionOp → Type
  | .activeSubscriptions => Except LibrarianError (List Subscription)
  | .createSubscription _ => Except LibrarianError Subscription

abbrev Startup (α : Type) := Fallible SubscriptionOp SubscriptionOp.Ans LibrarianError α

namespace Startup

def activeSubscriptions : Startup (List Subscription) :=
  ExceptT.mk (.call .activeSubscriptions .ret)

def createSubscription (eventType : String) : Startup Subscription :=
  ExceptT.mk (.call (.createSubscription eventType) .ret)

def ensureSubscription (eventType : String) : Startup Unit := do
  let subscriptions ← activeSubscriptions
  if subscriptions.any fun s => s.eventType = eventType then pure ()
  else do
    let _ ← createSubscription eventType
    pure ()

/-- The loop of the startup, which stops at the first error. -/
def ensureAll : List String → Startup Unit
  | [] => pure ()
  | action :: rest => do
    ensureSubscription action
    ensureAll rest

end Startup
end Librarian
