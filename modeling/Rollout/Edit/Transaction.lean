import Rollout.Store.Basic
/-!
# Transactions

A transaction reads and writes a working copy of the store. It is committed as a whole: when it
fails, wherever that is, the copy is dropped and the store is as before.
-/

namespace Rollout

abbrev Transaction (α : Type) := ExceptT StoreError (StateM Store) α

namespace Transaction

variable (ρ : Type) [Tabled ρ]

def lookup (key : Guid) : Transaction (Option ρ) := fun s => (s.get? ρ key, s)

/-- The record under a key, which must be there. -/
def require (key : Guid) : Transaction ρ := do
  match ← lookup ρ key with
  | some r => return r
  | none => throw (.missing key)

def drop (key : Guid) : Transaction Unit := fun s => (.ok (), s.drop ρ key)

variable {ρ}

def select (keep : ρ → Bool) : Transaction (List ρ) := fun s => (s.select keep, s)

def put (r : ρ) : Transaction Unit := fun s => (.ok (), s.put r)

/-- Fails with a conflict unless the condition holds. -/
def expect (holds : Bool) (reason : Conflict) : Transaction Unit :=
  if holds then pure () else throw (.conflict reason)

end Transaction

/-- Runs a transaction on the store, which changes only if the transaction succeeds. -/
def Store.commit {α : Type} (s : Store) (t : Transaction α) : Except StoreError α × Store :=
  match t s with
  | (.ok a, working) => (.ok a, working)
  | (.error e, _) => (.error e, s)

end Rollout
