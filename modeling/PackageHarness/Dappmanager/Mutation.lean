/-
# PackageHarness.Dappmanager.Mutation — sending a package mutation, and when to send it again.

`retryMutation` is given an operation and a check whether the requested state has been reached; here
they are the requests `send` and `reconcile`, since the code knows nothing else of them. The client
library's errors are modelled by what the adapter reads of them, and their rendering is a function
`display` of the library. Log events, and the clock readings only they use, are left out.
-/
import PackageHarness.Interaction.Transcript
import PackageHarness.PackageManager

namespace PackageHarness

open Interaction

inductive DappnodeMcpError
  | configuration (message : String)
  | invalidArgument (field message : String)
  | timeout (operation : String)
  /-- `detail` is what else the client keeps about a transport failure. -/
  | transport (message detail : String)
  | tool (name message : String)
  | invalidResponse (operation message : String)

inductive MutationRequest
  | send
  | reconcile
  | instant
  | sleep (duration : Duration)

@[reducible] def MutationRequest.Answer : MutationRequest → Type
  | send => Except DappnodeMcpError Unit
  | reconcile => Bool
  | instant => Nat
  | sleep _ => Unit

abbrev Mutation := Program MutationRequest MutationRequest.Answer

namespace Mutation

def ask (request : MutationRequest) : Mutation request.Answer := Program.perform request

def send : Mutation (Except DappnodeMcpError Unit) := ask .send

def reconcile : Mutation Bool := ask .reconcile

def instant : Mutation Nat := ask .instant

def sleep (duration : Duration) : Mutation Unit := ask (.sleep duration)

end Mutation

namespace Dappmanager

open Mutation

/-- What the adapter was built with for its mutations. -/
structure MutationPolicy where
  mutationTimeout : Duration
  mutationAttempts : Nat
  mutationRetryDelay : Duration

/-- The check of `DappmanagerPackageManager::new` before it builds its clients. -/
def MutationPolicy.new (timeout : Duration) (attempts : Nat) (retryDelay : Duration) :
    Except PackageManagerError MutationPolicy :=
  if attempts = 0 then
    .error (.configuration "mutation attempts must be greater than zero")
  else .ok ⟨timeout, attempts, retryDelay⟩

/-- An adapter that was built has an attempt to make. -/
theorem MutationPolicy.new_attempts {timeout retryDelay : Duration} {attempts : Nat}
    {policy : MutationPolicy} (h : MutationPolicy.new timeout attempts retryDelay = .ok policy) :
    1 ≤ policy.mutationAttempts := by
  unfold MutationPolicy.new at h
  split at h
  · cases h
  · next hpositive =>
      cases h
      exact Nat.one_le_iff_ne_zero.mpr hpositive

/-- How often an operation that is reported as already running is re-checked. -/
def IN_PROGRESS_POLL : Duration := .ofMillis 10000

def operationInProgressError (message : String) : Bool :=
  let lower := toAsciiLowercase message
  containsText lower " is installing" || containsText lower " already installing" ||
    containsText lower " is updating" || containsText lower " already updating" ||
    containsText lower "operation is already in progress"

def retryableMutationError : DappnodeMcpError → Bool
  -- a timed-out mutation may still be running, so it is awaited, never resent
  | .timeout _ => false
  | .transport message _ => retryableTransportMessage message
  | .tool _ message => retryableToolMessage message
  | .configuration _ | .invalidArgument _ _ | .invalidResponse _ _ => false

def isTimeout : DappnodeMcpError → Bool
  | .timeout _ => true
  | _ => false

def retryDelay (initial : Duration) (failedAttempt : Nat) : Duration :=
  min (initial * 2 ^ min (failedAttempt - 1) 6) (.ofMillis 60000)

section

variable (display : DappnodeMcpError → String) (policy : MutationPolicy)

/-- Waits until the requested state becomes observable, or for as long as a mutation may take. -/
def awaitInProgress (error : DappnodeMcpError) : Mutation (Except DappnodeMcpError Unit) := do
  let started ← instant
  Program.iterate (fun (_ : Unit) => do
    if ← reconcile then
      return .inr (.ok ())
    else
      let current ← instant
      if policy.mutationTimeout ≤ current - started then
        return .inr (.error error)
      else
        sleep IN_PROGRESS_POLL
        return .inl ()) ()

/-- The attempts from `attempt` on, with `left` of them to go; `none` stands for the `unreachable!`
behind the loop. -/
def attemptMutation : (left attempt : Nat) → Mutation (Option (Except DappnodeMcpError Unit))
  | 0, _ => return none
  | left + 1, attempt => do
      match ← send with
      | .ok _ => return some (.ok ())
      | .error error =>
          if operationInProgressError (display error) then
            return some (← awaitInProgress policy error)
          else if isTimeout error then
            return some (← awaitInProgress policy error)
          else if attempt < policy.mutationAttempts ∧ retryableMutationError error then
            if ← reconcile then
              return some (.ok ())
            else
              sleep (retryDelay policy.mutationRetryDelay attempt)
              attemptMutation left (attempt + 1)
          else
            return some (.error error)

def retryMutation : Mutation (Option (Except DappnodeMcpError Unit)) :=
  attemptMutation display policy policy.mutationAttempts 1

end

end Dappmanager

end PackageHarness
