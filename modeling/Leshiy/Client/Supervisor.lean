import Leshiy.Lib.Duration

/-!
# The supervisor machine

`Machine::handle` of `leshiy-client/src/supervisor.rs`: the pure part of the client's supervisor. It
takes an input and answers with the actions that the shell has to perform, in order.
-/

namespace Leshiy.Client

open Leshiy.Lib

inductive State where
  | disconnected
  | connecting
  | connected
  | reconnecting
  | error
  deriving DecidableEq, Repr

inductive Input where
  | connect
  | disconnect
  | dialSucceeded
  | dialFailed
  | serviceFailed
  | tunnelDropped
  | backoffElapsed
  | connectivity (online : Bool)
  deriving DecidableEq, Repr

inductive Action where
  | dial
  | setProxy
  | clearProxy
  | startServing
  | stopServing
  | scheduleBackoff (delay : Duration)
  | emit (state : State)
  deriving DecidableEq, Repr

/-- Exponential backoff with a cap. The exponent stops at 16, so the factor fits its `u32`. -/
def backoffDelay (attempt : Nat) (base max : Duration) : Duration :=
  (base.saturatingMul (2 ^ Nat.min attempt 16)).min max

structure Machine where
  state : State
  killSwitch : Bool
  proxySet : Bool
  attempt : Nat
  base : Duration
  max : Duration
  online : Bool
  deriving DecidableEq, Repr

namespace Machine

def new (killSwitch : Bool) (base max : Duration) : Machine where
  state := .disconnected
  killSwitch := killSwitch
  proxySet := false
  attempt := 0
  base := base
  max := max
  online := true

/-- What a successful dial asks for, on the first connection as on a later one. -/
def serve (m : Machine) : Machine × List Action :=
  ({ m with state := .connected, proxySet := true },
    .startServing :: ((if m.proxySet then [] else [.setProxy]) ++ [.emit .connected]))

/-- `clear_proxy` if the machine believes that the proxy is set. -/
def unset (m : Machine) : List Action := if m.proxySet then [.clearProxy] else []

def handle (m : Machine) (input : Input) : Machine × List Action :=
  match m.state, input with
  | _, .serviceFailed =>
    -- a retry must set the proxy again
    ({ m with state := .error, proxySet := false }, [.stopServing, .emit .error])
  | .error, .disconnect =>
    ({ m with state := .disconnected, proxySet := false },
      [.stopServing, .clearProxy, .emit .disconnected])
  | .disconnected, .connect | .error, .connect =>
    ({ m with state := .connecting, attempt := 0 }, [.emit .connecting, .dial])
  | .connecting, .dialSucceeded => m.serve
  | .connecting, .dialFailed => ({ m with state := .error }, [.emit .error])
  | .connecting, .disconnect =>
    -- whatever the flag says: a service failure may have left the proxy installed
    ({ m with state := .disconnected, proxySet := false }, [.clearProxy, .emit .disconnected])
  | .connected, .tunnelDropped =>
    let m' := { m with state := .reconnecting, attempt := 0 }
    let delay := backoffDelay m'.attempt m'.base m'.max
    if !m.killSwitch && m.proxySet then
      ({ m' with proxySet := false },
        [.stopServing, .clearProxy, .scheduleBackoff delay, .emit .reconnecting])
    else (m', [.stopServing, .scheduleBackoff delay, .emit .reconnecting])
  | .connected, .disconnect =>
    ({ m with state := .disconnected, proxySet := false },
      .stopServing :: (m.unset ++ [.emit .disconnected]))
  | .reconnecting, .backoffElapsed => (m, if m.online then [.dial] else [])
  | .reconnecting, .connectivity o =>
    if o && !m.online then ({ m with online := o, attempt := 0 }, [.dial])
    else ({ m with online := o }, [])
  | .reconnecting, .dialSucceeded => { m with attempt := 0 }.serve
  | .reconnecting, .dialFailed =>
    let m' := { m with attempt := Nat.min (m.attempt + 1) (2 ^ 32 - 1) }
    (m', [.scheduleBackoff (backoffDelay m'.attempt m'.base m'.max)])
  | .reconnecting, .disconnect =>
    ({ m with state := .disconnected, proxySet := false }, m.unset ++ [.emit .disconnected])
  | _, .connectivity o => ({ m with online := o }, [])
  | _, _ => (m, [])

section

variable {m : Machine} {input : Input}

@[simp] theorem handle_killSwitch : (m.handle input).1.killSwitch = m.killSwitch := by
  fun_cases handle m input <;> rfl

/-- Nothing that follows a service failure can fail in its turn. -/
theorem handle_serviceFailed : m.handle .serviceFailed =
    ({ m with state := .error, proxySet := false }, [.stopServing, .emit .error]) := by
  unfold handle
  cases m.state <;> rfl

/-- Who asks for the proxy to be cleared: the user, and without a kill switch a tunnel that went
down. -/
theorem of_clearProxy_mem (h : .clearProxy ∈ (m.handle input).2) :
    input = .disconnect ∨ (input = .tunnelDropped ∧ m.killSwitch = false) := by
  revert h
  fun_cases handle m input <;> simp_all [serve]

/-- Who asks for the proxy to be set: a dial that succeeded, while the machine does not believe that it is
set. -/
theorem of_setProxy_mem (h : .setProxy ∈ (m.handle input).2) :
    input = .dialSucceeded ∧ m.proxySet = false := by
  revert h
  fun_cases handle m input <;> simp_all [serve, unset]

end

end Machine

end Leshiy.Client
