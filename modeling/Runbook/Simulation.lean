import Runbook.Run

/-!
# Simulated runs

A runner that touches nothing. It numbers what it creates; every other action returns the
argument `id`. Commands can be made to fail.
-/

namespace Runbook.Simulation

/-- A number with at least four digits. -/
def padded (n : Nat) : String :=
  let digits := Nat.toDigits 10 n
  String.ofList (List.replicate (4 - digits.length) '0' ++ digits)

/-- The name of what was created as the `n`-th. -/
def created (entity : String) (n : Nat) : String :=
  entity ++ "-sim-" ++ padded n

/-- The runner whose state is the number of things created. Commands whose action and entity have
an entry in `failures` fail with its message. -/
def runner (failures : OrderedMap String) : Runner Nat := fun call count =>
  match failures.get? (call.action ++ " " ++ call.entity) with
  | some message => (.error [message], count)
  | none =>
    -- Only creations are counted, and only those that succeed.
    if call.action = "create" then (.ok (.string (created call.entity (count + 1))), count + 1)
    else
      match call.arguments.get? "id" with
      | some id => (.ok id.toJson, count)
      | none => (.ok .null, count)

end Runbook.Simulation
