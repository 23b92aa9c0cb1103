import Librarian.Service.System

/-! # Completed routes stay closed

Nothing in a run of the service reopens a completed route, so once the kernel accepted the
completion of a claim its route is never eligible and never claimed again.
-/
namespace Librarian.Service
open Foundation Postgres

/-- The kernel processes the completion of a claim and accepts it. -/
inductive Accepts (claimId : String) : Action → Prop
  | ask {i : ℕ} {fencingToken : ℤ} {response : Response WorkClaim} {done : WorkClaim}
      (h : response.expect 200 = .ok done) :
      Accepts claimId (.ask i (.completeClaim claimId fencingToken) response)
  | arrive {fencingToken : ℤ} {response : Response WorkClaim} {done : WorkClaim}
      (h : response.expect 200 = .ok done) :
      Accepts claimId (.arrive (.completeClaim claimId fencingToken) response)

variable [Sha256] [TextSearch] [UuidText] {s s' : State} {a : Action} {routeId : String}

theorem Moves.completed (h : Moves s a s') (hx : s.kernel.Completed routeId) :
    s'.kernel.Completed routeId := by
  cases h with
  | accept h => exact hx.accept h
  | addRoute h => exact hx.addRoute h
  | expire h => exact hx.expire h
  | arrive _ h => exact hx.respond h
  | ask _ h => exact hx.respond h
  | _ => exact hx

theorem Moves.accepts {claim : WorkClaim} (h : Moves s a s') (ha : Accepts claim.claimId a)
    (hclaim : s.kernel.claims claim.claimId = some claim) : s'.kernel.Completed claim.routeId := by
  cases ha with
  | ask hr =>
    cases h with
    | ask _ h => exact Kernel.respond_completes h hr hclaim
  | arrive hr =>
    cases h with
    | arrive _ h => exact Kernel.respond_completes h hr hclaim

theorem completed_stays {t : List (State × Action)} (ht : system.Trace t s) {i j : ℕ} (hij : i ≤ j)
    (hx : (System.stateAt t s i).kernel.Completed routeId) :
    (System.stateAt t s j).kernel.Completed routeId := by
  have hkeeps : ∀ x b y, system.Reachable x → system.step x b y →
      (x.kernel.Completed routeId → y.kernel.Completed routeId) :=
    fun x b y _ hs => (step_moves hs).completed
  exact ht.monotone (fun _ h => h) (fun h h' hc => h' (h hc)) hkeeps hij hx

/-- After the kernel accepted the completion of a claim, its route is never eligible and never
claimed again. -/
def Closes (claim : WorkClaim) : Prop :=
  ∀ (t : List (State × Action)) (s : State), system.Trace t s → ∀ i x a, t[i]? = some (x, a) →
    Accepts claim.claimId a → x.kernel.claims claim.claimId = some claim → ∀ j, i < j →
      (System.stateAt t s j).kernel.isEligible claim.routeId = false ∧
        ∀ other, (System.stateAt t s j).kernel.grant claim.routeId other = none

theorem closes (claim : WorkClaim) : Closes claim := by
  intro t s ht i x a hi ha hclaim j hij
  have hs := ht.step_at hi
  have hnow := (step_moves hs).accepts ha hclaim
  have hlater := completed_stays ht hij hnow
  exact ⟨hlater.not_eligible, fun _ => hlater.not_granted⟩

end Librarian.Service
