import Liaozhai.Server.Shutdown

/-!
# A service at rest

Without input the service settles. The handlers, their rate limiter and the store never
hold each other up: as long as a handler does not wait for its client, or a call waits
for the store, there is a step to take, and only so many can be taken.
-/

namespace Liaozhai.Server

open Auth Net
set_option autoImplicit false

universe u v

namespace Service
variable {Hash : Type u} {Salt : Type v} {ctx : SessionContext} {argon2 : Argon2 Hash Salt}
  {s s' s₀ : Service Hash} {e : ServiceEvent Salt} {es : List (ServiceEvent Salt)} {id : Nat}
  {cfg : AppConfig} {dummyHash : Hash} {earlier : List (StoreCall Salt)}

/-- The loop accepts, no call waits for the store, and every handler waits for its client. -/
structure AtRest (s : Service Hash) : Prop where
  accepting : s.server.loop.phase = .accepting
  performed : ∀ id request, s.store.tasks id ≠ some (.queued request)
  waiting : ∀ id ∈ s.server.loop.running, ∃ client,
    s.server.clients.processes[id]? = some client ∧ client.connection.point = .waiting

/-- The steps without input are a machine of their own. -/
def quiet (ctx : SessionContext) (argon2 : Argon2 Hash Salt) :
    Service Hash → ServiceEvent Salt → Option (Service Hash) :=
  Machine.guarded (fun e => !isInput e) (step ctx argon2)

end Service

end Liaozhai.Server
