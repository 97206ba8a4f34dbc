import Tenancit.Webhook.Deliveries

/-!
`webhook/worker.go`: how a worker ends a delivery it has claimed. The decisions are taken
from the counters read at the claim. Sending the request, and the pseudo-random stretching
of the delay, are outside: their results are arguments.
-/
namespace Tenancit.Webhook

open Encoding Store

def maxAttempts : Int := 8

/-- What `Claim` hands out: the rows it has taken, with the failure counters of their targets. -/
def claimed (now : Timestamp) (limit : Nat) (token : UUID) (locked : RowKey → Bool)
    (s : EventTables) : List Delivery :=
  (((candidates now limit locked s).insertionSort fun a b => a.id ≤ b.id).flatMap fun d =>
    (Table.rowsAt WebhookTarget.id d.targetId s.targets).map fun t =>
      ⟨d.id, d.eventId, d.targetId, token, d.attemptCount + 1, t.consecutiveFailures⟩)

/-- The exponential delay before the next attempt. -/
def delay (attemptCount : Int) : Duration :=
  Timestamp.seconds (2 ^ (min (attemptCount - 1) 9).toNat)

/-- The circuit is opened: the failure after those counted at the claim is at least the
fifth, and the delivery will be tried again. The counter is an `int32`. -/
def OpensCircuit (d : Delivery) (dead : Bool) : Prop :=
  5 ≤ (d.consecutiveFailures + 1).bmod (2 ^ 32) ∧ dead = false

instance (d : Delivery) (dead : Bool) : Decidable (OpensCircuit d dead) :=
  inferInstanceAs (Decidable (_ ∧ _))

/-- How long a circuit stays open. -/
def circuitTime : Duration := Timestamp.seconds 60

/-- `Worker.fail`: the failure it marks. -/
def fail (stretched : Duration → Duration) (d : Delivery) (now : Timestamp) (status : Option Int)
    (code : String) (permanent : Bool) (letterId : UUID) (clock : Timestamp) : Operation :=
  let dead := permanent || maxAttempts ≤ d.attemptCount
  let next := now + stretched (delay d.attemptCount)
  let value := now + circuitTime
  .markFailed d now (if OpensCircuit d dead ∧ next < value then value else next) status code dead
    (if OpensCircuit d dead then some value else none) letterId clock

/-- How the sending of a delivery ends. -/
inductive Outcome where
  | decryptFailed
  | endpointRejected
  | renderFailed
  | requestFailed
  | networkError
  | response (status : Int)

/-- A status that will not change when the delivery is tried again. -/
def permanentStatus (status : Int) : Bool :=
  400 ≤ status && status < 500 && status ≠ 408 && status ≠ 429

/-- `Worker.deliver`: the transaction it ends with. -/
def deliver (stretched : Duration → Duration) (d : Delivery) (now : Timestamp) (letterId : UUID)
    (clock : Timestamp) : Outcome → Operation
  | .decryptFailed => fail stretched d now none "decrypt_failed" false letterId clock
  | .endpointRejected => fail stretched d now none "endpoint_rejected" true letterId clock
  | .renderFailed => fail stretched d now none "render_failed" true letterId clock
  | .requestFailed => fail stretched d now none "request_failed" false letterId clock
  | .networkError => fail stretched d now none "network_error" false letterId clock
  | .response status =>
    if 200 ≤ status ∧ status < 300 then .markDelivered d now status
    else fail stretched d now (some status) ("http_" ++ toString status)
      (permanentStatus status) letterId clock

/-- The transactions that are started: those of workers and of the admin handlers. -/
inductive Scheduled : Operation → Prop
  | deliver (stretched : Duration → Duration) (d : Delivery) (now : Timestamp)
      (letterId : UUID) (clock : Timestamp)
      (outcome : Outcome) : Scheduled (deliver stretched d now letterId clock outcome)
  | replay (deliveryId : UUID) (now : Timestamp) : Scheduled (.replay deliveryId now)
  | setStatus (targetId : UUID) (status : TargetStatus) (clock : Timestamp) :
      Scheduled (.setStatus targetId status clock)

/-- A failure that is final whatever the attempt, by its status and its code. -/
def permanentFailure (status : Option Int) (code : String) : Bool :=
  code = "endpoint_rejected" || code = "render_failed" || status.any permanentStatus

theorem permanentFailure_http (n : Int) :
    permanentFailure (some n) ("http_" ++ toString n) = permanentStatus n := by
  have hne : ∀ code : String, code.toList.head? ≠ some 'h' → "http_" ++ toString n ≠ code := by
    rintro code hhead rfl
    simp at hhead
  rw [permanentFailure, decide_eq_false (hne "endpoint_rejected" (by decide)),
    decide_eq_false (hne "render_failed" (by decide))]
  rfl

/-- The failures that are started are those of `Worker.fail`, permanent as their status and
their code say. -/
theorem Scheduled.markFailed {d : Delivery} {now next clock : Timestamp} {status : Option Int}
    {code : String} {dead : Bool} {openUntil : Option Timestamp} {letterId : UUID}
    (h : Scheduled (.markFailed d now next status code dead openUntil letterId clock)) :
    ∃ stretched, .markFailed d now next status code dead openUntil letterId clock =
      fail stretched d now status code (permanentFailure status code) letterId clock := by
  generalize hop : Operation.markFailed d now next status code dead openUntil
    letterId clock = op at h
  cases h with
  | deliver stretched d' now' letterId' clock' outcome =>
    cases outcome with
    | response n =>
      simp only [Webhook.deliver] at hop
      split at hop
      · cases hop
      · cases hop
        refine ⟨stretched, ?_⟩
        rw [permanentFailure_http, Webhook.deliver, if_neg ‹_›]
    | decryptFailed | endpointRejected | renderFailed | requestFailed | networkError =>
      cases hop
      exact ⟨stretched, rfl⟩
  | replay => cases hop
  | setStatus => cases hop

/-- The failures of workers open the circuit of their target as `OpensCircuit` says. -/
theorem Scheduled.openUntil {d : Delivery} {now next clock : Timestamp} {status : Option Int}
    {code : String} {dead : Bool} {openUntil : Option Timestamp} {letterId : UUID}
    (h : Scheduled (.markFailed d now next status code dead openUntil letterId clock)) :
    openUntil = if OpensCircuit d dead then some (now + circuitTime) else none := by
  obtain ⟨stretched, hfail⟩ := h.markFailed
  cases hfail
  rfl

/-- A delivery is given up after a permanent failure or at the eighth attempt. -/
theorem Scheduled.dead {d : Delivery} {now next clock : Timestamp} {status : Option Int}
    {code : String} {dead : Bool} {openUntil : Option Timestamp} {letterId : UUID}
    (h : Scheduled (.markFailed d now next status code dead openUntil letterId clock)) :
    dead = (permanentFailure status code || maxAttempts ≤ d.attemptCount) := by
  obtain ⟨stretched, hfail⟩ := h.markFailed
  cases hfail
  rfl

end Tenancit.Webhook
