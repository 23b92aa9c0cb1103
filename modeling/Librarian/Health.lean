import Librarian.Domain
import Librarian.Postgres.Schema

/-! # The probe endpoint

The heartbeat of the work loop and the policy that turns it into an answer. Times are the
seconds of `now_seconds`, an `i64`.
-/
namespace Librarian.Health

/-- When the loop last completed a pass; zero means "not yet". -/
structure Heartbeat where
  value : ℤ
  deriving DecidableEq

namespace Heartbeat

def new : Heartbeat := ⟨0⟩

def recordSuccess (_ : Heartbeat) (at' : ℤ) : Heartbeat := ⟨at'⟩

/-- `i64::saturating_sub`. -/
def saturatingSub (a b : ℤ) : ℤ := max Postgres.i64Min (min (a - b) Postgres.i64Max)

def age (heartbeat : Heartbeat) (now : ℤ) : Option ℤ :=
  if heartbeat.value = 0 then none else some (saturatingSub now heartbeat.value)

end Heartbeat

structure Thresholds where
  readyStaleSeconds : ℤ
  liveStaleSeconds : ℤ
  deriving DecidableEq

def Thresholds.default : Thresholds := ⟨30, 150⟩

def livePath : String := "/health/live"
def readyPath : String := "/health/ready"

def ok : String := "200 OK"
def unavailable : String := "503 Service Unavailable"

/-- The status line and the body of a probe's answer. -/
def evaluate (path : String) (heartbeat : Heartbeat) (databaseOk : Bool) (thresholds : Thresholds)
    (now : ℤ) : String × String :=
  if path = livePath then
    match heartbeat.age now with
    | none => (ok, "starting\n")
    | some age =>
      if age ≤ thresholds.liveStaleSeconds then (ok, "ok\n")
      else (unavailable, s!"no successful kernel pass for {age}s\n")
  else if path = readyPath then
    if databaseOk then
      match heartbeat.age now with
      | none => (unavailable, "no successful kernel pass yet\n")
      | some age =>
        if age ≤ thresholds.readyStaleSeconds then (ok, "ok\n")
        else (unavailable, s!"last successful kernel pass {age}s ago\n")
    else (unavailable, "database unavailable\n")
  else ("404 Not Found", "not found\n")

/-- `str::split_whitespace`. -/
def splitWhitespace (s : List Char) : List (List Char) :=
  (s.splitOnP isWhitespace).filter (· ≠ [])

/-- The second word of the first line of a request. -/
def requestPath (request : String) : String :=
  match splitWhitespace (request.toList.takeWhile (· ≠ '\n')) with
  | _ :: path :: _ => .ofList path
  | _ => ""

/-- The answer to the text of a request. The database is asked for readiness only. -/
def probe (thresholds : Thresholds) (heartbeat : Heartbeat) (now : ℤ) (databaseReachable : Bool)
    (request : String) : String × String :=
  let path := requestPath request
  let databaseOk := path ≠ readyPath || databaseReachable
  evaluate path heartbeat databaseOk thresholds now

/-- The text sent back. -/
def handleConnection (thresholds : Thresholds) (heartbeat : Heartbeat) (now : ℤ)
    (databaseReachable : Bool) (request : String) : String :=
  let (status, body) := probe thresholds heartbeat now databaseReachable request
  "HTTP/1.1 " ++ status ++ "\r\nContent-Type: text/plain\r\nContent-Length: " ++
    toString body.utf8ByteSize ++ "\r\nConnection: close\r\n\r\n" ++ body

theorem requestPath_get : requestPath "GET /health/live HTTP/1.1" = livePath := by decide

section Policy
variable {heartbeat : Heartbeat} {thresholds : Thresholds} {now : ℤ} {request : String}

/-- Liveness never depends on the database. -/
theorem probe_live (h : requestPath request = livePath) (databaseReachable : Bool) :
    probe thresholds heartbeat now databaseReachable request =
      evaluate livePath heartbeat true thresholds now := by
  have hne : livePath ≠ readyPath := by decide
  simp [probe, h, hne]

theorem ok_ne_unavailable : ok ≠ unavailable := by decide

theorem evaluate_live_starting (h : heartbeat.age now = none) (databaseOk : Bool) :
    evaluate livePath heartbeat databaseOk thresholds now = (ok, "starting\n") := by
  simp [evaluate, h]

theorem evaluate_live_some {age : ℤ} (h : heartbeat.age now = some age) (databaseOk : Bool) :
    (evaluate livePath heartbeat databaseOk thresholds now).1 =
      if age ≤ thresholds.liveStaleSeconds then ok else unavailable := by
  simp only [evaluate, h, if_true]
  split <;> rfl

theorem probe_of_ready (h : requestPath request = readyPath) (databaseReachable : Bool) :
    probe thresholds heartbeat now databaseReachable request =
      evaluate readyPath heartbeat databaseReachable thresholds now := by
  simp [probe, h]

theorem evaluate_ready_starting (h : heartbeat.age now = none) (databaseOk : Bool) :
    (evaluate readyPath heartbeat databaseOk thresholds now).1 = unavailable := by
  have hne : readyPath ≠ livePath := by decide
  cases databaseOk <;> simp [evaluate, h, hne]

theorem evaluate_ready_some {age : ℤ} (h : heartbeat.age now = some age) (databaseOk : Bool) :
    (evaluate readyPath heartbeat databaseOk thresholds now).1 =
      if databaseOk = true ∧ age ≤ thresholds.readyStaleSeconds then ok else unavailable := by
  have hne : readyPath ≠ livePath := by decide
  cases databaseOk with
  | false => simp [evaluate, hne]
  | true =>
    simp only [evaluate, h, if_neg hne, if_true, true_and]
    split <;> rfl

end Policy

/-- Times of one clock are subtracted exactly. -/
theorem Heartbeat.saturatingSub_eq {a b : ℤ} (hb : 0 ≤ b) (hab : b ≤ a) (ha : a ≤ Postgres.i64Max) :
    saturatingSub a b = a - b := by
  simp only [saturatingSub, Postgres.i64Min, Postgres.i64Max] at *
  omega

end Librarian.Health
