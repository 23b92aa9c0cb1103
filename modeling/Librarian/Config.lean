import Librarian.InstanceLease
import Librarian.Postgres.Database
import Librarian.Subscriptions

/-! # The configuration of a process

What `Config::from_env` does before the loop runs: it reads the environment, enrolls with the
kernel where it can, makes sure of the subscriptions and connects to the database. It stops at
the first error. The environment, the files and the crates' clients are calls.
-/
namespace Librarian
open Foundation

def kernelAuthorityEnv : String := "KERNEL_AUTHORITY"
def librarianServiceIdEnv : String := "LIBRARIAN_SERVICE_ID"
def claimLeaseSecondsEnv : String := "CLAIM_LEASE_SECONDS"
def pollIntervalSecondsEnv : String := "POLL_INTERVAL_SECONDS"
def kernelCaCertPathEnv : String := "KERNEL_CA_CERT_PATH"
def enrollmentChallengeEnv : String := "ENROLLMENT_CHALLENGE"
def serviceEndpointEnv : String := "SERVICE_ENDPOINT"
def podUidEnv : String := "POD_UID"
def workloadTokenPathEnv : String := "WORKLOAD_TOKEN_PATH"
def databaseUrlEnv : String := "LIBRARIAN_DATABASE_URL"

def defaultWorkloadTokenPath : String := "/var/run/secrets/infernal-law-enrollment/token"
def defaultLeaseSeconds : ℤ := 300
def defaultPollIntervalSeconds : ℕ := 5

inductive DatabaseError where
  | emptyUrl
  | invalidPostgresConfig
  | missingEnvironment (name : String)
  | pool
  | query
  deriving DecidableEq

/-- The errors of `Config::from_env`; `kernel` are those it shares with the passes. -/
inductive ConfigError where
  | missingEnv (name : String)
  | invalidServiceId
  | caCertificateUnreadable
  | enrollmentTokenUnreadable
  | invalidEnrollmentChallenge
  | kernel (error : LibrarianError)
  | database (error : DatabaseError)
  deriving DecidableEq

abbrev Challenge := Vector UInt8 32

/-- The decoder `URL_SAFE_NO_PAD` of the `base64` crate. -/
class UrlSafeNoPad where
  decode : String → Option (List UInt8)

def decodeChallenge [UrlSafeNoPad] (value : String) : Except ConfigError Challenge :=
  match UrlSafeNoPad.decode value with
  | none => .error .invalidEnrollmentChallenge
  | some bytes =>
    if h : bytes.length = 32 then .ok ⟨bytes.toArray, h⟩ else .error .invalidEnrollmentChallenge

/-- `str::parse::<u64>`. -/
def parseU64 (s : String) : Option ℕ :=
  let value := match s.toList with
    | '+' :: digits => parseDigits digits
    | digits => parseDigits digits
  value.filter fun n => n ≤ 18446744073709551615

/-- The kernel as this process calls it. -/
structure KernelClient where
  authority : String
  serviceId : Uuid
  extraRoot : Option (List UInt8)
  deriving DecidableEq

def KernelClient.baseUrl (client : KernelClient) : String := "https://" ++ client.authority

/-- What the configuration asks of its surroundings. -/
inductive ConfigOp where
  | var (name : String)
  | readFile (path : String)
  | readToString (path : String)
  | newClient (extraRoot : Option (List UInt8))
  | requestChallenge (baseUrl podUid workloadToken : String)
  | enroll (baseUrl : String) (challenge : Challenge) (endpoint podUid workloadToken : String)
  | subscription (op : SubscriptionOp)
  | parsePostgresConfig (url : String)
  | buildPool (url : String) (maxSize : ℕ)
  | getConnection
  | simpleQuery (query : String)
  | batchExecute
  deriving DecidableEq

/-- `none` is a variable that is not set, or a failure. -/
def ConfigOp.Ans : ConfigOp → Type
  | .var _ | .readToString _ => Option String
  | .readFile _ => Option (List UInt8)
  | .requestChallenge _ _ _ => Option Challenge
  | .enroll _ _ _ _ _ => Option RenewedLease
  | .subscription op => op.Ans
  | _ => Option Unit

abbrev Configuring (α : Type) := Fallible ConfigOp ConfigOp.Ans ConfigError α

structure Config where
  client : KernelClient
  databaseUrl : String
  leaseSeconds : ℤ
  pollInterval : ℕ
  instanceLease : Option InstanceLease
  deriving DecidableEq

namespace Config

/-- A variable that may be missing. -/
def var (name : String) : Configuring (Option String) :=
  ExceptT.mk (.call (.var name) fun ans => .ret (.ok ans))

/-- An answer, or the error that stands for the lack of one. -/
def orError {α : Type} (error : ConfigError) : Option α → Except ConfigError α
  | some a => .ok a
  | none => .error error

def required (name : String) (error : ConfigError) : Configuring String :=
  ExceptT.mk (.call (.var name) fun (ans : Option String) => .ret (orError error ans))

def readFile (path : String) : Configuring (List UInt8) :=
  ExceptT.mk (.call (.readFile path) fun (ans : Option (List UInt8)) =>
    .ret (orError .caCertificateUnreadable ans))

def readToString (path : String) : Configuring String :=
  ExceptT.mk (.call (.readToString path) fun (ans : Option String) =>
    .ret (orError .enrollmentTokenUnreadable ans))

def newClient (extraRoot : Option (List UInt8)) : Configuring Unit :=
  ExceptT.mk (.call (.newClient extraRoot) fun (ans : Option Unit) =>
    .ret (orError (.kernel .client) ans))

def requestChallenge (client : KernelClient) (podUid workloadToken : String) :
    Configuring Challenge :=
  ExceptT.mk (.call (.requestChallenge client.baseUrl podUid workloadToken)
    fun (ans : Option Challenge) => .ret (orError (.kernel .client) ans))

def enroll (client : KernelClient) (challenge : Challenge) (endpoint podUid workloadToken : String) :
    Configuring RenewedLease :=
  ExceptT.mk (.call (.enroll client.baseUrl challenge endpoint podUid workloadToken)
    fun (ans : Option RenewedLease) => .ret (orError (.kernel .client) ans))

def ensureSubscriptions : Configuring Unit :=
  ExceptT.mk (((Startup.ensureAll actions).run.embed .subscription fun _ ans => ans).bind
    fun res => .ret (res.mapError .kernel))

/-- A step of `Database::connect_from_env`. -/
def database (op : ConfigOp) (answer : op.Ans → Option Unit) (error : DatabaseError) :
    Configuring Unit :=
  ExceptT.mk (.call op fun ans => .ret (orError (.database error) (answer ans)))

def checkConnection : Configuring Unit := do
  database .getConnection id .pool
  database (.simpleQuery "SELECT 1") id .query

def migrate : Configuring Unit := do
  database .getConnection id .pool
  database .batchExecute id .query

def openDatabase (url : String) : Configuring Unit := do
  database (.parsePostgresConfig url) id .invalidPostgresConfig
  database (.buildPool url Postgres.defaultMaxPoolSize) id .pool
  checkConnection
  migrate

/-- `Database::connect_from_env`; a database is known by its URL. -/
def connectFromEnv : Configuring String := do
  let url ← required databaseUrlEnv (.database (.missingEnvironment databaseUrlEnv))
  if isBlank url then throw (.database .emptyUrl)
  else do
    openDatabase url
    pure url

/-- The client, which trusts the certificate authority that is configured, if any. -/
def connectClient (authority : String) (serviceId : Uuid) : Configuring KernelClient := do
  match ← var kernelCaCertPathEnv with
  | some path => do
    let pem ← readFile path
    newClient (some pem)
    pure ⟨authority, serviceId, some pem⟩
  | none => do
    newClient none
    pure ⟨authority, serviceId, none⟩

variable [UrlSafeNoPad]

/-- The challenge that was injected, or one that the kernel issues to this process. -/
def obtainChallenge (client : KernelClient) (podUid workloadToken : String) :
    Configuring Challenge := do
  match ← var enrollmentChallengeEnv with
  | some injected => (decodeChallenge injected : Except ConfigError Challenge)
  | none => requestChallenge client podUid workloadToken

/-- The enrollment, for a process that knows its endpoint and its pod. -/
def enrollInstance (client : KernelClient) (endpoint podUid : String) :
    Configuring InstanceLease := do
  let tokenPath ← var workloadTokenPathEnv
  let workloadToken ← readToString (tokenPath.getD defaultWorkloadTokenPath)
  let challenge ← obtainChallenge client podUid (trim workloadToken)
  let enrolled ← enroll client challenge endpoint podUid (trim workloadToken)
  pure ⟨enrolled.leaseRevision, enrolled.leaseExpiresAt⟩

def obtainLease (client : KernelClient) : Configuring (Option InstanceLease) := do
  let endpoint ← var serviceEndpointEnv
  let podUid ← var podUidEnv
  match endpoint, podUid with
  | some endpoint, some podUid => some <$> enrollInstance client endpoint podUid
  | _, _ => pure none

variable [UuidText]

def fromEnv : Configuring Config := do
  let authority ← required kernelAuthorityEnv (.missingEnv kernelAuthorityEnv)
  let serviceId ← required librarianServiceIdEnv (.missingEnv librarianServiceIdEnv)
  let serviceId ← orError .invalidServiceId (UuidText.parse serviceId)
  let leaseSeconds ← var claimLeaseSecondsEnv
  let pollInterval ← var pollIntervalSecondsEnv
  let client ← connectClient authority serviceId
  let instanceLease ← obtainLease client
  ensureSubscriptions
  let databaseUrl ← connectFromEnv
  pure {
    client := client
    databaseUrl := databaseUrl
    leaseSeconds := (leaseSeconds.bind parseI64).getD defaultLeaseSeconds
    pollInterval := (pollInterval.bind parseU64).getD defaultPollIntervalSeconds
    instanceLease := instanceLease }

end Config
end Librarian
