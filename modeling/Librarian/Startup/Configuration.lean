import Librarian.Config
import Librarian.Foundation.Conversation
import Librarian.Startup.System
import Librarian.WorkOnce

/-! # What a start does before its loop

The conversation of a configuration with its surroundings, whatever they answer: it ends at the
first answer that is an error, takes its steps in the order of the source, and succeeds only
with every subscription in place and the database migrated.
-/
namespace Librarian.Startup
open Foundation Program Config

/-- The conversation of a configuration. -/
abbrev ConfigTalk := List ((op : ConfigOp) × op.Ans)

/-- The stage a variable is read in. -/
def varStage (name : String) : ℕ :=
  if name = kernelAuthorityEnv ∨ name = librarianServiceIdEnv ∨ name = claimLeaseSecondsEnv ∨
    name = pollIntervalSecondsEnv then 0
  else if name = kernelCaCertPathEnv then 1
  else if name = databaseUrlEnv then 4
  else 2

/-- The identity, the client, the enrollment, the subscriptions and the database, in this order. -/
def stage : ConfigOp → ℕ
  | .var name => varStage name
  | .readFile _ | .newClient _ => 1
  | .readToString _ | .requestChallenge _ _ _ | .enroll _ _ _ _ _ => 2
  | .subscription _ => 3
  | _ => 4

/-- A subscription to the action was in the kernel's answer to the query for active ones, whatever
state it names, or the kernel accepted a new one. -/
def Ensured (talk : ConfigTalk) (action : String) : Prop :=
  (∃ subscriptions, ⟨.subscription .activeSubscriptions, .ok subscriptions⟩ ∈ talk ∧
    ∃ s ∈ subscriptions, s.eventType = action) ∨
  ∃ created, ⟨.subscription (.createSubscription action), .ok created⟩ ∈ talk

section Refusals
variable [UrlSafeNoPad] [UuidText]

/-- The error that the value of a variable is. -/
def refusedVar (name : String) (value : Option String) : Option ConfigError :=
  if name = kernelAuthorityEnv then errorOf (orError (.missingEnv name) value)
  else if name = librarianServiceIdEnv then
    errorOf ((orError (.missingEnv name) value).bind fun text =>
      orError .invalidServiceId (UuidText.parse text))
  else if name = enrollmentChallengeEnv then value.bind fun text => errorOf (decodeChallenge text)
  else if name = databaseUrlEnv then
    errorOf ((orError (.database (.missingEnvironment name)) value).bind fun url =>
      if isBlank url then .error (.database .emptyUrl) else .ok url)
  else none

/-- The error of the kernel's answer. -/
def refusedSubscription : (op : SubscriptionOp) → op.Ans → Option LibrarianError
  | .activeSubscriptions => fun (ans : Except LibrarianError (List Subscription)) => errorOf ans
  | .createSubscription _ => fun (ans : Except LibrarianError Subscription) => errorOf ans

/-- The error that an answer is, if it is one. -/
def refusal : (op : ConfigOp) → op.Ans → Option ConfigError
  | .var name => refusedVar name
  | .readFile _ => fun (ans : Option (List UInt8)) => errorOf (orError .caCertificateUnreadable ans)
  | .readToString _ => fun (ans : Option String) => errorOf (orError .enrollmentTokenUnreadable ans)
  | .newClient _ => fun (ans : Option Unit) => errorOf (orError (.kernel .client) ans)
  | .requestChallenge _ _ _ => fun (ans : Option Challenge) => errorOf (orError (.kernel .client) ans)
  | .enroll _ _ _ _ _ => fun (ans : Option RenewedLease) => errorOf (orError (.kernel .client) ans)
  | .subscription op => fun ans => (refusedSubscription op ans).map .kernel
  | .parsePostgresConfig _ =>
    fun (ans : Option Unit) => errorOf (orError (.database .invalidPostgresConfig) ans)
  | .buildPool _ _ | .getConnection => fun (ans : Option Unit) => errorOf (orError (.database .pool) ans)
  | .simpleQuery _ | .batchExecute => fun (ans : Option Unit) => errorOf (orError (.database .query) ans)

variable {α : Type}

theorem failsFast_var {name : String} (h : ∀ value, refusedVar name value = none) :
    FailsFast refusal (var name).run := failsFast_call h

theorem failsFast_required {name : String} {error : ConfigError}
    (h : ∀ value, refusedVar name value = errorOf (orError error value)) :
    FailsFast refusal (required name error).run := failsFast_call h

theorem failsFast_database {op : ConfigOp} {answer : op.Ans → Option Unit} {error : DatabaseError}
    (h : ∀ ans, refusal op ans = errorOf (orError (.database error) (answer ans))) :
    FailsFast refusal (database op answer error).run := failsFast_call h

theorem failsFast_connectClient (authority : String) (serviceId : Uuid) :
    FailsFast refusal (connectClient authority serviceId).run := by
  refine (failsFast_var fun _ => rfl).bind fun path => ?_
  cases path with
  | none => exact (failsFast_call fun _ => rfl).bind fun _ => failsFast_pure _
  | some path =>
    exact (failsFast_call fun _ => rfl).bind fun _ =>
      (failsFast_call fun _ => rfl).bind fun _ => failsFast_pure _

theorem failsFast_obtainChallenge (client : KernelClient) (podUid workloadToken : String) :
    FailsFast refusal (obtainChallenge client podUid workloadToken).run := by
  intro value
  cases value with
  | none =>
    have hask : FailsFast refusal (requestChallenge client podUid workloadToken).run :=
      failsFast_call fun _ => rfl
    exact ⟨fun e he => (by cases he), fun _ => hask⟩
  | some text => exact failsFast_ret (decodeChallenge text)

theorem failsFast_obtainLease (client : KernelClient) :
    FailsFast refusal (obtainLease client).run := by
  have henroll : ∀ endpoint podUid,
      FailsFast refusal (enrollInstance client endpoint podUid).run := by
    intro endpoint podUid
    refine (failsFast_var fun _ => rfl).bind fun path => ?_
    refine (failsFast_call fun _ => rfl).bind fun token => ?_
    refine (failsFast_obtainChallenge client podUid (trim token)).bind fun challenge => ?_
    exact (failsFast_call fun _ => rfl).bind fun enrolled => failsFast_pure _
  refine (failsFast_var fun _ => rfl).bind fun endpoint => ?_
  refine (failsFast_var fun _ => rfl).bind fun podUid => ?_
  cases endpoint with
  | none => exact failsFast_pure none
  | some endpoint =>
    cases podUid with
    | none => exact failsFast_pure none
    | some podUid => exact (henroll endpoint podUid).bind fun lease => failsFast_pure (some lease)

theorem failsFast_ensureSubscriptions : FailsFast refusal ensureSubscriptions.run := by
  have hall : ∀ left, FailsFast refusedSubscription (ensureAll left).run := by
    intro left
    induction left with
    | nil => exact failsFast_pure ()
    | cons action left ih =>
      refine FailsFast.bind ?_ fun _ => ih
      refine (failsFast_call fun _ => rfl).bind fun subscriptions => ?_
      split
      · exact failsFast_pure ()
      · exact (failsFast_call fun _ => rfl).bind fun _ => failsFast_pure ()
  exact (hall actions).embed fun op ans => rfl

theorem failsFast_connectFromEnv : FailsFast refusal connectFromEnv.run := by
  have hopen : ∀ url, FailsFast refusal (openDatabase url).run := fun url =>
    (failsFast_database fun _ => rfl).bind fun _ => (failsFast_database fun _ => rfl).bind fun _ =>
      ((failsFast_database fun _ => rfl).bind fun _ => failsFast_database fun _ => rfl).bind fun _ =>
        (failsFast_database fun _ => rfl).bind fun _ => failsFast_database fun _ => rfl
  have hread : connectFromEnv =
      required databaseUrlEnv (.database (.missingEnvironment databaseUrlEnv)) >>= fun url =>
        (ExceptT.mk (.ret (if isBlank url then .error (.database .emptyUrl) else .ok url)) :
          Configuring String) >>= fun url => openDatabase url >>= fun _ => pure url := by
    refine congrArg (required databaseUrlEnv _ >>= ·) (funext fun url => ?_)
    cases isBlank url <;> rfl
  rw [hread]
  exact failsFast_read (fun _ => rfl) fun url => (hopen url).bind fun _ => failsFast_pure url

theorem failsFast_fromEnv : FailsFast refusal fromEnv.run := by
  refine (failsFast_required fun _ => rfl).bind fun authority => ?_
  refine failsFast_read (fun _ => rfl) fun serviceId => ?_
  refine (failsFast_var fun _ => rfl).bind fun leaseSeconds => ?_
  refine (failsFast_var fun _ => rfl).bind fun pollInterval => ?_
  refine (failsFast_connectClient authority serviceId).bind fun client => ?_
  refine (failsFast_obtainLease client).bind fun lease => ?_
  refine failsFast_ensureSubscriptions.bind fun _ => ?_
  exact failsFast_connectFromEnv.bind fun url => failsFast_pure _

end Refusals

section Stages

/-- All calls of a part are of one stage. -/
abbrev AtStage {α : Type} (part : Configuring α) (n : ℕ) : Prop :=
  part.run.Only fun op => stage op = n

theorem atStage_call {α : Type} {op : ConfigOp} {f : op.Ans → Except ConfigError α} {n : ℕ}
    (h : stage op = n) : AtStage (ExceptT.mk (.call op fun ans => .ret (f ans))) n :=
  ⟨h, fun _ => trivial⟩

theorem atStage_connectClient (authority : String) (serviceId : Uuid) :
    AtStage (connectClient authority serviceId) 1 := by
  refine Only.bindExcept (atStage_call rfl) fun path => ?_
  cases path with
  | none => exact Only.bindExcept (atStage_call rfl) fun _ => trivial
  | some path =>
    exact Only.bindExcept (atStage_call rfl) fun _ => Only.bindExcept (atStage_call rfl) fun _ => trivial

theorem atStage_obtainLease [UrlSafeNoPad] (client : KernelClient) : AtStage (obtainLease client) 2 := by
  have hchallenge : ∀ podUid token, AtStage (obtainChallenge client podUid token) 2 := by
    intro podUid token
    refine Only.bindExcept (atStage_call rfl) fun value => ?_
    cases value with
    | none => exact atStage_call rfl
    | some text => trivial
  have henroll : ∀ endpoint podUid, AtStage (enrollInstance client endpoint podUid) 2 :=
    fun endpoint podUid => Only.bindExcept (atStage_call rfl) fun path =>
      Only.bindExcept (atStage_call rfl) fun token => Only.bindExcept (hchallenge _ _) fun challenge =>
        Only.bindExcept (atStage_call rfl) fun _ => trivial
  refine Only.bindExcept (atStage_call rfl) fun endpoint => ?_
  refine Only.bindExcept (atStage_call rfl) fun podUid => ?_
  cases endpoint with
  | none => trivial
  | some endpoint =>
    cases podUid with
    | none => trivial
    | some podUid => exact Only.bindExcept (henroll endpoint podUid) fun _ => trivial

theorem atStage_ensureSubscriptions : AtStage ensureSubscriptions 3 :=
  (Only.embed (P := fun op => stage op = 3) fun _ => rfl).bind fun _ => trivial

theorem atStage_connectFromEnv : AtStage connectFromEnv 4 := by
  have hopen : ∀ url, AtStage (openDatabase url) 4 := fun url =>
    Only.bindExcept (atStage_call rfl) fun _ => Only.bindExcept (atStage_call rfl) fun _ =>
      Only.bindExcept (Only.bindExcept (atStage_call rfl) fun _ => atStage_call rfl) fun _ =>
        Only.bindExcept (atStage_call rfl) fun _ => atStage_call rfl
  refine Only.bindExcept (atStage_call rfl) fun url => ?_
  split
  · trivial
  · exact Only.bindExcept (hopen url) fun _ => trivial

theorem ascending_fromEnv [UrlSafeNoPad] [UuidText] : Ascending stage fromEnv.run 0 := by
  refine (atStage_call rfl).ascending_bind (Nat.le_refl 0) fun authority => ?_
  refine (atStage_call rfl).ascending_bind (Nat.le_refl 0) fun text => ?_
  refine Only.ascending_bind ?_ (Nat.le_refl 0) fun serviceId => ?_
  · cases UuidText.parse text <;> trivial
  refine (atStage_call rfl).ascending_bind (Nat.le_refl 0) fun leaseSeconds => ?_
  refine (atStage_call rfl).ascending_bind (Nat.le_succ 0) fun pollInterval => ?_
  refine (atStage_connectClient authority serviceId).ascending_bind (Nat.le_succ 1) fun client => ?_
  refine (atStage_obtainLease client).ascending_bind (Nat.le_succ 2) fun lease => ?_
  refine atStage_ensureSubscriptions.ascending_bind (Nat.le_succ 3) fun _ => ?_
  exact atStage_connectFromEnv.ascending_bind (Nat.le_refl 4) fun _ => trivial

end Stages

section Outcomes
variable {talk : ConfigTalk}

theorem Ensured.mono {talk' : ConfigTalk} {action : String} (h : Ensured talk action)
    (hsub : talk ⊆ talk') : Ensured talk' action := by
  rcases h with ⟨subscriptions, hmem, hs⟩ | ⟨created, hmem⟩
  · exact .inl ⟨subscriptions, hsub hmem, hs⟩
  · exact .inr ⟨created, hsub hmem⟩

/-- What a start of the subscriptions says about one action. -/
theorem runs_ensureSubscription {action : String} {own : List ((op : SubscriptionOp) × op.Ans)}
    (h : Runs (ensureSubscription action).run own (.ok ())) :
    (∃ subscriptions, ⟨.activeSubscriptions, .ok subscriptions⟩ ∈ own ∧
      ∃ s ∈ subscriptions, s.eventType = action) ∨
    ∃ created, ⟨.createSubscription action, .ok created⟩ ∈ own := by
  rcases runs_bind_ok h with ⟨first, rest, subscriptions, rfl, hlist, hrest⟩
  rcases runs_call.mp hlist with ⟨ans, last, rfl, hlast⟩
  rcases runs_ret.mp hlast with ⟨rfl, rfl⟩
  split at hrest
  · rename_i hany
    refine .inl ⟨subscriptions, by simp, ?_⟩
    simpa using hany
  · rcases runs_bind_ok hrest with ⟨first, last, created, rfl, hcreate, -⟩
    rcases runs_call.mp hcreate with ⟨ans, last', rfl, hlast'⟩
    rcases runs_ret.mp hlast' with ⟨rfl, rfl⟩
    exact .inr ⟨created, by simp⟩

theorem ensured_of_runs (h : Runs ensureSubscriptions.run talk (.ok ())) {action : String}
    (ha : action ∈ actions) : Ensured talk action := by
  rcases runs_bind.mp h with ⟨first, rest, res, rfl, hall, hres⟩
  rcases runs_ret.mp hres with ⟨rfl, hok⟩
  obtain rfl : res = .ok () := by
    cases res with
    | ok _ => rfl
    | error e => cases hok
  rcases hall.of_embed with ⟨own, hown, hmem⟩
  clear h hall hok
  have hstep : ∀ left own, Runs (ensureAll left).run own (.ok ()) → action ∈ left →
      ∃ part, part ⊆ own ∧ Runs (ensureSubscription action).run part (.ok ()) := by
    intro left
    induction left with
    | nil => simp
    | cons a left ih =>
      intro own hown ha
      rcases runs_bind_ok hown with ⟨first, rest, _, rfl, hfirst, hrest⟩
      rcases List.mem_cons.mp ha with rfl | ha
      · exact ⟨first, List.subset_append_left _ _, hfirst⟩
      · rcases ih rest hrest ha with ⟨part, hsub, hpart⟩
        exact ⟨part, List.subset_append_of_subset_right _ hsub, hpart⟩
  rcases hstep actions own hown ha with ⟨part, hsub, hpart⟩
  rcases runs_ensureSubscription hpart with ⟨subscriptions, hl, hs⟩ | ⟨created, hc⟩
  · rcases hmem _ (hsub hl) with ⟨ans, hans, rfl⟩
    exact .inl ⟨subscriptions, by simpa using hans, hs⟩
  · rcases hmem _ (hsub hc) with ⟨ans, hans, rfl⟩
    exact .inr ⟨created, by simpa using hans⟩

/-- A database step that succeeds. -/
theorem runs_database {op : ConfigOp} {answer : op.Ans → Option Unit} {error : DatabaseError}
    (h : Runs (database op answer error).run talk (.ok ())) :
    ∃ ans, talk = [⟨op, ans⟩] ∧ answer ans = some () := by
  rcases runs_call.mp h with ⟨ans, rest, rfl, hrest⟩
  rcases runs_ret.mp hrest with ⟨rfl, hok⟩
  refine ⟨ans, rfl, ?_⟩
  cases hans : answer ans with
  | some _ => rfl
  | none =>
    rw [hans] at hok
    cases hok

/-- A database that was opened has been migrated last. -/
theorem runs_connectFromEnv {url : String} (h : Runs connectFromEnv.run talk (.ok url)) :
    ∃ front, talk = front ++ [⟨.batchExecute, some ()⟩] := by
  rcases runs_bind_ok h with ⟨first, rest, text, rfl, -, hrest⟩
  split at hrest
  · cases hrest
  · rcases runs_bind_ok hrest with ⟨opened, last, _, rfl, hopen, hlast⟩
    rcases runs_ret.mp hlast with ⟨rfl, -⟩
    rcases runs_bind_ok hopen with ⟨l1, rest, _, rfl, -, hrest⟩
    rcases runs_bind_ok hrest with ⟨l2, rest, _, rfl, -, hrest⟩
    rcases runs_bind_ok hrest with ⟨l3, rest, _, rfl, -, hrest⟩
    rcases runs_bind_ok hrest with ⟨l4, rest, _, rfl, -, hrest⟩
    rcases runs_database hrest with ⟨ans, rfl, hans⟩
    obtain rfl : ans = some () := hans
    exact ⟨first ++ (l1 ++ (l2 ++ (l3 ++ l4))), by simp⟩

end Outcomes

/-- What a start says before its loop. -/
structure Configures [UrlSafeNoPad] [UuidText] (talk : ConfigTalk) (res : Except ConfigError Config) : Prop where
  prompt : Prompt refusal talk res
  ordered : talk.Pairwise fun x y => stage x.1 ≤ stage y.1
  subscribed : ∀ config, res = .ok config → ∀ action ∈ actions, Ensured talk action
  migrated : ∀ config, res = .ok config → ∃ front, talk = front ++ [⟨.batchExecute, some ()⟩]

theorem configures_of_runs [UrlSafeNoPad] [UuidText] {talk : ConfigTalk}
    {res : Except ConfigError Config} (h : Runs fromEnv.run talk res) : Configures talk res := by
  have hok : ∀ config, res = .ok config → (∀ action ∈ actions, Ensured talk action) ∧
      ∃ front, talk = front ++ [⟨.batchExecute, some ()⟩] := by
    rintro config rfl
    rcases runs_bind_ok h with ⟨l1, rest, authority, rfl, -, hrest⟩
    rcases runs_bind_ok hrest with ⟨l2, rest, text, rfl, -, hrest⟩
    rcases runs_bind_ok hrest with ⟨l3, rest, serviceId, rfl, -, hrest⟩
    rcases runs_bind_ok hrest with ⟨l4, rest, leaseSeconds, rfl, -, hrest⟩
    rcases runs_bind_ok hrest with ⟨l5, rest, pollInterval, rfl, -, hrest⟩
    rcases runs_bind_ok hrest with ⟨l6, rest, client, rfl, -, hrest⟩
    rcases runs_bind_ok hrest with ⟨l7, rest, lease, rfl, -, hrest⟩
    rcases runs_bind_ok hrest with ⟨l8, rest, _, rfl, hsubscribe, hrest⟩
    rcases runs_bind_ok hrest with ⟨l9, rest, url, rfl, hconnect, hlast⟩
    rcases runs_ret.mp hlast with ⟨rfl, -⟩
    constructor
    · intro action ha
      apply (ensured_of_runs hsubscribe ha).mono
      intro x hx
      simp [hx]
    · rcases runs_connectFromEnv hconnect with ⟨front, rfl⟩
      exact ⟨l1 ++ (l2 ++ (l3 ++ (l4 ++ (l5 ++ (l6 ++ (l7 ++ (l8 ++ front))))))), by simp⟩
  exact ⟨failsFast_fromEnv.prompt h, (ascending_fromEnv.pairwise h).2,
    fun config hres => (hok config hres).1, fun config hres => (hok config hres).2⟩

/-- The text of 32 bytes zero. -/
def sampleChallengeText : String := "AAAAAAAAAAAAAAAAAAAAAAAAAAAAAAAAAAAAAAAAAAA"

@[reducible] def sampleUrlSafeNoPad : UrlSafeNoPad where
  decode text := if text = sampleChallengeText then some (.replicate 32 0) else none

/-- A start in a pod whose challenge was injected. The first subscription is missing. -/
def sampleTalk : ConfigTalk :=
  [⟨.var kernelAuthorityEnv, some "infernal-law"⟩, ⟨.var librarianServiceIdEnv, some sampleRequestId⟩,
    ⟨.var claimLeaseSecondsEnv, some "600"⟩, ⟨.var pollIntervalSecondsEnv, none⟩,
    ⟨.var kernelCaCertPathEnv, none⟩, ⟨.newClient none, some ()⟩,
    ⟨.var serviceEndpointEnv, some "librarian:8080"⟩, ⟨.var podUidEnv, some "pod"⟩,
    ⟨.var workloadTokenPathEnv, none⟩, ⟨.readToString defaultWorkloadTokenPath, some "token\n"⟩,
    ⟨.var enrollmentChallengeEnv, some sampleChallengeText⟩,
    ⟨.enroll "https://infernal-law" (.replicate 32 0) "librarian:8080" "pod" "token",
      some ⟨1000, 1⟩⟩,
    ⟨.subscription .activeSubscriptions, .ok []⟩,
    ⟨.subscription (.createSubscription putAction), .ok (sampleSubscription putAction)⟩,
    ⟨.subscription .activeSubscriptions, .ok (actions.map sampleSubscription)⟩,
    ⟨.subscription .activeSubscriptions, .ok (actions.map sampleSubscription)⟩,
    ⟨.var databaseUrlEnv, some "postgres://librarian"⟩,
    ⟨.parsePostgresConfig "postgres://librarian", some ()⟩,
    ⟨.buildPool "postgres://librarian" 10, some ()⟩, ⟨.getConnection, some ()⟩,
    ⟨.simpleQuery "SELECT 1", some ()⟩, ⟨.getConnection, some ()⟩, ⟨.batchExecute, some ()⟩]

def sampleConfig : Config where
  client := ⟨"infernal-law", 1, none⟩
  databaseUrl := "postgres://librarian"
  leaseSeconds := 600
  pollInterval := 5
  instanceLease := some ⟨1, 1000⟩

theorem configures_sampleTalk :
    @Configures sampleUrlSafeNoPad sampleUuidText sampleTalk (.ok sampleConfig) := by
  have hruns : Runs (@fromEnv sampleUrlSafeNoPad sampleUuidText).run sampleTalk (.ok sampleConfig) := by
    repeat refine .call _ ?_
    exact .ret _
  exact @configures_of_runs sampleUrlSafeNoPad sampleUuidText _ _ hruns

end Librarian.Startup
