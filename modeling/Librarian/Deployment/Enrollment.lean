import Librarian.Deployment.System
import Librarian.Foundation.Protocol
import Librarian.Startup.Configuration

/-! # The enrollment of one process among others

What a configuration asks of the kernel and what it makes of the answers, as one process sees
it: the challenges issued to it and the leases granted to it, which no other process changes.
-/
namespace Librarian.Deployment
open Foundation Program Config

/-- The part of the kernel's record that is about one process. -/
structure View where
  held : List Challenge
  leases : List RenewedLease

def Ledger.view (l : Ledger) (i : ℕ) : View where
  held := (l.issued.filter (·.1 = i)).map (·.2)
  leases := (l.grants.filter (·.process = i)).map (·.lease)

section Protocol
variable [UrlSafeNoPad] (d : Surroundings) (i : ℕ)

/-- A process enrolls if it knows its endpoint and its pod. -/
def Surroundings.Enrolls : Prop := (d.var serviceEndpointEnv).isSome ∧ (d.podUid i).isSome

instance : Decidable (d.Enrolls i) := inferInstanceAs (Decidable (_ ∧ _))

/-- The challenge that process `i` enrolls with: the injected one, or the only one it was issued. -/
def Surroundings.Chooses (v : View) (c : Challenge) : Prop :=
  (∃ text, d.var enrollmentChallengeEnv = some text ∧ decodeChallenge text = .ok c) ∨
    d.var enrollmentChallengeEnv = none ∧ v.held = [c]

/-- What process `i` promises: it reads the files it is told to and enrolls once. -/
def Before (v : View) : ConfigOp → Prop
  | .readFile path => d.var kernelCaCertPathEnv = some path
  | .readToString path => path = (d.var workloadTokenPathEnv).getD defaultWorkloadTokenPath
  | .requestChallenge _ _ _ => d.var enrollmentChallengeEnv = none ∧ v.held = []
  | .enroll _ c _ _ _ => v.leases = [] ∧ d.Chooses v c
  | _ => True

/-- What the answers tell it. -/
def After (v : View) : (op : ConfigOp) → op.Ans → View → Prop
  | .var name => fun (ans : Option String) w => ans = d.varOf i name ∧ w = v
  | .requestChallenge _ _ _ => fun (ans : Option Challenge) w =>
    ∀ c, ans = some c → w = { v with held := c :: v.held }
  | .enroll _ _ _ _ _ => fun (ans : Option RenewedLease) w =>
    ∀ lease, ans = some lease → w = { v with leases := lease :: v.leases }
  | _ => fun _ w => w = v

def enrolling : Protocol ConfigOp ConfigOp.Ans View where
  rely v w := w = v
  rely_refl _ := rfl
  rely_trans h h' := h'.trans h
  pre v op := Before d v op
  post v op ans w := After d i v op ans w

/-- The lease that a process tracks is the one it was granted, and it tracks one if it enrolls. -/
def Tracks (v : View) (lease : Option InstanceLease) : Prop :=
  lease.toList = v.leases.map (fun l => ⟨l.leaseRevision, l.leaseExpiresAt⟩) ∧
    (lease.isSome ↔ d.Enrolls i)

variable {d i} {v : View} {α β : Type}

/-- From view `v` the part keeps the protocol, and `Q` holds of what it returns. -/
abbrev Keeps (d : Surroundings) (i : ℕ) (part : Configuring α) (v : View) (Q : View → α → Prop) :
    Prop := part.run.Safe (enrolling d i) (fun w res => ∀ a, res = .ok a → Q w a) v

theorem Keeps.bind {part : Configuring α} {f : α → Configuring β} {Q : View → α → Prop}
    {R : View → β → Prop} (h : Keeps d i part v Q) (hf : ∀ w a, Q w a → Keeps d i (f a) w R) :
    Keeps d i (part >>= f) v R :=
  Safe.bindExcept h (fun w a hQ => hf w a (hQ a rfl))
    fun _ _ _ => Safe.ret fun _ _ _ hres => by cases hres

theorem keeps_pure {a : α} {Q : View → α → Prop} (h : Q v a) : Keeps d i (pure a) v Q := by
  apply Safe.ret
  rintro w rfl b hb
  cases hb
  exact h

/-- A single call. -/
theorem keeps_call {op : ConfigOp} {f : op.Ans → Except ConfigError α} {Q : View → α → Prop}
    (hpre : Before d v op) (h : ∀ ans w a, After d i v op ans w → f ans = .ok a → Q w a) :
    Keeps d i (ExceptT.mk (.call op fun ans => .ret (f ans))) v Q := by
  apply Safe.call
  rintro w rfl
  refine ⟨hpre, fun ans x hx => Safe.ret ?_⟩
  rintro y rfl a ha
  exact h ans y a hx ha

theorem keeps_var (name : String) : Keeps d i (var name) v fun w value => w = v ∧ value = d.varOf i name :=
  keeps_call trivial fun ans w value hans hvalue => by
    cases hvalue
    exact ⟨hans.2, hans.1⟩

omit [UrlSafeNoPad] in
theorem orError_eq_ok {error : ConfigError} {ans : Option α} {a : α} :
    orError error ans = .ok a ↔ ans = some a := by
  cases ans <;> simp [orError]

theorem keeps_required (name : String) (error : ConfigError) :
    Keeps d i (required name error) v fun w text => w = v ∧ d.varOf i name = some text :=
  keeps_call trivial fun _ _ _ hans htext => ⟨hans.2, hans.1.symm.trans (orError_eq_ok.mp htext)⟩

/-- The calls after the enrollment neither need nor change anything. -/
theorem calm_of_stage {op : ConfigOp} (h : 3 ≤ Startup.stage op) :
    Before d v op ∧ ∀ ans w, After d i v op ans w → w = v := by
  cases op with
  | readFile path => exact absurd h (by simp [Startup.stage])
  | readToString path => exact absurd h (by simp [Startup.stage])
  | requestChallenge baseUrl podUid token => exact absurd h (by simp [Startup.stage])
  | enroll baseUrl c endpoint podUid token => exact absurd h (by simp [Startup.stage])
  | var name => exact ⟨trivial, fun ans w hans => hans.2⟩
  | _ => exact ⟨trivial, fun ans w hans => hans⟩

theorem keeps_of_only {part : Configuring α}
    (h : part.run.Only fun op => 3 ≤ Startup.stage op) : Keeps d i part v fun w _ => w = v := by
  change part.run.Safe (enrolling d i) _ v
  generalize part.run = p at h
  induction p with
  | ret res => exact Safe.ret fun w hw _ _ => hw
  | call op next ih =>
    apply Safe.call
    rintro w rfl
    rcases calm_of_stage h.1 with ⟨hpre, hsame⟩
    refine ⟨hpre, fun ans x hx => ?_⟩
    rw [hsame ans x hx]
    exact ih ans (h.2 ans)

omit [UrlSafeNoPad] in
theorem varOf_eq {name : String} (h : name ≠ podUidEnv) : d.varOf i name = d.var name := if_neg h

omit [UrlSafeNoPad] in
theorem varOf_podUid : d.varOf i podUidEnv = d.podUid i := if_pos rfl

theorem keeps_connectClient (authority : String) (serviceId : Uuid) :
    Keeps d i (connectClient authority serviceId) v fun w _ => w = v := by
  refine (keeps_var kernelCaCertPathEnv).bind ?_
  rintro w path ⟨rfl, hpath⟩
  rw [varOf_eq (by decide)] at hpath
  have hnew : ∀ root, Keeps d i (newClient root) w fun x _ => x = w :=
    fun root => keeps_call trivial fun ans x _ hans _ => hans
  cases path with
  | none =>
    exact (hnew none).bind fun x _ hx => keeps_pure hx
  | some path =>
    have hread : Keeps d i (readFile path) w fun x _ => x = w :=
      keeps_call hpath.symm fun ans x _ hans _ => hans
    refine hread.bind ?_
    rintro x pem rfl
    exact (hnew (some pem)).bind fun y _ hy => keeps_pure hy

theorem keeps_obtainChallenge (hfresh : v.held = []) (client : KernelClient)
    (podUid token : String) : Keeps d i (obtainChallenge client podUid token) v
      fun w c => w.leases = v.leases ∧ d.Chooses w c := by
  refine (keeps_var enrollmentChallengeEnv).bind ?_
  rintro w value ⟨rfl, hvalue⟩
  rw [varOf_eq (by decide)] at hvalue
  cases value with
  | none =>
    refine keeps_call ⟨hvalue.symm, hfresh⟩ ?_
    intro ans x c hans hc
    obtain rfl := hans c (orError_eq_ok.mp hc)
    exact ⟨rfl, .inr ⟨hvalue.symm, congrArg (c :: ·) hfresh⟩⟩
  | some text =>
    apply Safe.ret
    rintro x rfl c hc
    exact ⟨rfl, .inl ⟨text, hvalue.symm, hc⟩⟩

theorem keeps_enrollInstance (hnew : v = ⟨[], []⟩) (client : KernelClient)
    (endpoint podUid : String) : Keeps d i (enrollInstance client endpoint podUid) v
      fun w lease => [lease] = w.leases.map fun l => ⟨l.leaseRevision, l.leaseExpiresAt⟩ := by
  refine (keeps_var workloadTokenPathEnv).bind ?_
  rintro w path ⟨rfl, rfl⟩
  rw [varOf_eq (by decide)]
  have hread : Keeps d i (readToString ((d.var workloadTokenPathEnv).getD defaultWorkloadTokenPath)) w
      fun x _ => x = w := keeps_call rfl fun ans x _ hans _ => hans
  refine hread.bind ?_
  rintro x token rfl
  refine (keeps_obtainChallenge (by rw [hnew]) client podUid (trim token)).bind ?_
  rintro y c ⟨hleases, hc⟩
  have hnone : y.leases = [] := by rw [hleases, hnew]
  have henroll : Keeps d i (enroll client c endpoint podUid (trim token)) y
      fun z lease => z.leases = [lease] := by
    refine keeps_call ⟨hnone, hc⟩ ?_
    intro ans z lease hans hlease
    rw [hans lease (orError_eq_ok.mp hlease), hnone]
  refine henroll.bind ?_
  intro z lease hz
  exact keeps_pure (by rw [hz]; rfl)

theorem keeps_obtainLease (hnew : v = ⟨[], []⟩) (client : KernelClient) :
    Keeps d i (obtainLease client) v (Tracks d i) := by
  refine (keeps_var serviceEndpointEnv).bind ?_
  rintro w endpoint ⟨rfl, hendpoint⟩
  rw [varOf_eq (by decide)] at hendpoint
  refine (keeps_var podUidEnv).bind ?_
  rintro x podUid ⟨rfl, hpod⟩
  rw [varOf_podUid] at hpod
  have hskip : ¬ d.Enrolls i → Tracks d i x none := fun h => by
    rw [hnew]
    exact ⟨rfl, by simp [h]⟩
  cases endpoint with
  | none => exact keeps_pure (hskip (by simp [Surroundings.Enrolls, ← hendpoint]))
  | some endpoint =>
    cases podUid with
    | none => exact keeps_pure (hskip (by simp [Surroundings.Enrolls, ← hpod]))
    | some podUid =>
      have henrolls : d.Enrolls i := by simp [Surroundings.Enrolls, ← hendpoint, ← hpod]
      refine (keeps_enrollInstance hnew client endpoint podUid).bind ?_
      intro y lease hlease
      exact keeps_pure ⟨hlease, by simp [henrolls]⟩

theorem keeps_fromEnv [UuidText] (hnew : v = ⟨[], []⟩) :
    Keeps d i fromEnv v fun w config => Tracks d i w config.instanceLease := by
  refine (keeps_required kernelAuthorityEnv _).bind ?_
  rintro w authority ⟨rfl, -⟩
  refine (keeps_required librarianServiceIdEnv _).bind ?_
  rintro w text ⟨rfl, -⟩
  have hparse : Keeps d i (liftM (orError .invalidServiceId (UuidText.parse text))) w
      fun x _ => x = w := Safe.ret fun x hx _ _ => hx
  refine hparse.bind ?_
  rintro x serviceId rfl
  refine (keeps_var claimLeaseSecondsEnv).bind ?_
  rintro w leaseSeconds ⟨rfl, -⟩
  refine (keeps_var pollIntervalSecondsEnv).bind ?_
  rintro w pollInterval ⟨rfl, -⟩
  refine (keeps_connectClient authority serviceId).bind ?_
  rintro w client rfl
  refine (keeps_obtainLease hnew client).bind ?_
  intro w lease hlease
  have hsubscribe : Keeps d i ensureSubscriptions w fun x _ => x = w :=
    keeps_of_only (Startup.atStage_ensureSubscriptions.mono fun _ h => h ▸ Nat.le_refl 3)
  refine hsubscribe.bind ?_
  rintro x _ rfl
  have hconnect : Keeps d i connectFromEnv x fun y _ => y = x :=
    keeps_of_only (Startup.atStage_connectFromEnv.mono fun _ h => h ▸ Nat.le_succ 3)
  refine hconnect.bind ?_
  rintro y url rfl
  exact keeps_pure hlease

end Protocol
end Librarian.Deployment
