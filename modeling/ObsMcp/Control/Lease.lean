import ObsMcp.Control.Gate
import ObsMcp.Foundations.Checked
import ObsMcp.Foundations.Machine

/-!
# The control lease

A client claims control for some minutes, claims again to keep it, and releases it. Every call reads
the lease at its own time, and the clock may go back between two calls. `leaves_after` says all that
a call does to the lease; `control_lease` follows it over runs.
-/

namespace ObsMcp.Control

open Foundations Option

/-! ### Claim and release -/

inductive ClaimOutcome
  | claimed (lease : Lease)
  | unidentified
  | heldBy (lease : Lease)

inductive ReleaseOutcome
  | released
  | noLease
  | heldBy (lease : Lease)

inductive ClaimError
  | invalidMinutes
  | reasonTooLong
  | clockOverflow

namespace ControlDomain

/-- The end of `claim`, with the lease that has not expired. -/
def grant (domain : ControlDomain) (holder : String) (minutes : ℕ) (reason : String) (now : ℕ) :
    Except ClaimError ClaimOutcome × ControlDomain :=
  match domain.lease.filter fun lease ↦ lease.holder ≠ holder with
  | some lease => (.ok (.heldBy lease), domain)
  | none =>
    match checkedAdd now (minutes * 60000) with
    | none => (.error .clockOverflow, domain)
    | some expiresAt =>
      let lease := ⟨holder, reason, domain.lease.elim now Lease.since, expiresAt⟩
      (.ok (.claimed lease), { domain with lease := some lease })

/-- `claim`: the outcome, and the domain after it. -/
def claim (domain : ControlDomain) (holder : String) (minutes : ℕ) (reason : String) (now : ℕ) :
    Except ClaimError ClaimOutcome × ControlDomain :=
  if ¬ (1 ≤ minutes ∧ minutes ≤ 240) then (.error .invalidMinutes, domain)
  else if 200 < reason.length then (.error .reasonTooLong, domain)
  else if !isIdentified holder then (.ok .unidentified, domain)
  else (domain.expire now).grant holder minutes reason now

/-- `release`: the outcome, and the domain after it. -/
def release (domain : ControlDomain) (holder : String) (now : ℕ) : ReleaseOutcome × ControlDomain :=
  let next := domain.expire now
  match next.lease with
  | none => (.noLease, next)
  | some lease =>
    if lease.holder ≠ holder then (.heldBy lease, next)
    else (.released, { next with lease := none })

/-- `status_result`: its text, and the domain after it. -/
def status (domain : ControlDomain) (caller : String) (now : ℕ) : String × ControlDomain :=
  let next := domain.expire now
  (next.lease.elim "No client has control; any client may change OBS" fun lease ↦
    lease.description ++ if lease.holder = caller then " (this client)" else "", next)

def setTakeLock (domain : ControlDomain) (take : Option TakeLock) : ControlDomain :=
  { domain with take }

end ControlDomain

/-! ### Calls -/

inductive Call
  | claim (holder : String) (minutes : ℕ) (reason : String)
  | release (holder : String)
  | status (caller : String)
  | setTakeLock (take : Option TakeLock)
  | evaluate (request : GateRequest)

/-- The domain after a call. -/
def ControlDomain.after (text : FloatText) (domain : ControlDomain) (now : ℕ) :
    Call → ControlDomain
  | .claim holder minutes reason => (domain.claim holder minutes reason now).2
  | .release holder => (domain.release holder now).2
  | .status caller => (domain.status caller now).2
  | .setTakeLock take => domain.setTakeLock take
  | .evaluate request => (domain.evaluate text request now).2

/-- The calls of any clients, each at its time. -/
def calls (text : FloatText) : Machine ControlDomain (ℕ × Call) where
  initial domain := domain = ⟨none, none⟩
  step domain event next := next = domain.after text event.1 event.2

variable {text : FloatText} {domain : ControlDomain} {lease : Lease} {now : ℕ} {call : Call}

/-- What holds of a lease that was granted at a time, 240 minutes at most. -/
structure Lease.Granted (lease : Lease) (now : ℕ) : Prop where
  identified : isIdentified lease.holder = true
  reason : lease.reason.length ≤ 200
  limit : lease.expiresAt ≤ now + 14400000

/-- A lease ends in a call: it has expired, or its holder releases it. -/
def Ends (lease : Lease) (now : ℕ) (call : Call) : Prop :=
  lease.expiresAt ≤ now ∨ call = .release lease.holder

/-- The leases that a call can leave behind. -/
inductive Leaves (domain : ControlDomain) (now : ℕ) (call : Call) : Option Lease → Prop
  | kept : Leaves domain now call domain.lease
  | ended {lease : Lease} : domain.lease = some lease → Ends lease now call →
      Leaves domain now call none
  | granted {lease : Lease} {minutes : ℕ} : call = .claim lease.holder minutes lease.reason →
      lease.Granted now →
      (∀ held, domain.lease = some held → now < held.expiresAt →
        held.holder = lease.holder ∧ held.since = lease.since) →
      Leaves domain now call (some lease)

/-- A lease that has not expired is kept by what reads it. -/
theorem expire_of_active (hlease : domain.lease = some lease) (hactive : now < lease.expiresAt) :
    domain.expire now = domain := by
  cases domain with
  | mk held take =>
    obtain rfl : held = some lease := hlease
    simp [ControlDomain.expire, ControlDomain.activeLease, hactive]

theorem leaves_expire : Leaves domain now call (domain.expire now).lease := by
  cases hlease : domain.lease with
  | none =>
    have hnone : (domain.expire now).lease = domain.lease := by
      simp [ControlDomain.expire, ControlDomain.activeLease, hlease]
    exact hnone ▸ .kept
  | some lease =>
    by_cases hactive : now < lease.expiresAt
    · exact (expire_of_active hlease hactive).symm ▸ .kept
    · have hnone : (domain.expire now).lease = none := by
        simpa [ControlDomain.expire, ControlDomain.activeLease, hlease] using hactive
      exact hnone ▸ .ended hlease (.inl (Nat.le_of_not_lt hactive))

variable {request : GateRequest} {holder reason : String} {minutes : ℕ}

theorem evaluate_snd : (domain.evaluate text request now).2 =
    if request.readOnlyHint || alwaysAllowed request.toolName then domain
    else domain.expire now := by
  unfold ControlDomain.evaluate
  dsimp only
  cases domain.stoppingLease request now with
  | some lease => rfl
  | none =>
    cases domain.take.filter TakeLock.locked <;>
      cases lockedAction request.toolName request.arguments <;>
      cases request.confirmation.enabled <;>
      cases liveQuestion text request.toolName request.arguments <;> rfl

theorem leaves_release :
    Leaves domain now (.release holder) (domain.release holder now).2.lease := by
  unfold ControlDomain.release
  dsimp only
  cases hlease : (domain.expire now).lease with
  | none => exact leaves_expire
  | some lease =>
    dsimp only
    split_ifs with hother
    · exact leaves_expire
    · have hheld : domain.lease = some lease := (filter_eq_some_iff.mp hlease).1
      exact .ended hheld (.inr (by rw [not_not.mp hother]))

theorem leaves_claim :
    Leaves domain now (.claim holder minutes reason)
      (domain.claim holder minutes reason now).2.lease := by
  unfold ControlDomain.claim
  split_ifs with hminutes hreason hidentified
  · exact .kept
  · exact .kept
  · unfold ControlDomain.grant
    cases hother : (domain.expire now).lease.filter fun lease ↦ lease.holder ≠ holder with
    | some lease => exact leaves_expire
    | none =>
      cases hsum : checkedAdd now (minutes * 60000) with
      | none => exact leaves_expire
      | some expiresAt =>
        have hexpires := eq_of_checkedAdd hsum
        refine .granted rfl ⟨?_, ?_, ?_⟩ fun held hheld hactive ↦ ?_
        · simpa using hidentified
        · exact Nat.le_of_not_lt hreason
        · show expiresAt ≤ now + 14400000
          omega
        · rw [expire_of_active hheld hactive, hheld] at hother ⊢
          exact ⟨by simpa using hother, rfl⟩
  · exact .kept

/-- All that a call does to the lease. -/
theorem leaves_after (text : FloatText) (domain : ControlDomain) (now : ℕ) (call : Call) :
    Leaves domain now call (domain.after text now call).lease := by
  cases call with
  | claim holder minutes reason => exact leaves_claim
  | release holder => exact leaves_release
  | status caller => exact leaves_expire
  | setTakeLock take => exact .kept
  | evaluate request =>
    show Leaves _ _ _ (domain.evaluate text request now).2.lease
    rw [evaluate_snd]
    split_ifs
    · exact .kept
    · exact leaves_expire

/-! ### Runs -/

theorem confirm_ne_lease {question message : String} :
    confirm request question ≠ .refused .lease message := by
  unfold confirm
  split
  · simp
  · simp
  · simp
  · split_ifs <;> simp

/-- A request is refused for the lease when a lease stops it. -/
theorem refused_lease_iff :
    (∃ message, (domain.evaluate text request now).1 = .refused .lease message) ↔
      (domain.stoppingLease request now).isSome = true := by
  unfold ControlDomain.evaluate
  dsimp only
  cases domain.stoppingLease request now with
  | some lease => simp
  | none =>
    cases domain.take.filter TakeLock.locked <;>
      cases lockedAction request.toolName request.arguments <;>
      cases request.confirmation.enabled <;>
      cases liveQuestion text request.toolName request.arguments <;> simp [confirm_ne_lease]

/-- A lease in a reachable domain was granted at a time of one of the calls. -/
theorem granted_of_reachable {latest : ℕ}
    (hreachable : ((calls text).restrict fun _ event ↦ event.1 ≤ latest).Reachable domain) :
    ∀ lease, domain.lease = some lease → ∃ granted ≤ latest, lease.Granted granted := by
  refine Machine.invariant_of_step (fun domain ↦ ∀ lease, domain.lease = some lease →
    ∃ granted ≤ latest, lease.Granted granted) ?_ ?_ hreachable
  · rintro domain rfl lease hlease
    cases hlease
  · rintro domain ⟨now, call⟩ _ - ih ⟨hlatest, rfl⟩ lease hlease
    have hleaves := leaves_after text domain now call
    rw [hlease] at hleaves
    generalize hheld : some lease = held at hleaves
    cases hleaves with
    | kept => exact ih lease hheld.symm
    | ended => cases hheld
    | granted _ hgranted =>
      cases hheld
      exact ⟨now, hlatest, hgranted⟩

/-- While a lease lasts, exactly the changes of other clients are refused for it. -/
theorem refused_iff_of_active (hlease : domain.lease = some lease) (hactive : now < lease.expiresAt)
    (hidentified : isIdentified lease.holder = true) :
    (∃ message, (domain.evaluate text request now).1 = .refused .lease message) ↔
      request.readOnlyHint = false ∧ alwaysAllowed request.toolName = false ∧
        request.caller ≠ lease.holder := by
  have hheld : domain.activeLease now = some lease := by
    simp [ControlDomain.activeLease, hlease, hactive]
  have hother : isIdentified request.caller = false ∨ request.caller ≠ lease.holder ↔
      request.caller ≠ lease.holder := by
    refine or_iff_right_of_imp fun hunknown hsame ↦ ?_
    rw [hsame, hidentified] at hunknown
    cases hunknown
  rw [refused_lease_iff, ControlDomain.stoppingLease, hheld]
  cases request.readOnlyHint <;> cases alwaysAllowed request.toolName <;>
    simp [hother]

/-- While a lease lasts, only its holder is granted a claim, with the start of the lease. -/
theorem since_of_claimed {granted : Lease} (hlease : domain.lease = some lease)
    (hactive : now < lease.expiresAt)
    (hclaim : (domain.claim holder minutes reason now).1 = .ok (.claimed granted)) :
    holder = lease.holder ∧ granted.since = lease.since := by
  unfold ControlDomain.claim at hclaim
  rw [expire_of_active hlease hactive] at hclaim
  split_ifs at hclaim
  · cases hclaim
  unfold ControlDomain.grant at hclaim
  rw [hlease] at hclaim
  by_cases hsame : lease.holder = holder
  · rw [filter_some_neg (by simpa using hsame)] at hclaim
    cases hsum : checkedAdd now (minutes * 60000) with
    | none =>
      rw [hsum] at hclaim
      cases hclaim
    | some expiresAt =>
      rw [hsum] at hclaim
      cases hclaim
      exact ⟨hsame.symm, rfl⟩
  · rw [filter_some_pos (by simpa using hsame)] at hclaim
    cases hclaim

/-- Control of OBS over every run of calls, whatever the clock does. A lease belongs to an
identified client and ends at most 240 minutes after the latest time of a call. While it lasts,
exactly the changes of other clients are refused for it, and only its holder is granted a claim,
which keeps the start. A client loses its lease only to a release of its own or to a call at or
after the end. From the end on, a claim of any identified client is granted. -/
theorem control_lease (text : FloatText) :
    (∀ latest domain lease,
      ((calls text).restrict fun _ event ↦ event.1 ≤ latest).Reachable domain →
      domain.lease = some lease →
      (isIdentified lease.holder = true ∧ lease.reason.length ≤ 200 ∧
        lease.expiresAt ≤ latest + 14400000) ∧
      ∀ now < lease.expiresAt,
        (∀ request : GateRequest,
          (∃ message, (domain.evaluate text request now).1 = .refused .lease message) ↔
            request.readOnlyHint = false ∧ alwaysAllowed request.toolName = false ∧
              request.caller ≠ lease.holder) ∧
        ∀ holder minutes reason granted,
          (domain.claim holder minutes reason now).1 = .ok (.claimed granted) →
          holder = lease.holder ∧ granted.since = lease.since) ∧
    (∀ domain lease run, (calls text).Run domain run → domain.lease = some lease →
      (∀ later, (Machine.last domain run).lease = some later → later.holder ≠ lease.holder) →
      ∃ before now call next after held, run = before ++ ((now, call), next) :: after ∧
        (Machine.last domain before).lease = some held ∧ held.holder = lease.holder ∧
        Ends held now call) ∧
    ∀ (domain : ControlDomain) now holder minutes reason,
      (∀ lease, domain.lease = some lease → lease.expiresAt ≤ now) → isIdentified holder = true →
      1 ≤ minutes → minutes ≤ 240 → reason.length ≤ 200 → now + minutes * 60000 < 2 ^ 64 →
      ∃ granted, (domain.claim holder minutes reason now).1 = .ok (.claimed granted) ∧
        granted.holder = holder := by
  refine ⟨fun latest domain lease hreachable hlease ↦ ?_,
    fun domain lease run hrun hlease hlost ↦ ?_,
    fun domain now holder minutes reason hended hidentified hfrom hto hreason hfits ↦ ?_⟩
  · obtain ⟨granted, hlatest, hgranted⟩ := granted_of_reachable hreachable lease hlease
    refine ⟨⟨hgranted.identified, hgranted.reason,
      hgranted.limit.trans (Nat.add_le_add_right hlatest _)⟩, fun now hactive ↦ ⟨fun request ↦ ?_,
      fun holder minutes reason granted hclaim ↦ since_of_claimed hlease hactive hclaim⟩⟩
    exact refused_iff_of_active hlease hactive hgranted.identified
  · obtain ⟨before, ⟨now, call⟩, _, after, hsplit, ⟨held, hheld, hholder⟩, rfl, hout⟩ :=
      @Machine.Run.exists_exit _ _ _ (fun domain ↦ ∃ held, domain.lease = some held ∧
        held.holder = lease.holder) _ _ hrun ⟨lease, hlease, rfl⟩
        fun ⟨later, hlater, hsame⟩ ↦ hlost later hlater hsame
    refine ⟨before, now, call, _, after, held, hsplit, hheld, hholder, ?_⟩
    have hleaves := leaves_after text (Machine.last domain before) now call
    generalize hnext : (ControlDomain.after text (Machine.last domain before) now call).lease = next
      at hleaves hout
    cases hleaves with
    | kept => exact absurd ⟨held, hheld, hholder⟩ hout
    | ended hsome hends =>
      obtain rfl := some.inj (hheld.symm.trans hsome)
      exact hends
    | granted _ _ hkeeps =>
      refine .inl (Nat.le_of_not_lt fun hactive ↦ hout ⟨_, rfl, ?_⟩)
      exact (hkeeps held hheld hactive).1.symm.trans hholder
  · have hnone : (domain.expire now).lease = none :=
      filter_eq_none_iff.mpr fun lease hlease ↦ by simpa using hended lease hlease
    rw [ControlDomain.claim, if_neg (not_not.mpr ⟨hfrom, hto⟩), if_neg (Nat.not_lt.mpr hreason),
      if_neg (by simp [hidentified]), ControlDomain.grant, hnone, checkedAdd, if_pos hfits]
    exact ⟨_, rfl, rfl⟩

end ObsMcp.Control
