import Mathlib.Data.List.Nodup
import ObsMcp.Foundations.Charges
import ObsMcp.Foundations.Indexed
import ObsMcp.Subscriptions.Routing

/-!
# The books of the subscription routing

`Routing.Books` says what the running sums of a routing are: the sums over the installed listeners
and the legacy URIs, within the budgets. A plan is checked against the routing it was made on and
applied to the routing at its commit, with an index and a charge that may be out of date by then;
`ListenPlan.Fits` and `UriPlan.Fits` are what the check established, and they hold of the routing at
the commit because the revision says that it is the same routing (`Owner.Good`).

`subscription_accounting` collects the consequences over all interleavings of the calls.
-/

namespace ObsMcp.Subscriptions

open Foundations List

variable {encodedLength : Json → ℕ}

/-! ### Sums over a list with one entry changed -/

theorem sum_erase_uri {uris : List String} {uri : String} (huri : uri ∈ uris) :
    (uris.map String.utf8ByteSize).sum =
      ((uris.erase uri).map String.utf8ByteSize).sum + uri.utf8ByteSize := by
  induction uris with
  | nil => simp at huri
  | cons first uris ih =>
    by_cases hfirst : first = uri
    · subst hfirst
      simp only [map_cons, sum_cons, erase_cons_head]
      omega
    · have htail : uri ∈ uris := (mem_cons.mp huri).resolve_left (Ne.symm hfirst)
      simp only [map_cons, sum_cons,
        erase_cons_tail (not_beq_of_ne hfirst), ih htail]
      omega

/-! ### The books -/

/-- An identifier of a request: a string or an integer. -/
def IsId (id : Json) : Prop :=
  id.isString ∨ id.isI64 ∨ id.isU64

/-- The charges of a listener are the sizes of its identifier and of its URIs. -/
structure Listener.Charged (encodedLength : Json → ℕ) (listener : Listener) : Prop where
  isId : IsId listener.id
  idBytes_eq : listener.idBytes = encodedLength listener.id
  uriBytes_eq : listener.uriBytes = (listener.uris.map String.utf8ByteSize).sum

/-- The running sums of a routing are the sums over what is installed, and within the budgets. -/
structure Routing.Books (encodedLength : Json → ℕ) (routing : Routing) : Prop where
  idBytes_eq : routing.idBytes = (routing.listeners.map Listener.idBytes).sum
  uriBytes_eq : routing.uriBytes = (routing.listeners.map Listener.uriBytes).sum +
    (routing.legacyUris.map String.utf8ByteSize).sum
  uriEntries_eq : routing.uriEntries =
    (routing.listeners.map fun listener ↦ listener.uris.length).sum + routing.legacyUris.length
  idBytes_le : routing.idBytes ≤ MAX_IDS
  uriBytes_le : routing.uriBytes ≤ MAX_URI_BYTES
  uriEntries_le : routing.uriEntries ≤ MAX_URIS
  ids : (routing.listeners.map Listener.id).Nodup
  uris : routing.legacyUris.Nodup
  listeners_le : routing.listeners.length ≤ MAX_LISTENERS
  legacyUris_le : routing.legacyUris.length ≤ MAX_LISTENERS
  charged : ∀ listener ∈ routing.listeners, listener.Charged encodedLength

/-- The listener a plan replaces. -/
def ListenPlan.old (plan : ListenPlan) (routing : Routing) : Option Listener :=
  plan.prior.bind fun i ↦ routing.listeners[i]?

/-- What `planListen` checked: the index of the listener with the identifier of the plan, and room
for the new listener in its place. -/
structure ListenPlan.Fits (plan : ListenPlan) (routing : Routing) : Prop where
  prior_eq : plan.prior = routing.position plan.listener.id
  room : routing.listeners.length < MAX_LISTENERS
  idBytes_le : routing.idBytes - (plan.old routing).elim 0 Listener.idBytes +
    plan.listener.idBytes ≤ MAX_IDS
  uriBytes_le : routing.uriBytes - (plan.old routing).elim 0 Listener.uriBytes +
    plan.listener.uriBytes ≤ MAX_URI_BYTES
  uriEntries_le : routing.uriEntries - ((plan.old routing).elim 0 fun old ↦ old.uris.length) +
    plan.listener.uris.length ≤ MAX_URIS

/-- What `planUri` checked: room for a URI that is added. -/
def UriPlan.Fits (plan : UriPlan) (routing : Routing) : Prop :=
  plan.add = true → plan.uri ∉ routing.legacyUris →
    routing.legacyUris.length < MAX_LISTENERS ∧
      routing.uriBytes + plan.uri.utf8ByteSize ≤ MAX_URI_BYTES ∧ routing.uriEntries < MAX_URIS

/-- The plans of an owner, relative to its routing: none is from a later revision, and a plan of the
current revision fits. -/
structure Owner.Good (encodedLength : Json → ℕ) (owner : Owner) : Prop where
  books : owner.routing.Books encodedLength
  listenPlans : ∀ plan ∈ owner.listenPlans, plan.listener.Charged encodedLength ∧
    plan.revision ≤ owner.routing.revision ∧
      (plan.revision = owner.routing.revision → plan.Fits owner.routing)
  uriPlans : ∀ plan ∈ owner.uriPlans, plan.revision ≤ owner.routing.revision ∧
    (plan.revision = owner.routing.revision → plan.Fits owner.routing)

namespace Routing

variable {routing : Routing}

theorem Books.new (tools : Bool) : (Routing.new tools).Books encodedLength where
  idBytes_eq := rfl
  uriBytes_eq := rfl
  uriEntries_eq := rfl
  idBytes_le := Nat.zero_le _
  uriBytes_le := Nat.zero_le _
  uriEntries_le := Nat.zero_le _
  ids := nodup_nil
  uris := nodup_nil
  listeners_le := Nat.zero_le _
  legacyUris_le := Nat.zero_le _
  charged := by simp [Routing.new]

variable {i : ℕ} {id : Json} {old : Listener}

/-- The listener at the position of an identifier has that identifier. -/
theorem position_eq_some (hid : IsId id) (hposition : routing.position id = some i) :
    ∃ old, routing.listeners[i]? = some old ∧ old.id = id := by
  unfold position at hposition
  obtain ⟨hlt, hfound, -⟩ := findIdx?_eq_some_iff_getElem.mp hposition
  exact ⟨routing.listeners[i], getElem?_eq_getElem hlt, Json.eq_of_beq_id hid hfound⟩

/-- Without a position no listener has the identifier. -/
theorem position_eq_none (hposition : routing.position id = none) :
    id ∉ routing.listeners.map Listener.id := by
  unfold position at hposition
  rw [findIdx?_eq_none_iff] at hposition
  intro hmem
  obtain ⟨listener, hlistener, rfl⟩ := mem_map.mp hmem
  have := hposition listener hlistener
  rw [show (listener.id == listener.id) = true from Json.beq_refl _] at this
  exact absurd this (by simp)

/-- The charges of an installed listener are part of the sums. -/
theorem Books.charge_le (hbooks : routing.Books encodedLength)
    (hold : routing.listeners[i]? = some old) :
    old.idBytes ≤ routing.idBytes ∧ old.uriBytes ≤ routing.uriBytes ∧
      old.uris.length ≤ routing.uriEntries := by
  have hids := sum_eraseIdx Listener.idBytes hold
  have hbytes := sum_eraseIdx Listener.uriBytes hold
  have hentries := sum_eraseIdx (fun listener ↦ listener.uris.length) hold
  rw [hbooks.idBytes_eq, hbooks.uriBytes_eq, hbooks.uriEntries_eq]
  omega

/-! ### What the calls do -/

theorem subtract_of_le {a b : ℕ} (hle : b ≤ a) : subtract a b = .ok (a - b) := by
  rw [subtract, checkedSub_of_le hle]

theorem listenerAt_of_eq {listeners : List Listener} (hold : listeners[i]? = some old) :
    listenerAt listeners i = .ok old := by
  rw [listenerAt, hold]

theorem nextRevision_cases (revision : ℕ) :
    nextRevision revision = .error .unavailable ∨ nextRevision revision = .ok (revision + 1) := by
  unfold nextRevision checkedAdd
  split_ifs
  · exact .inr rfl
  · exact .inl rfl

theorem release_of_le (hids : old.idBytes ≤ routing.idBytes)
    (hbytes : old.uriBytes ≤ routing.uriBytes) (hentries : old.uris.length ≤ routing.uriEntries) :
    routing.release old = .ok
      { routing with
        idBytes := routing.idBytes - old.idBytes
        uriBytes := routing.uriBytes - old.uriBytes
        uriEntries := routing.uriEntries - old.uris.length } := by
  unfold release
  rw [subtract_of_le hids, subtract_of_le hbytes, subtract_of_le hentries]
  rfl

/-- How a call may leave the routing: with its books in order, at the next revision if it changed
anything, and as it was when the call failed. -/
structure Advances (encodedLength : Json → ℕ) (routing routing' : Routing) (failed : Prop) :
    Prop where
  books : routing'.Books encodedLength
  revision : routing' = routing ∨ routing'.revision = routing.revision + 1
  unchanged : failed → routing' = routing

section

variable (hbooks : routing.Books encodedLength)
include hbooks

theorem Advances.refl (failed : Prop) : Advances encodedLength routing routing failed :=
  ⟨hbooks, .inl rfl, fun _ ↦ rfl⟩

theorem setLegacy_spec (legacy : Bool) :
    Advances encodedLength routing (routing.setLegacy legacy).2
      (∃ failure, (routing.setLegacy legacy).1 = .error failure) := by
  unfold setLegacy
  by_cases hlegacy : routing.legacy = legacy
  · rw [if_pos hlegacy]
    exact .refl hbooks _
  · rw [if_neg hlegacy]
    rcases nextRevision_cases routing.revision with hnext | hnext <;> rw [hnext]
    · exact .refl hbooks _
    · exact ⟨⟨hbooks.1, hbooks.2, hbooks.3, hbooks.4, hbooks.5, hbooks.6, hbooks.7, hbooks.8,
        hbooks.9, hbooks.10, hbooks.11⟩, .inr rfl, by simp⟩

/-- The books after a listener is taken out. -/
theorem Books.eraseIdx (hold : routing.listeners[i]? = some old) (revision : ℕ) :
    Books encodedLength
      { routing with
        revision
        listeners := routing.listeners.eraseIdx i
        idBytes := routing.idBytes - old.idBytes
        uriBytes := routing.uriBytes - old.uriBytes
        uriEntries := routing.uriEntries - old.uris.length } := by
  have hids := sum_eraseIdx Listener.idBytes hold
  have hbytes := sum_eraseIdx Listener.uriBytes hold
  have hentries := sum_eraseIdx (fun listener ↦ listener.uris.length) hold
  have hsub : (routing.listeners.eraseIdx i).Sublist routing.listeners := eraseIdx_sublist ..
  refine ⟨?_, ?_, ?_, ?_, ?_, ?_, hbooks.ids.sublist (hsub.map _), hbooks.uris,
    Nat.le_trans hsub.length_le hbooks.listeners_le, hbooks.legacyUris_le,
    fun listener hlistener ↦ hbooks.charged listener (hsub.subset hlistener)⟩
  · have := hbooks.idBytes_eq
    simp only
    omega
  · have := hbooks.uriBytes_eq
    simp only
    omega
  · have := hbooks.uriEntries_eq
    simp only
    omega
  · exact Nat.le_trans (Nat.sub_le _ _) hbooks.idBytes_le
  · exact Nat.le_trans (Nat.sub_le _ _) hbooks.uriBytes_le
  · exact Nat.le_trans (Nat.sub_le _ _) hbooks.uriEntries_le

theorem cancel_spec (id : Json) :
    ∃ result routing', routing.cancel id = .ok (result, routing') ∧
      Advances encodedLength routing routing' (∃ failure, result = .error failure) := by
  unfold cancel
  cases hposition : routing.position id with
  | none => exact ⟨_, _, rfl, .refl hbooks _⟩
  | some i =>
    obtain ⟨hlt, -⟩ := findIdx?_eq_some_iff_getElem.mp hposition
    have hold : routing.listeners[i]? = some routing.listeners[i] := getElem?_eq_getElem hlt
    obtain ⟨hids, hbytes, hentries⟩ := hbooks.charge_le hold
    rcases nextRevision_cases routing.revision with hnext | hnext
    · simp only [hnext]
      exact ⟨_, _, rfl, .refl hbooks _⟩
    · simp only [hnext, listenerAt_of_eq hold]
      refine ⟨.ok true, _, ?_, hbooks.eraseIdx hold (routing.revision + 1), .inr rfl, by simp⟩
      simp only [bind, Except.bind]
      rw [release_of_le (by exact hids) (by exact hbytes) (by exact hentries)]
      rfl

end

/-- The routing after a commit of a listener. -/
def installed (routing : Routing) (plan : ListenPlan) : Routing :=
  { routing with
    revision := routing.revision + 1
    idBytes := routing.idBytes - (plan.old routing).elim 0 Listener.idBytes + plan.listener.idBytes
    uriBytes :=
      routing.uriBytes - (plan.old routing).elim 0 Listener.uriBytes + plan.listener.uriBytes
    uriEntries := routing.uriEntries - ((plan.old routing).elim 0 fun old ↦ old.uris.length) +
      plan.listener.uris.length
    listeners :=
      match plan.prior with
      | some i => routing.listeners.set i plan.listener
      | none => routing.listeners ++ [plan.listener] }

/-- The books after a commit of a listener. Assumes: the plan fits the routing. -/
theorem Books.installed (hbooks : routing.Books encodedLength) {plan : ListenPlan}
    (hfits : plan.Fits routing) (hcharged : plan.listener.Charged encodedLength) :
    (routing.installed plan).Books encodedLength := by
  cases hprior : plan.prior with
  | none =>
    have hold : plan.old routing = none := by rw [ListenPlan.old, hprior]; rfl
    have habsent := position_eq_none (hfits.prior_eq.symm.trans hprior)
    have hids := hfits.idBytes_le
    have hbytes := hfits.uriBytes_le
    have hentries := hfits.uriEntries_le
    have hroom := hfits.room
    unfold Routing.installed
    simp only [hprior, hold, Option.elim_none, Nat.sub_zero] at hids hbytes hentries ⊢
    refine ⟨?_, ?_, ?_, hids, hbytes, hentries, ?_, hbooks.uris, ?_, hbooks.legacyUris_le, ?_⟩
    · simp only [map_append, map_singleton, sum_append, sum_singleton,
        hbooks.idBytes_eq]
    · simp only [map_append, map_singleton, sum_append, sum_singleton,
        hbooks.uriBytes_eq]
      omega
    · simp only [map_append, map_singleton, sum_append, sum_singleton,
        hbooks.uriEntries_eq]
      omega
    · rw [map_append, map_singleton, nodup_append]
      refine ⟨hbooks.ids, nodup_singleton _, fun a ha b hb ↦ ?_⟩
      rw [mem_singleton] at hb
      rintro rfl
      exact habsent (hb ▸ ha)
    · simp only [length_append, length_singleton]
      omega
    · intro listener hlistener
      rcases mem_append.mp hlistener with hlistener | hlistener
      · exact hbooks.charged listener hlistener
      · rw [mem_singleton.mp hlistener]
        exact hcharged
  | some i =>
    obtain ⟨old, hat, hid⟩ := position_eq_some hcharged.isId (hfits.prior_eq.symm.trans hprior)
    have hold : plan.old routing = some old := by rw [ListenPlan.old, hprior]; exact hat
    obtain ⟨hidsLe, hbytesLe, hentriesLe⟩ := hbooks.charge_le hat
    have hidsSum := sum_set Listener.idBytes plan.listener hat
    have hbytesSum := sum_set Listener.uriBytes plan.listener hat
    have hentriesSum := sum_set (fun listener ↦ listener.uris.length) plan.listener hat
    have hids := hfits.idBytes_le
    have hbytes := hfits.uriBytes_le
    have hentries := hfits.uriEntries_le
    have hidsEq := hbooks.idBytes_eq
    have hbytesEq := hbooks.uriBytes_eq
    have hentriesEq := hbooks.uriEntries_eq
    unfold Routing.installed
    simp only [hprior, hold, Option.elim_some] at hids hbytes hentries ⊢
    refine ⟨?_, ?_, ?_, hids, hbytes, hentries, ?_, hbooks.uris, ?_, hbooks.legacyUris_le, ?_⟩
    · simp only
      omega
    · simp only
      omega
    · simp only
      omega
    · rw [map_set_of_eq hat hid.symm]
      exact hbooks.ids
    · simpa using hbooks.listeners_le
    · intro listener hlistener
      rcases mem_or_eq_of_mem_set hlistener with hlistener | rfl
      · exact hbooks.charged listener hlistener
      · exact hcharged

theorem commitListen_spec (hbooks : routing.Books encodedLength) (active : Bool)
    {plan : ListenPlan} (hfits : plan.revision = routing.revision → plan.Fits routing)
    (hcharged : plan.listener.Charged encodedLength) :
    ∃ result routing', routing.commitListen active plan = .ok (result, routing') ∧
      Advances encodedLength routing routing' (∃ failure, result = .error failure) ∧
      (result = .ok () → routing.revision = plan.revision) := by
  unfold commitListen
  by_cases hstale : ¬ active ∨ routing.revision ≠ plan.revision
  · rw [if_pos hstale]
    exact ⟨_, _, rfl, .refl hbooks _, by simp⟩
  · rw [if_neg hstale]
    push Not at hstale
    obtain ⟨-, hrevision⟩ := hstale
    have hfits := hfits hrevision.symm
    rcases nextRevision_cases routing.revision with hnext | hnext
    · simp only [hnext]
      exact ⟨_, _, rfl, .refl hbooks _, by simp⟩
    · refine ⟨.ok (), routing.installed plan, ?_,
        ⟨hbooks.installed hfits hcharged, .inr rfl, by simp⟩, fun _ ↦ hrevision⟩
      simp only [hnext]
      cases hprior : plan.prior with
      | none =>
        have hold : plan.old routing = none := by rw [ListenPlan.old, hprior]; rfl
        simp only [Routing.installed, hprior, hold]
        rfl
      | some i =>
        obtain ⟨old, hat, -⟩ := position_eq_some hcharged.isId (hfits.prior_eq.symm.trans hprior)
        have hold : plan.old routing = some old := by rw [ListenPlan.old, hprior]; exact hat
        obtain ⟨hids, hbytes, hentries⟩ := hbooks.charge_le hat
        simp only [listenerAt_of_eq hat, bind, Except.bind]
        rw [release_of_le (by exact hids) (by exact hbytes) (by exact hentries)]
        simp only [Routing.installed, hprior, hold]
        rfl

theorem commitUri_spec (hbooks : routing.Books encodedLength) (active : Bool) {plan : UriPlan}
    (hfits : plan.revision = routing.revision → plan.Fits routing) :
    ∃ result routing', routing.commitUri active plan = .ok (result, routing') ∧
      Advances encodedLength routing routing' (∃ failure, result = .error failure) ∧
      (result = .ok () → routing.revision = plan.revision) := by
  have hrevised : Books encodedLength { routing with revision := routing.revision + 1 } :=
    ⟨hbooks.1, hbooks.2, hbooks.3, hbooks.4, hbooks.5, hbooks.6, hbooks.7, hbooks.8, hbooks.9,
      hbooks.10, hbooks.11⟩
  unfold commitUri
  by_cases hstale : ¬ active ∨ routing.revision ≠ plan.revision
  · rw [if_pos hstale]
    exact ⟨_, _, rfl, .refl hbooks _, by simp⟩
  rw [if_neg hstale]
  push Not at hstale
  obtain ⟨-, hrevision⟩ := hstale
  have hfits := hfits hrevision.symm
  rcases nextRevision_cases routing.revision with hnext | hnext
  · simp only [hnext]
    exact ⟨_, _, rfl, .refl hbooks _, by simp⟩
  simp only [hnext]
  by_cases hadd : plan.add = true
  · by_cases hmem : plan.uri ∈ routing.legacyUris
    · rw [if_pos hadd, if_pos hmem]
      exact ⟨_, _, rfl, ⟨hrevised, .inr rfl, by simp⟩, fun _ ↦ hrevision⟩
    · rw [if_pos hadd, if_neg hmem]
      obtain ⟨hroom, hbytes, hentries⟩ := hfits hadd hmem
      refine ⟨_, _, rfl, ⟨⟨hbooks.idBytes_eq, ?_, ?_, hbooks.idBytes_le, hbytes, hentries,
        hbooks.ids, ?_, hbooks.listeners_le, ?_, hbooks.charged⟩, .inr rfl, by simp⟩,
        fun _ ↦ hrevision⟩
      · simp only [map_append, map_singleton, sum_append, sum_singleton,
          hbooks.uriBytes_eq]
        omega
      · simp only [length_append, length_singleton, hbooks.uriEntries_eq]
        omega
      · rw [nodup_append]
        refine ⟨hbooks.uris, nodup_singleton _, fun a ha b hb ↦ ?_⟩
        rw [mem_singleton] at hb
        rintro rfl
        exact hmem (hb ▸ ha)
      · simp only [length_append, length_singleton]
        omega
  · by_cases hmem : plan.uri ∈ routing.legacyUris
    · have hsum := sum_erase_uri hmem
      have hlength := length_erase_of_mem hmem
      have hpos := length_pos_of_mem hmem
      have hbytesEq := hbooks.uriBytes_eq
      have hentriesEq := hbooks.uriEntries_eq
      rw [if_neg hadd, if_pos hmem, subtract_of_le (by omega), subtract_of_le (by omega)]
      refine ⟨_, _, rfl, ⟨⟨hbooks.idBytes_eq, ?_, ?_, hbooks.idBytes_le, ?_, ?_, hbooks.ids,
        hbooks.uris.erase _, hbooks.listeners_le, ?_, hbooks.charged⟩, .inr rfl, by simp⟩,
        fun _ ↦ hrevision⟩
      · simp only
        omega
      · simp only
        omega
      · exact Nat.le_trans (Nat.sub_le _ _) hbooks.uriBytes_le
      · exact Nat.le_trans (Nat.sub_le _ _) hbooks.uriEntries_le
      · exact Nat.le_trans (length_erase_le ..) hbooks.legacyUris_le
    · rw [if_neg hadd, if_neg hmem]
      exact ⟨_, _, rfl, ⟨hrevised, .inr rfl, by simp⟩, fun _ ↦ hrevision⟩

theorem planUri_spec {active add : Bool} {uri : String} {plan : UriPlan}
    (hplan : routing.planUri active uri add = .ok plan) :
    plan.revision = routing.revision ∧ plan.Fits routing := by
  unfold planUri at hplan
  split_ifs at hplan with hactive hlong hroom
  injection hplan with hplan
  subst hplan
  refine ⟨rfl, fun hadd hmem ↦ ?_⟩
  push Not at hroom
  simpa [Nat.not_le, Nat.not_lt] using hroom hadd hmem

/-- A checked list of URIs has the sum of their sizes. -/
theorem sumUris_eq {uris : List Json} {total : ℕ} (hsum : sumUris uris = .ok total) :
    total = ((uris.filterMap Json.asStr).map String.utf8ByteSize).sum := by
  unfold sumUris at hsum
  rw [← Nat.zero_add (List.sum _)]
  generalize 0 = start at hsum ⊢
  induction uris generalizing start with
  | nil => simpa using (Except.ok.inj hsum).symm
  | cons uri uris ih =>
    rw [foldlM_cons] at hsum
    cases huri : uri.asStr with
    | none =>
      simp only [huri, bind, Except.bind] at hsum
      exact absurd hsum (by simp)
    | some text =>
      simp only [huri] at hsum
      split_ifs at hsum with hlong
      · exact absurd hsum (by simp [bind, Except.bind])
      · cases hadd : checkedAdd start text.utf8ByteSize with
        | none =>
          simp only [hadd, bind, Except.bind] at hsum
          exact absurd hsum (by simp)
        | some next =>
          simp only [hadd, bind, Except.bind] at hsum
          have hnext := eq_of_checkedAdd hadd
          rw [ih next hsum, hnext, filterMap_cons_some huri]
          simp only [map_cons, sum_cons]
          omega

theorem requestedListener_spec {filter : Json} {valid : Bool} {listener : Listener}
    (hrequest : routing.requestedListener encodedLength id filter valid = .ok listener) :
    routing.listeners.length < MAX_LISTENERS ∧ listener.id = id ∧
      listener.Charged encodedLength := by
  simp only [requestedListener, bind, Except.bind, throw, throwThe, MonadExceptOf.throw, pure,
    Except.pure] at hrequest
  split_ifs at hrequest with hroom hvalid hid
  cases hlength : encodedLen encodedLength id MAX_ID with
  | error failure =>
    simp only [hlength] at hrequest
    exact absurd hrequest (by simp)
  | ok idBytes =>
    simp only [hlength] at hrequest
    split_ifs at hrequest
    cases hsum : sumUris (((filter.get "resourceSubscriptions").bind Json.asArray).getD []) with
    | error failure =>
      simp only [hsum] at hrequest
      exact absurd hrequest (by simp)
    | ok uriBytes =>
      simp only [hsum] at hrequest
      injection hrequest with hrequest
      subst hrequest
      refine ⟨Nat.lt_of_not_le hroom, rfl, hid, ?_, sumUris_eq hsum⟩
      unfold encodedLen at hlength
      split_ifs at hlength
      exact (Except.ok.inj hlength).symm

theorem planListen_spec (hbooks : routing.Books encodedLength) (active : Bool) (id filter : Json)
    (valid : Bool) :
    ∃ result, routing.planListen encodedLength active id filter valid = .ok result ∧
      ∀ plan, result = .ok plan → plan.revision = routing.revision ∧ plan.Fits routing ∧
        plan.listener.Charged encodedLength := by
  unfold planListen
  by_cases hactive : active = true
  · rw [if_neg (by simpa using hactive)]
    cases hrequest : routing.requestedListener encodedLength id filter valid with
    | error failure => exact ⟨_, rfl, by simp⟩
    | ok listener =>
      obtain ⟨hroom, hid, hcharged⟩ := requestedListener_spec hrequest
      have hprior : ∃ old, (routing.position id).mapM (listenerAt routing.listeners) = .ok old ∧
          old = (routing.position id).bind (fun i ↦ routing.listeners[i]?) ∧
          old.elim 0 Listener.idBytes ≤ routing.idBytes ∧
          old.elim 0 Listener.uriBytes ≤ routing.uriBytes ∧
          (old.elim 0 fun old ↦ old.uris.length) ≤ routing.uriEntries := by
        cases hposition : routing.position id with
        | none => exact ⟨none, rfl, rfl, Nat.zero_le _, Nat.zero_le _, Nat.zero_le _⟩
        | some i =>
          obtain ⟨old, hat, -⟩ := position_eq_some (hid ▸ hcharged.isId) hposition
          refine ⟨some old, ?_, hat.symm, hbooks.charge_le hat⟩
          show (listenerAt routing.listeners i >>= fun old ↦ pure (some old)) = _
          rw [listenerAt_of_eq hat]
          rfl
      obtain ⟨old, hold, hat, hids, hbytes, hentries⟩ := hprior
      simp only [hold, bind, Except.bind, pure, Except.pure, replaced, subtract_of_le hids,
        subtract_of_le hbytes, subtract_of_le hentries]
      split_ifs with hfull
      · exact ⟨_, rfl, by simp⟩
      · refine ⟨_, rfl, fun plan hplan ↦ ?_⟩
        injection hplan with hplan
        subst hplan
        push Not at hfull
        obtain ⟨hidsLe, hbytesLe, hentriesLe⟩ := hfull
        refine ⟨rfl, ⟨by rw [hid], hroom, ?_, ?_, ?_⟩, hcharged⟩ <;>
          simp only [ListenPlan.old, ← hat]
        · omega
        · omega
        · omega
  · rw [if_pos (by simpa using hactive)]
    exact ⟨_, rfl, by simp⟩

end Routing

/-! ### Interleavings -/

namespace Owner

open Routing

variable {owner : Owner}

/-- The plans stay in order when the routing advances. -/
theorem Good.advance (hgood : owner.Good encodedLength) {routing : Routing} {failed : Prop}
    (hadvances : Advances encodedLength owner.routing routing failed) :
    Good encodedLength { owner with routing } := by
  rcases hadvances.revision with hsame | hnext
  · subst hsame
    exact hgood
  · refine ⟨hadvances.books, fun plan hplan ↦ ?_, fun plan hplan ↦ ?_⟩
    · obtain ⟨hcharged, hle, -⟩ := hgood.listenPlans plan hplan
      refine ⟨hcharged, ?_, fun hrevision ↦ ?_⟩
      · show plan.revision ≤ routing.revision
        omega
      · have hrevision : plan.revision = routing.revision := hrevision
        omega
    · obtain ⟨hle, -⟩ := hgood.uriPlans plan hplan
      refine ⟨?_, fun hrevision ↦ ?_⟩
      · show plan.revision ≤ routing.revision
        omega
      · have hrevision : plan.revision = routing.revision := hrevision
        omega

/-- What a call of a good owner does: it never panics, keeps the owner good, takes the next revision
if it changes the routing, and changes nothing when it fails; a plan is made at the current revision
and committed only at its own. -/
structure Effect (encodedLength : Json → ℕ) (owner : Owner) (call : Call) (reply : Reply)
    (owner' : Owner) : Prop where
  good : owner'.Good encodedLength
  revision : owner'.routing = owner.routing ∨
    owner'.routing.revision = owner.routing.revision + 1
  unchanged : reply.isError → owner'.routing = owner.routing
  planned : (∀ plan, reply = .listenPlan (.ok plan) → plan.revision = owner'.routing.revision) ∧
    ∀ plan, reply = .uriPlan (.ok plan) → plan.revision = owner'.routing.revision
  committed : reply = .done (.ok ()) →
    (∀ plan, call = .commitListen plan → owner.routing.revision = plan.revision) ∧
      ∀ plan, call = .commitUri plan → owner.routing.revision = plan.revision

theorem exec_effect (hgood : owner.Good encodedLength) {call : Call}
    (henabled : owner.Enabled call) :
    ∃ reply owner', owner.exec encodedLength call = .ok (reply, owner') ∧
      Effect encodedLength owner call reply owner' := by
  cases call with
  | planListen loaded id filter valid =>
    obtain ⟨result, hplan, hspec⟩ :=
      planListen_spec hgood.books loaded id filter valid
    refine ⟨.listenPlan result,
      { owner with listenPlans := owner.listenPlans ++ result.toOption.toList },
      by simp only [exec, hplan]; rfl, ⟨hgood.books, ?_, hgood.uriPlans⟩, .inl rfl,
      fun _ ↦ rfl, ⟨?_, by simp⟩, by simp⟩
    · intro plan hmem
      rcases mem_append.mp hmem with hold | hnew
      · exact hgood.listenPlans plan hold
      · cases result with
        | error failure => simp [Except.toOption] at hnew
        | ok made =>
          obtain rfl : plan = made := by simpa [Except.toOption] using hnew
          obtain ⟨hrevision, hfits, hcharged⟩ := hspec plan rfl
          exact ⟨hcharged, Nat.le_of_eq hrevision, fun _ ↦ hfits⟩
    · intro plan hreply
      exact (hspec plan (Reply.listenPlan.inj hreply)).1
  | commitListen plan =>
    obtain ⟨hcharged, -, hfits⟩ := hgood.listenPlans plan henabled
    obtain ⟨result, routing, hcommit, hadvances, hrevision⟩ :=
      commitListen_spec hgood.books owner.active hfits hcharged
    refine ⟨.done result, { owner with routing }, by simp only [exec, hcommit]; rfl,
      hgood.advance hadvances, hadvances.revision, hadvances.unchanged, by simp,
        fun hreply ↦ ⟨?_, by simp⟩⟩
    rintro other ⟨⟩
    exact hrevision (Reply.done.inj hreply)
  | planUri loaded uri add =>
    refine ⟨_, _, rfl, ⟨hgood.books, hgood.listenPlans, ?_⟩, .inl rfl, fun _ ↦ rfl, ⟨by simp, ?_⟩,
      by simp⟩
    · intro plan hmem
      rcases mem_append.mp hmem with hold | hnew
      · exact hgood.uriPlans plan hold
      · cases hplan : owner.routing.planUri loaded uri add with
        | error failure => simp [hplan, Except.toOption] at hnew
        | ok made =>
          obtain rfl : plan = made := by simpa [hplan, Except.toOption] using hnew
          obtain ⟨hrevision, hfits⟩ := planUri_spec hplan
          exact ⟨Nat.le_of_eq hrevision, fun _ ↦ hfits⟩
    · intro plan hreply
      exact (planUri_spec (Reply.uriPlan.inj hreply)).1
  | commitUri plan =>
    obtain ⟨-, hfits⟩ := hgood.uriPlans plan henabled
    obtain ⟨result, routing, hcommit, hadvances, hrevision⟩ :=
      commitUri_spec hgood.books owner.active hfits
    refine ⟨.done result, { owner with routing }, by simp only [exec, hcommit]; rfl,
      hgood.advance hadvances, hadvances.revision, hadvances.unchanged, by simp,
        fun hreply ↦ ⟨by simp, ?_⟩⟩
    rintro other ⟨⟩
    exact hrevision (Reply.done.inj hreply)
  | cancel id =>
    obtain ⟨result, routing, hcancel, hadvances⟩ := cancel_spec hgood.books id
    exact ⟨.cancelled result, { owner with routing }, by simp only [exec, hcancel]; rfl,
      hgood.advance hadvances, hadvances.revision, hadvances.unchanged, by simp, by simp⟩
  | setLegacy legacy =>
    have hadvances := setLegacy_spec hgood.books legacy
    exact ⟨_, _, rfl, hgood.advance hadvances, hadvances.revision, hadvances.unchanged, by simp,
      by simp⟩
  | close =>
    exact ⟨_, _, rfl, ⟨hgood.books, hgood.listenPlans, hgood.uriPlans⟩, .inl rfl, fun _ ↦ rfl,
      by simp, by simp⟩

/-- A step of the machine has the effect of its call. -/
theorem step_effect (hgood : owner.Good encodedLength) {event : Call × Reply} {owner' : Owner}
    (hstep : (routingMachine encodedLength).step owner event owner') :
    Effect encodedLength owner event.1 event.2 owner' := by
  obtain ⟨henabled, hexec⟩ := hstep
  obtain ⟨reply, other, hexec', heffect⟩ := exec_effect hgood henabled
  obtain ⟨hreply, rfl⟩ := Prod.mk.inj (Except.ok.inj (hexec.symm.trans hexec'))
  rw [hreply]
  exact heffect

theorem good_of_reachable (hreachable : (routingMachine encodedLength).Reachable owner) :
    owner.Good encodedLength := by
  refine Machine.invariant_of_step (Good encodedLength) ?_ ?_ hreachable
  · rintro _ ⟨tools, rfl⟩
    exact ⟨.new tools, by simp, by simp⟩
  · intro before event after _ hgood hstep
    exact (step_effect hgood hstep).good

/-- The routing stays the same until a plan is committed. -/
theorem routing_eq_of_run {start : Owner} {run : List ((Call × Reply) × Owner)}
    (hreachable : (routingMachine encodedLength).Reachable start)
    (hrun : (routingMachine encodedLength).Run start run)
    (hrevision : (Machine.last start run).routing.revision = start.routing.revision) :
    ∀ entry ∈ run, entry.2.routing = start.routing := by
  refine Machine.Run.view_eq_of_rank (fun owner : Owner ↦ owner.routing)
    (fun owner : Owner ↦ owner.routing.revision) ?_ hreachable hrun (Nat.le_of_eq hrevision)
  intro s e t hs hstep
  rcases (step_effect (good_of_reachable hs) hstep).revision with hsame | hnext
  · exact .inl ⟨hsame, by rw [hsame]⟩
  · exact .inr (by omega)

end Owner

/-- An event that makes a plan and a later one that commits it. -/
def Commits (planned committed : Call × Reply) : Prop :=
  (∃ plan, planned.2 = .listenPlan (.ok plan) ∧
    committed = (.commitListen plan, .done (.ok ()))) ∨
  ∃ plan, planned.2 = .uriPlan (.ok plan) ∧ committed = (.commitUri plan, .done (.ok ()))

/-- Subscription accounting over every interleaving of the calls, with plans held across other calls
and committed late, more than once or never.

In every reachable state the running sums are the sums over the installed listeners and the legacy
URIs and within the budgets, the identifiers of the listeners are pairwise distinct, listeners and
URIs are within their limits, and no call that can be made subtracts below zero or leaves the list
of listeners. A call that answers an error leaves the routing as it was, and between the making of a
plan and its commit no call changed the routing. -/
theorem subscription_accounting (encodedLength : Json → ℕ) :
    (∀ owner, (routingMachine encodedLength).Reachable owner →
      owner.routing.Books encodedLength ∧
      owner.routing.listeners.Pairwise (fun a b ↦ (a.id == b.id) = false) ∧
      ∀ call, owner.Enabled call →
        ∃ reply owner', owner.exec encodedLength call = .ok (reply, owner')) ∧
    (∀ owner event owner', (routingMachine encodedLength).Reachable owner →
      (routingMachine encodedLength).step owner event owner' → event.2.isError →
        owner'.routing = owner.routing) ∧
    (∀ start run, (routingMachine encodedLength).initial start →
      (routingMachine encodedLength).Run start run →
      ∀ before planned made middle committed after rest,
        run = before ++ (planned, made) :: (middle ++ (committed, after) :: rest) →
        Commits planned committed → ∀ entry ∈ middle, entry.2.routing = made.routing) := by
  refine ⟨fun owner hreachable ↦ ?_, fun owner event owner' hreachable hstep herror ↦ ?_,
    fun start run hinitial hrun before planned made middle committed after rest hsplit hcommits ↦
    ?_⟩
  · have hgood := Owner.good_of_reachable hreachable
    refine ⟨hgood.books, ?_, fun call henabled ↦ ?_⟩
    · refine (pairwise_map.mp hgood.books.ids).imp_of_mem fun {a b} _ hb hne ↦ ?_
      by_contra hbeq
      exact hne (Json.eq_of_beq_id (hgood.books.charged b hb).isId (by simpa using hbeq))
    · obtain ⟨reply, owner', hexec, -⟩ := Owner.exec_effect hgood henabled
      exact ⟨reply, owner', hexec⟩
  · exact (Owner.step_effect (Owner.good_of_reachable hreachable) hstep).unchanged herror
  · obtain ⟨hbefore, hplan, hrest⟩ := hrun.split hsplit
    have hfrom := hbefore.reachable (.initial hinitial)
    have hmade := hfrom.step hplan
    obtain ⟨hmiddle, hcommit, -⟩ := hrest.split rfl
    have hplanned := Owner.step_effect (Owner.good_of_reachable hfrom) hplan
    have hcommitted :=
      Owner.step_effect (Owner.good_of_reachable (hmiddle.reachable hmade)) hcommit
    refine Owner.routing_eq_of_run hmade hmiddle ?_
    rcases hcommits with ⟨plan, hreply, rfl⟩ | ⟨plan, hreply, rfl⟩
    · rw [← hplanned.planned.1 plan hreply]
      exact (hcommitted.committed rfl).1 plan rfl
    · rw [← hplanned.planned.2 plan hreply]
      exact (hcommitted.committed rfl).2 plan rfl

end ObsMcp.Subscriptions
