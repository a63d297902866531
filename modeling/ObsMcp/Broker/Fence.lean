import ObsMcp.Broker.Steps

/-!
# Exclusion at the dispatch fence

`DispatchFence::permits` is asked right before an effect is sent. It is no lock: an ordinary scope
is let through when its own receipt is being sent and nothing else of the endpoint blocks, both read
from the durable inventory. `State.Admits` is what its `Ok(true)` says about the inventory, and
three consequences are drawn from it: two ordinary receipts are never let through together, the
second one only after an update took the first out of its blocking phases (`State.admits_after`),
and a public stop only past receipts that live scopes hold and that are known to be in flight.

`dispatch_fence_exclusion` states them for every reachable state and every run of the broker.
-/

namespace ObsMcp.Broker

open Foundations Receipts List

/-! ### The inventory -/

variable {fault : Option IoError} {inventory : List StoredReceipt} {store : BackendStore}
  {receipt : StoredReceipt}

/-- An inventory answers only without a fault, and lists the receipts of the endpoint. -/
theorem inventory_eq_ok (hinventory : store.inventory fault = .ok inventory) :
    fault = none ∧ (∀ file ∈ store.files, file.receipt.isSome = true) ∧
      ∀ receipt, receipt ∈ inventory ↔
        (∃ file ∈ store.files, file.receipt = some receipt) ∧
          receipt.endpoint = store.endpointHash := by
  cases fault with
  | some error =>
    unfold BackendStore.inventory at hinventory
    split_ifs at hinventory
  | none =>
    unfold BackendStore.inventory at hinventory
    split_ifs at hinventory with hpoisoned hlimit hall
    injection hinventory with hinventory
    refine ⟨rfl, by simpa using hall, fun receipt ↦ ?_⟩
    rw [← hinventory]
    simp [mem_filter, mem_filterMap]

/-- The receipt of a well-formed file has the name of the file. -/
theorem receipt_eq_some {file : ReceiptFile} (hreceipt : file.receipt = some receipt) :
    file.content = some receipt ∧ receipt.id = file.name := by
  unfold ReceiptFile.receipt at hreceipt
  split_ifs at hreceipt
  simpa [Option.filter_eq_some_iff] using hreceipt

/-- The receipt of a file of the endpoint is listed in the inventory, under the name of its file. -/
theorem listed_of_file (hinventory : store.inventory fault = .ok inventory) {id : String}
    (hfile : store.file id = some ⟨id, some receipt⟩)
    (hendpoint : receipt.endpoint = store.endpointHash) :
    receipt ∈ inventory ∧ receipt.id = id := by
  obtain ⟨-, hwell, hmem⟩ := inventory_eq_ok hinventory
  have hin : (⟨id, some receipt⟩ : ReceiptFile) ∈ store.files := mem_of_find?_eq_some hfile
  obtain ⟨stored, hstored⟩ := Option.isSome_iff_exists.mp (hwell _ hin)
  obtain ⟨hcontent, hname⟩ := receipt_eq_some hstored
  obtain rfl : receipt = stored := by simpa using hcontent
  exact ⟨(hmem receipt).mpr ⟨⟨_, hin, hstored⟩, hendpoint⟩, hname⟩

namespace State

/-- The receipt of an identifier blocks: it is stored for the endpoint in a blocking phase. -/
def Blocked (id : String) (state : State) : Prop :=
  ∃ receipt : StoredReceipt, state.store.file id = some ⟨id, some receipt⟩ ∧
    receipt.endpoint = state.store.endpointHash ∧ receipt.blocking = true

/-- What the fence of an ordinary scope found in the inventory: the receipt is being sent, and no
other receipt of the endpoint blocks. -/
def Admits (own : String) (state : State) : Prop :=
  ∃ inventory, state.store.inventory none = .ok inventory ∧
    (∃ receipt ∈ inventory, receipt.id = own ∧ receipt.dispatching = true) ∧
      ∀ receipt ∈ inventory, receipt.id ≠ own → receipt.blocking = false

variable {id own : String} {state : State}

variable {io : BrokerIo} {port : ℕ} {scope : Scope} {event : Event} {next : State}
  {hash : String → String}

/-- An ordinary scope is let through on an inventory that admits its receipt. -/
theorem admits_of_permits (hscope : state.scopeOf port = some scope)
    (hordinary : scope.kind.isPublicStop = false)
    (hpermits : (state.permits port own io).1 = .ok true) : state.Admits own := by
  unfold permits at hpermits
  split_ifs at hpermits
  simp only [hscope, hordinary, Bool.false_eq_true, if_false] at hpermits
  split_ifs at hpermits
  split at hpermits
  · cases hpermits
  · cases hpermits
  · rename_i hsent
    split at hpermits
    · cases hpermits
    · rename_i admission hadmission
      have hfree : admission.blocking = false := by simpa using hpermits
      unfold BackendStore.isDispatching at hsent
      unfold BackendStore.admissionExcept at hadmission
      cases hinventory : state.store.inventory io.dispatching with
      | error error => simp [hinventory, Except.map] at hsent
      | ok inventory =>
        cases hinventory' : state.store.inventory io.admission with
        | error error => simp [hinventory', Except.map] at hadmission
        | ok inventory' =>
          have hnone := (inventory_eq_ok hinventory).1
          have hnone' := (inventory_eq_ok hinventory').1
          rw [hnone] at hinventory
          rw [hnone', hinventory] at hinventory'
          injection hinventory' with hsame
          subst hsame
          rw [hnone, hinventory] at hsent
          rw [hnone', hinventory] at hadmission
          refine ⟨inventory, hinventory, ?_, ?_⟩
          · have hany : (inventory.any fun receipt ↦
                receipt.id == own && receipt.dispatching) = true := by
              simpa [Except.map] using hsent
            simpa using hany
          · have hblocking : (inventory.any fun entry ↦
                some entry.id != some own && entry.blocking) = false := by
              have hvalue : BackendStore.admissionBy inventory
                  (fun entry ↦ some entry.id != some own && entry.blocking) = admission := by
                simpa [Except.map] using hadmission
              rw [← hvalue] at hfree
              exact hfree
            intro receipt hreceipt hother
            have := any_eq_false.mp hblocking receipt hreceipt
            simpa [hother] using this

/-- A receipt that is let through is stored and blocks. -/
theorem Admits.blocked (hadmits : state.Admits own) : state.Blocked own := by
  obtain ⟨inventory, hinventory, ⟨receipt, hreceipt, hid, hsent⟩, -⟩ := hadmits
  obtain ⟨⟨file, hfile, hcontent⟩, hendpoint⟩ :=
    ((inventory_eq_ok hinventory).2.2 receipt).mp hreceipt
  obtain ⟨hcontent', hname⟩ := receipt_eq_some hcontent
  refine ⟨receipt, ?_, hendpoint, StoredReceipt.blocking_of_dispatching hsent⟩
  have hlookup := BackendStore.file_of_mem hfile
  rw [← hname, hid] at hlookup
  rw [hlookup, ← hcontent', ← hid, hname]

/-- No other receipt is let through while one blocks. -/
theorem Admits.eq_of_blocked (hadmits : state.Admits own) (hblocked : state.Blocked id) :
    id = own := by
  obtain ⟨inventory, hinventory, -, hfree⟩ := hadmits
  obtain ⟨receipt, hfile, hendpoint, hblocking⟩ := hblocked
  obtain ⟨hlisted, hid⟩ := listed_of_file hinventory hfile hendpoint
  by_contra hne
  simp [hfree receipt hlisted (hid ▸ hne)] at hblocking

/-- The receipt of an identifier is stored in a phase that does not block. -/
def Released (id : String) (state : State) : Prop :=
  ∃ receipt : StoredReceipt, state.store.file id = some ⟨id, some receipt⟩ ∧
    receipt.blocking = false

/-- Only an update of a receipt can take it out of its blocking phases. -/
theorem Moves.blocked (hmoves : Moves event state next) (hblocked : state.Blocked id) :
    next.Blocked id ∨ event.updatedId = some id ∧ next.Released id := by
  induction hmoves with
  | stay => exact .inl hblocked
  | poison _ ih => exact ih
  | mark => exact .inl hblocked
  | drop port => exact .inl hblocked
  | opened => exact .inl hblocked
  | prepared port scope new receipt keep _ hnew =>
    obtain ⟨stored, hfile, hendpoint, hblocking⟩ := hblocked
    refine .inl ⟨stored, ?_, hendpoint, hblocking⟩
    have hne : id ≠ new := by
      rintro rfl
      simp [hnew] at hfile
    exact (BackendStore.file_write_other state.store new receipt hne).trans hfile
  | uncertain port scope new receipt _ hnew =>
    obtain ⟨stored, hfile, hendpoint, hblocking⟩ := hblocked
    refine .inl ⟨stored, ?_, hendpoint, hblocking⟩
    have hne : id ≠ new := by
      rintro rfl
      simp [hnew] at hfile
    exact (BackendStore.file_write_other state.store new receipt hne).trans hfile
  | updated old new hold hid hkept hevent =>
    obtain ⟨stored, hfile, hendpoint, hblocking⟩ := hblocked
    by_cases hsame : old.id = id
    · subst hsame
      obtain rfl : old = stored := by
        rw [hold] at hfile
        simpa using hfile
      have hwritten : (state.store.write new.id new).file old.id = some ⟨old.id, some new⟩ := by
        rw [← hid]
        exact BackendStore.file_write_self state.store new.id new
      cases hnew : new.blocking with
      | true => exact .inl ⟨new, hwritten, hkept.trans hendpoint, hnew⟩
      | false => exact .inr ⟨hevent, new, hwritten, hnew⟩
    · refine .inl ⟨stored, ?_, hendpoint, hblocking⟩
      have hne : id ≠ new.id := by
        rw [hid]
        exact Ne.symm hsame
      exact (BackendStore.file_write_other state.store new.id new hne).trans hfile

/-- A second ordinary receipt is let through only after an update took the first one out of its
blocking phases. -/
theorem admits_after {run : List ((Event × BrokerIo) × State)} {first second : String}
    (hrun : (brokerMachine hash).Run state run) (hfirst : state.Admits first)
    (hsecond : (Machine.last state run).Admits second) (hne : first ≠ second) :
    ∃ before label next after, run = before ++ (label, next) :: after ∧
      label.1.updatedId = some first ∧ (Machine.last state before).Blocked first ∧
        next.Released first := by
  have hout : ¬ (Machine.last state run).Blocked first :=
    fun hblocked ↦ hne (hsecond.eq_of_blocked hblocked)
  obtain ⟨before, label, next, after, hsplit, hinside, hstep, hleft⟩ :=
    hrun.exists_exit hfirst.blocked hout
  have hmoves := exec_moves hash (Machine.last state before) label.2 label.1
  rw [← hstep] at hmoves
  obtain ⟨hupdate, hreleased⟩ := (hmoves.blocked hinside).resolve_left hleft
  exact ⟨before, label, next, after, hsplit, hupdate, hinside, hreleased⟩

/-! ### Public stops -/

/-- A public stop is let through past receipts that live scopes hold and that are in flight. -/
theorem live_of_permits (hscope : state.scopeOf port = some scope)
    (hpublic : scope.kind.isPublicStop = true) (hpermits : (state.permits port own io).1 = .ok true)
    (hfile : state.store.file id = some ⟨id, some receipt⟩)
    (hendpoint : receipt.endpoint = state.store.endpointHash) (hblocking : receipt.blocking = true)
    (hother : id ≠ own) :
    (∃ holder ∈ state.scopes, id ∈ holder.ids) ∧ receipt.knownLiveInFlight = true := by
  unfold permits at hpermits
  split_ifs at hpermits
  simp only [hscope, hpublic, if_true] at hpermits
  split_ifs at hpermits
  split at hpermits
  · cases hpermits
  · rename_i admission next hsafe
    obtain ⟨-, hadmission⟩ := safetyAdmission_eq_ok hsafe
    have hfree : admission.blocking = false := by simpa using hpermits
    unfold BackendStore.admissionWithLiveIds at hadmission
    split at hadmission
    · cases hadmission
    · rename_i inventory hinventory
      split_ifs at hadmission
      injection hadmission with hadmission
      rw [← hadmission] at hfree
      obtain ⟨hlisted, hid⟩ := listed_of_file hinventory hfile hendpoint
      have hpassed := any_eq_false.mp hfree receipt hlisted
      simp only [hblocking, Bool.true_and, Bool.and_eq_true, bne_iff_ne, ne_eq, Option.some.injEq,
        hid, hother, not_false_eq_true, true_and, Bool.not_eq_true', Bool.not_eq_false,
        contains_iff_mem] at hpassed
      exact ⟨by simpa [liveIds] using hpassed.1, hpassed.2⟩

/-- The number of public stop scopes. -/
def publicStops (state : State) : ℕ := state.scopes.countP fun scope ↦ scope.kind.isPublicStop

theorem modify_publicStops (state : State) (port : ℕ) {change : Scope → Scope}
    (hchange : ∀ scope, (change scope).kind = scope.kind) :
    (state.modify port change).publicStops = state.publicStops := by
  unfold publicStops modify
  rw [countP_map]
  refine countP_congr fun scope _ ↦ ?_
  by_cases hport : scope.port = port <;> simp [hport, hchange]

theorem Moves.publicStops_le (hmoves : Moves event state next) (hone : state.publicStops ≤ 1) :
    next.publicStops ≤ 1 := by
  induction hmoves with
  | stay => exact hone
  | poison _ ih => exact ih
  | mark => exact hone
  | drop port => exact Nat.le_trans filter_sublist.countP_le hone
  | opened kind _ _ hstop =>
    unfold publicStops at hone ⊢
    rw [countP_append]
    by_cases hpublic : kind.isPublicStop = true
    · have hnone : state.scopes.countP (fun scope ↦ scope.kind.isPublicStop) = 0 := by
        rw [countP_eq_zero]
        intro scope hscope
        simp [hstop hpublic scope hscope]
      simp [hnone, hpublic]
    · simpa [hpublic] using hone
  | prepared port scope id receipt keep =>
    refine Nat.le_trans (Nat.le_of_eq (modify_publicStops _ port ?_)) hone
    exact fun scope ↦ rfl
  | uncertain => exact hone
  | updated => exact hone

theorem publicStops_le_of_reachable (hreachable : (brokerMachine hash).Reachable state) :
    state.publicStops ≤ 1 := by
  refine Machine.invariant_of_step (fun state ↦ state.publicStops ≤ 1)
    (fun state hinitial ↦ ?_) (fun state label next _ h hstep ↦ ?_) hreachable
  · rw [publicStops, hinitial.1]
    exact Nat.zero_le 1
  · exact (hstep ▸ exec_moves hash state label.2 label.1).publicStops_le h

end State

/-- The exclusion at the dispatch fence, in every reachable state and along every run from it. Two
ordinary receipts are never let through together; after one was, another is only once an update
took the first out of its blocking phases; and a public stop, of which there is at most one, is let
through only past blocking receipts that live scopes hold and that are known to be in flight. -/
theorem dispatch_fence_exclusion (hash : String → String) :
    (∀ state, (brokerMachine hash).Reachable state →
      ∀ (port port' : ℕ) (scope scope' : Scope) (own own' : String) (io io' : BrokerIo),
        state.scopeOf port = some scope → scope.kind.isPublicStop = false →
        state.scopeOf port' = some scope' → scope'.kind.isPublicStop = false → own ≠ own' →
          ¬((state.permits port own io).1 = .ok true ∧
            (state.permits port' own' io').1 = .ok true)) ∧
    (∀ state, (brokerMachine hash).Reachable state →
      ∀ (run : List ((Event × BrokerIo) × State)), (brokerMachine hash).Run state run →
      ∀ (port port' : ℕ) (scope scope' : Scope) (own own' : String) (io io' : BrokerIo),
        state.scopeOf port = some scope → scope.kind.isPublicStop = false →
        (Machine.last state run).scopeOf port' = some scope' →
        scope'.kind.isPublicStop = false → own ≠ own' →
        (state.permits port own io).1 = .ok true →
        ((Machine.last state run).permits port' own' io').1 = .ok true →
          ∃ before label next after, run = before ++ (label, next) :: after ∧
            label.1.updatedId = some own ∧ (Machine.last state before).Blocked own ∧
              next.Released own) ∧
    (∀ state, (brokerMachine hash).Reachable state →
      state.publicStops ≤ 1 ∧
      ∀ (port : ℕ) (scope : Scope) (own : String) (io : BrokerIo),
        state.scopeOf port = some scope → scope.kind.isPublicStop = true →
        (state.permits port own io).1 = .ok true →
        ∀ (id : String) (receipt : StoredReceipt),
          state.store.file id = some ⟨id, some receipt⟩ →
          receipt.endpoint = state.store.endpointHash → receipt.blocking = true → id ≠ own →
            (∃ holder ∈ state.scopes, id ∈ holder.ids) ∧ receipt.knownLiveInFlight = true ∧
              receipt.unknown = false) := by
  refine ⟨?_, ?_, ?_⟩
  · intro state _ port port' scope scope' own own' io io' hscope hordinary hscope' hordinary' hne
    rintro ⟨hpermits, hpermits'⟩
    have hfirst := State.admits_of_permits hscope hordinary hpermits
    have hsecond := State.admits_of_permits hscope' hordinary' hpermits'
    exact hne (hsecond.eq_of_blocked hfirst.blocked)
  · intro state _ run hrun port port' scope scope' own own' io io' hscope hordinary hscope'
      hordinary' hne hpermits hpermits'
    exact State.admits_after hrun (State.admits_of_permits hscope hordinary hpermits)
      (State.admits_of_permits hscope' hordinary' hpermits') hne
  · intro state hreachable
    refine ⟨State.publicStops_le_of_reachable hreachable, ?_⟩
    intro port scope own io hscope hpublic hpermits id receipt hfile hendpoint hblocking hother
    obtain ⟨hheld, hlive⟩ := State.live_of_permits hscope hpublic hpermits hfile hendpoint
      hblocking hother
    exact ⟨hheld, hlive, StoredReceipt.not_unknown_of_live hlive⟩

end ObsMcp.Broker
