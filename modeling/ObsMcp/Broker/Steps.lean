import ObsMcp.Broker.Model

/-!
# Inversion of the broker's calls

`State.exec_moves`: whatever a call is and whatever the file system answers, the broker moves in one
of the ways of `State.Moves`. The proof follows the calls: `State.apply_moves` for the wrapper that
may poison the broker, `State.settle_acts` for the bookkeeping of a prepare and
`State.updateScoped_moves` for the updates, each over the spec lemmas of the store.
-/

namespace ObsMcp.Broker

open Receipts

namespace State

variable {event : Event} {state : State}

/-! ### Actions under the wrapper -/

/-- An action whose state the wrapper turns into a move: it is one, or it is an uncertain
publication that becomes one when the broker is poisoned. -/
def Acts {ρ : Type} (event : Event) (state : State) (action : Except StoreError ρ × State) : Prop :=
  Moves event state action.2 ∨
    action.1 = .error .durabilityUncertain ∧ Moves event state action.2.poison

variable {ρ : Type} {scope : Scope}

theorem apply_moves {action : Except StoreError ρ × State} (hacts : Acts event state action)
    (io : BrokerIo) : Moves event state (apply action io).2 := by
  obtain ⟨result, next⟩ := action
  cases result with
  | ok value =>
    rcases hacts with hmoves | ⟨herror, -⟩
    · exact hmoves
    · cases herror
  | error error =>
    unfold apply
    rcases hacts with hmoves | ⟨herror, hmoves⟩
    · dsimp only
      split_ifs
      · exact hmoves.poison
      · exact hmoves
    · cases herror
      simpa [losesProof] using hmoves

theorem room_eq_ok {extra : ℕ} {io : BrokerIo} (hroom : state.room scope extra io = .ok ()) :
    state.store.files.length + state.reserved + extra ≤ maxReceipts := by
  unfold room BackendStore.capacityUsed at hroom
  cases hfault : io.capacity with
  | some error => simp [hfault] at hroom
  | none =>
    simp only [hfault] at hroom
    split at hroom
    · cases hroom
    · rename_i used hused
      split_ifs at hused hroom with hlimit hsum
      injection hused with hused
      omega

theorem safetyAdmission_moves (own : Option String) (fault : Option IoError) :
    Moves event state (state.safetyAdmission own fault).2 := by
  unfold safetyAdmission
  split
  · exact .stay
  · exact .stay
  · exact .poison .stay

theorem safetyAdmission_eq_ok {own : Option String} {fault : Option IoError}
    {admission : Admission} {next : State}
    (hsafe : state.safetyAdmission own fault = (.ok admission, next)) :
    next = state ∧ state.store.admissionWithLiveIds own state.liveIds fault = .ok admission := by
  unfold safetyAdmission at hsafe
  split at hsafe
  · rename_i hadmission
    injection hsafe with hresult hnext
    injection hresult with hresult
    exact ⟨hnext.symm, hresult ▸ hadmission⟩
  · simp at hsafe
  · simp at hsafe

variable {id : String} {result : Except StoreError ρ × BackendStore} {wrap : ρ → StoredReceipt}

/-- The bookkeeping of a prepare. Assumes: the scope of the port, room for the receipt, and a store
that wrote one new file or none. -/
theorem settle_acts {port : ℕ} (keep : Bool → Bool) (wrap : ρ → StoredReceipt)
    (hscope : state.scopeOf port = some scope)
    (hroom : state.store.files.length + state.reserved + 1 + (keep scope.stopReserved).toNat ≤
      maxReceipts + scope.stopReserved.toNat)
    (hkeep : keep scope.stopReserved = true → scope.stopReserved = true ∨ scope.kind = .take)
    (hstop : scope.stopReserved = true → keep scope.stopReserved = false →
      event.stopPort = some port) (hresult : (∃ error, result = (.error error, state.store)) ∨
      ∃ new, state.store.file id = none ∧
        (result = (.ok new, state.store.write id (wrap new)) ∨
          result = (.error .durabilityUncertain, state.store.write id (wrap new)))) :
    Acts event state (state.settle port
      (fun scope ↦ { scope.own id with stopReserved := keep scope.stopReserved }) result) := by
  rcases hresult with ⟨error, rfl⟩ | ⟨new, hnew, rfl | rfl⟩
  · exact .inl .stay
  · exact .inl (.prepared port scope id (wrap new) keep hscope hnew hroom hkeep hstop)
  · refine .inr ⟨rfl, .uncertain port scope id (wrap new) hscope hnew ?_⟩
    cases hreserved : scope.stopReserved with
    | false =>
      simp only [hreserved, Bool.toNat_false] at hroom
      exact .inl (by omega)
    | true =>
      cases hkept : keep true with
      | true =>
        simp only [hreserved, hkept, Bool.toNat_true] at hroom
        exact .inl (by omega)
      | false =>
        simp only [hreserved, hkept, Bool.toNat_true, Bool.toNat_false] at hroom
        exact .inr ⟨hstop hreserved (hreserved ▸ hkept), rfl, by omega⟩

/-! ### Preparing -/

/-- What preparing a receipt can come to, without the reasons of a refusal. -/
theorem publishNew_outcome {store : BackendStore} {receipt : Except StoreError ρ}
    {publish : Publish} (hinvalid : ∀ error, receipt = .error error → error = .invalidReceipt) :
    (∃ error, store.publishNew id wrap receipt publish = (.error error, store)) ∨
      ∃ new, store.file id = none ∧
        (store.publishNew id wrap receipt publish = (.ok new, store.write id (wrap new)) ∨
          store.publishNew id wrap receipt publish =
            (.error .durabilityUncertain, store.write id (wrap new))) := by
  rcases store.publishNew_cases id wrap publish hinvalid with ⟨error, -, -, hresult⟩ |
    ⟨new, -, hnew, hresult⟩
  · exact .inl ⟨error, hresult⟩
  · exact .inr ⟨new, hnew, hresult⟩

theorem prepareWorkflow_moves (expected : ScopeKind) (port : ℕ) (id : String)
    (write : BackendStore → Except StoreError ρ × BackendStore) (io : BrokerIo)
    (hwrite : (∃ error, write state.store = (.error error, state.store)) ∨
      ∃ new, state.store.file id = none ∧
        (write state.store = (.ok new, state.store.write id (wrap new)) ∨
          write state.store = (.error .durabilityUncertain, state.store.write id (wrap new)))) :
    Moves event state (prepareWorkflow expected state port id write io).2 := by
  refine apply_moves ?_ io
  cases hscope : state.scopeOf port with
  | none => exact .inl .stay
  | some scope =>
    dsimp only
    split_ifs
    · exact .inl .stay
    · exact .inl .stay
    · cases hroom : state.room scope 1 io with
      | error error => exact .inl .stay
      | ok value =>
        have hsum := room_eq_ok hroom
        exact settle_acts (fun reserved ↦ reserved) wrap hscope (by omega) .inl
          (fun htrue hfalse ↦ absurd htrue (by simp [hfalse])) hwrite

theorem askAgain_cases (kind : ScopeKind) (io : BrokerIo) :
    (∃ error next, state.askAgain kind io = (.error error, next) ∧ Moves event state next) ∨
      state.askAgain kind io = (.ok (), state) := by
  unfold askAgain
  split_ifs
  · have hmoves : Moves event state (state.safetyAdmission none io.admission).2 :=
      safetyAdmission_moves none io.admission
    split
    · rename_i error next hsafe
      rw [hsafe] at hmoves
      exact .inl ⟨error, next, rfl, hmoves⟩
    · rename_i admission next hsafe
      obtain ⟨rfl, -⟩ := safetyAdmission_eq_ok hsafe
      cases admission.blocking with
      | true => exact .inl ⟨.conflict, next, rfl, .stay⟩
      | false => exact .inr rfl
  · exact .inr rfl

theorem prepareGeneric_moves (port : ℕ) (id : String) (kind : GenericKind) (generation : ℕ)
    (utc : String) (io : BrokerIo) :
    Moves event state (state.prepareGeneric port id kind generation utc io).2 := by
  refine apply_moves ?_ io
  cases hscope : state.scopeOf port with
  | none => exact .inl .stay
  | some scope =>
    dsimp only
    split_ifs
    · exact .inl .stay
    · exact .inl .stay
    · rcases askAgain_cases scope.kind io with ⟨error, next, hasked, hmoves⟩ | hasked
      · rw [hasked]
        exact .inl hmoves
      · rw [hasked]
        dsimp only
        cases hroom : state.room scope 1 io with
        | error error => exact .inl .stay
        | ok value =>
          have hsum := room_eq_ok hroom
          exact settle_acts (fun reserved ↦ reserved) .generic hscope (by omega) .inl
            (fun htrue hfalse ↦ absurd htrue (by simp [hfalse]))
            (publishNew_outcome fun _ ↦ checkedBy_eq_error)

/-- The room a version 1 prepare asks for covers the reservation it keeps. -/
theorem keeps_room {kind : OperationKind} {used : ℕ}
    (hroom : used + (1 - (kind == .recordStop && scope.stopReserved).toNat +
      (scope.restarting kind).toNat) ≤ maxReceipts) :
    used + 1 + (scope.keeps kind scope.stopReserved).toNat ≤
      maxReceipts + scope.stopReserved.toNat := by
  by_cases hstop : kind = .recordStop
  · subst hstop
    have hrestarting : scope.restarting .recordStop = false := by simp [Scope.restarting]
    rw [hrestarting] at hroom
    cases hreserved : scope.stopReserved <;> simp [Scope.keeps, hreserved] at hroom ⊢ <;> omega
  · have hne : (kind == .recordStop) = false := by simpa using hstop
    rw [hne] at hroom
    cases hrestarting : scope.restarting kind with
    | true =>
      have hreserved : scope.stopReserved = false := by
        simp only [Scope.restarting, Bool.and_eq_true, Bool.not_eq_true'] at hrestarting
        exact hrestarting.2
      simp [Scope.keeps, hne, hrestarting, hreserved] at hroom ⊢
      omega
    | false =>
      simp [Scope.keeps, hne, hrestarting] at hroom ⊢
      omega

theorem prepare_moves (hash : String → String) (port : ℕ) (id : String) (kind : OperationKind)
    (generation : ℕ) (utc : String) (details : PrepareDetails) (io : BrokerIo)
    (hevent : kind = .recordStop → event.stopPort = some port) :
    Moves event state (state.prepare hash port id kind generation utc details io).2 := by
  refine apply_moves ?_ io
  cases hscope : state.scopeOf port with
  | none => exact .inl .stay
  | some scope =>
    dsimp only
    split_ifs
    · exact .inl .stay
    · exact .inl .stay
    · split
      · exact .inl .stay
      · rename_i hroom
        have hsum := room_eq_ok hroom
        refine settle_acts (scope.keeps kind) .v1 hscope (keeps_room hsum) ?_ ?_ ?_
        · intro hkeep
          by_cases hkind : scope.kind = .take
          · exact .inr hkind
          · refine .inl ?_
            unfold Scope.keeps Scope.restarting at hkeep
            split_ifs at hkeep
            simpa [hkind] using hkeep
        · intro hreserved hkeep
          refine hevent ?_
          by_contra hkind
          simp [Scope.keeps, hkind, hreserved] at hkeep
        · unfold BackendStore.prepare
          split_ifs
          · exact .inl ⟨_, rfl⟩
          · exact .inl ⟨_, rfl⟩
          · exact publishNew_outcome fun _ ↦ checkedBy_eq_error

/-! ### Updating -/

/-- A store that rewrote one receipt or none is a move. Assumes: a new receipt with the identity of
the old one. -/
theorem rewritten_moves (wrap : ρ → StoredReceipt) {receipt : ρ} {updated : Except StoreError ρ}
    (hresult : (∃ error, result = (.error error, state.store)) ∨
      ∃ new, updated = .ok new ∧
        state.store.file (wrap receipt).id = some ⟨(wrap receipt).id, some (wrap receipt)⟩ ∧
        (result = (.ok new, state.store.write (wrap new).id (wrap new)) ∨
          result = (.error .durabilityUncertain, state.store.write (wrap new).id (wrap new))))
    (hidentity : ∀ new, updated = .ok new →
      (wrap new).id = (wrap receipt).id ∧ (wrap new).endpoint = (wrap receipt).endpoint)
    (hevent : event.updatedId = some (wrap receipt).id) :
    Moves event state { state with store := result.2 } := by
  rcases hresult with ⟨error, rfl⟩ | ⟨new, hupdated, hfile, hresult⟩
  · exact .stay
  · obtain ⟨hid, hendpoint⟩ := hidentity new hupdated
    rcases hresult with rfl | rfl <;> exact .updated _ _ hfile hid hendpoint hevent

theorem updateScoped_moves (expected : ScopeKind → Bool) (port : ℕ) (id : String)
    (write : BackendStore → Except StoreError ρ × BackendStore) (io : BrokerIo)
    (hwrite : Moves event state { state with store := (write state.store).2 }) :
    Moves event state (updateScoped expected state port id write io).2 := by
  refine apply_moves (.inl ?_) io
  split_ifs
  · exact .stay
  · exact hwrite

theorem update_moves (port : ℕ) (receipt : OperationReceipt) (change : OperationUpdate)
    (utc : String) (io : BrokerIo) (hevent : event.updatedId = some receipt.1.operationId) :
    Moves event state (state.update port receipt change utc io).2 := by
  refine apply_moves (.inl ?_) io
  split_ifs
  · exact .stay
  · refine rewritten_moves .v1
      (state.store.update_cases receipt change utc io.read io.publish) ?_ hevent
    intro new hnew
    have hrecord := checkedBy_eq_ok.mp hnew
    simp [StoredReceipt.id, StoredReceipt.endpoint, StoredReceipt.stamp, ← hrecord,
      OperationRecord.apply]

/-! ### Scopes and fences -/

theorem openScope_moves (kind : ScopeKind) (hclean : state.poisoned = false)
    (htake : kind = .take → (∀ scope ∈ state.scopes, scope.kind ≠ .take) ∧
      state.store.files.length + 2 ≤ maxReceipts)
    (hstop : kind.isPublicStop = true →
      ∀ scope ∈ state.scopes, scope.kind.isPublicStop = false) :
    Moves event state (state.openScope kind).2 := by
  unfold openScope
  split_ifs
  · exact .opened kind hclean htake hstop
  · exact .stay

theorem reserveScope_moves (kind : ScopeKind) (io : BrokerIo) (hclean : state.poisoned = false)
    (hstop : kind.isPublicStop = true →
      ∀ scope ∈ state.scopes, scope.kind.isPublicStop = false) :
    Moves event state (state.reserveScope kind io).2 := by
  unfold reserveScope
  split_ifs with hkind htake
  · exact .stay
  · split
    · exact .stay
    · rename_i used hused
      split_ifs with hlimit
      · exact .stay
      · refine openScope_moves kind hclean (fun _ ↦ ⟨by simpa using htake, ?_⟩) hstop
        unfold BackendStore.capacityUsed at hused
        split at hused
        · cases hused
        · split_ifs at hused
          injection hused with hused
          omega
  · exact openScope_moves kind hclean (fun h ↦ absurd h hkind) hstop

theorem scope_moves (kind : ScopeKind) (io : BrokerIo) :
    Moves event state (state.scope kind io).2 := by
  unfold scope
  split_ifs with hpoisoned hmany hpublic hother
  · exact .stay
  · exact .stay
  · exact .stay
  · have hmoves : Moves event state (state.safetyAdmission none io.admission).2 :=
      safetyAdmission_moves none io.admission
    split
    · rename_i hsafe
      rwa [hsafe] at hmoves
    · rename_i admission next hsafe
      obtain ⟨rfl, -⟩ := safetyAdmission_eq_ok hsafe
      split_ifs
      · exact .stay
      · exact reserveScope_moves kind io (by simpa using hpoisoned)
          fun _ ↦ by simpa using hother
  · split
    · exact .stay
    · split_ifs
      · exact .stay
      · exact reserveScope_moves kind io (by simpa using hpoisoned) fun h ↦ absurd h hpublic

theorem permits_moves (port : ℕ) (own : String) (io : BrokerIo) :
    Moves event state (state.permits port own io).2 := by
  have hmoves : Moves event state (state.safetyAdmission (some own) io.admission).2 :=
    safetyAdmission_moves (some own) io.admission
  unfold permits
  split_ifs
  · exact .stay
  · split
    · exact .stay
    · split_ifs
      · exact .stay
      · split
        · rename_i hsafe
          rwa [hsafe] at hmoves
        · rename_i hsafe
          rwa [hsafe] at hmoves
      · split
        · exact .stay
        · exact .stay
        · split <;> exact .stay

theorem fenceAdmission_moves (port : ℕ) (io : BrokerIo) :
    Moves event state (state.fenceAdmission port io).2 := by
  unfold fenceAdmission
  split_ifs
  · exact .stay
  · split
    · exact .stay
    · split_ifs
      · exact safetyAdmission_moves none io.admission
      · exact .stay

/-- Whatever a call is and whatever the file system answers, the broker makes one of the moves. -/
theorem exec_moves (hash : String → String) (state : State) (io : BrokerIo) (event : Event) :
    Moves event state (state.exec hash io event) := by
  cases event with
  | scope kind => exact scope_moves kind io
  | drop port => exact .drop port
  | prepare port id kind generation utc details =>
    refine prepare_moves hash port id kind generation utc details io ?_
    rintro rfl
    rfl
  | update port receipt change utc => exact update_moves port receipt change utc io rfl
  | prepareGeneric port id kind generation utc =>
    exact prepareGeneric_moves port id kind generation utc io
  | updateGeneric port receipt phase utc =>
    refine updateScoped_moves _ port _ _ io (rewritten_moves .generic
      (state.store.publishUpdate_cases _ receipt _ io.read io.publish) ?_ rfl)
    intro new hnew
    exact (GenericReceipt.updated_eq_ok hnew).2.2
  | prepareRestore port id generation requestCount utc =>
    exact prepareWorkflow_moves .restoreBatch port id _ io
      (publishNew_outcome fun _ ↦ checkedBy_eq_error)
  | updateRestore port receipt phase counts utc =>
    refine updateScoped_moves _ port _ _ io (rewritten_moves .restore
      (state.store.publishUpdate_cases _ receipt _ io.read io.publish) ?_ rfl)
    intro new hnew
    exact (RestoreReceipt.updated_eq_ok hnew).2.2
  | prepareCapture port id generation plan utc =>
    exact prepareWorkflow_moves .captureWindow port id _ io
      (publishNew_outcome fun _ ↦ checkedBy_eq_error)
  | updateCapture port receipt change utc =>
    refine updateScoped_moves _ port _ _ io (rewritten_moves .capture
      (state.store.publishUpdate_cases _ receipt _ io.read io.publish) ?_ rfl)
    intro new hnew
    have hstamp := (CaptureReceipt.updated_eq_ok.mp hnew).frame.1
    have hid := congrArg Stamp.operationId hstamp
    have hendpoint := congrArg Stamp.endpointHash hstamp
    exact ⟨hid, hendpoint⟩
  | prepareApply port id generation creationCount utc =>
    exact prepareWorkflow_moves .applyScene port id _ io
      (publishNew_outcome fun _ ↦ checkedBy_eq_error)
  | updateApply port receipt change utc =>
    refine updateScoped_moves _ port _ _ io (rewritten_moves .apply
      (state.store.publishUpdate_cases _ receipt _ io.read io.publish) ?_ rfl)
    intro new hnew
    have hstamp := (ApplyReceipt.updated_eq_ok.mp hnew).frame.1
    have hid := congrArg Stamp.operationId hstamp
    have hendpoint := congrArg Stamp.endpointHash hstamp
    exact ⟨hid, hendpoint⟩
  | permits port own => exact permits_moves port own io
  | fenceAdmission port => exact fenceAdmission_moves port io
  | markUncertain => exact .mark

end State

end ObsMcp.Broker
