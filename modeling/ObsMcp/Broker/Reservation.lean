import Mathlib.Data.List.Nodup
import Mathlib.Data.List.Perm.Basic
import ObsMcp.Broker.Steps

/-!
# The reservation of a stop

A Take holds the room for the receipt of its stop from the moment its scope opens. The invariant
`State.Accounted` is what makes the five copies of the capacity arithmetic fit together: there is at
most one Take, only a Take holds a reservation, and as long as the broker is not poisoned the files
and the reservations stay within the limit. `State.Roomy` is the part of it that survives a poisoned
broker, for a Take whose stop was not attempted yet.

`stop_reservation` is the result: files and reservations never exceed the limit, and the prepare of
the stop is never refused for want of room.
-/

namespace ObsMcp.Broker

open Foundations Receipts BackendStore List

namespace State

/-! ### The scope of a port -/

variable {port : ℕ} {scope : Scope} {state : State} {id : String} {ρ : Type}

section

variable (hports : (state.scopes.map Scope.port).Nodup) (hscope : state.scopeOf port = some scope)
include hports hscope

/-- A port of a scope splits the scopes around it. Assumes: distinct ports. -/
theorem scopeOf_split :
    ∃ first last, state.scopes = first ++ scope :: last ∧ scope.port = port ∧
      (∀ other ∈ first, other.port ≠ port) ∧ ∀ other ∈ last, other.port ≠ port := by
  obtain ⟨hport, first, last, hsplit, hfirst⟩ := find?_eq_some_iff_append.mp hscope
  have hport' : scope.port = port := by simpa using hport
  refine ⟨first, last, hsplit, hport', fun other hother ↦ by simpa using hfirst other hother, ?_⟩
  intro other hother hsame
  rw [hsplit, map_append, map_cons, nodup_append, nodup_cons] at hports
  refine hports.2.1.1 ?_
  rw [hport', ← hsame]
  exact mem_map_of_mem hother

/-- Changing the scope of a port changes that scope only. Assumes: distinct ports. -/
theorem modify_split (change : Scope → Scope) :
    ∃ first last, state.scopes = first ++ scope :: last ∧
      (state.modify port change).scopes = first ++ change scope :: last := by
  obtain ⟨first, last, hsplit, hport, hfirst, hlast⟩ := scopeOf_split hports hscope
  refine ⟨first, last, hsplit, ?_⟩
  have hkeep (list : List Scope) (hlist : ∀ other ∈ list, other.port ≠ port) :
      (list.map fun scope ↦ if scope.port == port then change scope else scope) = list := by
    conv_rhs => rw [← map_id list]
    refine map_congr_left fun other hother ↦ ?_
    simp [hlist other hother]
  simp only [modify, hsplit, map_append, map_cons, hkeep first hfirst, hkeep last hlast]
  simp [hport]

end

theorem scopeOf_mem (hscope : state.scopeOf port = some scope) :
    scope ∈ state.scopes ∧ scope.port = port := by
  refine ⟨mem_of_find?_eq_some hscope, ?_⟩
  simpa using find?_some hscope

/-! ### The invariant -/

/-- The bookkeeping of the broker. -/
structure Accounted (state : State) : Prop where
  ports : (state.scopes.map Scope.port).Nodup
  fresh : ∀ scope ∈ state.scopes, scope.port ≤ state.next
  oneTake : state.scopes.countP (fun scope ↦ scope.kind == .take) ≤ 1
  reservedTake : ∀ scope ∈ state.scopes, scope.stopReserved = true → scope.kind = .take
  distinct : ∀ scope ∈ state.scopes, scope.ids.Nodup
  stored : ∀ scope ∈ state.scopes, ∀ id ∈ scope.ids, (state.store.file id).isSome = true
  files : state.store.files.length ≤ maxReceipts
  room : state.poisoned = false → state.store.files.length + state.reserved ≤ maxReceipts

/-- The files and the reservations are within the limit as long as a port holds a reservation. -/
def Roomy (port : ℕ) (state : State) : Prop :=
  ∀ scope ∈ state.scopes, scope.port = port → scope.stopReserved = true →
    state.store.files.length + state.reserved ≤ maxReceipts

/-- Without a Take there is no reservation. -/
theorem Accounted.reserved_eq_zero (haccounted : state.Accounted)
    (hnone : ∀ scope ∈ state.scopes, scope.kind ≠ .take) : state.reserved = 0 := by
  unfold reserved
  rw [countP_eq_zero]
  intro scope hscope hreserved
  exact hnone scope hscope (haccounted.reservedTake scope hscope hreserved)

/-- Two ports cannot both hold a reservation. -/
theorem Accounted.port_unique (haccounted : state.Accounted) {first second : Scope}
    (hfirst : first ∈ state.scopes) (hsecond : second ∈ state.scopes)
    (hreserved : first.stopReserved = true) (hreserved' : second.stopReserved = true) :
    first.port = second.port := by
  by_contra hne
  have hsub : ([first, second] : List Scope).Subperm state.scopes := by
    refine subperm_of_subset ?_ ?_
    · simp only [nodup_cons, mem_singleton, not_mem_nil, not_false_eq_true,
        nodup_nil, and_true]
      rintro rfl
      exact hne rfl
    · intro scope hscope
      rcases mem_cons.mp hscope with rfl | hscope
      · exact hfirst
      · rw [mem_singleton.mp hscope]
        exact hsecond
  have hcount := List.Subperm.countP_le (fun scope ↦ scope.kind == .take) hsub
  have htake := haccounted.reservedTake first hfirst hreserved
  have htake' := haccounted.reservedTake second hsecond hreserved'
  have hone := haccounted.oneTake
  simp [htake, htake'] at hcount
  omega

/-! ### One step -/

theorem Accounted.poison (haccounted : state.Accounted) :
    state.poison.Accounted where
  ports := haccounted.ports
  fresh := haccounted.fresh
  oneTake := haccounted.oneTake
  reservedTake := haccounted.reservedTake
  distinct := haccounted.distinct
  stored := haccounted.stored
  files := haccounted.files
  room := fun hclean ↦ absurd hclean (by simp [State.poison])

variable {store : BackendStore} {event : Event} {next : State} {hash : String → String}

/-- Writing a file keeps every file that was there. -/
theorem file_write_isSome {name : String} (receipt : StoredReceipt)
    (hfile : (store.file name).isSome = true) :
    ((store.write id receipt).file name).isSome = true := by
  by_cases hname : name = id
  · rw [hname, file_write_self]
    rfl
  · rwa [file_write_other store id receipt hname]

/-- The reservations after the scope of a port changed. -/
theorem reserved_modify (hports : (state.scopes.map Scope.port).Nodup)
    (hscope : state.scopeOf port = some scope) (change : Scope → Scope) :
    (state.modify port change).reserved + scope.stopReserved.toNat =
      state.reserved + (change scope).stopReserved.toNat := by
  obtain ⟨first, last, hsplit, hmodified⟩ := modify_split hports hscope change
  unfold reserved
  rw [hsplit, hmodified]
  simp only [countP_append, countP_cons]
  cases scope.stopReserved <;> cases (change scope).stopReserved <;> simp <;> omega

/-- A prepare keeps the bookkeeping. -/
theorem Accounted.prepared (haccounted : state.Accounted) {receipt : StoredReceipt}
    {keep : Bool → Bool} (hscope : state.scopeOf port = some scope)
    (hnew : state.store.file id = none)
    (hroom : state.store.files.length + state.reserved + 1 + (keep scope.stopReserved).toNat ≤
      maxReceipts + scope.stopReserved.toNat)
    (hkeep : keep scope.stopReserved = true → scope.stopReserved = true ∨ scope.kind = .take) :
    ({ state with store := state.store.write id receipt }.modify port
      fun scope ↦ { scope.own id with stopReserved := keep scope.stopReserved }).Accounted ∧
    ({ state with store := state.store.write id receipt }.modify port
      fun scope ↦ { scope.own id with
        stopReserved := keep scope.stopReserved }).store.files.length +
      ({ state with store := state.store.write id receipt }.modify port
        fun scope ↦ { scope.own id with stopReserved := keep scope.stopReserved }).reserved ≤
      maxReceipts := by
  set written : State := { state with store := state.store.write id receipt } with hwritten
  set change : Scope → Scope :=
    fun scope ↦ { scope.own id with stopReserved := keep scope.stopReserved } with hchange
  have hports : (written.scopes.map Scope.port).Nodup := haccounted.ports
  have hscope' : written.scopeOf port = some scope := hscope
  have hreserved := reserved_modify hports hscope' change
  obtain ⟨first, last, hsplit, hmodified⟩ := modify_split hports hscope' change
  have hmem (other : Scope) : other ∈ (written.modify port change).scopes →
      other = change scope ∨ other ∈ state.scopes := by
    rw [hmodified, show state.scopes = first ++ scope :: last from hsplit]
    simp only [mem_append, mem_cons]
    tauto
  obtain ⟨hin, -⟩ := scopeOf_mem hscope
  have hlength : written.store.files.length = state.store.files.length + 1 :=
    write_length_of_new _ _ _ hnew
  have hsum : (written.modify port change).store.files.length +
      (written.modify port change).reserved ≤ maxReceipts := by
    have hsame : written.reserved = state.reserved := rfl
    have hstore : (written.modify port change).store = written.store := rfl
    rw [hstore, hlength]
    have hflag : (change scope).stopReserved = keep scope.stopReserved := rfl
    rw [hsame, hflag] at hreserved
    omega
  refine ⟨?_, hsum⟩
  have hfields {β : Type} (field : Scope → β) (hfield : field (change scope) = field scope) :
      (written.modify port change).scopes.map field = state.scopes.map field := by
    rw [hmodified, show state.scopes = first ++ scope :: last from hsplit]
    simp [hfield]
  refine ⟨?_, ?_, ?_, ?_, ?_, ?_, Nat.le_trans (Nat.le_add_right _ _) hsum, fun _ ↦ hsum⟩
  · rw [hfields Scope.port rfl]
    exact haccounted.ports
  · intro other hother
    rcases hmem other hother with rfl | hother
    · exact haccounted.fresh scope hin
    · exact haccounted.fresh other hother
  · have hkinds := hfields Scope.kind rfl
    have hcount := congrArg (List.countP fun kind ↦ kind == .take) hkinds
    rw [countP_map, countP_map] at hcount
    exact hcount ▸ haccounted.oneTake
  · intro other hother hflag
    rcases hmem other hother with rfl | hother
    · exact (hkeep hflag).elim (haccounted.reservedTake scope hin) fun htake ↦ htake
    · exact haccounted.reservedTake other hother hflag
  · intro other hother
    rcases hmem other hother with rfl | hother
    · exact List.Nodup.insert (haccounted.distinct scope hin)
    · exact haccounted.distinct other hother
  · intro other hother name hname
    rcases hmem other hother with rfl | hother
    · rcases mem_insert_iff.mp hname with rfl | hname
      · show ((state.store.write name receipt).file name).isSome = true
        rw [file_write_self]
        rfl
      · exact file_write_isSome receipt (haccounted.stored scope hin name hname)
    · exact file_write_isSome receipt (haccounted.stored other hother name hname)

theorem Accounted.drop (haccounted : state.Accounted) (port : ℕ) :
    (state.drop port).Accounted ∧ (state.drop port).reserved ≤ state.reserved := by
  have hsub : (state.drop port).scopes.Sublist state.scopes := filter_sublist
  have hmem {scope : Scope} (hscope : scope ∈ (state.drop port).scopes) : scope ∈ state.scopes :=
    hsub.subset hscope
  have hreserved : (state.drop port).reserved ≤ state.reserved := hsub.countP_le
  refine ⟨⟨(hsub.map Scope.port).nodup haccounted.ports, ?_, ?_, ?_, ?_, ?_, haccounted.files, ?_⟩,
    hreserved⟩
  · exact fun scope hscope ↦ haccounted.fresh scope (hmem hscope)
  · exact Nat.le_trans hsub.countP_le haccounted.oneTake
  · exact fun scope hscope ↦ haccounted.reservedTake scope (hmem hscope)
  · exact fun scope hscope ↦ haccounted.distinct scope (hmem hscope)
  · exact fun scope hscope ↦ haccounted.stored scope (hmem hscope)
  · intro hclean
    have hroom := haccounted.room hclean
    exact Nat.le_trans (Nat.add_le_add_left hreserved _) hroom

theorem Accounted.opened (haccounted : state.Accounted) {kind : ScopeKind}
    (hclean : state.poisoned = false)
    (htake : kind = .take → (∀ scope ∈ state.scopes, scope.kind ≠ .take) ∧
      state.store.files.length + 2 ≤ maxReceipts) :
    ({ state with
      next := state.next + 1
      scopes := state.scopes ++
        [{ port := state.next + 1, kind := kind, ids := [],
           stopReserved := kind == .take }] } : State).Accounted := by
  have hroom := haccounted.room hclean
  refine ⟨?_, ?_, ?_, ?_, ?_, ?_, haccounted.files, fun _ ↦ ?_⟩
  · rw [map_append, nodup_append]
    refine ⟨haccounted.ports, by simp, ?_⟩
    intro port hport other hother
    obtain ⟨scope, hscope, rfl⟩ := mem_map.mp hport
    have hfresh := haccounted.fresh scope hscope
    have hother' : other = state.next + 1 := by simpa using hother
    omega
  · intro scope hscope
    rcases mem_append.mp hscope with hscope | hscope
    · exact Nat.le_succ_of_le (haccounted.fresh scope hscope)
    · exact Nat.le_of_eq (by rw [mem_singleton.mp hscope])
  · rw [countP_append]
    by_cases hkind : kind = .take
    · have hnone : state.scopes.countP (fun scope ↦ scope.kind == .take) = 0 := by
        rw [countP_eq_zero]
        intro scope hscope
        simpa using (htake hkind).1 scope hscope
      simp [hnone, hkind]
    · simpa [hkind] using haccounted.oneTake
  · intro scope hscope hreserved
    rcases mem_append.mp hscope with hscope | hscope
    · exact haccounted.reservedTake scope hscope hreserved
    · rw [mem_singleton.mp hscope] at hreserved ⊢
      simpa using hreserved
  · intro scope hscope
    rcases mem_append.mp hscope with hscope | hscope
    · exact haccounted.distinct scope hscope
    · rw [mem_singleton.mp hscope]
      exact nodup_nil
  · intro scope hscope id hid
    rcases mem_append.mp hscope with hscope | hscope
    · exact haccounted.stored scope hscope id hid
    · rw [mem_singleton.mp hscope] at hid
      cases hid
  · unfold reserved at hroom ⊢
    rw [countP_append]
    by_cases hkind : kind = .take
    · obtain ⟨hnone, hspace⟩ := htake hkind
      have hzero := haccounted.reserved_eq_zero hnone
      unfold reserved at hzero
      simp [hzero, hkind]
      omega
    · simpa [hkind] using hroom

/-- A move keeps the bookkeeping. -/
theorem Accounted.moves (hmoves : Moves event state next) (haccounted : state.Accounted) :
    next.Accounted := by
  induction hmoves with
  | stay => exact haccounted
  | poison _ ih => exact ih.poison
  | mark => exact { haccounted with }
  | drop port => exact (haccounted.drop port).1
  | opened kind hclean htake _ => exact haccounted.opened hclean htake
  | prepared port scope id receipt keep hscope hnew hroom hkeep _ =>
    exact (haccounted.prepared hscope hnew hroom hkeep).1
  | uncertain port scope id receipt hscope hnew hroom =>
    refine Accounted.mk haccounted.ports haccounted.fresh haccounted.oneTake
      haccounted.reservedTake haccounted.distinct ?_ ?_
      fun hclean ↦ absurd hclean (by simp [State.poison])
    · exact fun other hother name hname ↦
        file_write_isSome receipt (haccounted.stored other hother name hname)
    · have hlength := write_length_of_new state.store id receipt hnew
      show (state.store.write id receipt).files.length ≤ maxReceipts
      rcases hroom with hroom | ⟨-, hown, hroom⟩
      · omega
      · have hpositive : 0 < state.reserved :=
          countP_pos_iff.mpr ⟨scope, (scopeOf_mem hscope).1, hown⟩
        omega
  | updated old new hfile hid _ _ =>
    refine ⟨haccounted.ports, haccounted.fresh, haccounted.oneTake, haccounted.reservedTake,
      haccounted.distinct, ?_, ?_, fun hclean ↦ ?_⟩
    · exact fun other hother name hname ↦
        file_write_isSome new (haccounted.stored other hother name hname)
    · have hlength := write_length_of_old state.store new.id new (hid ▸ hfile)
      exact hlength ▸ haccounted.files
    · have hlength := write_length_of_old state.store new.id new (hid ▸ hfile)
      show (state.store.write new.id new).files.length + state.reserved ≤ maxReceipts
      rw [hlength]
      exact haccounted.room hclean

/-- A move that is no attempt to stop at a port keeps the room of its reservation. -/
theorem Roomy.moves (hmoves : Moves event state next) (hevent : event.stopPort ≠ some port)
    (haccounted : state.Accounted) (hroomy : state.Roomy port) : next.Roomy port := by
  induction hmoves with
  | stay => exact hroomy
  | poison _ ih => exact ih
  | mark => exact hroomy
  | drop other =>
    intro scope hscope hport hreserved
    have hmem : scope ∈ state.scopes := mem_of_mem_filter hscope
    exact Nat.le_trans (Nat.add_le_add_left (haccounted.drop other).2 _)
      (hroomy scope hmem hport hreserved)
  | opened kind hclean htake _ =>
    exact fun _ _ _ _ ↦ (haccounted.opened hclean htake).room hclean
  | prepared other scope id receipt keep hscope hnew hroom hkeep _ =>
    exact fun _ _ _ _ ↦ (haccounted.prepared hscope hnew hroom hkeep).2
  | uncertain other scope id receipt hscope hnew hroom =>
    intro holder hholder hport hreserved
    have hlength := write_length_of_new state.store id receipt hnew
    show (state.store.write id receipt).files.length + state.reserved ≤ maxReceipts
    rcases hroom with hroom | ⟨hstop, hown, -⟩
    · omega
    · obtain ⟨hin, hother⟩ := scopeOf_mem hscope
      have hsame := haccounted.port_unique hin hholder hown hreserved
      exact absurd (hstop.trans (by rw [← hport, ← hsame, hother])) hevent
  | updated old new hfile hid _ _ =>
    intro scope hscope hport hreserved
    have hlength := write_length_of_old state.store new.id new (hid ▸ hfile)
    show (state.store.write new.id new).files.length + state.reserved ≤ maxReceipts
    rw [hlength]
    exact hroomy scope hscope hport hreserved

/-! ### Whole runs -/

theorem accounted_of_reachable (hreachable : (brokerMachine hash).Reachable state) :
    state.Accounted := by
  refine Machine.invariant_of_step Accounted (fun state hinitial ↦ ?_)
    (fun state label next _ h hstep ↦ ?_) hreachable
  · obtain ⟨hscopes, -, -, -, hfiles⟩ := hinitial
    refine ⟨?_, ?_, ?_, ?_, ?_, ?_, hfiles, fun _ ↦ ?_⟩ <;> simp [hscopes, reserved]
    exact hfiles
  · exact h.moves (hstep ▸ exec_moves hash state label.2 label.1)

/-- Reachable without an attempt to stop at a port. -/
theorem roomy_of_reachable (hreachable : ((brokerMachine hash).restrict fun _ label ↦
      label.1.stopPort ≠ some port).Reachable state) : state.Roomy port := by
  refine Machine.invariant_of_step (Roomy port) (fun state hinitial ↦ ?_)
    (fun state label next hr h hstep ↦ ?_) hreachable
  · intro scope hscope
    rw [hinitial.1] at hscope
    cases hscope
  · exact h.moves (hstep.2 ▸ exec_moves hash state label.2 label.1) hstep.1
      (accounted_of_reachable hr.of_restrict)

/-- A scope has no more identifiers than the store has files. -/
theorem Accounted.ids_length_le (haccounted : state.Accounted) (hscope : scope ∈ state.scopes) :
    scope.ids.length ≤ state.store.files.length := by
  have hsubset : scope.ids ⊆ state.store.files.map ReceiptFile.name := by
    intro id hid
    obtain ⟨file, hfile⟩ := Option.isSome_iff_exists.mp (haccounted.stored scope hscope id hid)
    rw [← file_name hfile]
    exact mem_map_of_mem (mem_of_find?_eq_some hfile)
  have hlength := (subperm_of_subset (haccounted.distinct scope hscope) hsubset).length_le
  rwa [length_map] at hlength

theorem apply_fst (action : Except StoreError ρ × State) (io : BrokerIo) :
    (apply action io).1 = action.1 := by
  obtain ⟨result, next⟩ := action
  cases result with
  | ok value => rfl
  | error error =>
    unfold apply
    dsimp only
    split_ifs <;> rfl

theorem settle_fst (state : State) (port : ℕ) (change : Scope → Scope)
    (result : Except StoreError ρ × BackendStore) :
    (state.settle port change result).1 = result.1 := by
  obtain ⟨outcome, store⟩ := result
  cases outcome <;> rfl

/-- A store refuses a new receipt for many reasons, but not for want of room. -/
theorem publishNew_ne_limit {wrap : ρ → StoredReceipt} {receipt : Except StoreError ρ}
    {publish : Publish} (hinvalid : ∀ error, receipt = .error error → error = .invalidReceipt) :
    (store.publishNew id wrap receipt publish).1 ≠ .error .inventoryLimit := by
  rcases store.publishNew_cases id wrap publish hinvalid with
    ⟨error, hlimit, -, hresult⟩ | ⟨new, -, -, hresult | hresult⟩
  · rw [hresult]
    simpa using hlimit
  · rw [hresult]
    simp
  · rw [hresult]
    simp

theorem prepare_ne_limit (hash : String → String) (store : BackendStore) (id : String)
    (kind : OperationKind) (generation : ℕ) (utc : String) (details : PrepareDetails)
    (publish : Publish) :
    (store.prepare hash id kind generation utc details publish).1 ≠ .error .inventoryLimit := by
  unfold BackendStore.prepare
  split_ifs
  · simp
  · simp
  · exact publishNew_ne_limit fun _ ↦ checkedBy_eq_error

/-- With room for the receipt only a fault of the file system is in the way. -/
theorem room_cases {extra : ℕ}
    (hsum : state.store.files.length + state.reserved + extra ≤ maxReceipts)
    (hids : scope.ids.length < maxReceipts) (io : BrokerIo) :
    state.room scope extra io = .ok () ∨
      ∃ error : IoError, state.room scope extra io = .error error.toStoreError := by
  unfold room BackendStore.capacityUsed
  cases io.capacity with
  | some error => exact .inr ⟨error, rfl⟩
  | none =>
    left
    have hfiles : ¬ state.store.files.length > maxReceipts := by omega
    have hsum' : ¬ state.store.files.length + state.reserved + extra > maxReceipts := by omega
    have hids' : ¬ scope.ids.length ≥ maxReceipts := by omega
    simp only [hfiles, hsum', hids', if_false]

end State

/-- Files and reservations stay within the limit on receipts in every state that is not poisoned,
and a Take whose stop was not attempted yet is never refused its receipt for want of room, in any
state, poisoned or not, and whatever the other scopes have written. -/
theorem stop_reservation (hash : String → String) :
    (∀ state, (brokerMachine hash).Reachable state → state.poisoned = false →
      state.store.files.length + state.reserved ≤ maxReceipts) ∧
    ∀ (port : ℕ) (state : State) (scope : Scope),
      ((brokerMachine hash).restrict fun _ label ↦ label.1.stopPort ≠ some port).Reachable state →
      state.scopeOf port = some scope → scope.kind = .take → scope.stopReserved = true →
      ∀ (id : String) (generation : ℕ) (utc : String) (details : PrepareDetails) (io : BrokerIo),
        (state.prepare hash port id .recordStop generation utc details io).1 ≠
          .error .inventoryLimit := by
  constructor
  · intro state hreachable hclean
    exact (State.accounted_of_reachable hreachable).room hclean
  · intro port state scope hreachable hscope hkind hreserved id generation utc details io
    have haccounted := State.accounted_of_reachable hreachable.of_restrict
    obtain ⟨hin, hport⟩ := State.scopeOf_mem hscope
    have hroom := State.roomy_of_reachable hreachable scope hin hport hreserved
    have hpositive : 0 < state.reserved := countP_pos_iff.mpr ⟨scope, hin, hreserved⟩
    have hids := haccounted.ids_length_le hin
    unfold State.prepare
    rw [State.apply_fst, hscope]
    have hmatches : scopeMatchesOperation scope.kind .recordStop = true := by
      rw [hkind]
      rfl
    have hextra : 1 - ((OperationKind.recordStop == .recordStop) && scope.stopReserved).toNat +
        (scope.restarting .recordStop).toNat = 0 := by
      simp [hreserved, Scope.restarting]
    simp only [hmatches, hextra, bne_self_eq_false, Bool.and_false, Bool.not_true,
      Bool.false_eq_true, if_false]
    rcases State.room_cases (by omega : state.store.files.length + state.reserved + 0 ≤ maxReceipts)
      (by omega : scope.ids.length < maxReceipts) io with hfull | ⟨error, hfault⟩
    · rw [hfull]
      dsimp only
      rw [State.settle_fst]
      exact State.prepare_ne_limit hash state.store id .recordStop generation utc details io.publish
    · rw [hfault]
      cases error <;> simp [IoError.toStoreError]

end ObsMcp.Broker
