import ObsMcp.Foundations.Indexed
import ObsMcp.Ingress.Connections

/-!
# Accounting of connections and bodies

`Sound` is what holds of the ingress after every sequence of operations: permits are conserved, a
connection that somebody refers to holds its permit, a reader that refers to its connection holds
the reader permit and its bytes, an emergency connection has at most one reader or handed-on body
and none before it is marked as used, and the bytes of a reader are the chunks it has received.

Nothing is said yet about the order in which a connection and its readers release their permits.
-/

namespace ObsMcp.Ingress

open Foundations List Option

/-! ### The invariant -/

/-- The reader is in use: it reads, or it is a body. -/
def Reader.active (reader : Reader) : Bool :=
  reader.stage == .reading || reader.stage == .body

/-- All permits of a reader, in the order of their release. -/
def Reader.full (reader : Reader) (kind : Kind) : List (Permit Pool) :=
  [⟨.reader reader.connection, 1⟩, ⟨.body kind, reader.capacity⟩]

/-- What holds of a reader of a connection of a kind. -/
structure Reader.Sound (reader : Reader) (kind : Kind) : Prop where
  active : reader.active = true → reader.holding = true
  holding : reader.holding = true → reader.permits = reader.full kind
  capacity : reader.capacity ≤ kind.max
  permits : reader.permits <:+ reader.full kind ∨
    reader.stage = .refused ∧ ∃ bytes ≤ kind.max,
      reader.permits <:+ [⟨.body kind, bytes⟩, ⟨.reader reader.connection, 1⟩]
  bytes : reader.bytes = reader.received.flatten
  bounded : reader.bytes.length ≤ reader.capacity
  declared : reader.stage = .body → ∀ n, reader.length = some n → reader.bytes.length = n

/-- What holds of a body that was handed on. -/
structure Handoff.Sound (handoff : Handoff) : Prop where
  bytes : handoff.bytes = handoff.received.flatten
  declared : ∀ n, handoff.length = some n → handoff.bytes.length = n
  bounded : handoff.bytes.length ≤ handoff.capacity
  capacity : handoff.capacity ≤ handoff.kind.max

namespace State

variable {state : State}

/-- The permits of a pool that connections and readers have not released. -/
def held (state : State) (pool : Pool) : ℕ :=
  (state.connections.map (fun connection ↦ charge connection.permits pool)).sum +
    (state.readers.map (fun reader ↦ charge reader.permits pool)).sum

/-- The number of readers and bodies of a connection that are in use. -/
def active (state : State) (c : ℕ) : ℕ :=
  (state.readers.map (fun reader ↦
    if reader.connection = c ∧ reader.active = true then 1 else 0)).sum

/-- The number of bodies of a connection that were handed on. -/
def handed (state : State) (c : ℕ) : ℕ :=
  (state.handoffs.map (fun handoff ↦ if handoff.connection = c then 1 else 0)).sum

/-- What holds after every sequence of operations. -/
structure Sound (state : State) : Prop where
  conserved : ∀ pool, state.available pool + state.held pool = state.capacity pool
  connection : ∀ (c : ℕ) (connection : Connection), state.connections[c]? = some connection →
    connection.permits <:+ [⟨.connections connection.kind, 1⟩] ∧
      (state.owned c = true → connection.permits = [⟨.connections connection.kind, 1⟩])
  reader : ∀ reader ∈ state.readers, ∃ connection,
    state.connections[reader.connection]? = some connection ∧ reader.Sound connection.kind
  once : ∀ (c : ℕ) (connection : Connection), state.connections[c]? = some connection →
    connection.kind = .emergency →
      state.active c + state.handed c ≤ if connection.used then 1 else 0
  handoff : ∀ handoff ∈ state.handoffs, handoff.Sound ∧ ∃ connection,
    state.connections[handoff.connection]? = some connection ∧ connection.kind = handoff.kind

theorem sound_new : new.Sound where
  conserved pool := by rcases pool with ⟨_ | _⟩ | ⟨_ | _⟩ | _ <;> rfl
  connection := by simp [new]
  reader := by simp [new]
  once := by simp [new]
  handoff := by simp [new]

variable {c r : ℕ} {after reader : Reader} {available : Pool → ℕ} {kind : Kind}

theorem owned_iff : state.owned c = true ↔
    (∃ connection, state.connections[c]? = some connection ∧
      (connection.guard = true ∨ 0 < connection.holders)) ∨
      ∃ reader ∈ state.readers, reader.connection = c ∧ reader.holding = true := by
  simp [owned, Option.any_eq_true]

/-! ### Changes of a connection -/

theorem connections_setConnection (state : State) (c : ℕ) (f : Connection → Connection) (i : ℕ) :
    (state.setConnection c f).connections[i]? =
      if i = c then (state.connections[i]?).map f else state.connections[i]? := by
  unfold setConnection
  split
  · rename_i hnone
    split_ifs with hi
    · rw [hi, hnone, map_none]
    · rfl
  · rename_i connection hfound
    exact getElem?_set_map hfound i

/-- Every other part of the state stays. -/
theorem setConnection_frame (state : State) (c : ℕ) (f : Connection → Connection) :
    (state.setConnection c f).available = state.available ∧
      (state.setConnection c f).readers = state.readers ∧
      (state.setConnection c f).handoffs = state.handoffs ∧
      (state.setConnection c f).connections.length = state.connections.length := by
  unfold setConnection
  split
  · exact ⟨rfl, rfl, rfl, rfl⟩
  · exact ⟨rfl, rfl, rfl, length_set⟩

/-- A change of the flags of a connection. It gives nobody a reference to a connection that had
none. -/
structure Adjusts (connection after : Connection) : Prop where
  kind : after.kind = connection.kind
  permits : after.permits = connection.permits
  used : connection.used = true → after.used = true
  owned : after.guard = true ∨ 0 < after.holders →
    connection.guard = true ∨ 0 < connection.holders

theorem Adjusts.refl (connection : Connection) : Adjusts connection connection :=
  ⟨rfl, rfl, id, id⟩

theorem Sound.setConnection {f : Connection → Connection} (hsound : state.Sound)
    (hadjusts : ∀ connection, Adjusts connection (f connection)) :
    (state.setConnection c f).Sound := by
  obtain ⟨havailable, hreaders, hhandoffs, hlength⟩ := setConnection_frame state c f
  have hget := connections_setConnection state c f
  have hback : ∀ (i : ℕ) (after : Connection),
      (state.setConnection c f).connections[i]? = some after →
        ∃ connection, state.connections[i]? = some connection ∧ Adjusts connection after := by
    intro i after hafter
    rw [hget] at hafter
    split_ifs at hafter
    · obtain ⟨connection, hconnection, rfl⟩ := map_eq_some_iff.mp hafter
      exact ⟨connection, hconnection, hadjusts connection⟩
    · exact ⟨after, hafter, Adjusts.refl after⟩
  have hforward : ∀ (i : ℕ) (connection : Connection), state.connections[i]? = some connection →
      ∃ after, (state.setConnection c f).connections[i]? = some after ∧
        Adjusts connection after := by
    intro i connection hconnection
    rw [hget]
    split_ifs
    · exact ⟨f connection, by rw [hconnection]; rfl, hadjusts connection⟩
    · exact ⟨connection, hconnection, Adjusts.refl connection⟩
  refine ⟨?_, ?_, ?_, ?_, ?_⟩
  · intro pool
    have hcapacity : (state.setConnection c f).capacity pool = state.capacity pool := by
      rcases pool with ⟨_ | _⟩ | ⟨_ | _⟩ | i
      · rfl
      · rfl
      · rfl
      · rfl
      · simp only [State.capacity, hlength]
    have hcharges : (state.setConnection c f).connections.map
        (fun connection ↦ charge connection.permits pool) =
          state.connections.map (fun connection ↦ charge connection.permits pool) := by
      refine ext_getElem? fun i ↦ ?_
      rw [getElem?_map, getElem?_map]
      rcases eq_none_or_eq_some state.connections[i]? with hnone | ⟨connection, hsome⟩
      · rw [hget, hnone]
        split_ifs <;> rfl
      · obtain ⟨after, hafter, hadjust⟩ := hforward i connection hsome
        rw [hsome, hafter, map_some, map_some, hadjust.permits]
    rw [hcapacity, ← hsound.conserved pool]
    simp only [held, hcharges, hreaders, havailable]
  · intro i after hafter
    obtain ⟨connection, hconnection, hadjust⟩ := hback i after hafter
    obtain ⟨hsuffix, hfull⟩ := hsound.connection i connection hconnection
    rw [hadjust.permits, hadjust.kind]
    refine ⟨hsuffix, fun howned ↦ hfull ?_⟩
    rw [owned_iff] at howned ⊢
    rw [hreaders] at howned
    refine howned.imp_left ?_
    rintro ⟨found, hfound, howner⟩
    obtain rfl : after = found := some.inj (hafter.symm.trans hfound)
    exact ⟨connection, hconnection, hadjust.owned howner⟩
  · intro reader hreader
    rw [hreaders] at hreader
    obtain ⟨connection, hconnection, hvalid⟩ := hsound.reader reader hreader
    obtain ⟨after, hafter, hadjust⟩ := hforward reader.connection connection hconnection
    exact ⟨after, hafter, hadjust.kind ▸ hvalid⟩
  · intro i after hafter hkind
    obtain ⟨connection, hconnection, hadjust⟩ := hback i after hafter
    have honce := hsound.once i connection hconnection (hadjust.kind ▸ hkind)
    simp only [active, handed, hreaders, hhandoffs] at honce ⊢
    refine Nat.le_trans honce ?_
    cases hused : connection.used with
    | false => simp
    | true => simp [hadjust.used hused]
  · intro handoff hhandoff
    rw [hhandoffs] at hhandoff
    obtain ⟨hvalid, connection, hconnection, hkind⟩ := hsound.handoff handoff hhandoff
    obtain ⟨after, hafter, hadjust⟩ := hforward handoff.connection connection hconnection
    exact ⟨hvalid, after, hafter, hadjust.kind.trans hkind⟩

/-! ### Changes of a reader -/

theorem active_setReader (hreader : state.readers[r]? = some reader)
    (hconnection : after.connection = reader.connection) (c : ℕ) :
    (state.setReader r after).active c +
        (if reader.connection = c ∧ reader.active = true then 1 else 0) =
      state.active c + if reader.connection = c ∧ after.active = true then 1 else 0 := by
  have hsum := sum_set (fun reader : Reader ↦
    if reader.connection = c ∧ reader.active = true then 1 else 0) after hreader
  simp only [hconnection] at hsum
  exact hsum

/-- A reader goes on, is dropped, or releases a field. Assumes: it does not regain its reference to
the connection or become active again, and what it gives back becomes available. -/
theorem Sound.setReader (hsound : state.Sound) (hreader : state.readers[r]? = some reader)
    (hconnection : after.connection = reader.connection)
    (hholding : after.holding = true → reader.holding = true)
    (hactive : after.active = true → reader.active = true)
    (hafter : ∀ kind, reader.Sound kind → after.Sound kind)
    (havailable : ∀ pool, available pool + charge after.permits pool =
      state.available pool + charge reader.permits pool) :
    ({ state.setReader r after with available := available } : State).Sound := by
  have hmem : reader ∈ state.readers := mem_of_getElem? hreader
  refine ⟨?_, ?_, ?_, ?_, hsound.handoff⟩
  · intro pool
    have hsum := sum_set (fun reader : Reader ↦ charge reader.permits pool) after hreader
    have hconserved := hsound.conserved pool
    have hbalance := havailable pool
    show available pool +
        ((state.connections.map (fun connection ↦ charge connection.permits pool)).sum +
          ((state.readers.set r after).map (fun reader ↦ charge reader.permits pool)).sum) =
      state.capacity pool
    simp only [held] at hconserved
    omega
  · intro c connection hc
    obtain ⟨hsuffix, hfull⟩ := hsound.connection c connection hc
    refine ⟨hsuffix, fun howned ↦ hfull ?_⟩
    rw [owned_iff] at howned ⊢
    refine howned.imp_right ?_
    rintro ⟨found, hfound, hfrom, hheld⟩
    rcases mem_or_eq_of_mem_set hfound with hold | rfl
    · exact ⟨found, hold, hfrom, hheld⟩
    · exact ⟨reader, hmem, hconnection.symm.trans hfrom, hholding hheld⟩
  · intro found hfound
    rcases mem_or_eq_of_mem_set hfound with hold | rfl
    · exact hsound.reader found hold
    · obtain ⟨connection, hc, hvalid⟩ := hsound.reader reader hmem
      exact ⟨connection, hconnection ▸ hc, hafter _ hvalid⟩
  · intro c connection hc hkind
    refine Nat.le_trans (Nat.add_le_add_right ?_ _) (hsound.once c connection hc hkind)
    have hcount := active_setReader hreader hconnection c
    show (state.setReader r after).active c ≤ state.active c
    by_cases hnow : reader.connection = c ∧ after.active = true
    · rw [if_pos hnow, if_pos ⟨hnow.1, hactive hnow.2⟩] at hcount
      omega
    · rw [if_neg hnow] at hcount
      omega

/-- A reader is dropped. -/
theorem sound_dropped (hvalid : reader.Sound kind) (hrefused : reader.stage ≠ .refused) :
    Reader.Sound { reader with stage := .dropping } kind where
  active := by simp [Reader.active]
  holding := hvalid.holding
  capacity := hvalid.capacity
  permits := hvalid.permits.imp_right fun ⟨hstage, _⟩ ↦ absurd hstage hrefused
  bytes := hvalid.bytes
  bounded := hvalid.bounded
  declared := fun hstage ↦ nomatch hstage

theorem Sound.drop (hsound : state.Sound) (hreader : state.readers[r]? = some reader)
    (hrefused : reader.stage ≠ .refused) : (state.drop r reader).Sound :=
  hsound.setReader hreader rfl id (fun hactive ↦ by simp [Reader.active] at hactive)
    (fun _ hvalid ↦ sound_dropped hvalid hrefused) fun _ ↦ rfl

theorem Sound.dropReader (hsound : state.Sound) (r : ℕ) : (state.dropReader r).Sound := by
  unfold State.dropReader
  split
  · exact hsound
  rename_i reader hreader
  split_ifs with hrefused
  · exact hsound
  · exact hsound.drop hreader hrefused

/-- One event of the stream keeps what holds of a reader that reads. -/
theorem sound_collect {event : Event} (hvalid : reader.Sound kind)
    (hreading : reader.stage = .reading) (hcollect : State.collect reader event = .ok after) :
    after.Sound kind ∧ after.connection = reader.connection ∧
      after.holding = reader.holding ∧ after.permits = reader.permits := by
  have hholding : reader.holding = true := hvalid.active (by simp [Reader.active, hreading])
  cases event with
  | chunk chunk =>
    simp only [State.collect] at hcollect
    split_ifs at hcollect with hfits
    cases hcollect
    refine ⟨⟨hvalid.active, hvalid.holding, hvalid.capacity, hvalid.permits, ?_, ?_, ?_⟩, rfl, rfl,
      rfl⟩
    · simp [hvalid.bytes]
    · simpa using hfits
    · intro hbody
      rw [hreading] at hbody
      cases hbody
  | failed => cases hcollect
  | ended =>
    simp only [State.collect] at hcollect
    split_ifs at hcollect with hlength
    cases hcollect
    refine ⟨⟨fun _ ↦ hholding, hvalid.holding, hvalid.capacity, Or.inl ?_, hvalid.bytes,
      hvalid.bounded, ?_⟩, rfl, rfl, rfl⟩
    · refine hvalid.permits.resolve_right fun ⟨hstage, _⟩ ↦ ?_
      rw [hreading] at hstage
      cases hstage
    · intro _ n hn
      have hn : reader.length = some n := hn
      have hequal : n = reader.bytes.length := by simpa [hn] using hlength
      exact hequal.symm
  | unallocated => cases hcollect

section

variable (hsound : state.Sound)
include hsound

theorem Sound.poll (r : ℕ) (expired : Bool) (event : Event) :
    (state.poll r expired event).2.Sound := by
  unfold State.poll
  split
  · exact hsound
  rename_i reader hreader
  split_ifs with hreading
  · exact hsound
  rw [not_not] at hreading
  have hdrop : (state.drop r reader).Sound := hsound.drop hreader (by rw [hreading]; decide)
  split
  · exact hdrop
  split
  · exact hdrop
  · rename_i after hcollect
    obtain ⟨connection, -, hvalid⟩ := hsound.reader reader (mem_of_getElem? hreader)
    obtain ⟨-, hconnection, hholding, hpermits⟩ := sound_collect hvalid hreading hcollect
    refine hsound.setReader hreader hconnection (fun h ↦ hholding ▸ h)
      (fun _ ↦ by simp [Reader.active, hreading])
      (fun _ hvalid ↦ (sound_collect hvalid hreading hcollect).1) fun pool ↦ ?_
    rw [hpermits]

theorem Sound.releaseReader (r : ℕ) : (state.releaseReader r).Sound := by
  unfold State.releaseReader
  split
  · exact hsound
  rename_i reader hreader
  split_ifs with hstage hholding
  · exact hsound
  · have hidle : reader.active = false := by
      rcases reader with ⟨_, _, _, stage, _, _, _, _⟩
      cases stage <;> simp_all [Reader.active]
    refine hsound.setReader hreader rfl (fun h ↦ nomatch h) id (fun kind hvalid ↦ ?_) fun _ ↦ rfl
    refine ⟨fun hactive ↦ ?_, (fun h ↦ nomatch h), hvalid.capacity, hvalid.permits, hvalid.bytes,
      hvalid.bounded, hvalid.declared⟩
    have hactive : reader.active = true := hactive
    rw [hidle] at hactive
    cases hactive
  split
  · exact hsound
  · rename_i permit permits hpermits
    refine hsound.setReader hreader rfl id id (fun kind hvalid ↦ ?_) fun pool ↦ ?_
    · have htail : permits <:+ reader.permits := hpermits ▸ suffix_cons permit permits
      exact ⟨hvalid.active, fun h ↦ absurd h hholding, hvalid.capacity,
        hvalid.permits.imp htail.trans fun ⟨hrefused, bytes, hbytes, hsuffix⟩ ↦
          ⟨hrefused, bytes, hbytes, htail.trans hsuffix⟩,
        hvalid.bytes, hvalid.bounded, hvalid.declared⟩
    · rw [release_apply, hpermits]
      simp only [charge_cons, charge_nil]
      omega

theorem Sound.handoff' (r : ℕ) (expired : Bool) : (state.handoff r expired).2.Sound := by
  unfold State.handoff
  split
  · exact hsound
  rename_i reader hreader
  split
  · exact hsound
  rename_i connection hconnection
  split_ifs with hbody
  · exact hsound
  rw [not_not] at hbody
  have hdrop : (state.drop r reader).Sound := hsound.drop hreader (by rw [hbody]; decide)
  obtain ⟨found, hfound, hvalid⟩ := hsound.reader reader (mem_of_getElem? hreader)
  obtain rfl : found = connection := some.inj (hfound.symm.trans hconnection)
  split
  · exact hdrop
  · refine ⟨hdrop.conserved, hdrop.connection, hdrop.reader, ?_, ?_⟩
    · intro c other hother hkind
      refine Nat.le_trans ?_ (hsound.once c other hother hkind)
      let after : Reader := { reader with stage := .dropping }
      have hsame : after.connection = reader.connection := rfl
      have hcount := active_setReader hreader hsame c
      have hidle : after.active = false := rfl
      have hbusy : reader.active = true := by simp [Reader.active, hbody]
      show (state.setReader r after).active c +
        List.sum (List.map _ (state.handoffs ++ [_])) ≤ _
      rw [map_append, sum_append, map_singleton, sum_singleton]
      simp only [hidle, hbusy, Bool.false_eq_true, and_false, and_true, if_false,
        Nat.add_zero] at hcount
      simp only [handed]
      omega
    · intro handoff hhandoff
      rcases mem_append.mp hhandoff with hold | hnew
      · exact hsound.handoff handoff hold
      · rw [mem_singleton] at hnew
        subst hnew
        exact ⟨⟨hvalid.bytes, hvalid.declared hbody, hvalid.bounded, hvalid.capacity⟩,
          found, hfound, rfl⟩

/-! ### New readers -/

/-- A new reader, or the locals of a refused call. Assumes: its permits were taken from what was
available, its reference is to a connection that has an owner, and it is the first of an emergency
connection unless it is refused. -/
theorem Sound.addReader {connection : Connection}
    (hconnection : state.connections[reader.connection]? = some connection)
    (hreader : reader.Sound connection.kind)
    (howned : reader.holding = true → state.owned reader.connection = true)
    (havailable : ∀ pool, available pool + charge reader.permits pool = state.available pool)
    (hfirst : reader.active = true → connection.kind = .emergency → connection.used = true ∧
      state.active reader.connection + state.handed reader.connection = 0) :
    (state.addReader available reader).Sound := by
  refine ⟨?_, ?_, ?_, ?_, hsound.handoff⟩
  · intro pool
    have hconserved := hsound.conserved pool
    have hbalance := havailable pool
    simp only [held] at hconserved
    simp only [held, State.addReader, map_append, sum_append, map_singleton,
      sum_singleton]
    show _ = state.capacity pool
    omega
  · intro c found hfound
    obtain ⟨hsuffix, hfull⟩ := hsound.connection c found hfound
    refine ⟨hsuffix, fun hafter ↦ hfull ?_⟩
    rw [owned_iff] at hafter
    rcases hafter with hdirect | ⟨other, hother, hfrom, hholding⟩
    · exact owned_iff.mpr (Or.inl hdirect)
    · rcases mem_append.mp hother with hold | hnew
      · exact owned_iff.mpr (Or.inr ⟨other, hold, hfrom, hholding⟩)
      · rw [mem_singleton] at hnew
        subst hnew
        exact hfrom ▸ howned hholding
  · intro found hfound
    rcases mem_append.mp hfound with hold | hnew
    · exact hsound.reader found hold
    · rw [mem_singleton] at hnew
      subst hnew
      exact ⟨connection, hconnection, hreader⟩
  · intro c found hfound hkind
    have honce := hsound.once c found hfound hkind
    show List.sum (List.map _ (state.readers ++ [reader])) + state.handed c ≤ _
    rw [map_append, sum_append, map_singleton, sum_singleton]
    by_cases hnew : reader.connection = c ∧ reader.active = true
    · obtain ⟨rfl, hactive⟩ := hnew
      obtain rfl : found = connection := some.inj (hfound.symm.trans hconnection)
      obtain ⟨hused, hzero⟩ := hfirst hactive hkind
      rw [if_pos ⟨rfl, hactive⟩, if_pos hused]
      simp only [active] at hzero
      omega
    · rw [if_neg hnew]
      exact honce

/-- A refused call keeps the permits it took until they are released. -/
theorem Sound.refuse {bytes : ℕ} {connection : Connection} {permits : List (Permit Pool)}
    (hconnection : state.connections[c]? = some connection) (hbytes : bytes ≤ connection.kind.max)
    (hpermits : permits <:+ [⟨.body connection.kind, bytes⟩, ⟨.reader c, 1⟩])
    (havailable : ∀ pool, available pool + charge permits pool = state.available pool) :
    (state.refuse available c permits).Sound := by
  refine hsound.addReader hconnection ?_ (fun h ↦ nomatch h) havailable
    fun hactive ↦ by simp [Reader.active] at hactive
  exact ⟨fun hactive ↦ by simp [Reader.active] at hactive, (fun h ↦ nomatch h), Nat.zero_le _,
    Or.inr ⟨rfl, bytes, hbytes, hpermits⟩, rfl, Nat.le_refl _, fun h ↦ nomatch h⟩

end

/-- What a call for a reader can lead to: nothing, a refusal that has taken permits, or a reader. -/
theorem reader_cases (state : State) (c : ℕ) (length : Option ℕ) (expired : Bool) :
    (∃ failure, state.reader c length expired = (.error failure, state)) ∨
      ∃ connection, state.connections[c]? = some connection ∧ connection.guard = true ∧
        length.getD connection.kind.max ≤ connection.kind.max ∧
        ((∃ entered, tryAcquire state.available (.reader c) 1 = some entered ∧
          tryAcquire entered (.body connection.kind) (length.getD connection.kind.max) = none ∧
          state.reader c length expired =
            (.error .capacity, state.refuse entered c [⟨.reader c, 1⟩])) ∨
        ∃ available : Pool → ℕ, (∀ pool, available pool + charge [⟨.reader c, 1⟩,
            ⟨.body connection.kind, length.getD connection.kind.max⟩] pool =
              state.available pool) ∧
          (connection.kind = .emergency ∧ connection.used = true ∧
            state.reader c length expired = (.error .emergencyUsed, state.refuse available c
              [⟨.body connection.kind, length.getD connection.kind.max⟩, ⟨.reader c, 1⟩]) ∨
          ¬ (connection.kind = .emergency ∧ connection.used = true) ∧
            state.reader c length expired = (.ok state.readers.length,
              (state.setConnection c (fun connection ↦ { connection with
                used := connection.used || connection.kind == .emergency })).addReader available
                { connection := c
                  capacity := length.getD connection.kind.max
                  length := length
                  stage := .reading
                  bytes := []
                  received := []
                  holding := true
                  permits := [⟨.reader c, 1⟩,
                    ⟨.body connection.kind, length.getD connection.kind.max⟩] }))) := by
  unfold State.reader
  cases hconnection : state.connections[c]? with
  | none => exact Or.inl ⟨_, rfl⟩
  | some connection =>
    simp only
    by_cases hguard : (!connection.guard || state.closing) = true
    · exact Or.inl ⟨.closed, if_pos hguard⟩
    rw [if_neg hguard]
    by_cases hdeparted : connection.departed = true
    · exact Or.inl ⟨.cancelled, if_pos hdeparted⟩
    rw [if_neg hdeparted]
    by_cases hexpired : expired = true
    · exact Or.inl ⟨.deadline, if_pos hexpired⟩
    rw [if_neg hexpired]
    by_cases hlarge : connection.kind.max < length.getD connection.kind.max
    · exact Or.inl ⟨.tooLarge, if_pos hlarge⟩
    rw [if_neg hlarge]
    by_cases hgate : (!state.gate) = true
    · exact Or.inl ⟨.closed, if_pos hgate⟩
    rw [if_neg hgate]
    cases hentered : tryAcquire state.available (.reader c) 1 with
    | none => exact Or.inl ⟨_, rfl⟩
    | some entered =>
      have hguard : connection.guard = true := by
        simp only [Bool.or_eq_true, Bool.not_eq_true', not_or, Bool.not_eq_false] at hguard
        exact hguard.1
      refine Or.inr ⟨connection, rfl, hguard, Nat.not_lt.mp hlarge, ?_⟩
      simp only
      cases htaken : tryAcquire entered (.body connection.kind)
          (length.getD connection.kind.max) with
      | none => exact Or.inl ⟨entered, rfl, htaken, rfl⟩
      | some taken =>
        refine Or.inr ⟨taken, fun pool ↦ ?_, ?_⟩
        · have hfirst := add_charge_of_tryAcquire hentered pool
          have hsecond := add_charge_of_tryAcquire htaken pool
          simp only [charge_cons, charge_nil] at hfirst hsecond ⊢
          omega
        · by_cases hused : connection.kind = .emergency ∧ connection.used = true
          · exact Or.inl ⟨hused.1, hused.2, if_pos hused⟩
          · exact Or.inr ⟨hused, if_neg hused⟩

theorem adjusts_used (connection : Connection) :
    Adjusts connection { connection with
      used := connection.used || connection.kind == .emergency } :=
  ⟨rfl, rfl, fun hused ↦ by simp [hused], id⟩

section

variable (hsound : state.Sound)
include hsound

theorem Sound.reader' (c : ℕ) (length : Option ℕ) (expired : Bool) :
    (state.reader c length expired).2.Sound := by
  rcases reader_cases state c length expired with ⟨failure, hfailed⟩ |
    ⟨connection, hconnection, hguard, hcapacity, ⟨entered, hentered, -, hfailed⟩ |
      ⟨available, havailable, ⟨-, -, hfailed⟩ | ⟨hfresh, hok⟩⟩⟩
  · rw [hfailed]
    exact hsound
  · rw [hfailed]
    refine hsound.refuse hconnection (Nat.zero_le _) (suffix_cons _ _) fun pool ↦ ?_
    exact add_charge_of_tryAcquire hentered pool
  · rw [hfailed]
    refine hsound.refuse hconnection hcapacity (suffix_refl _) fun pool ↦ ?_
    have hbalance := havailable pool
    simp only [charge_cons, charge_nil] at hbalance ⊢
    omega
  · rw [hok]
    obtain ⟨havailable', hreaders, hhandoffs, -⟩ := setConnection_frame state c (fun connection ↦
      { connection with used := connection.used || connection.kind == .emergency })
    have hafter := connections_setConnection state c (fun connection ↦
      { connection with used := connection.used || connection.kind == .emergency }) c
    rw [if_pos rfl, hconnection, map_some] at hafter
    refine (hsound.setConnection adjusts_used).addReader hafter ?_ (fun _ ↦ ?_) ?_ ?_
    · exact ⟨fun _ ↦ rfl, fun _ ↦ rfl, hcapacity, Or.inl (suffix_refl _), rfl, Nat.zero_le _,
        fun h ↦ by cases h⟩
    · exact owned_iff.mpr (Or.inl ⟨_, hafter, Or.inl hguard⟩)
    · intro pool
      rw [havailable']
      exact havailable pool
    · intro _ hkind
      have hkind : connection.kind = .emergency := hkind
      have honce := hsound.once c connection hconnection hkind
      rw [if_neg fun hused ↦ hfresh ⟨hkind, hused⟩] at honce
      refine ⟨by simp [hkind], ?_⟩
      simp only [active, handed, hreaders, hhandoffs] at honce ⊢
      omega

/-! ### Connections come and go -/

theorem Sound.releaseConnection (c : ℕ) : (state.releaseConnection c).Sound := by
  unfold State.releaseConnection
  split
  · exact hsound
  rename_i connection hconnection
  split_ifs with howned
  · exact hsound
  split
  · exact hsound
  rename_i permit permits hpermits
  have hget : ∀ i : ℕ, (state.connections.set c { connection with permits := permits })[i]? =
      if c = i then some { connection with permits := permits } else state.connections[i]? := by
    intro i
    have hlt : c < state.connections.length := (List.getElem?_eq_some_iff.mp hconnection).1
    rw [List.getElem?_set]
    split_ifs <;> rfl
  have hback : ∀ (i : ℕ) (after : Connection),
      (state.connections.set c { connection with permits := permits })[i]? = some after →
        ∃ found, state.connections[i]? = some found ∧ after.kind = found.kind ∧
          after.used = found.used ∧ after.guard = found.guard ∧ after.holders = found.holders ∧
          after.permits <:+ found.permits ∧ (i ≠ c → after.permits = found.permits) := by
    intro i after hafter
    rw [hget] at hafter
    split_ifs at hafter with hi
    · subst hi
      cases hafter
      exact ⟨connection, hconnection, rfl, rfl, rfl, rfl, hpermits ▸ suffix_cons _ _,
        fun hne ↦ absurd rfl hne⟩
    · exact ⟨after, hafter, rfl, rfl, rfl, rfl, suffix_refl _, fun _ ↦ rfl⟩
  have hkind : ∀ (i : ℕ) (found : Connection), state.connections[i]? = some found →
      ∃ after, (state.connections.set c { connection with permits := permits })[i]? = some after ∧
        after.kind = found.kind := by
    intro i found hfound
    rw [hget]
    split_ifs with hi
    · subst hi
      obtain rfl : connection = found := some.inj (hconnection.symm.trans hfound)
      exact ⟨_, rfl, rfl⟩
    · exact ⟨found, hfound, rfl⟩
  refine ⟨?_, ?_, ?_, ?_, ?_⟩
  · intro pool
    have hsum := sum_set (fun connection : Connection ↦ charge connection.permits pool)
      { connection with permits := permits } hconnection
    have hconserved := hsound.conserved pool
    have hcapacity : State.capacity { state with
        available := release state.available permit
        connections := state.connections.set c { connection with permits := permits } } pool =
          state.capacity pool := by
      rcases pool with ⟨_ | _⟩ | ⟨_ | _⟩ | i
      · rfl
      · rfl
      · rfl
      · rfl
      · simp only [State.capacity, length_set]
    rw [hcapacity]
    show release state.available permit pool +
        (((state.connections.set c { connection with permits := permits }).map
            (fun connection ↦ charge connection.permits pool)).sum +
          (state.readers.map (fun reader ↦ charge reader.permits pool)).sum) = _
    simp only [held] at hconserved
    rw [hpermits] at hsum
    rw [release_apply]
    simp only [charge_cons, charge_nil] at hsum ⊢
    omega
  · intro i after hafter
    obtain ⟨found, hfound, hkind, -, hguard, hholders, hsuffix, hsame⟩ := hback i after hafter
    obtain ⟨hold, hfull⟩ := hsound.connection i found hfound
    rw [hkind]
    refine ⟨hsuffix.trans hold, fun hafter' ↦ ?_⟩
    have hbefore : state.owned i = true := by
      rw [owned_iff] at hafter' ⊢
      refine hafter'.imp_left ?_
      rintro ⟨other, hother, howner⟩
      obtain rfl : after = other := some.inj (hafter.symm.trans hother)
      exact ⟨found, hfound, hguard ▸ hholders ▸ howner⟩
    have hi : i ≠ c := by
      rintro rfl
      exact howned hbefore
    rw [hsame hi]
    exact hfull hbefore
  · intro reader hreader
    obtain ⟨found, hfound, hvalid⟩ := hsound.reader reader hreader
    obtain ⟨after, hafter, hsame⟩ := hkind reader.connection found hfound
    exact ⟨after, hafter, hsame ▸ hvalid⟩
  · intro i after hafter hemergency
    obtain ⟨found, hfound, hkind, hused, -⟩ := hback i after hafter
    rw [hused]
    exact hsound.once i found hfound (hkind ▸ hemergency)
  · intro handoff hhandoff
    obtain ⟨hvalid, found, hfound, hsame⟩ := hsound.handoff handoff hhandoff
    obtain ⟨after, hafter, hkind⟩ := hkind handoff.connection found hfound
    exact ⟨hvalid, after, hafter, hkind.trans hsame⟩

/-- A new connection holds its permit. Assumes: the permit was taken from what was available. -/
theorem Sound.enter {taken : Pool → ℕ} (late : Bool)
    (htaken : tryAcquire state.available (.connections kind) 1 = some taken) :
    (state.enter kind taken late).2.Sound := by
  let fresh : Connection :=
    { kind := kind
      permits := [⟨.connections kind, 1⟩]
      guard := !late
      holders := 0
      departed := false
      used := false }
  have hget : ∀ (i : ℕ) (found : Connection),
      (state.connections ++ [fresh])[i]? = some found →
        state.connections[i]? = some found ∨ i = state.connections.length ∧ found = fresh :=
    fun _ _ hfound ↦ getElem?_concat_cases hfound
  have hold : ∀ (i : ℕ) (found : Connection), state.connections[i]? = some found →
      (state.connections ++ [fresh])[i]? = some found := by
    intro i found hfound
    exact getElem?_append_of_some hfound
  refine ⟨?_, ?_, ?_, ?_, ?_⟩
  · intro pool
    have hconserved := hsound.conserved pool
    have hbalance := add_charge_of_tryAcquire htaken pool
    simp only [held] at hconserved
    show Function.update taken (.reader state.connections.length) 1 pool +
      (((state.connections ++ [fresh]).map (fun connection ↦
          charge connection.permits pool)).sum +
        (state.readers.map (fun reader ↦ charge reader.permits pool)).sum) = _
    rw [map_append, sum_append, map_singleton, sum_singleton]
    have hcharge : charge fresh.permits pool = charge [⟨.connections kind, 1⟩] pool := rfl
    rw [hcharge]
    rcases pool with ⟨_ | _⟩ | ⟨_ | _⟩ | i
    · rw [Function.update_of_ne (by simp)]
      show _ = state.capacity (.connections .ordinary)
      omega
    · rw [Function.update_of_ne (by simp)]
      show _ = state.capacity (.connections .emergency)
      omega
    · rw [Function.update_of_ne (by simp)]
      show _ = state.capacity (.body .ordinary)
      omega
    · rw [Function.update_of_ne (by simp)]
      show _ = state.capacity (.body .emergency)
      omega
    · have hfree : charge [(⟨.connections kind, 1⟩ : Permit Pool)] (.reader i) = 0 := by simp
      by_cases hi : i = state.connections.length
      · subst hi
        simp only [State.capacity, Nat.lt_irrefl, if_false] at hconserved
        rw [Function.update_self, hfree]
        simp only [State.capacity, State.enter, length_append, length_singleton,
          Nat.lt_succ_self, if_true]
        omega
      · rw [Function.update_of_ne (by simpa using hi)]
        have hcapacity : (state.enter kind taken late).2.capacity (.reader i) =
            state.capacity (.reader i) := by
          simp only [State.capacity, State.enter, length_append, length_singleton]
          split_ifs <;> first | rfl | omega
        rw [hcapacity]
        omega
  · intro i found hfound
    rcases hget i found hfound with hbefore | ⟨-, rfl⟩
    · obtain ⟨hsuffix, hfull⟩ := hsound.connection i found hbefore
      refine ⟨hsuffix, fun howned ↦ hfull ?_⟩
      rw [owned_iff] at howned ⊢
      refine howned.imp_left ?_
      rintro ⟨other, hother, howner⟩
      obtain rfl : found = other := some.inj (hfound.symm.trans hother)
      exact ⟨found, hbefore, howner⟩
    · exact ⟨suffix_refl _, fun _ ↦ rfl⟩
  · intro reader hreader
    obtain ⟨found, hfound, hvalid⟩ := hsound.reader reader hreader
    exact ⟨found, hold reader.connection found hfound, hvalid⟩
  · intro i found hfound hemergency
    rcases hget i found hfound with hbefore | ⟨rfl, rfl⟩
    · exact hsound.once i found hbefore hemergency
    · have hreaders : state.active state.connections.length = 0 := by
        refine sum_eq_zero fun n hn ↦ ?_
        obtain ⟨reader, hreader, rfl⟩ := mem_map.mp hn
        obtain ⟨found, hfound, -⟩ := hsound.reader reader hreader
        have hlt := (List.getElem?_eq_some_iff.mp hfound).1
        exact if_neg fun hsame ↦ by omega
      have hhandoffs : state.handed state.connections.length = 0 := by
        refine sum_eq_zero fun n hn ↦ ?_
        obtain ⟨handoff, hhandoff, rfl⟩ := mem_map.mp hn
        obtain ⟨-, found, hfound, -⟩ := hsound.handoff handoff hhandoff
        have hlt := (List.getElem?_eq_some_iff.mp hfound).1
        exact if_neg (by omega)
      show state.active _ + state.handed _ ≤ _
      rw [hreaders, hhandoffs]
      exact Nat.zero_le _
  · intro handoff hhandoff
    obtain ⟨hvalid, found, hfound, hkind⟩ := hsound.handoff handoff hhandoff
    exact ⟨hvalid, found, hold handoff.connection found hfound, hkind⟩

theorem Sound.admitConnection (late : Bool) : (state.admitConnection late).2.Sound := by
  unfold State.admitConnection
  split_ifs
  · exact hsound
  split
  · rename_i taken htaken
    exact hsound.enter late htaken
  · split
    · rename_i taken htaken
      exact hsound.enter late htaken
    · exact hsound

/-- Every operation keeps the invariant. -/
theorem sound_perform (operation : Operation) : (state.perform operation).Sound := by
  cases operation with
  | admitConnection late => exact hsound.admitConnection late
  | close => exact ⟨hsound.conserved, hsound.connection, hsound.reader, hsound.once, hsound.handoff⟩
  | dropIngress =>
    exact ⟨hsound.conserved, hsound.connection, hsound.reader, hsound.once, hsound.handoff⟩
  | depart c => exact hsound.setConnection fun _ ↦ ⟨rfl, rfl, id, id⟩
  | dropConnection c =>
    show (state.dropConnection c).Sound
    unfold State.dropConnection
    split_ifs
    · exact hsound
    · exact hsound.setConnection fun _ ↦ ⟨rfl, rfl, id, fun howner ↦ by simpa using Or.inr howner⟩
  | hold c =>
    refine hsound.setConnection fun connection ↦ ?_
    split_ifs with hguard
    · exact ⟨rfl, rfl, id, fun _ ↦ Or.inl hguard⟩
    · exact Adjusts.refl connection
  | dropHeld c =>
    refine hsound.setConnection fun connection ↦ ⟨rfl, rfl, id, fun howner ↦ ?_⟩
    exact howner.imp_right fun hholders ↦ by simp only at hholders; omega
  | releaseConnection c => exact hsound.releaseConnection c
  | reader c length expired => exact hsound.reader' c length expired
  | poll r expired event => exact hsound.poll r expired event
  | handoff r expired => exact hsound.handoff' r expired
  | dropReader r => exact hsound.dropReader r
  | releaseReader r => exact hsound.releaseReader r

end

end State

theorem sound_run (operations : List Operation) : (run operations).Sound :=
  foldlRecOn operations State.perform State.sound_new fun _ hsound operation _ ↦
    State.sound_perform hsound operation

end ObsMcp.Ingress
