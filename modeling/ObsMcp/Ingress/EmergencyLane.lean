import ObsMcp.Ingress.Accounting

/-!
# The emergency lane

A dropped reader releases its reference to the connection before its body bytes. If that reference
is the last one, the connection permit is available again while the bytes are still out, and the
next emergency connection can find the body pool empty (`permit_before_bytes`). The reader permit
also comes back before the bytes, so a second call on the same connection can take bytes beside
those of the first reader until it is refused.

Neither happens in a run whose steps are `Careful`: the last guard or supervisor of a connection
goes after its readers have released everything, and no reader of an emergency connection is asked
for while an earlier one is releasing. `Tidy` is the invariant of such runs. `ingress_custody`
states what holds in all runs and what holds in careful ones.
-/

namespace ObsMcp.Ingress

open Foundations List Option

namespace State

variable {state : State}

/-! ### Bounds -/

/-- The number of connections of a kind that hold their permit. -/
def alive (state : State) (kind : Kind) : ℕ :=
  state.connections.countP (fun connection ↦ connection.kind = kind ∧ connection.permits ≠ [])

variable {connection : Connection} {c r : ℕ} {available : Pool → ℕ} {pool : Pool}

theorem charge_connection (hsuffix : connection.permits <:+ [⟨.connections connection.kind, 1⟩])
    (hpermits : connection.permits ≠ []) :
    charge connection.permits (.connections connection.kind) = 1 := by
  rw [suffix_cons_iff, suffix_nil] at hsuffix
  rw [hsuffix.resolve_right hpermits]
  simp

theorem countP_le_sum {α : Type*} (p : α → Bool) (f : α → ℕ) (l : List α)
    (hf : ∀ a ∈ l, p a = true → 1 ≤ f a) : l.countP p ≤ (l.map f).sum := by
  induction l with
  | nil => simp
  | cons a l ih =>
    have htail := ih fun b hb ↦ hf b (mem_cons_of_mem _ hb)
    have hhead := hf a mem_cons_self
    rw [countP_cons, map_cons, sum_cons]
    split_ifs with ha
    · have := hhead ha
      omega
    · omega

theorem alive_le (hsound : state.Sound) (kind : Kind) :
    state.alive kind ≤ state.capacity (.connections kind) := by
  have hcount : state.alive kind ≤ (state.connections.map (fun connection ↦
      charge connection.permits (.connections kind))).sum := by
    refine countP_le_sum _ _ _ fun connection hmem halive ↦ ?_
    obtain ⟨c, hc⟩ := mem_iff_getElem?.mp hmem
    obtain ⟨rfl, hpermits⟩ := of_decide_eq_true halive
    exact Nat.le_of_eq (charge_connection (hsound.connection c connection hc).1 hpermits).symm
  have hconserved := hsound.conserved (.connections kind)
  simp only [held] at hconserved
  omega

/-- An emergency connection is returned only while no ordinary permit is available. -/
theorem ordinary_exhausted {late : Bool} (hok : (state.admitConnection late).1 = .ok c)
    (hconnection : (state.admitConnection late).2.connections[c]? = some connection)
    (hkind : connection.kind = .emergency) : state.available (.connections .ordinary) = 0 := by
  cases htaken : tryAcquire state.available (.connections .ordinary) 1 with
  | none =>
    have hlt := tryAcquire_eq_none.mp htaken
    omega
  | some taken =>
    exfalso
    unfold State.admitConnection at hok hconnection
    split_ifs at hok hconnection
    rw [htaken] at hok hconnection
    cases late with
    | true => cases hok
    | false =>
      cases hok
      have hlast : (state.enter .ordinary taken false).2.connections[state.connections.length]? =
          some { kind := .ordinary, permits := [⟨.connections .ordinary, 1⟩], guard := true,
                 holders := 0, departed := false, used := false } :=
        getElem?_concat_length
      have hsame := some.inj (hlast.symm.trans hconnection)
      rw [← hsame] at hkind
      cases hkind

/-! ### Ordinary traffic -/

def connectionKind (state : State) (c : ℕ) : Option Kind :=
  (state.connections[c]?).map Connection.kind

def readerKind (state : State) (r : ℕ) : Option Kind :=
  (state.readers[r]?).bind (fun reader ↦ state.connectionKind reader.connection)

/-- The kind of connection an operation is about. An admission is about the kind of the permit that
it finds. -/
def operationKind (state : State) : Operation → Option Kind
  | .admitConnection _ =>
    if 0 < state.available (.connections .ordinary) then some .ordinary else some .emergency
  | .close | .dropIngress => none
  | .depart c | .dropConnection c | .hold c | .dropHeld c | .releaseConnection c
  | .reader c _ _ => state.connectionKind c
  | .poll r _ _ | .handoff r _ | .dropReader r | .releaseReader r => state.readerKind r

/-- The pools of the emergency lane. -/
def emergencyPools : List Pool := [.connections .emergency, .body .emergency]

theorem available_of_charge {taken : Pool → ℕ} {permits : List (Permit Pool)}
    (htaken : taken pool + charge permits pool = available pool)
    (hpermits : ∀ permit ∈ permits, permit.pool ∉ emergencyPools) (hpool : pool ∈ emergencyPools) :
    taken pool = available pool := by
  rw [charge_eq_zero fun permit hpermit heq ↦ hpermits permit hpermit (heq ▸ hpool)] at htaken
  exact htaken

theorem available_admitConnection (hordinary : 0 < state.available (.connections .ordinary))
    (late : Bool) (hpool : pool ∈ emergencyPools) :
    (state.admitConnection late).2.available pool = state.available pool := by
  unfold State.admitConnection
  split_ifs
  · rfl
  cases htaken : tryAcquire state.available (.connections .ordinary) 1 with
  | none =>
    have hlt := tryAcquire_eq_none.mp htaken
    omega
  | some taken =>
    show Function.update taken _ 1 pool = _
    rw [Function.update_of_ne (by rintro rfl; simp [emergencyPools] at hpool)]
    exact available_of_charge (add_charge_of_tryAcquire htaken pool) (by simp [emergencyPools])
      hpool

theorem available_reader (hkind : state.connectionKind c ≠ some .emergency) (length : Option ℕ)
    (expired : Bool) (hpool : pool ∈ emergencyPools) :
    (state.reader c length expired).2.available pool = state.available pool := by
  rcases reader_cases state c length expired with ⟨failure, hfailed⟩ |
    ⟨connection, hconnection, -, -, hrest⟩
  · rw [hfailed]
  have hordinary : connection.kind = .ordinary := by
    cases hcase : connection.kind with
    | ordinary => rfl
    | emergency => exact absurd (by rw [connectionKind, hconnection, map_some, hcase]) hkind
  rw [hordinary] at hrest
  rcases hrest with ⟨entered, hentered, -, hfailed⟩ |
    ⟨available, havailable, ⟨hemergency, -⟩ | ⟨-, hok⟩⟩
  · rw [hfailed]
    exact available_of_charge (add_charge_of_tryAcquire hentered pool) (by simp [emergencyPools])
      hpool
  · cases hemergency
  · rw [hok]
    exact available_of_charge (havailable pool) (by simp [emergencyPools]) hpool

theorem available_releaseConnection (hsound : state.Sound)
    (hkind : state.connectionKind c ≠ some .emergency) (hpool : pool ∈ emergencyPools) :
    (state.releaseConnection c).available pool = state.available pool := by
  unfold State.releaseConnection
  split
  · rfl
  rename_i connection hconnection
  split_ifs
  · rfl
  split
  · rfl
  · rename_i permit permits hpermits
    have hmem : permit ∈ [(⟨.connections connection.kind, 1⟩ : Permit Pool)] :=
      (hsound.connection c connection hconnection).1.subset (hpermits ▸ mem_cons_self)
    rw [mem_singleton] at hmem
    have hordinary : connection.kind ≠ .emergency := by
      intro hcase
      exact hkind (by rw [connectionKind, hconnection, map_some, hcase])
    refine release_of_ne ?_
    rintro rfl
    rw [hmem] at hpool
    simp [emergencyPools, hordinary] at hpool

/-- The permits of a reader of an ordinary connection are not of the emergency lane. -/
theorem pool_not_mem_of_reader {reader : Reader} {kind : Kind} {permit : Permit Pool}
    (hvalid : reader.Sound kind) (hkind : kind ≠ .emergency) (hpermit : permit ∈ reader.permits) :
    permit.pool ∉ emergencyPools := by
  rcases hvalid.permits with hsuffix | ⟨-, bytes, -, hsuffix⟩
  · have hmem := hsuffix.subset hpermit
    simp only [Reader.full, mem_cons, not_mem_nil, or_false] at hmem
    rcases hmem with rfl | rfl <;> simp [emergencyPools, hkind]
  · have hmem := hsuffix.subset hpermit
    simp only [mem_cons, not_mem_nil, or_false] at hmem
    rcases hmem with rfl | rfl <;> simp [emergencyPools, hkind]

theorem available_releaseReader (hsound : state.Sound)
    (hkind : state.readerKind r ≠ some .emergency) (hpool : pool ∈ emergencyPools) :
    (state.releaseReader r).available pool = state.available pool := by
  unfold State.releaseReader
  split
  · rfl
  rename_i reader hreader
  split_ifs
  · rfl
  · rfl
  split
  · rfl
  · rename_i permit permits hpermits
    obtain ⟨connection, hconnection, hvalid⟩ :=
      hsound.reader reader (mem_of_getElem? hreader)
    have hordinary : connection.kind ≠ .emergency := by
      intro hcase
      refine hkind ?_
      rw [readerKind, hreader, bind_some, connectionKind, hconnection, map_some,
        hcase]
    refine release_of_ne ?_
    rintro rfl
    exact pool_not_mem_of_reader hvalid hordinary (hpermits ▸ mem_cons_self) hpool

/-- Ordinary traffic leaves the pools of the emergency lane as they are. -/
theorem perform_isolated (hsound : state.Sound) (operation : Operation)
    (hkind : state.operationKind operation ≠ some .emergency) (hpool : pool ∈ emergencyPools) :
    (state.perform operation).available pool = state.available pool := by
  have hset : ∀ c f, (state.setConnection c f).available = state.available :=
    fun c f ↦ (setConnection_frame state c f).1
  cases operation with
  | admitConnection late =>
    refine available_admitConnection ?_ late hpool
    by_contra hexhausted
    exact hkind (if_neg hexhausted)
  | close => rfl
  | dropIngress => rfl
  | depart c => exact congrFun (hset c _) pool
  | dropConnection c =>
    show (state.dropConnection c).available pool = _
    unfold State.dropConnection
    split_ifs
    · rfl
    · exact congrFun (hset c _) pool
  | hold c => exact congrFun (hset c _) pool
  | dropHeld c => exact congrFun (hset c _) pool
  | releaseConnection c => exact available_releaseConnection hsound hkind hpool
  | reader c length expired => exact available_reader hkind length expired hpool
  | poll r expired event =>
    show (state.poll r expired event).2.available pool = _
    unfold State.poll
    split
    · rfl
    split_ifs
    · rfl
    split
    · rfl
    split <;> rfl
  | handoff r expired =>
    show (state.handoff r expired).2.available pool = _
    unfold State.handoff
    split
    · rfl
    split
    · rfl
    split_ifs
    · rfl
    split <;> rfl
  | dropReader r =>
    show (state.dropReader r).available pool = _
    unfold State.dropReader
    split
    · rfl
    split_ifs <;> rfl
  | releaseReader r => exact available_releaseReader hsound hkind hpool

/-! ### Careful runs -/

/-- A reader of the connection has not released all its permits. -/
def unreleased (state : State) (c : ℕ) : Bool :=
  state.readers.any (fun reader ↦ reader.connection == c && reader.permits != [])

/-- A reader of the connection has been dropped, or a call refused, and has not released all its
permits. -/
def releasing (state : State) (c : ℕ) : Bool :=
  state.readers.any (fun reader ↦
    reader.connection == c && !reader.active && reader.permits != [])

/-- The last guard or supervisor of a connection goes after its readers, and no reader of an
emergency connection is asked for while an earlier one is releasing. -/
def Careful (state : State) : Operation → Prop
  | .dropConnection c =>
    (state.connections[c]?).any (fun connection ↦ 0 < connection.holders) = true ∨
      state.unreleased c = false
  | .dropHeld c =>
    (state.connections[c]?).any (fun connection ↦ connection.guard || 1 < connection.holders) =
      true ∨ state.unreleased c = false
  | .reader c _ _ => state.connectionKind c = some .emergency → state.releasing c = false
  | _ => True

/-- The invariant of careful runs. -/
structure Tidy (state : State) : Prop where
  kept : ∀ reader ∈ state.readers, reader.permits ≠ [] →
    ∃ connection, state.connections[reader.connection]? = some connection ∧
      (connection.guard = true ∨ 0 < connection.holders)
  single : ∀ (r s : ℕ) (reader other : Reader), state.readers[r]? = some reader →
    state.readers[s]? = some other → other.connection = reader.connection →
      state.connectionKind reader.connection = some .emergency →
        reader.permits ≠ [] → other.permits ≠ [] → s = r
  fresh : ∀ (c : ℕ) (connection : Connection), state.connections[c]? = some connection →
    connection.kind = .emergency → connection.used = false →
      ∀ reader ∈ state.readers, reader.connection ≠ c

theorem tidy_new : new.Tidy where
  kept := by simp [new]
  single := by simp [new]
  fresh := by simp [new]

theorem unreleased_eq_false : state.unreleased c = false ↔
    ∀ reader ∈ state.readers, reader.connection = c → reader.permits = [] := by
  simp [unreleased]

theorem releasing_eq_false : state.releasing c = false ↔
    ∀ reader ∈ state.readers, reader.connection = c → reader.active = false →
      reader.permits = [] := by
  simp [releasing]

/-! ### Room for the first reader -/

/-- A sum with at most one nonzero term is bounded by a bound of the terms. -/
theorem sum_le_of_single {bound : ℕ} (l : List ℕ)
    (hsingle : ∀ i j a b : ℕ, l[i]? = some a → l[j]? = some b → 0 < a → 0 < b → j = i)
    (hbound : ∀ a ∈ l, a ≤ bound) : l.sum ≤ bound := by
  induction l with
  | nil => simp
  | cons a l ih =>
    rw [sum_cons]
    by_cases ha : 0 < a
    · have hzero : l.sum = 0 := by
        refine sum_eq_zero fun b hb ↦ ?_
        obtain ⟨j, hj⟩ := mem_iff_getElem?.mp hb
        by_contra hpos
        have hsame := hsingle 0 (j + 1) a b (by simp) (by simpa using hj) ha (by omega)
        omega
      rw [hzero]
      exact hbound a mem_cons_self
    · have htail : l.sum ≤ bound := by
        refine ih (fun i j b d hb hd hpos hpos' ↦ ?_) fun b hb ↦
          hbound b (mem_cons_of_mem _ hb)
        have hsame := hsingle (i + 1) (j + 1) b d (by simpa using hb) (by simpa using hd) hpos hpos'
        omega
      omega

/-- Three distinct terms are part of a sum. -/
theorem three_le_sum {α : Type*} (f : α → ℕ) {zero : α} (hzero : f zero = 0) {l : List α}
    {i j k : ℕ} {a b d : α} (hi : l[i]? = some a) (hj : l[j]? = some b) (hk : l[k]? = some d)
    (hij : i ≠ j) (hik : i ≠ k) (hjk : j ≠ k) : f a + f b + f d ≤ (l.map f).sum := by
  have hfirst := sum_set f zero hi
  have hj' : (l.set i zero)[j]? = some b := by rw [getElem?_set_ne hij]; exact hj
  have hsecond := sum_set f zero hj'
  have hk' : ((l.set i zero).set j zero)[k]? = some d := by
    rw [getElem?_set_ne hjk, getElem?_set_ne hik]
    exact hk
  have hthird := sum_set f zero hk'
  omega

/-- The bytes a reader holds are of the kind of its connection and fit that kind. -/
theorem charge_body_le {reader : Reader} {kind : Kind} (hvalid : reader.Sound kind) :
    charge reader.permits (.body kind) ≤ kind.max ∧
      ∀ other, other ≠ kind → charge reader.permits (.body other) = 0 := by
  rcases hvalid.permits with hsuffix | ⟨-, bytes, hbytes, hsuffix⟩
  · refine ⟨Nat.le_trans (charge_le_of_suffix hsuffix _) ?_, fun other hother ↦ ?_⟩
    · simpa [Reader.full] using hvalid.capacity
    · have hle := charge_le_of_suffix hsuffix (.body other)
      simpa [Reader.full, Ne.symm hother] using hle
  · refine ⟨Nat.le_trans (charge_le_of_suffix hsuffix _) ?_, fun other hother ↦ ?_⟩
    · simpa using hbytes
    · have hle := charge_le_of_suffix hsuffix (.body other)
      simpa [Ne.symm hother] using hle

/-- Connections hold permits of their own pools only. -/
theorem Sound.sum_connections_eq_zero (hsound : state.Sound) (pool : Pool)
    (hpool : ∀ kind, pool ≠ .connections kind) :
    (state.connections.map fun connection ↦ charge connection.permits pool).sum = 0 := by
  refine sum_eq_zero fun n hn ↦ ?_
  obtain ⟨found, hmem, rfl⟩ := mem_map.mp hn
  obtain ⟨i, hi⟩ := mem_iff_getElem?.mp hmem
  refine charge_eq_zero fun permit hpermit ↦ ?_
  have hin := (hsound.connection i found hi).1.subset hpermit
  rw [mem_singleton] at hin
  rw [hin]
  exact Ne.symm (hpool found.kind)

section

variable (hsound : state.Sound) (htidy : state.Tidy)
  (hconnection : state.connections[c]? = some connection) (hkind : connection.kind = .emergency)
  (hused : connection.used = false) (howner : connection.guard = true ∨ 0 < connection.holders)
include hsound htidy hconnection hkind hused howner

/-- In a tidy state an unused emergency connection finds bytes for its first reader. Assumes: the
connection has a guard or a supervisor. -/
theorem emergency_room : EMERGENCY_BODY_BYTES ≤ state.available (.body .emergency) := by
  have hone : ∀ (i : ℕ) (found : Connection), state.connections[i]? = some found →
      found.kind = .emergency → (found.guard = true ∨ 0 < found.holders) →
        charge found.permits (.connections .emergency) = 1 := by
    intro i found hfound hemergency howned
    rw [(hsound.connection i found hfound).2 (owned_iff.mpr (Or.inl ⟨found, hfound, howned⟩)),
      hemergency]
    simp
  have hholder : ∀ reader ∈ state.readers, 0 < charge reader.permits (.body .emergency) →
      ∃ found, state.connections[reader.connection]? = some found ∧ found.kind = .emergency ∧
        charge found.permits (.connections .emergency) = 1 ∧ reader.connection ≠ c := by
    intro reader hreader hpos
    obtain ⟨found, hfound, hvalid⟩ := hsound.reader reader hreader
    have hemergency : found.kind = .emergency := by
      by_contra hother
      rw [(charge_body_le hvalid).2 .emergency (Ne.symm hother)] at hpos
      omega
    have hpermits : reader.permits ≠ [] := by
      rintro hempty
      rw [hempty] at hpos
      exact absurd hpos (Nat.lt_irrefl 0)
    obtain ⟨other, hother, howned⟩ := htidy.kept reader hreader hpermits
    obtain rfl : other = found := some.inj (hother.symm.trans hfound)
    exact ⟨other, hfound, hemergency, hone _ other hfound hemergency howned,
      htidy.fresh c connection hconnection hkind hused reader hreader⟩
  have hreaders : (state.readers.map (fun reader ↦
      charge reader.permits (.body .emergency))).sum ≤ EMERGENCY_BODY_BYTES := by
    refine sum_le_of_single _ ?_ ?_
    · intro r s a b ha hb hpos hpos'
      rw [getElem?_map] at ha hb
      obtain ⟨reader, hreader, rfl⟩ := map_eq_some_iff.mp ha
      obtain ⟨other, hother, rfl⟩ := map_eq_some_iff.mp hb
      obtain ⟨first, hfirst, hemergency, hfirst', hne⟩ :=
        hholder reader (mem_of_getElem? hreader) hpos
      obtain ⟨second, hsecond, -, hsecond', hne'⟩ :=
        hholder other (mem_of_getElem? hother) hpos'
      by_cases hsame : other.connection = reader.connection
      · refine htidy.single r s reader other hreader hother hsame ?_ ?_ ?_
        · rw [connectionKind, hfirst, map_some, hemergency]
        · rintro hempty
          rw [hempty] at hpos
          exact absurd hpos (Nat.lt_irrefl 0)
        · rintro hempty
          rw [hempty] at hpos'
          exact absurd hpos' (Nat.lt_irrefl 0)
      · exfalso
        have hzero : charge (Connection.permits
            { connection with permits := [] }) (.connections .emergency) = 0 := rfl
        have hsum := three_le_sum (fun connection : Connection ↦
          charge connection.permits (.connections .emergency)) hzero hfirst hsecond hconnection
          (Ne.symm hsame) hne hne'
        simp only [hfirst', hsecond', hone c connection hconnection hkind howner] at hsum
        have hconserved := hsound.conserved (.connections .emergency)
        have hcapacity : state.capacity (.connections .emergency) = 2 := rfl
        simp only [held] at hconserved
        omega
    · intro a ha
      obtain ⟨reader, hreader, rfl⟩ := mem_map.mp ha
      obtain ⟨found, hfound, hvalid⟩ := hsound.reader reader hreader
      by_cases hemergency : found.kind = .emergency
      · rw [hemergency] at hvalid
        exact (charge_body_le hvalid).1
      · rw [(charge_body_le hvalid).2 .emergency (Ne.symm hemergency)]
        exact Nat.zero_le _
  have hconnections := hsound.sum_connections_eq_zero (.body .emergency) (by simp)
  have hconserved := hsound.conserved (.body .emergency)
  have hcapacity : state.capacity (.body .emergency) = 2 * EMERGENCY_BODY_BYTES := rfl
  simp only [held] at hconserved
  omega

/-- In a tidy state the first reader of a live emergency connection is not refused for capacity.
Assumes: the length is unknown or fits the class. -/
theorem reader_not_capacity {length : Option ℕ}
    (hlength : length.getD EMERGENCY_BODY_BYTES ≤ EMERGENCY_BODY_BYTES) (expired : Bool) :
    (state.reader c length expired).1 ≠ .error .capacity := by
  have hfresh := htidy.fresh c connection hconnection hkind hused
  have hreader : state.available (.reader c) = 1 := by
    have hreaders : (state.readers.map (fun reader ↦
        charge reader.permits (.reader c))).sum = 0 := by
      refine sum_eq_zero fun n hn ↦ ?_
      obtain ⟨reader, hmem, rfl⟩ := mem_map.mp hn
      obtain ⟨found, -, hvalid⟩ := hsound.reader reader hmem
      refine charge_eq_zero fun permit hpermit ↦ ?_
      rcases hvalid.permits with hsuffix | ⟨-, bytes, -, hsuffix⟩
      · have hin := hsuffix.subset hpermit
        simp only [Reader.full, mem_cons, not_mem_nil, or_false] at hin
        rcases hin with rfl | rfl <;> simp [hfresh reader hmem]
      · have hin := hsuffix.subset hpermit
        simp only [mem_cons, not_mem_nil, or_false] at hin
        rcases hin with rfl | rfl <;> simp [hfresh reader hmem]
    have hconnections := hsound.sum_connections_eq_zero (.reader c) (by simp)
    have hconserved := hsound.conserved (.reader c)
    have hlt : c < state.connections.length := (List.getElem?_eq_some_iff.mp hconnection).1
    simp only [held, State.capacity, if_pos hlt] at hconserved
    omega
  have hroom := emergency_room hsound htidy hconnection hkind hused howner
  have hmax : connection.kind.max = EMERGENCY_BODY_BYTES := by rw [hkind]; rfl
  have hbytes : length.getD EMERGENCY_BODY_BYTES ≤ state.available (.body .emergency) :=
    Nat.le_trans hlength hroom
  unfold State.reader
  rw [hconnection]
  simp only [hkind, hused, Kind.max, tryAcquire, hreader, Nat.le_refl, if_true,
    Function.update_of_ne (show Pool.body .emergency ≠ Pool.reader c by simp), hbytes]
  split_ifs <;> simp

end

/-! ### Careful steps keep a tidy state -/

/-- Readers that release permits or change their stage, with the flags of all connections kept. -/
theorem Tidy.setReader {reader after : Reader} {handoffs : List Handoff} (htidy : state.Tidy)
    (hreader : state.readers[r]? = some reader) (hconnection : after.connection = reader.connection)
    (hpermits : after.permits ≠ [] → reader.permits ≠ []) :
    ({ state.setReader r after with
        available := available
        handoffs := handoffs } : State).Tidy := by
  have hlt : r < state.readers.length := (List.getElem?_eq_some_iff.mp hreader).1
  have hback : ∀ (i : ℕ) (found : Reader), (state.readers.set r after)[i]? = some found →
      ∃ old, state.readers[i]? = some old ∧ found.connection = old.connection ∧
        (found.permits ≠ [] → old.permits ≠ []) := by
    intro i found hfound
    rcases getElem?_set_cases hfound with ⟨rfl, rfl⟩ | ⟨-, hfound⟩
    · exact ⟨reader, hreader, hconnection, hpermits⟩
    · exact ⟨found, hfound, rfl, id⟩
  refine ⟨?_, ?_, ?_⟩
  · intro found hfound hunreleased
    obtain ⟨i, hi⟩ := mem_iff_getElem?.mp hfound
    obtain ⟨old, hold, hsame, hmore⟩ := hback i found hi
    rw [hsame]
    exact htidy.kept old (mem_of_getElem? hold) (hmore hunreleased)
  · intro i j found other hfound hother hsame hemergency hunreleased hunreleased'
    obtain ⟨old, hold, hconn, hmore⟩ := hback i found hfound
    obtain ⟨old', hold', hconn', hmore'⟩ := hback j other hother
    exact htidy.single i j old old' hold hold' (hconn'.symm.trans (hsame.trans hconn))
      (hconn ▸ hemergency) (hmore hunreleased) (hmore' hunreleased')
  · intro c connection hc hkind hused found hfound
    obtain ⟨i, hi⟩ := mem_iff_getElem?.mp hfound
    obtain ⟨old, hold, hsame, -⟩ := hback i found hi
    rw [hsame]
    exact htidy.fresh c connection hc hkind hused old (mem_of_getElem? hold)

/-- A change of a connection. Assumes: it keeps the kind, does not unmark the connection as used,
and leaves an owner if a reader is unreleased. -/
theorem Tidy.setConnection {f : Connection → Connection} (htidy : state.Tidy)
    (hkind : ∀ connection, (f connection).kind = connection.kind)
    (hused : ∀ connection, (f connection).used = false → connection.used = false)
    (howner : ∀ connection, state.connections[c]? = some connection →
      state.unreleased c = true → connection.guard = true ∨ 0 < connection.holders →
        (f connection).guard = true ∨ 0 < (f connection).holders) :
    (state.setConnection c f).Tidy := by
  obtain ⟨-, hreaders, -, -⟩ := setConnection_frame state c f
  have hget := connections_setConnection state c f
  refine ⟨?_, ?_, ?_⟩
  · intro reader hreader hunreleased
    rw [hreaders] at hreader
    obtain ⟨connection, hconnection, howned⟩ := htidy.kept reader hreader hunreleased
    rw [hget]
    split_ifs with hc
    · rw [hc] at hconnection ⊢
      refine ⟨f connection, by rw [hconnection]; rfl, howner connection hconnection ?_ howned⟩
      by_contra hreleased
      exact hunreleased (unreleased_eq_false.mp (by simpa using hreleased) reader hreader hc)
    · exact ⟨connection, hconnection, howned⟩
  · intro i j reader other hreader hother hsame hemergency
    rw [hreaders] at hreader hother
    refine htidy.single i j reader other hreader hother hsame ?_
    rw [connectionKind, hget] at hemergency
    rw [connectionKind, ← hemergency]
    split_ifs
    · rw [Option.map_map]
      exact (congrFun (congrArg Option.map (funext hkind)) _).symm
    · rfl
  · intro i after hafter hemergency hfresh reader hreader
    rw [hreaders] at hreader
    rw [hget] at hafter
    split_ifs at hafter
    · obtain ⟨connection, hconnection, rfl⟩ := map_eq_some_iff.mp hafter
      exact htidy.fresh i connection hconnection (hkind connection ▸ hemergency)
        (hused connection hfresh) reader hreader
    · exact htidy.fresh i after hafter hemergency hfresh reader hreader

/-- A new reader. Assumes: the connection has an owner, and if it is an emergency connection, it is
used and all its earlier readers are released. -/
theorem Tidy.addReader {reader : Reader} (htidy : state.Tidy)
    (hconnection : state.connections[reader.connection]? = some connection)
    (howner : connection.guard = true ∨ 0 < connection.holders)
    (hemergency : connection.kind = .emergency →
      connection.used = true ∧ state.unreleased reader.connection = false) :
    (state.addReader available reader).Tidy := by
  have hreleased : state.connectionKind reader.connection = some .emergency →
      ∀ other ∈ state.readers, other.connection = reader.connection → other.permits = [] := by
    intro hkind
    rw [connectionKind, hconnection, map_some] at hkind
    exact unreleased_eq_false.mp (hemergency (some.inj hkind)).2
  have hget : ∀ (i : ℕ) (found : Reader), (state.readers ++ [reader])[i]? = some found →
      state.readers[i]? = some found ∨ i = state.readers.length ∧ found = reader :=
    fun _ _ hfound ↦ getElem?_concat_cases hfound
  refine ⟨?_, ?_, ?_⟩
  · intro found hfound hunreleased
    rcases mem_append.mp hfound with hold | hnew
    · exact htidy.kept found hold hunreleased
    · rw [mem_singleton] at hnew
      subst hnew
      exact ⟨connection, hconnection, howner⟩
  · intro i j found other hfound hother hsame hkind hunreleased hunreleased'
    rcases hget i found hfound with hold | ⟨hi, rfl⟩
    · rcases hget j other hother with hold' | ⟨-, rfl⟩
      · exact htidy.single i j found other hold hold' hsame hkind hunreleased hunreleased'
      · have hkind : state.connectionKind other.connection = some .emergency := hsame ▸ hkind
        exact absurd (hreleased hkind found (mem_of_getElem? hold) hsame.symm) hunreleased
    · rcases hget j other hother with hold' | ⟨hj, -⟩
      · exact absurd (hreleased hkind other (mem_of_getElem? hold') hsame) hunreleased'
      · rw [hi, hj]
  · intro c found hfound hkind hfresh other hother
    rcases mem_append.mp hother with hold | hnew
    · exact htidy.fresh c found hfound hkind hfresh other hold
    · rw [mem_singleton] at hnew
      subst hnew
      rintro rfl
      obtain rfl : found = connection := some.inj (hfound.symm.trans hconnection)
      rw [(hemergency hkind).1] at hfresh
      cases hfresh

/-- While the reader permit is available, all earlier readers are released. Assumes: none of them is
releasing. -/
theorem released_of_available (hsound : state.Sound) (havailable : 1 ≤ state.available (.reader c))
    (hcareful : state.releasing c = false) : state.unreleased c = false := by
  refine unreleased_eq_false.mpr fun reader hreader hconnection ↦ ?_
  by_cases hactive : reader.active = true
  · exfalso
    obtain ⟨r, hr⟩ := mem_iff_getElem?.mp hreader
    obtain ⟨found, hfound, hvalid⟩ := hsound.reader reader hreader
    have hcharge : charge reader.permits (.reader c) = 1 := by
      rw [hvalid.holding (hvalid.active hactive), Reader.full, hconnection]
      simp
    have hsum := sum_eraseIdx (fun reader : Reader ↦ charge reader.permits (.reader c)) hr
    have hconserved := hsound.conserved (.reader c)
    have hlt : c < state.connections.length :=
      hconnection ▸ (List.getElem?_eq_some_iff.mp hfound).1
    simp only [held, State.capacity, if_pos hlt] at hconserved
    omega
  · exact releasing_eq_false.mp hcareful reader hreader hconnection (by simpa using hactive)

theorem Tidy.reader (hsound : state.Sound) (htidy : state.Tidy) (c : ℕ) (length : Option ℕ)
    (expired : Bool)
    (hcareful : state.connectionKind c = some .emergency → state.releasing c = false) :
    (state.reader c length expired).2.Tidy := by
  rcases reader_cases state c length expired with ⟨failure, hfailed⟩ |
    ⟨connection, hconnection, hguard, hcapacity, hrest⟩
  · rw [hfailed]
    exact htidy
  have hquiet : 1 ≤ state.available (.reader c) → connection.kind = .emergency →
      state.unreleased c = false := by
    intro havailable hkind
    refine released_of_available hsound havailable (hcareful ?_)
    rw [connectionKind, hconnection, map_some, hkind]
  rcases hrest with ⟨entered, hentered, htaken, hfailed⟩ |
    ⟨available, havailable, ⟨-, hused, hfailed⟩ | ⟨-, hok⟩⟩
  · rw [hfailed]
    refine htidy.addReader hconnection (Or.inl hguard) fun hkind ↦
      ⟨?_, hquiet (le_of_tryAcquire hentered) hkind⟩
    by_contra hused
    have hroom := emergency_room hsound htidy hconnection hkind (by simpa using hused)
      (Or.inl hguard)
    have hbalance := add_charge_of_tryAcquire hentered (.body .emergency)
    have hmax : Kind.emergency.max = EMERGENCY_BODY_BYTES := rfl
    rw [tryAcquire_eq_none, hkind] at htaken
    rw [hkind] at hcapacity
    simp only [charge_cons, reduceCtorEq, if_false, charge_nil] at hbalance
    omega
  · rw [hfailed]
    have hbalance := havailable (.reader c)
    simp only [charge_cons, if_true] at hbalance
    exact htidy.addReader hconnection (Or.inl hguard) fun hkind ↦
      ⟨hused, hquiet (by omega) hkind⟩
  · rw [hok]
    have hbalance := havailable (.reader c)
    simp only [charge_cons, if_true] at hbalance
    have hafter := connections_setConnection state c (fun connection ↦
      { connection with used := connection.used || connection.kind == .emergency }) c
    rw [if_pos rfl, hconnection, map_some] at hafter
    have hreaders := (setConnection_frame state c (fun connection ↦
      { connection with used := connection.used || connection.kind == .emergency })).2.1
    refine Tidy.addReader (htidy.setConnection (fun _ ↦ rfl) (fun _ hfresh ↦ ?_)
      fun _ _ _ howner ↦ howner) hafter (Or.inl hguard) fun hkind ↦ ?_
    · simp only [Bool.or_eq_false_iff] at hfresh
      exact hfresh.1
    · have hkind : connection.kind = .emergency := hkind
      refine ⟨by simp [hkind], ?_⟩
      have hreleased := hquiet (by omega) hkind
      rw [unreleased_eq_false] at hreleased ⊢
      rw [hreaders]
      exact hreleased

theorem Tidy.drop {reader : Reader} (htidy : state.Tidy)
    (hreader : state.readers[r]? = some reader) :
    (state.drop r reader).Tidy :=
  htidy.setReader hreader rfl id

theorem Tidy.poll (hsound : state.Sound) (htidy : state.Tidy) (r : ℕ) (expired : Bool)
    (event : Event) : (state.poll r expired event).2.Tidy := by
  unfold State.poll
  split
  · exact htidy
  rename_i reader hreader
  split_ifs with hreading
  · exact htidy
  rw [not_not] at hreading
  split
  · exact htidy.drop hreader
  split
  · exact htidy.drop hreader
  · rename_i after hcollect
    obtain ⟨_, -, hvalid⟩ := hsound.reader reader (mem_of_getElem? hreader)
    obtain ⟨-, hconnection, -, hpermits⟩ := sound_collect hvalid hreading hcollect
    exact htidy.setReader hreader hconnection fun hne ↦ hpermits ▸ hne

theorem Tidy.releaseReader (htidy : state.Tidy) (r : ℕ) : (state.releaseReader r).Tidy := by
  unfold State.releaseReader
  split
  · exact htidy
  rename_i reader hreader
  split_ifs
  · exact htidy
  · exact htidy.setReader hreader rfl id
  split
  · exact htidy
  · rename_i permit permits hpermits
    exact htidy.setReader hreader rfl fun _ ↦ hpermits ▸ cons_ne_nil _ _

theorem Tidy.handoff (htidy : state.Tidy) (r : ℕ) (expired : Bool) :
    (state.handoff r expired).2.Tidy := by
  unfold State.handoff
  split
  · exact htidy
  rename_i reader hreader
  split
  · exact htidy
  split_ifs
  · exact htidy
  split
  · exact htidy.drop hreader
  · exact htidy.setReader hreader rfl id

theorem Tidy.releaseConnection (htidy : state.Tidy) (c : ℕ) : (state.releaseConnection c).Tidy := by
  unfold State.releaseConnection
  split
  · exact htidy
  rename_i connection hconnection
  split_ifs
  · exact htidy
  split
  · exact htidy
  · rename_i permit permits hpermits
    have hset : state.setConnection c (fun connection ↦ { connection with permits := permits }) =
        { state with
          connections := state.connections.set c { connection with permits := permits } } := by
      simp only [State.setConnection, hconnection]
    have hkept : (state.setConnection c (fun connection ↦
        { connection with permits := permits })).Tidy :=
      htidy.setConnection (fun _ ↦ rfl) (fun _ hfresh ↦ hfresh) fun _ _ _ howner ↦ howner
    rw [hset] at hkept
    exact ⟨hkept.kept, hkept.single, hkept.fresh⟩

theorem Tidy.admitConnection (hsound : state.Sound) (htidy : state.Tidy) (late : Bool) :
    (state.admitConnection late).2.Tidy := by
  have henter : ∀ kind taken, (state.enter kind taken late).2.Tidy := by
    intro kind taken
    have hlt : ∀ reader ∈ state.readers, reader.connection < state.connections.length := by
      intro reader hreader
      obtain ⟨found, hfound, -⟩ := hsound.reader reader hreader
      exact (List.getElem?_eq_some_iff.mp hfound).1
    have hold : ∀ reader ∈ state.readers,
        (state.enter kind taken late).2.connections[reader.connection]? =
          state.connections[reader.connection]? :=
      fun reader hreader ↦ getElem?_append_left (hlt reader hreader)
    refine ⟨?_, ?_, ?_⟩
    · intro reader hreader hunreleased
      rw [hold reader hreader]
      exact htidy.kept reader hreader hunreleased
    · intro i j reader other hreader hother hsame hemergency
      refine htidy.single i j reader other hreader hother hsame ?_
      rw [connectionKind, hold reader (mem_of_getElem? hreader)] at hemergency
      exact hemergency
    · intro c connection hc hkind hused reader hreader
      by_cases hold : c < state.connections.length
      · have hc : (state.connections ++ [_])[c]? = some connection := hc
        rw [getElem?_append_left hold] at hc
        exact htidy.fresh c connection hc hkind hused reader hreader
      · rintro rfl
        exact hold (hlt reader hreader)
  unfold State.admitConnection
  split_ifs
  · exact htidy
  split
  · exact henter _ _
  · split
    · exact henter _ _
    · exact htidy

/-- A careful step keeps a tidy state. -/
theorem tidy_perform (hsound : state.Sound) (htidy : state.Tidy) {operation : Operation}
    (hcareful : Careful state operation) : (state.perform operation).Tidy := by
  cases operation with
  | admitConnection late => exact htidy.admitConnection hsound late
  | close => exact ⟨htidy.kept, htidy.single, htidy.fresh⟩
  | dropIngress => exact ⟨htidy.kept, htidy.single, htidy.fresh⟩
  | depart c => exact htidy.setConnection (fun _ ↦ rfl) (fun _ h ↦ h) fun _ _ _ howner ↦ howner
  | dropConnection c =>
    show (state.dropConnection c).Tidy
    unfold State.dropConnection
    split_ifs
    · exact htidy
    · refine htidy.setConnection (fun _ ↦ rfl) (fun _ h ↦ h)
        fun connection hconnection hunreleased _ ↦ Or.inr ?_
      rcases hcareful with hholders | hreleased
      · simpa [hconnection] using hholders
      · rw [hreleased] at hunreleased
        cases hunreleased
  | hold c =>
    refine htidy.setConnection (fun connection ↦ ?_) (fun connection hfresh ↦ ?_)
      fun connection _ _ howner ↦ ?_
    · split_ifs <;> rfl
    · split_ifs at hfresh <;> exact hfresh
    · split_ifs with hguard
      · exact Or.inl hguard
      · exact howner
  | dropHeld c =>
    refine htidy.setConnection (fun _ ↦ rfl) (fun _ h ↦ h)
      fun connection hconnection hunreleased _ ↦ ?_
    rcases hcareful with howner | hreleased
    · simp only [hconnection, any_some, Bool.or_eq_true, decide_eq_true_eq] at howner
      exact howner.imp_right fun hholders ↦ by simp only; omega
    · rw [hreleased] at hunreleased
      cases hunreleased
  | releaseConnection c => exact htidy.releaseConnection c
  | reader c length expired => exact Tidy.reader hsound htidy c length expired hcareful
  | poll r expired event => exact Tidy.poll hsound htidy r expired event
  | handoff r expired => exact htidy.handoff r expired
  | dropReader r =>
    show (state.dropReader r).Tidy
    unfold State.dropReader
    split
    · exact htidy
    · rename_i reader hreader
      split_ifs
      · exact htidy
      · exact htidy.drop hreader
  | releaseReader r => exact htidy.releaseReader r

/-! ### The two promises about order -/

/-- A connection permit is available again only after the bytes of its readers. -/
def BytesFirst (state : State) : Prop :=
  ∀ (c : ℕ) (connection : Connection), state.connections[c]? = some connection →
    connection.permits = [] → ∀ reader ∈ state.readers, reader.connection = c →
      ∀ kind, charge reader.permits (.body kind) = 0

/-- The first reader of a live emergency connection is not refused for capacity when its length is
unknown or fits the class. -/
def FirstReaderFits (state : State) : Prop :=
  ∀ (c : ℕ) (connection : Connection) (length : Option ℕ) (expired : Bool),
    state.connections[c]? = some connection → connection.kind = .emergency →
      connection.guard = true → connection.used = false →
      length.getD EMERGENCY_BODY_BYTES ≤ EMERGENCY_BODY_BYTES →
        (state.reader c length expired).1 ≠ .error .capacity

theorem bytesFirst_of_tidy (hsound : state.Sound) (htidy : state.Tidy) : BytesFirst state := by
  rintro c connection hconnection hempty reader hreader rfl kind
  have hpermits : reader.permits = [] := by
    by_contra hunreleased
    obtain ⟨found, hfound, howner⟩ := htidy.kept reader hreader hunreleased
    obtain rfl : found = connection := some.inj (hfound.symm.trans hconnection)
    have hfull := (hsound.connection _ found hfound).2
      (owned_iff.mpr (Or.inl ⟨found, hfound, howner⟩))
    rw [hempty] at hfull
    cases hfull
  rw [hpermits]
  rfl

theorem firstReaderFits_of_tidy (hsound : state.Sound) (htidy : state.Tidy) :
    FirstReaderFits state :=
  fun _ _ _ expired hconnection hkind hguard hused hlength ↦
    reader_not_capacity hsound htidy hconnection hkind hused (Or.inl hguard) hlength expired

end State

/-- Every step of a sequence of operations is careful in the state it is taken in. -/
def CarefulFrom : State → List Operation → Prop
  | _, [] => True
  | state, operation :: rest => state.Careful operation ∧ CarefulFrom (state.perform operation) rest

theorem tidy_run {operations : List Operation} (hcareful : CarefulFrom State.new operations) :
    (run operations).Tidy := by
  have hfold : ∀ state : State, state.Sound → state.Tidy → CarefulFrom state operations →
      (operations.foldl State.perform state).Tidy := by
    clear hcareful
    induction operations with
    | nil => exact fun _ _ htidy _ ↦ htidy
    | cons operation rest ih =>
      intro state hsound htidy hcareful
      exact ih _ (State.sound_perform hsound operation)
        (State.tidy_perform hsound htidy hcareful.1) hcareful.2
  exact hfold State.new State.sound_new State.tidy_new hcareful

/-- What holds in every run: the bounds on live connections, the condition for an emergency
connection, one handed-on body in the life of an emergency connection, the isolation of the
emergency pools, and the bytes of a body that is handed on. -/
def Custody (state : State) : Prop :=
  (state.alive .ordinary ≤ ORDINARY_CONNECTIONS ∧ state.alive .emergency ≤ EMERGENCY_CONNECTIONS ∧
    ∀ (c : ℕ) (connection : Connection), state.connections[c]? = some connection →
      state.owned c = true → connection.permits ≠ []) ∧
  (∀ (late : Bool) (c : ℕ) (connection : Connection), (state.admitConnection late).1 = .ok c →
    (state.admitConnection late).2.connections[c]? = some connection →
    connection.kind = .emergency →
      state.available (.connections .ordinary) = 0 ∧
        state.held (.connections .ordinary) = ORDINARY_CONNECTIONS) ∧
  (∀ (c : ℕ) (connection : Connection), state.connections[c]? = some connection →
    connection.kind = .emergency → state.handed c ≤ 1) ∧
  (∀ operation, state.operationKind operation ≠ some .emergency →
    ∀ pool ∈ State.emergencyPools,
      (state.perform operation).available pool = state.available pool) ∧
  ∀ handoff ∈ state.handoffs, handoff.bytes = handoff.received.flatten ∧
    (∀ n, handoff.length = some n → handoff.bytes.length = n) ∧
    handoff.bytes.length ≤ handoff.capacity ∧ handoff.capacity ≤ handoff.kind.max

theorem custody_of_sound {state : State} (hsound : state.Sound) : Custody state := by
  refine ⟨⟨State.alive_le hsound .ordinary, State.alive_le hsound .emergency, ?_⟩, ?_, ?_,
    fun operation hkind pool hpool ↦ State.perform_isolated hsound operation hkind hpool, ?_⟩
  · intro c connection hconnection howned hempty
    have hfull := (hsound.connection c connection hconnection).2 howned
    rw [hempty] at hfull
    cases hfull
  · intro late c connection hok hconnection hkind
    have hzero := State.ordinary_exhausted hok hconnection hkind
    have hconserved := hsound.conserved (.connections .ordinary)
    rw [hzero, Nat.zero_add] at hconserved
    exact ⟨hzero, hconserved⟩
  · intro c connection hconnection hkind
    have honce := hsound.once c connection hconnection hkind
    split_ifs at honce <;> omega
  · intro handoff hhandoff
    obtain ⟨hvalid, -⟩ := hsound.handoff handoff hhandoff
    exact ⟨hvalid.bytes, hvalid.declared, hvalid.bounded, hvalid.capacity⟩

/-- Both emergency connections read, and the first of them is released while its reader still holds
its bytes. A third emergency connection enters. -/
def detachedReader : List Operation :=
  List.replicate 34 (.admitConnection false) ++
    [.reader 32 none false, .reader 33 none false, .dropConnection 32, .dropReader 0,
      .releaseReader 0, .releaseConnection 32, .admitConnection false]

theorem detachedReader_state :
    ((run detachedReader).connections[32]?).map Connection.permits = some [] ∧
      ((run detachedReader).readers[0]?).map (fun reader ↦
        (reader.connection, charge reader.permits (.body .emergency))) = some (32, 16384) ∧
      ((run detachedReader).connections[34]?).map (fun connection ↦
        (connection.kind, connection.guard, connection.used)) = some (.emergency, true, false) ∧
      ((run detachedReader).reader 34 none false).1 = .error .capacity := by
  decide +kernel

end ObsMcp.Ingress
