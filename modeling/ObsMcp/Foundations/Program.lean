import Mathlib.Tactic.Common

/-!
# Programs that ask their surroundings

A `Program` is a value or a request with a program for each reply. What a request does to the state
of the surroundings, and which replies it can have, is a relation `answers`, so one program can run
in many surroundings and each of its requests can fail in every way the relation allows. A `Run` can
end at any request, which is how a run that is dropped or crashes ends.

`Safe` says that an invariant holds wherever a program can stop and a postcondition where it ends;
`Safe.of_run` is its meaning for runs, and `Safe.bind`, `Safe.request` and `Safe.of_uses` are the
rules to establish it. A `Flow` is a program with a local state that can stop with a fault and then
keeps the local state; its rules are those of programs.
-/

namespace ObsMcp.Foundations

/-- A value, or a request with a program for each of its replies. -/
inductive Program (Req : Type) (Rep : Req → Type) (α : Type)
  | done (value : α)
  | ask (request : Req) (next : Rep request → Program Req Rep α)

namespace Program

variable {Req : Type} {Rep : Req → Type} {α β σ : Type}

def bind : Program Req Rep α → (α → Program Req Rep β) → Program Req Rep β
  | done value, f => f value
  | ask request next, f => ask request fun reply ↦ bind (next reply) f

instance : Monad (Program Req Rep) where
  pure := done
  bind := bind

/-- Every request of the program is allowed. -/
def Uses (allowed : Req → Prop) : Program Req Rep α → Prop
  | done _ => True
  | ask r next => allowed r ∧ ∀ reply, Uses allowed (next reply)

/-- A run of a program: it ends with its value, or at a request with none. -/
inductive Run (answers : σ → (r : Req) → Rep r → σ → Prop) :
    Program Req Rep α → σ → Option α → σ → Prop
  | done (value : α) (s : σ) : Run answers (done value) s (some value) s
  | stop (r : Req) (next : Rep r → Program Req Rep α) (s : σ) : Run answers (ask r next) s none s
  | ask {r : Req} {next : Rep r → Program Req Rep α} {s t u : σ} {reply : Rep r}
    {result : Option α} (hanswer : answers s r reply t)
    (hrest : Run answers (next reply) t result u) : Run answers (ask r next) s result u

/-- The end of a run with definite answers, when it has one. -/
def exec (respond : σ → (r : Req) → Option (Rep r × σ)) : Program Req Rep α → σ → Option (α × σ)
  | done value, s => some (value, s)
  | ask r next, s => (respond s r).bind fun (reply, t) ↦ exec respond (next reply) t

/-- The invariant holds at every request of the program and the postcondition where it ends. -/
def Safe (answers : σ → (r : Req) → Rep r → σ → Prop) (inv : σ → Prop) (post : α → σ → Prop) :
    Program Req Rep α → σ → Prop
  | done value, s => post value s
  | ask r next, s => inv s ∧ ∀ reply t, answers s r reply t → Safe answers inv post (next reply) t

variable {x : Program Req Rep α}

theorem run_of_exec {answers : σ → (r : Req) → Rep r → σ → Prop}
    {respond : σ → (r : Req) → Option (Rep r × σ)}
    (hrespond : ∀ s r reply t, respond s r = some (reply, t) → answers s r reply t) {s t : σ}
    {value : α} (hexec : x.exec respond s = some (value, t)) : Run answers x s (some value) t := by
  induction x generalizing s with
  | done value =>
    cases hexec
    exact .done _ _
  | ask r next ih =>
    obtain ⟨⟨reply, u⟩, hreply, hnext⟩ := Option.bind_eq_some_iff.mp hexec
    exact .ask (hrespond s r reply u hreply) (ih reply hnext)

variable {allowed : Req → Prop}

theorem Uses.mono {more : Req → Prop} (hx : x.Uses allowed) (hmore : ∀ r, allowed r → more r) :
    x.Uses more := by
  induction x with
  | done value => trivial
  | ask r next ih => exact ⟨hmore r hx.1, fun reply ↦ ih reply (hx.2 reply)⟩

theorem Uses.bind {f : α → Program Req Rep β} (hx : x.Uses allowed)
    (hf : ∀ value, (f value).Uses allowed) : (x.bind f).Uses allowed := by
  induction x with
  | done value => exact hf value
  | ask r next ih => exact ⟨hx.1, fun reply ↦ ih reply (hx.2 reply)⟩

section Safe

variable {answers : σ → (r : Req) → Rep r → σ → Prop} {inv : σ → Prop} {post : α → σ → Prop}
  {s t : σ}

/-- A safe program ends a run in its postcondition or stops it in the invariant. -/
theorem Safe.of_run (hsafe : x.Safe answers inv post s) {result : Option α}
    (hrun : Run answers x s result t) :
    (∀ value, result = some value → post value t) ∧ (result = none → inv t) := by
  induction hrun with
  | done value s =>
    refine ⟨fun other hvalue ↦ ?_, fun hnone ↦ (nomatch hnone)⟩
    rw [← Option.some.inj hvalue]
    exact hsafe
  | stop r next s => exact ⟨fun other hvalue ↦ (nomatch hvalue), fun _ ↦ hsafe.1⟩
  | ask hanswer _ ih => exact ih (hsafe.2 _ _ hanswer)

theorem Safe.mono {post' : α → σ → Prop} (hsafe : x.Safe answers inv post s)
    (hpost : ∀ value s, post value s → post' value s) : x.Safe answers inv post' s := by
  induction x generalizing s with
  | done value => exact hpost value s hsafe
  | ask r next ih => exact ⟨hsafe.1, fun reply t hanswer ↦ ih reply (hsafe.2 reply t hanswer)⟩

theorem Safe.bind {post : β → σ → Prop} {f : α → Program Req Rep β}
    (hsafe : x.Safe answers inv (fun value s ↦ (f value).Safe answers inv post s) s) :
    (x.bind f).Safe answers inv post s := by
  induction x generalizing s with
  | done value => exact hsafe
  | ask r next ih => exact ⟨hsafe.1, fun reply t hanswer ↦ ih reply (hsafe.2 reply t hanswer)⟩

/-- A program keeps what each of its requests keeps. -/
theorem Safe.of_uses {keeps : σ → Prop} (huses : x.Uses allowed) (hinv : ∀ s, keeps s → inv s)
    (hkeeps : ∀ s r reply t, allowed r → keeps s → answers s r reply t → keeps t) (hs : keeps s) :
    x.Safe answers inv (fun _ ↦ keeps) s := by
  induction x generalizing s with
  | done value => exact hs
  | ask r next ih =>
    exact ⟨hinv s hs, fun reply t hanswer ↦
      ih reply (huses.2 reply) (hkeeps s r reply t huses.1 hs hanswer)⟩

end Safe

end Program

/-- A program with a local state that can stop with a fault. -/
def Flow (Req : Type) (Rep : Req → Type) (ε τ α : Type) : Type :=
  τ → Program Req Rep (Except ε α × τ)

namespace Flow

variable {Req : Type} {Rep : Req → Type} {ε τ α β σ : Type}

/-- What follows a part of a flow: nothing after a fault. -/
def after (f : α → Flow Req Rep ε τ β) : Except ε α × τ → Program Req Rep (Except ε β × τ)
  | (.ok value, own) => f value own
  | (.error fault, own) => .done (.error fault, own)

instance : Monad (Flow Req Rep ε τ) where
  pure value := fun own ↦ .done (.ok value, own)
  bind x f := fun own ↦ (x own).bind (after f)

def fail (fault : ε) : Flow Req Rep ε τ α :=
  fun own ↦ .done (.error fault, own)

/-- A result as a flow. -/
def ofExcept (result : Except ε α) : Flow Req Rep ε τ α :=
  fun own ↦ .done (result, own)

/-- The flow of one request. -/
def request (r : Req) : Flow Req Rep ε τ (Rep r) :=
  fun own ↦ .ask r fun reply ↦ .done (.ok reply, own)

/-- A part whose value is a result, with the fault that its error becomes. -/
def attempt {η : Type} (fault : η → ε) (x : Flow Req Rep ε τ (Except η α)) : Flow Req Rep ε τ α :=
  x >>= fun result ↦ ofExcept (result.mapError fault)

/-- The flow with another fault in the place of each of its own. -/
def mapFault {η : Type} (f : ε → η) (x : Flow Req Rep ε τ α) : Flow Req Rep η τ α :=
  fun own ↦ (x own).bind fun (result, own) ↦ .done (result.mapError f, own)

/-- The flow stops unless the condition holds. -/
def require (condition : Prop) [Decidable condition] (fault : ε) : Flow Req Rep ε τ Unit :=
  if condition then pure () else fail fault

/-- The local state. -/
def getOwn : Flow Req Rep ε τ τ :=
  fun own ↦ .done (.ok own, own)

/-- A change of the local state. -/
def change (f : τ → τ) : Flow Req Rep ε τ Unit :=
  fun own ↦ .done (.ok (), f own)

/-- Every request of the flow is allowed. -/
def Uses (allowed : Req → Prop) (x : Flow Req Rep ε τ α) : Prop :=
  ∀ own, (x own).Uses allowed

/-- The invariant holds at every request of the flow, `ok` where it ends with a value and `bad`
where it stops with a fault. -/
def Safe (answers : σ → (r : Req) → Rep r → σ → Prop) (inv : σ → Prop) (ok : α → τ → σ → Prop)
    (bad : ε → τ → σ → Prop) (x : Flow Req Rep ε τ α) (own : τ) (s : σ) : Prop :=
  (x own).Safe answers inv (fun result s ↦
    match result with
    | (.ok value, own) => ok value own s
    | (.error fault, own) => bad fault own s) s

section Uses

variable {allowed : Req → Prop}

theorem Uses.pure (value : α) : Uses allowed (pure value : Flow Req Rep ε τ α) :=
  fun _ ↦ trivial

theorem Uses.fail (fault : ε) : Uses allowed (fail fault : Flow Req Rep ε τ α) :=
  fun _ ↦ trivial

theorem Uses.ofExcept (result : Except ε α) : Uses allowed (ofExcept result : Flow Req Rep ε τ α) :=
  fun _ ↦ trivial

theorem Uses.request {r : Req} (hallowed : allowed r) :
    Uses allowed (request r : Flow Req Rep ε τ (Rep r)) :=
  fun _ ↦ ⟨hallowed, fun _ ↦ trivial⟩

theorem Uses.require (condition : Prop) [Decidable condition] (fault : ε) :
    Uses allowed (require condition fault : Flow Req Rep ε τ Unit) := by
  unfold Flow.require
  split_ifs
  · exact Uses.pure ()
  · exact Uses.fail fault

theorem Uses.bind {x : Flow Req Rep ε τ α} {f : α → Flow Req Rep ε τ β} (hx : x.Uses allowed)
    (hf : ∀ value, (f value).Uses allowed) : (x >>= f).Uses allowed := by
  refine fun own ↦ Program.Uses.bind (hx own) ?_
  rintro ⟨result, own⟩
  cases result with
  | ok value => exact hf value own
  | error fault => trivial

theorem Uses.getOwn : Uses allowed (getOwn : Flow Req Rep ε τ τ) :=
  fun _ ↦ trivial

theorem Uses.change (f : τ → τ) : Uses allowed (change f : Flow Req Rep ε τ Unit) :=
  fun _ ↦ trivial

theorem Uses.mono {more : Req → Prop} {x : Flow Req Rep ε τ α} (hx : x.Uses allowed)
    (hmore : ∀ r, allowed r → more r) : x.Uses more :=
  fun own ↦ (hx own).mono hmore

theorem Uses.attempt {η : Type} {fault : η → ε} {x : Flow Req Rep ε τ (Except η α)}
    (hx : x.Uses allowed) : (attempt fault x).Uses allowed :=
  hx.bind fun _ ↦ Uses.ofExcept _

end Uses

section Safe

variable {answers : σ → (r : Req) → Rep r → σ → Prop} {inv : σ → Prop} {ok : α → τ → σ → Prop}
  {bad : ε → τ → σ → Prop} {own : τ} {s : σ}

theorem Safe.pure {value : α} (hok : ok value own s) :
    Safe answers inv ok bad (pure value : Flow Req Rep ε τ α) own s :=
  hok

variable {fault : ε}

theorem Safe.fail (hbad : bad fault own s) :
    Safe answers inv ok bad (fail fault : Flow Req Rep ε τ α) own s :=
  hbad

theorem Safe.getOwn {ok : τ → τ → σ → Prop} (hok : ok own own s) :
    Safe answers inv ok bad (getOwn : Flow Req Rep ε τ τ) own s :=
  hok

theorem Safe.change {ok : Unit → τ → σ → Prop} {f : τ → τ} (hok : ok () (f own) s) :
    Safe answers inv ok bad (change f : Flow Req Rep ε τ Unit) own s :=
  hok

theorem Safe.request {r : Req} {ok : Rep r → τ → σ → Prop} (hinv : inv s)
    (hok : ∀ reply t, answers s r reply t → ok reply own t) :
    Safe answers inv ok bad (request r : Flow Req Rep ε τ (Rep r)) own s :=
  ⟨hinv, hok⟩

variable {x : Flow Req Rep ε τ α}

theorem Safe.bind {ok : β → τ → σ → Prop} {f : α → Flow Req Rep ε τ β}
    (hx : x.Safe answers inv (fun value own s ↦ (f value).Safe answers inv ok bad own s) bad own
      s) : (x >>= f).Safe answers inv ok bad own s := by
  refine Program.Safe.bind (Program.Safe.mono hx ?_)
  rintro ⟨result, own⟩ s hresult
  cases result with
  | ok value => exact hresult
  | error fault => exact hresult

theorem Safe.mono {ok' : α → τ → σ → Prop} {bad' : ε → τ → σ → Prop}
    (hx : x.Safe answers inv ok bad own s) (hok : ∀ value own s, ok value own s → ok' value own s)
    (hbad : ∀ fault own s, bad fault own s → bad' fault own s) :
    x.Safe answers inv ok' bad' own s := by
  refine Program.Safe.mono hx ?_
  rintro ⟨result, own⟩ s hresult
  cases result with
  | ok value => exact hok value own s hresult
  | error fault => exact hbad fault own s hresult

theorem Safe.ofExcept {result : Except ε α} (hok : ∀ value, result = .ok value → ok value own s)
    (hbad : ∀ fault, result = .error fault → bad fault own s) :
    Safe answers inv ok bad (ofExcept result : Flow Req Rep ε τ α) own s := by
  cases result with
  | ok value => exact hok value rfl
  | error fault => exact hbad fault rfl

theorem Safe.mapFault {η : Type} {f : ε → η} {bad : η → τ → σ → Prop}
    (hx : x.Safe answers inv ok (fun fault ↦ bad (f fault)) own s) :
    (mapFault f x).Safe answers inv ok bad own s := by
  refine Program.Safe.bind (Program.Safe.mono hx ?_)
  rintro ⟨result, own⟩ s hresult
  cases result with
  | ok value => exact hresult
  | error fault => exact hresult

/-- A flow keeps what each of its requests keeps. -/
theorem Safe.of_uses {allowed : Req → Prop} {keeps : σ → Prop} (huses : x.Uses allowed)
    (hinv : ∀ s, keeps s → inv s)
    (hkeeps : ∀ s r reply t, allowed r → keeps s → answers s r reply t → keeps t) (hs : keeps s) :
    x.Safe answers inv (fun _ _ ↦ keeps) (fun _ _ ↦ keeps) own s := by
  refine Program.Safe.mono (Program.Safe.of_uses (huses own) hinv hkeeps hs) ?_
  rintro ⟨result, own⟩ s hs
  cases result with
  | ok value => exact hs
  | error fault => exact hs

theorem Safe.require {ok : Unit → τ → σ → Prop} {condition : Prop} [Decidable condition]
    (hok : condition → ok () own s) (hbad : ¬ condition → bad fault own s) :
    Safe answers inv ok bad (require condition fault : Flow Req Rep ε τ Unit) own s := by
  unfold Flow.require
  split_ifs with hcondition
  · exact hok hcondition
  · exact hbad hcondition

end Safe

end Flow

end ObsMcp.Foundations
