import ObsMcp.Stage.Machine

/-!
# What stands behind a transition

`live` is the token of an identifier as a trace shows it: published by a stage call, gone when a
take found it or a later stage call got as far as the connection. An `Authority` is what stands
behind a transition that is handed over, and a `Mint` what stands behind a published token.

A world is `Good` when every token of the machine is live in its trace and every event of the trace
has what it needs behind it. `safe_stage` and `safe_take` say that the two workflows keep it at
every request, and `good_of_reachable` that every reachable world is good.
-/

namespace ObsMcp.Stage

open Foundations Receipts List

open Foundations.Flow (Safe Uses)

/-! ### Reading a trace -/

/-- The call under way. -/
def callOf : List Event → Option Call
  | [] => none
  | .called call :: _ => some call
  | _ :: trace => callOf trace

/-- The identifiers that the stage calls were given. -/
def stageIds : List Event → List String
  | [] => []
  | .called (.stage _ stageId _) :: trace => stageId :: stageIds trace
  | _ :: trace => stageIds trace

/-- The event publishes a token of the identifier. -/
def Event.Publishes (stageId : String) : Event → Prop
  | .asked (.publish id _) _ => id = stageId
  | _ => False

/-- The event ends the token of the identifier: a take found it, or a stage call cleared the
table. -/
def Event.Spends (stageId : String) : Event → Prop
  | .asked (.clear _) _ => True
  | .asked (.consume id _) reply => id = stageId ∧ reply.isSome
  | _ => False

instance (stageId : String) (event : Event) : Decidable (event.Publishes stageId) := by
  unfold Event.Publishes
  split <;> infer_instance

instance (stageId : String) (event : Event) : Decidable (event.Spends stageId) := by
  unfold Event.Spends
  split <;> infer_instance

/-- The token of an identifier as the trace shows it. -/
def live (stageId : String) : List Event → Option Staged
  | [] => none
  | .asked (.publish id entry) _ :: trace => if id = stageId then some entry else live stageId trace
  | .asked (.clear _) _ :: _ => none
  | .asked (.consume id _) reply :: trace =>
    if id = stageId ∧ reply.isSome then none else live stageId trace
  | _ :: trace => live stageId trace

/-- A request that neither touches the tokens nor hands over a mutation. -/
def Request.Quiet : Request → Prop
  | .clear _ | .publish _ _ | .consume _ _ | .mutate _ _ _ => False
  | _ => True

/-- An event that starts no call, touches no token and hands over no transition. -/
def Event.Quiet : Event → Prop
  | .called _ => False
  | .handed mutation _ _ _ => mutation ≠ .transition
  | .asked (.clear _) _ | .asked (.publish _ _) _ | .asked (.consume _ _) _ => False
  | .asked _ _ => True

/-! ### What stands behind a transition -/

/-- The receipt update of a mutation about to be sent. -/
def dispatchingUpdate : OperationUpdate := ⟨.dispatching, some none, none, none⟩

/-- The evidence for a transition: its take call and the token it found, the inspection and the
clock reading after it, the receipt before and after it was moved to dispatching, and how these lie
in the trace. -/
structure Authority where
  stageId : String
  operationId : String
  entry : Staged
  now : ℕ
  inspection : Inspection
  time : ClockTime
  prepared : OperationReceipt
  receipt : OperationReceipt
  preparedAt : String
  dispatchedAt : String
  since : List Event
  opening : List Event
  past : List Event

/-- The events of the take call before it found the token, and of everything earlier. -/
def Authority.before (a : Authority) : List Event :=
  a.opening ++ .called (.take a.stageId a.operationId) :: a.past

/-- The evidence holds of the trace before a transition, handed over for a generation and revision
with the given receipts stored. -/
structure Authority.Holds (a : Authority) (earlier : List Event) (generation revision : ℕ)
    (store : BackendStore) : Prop where
  trace : earlier = a.since ++ .asked (.consume a.stageId a.now) (some a.entry) :: a.before
  quiet : ∀ event ∈ a.since, event.Quiet
  opening_quiet : ∀ event ∈ a.opening, event.Quiet
  token : live a.stageId a.before = some a.entry
  order : [.asked (.update a.prepared dispatchingUpdate a.dispatchedAt) (.ok a.receipt),
    .asked (.prepare a.operationId .takeScene a.inspection.generation a.preparedAt
      ⟨some a.entry.target.sceneCollection, some a.inspection.intended.sceneUuid, some a.stageId,
        none⟩) (.ok a.prepared),
    .asked .clock a.time, .asked (.inspected a.inspection) ()].Sublist a.since
  fresh : Fresh a.entry a.inspection a.time
  generation_eq : generation = a.entry.generation
  revision_eq : revision = a.inspection.revision
  stored : store.file a.operationId = some ⟨a.operationId, some (.v1 a.receipt)⟩
  kind : a.receipt.1.kind = .takeScene
  phase : a.receipt.1.phase = .dispatching
  stage : a.receipt.1.stageId = some a.stageId

def Authorised (earlier : List Event) (generation revision : ℕ) (store : BackendStore) : Prop :=
  ∃ a : Authority, a.Holds earlier generation revision store

/-- The evidence for a published token: its stage call, the two inspections, the clock reading that
its expiry is counted from, and how these lie in the trace. -/
structure Mint where
  target : Target
  operationId : String
  endpoint : String
  first : Inspection
  second : Inspection
  time : ClockTime
  since : List Event
  opening : List Event
  past : List Event

structure Mint.Holds (m : Mint) (earlier : List Event) (stageId : String) (entry : Staged) :
    Prop where
  trace : earlier = m.since ++ .asked (.clear m.endpoint) () ::
    (m.opening ++ .called (.stage m.target stageId m.operationId) :: m.past)
  quiet : ∀ event ∈ m.since, event.Quiet
  opening_quiet : ∀ event ∈ m.opening, event.Quiet
  order : [.asked .clock m.time, .asked (.inspected m.second) (),
    .asked (.inspected m.first) ()].Sublist m.since
  unchanged : Unchanged m.first m.second
  entry_eq : entry = stagedEntry m.target m.second (m.time.epochMs + STAGE_TTL_MS)

def Minted (earlier : List Event) (stageId : String) (entry : Staged) : Prop :=
  ∃ m : Mint, m.Holds earlier stageId entry

/-- What an event needs behind it. -/
def Event.Justified (earlier : List Event) : Event → Prop
  | .handed .transition generation revision store => Authorised earlier generation revision store
  | .asked (.publish stageId entry) _ => Minted earlier stageId entry
  | _ => True

/-- Every event of a trace has what it needs behind it. -/
def Justified : List Event → Prop
  | [] => True
  | event :: earlier => event.Justified earlier ∧ Justified earlier

/-- The tokens of the machine are live in the trace, and the trace is justified. -/
structure Good (world : World) : Prop where
  consistent : ∀ member ∈ world.tokens, live member.1 world.trace = some member.2
  justified : Justified world.trace

section Trace

variable {stageId : String} {event : Event} {trace since : List Event}

theorem live_of_quiet (hquiet : event.Quiet) :
    live stageId (event :: trace) = live stageId trace := by
  cases event with
  | called call => rfl
  | handed mutation generation revision store => rfl
  | asked request reply => cases request <;> first | rfl | exact hquiet.elim

theorem justified_of_quiet (hquiet : event.Quiet) : event.Justified trace := by
  cases event with
  | called call => trivial
  | handed mutation generation revision store =>
    cases mutation with
    | setPreview sceneUuid => trivial
    | transition => exact absurd rfl hquiet
  | asked request reply => cases request <;> first | exact hquiet.elim | trivial

theorem not_publishes_of_quiet (hquiet : event.Quiet) : ¬ event.Publishes stageId := by
  cases event with
  | called call => exact id
  | handed mutation generation revision store => exact id
  | asked request reply => cases request <;> first | exact id | exact hquiet.elim

theorem callOf_append_of_quiet (hquiet : ∀ event ∈ since, event.Quiet) :
    callOf (since ++ trace) = callOf trace := by
  induction since with
  | nil => rfl
  | cons event since ih =>
    rw [forall_mem_cons] at hquiet
    rw [cons_append, ← ih hquiet.2]
    cases event with
    | called call => exact hquiet.1.elim
    | handed | asked => rfl

variable {earlier : List Event}

theorem Justified.of_append (hjustified : Justified (since ++ earlier)) : Justified earlier := by
  induction since with
  | nil => exact hjustified
  | cons event since ih => exact ih hjustified.2

variable {entry : Staged}

/-- A live token is that of a publication, or was live before an event that did not end it. -/
theorem live_cons (hlive : live stageId (event :: trace) = some entry) :
    event.Publishes stageId ∨ ¬ event.Spends stageId ∧ live stageId trace = some entry := by
  cases event with
  | called | handed => exact .inr ⟨id, hlive⟩
  | asked request reply =>
    cases request with
    | publish id published =>
      unfold live at hlive
      split_ifs at hlive with hid
      · exact .inl hid
      · exact .inr ⟨fun hspends ↦ hspends, hlive⟩
    | clear endpoint => cases hlive
    | consume id now =>
      unfold live at hlive
      split_ifs at hlive with hid
      exact .inr ⟨hid, hlive⟩
    | _ => exact .inr ⟨fun hspends ↦ hspends, hlive⟩

/-- A live token was published. -/
theorem exists_publish_of_live (hlive : live stageId trace = some entry) :
    ∃ event ∈ trace, event.Publishes stageId := by
  induction trace with
  | nil => cases hlive
  | cons event trace ih =>
    obtain hpublishes | ⟨-, hlive⟩ := live_cons hlive
    · exact ⟨event, mem_cons_self, hpublishes⟩
    · obtain ⟨other, hmem, hpublishes⟩ := ih hlive
      exact ⟨other, mem_cons_of_mem _ hmem, hpublishes⟩

/-- A live token was published after whatever ended an earlier one. -/
theorem exists_publish_of_spent {spender : Event} (hspends : spender.Spends stageId)
    (hlive : live stageId (trace ++ spender :: earlier) = some entry) :
    ∃ event ∈ trace, event.Publishes stageId := by
  induction trace with
  | nil =>
    obtain hpublishes | ⟨hnot, -⟩ := live_cons hlive
    · cases spender with
      | called | handed => exact hspends.elim
      | asked request reply => cases request <;> first | exact hspends.elim | exact hpublishes.elim
    · exact absurd hspends hnot
  | cons event trace ih =>
    obtain hpublishes | ⟨-, hlive⟩ := live_cons hlive
    · exact ⟨event, mem_cons_self, hpublishes⟩
    · obtain ⟨other, hmem, hpublishes⟩ := ih hlive
      exact ⟨other, mem_cons_of_mem _ hmem, hpublishes⟩

end Trace

/-! ### Steps -/

section Steps

variable {hash : String → String} {world next : World} {request : Request} {reply : request.Reply}
  {base marks : List Event}

/-- A quiet request only adds to the trace, and may change the receipts. -/
theorem answers_quiet (hquiet : request.Quiet) (hanswer : world.answers hash request reply next) :
    next.tokens = world.tokens ∧ next.trace = .asked request reply :: world.trace := by
  cases request with
  | clear | publish | consume | mutate => exact hquiet.elim
  | prepare =>
    obtain ⟨error, -, rfl⟩ | ⟨publish, -, hnext⟩ := hanswer
    · exact ⟨rfl, rfl⟩
    · rw [hnext]
      exact ⟨rfl, rfl⟩
  | update =>
    obtain ⟨error, -, rfl⟩ | ⟨read, publish, -, hnext⟩ := hanswer
    · exact ⟨rfl, rfl⟩
    · rw [hnext]
      exact ⟨rfl, rfl⟩
  | endpoint =>
    obtain ⟨-, rfl⟩ := hanswer
    exact ⟨rfl, rfl⟩
  | _ =>
    obtain ⟨store, rfl⟩ := hanswer
    exact ⟨rfl, rfl⟩

theorem quiet_asked (hquiet : request.Quiet) : (Event.asked request reply).Quiet := by
  cases request <;> first | exact hquiet | trivial

/-- The world is good, and since a given trace only quiet events happened, the marks among them. -/
structure Follows (base marks : List Event) (world : World) : Prop where
  good : Good world
  since : ∃ since, world.trace = since ++ base ∧ (∀ event ∈ since, event.Quiet) ∧
    marks.Sublist since

theorem Follows.refl (hgood : Good world) : Follows world.trace [] world :=
  ⟨hgood, [], rfl, by simp, List.Sublist.refl _⟩

theorem Follows.forget {fewer : List Event} (hfollows : Follows base marks world)
    (hfewer : fewer.Sublist marks) : Follows base fewer world := by
  obtain ⟨hgood, since, htrace, hquiet, hmarks⟩ := hfollows
  exact ⟨hgood, since, htrace, hquiet, hfewer.trans hmarks⟩

variable {event : Event}

theorem Good.add (hgood : Good world) (hquiet : event.Quiet) (htokens : next.tokens = world.tokens)
    (htrace : next.trace = event :: world.trace) : Good next := by
  constructor
  · intro member hmem
    rw [htrace, live_of_quiet hquiet]
    exact hgood.consistent member (htokens ▸ hmem)
  · rw [htrace]
    exact ⟨justified_of_quiet hquiet, hgood.justified⟩

theorem Follows.add (hfollows : Follows base marks world) (hquiet : event.Quiet)
    (htokens : next.tokens = world.tokens) (htrace : next.trace = event :: world.trace) :
    Follows base (event :: marks) next := by
  obtain ⟨hgood, since, hsince, hall, hmarks⟩ := hfollows
  refine ⟨hgood.add hquiet htokens htrace, event :: since, by rw [htrace, hsince]; rfl, ?_,
    hmarks.cons_cons event⟩
  exact forall_mem_cons.mpr ⟨hquiet, hall⟩

/-- A quiet request is marked. -/
theorem Follows.quiet (hfollows : Follows base marks world) (hquiet : request.Quiet)
    (hanswer : world.answers hash request reply next) :
    Follows base (.asked request reply :: marks) next := by
  obtain ⟨htokens, htrace⟩ := answers_quiet hquiet hanswer
  exact hfollows.add (quiet_asked hquiet) htokens htrace

/-- A preview mutation leaves the marks. -/
theorem Follows.setPreview {sceneUuid : String} {generation revision : ℕ}
    {reply : Except MutationError Unit} (hfollows : Follows base marks world)
    (hanswer : world.answers hash (.mutate (.setPreview sceneUuid) generation revision) reply
      next) : Follows base marks next := by
  obtain ⟨store, rfl⟩ := hanswer
  have hhanded : Follows base (.handed (.setPreview sceneUuid) generation revision world.store ::
      marks) { world with
        trace := .handed (.setPreview sceneUuid) generation revision world.store ::
          world.trace } :=
    hfollows.add (by simp [Event.Quiet]) rfl rfl
  have hasked : Follows base (.asked (.mutate (.setPreview sceneUuid) generation revision) reply ::
      .handed (.setPreview sceneUuid) generation revision world.store :: marks) { world with
        store := store
        trace := .asked (.mutate (.setPreview sceneUuid) generation revision) reply ::
          .handed (.setPreview sceneUuid) generation revision world.store :: world.trace } :=
    hhanded.add (by simp [Event.Quiet]) rfl rfl
  exact hasked.forget ((sublist_cons_self _ _).trans (sublist_cons_self _ _))

end Steps

/-! ### Quiet flows -/

section Quiet

theorem uses_checkDeadline : checkDeadline.Uses Request.Quiet :=
  (Uses.request trivial).bind fun _ ↦ Uses.require _ _

theorem uses_checkCancelled : checkCancelled.Uses Request.Quiet :=
  (Uses.request trivial).bind fun _ ↦ Uses.require _ _

theorem uses_checkConnected (generation : ℕ) (message : String) :
    (checkConnected generation message).Uses Request.Quiet :=
  (Uses.request trivial).bind fun _ ↦ Uses.require _ _

theorem uses_readObject (request : ReadRequest) (data : Json) :
    (readObject request data).Uses Request.Quiet :=
  (Uses.request trivial).attempt

theorem uses_prepare (operationId stageId : String) (kind : OperationKind) (target : Target)
    (inspection : Inspection) :
    (prepare operationId stageId kind target inspection).Uses Request.Quiet :=
  (Uses.request trivial).bind fun _ ↦ (Uses.request trivial).attempt.bind fun _ ↦
    Uses.change _

theorem uses_update (change : OperationUpdate) : (update change).Uses Request.Quiet := by
  refine Uses.getOwn.bind fun tracking ↦ ?_
  cases tracking.receipt with
  | none => exact Uses.fail _
  | some receipt =>
    exact (Uses.request trivial).bind fun _ ↦
      (Uses.request trivial).attempt.bind fun _ ↦ Uses.change _

theorem uses_settle (outcome : Except MutationError Unit) :
    (settle outcome).Uses Request.Quiet := by
  cases outcome with
  | ok _ => exact (Uses.change _).bind fun _ ↦ uses_update _
  | error error =>
    cases error with
    | unknown error => exact Uses.fail _
    | _ => exact (Uses.change _).bind fun _ ↦ Uses.fail _

theorem uses_screenshotImage (response : Json) (maximum : ℕ) :
    (screenshotImage response maximum).Uses Request.Quiet := by
  unfold screenshotImage
  split
  · exact Uses.fail _
  split
  · exact Uses.fail _
  dsimp only
  split
  · exact Uses.fail _
  · exact (Uses.require _ _).bind fun _ ↦ (Uses.require _ _).bind fun _ ↦
      (Uses.require _ _).bind fun _ ↦ Uses.pure _

theorem uses_validateContext (context : Context) : context.validate.Uses Request.Quiet :=
  (Uses.require _ _).bind fun _ ↦ Uses.require _ _

theorem quiet_of_reads (request : Request) (hreads : request.Reads) : request.Quiet := by
  cases request <;> trivial

theorem uses_verify (operationId : String) (entry : Staged) (verificationEnd turns : ℕ) :
    (verify operationId entry verificationEnd turns).Uses Request.Quiet := by
  induction turns with
  | zero => exact (Uses.request trivial).bind fun never ↦ nomatch never
  | succ turns ih =>
    refine uses_checkCancelled.bind fun _ ↦ uses_checkDeadline.bind fun _ ↦
      (Uses.request trivial).bind fun _ ↦ (Uses.request trivial).bind fun _ ↦
      (Uses.require _ _).bind fun _ ↦ (uses_checkConnected _ _).bind fun _ ↦
      (uses_readObject _ _).bind fun _ ↦ (uses_readObject _ _).bind fun _ ↦
      (Uses.require _ _).bind fun _ ↦ ?_
    split_ifs
    · exact (uses_readObject _ _).bind fun _ ↦ (Uses.require _ _).bind fun _ ↦
        (uses_checkConnected _ _).bind fun _ ↦ (uses_update _).bind fun _ ↦
        (Uses.request trivial).bind fun _ ↦ Uses.pure _
    · exact (Uses.request trivial).bind fun _ ↦ ih

end Quiet

/-! ### The workflows keep the trace justified -/

section Safe

variable {hash : String → String} {codec : Codec} {world : World} {own : Tracking} {α β : Type}
  {base marks : List Event} {stageId operationId : String}

/-- Every way a workflow fails leaves a good world. -/
def Spoils (_ : Fault) (_ : Tracking) (world : World) : Prop := Good world

variable {x : Work α} {target : Target} {generation now : ℕ} {receipt : OperationReceipt}
  {entry : Staged} {past : List Event} {context : Context}

theorem safe_quiet (huses : x.Uses Request.Quiet) (hfollows : Follows base marks world) :
    x.Safe (World.answers hash) Good (fun _ _ ↦ Follows base marks) Spoils own world := by
  refine (Safe.of_uses huses (fun _ h ↦ h.good) ?_ hfollows).mono (fun _ _ _ h ↦ h)
    fun _ _ _ h ↦ h.good
  intro s r reply t hquiet hs hanswer
  exact (hs.quiet hquiet hanswer).forget (sublist_cons_self _ _)

/-- A quiet part before the rest of a workflow. -/
theorem safe_quiet_bind {ok : β → Tracking → World → Prop} {f : α → Work β}
    (huses : x.Uses Request.Quiet) (hfollows : Follows base marks world)
    (hrest : ∀ value own world, Follows base marks world →
      (f value).Safe (World.answers hash) Good ok Spoils own world) :
    (x >>= f).Safe (World.answers hash) Good ok Spoils own world :=
  Safe.bind ((safe_quiet huses hfollows).mono hrest fun _ _ _ h ↦ h)

/-- A quiet request before the rest of a workflow, marked with its reply. -/
theorem safe_marked_bind {ok : β → Tracking → World → Prop} {request : Request}
    {f : request.Reply → Work β} (hquiet : request.Quiet) (hfollows : Follows base marks world)
    (hrest : ∀ reply next, world.answers hash request reply next →
      Follows base (.asked request reply :: marks) next →
      (f reply).Safe (World.answers hash) Good ok Spoils own next) :
    (Flow.request request >>= f : Work β).Safe (World.answers hash) Good ok Spoils own world :=
  Safe.bind (Safe.request hfollows.good fun reply next hanswer ↦
    hrest reply next hanswer (hfollows.quiet hquiet hanswer))

/-- The rest of a workflow that no longer matters. -/
theorem safe_rest (huses : x.Uses Request.Quiet) (hgood : Good world) :
    x.Safe (World.answers hash) Good (fun _ _ ↦ Good) Spoils own world :=
  (safe_quiet huses (.refl hgood)).mono (fun _ _ _ h ↦ h.good) fun _ _ _ h ↦ h

theorem safe_orRefuse {ok : α → Tracking → World → Prop} {value : Option α}
    {reason message : String} (hok : ∀ found, value = some found → ok found own world)
    (hgood : Good world) :
    (orRefuse value reason message).Safe (World.answers hash) Good ok Spoils own world := by
  cases value with
  | none => exact hgood
  | some found => exact hok found rfl

theorem safe_inspect (hfollows : Follows base marks world) :
    (inspect codec target).Safe (World.answers hash) Good
      (fun inspection _ ↦ Follows base (.asked (.inspected inspection) () :: marks)) Spoils own
      world := by
  refine safe_quiet_bind (Uses.request trivial).attempt hfollows fun _ _ _ hfollows ↦ ?_
  refine safe_quiet_bind (Uses.request trivial).attempt hfollows fun _ _ _ hfollows ↦ ?_
  refine safe_quiet_bind ((uses_inspectSample _ _ _ _).mono quiet_of_reads) hfollows
    fun inspection _ _ hfollows ↦ ?_
  exact safe_marked_bind trivial hfollows fun _ _ _ hfollows ↦ Safe.pure hfollows

variable {kind : OperationKind} {store : BackendStore} {utc : String} {inspection : Inspection}
  {change : OperationUpdate} {revision turns : ℕ} {opening : List Event}

theorem receipt_of_prepare {next : BackendStore} {details : PrepareDetails} {publish : Publish}
    (hprepare : store.prepare hash operationId kind generation utc details publish =
      (.ok receipt, next)) :
    receipt.1.kind = kind ∧ receipt.1.stageId = details.stageId ∧
      receipt.1.operationId = operationId := by
  unfold BackendStore.prepare at hprepare
  split_ifs at hprepare with huuid htime
  · cases congrArg Prod.fst hprepare
  · cases congrArg Prod.fst hprepare
  · obtain ⟨error, -, -, hpublish⟩ | ⟨new, hchecked, -, hpublish | hpublish⟩ :=
      store.publishNew_cases operationId .v1 publish fun error ↦ checkedBy_eq_error
    · cases congrArg Prod.fst (hpublish.symm.trans hprepare)
    · obtain rfl : new = receipt :=
        Except.ok.inj (congrArg Prod.fst (hpublish.symm.trans hprepare))
      rw [← checkedBy_eq_ok.mp hchecked]
      exact ⟨rfl, rfl, rfl⟩
    · cases congrArg Prod.fst (hpublish.symm.trans hprepare)

/-- A prepared receipt has the kind, the stage and the operation it was prepared for. -/
theorem safe_prepare (hfollows : Follows base marks world) :
    (prepare operationId stageId kind target inspection).Safe (World.answers hash) Good
      (fun _ own next ↦ ∃ receipt utc, own.receipt = some receipt ∧ receipt.1.kind = kind ∧
        receipt.1.stageId = some stageId ∧ receipt.1.operationId = operationId ∧
        Follows base (.asked (.prepare operationId kind inspection.generation utc
          ⟨some target.sceneCollection, some inspection.intended.sceneUuid, some stageId, none⟩)
          (.ok receipt) :: marks) next) Spoils own world := by
  refine safe_quiet_bind (Uses.request trivial) hfollows fun time own world hfollows ↦ ?_
  refine Safe.bind ?_
  refine safe_marked_bind trivial hfollows fun reply next hanswer hfollows ↦ ?_
  refine Safe.ofExcept (fun receipt hreceipt ↦ ?_) fun _ _ ↦ hfollows.good
  cases reply with
  | error error => cases hreceipt
  | ok prepared =>
    obtain rfl : prepared = receipt := Except.ok.inj hreceipt
    have hfacts : prepared.1.kind = kind ∧ prepared.1.stageId = some stageId ∧
        prepared.1.operationId = operationId := by
      obtain ⟨error, herror, -⟩ | ⟨publish, hprepare, -⟩ := hanswer
      · cases herror
      · exact receipt_of_prepare hprepare
    exact Safe.change ⟨prepared, time.utc, rfl, hfacts.1, hfacts.2.1, hfacts.2.2, hfollows⟩

theorem receipt_of_update {next : BackendStore} {updated : OperationReceipt} {read : Option IoError}
    {publish : Publish}
    (hupdate : store.update receipt change utc read publish = (.ok updated, next)) :
    updated.1 = receipt.1.apply change utc ∧
      next.file receipt.1.operationId = some ⟨receipt.1.operationId, some (.v1 updated)⟩ := by
  obtain ⟨error, hpublish⟩ | ⟨new, hchecked, -, hpublish | hpublish⟩ :=
    store.update_cases receipt change utc read publish
  · cases congrArg Prod.fst (hpublish.symm.trans hupdate)
  · have hresult := hpublish.symm.trans hupdate
    obtain rfl : new = updated := Except.ok.inj (congrArg Prod.fst hresult)
    have happly := (checkedBy_eq_ok.mp hchecked).symm
    have hid : new.1.operationId = receipt.1.operationId := by
      rw [happly]
      rfl
    refine ⟨happly, ?_⟩
    have hnext : store.write new.1.operationId (.v1 new) = next := congrArg Prod.snd hresult
    rw [← hnext, ← hid]
    exact BackendStore.file_write_self _ _ _
  · cases congrArg Prod.fst (hpublish.symm.trans hupdate)

/-- An updated receipt is the stored one. -/
theorem safe_update (hreceipt : own.receipt = some receipt) (hfollows : Follows base marks world) :
    (update change).Safe (World.answers hash) Good
      (fun _ own next ↦ ∃ updated utc, own.receipt = some updated ∧
        updated.1 = receipt.1.apply change utc ∧
        next.store.file receipt.1.operationId =
          some ⟨receipt.1.operationId, some (.v1 updated)⟩ ∧
        Follows base (.asked (.update receipt change utc) (.ok updated) :: marks) next)
      Spoils own world := by
  refine Safe.bind (Safe.getOwn ?_)
  rw [hreceipt]
  refine safe_marked_bind trivial hfollows fun time _ _ hclock ↦ ?_
  refine Safe.bind ?_
  refine safe_marked_bind trivial (hclock.forget (sublist_cons_self _ _))
    fun reply next hanswer hfollows ↦ ?_
  refine Safe.ofExcept (fun updated hupdated ↦ ?_) fun _ _ ↦ hfollows.good
  cases reply with
  | error error => cases hupdated
  | ok new =>
    obtain rfl : new = updated := Except.ok.inj hupdated
    obtain ⟨error, herror, -⟩ | ⟨read, publish, hupdate, -⟩ := hanswer
    · cases herror
    · obtain ⟨happly, hfile⟩ := receipt_of_update hupdate
      exact Safe.change ⟨new, time.utc, rfl, happly, hfile, hfollows⟩

theorem safe_checkDeadline (hfollows : Follows base marks world) :
    checkDeadline.Safe (World.answers hash) Good
      (fun _ kept next ↦ kept = own ∧ Follows base marks next) Spoils own world := by
  refine safe_marked_bind trivial hfollows fun late _ _ hlate ↦ ?_
  exact Safe.require (fun _ ↦ ⟨rfl, hlate.forget (sublist_cons_self _ _)⟩)
    fun _ ↦ hlate.good

/-- A mutation hands over what the trace before it justifies. -/
theorem safe_handed {mutation : Mutation} (hgood : Good world)
    (hjustified : (Event.handed mutation generation revision world.store).Justified world.trace)
    {reply : Except MutationError Unit} {next : World}
    (hanswer : world.answers hash (.mutate mutation generation revision) reply next) :
    Good next := by
  obtain ⟨store, rfl⟩ := hanswer
  refine ⟨fun member hmem ↦ hgood.consistent member hmem, trivial, hjustified, hgood.justified⟩

section

variable (hopening : ∀ event ∈ opening, event.Quiet)
  (hlive : live stageId (opening ++ .called (.take stageId operationId) :: past) = some entry)
include hopening hlive

/-- The transition of a take that found its token, inspected it as fresh and prepared its
receipt. -/
theorem safe_transition {time : ClockTime} {prepared : OperationReceipt} {preparedAt : String}
    (hfresh : Fresh entry inspection time) (hreceipt : own.receipt = some prepared)
    (hkind : prepared.1.kind = .takeScene) (hstage : prepared.1.stageId = some stageId)
    (hid : prepared.1.operationId = operationId)
    (hfollows : Follows (.asked (.consume stageId now) (some entry) ::
        (opening ++ .called (.take stageId operationId) :: past))
      [.asked (.prepare operationId .takeScene inspection.generation preparedAt
        ⟨some entry.target.sceneCollection, some inspection.intended.sceneUuid, some stageId,
          none⟩) (.ok prepared),
        .asked .clock time, .asked (.inspected inspection) ()] world) :
    (mutate .transition entry.generation inspection.revision).Safe (World.answers hash) Good
      (fun _ _ ↦ Good) Spoils own world := by
  refine Safe.bind ((safe_checkDeadline hfollows).mono ?_ fun _ _ _ h ↦ h)
  rintro _ own world ⟨rfl, hfollows⟩
  refine Safe.bind ((safe_update hreceipt hfollows).mono ?_ fun _ _ _ h ↦ h)
  rintro _ own world ⟨receipt, dispatchedAt, -, happly, hfile, hgood, since, htrace, hquiet,
    hmarks⟩
  rw [hid] at hfile
  refine Safe.bind (Safe.change ?_)
  refine Safe.bind (Safe.request hgood fun reply next hanswer ↦ ?_)
  refine safe_rest (uses_settle reply) (safe_handed hgood ?_ hanswer)
  refine ⟨⟨stageId, operationId, entry, now, inspection, time, prepared, receipt, preparedAt,
    dispatchedAt, since, opening, past⟩, htrace, hquiet, hopening, hlive, hmarks, hfresh, rfl, rfl,
    hfile, ?_, ?_, ?_⟩
  · rw [happly]
    exact hkind
  · rw [happly]
    rfl
  · rw [happly]
    exact hstage

/-- A take from the consumed token on. -/
theorem safe_takeEntry
    (hfollows : Follows (.asked (.consume stageId now) (some entry) ::
      (opening ++ .called (.take stageId operationId) :: past)) [] world) :
    (takeEntry codec turns stageId operationId entry).Safe (World.answers hash) Good
      (fun _ _ ↦ Good) Spoils own world := by
  refine safe_quiet_bind (uses_checkConnected _ _) hfollows fun _ _ _ hfollows ↦ ?_
  refine Safe.bind ((safe_inspect hfollows).mono ?_ fun _ _ _ h ↦ h)
  intro inspection own world hfollows
  refine safe_marked_bind trivial hfollows fun time _ _ hfollows ↦ ?_
  refine Safe.bind (Safe.require (fun hfresh ↦ ?_) fun _ ↦ hfollows.good)
  refine safe_quiet_bind uses_checkDeadline hfollows fun _ _ _ hfollows ↦ ?_
  refine safe_quiet_bind uses_checkCancelled hfollows fun _ _ _ hfollows ↦ ?_
  refine Safe.bind ((safe_prepare hfollows).mono ?_ fun _ _ _ h ↦ h)
  rintro _ own world ⟨prepared, preparedAt, hreceipt, hkind, hstage, hid, hfollows⟩
  refine Safe.bind ((safe_transition hopening hlive hfresh hreceipt hkind hstage hid
    hfollows).mono ?_ fun _ _ _ h ↦ h)
  intro _ own world hgood
  refine safe_rest ((Uses.request trivial).bind fun time ↦ ?_) hgood
  exact ((uses_orRefuse _ _ _).mono quiet_of_reads).bind fun _ ↦ uses_verify _ _ _ _

end

theorem mem_of_token {tokens : List (String × Staged)}
    (htoken : token tokens stageId = some entry) :
    (stageId, entry) ∈ tokens := by
  obtain ⟨member, hfind, rfl⟩ := Option.map_eq_some_iff.mp htoken
  have hid : member.1 = stageId := by simpa using find?_some hfind
  rw [← hid]
  exact mem_of_find?_eq_some hfind

/-- A consumed token is gone, and the others stay as they were unless they expired. -/
theorem Good.consume {reply : Option Staged} {next : World} (hgood : Good world)
    (hanswer : world.answers hash (.consume stageId now) reply next) :
    Good next ∧ next.trace = .asked (.consume stageId now) reply :: world.trace ∧
      ∀ entry, reply = some entry → live stageId world.trace = some entry := by
  obtain ⟨hreply, rfl⟩ := hanswer
  refine ⟨⟨?_, trivial, hgood.justified⟩, rfl, ?_⟩
  · intro member hmem
    obtain ⟨hmem, hne⟩ := mem_filter.mp hmem
    have hother : member.1 ≠ stageId := by simpa using hne
    have hlive := hgood.consistent member (mem_of_mem_filter hmem)
    show live member.1 (.asked (.consume stageId now) reply :: world.trace) = _
    unfold live
    rw [if_neg fun hsame ↦ hother hsame.1.symm]
    exact hlive
  · rintro entry rfl
    exact hgood.consistent _ (mem_of_mem_filter (mem_of_token hreply.symm))

theorem safe_take (hgood : Good world)
    (htrace : world.trace = .called (.take stageId operationId) :: past) :
    (take codec context turns stageId operationId).Safe (World.answers hash) Good
      (fun _ _ ↦ Good) Spoils own world := by
  refine safe_quiet_bind (uses_validateContext _) (.refl hgood) fun _ _ _ hfollows ↦ ?_
  refine safe_quiet_bind (Uses.request trivial).attempt hfollows fun _ _ _ hfollows ↦ ?_
  refine safe_quiet_bind (Uses.request trivial) hfollows fun _ _ _ hfollows ↦ ?_
  refine safe_quiet_bind (Uses.require _ _) hfollows fun _ _ _ hfollows ↦ ?_
  refine safe_quiet_bind (Uses.request trivial) hfollows fun time _ _ hfollows ↦ ?_
  obtain ⟨hgood, opening, hopened, hquiet, -⟩ := hfollows
  rw [htrace] at hopened
  refine Safe.bind (Safe.request hgood fun reply next hanswer ↦ ?_)
  obtain ⟨hgood, hnext, hlive⟩ := hgood.consume hanswer
  cases reply with
  | none => exact Safe.fail hgood
  | some entry =>
    rw [hopened] at hnext
    have hfollows := Follows.refl hgood
    rw [hnext] at hfollows
    exact safe_takeEntry hquiet (hopened ▸ hlive entry rfl) hfollows

theorem safe_setPreview {sceneUuid : String} (hfollows : Follows base marks world) :
    (mutate (.setPreview sceneUuid) generation revision).Safe (World.answers hash) Good
      (fun _ _ ↦ Follows base marks) Spoils own world := by
  refine safe_quiet_bind uses_checkDeadline hfollows fun _ _ _ hfollows ↦ ?_
  refine safe_quiet_bind (uses_update _) hfollows fun _ _ _ hfollows ↦ ?_
  refine safe_quiet_bind (Uses.change _) hfollows fun _ _ _ hfollows ↦ ?_
  refine Safe.bind (Safe.request hfollows.good fun reply next hanswer ↦ ?_)
  exact safe_quiet (uses_settle reply) (hfollows.setPreview hanswer)

/-- The second inspection is marked. -/
theorem safe_showPreview {before : Inspection} (hfollows : Follows base marks world) :
    (showPreview codec context target before).Safe (World.answers hash) Good
      (fun shown _ ↦ Follows base (.asked (.inspected shown.2) () :: marks)) Spoils own world := by
  have hrest : ∀ (_ : Unit) (own : Tracking) (world : World), Follows base marks world →
      (do
        let screenshot ← readObject .sourceScreenshot (.object [("imageFormat", .string "png"),
          ("imageWidth", .number (.posInt 960)),
          ("sourceUuid", .string before.intended.sceneUuid)])
        let image ← screenshotImage screenshot context.screenshotMaxBytes
        let after ← inspect codec target
        pure (image, after) : Work (Image × Inspection)).Safe (World.answers hash) Good
          (fun shown _ ↦ Follows base (.asked (.inspected shown.2) () :: marks)) Spoils own
          world := by
    intro _ own world hfollows
    refine safe_quiet_bind (uses_readObject _ _) hfollows fun _ _ _ hfollows ↦ ?_
    refine safe_quiet_bind (uses_screenshotImage _ _) hfollows fun _ _ _ hfollows ↦ ?_
    exact Safe.bind ((safe_inspect hfollows).mono
      (fun _ _ _ h ↦ Safe.pure h) fun _ _ _ h ↦ h)
  unfold showPreview
  split_ifs with hshown
  · exact Safe.bind ((safe_setPreview hfollows).mono hrest fun _ _ _ h ↦ h)
  · exact hrest () own world hfollows

theorem Good.clear {endpoint : String} {reply : Unit} {next : World} (hgood : Good world)
    (hanswer : world.answers hash (.clear endpoint) reply next) :
    Good next ∧ next.trace = .asked (.clear endpoint) () :: world.trace := by
  obtain rfl := hanswer
  exact ⟨⟨fun _ hmem ↦ (nomatch hmem), trivial, hgood.justified⟩, rfl⟩

theorem Good.publish {reply : Unit} {next : World} (hgood : Good world)
    (hminted : Minted world.trace stageId entry)
    (hanswer : world.answers hash (.publish stageId entry) reply next) : Good next := by
  obtain rfl := hanswer
  refine ⟨fun member hmem ↦ ?_, hminted, hgood.justified⟩
  show live member.1 (.asked (.publish stageId entry) reply :: world.trace) = _
  unfold live
  obtain rfl | hmem := mem_cons.mp hmem
  · rw [if_pos rfl]
  · obtain ⟨hmem, hne⟩ := mem_filter.mp hmem
    have hother : member.1 ≠ stageId := by simpa using hne
    rw [if_neg hother.symm]
    exact hgood.consistent member hmem

theorem safe_stage (hgood : Good world)
    (htrace : world.trace = .called (.stage target stageId operationId) :: past) :
    (stage codec context target stageId operationId).Safe (World.answers hash) Good
      (fun _ _ ↦ Good) Spoils own world := by
  refine safe_quiet_bind ((uses_validate _).mono quiet_of_reads) (.refl hgood)
    fun _ _ _ hfollows ↦ ?_
  refine safe_quiet_bind (uses_validateContext _) hfollows fun _ _ _ hfollows ↦ ?_
  refine safe_quiet_bind (Uses.request trivial).attempt hfollows fun _ _ _ hfollows ↦ ?_
  refine safe_quiet_bind (Uses.request trivial) hfollows fun _ _ _ hfollows ↦ ?_
  refine safe_quiet_bind (Uses.require _ _) hfollows fun _ _ _ hfollows ↦ ?_
  refine safe_quiet_bind (Uses.request trivial).attempt hfollows fun _ _ _ hfollows ↦ ?_
  obtain ⟨hgood, opening, hopened, hopening, -⟩ := hfollows
  rw [htrace] at hopened
  refine Safe.bind (Safe.request hgood fun _ _ hanswer ↦ ?_)
  obtain ⟨hgood, hnext⟩ := hgood.clear hanswer
  rw [hopened] at hnext
  have hfollows := Follows.refl hgood
  rw [hnext] at hfollows
  refine Safe.bind ((safe_inspect hfollows).mono ?_ fun _ _ _ h ↦ h)
  intro first own world hfollows
  refine safe_quiet_bind uses_checkCancelled hfollows fun _ _ _ hfollows ↦ ?_
  refine safe_quiet_bind uses_checkDeadline hfollows fun _ _ _ hfollows ↦ ?_
  refine safe_quiet_bind (uses_prepare _ _ _ _ _) hfollows fun _ _ _ hfollows ↦ ?_
  refine Safe.bind ((safe_showPreview hfollows).mono ?_ fun _ _ _ h ↦ h)
  rintro ⟨image, second⟩ own world hfollows
  refine Safe.bind (Safe.require (fun hunchanged ↦ ?_) fun _ ↦ hfollows.good)
  refine safe_marked_bind trivial hfollows fun time _ _ hfollows ↦ ?_
  refine Safe.bind (safe_orRefuse (fun expiresAt hexpires ↦ ?_) hfollows.good)
  refine safe_quiet_bind ((uses_orRefuse _ _ _).mono quiet_of_reads) hfollows
    fun _ _ _ hfollows ↦ ?_
  refine safe_quiet_bind (uses_update _) hfollows fun _ _ _ hfollows ↦ ?_
  obtain ⟨hgood, since, hsince, hquiet, hmarks⟩ := hfollows
  refine Safe.bind (Safe.request hgood fun _ _ hanswer ↦ ?_)
  have hminted : Minted _ stageId (stagedEntry target second expiresAt) :=
    ⟨⟨target, operationId, context.readerEndpoint, first, second, time, since, opening, past⟩,
      hsince, hquiet, hopening, hmarks, hunchanged, by rw [ClockTime.eq_of_plus hexpires]⟩
  exact safe_rest (Uses.getOwn.bind fun _ ↦ Uses.pure _) (hgood.publish hminted hanswer)

end Safe

/-! ### Every run -/

section Runs

variable {codec : Codec} {world : World}

theorem uses_fail (isTake : Bool) (tracking : Tracking) (fault : Fault) :
    (fail isTake tracking fault).Uses Request.Quiet := by
  refine Program.Uses.bind ?_ fun _ ↦ trivial
  split_ifs
  · exact uses_update _ _
  · trivial

/-- A call from a good world can only stop or end in one. -/
theorem safe_program (hgood : Good world) (context : Context) (turns : ℕ) (call : Call) :
    (program codec context turns call).Safe (World.answers codec.hash) Good (fun _ ↦ Good)
      (world.begin call) := by
  have hbegin : Good (world.begin call) := ⟨hgood.consistent, trivial, hgood.justified⟩
  have hwork : (call.work codec context turns).Safe (World.answers codec.hash) Good
      (fun _ _ ↦ Good) Spoils ⟨none, false, none⟩ (world.begin call) := by
    cases call with
    | stage target stageId operationId => exact safe_stage hbegin rfl
    | take stageId operationId => exact safe_take hbegin rfl
  refine Program.Safe.bind (Program.Safe.mono hwork ?_)
  rintro ⟨result, tracking⟩ s hs
  cases result with
  | ok success => exact hs
  | error fault =>
    refine Program.Safe.of_uses (uses_fail call.isTake tracking fault) (fun _ h ↦ h) ?_ hs
    intro s request reply t hquiet hs hanswer
    obtain ⟨htokens, htrace⟩ := answers_quiet hquiet hanswer
    exact hs.add (quiet_asked hquiet) htokens htrace

/-- Every reachable world is good. -/
theorem good_of_reachable (hreachable : Reachable codec world) : Good world := by
  induction hreachable with
  | start store => exact ⟨fun _ hmem ↦ (nomatch hmem), trivial⟩
  | others store _ ih => exact ⟨ih.consistent, ih.justified⟩
  | call context turns call _ hrun ih =>
    have hended := (safe_program ih context turns call).of_run hrun
    rename_i result _
    cases result with
    | none => exact hended.2 rfl
    | some value => exact hended.1 value rfl

end Runs

end ObsMcp.Stage
