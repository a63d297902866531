import ObsMcp.Stage.Authority

/-!
# Stage tokens authorise one checked transition each

`stage_tokens` says that every transition has an authority, that two transitions of one identifier
have a publication of that identifier between them, that nothing leads to a transition after the
token was spent unless the identifier is published anew, and that there is at most one transition
for each identifier when the stage calls were given distinct ones. `reused_identifier` shows why the
last condition is needed: the machine takes the identifier from its caller and publishes it again.
-/

namespace ObsMcp.Stage

open Foundations Receipts List Option

/-! ### The order of transitions -/

/-- The event hands over a transition in a take call of the identifier. -/
def Event.TransitionOf (stageId : String) (earlier : List Event) (event : Event) : Prop :=
  (∃ generation revision store, event = .handed .transition generation revision store) ∧
    ∃ operationId, callOf earlier = some (.take stageId operationId)

/-- The identifiers that the transitions were handed over for, newest first. -/
def transitionIds : List Event → List String
  | [] => []
  | .handed .transition _ _ _ :: earlier =>
    match callOf earlier with
    | some (.take stageId _) => stageId :: transitionIds earlier
    | _ => transitionIds earlier
  | _ :: earlier => transitionIds earlier

section Order

variable {xs ys zs since earlier trace : List Event} {a c event spender first last : Event}
  {stageId : String}

/-- An event that is not quiet is the one before the quiet end of a trace, or lies behind it. -/
theorem split_of_quiet (hsplit : xs ++ a :: ys = since ++ c :: zs)
    (hquiet : ∀ event ∈ since, event.Quiet) (hloud : ¬ a.Quiet) :
    (xs = since ∧ a = c) ∨ ∃ rest, xs = since ++ c :: rest ∧ zs = rest ++ a :: ys := by
  obtain ⟨rest, rfl, hrest⟩ | ⟨rest, rfl, hrest⟩ := append_eq_append_iff.mp hsplit
  · cases rest with
    | nil => exact .inl ⟨(append_nil _).symm, (cons.inj hrest).1⟩
    | cons _ rest =>
      obtain ⟨rfl, -⟩ := cons.inj hrest
      exact absurd (hquiet a (mem_append_right _ mem_cons_self)) hloud
  · cases rest with
    | nil => exact .inl ⟨append_nil _, (cons.inj hrest).1.symm⟩
    | cons _ rest =>
      cases hrest
      exact .inr ⟨rest, rfl, rfl⟩

theorem Justified.at {later : List Event} (hjustified : Justified trace)
    (htrace : trace = later ++ event :: earlier) : event.Justified earlier := by
  rw [htrace] at hjustified
  exact hjustified.of_append.1

theorem not_quiet_of_spends (hspends : spender.Spends stageId) : ¬ spender.Quiet := by
  cases spender with
  | called | handed => exact hspends.elim
  | asked request reply => cases request <;> first | exact hspends.elim | exact id

/-- A take that finds the token of its identifier spends it. -/
theorem spends_found (now : ℕ) (entry : Staged) :
    (Event.asked (.consume stageId now) (some entry)).Spends stageId :=
  ⟨rfl, rfl⟩

theorem mem_stageIds {target : Target} {operationId : String}
    (hmem : .called (.stage target stageId operationId) ∈ trace) : stageId ∈ stageIds trace := by
  induction trace with
  | nil => exact (nomatch hmem)
  | cons event trace ih =>
    obtain rfl | hrest := mem_cons.mp hmem
    · exact mem_cons_self
    · cases event with
      | called call =>
        cases call with
        | stage => exact mem_cons_of_mem _ (ih hrest)
        | take => exact ih hrest
      | handed | asked => exact ih hrest

theorem not_quiet_of_transitionOf (htransition : event.TransitionOf stageId earlier) :
    ¬ event.Quiet := by
  obtain ⟨⟨generation, revision, store, rfl⟩, -⟩ := htransition
  exact fun hquiet ↦ hquiet rfl

/-- What stands behind a transition of an identifier is evidence about that identifier. -/
theorem exists_authority (htransition : event.TransitionOf stageId earlier)
    (hjustified : event.Justified earlier) :
    ∃ a : Authority, a.stageId = stageId ∧
      earlier = a.since ++ .asked (.consume stageId a.now) (some a.entry) :: a.before ∧
      (∀ event ∈ a.since, event.Quiet) ∧ live stageId a.before = some a.entry := by
  obtain ⟨⟨generation, revision, store, rfl⟩, operationId, hcall⟩ := htransition
  obtain ⟨a, ha⟩ := hjustified
  have hcallOf : callOf earlier = some (.take a.stageId a.operationId) := by
    rw [ha.trace, callOf_append_of_quiet ha.quiet]
    show callOf (a.opening ++ .called (.take a.stageId a.operationId) :: a.past) = _
    rw [callOf_append_of_quiet ha.opening_quiet]
    rfl
  have hid : a.stageId = stageId := by
    rw [hcall] at hcallOf
    cases hcallOf
    rfl
  exact ⟨a, hid, hid ▸ ha.trace, ha.quiet, hid ▸ ha.token⟩

/-- After the token of an identifier was spent, only a publication of that identifier leads to a
transition in a later call. -/
theorem publishes_of_spent {middle : List Event}
    (htransition : last.TransitionOf stageId (middle ++ spender :: earlier))
    (hjustified : last.Justified (middle ++ spender :: earlier)) (hspends : spender.Spends stageId)
    (hlater : ∃ call, Event.called call ∈ middle) : ∃ event ∈ middle, event.Publishes stageId := by
  obtain ⟨a, -, htrace, hquiet, hlive⟩ := exists_authority htransition hjustified
  obtain ⟨rfl, -⟩ | ⟨rest, rfl, hbefore⟩ :=
    split_of_quiet htrace hquiet (not_quiet_of_spends hspends)
  · obtain ⟨call, hmem⟩ := hlater
    exact (hquiet _ hmem).elim
  · rw [hbefore] at hlive
    obtain ⟨event, hmem, hpublishes⟩ := exists_publish_of_spent hspends hlive
    exact ⟨event, mem_append_right _ (mem_cons_of_mem _ hmem), hpublishes⟩

/-- Two transitions of one identifier have a publication of it between them, and another before
the first. -/
theorem publishes_of_transitions {middle : List Event}
    (hlast : last.TransitionOf stageId (middle ++ first :: earlier))
    (hfirst : first.TransitionOf stageId earlier)
    (hjustified : Justified (last :: (middle ++ first :: earlier))) :
    (∃ event ∈ middle, event.Publishes stageId) ∧ ∃ event ∈ earlier, event.Publishes stageId := by
  obtain ⟨a, -, htrace, hquiet, hlive⟩ := exists_authority hlast hjustified.1
  obtain ⟨b, -, hearlier, hbquiet, hblive⟩ :=
    exists_authority hfirst (hjustified.2.at rfl)
  obtain ⟨-, hsame⟩ | ⟨rest, rfl, hbefore⟩ :=
    split_of_quiet htrace hquiet (not_quiet_of_transitionOf hfirst)
  · obtain ⟨⟨generation, revision, store, rfl⟩, -⟩ := hfirst
    cases hsame
  · constructor
    · have hspent : live stageId ((rest ++ first :: b.since) ++
          .asked (.consume stageId b.now) (some b.entry) :: b.before) = some a.entry := by
        rw [append_assoc, cons_append, ← hearlier, ← hbefore]
        exact hlive
      obtain ⟨event, hmem, hpublishes⟩ := exists_publish_of_spent
        (spends_found b.now b.entry) hspent
      refine ⟨event, mem_append_right _ (mem_cons_of_mem _ ?_), hpublishes⟩
      obtain hmem | hmem := mem_append.mp hmem
      · exact hmem
      obtain rfl | hmem := mem_cons.mp hmem
      · obtain ⟨⟨generation, revision, store, rfl⟩, -⟩ := hfirst
        exact hpublishes.elim
      · exact absurd hpublishes (not_publishes_of_quiet (hbquiet event hmem))
    · obtain ⟨event, hmem, hpublishes⟩ := exists_publish_of_live hblive
      refine ⟨event, ?_, hpublishes⟩
      rw [hearlier]
      exact mem_append_right _ (mem_cons_of_mem _ hmem)

/-- A published token comes from a stage call given its identifier, after any transition before
the publication. -/
theorem exists_stage_of_publishes (hpublishes : event.Publishes stageId)
    (hjustified : event.Justified trace) :
    stageId ∈ stageIds trace ∧ ∀ xs first earlier, trace = xs ++ first :: earlier →
      (∃ id, first.TransitionOf id earlier) → stageId ∈ stageIds xs := by
  cases event with
  | called | handed => exact hpublishes.elim
  | asked request reply =>
    cases request <;> try exact hpublishes.elim
    obtain rfl := hpublishes
    obtain ⟨m, hm⟩ := hjustified
    constructor
    · rw [hm.trace]
      exact mem_stageIds (mem_append_right _ (mem_cons_of_mem _
        (mem_append_right _ mem_cons_self)))
    · rintro xs first earlier hsplit ⟨id, hfirst⟩
      have hloud := not_quiet_of_transitionOf hfirst
      obtain ⟨⟨generation, revision, store, rfl⟩, -⟩ := hfirst
      rw [hm.trace] at hsplit
      obtain ⟨-, hsame⟩ | ⟨rest, rfl, hrest⟩ := split_of_quiet hsplit.symm hm.quiet hloud
      · cases hsame
      obtain ⟨-, hsame⟩ | ⟨rest', rfl, -⟩ :=
        split_of_quiet hrest.symm hm.opening_quiet hloud
      · cases hsame
      exact mem_stageIds (mem_append_right _ (mem_cons_of_mem _
        (mem_append_right _ mem_cons_self)))

theorem stageIds_append (xs ys : List Event) :
    stageIds (xs ++ ys) = stageIds xs ++ stageIds ys := by
  induction xs with
  | nil => rfl
  | cons event xs ih =>
    cases event with
    | called call =>
      cases call with
      | stage target stageId operationId => exact congrArg (stageId :: ·) ih
      | take => exact ih
    | handed | asked => exact ih

/-- One event adds at most its own identifier. -/
theorem transitionIds_cons (event : Event) (earlier : List Event) :
    transitionIds (event :: earlier) = transitionIds earlier ∨
      ∃ stageId, event.TransitionOf stageId earlier ∧
        transitionIds (event :: earlier) = stageId :: transitionIds earlier := by
  cases event with
  | called | asked => exact .inl rfl
  | handed mutation generation revision store =>
    cases mutation with
    | setPreview => exact .inl rfl
    | transition =>
      cases hcall : callOf earlier with
      | none =>
        refine .inl ?_
        simp only [transitionIds, hcall]
      | some call =>
        cases call with
        | stage target stageId operationId =>
          refine .inl ?_
          simp only [transitionIds, hcall]
        | take stageId operationId =>
          refine .inr ⟨stageId, ⟨⟨_, _, _, rfl⟩, operationId, hcall⟩, ?_⟩
          simp only [transitionIds, hcall]

/-- An identifier of a transition, and where the transition lies. -/
theorem exists_of_mem_transitionIds (hmem : stageId ∈ transitionIds trace) :
    ∃ xs event earlier, trace = xs ++ event :: earlier ∧ event.TransitionOf stageId earlier := by
  induction trace with
  | nil => exact (nomatch hmem)
  | cons head trace ih =>
    have htail : stageId ∈ transitionIds trace → ∃ xs event earlier,
        head :: trace = xs ++ event :: earlier ∧ event.TransitionOf stageId earlier := by
      intro hmem
      obtain ⟨xs, event, earlier, rfl, htransition⟩ := ih hmem
      exact ⟨head :: xs, event, earlier, rfl, htransition⟩
    obtain heq | ⟨id, hhead, heq⟩ := transitionIds_cons head trace
    · exact htail (heq ▸ hmem)
    · rw [heq] at hmem
      obtain rfl | hmem := mem_cons.mp hmem
      · exact ⟨[], head, trace, rfl, hhead⟩
      · exact htail hmem

/-- With distinct identifiers given to the stage calls, the transitions have distinct ones. -/
theorem nodup_transitionIds (hjustified : Justified trace) (hnodup : (stageIds trace).Nodup) :
    (transitionIds trace).Nodup := by
  induction trace with
  | nil => exact nodup_nil
  | cons head trace ih =>
    have htail : (stageIds trace).Nodup := by
      refine hnodup.sublist ?_
      exact (stageIds_append [head] trace).symm ▸ sublist_append_right _ _
    have hrest := ih hjustified.2 htail
    obtain heq | ⟨id, hhead, heq⟩ := transitionIds_cons head trace
    · rw [heq]
      exact hrest
    · rw [heq]
      refine nodup_cons.mpr ⟨fun hmem ↦ ?_, hrest⟩
      obtain ⟨middle, first, earlier, rfl, hfirst⟩ := exists_of_mem_transitionIds hmem
      obtain ⟨⟨event, hevent, hpublishes⟩, other, hother, hbefore⟩ :=
        publishes_of_transitions hhead hfirst hjustified
      obtain ⟨xs, ys, rfl⟩ := append_of_mem hevent
      obtain ⟨zs, past, rfl⟩ := append_of_mem hother
      have hmiddle : id ∈ stageIds ys := by
        have hevent : event.Justified (ys ++ first :: (zs ++ other :: past)) :=
          hjustified.2.at (append_assoc xs (event :: ys) _)
        exact (exists_stage_of_publishes hpublishes hevent).2 ys first _ rfl ⟨id, hfirst⟩
      have hpast : id ∈ stageIds past := by
        have htrace : (xs ++ event :: ys) ++ first :: (zs ++ other :: past) =
            ((xs ++ event :: ys) ++ first :: zs) ++ other :: past := by simp
        have hother : other.Justified past := hjustified.2.at htrace
        exact (exists_stage_of_publishes hbefore hother).1
      have hsplit : stageIds ((xs ++ event :: ys) ++ first :: (zs ++ other :: past)) =
          stageIds (xs ++ [event]) ++ (stageIds ys ++ (stageIds (first :: zs ++ [other]) ++
            stageIds past)) := by
        rw [← stageIds_append, ← stageIds_append, ← stageIds_append]
        simp
      rw [hsplit] at htail
      have hdisjoint := (nodup_append.mp (nodup_append.mp htail).2.1).2.2
      exact hdisjoint id hmiddle id (mem_append_right _ hpast) rfl

end Order

/-- Stage tokens authorise one checked transition each. Every transition has an authority behind it
and every published token a mint. Once the token of an identifier was spent, by a take that found it
or by a stage call that got as far as the connection, a later call hands over a transition of it
only if the identifier was published again in between. And when the stage calls were given distinct
identifiers, no two transitions have the same one. -/
theorem stage_tokens :
    (∀ codec world, Reachable codec world →
      ∀ later earlier generation revision store,
        world.trace = later ++ .handed .transition generation revision store :: earlier →
        Authorised earlier generation revision store) ∧
    (∀ codec world, Reachable codec world → ∀ later earlier stageId entry reply,
      world.trace = later ++ .asked (.publish stageId entry) reply :: earlier →
      Minted earlier stageId entry) ∧
    (∀ codec world, Reachable codec world → ∀ stageId later last middle first earlier,
      world.trace = later ++ last :: (middle ++ first :: earlier) →
      last.TransitionOf stageId (middle ++ first :: earlier) →
      first.TransitionOf stageId earlier → ∃ event ∈ middle, event.Publishes stageId) ∧
    (∀ codec world, Reachable codec world → ∀ stageId later last middle spender earlier,
      world.trace = later ++ last :: (middle ++ spender :: earlier) →
      last.TransitionOf stageId (middle ++ spender :: earlier) → spender.Spends stageId →
      (∃ call, .called call ∈ middle) → ∃ event ∈ middle, event.Publishes stageId) ∧
    ∀ codec world, Reachable codec world → (stageIds world.trace).Nodup →
      (transitionIds world.trace).Nodup := by
  refine ⟨?_, ?_, ?_, ?_, ?_⟩
  · intro codec world hreachable later earlier generation revision store htrace
    exact (good_of_reachable hreachable).justified.at htrace
  · intro codec world hreachable later earlier stageId entry reply htrace
    exact (good_of_reachable hreachable).justified.at htrace
  · intro codec world hreachable stageId later last middle first earlier htrace hlast hfirst
    have hjustified := (good_of_reachable hreachable).justified
    rw [htrace] at hjustified
    exact (publishes_of_transitions hlast hfirst hjustified.of_append).1
  · intro codec world hreachable stageId later last middle spender earlier htrace hlast hspends
      hlater
    have hjustified := (good_of_reachable hreachable).justified
    exact publishes_of_spent hlast (hjustified.at htrace) hspends hlater
  · intro codec world hreachable hnodup
    exact nodup_transitionIds (good_of_reachable hreachable).justified hnodup

/-! ### A reused identifier -/

section Reused

/-- The replies of an OBS with one empty scene, in program and in preview. -/
def emptyScene : ReadRequest → Json
  | .sceneCollectionList => .object [("currentSceneCollectionName", .string "Main")]
  | .sceneList => .object [("currentProgramSceneName", .string "Camera"),
      ("scenes", .array [.object [("sceneName", .string "Camera"),
        ("sceneUuid", .string "00000000-0000-0000-0000-000000000000")]])]
  | .inputList => .object [("inputs", .array [])]
  | .sceneItemList => .object [("sceneItems", .array [])]
  | .studioModeEnabled => .object [("studioModeEnabled", .bool true)]
  | .currentProgramScene => .object [("currentProgramSceneName", .string "Camera"),
      ("currentProgramSceneUuid", .string "00000000-0000-0000-0000-000000000000")]
  | .currentPreviewScene => .object [("currentPreviewSceneName", .string "Camera")]
  | .sourceScreenshot => .object [("imageData", .string "data:image/png;base64,AAAA")]
  | _ => .null

/-- The replies of surroundings in which nothing fails. -/
def undisturbed : (request : Request) → Option request.Reply
  | .admission _ | .synchronize | .check => some (.ok ())
  | .sample => some (.ok (1, 0))
  | .read request _ | .readObject request _ => some (.ok (emptyScene request))
  | .clock => some ⟨"2026-01-01T00:00:00Z", 0⟩
  | .late | .cancelled | .lateVerification => some false
  | .generations => some (some 1, some 1)
  | .wait | .inspected _ => some ()
  | _ => none

/-- The reply and the next world in surroundings in which nothing fails. -/
def respond (hash : String → String) (world : World) :
    (request : Request) → Option (request.Reply × World)
  | .prepare operationId kind generation utc details =>
    let (reply, store) := world.store.prepare hash operationId kind generation utc details .durable
    some (reply, world.stored store (.prepare operationId kind generation utc details) reply)
  | .update receipt update utc =>
    let (reply, store) := world.store.update receipt update utc none .durable
    some (reply, world.stored store (.update receipt update utc) reply)
  | .mutate mutation generation revision =>
    some (.ok (), { world with
      trace := .asked (.mutate mutation generation revision) (.ok ()) ::
        .handed mutation generation revision world.store :: world.trace })
  | .endpoint => some (world.endpointHash, world.record .endpoint world.endpointHash)
  | .clear endpoint => some ((), { world.record (.clear endpoint) () with
      tokens := []
      endpointHash := some endpoint })
  | .publish stageId entry => some ((), { world.record (.publish stageId entry) () with
      tokens := (stageId, entry) :: without world.tokens stageId })
  | .consume stageId now =>
    let reply := token (unexpired world.tokens now) stageId
    some (reply, { world.record (.consume stageId now) reply with
      tokens := without (unexpired world.tokens now) stageId })
  | request => (undisturbed request).map fun reply ↦ (reply, world.stored world.store request reply)

theorem answers_of_respond {hash : String → String} {world next : World} {request : Request}
    {reply : request.Reply} (hrespond : respond hash world request = some (reply, next)) :
    world.answers hash request reply next := by
  cases request with
  | prepare operationId kind generation utc details =>
    cases hrespond
    exact .inr ⟨.durable, rfl, rfl⟩
  | update receipt update utc =>
    cases hrespond
    exact .inr ⟨none, .durable, rfl, rfl⟩
  | mutate mutation generation revision =>
    cases hrespond
    exact ⟨world.store, rfl⟩
  | endpoint | consume =>
    cases hrespond
    exact ⟨rfl, rfl⟩
  | clear | publish =>
    cases hrespond
    rfl
  | forever => cases hrespond
  | wait | inspected =>
    cases hrespond
    exact ⟨world.store, rfl⟩
  | _ =>
    simp only [respond, undisturbed, map_some, Option.some.injEq, Prod.mk.injEq] at hrespond
    obtain ⟨rfl, rfl⟩ := hrespond
    exact ⟨world.store, rfl⟩

/-- The world after a call in which nothing fails. -/
def World.after (codec : Codec) (context : Context) (world : World) (call : Call) : Option World :=
  ((program codec context 1 call).exec (respond codec.hash) (world.begin call)).map Prod.snd

theorem reachable_of_after {codec : Codec} {context : Context} {calls : List Call}
    {world last : World} (hworld : Reachable codec world)
    (hlast : calls.foldlM (World.after codec context) world = some last) :
    Reachable codec last := by
  induction calls generalizing world with
  | nil =>
    cases hlast
    exact hworld
  | cons call calls ih =>
    rw [foldlM_cons] at hlast
    obtain ⟨next, hafter, hrest⟩ := bind_eq_some_iff.mp hlast
    obtain ⟨⟨result, _⟩, hexec, rfl⟩ := map_eq_some_iff.mp hafter
    have hanswers : ∀ world request reply next,
        respond codec.hash world request = some (reply, next) →
          world.answers codec.hash request reply next :=
      fun _ _ _ _ ↦ answers_of_respond
    exact ih (.call context 1 call hworld (Program.run_of_exec hanswers hexec)) hrest

/-- Two calls that stage a scene under one identifier, each followed by a take of it: the identifier
leads to two transitions. -/
theorem reused_identifier :
    ∃ codec world, Reachable codec world ∧
      transitionIds world.trace =
        ["00000000-0000-4000-8000-000000000001", "00000000-0000-4000-8000-000000000001"] := by
  let digest := "0000000000000000000000000000000000000000000000000000000000000000"
  let stageId := "00000000-0000-4000-8000-000000000001"
  let target : Target := ⟨"Main", "Camera", none⟩
  let calls : List Call := [.stage target stageId "00000000-0000-4000-8000-000000000002",
    .take stageId "00000000-0000-4000-8000-000000000003",
    .stage target stageId "00000000-0000-4000-8000-000000000004",
    .take stageId "00000000-0000-4000-8000-000000000005"]
  let codec : Codec := ⟨fun _ ↦ digest, fun _ ↦ digest, fun _ ↦ some "2026-01-01T00:10:00Z"⟩
  have hcalls : (calls.foldlM (World.after codec ⟨digest, digest, digest, 1024⟩)
      ⟨[], none, ⟨digest, [], false, nodup_nil⟩, []⟩).map
        (fun world ↦ transitionIds world.trace) = some [stageId, stageId] := by
    decide +kernel
  obtain ⟨world, hworld, hids⟩ := map_eq_some_iff.mp hcalls
  exact ⟨codec, world, reachable_of_after (.start _) hworld, hids⟩

end Reused

end ObsMcp.Stage
