import Mathlib.Data.String.Basic
import ObsMcp.Foundations.Fallible
import ObsMcp.Opaque.Commands

/-!
# The inspection before a capture property is listed

Listing some properties of a capture input can crash OBS, so an enumeration whose property has a
guarded JavaScript text is inspected first: the settings of the input have to show a kind on which
the listing is safe. `GuardHolds` is what the inspection is for, over whatever `execute` hands to
the session. It fails in one way, `Bypass`: the inspection is asked for by the JavaScript text of
the property but chooses its hazard by the property itself, so an array whose text is
`capture_window` is inspected for the hazard of the other two properties.

`capture_guard_iff` says that this is the only way: for every call of either tool and everything it
meets, the guard holds if and only if the call is no bypass. `wrapped_property_bypasses` shows a
bypass.
-/

namespace ObsMcp.Opaque

open Foundations Scenes List Option

/-! ### What the guard is for -/

/-- The settings of the input were read in the call, for the string selectors of its data, and show
a kind on which the property can be listed. -/
def Inspected (env : Environment) (handed : List Handed) (data : Members) (property : String) :
    Prop :=
  ∃ settings kind, .request "GetInputSettings" (.object (selectors data)) ∈ handed ∧
    env.settings (selectors data) = some settings ∧
    (settings.index "inputKind").asStr = some kind ∧ kind ≠ "" ∧
    (property = "capture_window" → ¬ (kind = "xcomposite_input" ∧ Hollow settings)) ∧
    (property ≠ "capture_window" → kind ≠ "screen_capture")

/-- Nothing outside the inspection and the advertised requests stops an enumeration. -/
structure Environment.Open (env : Environment) : Prop where
  deadlineValid : env.deadlineValid = true
  policy : env.policy = none
  known : env.known ENUMERATION = true
  blocking : env.blocking = false
  expired : ∀ moment, env.expired moment = false
  receipt : env.receipt = true

/-- Nothing outside the inspection and the advertised requests stops the dedicated tool. -/
structure PropertyList.Context.Open (context : PropertyList.Context) : Prop where
  current : context.current = true
  live : ∀ moment, context.live moment = none
  synchronized : context.synchronized = none
  fenced : ∀ moment, context.fenced moment = true
  remaining : context.remaining = true

/-- The guard does its work on a call: a handed enumeration of a guarded property is that of a
single call and was inspected, a handed batch lists no guarded property, and a plain property name
is accepted exactly when the dedicated tool accepts it on the same settings. -/
structure GuardHolds (env : Environment) (call : Call) : Prop where
  request : ∀ data property, .request ENUMERATION data ∈ (execute env call).handed →
    jsString env.numerals (data.get "propertyName") = some property → property ∈ GUARDED →
      ∃ row fields, call = .request row ∧ data = .object fields ∧
        Inspected env (execute env call).handed fields property
  batch : ∀ requests execution halt, .batch requests execution halt ∈ (execute env call).handed →
    ∀ row ∈ requests, row.requestType = ENUMERATION → ∀ property,
      jsString env.numerals row.propertyName = some property → property ∉ GUARDED
  decision : ∀ row data name context, call = .request row → row.requestType = ENUMERATION →
    row.requestData = some data → row.propertyName = some (.string name) → env.Open →
    PropertyList.Context.Open context → context.capabilities = env.capabilities →
    context.settings (selectors data) = env.settings (selectors data) →
      ((execute env call).refusal = none ↔
        ∃ sent, PropertyList.run context ⟨selectors data, name⟩ = .handed ENUMERATION sent)

/-- The call is an open enumeration of a property that is not the string `capture_window` but has
its JavaScript text, on an XComposite input without a window. -/
structure Bypass (env : Environment) (row : Row) (data : Members) (settings : Json) : Prop where
  enumeration : row.requestType = ENUMERATION
  requestData : row.requestData = some data
  text : jsString env.numerals row.propertyName = some "capture_window"
  wrapped : row.propertyName ≠ some (.string "capture_window")
  isOpen : env.Open
  probes : missing env.capabilities "GetInputSettings" = false
  lists : missing env.capabilities ENUMERATION = false
  reply : env.settings (selectors data) = some settings
  kind : inputKind settings = some "xcomposite_input"
  hollow : Hollow settings

section Guard

variable {env : Environment} {call : Call} {row : Row} {data : Members}

/-! ### The text of the property -/

theorem guarded_eq_ok_iff {value : Option Json} {b : Bool} :
    guarded env.numerals value = .ok b ↔
      ∃ text, jsString env.numerals value = some text ∧ text.utf8ByteSize ≤ MAX_BYTES ∧
        b = decide (text ∈ GUARDED) := by
  have hmap : guarded env.numerals value = (fun text ↦ decide (text ∈ GUARDED)) <$>
      appendJsString env.numerals "" value MAX_BYTES := rfl
  rw [hmap, map_eq_ok_iff]
  simp only [appendJsString_eq_ok_iff, Writes]
  constructor
  · rintro ⟨text, ⟨written, htext, rfl, hbound⟩, rfl⟩
    refine ⟨written, htext, ?_, ?_⟩
    · simpa [MAX_BYTES] using hbound
    · simp
  · rintro ⟨text, htext, hbound, rfl⟩
    exact ⟨text, ⟨text, htext, by simp, hbound⟩, rfl⟩

variable {property : String} {numerals : Numerals}

/-- A guarded text is short, so the projection of the property reaches it. -/
theorem guarded_of_mem {value : Option Json} (htext : jsString env.numerals value = some property)
    (hguarded : property ∈ GUARDED) : guarded env.numerals value = .ok true := by
  refine guarded_eq_ok_iff.mpr ⟨property, htext, ?_, by simp [hguarded]⟩
  simp only [GUARDED, mem_cons, not_mem_nil, or_false] at hguarded
  obtain rfl | rfl | rfl := hguarded <;> decide

theorem propertyName_eq (row : Row) :
    row.propertyName = (row.requestData.elim .null .object : Json).get "propertyName" := by
  unfold Row.propertyName
  cases row.requestData <;> rfl

/-! ### The parts of an execution -/

theorem captureGuard_eq_ok_iff : captureGuard env data = .ok () ↔
    ∃ settings kind, missing env.capabilities "GetInputSettings" = false ∧
      env.settings (selectors data) = some settings ∧ inputKind settings = some kind ∧
      if (Members.get data "propertyName").bind Json.asStr = some "capture_window" then
        ¬ (kind = "xcomposite_input" ∧ Hollow settings)
      else kind ≠ "screen_capture" := by
  unfold captureGuard probe
  by_cases hmissing : missing env.capabilities "GetInputSettings" = true
  · simp [hmissing]
  · rw [if_neg hmissing]
    rw [Bool.not_eq_true] at hmissing
    cases hsettings : env.settings (selectors data) with
    | none => simp
    | some settings =>
      cases hkind : inputKind settings with
      | none => simp [hkind]
      | some kind =>
        simp only [hmissing, Option.some.injEq, true_and, hkind]
        split_ifs <;> simp_all

theorem precheck_eq_ok_iff : precheck env call = .ok () ↔
    env.deadlineValid = true ∧ env.policy = none ∧ refusal env call = none ∧
      env.blocking = false ∧ env.expired .entry = false := by
  unfold precheck
  cases env.deadlineValid <;> cases env.policy <;> cases refusal env call <;>
    cases env.blocking <;> cases env.expired .entry <;> simp

theorem postcheck_eq_ok_iff : postcheck env call = .ok () ↔
    (∀ method ∈ required call, missing env.capabilities method = false) ∧
      env.expired .receipt = false ∧ env.receipt = true ∧ env.expired .dispatch = false := by
  unfold postcheck
  cases hmissing : (required call).find? (missing env.capabilities) with
  | some method =>
    have hmem := mem_of_find?_eq_some hmissing
    have hlacks := find?_some hmissing
    simp only [reduceCtorEq, false_iff, not_and]
    intro hall
    rw [hall method hmem] at hlacks
    cases hlacks
  | none =>
    rw [find?_eq_none] at hmissing
    simp only [Bool.not_eq_true] at hmissing
    rw [and_iff_right hmissing]
    cases env.expired .receipt <;> cases env.receipt <;> cases env.expired .dispatch <;> simp

/-- A batch without refusal lists no guarded property. -/
theorem not_guarded_of_enumerationRefusal {rows : List Row}
    (hnone : enumerationRefusal env call rows = none) :
    ∀ row ∈ rows, row.requestType = ENUMERATION →
      guarded env.numerals row.propertyName = .ok false := by
  induction rows with
  | nil => simp
  | cons first rows ih =>
    unfold enumerationRefusal at hnone
    rw [forall_mem_cons]
    split_ifs at hnone with henumeration
    · split at hnone
      · cases hnone
      · rename_i hguarded
        exact ⟨fun _ ↦ hguarded, ih hnone⟩
      · cases hnone
    · exact ⟨fun hrow ↦ absurd hrow henumeration, ih hnone⟩

/-- The outcome is a refusal after at most the probe of an inspection. -/
def Outcome.Refused (outcome : Outcome) : Prop :=
  outcome.refusal ≠ none ∧
    ∀ handed ∈ outcome.handed, ∃ fields, handed = .request "GetInputSettings" fields

variable {name text : String} {settings : Json}

theorem refused_of_probed : Outcome.Refused ⟨probed env data, some text⟩ := by
  refine ⟨by simp, fun handed hmem ↦ ?_⟩
  unfold probed at hmem
  split_ifs at hmem with hmissing
  · cases hmem
  · exact ⟨_, mem_singleton.mp hmem⟩

theorem refused_of_empty : Outcome.Refused ⟨[], some text⟩ :=
  ⟨by simp, by simp⟩

theorem dispatch_cases (env : Environment) (call : Call) (handed : List Handed)
    (hprobe : ∀ text, Outcome.Refused ⟨handed, some text⟩) :
    (dispatch env call handed).Refused ∨
      (postcheck env call = .ok () ∧
        dispatch env call handed = ⟨handed ++ [command call], none⟩) := by
  unfold dispatch
  cases hpost : postcheck env call with
  | error text => exact .inl (hprobe text)
  | ok _ => exact .inr ⟨rfl, rfl⟩

/-- An execution ends in a refusal, or it passes its checks and hands over its command, alone or
after an inspection. -/
theorem execute_cases (env : Environment) (call : Call) :
    (execute env call).Refused ∨
    (precheck env call = .ok () ∧ needsCaptureGuard env call = .ok false ∧
      postcheck env call = .ok () ∧ execute env call = ⟨[command call], none⟩) ∨
    (∃ row, call = .request row ∧ precheck env call = .ok () ∧
      needsCaptureGuard env call = .ok true ∧ env.expired .probe = false ∧
      captureGuard env (row.requestData.getD []) = .ok () ∧ postcheck env call = .ok () ∧
      execute env call = ⟨probed env (row.requestData.getD []) ++ [command call], none⟩) := by
  unfold execute
  cases hpre : precheck env call with
  | error text => exact .inl refused_of_empty
  | ok _ =>
    have hplain := dispatch_cases env call [] fun _ ↦ refused_of_empty
    cases hneeds : needsCaptureGuard env call with
    | error text => exact .inl refused_of_empty
    | ok needs =>
      cases needs with
      | false =>
        obtain hrefused | ⟨hpost, hhanded⟩ := hplain
        · exact .inl hrefused
        · exact .inr (.inl ⟨rfl, rfl, hpost, hhanded⟩)
      | true =>
        cases call with
        | batch requests execution halt => cases hneeds
        | request row =>
          dsimp only
          split_ifs with hexpired
          · exact .inl refused_of_empty
          cases hguard : captureGuard env (row.requestData.getD []) with
          | error text => exact .inl refused_of_probed
          | ok _ =>
            obtain hrefused | ⟨hpost, hhanded⟩ := dispatch_cases env (.request row)
              (probed env (row.requestData.getD [])) fun _ ↦ refused_of_probed
            · exact .inl hrefused
            · exact .inr (.inr ⟨row, rfl, rfl, rfl, Bool.not_eq_true _ ▸ hexpired, hguard, hpost,
                hhanded⟩)

/-! ### What is handed over -/

theorem enumeration_ne_probe : ENUMERATION ≠ "GetInputSettings" := by decide

/-- A handed enumeration or batch is the command of a call that passed. -/
theorem command_of_handed {handed : Handed} (hmem : handed ∈ (execute env call).handed)
    (hprobe : ∀ fields, handed ≠ .request "GetInputSettings" fields) :
    handed = command call ∧ (execute env call).refusal = none := by
  obtain ⟨-, hrefused⟩ | ⟨-, -, -, heq⟩ | ⟨row, -, -, -, -, -, -, heq⟩ := execute_cases env call
  · obtain ⟨fields, rfl⟩ := hrefused handed hmem
    exact absurd rfl (hprobe fields)
  · rw [heq] at hmem ⊢
    exact ⟨mem_singleton.mp hmem, rfl⟩
  · rw [heq] at hmem ⊢
    obtain hmem | hmem := mem_append.mp hmem
    · unfold probed at hmem
      split_ifs at hmem with hmissing
      · cases hmem
      · exact absurd (mem_singleton.mp hmem) (hprobe _)
    · exact ⟨mem_singleton.mp hmem, rfl⟩

theorem not_guarded_of_needs (hrow : row.requestType = ENUMERATION)
    (hneeds : needsCaptureGuard env (.request row) = .ok false) :
    guarded env.numerals row.propertyName = .ok false := by
  unfold needsCaptureGuard at hneeds
  dsimp only at hneeds
  rw [if_pos hrow] at hneeds
  cases hguarded : guarded env.numerals row.propertyName with
  | error error => simp [hguarded] at hneeds
  | ok value => simpa [hguarded] using hneeds

theorem not_mem_of_not_guarded {value : Option Json}
    (hguarded : guarded env.numerals value = .ok false)
    (htext : jsString env.numerals value = some property) : property ∉ GUARDED := by
  intro hmem
  rw [guarded_of_mem htext hmem] at hguarded
  cases hguarded

/-- No handed batch lists a guarded property. -/
theorem batch_not_guarded {requests : List Row} {execution : Execution} {halt : Bool}
    (hmem : .batch requests execution halt ∈ (execute env call).handed) :
    ∀ row ∈ requests, row.requestType = ENUMERATION → ∀ property,
      jsString env.numerals row.propertyName = some property → property ∉ GUARDED := by
  obtain ⟨hcommand, hnone⟩ := command_of_handed hmem (by simp)
  cases call with
  | request row => cases hcommand
  | batch rows order stop =>
    obtain ⟨rfl, rfl, rfl⟩ := Handed.batch.inj hcommand
    have hpre : precheck env (.batch requests execution halt) = .ok () := by
      obtain ⟨hrefused, -⟩ | ⟨hpre, -⟩ | ⟨row, hcall, -⟩ := execute_cases env _
      · exact absurd hnone hrefused
      · exact hpre
      · cases hcall
    have hrefusal := (precheck_eq_ok_iff.mp hpre).2.2.1
    unfold refusal at hrefusal
    dsimp only at hrefusal
    split at hrefusal
    · cases hrefusal
    · rw [or_eq_none_iff] at hrefusal
      intro row hrow henumeration property htext
      exact not_mem_of_not_guarded
        (not_guarded_of_enumerationRefusal hrefusal.1 row hrow henumeration) htext

theorem open_of_checks (hrow : row.requestType = ENUMERATION)
    (hpre : precheck env (.request row) = .ok ()) (hprobe : env.expired .probe = false)
    (hpost : postcheck env (.request row) = .ok ()) : env.Open := by
  obtain ⟨hdeadline, hpolicy, hrefusal, hblocking, hentry⟩ := precheck_eq_ok_iff.mp hpre
  obtain ⟨-, hreceipt, hstored, hdispatch⟩ := postcheck_eq_ok_iff.mp hpost
  refine ⟨hdeadline, hpolicy, ?_, hblocking, ?_, hstored⟩
  · rw [← hrow]
    by_contra hknown
    simp [refusal, hknown] at hrefusal
  · intro moment
    cases moment <;> assumption

/-- The string `capture_window` has its own text. -/
theorem text_of_plain {value : Option Json} (hplain : value.bind Json.asStr = some "capture_window")
    (htext : jsString env.numerals value = some property) : property = "capture_window" := by
  obtain ⟨value, rfl, hstr⟩ := bind_eq_some_iff.mp hplain
  cases value with
  | string s =>
    obtain rfl : s = "capture_window" := some.inj hstr
    simpa [jsString, textOf, elementText] using htext.symm
  | _ => cases hstr

/-- A handed enumeration of a guarded property was inspected, unless the call is a bypass. -/
theorem inspected_of_handed
    (hbypass : ∀ row data settings, call = .request row → ¬ Bypass env row data settings)
    {value : Json} (hmem : .request ENUMERATION value ∈ (execute env call).handed)
    (htext : jsString env.numerals (value.get "propertyName") = some property)
    (hproperty : property ∈ GUARDED) :
    ∃ row fields, call = .request row ∧ value = .object fields ∧
      Inspected env (execute env call).handed fields property := by
  obtain ⟨hcommand, hnone⟩ := command_of_handed hmem
    fun fields heq ↦ enumeration_ne_probe (Handed.request.inj heq).1
  cases call with
  | batch requests execution halt => cases hcommand
  | request row =>
    obtain ⟨henumeration, rfl⟩ := Handed.request.inj hcommand
    rw [← propertyName_eq] at htext
    have hguarded := guarded_of_mem htext hproperty
    obtain ⟨hrefused, -⟩ | ⟨-, hneeds, -⟩ | ⟨_, hcall, hpre, -, hprobe, hguard, hpost, heq⟩ :=
      execute_cases env (.request row)
    · exact absurd hnone hrefused
    · rw [not_guarded_of_needs henumeration.symm hneeds] at hguarded
      cases hguarded
    · obtain rfl := Call.request.inj hcall
      obtain ⟨settings, kind, hprobes, hreply, hkind, hsafe⟩ := captureGuard_eq_ok_iff.mp hguard
      cases hdata : row.requestData with
      | none =>
        rw [Row.propertyName, hdata] at htext
        obtain rfl : "undefined" = property := some.inj htext
        exact absurd hproperty (by decide)
      | some data =>
        simp only [hdata, getD_some] at hreply hsafe heq
        have hname : row.propertyName = Members.get data "propertyName" := by
          simp [Row.propertyName, hdata]
        have hstr := (filter_eq_some_iff.mp hkind).1
        have hnonempty := (filter_eq_some_iff.mp hkind).2
        refine ⟨row, data, rfl, rfl, settings, kind, ?_, hreply, hstr, by simpa using hnonempty,
          ?_, ?_⟩
        · rw [heq, probed, hprobes]
          simp
        · rintro rfl ⟨rfl, hhollow⟩
          have hlists := (postcheck_eq_ok_iff.mp hpost).1 ENUMERATION
            (by simp [required, ← henumeration])
          refine hbypass row data settings rfl ⟨henumeration.symm, hdata, htext, ?_,
            open_of_checks henumeration.symm hpre hprobe hpost, hprobes, hlists, hreply, hkind,
            hhollow⟩
          intro hplain
          rw [← hname, hplain] at hsafe
          exact absurd hhollow (by simpa [Json.asStr] using hsafe)
        · intro hother
          rw [if_neg] at hsafe
          · exact hsafe
          · intro hplain
            rw [← hname] at hplain
            exact hother (text_of_plain hplain htext)

/-! ### An open enumeration -/

section Open

variable (hopen : env.Open) (hrow : row.requestType = ENUMERATION)

include hopen hrow

theorem precheck_of_open : precheck env (.request row) = .ok () := by
  refine precheck_eq_ok_iff.mpr ⟨hopen.deadlineValid, hopen.policy, ?_, hopen.blocking,
    hopen.expired .entry⟩
  simp [refusal, hrow, hopen.known]

theorem postcheck_of_open :
    postcheck env (.request row) = .ok () ↔ missing env.capabilities ENUMERATION = false := by
  rw [postcheck_eq_ok_iff]
  simp [required, hrow, hopen.expired, hopen.receipt]

theorem dispatch_of_open (handed : List Handed) :
    (dispatch env (.request row) handed).refusal = none ↔
      missing env.capabilities ENUMERATION = false := by
  rw [← postcheck_of_open hopen hrow]
  unfold dispatch
  cases postcheck env (.request row) <;> simp

theorem execute_of_guarded (hdata : row.requestData = some data)
    (hguarded : guarded env.numerals row.propertyName = .ok true) :
    execute env (.request row) =
      match captureGuard env data with
      | .error text => ⟨probed env data, some text⟩
      | .ok () => dispatch env (.request row) (probed env data) := by
  cases hguard : captureGuard env data with
  | error | ok =>
    simp only [execute, precheck_of_open hopen hrow, needsCaptureGuard, if_pos hrow, hguarded,
      hdata, getD_some, hopen.expired, Bool.false_eq_true, if_false, hguard]

theorem execute_of_not_guarded (hguarded : guarded env.numerals row.propertyName = .ok false) :
    execute env (.request row) = dispatch env (.request row) [] := by
  simp only [execute, precheck_of_open hopen hrow, needsCaptureGuard, if_pos hrow, hguarded]

/-- An open enumeration is accepted exactly when it is advertised and its property is not guarded or
passes the inspection. -/
theorem accepts_iff (hdata : row.requestData = some data) {guard : Bool}
    (hguarded : guarded env.numerals row.propertyName = .ok guard) :
    (execute env (.request row)).refusal = none ↔
      (guard = true → captureGuard env data = .ok ()) ∧
        missing env.capabilities ENUMERATION = false := by
  cases guard with
  | false =>
    rw [execute_of_not_guarded hopen hrow hguarded, dispatch_of_open hopen hrow]
    simp
  | true =>
    rw [execute_of_guarded hopen hrow hdata hguarded]
    cases captureGuard env data with
    | error text => simp
    | ok _ => simp [dispatch_of_open hopen hrow]

end Open

/-- A bypass is handed over. -/
theorem handed_of_bypass (hbypass : Bypass env row data settings) :
    .request ENUMERATION (.object data) ∈ (execute env (.request row)).handed := by
  have hguarded : guarded env.numerals row.propertyName = .ok true :=
    guarded_of_mem hbypass.text (by decide)
  have hguard : captureGuard env data = .ok () := by
    refine captureGuard_eq_ok_iff.mpr ⟨settings, "xcomposite_input", hbypass.probes, hbypass.reply,
      hbypass.kind, ?_⟩
    rw [if_neg]
    · decide
    · intro hplain
      obtain ⟨value, hvalue, hstr⟩ := bind_eq_some_iff.mp hplain
      cases value with
      | string s =>
        obtain rfl : s = "capture_window" := some.inj hstr
        exact hbypass.wrapped (by simp [Row.propertyName, hbypass.requestData, hvalue])
      | _ => cases hstr
  rw [execute_of_guarded hbypass.isOpen hbypass.enumeration hbypass.requestData hguarded, hguard]
  have hpost := (postcheck_of_open hbypass.isOpen hbypass.enumeration).mpr hbypass.lists
  simp [dispatch, hpost, command, hbypass.enumeration, hbypass.requestData]

theorem not_guardHolds_of_bypass (hbypass : Bypass env row data settings) :
    ¬ GuardHolds env (.request row) := by
  intro hholds
  have hname : row.propertyName = (Json.object data).get "propertyName" := by
    rw [propertyName_eq, hbypass.requestData]
    rfl
  obtain ⟨_, fields, -, hfields, other, kind, -, hreply, hkind, -, hsafe, -⟩ :=
    hholds.request _ _ (handed_of_bypass hbypass) (hname ▸ hbypass.text) (by decide)
  obtain rfl := Json.object.inj hfields
  obtain rfl : settings = other := some.inj (hbypass.reply.symm.trans hreply)
  have hxcomposite := (filter_eq_some_iff.mp hbypass.kind).1
  rw [hkind] at hxcomposite
  exact hsafe rfl ⟨some.inj hxcomposite, hbypass.hollow⟩

/-! ### The dedicated tool -/

/-- The inspection of the dedicated tool hands nothing over. -/
theorem inspect_not_handed {context : PropertyList.Context} {request : PropertyList.Request}
    {requestType : String} {sent : Members} :
    PropertyList.inspect context request ≠ .error (.handed requestType sent) := by
  intro hinspect
  unfold PropertyList.inspect at hinspect
  repeat' split at hinspect
  all_goals simp [PropertyList.textError] at hinspect

section Dedicated

variable {context : PropertyList.Context} {name : String}
  (hcontext : PropertyList.Context.Open context)
  (hcapabilities : context.capabilities = env.capabilities)
  (hsettings : context.settings (selectors data) = env.settings (selectors data))
  (hname : Members.get data "propertyName" = some (.string name))

include hcontext hcapabilities hsettings hname

/-- The two inspections agree on a plain property name. -/
theorem inspect_iff : PropertyList.inspect context ⟨selectors data, name⟩ = .ok () ↔
    (name ∈ GUARDED → captureGuard env data = .ok ()) := by
  unfold PropertyList.inspect
  by_cases hguarded : name ∈ GUARDED
  · have hplain : (Members.get data "propertyName").bind Json.asStr = some name := by
      rw [hname]
      rfl
    simp only [hcapabilities, hsettings, hcontext.live, hcontext.fenced,
      captureGuard, probe, hplain, Option.some.injEq, hguarded, true_implies]
    by_cases hmissing : missing env.capabilities "GetInputSettings" = true
    · simp [hmissing]
    · simp only [if_neg hmissing]
      cases env.settings (selectors data) with
      | none => simp
      | some settings =>
        have hkind : ((settings.get "inputKind").bind fun kind ↦ kind.asStr.filter (· ≠ "")) =
            inputKind settings := by
          unfold inputKind Json.index
          cases settings.get "inputKind" <;> rfl
        simp only [hkind]
        cases inputKind settings with
        | none => simp
        | some kind =>
          simp only [Bool.true_eq_false, if_false]
          split_ifs <;> simp
  · simp [hguarded]

/-- The dedicated tool hands over an enumeration exactly when it is advertised and its property is
not guarded or passes the same inspection. -/
theorem run_iff :
    (∃ sent, PropertyList.run context ⟨selectors data, name⟩ = .handed ENUMERATION sent) ↔
      (name ∈ GUARDED → captureGuard env data = .ok ()) ∧
        missing env.capabilities ENUMERATION = false := by
  rw [← inspect_iff hcontext hcapabilities hsettings hname]
  unfold PropertyList.run
  simp only [hcontext.current, hcontext.live, hcontext.synchronized, hcontext.fenced,
    hcapabilities, hcontext.remaining, Bool.true_eq_false, if_false]
  cases hinspect : PropertyList.inspect context ⟨selectors data, name⟩ with
  | error outcome =>
    simp only [reduceCtorEq, false_and, iff_false]
    rintro ⟨sent, rfl⟩
    exact inspect_not_handed hinspect
  | ok _ =>
    by_cases hmissing : missing env.capabilities ENUMERATION = true
    · simp [hmissing, PropertyList.textError]
    · simp [hmissing]

end Dedicated

/-! ### The bytes of a property name -/

theorem utf8ByteSize_le_stringLength (s : String) : s.utf8ByteSize ≤ stringLength s := by
  have hchar : ∀ c : Char, c.utf8Size ≤ escapedSize c := by
    intro c
    have hfour := Char.utf8Size_le_four c
    unfold escapedSize
    split_ifs with hescaped
    · simp only [mem_cons, not_mem_nil, or_false] at hescaped
      obtain rfl | rfl | rfl | rfl | rfl | rfl | rfl := hescaped <;> decide
    · omega
    · exact Nat.le_refl _
  rw [← String.utf8Len_toList, stringLength]
  induction s.toList with
  | nil => simp
  | cons c cs ih =>
    have := hchar c
    simp only [String.utf8Len_cons, map_cons, sum_cons] at ih ⊢
    omega

theorem encodedLength_le_of_mem {members : Members} {key : String} {value : Json}
    (hmem : (key, value) ∈ members) :
    encodedLength numerals value ≤ encodedLength numerals (.object members) := by
  have hrest : ∀ rest : Members, (key, value) ∈ rest →
      encodedLength numerals value ≤ membersLength numerals rest := by
    intro rest hmem
    induction rest with
    | nil => cases hmem
    | cons member rest ih =>
      obtain ⟨other, found⟩ := member
      simp only [membersLength]
      obtain heq | hmem := mem_cons.mp hmem
      · cases heq
        omega
      · have := ih hmem
        omega
  cases members with
  | nil => cases hmem
  | cons member rest =>
    obtain ⟨other, found⟩ := member
    simp only [encodedLength]
    obtain heq | hmem := mem_cons.mp hmem
    · cases heq
      omega
    · have := hrest rest hmem
      omega

theorem get_visitMembers (numerals : Numerals) (members : Members) (key : String) :
    Members.get (visitMembers numerals members) key =
      (Members.get members key).map (visit numerals) := by
  induction members with
  | nil => rfl
  | cons member members ih =>
    obtain ⟨other, value⟩ := member
    rw [visitMembers, Members.get_cons, Members.get_cons, ih]
    split_ifs <;> rfl

theorem eq_string_of_visit {value : Json} (hvisit : visit numerals value = .string name) :
    value = .string name := by
  cases value with
  | string s => simpa [visit] using hvisit
  | _ => simp [visit] at hvisit

/-- A property name that the encoder takes is short enough to be projected. -/
theorem size_of_parse {tool : Tool} {args : Json}
    (hparse : Call.parse numerals tool args = some (.request row))
    (hname : row.propertyName = some (.string name)) : name.utf8ByteSize ≤ MAX_BYTES := by
  obtain ⟨call, -, hcall⟩ := bind_eq_some_iff.mp hparse
  split_ifs at hcall with hprepared
  have hvisit := some.inj hcall
  cases call with
  | batch requests execution halt => cases hvisit
  | request original =>
    obtain rfl := Call.request.inj hvisit
    have hlength : encodedLength numerals original.arguments ≤ MAX_BYTES := by
      simp only [prepared, Bool.and_eq_true, decide_eq_true_eq] at hprepared
      exact hprepared.2
    obtain ⟨data, hdata, hvalue⟩ := bind_eq_some_iff.mp hname
    obtain ⟨fields, hfields, rfl⟩ := map_eq_some_iff.mp hdata
    rw [get_visitMembers] at hvalue
    obtain ⟨value, hget, hstring⟩ := map_eq_some_iff.mp hvalue
    obtain rfl := eq_string_of_visit hstring
    have houter : encodedLength numerals (.object fields) ≤
        encodedLength numerals original.arguments := by
      have hmem : ("requestData", Json.object fields) ∈
          (original.requestData.map fun data ↦ ("requestData", Json.object data)).toList ++
            [("requestType", Json.string original.requestType)] := by
        simp [hfields]
      exact encodedLength_le_of_mem hmem
    calc name.utf8ByteSize
        ≤ stringLength name := utf8ByteSize_le_stringLength name
      _ = encodedLength numerals (.string name) := by simp only [encodedLength]
      _ ≤ encodedLength numerals (.object fields) :=
        encodedLength_le_of_mem (Members.mem_of_get_eq_some hget)
      _ ≤ encodedLength numerals original.arguments := houter
      _ ≤ MAX_BYTES := hlength

end Guard

/-! ### The guard -/

/-- Everything a call of either tool hands to the session keeps the guard, whatever it meets, if and
only if the call is no bypass. -/
theorem capture_guard_iff (env : Environment) (tool : Tool) (args : Json) :
    (∀ call, Call.parse env.numerals tool args = some call → GuardHolds env call) ↔
      ∀ row, Call.parse env.numerals tool args = some (.request row) →
        ∀ data settings, ¬ Bypass env row data settings := by
  constructor
  · intro hholds row hparse data settings hbypass
    exact not_guardHolds_of_bypass hbypass (hholds _ hparse)
  · intro hsafe call hparse
    refine ⟨fun value property ↦ inspected_of_handed ?_,
      fun _ _ _ hmem ↦ batch_not_guarded hmem, ?_⟩
    · rintro row data settings rfl
      exact hsafe row hparse data settings
    · rintro row data name context rfl hrow hdata hname hopen hcontext hcapabilities hsettings
      have hget : Members.get data "propertyName" = some (.string name) := by
        rw [← hname, Row.propertyName, hdata]
        rfl
      have hguarded : guarded env.numerals row.propertyName = .ok (decide (name ∈ GUARDED)) :=
        guarded_eq_ok_iff.mpr ⟨name, by rw [hname]; rfl, size_of_parse hparse hname, rfl⟩
      rw [accepts_iff hopen hrow hdata hguarded,
        run_iff hcontext hcapabilities hsettings hget]
      simp

/-- The data of an enumeration whose property is `capture_window` inside an array. -/
def wrappedData : Members :=
  [("inputName", .string "Desktop"), ("propertyName", .array [.string "capture_window"])]

def wrappedArguments : Json :=
  .object [("requestData", .object wrappedData), ("requestType", .string ENUMERATION)]

/-- The settings of a new XComposite capture. -/
def hollowSettings : Json :=
  .object [("inputKind", .string "xcomposite_input"), ("inputSettings", .object [])]

/-- Everything is in order, no request is known to be missing, and the input has no window. -/
def hollowEnvironment : Environment where
  numerals := ⟨fun _ ↦ ""⟩
  known := fun _ ↦ true
  nanoseconds := fun _ ↦ none
  deadlineValid := true
  policy := none
  blocking := false
  expired := fun _ ↦ false
  capabilities := none
  settings := fun _ ↦ some hollowSettings
  receipt := true

/-- A property inside an array bypasses the guard: the windows of an XComposite input without a
window are listed. -/
theorem wrapped_property_bypasses :
    Call.parse hollowEnvironment.numerals .callRequest wrappedArguments =
        some (.request ⟨ENUMERATION, some wrappedData⟩) ∧
      ¬ GuardHolds hollowEnvironment (.request ⟨ENUMERATION, some wrappedData⟩) := by
  have hopen : hollowEnvironment.Open := ⟨rfl, rfl, rfl, rfl, fun _ ↦ rfl, rfl⟩
  have hwrapped : Row.propertyName ⟨ENUMERATION, some wrappedData⟩ ≠
      some (.string "capture_window") := by
    simp [Row.propertyName, wrappedData, Members.get]
  have hbypass : Bypass hollowEnvironment ⟨ENUMERATION, some wrappedData⟩ wrappedData
      hollowSettings :=
    ⟨rfl, rfl, rfl, hwrapped, hopen, rfl, rfl, rfl, by decide, by decide⟩
  exact ⟨by rfl, not_guardHolds_of_bypass hbypass⟩

end ObsMcp.Opaque
