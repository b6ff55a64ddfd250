import Bridget.Core.Message
import Bridget.Permissions.Policy

/-!
# The policy of a delegated child

The policy of a child is made from the policy of its parent, in one of four directions between
the two providers. A child that runs under Claude gets no tool that its parent lacks. A child
that runs under Codex can always read files, and a discovery asks only that the inventory of
its parent is not empty.
-/

namespace Bridget.Permissions

open Foundation List Json

/-- What the reader finds out about settings files, each answer at most once. -/
structure SettingsReadings where
  /-- The launch context of the child, captured or prepared before. -/
  captured : Except String Json
  rechecked : Except String Unit
  /-- The inputs of the parent's launch context hold no rules. -/
  withoutRules : Except String Bool
  /-- The parent has authenticated inputs, and the child mounts them natively. -/
  sdkInputs : Except String Bool
  sdkMount : Except String Unit
  /-- `native_t3_codex_scope214`. -/
  nativeScope : Bool
  /-- The child works in the directory of its parent. -/
  sameDirectory : Bool

def mappingUnavailable : String := "permission_mapping_unavailable"

def readOnlySandbox : Json := .object [("type", .str "readOnly"), ("networkAccess", .bool false)]

def textArray (texts : List String) : Json := .array (texts.map .str)

section

variable (policy : Json) (posture : Option SpawnPosture)

def codexToCodex : Except String Json := do
  ensure (((policy.get "sandbox_policy").get "type").asStr ≠ some "externalSandbox")
    "provider_confinement_unavailable"
  let policy := if posture = some .discovery then policy.set "sandbox_policy" readOnlySandbox
    else policy
  ensure (¬ (posture = some .development ∧
    ((policy.get "sandbox_policy").get "type").asStr = some "readOnly")) "permission_not_inherited"
  return policy

def claudePolicy (read : Bool) (context : Json) : Json :=
  let base := [("kind", .str "claude"),
    ("permission_mode", .str (if read then "plan" else "bypassPermissions")),
    ("permission_callback", .object [("kind", .str "native_wrapper"),
      ("tool_approval", .str "allow"), ("plan_exit", .str "deny")]),
    ("settings_sources", .str "provider_default"), ("launch_context", context)]
  .object (base ++ if read then
      [("tools", textArray readTools), ("disallowed_tools", textArray otherTools)]
    else [("tools", .object [("type", .str "preset"), ("preset", .str "claude_code")])])

def codexToClaude (readings : SettingsReadings) : Except String Json := do
  let sandbox := policy.get "sandbox_policy"
  let inherited := (sandbox.get "type").asStr = some "readOnly"
  ensure (¬ (inherited ∧ posture ≠ some .discovery ∧
    (sandbox.get? "networkAccess").bind asBool ≠ some false)) mappingUnavailable
  let read := posture = some .discovery ∨ inherited
  ensure (read ∨ (sandbox.get "type").asStr = some "dangerFullAccess")
    "provider_confinement_unavailable"
  ensure (read ∨ (policy.get "approval_policy").asStr = some "never") mappingUnavailable
  let context ← readings.captured
  return claudePolicy (decide read) context

/-- The tools for reading that the parent has, and everything else denied. -/
def reduceToDiscovery : Json :=
  let tools := readTools.filter fun name =>
    ((policy.get "tools").asArray.all fun tools => names tools name) &&
      (policy.get "disallowed_tools").asArray.all fun denied => !names denied name
  let denied := (policy.get "disallowed_tools").asArray.getD []
  let added := otherTools.filter fun name => !names denied name
  ((policy.set "permission_mode" (.str "plan")).set "tools" (textArray tools)).set
    "disallowed_tools" (.array (denied ++ added.map .str))

variable (readings : SettingsReadings) (originAttested : Bool)

/-- The settings of a Claude child are captured for it, or those of its parent are checked
again. -/
def launchSettings : Except String Json :=
  if originAttested then do
    let context ← readings.captured
    return policy.set "launch_context" context
  else do
    let inputs ← readings.sdkInputs
    whenSome (if inputs then some () else none) () fun _ => readings.sdkMount
    readings.rechecked
    return policy

def claudeToClaude : Except String Json := do
  let policy ← launchSettings policy readings originAttested
  let callback := policy.get "permission_callback"
  ensure readings.sameDirectory mappingUnavailable
  ensure (¬ (posture ≠ some .discovery ∧ (callback.get "kind").asStr = some "t3_runtime" ∧
    (callback.get "tool_approval").asStr = some "allow" ∧
    oneOf (policy.get "permission_mode") ["bypassPermissions", "auto"] = false)) mappingUnavailable
  ensure (¬ (posture = some .development ∧ isPlan policy)) "permission_not_inherited"
  let policy := if posture = some .discovery then reduceToDiscovery policy else policy
  return policy.set "permission_callback"
    ((policy.get "permission_callback").set "kind" (.str "native_wrapper"))

def SettingsReadings.rulesAbsent : Except String Bool :=
  if originAttested then .ok true else readings.withoutRules

def codexPolicy (sandbox : Json) : Json :=
  .object [("kind", .str "codex"), ("approval_policy", .str "never"),
    ("approvals_reviewer", .str "user"), ("sandbox_policy", sandbox)]

/-- The rules that Claude enforces have no counterpart, so that there must be none. -/
def codexSettings (readings : SettingsReadings) (originAttested : Bool) : Except String Json := do
  ensure (¬ (readings.nativeScope ∧ ¬ originAttested)) attestationUnavailable
  if readings.nativeScope then return policy.remove "allowed_tools"
  else
    let _ ← orError (policy.get? "launch_context") "permission_source_unavailable"
    let absent ← readings.rulesAbsent originAttested
    ensure absent mappingUnavailable
    return policy

def claudeToCodex (readings : SettingsReadings) (originAttested : Bool) : Except String Json := do
  let policy ← codexSettings policy readings originAttested
  let tools := (policy.get "tools").asArray
  ensure ((policy.get "disallowed_tools").asArray.all isEmpty) mappingUnavailable
  -- an empty inventory must never gain the file tools of Codex
  ensure (¬ (tools.any isEmpty) ∧ (policy.get "allowed_tools").asArray.all isEmpty)
    mappingUnavailable
  let full := (policy.get "permission_mode").asStr = some "bypassPermissions" ∧
    ((policy.get "permission_callback").get "tool_approval").asStr = some "allow" ∧
    (((policy.get "tools").get "preset").asStr = some "claude_code" ∨
      tools.any (names · "Bash"))
  let read := posture = some .discovery ∨
    isPlan policy ∧ tools.any fun tools => tools.all fun tool => oneOf tool readTools
  ensure (full ∨ read) mappingUnavailable
  return codexPolicy (if read then readOnlySandbox else .object [("type", .str "dangerFullAccess")])

end

def onlyReadTools (policy : Json) : Bool :=
  (policy.get "tools").asArray.any fun tools => tools.all fun tool => oneOf tool readTools

def effectivePosture (policy : Json) (posture : Option SpawnPosture) : SpawnPosture :=
  if posture = some .discovery ∨
      ((policy.get "sandbox_policy").get "type").asStr = some "readOnly" ∨ isPlan policy ∨
      onlyReadTools policy then .discovery
  else .development

/-- The policy in the direction that the two protocols ask for. -/
def translatePolicy (readings : SettingsReadings) (parent : ProviderPermissions) (protocol : String)
    (originAttested : Bool) (posture : Option SpawnPosture) : Except String Json :=
  let policy := parent.providerPolicy
  if parent.driver = "codex_app_server" ∧ protocol = "codex_app_server" then
    codexToCodex policy posture
  else if parent.driver = "codex_app_server" ∧ protocol = "claude_stream_json" then
    codexToClaude policy posture readings
  else if parent.driver = "claude_stream_json" ∧ protocol = "claude_stream_json" then
    claudeToClaude policy posture readings originAttested
  else if parent.driver = "claude_stream_json" ∧ protocol = "codex_app_server" then
    claudeToCodex policy posture readings originAttested
  else .error mappingUnavailable

/-- The reader of `child_policy_reader_catalogue_scope171`. -/
def childPolicy (checks : PermissionChecks) (readings : SettingsReadings)
    (parent : ProviderPermissions) (protocol : String) (originAttested : Bool)
    (posture : Option SpawnPosture) : Except String (Json × SpawnPosture) := do
  validatePermissions checks parent (parent.source = "provider_turn")
  let policy ← translatePolicy readings parent protocol originAttested posture
  let effective := effectivePosture policy posture
  ensure (¬ (posture = some .development ∧ effective = .discovery)) "permission_not_inherited"
  return (policy, effective)

/-- The child may do what its parent may do. -/
def Inherits (child parent : Json) : Prop :=
  ∀ capability, grants child capability = true → grants parent capability = true

section

variable {policy child next : Json} {posture : Option SpawnPosture} {readings : SettingsReadings}
  {originAttested : Bool} {capability : Capability} {tool : String}

theorem grants_readOnly (hkind : (policy.get "kind").asStr = some "codex")
    (hsandbox : policy.get "sandbox_policy" = readOnlySandbox)
    (h : grants policy capability = true) : capability = .read := by
  rw [grants_codex hkind, hsandbox] at h
  cases capability with
  | read => rfl
  | _ => revert h; decide

section

variable (hkind : (policy.get "kind").asStr = some "codex")
  (hsandbox : validSandbox (policy.get "sandbox_policy") = true)

include hkind hsandbox

theorem codexToCodex_inherits (hobject : policy.isObject = true)
    (h : codexToCodex policy posture = .ok child) : Inherits child policy := by
  simp only [codexToCodex, ok_iff] at h
  obtain ⟨-, -, -, -, rfl⟩ := h
  intro capability hgrants
  split at hgrants
  · have hread : capability = .read := by
      refine grants_readOnly ?_ (get_set hobject) hgrants
      rw [get_set_ne (by decide), hkind]
    rw [hread, grants_codex hkind]
    exact sandboxGrants_read hsandbox
  · exact hgrants

theorem codexToClaude_inherits
    (h : codexToClaude policy posture readings = .ok child) : Inherits child policy := by
  simp only [codexToClaude, ok_iff] at h
  obtain ⟨-, -, -, hconfined, -, -, _, -, rfl⟩ := h
  intro capability hgrants
  rw [grants_codex hkind]
  by_cases hread : posture = some .discovery ∨
      ((policy.get "sandbox_policy").get "type").asStr = some "readOnly"
  · rw [decide_eq_true hread] at hgrants
    cases capability with
    | read => exact sandboxGrants_read hsandbox
    | _ => exact (Bool.false_ne_true hgrants).elim
  · have hfull := hconfined.resolve_left hread
    cases capability <;> simp [sandboxGrants, oneOf, hfull]

end

/-- What a Claude policy allows is told by these fields. -/
theorem toolsGrant_congr {other : Json} (htools : other.get "tools" = policy.get "tools")
    (hdenied : other.get "disallowed_tools" = policy.get "disallowed_tools")
    (hmode : other.get "permission_mode" = policy.get "permission_mode") (capability : Capability) :
    toolsGrant other capability = toolsGrant policy capability := by
  have hhas : hasTool other = hasTool policy := by
    funext tool
    rw [hasTool, htools, hdenied, hasTool]
  have hplan : isPlan other = isPlan policy := by rw [isPlan, hmode, isPlan]
  cases capability <;> simp only [toolsGrant, hhas, hplan]

theorem launchSettings_same (h : launchSettings policy readings originAttested = .ok next) :
    next.isObject = policy.isObject ∧
      ∀ key, key ≠ "launch_context" → next.get key = policy.get key := by
  unfold launchSettings at h
  split at h
  · simp only [ok_iff] at h
    obtain ⟨_, -, rfl⟩ := h
    exact ⟨isObject_set, fun key => get_set_ne⟩
  · simp only [ok_iff] at h
    obtain ⟨_, -, -, -, -, -, rfl⟩ := h
    exact ⟨rfl, fun _ _ => rfl⟩

theorem claudeToClaude_inherits (hkind : (policy.get "kind").asStr = some "claude")
    (hobject : policy.isObject = true)
    (h : claudeToClaude policy posture readings originAttested = .ok child) :
    Inherits child policy := by
  simp only [claudeToClaude, ok_iff] at h
  obtain ⟨settled, hsettled, -, -, -, -, -, -, rfl⟩ := h
  obtain ⟨hsettledObject, hsame⟩ := launchSettings_same hsettled
  intro capability hgrants
  rw [grants_claude hkind, ← toolsGrant_congr (hsame "tools" (by decide))
    (hsame "disallowed_tools" (by decide)) (hsame "permission_mode" (by decide))]
  split at hgrants
  · have hchild : toolsGrant (reduceToDiscovery settled) capability = true := by
      rw [grants_claude] at hgrants
      · rwa [toolsGrant_congr (get_set_ne (by decide)) (get_set_ne (by decide))
          (get_set_ne (by decide))] at hgrants
      · rw [get_set_ne (by decide), reduceToDiscovery, get_set_ne (by decide),
          get_set_ne (by decide), get_set_ne (by decide), hsame "kind" (by decide), hkind]
    have hplan : isPlan (reduceToDiscovery settled) = true := by
      rw [isPlan, reduceToDiscovery, get_set_ne (by decide), get_set_ne (by decide),
        get_set (hsettledObject.trans hobject)]
      rfl
    cases capability with
    | read =>
      obtain ⟨tool, hmem, htool⟩ := any_eq_true.mp hchild
      -- a discovery has only tools for reading that its parent has
      rw [hasTool, Bool.and_eq_true] at htool
      have htools := htool.1
      rw [reduceToDiscovery, get_set_ne (by decide),
        get_set (by simpa using hsettledObject.trans hobject)] at htools
      simp only [textArray, asArray, Option.all_some, names, any_map, any_eq_true,
        Function.comp_apply, asStr, Option.some.injEq, test_iff] at htools
      obtain ⟨_, hkept, rfl⟩ := htools
      exact any_eq_true.mpr ⟨_, hmem, (mem_filter.mp hkept).2⟩
    | _ => simp [toolsGrant, hplan] at hchild
  · rw [grants_claude] at hgrants
    · rwa [toolsGrant_congr (get_set_ne (by decide)) (get_set_ne (by decide))
        (get_set_ne (by decide))] at hgrants
    · rw [get_set_ne (by decide), hsame "kind" (by decide), hkind]

/-- The inventory is a list without a tool that reads. -/
def CannotRead (policy : Json) : Prop :=
  ∃ tools, (policy.get "tools").asArray = some tools ∧
    ∀ tool ∈ ["Read", "Glob", "Grep", "Bash"], names tools tool = false

theorem codexSettings_same (h : codexSettings policy readings originAttested = .ok next) :
    ∀ key, key ≠ "allowed_tools" → next.get key = policy.get key := by
  simp only [codexSettings, ok_iff] at h
  obtain ⟨-, -, h⟩ := h
  split at h
  · obtain rfl := pure_eq_ok.mp h
    exact fun key => get_remove_ne
  · simp only [ok_iff] at h
    obtain ⟨_, -, _, -, _, -, rfl⟩ := h
    exact fun _ _ => rfl

section

variable (hdenied : (policy.get "disallowed_tools").asArray.all isEmpty = true)

include hdenied

/-- Without denied tools the parent has what its inventory names. -/
theorem hasTool_of_names :
    hasTool policy tool = (policy.get "tools").asArray.all fun tools => names tools tool := by
  unfold hasTool
  cases hlist : (policy.get "disallowed_tools").asArray with
  | none => simp
  | some =>
    rw [hlist, Option.all_some, List.isEmpty_iff] at hdenied
    simp [hdenied, names]

theorem toolsGrant_read_iff : toolsGrant policy .read = true ↔ ¬ CannotRead policy := by
  simp only [toolsGrant, any_eq_true, hasTool_of_names hdenied, CannotRead]
  cases (policy.get "tools").asArray with
  | none => simp
  | some =>
    simp only [Option.all_some, Option.some.injEq, exists_eq_left', not_forall,
      Bool.not_eq_false, exists_prop]

end

theorem inherits_codexPolicy_readOnly :
    Inherits (codexPolicy readOnlySandbox) policy ↔ grants policy .read = true := by
  constructor
  · exact fun h => h .read rfl
  · intro _ _ hgrants
    rwa [grants_readOnly rfl rfl hgrants]

theorem claudeToCodex_inherits_iff (hkind : (policy.get "kind").asStr = some "claude")
    (h : claudeToCodex policy posture readings originAttested = .ok child) :
    Inherits child policy ↔ ¬ (posture = some .discovery ∧ CannotRead policy) := by
  simp only [claudeToCodex, ok_iff] at h
  obtain ⟨_, hsettled, -, hdenied, -, ⟨hsome, -⟩, -, hmode, rfl⟩ := h
  have hsame := codexSettings_same hsettled
  simp only [isPlan, hsame "disallowed_tools" (by decide), hsame "tools" (by decide),
    hsame "permission_mode" (by decide), hsame "permission_callback" (by decide)]
    at hdenied hsome hmode ⊢
  split
  next hread =>
    rw [inherits_codexPolicy_readOnly, grants_claude hkind, toolsGrant_read_iff hdenied]
    constructor
    · exact fun hable hboth => hable hboth.2
    intro hnot hcannot
    rcases hread with hdiscovery | ⟨-, honly⟩
    · exact hnot ⟨hdiscovery, hcannot⟩
    -- an inventory of nothing but tools for reading names one of them, as it is not empty
    obtain ⟨tools, htools, hall⟩ := (Option.any_eq_true _ _).mp honly
    obtain ⟨listed, hlisted, hnone⟩ := hcannot
    cases htools.symm.trans hlisted
    obtain ⟨tool, hmem⟩ := exists_mem_of_ne_nil tools fun hnil => hsome (by simp [htools, hnil])
    have hone := all_eq_true.mp hall tool hmem
    obtain ⟨name, htext, hname⟩ := (Option.any_eq_true _ _).mp hone
    have habsent : names tools name = false := by
      apply hnone name
      revert hname
      simp only [readTools, contains_iff_mem, mem_cons, not_mem_nil, or_false]
      tauto
    have hnames : names tools name = true := by
      simp only [names, any_eq_true, test_iff]
      exact ⟨tool, hmem, htext⟩
    exact Bool.false_ne_true (habsent.symm.trans hnames)
  next hread =>
    -- the child may do everything, and so may its parent
    obtain ⟨hbypass, -, hinventory⟩ := hmode.resolve_right hread
    have hplan : isPlan policy = false := by
      rw [isPlan, hbypass]
      rfl
    have hbash : hasTool policy "Bash" = true := by
      rw [hasTool_of_names hdenied]
      cases htools : (policy.get "tools").asArray with
      | none => rfl
      | some tools =>
        rcases hinventory with _ | hnames
        · cases hvalue : policy.get "tools" <;>
            simp_all [Json.asArray, Json.get, Json.get?, Json.asStr]
        · rw [htools] at hnames
          exact hnames
    refine ⟨fun _ hboth => hread (.inl hboth.1), fun _ capability _ => ?_⟩
    rw [grants_claude hkind]
    cases capability <;> simp [toolsGrant, hbash, hplan]

end

/-- A discovery under Codex for a parent under Claude whose tools cannot read. -/
def GainsReading (parent : ProviderPermissions) (protocol : String)
    (posture : Option SpawnPosture) : Prop :=
  parent.driver = "claude_stream_json" ∧ protocol = "codex_app_server" ∧
    posture = some .discovery ∧ CannotRead parent.providerPolicy

theorem isObject_of_keys {value : Json} {required optional : List String}
    (h : keys value required optional = true) : value.isObject = true := by
  cases value with
  | object => rfl
  | _ => cases h

/-- A child may do what its parent may do, except in a discovery that gains reading. -/
theorem childPolicy_inherits_iff (checks : PermissionChecks) (readings : SettingsReadings)
    (parent : ProviderPermissions) (protocol : String) (originAttested : Bool)
    (posture : Option SpawnPosture) (policy : Json) (effective : SpawnPosture)
    (h : childPolicy checks readings parent protocol originAttested posture =
      .ok (policy, effective)) :
    Inherits policy parent.providerPolicy ↔ ¬ GainsReading parent protocol posture := by
  simp only [childPolicy, ok_iff, pair_iff] at h
  obtain ⟨_, hvalid, _, hfound, -, -, rfl, -⟩ := h
  unfold translatePolicy at hfound
  split_ifs at hfound with hcc hcl hll hlc
  · obtain ⟨hkind, hobject, hsandbox⟩ := validatePermissions_codex hvalid hcc.1
    have hnot : ¬ GainsReading parent protocol posture := by simp [GainsReading, hcc.1]
    exact iff_of_true (codexToCodex_inherits hkind hsandbox (isObject_of_keys hobject) hfound) hnot
  · obtain ⟨hkind, -, hsandbox⟩ := validatePermissions_codex hvalid hcl.1
    have hnot : ¬ GainsReading parent protocol posture := by simp [GainsReading, hcl.1]
    exact iff_of_true (codexToClaude_inherits hkind hsandbox hfound) hnot
  · obtain ⟨hkind, hkeys⟩ := validatePermissions_claude hvalid hll.1
    have hnot : ¬ GainsReading parent protocol posture := by simp [GainsReading, hll.2]
    exact iff_of_true (claudeToClaude_inherits hkind (isObject_of_keys hkeys) hfound) hnot
  · obtain ⟨hkind, -⟩ := validatePermissions_claude hvalid hlc.1
    rw [claudeToCodex_inherits_iff hkind hfound]
    simp [GainsReading, hlc.1, hlc.2]

def sampleRevision : Json :=
  .str "sha256:0123456789abcdef0123456789abcdef0123456789abcdef0123456789abcdef"

/-- Claude was started from its own settings alone. -/
def sampleContext : Json :=
  .object [("cli_path", .str "/bin/claude"), ("cli_revision", sampleRevision),
    ("resolved_cli_path", .str "/bin/claude"), ("resolved_cli_revision", sampleRevision),
    ("config_dir", .str "/home/.claude"), ("settings_sources", .str "provider_default"),
    ("permission_sources", .array [.object [("kind", .str "user"),
      ("path", .str "/home/.claude/settings.json"), ("revision", sampleRevision)]])]

def claudeParent (tools : List String) : ProviderPermissions where
  version := 1
  source := "native_wrapper"
  runId := "run"
  providerSessionId := "session"
  providerInstanceId := "instance"
  revision := 1
  driver := "claude_stream_json"
  cwd := "/work"
  runtimeMode := "full-access"
  interactionMode := "default"
  providerPolicy := .object [("kind", .str "claude"), ("permission_mode", .str "default"),
    ("tools", textArray tools), ("permission_callback", .object [("kind", .str "native_wrapper"),
      ("tool_approval", .str "prompt"), ("plan_exit", .str "deny")]),
    ("settings_sources", .str "provider_default"), ("launch_context", sampleContext)]

def acceptingChecks : PermissionChecks where
  sourceEquivalence := fun _ => .ok ()
  contextLength := fun _ => 512
  encodedLength := fun _ => 512

def quietReadings : SettingsReadings where
  captured := .ok sampleContext
  rechecked := .ok ()
  withoutRules := .ok true
  sdkInputs := .ok false
  sdkMount := .ok ()
  nativeScope := false
  sameDirectory := true

/-- A parent that may only read has a child that may only read. -/
theorem childPolicy_reader :
    childPolicy acceptingChecks quietReadings (claudeParent ["Read"]) "codex_app_server" false
        (some .discovery) = .ok (codexPolicy readOnlySandbox, .discovery) ∧
      Inherits (codexPolicy readOnlySandbox) (claudeParent ["Read"]).providerPolicy := by
  have hok : childPolicy acceptingChecks quietReadings (claudeParent ["Read"]) "codex_app_server"
      false (some .discovery) = .ok (codexPolicy readOnlySandbox, .discovery) := by rfl
  refine ⟨hok, (childPolicy_inherits_iff _ _ _ _ _ _ _ _ hok).mpr ?_⟩
  rintro ⟨-, -, -, _, htools, hnone⟩
  cases htools
  exact Bool.false_ne_true (hnone "Read" (by decide)).symm

/-- A parent with nothing but a tool for the web gets a child that reads files. -/
theorem childPolicy_gains_reading :
    childPolicy acceptingChecks quietReadings (claudeParent ["WebFetch"]) "codex_app_server" false
        (some .discovery) = .ok (codexPolicy readOnlySandbox, .discovery) ∧
      grants (codexPolicy readOnlySandbox) .read = true ∧
      grants (claudeParent ["WebFetch"]).providerPolicy .read = false := by
  refine ⟨by rfl, rfl, rfl⟩

end Bridget.Permissions
