import Bridget.Foundation.Fallible
import Bridget.Foundation.Json

/-!
# Native permission policies

A provider tells which rights a session has: a sandbox for Codex, a list of tools and a mode
for Claude. The policy is a JSON value whose shape is checked before anything is read from it.
-/

namespace Bridget.Permissions

open Foundation

structure ProviderPermissions where
  version : Nat
  (source runId providerSessionId providerInstanceId : String)
  revision : Nat
  (driver cwd runtimeMode interactionMode : String)
  providerPolicy : Json

/-- What the checks rely on beside the policy itself. -/
structure PermissionChecks where
  /-- The manifests of a launch context that has a witness of equivalence. -/
  sourceEquivalence : Json → Except String Unit
  contextLength : Json → Nat
  encodedLength : ProviderPermissions → Nat

def attestationUnavailable : String := "permission_attestation_unavailable"

/-- An object with all required fields and no others than those and the optional ones. -/
def keys : Json → List String → List String → Bool
  | .object fields, required, optional =>
    required.all (fun key => (fields.lookup key).isSome) &&
      fields.all fun field => required.contains field.1 || optional.contains field.1
  | _, _, _ => false

variable (value : Json)

def textList (paths : Bool) : Bool :=
  value.asArray.any fun items => items.length ≤ 128 &&
    items.all fun item => item.asStr.any fun s =>
      validAtom s (if paths then 4096 else 512) && (!paths || isAbsolute s)

def isFlag : Bool := value.asBool.isSome

def oneOf (texts : List String) : Bool := value.asStr.any texts.contains

/-- The checks of `sandbox_policy`. -/
def validSandbox (sandbox : Json) : Bool :=
  match (sandbox.get "type").asStr with
  | some "dangerFullAccess" => keys sandbox ["type"] []
  | some "readOnly" =>
    keys sandbox ["type"] ["networkAccess"] && (sandbox.get? "networkAccess").all isFlag
  | some "workspaceWrite" =>
    keys sandbox ["type"]
        ["networkAccess", "writableRoots", "excludeSlashTmp", "excludeTmpdirEnvVar"] &&
      (["networkAccess", "excludeSlashTmp", "excludeTmpdirEnvVar"].all fun key =>
        (sandbox.get? key).all isFlag) &&
      (sandbox.get? "writableRoots").all fun roots => textList roots true
  | some "externalSandbox" =>
    keys sandbox ["type"] ["networkAccess"] &&
      (sandbox.get? "networkAccess").all fun access => oneOf access ["restricted", "enabled"]
  | _ => false

def validApproval (approval : Json) : Bool :=
  oneOf approval ["untrusted", "on-request", "never"] ||
    (keys approval ["granular"] [] &&
      keys (approval.get "granular") ["mcp_elicitations", "rules", "sandbox_approval"]
        ["request_permissions", "skill_approval"] &&
      match approval.get "granular" with
      | .object fields => fields.all fun field => isFlag field.2
      | _ => false)

def validateCodex (policy : Json) : Except String Unit :=
  ensure ((policy.get "kind").asStr = some "codex" ∧
    keys policy ["kind", "approval_policy", "approvals_reviewer", "sandbox_policy"] [] ∧
    validApproval (policy.get "approval_policy") ∧
    oneOf (policy.get "approvals_reviewer") ["user", "auto_review", "guardian_subagent"] ∧
    validSandbox (policy.get "sandbox_policy")) attestationUnavailable

def validTools (tools : Json) : Bool :=
  textList tools false ||
    (keys tools ["type", "preset"] [] && (tools.get "type").asStr = some "preset" &&
      (tools.get "preset").asStr = some "claude_code")

def validCallback (callback : Json) (t3 : Bool) : Bool :=
  keys callback ["kind", "tool_approval", "plan_exit"] [] &&
    (callback.get "kind").asStr = some (if t3 then "t3_runtime" else "native_wrapper") &&
    oneOf (callback.get "tool_approval") ["prompt", "allow"] &&
    (callback.get "plan_exit").asStr = some "deny"

def permissionModes : List String :=
  ["default", "acceptEdits", "bypassPermissions", "plan", "dontAsk", "auto"]

def absolutePath : Bool := value.asStr.any fun s => validAtom s 4096 && isAbsolute s

/-- The closure `digest`: a SHA-256 with its name in front. -/
def digest : Bool :=
  value.asStr.any fun s => s.toList.take 7 = "sha256:".toList &&
    validDigest (String.ofList (s.toList.drop 7))

def validSettingsSources : Bool :=
  value.asStr = some "provider_default" || value.asArray.any fun sources =>
    sources.length ≤ 3 && sources.all (oneOf · ["user", "project", "local"]) &&
      (sources.filterMap Json.asStr).Nodup

/-- A version that is not a number counts as the first one, which must not be written. -/
def attestationVersion (context : Json) : Nat :=
  ((context.get? "attestation_version").bind Json.asU64).getD 1

def isHook (source : Json) : Bool := (source.get "kind").asStr = some "hook"

def validPermissionSource (version : Nat) (source : Json) : Bool :=
  keys source ["kind", "path", "revision"] [] &&
    (oneOf (source.get "kind") ["user", "project", "local", "managed", "cli"] ||
      (version = 2 && isHook source)) && absolutePath (source.get "path") &&
    ((source.get "revision").asStr = some "absent" || digest (source.get "revision")) &&
    (!isHook source || digest (source.get "revision"))

/-- Sources that are hooks need the second version and a way in which they are executed. -/
def validHooks (version : Nat) (context : Json) : Bool :=
  let hooks := (context.get "permission_sources").asArray.any fun sources => sources.any isHook
  match context.get? "hook_execution" with
  | some execution =>
    oneOf execution ["native_same_host", "native_remote_equivalent", "native_remote_guarded"] &&
      version = 2 && hooks
  | none => !hooks

def validOverrides (overrides : Json) : Bool :=
  keys overrides [] ["permissions"] && (overrides.get? "permissions").all fun p =>
    keys p [] ["allow", "ask", "deny", "defaultMode", "additionalDirectories",
        "disableBypassPermissionsMode"] &&
      (["allow", "ask", "deny"].all fun key => (p.get? key).all (textList · false)) &&
      (p.get? "additionalDirectories").all (textList · true) &&
      (p.get? "defaultMode").all (oneOf · permissionModes) &&
      (p.get? "disableBypassPermissionsMode").all (oneOf · ["disable"])

variable (checks : PermissionChecks)

def validatePermissionSourceEquivalence (context : Json) : Except String Unit :=
  match context.get? "source_equivalence" with
  | some _ => checks.sourceEquivalence context
  | none =>
    ensure (oneOf (context.get "hook_execution")
      ["native_remote_equivalent", "native_remote_guarded"] = false) attestationUnavailable

/-- The checks of `launch_context`. -/
def validateLaunchContext (context : Json) : Except String Unit := do
  let version := attestationVersion context
  ensure (keys context ["cli_path", "cli_revision", "resolved_cli_path", "resolved_cli_revision",
      "config_dir", "settings_sources", "permission_sources"]
      ["attestation_version", "hook_execution", "source_equivalence", "settings_overrides"] ∧
    (∀ field ∈ ["cli_path", "resolved_cli_path", "config_dir"], absolutePath (context.get field)) ∧
    digest (context.get "cli_revision") ∧ digest (context.get "resolved_cli_revision") ∧
    validSettingsSources (context.get "settings_sources") ∧
    (version = 2 ∨ (version = 1 ∧ (context.get? "attestation_version").isNone)) ∧
    ((context.get "permission_sources").asArray.any fun sources =>
      sources.length ≤ (if version = 2 then 128 else 32) &&
        sources.all (validPermissionSource version)) ∧
    (version = 2 → checks.contextLength context ≤ 48 * 1024) ∧
    validHooks version context) attestationUnavailable
  validatePermissionSourceEquivalence checks context
  ensure ((context.get? "settings_overrides").all validOverrides) "permission_source_unavailable"

def validateClaude (policy : Json) (t3 : Bool) : Except String Unit := do
  ensure ((policy.get "kind").asStr = some "claude" ∧
    keys policy ["kind", "permission_mode", "tools", "permission_callback", "settings_sources"]
      ["allowed_tools", "disallowed_tools", "additional_directories",
        "allow_dangerously_skip_permissions", "launch_context"] ∧
    oneOf (policy.get "permission_mode") permissionModes ∧ validTools (policy.get "tools") ∧
    (policy.get? "allowed_tools").all (fun tools => textList tools false) ∧
    (policy.get? "disallowed_tools").all (fun tools => textList tools false) ∧
    (policy.get? "additional_directories").all (fun roots => textList roots true) ∧
    (policy.get? "allow_dangerously_skip_permissions").all isFlag ∧
    (policy.get "settings_sources").asStr = some "provider_default" ∧
    validCallback (policy.get "permission_callback") t3) attestationUnavailable
  whenSome (policy.get? "launch_context") () (validateLaunchContext checks)

def validatePermissions (fact : ProviderPermissions) (t3 : Bool) : Except String Unit := do
  ensure (fact.version = 1 ∧ fact.revision ≠ 0 ∧ fact.revision ≤ humanLineageMaxSeq ∧
    fact.source = (if t3 then "provider_turn" else "native_wrapper") ∧
    (∀ s ∈ [fact.runId, fact.providerSessionId, fact.providerInstanceId], validAtom s 256) ∧
    validAtom fact.cwd 4096 ∧ isAbsolute fact.cwd ∧
    fact.runtimeMode ∈ ["approval-required", "auto-accept-edits", "auto", "full-access"] ∧
    fact.interactionMode ∈ ["default", "plan"]) attestationUnavailable
  if fact.driver = "codex_app_server" then validateCodex fact.providerPolicy
  else if fact.driver = "claude_stream_json" then validateClaude checks fact.providerPolicy t3
  else .error attestationUnavailable
  ensure (checks.encodedLength fact ≤ 64 * 1024) attestationUnavailable

inductive Capability where
  | read | write | command | network
  deriving DecidableEq

/-- A sandbox that is kept outside of Codex confines nothing inside but the network. -/
def sandboxGrants (sandbox : Json) : Capability → Bool
  | .read => oneOf (sandbox.get "type")
      ["readOnly", "workspaceWrite", "dangerFullAccess", "externalSandbox"]
  | .write | .command => oneOf (sandbox.get "type")
      ["workspaceWrite", "dangerFullAccess", "externalSandbox"]
  | .network => oneOf (sandbox.get "type") ["dangerFullAccess"] ||
      (oneOf (sandbox.get "type") ["readOnly", "workspaceWrite"] &&
        (sandbox.get "networkAccess").asBool = some true) ||
      (oneOf (sandbox.get "type") ["externalSandbox"] &&
        (sandbox.get "networkAccess").asStr = some "enabled")

def readTools : List String := ["Read", "Glob", "Grep"]

/-- The tools beyond reading, in the order in which a discovery denies them. -/
def otherTools : List String := ["Bash", "Edit", "Write", "NotebookEdit", "WebFetch", "WebSearch"]

variable (policy : Json)

/-- The tool is in the inventory, which is a list or all that is built in, and not denied. -/
def hasTool (tool : String) : Bool :=
  ((policy.get "tools").asArray.all fun tools => Json.names tools tool) &&
    (policy.get "disallowed_tools").asArray.all fun denied => !Json.names denied tool

def isPlan : Bool := (policy.get "permission_mode").asStr = some "plan"

def toolsGrant : Capability → Bool
  | .read => ["Read", "Glob", "Grep", "Bash"].any (hasTool policy)
  | .write => !isPlan policy && ["Edit", "Write", "NotebookEdit", "Bash"].any (hasTool policy)
  | .command => !isPlan policy && hasTool policy "Bash"
  | .network => !isPlan policy && ["WebFetch", "WebSearch", "Bash"].any (hasTool policy)

def grants (capability : Capability) : Bool :=
  ((policy.get "kind").asStr = some "codex" &&
      sandboxGrants (policy.get "sandbox_policy") capability) ||
    ((policy.get "kind").asStr = some "claude" && toolsGrant policy capability)

section

variable {policy : Json} {capability : Capability} {checks : PermissionChecks}
  {fact : ProviderPermissions}

theorem grants_codex (hkind : (policy.get "kind").asStr = some "codex") :
    grants policy capability = sandboxGrants (policy.get "sandbox_policy") capability := by
  simp [grants, hkind]

theorem grants_claude (hkind : (policy.get "kind").asStr = some "claude") :
    grants policy capability = toolsGrant policy capability := by
  simp [grants, hkind]

/-- Every sandbox that is accepted lets the session read. -/
theorem sandboxGrants_read {sandbox : Json} (h : validSandbox sandbox = true) :
    sandboxGrants sandbox .read = true := by
  unfold validSandbox at h
  split at h
  next htype => simp [sandboxGrants, oneOf, htype]
  next htype => simp [sandboxGrants, oneOf, htype]
  next htype => simp [sandboxGrants, oneOf, htype]
  next htype => simp [sandboxGrants, oneOf, htype]
  · cases h

theorem validatePermissions_codex {t3 : Bool} (h : validatePermissions checks fact t3 = .ok ())
    (hdriver : fact.driver = "codex_app_server") :
    (fact.providerPolicy.get "kind").asStr = some "codex" ∧ keys fact.providerPolicy
        ["kind", "approval_policy", "approvals_reviewer", "sandbox_policy"] [] = true ∧
      validSandbox (fact.providerPolicy.get "sandbox_policy") = true := by
  simp only [validatePermissions, ok_iff, if_pos hdriver, validateCodex] at h
  obtain ⟨-, -, -, ⟨hkind, hkeys, -, -, hsandbox⟩, -⟩ := h
  exact ⟨hkind, hkeys, hsandbox⟩

theorem validatePermissions_claude {t3 : Bool} (h : validatePermissions checks fact t3 = .ok ())
    (hdriver : fact.driver = "claude_stream_json") :
    (fact.providerPolicy.get "kind").asStr = some "claude" ∧ keys fact.providerPolicy
        ["kind", "permission_mode", "tools", "permission_callback", "settings_sources"]
        ["allowed_tools", "disallowed_tools", "additional_directories",
          "allow_dangerously_skip_permissions", "launch_context"] = true := by
  simp only [validatePermissions, ok_iff, hdriver,
    if_neg (show ¬ "claude_stream_json" = "codex_app_server" by decide), if_true,
    validateClaude] at h
  obtain ⟨-, -, -, ⟨-, ⟨hkind, hkeys, -⟩, -⟩, -⟩ := h
  exact ⟨hkind, hkeys⟩

end

end Bridget.Permissions
