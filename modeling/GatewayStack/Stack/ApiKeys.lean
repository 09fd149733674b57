import GatewayStack.Stack.RestApi

/-!
# API keys and the usage plan

One key a configured name, one usage plan when keys or limits are configured,
and one binding of every key to the plan. Keys and plan depend on the
deployment.
-/

namespace GatewayStack.ApiKeys

/-- The names in a list, all of which have to be strings. -/
def namesIn : List Json → Except Misconfiguration (List String)
  | [] => .ok []
  | .str name :: rest => (namesIn rest).map (name :: ·)
  | _ :: _ => .error .apiKeyNotString

def names : Option Json → Except Misconfiguration (List String)
  | none => .ok []
  | some (.arr items) => namesIn items
  | some _ => .error .apiKeysNotList

def keyResource (provider : Provider) (api : Api)
    (deploymentId name : String) : Json :=
  .obj [
    ("Type", "AWS::ApiGateway::ApiKey"),
    ("Properties", .obj [
      ("Enabled", .bool true),
      ("Name", .str name),
      ("StageKeys", .arr [.obj [
        ("RestApiId", api.restApiId), ("StageName", .str provider.stage)]])]),
    ("DependsOn", .str deploymentId)]

/-- The members of a quota that are configured. -/
def quotaMembers (limits : Quota) : Json :=
  .obj (optionalProperty "Limit" (limits.limit.map Json.nat)
    ++ optionalProperty "Offset" (limits.offset.map Json.nat)
    ++ optionalProperty "Period" (limits.period.map Json.str))

/-- The members of a throttle that are configured. -/
def throttleMembers (limits : Throttle) : Json :=
  .obj (optionalProperty "BurstLimit" (limits.burstLimit.map Json.nat)
    ++ optionalProperty "RateLimit" (limits.rate.map Rate.toJson))

def planResource (provider : Provider) (api : Api)
    (deploymentId : String) : Json :=
  let limits := provider.usagePlan
  .obj [
    ("Type", "AWS::ApiGateway::UsagePlan"),
    ("DependsOn", .str deploymentId),
    ("Properties", .obj (
      [("ApiStages",
        .arr [.obj [("ApiId", api.restApiId), ("Stage", .str provider.stage)]]),
        ("Description",
          .str ("Usage plan for " ++ provider.service ++ " " ++
            provider.stage ++ " stage")),
        ("UsagePlanName", .str (provider.service ++ "-" ++ provider.stage))]
      ++ optionalProperty "Quota" ((limits.bind (·.quota)).map quotaMembers)
      ++ optionalProperty "Throttle"
        ((limits.bind (·.throttle)).map throttleMembers)))]

def bindingResource (n : Nat) : Json :=
  .obj [
    ("Type", "AWS::ApiGateway::UsagePlanKey"),
    ("Properties", .obj [
      ("KeyId", Intrinsic.ref (LogicalId.apiKey n)),
      ("KeyType", "API_KEY"),
      ("UsagePlanId", Intrinsic.ref LogicalId.usagePlan)])]

/-- The keys, counted from some number. -/
def keysFrom (provider : Provider) (api : Api)
    (deploymentId : String) (n : Nat) :
    List String → List (String × Json)
  | [] => []
  | name :: rest =>
    (LogicalId.apiKey n, keyResource provider api deploymentId name)
      :: keysFrom provider api deploymentId (n + 1) rest

/-- The bindings of so many keys, counted from some number. -/
def bindingsFrom (n : Nat) : Nat → List (String × Json)
  | 0 => []
  | count + 1 => (LogicalId.usagePlanKey n, bindingResource n) ::
    bindingsFrom (n + 1) count

/-- The stage that creates keys, plan and bindings. -/
def stage (provider : Provider) (api : Api) (deploymentId : String) :
    Except Misconfiguration Fragment := do
  let names ← names provider.apiKeys
  let keys := keysFrom provider api deploymentId 1 names
  let plan :=
    if provider.apiKeys.isNone ∧ provider.usagePlan.isNone then []
    else
      (LogicalId.usagePlan, planResource provider api deploymentId)
        :: bindingsFrom 1 names.length
  return Fragment.empty.addResources (keys ++ plan)

end GatewayStack.ApiKeys
