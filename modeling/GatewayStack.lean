import GatewayStack.Main
import GatewayStack.Proofs.Conflicts
import GatewayStack.Proofs.Kinds
import GatewayStack.Proofs.Routes
import GatewayStack.Proofs.Stages
import GatewayStack.Proofs.Methods
import GatewayStack.Proofs.Path
import GatewayStack.Proofs.Urls
import GatewayStack.Proofs.Tree
import GatewayStack.Proofs.Grammar
import GatewayStack.Proofs.Sections
import GatewayStack.Proofs.Acceptance
import GatewayStack.Proofs.KeyedMethods
import GatewayStack.Proofs.Roles
import GatewayStack.Proofs.Deployments
import GatewayStack.Proofs.Recompile
import GatewayStack.Proofs.Reading
import GatewayStack.Proofs.Refusals
import GatewayStack.Proofs.Frame
import GatewayStack.Proofs.ApiReferences
import GatewayStack.Proofs.Repetition
import GatewayStack.Proofs.CorsPolicies
import GatewayStack.Proofs.AcceptedProxies
import GatewayStack.Proofs.PathReferences
import GatewayStack.Proofs.RawJson
import GatewayStack.Proofs.Requests
import GatewayStack.Proofs.ByteOrder
import GatewayStack.Proofs.Contents
import GatewayStack.Proofs.ExtendedRoles
import GatewayStack.Proofs.Tokens
import GatewayStack.Proofs.SameFields
import GatewayStack.Proofs.Spellings
import GatewayStack.Proofs.AlphanumericIds
import GatewayStack.Proofs.SavedTemplates
import GatewayStack.Proofs.MergePaths
import GatewayStack.Proofs.Holes
import GatewayStack.Proofs.Substitutions
import GatewayStack.Proofs.RequestSources
import GatewayStack.Proofs.Responses
import GatewayStack.Proofs.PolicyMerging
import GatewayStack.Proofs.DoubleClashes
import GatewayStack.Proofs.Likeness
import GatewayStack.Proofs.ReadAlike
import GatewayStack.Proofs.AbsentNulls
import GatewayStack.Proofs.ResourceNames
import GatewayStack.Proofs.KeyOrder
import GatewayStack.Proofs.NamedSources
import GatewayStack.Proofs.UsagePlans
import GatewayStack.Proofs.PathParts
import GatewayStack.Proofs.Fragments
import GatewayStack.Proofs.PathOrder
import GatewayStack.Proofs.IdClashes
