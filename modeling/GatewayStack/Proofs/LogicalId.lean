import GatewayStack.LogicalId
import Mathlib.Data.List.Infix

/-!
# What a logical id tells

An id is a word for its kind, then a path, a verb, a number or a token. Two
things can be read back from it. One is its kind: no word is the beginning of
another but for the usage plan, whose id is that word and nothing else, so a
resource of one kind never lands on a resource of another. The other is the verb
of a method, because no two verbs end in the same two letters; what is left in
front of it is the fragment of the path.

The path itself cannot be read back. Two methods have the same id exactly when
they have the same verb and their paths have the same fragment
(`method_eq_iff`), and fragments do coincide, of `a` and `A` to begin with.
-/

namespace GatewayStack.LogicalId

/-- What an id is the name of. -/
inductive Kind where
  | restApi
  | resource
  | method
  | role
  | deployment
  | apiKey
  | usagePlan
  | usagePlanKey
  deriving DecidableEq, Repr

namespace Kind

/-- The word that ids of a kind begin with. -/
def word : Kind → String
  | .restApi => "ApiGatewayRestApi"
  | .resource => "ApiGatewayResource"
  | .method => "ApiGatewayMethod"
  | .role => "ApigatewayTo"
  | .deployment => "ApiGatewayDeployment"
  | .apiKey => "ApiGatewayApiKey"
  | .usagePlan => "ApiGatewayUsagePlan"
  | .usagePlanKey => "ApiGatewayUsagePlanKey"

/-- The type of the resources of a kind. -/
def type : Kind → String
  | .restApi => "AWS::ApiGateway::RestApi"
  | .resource => "AWS::ApiGateway::Resource"
  | .method => "AWS::ApiGateway::Method"
  | .role => "AWS::IAM::Role"
  | .deployment => "AWS::ApiGateway::Deployment"
  | .apiKey => "AWS::ApiGateway::ApiKey"
  | .usagePlan => "AWS::ApiGateway::UsagePlan"
  | .usagePlanKey => "AWS::ApiGateway::UsagePlanKey"

theorem type_injective {k l : Kind} (h : k.type = l.type) : k = l := by
  revert h
  cases k <;> cases l <;> decide

end Kind

/-- The ids of each kind. -/
inductive OfKind : Kind → String → Prop
  | restApi : OfKind .restApi LogicalId.restApi
  | resource (path : String) : OfKind .resource (LogicalId.resource path)
  | method (path : String) (verb : Verb) :
    OfKind .method (LogicalId.method path verb)
  | role (service : Service) : OfKind .role (LogicalId.role service)
  | deployment (token : String) :
    OfKind .deployment (LogicalId.deployment token)
  | apiKey (n : Nat) : OfKind .apiKey (LogicalId.apiKey n)
  | usagePlan : OfKind .usagePlan LogicalId.usagePlan
  | usagePlanKey (n : Nat) : OfKind .usagePlanKey (LogicalId.usagePlanKey n)

/-! ## The kind of an id -/

theorem OfKind.begins_with_word {k : Kind} {id : String} (h : OfKind k id) :
    k.word.toList <+: id.toList := by
  cases h with
  | restApi => exact List.prefix_rfl
  | resource path => exact ⟨_, String.toList_append.symm⟩
  | method path verb =>
      refine ⟨(LogicalId.path path).toList ++ (LogicalId.verb verb).toList, ?_⟩
      unfold LogicalId.method
      rw [String.toList_append, String.toList_append, List.append_assoc]
      rfl
  | role service => cases service <;> decide
  | deployment token => exact ⟨_, String.toList_append.symm⟩
  | apiKey n => exact ⟨_, String.toList_append.symm⟩
  | usagePlan => exact List.prefix_rfl
  | usagePlanKey n => exact ⟨_, String.toList_append.symm⟩

/-- One word begins with another only where the usage plan is involved. -/
theorem Kind.eq_of_word_begins (k l : Kind)
    (h : k.word.toList <+: l.word.toList) :
    k = l ∨ (k = .usagePlan ∧ l = .usagePlanKey) := by
  revert h
  cases k <;> cases l <;> decide

/-- The usage plan's id is its word and nothing else, so it begins no other. -/
theorem not_usagePlan_of_usagePlanKey {id : String}
    (plan : OfKind .usagePlan id) (key : OfKind .usagePlanKey id) : False := by
  have h := key.begins_with_word
  cases plan
  exact absurd h (by decide)

/-- An id has one kind. -/
theorem OfKind.unique {k l : Kind} {id : String} (hk : OfKind k id)
    (hl : OfKind l id) : k = l := by
  rcases List.prefix_or_prefix_of_prefix hk.begins_with_word
    hl.begins_with_word with h | h
  · rcases Kind.eq_of_word_begins k l h with rfl | ⟨rfl, rfl⟩
    · rfl
    · exact (not_usagePlan_of_usagePlanKey hk hl).elim
  · rcases Kind.eq_of_word_begins l k h with rfl | ⟨rfl, rfl⟩
    · rfl
    · exact (not_usagePlan_of_usagePlanKey hl hk).elim

theorem role_injective {a b : Service} (h : role a = role b) : a = b := by
  revert h
  cases a <;> cases b <;> decide

/-! ## The number of an id -/

/-- A number is read back from its digits. -/
theorem eq_of_toString_eq {m n : Nat} (h : toString m = toString n) :
    m = n := by
  have digits : Nat.toDigits 10 m = Nat.toDigits 10 n := by
    rw [← Nat.toList_repr, ← Nat.toList_repr]
    exact congrArg String.toList h
  rw [← Nat.ofDigitChars_toDigits (b := 10) (n := m) (by decide) (by decide),
    digits, Nat.ofDigitChars_toDigits (by decide) (by decide)]

theorem apiKey_injective : Function.Injective apiKey := fun _ _ h =>
  eq_of_toString_eq ((String.append_right_inj _).mp h)

theorem usagePlanKey_injective : Function.Injective usagePlanKey := fun _ _ h =>
  eq_of_toString_eq ((String.append_right_inj _).mp h)

/-! ## The path and the verb of an id -/

theorem resource_eq_iff {p q : String} : resource p = resource q ↔
    path p = path q := by
  unfold resource
  refine ⟨fun h => ?_, fun h => by rw [h]⟩
  have hlist := congrArg String.toList h
  rw [String.toList_append, String.toList_append] at hlist
  exact String.toList_inj.mp (List.append_cancel_left hlist)

/-- The last two letters of a verb, from the end. -/
def ending (v : Verb) : List Char := (verb v).toList.reverse.take 2

theorem ending_injective {m n : Verb} (h : ending m = ending n) : m = n := by
  revert h
  cases m <;> cases n <;> decide

/-- Whatever stands in front of a verb, its last two letters are the last
two. -/
theorem take_reverse_append_verb (front : List Char) (v : Verb) :
    (front ++ (verb v).toList).reverse.take 2 = ending v := by
  have long : 2 ≤ (verb v).toList.reverse.length := by cases v <;> decide
  rw [List.reverse_append, List.take_append_of_le_length long, ending]

/-- Two methods share an id exactly when they share the verb and the fragment of
their paths. -/
theorem method_eq_iff {p q : String} {m n : Verb} :
    method p m = method q n ↔ path p = path q ∧ m = n := by
  unfold method
  refine ⟨fun h => ?_, fun ⟨hpath, hverb⟩ => by rw [hpath, hverb]⟩
  have hlist := congrArg String.toList h
  simp only [String.toList_append, List.append_assoc] at hlist
  have tails := List.append_cancel_left hlist
  have hverb : m = n := by
    apply ending_injective
    rw [← take_reverse_append_verb (path p).toList,
      ← take_reverse_append_verb (path q).toList, tails]
  subst hverb
  exact ⟨String.toList_inj.mp (List.append_cancel_right tails), rfl⟩

end GatewayStack.LogicalId
