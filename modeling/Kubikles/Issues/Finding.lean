/-
What rules of the issue detector are and what they find (types.go,
rule.go).
-/

namespace IssueDetector

abbrev Severity := String

def severityCritical : Severity := "critical"

abbrev Category := String

def categoryNetworking : Category := "networking"

structure ResourceRef where
  kind : String
  name : String
  ns : String
deriving DecidableEq

structure Finding where
  ruleID : String
  ruleName : String
  severity : Severity
  category : Category
  resource : ResourceRef
  description : String
  suggestedFix : String
  details : List (String × String)
  groupKey : String := ""
deriving DecidableEq

/-- What a `Rule` says of itself in its findings. -/
structure Rule where
  id : String
  name : String
  severity : Severity
  category : Category
deriving DecidableEq

def makeFinding (r : Rule) (ref : ResourceRef) (desc fix : String)
    (details : List (String × String)) : Finding where
  ruleID := r.id
  ruleName := r.name
  severity := r.severity
  category := r.category
  resource := ref
  description := desc
  suggestedFix := fix
  details := details

end IssueDetector
