import ContractCheck.Text.Split
import ContractCheck.TypeExpr.Basic

/-!
The written form of a type. Members of a union that are intersections stand in parentheses.
-/
namespace ContractCheck.TypeExpr

open Text (joinWith)

mutual

def render : TypeExpr → String
  | .absent => "None"
  | .named name => name
  | .nullable inner => "?" ++ render inner
  | .union members => joinWith "|" (renderGrouped members)
  | .intersection members => joinWith "&" (renderEach members)
  | .self => "self"
  | .static => "static"
  | .parent => "parent"
  | .void => "void"
  | .mixed => "mixed"

def renderEach : List TypeExpr → List String
  | [] => []
  | t :: ts => render t :: renderEach ts

def renderGrouped : List TypeExpr → List String
  | [] => []
  | .intersection members :: ts =>
    ("(" ++ joinWith "&" (renderEach members) ++ ")") :: renderGrouped ts
  | t :: ts => render t :: renderGrouped ts

end

end ContractCheck.TypeExpr
