/-!
# Grammar rules

What the node kinds of a grammar mean for an outline: which kinds are statements and where their
nested statements are found, which are seen through, and which are never looked into.
-/

namespace StatementOutline

/-- Where the nested statements of a statement are found. -/
inductive Body
  /-- Nowhere: the statement is atomic. -/
  | simple
  /-- Among its own children. -/
  | members
  /-- In the named fields and in clauses such as `else` or `catch`. -/
  | fields (names : List String)
  /-- In its last named child. -/
  | tail
  /-- In the statement it wraps, which is in the named field or is its last named child. -/
  | target (field : Option String)
  /-- At the end of a path of fields or kinds. -/
  | path (steps : List String)
deriving DecidableEq

/-- Whether a statement with this body can have nested statements at all. -/
def Body.mayNest : Body → Bool
  | simple => false
  | _ => true

/-- The rules of one grammar, or the rules that one grammar adds to another. -/
structure Rules where
  /-- The kinds that are statements. -/
  statements : List (String × Body)
  /-- The kinds whose children are nested statements, such as a pair of braces. -/
  blocks : List String
  /-- The kinds that belong to a statement and hold a part of its body. -/
  clauses : List String
  /-- The kinds of which every named child is a statement. -/
  containers : List String
  /-- The kinds that become part of the statement behind them. -/
  attachments : List String
  /-- The kinds that are never looked into. -/
  closed : List String

namespace Rules

/-- These rules with those of `base` behind them: where both say what a statement's body is, these
decide. -/
def refining (r base : Rules) : Rules where
  statements := r.statements ++ base.statements
  blocks := r.blocks ++ base.blocks
  clauses := r.clauses ++ base.clauses
  containers := r.containers ++ base.containers
  attachments := r.attachments ++ base.attachments
  closed := r.closed ++ base.closed

/-- The body of a statement kind; `none` for other kinds. -/
def body? (r : Rules) (kind : String) : Option Body :=
  r.statements.lookup kind

def isStatement (r : Rules) (kind : String) : Bool :=
  (r.body? kind).isSome

def isBlock (r : Rules) (kind : String) : Bool :=
  r.blocks.contains kind

def isClause (r : Rules) (kind : String) : Bool :=
  r.clauses.contains kind

def isContainer (r : Rules) (kind : String) : Bool :=
  r.containers.contains kind

def isAttachment (r : Rules) (kind : String) : Bool :=
  r.attachments.contains kind

end Rules

/-- The kinds that hold no statements in any grammar. -/
def alwaysClosed : List String :=
  ["argument_list", "arguments", "formal_parameters", "parameter_list", "parameters", "string",
   "template_string"]

/-- The fields that hold the head of a statement: conditions, names, parameters and the like. -/
def headerFields : List String :=
  ["alias", "arguments", "communication", "condition", "declarator", "exceptions", "guard",
   "initializer", "interfaces", "key", "label", "left", "name", "object", "operator", "parameters",
   "pattern", "receiver", "result", "return_type", "right", "subject", "superclass",
   "superclasses", "type", "type_parameters", "update", "value", "variable"]

/-- Whether a field holds the head of a statement and not its body. -/
def isHeaderField (field : String) : Bool :=
  headerFields.contains field

/-- Whether a kind is that of an expression, going by the end of its name. -/
def isExpressionKind (kind : String) : Bool :=
  ["expression", "literal", "lambda"].any fun ending => ending.toList.isSuffixOf kind.toList

/-- Whether a kind is never looked into, wherever it stands. -/
def Rules.isClosed (r : Rules) (kind : String) : Bool :=
  alwaysClosed.contains kind || r.closed.contains kind

/-- What becomes of a node in a list of members. -/
inductive Role
  /-- It is a statement. -/
  | statement (body : Body)
  /-- It becomes part of the next statement. -/
  | attachment
  /-- It is seen through. -/
  | transparent
  /-- It is an error, from which statements are recovered. -/
  | recovered
  /-- It is skipped. -/
  | skipped
deriving DecidableEq

namespace Role

/-- The node is a statement. -/
def isStatement : Role → Bool
  | statement _ => true
  | _ => false

end Role

/-- The role of a node of some kind. In a container every kind without another role is a simple
statement; elsewhere it is skipped if it is an expression and seen through if not. -/
def Rules.role (r : Rules) (kind : String) (error container : Bool) : Role :=
  if error then .recovered
  else match r.body? kind with
    | some body => .statement body
    | none =>
      if r.isAttachment kind then .attachment
      else if r.isBlock kind || r.isClause kind then .transparent
      else if r.isClosed kind then .skipped
      else if container then .statement .simple
      else if isExpressionKind kind then .skipped
      else .transparent

/-- Errors, and nothing else, are recovered from. -/
theorem Rules.role_eq_recovered_iff {r : Rules} {kind : String} {error container : Bool} :
    r.role kind error container = .recovered ↔ error = true := by
  unfold role
  repeat' split
  all_goals simp_all

end StatementOutline
