import StatementOutline.Grammar

/-!
# Rules of the scripting languages

The rules of JavaScript, TypeScript, PHP, Python and Ruby. Those of TypeScript are what it adds to
JavaScript.
-/

namespace StatementOutline.Grammar

/-- The rules of JavaScript. Arrow functions, classes in expressions and object literals are never
looked into. -/
def javaScript : Rules where
  statements :=
    [("import_statement", .simple), ("export_statement", .target (some "declaration")),
     ("expression_statement", .simple), ("lexical_declaration", .simple),
     ("variable_declaration", .simple), ("function_declaration", .fields ["body"]),
     ("generator_function_declaration", .fields ["body"]), ("class_declaration", .fields ["body"]),
     ("method_definition", .fields ["body"]), ("field_definition", .simple),
     ("class_static_block", .fields ["body"]), ("statement_block", .members),
     ("if_statement", .fields ["consequence", "alternative"]), ("for_statement", .fields ["body"]),
     ("for_in_statement", .fields ["body"]), ("while_statement", .fields ["body"]),
     ("do_statement", .fields ["body"]), ("with_statement", .fields ["body"]),
     ("switch_statement", .fields ["body"]), ("switch_case", .members),
     ("switch_default", .members), ("try_statement", .fields ["body"]),
     ("return_statement", .simple), ("throw_statement", .simple), ("break_statement", .simple),
     ("continue_statement", .simple), ("debugger_statement", .simple), ("empty_statement", .simple),
     ("labeled_statement", .target (some "body"))]
  blocks := ["class_body", "statement_block", "switch_body"]
  clauses := ["catch_clause", "else_clause", "finally_clause"]
  containers := []
  attachments := []
  closed := ["arrow_function", "class", "decorator", "jsx_element", "object"]

/-- What TypeScript adds to JavaScript. A namespace comes wrapped in an expression statement. -/
def typeScriptExtras : Rules where
  statements :=
    [("interface_declaration", .fields ["body"]), ("abstract_class_declaration", .fields ["body"]),
     ("enum_declaration", .fields ["body"]), ("module", .fields ["body"]),
     ("internal_module", .fields ["body"]), ("expression_statement", .target none),
     ("ambient_declaration", .target none), ("type_alias_declaration", .simple),
     ("import_alias", .simple), ("function_signature", .simple), ("method_signature", .simple),
     ("abstract_method_signature", .simple), ("property_signature", .simple),
     ("public_field_definition", .simple), ("index_signature", .simple),
     ("call_signature", .simple), ("construct_signature", .simple)]
  blocks := ["enum_body", "interface_body", "object_type"]
  clauses := []
  containers := []
  attachments := []
  closed := ["enum_assignment", "type_annotation", "type_parameters"]

/-- The rules of PHP. Text outside its tags is never looked into. -/
def php : Rules where
  statements :=
    [("namespace_definition", .fields ["body"]), ("namespace_use_declaration", .simple),
     ("function_definition", .fields ["body"]), ("method_declaration", .fields ["body"]),
     ("class_declaration", .fields ["body"]), ("interface_declaration", .fields ["body"]),
     ("trait_declaration", .fields ["body"]), ("enum_declaration", .fields ["body"]),
     ("property_declaration", .simple), ("const_declaration", .simple),
     ("use_declaration", .simple), ("enum_case", .simple), ("compound_statement", .members),
     ("expression_statement", .simple), ("echo_statement", .simple), ("return_statement", .simple),
     ("global_declaration", .simple), ("function_static_declaration", .simple),
     ("unset_statement", .simple), ("named_label_statement", .simple), ("goto_statement", .simple),
     ("break_statement", .simple), ("continue_statement", .simple), ("empty_statement", .simple),
     ("declare_statement", .tail), ("if_statement", .fields ["body", "alternative"]),
     ("while_statement", .tail), ("for_statement", .tail), ("foreach_statement", .tail),
     ("do_statement", .fields ["body"]), ("switch_statement", .fields ["body"]),
     ("case_statement", .members), ("default_statement", .members),
     ("try_statement", .fields ["body"])]
  blocks :=
    ["colon_block", "compound_statement", "declaration_list", "enum_declaration_list",
     "switch_block"]
  clauses := ["catch_clause", "else_clause", "else_if_clause", "finally_clause"]
  containers := []
  attachments := []
  closed := ["attribute_list", "php_tag", "text"]

/-- The rules of Python, in which a suite is a block also on the line of its header. -/
def python : Rules where
  statements :=
    [("expression_statement", .simple), ("import_statement", .simple),
     ("import_from_statement", .simple), ("future_import_statement", .simple),
     ("print_statement", .simple), ("assert_statement", .simple), ("return_statement", .simple),
     ("delete_statement", .simple), ("raise_statement", .simple), ("pass_statement", .simple),
     ("break_statement", .simple), ("continue_statement", .simple), ("global_statement", .simple),
     ("nonlocal_statement", .simple), ("exec_statement", .simple),
     ("type_alias_statement", .simple), ("if_statement", .fields ["consequence", "alternative"]),
     ("for_statement", .fields ["body", "alternative"]),
     ("while_statement", .fields ["body", "alternative"]), ("try_statement", .fields ["body"]),
     ("with_statement", .fields ["body"]), ("function_definition", .fields ["body"]),
     ("class_definition", .fields ["body"]), ("decorated_definition", .target (some "definition")),
     ("match_statement", .members), ("case_clause", .tail)]
  blocks := ["block"]
  clauses :=
    ["elif_clause", "else_clause", "except_clause", "except_group_clause", "finally_clause"]
  containers := []
  attachments := []
  closed := ["decorator", "lambda"]

/-- The rules of Ruby. It has no nodes for statements, so every named child of a body is one. -/
def ruby : Rules where
  statements :=
    [("method", .members), ("singleton_method", .members), ("class", .members),
     ("singleton_class", .members), ("module", .members), ("begin", .members),
     ("begin_block", .members), ("end_block", .members),
     ("if", .fields ["consequence", "alternative"]),
     ("unless", .fields ["consequence", "alternative"]), ("while", .fields ["body"]),
     ("until", .fields ["body"]), ("for", .fields ["body"]), ("case", .members),
     ("case_match", .members), ("when", .members), ("in_clause", .members),
     ("if_modifier", .simple), ("unless_modifier", .simple), ("while_modifier", .simple),
     ("until_modifier", .simple), ("rescue_modifier", .simple)]
  blocks := ["body_statement", "do", "else", "then"]
  clauses := ["elsif", "ensure", "rescue"]
  containers :=
    ["begin", "begin_block", "body_statement", "class", "do", "else", "end_block", "ensure",
     "method", "module", "program", "singleton_class", "singleton_method", "then"]
  attachments := []
  closed :=
    ["block", "block_parameters", "do_block", "exception_variable", "exceptions", "heredoc_body",
     "lambda", "lambda_parameters", "method_parameters"]

end StatementOutline.Grammar
