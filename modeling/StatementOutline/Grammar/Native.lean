import StatementOutline.Grammar

/-!
# Rules of the compiled languages

The rules of C, C++, Go and Rust. Those of C++ are what it adds to C.
-/

namespace StatementOutline.Grammar

/-- The rules of C. Conditional groups of the preprocessor hold whole declarations, so they nest
like blocks. -/
def c : Rules where
  statements :=
    [("compound_statement", .members), ("expression_statement", .simple),
     ("declaration", .path ["type", "body"]), ("type_definition", .path ["type", "body"]),
     ("field_declaration", .path ["type", "body"]), ("function_definition", .fields ["body"]),
     ("linkage_specification", .fields ["body"]), ("struct_specifier", .fields ["body"]),
     ("union_specifier", .fields ["body"]), ("enum_specifier", .fields ["body"]),
     ("if_statement", .fields ["consequence", "alternative"]), ("for_statement", .fields ["body"]),
     ("while_statement", .fields ["body"]), ("do_statement", .fields ["body"]),
     ("switch_statement", .fields ["body"]), ("case_statement", .members),
     ("labeled_statement", .target none), ("attributed_statement", .target none),
     ("seh_try_statement", .fields ["body"]), ("seh_leave_statement", .simple),
     ("return_statement", .simple), ("break_statement", .simple), ("continue_statement", .simple),
     ("goto_statement", .simple), ("preproc_if", .members), ("preproc_ifdef", .members),
     ("preproc_include", .simple), ("preproc_def", .simple), ("preproc_function_def", .simple),
     ("preproc_call", .simple)]
  blocks := ["compound_statement", "declaration_list", "enumerator_list", "field_declaration_list"]
  clauses := ["else_clause", "seh_except_clause", "seh_finally_clause"]
  containers := []
  attachments := []
  closed :=
    ["attribute_declaration", "enumerator", "preproc_arg", "preproc_params", "ms_declspec_modifier"]

/-- What C++ adds to C. -/
def cppExtras : Rules where
  statements :=
    [("class_specifier", .fields ["body"]), ("namespace_definition", .fields ["body"]),
     ("template_declaration", .target none), ("for_range_loop", .fields ["body"]),
     ("try_statement", .fields ["body"]), ("throw_statement", .simple),
     ("co_return_statement", .simple), ("co_yield_statement", .simple),
     ("alias_declaration", .simple), ("using_declaration", .simple),
     ("namespace_alias_definition", .simple), ("static_assert_declaration", .simple),
     ("concept_definition", .simple), ("friend_declaration", .simple),
     ("template_instantiation", .simple)]
  blocks := []
  clauses := ["catch_clause"]
  containers := []
  attachments := []
  closed :=
    ["access_specifier", "condition_clause", "field_initializer_list", "template_parameter_list"]

/-- The rules of Go. A type declaration nests the fields of a struct or the methods of an
interface. -/
def go : Rules where
  statements :=
    [("package_clause", .simple), ("import_declaration", .simple),
     ("function_declaration", .fields ["body"]), ("method_declaration", .fields ["body"]),
     ("type_declaration", .path ["type_spec", "type"]), ("var_declaration", .simple),
     ("const_declaration", .simple), ("field_declaration", .simple), ("method_elem", .simple),
     ("method_spec", .simple), ("block", .members), ("short_var_declaration", .simple),
     ("assignment_statement", .simple), ("inc_statement", .simple), ("dec_statement", .simple),
     ("send_statement", .simple), ("expression_statement", .simple), ("go_statement", .simple),
     ("defer_statement", .simple), ("return_statement", .simple), ("break_statement", .simple),
     ("continue_statement", .simple), ("goto_statement", .simple),
     ("fallthrough_statement", .simple), ("empty_statement", .simple),
     ("if_statement", .fields ["consequence", "alternative"]), ("for_statement", .fields ["body"]),
     ("expression_switch_statement", .members), ("type_switch_statement", .members),
     ("select_statement", .members), ("expression_case", .members), ("type_case", .members),
     ("communication_case", .members), ("default_case", .members),
     ("labeled_statement", .target none)]
  blocks := ["block", "field_declaration_list", "interface_type", "struct_type"]
  clauses := []
  containers := []
  attachments := []
  closed := ["func_literal", "type_arguments", "type_parameter_list"]

/-- The rules of Rust. Attributes stand in front of the item they belong to, and the last expression
of a block is a statement also without a semicolon. -/
def rust : Rules where
  statements :=
    [("function_item", .fields ["body"]), ("function_signature_item", .simple),
     ("struct_item", .fields ["body"]), ("union_item", .fields ["body"]),
     ("enum_item", .fields ["body"]), ("impl_item", .fields ["body"]),
     ("trait_item", .fields ["body"]), ("mod_item", .fields ["body"]),
     ("foreign_mod_item", .fields ["body"]), ("const_item", .simple), ("static_item", .simple),
     ("type_item", .simple), ("associated_type", .simple), ("use_declaration", .simple),
     ("extern_crate_declaration", .simple), ("macro_definition", .simple),
     ("macro_invocation", .simple), ("inner_attribute_item", .simple),
     ("field_declaration", .simple), ("let_declaration", .simple), ("empty_statement", .simple),
     ("expression_statement", .target none), ("block", .members), ("unsafe_block", .tail),
     ("async_block", .tail), ("const_block", .tail),
     ("if_expression", .fields ["consequence", "alternative"]),
     ("match_expression", .fields ["body"]), ("match_arm", .fields ["value"]),
     ("loop_expression", .fields ["body"]), ("while_expression", .fields ["body"]),
     ("for_expression", .fields ["body"])]
  blocks :=
    ["block", "declaration_list", "enum_variant_list", "field_declaration_list", "match_block"]
  clauses := ["else_clause"]
  containers := ["block"]
  attachments := ["attribute_item"]
  closed :=
    ["enum_variant", "label", "ordered_field_declaration_list", "token_tree", "visibility_modifier"]

end StatementOutline.Grammar
