import StatementOutline.Grammar

/-!
# Rules of the class-based languages

The rules of C# and Java.
-/

namespace StatementOutline.Grammar

/-- The rules of C#, in which accessor lists are blocks. -/
def csharp : Rules where
  statements :=
    [("using_directive", .simple), ("extern_alias_directive", .simple),
     ("namespace_declaration", .fields ["body"]), ("file_scoped_namespace_declaration", .members),
     ("class_declaration", .fields ["body"]), ("struct_declaration", .fields ["body"]),
     ("interface_declaration", .fields ["body"]), ("record_declaration", .fields ["body"]),
     ("enum_declaration", .fields ["body"]), ("method_declaration", .fields ["body"]),
     ("constructor_declaration", .fields ["body"]), ("destructor_declaration", .fields ["body"]),
     ("operator_declaration", .fields ["body"]),
     ("conversion_operator_declaration", .fields ["body"]),
     ("local_function_statement", .fields ["body"]),
     ("property_declaration", .fields ["accessors"]),
     ("indexer_declaration", .fields ["accessors"]), ("event_declaration", .fields ["accessors"]),
     ("accessor_declaration", .fields ["body"]), ("field_declaration", .simple),
     ("event_field_declaration", .simple), ("delegate_declaration", .simple),
     ("global_statement", .target none), ("block", .members),
     ("local_declaration_statement", .simple), ("expression_statement", .simple),
     ("return_statement", .simple), ("break_statement", .simple), ("continue_statement", .simple),
     ("goto_statement", .simple), ("throw_statement", .simple), ("yield_statement", .simple),
     ("empty_statement", .simple), ("if_statement", .fields ["consequence", "alternative"]),
     ("for_statement", .fields ["body"]), ("foreach_statement", .fields ["body"]),
     ("while_statement", .fields ["body"]), ("do_statement", .fields ["body"]),
     ("switch_statement", .fields ["body"]), ("switch_section", .members),
     ("try_statement", .fields ["body"]), ("lock_statement", .tail), ("using_statement", .tail),
     ("fixed_statement", .tail), ("checked_statement", .tail), ("unsafe_statement", .tail),
     ("labeled_statement", .target none), ("preproc_if", .members), ("preproc_region", .simple),
     ("preproc_endregion", .simple), ("preproc_define", .simple), ("preproc_undef", .simple),
     ("preproc_pragma", .simple), ("preproc_line", .simple), ("preproc_error", .simple),
     ("preproc_warning", .simple), ("preproc_nullable", .simple)]
  blocks :=
    ["accessor_list", "block", "declaration_list", "enum_member_declaration_list", "switch_body"]
  clauses := ["catch_clause", "finally_clause"]
  containers := []
  attachments := []
  closed :=
    ["arrow_expression_clause", "attribute_list", "bracketed_argument_list",
     "enum_member_declaration"]

/-- The rules of Java, in which a switch may stand as a statement or as an expression. -/
def java : Rules where
  statements :=
    [("package_declaration", .simple), ("import_declaration", .simple),
     ("module_declaration", .fields ["body"]), ("class_declaration", .fields ["body"]),
     ("interface_declaration", .fields ["body"]), ("enum_declaration", .fields ["body"]),
     ("record_declaration", .fields ["body"]), ("annotation_type_declaration", .fields ["body"]),
     ("method_declaration", .fields ["body"]), ("constructor_declaration", .fields ["body"]),
     ("compact_constructor_declaration", .fields ["body"]), ("static_initializer", .tail),
     ("field_declaration", .simple), ("constant_declaration", .simple),
     ("annotation_type_element_declaration", .simple), ("block", .members),
     ("local_variable_declaration", .simple), ("expression_statement", .simple),
     ("explicit_constructor_invocation", .simple), ("return_statement", .simple),
     ("throw_statement", .simple), ("break_statement", .simple), ("continue_statement", .simple),
     ("yield_statement", .simple), ("assert_statement", .simple),
     ("if_statement", .fields ["consequence", "alternative"]),
     ("while_statement", .fields ["body"]), ("for_statement", .fields ["body"]),
     ("enhanced_for_statement", .fields ["body"]), ("do_statement", .fields ["body"]),
     ("switch_expression", .fields ["body"]), ("switch_block_statement_group", .members),
     ("switch_rule", .tail), ("try_statement", .fields ["body"]),
     ("try_with_resources_statement", .fields ["body"]), ("synchronized_statement", .tail),
     ("labeled_statement", .target none)]
  blocks :=
    ["annotation_type_body", "block", "class_body", "constructor_body", "enum_body",
     "interface_body", "module_body", "switch_block"]
  clauses := ["catch_clause", "finally_clause"]
  containers := []
  attachments := []
  closed :=
    ["catch_formal_parameter", "enum_constant", "modifiers", "resource_specification",
     "switch_label"]

end StatementOutline.Grammar
