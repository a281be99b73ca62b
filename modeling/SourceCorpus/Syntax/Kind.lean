/-!
The vocabulary of syntax trees: the kinds of nodes and the roles that a node plays in its parent.
-/

namespace SourceCorpus.Syntax

inductive Kind where
  | module
  -- trivia
  | comment | lineContinuation
  -- simple statements
  | importStatement | importPrefix | relativeImport | futureImportStatement | importFromStatement
  | aliasedImport | wildcardImport | printStatement | chevron | assertStatement
  | expressionStatement | returnStatement | deleteStatement | raiseStatement | passStatement
  | breakStatement | continueStatement | globalStatement | nonlocalStatement | execStatement
  | typeAliasStatement
  -- compound statements and their parts
  | ifStatement | elifClause | elseClause | matchStatement | caseClause | forStatement
  | whileStatement | tryStatement | exceptClause | exceptGroupClause | finallyClause
  | withStatement | withClause | withItem | functionDefinition | classDefinition
  | decoratedDefinition | decorator | block | asyncMarker
  -- parameters and arguments
  | parameters | lambdaParameters | typedParameter | defaultParameter | typedDefaultParameter
  | positionalSeparator | keywordSeparator | typeParameter | type | splatType | genericType
  | unionType | memberType | argumentList | keywordArgument | listSplat | dictionarySplat
  -- targets
  | patternList | tuplePattern | listPattern | listSplatPattern | dictionarySplatPattern
  | asPattern | asPatternTarget
  -- patterns of a case
  | casePattern | unionPattern | dictPattern | keywordPattern | splatPattern | classPattern
  | complexPattern
  -- expressions
  | assignment | augmentedAssignment | expressionList | namedExpression | notOperator
  | booleanOperator | binaryOperator | unaryOperator | comparisonOperator | lambda | yield
  | memberAccess | subscript | slice | call | list | set | tuple | dictionary | pair
  | listComprehension | dictionaryComprehension | setComprehension | generatorExpression
  | parenthesizedExpression | forInClause | ifClause | conditionalExpression | await
  | dottedName | identifier | integer | float | true | false | none | ellipsis
  -- strings
  | concatenatedString | string | interpolation | formatExpression | formatSpecifier
  | typeConversion
  deriving DecidableEq, Repr, Inhabited

namespace Kind

/-- The name of the kind in answers. -/
def name : Kind → String
  | module => "module"
  | comment => "comment"
  | lineContinuation => "line_continuation"
  | importStatement => "import_statement"
  | importPrefix => "import_prefix"
  | relativeImport => "relative_import"
  | futureImportStatement => "future_import_statement"
  | importFromStatement => "import_from_statement"
  | aliasedImport => "aliased_import"
  | wildcardImport => "wildcard_import"
  | printStatement => "print_statement"
  | chevron => "chevron"
  | assertStatement => "assert_statement"
  | expressionStatement => "expression_statement"
  | returnStatement => "return_statement"
  | deleteStatement => "delete_statement"
  | raiseStatement => "raise_statement"
  | passStatement => "pass_statement"
  | breakStatement => "break_statement"
  | continueStatement => "continue_statement"
  | globalStatement => "global_statement"
  | nonlocalStatement => "nonlocal_statement"
  | execStatement => "exec_statement"
  | typeAliasStatement => "type_alias_statement"
  | ifStatement => "if_statement"
  | elifClause => "elif_clause"
  | elseClause => "else_clause"
  | matchStatement => "match_statement"
  | caseClause => "case_clause"
  | forStatement => "for_statement"
  | whileStatement => "while_statement"
  | tryStatement => "try_statement"
  | exceptClause => "except_clause"
  | exceptGroupClause => "except_group_clause"
  | finallyClause => "finally_clause"
  | withStatement => "with_statement"
  | withClause => "with_clause"
  | withItem => "with_item"
  | functionDefinition => "function_definition"
  | classDefinition => "class_definition"
  | decoratedDefinition => "decorated_definition"
  | decorator => "decorator"
  | block => "block"
  | asyncMarker => "async"
  | parameters => "parameters"
  | lambdaParameters => "lambda_parameters"
  | typedParameter => "typed_parameter"
  | defaultParameter => "default_parameter"
  | typedDefaultParameter => "typed_default_parameter"
  | positionalSeparator => "positional_separator"
  | keywordSeparator => "keyword_separator"
  | typeParameter => "type_parameter"
  | type => "type"
  | splatType => "splat_type"
  | genericType => "generic_type"
  | unionType => "union_type"
  | memberType => "member_type"
  | argumentList => "argument_list"
  | keywordArgument => "keyword_argument"
  | listSplat => "list_splat"
  | dictionarySplat => "dictionary_splat"
  | patternList => "pattern_list"
  | tuplePattern => "tuple_pattern"
  | listPattern => "list_pattern"
  | listSplatPattern => "list_splat_pattern"
  | dictionarySplatPattern => "dictionary_splat_pattern"
  | asPattern => "as_pattern"
  | asPatternTarget => "as_pattern_target"
  | casePattern => "case_pattern"
  | unionPattern => "union_pattern"
  | dictPattern => "dict_pattern"
  | keywordPattern => "keyword_pattern"
  | splatPattern => "splat_pattern"
  | classPattern => "class_pattern"
  | complexPattern => "complex_pattern"
  | assignment => "assignment"
  | augmentedAssignment => "augmented_assignment"
  | expressionList => "expression_list"
  | namedExpression => "named_expression"
  | notOperator => "not_operator"
  | booleanOperator => "boolean_operator"
  | binaryOperator => "binary_operator"
  | unaryOperator => "unary_operator"
  | comparisonOperator => "comparison_operator"
  | lambda => "lambda"
  | yield => "yield"
  | memberAccess => "attribute"
  | subscript => "subscript"
  | slice => "slice"
  | call => "call"
  | list => "list"
  | set => "set"
  | tuple => "tuple"
  | dictionary => "dictionary"
  | pair => "pair"
  | listComprehension => "list_comprehension"
  | dictionaryComprehension => "dictionary_comprehension"
  | setComprehension => "set_comprehension"
  | generatorExpression => "generator_expression"
  | parenthesizedExpression => "parenthesized_expression"
  | forInClause => "for_in_clause"
  | ifClause => "if_clause"
  | conditionalExpression => "conditional_expression"
  | await => "await"
  | dottedName => "dotted_name"
  | identifier => "identifier"
  | integer => "integer"
  | float => "float"
  | true => "true"
  | false => "false"
  | none => "none"
  | ellipsis => "ellipsis"
  | concatenatedString => "concatenated_string"
  | string => "string"
  | interpolation => "interpolation"
  | formatExpression => "format_expression"
  | formatSpecifier => "format_specifier"
  | typeConversion => "type_conversion"

/-- Comments and joined lines may stand between any two tokens. -/
def isTrivia : Kind → Bool
  | comment | lineContinuation => Bool.true
  | _ => Bool.false

end Kind

/-- The role of a node in its parent, where the parent tells its parts by role. -/
inductive Role where
  | name | asName | moduleName | function | arguments | object | member | value | subscript
  | left | right | type | body | alternative | parameters | returnType | superclasses
  | definition | expression | guard
  deriving DecidableEq, Repr

end SourceCorpus.Syntax
