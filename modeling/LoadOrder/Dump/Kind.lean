/-!
# Kinds of syntax tree nodes

A dump of a Ruby syntax tree tags every node with its kind.  The tags that matter here have a
constructor each; a tag that starts with `@` is some other token, and any tag besides is unknown.
-/

namespace LoadOrder

/-- The kind of a node. -/
inductive Kind where
  | program
  /-- `[class, name, superclass, body]` -/
  | classDef
  /-- `[module, name, body]` -/
  | moduleDef
  /-- `[sclass, object, body]` -/
  | singletonClass
  /-- The name in a class or module definition. -/
  | constRef
  /-- `[bodystmt, statements, rescue, else, ensure]` -/
  | bodyStmt
  /-- `[def, name, parameters, body]` -/
  | methodDef
  /-- `[defs, object, dot, name, parameters, body]` -/
  | singletonMethodDef
  /-- `[assign, target, value]` -/
  | assign
  /-- `[opassign, target, operator, value]` -/
  | opAssign
  | varField
  | varRef
  | topConstRef
  /-- `[const_path_ref, parent, name]` -/
  | constPathRef
  | constPathField
  | topConstField
  /-- `[call, receiver, dot, name]` -/
  | call
  | methodAddArg
  | methodAddBlock
  | argParen
  | argsAddBlock
  /-- `[brace_block, parameters, statements]` -/
  | braceBlock
  | doBlock
  | blockVar
  | params
  | paren
  | array
  /-- `[command, name, arguments]` -/
  | command
  /-- `[command_call, receiver, dot, name, arguments]` -/
  | commandCall
  | fcall
  | vcall
  | field
  | aref
  | binary
  | unary
  | ifStmt
  | ifMod
  | unlessStmt
  | unlessMod
  | whileStmt
  | untilStmt
  | caseStmt
  | beginStmt
  | returnStmt
  | stringLiteral
  | symbolLiteral
  | voidStmt
  /-- The token of a constant's name. -/
  | const
  | ident
  | keyword
  | int
  /-- Any other token; `tag` starts with `@`. -/
  | token (tag : String)
  | unknown (tag : String)
  deriving DecidableEq, Repr

namespace Kind

/-- The kind that a tag stands for. -/
def ofTag : String → Kind
  | "program" => program
  | "class" => classDef
  | "module" => moduleDef
  | "sclass" => singletonClass
  | "const_ref" => constRef
  | "bodystmt" => bodyStmt
  | "def" => methodDef
  | "defs" => singletonMethodDef
  | "assign" => assign
  | "opassign" => opAssign
  | "var_field" => varField
  | "var_ref" => varRef
  | "top_const_ref" => topConstRef
  | "const_path_ref" => constPathRef
  | "const_path_field" => constPathField
  | "top_const_field" => topConstField
  | "call" => call
  | "method_add_arg" => methodAddArg
  | "method_add_block" => methodAddBlock
  | "arg_paren" => argParen
  | "args_add_block" => argsAddBlock
  | "brace_block" => braceBlock
  | "do_block" => doBlock
  | "block_var" => blockVar
  | "params" => params
  | "paren" => paren
  | "array" => array
  | "command" => command
  | "command_call" => commandCall
  | "fcall" => fcall
  | "vcall" => vcall
  | "field" => field
  | "aref" => aref
  | "binary" => binary
  | "unary" => unary
  | "if" => ifStmt
  | "if_mod" => ifMod
  | "unless" => unlessStmt
  | "unless_mod" => unlessMod
  | "while" => whileStmt
  | "until" => untilStmt
  | "case" => caseStmt
  | "begin" => beginStmt
  | "return" => returnStmt
  | "string_literal" => stringLiteral
  | "symbol_literal" => symbolLiteral
  | "void_stmt" => voidStmt
  | "@const" => const
  | "@ident" => ident
  | "@kw" => keyword
  | "@int" => int
  | other => if other.startsWith "@" then token other else unknown other

/-- The tag of a kind. -/
def tag : Kind → String
  | program => "program"
  | classDef => "class"
  | moduleDef => "module"
  | singletonClass => "sclass"
  | constRef => "const_ref"
  | bodyStmt => "bodystmt"
  | methodDef => "def"
  | singletonMethodDef => "defs"
  | assign => "assign"
  | opAssign => "opassign"
  | varField => "var_field"
  | varRef => "var_ref"
  | topConstRef => "top_const_ref"
  | constPathRef => "const_path_ref"
  | constPathField => "const_path_field"
  | topConstField => "top_const_field"
  | call => "call"
  | methodAddArg => "method_add_arg"
  | methodAddBlock => "method_add_block"
  | argParen => "arg_paren"
  | argsAddBlock => "args_add_block"
  | braceBlock => "brace_block"
  | doBlock => "do_block"
  | blockVar => "block_var"
  | params => "params"
  | paren => "paren"
  | array => "array"
  | command => "command"
  | commandCall => "command_call"
  | fcall => "fcall"
  | vcall => "vcall"
  | field => "field"
  | aref => "aref"
  | binary => "binary"
  | unary => "unary"
  | ifStmt => "if"
  | ifMod => "if_mod"
  | unlessStmt => "unless"
  | unlessMod => "unless_mod"
  | whileStmt => "while"
  | untilStmt => "until"
  | caseStmt => "case"
  | beginStmt => "begin"
  | returnStmt => "return"
  | stringLiteral => "string_literal"
  | symbolLiteral => "symbol_literal"
  | voidStmt => "void_stmt"
  | const => "@const"
  | ident => "@ident"
  | keyword => "@kw"
  | int => "@int"
  | token t => t
  | unknown t => t

/-- Is this the kind of a token? -/
def isToken : Kind → Bool
  | const | ident | keyword | int | token _ => true
  | _ => false

def isUnknown : Kind → Bool
  | unknown _ => true
  | _ => false

end Kind

end LoadOrder
