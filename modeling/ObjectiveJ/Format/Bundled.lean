import ObjectiveJ.Json.Basic

/-!
# The bundled formats

Two formats come with the library: `cappuccino` puts braces on lines of their own and indents by
four spaces, `compact` does not indent.
-/

namespace ObjectiveJ.Format.Bundled

def texts (entries : List (String × String)) : Json :=
  .obj (entries.map fun entry => (entry.1, .str entry.2))

/-- A group of types of nodes, and what is given for them. -/
def group (nodes : List String) (key : String) (value : Json) : Json :=
  .obj [("nodes", .arr (nodes.map .str)), (key, value)]

/-- What stands before a node that has no node before it. -/
def first (parents : List String) : String × Json :=
  ("null", .obj [("$parent", texts (parents.map (·, "") ++ [("*", "\n")]))])

def before (entries : List (String × Json)) : Json := .obj [("$previous", .obj entries)]

def general (width : Int) : Json := .obj [
  ("indent-string", .str " "),
  ("indent-width", .int width),
  ("single-line-array-limit", .int 4),
  ("after-comma", .str " "),
  ("after-single-comma", .str " "),
  ("before-operator", .str " "),
  ("after-operator", .str " "),
  ("before-assign", .str " "),
  ("after-assign", .str " "),
  ("after-colon", .str " "),
  ("before-in", .str " "),
  ("after-in", .str " "),
  ("before-label", .str " ")]

/-- Groups of types of nodes; a line is left blank after statements of some types, and between
declarations if so many line breaks are given. -/
def groups (apart : List String) (breaks : String) : List (String × Json) := [
  ("*statement", group
    ["expression statement", "return", "break", "continue", "throw", "debugger", "label", "var",
      "if", "for", "for in", "while", "do while", "switch", "try", "with", "empty statement",
      "@class", "@global", "@typedef", "@import"]
    "before" (before (first ["program", "for", "for in", "lambda"] :: ("label", .str "") ::
      apart.map (·, .str "\n\n") ++ [("*", .str "\n")]))),
  ("*semicolon", group
    ["expression statement", "return", "break", "continue", "throw", "debugger", "do while"]
    "after" (.str ";")),
  ("*declaration", group ["function", "@implementation", "@protocol"] "before"
    (before [first ["program"], ("*", .str breaks)])),
  ("*control", group
    ["if", "else if", "while", "for", "for in", "switch", "with", "do while", "try"]
    "before-left-parens" (.str " ")),
  ("var", .obj [
    ("after", .obj [("$parent", texts [("for", ""), ("for in", ""), ("*", ";")])])])]

def lambda : Json :=
  texts [("before-left-brace", " "), ("after-left-brace", " "), ("before-right-brace", " ")]

/-- What stands before a keyword that goes on with a statement, and before the brace of a switch. -/
def continued (space : String) : List (String × Json) := [
  ("if", texts [("before-else", space)]),
  ("else if", texts [("before", " "), ("before-else", space)]),
  ("for", texts [("after-init-semicolon", " ")]),
  ("do while", texts [("before-do-while", space)]),
  ("try", texts [("before-catch", space), ("before-finally", space)]),
  ("switch", texts [
    ("before-left-brace", space), ("before-case", "\n"), ("after-colon", ""),
    ("before-right-brace", "\n")])]

def cappuccino : Json := .obj (("*", general 4) ::
  groups ["@implementation", "@protocol", "function", "\x7b\x7d", "if", "for", "for in", "while",
    "do while", "switch", "try", "with"] "\n\n" ++
  ("\x7b\x7d", texts [
    ("before-left-brace", "\n"), ("after-left-brace", "|1"), ("before-right-brace", "|-1\n")]) ::
  ("lambda", lambda) :: continued "\n" ++ [
  ("array", texts [
    ("after-left-bracket", "|1\n"), ("after-comma", "\n"), ("before-right-bracket", "|-1\n")]),
  ("object", texts [
    ("after-left-brace", "|1\n"), ("after-comma", "\n"), ("before-right-brace", "|-1\n")])])

def compact : Json := .obj (("*", general 0) :: groups [] "\n" ++
  ("\x7b\x7d", texts [("before-left-brace", " "), ("before-right-brace", "\n")]) ::
  ("lambda", lambda) :: continued " ")

def all : List (String × Json) := [("cappuccino", cappuccino), ("compact", compact)]

def default : String := "cappuccino"

end ObjectiveJ.Format.Bundled
