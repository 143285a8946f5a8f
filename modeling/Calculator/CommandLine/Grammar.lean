/-
The lexical grammar, as it is printed on request: one pattern with a named group for each kind of lexeme.
-/

namespace Calculator.CommandLine

/-- the pattern of a lexeme, line by line -/
def lexicalGrammar : List String :=
  [
    "(?<space>[^\\S\\n]+)|(?<newline>\\n)|(?<number>",
    "              (?<sign>-)?",
    "              (?:",
    "                  0x(?<hex>[0-9a-fA-F]+(?:\\.[0-9a-fA-F]*)?)",
    "                  |",
    "                  0b(?<bin>[01]+(?:\\.[01]*)?)",
    "                  |",
    "                  ",
    "               (?!0[xb])",
    "               (?<dec>",
    "                   # 1, 12, 1. (notice trailing dot), 1.3",
    "                   [0-9]+(?:\\.[0-9]*)?",
    "                   |",
    "                   # .5",
    "                   \\.[0-9]+",
    "               )",
    "               ",
    "              )",
    "              )|(?<ident>[A-Za-z_][A-Za-z0-9_]*)|" ++
      "(?<operator>(?:\\*\\*|\\+|\\-|\\*|/|%|\\^|\\&|\\||,|\\(|\\)|\\\x7b|\\\x7d|\\[|\\]))|" ++
      "(?<invalid>0[xb]|.)"
  ]

end Calculator.CommandLine
