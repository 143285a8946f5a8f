/-
The flags of the command line.

A flag is written with one dash and its letter, or with two dashes and its word. Two of them take a value: the name of a
file, and the text of a prompt, which may be left out. Of the flags that exclude each other at most one may be given.
-/
import Calculator.Text

namespace Calculator.CommandLine

inductive Flag where
  | help
  | verbose
  | quiet
  | hex
  | bin
  | file
  | prompt
  | rawGrammar
  | dump
  deriving DecidableEq, Repr

/-- whether a flag has a value -/
inductive ValueRule where
  | none
  | optional
  | required
  deriving DecidableEq, Repr

namespace Flag

def all : List Flag := [help, verbose, quiet, hex, bin, file, prompt, rawGrammar, dump]

def letter : Flag → Char
  | help => 'h'
  | verbose => 'v'
  | quiet => 'q'
  | hex => 'x'
  | bin => 'b'
  | file => 'f'
  | prompt => 'p'
  | rawGrammar => 'G'
  | dump => 'D'

def word : Flag → String
  | help => "help"
  | verbose => "verbose"
  | quiet => "quiet"
  | hex => "hex"
  | bin => "bin"
  | file => "file"
  | prompt => "prompt"
  | rawGrammar => "raw-grammar"
  | dump => "dump"

/-- a flag as messages name it -/
def label (f : Flag) : String := s!"-{f.letter}/--{f.word}"

/-- what a flag is for -/
def purpose : Flag → String
  | help => "show this help"
  | verbose => "log what happens"
  | quiet => "print the result alone"
  | hex => "print results in hexadecimal"
  | bin => "print results in binary"
  | file => "read expressions from a file, one per line; a backslash at the end of a line continues it"
  | prompt => "prompt for expressions, even where there is no terminal"
  | rawGrammar => "print the lexical grammar"
  | dump => "print the tokens of every line"

def valueRule : Flag → ValueRule
  | file => .required
  | prompt => .optional
  | _ => .none

/-- the flag that may not be given together with this one -/
def rival? : Flag → Option Flag
  | hex => some bin
  | bin => some hex
  | file => some prompt
  | prompt => some file
  | rawGrammar => some dump
  | dump => some rawGrammar
  | _ => none

def ofLetter? (c : Char) : Option Flag := all.find? fun f => f.letter == c

/-- the flags whose word, with its dashes, begins with a text -/
def abbreviatedBy (text : Text) : List Flag := all.filter fun f => text.isPrefixOf ('-' :: '-' :: f.word.toList)

/-- the flag that is written exactly so, and whether by its letter -/
def ofSpelling? : Text → Option (Flag × Bool)
  | '-' :: '-' :: word => (all.find? fun f => f.word.toList == word).map (·, false)
  | ['-', c] => (ofLetter? c).map (·, true)
  | _ => none

theorem ofSpelling?_letter (f : Flag) : ofSpelling? ['-', f.letter] = some (f, true) := by cases f <;> decide

theorem ofSpelling?_word (f : Flag) : ofSpelling? ('-' :: '-' :: f.word.toList) = some (f, false) := by
  cases f <;> decide

theorem rival?_symm {f g : Flag} (h : f.rival? = some g) : g.rival? = some f := by
  cases f <;> simp [rival?] at h <;> subst h <;> rfl

end Flag

end Calculator.CommandLine
