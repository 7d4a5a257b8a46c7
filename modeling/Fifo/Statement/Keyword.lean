import Fifo.Statement

/-!
# Keywords

The thirty words that open a statement, and what each of them expects behind it. Keywords are
matched exactly, letter case included.
-/

namespace Fifo

/-- The word that opens a statement. -/
inductive Keyword where
  | act (a : Action)
  | goto
  | branch (relation : Relation)
  | push
  | print
  | read
  deriving DecidableEq

/-- Whether an argument follows a keyword. -/
inductive ArgumentRule where
  | none
  | optional
  | required
  deriving DecidableEq

def Operation.spelling : Operation → String
  | sum => "ADD"
  | difference => "SUB"
  | product => "MUL"
  | quotient => "DIV"
  | remainder => "MOD"

def Operands.spelling : Operands → String
  | consumed => ""
  | kept => "K"

def Ending.spelling : Ending → String
  | none => ""
  | newline => "LN"

def Direction.spelling : Direction → String
  | ascending => "UP"
  | descending => "DOWN"

def Relation.spelling : Relation → String
  | equal => "EQ"
  | notEqual => "NQ"
  | less => "LT"
  | greater => "GT"

def Action.spelling : Action → String
  | combine op operands => op.spelling ++ operands.spelling
  | nothing => "EMPTY"
  | peek ending => "PEEK" ++ ending.spelling
  | pop ending => "POP" ++ ending.spelling
  | popAll ending => "POPALL" ++ ending.spelling
  | display => "QDISPLAY"
  | shuffle => "POKE"
  | sort direction => "SORT" ++ direction.spelling
  | exit => "RET"

namespace Keyword

/-- How a keyword is written. -/
def spelling : Keyword → String
  | act a => a.spelling
  | goto => "GOTO"
  | branch relation => "IF" ++ relation.spelling
  | push => "PUSH"
  | print => "PRINT"
  | read => "READ"

/-- What a keyword expects behind it. -/
def argument : Keyword → ArgumentRule
  | act _ => .none
  | goto | branch _ | push => .required
  | print | read => .optional

/-- Every keyword, in alphabetical order. -/
def all : List Keyword :=
  [act (.combine .sum .consumed), act (.combine .sum .kept),
    act (.combine .quotient .consumed), act (.combine .quotient .kept),
    act .nothing, goto,
    branch .equal, branch .greater, branch .less, branch .notEqual,
    act (.combine .remainder .consumed), act (.combine .remainder .kept),
    act (.combine .product .consumed), act (.combine .product .kept),
    act (.peek .none), act (.peek .newline), act .shuffle,
    act (.pop .none), act (.popAll .none), act (.popAll .newline), act (.pop .newline),
    print, push, act .display, read, act .exit,
    act (.sort .descending), act (.sort .ascending),
    act (.combine .difference .consumed), act (.combine .difference .kept)]

/-- The keyword that is written in a given way. -/
def ofString? (s : String) : Option Keyword :=
  all.find? (·.spelling == s)

theorem mem_all (w : Keyword) : w ∈ all := by
  cases w with
  | act a =>
      cases a with
      | combine op operands => cases op <;> cases operands <;> decide
      | peek ending => cases ending <;> decide
      | pop ending => cases ending <;> decide
      | popAll ending => cases ending <;> decide
      | sort direction => cases direction <;> decide
      | nothing => decide
      | display => decide
      | shuffle => decide
      | exit => decide
  | branch relation => cases relation <;> decide
  | goto => decide
  | push => decide
  | print => decide
  | read => decide

/-- Every keyword is read back from its spelling. -/
theorem ofString?_spelling (w : Keyword) : ofString? w.spelling = some w := by
  have each : ∀ v ∈ all, ofString? v.spelling = some v := by decide
  exact each w (mem_all w)

end Keyword
end Fifo
