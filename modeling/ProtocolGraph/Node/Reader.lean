import ProtocolGraph.Node.Basic
import ProtocolGraph.Text.Numeral
import ProtocolGraph.Token.Basic

/-!
# From tokens to nodes

A node is a list, which is its elements between the marks `(` and `)`, or a leaf, which is one
quoted text or one word. A word denotes an integer if it is a numeral that fits 64 bits, a keyword
if it starts with a colon, and a symbol otherwise. No other punctuation starts or ends a node.

`readNode` reads one node off the front of the tokens, as `read_node` does by recursive descent. It
goes through them once and remembers the lists that are open. When it cannot go on it answers the
tokens from the place at fault: the mark that fits nowhere or, if the tokens run out, the opening
mark of the innermost open list.

* `length_lt_of_readNode`: reading a node uses up at least one token.
-/

namespace ProtocolGraph.Node

/-- Why tokens have no nodes (`ParseError`). -/
inductive Fault where
  /-- There are no tokens. -/
  | emptyInput
  /-- The token with this text and offset cannot be used. -/
  | unexpectedToken (text : String) (offset : Nat)
deriving DecidableEq

/-- The text of the fault. -/
def Fault.message : Fault → String
  | .emptyInput => "token stream is empty"
  | .unexpectedToken text offset =>
    s!"failed to parse token {Text.quotedText text} at offset {offset}"

/-- The leaf that a word denotes. -/
def ofWord (word : String) : Node :=
  match Text.int64? word.toList with
  | some n => .int n
  | none => if word.toList.head? = some ':' then .keyword word else .symbol word

/-- The leaf that a token denotes, unless it is punctuation. -/
def ofToken? (t : Token) : Option Node :=
  match t.kind with
  | .punctuation => none
  | .quoted => some (.string t.text)
  | .word => some (ofWord t.text)

/-- A list whose closing mark is still to come. -/
structure Opened where
  /-- The tokens from its opening mark on. -/
  start : List Token
  /-- Its elements so far, last first. -/
  elements : List Node

/-- What a token does to a node that is being read. -/
inductive Progress where
  /-- The node goes on, with these lists open, innermost first. -/
  | ongoing (opened : List Opened)
  /-- The node is complete. -/
  | complete (n : Node)
  /-- The token does not fit. -/
  | stuck

/-- Hands a complete node to the innermost open list; with none open it is the node itself. -/
def Progress.give (n : Node) : List Opened → Progress
  | [] => .complete n
  | o :: outer => .ongoing ({ o with elements := n :: o.elements } :: outer)

/-- The effect of the token `t`, which stands before `rest`. -/
def Progress.of (opened : List Opened) (t : Token) (rest : List Token) : Progress :=
  if t.isMark "(" then .ongoing (⟨t :: rest, []⟩ :: opened)
  else
    match ofToken? t, opened with
    | some leaf, opened => .give leaf opened
    | none, [] => .stuck
    | none, o :: outer =>
      if t.isMark ")" then .give (.list o.elements.reverse) outer else .stuck

/-- The rest of a node of which the lists `opened` are open, innermost first. The answer is the
node and the tokens after it, or the tokens from the fault on. -/
def readRest (opened : List Opened) : List Token → Except (List Token) (Node × List Token)
  | [] => .error ((opened.head?.map Opened.start).getD [])
  | t :: rest =>
    match Progress.of opened t rest with
    | .ongoing opened => readRest opened rest
    | .complete n => .ok (n, rest)
    | .stuck => .error (t :: rest)

/-- The first node and the tokens after it, or the tokens from the fault on. -/
def readNode (tokens : List Token) : Except (List Token) (Node × List Token) :=
  readRest [] tokens

theorem length_lt_of_readRest {opened : List Opened} {tokens rest : List Token} {n : Node}
    (h : readRest opened tokens = .ok (n, rest)) : rest.length < tokens.length := by
  induction tokens generalizing opened with
  | nil => cases h
  | cons t ts ih =>
    rw [readRest] at h
    split at h
    · exact Nat.lt_succ_of_lt (ih h)
    · cases h
      exact Nat.lt_succ_self _
    · cases h

theorem length_lt_of_readNode {tokens rest : List Token} {n : Node}
    (h : readNode tokens = .ok (n, rest)) : rest.length < tokens.length :=
  length_lt_of_readRest h

/-- All nodes of the tokens, or the tokens from the fault on (`parse_file`). -/
def readAll (tokens : List Token) : Except (List Token) (List Node) :=
  if tokens = [] then .ok []
  else
    match _h : readNode tokens with
    | .error stuck => .error stuck
    | .ok (n, rest) => (readAll rest).map (n :: ·)
termination_by tokens.length
decreasing_by exact length_lt_of_readNode ‹_›

/-- The fault that the first of the tokens stands for (`unexpected`). -/
def Fault.at (stuck : List Token) : Fault :=
  match stuck with
  | [] => .emptyInput
  | t :: _ => .unexpectedToken t.text t.offset

/-- The nodes that a nonempty list of tokens denotes (`parse`). -/
def ofTokens (tokens : List Token) : Except Fault (List Node) :=
  if tokens = [] then .error .emptyInput else (readAll tokens).mapError Fault.at

end ProtocolGraph.Node
