import ProtocolGraph.Token.Basic

/-!
# A cursor over tokens

A `Cursor` divides a list of tokens into those read and those still to come, which is a
`TokenStream` at its position. It can step forward and be put back to any position it had, so that
a reader may try a rule and withdraw.

The tokens themselves never change: `tokens_next` and `tokens_seek` say so, and `position_seek` that
a position beyond the end stands for the end.
-/

namespace ProtocolGraph

/-- A place in a list of tokens. -/
structure Cursor where
  /-- The tokens before the place, in order. -/
  past : List Token
  /-- The tokens from the place on. -/
  rest : List Token
deriving DecidableEq

namespace Cursor

/-- The cursor before the first token. -/
def ofTokens (tokens : List Token) : Cursor :=
  ⟨[], tokens⟩

/-- All the tokens. -/
def tokens (c : Cursor) : List Token :=
  c.past ++ c.rest

/-- The number of tokens before the place. -/
def position (c : Cursor) : Nat :=
  c.past.length

/-- The token at the place (`peek`). -/
def peek? (c : Cursor) : Option Token :=
  c.rest.head?

/-- The token at the place and the cursor behind it; at the end the cursor stays (`next`). -/
def next? (c : Cursor) : Option Token × Cursor :=
  match c.rest with
  | [] => (none, c)
  | t :: rest => (some t, ⟨c.past ++ [t], rest⟩)

/-- The cursor at another position, or at the end if there is none such. -/
def seek (position : Nat) (c : Cursor) : Cursor :=
  ⟨c.tokens.take position, c.tokens.drop position⟩

/-- The token at the place has this kind (`next_is_kind`). -/
def nextHasKind (kind : Token.Kind) (c : Cursor) : Bool :=
  c.rest.head?.any (·.kind == kind)

/-- The token at the place has this kind and this text (`next_is`). -/
def nextIs (kind : Token.Kind) (text : String) (c : Cursor) : Bool :=
  c.rest.head?.any fun t => t.kind == kind && t.text == text

/-- No token is left (`at_end`). -/
def atEnd (c : Cursor) : Bool :=
  c.rest.isEmpty

/-! ## Lemmas -/

@[simp] theorem tokens_ofTokens (tokens : List Token) : (ofTokens tokens).tokens = tokens := rfl

@[simp] theorem tokens_next (c : Cursor) : c.next?.2.tokens = c.tokens := by
  unfold next? tokens
  split
  · rfl
  · rename_i h
    simp [h]

@[simp] theorem tokens_seek (position : Nat) (c : Cursor) :
    (c.seek position).tokens = c.tokens := by
  simp [seek, tokens]

theorem position_seek (position : Nat) (c : Cursor) :
    (c.seek position).position = min position c.tokens.length := by
  simp [seek, Cursor.position]

/-- Going back to the position a cursor has is no move. -/
theorem seek_position (c : Cursor) : c.seek c.position = c := by
  simp [seek, tokens, Cursor.position]

end Cursor

end ProtocolGraph
