import ProtocolGraph.Statement.Basic

/-!
# Introducing keywords in statements

An argument that a keyword may introduce is read in the same way with and without it.

* `Form.Introduced`: the keyword has been put in front of arguments, the first of which is no
  keyword, or nothing has been done.
* `Form.Introduced.named`: reading the argument then gives the same answer.
* `Node.Respelt`: a node in a process body in which `:message` has been put in front of names of
  messages, at any depth of branches.
* **`Node.Respelt.ofNode_eq`**: it is read as the same statement.
-/

namespace ProtocolGraph

/-! ## Arguments -/

namespace Form

/-- The keyword has been put in front of the first argument, if that is no keyword, or not. -/
inductive Introduced (keyword : String) : List Node → List Node → Prop
  | kept (arguments) : Introduced keyword arguments arguments
  | put {n} (plain : n.kind ≠ .keyword) (rest) :
      Introduced keyword (n :: rest) (.keyword keyword :: n :: rest)

variable {keyword form : String} {arguments arguments' : List Node}

/-- **The keyword makes no difference** to reading the argument, nor to what is left. -/
theorem Introduced.named (h : Introduced keyword arguments arguments') (form : String) :
    (⟨form, arguments'⟩ : Form).named keyword = (⟨form, arguments⟩ : Form).named keyword := by
  cases h with
  | kept => rfl
  | @put n plain rest =>
    have put : (⟨form, .keyword keyword :: n :: rest⟩ : Form).named keyword =
        .ok (n, ⟨form, rest⟩) := named_eq_ok_iff.mpr (Or.inl rfl)
    have bare : (⟨form, n :: rest⟩ : Form).named keyword = .ok (n, ⟨form, rest⟩) :=
      named_eq_ok_iff.mpr (Or.inr ⟨rfl, plain⟩)
    rw [put, bare]

end Form

/-! ## Statements -/

namespace Node

mutual

/-- In a node of a process body, `:message` has been put in front of names of messages: of the one
that the node sends or receives, or of those in the branches of an `if`. -/
inductive Respelt : Node → Node → Prop
  | kept (n) : Respelt n n
  | message {form arguments arguments'} (exchange : form = "!send" ∨ form = "?receive")
      (introduced : Form.Introduced ":message" arguments arguments') :
      Respelt (.list (.symbol form :: arguments)) (.list (.symbol form :: arguments'))
  | branches {guard branches branches'} (each : RespeltAll branches branches') :
      Respelt (.list (.symbol "if" :: guard :: branches))
        (.list (.symbol "if" :: guard :: branches'))

/-- So it has been in each node of a list. -/
inductive RespeltAll : List Node → List Node → Prop
  | nil : RespeltAll [] []
  | cons {n n' rest rest'} (head : Respelt n n') (tail : RespeltAll rest rest') :
      RespeltAll (n :: rest) (n' :: rest')

end

end Node

namespace Statement

open Node

variable {arguments arguments' : List Node}

theorem readMessage_introduced (h : Form.Introduced ":message" arguments arguments')
    (form : String) : readMessage ⟨form, arguments'⟩ = readMessage ⟨form, arguments⟩ := by
  rw [readMessage, h.named, readMessage]

/-- A message is read in the same way with and without the keyword in front. -/
theorem ofNode_introduced {form : String} (exchange : form = "!send" ∨ form = "?receive")
    (h : Form.Introduced ":message" arguments arguments') :
    ofNode (.list (.symbol form :: arguments')) = ofNode (.list (.symbol form :: arguments)) := by
  rcases exchange with rfl | rfl
  · show orMisread _ (readSend _) = orMisread _ (readSend _)
    rw [readSend, readMessage_introduced h, readSend]
  · show orMisread _ (readReceive _) = orMisread _ (readReceive _)
    rw [readReceive, readMessage_introduced h, readReceive]

end Statement

namespace Node

open Statement

theorem RespeltAll.length_eq : ∀ {ns ns' : List Node}, RespeltAll ns ns' → ns'.length = ns.length
  | _, _, .nil => rfl
  | _, _, .cons _ tail => congrArg (· + 1) tail.length_eq

/-- Of a branch with too many arguments only their number counts. -/
theorem ofNode_crowded (guard consequent alternative extra : Node) (rest : List Node) :
    ofNode (.list (.symbol "if" :: guard :: consequent :: alternative :: extra :: rest)) =
      guarded guard fun _ => .misread "if" (.argument (.trailing (rest.length + 1))) := by
  rw [ofNode, List.length_cons]
  exact nofun

/-- **The same statement is read** with and without the keywords. -/
theorem Respelt.ofNode_eq : ∀ {n n' : Node}, n.Respelt n' → ofNode n' = ofNode n
  | _, _, .kept n => rfl
  | _, _, .message exchange introduced => ofNode_introduced exchange introduced
  | _, _, .branches .nil => rfl
  | _, _, .branches (.cons consequent .nil) => by
    rw [ofNode, ofNode, consequent.ofNode_eq]
  | _, _, .branches (.cons consequent (.cons alternative .nil)) => by
    rw [ofNode, ofNode, consequent.ofNode_eq, alternative.ofNode_eq]
  | _, _, .branches (.cons _ (.cons _ (.cons _ tail))) => by
    rw [ofNode_crowded, ofNode_crowded, tail.length_eq]

theorem RespeltAll.map_ofNode : ∀ {ns ns' : List Node}, RespeltAll ns ns' →
    ns'.map ofNode = ns.map ofNode
  | _, _, .nil => rfl
  | _, _, .cons head tail => by
    rw [List.map_cons, List.map_cons, head.ofNode_eq, tail.map_ofNode]

end Node

end ProtocolGraph
