/-!
# Messages

A `Message` declares the name and the fields of the messages of one sort.
-/

namespace ProtocolGraph

/-- The declaration of a message. A field may be declared more than once. -/
structure Message where
  /-- The name. -/
  name : String
  /-- The names of the fields, in the order of declaration. -/
  fields : List String
deriving DecidableEq

/-- The declaration as source text (the `Display` of `Message`). -/
def Message.render (m : Message) : List Char :=
  "(defmessage ".toList ++ m.name.toList ++
    m.fields.flatMap (fun field => " (field ".toList ++ field.toList ++ [')']) ++ [')']

/-- The declaration as source text, as a string. -/
def Message.text (m : Message) : String :=
  String.ofList m.render

end ProtocolGraph
