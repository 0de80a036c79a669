/-!
# Documents to be written

The nodes of a YAML document. A scalar is either a string, whatever its text looks like, or a text
that is to be read as what it looks like.
-/

namespace StuffScript.Yaml

/-- A node. The items of a flow sequence are strings, written on one line. -/
inductive Node where
  | string (value : String)
  | bare (value : String)
  | flow (items : List String)
  | sequence (items : List Node)
  | mapping (entries : List (String × Node))

instance : Inhabited Node := ⟨.sequence []⟩

end StuffScript.Yaml
