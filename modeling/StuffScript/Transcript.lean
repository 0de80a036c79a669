/-!
# Transcripts

What a program says, in order: results, complaints and traces.
-/

namespace StuffScript

/-- The channels: for results, for complaints and for traces. -/
inductive Channel where
  | out
  | err
  | trace
deriving DecidableEq, Repr

/-- A text said on a channel. -/
structure Utterance where
  channel : Channel
  text : String
deriving DecidableEq, Repr

/-- What was said, in order. -/
abbrev Transcript := List Utterance

namespace Transcript

/-- A text on the channel for results; none if it is empty. -/
def say (text : String) : Transcript := if text.isEmpty then [] else [⟨.out, text⟩]

/-- A line on the channel for results. -/
def sayLine (text : String) : Transcript := say (text ++ "\n")

/-- A line on the channel for complaints. -/
def complain (text : String) : Transcript := [⟨.err, text ++ "\n"⟩]

/-- All that was said on some channels. -/
def textOn (cs : List Channel) (t : Transcript) : String :=
  String.join ((t.filter fun u => cs.contains u.channel).map Utterance.text)

end Transcript

end StuffScript
